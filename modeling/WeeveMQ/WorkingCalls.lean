/-
  WeeveMQ.WorkingCalls

  When a call succeeds: with a storage and a cryptography that work
  (`UsesCryptography`), a session that has what the call needs gets its
  message, and its peer accepts it.

  - `getMessage_succeeds`, `processMessage_succeeds`: control messages, under a
    session key both ends hold (`HasKey`).
  - `export_succeeds`, `establish_succeeds`: session establishment messages.
-/

import WeeveMQ.LabelTables
import WeeveMQ.SecureChannel
import WeeveMQ.SessionInvariant

namespace WeeveMQ

open Call
open WclSmpMessageType

variable {cbor : TinyCbor} {role : Role} {env : Env} {s s' : Session}

/-! ## Cryptography -/

/-- The functions libtomcrypt computes, and what makes two ends understand each
    other.  Signatures are randomised, so they are a relation. -/
structure Cryptography where
  isPrivateKey : Bytes → Prop
  pub : Bytes → Bytes
  dh : Bytes → Bytes → Bytes
  hash : Bytes → Bytes
  /-- A signature of this key and hash. -/
  signs : Bytes → Bytes → Bytes → Prop
  signatureLength : Nat
  encrypt : Bytes → Bytes → Bytes → Bytes → Bytes × Bytes
  decrypt : Bytes → Bytes → Bytes → Bytes → Bytes × Bytes
  /-- The root certificate vouches for the certificate of this signing key. -/
  vouches : Bytes → Bytes → Bytes → Prop
  signs_length : ∀ {key hash signature}, signs key hash signature →
    signature.length = signatureLength
  signatureLength_pos : 0 < signatureLength
  dh_comm : ∀ {a b}, isPrivateKey a → isPrivateKey b → dh a (pub b) = dh b (pub a)
  decrypt_encrypt : ∀ key iv aad plainText,
    decrypt key iv aad (encrypt key iv aad plainText).1 =
      (plainText, (encrypt key iv aad plainText).2)

/-- Every storage and crypto call with valid inputs succeeds, with these values. -/
structure UsesCryptography (C : Cryptography) (env : Env) : Prop where
  storage : StorageWorks env
  random : ∀ draw n, n ≠ 0 → ∃ b, env.randomBytes draw n = some b
  makeKey : ∀ {privateKey publicKey}, env.eccMakeKey = some (privateKey, publicKey) →
    C.isPrivateKey privateKey ∧ publicKey = C.pub privateKey
  sharedSecret : ∀ {a b}, C.isPrivateKey a → C.isPrivateKey b →
    env.eccSharedSecret a (C.pub b) = some (C.dh a (C.pub b))
  hash : ∀ data, env.hashMemory data = some (C.hash data)
  sign : ∀ {root cert key}, C.vouches root cert key →
    ∀ hash, ∃ signature, env.eccSignHash key hash = some signature ∧ C.signs key hash signature
  validate : ∀ {root cert key data signature}, C.vouches root cert key →
    C.signs key (C.hash data) signature →
    env.wosCertValidateData root [cert] data signature = true
  encrypt : ∀ {key}, key.length = WOS_CRYPTO_AE_AES256_KEY_LENGTH → ∀ iv aad plainText,
    env.gcmEncrypt key iv aad plainText = some (C.encrypt key iv aad plainText)
  decrypt : ∀ {key}, key.length = WOS_CRYPTO_AE_AES256_KEY_LENGTH → ∀ iv aad cipherText,
    env.gcmDecrypt key iv aad cipherText = some (C.decrypt key iv aad cipherText)

variable {C : Cryptography}

theorem UsesCryptography.bounded (h : UsesCryptography C env) : UsesCryptography C env.bounded where
  storage := ⟨h.storage.writes, h.storage.reads, h.storage.deletes⟩
  random := h.random
  makeKey := h.makeKey
  sharedSecret := h.sharedSecret
  hash := h.hash
  sign := h.sign
  validate := h.validate
  encrypt := h.encrypt
  decrypt := h.decrypt

/-! ## Secured messages -/

/-- A session that holds the session key. -/
structure HasKey (key : Bytes) (s : Session) : Prop where
  established : s.ctx.isSessionKeyEstablished = true
  clientId : wosStringLength s.ctx.clientId ≤ WCL_SMP_CLIENT_ID_LENGTH
  keyId : lWosStorageIsKeyValid s.ctx.sessionSharedKeyStorageId = true
  stored : s.storage s.ctx.sessionSharedKeyStorageId = some key
  length : key.length = WOS_CRYPTO_AE_AES256_KEY_LENGTH

/-- The types `wclSmp.h` lists for sending by this role and processing by its
    peer, without CONNECT and CONNACK, and the pings. -/
def channelTypes : Role → List Nat
  | .client => [publish.code, puback.code, pubrec.code, pubrel.code, pubcomp.code, subscribe.code,
      unsubscribe.code, disconnect.code, pingreq.code]
  | .broker => [publish.code, puback.code, pubrec.code, pubrel.code, pubcomp.code, suback.code,
      unsuback.code, pingresp.code]

/-- What the code decides about each of these types. -/
theorem channelTypes_decisions {t : Nat} (h : t ∈ channelTypes role) :
    isSecurable role t = true ∧ isReceivable role.peer t = true ∧
      hasClearMqttPacket role.peer t = !encryptMqttPacket t ∧
      t ≠ (seMessageType role).code ∧ t ≠ (seMessageType role.peer.peer).code ∧
      3 ≤ t ∧ t ≤ 14 := by
  revert h
  cases role
  · simp only [channelTypes, List.mem_cons, List.not_mem_nil, or_false]
    rintro (rfl | rfl | rfl | rfl | rfl | rfl | rfl | rfl | rfl) <;> decide
  · simp only [channelTypes, List.mem_cons, List.not_mem_nil, or_false]
    rintro (rfl | rfl | rfl | rfl | rfl | rfl | rfl | rfl) <;> decide

/-- A packet on its way. -/
structure Item where
  messageType : Nat
  messageId : UInt32
  packet : Bytes

/-- A message of this sender that carries a packet under the session key. -/
structure Carries (cbor : TinyCbor) (C : Cryptography) (key : Bytes) (sender : Role) (i : Item)
    (message : Bytes) : Prop where
  type : i.messageType ∈ channelTypes sender ∧ i.messageType ≤ 13
  header : ∃ h, wosMsgUnpackSmpHeaderFromSmpMsg cbor message = .ok h ∧
    h.messageContext = WOS_MSG_CONTEXT_SMP_MQTTS ∧ h.messageType = i.messageType ∧
    h.messageId = i.messageId
  params : ∃ p plainText, wosMsgUnpackSmpMqttsControlMessage cbor message = .ok p ∧
    p.encodedSmpHeader ≠ [] ∧ p.mqttPacket ≠ [] ∧ p.iv ≠ [] ∧ p.authTag ≠ [] ∧
    (p.encodedSmpHeader ++ sentLabel sender i.messageType ++
      (if encryptMqttPacket i.messageType then [] else p.mqttPacket)).length < 2 ^ 32 ∧
    C.decrypt key p.iv (p.encodedSmpHeader ++ sentLabel sender i.messageType ++
        (if encryptMqttPacket i.messageType then [] else p.mqttPacket))
      (if encryptMqttPacket i.messageType then p.mqttPacket else []) = (plainText, p.authTag) ∧
    (if encryptMqttPacket i.messageType then plainText else p.mqttPacket) = i.packet

/-- The message of an encryption carries its packet. -/
theorem Sealing.carries {key packet : Bytes} {t : Nat} {m : SealedMessage}
    (crypto : UsesCryptography C env) (hkey : HasKey key s) (ht : t ∈ channelTypes role)
    (h13 : t ≤ 13) (h : Sealing role env s t packet m)
    (hsize : m.serializedBufSize t packet < 2 ^ 32) :
    Carries cbor C key role ⟨t, s.ctx.toBeSentMessageId, packet⟩
      (encodeSmpMqttsControlMessage (m.controlParams t packet)) := by
  have hiv := h.iv_length
  have htag := h.tag_length
  obtain ⟨label, hlabel, haad⟩ := h.aad
  rw [msgLabel_eq h13, Option.some.injEq] at hlabel
  subst hlabel
  obtain ⟨key', hstored, -, -, henc⟩ := h.encrypted
  obtain rfl : key = key' := Option.some.inj (hkey.stored.symm.trans hstored)
  rw [crypto.encrypt hkey.length, Option.some.injEq] at henc
  have hdec := C.decrypt_encrypt key m.ae.iv m.aad m.plainText
  rw [henc] at hdec
  refine ⟨⟨ht, h13⟩, ⟨_, h.header_unpacked cbor hsize, rfl, ?_, rfl⟩,
    ⟨_, m.plainText, h.unpacked cbor hsize, h.header_ne, h.payload_ne, ?_, ?_, ?_, ?_, ?_⟩⟩
  · exact Nat.mod_eq_of_lt (show t < 256 by omega)
  · intro hnil
    rw [show m.ae.iv = [] from hnil] at hiv
    simp at hiv
  · intro hnil
    rw [show m.ae.tag = [] from hnil] at htag
    simp at htag
  · have hlen := h.aad_length
    rw [haad] at hlen
    show (m.encodedHeader ++ _ ++ (if encryptMqttPacket t then [] else _)).length < _
    cases hencrypt : encryptMqttPacket t <;> simpa [SealedMessage.controlParams, hencrypt] using hlen
  · have hct := h.cipherText_length
    rw [haad] at hdec
    cases hencrypt : encryptMqttPacket t
    · rw [hencrypt] at hct
      have hnil := List.eq_nil_of_length_eq_zero hct
      simpa [SealedMessage.controlParams, hencrypt, hnil] using hdec
    · simpa [SealedMessage.controlParams, hencrypt] using hdec
  · have hplain := h.plainText
    cases hencrypt : encryptMqttPacket t <;>
      simp [SealedMessage.controlParams, hencrypt, hplain]

/-- The size `smpSecureMessage` computes for its buffer, in terms of what it is
    given. -/
def securedSize (s : Session) (messageType : Nat) (packet : Bytes) : Nat :=
  44 + (encodeSmpHeader (sentHeader s.ctx messageType)).length + packet.length

/-- A session with the key can encrypt. -/
theorem seal_succeeds (role : Role) {key packet : Bytes} {t : Nat} (crypto : UsesCryptography C env)
    (hkey : HasKey key s) (ht : 3 ≤ t ∧ t ≤ 13) (hne : packet ≠ [])
    (hsize : securedSize s t packet < 2 ^ 32) :
    ∃ m, Sealing role env s t packet m ∧ m.serializedBufSize t packet < 2 ^ 32 := by
  obtain ⟨iv, hiv⟩ := crypto.random 0 WOS_CRYPTO_AE_AES_GCM_IV_LENGTH (by decide)
  let header := encodeSmpHeader (sentHeader s.ctx t)
  let plainText := if encryptMqttPacket t then packet else []
  let aad := header ++ sentLabel role t ++ (if encryptMqttPacket t then [] else packet)
  let sealedText := C.encrypt key iv aad plainText
  have hlabel : (sentLabel role t).length = 10 := sentLabel_length ⟨by omega, ht.2⟩
  have haad : aad.length < 2 ^ 32 := by
    have hclear : (if encryptMqttPacket t then [] else packet).length ≤ packet.length := by
      split_ifs <;> simp
    simp only [aad, List.length_append, hlabel]
    unfold securedSize at hsize
    simp only [header]
    omega
  have hseal : Sealing role env s t packet
      ⟨header, aad, plainText, ⟨iv, sealedText.1, sealedText.2⟩⟩ :=
    ⟨hne, ⟨by omega, by omega⟩, hkey.established, hkey.clientId, rfl,
      ⟨sentLabel role t, msgLabel_eq ht.2, rfl⟩, haad, rfl, ⟨hkey.keyId, crypto.storage.reads _⟩,
      ⟨key, hkey.stored, hkey.length, hiv, crypto.encrypt hkey.length _ _ _⟩⟩
  refine ⟨_, hseal, ?_⟩
  rw [hseal.serializedBufSize_eq]
  exact hsize

/-- A message of the channel is obtained, and carries its packet. -/
theorem getMessage_succeeds {key packet : Bytes} {t : Nat} (cbor : TinyCbor)
    (crypto : UsesCryptography C env) (hkey : HasKey key s) (ht : t ∈ channelTypes role)
    (h13 : t ≤ 13) (hne : packet ≠ []) (hsize : securedSize s t packet < 2 ^ 32) :
    ∃ message, wclSmpGetMessage cbor role env t packet s = some (.ok message, s.sent) ∧
      Carries cbor C key role ⟨t, s.ctx.toBeSentMessageId, packet⟩ message := by
  have hdecisions := channelTypes_decisions ht
  obtain ⟨m, hseal, hfits⟩ := seal_succeeds role crypto hkey ⟨by omega, h13⟩ hne hsize
  exact ⟨_, wclSmpGetMessage_ok.mpr (.inr ⟨hdecisions.1, m, hseal, hfits, rfl, rfl⟩),
    hseal.carries crypto hkey ht h13 hfits⟩

/-- A message of the channel is accepted by the peer, and its packet delivered. -/
theorem processMessage_succeeds {key message : Bytes} {sender : Role} {i : Item}
    (crypto : UsesCryptography C env) (hkey : HasKey key s)
    (carries : Carries cbor C key sender i message)
    (hlast : s.ctx.lastReceivedMessageId ≤ i.messageId) :
    wclSmpProcessMessage cbor sender.peer env message s =
      some (.ok i.packet, s.received i.messageId) := by
  obtain ⟨ht, h13⟩ := carries.type
  obtain ⟨-, hreceivable, hclear, -, hnotSe, -, -⟩ := channelTypes_decisions ht
  obtain ⟨h, hunpack, hcontext, htype, hid⟩ := carries.header
  obtain ⟨p, plainText, hp, hheader, hpayload, hiv, htag, hlen, hdec, hpacket⟩ := carries.params
  have hclear' : hasClearMqttPacket sender.peer h.messageType = !encryptMqttPacket i.messageType := by
    rw [htype, hclear]
  have haad : (if hasClearMqttPacket sender.peer h.messageType then p.mqttPacket else []) =
      if encryptMqttPacket i.messageType then [] else p.mqttPacket := by
    rw [hclear']
    cases encryptMqttPacket i.messageType <;> rfl
  have hcipher : (if hasClearMqttPacket sender.peer h.messageType then [] else p.mqttPacket) =
      if encryptMqttPacket i.messageType then p.mqttPacket else [] := by
    rw [hclear']
    cases encryptMqttPacket i.messageType <;> rfl
  have hopened : ControlOpened cbor sender.peer env s h.messageType message p plainText := by
    refine ⟨hkey.established, hp, hheader, hpayload, hiv, htag,
      ⟨hkey.keyId, crypto.storage.reads _⟩, sentLabel sender i.messageType, _, key, ?_, rfl, ?_,
      hkey.stored, hkey.length, ?_⟩
    · rw [Role.peer_peer, htype]
      exact msgLabel_eq h13
    · rw [haad]
      exact hlen
    · rw [crypto.decrypt hkey.length, haad, hcipher, hdec]
  have hdelivered : deliveredPacket sender.peer h.messageType p plainText = i.packet := by
    rw [← hpacket, deliveredPacket, hclear']
    cases encryptMqttPacket i.messageType <;> rfl
  refine wclSmpProcessMessage_ok.mpr (smpProcessMessage_ok.mpr (.inr
    ⟨h, p, plainText, ⟨⟨hunpack, hcontext, ?_, ?_⟩, ?_, hopened⟩, hdelivered.symm, ?_⟩))
  · rw [htype]
    exact hreceivable
  · rw [hid]
    exact hlast
  · rw [htype]
    exact hnotSe
  · rw [hid]

/-! ## Session establishment -/

/-- An entry of the storage that can be read once the storage works. -/
structure Stores (s : Session) (id : StorageId) (content : Bytes) : Prop where
  keyId : lWosStorageIsKeyValid id = true
  stored : s.storage id = some content
  content_ne : content ≠ []

theorem Stores.readable {id : StorageId} {content : Bytes} (works : StorageWorks env)
    (h : Stores s id content) : Readable env s id content :=
  ⟨h.keyId, h.stored, h.content_ne, works.reads id⟩

/-- A session that can export its parameters: `own` is its private key,
    `selfCert` and `selfKey` are the credentials of its device. -/
structure Exportable (C : Cryptography) (own selfCert selfKey : Bytes) (s : Session) : Prop where
  clientId : wosStringLength s.ctx.clientId ≤ WCL_SMP_CLIENT_ID_LENGTH
  publicKey : Stores s s.ctx.sessionPublicKeyStorageId (C.pub own)
  selfCert : Stores s s.ctx.selfCertChainStorageId selfCert
  selfKey : Stores s s.ctx.selfPrivKeyStorageId selfKey

/-- The size `lSmpSignSeParams` computes, in terms of what it is given. -/
def exportedSize (C : Cryptography) (role : Role) (s : Session) (packet : Bytes) : Nat :=
  let publicKey := (s.storage s.ctx.sessionPublicKeyStorageId).getD []
  let selfCert := (s.storage s.ctx.selfCertChainStorageId).getD []
  SMP_MQTTS_SE_MSG_SERIALIZER_SIZE_OVERHEAD +
    (seSignedParts role (encodeSmpHeader (sentHeader s.ctx (seMessageType role).code))
      WCL_SMP_CIPHER_SCHEME_ID0 publicKey packet).flatten.length +
    C.signatureLength + 1 + selfCert.length

/-- What a session exports when everything it needs is there. -/
theorem export_succeeds (role : Role) {own selfCert selfKey root packet : Bytes}
    (crypto : UsesCryptography C env) (able : Exportable C own selfCert selfKey s)
    (vouched : C.vouches root selfCert selfKey) (hne : packet ≠ [])
    (hsize : exportedSize C role s packet < 2 ^ 32) :
    ∃ p, Exporting role env s packet p ∧ p.eccDhPubParams = C.pub own ∧ p.certs = [selfCert] ∧
      C.signs selfKey (C.hash (p.signedData role)) p.signature := by
  let header := encodeSmpHeader (sentHeader s.ctx (seMessageType role).code)
  let signed := (seSignedParts role header WCL_SMP_CIPHER_SCHEME_ID0 (C.pub own) packet).flatten
  obtain ⟨signature, hsign, hsigns⟩ := crypto.sign vouched (C.hash signed)
  have hlen := C.signs_length hsigns
  have hpos := C.signatureLength_pos
  have htotal : SMP_MQTTS_SE_MSG_SERIALIZER_SIZE_OVERHEAD + signed.length + signature.length + 1 +
      selfCert.length < 2 ^ 32 := by
    simp only [exportedSize, able.publicKey.stored, able.selfCert.stored, Option.getD_some] at hsize
    rw [hlen]
    exact hsize
  refine ⟨⟨header, WCL_SMP_CIPHER_SCHEME_ID0, C.pub own, packet, signature, 1, [selfCert]⟩,
    ⟨hne, able.clientId, rfl, rfl, able.publicKey.readable crypto.storage, rfl, ?_,
      ⟨selfKey, C.hash signed, able.selfKey.readable crypto.storage, crypto.hash _, hsign⟩, ?_, rfl,
      ⟨selfCert, able.selfCert.readable crypto.storage, rfl⟩, ?_⟩, rfl, rfl, hsigns⟩
  · show signed.length < 2 ^ 32
    omega
  · intro hnil
    rw [show signature = [] from hnil] at hlen
    rw [List.length_nil] at hlen
    omega
  · rw [WosMsgMqttsSeParams.totalBytesLength, List.map_singleton, List.sum_singleton]
    exact htotal

/-- A session that can accept the parameters of its peer: `own` is its private
    key, `root` the certificate it trusts. -/
structure Acceptable (C : Cryptography) (own root : Bytes) (s : Session) : Prop where
  privateKey : Stores s s.ctx.sessionPrivateKeyStorageId own
  isPrivateKey : C.isPrivateKey own
  sharedId : lWosStorageIsKeyValid s.ctx.sessionSharedKeyStorageId = true
  rootCa : Stores s s.ctx.rootCaStorageId root

theorem signedData_receivedFrom {p : WosMsgMqttsSeParams} (role : Role) :
    (p.receivedFrom role).signedData role = p.signedData role := by
  cases role <;> rfl

/-- The message of the peer is accepted, and gives the shared secret. -/
theorem establish_succeeds {own peer selfCert selfKey root packet : Bytes} {env' : Env}
    {t : Session} {p : WosMsgMqttsSeParams} (cbor : TinyCbor) (crypto : UsesCryptography C env)
    (able : Acceptable C own root s) (exporting : Exporting role env' t packet p)
    (hpub : p.eccDhPubParams = C.pub peer) (hpeer : C.isPrivateKey peer)
    (hcerts : p.certs = [selfCert]) (vouched : C.vouches root selfCert selfKey)
    (hsigns : C.signs selfKey (C.hash (p.signedData role)) p.signature)
    (hlast : s.ctx.lastReceivedMessageId ≤ t.ctx.toBeSentMessageId) :
    wclSmpProcessMessage cbor role.peer env (encodeSmpMqttsSEMessage role p) s =
      some (.ok packet, (s.keyed env role.peer (C.dh own (C.pub peer))).received
        t.ctx.toBeSentMessageId) := by
  have hverified : SeVerified role.peer env s (p.receivedFrom role) := by
    refine ⟨?_, exporting.publicKey.2.2.1, ?_, ?_, ?_, ?_, root,
      able.rootCa.readable crypto.storage, ?_⟩
    · show p.encodedSmpHeader ≠ []
      rw [exporting.header]
      exact encodeSmpHeader_ne_nil _
    · show p.mqttPacket ≠ []
      rw [exporting.mqttPacket]
      exact exporting.packet_ne
    · intro hbroker
      obtain rfl : role = .client := by
        cases role
        · rfl
        · cases hbroker
      exact exporting.cipherSchemeId
    · show 1 ≤ p.numCerts
      rw [exporting.numCerts]
      decide
    · rw [Role.peer_peer, signedData_receivedFrom]
      exact exporting.signed_length
    · rw [Role.peer_peer, signedData_receivedFrom]
      show env.wosCertValidateData root p.certs _ p.signature = true
      rw [hcerts]
      exact crypto.validate vouched hsigns
  have hshared : env.eccSharedSecret own (p.receivedFrom role).eccDhPubParams =
      some (C.dh own (C.pub peer)) := by
    show env.eccSharedSecret own p.eccDhPubParams = _
    rw [hpub]
    exact crypto.sharedSecret able.isPrivateKey hpeer
  have htype : (sentHeader t.ctx (seMessageType role).code).narrowed.messageType =
      (seMessageType role).code := by
    cases role <;> rfl
  have haccepted : SeAccepted cbor role.peer env s (encodeSmpMqttsSEMessage role p)
      (sentHeader t.ctx (seMessageType role).code).narrowed (p.receivedFrom role)
      (C.dh own (C.pub peer)) := by
    refine ⟨⟨exporting.header_unpacked cbor, rfl, ?_, hlast⟩, ?_,
      ⟨exporting.unpacked cbor, hverified, ⟨own, able.privateKey.readable crypto.storage, hshared⟩,
        able.sharedId⟩, crypto.storage.writes _ _⟩
    · rw [htype]
      cases role <;> rfl
    · rw [htype, Role.peer_peer]
  exact wclSmpProcessMessage_ok.mpr (smpProcessMessage_ok.mpr (.inl
    ⟨_, _, _, haccepted, exporting.mqttPacket.symm, rfl⟩))

end WeeveMQ
