/-
  WeeveMQ.MessageSizes

  How long the messages around a packet are.

  The buffers messages are packed into have a size that is estimated before
  anything is packed.  `estimated_buffers_suffice` says that every estimate
  covers its encoding.

  `packet__alloc` admits a packet whose length takes four bytes.  So must the
  length of the message around it, which is longer: `framing_succeeds_iff`
  says for which packets `mosq_wclSmpGetMessage` succeeds.
-/

import WeeveMQ.MosqSession
import WeeveMQ.ReceivePaths
import WeeveMQ.SmpRoundTrip

namespace WeeveMQ

open Call

/-! ## Estimated buffers -/

section Estimates

variable {cbor : TinyCbor} {role : Role}

/-- The size `lSmpSignSeParams` computes is that of a buffer the message fits into, and
    none of the sums behind it has a carry. -/
def SeBufferSuffices (cbor : TinyCbor) (role : Role) (header packet : Bytes) : Prop :=
  ∀ env s s' pub p size, lSmpSignSeParams role env header pub packet s = some (.ok (p, size), s') →
    pub.length = 65 → p.signature.length = 64 → (∀ cert ∈ p.certs, cert.length < 2 ^ 28) →
      p.totalBytesLength role < 2 ^ 32 ∧ size = p.totalBytesLength role ∧
        (encodeSmpMqttsSEMessage role p).length ≤ size ∧
        wosMsgPackSmpMqttsSEMessage cbor role p size = .ok (encodeSmpMqttsSEMessage role p)

/-- The size `smpSecureMessage` computes is that of a buffer the message fits into, and
    the sum behind it has no carry. -/
def ControlBufferSuffices (cbor : TinyCbor) (role : Role) (ctx : SmpSessionContext)
    (messageType : Nat) (header packet : Bytes) : Prop :=
  ∀ env s s' m, s.ctx = ctx →
    smpSealMessage cbor role env messageType packet s = some (.ok m, s') →
      m.encodedHeader = header ∧ m.ae.iv.length = 12 ∧ m.ae.tag.length = 16 ∧
        m.serializedBufSize messageType packet < 2 ^ 32 ∧
        (encodeSmpMqttsControlMessage (m.controlParams messageType packet)).length ≤
          m.serializedBufSize messageType packet ∧
        smpSecureMessage cbor role env messageType packet s =
          some (.ok (encodeSmpMqttsControlMessage (m.controlParams messageType packet)), s.sent)

theorem seBuffer_suffices {header packet : Bytes} (hne : header ≠ [])
    (hheader : header.length ≤ SMP_ENCODED_HEADER_LENGTH) (hpacket : packet ≠ [])
    (hlength : packet.length ≤ 2 ^ 28 + 4) : SeBufferSuffices cbor role header packet := by
  intro env s s' pub p size hsign hpub hsignature hcert
  obtain ⟨⟨signature, cert, rfl, hreadable⟩, -, -, rfl, -⟩ := lSmpSignSeParams_ok.mp hsign
  replace hcert : cert.length < 2 ^ 28 := hcert cert (List.mem_singleton_self cert)
  replace hsignature : signature.length = 64 := hsignature
  obtain ⟨p, hp⟩ : ∃ p : WosMsgMqttsSeParams, p =
      ⟨header, WCL_SMP_CIPHER_SCHEME_ID0, pub, packet, signature, 1, [cert]⟩ := ⟨_, rfl⟩
  rw [← hp]
  rw [SMP_ENCODED_HEADER_LENGTH, SMP_HEADER_MSG_SERIALIZER_SIZE_OVERHEAD,
    WCL_SMP_CLIENT_ID_LENGTH] at hheader
  -- the estimate leaves 41 bytes and what is signed for what CBOR adds
  have htotal : p.totalBytesLength role =
      41 + (p.signedData role).length + signature.length + cert.length := by
    have hcerts : (p.certs.map List.length).sum = cert.length := by
      rw [hp, List.map_singleton, List.sum_singleton]
    have hsig : p.signature.length = signature.length := by rw [hp]
    rw [WosMsgMqttsSeParams.totalBytesLength, SMP_MQTTS_SE_MSG_SERIALIZER_SIZE_OVERHEAD, hcerts,
      hsig]
    omega
  -- what is signed are the fields one behind the other, for the client with the scheme
  have hsigned : (p.signedData role).length = header.length +
      (encodeCipherSchemeId role WCL_SMP_CIPHER_SCHEME_ID0).length + pub.length +
      packet.length := by
    rw [WosMsgMqttsSeParams.signedData, hp]
    cases role
    · simp only [seSignedParts, signedCipherSchemeId, List.flatten_cons, List.flatten_nil,
        List.append_nil, List.length_append, List.length_singleton]
      rw [show (encodeCipherSchemeId .client WCL_SMP_CIPHER_SCHEME_ID0).length = 1 from rfl]
      omega
    · simp only [seSignedParts, signedCipherSchemeId, List.flatten_cons, List.flatten_nil,
        List.append_nil, List.nil_append, List.length_append]
      rw [show (encodeCipherSchemeId .broker WCL_SMP_CIPHER_SCHEME_ID0).length = 0 from rfl]
      omega
  have hscheme : (encodeCipherSchemeId role WCL_SMP_CIPHER_SCHEME_ID0).length ≤ 1 := by
    cases role <;> decide
  -- the lengths of the heads, by the lengths of what they announce
  have hencoded : (encodeSmpMqttsSEMessage role p).length ≤ p.totalBytesLength role := by
    have h1 : (Cbor.encodeHead 2 header.length).length ≤ 2 :=
      Cbor.encodeHead_length_le_two (by omega)
    have h2 : (Cbor.encodeHead 2 pub.length).length ≤ 2 :=
      Cbor.encodeHead_length_le_two (by omega)
    have h3 : (Cbor.encodeHead 2 packet.length).length ≤ 5 :=
      Cbor.encodeHead_length_le_of_lt (by omega)
    have h4 : (Cbor.encodeHead 2 signature.length).length ≤ 2 :=
      Cbor.encodeHead_length_le_two (by omega)
    have h5 : (Cbor.encodeHead 2 cert.length).length ≤ 5 :=
      Cbor.encodeHead_length_le_of_lt (by omega)
    have h6 : (Cbor.encodeHead 0 (1 : UInt8).toNat).length = 1 := rfl
    have htake : ([cert] : List Bytes).take (1 : UInt8).toNat = [cert] := rfl
    rw [htotal, hsigned, hp]
    simp only [encodeSmpMqttsSEMessage, htake, encodeCerts, List.flatMap_cons, List.flatMap_nil,
      Cbor.encodeString, List.length_cons, List.length_append, List.length_nil, h6]
    omega
  have hlt : p.totalBytesLength role < 2 ^ 32 := by
    rw [htotal, hsigned]
    omega
  rw [Nat.mod_eq_of_lt hlt]
  refine ⟨hlt, rfl, hencoded, (wosMsgPackSmpMqttsSEMessage_ok cbor).mpr ⟨?_, hencoded, rfl⟩⟩
  rw [hp]
  refine ⟨hne, ?_, hpacket, ?_, ?_, ?_⟩
  · intro hnil
    rw [show pub = [] from hnil] at hpub
    cases hpub
  · intro hnil
    rw [show signature = [] from hnil] at hsignature
    cases hsignature
  · show (1 : UInt8) ≤ 1
    decide
  · intro c hc
    rw [List.mem_singleton.mp (List.mem_of_mem_take hc)]
    exact hreadable.2.2.1

theorem controlBuffer_suffices {ctx : SmpSessionContext} {messageType : Nat} {packet : Bytes}
    (hlength : packet.length ≤ 2 ^ 28 + 4) :
    ControlBufferSuffices cbor role ctx messageType
      (encodeSmpHeader (sentHeader ctx messageType)) packet := by
  rintro env s s' m rfl hseal
  obtain ⟨hm, -⟩ := smpSealMessage_ok.mp hseal
  have hfits : m.serializedBufSize messageType packet < 2 ^ 32 := hm.fits (by omega)
  exact ⟨hm.header, hm.iv_length, hm.tag_length, hfits, hm.encode_length hfits,
    smpSecureMessage_ok.mpr ⟨m, hm, hfits, rfl, rfl⟩⟩

/-- The estimated buffers suffice: for the header of any message, for the session
    establishment message, and for the message around any packet `packet__alloc` can
    build. -/
theorem estimated_buffers_suffice (cbor : TinyCbor) (role : Role) (ctx : SmpSessionContext)
    (messageType : Nat) (packet : Bytes) (htype : messageType < 2 ^ 32)
    (hid : wosStringLength ctx.clientId ≤ WCL_SMP_CLIENT_ID_LENGTH) (hne : packet ≠ [])
    (hlength : packet.length ≤ 2 ^ 28 + 4) :
    ∃ header, lSmpPackHeader cbor ctx messageType = .ok header ∧
      header.length ≤ SMP_ENCODED_HEADER_LENGTH ∧
      SeBufferSuffices cbor role header packet ∧
      ControlBufferSuffices cbor role ctx messageType header packet := by
  have hheader := encodeSmpHeader_sent_length htype hid
  exact ⟨_, (lSmpPackHeader_ok htype).mpr ⟨hid, rfl⟩, hheader,
    seBuffer_suffices (encodeSmpHeader_ne_nil _) hheader hne hlength,
    controlBuffer_suffices hlength⟩

/-- A CONNECT with a public parameter of 65 bytes and a signature of 64, and a sealed PUBLISH. -/
theorem estimated_buffers_suffice_sample :
    (∃ p size, lSmpSignSeParams .client
          (Env.sampleWith (some ([1], List.replicate 65 2)) (List.replicate 64 3))
          [0x9f, 0, 0, 1, 0x60, 0, 0xff] (List.replicate 65 2) [6] Session.opened =
            some (.ok (p, size), Session.opened) ∧
        p.signature = List.replicate 64 3 ∧ size = p.totalBytesLength .client ∧
        wosMsgPackSmpMqttsSEMessage (rfc7049 64) .client p size =
          .ok (encodeSmpMqttsSEMessage .client p)) ∧
      ∃ m, smpSealMessage (rfc7049 64) .client Env.sample 3 [1, 2] Session.sample =
          some (.ok m, Session.sample) ∧
        m.encodedHeader = [0x9f, 0, 0, 3, 0x60, 0, 0xff] ∧
        (encodeSmpMqttsControlMessage (m.controlParams 3 [1, 2])).length ≤
          m.serializedBufSize 3 [1, 2] := by
  constructor
  · obtain ⟨header, hpacked, -, hse, -⟩ := estimated_buffers_suffice (rfc7049 64) .client
      Session.opened.ctx 1 [6] (by decide) (by decide) (by decide) (by decide)
    obtain rfl : header = [0x9f, 0, 0, 1, 0x60, 0, 0xff] := (Except.ok.inj hpacked).symm
    have hsign : lSmpSignSeParams .client
        (Env.sampleWith (some ([1], List.replicate 65 2)) (List.replicate 64 3))
        [0x9f, 0, 0, 1, 0x60, 0, 0xff] (List.replicate 65 2) [6] Session.opened =
          some (.ok (_, _), Session.opened) := rfl
    obtain ⟨-, hsize, -, hmessage⟩ := hse _ _ _ _ _ _ hsign (by decide) (by decide) (by decide)
    exact ⟨_, _, hsign, rfl, hsize, hmessage⟩
  · obtain ⟨header, hpacked, -, -, hcontrol⟩ := estimated_buffers_suffice (rfc7049 64) .client
      Session.sample.ctx 3 [1, 2] (by decide) (by decide) (by decide) (by decide)
    obtain rfl : header = [0x9f, 0, 0, 3, 0x60, 0, 0xff] := (Except.ok.inj hpacked).symm
    have hseal : smpSealMessage (rfc7049 64) .client Env.sample 3 [1, 2] Session.sample =
        some (.ok _, Session.sample) := rfl
    obtain ⟨hheader, -, -, -, hfits, -⟩ := hcontrol _ _ _ _ rfl hseal
    exact ⟨_, hseal, hheader, hfits⟩

end Estimates

/-! ## Frames -/

section Framing

variable {cbor : TinyCbor} {role : Role} {env : Env} {s : Session}

/-- The next two allocations succeed, and the address space has room for them. -/
def AllocationWorks {σ : Type} (env : Setup σ) (m : Mosq σ) : Prop :=
  ∀ length size, length < 2 ^ 32 → size < 2 ^ 32 → ∃ temp usable,
    env.malloc m.mallocs length = some temp ∧ env.malloc (m.mallocs + 1) size = some usable ∧
      size ≤ usable ∧ m.heap.liveSize (fun _ => true) + temp + usable < 2 ^ 64

/-- The session makes a message of the packet, the message fits into a frame, and there is
    memory for the frame. -/
def FramesPacket (env : Setup σ) (messageType : Nat) (packet : Bytes) (m : Mosq σ) : Prop :=
  ∃ message session usable,
    env.wclSmpGetMessage messageType packet m.session = some (.ok message, session) ∧
    message.length < 2 ^ 28 ∧
    env.malloc (m.mallocs + 1) (message.length + (Base128.encode 5 message.length).length) =
      some usable ∧
    message.length + (Base128.encode 5 message.length).length ≤ usable ∧
    m.heap.liveSize (fun _ => true) + (env.malloc m.mallocs message.length).getD message.length +
      usable < 2 ^ 64

/-- The block for a frame is the second that is allocated. -/
theorem hasFrameBlock_iff {σ : Type} {env : Setup σ} {m : Mosq σ} {length : Nat}
    (hlength : length < 2 ^ 28) : HasFrameBlock env length m ↔ ∃ usable,
      env.malloc (m.mallocs + 1) (length + (Base128.encode 5 length).length) = some usable ∧
      length + (Base128.encode 5 length).length ≤ usable ∧
      m.heap.liveSize (fun _ => true) + (env.malloc m.mallocs length).getD length + usable <
        2 ^ 64 := by
  rw [encode_fits hlength]
  constructor
  · intro h
    -- the first block is the library's, for the message itself
    obtain ⟨usable, husable, hsize, hroom⟩ := h _ _ rfl
    rw [HeapLog.liveSize_alloc] at hroom
    exact ⟨usable, husable, hsize, hroom⟩
  · rintro ⟨usable, husable, hsize, hroom⟩ temp m₁ hm₁
    cases hm₁
    refine ⟨usable, husable, hsize, ?_⟩
    rw [HeapLog.liveSize_alloc]
    exact hroom

/-- When `mosq_wclSmpGetMessage` frames a packet. -/
theorem mosqWclSmpGetMessage_ok_iff {σ : Type} {env : Setup σ} {m : Mosq σ} {messageType : Nat}
    {packet : Bytes} :
    (∃ buffer m', mosqWclSmpGetMessage env messageType packet m = some (.ok buffer, m')) ↔
      FramesPacket env messageType packet m := by
  constructor
  · rintro ⟨buffer, m', h⟩
    obtain ⟨message, m₁, h₁, -⟩ := bind_ok.mp h
    obtain ⟨session, hget, -⟩ := onPart_eq.mp (mapErr_ok.mp h₁)
    obtain ⟨r, m₂, hr, hcases⟩ := mosqWclSmpGetMessage_some hget
    rw [h] at hr
    rcases hcases with ⟨block, hlength, hblock, -⟩ | ⟨rfl, -⟩
    · obtain ⟨usable, hmemory⟩ := (hasFrameBlock_iff hlength).mp hblock
      exact ⟨message, session, usable, hget, hlength, hmemory⟩
    · cases hr
  · rintro ⟨message, session, usable, hget, hlength, hmemory⟩
    obtain ⟨r, m', hr, hcases⟩ := mosqWclSmpGetMessage_some hget
    rcases hcases with ⟨block, -, -, rfl⟩ | ⟨-, hlong | hnone⟩
    · exact ⟨_, m', hr⟩
    · omega
    · exact absurd ((hasFrameBlock_iff hlength).mpr ⟨usable, hmemory⟩) hnone

/-- With the memory it needs, `mosq_wclSmpGetMessage` frames every message whose length
    takes at most four bytes. -/
theorem mosqWclSmpGetMessage_succeeds_iff {σ : Type} {env : Setup σ} {m : Mosq σ}
    {messageType : Nat} {packet : Bytes} (allocates : AllocationWorks env m) :
    (∃ buffer m', mosqWclSmpGetMessage env messageType packet m = some (.ok buffer, m')) ↔
      ∃ message session, env.wclSmpGetMessage messageType packet m.session =
        some (.ok message, session) ∧ message.length < 2 ^ 28 := by
  rw [mosqWclSmpGetMessage_ok_iff]
  constructor
  · rintro ⟨message, session, _, hget, hlength, -⟩
    exact ⟨message, session, hget, hlength⟩
  · rintro ⟨message, session, hget, hlength⟩
    have hbytes : (Base128.encode 5 message.length).length ≤ 5 := Base128.encode_length_le 5 _
    obtain ⟨temp, usable, htemp, husable, hsize, hroom⟩ := allocates message.length
      (message.length + (Base128.encode 5 message.length).length) (by omega) (by omega)
    refine ⟨message, session, usable, hget, hlength, husable, hsize, ?_⟩
    rwa [htemp]

/-! ### The messages of a session -/

/-- The length of the control message around a packet of `n` bytes. -/
def controlMessageLength (s : Session) (messageType n : Nat) : Nat :=
  32 + (Cbor.encodeString 2 (encodeSmpHeader (sentHeader s.ctx messageType))).length +
    (Cbor.encodeHead 2 n).length + n

theorem Sealing.message_length {t : Nat} {packet : Bytes} {m : SealedMessage}
    (h : Sealing role env s t packet m) :
    (encodeSmpMqttsControlMessage (m.controlParams t packet)).length =
      controlMessageLength s t packet.length := by
  have hpayload := h.payload_length
  have hiv : (Cbor.encodeString 2 m.ae.iv).length = 13 := by
    rw [Cbor.encodeString, List.length_append, h.iv_length]
    rfl
  have htag : (Cbor.encodeString 2 m.ae.tag).length = 17 := by
    rw [Cbor.encodeString, List.length_append, h.tag_length]
    rfl
  have hpacket : (Cbor.encodeString 2 (m.controlParams t packet).mqttPacket).length =
      (Cbor.encodeHead 2 packet.length).length + packet.length := by
    rw [Cbor.encodeString, List.length_append, hpayload]
  simp only [encodeSmpMqttsControlMessage, List.length_cons, List.length_append, List.length_nil,
    hpacket]
  change (Cbor.encodeString 2 m.encodedHeader).length + (_ + ((Cbor.encodeString 2 m.ae.iv).length +
    ((Cbor.encodeString 2 m.ae.tag).length + _))) + 1 = _
  rw [hiv, htag, h.header, controlMessageLength]
  omega

/-- The string that is authenticated with a packet can be put together: there is a label
    for its type, or what stands behind the table can be read as one. -/
def HasAad (role : Role) (env : Env) (s : Session) (messageType : Nat) (packet : Bytes) : Prop :=
  ∃ label, msgLabel env (sentMsgLabels role) messageType = some label ∧
    (encodeSmpHeader (sentHeader s.ctx messageType) ++ label ++
      (if encryptMqttPacket messageType then [] else packet)).length < 2 ^ 32

/-- The types of the table have a label. -/
theorem HasAad.of_type {t : Nat} {packet : Bytes} (ht : 1 ≤ t ∧ t ≤ 13)
    (hid : wosStringLength s.ctx.clientId ≤ WCL_SMP_CLIENT_ID_LENGTH)
    (hlength : packet.length < 2 ^ 32 - 128) : HasAad role env s t packet := by
  refine ⟨sentLabel role t, msgLabel_eq ht.2, ?_⟩
  have hheader := @encodeSmpHeader_sent_length s.ctx t (by omega) hid
  have hlabel : (sentLabel role t).length ≤ 10 := by
    obtain ⟨h1, h13⟩ := ht
    cases role <;> interval_cases t <;> decide
  have hclear : (if encryptMqttPacket t then [] else packet).length ≤ packet.length := by
    split
    · exact Nat.zero_le _
    · exact Nat.le_refl _
  rw [SMP_ENCODED_HEADER_LENGTH, SMP_HEADER_MSG_SERIALIZER_SIZE_OVERHEAD,
    WCL_SMP_CLIENT_ID_LENGTH] at hheader
  rw [List.length_append, List.length_append]
  omega

/-- A session with its key seals a packet exactly when the string to authenticate can
    be put together. -/
theorem sealing_exists_iff {key packet : Bytes} {t : Nat} (holds : HoldsKey env key s)
    (works : AeEncrypts env key)
    (hid : wosStringLength s.ctx.clientId ≤ WCL_SMP_CLIENT_ID_LENGTH)
    (ht : isSecurable role t = true) (hne : packet ≠ []) :
    (∃ m, Sealing role env s t packet m) ↔ HasAad role env s t packet := by
  constructor
  · rintro ⟨m, hm⟩
    obtain ⟨label, hlabel, haad⟩ := hm.aad
    refine ⟨label, hlabel, ?_⟩
    have hlength := hm.aad_length
    rwa [haad, hm.header] at hlength
  · rintro ⟨label, hlabel, hlength⟩
    have hrange := isSecurable_range ht
    obtain ⟨hkeyId, hstored, -, hreads⟩ := holds.readable
    obtain ⟨⟨iv, hiv⟩, hencrypt⟩ := works
    obtain ⟨⟨cipherText, tag⟩, henc⟩ := hencrypt iv
      (encodeSmpHeader (sentHeader s.ctx t) ++ label ++
        (if encryptMqttPacket t then [] else packet))
      (if encryptMqttPacket t then packet else [])
    exact ⟨⟨_, _, _, ⟨iv, cipherText, tag⟩⟩, hne, ⟨by omega, hrange.2⟩, holds.established, hid, rfl,
      ⟨label, hlabel, rfl⟩, hlength, rfl, ⟨hkeyId, hreads⟩, key, hstored, holds.length, hiv, henc⟩

/-- The message around a packet can be made, and its length takes at most four bytes: a
    message under the session key, or the session establishment message of this role. -/
def MessageFits (role : Role) (env : Env) (s : Session) (messageType : Nat) (packet : Bytes) :
    Prop :=
  (isSecurable role messageType = true ∧ HasAad role env s messageType packet ∧
      controlMessageLength s messageType packet.length < 2 ^ 28) ∨
    messageType = (seMessageType role).code ∧
      ∃ p, Exporting role env s packet p ∧ (encodeSmpMqttsSEMessage role p).length < 2 ^ 28

theorem wclSmpGetMessage_fits_iff {key packet : Bytes} {t : Nat} (holds : HoldsKey env key s)
    (works : AeEncrypts env key)
    (hid : wosStringLength s.ctx.clientId ≤ WCL_SMP_CLIENT_ID_LENGTH) (hne : packet ≠ [])
    (hlength : packet.length < 2 ^ 32 - 128) :
    (∃ message s', wclSmpGetMessage cbor role env t packet s = some (.ok message, s') ∧
      message.length < 2 ^ 28) ↔ MessageFits role env s t packet := by
  constructor
  · rintro ⟨message, s', h, hfits⟩
    rcases wclSmpGetMessage_ok.mp h with ⟨ht, p, hp, rfl, -⟩ | ⟨ht, m, hm, -, rfl, -⟩
    · exact .inr ⟨ht, p, hp, hfits⟩
    · rw [hm.message_length] at hfits
      exact .inl ⟨ht, (sealing_exists_iff holds works hid ht hne).mp ⟨m, hm⟩, hfits⟩
  · rintro (⟨ht, haad, hfits⟩ | ⟨ht, p, hp, hfits⟩)
    · obtain ⟨m, hm⟩ := (sealing_exists_iff holds works hid ht hne).mpr haad
      refine ⟨_, _, wclSmpGetMessage_ok.mpr (.inr ⟨ht, m, hm, hm.fits hlength, rfl, rfl⟩), ?_⟩
      rw [hm.message_length]
      exact hfits
    · exact ⟨_, _, wclSmpGetMessage_ok.mpr (.inl ⟨ht, p, hp, rfl, rfl⟩), hfits⟩

end Framing

/-! ## Packets that `packet__alloc` admits -/

section Admitted

variable {platform : Platform} {role : Role}
  {handle : Nat → MosqState → Incoming → List HandlerAct × Except MosqError Unit}
  {m : Mosq SmpSession} {key : Bytes}

/-- An established session whose encryption works, and memory for a message. -/
structure CanSecure (platform : Platform) (role : Role)
    (handle : Nat → MosqState → Incoming → List HandlerAct × Except MosqError Unit)
    (m : Mosq SmpSession) (key : Bytes) : Prop where
  isOpen : m.session.isOpen = true
  holds : HoldsKey (platform.envs m.session.calls) key m.session.session
  encrypts : AeEncrypts (platform.envs m.session.calls) key
  clientId : wosStringLength m.session.session.ctx.clientId ≤ WCL_SMP_CLIENT_ID_LENGTH
  allocates : AllocationWorks (platform.setup role handle) m

theorem laidOut_length {σ : Type} {env : Setup σ} {command : UInt8} {body packet : Bytes}
    (h : LaidOut env command body packet) : packet ≠ [] ∧ packet.length ≤ 2 ^ 28 + 4 := by
  obtain ⟨hbody, rfl⟩ := h.eq
  have hbytes := Base128.encode_length_le 4 body.length
  refine ⟨List.cons_ne_nil _ _, ?_⟩
  rw [List.length_cons, List.length_append]
  omega

/-- Framing a packet, in terms of its session. -/
theorem framing_fits_iff {t : Nat} {packet : Bytes} (can : CanSecure platform role handle m key)
    (hne : packet ≠ []) (hlength : packet.length ≤ 2 ^ 28 + 4) :
    (∃ buffer m', mosqWclSmpGetMessage (platform.setup role handle) t packet m =
        some (.ok buffer, m')) ↔
      MessageFits role (platform.envs m.session.calls) m.session.session t packet := by
  rw [mosqWclSmpGetMessage_succeeds_iff can.allocates,
    ← @wclSmpGetMessage_fits_iff platform.cbor role _ _ key packet t can.holds can.encrypts
      can.clientId hne (by omega)]
  constructor
  · rintro ⟨message, session, h, hfits⟩
    change platform.call (fun env => wclSmpGetMessage platform.cbor role env t packet) m.session =
      _ at h
    rcases Platform.call_cases h with ⟨-, hcall, -⟩ | ⟨hr, -⟩
    · exact ⟨message, session.session, hcall, hfits⟩
    · cases hr
  · rintro ⟨message, s', h, hfits⟩
    refine ⟨message, { m.session with session := s', calls := m.session.calls + 1 }, ?_, hfits⟩
    change platform.call (fun env => wclSmpGetMessage platform.cbor role env t packet) m.session = _
    unfold Platform.call
    rw [if_pos can.isOpen]
    exact congrArg (Option.map _) h

/-- A packet that `packet__alloc` admits is framed exactly when the message around it
    fits into a frame. -/
theorem framing_succeeds_iff {command : UInt8} {body packet : Bytes}
    (can : CanSecure platform role handle m key)
    (admitted : LaidOut (platform.setup role handle) command body packet) :
    (∃ buffer m', mosqWclSmpGetMessage (platform.setup role handle) (command >>> 4).toNat packet m =
        some (.ok buffer, m')) ↔
      MessageFits role (platform.envs m.session.calls) m.session.session (command >>> 4).toNat
        packet := by
  obtain ⟨hne, hlength⟩ := laidOut_length admitted
  exact framing_fits_iff can hne hlength

/-! ### The largest packet -/

/-- Whatever allocations the client has made, the sample platform grants the next two. -/
theorem allocationWorks_fresh (handle : Nat → MosqState → Incoming →
    List HandlerAct × Except MosqError Unit) (s : SmpSession) :
    AllocationWorks (Platform.sample.setup .client handle) (freshMosq s .connected []) := by
  intro length size hlength hsize
  refine ⟨length, size, rfl, rfl, Nat.le_refl _, ?_⟩
  show 0 + length + size < 2 ^ 64
  omega

/-- A client with an established session. -/
def establishedClient : Mosq SmpSession :=
  freshMosq { session := Session.sample, isOpen := true, opens := 1, calls := 0 } .connected []

/-- Its platform, and handlers that do nothing. -/
def clientSetup : Setup SmpSession := Platform.sample.setup .client fun _ _ _ => ([], .ok ())

theorem establishedClient_canSecure : CanSecure Platform.sample .client (fun _ _ _ => ([], .ok ()))
    establishedClient (List.replicate 32 4) where
  isOpen := rfl
  holds := ⟨rfl, ⟨by decide, rfl, by simp, rfl⟩, by decide⟩
  encrypts := ⟨⟨_, rfl⟩, fun _ _ _ => ⟨_, rfl⟩⟩
  clientId := by decide
  allocates := allocationWorks_fresh _ _

/-- The client admits every packet up to the limit of `packet__alloc`. -/
theorem laidOut_of_lt {command : UInt8} {body : Bytes} (h : body.length < 2 ^ 28) :
    LaidOut clientSetup command body (command :: Base128.encode 4 body.length ++ body) := by
  obtain ⟨size, hsize⟩ : ∃ size, size =
      (body.length + 1 + (Base128.encode 4 body.length).length) % 2 ^ 32 := ⟨_, rfl⟩
  have hgrants : grants clientSetup size establishedClient := by
    refine ⟨fun hlimit => absurd hlimit.1 (by decide), size, rfl, Nat.le_refl size, ?_⟩
    show 0 + size < 2 ^ 64
    omega
  obtain ⟨block, m', hmalloc, -⟩ := mosquittoMalloc_granted .outPayload hgrants
  rw [hsize] at hmalloc
  have halloc : ∃ packet,
      packetAlloc clientSetup { zeroPacket with command := command, remainingLength := body.length }
        establishedClient = some (.ok packet, m') ∧
      packet.payload = some { block := block, data := command :: Base128.encode 4 body.length } := by
    unfold packetAlloc
    dsimp only
    rw [bind_of_ok ((failIf_ok (u := ())).mpr ⟨encode_slots.mpr h, rfl⟩), encode_fits h,
      bind_of_ok hmalloc]
    exact ⟨_, rfl, rfl⟩
  obtain ⟨packet, halloc, hpayload⟩ := halloc
  exact ⟨_, packet, _, establishedClient, m', halloc, rfl, rfl, hpayload, rfl⟩

/-- The largest packet is admitted, and no message around it fits into a frame. -/
theorem largest_packet_not_framed : ∃ body packet,
    body.length = 2 ^ 28 - 1 ∧ LaidOut clientSetup PUBLISH body packet ∧
      ¬ ∃ buffer m', mosqWclSmpGetMessage clientSetup (PUBLISH >>> 4).toNat packet
        establishedClient = some (.ok buffer, m') := by
  obtain ⟨body, hbody⟩ : ∃ body : Bytes, body.length = 2 ^ 28 - 1 :=
    ⟨List.replicate (2 ^ 28 - 1) 0, List.length_replicate⟩
  have hlt : body.length < 2 ^ 28 := by omega
  have hadmitted := @laidOut_of_lt PUBLISH body hlt
  obtain ⟨hne, hlength⟩ := laidOut_length hadmitted
  refine ⟨body, _, hbody, hadmitted, fun hframed => ?_⟩
  rcases (framing_fits_iff establishedClient_canSecure hne hlength).mp hframed with
    ⟨-, -, hfits⟩ | ⟨ht, -⟩
  · unfold controlMessageLength at hfits
    rw [List.length_append] at hfits
    omega
  · exact absurd ht (by decide)

theorem framing_succeeds_iff_publish : ∃ buffer m',
    mosqWclSmpGetMessage clientSetup (PUBLISH >>> 4).toNat [PUBLISH, 2, 0, 0] establishedClient =
      some (.ok buffer, m') := by
  have hadmitted : LaidOut clientSetup PUBLISH [0, 0] [PUBLISH, 2, 0, 0] :=
    laidOut_of_lt (by decide)
  refine (framing_succeeds_iff establishedClient_canSecure hadmitted).mpr (.inl ⟨by decide, ?_, ?_⟩)
  · exact .of_type (by decide) (by decide) (by decide)
  · decide

end Admitted

end WeeveMQ
