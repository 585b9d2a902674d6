/-
  WeeveMQ.SmpSendSpec

  What the sending calls of a session do, one lemma per call and outcome.

  - `smpSealMessage_ok`, `smpSecureMessage_ok`: a secured message is an
    encryption (`Sealing`) that fits its length field, and the send counter is
    all that changes.
  - `smpExportSessionEstablishmentParams_ok`: a session establishment message
    is a signed set of parameters (`Exporting`) that fits its buffer.
  - `*_relates`, `*_failRelates`: what a failing call leaves behind.

  The buffer sizes are estimated in 32 bits before the message is packed; the
  estimates cover the encoding whenever they did not wrap.
-/

import WeeveMQ.MsgSmpCodec
import WeeveMQ.WosSpec
import WeeveMQ.SmpInternal

namespace WeeveMQ

open Call
open WclSmpMessageType

variable {cbor : TinyCbor} {role : Role} {env : Env} {s s' : Session}

/-! ## Building blocks -/

theorem onStorage_ok {ε α : Type} {e : WclError} {x : Call KeyStore ε α} {a : α} :
    onStorage e x s = some (.ok a, s') ↔
      ∃ store', x s.storage = some (.ok a, store') ∧ s' = { s with storage := store' } := by
  rw [onStorage, mapErr_ok, onPart_eq]
  simp only [@eq_comm _ s']

theorem onStorage_error {ε α : Type} {e e' : WclError} {x : Call KeyStore ε α}
    (h : onStorage e x s = some (.error e', s')) :
    e' = e ∧ ∃ e'' store', x s.storage = some (.error e'', store') ∧
      s' = { s with storage := store' } := by
  obtain ⟨e'', he, rfl⟩ := mapErr_error.mp h
  obtain ⟨store', hx, rfl⟩ := onPart_eq.mp he
  exact ⟨rfl, e'', store', hx, rfl⟩

/-- A storage call that only reads leaves the session alone. -/
theorem onStorage_relates {ε α : Type} {e : WclError} {x : Call KeyStore ε α}
    (hx : Relates Eq x) : Relates Eq (onStorage e x) := by
  refine relates_mapErr fun s r s' h => ?_
  obtain ⟨store', hs, rfl⟩ := onPart_eq.mp h
  have := hx _ _ _ hs
  subst this
  rfl

theorem concatBuffers_ok {σ : Type} {parts : List Bytes} {data : Bytes} {t t' : σ} :
    concatBuffers parts t = some (.ok data, t') ↔
      data = parts.flatten ∧ data ≠ [] ∧ data.length < 2 ^ 32 ∧ t' = t := by
  by_cases h1 : parts.flatten.length % 2 ^ 32 = 0
  · simp only [concatBuffers, h1, if_true, throw_apply, Option.some.injEq, Prod.mk.injEq,
      reduceCtorEq, false_and, false_iff]
    rintro ⟨rfl, hne, hlt, -⟩
    rw [Nat.mod_eq_of_lt hlt] at h1
    exact hne (List.eq_nil_of_length_eq_zero h1)
  · by_cases h2 : 2 ^ 32 ≤ parts.flatten.length
    · simp only [concatBuffers, h1, h2, if_true, if_false, fault_apply, reduceCtorEq, false_iff]
      rintro ⟨rfl, -, hlt, -⟩
      omega
    · simp only [concatBuffers, h1, h2, if_false, pure_apply, Option.some.injEq, Prod.mk.injEq,
        Except.ok.injEq]
      constructor
      · rintro ⟨rfl, rfl⟩
        refine ⟨rfl, ?_, by omega, rfl⟩
        intro hnil
        rw [hnil] at h1
        simp at h1
      · rintro ⟨rfl, -, -, rfl⟩
        exact ⟨rfl, rfl⟩

theorem concatBuffers_relates {σ : Type} (parts : List Bytes) :
    Relates (Eq : σ → σ → Prop) (concatBuffers parts) := by
  unfold concatBuffers
  simp only
  split_ifs
  · exact relates_throw
  · exact relates_fault
  · exact relates_pure

theorem prepareAad_ok {labels : List (Option Bytes)} {messageType : Nat}
    {encodedHeader clearPacket aad : Bytes} :
    prepareAad env labels messageType encodedHeader clearPacket s = some (.ok aad, s') ↔
      ∃ label, msgLabel env labels messageType = some label ∧
        aad = encodedHeader ++ label ++ clearPacket ∧ aad ≠ [] ∧ aad.length < 2 ^ 32 ∧ s' = s := by
  simp only [prepareAad, bind_ok, ofOutcome_eq, Option.map_eq_some_iff, Except.ok.injEq,
    concatBuffers_ok, List.flatten_cons, List.flatten_nil, List.append_nil, List.append_assoc]
  constructor
  · rintro ⟨label, _, ⟨⟨l, hl, rfl⟩, rfl⟩, h⟩
    exact ⟨_, hl, h⟩
  · rintro ⟨label, hl, h⟩
    exact ⟨label, s, ⟨⟨label, hl, rfl⟩, rfl⟩, h⟩

theorem prepareAad_relates (labels : List (Option Bytes)) (messageType : Nat)
    (encodedHeader clearPacket : Bytes) :
    Relates (Eq : Session → Session → Prop)
      (prepareAad env labels messageType encodedHeader clearPacket) :=
  relates_ofOutcome.bind fun _ => concatBuffers_relates _

/-! ## Sending -/

/-- The header a session puts on its next message. -/
def sentHeader (ctx : SmpSessionContext) (messageType : Nat) : WosSmpHeader where
  messageContext := WOS_MSG_CONTEXT_SMP_MQTTS
  messageContextVersion := 0
  messageType := messageType
  clientId := ctx.clientId
  messageId := ctx.toBeSentMessageId

theorem encodeSmpHeader_sent_length {ctx : SmpSessionContext} {messageType : Nat}
    (ht : messageType < 2 ^ 32)
    (hid : wosStringLength ctx.clientId ≤ WCL_SMP_CLIENT_ID_LENGTH) :
    (encodeSmpHeader (sentHeader ctx messageType)).length ≤ SMP_ENCODED_HEADER_LENGTH := by
  have hzero : (Cbor.encodeHead 0 (0 : UInt8).toNat).length = 1 := rfl
  have htype : (Cbor.encodeHead 0 messageType).length ≤ 5 := Cbor.encodeHead_length_le_of_lt ht
  have hmsg : (Cbor.encodeHead 0 ctx.toBeSentMessageId.toNat).length ≤ 5 :=
    Cbor.encodeHead_length_le_of_lt ctx.toBeSentMessageId.toNat_lt
  have hname : (Cbor.encodeHead 3 (stringContent ctx.clientId).length).length ≤ 5 :=
    Cbor.encodeHead_length_le_of_lt (by
      unfold wosStringLength WCL_SMP_CLIENT_ID_LENGTH at hid
      omega)
  unfold wosStringLength WCL_SMP_CLIENT_ID_LENGTH at hid
  simp only [encodeSmpHeader, sentHeader, WOS_MSG_CONTEXT_SMP_MQTTS, Cbor.encodeString,
    List.length_cons, List.length_append, List.length_nil, hzero, SMP_ENCODED_HEADER_LENGTH,
    SMP_HEADER_MSG_SERIALIZER_SIZE_OVERHEAD, WCL_SMP_CLIENT_ID_LENGTH]
  omega

/-- The buffer of 51 bytes is always large enough for the header. -/
theorem lSmpPackHeader_ok {ctx : SmpSessionContext} {messageType : Nat} {b : Bytes}
    (ht : messageType < 2 ^ 32) :
    lSmpPackHeader cbor ctx messageType = .ok b ↔
      wosStringLength ctx.clientId ≤ WCL_SMP_CLIENT_ID_LENGTH ∧
        b = encodeSmpHeader (sentHeader ctx messageType) := by
  have ht64 : (sentHeader ctx messageType).messageType < 2 ^ 64 := by
    simp only [sentHeader]
    omega
  refine except_mapError_ok.trans ((wosMsgPackSmpHeader_ok cbor ht64).trans ?_)
  constructor
  · rintro ⟨hid, -, rfl⟩
    exact ⟨hid, rfl⟩
  · rintro ⟨hid, rfl⟩
    exact ⟨hid, encodeSmpHeader_sent_length ht hid, rfl⟩

/-- The encryption behind a secured message. -/
structure Sealing (role : Role) (env : Env) (s : Session) (messageType : Nat) (packet : Bytes)
    (m : SealedMessage) : Prop where
  packet_ne : packet ≠ []
  type_range : 1 ≤ messageType ∧ messageType ≤ 14
  established : s.ctx.isSessionKeyEstablished = true
  clientId : wosStringLength s.ctx.clientId ≤ WCL_SMP_CLIENT_ID_LENGTH
  header : m.encodedHeader = encodeSmpHeader (sentHeader s.ctx messageType)
  aad : ∃ label, msgLabel env (sentMsgLabels role) messageType = some label ∧
    m.aad = m.encodedHeader ++ label ++ (if encryptMqttPacket messageType then [] else packet)
  aad_length : m.aad.length < 2 ^ 32
  plainText : m.plainText = if encryptMqttPacket messageType then packet else []
  keyId : lWosStorageIsKeyValid s.ctx.sessionSharedKeyStorageId = true ∧
    env.readFails s.ctx.sessionSharedKeyStorageId = false
  encrypted : ∃ key, s.storage s.ctx.sessionSharedKeyStorageId = some key ∧
    key.length = WOS_CRYPTO_AE_AES256_KEY_LENGTH ∧
    env.randomBytes 0 WOS_CRYPTO_AE_AES_GCM_IV_LENGTH = some m.ae.iv ∧
    env.gcmEncrypt key m.ae.iv m.aad m.plainText = some (m.ae.cipherText, m.ae.tag)

namespace Sealing

variable {messageType : Nat} {packet : Bytes} {m : SealedMessage}

theorem iv_length (h : Sealing role env s messageType packet m) : m.ae.iv.length = 12 := by
  obtain ⟨key, -, -, hiv, -⟩ := h.encrypted
  exact env.randomBytes_length hiv

theorem tag_length (h : Sealing role env s messageType packet m) : m.ae.tag.length = 16 := by
  obtain ⟨key, -, -, -, henc⟩ := h.encrypted
  exact (env.gcmEncrypt_length henc).2

theorem cipherText_length (h : Sealing role env s messageType packet m) :
    m.ae.cipherText.length = if encryptMqttPacket messageType then packet.length else 0 := by
  obtain ⟨key, -, -, -, henc⟩ := h.encrypted
  rw [(env.gcmEncrypt_length henc).1, h.plainText]
  split_ifs <;> rfl

theorem header_ne (h : Sealing role env s messageType packet m) : m.encodedHeader ≠ [] := by
  rw [h.header]
  simp [encodeSmpHeader]

end Sealing

theorem encodeSmpHeader_ne_nil (h : WosSmpHeader) : encodeSmpHeader h ≠ [] := by
  simp [encodeSmpHeader]

theorem smpSealMessage_ok {messageType : Nat} {packet : Bytes} {m : SealedMessage} :
    smpSealMessage cbor role env messageType packet s = some (.ok m, s') ↔
      Sealing role env s messageType packet m ∧ s' = s := by
  simp only [smpSealMessage, bind_ok, failIf_ok, get_apply, Option.some.injEq, Prod.mk.injEq,
    Except.ok.injEq, ofExcept_apply, prepareAad_ok, onStorage_ok, wosCryptoAeEncrypt_ok,
    pure_apply]
  constructor
  · rintro ⟨_, _, ⟨hne, rfl⟩, _, _, ⟨hrange, rfl⟩, _, _, ⟨rfl, rfl⟩, _, _, ⟨hest, rfl⟩, hdr, _,
      ⟨hhdr, rfl⟩, aad, _, ⟨label, hl, haad, -, hlen, rfl⟩, ae, _,
      ⟨_, ⟨hk, hr, henc, rfl⟩, rfl⟩, _, _, ⟨-, rfl⟩, rfl, rfl⟩
    simp only [code] at hrange
    obtain ⟨hid, rfl⟩ := (lSmpPackHeader_ok (by omega)).mp hhdr
    exact ⟨⟨hne, by omega, by simpa using hest, hid, rfl, ⟨label, hl, haad⟩, hlen, rfl, ⟨hk, hr⟩,
      henc⟩, rfl⟩
  · rintro ⟨h, rfl⟩
    obtain ⟨label, hl, haad⟩ := h.aad
    have hrange := h.type_range
    refine ⟨(), _, ⟨h.packet_ne, rfl⟩, (), _, ⟨by simp only [code]; omega, rfl⟩, _, _,
      ⟨rfl, rfl⟩, (), _, ⟨by simp [h.established], rfl⟩, m.encodedHeader, _,
      ⟨(lSmpPackHeader_ok (by omega)).mpr ⟨h.clientId, h.header⟩, rfl⟩, m.aad, _,
      ⟨label, hl, haad, ?_, h.aad_length, rfl⟩, m.ae, _,
      ⟨_, ⟨h.keyId.1, h.keyId.2, ?_, rfl⟩, rfl⟩, (), _, ⟨?_, rfl⟩, ?_, rfl⟩
    · rw [haad]
      simp [h.header_ne]
    · have := h.encrypted
      rwa [h.plainText] at this
    · have hiv := h.iv_length
      have htag := h.tag_length
      have hct := h.cipherText_length
      rintro (hnil | hnil | ⟨henc, hnil⟩)
      · rw [hnil] at hiv
        simp at hiv
      · rw [hnil] at htag
        simp at htag
      · rw [hnil, if_pos henc] at hct
        exact h.packet_ne (List.eq_nil_of_length_eq_zero hct.symm)
    · rw [← h.plainText]

theorem smpSealMessage_relates (messageType : Nat) (packet : Bytes) :
    Relates Eq (smpSealMessage cbor role env messageType packet) :=
  relates_failIf.bind fun _ => relates_failIf.bind fun _ => relates_get.bind fun _ =>
    relates_failIf.bind fun _ => relates_ofExcept.bind fun _ =>
    (prepareAad_relates _ _ _ _).bind fun _ =>
    (onStorage_relates (wosCryptoAeEncrypt_relates _ _ _)).bind fun _ =>
    relates_failIf.bind fun _ => relates_pure

/-- The control message built around an encryption. -/
def SealedMessage.controlParams (m : SealedMessage) (messageType : Nat) (packet : Bytes) :
    WosMsgMqttsControlParams where
  encodedSmpHeader := m.encodedHeader
  mqttPacket := if encryptMqttPacket messageType then m.ae.cipherText else packet
  iv := m.ae.iv
  authTag := m.ae.tag

/-- The size `smpSecureMessage` computes for its buffer, before the length field. -/
def SealedMessage.serializedBufSize (m : SealedMessage) (messageType : Nat) (packet : Bytes) :
    Nat :=
  SMP_MQTTS_CONTROL_MSG_SERIALIZER_SIZE_OVERHEAD + m.encodedHeader.length + m.ae.iv.length +
    m.ae.tag.length + (m.controlParams messageType packet).mqttPacket.length

/-- The session after a successful send. -/
def Session.sent (s : Session) : Session :=
  { s with ctx := { s.ctx with toBeSentMessageId := s.ctx.toBeSentMessageId + 1 } }

namespace Sealing

variable {messageType : Nat} {packet : Bytes} {m : SealedMessage}

theorem header_length (h : Sealing role env s messageType packet m) :
    m.encodedHeader.length ≤ SMP_ENCODED_HEADER_LENGTH := by
  have hrange := h.type_range
  rw [h.header]
  exact encodeSmpHeader_sent_length (by omega) h.clientId

theorem payload_length (h : Sealing role env s messageType packet m) :
    (m.controlParams messageType packet).mqttPacket.length = packet.length := by
  have hct := h.cipherText_length
  unfold SealedMessage.controlParams
  simp only
  split_ifs at hct ⊢
  · exact hct
  · rfl

theorem payload_ne (h : Sealing role env s messageType packet m) :
    (m.controlParams messageType packet).mqttPacket ≠ [] := by
  intro hnil
  have hlen := h.payload_length
  rw [hnil] at hlen
  exact h.packet_ne (List.eq_nil_of_length_eq_zero hlen.symm)

theorem serializedBufSize_eq (h : Sealing role env s messageType packet m) :
    m.serializedBufSize messageType packet = 44 + m.encodedHeader.length + packet.length := by
  unfold SealedMessage.serializedBufSize
  rw [h.payload_length, h.iv_length, h.tag_length, SMP_MQTTS_CONTROL_MSG_SERIALIZER_SIZE_OVERHEAD]
  omega

/-- The estimate of the buffer covers the encoding. -/
theorem encode_length (h : Sealing role env s messageType packet m)
    (hsize : m.serializedBufSize messageType packet < 2 ^ 32) :
    (encodeSmpMqttsControlMessage (m.controlParams messageType packet)).length ≤
      m.serializedBufSize messageType packet := by
  have hhdr := h.header_length
  have hpay := h.payload_length
  have hiv := h.iv_length
  have htag := h.tag_length
  rw [h.serializedBufSize_eq] at hsize ⊢
  rw [SMP_ENCODED_HEADER_LENGTH, SMP_HEADER_MSG_SERIALIZER_SIZE_OVERHEAD,
    WCL_SMP_CLIENT_ID_LENGTH] at hhdr
  have h1 : (Cbor.encodeHead 2 m.encodedHeader.length).length ≤ 2 :=
    Cbor.encodeHead_length_le_two (by omega)
  have h2 : (Cbor.encodeHead 2 packet.length).length ≤ 5 :=
    Cbor.encodeHead_length_le_of_lt (by omega)
  have h3 : (Cbor.encodeHead 2 12).length ≤ 2 := Cbor.encodeHead_length_le_two (by omega)
  have h4 : (Cbor.encodeHead 2 16).length ≤ 2 := Cbor.encodeHead_length_le_two (by omega)
  simp only [encodeSmpMqttsControlMessage, Cbor.encodeString, List.length_cons, List.length_append,
    List.length_nil, hpay]
  simp only [SealedMessage.controlParams, hiv, htag]
  omega

end Sealing

/-- A secured message is sent exactly when the packet was sealed and the size of
    the message fits its 32-bit length field. -/
theorem smpSecureMessage_ok {messageType : Nat} {packet message : Bytes} :
    smpSecureMessage cbor role env messageType packet s = some (.ok message, s') ↔
      ∃ m, Sealing role env s messageType packet m ∧
        m.serializedBufSize messageType packet < 2 ^ 32 ∧
        message = encodeSmpMqttsControlMessage (m.controlParams messageType packet) ∧
        s' = s.sent := by
  have hpack : ∀ {m : SealedMessage} {b : Bytes}, Sealing role env s messageType packet m →
      ((wosMsgPackSmpMqttsControlMessage cbor (m.controlParams messageType packet)
          (m.serializedBufSize messageType packet % 2 ^ 32)).mapError
            (fun _ => WclError.serialization) = .ok b ↔
        m.serializedBufSize messageType packet < 2 ^ 32 ∧
          b = encodeSmpMqttsControlMessage (m.controlParams messageType packet)) := by
    intro m b h
    rw [except_mapError_ok, wosMsgPackSmpMqttsControlMessage_ok]
    constructor
    · rintro ⟨-, hlen, rfl⟩
      refine ⟨?_, rfl⟩
      by_contra hbig
      have hiv := h.iv_length
      have htag := h.tag_length
      rw [h.serializedBufSize_eq] at hlen hbig
      simp only [encodeSmpMqttsControlMessage, Cbor.encodeString, List.length_cons,
        List.length_append, List.length_nil, h.payload_length] at hlen
      simp only [SealedMessage.controlParams, hiv, htag] at hlen
      omega
    · rintro ⟨hlt, rfl⟩
      rw [Nat.mod_eq_of_lt hlt]
      refine ⟨⟨h.header_ne, h.payload_ne, ?_, ?_⟩, h.encode_length hlt, rfl⟩
      · intro hnil
        have := h.iv_length
        simp only [SealedMessage.controlParams] at hnil
        simp [hnil] at this
      · intro hnil
        have := h.tag_length
        simp only [SealedMessage.controlParams] at hnil
        simp [hnil] at this
  simp only [smpSecureMessage, bind_ok, smpSealMessage_ok]
  constructor
  · rintro ⟨m, _, ⟨hm, rfl⟩, b, _, hb, _, _, hmod, hret⟩
    simp only [ofExcept_apply, Option.some.injEq, Prod.mk.injEq] at hb
    obtain ⟨hb, rfl⟩ := hb
    obtain ⟨hlt, rfl⟩ := (hpack hm).mp hb
    cases hmod
    cases hret
    exact ⟨m, hm, hlt, rfl, rfl⟩
  · rintro ⟨m, hm, hlt, rfl, rfl⟩
    exact ⟨m, s, ⟨hm, rfl⟩, _, s, by
      simp only [ofExcept_apply, Option.some.injEq, Prod.mk.injEq, and_true]
      exact (hpack hm).mpr ⟨hlt, rfl⟩, (), _, rfl, rfl⟩

/-- A failing send changes nothing. -/
theorem smpSecureMessage_failRelates (messageType : Nat) (packet : Bytes) :
    FailRelates Eq (smpSecureMessage cbor role env messageType packet) :=
  FailRelates.bind (smpSealMessage_relates messageType packet) fun _ =>
    FailRelates.bind relates_ofExcept fun _ =>
      (neverFails_modify.bind fun _ => neverFails_pure).fail

/-- The string the signature of a session establishment message covers. -/
def WosMsgMqttsSeParams.signedData (p : WosMsgMqttsSeParams) (sender : Role) : Bytes :=
  (seSignedParts sender p.encodedSmpHeader p.cipherSchemeId p.eccDhPubParams p.mqttPacket).flatten

theorem WosMsgMqttsSeParams.signedData_length_le (p : WosMsgMqttsSeParams) (sender : Role) :
    (p.signedData sender).length ≤
      p.encodedSmpHeader.length + 1 + p.eccDhPubParams.length + p.mqttPacket.length := by
  simp only [signedData, seSignedParts, List.flatten_cons, List.flatten_nil, List.append_nil,
    List.length_append]
  cases sender <;> simp only [signedCipherSchemeId, List.length_cons, List.length_nil] <;> omega

/-- The size `lSmpSignSeParams` computes, before it is cut to 32 bits. -/
def WosMsgMqttsSeParams.totalBytesLength (p : WosMsgMqttsSeParams) (sender : Role) : Nat :=
  SMP_MQTTS_SE_MSG_SERIALIZER_SIZE_OVERHEAD + (p.signedData sender).length + p.signature.length +
    1 + (p.certs.map List.length).sum

/-- An entry that can be read. -/
def Readable (env : Env) (s : Session) (id : StorageId) (content : Bytes) : Prop :=
  lWosStorageIsKeyValid id = true ∧ s.storage id = some content ∧ content ≠ [] ∧
    env.readFails id = false

/-- The session establishment message a session exports. -/
structure Exporting (role : Role) (env : Env) (s : Session) (packet : Bytes)
    (p : WosMsgMqttsSeParams) : Prop where
  packet_ne : packet ≠ []
  clientId : wosStringLength s.ctx.clientId ≤ WCL_SMP_CLIENT_ID_LENGTH
  header : p.encodedSmpHeader = encodeSmpHeader (sentHeader s.ctx (seMessageType role).code)
  cipherSchemeId : p.cipherSchemeId = WCL_SMP_CIPHER_SCHEME_ID0
  publicKey : Readable env s s.ctx.sessionPublicKeyStorageId p.eccDhPubParams
  mqttPacket : p.mqttPacket = packet
  signed_length : (p.signedData role).length < 2 ^ 32
  signed : ∃ keyBuf hash, Readable env s s.ctx.selfPrivKeyStorageId keyBuf ∧
    env.hashMemory (p.signedData role) = some hash ∧ env.eccSignHash keyBuf hash = some p.signature
  signature_ne : p.signature ≠ []
  numCerts : p.numCerts = 1
  certs : ∃ cert, Readable env s s.ctx.selfCertChainStorageId cert ∧ p.certs = [cert]
  size : p.totalBytesLength role < 2 ^ 32

/-- The certificate chain is one certificate long from the first export on. -/
def Session.chainOfOne (s : Session) : Session :=
  { s with ctx := { s.ctx with selfCertChainSize := 1 } }

namespace Exporting

variable {packet : Bytes} {p : WosMsgMqttsSeParams}

theorem header_length (h : Exporting role env s packet p) :
    p.encodedSmpHeader.length ≤ SMP_ENCODED_HEADER_LENGTH := by
  rw [h.header]
  exact encodeSmpHeader_sent_length (by cases role <;> decide) h.clientId

/-- The estimate of the buffer covers the encoding. -/
theorem encode_length (h : Exporting role env s packet p) :
    (encodeSmpMqttsSEMessage role p).length ≤ p.totalBytesLength role := by
  obtain ⟨cert, -, hcerts⟩ := h.certs
  have hhdr := h.header_length
  have hsize := h.size
  have hcipherHead : (encodeCipherSchemeId role p.cipherSchemeId).length ≤ 1 := by
    rw [h.cipherSchemeId]
    cases role <;> decide
  have hnumHead : (Cbor.encodeHead 0 p.numCerts.toNat).length = 1 := by
    rw [h.numCerts]
    rfl
  have htake : p.certs.take p.numCerts.toNat = [cert] := by
    rw [h.numCerts, hcerts]
    rfl
  rw [SMP_ENCODED_HEADER_LENGTH, SMP_HEADER_MSG_SERIALIZER_SIZE_OVERHEAD,
    WCL_SMP_CLIENT_ID_LENGTH] at hhdr
  simp only [WosMsgMqttsSeParams.totalBytesLength, WosMsgMqttsSeParams.signedData, seSignedParts,
    List.flatten_cons, List.flatten_nil, List.append_nil, List.length_append,
    SMP_MQTTS_SE_MSG_SERIALIZER_SIZE_OVERHEAD, hcerts, List.map_cons, List.map_nil, List.sum_cons,
    List.sum_nil] at hsize ⊢
  have h1 : (Cbor.encodeHead 2 p.encodedSmpHeader.length).length ≤ 2 :=
    Cbor.encodeHead_length_le_two (by omega)
  have h2 : (Cbor.encodeHead 2 p.eccDhPubParams.length).length ≤ 5 :=
    Cbor.encodeHead_length_le_of_lt (by omega)
  have h3 : (Cbor.encodeHead 2 p.mqttPacket.length).length ≤ 5 :=
    Cbor.encodeHead_length_le_of_lt (by omega)
  have h4 : (Cbor.encodeHead 2 p.signature.length).length ≤ 5 :=
    Cbor.encodeHead_length_le_of_lt (by omega)
  have h5 : (Cbor.encodeHead 2 cert.length).length ≤ 5 :=
    Cbor.encodeHead_length_le_of_lt (by omega)
  simp only [encodeSmpMqttsSEMessage, htake, encodeCerts, List.flatMap_cons, List.flatMap_nil,
    Cbor.encodeString, List.length_cons, List.length_append, List.length_nil]
  omega

end Exporting

theorem lSmpGetDeviceCertificates_ok {r : UInt8 × List Bytes} :
    lSmpGetDeviceCertificates env s = some (.ok r, s') ↔
      ∃ cert, Readable env s s.ctx.selfCertChainStorageId cert ∧ r = (1, [cert]) ∧
        s' = s.chainOfOne := by
  simp only [lSmpGetDeviceCertificates, modifyCtx, bind_ok, modify_apply, Option.some.injEq,
    Prod.mk.injEq, get_apply, Except.ok.injEq, onStorage_ok, wosStorageRead_ok, pure_apply]
  constructor
  · rintro ⟨_, _, ⟨-, rfl⟩, _, _, ⟨rfl, rfl⟩, cert, _, ⟨_, ⟨hk, hc, hne, hr, rfl⟩, rfl⟩, rfl, rfl⟩
    exact ⟨cert, ⟨hk, hc, hne, hr⟩, rfl, rfl⟩
  · rintro ⟨cert, ⟨hk, hc, hne, hr⟩, rfl, rfl⟩
    exact ⟨(), _, ⟨trivial, rfl⟩, _, _, ⟨rfl, rfl⟩, cert, _, ⟨_, ⟨hk, hc, hne, hr, rfl⟩, rfl⟩, rfl,
      rfl⟩

theorem lSmpSignSeParams_ok {header pub packet : Bytes} {p : WosMsgMqttsSeParams} {size : Nat} :
    lSmpSignSeParams role env header pub packet s = some (.ok (p, size), s') ↔
      (∃ signature cert, p = ⟨header, WCL_SMP_CIPHER_SCHEME_ID0, pub, packet, signature, 1, [cert]⟩ ∧
        Readable env s s.ctx.selfCertChainStorageId cert) ∧
      (p.signedData role ≠ [] ∧ (p.signedData role).length < 2 ^ 32) ∧
      (∃ keyBuf hash, Readable env s s.ctx.selfPrivKeyStorageId keyBuf ∧
        env.hashMemory (p.signedData role) = some hash ∧
        env.eccSignHash keyBuf hash = some p.signature) ∧
      size = p.totalBytesLength role % 2 ^ 32 ∧ s' = s.chainOfOne := by
  simp only [lSmpSignSeParams, bind_ok, get_apply, Option.some.injEq, Prod.mk.injEq,
    Except.ok.injEq, concatBuffers_ok, onStorage_ok, wosCryptoEccSign_ok, Prod.exists,
    lSmpGetDeviceCertificates_ok, pure_apply]
  constructor
  · rintro ⟨_, _, ⟨rfl, rfl⟩, _, _, ⟨rfl, hne, hlen, rfl⟩, sig, _,
      ⟨_, ⟨-, hk, hr, ⟨keyBuf, hash, hc, hkne, hh, hs⟩, rfl⟩, rfl⟩, _, _, _,
      ⟨cert, hcert, ⟨rfl, rfl⟩, rfl⟩, ⟨rfl, rfl⟩, rfl⟩
    exact ⟨⟨sig, cert, rfl, hcert⟩, ⟨hne, hlen⟩, ⟨keyBuf, hash, ⟨hk, hc, hkne, hr⟩, hh, hs⟩, rfl,
      rfl⟩
  · rintro ⟨⟨sig, cert, rfl, hcert⟩, ⟨hne, hlen⟩, ⟨keyBuf, hash, ⟨hk, hc, hkne, hr⟩, hh, hs⟩, rfl,
      rfl⟩
    exact ⟨_, _, ⟨rfl, rfl⟩, _, _, ⟨rfl, hne, hlen, rfl⟩, sig, _,
      ⟨_, ⟨hne, hk, hr, ⟨keyBuf, hash, hc, hkne, hh, hs⟩, rfl⟩, rfl⟩, _, _, _,
      ⟨cert, hcert, ⟨rfl, rfl⟩, rfl⟩, ⟨rfl, rfl⟩, rfl⟩

/-- A message that is packed into its buffer had its size computed without a carry. -/
theorem totalBytesLength_lt {p : WosMsgMqttsSeParams} (cert : Bytes) (hnum : p.numCerts = 1)
    (hcerts : p.certs = [cert])
    (h : (encodeSmpMqttsSEMessage role p).length ≤ p.totalBytesLength role % 2 ^ 32) :
    p.totalBytesLength role < 2 ^ 32 := by
  by_contra hbig
  have hcertsBytes : encodeCerts (p.certs.take p.numCerts.toNat) = Cbor.encodeString 2 cert := by
    rw [hnum, hcerts]
    simp [encodeCerts]
  have hcertsLength : (p.certs.map List.length).sum = cert.length := by
    rw [hcerts]
    simp
  have hsigned := p.signedData_length_le role
  simp only [encodeSmpMqttsSEMessage, hcertsBytes, Cbor.encodeString, List.length_cons,
    List.length_append, List.length_nil] at h
  simp only [WosMsgMqttsSeParams.totalBytesLength, SMP_MQTTS_SE_MSG_SERIALIZER_SIZE_OVERHEAD,
    hcertsLength] at h hbig
  omega

/-- A session establishment message is exported exactly when it can be read,
    signed and packed, and its size fits 32 bits. -/
theorem smpExportSessionEstablishmentParams_ok {packet message : Bytes} :
    smpExportSessionEstablishmentParams cbor role env packet s = some (.ok message, s') ↔
      ∃ p, Exporting role env s packet p ∧ message = encodeSmpMqttsSEMessage role p ∧
        s' = s.chainOfOne.sent := by
  have htype : (seMessageType role).code < 2 ^ 32 := by cases role <;> decide
  simp only [smpExportSessionEstablishmentParams, bind_ok, failIf_ok, get_apply,
    Option.some.injEq, Prod.mk.injEq, Except.ok.injEq, ofExcept_apply, lSmpPackHeader_ok htype,
    onStorage_ok, wosCryptoEccReadPubKey_ok, Prod.exists, lSmpSignSeParams_ok, pure_apply,
    modifyCtx, modify_apply, except_mapError_ok, wosMsgPackSmpMqttsSEMessage_ok]
  constructor
  · rintro ⟨_, _, ⟨hne, rfl⟩, _, _, ⟨rfl, rfl⟩, hdr, _, ⟨⟨hid, rfl⟩, rfl⟩, pub, _,
      ⟨_, ⟨hk, hc, hpne, hr, rfl⟩, rfl⟩, _, _, ⟨-, rfl⟩, p, size, _,
      ⟨⟨sig, cert, hp, hcert⟩, ⟨hdne, hlen⟩, hsigned, rfl, rfl⟩, _, _, ⟨-, rfl⟩, _, _,
      ⟨⟨⟨-, -, -, hsne, -, -⟩, hfit, rfl⟩, rfl⟩, _, _, ⟨-, rfl⟩, rfl, rfl⟩
    refine ⟨p, ⟨hne, hid, by rw [hp], by rw [hp], by rw [hp]; exact ⟨hk, hc, hpne, hr⟩,
      by rw [hp], hlen, hsigned, hsne, by rw [hp], ⟨cert, hcert, by rw [hp]⟩, ?_⟩, rfl, rfl⟩
    exact totalBytesLength_lt cert (by rw [hp]) (by rw [hp]) hfit
  · rintro ⟨p, h, rfl, rfl⟩
    obtain ⟨cert, hcert, hcerts⟩ := h.certs
    have hpub := h.publicKey
    have hsize := h.encode_length
    have hmod := Nat.mod_eq_of_lt h.size
    have hp : p = ⟨encodeSmpHeader (sentHeader s.ctx (seMessageType role).code),
        WCL_SMP_CIPHER_SCHEME_ID0, p.eccDhPubParams, packet, p.signature, 1, [cert]⟩ := by
      rw [← h.header, ← h.cipherSchemeId, ← h.mqttPacket, ← h.numCerts, ← hcerts]
    refine ⟨(), _, ⟨h.packet_ne, rfl⟩, _, _, ⟨rfl, rfl⟩, _, _, ⟨⟨h.clientId, rfl⟩, rfl⟩,
      p.eccDhPubParams, _, ⟨_, ⟨hpub.1, hpub.2.1, hpub.2.2.1, hpub.2.2.2, rfl⟩, rfl⟩, (), _,
      ⟨hpub.2.2.1, rfl⟩, p, _, _,
      ⟨⟨p.signature, cert, hp, hcert⟩, ⟨?_, h.signed_length⟩, h.signed, rfl, rfl⟩, (), _,
      ⟨?_, rfl⟩, _, _, ⟨⟨⟨?_, hpub.2.2.1, ?_, h.signature_ne, ?_, ?_⟩, ?_, rfl⟩, rfl⟩, (), _,
      ⟨trivial, rfl⟩, rfl, rfl⟩
    · simp [WosMsgMqttsSeParams.signedData, seSignedParts, hpub.2.2.1]
    · rw [hmod, WosMsgMqttsSeParams.totalBytesLength]
      omega
    · rw [h.header]
      exact encodeSmpHeader_ne_nil _
    · rw [h.mqttPacket]
      exact h.packet_ne
    · rw [h.numCerts]
      decide
    · rw [hcerts]
      intro c hc
      obtain rfl := List.mem_singleton.mp (List.mem_of_mem_take hc)
      exact hcert.2.2.1
    · rw [hmod]
      exact hsize

/-- The peer unpacks what was exported. -/
theorem Exporting.unpacked (cbor : TinyCbor) {packet : Bytes} {p : WosMsgMqttsSeParams}
    (h : Exporting role env s packet p) :
    wosMsgUnpackSmpMqttsSEMessage cbor role.peer (encodeSmpMqttsSEMessage role p) =
      some (.ok (p.receivedFrom role)) := by
  obtain ⟨cert, -, hcerts⟩ := h.certs
  have hlen := h.encode_length
  have hsize := h.size
  refine wosMsgUnpackSmpMqttsSEMessage_encode cbor role ?_ ?_ (by omega)
  · rw [hcerts, h.numCerts]
    rfl
  · rw [h.numCerts]
    decide

/-- The header of an exported message, as any receiver reads it. -/
theorem Exporting.header_unpacked (cbor : TinyCbor) {packet : Bytes} {p : WosMsgMqttsSeParams}
    (h : Exporting role env s packet p) :
    wosMsgUnpackSmpHeaderFromSmpMsg cbor (encodeSmpMqttsSEMessage role p) =
      .ok (sentHeader s.ctx (seMessageType role).code).narrowed := by
  rw [header_of_se cbor (h.unpacked cbor)]
  show unpackSmpHeader cbor p.encodedSmpHeader = _
  rw [h.header]
  exact unpackSmpHeader_encode cbor
    (show (seMessageType role).code < 2 ^ 64 by cases role <;> decide) h.clientId

theorem Sealing.unpacked (cbor : TinyCbor) {messageType : Nat} {packet : Bytes}
    {m : SealedMessage} (h : Sealing role env s messageType packet m)
    (hsize : m.serializedBufSize messageType packet < 2 ^ 32) :
    wosMsgUnpackSmpMqttsControlMessage cbor
        (encodeSmpMqttsControlMessage (m.controlParams messageType packet)) =
      .ok (m.controlParams messageType packet) := by
  have hlen := h.encode_length hsize
  exact wosMsgUnpackSmpMqttsControlMessage_encode cbor (by omega)

/-- The header of a secured message, as any receiver reads it. -/
theorem Sealing.header_unpacked (cbor : TinyCbor) {messageType : Nat} {packet : Bytes}
    {m : SealedMessage} (h : Sealing role env s messageType packet m)
    (hsize : m.serializedBufSize messageType packet < 2 ^ 32) :
    wosMsgUnpackSmpHeaderFromSmpMsg cbor
        (encodeSmpMqttsControlMessage (m.controlParams messageType packet)) =
      .ok (sentHeader s.ctx messageType).narrowed := by
  have hrange := h.type_range
  rw [header_of_control cbor (h.unpacked cbor hsize)]
  show unpackSmpHeader cbor m.encodedHeader = _
  rw [h.header]
  exact unpackSmpHeader_encode cbor (show messageType < 2 ^ 64 by omega) h.clientId

/-- A session and the same session, with or without the fixed chain length. -/
def Session.SameUpToChain (s t : Session) : Prop :=
  t = s ∨ t = s.chainOfOne

namespace Session

instance : Std.Refl SameUpToChain := ⟨fun _ => .inl rfl⟩

instance : IsTrans Session SameUpToChain where
  trans := by
    rintro s t u (rfl | rfl) (rfl | rfl)
    · exact .inl rfl
    · exact .inr rfl
    · exact .inr rfl
    · exact .inr rfl

theorem SameUpToChain.of_eq {s t : Session} (h : s = t) : s.SameUpToChain t :=
  .inl h.symm

end Session

theorem lSmpGetDeviceCertificates_relates :
    Relates Session.SameUpToChain (lSmpGetDeviceCertificates env) := by
  have hmodify : Relates Session.SameUpToChain
      (modifyCtx fun ctx => { ctx with selfCertChainSize := 1 }) := by
    intro s r s' h
    simp only [modifyCtx, modify_apply, Option.some.injEq, Prod.mk.injEq] at h
    exact .inr h.2.symm
  exact hmodify.bind fun _ => relates_get.bind fun _ =>
    ((onStorage_relates (wosStorageRead_relates _)).mono fun _ _ => .of_eq).bind fun _ =>
    relates_pure

theorem lSmpSignSeParams_relates (header pub packet : Bytes) :
    Relates Session.SameUpToChain (lSmpSignSeParams role env header pub packet) :=
  relates_get.bind fun _ => ((concatBuffers_relates _).mono fun _ _ => .of_eq).bind fun _ =>
    ((onStorage_relates (wosCryptoEccSign_relates _ _)).mono fun _ _ => .of_eq).bind fun _ =>
    lSmpGetDeviceCertificates_relates.bind fun _ => relates_pure

/-- A failing export changes nothing but the length of the chain. -/
theorem smpExportSessionEstablishmentParams_failRelates (packet : Bytes) :
    FailRelates Session.SameUpToChain
      (smpExportSessionEstablishmentParams cbor role env packet) :=
  FailRelates.bind relates_failIf fun _ => FailRelates.bind relates_get fun _ =>
    FailRelates.bind relates_ofExcept fun _ =>
    FailRelates.bind
      ((onStorage_relates (wosCryptoEccReadPubKey_relates _)).mono fun _ _ => .of_eq) fun _ =>
    FailRelates.bind relates_failIf fun _ =>
    FailRelates.bind (lSmpSignSeParams_relates _ _ _) fun _ =>
    FailRelates.bind relates_failIf fun _ => FailRelates.bind relates_ofExcept fun _ =>
      (neverFails_modify.bind fun _ => neverFails_pure).fail

end WeeveMQ
