/-
  WeeveMQ.SmpRoundTrip

  Unsecuring undoes securing: what `smpSecureMessage` makes of a packet, the
  peer's `smpProcessMessage` turns back into the packet, at any counters the
  receiver lets through.

  The two ends decide separately which packets travel encrypted, and each builds
  the authentication data for itself; `Sealing.accepted` is where both meet.
-/

import WeeveMQ.WorkingCalls

namespace WeeveMQ

open Call
open WclSmpMessageType

variable {cbor : TinyCbor} {sender : Role} {env env' : Env} {s s' r : Session}

/-- The session is established, and its key can be read from the storage. -/
structure HoldsKey (env : Env) (key : Bytes) (s : Session) : Prop where
  established : s.ctx.isSessionKeyEstablished = true
  readable : Readable env s s.ctx.sessionSharedKeyStorageId key
  length : key.length = WOS_CRYPTO_AE_AES256_KEY_LENGTH

/-- Decryption inverts encryption under the same key, IV and authentication
    data. -/
def AeInverts (env env' : Env) (key : Bytes) : Prop :=
  ∀ iv aad plainText cipherText tag,
    env.gcmEncrypt key iv aad plainText = some (cipherText, tag) →
      env'.gcmDecrypt key iv aad cipherText = some (plainText, tag)

/-- Encryption with this key succeeds. -/
def AeEncrypts (env : Env) (key : Bytes) : Prop :=
  (∃ iv, env.randomBytes 0 WOS_CRYPTO_AE_AES_GCM_IV_LENGTH = some iv) ∧
    ∀ iv aad plainText, ∃ sealedText, env.gcmEncrypt key iv aad plainText = some sealedText

/-! ## Types both ends accept -/

/-- The types the sender secures and the receiver lets through are those of the
    channel. -/
theorem channelTypes_of_accepted {t : Nat} (hsend : isSecurable sender t = true)
    (hreceive : isReceivable sender.peer t = true) : t ∈ channelTypes sender := by
  have hrange := isSecurable_range hsend
  obtain ⟨h3, h14⟩ := hrange
  cases sender
  · interval_cases t <;> first | decide | exact absurd hreceive (by decide)
  · interval_cases t <;> first | decide | exact absurd hreceive (by decide)

/-- The receiver takes the packet for clear exactly when the sender did not
    encrypt it. -/
theorem hasClear_of_accepted {t : Nat} (hsend : isSecurable sender t = true)
    (hreceive : isReceivable sender.peer t = true) :
    hasClearMqttPacket sender.peer t = !encryptMqttPacket t :=
  (channelTypes_decisions (channelTypes_of_accepted hsend hreceive)).2.2.1

/-! ## One message -/

section Message

variable {key packet : Bytes} {t : Nat} {m : SealedMessage}

/-- The receiver rebuilds the authentication data and the ciphertext of the
    sender, so it opens the message. -/
theorem Sealing.opened (h : Sealing sender env s t packet m)
    (hsize : m.serializedBufSize t packet < 2 ^ 32) (ht : t ≤ pingresp.code)
    (hsend : isSecurable sender t = true) (hreceive : isReceivable sender.peer t = true)
    (holds : HoldsKey env' key r)
    (hdec : env'.gcmDecrypt key m.ae.iv m.aad m.ae.cipherText = some (m.plainText, m.ae.tag)) :
    ControlOpened cbor sender.peer env' r t
      (encodeSmpMqttsControlMessage (m.controlParams t packet)) (m.controlParams t packet)
      m.plainText := by
  obtain ⟨hkeyId, hstored, -, hreads⟩ := holds.readable
  obtain ⟨label, hlabel, haad⟩ := h.aad
  have h13 : t ≤ 13 := ht
  have hclear := hasClear_of_accepted hsend hreceive
  have hiv := h.iv_length
  have htag := h.tag_length
  have hct := h.cipherText_length
  -- the part of the packet that both ends authenticate, and the part both encrypt
  have hauth : (if hasClearMqttPacket sender.peer t then (m.controlParams t packet).mqttPacket
      else []) = if encryptMqttPacket t then [] else packet := by
    rw [hclear]
    unfold SealedMessage.controlParams
    cases encryptMqttPacket t <;> rfl
  have hcipher : (if hasClearMqttPacket sender.peer t then []
      else (m.controlParams t packet).mqttPacket) = m.ae.cipherText := by
    rw [hclear]
    unfold SealedMessage.controlParams
    cases hencrypt : encryptMqttPacket t
    · rw [hencrypt] at hct
      exact (List.eq_nil_of_length_eq_zero hct).symm
    · rfl
  refine ⟨holds.established, h.unpacked cbor hsize, h.header_ne, h.payload_ne, ?_, ?_,
    ⟨hkeyId, hreads⟩, label, m.aad, key, ?_, ?_, h.aad_length, hstored, holds.length, ?_⟩
  · intro hnil
    rw [show m.ae.iv = [] from hnil] at hiv
    simp at hiv
  · intro hnil
    rw [show m.ae.tag = [] from hnil] at htag
    simp at htag
  · rw [Role.peer_peer, msgLabel_eq h13, ← @msgLabel_eq env _ _ h13]
    exact hlabel
  · rw [hauth, haad]
    rfl
  · rw [hcipher]
    exact hdec

/-- What the receiver delivers is the packet. -/
theorem Sealing.delivered (h : Sealing sender env s t packet m)
    (hsend : isSecurable sender t = true) (hreceive : isReceivable sender.peer t = true) :
    deliveredPacket sender.peer t (m.controlParams t packet) m.plainText = packet := by
  unfold deliveredPacket
  rw [hasClear_of_accepted hsend hreceive, h.plainText]
  unfold SealedMessage.controlParams
  cases encryptMqttPacket t <;> rfl

/-- The receiver accepts the message. -/
theorem Sealing.accepted (h : Sealing sender env s t packet m)
    (hsize : m.serializedBufSize t packet < 2 ^ 32) (ht : t ≤ pingresp.code)
    (hsend : isSecurable sender t = true) (hreceive : isReceivable sender.peer t = true)
    (holds : HoldsKey env' key r)
    (hid : r.ctx.lastReceivedMessageId ≤ s.ctx.toBeSentMessageId)
    (hdec : env'.gcmDecrypt key m.ae.iv m.aad m.ae.cipherText = some (m.plainText, m.ae.tag)) :
    wclSmpProcessMessage cbor sender.peer env'
        (encodeSmpMqttsControlMessage (m.controlParams t packet)) r =
      some (.ok packet, r.received s.ctx.toBeSentMessageId) := by
  have htype : (sentHeader s.ctx t).narrowed.messageType = t := by
    have h13 : t ≤ 13 := ht
    exact Nat.mod_eq_of_lt (show t < 256 by omega)
  have hnotSe : t ≠ (seMessageType sender.peer.peer).code :=
    (channelTypes_decisions (channelTypes_of_accepted hsend hreceive)).2.2.2.2.1
  have hopened : ControlOpened cbor sender.peer env' r (sentHeader s.ctx t).narrowed.messageType
      (encodeSmpMqttsControlMessage (m.controlParams t packet)) (m.controlParams t packet)
      m.plainText := by
    rw [htype]
    exact h.opened hsize ht hsend hreceive holds hdec
  refine wclSmpProcessMessage_ok.mpr (smpProcessMessage_ok.mpr (.inr ⟨_, _, m.plainText,
    ⟨⟨h.header_unpacked cbor hsize, rfl, ?_, hid⟩, ?_, hopened⟩, ?_, rfl⟩))
  · rw [htype]
    exact hreceive
  · rw [htype]
    exact hnotSe
  · rw [htype, h.delivered hsend hreceive]

/-- The size of a packet leaves room for everything around it. -/
theorem Sealing.fits (h : Sealing sender env s t packet m)
    (hlen : packet.length < 2 ^ 32 - 128) : m.serializedBufSize t packet < 2 ^ 32 := by
  have hhdr := h.header_length
  rw [h.serializedBufSize_eq]
  rw [SMP_ENCODED_HEADER_LENGTH, SMP_HEADER_MSG_SERIALIZER_SIZE_OVERHEAD,
    WCL_SMP_CLIENT_ID_LENGTH] at hhdr
  omega

/-- A session with the key seals every packet, when encryption succeeds. -/
theorem sealing_exists (sender : Role) (holds : HoldsKey env key s) (works : AeEncrypts env key)
    (hclient : wosStringLength s.ctx.clientId ≤ WCL_SMP_CLIENT_ID_LENGTH)
    (ht : publish.code ≤ t ∧ t ≤ pingresp.code) (hne : packet ≠ [])
    (hlen : packet.length < 2 ^ 32 - 128) : ∃ m, Sealing sender env s t packet m := by
  obtain ⟨hkeyId, hstored, -, hreads⟩ := holds.readable
  obtain ⟨⟨iv, hiv⟩, hencrypt⟩ := works
  have h3 : 3 ≤ t := ht.1
  have h13 : t ≤ 13 := ht.2
  let header := encodeSmpHeader (sentHeader s.ctx t)
  let clearPart := if encryptMqttPacket t then [] else packet
  let aad := header ++ sentLabel sender t ++ clearPart
  have haad : aad.length < 2 ^ 32 := by
    have hhdr : header.length ≤ SMP_ENCODED_HEADER_LENGTH :=
      encodeSmpHeader_sent_length (by omega) hclient
    have hlabel : (sentLabel sender t).length = 10 := sentLabel_length ⟨by omega, h13⟩
    have hclear : clearPart.length ≤ packet.length := by
      simp only [clearPart]
      split_ifs <;> simp
    rw [SMP_ENCODED_HEADER_LENGTH, SMP_HEADER_MSG_SERIALIZER_SIZE_OVERHEAD,
      WCL_SMP_CLIENT_ID_LENGTH] at hhdr
    simp only [aad, List.length_append, hlabel]
    omega
  obtain ⟨⟨cipherText, tag⟩, henc⟩ := hencrypt iv aad (if encryptMqttPacket t then packet else [])
  exact ⟨⟨header, aad, _, ⟨iv, cipherText, tag⟩⟩, hne, ⟨by omega, by omega⟩, holds.established,
    hclient, rfl, ⟨sentLabel sender t, msgLabel_eq h13, rfl⟩, haad, rfl, ⟨hkeyId, hreads⟩,
    key, hstored, holds.length, hiv, henc⟩

end Message

/-! ## Unsecuring undoes securing -/

/-- A packet of a type both ends accept is secured whenever encryption succeeds;
    the sender then only counts, and the receiver delivers the packet and only
    remembers the id. -/
theorem unsecure_undoes_secure {key packet : Bytes} {t : Nat}
    (hs : HoldsKey env key s) (hr : HoldsKey env' key r) (inverts : AeInverts env env' key)
    (ht : publish.code ≤ t ∧ t ≤ pingresp.code)
    (hsend : isSecurable sender t = true) (hreceive : isReceivable sender.peer t = true)
    (hne : packet ≠ []) (hlen : packet.length < 2 ^ 32 - 128)
    (hid : r.ctx.lastReceivedMessageId ≤ s.ctx.toBeSentMessageId) :
    (AeEncrypts env key → wosStringLength s.ctx.clientId ≤ WCL_SMP_CLIENT_ID_LENGTH →
        ∃ message, smpSecureMessage cbor sender env t packet s = some (.ok message, s.sent)) ∧
      ∀ message s', smpSecureMessage cbor sender env t packet s = some (.ok message, s') →
        wclSmpGetMessage cbor sender env t packet s = some (.ok message, s') ∧ s' = s.sent ∧
        wclSmpProcessMessage cbor sender.peer env' message r =
          some (.ok packet, r.received s.ctx.toBeSentMessageId) := by
  constructor
  · intro works hclient
    obtain ⟨m, hm⟩ := sealing_exists sender hs works hclient ht hne hlen
    exact ⟨_, smpSecureMessage_ok.mpr ⟨m, hm, hm.fits hlen, rfl, rfl⟩⟩
  · intro message s' hsecure
    obtain ⟨m, hm, hsize, rfl, rfl⟩ := smpSecureMessage_ok.mp hsecure
    refine ⟨wclSmpGetMessage_ok.mpr (.inr ⟨hsend, m, hm, hsize, rfl, rfl⟩), rfl, ?_⟩
    -- the key the sender has read is the one both hold
    obtain ⟨key', hstored, -, -, henc⟩ := hm.encrypted
    obtain rfl : key = key' := Option.some.inj (hs.readable.2.1.symm.trans hstored)
    exact hm.accepted hsize ht.2 hsend hreceive hr hid (inverts _ _ _ _ _ henc)

/-- The PUBLISH of the sample client is delivered to a broker at the same counter. -/
theorem unsecure_undoes_secure_publish :
    Session.sample.sent.ctx.toBeSentMessageId = 1 ∧
      wclSmpProcessMessage (rfc7049 64) .broker Env.sample publishMessage Session.sample =
        some (.ok [1, 2], Session.sample.received 0) := by
  have holds : HoldsKey Env.sample (List.replicate 32 4) Session.sample :=
    ⟨rfl, ⟨by decide, rfl, by simp, rfl⟩, by decide⟩
  have inverts : AeInverts Env.sample Env.sample (List.replicate 32 4) := by
    rintro _ _ _ _ _ ⟨⟩
    rfl
  have secured : smpSecureMessage (rfc7049 64) .client Env.sample publish.code [1, 2]
      Session.sample = some (.ok publishMessage, Session.sample.sent) := rfl
  have both := @unsecure_undoes_secure (rfc7049 64) .client _ _ _ _ _ [1, 2] publish.code holds
    holds inverts (by decide) (by decide) (by decide) (by simp) (by decide) (by decide)
  exact ⟨rfl, (both.2 publishMessage Session.sample.sent secured).2.2⟩

end WeeveMQ
