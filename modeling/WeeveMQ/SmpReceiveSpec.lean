/-
  WeeveMQ.SmpReceiveSpec

  What the receiving calls of a session do, one lemma per call and outcome.

  - `smpProcessMessage_ok`: a message that is accepted is a session
    establishment message (`SeAccepted`) or a control message
    (`ControlAccepted`), and the state after each is a function of the state
    before.
  - `smpProcessMessage_error`: a message that is refused changes nothing,
    except for a shared key whose write fails in the middle.
-/

import WeeveMQ.SmpSendSpec

namespace WeeveMQ

open Call
open WclSmpMessageType

variable {cbor : TinyCbor} {role : Role} {env : Env} {s s' : Session} {store : KeyStore}

/-! ## Deleting -/

/-- The store after a delete nobody checks. -/
def removeWhen (env : Env) (flag : Bool) (id : StorageId) (store : KeyStore) : KeyStore :=
  if flag ∧ lWosStorageIsKeyValid id ∧ env.removeFails id = false then
    Function.update store id none
  else store

theorem deleteWhen_apply (flag : Bool) (id : StorageId) (store : KeyStore) :
    deleteWhen env flag id store = some (.ok (), removeWhen env flag id store) := by
  cases flag with
  | false => rfl
  | true =>
      simp only [deleteWhen, if_true, ignore_wosStorageDelete, removeWhen, true_and]

theorem removeWhen_apply {flag : Bool} {id key : StorageId}
    (hid : lWosStorageIsKeyValid id = true ∧ env.removeFails id = false) :
    removeWhen env flag id store key = if flag ∧ key = id then none else store key := by
  unfold removeWhen
  cases flag with
  | false => simp
  | true =>
      simp only [true_and, hid.1, hid.2, and_self, if_true]
      by_cases h : key = id
      · simp [h]
      · simp [h]

/-! ## Headers and signatures -/

/-- What `lSmpValidateSmpHeader` asks of a received header. -/
structure HeaderValid (role : Role) (ctx : SmpSessionContext) (h : WosSmpHeader) : Prop where
  context : h.messageContext = WOS_MSG_CONTEXT_SMP_MQTTS
  receivable : isReceivable role h.messageType = true
  notOlder : ctx.lastReceivedMessageId ≤ h.messageId

theorem lSmpValidateSmpHeader_ok {ctx : SmpSessionContext} {h : WosSmpHeader} {u : Unit} :
    lSmpValidateSmpHeader role ctx h = .ok u ↔ HeaderValid role ctx h := by
  simp only [lSmpValidateSmpHeader, except_bind_ok, reject_ok, Decidable.not_not, exists_const,
    Bool.not_eq_false, UInt32.not_lt]
  exact ⟨fun ⟨h1, h2, h3⟩ => ⟨h1, h2, h3⟩, fun h => ⟨h.context, h.receivable, h.notOlder⟩⟩

/-- What `lSmpVerifySeParams` asks of the parameters of the peer. -/
structure SeVerified (role : Role) (env : Env) (s : Session) (p : WosMsgMqttsSeParams) : Prop where
  header_ne : p.encodedSmpHeader ≠ []
  public_ne : p.eccDhPubParams ≠ []
  packet_ne : p.mqttPacket ≠ []
  cipherSchemeId : role = .broker → p.cipherSchemeId = WCL_SMP_CIPHER_SCHEME_ID0
  numCerts : 1 ≤ p.numCerts
  signed_length : (p.signedData role.peer).length < 2 ^ 32
  signed : ∃ rootCa, Readable env s s.ctx.rootCaStorageId rootCa ∧
    env.wosCertValidateData rootCa p.certs (p.signedData role.peer) p.signature = true

theorem lSmpVerifySeParams_ok {p : WosMsgMqttsSeParams} {u : Unit} :
    lSmpVerifySeParams role env p s = some (.ok u, s') ↔ SeVerified role env s p ∧ s' = s := by
  simp only [lSmpVerifySeParams, bind_ok, failIf_ok, concatBuffers_ok, get_apply, onStorage_ok,
    wosStorageRead_ok, Option.some.injEq, Prod.mk.injEq, Except.ok.injEq, not_or, not_and,
    Decidable.not_not, UInt8.not_lt, Bool.not_eq_false]
  constructor
  · rintro ⟨_, _, ⟨⟨h1, h2, h3, h4, h5⟩, rfl⟩, _, _, ⟨rfl, -, hlen, rfl⟩, _, _, ⟨rfl, rfl⟩, root,
      _, ⟨_, ⟨hk, hc, hne, hr, rfl⟩, rfl⟩, hv, rfl⟩
    exact ⟨⟨h1, h2, h3, h4, h5, hlen, root, ⟨hk, hc, hne, hr⟩, hv⟩, rfl⟩
  · rintro ⟨h, rfl⟩
    obtain ⟨root, ⟨hk, hc, hne, hr⟩, hv⟩ := h.signed
    refine ⟨(), _, ⟨⟨h.header_ne, h.public_ne, h.packet_ne, h.cipherSchemeId, h.numCerts⟩, rfl⟩,
      _, _, ⟨rfl, ?_, h.signed_length, rfl⟩, _, _, ⟨rfl, rfl⟩, root, _,
      ⟨_, ⟨hk, hc, hne, hr, rfl⟩, rfl⟩, hv, rfl⟩
    simp [seSignedParts, h.header_ne]

theorem lSmpVerifySeParams_relates (p : WosMsgMqttsSeParams) :
    Relates Eq (lSmpVerifySeParams role env p) :=
  relates_failIf.bind fun _ => (concatBuffers_relates _).bind fun _ => relates_get.bind fun _ =>
    (onStorage_relates (wosStorageRead_relates _)).bind fun _ => relates_failIf

/-! ## Session establishment messages -/

/-- The session after the shared secret was derived and stored: established, and
    with the secrets it no longer needs deleted. -/
def Session.keyed (env : Env) (role : Role) (sharedSecret : Bytes) (s : Session) : Session where
  ctx := { s.ctx with isSessionKeyEstablished := true }
  storage :=
    removeWhen env (role = .client) s.ctx.sessionPublicKeyStorageId <|
      removeWhen env true s.ctx.sessionPrivateKeyStorageId <|
        Function.update s.storage s.ctx.sessionSharedKeyStorageId (some sharedSecret)

/-- A session establishment message that gives a session a shared secret. -/
structure SeAgreed (cbor : TinyCbor) (role : Role) (env : Env) (s : Session) (message : Bytes)
    (p : WosMsgMqttsSeParams) (sharedSecret : Bytes) : Prop where
  unpacked : wosMsgUnpackSmpMqttsSEMessage cbor role message = some (.ok p)
  verified : SeVerified role env s p
  derived : ∃ privateKey, Readable env s s.ctx.sessionPrivateKeyStorageId privateKey ∧
    env.eccSharedSecret privateKey p.eccDhPubParams = some sharedSecret
  sharedId : lWosStorageIsKeyValid s.ctx.sessionSharedKeyStorageId = true

/-- The secret is stored as well. -/
structure SeDerived (cbor : TinyCbor) (role : Role) (env : Env) (s : Session) (message : Bytes)
    (p : WosMsgMqttsSeParams) (sharedSecret : Bytes) : Prop
    extends SeAgreed cbor role env s message p sharedSecret where
  written : env.writeOutcome s.ctx.sessionSharedKeyStorageId sharedSecret = .written

theorem wosMsgUnpackSmpMqttsSEMessage_ne_nil {message : Bytes} {p : WosMsgMqttsSeParams}
    (h : wosMsgUnpackSmpMqttsSEMessage cbor role message = some (.ok p)) : message ≠ [] := by
  rintro rfl
  simp [wosMsgUnpackSmpMqttsSEMessage, unpackSeFields, reject, Bind.bind, Except.bind] at h

theorem lSmpProcessSeMessage_ok {message packet : Bytes} :
    lSmpProcessSeMessage cbor role env message s = some (.ok packet, s') ↔
      ∃ p sharedSecret, SeDerived cbor role env s message p sharedSecret ∧
        packet = p.mqttPacket ∧ s' = s.keyed env role sharedSecret := by
  simp only [lSmpProcessSeMessage, bind_ok, failIf_ok, mapErr_ok, ofOutcome_eq,
    lSmpVerifySeParams_ok, get_apply, onStorage_ok, wosCryptoDeriveSymKey_ok, modifyCtx,
    modify_apply, deleteWhen_apply, pure_apply, Option.some.injEq, Prod.mk.injEq, Except.ok.injEq]
  constructor
  · rintro ⟨_, _, ⟨-, rfl⟩, p, _, ⟨hp, rfl⟩, _, _, ⟨hv, rfl⟩, _, _, ⟨rfl, rfl⟩, _, _,
      ⟨_, ⟨-, hk, hr, hsk, priv, secret, hc, hpne, hs, hw, rfl⟩, rfl⟩, _, _, ⟨-, rfl⟩, _, _,
      ⟨_, ⟨-, rfl⟩, rfl⟩, _, _, ⟨_, ⟨-, rfl⟩, rfl⟩, _, _, ⟨-, rfl⟩, rfl, rfl⟩
    exact ⟨p, secret, ⟨⟨hp, hv, ⟨priv, ⟨hk, hc, hpne, hr⟩, hs⟩, hsk⟩, hw⟩, rfl, rfl⟩
  · rintro ⟨p, secret, h, rfl, rfl⟩
    obtain ⟨priv, ⟨hk, hc, hpne, hr⟩, hs⟩ := h.derived
    exact ⟨(), _, ⟨wosMsgUnpackSmpMqttsSEMessage_ne_nil h.unpacked, rfl⟩, p, _, ⟨h.unpacked, rfl⟩,
      (), _, ⟨h.verified, rfl⟩, _, _, ⟨rfl, rfl⟩, (), _,
      ⟨_, ⟨h.verified.public_ne, hk, hr, h.sharedId, priv, secret, hc, hpne, hs, h.written, rfl⟩,
        rfl⟩, (), _, ⟨trivial, rfl⟩, (), _, ⟨_, ⟨trivial, rfl⟩, rfl⟩, (), _,
      ⟨_, ⟨trivial, rfl⟩, rfl⟩, (), _, ⟨h.verified.packet_ne, rfl⟩, rfl, rfl⟩

/-- What a failing call leaves behind: nothing, or a shared key whose write
    failed after the file was opened. -/
def LeftPartialKey (cbor : TinyCbor) (role : Role) (env : Env) (message : Bytes)
    (s s' : Session) : Prop :=
  s' = s ∨ ∃ p sharedSecret left, SeAgreed cbor role env s message p sharedSecret ∧
    env.writeOutcome s.ctx.sessionSharedKeyStorageId sharedSecret = .writeFailed left ∧
      s' = { s with storage :=
        Function.update s.storage s.ctx.sessionSharedKeyStorageId (some left) }

theorem lSmpProcessSeMessage_error {message : Bytes} {e : WclError}
    (h : lSmpProcessSeMessage cbor role env message s = some (.error e, s')) :
    LeftPartialKey cbor role env message s s' := by
  simp only [lSmpProcessSeMessage, bind_error] at h
  rcases h with h | ⟨_, _, h1, h⟩
  · exact .inl (failIf_error.mp h).2.2.symm
  obtain ⟨-, rfl⟩ := failIf_ok.mp h1
  rcases h with h | ⟨p, _, h1, h⟩
  · exact .inl ((relates_mapErr relates_ofOutcome : Relates Eq _) _ _ _ h).symm
  obtain ⟨hp, rfl⟩ := ofOutcome_eq.mp (mapErr_ok.mp h1)
  rcases h with h | ⟨_, _, h2, h⟩
  · exact .inl (lSmpVerifySeParams_relates _ _ _ _ h).symm
  obtain ⟨hv, rfl⟩ := lSmpVerifySeParams_ok.mp h2
  rcases h with h | ⟨ctx, _, h3, h⟩
  · simp at h
  simp only [get_apply, Option.some.injEq, Prod.mk.injEq, Except.ok.injEq] at h3
  obtain ⟨rfl, rfl⟩ := h3
  rcases h with h | ⟨_, _, h4, h⟩
  · obtain ⟨-, e', store', he, rfl⟩ := onStorage_error h
    rcases wosCryptoDeriveSymKey_error he with
      rfl | ⟨hk, hr, hsk, priv, secret, left, hc, hne, hs, hw, rfl⟩
    · exact .inl rfl
    · exact .inr ⟨p, secret, left, ⟨hp, hv, ⟨priv, ⟨hk, hc, hne, hr⟩, hs⟩, hsk⟩, hw, rfl⟩
  -- nothing after the derivation fails
  have hnever : ∀ {flag : Bool} {id : StorageId} {t t' : Session} {e' : WclError},
      onStorage .storageOperation (deleteWhen env flag id) t ≠ some (.error e', t') := by
    intro flag id t t' e' h
    obtain ⟨-, _, _, he, -⟩ := onStorage_error h
    simp [deleteWhen_apply] at he
  rcases h with h | ⟨_, _, -, h⟩
  · simp [modifyCtx] at h
  rcases h with h | ⟨_, _, -, h⟩
  · exact absurd h hnever
  rcases h with h | ⟨_, _, -, h⟩
  · exact absurd h hnever
  rcases h with h | ⟨_, _, -, h⟩
  · exact absurd (failIf_error.mp h).1 hv.packet_ne
  · simp at h

/-! ## Control messages -/

/-- A control message a session opens with its key. -/
structure ControlOpened (cbor : TinyCbor) (role : Role) (env : Env) (s : Session)
    (messageType : Nat) (message : Bytes) (p : WosMsgMqttsControlParams) (plainText : Bytes) :
    Prop where
  established : s.ctx.isSessionKeyEstablished = true
  unpacked : wosMsgUnpackSmpMqttsControlMessage cbor message = .ok p
  header_ne : p.encodedSmpHeader ≠ []
  payload_ne : p.mqttPacket ≠ []
  iv_ne : p.iv ≠ []
  tag_ne : p.authTag ≠ []
  keyId : lWosStorageIsKeyValid s.ctx.sessionSharedKeyStorageId = true ∧
    env.readFails s.ctx.sessionSharedKeyStorageId = false
  opened : ∃ label aad key,
    msgLabel env (sentMsgLabels role.peer) messageType = some label ∧
    aad = p.encodedSmpHeader ++ label ++
      (if hasClearMqttPacket role messageType then p.mqttPacket else []) ∧
    aad.length < 2 ^ 32 ∧
    s.storage s.ctx.sessionSharedKeyStorageId = some key ∧
    key.length = WOS_CRYPTO_AE_AES256_KEY_LENGTH ∧
    env.gcmDecrypt key p.iv aad
      (if hasClearMqttPacket role messageType then [] else p.mqttPacket) =
        some (plainText, p.authTag)

/-- The packet a control message delivers. -/
def deliveredPacket (role : Role) (messageType : Nat) (p : WosMsgMqttsControlParams)
    (plainText : Bytes) : Bytes :=
  if hasClearMqttPacket role messageType then p.mqttPacket else plainText

theorem ControlOpened.delivered_ne {messageType : Nat} {message plainText : Bytes}
    {p : WosMsgMqttsControlParams}
    (h : ControlOpened cbor role env s messageType message p plainText) :
    deliveredPacket role messageType p plainText ≠ [] := by
  obtain ⟨label, aad, key, -, -, -, -, -, hdec⟩ := h.opened
  have hlen := env.gcmDecrypt_length hdec
  unfold deliveredPacket
  split_ifs at hlen ⊢
  · exact h.payload_ne
  · rintro rfl
    exact h.payload_ne (List.eq_nil_of_length_eq_zero hlen.symm)

theorem wosMsgUnpackSmpMqttsControlMessage_ne_nil {message : Bytes}
    {p : WosMsgMqttsControlParams}
    (h : wosMsgUnpackSmpMqttsControlMessage cbor message = .ok p) : message ≠ [] := by
  rintro rfl
  simp [wosMsgUnpackSmpMqttsControlMessage, reject, Bind.bind, Except.bind] at h

theorem lSmpProcessControlMessage_ok {messageType : Nat} {message packet : Bytes} :
    lSmpProcessControlMessage cbor role env messageType message s = some (.ok packet, s') ↔
      ∃ p plainText, ControlOpened cbor role env s messageType message p plainText ∧
        packet = deliveredPacket role messageType p plainText ∧ s' = s := by
  simp only [lSmpProcessControlMessage, bind_ok, failIf_ok, get_apply, mapErr_ok, ofExcept_apply,
    prepareAad_ok, onStorage_ok, wosCryptoAeDecrypt_ok, pure_apply, Option.some.injEq,
    Prod.mk.injEq, Except.ok.injEq, not_or, Bool.not_eq_false]
  constructor
  · rintro ⟨_, _, ⟨-, rfl⟩, _, _, ⟨rfl, rfl⟩, _, _, ⟨hest, rfl⟩, p, _, ⟨hp, rfl⟩, _, _,
      ⟨⟨h1, h2, h3, h4⟩, rfl⟩, aad, _, ⟨label, hl, haad, -, hlen, rfl⟩, plain, _,
      ⟨_, ⟨hk, hr, -, -, ⟨key, hc, hkl, hdec⟩, rfl⟩, rfl⟩, rfl, rfl⟩
    exact ⟨p, plain, ⟨hest, hp, h1, h2, h3, h4, ⟨hk, hr⟩, label, aad, key, hl, haad, hlen, hc, hkl,
      hdec⟩, rfl, rfl⟩
  · rintro ⟨p, plain, h, rfl, rfl⟩
    obtain ⟨label, aad, key, hl, haad, hlen, hc, hkl, hdec⟩ := h.opened
    refine ⟨(), _, ⟨wosMsgUnpackSmpMqttsControlMessage_ne_nil h.unpacked, rfl⟩, _, _, ⟨rfl, rfl⟩,
      (), _, ⟨h.established, rfl⟩, p, _, ⟨h.unpacked, rfl⟩, (), _,
      ⟨⟨h.header_ne, h.payload_ne, h.iv_ne, h.tag_ne⟩, rfl⟩, aad, _,
      ⟨label, hl, haad, ?_, hlen, rfl⟩, plain, _,
      ⟨_, ⟨h.keyId.1, h.keyId.2, h.iv_ne, h.tag_ne, ⟨key, hc, hkl, hdec⟩, rfl⟩, rfl⟩, rfl, rfl⟩
    rw [haad]
    simp [h.header_ne]

theorem lSmpProcessControlMessage_relates (messageType : Nat) (message : Bytes) :
    Relates Eq (lSmpProcessControlMessage cbor role env messageType message) :=
  relates_failIf.bind fun _ => relates_get.bind fun _ => relates_failIf.bind fun _ =>
    (relates_mapErr relates_ofExcept).bind fun _ => relates_failIf.bind fun _ =>
    (prepareAad_relates _ _ _ _).bind fun _ =>
    (onStorage_relates (wosCryptoAeDecrypt_relates _ _ _ _ _)).bind fun _ => relates_pure

/-! ## Messages -/

/-- The session after it accepted a message with this id. -/
def Session.received (messageId : UInt32) (s : Session) : Session :=
  { s with ctx := { s.ctx with lastReceivedMessageId := messageId } }

/-- The header that routes a message, and that the session lets through. -/
structure Routed (cbor : TinyCbor) (role : Role) (s : Session) (message : Bytes)
    (h : WosSmpHeader) : Prop where
  unpacked : wosMsgUnpackSmpHeaderFromSmpMsg cbor message = .ok h
  valid : HeaderValid role s.ctx h

/-- A session establishment message is accepted. -/
structure SeAccepted (cbor : TinyCbor) (role : Role) (env : Env) (s : Session) (message : Bytes)
    (h : WosSmpHeader) (p : WosMsgMqttsSeParams) (sharedSecret : Bytes) : Prop where
  routed : Routed cbor role s message h
  type : h.messageType = (seMessageType role.peer).code
  derived : SeDerived cbor role env s message p sharedSecret

/-- A control message is accepted. -/
structure ControlAccepted (cbor : TinyCbor) (role : Role) (env : Env) (s : Session)
    (message : Bytes) (h : WosSmpHeader) (p : WosMsgMqttsControlParams) (plainText : Bytes) :
    Prop where
  routed : Routed cbor role s message h
  type : h.messageType ≠ (seMessageType role.peer).code
  opened : ControlOpened cbor role env s h.messageType message p plainText

theorem wosMsgUnpackSmpHeaderFromSmpMsg_ne_nil {message : Bytes} {h : WosSmpHeader}
    (hh : wosMsgUnpackSmpHeaderFromSmpMsg cbor message = .ok h) : message ≠ [] := by
  rintro rfl
  simp [wosMsgUnpackSmpHeaderFromSmpMsg, reject, Bind.bind, Except.bind] at hh

/-- The accepted messages, what they deliver and what they change. -/
theorem smpProcessMessage_ok {message packet : Bytes} :
    smpProcessMessage cbor role env message s = some (.ok packet, s') ↔
      (∃ h p sharedSecret, SeAccepted cbor role env s message h p sharedSecret ∧
        packet = p.mqttPacket ∧ s' = (s.keyed env role sharedSecret).received h.messageId) ∨
      (∃ h p plainText, ControlAccepted cbor role env s message h p plainText ∧
        packet = deliveredPacket role h.messageType p plainText ∧
        s' = s.received h.messageId) := by
  simp only [smpProcessMessage, bind_ok, failIf_ok, mapErr_ok, ofExcept_apply, get_apply,
    lSmpValidateSmpHeader_ok, modifyCtx, modify_apply, pure_apply, Option.some.injEq,
    Prod.mk.injEq, Except.ok.injEq]
  constructor
  · rintro ⟨_, _, ⟨-, rfl⟩, h, _, ⟨hh, rfl⟩, _, _, ⟨rfl, rfl⟩, _, _, ⟨hv, rfl⟩, packet, t, hbranch,
      _, _, ⟨-, rfl⟩, rfl, rfl⟩
    split_ifs at hbranch with htype
    · obtain ⟨p, secret, hp, rfl, rfl⟩ := lSmpProcessSeMessage_ok.mp hbranch
      exact .inl ⟨h, p, secret, ⟨⟨hh, hv⟩, htype, hp⟩, rfl, rfl⟩
    · obtain ⟨p, plain, hp, rfl, rfl⟩ := lSmpProcessControlMessage_ok.mp hbranch
      exact .inr ⟨h, p, plain, ⟨⟨hh, hv⟩, htype, hp⟩, rfl, rfl⟩
  · rintro (⟨h, p, secret, ha, rfl, rfl⟩ | ⟨h, p, plain, ha, rfl, rfl⟩)
    · refine ⟨(), _, ⟨wosMsgUnpackSmpHeaderFromSmpMsg_ne_nil ha.routed.unpacked, rfl⟩, h, _,
        ⟨ha.routed.unpacked, rfl⟩, _, _, ⟨rfl, rfl⟩, (), _, ⟨ha.routed.valid, rfl⟩, _, _, ?_, (), _,
        ⟨trivial, rfl⟩, rfl, rfl⟩
      rw [if_pos ha.type]
      exact lSmpProcessSeMessage_ok.mpr ⟨p, secret, ha.derived, rfl, rfl⟩
    · refine ⟨(), _, ⟨wosMsgUnpackSmpHeaderFromSmpMsg_ne_nil ha.routed.unpacked, rfl⟩, h, _,
        ⟨ha.routed.unpacked, rfl⟩, _, _, ⟨rfl, rfl⟩, (), _, ⟨ha.routed.valid, rfl⟩, _, _, ?_, (), _,
        ⟨trivial, rfl⟩, rfl, rfl⟩
      rw [if_neg ha.type]
      exact lSmpProcessControlMessage_ok.mpr ⟨p, plain, ha.opened, rfl, rfl⟩

/-- A refused message leaves a partly written shared key at most. -/
theorem smpProcessMessage_error {message : Bytes} {e : WclError}
    (h : smpProcessMessage cbor role env message s = some (.error e, s')) :
    LeftPartialKey cbor role env message s s' := by
  simp only [smpProcessMessage, bind_error] at h
  rcases h with h | ⟨_, _, h1, h⟩
  · exact .inl (failIf_error.mp h).2.2.symm
  obtain ⟨-, rfl⟩ := failIf_ok.mp h1
  rcases h with h | ⟨hdr, _, h1, h⟩
  · exact .inl ((relates_mapErr relates_ofExcept : Relates Eq _) _ _ _ h).symm
  obtain rfl : s = _ := (relates_mapErr relates_ofExcept : Relates Eq _) _ _ _ h1
  rcases h with h | ⟨ctx, _, h1, h⟩
  · simp at h
  obtain rfl : s = _ := (relates_get : Relates Eq _) _ _ _ h1
  rcases h with h | ⟨_, _, h1, h⟩
  · exact .inl ((relates_ofExcept : Relates Eq _) _ _ _ h).symm
  obtain rfl : s = _ := (relates_ofExcept : Relates Eq _) _ _ _ h1
  rcases h with h | ⟨packet, _, -, h⟩
  · split_ifs at h
    · exact lSmpProcessSeMessage_error h
    · exact .inl (lSmpProcessControlMessage_relates _ _ _ _ _ h).symm
  rcases h with h | ⟨_, _, -, h⟩
  · simp [modifyCtx] at h
  · simp at h

end WeeveMQ
