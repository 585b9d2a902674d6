/-
  WeeveMQ.SecureChannel

  Two sessions of opposite roles and a network that delivers what it likes.

  The network is not a component: a step of `ChannelStep` may process any byte
  string.  What holds the attacker back is `IdealAead`, which lets the decryption
  of a message succeed only on what one of the two sessions has encrypted, under
  the same key and the same additional data.

  - `SealedFrom`: how an encryption encodes the packet it was made for.
  - `originLog`: in every run each encryption was made for a packet that was
    handed to `smpSecureMessage`.
  - `ControlAccepted.origin`: an accepted control message has such a packet as
    its origin, of the type and id the receiver has read.
-/

import WeeveMQ.Lib.Run
import WeeveMQ.SmpSpec
import Mathlib.Tactic.IntervalCases

namespace WeeveMQ

open Call
open WclSmpMessageType

variable {cbor : TinyCbor} {env : Env}

/-! ## Labels -/

/-- The label a role puts on a message, inside the label table. -/
def sentLabel (role : Role) (messageType : Nat) : Bytes :=
  ((sentMsgLabels role)[messageType]?.getD none).getD []

theorem msgLabel_eq {role : Role} {messageType : Nat} (h : messageType ≤ 13) :
    msgLabel env (sentMsgLabels role) messageType = some (sentLabel role messageType) := by
  have hlen : (sentMsgLabels role).length = 14 := by cases role <;> rfl
  have hlt : messageType < (sentMsgLabels role).length := by omega
  simp [msgLabel, sentLabel, List.getElem?_eq_getElem hlt]

/-- How the labels of a role start. -/
def labelDirection : Role → Bytes
  | .client => ascii "C2B"
  | .broker => ascii "B2C"

/-- A label is the direction followed by a name of seven characters that both
    roles use for the type. -/
theorem sentLabel_split {messageType : Nat} (h : 2 ≤ messageType ∧ messageType ≤ 13) :
    ∃ name : Bytes, name.length = 7 ∧
      ∀ role, sentLabel role messageType = labelDirection role ++ name := by
  refine ⟨(sentLabel .client messageType).drop 3, ?_⟩
  obtain ⟨h2, h13⟩ := h
  interval_cases messageType <;> exact ⟨by decide, fun role => by cases role <;> decide⟩

theorem sentLabel_length {role : Role} {messageType : Nat}
    (h : 2 ≤ messageType ∧ messageType ≤ 13) : (sentLabel role messageType).length = 10 := by
  obtain ⟨name, hname, hlabel⟩ := sentLabel_split h
  rw [hlabel, List.length_append, hname]
  cases role <;> rfl

theorem labelDirection_injective {r q : Role} (h : labelDirection r = labelDirection q) :
    r = q := by
  revert h
  cases r <;> cases q <;> decide

/-! ## Two sessions and a network -/

/-- A packet that was handed to `smpSecureMessage`. -/
structure Secured where
  sender : Role
  messageType : Nat
  messageId : UInt32
  packet : Bytes
  deriving DecidableEq, Repr

/-- A result of `wosCryptoAeEncrypt`, with its arguments. -/
structure Encryption where
  key : Bytes
  iv : Bytes
  aad : Bytes
  plainText : Bytes
  cipherText : Bytes
  tag : Bytes
  deriving DecidableEq, Repr

/-- The arguments of a call of `wosCryptoAeDecrypt`. -/
structure Decryption where
  symKeyStorageId : StorageId
  cipherText : Bytes
  aad : Bytes
  iv : Bytes
  tag : Bytes
  deriving DecidableEq, Repr

/-- `smpProcessMessage` of a control message, up to the decryption. -/
def smpDecryption (cbor : TinyCbor) (role : Role) (env : Env) (securedMessage : Bytes) :
    Call Session WclError Decryption := do
  let smpHeader ← mapErr (fun _ => .error)
    (ofExcept (wosMsgUnpackSmpHeaderFromSmpMsg cbor securedMessage))
  let smpCtx := (← get).ctx
  ofExcept (lSmpValidateSmpHeader role smpCtx smpHeader)
  -- a session establishment message takes the other way
  failIf (smpHeader.messageType = (seMessageType role.peer).code) .invalidMessage
  failIf (smpCtx.isSessionKeyEstablished = false) .badSession
  let params ← mapErr (fun _ => .serialization)
    (ofExcept (wosMsgUnpackSmpMqttsControlMessage cbor securedMessage))
  failIf (params.encodedSmpHeader = [] ∨ params.mqttPacket = [] ∨ params.iv = [] ∨
    params.authTag = []) .invalidMessage
  let clear := hasClearMqttPacket role smpHeader.messageType
  let aad ← prepareAad env (sentMsgLabels role.peer) smpHeader.messageType params.encodedSmpHeader
    (if clear then params.mqttPacket else [])
  return {
    symKeyStorageId := smpCtx.sessionSharedKeyStorageId
    cipherText := if clear then [] else params.mqttPacket
    aad := aad
    iv := params.iv
    tag := params.authTag }

/-- An accepted control message is one whose decryption has succeeded. -/
theorem ControlAccepted.decrypted {role : Role} {s : Session} {message plainText : Bytes}
    {h : WosSmpHeader} {p : WosMsgMqttsControlParams}
    (accepted : ControlAccepted cbor role env s message h p plainText) :
    ∃ d label, smpDecryption cbor role env message s = some (.ok d, s) ∧
      wosCryptoAeDecrypt env d.symKeyStorageId d.cipherText d.aad d.iv d.tag s.storage =
        some (.ok plainText, s.storage) ∧
      msgLabel env (sentMsgLabels role.peer) h.messageType = some label ∧
      d.aad = p.encodedSmpHeader ++ label ++
        (if hasClearMqttPacket role h.messageType then p.mqttPacket else []) ∧
      d.cipherText = if hasClearMqttPacket role h.messageType then [] else p.mqttPacket := by
  have opened := accepted.opened
  obtain ⟨label, aad, key, hlabel, haad, hlength, hkey, hkeyLength, hdec⟩ := opened.opened
  refine ⟨⟨s.ctx.sessionSharedKeyStorageId,
    if hasClearMqttPacket role h.messageType then [] else p.mqttPacket, aad, p.iv, p.authTag⟩,
    label, ?_, ?_, hlabel, haad, rfl⟩
  -- up to the decryption the call is that of `lSmpProcessControlMessage`
  · simp only [smpDecryption, bind_ok, failIf_ok, get_apply, mapErr_ok, ofExcept_apply,
      prepareAad_ok, lSmpValidateSmpHeader_ok, pure_apply, Option.some.injEq, Prod.mk.injEq,
      Except.ok.injEq, not_or, Bool.not_eq_false]
    refine ⟨h, _, ⟨accepted.routed.unpacked, rfl⟩, _, _, ⟨rfl, rfl⟩, (), _,
      ⟨accepted.routed.valid, rfl⟩, (), _, ⟨accepted.type, rfl⟩, (), _,
      ⟨opened.established, rfl⟩, p, _, ⟨opened.unpacked, rfl⟩, (), _,
      ⟨⟨opened.header_ne, opened.payload_ne, opened.iv_ne, opened.tag_ne⟩, rfl⟩, aad, _,
      ⟨label, hlabel, haad, ?_, hlength, rfl⟩, rfl, rfl⟩
    rw [haad]
    simp [opened.header_ne]
  · exact wosCryptoAeDecrypt_ok.mpr ⟨opened.keyId.1, opened.keyId.2, opened.iv_ne, opened.tag_ne,
      ⟨key, hkey, hkeyLength, hdec⟩, rfl⟩

/-- The decryption of this message succeeds only on what was encrypted, under the same key
    and with the same additional data. -/
def IdealAead (encryptions : List Encryption) (cbor : TinyCbor) (role : Role) (env : Env)
    (message : Bytes) (s : Session) : Prop :=
  ∀ d s₁ plainText store, smpDecryption cbor role env message s = some (.ok d, s₁) →
    wosCryptoAeDecrypt env d.symKeyStorageId d.cipherText d.aad d.iv d.tag s₁.storage =
      some (.ok plainText, store) →
    { key := (s₁.storage d.symKeyStorageId).getD []
      iv := d.iv
      aad := d.aad
      plainText := plainText
      cipherText := d.cipherText
      tag := d.tag } ∈ encryptions

/-- A message that is as it was encrypted. -/
theorem IdealAead.of_mem {encryptions : List Encryption} {role : Role} {message : Bytes}
    {s s₁ : Session} {d : Decryption} {plainText : Bytes} {store : KeyStore}
    (hcall : smpDecryption cbor role env message s = some (.ok d, s₁))
    (hopens : wosCryptoAeDecrypt env d.symKeyStorageId d.cipherText d.aad d.iv d.tag s₁.storage =
      some (.ok plainText, store))
    (hmem : ⟨(s₁.storage d.symKeyStorageId).getD [], d.iv, d.aad, plainText, d.cipherText, d.tag⟩ ∈
      encryptions) :
    IdealAead encryptions cbor role env message s := by
  intro d' s₁' plainText' store' hcall' hopens'
  rw [hcall] at hcall'
  obtain ⟨⟨rfl⟩, rfl⟩ := Prod.mk.inj (Option.some.inj hcall')
  rw [hopens] at hopens'
  obtain ⟨⟨rfl⟩, -⟩ := Prod.mk.inj (Option.some.inj hopens')
  exact hmem

/-- One session of each role, what they were asked to secure, and what they
    have encrypted. -/
structure Channel where
  session : Role → Session
  secured : List Secured
  encryptions : List Encryption

/-- A call one of the two sessions receives. -/
inductive ChannelCall where
  | secure (messageType : Nat) (packet : Bytes)
  | establish (packet : Bytes)
  | process (message : Bytes)

/-- A call together with the environment it runs in and its result. -/
structure ChannelEvent where
  role : Role
  env : Env
  call : ChannelCall
  result : Except WclError Bytes

/-- What the encryption inside `smpSecureMessage` leaves on record. -/
def encryptionsOf (cbor : TinyCbor) (role : Role) (env : Env) (messageType : Nat) (packet : Bytes)
    (s : Session) : List Encryption :=
  match smpSealMessage cbor role env messageType packet s with
  | some (.ok m, _) =>
      [{ key := (s.storage s.ctx.sessionSharedKeyStorageId).getD []
         iv := m.ae.iv
         aad := m.aad
         plainText := m.plainText
         cipherText := m.ae.cipherText
         tag := m.ae.tag }]
  | _ => []

/-- One call at one of the sessions.  The message of a `process` call is any
    byte string: the network replays, reorders, drops and invents. -/
inductive ChannelStep (cbor : TinyCbor) : Channel → ChannelEvent → Channel → Prop
  | secure {c role env messageType packet result s'}
      (call : smpSecureMessage cbor role env messageType packet (c.session role) =
        some (result, s')) :
      ChannelStep cbor c ⟨role, env, .secure messageType packet, result⟩
        { session := Function.update c.session role s'
          secured := c.secured ++
            [⟨role, messageType, (c.session role).ctx.toBeSentMessageId, packet⟩]
          encryptions := c.encryptions ++
            encryptionsOf cbor role env messageType packet (c.session role) }
  | establish {c role env packet result s'}
      (call : smpExportSessionEstablishmentParams cbor role env packet (c.session role) =
        some (result, s')) :
      ChannelStep cbor c ⟨role, env, .establish packet, result⟩
        { c with session := Function.update c.session role s' }
  | process {c role env message result s'}
      (ideal : IdealAead c.encryptions cbor role env message (c.session role))
      (call : smpProcessMessage cbor role env message (c.session role) = some (result, s')) :
      ChannelStep cbor c ⟨role, env, .process message, result⟩
        { c with session := Function.update c.session role s' }

/-- Two established sessions with one key, before the first message. -/
def Channel.sample : Channel := ⟨fun _ => Session.sample, [], []⟩

/-! ## Origins -/

/-- How an encryption encodes the packet it was made for. -/
structure SealedFrom (e : Encryption) (a : Secured) : Prop where
  packet_ne : a.packet ≠ []
  type_range : 1 ≤ a.messageType ∧ a.messageType ≤ 14
  aad : ∃ clientId label, wosStringLength clientId ≤ WCL_SMP_CLIENT_ID_LENGTH ∧
    (a.messageType ≤ 13 → label = sentLabel a.sender a.messageType) ∧
    e.aad = encodeSmpHeader ⟨0, 0, a.messageType, clientId, a.messageId⟩ ++ label ++
      (if encryptMqttPacket a.messageType then [] else a.packet)
  plainText : e.plainText = if encryptMqttPacket a.messageType then a.packet else []
  cipherText_length : e.cipherText.length = e.plainText.length

theorem Sealing.sealedFrom {role : Role} {s : Session} {messageType : Nat} {packet : Bytes}
    {m : SealedMessage} (h : Sealing role env s messageType packet m) (key : Bytes) :
    SealedFrom ⟨key, m.ae.iv, m.aad, m.plainText, m.ae.cipherText, m.ae.tag⟩
      ⟨role, messageType, s.ctx.toBeSentMessageId, packet⟩ := by
  obtain ⟨label, hlabel, haad⟩ := h.aad
  refine ⟨h.packet_ne, h.type_range, ⟨s.ctx.clientId, label, h.clientId, ?_, ?_⟩, h.plainText, ?_⟩
  · intro h13
    rw [msgLabel_eq h13] at hlabel
    exact (Option.some.inj hlabel).symm
  · simp only
    rw [haad, h.header]
    rfl
  · obtain ⟨_, -, -, -, henc⟩ := h.encrypted
    exact (env.gcmEncrypt_length henc).1

/-- Each encryption was made for a packet that was handed over. -/
def OriginLog (c : Channel) : Prop :=
  ∀ e ∈ c.encryptions, ∃ a ∈ c.secured, SealedFrom e a

theorem encryptionsOf_origin {role : Role} {s : Session} {messageType : Nat} {packet : Bytes}
    {e : Encryption} (he : e ∈ encryptionsOf cbor role env messageType packet s) :
    SealedFrom e ⟨role, messageType, s.ctx.toBeSentMessageId, packet⟩ := by
  unfold encryptionsOf at he
  split at he
  · rename_i m t hm
    obtain ⟨hseal, -⟩ := smpSealMessage_ok.mp hm
    rw [List.mem_singleton.mp he]
    exact hseal.sealedFrom _
  · simp at he

theorem originLog_step {c c' : Channel} {ev : ChannelEvent} (hlog : OriginLog c)
    (h : ChannelStep cbor c ev c') : OriginLog c' := by
  -- only `smpSecureMessage` encrypts, and it leaves the packet on record with it
  cases h with
  | secure call =>
      intro e he
      rcases List.mem_append.mp he with he | he
      · obtain ⟨a, ha, hsealed⟩ := hlog e he
        exact ⟨a, List.mem_append_left _ ha, hsealed⟩
      · exact ⟨_, List.mem_append_right _ (List.mem_singleton.mpr rfl), encryptionsOf_origin he⟩
  | establish call => exact hlog
  | process ideal call => exact hlog

theorem originLog {start c : Channel} {events : List ChannelEvent}
    (hstart : start.encryptions = []) (run : Run (ChannelStep cbor) start events c) :
    OriginLog c := by
  refine run.invariant ?_ fun _ _ _ => originLog_step
  intro e he
  rw [hstart] at he
  simp at he

/-- Two strings with the same beginning: one continues the other. -/
theorem header_determined {h h' : WosSmpHeader} {b x y : Bytes} (ht : h.messageType < 2 ^ 64)
    (hid : wosStringLength h.clientId ≤ WCL_SMP_CLIENT_ID_LENGTH)
    (hdec : unpackSmpHeader cbor b = .ok h') (heq : encodeSmpHeader h ++ x = b ++ y) :
    h' = h.narrowed ∧
      ((∃ z, b = encodeSmpHeader h ++ z ∧ x = z ++ y) ∨
        (encodeSmpHeader h = b ++ [0xff] ∧ y = 0xff :: x)) := by
  -- either the header ends first, or the break byte of its array is missing in `b`
  rcases List.append_eq_append_iff.mp heq with ⟨z, hb, hx⟩ | ⟨z, hb, hy⟩
  · have hfull := unpackSmpHeader_append cbor z (unpackSmpHeader_encode cbor ht hid)
    rw [← hb, hdec, Except.ok.injEq] at hfull
    exact ⟨hfull, .inl ⟨z, hb, hx⟩⟩
  · obtain ⟨hnarrow, hz⟩ := unpackSmpHeader_prefix cbor ht hid hb.symm hdec
    refine ⟨hnarrow, ?_⟩
    rcases hz with rfl | rfl
    · exact .inl ⟨[], by simpa using hb.symm, by simpa using hy.symm⟩
    · exact .inr ⟨hb, hy⟩

/-- A control message has a type between PUBLISH and DISCONNECT. -/
theorem ControlAccepted.type_range {role : Role} {s : Session} {message plainText : Bytes}
    {h : WosSmpHeader} {p : WosMsgMqttsControlParams}
    (accepted : ControlAccepted cbor role env s message h p plainText) :
    3 ≤ h.messageType ∧ h.messageType ≤ 14 := by
  have hrec := accepted.routed.valid.receivable
  have hne := accepted.type
  -- CONNECT and CONNACK are session establishment messages
  cases role <;> simp [isReceivable, Role.peer, seMessageType] at hrec hne <;> omega

/-- The packet behind an accepted control message: it was handed over under the
    type and id the receiver has read.  Inside the label table the two ends
    agree on the authenticated string, and `z` are the bytes behind the header
    that the receiver has not looked at. -/
theorem ControlAccepted.origin {c : Channel} {role : Role} {message plainText : Bytes}
    {h : WosSmpHeader} {p : WosMsgMqttsControlParams} (hlog : OriginLog c)
    (ideal : IdealAead c.encryptions cbor role env message (c.session role))
    (accepted : ControlAccepted cbor role env (c.session role) message h p plainText) :
    ∃ a ∈ c.secured, a.messageType = h.messageType ∧ a.messageId = h.messageId ∧
      a.packet ≠ [] ∧
      (if hasClearMqttPacket role h.messageType then [] else p.mqttPacket).length =
        plainText.length ∧
      plainText = (if encryptMqttPacket h.messageType then a.packet else []) ∧
      (h.messageType ≤ 13 → ∃ z, sentLabel a.sender h.messageType ++
        (if encryptMqttPacket h.messageType then [] else a.packet) =
          z ++ (sentLabel role.peer h.messageType ++
            (if hasClearMqttPacket role h.messageType then p.mqttPacket else []))) := by
  have hrange := accepted.type_range
  obtain ⟨d, label', hcall, hopens, hlabel', haad', hcipherText⟩ := accepted.decrypted
  obtain ⟨a, ha, sealed⟩ := hlog _ (ideal _ _ _ _ hcall hopens)
  obtain ⟨clientId, label, hid, hlabel, haad⟩ := sealed.aad
  have hunpack := header_of_control cbor accepted.opened.unpacked
  rw [accepted.routed.unpacked] at hunpack
  have ha14 := sealed.type_range
  -- both ends have the same additional data, so one header continues the other
  have heq := haad.symm.trans haad'
  rw [List.append_assoc, List.append_assoc] at heq
  obtain ⟨hnarrow, hsplit⟩ := header_determined (by simp only; omega) hid hunpack.symm heq
  have htype : h.messageType = a.messageType := by
    rw [hnarrow]
    exact Nat.mod_eq_of_lt (show a.messageType < 256 by omega)
  refine ⟨a, ha, htype.symm, ?_, sealed.packet_ne, hcipherText ▸ sealed.cipherText_length, ?_, ?_⟩
  · rw [hnarrow]
    rfl
  · rw [htype]
    exact sealed.plainText
  · intro h13
    rw [msgLabel_eq h13, Option.some.injEq] at hlabel'
    rw [hlabel (by omega), ← htype, ← hlabel'] at hsplit
    -- a missing break byte would be the first byte of the label, which is a letter
    rcases hsplit with ⟨z, -, hz⟩ | ⟨-, hbreak⟩
    · exact ⟨z, hz⟩
    · obtain ⟨name, -, hname⟩ :=
        sentLabel_split (show 2 ≤ h.messageType ∧ h.messageType ≤ 13 by omega)
      rw [hname role.peer] at hbreak
      exact absurd hbreak (by cases role <;> simp [labelDirection, ascii, Role.peer])

end WeeveMQ
