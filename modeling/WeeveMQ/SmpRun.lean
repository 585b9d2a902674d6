/-
  WeeveMQ.SmpRun

  Runs of one session: calls of `wclSmpGetMessage` and `wclSmpProcessMessage`
  with any arguments, each in an environment of its own.

  `SessionOutcome` says once what a call can do; `SessionStep.outcome` is the
  only lemma about calls that the properties of runs need.
-/

import WeeveMQ.Lib.Run
import WeeveMQ.SmpSpec

namespace WeeveMQ

open Call
open WclSmpMessageType

variable {cbor : TinyCbor} {role : Role} {env : Env} {s s' : Session}

/-- A call on an open session. -/
inductive SessionCall where
  | getMessage (messageType : Nat) (stdProtocolPacket : Bytes)
  | processMessage (smpMessage : Bytes)
  deriving DecidableEq, Repr

/-- A call together with the environment it runs in and its result. -/
structure SessionEvent where
  env : Env
  call : SessionCall
  result : Except WclError Bytes

/-- The call in the library. -/
def SessionCall.run (cbor : TinyCbor) (role : Role) (env : Env) :
    SessionCall → Call Session WclError Bytes
  | .getMessage messageType packet => wclSmpGetMessage cbor role env messageType packet
  | .processMessage message => wclSmpProcessMessage cbor role env message

/-- One call on a session; a call with undefined behaviour is no step. -/
def SessionStep (cbor : TinyCbor) (role : Role) (s : Session) (ev : SessionEvent) (s' : Session) :
    Prop :=
  ev.call.run cbor role ev.env s = some (ev.result, s')

/-- Everything a call on a session can do. -/
inductive SessionOutcome (cbor : TinyCbor) (role : Role) (s : Session) :
    SessionEvent → Session → Prop
  /-- a session establishment message was exported -/
  | exported {env packet p} (exporting : Exporting role env s packet p) :
      SessionOutcome cbor role s
        ⟨env, .getMessage (seMessageType role).code packet, .ok (encodeSmpMqttsSEMessage role p)⟩
        s.chainOfOne.sent
  /-- a control message was secured -/
  | secured {env messageType packet m} (securable : isSecurable role messageType = true)
      (sealing : Sealing role env s messageType packet m)
      (size : m.serializedBufSize messageType packet < 2 ^ 32) :
      SessionOutcome cbor role s
        ⟨env, .getMessage messageType packet,
          .ok (encodeSmpMqttsControlMessage (m.controlParams messageType packet))⟩
        s.sent
  /-- no message -/
  | notSent {env messageType packet e s'} (same : s.SameUpToChain s') :
      SessionOutcome cbor role s ⟨env, .getMessage messageType packet, .error e⟩ s'
  /-- a session establishment message was accepted -/
  | established {env message h p sharedSecret}
      (accepted : SeAccepted cbor role env s message h p sharedSecret) :
      SessionOutcome cbor role s ⟨env, .processMessage message, .ok p.mqttPacket⟩
        ((s.keyed env role sharedSecret).received h.messageId)
  /-- a control message was accepted -/
  | delivered {env message h p plainText}
      (accepted : ControlAccepted cbor role env s message h p plainText) :
      SessionOutcome cbor role s
        ⟨env, .processMessage message, .ok (deliveredPacket role h.messageType p plainText)⟩
        (s.received h.messageId)
  /-- a message was refused -/
  | refused {env message e s'} (left : LeftPartialKey cbor role env message s s') :
      SessionOutcome cbor role s ⟨env, .processMessage message, .error e⟩ s'

theorem SessionStep.outcome {ev : SessionEvent} (h : SessionStep cbor role s ev s') :
    SessionOutcome cbor role s ev s' := by
  obtain ⟨env, call, result⟩ := ev
  cases call with
  | getMessage messageType packet =>
      cases result with
      | error e => exact .notSent (wclSmpGetMessage_failRelates _ _ _ _ _ h)
      | ok message =>
          rcases wclSmpGetMessage_ok.mp h with
            ⟨rfl, p, hp, rfl, rfl⟩ | ⟨hsec, m, hm, hsize, rfl, rfl⟩
          · exact .exported hp
          · exact .secured hsec hm hsize
  | processMessage message =>
      cases result with
      | error e => exact .refused (wclSmpProcessMessage_error h)
      | ok packet =>
          rcases smpProcessMessage_ok.mp (wclSmpProcessMessage_ok.mp h) with
            ⟨h, p, secret, ha, rfl, rfl⟩ | ⟨h, p, plain, ha, rfl, rfl⟩
          · exact .established ha
          · exact .delivered ha

/-- The id of the last message received never decreases. -/
theorem SessionOutcome.lastReceived_le {ev : SessionEvent} (h : SessionOutcome cbor role s ev s') :
    s.ctx.lastReceivedMessageId ≤ s'.ctx.lastReceivedMessageId := by
  cases h with
  | exported => exact UInt32.le_refl _
  | secured => exact UInt32.le_refl _
  | notSent same => rcases same with rfl | rfl <;> exact UInt32.le_refl _
  | established accepted => exact accepted.routed.valid.notOlder
  | delivered accepted => exact accepted.routed.valid.notOlder
  | refused left =>
      rcases left with rfl | ⟨_, _, _, -, -, rfl⟩ <;> exact UInt32.le_refl _

/-- What no call changes: everything but the established flag, the counters and
    the length of the chain. -/
def SmpSessionContext.fixed (ctx : SmpSessionContext) : SmpSessionContext :=
  { ctx with
    isSessionKeyEstablished := false
    toBeSentMessageId := 0
    lastReceivedMessageId := 0
    selfCertChainSize := 0 }

theorem SessionOutcome.fixed {ev : SessionEvent} (h : SessionOutcome cbor role s ev s') :
    s'.ctx.fixed = s.ctx.fixed := by
  cases h with
  | exported => rfl
  | secured => rfl
  | notSent same => rcases same with rfl | rfl <;> rfl
  | established => rfl
  | delivered => rfl
  | refused left => rcases left with rfl | ⟨_, _, _, -, -, rfl⟩ <;> rfl

/-- The storage ids of a session are those it was opened with. -/
theorem SmpSessionContext.ids_of_fixed {ctx ctx' : SmpSessionContext}
    (h : ctx'.fixed = ctx.fixed) :
    ctx'.sessionPrivateKeyStorageId = ctx.sessionPrivateKeyStorageId ∧
      ctx'.sessionPublicKeyStorageId = ctx.sessionPublicKeyStorageId ∧
      ctx'.sessionSharedKeyStorageId = ctx.sessionSharedKeyStorageId ∧
      ctx'.isPreSessionSecretsGenerated = ctx.isPreSessionSecretsGenerated :=
  ⟨congrArg (·.sessionPrivateKeyStorageId) h, congrArg (·.sessionPublicKeyStorageId) h,
    congrArg (·.sessionSharedKeyStorageId) h, congrArg (·.isPreSessionSecretsGenerated) h⟩

/-- The storage ids of a session. -/
def SmpSessionContext.ids (ctx : SmpSessionContext) : List StorageId :=
  [ctx.sessionPrivateKeyStorageId, ctx.sessionPublicKeyStorageId, ctx.sessionSharedKeyStorageId]

theorem removeWhen_of_ne {flag : Bool} {key id : StorageId} {store : KeyStore} (h : id ≠ key) :
    removeWhen env flag key store id = store id := by
  unfold removeWhen
  split_ifs
  · exact Function.update_of_ne h _ _
  · rfl

/-- A call touches no entry but those of its own session. -/
theorem SessionOutcome.frame {ev : SessionEvent} (h : SessionOutcome cbor role s ev s')
    {id : StorageId} (hid : id ∉ s.ctx.ids) : s'.storage id = s.storage id := by
  simp only [SmpSessionContext.ids, List.mem_cons, List.not_mem_nil, or_false, not_or] at hid
  obtain ⟨h1, h2, h3⟩ := hid
  cases h with
  | exported => rfl
  | secured => rfl
  | notSent same => rcases same with rfl | rfl <;> rfl
  | established =>
      show removeWhen _ _ _ _ id = _
      rw [removeWhen_of_ne h2, removeWhen_of_ne h1, Function.update_of_ne h3]
  | delivered => rfl
  | refused left =>
      rcases left with rfl | ⟨_, _, _, -, -, rfl⟩
      · rfl
      · exact Function.update_of_ne h3 _ _

/-! ## A handshake of sample sessions -/

/-- The CONNACK of the sample broker. -/
def connackMessage (packet : Bytes) : Bytes :=
  0x9f :: Cbor.encodeString 2 [0x9f, 0, 0, 2, 0x60, 0, 0xff] ++ Cbor.encodeString 2 [2] ++
    Cbor.encodeString 2 packet ++ [0x41, 3, 1, 0x41, 7, 0xff]

/-- The session after it has accepted the message of another sample session. -/
def Session.connected (role : Role) (s : Session) : Session :=
  (s.keyed Env.sample role (List.replicate 32 2)).received 0

theorem sample_connect : SessionStep (rfc7049 64) .client Session.opened
    ⟨Env.sample, .getMessage connect.code [6], .ok (connectMessage [2] [6])⟩
    Session.opened.sent := rfl

theorem sample_connected : SessionStep (rfc7049 64) .broker Session.opened
    ⟨Env.sample, .processMessage (connectMessage [2] [6]), .ok [6]⟩
    (Session.opened.connected .broker) := rfl

theorem sample_connack : SessionStep (rfc7049 64) .broker (Session.opened.connected .broker)
    ⟨Env.sample, .getMessage connack.code [7], .ok (connackMessage [7])⟩
    (Session.opened.connected .broker).sent := rfl

theorem sample_acknowledged : SessionStep (rfc7049 64) .client Session.opened.sent
    ⟨Env.sample, .processMessage (connackMessage [7]), .ok [7]⟩
    (Session.opened.sent.connected .client) := rfl

end WeeveMQ
