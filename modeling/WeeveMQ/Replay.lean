/-
  WeeveMQ.Replay

  Which messages one session accepts over a run.

  `lSmpValidateSmpHeader` refuses an id below the last one received; its
  comment asks for a greater one.  The ids of accepted control messages
  therefore never decrease, and they increase strictly
  (`accepted_strictly_increasing`) in every run that never delivers a message
  with the id of the control message accepted last, to a session that could
  open it.
-/

import WeeveMQ.SmpRun

namespace WeeveMQ

open Call
open WclSmpMessageType

variable {cbor : TinyCbor} {role : Role}

/-- A session and the control messages it has accepted, with the ids it read. -/
structure Receiver where
  session : Session
  accepted : List (Bytes × UInt32)

/-- The control message a call accepts. -/
def acceptedControl (cbor : TinyCbor) (role : Role) (ev : SessionEvent) : List (Bytes × UInt32) :=
  match ev.call, ev.result with
  | .processMessage message, .ok _ =>
      match wosMsgUnpackSmpHeaderFromSmpMsg cbor message with
      | .ok h =>
          if h.messageType = (seMessageType role.peer).code then [] else [(message, h.messageId)]
      | .error _ => []
  | _, _ => []

/-- One call on the session. -/
def ReceiverStep (cbor : TinyCbor) (role : Role) (r : Receiver) (ev : SessionEvent)
    (r' : Receiver) : Prop :=
  SessionStep cbor role r.session ev r'.session ∧
    r'.accepted = r.accepted ++ acceptedControl cbor role ev

/-- The message opens under the session key and carries the id of the control
    message that was accepted last. -/
def Receiver.Repeats (cbor : TinyCbor) (role : Role) (env : Env) (r : Receiver) (message : Bytes) :
    Prop :=
  ∃ h p plainText, wosMsgUnpackSmpHeaderFromSmpMsg cbor message = .ok h ∧
    h.messageType ≠ (seMessageType role.peer).code ∧
    ControlOpened cbor role env r.session h.messageType message p plainText ∧
    r.accepted.getLast?.map Prod.snd = some h.messageId

/-- A step that delivers no such message. -/
def NoRepeatStep (cbor : TinyCbor) (role : Role) (r : Receiver) (ev : SessionEvent)
    (r' : Receiver) : Prop :=
  ReceiverStep cbor role r ev r' ∧
    ∀ message, ev.call = .processMessage message → ¬ r.Repeats cbor role ev.env message

/-! ## The invariant -/

/-- The record is true to the messages, the session has received nothing newer
    than it says, and the ids increase. -/
structure ReplayInvariant (cbor : TinyCbor) (r : Receiver) : Prop where
  recorded : ∀ a ∈ r.accepted, ∃ h, wosMsgUnpackSmpHeaderFromSmpMsg cbor a.1 = .ok h ∧
    h.messageId = a.2
  bounded : ∀ a ∈ r.accepted, a.2 ≤ r.session.ctx.lastReceivedMessageId
  increasing : (r.accepted.map Prod.snd).Pairwise (· < ·)

/-- An id that is not below the bound and is not the last one is new. -/
theorem lt_of_ne_getLast {ids : List UInt32} {bound id : UInt32} (hinc : ids.Pairwise (· < ·))
    (hbound : ∀ x ∈ ids, x ≤ bound) (hid : bound ≤ id) (hne : ids.getLast? ≠ some id) :
    ∀ x ∈ ids, x < id := by
  rcases List.eq_nil_or_concat ids with rfl | ⟨front, last, rfl⟩
  · simp
  · rw [List.concat_eq_append] at *
    have hlast : last < id := by
      refine UInt32.lt_of_le_of_ne (UInt32.le_trans (hbound last (by simp)) hid) ?_
      rintro rfl
      simp at hne
    intro x hx
    rcases List.mem_append.mp hx with hx | hx
    · exact UInt32.lt_trans ((List.pairwise_append.mp hinc).2.2 x hx last (by simp)) hlast
    · rwa [List.mem_singleton.mp hx]

theorem acceptedControl_delivered {env : Env} {s : Session} {message plainText packet : Bytes}
    {h : WosSmpHeader} {p : WosMsgMqttsControlParams}
    (accepted : ControlAccepted cbor role env s message h p plainText) :
    acceptedControl cbor role ⟨env, .processMessage message, .ok packet⟩ =
      [(message, h.messageId)] := by
  simp only [acceptedControl, accepted.routed.unpacked, if_neg accepted.type]

theorem acceptedControl_established {env : Env} {s : Session} {message sharedSecret packet : Bytes}
    {h : WosSmpHeader} {p : WosMsgMqttsSeParams}
    (accepted : SeAccepted cbor role env s message h p sharedSecret) :
    acceptedControl cbor role ⟨env, .processMessage message, .ok packet⟩ = [] := by
  simp only [acceptedControl, accepted.routed.unpacked, if_pos accepted.type]

theorem replayInvariant_step {r r' : Receiver} {ev : SessionEvent} (hinv : ReplayInvariant cbor r)
    (step : NoRepeatStep cbor role r ev r') : ReplayInvariant cbor r' := by
  obtain ⟨⟨call, record⟩, hrepeats⟩ := step
  have hle := call.outcome.lastReceived_le
  have hbounded : ∀ a ∈ r.accepted, a.2 ≤ r'.session.ctx.lastReceivedMessageId :=
    fun a ha => UInt32.le_trans (hinv.bounded a ha) hle
  -- every outcome but a delivery leaves the record alone
  have hsame : acceptedControl cbor role ev = [] → ReplayInvariant cbor r' := by
    intro hnil
    rw [hnil, List.append_nil] at record
    exact ⟨record ▸ hinv.recorded, record ▸ hbounded, record ▸ hinv.increasing⟩
  generalize hs' : r'.session = s' at call
  cases call.outcome with
  | exported => exact hsame rfl
  | secured => exact hsame rfl
  | notSent => exact hsame rfl
  | established accepted => exact hsame (acceptedControl_established accepted)
  | refused => exact hsame rfl
  | @delivered env message h p plainText accepted =>
      rw [acceptedControl_delivered accepted] at record
      have hne : (r.accepted.map Prod.snd).getLast? ≠ some h.messageId := by
        rw [List.getLast?_map]
        exact fun hlast => hrepeats message rfl
          ⟨h, p, plainText, accepted.routed.unpacked, accepted.type, accepted.opened, hlast⟩
      have hnew := lt_of_ne_getLast hinv.increasing
        (List.forall_mem_map.mpr hinv.bounded) accepted.routed.valid.notOlder hne
      refine ⟨?_, ?_, ?_⟩
      · intro a ha
        rw [record] at ha
        rcases List.mem_append.mp ha with ha | ha
        · exact hinv.recorded a ha
        · rw [List.mem_singleton.mp ha]
          exact ⟨h, accepted.routed.unpacked, rfl⟩
      · intro a ha
        rw [record] at ha
        rcases List.mem_append.mp ha with ha | ha
        · exact hbounded a ha
        · rw [List.mem_singleton.mp ha, hs']
          exact UInt32.le_refl _
      · rw [record, List.map_append, List.pairwise_append]
        exact ⟨hinv.increasing, by simp, by simpa using hnew⟩

/-- A message is accepted once where its id is accepted once. -/
theorem ReplayInvariant.nodup {r : Receiver} (hinv : ReplayInvariant cbor r) :
    (r.accepted.map Prod.fst).Nodup := by
  have hids := List.pairwise_map.mp hinv.increasing
  refine List.pairwise_map.mpr (hids.imp_of_mem ?_)
  rintro a b ha hb hlt heq
  obtain ⟨ha', hua, hida⟩ := hinv.recorded a ha
  obtain ⟨hb', hub, hidb⟩ := hinv.recorded b hb
  rw [heq, hub, Except.ok.injEq] at hua
  rw [← hida, ← hidb, hua] at hlt
  exact UInt32.lt_irrefl _ hlt

/-- No replay inside a session, in runs without a repeated id. -/
theorem accepted_strictly_increasing {s : Session} {r : Receiver} {events : List SessionEvent}
    (run : Run (NoRepeatStep cbor role) ⟨s, []⟩ events r) :
    (r.accepted.map Prod.snd).Pairwise (· < ·) ∧ (r.accepted.map Prod.fst).Nodup := by
  have hinv : ReplayInvariant cbor r := by
    refine run.invariant ⟨?_, ?_, ?_⟩ fun _ _ _ => replayInvariant_step
    · simp
    · simp
    · simp
  exact ⟨hinv.increasing, hinv.nodup⟩

/-- A broker that gets a PUBLISH once. -/
theorem accepted_strictly_increasing_once :
    ([0] : List UInt32).Pairwise (· < ·) ∧ [publishMessage].Nodup :=
  have step : NoRepeatStep (rfc7049 64) .broker ⟨Session.sample, []⟩
      ⟨Env.sample, .processMessage publishMessage, .ok [1, 2]⟩
      ⟨Session.sample.received 0, [(publishMessage, 0)]⟩ :=
    ⟨⟨rfl, rfl⟩, by
      rintro _ - ⟨_, _, _, -, -, -, hlast⟩
      simp at hlast⟩
  accepted_strictly_increasing (Run.single step)

/-- A broker that gets the same PUBLISH twice accepts it twice. -/
theorem accepted_twice :
    ∃ (message : Bytes) (sender : Session) (events : List SessionEvent) (r : Receiver),
      wclSmpGetMessage (rfc7049 64) .client Env.sample publish.code [1, 2] Session.sample =
        some (.ok message, sender) ∧
      Run (ReceiverStep (rfc7049 64) .broker) ⟨Session.sample, []⟩ events r ∧
      (∀ ev ∈ events, ev.call = .processMessage message) ∧
      r.accepted = [(message, 0), (message, 0)] ∧
      ¬ (r.accepted.map Prod.snd).Pairwise (· < ·) := by
  have first : ReceiverStep (rfc7049 64) .broker ⟨Session.sample, []⟩
      ⟨Env.sample, .processMessage publishMessage, .ok [1, 2]⟩
      ⟨Session.sample.received 0, [(publishMessage, 0)]⟩ := ⟨rfl, rfl⟩
  have second : ReceiverStep (rfc7049 64) .broker
      ⟨Session.sample.received 0, [(publishMessage, 0)]⟩
      ⟨Env.sample, .processMessage publishMessage, .ok [1, 2]⟩
      ⟨Session.sample.received 0, [(publishMessage, 0), (publishMessage, 0)]⟩ := ⟨rfl, rfl⟩
  exact ⟨publishMessage, Session.sample.sent, _, _, rfl, (Run.single first).snoc second, by simp,
    rfl, by decide⟩

end WeeveMQ
