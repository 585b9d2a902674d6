/-
  WeeveMQ.MosqSession

  The MQTT library on top of SMP sessions.

  `smpSession` of a client is a session of the SMP library, or NULL when
  opening one failed; each library call on it has an environment of its own.
  What a call can do to the session is `SessionOutcome`, so nothing here looks
  into the SMP again.  A session that was just opened is `Fresh`.
-/

import WeeveMQ.GlobalCreds
import WeeveMQ.PacketFrames
import WeeveMQ.SmpRun

namespace WeeveMQ

open Call
open WclSmpMessageType

/-- What `smpSession` points to, if it is open, how many sessions there were before
    this one, and how many library calls there were on it. -/
structure SmpSession where
  session : Session
  isOpen : Bool
  opens : Nat
  calls : Nat

/-- What both builds run on: the CBOR library, the outside world of every SMP call and
    of every start of the library, the credential files, the allocator, and what stands
    behind a decrypted packet. -/
structure Platform where
  cbor : TinyCbor
  envs : Nat → Env
  starts : Nat → StartEnv
  files : WosString → Bytes
  malloc : Nat → Nat → Option Nat
  memLimit : Nat
  beyondPacket : Option (Nat → UInt8)

/-- A call of the SMP library.  It refuses a session that is not open. -/
def Platform.call {α : Type} (platform : Platform) (f : Env → Call Session WclError α) :
    Call SmpSession WclError α := fun s =>
  if s.isOpen then
    (f (platform.envs s.calls) s.session).map fun r =>
      (r.1, { s with session := r.2, calls := s.calls + 1 })
  else some (.error .badSession, s)

/-- `wclSmpOpen` into `smpSession`, which stays NULL when that fails. -/
def Platform.openSession (platform : Platform) (s : SmpSession) : Option SmpSession := do
  let (opened, storage) ← wclSmpOpen (platform.envs s.calls) s.session.storage
  let next := { s with opens := s.opens + 1, calls := s.calls + 1 }
  match opened with
  | .ok ctx => return { next with session := { ctx := ctx, storage := storage }, isOpen := true }
  | .error _ => return { next with session := { s.session with storage := storage }, isOpen := false }

/-- A build on this platform. -/
def Platform.setup (platform : Platform) (role : Role)
    (handlePacket : Nat → MosqState → Incoming → List HandlerAct × Except MosqError Unit) :
    Setup SmpSession where
  role := role
  wclSmpProcessMessage message :=
    platform.call fun env => wclSmpProcessMessage platform.cbor role env message
  wclSmpGetMessage messageType packet :=
    platform.call fun env => wclSmpGetMessage platform.cbor role env messageType packet
  handlePacket := handlePacket
  malloc := platform.malloc
  memLimit := platform.memLimit
  beyondPacket := platform.beyondPacket

section Calls

variable {platform : Platform} {role : Role}
  {handle : Nat → MosqState → Incoming → List HandlerAct × Except MosqError Unit}
  {s s' : SmpSession}

/-- A call is one of the library, or there is no session. -/
theorem Platform.call_cases {α : Type} {f : Env → Call Session WclError α} {r : Except WclError α}
    (h : platform.call f s = some (r, s')) :
    (s.isOpen = true ∧ f (platform.envs s.calls) s.session = some (r, s'.session) ∧
      s' = { s with session := s'.session, calls := s.calls + 1 }) ∨
      (r = .error .badSession ∧ s' = s) := by
  unfold Platform.call at h
  split at h
  · next hopen =>
    obtain ⟨⟨q, t⟩, hq, heq⟩ := Option.map_eq_some_iff.mp h
    cases heq
    exact .inl ⟨hopen, hq, rfl⟩
  · cases h
    exact .inr ⟨rfl, rfl⟩

/-- No call opens a session or closes one. -/
structure SameSession (s s' : SmpSession) : Prop where
  isOpen : s'.isOpen = s.isOpen
  opens : s'.opens = s.opens

theorem Platform.call_same {α : Type} {f : Env → Call Session WclError α} {r : Except WclError α}
    (h : platform.call f s = some (r, s')) : SameSession s s' := by
  rcases Platform.call_cases h with ⟨-, -, hs'⟩ | ⟨-, hs'⟩
  · rw [hs']
    exact ⟨rfl, rfl⟩
  · rw [hs']
    exact ⟨rfl, rfl⟩

/-- Processing a message is a step of the session. -/
theorem processMessage_outcome {message : Bytes} {r : Except WclError Bytes}
    (h : (platform.setup role handle).wclSmpProcessMessage message s = some (r, s')) :
    SameSession s s' ∧ SessionOutcome platform.cbor role s.session
      ⟨platform.envs s.calls, .processMessage message, r⟩ s'.session := by
  have hcall : platform.call
      (fun env => wclSmpProcessMessage platform.cbor role env message) s = some (r, s') := h
  refine ⟨Platform.call_same hcall, ?_⟩
  rcases Platform.call_cases hcall with ⟨-, hstep, -⟩ | ⟨rfl, rfl⟩
  · exact SessionStep.outcome hstep
  · exact .refused (.inl rfl)

/-- Getting a message is one. -/
theorem getMessage_outcome {messageType : Nat} {packet : Bytes} {r : Except WclError Bytes}
    (h : (platform.setup role handle).wclSmpGetMessage messageType packet s = some (r, s')) :
    SameSession s s' ∧ SessionOutcome platform.cbor role s.session
      ⟨platform.envs s.calls, .getMessage messageType packet, r⟩ s'.session := by
  have hcall : platform.call
      (fun env => wclSmpGetMessage platform.cbor role env messageType packet) s =
        some (r, s') := h
  refine ⟨Platform.call_same hcall, ?_⟩
  rcases Platform.call_cases hcall with ⟨-, hstep, -⟩ | ⟨rfl, rfl⟩
  · exact SessionStep.outcome hstep
  · exact .notSent (.of_eq rfl)

/-- Getting a message neither establishes the key of a session nor takes it away. -/
theorem SessionOutcome.getMessage_established {cbor : TinyCbor} {env : Env} {t t' : Session}
    {messageType : Nat} {packet : Bytes} {r : Except WclError Bytes}
    (h : SessionOutcome cbor role t ⟨env, .getMessage messageType packet, r⟩ t') :
    t'.ctx.isSessionKeyEstablished = t.ctx.isSessionKeyEstablished := by
  cases h with
  | exported => rfl
  | secured => rfl
  | notSent same =>
    rcases same with hs | hs
    · rw [hs]
    · rw [hs]
      rfl

theorem getsMessages_established
    (h : Relation.ReflTransGen (GetsMessage (platform.setup role handle)) s s') :
    s'.session.ctx.isSessionKeyEstablished = s.session.ctx.isSessionKeyEstablished ∧
      s'.session.ctx.fixed = s.session.ctx.fixed := by
  induction h with
  | refl => exact ⟨rfl, rfl⟩
  | tail _ hlast ih =>
    obtain ⟨messageType, packet, r, h⟩ := hlast
    have hout := (getMessage_outcome h).2
    exact ⟨hout.getMessage_established.trans ih.1, hout.fixed.trans ih.2⟩

/-- Processing a message never takes the key away. -/
theorem SessionOutcome.processMessage_established {cbor : TinyCbor} {env : Env}
    {t t' : Session} {message : Bytes} {r : Except WclError Bytes}
    (h : SessionOutcome cbor role t ⟨env, .processMessage message, r⟩ t')
    (hkey : t.ctx.isSessionKeyEstablished = true) : t'.ctx.isSessionKeyEstablished = true := by
  cases h with
  | established accepted => rfl
  | delivered accepted => exact hkey
  | refused left =>
    rcases left with rfl | ⟨_, _, _, -, -, rfl⟩
    · exact hkey
    · exact hkey

/-- The first message a session accepts establishes it. -/
theorem SessionOutcome.processMessage_first {cbor : TinyCbor} {env : Env}
    {t t' : Session} {message packet : Bytes}
    (h : SessionOutcome cbor role t ⟨env, .processMessage message, .ok packet⟩ t')
    (hkey : t.ctx.isSessionKeyEstablished = false) :
    t'.ctx.isSessionKeyEstablished = true ∧ t'.ctx.fixed = t.ctx.fixed ∧
      ∃ h p sharedSecret, SeAccepted cbor role env t message h p sharedSecret ∧
        p.mqttPacket = packet := by
  have hfixed := h.fixed
  cases h with
  | established accepted => exact ⟨rfl, hfixed, _, _, _, accepted, rfl⟩
  | delivered accepted =>
    rw [accepted.opened.established] at hkey
    cases hkey

/-! ## Message ids -/

/-- The id of the next message of the session. -/
def SmpSession.nextId (s : SmpSession) : UInt32 := s.session.ctx.toBeSentMessageId

/-- A session that was just opened, or none. -/
def SmpSession.Fresh (s : SmpSession) : Prop :=
  s.isOpen = true → s.nextId = 0 ∧ s.session.ctx.isSessionKeyEstablished = false

theorem Platform.openSession_fresh (h : platform.openSession s = some s') :
    s'.opens = s.opens + 1 ∧ s'.Fresh := by
  unfold Platform.openSession at h
  obtain ⟨⟨opened, storage⟩, hopen, h⟩ := Option.bind_eq_some_iff.mp h
  cases opened with
  | error e =>
    cases h
    exact ⟨rfl, nofun⟩
  | ok ctx =>
    obtain ⟨_, _, _, -, rfl, -⟩ := wclSmpOpen_ok.mp hopen
    cases h
    exact ⟨rfl, fun _ => ⟨rfl, rfl⟩⟩

/-- A message that was got carries the id the session was at, and moves it on. -/
structure GivesOut (cbor : TinyCbor) (role : Role) (s : Session) (messageType : Nat)
    (message : Bytes) (s' : Session) : Prop where
  header : ∃ h, wosMsgUnpackSmpHeaderFromSmpMsg cbor message = .ok h ∧
    h.messageId = s.ctx.toBeSentMessageId
  nextId : s'.ctx.toBeSentMessageId = s.ctx.toBeSentMessageId + 1
  type : messageType = (seMessageType role).code ∨ s.ctx.isSessionKeyEstablished = true

theorem SessionOutcome.givesOut {cbor : TinyCbor} {env : Env} {t t' : Session}
    {messageType : Nat} {packet message : Bytes}
    (h : SessionOutcome cbor role t ⟨env, .getMessage messageType packet, .ok message⟩ t') :
    GivesOut cbor role t messageType message t' := by
  cases h with
  | exported exporting => exact ⟨⟨_, exporting.header_unpacked cbor, rfl⟩, rfl, .inl rfl⟩
  | secured securable sealing size =>
    exact ⟨⟨_, sealing.header_unpacked cbor size, rfl⟩, rfl, .inr sealing.established⟩

/-- A call that fails uses up no id. -/
theorem SessionOutcome.getMessage_error {cbor : TinyCbor} {env : Env} {t t' : Session}
    {messageType : Nat} {packet : Bytes} {e : WclError}
    (h : SessionOutcome cbor role t ⟨env, .getMessage messageType packet, .error e⟩ t') :
    t'.ctx.toBeSentMessageId = t.ctx.toBeSentMessageId := by
  cases h with
  | notSent same =>
    rcases same with hs | hs
    · rw [hs]
    · rw [hs]
      rfl

/-- Nor does one that processes a message. -/
theorem SessionOutcome.processMessage_nextId {cbor : TinyCbor} {env : Env} {t t' : Session}
    {message : Bytes} {r : Except WclError Bytes}
    (h : SessionOutcome cbor role t ⟨env, .processMessage message, r⟩ t') :
    t'.ctx.toBeSentMessageId = t.ctx.toBeSentMessageId := by
  cases h with
  | established accepted => rfl
  | delivered accepted => rfl
  | refused left => rcases left with rfl | ⟨_, _, _, -, -, rfl⟩ <;> rfl

/-- A call uses up an id when it succeeds, and only then. -/
theorem getMessage_nextId {messageType : Nat} {packet : Bytes} {r : Except WclError Bytes}
    (h : (platform.setup role handle).wclSmpGetMessage messageType packet s = some (r, s')) :
    (∃ message, r = .ok message ∧ s'.nextId = s.nextId + 1) ∨ s'.nextId = s.nextId := by
  have hout := (getMessage_outcome h).2
  cases r with
  | error e => exact .inr hout.getMessage_error
  | ok message => exact .inl ⟨message, rfl, hout.givesOut.nextId⟩

/-- A session that is not open stays as it is. -/
theorem getMessage_closed {messageType : Nat} {packet : Bytes} {r : Except WclError Bytes}
    (hclosed : s.isOpen = false)
    (h : (platform.setup role handle).wclSmpGetMessage messageType packet s = some (r, s')) :
    s' = s := by
  have hcall : platform.call
      (fun env => wclSmpGetMessage platform.cbor role env messageType packet) s =
        some (r, s') := h
  rcases Platform.call_cases hcall with ⟨hopen, -, -⟩ | ⟨-, hs'⟩
  · rw [hclosed] at hopen
    cases hopen
  · exact hs'

/-- A session that gives out a message is open. -/
theorem getMessage_isOpen {messageType : Nat} {packet message : Bytes}
    (h : (platform.setup role handle).wclSmpGetMessage messageType packet s =
      some (.ok message, s')) : s.isOpen = true := by
  have hcall : platform.call
      (fun env => wclSmpGetMessage platform.cbor role env messageType packet) s =
        some (.ok message, s') := h
  rcases Platform.call_cases hcall with ⟨hopen, -, -⟩ | ⟨hr, -⟩
  · exact hopen
  · cases hr

end Calls

/-- A platform on which everything succeeds. -/
def Platform.sample : Platform where
  cbor := rfc7049 64
  envs _ := Env.sample
  starts _ := StartEnv.sample
  files := sampleFiles
  malloc _ size := some size
  memLimit := 0
  beyondPacket := none

end WeeveMQ
