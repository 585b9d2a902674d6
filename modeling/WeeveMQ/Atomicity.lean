/-
  WeeveMQ.Atomicity

  Failure atomicity: a call that reports an error has changed nothing, where a
  failing storage write changes nothing.

  The one exception is the length of the certificate chain, which a failing
  export may set to 1.  It is 1 already in every session that was opened after
  `smpInit` has loaded the certificate.
-/

import WeeveMQ.SmpRun

namespace WeeveMQ

open Call
open WclSmpMessageType

variable {cbor : TinyCbor} {role : Role} {env : Env} {s s' : Session}

/-- A storage write that fails leaves the storage as it was. -/
def AtomicWrites (env : Env) : Prop :=
  ∀ id content left, env.writeOutcome id content ≠ .writeFailed left

/-- A failing call, with all writes atomic. -/
theorem failed_call_sameUpToChain {call : SessionCall} {e : WclError} (writes : AtomicWrites env)
    (failed : call.run cbor role env s = some (.error e, s')) : s.SameUpToChain s' := by
  have step : SessionStep cbor role s ⟨env, call, .error e⟩ s' := failed
  cases step.outcome with
  | notSent same => exact same
  | refused left =>
      rcases left with rfl | ⟨_, _, _, -, hw, -⟩
      · exact .inl rfl
      · exact absurd hw (writes _ _ _)

theorem chainSize_step {ev : SessionEvent} (hone : s.ctx.selfCertChainSize = 1)
    (step : SessionStep cbor role s ev s') : s'.ctx.selfCertChainSize = 1 := by
  cases step.outcome with
  | exported => rfl
  | secured => exact hone
  | notSent same =>
      rcases same with rfl | rfl
      · exact hone
      · rfl
  | established => exact hone
  | delivered => exact hone
  | refused left => rcases left with rfl | ⟨_, _, _, -, -, rfl⟩ <;> exact hone

/-- In every reachable state, and for all arguments: a failing call keeps the
    storage and every field of the context but the length of the chain, which
    it keeps as well after `smpInit`; and a message that is accepted comes with
    a packet. -/
theorem failed_call_changes_nothing {env₀ : Env} {store store' : KeyStore}
    {ctx : SmpSessionContext} {events : List SessionEvent}
    (opened : wclSmpOpen env₀ store = some (.ok ctx, store'))
    (run : Run (SessionStep cbor role) ⟨ctx, store'⟩ events s) :
    (∀ env (call : SessionCall) e s', AtomicWrites env →
      call.run cbor role env s = some (.error e, s') →
      (s'.storage = s.storage ∧
        { s'.ctx with selfCertChainSize := s.ctx.selfCertChainSize } = s.ctx) ∧
      (env₀.gSelfCertChainSize = 1 → s' = s)) ∧
    (∀ env message packet s',
      smpProcessMessage cbor role env message s = some (.ok packet, s') → packet ≠ []) := by
  refine ⟨?_, fun _ _ _ _ h => smpProcessMessage_packet_ne h⟩
  intro env call e s' writes failed
  have hsame := failed_call_sameUpToChain writes failed
  refine ⟨?_, ?_⟩
  · rcases hsame with rfl | rfl <;> exact ⟨rfl, rfl⟩
  · intro hchain
    obtain ⟨_, _, _, -, rfl, -⟩ := wclSmpOpen_ok.mp opened
    have hone : s.ctx.selfCertChainSize = 1 :=
      run.invariant (I := fun s => s.ctx.selfCertChainSize = 1) hchain fun _ _ _ => chainSize_step
    rcases hsame with rfl | rfl
    · rfl
    · rw [Session.chainOfOne, ← hone]

/-- A PUBLISH before the session is established. -/
theorem failed_call_changes_nothing_publish :
    ∃ e s', (SessionCall.getMessage publish.code [1]).run (rfc7049 64) .client Env.sample
      Session.opened = some (.error e, s') ∧ s' = Session.opened :=
  have writes : AtomicWrites Env.sample := fun _ _ _ h => by cases h
  have failed : (SessionCall.getMessage publish.code [1]).run (rfc7049 64) .client Env.sample
      Session.opened = some (.error .badSession, Session.opened) := rfl
  ⟨_, _, failed,
    ((failed_call_changes_nothing wclSmpOpen_sample Run.nil).1 _ _ _ _ writes failed).2 rfl⟩

end WeeveMQ
