/-
  WeeveMQ.SessionInvariant

  The relation between the established flag of a session and its entries in
  storage, over every run of the session with a storage that works.

  - `SessionInvariant` holds from `wclSmpOpen` on (`sessionInvariant_opened`)
    and through every call (`sessionInvariant_step`).
  - A session derives its key once: the derivation reads the private key, which
    is gone as soon as the session is established
    (`storage_of_established`).
-/

import WeeveMQ.Lifetime

namespace WeeveMQ

open Call
open WclSmpMessageType

variable {cbor : TinyCbor} {role : Role} {env : Env} {s s' : Session} {store store' : KeyStore}

/-! ## Storage that works -/

/-- Writes, reads and deletes of valid keys succeed. -/
structure StorageWorks (env : Env) : Prop where
  writes : ∀ id content, env.writeOutcome id content = .written
  reads : ∀ id, env.readFails id = false
  deletes : ∀ id, env.removeFails id = false

/-- The storage ids of a session are usable and differ from each other. -/
structure DistinctIds (ctx : SmpSessionContext) : Prop where
  generated : ctx.isPreSessionSecretsGenerated = true
  privateKey : lWosStorageIsKeyValid ctx.sessionPrivateKeyStorageId = true
  publicKey : lWosStorageIsKeyValid ctx.sessionPublicKeyStorageId = true
  sharedKey : lWosStorageIsKeyValid ctx.sessionSharedKeyStorageId = true
  private_ne_public : ctx.sessionPrivateKeyStorageId ≠ ctx.sessionPublicKeyStorageId
  private_ne_shared : ctx.sessionPrivateKeyStorageId ≠ ctx.sessionSharedKeyStorageId
  public_ne_shared : ctx.sessionPublicKeyStorageId ≠ ctx.sessionSharedKeyStorageId

theorem DistinctIds.of_fixed {ctx ctx' : SmpSessionContext} (h : DistinctIds ctx)
    (hfixed : ctx'.fixed = ctx.fixed) : DistinctIds ctx' := by
  obtain ⟨hpriv, hpub, hshared, hgen⟩ := SmpSessionContext.ids_of_fixed hfixed
  constructor
  · rw [hgen]
    exact h.generated
  · rw [hpriv]
    exact h.privateKey
  · rw [hpub]
    exact h.publicKey
  · rw [hshared]
    exact h.sharedKey
  · rw [hpriv, hpub]
    exact h.private_ne_public
  · rw [hpriv, hshared]
    exact h.private_ne_shared
  · rw [hpub, hshared]
    exact h.public_ne_shared

section Keyed

variable {sharedSecret : Bytes}

theorem keyed_shared (works : StorageWorks env) (ids : DistinctIds s.ctx) :
    (s.keyed env role sharedSecret).storage s.ctx.sessionSharedKeyStorageId =
      some sharedSecret := by
  simp only [Session.keyed, removeWhen_apply ⟨ids.publicKey, works.deletes _⟩,
    removeWhen_apply ⟨ids.privateKey, works.deletes _⟩, ids.public_ne_shared.symm,
    ids.private_ne_shared.symm, and_false, if_false, Function.update_self]

theorem keyed_private (works : StorageWorks env) (ids : DistinctIds s.ctx) :
    (s.keyed env role sharedSecret).storage s.ctx.sessionPrivateKeyStorageId = none := by
  simp only [Session.keyed, removeWhen_apply ⟨ids.publicKey, works.deletes _⟩,
    removeWhen_apply ⟨ids.privateKey, works.deletes _⟩, ids.private_ne_public, and_false, and_self,
    if_false, if_true]

theorem keyed_public (works : StorageWorks env) (ids : DistinctIds s.ctx) :
    (s.keyed env role sharedSecret).storage s.ctx.sessionPublicKeyStorageId =
      if role = .client then none else s.storage s.ctx.sessionPublicKeyStorageId := by
  simp only [Session.keyed, removeWhen_apply ⟨ids.publicKey, works.deletes _⟩,
    removeWhen_apply ⟨ids.privateKey, works.deletes _⟩, ids.private_ne_public.symm,
    decide_eq_true_eq, and_true, and_false, if_false,
    Function.update_of_ne ids.public_ne_shared]

end Keyed

/-! ## The invariant -/

/-- Which entries a session has. -/
structure SessionInvariant (role : Role) (s : Session) : Prop where
  shared_iff : s.ctx.isSessionKeyEstablished = true ↔
    s.storage s.ctx.sessionSharedKeyStorageId ≠ none
  private_iff : s.storage s.ctx.sessionPrivateKeyStorageId ≠ none ↔
    s.ctx.isSessionKeyEstablished = false
  public_iff : s.storage s.ctx.sessionPublicKeyStorageId ≠ none ↔
    role = .broker ∨ s.ctx.isSessionKeyEstablished = false

/-- A step in an environment whose storage works. -/
def WorkingStep (cbor : TinyCbor) (role : Role) (s : Session) (ev : SessionEvent)
    (s' : Session) : Prop :=
  SessionStep cbor role s ev s' ∧ StorageWorks ev.env

theorem SessionInvariant.keyed (sharedSecret : Bytes) (works : StorageWorks env)
    (ids : DistinctIds s.ctx) (hinv : SessionInvariant role s)
    (hnot : s.ctx.isSessionKeyEstablished = false) :
    SessionInvariant role (s.keyed env role sharedSecret) := by
  refine ⟨?_, ?_, ?_⟩
  · show true = true ↔ (s.keyed env role sharedSecret).storage _ ≠ none
    rw [show (s.keyed env role sharedSecret).ctx.sessionSharedKeyStorageId =
      s.ctx.sessionSharedKeyStorageId from rfl, keyed_shared works ids]
    simp
  · show (s.keyed env role sharedSecret).storage _ ≠ none ↔ true = false
    rw [show (s.keyed env role sharedSecret).ctx.sessionPrivateKeyStorageId =
      s.ctx.sessionPrivateKeyStorageId from rfl, keyed_private works ids]
    simp
  · show (s.keyed env role sharedSecret).storage _ ≠ none ↔ role = .broker ∨ true = false
    rw [show (s.keyed env role sharedSecret).ctx.sessionPublicKeyStorageId =
      s.ctx.sessionPublicKeyStorageId from rfl, keyed_public works ids]
    have hpub := hinv.public_iff.mpr (.inr hnot)
    cases role <;> simp [hpub]

/-- A session that has a key does not accept another one. -/
theorem SessionInvariant.not_established {message sharedSecret : Bytes} {p : WosMsgMqttsSeParams}
    (hinv : SessionInvariant role s) (agreed : SeAgreed cbor role env s message p sharedSecret) :
    s.ctx.isSessionKeyEstablished = false := by
  obtain ⟨privateKey, readable, -⟩ := agreed.derived
  exact hinv.private_iff.mp (by simp [readable.2.1])

theorem sessionInvariant_step {ev : SessionEvent} (ids : DistinctIds s.ctx)
    (hinv : SessionInvariant role s) (step : WorkingStep cbor role s ev s') :
    SessionInvariant role s' := by
  obtain ⟨call, works⟩ := step
  cases call.outcome with
  | exported => exact ⟨hinv.shared_iff, hinv.private_iff, hinv.public_iff⟩
  | secured => exact ⟨hinv.shared_iff, hinv.private_iff, hinv.public_iff⟩
  | notSent same =>
      rcases same with rfl | rfl
      · exact hinv
      · exact ⟨hinv.shared_iff, hinv.private_iff, hinv.public_iff⟩
  | @established _ _ _ _ sharedSecret accepted =>
      have hkeyed := hinv.keyed sharedSecret works ids
        (hinv.not_established accepted.derived.toSeAgreed)
      exact ⟨hkeyed.shared_iff, hkeyed.private_iff, hkeyed.public_iff⟩
  | delivered => exact ⟨hinv.shared_iff, hinv.private_iff, hinv.public_iff⟩
  | refused left =>
      rcases left with rfl | ⟨_, _, _, -, hw, -⟩
      · exact hinv
      · rw [works.writes] at hw
        cases hw

/-- An established session does not touch the storage any more. -/
theorem storage_of_established {ev : SessionEvent} (hinv : SessionInvariant role s)
    (hest : s.ctx.isSessionKeyEstablished = true) (step : WorkingStep cbor role s ev s') :
    s'.storage = s.storage ∧ s'.ctx.isSessionKeyEstablished = true := by
  obtain ⟨call, works⟩ := step
  cases call.outcome with
  | exported => exact ⟨rfl, hest⟩
  | secured => exact ⟨rfl, hest⟩
  | notSent same => rcases same with rfl | rfl <;> exact ⟨rfl, hest⟩
  | established accepted =>
      have := hinv.not_established accepted.derived.toSeAgreed
      simp [hest] at this
  | delivered => exact ⟨rfl, hest⟩
  | refused left =>
      rcases left with rfl | ⟨_, _, _, -, hw, -⟩
      · exact ⟨rfl, hest⟩
      · rw [works.writes] at hw
        cases hw

/-! ## Runs -/

/-- The ids an opening draws are distinct, and nothing stands under them. -/
structure FreshIds (ctx : SmpSessionContext) (store : KeyStore) : Prop where
  distinct : [ctx.sessionPrivateKeyStorageId, ctx.sessionPublicKeyStorageId,
    ctx.sessionSharedKeyStorageId].Nodup
  unused : ∀ id ∈ [ctx.sessionPrivateKeyStorageId, ctx.sessionPublicKeyStorageId,
    ctx.sessionSharedKeyStorageId], store id = none

theorem distinctIds_opened {ctx : SmpSessionContext}
    (opened : wclSmpOpen env store = some (.ok ctx, store')) (fresh : FreshIds ctx store) :
    DistinctIds ctx := by
  have hdistinct := fresh.distinct
  simp only [List.nodup_cons, List.mem_cons, List.not_mem_nil, or_false, not_or] at hdistinct
  obtain ⟨⟨h12, h13⟩, h23, -⟩ := hdistinct
  obtain ⟨_, _, _, drawn, rfl, -⟩ := wclSmpOpen_ok.mp opened
  exact ⟨rfl, isKeyValid_of_randomId drawn.privateKey, isKeyValid_of_randomId drawn.publicKey,
    isKeyValid_of_randomId drawn.sharedKey, h12, h13, h23⟩

theorem sessionInvariant_opened {ctx : SmpSessionContext}
    (opened : wclSmpOpen env store = some (.ok ctx, store')) (fresh : FreshIds ctx store) :
    SessionInvariant role ⟨ctx, store'⟩ := by
  have ids := distinctIds_opened opened fresh
  have hshared := fresh.unused ctx.sessionSharedKeyStorageId (by simp)
  obtain ⟨_, _, _, -, rfl, priv, pub, -, -, -, rfl⟩ := wclSmpOpen_ok.mp opened
  have h12 := ids.private_ne_public
  have h13 := ids.private_ne_shared
  have h23 := ids.public_ne_shared
  simp only [openedContext] at h12 h13 h23 hshared
  refine ⟨?_, ?_, ?_⟩
  · simp only [openedContext, smpConfigGlobalCreds, Function.update_of_ne h23.symm,
      Function.update_of_ne h13.symm, hshared]
    simp
  · simp only [openedContext, smpConfigGlobalCreds, Function.update_of_ne h12,
      Function.update_self]
    simp
  · simp only [openedContext, smpConfigGlobalCreds, Function.update_self]
    simp

/-- What a working run from the opening on preserves. -/
theorem sessionInvariant_run {ctx : SmpSessionContext} {events : List SessionEvent}
    (opened : wclSmpOpen env store = some (.ok ctx, store')) (fresh : FreshIds ctx store)
    (run : Run (WorkingStep cbor role) ⟨ctx, store'⟩ events s) :
    DistinctIds s.ctx ∧ SessionInvariant role s := by
  refine run.invariant (I := fun s => DistinctIds s.ctx ∧ SessionInvariant role s)
    ⟨distinctIds_opened opened fresh, sessionInvariant_opened opened fresh⟩ ?_
  rintro t ev t' ⟨ids, hinv⟩ step
  exact ⟨ids.of_fixed step.1.outcome.fixed, sessionInvariant_step ids hinv step⟩

/-- How a call moves the counters. -/
structure CountersMoved (s : Session) (ev : SessionEvent) (s' : Session) : Prop where
  sent : s'.ctx.toBeSentMessageId =
    match ev.call, ev.result with
    | .getMessage _ _, .ok _ => s.ctx.toBeSentMessageId + 1
    | _, _ => s.ctx.toBeSentMessageId
  received : s.ctx.lastReceivedMessageId ≤ s'.ctx.lastReceivedMessageId

theorem SessionOutcome.countersMoved {ev : SessionEvent} (h : SessionOutcome cbor role s ev s') :
    CountersMoved s ev s' := by
  refine ⟨?_, h.lastReceived_le⟩
  cases h with
  | exported => rfl
  | secured => rfl
  | notSent same => rcases same with rfl | rfl <;> rfl
  | established => rfl
  | delivered => rfl
  | refused left => rcases left with rfl | ⟨_, _, _, -, -, rfl⟩ <;> rfl

/-- The state invariant of a session, in every state of every run from a
    successful opening: which entries exist, that the shared key is written
    once, how each call moves the counters, and that closing leaves no entry. -/
theorem session_state_invariant {ctx : SmpSessionContext} {events : List SessionEvent}
    (opened : wclSmpOpen env store = some (.ok ctx, store')) (fresh : FreshIds ctx store)
    (run : Run (WorkingStep cbor role) ⟨ctx, store'⟩ events s) :
    SessionInvariant role s ∧
    (∀ ev s', WorkingStep cbor role s ev s' →
      CountersMoved s ev s' ∧
      (s.ctx.isSessionKeyEstablished = true → s'.storage = s.storage) ∧
      ∀ key, s.storage ctx.sessionSharedKeyStorageId = some key →
        s'.storage ctx.sessionSharedKeyStorageId = some key) ∧
    (∀ closeEnv r store'', StorageWorks closeEnv →
      wclSmpClose closeEnv s.ctx s.storage = some (r, store'') → NoSecrets ctx store'') := by
  obtain ⟨ids, hinv⟩ := sessionInvariant_run opened fresh run
  have hfixed : s.ctx.fixed = ctx.fixed :=
    run.invariant (I := fun s => s.ctx.fixed = ctx.fixed) rfl
      fun _ _ _ h step => step.1.outcome.fixed.trans h
  obtain ⟨hpriv, hpub, hshared, -⟩ := SmpSessionContext.ids_of_fixed hfixed
  refine ⟨hinv, ?_, ?_⟩
  · intro ev s' step
    refine ⟨step.1.outcome.countersMoved, fun hest => (storage_of_established hinv hest step).1, ?_⟩
    intro key hkey
    rw [← hshared] at hkey
    have hest := hinv.shared_iff.mpr (by simp [hkey])
    rw [(storage_of_established hinv hest step).1, ← hshared]
    exact hkey
  · intro closeEnv r store'' works close
    have hdeletes : Deletes closeEnv s.ctx := by
      intro id hid
      simp only [List.mem_cons, List.not_mem_nil, or_false] at hid
      rcases hid with rfl | rfl | rfl
      · exact ⟨ids.privateKey, works.deletes _⟩
      · exact ⟨ids.publicKey, works.deletes _⟩
      · exact ⟨ids.sharedKey, works.deletes _⟩
    have hcovered : SharedKeyCovered s.ctx s.storage := by
      by_cases hest : s.ctx.isSessionKeyEstablished = true
      · exact .inl hest
      · exact .inr (.inl (Decidable.not_not.mp (mt hinv.shared_iff.mpr hest)))
    have hclean := (closedStorage_clean_iff ids.generated hdeletes).mpr hcovered
    rw [wclSmpClose_apply, Option.some.injEq, Prod.mk.injEq] at close
    rw [close.2, NoSecrets, hpriv, hpub, hshared] at hclean
    exact hclean

theorem StorageWorks.sample : StorageWorks Env.sample :=
  ⟨fun _ _ => rfl, fun _ => rfl, fun _ => rfl⟩

theorem FreshIds.sample : FreshIds Session.opened.ctx KeyStore.sample :=
  ⟨by decide, by decide⟩

/-- The sample broker gets a CONNECT. -/
theorem session_state_invariant_connected :
    SessionInvariant .broker
      ((Session.opened.keyed Env.sample .broker (List.replicate 32 4)).received 0) :=
  have step : WorkingStep (rfc7049 64) .broker Session.opened
      ⟨Env.sample, .processMessage (connectMessage [4, 5] [6]), .ok [6]⟩
      ((Session.opened.keyed Env.sample .broker (List.replicate 32 4)).received 0) :=
    ⟨rfl, StorageWorks.sample⟩
  (session_state_invariant wclSmpOpen_sample FreshIds.sample (Run.single step)).1

end WeeveMQ
