/-
  WeeveMQ.Freshness

  Which sessions accept one session establishment message, over the life of a
  process with any number of sessions on one key storage.

  Nothing in the signed string comes from the receiver, so the same CONNECT is
  accepted by every broker session that waits for one (`connect_accepted_again`).
  What a session does have is that it accepts a single session establishment
  message in its life (`se_accepted_once_per_session`).
-/

import WeeveMQ.SessionInvariant

namespace WeeveMQ

open Call
open WclSmpMessageType

variable {cbor : TinyCbor} {role : Role} {env : Env}

/-! ## A process and its sessions -/

/-- The sessions of a process by the order of their opening, its storage, and
    which session has accepted which session establishment message. -/
structure Process where
  session : Nat → Option SmpSessionContext
  next : Nat
  storage : KeyStore
  accepted : List (Nat × Bytes)

/-- The session establishment message a call accepts. -/
def acceptedSe (cbor : TinyCbor) (role : Role) (ev : SessionEvent) : List Bytes :=
  match ev.call, ev.result with
  | .processMessage message, .ok _ =>
      match wosMsgUnpackSmpHeaderFromSmpMsg cbor message with
      | .ok h => if h.messageType = (seMessageType role.peer).code then [message] else []
      | .error _ => []
  | _, _ => []

/-- The ids an opening draws belong to no session of the process. -/
def Process.Apart (p : Process) (env : Env) : Prop :=
  ∀ draw < 3, ∀ id, smpUtilsGen32CharRandomId env draw = .ok id →
    ∀ i ctx, p.session i = some ctx → id ∉ ctx.ids

/-- What a process does: it opens sessions, calls them with any arguments, and
    closes them. -/
inductive ProcessStep (cbor : TinyCbor) (role : Role) : Process → Unit → Process → Prop
  | opened {p env ctx store'} (call : wclSmpOpen env p.storage = some (.ok ctx, store'))
      (fresh : FreshIds ctx p.storage) (apart : p.Apart env) :
      ProcessStep cbor role p ()
        { p with
          session := Function.update p.session p.next (some ctx)
          next := p.next + 1
          storage := store' }
  | openFailed {p env e store'} (call : wclSmpOpen env p.storage = some (.error e, store'))
      (apart : p.Apart env) : ProcessStep cbor role p () { p with storage := store' }
  | called {p i ctx ev s'} (live : p.session i = some ctx)
      (call : WorkingStep cbor role ⟨ctx, p.storage⟩ ev s') :
      ProcessStep cbor role p ()
        { p with
          session := Function.update p.session i (some s'.ctx)
          storage := s'.storage
          accepted := p.accepted ++ (acceptedSe cbor role ev).map fun m => (i, m) }
  | closed {p i ctx env r store'} (live : p.session i = some ctx)
      (call : wclSmpClose env ctx p.storage = some (r, store')) :
      ProcessStep cbor role p ()
        { p with
          session := Function.update p.session i none
          storage := store' }

/-! ## Frames -/

theorem SessionInvariant.congr {ctx : SmpSessionContext} {store store' : KeyStore}
    (hinv : SessionInvariant role ⟨ctx, store⟩) (h : ∀ id ∈ ctx.ids, store' id = store id) :
    SessionInvariant role ⟨ctx, store'⟩ := by
  have hpriv := h ctx.sessionPrivateKeyStorageId (by simp [SmpSessionContext.ids])
  have hpub := h ctx.sessionPublicKeyStorageId (by simp [SmpSessionContext.ids])
  have hshared := h ctx.sessionSharedKeyStorageId (by simp [SmpSessionContext.ids])
  refine ⟨?_, ?_, ?_⟩
  · show _ ↔ store' _ ≠ none
    rw [hshared]
    exact hinv.shared_iff
  · show store' _ ≠ none ↔ _
    rw [hpriv]
    exact hinv.private_iff
  · show store' _ ≠ none ↔ _
    rw [hpub]
    exact hinv.public_iff

/-- The stores agree wherever `P` does not hold. -/
def SameOutside (P : StorageId → Prop) (store store' : KeyStore) : Prop :=
  ∀ id, ¬ P id → store' id = store id

instance (P : StorageId → Prop) : Std.Refl (SameOutside P) := ⟨fun _ _ _ => rfl⟩

instance (P : StorageId → Prop) : IsTrans KeyStore (SameOutside P) where
  trans := fun _ _ _ h h' id hid => (h' id hid).trans (h id hid)

theorem wosStorageWrite_sameOutside {P : StorageId → Prop} {key : StorageId} (hkey : P key)
    (buffer : Bytes) : Relates (SameOutside P) (wosStorageWrite env key buffer) := by
  have hne : ∀ id, ¬ P id → id ≠ key := fun id hid h => hid (h ▸ hkey)
  intro store r store' h id hid
  cases r with
  | ok u =>
      obtain ⟨-, -, -, rfl⟩ := wosStorageWrite_ok.mp h
      exact Function.update_of_ne (hne id hid) _ _
  | error e =>
      rcases wosStorageWrite_error h with ⟨rfl, -⟩ | ⟨left, -, -, rfl⟩
      · rfl
      · exact Function.update_of_ne (hne id hid) _ _

theorem wosCryptoEccGenerateKey_sameOutside {P : StorageId → Prop}
    {privateId publicId : StorageId} (hpriv : P privateId) (hpub : P publicId) :
    Relates (SameOutside P) (wosCryptoEccGenerateKey env privateId publicId) :=
  relates_failIf.bind fun _ => relates_ofExcept.bind fun _ =>
    (relates_mapErr (wosStorageWrite_sameOutside hpriv _)).bind fun _ =>
    relates_mapErr (wosStorageWrite_sameOutside hpub _)

/-- An opening touches only entries under ids it draws. -/
theorem wclSmpOpen_sameOutside :
    Relates (SameOutside fun id => ∃ draw < 3, smpUtilsGen32CharRandomId env draw = .ok id)
      (wclSmpOpen env) := by
  have hdrawn : ∀ {draw : Nat} {e : WclError} {id : StorageId} {t t' : KeyStore},
      (ofExcept ((smpUtilsGen32CharRandomId env draw).mapError fun _ => e) :
        Call KeyStore WclError StorageId) t = some (.ok id, t') →
      smpUtilsGen32CharRandomId env draw = .ok id := by
    intro draw e id t t' h
    simp only [ofExcept_apply, Option.some.injEq, Prod.mk.injEq, except_mapError_ok] at h
    exact h.1
  refine relates_ofExcept.bind_value fun a _ _ ha => ?_
  refine relates_ofExcept.bind_value fun b _ _ hb => ?_
  refine Relates.bind (relates_mapErr (wosCryptoEccGenerateKey_sameOutside
    ⟨0, by decide, hdrawn ha⟩ ⟨1, by decide, hdrawn hb⟩)) fun _ => ?_
  exact relates_ofExcept.bind fun _ => relates_pure

theorem closedStorage_of_not_mem {ctx : SmpSessionContext} {store : KeyStore} {id : StorageId}
    (hid : id ∉ ctx.ids) : closedStorage env ctx store id = store id := by
  simp only [SmpSessionContext.ids, List.mem_cons, List.not_mem_nil, or_false, not_or] at hid
  obtain ⟨h1, h2, h3⟩ := hid
  rw [closedStorage, removeWhen_of_ne h3, removeWhen_of_ne h2, removeWhen_of_ne h1]

/-! ## The invariant -/

/-- Every live session is in order, the ids of two of them are disjoint, and a
    session that has accepted a message is established. -/
structure ProcessInvariant (role : Role) (p : Process) : Prop where
  live : ∀ i ctx, p.session i = some ctx →
    i < p.next ∧ DistinctIds ctx ∧ SessionInvariant role ⟨ctx, p.storage⟩
  apart : ∀ i j ctx ctx', p.session i = some ctx → p.session j = some ctx' → i ≠ j →
    ∀ id ∈ ctx.ids, id ∉ ctx'.ids
  accepted : ∀ a ∈ p.accepted, a.1 < p.next ∧
    ∀ ctx, p.session a.1 = some ctx → ctx.isSessionKeyEstablished = true
  once : (p.accepted.map Prod.fst).Nodup

/-- A change of the storage outside the ids of the live sessions. -/
theorem ProcessInvariant.storage {p : Process} (hinv : ProcessInvariant role p) {store : KeyStore}
    (h : ∀ i ctx, p.session i = some ctx → ∀ id ∈ ctx.ids, store id = p.storage id) :
    ProcessInvariant role { p with storage := store } :=
  ⟨fun i ctx hlive => ⟨(hinv.live i ctx hlive).1, (hinv.live i ctx hlive).2.1,
      (hinv.live i ctx hlive).2.2.congr (h i ctx hlive)⟩,
    hinv.apart, hinv.accepted, hinv.once⟩

/-- What an opening leaves alone. -/
theorem Process.Apart.storage {p : Process} {r : Except WclError SmpSessionContext}
    {store' : KeyStore} (apart : p.Apart env) (call : wclSmpOpen env p.storage = some (r, store')) :
    ∀ i ctx, p.session i = some ctx → ∀ id ∈ ctx.ids, store' id = p.storage id := by
  intro i ctx hlive id hid
  refine wclSmpOpen_sameOutside _ _ _ call id ?_
  rintro ⟨draw, hdraw, hdrawn⟩
  exact apart draw hdraw id hdrawn i ctx hlive hid

theorem SmpSessionContext.ids_eq_of_fixed {ctx ctx' : SmpSessionContext}
    (h : ctx'.fixed = ctx.fixed) : ctx'.ids = ctx.ids := by
  obtain ⟨h1, h2, h3, -⟩ := SmpSessionContext.ids_of_fixed h
  rw [ids, ids, h1, h2, h3]

/-- A call accepts a session establishment message once it has derived a key,
    and leaves the session established. -/
theorem acceptedSe_cases {s s' : Session} {ev : SessionEvent}
    (h : SessionOutcome cbor role s ev s') :
    acceptedSe cbor role ev = [] ∨ ∃ message p sharedSecret,
      acceptedSe cbor role ev = [message] ∧ s'.ctx.isSessionKeyEstablished = true ∧
        SeAgreed cbor role ev.env s message p sharedSecret := by
  cases h with
  | exported => exact .inl rfl
  | secured => exact .inl rfl
  | notSent => exact .inl rfl
  | established accepted =>
      refine .inr ⟨_, _, _, ?_, rfl, accepted.derived.toSeAgreed⟩
      simp only [acceptedSe, accepted.routed.unpacked, if_pos accepted.type]
  | delivered accepted =>
      refine .inl ?_
      simp only [acceptedSe, accepted.routed.unpacked, if_neg accepted.type]
  | refused => exact .inl rfl

/-- A lookup after a session was put in. -/
theorem update_some_cases {α : Type} {f : Nat → Option α} {i j : Nat} {a b : α}
    (h : Function.update f i (some a) j = some b) : (j = i ∧ b = a) ∨ (j ≠ i ∧ f j = some b) := by
  by_cases hji : j = i
  · rw [hji, Function.update_self, Option.some.injEq] at h
    exact .inl ⟨hji, h.symm⟩
  · rw [Function.update_of_ne hji] at h
    exact .inr ⟨hji, h⟩

theorem processInvariant_opened {p : Process} {ctx : SmpSessionContext} {store' : KeyStore}
    (hinv : ProcessInvariant role p) (call : wclSmpOpen env p.storage = some (.ok ctx, store'))
    (fresh : FreshIds ctx p.storage) (apart : p.Apart env) :
    ProcessInvariant role
      { p with
        session := Function.update p.session p.next (some ctx)
        next := p.next + 1
        storage := store' } := by
  have hsame := hinv.storage (apart.storage call)
  have hapart : ∀ j c, p.session j = some c → ∀ id ∈ ctx.ids, id ∉ c.ids := by
    intro j c hj id hid
    obtain ⟨a, b, d, drawn, rfl, -⟩ := wclSmpOpen_ok.mp call
    simp only [SmpSessionContext.ids, openedContext, List.mem_cons, List.not_mem_nil,
      or_false] at hid
    rcases hid with rfl | rfl | rfl
    · exact apart 0 (by decide) _ drawn.privateKey j c hj
    · exact apart 1 (by decide) _ drawn.publicKey j c hj
    · exact apart 2 (by decide) _ drawn.sharedKey j c hj
  refine ⟨?_, ?_, ?_, hinv.once⟩
  · intro i c hi
    rcases update_some_cases hi with ⟨rfl, rfl⟩ | ⟨-, hi⟩
    · exact ⟨Nat.lt_succ_self _, distinctIds_opened call fresh, sessionInvariant_opened call fresh⟩
    · obtain ⟨hlt, hrest⟩ := hsame.live i c hi
      exact ⟨Nat.lt_succ_of_lt hlt, hrest⟩
  · intro i j c c' hi hj hij
    rcases update_some_cases hi with ⟨rfl, rfl⟩ | ⟨-, hlive⟩
    · rcases update_some_cases hj with ⟨rfl, rfl⟩ | ⟨-, hj⟩
      · exact absurd rfl hij
      · exact hapart j c' hj
    · rcases update_some_cases hj with ⟨rfl, rfl⟩ | ⟨-, hlive'⟩
      · exact fun id hid hid' => hapart i c hlive id hid' hid
      · exact hinv.apart i j c c' hlive hlive' hij
  · intro a ha
    obtain ⟨hlt, hest⟩ := hinv.accepted a ha
    refine ⟨Nat.lt_succ_of_lt hlt, fun c hc => ?_⟩
    rcases update_some_cases hc with ⟨hnew, -⟩ | ⟨-, hc⟩
    · omega
    · exact hest c hc

theorem processInvariant_called {p : Process} {i : Nat} {ctx : SmpSessionContext}
    {ev : SessionEvent} {s' : Session} (hinv : ProcessInvariant role p)
    (live : p.session i = some ctx) (call : WorkingStep cbor role ⟨ctx, p.storage⟩ ev s') :
    ProcessInvariant role
      { p with
        session := Function.update p.session i (some s'.ctx)
        storage := s'.storage
        accepted := p.accepted ++ (acceptedSe cbor role ev).map fun m => (i, m) } := by
  obtain ⟨hlt, hids, hsession⟩ := hinv.live i ctx live
  have hfixed := call.1.outcome.fixed
  have hidsEq : s'.ctx.ids = ctx.ids := SmpSessionContext.ids_eq_of_fixed hfixed
  have hest : ctx.isSessionKeyEstablished = true → s'.ctx.isSessionKeyEstablished = true :=
    fun h => (storage_of_established hsession h call).2
  -- what was accepted before stays established
  have hold : ∀ a ∈ p.accepted, ∀ c,
      Function.update p.session i (some s'.ctx) a.1 = some c →
        c.isSessionKeyEstablished = true := by
    intro a ha c hc
    rcases update_some_cases hc with ⟨hai, rfl⟩ | ⟨-, hc⟩
    · exact hest ((hinv.accepted a ha).2 ctx (hai ▸ live))
    · exact (hinv.accepted a ha).2 c hc
  refine ⟨?_, ?_, ?_, ?_⟩
  · intro j c hj
    rcases update_some_cases hj with ⟨rfl, rfl⟩ | ⟨hji, hj⟩
    · exact ⟨hlt, hids.of_fixed hfixed, sessionInvariant_step hids hsession call⟩
    · obtain ⟨hltj, hidsj, hsessionj⟩ := hinv.live j c hj
      exact ⟨hltj, hidsj, hsessionj.congr fun id hid =>
        call.1.outcome.frame (hinv.apart j i c ctx hj live hji id hid)⟩
  · intro j k c c' hj hk hjk
    rcases update_some_cases hj with ⟨rfl, rfl⟩ | ⟨hji, hlive⟩
    · rcases update_some_cases hk with ⟨rfl, rfl⟩ | ⟨hki, hk⟩
      · exact absurd rfl hjk
      · rw [hidsEq]
        exact hinv.apart j k ctx c' live hk hjk
    · rcases update_some_cases hk with ⟨rfl, rfl⟩ | ⟨-, hlive'⟩
      · rw [hidsEq]
        exact hinv.apart j k c ctx hlive live hjk
      · exact hinv.apart j k c c' hlive hlive' hjk
  · intro a ha
    rcases List.mem_append.mp ha with ha | ha
    · exact ⟨(hinv.accepted a ha).1, hold a ha⟩
    · obtain ⟨m, hm, rfl⟩ := List.mem_map.mp ha
      rcases acceptedSe_cases call.1.outcome with hnil | ⟨_, _, _, -, hnow, -⟩
      · simp [hnil] at hm
      · refine ⟨hlt, fun c hc => ?_⟩
        rcases update_some_cases hc with ⟨-, rfl⟩ | ⟨hne, -⟩
        · exact hnow
        · exact absurd rfl hne
  · rcases acceptedSe_cases call.1.outcome with hnil | ⟨m, _, _, hone, -, hagreed⟩
    · simpa [hnil] using hinv.once
    · rw [hone]
      show ((p.accepted ++ [(i, m)]).map Prod.fst).Nodup
      rw [List.map_append, List.nodup_append]
      refine ⟨hinv.once, by simp, ?_⟩
      -- a session that had accepted a message before was established, and takes no
      -- second one
      intro x hx y hy hxy
      obtain ⟨a, ha, rfl⟩ := List.mem_map.mp hx
      simp only [List.map_cons, List.map_nil, List.mem_singleton] at hy
      have hest := (hinv.accepted a ha).2 ctx (by rw [hxy, hy]; exact live)
      exact absurd ((hsession.not_established hagreed).symm.trans hest) (by decide)

theorem processInvariant_closed {p : Process} {i : Nat} {ctx : SmpSessionContext}
    {r : Except WclError Unit} {store' : KeyStore} (hinv : ProcessInvariant role p)
    (live : p.session i = some ctx) (call : wclSmpClose env ctx p.storage = some (r, store')) :
    ProcessInvariant role
      { p with
        session := Function.update p.session i none
        storage := store' } := by
  have hother : ∀ j c, Function.update p.session i none j = some c →
      j ≠ i ∧ p.session j = some c := by
    intro j c hj
    by_cases hji : j = i
    · rw [hji, Function.update_self] at hj
      cases hj
    · rw [Function.update_of_ne hji] at hj
      exact ⟨hji, hj⟩
  rw [wclSmpClose_apply, Option.some.injEq, Prod.mk.injEq] at call
  refine ⟨?_, ?_, ?_, hinv.once⟩
  · intro j c hj
    obtain ⟨hji, hj⟩ := hother j c hj
    obtain ⟨hltj, hidsj, hsessionj⟩ := hinv.live j c hj
    refine ⟨hltj, hidsj, hsessionj.congr fun id hid => ?_⟩
    rw [← call.2]
    exact closedStorage_of_not_mem (hinv.apart j i c ctx hj live hji id hid)
  · intro j k c c' hj hk hjk
    exact hinv.apart j k c c' (hother j c hj).2 (hother k c' hk).2 hjk
  · intro a ha
    exact ⟨(hinv.accepted a ha).1, fun c hc => (hinv.accepted a ha).2 c (hother _ c hc).2⟩

theorem processInvariant_step {p p' : Process} {u : Unit} (hinv : ProcessInvariant role p)
    (step : ProcessStep cbor role p u p') : ProcessInvariant role p' := by
  cases step with
  | opened call fresh apart => exact processInvariant_opened hinv call fresh apart
  | openFailed call apart => exact hinv.storage (apart.storage call)
  | called live call => exact processInvariant_called hinv live call
  | closed live call => exact processInvariant_closed hinv live call

/-- A process without sessions. -/
def Process.started (store : KeyStore) : Process := ⟨fun _ => none, 0, store, []⟩

/-- Each session accepts at most one session establishment message in its life. -/
theorem se_accepted_once_per_session {store : KeyStore} {p : Process} {steps : List Unit}
    (run : Run (ProcessStep cbor role) (Process.started store) steps p) :
    (p.accepted.map Prod.fst).Nodup := by
  have hinv : ProcessInvariant role p := by
    refine run.invariant ⟨?_, ?_, ?_, ?_⟩ fun _ _ _ => processInvariant_step
    · simp [Process.started]
    · simp [Process.started]
    · simp [Process.started]
    · simp [Process.started]
  exact hinv.once

/-- The sample environment at a later opening: other random bytes. -/
def laterDraws : Env :=
  { Env.sample with
    randomBytes := fun draw n => some (List.replicate n (UInt8.ofNat (draw + 3)))
    randomBytes_length := by rintro _ _ _ ⟨⟩; exact List.length_replicate }

/-- The storage after the sample broker has accepted a CONNECT and was closed. -/
def storageAfterClose : KeyStore :=
  closedStorage Env.sample (Session.opened.connected .broker).ctx
    (Session.opened.connected .broker).storage

/-- The session opened there. -/
def Session.openedLater : Session where
  ctx := openedContext laterDraws (sampleId 3) (sampleId 4) (sampleId 5)
  storage := Function.update (Function.update storageAfterClose (sampleId 3) (some [1]))
    (sampleId 4) (some [2])

/-- A CONNECT, the close of the session that has accepted it, a new session, and
    the same CONNECT again. -/
theorem replayed_connect_run : ∃ (p : Process) (steps : List Unit),
    Run (ProcessStep (rfc7049 64) .broker) (Process.started KeyStore.sample) steps p ∧
      p.accepted = [(0, connectMessage [2] [6]), (1, connectMessage [2] [6])] := by
  have closed : wclSmpClose Env.sample (Session.opened.connected .broker).ctx
    (Session.opened.connected .broker).storage = some (.ok (), storageAfterClose) :=
    wclSmpClose_apply _ _
  have reopened : wclSmpOpen laterDraws storageAfterClose =
    some (.ok Session.openedLater.ctx, Session.openedLater.storage) := rfl
  have accepted : SessionStep (rfc7049 64) .broker Session.openedLater
    ⟨Env.sample, .processMessage (connectMessage [2] [6]), .ok [6]⟩
    (Session.openedLater.connected .broker) := rfl
  have run : Run (ProcessStep (rfc7049 64) .broker) (Process.started KeyStore.sample) [()] _ :=
    Run.single (.opened wclSmpOpen_sample FreshIds.sample (by simp [Process.Apart, Process.started]))
  have run := run.snoc (.called (i := 0) rfl ⟨sample_connected, StorageWorks.sample⟩)
  have run := run.snoc (.closed (i := 0) rfl closed)
  have run := run.snoc (.opened reopened ⟨by decide, by decide⟩ (by
    intro draw _ id _ i ctx hlive
    by_cases hi : i = 0 <;> simp [Process.started, hi] at hlive))
  have run := run.snoc (.called (i := 1) rfl ⟨accepted, StorageWorks.sample⟩)
  exact ⟨_, _, run, by decide⟩

theorem se_accepted_once_per_session_replayed : ([0, 1] : List Nat).Nodup := by
  obtain ⟨p, steps, run, accepted⟩ := replayed_connect_run
  have once := se_accepted_once_per_session run
  rw [accepted] at once
  exact once

/-- Two sessions accept one CONNECT: it was recorded and is replayed on a new
    connection, after the session it was meant for is closed. -/
theorem connect_accepted_again :
    ∃ (p : Process) (steps : List Unit) (i j : Nat) (message : Bytes),
      Run (ProcessStep (rfc7049 64) .broker) (Process.started KeyStore.sample) steps p ∧
      i ≠ j ∧ (i, message) ∈ p.accepted ∧ (j, message) ∈ p.accepted := by
  obtain ⟨p, steps, run, accepted⟩ := replayed_connect_run
  exact ⟨p, steps, 0, 1, connectMessage [2] [6], run, by decide, by simp [accepted],
    by simp [accepted]⟩

end WeeveMQ
