/-
  WeeveMQ.Lib.Call

  Calls of an imperative program as partial state transformers.

  `Call σ ε α` is a computation over a state `σ` that either reaches undefined
  behaviour (`none`: it does not return in the model), or returns an error
  code, or returns a value.  The state survives an error: an early exit keeps
  whatever was written before it, which is what makes failure atomicity a
  question.

  - `Call.bind_ok` / `Call.bind_error` invert one sequencing step, so a caller
    peels a do-block apart without unfolding the monad; `Call.except_bind_ok`
    does the same for a call without a state.
  - `Call.Relates` / `Call.FailRelates` are the state-relation rules: what a
    call does to the state on every return, and on failing returns only.
  - `Call.Refines` compares two calls that differ in where they have no result,
    `Call.Computes` says that the result of a call does not depend on the state.
-/

import Mathlib.Order.RelClasses

/-- A call: undefined behaviour, or a result together with the new state. -/
def Call (σ ε α : Type) : Type := σ → Option (Except ε α × σ)

namespace Call

variable {σ τ ε ε' α β : Type}

/-! ## The monad -/

/-- Return a value, state untouched. -/
protected def pure (a : α) : Call σ ε α := fun s => some (.ok a, s)

/-- Sequencing; an error or a fault skips the rest. -/
protected def bind (x : Call σ ε α) (f : α → Call σ ε β) : Call σ ε β := fun s =>
  match x s with
  | none => none
  | some (.error e, t) => some (.error e, t)
  | some (.ok a, t) => f a t

instance : Monad (Call σ ε) where
  pure := Call.pure
  bind := Call.bind

/-- Leave with an error code; the state stays as it is at that point. -/
def throw (e : ε) : Call σ ε α := fun s => some (.error e, s)

/-- Undefined behaviour. -/
def fault : Call σ ε α := fun _ => none

/-- Leave with `e` when the condition holds. -/
def failIf (c : Prop) [Decidable c] (e : ε) : Call σ ε Unit := fun s =>
  if c then some (.error e, s) else some (.ok (), s)

/-- Do something only when the condition holds. -/
def onlyIf (c : Prop) [Decidable c] (x : Call σ ε Unit) : Call σ ε Unit :=
  if c then x else pure ()

/-- Read the state. -/
def get : Call σ ε σ := fun s => some (.ok s, s)

/-- Update the state. -/
def modify (f : σ → σ) : Call σ ε Unit := fun s => some (.ok (), f s)

/-- A computation that does not look at the state. -/
def ofOutcome (x : Option (Except ε α)) : Call σ ε α := fun s => x.map (·, s)

/-- A total computation that does not look at the state. -/
def ofExcept (x : Except ε α) : Call σ ε α := fun s => some (x, s)

/-- Report a callee's error under another code. -/
def mapErr (f : ε → ε') (x : Call σ ε α) : Call σ ε' α := fun s =>
  (x s).map fun r => (r.1.mapError f, r.2)

/-- Run a callee and carry on whatever it reports. -/
def ignoreErr (x : Call σ ε Unit) : Call σ ε' Unit := fun s =>
  (x s).map fun r => (.ok (), r.2)

/-- Clean up after a call that failed, and report its error. -/
def onErr (x : Call σ ε α) (cleanup : Call σ ε Unit) : Call σ ε α := fun s =>
  match x s with
  | some (.error e, t) => (cleanup t).map fun r => (.error e, r.2)
  | r => r

/-- Run a call that owns one part of the state. -/
def onPart (part : σ → τ) (put : τ → σ → σ) (x : Call τ ε α) : Call σ ε α := fun s =>
  (x (part s)).map fun r => (r.1, put r.2 s)

/-! ## Inversion

Each lemma says when a call ends in a given value, or in a given error. -/

variable {s s' : σ} {a : α} {b : β} {e : ε}

@[simp] theorem pure_apply : (pure a : Call σ ε α) s = some (.ok a, s) := rfl

/-- One step of a sequence, seen from the state it starts in. -/
theorem bind_apply (x : Call σ ε α) (f : α → Call σ ε β) (s : σ) :
    (x >>= f) s = match x s with
      | none => none
      | some (.error e, t) => some (.error e, t)
      | some (.ok a, t) => f a t := rfl

theorem bind_ok {x : Call σ ε α} {f : α → Call σ ε β} :
    (x >>= f) s = some (.ok b, s') ↔ ∃ a t, x s = some (.ok a, t) ∧ f a t = some (.ok b, s') := by
  show Call.bind x f s = _ ↔ _
  unfold Call.bind
  rcases x s with _ | ⟨e | a, t⟩
  · simp
  · simp
  · exact ⟨fun h => ⟨a, t, rfl, h⟩, by rintro ⟨a, t, ⟨⟩, h⟩; exact h⟩

theorem bind_error {x : Call σ ε α} {f : α → Call σ ε β} :
    (x >>= f) s = some (.error e, s') ↔
      x s = some (.error e, s') ∨
        ∃ a t, x s = some (.ok a, t) ∧ f a t = some (.error e, s') := by
  show Call.bind x f s = _ ↔ _
  unfold Call.bind
  rcases x s with _ | ⟨e | a, t⟩
  · simp
  · simp
  · exact ⟨fun h => .inr ⟨a, t, rfl, h⟩, by rintro (⟨⟨⟩⟩ | ⟨a, t, ⟨⟩, h⟩); exact h⟩

/-- A sequence that returned: its first step ended it, or the rest did. -/
theorem bind_some {x : Call σ ε α} {f : α → Call σ ε β} {r : Except ε β} :
    (x >>= f) s = some (r, s') ↔
      (∃ e, x s = some (.error e, s') ∧ r = .error e) ∨
        ∃ a t, x s = some (.ok a, t) ∧ f a t = some (r, s') := by
  cases r with
  | error e => simp [bind_error]
  | ok b => simp [bind_ok]

/-- A step that returns hands its state on to the rest. -/
theorem bind_of_ok {x : Call σ ε α} {f : α → Call σ ε β} {t : σ} (h : x s = some (.ok a, t)) :
    (x >>= f) s = f a t := by
  show Call.bind x f s = _
  unfold Call.bind
  rw [h]

/-- A step that fails ends the sequence. -/
theorem bind_of_error {x : Call σ ε α} {f : α → Call σ ε β} {t : σ}
    (h : x s = some (.error e, t)) : (x >>= f) s = some (.error e, t) := by
  show Call.bind x f s = _
  unfold Call.bind
  rw [h]

@[simp] theorem throw_apply : (throw e : Call σ ε α) s = some (.error e, s) := rfl

@[simp] theorem fault_apply : (fault : Call σ ε α) s = none := rfl

@[simp] theorem get_apply : (get : Call σ ε σ) s = some (.ok s, s) := rfl

@[simp] theorem modify_apply {f : σ → σ} : (modify f : Call σ ε Unit) s = some (.ok (), f s) := rfl

@[simp] theorem ofExcept_apply {x : Except ε α} : (ofExcept x : Call σ ε α) s = some (x, s) := rfl

@[simp] theorem failIf_ok {c : Prop} [Decidable c] {u : Unit} :
    failIf c e s = some (.ok u, s') ↔ ¬ c ∧ s = s' := by
  unfold failIf
  by_cases h : c <;> simp [h]

@[simp] theorem failIf_error {c : Prop} [Decidable c] {e' : ε} :
    failIf c e s = some (.error e', s') ↔ c ∧ e = e' ∧ s = s' := by
  unfold failIf
  by_cases h : c <;> simp [h]

@[simp] theorem ofOutcome_eq {x : Option (Except ε α)} {r : Except ε α} :
    ofOutcome x s = some (r, s') ↔ x = some r ∧ s = s' := by
  unfold ofOutcome
  cases x <;> simp

@[simp] theorem mapErr_ok {f : ε → ε'} {x : Call σ ε α} :
    mapErr f x s = some (.ok a, s') ↔ x s = some (.ok a, s') := by
  unfold mapErr
  rcases x s with _ | ⟨e | a, t⟩ <;> simp [Except.mapError]

@[simp] theorem mapErr_error {f : ε → ε'} {x : Call σ ε α} {e' : ε'} :
    mapErr f x s = some (.error e', s') ↔ ∃ e, x s = some (.error e, s') ∧ f e = e' := by
  unfold mapErr
  rcases x s with _ | ⟨e | a, t⟩
  · simp
  · exact ⟨by rintro ⟨⟩; exact ⟨e, rfl, rfl⟩, by rintro ⟨e, ⟨⟩, rfl⟩; rfl⟩
  · simp [Except.mapError]

@[simp] theorem ignoreErr_ok {x : Call σ ε Unit} {u : Unit} :
    (ignoreErr x : Call σ ε' Unit) s = some (.ok u, s') ↔ ∃ r, x s = some (r, s') := by
  unfold ignoreErr
  rcases x s with _ | ⟨r, t⟩ <;> simp

@[simp] theorem ignoreErr_error {x : Call σ ε Unit} {e' : ε'} :
    (ignoreErr x : Call σ ε' Unit) s ≠ some (.error e', s') := by
  unfold ignoreErr
  rcases x s with _ | ⟨r, t⟩ <;> simp

theorem onErr_ok {x : Call σ ε α} {cleanup : Call σ ε Unit} :
    onErr x cleanup s = some (.ok a, s') ↔ x s = some (.ok a, s') := by
  unfold onErr
  rcases x s with _ | ⟨e | b, t⟩
  · simp
  · simp
  · simp

theorem onErr_error {x : Call σ ε α} {cleanup : Call σ ε Unit} :
    onErr x cleanup s = some (.error e, s') ↔
      ∃ t r, x s = some (.error e, t) ∧ cleanup t = some (r, s') := by
  unfold onErr
  rcases x s with _ | ⟨e' | b, t⟩
  · simp
  · dsimp only
    rcases hc : cleanup t with _ | ⟨r, u⟩
    · simp [hc]
    · constructor
      · intro h
        cases h
        exact ⟨t, r, rfl, hc⟩
      · rintro ⟨t, r, ⟨⟩, h⟩
        rw [hc] at h
        cases h
        rfl
  · simp

@[simp] theorem onPart_eq {part : σ → τ} {put : τ → σ → σ} {x : Call τ ε α} {r : Except ε α} :
    onPart part put x s = some (r, s') ↔ ∃ t, x (part s) = some (r, t) ∧ put t s = s' := by
  unfold onPart
  rcases x (part s) with _ | ⟨q, t⟩
  · simp
  · exact ⟨by rintro ⟨⟩; exact ⟨t, rfl, rfl⟩, by rintro ⟨t, ⟨⟩, rfl⟩; rfl⟩

/-! ## Calls without a state -/

/-- Reject with `e` when the condition holds. -/
def reject (c : Prop) [Decidable c] (e : ε) : Except ε Unit :=
  if c then .error e else .ok ()

@[simp] theorem reject_ok {c : Prop} [Decidable c] {u : Unit} : reject c e = .ok u ↔ ¬ c := by
  unfold reject
  by_cases h : c <;> simp [h]

theorem except_bind_ok {x : Except ε α} {f : α → Except ε β} :
    (x >>= f) = .ok b ↔ ∃ a, x = .ok a ∧ f a = .ok b := by
  cases x with
  | error e => exact ⟨by rintro ⟨⟩, by rintro ⟨a, ⟨⟩, -⟩⟩
  | ok a => exact ⟨fun h => ⟨a, rfl, h⟩, by rintro ⟨a, ⟨⟩, h⟩; exact h⟩

@[simp] theorem except_mapError_ok {x : Except ε α} {f : ε → ε'} :
    x.mapError f = .ok a ↔ x = .ok a := by
  cases x <;> simp [Except.mapError]

/-! ## State-relation rules -/

/-- Every return of the call relates the state before to the state after. -/
def Relates (R : σ → σ → Prop) (x : Call σ ε α) : Prop :=
  ∀ s r s', x s = some (r, s') → R s s'

/-- Every failing return of the call relates the state before to the state after. -/
def FailRelates (R : σ → σ → Prop) (x : Call σ ε α) : Prop :=
  ∀ s e s', x s = some (.error e, s') → R s s'

/-- The call has no failing return. -/
def NeverFails (x : Call σ ε α) : Prop :=
  ∀ s e s', x s ≠ some (.error e, s')

/-- The call has no undefined behaviour. -/
def Returns (x : Call σ ε α) : Prop :=
  ∀ s, ∃ r s', x s = some (r, s')

theorem returns_failIf {c : Prop} [Decidable c] : Returns (failIf c e : Call σ ε Unit) := by
  intro s
  by_cases h : c
  · exact ⟨.error e, s, failIf_error.mpr ⟨h, rfl, rfl⟩⟩
  · exact ⟨.ok (), s, failIf_ok.mpr ⟨h, rfl⟩⟩

theorem returns_get : Returns (get : Call σ ε σ) := fun s => ⟨.ok s, s, rfl⟩

theorem returns_modify {f : σ → σ} : Returns (modify f : Call σ ε Unit) :=
  fun s => ⟨.ok (), f s, rfl⟩

theorem Returns.bind {x : Call σ ε α} {f : α → Call σ ε β} (hx : Returns x)
    (hf : ∀ a, Returns (f a)) : Returns (x >>= f) := by
  intro s
  obtain ⟨e | a, t, h⟩ := hx s
  · exact ⟨.error e, t, bind_error.mpr (.inl h)⟩
  · obtain ⟨r, s', h'⟩ := hf a t
    exact ⟨r, s', (bind_of_ok h).trans h'⟩

theorem NeverFails.fail {R : σ → σ → Prop} {x : Call σ ε α} (h : NeverFails x) :
    FailRelates R x :=
  fun s e s' hx => absurd hx (h s e s')

theorem Relates.mono {R S : σ → σ → Prop} {x : Call σ ε α} (hRS : ∀ s t, R s t → S s t)
    (h : Relates R x) : Relates S x :=
  fun s r s' hx => hRS s s' (h s r s' hx)

theorem relates_fault {R : σ → σ → Prop} : Relates R (fault : Call σ ε α) := by
  intro s r s' h
  simp at h

section Reflexive

variable {R : σ → σ → Prop} [Std.Refl R]

theorem relates_pure : Relates R (pure a : Call σ ε α) := by
  intro s r s' h
  simp only [pure_apply, Option.some.injEq, Prod.mk.injEq] at h
  exact h.2 ▸ Std.Refl.refl s

theorem relates_throw : Relates R (throw e : Call σ ε α) := by
  intro s r s' h
  simp only [throw_apply, Option.some.injEq, Prod.mk.injEq] at h
  exact h.2 ▸ Std.Refl.refl s

theorem relates_get : Relates R (get : Call σ ε σ) := by
  intro s r s' h
  simp only [get_apply, Option.some.injEq, Prod.mk.injEq] at h
  exact h.2 ▸ Std.Refl.refl s

theorem relates_failIf {c : Prop} [Decidable c] : Relates R (failIf c e) := by
  intro s r s' h
  cases r with
  | error e' => exact (failIf_error.mp h).2.2 ▸ Std.Refl.refl s
  | ok u => exact (failIf_ok.mp h).2 ▸ Std.Refl.refl s

theorem relates_ofOutcome {x : Option (Except ε α)} : Relates R (ofOutcome x) := by
  intro s r s' h
  exact (ofOutcome_eq.mp h).2 ▸ Std.Refl.refl s

theorem relates_ofExcept {x : Except ε α} : Relates R (ofExcept x) := by
  intro s r s' h
  simp only [ofExcept_apply, Option.some.injEq, Prod.mk.injEq] at h
  exact h.2 ▸ Std.Refl.refl s

end Reflexive

theorem relates_mapErr {R : σ → σ → Prop} {f : ε → ε'} {x : Call σ ε α} (h : Relates R x) :
    Relates R (mapErr f x) := by
  intro s r s' hx
  cases r with
  | error e' =>
      obtain ⟨e, he, -⟩ := mapErr_error.mp hx
      exact h s _ s' he
  | ok a => exact h s _ s' (mapErr_ok.mp hx)

theorem relates_modify {R : σ → σ → Prop} {f : σ → σ} (h : ∀ s, R s (f s)) :
    Relates R (modify f : Call σ ε Unit) := by
  intro s r s' hx
  simp only [modify_apply, Option.some.injEq, Prod.mk.injEq] at hx
  exact hx.2 ▸ h s

theorem Relates.ite {R : σ → σ → Prop} {c : Prop} [Decidable c] {x y : Call σ ε α}
    (hx : Relates R x) (hy : Relates R y) : Relates R (if c then x else y) := by
  split_ifs
  · exact hx
  · exact hy

theorem Relates.onlyIf {R : σ → σ → Prop} [Std.Refl R] {c : Prop} [Decidable c]
    {x : Call σ ε Unit} (h : Relates R x) : Relates R (onlyIf c x) :=
  h.ite relates_pure

theorem relates_ignoreErr {R : σ → σ → Prop} {x : Call σ ε Unit} (h : Relates R x) :
    Relates R (ignoreErr x : Call σ ε' Unit) := by
  intro s r s' hx
  cases r with
  | error e => exact absurd hx ignoreErr_error
  | ok u =>
    obtain ⟨r, hr⟩ := ignoreErr_ok.mp hx
    exact h s r s' hr

theorem relates_onErr {R : σ → σ → Prop} [IsTrans σ R] {x : Call σ ε α}
    {cleanup : Call σ ε Unit} (hx : Relates R x) (hc : Relates R cleanup) :
    Relates R (onErr x cleanup) := by
  intro s r s' h
  unfold onErr at h
  split at h
  next e t he =>
    obtain ⟨⟨q, u⟩, hq, hu⟩ := Option.map_eq_some_iff.mp h
    simp only [Prod.mk.injEq] at hu
    exact hu.2 ▸ trans_of R (hx s _ t he) (hc t q u hq)
  next => exact hx s r s' h

theorem relates_onPart {R : σ → σ → Prop} {part : σ → τ} {put : τ → σ → σ} {x : Call τ ε α}
    (h : ∀ s r t, x (part s) = some (r, t) → R s (put t s)) :
    Relates R (onPart part put x) := by
  intro s r s' hx
  obtain ⟨t, ht, rfl⟩ := onPart_eq.mp hx
  exact h s r t ht

theorem neverFails_ignoreErr {x : Call σ ε Unit} :
    NeverFails (ignoreErr x : Call σ ε' Unit) :=
  fun _ _ _ => ignoreErr_error

theorem neverFails_modify {f : σ → σ} : NeverFails (modify f : Call σ ε Unit) := by
  intro s e s' h
  simp at h

theorem neverFails_pure : NeverFails (pure a : Call σ ε α) := by
  intro s e s' h
  simp at h

theorem NeverFails.onlyIf {c : Prop} [Decidable c] {x : Call σ ε Unit} (h : NeverFails x) :
    NeverFails (onlyIf c x) := by
  unfold Call.onlyIf
  split_ifs
  · exact h
  · exact neverFails_pure

theorem NeverFails.bind {x : Call σ ε α} {f : α → Call σ ε β} (hx : NeverFails x)
    (hf : ∀ a, NeverFails (f a)) : NeverFails (x >>= f) := by
  intro s e s' h
  rcases bind_error.mp h with h | ⟨a, t, -, h⟩
  · exact hx s e s' h
  · exact hf a t e s' h

/-- A relation kept by both halves of a sequence is kept by the sequence, the
    second half for the values the first can return. -/
theorem Relates.bind_value {R : σ → σ → Prop} [IsTrans σ R] {x : Call σ ε α}
    {f : α → Call σ ε β} (hx : Relates R x)
    (hf : ∀ a s t, x s = some (.ok a, t) → Relates R (f a)) : Relates R (x >>= f) := by
  intro s r s' h
  cases r with
  | error e =>
      rcases bind_error.mp h with h | ⟨a, t, h1, h2⟩
      · exact hx s _ s' h
      · exact trans_of R (hx s _ t h1) (hf a s t h1 t _ s' h2)
  | ok b =>
      obtain ⟨a, t, h1, h2⟩ := bind_ok.mp h
      exact trans_of R (hx s _ t h1) (hf a s t h1 t _ s' h2)

theorem Relates.bind {R : σ → σ → Prop} [IsTrans σ R] {x : Call σ ε α} {f : α → Call σ ε β}
    (hx : Relates R x) (hf : ∀ a, Relates R (f a)) : Relates R (x >>= f) :=
  hx.bind_value fun a _ _ _ => hf a

/-- The prefix rule of failure atomicity: a prefix that always keeps `R`,
    followed by a call that keeps it when it fails. -/
theorem FailRelates.bind {R : σ → σ → Prop} [IsTrans σ R] {x : Call σ ε α}
    {f : α → Call σ ε β} (hx : Relates R x) (hf : ∀ a, FailRelates R (f a)) :
    FailRelates R (x >>= f) := by
  intro s e s' h
  rcases bind_error.mp h with h | ⟨a, t, h1, h2⟩
  · exact hx s _ s' h
  · exact trans_of R (hx s _ t h1) (hf a t e s' h2)

/-! ## Refinement -/

/-- Wherever `x` has a result, `y` has the same one. -/
def Refines (x y : Call σ ε α) : Prop :=
  ∀ s r, x s = some r → y s = some r

theorem Refines.refl (x : Call σ ε α) : Refines x x := fun _ _ h => h

theorem Refines.bind {x y : Call σ ε α} {f g : α → Call σ ε β} (hxy : Refines x y)
    (hfg : ∀ a, Refines (f a) (g a)) : Refines (x >>= f) (y >>= g) := by
  rintro s ⟨e | b, s'⟩ h
  · rcases bind_error.mp h with h | ⟨a, t, h1, h2⟩
    · exact bind_error.mpr (.inl (hxy _ _ h))
    · exact bind_error.mpr (.inr ⟨a, t, hxy _ _ h1, hfg a _ _ h2⟩)
  · obtain ⟨a, t, h1, h2⟩ := bind_ok.mp h
    exact bind_ok.mpr ⟨a, t, hxy _ _ h1, hfg a _ _ h2⟩

theorem Refines.ite {c : Prop} [Decidable c] {x y x' y' : Call σ ε α} (h : Refines x x')
    (h' : Refines y y') : Refines (if c then x else y) (if c then x' else y') := by
  split_ifs
  · exact h
  · exact h'

/-! ## Calls whose result does not depend on the state -/

/-- From every state with `P` the call returns this, and `P` still holds. -/
def Computes (P : σ → Prop) (x : Call σ ε α) (r : Except ε α) : Prop :=
  ∀ s, P s → ∃ s', x s = some (r, s') ∧ P s'

section Computes

variable {P : σ → Prop}

theorem computes_pure : Computes P (pure a : Call σ ε α) (pure a) := fun s h => ⟨s, rfl, h⟩

theorem computes_ofExcept {x : Except ε α} : Computes P (ofExcept x : Call σ ε α) x :=
  fun s h => ⟨s, rfl, h⟩

/-- An update in front of a call does not show in its result. -/
theorem computes_modify_bind {f : σ → σ} {g : Unit → Call σ ε α} {r : Except ε α}
    (hf : ∀ s, P s → P (f s)) (h : Computes P (g ()) r) : Computes P (modify f >>= g) r :=
  fun s hs => h (f s) (hf s hs)

theorem computes_failIf {c : Prop} [Decidable c] :
    Computes P (failIf c e : Call σ ε Unit) (reject c e) := by
  intro s hs
  refine ⟨s, ?_, hs⟩
  unfold failIf reject
  split_ifs <;> rfl

theorem Computes.bind {x : Call σ ε α} {r : Except ε α} {f : α → Call σ ε β}
    {g : α → Except ε β} (hx : Computes P x r) (hf : ∀ a, Computes P (f a) (g a)) :
    Computes P (x >>= f) (r >>= g) := by
  intro s hs
  obtain ⟨t, ht, hPt⟩ := hx s hs
  cases r with
  | error e => exact ⟨t, bind_of_error ht, hPt⟩
  | ok a =>
      obtain ⟨s', hs', hPs'⟩ := hf a t hPt
      exact ⟨s', (bind_of_ok ht).trans hs', hPs'⟩

end Computes

end Call
