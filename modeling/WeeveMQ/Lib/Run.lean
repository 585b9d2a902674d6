/-
  WeeveMQ.Lib.Run

  Runs of a labelled transition relation, over any states and labels.

  A run is built by appending one step at its end, so an invariant of runs may
  speak about the whole history.  The rules turn what one step preserves into
  what a run preserves:

  - `Run.history`: an invariant of history and state.
  - `Run.invariant`: an invariant of the state alone.
  - `Run.Past`: the states a run comes through, for what was true at some time.
  - `Run.mono`: runs of a relation are runs of any relation it implies, so a
    restriction of the steps is a smaller set of runs.
  - `Run.judged`: an invariant that depends on whether all steps so far met a
    condition.
-/

import Mathlib.Logic.Basic

/-- Runs of `step` from `start`: the labels, oldest first, and the state reached. -/
inductive Run {State Label : Type} (step : State → Label → State → Prop) (start : State) :
    List Label → State → Prop
  | nil : Run step start [] start
  | snoc {labels s l t} (run : Run step start labels s) (last : step s l t) :
      Run step start (labels ++ [l]) t

namespace Run

variable {State Label : Type} {step step' : State → Label → State → Prop} {start s t : State}
  {labels : List Label} {l : Label}

theorem single (h : step start l t) : Run step start [l] t := snoc nil h

/-- The induction rule for invariants that look at the history. -/
theorem history {I : List Label → State → Prop} (init : I [] start)
    (keep : ∀ labels s l t, I labels s → step s l t → I (labels ++ [l]) t)
    (run : Run step start labels s) : I labels s := by
  induction run with
  | nil => exact init
  | snoc _ last ih => exact keep _ _ _ _ ih last

theorem invariant {I : State → Prop} (init : I start) (keep : ∀ s l t, I s → step s l t → I t)
    (run : Run step start labels s) : I s :=
  history (I := fun _ => I) init (fun _ s l t => keep s l t) run

theorem mono (h : ∀ s l t, step s l t → step' s l t) (run : Run step start labels s) :
    Run step' start labels s := by
  induction run with
  | nil => exact nil
  | snoc _ last ih => exact snoc ih (h _ _ _ last)

/-! ## The past of a run -/

/-- The run comes through this state. -/
def Past (_ : Run step start labels t) (s : State) : Prop :=
  ∃ before after, labels = before ++ after ∧ Run step start before s ∧ Run step s after t

theorem past_last (run : Run step start labels t) : run.Past t :=
  ⟨labels, [], (List.append_nil labels).symm, run, nil⟩

theorem Past.snoc {run : Run step start labels s} {u : State} (h : run.Past u)
    (last : step s l t) : (run.snoc last).Past u := by
  obtain ⟨before, after, hlabels, hbefore, hafter⟩ := h
  refine ⟨before, after ++ [l], ?_, hbefore, hafter.snoc last⟩
  rw [hlabels, List.append_assoc]

/-! ## Runs whose steps are judged -/

variable {meets : State → Label → Prop}

/-- A step, labelled also with whether it met a condition. -/
def Judged (step : State → Label → State → Prop) (meets : State → Label → Prop) (s : State)
    (l : Label × Prop) (t : State) : Prop := step s l.1 t ∧ (l.2 ↔ meets s l.1)

/-- The induction rule for what holds if, or only if, every step met the condition. -/
theorem judged {I : Prop → State → Prop} {labels : List (Label × Prop)} (init : I True start)
    (keep : ∀ p s l t, I p s → step s l t → I (p ∧ meets s l) t)
    (run : Run (Judged step meets) start labels s) : I (∀ l ∈ labels, l.2) s := by
  induction run with
  | nil =>
    have hnone : (∀ l ∈ ([] : List (Label × Prop)), l.2) = True := by simp
    rw [hnone]
    exact init
  | @snoc labels s l t _ last ih =>
    have hall : (∀ k ∈ labels ++ [l], k.2) = ((∀ k ∈ labels, k.2) ∧ meets s l.1) := by
      rw [List.forall_mem_append, List.forall_mem_singleton, last.2]
    rw [hall]
    exact keep _ _ _ _ ih last.1

end Run
