/-
  WeeveMQ.Lib.PieceLine

  A line of items whose head is written in pieces.

  Items join the line at its end.  Only the head is written, as much of it at a
  time as the other side takes, and it leaves when nothing of it is left.  The
  log keeps the key of every piece and the place in the item it began at.

  - `PieceLine.Ordered r`: pieces and items stand in the order `r` of their
    keys.  Writing keeps it, and so does an item that joins behind all others.
  - `PieceLine.Whole`: an item leaves only when it was written, so that the
    writer loses none.
  - `PieceLine.Begins P`: the first piece of the log is one of an item with
    `P`, and if there is none yet, the first item of the line has `P`.
-/

import Mathlib.Data.List.Basic
import Mathlib.Logic.Relation

/-- An item of a line: its key, how far it is written, how much of it is left. -/
structure LineItem (κ : Type) where
  key : κ
  pos : Nat
  left : Nat

structure PieceLine (κ : Type) where
  log : List (κ × Nat)
  line : List (LineItem κ)

namespace PieceLine

variable {κ : Type} {r : κ → κ → Prop} {P : κ → Prop} {x y : PieceLine κ} {k : κ} {n : Nat}

/-- Nothing is written and nothing waits. -/
def empty : PieceLine κ where
  log := []
  line := []

/-- An item joins the line. -/
def push (k : κ) (n : Nat) (x : PieceLine κ) : PieceLine κ :=
  { x with line := x.line ++ [{ key := k, pos := 0, left := n }] }

/-- One step of the writer. -/
inductive Writes : PieceLine κ → PieceLine κ → Prop
  | piece {log k p l rest} (j : Nat) (some : 0 < j) (fits : j ≤ l) :
      Writes { log := log, line := { key := k, pos := p, left := l } :: rest }
        { log := log ++ [(k, p)], line := { key := k, pos := p + j, left := l - j } :: rest }
  | leave {log k p rest} :
      Writes { log := log, line := { key := k, pos := p, left := 0 } :: rest }
        { log := log, line := rest }

/-- Everything that was written or waits, oldest first. -/
def keys (x : PieceLine κ) : List κ := x.log.map Prod.fst ++ x.line.map LineItem.key

theorem keys_push : (x.push k n).keys = x.keys ++ [k] := by
  simp [keys, push]

/-- The writer invents no keys. -/
theorem Writes.keys_subset (h : Writes x y) : ∀ a ∈ y.keys, a ∈ x.keys := by
  cases h with
  | piece j some fits =>
    intro a ha
    simp only [keys, List.map_append, List.map_cons, List.map_nil, List.mem_append, List.mem_cons,
      List.not_mem_nil, or_false] at ha ⊢
    tauto
  | leave =>
    intro a ha
    simp only [keys, List.map_cons, List.mem_append, List.mem_cons] at ha ⊢
    tauto

/-! ## Order -/

/-- The order of pieces: first that of their items, then that of their places. -/
def PieceOrder (r : κ → κ → Prop) (a b : κ × Nat) : Prop := r a.1 b.1 ∨ a.1 = b.1 ∧ a.2 < b.2

/-- Pieces and items in order. -/
structure Ordered (r : κ → κ → Prop) (x : PieceLine κ) : Prop where
  log : x.log.Pairwise (PieceOrder r)
  line : x.line.Pairwise fun a b => r a.key b.key
  ahead : ∀ a ∈ x.log, ∀ b ∈ x.line, PieceOrder r a (b.key, b.pos)

theorem Ordered.empty : Ordered r (empty : PieceLine κ) := ⟨.nil, .nil, nofun⟩

theorem Ordered.push (h : Ordered r x) (hk : ∀ a ∈ x.keys, r a k) : Ordered r (x.push k n) := by
  have hlog : ∀ a ∈ x.log, r a.1 k := fun a ha =>
    hk _ (List.mem_append.mpr (.inl (List.mem_map_of_mem ha)))
  have hline : ∀ b ∈ x.line, r b.key k := fun b hb =>
    hk _ (List.mem_append.mpr (.inr (List.mem_map_of_mem hb)))
  refine ⟨h.log, ?_, ?_⟩
  · refine List.pairwise_append.mpr ⟨h.line, List.pairwise_singleton .., fun a ha b hb => ?_⟩
    rw [List.mem_singleton.mp hb]
    exact hline a ha
  · intro a ha b hb
    rcases List.mem_append.mp hb with hb | hb
    · exact h.ahead a ha b hb
    · rw [List.mem_singleton.mp hb]
      exact .inl (hlog a ha)

theorem Ordered.writes (h : Ordered r x) (hxy : Writes x y) : Ordered r y := by
  cases hxy with
  | @piece log k p l rest j some fits =>
    obtain ⟨hhead, hrest⟩ := List.pairwise_cons.mp h.line
    refine ⟨?_, List.pairwise_cons.mpr ⟨hhead, hrest⟩, ?_⟩
    · refine List.pairwise_append.mpr ⟨h.log, List.pairwise_singleton .., fun a ha b hb => ?_⟩
      rw [List.mem_singleton.mp hb]
      exact h.ahead a ha _ (List.mem_cons_self ..)
    · intro a ha b hb
      rcases List.mem_append.mp ha with ha | ha
      · rcases List.mem_cons.mp hb with rfl | hb
        · rcases h.ahead a ha _ (List.mem_cons_self ..) with hr | ⟨heq, hlt⟩
          · exact .inl hr
          · exact .inr ⟨heq, Nat.lt_of_lt_of_le hlt (Nat.le_add_right ..)⟩
        · exact h.ahead a ha b (List.mem_cons_of_mem _ hb)
      · rw [List.mem_singleton.mp ha]
        rcases List.mem_cons.mp hb with rfl | hb
        · exact .inr ⟨rfl, Nat.lt_add_of_pos_right some⟩
        · exact .inl (hhead b hb)
  | leave =>
    exact ⟨h.log, h.line.of_cons, fun a ha b hb => h.ahead a ha b (List.mem_cons_of_mem _ hb)⟩

/-! ## Items that are sent as a whole -/

/-- No item is empty, and one that is begun is in the log. -/
structure Whole (x : PieceLine κ) : Prop where
  size : ∀ a ∈ x.line, 0 < a.pos + a.left
  started : ∀ a ∈ x.line, a.pos ≠ 0 → a.key ∈ x.log.map Prod.fst

theorem Whole.empty : Whole (empty : PieceLine κ) := ⟨nofun, nofun⟩

theorem Whole.push (h : Whole x) (hn : 0 < n) : Whole (x.push k n) := by
  refine ⟨?_, ?_⟩
  · intro a ha
    rcases List.mem_append.mp ha with ha | ha
    · exact h.size a ha
    · rw [List.mem_singleton.mp ha]
      exact Nat.lt_of_lt_of_le hn (Nat.le_add_left ..)
  · intro a ha hpos
    rcases List.mem_append.mp ha with ha | ha
    · exact h.started a ha hpos
    · rw [List.mem_singleton.mp ha] at hpos
      exact absurd rfl hpos

theorem Whole.writes (h : Whole x) (hxy : Writes x y) : Whole y := by
  cases hxy with
  | @piece log k p l rest j some fits =>
    refine ⟨?_, ?_⟩
    · intro a ha
      rcases List.mem_cons.mp ha with rfl | ha
      · have := h.size _ (List.mem_cons_self ..)
        dsimp only at this ⊢
        omega
      · exact h.size a (List.mem_cons_of_mem _ ha)
    · intro a ha hpos
      rw [List.map_append, List.mem_append]
      rcases List.mem_cons.mp ha with rfl | ha
      · exact .inr (List.mem_cons_self ..)
      · exact .inl (h.started a (List.mem_cons_of_mem _ ha) hpos)
  | leave =>
    exact ⟨fun a ha => h.size a (List.mem_cons_of_mem _ ha),
      fun a ha => h.started a (List.mem_cons_of_mem _ ha)⟩

/-- An item that leaves is in the log. -/
theorem Whole.left {log : List (κ × Nat)} {p : Nat} {rest : List (LineItem κ)}
    (h : Whole { log := log, line := { key := k, pos := p, left := 0 } :: rest }) :
    k ∈ log.map Prod.fst := by
  refine h.started _ (List.mem_cons_self ..) ?_
  have := h.size _ (List.mem_cons_self ..)
  dsimp only at this ⊢
  omega

/-- The writer loses nothing. -/
theorem Whole.mem_keys (h : Whole x) (hxy : Writes x y) (k : κ) : k ∈ y.keys ↔ k ∈ x.keys := by
  refine ⟨hxy.keys_subset k, fun hk => ?_⟩
  cases hxy with
  | piece j some fits =>
    simp only [keys, List.map_append, List.map_cons, List.map_nil, List.mem_append, List.mem_cons,
      List.not_mem_nil, or_false] at hk ⊢
    tauto
  | leave =>
    simp only [keys, List.map_cons, List.mem_append, List.mem_cons] at hk ⊢
    rcases hk with hk | rfl | hk
    · exact .inl hk
    · exact .inl h.left
    · exact .inr hk

/-! ## The first item -/

/-- Whatever came first has `P`, and was written from its start. -/
structure Begins (P : κ → Prop) (x : PieceLine κ) : Prop where
  first : ∀ k ∈ x.keys.head?, P k
  start : ∀ a ∈ x.log.head?, a.2 = 0

theorem Begins.empty : Begins P (empty : PieceLine κ) := ⟨nofun, nofun⟩

theorem Begins.push (h : Begins P x) (hk : x.keys = [] → P k) : Begins P (x.push k n) := by
  refine ⟨?_, h.start⟩
  intro a ha
  rw [keys_push, List.head?_append] at ha
  cases hkeys : x.keys with
  | nil =>
    rw [hkeys] at ha
    obtain rfl : k = a := by simpa using ha
    exact hk hkeys
  | cons b rest =>
    rw [hkeys] at ha
    obtain rfl : b = a := by simpa using ha
    exact h.first b (by simp [hkeys])

theorem Begins.writes (h : Begins P x) (hwhole : Whole x) (hxy : Writes x y) : Begins P y := by
  cases hxy with
  | @piece log k p l rest j some fits =>
    cases log with
    | nil =>
      -- the first piece is one of the first item
      refine ⟨fun a ha => h.first a (by simpa [keys] using ha), fun a ha => ?_⟩
      obtain rfl : (k, p) = a := by simpa using ha
      by_contra hp
      exact List.not_mem_nil (hwhole.started _ (List.mem_cons_self ..) hp)
    | cons b log =>
      exact ⟨fun a ha => h.first a (by simpa [keys] using ha),
        fun a ha => h.start a (by simpa using ha)⟩
  | @leave log k p rest =>
    cases log with
    | nil => exact absurd hwhole.left List.not_mem_nil
    | cons b log => exact ⟨fun a ha => h.first a (by simpa [keys] using ha), h.start⟩

/-- What was written first has `P`. -/
theorem Begins.log_head (h : Begins P x) : ∀ a ∈ x.log.head?, P a.1 := by
  intro a ha
  apply h.first
  cases hlog : x.log with
  | nil =>
    rw [hlog] at ha
    cases ha
  | cons b log =>
    rw [hlog] at ha
    obtain rfl : b = a := by simpa using ha
    simp [keys, hlog]

end PieceLine
