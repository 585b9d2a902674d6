/-
  WeeveMQ.Lib.HeapLog

  The life of heap blocks, as a log of what was done with them.

  A program that frees and uses blocks writes down every allocation, use and
  release.  `HeapLog.live` are the blocks a log leaves allocated,
  `HeapLog.Sound` says that nothing was used or released but a live block.

  - `HeapLog.Owns` is the conservation law: the live blocks are exactly those
    of a list.  Allocating puts a block on the list, releasing takes it off.
  - `HeapLog.Sound.released_once` reads the law back: a block that is not live
    any more was released exactly once, and never touched after that.
  - `HeapLog.Sound.account_eq` is about a counter that charges some blocks and
    refunds others: it is off by what was refunded and never charged.
-/

import Mathlib.Algebra.Ring.Nat
import Mathlib.Data.List.Perm.Basic
import Mathlib.Data.List.Perm.Lattice

/-- A block: its number, what it is for, and its usable size. -/
structure HeapBlock (κ : Type) where
  id : Nat
  kind : κ
  size : Nat
  deriving DecidableEq, Repr

inductive HeapEvent (κ : Type) where
  | alloc (b : HeapBlock κ)
  | use (b : HeapBlock κ)
  | free (b : HeapBlock κ)
  deriving DecidableEq, Repr

/-- The block an event is about. -/
def HeapEvent.block {κ : Type} : HeapEvent κ → HeapBlock κ
  | .alloc b => b
  | .use b => b
  | .free b => b

/-- The events so far, newest first. -/
abbrev HeapLog (κ : Type) := List (HeapEvent κ)

namespace HeapLog

variable {κ : Type} [DecidableEq κ] {log : HeapLog κ} {b c : HeapBlock κ}
  {L : List (HeapBlock κ)}

/-- The blocks that are allocated after these events. -/
def live : HeapLog κ → List (HeapBlock κ)
  | [] => []
  | .alloc b :: log => b :: live log
  | .use _ :: log => live log
  | .free b :: log => (live log).erase b

/-- Every block is new when it is allocated, and live when it is used or released. -/
def Sound : HeapLog κ → Prop
  | [] => True
  | .alloc b :: log => b.id = log.length ∧ Sound log
  | .use b :: log => b ∈ live log ∧ Sound log
  | .free b :: log => b ∈ live log ∧ Sound log

/-- Nothing was used or released but a live block, and these are the live ones. -/
def Owns (log : HeapLog κ) (L : List (HeapBlock κ)) : Prop :=
  Sound log ∧ (live log).Perm L

/-! ## The rules -/

theorem Owns.nil : Owns ([] : HeapLog κ) [] := ⟨trivial, .nil⟩

theorem Owns.perm {L' : List (HeapBlock κ)} (h : Owns log L) (hp : L.Perm L') : Owns log L' :=
  ⟨h.1, h.2.trans hp⟩

theorem Owns.alloc (h : Owns log L) (hb : b.id = log.length) : Owns (.alloc b :: log) (b :: L) :=
  ⟨⟨hb, h.1⟩, h.2.cons b⟩

theorem Owns.use (h : Owns log L) (hb : b ∈ L) : Owns (.use b :: log) L :=
  ⟨⟨h.2.mem_iff.mpr hb, h.1⟩, h.2⟩

theorem Owns.free (h : Owns log (b :: L)) : Owns (.free b :: log) L := by
  refine ⟨⟨h.2.mem_iff.mpr (List.mem_cons_self ..), h.1⟩, ?_⟩
  have := h.2.erase b
  rwa [List.erase_cons_head] at this

/-! ## Reading the law back -/

/-- A live block was allocated. -/
theorem alloc_of_live (h : b ∈ live log) : .alloc b ∈ log := by
  induction log with
  | nil => simp [live] at h
  | cons e log ih =>
    cases e with
    | alloc c =>
      rw [live, List.mem_cons] at h
      rcases h with rfl | h
      · exact List.mem_cons_self ..
      · exact List.mem_cons_of_mem _ (ih h)
    | use c => exact List.mem_cons_of_mem _ (ih h)
    | free c => exact List.mem_cons_of_mem _ (ih (List.mem_of_mem_erase h))

/-- The numbers of the blocks are behind the length of the log. -/
theorem Sound.id_lt (h : Sound log) {e : HeapEvent κ} (he : e ∈ log) :
    e.block.id < log.length := by
  induction log generalizing e with
  | nil => simp at he
  | cons f log ih =>
    have tail : Sound log := by cases f <;> exact h.2
    have head : f.block.id < log.length + 1 := by
      cases f with
      | alloc c => exact Nat.lt_succ_of_le (Nat.le_of_eq h.1)
      | use c =>
        have : c.id < log.length := ih tail (alloc_of_live h.1)
        exact Nat.lt_succ_of_lt this
      | free c =>
        have : c.id < log.length := ih tail (alloc_of_live h.1)
        exact Nat.lt_succ_of_lt this
    rcases List.mem_cons.mp he with rfl | he'
    · exact head
    · exact Nat.lt_succ_of_lt (ih tail he')

theorem Sound.nodup (h : Sound log) : (live log).Nodup := by
  induction log with
  | nil => exact List.nodup_nil
  | cons e log ih =>
    cases e with
    | alloc c =>
      refine List.nodup_cons.mpr ⟨fun hc => ?_, ih h.2⟩
      have : c.id < log.length := h.2.id_lt (alloc_of_live hc)
      exact absurd h.1 (Nat.ne_of_lt this)
    | use c => exact ih h.2
    | free c => exact (ih h.2).erase c

/-- A live block was not released before. -/
theorem Sound.not_freed (h : Sound log) (hb : b ∈ live log) : .free b ∉ log := by
  induction log with
  | nil => simp [live] at hb
  | cons e log ih =>
    cases e with
    | alloc c =>
      rw [live, List.mem_cons] at hb
      intro hf
      have hf' : .free b ∈ log := (List.mem_cons.mp hf).resolve_left (by simp)
      rcases hb with rfl | hb
      · have : b.id < log.length := h.2.id_lt hf'
        exact absurd h.1 (Nat.ne_of_lt this)
      · exact ih h.2 hb hf'
    | use c =>
      intro hf
      exact ih h.2 hb ((List.mem_cons.mp hf).resolve_left (by simp))
    | free c =>
      have hbc := (h.2.nodup.mem_erase_iff).mp hb
      intro hf
      rcases List.mem_cons.mp hf with hf | hf
      · exact hbc.1 (by simpa using hf)
      · exact ih h.2 hbc.2 hf

/-- A block was released exactly once, and what was done with it came before. -/
def ReleasedOnce (log : HeapLog κ) (b : HeapBlock κ) : Prop :=
  ∃ after before, log = after ++ .free b :: before ∧ b ∈ live before ∧
    (∀ e ∈ after, e.block ≠ b) ∧ HeapEvent.free b ∉ before

/-- A block that was allocated and is not live any more was released exactly once. -/
theorem Sound.released_once (h : Sound log) (ha : .alloc b ∈ log) (hl : b ∉ live log) :
    ReleasedOnce log b := by
  induction log with
  | nil => simp at ha
  | cons e log ih =>
    cases e with
    | alloc c =>
      have hbc : b ≠ c := by
        rintro rfl
        exact hl (List.mem_cons_self ..)
      have ha' : .alloc b ∈ log := (List.mem_cons.mp ha).resolve_left (by simp [hbc])
      obtain ⟨after, before, rfl, hb, hafter, hbefore⟩ :=
        ih h.2 ha' fun hb => hl (List.mem_cons_of_mem _ hb)
      refine ⟨.alloc c :: after, before, rfl, hb, fun e he => ?_, hbefore⟩
      rcases List.mem_cons.mp he with rfl | he
      · exact fun hc => hbc hc.symm
      · exact hafter e he
    | use c =>
      have ha' : .alloc b ∈ log := (List.mem_cons.mp ha).resolve_left (by simp)
      have hbc : c ≠ b := by
        rintro rfl
        exact hl h.1
      obtain ⟨after, before, rfl, hb, hafter, hbefore⟩ := ih h.2 ha' hl
      refine ⟨.use c :: after, before, rfl, hb, fun e he => ?_, hbefore⟩
      rcases List.mem_cons.mp he with rfl | he
      · exact hbc
      · exact hafter e he
    | free c =>
      have ha' : .alloc b ∈ log := (List.mem_cons.mp ha).resolve_left (by simp)
      by_cases hcb : c = b
      · subst hcb
        exact ⟨[], log, rfl, h.1, by simp, h.2.not_freed h.1⟩
      · have hl' : b ∉ live log := fun hb => hl ((List.mem_erase_of_ne (Ne.symm hcb)).mpr hb)
        obtain ⟨after, before, rfl, hb, hafter, hbefore⟩ := ih h.2 ha' hl'
        refine ⟨.free c :: after, before, rfl, hb, fun e he => ?_, hbefore⟩
        rcases List.mem_cons.mp he with rfl | he
        · exact hcb
        · exact hafter e he

theorem Sound.suffix {log' : HeapLog κ} (h : Sound log') (hs : log <:+ log') : Sound log := by
  obtain ⟨more, rfl⟩ := hs
  induction more with
  | nil => exact h
  | cons e more ih => cases e <;> exact ih h.2

/-- No block comes back: the numbers of the log are used once. -/
theorem Sound.not_live {log' : HeapLog κ} (h : Sound log') (hs : log <:+ log')
    (ha : .alloc b ∈ log) (hl : b ∉ live log) : b ∉ live log' := by
  obtain ⟨more, rfl⟩ := hs
  induction more with
  | nil => exact hl
  | cons e more ih =>
    cases e with
    | alloc c =>
      have hlt : b.id < (more ++ log).length :=
        h.2.id_lt (e := .alloc b) (List.mem_append_right _ ha)
      intro hb
      rcases List.mem_cons.mp hb with rfl | hb
      · exact absurd h.1 (Nat.ne_of_lt hlt)
      · exact ih h.2 hb
    | use c => exact ih h.2
    | free c => exact fun hb => ih h.2 (List.mem_of_mem_erase hb)

/-- What was released stays so. -/
theorem ReleasedOnce.later {log' : HeapLog κ} (hr : ReleasedOnce log b) (h : Sound log')
    (hs : log <:+ log') : ReleasedOnce log' b := by
  have hbefore := h.suffix hs
  have ha : .alloc b ∈ log := by
    obtain ⟨after, before, hlog, hb, -⟩ := hr
    rw [hlog]
    exact List.mem_append_right _ (List.mem_cons_of_mem _ (alloc_of_live hb))
  have hl : b ∉ live log := by
    intro hb
    obtain ⟨after, before, hlog, -⟩ := hr
    refine hbefore.not_freed hb ?_
    rw [hlog]
    exact List.mem_append_right _ (List.mem_cons_self ..)
  exact h.released_once (hs.subset ha) (h.not_live hs ha hl)

/-- What is owned was not released. -/
theorem Owns.not_released (h : Owns log L) (hb : b ∈ L) : ¬ ReleasedOnce log b := by
  rintro ⟨after, before, hlog, -⟩
  refine h.1.not_freed (h.2.mem_iff.mpr hb) ?_
  rw [hlog]
  exact List.mem_append_right _ (List.mem_cons_self ..)

/-- What was allocated and is not owned was released. -/
theorem Owns.released (h : Owns log L) (ha : .alloc b ∈ log) (hb : b ∉ L) : ReleasedOnce log b :=
  h.1.released_once ha fun hl => hb (h.2.mem_iff.mp hl)

theorem Owns.nodup (h : Owns log L) : L.Nodup := h.2.nodup_iff.mp h.1.nodup

/-- What is owned was allocated. -/
theorem Owns.alloc_mem (h : Owns log L) (hb : b ∈ L) : .alloc b ∈ log :=
  alloc_of_live (h.2.mem_iff.mpr hb)

/-! ## Sizes -/

/-- The usable size of the live blocks of one kind. -/
def liveSize (p : HeapBlock κ → Bool) (log : HeapLog κ) : Nat :=
  (((live log).filter p).map HeapBlock.size).sum

/-- What a block adds to the size of one kind. -/
def sizeIf (p : HeapBlock κ → Bool) (b : HeapBlock κ) : Nat := if p b then b.size else 0

/-- The usable size of the blocks of one kind that were released. -/
def releasedSize (p : HeapBlock κ → Bool) : HeapLog κ → Nat
  | [] => 0
  | .alloc _ :: log => releasedSize p log
  | .use _ :: log => releasedSize p log
  | .free b :: log => releasedSize p log + sizeIf p b

/-- A counter that is charged for some blocks when they are allocated, and refunded for
    some when they are released. -/
def account (charged refunded : HeapBlock κ → Bool) : HeapLog κ → Int
  | [] => 0
  | .alloc b :: log => account charged refunded log + sizeIf charged b
  | .use _ :: log => account charged refunded log
  | .free b :: log => account charged refunded log - sizeIf refunded b

variable {p charged refunded : HeapBlock κ → Bool}

theorem liveSize_alloc : liveSize p (.alloc b :: log) = liveSize p log + sizeIf p b := by
  show (((b :: live log).filter p).map HeapBlock.size).sum =
    (((live log).filter p).map HeapBlock.size).sum + sizeIf p b
  unfold sizeIf
  cases hb : p b with
  | true =>
    rw [List.filter_cons_of_pos hb, List.map_cons, List.sum_cons, if_pos rfl, Nat.add_comm]
  | false =>
    have hneg : ¬ p b = true := by rw [hb]; decide
    rw [List.filter_cons_of_neg hneg, if_neg (by decide), Nat.add_zero]

/-- The sizes of a list do not depend on its order. -/
theorem liveSize_free (hb : b ∈ live log) :
    liveSize p (.free b :: log) + sizeIf p b = liveSize p log := by
  have hperm : ((live log).filter p).Perm ((b :: (live log).erase b).filter p) :=
    (List.perm_cons_erase hb).filter p
  have hsum := (hperm.map HeapBlock.size).sum_nat
  have hcons : liveSize p (.alloc b :: .free b :: log) = liveSize p log := hsum.symm
  rw [← hcons, liveSize_alloc]

/-- The size of one live block is part of the whole. -/
theorem size_le_liveSize (hb : b ∈ live log) (hp : p b = true) : b.size ≤ liveSize p log := by
  have := liveSize_free (p := p) hb
  unfold sizeIf at this
  rw [if_pos hp] at this
  omega

/-- The blocks of one kind are no larger than all of them. -/
theorem liveSize_le : liveSize p log ≤ liveSize (fun _ => true) log := by
  have hfilter : ∀ L : List (HeapBlock κ),
      ((L.filter p).map HeapBlock.size).sum ≤ (L.map HeapBlock.size).sum := by
    intro L
    induction L with
    | nil => exact Nat.le_refl _
    | cons b L ih =>
      rw [List.filter_cons, List.map_cons, List.sum_cons]
      split
      · rw [List.map_cons, List.sum_cons]
        omega
      · omega
  unfold liveSize
  rw [List.filter_true]
  exact hfilter _

/-- If every charge is refunded, the counter is the size of the live blocks that were
    charged, less what was refunded without a charge. -/
theorem Sound.account_eq (h : Sound log) (hrefunded : ∀ b, charged b = true → refunded b = true) :
    account charged refunded log = liveSize charged log -
      releasedSize (fun b => refunded b && !charged b) log := by
  induction log with
  | nil => rfl
  | cons e log ih =>
    cases e with
    | alloc b =>
      have := ih h.2
      rw [account, releasedSize, liveSize_alloc, this]
      push_cast
      omega
    | use b => exact ih h.2
    | free b =>
      have := ih h.2
      have hlive := liveSize_free (p := charged) h.1
      have hsplit : sizeIf refunded b =
          sizeIf charged b + sizeIf (fun b => refunded b && !charged b) b := by
        unfold sizeIf
        have := hrefunded b
        cases hc : charged b <;> cases hr : refunded b <;> simp_all
      rw [account, releasedSize, this, ← hlive, hsplit]
      push_cast
      omega

end HeapLog
