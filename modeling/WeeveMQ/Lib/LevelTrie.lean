/-
  WeeveMQ.Lib.LevelTrie

  Paths of levels, filters with two wildcards, and tries of values that are
  reached by paths.

  A filter is a path in which `single` stands for any one level and `multi`, as
  the last level, for any number of them (`LevelFilter.accepts`).

  A trie keeps the children of a node in the order in which they were added
  (`LevelTrie`).  `LevelTrie.content` reads it as a function from paths to
  values, in which every absent node has the empty value:

  - `content_insertAt`, `content_removeAt`: changing a value at a path changes
    this function there and nowhere else, whether nodes are created on the way
    or removed behind it.
  - `LevelTrie.Wf`: no node has two children of one key, and `multi` is the end of
    every path it is on; both operations keep it.
  - `mem_matching`, `matching_nodup`: the nodes whose paths, read as filters,
    accept given levels, each once.
-/

import Mathlib.Data.List.Nodup

/-! ## Filters -/

namespace LevelFilter

variable {α : Type} [DecidableEq α] (single multi : α)

/-- Whether the levels are those a filter asks for. -/
def accepts : List α → List α → Bool
  | [], levels => levels.isEmpty
  | f :: fs, levels =>
    (f = multi && fs.isEmpty) ||
      match levels with
      | [] => false
      | l :: ls => (f = l || f = single) && accepts fs ls

@[simp] theorem accepts_nil_left {levels : List α} :
    accepts single multi [] levels = levels.isEmpty := rfl

theorem accepts_nil_right {f : α} {fs : List α} :
    accepts single multi (f :: fs) [] = (f = multi && fs.isEmpty) := by
  simp [accepts]

theorem accepts_cons {f l : α} {fs ls : List α} :
    accepts single multi (f :: fs) (l :: ls) =
      ((f = multi && fs.isEmpty) || ((f = l || f = single) && accepts single multi fs ls)) := rfl

/-- A level that is no wildcard asks for itself. -/
theorem accepts_cons_level {f l : α} {fs ls : List α} (hsingle : f ≠ single) (hmulti : f ≠ multi) :
    accepts single multi (f :: fs) (l :: ls) = (f = l && accepts single multi fs ls) := by
  simp [accepts_cons, hsingle, hmulti]

theorem accepts_single {l : α} {fs ls : List α} (h : single ≠ multi) :
    accepts single multi (single :: fs) (l :: ls) = accepts single multi fs ls := by
  simp [accepts_cons, h]

@[simp] theorem accepts_multi {levels : List α} : accepts single multi [multi] levels = true := by
  simp [accepts]

/-- The levels are asked for one by one, up to a last `multi` that takes the rest. -/
theorem accepts_iff {fs ls : List α} : accepts single multi fs ls = true ↔
    List.Forall₂ (fun f l => f = l ∨ f = single) fs ls ∨
      ∃ front levels rest, fs = front ++ [multi] ∧ ls = levels ++ rest ∧
        List.Forall₂ (fun f l => f = l ∨ f = single) front levels := by
  induction fs generalizing ls with
  | nil =>
    rw [accepts_nil_left, List.isEmpty_iff]
    constructor
    · rintro rfl
      exact .inl .nil
    · rintro (hall | ⟨front, levels, rest, hfs, -⟩)
      · exact List.forall₂_nil_left_iff.mp hall
      · exact absurd hfs.symm (List.append_ne_nil_of_right_ne_nil _ (List.cons_ne_nil _ _))
  | cons f fs ih =>
    constructor
    · intro h
      cases ls with
      | nil =>
        rw [accepts_nil_right, Bool.and_eq_true, decide_eq_true_eq, List.isEmpty_iff] at h
        obtain ⟨rfl, rfl⟩ := h
        exact .inr ⟨[], [], [], rfl, rfl, .nil⟩
      | cons l ls =>
        simp only [accepts_cons, Bool.or_eq_true, Bool.and_eq_true, decide_eq_true_eq,
          List.isEmpty_iff] at h
        rcases h with ⟨rfl, rfl⟩ | ⟨hl, h⟩
        · exact .inr ⟨[], [], l :: ls, rfl, rfl, .nil⟩
        · rcases ih.mp h with hall | ⟨front, levels, rest, rfl, rfl, hall⟩
          · exact .inl (.cons hl hall)
          · exact .inr ⟨f :: front, l :: levels, rest, rfl, rfl, .cons hl hall⟩
    · rintro (hall | ⟨front, levels, rest, hfs, rfl, hall⟩)
      · cases hall with
        | cons hl hall =>
          rw [accepts_cons, ih.mpr (.inl hall)]
          simp [hl]
      · cases hall with
        | nil =>
          obtain ⟨rfl, rfl⟩ := List.cons.inj hfs
          exact accepts_multi _ _
        | cons hl hall =>
          obtain ⟨rfl, rfl⟩ := List.cons.inj hfs
          rw [List.cons_append, accepts_cons, ih.mpr (.inr ⟨_, _, rest, rfl, rfl, hall⟩)]
          simp [hl]

end LevelFilter

/-! ## Tries -/

/-- A value, and the children behind it by the next level of their paths. -/
inductive LevelTrie (α β : Type) where
  | node (value : β) (children : List (α × LevelTrie α β))

namespace LevelTrie

variable {α β : Type}

def value : LevelTrie α β → β
  | node v _ => v

def children : LevelTrie α β → List (α × LevelTrie α β)
  | node _ cs => cs

@[simp] theorem value_node {v : β} {cs : List (α × LevelTrie α β)} : (node v cs).value = v := rfl

@[simp] theorem children_node {v : β} {cs : List (α × LevelTrie α β)} :
    (node v cs).children = cs := rfl

/-! ### Well-formed tries -/

/-- No node has two children of one key, and `multi` is the end of a path. -/
inductive Wf (multi : α) : LevelTrie α β → Prop
  | node {v : β} {cs : List (α × LevelTrie α β)} (keys : (cs.map Prod.fst).Nodup)
      (multiLast : ∀ c ∈ cs, c.1 = multi → c.2.children = []) (children : ∀ c ∈ cs, Wf multi c.2) :
      Wf multi (node v cs)

section WellFormed

variable {multi : α} {v : β} {t : LevelTrie α β} {k : α} {ks : List α}

theorem Wf.keys (h : Wf multi t) : (t.children.map Prod.fst).Nodup := by
  cases h with
  | node keys _ _ => exact keys

theorem Wf.multiLast (h : Wf multi t) : ∀ c ∈ t.children, c.1 = multi → c.2.children = [] := by
  cases h with
  | node _ multiLast _ => exact multiLast

theorem Wf.child (h : Wf multi t) : ∀ c ∈ t.children, Wf multi c.2 := by
  cases h with
  | node _ _ children => exact children

theorem Wf.childless : Wf multi (LevelTrie.node v [] : LevelTrie α β) :=
  .node List.nodup_nil (List.forall_mem_nil _) (List.forall_mem_nil _)

/-- The value of a node does not matter. -/
theorem Wf.setValue (h : Wf multi t) : Wf multi (LevelTrie.node v t.children) :=
  .node h.keys h.multiLast h.child

/-- A path on which `multi` is the last level, if it is on it. -/
def MultiLast (multi : α) (path : List α) : Prop := multi ∉ path.dropLast

theorem MultiLast.tail (h : MultiLast multi (k :: ks)) : MultiLast multi ks := by
  cases ks with
  | nil => exact List.not_mem_nil
  | cons j js => exact fun hmem => h (List.mem_cons_of_mem _ hmem)

theorem MultiLast.eq_nil (h : MultiLast multi (multi :: ks)) : ks = [] := by
  cases ks with
  | nil => rfl
  | cons j js => exact absurd List.mem_cons_self h

/-- What is found behind a child begins with its key. -/
theorem matching_nodup_step {g : α × LevelTrie α β → List (List α)} (h : Wf multi t)
    (hnodup : ∀ c ∈ t.children, (g c).Nodup)
    (hhead : ∀ c ∈ t.children, ∀ p ∈ g c, p.head? = some c.1) :
    (t.children.flatMap g).Nodup := by
  rw [List.nodup_flatMap]
  refine ⟨hnodup, ?_⟩
  have hkeys : t.children.Pairwise fun c d => c.1 ≠ d.1 := List.pairwise_map.mp h.keys
  refine hkeys.imp_of_mem fun {c d} hc hd hne => ?_
  show List.Disjoint (g c) (g d)
  rw [List.disjoint_left]
  intro p hp hp'
  have heq := (hhead c hc p hp).symm.trans (hhead d hd p hp')
  exact hne (Option.some.inj heq)

end WellFormed

/-! ### The node at a path -/

variable [DecidableEq α]

/-- The child of a key. -/
def lookupChild (k : α) (cs : List (α × LevelTrie α β)) : Option (LevelTrie α β) := cs.lookup k

/-- The node at a path. -/
def find? : List α → LevelTrie α β → Option (LevelTrie α β)
  | [], t => some t
  | k :: ks, t => (lookupChild k t.children).bind (find? ks)

@[simp] theorem find?_nil {t : LevelTrie α β} : t.find? [] = some t := rfl

theorem find?_cons {k : α} {ks : List α} {t : LevelTrie α β} :
    t.find? (k :: ks) = (lookupChild k t.children).bind (find? ks) := rfl

/-- The value at a path; the empty one where there is no node. -/
def content (empty : β) (path : List α) (t : LevelTrie α β) : β :=
  ((t.find? path).map value).getD empty

variable {empty : β} {multi k : α} {ks path : List α} {v : β} {cs : List (α × LevelTrie α β)}
  {t b : LevelTrie α β}

@[simp] theorem content_nil : t.content empty [] = t.value := rfl

theorem content_cons_some (h : lookupChild k t.children = some b) :
    t.content empty (k :: ks) = b.content empty ks := by
  simp [content, find?_cons, h]

theorem content_cons_none (h : lookupChild k t.children = none) :
    t.content empty (k :: ks) = empty := by
  simp [content, find?_cons, h]

/-- Where there is something, there is a node. -/
theorem isSome_find?_of_content {path : List α} (h : t.content empty path ≠ empty) :
    (t.find? path).isSome := by
  rw [content] at h
  rcases hfind : t.find? path with _ | b
  · rw [hfind] at h
    exact absurd rfl h
  · rfl

/-- Behind a node without children there is nothing. -/
theorem content_childless (hvalue : t.value = empty) (hchildren : t.children = []) :
    t.content empty path = empty := by
  cases path with
  | nil => exact hvalue
  | cons k ks =>
    apply content_cons_none
    rw [hchildren]
    rfl

/-! ### Children by their key -/

/-- The child of this key becomes another one. -/
def setChild (k : α) (b : LevelTrie α β) (cs : List (α × LevelTrie α β)) :
    List (α × LevelTrie α β) :=
  cs.map fun c => if c.1 = k then (k, b) else c

theorem map_fst_setChild : (setChild k b cs).map Prod.fst = cs.map Prod.fst := by
  rw [setChild, List.map_map]
  apply List.map_congr_left
  intro c _
  by_cases h : c.1 = k
  · simp [h]
  · simp [h]

theorem lookupChild_cons {j : α} : lookupChild k ((j, b) :: cs) =
    if k = j then some b else lookupChild k cs := by
  rw [lookupChild, List.lookup_cons]
  by_cases h : k = j
  · simp [h]
  · have hne : (k == j) = false := by simpa using h
    rw [hne, if_neg h]
    rfl

theorem lookup_setChild_self (h : (lookupChild k cs).isSome) :
    lookupChild k (setChild k b cs) = some b := by
  induction cs with
  | nil => cases h
  | cons c cs ih =>
    obtain ⟨j, a⟩ := c
    rw [setChild, List.map_cons]
    by_cases hj : j = k
    · rw [if_pos hj, lookupChild_cons, if_pos rfl]
    · rw [lookupChild_cons, if_neg (Ne.symm hj)] at h
      rw [if_neg hj, lookupChild_cons, if_neg (Ne.symm hj)]
      exact ih h

theorem lookup_setChild_ne {j : α} (h : j ≠ k) :
    lookupChild j (setChild k b cs) = lookupChild j cs := by
  induction cs with
  | nil => rfl
  | cons c cs ih =>
    obtain ⟨i, a⟩ := c
    rw [setChild, List.map_cons, ← setChild]
    by_cases hi : i = k
    · rw [if_pos hi, lookupChild_cons, if_neg h, ih, lookupChild_cons, if_neg (hi ▸ h)]
    · rw [if_neg hi, lookupChild_cons, lookupChild_cons, ih]

/-- The child of this key goes. -/
def dropChild (k : α) (cs : List (α × LevelTrie α β)) : List (α × LevelTrie α β) :=
  cs.filter fun c => c.1 ≠ k

theorem lookup_dropChild_self : lookupChild k (dropChild k cs) = none := by
  rw [lookupChild, List.lookup_eq_none_iff]
  intro c hc
  have hne : c.1 ≠ k := by simpa using (List.mem_filter.mp hc).2
  simpa using fun h => hne h.symm

theorem lookup_dropChild_ne {j : α} (h : j ≠ k) :
    lookupChild j (dropChild k cs) = lookupChild j cs := by
  induction cs with
  | nil => rfl
  | cons c cs ih =>
    obtain ⟨i, a⟩ := c
    rw [dropChild, List.filter_cons, ← dropChild]
    by_cases hi : i = k
    · rw [if_neg (by simpa using hi), ih, lookupChild_cons, if_neg (hi ▸ h)]
    · rw [if_pos (by simpa using hi), lookupChild_cons, lookupChild_cons, ih]

theorem lookup_concat {j : α} :
    lookupChild j (cs ++ [(k, b)]) = ((lookupChild j cs).or (if j = k then some b else none)) := by
  rw [lookupChild, List.lookup_append]
  exact congrArg ((cs.lookup j).or ·) lookupChild_cons

theorem mem_of_lookup (h : lookupChild k cs = some b) : (k, b) ∈ cs := by
  induction cs with
  | nil => cases h
  | cons c cs ih =>
    obtain ⟨j, a⟩ := c
    rw [lookupChild_cons] at h
    split_ifs at h with hj
    · cases h
      rw [hj]
      exact List.mem_cons_self
    · exact List.mem_cons_of_mem _ (ih h)

theorem lookup_of_mem (hnodup : (cs.map Prod.fst).Nodup) (h : (k, b) ∈ cs) :
    lookupChild k cs = some b := by
  induction cs with
  | nil => cases h
  | cons c cs ih =>
    obtain ⟨j, a⟩ := c
    rw [List.map_cons, List.nodup_cons] at hnodup
    rw [lookupChild_cons]
    rcases List.mem_cons.mp h with heq | hmem
    · cases heq
      exact if_pos rfl
    · have hk : k ∈ cs.map Prod.fst := List.mem_map_of_mem hmem
      have hne : ¬ k = j := fun heq => hnodup.1 (heq ▸ hk)
      rw [if_neg hne]
      exact ih hnodup.2 hmem

/-- Children that are changed under their keys. -/
theorem lookup_map_children {g : α × LevelTrie α β → α × LevelTrie α β} (hkey : ∀ c, (g c).1 = c.1) :
    lookupChild k (cs.map g) = (lookupChild k cs).map fun b => (g (k, b)).2 := by
  induction cs with
  | nil => rfl
  | cons c cs ih =>
    obtain ⟨j, a⟩ := c
    have hhead : lookupChild k (g (j, a) :: cs.map g) =
        if k = j then some (g (j, a)).2 else lookupChild k (cs.map g) := by
      have hj : (g (j, a)).1 = j := hkey (j, a)
      show lookupChild k (((g (j, a)).1, (g (j, a)).2) :: cs.map g) = _
      rw [hj]
      exact lookupChild_cons
    rw [List.map_cons, hhead, lookupChild_cons, ih]
    split_ifs with hk
    · rw [hk, Option.map_some]
    · rfl

/-! ### Changing a value -/

/-- Change the value at a path; the nodes that are missing on the way are added. -/
def insertAt (empty : β) (f : β → β) : List α → LevelTrie α β → LevelTrie α β
  | [], t => node (f t.value) t.children
  | k :: ks, t =>
    match lookupChild k t.children with
    | some b => node t.value (setChild k (insertAt empty f ks b) t.children)
    | none => node t.value (t.children ++ [(k, insertAt empty f ks (node empty []))])

/-- Change the value at a path, if it is there; the nodes that are then empty are
    removed, from the last one back. -/
def removeAt (isEmpty : β → Bool) (f : β → β) : List α → LevelTrie α β → LevelTrie α β
  | [], t => node (f t.value) t.children
  | k :: ks, t =>
    match lookupChild k t.children with
    | some b =>
      let b := removeAt isEmpty f ks b
      if b.children.isEmpty && isEmpty b.value then node t.value (dropChild k t.children)
      else node t.value (setChild k b t.children)
    | none => t

variable {f : β → β} {isEmpty : β → Bool} {p q : List α}

theorem content_insertAt : (insertAt empty f p t).content empty q =
    if q = p then f (t.content empty p) else t.content empty q := by
  induction p generalizing t q with
  | nil =>
    cases q with
    | nil => rfl
    | cons j js => simp [insertAt, content, find?_cons]
  | cons k ks ih =>
    rcases hk : lookupChild k t.children with _ | b
    · rw [insertAt, hk]
      cases q with
      | nil => simp
      | cons j js =>
        have hkeys : lookupChild j (t.children ++ [(k, insertAt empty f ks (node empty []))]) =
            (lookupChild j t.children).or
              (if j = k then some (insertAt empty f ks (node empty [])) else none) := lookup_concat
        by_cases hj : j = k
        · subst hj
          rw [hk] at hkeys
          have hempty : ∀ path : List α, (node empty [] : LevelTrie α β).content empty path = empty :=
            fun path => content_childless rfl rfl
          rw [content_cons_some (by simpa using hkeys), ih, hempty, hempty, content_cons_none hk,
            content_cons_none hk]
          simp
        · rw [if_neg hj, Option.or_none] at hkeys
          rw [if_neg (by simp [hj]), content, content, find?_cons, find?_cons, children_node, hkeys]
    · rw [insertAt, hk]
      cases q with
      | nil => simp
      | cons j js =>
        by_cases hj : j = k
        · subst hj
          rw [content_cons_some (lookup_setChild_self (by simp [hk])), ih, content_cons_some hk,
            content_cons_some hk]
          simp
        · rw [if_neg (by simp [hj]), content, content, find?_cons, find?_cons, children_node,
            lookup_setChild_ne hj]

theorem content_removeAt (hempty : ∀ v, isEmpty v = true → v = empty) (hf : f empty = empty) :
    (removeAt isEmpty f p t).content empty q =
      if q = p then f (t.content empty p) else t.content empty q := by
  induction p generalizing t q with
  | nil =>
    cases q with
    | nil => rfl
    | cons j js => simp [removeAt, content, find?_cons]
  | cons k ks ih =>
    rcases hk : lookupChild k t.children with _ | b
    · rw [removeAt, hk]
      by_cases hq : q = k :: ks
      · rw [if_pos hq, hq, content_cons_none hk, hf]
      · rw [if_neg hq]
    · rw [removeAt, hk]
      dsimp only
      by_cases hgone : (removeAt isEmpty f ks b).children.isEmpty &&
          isEmpty (removeAt isEmpty f ks b).value
      · rw [if_pos hgone]
        -- the node that goes is empty, and so is everything behind it
        rw [Bool.and_eq_true, List.isEmpty_iff] at hgone
        have hnone : ∀ path, (removeAt isEmpty f ks b).content empty path = empty :=
          fun path => content_childless (hempty _ hgone.2) hgone.1
        cases q with
        | nil => simp
        | cons j js =>
          by_cases hj : j = k
          · subst hj
            have hjs := hnone js
            rw [ih] at hjs
            rw [content_cons_none lookup_dropChild_self, content_cons_some hk, content_cons_some hk]
            simpa using hjs.symm
          · rw [if_neg (by simp [hj]), content, content, find?_cons, find?_cons, children_node,
              lookup_dropChild_ne hj]
      · rw [if_neg hgone]
        cases q with
        | nil => simp
        | cons j js =>
          by_cases hj : j = k
          · subst hj
            rw [content_cons_some (lookup_setChild_self (by simp [hk])), ih, content_cons_some hk,
              content_cons_some hk]
            simp
          · rw [if_neg (by simp [hj]), content, content, find?_cons, find?_cons, children_node,
              lookup_setChild_ne hj]

/-- Where a value was changed with `insertAt` there is a node. -/
theorem find?_insertAt_isSome : ((insertAt empty f p t).find? p).isSome := by
  induction p generalizing t with
  | nil => rfl
  | cons k ks ih =>
    rw [insertAt]
    rcases hk : lookupChild k t.children with _ | b
    · have hlookup : lookupChild k (t.children ++ [(k, insertAt empty f ks (node empty []))]) =
          (lookupChild k t.children).or
            (if k = k then some (insertAt empty f ks (node empty [])) else none) := lookup_concat
      rw [hk, if_pos rfl, Option.none_or] at hlookup
      rw [find?_cons, children_node, hlookup]
      exact ih
    · rw [find?_cons, children_node, lookup_setChild_self (by simp [hk])]
      exact ih

/-! ### Both operations keep a trie well-formed -/

/-- A node stays well-formed when one child does. -/
theorem Wf.setChild (h : Wf multi t) (hb : Wf multi b) (hlast : k = multi → b.children = []) :
    Wf multi (LevelTrie.node v (setChild k b t.children)) := by
  refine .node ?_ ?_ ?_
  · rw [map_fst_setChild]
    exact h.keys
  · intro c hc
    obtain ⟨d, hd, rfl⟩ := List.mem_map.mp hc
    by_cases hk : d.1 = k
    · rw [if_pos hk]
      exact hlast
    · rw [if_neg hk]
      exact h.multiLast d hd
  · intro c hc
    obtain ⟨d, hd, rfl⟩ := List.mem_map.mp hc
    by_cases hk : d.1 = k
    · rw [if_pos hk]
      exact hb
    · rw [if_neg hk]
      exact h.child d hd

theorem Wf.dropChild (h : Wf multi t) :
    Wf multi (LevelTrie.node v (dropChild k t.children)) := by
  refine .node ?_ ?_ ?_
  · exact List.Nodup.sublist (List.filter_sublist.map Prod.fst) h.keys
  · intro c hc
    exact h.multiLast c (List.mem_filter.mp hc).1
  · intro c hc
    exact h.child c (List.mem_filter.mp hc).1

theorem Wf.addChild (h : Wf multi t) (hb : Wf multi b) (hnew : lookupChild k t.children = none)
    (hlast : k = multi → b.children = []) :
    Wf multi (LevelTrie.node v (t.children ++ [(k, b)])) := by
  refine .node ?_ ?_ ?_
  · rw [List.map_append, List.nodup_append]
    refine ⟨h.keys, List.nodup_singleton _, ?_⟩
    intro j hj i hi
    obtain ⟨c, hc, rfl⟩ := List.mem_map.mp hj
    obtain rfl := List.mem_singleton.mp hi
    rintro rfl
    rw [lookup_of_mem h.keys (show (c.1, c.2) ∈ t.children from hc)] at hnew
    cases hnew
  · intro c hc
    rcases List.mem_append.mp hc with hold | hadded
    · exact h.multiLast c hold
    · rw [List.mem_singleton.mp hadded]
      exact hlast
  · intro c hc
    rcases List.mem_append.mp hc with hold | hadded
    · exact h.child c hold
    · rw [List.mem_singleton.mp hadded]
      exact hb

theorem Wf.insertAt (h : Wf multi t) (hp : MultiLast multi p) :
    Wf multi (insertAt empty f p t) := by
  induction p generalizing t with
  | nil => exact .node h.keys h.multiLast h.child
  | cons k ks ih =>
    rw [LevelTrie.insertAt]
    rcases hk : lookupChild k t.children with _ | b
    · refine h.addChild (ih .childless hp.tail) hk ?_
      rintro rfl
      rw [hp.eq_nil]
      rfl
    · have hmem := mem_of_lookup hk
      refine h.setChild (ih (h.child _ hmem) hp.tail) ?_
      rintro rfl
      rw [hp.eq_nil]
      exact h.multiLast _ hmem rfl

/-- Removing a value adds no children. -/
theorem children_removeAt (hnil : t.children = []) :
    (LevelTrie.removeAt isEmpty f p t).children = [] := by
  cases p with
  | nil => exact hnil
  | cons k ks =>
    rw [LevelTrie.removeAt, hnil]
    exact hnil

theorem Wf.removeAt (h : Wf multi t) : Wf multi (removeAt isEmpty f p t) := by
  induction p generalizing t with
  | nil => exact .node h.keys h.multiLast h.child
  | cons k ks ih =>
    rw [LevelTrie.removeAt]
    rcases hk : lookupChild k t.children with _ | b
    · exact h
    · have hmem := mem_of_lookup hk
      dsimp only
      split_ifs with hgone
      · exact h.dropChild
      · refine h.setChild (ih (h.child _ hmem)) ?_
        rintro rfl
        exact children_removeAt (h.multiLast _ hmem rfl)

/-! ### The nodes that accept -/

/-- The paths of the nodes that accept the levels, in the order in which a search
    from the root reaches their subtrees, deeper ones first. -/
def matching (single multi : α) : List α → LevelTrie α β → List (List α)
  | [], t =>
    t.children.flatMap fun c =>
      if c.1 = multi ∧ c.2.children.isEmpty then [[c.1]] else []
  | l :: ls, t =>
    t.children.flatMap fun c =>
      if c.1 = l ∨ c.1 = single then
        (matching single multi ls c.2).map (c.1 :: ·) ++ if ls.isEmpty then [[c.1]] else []
      else if c.1 = multi ∧ c.2.children.isEmpty then [[c.1]] else []

variable {single : α} {levels : List α}

/-- A child is the one its key leads to. -/
theorem exists_child (h : Wf multi t) {P : α × LevelTrie α β → Prop} :
    (∃ c ∈ t.children, c.1 = k ∧ P c) ↔ ∃ b, lookupChild k t.children = some b ∧ P (k, b) := by
  constructor
  · rintro ⟨⟨j, b⟩, hmem, rfl, hp⟩
    exact ⟨b, lookup_of_mem h.keys hmem, hp⟩
  · rintro ⟨b, hlookup, hp⟩
    exact ⟨(k, b), mem_of_lookup hlookup, rfl, hp⟩

/-- A node behind a level is a node behind the child of this level. -/
theorem isSome_find?_cons :
    (t.find? (k :: ks)).isSome ↔ ∃ b, lookupChild k t.children = some b ∧ (b.find? ks).isSome := by
  rw [find?_cons]
  rcases lookupChild k t.children with _ | b
  · simp
  · simp

theorem nil_not_mem_matching : [] ∉ matching single multi levels t := by
  cases levels with
  | nil =>
    rw [matching, List.mem_flatMap]
    rintro ⟨c, -, hmem⟩
    split_ifs at hmem <;> simp at hmem
  | cons l ls =>
    rw [matching, List.mem_flatMap]
    rintro ⟨c, -, hmem⟩
    split_ifs at hmem <;> simp at hmem

theorem cons_mem_matching_nil (h : Wf multi t) :
    k :: ks ∈ matching single multi [] t ↔
      ∃ b, lookupChild k t.children = some b ∧ k = multi ∧ ks = [] := by
  rw [matching, List.mem_flatMap, ← exists_child h (P := fun _ => k = multi ∧ ks = [])]
  refine exists_congr fun c => and_congr_right fun hc => ?_
  split_ifs with hcond
  · simp only [List.mem_singleton, List.cons.injEq]
    constructor
    · rintro ⟨rfl, rfl⟩
      exact ⟨rfl, hcond.1, rfl⟩
    · rintro ⟨rfl, -, rfl⟩
      exact ⟨rfl, rfl⟩
  · simp only [List.not_mem_nil, false_iff]
    rintro ⟨rfl, hmulti, -⟩
    exact hcond ⟨hmulti, by simpa using h.multiLast c hc hmulti⟩

theorem cons_mem_matching_cons (h : Wf multi t) {l : α} {ls : List α} (hl : l ≠ multi)
    (hne : single ≠ multi) :
    k :: ks ∈ matching single multi (l :: ls) t ↔
      ∃ b, lookupChild k t.children = some b ∧ ((k = l ∨ k = single) ∧
        (ks ∈ matching single multi ls b ∨ ks = [] ∧ ls = []) ∨ k = multi ∧ ks = []) := by
  rw [matching, List.mem_flatMap, ← exists_child h (P := fun c => (k = l ∨ k = single) ∧
    (ks ∈ matching single multi ls c.2 ∨ ks = [] ∧ ls = []) ∨ k = multi ∧ ks = [])]
  refine exists_congr fun c => and_congr_right fun hc => ?_
  by_cases hlevel : c.1 = l ∨ c.1 = single
  · rw [if_pos hlevel]
    -- the child is of the level itself, or the wildcard for it
    have hmulti : c.1 ≠ multi := by
      rintro heq
      rcases hlevel with hlevel | hlevel
      · exact hl (hlevel.symm.trans heq)
      · exact hne (hlevel.symm.trans heq)
    rw [List.mem_append, List.mem_map]
    constructor
    · rintro (⟨js, hjs, heq⟩ | hlast)
      · obtain ⟨rfl, rfl⟩ := List.cons.inj heq
        exact ⟨rfl, .inl ⟨hlevel, .inl hjs⟩⟩
      · split_ifs at hlast with hls
        · obtain ⟨rfl, rfl⟩ := List.cons.inj (List.mem_singleton.mp hlast)
          exact ⟨rfl, .inl ⟨hlevel, .inr ⟨rfl, List.isEmpty_iff.mp hls⟩⟩⟩
        · cases hlast
    · rintro ⟨rfl, ⟨-, hmem | ⟨rfl, rfl⟩⟩ | ⟨heq, -⟩⟩
      · exact .inl ⟨ks, hmem, rfl⟩
      · exact .inr (by simp)
      · exact absurd heq hmulti
  · -- the child can only be the wildcard for all that follows
    rw [if_neg hlevel]
    constructor
    · intro hmem
      split_ifs at hmem with hcond
      · obtain ⟨rfl, rfl⟩ := List.cons.inj (List.mem_singleton.mp hmem)
        exact ⟨rfl, .inr ⟨hcond.1, rfl⟩⟩
      · cases hmem
    · rintro ⟨rfl, ⟨hlevel', -⟩ | ⟨hmulti, rfl⟩⟩
      · exact absurd hlevel' hlevel
      · rw [if_pos ⟨hmulti, by simpa using h.multiLast c hc hmulti⟩]
        exact List.mem_singleton.mpr rfl

/-- A path is found when there is a node at it that accepts the levels. -/
theorem mem_matching (h : Wf multi t) (hne : single ≠ multi) (hlevels : multi ∉ levels) :
    p ∈ matching single multi levels t ↔
      p ≠ [] ∧ (t.find? p).isSome ∧ LevelFilter.accepts single multi p levels = true := by
  induction levels generalizing t p with
  | nil =>
    cases p with
    | nil => simp [nil_not_mem_matching]
    | cons k ks =>
      rw [LevelFilter.accepts_nil_right, cons_mem_matching_nil h, isSome_find?_cons]
      constructor
      · rintro ⟨b, hb, rfl, rfl⟩
        exact ⟨by simp, ⟨b, hb, rfl⟩, by simp⟩
      · rintro ⟨-, ⟨b, hb, -⟩, haccepts⟩
        simp only [Bool.and_eq_true, decide_eq_true_eq, List.isEmpty_iff] at haccepts
        exact ⟨b, hb, haccepts.1, haccepts.2⟩
  | cons l ls ih =>
    rw [List.mem_cons, not_or] at hlevels
    cases p with
    | nil => simp [nil_not_mem_matching]
    | cons k ks =>
      rw [cons_mem_matching_cons h (Ne.symm hlevels.1) hne, isSome_find?_cons,
        LevelFilter.accepts_cons]
      simp only [Bool.or_eq_true, Bool.and_eq_true, decide_eq_true_eq, List.isEmpty_iff]
      constructor
      · rintro ⟨b, hb, ⟨hk, hmem | ⟨rfl, rfl⟩⟩ | ⟨rfl, rfl⟩⟩
        · obtain ⟨-, hfind, haccepts⟩ := (ih (h.child _ (mem_of_lookup hb)) hlevels.2).mp hmem
          exact ⟨by simp, ⟨b, hb, hfind⟩, .inr ⟨hk, haccepts⟩⟩
        · exact ⟨by simp, ⟨b, hb, rfl⟩, .inr ⟨hk, rfl⟩⟩
        · exact ⟨by simp, ⟨b, hb, rfl⟩, .inl ⟨rfl, rfl⟩⟩
      · rintro ⟨-, ⟨b, hb, hfind⟩, ⟨rfl, rfl⟩ | ⟨hk, haccepts⟩⟩
        · exact ⟨b, hb, .inr ⟨rfl, rfl⟩⟩
        · refine ⟨b, hb, .inl ⟨hk, ?_⟩⟩
          cases ks with
          | nil => exact .inr ⟨rfl, by simpa using haccepts⟩
          | cons j js =>
            exact .inl ((ih (h.child _ (mem_of_lookup hb)) hlevels.2).mpr
              ⟨by simp, hfind, haccepts⟩)

/-- No path is found twice. -/
theorem matching_nodup (h : Wf multi t) : (matching single multi levels t).Nodup := by
  induction levels generalizing t with
  | nil =>
    refine matching_nodup_step h (fun c _ => ?_) fun c _ p hp => ?_
    · split_ifs
      · exact List.nodup_singleton _
      · exact List.nodup_nil
    · split_ifs at hp
      · rw [List.mem_singleton.mp hp]
        rfl
      · cases hp
  | cons l ls ih =>
    refine matching_nodup_step h (fun c hc => ?_) fun c _ p hp => ?_
    · split_ifs with hlevel hls
      · -- what is behind the child is not the child itself
        rw [List.nodup_append]
        refine ⟨(ih (h.child c hc)).map (List.cons_injective), List.nodup_singleton _, ?_⟩
        intro p hp q hq
        obtain ⟨js, hjs, rfl⟩ := List.mem_map.mp hp
        rw [List.mem_singleton.mp hq]
        rintro heq
        rw [(List.cons.inj heq).2] at hjs
        exact nil_not_mem_matching hjs
      · rw [List.append_nil]
        exact (ih (h.child c hc)).map (List.cons_injective)
      · exact List.nodup_singleton _
      · exact List.nodup_nil
    · split_ifs at hp
      · rcases List.mem_append.mp hp with hp | hp
        · obtain ⟨js, -, rfl⟩ := List.mem_map.mp hp
          rfl
        · rw [List.mem_singleton.mp hp]
          rfl
      · rw [List.append_nil] at hp
        obtain ⟨js, -, rfl⟩ := List.mem_map.mp hp
        rfl
      · rw [List.mem_singleton.mp hp]
        rfl
      · cases hp

end LevelTrie
