/-
  WeeveMQ.Subscriptions

  The tree of subscriptions over whole runs of the broker.

  The steps are what the handlers make of packets that pass their checks:
  subscribing, unsubscribing, the end of a session, and a message that is
  published.  What they should add up to is a table (`Subscriptions`): with
  which QoS a client is subscribed to a filter, and which message is retained
  for a topic.

  - `SubsDb.Consistent`: the invariant of the tree and of what the contexts
    remember of it.
  - `subscriptions_refined`: over every run the tree holds that table.
  - `routing_exact`: a message is handed to the subscriptions whose filters
    `mosquitto_topic_matches_sub` finds to match its topic, once for each, and
    comes onto the lists of a client once at most.
-/

import Mathlib.Data.List.ReduceOption
import Mathlib.Data.Set.List
import WeeveMQ.Database
import WeeveMQ.Lib.Run

namespace WeeveMQ

/-! ## Steps -/

/-- A filter that `handle__subscribe` and `handle__unsubscribe` do not refuse. -/
def IsFilter (sub : CString) : Prop := sub.bytes ≠ [] ∧ mosquittoSubTopicCheck sub = .ok ()

/-- A topic that `handle__publish` does not refuse. -/
def IsTopic (topic : CString) : Prop := topic.bytes ≠ [] ∧ mosquittoPubTopicCheck topic = .ok ()

inductive SubsEvent where
  | subscribe (context : ClientId) (sub : CString) (qos : Nat)
  | unsubscribe (context : ClientId) (sub : CString)
  | cleanSession (context : ClientId)
  | publish (env : SubsEnv) (p : Publication) (effects : List SubEffect)

inductive SubsStep : SubsDb → SubsEvent → SubsDb → Prop
  | subscribe {db db' context sub qos} (checked : IsFilter sub)
      (call : subAdd db context sub qos = some db') : SubsStep db (.subscribe context sub qos) db'
  | unsubscribe {db db' context sub} (checked : IsFilter sub)
      (call : subRemove db context sub = some db') : SubsStep db (.unsubscribe context sub) db'
  | cleanSession {db context} : SubsStep db (.cleanSession context) (subCleanSession db context)
  | publish {db db' env p effects} (checked : IsTopic p.topic)
      (call : subMessagesQueue env p db = some (db', effects)) :
      SubsStep db (.publish env p effects) db'

/-! ## What the steps add up to -/

/-- The subscriptions in force and the retained messages. -/
structure Subscriptions where
  qos : ClientId → CString → Option Nat
  retained : CString → Option Nat

/-- What is retained for a topic after a message for it; an empty one removes it. -/
def Publication.retains (p : Publication) (before : Option Nat) : Option Nat :=
  if p.retain then if p.payloadlen ≠ 0 then some p.stored else none else before

/-- The client's subscription to a filter becomes this one, or is given up. -/
def Subscriptions.set (s : Subscriptions) (context : ClientId) (sub : CString)
    (qos : Option Nat) : Subscriptions :=
  { s with qos := Function.update s.qos context (Function.update (s.qos context) sub qos) }

def Subscriptions.after (s : Subscriptions) : SubsEvent → Subscriptions
  | .subscribe context sub qos => s.set context sub (some qos)
  | .unsubscribe context sub => s.set context sub none
  | .cleanSession context => { s with qos := Function.update s.qos context fun _ => none }
  | .publish _ p _ =>
    { s with retained := Function.update s.retained p.topic (p.retains (s.retained p.topic)) }

/-- The table after these events. -/
def subscriptionsAfter (events : List SubsEvent) : Subscriptions :=
  events.foldl Subscriptions.after ⟨fun _ _ => none, fun _ => none⟩

/-! ## The subscriptions at a node -/

/-- The QoS of the client's subscription at a node. -/
def leafQos (context : ClientId) (subs : List Subleaf) : Option Nat :=
  (subs.find? fun leaf => leaf.context = context).map Subleaf.qos

section Leaves

variable {c d : ClientId} {qos : Nat} {subs : List Subleaf} {leaf : Subleaf}

theorem leafQos_cons :
    leafQos c (leaf :: subs) = if leaf.context = c then some leaf.qos else leafQos c subs := by
  rw [leafQos, List.find?_cons]
  by_cases h : leaf.context = c
  · simp [h]
  · simp [h, leafQos]

theorem hasLeaf_eq : hasLeaf c subs = (leafQos c subs).isSome := by
  rw [hasLeaf, leafQos, Option.isSome_map, Bool.eq_iff_iff, List.find?_isSome, List.any_eq_true]

theorem hasLeaf_iff : hasLeaf c subs = true ↔ c ∈ subs.map Subleaf.context := by
  simp [hasLeaf]

theorem leafQos_addLeaf :
    leafQos c (addLeaf d qos subs) = if c = d then some qos else leafQos c subs := by
  induction subs with
  | nil =>
    rw [addLeaf, leafQos_cons]
    simp only [eq_comm]
  | cons leaf subs ih =>
    rw [addLeaf]
    by_cases hd : leaf.context = d
    · rw [if_pos hd, leafQos_cons, leafQos_cons]
      by_cases hc : c = d
      · rw [if_pos hc, if_pos (hd.trans hc.symm)]
      · rw [if_neg hc, if_neg fun h => hc (h.symm.trans hd)]
        exact (if_neg fun h => hc (h.symm.trans hd)).symm
    · rw [if_neg hd, leafQos_cons, leafQos_cons, ih]
      by_cases hc : leaf.context = c
      · rw [if_pos hc, if_pos hc, if_neg fun h => hd (hc.trans h)]
      · rw [if_neg hc, if_neg hc]

theorem leafQos_eq_none (h : c ∉ subs.map Subleaf.context) : leafQos c subs = none := by
  rw [← Option.not_isSome_iff_eq_none, ← hasLeaf_eq]
  exact fun hc => h (hasLeaf_iff.mp hc)

/-- Removing its only subscription leaves the client without one. -/
theorem leafQos_removeLeaf (h : (subs.map Subleaf.context).Nodup) :
    leafQos c (removeLeaf d subs) = if c = d then none else leafQos c subs := by
  induction subs with
  | nil =>
    rw [removeLeaf]
    split_ifs <;> rfl
  | cons leaf subs ih =>
    rw [List.map_cons, List.nodup_cons] at h
    rw [removeLeaf]
    by_cases hd : leaf.context = d
    · rw [if_pos hd]
      by_cases hc : c = d
      · rw [if_pos hc, leafQos_eq_none]
        rw [hc, ← hd]
        exact h.1
      · rw [if_neg hc, leafQos_cons, if_neg fun heq => hc (heq.symm.trans hd)]
    · rw [if_neg hd, leafQos_cons, leafQos_cons, ih h.2]
      by_cases hc : leaf.context = c
      · rw [if_pos hc, if_pos hc, if_neg fun heq => hd (hc.trans heq)]
      · rw [if_neg hc, if_neg hc]

theorem mem_context_addLeaf : c ∈ (addLeaf d qos subs).map Subleaf.context ↔
    c = d ∨ c ∈ subs.map Subleaf.context := by
  rw [← hasLeaf_iff, ← hasLeaf_iff, hasLeaf_eq, hasLeaf_eq, leafQos_addLeaf]
  split_ifs with h
  · simp [h]
  · simp [h]

theorem nodup_addLeaf (h : (subs.map Subleaf.context).Nodup) :
    ((addLeaf d qos subs).map Subleaf.context).Nodup := by
  induction subs with
  | nil => exact List.nodup_singleton _
  | cons leaf subs ih =>
    rw [addLeaf]
    rw [List.map_cons, List.nodup_cons] at h
    by_cases hd : leaf.context = d
    · rw [if_pos hd, List.map_cons, List.nodup_cons]
      exact h
    · rw [if_neg hd, List.map_cons, List.nodup_cons, mem_context_addLeaf, not_or]
      exact ⟨⟨hd, h.1⟩, ih h.2⟩

theorem removeLeaf_sublist : (removeLeaf d subs).Sublist subs := by
  induction subs with
  | nil => exact List.Sublist.refl _
  | cons leaf subs ih =>
    rw [removeLeaf]
    split_ifs
    · exact List.sublist_cons_self _ _
    · exact ih.cons_cons leaf

theorem nodup_removeLeaf (h : (subs.map Subleaf.context).Nodup) :
    ((removeLeaf d subs).map Subleaf.context).Nodup :=
  h.sublist (removeLeaf_sublist.map Subleaf.context)

end Leaves

/-! ## The slots of a context -/

section Slots

variable {tokens q : List Bytes} {slots : List (Option (List Bytes))}

theorem takeSlot_perm : (takeSlot tokens slots).reduceOption.Perm (tokens :: slots.reduceOption) := by
  induction slots with
  | nil => exact .refl _
  | cons slot slots ih =>
    cases slot with
    | none => exact .refl _
    | some other =>
      rw [takeSlot, List.reduceOption_cons_of_some, List.reduceOption_cons_of_some]
      exact (ih.cons other).trans (.swap _ _ _)

theorem freeSlot_eq : (freeSlot tokens slots).reduceOption = slots.reduceOption.erase tokens := by
  induction slots with
  | nil => rfl
  | cons slot slots ih =>
    rw [freeSlot]
    cases slot with
    | none =>
      rw [if_neg (by simp), List.reduceOption_cons_of_none, List.reduceOption_cons_of_none, ih]
    | some other =>
      by_cases h : other = tokens
      · rw [if_pos (congrArg some h), h]
        simp
      · rw [if_neg (by simpa using h), List.reduceOption_cons_of_some,
          List.reduceOption_cons_of_some, ih, List.erase_cons_tail (by simpa using h)]

theorem mem_takeSlot :
    some q ∈ takeSlot tokens slots ↔ q = tokens ∨ some q ∈ slots := by
  rw [← List.reduceOption_mem_iff, takeSlot_perm.mem_iff, List.mem_cons, List.reduceOption_mem_iff]

theorem mem_freeSlot (h : slots.reduceOption.Nodup) :
    some q ∈ freeSlot tokens slots ↔ q ≠ tokens ∧ some q ∈ slots := by
  rw [← List.reduceOption_mem_iff, freeSlot_eq, h.mem_erase_iff, List.reduceOption_mem_iff]

end Slots

/-! ## The invariant of the tree -/

/-- The two roots, each well-formed, and all there is in them begins with their key. -/
structure SubsDb.Rooted (db : SubsDb) : Prop where
  keys : db.roots.map Prod.fst = [[], ascii "$SYS"]
  wf : ∀ r ∈ db.roots, LevelTrie.Wf [hash] r.2
  inside : ∀ r ∈ db.roots, ∀ q, r.2.content {} q ≠ {} → q.head? = some r.1

section Tree

variable {db : SubsDb} {subhier subhier' : Subhier} {tokens q : List Bytes} {v : SubNode}

theorem SubsDb.Rooted.keysNodup (h : db.Rooted) : (db.roots.map Prod.fst).Nodup := by
  rw [h.keys]
  decide

/-- Tokens that have a root begin with its key. -/
theorem findRoot_mem (h : db.findRoot tokens = some subhier) :
    ∃ token rest, tokens = token :: rest ∧ (token, subhier) ∈ db.roots := by
  cases tokens with
  | nil => cases h
  | cons token rest => exact ⟨token, rest, rfl, LevelTrie.mem_of_lookup h⟩

theorem node_of_findRoot (h : db.findRoot tokens = some subhier) :
    db.node tokens = subhier.content {} tokens := by
  rw [SubsDb.node, h]

/-- What is in a root is the node of its path. -/
theorem SubsDb.Rooted.node_eq (h : db.Rooted) {r : Bytes × Subhier} (hr : r ∈ db.roots)
    (hq : q.head? = some r.1) : db.node q = r.2.content {} q := by
  apply node_of_findRoot
  rw [SubsDb.findRoot, hq]
  exact LevelTrie.lookup_of_mem h.keysNodup hr

/-- Changing one node of a tree changes that node, and no other one. -/
theorem node_setRoot (hroot : db.findRoot tokens = some subhier)
    (hcontent : ∀ q, subhier'.content {} q = if q = tokens then v else subhier.content {} q) :
    (db.setRoot tokens subhier').node q = if q = tokens then v else db.node q := by
  obtain ⟨token, rest, rfl, -⟩ := findRoot_mem hroot
  cases q with
  | nil => rfl
  | cons k ks =>
    by_cases hk : k = token
    · subst hk
      have hlookup : LevelTrie.lookupChild k db.roots = some subhier := hroot
      have hfind : (db.setRoot (k :: rest) subhier').findRoot (k :: ks) = some subhier' :=
        LevelTrie.lookup_setChild_self (by rw [hlookup]; rfl)
      have hold : db.findRoot (k :: ks) = some subhier := hroot
      rw [node_of_findRoot hfind, hcontent, node_of_findRoot hold]
    · have hsame : (db.setRoot (token :: rest) subhier').findRoot (k :: ks) =
          db.findRoot (k :: ks) := LevelTrie.lookup_setChild_ne hk
      rw [SubsDb.node, hsame, ← SubsDb.node, if_neg fun h => hk (List.cons.inj h).1]

/-- The other root, and what has come in the place of this one. -/
theorem mem_setRoot {r : Bytes × Subhier} {token : Bytes} {rest : List Bytes}
    (h : r ∈ (db.setRoot (token :: rest) subhier').roots) :
    r = (token, subhier') ∨ r ∈ db.roots := by
  obtain ⟨s, hs, rfl⟩ := List.mem_map.mp h
  by_cases hk : s.1 = token
  · exact .inl (if_pos hk)
  · exact .inr (by rw [if_neg (show ¬ s.1 = (token :: rest).headD [] from hk)]; exact hs)

theorem SubsDb.Rooted.setRoot (h : db.Rooted) (hroot : db.findRoot tokens = some subhier)
    (hwf : LevelTrie.Wf [hash] subhier')
    (hcontent : ∀ q, subhier'.content {} q = if q = tokens then v else subhier.content {} q) :
    (db.setRoot tokens subhier').Rooted := by
  obtain ⟨token, rest, rfl, hmem⟩ := findRoot_mem hroot
  constructor
  · exact LevelTrie.map_fst_setChild.trans h.keys
  · intro r hr
    rcases mem_setRoot hr with rfl | hold
    · exact hwf
    · exact h.wf r hold
  · intro r hr q hq
    rcases mem_setRoot hr with rfl | hold
    · rw [hcontent] at hq
      split_ifs at hq with heq
      · rw [heq]
        rfl
      · exact h.inside _ hmem q hq
    · exact h.inside r hold q hq

end Tree

theorem dbOpen_rooted : dbOpen.Rooted := by
  constructor
  · rfl
  · intro r hr
    rcases List.mem_pair.mp hr with rfl | rfl
    · exact .childless
    · exact .childless
  · intro r hr q hq
    refine absurd ?_ hq
    rcases List.mem_pair.mp hr with rfl | rfl
    · exact LevelTrie.content_childless rfl rfl
    · exact LevelTrie.content_childless rfl rfl

/-! ## What the functions do to the nodes -/

section Functions

variable {db db' : SubsDb} {context : ClientId} {sub : CString} {qos : Nat} {q tokens : List Bytes}
  {subhier : Subhier}

theorem SubNode.eq_empty {node : SubNode} (h : node.isEmpty = true) : node = {} := by
  obtain ⟨subs, retained⟩ := node
  rw [SubNode.isEmpty, Bool.and_eq_true, List.isEmpty_iff, Option.isNone_iff_eq_none] at h
  obtain ⟨rfl, rfl⟩ : subs = [] ∧ retained = none := h
  rfl

theorem content_addRecurse :
    (subAddRecurse (some (context, qos)) tokens subhier).content {} q = if q = tokens then
      { subhier.content {} tokens with subs := addLeaf context qos (subhier.content {} tokens).subs }
    else subhier.content {} q :=
  LevelTrie.content_insertAt

/-- Making the nodes for a retained message changes nothing that is there. -/
theorem content_addRecurse_none :
    (subAddRecurse none tokens subhier).content {} q = subhier.content {} q := by
  refine LevelTrie.content_insertAt.trans ?_
  split_ifs with h
  · rw [h]
  · rfl

theorem content_removeRecurse :
    (subRemoveRecurse context tokens subhier).content {} q = if q = tokens then
      { subhier.content {} tokens with
        subs := removeLeaf context (subhier.content {} tokens).subs }
    else subhier.content {} q :=
  LevelTrie.content_removeAt (fun _ => SubNode.eq_empty) rfl

/-- `sub__add` puts a subscription at the node of the filter. -/
theorem subAdd_spec (h : db.Rooted) (hsub : IsFilter sub)
    (call : subAdd db context sub qos = some db') :
    db'.Rooted ∧
      (∀ q, db'.node q = if q = subTopicTokenise sub then
        { db.node q with subs := addLeaf context qos (db.node q).subs } else db.node q) ∧
      db'.clientSubs = Function.update db.clientSubs context
        (if hasLeaf context (db.node (subTopicTokenise sub)).subs then db.clientSubs context
          else takeSlot (subTopicTokenise sub) (db.clientSubs context)) := by
  rw [subAdd] at call
  obtain ⟨subhier, hroot, call⟩ := Option.bind_eq_some_iff.mp call
  cases call
  have hfilter := (mosquittoSubTopicCheck_ok_iff.mp hsub.2).1
  have hcontent := fun q => @content_addRecurse context qos q (subTopicTokenise sub) subhier
  obtain ⟨token, rest, htokens, hmem⟩ := findRoot_mem hroot
  refine ⟨?_, ?_, ?_⟩
  · have hrooted := h.setRoot hroot ((h.wf _ hmem).insertAt (multiLast_tokens hfilter)) hcontent
    exact ⟨hrooted.keys, hrooted.wf, hrooted.inside⟩
  · intro q
    refine (node_setRoot hroot hcontent).trans ?_
    split_ifs with heq
    · rw [heq, node_of_findRoot hroot]
    · rfl
  · rw [node_of_findRoot hroot]
    rfl

/-- A client's subscription goes from a node. -/
theorem removeRecurse_spec (h : db.Rooted) (hroot : db.findRoot tokens = some subhier) :
    (db.setRoot tokens (subRemoveRecurse context tokens subhier)).Rooted ∧
      ∀ q, (db.setRoot tokens (subRemoveRecurse context tokens subhier)).node q =
        if q = tokens then { db.node q with subs := removeLeaf context (db.node q).subs }
        else db.node q := by
  have hcontent := fun q => @content_removeRecurse context q tokens subhier
  obtain ⟨token, rest, htokens, hmem⟩ := findRoot_mem hroot
  constructor
  · exact h.setRoot hroot (h.wf _ hmem).removeAt hcontent
  · intro q
    refine (node_setRoot hroot hcontent).trans ?_
    split_ifs with heq
    · rw [heq, node_of_findRoot hroot]
    · rfl

/-- `sub__remove` takes the subscription from the node of the filter. -/
theorem subRemove_spec (h : db.Rooted) (call : subRemove db context sub = some db') :
    db'.Rooted ∧
      (∀ q, db'.node q = if q = subTopicTokenise sub then
        { db.node q with subs := removeLeaf context (db.node q).subs } else db.node q) ∧
      db'.clientSubs = Function.update db.clientSubs context
        (if hasLeaf context (db.node (subTopicTokenise sub)).subs then
          freeSlot (subTopicTokenise sub) (db.clientSubs context) else db.clientSubs context) := by
  rw [subRemove] at call
  obtain ⟨subhier, hroot, call⟩ := Option.bind_eq_some_iff.mp call
  cases call
  obtain ⟨hrooted, hnode⟩ := @removeRecurse_spec db context _ subhier h hroot
  refine ⟨⟨hrooted.keys, hrooted.wf, hrooted.inside⟩, hnode, ?_⟩
  rw [node_of_findRoot hroot]
  rfl

theorem cleanSlots_spec {slots : List (Option (List Bytes))} (h : db.Rooted)
    (honce : slots.reduceOption.Nodup) :
    (cleanSlots context slots db).Rooted ∧
      (∀ q, (cleanSlots context slots db).node q = if some q ∈ slots then
        { db.node q with subs := removeLeaf context (db.node q).subs } else db.node q) ∧
      (cleanSlots context slots db).clientSubs = db.clientSubs := by
  induction slots generalizing db with
  | nil => exact ⟨h, fun q => (if_neg List.not_mem_nil).symm, rfl⟩
  | cons slot slots ih =>
    cases slot with
    | none =>
      obtain ⟨hrooted, hnode, hsubs⟩ := ih h honce
      refine ⟨hrooted, fun q => (hnode q).trans ?_, hsubs⟩
      simp only [List.mem_cons, reduceCtorEq, false_or]
    | some tokens =>
      rw [List.reduceOption_cons_of_some, List.nodup_cons, List.reduceOption_mem_iff] at honce
      rw [cleanSlots]
      rcases hroot : db.findRoot tokens with _ | subhier
      · -- there is nothing at a node that has no root
        obtain ⟨hrooted, hnode, hsubs⟩ := ih h honce.2
        refine ⟨hrooted, fun q => (hnode q).trans ?_, hsubs⟩
        by_cases hq : q = tokens
        · have hempty : db.node tokens = {} := by rw [SubsDb.node, hroot]
          rw [hq, hempty]
          split_ifs <;> rfl
        · simp only [List.mem_cons, Option.some.injEq, hq, false_or]
      · obtain ⟨hrooted, hnode⟩ := @removeRecurse_spec db context tokens subhier h hroot
        obtain ⟨hrooted', hnode', hsubs⟩ := ih hrooted honce.2
        refine ⟨hrooted', fun q => ?_, hsubs⟩
        rw [hnode', hnode]
        by_cases hq : q = tokens
        · rw [hq, if_neg honce.1, if_pos rfl, if_pos List.mem_cons_self]
        · simp only [List.mem_cons, Option.some.injEq, hq, false_or, if_false]

section Messages

variable {env : SubsEnv} {p : Publication} {effects : List SubEffect}

theorem subsProcess_retains {node : SubNode} :
    (subsProcess env p true node).1 = { node with retained := p.retains node.retained } := by
  rw [subsProcess, Publication.retains, Bool.and_true]
  split_ifs <;> rfl

/-- The tree a message is searched in: for one that is retained the nodes of its topic
    are made first. -/
def searchedTree (p : Publication) (subhier : Subhier) : Subhier :=
  if p.retain then subAddRecurse none (subTopicTokenise p.topic) subhier else subhier

theorem content_searchedTree : (searchedTree p subhier).content {} q = subhier.content {} q := by
  rw [searchedTree]
  split_ifs
  · exact content_addRecurse_none
  · rfl

/-- A topic has no wildcards among its tokens. -/
theorem wildcard_not_mem_tokens (htopic : IsTopic p.topic) {token : Bytes}
    (h : ¬ PlainLevel token) : token ∉ subTopicTokenise p.topic := fun hmem =>
  h (plainLevel_tokens (mosquittoPubTopicCheck_ok_iff.mp htopic.2).1 token hmem)

theorem plus_not_mem_tokens (htopic : IsTopic p.topic) : [plus] ∉ subTopicTokenise p.topic :=
  wildcard_not_mem_tokens htopic (by decide)

theorem hash_not_mem_tokens (htopic : IsTopic p.topic) : [hash] ∉ subTopicTokenise p.topic :=
  wildcard_not_mem_tokens htopic (by decide)

theorem searchedTree_wf (h : LevelTrie.Wf [hash] subhier) (htopic : IsTopic p.topic) :
    LevelTrie.Wf [hash] (searchedTree p subhier) := by
  rw [searchedTree]
  split_ifs
  · exact h.insertAt fun hmem => hash_not_mem_tokens htopic (List.dropLast_subset _ hmem)
  · exact h

theorem content_searched (htopic : IsTopic p.topic) :
    (subSearch env p (subTopicTokenise p.topic) true (searchedTree p subhier)).1.content {} q =
      if q = subTopicTokenise p.topic then
        { subhier.content {} (subTopicTokenise p.topic) with
          retained := p.retains (subhier.content {} (subTopicTokenise p.topic)).retained }
      else subhier.content {} q := by
  rw [content_subSearch (plus_not_mem_tokens htopic), subsProcess_retains, content_searchedTree,
    content_searchedTree]
  by_cases hq : q = subTopicTokenise p.topic
  · rw [if_pos hq]
    by_cases hretain : p.retain = true
    · have hfind : ((searchedTree p subhier).find? (subTopicTokenise p.topic)).isSome := by
        rw [searchedTree, if_pos hretain]
        exact LevelTrie.find?_insertAt_isSome
      rw [if_pos ⟨hq, tokens_ne_nil, rfl, hfind⟩]
    · -- a message that is not retained leaves its node as it was
      have hsame : ∀ before, p.retains before = before := fun _ => if_neg hretain
      rw [hsame, hq]
      split_ifs <;> rfl
  · rw [if_neg fun h => hq h.1, if_neg hq]

/-- A level of both, the filter's no wildcard, is the same. -/
theorem head_eq_of_levelsMatch {k token : Bytes} {ks rest : List Bytes} (hk : PlainLevel k)
    (h : levelsMatch (k :: ks) (token :: rest) = true) : k = token := by
  rw [levelsMatch_level hk, Bool.and_eq_true, decide_eq_true_eq] at h
  exact h.1

theorem SubsDb.Rooted.plainKey (h : db.Rooted) {r : Bytes × Subhier} (hr : r ∈ db.roots) :
    PlainLevel r.1 := by
  have hkey : r.1 ∈ db.roots.map Prod.fst := List.mem_map_of_mem hr
  rw [h.keys] at hkey
  rcases List.mem_pair.mp hkey with hr | hr
  · rw [hr]
    decide
  · rw [hr]
    decide

/-- The nodes with subscriptions that a search hands the message to. -/
theorem searched_paths (h : db.Rooted) (htopic : IsTopic p.topic)
    (hroot : db.findRoot (subTopicTokenise p.topic) = some subhier) :
    ∃ paths : List (List Bytes), paths.Nodup ∧
      (∀ q, q ∈ paths ↔
        (db.node q).subs ≠ [] ∧ levelsMatch q (subTopicTokenise p.topic) = true) ∧
      (subSearch env p (subTopicTokenise p.topic) true (searchedTree p subhier)).2.filter
        SubEffect.isInsert = paths.flatMap fun q => processLeaves env p (db.node q).subs := by
  obtain ⟨token, rest, htokens, hmem⟩ := findRoot_mem hroot
  have hwf := searchedTree_wf (h.wf _ hmem) htopic
  have hhash := hash_not_mem_tokens htopic
  have hmatching : ∀ q,
      q ∈ (searchedTree p subhier).matching [plus] [hash] (subTopicTokenise p.topic) ↔
        q ≠ [] ∧ ((searchedTree p subhier).find? q).isSome ∧
          levelsMatch q (subTopicTokenise p.topic) = true :=
    fun q => LevelTrie.mem_matching hwf (by decide) hhash
  -- a node with subscriptions is one of this root as soon as it accepts the topic
  have hhere : ∀ q, (subhier.content {} q).subs ≠ [] → db.node q = subhier.content {} q := by
    intro q hsubs
    exact h.node_eq hmem (h.inside _ hmem q fun hempty => hsubs (by rw [hempty]))
  have hnode : ∀ q, (db.node q).subs ≠ [] → levelsMatch q (subTopicTokenise p.topic) = true →
      db.node q = subhier.content {} q := by
    intro q hsubs haccepts
    rcases hq : db.findRoot q with _ | other
    · rw [SubsDb.node, hq] at hsubs
      exact absurd rfl hsubs
    · obtain ⟨k, ks, rfl, hother⟩ := findRoot_mem hq
      rw [htokens] at haccepts
      have hk := head_eq_of_levelsMatch (h.plainKey hother) haccepts
      exact h.node_eq hmem (congrArg some hk)
  -- the paths are those of the trie, without the nodes that nobody subscribed to
  refine ⟨((searchedTree p subhier).matching [plus] [hash] (subTopicTokenise p.topic)).filter
    fun q => (subhier.content {} q).subs ≠ [], ?_, fun q => ?_, ?_⟩
  · exact (LevelTrie.matching_nodup hwf).filter _
  · rw [List.mem_filter, hmatching, decide_eq_true_eq]
    constructor
    · rintro ⟨⟨-, -, haccepts⟩, hsubs⟩
      exact ⟨by rwa [hhere q hsubs], haccepts⟩
    · rintro ⟨hsubs, haccepts⟩
      rw [hnode q hsubs haccepts] at hsubs
      have hfind : ((searchedTree p subhier).find? q).isSome :=
        LevelTrie.isSome_find?_of_content fun hempty => hsubs (by
          rw [← content_searchedTree, hempty])
      refine ⟨⟨?_, hfind, haccepts⟩, hsubs⟩
      rintro rfl
      rw [htokens] at haccepts
      cases haccepts
  · rw [subSearch_insert hwf]
    generalize (searchedTree p subhier).matching [plus] [hash] (subTopicTokenise p.topic) = paths
    -- a node without subscriptions hands the message to nobody
    induction paths with
    | nil => rfl
    | cons q paths ih =>
      rw [List.flatMap_cons, ih, content_searchedTree, List.filter_cons]
      by_cases hsubs : (subhier.content {} q).subs = []
      · rw [if_neg (by simpa using hsubs), hsubs]
        rfl
      · rw [if_pos (by simpa using hsubs), List.flatMap_cons, hhere q hsubs]

/-- `sub__messages_queue` sets the retained message of the topic, and hands the message to
    the subscribers at the nodes whose tokens accept those of the topic. -/
theorem subMessagesQueue_spec (h : db.Rooted) (htopic : IsTopic p.topic)
    (call : subMessagesQueue env p db = some (db', effects)) :
    db'.Rooted ∧
      (∀ q, db'.node q = if q = subTopicTokenise p.topic then
        { db.node q with retained := p.retains (db.node q).retained } else db.node q) ∧
      db'.clientSubs = db.clientSubs ∧
      ∃ paths : List (List Bytes), paths.Nodup ∧
        (∀ q, q ∈ paths ↔
          (db.node q).subs ≠ [] ∧ levelsMatch q (subTopicTokenise p.topic) = true) ∧
        effects.filter SubEffect.isInsert =
          paths.flatMap fun q => processLeaves env p (db.node q).subs := by
  rw [subMessagesQueue] at call
  obtain ⟨subhier, hroot, call⟩ := Option.bind_eq_some_iff.mp call
  cases call
  obtain ⟨token, rest, htokens, hmem⟩ := findRoot_mem hroot
  have hcontent := fun q => @content_searched q subhier env p htopic
  have hwf := searchedTree_wf (h.wf _ hmem) htopic
  refine ⟨?_, fun q => ?_, rfl, searched_paths h htopic hroot⟩
  · exact h.setRoot hroot (subSearch_wf hwf (hash_not_mem_tokens htopic)) hcontent
  · refine (node_setRoot hroot hcontent).trans ?_
    split_ifs with heq
    · rw [heq, node_of_findRoot hroot]
    · rfl

end Messages

end Functions

/-! ## The invariant of a run -/

/-- Every node with subscriptions belongs to a filter and has one of a client at most; the
    slots of a context are the nodes at which it has one. -/
structure SubsDb.Consistent (db : SubsDb) : Prop extends SubsDb.Rooted db where
  filters : ∀ tokens, (db.node tokens).subs ≠ [] →
    ∃ sub, IsFilter sub ∧ tokens = subTopicTokenise sub
  leavesOnce : ∀ tokens, ((db.node tokens).subs.map Subleaf.context).Nodup
  slots : ∀ context tokens,
    some tokens ∈ db.clientSubs context ↔ hasLeaf context (db.node tokens).subs
  slotsOnce : ∀ context, (db.clientSubs context).reduceOption.Nodup

/-- The tree holds the table. -/
structure HoldsTable (db : SubsDb) (s : Subscriptions) : Prop where
  qos : ∀ context sub, leafQos context (db.node (subTopicTokenise sub)).subs = s.qos context sub
  retained : ∀ topic, (db.node (subTopicTokenise topic)).retained = s.retained topic

theorem dbOpen_node (tokens : List Bytes) : dbOpen.node tokens = {} := by
  rw [SubsDb.node]
  rcases hroot : dbOpen.findRoot tokens with _ | subhier
  · rfl
  · obtain ⟨token, rest, rfl, hmem⟩ := findRoot_mem hroot
    by_contra hne
    rcases List.mem_pair.mp hmem with heq | heq
    · rw [(Prod.mk.inj heq).2] at hne
      exact hne (LevelTrie.content_childless rfl rfl)
    · rw [(Prod.mk.inj heq).2] at hne
      exact hne (LevelTrie.content_childless rfl rfl)

theorem dbOpen_consistent : dbOpen.Consistent where
  toRooted := dbOpen_rooted
  filters tokens h := absurd (by rw [dbOpen_node]) h
  leavesOnce tokens := by
    rw [dbOpen_node]
    exact List.nodup_nil
  slots context tokens := by
    rw [dbOpen_node]
    exact iff_of_false List.not_mem_nil (by simp [hasLeaf])
  slotsOnce context := List.nodup_nil

theorem dbOpen_holds : HoldsTable dbOpen (subscriptionsAfter []) where
  qos context sub := by
    rw [dbOpen_node]
    rfl
  retained topic := by
    rw [dbOpen_node]
    rfl

section Steps

variable {db db' : SubsDb} {s : Subscriptions} {context c : ClientId} {sub : CString} {qos : Nat}
  {q : List Bytes}

/-- Changing the subscription of one client at one node, and a slot with it. -/
theorem consistent_of_leaf {leaf : Option Nat} {f : List Subleaf → List Subleaf}
    {slots : List (Option (List Bytes))} {tokens : List Bytes} (h : db.Consistent)
    (hrooted : db'.Rooted)
    (hnode : ∀ q, db'.node q =
      if q = tokens then { db.node q with subs := f (db.node q).subs } else db.node q)
    (hsubs : db'.clientSubs = Function.update db.clientSubs context slots)
    (hf : ∀ c, leafQos c (f (db.node tokens).subs) =
      if c = context then leaf else leafQos c (db.node tokens).subs)
    (honce : ((f (db.node tokens).subs).map Subleaf.context).Nodup)
    (hfilter : leaf = none ∨ ∃ sub, IsFilter sub ∧ tokens = subTopicTokenise sub)
    (hslots : ∀ q, some q ∈ slots ↔
      if q = tokens then leaf.isSome = true else some q ∈ db.clientSubs context)
    (hslotsOnce : slots.reduceOption.Nodup) : db'.Consistent where
  toRooted := hrooted
  filters q hq := by
    rw [hnode] at hq
    split_ifs at hq with heq
    · subst heq
      rcases hfilter with hnone | hsome
      · -- whoever is still subscribed there was so before
        apply h.filters
        intro hempty
        refine hq ?_
        have hnobody : ∀ c, leafQos c (f (db.node q).subs) = none := by
          intro c
          rw [hf, hempty, hnone]
          split_ifs <;> rfl
        cases hsubs' : f (db.node q).subs with
        | nil => rfl
        | cons leaf rest =>
          have hleaf := hnobody leaf.context
          rw [hsubs', leafQos_cons, if_pos rfl] at hleaf
          cases hleaf
      · exact hsome
    · exact h.filters q hq
  leavesOnce q := by
    rw [hnode]
    split_ifs with heq
    · rw [heq]
      exact honce
    · exact h.leavesOnce q
  slots c q := by
    rw [hsubs, hnode]
    by_cases hc : c = context
    · rw [hc, Function.update_self, hslots]
      split_ifs with heq
      · rw [heq, hasLeaf_eq, hf, if_pos rfl]
      · exact h.slots context q
    · rw [Function.update_of_ne hc]
      split_ifs with heq
      · rw [heq, hasLeaf_eq, hf, if_neg hc, ← hasLeaf_eq]
        exact h.slots c tokens
      · exact h.slots c q
  slotsOnce c := by
    rw [hsubs]
    by_cases hc : c = context
    · rw [hc, Function.update_self]
      exact hslotsOnce
    · rw [Function.update_of_ne hc]
      exact h.slotsOnce c

/-- With the node the table changes for this client and this filter. -/
theorem HoldsTable.set {leaf : Option Nat} {f : List Subleaf → List Subleaf} (h : HoldsTable db s)
    (hnode : ∀ q, db'.node q = if q = subTopicTokenise sub then
      { db.node q with subs := f (db.node q).subs } else db.node q)
    (hf : ∀ c, leafQos c (f (db.node (subTopicTokenise sub)).subs) =
      if c = context then leaf else leafQos c (db.node (subTopicTokenise sub)).subs) :
    HoldsTable db' (s.set context sub leaf) where
  qos c other := by
    rw [hnode, Subscriptions.set]
    dsimp only
    by_cases heq : other = sub
    · rw [heq, if_pos rfl, hf, h.qos]
      by_cases hc : c = context
      · rw [hc, if_pos rfl, Function.update_self, Function.update_self]
      · rw [if_neg hc, Function.update_of_ne hc]
    -- different filters have different nodes, so theirs stay
    · rw [if_neg fun h => heq (subTopicTokenise_injective h), h.qos]
      by_cases hc : c = context
      · rw [hc, Function.update_self, Function.update_of_ne heq]
      · rw [Function.update_of_ne hc]
  retained topic := by
    have hsame : (s.set context sub leaf).retained topic = s.retained topic := rfl
    rw [hnode, hsame, ← h.retained]
    split_ifs <;> rfl

theorem subAdd_step (h : db.Consistent) (hsub : IsFilter sub)
    (call : subAdd db context sub qos = some db') :
    db'.Consistent ∧ (HoldsTable db s → HoldsTable db' (s.set context sub (some qos))) := by
  obtain ⟨hrooted, hnode, hsubs⟩ := subAdd_spec h.toRooted hsub call
  have hknown := h.slots context (subTopicTokenise sub)
  refine ⟨?_, fun hs => hs.set hnode fun c => leafQos_addLeaf⟩
  refine consistent_of_leaf h hrooted hnode hsubs (fun c => leafQos_addLeaf)
    (nodup_addLeaf (h.leavesOnce _)) (.inr ⟨sub, hsub, rfl⟩) (fun q => ?_) ?_
  -- a second subscription to a filter changes the QoS and takes no further slot
  · split_ifs with hleaf hq hq
    · rw [hq]
      exact iff_of_true (hknown.mpr hleaf) rfl
    · rfl
    · rw [hq]
      exact iff_of_true (mem_takeSlot.mpr (.inl rfl)) rfl
    · rw [mem_takeSlot, or_iff_right hq]
  · split_ifs with hleaf
    · exact h.slotsOnce context
    · rw [takeSlot_perm.nodup_iff, List.nodup_cons, List.reduceOption_mem_iff, hknown]
      exact ⟨hleaf, h.slotsOnce context⟩

theorem subRemove_step (h : db.Consistent) (call : subRemove db context sub = some db') :
    db'.Consistent ∧ (HoldsTable db s → HoldsTable db' (s.set context sub none)) := by
  obtain ⟨hrooted, hnode, hsubs⟩ := subRemove_spec h.toRooted call
  have hknown := h.slots context (subTopicTokenise sub)
  have hleafQos := fun c => @leafQos_removeLeaf c context _ (h.leavesOnce (subTopicTokenise sub))
  refine ⟨?_, fun hs => hs.set hnode hleafQos⟩
  refine consistent_of_leaf h hrooted hnode hsubs hleafQos (nodup_removeLeaf (h.leavesOnce _))
    (.inl rfl) (fun q => ?_) ?_
  -- without a subscription there is no slot to free
  · split_ifs with hleaf hq hq
    · rw [mem_freeSlot (h.slotsOnce context)]
      exact iff_of_false (fun hmem => hmem.1 hq) (by simp)
    · rw [mem_freeSlot (h.slotsOnce context), and_iff_right hq]
    · rw [hq, hknown]
      exact iff_of_false hleaf (by simp)
    · rfl
  · split_ifs with hleaf
    · rw [freeSlot_eq]
      exact (h.slotsOnce context).erase _
    · exact h.slotsOnce context

theorem subCleanSession_step (h : db.Consistent) :
    (subCleanSession db context).Consistent ∧
      (HoldsTable db s →
        HoldsTable (subCleanSession db context) (s.after (.cleanSession context))) := by
  obtain ⟨hrooted, hnode, hsubs⟩ := @cleanSlots_spec db context _ h.toRooted (h.slotsOnce context)
  have hnode : ∀ q, (subCleanSession db context).node q = if some q ∈ db.clientSubs context then
      { db.node q with subs := removeLeaf context (db.node q).subs } else db.node q := hnode
  have hclientSubs : (subCleanSession db context).clientSubs =
      Function.update db.clientSubs context [] := by
    show Function.update (cleanSlots context (db.clientSubs context) db).clientSubs context [] = _
    rw [hsubs]
  -- where the context has no slot it has no subscription to lose
  have hleafQos : ∀ c q, leafQos c ((subCleanSession db context).node q).subs =
      if c = context then none else leafQos c (db.node q).subs := by
    intro c q
    rw [hnode]
    split_ifs with hslot hc hc
    · exact (leafQos_removeLeaf (h.leavesOnce q)).trans (if_pos hc)
    · exact (leafQos_removeLeaf (h.leavesOnce q)).trans (if_neg hc)
    · rw [h.slots, hasLeaf_iff] at hslot
      rw [hc]
      exact leafQos_eq_none hslot
    · rfl
  refine ⟨⟨⟨hrooted.keys, hrooted.wf, hrooted.inside⟩, fun q hq => ?_, fun q => ?_,
    fun c q => ?_, fun c => ?_⟩, fun hs => ⟨fun c sub => ?_, fun topic => ?_⟩⟩
  · apply h.filters
    intro hempty
    rw [hnode, hempty] at hq
    split_ifs at hq
    · exact hq rfl
    · exact hq hempty
  · rw [hnode]
    split_ifs
    · exact nodup_removeLeaf (h.leavesOnce q)
    · exact h.leavesOnce q
  · rw [hclientSubs, hasLeaf_eq, hleafQos]
    by_cases hc : c = context
    · rw [hc, Function.update_self, if_pos rfl]
      exact iff_of_false List.not_mem_nil (by simp)
    · rw [Function.update_of_ne hc, if_neg hc, ← hasLeaf_eq]
      exact h.slots c q
  · rw [hclientSubs]
    by_cases hc : c = context
    · rw [hc, Function.update_self]
      exact List.nodup_nil
    · rw [Function.update_of_ne hc]
      exact h.slotsOnce c
  · rw [hleafQos, hs.qos, Subscriptions.after]
    dsimp only
    by_cases hc : c = context
    · rw [if_pos hc, hc, Function.update_self]
    · rw [if_neg hc, Function.update_of_ne hc]
  · rw [hnode, Subscriptions.after, ← hs.retained]
    split_ifs <;> rfl

theorem subMessagesQueue_step {env : SubsEnv} {p : Publication} {effects : List SubEffect}
    (h : db.Consistent) (htopic : IsTopic p.topic)
    (call : subMessagesQueue env p db = some (db', effects)) :
    db'.Consistent ∧ (HoldsTable db s → HoldsTable db' (s.after (.publish env p effects))) := by
  obtain ⟨hrooted, hnode, hclientSubs, -⟩ := subMessagesQueue_spec h.toRooted htopic call
  -- publishing may set the retained message of a node, and no more
  have hsubs : ∀ q, (db'.node q).subs = (db.node q).subs := by
    intro q
    rw [hnode]
    split_ifs <;> rfl
  refine ⟨⟨hrooted, fun q => ?_, fun q => ?_, fun c q => ?_, fun c => ?_⟩,
    fun hs => ⟨fun c sub => ?_, fun topic => ?_⟩⟩
  · rw [hsubs]
    exact h.filters q
  · rw [hsubs]
    exact h.leavesOnce q
  · rw [hsubs, hclientSubs]
    exact h.slots c q
  · rw [hclientSubs]
    exact h.slotsOnce c
  · rw [hsubs]
    exact hs.qos c sub
  · rw [hnode, Subscriptions.after]
    dsimp only
    by_cases heq : topic = p.topic
    · rw [heq, if_pos rfl, Function.update_self, ← hs.retained]
    · rw [if_neg fun h => heq (subTopicTokenise_injective h), Function.update_of_ne heq]
      exact hs.retained topic

end Steps

theorem subscriptions_run {events : List SubsEvent} {db : SubsDb}
    (run : Run SubsStep dbOpen events db) :
    db.Consistent ∧ HoldsTable db (subscriptionsAfter events) := by
  refine run.history (I := fun events db => db.Consistent ∧ HoldsTable db (subscriptionsAfter events))
    ⟨dbOpen_consistent, dbOpen_holds⟩ ?_
  rintro events db event db' ⟨h, hs⟩ step
  rw [subscriptionsAfter, List.foldl_append]
  -- each call keeps the invariant and does to the table what it says
  cases step with
  | subscribe checked call =>
    obtain ⟨h', hs'⟩ := subAdd_step h checked call
    exact ⟨h', hs' hs⟩
  | unsubscribe checked call =>
    obtain ⟨h', hs'⟩ := subRemove_step h call
    exact ⟨h', hs' hs⟩
  | cleanSession =>
    obtain ⟨h', hs'⟩ := subCleanSession_step h
    exact ⟨h', hs' hs⟩
  | publish checked call =>
    obtain ⟨h', hs'⟩ := subMessagesQueue_step h checked call
    exact ⟨h', hs' hs⟩

/-- What every step keeps is kept by a run: the broker's contexts know where they are
    subscribed, no client is subscribed twice at a node, and the tree holds the table of
    what was subscribed to and retained. -/
theorem subscriptions_refined {events : List SubsEvent} {db : SubsDb}
    (run : Run SubsStep dbOpen events db) :
    (∀ context sub, leafQos context (db.node (subTopicTokenise sub)).subs =
      (subscriptionsAfter events).qos context sub) ∧
    (∀ topic, (db.node (subTopicTokenise topic)).retained =
      (subscriptionsAfter events).retained topic) ∧
    (∀ tokens, ((db.node tokens).subs.map Subleaf.context).Nodup) ∧
    ∀ context tokens, some tokens ∈ db.clientSubs context ↔
      ∃ sub, tokens = subTopicTokenise sub ∧
        ((subscriptionsAfter events).qos context sub).isSome := by
  obtain ⟨h, hs⟩ := subscriptions_run run
  refine ⟨hs.qos, hs.retained, h.leavesOnce, fun context tokens => ?_⟩
  rw [h.slots]
  constructor
  · intro hleaf
    have hne : (db.node tokens).subs ≠ [] := by
      intro hempty
      rw [hempty] at hleaf
      cases hleaf
    obtain ⟨sub, -, rfl⟩ := h.filters tokens hne
    exact ⟨sub, rfl, by rw [← hs.qos, ← hasLeaf_eq]; exact hleaf⟩
  · rintro ⟨sub, rfl, hsome⟩
    rw [hasLeaf_eq, hs.qos]
    exact hsome

/-- The client that wants to know about doors, and another one. -/
def siteClient : ClientId := ascii "panel"

def siteGuest : ClientId := ascii "guest"

/-- Everybody may read everything, and nobody is a bridge. -/
def siteEnv : SubsEnv := ⟨false, fun _ => false, fun _ _ => .allowed⟩

/-- A message for `site/door`, to be retained. -/
def sitePublication : Publication := ⟨ascii "lock", siteTopic, 2, true, 7, 4⟩

/-- Both clients subscribe to `site/+/#` and to `site/door`, one of them twice; the other
    one gives up a filter, a message is published, and its session ends. -/
def siteEvents (effects : List SubEffect) : List SubsEvent :=
  [.subscribe siteClient siteFilter 1, .subscribe siteClient siteFilter 2,
    .subscribe siteClient siteTopic 1, .subscribe siteGuest siteTopic 0,
    .subscribe siteGuest siteFilter 0, .unsubscribe siteGuest siteTopic,
    .publish siteEnv sitePublication effects, .cleanSession siteGuest]

def siteCalls : Option (SubsDb × List SubEffect) := do
  let db ← subAdd dbOpen siteClient siteFilter 1
  let db ← subAdd db siteClient siteFilter 2
  let db ← subAdd db siteClient siteTopic 1
  let db ← subAdd db siteGuest siteTopic 0
  let db ← subAdd db siteGuest siteFilter 0
  let db ← subRemove db siteGuest siteTopic
  let (db, effects) ← subMessagesQueue siteEnv sitePublication db
  return (subCleanSession db siteGuest, effects)

theorem siteCalls_run {db : SubsDb} {effects : List SubEffect}
    (h : siteCalls = some (db, effects)) : Run SubsStep dbOpen (siteEvents effects) db := by
  have hfilter : IsFilter siteFilter := ⟨by decide, by decide⟩
  have htopic : IsFilter siteTopic := ⟨by decide, by decide⟩
  unfold siteCalls at h
  obtain ⟨_, h₁, h⟩ := Option.bind_eq_some_iff.mp h
  obtain ⟨_, h₂, h⟩ := Option.bind_eq_some_iff.mp h
  obtain ⟨_, h₃, h⟩ := Option.bind_eq_some_iff.mp h
  obtain ⟨_, h₄, h⟩ := Option.bind_eq_some_iff.mp h
  obtain ⟨_, h₅, h⟩ := Option.bind_eq_some_iff.mp h
  obtain ⟨_, h₆, h⟩ := Option.bind_eq_some_iff.mp h
  obtain ⟨⟨_, _⟩, h₇, h⟩ := Option.bind_eq_some_iff.mp h
  cases h
  have run := Run.single (SubsStep.subscribe hfilter h₁)
  have run := ((run.snoc (.subscribe hfilter h₂)).snoc (.subscribe htopic h₃)).snoc
    (.subscribe htopic h₄)
  have run := (run.snoc (.subscribe hfilter h₅)).snoc (.unsubscribe htopic h₆)
  exact (run.snoc (.publish ⟨by decide, by decide⟩ h₇)).snoc .cleanSession

theorem subscriptions_refined_site : ∃ db effects, siteCalls = some (db, effects) ∧
    leafQos siteClient (db.node (subTopicTokenise siteFilter)).subs = some 2 ∧
    leafQos siteGuest (db.node (subTopicTokenise siteTopic)).subs = none ∧
    (db.node (subTopicTokenise siteTopic)).retained = some 7 ∧
    (∀ tokens, some tokens ∉ db.clientSubs siteGuest) := by
  obtain ⟨⟨db, effects⟩, hcalls⟩ := Option.isSome_iff_exists.mp (show siteCalls.isSome by decide)
  obtain ⟨hqos, hretained, -, hslots⟩ := subscriptions_refined (siteCalls_run hcalls)
  refine ⟨db, effects, hcalls, (hqos _ _).trans (by rfl), (hqos _ _).trans (by rfl),
    (hretained _).trans (by rfl), fun tokens hmem => ?_⟩
  obtain ⟨sub, -, hsome⟩ := (hslots _ _).mp hmem
  have hnone : (subscriptionsAfter (siteEvents effects)).qos siteGuest sub = none := rfl
  rw [hnone] at hsome
  cases hsome

/-! ## Routing -/

/-- The message as this client gets it. -/
def SubEffect.insertFor (context : ClientId) : SubEffect → Option (Nat × Bool)
  | .insert c qos retain => if c = context then some (qos, retain) else none
  | _ => none

/-- The access control lets the client have the message, and it is not the bridge it came from. -/
def MayRead (env : SubsEnv) (p : Publication) (context : ClientId) : Prop :=
  env.aclCheck context p = .allowed ∧ ¬ (env.isBridge context = true ∧ context = p.source)

instance (env : SubsEnv) (p : Publication) (context : ClientId) :
    Decidable (MayRead env p context) := inferInstanceAs (Decidable (_ ∧ _))

section Routing

variable {env : SubsEnv} {p : Publication} {context : ClientId} {subs : List Subleaf}

/-- Only what is handed to clients is handed to this one. -/
theorem filterMap_insertFor (effects : List SubEffect) :
    (effects.filter SubEffect.isInsert).filterMap (SubEffect.insertFor context) =
      effects.filterMap (SubEffect.insertFor context) := by
  rw [List.filterMap_filter]
  refine List.filterMap_congr fun effect _ => ?_
  cases effect <;> rfl

/-- A node hands the message to a client that has a subscription there. -/
theorem processLeaves_insertFor (hacl : ∀ c, env.aclCheck c p ≠ .error)
    (honce : (subs.map Subleaf.context).Nodup) :
    (processLeaves env p subs).filterMap (SubEffect.insertFor context) =
      if MayRead env p context then
        ((leafQos context subs).map fun qos =>
          (msgQos env p ⟨context, qos⟩, env.isBridge context && p.retain)).toList
      else [] := by
  -- on the leaves of the node: the client is one of them at most
  induction subs with
  | nil =>
    rw [processLeaves]
    split_ifs <;> rfl
  | cons leaf subs ih =>
    rw [List.map_cons, List.nodup_cons] at honce
    have ih := ih honce.2
    by_cases hc : leaf.context = context
    · -- its only subscription: behind it there is none
      have hlater : leafQos context subs = none := leafQos_eq_none (hc ▸ honce.1)
      have hrest : (processLeaves env p subs).filterMap (SubEffect.insertFor context) = [] := by
        rw [ih, hlater]
        split_ifs <;> rfl
      rw [leafQos_cons, if_pos hc, processLeaves, ← hc]
      rw [← hc] at hrest
      by_cases hsource : env.isBridge leaf.context = true ∧ leaf.context = p.source
      · rw [if_pos hsource, if_neg fun h => h.2 hsource, hrest]
      · rw [if_neg hsource]
        rcases hcheck : env.aclCheck leaf.context p with _ | _ | _
        · rw [if_pos ⟨hcheck, hsource⟩]
          dsimp only
          rw [List.filterMap_cons, hrest, SubEffect.insertFor, if_pos rfl]
          rfl
        · have hdenied : ¬ MayRead env p leaf.context := by
            rw [MayRead, hcheck]
            exact fun h => absurd h.1 (by decide)
          rw [if_neg hdenied]
          exact hrest
        · exact absurd hcheck (hacl leaf.context)
    · rw [leafQos_cons, if_neg hc, ← ih, processLeaves]
      split_ifs with hsource
      · rfl
      · rcases hcheck : env.aclCheck leaf.context p with _ | _ | _
        · dsimp only
          rw [List.filterMap_cons, SubEffect.insertFor, if_neg hc]
        · rfl
        · exact absurd hcheck (hacl leaf.context)

/-- A topic of one of the two roots; for any other one `sub__messages_queue` asserts. -/
def HasRoot (topic : CString) : Prop :=
  topic.bytes.headD 0 = dollar → (topicLevels topic.bytes).head? = some (ascii "$SYS")

theorem lookupRoot_isSome {db : SubsDb} (h : db.Rooted) (token : Bytes) :
    (LevelTrie.lookupChild token db.roots).isSome ↔ token ∈ [[], ascii "$SYS"] := by
  rw [← h.keys]
  constructor
  · intro hsome
    obtain ⟨subhier, hlookup⟩ := Option.isSome_iff_exists.mp hsome
    exact List.mem_map_of_mem (LevelTrie.mem_of_lookup hlookup)
  · intro hmem
    obtain ⟨r, hr, rfl⟩ := List.mem_map.mp hmem
    rw [LevelTrie.lookup_of_mem h.keysNodup hr]
    rfl

theorem findRoot_isSome {db : SubsDb} {topic : CString} (h : db.Rooted) :
    (db.findRoot (subTopicTokenise topic)).isSome ↔ HasRoot topic := by
  unfold HasRoot
  by_cases hdollar : topic.bytes.headD 0 = dollar
  -- the first level of such a topic is its first token, and there is one root for it
  · obtain ⟨l, ls, hlevels⟩ := head_topicLevels_dollar hdollar
    rw [tokens_of_dollar hdollar, hlevels]
    refine (lookupRoot_isSome h (dollar :: l)).trans ?_
    constructor
    · intro hmem _
      exact congrArg some ((List.mem_pair.mp hmem).resolve_left (List.cons_ne_nil _ _))
    · intro hhead
      exact List.mem_pair.mpr (.inr (Option.some.inj (hhead hdollar)))
  · rw [tokens_of_plain hdollar]
    refine (lookupRoot_isSome h []).trans ?_
    exact iff_of_true (List.mem_cons_self ..) fun h => absurd h hdollar

theorem subMessagesQueue_isSome {db : SubsDb} (h : db.Rooted) :
    (subMessagesQueue env p db).isSome ↔ HasRoot p.topic := by
  rw [← findRoot_isSome h]
  unfold subMessagesQueue
  dsimp only
  cases db.findRoot (subTopicTokenise p.topic) with
  | none => exact Iff.rfl
  | some subhier => exact iff_of_true rfl rfl

end Routing

/-- The calls of `db__message_insert` for a client: one for each of these filters that it
    is subscribed to, with the lower QoS, unless it may not read the message. -/
def insertCalls (env : SubsEnv) (p : Publication) (s : Subscriptions) (filters : List CString)
    (context : ClientId) : List (Nat × Bool) :=
  if MayRead env p context then
    filters.filterMap fun sub => (s.qos context sub).map fun qos =>
      (msgQos env p ⟨context, qos⟩, env.isBridge context && p.retain)
  else []

/-- The message is routed along these filters of the table: each is one that somebody is
    subscribed to and that is found to match the topic, and every client is handed the
    message for every filter of its own.  Of these copies the lists of a client that is
    no bridge get the first that its limits admit, if duplicates are not allowed. -/
structure RoutedAlong (env : SubsEnv) (p : Publication) (s : Subscriptions)
    (effects : List SubEffect) (filters : List CString) : Prop where
  once : filters.Nodup
  matching : ∀ sub, sub ∈ filters ↔ (∃ context, (s.qos context sub).isSome) ∧
    mosquittoTopicMatchesSub sub p.topic = some (.ok true)
  calls : ∀ context, effects.filterMap (SubEffect.insertFor context) =
    insertCalls env p s filters context
  copies : ∀ config stored (c : Context), config.allowDuplicateMessages = false →
    env.isBridge c.id = false → c.id ∉ stored.destIds →
    let calls := insertCalls env p s filters c.id
    ∃ copies, c.Gains (insertRoutes config stored calls c).1 copies ∧
      (∀ m ∈ copies, m.store = stored ∧ m.direction = .mdOut ∧ m.retain = false) ∧
      copies.map ClientMsg.qos = ((calls.map Prod.fst).find? fun qos => c.admits config qos).toList

theorem insertCalls_copies {env : SubsEnv} {p : Publication} {s : Subscriptions}
    {filters : List CString} {config : DbConfig} {stored : MsgStore} {c : Context}
    (hdup : config.allowDuplicateMessages = false) (hbridge : env.isBridge c.id = false)
    (hnew : c.id ∉ stored.destIds) :
    let calls := insertCalls env p s filters c.id
    ∃ copies, c.Gains (insertRoutes config stored calls c).1 copies ∧
      (∀ m ∈ copies, m.store = stored ∧ m.direction = .mdOut ∧ m.retain = false) ∧
      copies.map ClientMsg.qos =
        ((calls.map Prod.fst).find? fun qos => c.admits config qos).toList := by
  refine insertRoutes_first hdup ?_ hnew
  intro r hr
  unfold insertCalls at hr
  split at hr
  · obtain ⟨sub, -, hr⟩ := List.mem_filterMap.mp hr
    obtain ⟨qos, -, rfl⟩ := Option.map_eq_some_iff.mp hr
    rw [hbridge]
    rfl
  · cases hr

/-- After any run, a message that is published is routed along the table, as long as the
    access control gives an answer; and it can be published exactly if its topic belongs
    to one of the two roots. -/
theorem routing_exact {events : List SubsEvent} {db : SubsDb} (env : SubsEnv) (p : Publication)
    (run : Run SubsStep dbOpen events db) (checked : IsTopic p.topic)
    (hacl : ∀ context, env.aclCheck context p ≠ .error) :
    ((subMessagesQueue env p db).isSome ↔ HasRoot p.topic) ∧
      ∀ db' effects, subMessagesQueue env p db = some (db', effects) →
        ∃ filters, RoutedAlong env p (subscriptionsAfter events) effects filters := by
  obtain ⟨h, hs⟩ := subscriptions_run run
  refine ⟨subMessagesQueue_isSome h.toRooted, fun db' effects call => ?_⟩
  obtain ⟨-, -, -, paths, hnodup, hpaths, heffects⟩ := subMessagesQueue_spec h.toRooted checked call
  -- the nodes on the way are those of filters
  have hfilters : paths ∈ Set.range (List.map subTopicTokenise) := by
    rw [Set.range_list_map]
    intro q hq
    obtain ⟨sub, -, rfl⟩ := h.filters q ((hpaths q).mp hq).1
    exact ⟨sub, rfl⟩
  obtain ⟨filters, rfl⟩ := hfilters
  refine ⟨filters, List.Nodup.of_map _ hnodup, fun sub => ?_, fun context => ?_,
    fun _ _ _ hdup hbridge hnew => insertCalls_copies hdup hbridge hnew⟩
  -- a node that accepts the topic is one whose filter `mosquitto_topic_matches_sub`
  -- matches
  · rw [← List.mem_map_of_injective fun _ _ => subTopicTokenise_injective, hpaths]
    have hsome : (db.node (subTopicTokenise sub)).subs ≠ [] ↔
        ∃ context, ((subscriptionsAfter events).qos context sub).isSome := by
      simp only [← hs.qos, ← hasLeaf_eq, hasLeaf_iff]
      constructor
      · intro hne
        obtain ⟨leaf, hleaf⟩ := List.exists_mem_of_ne_nil _ hne
        exact ⟨leaf.context, List.mem_map_of_mem hleaf⟩
      · rintro ⟨context, hcontext⟩ hempty
        rw [hempty] at hcontext
        cases hcontext
    rw [hsome]
    refine and_congr_right fun hsub => ?_
    obtain ⟨other, hother, heq⟩ := h.filters _ (hsome.mpr hsub)
    obtain rfl := subTopicTokenise_injective heq
    rw [mosquittoTopicMatchesSub_eq hother.2 checked.2 hother.1 checked.1,
      levelsMatch_tokens (mosquittoSubTopicCheck_ok_iff.mp hother.2).1]
    simp
  · rw [← filterMap_insertFor, heffects, List.filterMap_flatMap, List.flatMap_map, insertCalls]
    have hnode : ∀ sub, (processLeaves env p (db.node (subTopicTokenise sub)).subs).filterMap
        (SubEffect.insertFor context) = if MayRead env p context then
          (((subscriptionsAfter events).qos context sub).map fun qos =>
            (msgQos env p ⟨context, qos⟩, env.isBridge context && p.retain)).toList
        else [] := by
      intro sub
      rw [processLeaves_insertFor hacl (h.leavesOnce _), hs.qos]
    simp only [hnode]
    split_ifs
    · rw [List.filterMap_eq_flatMap_toList]
    · exact List.flatMap_eq_nil_iff.mpr fun _ _ => rfl

/-- The client is handed the message twice, with the QoS of both subscriptions, and gets
    it once. -/
theorem routing_exact_site : ∃ db effects filters,
    (subMessagesQueue siteEnv sitePublication db).map Prod.snd = some effects ∧
    RoutedAlong siteEnv sitePublication (subscriptionsAfter (siteEvents [])) effects filters ∧
    insertCalls siteEnv sitePublication (subscriptionsAfter (siteEvents [])) filters siteClient =
      [(2, false), (1, false)] := by
  have hcalls : ((siteCalls.bind fun r => subMessagesQueue siteEnv sitePublication r.1).map
      fun r => r.2.filterMap (SubEffect.insertFor siteClient)) = some [(2, false), (1, false)] := by
    decide +kernel
  obtain ⟨⟨db', effects⟩, hboth, hinserts⟩ := Option.map_eq_some_iff.mp hcalls
  obtain ⟨⟨db, before⟩, hcalls, hpublish⟩ := Option.bind_eq_some_iff.mp hboth
  obtain ⟨filters, hrouted⟩ := (routing_exact siteEnv sitePublication (siteCalls_run hcalls)
    ⟨by decide, by decide⟩ fun _ h => by cases h).2 db' effects hpublish
  refine ⟨db, effects, filters, ?_, hrouted, ?_⟩
  · rw [hpublish]
    rfl
  · rw [← hinserts]
    exact (hrouted.calls siteClient).symm

end WeeveMQ
