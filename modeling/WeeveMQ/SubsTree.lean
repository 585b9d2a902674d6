/-
  WeeveMQ.SubsTree

  The subscriptions of the broker: the tree of `subs.c`.

  A topic or filter is cut into tokens, and each token is a level of the tree;
  the tokens of one that does not begin with a dollar start with an empty one.
  Every node has the clients that subscribed to its filter, and the message
  retained for its topic.  A context is its client id, which no two contexts
  with subscriptions share; what it remembers of the nodes it is subscribed at
  are their tokens.

  - `subTopicTokenise_eq`: the tokens are the levels.
  - `levelsMatch_tokens`: what the tokens of a filter accept is what the filter
    matches.
  - `subSearch_insert`, `content_subSearch`: what a search hands out, and what
    it changes.
-/

import WeeveMQ.Topics

namespace WeeveMQ

/-! ## Tokens -/

/-- The loop of `sub__topic_tokenise`, with what it has of a level. -/
def tokeniseLoop (level : Bytes) : Bytes → List Bytes
  | [] => [level]
  | b :: rest => if b = slash then level :: tokeniseLoop [] rest else tokeniseLoop (level ++ [b]) rest

/-- `sub__topic_tokenise`. -/
def subTopicTokenise (subtopic : CString) : List Bytes :=
  let first := subtopic.bytes.headD 0
  (if first ≠ dollar then [[]] else []) ++
    if first = slash then [] :: tokeniseLoop [] subtopic.bytes.tail
    else tokeniseLoop [] subtopic.bytes

/-! ## The tree -/

/-- What stands for a context. -/
abbrev ClientId := Bytes

/-- `struct mosquitto__subleaf`. -/
structure Subleaf where
  context : ClientId
  qos : Nat
  deriving DecidableEq, Repr

/-- `struct mosquitto__subhier` without its links.  `retained` points to a stored
    message. -/
structure SubNode where
  subs : List Subleaf := []
  retained : Option Nat := none
  deriving DecidableEq, Repr

abbrev Subhier := LevelTrie Bytes SubNode

/-- The client subscribes at a node; a second time it only changes its QoS. -/
def addLeaf (context : ClientId) (qos : Nat) : List Subleaf → List Subleaf
  | [] => [{ context := context, qos := qos }]
  | leaf :: rest =>
    if leaf.context = context then { leaf with qos := qos } :: rest
    else leaf :: addLeaf context qos rest

/-- The first subscription of the client at a node goes. -/
def removeLeaf (context : ClientId) : List Subleaf → List Subleaf
  | [] => []
  | leaf :: rest => if leaf.context = context then rest else leaf :: removeLeaf context rest

/-- `sub__add_recurse`; no client means that only the nodes are made. -/
def subAddRecurse (subscriber : Option (ClientId × Nat)) (tokens : List Bytes) (subhier : Subhier) :
    Subhier :=
  subhier.insertAt {} (fun node =>
    match subscriber with
    | some (context, qos) => { node with subs := addLeaf context qos node.subs }
    | none => node) tokens

/-- A node without subscriptions and without a retained message. -/
def SubNode.isEmpty (node : SubNode) : Bool := node.subs.isEmpty && node.retained.isNone

/-- `sub__remove_recurse`. -/
def subRemoveRecurse (context : ClientId) (tokens : List Bytes) (subhier : Subhier) : Subhier :=
  subhier.removeAt SubNode.isEmpty
    (fun node => { node with subs := removeLeaf context node.subs }) tokens

/-- The roots of the tree, and `subs` of every context. -/
structure SubsDb where
  roots : List (Bytes × Subhier)
  clientSubs : ClientId → List (Option (List Bytes))

/-- The roots `db__open` makes, and contexts without subscriptions. -/
def dbOpen : SubsDb where
  roots := [([], .node {} []), (ascii "$SYS", .node {} [])]
  clientSubs := fun _ => []

/-- The root these tokens belong to. -/
def SubsDb.findRoot (db : SubsDb) (tokens : List Bytes) : Option Subhier :=
  tokens.head?.bind fun token => LevelTrie.lookupChild token db.roots

/-- Another tree below that root. -/
def SubsDb.setRoot (db : SubsDb) (tokens : List Bytes) (subhier : Subhier) : SubsDb :=
  { db with roots := LevelTrie.setChild (tokens.headD []) subhier db.roots }

/-- The node of these tokens; an empty one if there is none. -/
def SubsDb.node (db : SubsDb) (tokens : List Bytes) : SubNode :=
  match db.findRoot tokens with
  | some subhier => subhier.content {} tokens
  | none => {}

/-- A context remembers a node in its first free slot, or in a new one. -/
def takeSlot (tokens : List Bytes) : List (Option (List Bytes)) → List (Option (List Bytes))
  | [] => [some tokens]
  | none :: slots => some tokens :: slots
  | some other :: slots => some other :: takeSlot tokens slots

/-- It forgets the node in the first slot that has it. -/
def freeSlot (tokens : List Bytes) : List (Option (List Bytes)) → List (Option (List Bytes))
  | [] => []
  | slot :: slots => if slot = some tokens then none :: slots else slot :: freeSlot tokens slots

def hasLeaf (context : ClientId) (subs : List Subleaf) : Bool :=
  subs.any fun leaf => leaf.context = context

/-- `sub__add`.  There has to be a root. -/
def subAdd (db : SubsDb) (context : ClientId) (sub : CString) (qos : Nat) : Option SubsDb := do
  let tokens := subTopicTokenise sub
  let subhier ← db.findRoot tokens
  let known := hasLeaf context (subhier.content {} tokens).subs
  let db := db.setRoot tokens (subAddRecurse (some (context, qos)) tokens subhier)
  let slots := db.clientSubs context
  return { db with clientSubs :=
    Function.update db.clientSubs context (if known then slots else takeSlot tokens slots) }

/-- `sub__remove`. -/
def subRemove (db : SubsDb) (context : ClientId) (sub : CString) : Option SubsDb := do
  let tokens := subTopicTokenise sub
  let subhier ← db.findRoot tokens
  let known := hasLeaf context (subhier.content {} tokens).subs
  let db := db.setRoot tokens (subRemoveRecurse context tokens subhier)
  let slots := db.clientSubs context
  return { db with clientSubs :=
    Function.update db.clientSubs context (if known then freeSlot tokens slots else slots) }

/-- The loop of `sub__clean_session`: the subscription goes from every node that the
    context remembers, and the node with it when it is then empty. -/
def cleanSlots (context : ClientId) : List (Option (List Bytes)) → SubsDb → SubsDb
  | [], db => db
  | none :: slots, db => cleanSlots context slots db
  | some tokens :: slots, db =>
    match db.findRoot tokens with
    | none => cleanSlots context slots db
    | some subhier =>
      cleanSlots context slots (db.setRoot tokens (subRemoveRecurse context tokens subhier))

/-- `sub__clean_session`. -/
def subCleanSession (db : SubsDb) (context : ClientId) : SubsDb :=
  let db := cleanSlots context (db.clientSubs context) db
  { db with clientSubs := Function.update db.clientSubs context [] }

/-! ## Messages -/

/-- What `mosquitto_acl_check` says. -/
inductive AclResult where
  | allowed
  | denied
  | error
  deriving DecidableEq, Repr

/-- A message on its way to the subscribers: the arguments of `sub__messages_queue`. -/
structure Publication where
  source : ClientId
  topic : CString
  qos : Nat
  retain : Bool
  stored : Nat
  payloadlen : Nat

/-- The configuration, the bridges among the contexts, and the access control. -/
structure SubsEnv where
  upgradeOutgoingQos : Bool
  isBridge : ClientId → Bool
  aclCheck : ClientId → Publication → AclResult

/-- What is done to the stored messages and to the contexts, in order. -/
inductive SubEffect where
  | ref (stored : Nat)
  | deref (stored : Nat)
  /-- `db__message_insert` is called; whether the message comes onto the lists of the
      client is up to that. -/
  | insert (context : ClientId) (qos : Nat) (retain : Bool)
  deriving DecidableEq, Repr

section Search

variable (env : SubsEnv) (p : Publication)

/-- The QoS a subscriber gets the message with. -/
def msgQos (leaf : Subleaf) : Nat :=
  if env.upgradeOutgoingQos then leaf.qos
  else if p.qos > leaf.qos then leaf.qos else p.qos

/-- The loop of `subs__process`. -/
def processLeaves : List Subleaf → List SubEffect
  | [] => []
  | leaf :: rest =>
    if env.isBridge leaf.context ∧ leaf.context = p.source then processLeaves rest
    else
      match env.aclCheck leaf.context p with
      | .denied => processLeaves rest
      | .allowed =>
        .insert leaf.context (msgQos env p leaf) (env.isBridge leaf.context && p.retain) ::
          processLeaves rest
      | .error => []

/-- `subs__process`. -/
def subsProcess (setRetain : Bool) (node : SubNode) : SubNode × List SubEffect :=
  let leaves := processLeaves env p node.subs
  if p.retain && setRetain then
    let old := node.retained.toList.map SubEffect.deref
    if p.payloadlen ≠ 0 then
      ({ node with retained := some p.stored }, old ++ .ref p.stored :: leaves)
    else ({ node with retained := none }, old ++ leaves)
  else (node, leaves)

/-- `sub__search`: the tree, and what is done. -/
def subSearch : List Bytes → Bool → Subhier → Subhier × List SubEffect
  | [], _, subhier =>
    let branches := subhier.children.map fun c =>
      if c.1 = [hash] ∧ c.2.children.isEmpty then (subsProcess env p false c.2.value).2 else []
    (subhier, branches.flatten)
  | token :: tokens, setRetain, subhier =>
    let branches := subhier.children.map fun c =>
      if c.1 = token ∨ c.1 = [plus] then
        -- a retained message is not set where + is in the hierarchy
        let sr := setRetain && c.1 ≠ [plus]
        let (branch, deeper) := subSearch tokens sr c.2
        if tokens.isEmpty then
          let (node, effects) := subsProcess env p sr branch.value
          ((c.1, LevelTrie.node node branch.children), deeper ++ effects)
        else ((c.1, branch), deeper)
      else if c.1 = [hash] ∧ c.2.children.isEmpty then (c, (subsProcess env p false c.2.value).2)
      else (c, [])
    (.node subhier.value (branches.map Prod.fst), (branches.map Prod.snd).flatten)

/-- `sub__messages_queue` without the reference it holds meanwhile. -/
def subMessagesQueue (db : SubsDb) : Option (SubsDb × List SubEffect) := do
  let tokens := subTopicTokenise p.topic
  let subhier ← db.findRoot tokens
  let subhier := if p.retain then subAddRecurse none tokens subhier else subhier
  let (subhier, effects) := subSearch env p tokens true subhier
  return (db.setRoot tokens subhier, effects)

end Search

/-! ## Tokens are levels -/

theorem tokeniseLoop_eq {level rest l : Bytes} {ls : List Bytes} (h : topicLevels rest = l :: ls) :
    tokeniseLoop level rest = (level ++ l) :: ls := by
  induction rest generalizing level l ls with
  | nil =>
    cases h
    simp [tokeniseLoop]
  | cons b rest ih =>
    obtain ⟨l', ls', hl'⟩ := topicLevels_cases rest
    by_cases hb : b = slash
    · subst hb
      rw [topicLevels_slash, hl'] at h
      cases h
      rw [tokeniseLoop, if_pos rfl, ih hl']
      simp
    · rw [topicLevels_cons hb hl'] at h
      cases h
      rw [tokeniseLoop, if_neg hb, ih hl']
      simp

/-- The tokens are the levels, behind an empty one unless there is a dollar. -/
theorem subTopicTokenise_eq (s : CString) :
    subTopicTokenise s = (if s.bytes.headD 0 ≠ dollar then [[]] else []) ++ topicLevels s.bytes := by
  have hloop : ∀ bytes : Bytes, tokeniseLoop [] bytes = topicLevels bytes := by
    intro bytes
    obtain ⟨l, ls, hl⟩ := topicLevels_cases bytes
    rw [tokeniseLoop_eq hl, hl]
    rfl
  rw [subTopicTokenise]
  congr 1
  split_ifs with hslash
  · obtain ⟨rest, hrest⟩ : ∃ rest, s.bytes = slash :: rest := by
      rcases h : s.bytes with _ | ⟨b, rest⟩
      · rw [h] at hslash
        exact absurd hslash (by decide)
      · rw [h] at hslash
        exact ⟨rest, by rw [show b = slash from hslash]⟩
    rw [hrest, List.tail_cons, hloop, topicLevels_slash]
  · exact hloop _

theorem tokens_ne_nil {s : CString} : subTopicTokenise s ≠ [] := by
  rw [subTopicTokenise_eq]
  exact List.append_ne_nil_of_right_ne_nil _ topicLevels_ne_nil

theorem tokens_of_dollar {s : CString} (h : s.bytes.headD 0 = dollar) :
    subTopicTokenise s = topicLevels s.bytes := by
  rw [subTopicTokenise_eq, if_neg (not_not.mpr h), List.nil_append]

theorem tokens_of_plain {s : CString} (h : s.bytes.headD 0 ≠ dollar) :
    subTopicTokenise s = [] :: topicLevels s.bytes := by
  rw [subTopicTokenise_eq, if_pos h, List.singleton_append]

/-- The first level of what begins with a dollar does too. -/
theorem head_topicLevels_dollar {s : Bytes} (h : s.headD 0 = dollar) :
    ∃ l ls, topicLevels s = (dollar :: l) :: ls := by
  cases s with
  | nil => exact absurd h (by decide)
  | cons b s =>
    obtain rfl : b = dollar := h
    obtain ⟨l, ls, hl⟩ := topicLevels_cases s
    exact ⟨l, ls, topicLevels_cons (by decide) hl⟩

theorem topicLevels_injective {s t : Bytes} (h : topicLevels s = topicLevels t) : s = t := by
  have hs : [slash].intercalate (topicLevels s) = s := List.intercalate_splitOn slash
  rw [← hs, h]
  exact List.intercalate_splitOn slash

/-- Strings with the same tokens are the same. -/
theorem subTopicTokenise_injective {s t : CString} (h : subTopicTokenise s = subTopicTokenise t) :
    s = t := by
  have hbytes : s.bytes = t.bytes := by
    by_cases hs : s.bytes.headD 0 = dollar
    · rw [tokens_of_dollar hs] at h
      by_cases ht : t.bytes.headD 0 = dollar
      · rw [tokens_of_dollar ht] at h
        exact topicLevels_injective h
      · obtain ⟨l, ls, hl⟩ := head_topicLevels_dollar hs
        rw [tokens_of_plain ht, hl] at h
        cases h
    · rw [tokens_of_plain hs] at h
      by_cases ht : t.bytes.headD 0 = dollar
      · obtain ⟨l, ls, hl⟩ := head_topicLevels_dollar ht
        rw [tokens_of_dollar ht, hl] at h
        cases h
      · rw [tokens_of_plain ht] at h
        exact topicLevels_injective (List.cons.inj h).2
  cases s
  cases t
  cases hbytes
  rfl

/-- The tokens match where the levels do, under the rule for dollars. -/
theorem levelsMatch_tokens {sub topic : CString} (h : FilterLevels (topicLevels sub.bytes)) :
    levelsMatch (subTopicTokenise sub) (subTopicTokenise topic) =
      (sameDollar sub topic && levelsMatch (topicLevels sub.bytes) (topicLevels topic.bytes)) := by
  rw [sameDollar]
  by_cases hs : sub.bytes.headD 0 = dollar
  · obtain ⟨l, ls, hl⟩ := head_topicLevels_dollar hs
    have hplain : PlainLevel (dollar :: l) := by
      rw [hl] at h
      exact plainLevel_cons.mpr
        ⟨by decide, ((filterLevels_cons_plain (by decide) (by decide)).mp h).1⟩
    by_cases ht : topic.bytes.headD 0 = dollar
    · rw [tokens_of_dollar hs, tokens_of_dollar ht, decide_eq_true (iff_of_true hs ht), Bool.true_and]
    · have hne : ¬ (sub.bytes.headD 0 = dollar ↔ topic.bytes.headD 0 = dollar) :=
        fun hiff => ht (hiff.mp hs)
      rw [tokens_of_dollar hs, tokens_of_plain ht, hl, levelsMatch_level hplain, decide_eq_false hne]
      rfl
  · by_cases ht : topic.bytes.headD 0 = dollar
    · obtain ⟨l, ls, hl⟩ := head_topicLevels_dollar ht
      have hne : ¬ (sub.bytes.headD 0 = dollar ↔ topic.bytes.headD 0 = dollar) :=
        fun hiff => hs (hiff.mpr ht)
      rw [tokens_of_plain hs, tokens_of_dollar ht, hl, levelsMatch_level plainLevel_nil,
        decide_eq_false hne]
      rfl
    · rw [tokens_of_plain hs, tokens_of_plain ht, levelsMatch_level plainLevel_nil,
        decide_eq_true (iff_of_false hs ht)]
      rfl

/-- A filter's tokens end behind a `#`. -/
theorem multiLast_tokens {sub : CString} (h : FilterLevels (topicLevels sub.bytes)) :
    LevelTrie.MultiLast [hash] (subTopicTokenise sub) := by
  have hlevels : ∀ {ls : List Bytes}, FilterLevels ls → LevelTrie.MultiLast [hash] ls := by
    intro ls hls
    induction ls with
    | nil => exact List.not_mem_nil
    | cons l ls ih =>
      cases ls with
      | nil => exact List.not_mem_nil
      | cons l' ls =>
        intro hmem
        rcases List.mem_cons.mp hmem with heq | hmem
        · subst heq
          exact absurd (filterLevels_cons_hash.mp hls).2 (by simp)
        · exact ih hls.2 hmem
  rw [subTopicTokenise_eq]
  split_ifs with hdollar
  · exact hlevels (filterLevels_cons_nil.mpr h)
  · exact hlevels h

/-- A topic's tokens are plain. -/
theorem plainLevel_tokens {topic : CString} (h : PlainLevel topic.bytes) :
    ∀ token ∈ subTopicTokenise topic, PlainLevel token := by
  have hlevels : ∀ {s : Bytes}, PlainLevel s → ∀ level ∈ topicLevels s, PlainLevel level := by
    intro s hs
    induction s with
    | nil => simp [plainLevel_nil]
    | cons b s ih =>
      obtain ⟨hb, hs⟩ := plainLevel_cons.mp hs
      by_cases hslash : b = slash
      · rw [hslash, topicLevels_slash]
        exact List.forall_mem_cons.mpr ⟨plainLevel_nil, ih hs⟩
      · obtain ⟨l, ls, hl⟩ := topicLevels_cases s
        have hrest := ih hs
        rw [hl] at hrest
        rw [topicLevels_cons hslash hl]
        exact List.forall_mem_cons.mpr ⟨plainLevel_cons.mpr ⟨hb, hrest l (by simp)⟩,
          fun level hmem => hrest level (List.mem_cons_of_mem _ hmem)⟩
  rw [subTopicTokenise_eq, List.forall_mem_append]
  refine ⟨?_, hlevels h⟩
  split_ifs
  · exact List.forall_mem_singleton.mpr plainLevel_nil
  · exact List.forall_mem_nil _

/-! ## What a search finds -/

/-- Whether something is handed to a client. -/
def SubEffect.isInsert : SubEffect → Bool
  | .insert _ _ _ => true
  | _ => false

section Search

variable {env : SubsEnv} {p : Publication} {sr : Bool} {t : Subhier} {tokens : List Bytes}
  {node : SubNode}

theorem processLeaves_insert (subs : List Subleaf) :
    (processLeaves env p subs).filter SubEffect.isInsert = processLeaves env p subs := by
  induction subs with
  | nil => rfl
  | cons leaf subs ih =>
    rw [processLeaves]
    split_ifs
    · exact ih
    · cases env.aclCheck leaf.context p with
      | allowed => exact congrArg (_ :: ·) ih
      | denied => exact ih
      | error => rfl

/-- A node hands the message to its subscribers, whatever becomes of its retained one. -/
theorem subsProcess_insert :
    (subsProcess env p sr node).2.filter SubEffect.isInsert = processLeaves env p node.subs := by
  have hold : (node.retained.toList.map SubEffect.deref).filter SubEffect.isInsert = [] := by
    cases node.retained <;> rfl
  rw [subsProcess]
  split_ifs
  · rw [List.filter_append, hold]
    exact processLeaves_insert _
  · rw [List.filter_append, hold]
    exact processLeaves_insert _
  · exact processLeaves_insert _

/-- What a search does for one child. -/
def searchBranch (env : SubsEnv) (p : Publication) (sr : Bool) (token : Bytes) (tokens : List Bytes)
    (c : Bytes × Subhier) : (Bytes × Subhier) × List SubEffect :=
  if c.1 = token ∨ c.1 = [plus] then
    let sr := sr && c.1 ≠ [plus]
    let (branch, deeper) := subSearch env p tokens sr c.2
    if tokens.isEmpty then
      let (node, effects) := subsProcess env p sr branch.value
      ((c.1, LevelTrie.node node branch.children), deeper ++ effects)
    else ((c.1, branch), deeper)
  else if c.1 = [hash] ∧ c.2.children.isEmpty then (c, (subsProcess env p false c.2.value).2)
  else (c, [])

theorem subSearch_cons {token : Bytes} : subSearch env p (token :: tokens) sr t =
    (.node t.value ((t.children.map (searchBranch env p sr token tokens)).map Prod.fst),
      ((t.children.map (searchBranch env p sr token tokens)).map Prod.snd).flatten) := rfl

/-- Below the last level a search changes nothing. -/
theorem subSearch_nil : (subSearch env p [] sr t).1 = t := rfl

/-- A search leaves the value of the node it starts at. -/
theorem subSearch_value : (subSearch env p tokens sr t).1.value = t.value := by
  cases tokens <;> rfl

/-- What the search finds behind a child, it finds at the node. -/
theorem content_child {c : Bytes × Subhier} (h : LevelTrie.Wf [hash] t) (hc : c ∈ t.children)
    (path : List Bytes) : t.content {} (c.1 :: path) = c.2.content {} path :=
  LevelTrie.content_cons_some (LevelTrie.lookup_of_mem h.keys hc)

/-- The messages a search hands out are those of the nodes that accept the tokens. -/
theorem subSearch_insert (h : LevelTrie.Wf [hash] t) :
    (subSearch env p tokens sr t).2.filter SubEffect.isInsert =
      (t.matching [plus] [hash] tokens).flatMap fun path =>
        processLeaves env p (t.content {} path).subs := by
  induction tokens generalizing t sr with
  | nil =>
    rw [subSearch, LevelTrie.matching, ← List.flatMap_def, List.filter_flatMap, List.flatMap_assoc]
    refine List.flatMap_congr fun c hc => ?_
    split_ifs
    · rw [subsProcess_insert, List.flatMap_singleton, content_child h hc, LevelTrie.content_nil]
    · rfl
  | cons token tokens ih =>
    rw [subSearch_cons, LevelTrie.matching, ← List.flatMap_def, List.filter_flatMap,
      List.flatMap_map, List.flatMap_assoc]
    refine List.flatMap_congr fun c hc => ?_
    rw [searchBranch]
    have hdeeper := @ih (sr && c.1 ≠ [plus]) c.2 (h.child c hc)
    by_cases hlevel : c.1 = token ∨ c.1 = [plus]
    · rw [if_pos hlevel, if_pos hlevel, List.flatMap_append, List.flatMap_map]
      have hrest : ((c.2.matching [plus] [hash] tokens).flatMap fun path =>
          processLeaves env p (t.content {} (c.1 :: path)).subs) =
          (subSearch env p tokens (sr && c.1 ≠ [plus]) c.2).2.filter SubEffect.isInsert := by
        rw [hdeeper]
        exact List.flatMap_congr fun path _ => by rw [content_child h hc]
      rw [hrest]
      dsimp only
      split_ifs
      · rw [List.filter_append, subsProcess_insert, subSearch_value, List.flatMap_singleton,
          content_child h hc, LevelTrie.content_nil]
      · rw [List.flatMap_nil, List.append_nil]
    · rw [if_neg hlevel, if_neg hlevel]
      split_ifs
      · rw [subsProcess_insert, List.flatMap_singleton, content_child h hc, LevelTrie.content_nil]
      · rfl

theorem searchBranch_key (token : Bytes) (tokens : List Bytes) (c : Bytes × Subhier) :
    (searchBranch env p sr token tokens c).1.1 = c.1 := by
  rw [searchBranch]
  split_ifs <;> rfl

/-- Only where a retained message may be set does a node change. -/
theorem subsProcess_node (sr : Bool) :
    (subsProcess env p sr node).1 = if sr then (subsProcess env p true node).1 else node := by
  cases sr
  · rw [subsProcess, Bool.and_false]
    rfl
  · rfl

/-- A search changes the node of its tokens, by what becomes of its retained message. -/
theorem content_subSearch (hplus : [plus] ∉ tokens) {q : List Bytes} :
    (subSearch env p tokens sr t).1.content {} q =
      if q = tokens ∧ tokens ≠ [] ∧ sr = true ∧ (t.find? tokens).isSome then
        (subsProcess env p true (t.content {} tokens)).1
      else t.content {} q := by
  -- on the tokens; `sr` is set as long as the path has had no wildcard
  induction tokens generalizing t sr q with
  | nil => simp [subSearch_nil]
  | cons token tokens ih =>
    rw [List.mem_cons, not_or] at hplus
    cases q with
    | nil => simp [subSearch_cons]
    | cons k ks =>
      have hkeys : LevelTrie.lookupChild k
          (t.children.map fun c => (searchBranch env p sr token tokens c).1) =
          (LevelTrie.lookupChild k t.children).map fun b =>
            (searchBranch env p sr token tokens (k, b)).1.2 :=
        LevelTrie.lookup_map_children (searchBranch_key token tokens)
      have hchildren : (subSearch env p (token :: tokens) sr t).1.children =
          t.children.map fun c => (searchBranch env p sr token tokens c).1 := by
        rw [subSearch_cons, List.map_map]
        rfl
      rw [← hchildren] at hkeys
      rcases hk : LevelTrie.lookupChild k t.children with _ | b
      · rw [hk] at hkeys
        rw [LevelTrie.content_cons_none hkeys, LevelTrie.content_cons_none hk, if_neg]
        rintro ⟨heq, -, -, hfind⟩
        rw [← heq, LevelTrie.find?_cons, hk] at hfind
        cases hfind
      · rw [hk, Option.map_some] at hkeys
        rw [LevelTrie.content_cons_some hkeys, LevelTrie.content_cons_some hk]
        by_cases hlevel : k = token ∨ k = [plus]
        · -- the branch is searched, and retains the message unless it is a wildcard
          have hbranch : (searchBranch env p sr token tokens (k, b)).1.2.content {} ks =
              if ks = tokens ∧ (sr && k ≠ [plus]) = true ∧ (b.find? tokens).isSome then
                (subsProcess env p true (b.content {} tokens)).1
              else b.content {} ks := by
            rw [searchBranch, if_pos hlevel]
            dsimp only
            cases tokens with
            | nil =>
              rw [if_pos List.isEmpty_nil, subSearch_nil]
              cases ks with
              | nil =>
                rw [LevelTrie.content_nil, LevelTrie.value_node, subsProcess_node]
                simp
              | cons j js => simp [LevelTrie.content, LevelTrie.find?_cons]
            | cons j js =>
              rw [if_neg (by simp), ih hplus.2]
              simp
          rw [hbranch]
          rcases hlevel with rfl | rfl
          · have hne : k ≠ [plus] := Ne.symm hplus.1
            rw [LevelTrie.find?_cons, hk, LevelTrie.content_cons_some hk]
            simp [hne]
          · have hne : [plus] ≠ token := hplus.1
            simp [hne]
        -- the branch is not searched
        · have hsame : (searchBranch env p sr token tokens (k, b)).1.2 = b := by
            rw [searchBranch, if_neg hlevel]
            split_ifs <;> rfl
          have hne : k ≠ token := fun h => hlevel (.inl h)
          rw [hsame, if_neg (by simp [hne])]

/-- A search keeps the tree well-formed. -/
theorem subSearch_wf (h : LevelTrie.Wf [hash] t) (hhash : [hash] ∉ tokens) :
    LevelTrie.Wf [hash] (subSearch env p tokens sr t).1 := by
  induction tokens generalizing t sr with
  | nil => exact h
  | cons token tokens ih =>
    rw [List.mem_cons, not_or] at hhash
    rw [subSearch_cons, List.map_map]
    refine .node ?_ ?_ ?_
    · rw [List.map_map]
      have hkeys : (Prod.fst ∘ Prod.fst ∘ searchBranch env p sr token tokens) = Prod.fst :=
        funext fun c => searchBranch_key token tokens c
      rw [hkeys]
      exact h.keys
    · intro c hc hkey
      obtain ⟨d, hd, rfl⟩ := List.mem_map.mp hc
      rw [Function.comp_apply] at hkey ⊢
      rw [searchBranch_key] at hkey
      have hlevel : ¬ (d.1 = token ∨ d.1 = [plus]) := by
        rw [hkey, not_or]
        exact ⟨hhash.1, by decide⟩
      have hsame : (searchBranch env p sr token tokens d).1 = d := by
        rw [searchBranch, if_neg hlevel]
        split_ifs <;> rfl
      rw [hsame]
      exact h.multiLast d hd hkey
    · intro c hc
      obtain ⟨d, hd, rfl⟩ := List.mem_map.mp hc
      rw [Function.comp_apply, searchBranch]
      have hdeeper := @ih (sr && d.1 ≠ [plus]) d.2 (h.child d hd) hhash.2
      split_ifs
      · exact hdeeper.setValue
      · exact hdeeper
      · exact h.child d hd
      · exact h.child d hd

end Search

end WeeveMQ
