/-
  WeeveMQ.HeapAccount

  The heap account of the broker, over all its connections.

  `memory_mosq.c` counts the blocks it allocates and takes off the counter
  every block it is given to free.  Decrypted packets and SMP messages come
  from other allocators, and still go to `mosquitto__free`; a reallocation that
  fails takes off a block that stays.  `memcount_eq` says how far the counter
  is off for that, and `heap_account_exact_iff` when it is exact.
-/

import WeeveMQ.TransportBuffers

namespace WeeveMQ

open Call

/-! ## The other allocators of memory_mosq.c -/

section Functions

variable {σ : Type} (env : Setup σ)

/-- What all of them do: test one size against the limit, and allocate another. -/
def testedMalloc (purpose : Purpose) (tested size : Nat) :
    Call (Mosq σ) MosqError (Option Block) := do
  let mosq ← get
  if overLimit env mosq tested then return none
  let mem ← malloc env { purpose := purpose, allocator := .mosquitto } size
  match mem with
  | none => return none
  | some b =>
    modify fun mosq =>
      if tracking env then { mosq with memcount := (mosq.memcount + b.size) % 2 ^ 64 } else mosq
    return some b

/-- `mosquitto__calloc` tests the size of one element. -/
def mosquittoCalloc (purpose : Purpose) (nmemb size : Nat) :
    Call (Mosq σ) MosqError (Option Block) := testedMalloc env purpose size (nmemb * size)

/-- `mosquitto__strdup` tests the length without the terminating zero. -/
def mosquittoStrdup (purpose : Purpose) (length : Nat) :
    Call (Mosq σ) MosqError (Option Block) := testedMalloc env purpose length (length + 1)

/-- `mosquitto__realloc`.  The block is taken off the counter before it is known whether
    there is another one. -/
def mosquittoRealloc (purpose : Purpose) (ptr : Option Block) (size : Nat) :
    Call (Mosq σ) MosqError (Option Block) := do
  let mosq ← get
  if overLimit env mosq size then return none
  let usable := (ptr.map HeapBlock.size).getD 0
  modify fun mosq =>
    if tracking env then
      { mosq with memcount := (mosq.memcount + (2 ^ 64 - usable % 2 ^ 64)) % 2 ^ 64 }
    else mosq
  match ← malloc env { purpose := purpose, allocator := .mosquitto } size with
  | none => return none
  | some b =>
    match ptr with
    | none => pure ()
    | some p => free p
    modify fun mosq =>
      if tracking env then { mosq with memcount := (mosq.memcount + b.size) % 2 ^ 64 } else mosq
    return some b

end Functions

/-! ## The broker -/

/-- The broker: its contexts, the blocks other code of it holds, and the heap they share.
    `short` is what reallocations that failed have taken off the counter; the code has no
    such field. -/
structure BrokerProcess where
  contexts : List (Mosq SmpSession)
  others : List Block
  heap : HeapLog BlockKind
  memcount : Nat
  mallocs : Nat
  short : Nat

namespace BrokerProcess

/-- A context on the heap of the broker. -/
def load (b : BrokerProcess) (m : Mosq SmpSession) : Mosq SmpSession :=
  { m with heap := b.heap, memcount := b.memcount, mallocs := b.mallocs }

/-- The broker with the heap as a call has left it. -/
def store (b : BrokerProcess) (m : Mosq SmpSession) : BrokerProcess :=
  { b with heap := m.heap, memcount := m.memcount, mallocs := m.mallocs }

/-- The counter is the usable size of the live blocks of `memory_mosq.c`. -/
def Exact (b : BrokerProcess) : Prop := b.memcount = b.heap.liveSize isTracked

/-- A block of `malloc` or of the SMP library that goes to `mosquitto__free`. -/
def isForeign (b : Block) : Bool := isRefunded b && !isTracked b

end BrokerProcess

/-- What happens in the broker. -/
inductive BrokerProcessEvent where
  | context (event : BrokerEvent)
  | accept
  | cleanup
  | allocate
  | reallocate
  | release

/-- A step of one context, a context that is accepted or cleaned up, and what other code
    of the broker does with the allocators. -/
inductive BrokerProcessStep (platform : Platform) (handlers : Handlers) (b : BrokerProcess) :
    BrokerProcessEvent → BrokerProcess → Prop
  | context {before after m event m'} (mem : b.contexts = before ++ m :: after)
      (step : BrokerStep platform handlers (b.load m) event m') :
      BrokerProcessStep platform handlers b (.context event)
        { b.store m' with contexts := before ++ m' :: after }
  | accept {m} (accepted : Accepted m) (current : m.currentOutPacket = none)
      (queue : m.outPacket = []) :
      BrokerProcessStep platform handlers b .accept { b with contexts := b.contexts ++ [m] }
  | cleanup {before after m r m'} (mem : b.contexts = before ++ m :: after)
      (call : contextCleanup platform handlers (b.load m) = some (r, m')) :
      BrokerProcessStep platform handlers b .cleanup { b.store m' with contexts := before ++ after }
  | malloc {m size mem m'}
      (call : mosquittoMalloc (platform.broker handlers) .other size (b.load m) =
        some (.ok mem, m')) :
      BrokerProcessStep platform handlers b .allocate
        { b.store m' with others := mem.toList ++ b.others }
  | calloc {m nmemb size mem m'}
      (call : mosquittoCalloc (platform.broker handlers) .other nmemb size (b.load m) =
        some (.ok mem, m')) :
      BrokerProcessStep platform handlers b .allocate
        { b.store m' with others := mem.toList ++ b.others }
  | strdup {m length mem m'}
      (call : mosquittoStrdup (platform.broker handlers) .other length (b.load m) =
        some (.ok mem, m')) :
      BrokerProcessStep platform handlers b .allocate
        { b.store m' with others := mem.toList ++ b.others }
  | realloc {m ptr rest size block m'} (mem : b.others.Perm (Option.toList ptr ++ rest))
      (call : mosquittoRealloc (platform.broker handlers) .other ptr size (b.load m) =
        some (.ok (some block), m')) :
      BrokerProcessStep platform handlers b .reallocate { b.store m' with others := block :: rest }
  | reallocFails {m ptr rest size m'} (mem : b.others.Perm (Option.toList ptr ++ rest))
      (call : mosquittoRealloc (platform.broker handlers) .other ptr size (b.load m) =
        some (.ok none, m')) :
      BrokerProcessStep platform handlers b .reallocate
        { b.store m' with
          short := b.short +
            if overLimit (platform.broker handlers) (b.load m) size then 0
            else (ptr.map HeapBlock.size).getD 0 }
  | free {m block rest r m'} (mem : b.others.Perm (block :: rest))
      (call : mosquittoFree (platform.broker handlers) (some block) (b.load m) = some (r, m')) :
      BrokerProcessStep platform handlers b .release { b.store m' with others := rest }

/-- The broker before it has allocated anything. -/
structure Started (b : BrokerProcess) : Prop where
  contexts : b.contexts = []
  others : b.others = []
  heap : b.heap = []
  memcount : b.memcount = 0
  short : b.short = 0

/-! ## The ledger of the broker -/

section Accounting

variable {platform : Platform} {handlers : Handlers} {b b' : BrokerProcess}

theorem Ledger.testedMalloc {σ : Type} {env : Setup σ} {start m m' : Mosq σ}
    {held lost : List Block} {purpose : Purpose} {tested size : Nat} {mem : Option Block}
    (h : Ledger env start m held lost)
    (hm : testedMalloc env purpose tested size m = some (.ok mem, m')) :
    Ledger env start m' (mem.toList ++ held) lost := by
  unfold WeeveMQ.testedMalloc at hm
  rw [bind_of_ok get_apply] at hm
  split at hm
  · cases hm
    exact h
  rcases malloc_cases env { purpose := purpose, allocator := .mosquitto } size m with
    hnone | ⟨b, hid, hkind, -, hfits, hsome⟩
  · rw [bind_of_ok hnone] at hm
    cases hm
    exact h.congr rfl rfl
  · rw [bind_of_ok hsome] at hm
    dsimp only at hm
    rw [bind_of_ok modify_apply, pure_apply] at hm
    have htracked : isTracked b = true := by simp [isTracked, hkind]
    cases hm
    refine h.allocTracked hid htracked ?_ (fun ht => ?_) hfits
    · split <;> rfl
    · rw [if_pos ht]

/-- How a reallocation ends: refused by the limit, failed, or with a block for the old one. -/
theorem mosquittoRealloc_cases {σ : Type} {env : Setup σ} {m m' : Mosq σ} {purpose : Purpose}
    {ptr mem : Option Block} {size : Nat}
    (h : mosquittoRealloc env purpose ptr size m = some (.ok mem, m')) :
    (mem = none ∧ overLimit env m size ∧ m' = m) ∨
      (mem = none ∧ ¬ overLimit env m size ∧ m'.heap = m.heap ∧
        (tracking env = true → m'.memcount =
          (m.memcount + (2 ^ 64 - (ptr.map HeapBlock.size).getD 0 % 2 ^ 64)) % 2 ^ 64)) ∨
      ∃ b : Block, mem = some b ∧ b.id = m.heap.length ∧ isTracked b = true ∧
        m.heap.liveSize (fun _ => true) + b.size < 2 ^ 64 ∧
        m'.heap = (ptr.map HeapEvent.free).toList ++ .alloc b :: m.heap ∧
        (tracking env = true → m'.memcount =
          ((m.memcount + (2 ^ 64 - (ptr.map HeapBlock.size).getD 0 % 2 ^ 64)) % 2 ^ 64 + b.size) %
            2 ^ 64) := by
  unfold mosquittoRealloc at h
  rw [bind_of_ok get_apply] at h
  split at h
  · next hover =>
    cases h
    exact .inl ⟨rfl, hover, rfl⟩
  next hlimit =>
  dsimp only at h
  rw [bind_of_ok modify_apply] at h
  -- `m₁` is the state behind the counter, which loses the old block before `realloc` is
  -- asked
  obtain ⟨m₁, hm₁⟩ : ∃ m₁ : Mosq σ, m₁ = if tracking env = true then
      { m with memcount := (m.memcount +
        (2 ^ 64 - (ptr.map HeapBlock.size).getD 0 % 2 ^ 64)) % 2 ^ 64 } else m := ⟨_, rfl⟩
  rw [← hm₁] at h
  have hheap₁ : m₁.heap = m.heap := by
    rw [hm₁]
    split <;> rfl
  have hcount₁ : tracking env = true → m₁.memcount =
      (m.memcount + (2 ^ 64 - (ptr.map HeapBlock.size).getD 0 % 2 ^ 64)) % 2 ^ 64 := by
    intro ht
    rw [hm₁, if_pos ht]
  rcases malloc_cases env { purpose := purpose, allocator := .mosquitto } size m₁ with
    hnone | ⟨b, hid, hkind, -, hfits, hsome⟩
  · rw [bind_of_ok hnone] at h
    cases h
    exact .inr (.inl ⟨rfl, hlimit, hheap₁, hcount₁⟩)
  · rw [bind_of_ok hsome] at h
    rw [hheap₁] at hid hfits
    have htracked : isTracked b = true := by simp [isTracked, hkind]
    refine .inr (.inr ⟨b, ?_⟩)
    -- `realloc` of NULL is a new block
    cases ptr with
    | none =>
      dsimp only at h
      rw [bind_of_ok modify_apply, pure_apply] at h
      cases h
      refine ⟨rfl, hid, htracked, hfits, ?_, fun ht => ?_⟩
      · rw [← hheap₁]
        split <;> rfl
      · rw [if_pos ht, ← hcount₁ ht]
    | some p =>
      dsimp only at h
      unfold free at h
      rw [bind_of_ok modify_apply, bind_of_ok modify_apply, pure_apply] at h
      cases h
      refine ⟨rfl, hid, htracked, hfits, ?_, fun ht => ?_⟩
      · rw [← hheap₁]
        split <;> rfl
      · rw [if_pos ht, ← hcount₁ ht]

/-- Only a counter that is kept matters. -/
theorem Ledger.recount {σ : Type} {env : Setup σ} {start m m' : Mosq σ} {held lost : List Block}
    (h : Ledger env start m held lost) (hheap : m'.heap = m.heap)
    (hcount : tracking env = true → m'.memcount = m.memcount) : Ledger env start m' held lost := by
  obtain ⟨m₁, hm₁⟩ : ∃ m₁ : Mosq σ, m₁ = { m' with memcount := m.memcount } := ⟨_, rfl⟩
  have h₁ : Ledger env start m₁ held lost := by
    rw [hm₁]
    exact h.congr hheap rfl
  refine ⟨?_, h₁.refunded, fun ht hs => ?_, ?_, ?_⟩
  · have := h₁.owns
    rwa [hm₁] at this
  · have := h₁.counted ht hs
    rw [hm₁] at this
    rw [hcount ht]
    exact this
  · have := h₁.fits
    rwa [hm₁] at this
  · have := h₁.grows
    rwa [hm₁] at this

/-- A reallocation that succeeds is an allocation and a release. -/
theorem Ledger.realloc {σ : Type} {env : Setup σ} {start m m' : Mosq σ} {held lost : List Block}
    {purpose : Purpose} {ptr : Option Block} {size : Nat} {b : Block}
    (h : Ledger env start m (ptr.toList ++ held) lost)
    (hm : mosquittoRealloc env purpose ptr size m = some (.ok (some b), m')) :
    Ledger env start m' (b :: held) lost := by
  rcases mosquittoRealloc_cases hm with ⟨hb, -⟩ | ⟨hb, -⟩ |
    ⟨c, hb, hid, htracked, hfits, hheap, hcount⟩
  · cases hb
  · cases hb
  cases hb
  obtain ⟨m₁, hm₁⟩ : ∃ m₁ : Mosq σ, m₁ = { m with
      heap := .alloc b :: m.heap
      memcount := (m.memcount + b.size) % 2 ^ 64 } := ⟨_, rfl⟩
  have h₁ : Ledger env start m₁ (b :: (ptr.toList ++ held)) lost := by
    rw [hm₁]
    exact h.allocTracked hid htracked rfl (fun _ => rfl) hfits
  have h₂ := (h₁.perm List.perm_middle.symm).freed
  refine h₂.recount ?_ fun ht => ?_
  · rw [hheap, hm₁]
    cases ptr <;> rfl
  · rw [hcount ht, hm₁]
    cases ptr with
    | none =>
      show ((m.memcount + (2 ^ 64 - 0 % 2 ^ 64)) % 2 ^ 64 + b.size) % 2 ^ 64 =
        (m.memcount + b.size) % 2 ^ 64
      omega
    | some p =>
      rw [Mosq.freed]
      dsimp only
      rw [if_pos ht]
      show ((m.memcount + (2 ^ 64 - p.size % 2 ^ 64)) % 2 ^ 64 + b.size) % 2 ^ 64 =
        ((m.memcount + b.size) % 2 ^ 64 + (2 ^ 64 - p.size % 2 ^ 64)) % 2 ^ 64
      omega

/-- A client without blocks, whose counter is so much below zero. -/
def noBlocks (short : Nat) (m : Mosq SmpSession) : Mosq SmpSession :=
  { m with heap := [], memcount := (2 ^ 64 - short % 2 ^ 64) % 2 ^ 64 }

/-- A reallocation that fails takes a block off the counter that stays. -/
theorem Ledger.reallocFails {env : Setup SmpSession} {k m m' : Mosq SmpSession}
    {held lost : List Block} {purpose : Purpose} {ptr : Option Block} {size short : Nat}
    (h : Ledger env (noBlocks short k) m held lost)
    (hm : mosquittoRealloc env purpose ptr size m = some (.ok none, m')) :
    Ledger env (noBlocks (short + if overLimit env m size then 0
      else (ptr.map HeapBlock.size).getD 0) k) m' held lost := by
  rcases mosquittoRealloc_cases hm with ⟨-, hover, rfl⟩ | ⟨-, hlimit, hheap, hcount⟩ | ⟨c, hb, -⟩
  · rw [if_pos hover]
    exact h
  · rw [if_neg hlimit]
    have haccount : m'.account = m.account := by rw [Mosq.account, Mosq.account, hheap]
    refine ⟨?_, h.refunded, fun ht _ => ?_, fun hs => ?_, List.nil_suffix⟩
    · rw [hheap]
      exact h.owns
    · have hm := h.counted ht (Nat.mod_lt _ (by decide))
      rw [hcount ht, haccount]
      change (_ : Int) = ((((2 ^ 64 - short % 2 ^ 64) % 2 ^ 64 : Nat) : Int) + m.account - 0) %
        2 ^ 64 at hm
      change (_ : Int) = ((((2 ^ 64 - (short + (ptr.map HeapBlock.size).getD 0) % 2 ^ 64) % 2 ^ 64 :
        Nat) : Int) + m.account - 0) % 2 ^ 64
      omega
    · rw [hheap]
      exact h.fits hs
  · cases hb

/-! ### Steps -/

/-- What holds of every context of the broker. -/
structure Serves (platform : Platform) (handlers : Handlers) (m : Mosq SmpSession) : Prop where
  gate : Gate platform handlers (fun _ => True) m
  ready : m.sock = true → ReadyToRead m.inPacket
  frame : ∀ b ∈ m.inPacket.frameBlocks, isReceived b = true

/-- The blocks that contexts hold. -/
def heldBy (contexts : List (Mosq SmpSession)) : List Block := contexts.flatMap Mosq.blocks

/-- The ledger of the broker. -/
structure Accounted (platform : Platform) (handlers : Handlers) (b : BrokerProcess) : Prop where
  contexts : ∀ m ∈ b.contexts, Serves platform handlers m
  ledger : ∀ m, ∃ lost, Ledger (platform.broker handlers) (noBlocks b.short m) (b.load m)
    (heldBy b.contexts ++ b.others) lost

/-- The heap of the broker is the same for all contexts. -/
theorem Accounted.ofLedger {k m : Mosq SmpSession} {lost : List Block}
    (hcontexts : ∀ m ∈ b.contexts, Serves platform handlers m)
    (h : Ledger (platform.broker handlers) (noBlocks b.short k) m (heldBy b.contexts ++ b.others)
      lost) (hheap : b.heap = m.heap) (hcount : b.memcount = m.memcount) :
    Accounted platform handlers b := by
  refine ⟨hcontexts, fun k' => ⟨lost, ?_⟩⟩
  have h' : Ledger (platform.broker handlers) (noBlocks b.short k) (b.load k')
      (heldBy b.contexts ++ b.others) lost := h.congr hheap hcount
  exact ⟨h'.owns, h'.refunded, h'.counted, h'.fits, h'.grows⟩

theorem Gate.load {m : Mosq SmpSession} (h : Gate platform handlers (fun _ => True) m) :
    Gate platform handlers (fun _ => True) (b.load m) :=
  ⟨h.bridge, h.made, h.closed,
    fun hstate => ⟨(h.connected hstate).key, (h.connected hstate).connect⟩,
    fun hsock => ⟨(h.opened hsock).packets, (h.opened hsock).stage.imp id fun hs =>
      ⟨hs.1, hs.2.key, hs.2.connect⟩⟩⟩

/-- The blocks of one context and all others. -/
theorem heldBy_perm {before after : List (Mosq SmpSession)} {m : Mosq SmpSession}
    {others : List Block} : (heldBy (before ++ m :: after) ++ others).Perm
      (m.blocks ++ (heldBy (before ++ after) ++ others)) := by
  unfold heldBy
  rw [List.flatMap_append, List.flatMap_cons, List.flatMap_append, List.append_assoc,
    List.append_assoc, List.append_assoc]
  exact List.perm_append_comm_assoc ..

theorem accounted_started (h : Started b) : Accounted platform handlers b := by
  refine ⟨?_, fun m => ⟨[], ?_, ?_, ?_, ?_, ?_⟩⟩
  · rw [h.contexts]
    exact List.forall_mem_nil _
  · rw [h.contexts, h.others]
    show HeapLog.Owns b.heap []
    rw [h.heap]
    exact .nil
  · rw [h.contexts, h.others]
    exact List.forall_mem_nil _
  · intro _ _
    show (b.memcount : Int) = _
    rw [h.memcount, h.short]
    show (0 : Int) = (0 + HeapLog.account isTracked isRefunded b.heap - 0) % 2 ^ 64
    rw [h.heap]
    rfl
  · intro hs
    show b.heap.liveSize isTracked < 2 ^ 64
    rw [h.heap]
    exact hs
  · exact List.nil_suffix

theorem Serves.accepted {m : Mosq SmpSession} (h : Accepted m) : Serves platform handlers m := by
  refine ⟨gate_accepted h, fun _ => ?_, ?_⟩
  · rw [h.inPacket]
    exact .cleaned _
  · rw [h.inPacket]
    exact List.forall_mem_nil _

theorem accounted_step {event : BrokerProcessEvent} (h : Accounted platform handlers b)
    (hstep : BrokerProcessStep platform handlers b event b') : Accounted platform handlers b' := by
  cases hstep with
  -- a step of one context: its own blocks change, those of the others are held
  | @context before after m event m' mem step =>
    have hothers : ∀ k ∈ before ++ after, k ∈ b.contexts := by
      intro k hk
      rw [mem]
      rcases List.mem_append.mp hk with hk | hk
      · exact List.mem_append_left _ hk
      · exact List.mem_append_right _ (List.mem_cons_of_mem _ hk)
    have hserves := h.contexts m (by
      rw [mem]
      exact List.mem_append_right _ (List.mem_cons_self ..))
    obtain ⟨lost, hL⟩ := h.ledger m
    rw [mem] at hL
    have htracked : Tracked (platform.broker handlers) (noBlocks b.short m)
        (heldBy (before ++ after) ++ b.others) lost True (b.load m) :=
      ⟨.all hserves.frame (hL.perm heldBy_perm) trivial, hserves.ready⟩
    obtain ⟨hgate, ⟨hframe, more, hL', -⟩, hready⟩ :=
      tracked_brokerStep ⟨hserves.gate.load, htracked⟩ step
    refine .ofLedger (fun k hk => ?_) (hL'.perm heldBy_perm.symm) rfl rfl
    rcases List.mem_append.mp hk with hk | hk
    · exact h.contexts k (hothers k (List.mem_append_left _ hk))
    · rcases List.mem_cons.mp hk with rfl | hk
      · exact ⟨hgate, hready, hframe⟩
      · exact h.contexts k (hothers k (List.mem_append_right _ hk))
  -- a new context holds no block
  | @accept m accepted current queue =>
    obtain ⟨lost, hL⟩ := h.ledger m
    have hblocks : heldBy (b.contexts ++ [m]) = heldBy b.contexts := by
      have hnone : m.blocks = [] := by
        rw [Mosq.blocks, Mosq.outBlocks, accepted.inPacket, current, queue]
        rfl
      simp [heldBy, hnone]
    have hL' : Ledger (platform.broker handlers) (noBlocks b.short m) (b.load m)
        (heldBy (b.contexts ++ [m]) ++ b.others) lost := by
      rw [hblocks]
      exact hL
    refine .ofLedger (fun k hk => ?_) hL' rfl rfl
    rcases List.mem_append.mp hk with hk | hk
    · exact h.contexts k hk
    · rw [List.mem_singleton.mp hk]
      exact .accepted accepted
  -- a context that goes releases what it holds
  | @cleanup before after m r m' mem call =>
    obtain ⟨lost, hL⟩ := h.ledger m
    rw [mem] at hL
    have hL' := contextCleanup_releases call _ _ _ (hL.perm heldBy_perm)
    refine .ofLedger (fun k hk => h.contexts k ?_) hL' rfl rfl
    rw [mem]
    rcases List.mem_append.mp hk with hk | hk
    · exact List.mem_append_left _ hk
    · exact List.mem_append_right _ (List.mem_cons_of_mem _ hk)
  -- the other allocations of the process, and what it frees
  | @malloc m _ _ _ call =>
    obtain ⟨lost, hL⟩ := h.ledger m
    have hL' := (hL.mosquittoMalloc call).1
    exact .ofLedger h.contexts (hL'.perm (List.perm_append_comm_assoc ..)) rfl rfl
  | @calloc m _ _ _ _ call =>
    obtain ⟨lost, hL⟩ := h.ledger m
    have hL' := hL.testedMalloc call
    exact .ofLedger h.contexts (hL'.perm (List.perm_append_comm_assoc ..)) rfl rfl
  | @strdup m _ _ _ call =>
    obtain ⟨lost, hL⟩ := h.ledger m
    have hL' := hL.testedMalloc call
    exact .ofLedger h.contexts (hL'.perm (List.perm_append_comm_assoc ..)) rfl rfl
  | @realloc m ptr rest size block m' mem call =>
    obtain ⟨lost, hL⟩ := h.ledger m
    have hperm := (mem.append_left (heldBy b.contexts)).trans (List.perm_append_comm_assoc ..)
    have hL' := (hL.perm hperm).realloc call
    exact .ofLedger h.contexts (hL'.perm List.perm_middle.symm) rfl rfl
  | @reallocFails m ptr rest size m' mem call =>
    obtain ⟨lost, hL⟩ := h.ledger m
    exact .ofLedger h.contexts (hL.reallocFails call) rfl rfl
  | @free m block rest r m' mem call =>
    obtain ⟨lost, hL⟩ := h.ledger m
    have hperm := (mem.append_left (heldBy b.contexts)).trans List.perm_middle
    replace hL : Ledger (platform.broker handlers) (noBlocks b.short m) (b.load m)
        ((some block).toList ++ (heldBy b.contexts ++ rest)) lost := hL.perm hperm
    exact .ofLedger h.contexts (hL.mosquittoFree call) rfl rfl

/-! ## The account -/

open BrokerProcess

/-- What `mosquitto__free` has taken off the counter without a charge: blocks of other
    allocators, and what reallocations that failed took off. -/
def BrokerProcess.uncharged (b : BrokerProcess) : Nat :=
  b.heap.releasedSize isForeign + b.short

/-- The counter is off by just that. -/
theorem memcount_eq (h : Accounted platform handlers b) :
    (b.memcount : Int) = ((b.heap.liveSize isTracked : Int) - b.uncharged) % 2 ^ 64 ∧
      b.heap.liveSize isTracked < 2 ^ 64 := by
  obtain ⟨lost, hL⟩ := h.ledger acceptedContext
  have hnone : HeapLog.liveSize isTracked ([] : HeapLog BlockKind) < 2 ^ 64 := by decide
  refine ⟨?_, hL.fits hnone⟩
  have hcounted := hL.counted rfl (Nat.mod_lt _ (by decide))
  have haccount : HeapLog.account isTracked isRefunded b.heap =
      (b.heap.liveSize isTracked : Int) - b.heap.releasedSize isForeign :=
    hL.owns.1.account_eq fun _ => isRefunded_of_tracked
  change (b.memcount : Int) = ((((2 ^ 64 - b.short % 2 ^ 64) % 2 ^ 64 : Nat) : Int) +
    HeapLog.account isTracked isRefunded b.heap - 0) % 2 ^ 64 at hcounted
  rw [haccount] at hcounted
  unfold uncharged
  push_cast at hcounted ⊢
  omega

theorem exact_iff (h : Accounted platform handlers b) : b.Exact ↔ 2 ^ 64 ∣ b.uncharged := by
  obtain ⟨hcount, hfits⟩ := memcount_eq h
  unfold Exact
  omega

/-- An exact counter never goes below zero for a block it counts, and the limit refuses
    only what is too much. -/
theorem BrokerProcess.Exact.accurate (h : b.Exact) :
    (∀ block ∈ b.heap.live, isTracked block = true → block.size ≤ b.memcount) ∧
      ∀ m size, overLimit (platform.broker handlers) (b.load m) size →
        platform.memLimit < b.heap.liveSize isTracked + size := by
  constructor
  · intro block hlive htracked
    rw [h]
    exact HeapLog.size_le_liveSize hlive htracked
  · rintro m size ⟨-, -, hover⟩
    change platform.memLimit < (b.memcount + size) % 2 ^ 64 at hover
    rw [h] at hover
    exact Nat.lt_of_lt_of_le hover (Nat.mod_le ..)

/-- Nothing was taken off without a charge as long as no block of another allocator went
    to `mosquitto__free`. -/
theorem HeapLog.releasedSize_eq_zero {κ : Type} {p : HeapBlock κ → Bool} {log : HeapLog κ}
    (h : ∀ c, .free c ∈ log → p c = false) : log.releasedSize p = 0 := by
  induction log with
  | nil => rfl
  | cons e log ih =>
    have htail := ih fun c hc => h c (List.mem_cons_of_mem _ hc)
    cases e with
    | alloc c => exact htail
    | use c => exact htail
    | free c =>
      have hc := h c (List.mem_cons_self ..)
      rw [HeapLog.releasedSize, htail, HeapLog.sizeIf, hc]
      rfl

end Accounting

/-! ## Runs of the broker -/

/-- In every run of the broker the counter is exact if, and only if, what was taken off it
    without a charge is a multiple of its range; in particular as long as nothing was.  Then
    releasing a counted block does not wrap, and the limit refuses only what exceeds it. -/
theorem heap_account_exact_iff {platform : Platform} {handlers : Handlers}
    {start b : BrokerProcess} {events : List BrokerProcessEvent} (started : Started start)
    (run : Run (BrokerProcessStep platform handlers) start events b) :
    (b.Exact ↔ 2 ^ 64 ∣ b.uncharged) ∧
      ((∀ c, .free c ∈ b.heap → BrokerProcess.isForeign c = false) → b.short = 0 → b.Exact) ∧
      (b.Exact → (∀ block ∈ b.heap.live, isTracked block = true → block.size ≤ b.memcount) ∧
        ∀ m size, overLimit (platform.broker handlers) (b.load m) size →
          platform.memLimit < b.heap.liveSize isTracked + size) := by
  have h : Accounted platform handlers b :=
    run.invariant (accounted_started started) fun _ _ _ h hstep => accounted_step h hstep
  refine ⟨exact_iff h, fun hforeign hshort => (exact_iff h).mpr ?_, fun hexact => hexact.accurate⟩
  rw [BrokerProcess.uncharged, HeapLog.releasedSize_eq_zero hforeign, hshort]
  exact dvd_zero _

/-! ## The first frame -/

/-- The broker before its first connection. -/
def startedBroker : BrokerProcess where
  contexts := []
  others := []
  heap := []
  memcount := 0
  mallocs := 0
  short := 0

theorem startedBroker_started : Started startedBroker := ⟨rfl, rfl, rfl, rfl, rfl⟩

/-- A frame that is refused leaves the counter exact, with its buffer on it. -/
theorem heap_account_exact_iff_refused : ∃ b events,
    Run (BrokerProcessStep Platform.sample acceptsAll) startedBroker events b ∧ b.memcount = 1 ∧
      b.Exact := by
  obtain ⟨buffer, hbuffer⟩ : ∃ b : Block, b = {
      id := 0
      kind := { purpose := .smpPayload, allocator := .mosquitto }
      size := 1 } := ⟨_, rfl⟩
  have hcall : (packetRead (Platform.sample.broker acceptsAll) refusedContext).map (fun r =>
      (r.1, (afterCall r.1 r.2).memcount, (afterCall r.1 r.2).heap)) =
        some (.error .unknown, 1, [.use buffer, .use buffer, .alloc buffer]) := by
    rw [hbuffer]
    decide +kernel
  obtain ⟨⟨r, m⟩, hread, heq⟩ := Option.map_eq_some_iff.mp hcall
  obtain ⟨rfl, hcount, hheap⟩ : r = .error .unknown ∧
      (afterCall r m).memcount = 1 ∧ (afterCall r m).heap =
        [.use buffer, .use buffer, .alloc buffer] := by
    simpa using heq
  have haccept : BrokerProcessStep Platform.sample acceptsAll startedBroker .accept
      { startedBroker with contexts := [refusedContext] } :=
    .accept refusedContext_accepted rfl rfl
  have hstep : BrokerProcessStep Platform.sample acceptsAll
      { startedBroker with contexts := [refusedContext] } (.context (.read (.error .unknown))) _ :=
    @BrokerProcessStep.context _ _ _ [] [] _ _ _ rfl (.read hread)
  have hrun := (Run.single haccept).snoc hstep
  refine ⟨_, _, hrun, hcount, ?_⟩
  refine (heap_account_exact_iff startedBroker_started hrun).2.1 (fun c hc => ?_) rfl
  -- nothing has been released
  change HeapEvent.free c ∈ (afterCall (.error .unknown) m).heap at hc
  simp [hheap] at hc

/-- A context is accepted, and a CONNECT that its session accepts is read and answered. -/
theorem first_frame_unbalances : ∃ b events,
    Run (BrokerProcessStep Platform.sample acceptsAll) startedBroker events b ∧ ¬ b.Exact := by
  have hcall : (packetRead (Platform.sample.broker acceptsAll) acceptedContext).map (fun r =>
      (r.1, r.2.memcount, r.2.heap.liveSize isTracked)) = some (.ok (), 86, 88) := by
    decide +kernel
  obtain ⟨⟨r, m⟩, hread, heq⟩ := Option.map_eq_some_iff.mp hcall
  obtain ⟨rfl, hcount, hlive⟩ : r = .ok () ∧ m.memcount = 86 ∧ m.heap.liveSize isTracked = 88 := by
    simpa using heq
  have haccept : BrokerProcessStep Platform.sample acceptsAll startedBroker .accept
      { startedBroker with contexts := [acceptedContext] } :=
    .accept acceptedContext_accepted rfl rfl
  have hstep : BrokerProcessStep Platform.sample acceptsAll
      { startedBroker with contexts := [acceptedContext] } (.context (.read (.ok ()))) _ :=
    @BrokerProcessStep.context _ _ _ [] [] _ _ _ rfl (.read hread)
  refine ⟨_, _, (Run.single haccept).snoc hstep, fun hexact => ?_⟩
  change m.memcount = m.heap.liveSize isTracked at hexact
  omega

end WeeveMQ
