/-
  WeeveMQ.BlockLedger

  Who owns the blocks of the heap.

  A ledger lists the live blocks of a client: those its pointers hold, and
  those that no pointer holds any more.  It also follows the counter of
  `memory_mosq.c`, which `mosquitto__free` takes every block off, wherever the
  block is from.  Each function of the sending half has one lemma: what it
  puts on the ledger, what it takes off, and what it loses.
-/

import WeeveMQ.PacketQueue

namespace WeeveMQ

open Call

variable {σ : Type} {env : Setup σ}

/-! ## The ledger -/

/-- `mosquitto__free` is how a block of this kind is released.  The temporary message
    of `mosq_wclSmpGetMessage` is the only one that is released otherwise. -/
def isRefunded (b : Block) : Bool := b.kind ≠ { purpose := .tempSmpMessage, allocator := .wos }

theorem isRefunded_of_purpose {b : Block} (h : b.kind.purpose ≠ .tempSmpMessage) :
    isRefunded b = true :=
  decide_eq_true fun hkind => h (congrArg BlockKind.purpose hkind)

/-- What is counted is refunded. -/
theorem isRefunded_of_tracked {b : Block} (h : isTracked b = true) : isRefunded b = true := by
  refine decide_eq_true fun hkind => ?_
  have hallocator : b.kind.allocator = .mosquitto := of_decide_eq_true h
  rw [hkind] at hallocator
  cases hallocator

/-- What the counter has been charged and refunded. -/
def Mosq.account (mosq : Mosq σ) : Int := mosq.heap.account isTracked isRefunded

/-- The live blocks, and the counter as it has moved since the start: the blocks that are
    held, and may go to `mosquitto__free`, and those that are lost.  What happened before
    the start stays in the log. -/
structure Ledger (env : Setup σ) (start m : Mosq σ) (held lost : List Block) : Prop where
  owns : m.heap.Owns (held ++ lost)
  refunded : ∀ b ∈ held, isRefunded b = true
  counted : tracking env = true → start.memcount < 2 ^ 64 →
    (m.memcount : Int) = (start.memcount + m.account - start.account) % 2 ^ 64
  fits : start.heap.liveSize isTracked < 2 ^ 64 → m.heap.liveSize isTracked < 2 ^ 64
  grows : start.heap <:+ m.heap

section Rules

variable {start m m' : Mosq σ} {held held' lost more : List Block} {b : Block}

theorem Ledger.congr (h : Ledger env start m held lost) (hheap : m'.heap = m.heap)
    (hcount : m'.memcount = m.memcount) : Ledger env start m' held lost := by
  have haccount : m'.account = m.account := by rw [Mosq.account, Mosq.account, hheap]
  refine ⟨?_, h.refunded, fun ht hs => ?_, fun hs => ?_, ?_⟩
  · rw [hheap]
    exact h.owns
  · rw [hcount, haccount, h.counted ht hs]
  · rw [hheap]
    exact h.fits hs
  · rw [hheap]
    exact h.grows

theorem Ledger.perm (h : Ledger env start m held lost) (hp : held.Perm held') :
    Ledger env start m held' lost :=
  ⟨h.owns.perm (hp.append_right lost), fun b hb => h.refunded b (hp.mem_iff.mpr hb), h.counted,
    h.fits, h.grows⟩

/-- Blocks that no pointer holds any more. -/
theorem Ledger.lose (h : Ledger env start m (more ++ held) lost) :
    Ledger env start m held (more ++ lost) := by
  refine ⟨h.owns.perm ?_, fun b hb => h.refunded b (List.mem_append_right _ hb), h.counted, h.fits,
    h.grows⟩
  rw [List.append_assoc]
  exact List.perm_append_comm_assoc ..

theorem Ledger.loseOne (h : Ledger env start m (b :: held) lost) :
    Ledger env start m held (b :: lost) :=
  @Ledger.lose _ _ _ _ _ _ [b] h

/-- A block that a pointer holds after all. -/
theorem Ledger.hold (h : Ledger env start m held (b :: lost)) (hb : isRefunded b = true) :
    Ledger env start m (b :: held) lost := by
  refine ⟨h.owns.perm List.perm_middle, fun c hc => ?_, h.counted, h.fits, h.grows⟩
  rcases List.mem_cons.mp hc with rfl | hc
  · exact hb
  · exact h.refunded c hc

theorem Ledger.touch {p : Option Buffer} {r : Except MosqError Unit}
    (h : Ledger env start m held lost) (hp : ∀ buffer ∈ p, buffer.block ∈ held ++ lost)
    (ht : touch p m = some (r, m')) : Ledger env start m' held lost := by
  unfold WeeveMQ.touch at ht
  rw [modify_apply] at ht
  cases ht
  cases p with
  | none => exact h
  | some buffer =>
    exact ⟨h.owns.use (hp buffer rfl), h.refunded, h.counted, h.fits,
      h.grows.trans (List.suffix_cons ..)⟩

/-! ### Allocating -/

/-- A new block, counted if it is to be. -/
theorem Ledger.alloc (h : Ledger env start m held lost) (hid : b.id = m.heap.length)
    (hheap : m'.heap = .alloc b :: m.heap)
    (hcount : tracking env = true → m.memcount < 2 ^ 64 →
      m'.memcount = (m.memcount + HeapLog.sizeIf isTracked b) % 2 ^ 64)
    (hfits : isTracked b = true → m.heap.liveSize (fun _ => true) + b.size < 2 ^ 64) :
    Ledger env start m' held (b :: lost) := by
  refine ⟨?_, h.refunded, fun ht hs => ?_, fun hs => ?_, ?_⟩
  · rw [hheap]
    exact (h.owns.alloc hid).perm List.perm_middle.symm
  · have hm := h.counted ht hs
    have haccount : m'.account = m.account + HeapLog.sizeIf isTracked b := by
      rw [Mosq.account, Mosq.account, hheap, HeapLog.account]
    rw [hcount ht (by omega), haccount]
    omega
  · have := h.fits hs
    have := @HeapLog.liveSize_le _ _ m.heap isTracked
    rw [hheap, HeapLog.liveSize_alloc]
    unfold HeapLog.sizeIf
    split
    · next htracked =>
      have := hfits htracked
      omega
    · omega
  · rw [hheap]
    exact h.grows.trans (List.suffix_cons ..)

theorem Ledger.allocUntracked (h : Ledger env start m held lost) (hid : b.id = m.heap.length)
    (hheap : m'.heap = .alloc b :: m.heap) (hcount : m'.memcount = m.memcount)
    (hallocator : b.kind.allocator ≠ .mosquitto) : Ledger env start m' held (b :: lost) := by
  have huntracked : isTracked b = false := by simp [isTracked, hallocator]
  refine h.alloc hid hheap (fun _ hlt => ?_) fun htracked => ?_
  · have hzero : HeapLog.sizeIf isTracked b = 0 := by simp [HeapLog.sizeIf, huntracked]
    rw [hcount, hzero, Nat.add_zero, Nat.mod_eq_of_lt hlt]
  · rw [huntracked] at htracked
    cases htracked

theorem Ledger.allocTracked (h : Ledger env start m held lost) (hid : b.id = m.heap.length)
    (htracked : isTracked b = true) (hheap : m'.heap = .alloc b :: m.heap)
    (hcount : tracking env = true → m'.memcount = (m.memcount + b.size) % 2 ^ 64)
    (hfits : m.heap.liveSize (fun _ => true) + b.size < 2 ^ 64) :
    Ledger env start m' (b :: held) lost := by
  refine (h.alloc hid hheap (fun ht _ => ?_) fun _ => hfits).hold (isRefunded_of_tracked htracked)
  rw [HeapLog.sizeIf, if_pos htracked]
  exact hcount ht

theorem Ledger.mosquittoMalloc {purpose : Purpose} {size : Nat} {mem : Option Block}
    (h : Ledger env start m held lost)
    (hm : mosquittoMalloc env purpose size m = some (.ok mem, m')) :
    Ledger env start m' (mem.toList ++ held) lost ∧ ∀ b ∈ mem, b.kind.purpose = purpose := by
  rcases mosquittoMalloc_cases env purpose size m with ⟨calls, hnone⟩ |
    ⟨b, hid, hkind, -, hfits, -, hsome⟩
  · rw [hnone] at hm
    cases hm
    exact ⟨h.congr rfl rfl, nofun⟩
  · rw [hsome] at hm
    cases hm
    have htracked : isTracked b = true := by simp [isTracked, hkind]
    refine ⟨h.allocTracked hid htracked rfl (fun ht => if_pos ht) hfits, fun c hc => ?_⟩
    cases hc
    rw [hkind]

theorem Ledger.malloc {kind : BlockKind} {size : Nat} {mem : Option Block}
    (h : Ledger env start m held lost) (hpurpose : kind.purpose ≠ .tempSmpMessage)
    (hallocator : kind.allocator ≠ .mosquitto)
    (hm : malloc env kind size m = some (.ok mem, m')) :
    Ledger env start m' (mem.toList ++ held) lost := by
  rcases malloc_cases env kind size m with hnone | ⟨b, hid, hkind, -, -, hsome⟩
  · rw [hnone] at hm
    cases hm
    exact h.congr rfl rfl
  · rw [hsome] at hm
    cases hm
    rw [← hkind] at hpurpose hallocator
    have halloc : Ledger env start { m with
        heap := .alloc b :: m.heap
        mallocs := m.mallocs + 1 } held (b :: lost) := h.allocUntracked hid rfl rfl hallocator
    exact halloc.hold (isRefunded_of_purpose hpurpose)

/-- A buffer of the SMP library belongs to nobody until a pointer holds it. -/
theorem Ledger.libraryBlock {purpose : Purpose} {size : Nat}
    (h : Ledger env start m held lost) (hm : libraryBlock env purpose size m = some (.ok b, m')) :
    Ledger env start m' held (b :: lost) ∧ b.kind = { purpose := purpose, allocator := .wos } := by
  obtain ⟨c, hid, hkind, hc⟩ := libraryBlock_cases env purpose size m
  rw [hc] at hm
  cases hm
  have hallocator : b.kind.allocator ≠ .mosquitto := by simp [hkind]
  exact ⟨h.allocUntracked hid rfl rfl hallocator, hkind⟩

theorem neverFails_mosquittoMalloc {purpose : Purpose} {size : Nat} :
    NeverFails (mosquittoMalloc env purpose size) := by
  intro m e m' h
  rcases mosquittoMalloc_cases env purpose size m with ⟨calls, hm⟩ | ⟨b, -, -, -, -, -, hm⟩
  · rw [hm] at h
    cases h
  · rw [hm] at h
    cases h

theorem neverFails_malloc {kind : BlockKind} {size : Nat} :
    NeverFails (WeeveMQ.malloc env kind size) := by
  intro m e m' h
  rcases malloc_cases env kind size m with hm | ⟨b, -, -, -, -, hm⟩
  · rw [hm] at h
    cases h
  · rw [hm] at h
    cases h

theorem neverFails_libraryBlock {purpose : Purpose} {size : Nat} :
    NeverFails (libraryBlock env purpose size) := by
  intro m e m' h
  obtain ⟨b, -, -, hm⟩ := libraryBlock_cases env purpose size m
  rw [hm] at h
  cases h

/-! ### Releasing -/

theorem Ledger.freed {mem : Option Block} (h : Ledger env start m (mem.toList ++ held) lost) :
    Ledger env start (m.freed env mem) held lost := by
  cases mem with
  | none => exact h
  | some b =>
    have hlive : b ∈ HeapLog.live m.heap := h.owns.2.mem_iff.mpr (List.mem_cons_self ..)
    refine ⟨h.owns.free, fun c hc => h.refunded c (List.mem_cons_of_mem _ hc), fun ht hs => ?_,
      fun hs => ?_, h.grows.trans (List.suffix_cons ..)⟩
    · have hm := h.counted ht hs
      have hsize : HeapLog.sizeIf isRefunded b = b.size :=
        if_pos (h.refunded b (List.mem_cons_self ..))
      have haccount : (m.freed env (some b)).account = m.account - b.size := by
        rw [Mosq.account, Mosq.account, Mosq.freed, HeapLog.account, hsize]
      rw [haccount, Mosq.freed]
      dsimp only
      rw [if_pos ht]
      omega
    · have := h.fits hs
      have := HeapLog.liveSize_free (p := isTracked) hlive
      show HeapLog.liveSize isTracked (.free b :: m.heap) < 2 ^ 64
      omega

theorem Ledger.mosquittoFree {mem : Option Block} {r : Except MosqError Unit}
    (h : Ledger env start m (mem.toList ++ held) lost)
    (hm : mosquittoFree env mem m = some (r, m')) : Ledger env start m' held lost := by
  rw [mosquittoFree_apply] at hm
  cases hm
  exact h.freed

/-- The temporary message of `mosq_wclSmpGetMessage` is not taken off the counter. -/
theorem Ledger.freeTemp {r : Except MosqError Unit} (h : Ledger env start m held (b :: lost))
    (hb : b.kind = { purpose := .tempSmpMessage, allocator := .wos })
    (hm : free b m = some (r, m')) : Ledger env start m' held lost := by
  cases hm
  have howns := h.owns.perm List.perm_middle
  have hlive : b ∈ HeapLog.live m.heap := howns.2.mem_iff.mpr (List.mem_cons_self ..)
  refine ⟨howns.free, h.refunded, fun ht hs => ?_, fun hs => ?_,
    h.grows.trans (List.suffix_cons ..)⟩
  · have hsize : HeapLog.sizeIf isRefunded b = 0 := by simp [HeapLog.sizeIf, isRefunded, hb]
    have haccount : m.account - HeapLog.sizeIf isRefunded b = m.account := by
      rw [hsize, Nat.cast_zero, Int.sub_zero]
    exact (h.counted ht hs).trans (by rw [← haccount]; rfl)
  · have := h.fits hs
    have := HeapLog.liveSize_free (p := isTracked) hlive
    dsimp only
    omega

end Rules

/-! ## The blocks of a packet -/

/-- What `packet__cleanup` releases of a packet. -/
def Packet.cleanupBlocks (packet : Packet) : List Block :=
  (packet.mqttPacket.map Buffer.block).toList ++ (packet.payload.map Buffer.block).toList

/-- The blocks of a packet that is to be written. -/
def OutPacket.blocks (out : OutPacket σ) : List Block := out.packet.cleanupBlocks ++ [out.block]

/-- The blocks of all packets that are to be written. -/
def Mosq.outBlocks (mosq : Mosq σ) : List Block :=
  (mosq.currentOutPacket.toList ++ mosq.outPacket).flatMap OutPacket.blocks

section Packets

variable {start m m' : Mosq σ} {held lost : List Block}

/-- The buffer `packet__alloc` makes is the packet's. -/
theorem Ledger.packetAlloc {packet : Packet} {r : Except MosqError Packet}
    (h : Ledger env start m held lost) (hm : packetAlloc env packet m = some (r, m')) :
    (∃ e, r = .error e ∧ Ledger env start m' held lost) ∨
      ∃ packet' buffer, r = .ok packet' ∧ packet'.payload = some buffer ∧
        packet'.mqttPacket = none ∧ buffer.block.kind.purpose = .outPayload ∧
        Ledger env start m' (buffer.block :: held) lost := by
  unfold WeeveMQ.packetAlloc at hm
  rcases bind_some.mp hm with ⟨e, he, rfl⟩ | ⟨_, m₁, h₁, hm⟩
  · obtain ⟨-, -, rfl⟩ := failIf_error.mp he
    exact .inl ⟨e, rfl, h⟩
  obtain ⟨-, rfl⟩ := failIf_ok.mp h₁
  rcases bind_some.mp hm with ⟨e, he, rfl⟩ | ⟨mem, m₂, h₂, hm⟩
  · exact absurd he (neverFails_mosquittoMalloc _ _ _)
  obtain ⟨h₂, hpurpose⟩ := h.mosquittoMalloc h₂
  cases mem with
  | none =>
    cases hm
    exact .inl ⟨_, rfl, h₂⟩
  | some b =>
    cases hm
    exact .inr ⟨_, _, rfl, rfl, rfl, hpurpose b rfl, h₂⟩

/-- A message of the session goes into a buffer of its own; what is left of the temporary
    one if that fails is lost. -/
theorem Ledger.getMessage {messageType : Nat} {bytes : Bytes} {r : Except MosqError Buffer}
    (h : Ledger env start m held lost)
    (hm : mosqWclSmpGetMessage env messageType bytes m = some (r, m')) :
    (∃ e temp, r = .error e ∧ Ledger env start m' held (temp ++ lost) ∧
        ∀ b ∈ temp, b.kind.purpose = .tempSmpMessage) ∨
      ∃ buffer, r = .ok buffer ∧ Ledger env start m' (buffer.block :: held) lost := by
  unfold mosqWclSmpGetMessage at hm
  rcases bind_some.mp hm with ⟨e, h₁, rfl⟩ | ⟨message, m₁, h₁, hm⟩
  · obtain ⟨e₀, h₁, -⟩ := mapErr_error.mp h₁
    obtain ⟨session, -, rfl⟩ := onPart_eq.mp h₁
    exact .inl ⟨e, [], rfl, h.congr rfl rfl, nofun⟩
  obtain ⟨session, -, rfl⟩ := onPart_eq.mp (mapErr_ok.mp h₁)
  replace h : Ledger env start { m with session := session } held lost := h.congr rfl rfl
  rcases bind_some.mp hm with ⟨e, h₂, rfl⟩ | ⟨temp, m₂, h₂, hm⟩
  · exact absurd h₂ (neverFails_libraryBlock _ _ _)
  obtain ⟨h, hkind⟩ := h.libraryBlock h₂
  have htemp : temp.kind.purpose = .tempSmpMessage := by rw [hkind]
  have hlost : ∀ b ∈ [temp], b.kind.purpose = .tempSmpMessage := by
    intro b hb
    rw [List.mem_singleton.mp hb]
    exact htemp
  rcases bind_some.mp hm with ⟨e, h₃, rfl⟩ | ⟨_, m₃, h₃, hm⟩
  · obtain ⟨-, -, rfl⟩ := failIf_error.mp h₃
    exact .inl ⟨e, [temp], rfl, h, hlost⟩
  obtain ⟨-, rfl⟩ := failIf_ok.mp h₃
  rcases bind_some.mp hm with ⟨e, h₄, rfl⟩ | ⟨mem, m₄, h₄, hm⟩
  · exact absurd h₄ (neverFails_malloc _ _ _)
  replace h := h.malloc (by decide) (by decide) h₄
  cases mem with
  | none =>
    cases hm
    exact .inl ⟨_, [temp], rfl, h, hlost⟩
  | some b =>
    rcases bind_some.mp hm with ⟨e, h₅, -⟩ | ⟨_, m₅, h₅, hm⟩
    · exact absurd h₅ (neverFails_modify _ _ _)
    replace h := h.touch (by simp) h₅
    rcases bind_some.mp hm with ⟨e, h₆, -⟩ | ⟨_, m₆, h₆, hm⟩
    · exact absurd h₆ (neverFails_modify _ _ _)
    replace h := h.freeTemp hkind h₆
    cases hm
    exact .inr ⟨_, rfl, h⟩

/-- Securing swaps the buffer of a packet for one of the message, or leaves it where it is. -/
theorem Ledger.packetSecure {packet : Packet} {r : Except MosqError Packet}
    (h : Ledger env start m (packet.cleanupBlocks ++ held) lost)
    (hnone : packet.mqttPacket = none) (hm : packetSecure env packet m = some (r, m')) :
    (∃ e temp, r = .error e ∧ Ledger env start m' (packet.cleanupBlocks ++ held) (temp ++ lost) ∧
        ∀ b ∈ temp, b.kind.purpose = .tempSmpMessage) ∨
      ∃ packet', r = .ok packet' ∧ Ledger env start m' (packet'.cleanupBlocks ++ held) lost := by
  have hblocks : packet.cleanupBlocks = (packet.payload.map Buffer.block).toList := by
    rw [Packet.cleanupBlocks, hnone]
    rfl
  unfold WeeveMQ.packetSecure at hm
  rcases bind_some.mp hm with ⟨e, h₁, -⟩ | ⟨_, m₁, h₁, hm⟩
  · exact absurd h₁ (neverFails_modify _ _ _)
  replace h := h.touch (fun buffer hb => by simp [hblocks, Option.mem_def.mp hb]) h₁
  rcases bind_some.mp hm with ⟨e, h₂, rfl⟩ | ⟨message, m₂, h₂, hm⟩
  · rcases h.getMessage h₂ with ⟨_, temp, -, h, htemp⟩ | ⟨buffer, hr, -⟩
    · exact .inl ⟨_, temp, rfl, h, htemp⟩
    · cases hr
  rcases h.getMessage h₂ with ⟨e, temp, hr, -⟩ | ⟨buffer, hr, h⟩
  · cases hr
  cases hr
  rcases bind_some.mp hm with ⟨e, h₃, -⟩ | ⟨_, m₃, h₃, hm⟩
  · rw [mosquittoFree_apply] at h₃
    cases h₃
  rw [hblocks] at h
  replace h := (h.perm List.perm_middle.symm).mosquittoFree h₃
  cases hm
  refine .inr ⟨_, rfl, ?_⟩
  simp only [Packet.cleanupBlocks, hnone, Option.map_none, Option.map_some, Option.toList_none,
    Option.toList_some, List.nil_append, List.cons_append]
  exact h

end Packets

/-! ## Writing -/

/-- The blocks of the queue stay on the ledger, or are released. -/
def WritesBlocks (env : Setup σ) (m m' : Mosq σ) : Prop :=
  ∀ start held lost, Ledger env start m (m.outBlocks ++ held) lost →
    Ledger env start m' (m'.outBlocks ++ held) lost

namespace WritesBlocks

instance : Std.Refl (WritesBlocks env) where
  refl _ _ _ _ h := h

instance : IsTrans (Mosq σ) (WritesBlocks env) where
  trans _ _ _ h h' start held lost hm := h' start held lost (h start held lost hm)

theorem ofSame {m m' : Mosq σ} (hheap : m'.heap = m.heap) (hcount : m'.memcount = m.memcount)
    (hblocks : m'.outBlocks = m.outBlocks) : WritesBlocks env m m' := by
  intro start held lost h
  rw [hblocks]
  exact h.congr hheap hcount

theorem netWrite {bytes : Bytes} {m m' : Mosq σ} {r : Except MosqError (Option Nat)}
    (h : netWrite bytes m = some (r, m')) :
    WritesBlocks env m m' ∧ m'.currentOutPacket = m.currentOutPacket := by
  unfold WeeveMQ.netWrite at h
  split at h
  · cases h
    exact ⟨ofSame rfl rfl rfl, rfl⟩
  · cases h
    exact ⟨ofSame rfl rfl rfl, rfl⟩
  · cases h
    exact ⟨ofSame rfl rfl rfl, rfl⟩
  · cases h
    exact ⟨ofSame rfl rfl rfl, rfl⟩

/-- The buffer of the current packet may be read. -/
theorem touchCurrent {out : OutPacket σ} {m m' : Mosq σ} {r : Except MosqError Unit}
    (hcurrent : m.currentOutPacket = some out) (h : touch out.packet.payload m = some (r, m')) :
    WritesBlocks env m m' := by
  intro start held lost hm
  have hsame : m'.outBlocks = m.outBlocks := by
    have hheap := HeapOnly.touch _ _ _ h
    rw [Mosq.outBlocks, Mosq.outBlocks, hheap.currentOutPacket, hheap.outPacket]
  rw [hsame]
  refine hm.touch (fun buffer hb => ?_) h
  have hmem : buffer.block ∈ out.blocks := by
    simp [OutPacket.blocks, Packet.cleanupBlocks, Option.mem_def.mp hb]
  have hout : buffer.block ∈ m.outBlocks := by
    rw [Mosq.outBlocks, hcurrent]
    exact List.mem_flatMap.mpr ⟨out, List.mem_cons_self .., hmem⟩
  exact List.mem_append_left _ (List.mem_append_left _ hout)

/-- The current packet may move on, but it stays where it is. -/
theorem writeCurrent {fuel : Nat} {m m' : Mosq σ} {r : Except MosqError Bool}
    (h : writeCurrent fuel m = some (r, m')) :
    WritesBlocks env m m' ∧
      m'.currentOutPacket.map OutPacket.blocks = m.currentOutPacket.map OutPacket.blocks := by
  induction fuel generalizing m with
  | zero =>
    cases h
    exact ⟨Std.Refl.refl _, rfl⟩
  | succ fuel ih =>
    unfold WeeveMQ.writeCurrent at h
    rw [bind_of_ok get_apply] at h
    cases hcurrent : m.currentOutPacket with
    | none =>
      simp only [hcurrent] at h
      cases h
      exact ⟨Std.Refl.refl _, congrArg _ hcurrent⟩
    | some out =>
      simp only [hcurrent] at h
      split at h
      · cases h
        exact ⟨Std.Refl.refl _, congrArg _ hcurrent⟩
      · rcases bind_some.mp h with ⟨e, h₁, -⟩ | ⟨_, m₁, h₁, h⟩
        · exact absurd h₁ (neverFails_modify _ _ _)
        have hw₁ : WritesBlocks env m m₁ := touchCurrent hcurrent h₁
        have hcurrent₁ := (HeapOnly.touch _ _ _ h₁).currentOutPacket.trans hcurrent
        rcases bind_some.mp h with ⟨e, h₂, rfl⟩ | ⟨written, m₂, h₂, h⟩
        · obtain ⟨hw₂, hcurrent₂⟩ := netWrite h₂
          exact ⟨trans_of (WritesBlocks env) hw₁ hw₂, congrArg _ (hcurrent₂.trans hcurrent₁)⟩
        obtain ⟨hw₂, hcurrent₂⟩ := netWrite h₂
        have hw := trans_of (WritesBlocks env) hw₁ hw₂
        replace hcurrent₂ := hcurrent₂.trans hcurrent₁
        -- nothing was written
        have hlater : (WeeveMQ.comeBackLater >>= fun _ => pure false) m₂ = some (r, m') →
            m' = m₂ := by
          intro h
          rcases bind_some.mp h with ⟨e, h₃, -⟩ | ⟨_, m₃, h₃, h⟩
          · exact comeBackLater_same h₃
          · cases h
            exact comeBackLater_same h₃
        rcases written with _ | _ | n
        · rw [hlater h]
          exact ⟨hw, congrArg _ hcurrent₂⟩
        · rw [hlater h]
          exact ⟨hw, congrArg _ hcurrent₂⟩
        · have hmoved : WritesBlocks env m₂ (m₂.pieceWritten out (n + 1)) := by
            refine ofSame rfl rfl ?_
            rw [Mosq.outBlocks, Mosq.outBlocks, hcurrent₂]
            rfl
          obtain ⟨hrest, hsame⟩ := @ih (m₂.pieceWritten out (n + 1)) h
          exact ⟨trans_of (WritesBlocks env) hw (trans_of (WritesBlocks env) hmoved hrest), hsame⟩

/-- The current packet leaves the queue: what is freed then was its own. -/
theorem next {start m : Mosq σ} {out : OutPacket σ} {held lost : List Block}
    (h : Ledger env start m (m.outBlocks ++ held) lost)
    (hcurrent : m.currentOutPacket.map OutPacket.blocks = some out.blocks) :
    Ledger env start (nextOutPacket m)
      (out.packet.cleanupBlocks ++ ([out.block] ++ ((nextOutPacket m).outBlocks ++ held))) lost := by
  have hqueue : m.outPacket.head?.toList ++ m.outPacket.tail = m.outPacket := by
    cases m.outPacket <;> rfl
  have hblocks : m.outBlocks = out.blocks ++ (nextOutPacket m).outBlocks := by
    obtain ⟨current, hsome, hsame⟩ := Option.map_eq_some_iff.mp hcurrent
    rw [Mosq.outBlocks, Mosq.outBlocks, nextOutPacket, hsome, hqueue, ← hsame]
    rfl
  rw [hblocks, OutPacket.blocks, List.append_assoc, List.append_assoc] at h
  exact h.congr rfl rfl

/-- Nothing leaves the queue as long as there is no current packet. -/
theorem begin {m : Mosq σ} (hnone : m.currentOutPacket = none) :
    WritesBlocks env m (nextOutPacket m) := by
  refine ofSame rfl rfl ?_
  have hqueue : m.outPacket.head?.toList ++ m.outPacket.tail = m.outPacket := by
    cases m.outPacket <;> rfl
  rw [Mosq.outBlocks, Mosq.outBlocks, nextOutPacket, hnone, hqueue]
  rfl

/-- The client once its current packet has left the queue and is released. -/
def released (env : Setup σ) (m : Mosq σ) (out : OutPacket σ) : Mosq σ :=
  (((nextOutPacket m).freed env (out.packet.mqttPacket.map Buffer.block)).freed env
    (out.packet.payload.map Buffer.block)).freed env (some out.block)

theorem release {m : Mosq σ} {out : OutPacket σ}
    (hcurrent : m.currentOutPacket.map OutPacket.blocks = some out.blocks) :
    WritesBlocks env m (released env m out) := by
  intro start held lost h
  have hheap : HeapOnly (nextOutPacket m) (released env m out) :=
    trans_of HeapOnly (trans_of HeapOnly (HeapOnly.freed ..) (HeapOnly.freed ..))
      (HeapOnly.freed ..)
  have hsame : (released env m out).outBlocks = (nextOutPacket m).outBlocks := by
    rw [Mosq.outBlocks, Mosq.outBlocks, hheap.currentOutPacket, hheap.outPacket]
  have hnext := next h hcurrent
  rw [Packet.cleanupBlocks, List.append_assoc] at hnext
  rw [hsame]
  exact hnext.freed.freed.freed

theorem writePackets {fuel : Nat} : Relates (WritesBlocks env) (writePackets env fuel) := by
  induction fuel with
  | zero => exact relates_pure
  | succ fuel ih =>
    intro m r m' h
    unfold WeeveMQ.writePackets at h
    rw [bind_of_ok get_apply] at h
    cases hcurrent : m.currentOutPacket with
    | none =>
      simp only [hcurrent] at h
      cases h
      exact Std.Refl.refl m
    | some out =>
      simp only [hcurrent] at h
      rcases bind_some.mp h with ⟨e, h₁, rfl⟩ | ⟨done, m₁, h₁, h⟩
      · exact (writeCurrent h₁).1
      obtain ⟨hwritten, hsame⟩ : WritesBlocks env m m₁ ∧ _ := writeCurrent h₁
      cases done with
      | false =>
        cases h
        exact hwritten
      | true =>
        rw [if_pos rfl] at h
        rcases bind_some.mp h with ⟨e, h₂, -⟩ | ⟨_, m₂, h₂, h⟩
        · exact absurd h₂ (NeverFails.onlyIf neverFails_modify _ _ _)
        have hclosed : WritesBlocks env m₁ m₂ ∧ m₂.currentOutPacket = m₁.currentOutPacket := by
          unfold onlyIf at h₂
          split at h₂
          · cases h₂
            exact ⟨ofSame rfl rfl rfl, rfl⟩
          · cases h₂
            exact ⟨Std.Refl.refl _, rfl⟩
        have hleaves : m₂.currentOutPacket.map OutPacket.blocks = some out.blocks := by
          rw [hclosed.2, hsame, hcurrent]
          rfl
        rw [bind_of_ok modify_apply, bind_of_ok (packetCleanup_apply _ _),
          bind_of_ok (mosquittoFree_apply _ _)] at h
        have hrest : WritesBlocks env (released env m₂ out) m' := relates_pure.ite ih _ _ _ h
        exact trans_of (WritesBlocks env) (trans_of (WritesBlocks env) hwritten hclosed.1)
          (trans_of (WritesBlocks env) (release hleaves) hrest)

theorem packetWrite : Relates (WritesBlocks env) (packetWrite env) := by
  unfold WeeveMQ.packetWrite
  refine Relates.bind relates_get fun m => ?_
  refine Relates.bind relates_failIf fun _ => ?_
  refine Relates.bind (relates_modify fun m => ?_) fun _ => ?_
  · split
    · next hnone => exact begin (Option.isNone_iff_eq_none.mp hnone)
    · exact Std.Refl.refl m
  · refine Relates.bind relates_get fun m => ?_
    exact relates_pure.ite writePackets

end WritesBlocks

/-! ## Queueing -/

/-- The packets that are to be written are untouched. -/
structure SameQueue (m m' : Mosq σ) : Prop where
  currentOutPacket : m'.currentOutPacket = m.currentOutPacket
  outPacket : m'.outPacket = m.outPacket

namespace SameQueue

instance : Std.Refl (SameQueue : Mosq σ → Mosq σ → Prop) where
  refl _ := ⟨rfl, rfl⟩

instance : IsTrans (Mosq σ) SameQueue where
  trans _ _ _ h h' := ⟨h'.currentOutPacket.trans h.currentOutPacket, h'.outPacket.trans h.outPacket⟩

theorem outBlocks {m m' : Mosq σ} (h : SameQueue m m') : m'.outBlocks = m.outBlocks := by
  rw [Mosq.outBlocks, Mosq.outBlocks, h.currentOutPacket, h.outPacket]

theorem ofHeapOnly {m m' : Mosq σ} (h : HeapOnly m m') : SameQueue m m' :=
  ⟨h.currentOutPacket, h.outPacket⟩

theorem mosqWclSmpGetMessage {messageType : Nat} {bytes : Bytes} :
    Relates SameQueue (mosqWclSmpGetMessage env messageType bytes) := by
  unfold WeeveMQ.mosqWclSmpGetMessage
  refine Relates.bind (relates_mapErr (relates_onPart fun _ _ _ _ => ⟨rfl, rfl⟩)) fun message => ?_
  refine Relates.bind (HeapOnly.libraryBlock.mono fun _ _ => ofHeapOnly) fun temp => ?_
  dsimp only
  refine Relates.bind relates_failIf fun _ => ?_
  refine Relates.bind (HeapOnly.malloc.mono fun _ _ => ofHeapOnly) fun mem => ?_
  cases mem with
  | none => exact relates_throw
  | some b =>
    refine Relates.bind (HeapOnly.touch.mono fun _ _ => ofHeapOnly) fun _ => ?_
    exact (HeapOnly.free.mono fun _ _ => ofHeapOnly).bind fun _ => relates_pure

theorem packetSecure {packet : Packet} : Relates SameQueue (packetSecure env packet) := by
  unfold WeeveMQ.packetSecure
  refine Relates.bind (HeapOnly.touch.mono fun _ _ => ofHeapOnly) fun _ => ?_
  refine Relates.bind mosqWclSmpGetMessage fun _ => ?_
  exact (HeapOnly.mosquittoFree.mono fun _ _ => ofHeapOnly).bind fun _ => relates_pure

end SameQueue

section Queueing

variable {start m m' : Mosq σ} {held lost : List Block}

/-- A packet that is secured is queued, with its blocks.  One that is not is left to
    nobody, and its blocks with it. -/
theorem Ledger.packetQueue {block : Block} {packet : Packet} {r : Except MosqError Unit}
    (h : Ledger env start m (packet.cleanupBlocks ++ (block :: (m.outBlocks ++ held))) lost)
    (hnone : packet.mqttPacket = none) (hm : packetQueue env block packet m = some (r, m')) :
    (∃ packet' m₁, WeeveMQ.packetSecure env packet m = some (.ok packet', m₁) ∧
        Ledger env start m' (m'.outBlocks ++ held) lost) ∨
      ∃ e temp, WeeveMQ.packetSecure env packet m = some (.error e, m') ∧
        Ledger env start m' (m'.outBlocks ++ held)
          (block :: (packet.cleanupBlocks ++ (temp ++ lost))) ∧
        ∀ b ∈ temp, b.kind.purpose = .tempSmpMessage := by
  unfold WeeveMQ.packetQueue at hm
  rw [bind_of_ok get_apply] at hm
  rcases bind_some.mp hm with ⟨e, h₁, rfl⟩ | ⟨packet', m₁, h₁, hm⟩
  · rcases h.packetSecure hnone h₁ with ⟨e', temp, he, hlost, htemp⟩ | ⟨packet', hr, -⟩
    · refine .inr ⟨e, temp, h₁, ?_, htemp⟩
      rw [(SameQueue.packetSecure _ _ _ h₁).outBlocks]
      exact hlost.lose.loseOne
    · cases hr
  · rcases h.packetSecure hnone h₁ with ⟨e', temp, he, -⟩ | ⟨packet'', hr, hheld⟩
    · cases he
    cases hr
    refine .inl ⟨packet', m₁, h₁, ?_⟩
    rcases bind_some.mp hm with ⟨e, h₂, -⟩ | ⟨_, m₂, h₂, hm⟩
    · exact absurd h₂ (neverFails_modify _ _ _)
    cases h₂
    have hwrites : Relates (WritesBlocks env) (get >>= fun mosq : Mosq σ =>
        if env.role = .client ∧ (mosq.inCallback ∨ mosq.threaded) then pure ()
        else WeeveMQ.packetWrite env) :=
      Relates.bind relates_get fun _ => relates_pure.ite WritesBlocks.packetWrite
    refine hwrites _ _ _ hm start held lost ?_
    -- the blocks of the packet are at the end of the queue now
    have hqueue : ({ m₁ with outPacket := m₁.outPacket ++
        [{ block := block, packet := packet', origin := m.session }] } : Mosq σ).outBlocks =
        m.outBlocks ++ (packet'.cleanupBlocks ++ [block]) := by
      rw [← (SameQueue.packetSecure _ _ _ h₁).outBlocks]
      simp [Mosq.outBlocks, OutPacket.blocks]
    rw [hqueue]
    refine (hheld.perm ?_).congr rfl rfl
    rw [← List.singleton_append, ← List.append_assoc, ← List.append_assoc]
    exact List.perm_append_comm.append_right held

end Queueing

/-- A block of a packet that is received. -/
def isReceived (b : Block) : Bool := b.kind.purpose ∈ [.smpPayload, .mqttPacket, .payload]

/-- None of the blocks is of a packet that is received. -/
def NoneReceived (blocks : List Block) : Prop := ∀ b ∈ blocks, isReceived b = false

theorem NoneReceived.nil : NoneReceived [] := List.forall_mem_nil _

theorem NoneReceived.append {blocks more : List Block} (h : NoneReceived blocks)
    (hmore : NoneReceived more) : NoneReceived (blocks ++ more) :=
  List.forall_mem_append.mpr ⟨h, hmore⟩

theorem NoneReceived.right {blocks more : List Block} (h : NoneReceived (blocks ++ more)) :
    NoneReceived more := (List.forall_mem_append.mp h).2

/-- A packet that is sent fails before it has a buffer, or `packet__queue` gets it with a
    block and a buffer of its own. -/
theorem Ledger.sendPacket {start m m' : Mosq σ} {held lost : List Block} {command : UInt8}
    {mid : UInt16} {body : Bytes} {r : Except MosqError Unit}
    (hm : Ledger env start m (m.outBlocks ++ held) lost)
    (h : WeeveMQ.sendPacket env command mid body m = some (r, m')) :
    (r ≠ .ok () ∧ Ledger env start m' (m'.outBlocks ++ held) lost) ∨
      ∃ block packet m₁,
        Ledger env start m₁ (packet.cleanupBlocks ++ (block :: (m₁.outBlocks ++ held))) lost ∧
        packet.mqttPacket = none ∧ NoneReceived (block :: packet.cleanupBlocks) ∧
        WeeveMQ.packetQueue env block packet m₁ = some (r, m') := by
  unfold WeeveMQ.sendPacket at h
  rcases bind_some.mp h with ⟨e, h₁, -⟩ | ⟨mem, m₁, h₁, h⟩
  · exact absurd h₁ (neverFails_mosquittoMalloc _ _ _)
  have hsame₁ := SameQueue.ofHeapOnly (HeapOnly.mosquittoMalloc _ _ _ h₁)
  obtain ⟨hm₁, hpacket⟩ := hm.mosquittoMalloc h₁
  rw [← hsame₁.outBlocks] at hm₁
  cases mem with
  | none =>
    cases h
    exact .inl ⟨nofun, hm₁⟩
  | some block =>
    have hblock : isReceived block = false := by
      simp [isReceived, hpacket block rfl]
    rcases bind_some.mp h with ⟨e, h₂, rfl⟩ | ⟨packet, m₂, h₂, h⟩
    · -- without a buffer the packet is freed again
      obtain ⟨m₂, r₂, h₂, h₃⟩ := onErr_error.mp h₂
      rcases hm₁.packetAlloc h₂ with ⟨-, -, hm₂⟩ | ⟨packet, -, hr, -⟩
      · have hsame₂ := SameQueue.ofHeapOnly (HeapOnly.packetAlloc _ _ _ h₂)
        have hsame₃ := SameQueue.ofHeapOnly (HeapOnly.mosquittoFree _ _ _ h₃)
        refine .inl ⟨nofun, ?_⟩
        rw [hsame₃.outBlocks, hsame₂.outBlocks]
        exact hm₂.mosquittoFree h₃
      · cases hr
    · rw [onErr_ok] at h₂
      rcases hm₁.packetAlloc h₂ with ⟨e, hr, -⟩ | ⟨packet, buffer, hr, hpayload, hnone, hout, hm₂⟩
      · cases hr
      cases hr
      rw [← (SameQueue.ofHeapOnly (HeapOnly.packetAlloc _ _ _ h₂)).outBlocks] at hm₂
      rcases bind_some.mp h with ⟨e, h₃, -⟩ | ⟨_, m₃, h₃, h⟩
      · exact absurd h₃ (neverFails_modify _ _ _)
      have hm₃ := hm₂.touch (by simp [hpayload]) h₃
      rw [← (SameQueue.ofHeapOnly (HeapOnly.touch _ _ _ h₃)).outBlocks] at hm₃
      have hbuffer : isReceived buffer.block = false := by simp [isReceived, hout]
      obtain ⟨filled, hfilled, hblocks, hnone'⟩ : ∃ filled : Packet,
          WeeveMQ.packetQueue env block filled m₃ = some (r, m') ∧
            filled.cleanupBlocks = [buffer.block] ∧ filled.mqttPacket = none :=
        ⟨_, h, by simp [Packet.cleanupBlocks, hpayload, hnone], hnone⟩
      refine .inr ⟨block, filled, m₃, ?_, hnone', fun b hb => ?_, hfilled⟩
      · rw [hblocks]
        exact hm₃
      · rw [hblocks] at hb
        rcases List.mem_cons.mp hb with rfl | hb
        · exact hblock
        · rw [List.mem_singleton.mp hb]
          exact hbuffer

/-- The blocks of the queue stay on the ledger or are released, and others that do not
    get there may be lost. -/
def SendsBlocks (env : Setup σ) (m m' : Mosq σ) : Prop :=
  ∀ start held lost, Ledger env start m (m.outBlocks ++ held) lost →
    ∃ more, Ledger env start m' (m'.outBlocks ++ held) (more ++ lost) ∧ NoneReceived more

namespace SendsBlocks

instance : Std.Refl (SendsBlocks env) where
  refl _ _ _ _ h := ⟨[], h, nofun⟩

instance : IsTrans (Mosq σ) (SendsBlocks env) where
  trans _ _ _ h h' start held lost hm := by
    obtain ⟨more, hm₁, hmore⟩ := h start held lost hm
    obtain ⟨more', hm₂, hmore'⟩ := h' start held _ hm₁
    refine ⟨more' ++ more, ?_, fun b hb => ?_⟩
    · rwa [List.append_assoc]
    · rcases List.mem_append.mp hb with hb | hb
      · exact hmore' b hb
      · exact hmore b hb

theorem ofWrites {m m' : Mosq σ} (h : WritesBlocks env m m') : SendsBlocks env m m' :=
  fun start held lost hm => ⟨[], h start held lost hm, nofun⟩

theorem temp_notReceived {temp : List Block}
    (h : ∀ b ∈ temp, b.kind.purpose = .tempSmpMessage) : ∀ b ∈ temp, isReceived b = false := by
  intro b hb
  simp [isReceived, h b hb]

theorem sendPacket {command : UInt8} {mid : UInt16} {body : Bytes} :
    Relates (SendsBlocks env) (sendPacket env command mid body) := by
  intro m r m' h start held lost hm
  rcases hm.sendPacket h with ⟨-, hm'⟩ | ⟨block, packet, m₁, hm₁, hnone, hown, hqueue⟩
  · exact ⟨[], hm', .nil⟩
  · rcases Ledger.packetQueue hm₁ hnone hqueue with ⟨-, -, -, hm'⟩ | ⟨e, temp, -, hm', htemp⟩
    · exact ⟨[], hm', .nil⟩
    · refine ⟨(block :: packet.cleanupBlocks) ++ temp, ?_, hown.append (temp_notReceived htemp)⟩
      rwa [List.cons_append, List.cons_append, List.append_assoc]

/-- What a handler does, up to the packet it handles. -/
theorem runAct {act : HandlerAct} : Relates (SendsBlocks env) (runAct env act) := by
  cases act with
  | send command mid body => exact relates_ignoreErr sendPacket
  | setState state => exact relates_modify fun _ => ofWrites (.ofSame rfl rfl rfl)
  | inCallback running => exact relates_modify fun _ => ofWrites (.ofSame rfl rfl rfl)
  | socketClose => exact relates_modify fun _ => ofWrites (.ofSame rfl rfl rfl)
  | disconnect =>
    refine relates_modify fun m => ofWrites ?_
    unfold doDisconnect
    split
    · exact Std.Refl.refl m
    · exact .ofSame rfl rfl rfl

theorem runActs {acts : List HandlerAct} : Relates (SendsBlocks env) (runActs env acts) := by
  induction acts with
  | nil => exact relates_pure
  | cons act acts ih => exact runAct.bind fun _ => ih

end SendsBlocks

end WeeveMQ
