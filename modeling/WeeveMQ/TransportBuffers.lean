/-
  WeeveMQ.TransportBuffers

  The end of a connection, and what is released with it.

  `context__cleanup` of the broker, `mosquitto__reconnect` and
  `mosquitto__destroy` of the client all release the packet that is being read
  through `packet__cleanup`, and the packets that wait.  Two kinds of blocks
  escape them: the buffer of a frame the session refuses, which `packet__read`
  loses, and the buffer of a frame that is not complete, which
  `packet__cleanup` does not know.

  - `queuedOrReleased_iff`: one call of `packet__queue`.
  - `transport_buffers_released_iff`: connections from their begin to their end.
-/

import WeeveMQ.BrokerGate
import WeeveMQ.ClientRun
import WeeveMQ.MessageSizes
import WeeveMQ.ReceiveLedger

namespace WeeveMQ

open Call

/-! ## The end of a connection -/

/-- `wclSmpClose` of the client's session, which is NULL from then on. -/
def closeSmpSession (platform : Platform) : Call (Mosq SmpSession) MosqError Unit := fun mosq =>
  (platform.closeSession mosq.session).map fun storage => (.ok (), { mosq with
    session := { mosq.session with
      session := { mosq.session.session with storage := storage }
      isOpen := false
      calls := mosq.session.calls + 1 } })

section Functions

variable {σ : Type} (env : Setup σ)

/-- The current packet, as `context__cleanup` releases it. -/
def releaseCurrent : Call (Mosq σ) MosqError Unit := do
  match (← get).currentOutPacket with
  | none => return ()
  | some out =>
    let _ ← packetCleanup env out.packet
    mosquittoFree env (some out.block)
    modify fun mosq => { mosq with currentOutPacket := none }

/-- The packets behind it. -/
def releaseQueue : Nat → Call (Mosq σ) MosqError Unit
  | 0 => return ()
  | fuel + 1 => do
    match (← get).outPacket with
    | [] => return ()
    | out :: rest =>
      let _ ← packetCleanup env out.packet
      modify fun mosq => { mosq with outPacket := rest }
      mosquittoFree env (some out.block)
      releaseQueue fuel

end Functions

/-- `context__cleanup`, as far as it concerns the session and the packets. -/
def contextCleanup (platform : Platform) (handlers : Handlers) :
    Call (Mosq SmpSession) MosqError Unit := do
  closeSmpSession platform
  netSocketClose
  cleanupInPacket (platform.broker handlers)
  releaseCurrent (platform.broker handlers)
  releaseQueue (platform.broker handlers) (← get).outPacket.length

/-- `mosquitto__destroy`, as far as it concerns them. -/
def mosquittoDestroy (platform : Platform) (handlers : ClientHandlers) :
    Call (Mosq SmpSession) MosqError Unit := do
  closeSmpSession platform
  onlyIf ((← get).sock = true) netSocketClose
  purgeQueue (platform.client handlers)
  cleanupInPacket (platform.client handlers)

/-! ## Releasing what waits -/

section Releasing

variable {σ : Type} {env : Setup σ} {start m m' : Mosq σ} {held lost : List Block}

/-- All that is allocated is known. -/
theorem Ledger.ofOwns (h : m.heap.Owns (held ++ lost))
    (hrefunded : ∀ b ∈ held, isRefunded b = true) : Ledger env m m held lost := by
  refine ⟨h, hrefunded, fun _ hlt => ?_, id, List.suffix_rfl⟩
  omega

/-- The client once a packet that waited is released. -/
def Mosq.freedOut (env : Setup σ) (m : Mosq σ) (out : OutPacket σ) : Mosq σ :=
  ((m.freed env (out.packet.mqttPacket.map Buffer.block)).freed env
    (out.packet.payload.map Buffer.block)).freed env (some out.block)

theorem HeapOnly.freedOut (m : Mosq σ) (out : OutPacket σ) : HeapOnly m (m.freedOut env out) :=
  trans_of HeapOnly (trans_of HeapOnly (HeapOnly.freed _ m) (HeapOnly.freed _ _))
    (HeapOnly.freed _ _)

/-- Its blocks are off the ledger. -/
theorem Ledger.freedOut {out : OutPacket σ} (h : Ledger env start m (out.blocks ++ held) lost) :
    Ledger env start (m.freedOut env out) held lost := by
  rw [OutPacket.blocks, Packet.cleanupBlocks, List.append_assoc, List.append_assoc] at h
  exact h.freed.freed.freed

theorem Mosq.outBlocks_eq (m : Mosq σ) : m.outBlocks = m.waiting.flatMap OutPacket.blocks := rfl

theorem WritesBlocks.purgePackets {fuel : Nat} :
    Relates (WritesBlocks env) (purgePackets env fuel) := by
  induction fuel with
  | zero => exact relates_pure
  | succ fuel ih =>
    intro m r m' h
    unfold WeeveMQ.purgePackets at h
    rw [bind_of_ok get_apply] at h
    cases hcurrent : m.currentOutPacket with
    | none =>
      simp only [hcurrent] at h
      cases h
      exact Std.Refl.refl m
    | some out =>
      simp only [hcurrent] at h
      rw [bind_of_ok modify_apply, bind_of_ok (packetCleanup_apply _ _),
        bind_of_ok (mosquittoFree_apply _ _)] at h
      have hleaves : m.currentOutPacket.map OutPacket.blocks = some out.blocks := by
        rw [hcurrent]
        rfl
      have hrest : WritesBlocks env (WritesBlocks.released env m out) m' := ih _ _ _ h
      exact trans_of (WritesBlocks env) (WritesBlocks.release hleaves) hrest

theorem WritesBlocks.purgeQueue : Relates (WritesBlocks env) (purgeQueue env) := by
  unfold WeeveMQ.purgeQueue
  refine Relates.bind (relates_modify fun m => ?_) fun _ => ?_
  · split
    · next hnone => exact WritesBlocks.begin (Option.isNone_iff_eq_none.mp hnone)
    · exact Std.Refl.refl m
  · exact relates_get.bind fun _ => purgePackets

/-- The packet that is being read has no part in that. -/
theorem purgePackets_inPacket {fuel : Nat} {r : Except MosqError Unit}
    (h : purgePackets env fuel m = some (r, m')) : m'.inPacket = m.inPacket := by
  induction fuel generalizing m with
  | zero =>
    cases h
    rfl
  | succ fuel ih =>
    unfold purgePackets at h
    rw [bind_of_ok get_apply] at h
    cases hcurrent : m.currentOutPacket with
    | none =>
      simp only [hcurrent] at h
      cases h
      rfl
    | some out =>
      simp only [hcurrent] at h
      rw [bind_of_ok modify_apply, bind_of_ok (packetCleanup_apply _ _),
        bind_of_ok (mosquittoFree_apply _ _)] at h
      exact (ih h).trans (HeapOnly.freedOut (nextOutPacket m) out).inPacket

theorem purgeQueue_inPacket {r : Except MosqError Unit} (h : purgeQueue env m = some (r, m')) :
    m'.inPacket = m.inPacket := by
  unfold purgeQueue at h
  rw [bind_of_ok modify_apply, bind_of_ok get_apply] at h
  rw [purgePackets_inPacket h]
  split <;> rfl

theorem purgeQueue_ledger {r : Except MosqError Unit}
    (hL : Ledger env start m (m.outBlocks ++ held) lost) (h : purgeQueue env m = some (r, m')) :
    r = .ok () ∧ Ledger env start m' held lost := by
  obtain ⟨hr, hempty, -⟩ := purgeQueue_empty h
  have hL' := WritesBlocks.purgeQueue _ _ _ h start held lost hL
  rw [Mosq.outBlocks_eq, hempty] at hL'
  exact ⟨hr, hL'⟩

theorem releaseCurrent_ledger {r : Except MosqError Unit}
    (hL : Ledger env start m (m.outBlocks ++ held) lost) (h : releaseCurrent env m = some (r, m')) :
    r = .ok () ∧ Ledger env start m' (m'.outBlocks ++ held) lost ∧ m'.currentOutPacket = none ∧
      m'.inPacket = m.inPacket := by
  unfold releaseCurrent at h
  rw [bind_of_ok get_apply] at h
  cases hcurrent : m.currentOutPacket with
  | none =>
    simp only [hcurrent] at h
    cases h
    exact ⟨rfl, hL, hcurrent, rfl⟩
  | some out =>
    simp only [hcurrent] at h
    rw [bind_of_ok (packetCleanup_apply _ _), bind_of_ok (mosquittoFree_apply _ _),
      modify_apply] at h
    have hblocks : m.outBlocks = out.blocks ++ m.outPacket.flatMap OutPacket.blocks := by
      rw [Mosq.outBlocks, hcurrent]
      rfl
    rw [hblocks, List.append_assoc] at hL
    have hfreed : HeapOnly m (m.freedOut env out) := .freedOut m out
    have hqueue : (m.freedOut env out).outPacket = m.outPacket := hfreed.outPacket
    cases h
    refine ⟨rfl, ?_, rfl, hfreed.inPacket⟩
    show Ledger env start _ ((m.freedOut env out).outPacket.flatMap OutPacket.blocks ++ held) lost
    rw [hqueue]
    exact hL.freedOut.congr rfl rfl

/-- Every packet of the queue is released, when there is no current one. -/
theorem releaseQueue_ledger {fuel : Nat} {r : Except MosqError Unit}
    (hfuel : m.outPacket.length ≤ fuel) (hnone : m.currentOutPacket = none)
    (hL : Ledger env start m (m.outBlocks ++ held) lost)
    (h : releaseQueue env fuel m = some (r, m')) :
    r = .ok () ∧ Ledger env start m' held lost ∧ m'.inPacket = m.inPacket := by
  have hblocks : m.outBlocks = m.outPacket.flatMap OutPacket.blocks := by
    rw [Mosq.outBlocks, hnone]
    rfl
  rw [hblocks] at hL
  -- on the packets of the queue
  clear hblocks
  induction fuel generalizing m with
  | zero =>
    cases h
    rw [List.eq_nil_of_length_eq_zero (Nat.le_zero.mp hfuel)] at hL
    exact ⟨rfl, hL, rfl⟩
  | succ fuel ih =>
    unfold releaseQueue at h
    rw [bind_of_ok get_apply] at h
    cases hqueue : m.outPacket with
    | nil =>
      simp only [hqueue] at h
      cases h
      rw [hqueue] at hL
      exact ⟨rfl, hL, rfl⟩
    | cons out rest =>
      simp only [hqueue] at h
      rw [bind_of_ok (packetCleanup_apply _ _), bind_of_ok modify_apply,
        bind_of_ok (mosquittoFree_apply _ _)] at h
      rw [hqueue] at hL hfuel
      rw [List.flatMap_cons, List.append_assoc] at hL
      have hfreed : HeapOnly m (m.freedOut env out) := .freedOut m out
      -- the packet is taken off the queue before its own block is freed
      obtain ⟨m₁, hm₁⟩ : ∃ m₁, m₁ = { m.freedOut env out with outPacket := rest } := ⟨_, rfl⟩
      have hcall : releaseQueue env fuel m₁ = some (r, m') := by
        rw [hm₁]
        exact h
      have hnone₁ : m₁.currentOutPacket = none := by
        rw [hm₁]
        exact hfreed.currentOutPacket.trans hnone
      have hin₁ : m₁.inPacket = m.inPacket := by
        rw [hm₁]
        exact hfreed.inPacket
      have hqueue₁ : m₁.outPacket = rest := by rw [hm₁]
      have hL₁ : Ledger env start m₁ (m₁.outPacket.flatMap OutPacket.blocks ++ held) lost := by
        rw [hqueue₁, hm₁]
        exact hL.freedOut.congr rfl rfl
      rw [← hqueue₁] at hfuel
      obtain ⟨hr, hL', hin⟩ := ih (Nat.le_of_succ_le_succ hfuel) hnone₁ hL₁ hcall
      exact ⟨hr, hL', hin.trans hin₁⟩

/-- `packet__cleanup` releases two of the three blocks of the packet that is being read. -/
theorem cleanupInPacket_ledger {r : Except MosqError Unit}
    (hL : Ledger env start m (m.inPacket.cleanupBlocks ++ held) lost)
    (h : cleanupInPacket env m = some (r, m')) :
    r = .ok () ∧ Ledger env start m' held lost ∧ m'.inPacket = m.inPacket.cleaned ∧
      SameQueue m m' := by
  rw [cleanupInPacket_apply] at h
  have hfreed : HeapOnly m ((m.freed env (m.inPacket.mqttPacket.map Buffer.block)).freed env
      (m.inPacket.payload.map Buffer.block)) :=
    trans_of HeapOnly (HeapOnly.freed _ _) (HeapOnly.freed _ _)
  rw [Packet.cleanupBlocks, List.append_assoc] at hL
  cases h
  exact ⟨rfl, hL.freed.freed.congr rfl rfl, rfl, hfreed.currentOutPacket, hfreed.outPacket⟩

/-! ## Releasing all -/

/-- All blocks a client holds are released, but the buffer of a frame that is not complete. -/
def ReleasesAll (env : Setup σ) (m m' : Mosq σ) : Prop :=
  ∀ start held lost, Ledger env start m (m.blocks ++ held) lost →
    Ledger env start m' held (m.inPacket.frameBlocks ++ lost)

/-- What the packet that is being read and the queue hold, and the buffer that is lost. -/
theorem Ledger.loseFrame (h : Ledger env start m (m.blocks ++ held) lost) :
    Ledger env start m (m.inPacket.cleanupBlocks ++ (m.outBlocks ++ held))
      (m.inPacket.frameBlocks ++ lost) := by
  rw [Mosq.blocks, Packet.inBlocks, List.append_assoc, List.append_assoc] at h
  exact h.lose

end Releasing

section Ending

variable {platform : Platform} {m m' : Mosq SmpSession} {r : Except MosqError Unit}

/-- Closing the session leaves the packets alone. -/
theorem closeSmpSession_same (h : closeSmpSession platform m = some (r, m')) :
    r = .ok () ∧ SameBlocks m m' ∧ m'.inPacket = m.inPacket := by
  obtain ⟨storage, -, hm⟩ := Option.map_eq_some_iff.mp h
  cases hm
  exact ⟨rfl, ⟨rfl, rfl, ⟨rfl, rfl, rfl, rfl⟩, ⟨rfl, rfl⟩⟩, rfl⟩

theorem socketClosed_same {c : Prop} [Decidable c] {r : Except MosqError Unit}
    (h : onlyIf c netSocketClose m = some (r, m')) :
    SameBlocks m m' ∧ m'.inPacket = m.inPacket := by
  unfold onlyIf at h
  split at h <;> cases h <;> exact ⟨⟨rfl, rfl, ⟨rfl, rfl, rfl, rfl⟩, ⟨rfl, rfl⟩⟩, rfl⟩

theorem netSocketConnect_same {socket : Option (List Recv × List Send)}
    {r : Except MosqError Unit} (h : netSocketConnect socket m = some (r, m')) :
    SameBlocks m m' ∧ m'.inPacket = m.inPacket := by
  unfold netSocketConnect at h
  rw [bind_of_ok modify_apply] at h
  cases socket with
  | none =>
    cases h
    exact ⟨⟨rfl, rfl, ⟨rfl, rfl, rfl, rfl⟩, ⟨rfl, rfl⟩⟩, rfl⟩
  | some scripts =>
    cases h
    exact ⟨⟨rfl, rfl, ⟨rfl, rfl, rfl, rfl⟩, ⟨rfl, rfl⟩⟩, rfl⟩

theorem contextCleanup_releases {handlers : Handlers}
    (h : contextCleanup platform handlers m = some (r, m')) :
    ReleasesAll (platform.broker handlers) m m' := by
  intro start held lost hL
  replace hL := hL.loseFrame
  unfold contextCleanup at h
  rcases bind_some.mp h with ⟨e, h₁, -⟩ | ⟨_, m₁, h₁, h⟩
  · cases (closeSmpSession_same h₁).1
  obtain ⟨-, hsame₁, hin₁⟩ := closeSmpSession_same h₁
  replace hL := hL.same hsame₁
  unfold netSocketClose at h
  rw [bind_of_ok modify_apply] at h
  rcases bind_some.mp h with ⟨e, h₂, -⟩ | ⟨_, m₂, h₂, h⟩
  · rw [cleanupInPacket_apply] at h₂
    cases h₂
  obtain ⟨m₁', hm₁'⟩ : ∃ m₁' : Mosq SmpSession, m₁' = { m₁ with sock := false } := ⟨_, rfl⟩
  have hL₁ : Ledger (platform.broker handlers) start m₁'
      (m₁'.inPacket.cleanupBlocks ++ (m₁'.outBlocks ++ held)) (m.inPacket.frameBlocks ++ lost) := by
    have hin : m₁'.inPacket = m.inPacket := by rw [hm₁', hin₁]
    have hout : m₁'.outBlocks = m.outBlocks := by
      rw [← hsame₁.queue.outBlocks, hm₁']
      rfl
    rw [hin, hout, hm₁']
    exact hL.congr rfl rfl
  rw [← hm₁'] at h₂
  obtain ⟨-, hL₂, -, hqueue₂⟩ := cleanupInPacket_ledger hL₁ h₂
  rw [← hqueue₂.outBlocks] at hL₂
  rcases bind_some.mp h with ⟨e, h₃, -⟩ | ⟨_, m₃, h₃, h⟩
  · cases (releaseCurrent_ledger hL₂ h₃).1
  obtain ⟨-, hL₃, hnone, -⟩ := releaseCurrent_ledger hL₂ h₃
  rw [bind_of_ok get_apply] at h
  exact (releaseQueue_ledger (Nat.le_refl _) hnone hL₃ h).2.1

theorem mosquittoDestroy_releases {handlers : ClientHandlers}
    (h : mosquittoDestroy platform handlers m = some (r, m')) :
    ReleasesAll (platform.client handlers) m m' := by
  intro start held lost hL
  replace hL := hL.loseFrame
  unfold mosquittoDestroy at h
  rcases bind_some.mp h with ⟨e, h₁, -⟩ | ⟨_, m₁, h₁, h⟩
  · cases (closeSmpSession_same h₁).1
  obtain ⟨-, hsame₁, hin₁⟩ := closeSmpSession_same h₁
  rw [bind_of_ok get_apply] at h
  rcases bind_some.mp h with ⟨e, h₂, -⟩ | ⟨_, m₂, h₂, h⟩
  · exact absurd h₂ (NeverFails.onlyIf neverFails_modify _ _ _)
  obtain ⟨hsame₂, hin₂⟩ := socketClosed_same h₂
  have hsame := trans_of SameBlocks hsame₁ hsame₂
  replace hL := (hL.same hsame).perm (List.perm_append_comm_assoc ..)
  rw [← hsame.queue.outBlocks] at hL
  rcases bind_some.mp h with ⟨e, h₃, -⟩ | ⟨_, m₃, h₃, h⟩
  · cases (purgeQueue_ledger hL h₃).1
  obtain ⟨-, hL₃⟩ := purgeQueue_ledger hL h₃
  have hin₃ := purgeQueue_inPacket h₃
  rw [← hin₁, ← hin₂, ← hin₃] at hL₃
  rw [← hin₁, ← hin₂, ← hin₃]
  exact (cleanupInPacket_ledger hL₃ h).2.1

/-! ## A new connection -/

/-- A call keeps the blocks on the ledger, and loses none of the packet that is being read. -/
def KeepsBlocks {σ : Type} (env : Setup σ) (m m' : Mosq σ) : Prop :=
  ∀ start held lost, Ledger env start m (m.blocks ++ held) lost →
    ∃ more, Ledger env start m' (m'.blocks ++ held) (more ++ lost) ∧ NoneReceived more

theorem KeepsBlocks.ofSends {σ : Type} {env : Setup σ} {m m' : Mosq σ}
    (h : SendsBlocks env m m') (hin : m'.inPacket = m.inPacket) : KeepsBlocks env m m' := by
  intro start held lost hL
  rw [Mosq.blocks, List.append_assoc] at hL
  obtain ⟨more, hL', hmore⟩ := h start _ lost (hL.perm (List.perm_append_comm_assoc ..))
  refine ⟨more, ?_, hmore⟩
  rw [Mosq.blocks, hin, List.append_assoc]
  exact hL'.perm (List.perm_append_comm_assoc ..)

instance {σ : Type} {env : Setup σ} : IsTrans (Mosq σ) (KeepsBlocks env) where
  trans _ _ _ h h' start held lost hL := by
    obtain ⟨more, hL₁, hmore⟩ := h start held lost hL
    obtain ⟨more', hL', hmore'⟩ := h' start held _ hL₁
    rw [← List.append_assoc] at hL'
    exact ⟨more' ++ more, hL', hmore'.append hmore⟩

theorem KeepsBlocks.ofSame {σ : Type} {env : Setup σ} {m m' : Mosq σ} (hsame : SameBlocks m m')
    (hin : m'.inPacket = m.inPacket) : KeepsBlocks env m m' := by
  intro start held lost hL
  refine ⟨[], ?_, .nil⟩
  rw [Mosq.blocks, hin, hsame.queue.outBlocks]
  exact hL.same hsame

/-- `mosquitto__reconnect` releases the old connection, then it begins a new one. -/
theorem mosquittoReconnect_releases {handlers : ClientHandlers} {body : Bytes}
    {socket : Option (List Recv × List Send)}
    (h : mosquittoReconnect platform handlers body socket m = some (r, m')) :
    ∃ m₁, ReleasesAll (platform.client handlers) m m₁ ∧ m₁.blocks = [] ∧
      KeepsBlocks (platform.client handlers) m₁ m' ∧ ReadyToRead m'.inPacket := by
  unfold mosquittoReconnect at h
  rcases bind_some.mp h with ⟨e, h₁, -⟩ | ⟨_, m₁, h₁, h⟩
  · obtain ⟨session, -, hm⟩ := Option.map_eq_some_iff.mp h₁
    cases hm
  obtain ⟨session, -, hm₁⟩ := Option.map_eq_some_iff.mp h₁
  rw [bind_of_ok modify_apply] at h
  obtain ⟨m₁', hm₁'⟩ : ∃ m₁' : Mosq SmpSession, m₁' = { m₁ with state := MosqState.new } :=
    ⟨_, rfl⟩
  rw [← hm₁'] at h
  have hsame₁ : SameBlocks m m₁' ∧ m₁'.inPacket = m.inPacket := by
    rw [hm₁']
    cases hm₁
    exact ⟨⟨rfl, rfl, ⟨rfl, rfl, rfl, rfl⟩, ⟨rfl, rfl⟩⟩, rfl⟩
  rcases bind_some.mp h with ⟨e, h₂, -⟩ | ⟨_, m₂, h₂, h⟩
  · rw [cleanupInPacket_apply] at h₂
    cases h₂
  rcases bind_some.mp h with ⟨e, h₃, -⟩ | ⟨_, m₃, h₃, h⟩
  · cases (purgeQueue_empty h₃).1
  -- nothing looks after a frame that was being read: its buffer is lost here
  have hreleases : ReleasesAll (platform.client handlers) m m₃ := by
    intro start held lost hL
    replace hL := hL.loseFrame.same hsame₁.1
    rw [← hsame₁.1.queue.outBlocks, ← hsame₁.2] at hL
    obtain ⟨-, hL₂, -, hqueue₂⟩ := cleanupInPacket_ledger hL h₂
    rw [← hqueue₂.outBlocks] at hL₂
    rw [← hsame₁.2]
    exact (purgeQueue_ledger hL₂ h₃).2
  have hin₃ : m₃.inPacket = m.inPacket.cleaned := by
    rw [cleanupInPacket_apply] at h₂
    cases h₂
    rw [purgeQueue_inPacket h₃, ← hsame₁.2]
  have hready : ReadyToRead m₃.inPacket := by
    rw [hin₃]
    exact .cleaned _
  have hblocks : m₃.blocks = [] := by
    rw [Mosq.blocks, Mosq.outBlocks_eq, (purgeQueue_empty h₃).2.1, hin₃]
    rfl
  refine ⟨m₃, hreleases, hblocks, ?_⟩
  rw [bind_of_ok get_apply] at h
  rcases bind_some.mp h with ⟨e, h₄, -⟩ | ⟨_, m₄, h₄, h⟩
  · exact absurd h₄ (NeverFails.onlyIf neverFails_modify _ _ _)
  obtain ⟨hsame₄, hin₄⟩ := socketClosed_same h₄
  rw [bind_of_ok modify_apply] at h
  -- up to the CONNECT nothing happens to the blocks
  have hconnects : ∀ {m₅ : Mosq SmpSession} {r : Except MosqError Unit},
      netSocketConnect socket { m₄ with state := MosqState.connecting } = some (r, m₅) →
      KeepsBlocks (platform.client handlers) m₃ m₅ ∧ m₅.inPacket = m₃.inPacket := by
    intro m₅ r h₅
    obtain ⟨hsame₅, hin₅⟩ := netSocketConnect_same h₅
    replace hsame₅ : SameBlocks m₄ m₅ := ⟨hsame₅.heap, hsame₅.memcount, hsame₅.pointers,
      hsame₅.queue.currentOutPacket, hsame₅.queue.outPacket⟩
    have hin : m₅.inPacket = m₃.inPacket := hin₅.trans hin₄
    exact ⟨.ofSame (trans_of SameBlocks hsame₄ hsame₅) hin, hin⟩
  rcases bind_some.mp h with ⟨e, h₅, -⟩ | ⟨_, m₅, h₅, h⟩
  · obtain ⟨hkeeps, hin⟩ := hconnects h₅
    rw [hin]
    exact ⟨hkeeps, hready⟩
  · obtain ⟨hkeeps, hin₅⟩ := hconnects h₅
    have hin : m'.inPacket = m₅.inPacket := (SendSide.sendPacket _ _ _ h).inPacket
    have hsends := KeepsBlocks.ofSends (SendsBlocks.sendPacket _ _ _ h) hin
    rw [hin, hin₅]
    exact ⟨trans_of (KeepsBlocks (platform.client handlers)) hkeeps hsends, hready⟩

/-! ## What a run does to the blocks -/

/-- The ledger of a client, and of others who hold blocks: the client has lost none of the
    blocks of the packets that were read, if something holds and only then. -/
structure Tracked {σ : Type} (env : Setup σ) (start : Mosq σ) (held lost : List Block)
    (accepted : Prop) (m : Mosq σ) : Prop where
  keeps : KeepsReceived env start held lost accepted m
  ready : m.sock = true → ReadyToRead m.inPacket

/-- A client that holds no blocks: `context__init` and `mosquitto_new` leave it so. -/
structure HoldsNothing {σ : Type} (m : Mosq σ) : Prop where
  sound : m.heap.Sound
  inPacket : m.inPacket = zeroPacket.cleaned
  current : m.currentOutPacket = none
  queue : m.outPacket = []

theorem Ledger.fromHere {σ : Type} {env : Setup σ} {start m : Mosq σ} {held lost : List Block}
    (h : Ledger env start m held lost) : Ledger env m m held lost := .ofOwns h.owns h.refunded

theorem HoldsNothing.tracked {σ : Type} {env : Setup σ} {start : Mosq σ}
    (h : HoldsNothing start) : Tracked env start [] start.heap.live True start := by
  have hblocks : start.blocks = [] := by
    rw [Mosq.blocks, Mosq.outBlocks, h.inPacket, h.current, h.queue]
    rfl
  have hL : Ledger env start start (start.blocks ++ []) start.heap.live := by
    rw [hblocks]
    exact .ofOwns ⟨h.sound, .refl _⟩ (List.forall_mem_nil _)
  refine ⟨.all ?_ hL trivial, fun _ => ?_⟩
  · rw [h.inPacket]
    exact List.forall_mem_nil _
  · rw [h.inPacket]
    exact .cleaned _

section Tracking

variable {σ : Type} {env : Setup σ} {start m m' : Mosq σ} {held lost : List Block} {p : Prop}

/-- A call that loses none of the blocks of the packet that is being read. -/
theorem Tracked.keepsBlocks (h : Tracked env start held lost p m) (hkeeps : KeepsBlocks env m m')
    (hin : m'.inPacket = m.inPacket) (hsock : m'.sock = true → m.sock = true) :
    Tracked env start held lost p m' := by
  obtain ⟨⟨hframe, more, hL, hmore⟩, hready⟩ := h
  obtain ⟨more', hL', hmore'⟩ := hkeeps start _ _ hL
  rw [← List.append_assoc] at hL'
  refine ⟨⟨?_, more' ++ more, hL', hmore.trans ⟨hmore'.append, NoneReceived.right⟩⟩,
    fun hopen => ?_⟩
  · rw [hin]
    exact hframe
  · rw [hin]
    exact hready (hsock hopen)

/-- A call of `packet__read`; what is done with the socket after that is left open. -/
theorem Tracked.read {r : Except MosqError Unit} (hempty : RefusesEmpty env)
    (h : Tracked env start held lost p m) (hcall : packetRead env m = some (r, m')) :
    KeepsReceived env start held lost (p ∧ AcceptsNext env m) m' ∧
      (r = .ok () → m'.sock = true → ReadyToRead m'.inPacket) := by
  obtain ⟨⟨hframe, more, hL, hmore⟩, hready⟩ := h
  obtain ⟨⟨hframe', more', hL', hmore'⟩, hready'⟩ := packetRead_ledger hempty hready hframe hL hcall
  rw [← List.append_assoc] at hL'
  refine ⟨⟨hframe', more' ++ more, hL', ?_⟩, hready'⟩
  rw [and_comm, hmore, hmore']
  exact List.forall_mem_append.symm

/-- What happens once all that was held is released: these blocks are held in the end. -/
def GoesOn (env : Setup σ) (m : Mosq σ) (new : List Block) (m' : Mosq σ) : Prop :=
  ∀ start held lost, Ledger env start m held lost →
    ∃ more, Ledger env start m' (new ++ held) (more ++ lost) ∧ NoneReceived more

theorem GoesOn.stop (m : Mosq σ) : GoesOn env m [] m := fun _ _ _ hL => ⟨[], hL, .nil⟩

theorem KeepsBlocks.goesOn (h : KeepsBlocks env m m') (hblocks : m.blocks = []) :
    GoesOn env m m'.blocks m' := by
  intro start held lost hL
  rw [← List.nil_append held, ← hblocks] at hL
  exact h start held lost hL

theorem ReadyToRead.frameBlocks {q : Packet} (h : ReadyToRead q) :
    ∀ b ∈ q.frameBlocks, isReceived b = true := by
  intro b hb
  unfold Packet.frameBlocks at hb
  split at hb
  · cases hb
  · next hmissing =>
    obtain ⟨-, buffer, hbuffer, hreceived⟩ := h.frame.payload (Nat.pos_of_ne_zero hmissing)
    rw [hbuffer] at hb
    rwa [List.mem_singleton.mp hb]

theorem noneReceived_frame {frame more : List Block} (hframe : ∀ b ∈ frame, isReceived b = true) :
    NoneReceived (frame ++ more) ↔ NoneReceived more ∧ frame = [] := by
  constructor
  · refine fun h => ⟨h.right, List.eq_nil_iff_forall_not_mem.mpr fun b hb => ?_⟩
    have := h b (List.mem_append_left _ hb)
    rw [hframe b hb] at this
    cases this
  · rintro ⟨h, rfl⟩
    exact h

/-- A new connection is tracked like the one before it. -/
theorem Tracked.reconnect {m₁ : Mosq σ} (h : Tracked env start held lost p m)
    (hreleases : ReleasesAll env m m₁) (hrest : GoesOn env m₁ m'.blocks m')
    (hready : ReadyToRead m'.inPacket) :
    Tracked env start held lost (p ∧ m.inPacket.frameBlocks = []) m' := by
  obtain ⟨⟨hframe, more, hL, hmore⟩, -⟩ := h
  obtain ⟨more', hL', hmore'⟩ := hrest start _ _ (hreleases start _ _ hL)
  rw [← List.append_assoc m.inPacket.frameBlocks, ← List.append_assoc more'] at hL'
  refine ⟨⟨hready.frameBlocks, more' ++ (m.inPacket.frameBlocks ++ more), hL', ?_⟩, fun _ => hready⟩
  rw [hmore, ← noneReceived_frame hframe]
  exact ⟨hmore'.append, NoneReceived.right⟩

/-- Every block that was allocated for a packet that is read has been released exactly once,
    and was not touched after that. -/
def ReceivedReleased (start m m' : Mosq σ) : Prop :=
  ∀ b, .alloc b ∈ m.heap → .alloc b ∉ start.heap → isReceived b = true → m'.heap.ReleasedOnce b

/-- When all that is held is released, nothing is left but what was lost. -/
theorem Tracked.released_iff {m₁ : Mosq σ} {new : List Block}
    (h : Tracked env start [] start.heap.live p m) (hreleases : ReleasesAll env m m₁)
    (hrest : GoesOn env m₁ new m') :
    ReceivedReleased start m m' ↔ p ∧ m.inPacket.frameBlocks = [] := by
  obtain ⟨⟨hframe, more, hL, hmore⟩, -⟩ := h
  rw [hmore, ← noneReceived_frame hframe]
  have hgone := hreleases start _ _ hL
  obtain ⟨later, hL', -⟩ := hrest start _ _ hgone
  have hgrows₁ : m.heap <:+ m₁.heap := (hreleases m _ _ hL.fromHere).grows
  obtain ⟨_, hlast, -⟩ := hrest m₁ _ _ hgone.fromHere
  rw [List.append_nil] at hL hL'
  have hgrows' : m₁.heap <:+ m'.heap := hlast.grows
  constructor
  · intro hall b hb
    by_contra hreceived
    -- the block was lost, so it is live to the end
    have hlost : b ∈ new ++ (later ++ (m.inPacket.frameBlocks ++ (more ++ start.heap.live))) := by
      rw [← List.append_assoc m.inPacket.frameBlocks]
      exact List.mem_append_right _ (List.mem_append_right _ (List.mem_append_left _ hb))
    refine hL'.owns.not_released hlost (hall b ?_ ?_ (by simpa using hreceived))
    · refine hL.owns.alloc_mem ?_
      rcases List.mem_append.mp hb with hb | hb
      · exact List.mem_append_left _ (List.mem_append_left _ (List.mem_append_left _ hb))
      · exact List.mem_append_right _ (List.mem_append_left _ hb)
    · intro hbefore
      have hnodup := (List.nodup_append.mp hgone.owns.nodup).2.1
      rw [← List.append_assoc] at hnodup
      have hnotLive : b ∉ start.heap.live := fun hlive =>
        (List.nodup_append.mp hnodup).2.2 b hb b hlive rfl
      exact hL'.owns.1.not_live hL'.grows hbefore hnotLive (hL'.owns.2.mem_iff.mpr hlost)
  · intro hnone b halloc hnew hreceived
    have hgone' : b ∉ [] ++ (m.inPacket.frameBlocks ++ (more ++ start.heap.live)) := by
      rw [List.nil_append, ← List.append_assoc, List.mem_append, not_or]
      refine ⟨fun hb => ?_, fun hb => hnew (HeapLog.alloc_of_live hb)⟩
      have := hnone b hb
      rw [hreceived] at this
      cases this
    have hreleased := hgone.owns.released (hgrows₁.subset halloc) hgone'
    exact hreleased.later hL'.owns.1 hgrows'

end Tracking

/-! ## Runs -/

/-- No session accepts an empty message. -/
theorem refusesEmpty {role : Role}
    {handle : Nat → MosqState → Incoming → List HandlerAct × Except MosqError Unit} :
    RefusesEmpty (platform.setup role handle) := by
  intro s packet s' h
  change platform.call (fun env => wclSmpProcessMessage platform.cbor role env []) s = _ at h
  rcases Platform.call_cases h with ⟨-, hcall, -⟩ | ⟨hr, -⟩
  · unfold wclSmpProcessMessage at hcall
    obtain ⟨_, _, hnonempty, -⟩ := bind_ok.mp hcall
    exact (failIf_ok.mp hnonempty).1 rfl
  · cases hr

/-- What a step of the broker must meet: the session accepts the frames that are read. -/
def BrokerEvent.Meets (env : Setup SmpSession) (m : Mosq SmpSession) : BrokerEvent → Prop
  | .read _ => AcceptsNext env m
  | _ => True

/-- What a call of the client must meet: the session accepts the frames that are read, and
    no connection is given up in the middle of a frame. -/
def ClientEvent.Meets (env : Setup SmpSession) (m : Mosq SmpSession) : ClientEvent → Prop
  | .read => AcceptsNext env m
  | .reconnect _ _ => m.inPacket.frameBlocks = []
  | _ => True

section Steps

variable {start : Mosq SmpSession} {held lost : List Block} {p : Prop}

theorem KeepsReceived.congr {σ : Type} {env : Setup σ} {start m m' : Mosq σ} {p : Prop}
    {held lost : List Block} (h : KeepsReceived env start held lost p m) (hsame : SameBlocks m m')
    (hin : m'.inPacket = m.inPacket) : KeepsReceived env start held lost p m' := by
  obtain ⟨hframe, more, hL, hmore⟩ := h
  refine ⟨?_, more, ?_, hmore⟩
  · rw [hin]
    exact hframe
  · rw [Mosq.blocks, hin, hsame.queue.outBlocks]
    exact hL.same hsame

theorem doDisconnect_same {σ : Type} (m : Mosq σ) :
    SameBlocks m (doDisconnect m) ∧ (doDisconnect m).inPacket = m.inPacket := by
  unfold doDisconnect
  split
  · exact ⟨Std.Refl.refl m, rfl⟩
  · exact ⟨⟨rfl, rfl, ⟨rfl, rfl, rfl, rfl⟩, ⟨rfl, rfl⟩⟩, rfl⟩

theorem doDisconnect_open {σ : Type} {m : Mosq σ} (h : (doDisconnect m).sock = true) :
    m.sock = true := by
  unfold doDisconnect at h
  split at h
  · exact h
  · cases h

theorem Tracked.doDisconnect {env : Setup SmpSession} (h : Tracked env start held lost p m) :
    Tracked env start held lost p (doDisconnect m) :=
  h.keepsBlocks (.ofSame (doDisconnect_same m).1 (doDisconnect_same m).2) (doDisconnect_same m).2
    doDisconnect_open

theorem Tracked.sends {env : Setup SmpSession} (h : Tracked env start held lost p m)
    (hblocks : SendsBlocks env m m') (hside : SendSide env m m') :
    Tracked env start held lost p m' :=
  h.keepsBlocks (.ofSends hblocks hside.inPacket) hside.inPacket hside.sock

theorem tracked_brokerStep {handlers : Handlers} {event : BrokerEvent}
    (h : Gate platform handlers (fun _ => True) m ∧
      Tracked (platform.broker handlers) start held lost p m)
    (hstep : BrokerStep platform handlers m event m') :
    Gate platform handlers (fun _ => True) m' ∧ Tracked (platform.broker handlers) start held lost
      (p ∧ event.Meets (platform.broker handlers) m) m' := by
  obtain ⟨hgate, htracked⟩ := h
  refine ⟨gate_step hgate trivial hstep, ?_⟩
  -- of all steps only one that reads has to meet something
  have hall : ∀ {m'}, Tracked (platform.broker handlers) start held lost p m' →
      Tracked (platform.broker handlers) start held lost (p ∧ True) m' := by
    intro m' h
    rwa [and_true]
  cases hstep with
  | @read r m' call =>
    obtain ⟨hkeeps, hready⟩ := htracked.read refusesEmpty call
    cases r with
    | ok => exact ⟨hkeeps, hready rfl⟩
    | error e =>
      obtain ⟨-, hclosed, -, -⟩ := hgate.read trivial call
      refine ⟨hkeeps.congr (doDisconnect_same _).1 (doDisconnect_same _).2, fun hopen => ?_⟩
      rw [afterCall, doDisconnect_sock hclosed] at hopen
      cases hopen
  | @write r m' call =>
    have hmade : connectionMade m = m := if_neg hgate.made
    rw [hmade] at call
    have hwrites := htracked.sends (.ofWrites (WritesBlocks.packetWrite _ _ _ call))
      (SendSide.packetWrite _ _ _ call)
    cases r with
    | ok => exact hall hwrites
    | error e => exact hall hwrites.doDisconnect
  | send call =>
    exact hall (htracked.sends (SendsBlocks.sendPacket _ _ _ call) (SendSide.sendPacket _ _ _ call))
  | disconnect => exact hall htracked.doDisconnect
  | otherSession =>
    exact hall (htracked.keepsBlocks
      (.ofSame ⟨rfl, rfl, ⟨rfl, rfl, rfl, rfl⟩, ⟨rfl, rfl⟩⟩ rfl) rfl id)

theorem Tracked.update {env : Setup SmpSession} (h : Tracked env start held lost p m)
    (hsame : SameBlocks m m') (hin : m'.inPacket = m.inPacket)
    (hsock : m'.sock = true → m.sock = true) : Tracked env start held lost p m' :=
  h.keepsBlocks (.ofSame hsame hin) hin hsock

theorem loopRcHandle_same {σ : Type} (r : Except MosqError Unit) (m : Mosq σ) :
    SameBlocks m (loopRcHandle r m) ∧ (loopRcHandle r m).inPacket = m.inPacket := by
  cases r <;> exact ⟨⟨rfl, rfl, ⟨rfl, rfl, rfl, rfl⟩, ⟨rfl, rfl⟩⟩, rfl⟩

theorem Tracked.loopRcHandle {env : Setup SmpSession} {r : Except MosqError Unit}
    (h : Tracked env start held lost p m) : Tracked env start held lost p (loopRcHandle r m) := by
  refine h.update (loopRcHandle_same r m).1 (loopRcHandle_same r m).2 fun hopen => ?_
  cases r with
  | ok => exact hopen
  | error e => cases hopen

theorem tracked_clientStep {handlers : ClientHandlers} {event : ClientEvent}
    (h : Tracked (platform.client handlers) start held lost p m)
    (hstep : ClientStep platform handlers m event m') :
    Tracked (platform.client handlers) start held lost
      (p ∧ event.Meets (platform.client handlers) m) m' := by
  -- of all steps only one that reads or reconnects has to meet something
  have hall : ∀ {m'}, Tracked (platform.client handlers) start held lost p m' →
      Tracked (platform.client handlers) start held lost (p ∧ True) m' := by
    intro m' h
    rwa [and_true]
  have hsends : ∀ {command mid body r m m'},
      Tracked (platform.client handlers) start held lost p m →
      sendPacket (platform.client handlers) command mid body m = some (r, m') →
      Tracked (platform.client handlers) start held lost p m' := fun h call =>
    h.sends (SendsBlocks.sendPacket _ _ _ call) (SendSide.sendPacket _ _ _ call)
  -- what a step sends is queued or lost, and that is no block of a packet that was read
  cases hstep with
  | reconnect call =>
    obtain ⟨m₁, hreleases, hblocks, hkeeps, hready⟩ := mosquittoReconnect_releases call
    exact h.reconnect hreleases (hkeeps.goesOn hblocks) hready
  | send _ call =>
    unfold sendIfConnected at call
    rw [bind_of_ok get_apply] at call
    rcases bind_some.mp call with ⟨e, h₁, -⟩ | ⟨_, m₁, h₁, call⟩
    · obtain ⟨-, -, rfl⟩ := failIf_error.mp h₁
      exact hall h
    · obtain ⟨-, rfl⟩ := failIf_ok.mp h₁
      exact hall (hsends h call)
  | @read r m' call =>
    obtain ⟨hkeeps, hready⟩ := h.read refusesEmpty call
    cases r with
    | ok => exact ⟨hkeeps, hready rfl⟩
    | error e =>
      refine ⟨hkeeps.congr (loopRcHandle_same _ _).1 (loopRcHandle_same _ _).2, fun hopen => ?_⟩
      cases hopen
  | write call =>
    exact hall (h.sends (.ofWrites (WritesBlocks.packetWrite _ _ _ call))
      (SendSide.packetWrite _ _ _ call)).loopRcHandle
  | ping _ _ call => exact hall (hsends h call)
  | closeSocket =>
    refine hall (h.update ⟨rfl, rfl, ⟨rfl, rfl, rfl, rfl⟩, ⟨rfl, rfl⟩⟩ rfl fun hopen => ?_)
    cases hopen
  | disconnect call =>
    unfold mosquittoDisconnect at call
    rw [bind_of_ok modify_apply, bind_of_ok get_apply] at call
    have hstate : Tracked (platform.client handlers) start held lost p
        { m with state := .disconnecting } :=
      h.update ⟨rfl, rfl, ⟨rfl, rfl, rfl, rfl⟩, ⟨rfl, rfl⟩⟩ rfl id
    rcases bind_some.mp call with ⟨e, h₁, -⟩ | ⟨_, m₁, h₁, call⟩
    · obtain ⟨-, -, rfl⟩ := failIf_error.mp h₁
      exact hall hstate
    · obtain ⟨-, rfl⟩ := failIf_ok.mp h₁
      exact hall (hsends hstate call)
  | callback => exact hall (h.update ⟨rfl, rfl, ⟨rfl, rfl, rfl, rfl⟩, ⟨rfl, rfl⟩⟩ rfl id)

end Steps

end Ending

/-! ## One call of packet__queue -/

section Queueing

variable {σ : Type} {env : Setup σ} {m m' : Mosq σ}

/-- The caller's packet: its block and its buffer are its own, and not those of the queue. -/
structure OwnsPacket (m : Mosq σ) (block : Block) (packet : Packet) : Prop where
  owns : ∃ others, m.heap.Owns (packet.cleanupBlocks ++ (block :: m.outBlocks) ++ others)
  refunded : ∀ b ∈ packet.cleanupBlocks ++ (block :: m.outBlocks), isRefunded b = true
  mqttPacket : packet.mqttPacket = none

/-- The packet, its buffers and all that the call allocates are in the queue or released
    exactly once. -/
def QueuedOrReleased (m : Mosq σ) (block : Block) (packet : Packet) (m' : Mosq σ) : Prop :=
  ∀ b, b ∈ block :: packet.cleanupBlocks ∨ (.alloc b ∈ m'.heap ∧ .alloc b ∉ m.heap) →
    b ∈ m'.outBlocks ∨ m'.heap.ReleasedOnce b

/-- The bytes `packet__queue` gives to the session, and the type it gives them with. -/
def Packet.secures (env : Setup σ) (packet : Packet) (m : Mosq σ) : Prop :=
  let payload := (packet.payload.map Buffer.data).getD []
  FramesPacket env (payload.headD 0 >>> 4).toNat (payload.take packet.packetLength) m

theorem packetSecure_ok_iff {packet : Packet} :
    (∃ packet' m', packetSecure env packet m = some (.ok packet', m')) ↔ packet.secures env m := by
  -- looking at the payload changes nothing that the session or `malloc` goes by
  have htouched : ∀ m₁ : Mosq σ, touch packet.payload m = some (.ok (), m₁) →
      ∀ t bytes, FramesPacket env t bytes m₁ ↔ FramesPacket env t bytes m := by
    intro m₁ h₁ t bytes
    unfold WeeveMQ.touch at h₁
    rw [modify_apply] at h₁
    cases h₁
    cases packet.payload <;> exact Iff.rfl
  obtain ⟨m₁, h₁⟩ : ∃ m₁, touch packet.payload m = some (.ok (), m₁) := ⟨_, rfl⟩
  unfold packetSecure Packet.secures
  dsimp only
  rw [bind_of_ok h₁, ← htouched m₁ h₁, ← mosqWclSmpGetMessage_ok_iff]
  constructor
  · rintro ⟨packet', m', h⟩
    obtain ⟨buffer, m₂, h₂, -⟩ := bind_ok.mp h
    exact ⟨buffer, m₂, h₂⟩
  · rintro ⟨buffer, m₂, h₂⟩
    rw [bind_of_ok h₂, bind_of_ok (mosquittoFree_apply _ _)]
    exact ⟨_, _, rfl⟩

/-- A packet is queued, with its buffers, when it can be secured; otherwise it is lost. -/
theorem queuedOrReleased_iff {block : Block} {packet : Packet} {r : Except MosqError Unit}
    (hown : OwnsPacket m block packet) (h : packetQueue env block packet m = some (r, m')) :
    QueuedOrReleased m block packet m' ↔ packet.secures env m := by
  obtain ⟨others, hothers⟩ := hown.owns
  have hL : Ledger env m m (packet.cleanupBlocks ++ (block :: (m.outBlocks ++ []))) others := by
    rw [List.append_nil]
    exact .ofOwns hothers hown.refunded
  rcases hL.packetQueue hown.mqttPacket h with
    ⟨packet', m₁, hsecured, hL'⟩ | ⟨e, temp, hrefused, hL', -⟩
  · refine iff_of_true (fun b hb => ?_) (packetSecure_ok_iff.mp ⟨packet', m₁, hsecured⟩)
    rw [List.append_nil] at hL'
    -- what is not in the queue was there before, or is released
    have hnew : b ∉ others := by
      intro hmem
      rcases hb with hb | ⟨-, hb⟩
      · have hdisjoint := (List.nodup_append.mp hothers.nodup).2.2
        have hown : b ∈ packet.cleanupBlocks ++ (block :: m.outBlocks) := by
          rcases List.mem_cons.mp hb with rfl | hb
          · exact List.mem_append_right _ (List.mem_cons_self ..)
          · exact List.mem_append_left _ hb
        exact hdisjoint b hown b hmem rfl
      · exact hb (hothers.alloc_mem (List.mem_append_right _ hmem))
    have halloc : .alloc b ∈ m'.heap := by
      rcases hb with hb | ⟨hb, -⟩
      · refine hL'.grows.subset (hL.owns.alloc_mem (List.mem_append_left _ ?_))
        rcases List.mem_cons.mp hb with rfl | hb
        · exact List.mem_append_right _ (List.mem_cons_self ..)
        · exact List.mem_append_left _ hb
      · exact hb
    by_cases hqueued : b ∈ m'.outBlocks
    · exact .inl hqueued
    · exact .inr (hL'.owns.released halloc fun hb => (List.mem_append.mp hb).elim hqueued hnew)
  · refine iff_of_false (fun hall => ?_) fun hsecures => ?_
    · rw [List.append_nil] at hL'
      -- the block of the packet is live, and in no queue
      have hblock : block ∈ block :: (packet.cleanupBlocks ++ (temp ++ others)) :=
        List.mem_cons_self ..
      rcases hall block (.inl (List.mem_cons_self ..)) with hqueued | hreleased
      · exact (List.nodup_append.mp hL'.owns.nodup).2.2 block hqueued block hblock rfl
      · exact hL'.owns.not_released (List.mem_append_right _ hblock) hreleased
    · obtain ⟨packet', m₁, hsecured⟩ := packetSecure_ok_iff.mpr hsecures
      rw [hrefused] at hsecured
      cases hsecured

/-- Whoever sends a packet gives `packet__queue` one of its own. -/
theorem Ledger.ownsPacket {start : Mosq σ} {held lost : List Block} {command : UInt8}
    {mid : UInt16} {body : Bytes} {r : Except MosqError Unit}
    (hL : Ledger env start m (m.outBlocks ++ held) lost)
    (h : WeeveMQ.sendPacket env command mid body m = some (r, m')) :
    r ≠ .ok () ∨ ∃ block packet m₁, OwnsPacket m₁ block packet ∧
      WeeveMQ.packetQueue env block packet m₁ = some (r, m') := by
  rcases hL.sendPacket h with ⟨hr, -⟩ | ⟨block, packet, m₁, hL₁, hnone, -, hqueue⟩
  · exact .inl hr
  · refine .inr ⟨block, packet, m₁, ⟨⟨held ++ lost, ?_⟩, fun b hb => hL₁.refunded b ?_, hnone⟩,
      hqueue⟩
    · refine hL₁.owns.perm (List.Perm.of_eq ?_)
      simp only [List.append_assoc, List.cons_append]
    · rcases List.mem_append.mp hb with hb | hb
      · exact List.mem_append_left _ hb
      · rw [← List.cons_append]
        exact List.mem_append_right _ (List.mem_append_left _ hb)

end Queueing

/-! ## Connections from their begin to their end -/

/-- Transport buffers are released exactly once if, and only if, every frame that is read to
    its end and has bytes is accepted and no connection ends in the middle of a frame; a
    packet given to `packet__queue` is queued or released if, and only if, it is secured. -/
theorem transport_buffers_released_iff (platform : Platform) :
    (∀ handlers start m m' labels r, Accepted start → HoldsNothing start →
      Run (Run.Judged (BrokerStep platform handlers)
        (BrokerEvent.Meets (platform.broker handlers))) start labels m →
      contextCleanup platform handlers m = some (r, m') →
        (ReceivedReleased start m m' ↔ (∀ l ∈ labels, l.2) ∧ m.inPacket.frameBlocks = [])) ∧
    (∀ handlers start m m' labels r, HoldsNothing start →
      Run (Run.Judged (ClientStep platform handlers)
        (ClientEvent.Meets (platform.client handlers))) start labels m →
      (∃ body socket, mosquittoReconnect platform handlers body socket m = some (r, m')) ∨
        mosquittoDestroy platform handlers m = some (r, m') →
        (ReceivedReleased start m m' ↔ (∀ l ∈ labels, l.2) ∧ m.inPacket.frameBlocks = [])) ∧
    (∀ {σ : Type} (env : Setup σ) m m' block packet r, OwnsPacket m block packet →
      packetQueue env block packet m = some (r, m') →
        (QueuedOrReleased m block packet m' ↔ packet.secures env m)) := by
  refine ⟨?_, ?_, fun _ _ _ _ _ _ hown hcall => queuedOrReleased_iff hown hcall⟩
  · intro handlers start m m' labels r haccepted hstart hrun hcall
    have htracked := (hrun.judged (I := fun p m => Gate platform handlers (fun _ => True) m ∧
      Tracked (platform.broker handlers) start [] start.heap.live p m)
      ⟨gate_accepted haccepted, hstart.tracked⟩
      fun _ _ _ _ h hstep => tracked_brokerStep h hstep).2
    exact htracked.released_iff (contextCleanup_releases hcall) (GoesOn.stop m')
  · intro handlers start m m' labels r hstart hrun hcall
    have htracked := hrun.judged (I := Tracked (platform.client handlers) start [] start.heap.live)
      hstart.tracked
      fun _ _ _ _ h hstep => tracked_clientStep h hstep
    rcases hcall with ⟨body, socket, hcall⟩ | hcall
    · obtain ⟨m₁, hreleases, hblocks, hkeeps, -⟩ := mosquittoReconnect_releases hcall
      exact htracked.released_iff hreleases (hkeeps.goesOn hblocks)
    · exact htracked.released_iff (mosquittoDestroy_releases hcall) (GoesOn.stop m')

/-- A context that was just accepted, and gets a frame of one byte. -/
def refusedContext : Mosq SmpSession :=
  { acceptedContext with recv := [.data 1 [7]] }

theorem refusedContext_accepted : Accepted refusedContext :=
  ⟨⟨_, _, _, _, wclSmpOpen_sample, rfl⟩, rfl, rfl, rfl, rfl, rfl, rfl, rfl⟩

/-- The session refuses the frame, and its buffer is never released. -/
theorem refused_frame_leaks : ∃ m m',
    Run (BrokerStep Platform.sample acceptsAll) refusedContext [.read (.error .unknown)] m ∧
      contextCleanup Platform.sample acceptsAll m = some (.ok (), m') ∧
      ¬ ReceivedReleased refusedContext m m' := by
  obtain ⟨buffer, hbuffer⟩ : ∃ b : Block, b = {
      id := 0
      kind := { purpose := .smpPayload, allocator := .mosquitto }
      size := 1 } := ⟨_, rfl⟩
  have hcalls : ((packetRead (Platform.sample.broker acceptsAll) refusedContext).bind fun r =>
      (contextCleanup Platform.sample acceptsAll (afterCall r.1 r.2)).map fun q =>
        (r.1, (afterCall r.1 r.2).heap, q.1, q.2.heap)) =
      some (.error .unknown, [.use buffer, .use buffer, .alloc buffer], .ok (),
        [.use buffer, .use buffer, .alloc buffer]) := by
    rw [hbuffer]
    decide +kernel
  obtain ⟨⟨r, m⟩, hread, hcleanup⟩ := Option.bind_eq_some_iff.mp hcalls
  obtain ⟨⟨q, m'⟩, hcall, heq⟩ := Option.map_eq_some_iff.mp hcleanup
  obtain ⟨rfl, hheap, rfl, hheap'⟩ : r = .error .unknown ∧
      (afterCall r m).heap = [.use buffer, .use buffer, .alloc buffer] ∧ q = .ok () ∧
      m'.heap = [.use buffer, .use buffer, .alloc buffer] := by
    simpa using heq
  refine ⟨_, m', .single (.read hread), hcall, fun hall => ?_⟩
  have hreleased := hall buffer (by simp [hheap]) List.not_mem_nil (by rw [hbuffer]; rfl)
  obtain ⟨after, before, hlog, -⟩ := hreleased
  have hfree : HeapEvent.free buffer ∈ m'.heap := by simp [hlog]
  simp [hheap'] at hfree

theorem acceptedContext_holdsNothing : HoldsNothing acceptedContext :=
  ⟨trivial, rfl, rfl, rfl⟩

theorem acceptedContext_accepts :
    AcceptsNext (Platform.sample.broker acceptsAll) acceptedContext := by
  intro _ _ m₁ h₁ _
  have hprocess : ((readSmpFrame (Platform.sample.broker acceptsAll) acceptedContext).bind fun r =>
      ((Platform.sample.broker acceptsAll).wclSmpProcessMessage r.2.inPacket.frame
        r.2.session).map fun q => q.1.toOption) = some (some [CONNECT, 0]) := by decide +kernel
  rw [h₁] at hprocess
  obtain ⟨⟨r, s⟩, hcall, heq⟩ := Option.map_eq_some_iff.mp hprocess
  cases r with
  | error e => cases heq
  | ok packet => exact ⟨packet, s, hcall⟩

theorem transport_buffers_released_iff_connect : ∃ m m', m.state = .connected ∧
    contextCleanup Platform.sample acceptsAll m = some (.ok (), m') ∧
    ReceivedReleased acceptedContext m m' := by
  have hcalls : ((packetRead (Platform.sample.broker acceptsAll) acceptedContext).bind fun r =>
      (contextCleanup Platform.sample acceptsAll r.2).map fun q =>
        (r.1, r.2.state, r.2.inPacket.frameBlocks, q.1)) =
      some (.ok (), .connected, [], .ok ()) := by decide +kernel
  obtain ⟨⟨r, m⟩, hread, hcleanup⟩ := Option.bind_eq_some_iff.mp hcalls
  obtain ⟨⟨q, m'⟩, hcall, heq⟩ := Option.map_eq_some_iff.mp hcleanup
  obtain ⟨rfl, hstate, hframe, rfl⟩ : r = .ok () ∧ m.state = .connected ∧
      m.inPacket.frameBlocks = [] ∧ q = .ok () := by
    simpa using heq
  have hrun : Run (Run.Judged (BrokerStep Platform.sample acceptsAll)
      (BrokerEvent.Meets (Platform.sample.broker acceptsAll))) acceptedContext
      [(.read (.ok ()), True)] m :=
    .single ⟨.read hread, iff_of_true trivial acceptedContext_accepts⟩
  refine ⟨m, m', hstate, hcall, ?_⟩
  refine ((transport_buffers_released_iff Platform.sample).1 acceptsAll acceptedContext m m' _ _
    acceptedContext_accepted acceptedContext_holdsNothing hrun hcall).mpr ⟨?_, hframe⟩
  simp

end WeeveMQ
