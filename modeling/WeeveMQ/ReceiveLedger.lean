/-
  WeeveMQ.ReceiveLedger

  The blocks of the packet that is being read.

  Three pointers of `in_packet` hold blocks: the buffer of the frame as long
  as bytes of it are missing, the decrypted packet, and the payload.  A call of
  `packet__read` keeps them on the ledger, and what it loses of them is the
  buffer of a frame the session refuses.
-/

import WeeveMQ.BlockLedger
import WeeveMQ.PacketDecode

namespace WeeveMQ

open Call

variable {σ : Type} {env : Setup σ}

/-- The buffer of a frame, as long as bytes of it are missing. -/
def Packet.frameBlocks (packet : Packet) : List Block :=
  if packet.smpToProcess = 0 then [] else (packet.smpPayload.map Buffer.block).toList

/-- The blocks the packet that is being read holds between two calls. -/
def Packet.inBlocks (packet : Packet) : List Block := packet.frameBlocks ++ packet.cleanupBlocks

/-- The blocks a client holds between two calls. -/
def Mosq.blocks (mosq : Mosq σ) : List Block := mosq.inPacket.inBlocks ++ mosq.outBlocks

/-! ## Calls that do not touch the blocks -/

/-- The pointers of a packet that is being read. -/
structure Packet.SamePointers (p p' : Packet) : Prop where
  smpPayload : p'.smpPayload = p.smpPayload
  smpToProcess : p'.smpToProcess = p.smpToProcess
  mqttPacket : p'.mqttPacket = p.mqttPacket
  payload : p'.payload = p.payload

/-- The heap and all pointers to it are untouched. -/
structure SameBlocks (m m' : Mosq σ) : Prop where
  heap : m'.heap = m.heap
  memcount : m'.memcount = m.memcount
  pointers : m.inPacket.SamePointers m'.inPacket
  queue : SameQueue m m'

namespace SameBlocks

instance : Std.Refl (SameBlocks : Mosq σ → Mosq σ → Prop) where
  refl _ := ⟨rfl, rfl, ⟨rfl, rfl, rfl, rfl⟩, ⟨rfl, rfl⟩⟩

instance : IsTrans (Mosq σ) SameBlocks where
  trans _ _ _ h h' := ⟨h'.heap.trans h.heap, h'.memcount.trans h.memcount,
    ⟨h'.pointers.smpPayload.trans h.pointers.smpPayload,
      h'.pointers.smpToProcess.trans h.pointers.smpToProcess,
      h'.pointers.mqttPacket.trans h.pointers.mqttPacket,
      h'.pointers.payload.trans h.pointers.payload⟩, trans_of SameQueue h.queue h'.queue⟩

/-- A part of a packet without pointers. -/
def NoPointers {τ : Type} (part : PacketPart τ) : Prop :=
  ∀ t p, Packet.SamePointers p (part.set t p)

theorem smpLength_noPointers : NoPointers smpLength := fun _ _ => ⟨rfl, rfl, rfl, rfl⟩

theorem mqttLength_noPointers : NoPointers mqttLength := fun _ _ => ⟨rfl, rfl, rfl, rfl⟩

theorem modifyPart {τ : Type} {part : PacketPart τ} (hpart : NoPointers part) {f : τ → τ} :
    Relates SameBlocks (modifyPart part f : Call (Mosq σ) MosqError Unit) :=
  relates_modify fun _ => ⟨rfl, rfl, hpart _ _, ⟨rfl, rfl⟩⟩

theorem netRead {count : Nat} : Relates SameBlocks (netRead count : Call (Mosq σ) _ _) := by
  intro m r m' h
  unfold WeeveMQ.netRead at h
  split at h <;> cases h <;> exact ⟨rfl, rfl, ⟨rfl, rfl, rfl, rfl⟩, ⟨rfl, rfl⟩⟩

theorem comeBackLater : Relates SameBlocks (comeBackLater : Call (Mosq σ) MosqError Unit) := by
  intro m r m' h
  rw [comeBackLater_same h]
  exact Std.Refl.refl m

theorem takeLengthByte {part : PacketPart LengthFields} (hpart : NoPointers part) {byte : UInt8} :
    Relates SameBlocks (takeLengthByte part byte : Call (Mosq σ) _ _) :=
  (modifyPart hpart).bind fun _ => relates_get.bind fun _ => relates_failIf.bind fun _ =>
    modifyPart hpart

theorem readLength {part : PacketPart LengthFields} (hpart : NoPointers part) {fuel : Nat} :
    Relates SameBlocks (readLength part fuel : Call (Mosq σ) _ _) := by
  induction fuel with
  | zero => exact relates_throw
  | succ fuel ih =>
    unfold WeeveMQ.readLength
    refine Relates.bind netRead fun bytes => ?_
    split
    · exact (takeLengthByte hpart).bind fun _ => ih.ite relates_pure
    · exact relates_throw
    · exact comeBackLater.bind fun _ => relates_pure

theorem packetByte {packet : Bytes} {index : Nat} :
    Relates SameBlocks (packetByte env packet index) := by
  unfold WeeveMQ.packetByte
  split
  · exact relates_pure
  · split
    · exact relates_pure
    · exact relates_fault

theorem packetBytes {packet : Bytes} {index count : Nat} :
    Relates SameBlocks (packetBytes env packet index count) := by
  induction count generalizing index with
  | zero => exact relates_pure
  | succ count ih => exact packetByte.bind fun _ => ih.bind fun _ => relates_pure

theorem decodeCommand {packet : Bytes} : Relates SameBlocks (decodeCommand env packet) := by
  unfold WeeveMQ.decodeCommand
  refine Relates.bind relates_get fun m => Relates.ite ?_ relates_pure
  refine Relates.bind packetByte fun byte => ?_
  refine Relates.bind (relates_modify fun _ => ?_) fun _ => ?_
  · exact ⟨rfl, rfl, ⟨rfl, rfl, rfl, rfl⟩, ⟨rfl, rfl⟩⟩
  · exact relates_get.bind fun _ => relates_failIf.bind fun _ => relates_pure

theorem decodeRemainingLength {packet : Bytes} {fuel offset : Nat} :
    Relates SameBlocks (decodeRemainingLength env packet fuel offset) := by
  induction fuel generalizing offset with
  | zero => exact relates_throw
  | succ fuel ih =>
    exact packetByte.bind fun _ => (takeLengthByte mqttLength_noPointers).bind fun _ =>
      ih.ite relates_pure

theorem decodeLength {packet : Bytes} {offset : Nat} :
    Relates SameBlocks (decodeLength env packet offset) := by
  unfold WeeveMQ.decodeLength
  refine Relates.bind relates_get fun m => Relates.ite ?_ relates_pure
  exact decodeRemainingLength.bind fun _ => (modifyPart mqttLength_noPointers).bind fun _ =>
    relates_pure

end SameBlocks

theorem Ledger.same {start m m' : Mosq σ} {held lost : List Block}
    (h : Ledger env start m held lost) (hsame : SameBlocks m m') :
    Ledger env start m' held lost := h.congr hsame.heap hsame.memcount

section Reading

variable {start m m' : Mosq σ} {held lost : List Block}

/-! ## A frame -/

/-- The buffer of the frame is held, or the frame is empty. -/
inductive HoldsFrame (env : Setup σ) (start m : Mosq σ) (held lost : List Block) : Prop
  | buffer {b : Buffer} (payload : m.inPacket.smpPayload = some b)
      (received : isReceived b.block = true) (length : m.inPacket.smpRemainingLength ≠ 0)
      (ledger : Ledger env start m (b.block :: held) lost)
  | empty (length : m.inPacket.smpRemainingLength = 0) (nothing : m.inPacket.smpToProcess = 0)
      (ledger : Ledger env start m held lost)

/-- How reading into the buffer `b` ends. -/
structure ReadsInto (env : Setup σ) (start : Mosq σ) (b : Buffer) (held lost : List Block)
    (m : Mosq σ) (r : Except MosqError Bool) (m' : Mosq σ) : Prop where
  ledger : Ledger env start m' (b.block :: held) lost
  block : m'.inPacket.smpPayload.map Buffer.block = some b.block
  count : m'.inPacket.smpRemainingCount = m.inPacket.smpRemainingCount
  length : m'.inPacket.smpRemainingLength = m.inPacket.smpRemainingLength
  missing : r ≠ .ok true → 0 < m'.inPacket.smpToProcess

theorem readPayload_ledger {fuel : Nat} {b : Buffer} {r : Except MosqError Bool}
    (hb : m.inPacket.smpPayload = some b) (hL : Ledger env start m (b.block :: held) lost)
    (h : readPayload smpPayload fuel m = some (r, m')) :
    ReadsInto env start b held lost m r m' ∧
      (r = .ok true → m.inPacket.smpToProcess ≤ fuel → m'.inPacket.smpToProcess = 0) := by
  -- the buffer stays the same block, only its bytes grow
  induction fuel generalizing m b with
  | zero =>
    cases h
    refine ⟨⟨hL, ?_, rfl, rfl, fun hr => absurd rfl hr⟩, fun _ hle => Nat.le_zero.mp hle⟩
    rw [hb]
    rfl
  | succ fuel ih =>
    unfold readPayload at h
    rw [bind_of_ok get_apply] at h
    dsimp only at h
    split at h
    · next hzero =>
      cases h
      refine ⟨⟨hL, ?_, rfl, rfl, fun hr => absurd rfl hr⟩, fun _ _ => hzero⟩
      rw [hb]
      rfl
    · next hnonzero =>
      change ¬ m.inPacket.smpToProcess = 0 at hnonzero
      rcases bind_some.mp h with ⟨e, h₁, -⟩ | ⟨_, m₁, h₁, h⟩
      · exact absurd h₁ (neverFails_modify _ _ _)
      have hin₁ := (HeapOnly.touch _ _ _ h₁).inPacket
      have hL₁ : Ledger env start m₁ (b.block :: held) lost := by
        refine hL.touch (fun buffer hbuffer => ?_) h₁
        have : some buffer = some b := hbuffer.symm.trans hb
        cases this
        exact List.mem_append_left _ (List.mem_cons_self ..)
      -- a read that brings no bytes leaves everything as it is
      have hstays : ∀ {r' : Except MosqError (Option Bytes)} {m₂ : Mosq σ},
          netRead (smpPayload.get m.inPacket).toProcess m₁ = some (r', m₂) →
          ∀ r, ReadsInto env start b held lost m r m₂ := by
        intro r' m₂ h₂ r
        have hin := (netRead_inPacket h₂).trans hin₁
        refine ⟨hL₁.same (SameBlocks.netRead _ _ _ h₂), ?_, by rw [hin], by rw [hin], fun _ => ?_⟩
        · rw [hin, hb]
          rfl
        · rw [hin]
          omega
      rcases bind_some.mp h with ⟨e, h₂, rfl⟩ | ⟨bytes, m₂, h₂, h⟩
      · exact ⟨hstays h₂ _, (fun h => by cases h)⟩
      -- without bytes the call waits or fails, whatever `net__read` said
      have hlater : (comeBackLater >>= fun _ => pure false) m₂ = some (r, m') →
          ReadsInto env start b held lost m r m' ∧
            (r = .ok true → m.inPacket.smpToProcess ≤ fuel + 1 →
              m'.inPacket.smpToProcess = 0) := by
        intro h
        rcases bind_some.mp h with ⟨e, h₃, rfl⟩ | ⟨_, m₃, h₃, h⟩
        · rw [comeBackLater_same h₃]
          exact ⟨hstays h₂ _, (fun h => by cases h)⟩
        · cases h
          rw [comeBackLater_same h₃]
          exact ⟨hstays h₂ _, (fun h => by cases h)⟩
      rcases bytes with _ | _ | ⟨first, rest⟩
      · exact hlater h
      · exact hlater h
      · -- some bytes more, in the same buffer
        have hin₂ := (netRead_inPacket h₂).trans hin₁
        rcases bind_some.mp h with ⟨e, h₃, -⟩ | ⟨_, m₃, h₃, h⟩
        · rw [modifyPart_apply] at h₃
          cases h₃
        have hb₃ : m₃.inPacket.smpPayload =
            some { b with data := b.data ++ first :: rest } := by
          cases h₃
          show m₂.inPacket.smpPayload.map _ = _
          rw [hin₂, hb]
          rfl
        have hL₃ : Ledger env start m₃ (b.block :: held) lost := by
          cases h₃
          exact (hstays h₂ (.ok false)).ledger.congr rfl rfl
        have hcount₃ : m₃.inPacket.smpRemainingCount = m.inPacket.smpRemainingCount := by
          cases h₃
          show m₂.inPacket.smpRemainingCount = _
          rw [hin₂]
        have hlength₃ : m₃.inPacket.smpRemainingLength = m.inPacket.smpRemainingLength := by
          cases h₃
          show m₂.inPacket.smpRemainingLength = _
          rw [hin₂]
        have hless : m₃.inPacket.smpToProcess =
            m.inPacket.smpToProcess - (first :: rest).length := by
          cases h₃
          show m₂.inPacket.smpToProcess - (first :: rest).length = _
          rw [hin₂]
        obtain ⟨hinto, hdone⟩ := ih hb₃ hL₃ h
        refine ⟨⟨hinto.ledger, hinto.block, hinto.count.trans hcount₃,
          hinto.length.trans hlength₃, hinto.missing⟩, fun hok hle => hdone hok ?_⟩
        rw [hless, List.length_cons]
        omega

/-- A buffer is made for a frame with a length, and for no other. -/
theorem readHeader_ledger {r : Except MosqError Bool}
    (hcount : (smpLength.get m.inPacket).count ≤ 0) (hnothing : m.inPacket.smpToProcess = 0)
    (hL : Ledger env start m held lost)
    (h : readHeader env smpLength smpPayload .smpPayload m = some (r, m')) :
    (r = .ok true ∧ HoldsFrame env start m' held lost ∧ 0 < m'.inPacket.smpRemainingCount) ∨
      (r ≠ .ok true ∧ Ledger env start m' held lost ∧ m'.inPacket.smpToProcess = 0) := by
  unfold readHeader at h
  rw [bind_of_ok get_apply, if_pos hcount] at h
  rcases bind_some.mp h with ⟨e, h₁, rfl⟩ | ⟨done, m₁, h₁, h⟩
  · have hsame := SameBlocks.readLength SameBlocks.smpLength_noPointers _ _ _ h₁
    exact .inr ⟨nofun, hL.same hsame, hsame.pointers.smpToProcess.trans hnothing⟩
  have hsame := SameBlocks.readLength SameBlocks.smpLength_noPointers _ _ _ h₁
  cases done with
  | false =>
    cases h
    exact .inr ⟨nofun, hL.same hsame, hsame.pointers.smpToProcess.trans hnothing⟩
  | true =>
    -- the complete length turns its count positive, which says that the header is read
    have hnegative := ((readLength_done hcount h₁).2 rfl).2
    rw [if_pos rfl] at h
    rcases bind_some.mp h with ⟨e, h₂, -⟩ | ⟨_, m₂, h₂, h⟩
    · rw [modifyPart_apply] at h₂
      cases h₂
    have hsame₂ := trans_of SameBlocks hsame
      (SameBlocks.modifyPart SameBlocks.smpLength_noPointers _ _ _ h₂)
    have hpositive : 0 < m₂.inPacket.smpRemainingCount := by
      cases h₂
      show 0 < m₁.inPacket.smpRemainingCount * -1
      change m₁.inPacket.smpRemainingCount < 0 at hnegative
      omega
    have hL₂ := hL.same hsame₂
    have hnothing₂ := hsame₂.pointers.smpToProcess.trans hnothing
    rw [bind_of_ok get_apply] at h
    -- a block is made exactly if there is a payload
    split at h
    · next hpos =>
      rcases bind_some.mp h with ⟨e, h₃, -⟩ | ⟨mem, m₃, h₃, h⟩
      · exact absurd h₃ (neverFails_mosquittoMalloc _ _ _)
      obtain ⟨hL₃, hpurpose⟩ := hL₂.mosquittoMalloc h₃
      have hin := (HeapOnly.mosquittoMalloc _ _ _ h₃).inPacket
      cases mem with
      | none =>
        cases h
        refine .inr ⟨nofun, hL₃.congr rfl rfl, ?_⟩
        show m₃.inPacket.smpToProcess = _
        rw [hin, hnothing₂]
      | some block =>
        cases h
        refine .inl ⟨rfl, .buffer rfl ?_ ?_ (hL₃.congr rfl rfl), ?_⟩
        · show isReceived block = true
          simp [isReceived, hpurpose block rfl]
        · show m₃.inPacket.smpRemainingLength ≠ 0
          rw [hin]
          exact Nat.ne_of_gt hpos
        · show 0 < m₃.inPacket.smpRemainingCount
          rwa [hin]
    · next hzero =>
      cases h
      exact .inl ⟨rfl, .empty (Nat.eq_zero_of_not_pos hzero) hnothing₂ hL₂, hpositive⟩

/-- Between two calls the buffer of a frame is there as long as bytes of it are missing. -/
structure FrameBuffer (q : Packet) : Prop where
  length : q.smpRemainingCount ≤ 0 → q.smpToProcess = 0
  payload : 0 < q.smpToProcess →
    q.smpRemainingLength ≠ 0 ∧ ∃ b, q.smpPayload = some b ∧ isReceived b.block = true

theorem frameBlocks_of_zero {q : Packet} (h : q.smpToProcess = 0) : q.frameBlocks = [] := if_pos h

theorem frameBlocks_of_payload {q : Packet} {b : Buffer}
    (h : q.smpPayload.map Buffer.block = some b.block) :
    q.frameBlocks = if q.smpToProcess = 0 then [] else [b.block] := by
  rw [Packet.frameBlocks, h]
  rfl

/-- How reading a frame ends: it is held, or its buffer stays where it is. -/
def FrameOutcome (env : Setup σ) (start : Mosq σ) (held lost : List Block)
    (r : Except MosqError Bool) (m' : Mosq σ) : Prop :=
  (r = .ok true ∧ HoldsFrame env start m' held lost ∧ m'.inPacket.smpToProcess = 0) ∨
    (r ≠ .ok true ∧ Ledger env start m' (m'.inPacket.frameBlocks ++ held) lost ∧
      (∀ b ∈ m'.inPacket.frameBlocks, isReceived b = true) ∧
      (r = .ok false → FrameBuffer m'.inPacket))

/-- From the end of the header on. -/
theorem HoldsFrame.read {r : Except MosqError Bool} (hholds : HoldsFrame env start m held lost)
    (hcount : 0 < m.inPacket.smpRemainingCount)
    (h : readPayload smpPayload m.inPacket.smpToProcess m = some (r, m')) :
    FrameOutcome env start held lost r m' := by
  cases hholds with
  | empty length nothing ledger =>
    rw [nothing] at h
    cases h
    exact .inl ⟨rfl, .empty length nothing ledger, nothing⟩
  | @buffer b payload received length ledger =>
    obtain ⟨hinto, hdone⟩ := readPayload_ledger payload ledger h
    obtain ⟨b', hb', hblock⟩ := Option.map_eq_some_iff.mp hinto.block
    rw [← hinto.length] at length
    have hreceived : isReceived b'.block = true := by
      rw [hblock]
      exact received
    by_cases hr : r = .ok true
    · refine .inl ⟨hr, .buffer hb' hreceived length ?_, hdone hr (Nat.le_refl _)⟩
      rw [hblock]
      exact hinto.ledger
    · have hmissing := hinto.missing hr
      have hblocks : m'.inPacket.frameBlocks = [b.block] := by
        rw [frameBlocks_of_payload hinto.block, if_neg (Nat.ne_of_gt hmissing)]
      refine .inr ⟨hr, ?_, ?_, fun _ => ⟨fun hle => ?_, fun _ => ⟨length, b', hb', hreceived⟩⟩⟩
      · rw [hblocks]
        exact hinto.ledger
      · rw [hblocks]
        exact fun c hc => by rwa [List.mem_singleton.mp hc]
      · have := hinto.count
        omega

theorem readSmpFrame_ledger {r : Except MosqError Bool} (hframe : FrameBuffer m.inPacket)
    (hpending : FramePending m.inPacket)
    (hL : Ledger env start m (m.inPacket.frameBlocks ++ held) lost)
    (h : readSmpFrame env m = some (r, m')) : FrameOutcome env start held lost r m' := by
  unfold readSmpFrame readBody at h
  by_cases hcount : m.inPacket.smpRemainingCount ≤ 0
  · -- a new frame
    have hnone := hframe.length hcount
    rw [frameBlocks_of_zero hnone] at hL
    -- nothing was made yet, so a header that fails or waits leaves the blocks as they
    -- were
    have hfails : ∀ {r : Except MosqError Bool} {m₁ : Mosq σ}, r ≠ .ok true →
        Ledger env start m₁ held lost → m₁.inPacket.smpToProcess = 0 →
        FrameOutcome env start held lost r m₁ := by
      intro r m₁ hr hL₁ hprocess
      have hblocks := frameBlocks_of_zero hprocess
      refine .inr ⟨hr, ?_, ?_, fun _ => ⟨fun _ => hprocess, fun hpos => ?_⟩⟩
      · rw [hblocks]
        exact hL₁
      · rw [hblocks]
        exact List.forall_mem_nil _
      · rw [hprocess] at hpos
        cases hpos
    rcases bind_some.mp h with ⟨e, h₁, rfl⟩ | ⟨header, m₁, h₁, h⟩
    · rcases readHeader_ledger hcount hnone hL h₁ with ⟨hr, -⟩ | ⟨-, hL₁, hprocess⟩
      · cases hr
      · exact hfails nofun hL₁ hprocess
    rcases readHeader_ledger hcount hnone hL h₁ with ⟨hr, hholds, hpos⟩ | ⟨hr, hL₁, hprocess⟩
    · cases hr
      rw [if_pos rfl, bind_of_ok get_apply] at h
      exact hholds.read hpos h
    · have hfalse : header = false := by
        cases header with
        | false => rfl
        | true => exact absurd rfl hr
      subst hfalse
      cases h
      exact hfails nofun hL₁ hprocess
  · -- the rest of a frame
    have hmissing := hpending (not_le.mp hcount)
    obtain ⟨hlength, b, hb, hreceived⟩ := hframe.payload hmissing
    have hheader : readHeader env smpLength smpPayload .smpPayload m = some (.ok true, m) := by
      unfold readHeader
      have hcount' : ¬ (smpLength.get m.inPacket).count ≤ 0 := hcount
      rw [bind_of_ok get_apply, if_neg hcount', pure_apply]
    rw [bind_of_ok hheader, if_pos rfl, bind_of_ok get_apply] at h
    have hblock : m.inPacket.smpPayload.map Buffer.block = some b.block := by
      rw [hb]
      rfl
    rw [frameBlocks_of_payload hblock, if_neg (Nat.ne_of_gt hmissing)] at hL
    exact HoldsFrame.read (.buffer hb hreceived hlength hL) (not_le.mp hcount) h

/-! ## What is done with a frame -/

/-- The session accepts the frame, or the frame is empty and has no buffer. -/
def AcceptsFrame (env : Setup σ) (m : Mosq σ) : Prop :=
  m.inPacket.smpRemainingLength ≠ 0 → ∃ packet session,
    env.wclSmpProcessMessage m.inPacket.frame m.session = some (.ok packet, session)

/-- No session accepts an empty frame. -/
def RefusesEmpty (env : Setup σ) : Prop :=
  ∀ s packet s', env.wclSmpProcessMessage [] s ≠ some (.ok packet, s')

theorem Ledger.touchIf {c : Prop} [Decidable c] {p : Option Buffer} {r : Except MosqError Unit}
    (h : Ledger env start m held lost) (hp : c → ∀ buffer ∈ p, buffer.block ∈ held ++ lost)
    (ht : onlyIf c (WeeveMQ.touch p) m = some (r, m')) : Ledger env start m' held lost := by
  unfold onlyIf at ht
  split at ht
  · next hc => exact h.touch (hp hc) ht
  · cases ht
    exact h

/-- The packet a session made of a frame is held once it has a block. -/
theorem Ledger.storePacket {packet : Bytes} {r : Except MosqError Unit}
    (h : Ledger env start m held lost) (hnone : m.inPacket.mqttPacket = none)
    (hm : onlyIf (packet ≠ []) (do
      let block ← WeeveMQ.libraryBlock env .mqttPacket packet.length
      modifyIn fun p => { p with mqttPacket := some { block := block, data := packet } }) m =
        some (r, m')) :
    Ledger env start m' ((m'.inPacket.mqttPacket.map Buffer.block).toList ++ held) lost ∧
      m'.inPacket.smpToProcess = m.inPacket.smpToProcess ∧
      m'.inPacket.payload = m.inPacket.payload ∧ SameQueue m m' := by
  unfold onlyIf at hm
  split at hm
  · rcases bind_some.mp hm with ⟨e, h₁, -⟩ | ⟨block, m₁, h₁, hm⟩
    · exact absurd h₁ (neverFails_libraryBlock _ _ _)
    have hm₁ := HeapOnly.libraryBlock _ _ _ h₁
    obtain ⟨hL₁, hkind⟩ := h.libraryBlock h₁
    have hrefunded : isRefunded block = true := by simp [isRefunded, hkind]
    cases hm
    refine ⟨(hL₁.hold hrefunded).congr rfl rfl, ?_, ?_, hm₁.currentOutPacket, hm₁.outPacket⟩
    · show m₁.inPacket.smpToProcess = _
      rw [hm₁.inPacket]
    · show m₁.inPacket.payload = _
      rw [hm₁.inPacket]
  · cases hm
    rw [hnone]
    exact ⟨h, rfl, rfl, Std.Refl.refl m⟩

/-- How processing a frame ends: the buffer is released and the packet held, unless the
    session refuses the frame. -/
structure ProcessOutcome (env : Setup σ) (start : Mosq σ) (held lost : List Block)
    (m m' : Mosq σ) : Prop where
  smpToProcess : m'.inPacket.smpToProcess = m.inPacket.smpToProcess
  payload : m'.inPacket.payload = m.inPacket.payload
  queue : SameQueue m m'
  ledger : ∃ more, Ledger env start m'
    ((m'.inPacket.mqttPacket.map Buffer.block).toList ++ held) (more ++ lost) ∧
    (AcceptsFrame env m ↔ NoneReceived more)

theorem processSmpFrame_ledger {r : Except MosqError Unit} (hempty : RefusesEmpty env)
    (hholds : HoldsFrame env start m held lost) (hnone : m.inPacket.mqttPacket = none)
    (h : processSmpFrame env m = some (r, m')) : ProcessOutcome env start held lost m m' := by
  unfold processSmpFrame at h
  rcases bind_some.mp h with ⟨e, h₁, -⟩ | ⟨_, m₁, h₁, h⟩
  · cases h₁
  rw [bind_of_ok get_apply] at h
  have hframe₁ : m₁.inPacket = { m.inPacket with smpPos := 0 } := by
    cases h₁
    rfl
  have hsame₁ : SameBlocks m m₁ := by
    cases h₁
    exact ⟨rfl, rfl, ⟨rfl, rfl, rfl, rfl⟩, ⟨rfl, rfl⟩⟩
  have hsession₁ : m₁.session = m.session := by
    cases h₁
    rfl
  rcases bind_some.mp h with ⟨e, h₂, -⟩ | ⟨_, m₂, h₂, h⟩
  · exact absurd h₂ (NeverFails.onlyIf neverFails_modify _ _ _)
  have hm₂ := HeapOnly.touch.onlyIf _ _ _ h₂
  have hin₂ : m₂.inPacket.smpToProcess = m.inPacket.smpToProcess ∧
      m₂.inPacket.payload = m.inPacket.payload ∧ m₂.inPacket.mqttPacket = none := by
    rw [hm₂.inPacket, hframe₁]
    exact ⟨rfl, rfl, hnone⟩
  have hqueue₂ := trans_of SameQueue hsame₁.queue (.ofHeapOnly hm₂)
  rcases bind_some.mp h with ⟨e, h₃, -⟩ | ⟨_, m₃, h₃, h⟩
  · cases h₃
  cases h₃
  -- the frame that is handed on is the one that `in_packet` holds
  have hhanded : ((m₁.inPacket.smpPayload.map Buffer.data).getD []).take
      m₁.inPacket.smpRemainingLength = m.inPacket.frame := by
    rw [hframe₁]
    rfl
  rw [hhanded] at h h₂
  -- up to here the blocks are as they were
  have hsession : ∀ {r s}, env.wclSmpProcessMessage m.inPacket.frame m₂.session = some (r, s) →
      env.wclSmpProcessMessage m.inPacket.frame m.session = some (r, s) := by
    intro r s hr
    rwa [← hsession₁, ← hm₂.session]
  rcases bind_some.mp h with ⟨e, h₄, -⟩ | ⟨packet, m₄, h₄, h⟩
  · -- the session refuses the frame
    obtain ⟨e₀, h₄, -⟩ := mapErr_error.mp h₄
    obtain ⟨session, hrefuses, rfl⟩ := onPart_eq.mp h₄
    -- the early return skips the `free` of the frame: its buffer is lost
    have hnot : m.inPacket.smpRemainingLength ≠ 0 → ¬ AcceptsFrame env m := by
      intro hlength haccepts
      obtain ⟨packet, s, haccepts⟩ := haccepts hlength
      have := (hsession hrefuses).symm.trans haccepts
      cases this
    refine ⟨hin₂.1, hin₂.2.1, ⟨hqueue₂.currentOutPacket, hqueue₂.outPacket⟩, ?_⟩
    show ∃ more, Ledger env start _
      ((m₂.inPacket.mqttPacket.map Buffer.block).toList ++ held) (more ++ lost) ∧ _
    rw [hin₂.2.2]
    -- an empty frame has no buffer to lose
    cases hholds with
    | empty length nothing ledger =>
      have hnil : m.inPacket.frame = [] := by
        rw [Packet.frame, length]
        rfl
      have hL₂ := (ledger.same hsame₁).touchIf (fun hne => absurd hnil hne) h₂
      exact ⟨[], hL₂.congr rfl rfl, iff_of_true (fun hne => absurd length hne) .nil⟩
    | @buffer b payload received length ledger =>
      have hL₂ := (ledger.same hsame₁).touchIf (fun _ buffer hbuffer => ?_) h₂
      · refine ⟨[b.block], hL₂.loseOne.congr rfl rfl, iff_of_false (hnot length) fun hnone => ?_⟩
        have := hnone b.block (List.mem_singleton_self _)
        rw [received] at this
        cases this
      · have : some buffer = some b :=
          hbuffer.symm.trans (hsame₁.pointers.smpPayload.trans payload)
        cases this
        exact List.mem_append_left _ (List.mem_cons_self ..)
  · -- it accepts it, so there is a buffer
    obtain ⟨session, haccepts, rfl⟩ := onPart_eq.mp (mapErr_ok.mp h₄)
    obtain ⟨b, hb, hL⟩ : ∃ b, m.inPacket.smpPayload = some b ∧
        Ledger env start m (b.block :: held) lost := by
      cases hholds with
      | empty length nothing ledger =>
        have hnil : m.inPacket.frame = [] := by
          rw [Packet.frame, length]
          rfl
        have haccepted := hsession haccepts
        rw [hnil] at haccepted
        exact absurd haccepted (hempty _ _ _)
      | @buffer b payload received length ledger => exact ⟨b, payload, ledger⟩
    have hb₁ := hsame₁.pointers.smpPayload.trans hb
    have hL₂ := (hL.same hsame₁).touchIf (fun _ buffer hbuffer => ?_) h₂
    · have hL₄ : Ledger env start { m₂ with
          handed := m₂.handed ++ [m.inPacket.frame]
          session := session } (b.block :: held) lost := hL₂.congr rfl rfl
      rcases bind_some.mp h with ⟨e, h₅, -⟩ | ⟨_, m₅, h₅, h⟩
      · exact absurd h₅ (NeverFails.onlyIf
          (neverFails_libraryBlock.bind fun _ => neverFails_modify) _ _ _)
      obtain ⟨hL₅, hprocess₅, hpayload₅, hqueue₅⟩ := hL₄.storePacket hin₂.2.2 h₅
      rw [hb₁] at h
      rcases bind_some.mp h with ⟨e, h₆, -⟩ | ⟨_, m₆, h₆, h⟩
      · rw [mosquittoFree_apply] at h₆
        cases h₆
      have hm₆ := HeapOnly.mosquittoFree _ _ _ h₆
      have hL₆ := (hL₅.perm List.perm_middle).mosquittoFree h₆
      -- the check behind `free` changes nothing, whether it fails or not
      have hlast : m' = m₆ := by
        cases r with
        | error e => exact (failIf_error.mp h).2.2.symm
        | ok u => exact (failIf_ok.mp h).2.symm
      rw [hlast]
      refine ⟨?_, ?_, ?_, [], ?_, iff_of_true (fun _ => ⟨_, _, hsession haccepts⟩) .nil⟩
      · rw [hm₆.inPacket, hprocess₅, ← hin₂.1]
      · rw [hm₆.inPacket, hpayload₅, ← hin₂.2.1]
      · exact ⟨hm₆.currentOutPacket.trans
          (hqueue₅.currentOutPacket.trans hqueue₂.currentOutPacket),
          hm₆.outPacket.trans (hqueue₅.outPacket.trans hqueue₂.outPacket)⟩
      · rw [hm₆.inPacket]
        exact hL₆
    · have : some buffer = some b := hbuffer.symm.trans hb₁
      cases this
      exact List.mem_append_left _ (List.mem_cons_self ..)

/-! ## Taking a packet apart, and handling it -/

theorem neverFails_packetBytes {packet : Bytes} {index count : Nat} :
    NeverFails (packetBytes env packet index count) := by
  have hbyte : ∀ index, NeverFails (packetByte env packet index) := by
    intro index
    unfold packetByte
    split
    · exact neverFails_pure
    · split
      · exact neverFails_pure
      · intro s e s' h
        rw [fault_apply] at h
        cases h
  induction count generalizing index with
  | zero => exact neverFails_pure
  | succ count ih => exact (hbyte index).bind fun _ => ih.bind fun _ => neverFails_pure

theorem cleanupBlocks_of_none {q : Packet} (h : q.payload = none) :
    q.cleanupBlocks = (q.mqttPacket.map Buffer.block).toList := by
  rw [Packet.cleanupBlocks, h]
  exact List.append_nil _

/-- The payload is held like the packet it is copied from. -/
theorem decodePayload_ledger {packet : Bytes} {offset : Nat} {r : Except MosqError Unit}
    (hL : Ledger env start m ((m.inPacket.mqttPacket.map Buffer.block).toList ++ held) lost)
    (hnone : m.inPacket.payload = none) (h : decodePayload env packet offset m = some (r, m')) :
    Ledger env start m' (m'.inPacket.cleanupBlocks ++ held) lost ∧
      m'.inPacket.smpToProcess = m.inPacket.smpToProcess ∧ SameQueue m m' := by
  unfold decodePayload at h
  rw [bind_of_ok get_apply] at h
  split at h
  · rcases bind_some.mp h with ⟨e, h₁, -⟩ | ⟨mem, m₁, h₁, h⟩
    · exact absurd h₁ (neverFails_mosquittoMalloc _ _ _)
    have hm₁ := HeapOnly.mosquittoMalloc _ _ _ h₁
    obtain ⟨hL₁, -⟩ := hL.mosquittoMalloc h₁
    cases mem with
    | none =>
      cases h
      rw [hm₁.inPacket, cleanupBlocks_of_none hnone]
      exact ⟨hL₁, rfl, .ofHeapOnly hm₁⟩
    | some block =>
      rcases bind_some.mp h with ⟨e, h₂, -⟩ | ⟨data, m₂, h₂, h⟩
      · exact absurd h₂ (neverFails_packetBytes _ _ _)
      have hsame := SameBlocks.packetBytes _ _ _ h₂
      have hmqtt : m₂.inPacket.mqttPacket = m.inPacket.mqttPacket := by
        rw [hsame.pointers.mqttPacket, hm₁.inPacket]
      cases h
      refine ⟨?_, ?_, hsame.queue.currentOutPacket.trans hm₁.currentOutPacket,
        hsame.queue.outPacket.trans hm₁.outPacket⟩
      · have hblocks : Packet.cleanupBlocks { m₂.inPacket with
              payload := some { block := block, data := data }
              toProcess := 0
              pos := 0 } =
            (m.inPacket.mqttPacket.map Buffer.block).toList ++ [block] := by
          simp only [Packet.cleanupBlocks, hmqtt, Option.map_some, Option.toList_some]
        show Ledger env start _ (Packet.cleanupBlocks _ ++ held) lost
        rw [hblocks, List.append_assoc]
        have hL₂ := (hL₁.same hsame).perm (List.perm_append_comm_assoc ..)
        exact hL₂.congr rfl rfl
      · show m₂.inPacket.smpToProcess = _
        rw [hsame.pointers.smpToProcess, hm₁.inPacket]
  · cases h
    rw [cleanupBlocks_of_none hnone]
    exact ⟨hL, rfl, Std.Refl.refl m⟩

theorem decodeMqttPacket_ledger {r : Except MosqError Unit}
    (hL : Ledger env start m ((m.inPacket.mqttPacket.map Buffer.block).toList ++ held) lost)
    (hnone : m.inPacket.payload = none) (h : decodeMqttPacket env m = some (r, m')) :
    Ledger env start m' (m'.inPacket.cleanupBlocks ++ held) lost ∧
      m'.inPacket.smpToProcess = m.inPacket.smpToProcess ∧ SameQueue m m' := by
  -- up to the payload the pointers are as they were
  have hstops : ∀ {m₁ : Mosq σ}, m.inPacket.SamePointers m₁.inPacket → SameQueue m m₁ →
      Ledger env start m₁ ((m.inPacket.mqttPacket.map Buffer.block).toList ++ held) lost →
      Ledger env start m₁ (m₁.inPacket.cleanupBlocks ++ held) lost ∧
        m₁.inPacket.smpToProcess = m.inPacket.smpToProcess ∧ SameQueue m m₁ := by
    intro m₁ hpointers hqueue hL₁
    rw [cleanupBlocks_of_none (hpointers.payload.trans hnone), hpointers.mqttPacket]
    exact ⟨hL₁, hpointers.smpToProcess, hqueue⟩
  unfold decodeMqttPacket at h
  rw [bind_of_ok get_apply] at h
  rcases bind_some.mp h with ⟨e, h₁, -⟩ | ⟨_, m₁, h₁, h⟩
  · obtain ⟨-, -, rfl⟩ := failIf_error.mp h₁
    exact hstops ⟨rfl, rfl, rfl, rfl⟩ (Std.Refl.refl m) hL
  obtain ⟨-, rfl⟩ := failIf_ok.mp h₁
  rcases bind_some.mp h with ⟨e, h₂, -⟩ | ⟨_, m₂, h₂, h⟩
  · exact absurd h₂ (neverFails_modify _ _ _)
  have hm₂ := HeapOnly.touch _ _ _ h₂
  have hL₂ := hL.touch (fun buffer hbuffer => by simp [Option.mem_def.mp hbuffer]) h₂
  have hpointers₂ : m.inPacket.SamePointers m₂.inPacket := by
    rw [hm₂.inPacket]
    exact ⟨rfl, rfl, rfl, rfl⟩
  have hkeeps : ∀ {m₃ : Mosq σ}, SameBlocks m₂ m₃ → m.inPacket.SamePointers m₃.inPacket := by
    intro m₃ hsame
    rw [hm₂.inPacket] at hpointers₂
    have := hsame.pointers
    rwa [hm₂.inPacket] at this
  have hqueue : ∀ {m₃ : Mosq σ}, SameBlocks m₂ m₃ → SameQueue m m₃ := fun hsame =>
    trans_of SameQueue (.ofHeapOnly hm₂) hsame.queue
  rcases bind_some.mp h with ⟨e, h₃, -⟩ | ⟨offset, m₃, h₃, h⟩
  · have hsame := SameBlocks.decodeCommand _ _ _ h₃
    exact hstops (hkeeps hsame) (hqueue hsame) (hL₂.same hsame)
  have hsame₃ := SameBlocks.decodeCommand _ _ _ h₃
  rcases bind_some.mp h with ⟨e, h₄, -⟩ | ⟨offset', m₄, h₄, h⟩
  · have hsame := trans_of SameBlocks hsame₃ (SameBlocks.decodeLength _ _ _ h₄)
    exact hstops (hkeeps hsame) (hqueue hsame) (hL₂.same hsame)
  have hsame₄ := trans_of SameBlocks hsame₃ (SameBlocks.decodeLength _ _ _ h₄)
  have hpointers := hkeeps hsame₄
  -- the payload is the only part that makes a block
  have hL₄ := hL₂.same hsame₄
  rw [← hpointers.mqttPacket] at hL₄
  obtain ⟨hL', hprocess, hqueue'⟩ :=
    decodePayload_ledger hL₄ (hpointers.payload.trans hnone) h
  exact ⟨hL', hprocess.trans hpointers.smpToProcess,
    trans_of SameQueue (hqueue hsame₄) hqueue'⟩

/-- Handling a packet releases it. -/
theorem handlePacket_ledger {r : Except MosqError Unit}
    (hL : Ledger env start m (m.inPacket.cleanupBlocks ++ (m.outBlocks ++ held)) lost)
    (h : handlePacket env m = some (r, m')) :
    ∃ more, Ledger env start m' (m'.outBlocks ++ held) (more ++ lost) ∧ NoneReceived more := by
  unfold handlePacket at h
  rw [bind_of_ok get_apply] at h
  rcases bind_some.mp h with ⟨e, h₁, -⟩ | ⟨_, m₁, h₁, h⟩
  · exact absurd h₁ (neverFails_modify _ _ _)
  have hm₁ := HeapOnly.touch _ _ _ h₁
  have hL₁ : Ledger env start m₁ (m.inPacket.cleanupBlocks ++ (m.outBlocks ++ held)) lost := by
    refine hL.touch (fun buffer hbuffer => ?_) h₁
    have hmem : buffer.block ∈ m.inPacket.cleanupBlocks := by
      simp [Packet.cleanupBlocks, Option.mem_def.mp hbuffer]
    exact List.mem_append_left _ (List.mem_append_left _ hmem)
  rw [bind_of_ok modify_apply] at h
  rcases bind_some.mp h with ⟨e, h₂, -⟩ | ⟨_, m₂, h₂, h⟩
  · exact absurd h₂ (neverFails_runActs _ _ _ _)
  have hin₂ : m₂.inPacket = m.inPacket :=
    (HandlerSide.runActs _ _ _ h₂).inPacket.trans hm₁.inPacket
  -- `m₁'` is the state the handlers act in: the packet is noted as handled
  obtain ⟨m₁', hm₁'⟩ : ∃ m₁' : Mosq σ, m₁' = { m₁ with
      handled := m₁.handled ++ [(m₁.handed.getLastD [], m.inPacket.incoming)] } := ⟨_, rfl⟩
  have hout₁ : m₁'.outBlocks = m.outBlocks := by
    rw [hm₁']
    exact (SameQueue.ofHeapOnly hm₁).outBlocks
  have hL₁' : Ledger env start m₁' (m₁'.outBlocks ++ (m.inPacket.cleanupBlocks ++ held)) lost := by
    rw [hout₁]
    refine (hL₁.perm ?_).congr (by rw [hm₁']) (by rw [hm₁'])
    exact List.perm_append_comm_assoc ..
  rw [← hm₁'] at h₂
  obtain ⟨more, hL₂, hmore⟩ := SendsBlocks.runActs _ _ _ h₂ start _ lost hL₁'
  refine ⟨more, ?_, hmore⟩
  -- `packet__cleanup` releases both blocks of the packet behind the handlers
  replace hL₂ := hL₂.perm (List.perm_append_comm_assoc ..)
  rw [bind_of_ok (cleanupInPacket_apply m₂), ofExcept_apply] at h
  cases h
  rw [← hin₂, Packet.cleanupBlocks, List.append_assoc] at hL₂
  have hfreed : HeapOnly m₂ ((m₂.freed env (m₂.inPacket.mqttPacket.map Buffer.block)).freed env
      (m₂.inPacket.payload.map Buffer.block)) :=
    trans_of HeapOnly (HeapOnly.freed _ _) (HeapOnly.freed _ _)
  have hout : ∀ q, ({ (m₂.freed env (m₂.inPacket.mqttPacket.map Buffer.block)).freed env
      (m₂.inPacket.payload.map Buffer.block) with inPacket := q } : Mosq σ).outBlocks =
        m₂.outBlocks := fun q => (SameQueue.ofHeapOnly hfreed).outBlocks
  rw [hout]
  exact hL₂.freed.freed.congr rfl rfl

/-! ## packet__read -/

/-- A packet between two calls on an open socket. -/
structure ReadyToRead (q : Packet) : Prop where
  untouched : Untouched q
  pending : FramePending q
  frame : FrameBuffer q
  mqttPacket : q.mqttPacket = none

theorem ReadyToRead.cleaned (q : Packet) : ReadyToRead q.cleaned := by
  refine ⟨.cleaned q, fun hcount => absurd hcount (lt_irrefl 0), ⟨fun _ => rfl, fun hpos => ?_⟩, rfl⟩
  exact absurd hpos (lt_irrefl 0)

theorem ReadyToRead.cleanupBlocks {q : Packet} (h : ReadyToRead q) : q.cleanupBlocks = [] := by
  have hpayload : q.payload = none := congrArg PayloadFields.payload h.untouched.payload
  rw [cleanupBlocks_of_none hpayload, h.mqttPacket]
  rfl

/-- Every frame this call reads to its end is accepted. -/
def AcceptsNext (env : Setup σ) (m : Mosq σ) : Prop :=
  m.sock = true → m.state ≠ .connectPending →
    ∀ m₁, readSmpFrame env m = some (.ok true, m₁) → AcceptsFrame env m₁

theorem acceptsNext_of_read {r : Except MosqError Bool} (h : readSmpFrame env m = some (r, m'))
    (hr : r ≠ .ok true) : AcceptsNext env m := by
  intro _ _ m₁ h₁
  rw [h] at h₁
  cases h₁
  exact absurd rfl hr

theorem acceptsNext_iff (hsock : m.sock = true) (hreads : m.state ≠ .connectPending)
    (h : readSmpFrame env m = some (.ok true, m')) :
    AcceptsNext env m ↔ AcceptsFrame env m' := by
  refine ⟨fun ha => ha hsock hreads m' h, fun ha _ _ m₁ h₁ => ?_⟩
  rw [h] at h₁
  cases h₁
  exact ha

/-- The blocks of a client.  It has lost one of those of the packet it reads unless a
    condition holds. -/
structure KeepsReceived (env : Setup σ) (start : Mosq σ) (held lost : List Block) (accepts : Prop)
    (m' : Mosq σ) : Prop where
  frame : ∀ b ∈ m'.inPacket.frameBlocks, isReceived b = true
  ledger : ∃ more, Ledger env start m' (m'.blocks ++ held) (more ++ lost) ∧
    (accepts ↔ NoneReceived more)

/-- A call that loses nothing. -/
theorem KeepsReceived.all {accepts : Prop}
    (hframe : ∀ b ∈ m'.inPacket.frameBlocks, isReceived b = true)
    (hL : Ledger env start m' (m'.blocks ++ held) lost) (h : accepts) :
    KeepsReceived env start held lost accepts m' :=
  ⟨hframe, [], hL, iff_of_true h .nil⟩

/-- Reading a frame touches nothing else of the client. -/
theorem readSmpFrame_others {r : Except MosqError Bool} (h : readSmpFrame env m = some (r, m')) :
    (Untouched m.inPacket → Untouched m'.inPacket) ∧
      m'.inPacket.mqttPacket = m.inPacket.mqttPacket ∧ SameQueue m m' := by
  obtain ⟨_, _, _, _, _, lf, pf, rfl⟩ := ReadsTo.readSmpFrame _ _ _ h
  exact ⟨fun hq => ⟨hq.command, hq.length, hq.payload⟩, rfl, ⟨rfl, rfl⟩⟩

/-- The ledger when no packet was decrypted yet. -/
theorem Ledger.blocks (hL : Ledger env start m (m.inPacket.frameBlocks ++ (m.outBlocks ++ held)) lost)
    (hq : Untouched m.inPacket) (hnone : m.inPacket.mqttPacket = none) :
    Ledger env start m (m.blocks ++ held) lost := by
  have hpayload : m.inPacket.payload = none := congrArg PayloadFields.payload hq.payload
  rw [Mosq.blocks, Packet.inBlocks, cleanupBlocks_of_none hpayload, hnone]
  rwa [← List.append_assoc, ← List.append_nil m.inPacket.frameBlocks] at hL

/-- Behind a frame that is processed its buffer is not held any more. -/
theorem Ledger.packetBlocks
    (hL : Ledger env start m (m.inPacket.cleanupBlocks ++ (m.outBlocks ++ held)) lost)
    (hzero : m.inPacket.smpToProcess = 0) : Ledger env start m (m.blocks ++ held) lost := by
  rw [Mosq.blocks, Packet.inBlocks, Packet.frameBlocks, if_pos hzero, List.nil_append]
  rwa [← List.append_assoc] at hL

/-- How `packet__read_smp` ends: with a part of a frame, with an error, or with a packet
    that is held. -/
theorem packetReadSmp_ledger {r : Except MosqError Unit} (hempty : RefusesEmpty env)
    (hsock : m.sock = true) (hreads : m.state ≠ .connectPending) (hready : ReadyToRead m.inPacket)
    (hL : Ledger env start m (m.inPacket.frameBlocks ++ (m.outBlocks ++ held)) lost)
    (h : packetReadSmp env m = some (r, m')) :
    KeepsReceived env start held lost (AcceptsNext env m) m' ∧
      (r = .ok () → m'.errno = .again → ReadyToRead m'.inPacket) ∧
      (r = .ok () → m'.errno ≠ .again → Untouched m'.inPacket ∧
        m'.inPacket.smpToProcess = 0 ∧
        ∃ more, Ledger env start m' ((m'.inPacket.mqttPacket.map Buffer.block).toList ++
          (m'.outBlocks ++ held)) (more ++ lost) ∧ (AcceptsNext env m ↔ NoneReceived more)) := by
  have hread := h
  unfold packetReadSmp at h
  rcases bind_some.mp h with ⟨e, h₁, rfl⟩ | ⟨done, m₁, h₁, h⟩
  · obtain ⟨hq, hmqtt, hqueue⟩ := readSmpFrame_others h₁
    rcases readSmpFrame_ledger hready.frame hready.pending hL h₁ with
      ⟨hr, -⟩ | ⟨-, hL₁, hframe, -⟩
    · cases hr
    · rw [← hqueue.outBlocks] at hL₁
      exact ⟨.all hframe (hL₁.blocks (hq hready.untouched) (hmqtt.trans hready.mqttPacket))
        (acceptsNext_of_read h₁ nofun), (fun hr => by cases hr), fun hr => by cases hr⟩
  obtain ⟨hq, hmqtt, hqueue⟩ := readSmpFrame_others h₁
  replace hq := hq hready.untouched
  rw [hready.mqttPacket] at hmqtt
  -- a part of the frame, or the whole of it
  cases done with
  | false =>
    rcases readSmpFrame_ledger hready.frame hready.pending hL h₁ with
      ⟨hr, -⟩ | ⟨-, hL₁, hframe, hbuffer⟩
    · cases hr
    have hpending := (readSmpFrame_done hready.pending h₁).2 rfl
    have hagain := readSmpFrame_again h₁
    rw [← hqueue.outBlocks] at hL₁
    cases h
    exact ⟨.all hframe (hL₁.blocks hq hmqtt) (acceptsNext_of_read h₁ nofun),
      fun _ _ => ⟨hq, hpending, hbuffer rfl, hmqtt⟩, fun _ hne => absurd hagain hne⟩
  | true =>
    rcases readSmpFrame_ledger hready.frame hready.pending hL h₁ with ⟨-, hholds, hzero⟩ | ⟨hr, -⟩
    · rw [if_pos rfl] at h
      obtain ⟨hprocess, hpayload, hqueue', more, hL', hmore⟩ :=
        processSmpFrame_ledger hempty hholds hmqtt h
      have hnone : m'.inPacket.payload = none :=
        hpayload.trans (congrArg PayloadFields.payload hq.payload)
      rw [hzero] at hprocess
      rw [← hqueue.outBlocks, ← hqueue'.outBlocks] at hL'
      replace hmore := (acceptsNext_iff hsock hreads h₁).trans hmore
      refine ⟨⟨?_, more, ?_, hmore⟩, fun hr hagain => ?_, fun hr hne => ⟨?_, hprocess, more, hL',
        hmore⟩⟩
      · rw [frameBlocks_of_zero hprocess]
        exact List.forall_mem_nil _
      · rw [← cleanupBlocks_of_none hnone] at hL'
        exact hL'.packetBlocks hprocess
      -- errno is zero behind a whole frame, so this is no call that waits
      · have herrno : m'.errno = .zero :=
          (processSmpFrame_frame h).2.2.1.trans ((readSmpFrame_done hready.pending h₁).1 rfl)
        rw [herrno] at hagain
        cases hagain
      · subst hr
        obtain ⟨_, _, -, -, hdecrypted⟩ := packetReadSmp_delivers hready.untouched hread hne
        exact hdecrypted.toUntouched
    · exact absurd rfl hr

theorem packetRead_ledger {r : Except MosqError Unit} (hempty : RefusesEmpty env)
    (hready : m.sock = true → ReadyToRead m.inPacket)
    (hframe : ∀ b ∈ m.inPacket.frameBlocks, isReceived b = true)
    (hL : Ledger env start m (m.blocks ++ held) lost) (h : packetRead env m = some (r, m')) :
    KeepsReceived env start held lost (AcceptsNext env m) m' ∧
      (r = .ok () → m'.sock = true → ReadyToRead m'.inPacket) := by
  unfold packetRead at h
  rw [bind_of_ok get_apply] at h
  rcases bind_some.mp h with ⟨e, he, rfl⟩ | ⟨_, m₀, h₀, h⟩
  · obtain ⟨hclosed, -, rfl⟩ := failIf_error.mp he
    refine ⟨.all hframe hL fun hsock => ?_, fun hr => by cases hr⟩
    rw [hclosed] at hsock
    cases hsock
  -- from here on the socket is open, so the packet is ready to be read
  obtain ⟨hsock, rfl⟩ := failIf_ok.mp h₀
  split at h
  · next hpending =>
    cases h
    exact ⟨.all hframe hL fun _ hreads => absurd hpending hreads, fun _ => hready⟩
  next hreads =>
  have hsock : m.sock = true := by simpa using hsock
  replace hready := hready hsock
  rw [Mosq.blocks, Packet.inBlocks, hready.cleanupBlocks, List.append_nil,
    List.append_assoc] at hL
  rw [if_pos hready.untouched.command] at h
  rcases bind_some.mp h with ⟨e, h₁, rfl⟩ | ⟨_, m₁, h₁, h⟩
  · exact ⟨(packetReadSmp_ledger hempty hsock hreads hready hL h₁).1, (fun h => by cases h)⟩
  obtain ⟨hkeeps, hagain, hdone⟩ := packetReadSmp_ledger hempty hsock hreads hready hL h₁
  rw [bind_of_ok get_apply] at h
  split at h
  · next herrno =>
    cases h
    exact ⟨hkeeps, fun _ _ => hagain rfl herrno⟩
  · next herrno =>
    -- a packet was decrypted
    obtain ⟨hq, hzero, more, hL₁, hmore⟩ := hdone rfl herrno
    have hnone : m₁.inPacket.payload = none := congrArg PayloadFields.payload hq.payload
    rcases bind_some.mp h with ⟨e, h₂, rfl⟩ | ⟨_, m₂, h₂, h⟩
    · obtain ⟨hL₂, hprocess, hqueue⟩ := decodeMqttPacket_ledger hL₁ hnone h₂
      rw [← hqueue.outBlocks] at hL₂
      rw [hzero] at hprocess
      refine ⟨⟨?_, more, hL₂.packetBlocks hprocess, hmore⟩, (fun h => by cases h)⟩
      rw [frameBlocks_of_zero hprocess]
      exact List.forall_mem_nil _
    obtain ⟨hL₂, hprocess, hqueue⟩ := decodeMqttPacket_ledger hL₁ hnone h₂
    rw [← hqueue.outBlocks] at hL₂
    obtain ⟨more', hL', hmore'⟩ := handlePacket_ledger hL₂ h
    have hcleaned := (handlePacket_handles h).inPacket
    refine ⟨⟨?_, more' ++ more, ?_, hmore.trans ?_⟩, fun _ _ => ?_⟩
    · rw [hcleaned]
      exact List.forall_mem_nil _
    · rw [Mosq.blocks, hcleaned, List.append_assoc more']
      exact hL'
    · exact ⟨fun hnone => .append hmore' hnone, fun hnone => hnone.right⟩
    · rw [hcleaned]
      exact .cleaned _

end Reading

end WeeveMQ
