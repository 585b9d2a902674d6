/-
  WeeveMQ.QueueOrder

  Threads that send through one client.

  `packet__queue` gives a packet its id when it secures it, and its place in the
  queue in a second step, under a lock of its own.  Between the two another
  thread may do the same.  The steps of all threads interleave in any order,
  with those of the writer and with the messages that come in.

  - `QueueInOrder`: packets wait and go out in the order of their ids, and the
    peer does not find any of them too old.
  - `queue_in_order`: this holds in every run in which no thread queues a packet
    past one that was secured before it.
  - `queue_overtaken`: two threads, the second of which does.
-/

import WeeveMQ.Lib.Run
import WeeveMQ.MosqSession
import WeeveMQ.PacketQueue

namespace WeeveMQ

open Call

variable {τ : Type}

/-! ## Threads -/

/-- A client, and for every thread the packet it has secured and not yet queued. -/
structure Threads (τ : Type) where
  mosq : Mosq SmpSession
  held : τ → Option (OutPacket SmpSession)

/-- A thread secures the packet in `block`, or queues the one it holds; packets
    are written; a message comes in. -/
inductive ThreadEvent (τ : Type) where
  | secure (thread : τ) (block : Block) (packet : Packet)
  | enqueue (thread : τ)
  | write
  | receive (message : Bytes)

inductive ThreadStep [DecidableEq τ] (env : Setup SmpSession) (s : Threads τ) :
    ThreadEvent τ → Threads τ → Prop
  | secured {thread block packet packet' mosq} (free : s.held thread = none)
      (secure : packetSecure env packet s.mosq = some (.ok packet', mosq)) :
      ThreadStep env s (.secure thread block packet) {
        mosq := mosq
        held := Function.update s.held thread
          (some { block := block, packet := packet', origin := s.mosq.session }) }
  | notSecured {thread block packet e mosq} (free : s.held thread = none)
      (secure : packetSecure env packet s.mosq = some (.error e, mosq)) :
      ThreadStep env s (.secure thread block packet) { s with mosq := mosq }
  | enqueued {thread out mosq} (holds : s.held thread = some out)
      (enqueue : packetEnqueue out s.mosq = some (.ok (), mosq)) :
      ThreadStep env s (.enqueue thread) {
        mosq := mosq
        held := Function.update s.held thread none }
  | written {r mosq} (write : packetWrite env s.mosq = some (r, mosq)) :
      ThreadStep env s .write { s with mosq := mosq }
  | received {message r mosq}
      (process : onSession (env.wclSmpProcessMessage message) s.mosq = some (r, mosq)) :
      ThreadStep env s (.receive message) { s with mosq := mosq }

/-- Nothing is secured, nothing waits and nothing is written. -/
structure Threads.Idle (s : Threads τ) : Prop where
  line : s.mosq.outLine = .empty
  held : ∀ thread, s.held thread = none

/-! ## The order of the ids -/

/-- The id of the message a packet was secured as. -/
def SecuredPacket.messageId (k : SecuredPacket SmpSession) : UInt32 := k.origin.nextId

def OutPacket.messageId (out : OutPacket SmpSession) : UInt32 := out.secured.messageId

/-- The bytes of a packet are one frame, and the message in it has this header. -/
def SecuredPacket.HasHeader (cbor : TinyCbor) (k : SecuredPacket SmpSession)
    (header : WosSmpHeader) : Prop :=
  ∃ message, Base128.nextFrame 4 k.bytes = .frame message [] ∧
    wosMsgUnpackSmpHeaderFromSmpMsg cbor message = .ok header

/-- The id of a packet is the one its message goes out with. -/
def SecuredPacket.CarriesId (cbor : TinyCbor) (k : SecuredPacket SmpSession) : Prop :=
  ∃ header, k.HasHeader cbor header ∧ header.messageId = k.messageId

/-- A secured packet is older than another one. -/
def OlderId (k l : SecuredPacket SmpSession) : Prop := k.messageId < l.messageId

/-- The peer, having accepted nothing or a packet that began to go out before `w`,
    does not reject the message of `w` for its id. -/
def NotTooOld (cbor : TinyCbor) (role : Role) (m : Mosq SmpSession) : Prop :=
  ∀ before w after, m.wire = before ++ w :: after → w.pos = 0 →
    ∀ ctx : SmpSessionContext, (ctx.lastReceivedMessageId = 0 ∨
      ∃ v ∈ before, ctx.lastReceivedMessageId = v.packet.messageId) →
    ∀ header, w.packet.secured.HasHeader cbor header →
      lSmpValidateSmpHeader role.peer ctx header =
        lSmpValidateSmpHeader role.peer { ctx with lastReceivedMessageId := 0 } header

/-- The packets of a client carry their ids, wait and go out in their order, and the
    peer finds none of them too old. -/
structure QueueInOrder (cbor : TinyCbor) (role : Role) (m : Mosq SmpSession) : Prop where
  carried : ∀ k ∈ m.outLine.keys, k.CarriesId cbor
  ordered : m.outLine.Ordered OlderId
  accepted : NotTooOld cbor role m

/-- No packet is secured once the counter of the ids is back at its start, and none is
    queued past one that has an older id. -/
def InTurn (s : Threads τ) : ThreadEvent τ → Prop
  | .secure _ _ _ => s.mosq.session.nextId = 0 →
      s.mosq.outLine.keys = [] ∧ ∀ thread, s.held thread = none
  | .enqueue thread => ∀ other out out', s.held thread = some out → s.held other = some out' →
      out.messageId ≤ out'.messageId
  | _ => True

/-! ## What a step keeps -/

/-- The invariant of the threads.  As long as the counter is not back at its start it is
    ahead of all ids; what a thread holds is newer than everything that is queued. -/
structure ThreadsInOrder (cbor : TinyCbor) (s : Threads τ) : Prop where
  carried : ∀ k ∈ s.mosq.outLine.keys, k.CarriesId cbor
  ordered : s.mosq.outLine.Ordered OlderId
  heldCarries : ∀ thread out, s.held thread = some out →
    out.secured.CarriesId cbor ∧ out.packet.pos = 0
  heldNewer : ∀ thread out, s.held thread = some out →
    ∀ k ∈ s.mosq.outLine.keys, k.messageId < out.messageId
  heldOnce : ∀ thread other out out', s.held thread = some out → s.held other = some out' →
    thread ≠ other → out.messageId ≠ out'.messageId
  queuedBelow : s.mosq.session.nextId ≠ 0 →
    ∀ k ∈ s.mosq.outLine.keys, k.messageId < s.mosq.session.nextId
  heldBelow : s.mosq.session.nextId ≠ 0 →
    ∀ thread out, s.held thread = some out → out.messageId < s.mosq.session.nextId

/-- Unless it wraps, the next id is ahead of the ids up to the last one. -/
theorem lt_id_succ {a n : UInt32} (hn : n + 1 ≠ 0) (h : a ≤ n) : a < n + 1 := by
  have hne : (n + 1).toNat ≠ 0 := fun h => hn (UInt32.toNat_inj.mp h)
  have hlt := n.toNat_lt
  rw [UInt32.toNat_add] at hne
  rw [UInt32.le_iff_toNat_le] at h
  rw [UInt32.lt_iff_toNat_lt, UInt32.toNat_add]
  simp only [UInt32.toNat_one, Nat.reducePow] at hne hlt ⊢
  omega

theorem held_update [DecidableEq τ] {held : τ → Option (OutPacket SmpSession)} {thread u : τ}
    {v : Option (OutPacket SmpSession)} {out : OutPacket SmpSession}
    (h : Function.update held thread v u = some out) :
    u = thread ∧ v = some out ∨ u ≠ thread ∧ held u = some out := by
  by_cases hu : u = thread
  · subst hu
    rw [Function.update_self] at h
    exact .inl ⟨rfl, h⟩
  · rw [Function.update_of_ne hu] at h
    exact .inr ⟨hu, h⟩

section Steps

variable {platform : Platform} {role : Role}
  {handle : Nat → MosqState → Incoming → List HandlerAct × Except MosqError Unit}
  {s s' : Threads τ} {thread : τ} {m : Mosq SmpSession}

/-- The counter moves by one at most. -/
def NextIdMoves (s s' : SmpSession) : Prop :=
  s'.nextId = s.nextId ∨ s'.nextId = s.nextId + 1

/-- Ids below the counter stay below it, as long as it does not start again and
    there are none of them when it has. -/
theorem NextIdMoves.below {t t' : SmpSession} (h : NextIdMoves t t') {a : UInt32}
    (hbelow : t.nextId ≠ 0 → a < t.nextId) (hstart : t.nextId ≠ 0) (hnext : t'.nextId ≠ 0) :
    a < t'.nextId := by
  rcases h with h | h
  · rw [h]
    exact hbelow hstart
  · rw [h] at hnext ⊢
    exact lt_id_succ hnext (UInt32.le_of_lt (hbelow hstart))

/-- A step that only moves the counter. -/
theorem ThreadsInOrder.session (h : ThreadsInOrder platform.cbor s)
    (hline : m.outLine = s.mosq.outLine) (hmoves : NextIdMoves s.mosq.session m.session)
    (hwrap : m.session.nextId ≠ s.mosq.session.nextId → s.mosq.session.nextId = 0 →
      s.mosq.outLine.keys = [] ∧ ∀ thread, s.held thread = none) :
    ThreadsInOrder platform.cbor { s with mosq := m } := by
  refine ⟨?_, ?_, h.heldCarries, ?_, h.heldOnce, ?_, ?_⟩
  · rw [hline]
    exact h.carried
  · rw [hline]
    exact h.ordered
  · rw [hline]
    exact h.heldNewer
  · intro hnext k hk
    rw [hline] at hk
    by_cases hstart : s.mosq.session.nextId = 0
    · have hchanged : m.session.nextId ≠ s.mosq.session.nextId := by rwa [hstart]
      rw [(hwrap hchanged hstart).1] at hk
      cases hk
    · exact hmoves.below (fun hne => h.queuedBelow hne k hk) hstart hnext
  · intro hnext thread out hout
    by_cases hstart : s.mosq.session.nextId = 0
    · have hchanged : m.session.nextId ≠ s.mosq.session.nextId := by rwa [hstart]
      rw [(hwrap hchanged hstart).2 thread] at hout
      cases hout
    · exact hmoves.below (fun hne => h.heldBelow hne thread out hout) hstart hnext

/-- Packets are written. -/
theorem ThreadsInOrder.written (h : ThreadsInOrder platform.cbor s)
    (hsession : m.session = s.mosq.session)
    (hwrites : Relation.ReflTransGen PieceLine.Writes s.mosq.outLine m.outLine) :
    ThreadsInOrder platform.cbor { s with mosq := m } := by
  obtain ⟨hordered, hkeys⟩ : m.outLine.Ordered OlderId ∧
      ∀ k ∈ m.outLine.keys, k ∈ s.mosq.outLine.keys := by
    generalize m.outLine = line at hwrites
    -- writing only takes packets off the front of the line
    induction hwrites with
    | refl => exact ⟨h.ordered, fun _ hk => hk⟩
    | tail _ hlast ih => exact ⟨ih.1.writes hlast, fun k hk => ih.2 k (hlast.keys_subset k hk)⟩
  refine ⟨fun k hk => h.carried k (hkeys k hk), hordered, h.heldCarries,
    fun u out hout k hk => h.heldNewer u out hout k (hkeys k hk), h.heldOnce, ?_, ?_⟩
  · intro hne k hk
    show k.messageId < m.session.nextId
    rw [hsession]
    exact h.queuedBelow (hsession ▸ hne) k (hkeys k hk)
  · intro hne u out hout
    show out.messageId < m.session.nextId
    rw [hsession]
    exact h.heldBelow (hsession ▸ hne) u out hout

variable [DecidableEq τ]

/-- A thread secures a packet. -/
theorem ThreadsInOrder.secured (h : ThreadsInOrder platform.cbor s) {block : Block}
    {packet packet' : Packet}
    (hturn : InTurn s (.secure thread block packet))
    (hsecure : packetSecure (platform.setup role handle) packet s.mosq = some (.ok packet', m)) :
    ThreadsInOrder platform.cbor {
      mosq := m
      held := Function.update s.held thread
        (some { block := block, packet := packet', origin := s.mosq.session }) } := by
  obtain ⟨hline, -, hmessage⟩ := packetSecure_cases hsecure
  obtain ⟨message, hget, hdata, hfits, -, -, hpos, -⟩ := hmessage packet' rfl
  have hgives := (getMessage_outcome hget).2.givesOut
  have hnext : m.session.nextId = s.mosq.session.nextId + 1 := hgives.nextId
  obtain ⟨header, hunpack, hid⟩ := hgives.header
  -- what was there is older than the packet that is secured now
  have hqueued : ∀ k ∈ s.mosq.outLine.keys, k.messageId < s.mosq.session.nextId := by
    intro k hk
    by_cases hstart : s.mosq.session.nextId = 0
    · rw [(hturn hstart).1] at hk
      cases hk
    · exact h.queuedBelow hstart k hk
  have hheld : ∀ other out, s.held other = some out →
      out.messageId < s.mosq.session.nextId := by
    intro other out hout
    by_cases hstart : s.mosq.session.nextId = 0
    · rw [(hturn hstart).2 other] at hout
      cases hout
    · exact h.heldBelow hstart other out hout
  have hrest : ThreadsInOrder platform.cbor { s with mosq := m } :=
    h.session hline (.inr hnext) fun _ => hturn
  refine ⟨hrest.carried, hrest.ordered, ?_, ?_, ?_, hrest.queuedBelow, ?_⟩
  · intro u out hout
    rcases held_update hout with ⟨-, hnew⟩ | ⟨-, hold⟩
    · cases hnew
      refine ⟨⟨header, ⟨message, ?_, hunpack⟩, hid⟩, hpos⟩
      show Base128.nextFrame 4 ((packet'.payload.map Buffer.data).getD []) = _
      rw [hdata, ← List.append_nil (Base128.encodeFrame 4 message)]
      exact Base128.nextFrame_encodeFrame hfits (by decide) []
    · exact h.heldCarries u out hold
  -- the new id is above all that are queued
  · intro u out hout k hk
    rcases held_update hout with ⟨-, hnew⟩ | ⟨-, hold⟩
    · cases hnew
      rw [hline] at hk
      exact hqueued k hk
    · exact hrest.heldNewer u out hold k hk
  -- and no other thread holds a packet with it
  · intro u other out out' hout hout' hne
    rcases held_update hout with ⟨rfl, hnew⟩ | ⟨-, hold⟩
    · rcases held_update hout' with ⟨rfl, -⟩ | ⟨-, hold'⟩
      · exact absurd rfl hne
      · cases hnew
        exact (UInt32.ne_of_lt (hheld other out' hold')).symm
    · rcases held_update hout' with ⟨-, hnew'⟩ | ⟨-, hold'⟩
      · cases hnew'
        exact UInt32.ne_of_lt (hheld u out hold)
      · exact h.heldOnce u other out out' hold hold' hne
  · intro hne u out hout
    rcases held_update hout with ⟨-, hnew⟩ | ⟨-, hold⟩
    · cases hnew
      show s.mosq.session.nextId < m.session.nextId
      rw [hnext] at hne ⊢
      exact lt_id_succ hne (UInt32.le_refl _)
    · exact hrest.heldBelow hne u out hold

/-- A thread queues the packet it holds. -/
theorem ThreadsInOrder.enqueued (h : ThreadsInOrder platform.cbor s)
    {out : OutPacket SmpSession} (hturn : InTurn s (.enqueue thread))
    (hholds : s.held thread = some out)
    (henqueue : packetEnqueue out s.mosq = some (.ok (), m)) :
    ThreadsInOrder platform.cbor {
      mosq := m
      held := Function.update s.held thread none } := by
  obtain ⟨hcarries, hpos⟩ := h.heldCarries thread out hholds
  obtain ⟨hsession, hline⟩ := packetEnqueue_line henqueue hpos
  -- the keys are those before and the new one
  have hkeys : ∀ k ∈ m.outLine.keys, k ∈ s.mosq.outLine.keys ∨ k = out.secured := by
    intro k hk
    rw [hline, PieceLine.keys_push, List.mem_append, List.mem_singleton] at hk
    exact hk
  have hothers : ∀ {u out'}, Function.update s.held thread none u = some out' →
      u ≠ thread ∧ s.held u = some out' := by
    intro u out' hout
    rcases held_update hout with ⟨-, hnone⟩ | hold
    · cases hnone
    · exact hold
  refine ⟨?_, ?_, ?_, ?_, ?_, ?_, ?_⟩
  · intro k hk
    rcases hkeys k hk with hk | rfl
    · exact h.carried k hk
    · exact hcarries
  · rw [hline]
    exact h.ordered.push (h.heldNewer thread out hholds)
  · intro u out' hout
    exact h.heldCarries u out' (hothers hout).2
  · intro u out' hout k hk
    obtain ⟨hne, hold⟩ := hothers hout
    rcases hkeys k hk with hk | rfl
    · exact h.heldNewer u out' hold k hk
    · -- the other packet is not older, and has another id
      have hle := hturn u out out' hholds hold
      have hid := h.heldOnce thread u out out' hholds hold hne.symm
      exact UInt32.lt_of_le_of_ne hle hid
  · intro u other out₁ out₂ hout hout' hne
    exact h.heldOnce u other out₁ out₂ (hothers hout).2 (hothers hout').2 hne
  · intro hne k hk
    show k.messageId < m.session.nextId
    rw [hsession]
    have hne : s.mosq.session.nextId ≠ 0 := hsession ▸ hne
    rcases hkeys k hk with hk | rfl
    · exact h.queuedBelow hne k hk
    · exact h.heldBelow hne thread out hholds
  · intro hne u out' hout
    show out'.messageId < m.session.nextId
    rw [hsession]
    have hne : s.mosq.session.nextId ≠ 0 := hsession ▸ hne
    exact h.heldBelow hne u out' (hothers hout).2

theorem ThreadsInOrder.step (h : ThreadsInOrder platform.cbor s) {event : ThreadEvent τ}
    (hturn : InTurn s event) (hstep : ThreadStep (platform.setup role handle) s event s') :
    ThreadsInOrder platform.cbor s' := by
  -- only securing gives out ids, and only queueing adds to the line
  cases hstep with
  | secured free secure => exact h.secured hturn secure
  | notSecured free secure =>
    obtain ⟨hline, ⟨r, hget⟩, -⟩ := packetSecure_cases secure
    rcases getMessage_nextId hget with ⟨_, -, hnext⟩ | hnext
    · exact h.session hline (.inr hnext) fun _ => hturn
    · exact h.session hline (.inl hnext) fun hne => absurd hnext hne
  | enqueued holds enqueue => exact h.enqueued hturn holds enqueue
  | written write =>
    have hwrites := packetWrite_writes _ _ _ write
    exact h.written hwrites.session hwrites.line
  | @received message r m process =>
    obtain ⟨session, hprocess, hm⟩ : ∃ session,
        (∃ r₀, (platform.setup role handle).wclSmpProcessMessage message s.mosq.session =
          some (r₀, session)) ∧ m = { s.mosq with session := session } := by
      cases r with
      | error e =>
        obtain ⟨e₀, he, -⟩ := mapErr_error.mp process
        obtain ⟨session, hp, rfl⟩ := onPart_eq.mp he
        exact ⟨session, ⟨_, hp⟩, rfl⟩
      | ok packet =>
        obtain ⟨session, hp, rfl⟩ := onPart_eq.mp (mapErr_ok.mp process)
        exact ⟨session, ⟨_, hp⟩, rfl⟩
    obtain ⟨r₀, hprocess⟩ := hprocess
    have hnext : session.nextId = s.mosq.session.nextId :=
      (processMessage_outcome hprocess).2.processMessage_nextId
    subst hm
    exact h.session rfl (.inl hnext) fun hne => absurd hnext hne

end Steps

/-! ## Runs -/

/-- A message is not too old for a peer whose last one has an older id. -/
theorem lSmpValidateSmpHeader_newer {role : Role} {ctx : SmpSessionContext}
    {header : WosSmpHeader} (h : ¬ header.messageId < ctx.lastReceivedMessageId) :
    lSmpValidateSmpHeader role ctx header =
      lSmpValidateSmpHeader role { ctx with lastReceivedMessageId := 0 } header := by
  have hzero : ¬ header.messageId < 0 := by
    rw [UInt32.lt_iff_toNat_lt]
    exact Nat.not_lt_zero _
  unfold lSmpValidateSmpHeader reject
  rw [if_neg h, if_neg hzero]

theorem ThreadsInOrder.notTooOld {cbor : TinyCbor} {role : Role} {s : Threads τ}
    (h : ThreadsInOrder cbor s) : NotTooOld cbor role s.mosq := by
  intro before w after hwire hpos ctx hlast header hheader
  have hw : w.packet.secured ∈ s.mosq.outLine.keys := by
    refine List.mem_append.mpr (.inl ?_)
    simp [Mosq.outLine, hwire, Written.piece]
  obtain ⟨header', ⟨message', hframe', hunpack'⟩, hid⟩ := h.carried _ hw
  obtain ⟨message, hframe, hunpack⟩ := hheader
  obtain rfl : message = message' := by simpa using hframe.symm.trans hframe'
  obtain rfl : header = header' := by simpa using hunpack.symm.trans hunpack'
  apply lSmpValidateSmpHeader_newer
  rw [hid]
  rcases hlast with hzero | ⟨v, hv, hlast⟩
  · rw [hzero, UInt32.lt_iff_toNat_lt]
    exact Nat.not_lt_zero _
  · have hlog := h.ordered.log
    simp only [Mosq.outLine, hwire, List.map_append, List.map_cons] at hlog
    have hvw := (List.pairwise_append.mp hlog).2.2 v.piece (List.mem_map_of_mem hv) w.piece
      (List.mem_cons_self ..)
    rw [hlast]
    rcases hvw with hlt | ⟨-, hlt⟩
    · exact fun hgt => UInt32.lt_irrefl _ (UInt32.lt_trans hgt hlt)
    · -- a packet does not begin behind its own start
      rw [Written.piece, Written.piece, hpos] at hlt
      exact absurd hlt (Nat.not_lt_zero _)

variable [DecidableEq τ]

/-- As long as every thread queues its packet before those that were secured later are
    queued, packets wait and go out in the order of their ids. -/
theorem queue_in_order {platform : Platform} {role : Role}
    {handle : Nat → MosqState → Incoming → List HandlerAct × Except MosqError Unit}
    {start s : Threads τ} {events : List (ThreadEvent τ)} (idle : start.Idle)
    (run : Run (fun s event s' => InTurn s event ∧
      ThreadStep (platform.setup role handle) s event s') start events s) :
    QueueInOrder platform.cbor role s.mosq := by
  have hstart : ThreadsInOrder platform.cbor start := by
    have hkeys : start.mosq.outLine.keys = [] := by
      rw [idle.line]
      rfl
    refine ⟨?_, ?_, ?_, ?_, ?_, ?_, ?_⟩
    · simp [hkeys]
    · rw [idle.line]
      exact .empty
    · simp [idle.held]
    · simp [idle.held]
    · simp [idle.held]
    · simp [hkeys]
    · simp [idle.held]
  have h : ThreadsInOrder platform.cbor s :=
    run.invariant hstart fun _ _ _ h hstep => h.step hstep.1 hstep.2
  exact ⟨h.carried, h.ordered, h.notTooOld⟩

/-! ## Two threads -/

/-- A client whose session is established. -/
def connectedClient (send : List Send) : Mosq SmpSession :=
  { freshMosq {
      session := Session.opened.sent.connected .client
      isOpen := true
      opens := 1
      calls := 2 } .connected [] with send := send }

/-- A PUBLISH as its thread gives it to `packet__queue`. -/
def publishPacket : Packet :=
  { zeroPacket with
    command := PUBLISH
    packetLength := 4
    payload := some {
      block := { id := 0, kind := { purpose := .outPayload, allocator := .mosquitto }, size := 4 }
      data := [PUBLISH, 2, 0, 0] } }

/-- The client both threads use. -/
def publishSetup : Setup SmpSession := Platform.sample.setup .client fun _ _ _ => ([], .ok ())

def publishBlock : Block :=
  { id := 0, kind := { purpose := .packet, allocator := .mosquitto }, size := sizeofPacket }

/-- What the thread holds once its packet is secured. -/
def holdPublish (origin : SmpSession) (packet : Packet) : OutPacket SmpSession :=
  { block := publishBlock, packet := packet, origin := origin }

/-- Two threads secure a packet each; the second one queues first. -/
def overtake : Call (Mosq SmpSession) MosqError Unit := do
  let first := holdPublish (← get).session (← packetSecure publishSetup publishPacket)
  let second := holdPublish (← get).session (← packetSecure publishSetup publishPacket)
  packetEnqueue second
  packetEnqueue first
  packetWrite publishSetup

theorem overtake_run {m m' : Mosq SmpSession} (h : overtake m = some (.ok (), m')) :
    ∃ s : Threads Bool, s.mosq = m' ∧ Run (ThreadStep publishSetup)
      { mosq := m, held := fun _ => none }
      [.secure false publishBlock publishPacket, .secure true publishBlock publishPacket,
        .enqueue true, .enqueue false, .write] s := by
  unfold overtake at h
  rw [bind_of_ok get_apply] at h
  obtain ⟨first, m₁, h₁, h⟩ := bind_ok.mp h
  rw [bind_of_ok get_apply] at h
  obtain ⟨second, m₂, h₂, h⟩ := bind_ok.mp h
  obtain ⟨_, m₃, h₃, h⟩ := bind_ok.mp h
  obtain ⟨_, m₄, h₄, h⟩ := bind_ok.mp h
  have run : Run (ThreadStep publishSetup) { mosq := m, held := fun _ : Bool => none }
    [.secure false publishBlock publishPacket] _ := .single (.secured rfl h₁)
  have run := run.snoc (l := .secure true publishBlock publishPacket) (.secured rfl h₂)
  have run := run.snoc (l := .enqueue true) (.enqueued rfl h₃)
  have run := run.snoc (l := .enqueue false) (.enqueued rfl h₄)
  have run := run.snoc (.written h)
  exact ⟨_, rfl, run⟩

theorem connectedClient_idle {τ : Type} (send : List Send) :
    Threads.Idle { mosq := connectedClient send, held := fun _ : τ => none } := ⟨rfl, fun _ => rfl⟩

/-- The id of the second packet is on the wire first. -/
theorem queue_overtaken : ∃ s : Threads Bool, Run (ThreadStep publishSetup)
    { mosq := connectedClient [.wrote 99, .wrote 99], held := fun _ => none }
    [.secure false publishBlock publishPacket, .secure true publishBlock publishPacket,
      .enqueue true, .enqueue false, .write] s ∧
    s.mosq.wire.map (fun w => w.packet.messageId) = [2, 1] ∧
    ¬ QueueInOrder Platform.sample.cbor .client s.mosq := by
  have hrun : (overtake (connectedClient [.wrote 99, .wrote 99])).map (fun r =>
      (r.1.isOk, r.2.wire.map fun w => w.packet.messageId)) = some (true, [2, 1]) := by
    decide +kernel
  obtain ⟨⟨e | ⟨⟩, m⟩, hovertake, heq⟩ := Option.map_eq_some_iff.mp hrun
  · cases heq
  obtain ⟨s, rfl, run⟩ := overtake_run hovertake
  have hwire : s.mosq.wire.map (fun w => w.packet.messageId) = [2, 1] := (Prod.mk.inj heq).2
  refine ⟨s, run, hwire, fun h => ?_⟩
  -- the pieces stand in the order of their ids
  have hids : (s.mosq.wire.map fun w => w.packet.messageId).Pairwise (· ≤ ·) := by
    have hlog := h.ordered.log
    rw [Mosq.outLine, List.pairwise_map] at hlog
    refine List.pairwise_map.mpr (hlog.imp fun {a b} hab => ?_)
    rcases hab with hlt | ⟨heq, -⟩
    · exact UInt32.le_of_lt hlt
    · exact UInt32.le_of_eq (congrArg SecuredPacket.messageId heq)
  rw [hwire] at hids
  revert hids
  decide

/-- One thread that publishes. -/
theorem queue_in_order_publish : ∃ s : Threads Bool,
    s.mosq.wire.map (fun w => w.packet.messageId) = [1] ∧
      QueueInOrder Platform.sample.cbor .client s.mosq := by
  have hrun : ((do
      let out := holdPublish (← get).session (← packetSecure publishSetup publishPacket)
      packetEnqueue out
      packetWrite publishSetup : Call (Mosq SmpSession) MosqError Unit)
        (connectedClient [.wrote 99])).map (fun r =>
      (r.1.isOk, r.2.wire.map fun w => w.packet.messageId)) = some (true, [1]) := by
    decide +kernel
  obtain ⟨⟨e | ⟨⟩, m⟩, h, heq⟩ := Option.map_eq_some_iff.mp hrun
  · cases heq
  rw [bind_of_ok get_apply] at h
  obtain ⟨packet, m₁, h₁, h⟩ := bind_ok.mp h
  obtain ⟨_, m₂, h₂, h⟩ := bind_ok.mp h
  have run : Run (fun s event s' => InTurn s event ∧ ThreadStep publishSetup s event s')
      { mosq := connectedClient [.wrote 99], held := fun _ : Bool => none }
      [.secure false publishBlock publishPacket] _ := .single ⟨fun h => absurd h (by decide),
        .secured rfl h₁⟩
  have run := run.snoc (l := .enqueue false) ⟨?_, .enqueued rfl h₂⟩
  · have run := run.snoc (l := ThreadEvent.write) ⟨trivial, .written h⟩
    exact ⟨_, (Prod.mk.inj heq).2, queue_in_order (connectedClient_idle _) run⟩
  · intro other out out' hout hout'
    rcases held_update hout' with ⟨rfl, -⟩ | ⟨-, hnone⟩
    · obtain rfl := Option.some.inj (hout.symm.trans hout')
      exact UInt32.le_refl _
    · cases hnone

end WeeveMQ
