/-
  WeeveMQ.PacketFrames

  What the sending half of the packet code leaves alone.

  Allocating, queueing and writing packets touches the queue, the heap and the
  socket, and the session through `wclSmpGetMessage` only.  Handling a packet
  may also move the state of the client, and taking a packet apart works on the
  packet only.  Each is one relation, kept by every function, so that the
  modules about the receiving half never look inside.
-/

import WeeveMQ.PacketMosq

namespace WeeveMQ

open Call

variable {σ : Type} {env : Setup σ} {α : Type}

/-! ## Allocation -/

/-- `malloc` fails, or makes a new block. -/
theorem malloc_cases (env : Setup σ) (kind : BlockKind) (size : Nat) (m : Mosq σ) :
    malloc env kind size m = some (.ok none, { m with mallocs := m.mallocs + 1 }) ∨
    ∃ b : Block, b.id = m.heap.length ∧ b.kind = kind ∧ size ≤ b.size ∧
      m.heap.liveSize (fun _ => true) + b.size < 2 ^ 64 ∧
      malloc env kind size m = some (.ok (some b), { m with
        heap := .alloc b :: m.heap
        mallocs := m.mallocs + 1 }) := by
  unfold malloc
  cases env.malloc m.mallocs size with
  | none => exact .inl rfl
  | some usable =>
    dsimp only
    by_cases hfits : size ≤ usable ∧ m.heap.liveSize (fun _ => true) + usable < 2 ^ 64
    · rw [if_pos hfits]
      exact .inr ⟨{ id := m.heap.length, kind := kind, size := usable }, rfl, rfl, hfits.1, hfits.2,
        rfl⟩
    · rw [if_neg hfits]
      exact .inl rfl

/-- There is a block of this size for the next call of `malloc`. -/
def hasBlock (env : Setup σ) (size : Nat) (mosq : Mosq σ) : Prop :=
  ∃ usable, env.malloc mosq.mallocs size = some usable ∧ size ≤ usable ∧
    mosq.heap.liveSize (fun _ => true) + usable < 2 ^ 64

theorem malloc_granted {kind : BlockKind} {size usable : Nat} {m : Mosq σ}
    (h : env.malloc m.mallocs size = some usable) (hsize : size ≤ usable)
    (hfits : m.heap.liveSize (fun _ => true) + usable < 2 ^ 64) :
    malloc env kind size m = some (
      .ok (some { id := m.heap.length, kind := kind, size := usable }),
      { m with
        heap := .alloc { id := m.heap.length, kind := kind, size := usable } :: m.heap
        mallocs := m.mallocs + 1 }) := by
  unfold malloc
  rw [h]
  dsimp only
  rw [if_pos ⟨hsize, hfits⟩]

theorem malloc_refused (kind : BlockKind) {size : Nat} {m : Mosq σ} (h : ¬ hasBlock env size m) :
    malloc env kind size m = some (.ok none, { m with mallocs := m.mallocs + 1 }) := by
  unfold malloc
  cases hmalloc : env.malloc m.mallocs size with
  | none => rfl
  | some usable =>
    dsimp only
    rw [if_neg]
    intro hfits
    exact h ⟨usable, hmalloc, hfits.1, hfits.2⟩

/-- `mosquitto__malloc` of this size succeeds. -/
def grants (env : Setup σ) (size : Nat) (mosq : Mosq σ) : Prop :=
  ¬ overLimit env mosq size ∧ ∃ usable, env.malloc mosq.mallocs size = some usable ∧
    size ≤ usable ∧ mosq.heap.liveSize (fun _ => true) + usable < 2 ^ 64

/-- Nothing but the allocator, the account and the live blocks decides it. -/
theorem grants_congr {size : Nat} {m m' : Mosq σ} (hcalls : m'.mallocs = m.mallocs)
    (hcount : m'.memcount = m.memcount) (hlive : m'.heap.live = m.heap.live) :
    grants env size m' ↔ grants env size m := by
  unfold grants overLimit HeapLog.liveSize
  rw [hcalls, hcount, hlive]

theorem mosquittoMalloc_granted (purpose : Purpose) {size : Nat} {m : Mosq σ}
    (h : grants env size m) : ∃ b m', mosquittoMalloc env purpose size m =
      some (.ok (some b), m') ∧ m'.inPacket = m.inPacket := by
  obtain ⟨hlimit, usable, husable, hsize, hfits⟩ := h
  unfold mosquittoMalloc
  rw [bind_of_ok get_apply, if_neg hlimit, bind_of_ok (malloc_granted husable hsize hfits)]
  dsimp only
  rw [bind_of_ok modify_apply]
  refine ⟨_, _, rfl, ?_⟩
  split <;> rfl

theorem mosquittoMalloc_refused (purpose : Purpose) {size : Nat} {m : Mosq σ}
    (h : ¬ grants env size m) : ∃ calls, mosquittoMalloc env purpose size m =
      some (.ok none, { m with mallocs := calls }) := by
  unfold mosquittoMalloc
  rw [bind_of_ok get_apply]
  by_cases hlimit : overLimit env m size
  · rw [if_pos hlimit]
    exact ⟨m.mallocs, rfl⟩
  · rw [if_neg hlimit, bind_of_ok (malloc_refused _ fun hblock => h ⟨hlimit, hblock⟩)]
    exact ⟨m.mallocs + 1, rfl⟩

/-- `mosquitto__malloc` refuses, or makes a new block and counts it. -/
theorem mosquittoMalloc_cases (env : Setup σ) (purpose : Purpose) (size : Nat) (m : Mosq σ) :
    (∃ calls, mosquittoMalloc env purpose size m = some (.ok none, { m with mallocs := calls })) ∨
    ∃ b : Block, b.id = m.heap.length ∧ b.kind = { purpose := purpose, allocator := .mosquitto } ∧
      size ≤ b.size ∧ m.heap.liveSize (fun _ => true) + b.size < 2 ^ 64 ∧ ¬ overLimit env m size ∧
      mosquittoMalloc env purpose size m = some (.ok (some b), { m with
        heap := .alloc b :: m.heap
        memcount := if tracking env then (m.memcount + b.size) % 2 ^ 64 else m.memcount
        mallocs := m.mallocs + 1 }) := by
  unfold mosquittoMalloc
  rw [bind_of_ok get_apply]
  by_cases hlimit : overLimit env m size
  · rw [if_pos hlimit]
    exact .inl ⟨m.mallocs, rfl⟩
  · rw [if_neg hlimit]
    rcases malloc_cases env { purpose := purpose, allocator := .mosquitto } size m with
      hm | ⟨b, hid, hkind, hsize, hfits, hm⟩
    · rw [bind_of_ok hm]
      exact .inl ⟨m.mallocs + 1, rfl⟩
    · refine .inr ⟨b, hid, hkind, hsize, hfits, hlimit, ?_⟩
      rw [bind_of_ok hm]
      dsimp only
      rw [bind_of_ok modify_apply, pure_apply]
      cases tracking env <;> rfl

/-- A buffer of the SMP library is a new block. -/
theorem libraryBlock_cases (env : Setup σ) (purpose : Purpose) (size : Nat) (m : Mosq σ) :
    ∃ b : Block, b.id = m.heap.length ∧ b.kind = { purpose := purpose, allocator := .wos } ∧
      libraryBlock env purpose size m = some (.ok b, { m with
        heap := .alloc b :: m.heap
        mallocs := m.mallocs + 1 }) :=
  ⟨_, rfl, rfl, rfl⟩

/-- The client once a block is released. -/
def Mosq.freed (env : Setup σ) (mem : Option Block) (mosq : Mosq σ) : Mosq σ :=
  match mem with
  | none => mosq
  | some b => { mosq with
    memcount :=
      if tracking env then (mosq.memcount + (2 ^ 64 - b.size % 2 ^ 64)) % 2 ^ 64 else mosq.memcount
    heap := .free b :: mosq.heap }

theorem mosquittoFree_apply (mem : Option Block) (m : Mosq σ) :
    mosquittoFree env mem m = some (.ok (), m.freed env mem) := by
  cases mem with
  | none => rfl
  | some b =>
    rw [mosquittoFree, bind_of_ok modify_apply, free, modify_apply, Mosq.freed]
    cases tracking env <;> rfl

theorem packetCleanup_apply (packet : Packet) (m : Mosq σ) :
    packetCleanup env packet m = some (.ok packet.cleaned,
      (m.freed env (packet.mqttPacket.map Buffer.block)).freed env
        (packet.payload.map Buffer.block)) := by
  unfold packetCleanup
  rw [bind_of_ok (mosquittoFree_apply _ m), bind_of_ok (mosquittoFree_apply _ _), pure_apply]

theorem cleanupInPacket_apply (m : Mosq σ) :
    cleanupInPacket env m = some (.ok (), { (m.freed env
        (m.inPacket.mqttPacket.map Buffer.block)).freed env (m.inPacket.payload.map Buffer.block)
      with inPacket := m.inPacket.cleaned }) := by
  unfold cleanupInPacket
  rw [bind_of_ok get_apply, bind_of_ok (packetCleanup_apply _ m)]
  rfl

/-! ## Calls of the allocators -/

/-- Only the heap and its account have changed. -/
def HeapOnly (mosq mosq' : Mosq σ) : Prop :=
  ∃ heap memcount mallocs, mosq' = { mosq with
    heap := heap
    memcount := memcount
    mallocs := mallocs }

namespace HeapOnly

instance : Std.Refl (HeapOnly : Mosq σ → Mosq σ → Prop) where
  refl m := ⟨m.heap, m.memcount, m.mallocs, rfl⟩

instance : IsTrans (Mosq σ) HeapOnly where
  trans _ _ _ h h' := by
    obtain ⟨_, _, _, rfl⟩ := h
    obtain ⟨heap, count, calls, rfl⟩ := h'
    exact ⟨heap, count, calls, rfl⟩

section Fields

variable {m m' : Mosq σ} (h : HeapOnly m m')

include h

theorem sock : m'.sock = m.sock := by
  obtain ⟨_, _, _, rfl⟩ := h
  rfl

theorem state : m'.state = m.state := by
  obtain ⟨_, _, _, rfl⟩ := h
  rfl

theorem bridge : m'.bridge = m.bridge := by
  obtain ⟨_, _, _, rfl⟩ := h
  rfl

theorem session : m'.session = m.session := by
  obtain ⟨_, _, _, rfl⟩ := h
  rfl

theorem inPacket : m'.inPacket = m.inPacket := by
  obtain ⟨_, _, _, rfl⟩ := h
  rfl

theorem handed : m'.handed = m.handed := by
  obtain ⟨_, _, _, rfl⟩ := h
  rfl

theorem handled : m'.handled = m.handled := by
  obtain ⟨_, _, _, rfl⟩ := h
  rfl

end Fields

theorem touch {p : Option Buffer} :
    Relates HeapOnly (touch p : Call (Mosq σ) MosqError Unit) := by
  apply relates_modify
  intro m
  cases p
  · exact ⟨_, _, _, rfl⟩
  · exact ⟨_, _, _, rfl⟩

theorem libraryBlock {purpose : Purpose} {size : Nat} :
    Relates HeapOnly (libraryBlock env purpose size) := by
  intro m r m' h
  obtain ⟨b, -, -, hb⟩ := libraryBlock_cases env purpose size m
  rw [hb] at h
  cases h
  exact ⟨_, _, _, rfl⟩

theorem freed (mem : Option Block) (m : Mosq σ) : HeapOnly m (m.freed env mem) := by
  cases mem <;> exact ⟨_, _, _, rfl⟩

theorem mosquittoFree {mem : Option Block} : Relates HeapOnly (mosquittoFree env mem) := by
  intro m r m' h
  rw [mosquittoFree_apply] at h
  cases h
  exact freed mem m

theorem mosquittoMalloc {purpose : Purpose} {size : Nat} :
    Relates HeapOnly (mosquittoMalloc env purpose size) := by
  intro m r m' h
  rcases mosquittoMalloc_cases env purpose size m with ⟨calls, hm⟩ | ⟨b, -, -, -, -, -, hm⟩
  · rw [hm] at h
    cases h
    exact ⟨_, _, _, rfl⟩
  · rw [hm] at h
    cases h
    exact ⟨_, _, _, rfl⟩

end HeapOnly

/-! ## Sending -/

/-- One message taken from the session, whatever came of it. -/
def GetsMessage (env : Setup σ) (session session' : σ) : Prop :=
  ∃ messageType packet r, env.wclSmpGetMessage messageType packet session = some (r, session')

/-- The receiving half, the state and everything observed on the way in are
    untouched; the session has only given out messages. -/
structure SendSide (env : Setup σ) (mosq mosq' : Mosq σ) : Prop where
  inPacket : mosq'.inPacket = mosq.inPacket
  recv : mosq'.recv = mosq.recv
  handed : mosq'.handed = mosq.handed
  handled : mosq'.handled = mosq.handled
  state : mosq'.state = mosq.state
  bridge : mosq'.bridge = mosq.bridge
  sock : mosq'.sock = true → mosq.sock = true
  session : Relation.ReflTransGen (GetsMessage env) mosq.session mosq'.session

namespace SendSide

instance : Std.Refl (SendSide env) where
  refl _ := ⟨rfl, rfl, rfl, rfl, rfl, rfl, id, .refl⟩

instance : IsTrans (Mosq σ) (SendSide env) where
  trans _ _ _ h h' := ⟨h'.inPacket.trans h.inPacket, h'.recv.trans h.recv,
    h'.handed.trans h.handed, h'.handled.trans h.handled, h'.state.trans h.state,
    h'.bridge.trans h.bridge, h.sock ∘ h'.sock, h.session.trans h'.session⟩

/-- An update of the other fields. -/
theorem update {f : Mosq σ → Mosq σ}
    (h : ∀ m, (f m).inPacket = m.inPacket ∧ (f m).recv = m.recv ∧ (f m).handed = m.handed ∧
      (f m).handled = m.handled ∧ (f m).state = m.state ∧ (f m).bridge = m.bridge ∧
      (f m).sock = m.sock ∧ (f m).session = m.session) :
    Relates (SendSide env) (modify f : Call (Mosq σ) MosqError Unit) := by
  apply relates_modify
  intro m
  obtain ⟨h1, h2, h3, h4, h5, h6, h7, h8⟩ := h m
  exact ⟨h1, h2, h3, h4, h5, h6, fun h => h7 ▸ h, h8 ▸ .refl⟩

/-! ## Allocation and socket -/

theorem malloc {kind : BlockKind} {size : Nat} :
    Relates (SendSide env) (malloc env kind size) := by
  intro m r m' h
  unfold WeeveMQ.malloc at h
  split at h
  · cases h
    exact ⟨rfl, rfl, rfl, rfl, rfl, rfl, id, .refl⟩
  · split at h
    · cases h
      exact ⟨rfl, rfl, rfl, rfl, rfl, rfl, id, .refl⟩
    · cases h
      exact ⟨rfl, rfl, rfl, rfl, rfl, rfl, id, .refl⟩

theorem libraryBlock {purpose : Purpose} {size : Nat} :
    Relates (SendSide env) (libraryBlock env purpose size) := by
  intro m r m' h
  unfold WeeveMQ.libraryBlock at h
  cases h
  exact ⟨rfl, rfl, rfl, rfl, rfl, rfl, id, .refl⟩

theorem freed (mem : Option Block) (m : Mosq σ) : SendSide env m (m.freed env mem) := by
  cases mem <;> exact ⟨rfl, rfl, rfl, rfl, rfl, rfl, id, .refl⟩

theorem free {b : Block} : Relates (SendSide env) (free b : Call (Mosq σ) MosqError Unit) :=
  update fun _ => ⟨rfl, rfl, rfl, rfl, rfl, rfl, rfl, rfl⟩

theorem touch {p : Option Buffer} :
    Relates (SendSide env) (touch p : Call (Mosq σ) MosqError Unit) := by
  apply update
  intro m
  cases p <;> exact ⟨rfl, rfl, rfl, rfl, rfl, rfl, rfl, rfl⟩

theorem mosquittoMalloc {purpose : Purpose} {size : Nat} :
    Relates (SendSide env) (mosquittoMalloc env purpose size) := by
  unfold WeeveMQ.mosquittoMalloc
  refine Relates.bind relates_get fun m => ?_
  refine Relates.ite relates_pure ?_
  refine Relates.bind malloc fun mem => ?_
  cases mem with
  | none => exact relates_pure
  | some b =>
    refine Relates.bind (update fun m => ?_) fun _ => relates_pure
    split <;> exact ⟨rfl, rfl, rfl, rfl, rfl, rfl, rfl, rfl⟩

theorem mosquittoFree {mem : Option Block} : Relates (SendSide env) (mosquittoFree env mem) := by
  intro m r m' h
  rw [mosquittoFree_apply] at h
  cases h
  exact freed mem m

theorem netWrite {bytes : Bytes} : Relates (SendSide env) (netWrite bytes) := by
  intro m r m' h
  unfold WeeveMQ.netWrite at h
  split at h <;> cases h <;> exact ⟨rfl, rfl, rfl, rfl, rfl, rfl, id, .refl⟩

theorem netSocketClose :
    Relates (SendSide env) (netSocketClose : Call (Mosq σ) MosqError Unit) := by
  apply relates_modify
  intro m
  exact ⟨rfl, rfl, rfl, rfl, rfl, rfl, nofun, .refl⟩

theorem comeBackLater :
    Relates (SendSide env) (comeBackLater : Call (Mosq σ) MosqError Unit) := by
  unfold WeeveMQ.comeBackLater
  refine Relates.bind relates_get fun m => ?_
  split
  · exact relates_pure
  · exact relates_throw
  · exact relates_throw

/-! ## Packets -/

theorem packetAlloc {packet : Packet} : Relates (SendSide env) (packetAlloc env packet) := by
  unfold WeeveMQ.packetAlloc
  dsimp only
  refine Relates.bind relates_failIf fun _ => ?_
  refine Relates.bind mosquittoMalloc fun mem => ?_
  cases mem with
  | none => exact relates_throw
  | some b => exact relates_pure

theorem packetCleanup {packet : Packet} : Relates (SendSide env) (packetCleanup env packet) :=
  mosquittoFree.bind fun _ => mosquittoFree.bind fun _ => relates_pure

theorem getMessage {messageType : Nat} {packet : Bytes} :
    Relates (SendSide env) (onSession (env.wclSmpGetMessage messageType packet)) := by
  refine relates_mapErr (relates_onPart fun m r session h => ?_)
  exact ⟨rfl, rfl, rfl, rfl, rfl, rfl, id, .single ⟨messageType, packet, r, h⟩⟩

theorem mosqWclSmpGetMessage {messageType : Nat} {packet : Bytes} :
    Relates (SendSide env) (mosqWclSmpGetMessage env messageType packet) := by
  unfold WeeveMQ.mosqWclSmpGetMessage
  refine Relates.bind getMessage fun message => ?_
  refine Relates.bind libraryBlock fun temp => ?_
  dsimp only
  refine Relates.bind relates_failIf fun _ => ?_
  refine Relates.bind malloc fun mem => ?_
  cases mem with
  | none => exact relates_throw
  | some b => exact touch.bind fun _ => free.bind fun _ => relates_pure

theorem packetSecure {packet : Packet} : Relates (SendSide env) (packetSecure env packet) :=
  touch.bind fun _ => mosqWclSmpGetMessage.bind fun _ =>
    mosquittoFree.bind fun _ => relates_pure

theorem packetEnqueue {out : OutPacket σ} :
    Relates (SendSide env) (packetEnqueue out) :=
  update fun _ => ⟨rfl, rfl, rfl, rfl, rfl, rfl, rfl, rfl⟩

theorem writeCurrent {fuel : Nat} :
    Relates (SendSide env) (writeCurrent fuel : Call (Mosq σ) MosqError Bool) := by
  induction fuel with
  | zero => exact relates_pure
  | succ fuel ih =>
    unfold WeeveMQ.writeCurrent
    refine Relates.bind relates_get fun m => ?_
    split
    · exact relates_pure
    · refine Relates.ite relates_pure ?_
      refine Relates.bind touch fun _ => ?_
      refine Relates.bind netWrite fun n => ?_
      split
      · dsimp only
        exact Relates.bind (update fun _ => ⟨rfl, rfl, rfl, rfl, rfl, rfl, rfl, rfl⟩) fun _ => ih
      · exact comeBackLater.bind fun _ => relates_pure

theorem next : Relates (SendSide env) (modify nextOutPacket : Call (Mosq σ) MosqError Unit) :=
  update fun _ => ⟨rfl, rfl, rfl, rfl, rfl, rfl, rfl, rfl⟩

theorem writePackets {fuel : Nat} : Relates (SendSide env) (writePackets env fuel) := by
  induction fuel with
  | zero => exact relates_pure
  | succ fuel ih =>
    unfold WeeveMQ.writePackets
    refine Relates.bind relates_get fun m => ?_
    split
    · exact relates_pure
    · refine Relates.bind writeCurrent fun done => ?_
      split
      · refine Relates.bind (Relates.onlyIf netSocketClose) fun _ => ?_
        exact next.bind fun _ => packetCleanup.bind fun _ => mosquittoFree.bind fun _ =>
          Relates.ite relates_pure ih
      · exact relates_pure

theorem packetWrite : Relates (SendSide env) (packetWrite env) := by
  unfold WeeveMQ.packetWrite
  refine Relates.bind relates_get fun m => ?_
  refine Relates.bind relates_failIf fun _ => ?_
  refine Relates.bind (update fun m => ?_) fun _ => ?_
  · split <;> exact ⟨rfl, rfl, rfl, rfl, rfl, rfl, rfl, rfl⟩
  · refine Relates.bind relates_get fun m => ?_
    exact Relates.ite relates_pure writePackets

theorem packetQueue {block : Block} {packet : Packet} :
    Relates (SendSide env) (packetQueue env block packet) := by
  unfold WeeveMQ.packetQueue
  refine Relates.bind relates_get fun m => ?_
  refine Relates.bind packetSecure fun packet => ?_
  refine Relates.bind packetEnqueue fun _ => ?_
  refine Relates.bind relates_get fun m => ?_
  exact Relates.ite relates_pure packetWrite

theorem sendPacket {command : UInt8} {mid : UInt16} {body : Bytes} :
    Relates (SendSide env) (sendPacket env command mid body) := by
  unfold WeeveMQ.sendPacket
  refine Relates.bind mosquittoMalloc fun mem => ?_
  cases mem with
  | none => exact relates_throw
  | some b =>
    refine Relates.bind (relates_onErr packetAlloc mosquittoFree) fun packet => ?_
    exact touch.bind fun _ => packetQueue

end SendSide

/-! ## Handling -/

/-- A client that is disconnected has no socket. -/
def Closed (mosq : Mosq σ) : Prop := mosq.state = .disconnected → mosq.sock = false

theorem SendSide.closed {m m' : Mosq σ} (h : SendSide env m m') (hclosed : Closed m) :
    Closed m' := by
  intro hstate
  have hsock := hclosed (h.state ▸ hstate)
  by_contra hopen
  rw [h.sock (by simpa using hopen)] at hsock
  cases hsock

theorem doDisconnect_sock {m : Mosq σ} (h : Closed m) : (doDisconnect m).sock = false := by
  unfold doDisconnect
  split
  · next hstate => exact h hstate
  · rfl

theorem doDisconnect_state (m : Mosq σ) : (doDisconnect m).state = .disconnected := by
  unfold doDisconnect
  split
  · assumption
  · rfl

/-- Handling a packet leaves the receiving half alone. -/
structure HandlerSide (env : Setup σ) (mosq mosq' : Mosq σ) : Prop where
  inPacket : mosq'.inPacket = mosq.inPacket
  recv : mosq'.recv = mosq.recv
  handed : mosq'.handed = mosq.handed
  handled : mosq'.handled = mosq.handled
  bridge : mosq'.bridge = mosq.bridge
  sock : mosq'.sock = true → mosq.sock = true
  closed : Closed mosq → Closed mosq'
  session : Relation.ReflTransGen (GetsMessage env) mosq.session mosq'.session

namespace HandlerSide

instance : Std.Refl (HandlerSide env) where
  refl _ := ⟨rfl, rfl, rfl, rfl, rfl, id, id, .refl⟩

instance : IsTrans (Mosq σ) (HandlerSide env) where
  trans _ _ _ h h' := ⟨h'.inPacket.trans h.inPacket, h'.recv.trans h.recv,
    h'.handed.trans h.handed, h'.handled.trans h.handled, h'.bridge.trans h.bridge,
    h.sock ∘ h'.sock, h'.closed ∘ h.closed, h.session.trans h'.session⟩

theorem ofSendSide {m m' : Mosq σ} (h : SendSide env m m') : HandlerSide env m m' :=
  ⟨h.inPacket, h.recv, h.handed, h.handled, h.bridge, h.sock, h.closed, h.session⟩

theorem runAct {act : HandlerAct} : Relates (HandlerSide env) (runAct env act) := by
  cases act with
  | send command mid body =>
    exact relates_ignoreErr (SendSide.sendPacket.mono fun _ _ => ofSendSide)
  | setState state =>
    apply relates_modify
    intro m
    refine ⟨rfl, rfl, rfl, rfl, rfl, id, fun _ hdisconnected => ?_, .refl⟩
    cases state <;> cases hdisconnected
  | inCallback running =>
    apply relates_modify
    intro m
    exact ⟨rfl, rfl, rfl, rfl, rfl, id, id, .refl⟩
  | socketClose => exact SendSide.netSocketClose.mono fun _ _ => ofSendSide
  | disconnect =>
    apply relates_modify
    intro m
    unfold doDisconnect
    split
    · exact Std.Refl.refl m
    · exact ⟨rfl, rfl, rfl, rfl, rfl, nofun, fun _ _ => rfl, .refl⟩

theorem runActs {acts : List HandlerAct} : Relates (HandlerSide env) (runActs env acts) := by
  induction acts with
  | nil => exact relates_pure
  | cons act acts ih => exact runAct.bind fun _ => ih

end HandlerSide

theorem neverFails_runAct (act : HandlerAct) : NeverFails (runAct env act) := by
  cases act with
  | send command mid body => exact neverFails_ignoreErr
  | setState state => exact neverFails_modify
  | inCallback running => exact neverFails_modify
  | socketClose => exact neverFails_modify
  | disconnect => exact neverFails_modify

theorem neverFails_runActs (acts : List HandlerAct) : NeverFails (runActs env acts) := by
  induction acts with
  | nil => exact neverFails_pure
  | cons act acts ih => exact (neverFails_runAct act).bind fun _ => ih

/-- The state these steps leave a client in. -/
def actsState : List HandlerAct → MosqState → MosqState
  | [], state => state
  | .setState s :: acts, _ => actsState acts s.state
  | .disconnect :: acts, _ => actsState acts .disconnected
  | _ :: acts, state => actsState acts state

theorem runActs_state {acts : List HandlerAct} {m m' : Mosq σ} {u : Unit}
    (h : runActs env acts m = some (.ok u, m')) : m'.state = actsState acts m.state := by
  induction acts generalizing m with
  | nil =>
    cases h
    rfl
  | cons act acts ih =>
    obtain ⟨_, m₁, h₁, h₂⟩ := bind_ok.mp h
    cases act with
    | send command mid body =>
      obtain ⟨r, hr⟩ := ignoreErr_ok.mp h₁
      rw [ih h₂, (SendSide.sendPacket _ _ _ hr).state]
      rfl
    | setState state =>
      cases h₁
      rw [ih h₂]
      rfl
    | inCallback running =>
      cases h₁
      rw [ih h₂]
      rfl
    | socketClose =>
      cases h₁
      rw [ih h₂]
      rfl
    | disconnect =>
      cases h₁
      rw [ih h₂, actsState]
      unfold doDisconnect
      split
      · next hstate => rw [hstate]
      · rfl

/-- Handling a packet only moves a client forward. -/
theorem actsState_cases (acts : List HandlerAct) (state : MosqState) :
    actsState acts state = state ∨
      actsState acts state ∈ [MosqState.connected, .disconnecting, .disconnected] := by
  induction acts generalizing state with
  | nil => exact .inl rfl
  | cons act acts ih =>
    cases act with
    | send command mid body => exact ih state
    | setState s =>
      rcases ih s.state with h | h
      · rw [actsState, h]
        cases s <;> simp [HandledState.state]
      · exact .inr h
    | inCallback running => exact ih state
    | socketClose => exact ih state
    | disconnect =>
      rcases ih .disconnected with h | h
      · rw [actsState, h]
        simp
      · exact .inr h

theorem actsState_ne {acts : List HandlerAct} {state other : MosqState} (h : state ≠ other)
    (hother : other ∉ [MosqState.connected, .disconnecting, .disconnected]) :
    actsState acts state ≠ other := by
  rcases actsState_cases acts state with hs | hs
  · rw [hs]
    exact h
  · intro heq
    exact hother (heq ▸ hs)

/-- What `handle__packet` and the cleanup behind it do. -/
structure Handles (env : Setup σ) (m : Mosq σ) (r : Except MosqError Unit) (m' : Mosq σ) :
    Prop where
  result : r = (env.handlePacket m.handled.length m.state m.inPacket.incoming).2
  state : m'.state =
    actsState (env.handlePacket m.handled.length m.state m.inPacket.incoming).1 m.state
  inPacket : m'.inPacket = m.inPacket.cleaned
  recv : m'.recv = m.recv
  handed : m'.handed = m.handed
  handled : m'.handled = m.handled ++ [(m.handed.getLastD [], m.inPacket.incoming)]
  bridge : m'.bridge = m.bridge
  sock : m'.sock = true → m.sock = true
  closed : Closed m → Closed m'
  session : Relation.ReflTransGen (GetsMessage env) m.session m'.session

theorem handlePacket_handles {m m' : Mosq σ} {r : Except MosqError Unit}
    (h : handlePacket env m = some (r, m')) : Handles env m r m' := by
  unfold handlePacket at h
  rw [bind_of_ok get_apply] at h
  rcases bind_some.mp h with ⟨e, h, -⟩ | ⟨_, m₁, h₁, h⟩
  · exact absurd h (neverFails_modify _ _ _)
  obtain ⟨heap, count, calls, rfl⟩ := HeapOnly.touch _ _ _ h₁
  rw [bind_of_ok modify_apply] at h
  rcases bind_some.mp h with ⟨e, h, -⟩ | ⟨_, m₂, h₂, h⟩
  · exact absurd h (neverFails_runActs _ _ _ _)
  have hm₂ := HandlerSide.runActs _ _ _ h₂
  have hstate := runActs_state h₂
  rw [bind_of_ok (cleanupInPacket_apply m₂), ofExcept_apply] at h
  have hm₃ := trans_of (SendSide env) (SendSide.freed
    (m₂.inPacket.mqttPacket.map Buffer.block) m₂)
    (SendSide.freed (m₂.inPacket.payload.map Buffer.block) _)
  cases h
  refine ⟨rfl, hm₃.state.trans hstate, ?_, hm₃.recv.trans hm₂.recv, hm₃.handed.trans hm₂.handed,
    hm₃.handled.trans hm₂.handled, hm₃.bridge.trans hm₂.bridge, hm₂.sock ∘ hm₃.sock,
    hm₃.closed ∘ hm₂.closed, hm₂.session.trans hm₃.session⟩
  show m₂.inPacket.cleaned = m.inPacket.cleaned
  rw [hm₂.inPacket]

/-! ## Taking a packet apart -/

/-- Only the length and the payload of the packet have changed, the heap and its
    account. -/
def TakesApart (mosq mosq' : Mosq σ) : Prop :=
  ∃ lf pf heap memcount mallocs, mosq' = { mosq with
    inPacket := mqttPayload.set pf (mqttLength.set lf mosq.inPacket)
    heap := heap
    memcount := memcount
    mallocs := mallocs }

namespace TakesApart

instance : Std.Refl (TakesApart : Mosq σ → Mosq σ → Prop) where
  refl m := ⟨mqttLength.get m.inPacket, mqttPayload.get m.inPacket, m.heap, m.memcount, m.mallocs,
    rfl⟩

instance : IsTrans (Mosq σ) TakesApart where
  trans _ _ _ h h' := by
    obtain ⟨_, _, _, _, _, rfl⟩ := h
    obtain ⟨lf, pf, heap, count, calls, rfl⟩ := h'
    exact ⟨lf, pf, heap, count, calls, rfl⟩

theorem ofHeapOnly {m m' : Mosq σ} (h : HeapOnly m m') : TakesApart m m' := by
  obtain ⟨heap, count, calls, rfl⟩ := h
  exact ⟨mqttLength.get m.inPacket, mqttPayload.get m.inPacket, heap, count, calls, rfl⟩

theorem modifyLength {f : LengthFields → LengthFields} :
    Relates TakesApart (modifyPart mqttLength f : Call (Mosq σ) MosqError Unit) :=
  relates_modify fun m => ⟨f (mqttLength.get m.inPacket), mqttPayload.get m.inPacket, m.heap,
    m.memcount, m.mallocs, rfl⟩

theorem takeLengthByte {byte : UInt8} :
    Relates TakesApart (takeLengthByte mqttLength byte : Call (Mosq σ) MosqError Unit) :=
  modifyLength.bind fun _ => relates_get.bind fun _ => relates_failIf.bind fun _ => modifyLength

theorem packetByte {packet : Bytes} {index : Nat} :
    Relates TakesApart (packetByte env packet index) := by
  unfold WeeveMQ.packetByte
  split
  · exact relates_pure
  · split
    · exact relates_pure
    · exact relates_fault

theorem packetBytes {packet : Bytes} {index count : Nat} :
    Relates TakesApart (packetBytes env packet index count) := by
  induction count generalizing index with
  | zero => exact relates_pure
  | succ count ih => exact packetByte.bind fun _ => ih.bind fun _ => relates_pure

theorem decodeRemainingLength {packet : Bytes} {fuel offset : Nat} :
    Relates TakesApart (decodeRemainingLength env packet fuel offset) := by
  induction fuel generalizing offset with
  | zero => exact relates_throw
  | succ fuel ih =>
    exact packetByte.bind fun _ => takeLengthByte.bind fun _ => ih.ite relates_pure

theorem decodeLength {packet : Bytes} {offset : Nat} :
    Relates TakesApart (decodeLength env packet offset) := by
  refine Relates.bind relates_get fun m => Relates.ite ?_ relates_pure
  exact decodeRemainingLength.bind fun _ => modifyLength.bind fun _ => relates_pure

theorem decodePayload {packet : Bytes} {offset : Nat} :
    Relates TakesApart (decodePayload env packet offset) := by
  refine Relates.bind relates_get fun m => Relates.ite ?_ relates_pure
  refine Relates.bind (HeapOnly.mosquittoMalloc.mono fun _ _ => ofHeapOnly) fun mem => ?_
  cases mem with
  | none => exact relates_throw
  | some b =>
    refine packetBytes.bind fun data => relates_modify fun m => ?_
    exact ⟨mqttLength.get m.inPacket,
      { payload := some { block := b, data := data }, toProcess := 0, pos := 0 }, m.heap,
      m.memcount, m.mallocs, rfl⟩

end TakesApart

/-- Only the packet that is being read, the heap and its account have changed. -/
def PacketOnly (mosq mosq' : Mosq σ) : Prop :=
  ∃ packet heap memcount mallocs, mosq' = { mosq with
    inPacket := packet
    heap := heap
    memcount := memcount
    mallocs := mallocs }

namespace PacketOnly

instance : Std.Refl (PacketOnly : Mosq σ → Mosq σ → Prop) where
  refl m := ⟨m.inPacket, m.heap, m.memcount, m.mallocs, rfl⟩

instance : IsTrans (Mosq σ) PacketOnly where
  trans _ _ _ h h' := by
    obtain ⟨_, _, _, _, rfl⟩ := h
    obtain ⟨packet, heap, count, calls, rfl⟩ := h'
    exact ⟨packet, heap, count, calls, rfl⟩

theorem ofTakesApart {m m' : Mosq σ} (h : TakesApart m m') : PacketOnly m m' := by
  obtain ⟨lf, pf, heap, count, calls, rfl⟩ := h
  exact ⟨_, heap, count, calls, rfl⟩

theorem modifyIn {f : Packet → Packet} :
    Relates PacketOnly (modifyIn f : Call (Mosq σ) MosqError Unit) :=
  relates_modify fun m => ⟨f m.inPacket, m.heap, m.memcount, m.mallocs, rfl⟩

theorem touch {p : Option Buffer} :
    Relates PacketOnly (touch p : Call (Mosq σ) MosqError Unit) :=
  HeapOnly.touch.mono fun _ _ h => ofTakesApart (.ofHeapOnly h)

theorem decodeCommand {packet : Bytes} : Relates PacketOnly (decodeCommand env packet) := by
  refine Relates.bind relates_get fun m => Relates.ite ?_ relates_pure
  exact (TakesApart.packetByte.mono fun _ _ => ofTakesApart).bind fun _ => modifyIn.bind fun _ =>
    relates_get.bind fun _ => relates_failIf.bind fun _ => relates_pure

theorem decodeMqttPacket : Relates PacketOnly (decodeMqttPacket env) := by
  refine Relates.bind relates_get fun m => ?_
  refine Relates.bind relates_failIf fun _ => ?_
  refine Relates.bind touch fun _ => Relates.bind decodeCommand fun _ => ?_
  exact (TakesApart.decodeLength.bind fun _ => TakesApart.decodePayload).mono fun _ _ =>
    ofTakesApart

end PacketOnly

/-- What processing a frame leaves alone too; the session may be any. -/
structure InMemory (m m' : Mosq σ) : Prop where
  recv : m'.recv = m.recv
  handed : m'.handed = m.handed
  handled : m'.handled = m.handled
  errno : m'.errno = m.errno
  state : m'.state = m.state
  bridge : m'.bridge = m.bridge
  sock : m'.sock = m.sock

namespace InMemory

instance : Std.Refl (InMemory : Mosq σ → Mosq σ → Prop) where
  refl _ := ⟨rfl, rfl, rfl, rfl, rfl, rfl, rfl⟩

instance : IsTrans (Mosq σ) InMemory where
  trans _ _ _ h h' := ⟨h'.recv.trans h.recv, h'.handed.trans h.handed,
    h'.handled.trans h.handled, h'.errno.trans h.errno, h'.state.trans h.state,
    h'.bridge.trans h.bridge, h'.sock.trans h.sock⟩

theorem ofPacketOnly {m m' : Mosq σ} (h : PacketOnly m m') : InMemory m m' := by
  obtain ⟨_, _, _, _, rfl⟩ := h
  exact ⟨rfl, rfl, rfl, rfl, rfl, rfl, rfl⟩

theorem ofHeapOnly {m m' : Mosq σ} (h : HeapOnly m m') : InMemory m m' :=
  ofPacketOnly (.ofTakesApart (.ofHeapOnly h))

theorem modifyIn {f : Packet → Packet} :
    Relates InMemory (modifyIn f : Call (Mosq σ) MosqError Unit) :=
  PacketOnly.modifyIn.mono fun _ _ => ofPacketOnly

theorem touch {p : Option Buffer} :
    Relates InMemory (touch p : Call (Mosq σ) MosqError Unit) :=
  HeapOnly.touch.mono fun _ _ => ofHeapOnly

theorem libraryBlock {purpose : Purpose} {size : Nat} :
    Relates InMemory (libraryBlock env purpose size) :=
  HeapOnly.libraryBlock.mono fun _ _ => ofHeapOnly

theorem mosquittoFree {mem : Option Block} : Relates InMemory (mosquittoFree env mem) :=
  HeapOnly.mosquittoFree.mono fun _ _ => ofHeapOnly

theorem onSession {α : Type} {x : Call σ WclError α} : Relates InMemory (onSession x) :=
  relates_mapErr (relates_onPart fun _ _ _ _ => ⟨rfl, rfl, rfl, rfl, rfl, rfl, rfl⟩)

theorem decodeMqttPacket : Relates InMemory (decodeMqttPacket env) :=
  PacketOnly.decodeMqttPacket.mono fun _ _ => ofPacketOnly

end InMemory

end WeeveMQ
