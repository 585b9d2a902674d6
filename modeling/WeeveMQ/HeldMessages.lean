/-
  WeeveMQ.HeldMessages

  What the functions of `Database` do for a client that publishes and has no
  subscription: its context holds the QoS 2 messages that it has not released.

  - `Context.Holding`: what such a context looks like between the calls.
  - one lemma for each handler: what is held afterwards, what has been handed to
    `sub__messages_queue`, and what is sent.
-/

import WeeveMQ.Database

namespace WeeveMQ

/-! ## What a step hands on -/

/-- What is published, without its id. -/
structure Content where
  topic : CString
  payload : Bytes
  qos : Nat
  retain : Bool
  deriving DecidableEq

/-- What is handed to the subscribers. -/
def DbEffect.content : DbEffect → Option Content
  | .messagesQueue stored qos retain => stored.topic.map fun topic => {
      topic := topic
      payload := stored.payload
      qos := qos
      retain := retain }
  | _ => none

def DbEffect.sent : DbEffect → Option MqttPacket
  | .packet p => some p
  | _ => none

def DbStep.forwarded (step : DbStep) : List Content := step.effects.filterMap DbEffect.content

def DbStep.packets (step : DbStep) : List MqttPacket := step.effects.filterMap DbEffect.sent

theorem filterMap_content_packets (packets : List MqttPacket) :
    (packets.map DbEffect.packet).filterMap DbEffect.content = [] := by
  rw [List.filterMap_map]
  exact List.filterMap_eq_nil_iff.mpr fun _ _ => rfl

theorem filterMap_sent_packets (packets : List MqttPacket) :
    (packets.map DbEffect.packet).filterMap DbEffect.sent = packets := by
  rw [List.filterMap_map]
  exact List.filterMap_some

section Steps

variable {env : DbEnv} {step : DbStep} {p : MqttPacket}

@[simp]
theorem thenSend_forwarded : (step.thenSend env p).forwarded = step.forwarded := by
  show (step.effects ++ (env.sends.place p).map DbEffect.packet).filterMap DbEffect.content = _
  rw [List.filterMap_append, filterMap_content_packets, List.append_nil]
  rfl

@[simp]
theorem thenSend_packets : (step.thenSend env p).packets = step.packets ++ env.sends.place p := by
  show (step.effects ++ (env.sends.place p).map DbEffect.packet).filterMap DbEffect.sent = _
  rw [List.filterMap_append, filterMap_sent_packets]
  rfl

end Steps

/-! ## The context of a publisher -/

/-- Everything in the context came in with QoS 2 and is held until its PUBREL. -/
structure Context.Holding (context : Context) : Prop where
  queued : context.queued = []
  incoming : ∀ h ∈ context.inflight, h.direction = .mdIn ∧ h.qos = 2 ∧ h.store.sourceMid = h.mid
  mids : (context.inflight.map (·.mid)).Nodup
  count : context.msgCount12 = context.inflight.length

/-- The ids of the messages that are held. -/
def Context.held (context : Context) : List UInt16 := context.inflight.map (·.mid)

/-- What will be handed on of a message when it is released. -/
def ClientMsg.content (h : ClientMsg) : Option Content :=
  (DbEffect.messagesQueue h.store h.store.qos h.retain).content

/-- The broker lets the client publish this. -/
structure DbEnv.Takes (env : DbEnv) (p : PublishPacket) : Prop where
  acl : env.aclWrite p = .allowed
  size : env.config.messageSizeLimit = 0 ∨ p.payload.length ≤ env.config.messageSizeLimit

/-- The broker takes what this packet publishes, holds that many messages at a time, of
    whatever size, and sends none of them back. -/
structure DbEnv.Admits (env : DbEnv) (limit : Nat) (packet : MqttPacket) : Prop where
  takes : ∀ p, packet = .publish p → env.Takes p
  routes : ∀ stored, env.routes stored = []
  bytes : env.config.maxInflightBytes = 0
  inflight : env.config.maxInflight = 0 ∨ 0 < limit ∧ (limit : Int) ≤ env.config.maxInflight

section Publish

variable {env : DbEnv} {limit : Nat} {context : Context} {dbId : Nat} {p : PublishPacket}
  {mid : UInt16}

/-- A message is known when it is held. -/
theorem dbMessageStoreFind_none (h : context.Holding) :
    dbMessageStoreFind context mid = none ↔ mid ∉ context.held := by
  rw [dbMessageStoreFind, h.queued, List.append_nil, Option.map_eq_none_iff, List.find?_eq_none]
  constructor
  · intro hnone hmem
    obtain ⟨m, hm, hmid⟩ := List.mem_map.mp hmem
    obtain ⟨hdir, -, hsource⟩ := h.incoming m hm
    apply hnone m hm
    simp [hdir, hsource, hmid]
  · intro hmem m hm hfound
    obtain ⟨hsource, -⟩ := by simpa using hfound
    exact hmem (List.mem_map.mpr ⟨m, hm, ((h.incoming m hm).2.2).symm.trans hsource⟩)

theorem dbMessagesQueue_none {config : DbConfig} {routes : MsgStore → List (Nat × Bool)}
    {stored : MsgStore} {qos : Nat} {retain : Bool} (h : routes stored = []) :
    dbMessagesQueue config routes stored qos retain context =
      (context, [.messagesQueue stored qos retain, .ref stored.dbId, .deref stored.dbId]) := by
  rw [dbMessagesQueue, h]
  rfl

/-- The tests at the start of `handle__publish` are passed. -/
theorem handlePublish_admitted (admits : env.Admits limit (.publish p)) :
    (¬ (p.payload ≠ [] ∧ env.config.messageSizeLimit ≠ 0 ∧
      p.payload.length > env.config.messageSizeLimit)) ∧ env.aclWrite p = .allowed := by
  obtain ⟨hacl, hsize⟩ := admits.takes p rfl
  refine ⟨?_, hacl⟩
  rintro ⟨-, hlimit, hlong⟩
  omega

/-- With QoS 0 and 1 a message is handed on at once. -/
theorem handlePublish_low (admits : env.Admits limit (.publish p)) (h : context.Holding)
    (hqos : p.qos = 0 ∨ p.qos = 1) (hnew : p.qos = 1 → p.mid ∉ context.held) :
    (handlePublish env context dbId p).context = context ∧
      (handlePublish env context dbId p).forwarded = [⟨p.topic, p.payload, p.qos, p.retain⟩] ∧
      (handlePublish env context dbId p).packets =
        if p.qos = 1 then env.sends.place (.puback p.mid) else [] := by
  have hknown : (if p.qos > 0 then dbMessageStoreFind context p.mid else none) = none := by
    rcases hqos with hqos | hqos
    · rw [if_neg (by omega)]
    · rw [if_pos (by omega), dbMessageStoreFind_none h]
      exact hnew hqos
  have htwo : p.qos ≠ 2 := by omega
  rw [handlePublish, if_neg (handlePublish_admitted admits).1, (handlePublish_admitted admits).2]
  dsimp only
  rw [hknown, if_neg htwo, dbMessagesQueue_none (admits.routes _)]
  dsimp only
  split_ifs with hone
  · refine ⟨rfl, ?_, ?_⟩
    · rw [thenSend_forwarded]
      rfl
    · rw [thenSend_packets]
      rfl
  · exact ⟨rfl, rfl, rfl⟩

/-- A message that is held is not taken again. -/
theorem handlePublish_known (admits : env.Admits limit (.publish p)) (h : context.Holding)
    (hqos : p.qos = 2)
    (hheld : p.mid ∈ context.held) :
    (handlePublish env context dbId p).context = context ∧
      (handlePublish env context dbId p).forwarded = [] ∧
      (handlePublish env context dbId p).packets = env.sends.place (.pubrec p.mid) := by
  have hknown : (if p.qos > 0 then dbMessageStoreFind context p.mid else none).isSome := by
    rw [if_pos (by omega), Option.isSome_iff_ne_none, Ne, dbMessageStoreFind_none h]
    exact fun hnot => hnot hheld
  rw [handlePublish, if_neg (handlePublish_admitted admits).1, (handlePublish_admitted admits).2]
  dsimp only
  rw [if_pos hqos, if_pos hknown]
  refine ⟨rfl, ?_, ?_⟩
  · rw [thenSend_forwarded]
    rfl
  · rw [thenSend_packets]
    rfl

/-- Nothing is handed on or sent for a message that goes to a list. -/
theorem insertInState_quiet {config : DbConfig} {direction : MsgDirection} {qos : Nat} {retain : Bool}
    {stored : MsgStore} {state : MsgState} {rc : Nat} :
    (insertInState config context mid direction qos retain stored state rc).forwarded = [] ∧
      (insertInState config context mid direction qos retain stored state rc).packets = [] := by
  rw [DbStep.forwarded, DbStep.packets, insertInState]
  dsimp only
  split_ifs
  · exact ⟨rfl, rfl⟩
  · exact ⟨rfl, rfl⟩

/-- The message `handle__publish` holds for a new id. -/
def heldMessage (context : Context) (dbId : Nat) (p : PublishPacket) : ClientMsg :=
  newClientMsg (dbMessageStore dbId context.id p (some p.topic) p.payload p.retain) p.mid .mdIn p.qos
    p.retain .waitForPubrel

/-- A new message with QoS 2 is held, if there is place for it. -/
theorem handlePublish_new (admits : env.Admits limit (.publish p)) (h : context.Holding)
    (hsock : context.sock)
    (hqos : p.qos = 2) (hnew : p.mid ∉ context.held)
    (hplace : env.config.maxInflight = 0 ∨ (context.inflight.length : Int) < env.config.maxInflight) :
    (handlePublish env context dbId p).context = ({ context with
        inflight := context.inflight ++ [heldMessage context dbId p] } : Context).count
          (heldMessage context dbId p) ∧
      (handlePublish env context dbId p).forwarded = [] ∧
      (handlePublish env context dbId p).packets = env.sends.place (.pubrec p.mid) := by
  have hknown : (if p.qos > 0 then dbMessageStoreFind context p.mid else none) = none := by
    rw [if_pos (by omega), dbMessageStoreFind_none h]
    exact hnew
  have hready : dbReadyForFlight env.config context p.qos = true := by
    rw [dbReadyForFlight]
    split_ifs with hzero hmax hbytes
    · rfl
    · exact absurd ⟨hmax, admits.bytes⟩ (not_or.mp hzero).2
    · rw [decide_eq_true_iff, h.count]
      omega
    · exact absurd admits.bytes hbytes
  have hinsert : dbMessageInsert env.config context p.mid .mdIn p.qos p.retain
      (dbMessageStore dbId context.id p (some p.topic) p.payload p.retain) =
        insertInState env.config context p.mid .mdIn p.qos p.retain
          (dbMessageStore dbId context.id p (some p.topic) p.payload p.retain) .waitForPubrel 0 := by
    have hin : MsgDirection.mdIn ≠ .mdOut := by decide
    rw [dbMessageInsert, if_neg fun hdup => hin hdup.2.1, if_neg fun hdrop => by omega,
      if_pos hsock, if_pos hready, if_neg hin, if_pos hqos]
  rw [handlePublish, if_neg (handlePublish_admitted admits).1, (handlePublish_admitted admits).2]
  dsimp only
  rw [hknown, if_pos hqos, if_neg (by simp), Option.getD_none, hinsert]
  have hrc : (insertInState env.config context p.mid .mdIn p.qos p.retain
      (dbMessageStore dbId context.id p (some p.topic) p.payload p.retain) .waitForPubrel 0).rc =
        0 := rfl
  rw [if_pos hrc]
  refine ⟨rfl, ?_, ?_⟩
  · rw [thenSend_forwarded, insertInState_quiet.1]
  · rw [thenSend_packets, insertInState_quiet.2, List.nil_append]

theorem Context.Holding.hold (h : context.Holding) (hqos : p.qos = 2) (hnew : p.mid ∉ context.held) :
    (({ context with inflight := context.inflight ++ [heldMessage context dbId p] } :
      Context).count (heldMessage context dbId p)).Holding where
  queued := h.queued
  incoming := by
    intro m hm
    rcases List.mem_append.mp hm with hm | hm
    · exact h.incoming m hm
    · rw [List.mem_singleton.mp hm]
      exact ⟨rfl, hqos, rfl⟩
  mids := by
    show ((context.inflight ++ [heldMessage context dbId p]).map (·.mid)).Nodup
    rw [List.map_append, List.nodup_append]
    refine ⟨h.mids, List.nodup_singleton _, ?_⟩
    intro mid hmid mid' hmid'
    rw [List.map_singleton, List.mem_singleton] at hmid'
    rintro rfl
    subst hmid'
    exact hnew hmid
  count := by
    have hpos : (heldMessage context dbId p).qos > 0 := by
      show p.qos > 0
      omega
    show (if (heldMessage context dbId p).qos > 0 then context.msgCount12 + 1
      else context.msgCount12) = ((context.inflight ++ [_]).length : Int)
    rw [if_pos hpos, h.count, List.length_append]
    rfl

end Publish

/-! ## Releasing -/

section Release

variable {env : DbEnv} {limit : Nat} {context : Context} {mid : UInt16}

/-- What releasing one message does. -/
def releaseEffects (m : ClientMsg) : List DbEffect :=
  (if m.store.topic.isSome then
    [.messagesQueue m.store m.store.qos m.retain, .ref m.store.dbId, .deref m.store.dbId]
  else []) ++ [.deref m.store.dbId]

/-- The loop, behind the messages of `front` that it leaves. -/
theorem releaseLoop_eq (config : DbConfig) (mid : UInt16) (direction : MsgDirection)
    {routes : MsgStore → List (Nat × Bool)} (hroutes : ∀ stored, routes stored = [])
    (front rest : List ClientMsg) :
    ∀ context : Context, context.inflight = front ++ rest →
    releaseLoop config routes mid direction rest front.length context =
      ((rest.filter fun m => m.isFor mid direction).foldl Context.uncount { context with
          inflight := front ++ rest.filter fun m => !m.isFor mid direction },
        (rest.filter fun m => m.isFor mid direction).flatMap releaseEffects,
        rest.any fun m => m.isFor mid direction) := by
  -- on what the loop has not seen; `front` are the messages it leaves, which is its
  -- index
  induction rest generalizing front with
  | nil =>
    intro context hcontext
    rw [releaseLoop, List.filter_nil, List.filter_nil, List.foldl_nil, ← hcontext]
    rfl
  | cons m rest ih =>
    intro context hcontext
    rw [releaseLoop]
    by_cases hm : m.isFor mid direction = true
    · -- it goes, and the next one takes its index
      have herase : (front ++ m :: rest).eraseIdx front.length = front ++ rest := by
        rw [List.eraseIdx_append_of_length_le (Nat.le_refl _), Nat.sub_self]
        rfl
      have hqueue : (if m.store.topic.isSome then
          dbMessagesQueue config routes m.store m.store.qos m.retain context
            else (context, [])) = (context, if m.store.topic.isSome then
              [.messagesQueue m.store m.store.qos m.retain, .ref m.store.dbId, .deref m.store.dbId]
              else []) := by
        split_ifs
        · exact dbMessagesQueue_none (hroutes _)
        · rfl
      have hgoes : (m :: rest).filter (fun m => m.isFor mid direction) =
          m :: rest.filter fun m => m.isFor mid direction := List.filter_cons_of_pos hm
      have hstay : (m :: rest).filter (fun m => !m.isFor mid direction) =
          rest.filter fun m => !m.isFor mid direction := List.filter_cons_of_neg (by simp [hm])
      rw [if_pos hm, hqueue]
      dsimp only
      rw [ih front, hgoes, hstay, List.foldl_cons, List.flatMap_cons, List.any_cons, hm]
      · simp only [releaseEffects, Context.uncount, List.append_assoc, List.singleton_append,
          Bool.true_or]
      · show context.inflight.eraseIdx _ = _
        rw [hcontext, herase]
    -- it stays, and belongs to `front` from here on
    · have hgoes : (m :: rest).filter (fun m => m.isFor mid direction) =
          rest.filter fun m => m.isFor mid direction := List.filter_cons_of_neg hm
      have hstay : (m :: rest).filter (fun m => !m.isFor mid direction) =
          m :: rest.filter fun m => !m.isFor mid direction :=
        List.filter_cons_of_pos (by simpa using hm)
      have hlength : front.length + 1 = (front ++ [m]).length := by simp
      rw [if_neg hm, hlength, ih (front ++ [m]), hgoes, hstay, List.any_cons]
      · simp [hm]
      · rw [hcontext]
        simp

theorem uncount_foldl (messages : List ClientMsg) (hqos : ∀ m ∈ messages, m.qos = 2) :
    ∀ context : Context, (messages.foldl Context.uncount context).inflight = context.inflight ∧
      (messages.foldl Context.uncount context).queued = context.queued ∧
      (messages.foldl Context.uncount context).sock = context.sock ∧
      (messages.foldl Context.uncount context).msgCount12 =
        context.msgCount12 - messages.length := by
  induction messages with
  | nil => simp
  | cons m messages ih =>
    intro context
    obtain ⟨h₁, h₂, h₃, h₄⟩ := ih (fun n hn => hqos n (List.mem_cons_of_mem _ hn)) (context.uncount m)
    have hpos : m.qos > 0 := by
      have hm := hqos m List.mem_cons_self
      omega
    refine ⟨h₁, h₂, h₃, h₄.trans ?_⟩
    show (if m.qos > 0 then context.msgCount12 - 1 else context.msgCount12) - _ = _
    rw [if_pos hpos, List.length_cons]
    omega

theorem dequeue_nil {config : DbConfig} {sends : Sends} {msgIndex : Int}
    (h : context.queued = []) :
    dequeue config sends msgIndex context = { context := context, effects := [], rc := 0 } := by
  rw [dequeue, h, dequeueLoop, ← h]
  rfl

theorem releaseEffects_handed (messages : List ClientMsg) :
    (messages.flatMap releaseEffects).filterMap DbEffect.content =
        messages.filterMap ClientMsg.content ∧
      (messages.flatMap releaseEffects).filterMap DbEffect.sent = [] := by
  induction messages with
  | nil => exact ⟨rfl, rfl⟩
  | cons m messages ih =>
    rw [List.flatMap_cons, List.filterMap_append, List.filterMap_append, ih.1, ih.2,
      List.filterMap_cons]
    -- a message without a topic was a bad one, and is handed to nobody
    rcases htopic : m.store.topic with _ | topic
    · have hnone : m.content = none := by
        rw [ClientMsg.content, DbEffect.content, htopic]
        rfl
      rw [hnone, releaseEffects, htopic]
      exact ⟨rfl, rfl⟩
    · have hsome : m.content = some ⟨topic, m.store.payload, m.store.qos, m.retain⟩ := by
        rw [ClientMsg.content, DbEffect.content, htopic]
        rfl
      rw [hsome, releaseEffects, htopic, if_pos (Option.isSome_some)]
      refine ⟨?_, rfl⟩
      rw [List.filterMap_append, List.filterMap_cons, DbEffect.content, htopic]
      rfl

/-- A PUBREL hands on what is held of its id, which is not held any more. -/
theorem handlePubrelBroker_eq (admits : env.Admits limit (.pubrel mid)) (h : context.Holding) :
    (handlePubrelBroker env context mid).context.inflight =
        context.inflight.filter (fun m => m.mid ≠ mid) ∧
      (handlePubrelBroker env context mid).context.sock = context.sock ∧
      (handlePubrelBroker env context mid).context.Holding ∧
      (handlePubrelBroker env context mid).forwarded =
        (context.inflight.filter (fun m => m.mid = mid)).filterMap ClientMsg.content ∧
      (handlePubrelBroker env context mid).packets = env.sends.place (.pubcomp mid) := by
  -- only incoming messages are held, so the direction decides nothing
  have hfor : ∀ m ∈ context.inflight, m.isFor mid .mdIn = decide (m.mid = mid) := by
    intro m hm
    rw [ClientMsg.isFor, (h.incoming m hm).1]
    simp
  have hgone : context.inflight.filter (fun m => m.isFor mid .mdIn) =
      context.inflight.filter fun m => m.mid = mid := List.filter_congr hfor
  have hkept : context.inflight.filter (fun m => !m.isFor mid .mdIn) =
      context.inflight.filter fun m => m.mid ≠ mid := by
    refine List.filter_congr fun m hm => ?_
    rw [hfor m hm]
    simp
  have htwo : ∀ m ∈ context.inflight.filter (fun m => m.mid = mid), m.qos = 2 := fun m hm =>
    (h.incoming m (List.mem_of_mem_filter hm)).2.1
  have hloop := releaseLoop_eq env.config mid .mdIn admits.routes [] context.inflight context rfl
  rw [hgone, hkept, List.length_nil, List.nil_append] at hloop
  obtain ⟨hinflight, hqueued, hsock, hcount⟩ := uncount_foldl _ htwo
    { context with inflight := context.inflight.filter fun m => m.mid ≠ mid }
  have hrelease : (dbMessageRelease env.config env.sends env.routes context mid .mdIn).context =
        (context.inflight.filter fun m => m.mid = mid).foldl Context.uncount
          { context with inflight := context.inflight.filter fun m => m.mid ≠ mid } ∧
      (dbMessageRelease env.config env.sends env.routes context mid .mdIn).effects =
        (context.inflight.filter fun m => m.mid = mid).flatMap releaseEffects := by
    rw [dbMessageRelease, hloop]
    -- nothing waits in the queue, so nothing is taken into flight
    dsimp only
    rw [dequeue_nil (hqueued.trans h.queued), List.append_nil]
    exact ⟨rfl, rfl⟩
  have hcontext : (handlePubrelBroker env context mid).context =
      (context.inflight.filter fun m => m.mid = mid).foldl Context.uncount
        { context with inflight := context.inflight.filter fun m => m.mid ≠ mid } := hrelease.1
  obtain ⟨hcontents, hpackets⟩ :=
    releaseEffects_handed (context.inflight.filter fun m => m.mid = mid)
  refine ⟨?_, ?_, ⟨?_, ?_, ?_, ?_⟩, ?_, ?_⟩
  · rw [hcontext, hinflight]
  · rw [hcontext, hsock]
  · rw [hcontext, hqueued]
    exact h.queued
  · rw [hcontext, hinflight]
    exact fun m hm => h.incoming m (List.mem_of_mem_filter hm)
  · rw [hcontext, hinflight]
    exact h.mids.sublist (List.filter_sublist.map _)
  · -- each message that is held is in one of the two lists
    have hlength := List.length_eq_length_filter_add (l := context.inflight)
      fun m => decide (m.mid ≠ mid)
    simp only [ne_eq, decide_not, Bool.not_not] at hlength
    rw [hcontext, hinflight, hcount]
    show context.msgCount12 - _ = _
    rw [h.count]
    simp only [ne_eq, decide_not]
    omega
  · rw [handlePubrelBroker, thenSend_forwarded]
    show (dbMessageRelease env.config env.sends env.routes context mid .mdIn).effects.filterMap _ = _
    rw [hrelease.2, hcontents]
  · rw [handlePubrelBroker, thenSend_packets]
    show (dbMessageRelease env.config env.sends env.routes context mid .mdIn).effects.filterMap _ ++
      _ = _
    rw [hrelease.2, hpackets, List.nil_append]

end Release

/-! ## Taking over -/

section TakeOver

variable {env : DbEnv} {context : Context}

theorem resetInflight_incoming (messages : List ClientMsg)
    (hin : ∀ m ∈ messages, m.direction = .mdIn ∧ m.qos = 2) :
    ∀ context : Context,
      resetInflight messages context = (messages.foldl Context.count context, messages, []) := by
  induction messages with
  | nil => exact fun _ => rfl
  | cons m messages ih =>
    intro context
    obtain ⟨hdir, hqos⟩ := hin m List.mem_cons_self
    have hmdIn : m.direction ≠ .mdOut := by
      rw [hdir]
      decide
    rw [resetInflight.eq_def]
    dsimp only
    rw [if_neg hmdIn, if_neg (not_not.mpr hqos), ih (fun n hn => hin n (List.mem_cons_of_mem _ hn))]
    rfl

theorem count_foldl (messages : List ClientMsg) (hqos : ∀ m ∈ messages, m.qos = 2) :
    ∀ context : Context, (messages.foldl Context.count context).queued = context.queued ∧
      (messages.foldl Context.count context).sock = context.sock ∧
      (messages.foldl Context.count context).msgCount12 = context.msgCount12 + messages.length := by
  induction messages with
  | nil => simp
  | cons m messages ih =>
    intro context
    obtain ⟨h₁, h₂, h₃⟩ := ih (fun n hn => hqos n (List.mem_cons_of_mem _ hn)) (context.count m)
    have hpos : m.qos > 0 := by
      have hm := hqos m List.mem_cons_self
      omega
    refine ⟨h₁, h₂, h₃.trans ?_⟩
    show (if m.qos > 0 then context.msgCount12 + 1 else context.msgCount12) + _ = _
    rw [if_pos hpos, List.length_cons]
    omega

theorem resetQueued_nil {config : DbConfig} (h : context.queued = []) :
    resetQueued config context 0 = context := by
  rw [resetQueued]
  split
  · rfl
  · next m hm =>
    rw [h] at hm
    exact absurd hm (by simp)

/-- The client of incoming messages keeps them all. -/
theorem connectionCheckAcl_incoming (h : ∀ m ∈ context.inflight, m.direction = .mdIn)
    (hqueued : context.queued = []) :
    connectionCheckAcl env context = { context := context, effects := [], rc := 0 } := by
  have hgoes : ∀ m ∈ context.inflight, (m.direction = .mdOut && !env.aclRead m) = false := by
    intro m hm
    rw [h m hm]
    rfl
  have hkept : (context.inflight.filter fun m => !(m.direction = .mdOut && !env.aclRead m)) =
      context.inflight := by
    apply List.filter_eq_self.mpr
    intro m hm
    rw [hgoes m hm]
    rfl
  have hgone : (context.inflight.filter fun m => m.direction = .mdOut && !env.aclRead m) = [] := by
    apply List.filter_eq_nil_iff.mpr
    intro m hm
    rw [hgoes m hm]
    exact Bool.false_ne_true
  rw [connectionCheckAcl]
  dsimp only
  rw [hkept, hgone, hqueued, List.filter_nil, List.filter_nil, List.append_nil, List.map_nil,
    ← hqueued]

/-- Resetting counts the messages again. -/
theorem dbMessageReconnectReset_incoming (config : DbConfig) (context : Context)
    (hqueued : context.queued = []) (hin : ∀ m ∈ context.inflight, m.direction = .mdIn ∧ m.qos = 2) :
    ∃ counted : Context, dbMessageReconnectReset config context =
        { context := counted, effects := [], rc := 0 } ∧
      counted.inflight = context.inflight ∧ counted.queued = [] ∧ counted.sock = context.sock ∧
      counted.msgCount12 = context.inflight.length := by
  obtain ⟨h₁, h₂, h₃⟩ :=
    count_foldl context.inflight (fun m hm => (hin m hm).2) context.zeroCounts
  have hnone : (context.inflight.foldl Context.count context.zeroCounts).queued = [] :=
    h₁.trans hqueued
  refine ⟨{ context.inflight.foldl Context.count context.zeroCounts with
    inflight := context.inflight }, ?_, rfl, hnone, h₂, ?_⟩
  · rw [dbMessageReconnectReset, resetInflight_incoming _ hin]
    dsimp only
    rw [resetQueued_nil]
    exact hnone
  · show (context.inflight.foldl Context.count context.zeroCounts).msgCount12 = _
    rw [h₃]
    show 0 + (context.inflight.length : Int) = _
    rw [zero_add]

/-- A client that connects again finds what is held of it. -/
theorem takeOver_eq (h : context.Holding) :
    (takeOver env context false false).context.inflight = context.inflight ∧
      (takeOver env context false false).context.Holding ∧
      (takeOver env context false false).forwarded = [] ∧
      (takeOver env context false false).packets = env.sends.place (.connack 0) := by
  have hin : ∀ m ∈ context.inflight, m.direction = .mdIn ∧ m.qos = 2 := fun m hm =>
    ⟨(h.incoming m hm).1, (h.incoming m hm).2.1⟩
  -- with or without messages to reset
  have hstep : ∃ counted : Context,
      (if context.inflight ≠ [] ∨ context.queued ≠ [] then
          dbMessageReconnectReset env.config context.reopened
        else { context := context.reopened, effects := [], rc := 0 }) =
          ({ context := counted, effects := [], rc := 0 } : DbStep) ∧
      counted.inflight = context.inflight ∧ counted.queued = [] ∧
      counted.msgCount12 = context.inflight.length := by
    by_cases hany : context.inflight ≠ [] ∨ context.queued ≠ []
    · obtain ⟨counted, h₁, h₂, h₃, -, h₄⟩ :=
        dbMessageReconnectReset_incoming env.config context.reopened h.queued hin
      exact ⟨counted, (if_pos hany).trans h₁, h₂, h₃, h₄⟩
    · have hnone : context.inflight = [] := by
        by_contra hne
        exact hany (.inl hne)
      refine ⟨_, if_neg hany, rfl, h.queued, ?_⟩
      rw [hnone]
      rfl
  obtain ⟨counted, hcounted, hinflight, hqueued, hcount⟩ := hstep
  have hdir : ∀ m ∈ counted.inflight, m.direction = .mdIn := fun m hm =>
    (hin m (hinflight ▸ hm)).1
  -- no message is outgoing, so the access control removes none
  have htake : takeOver env context false false = DbStep.thenSend env
      { context := counted, effects := [], rc := 0 } (.connack 0) := by
    rw [takeOver, if_pos (by decide), hcounted]
    dsimp only
    rw [connectionCheckAcl_incoming hdir hqueued]
    rfl
  rw [htake]
  refine ⟨hinflight, ⟨hqueued, ?_, ?_, ?_⟩, ?_, ?_⟩
  · show ∀ m ∈ counted.inflight, _
    rw [hinflight]
    exact h.incoming
  · show (counted.inflight.map (·.mid)).Nodup
    rw [hinflight]
    exact h.mids
  · show counted.msgCount12 = counted.inflight.length
    rw [hinflight]
    exact hcount
  · rw [thenSend_forwarded]
    rfl
  · rw [thenSend_packets]
    rfl

end TakeOver

end WeeveMQ
