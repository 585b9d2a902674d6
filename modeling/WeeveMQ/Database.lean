/-
  WeeveMQ.Database

  The messages of a client at the broker: the two lists of a context in
  `database.c`, and the handlers that change them.

  A message points to what is stored of it; here it carries that, and what
  happens to the stored messages is said by effects: references taken and given
  back, and `sub__messages_queue` called for one.  Of that call the part that
  comes back to the same context is done here, for the subscriptions it is given
  (`routes`).  What becomes of the packets is given in advance, as for the
  client.

  Contexts of bridges and of websockets are left out, and so are allocations
  that fail.

  - `insertRoutes_first`: of the copies of one message a client is handed, at
    most the first one that its limits admit comes onto its lists.
-/

import WeeveMQ.OutMessages
import WeeveMQ.SubsTree

namespace WeeveMQ

/-! ## Messages and contexts -/

/-- `enum mosquitto_msg_direction`. -/
inductive MsgDirection where
  | mdIn
  | mdOut
  deriving DecidableEq, Repr

/-- `struct mosquitto_msg_store` without its counter and links.  There is no topic when the
    message was refused. -/
structure MsgStore where
  dbId : Nat
  sourceId : ClientId
  sourceMid : UInt16
  topic : Option CString
  payload : Bytes
  qos : Nat
  retain : Bool
  destIds : List ClientId
  deriving DecidableEq

/-- `struct mosquitto_client_msg` without time and link. -/
structure ClientMsg where
  store : MsgStore
  mid : UInt16
  qos : Nat
  retain : Bool
  direction : MsgDirection
  state : MsgState
  dup : Bool
  deriving DecidableEq

/-- The fields of a context that `database.c` uses.  `sock` says that there is a socket. -/
structure Context where
  id : ClientId
  sock : Bool
  inflight : List ClientMsg
  queued : List ClientMsg
  msgCount : Int
  msgBytes : Int
  msgCount12 : Int
  msgBytes12 : Int
  lastMid : UInt16
  isDropping : Bool

/-- `db__limits_set`, and the options of the configuration. -/
structure DbConfig where
  maxInflight : Int
  maxInflightBytes : Nat
  maxQueued : Int
  maxQueuedBytes : Nat
  allowDuplicateMessages : Bool
  queueQos0Messages : Bool
  messageSizeLimit : Nat

/-- What a function does besides changing the context. -/
inductive DbEffect where
  | ref (dbId : Nat)
  | deref (dbId : Nat)
  | sentTo (dbId : Nat)
  | messagesQueue (stored : MsgStore) (qos : Nat) (retain : Bool)
  | packet (p : MqttPacket)
  deriving DecidableEq

structure DbStep where
  context : Context
  effects : List DbEffect
  rc : Nat

/-! ## Limits -/

/-- `db__ready_for_flight`. -/
def dbReadyForFlight (config : DbConfig) (context : Context) (qos : Nat) : Bool :=
  if qos = 0 ∨ (config.maxInflight = 0 ∧ config.maxInflightBytes = 0) then true
  else
    let validBytes := decide (context.msgBytes12 < config.maxInflightBytes)
    let validCount := decide (context.msgCount12 < config.maxInflight)
    if config.maxInflight = 0 then validBytes
    else if config.maxInflightBytes = 0 then validCount
    else validBytes && validCount

/-- `db__ready_for_queue`; the bytes are unsigned, so that the difference of two of them
    is not negative. -/
def dbReadyForQueue (config : DbConfig) (context : Context) (qos : Nat) : Bool :=
  if config.maxQueued = 0 ∧ config.maxQueuedBytes = 0 then true
  else
    let sourceBytes := if qos = 0 then context.msgBytes else context.msgBytes12
    let sourceCount := if qos = 0 then context.msgCount else context.msgCount12
    let adjustBytes : Int := if context.sock then config.maxInflightBytes else 0
    let adjustCount := if context.sock then config.maxInflight else 0
    let validBytes := decide ((sourceBytes - adjustBytes) % 2 ^ 64 < config.maxQueuedBytes)
    let validCount := decide (sourceCount - adjustCount < config.maxQueued)
    if config.maxQueuedBytes = 0 then validCount
    else if config.maxQueued = 0 then validBytes
    else validBytes && validCount

/-! ## Counters -/

/-- One more message. -/
def Context.count (context : Context) (m : ClientMsg) : Context :=
  { context with
    msgCount := context.msgCount + 1
    msgBytes := context.msgBytes + m.store.payload.length
    msgCount12 := if m.qos > 0 then context.msgCount12 + 1 else context.msgCount12
    msgBytes12 := if m.qos > 0 then context.msgBytes12 + m.store.payload.length
      else context.msgBytes12 }

/-- What `db__message_remove` does to the counters. -/
def Context.uncount (context : Context) (m : ClientMsg) : Context :=
  { context with
    msgCount := context.msgCount - 1
    msgBytes := context.msgBytes - m.store.payload.length
    msgCount12 := if m.qos > 0 then context.msgCount12 - 1 else context.msgCount12
    msgBytes12 := if m.qos > 0 then context.msgBytes12 - m.store.payload.length
      else context.msgBytes12 }

def Context.zeroCounts (context : Context) : Context :=
  { context with msgCount := 0, msgBytes := 0, msgCount12 := 0, msgBytes12 := 0 }

/-! ## Inserting -/

/-- The state of an outgoing message that is to be sent. -/
def publishState (qos : Nat) (state : MsgState) : MsgState :=
  if qos = 0 then .publishQos0
  else if qos = 1 then .publishQos1
  else if qos = 2 then .publishQos2
  else state

/-- The message `db__message_insert` makes. -/
def newClientMsg (stored : MsgStore) (mid : UInt16) (direction : MsgDirection) (qos : Nat)
    (retain : Bool) (state : MsgState) : ClientMsg where
  store := stored
  mid := mid
  qos := qos
  retain := retain
  direction := direction
  state := state
  dup := false

/-- `db__message_insert` from where it is known in which state the message starts. -/
def insertInState (config : DbConfig) (context : Context) (mid : UInt16) (direction : MsgDirection)
    (qos : Nat) (retain : Bool) (stored : MsgStore) (state : MsgState) (rc : Nat) : DbStep :=
  let m := newClientMsg stored mid direction qos retain state
  let context :=
    if state = .queued then { context with queued := context.queued ++ [m] }
    else { context with inflight := context.inflight ++ [m] }
  { context := context.count m
    effects := .ref stored.dbId ::
      if !config.allowDuplicateMessages ∧ direction = .mdOut ∧ !retain then [.sentTo stored.dbId]
      else []
    rc := rc }

/-- `db__message_insert`. -/
def dbMessageInsert (config : DbConfig) (context : Context) (mid : UInt16) (direction : MsgDirection)
    (qos : Nat) (retain : Bool) (stored : MsgStore) : DbStep :=
  let insert := insertInState config context mid direction qos retain stored
  let drop : DbStep := { context := { context with isDropping := true }, effects := [], rc := 2 }
  -- the client has this message already
  if !config.allowDuplicateMessages ∧ direction = .mdOut ∧ !retain ∧
      context.id ∈ stored.destIds then
    { context := context, effects := [], rc := 0 }
  -- for a client that is away messages without QoS are not kept
  else if !context.sock ∧ qos = 0 ∧ !config.queueQos0Messages then
    { context := context, effects := [], rc := 2 }
  -- a client that is there: into the in-flight list, or else into the queue
  else if context.sock then
    if dbReadyForFlight config context qos then
      if direction = .mdOut then insert (publishState qos .invalid) 0
      else if qos = 2 then insert .waitForPubrel 0
      else { context := context, effects := [], rc := 1 }
    else if dbReadyForQueue config context qos then insert .queued 2
    else drop
  -- a client that is away: into the queue, until it comes back
  else if dbReadyForQueue config context qos then insert .queued 0
  else drop

/-- What comes back to a context of a message that is queued for the subscribers: with a
    new id each, and once only unless duplicates are allowed. -/
def insertRoutes (config : DbConfig) (stored : MsgStore) :
    List (Nat × Bool) → Context → Context × List DbEffect
  | [], context => (context, [])
  | (qos, retain) :: routes, context =>
    let mid := if qos > 0 then mosquittoMidGenerate context.lastMid else 0
    let context := if qos > 0 then { context with lastMid := mid } else context
    let step := dbMessageInsert config context mid .mdOut qos retain stored
    -- `dest_ids` grows by the client when duplicates are looked for
    let stored := if .sentTo stored.dbId ∈ step.effects then
      { stored with destIds := stored.destIds ++ [context.id] } else stored
    let (context, effects) := insertRoutes config stored routes step.context
    (context, step.effects ++ effects)

/-- `sub__messages_queue`, with a reference held meanwhile. -/
def dbMessagesQueue (config : DbConfig) (routes : MsgStore → List (Nat × Bool)) (stored : MsgStore)
    (qos : Nat) (retain : Bool) (context : Context) : Context × List DbEffect :=
  let (context, effects) := insertRoutes config stored (routes stored) context
  (context,
    .messagesQueue stored qos retain :: .ref stored.dbId :: effects ++ [.deref stored.dbId])

/-! ## From the queue to the in-flight list -/

/-- The loop in which `db__message_delete` and `db__message_release` end.  An incoming
    message has QoS 2; with another one the loop of the source does not get on. -/
def dequeueLoop (config : DbConfig) (sends : Sends) :
    Int → List ClientMsg → List ClientMsg → List ClientMsg × List ClientMsg × List MqttPacket
  | _, inflight, [] => (inflight, [], [])
  | msgIndex, inflight, tail :: queued =>
    -- `max_inflight_messages` zero means no limit
    if config.maxInflight = 0 ∨ msgIndex < config.maxInflight then
      if tail.direction = .mdOut then
        let tail := { tail with state := publishState tail.qos tail.state }
        dequeueLoop config sends (msgIndex + 1) (inflight ++ [tail]) queued
      else if tail.qos = 2 then
        let tail := { tail with state := .waitForPubrel }
        let (inflight, queued, packets) :=
          dequeueLoop config sends (msgIndex + 1) (inflight ++ [tail]) queued
        (inflight, queued, sends.place (.pubrec tail.mid) ++ packets)
      else (inflight, tail :: queued, [])
    else (inflight, tail :: queued, [])

/-- The loop on a context. -/
def dequeue (config : DbConfig) (sends : Sends) (msgIndex : Int) (context : Context) : DbStep :=
  let (inflight, queued, packets) := dequeueLoop config sends msgIndex context.inflight context.queued
  { context := { context with inflight := inflight, queued := queued }
    effects := packets.map .packet
    rc := 0 }

/-- The message this acknowledgement is about. -/
def ClientMsg.isFor (m : ClientMsg) (mid : UInt16) (direction : MsgDirection) : Bool :=
  m.mid = mid && m.direction = direction

/-- `db__message_delete`. -/
def dbMessageDelete (config : DbConfig) (sends : Sends) (context : Context) (mid : UInt16)
    (direction : MsgDirection) : DbStep :=
  let removed := context.inflight.filter fun m => m.isFor mid direction
  let kept := context.inflight.filter fun m => !m.isFor mid direction
  let context := removed.foldl Context.uncount { context with inflight := kept }
  let step := dequeue config sends kept.length context
  { step with effects := removed.map (fun m => .deref m.store.dbId) ++ step.effects }

/-- `db__message_update`. -/
def dbMessageUpdate (mid : UInt16) (direction : MsgDirection) (state : MsgState) :
    List ClientMsg → Option (List ClientMsg)
  | [] => none
  | m :: rest =>
    if m.isFor mid direction then some ({ m with state := state } :: rest)
    else (dbMessageUpdate mid direction state rest).map (m :: ·)

/-- `db__messages_delete`. -/
def dbMessagesDelete (context : Context) : DbStep where
  context := { context.zeroCounts with inflight := [], queued := [] }
  effects := (context.inflight ++ context.queued).map fun m => .deref m.store.dbId
  rc := 0

/-! ## Releasing -/

/-- The first loop of `db__message_release`, over the messages that were in flight when it
    started: `sub__messages_queue` may append to the list, but only outgoing ones.
    `visited` counts the messages in front of the current one that stay. -/
def releaseLoop (config : DbConfig) (routes : MsgStore → List (Nat × Bool)) (mid : UInt16)
    (direction : MsgDirection) :
    List ClientMsg → Nat → Context → Context × List DbEffect × Bool
  | [], _, context => (context, [], false)
  | m :: rest, visited, context =>
    if m.isFor mid direction then
      -- a message without a topic is only dropped
      let (context, queued) :=
        if m.store.topic.isSome then
          dbMessagesQueue config routes m.store m.store.qos m.retain context
        else (context, [])
      let context := { context.uncount m with inflight := context.inflight.eraseIdx visited }
      let (context, effects, _) := releaseLoop config routes mid direction rest visited context
      (context, queued ++ .deref m.store.dbId :: effects, true)
    else releaseLoop config routes mid direction rest (visited + 1) context

/-- `db__message_release`; its counter also counts the messages it has removed. -/
def dbMessageRelease (config : DbConfig) (sends : Sends) (routes : MsgStore → List (Nat × Bool))
    (context : Context) (mid : UInt16) (direction : MsgDirection) : DbStep :=
  let (released, effects, deleted) :=
    releaseLoop config routes mid direction context.inflight 0 context
  let removed := context.inflight.countP fun m => m.isFor mid direction
  let step := dequeue config sends (released.inflight.length + removed) released
  { step with
    effects := effects ++ step.effects
    rc := if deleted then 0 else 1 }

/-! ## Connecting again -/

/-- The state `db__message_reconnect_reset` gives an outgoing message. -/
def reconnectState (m : ClientMsg) : MsgState :=
  if m.qos = 2 ∧ m.state = .waitForPubcomp then .resendPubrel else publishState m.qos m.state

/-- The first loop of `db__message_reconnect_reset`.  Behind a message that it removes it
    passes over the next one. -/
def resetInflight : List ClientMsg → Context → Context × List ClientMsg × List DbEffect
  | [], context => (context, [], [])
  | m :: rest, context =>
    let context := context.count m
    if m.direction = .mdOut then
      let (context, kept, effects) := resetInflight rest context
      (context, { m with state := reconnectState m } :: kept, effects)
    -- an incoming message without QoS 2 goes, and `next` keeps its state
    else if m.qos ≠ 2 then
      match rest with
      | [] => (context.uncount m, [], [.deref m.store.dbId])
      | next :: rest =>
        let (context, kept, effects) := resetInflight rest (context.uncount m)
        (context, next :: kept, .deref m.store.dbId :: effects)
    else
      let (context, kept, effects) := resetInflight rest context
      (context, m :: kept, effects)

/-- The second loop, with `msg` at an index of the queue: a message that is ready gets its
    state, but it is the first of the queue that is moved, and the loop starts again with
    the next first one. -/
def resetQueued (config : DbConfig) (context : Context) (index : Nat) : Context :=
  match h : context.queued[index]? with
  | none => context
  | some m =>
    let counted := context.count m
    if dbReadyForFlight config counted m.qos then
      let queued := context.queued.set index { m with state := publishState m.qos m.state }
      match _ : queued with
      | [] => counted
      | first :: rest =>
        resetQueued config { counted with inflight := counted.inflight ++ [first], queued := rest } 0
    else resetQueued config counted (index + 1)
termination_by (context.queued.length, context.queued.length - index)
decreasing_by
  · rename_i hqueued
    have hlength := congrArg List.length hqueued
    rw [List.length_set, List.length_cons] at hlength
    left
    show rest.length < context.queued.length
    omega
  · right
    obtain ⟨hlt, -⟩ := List.getElem?_eq_some_iff.mp h
    show context.queued.length - (index + 1) < context.queued.length - index
    omega

/-- `db__message_reconnect_reset`. -/
def dbMessageReconnectReset (config : DbConfig) (context : Context) : DbStep :=
  let (counted, inflight, effects) := resetInflight context.inflight context.zeroCounts
  { context := resetQueued config { counted with inflight := inflight } 0
    effects := effects
    rc := 0 }

/-! ## Handlers -/

/-- What the handlers of a context are given from outside. -/
structure DbEnv where
  config : DbConfig
  sends : Sends
  routes : MsgStore → List (Nat × Bool)
  aclWrite : PublishPacket → AclResult
  aclRead : ClientMsg → Bool

/-- `db__message_store_find`. -/
def dbMessageStoreFind (context : Context) (mid : UInt16) : Option MsgStore :=
  ((context.inflight ++ context.queued).find? fun m =>
    m.store.sourceMid = mid && m.direction = .mdIn).map ClientMsg.store

/-- What `db__message_store` makes of a PUBLISH under the next id. -/
def dbMessageStore (dbId : Nat) (sourceId : ClientId) (p : PublishPacket) (topic : Option CString)
    (payload : Bytes) (retain : Bool) : MsgStore where
  dbId := dbId
  sourceId := sourceId
  sourceMid := p.mid
  topic := topic
  payload := payload
  qos := p.qos
  retain := retain
  destIds := []

section Handlers

variable (env : DbEnv)

/-- A packet for the client, behind other effects; the function ends with what sending it
    returns. -/
def DbStep.thenSend (step : DbStep) (p : MqttPacket) : DbStep :=
  { step with
    effects := step.effects ++ (env.sends.place p).map .packet
    rc := if step.rc = 0 ∧ (env.sends p).rc = .ok () then 0 else 1 }

/-- A PUBLISH that is not for the subscribers. -/
def processBadMessage (context : Context) (dbId : Nat) (p : PublishPacket) : DbStep :=
  let nothing : DbStep := { context := context, effects := [], rc := 0 }
  if p.qos = 0 then nothing
  else if p.qos = 1 then nothing.thenSend env (.puback p.mid)
  else
    -- with QoS 2 the id is kept, so that a second PUBLISH is not taken for a new
    -- message
    match dbMessageStoreFind context p.mid with
    | some _ => nothing.thenSend env (.pubrec p.mid)
    | none =>
      let stored := dbMessageStore dbId context.id p none [] false
      let step := dbMessageInsert env.config context p.mid .mdIn p.qos false stored
      if step.rc = 0 then step.thenSend env (.pubrec p.mid) else step

/-- `handle__publish` of the broker from where the packet is read; its topic has passed the
    checks. -/
def handlePublish (context : Context) (dbId : Nat) (p : PublishPacket) : DbStep :=
  if p.payload ≠ [] ∧ env.config.messageSizeLimit ≠ 0 ∧
      p.payload.length > env.config.messageSizeLimit then
    processBadMessage env context dbId p
  else
    match env.aclWrite p with
    | .denied => processBadMessage env context dbId p
    | .error => { context := context, effects := [], rc := 1 }
    | .allowed =>
      -- a PUBLISH that comes again finds the message of the first one
      let known := if p.qos > 0 then dbMessageStoreFind context p.mid else none
      let stored := known.getD (dbMessageStore dbId context.id p (some p.topic) p.payload p.retain)
      if p.qos = 2 then
        if known.isSome then
          { context := context, effects := [], rc := 0 : DbStep }.thenSend env (.pubrec p.mid)
        else
          let step := dbMessageInsert env.config context p.mid .mdIn p.qos p.retain stored
          if step.rc = 0 then step.thenSend env (.pubrec p.mid)
          -- a message that is dropped or queued is no error
          else { step with rc := if step.rc = 1 then 1 else 0 }
      else
        let (context, effects) :=
          dbMessagesQueue env.config env.routes stored p.qos p.retain context
        let step : DbStep := { context := context, effects := effects, rc := 0 }
        if p.qos = 1 then step.thenSend env (.puback p.mid) else step

/-- `handle__pubrel` of the broker, behind reading the id: a PUBCOMP is sent also for an id
    that is not known. -/
def handlePubrelBroker (context : Context) (mid : UInt16) : DbStep :=
  let step := dbMessageRelease env.config env.sends env.routes context mid .mdIn
  { step with rc := 0 }.thenSend env (.pubcomp mid)

/-- `handle__pubackcomp` of the broker, behind reading the id. -/
def handlePubackcompBroker (context : Context) (mid : UInt16) : DbStep :=
  if mid = 0 then { context := context, effects := [], rc := 0 }
  else dbMessageDelete env.config env.sends context mid .mdOut

/-- `handle__pubrec` of the broker, behind reading the id. -/
def handlePubrecBroker (context : Context) (mid : UInt16) : DbStep :=
  let inflight := (dbMessageUpdate mid .mdOut .waitForPubcomp context.inflight).getD context.inflight
  { context := { context with inflight := inflight }, effects := [], rc := 0 : DbStep }.thenSend env
    (.pubrel mid)

/-- `connection_check_acl`: outgoing messages the client may not read any more go; the
    counters stay. -/
def connectionCheckAcl (context : Context) : DbStep :=
  let goes : ClientMsg → Bool := fun m => m.direction = .mdOut && !env.aclRead m
  { context := { context with
      inflight := context.inflight.filter fun m => !goes m
      queued := context.queued.filter fun m => !goes m }
    effects := ((context.inflight.filter goes) ++ context.queued.filter goes).map fun m =>
      .deref m.store.dbId
    rc := 0 }

/-- The context of a client that connects again, before its messages are counted. -/
def Context.reopened (context : Context) : Context :=
  { context.zeroCounts with sock := true, isDropping := false }

/-- What `handle__connect` makes of the messages of a client that is known: they go to the
    new context, unless one of the two sessions is clean. -/
def takeOver (context : Context) (cleanSession wasClean : Bool) : DbStep :=
  let fresh := context.reopened
  let step :=
    if !cleanSession ∧ !wasClean then
      if context.inflight ≠ [] ∨ context.queued ≠ [] then dbMessageReconnectReset env.config fresh
      else { context := fresh, effects := [], rc := 0 }
    -- with a clean session on either side the messages of the old context are given up
    else dbMessagesDelete { fresh with lastMid := 0 }
  let checked := connectionCheckAcl env step.context
  { checked with effects := step.effects ++ checked.effects }.thenSend env (.connack 0)

end Handlers

/-- `context__disconnect`. -/
def contextDisconnect (context : Context) : Context := { context with sock := false }

/-! ## Copies of one message -/

/-- The limits of a client let a message of this QoS onto one of its lists. -/
def Context.admits (config : DbConfig) (context : Context) (qos : Nat) : Bool :=
  if context.sock then dbReadyForFlight config context qos || dbReadyForQueue config context qos
  else (qos ≠ 0 || config.queueQos0Messages) && dbReadyForQueue config context qos

/-- These messages have come onto the lists of the client, behind all others. -/
def Context.Gains (context context' : Context) (copies : List ClientMsg) : Prop :=
  ∃ now later, copies = now ++ later ∧ context'.inflight = context.inflight ++ now ∧
    context'.queued = context.queued ++ later

/-- Nothing more comes. -/
theorem Context.Gains.nil_right {a b c : Context} {copies : List ClientMsg}
    (h : a.Gains b copies) (h' : b.Gains c []) : a.Gains c copies := by
  obtain ⟨now, later, rfl, hinflight, hqueued⟩ := h
  obtain ⟨now', later', hnil, hinflight', hqueued'⟩ := h'
  obtain ⟨rfl, rfl⟩ := List.append_eq_nil_iff.mp hnil.symm
  refine ⟨now, later, rfl, ?_, ?_⟩
  · rw [hinflight', List.append_nil, hinflight]
  · rw [hqueued', List.append_nil, hqueued]

section Copies

variable {config : DbConfig} {stored : MsgStore} {context : Context} {mid : UInt16} {qos : Nat}

/-- A client that has the message does not get it again. -/
theorem dbMessageInsert_known (hdup : config.allowDuplicateMessages = false)
    (hknown : context.id ∈ stored.destIds) :
    dbMessageInsert config context mid .mdOut qos false stored =
      { context := context, effects := [], rc := 0 } := by
  unfold dbMessageInsert
  rw [if_pos]
  rw [hdup]
  exact ⟨rfl, rfl, rfl, hknown⟩

theorem insertInState_gains {state : MsgState} {rc : Nat}
    (hdup : config.allowDuplicateMessages = false) :
    (∃ m : ClientMsg, m.store = stored ∧ m.direction = .mdOut ∧ m.qos = qos ∧ m.retain = false ∧
      context.Gains (insertInState config context mid .mdOut qos false stored state rc).context
        [m]) ∧
      .sentTo stored.dbId ∈
        (insertInState config context mid .mdOut qos false stored state rc).effects ∧
      (insertInState config context mid .mdOut qos false stored state rc).context.id =
        context.id := by
  refine ⟨⟨newClientMsg stored mid .mdOut qos false state, rfl, rfl, rfl, rfl, ?_⟩, ?_, ?_⟩
  · unfold insertInState
    dsimp only
    by_cases hstate : state = .queued
    · rw [if_pos hstate]
      exact ⟨[], [_], rfl, (List.append_nil _).symm, rfl⟩
    · rw [if_neg hstate]
      exact ⟨[_], [], rfl, rfl, (List.append_nil _).symm⟩
  · unfold insertInState
    rw [hdup]
    exact List.mem_cons_of_mem _ (List.mem_singleton_self _)
  · unfold insertInState
    split <;> rfl

/-- One that does not have it gets it if its limits admit that. -/
theorem dbMessageInsert_admitted (hnew : context.id ∉ stored.destIds)
    (hadmits : context.admits config qos = true) :
    ∃ state rc, dbMessageInsert config context mid .mdOut qos false stored =
      insertInState config context mid .mdOut qos false stored state rc := by
  unfold Context.admits at hadmits
  unfold dbMessageInsert
  rw [if_neg fun h => hnew h.2.2.2]
  by_cases hsock : context.sock = true
  · rw [if_pos hsock, Bool.or_eq_true] at hadmits
    rw [if_neg fun h => by simp [hsock] at h, if_pos hsock]
    by_cases hflight : dbReadyForFlight config context qos = true
    · rw [if_pos hflight, if_pos rfl]
      exact ⟨_, _, rfl⟩
    · rw [if_neg hflight, if_pos (hadmits.resolve_left hflight)]
      exact ⟨_, _, rfl⟩
  · rw [if_neg hsock, Bool.and_eq_true, Bool.or_eq_true] at hadmits
    rw [if_neg, if_neg hsock, if_pos hadmits.2]
    · exact ⟨_, _, rfl⟩
    · rintro ⟨-, hqos, hqueue⟩
      simp [hqos] at hadmits
      simp [hadmits.1] at hqueue

theorem dbMessageInsert_refused (hnew : context.id ∉ stored.destIds)
    (hrefuses : context.admits config qos = false) :
    ∃ dropping, dbMessageInsert config context mid .mdOut qos false stored =
      { context := { context with isDropping := dropping }, effects := [], rc := 2 } := by
  unfold Context.admits at hrefuses
  unfold dbMessageInsert
  rw [if_neg fun h => hnew h.2.2.2]
  by_cases hsock : context.sock = true
  · rw [if_pos hsock, Bool.or_eq_false_iff] at hrefuses
    rw [if_neg fun h => by simp [hsock] at h, if_pos hsock, hrefuses.1, hrefuses.2]
    exact ⟨true, rfl⟩
  · rw [if_neg hsock, Bool.and_eq_false_iff] at hrefuses
    by_cases hqos0 : !context.sock ∧ qos = 0 ∧ !config.queueQos0Messages
    · rw [if_pos hqos0]
      exact ⟨context.isDropping, rfl⟩
    · rw [if_neg hqos0, if_neg hsock]
      have hfull : dbReadyForQueue config context qos = false := by
        rcases hrefuses with hnot | hfull
        · refine absurd ⟨by simpa using hsock, ?_⟩ hqos0
          simpa using hnot
        · exact hfull
      rw [hfull]
      exact ⟨true, rfl⟩

/-- One route, with whatever id, in front of the others. -/
theorem insertRoutes_cons {retain : Bool} {routes : List (Nat × Bool)} :
    ∃ mid lastMid, ∀ step, dbMessageInsert config { context with lastMid := lastMid } mid .mdOut
        qos retain stored = step →
      (insertRoutes config stored ((qos, retain) :: routes) context).1 =
        (insertRoutes config (if .sentTo stored.dbId ∈ step.effects then
          { stored with destIds := stored.destIds ++ [context.id] } else stored) routes
          step.context).1 := by
  by_cases hqos : qos > 0
  · refine ⟨mosquittoMidGenerate context.lastMid, mosquittoMidGenerate context.lastMid, ?_⟩
    rintro step rfl
    rw [insertRoutes]
    simp only [if_pos hqos]
  · refine ⟨0, context.lastMid, ?_⟩
    rintro step rfl
    rw [insertRoutes]
    simp only [if_neg hqos]

/-- A client that has the message keeps its lists, however often it is handed to it. -/
theorem insertRoutes_known {routes : List (Nat × Bool)}
    (hdup : config.allowDuplicateMessages = false) (hretain : ∀ r ∈ routes, r.2 = false)
    (hknown : context.id ∈ stored.destIds) :
    context.Gains (insertRoutes config stored routes context).1 [] := by
  induction routes generalizing context with
  | nil => exact ⟨[], [], rfl, (List.append_nil _).symm, (List.append_nil _).symm⟩
  | cons route routes ih =>
    obtain ⟨qos, retain⟩ := route
    obtain rfl : retain = false := hretain _ (List.mem_cons_self ..)
    obtain ⟨mid, lastMid, hcons⟩ := @insertRoutes_cons config stored context qos false routes
    rw [hcons _ (dbMessageInsert_known hdup hknown), if_neg List.not_mem_nil]
    exact ih (fun r hr => hretain r (List.mem_cons_of_mem _ hr)) hknown

/-- The copies of one message that come onto the lists of a client: the first that its
    limits admit, if there is one. -/
theorem insertRoutes_first {routes : List (Nat × Bool)}
    (hdup : config.allowDuplicateMessages = false) (hretain : ∀ r ∈ routes, r.2 = false)
    (hnew : context.id ∉ stored.destIds) :
    ∃ copies, context.Gains (insertRoutes config stored routes context).1 copies ∧
      (∀ m ∈ copies, m.store = stored ∧ m.direction = .mdOut ∧ m.retain = false) ∧
      copies.map ClientMsg.qos =
        ((routes.map Prod.fst).find? fun qos => context.admits config qos).toList := by
  induction routes generalizing context with
  | nil =>
    exact ⟨[], ⟨[], [], rfl, (List.append_nil _).symm, (List.append_nil _).symm⟩,
      List.forall_mem_nil _, rfl⟩
  | cons route routes ih =>
    obtain ⟨qos, retain⟩ := route
    obtain rfl : retain = false := hretain _ (List.mem_cons_self ..)
    have hretain : ∀ r ∈ routes, r.2 = false := fun r hr => hretain r (List.mem_cons_of_mem _ hr)
    obtain ⟨mid, lastMid, hcons⟩ := @insertRoutes_cons config stored context qos false routes
    have hadmits : ({ context with lastMid := lastMid } : Context).admits config qos =
        context.admits config qos := rfl
    rw [List.map_cons, List.find?_cons]
    cases hadmitted : context.admits config qos with
    | true =>
      -- the first copy, and no more of them
      obtain ⟨state, rc, hinsert⟩ := @dbMessageInsert_admitted config stored
        { context with lastMid := lastMid } mid qos hnew (hadmits.trans hadmitted)
      obtain ⟨⟨m, hstore, hdirection, hqos, hretained, hgains⟩, hsent, hid⟩ :=
        @insertInState_gains config stored { context with lastMid := lastMid } mid qos state rc hdup
      rw [hcons _ hinsert, if_pos hsent]
      have hknown := @insertRoutes_known config
        { stored with destIds := stored.destIds ++ [context.id] } _ routes hdup hretain (by
          rw [hid]
          exact List.mem_append_right _ (List.mem_singleton_self _))
      refine ⟨[m], ?_, List.forall_mem_singleton.mpr ⟨hstore, hdirection, hretained⟩, ?_⟩
      · exact hgains.nil_right hknown
      · rw [List.map_singleton, hqos]
        rfl
    | false =>
      obtain ⟨dropping, hinsert⟩ := @dbMessageInsert_refused config stored
        { context with lastMid := lastMid } mid qos hnew (hadmits.trans hadmitted)
      rw [hcons _ hinsert, if_neg List.not_mem_nil]
      exact ih hretain hnew

end Copies

end WeeveMQ
