/-
  WeeveMQ.OutMessages

  What a client has published with QoS and not seen the end of: `out_messages`
  of `messages_mosq.c`, with the callers that change it.

  What becomes of a packet that is sent is given in advance: whether it gets
  into the out queue, and what the function that sends it returns.  Without a
  connection none gets there.

  - `OutMessages.Windowed`: the first messages are in flight, as many as the limit
    lets, and the others wait for one of them to end.
  - `windowed_run`: over every run in which only messages in flight are
    acknowledged, in-flight counter and list agree on that.
-/

import WeeveMQ.Lib.Run
import WeeveMQ.MqttPackets

namespace WeeveMQ

open Call

/-! ## Sending -/

/-- What becomes of a packet: whether it is in the out queue, and what is returned. -/
structure Sent where
  placed : Bool
  rc : Except MosqError Unit

abbrev Sends := MqttPacket → Sent

/-- The packets that are in the out queue afterwards. -/
def Sends.place (sends : Sends) (p : MqttPacket) : List MqttPacket :=
  if (sends p).placed then [p] else []

/-- `MOSQ_ERR_*`, also those the packet code does not return. -/
inductive MosqCode where
  | of (e : MosqError)
  | notFound
  | malformedUtf8
  | connRefused
  deriving DecidableEq, Repr

/-- What a function of `send_mosq.c` or `send_publish.c` returns for this packet. -/
def Sends.rc (sends : Sends) (p : MqttPacket) : Except MosqCode Unit := (sends p).rc.mapError .of

/-! ## Messages -/

/-- `enum mosquitto_msg_state`. -/
inductive MsgState where
  | invalid
  | publishQos0
  | publishQos1
  | waitForPuback
  | publishQos2
  | waitForPubrec
  | resendPubrel
  | waitForPubrel
  | resendPubcomp
  | waitForPubcomp
  | sendPubrec
  | queued
  deriving DecidableEq, Repr

/-- `struct mosquitto_message_all` with its message, without time and link. -/
structure OutMessage where
  mid : UInt16
  topic : CString
  payload : Bytes
  qos : Nat
  retain : Bool
  state : MsgState
  dup : Bool
  deriving DecidableEq

/-- The PUBLISH `send__publish` makes of a message. -/
def OutMessage.packet (m : OutMessage) : MqttPacket :=
  .publish {
    dup := m.dup
    qos := m.qos
    retain := m.retain
    mid := m.mid
    topic := m.topic
    payload := m.payload }

/-- The fields of `struct mosquitto` for outgoing messages. -/
structure OutMessages where
  messages : List OutMessage
  inflight : Int
  maxInflight : Int
  lastMid : UInt16
  queueLen : Int

/-- What `mosquitto__new` makes of them. -/
def newOutMessages : OutMessages where
  messages := []
  inflight := 0
  maxInflight := 20
  lastMid := 0
  queueLen := 0

/-- There may be one more message in flight. -/
def OutMessages.mayFly (q : OutMessages) : Prop := q.maxInflight = 0 ∨ q.inflight < q.maxInflight

instance (q : OutMessages) : Decidable q.mayFly := inferInstanceAs (Decidable (_ ∨ _))

/-- What a function does: the messages, the packets in the out queue, and what it returns. -/
structure OutStep where
  out : OutMessages
  packets : List MqttPacket
  rc : Except MosqCode Unit

/-! ## Publishing -/

/-- `mosquitto__mid_generate`: 0 is no message id. -/
def mosquittoMidGenerate (lastMid : UInt16) : UInt16 :=
  if lastMid + 1 = 0 then lastMid + 2 else lastMid + 1

/-- `message__queue` for an outgoing message, and whether it may fly. -/
def messageQueue (q : OutMessages) (m : OutMessage) : OutMessages × Bool :=
  let q := { q with queueLen := q.queueLen + 1, messages := q.messages ++ [m] }
  if m.qos > 0 then
    if q.mayFly then ({ q with inflight := q.inflight + 1 }, true) else (q, false)
  else (q, true)

/-- The state of a message whose PUBLISH is sent. -/
def waitState (qos : Nat) (state : MsgState) : MsgState :=
  if qos = 1 then .waitForPuback else if qos = 2 then .waitForPubrec else state

def MQTT_MAX_PAYLOAD : Nat := 268435455

/-- What `mosquitto_publish` asks of its arguments. -/
def publishCheck (topic : CString) (payload : Bytes) (qos : Nat) : Except MosqCode Unit := do
  reject (qos > 2) (.of .inval)
  reject (topic.bytes = []) (.of .inval)
  reject (mosquittoValidateUtf8 (topic.bytes ++ [0]) topic.bytes.length ≠ some (.ok ()))
    .malformedUtf8
  reject (payload.length > MQTT_MAX_PAYLOAD) (.of .payloadSize)
  (mosquittoPubTopicCheck topic).mapError .of

/-- What `mosquitto_publish` takes, the broker takes. -/
theorem publishCheck_broker {topic : CString} {payload : Bytes} {qos : Nat}
    (h : publishCheck topic payload qos = .ok ()) :
    qos ≤ 2 ∧ topic.bytes ≠ [] ∧ topic.bytes.length ≤ 65535 ∧
      brokerTopicCheck topic.bytes = some (.ok ()) := by
  rw [publishCheck, except_bind_ok] at h
  obtain ⟨_, hqos, h⟩ := h
  rw [except_bind_ok] at h
  obtain ⟨_, hempty, h⟩ := h
  rw [except_bind_ok] at h
  obtain ⟨_, hutf8, h⟩ := h
  rw [except_bind_ok] at h
  obtain ⟨_, -, h⟩ := h
  rw [reject_ok] at hqos hempty hutf8
  have hcheck : mosquittoPubTopicCheck topic = .ok () := by
    rcases hc : mosquittoPubTopicCheck topic with e | ⟨⟩
    · rw [hc] at h
      cases h
    · rfl
  refine ⟨by omega, hempty, (mosquittoPubTopicCheck_ok_iff.mp hcheck).2, ?_⟩
  rw [brokerTopicCheck, not_not.mp hutf8]
  dsimp only
  rw [dif_pos topic.noNul, hcheck]
  rfl

/-- A message that `mosquitto_publish` takes comes to the broker as it was given, whatever
    its id and flags are, if `packet__alloc` takes the packet and the broker its payload:
    the packet says its own length, and `handle__publish` reads the message out of what
    is then in `in_packet`. -/
theorem publish_read {σ : Type} {env : Setup σ} {topic : CString} {payload bytes : Bytes}
    {qos limit : Nat} (h : publishCheck topic payload qos = .ok ()) (mid : UInt16)
    (dup retain : Bool) (hlimit : limit = 0 ∨ payload.length ≤ limit) :
    let p : PublishPacket := {
      dup := dup, qos := qos, retain := retain, mid := mid, topic := topic, payload := payload }
    LaidOut env (publishCommand p) (publishBody p) bytes →
    ∃ lengthBytes body packet', bytes = publishCommand p :: (lengthBytes ++ body) ∧
      Base128.decode 4 (lengthBytes ++ body) = .number body.length body ∧
      readPublish .broker limit (incomingOf (publishCommand p) lengthBytes body) =
        some (.ok (some { p with mid := if qos = 0 then 0 else mid }), packet') := by
  intro p hlaid
  obtain ⟨hqos, hempty, hlength, hcheck⟩ := publishCheck_broker h
  obtain ⟨hlt, hbytes⟩ := hlaid.eq
  have hread : ∃ packet', readPublish .broker limit
      (laidOutIncoming (publishCommand p) (publishBody p)) =
        some (.ok (some { p with mid := if qos = 0 then 0 else mid }), packet') := by
    rw [readPublish_ok (publishCommand_type hqos)]
    refine ⟨topic.bytes, ⟨hqos, fun hzero => if_pos hzero, hempty, hlength, .inl rfl,
      fun _ => hcheck, fun _ => hlimit⟩, rfl, ?_⟩
    -- without QoS the id is not in the packet
    by_cases hzero : qos = 0
    · have hnot : ¬ qos > 0 := by omega
      simp only [publishBody, publishBodyWith, p, if_neg hnot]
    · simp only [publishBody, p, if_neg hzero]
  obtain ⟨packet', hread⟩ := hread
  refine ⟨_, _, packet', hbytes, Base128.decode_encode (by omega) _ (by decide), ?_⟩
  rw [incomingOf_encode hlt]
  exact hread

/-- One byte of payload, in the packet that `send__publish` has laid out. -/
theorem publish_read_plain :
    let p : PublishPacket := {
      dup := false, qos := 0, retain := false, mid := 7, topic := topicA, payload := [9] }
    ∃ lengthBytes body packet', [PUBLISH, 4, 0, 1, 0x61, 9] = PUBLISH :: (lengthBytes ++ body) ∧
      Base128.decode 4 (lengthBytes ++ body) = .number body.length body ∧
      readPublish .broker 1 (incomingOf PUBLISH lengthBytes body) =
        some (.ok (some { p with mid := 0 }), packet') := by
  intro p
  have hchecked : publishCheck topicA [9] 0 = .ok () := by decide
  have hlaid : LaidOut pingSetup PUBLISH [0, 1, 0x61, 9] [PUBLISH, 4, 0, 1, 0x61, 9] :=
    ⟨{ zeroPacket with command := PUBLISH, remainingLength := 4 }, _, _,
      freshMosq () .connected [], _, rfl, rfl, rfl, rfl, rfl⟩
  exact publish_read hchecked 7 false false (.inr (by decide)) hlaid

/-- The message `mosquitto_publish` makes. -/
def newMessage (mid : UInt16) (topic : CString) (payload : Bytes) (qos : Nat) (retain : Bool) :
    OutMessage where
  mid := mid
  topic := topic
  payload := payload
  qos := qos
  retain := retain
  state := .invalid
  dup := false

/-- `mosquitto_publish`. -/
def mosquittoPublish (sends : Sends) (q : OutMessages) (topic : CString) (payload : Bytes)
    (qos : Nat) (retain : Bool) : OutStep :=
  match publishCheck topic payload qos with
  | .error e => { out := q, packets := [], rc := .error e }
  | .ok () =>
    let mid := mosquittoMidGenerate q.lastMid
    let q := { q with lastMid := mid }
    let m := newMessage mid topic payload qos retain
    if qos = 0 then { out := q, packets := sends.place m.packet, rc := sends.rc m.packet }
    else
      -- the state is set behind `message__queue`, before anything reads it
      if (messageQueue q m).2 then
        let m := { m with state := waitState qos m.state }
        { out := (messageQueue q m).1, packets := sends.place m.packet, rc := sends.rc m.packet }
      else { out := (messageQueue q m).1, packets := [], rc := .ok () }

/-! ## Acknowledgements -/

/-- The first message of this id is taken out. -/
def takeMessage (mid : UInt16) : List OutMessage → Option (OutMessage × List OutMessage)
  | [] => none
  | m :: rest =>
    if m.mid = mid then some (m, rest)
    else (takeMessage mid rest).map fun r => (r.1, m :: r.2)

/-- What the second loop of `message__remove` leaves behind. -/
structure Promotion where
  inflight : Int
  messages : List OutMessage
  packets : List MqttPacket
  rc : Except MosqCode Unit

/-- The second loop of `message__remove`: messages that wait are sent, as the limit lets. -/
def promote (sends : Sends) (maxInflight : Int) : Int → List OutMessage → Promotion
  | inflight, [] => { inflight := inflight, messages := [], packets := [], rc := .ok () }
  | inflight, m :: rest =>
    if maxInflight = 0 ∨ inflight < maxInflight then
      if m.qos > 0 ∧ m.state = .invalid then
        let m := { m with state := waitState m.qos m.state }
        match sends.rc m.packet with
        | .error e =>
          { inflight := inflight + 1
            messages := m :: rest
            packets := sends.place m.packet
            rc := .error e }
        | .ok () =>
          let p := promote sends maxInflight (inflight + 1) rest
          { p with messages := m :: p.messages, packets := sends.place m.packet ++ p.packets }
      else
        let p := promote sends maxInflight inflight rest
        { p with messages := m :: p.messages }
    else { inflight := inflight, messages := m :: rest, packets := [], rc := .ok () }

/-- `message__remove` for an outgoing message. -/
def messageRemove (sends : Sends) (q : OutMessages) (mid : UInt16) : OutStep :=
  match takeMessage mid q.messages with
  | none => { out := q, packets := [], rc := .error .notFound }
  | some (m, rest) =>
    let inflight := if m.qos > 0 then q.inflight - 1 else q.inflight
    let p := promote sends q.maxInflight inflight rest
    { out := { q with messages := p.messages, inflight := p.inflight, queueLen := q.queueLen - 1 }
      packets := p.packets
      rc := p.rc }

/-- `message__out_update`. -/
def messageOutUpdate (mid : UInt16) (state : MsgState) : List OutMessage → Option (List OutMessage)
  | [] => none
  | m :: rest =>
    if m.mid = mid then some ({ m with state := state } :: rest)
    else (messageOutUpdate mid state rest).map (m :: ·)

/-- `handle__pubackcomp` of the client, behind reading the id; what `message__delete`
    returns decides about a callback only. -/
def handlePubackcomp (sends : Sends) (q : OutMessages) (mid : UInt16) : OutStep :=
  { messageRemove sends q mid with rc := .ok () }

/-- `handle__pubrec` of the client, behind reading the id: also for an id that is not
    known a PUBREL is sent. -/
def handlePubrec (sends : Sends) (q : OutMessages) (mid : UInt16) : OutStep :=
  { out := { q with
      messages := (messageOutUpdate mid .waitForPubcomp q.messages).getD q.messages }
    packets := sends.place (.pubrel mid)
    rc := sends.rc (.pubrel mid) }

/-! ## Connecting again -/

/-- What `message__retry_check` sends for a message. -/
def retryPacket (m : OutMessage) : Option MqttPacket :=
  match m.state with
  | .publishQos1 | .publishQos2 => some { m with dup := true }.packet
  | .waitForPubrel => some (.pubrec m.mid)
  | .resendPubrel | .waitForPubcomp => some (.pubrel m.mid)
  | _ => none

/-- `message__retry_check`; what the sending returns is not looked at. -/
def messageRetryCheck (sends : Sends) (q : OutMessages) : OutMessages × List MqttPacket :=
  ({ q with messages := q.messages.map fun m =>
      if (retryPacket m).isSome then { m with dup := true } else m },
    q.messages.flatMap fun m => (retryPacket m).elim [] sends.place)

/-- `handle__connack` of the client, behind reading its bytes. -/
def handleConnack (sends : Sends) (q : OutMessages) (result : UInt8) : OutStep :=
  if result = 0 then
    { out := (messageRetryCheck sends q).1
      packets := (messageRetryCheck sends q).2
      rc := .ok () }
  else if result ≤ 5 then { out := q, packets := [], rc := .error .connRefused }
  else { out := q, packets := [], rc := .error (.of .protocol) }

/-- The state `message__reconnect_reset` gives a message that may be in flight. -/
def resetState (qos : Nat) (state : MsgState) : MsgState :=
  if qos = 1 then .publishQos1
  else if qos = 2 then
    if state = .waitForPubrec then .publishQos2
    else if state = .waitForPubcomp then .resendPubrel
    else state
  else state

/-- The loop of `message__reconnect_reset` over the outgoing messages. -/
def resetLoop (maxInflight : Int) : Int → List OutMessage → Int × List OutMessage
  | inflight, [] => (inflight, [])
  | inflight, m :: rest =>
    if maxInflight = 0 ∨ inflight < maxInflight then
      let inflight := if m.qos > 0 then inflight + 1 else inflight
      let r := resetLoop maxInflight inflight rest
      (r.1, { m with state := resetState m.qos m.state } :: r.2)
    else
      let r := resetLoop maxInflight inflight rest
      (r.1, { m with state := .invalid } :: r.2)

/-- `message__reconnect_reset` for the outgoing messages. -/
def messageReconnectReset (q : OutMessages) : OutMessages :=
  let r := resetLoop q.maxInflight 0 q.messages
  { q with inflight := r.1, messages := r.2, queueLen := q.messages.length }

/-! ## The window -/

/-- The messages of `front` are in flight and those of `back` wait: there is place for
    `front`, and none behind it when there is somebody waiting. -/
structure Window (maxInflight : Int) (front back : List OutMessage) : Prop where
  flies : ∀ m ∈ front, m.state ≠ .invalid
  waits : ∀ m ∈ back, m.state = .invalid
  fits : maxInflight = 0 ∨ (front.length : Int) ≤ maxInflight
  full : back ≠ [] → maxInflight ≠ 0 ∧ (front.length : Int) = maxInflight

/-- The first messages are in flight, and the counters say how many. -/
structure OutMessages.Windowed (q : OutMessages) : Prop where
  window : ∃ front back, q.messages = front ++ back ∧ q.inflight = front.length ∧
    Window q.maxInflight front back
  qos : ∀ m ∈ q.messages, m.qos = 1 ∨ m.qos = 2
  length : q.queueLen = q.messages.length

/-- The message with its PUBLISH sent. -/
def OutMessage.flown (m : OutMessage) : OutMessage := { m with state := waitState m.qos m.state }

section Flight

variable {sends : Sends} {q : OutMessages} {m b : OutMessage} {front back rest : List OutMessage}
  {maxInflight inflight : Int} {mid : UInt16}

theorem waitState_ne_invalid {qos : Nat} (h : qos = 1 ∨ qos = 2) (state : MsgState) :
    waitState qos state ≠ .invalid := by
  rcases h with rfl | rfl
  · exact MsgState.noConfusion
  · exact MsgState.noConfusion

/-- The loop passes over what is in flight, as long as there is place. -/
theorem promote_front (hflies : ∀ m ∈ front, m.state ≠ .invalid)
    (hplace : maxInflight = 0 ∨ inflight < maxInflight) :
    promote sends maxInflight inflight (front ++ back) =
      { promote sends maxInflight inflight back with
        messages := front ++ (promote sends maxInflight inflight back).messages } := by
  induction front with
  | nil => rfl
  | cons m front ih =>
    have hm : ¬ (m.qos > 0 ∧ m.state = .invalid) := fun h =>
      hflies m List.mem_cons_self h.2
    rw [List.cons_append, promote, if_pos hplace, if_neg hm,
      ih fun m hm => hflies m (List.mem_cons_of_mem _ hm)]
    rfl

/-- The first message that waits takes the last place. -/
theorem promote_back (hb : b.state = .invalid) (hqos : b.qos = 1 ∨ b.qos = 2)
    (hlast : inflight + 1 = maxInflight) (hmax : maxInflight ≠ 0) :
    (promote sends maxInflight inflight (b :: back)).inflight = inflight + 1 ∧
      (promote sends maxInflight inflight (b :: back)).messages = b.flown :: back ∧
      (promote sends maxInflight inflight (b :: back)).packets = sends.place b.flown.packet := by
  have hplace : maxInflight = 0 ∨ inflight < maxInflight := by omega
  have hnone : ¬ (maxInflight = 0 ∨ inflight + 1 < maxInflight) := by omega
  have hwaits : b.qos > 0 ∧ b.state = .invalid := ⟨by omega, hb⟩
  rw [promote, if_pos hplace, if_pos hwaits]
  dsimp only
  rw [← OutMessage.flown]
  rcases sends.rc b.flown.packet with e | ⟨⟩
  · exact ⟨rfl, rfl, rfl⟩
  · -- there is no place behind it
    have hstop : promote sends maxInflight (inflight + 1) back =
        { inflight := inflight + 1, messages := back, packets := [], rc := .ok () } := by
      cases back with
      | nil => rfl
      | cons c back => rw [promote, if_neg hnone]
    dsimp only
    rw [hstop]
    exact ⟨rfl, rfl, List.append_nil _⟩

/-- The message that is taken is the first of its id. -/
theorem takeMessage_append (hfront : ∀ f ∈ front, f.mid ≠ mid) (hm : m.mid = mid) :
    takeMessage mid (front ++ m :: rest) = some (m, front ++ rest) := by
  induction front with
  | nil => exact if_pos hm
  | cons f front ih =>
    rw [List.cons_append, takeMessage, if_neg (hfront f List.mem_cons_self),
      ih fun f hf => hfront f (List.mem_cons_of_mem _ hf)]
    rfl

theorem messageRemove_maxInflight :
    (messageRemove sends q mid).out.maxInflight = q.maxInflight := by
  rw [messageRemove]
  rcases takeMessage mid q.messages with _ | ⟨m, rest⟩
  · rfl
  · rfl

/-- What an acknowledgement of a message in flight leaves: the message goes, and the first
    one that waits takes its place. -/
theorem messageRemove_flying {before behind : List OutMessage}
    (hq : q.messages = (before ++ m :: behind) ++ back)
    (hinflight : q.inflight = (before ++ m :: behind).length)
    (hwindow : Window q.maxInflight (before ++ m :: behind) back)
    (hqos : ∀ m ∈ q.messages, m.qos = 1 ∨ m.qos = 2) (hmids : (q.messages.map (·.mid)).Nodup) :
    ∃ taken later, (messageRemove sends q m.mid).out.messages = (before ++ behind ++ taken) ++ later ∧
      (messageRemove sends q m.mid).out.inflight = (before ++ behind ++ taken).length ∧
      Window q.maxInflight (before ++ behind ++ taken) later ∧
      (messageRemove sends q m.mid).packets = taken.flatMap (fun b => sends.place b.packet) ∧
      (back = [] ∧ taken = [] ∧ later = [] ∨ ∃ b, back = b :: later ∧ taken = [b.flown]) := by
  have hmem : m ∈ q.messages := by
    rw [hq]
    simp
  have htake : takeMessage m.mid q.messages = some (m, (before ++ behind) ++ back) := by
    rw [hq, List.append_assoc, List.cons_append, List.append_assoc]
    apply takeMessage_append _ rfl
    rw [hq, List.append_assoc, List.map_append, List.nodup_append] at hmids
    intro f hf heq
    exact hmids.2.2 _ (List.mem_map_of_mem hf) m.mid (by simp) heq
  have hpos : m.qos > 0 := by
    have hm := hqos m hmem
    omega
  have hflies : ∀ f ∈ before ++ behind, f.state ≠ .invalid := by
    intro f hf
    apply hwindow.flies
    rw [List.mem_append] at hf ⊢
    exact hf.imp_right (List.mem_cons_of_mem _)
  have hless : ((before ++ m :: behind).length : Int) = (before ++ behind).length + 1 := by
    simp only [List.length_append, List.length_cons]
    omega
  have hplace : q.maxInflight = 0 ∨ q.inflight - 1 < q.maxInflight := by
    have hfits := hwindow.fits
    omega
  rw [messageRemove, htake]
  dsimp only
  rw [if_pos hpos, promote_front hflies hplace]
  -- nobody waits, or the first one that does takes the place
  cases back with
  | nil =>
    refine ⟨[], [], ?_, ?_, ⟨?_, ?_, ?_, ?_⟩, rfl, .inl ⟨rfl, rfl, rfl⟩⟩
    · simp [promote]
    · show q.inflight - 1 = _
      rw [List.append_nil]
      omega
    · rwa [List.append_nil]
    · exact List.forall_mem_nil _
    · rw [List.append_nil]
      have hfits := hwindow.fits
      omega
    · exact fun h => absurd rfl h
  | cons b later =>
    obtain ⟨hmax, hfull⟩ := hwindow.full (List.cons_ne_nil _ _)
    have hb : b ∈ q.messages := by
      rw [hq]
      simp
    -- the limit was exactly used, so there is place for one and no more
    have hlast : q.inflight - 1 + 1 = q.maxInflight := by omega
    obtain ⟨h₁, h₂, h₃⟩ := @promote_back sends b later _ _ (hwindow.waits b List.mem_cons_self)
      (hqos b hb) hlast hmax
    refine ⟨[b.flown], later, ?_, ?_, ⟨?_, ?_, ?_, ?_⟩, ?_, .inr ⟨b, rfl, rfl⟩⟩
    · rw [h₂]
      simp
    · refine h₁.trans ?_
      simp only [List.length_append, List.length_cons, List.length_nil] at hless hfull ⊢
      omega
    · intro f hf
      rcases List.mem_append.mp hf with hf | hf
      · exact hflies f hf
      · rw [List.mem_singleton.mp hf]
        exact waitState_ne_invalid (hqos b hb) _
    · exact fun f hf => hwindow.waits f (List.mem_cons_of_mem _ hf)
    · simp only [List.length_append, List.length_cons, List.length_nil] at hfull ⊢
      omega
    · intro _
      simp only [List.length_append, List.length_cons, List.length_nil] at hfull ⊢
      exact ⟨hmax, by omega⟩
    · rw [h₃]
      simp

/-- Changing messages without taking one into flight or out of it. -/
theorem Window.map {g : OutMessage → OutMessage} (h : Window maxInflight front back)
    (hflies : ∀ m ∈ front, (g m).state ≠ .invalid) (hwaits : ∀ m ∈ back, (g m).state = .invalid) :
    Window maxInflight (front.map g) (back.map g) where
  flies := List.forall_mem_map.mpr hflies
  waits := List.forall_mem_map.mpr hwaits
  fits := by
    rw [List.length_map]
    exact h.fits
  full hne := by
    rw [List.length_map]
    exact h.full fun hnil => hne (by rw [hnil, List.map_nil])

/-- The message that `mosquitto_publish` leaves in the list. -/
def OutMessages.added (q : OutMessages) (topic : CString) (payload : Bytes) (qos : Nat)
    (retain : Bool) : OutMessage :=
  let m := newMessage (mosquittoMidGenerate q.lastMid) topic payload qos retain
  if q.mayFly then m.flown else m

theorem mosquittoPublish_queued {topic : CString} {payload : Bytes} {qos : Nat} {retain : Bool}
    (hcheck : publishCheck topic payload qos = .ok ()) (hqos : qos ≠ 0) :
    (mosquittoPublish sends q topic payload qos retain).out = { q with
      messages := q.messages ++ [q.added topic payload qos retain]
      inflight := if q.mayFly then q.inflight + 1 else q.inflight
      lastMid := mosquittoMidGenerate q.lastMid
      queueLen := q.queueLen + 1 } ∧
    (mosquittoPublish sends q topic payload qos retain).packets =
      if q.mayFly then sends.place (q.added topic payload qos retain).packet else [] := by
  have hpos : qos > 0 := Nat.pos_of_ne_zero hqos
  rw [mosquittoPublish, hcheck]
  dsimp only
  rw [if_neg hqos]
  by_cases hfly : q.mayFly
  · have hqueue : ∀ m : OutMessage, m.qos = qos →
        messageQueue { q with lastMid := mosquittoMidGenerate q.lastMid } m =
          ({ q with
            messages := q.messages ++ [m]
            inflight := q.inflight + 1
            lastMid := mosquittoMidGenerate q.lastMid
            queueLen := q.queueLen + 1 }, true) := by
      intro m hm
      rw [messageQueue, if_pos (by omega)]
      exact if_pos hfly
    rw [hqueue _ rfl, if_pos rfl, hqueue _ rfl, if_pos hfly, if_pos hfly, OutMessages.added,
      if_pos hfly]
    exact ⟨rfl, rfl⟩
  · have hqueue : ∀ m : OutMessage, m.qos = qos →
        messageQueue { q with lastMid := mosquittoMidGenerate q.lastMid } m =
          ({ q with
            messages := q.messages ++ [m]
            lastMid := mosquittoMidGenerate q.lastMid
            queueLen := q.queueLen + 1 }, false) := by
      intro m hm
      rw [messageQueue, if_pos (by omega)]
      exact if_neg hfly
    rw [hqueue _ rfl, if_neg Bool.false_ne_true, if_neg hfly, if_neg hfly, OutMessages.added,
      if_neg hfly]
    exact ⟨rfl, rfl⟩

/-- The loop that resets, over messages that all have their place. -/
theorem resetLoop_front (hqos : ∀ m ∈ front, m.qos = 1 ∨ m.qos = 2)
    (hplace : maxInflight = 0 ∨ inflight + front.length ≤ maxInflight) :
    resetLoop maxInflight inflight (front ++ back) =
      ((resetLoop maxInflight (inflight + front.length) back).1,
        front.map (fun m => { m with state := resetState m.qos m.state }) ++
          (resetLoop maxInflight (inflight + front.length) back).2) := by
  induction front generalizing inflight with
  | nil => simp
  | cons m front ih =>
    have hpos : m.qos > 0 := by
      have hm := hqos m List.mem_cons_self
      omega
    rw [List.length_cons] at hplace
    have hnext : inflight + 1 + (front.length : Int) =
        inflight + ((front.length + 1 : Nat) : Int) := by
      omega
    rw [List.cons_append, resetLoop, if_pos (by omega)]
    dsimp only
    rw [if_pos hpos, ih (fun m hm => hqos m (List.mem_cons_of_mem _ hm)) (by omega), hnext]
    rfl

/-- And over messages for which there is none. -/
theorem resetLoop_back (hmax : maxInflight ≠ 0) (hfull : maxInflight ≤ inflight) :
    resetLoop maxInflight inflight back =
      (inflight, back.map fun m => { m with state := .invalid }) := by
  induction back with
  | nil => rfl
  | cons m back ih =>
    rw [resetLoop, if_neg (by omega), ih]
    rfl

/-- `message__reconnect_reset` keeps what is in flight. -/
theorem messageReconnectReset_eq (hq : q.messages = front ++ back)
    (hwindow : Window q.maxInflight front back) (hqos : ∀ m ∈ q.messages, m.qos = 1 ∨ m.qos = 2) :
    messageReconnectReset q = { q with
      messages := front.map (fun m => { m with state := resetState m.qos m.state }) ++ back
      inflight := front.length
      queueLen := q.messages.length } := by
  have hplace : q.maxInflight = 0 ∨ 0 + (front.length : Int) ≤ q.maxInflight := by
    have hfits := hwindow.fits
    omega
  have hqos' : ∀ m ∈ front, m.qos = 1 ∨ m.qos = 2 := fun m hm =>
    hqos m (by rw [hq]; exact List.mem_append_left _ hm)
  have hback : resetLoop q.maxInflight (0 + front.length) back = ((front.length : Int), back) := by
    cases hb : back with
    | nil => simp [resetLoop]
    | cons b later =>
      rw [← hb]
      obtain ⟨hmax, hfull⟩ := hwindow.full (by rw [hb]; exact List.cons_ne_nil _ _)
      have hsame : (back.map fun m => { m with state := .invalid }) = back := by
        conv_rhs => rw [← List.map_id back]
        refine List.map_congr_left fun m hm => ?_
        rw [← hwindow.waits m hm]
        rfl
      rw [resetLoop_back hmax (by omega), hsame, zero_add]
  rw [messageReconnectReset, hq, resetLoop_front hqos' hplace, hback]

theorem resetState_ne_invalid {qos : Nat} {state : MsgState} (h : state ≠ .invalid) :
    resetState qos state ≠ .invalid := by
  rw [resetState]
  split_ifs
  · exact MsgState.noConfusion
  · exact MsgState.noConfusion
  · exact MsgState.noConfusion
  · exact h
  · exact h

/-- A new state for the message of this id. -/
def withState (mid : UInt16) (state : MsgState) (m : OutMessage) : OutMessage :=
  if m.mid = mid then { m with state := state } else m

theorem messageOutUpdate_eq {messages : List OutMessage} {state : MsgState}
    (hmids : (messages.map (·.mid)).Nodup) :
    (messageOutUpdate mid state messages).getD messages = messages.map (withState mid state) := by
  induction messages with
  | nil => rfl
  | cons m messages ih =>
    rw [List.map_cons, List.nodup_cons] at hmids
    rw [messageOutUpdate, List.map_cons, withState]
    by_cases hm : m.mid = mid
    · have hrest : messages.map (withState mid state) = messages := by
        conv_rhs => rw [← List.map_id messages]
        refine List.map_congr_left fun f hf => if_neg fun heq => ?_
        exact hmids.1 (List.mem_map.mpr ⟨f, hf, heq.trans hm.symm⟩)
      rw [if_pos hm, if_pos hm, Option.getD_some, hrest]
    · rw [if_neg hm, if_neg hm, ← ih hmids.2]
      cases messageOutUpdate mid state messages <;> rfl

end Flight

/-! ## Runs -/

inductive OutEvent where
  | publish (topic : CString) (payload : Bytes) (qos : Nat) (retain : Bool)
  | pubackcomp (mid : UInt16)
  | pubrec (mid : UInt16)
  | connack (result : UInt8)
  | reconnect

/-- A message of this id is in flight. -/
def OutMessages.Flying (q : OutMessages) (mid : UInt16) : Prop :=
  ∃ m ∈ q.messages, m.mid = mid ∧ m.state ≠ .invalid

/-- What the client does to its messages.  No id is given out while it is in use, and only
    messages in flight are acknowledged. -/
inductive OutRunStep : OutMessages → OutEvent → OutMessages → Prop
  | publish {q sends topic payload qos retain}
      (fresh : mosquittoMidGenerate q.lastMid ∉ q.messages.map (·.mid)) :
      OutRunStep q (.publish topic payload qos retain)
        (mosquittoPublish sends q topic payload qos retain).out
  | pubackcomp {q sends mid} (flying : q.Flying mid) :
      OutRunStep q (.pubackcomp mid) (handlePubackcomp sends q mid).out
  | pubrec {q sends mid} (flying : q.Flying mid) :
      OutRunStep q (.pubrec mid) (handlePubrec sends q mid).out
  | connack {q sends result} : OutRunStep q (.connack result) (handleConnack sends q result).out
  | reconnect {q} : OutRunStep q .reconnect (messageReconnectReset q)

/-- What holds between the calls. -/
structure OutMessages.Sound (q : OutMessages) : Prop extends OutMessages.Windowed q where
  mids : (q.messages.map (·.mid)).Nodup

section Steps

variable {sends : Sends} {q : OutMessages}

/-- Changing messages in place keeps a sound list, if those in flight are the same. -/
theorem OutMessages.Sound.map {q' : OutMessages} {g : OutMessage → OutMessage} (h : q.Sound)
    (hq' : q' = { q with messages := q.messages.map g })
    (hmid : ∀ m ∈ q.messages, (g m).mid = m.mid) (hqos : ∀ m ∈ q.messages, (g m).qos = m.qos)
    (hstate : ∀ m ∈ q.messages, (g m).state = .invalid ↔ m.state = .invalid) : q'.Sound := by
  obtain ⟨front, back, hsplit, hinflight, hwindow⟩ := h.window
  subst hq'
  refine ⟨⟨⟨front.map g, back.map g, ?_, ?_, ?_⟩, ?_, ?_⟩, ?_⟩
  · rw [hsplit, List.map_append]
  · rw [List.length_map]
    exact hinflight
  · refine hwindow.map (fun m hm => ?_) fun m hm => ?_
    · have hmem : m ∈ q.messages := by
        rw [hsplit]
        exact List.mem_append_left _ hm
      rw [Ne, hstate m hmem]
      exact hwindow.flies m hm
    · have hmem : m ∈ q.messages := by
        rw [hsplit]
        exact List.mem_append_right _ hm
      rw [hstate m hmem]
      exact hwindow.waits m hm
  · intro m hm
    obtain ⟨n, hn, rfl⟩ := List.mem_map.mp hm
    rw [hqos n hn]
    exact h.qos n hn
  · show q.queueLen = ((q.messages.map g).length : Int)
    rw [List.length_map]
    exact h.length
  · have hmids : q.messages.map ((·.mid) ∘ g) = q.messages.map (·.mid) := List.map_congr_left hmid
    rw [List.map_map, hmids]
    exact h.mids

theorem publishCheck_qos {topic : CString} {payload : Bytes} {qos : Nat}
    (h : publishCheck topic payload qos = .ok ()) : qos ≤ 2 := by
  rw [publishCheck, except_bind_ok] at h
  obtain ⟨_, hqos, _⟩ := h
  rw [reject_ok] at hqos
  omega

theorem added_qos {topic : CString} {payload : Bytes} {qos : Nat} {retain : Bool} :
    (q.added topic payload qos retain).qos = qos := by
  rw [OutMessages.added]
  split_ifs <;> rfl

theorem added_mid {topic : CString} {payload : Bytes} {qos : Nat} {retain : Bool} :
    (q.added topic payload qos retain).mid = mosquittoMidGenerate q.lastMid := by
  rw [OutMessages.added]
  split_ifs <;> rfl

theorem sound_publish {topic : CString} {payload : Bytes} {qos : Nat} {retain : Bool} (h : q.Sound)
    (fresh : mosquittoMidGenerate q.lastMid ∉ q.messages.map (·.mid)) :
    (mosquittoPublish sends q topic payload qos retain).out.Sound := by
  rcases hcheck : publishCheck topic payload qos with e | ⟨⟩
  · rw [mosquittoPublish, hcheck]
    exact h
  -- without QoS only the counter of the ids moves
  · by_cases hqos : qos = 0
    · rw [mosquittoPublish, hcheck]
      dsimp only
      rw [if_pos hqos]
      exact ⟨⟨h.window, h.qos, h.length⟩, h.mids⟩
    · obtain ⟨front, back, hsplit, hinflight, hwindow⟩ := h.window
      have hle := publishCheck_qos hcheck
      rw [(mosquittoPublish_queued hcheck hqos).1]
      refine ⟨⟨?_, fun m hm => ?_, ?_⟩, ?_⟩
      · by_cases hfly : q.mayFly
        · -- there is place, so nobody waits
          have hback : back = [] := by
            by_contra hne
            obtain ⟨hmax, hfull⟩ := hwindow.full hne
            rcases hfly with hzero | hless
            · exact hmax hzero
            · omega
          subst hback
          refine ⟨front ++ [q.added topic payload qos retain], [], ?_, ?_, ⟨?_, ?_, ?_, ?_⟩⟩
          · simp [hsplit]
          · show (if q.mayFly then q.inflight + 1 else q.inflight) = _
            rw [if_pos hfly, List.length_append]
            simp [hinflight]
          · intro m hm
            rcases List.mem_append.mp hm with hm | hm
            · exact hwindow.flies m hm
            · rw [List.mem_singleton.mp hm, OutMessages.added, if_pos hfly]
              apply waitState_ne_invalid
              show qos = 1 ∨ qos = 2
              omega
          · exact List.forall_mem_nil _
          · rw [List.length_append]
            rcases hfly with hzero | hless
            · exact .inl hzero
            · right
              show (front.length + 1 : Nat) ≤ q.maxInflight
              omega
          · exact fun hne => absurd rfl hne
        -- the limit is used up, so the new message waits at the end
        · have hfull : q.maxInflight ≠ 0 ∧ q.inflight = q.maxInflight := by
            rw [OutMessages.mayFly, not_or] at hfly
            have hfits := hwindow.fits
            refine ⟨hfly.1, ?_⟩
            omega
          refine ⟨front, back ++ [q.added topic payload qos retain], ?_, ?_, ⟨hwindow.flies, ?_,
            hwindow.fits, ?_⟩⟩
          · simp [hsplit]
          · show (if q.mayFly then q.inflight + 1 else q.inflight) = _
            rw [if_neg hfly]
            exact hinflight
          · intro m hm
            rcases List.mem_append.mp hm with hm | hm
            · exact hwindow.waits m hm
            · rw [List.mem_singleton.mp hm, OutMessages.added, if_neg hfly]
              rfl
          · intro _
            exact ⟨hfull.1, hinflight.symm.trans hfull.2⟩
      · rcases List.mem_append.mp hm with hm | hm
        · exact h.qos m hm
        · rw [List.mem_singleton.mp hm, added_qos]
          omega
      · show q.queueLen + 1 = ((q.messages ++ [_]).length : Int)
        rw [List.length_append, h.length]
        rfl
      · rw [List.map_append, List.nodup_append]
        refine ⟨h.mids, List.nodup_singleton _, ?_⟩
        intro mid hmid mid' hmid'
        rw [List.map_singleton, List.mem_singleton, added_mid] at hmid'
        rintro rfl
        exact fresh (hmid' ▸ hmid)

theorem takeMessage_flying {mid : UInt16} (h : q.Sound) (flying : q.Flying mid) :
    ∃ before m behind back, m.mid = mid ∧ m.state ≠ .invalid ∧
      q.messages = (before ++ m :: behind) ++ back ∧
      q.inflight = (before ++ m :: behind).length ∧
      Window q.maxInflight (before ++ m :: behind) back := by
  obtain ⟨front, back, hsplit, hinflight, hwindow⟩ := h.window
  obtain ⟨m, hm, hmid, hstate⟩ := flying
  have hfront : m ∈ front := by
    rw [hsplit] at hm
    rcases List.mem_append.mp hm with hm | hm
    · exact hm
    · exact absurd (hwindow.waits m hm) hstate
  obtain ⟨before, behind, rfl⟩ := List.append_of_mem hfront
  exact ⟨before, m, behind, back, hmid, hstate, hsplit, hinflight, hwindow⟩

/-- What an acknowledgement leaves, as a whole: the message goes, and one that waits may
    be in flight instead. -/
theorem messageRemove_eq {mid : UInt16} (h : q.Sound) (flying : q.Flying mid) :
    (messageRemove sends q mid).out.Sound ∧
    ∃ g : OutMessage → OutMessage,
      (messageRemove sends q mid).out.messages = (q.messages.filter fun m => m.mid ≠ mid).map g ∧
      ((∀ m, g m = m) ∧ (messageRemove sends q mid).packets = [] ∨
        ∃ b ∈ q.messages, b.mid ≠ mid ∧ b.state = .invalid ∧
          (∀ m ∈ q.messages, g m = if m.mid = b.mid then m.flown else m) ∧
          (messageRemove sends q mid).packets = sends.place b.flown.packet) := by
  obtain ⟨before, m, behind, back, rfl, hstate, hsplit, hinflight, hwindow⟩ :=
    takeMessage_flying h flying
  obtain ⟨taken, later, hmessages, hinflight', hwindow', hpackets, hcases⟩ :=
    @messageRemove_flying sends q m back before behind hsplit hinflight hwindow h.qos h.mids
  have hmids := h.mids
  rw [hsplit] at hmids
  -- the other messages have other ids
  have hother : ∀ n ∈ before ++ behind ++ back, n.mid ≠ m.mid := by
    intro n hn heq
    simp only [List.append_assoc, List.cons_append, List.map_append, List.map_cons,
      List.nodup_append, List.nodup_cons, List.mem_append, List.mem_map, List.mem_cons] at hmids hn
    rcases hn with hn | hn | hn
    · exact hmids.2.2 n.mid ⟨n, hn, rfl⟩ m.mid (.inl rfl) heq
    · exact hmids.2.1.1 (.inl ⟨n, hn, heq⟩)
    · exact hmids.2.1.1 (.inr ⟨n, hn, heq⟩)
  have hfilter : (q.messages.filter fun n => n.mid ≠ m.mid) = before ++ behind ++ back := by
    have hsplit' : q.messages = before ++ [m] ++ (behind ++ back) := by simp [hsplit]
    rw [hsplit', List.filter_append, List.filter_append]
    have hkeep : ∀ l : List OutMessage, (∀ n ∈ l, n.mid ≠ m.mid) →
        (l.filter fun n => n.mid ≠ m.mid) = l := fun l hl =>
      List.filter_eq_self.mpr fun n hn => by simpa using hl n hn
    rw [hkeep before fun n hn => hother n (by simp [hn]),
      hkeep (behind ++ back) fun n hn => hother n (by
        rw [List.append_assoc]
        exact List.mem_append_right _ hn)]
    simp
  have hsound : ∀ n ∈ before ++ behind ++ back, n ∈ q.messages := by
    intro n hn
    rw [← hfilter] at hn
    exact (List.mem_filter.mp hn).1
  -- removing a message leaves the ids distinct
  have hmids' : ((before ++ behind ++ back).map (·.mid)).Nodup := by
    rw [← hfilter]
    exact h.mids.sublist (List.filter_sublist.map _)
  have hlength : (messageRemove sends q m.mid).out.queueLen =
      ((before ++ behind ++ taken ++ later).length : Int) := by
    have hqueue : (messageRemove sends q m.mid).out.queueLen = q.queueLen - 1 := by
      have htake : takeMessage m.mid q.messages ≠ none := by
        have hm : takeMessage m.mid ((before ++ m :: behind) ++ back) =
            some (m, before ++ (behind ++ back)) := by
          rw [List.append_assoc, List.cons_append]
          exact takeMessage_append (fun f hf => hother f (by simp [hf])) rfl
        rw [hsplit, hm]
        exact Option.some_ne_none _
      rw [messageRemove]
      rcases ht : takeMessage m.mid q.messages with _ | ⟨n, rest⟩
      · exact absurd ht htake
      · rfl
    rw [hqueue, h.length, hsplit]
    -- one message less, whether a waiting one takes its place or not
    rcases hcases with ⟨rfl, rfl, rfl⟩ | ⟨b, rfl, rfl⟩
    · simp
      omega
    · simp
      omega
  rw [hfilter]
  rcases hcases with ⟨rfl, rfl, rfl⟩ | ⟨b, rfl, rfl⟩
  · refine ⟨⟨⟨⟨_, _, hmessages, hinflight', ?_⟩, ?_, ?_⟩, ?_⟩, id, ?_, .inl ⟨fun _ => rfl, hpackets⟩⟩
    · rw [messageRemove_maxInflight]
      exact hwindow'
    · rw [hmessages]
      exact fun n hn => h.qos n (hsound n (by simpa using hn))
    · rw [hmessages]
      exact hlength
    · rw [hmessages]
      simpa using hmids'
    · rw [hmessages]
      simp
  · have hb : b ∈ before ++ behind ++ b :: later := by simp
    -- ids are distinct, so changing the one with the id of `b` is changing `b`
    have hmap : (before ++ behind ++ b :: later).map (fun n =>
        if n.mid = b.mid then n.flown else n) = before ++ behind ++ [b.flown] ++ later := by
      rw [List.map_append, List.nodup_append, List.map_cons, List.nodup_cons] at hmids'
      have hsame : ∀ l : List OutMessage, (∀ n ∈ l, n.mid ≠ b.mid) →
          l.map (fun n => if n.mid = b.mid then n.flown else n) = l := by
        intro l hl
        conv_rhs => rw [← List.map_id l]
        exact List.map_congr_left fun n hn => if_neg (hl n hn)
      rw [List.map_append, List.map_cons, if_pos rfl,
        hsame (before ++ behind) fun n hn heq =>
          hmids'.2.2 n.mid (List.mem_map_of_mem hn) b.mid List.mem_cons_self heq,
        hsame later fun n hn heq => hmids'.2.1.1 (List.mem_map.mpr ⟨n, hn, heq⟩)]
      simp
    refine ⟨⟨⟨⟨_, _, hmessages, hinflight', ?_⟩, ?_, ?_⟩, ?_⟩,
      fun n => if n.mid = b.mid then n.flown else n, ?_,
      .inr ⟨b, hsound b hb, hother b hb, hwindow.waits b List.mem_cons_self, fun _ _ => rfl, ?_⟩⟩
    · rw [messageRemove_maxInflight]
      exact hwindow'
    · rw [hmessages, ← hmap]
      intro n hn
      obtain ⟨k, hk, rfl⟩ := List.mem_map.mp hn
      have hqos := h.qos k (hsound k hk)
      split_ifs
      · exact hqos
      · exact hqos
    · rw [hmessages]
      exact hlength
    · rw [hmessages, ← hmap, List.map_map]
      have hmid : ((fun m : OutMessage => m.mid) ∘ fun n =>
          if n.mid = b.mid then n.flown else n) = fun n => n.mid := by
        funext n
        rw [Function.comp_apply]
        split_ifs <;> rfl
      rw [hmid]
      exact hmids'
    · rw [hmessages, hmap]
    · rw [hpackets, List.flatMap_singleton]

theorem sound_pubrec {mid : UInt16} (h : q.Sound) (flying : q.Flying mid) :
    (handlePubrec sends q mid).out.Sound := by
  refine h.map (by rw [handlePubrec, messageOutUpdate_eq h.mids]) ?_ ?_ ?_
  · intro m _
    rw [withState]
    split_ifs <;> rfl
  · intro m _
    rw [withState]
    split_ifs <;> rfl
  · intro m hm
    rw [withState]
    split_ifs with hmid
    · -- the only message of this id is in flight
      obtain ⟨n, hn, hnmid, hstate⟩ := flying
      obtain rfl : m = n :=
        List.inj_on_of_nodup_map h.mids hm hn (hmid.trans hnmid.symm)
      exact iff_of_false not_false hstate
    · rfl

theorem sound_connack {result : UInt8} (h : q.Sound) : (handleConnack sends q result).out.Sound := by
  rw [handleConnack]
  split_ifs
  · refine h.map rfl ?_ ?_ ?_
    · intro m _
      split_ifs <;> rfl
    · intro m _
      split_ifs <;> rfl
    · intro m _
      split_ifs <;> rfl
  · exact h
  · exact h

theorem sound_reconnect (h : q.Sound) : (messageReconnectReset q).Sound := by
  obtain ⟨front, back, hsplit, hinflight, hwindow⟩ := h.window
  have hqos : ∀ m ∈ front, m.qos = 1 ∨ m.qos = 2 := fun m hm =>
    h.qos m (by rw [hsplit]; exact List.mem_append_left _ hm)
  rw [messageReconnectReset_eq hsplit hwindow h.qos]
  refine ⟨⟨⟨_, back, rfl, ?_, ⟨?_, hwindow.waits, ?_, ?_⟩⟩, fun m hm => ?_, ?_⟩, ?_⟩
  · rw [List.length_map]
  · intro m hm
    obtain ⟨n, hn, rfl⟩ := List.mem_map.mp hm
    exact resetState_ne_invalid (hwindow.flies n hn)
  · rw [List.length_map]
    exact hwindow.fits
  · rw [List.length_map]
    exact hwindow.full
  · rcases List.mem_append.mp hm with hm | hm
    · obtain ⟨n, hn, rfl⟩ := List.mem_map.mp hm
      exact hqos n hn
    · exact h.qos m (by rw [hsplit]; exact List.mem_append_right _ hm)
  · rw [hsplit]
    simp
  · have hmids := h.mids
    rw [hsplit, List.map_append] at hmids
    rw [List.map_append, List.map_map]
    exact hmids

end Steps

/-- What a client starts with that lets so many messages fly. -/
def freshMessages (limit : Nat) : OutMessages := { newOutMessages with maxInflight := limit }

theorem freshMessages_sound (limit : Nat) : (freshMessages limit).Sound := by
  refine ⟨⟨⟨[], [], rfl, rfl, ⟨?_, ?_, ?_, ?_⟩⟩, ?_, rfl⟩, List.nodup_nil⟩
  · exact List.forall_mem_nil _
  · exact List.forall_mem_nil _
  · right
    show (0 : Int) ≤ limit
    omega
  · exact fun h => absurd rfl h
  · exact List.forall_mem_nil _

theorem OutRunStep.sound {q q' : OutMessages} {event : OutEvent} (h : q.Sound)
    (step : OutRunStep q event q') : q'.Sound := by
  cases step with
  | publish fresh => exact sound_publish h fresh
  | pubackcomp flying => exact (messageRemove_eq h flying).1
  | pubrec flying => exact sound_pubrec h flying
  | connack => exact sound_connack h
  | reconnect => exact sound_reconnect h

/-- In every run the first messages of the list are in flight and the others wait, the
    counters say how many, and nobody waits while there is place. -/
theorem windowed_run {limit : Nat} {events : List OutEvent} {q : OutMessages}
    (run : Run OutRunStep (freshMessages limit) events q) : q.Sound := by
  apply run.invariant (freshMessages_sound limit)
  intro q event q' h step
  exact step.sound h

/-- Two messages for one place, and a connection that is lost. -/
theorem windowed_run_two :
    let sends : Sends := fun _ => { placed := false, rc := .error .noConn }
    let one := (mosquittoPublish sends (freshMessages 1) siteTopic [] 2 false).out
    (messageReconnectReset (mosquittoPublish sends one siteTopic [] 1 false).out).Sound := by
  intro sends one
  have first : OutRunStep (freshMessages 1) (.publish siteTopic [] 2 false) one :=
    .publish (List.not_mem_nil)
  have second : OutRunStep one (.publish siteTopic [] 1 false)
      (mosquittoPublish sends one siteTopic [] 1 false).out := .publish (by decide)
  exact windowed_run (((Run.single first).snoc second).snoc .reconnect)

end WeeveMQ
