/-
  WeeveMQ.MqttPackets

  The packets of a publication: how `send_publish.c` and `send_mosq.c` lay them
  out, and how the handlers of both builds read them.

  A packet is laid out as its command and the bytes behind the fixed header,
  and read from what `handle__packet` finds in `in_packet`.  An allocation for a
  topic or a payload does not fail here.

  - `packetReadString_ok` and its like: a function that reads succeeds exactly on what
    the one that writes lays out.
  - `readPublish_exact`: reading a PUBLISH always returns, and both builds take exactly
    the packets that are laid out for a message they can read.
-/

import Mathlib.Data.List.TakeWhile
import WeeveMQ.ReceivePaths
import WeeveMQ.Topics
import WeeveMQ.Utf8

namespace WeeveMQ

open Call

/-! ## Packets -/

/-- The fields of a PUBLISH.  Without QoS there is no message id in the packet. -/
structure PublishPacket where
  dup : Bool
  qos : Nat
  retain : Bool
  mid : UInt16
  topic : CString
  payload : Bytes
  deriving DecidableEq

/-- The packets of a connection and of the QoS handshakes. -/
inductive MqttPacket where
  | connect
  | connack (result : UInt8)
  | publish (p : PublishPacket)
  | puback (mid : UInt16)
  | pubrec (mid : UInt16)
  | pubrel (mid : UInt16)
  | pubcomp (mid : UInt16)
  deriving DecidableEq

/-! ## Writing -/

/-- `packet__write_uint16`. -/
def packetWriteUint16 (word : UInt16) : Bytes := [(word >>> 8).toUInt8, word.toUInt8]

/-- `packet__write_string`; the length is taken as 16 bits. -/
def packetWriteString (str : Bytes) : Bytes :=
  packetWriteUint16 (UInt16.ofNat str.length) ++ str.take (UInt16.ofNat str.length).toNat

/-- The command of `send__real_publish`. -/
def publishCommand (p : PublishPacket) : UInt8 :=
  PUBLISH ||| (p.dup.toUInt8 <<< 3) ||| (UInt8.ofNat p.qos <<< 1) ||| p.retain.toUInt8

/-- What is behind the header of a PUBLISH, with these bytes as its topic. -/
def publishBodyWith (topic : Bytes) (p : PublishPacket) : Bytes :=
  packetWriteString topic ++ (if p.qos > 0 then packetWriteUint16 p.mid else []) ++ p.payload

/-- The bytes `send__real_publish` writes behind the header, if `packet__alloc` takes their
    number. -/
def publishBody (p : PublishPacket) : Bytes := publishBodyWith p.topic.bytes p

/-! ## Reading -/

/-- A byte of the payload; there is nothing behind it. -/
def payloadByte (index : Nat) : Call Incoming MosqError UInt8 := do
  let packet ← get
  match packet.payload[index]? with
  | none => fault
  | some byte => return byte

def advance (count : Nat) : Call Incoming MosqError Unit :=
  modify fun packet => { packet with pos := packet.pos + count }

/-- `packet__read_bytes`. -/
def packetReadBytes (count : Nat) : Call Incoming MosqError Bytes := do
  let packet ← get
  failIf (packet.pos + count > packet.remainingLength) .protocol
  if packet.pos + count ≤ packet.payload.length then
    advance count
    return (packet.payload.drop packet.pos).take count
  else fault

/-- `packet__read_uint16`. -/
def packetReadUint16 : Call Incoming MosqError UInt16 := do
  let packet ← get
  failIf (packet.pos + 2 > packet.remainingLength) .protocol
  let msb ← payloadByte packet.pos
  advance 1
  let lsb ← payloadByte (packet.pos + 1)
  advance 1
  return (msb.toUInt16 <<< 8) + lsb.toUInt16

/-- `packet__read_string`. -/
def packetReadString : Call Incoming MosqError Bytes := do
  let slen ← packetReadUint16
  packetReadBytes slen.toNat

/-- What the broker asks of a topic before it reads on: the check of the encoding, and
    the one of the topic.  A topic with a NUL in it does not get to the second one. -/
def brokerTopicCheck (topic : Bytes) : Option (Except MosqError Unit) :=
  match mosquittoValidateUtf8 (topic ++ [0]) topic.length with
  | none => none
  | some (.error _) => some (.error .nomem)
  | some (.ok ()) =>
    if h : 0 ∉ topic then
      some ((mosquittoPubTopicCheck ⟨topic, h⟩).mapError fun _ => .nomem)
    else some (.error .nomem)

/-! ### PUBLISH -/

/-- The string in a buffer with a terminator behind it: it ends in front of the first NUL. -/
def CString.ofBuffer (buffer : Bytes) : CString where
  bytes := stringContent buffer
  noNul := by
    intro hmem
    have hne := List.all_eq_true.mp List.all_takeWhile _ hmem
    exact absurd rfl (of_decide_eq_true hne)

def commandDup (header : UInt8) : Bool := (header &&& 0x08) >>> 3 ≠ 0

def commandQos (header : UInt8) : Nat := ((header &&& 0x06) >>> 1).toNat

def commandRetain (header : UInt8) : Bool := header &&& 0x01 ≠ 0

/-- The message id of a PUBLISH. -/
def readPublishMid (qos : Nat) : Call Incoming MosqError UInt16 :=
  if qos > 0 then packetReadUint16 else pure 0

/-- How `handle__publish` of a build reads a PUBLISH.  The topic is handed on as a string.
    The broker returns 1, which is the value of `MOSQ_ERR_NOMEM`, and goes on without a
    message when the payload is too large. -/
def readPublish (role : Role) (messageSizeLimit : Nat) :
    Call Incoming MosqError (Option PublishPacket) := do
  let header := (← get).command
  failIf (role = .broker ∧ commandQos header = 3) .nomem
  let topic ← mapErr (fun e => if role = .broker then .nomem else e) packetReadString
  failIf (topic.length = 0) (if role = .broker then .nomem else .protocol)
  onlyIf (role = .broker) (ofOutcome (brokerTopicCheck topic))
  let mid ← readPublishMid (commandQos header)
  let packet ← get
  let payloadlen := packet.remainingLength - packet.pos
  if role = .broker ∧ messageSizeLimit ≠ 0 ∧ payloadlen > messageSizeLimit then return none
  else
    let payload ← packetReadBytes payloadlen
    failIf (role = .client ∧ commandQos header = 3) .protocol
    return some {
      dup := commandDup header
      qos := commandQos header
      retain := commandRetain header
      mid := mid
      topic := .ofBuffer topic
      payload := payload }

/-! ## Reading what was written

Each function that reads succeeds exactly on what the one that writes lays out. -/

/-- All of the packet is there, and nothing behind it has been read. -/
structure Incoming.Whole (packet : Incoming) : Prop where
  length : packet.remainingLength = packet.payload.length
  pos : packet.pos ≤ packet.payload.length

/-- The bytes that have not been read. -/
def Incoming.unread (packet : Incoming) : Bytes := packet.payload.drop packet.pos

/-- The packet behind so many bytes more. -/
def Incoming.past (packet : Incoming) (count : Nat) : Incoming :=
  { packet with pos := packet.pos + count }

section Reading

variable {packet packet' : Incoming} {role : Role}

theorem Incoming.unread_past (packet : Incoming) (count : Nat) :
    (packet.past count).unread = packet.unread.drop count := by
  rw [Incoming.unread, Incoming.unread, List.drop_drop]
  rfl

theorem word_bytes (msb lsb : UInt8) :
    packetWriteUint16 ((msb.toUInt16 <<< 8) + lsb.toUInt16) = [msb, lsb] := by
  have hmsb := msb.toNat_lt
  have hlsb := lsb.toNat_lt
  rw [packetWriteUint16]
  congr 1
  · apply UInt8.toNat_inj.mp
    simp
    omega
  · congr 1
    apply UInt8.toNat_inj.mp
    simp
    omega

theorem bytes_word (word : UInt16) :
    ((word >>> 8).toUInt8.toUInt16 <<< 8) + word.toUInt8.toUInt16 = word := by
  have hword := word.toNat_lt
  apply UInt16.toNat_inj.mp
  simp
  omega

theorem Incoming.past_past (count count' : Nat) :
    (packet.past count).past count' = packet.past (count + count') := by
  rw [Incoming.past, Incoming.past, Incoming.past, Nat.add_assoc]

theorem Incoming.Whole.past (h : packet.Whole) {bytes rest : Bytes}
    (hunread : packet.unread = bytes ++ rest) : (packet.past bytes.length).Whole := by
  refine ⟨h.length, ?_⟩
  have hlength : packet.unread.length = packet.payload.length - packet.pos := List.length_drop
  rw [hunread, List.length_append] at hlength
  have hpos := h.pos
  show packet.pos + bytes.length ≤ packet.payload.length
  omega

theorem advance_apply (count : Nat) : advance count packet = some (.ok (), packet.past count) := rfl

theorem packetReadBytes_ok (h : packet.Whole) {count : Nat} {bytes : Bytes} :
    packetReadBytes count packet = some (.ok bytes, packet') ↔
      bytes.length = count ∧ (∃ rest, packet.unread = bytes ++ rest) ∧
        packet' = packet.past count := by
  have hlength : packet.unread.length = packet.payload.length - packet.pos := List.length_drop
  rw [packetReadBytes, bind_of_ok get_apply]
  by_cases hlong : packet.pos + count > packet.remainingLength
  · -- more is asked for than there is
    rw [bind_of_error (failIf_error.mpr ⟨hlong, rfl, rfl⟩)]
    refine iff_of_false (by simp) ?_
    rintro ⟨hcount, ⟨rest, hrest⟩, -⟩
    rw [hrest, List.length_append] at hlength
    have hpos := h.pos
    rw [h.length] at hlong
    omega
  -- as much is there as is asked for
  · rw [h.length] at hlong
    rw [bind_of_ok ((failIf_ok (u := ())).mpr ⟨by rw [h.length]; exact hlong, rfl⟩),
      if_pos (by omega),
      bind_of_ok (advance_apply count), pure_apply]
    have htake : (packet.unread.take count).length = count := by
      rw [List.length_take]
      omega
    constructor
    · intro heq
      obtain ⟨hbytes, rfl⟩ := Prod.mk.inj (Option.some.inj heq)
      obtain rfl := Except.ok.inj hbytes
      exact ⟨htake, ⟨_, (List.take_append_drop count packet.unread).symm⟩, rfl⟩
    · rintro ⟨hcount, ⟨rest, hrest⟩, rfl⟩
      have hbytes : packet.unread.take count = bytes := by
        rw [hrest, List.take_append_of_le_length (by omega), List.take_of_length_le (by omega)]
      rw [← hbytes]
      rfl

theorem payloadByte_eq {byte : UInt8} {rest : Bytes} (h : packet.unread = byte :: rest) :
    payloadByte packet.pos packet = some (.ok byte, packet) := by
  have hread : packet.payload[packet.pos]? = some byte := by
    rw [← Nat.add_zero packet.pos, ← List.getElem?_drop]
    show packet.unread[0]? = _
    rw [h]
    rfl
  rw [payloadByte, bind_of_ok get_apply, hread]
  rfl

theorem packetReadUint16_ok (h : packet.Whole) {word : UInt16} :
    packetReadUint16 packet = some (.ok word, packet') ↔
      (∃ rest, packet.unread = packetWriteUint16 word ++ rest) ∧ packet' = packet.past 2 := by
  have hlength : packet.unread.length = packet.payload.length - packet.pos := List.length_drop
  rw [packetReadUint16, bind_of_ok get_apply]
  by_cases hlong : packet.pos + 2 > packet.remainingLength
  · rw [bind_of_error (failIf_error.mpr ⟨hlong, rfl, rfl⟩)]
    refine iff_of_false (by simp) ?_
    rintro ⟨⟨rest, hrest⟩, -⟩
    rw [hrest, List.length_append, packetWriteUint16, List.length_cons, List.length_cons,
      List.length_nil] at hlength
    have hpos := h.pos
    rw [h.length] at hlong
    omega
  · rw [h.length] at hlong
    rw [bind_of_ok ((failIf_ok (u := ())).mpr ⟨by rw [h.length]; exact hlong, rfl⟩)]
    -- both bytes are there
    obtain ⟨msb, lsb, rest, hunread⟩ : ∃ msb lsb rest, packet.unread = msb :: lsb :: rest := by
      rcases hcases : packet.unread with _ | ⟨msb, _ | ⟨lsb, rest⟩⟩
      · rw [hcases, List.length_nil] at hlength
        omega
      · rw [hcases, List.length_cons, List.length_nil] at hlength
        omega
      · exact ⟨msb, lsb, rest, rfl⟩
    have hnext : (packet.past 1).unread = lsb :: rest := by
      rw [Incoming.unread_past, hunread]
      rfl
    rw [bind_of_ok (payloadByte_eq hunread), bind_of_ok (advance_apply 1)]
    show (payloadByte (packet.past 1).pos >>= _) (packet.past 1) = _ ↔ _
    rw [bind_of_ok (payloadByte_eq hnext), bind_of_ok (advance_apply 1), pure_apply,
      Incoming.past_past]
    constructor
    · intro heq
      obtain ⟨hword, rfl⟩ := Prod.mk.inj (Option.some.inj heq)
      obtain rfl := Except.ok.inj hword
      refine ⟨⟨rest, ?_⟩, rfl⟩
      rw [word_bytes, hunread]
      rfl
    · rintro ⟨⟨rest', hrest⟩, rfl⟩
      rw [hunread, packetWriteUint16] at hrest
      obtain ⟨rfl, htail⟩ := List.cons.inj hrest
      obtain ⟨rfl, -⟩ := List.cons.inj htail
      rw [bytes_word]

theorem packetWriteString_eq {str : Bytes} (h : str.length ≤ 65535) :
    packetWriteString str = packetWriteUint16 (UInt16.ofNat str.length) ++ str := by
  have hword : (UInt16.ofNat str.length).toNat = str.length := by
    rw [UInt16.toNat_ofNat']
    exact Nat.mod_eq_of_lt (by omega)
  rw [packetWriteString, hword, List.take_of_length_le (Nat.le_refl _)]

theorem packetWriteString_length {str : Bytes} (h : str.length ≤ 65535) :
    (packetWriteString str).length = 2 + str.length := by
  rw [packetWriteString_eq h, List.length_append]
  rfl

theorem packetReadString_ok (h : packet.Whole) {str : Bytes} :
    packetReadString packet = some (.ok str, packet') ↔
      str.length ≤ 65535 ∧ (∃ rest, packet.unread = packetWriteString str ++ rest) ∧
        packet' = packet.past (2 + str.length) := by
  rw [packetReadString, bind_ok]
  constructor
  -- the length is read first, and the bytes behind it are as many
  · rintro ⟨slen, packet₁, hslen, hbytes⟩
    obtain ⟨⟨rest₁, hrest₁⟩, rfl⟩ := (packetReadUint16_ok h).mp hslen
    have hwhole : (packet.past 2).Whole := h.past hrest₁
    obtain ⟨hstr, ⟨rest, hrest⟩, rfl⟩ := (packetReadBytes_ok hwhole).mp hbytes
    have hmax := slen.toNat_lt
    have hle : str.length ≤ 65535 := by omega
    have hdrop : (packet.past 2).unread = rest₁ := by
      rw [Incoming.unread_past, hrest₁]
      rfl
    refine ⟨hle, ⟨rest, ?_⟩, ?_⟩
    · rw [packetWriteString_eq hle, hstr, UInt16.ofNat_toNat, hrest₁, ← hdrop, hrest,
        List.append_assoc]
    · rw [hstr, Incoming.past_past]
  · rintro ⟨hle, ⟨rest, hrest⟩, rfl⟩
    rw [packetWriteString_eq hle, List.append_assoc] at hrest
    have hwhole : (packet.past 2).Whole := h.past hrest
    have hunread : (packet.past 2).unread = str ++ rest := by
      rw [Incoming.unread_past, hrest]
      rfl
    refine ⟨UInt16.ofNat str.length, packet.past 2, ?_, ?_⟩
    · exact (packetReadUint16_ok h).mpr ⟨⟨_, hrest⟩, rfl⟩
    · refine (packetReadBytes_ok hwhole).mpr ⟨?_, ⟨rest, hunread⟩, ?_⟩
      · rw [UInt16.toNat_ofNat']
        exact (Nat.mod_eq_of_lt (by omega)).symm
      · rw [Incoming.past_past, UInt16.toNat_ofNat', Nat.mod_eq_of_lt (by omega)]

theorem Incoming.Whole.left (h : packet.Whole) :
    packet.remainingLength - packet.pos = packet.unread.length := by
  rw [h.length]
  exact List.length_drop.symm

/-- What is left is read as a whole. -/
theorem packetReadBytes_rest (h : packet.Whole) :
    packetReadBytes (packet.remainingLength - packet.pos) packet =
      some (.ok packet.unread, packet.past packet.unread.length) := by
  rw [h.left]
  exact (packetReadBytes_ok h).mpr ⟨rfl, ⟨[], (List.append_nil _).symm⟩, rfl⟩

end Reading

/-! ## The command of a PUBLISH -/

theorem publishCommand_fields {p : PublishPacket} (h : p.qos ≤ 2) :
    commandDup (publishCommand p) = p.dup ∧ commandQos (publishCommand p) = p.qos ∧
      commandRetain (publishCommand p) = p.retain := by
  have hall : ∀ (dup retain : Bool) (qos : Fin 3),
      let command := PUBLISH ||| (dup.toUInt8 <<< 3) ||| (UInt8.ofNat qos <<< 1) ||| retain.toUInt8
      commandDup command = dup ∧ commandQos command = qos ∧ commandRetain command = retain := by
    decide
  exact hall p.dup p.retain ⟨p.qos, by omega⟩

theorem publishCommand_type {p : PublishPacket} (h : p.qos ≤ 2) :
    publishCommand p &&& 0xF0 = PUBLISH := by
  have hall : ∀ (dup retain : Bool) (qos : Fin 3),
      (PUBLISH ||| (dup.toUInt8 <<< 3) ||| (UInt8.ofNat qos <<< 1) ||| retain.toUInt8) &&& 0xF0 =
        PUBLISH := by decide
  exact hall p.dup p.retain ⟨p.qos, by omega⟩

/-- The fields are the whole command. -/
theorem command_fields {command : UInt8} (h : command &&& 0xF0 = PUBLISH) :
    PUBLISH ||| ((commandDup command).toUInt8 <<< 3) ||| (UInt8.ofNat (commandQos command) <<< 1) |||
      (commandRetain command).toUInt8 = command := by
  -- checked for all 256 commands
  have hall : ∀ n : Fin 256, UInt8.ofNat n &&& 0xF0 = PUBLISH →
      PUBLISH ||| ((commandDup (UInt8.ofNat n)).toUInt8 <<< 3) |||
        (UInt8.ofNat (commandQos (UInt8.ofNat n)) <<< 1) |||
        (commandRetain (UInt8.ofNat n)).toUInt8 = UInt8.ofNat n := by decide +kernel
  have hcommand := hall ⟨command.toNat, command.toNat_lt⟩
  rw [UInt8.ofNat_toNat] at hcommand
  exact hcommand h

/-! ## PUBLISH -/

/-- The string of a buffer is all of it, or it ends at a NUL. -/
theorem ofBuffer_eq {buffer : Bytes} {str : CString} :
    CString.ofBuffer buffer = str ↔
      buffer = str.bytes ∨ ∃ tail, buffer = str.bytes ++ 0 :: tail := by
  have hstr : ∀ byte ∈ str.bytes, decide (byte ≠ 0) = true := by
    intro byte hbyte
    apply decide_eq_true
    rintro rfl
    exact str.noNul hbyte
  constructor
  · rintro rfl
    have hsplit : stringContent buffer ++ buffer.dropWhile (· ≠ 0) = buffer :=
      List.takeWhile_append_dropWhile
    rcases hrest : buffer.dropWhile (· ≠ 0) with _ | ⟨byte, tail⟩
    · left
      rw [hrest, List.append_nil] at hsplit
      exact hsplit.symm
    · right
      have hbyte : byte = 0 := by
        have hhead := List.head?_dropWhile_not (· ≠ (0 : UInt8)) buffer
        rw [hrest] at hhead
        simpa using hhead
      exact ⟨tail, by rw [← hbyte, ← hrest]; exact hsplit.symm⟩
  · rintro (rfl | ⟨tail, rfl⟩)
    · have hall : stringContent str.bytes = str.bytes := List.takeWhile_eq_self_iff.mpr hstr
      simp only [CString.ofBuffer, hall]
    · have hcut : stringContent (str.bytes ++ 0 :: tail) = str.bytes := by
        rw [stringContent, List.takeWhile_append_of_pos hstr]
        simp
      simp only [CString.ofBuffer, hcut]

/-- What a build takes of a PUBLISH with these bytes as its topic.  The broker takes no
    topic with a NUL in it; the client cuts it off there. -/
structure PublishPacket.ReadFrom (role : Role) (messageSizeLimit : Nat) (topic : Bytes)
    (p : PublishPacket) : Prop where
  qos : p.qos ≤ 2
  mid : p.qos = 0 → p.mid = 0
  nonempty : topic ≠ []
  length : topic.length ≤ 65535
  string : topic = p.topic.bytes ∨ role = .client ∧ ∃ tail, topic = p.topic.bytes ++ 0 :: tail
  checked : role = .broker → brokerTopicCheck topic = some (.ok ())
  size : role = .broker → messageSizeLimit = 0 ∨ p.payload.length ≤ messageSizeLimit

theorem brokerTopicCheck_nul {topic : Bytes} (h : brokerTopicCheck topic = some (.ok ())) :
    0 ∉ topic := by
  intro hnul
  rw [brokerTopicCheck] at h
  split at h
  · cases h
  · cases h
  · rw [dif_neg (not_not.mpr hnul)] at h
    cases h

/-- The string of a topic that a build takes. -/
theorem ofBuffer_topic {role : Role} {topic : Bytes} {str : CString}
    (hchecked : role = .broker → brokerTopicCheck topic = some (.ok ())) :
    CString.ofBuffer topic = str ↔
      topic = str.bytes ∨ role = .client ∧ ∃ tail, topic = str.bytes ++ 0 :: tail := by
  rw [ofBuffer_eq]
  refine or_congr_right ⟨fun htail => ⟨?_, htail⟩, fun htail => htail.2⟩
  cases role with
  | client => rfl
  | broker =>
    obtain ⟨tail, rfl⟩ := htail
    exact absurd (by simp) (brokerTopicCheck_nul (hchecked rfl))

section Publish

variable {role : Role} {limit : Nat} {command : UInt8} {body : Bytes} {p : PublishPacket}

theorem laidOutIncoming_whole : (laidOutIncoming command body).Whole := ⟨rfl, Nat.zero_le _⟩

theorem onlyIf_ok {c : Prop} [Decidable c] {x : Call Incoming MosqError Unit}
    {packet packet' : Incoming} :
    onlyIf c x packet = some (.ok (), packet') ↔
      if c then x packet = some (.ok (), packet') else packet = packet' := by
  rw [onlyIf]
  split_ifs
  · rfl
  · rw [pure_apply]
    simp

/-- What is behind the topic of a PUBLISH that was laid out. -/
theorem readPublishMid_ok {packet packet' : Incoming} {qos : Nat} {mid : UInt16}
    (h : packet.Whole) :
    readPublishMid qos packet = some (.ok mid, packet') ↔
      (qos = 0 → mid = 0) ∧
        (∃ rest, packet.unread = (if qos > 0 then packetWriteUint16 mid else []) ++ rest) ∧
        packet' = packet.past (if qos > 0 then packetWriteUint16 mid else []).length := by
  rw [readPublishMid]
  split_ifs with hqos
  · rw [packetReadUint16_ok h]
    exact ⟨fun hread => ⟨fun hzero => by omega, hread⟩, fun hread => hread.2⟩
  · rw [pure_apply]
    constructor
    · intro heq
      obtain ⟨hmid, rfl⟩ := Prod.mk.inj (Option.some.inj heq)
      exact ⟨fun _ => (Except.ok.inj hmid).symm, ⟨packet.unread, rfl⟩, rfl⟩
    · rintro ⟨hmid, -, rfl⟩
      rw [hmid (by omega)]
      rfl

theorem commandQos_le (header : UInt8) : commandQos header ≤ 3 := by
  have hall : ∀ n : Fin 256, commandQos (UInt8.ofNat n) ≤ 3 := by decide +kernel
  have hheader := hall ⟨header.toNat, header.toNat_lt⟩
  rwa [UInt8.ofNat_toNat] at hheader

/-- What is behind a field that was laid out. -/
theorem Incoming.Whole.behind {packet : Incoming} {field rest : Bytes} (h : packet.Whole)
    (hrest : packet.unread = field ++ rest) :
    (packet.past field.length).Whole ∧ (packet.past field.length).unread = rest := by
  refine ⟨h.past hrest, ?_⟩
  rw [Incoming.unread_past, hrest, List.drop_left]

/-- The tests of the topic change nothing. -/
theorem checkTopic_ok {topic : Bytes} {packet packet' : Incoming} :
    onlyIf (role = .broker) (ofOutcome (brokerTopicCheck topic)) packet = some (.ok (), packet') ↔
      (role = .broker → brokerTopicCheck topic = some (.ok ())) ∧ packet = packet' := by
  rw [onlyIf_ok]
  split_ifs with hrole
  · rw [ofOutcome_eq, imp_iff_right hrole]
  · rw [and_iff_right fun h => absurd h hrole]

/-- A message that is read stands in the packet as it is laid out. -/
theorem readFrom_of_readPublish (hcommand : command &&& 0xF0 = PUBLISH) {packet' : Incoming}
    (h : readPublish role limit (laidOutIncoming command body) = some (.ok (some p), packet')) :
    ∃ topic, p.ReadFrom role limit topic ∧ command = publishCommand p ∧
      body = publishBodyWith topic p := by
  have hwhole : (laidOutIncoming command body).Whole := laidOutIncoming_whole
  have hheader : (laidOutIncoming command body).command = command := rfl
  have hqosle := commandQos_le command
  rw [readPublish, bind_of_ok get_apply, hheader, bind_ok] at h
  obtain ⟨_, packet₁, hbroker, h⟩ := h
  obtain ⟨hnoBroker, rfl⟩ := failIf_ok.mp hbroker
  -- the topic
  rw [bind_ok] at h
  obtain ⟨topic, packet₁, htopic, h⟩ := h
  rw [mapErr_ok, packetReadString_ok hwhole] at htopic
  obtain ⟨hlength, ⟨rest, hrest⟩, rfl⟩ := htopic
  rw [bind_ok] at h
  obtain ⟨_, packet₂, hempty, h⟩ := h
  obtain ⟨hsome, rfl⟩ := failIf_ok.mp hempty
  rw [bind_ok] at h
  obtain ⟨_, packet₂, hcheck, h⟩ := h
  obtain ⟨hchecked, rfl⟩ := checkTopic_ok.mp hcheck
  obtain ⟨hwhole₂, hunread₂⟩ := hwhole.behind hrest
  rw [packetWriteString_length hlength] at hwhole₂ hunread₂
  -- the id
  rw [bind_ok] at h
  obtain ⟨mid, packet₃, hmid, h⟩ := h
  rw [readPublishMid_ok hwhole₂, hunread₂] at hmid
  obtain ⟨hzero, ⟨payload, rfl⟩, rfl⟩ := hmid
  obtain ⟨hwhole₃, hunread₃⟩ := hwhole₂.behind hunread₂
  -- the payload is what is left
  have hleft := hwhole₃.left
  rw [hunread₃] at hleft
  rw [bind_of_ok get_apply, hleft] at h
  split at h
  · cases h
  next hlimit =>
  rw [← hleft, bind_of_ok (packetReadBytes_rest hwhole₃), hunread₃, bind_ok] at h
  obtain ⟨_, packet₄, hclient, h⟩ := h
  obtain ⟨hnoClient, rfl⟩ := failIf_ok.mp hclient
  obtain ⟨hp, -⟩ := Prod.mk.inj (Option.some.inj h)
  obtain rfl := Option.some.inj (Except.ok.inj hp)
  have hthree : commandQos command ≠ 3 := by
    rintro heq
    rcases role with _ | _
    · exact hnoClient ⟨rfl, heq⟩
    · exact hnoBroker ⟨rfl, heq⟩
  refine ⟨topic, ⟨?_, hzero, ?_, hlength, (ofBuffer_topic hchecked).mp rfl, hchecked, ?_⟩,
    (command_fields hcommand).symm, ?_⟩
  · show commandQos command ≤ 2
    omega
  · exact fun hnil => hsome (congrArg List.length hnil)
  · intro hrole
    show limit = 0 ∨ payload.length ≤ limit
    by_contra hlarge
    exact hlimit ⟨hrole, by omega, by omega⟩
  · show (laidOutIncoming command body).unread = _
    rw [hrest, publishBodyWith, List.append_assoc]

/-- A message that a build takes is read from where it is laid out. -/
theorem PublishPacket.ReadFrom.readPublish {topic : Bytes} (h : p.ReadFrom role limit topic) :
    ∃ packet', WeeveMQ.readPublish role limit
      (laidOutIncoming (publishCommand p) (publishBodyWith topic p)) =
        some (.ok (some p), packet') := by
  obtain ⟨hdup, hqos, hretain⟩ := publishCommand_fields h.qos
  have hheader : (laidOutIncoming (publishCommand p) (publishBodyWith topic p)).command =
      publishCommand p := rfl
  have hrest : (laidOutIncoming (publishCommand p) (publishBodyWith topic p)).unread =
      packetWriteString topic ++ ((if p.qos > 0 then packetWriteUint16 p.mid else []) ++
        p.payload) := by
    show publishBodyWith topic p = _
    rw [publishBodyWith, List.append_assoc]
  -- the packet behind its topic
  obtain ⟨packet₂, hpacket₂⟩ : ∃ packet₂, packet₂ =
      (laidOutIncoming (publishCommand p) (publishBodyWith topic p)).past (2 + topic.length) :=
    ⟨_, rfl⟩
  have htopic := (packetReadString_ok laidOutIncoming_whole).mpr ⟨h.length, ⟨_, hrest⟩, hpacket₂⟩
  obtain ⟨hwhole₂, hunread₂⟩ := laidOutIncoming_whole.behind hrest
  rw [packetWriteString_length h.length, ← hpacket₂] at hwhole₂ hunread₂
  have hmid : readPublishMid p.qos packet₂ = some (.ok p.mid, packet₂.past
      (if p.qos > 0 then packetWriteUint16 p.mid else []).length) :=
    (readPublishMid_ok hwhole₂).mpr ⟨h.mid, ⟨_, hunread₂⟩, rfl⟩
  obtain ⟨hwhole₃, hunread₃⟩ := hwhole₂.behind hunread₂
  have hleft := hwhole₃.left
  rw [hunread₃] at hleft
  -- no test ends the call
  have hcheck := (@checkTopic_ok role topic packet₂ packet₂).mpr ⟨h.checked, rfl⟩
  have hthree : p.qos ≠ 3 := by
    have hle := h.qos
    omega
  have hsome : ¬ topic.length = 0 := fun hnil => h.nonempty (List.length_eq_zero_iff.mp hnil)
  have hlimit : ¬ (role = .broker ∧ limit ≠ 0 ∧ p.payload.length > limit) := by
    rintro ⟨hrole, hset, hlarge⟩
    have hsize := h.size hrole
    omega
  have hstr := (ofBuffer_topic h.checked).mpr h.string
  refine ⟨(packet₂.past (if p.qos > 0 then packetWriteUint16 p.mid else []).length).past
    p.payload.length, ?_⟩
  rw [WeeveMQ.readPublish, bind_of_ok get_apply, hheader, hdup, hqos, hretain,
    bind_of_ok ((failIf_ok (u := ())).mpr ⟨fun hboth => hthree hboth.2, rfl⟩),
    bind_of_ok (mapErr_ok.mpr htopic), bind_of_ok ((failIf_ok (u := ())).mpr ⟨hsome, rfl⟩),
    bind_of_ok hcheck, bind_of_ok hmid, bind_of_ok get_apply, hleft, if_neg hlimit, ← hleft,
    bind_of_ok (packetReadBytes_rest hwhole₃), hunread₃,
    bind_of_ok ((failIf_ok (u := ())).mpr ⟨fun hboth => hthree hboth.2, rfl⟩), pure_apply, hstr,
    hleft]

/-- The handlers of both builds read exactly the packets that are laid out for a message they
    take. -/
theorem readPublish_ok (hcommand : command &&& 0xF0 = PUBLISH) :
    (∃ packet', readPublish role limit (laidOutIncoming command body) =
        some (.ok (some p), packet')) ↔
      ∃ topic, p.ReadFrom role limit topic ∧ command = publishCommand p ∧
        body = publishBodyWith topic p := by
  constructor
  · rintro ⟨packet', h⟩
    exact readFrom_of_readPublish hcommand h
  · rintro ⟨topic, hread, rfl, rfl⟩
    exact hread.readPublish

end Publish

/-! ## Nothing else is read -/

/-- The call returns, and has read nothing behind the packet. -/
def ReadsInside {α : Type} (x : Call Incoming MosqError α) : Prop :=
  ∀ packet, packet.Whole → ∃ r packet', x packet = some (r, packet') ∧ packet'.Whole

section Inside

variable {α β : Type}

theorem ReadsInside.bind {x : Call Incoming MosqError α} {f : α → Call Incoming MosqError β}
    (hx : ReadsInside x) (hf : ∀ a, ReadsInside (f a)) : ReadsInside (x >>= f) := by
  intro packet h
  obtain ⟨r, packet₁, hr, h₁⟩ := hx packet h
  cases r with
  | error e => exact ⟨.error e, packet₁, bind_of_error hr, h₁⟩
  | ok a =>
    rw [bind_of_ok hr]
    exact hf a packet₁ h₁

theorem readsInside_pure (a : α) : ReadsInside (pure a) := fun packet h => ⟨_, packet, rfl, h⟩

theorem readsInside_failIf (c : Prop) [Decidable c] (e : MosqError) : ReadsInside (failIf c e) := by
  intro packet h
  rw [failIf]
  split_ifs
  · exact ⟨_, packet, rfl, h⟩
  · exact ⟨_, packet, rfl, h⟩

theorem ReadsInside.mapErr {x : Call Incoming MosqError α} (h : ReadsInside x)
    (f : MosqError → MosqError) : ReadsInside (mapErr f x) := by
  intro packet hwhole
  obtain ⟨r, packet', hr, h'⟩ := h packet hwhole
  refine ⟨r.mapError f, packet', ?_, h'⟩
  rw [Call.mapErr, hr]
  rfl

theorem readsInside_bytes (count : Nat) : ReadsInside (packetReadBytes count) := by
  intro packet h
  by_cases hlong : packet.pos + count > packet.remainingLength
  · refine ⟨.error .protocol, packet, ?_, h⟩
    rw [packetReadBytes, bind_of_ok get_apply, bind_of_error (failIf_error.mpr ⟨hlong, rfl, rfl⟩)]
  · have hlength : packet.unread.length = packet.payload.length - packet.pos := List.length_drop
    rw [h.length] at hlong
    have htake : (packet.unread.take count).length = count := by
      rw [List.length_take]
      omega
    have hsplit := (List.take_append_drop count packet.unread).symm
    have hwhole := h.past hsplit
    rw [htake] at hwhole
    exact ⟨_, _, (packetReadBytes_ok h).mpr ⟨htake, ⟨_, hsplit⟩, rfl⟩, hwhole⟩

theorem readsInside_uint16 : ReadsInside packetReadUint16 := by
  intro packet h
  by_cases hlong : packet.pos + 2 > packet.remainingLength
  · refine ⟨.error .protocol, packet, ?_, h⟩
    rw [packetReadUint16, bind_of_ok get_apply,
      bind_of_error (failIf_error.mpr ⟨hlong, rfl, rfl⟩)]
  · have hlength : packet.unread.length = packet.payload.length - packet.pos := List.length_drop
    rw [h.length] at hlong
    rcases hcases : packet.unread with _ | ⟨msb, _ | ⟨lsb, rest⟩⟩
    · rw [hcases, List.length_nil] at hlength
      omega
    · rw [hcases, List.length_cons, List.length_nil] at hlength
      omega
    · have hword : packet.unread =
          packetWriteUint16 ((msb.toUInt16 <<< 8) + lsb.toUInt16) ++ rest := by
        rw [word_bytes, hcases]
        rfl
      exact ⟨_, _, (packetReadUint16_ok h).mpr ⟨⟨rest, hword⟩, rfl⟩, h.past hword⟩

theorem readsInside_mid (qos : Nat) : ReadsInside (readPublishMid qos) := by
  rw [readPublishMid]
  split_ifs
  · exact readsInside_uint16
  · exact readsInside_pure 0

theorem brokerTopicCheck_returns (topic : Bytes) : ∃ r, brokerTopicCheck topic = some r := by
  obtain ⟨r, hr, -⟩ := mosquittoValidateUtf8_iff topic
  rw [brokerTopicCheck, hr]
  rcases r with e | ⟨⟩
  · exact ⟨_, rfl⟩
  · dsimp only
    split_ifs
    · exact ⟨_, rfl⟩
    · exact ⟨_, rfl⟩

theorem readsInside_check (role : Role) (topic : Bytes) :
    ReadsInside (onlyIf (role = .broker) (ofOutcome (brokerTopicCheck topic))) := by
  intro packet h
  obtain ⟨r, hr⟩ := brokerTopicCheck_returns topic
  rw [onlyIf]
  split_ifs
  · exact ⟨r, packet, ofOutcome_eq.mpr ⟨hr, rfl⟩, h⟩
  · exact ⟨_, packet, rfl, h⟩

/-- Reading a PUBLISH always returns. -/
theorem readsInside_publish (role : Role) (limit : Nat) : ReadsInside (readPublish role limit) := by
  have hget : ReadsInside (get : Call Incoming MosqError Incoming) := fun packet h =>
    ⟨_, packet, rfl, h⟩
  refine hget.bind fun packet => (readsInside_failIf _ _).bind fun _ => ?_
  refine ((readsInside_uint16.bind fun slen => readsInside_bytes slen.toNat).mapErr _).bind ?_
  refine fun topic => (readsInside_failIf _ _).bind fun _ => ?_
  refine (readsInside_check role topic).bind fun _ => (readsInside_mid _).bind fun mid => ?_
  refine hget.bind fun packet' => ?_
  dsimp only
  split_ifs
  · exact readsInside_pure _
  · refine (readsInside_bytes _).bind fun payload => (readsInside_failIf _ _).bind fun _ => ?_
    exact readsInside_pure _

end Inside

/-- `handle__publish` of both builds returns for every packet, and takes exactly those that are
    laid out for a message it can read; the client also one whose topic goes on behind a
    NUL. -/
theorem readPublish_exact {role : Role} {limit : Nat} {command : UInt8} {body : Bytes}
    (hcommand : command &&& 0xF0 = PUBLISH) :
    (∃ r packet', readPublish role limit (laidOutIncoming command body) = some (r, packet')) ∧
      ∀ p, (∃ packet', readPublish role limit (laidOutIncoming command body) =
          some (.ok (some p), packet')) ↔
        ∃ topic, p.ReadFrom role limit topic ∧ command = publishCommand p ∧
          body = publishBodyWith topic p := by
  constructor
  · obtain ⟨r, packet', hr, -⟩ :=
      readsInside_publish role limit _ (@laidOutIncoming_whole command body)
    exact ⟨r, packet', hr⟩
  · exact fun p => readPublish_ok hcommand

/-- The topic `a`. -/
def topicA : CString := ⟨ascii "a", by decide⟩

/-- A PUBLISH with QoS 1 to the topic `a`, with its id 7 and one byte of payload, and one with
    a topic that the client cuts off. -/
theorem readPublish_exact_one :
    let p : PublishPacket := {
      dup := false, qos := 1, retain := false, mid := 7, topic := topicA, payload := [9] }
    (∃ packet', readPublish .broker 1 (laidOutIncoming 0x32 [0, 1, 0x61, 0, 7, 9]) =
      some (.ok (some p), packet')) ∧
    ∃ packet', readPublish .client 0 (laidOutIncoming 0x32 [0, 3, 0x61, 0, 0x62, 0, 7, 9]) =
      some (.ok (some p), packet') := by
  intro p
  constructor
  · apply ((readPublish_exact (by decide)).2 _).mpr
    refine ⟨[0x61], ⟨by decide, fun h => absurd h (by decide), by decide, by decide, .inl rfl,
      fun _ => by decide, fun _ => .inr (by decide)⟩, by decide, by decide⟩
  · apply ((readPublish_exact (by decide)).2 _).mpr
    refine ⟨[0x61, 0, 0x62], ⟨by decide, fun h => absurd h (by decide), by decide, by decide,
      .inr ⟨rfl, [0x62], rfl⟩, nofun, nofun⟩, by decide, by decide⟩

end WeeveMQ
