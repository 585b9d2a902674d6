/-
  WeeveMQ.PacketMosq

  Packets on and off the socket: `packet_mosq.c` built with the SMP, and the
  `packet__read` of the build without it.

  Loops carry a bound that the loop cannot exceed: five length bytes, the bytes
  that are left, the packets in the queue.  A return of `MOSQ_ERR_SUCCESS` in
  the middle of a frame is the value `false` of the part that returns.
-/

import WeeveMQ.Mosq

namespace WeeveMQ

open Call

variable {σ : Type} (env : Setup σ)

/-! ## Packets -/

/-- `packet__alloc`: the header of an outgoing packet, and the buffer behind it. -/
def packetAlloc (packet : Packet) : Call (Mosq σ) MosqError Packet := do
  let remainingBytes := Base128.encode 5 packet.remainingLength
  -- the loop stops at the fifth byte
  failIf (remainingBytes.length = 5) .payloadSize
  let packetLength := (packet.remainingLength + 1 + remainingBytes.length) % 2 ^ 32
  match ← mosquittoMalloc env .outPayload packetLength with
  | none => throw .nomem
  | some block =>
    return { packet with
      remainingCount := remainingBytes.length
      packetLength := packetLength
      payload := some { block := block, data := packet.command :: remainingBytes }
      pos := 1 + remainingBytes.length
      smpPayload := none
      mqttPacket := none
      smpRemainingMult := 1
      smpRemainingLength := 0
      smpToProcess := 0
      smpPos := 0
      smpRemainingCount := 0 }

/-- The values `packet__cleanup` resets a packet to. -/
def Packet.cleaned (packet : Packet) : Packet :=
  { packet with
    mqttPacket := none
    smpRemainingMult := 1
    smpRemainingLength := 0
    smpToProcess := 0
    smpPos := 0
    smpRemainingCount := 0
    command := 0
    remainingCount := 0
    remainingMult := 1
    remainingLength := 0
    payload := none
    toProcess := 0
    pos := 0 }

/-- `packet__cleanup`.  The buffer of a frame is not one of those it frees. -/
def packetCleanup (packet : Packet) : Call (Mosq σ) MosqError Packet := do
  mosquittoFree env (packet.mqttPacket.map Buffer.block)
  mosquittoFree env (packet.payload.map Buffer.block)
  return packet.cleaned

/-- `packet__cleanup(&mosq->in_packet)`. -/
def cleanupInPacket : Call (Mosq σ) MosqError Unit := do
  let packet ← packetCleanup env (← get).inPacket
  modifyIn fun _ => packet

/-! ## Sending -/

/-- `mosq_wclSmpGetMessage`: a message of the session behind its length. -/
def mosqWclSmpGetMessage (messageType : Nat) (stdProtocolPacket : Bytes) :
    Call (Mosq σ) MosqError Buffer := do
  let tempSmpMessage ← onSession (env.wclSmpGetMessage messageType stdProtocolPacket)
  let temp ← libraryBlock env .tempSmpMessage tempSmpMessage.length
  let remainingBytes := Base128.encode 5 tempSmpMessage.length
  -- neither this way out nor the next one frees the message of the library
  failIf (remainingBytes.length = 5) .unknown
  let smpMessageLength := tempSmpMessage.length + remainingBytes.length
  match ← malloc env { purpose := .smpMessage, allocator := .libc } smpMessageLength with
  | none => throw .unknown
  | some block =>
    touch (some { block := temp, data := tempSmpMessage })
    free temp
    return { block := block, data := remainingBytes ++ tempSmpMessage }

/-- First half of `packet__queue`: the packet becomes a message of the session.
    The message type is the upper half of the command. -/
def packetSecure (packet : Packet) : Call (Mosq σ) MosqError Packet := do
  let payload := (packet.payload.map Buffer.data).getD []
  let messageType := (payload.headD 0 >>> 4).toNat
  touch packet.payload
  -- when this fails the caller still has the packet, and nobody frees it
  let smpMessage ← mosqWclSmpGetMessage env messageType (payload.take packet.packetLength)
  mosquittoFree env (packet.payload.map Buffer.block)
  return { packet with
    payload := some smpMessage
    packetLength := smpMessage.data.length
    pos := 0
    toProcess := smpMessage.data.length }

/-- Second half, under the lock of the queue. -/
def packetEnqueue (packet : OutPacket σ) : Call (Mosq σ) MosqError Unit :=
  modify fun mosq => { mosq with outPacket := mosq.outPacket ++ [packet] }

/-- The head of the queue becomes the current packet. -/
def nextOutPacket (mosq : Mosq σ) : Mosq σ :=
  { mosq with currentOutPacket := mosq.outPacket.head?, outPacket := mosq.outPacket.tail }

/-- The bytes of a packet that are still to be written. -/
def Packet.unsent (packet : Packet) : Bytes :=
  ((packet.payload.map Buffer.data).getD []).drop packet.pos |>.take packet.toProcess

/-- Write the current packet; `false` when the socket takes no more for now. -/
def writeCurrent : Nat → Call (Mosq σ) MosqError Bool
  | 0 => return true
  | fuel + 1 => do
    match (← get).currentOutPacket with
    | none => return true
    | some out =>
      if out.packet.toProcess = 0 then return true
      touch out.packet.payload
      match ← netWrite out.packet.unsent with
      | some (n + 1) =>
        let packet := { out.packet with
          toProcess := out.packet.toProcess - (n + 1)
          pos := out.packet.pos + (n + 1) }
        modify fun mosq => { mosq with
          currentOutPacket := some { out with packet := packet }
          wire := mosq.wire ++ [{
            bytes := out.packet.unsent.take (n + 1)
            packet := out
            pos := out.packet.pos
            part := (List.take_prefix ..).trans (List.take_prefix ..) }] }
        writeCurrent fuel
      -- a write of no bytes is judged by errno as well
      | _ =>
        comeBackLater
        return false

/-- The loop of `packet__write`.  In the client a DISCONNECT that went out closes
    the socket and ends the loop. -/
def writePackets : Nat → Call (Mosq σ) MosqError Unit
  | 0 => return ()
  | fuel + 1 => do
    match (← get).currentOutPacket with
    | none => return ()
    | some out =>
      if ← writeCurrent out.packet.toProcess then
        let disconnect := env.role = .client ∧ out.packet.command &&& 0xF6 ≠ PUBLISH ∧
          out.packet.command &&& 0xF0 = DISCONNECT
        onlyIf disconnect netSocketClose
        -- the next packet is taken up before this one is freed
        modify nextOutPacket
        let _ ← packetCleanup env out.packet
        mosquittoFree env (some out.block)
        if disconnect then return () else writePackets fuel

/-- `packet__write`. -/
def packetWrite : Call (Mosq σ) MosqError Unit := do
  failIf ((← get).sock = false) .noConn
  modify fun mosq => if mosq.currentOutPacket.isNone then nextOutPacket mosq else mosq
  let mosq ← get
  if mosq.state = .connectPending then return ()
  writePackets env (mosq.outPacket.length + 1)

/-- `packet__queue` of a packet that lives in `block`. -/
def packetQueue (block : Block) (packet : Packet) : Call (Mosq σ) MosqError Unit := do
  let origin := (← get).session
  let packet ← packetSecure env packet
  packetEnqueue { block := block, packet := packet, origin := origin }
  let mosq ← get
  -- a threaded client, and one in a callback, writes later
  if env.role = .client ∧ (mosq.inCallback ∨ mosq.threaded) then return ()
  packetWrite env

/-- `sizeof(struct mosquitto__packet)`. -/
def sizeofPacket : Nat := 88

/-- The packet `mosquitto__calloc` returns. -/
def zeroPacket : Packet where
  payload := none
  remainingMult := 0
  remainingLength := 0
  packetLength := 0
  toProcess := 0
  pos := 0
  mid := 0
  command := 0
  remainingCount := 0
  smpPayload := none
  mqttPacket := none
  smpRemainingMult := 0
  smpRemainingLength := 0
  smpToProcess := 0
  smpPos := 0
  smpRemainingCount := 0

/-- What every function of `send_mosq.c` does with its command and the bytes
    that follow the header. -/
def sendPacket (command : UInt8) (mid : UInt16) (body : Bytes) :
    Call (Mosq σ) MosqError Unit := do
  match ← mosquittoMalloc env .packet sizeofPacket with
  | none => throw .nomem
  | some block =>
    let packet := { zeroPacket with
      command := command
      mid := mid
      remainingLength := body.length }
    -- `packet__queue` has no such cleanup behind it
    let packet ← onErr (packetAlloc env packet) (mosquittoFree env (some block))
    let fill : Buffer → Buffer := fun b => { b with data := b.data ++ body }
    touch packet.payload
    packetQueue env block { packet with payload := packet.payload.map fill }

/-! ## Handling a packet -/

/-- `do_disconnect` of the broker: the socket and the state. -/
def doDisconnect (mosq : Mosq σ) : Mosq σ :=
  if mosq.state = .disconnected then mosq
  else { mosq with sock := false, state := .disconnected }

/-- One step of `handle__packet`; what its callees report is its own business. -/
def runAct : HandlerAct → Call (Mosq σ) MosqError Unit
  | .send command mid body => ignoreErr (sendPacket env command mid body)
  | .setState state => modify fun mosq => { mosq with state := state.state }
  | .inCallback running => modify fun mosq => { mosq with inCallback := running }
  | .socketClose => netSocketClose
  | .disconnect => modify doDisconnect

def runActs : List HandlerAct → Call (Mosq σ) MosqError Unit
  | [] => return ()
  | act :: acts => do
    runAct env act
    runActs acts

/-- The part of `in_packet` that `handle__packet` reads. -/
def Packet.incoming (packet : Packet) : Incoming where
  command := packet.command
  remainingLength := packet.remainingLength
  remainingCount := packet.remainingCount
  payload := (packet.payload.map Buffer.data).getD []
  pos := packet.pos
  toProcess := packet.toProcess

/-- `handle__packet`, then `packet__cleanup`. -/
def handlePacket : Call (Mosq σ) MosqError Unit := do
  let mosq ← get
  let incoming := mosq.inPacket.incoming
  touch mosq.inPacket.payload
  modify fun mosq => { mosq with handled := mosq.handled ++ [(mosq.handed.getLastD [], incoming)] }
  let (acts, rc) := env.handlePacket mosq.handled.length mosq.state incoming
  runActs env acts
  -- whatever the handler returns
  cleanupInPacket env
  ofExcept rc

/-- Clients must send CONNECT as their first command. -/
def refusesCommand (mosq : Mosq σ) (command : UInt8) : Prop :=
  env.role = .broker ∧ mosq.bridge = false ∧ mosq.state = .new ∧ command &&& 0xF0 ≠ CONNECT

instance (mosq : Mosq σ) (command : UInt8) : Decidable (refusesCommand env mosq command) := by
  unfold refusesCommand
  infer_instance

/-! ## Reading from the socket

The two ways to receive have the same loops, each over fields of its own. -/

/-- One more byte of a remaining length.  Anything beyond four bytes means a
    broken or malicious client. -/
def takeLengthByte (part : PacketPart LengthFields) (byte : UInt8) :
    Call (Mosq σ) MosqError Unit := do
  modifyPart part fun l => { l with count := l.count - 1 }
  -- the count goes down as long as the length is incomplete
  failIf ((part.get (← get).inPacket).count < -4) .protocol
  modifyPart part fun l => { l with
    length := (l.length + (byte &&& 127).toNat * l.mult) % 2 ^ 32
    mult := l.mult * 128 % 2 ^ 32 }

/-- The bytes of a remaining length; `false` when there are none left for now. -/
def readLength (part : PacketPart LengthFields) : Nat → Call (Mosq σ) MosqError Bool
  | 0 => throw .protocol
  | fuel + 1 => do
    match ← netRead 1 with
    | some (byte :: _) =>
      takeLengthByte part byte
      if byte &&& 128 ≠ 0 then readLength part fuel else return true
    | some [] => throw .connLost
    | none =>
      comeBackLater
      return false

/-- The bytes of a payload; `false` when they are not all there yet. -/
def readPayload (part : PacketPart PayloadFields) : Nat → Call (Mosq σ) MosqError Bool
  | 0 => return true
  | fuel + 1 => do
    let fields := part.get (← get).inPacket
    if fields.toProcess = 0 then return true
    touch fields.payload
    match ← netRead fields.toProcess with
    | some (b :: bs) =>
      let write : Buffer → Buffer := fun p => { p with data := p.data ++ b :: bs }
      modifyPart part fun f => {
        payload := f.payload.map write
        toProcess := f.toProcess - (b :: bs).length
        pos := f.pos + (b :: bs).length }
      readPayload part fuel
    -- no bytes: the end of the stream is told by errno only
    | _ =>
      comeBackLater
      return false

/-- The remaining length, and the buffer for what it announces. -/
def readHeader (length : PacketPart LengthFields) (payload : PacketPart PayloadFields)
    (purpose : Purpose) : Call (Mosq σ) MosqError Bool := do
  -- a positive count says that the length was read by an earlier call
  if (length.get (← get).inPacket).count ≤ 0 then
    if ← readLength length 5 then
      modifyPart length fun l => { l with count := l.count * -1 }
      let size := (length.get (← get).inPacket).length
      if size > 0 then
        match ← mosquittoMalloc env purpose size with
        | none =>
          modifyPart payload fun f => { f with payload := none }
          throw .nomem
        | some block =>
          modifyPart payload fun f => { f with
            payload := some { block := block, data := [] }
            toProcess := size }
          return true
      else return true
    else return false
  else return true

/-- Everything up to the end of the payload. -/
def readBody (length : PacketPart LengthFields) (payload : PacketPart PayloadFields)
    (purpose : Purpose) : Call (Mosq σ) MosqError Bool := do
  if ← readHeader env length payload purpose then
    readPayload payload (payload.get (← get).inPacket).toProcess
  else return false

/-! ## Receiving under the SMP -/

/-- A frame; `false` when it is not complete. -/
def readSmpFrame : Call (Mosq σ) MosqError Bool :=
  readBody env smpLength smpPayload .smpPayload

/-- What is done with a complete frame.  Its buffer is freed, but the pointer
    to it stays. -/
def processSmpFrame : Call (Mosq σ) MosqError Unit := do
  modifyIn fun p => { p with smpPos := 0 }
  let packet := (← get).inPacket
  let smpPacket := ((packet.smpPayload.map Buffer.data).getD []).take packet.smpRemainingLength
  onlyIf (smpPacket ≠ []) (touch packet.smpPayload)
  modify fun mosq => { mosq with handed := mosq.handed ++ [smpPacket] }
  -- on a failure the function returns here, with the buffer of the frame in place
  let mqttPacket ← onSession (env.wclSmpProcessMessage smpPacket)
  onlyIf (mqttPacket ≠ []) (do
    let block ← libraryBlock env .mqttPacket mqttPacket.length
    modifyIn fun p => { p with mqttPacket := some { block := block, data := mqttPacket } })
  mosquittoFree env (packet.smpPayload.map Buffer.block)
  failIf (mqttPacket = []) .unknown

/-- `packet__read_smp`. -/
def packetReadSmp : Call (Mosq σ) MosqError Unit := do
  if ← readSmpFrame env then processSmpFrame env

/-- The byte of a decrypted packet at an index, wherever the index points. -/
def packetByte (mqttPacket : Bytes) (index : Nat) : Call (Mosq σ) MosqError UInt8 :=
  match mqttPacket[index]? with
  | some b => pure b
  | none =>
    match env.beyondPacket with
    | some beyond => pure (beyond (index - mqttPacket.length))
    | none => fault

/-- The `count` bytes of a decrypted packet from an index on. -/
def packetBytes (mqttPacket : Bytes) (index : Nat) : Nat → Call (Mosq σ) MosqError Bytes
  | 0 => return []
  | count + 1 => do
    let b ← packetByte env mqttPacket index
    let bs ← packetBytes mqttPacket (index + 1) count
    return b :: bs

/-- The length bytes of a decrypted packet; the offset behind them. -/
def decodeRemainingLength (mqttPacket : Bytes) : Nat → Nat → Call (Mosq σ) MosqError Nat
  | 0, _ => throw .protocol
  | fuel + 1, offset => do
    let byte ← packetByte env mqttPacket offset
    takeLengthByte mqttLength byte
    -- the index may come to the length of the packet, and the byte there is read
    if byte &&& 128 ≠ 0 ∧ offset + 1 ≤ mqttPacket.length then
      decodeRemainingLength mqttPacket fuel (offset + 1)
    else return offset + 1

/-- The command of a decrypted packet; the offset behind it. -/
def decodeCommand (mqttPacket : Bytes) : Call (Mosq σ) MosqError Nat := do
  if (← get).inPacket.command = 0 then
    let byte ← packetByte env mqttPacket 0
    modifyIn fun p => { p with command := byte }
    failIf (refusesCommand env (← get) byte) .protocol
    return 1
  else return 0

/-- The remaining length of a decrypted packet; the offset behind it. -/
def decodeLength (mqttPacket : Bytes) (offset : Nat) : Call (Mosq σ) MosqError Nat := do
  if (← get).inPacket.remainingCount ≤ 0 then
    let offset ← decodeRemainingLength env mqttPacket 5 offset
    modifyPart mqttLength fun l => { l with count := l.count * -1 }
    return offset
  else return offset

/-- The payload of a decrypted packet, copied from an offset on. -/
def decodePayload (mqttPacket : Bytes) (offset : Nat) : Call (Mosq σ) MosqError Unit := do
  let length := (← get).inPacket.remainingLength
  if length > 0 then
    match ← mosquittoMalloc env .payload length with
    | none => throw .nomem
    | some block =>
      -- nothing compares the announced length with what is left
      let data ← packetBytes env mqttPacket offset length
      modifyIn fun p => { p with
        payload := some { block := block, data := data }
        toProcess := 0
        pos := 0 }

/-- Take a decrypted packet apart, up to the call of `handle__packet`. -/
def decodeMqttPacket : Call (Mosq σ) MosqError Unit := do
  let mosq ← get
  let mqttPacket := (mosq.inPacket.mqttPacket.map Buffer.data).getD []
  failIf (mqttPacket.length < 2) .protocol
  touch mosq.inPacket.mqttPacket
  let offset ← decodeCommand env mqttPacket
  let offset ← decodeLength env mqttPacket offset
  decodePayload env mqttPacket offset

/-- `packet__read` of the build with the SMP. -/
def packetRead : Call (Mosq σ) MosqError Unit := do
  let mosq ← get
  failIf (mosq.sock = false) .noConn
  if mosq.state = .connectPending then return ()
  if mosq.inPacket.command = 0 then
    packetReadSmp env
    -- errno tells that the frame is not complete
    if (← get).errno = .again then return ()
  decodeMqttPacket env
  handlePacket env

/-! ## Receiving without the SMP -/

/-- The command byte of a packet; `false` when it is not there yet. -/
def readPlainCommand : Call (Mosq σ) MosqError Bool := do
  if (← get).inPacket.command = 0 then
    match ← netRead 1 with
    | some (byte :: _) =>
      modifyIn fun p => { p with command := byte }
      failIf (refusesCommand env (← get) byte) .protocol
      return true
    | some [] => throw .connLost
    | none =>
      comeBackLater
      return false
  else return true

/-- What follows the command, and what is done with the packet. -/
def readPlainBody : Call (Mosq σ) MosqError Unit := do
  if ← readBody env mqttLength mqttPayload .payload then
    modifyIn fun p => { p with pos := 0 }
    handlePacket env

/-- `packet__read` of the build without the SMP. -/
def packetReadPlain : Call (Mosq σ) MosqError Unit := do
  let mosq ← get
  failIf (mosq.sock = false) .noConn
  if mosq.state = .connectPending then return ()
  if ← readPlainCommand env then readPlainBody env

end WeeveMQ
