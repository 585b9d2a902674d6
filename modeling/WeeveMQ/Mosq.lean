/-
  WeeveMQ.Mosq

  The MQTT library under the SMP: the client structure of
  `mosquitto_internal.h`, the allocators of `memory_mosq.c` and the socket
  calls of `net_mosq.c`, as the packet code of the next module uses them.

  A pointer to a buffer carries the block it points to and the bytes written
  into it so far; what happens to the blocks is recorded in a log.  What the
  network and the allocator do is given in advance: a script of receive
  results, one of send results, and the outcome of every `malloc`.
-/

import WeeveMQ.Types
import WeeveMQ.Lib.Base128
import WeeveMQ.Lib.Call
import WeeveMQ.Lib.HeapLog

namespace WeeveMQ

open Call

/-! ## Codes and states -/

/-- `MOSQ_ERR_*` without its success code, as far as the modelled code returns it. -/
inductive MosqError where
  | nomem
  | protocol
  | inval
  | noConn
  | connLost
  | payloadSize
  | unknown
  | errno
  deriving DecidableEq, Repr

/-- `mosq_cs_*`, without the states of the SOCKS handshake. -/
inductive MosqState where
  | new
  | connected
  | disconnecting
  | connectAsync
  | connectPending
  | connectSrv
  | disconnectWs
  | disconnected
  | expiring
  | connecting
  | duplicate
  deriving DecidableEq, Repr

/-- The commands of `mqtt3_protocol.h`. -/
def CONNECT : UInt8 := 0x10

def CONNACK : UInt8 := 0x20

def PUBLISH : UInt8 := 0x30

def PUBACK : UInt8 := 0x40

def PUBREC : UInt8 := 0x50

def PUBREL : UInt8 := 0x60

def PUBCOMP : UInt8 := 0x70

def SUBSCRIBE : UInt8 := 0x80

def UNSUBSCRIBE : UInt8 := 0xA0

def PINGREQ : UInt8 := 0xC0

def PINGRESP : UInt8 := 0xD0

def DISCONNECT : UInt8 := 0xE0

/-- `errno`, as far as the code tells its values apart. -/
inductive Errno where
  | zero
  | again
  | connReset
  | other
  deriving DecidableEq, Repr

/-! ## Blocks -/

/-- What a block is for. -/
inductive Purpose where
  | smpPayload
  | mqttPacket
  | payload
  | packet
  | outPayload
  | smpMessage
  | tempSmpMessage
  | other
  deriving DecidableEq, Repr

/-- Where a block comes from. -/
inductive Allocator where
  | mosquitto
  | libc
  | wos
  deriving DecidableEq, Repr

structure BlockKind where
  purpose : Purpose
  allocator : Allocator
  deriving DecidableEq, Repr

abbrev Block := HeapBlock BlockKind

/-- A block `mosquitto__malloc` and its siblings have counted. -/
def isTracked (b : Block) : Bool := b.kind.allocator = .mosquitto

/-- A pointer into the heap: the block, and the bytes written to it. -/
structure Buffer where
  block : Block
  data : Bytes
  deriving DecidableEq, Repr

/-! ## Packets and clients -/

/-- `struct mosquitto__packet` without its link.  `mqttPacket` stands for pointer
    and length; the counters are 32-bit unsigned. -/
structure Packet where
  payload : Option Buffer
  remainingMult : Nat
  remainingLength : Nat
  packetLength : Nat
  toProcess : Nat
  pos : Nat
  mid : UInt16
  command : UInt8
  remainingCount : Int
  smpPayload : Option Buffer
  mqttPacket : Option Buffer
  smpRemainingMult : Nat
  smpRemainingLength : Nat
  smpToProcess : Nat
  smpPos : Nat
  smpRemainingCount : Int
  deriving DecidableEq, Repr

/-- A part of the fields of a packet. -/
structure PacketPart (τ : Type) where
  get : Packet → τ
  set : τ → Packet → Packet
  get_set : ∀ t p, get (set t p) = t
  set_set : ∀ t u p, set t (set u p) = set t p
  set_get : ∀ p, set (get p) p = p

/-- The fields a remaining length is read into.  `count` is negative while it is
    being read, and positive from then on. -/
structure LengthFields where
  mult : Nat
  length : Nat
  count : Int
  deriving DecidableEq, Repr

/-- The fields a payload is read into. -/
structure PayloadFields where
  payload : Option Buffer
  toProcess : Nat
  pos : Nat
  deriving DecidableEq, Repr

/-- `remaining_mult`, `remaining_length` and `remaining_count`. -/
def mqttLength : PacketPart LengthFields where
  get p := { mult := p.remainingMult, length := p.remainingLength, count := p.remainingCount }
  set t p := { p with
    remainingMult := t.mult
    remainingLength := t.length
    remainingCount := t.count }
  get_set _ _ := rfl
  set_set _ _ _ := rfl
  set_get _ := rfl

/-- `smp_remaining_mult`, `smp_remaining_length` and `smp_remaining_count`. -/
def smpLength : PacketPart LengthFields where
  get p := {
    mult := p.smpRemainingMult
    length := p.smpRemainingLength
    count := p.smpRemainingCount }
  set t p := { p with
    smpRemainingMult := t.mult
    smpRemainingLength := t.length
    smpRemainingCount := t.count }
  get_set _ _ := rfl
  set_set _ _ _ := rfl
  set_get _ := rfl

/-- `payload`, `to_process` and `pos`. -/
def mqttPayload : PacketPart PayloadFields where
  get p := { payload := p.payload, toProcess := p.toProcess, pos := p.pos }
  set t p := { p with payload := t.payload, toProcess := t.toProcess, pos := t.pos }
  get_set _ _ := rfl
  set_set _ _ _ := rfl
  set_get _ := rfl

/-- `smp_payload`, `smp_to_process` and `smp_pos`. -/
def smpPayload : PacketPart PayloadFields where
  get p := { payload := p.smpPayload, toProcess := p.smpToProcess, pos := p.smpPos }
  set t p := { p with smpPayload := t.payload, smpToProcess := t.toProcess, smpPos := t.pos }
  get_set _ _ := rfl
  set_set _ _ _ := rfl
  set_get _ := rfl

/-- A packet on its way out.  `origin` is the session its message was secured
    with, as it stood before that; the code has no such field. -/
structure OutPacket (σ : Type) where
  block : Block
  packet : Packet
  origin : σ

/-- What `handle__packet` finds in `in_packet`. -/
structure Incoming where
  command : UInt8
  remainingLength : Nat
  remainingCount : Int
  payload : Bytes
  pos : Nat
  toProcess : Nat
  deriving DecidableEq, Repr

/-- One result of reading the socket. -/
inductive Recv where
  | data (first : UInt8) (rest : Bytes)
  | wouldBlock
  | eof
  | failed (reset : Bool)
  deriving DecidableEq, Repr

/-- One result of writing to the socket: how much it takes beyond one byte, or none. -/
inductive Send where
  | wrote (more : Nat)
  | wouldBlock
  | failed (reset : Bool)
  deriving DecidableEq, Repr

/-- Bytes that went out in one write, the packet they are of, and where in it they began. -/
structure Written (σ : Type) where
  bytes : Bytes
  packet : OutPacket σ
  pos : Nat
  part : bytes <+: ((packet.packet.payload.map Buffer.data).getD []).drop pos

/-- `struct mosquitto`.  `session` is what `smpSession` points to; the last fields
    are the outside world and what was observed of the client so far: the frames
    given to `wclSmpProcessMessage`, the packets given to `handle__packet` with
    the frame each came in, and what was written to the current connection. -/
structure Mosq (σ : Type) where
  sock : Bool
  state : MosqState
  bridge : Bool
  session : σ
  inPacket : Packet
  currentOutPacket : Option (OutPacket σ)
  outPacket : List (OutPacket σ)
  inCallback : Bool
  threaded : Bool
  errno : Errno
  memcount : Nat
  heap : HeapLog BlockKind
  recv : List Recv
  send : List Send
  mallocs : Nat
  handed : List Bytes
  handled : List (Bytes × Incoming)
  wire : List (Written σ)

/-- The states `handle__packet` assigns. -/
inductive HandledState where
  | connected
  | disconnecting
  deriving DecidableEq, Repr

def HandledState.state : HandledState → MosqState
  | connected => .connected
  | disconnecting => .disconnecting

/-- What `handle__packet` does to the client it works for. -/
inductive HandlerAct where
  | send (command : UInt8) (mid : UInt16) (body : Bytes)
  | setState (state : HandledState)
  | inCallback (running : Bool)
  | socketClose
  | disconnect
  deriving DecidableEq, Repr

/-- The build, the code the packets are given to, and the allocator.  `malloc n
    size` is the usable size the `n`-th allocation gets; `beyondPacket` is what
    stands behind a decrypted packet, if reading it does not crash. -/
structure Setup (σ : Type) where
  role : Role
  wclSmpProcessMessage : Bytes → Call σ WclError Bytes
  wclSmpGetMessage : Nat → Bytes → Call σ WclError Bytes
  handlePacket : Nat → MosqState → Incoming → List HandlerAct × Except MosqError Unit
  malloc : Nat → Nat → Option Nat
  memLimit : Nat
  beyondPacket : Option (Nat → UInt8)

variable {σ : Type}

/-- Change the packet that is being read. -/
def modifyIn (f : Packet → Packet) : Call (Mosq σ) MosqError Unit :=
  modify fun mosq => { mosq with inPacket := f mosq.inPacket }

/-- Change one part of it. -/
def modifyPart {τ : Type} (part : PacketPart τ) (f : τ → τ) : Call (Mosq σ) MosqError Unit :=
  modifyIn fun p => part.set (f (part.get p)) p

/-- A call of the SMP library on the client's session. -/
def onSession {α : Type} (x : Call σ WclError α) : Call (Mosq σ) MosqError α :=
  mapErr (fun _ => .unknown)
    (onPart Mosq.session (fun session mosq => { mosq with session := session }) x)

section Functions

variable (env : Setup σ)

/-! ## Allocation -/

/-- `malloc`.  The blocks that are live at one time fit into the address space. -/
def malloc (kind : BlockKind) (size : Nat) : Call (Mosq σ) MosqError (Option Block) := fun mosq =>
  let called := { mosq with mallocs := mosq.mallocs + 1 }
  match env.malloc mosq.mallocs size with
  | none => some (.ok none, called)
  | some usable =>
    if size ≤ usable ∧ mosq.heap.liveSize (fun _ => true) + usable < 2 ^ 64 then
      let block : Block := { id := mosq.heap.length, kind := kind, size := usable }
      some (.ok (some block), { called with heap := .alloc block :: mosq.heap })
    else some (.ok none, called)

/-- The block of a buffer that the SMP library returns; it reports the allocations
    that failed itself. -/
def libraryBlock (purpose : Purpose) (size : Nat) : Call (Mosq σ) MosqError Block := fun mosq =>
  let block : Block := {
    id := mosq.heap.length
    kind := { purpose := purpose, allocator := .wos }
    size := (env.malloc mosq.mallocs size).getD size }
  some (.ok block, { mosq with mallocs := mosq.mallocs + 1, heap := .alloc block :: mosq.heap })

/-- `free`. -/
def free (b : Block) : Call (Mosq σ) MosqError Unit :=
  modify fun mosq => { mosq with heap := .free b :: mosq.heap }

/-- Read or write the contents of a block. -/
def touch (p : Option Buffer) : Call (Mosq σ) MosqError Unit :=
  modify fun mosq =>
    match p with
    | none => mosq
    | some b => { mosq with heap := .use b.block :: mosq.heap }

/-- Memory is tracked in the broker build only. -/
def tracking : Bool := env.role = .broker

/-- The test of the memory limit. -/
def overLimit (mosq : Mosq σ) (size : Nat) : Prop :=
  tracking env ∧ env.memLimit ≠ 0 ∧ (mosq.memcount + size) % 2 ^ 64 > env.memLimit

instance (mosq : Mosq σ) (size : Nat) : Decidable (overLimit env mosq size) := by
  unfold overLimit
  infer_instance

/-- `mosquitto__malloc`; `mosquitto__calloc` for one element does the same. -/
def mosquittoMalloc (purpose : Purpose) (size : Nat) :
    Call (Mosq σ) MosqError (Option Block) := do
  let mosq ← get
  -- the limit is compared with what was asked for, the counter takes the usable size
  if overLimit env mosq size then return none
  let mem ← malloc env { purpose := purpose, allocator := .mosquitto } size
  match mem with
  | none => return none
  | some b =>
    modify fun mosq =>
      if tracking env then { mosq with memcount := (mosq.memcount + b.size) % 2 ^ 64 } else mosq
    return some b

/-- `mosquitto__free`. -/
def mosquittoFree (mem : Option Block) : Call (Mosq σ) MosqError Unit :=
  match mem with
  | none => pure ()
  | some b => do
    modify fun mosq =>
      if tracking env then
        { mosq with memcount := (mosq.memcount + (2 ^ 64 - b.size % 2 ^ 64)) % 2 ^ 64 }
      else mosq
    free b

/-! ## The socket -/

/-- `net__read` of `count` bytes: what it wrote to the buffer, nothing at the end
    of the stream, `none` for -1.  `errno` is cleared first. -/
def netRead (count : Nat) : Call (Mosq σ) MosqError (Option Bytes) := fun mosq =>
  match mosq.recv with
  | [] => some (.ok none, { mosq with errno := .again })
  | .wouldBlock :: rest => some (.ok none, { mosq with errno := .again, recv := rest })
  -- the end of the stream stays
  | .eof :: _ => some (.ok (some []), { mosq with errno := .zero })
  | .failed reset :: rest =>
    some (.ok none, { mosq with errno := if reset then .connReset else .other, recv := rest })
  | .data first rest :: script =>
    let available := first :: rest
    let left := match available.drop count with
      | [] => script
      | b :: bs => .data b bs :: script
    some (.ok (some (available.take count)), { mosq with errno := .zero, recv := left })

/-- `net__write`: how much of the bytes was taken, `none` for -1. -/
def netWrite (bytes : Bytes) : Call (Mosq σ) MosqError (Option Nat) := fun mosq =>
  match mosq.send with
  | [] => some (.ok none, { mosq with errno := .again })
  | .wouldBlock :: rest => some (.ok none, { mosq with errno := .again, send := rest })
  | .failed reset :: rest =>
    some (.ok none, { mosq with errno := if reset then .connReset else .other, send := rest })
  | .wrote more :: rest =>
    some (.ok (some (min (more + 1) bytes.length)), { mosq with errno := .zero, send := rest })

/-- `net__socket_close`. -/
def netSocketClose : Call (Mosq σ) MosqError Unit :=
  modify fun mosq => { mosq with sock := false }

/-- After a read or write without bytes: whether to come back later.  An error
    ends the call. -/
def comeBackLater : Call (Mosq σ) MosqError Unit := do
  match (← get).errno with
  | .again => return ()
  | .connReset => throw .connLost
  | _ => throw .errno

end Functions

end WeeveMQ
