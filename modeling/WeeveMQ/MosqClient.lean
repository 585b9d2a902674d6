/-
  WeeveMQ.MosqClient

  The client API on top of sessions and packets: `connect.c`, the parts of
  `loop.c` and `actions.c` that read, write and send, and the keep-alive check
  of `util_mosq.c`.

  A callback of the application that calls the API again is a later call, with
  `inCallback` set; so is every further round of a loop that reads or writes
  more than one packet.
-/

import WeeveMQ.MosqSession

namespace WeeveMQ

open Call

/-! ## The session of a connection -/

/-- The storage once the session is closed; whether that failed is ignored. -/
def Platform.closeSession (platform : Platform) (s : SmpSession) : Option KeyStore :=
  if s.isOpen then
    (wclSmpClose (platform.envs s.calls) s.session.ctx s.session.storage).map Prod.snd
  else some s.session.storage

/-- The session once the library is stopped and started again, whatever `wclTerminate` and
    `wclInit` report. -/
def Platform.restartLibrary (platform : Platform) (s : SmpSession) : Option SmpSession := do
  let (_, storage) ← wclTerminate (platform.starts s.calls) s.session.storage
  let (_, storage) ← wclInit (platform.starts (s.calls + 1)) platform.files storage
  return { s with session := { s.session with storage := storage }, calls := s.calls + 2 }

/-- `smpSession` once the session is closed, the library started again, and another
    session opened. -/
def Platform.reopen (platform : Platform) (s : SmpSession) : Option SmpSession := do
  let storage ← platform.closeSession s
  let closed := { s with session := { s.session with storage := storage }, isOpen := false }
  let restarted ← platform.restartLibrary { closed with calls := s.calls + 1 }
  platform.openSession restarted

def reopenSession (platform : Platform) : Call (Mosq SmpSession) MosqError Unit := fun mosq =>
  (platform.reopen mosq.session).map fun session => (.ok (), { mosq with session := session })

/-! ## Connecting -/

section Functions

variable {σ : Type} (env : Setup σ)

/-- Free the packets of the old connection, from the current one on. -/
def purgePackets : Nat → Call (Mosq σ) MosqError Unit
  | 0 => return ()
  | fuel + 1 => do
    match (← get).currentOutPacket with
    | none => return ()
    | some out =>
      modify nextOutPacket
      let _ ← packetCleanup env out.packet
      mosquittoFree env (some out.block)
      purgePackets fuel

def purgeQueue : Call (Mosq σ) MosqError Unit := do
  modify fun mosq => if mosq.currentOutPacket.isNone then nextOutPacket mosq else mosq
  purgePackets env ((← get).outPacket.length + 1)

/-- `net__socket_connect`: what will be received and sent on the new socket, unless
    there is none. -/
def netSocketConnect (socket : Option (List Recv × List Send)) :
    Call (Mosq σ) MosqError Unit := do
  modify fun mosq => { mosq with wire := [] }
  match socket with
  | none => throw .errno
  | some (recv, send) => modify fun mosq => { mosq with sock := true, recv := recv, send := send }

/-- The end of a call of `loop.c`: a failure closes the socket. -/
def loopRcHandle (rc : Except MosqError Unit) (mosq : Mosq σ) : Mosq σ :=
  match rc with
  | .ok _ => mosq
  -- `loop.c` closes the socket whatever the error
  | .error _ => { mosq with sock := false }

/-- `send__publish`, `send__subscribe` and `send__unsubscribe` as the API calls them. -/
def sendIfConnected (command : UInt8) (mid : UInt16) (body : Bytes) :
    Call (Mosq σ) MosqError Unit := do
  failIf ((← get).sock = false) .noConn
  sendPacket env command mid body

def mosquittoDisconnect : Call (Mosq σ) MosqError Unit := do
  modify fun mosq => { mosq with state := .disconnecting }
  -- the state is set also without a connection
  failIf ((← get).sock = false) .noConn
  sendPacket env DISCONNECT 0 []

end Functions

/-- The commands of the packets a client sends on a connection behind its CONNECT. -/
def IsClientCommand (command : UInt8) : Prop :=
  command &&& 0xF0 ∈ [PUBLISH, PUBACK, PUBREC, PUBREL, PUBCOMP, SUBSCRIBE, UNSUBSCRIBE, PINGREQ,
    PINGRESP, DISCONNECT]

instance (command : UInt8) : Decidable (IsClientCommand command) := by
  unfold IsClientCommand
  infer_instance

/-- What a handler sends is such a packet. -/
def HandlerAct.OfClient : HandlerAct → Prop
  | .send command _ _ => IsClientCommand command
  | _ => True

/-- What the handlers of a client make of the packets. -/
structure ClientHandlers where
  handlePacket : Nat → MosqState → Incoming → List HandlerAct × Except MosqError Unit
  ofClient : ∀ n state incoming, ∀ act ∈ (handlePacket n state incoming).1, act.OfClient

/-- The client of a platform. -/
def Platform.client (platform : Platform) (handlers : ClientHandlers) : Setup SmpSession :=
  platform.setup .client handlers.handlePacket

/-- `mosquitto__reconnect`.  `body` is what its CONNECT holds behind the header. -/
def mosquittoReconnect (platform : Platform) (handlers : ClientHandlers) (body : Bytes)
    (socket : Option (List Recv × List Send)) : Call (Mosq SmpSession) MosqError Unit := do
  reopenSession platform
  modify fun mosq => { mosq with state := .new }
  -- what was read and what was queued on the old connection is given up
  cleanupInPacket (platform.client handlers)
  purgeQueue (platform.client handlers)
  onlyIf ((← get).sock = true) netSocketClose
  modify fun mosq => { mosq with state := .connecting }
  netSocketConnect socket
  -- if this fails the socket stays open
  sendPacket (platform.client handlers) CONNECT 0 body

/-! ## Calls of the API -/

/-- One call of the API, or one round of it. -/
inductive ClientEvent where
  | reconnect (body : Bytes) (socket : Option (List Recv × List Send))
  | send (command : UInt8) (mid : UInt16) (body : Bytes)
  | read
  | write
  | ping
  | closeSocket
  | disconnect
  | callback (running : Bool)

/-- `mosquitto_connect` and `mosquitto_reconnect`, the calls that send, the rounds of
    `mosquitto_loop_read` and `mosquitto_loop_write`, the two things
    `mosquitto_loop_misc` may do, `mosquitto_disconnect`, and the begin and end of a
    callback. -/
inductive ClientStep (platform : Platform) (handlers : ClientHandlers) (m : Mosq SmpSession) :
    ClientEvent → Mosq SmpSession → Prop
  | reconnect {body socket r m'}
      (call : mosquittoReconnect platform handlers body socket m = some (r, m')) :
      ClientStep platform handlers m (.reconnect body socket) m'
  | send {command mid body r m'} (ofClient : IsClientCommand command)
      (call : sendIfConnected (platform.client handlers) command mid body m = some (r, m')) :
      ClientStep platform handlers m (.send command mid body) m'
  | read {r m'} (call : packetRead (platform.client handlers) m = some (r, m')) :
      ClientStep platform handlers m .read (loopRcHandle r m')
  | write {r m'} (call : packetWrite (platform.client handlers) m = some (r, m')) :
      ClientStep platform handlers m .write (loopRcHandle r m')
  | ping {r m'} (sock : m.sock = true) (connected : m.state = .connected)
      (call : sendPacket (platform.client handlers) PINGREQ 0 [] m = some (r, m')) :
      ClientStep platform handlers m .ping m'
  | closeSocket : ClientStep platform handlers m .closeSocket { m with sock := false }
  | disconnect {r m'} (call : mosquittoDisconnect (platform.client handlers) m = some (r, m')) :
      ClientStep platform handlers m .disconnect m'
  | callback {running} :
      ClientStep platform handlers m (.callback running) { m with inCallback := running }

/-- A client right after `mosquitto_new`: no socket and no packets, and the session that
    `mosquitto_reinitialise` opened last, or NULL if that failed. -/
structure NewClient (platform : Platform) (m : Mosq SmpSession) : Prop where
  sock : m.sock = false
  session : ∃ s, platform.openSession s = some m.session
  current : m.currentOutPacket = none
  queue : m.outPacket = []
  wire : m.wire = []

end WeeveMQ
