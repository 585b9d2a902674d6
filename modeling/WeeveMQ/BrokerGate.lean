/-
  WeeveMQ.BrokerGate

  Whom the broker serves.

  A context that was accepted from a listener goes through three state
  machines: the frame it is in the middle of, the SMP session, and the state
  of the MQTT connection.  `Gate` ties them together: with an open socket a
  context has handled nothing and has no session key, or its first packet was
  a CONNECT out of a session establishment message that was verified.

  `Admits` is that first call of `packet__read`, with the session and the
  environment it had then; `Served` says that the run has come through it.
-/

import WeeveMQ.Lib.Run
import WeeveMQ.MosqSession
import WeeveMQ.PacketBounds
import WeeveMQ.WosCert

namespace WeeveMQ

open Call

/-! ## One call of packet__read -/

section Reading

variable {σ : Type} {env : Setup σ}

/-- The call gives the packet of `m₁` to `handle__packet`. -/
structure Invokes (env : Setup σ) (m m₁ : Mosq σ) : Prop where
  sock : m.sock = true
  reads : m.state ≠ .connectPending
  decodes : ∃ m₀, (if m.inPacket.command = 0 then
      packetReadSmp env m = some (.ok (), m₀) ∧ m₀.errno ≠ .again
    else m₀ = m) ∧ decodeMqttPacket env m₀ = some (.ok (), m₁)

/-- The packet that is handled is what this decrypted packet was taken apart into. -/
def CameFrom (env : Setup σ) (b : Bytes) (incoming : Incoming) : Prop :=
  ∃ m₀ m₁ : Mosq σ, Decrypted b m₀.inPacket ∧ decodeMqttPacket env m₀ = some (.ok (), m₁) ∧
    m₁.inPacket.incoming = incoming

/-- The frame the packet of a call was in, and what the session made of it. -/
structure Arrives (env : Setup σ) (m m₁ : Mosq σ) (frame b : Bytes) : Prop where
  processed : env.wclSmpProcessMessage frame m.session = some (.ok b, m₁.session)
  frame : m₁.handed.getLastD [] = frame
  packet : CameFrom env b m₁.inPacket.incoming
  accepted : ¬ refusesCommand env m m₁.inPacket.command
  handled : m₁.handled = m.handled
  state : m₁.state = m.state
  bridge : m₁.bridge = m.bridge
  sock : m₁.sock = m.sock

/-- Between two packets a call that handles one has decrypted it. -/
theorem Invokes.arrives {m m₁ : Mosq σ} (h : Invokes env m m₁) (hq : Untouched m.inPacket) :
    ∃ frame b, Arrives env m m₁ frame b := by
  obtain ⟨m₀, hread, hdecode⟩ := h.decodes
  rw [if_pos hq.command] at hread
  obtain ⟨m₂, b, hto, hdelivers, hdecrypted⟩ := packetReadSmp_delivers hq hread.1 hread.2
  have hm₂ := ReadSide.ofReadsTo env hto
  have hsession : m₂.session = m.session := by
    obtain ⟨_, _, _, _, _, _, _, rfl⟩ := hto
    rfl
  obtain ⟨hcommand, haccepts⟩ := decodeMqttPacket_command hdecrypted hdecode
  have hincoming : CameFrom env b m₁.inPacket.incoming := ⟨m₀, m₁, hdecrypted, hdecode, rfl⟩
  obtain ⟨_, _, _, _, hm₁⟩ := PacketOnly.decodeMqttPacket _ _ _ hdecode
  refine ⟨m₂.inPacket.frame, b, ?_, ?_, hincoming, ?_, ?_, ?_, ?_, ?_⟩
  · rw [hm₁, ← hsession]
    exact hdelivers.session
  · rw [hm₁]
    show m₀.handed.getLastD [] = _
    rw [hdelivers.handed]
    simp
  · rw [hcommand]
    unfold refusesCommand at haccepts ⊢
    rwa [hdelivers.state, hdelivers.bridge, hm₂.state, hm₂.bridge] at haccepts
  · rw [hm₁]
    exact hdelivers.handled.trans hm₂.handled
  · rw [hm₁]
    exact hdelivers.state.trans hm₂.state
  · rw [hm₁]
    exact hdelivers.bridge.trans hm₂.bridge
  · rw [hm₁]
    exact hdelivers.sock.trans hm₂.sock

/-- Between two packets, or in the middle of a frame. -/
structure BetweenPackets (q : Packet) : Prop where
  untouched : Untouched q
  pending : FramePending q

/-- A call fails before a packet is handled, waits for more of a frame, or
    handles a packet. -/
theorem packetRead_cases {m m' : Mosq σ} {r : Except MosqError Unit}
    (hq : m.sock = true → BetweenPackets m.inPacket) (hreads : m.state ≠ .connectPending)
    (h : packetRead env m = some (r, m')) :
    ((∃ e, r = .error e) ∧ ReadSide env m m') ∨
      (r = .ok () ∧ ReadsTo smpLength smpPayload m m' ∧ BetweenPackets m'.inPacket) ∨
      ∃ m₁, Invokes env m m₁ ∧ handlePacket env m₁ = some (r, m') := by
  unfold packetRead at h
  rw [bind_of_ok get_apply] at h
  rcases bind_some.mp h with ⟨e, he, rfl⟩ | ⟨_, m₀, h₀, h⟩
  · obtain ⟨-, -, rfl⟩ := failIf_error.mp he
    exact .inl ⟨⟨e, rfl⟩, Std.Refl.refl m⟩
  obtain ⟨hsock, rfl⟩ := failIf_ok.mp h₀
  -- an error return has closed the socket, and then the call ends here
  have hsock : m.sock = true := by simpa using hsock
  have hbetween := hq hsock
  rw [if_neg hreads, if_pos hbetween.untouched.command] at h
  rcases bind_some.mp h with ⟨e, he, rfl⟩ | ⟨_, m₀, h₀, h⟩
  · exact .inl ⟨⟨e, rfl⟩, ReadSide.packetReadSmp _ _ _ he⟩
  rw [bind_of_ok get_apply] at h
  split at h
  -- errno tells a frame that is not complete from one that was processed
  · next hagain =>
    cases h
    rcases packetReadSmp_cases hbetween.untouched hbetween.pending h₀ with
      ⟨-, hto, hpending⟩ | ⟨hzero, -⟩
    · refine .inr (.inl ⟨rfl, hto, ?_, hpending⟩)
      obtain ⟨_, _, _, _, _, lf, pf, rfl⟩ := hto
      exact ⟨hbetween.untouched.command, hbetween.untouched.length, hbetween.untouched.payload⟩
    · rw [hzero] at hagain
      cases hagain
  · next hdone =>
    have hm₀ := ReadSide.packetReadSmp _ _ _ h₀
    rcases bind_some.mp h with ⟨e, he, rfl⟩ | ⟨_, m₁, h₁, h⟩
    · exact .inl ⟨⟨e, rfl⟩, trans_of (ReadSide env) hm₀
        (.ofPacketOnly (PacketOnly.decodeMqttPacket _ _ _ he))⟩
    · refine .inr (.inr ⟨m₁, ⟨hsock, hreads, m₀, ?_, h₁⟩, h⟩)
      rw [if_pos hbetween.untouched.command]
      exact ⟨h₀, hdone⟩

end Reading

/-! ## Handling in the broker -/

/-- How `handle__connect` goes on behind its check of the state: a CONNACK with this
    acknowledge flag, or a failure, with the CONNACK it sends and whether it closes
    the socket itself. -/
inductive ConnectOutcome where
  | accepted (ack : UInt8) (rc : Except MosqError Unit)
  | refused (connack : Option UInt8) (disconnects : Bool) (e : MosqError)

/-- `send__connack`. -/
def sendConnack (ack result : UInt8) : HandlerAct := .send CONNACK 0 [ack, result]

/-- `handle__connect`.  Multiple CONNECT commands are not accepted. -/
def handleConnect (state : MosqState) (outcome : ConnectOutcome) :
    List HandlerAct × Except MosqError Unit :=
  if state ≠ .new then ([], .error .protocol)
  else
    match outcome with
    | .accepted ack rc => ([.setState .connected, sendConnack ack 0], rc)
    | .refused connack disconnects e =>
      (connack.toList.map (sendConnack 0) ++ if disconnects then [.socketClose] else [], .error e)

/-- What the handlers make of the packets. -/
structure Handlers where
  connect : Nat → Incoming → ConnectOutcome
  other : Nat → MosqState → Incoming → List HandlerAct × Except MosqError Unit

/-- `handle__packet` of the broker. -/
def Handlers.handlePacket (handlers : Handlers) (n : Nat) (state : MosqState)
    (incoming : Incoming) : List HandlerAct × Except MosqError Unit :=
  if incoming.command &&& 0xF0 = CONNECT then handleConnect state (handlers.connect n incoming)
  else handlers.other n state incoming

/-- A new context is connected when `handle__connect` succeeds, and only then. -/
theorem handleConnect_new (outcome : ConnectOutcome) :
    (∃ e, (handleConnect .new outcome).2 = .error e) ∨
      actsState (handleConnect .new outcome).1 .new = .connected := by
  cases outcome with
  | accepted ack rc => exact .inr rfl
  | refused connack disconnects e => exact .inl ⟨e, rfl⟩

/-! ## A context and its main loop -/

/-- The broker of a platform. -/
def Platform.broker (platform : Platform) (handlers : Handlers) : Setup SmpSession :=
  platform.setup .broker handlers.handlePacket

/-- A context that was just accepted from a listener. -/
structure Accepted (m : Mosq SmpSession) : Prop where
  session : ∃ env store ctx store', wclSmpOpen env store = some (.ok ctx, store') ∧
    m.session.session = { ctx := ctx, storage := store' }
  isOpen : m.session.isOpen = true
  sock : m.sock = true
  state : m.state = .new
  bridge : m.bridge = false
  inPacket : m.inPacket = zeroPacket.cleaned
  handed : m.handed = []
  handled : m.handled = []

/-- What the broker does to one context. -/
inductive BrokerEvent where
  | read (r : Except MosqError Unit)
  | write (r : Except MosqError Unit)
  | send (command : UInt8) (mid : UInt16) (body : Bytes) (r : Except MosqError Unit)
  | disconnect
  | otherSession (storage : KeyStore)

/-- The main loop disconnects a context that a call failed for. -/
def afterCall (r : Except MosqError Unit) (m : Mosq SmpSession) : Mosq SmpSession :=
  match r with
  | .ok _ => m
  | .error _ => doDisconnect m

/-- A pending connection is new once it can be written to. -/
def connectionMade (m : Mosq SmpSession) : Mosq SmpSession :=
  if m.state = .connectPending then { m with state := .new } else m

/-- The storage as another session left it. -/
def Mosq.withStorage (storage : KeyStore) (m : Mosq SmpSession) : Mosq SmpSession :=
  { m with session := { m.session with session := { m.session.session with storage := storage } } }

/-- The steps of `loop_handle_reads_writes`, a packet sent on behalf of another
    context, a disconnect for any other reason, and the sessions of other contexts
    that use the same storage. -/
inductive BrokerStep (platform : Platform) (handlers : Handlers) (m : Mosq SmpSession) :
    BrokerEvent → Mosq SmpSession → Prop
  | read {r m'} (call : packetRead (platform.broker handlers) m = some (r, m')) :
      BrokerStep platform handlers m (.read r) (afterCall r m')
  | write {r m'} (call : packetWrite (platform.broker handlers) (connectionMade m) = some (r, m')) :
      BrokerStep platform handlers m (.write r) (afterCall r m')
  | send {command mid body r m'}
      (call : sendPacket (platform.broker handlers) command mid body m = some (r, m')) :
      BrokerStep platform handlers m (.send command mid body r) m'
  | disconnect : BrokerStep platform handlers m .disconnect (doDisconnect m)
  | otherSession {storage} :
      BrokerStep platform handlers m (.otherSession storage) (m.withStorage storage)

/-! ## Being served -/

/-- The call of the session on this frame accepts it as a session establishment message:
    in the environment of the call, and with what is stored then, it verifies signature
    and certificates, and gets this packet out of it. -/
def AdmittedBy (platform : Platform) (s : SmpSession) (frame packet : Bytes) : Prop :=
  ∃ h p sharedSecret,
    SeAccepted platform.cbor .broker (platform.envs s.calls) s.session frame h p sharedSecret ∧
    lSmpVerifySeParams .broker (platform.envs s.calls) p s.session = some (.ok (), s.session) ∧
    p.mqttPacket = packet

/-- In the state `m₀` a call of `packet__read` gives the packet of `m₁` to
    `handle__packet`.  It is a CONNECT, and the first packet of the context; the session
    of `m₀` made it of this frame, and was established with it. -/
structure Admits (platform : Platform) (handlers : Handlers) (m₀ m₁ : Mosq SmpSession)
    (frame packet : Bytes) : Prop where
  invokes : Invokes (platform.broker handlers) m₀ m₁
  arrives : Arrives (platform.broker handlers) m₀ m₁ frame packet
  first : m₀.handled = []
  connect : m₁.inPacket.command &&& 0xF0 = CONNECT
  admitted : AdmittedBy platform m₀.session frame packet

/-- The session has its key, and the first packet that was handled was admitted in one
    of the states that the context has been in. -/
structure Served (platform : Platform) (handlers : Handlers) (past : Mosq SmpSession → Prop)
    (m : Mosq SmpSession) : Prop where
  key : m.session.session.ctx.isSessionKeyEstablished = true
  connect : ∃ m₀ m₁ frame packet rest, past m₀ ∧ Admits platform handlers m₀ m₁ frame packet ∧
    m.handled = (frame, m₁.inPacket.incoming) :: rest

section Serving

variable {platform : Platform} {handlers : Handlers} {past : Mosq SmpSession → Prop}
  {m m' m₁ : Mosq SmpSession}

/-- Being served is never lost. -/
theorem Served.mono (h : Served platform handlers past m) (more : List (Bytes × Incoming))
    (hhandled : m'.handled = m.handled ++ more)
    (hkey : m.session.session.ctx.isSessionKeyEstablished = true →
      m'.session.session.ctx.isSessionKeyEstablished = true) :
    Served platform handlers past m' := by
  obtain ⟨m₀, m₁, frame, packet, rest, hpast, hadmits, hfirst⟩ := h.connect
  refine ⟨hkey h.key, m₀, m₁, frame, packet, rest ++ more, hpast, hadmits, ?_⟩
  rw [hhandled, hfirst, List.cons_append]

/-- The past only grows. -/
theorem Served.later {past' : Mosq SmpSession → Prop} (h : Served platform handlers past m)
    (hpast : ∀ u, past u → past' u) : Served platform handlers past' m := by
  obtain ⟨m₀, m₁, frame, packet, rest, hm₀, hadmits⟩ := h.connect
  exact ⟨h.key, m₀, m₁, frame, packet, rest, hpast m₀ hm₀, hadmits⟩

theorem processesMessages_established {env : Setup SmpSession}
    (henv : env = platform.broker handlers) {s s' : SmpSession}
    (h : Relation.ReflTransGen (ProcessesMessage env) s s')
    (hkey : s.session.ctx.isSessionKeyEstablished = true) :
    s'.session.ctx.isSessionKeyEstablished = true := by
  subst henv
  induction h with
  | refl => exact hkey
  | tail _ hlast ih =>
    obtain ⟨message, r, h⟩ := hlast
    exact (processMessage_outcome h).2.processMessage_established ih

theorem Served.readSide (h : Served platform handlers past m)
    (hread : ReadSide (platform.broker handlers) m m') : Served platform handlers past m' := by
  refine h.mono [] ?_ (processesMessages_established rfl hread.session)
  rw [List.append_nil, hread.handled]

theorem Served.getsMessages (h : Served platform handlers past m) (more : List (Bytes × Incoming))
    (hhandled : m'.handled = m.handled ++ more)
    (hsession : Relation.ReflTransGen (GetsMessage (platform.broker handlers)) m.session
      m'.session) : Served platform handlers past m' := by
  obtain ⟨hkey, -⟩ := getsMessages_established hsession
  exact h.mono more hhandled fun h => hkey.trans h

/-! ## The gate -/

/-- What holds of a context as long as its socket is open. -/
structure GateOpen (platform : Platform) (handlers : Handlers) (past : Mosq SmpSession → Prop)
    (m : Mosq SmpSession) : Prop where
  packets : BetweenPackets m.inPacket
  stage : (m.state = .new ∧ m.session.session.ctx.isSessionKeyEstablished = false ∧
      m.handled = []) ∨
    (m.state ≠ .new ∧ Served platform handlers past m)

/-- The invariant of a context. -/
structure Gate (platform : Platform) (handlers : Handlers) (past : Mosq SmpSession → Prop)
    (m : Mosq SmpSession) : Prop where
  bridge : m.bridge = false
  made : m.state ≠ .connectPending
  closed : Closed m
  connected : m.state = .connected → Served platform handlers past m
  opened : m.sock = true → GateOpen platform handlers past m

theorem Gate.later {past' : Mosq SmpSession → Prop} (h : Gate platform handlers past m)
    (hpast : ∀ u, past u → past' u) : Gate platform handlers past' m :=
  ⟨h.bridge, h.made, h.closed, fun hstate => (h.connected hstate).later hpast, fun hsock =>
    ⟨(h.opened hsock).packets, (h.opened hsock).stage.imp id fun hs => ⟨hs.1, hs.2.later hpast⟩⟩⟩

theorem gate_accepted (h : Accepted m) : Gate platform handlers past m := by
  obtain ⟨env, store, ctx, store', hopen, hsession⟩ := h.session
  obtain ⟨_, _, _, -, rfl, -⟩ := wclSmpOpen_ok.mp hopen
  have hnew : ∀ {state : MosqState}, state ≠ .new → m.state ≠ state := by
    intro state hne
    rw [h.state]
    exact hne.symm
  refine ⟨h.bridge, hnew (by decide), fun hstate => absurd hstate (hnew (by decide)),
    fun hstate => absurd hstate (hnew (by decide)), fun _ => ⟨?_, .inl ⟨h.state, ?_, h.handled⟩⟩⟩
  · rw [h.inPacket]
    exact ⟨.cleaned _, fun hcount => absurd hcount (lt_irrefl 0)⟩
  · rw [hsession]
    rfl

/-- A context that is disconnected passes no packets on. -/
theorem Gate.doDisconnect (hbridge : m.bridge = false) (hclosed : Closed m) :
    Gate platform handlers past (doDisconnect m) := by
  have hstate := doDisconnect_state m
  have hsock := doDisconnect_sock hclosed
  refine ⟨?_, ?_, fun _ => hsock, ?_, ?_⟩
  · unfold WeeveMQ.doDisconnect
    split
    · exact hbridge
    · exact hbridge
  · rw [hstate]
    decide
  · rw [hstate]
    nofun
  · rw [hsock]
    nofun

/-- Sending does not open the gate. -/
theorem Gate.sendSide (h : Gate platform handlers past m)
    (hsend : SendSide (platform.broker handlers) m m') : Gate platform handlers past m' := by
  have hserved : Served platform handlers past m → Served platform handlers past m' := fun hserved =>
    hserved.getsMessages [] (by rw [List.append_nil, hsend.handled]) hsend.session
  refine ⟨hsend.bridge.trans h.bridge, hsend.state ▸ h.made, hsend.closed h.closed,
    fun hstate => hserved (h.connected (hsend.state ▸ hstate)), fun hsock => ?_⟩
  obtain ⟨hpackets, hstage⟩ := h.opened (hsend.sock hsock)
  refine ⟨hsend.inPacket ▸ hpackets, ?_⟩
  -- sending sets neither the state nor the key, and handles no packet
  rcases hstage with ⟨hnew, hkey, hhandled⟩ | ⟨hnew, hs⟩
  · exact .inl ⟨hsend.state.trans hnew, (getsMessages_established hsend.session).1.trans hkey,
      hsend.handled.trans hhandled⟩
  · exact .inr ⟨hsend.state ▸ hnew, hserved hs⟩

/-- The first message a session accepts establishes it. -/
theorem admittedBy_first {message packet : Bytes} {s s' : SmpSession}
    (hkey : s.session.ctx.isSessionKeyEstablished = false)
    (hprocess : (platform.broker handlers).wclSmpProcessMessage message s =
      some (.ok packet, s')) :
    AdmittedBy platform s message packet ∧ s'.session.ctx.isSessionKeyEstablished = true := by
  obtain ⟨hkey', -, h, p, secret, haccepted, hpacket⟩ :=
    (processMessage_outcome hprocess).2.processMessage_first hkey
  refine ⟨⟨h, p, secret, haccepted, ?_, hpacket⟩, hkey'⟩
  exact lSmpVerifySeParams_ok.mpr ⟨haccepted.derived.verified, rfl⟩

/-- With the chain check of the library, a chain of certificates leads from the stored
    root certificate to the key that signed the message. -/
theorem AdmittedBy.signedByChain {message packet : Bytes} {s : SmpSession}
    {verify : Bytes → Bytes → Bytes → Bool} (h : AdmittedBy platform s message packet)
    (hchecks : (platform.envs s.calls).ChecksChains platform.cbor verify) :
    ∃ (p : WosMsgMqttsSeParams) (rootCa : Bytes), p.mqttPacket = packet ∧
      Readable (platform.envs s.calls) s.session s.session.ctx.rootCaStorageId rootCa ∧
      SignedByChain platform.cbor verify rootCa p.certs (p.signedData .client) p.signature := by
  obtain ⟨_, p, _, -, hverify, hpacket⟩ := h
  obtain ⟨rootCa, hread, hsigned⟩ := lSmpVerifySeParams_signedByChain hchecks hverify
  exact ⟨p, rootCa, hpacket, hread, hsigned⟩

/-- The first packet a context handles is a CONNECT, admitted by the call that handles
    it. -/
theorem admits_first {frame packet : Bytes} (hinvokes : Invokes (platform.broker handlers) m m₁)
    (harrives : Arrives (platform.broker handlers) m m₁ frame packet) (hbridge : m.bridge = false)
    (hnew : m.state = .new) (hkey : m.session.session.ctx.isSessionKeyEstablished = false)
    (hhandled : m.handled = []) : Admits platform handlers m m₁ frame packet := by
  refine ⟨hinvokes, harrives, hhandled, ?_, (admittedBy_first hkey harrives.processed).1⟩
  by_contra hother
  exact harrives.accepted ⟨rfl, hbridge, hnew, hother⟩

/-- Once it is handled, the context is served. -/
theorem Admits.served {frame packet : Bytes} {r : Except MosqError Unit}
    (h : Admits platform handlers m m₁ frame packet) (hm : past m)
    (hkey : m.session.session.ctx.isSessionKeyEstablished = false)
    (hhandles : Handles (platform.broker handlers) m₁ r m') :
    Served platform handlers past m' := by
  have hkey₁ := (admittedBy_first hkey h.arrives.processed).2
  obtain ⟨hkey', -⟩ := getsMessages_established hhandles.session
  refine ⟨hkey'.trans hkey₁, m, m₁, frame, packet, [], hm, h, ?_⟩
  rw [hhandles.handled, h.arrives.handled, h.arrives.frame, h.first]
  rfl

/-- What a call of `packet__read` keeps, whatever it reports. -/
theorem Gate.read {r : Except MosqError Unit} (h : Gate platform handlers past m) (hm : past m)
    (hcall : packetRead (platform.broker handlers) m = some (r, m')) :
    m'.bridge = false ∧ Closed m' ∧ (m'.state = .connected → Served platform handlers past m') ∧
      (r = .ok () → Gate platform handlers past m') := by
  rcases packetRead_cases (fun hsock => (h.opened hsock).packets) h.made hcall with
    ⟨⟨e, rfl⟩, hread⟩ | ⟨rfl, hto, hbetween⟩ | ⟨m₁, hinvokes, hhandle⟩
  · -- the call fails before a packet is handled
    have hclosed : Closed m' := fun hstate =>
      hread.sock.trans (h.closed (hread.state ▸ hstate))
    exact ⟨hread.bridge.trans h.bridge, hclosed,
      fun hstate => (h.connected (hread.state ▸ hstate)).readSide hread, nofun⟩
  · -- the frame is not complete
    have hgate : Gate platform handlers past m' := by
      have hread := ReadSide.ofReadsTo (platform.broker handlers) hto
      have hsession : m'.session = m.session := by
        obtain ⟨_, _, _, _, _, _, _, rfl⟩ := hto
        rfl
      refine ⟨hread.bridge.trans h.bridge, hread.state ▸ h.made,
        fun hstate => hread.sock.trans (h.closed (hread.state ▸ hstate)),
        fun hstate => (h.connected (hread.state ▸ hstate)).readSide hread,
        fun hsock => ⟨hbetween, ?_⟩⟩
      rcases (h.opened (hread.sock ▸ hsock)).stage with ⟨hnew, hkey, hhandled⟩ | ⟨hnew, hs⟩
      · exact .inl ⟨hread.state.trans hnew, hsession ▸ hkey, hread.handled.trans hhandled⟩
      · exact .inr ⟨hread.state ▸ hnew, hs.readSide hread⟩
    exact ⟨hgate.bridge, hgate.closed, hgate.connected, fun _ => hgate⟩
  · -- a packet is handled
    have hopen := h.opened hinvokes.sock
    obtain ⟨frame, packet, harrives⟩ := hinvokes.arrives hopen.packets.untouched
    have hhandles := handlePacket_handles hhandle
    have hbridge : m'.bridge = false := hhandles.bridge.trans (harrives.bridge.trans h.bridge)
    have hclosed : Closed m' := hhandles.closed fun hstate =>
      harrives.sock.trans (h.closed (harrives.state ▸ hstate))
    have hbetween : BetweenPackets m'.inPacket := by
      rw [hhandles.inPacket]
      exact ⟨.cleaned _, fun hcount => absurd hcount (lt_irrefl 0)⟩
    -- the first packet is admitted here; behind it the context was served already
    have hserved : Served platform handlers past m' := by
      rcases hopen.stage with ⟨hnew, hkey, hhandled⟩ | ⟨-, hs⟩
      · exact (admits_first hinvokes harrives h.bridge hnew hkey hhandled).served hm hkey hhandles
      · have hout := (processMessage_outcome harrives.processed).2
        have hs₁ : Served platform handlers past m₁ := hs.mono []
          (by rw [List.append_nil, harrives.handled]) hout.processMessage_established
        exact hs₁.getsMessages _ hhandles.handled hhandles.session
    refine ⟨hbridge, hclosed, fun _ => hserved, fun hok => ⟨hbridge, ?_, hclosed, fun _ => hserved,
      fun _ => ⟨hbetween, .inr ⟨?_, hserved⟩⟩⟩⟩
    · rw [hhandles.state, harrives.state]
      exact actsState_ne h.made (by decide)
    · rw [hhandles.state, harrives.state]
      rcases hopen.stage with ⟨hnew, hkey, hhandled⟩ | ⟨hnew, -⟩
      · have hcommand : m₁.inPacket.incoming.command &&& 0xF0 = CONNECT :=
          (admits_first hinvokes harrives h.bridge hnew hkey hhandled).connect
        -- `handle__connect` takes the context out of `.new`, or the call fails
        have hresult := hhandles.result
        rw [harrives.state, hnew] at hresult
        rw [hnew]
        change r = (handlers.handlePacket _ _ _).2 at hresult
        change actsState (handlers.handlePacket _ _ _).1 _ ≠ _
        unfold Handlers.handlePacket at hresult ⊢
        rw [if_pos hcommand] at hresult ⊢
        rcases handleConnect_new (handlers.connect m₁.handled.length m₁.inPacket.incoming) with
          ⟨e, he⟩ | hconnected
        · rw [hok, he] at hresult
          cases hresult
        · rw [hconnected]
          decide
      · exact actsState_ne hnew (by decide)

/-- What the main loop makes of a call. -/
theorem Gate.afterCall {r : Except MosqError Unit} (hbridge : m.bridge = false)
    (hclosed : Closed m) (hok : r = .ok () → Gate platform handlers past m) :
    Gate platform handlers past (afterCall r m) := by
  cases r with
  | ok u => exact hok rfl
  | error e => exact .doDisconnect hbridge hclosed

theorem gate_step {event : BrokerEvent} (h : Gate platform handlers past m) (hm : past m)
    (hstep : BrokerStep platform handlers m event m') : Gate platform handlers past m' := by
  cases hstep with
  | read call =>
    obtain ⟨hbridge, hclosed, -, hok⟩ := h.read hm call
    exact .afterCall hbridge hclosed hok
  | write call =>
    have hmade : connectionMade m = m := if_neg h.made
    rw [hmade] at call
    have hgate := h.sendSide (SendSide.packetWrite _ _ _ call)
    exact .afterCall hgate.bridge hgate.closed fun _ => hgate
  | send call => exact h.sendSide (SendSide.sendPacket _ _ _ call)
  | disconnect => exact .doDisconnect h.bridge h.closed
  | @otherSession storage =>
    -- the context was admitted with the storage it had then
    have hserved (hs : Served platform handlers past m) :
        Served platform handlers past (m.withStorage storage) := ⟨hs.key, hs.connect⟩
    refine ⟨h.bridge, h.made, h.closed, fun hstate => hserved (h.connected hstate),
      fun hsock => ⟨(h.opened hsock).packets, ?_⟩⟩
    rcases (h.opened hsock).stage with hnew | ⟨hnew, hs⟩
    · exact .inl hnew
    · exact .inr ⟨hnew, hserved hs⟩

theorem gate_run {start : Mosq SmpSession} {events : List BrokerEvent} (hstart : Accepted start)
    (run : Run (BrokerStep platform handlers) start events m) :
    Gate platform handlers run.Past m := by
  -- the states the context has been in only grow, so the invariant carries over
  induction run with
  | nil => exact gate_accepted hstart
  | snoc run last ih => exact (gate_step ih run.past_last last).later fun _ hu => hu.snoc last

/-- No context is served before its session is established: in every run of an
    accepted context, a context that is connected, during or after a call, is served;
    so is one whose packet other than a CONNECT is handled; and the first message its
    session accepts is a session establishment message. -/
theorem served_only_established {start : Mosq SmpSession} {events : List BrokerEvent}
    (hstart : Accepted start) (run : Run (BrokerStep platform handlers) start events m) :
    (m.state = .connected → Served platform handlers run.Past m) ∧
      (∀ r m', packetRead (platform.broker handlers) m = some (r, m') → m'.state = .connected →
        Served platform handlers run.Past m') ∧
      (∀ m₁, Invokes (platform.broker handlers) m m₁ →
        m₁.inPacket.command &&& 0xF0 ≠ CONNECT → Served platform handlers run.Past m₁) ∧
      (m.session.session.ctx.isSessionKeyEstablished = false → ∀ message packet s',
        (platform.broker handlers).wclSmpProcessMessage message m.session = some (.ok packet, s') →
          AdmittedBy platform m.session message packet) := by
  have hgate := gate_run hstart run
  refine ⟨hgate.connected, fun r m' hcall => (hgate.read run.past_last hcall).2.2.1, ?_, ?_⟩
  · intro m₁ hinvokes hcommand
    have hopen := hgate.opened hinvokes.sock
    obtain ⟨frame, packet, harrives⟩ := hinvokes.arrives hopen.packets.untouched
    rcases hopen.stage with ⟨hnew, -, -⟩ | ⟨-, hs⟩
    · exact absurd ⟨rfl, hgate.bridge, hnew, hcommand⟩ harrives.accepted
    · have hout := (processMessage_outcome harrives.processed).2
      exact hs.mono [] (by rw [List.append_nil, harrives.handled]) hout.processMessage_established
  · intro hkey message packet s' hprocess
    exact (admittedBy_first hkey hprocess).1

end Serving

/-! ## A context that is served -/

/-- A broker that accepts every CONNECT. -/
def acceptsAll : Handlers where
  connect _ _ := .accepted 0 (.ok ())
  other _ _ _ := ([], .ok ())

/-- A context that is to receive the session establishment message of a CONNECT. -/
def acceptedContext : Mosq SmpSession :=
  freshMosq { session := Session.opened, isOpen := true, opens := 0, calls := 0 } .new
    [.data 21 (connectMessage [2] [CONNECT, 0])]

theorem acceptedContext_accepted : Accepted acceptedContext :=
  ⟨⟨_, _, _, _, wclSmpOpen_sample, rfl⟩, rfl, rfl, rfl, rfl, rfl, rfl, rfl⟩

theorem served_only_established_connect :
    ∃ m, ∃ run : Run (BrokerStep Platform.sample acceptsAll) acceptedContext [.read (.ok ())] m,
      m.state = .connected ∧ Served Platform.sample acceptsAll run.Past m := by
  have hrun : (packetRead (Platform.sample.broker acceptsAll) acceptedContext).map
      (fun r => (r.1.isOk, r.2.state)) = some (true, .connected) := by decide +kernel
  obtain ⟨⟨e | ⟨⟩, m⟩, hread, heq⟩ := Option.map_eq_some_iff.mp hrun
  · cases heq
  · have hstate : m.state = .connected := (Prod.mk.inj heq).2
    have run : Run (BrokerStep Platform.sample acceptsAll) acceptedContext [.read (.ok ())] m :=
      .single (.read hread)
    exact ⟨m, run, hstate, (served_only_established acceptedContext_accepted run).1 hstate⟩

end WeeveMQ
