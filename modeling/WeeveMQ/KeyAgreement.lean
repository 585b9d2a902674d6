/-
  WeeveMQ.KeyAgreement

  The shared keys of a client and a broker, over a network that delivers what
  the two have sent, in any order and as often as it likes, to either side,
  and anything else that no certificate vouches for.

  Elliptic curve Diffie-Hellman is symbolic (`SymbolicDh`): a public parameter
  is `pub` of the private key, and a shared secret is `dh` of the own private
  key and the received parameter.  The invariant says what each session holds
  in terms of the two private keys that were drawn at the openings:

  - its own key, until it is established (`KeyHeld.privateKey`),
  - then `dh` of it and the peer's public parameter (`KeyHeld.sharedKey`).
-/

import WeeveMQ.SessionInvariant

namespace WeeveMQ

open Call
open WclSmpMessageType

variable {cbor : TinyCbor} {role : Role} {env : Env}

/-! ## Two sessions and their network -/

/-- ECDH in this environment: key generation and agreement give these values,
    when they give any. -/
structure SymbolicDh (pub : Bytes → Bytes) (dh : Bytes → Bytes → Bytes) (env : Env) : Prop where
  makeKey : ∀ privateKey publicKey, env.eccMakeKey = some (privateKey, publicKey) →
    publicKey = pub privateKey
  sharedSecret : ∀ privateKey publicKey secret,
    env.eccSharedSecret privateKey publicKey = some secret → secret = dh privateKey publicKey

/-- One session of each role, each with its own storage, and every message one
    of them has sent. -/
structure Handshake where
  session : Role → Session
  sent : List Bytes

/-- A call at one of the two sessions. -/
structure HandshakeEvent where
  role : Role
  toSessionEvent : SessionEvent

/-- No parameters of this message pass the check of their signature. -/
def SignatureFails (cbor : TinyCbor) (role : Role) (env : Env) (s : Session) (message : Bytes) :
    Prop :=
  ∀ p s', wosMsgUnpackSmpMqttsSEMessage cbor role message = some (.ok p) →
    lSmpVerifySeParams role env p s ≠ some (.ok (), s')

/-- The messages a call sends. -/
def sentBy (ev : SessionEvent) : List Bytes :=
  match ev.call, ev.result with
  | .getMessage _ _, .ok message => [message]
  | _, _ => []

/-- What the network may deliver to a session. -/
def Deliverable (cbor : TinyCbor) (role : Role) (env : Env) (w : Handshake) (message : Bytes) :
    Prop :=
  message ∈ w.sent ∨ SignatureFails cbor role env (w.session role) message

/-- One call at one of the sessions. -/
structure HandshakeStep (cbor : TinyCbor) (pub : Bytes → Bytes) (dh : Bytes → Bytes → Bytes)
    (w : Handshake) (ev : HandshakeEvent) (w' : Handshake) : Prop where
  call : WorkingStep cbor ev.role (w.session ev.role) ev.toSessionEvent (w'.session ev.role)
  other : w'.session ev.role.peer = w.session ev.role.peer
  sent : w'.sent = w.sent ++ sentBy ev.toSessionEvent
  symbolic : SymbolicDh pub dh ev.toSessionEvent.env
  delivered : ∀ message, ev.toSessionEvent.call = .processMessage message →
    Deliverable cbor ev.role ev.toSessionEvent.env w message

/-! ## The invariant -/

section Invariant

variable {pub : Bytes → Bytes} {dh : Bytes → Bytes → Bytes} {secret : Role → Bytes}

/-- What a session holds of the keys: `own` is the private key it has drawn and
    `peer` the one of the other side. -/
structure KeyHeld (pub : Bytes → Bytes) (dh : Bytes → Bytes → Bytes) (own peer : Bytes)
    (s : Session) : Prop where
  privateKey : ∀ key, s.storage s.ctx.sessionPrivateKeyStorageId = some key → key = own
  publicKey : ∀ key, s.storage s.ctx.sessionPublicKeyStorageId = some key → key = pub own
  sharedKey : ∀ key, s.storage s.ctx.sessionSharedKeyStorageId = some key → key = dh own (pub peer)

/-- A message on the network carries the public parameter of its sender, or it
    is a control message. -/
def SentMessage (cbor : TinyCbor) (pub : Bytes → Bytes) (secret : Role → Bytes)
    (message : Bytes) : Prop :=
  ∃ h, wosMsgUnpackSmpHeaderFromSmpMsg cbor message = .ok h ∧
    (3 ≤ h.messageType ∨ ∃ sender p, h.messageType = (seMessageType sender).code ∧
      wosMsgUnpackSmpMqttsSEMessage cbor sender.peer message = some (.ok p) ∧
      p.eccDhPubParams = pub (secret sender))

structure AgreementInvariant (cbor : TinyCbor) (pub : Bytes → Bytes) (dh : Bytes → Bytes → Bytes)
    (secret : Role → Bytes) (w : Handshake) : Prop where
  ids : ∀ r, DistinctIds (w.session r).ctx
  session : ∀ r, SessionInvariant r (w.session r)
  held : ∀ r, KeyHeld pub dh (secret r) (secret r.peer) (w.session r)
  sent : ∀ message ∈ w.sent, SentMessage cbor pub secret message

/-- A session that accepts a message of the network gets the public parameter of
    its peer. -/
theorem public_of_accepted {s : Session} {message sharedSecret : Bytes} {h : WosSmpHeader}
    {p : WosMsgMqttsSeParams} (known : SentMessage cbor pub secret message)
    (accepted : SeAccepted cbor role env s message h p sharedSecret) :
    p.eccDhPubParams = pub (secret role.peer) := by
  obtain ⟨h', hh', hkind⟩ := known
  obtain rfl : h = h' := Except.ok.inj (accepted.routed.unpacked.symm.trans hh')
  have htype := accepted.type
  rcases hkind with hcontrol | ⟨sender, p', hsender, hp', hpub⟩
  · cases role <;> simp [seMessageType, Role.peer] at htype <;> omega
  · have hpeer : sender = role.peer := by
      rw [hsender] at htype
      revert htype
      cases sender <;> cases role <;> decide
    subst hpeer
    rw [Role.peer_peer, accepted.derived.unpacked, Option.some.injEq, Except.ok.injEq] at hp'
    rw [hp']
    exact hpub

/-- What a session sends is known on the network. -/
theorem sentMessage_of_sentBy {peer message : Bytes} {s s' : Session} {ev : SessionEvent}
    (held : KeyHeld pub dh (secret role) peer s) (h : SessionOutcome cbor role s ev s')
    (hm : message ∈ sentBy ev) : SentMessage cbor pub secret message := by
  cases h with
  | exported exporting =>
      obtain rfl := List.mem_singleton.mp hm
      refine ⟨_, exporting.header_unpacked cbor, .inr ⟨role, _, ?_, exporting.unpacked cbor, ?_⟩⟩
      · cases role <;> rfl
      · exact held.publicKey _ exporting.publicKey.2.1
  | @secured _ messageType _ _ securable sealing size =>
      obtain rfl := List.mem_singleton.mp hm
      refine ⟨_, sealing.header_unpacked cbor size, .inl ?_⟩
      have hrange := isSecurable_range securable
      show 3 ≤ messageType % 256
      omega
  | notSent => simp [sentBy] at hm
  | established => simp [sentBy] at hm
  | delivered => simp [sentBy] at hm
  | refused => simp [sentBy] at hm

/-- Storing the agreed secret keeps what a session holds. -/
theorem KeyHeld.keyed (role : Role) {own peer sharedSecret : Bytes} {s : Session}
    (works : StorageWorks env)
    (ids : DistinctIds s.ctx) (held : KeyHeld pub dh own peer s)
    (hsecret : sharedSecret = dh own (pub peer)) :
    KeyHeld pub dh own peer (s.keyed env role sharedSecret) := by
  refine ⟨?_, ?_, ?_⟩
  · intro key hkey
    rw [show (s.keyed env role sharedSecret).ctx.sessionPrivateKeyStorageId =
      s.ctx.sessionPrivateKeyStorageId from rfl, keyed_private works ids] at hkey
    cases hkey
  · intro key hkey
    rw [show (s.keyed env role sharedSecret).ctx.sessionPublicKeyStorageId =
      s.ctx.sessionPublicKeyStorageId from rfl, keyed_public works ids] at hkey
    split_ifs at hkey
    exact held.publicKey key hkey
  · intro key hkey
    rw [show (s.keyed env role sharedSecret).ctx.sessionSharedKeyStorageId =
      s.ctx.sessionSharedKeyStorageId from rfl, keyed_shared works ids, Option.some.injEq] at hkey
    rw [← hkey, hsecret]

/-- One call keeps what its session holds. -/
theorem keyHeld_step {s s' : Session} {ev : SessionEvent} (symbolic : SymbolicDh pub dh ev.env)
    (ids : DistinctIds s.ctx) (held : KeyHeld pub dh (secret role) (secret role.peer) s)
    (known : ∀ message, ev.call = .processMessage message →
      SentMessage cbor pub secret message ∨ SignatureFails cbor role ev.env s message)
    (step : WorkingStep cbor role s ev s') :
    KeyHeld pub dh (secret role) (secret role.peer) s' := by
  obtain ⟨call, works⟩ := step
  cases call.outcome with
  | exported => exact ⟨held.privateKey, held.publicKey, held.sharedKey⟩
  | secured => exact ⟨held.privateKey, held.publicKey, held.sharedKey⟩
  | notSent same =>
      rcases same with rfl | rfl <;> exact ⟨held.privateKey, held.publicKey, held.sharedKey⟩
  | @established _ message h p sharedSecret accepted =>
      obtain ⟨privateKey, readable, hshared⟩ := accepted.derived.derived
      have hsecret : sharedSecret = dh (secret role) (pub (secret role.peer)) := by
        rcases known message rfl with hknown | hfails
        · rw [symbolic.sharedSecret _ _ _ hshared, public_of_accepted hknown accepted,
            held.privateKey _ readable.2.1]
        · exact absurd (lSmpVerifySeParams_ok.mpr ⟨accepted.derived.verified, rfl⟩)
            (hfails p s accepted.derived.unpacked)
      have hkeyed := held.keyed role works ids hsecret
      exact ⟨hkeyed.privateKey, hkeyed.publicKey, hkeyed.sharedKey⟩
  | delivered => exact ⟨held.privateKey, held.publicKey, held.sharedKey⟩
  | refused left =>
      rcases left with rfl | ⟨_, _, _, -, hw, -⟩
      · exact held
      · rw [works.writes] at hw
        cases hw

theorem agreementInvariant_step {w w' : Handshake} {ev : HandshakeEvent}
    (hinv : AgreementInvariant cbor pub dh secret w) (step : HandshakeStep cbor pub dh w ev w') :
    AgreementInvariant cbor pub dh secret w' := by
  have hheld := keyHeld_step step.symbolic (hinv.ids ev.role) (hinv.held ev.role)
    (fun message hcall => (step.delivered message hcall).imp_left (hinv.sent message)) step.call
  have hrole : ∀ r, r = ev.role ∨ r = ev.role.peer := by
    intro r
    cases r <;> cases ev.role <;> simp [Role.peer]
  refine ⟨?_, ?_, ?_, ?_⟩
  · intro r
    rcases hrole r with rfl | rfl
    · exact (hinv.ids _).of_fixed step.call.1.outcome.fixed
    · rw [step.other]
      exact hinv.ids _
  · intro r
    rcases hrole r with rfl | rfl
    · exact sessionInvariant_step (hinv.ids _) (hinv.session _) step.call
    · rw [step.other]
      exact hinv.session _
  · intro r
    rcases hrole r with rfl | rfl
    · exact hheld
    · rw [step.other]
      exact hinv.held _
  · intro message hm
    rw [step.sent] at hm
    rcases List.mem_append.mp hm with hm | hm
    · exact hinv.sent message hm
    · exact sentMessage_of_sentBy (hinv.held ev.role) step.call.1.outcome hm

/-! ## Agreement -/

/-- The two sessions as they were opened. -/
structure Opened (pub : Bytes → Bytes) (dh : Bytes → Bytes → Bytes) (w : Handshake) : Prop where
  opened : ∀ r, ∃ env store, wclSmpOpen env store =
      some (.ok (w.session r).ctx, (w.session r).storage) ∧
    FreshIds (w.session r).ctx store ∧ SymbolicDh pub dh env
  sent : w.sent = []

/-- The private key a session was opened with. -/
theorem keyHeld_opened {s : Session} {store : KeyStore}
    (opened : wclSmpOpen env store = some (.ok s.ctx, s.storage)) (fresh : FreshIds s.ctx store)
    (symbolic : SymbolicDh pub dh env) : ∃ own, ∀ peer, KeyHeld pub dh own peer s := by
  have ids := distinctIds_opened opened fresh
  have hshared := fresh.unused s.ctx.sessionSharedKeyStorageId (by simp)
  obtain ⟨a, b, c, -, hctx, own, publicKey, hmake, -, -, hstorage⟩ := wclSmpOpen_ok.mp opened
  have hpriv : s.ctx.sessionPrivateKeyStorageId = a := congrArg (·.sessionPrivateKeyStorageId) hctx
  have hpub : s.ctx.sessionPublicKeyStorageId = b := congrArg (·.sessionPublicKeyStorageId) hctx
  have h12 := ids.private_ne_public
  have h13 := ids.private_ne_shared
  have h23 := ids.public_ne_shared
  rw [hpriv, hpub] at h12
  rw [hpriv] at h13
  rw [hpub] at h23
  refine ⟨own, fun peer => ⟨?_, ?_, ?_⟩⟩
  · intro key hkey
    rw [hstorage, hpriv, Function.update_of_ne h12, Function.update_self,
      Option.some.injEq] at hkey
    exact hkey.symm
  · intro key hkey
    rw [hstorage, hpub, Function.update_self, Option.some.injEq] at hkey
    rw [← hkey]
    exact symbolic.makeKey _ _ hmake
  · intro key hkey
    rw [hstorage, Function.update_of_ne h23.symm, Function.update_of_ne h13.symm, hshared] at hkey
    cases hkey

/-- The invariant holds for two sessions that were just opened. -/
theorem agreementInvariant_opened (cbor : TinyCbor) {start : Handshake}
    (opened : Opened pub dh start) :
    ∃ secret, AgreementInvariant cbor pub dh secret start := by
  have hheld : ∀ r, ∃ own, ∀ peer, KeyHeld pub dh own peer (start.session r) := by
    intro r
    obtain ⟨env, store, hopen, fresh, symbolic⟩ := opened.opened r
    exact keyHeld_opened hopen fresh symbolic
  choose secret hsecret using hheld
  refine ⟨secret, ⟨?_, ?_, fun r => hsecret r (secret r.peer), ?_⟩⟩
  · intro r
    obtain ⟨env, store, hopen, fresh, -⟩ := opened.opened r
    exact distinctIds_opened hopen fresh
  · intro r
    obtain ⟨env, store, hopen, fresh, -⟩ := opened.opened r
    exact sessionInvariant_opened hopen fresh
  · rw [opened.sent]
    simp

/-- An established session stays established. -/
theorem established_step {w w' : Handshake} {ev : HandshakeEvent}
    (hinv : AgreementInvariant cbor pub dh secret w)
    (established : ∀ r, (w.session r).ctx.isSessionKeyEstablished = true)
    (step : HandshakeStep cbor pub dh w ev w') :
    ∀ r, (w'.session r).ctx.isSessionKeyEstablished = true := by
  intro r
  by_cases hr : r = ev.role
  · rw [hr]
    exact (storage_of_established (hinv.session _) (established _) step.call).2
  · have hpeer : r = ev.role.peer := by
      revert hr
      cases r <;> cases ev.role <;> simp [Role.peer]
    rw [hpeer, step.other]
    exact established _

/-- Key agreement: once both sessions are established their shared keys are
    equal, and they stay what they are in every continuation of the run. -/
theorem shared_keys_agree {start w : Handshake} {events : List HandshakeEvent}
    (comm : ∀ a b, dh a (pub b) = dh b (pub a)) (opened : Opened pub dh start)
    (run : Run (HandshakeStep cbor pub dh) start events w)
    (established : ∀ r, (w.session r).ctx.isSessionKeyEstablished = true) :
    ∃ key, ∀ events' w', Run (HandshakeStep cbor pub dh) w events' w' →
      ∀ r, (w'.session r).storage (w'.session r).ctx.sessionSharedKeyStorageId = some key := by
  obtain ⟨secret, hstart⟩ := agreementInvariant_opened cbor opened
  have hw : AgreementInvariant cbor pub dh secret w :=
    run.invariant hstart fun _ _ _ => agreementInvariant_step
  refine ⟨dh (secret .client) (pub (secret .broker)), fun events' w' run' r => ?_⟩
  obtain ⟨hinv, hest⟩ := run'.invariant (I := fun w => AgreementInvariant cbor pub dh secret w ∧
      ∀ r, (w.session r).ctx.isSessionKeyEstablished = true) ⟨hw, established⟩
    fun _ _ _ h step => ⟨agreementInvariant_step h.1 step, established_step h.1 h.2 step⟩
  obtain ⟨key, hkey⟩ := Option.ne_none_iff_exists'.mp ((hinv.session r).shared_iff.mp (hest r))
  rw [hkey, (hinv.held r).sharedKey key hkey]
  cases r with
  | client => rfl
  | broker => exact congrArg some (comm _ _)

end Invariant

/-! ## A handshake -/

def samplePub (privateKey : Bytes) : Bytes := [privateKey.headD 0 * 2]

def sampleDh (privateKey publicKey : Bytes) : Bytes :=
  List.replicate 32 (privateKey.headD 0 * publicKey.headD 0)

theorem SymbolicDh.sample : SymbolicDh samplePub sampleDh Env.sample :=
  ⟨by rintro _ _ ⟨⟩; rfl, by rintro _ _ _ ⟨⟩; rfl⟩

theorem sampleDh_comm (a b : Bytes) : sampleDh a (samplePub b) = sampleDh b (samplePub a) := by
  simp only [sampleDh, samplePub, List.headD_cons]
  rw [← UInt8.mul_assoc, UInt8.mul_comm (a.headD 0), UInt8.mul_assoc]

/-- One call of the sample handshake. -/
theorem HandshakeStep.sample {w w' : Handshake} {role : Role} {call : SessionCall}
    {result : Except WclError Bytes}
    (step : SessionStep (rfc7049 64) role (w.session role) ⟨Env.sample, call, result⟩
      (w'.session role))
    (other : w'.session role.peer = w.session role.peer)
    (sent : w'.sent = w.sent ++ sentBy ⟨Env.sample, call, result⟩)
    (delivered : ∀ message, call = .processMessage message → message ∈ w.sent) :
    HandshakeStep (rfc7049 64) samplePub sampleDh w ⟨role, Env.sample, call, result⟩ w' :=
  ⟨⟨step, StorageWorks.sample⟩, other, sent, SymbolicDh.sample,
    fun message h => .inl (delivered message h)⟩

def sampleHandshake (client broker : Session) (sent : List Bytes) : Handshake where
  session
    | .client => client
    | .broker => broker
  sent := sent

/-- A client and a broker that exchange CONNECT and CONNACK. -/
theorem shared_keys_agree_handshake :
    ∃ key, ∀ r, (Session.opened.sent.connected r).storage (sampleId 2) = some key := by
  have connect : HandshakeStep (rfc7049 64) samplePub sampleDh
      (sampleHandshake Session.opened Session.opened []) ⟨.client, _⟩
      (sampleHandshake Session.opened.sent Session.opened [connectMessage [2] [6]]) :=
    .sample sample_connect rfl rfl (by simp)
  have connected : HandshakeStep (rfc7049 64) samplePub sampleDh
      (sampleHandshake Session.opened.sent Session.opened [connectMessage [2] [6]]) ⟨.broker, _⟩
      (sampleHandshake Session.opened.sent (Session.opened.connected .broker)
        [connectMessage [2] [6]]) :=
    .sample sample_connected rfl rfl (by simp [sampleHandshake])
  have connack : HandshakeStep (rfc7049 64) samplePub sampleDh
      (sampleHandshake Session.opened.sent (Session.opened.connected .broker)
        [connectMessage [2] [6]]) ⟨.broker, _⟩
      (sampleHandshake Session.opened.sent (Session.opened.connected .broker).sent
        [connectMessage [2] [6], connackMessage [7]]) :=
    .sample sample_connack rfl rfl (by simp)
  have acknowledged : HandshakeStep (rfc7049 64) samplePub sampleDh
      (sampleHandshake Session.opened.sent (Session.opened.connected .broker).sent
        [connectMessage [2] [6], connackMessage [7]]) ⟨.client, _⟩
      (sampleHandshake (Session.opened.sent.connected .client)
        (Session.opened.connected .broker).sent [connectMessage [2] [6], connackMessage [7]]) :=
    .sample sample_acknowledged rfl rfl (by simp [sampleHandshake])
  have opened : Opened samplePub sampleDh (sampleHandshake Session.opened Session.opened []) := by
    refine ⟨fun r => ⟨Env.sample, KeyStore.sample, ?_⟩, rfl⟩
    cases r <;> exact ⟨wclSmpOpen_sample, FreshIds.sample, SymbolicDh.sample⟩
  obtain ⟨key, hkey⟩ := shared_keys_agree sampleDh_comm opened
    ((((Run.single connect).snoc connected).snoc connack).snoc acknowledged)
    (fun r => by cases r <;> rfl)
  refine ⟨key, fun r => ?_⟩
  have hr := hkey [] _ Run.nil r
  cases r <;> exact hr

end WeeveMQ
