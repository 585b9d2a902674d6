/-
  WeeveMQ.InOrderChannel

  A client and a broker over a network that delivers every message, unmodified
  and in order: every call succeeds, and what is delivered is what was sent.

  The run is executed (`Connection.step`), so a call that fails or has no
  result ends it.  The environments differ from call to call in everything but
  the cryptography they compute (`UsesCryptography`).

  - `Direction` is the invariant of one direction: the messages in flight, in
    order, carry the packets that were sent and not yet delivered.
  - `Established.step`: an action of the channel succeeds and keeps it.
  - `channel_complete`: runs from the opening on whose sends meet `Fits`.
-/

import WeeveMQ.KeyAgreement
import WeeveMQ.WorkingCalls
import Mathlib.Data.List.Forall2

namespace WeeveMQ

open Call
open WclSmpMessageType

variable {cbor : TinyCbor} {role : Role} {env : Env} {s s' : Session}

variable {C : Cryptography}

/-! ## The connection -/

/-- Two sessions and the network between them, each direction under the role of
    its sender. -/
structure Connection where
  session : Role → Session
  inFlight : Role → List Bytes
  sent : Role → List Bytes
  delivered : Role → List Bytes

/-- One end obtains a message and sends it, or the oldest message of a sender
    reaches its peer. -/
inductive Action where
  | getMessage (role : Role) (messageType : Nat) (stdProtocolPacket : Bytes)
  | processMessage (sender : Role)
  deriving DecidableEq, Repr

namespace Connection

/-- A message was obtained for a packet, and is on its way. -/
def afterGet (c : Connection) (role : Role) (packet message : Bytes) (s' : Session) :
    Connection where
  session := Function.update c.session role s'
  inFlight := Function.update c.inFlight role (c.inFlight role ++ [message])
  sent := Function.update c.sent role (c.sent role ++ [packet])
  delivered := c.delivered

/-- The oldest message of a sender gave its peer a packet; `rest` are the others. -/
def afterProcess (c : Connection) (sender : Role) (rest : List Bytes) (packet : Bytes)
    (s' : Session) : Connection where
  session := Function.update c.session sender.peer s'
  inFlight := Function.update c.inFlight sender rest
  sent := c.sent
  delivered := Function.update c.delivered sender (c.delivered sender ++ [packet])

/-- The connection after an action; there is none after a call that fails. -/
def step (cbor : TinyCbor) (env : Env) (c : Connection) : Action → Option Connection
  | .getMessage role messageType packet =>
      match wclSmpGetMessage cbor role env messageType packet (c.session role) with
      | some (.ok message, s') => some (c.afterGet role packet message s')
      | _ => none
  | .processMessage sender =>
      match c.inFlight sender with
      | [] => some c
      | message :: rest =>
          match wclSmpProcessMessage cbor sender.peer env message (c.session sender.peer) with
          | some (.ok packet, s') => some (c.afterProcess sender rest packet s')
          | _ => none

theorem step_getMessage {c : Connection} {t : Nat} {packet message : Bytes}
    (h : wclSmpGetMessage cbor role env t packet (c.session role) = some (.ok message, s')) :
    c.step cbor env (.getMessage role t packet) = some (c.afterGet role packet message s') := by
  simp only [step, h]

theorem step_processMessage {c : Connection} {sender : Role} {message packet : Bytes}
    {rest : List Bytes} (hflight : c.inFlight sender = message :: rest)
    (h : wclSmpProcessMessage cbor sender.peer env message (c.session sender.peer) =
      some (.ok packet, s')) :
    c.step cbor env (.processMessage sender) = some (c.afterProcess sender rest packet s') := by
  simp only [step, hflight, h]

/-- A run, each action in an environment of its own. -/
def run (cbor : TinyCbor) (c : Connection) : List (Env × Action) → Option Connection
  | [] => some c
  | (env, action) :: actions => (c.step cbor env action).bind fun c' => c'.run cbor actions

/-- Every action of a run meets a condition in the state it finds. -/
def Meets (cbor : TinyCbor) (P : Connection → Action → Prop) (c : Connection) :
    List (Env × Action) → Prop
  | [] => True
  | (env, action) :: actions =>
      P c action ∧ ∀ c', c.step cbor env action = some c' → c'.Meets cbor P actions

theorem run_cons {c c' : Connection} {action : Action} {actions : List (Env × Action)}
    (h : c.step cbor env action = some c') :
    c.run cbor ((env, action) :: actions) = c'.run cbor actions := by
  simp only [run, h, Option.bind_some]

theorem run_append {c : Connection} (xs ys : List (Env × Action)) :
    c.run cbor (xs ++ ys) = (c.run cbor xs).bind fun c' => c'.run cbor ys := by
  induction xs generalizing c with
  | nil => rfl
  | cons a xs ih =>
      obtain ⟨env, action⟩ := a
      simp only [List.cons_append, run]
      cases c.step cbor env action with
      | none => rfl
      | some c₁ => exact ih

theorem Meets.cons {P : Connection → Action → Prop} {c c' : Connection} {action : Action}
    {actions : List (Env × Action)} (hP : P c action) (hstep : c.step cbor env action = some c')
    (h : c'.Meets cbor P actions) : c.Meets cbor P ((env, action) :: actions) := by
  refine ⟨hP, fun c₁ h₁ => ?_⟩
  obtain rfl := Option.some.inj (hstep.symm.trans h₁)
  exact h

theorem Meets.append {P : Connection → Action → Prop} {c : Connection}
    {xs ys : List (Env × Action)} (h : c.Meets cbor P (xs ++ ys)) :
    c.Meets cbor P xs ∧ ∀ c', c.run cbor xs = some c' → c'.Meets cbor P ys := by
  induction xs generalizing c with
  | nil =>
      refine ⟨trivial, fun c' hc' => ?_⟩
      cases hc'
      exact h
  | cons a xs ih =>
      obtain ⟨env, action⟩ := a
      obtain ⟨hfirst, hrest⟩ := h
      refine ⟨⟨hfirst, fun c₁ hstep => (ih (hrest c₁ hstep)).1⟩, fun c' hrun => ?_⟩
      simp only [run] at hrun
      obtain ⟨c₁, hstep, hrun⟩ := Option.bind_eq_some_iff.mp hrun
      exact (ih (hrest c₁ hstep)).2 c' hrun

/-! ### Reads behind the tables -/

theorem step_bounded {c c' : Connection} {action : Action}
    (h : c.step cbor env.bounded action = some c') : c.step cbor env action = some c' := by
  cases action with
  | getMessage role messageType packet =>
      simp only [step] at h ⊢
      split at h
      · rename_i message s' hcall
        rw [wclSmpGetMessage_bounded cbor role env _ _ _ _ hcall]
        exact h
      · cases h
  | processMessage sender =>
      simp only [step] at h ⊢
      split at h
      · exact h
      · split at h
        · rename_i packet s' hcall
          rw [wclSmpProcessMessage_bounded cbor sender.peer env _ _ _ hcall]
          exact h
        · cases h

/-- The same actions where a read behind a label table has no result. -/
def bounded (actions : List (Env × Action)) : List (Env × Action) :=
  actions.map fun a => (a.1.bounded, a.2)

theorem run_bounded {c c' : Connection} {actions : List (Env × Action)}
    (h : c.run cbor (bounded actions) = some c') : c.run cbor actions = some c' := by
  induction actions generalizing c with
  | nil => exact h
  | cons a actions ih =>
      obtain ⟨env, action⟩ := a
      obtain ⟨c₁, hstep, hrun⟩ := Option.bind_eq_some_iff.mp h
      rw [run_cons (step_bounded hstep)]
      exact ih hrun

theorem Meets.bounded {P : Connection → Action → Prop} {c : Connection}
    {actions : List (Env × Action)} (h : c.Meets cbor P actions) :
    c.Meets cbor P (Connection.bounded actions) := by
  induction actions generalizing c with
  | nil => trivial
  | cons a actions ih =>
      obtain ⟨env, action⟩ := a
      exact ⟨h.1, fun c₁ hstep => ih (h.2 c₁ (step_bounded hstep))⟩

end Connection

/-! ## One direction -/

/-- The messages of one direction: `next` is the id the sender uses next and
    `last` the one the receiver has seen last.  Once `next` has wrapped around
    nothing is said about it. -/
structure Direction (cbor : TinyCbor) (C : Cryptography) (key : Bytes) (sender : Role)
    (next last : UInt32) (inFlight : List Bytes) (sent delivered : List Bytes)
    (items : List Item) : Prop where
  carries : List.Forall₂ (Carries cbor C key sender) items inFlight
  sent_eq : sent = delivered ++ items.map Item.packet
  ordered : (last :: items.map Item.messageId).Pairwise (· ≤ ·)
  bounded : next ≠ 0 → ∀ id ∈ last :: items.map Item.messageId, id ≤ next

namespace Direction

variable {key : Bytes} {sender : Role} {next last : UInt32} {inFlight sent delivered : List Bytes}
  {items : List Item}

theorem getMessage {i : Item} {message : Bytes}
    (h : Direction cbor C key sender next last inFlight sent delivered items) (hnext : next ≠ 0)
    (hid : i.messageId = next) (carries : Carries cbor C key sender i message) :
    Direction cbor C key sender (next + 1) last (inFlight ++ [message]) (sent ++ [i.packet])
      delivered (items ++ [i]) := by
  have hbound := h.bounded hnext
  have hids : last :: (items ++ [i]).map Item.messageId =
      (last :: items.map Item.messageId) ++ [next] := by
    simp [hid]
  refine ⟨List.rel_append h.carries (.cons carries .nil), ?_, ?_, ?_⟩
  · simp [h.sent_eq]
  · rw [hids, List.pairwise_append]
    refine ⟨h.ordered, List.pairwise_singleton _ _, fun id hmem b hb => ?_⟩
    obtain rfl := List.mem_singleton.mp hb
    exact hbound id hmem
  · intro hwrap id hmem
    have hle : next ≤ next + 1 := by
      have h1 : (next + 1).toNat ≠ 0 := fun h0 => hwrap (UInt32.toNat_inj.mp h0)
      have h2 := next.toNat_lt
      rw [UInt32.toNat_add] at h1
      rw [UInt32.le_iff_toNat_le, UInt32.toNat_add]
      simp only [UInt32.toNat_one] at h1 ⊢
      omega
    rw [hids, List.mem_append, List.mem_singleton] at hmem
    rcases hmem with hmem | rfl
    · exact UInt32.le_trans (hbound id hmem) hle
    · exact hle

theorem processMessage {message : Bytes} {rest : List Bytes}
    (h : Direction cbor C key sender next last (message :: rest) sent delivered items) :
    ∃ i items', Carries cbor C key sender i message ∧ last ≤ i.messageId ∧
      Direction cbor C key sender next i.messageId rest sent (delivered ++ [i.packet]) items' := by
  obtain ⟨hcarries, hsent, hordered, hbounded⟩ := h
  cases hcarries with
  | @cons i _ items' _ hi hrest =>
      rw [List.map_cons, List.pairwise_cons] at hordered
      refine ⟨i, items', hi, hordered.1 _ List.mem_cons_self, hrest, ?_, hordered.2, ?_⟩
      · simp [hsent]
      · exact fun hnext id hmem => hbounded hnext id (List.mem_cons_of_mem _ hmem)

end Direction

/-! ## After the handshake -/

/-- When the code meets its contract for a message: its size fits 32 bits, and a
    control message is no DISCONNECT, whose label would be read behind the
    table, and finds a send counter that has not wrapped around. -/
def Fits (C : Cryptography) (c : Connection) : Action → Prop
  | .getMessage role messageType packet =>
      if messageType = (seMessageType role).code then
        exportedSize C role (c.session role) packet < 2 ^ 32
      else
        messageType ≠ disconnect.code ∧ (c.session role).ctx.toBeSentMessageId ≠ 0 ∧
          securedSize (c.session role) messageType packet < 2 ^ 32
  | .processMessage _ => True

instance (C : Cryptography) (c : Connection) : (action : Action) → Decidable (Fits C c action)
  | .getMessage _ _ _ => inferInstanceAs (Decidable (ite _ _ _))
  | .processMessage _ => inferInstanceAs (Decidable True)

/-- The actions of the channel. -/
def OfChannel : Action → Prop
  | .getMessage role messageType packet => messageType ∈ channelTypes role ∧ packet ≠ []
  | .processMessage _ => True

/-- Both sessions hold the key, and both directions are in order. -/
structure Established (cbor : TinyCbor) (C : Cryptography) (key : Bytes) (c : Connection) :
    Prop where
  hasKey : ∀ r, HasKey key (c.session r)
  direction : ∀ r, ∃ items, Direction cbor C key r (c.session r).ctx.toBeSentMessageId
    (c.session r.peer).ctx.lastReceivedMessageId (c.inFlight r) (c.sent r) (c.delivered r) items

theorem Role.eq_or_eq_peer (r q : Role) : q = r ∨ q = r.peer := by
  cases r <;> cases q <;> simp [Role.peer]

namespace Established

variable {key : Bytes} {c : Connection}

/-- An action of the channel succeeds and keeps the channel established. -/
theorem step (h : Established cbor C key c) (crypto : UsesCryptography C env) {action : Action}
    (channel : OfChannel action) (fits : Fits C c action) :
    ∃ c', c.step cbor env action = some c' ∧ Established cbor C key c' := by
  -- each action changes one direction: a message enters it, or its first one leaves it
  cases action with
  | getMessage role t packet =>
      obtain ⟨ht, hne⟩ := channel
      rw [Fits, if_neg (channelTypes_decisions ht).2.2.2.1] at fits
      obtain ⟨hdisconnect, hnext, hsize⟩ := fits
      have h13 : t ≤ 13 := by
        have := (channelTypes_decisions ht).2.2.2.2.2.2
        simp only [code] at hdisconnect
        omega
      obtain ⟨message, hcall, carries⟩ :=
        getMessage_succeeds cbor crypto (h.hasKey role) ht h13 hne hsize
      obtain ⟨items, hdir⟩ := h.direction role
      refine ⟨_, Connection.step_getMessage hcall, ?_, ?_⟩
      · intro r
        rcases Role.eq_or_eq_peer role r with rfl | rfl
        · simp only [Connection.afterGet, Function.update_self]
          have hkey := h.hasKey r
          exact ⟨hkey.established, hkey.clientId, hkey.keyId, hkey.stored, hkey.length⟩
        · simp only [Connection.afterGet, Function.update_of_ne (Role.peer_ne role)]
          exact h.hasKey _
      · intro r
        rcases Role.eq_or_eq_peer role r with rfl | rfl
        · simp only [Connection.afterGet, Function.update_self,
            Function.update_of_ne (Role.peer_ne _)]
          exact ⟨_, hdir.getMessage hnext rfl carries⟩
        · simp only [Connection.afterGet, Role.peer_peer, Function.update_self,
            Function.update_of_ne (Role.peer_ne _)]
          have hother := h.direction role.peer
          rw [Role.peer_peer] at hother
          exact hother
  | processMessage sender =>
      obtain ⟨items, hdir⟩ := h.direction sender
      cases hflight : c.inFlight sender with
      -- nothing in flight, nothing delivered
      | nil =>
          refine ⟨c, ?_, h⟩
          simp only [Connection.step, hflight]
      | cons message rest =>
          rw [hflight] at hdir
          obtain ⟨i, items', carries, hlast, hdir'⟩ := hdir.processMessage
          have hcall := processMessage_succeeds crypto (h.hasKey sender.peer) carries hlast
          refine ⟨_, Connection.step_processMessage hflight hcall, ?_, ?_⟩
          · intro r
            rcases Role.eq_or_eq_peer sender r with rfl | rfl
            · simp only [Connection.afterProcess, Function.update_of_ne (Role.peer_ne _).symm]
              exact h.hasKey _
            · simp only [Connection.afterProcess, Function.update_self]
              have hkey := h.hasKey sender.peer
              exact ⟨hkey.established, hkey.clientId, hkey.keyId, hkey.stored, hkey.length⟩
          · intro r
            rcases Role.eq_or_eq_peer sender r with rfl | rfl
            · simp only [Connection.afterProcess, Function.update_self,
                Function.update_of_ne (Role.peer_ne _).symm]
              exact ⟨_, hdir'⟩
            · simp only [Connection.afterProcess, Role.peer_peer, Function.update_self,
                Function.update_of_ne (Role.peer_ne _), Function.update_of_ne (Role.peer_ne _).symm]
              have hother := h.direction sender.peer
              rw [Role.peer_peer] at hother
              exact hother

end Established

/-- Actions of the channel succeed one after the other. -/
theorem Established.run {key : Bytes} {actions : List (Env × Action)} {c : Connection}
    (h : Established cbor C key c) (crypto : ∀ a ∈ actions, UsesCryptography C a.1)
    (channel : ∀ a ∈ actions, OfChannel a.2) (fits : c.Meets cbor (Fits C) actions) :
    ∃ c', c.run cbor actions = some c' ∧ Established cbor C key c' := by
  induction actions generalizing c with
  | nil => exact ⟨c, rfl, h⟩
  | cons a actions ih =>
      obtain ⟨env, action⟩ := a
      obtain ⟨hfits, hrest⟩ := fits
      obtain ⟨c₁, hstep, h₁⟩ := h.step (crypto (env, action) List.mem_cons_self)
        (channel (env, action) List.mem_cons_self) hfits
      obtain ⟨c', hrun, h'⟩ := ih h₁ (fun a ha => crypto a (List.mem_cons_of_mem _ ha))
        (fun a ha => channel a (List.mem_cons_of_mem _ ha)) (hrest c₁ hstep)
      refine ⟨c', ?_, h'⟩
      rw [Connection.run_cons hstep]
      exact hrun

/-! ## The handshake -/

/-- The credentials of a device: the certificate it trusts, its own, and its key. -/
structure Device where
  rootCa : Bytes
  selfCert : Bytes
  selfKey : Bytes

/-- A storage that holds them. -/
structure Device.InStore (d : Device) (store : KeyStore) : Prop where
  rootCa : store (ascii "root_ca") = some d.rootCa ∧ d.rootCa ≠ []
  selfCert : store (ascii "self_cert") = some d.selfCert ∧ d.selfCert ≠ []
  selfKey : store (ascii "self_key") = some d.selfKey ∧ d.selfKey ≠ []

/-- Two sessions as they were opened, on devices that trust each other. -/
structure Connection.Opened (C : Cryptography) (device : Role → Device) (c : Connection) :
    Prop where
  opened : ∀ r, ∃ env store, UsesCryptography C env ∧
    wclSmpOpen env store = some (.ok (c.session r).ctx, (c.session r).storage) ∧
    FreshIds (c.session r).ctx store ∧ (device r).InStore store
  vouched : ∀ r, C.vouches (device r.peer).rootCa (device r).selfCert (device r).selfKey
  idle : ∀ r, c.inFlight r = [] ∧ c.sent r = [] ∧ c.delivered r = []

/-- CONNECT of the client and CONNACK of the broker, both delivered. -/
def handshake (env : Fin 4 → Env) (connectPacket connackPacket : Bytes) : List (Env × Action) :=
  [(env 0, .getMessage .client connect.code connectPacket), (env 1, .processMessage .client),
    (env 2, .getMessage .broker connack.code connackPacket), (env 3, .processMessage .broker)]

/-- What an opened session has: its keys, its device, and counters at zero. -/
structure Waiting (C : Cryptography) (d : Device) (own : Bytes) (s : Session) : Prop where
  ids : DistinctIds s.ctx
  exportable : Exportable C own d.selfCert d.selfKey s
  acceptable : Acceptable C own d.rootCa s
  credentials : s.ctx.selfCertChainStorageId ∉ s.ctx.ids ∧ s.ctx.selfPrivKeyStorageId ∉ s.ctx.ids
  toBeSent : s.ctx.toBeSentMessageId = 0
  lastReceived : s.ctx.lastReceivedMessageId = 0

theorem waiting_opened {s : Session} {d : Device} {store : KeyStore}
    (crypto : UsesCryptography C env)
    (opened : wclSmpOpen env store = some (.ok s.ctx, s.storage)) (fresh : FreshIds s.ctx store)
    (credentials : d.InStore store) : ∃ own, Waiting C d own s := by
  have ids := distinctIds_opened opened fresh
  obtain ⟨a, b, e, drawn, hctx, own, publicKey, hmake, ⟨hown, -⟩, ⟨hpublic, -⟩, hstorage⟩ :=
    wclSmpOpen_ok.mp opened
  obtain ⟨hprivate, rfl⟩ := crypto.makeKey hmake
  have hab : a ≠ b := by
    have h := ids.private_ne_public
    rw [hctx] at h
    exact h
  have hids : s.ctx.ids = [a, b, e] := by
    rw [hctx]
    rfl
  have hfresh : ∀ id ∈ s.ctx.ids, store id = none := fresh.unused
  -- the new ids were unused, so the credentials are where they were
  have hother : ∀ {id content}, store id = some content → id ∉ s.ctx.ids ∧
      s.storage id = some content := by
    intro id content hid
    have hnot : id ∉ s.ctx.ids := by
      intro hmem
      rw [hfresh id hmem] at hid
      cases hid
    refine ⟨hnot, ?_⟩
    rw [hids] at hnot
    simp only [List.mem_cons, List.not_mem_nil, or_false, not_or] at hnot
    rw [hstorage, Function.update_of_ne hnot.2.1, Function.update_of_ne hnot.1, hid]
  obtain ⟨hcert, hcertStored⟩ := hother credentials.selfCert.1
  obtain ⟨hkey, hkeyStored⟩ := hother credentials.selfKey.1
  obtain ⟨-, hrootStored⟩ := hother credentials.rootCa.1
  have hprivateStored : s.storage a = some own := by
    rw [hstorage, Function.update_of_ne hab, Function.update_self]
  have hpublicStored : s.storage b = some (C.pub own) := by
    rw [hstorage, Function.update_self]
  obtain ⟨ctx, storage⟩ := s
  simp only at hctx
  -- the context is the one `wclSmpOpen` gives: its ids are drawn, its counters zero
  subst hctx
  have hempty : wosStringLength [] ≤ WCL_SMP_CLIENT_ID_LENGTH := by decide
  have hcertId : lWosStorageIsKeyValid (ascii "self_cert") = true := by decide
  have hkeyId : lWosStorageIsKeyValid (ascii "self_key") = true := by decide
  have hrootId : lWosStorageIsKeyValid (ascii "root_ca") = true := by decide
  exact ⟨own, ids,
    ⟨hempty, ⟨ids.publicKey, hpublicStored, hpublic⟩,
      ⟨hcertId, hcertStored, credentials.selfCert.2⟩,
      ⟨hkeyId, hkeyStored, credentials.selfKey.2⟩⟩,
    ⟨⟨ids.privateKey, hprivateStored, hown⟩, hprivate, ids.sharedKey,
      ⟨hrootId, hrootStored, credentials.rootCa.2⟩⟩, ⟨hcert, hkey⟩, rfl, rfl⟩

/-- The session after its message with the parameters was obtained. -/
def Session.exported (s : Session) : Session := s.chainOfOne.sent

/-- A session establishment message goes from one end to the other. -/
structure Connection.EstablishedBy (env : Env) (sender : Role) (packet sharedSecret : Bytes)
    (c c' : Connection) : Prop where
  senderSession : c'.session sender = (c.session sender).exported
  receiverSession : c'.session sender.peer = ((c.session sender.peer).keyed env sender.peer
    sharedSecret).received (c.session sender).ctx.toBeSentMessageId
  inFlight : c'.inFlight = c.inFlight
  sent : c'.sent sender = c.sent sender ++ [packet] ∧
    c'.sent sender.peer = c.sent sender.peer
  delivered : c'.delivered sender = c.delivered sender ++ [packet] ∧
    c'.delivered sender.peer = c.delivered sender.peer

theorem Connection.EstablishedBy.sent_eq {c c' : Connection} {sender : Role}
    {packet sharedSecret : Bytes} (h : Connection.EstablishedBy env sender packet sharedSecret c c')
    (hc : ∀ r, c.sent r = c.delivered r) (r : Role) : c'.sent r = c'.delivered r := by
  rcases Role.eq_or_eq_peer sender r with rfl | rfl
  · rw [h.sent.1, h.delivered.1, hc]
  · rw [h.sent.2, h.delivered.2, hc]

theorem establish_run {c : Connection} (sender : Role) {env env' : Env} {d : Device}
    {own peer root packet : Bytes} (cbor : TinyCbor) (crypto : UsesCryptography C env)
    (crypto' : UsesCryptography C env') (idle : c.inFlight sender = [])
    (exportable : Exportable C own d.selfCert d.selfKey (c.session sender))
    (hown : C.isPrivateKey own) (acceptable : Acceptable C peer root (c.session sender.peer))
    (vouched : C.vouches root d.selfCert d.selfKey)
    (hlast : (c.session sender.peer).ctx.lastReceivedMessageId ≤
      (c.session sender).ctx.toBeSentMessageId) (hne : packet ≠ [])
    (hsize : exportedSize C sender (c.session sender) packet < 2 ^ 32) :
    ∃ c', c.run cbor [(env, .getMessage sender (seMessageType sender).code packet),
        (env', .processMessage sender)] = some c' ∧
      Connection.EstablishedBy env' sender packet (C.dh peer (C.pub own)) c c' := by
  obtain ⟨p, exporting, hpub, hcerts, hsigns⟩ := export_succeeds sender crypto exportable
    vouched hne hsize
  have hget : wclSmpGetMessage cbor sender env (seMessageType sender).code packet
      (c.session sender) = some (.ok _, (c.session sender).chainOfOne.sent) :=
    wclSmpGetMessage_ok.mpr (.inl ⟨rfl, p, exporting, rfl, rfl⟩)
  replace hget := Connection.step_getMessage hget
  let c₁ := c.afterGet sender packet (encodeSmpMqttsSEMessage sender p)
    (c.session sender).chainOfOne.sent
  have hpeer : c₁.session sender.peer = c.session sender.peer :=
    Function.update_of_ne (Role.peer_ne _) _ _
  have hflight : c₁.inFlight sender = [encodeSmpMqttsSEMessage sender p] := by
    show Function.update c.inFlight sender _ sender = _
    rw [Function.update_self, idle]
    rfl
  have hprocess := establish_succeeds cbor crypto' acceptable exporting hpub hown hcerts vouched
    hsigns hlast
  rw [← hpeer] at hprocess
  replace hprocess := Connection.step_processMessage hflight hprocess
  refine ⟨_, (Connection.run_cons hget).trans (Connection.run_cons hprocess), ?_, ?_, ?_, ?_, ?_⟩
  · simp only [Connection.afterProcess, Function.update_of_ne (Role.peer_ne _).symm]
    exact Function.update_self _ _ _
  · simp only [Connection.afterProcess, Function.update_self, hpeer]
  · funext r
    simp only [Connection.afterProcess]
    rcases Role.eq_or_eq_peer sender r with rfl | rfl
    · rw [Function.update_self, idle]
    · rw [Function.update_of_ne (Role.peer_ne _)]
      exact Function.update_of_ne (Role.peer_ne _) _ _
  · exact ⟨Function.update_self _ _ _, Function.update_of_ne (Role.peer_ne _) _ _⟩
  · exact ⟨Function.update_self _ _ _, Function.update_of_ne (Role.peer_ne _) _ _⟩

theorem keyed_other {s : Session} {sharedSecret : Bytes} {id : StorageId} (h : id ∉ s.ctx.ids) :
    (s.keyed env role sharedSecret).storage id = s.storage id := by
  simp only [SmpSessionContext.ids, List.mem_cons, List.not_mem_nil, or_false, not_or] at h
  show removeWhen _ _ _ _ id = _
  rw [removeWhen_of_ne h.2.1, removeWhen_of_ne h.1, Function.update_of_ne h.2.2]

theorem Waiting.exported {d : Device} {own : Bytes} {s : Session} (h : Waiting C d own s) :
    Acceptable C own d.rootCa s.exported :=
  ⟨⟨h.acceptable.privateKey.keyId, h.acceptable.privateKey.stored,
      h.acceptable.privateKey.content_ne⟩, h.acceptable.isPrivateKey, h.acceptable.sharedId,
    ⟨h.acceptable.rootCa.keyId, h.acceptable.rootCa.stored, h.acceptable.rootCa.content_ne⟩⟩

/-- The broker can still export its parameters after it has the key. -/
theorem Waiting.keyed_broker {d : Device} {own sharedSecret : Bytes} {s : Session} {id : UInt32}
    (works : StorageWorks env) (h : Waiting C d own s) :
    Exportable C own d.selfCert d.selfKey ((s.keyed env .broker sharedSecret).received id) := by
  have hpublic : (s.keyed env .broker sharedSecret).storage s.ctx.sessionPublicKeyStorageId = _ :=
    keyed_public works h.ids
  rw [if_neg (by decide), h.exportable.publicKey.stored] at hpublic
  refine ⟨h.exportable.clientId, ⟨h.ids.publicKey, hpublic, h.exportable.publicKey.content_ne⟩,
    ⟨h.exportable.selfCert.keyId, ?_, h.exportable.selfCert.content_ne⟩,
    ⟨h.exportable.selfKey.keyId, ?_, h.exportable.selfKey.content_ne⟩⟩
  · show (s.keyed env .broker sharedSecret).storage s.ctx.selfCertChainStorageId = _
    rw [keyed_other h.credentials.1]
    exact h.exportable.selfCert.stored
  · show (s.keyed env .broker sharedSecret).storage s.ctx.selfPrivKeyStorageId = _
    rw [keyed_other h.credentials.2]
    exact h.exportable.selfKey.stored

theorem hasKey_keyed {s : Session} {sharedSecret : Bytes} {id : UInt32} (works : StorageWorks env)
    (ids : DistinctIds s.ctx) (hid : wosStringLength s.ctx.clientId ≤ WCL_SMP_CLIENT_ID_LENGTH)
    (hlen : sharedSecret.length = WOS_CRYPTO_AE_AES256_KEY_LENGTH) :
    HasKey sharedSecret ((s.keyed env role sharedSecret).received id) :=
  ⟨rfl, hid, ids.sharedKey, keyed_shared works ids, hlen⟩

theorem HasKey.exported {key : Bytes} {s : Session} (h : HasKey key s) : HasKey key s.exported :=
  ⟨h.established, h.clientId, h.keyId, h.stored, h.length⟩

/-- The handshake of two opened sessions establishes the channel. -/
theorem handshake_run {device : Role → Device} {c : Connection} {env : Fin 4 → Env}
    {connectPacket connackPacket : Bytes} (cbor : TinyCbor) (opened : c.Opened C device)
    (crypto : ∀ i, UsesCryptography C (env i)) (hconnect : connectPacket ≠ [])
    (hconnack : connackPacket ≠ [])
    (fits : c.Meets cbor (Fits C) (handshake env connectPacket connackPacket)) :
    ∃ key c', c.run cbor (handshake env connectPacket connackPacket) = some c' ∧
      Established cbor C key c' := by
  have hwaiting : ∀ r, ∃ own, Waiting C (device r) own (c.session r) := by
    intro r
    obtain ⟨env, store, hcrypto, hopen, fresh, credentials⟩ := opened.opened r
    exact waiting_opened hcrypto hopen fresh credentials
  obtain ⟨clientKey, client⟩ := hwaiting .client
  obtain ⟨brokerKey, broker⟩ := hwaiting .broker
  have hsplit : handshake env connectPacket connackPacket =
      [(env 0, .getMessage .client connect.code connectPacket), (env 1, .processMessage .client)] ++
        [(env 2, .getMessage .broker connack.code connackPacket),
          (env 3, .processMessage .broker)] := rfl
  rw [hsplit] at fits
  obtain ⟨hfitsConnect, hfitsConnack⟩ := fits.append
  -- the key as the broker derives it; the client derives the same
  let key := C.dh brokerKey (C.pub clientKey)
  have hagree : C.dh clientKey (C.pub brokerKey) = key :=
    C.dh_comm client.acceptable.isPrivateKey broker.acceptable.isPrivateKey
  have hlen : key.length = WOS_CRYPTO_AE_AES256_KEY_LENGTH := (env 0).eccSharedSecret_length
    ((crypto 0).sharedSecret broker.acceptable.isPrivateKey client.acceptable.isPrivateKey)
  -- CONNECT gives the broker the key
  have hlast : (c.session Role.client.peer).ctx.lastReceivedMessageId ≤
      (c.session .client).ctx.toBeSentMessageId := by
    rw [client.toBeSent, show (c.session Role.client.peer).ctx.lastReceivedMessageId = 0 from
      broker.lastReceived]
    exact UInt32.le_refl _
  obtain ⟨c₁, hrun₁, h₁⟩ := establish_run .client cbor (crypto 0) (crypto 1)
    (opened.idle .client).1 client.exportable client.acceptable.isPrivateKey broker.acceptable
    (opened.vouched .client) hlast hconnect hfitsConnect.1
  have hclient₁ : c₁.session .client = (c.session .client).exported := h₁.senderSession
  have hbroker₁ : c₁.session .broker =
      ((c.session .broker).keyed (env 1) .broker key).received 0 := by
    rw [← client.toBeSent]
    exact h₁.receiverSession
  -- CONNACK gives it to the client
  have hidle₁ : c₁.inFlight .broker = [] := by
    rw [h₁.inFlight]
    exact (opened.idle .broker).1
  have hexportable : Exportable C brokerKey (device .broker).selfCert (device .broker).selfKey
      (c₁.session .broker) := by
    rw [hbroker₁]
    exact broker.keyed_broker (crypto 1).storage
  have hacceptable : Acceptable C clientKey (device .client).rootCa (c₁.session .client) := by
    rw [hclient₁]
    exact client.exported
  have hlast₁ : (c₁.session .client).ctx.lastReceivedMessageId ≤
      (c₁.session .broker).ctx.toBeSentMessageId := by
    rw [hclient₁]
    show (c.session .client).ctx.lastReceivedMessageId ≤ _
    rw [client.lastReceived]
    exact UInt32.zero_le
  obtain ⟨c₂, hrun₂, h₂⟩ := establish_run .broker cbor (crypto 2) (crypto 3) hidle₁
    hexportable broker.acceptable.isPrivateKey hacceptable (opened.vouched .broker) hlast₁ hconnack
    (hfitsConnack c₁ hrun₁).1
  have hbrokerNext : (c₁.session .broker).ctx.toBeSentMessageId = 0 := by
    rw [hbroker₁]
    exact broker.toBeSent
  have hbroker₂ : c₂.session .broker = (c₁.session .broker).exported := h₂.senderSession
  have hclient₂ : c₂.session .client =
      ((c.session .client).exported.keyed (env 3) .client key).received 0 := by
    rw [← hbrokerNext, ← hagree, ← hclient₁]
    exact h₂.receiverSession
  refine ⟨key, c₂, ?_, ?_, ?_⟩
  · rw [hsplit, Connection.run_append]
    -- CONNECT and CONNACK are the types of the two roles
    change (c.run cbor [(env 0, .getMessage .client (seMessageType .client).code connectPacket),
      (env 1, .processMessage .client)]).bind _ = _
    rw [hrun₁]
    exact hrun₂
  · intro r
    cases r with
    | client =>
        rw [hclient₂]
        exact hasKey_keyed (crypto 3).storage (client.ids.of_fixed rfl) client.exportable.clientId
          hlen
    | broker =>
        rw [hbroker₂, hbroker₁]
        exact (hasKey_keyed (crypto 1).storage broker.ids broker.exportable.clientId hlen).exported
  -- both packets were delivered, so the channel starts without any in flight
  · have hflight : ∀ r, c₂.inFlight r = [] := by
      intro r
      rw [h₂.inFlight, h₁.inFlight]
      exact (opened.idle r).1
    have hsent : ∀ r, c₂.sent r = c₂.delivered r := by
      refine h₂.sent_eq (h₁.sent_eq fun r => ?_)
      rw [(opened.idle r).2.1, (opened.idle r).2.2]
    have hlast₂ : ∀ r, (c₂.session r).ctx.lastReceivedMessageId = 0 := by
      intro r
      cases r with
      | client =>
          rw [hclient₂]
          rfl
      | broker =>
          rw [hbroker₂, hbroker₁]
          rfl
    intro r
    refine ⟨[], ?_, ?_, ?_, ?_⟩
    · rw [hflight]
      exact .nil
    · simp [hsent r]
    · exact List.pairwise_singleton _ _
    · intro _ id hid
      rw [List.mem_singleton.mp hid, hlast₂]
      exact UInt32.zero_le

/-! ## The channel -/

/-- In-order completeness of the channel: with a working environment every call
    of a run that opens with the handshake succeeds, none reads behind a label
    table, and in each direction the packets delivered are those sent, up to
    the messages still in flight. -/
theorem channel_complete {device : Role → Device} {c : Connection} {env : Fin 4 → Env}
    {connectPacket connackPacket : Bytes} {actions : List (Env × Action)} (cbor : TinyCbor)
    (opened : c.Opened C device) (crypto : ∀ i, UsesCryptography C (env i))
    (crypto' : ∀ a ∈ actions, UsesCryptography C a.1) (hconnect : connectPacket ≠ [])
    (hconnack : connackPacket ≠ []) (channel : ∀ a ∈ actions, OfChannel a.2)
    (fits : c.Meets cbor (Fits C) (handshake env connectPacket connackPacket ++ actions)) :
    ∃ c', c.run cbor (handshake env connectPacket connackPacket ++ actions) = some c' ∧
      c.run cbor (Connection.bounded (handshake env connectPacket connackPacket ++ actions)) =
        some c' ∧
      ∀ r, ∃ pending, c'.sent r = c'.delivered r ++ pending ∧
        pending.length = (c'.inFlight r).length := by
  have hsplit : Connection.bounded (handshake env connectPacket connackPacket ++ actions) =
      handshake (fun i => (env i).bounded) connectPacket connackPacket ++
        Connection.bounded actions := rfl
  have hfits := fits.bounded
  rw [hsplit] at hfits
  obtain ⟨hfitsHandshake, hfitsActions⟩ := hfits.append
  obtain ⟨key, c₁, hrun₁, h₁⟩ := handshake_run cbor opened (fun i => (crypto i).bounded) hconnect
    hconnack hfitsHandshake
  have hcrypto : ∀ a ∈ Connection.bounded actions, UsesCryptography C a.1 := by
    intro a ha
    obtain ⟨b, hb, rfl⟩ := List.mem_map.mp ha
    exact (crypto' b hb).bounded
  have hchannel : ∀ a ∈ Connection.bounded actions, OfChannel a.2 := by
    intro a ha
    obtain ⟨b, hb, rfl⟩ := List.mem_map.mp ha
    exact channel b hb
  obtain ⟨c', hrun', h'⟩ := h₁.run hcrypto hchannel (hfitsActions c₁ hrun₁)
  have hrun : c.run cbor (Connection.bounded
      (handshake env connectPacket connackPacket ++ actions)) = some c' := by
    rw [hsplit, Connection.run_append, hrun₁]
    exact hrun'
  refine ⟨c', Connection.run_bounded hrun, hrun, fun r => ?_⟩
  obtain ⟨items, hdir⟩ := h'.direction r
  exact ⟨items.map Item.packet, hdir.sent_eq, by rw [List.length_map, hdir.carries.length_eq]⟩

/-! ### Sample runs -/

/-- The cryptography of the sample environment. -/
def Cryptography.sample : Cryptography where
  isPrivateKey := fun _ => True
  pub := samplePub
  dh := sampleDh
  hash := id
  signs := fun _ _ signature => signature = [3]
  signatureLength := 1
  encrypt := fun _ _ _ plainText => (plainText, List.replicate 16 5)
  decrypt := fun _ _ _ cipherText => (cipherText, List.replicate 16 5)
  vouches := fun _ _ _ => True
  signs_length := by rintro _ _ _ rfl; rfl
  signatureLength_pos := by decide
  dh_comm := fun {a b} _ _ => sampleDh_comm a b
  decrypt_encrypt := fun _ _ _ _ => rfl

theorem UsesCryptography.sample : UsesCryptography Cryptography.sample Env.sample where
  storage := StorageWorks.sample
  random := fun _ _ _ => ⟨_, rfl⟩
  makeKey := by rintro _ _ ⟨⟩; exact ⟨trivial, rfl⟩
  sharedSecret := fun _ _ => rfl
  hash := fun _ => rfl
  sign := fun _ _ => ⟨[3], rfl, rfl⟩
  validate := fun _ _ => rfl
  encrypt := fun _ _ _ _ => rfl
  decrypt := fun _ _ _ _ => rfl

/-- Two sessions of the sample environment. -/
def Connection.sample : Connection :=
  ⟨fun _ => Session.opened, fun _ => [], fun _ => [], fun _ => []⟩

theorem Connection.Opened.sample :
    Connection.sample.Opened Cryptography.sample fun _ => ⟨[6], [7], [8]⟩ where
  opened := fun _ => ⟨Env.sample, KeyStore.sample, UsesCryptography.sample, wclSmpOpen_sample,
    FreshIds.sample, ⟨by decide, by decide⟩, ⟨by decide, by decide⟩, ⟨by decide, by decide⟩⟩
  vouched := fun _ => trivial
  idle := fun _ => ⟨rfl, rfl, rfl⟩

/-- The PUBLISH of the packet `[1, 2]` the sample client sends after its CONNECT. -/
def secondMessage : Bytes :=
  0x9f :: 0x47 :: 0x9f :: 0 :: 0 :: 3 :: 0x60 :: 1 :: 0xff :: 0x42 :: 1 :: 2 :: 0x4c ::
    (List.replicate 12 0 ++ 0x50 :: (List.replicate 16 5 ++ [0xff]))

theorem sample_publish : SessionStep (rfc7049 64) .client (Session.opened.sent.connected .client)
    ⟨Env.sample, .getMessage publish.code [1, 2], .ok secondMessage⟩
    (Session.opened.sent.connected .client).sent := rfl

/-- The connection while CONNECT is on its way. -/
def Connection.connecting : Connection :=
  Connection.sample.afterGet .client [6] (connectMessage [2] [6]) Session.opened.sent

/-- The connection after the broker has accepted it. -/
def Connection.connected : Connection :=
  Connection.connecting.afterProcess .client [] [6] (Session.opened.connected .broker)

/-- The connection while CONNACK is on its way. -/
def Connection.acknowledging : Connection :=
  Connection.connected.afterGet .broker [7] (connackMessage [7])
    (Session.opened.connected .broker).sent

/-- The connection after the handshake. -/
def Connection.acknowledged : Connection :=
  Connection.acknowledging.afterProcess .broker [] [7] (Session.opened.sent.connected .client)

theorem step_connect : Connection.sample.step (rfc7049 64) Env.sample
    (.getMessage .client connect.code [6]) = some Connection.connecting :=
  Connection.step_getMessage sample_connect

theorem step_connected : Connection.connecting.step (rfc7049 64) Env.sample
    (.processMessage .client) = some Connection.connected :=
  Connection.step_processMessage rfl sample_connected

theorem step_connack : Connection.connected.step (rfc7049 64) Env.sample
    (.getMessage .broker connack.code [7]) = some Connection.acknowledging :=
  Connection.step_getMessage sample_connack

theorem step_acknowledged : Connection.acknowledging.step (rfc7049 64) Env.sample
    (.processMessage .broker) = some Connection.acknowledged :=
  Connection.step_processMessage rfl sample_acknowledged

theorem handshake_sample : Connection.sample.run (rfc7049 64)
    (handshake (fun _ => Env.sample) [6] [7]) = some Connection.acknowledged := by
  rw [handshake, Connection.run_cons step_connect, Connection.run_cons step_connected,
    Connection.run_cons step_connack, Connection.run_cons step_acknowledged]
  rfl

theorem sample_published : SessionStep (rfc7049 64) .broker (Session.opened.connected .broker).sent
    ⟨Env.sample, .processMessage secondMessage, .ok [1, 2]⟩
    ((Session.opened.connected .broker).sent.received 1) := rfl

/-- The connection while PUBLISH is on its way. -/
def Connection.publishing : Connection :=
  Connection.acknowledged.afterGet .client [1, 2] secondMessage
    (Session.opened.sent.connected .client).sent

/-- The connection after the broker has accepted it. -/
def Connection.published : Connection :=
  Connection.publishing.afterProcess .client [] [1, 2]
    ((Session.opened.connected .broker).sent.received 1)

theorem step_publish : Connection.acknowledged.step (rfc7049 64) Env.sample
    (.getMessage .client publish.code [1, 2]) = some Connection.publishing :=
  Connection.step_getMessage sample_publish

theorem step_published : Connection.publishing.step (rfc7049 64) Env.sample
    (.processMessage .client) = some Connection.published :=
  Connection.step_processMessage rfl sample_published

/-- The handshake of the sample sessions, and a PUBLISH that reaches the broker. -/
theorem channel_complete_publish :
    let actions := [(Env.sample, Action.getMessage .client publish.code [1, 2]),
      (Env.sample, .processMessage .client)]
    ∃ c', Connection.sample.run (rfc7049 64)
        (handshake (fun _ => Env.sample) [6] [7] ++ actions) = some c' ∧
      c'.delivered .client = [[6], [1, 2]] ∧ c'.sent .client = c'.delivered .client := by
  intro actions
  have channel : ∀ a ∈ actions, OfChannel a.2 := by
    simp [actions, OfChannel, channelTypes]
  have fits : Connection.sample.Meets (rfc7049 64) (Fits Cryptography.sample)
      (handshake (fun _ => Env.sample) [6] [7] ++ actions) :=
    .cons (by decide) step_connect <| .cons trivial step_connected <|
      .cons (by decide) step_connack <| .cons trivial step_acknowledged <|
      .cons (by decide) step_publish <| .cons trivial step_published trivial
  obtain ⟨c', hrun, -, hdirection⟩ := channel_complete (rfc7049 64) Connection.Opened.sample
    (fun _ => UsesCryptography.sample) (by simp [actions, UsesCryptography.sample])
    (show [6] ≠ [] by decide) (show [7] ≠ [] by decide) channel fits
  have hlast : Connection.published = c' := by
    rw [Connection.run_append, handshake_sample, Option.bind_some,
      Connection.run_cons step_publish, Connection.run_cons step_published] at hrun
    exact Option.some.inj hrun
  subst hlast
  obtain ⟨pending, hsent, hlength⟩ := hdirection .client
  -- nothing is in flight any more
  obtain rfl : pending = [] := List.eq_nil_of_length_eq_zero hlength
  rw [List.append_nil] at hsent
  exact ⟨_, hrun, by decide, hsent⟩

/-- The handshake succeeds, and then the DISCONNECT of the client has no result:
    its label is read behind the table. -/
theorem disconnect_beyond_table :
    (Connection.sample.Opened Cryptography.sample fun _ => ⟨[6], [7], [8]⟩) ∧
      UsesCryptography Cryptography.sample Env.sample ∧
      OfChannel (.getMessage .client disconnect.code [0xe0, 0]) ∧
      Connection.sample.run (rfc7049 64) (handshake (fun _ => Env.sample) [6] [7]) ≠ none ∧
      Connection.sample.run (rfc7049 64) (handshake (fun _ => Env.sample) [6] [7] ++
        [(Env.sample, .getMessage .client disconnect.code [0xe0, 0])]) = none := by
  refine ⟨Connection.Opened.sample, UsesCryptography.sample, by simp [OfChannel, channelTypes], ?_,
    ?_⟩
  · rw [handshake_sample]
    exact Option.some_ne_none _
  · rw [Connection.run_append, handshake_sample]
    rfl

end WeeveMQ
