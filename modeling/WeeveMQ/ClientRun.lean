/-
  WeeveMQ.ClientRun

  What a client writes to its connections.

  Every call of `mosquitto__reconnect` replaces the session, throws away the
  queue of the old connection and opens a new one.  `OnConnection` is the
  invariant that ties the packets on their way out to the session they were
  secured with.

  - `OneSession`: what was written to the connection are packets of the session
    opened for it, its CONNECT first, with increasing ids.
  - `one_session_per_connection`: this holds in every run that reads from no
    connection without a CONNECT, and in which no counter comes to its end.
  - `connection_without_connect`: a connection whose CONNECT was lost.
-/

import WeeveMQ.MosqClient
import WeeveMQ.PacketDecode
import WeeveMQ.QueueOrder

namespace WeeveMQ

open Call

/-! ## One session per connection -/

/-- The packet is a CONNECT with the first id of its session. -/
def SecuredPacket.IsFirst (k : SecuredPacket SmpSession) : Prop :=
  k.command = CONNECT ∧ k.messageId = 0

/-- What was written to the current connection are packets of the session that was
    opened with it, each in order and the CONNECT first; their messages carry the ids
    that increase. -/
structure OneSession (cbor : TinyCbor) (m : Mosq SmpSession) : Prop where
  origin : ∀ w ∈ m.wire, w.packet.origin.opens = m.session.opens
  first : ∀ w ∈ m.wire.head?, w.packet.secured.IsFirst ∧ w.pos = 0
  carried : ∀ w ∈ m.wire, w.packet.secured.CarriesId cbor
  increasing : m.wire.Pairwise fun v w => v.packet.messageId < w.packet.messageId ∨
    v.packet.secured = w.packet.secured ∧ v.pos < w.pos

/-- The invariant of a client: what is on its way belongs to its session, and without
    any of it the session has no key. -/
structure OnConnection (cbor : TinyCbor) (s : SmpSession)
    (line : PieceLine (SecuredPacket SmpSession)) : Prop where
  whole : line.Whole
  ordered : line.Ordered OlderId
  begins : line.Begins SecuredPacket.IsFirst
  carried : ∀ k ∈ line.keys, k.CarriesId cbor
  origin : ∀ k ∈ line.keys, k.origin.opens = s.opens
  below : ∀ k ∈ line.keys, k.messageId < s.nextId
  fresh : line.keys = [] → s.isOpen = true → s.session.ctx.isSessionKeyEstablished = false

theorem OnConnection.oneSession {cbor : TinyCbor} {m : Mosq SmpSession}
    (h : OnConnection cbor m.session m.outLine) : OneSession cbor m := by
  have hkey : ∀ w ∈ m.wire, w.packet.secured ∈ m.outLine.keys := by
    intro w hw
    refine List.mem_append.mpr (.inl ?_)
    exact List.mem_map.mpr ⟨w.piece, List.mem_map_of_mem hw, rfl⟩
  refine ⟨fun w hw => h.origin _ (hkey w hw), ?_, fun w hw => h.carried _ (hkey w hw), ?_⟩
  · intro w hw
    have hpiece : w.piece ∈ m.outLine.log.head? := by
      rw [Mosq.outLine, List.head?_map]
      exact Option.mem_map_of_mem _ hw
    exact ⟨h.begins.log_head _ hpiece, h.begins.start _ hpiece⟩
  · have hlog := h.ordered.log
    rw [Mosq.outLine, List.pairwise_map] at hlog
    exact hlog

/-! ## What a packet does -/

section Line

variable {platform : Platform} {handlers : ClientHandlers} {m m' : Mosq SmpSession}
  {cbor : TinyCbor} {s s' : SmpSession} {x y : PieceLine (SecuredPacket SmpSession)}

theorem OnConnection.empty (h : s.Fresh) : OnConnection cbor s .empty :=
  ⟨.empty, .empty, .empty, nofun, nofun, nofun, fun _ hopen => (h hopen).2⟩

/-- The session goes on, and gets its key only if something is on its way. -/
theorem OnConnection.session (h : OnConnection cbor s x) (hsame : SameSession s s')
    (hid : ∀ a, a < s.nextId → a < s'.nextId)
    (hkey : x.keys = [] → s.session.ctx.isSessionKeyEstablished = false →
      s'.session.ctx.isSessionKeyEstablished = false) : OnConnection cbor s' x := by
  refine ⟨h.whole, h.ordered, h.begins, h.carried, ?_, fun k hk => hid _ (h.below k hk), ?_⟩
  · rw [hsame.opens]
    exact h.origin
  · intro hkeys hopen
    rw [hsame.isOpen] at hopen
    exact hkey hkeys (h.fresh hkeys hopen)

/-- A packet joins the line, with the id its session was at. -/
theorem OnConnection.push (h : OnConnection cbor s x) {k : SecuredPacket SmpSession} {n : Nat}
    (hn : 0 < n) (hcarries : k.CarriesId cbor) (horigin : k.origin.opens = s.opens)
    (hnewer : ∀ a ∈ x.keys, a.messageId < k.messageId) (hbelow : k.messageId < s.nextId)
    (hfirst : x.keys = [] → k.IsFirst) : OnConnection cbor s (x.push k n) := by
  have hkeys : ∀ a ∈ (x.push k n).keys, a ∈ x.keys ∨ a = k := by
    intro a ha
    rw [PieceLine.keys_push, List.mem_append, List.mem_singleton] at ha
    exact ha
  refine ⟨h.whole.push hn, h.ordered.push hnewer, h.begins.push hfirst, ?_, ?_, ?_, ?_⟩
  · intro a ha
    rcases hkeys a ha with ha | rfl
    · exact h.carried a ha
    · exact hcarries
  · intro a ha
    rcases hkeys a ha with ha | rfl
    · exact h.origin a ha
    · exact horigin
  · intro a ha
    rcases hkeys a ha with ha | rfl
    · exact h.below a ha
    · exact hbelow
  · intro hempty
    rw [PieceLine.keys_push] at hempty
    exact absurd hempty (by simp)

theorem OnConnection.writes (h : OnConnection cbor s x)
    (hwrites : Relation.ReflTransGen PieceLine.Writes x y) : OnConnection cbor s y := by
  induction hwrites with
  | refl => exact h
  | tail _ hlast ih =>
    have hkeys := ih.whole.mem_keys hlast
    refine ⟨ih.whole.writes hlast, ih.ordered.writes hlast, ih.begins.writes ih.whole hlast,
      fun k hk => ih.carried k ((hkeys k).mp hk), fun k hk => ih.origin k ((hkeys k).mp hk),
      fun k hk => ih.below k ((hkeys k).mp hk), fun hempty => ih.fresh ?_⟩
    rw [List.eq_nil_iff_forall_not_mem] at hempty ⊢
    exact fun k hk => hempty k ((hkeys k).mpr hk)

/-- The counter moves on by one at most. -/
theorem getMessage_moves {messageType : Nat} {packet : Bytes} {r : Except WclError Bytes}
    (h : (platform.client handlers).wclSmpGetMessage messageType packet s = some (r, s')) :
    NextIdMoves s s' := by
  rcases getMessage_nextId h with ⟨_, -, hnext⟩ | hnext
  · exact .inr hnext
  · exact .inl hnext

/-- Ids stay below a counter that does not start again. -/
theorem NextIdMoves.lt (h : NextIdMoves s s') (hend : s.nextId + 1 ≠ 0) (a : UInt32)
    (ha : a < s.nextId) : a < s'.nextId := by
  rcases h with h | h
  · rw [h]
    exact ha
  · rw [h]
    exact lt_id_succ hend (UInt32.le_of_lt ha)

/-- Sending a packet: the CONNECT of a fresh session, or any other. -/
theorem OnConnection.sends {command : UInt8} {mid : UInt16}
    (h : OnConnection platform.cbor m.session m.outLine)
    (hend : m.session.isOpen = true → m.session.nextId + 1 ≠ 0)
    (hcommand : command = CONNECT ∧ m.session.Fresh ∨
      (command >>> 4).toNat ≠ WclSmpMessageType.connect.code)
    (hsends : SendsPacket (platform.client handlers) command mid m m') :
    OnConnection platform.cbor m'.session m'.outLine ∧ NextIdMoves m.session m'.session := by
  -- nothing left the session, a message was lost behind it, or a message was queued
  cases hsends with
  | notSent session line =>
    rw [session, line]
    exact ⟨h, .inl rfl⟩
  | lost get line =>
    have hmoves := getMessage_moves get
    obtain ⟨hsame, hout⟩ := getMessage_outcome get
    rw [line]
    refine ⟨h.session hsame ?_ fun _ hkey => ?_, hmoves⟩
    · cases hopen : m.session.isOpen with
      | false =>
        rw [getMessage_closed hopen get]
        exact fun _ ha => ha
      | true => exact hmoves.lt (hend hopen)
    · rw [hout.getMessage_established]
      exact hkey
  | @queued packet message get fits line =>
    have hmoves := getMessage_moves get
    obtain ⟨hsame, hout⟩ := getMessage_outcome get
    have hgives := hout.givesOut
    have hnext : m'.session.nextId = m.session.nextId + 1 := hgives.nextId
    obtain ⟨header, hunpack, hid⟩ := hgives.header
    have hopen := getMessage_isOpen get
    have hend := hend hopen
    have hkept : OnConnection platform.cbor m'.session m.outLine := by
      refine h.session hsame (hmoves.lt hend) fun _ hkey => ?_
      rw [hout.getMessage_established]
      exact hkey
    refine ⟨(hkept.push (k := ⟨m.session, command, mid, Base128.encodeFrame 4 message⟩) ?_ ?_
      hsame.opens.symm h.below ?_ ?_).writes line, hmoves⟩
    · rw [Base128.encodeFrame, List.length_append]
      exact Nat.lt_of_lt_of_le (Base128.encode_length_pos 3 _) (Nat.le_add_right ..)
    · refine ⟨header, ⟨message, ?_, hunpack⟩, hid⟩
      rw [← List.append_nil (Base128.encodeFrame 4 message)]
      exact Base128.nextFrame_encodeFrame fits (by decide) []
    · rw [hnext]
      exact lt_id_succ hend (UInt32.le_refl _)
    -- a message without the key is the CONNECT, and the first of its session
    · intro hkeys
      have hkey := h.fresh hkeys hopen
      rcases hcommand with ⟨hconnect, hfresh⟩ | hother
      · exact ⟨hconnect, (hfresh hopen).1⟩
      · -- any other message needs the key
        rcases hgives.type with htype | hestablished
        · exact absurd htype hother
        · rw [hkey] at hestablished
          cases hestablished

end Line

/-! ## Connecting -/

section Calls

variable {platform : Platform} {handlers : ClientHandlers} {m m' : Mosq SmpSession}
  {s s' : SmpSession} {r : Except MosqError Unit}

/-- Every call of `mosquitto__reconnect` starts with a session of its own. -/
theorem Platform.reopen_spec (h : platform.reopen s = some s') :
    s'.opens = s.opens + 1 ∧ s'.Fresh := by
  unfold Platform.reopen at h
  obtain ⟨storage, -, h⟩ := Option.bind_eq_some_iff.mp h
  obtain ⟨restarted, hrestart, hopen⟩ := Option.bind_eq_some_iff.mp h
  have hopens : restarted.opens = s.opens := by
    unfold Platform.restartLibrary at hrestart
    obtain ⟨_, -, hrestart⟩ := Option.bind_eq_some_iff.mp hrestart
    obtain ⟨_, -, hrestart⟩ := Option.bind_eq_some_iff.mp hrestart
    cases hrestart
    rfl
  rw [← hopens]
  exact Platform.openSession_fresh hopen

/-- The packets that wait. -/
def Mosq.waiting {σ : Type} (m : Mosq σ) : List (OutPacket σ) :=
  m.currentOutPacket.toList ++ m.outPacket

/-- The current packet comes before those of the queue. -/
def Mosq.InLine {σ : Type} (m : Mosq σ) : Prop := m.currentOutPacket = none → m.outPacket = []

theorem nextOutPacket_waiting {σ : Type} (m : Mosq σ) :
    (nextOutPacket m).waiting = m.outPacket ∧ (nextOutPacket m).InLine := by
  unfold Mosq.waiting Mosq.InLine nextOutPacket
  cases m.outPacket with
  | nil => exact ⟨rfl, fun _ => rfl⟩
  | cons first rest => exact ⟨rfl, nofun⟩

theorem purgePackets_empty {σ : Type} {env : Setup σ} {fuel : Nat} {m m' : Mosq σ}
    {r : Except MosqError Unit} (hfuel : m.waiting.length ≤ fuel) (hline : m.InLine)
    (h : purgePackets env fuel m = some (r, m')) :
    r = .ok () ∧ m'.waiting = [] ∧ m'.session = m.session := by
  induction fuel generalizing m with
  | zero =>
    cases h
    exact ⟨rfl, List.eq_nil_of_length_eq_zero (Nat.le_zero.mp hfuel), rfl⟩
  | succ fuel ih =>
    unfold purgePackets at h
    rw [bind_of_ok get_apply] at h
    cases hc : m.currentOutPacket with
    | none =>
      simp only [hc] at h
      cases h
      refine ⟨rfl, ?_, rfl⟩
      rw [Mosq.waiting, hc, hline hc]
      rfl
    | some out =>
      simp only [hc] at h
      rw [bind_of_ok modify_apply, bind_of_ok (packetCleanup_apply _ _),
        bind_of_ok (mosquittoFree_apply _ _)] at h
      generalize hm₁ : Mosq.freed env _ _ = m₁ at h
      have hnext : HeapOnly (nextOutPacket m) m₁ := by
        rw [← hm₁]
        exact trans_of HeapOnly (trans_of HeapOnly (HeapOnly.freed _ _) (HeapOnly.freed _ _))
          (HeapOnly.freed _ _)
      obtain ⟨hwaiting, hnextLine⟩ := nextOutPacket_waiting m
      obtain ⟨hwaiting₁, hline₁, hsession₁⟩ : m₁.waiting = m.outPacket ∧ m₁.InLine ∧
          m₁.session = m.session := by
        refine ⟨?_, ?_, hnext.session⟩
        · rw [← hwaiting, Mosq.waiting, hnext.currentOutPacket, hnext.outPacket, Mosq.waiting]
        · rw [Mosq.InLine, hnext.currentOutPacket, hnext.outPacket]
          exact hnextLine
      obtain ⟨hr, hempty, hsession⟩ := ih (by
        rw [hwaiting₁]
        rw [Mosq.waiting, hc, List.length_append] at hfuel
        exact Nat.le_of_succ_le_succ (by simpa [Nat.add_comm] using hfuel)) hline₁ h
      exact ⟨hr, hempty, hsession.trans hsession₁⟩

theorem purgeQueue_empty {σ : Type} {env : Setup σ} {m m' : Mosq σ} {r : Except MosqError Unit}
    (h : purgeQueue env m = some (r, m')) :
    r = .ok () ∧ m'.waiting = [] ∧ m'.session = m.session := by
  unfold purgeQueue at h
  rw [bind_of_ok modify_apply, bind_of_ok get_apply] at h
  cases hc : m.currentOutPacket with
  | none =>
    simp only [hc, Option.isNone_none, if_true] at h
    obtain ⟨hwaiting, hline⟩ := nextOutPacket_waiting m
    refine purgePackets_empty (m := nextOutPacket m) ?_ hline h
    rw [hwaiting]
    cases hq : m.outPacket <;> simp [nextOutPacket, hq]
  | some out =>
    simp only [hc, Option.isNone_some, Bool.false_eq_true, if_false] at h
    refine purgePackets_empty ?_ ?_ h
    · rw [Mosq.waiting, hc, List.length_append, Option.toList_some, List.length_singleton]
      omega
    · intro hnone
      rw [hc] at hnone
      cases hnone

/-- A call of `mosquitto__reconnect` sends the CONNECT of a new session over an empty
    line, if it sends anything. -/
theorem mosquittoReconnect_sends {body : Bytes} {socket : Option (List Recv × List Send)}
    (h : mosquittoReconnect platform handlers body socket m = some (r, m')) :
    ∃ m₁ : Mosq SmpSession, platform.reopen m.session = some m₁.session ∧ m₁.outLine = .empty ∧
      SendsPacket (platform.client handlers) CONNECT 0 m₁ m' := by
  unfold mosquittoReconnect at h
  -- up to the queue
  cases hreopen : platform.reopen m.session with
  | none =>
    rw [bind_apply, reopenSession, hreopen] at h
    cases h
  | some session =>
    have hsession : reopenSession platform m = some (.ok (), { m with session := session }) := by
      rw [reopenSession, hreopen]
      rfl
    rw [bind_of_ok hsession, bind_of_ok modify_apply] at h
    rcases bind_some.mp h with ⟨e, h₂, rfl⟩ | ⟨_, m₂, h₂, h⟩
    · rw [cleanupInPacket_apply] at h₂
      cases h₂
    have hsession₂ : m₂.session = session := by
      rw [cleanupInPacket_apply] at h₂
      cases h₂
      exact (trans_of HeapOnly (HeapOnly.freed _ _) (HeapOnly.freed _ _)).session
    rcases bind_some.mp h with ⟨e, h₃, rfl⟩ | ⟨_, m₃, h₃, h⟩
    · cases (purgeQueue_empty h₃).1
    obtain ⟨-, hwaiting, hsession₃⟩ := purgeQueue_empty h₃
    rw [bind_of_ok get_apply] at h
    rcases bind_some.mp h with ⟨e, h₄, rfl⟩ | ⟨_, m₄, h₄, h⟩
    · exact absurd h₄ (NeverFails.onlyIf neverFails_modify _ _ _)
    have hclosed : m₄.waiting = m₃.waiting ∧ m₄.session = m₃.session := by
      unfold onlyIf at h₄
      split at h₄ <;> cases h₄ <;> exact ⟨rfl, rfl⟩
    rw [bind_of_ok modify_apply] at h
    -- the connection that is opened now has nothing on its wire
    obtain ⟨m₅, hm₅⟩ : ∃ m₅, m₅ = { m₄ with state := MosqState.connecting } := ⟨_, rfl⟩
    rw [← hm₅] at h
    have hwaiting₅ : m₅.waiting = [] := by
      rw [hm₅]
      exact hclosed.1.trans hwaiting
    have hsession₅ : m₅.session = session := by
      rw [hm₅]
      exact hclosed.2.trans (hsession₃.trans hsession₂)
    have hline : ∀ m₆ : Mosq SmpSession, m₆.waiting = m₅.waiting → m₆.wire = [] →
        m₆.outLine = .empty := by
      intro m₆ hw hwire
      have hw : m₆.currentOutPacket.toList ++ m₆.outPacket = [] := hw.trans hwaiting₅
      rw [Mosq.outLine, hwire, hw]
      rfl
    -- without a connection nothing is sent
    cases socket with
    | none =>
      have hconnect : netSocketConnect none m₅ =
          some (.error .errno, { m₅ with wire := [] }) := rfl
      rw [bind_of_error hconnect] at h
      cases h
      exact ⟨{ m₅ with wire := [] }, congrArg some hsession₅.symm, hline _ rfl rfl,
        .notSent rfl rfl⟩
    | some scripts =>
      obtain ⟨recv, send⟩ := scripts
      obtain ⟨m₆, hm₆⟩ : ∃ m₆, m₆ = { m₅ with
        wire := []
        sock := true
        recv := recv
        send := send } := ⟨_, rfl⟩
      have hconnect : netSocketConnect (some (recv, send)) m₅ = some (.ok (), m₆) := by
        rw [hm₆]
        rfl
      rw [bind_of_ok hconnect] at h
      refine ⟨m₆, ?_, hline m₆ ?_ ?_, sendPacket_sends h⟩
      · rw [hm₆]
        exact congrArg some hsession₅.symm
      · rw [hm₆]
        rfl
      · rw [hm₆]

/-! ## Reading -/

/-- A command of a client is not that of a session establishment message. -/
theorem IsClientCommand.ne_connect {command : UInt8} (h : IsClientCommand command) :
    (command >>> 4).toNat ≠ WclSmpMessageType.connect.code := by
  have hall : ∀ n : Fin 256, IsClientCommand (UInt8.ofNat n) →
      (UInt8.ofNat n >>> 4).toNat ≠ WclSmpMessageType.connect.code := by
    decide +kernel
  have hcommand := hall ⟨command.toNat, command.toNat_lt⟩
  rw [UInt8.ofNat_toNat] at hcommand
  exact hcommand h

/-- The client belongs to its connection. -/
def InSession (platform : Platform) (m : Mosq SmpSession) : Prop :=
  OnConnection platform.cbor m.session m.outLine

theorem InSession.congr (h : InSession platform m) (hsession : m'.session = m.session)
    (hline : m'.outLine = m.outLine) : InSession platform m' := by
  unfold InSession
  rw [hsession, hline]
  exact h

theorem NextIdMoves.toNat_le (h : NextIdMoves s s') :
    s'.nextId.toNat ≤ s.nextId.toNat + 1 := by
  rcases h with h | h
  · rw [h]
    exact Nat.le_succ _
  · rw [h, UInt32.toNat_add]
    exact Nat.mod_le ..

theorem succ_ne_zero_of_lt {n : UInt32} (h : n.toNat + 1 < 2 ^ 32) : n + 1 ≠ 0 := by
  intro hzero
  have := congrArg UInt32.toNat hzero
  rw [UInt32.toNat_add] at this
  simp only [UInt32.toNat_one, UInt32.toNat_zero] at this
  omega

theorem runActs_inSession {acts : List HandlerAct}
    (hclient : ∀ act ∈ acts, act.OfClient) (h : InSession platform m)
    (hend : m.session.nextId.toNat + acts.length < 2 ^ 32)
    (hrun : runActs (platform.client handlers) acts m = some (r, m')) :
    InSession platform m' := by
  induction acts generalizing m with
  | nil =>
    cases hrun
    exact h
  | cons act acts ih =>
    rw [List.length_cons] at hend
    rcases bind_some.mp hrun with ⟨e, h₁, -⟩ | ⟨_, m₁, h₁, hrun⟩
    · cases act with
      | send command mid body => exact absurd h₁ ignoreErr_error
      | setState state => cases h₁
      | inCallback running => cases h₁
      | socketClose => cases h₁
      | disconnect => cases h₁
    have hact : act.OfClient := hclient act (List.mem_cons_self ..)
    obtain ⟨hm₁, hmoves⟩ : InSession platform m₁ ∧ NextIdMoves m.session m₁.session := by
      cases act with
      | send command mid body =>
        obtain ⟨r₁, hsend⟩ := ignoreErr_ok.mp h₁
        have hcommand : IsClientCommand command := hact
        exact h.sends (fun _ => succ_ne_zero_of_lt (by omega)) (.inr hcommand.ne_connect)
          (sendPacket_sends hsend)
      | setState state =>
        cases h₁
        exact ⟨h.congr rfl rfl, .inl rfl⟩
      | inCallback running =>
        cases h₁
        exact ⟨h.congr rfl rfl, .inl rfl⟩
      | socketClose =>
        cases h₁
        exact ⟨h.congr rfl rfl, .inl rfl⟩
      | disconnect =>
        cases h₁
        unfold doDisconnect
        split
        · exact ⟨h, .inl rfl⟩
        · exact ⟨h.congr rfl rfl, .inl rfl⟩
    have hid := hmoves.toNat_le
    exact ih (fun a ha => hclient a (List.mem_cons_of_mem _ ha)) hm₁ (by omega) hrun

/-- The counter of the session does not come to its end while the next packet is handled,
    whatever that is. -/
def Roomy (handlers : ClientHandlers) (m : Mosq SmpSession) : Prop :=
  ∀ incoming, m.session.nextId.toNat +
    (handlers.handlePacket m.handled.length m.state incoming).1.length < 2 ^ 32

theorem handlePacket_inSession (h : InSession platform m) (hroomy : Roomy handlers m)
    (hhandle : handlePacket (platform.client handlers) m = some (r, m')) :
    InSession platform m' := by
  unfold handlePacket at hhandle
  rw [bind_of_ok get_apply] at hhandle
  rcases bind_some.mp hhandle with ⟨e, h₁, -⟩ | ⟨_, m₁, h₁, hhandle⟩
  · exact absurd h₁ (neverFails_modify _ _ _)
  have hm₁ := HeapOnly.touch _ _ _ h₁
  have h₁ : InSession platform m₁ := h.congr hm₁.session hm₁.outLine
  have hid : m₁.session = m.session := hm₁.session
  rw [bind_of_ok modify_apply] at hhandle
  have hclient : ∀ act ∈ ((platform.client handlers).handlePacket m.handled.length m.state
      m.inPacket.incoming).1, act.OfClient := handlers.ofClient _ _ _
  have hroom : m.session.nextId.toNat + ((platform.client handlers).handlePacket m.handled.length
      m.state m.inPacket.incoming).1.length < 2 ^ 32 := hroomy _
  generalize (platform.client handlers).handlePacket m.handled.length m.state
    m.inPacket.incoming = p at hhandle hclient hroom
  obtain ⟨acts, rc⟩ := p
  dsimp only at hhandle
  obtain ⟨m₂, hm₂⟩ : ∃ m₂ : Mosq SmpSession, m₂ = { m₁ with
    handled := m₁.handled ++ [(m₁.handed.getLastD [], m.inPacket.incoming)] } := ⟨_, rfl⟩
  rw [← hm₂] at hhandle
  have hlogged : InSession platform m₂ := by
    rw [hm₂]
    exact h₁.congr rfl rfl
  have hroom₂ : m₂.session.nextId.toNat + acts.length < 2 ^ 32 := by
    rw [hm₂]
    dsimp only
    rw [hid]
    exact hroom
  rcases bind_some.mp hhandle with ⟨e, h₃, -⟩ | ⟨_, m₃, h₃, hhandle⟩
  · exact runActs_inSession hclient hlogged hroom₂ h₃
  have hacts := runActs_inSession hclient hlogged hroom₂ h₃
  rw [bind_of_ok (cleanupInPacket_apply _)] at hhandle
  cases hhandle
  have hfreed := trans_of HeapOnly
    (@HeapOnly.freed _ (platform.client handlers) (m₃.inPacket.mqttPacket.map Buffer.block) m₃)
    (@HeapOnly.freed _ (platform.client handlers) (m₃.inPacket.payload.map Buffer.block) _)
  exact hacts.congr hfreed.session hfreed.outLine

/-- Nothing that is read changes the line, and the session gets no ids. -/
theorem ReadSide.inSession (hread : ReadSide (platform.client handlers) m m')
    (hkeys : m.outLine.keys ≠ []) (h : InSession platform m) :
    InSession platform m' ∧ m'.session.nextId = m.session.nextId := by
  have hline : m'.outLine = m.outLine := by
    rw [Mosq.outLine, hread.currentOutPacket, hread.outPacket, hread.wire, Mosq.outLine]
  have hsteps : ∀ {s s' : SmpSession},
      Relation.ReflTransGen (ProcessesMessage (platform.client handlers)) s s' →
        SameSession s s' ∧ s'.nextId = s.nextId := by
    intro s s' hs
    induction hs with
    | refl => exact ⟨⟨rfl, rfl⟩, rfl⟩
    | tail _ hlast ih =>
      obtain ⟨message, r, hprocess⟩ := hlast
      obtain ⟨hsame, hout⟩ := processMessage_outcome hprocess
      exact ⟨⟨hsame.isOpen.trans ih.1.isOpen, hsame.opens.trans ih.1.opens⟩,
        hout.processMessage_nextId.trans ih.2⟩
  obtain ⟨hsame, hnext⟩ := hsteps hread.session
  unfold InSession
  rw [hline]
  refine ⟨OnConnection.session h hsame ?_ fun hempty => absurd hempty hkeys, hnext⟩
  rw [hnext]
  exact fun _ ha => ha

/-- Nothing is read from a connection before its CONNECT is queued, and no counter comes
    to its end. -/
def KeepsToSession (handlers : ClientHandlers) (m : Mosq SmpSession) : ClientEvent → Prop
  | .read => m.sock = true → m.outLine.keys ≠ [] ∧ Roomy handlers m
  | .send _ _ _ => m.session.nextId + 1 ≠ 0
  | .ping => m.session.nextId + 1 ≠ 0
  | .disconnect => m.session.nextId + 1 ≠ 0
  | _ => True

theorem loopRcHandle_inSession (h : InSession platform m) :
    InSession platform (loopRcHandle r m) := by
  cases r with
  | ok u => exact h
  | error e => exact h.congr rfl rfl

theorem packetRead_inSession (h : InSession platform m)
    (hkeeps : m.sock = true → m.outLine.keys ≠ [] ∧ Roomy handlers m)
    (hread : packetRead (platform.client handlers) m = some (r, m')) :
    InSession platform m' := by
  cases hsock : m.sock with
  | false =>
    unfold packetRead at hread
    rw [bind_of_ok get_apply, bind_of_error (failIf_error.mpr ⟨hsock, rfl, rfl⟩)] at hread
    cases hread
    exact h
  | true =>
    obtain ⟨hkeys, hroomy⟩ := hkeeps hsock
    rcases packetRead_parts hread with hside | ⟨m₁, hside, hhandle⟩
    · exact (hside.inSession hkeys h).1
    · obtain ⟨h₁, hnext⟩ := hside.inSession hkeys h
      refine handlePacket_inSession h₁ ?_ hhandle
      intro incoming
      rw [hnext, hside.handled, hside.state]
      exact hroomy incoming

theorem InSession.step (h : InSession platform m) {event : ClientEvent}
    (hkeeps : KeepsToSession handlers m event)
    (hstep : ClientStep platform handlers m event m') : InSession platform m' := by
  -- a new connection starts over; every other call keeps to the session
  cases hstep with
  | reconnect call =>
    obtain ⟨m₁, hreopen, hline, hsends⟩ := mosquittoReconnect_sends call
    have hfresh := (Platform.reopen_spec hreopen).2
    have h₁ : InSession platform m₁ := by
      unfold InSession
      rw [hline]
      exact .empty hfresh
    refine (h₁.sends (fun hopen => ?_) (.inl ⟨rfl, hfresh⟩) hsends).1
    rw [(hfresh hopen).1]
    decide
  | send ofClient call =>
    unfold sendIfConnected at call
    rw [bind_of_ok get_apply] at call
    rcases bind_some.mp call with ⟨e, h₁, -⟩ | ⟨_, m₁, h₁, call⟩
    · obtain ⟨-, -, rfl⟩ := failIf_error.mp h₁
      exact h
    · obtain ⟨-, rfl⟩ := failIf_ok.mp h₁
      exact (h.sends (fun _ => hkeeps) (.inr ofClient.ne_connect) (sendPacket_sends call)).1
  | read call => exact loopRcHandle_inSession (packetRead_inSession h hkeeps call)
  | write call =>
    have hwrites := packetWrite_writes _ _ _ call
    refine loopRcHandle_inSession ?_
    unfold InSession
    rw [hwrites.session]
    exact h.writes hwrites.line
  | ping sock connected call =>
    have hping : IsClientCommand PINGREQ := by decide
    exact (h.sends (fun _ => hkeeps) (.inr hping.ne_connect) (sendPacket_sends call)).1
  -- closing the socket leaves the line as it was, until the next connection
  | closeSocket => exact h.congr rfl rfl
  | disconnect call =>
    unfold mosquittoDisconnect at call
    rw [bind_of_ok modify_apply, bind_of_ok get_apply] at call
    have hstate : InSession platform { m with state := .disconnecting } := h.congr rfl rfl
    rcases bind_some.mp call with ⟨e, h₁, -⟩ | ⟨_, m₁, h₁, call⟩
    · obtain ⟨-, -, rfl⟩ := failIf_error.mp h₁
      exact hstate
    · obtain ⟨-, rfl⟩ := failIf_ok.mp h₁
      have hdisconnect : IsClientCommand DISCONNECT := by decide
      exact (hstate.sends (fun _ => hkeeps) (.inr hdisconnect.ne_connect)
        (sendPacket_sends call)).1
  | callback => exact h.congr rfl rfl

end Calls

/-! ## Runs -/

/-- One session per connection: as long as nothing is read before the CONNECT is queued
    and no counter ends, what is written to a connection are packets of the session that
    was opened for it, CONNECT first and in the order of their ids. -/
theorem one_session_per_connection {platform : Platform} {handlers : ClientHandlers}
    {start m : Mosq SmpSession} {events : List ClientEvent} (new : NewClient platform start)
    (run : Run (fun m event m' => KeepsToSession handlers m event ∧
      ClientStep platform handlers m event m') start events m) : OneSession platform.cbor m := by
  have hstart : InSession platform start := by
    have hline : start.outLine = .empty := by
      rw [Mosq.outLine, new.current, new.queue, new.wire]
      rfl
    obtain ⟨s, hopen⟩ := new.session
    unfold InSession
    rw [hline]
    exact .empty (Platform.openSession_fresh hopen).2
  have h : InSession platform m :=
    run.invariant hstart fun _ _ _ h hstep => h.step hstep.1 hstep.2
  exact OnConnection.oneSession h

/-! ## Two connections -/

/-- The commands and ids of what was written. -/
def Mosq.sent (m : Mosq SmpSession) : List (UInt8 × UInt32) :=
  m.wire.map fun w => (w.packet.packet.command, w.packet.messageId)

theorem OneSession.first_command {cbor : TinyCbor} {m : Mosq SmpSession} (h : OneSession cbor m)
    {command : UInt8} {id : UInt32} {rest : List (UInt8 × UInt32)}
    (hsent : m.sent = (command, id) :: rest) : command = CONNECT := by
  obtain ⟨w, wire, hwire, hw, -⟩ := List.map_eq_cons_iff.mp hsent
  obtain ⟨⟨hcommand, -⟩, -⟩ := h.first w (by simp [hwire])
  exact (Prod.mk.inj hw).1.symm.trans hcommand

/-- `smpSession` before anything was opened. -/
def noSession : SmpSession where
  session := { Session.opened with storage := KeyStore.sample }
  isOpen := false
  opens := 0
  calls := 0

/-- A new client, whose session is open. -/
def newClient : Mosq SmpSession :=
  { freshMosq { session := Session.opened, isOpen := true, opens := 1, calls := 1 } .new [] with
    sock := false }

/-- The allocation that is to hold the CONNECT fails. -/
def connectLost : Platform :=
  { Platform.sample with malloc := fun n size => if n = 3 then none else some size }

theorem newClient_new {platform : Platform} (henvs : platform.envs = fun _ => Env.sample) :
    NewClient platform newClient := by
  refine ⟨rfl, ⟨noSession, ?_⟩, rfl, rfl, rfl⟩
  unfold Platform.openSession
  rw [henvs]
  rfl

/-- A client that is content with a CONNACK. -/
def connackHandlers : ClientHandlers where
  handlePacket _ _ incoming :=
    (if incoming.command = CONNACK then [.setState .connected] else [], .ok ())
  ofClient := by
    intro n state incoming act hact
    dsimp only at hact
    split at hact
    · rw [List.mem_singleton] at hact
      subst hact
      trivial
    · cases hact

/-- The CONNACK of the broker, and a socket that takes everything. -/
def brokerSocket : List Recv × List Send :=
  let message := connackMessage [CONNACK, 2, 0, 0]
  ([.data (UInt8.ofNat message.length) message], [.wrote 999, .wrote 999])

/-- Connect, whatever comes of it, read once and publish.  What is on its way after
    connecting, and the ids of the session after connecting and reading. -/
def connectReadPublish (platform : Platform) :
    Call (Mosq SmpSession) MosqError (Nat × UInt32 × UInt32) := do
  ignoreErr (mosquittoReconnect platform connackHandlers [0, 4] (some brokerSocket))
  let connected ← get
  packetRead (platform.client connackHandlers)
  let read ← get
  sendIfConnected (platform.client connackHandlers) PUBLISH 0 [0, 0]
  return (connected.outLine.keys.length, connected.session.nextId, read.session.nextId)

theorem connectReadPublish_run {platform : Platform} {m' : Mosq SmpSession}
    {v : Nat × UInt32 × UInt32}
    (h : connectReadPublish platform newClient = some (.ok v, m')) :
    ∃ m₁ m₂, v = (m₁.outLine.keys.length, m₁.session.nextId, m₂.session.nextId) ∧
      ClientStep platform connackHandlers newClient (.reconnect [0, 4] (some brokerSocket)) m₁ ∧
      ClientStep platform connackHandlers m₁ .read m₂ ∧
      ClientStep platform connackHandlers m₂ (.send PUBLISH 0 [0, 0]) m' := by
  unfold connectReadPublish at h
  obtain ⟨_, m₁, h₁, h⟩ := bind_ok.mp h
  obtain ⟨r, h₁⟩ := ignoreErr_ok.mp h₁
  rw [bind_of_ok get_apply] at h
  obtain ⟨_, m₂, h₂, h⟩ := bind_ok.mp h
  rw [bind_of_ok get_apply] at h
  obtain ⟨_, m₃, h₃, h⟩ := bind_ok.mp h
  cases h
  exact ⟨m₁, m₂, rfl, .reconnect h₁, .read h₂, .send (by decide) h₃⟩

/-- The CONNECT is lost and the socket stays open.  The broker establishes the session
    nevertheless, and the PUBLISH is the first packet of the connection. -/
theorem connection_without_connect : NewClient connectLost newClient ∧ ∃ m,
    Run (ClientStep connectLost connackHandlers) newClient
      [.reconnect [0, 4] (some brokerSocket), .read, .send PUBLISH 0 [0, 0]] m ∧
    m.sent = [(PUBLISH, 1)] ∧
    ¬ OneSession connectLost.cbor m := by
  have hrun : (connectReadPublish connectLost newClient).map (fun r => (r.1.isOk, r.2.sent)) =
      some (true, [(PUBLISH, 1)]) := by decide +kernel
  obtain ⟨⟨e | v, m⟩, h, heq⟩ := Option.map_eq_some_iff.mp hrun
  · cases heq
  obtain ⟨m₁, m₂, -, h₁, h₂, h₃⟩ := connectReadPublish_run h
  have hsent : m.sent = [(PUBLISH, 1)] := (Prod.mk.inj heq).2
  refine ⟨newClient_new rfl, m, ((Run.single h₁).snoc h₂).snoc h₃, hsent, fun hone => ?_⟩
  exact absurd (hone.first_command hsent) (by decide)

/-- A connection on which everything goes well. -/
theorem one_session_per_connection_publish : ∃ m,
    m.sent = [(CONNECT, 0), (PUBLISH, 1)] ∧ OneSession Platform.sample.cbor m := by
  have hrun : (connectReadPublish Platform.sample newClient).map (fun r =>
      (r.1.toOption, r.2.sent)) = some (some (1, 1, 1), [(CONNECT, 0), (PUBLISH, 1)]) := by
    decide +kernel
  obtain ⟨⟨e | v, m⟩, h, heq⟩ := Option.map_eq_some_iff.mp hrun
  · cases heq
  obtain ⟨m₁, m₂, hv, h₁, h₂, h₃⟩ := connectReadPublish_run h
  obtain ⟨hvalue, hsent⟩ := Prod.mk.inj heq
  rw [hv] at hvalue
  obtain ⟨hkeys, hids⟩ := Prod.mk.inj (Option.some.inj hvalue)
  obtain ⟨hid₁, hid₂⟩ := Prod.mk.inj hids
  have run : Run (fun m event m' => KeepsToSession connackHandlers m event ∧
      ClientStep Platform.sample connackHandlers m event m') newClient
      [.reconnect [0, 4] (some brokerSocket)] m₁ := .single ⟨trivial, h₁⟩
  have run := run.snoc (l := ClientEvent.read) ⟨fun _ => ⟨?_, ?_⟩, h₂⟩
  · have run := run.snoc (l := ClientEvent.send PUBLISH 0 [0, 0]) ⟨?_, h₃⟩
    · exact ⟨m, hsent, one_session_per_connection (newClient_new rfl) run⟩
    · show m₂.session.nextId + 1 ≠ 0
      rw [hid₂]
      decide
  · intro hempty
    rw [hempty] at hkeys
    cases hkeys
  · intro incoming
    have hlength : (connackHandlers.handlePacket m₁.handled.length m₁.state incoming).1.length ≤
        1 := by
      unfold connackHandlers
      dsimp only
      split
      · exact Nat.le_refl 1
      · exact Nat.zero_le 1
    rw [hid₁, UInt32.toNat_one]
    omega

end WeeveMQ
