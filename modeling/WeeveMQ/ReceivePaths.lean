/-
  WeeveMQ.ReceivePaths

  The two ways to receive a packet.

  The build with the SMP takes a packet apart in memory, the build without it
  reads the same bytes from the socket, piece by piece.  For a packet that
  `packet__alloc` laid out both come to the call of `handle__packet` with the
  same fields, and leave them in the same state after it.
-/

import WeeveMQ.PacketBounds

namespace WeeveMQ

open Call

variable {σ : Type} {env : Setup σ}

/-! ## A packet as it is laid out -/

/-- The bytes of a packet: what `packet__alloc` puts into its buffer, and the body
    that the sender writes behind it. -/
def LaidOut (env : Setup σ) (command : UInt8) (body bytes : Bytes) : Prop :=
  ∃ packet allocated buffer, ∃ m m' : Mosq σ,
    packetAlloc env packet m = some (.ok allocated, m') ∧ packet.command = command ∧
      packet.remainingLength = body.length ∧ allocated.payload = some buffer ∧
      bytes = buffer.data ++ body

theorem LaidOut.eq {command : UInt8} {body bytes : Bytes} (h : LaidOut env command body bytes) :
    body.length < 2 ^ 28 ∧
      bytes = command :: (Base128.encode 4 body.length ++ body) := by
  obtain ⟨packet, allocated, buffer, m, m', halloc, rfl, hlength, hbuffer, rfl⟩ := h
  unfold packetAlloc at halloc
  dsimp only at halloc
  obtain ⟨_, m₁, h₁, halloc⟩ := bind_ok.mp halloc
  obtain ⟨hfive, rfl⟩ := failIf_ok.mp h₁
  rw [hlength] at hfive
  have hlt := encode_slots.mp hfive
  obtain ⟨mem, m₂, -, halloc⟩ := bind_ok.mp halloc
  cases mem with
  | none => cases halloc
  | some block =>
    cases halloc
    cases hbuffer
    refine ⟨hlt, ?_⟩
    rw [hlength, encode_fits hlt, List.cons_append]

/-- The length bytes of a laid out packet say how long its body is. -/
theorem isLength_encode {n : Nat} (h : n < 2 ^ 28) :
    Base128.value (Base128.encode 4 n) = n ∧ IsLength (Base128.encode 4 n) := by
  have hdec : Base128.decode 4 (Base128.encode 4 n ++ []) = .number n [] :=
    Base128.decode_encode (by omega) [] (by decide)
  obtain ⟨l, hsplit, hvalue, hl⟩ := Base128.decode_split hdec
  obtain rfl : Base128.encode 4 n = l := by simpa using hsplit
  refine ⟨hvalue, ?_⟩
  rw [IsLength, hl, hvalue]

/-- What `handle__packet` is to find of it. -/
def laidOutIncoming (command : UInt8) (body : Bytes) : Incoming where
  command := command
  remainingLength := body.length
  remainingCount := (Base128.encode 4 body.length).length
  payload := body
  pos := 0
  toProcess := 0

theorem incomingOf_encode {command : UInt8} {body : Bytes} (h : body.length < 2 ^ 28) :
    incomingOf command (Base128.encode 4 body.length) body = laidOutIncoming command body := by
  rw [incomingOf, (isLength_encode h).1]
  rfl

/-! ## How a call ends -/

/-- The call gives a packet to `handle__packet`, and leaves clean fields behind it. -/
def HandsOver (env : Setup σ) (call : Option (Except MosqError Unit × Mosq σ)) (m : Mosq σ)
    (incoming : Incoming) : Prop :=
  ∃ m₁, call = handlePacket env m₁ ∧ m₁.inPacket.incoming = incoming ∧ m₁.handled = m.handled ∧
    ∀ r m', call = some (r, m') → Untouched m'.inPacket

/-- The call ends before that, and for a reason: the first command is not CONNECT, there
    was no memory for the body in the state `m₀`, or there is no connection. -/
def Refuses (env : Setup σ) (call : Option (Except MosqError Unit × Mosq σ)) (m m₀ : Mosq σ)
    (command : UInt8) (body : Bytes) : Prop :=
  ∃ e m', call = some (.error e, m') ∧ m'.handled = m.handled ∧
    (e = .protocol ∧ refusesCommand env m command ∨
      e = .nomem ∧ body ≠ [] ∧ ¬ grants env body.length m₀ ∨ e = .noConn ∧ m.sock = false)

/-- Without such a reason the packet is handed over. -/
theorem HandsOver.of_accepted {call : Option (Except MosqError Unit × Mosq σ)} {m m₀ : Mosq σ}
    {command : UInt8} {body : Bytes} {incoming : Incoming}
    (h : HandsOver env call m incoming ∨ Refuses env call m m₀ command body)
    (accepts : ¬ refusesCommand env m command) (memory : grants env body.length m₀)
    (sock : m.sock = true) : HandsOver env call m incoming := by
  rcases h with h | ⟨e, m', -, -, ⟨-, hrefuses⟩ | ⟨-, -, hnone⟩ | ⟨-, hsock⟩⟩
  · exact h
  · exact absurd hrefuses accepts
  · exact absurd memory hnone
  · rw [sock] at hsock
    cases hsock

theorem handsOver_of_eq {call : Option (Except MosqError Unit × Mosq σ)} {m m₁ : Mosq σ}
    {incoming : Incoming} (h : call = handlePacket env m₁) (hin : m₁.inPacket.incoming = incoming)
    (hhandled : m₁.handled = m.handled) : HandsOver env call m incoming := by
  refine ⟨m₁, h, hin, hhandled, fun r m' hr => ?_⟩
  rw [h] at hr
  rw [(handlePacket_handles hr).inPacket]
  exact .cleaned _

/-! ## In memory -/

theorem packetRead_laidOut {m m₁ : Mosq σ} {command : UInt8} {body bytes : Bytes}
    (hlaid : LaidOut env command body bytes) (h : Receives env m m₁ bytes) :
    HandsOver env (packetRead env m) m (laidOutIncoming command body) ∨
      Refuses env (packetRead env m) m m₁ command body := by
  obtain ⟨hlt, rfl⟩ := hlaid.eq
  obtain ⟨hvalue, hlength⟩ := isLength_encode hlt
  have hdecode : Base128.decode 4 (Base128.encode 4 body.length ++ body) =
      .number body.length body := Base128.decode_encode (by omega) _ (by decide)
  obtain ⟨hhandled, hstate, hbridge⟩ := h.same
  have hmemory : Relates InMemory (decodeMqttPacket env) := InMemory.decodeMqttPacket
  specialize hmemory m₁
  have hcases := decodeMqttPacket_cases env h.packet
  rw [h.call_eq, bind_apply]
  -- the decoder keeps what the packet is not about, in each of its outcomes
  generalize decodeMqttPacket env m₁ = r at hcases hmemory
  -- the length bytes a decoder finds are those that were written
  have hread : ∀ l rest, Base128.encode 4 body.length ++ body = l ++ rest → IsLength l →
      l = Base128.encode 4 body.length ∧ rest = body := by
    intro l rest hsplit hl
    have hnumber := hdecode
    rw [hsplit, hl.decode] at hnumber
    obtain ⟨-, rfl⟩ := Base128.Decoded.number.inj hnumber
    exact ⟨(List.append_cancel_right hsplit).symm, rfl⟩
  -- `packet__alloc` wrote a whole length, so three of the outcomes cannot be
  cases hcases with
  | short length =>
    have := List.length_pos_iff.mpr hlength.ne_nil
    simp only [List.length_cons, List.length_append] at length
    omega
  | refused refuses m' =>
    refine .inr ⟨.protocol, m', rfl, (hmemory _ _ rfl).handled.trans hhandled, .inl ⟨rfl, ?_⟩⟩
    unfold refusesCommand at refuses ⊢
    rwa [hstate, hbridge] at refuses
  | tooLong length =>
    rw [List.tail_cons, hdecode] at length
    cases length
  | @noMemory l rest split isLength positive refuses m' =>
    obtain ⟨rfl, rfl⟩ := hread l rest split isLength
    rw [hvalue] at positive refuses
    exact .inr ⟨.nomem, m', rfl, (hmemory _ _ rfl).handled.trans hhandled,
      .inr (.inl ⟨rfl, List.length_pos_iff.mp positive, refuses⟩)⟩
  | @fits l rest split isLength long accepts inside m' incoming =>
    obtain ⟨rfl, rfl⟩ := hread l rest split isLength
    refine .inl (handsOver_of_eq rfl ?_ ((hmemory _ _ rfl).handled.trans hhandled))
    rw [incoming, hvalue, List.take_length, incomingOf_encode hlt]
    rfl
  | endless long accepts length =>
    rw [List.tail_cons, hdecode] at length
    cases length
  | @beyond l rest _ long accepts split isLength outside =>
    obtain ⟨rfl, rfl⟩ := hread l rest split isLength
    omega

/-! ## From the socket -/

/-- A client without the SMP between two calls, with the bytes of its current packet
    that were read: nothing, or a command and a part of what follows it. -/
inductive PlainHolds (q : Packet) : Bytes → Prop
  | start (untouched : Untouched q) : PlainHolds q []
  | behindCommand {command : UInt8} {p : Bytes} (isCommand : q.command = command)
      (nonzero : command ≠ 0) (holds : Holds mqttLength mqttPayload q p)
      (empty : (mqttLength.get q).count ≤ 0 →
        mqttPayload.get q = { payload := none, toProcess := 0, pos := 0 }) :
      PlainHolds q (command :: p)

/-- As long as the length is not complete, this state has the memory of `m₀`. -/
def HasMemory (m₀ m : Mosq σ) : Prop :=
  (mqttLength.get m.inPacket).count ≤ 0 → SameMemory m₀ m

/-- A call that waits for more of the packet. -/
structure WaitsFor (call : Option (Except MosqError Unit × Mosq σ)) (m m' : Mosq σ) (p : Bytes) :
    Prop where
  call : call = some (.ok (), m')
  handled : m'.handled = m.handled
  state : m'.state = m.state
  sock : m'.sock = m.sock
  bridge : m'.bridge = m.bridge
  size : scriptSize m'.recv ≤ scriptSize m.recv - 1
  took : ∃ d, Took d m.recv m'.recv ∧ PlainHolds m'.inPacket (p ++ d)
  memory : ∀ m₀, HasMemory m₀ m → HasMemory m₀ m'

/-- A call that is behind the command ends in one of the three ways. -/
theorem readPlainBody_cut {m m₀ : Mosq σ} {command : UInt8} {p : Bytes} {body more : Bytes}
    (hlt : body.length < 2 ^ 28) (hcommand : m.inPacket.command = command)
    (nonzero : command ≠ 0) (holds : Holds mqttLength mqttPayload m.inPacket p)
    (empty : (mqttLength.get m.inPacket).count ≤ 0 →
      mqttPayload.get m.inPacket = { payload := none, toProcess := 0, pos := 0 })
    (hcut : IsCut m.recv) (hmemory : HasMemory m₀ m)
    (hstream : p ++ received m.recv = Base128.encode 4 body.length ++ body ++ more) :
    (∃ m', WaitsFor (readPlainBody env m) m m' (command :: p)) ∨
      HandsOver env (readPlainBody env m) m (laidOutIncoming command body) ∨
      Refuses env (readPlainBody env m) m m₀ command body := by
  obtain ⟨r, m', hr, hto, hcases⟩ := readBody_cut env .payload mqtt_apart holds hcut
  have hsame : m'.handled = m.handled ∧ m'.state = m.state ∧ m'.sock = m.sock ∧
      m'.bridge = m.bridge := by
    obtain ⟨_, _, _, _, _, _, _, rfl⟩ := hto
    exact ⟨rfl, rfl, rfl, rfl⟩
  have hcommand' : m'.inPacket.command = command := by
    obtain ⟨_, _, _, _, _, _, _, rfl⟩ := hto
    exact hcommand
  obtain ⟨hhandled, hstate, hsock, hbridge⟩ := hsame
  unfold readPlainBody
  have hdecode : Base128.decode 4 (p ++ received m.recv) = .number body.length (body ++ more) := by
    rw [hstream, List.append_assoc]
    exact Base128.decode_encode (by omega) _ (by decide)
  -- the stream begins with a whole packet, so its length is not too long
  rcases hcases with ⟨rfl, -, hsize, hunset, d, htook, hholds⟩ | ⟨-, hlong⟩ |
    ⟨rfl, hcount, n, rest, hnumber, hpos, hrefused⟩ |
    ⟨rfl, -, d, l, body', htook, -, hsplit, hcomplete⟩
  · refine .inl ⟨m', bind_of_ok hr, hhandled, hstate, hsock, hbridge, hsize, ⟨d, htook,
      .behindCommand hcommand' nonzero hholds ?_⟩, ?_⟩
    · intro hcount
      obtain ⟨hcount, hpayload, -⟩ := hunset hcount
      rw [hpayload, empty hcount]
    · intro m₁ hm₁ hcount
      obtain ⟨hcount, -, hsame⟩ := hunset hcount
      exact (hm₁ hcount).trans hsame
  · rw [hdecode] at hlong
    cases hlong
  · rw [hdecode] at hnumber
    obtain ⟨rfl, -⟩ := Base128.Decoded.number.inj hnumber
    exact .inr (.inr ⟨.nomem, m', bind_of_error hr, hhandled, .inr (.inl ⟨rfl,
      List.length_pos_iff.mp hpos, mt (hmemory hcount).grants_iff.mpr hrefused⟩)⟩)
  · refine .inr (.inl (handsOver_of_eq (bind_of_ok hr) ?_ hhandled))
    -- what was read is what was written
    have hwhole : l ++ (body' ++ received m'.recv) = Base128.encode 4 body.length ++
        (body ++ more) := by
      rw [← List.append_assoc, ← hsplit, List.append_assoc, ← htook.received, hstream,
        List.append_assoc]
    have hnumber : Base128.decode 4 (l ++ (body' ++ received m'.recv)) =
        .number (Base128.value l) (body' ++ received m'.recv) := hcomplete.isLength.decode
    rw [hwhole, Base128.decode_encode (by omega) _ (by decide)] at hnumber
    obtain ⟨hvalue, hrest⟩ := Base128.Decoded.number.inj hnumber
    have hl : l = Base128.encode 4 body.length := by
      rw [hrest] at hwhole
      exact List.append_cancel_right hwhole
    have hbody : body' = body := by
      have hlen : body'.length = body.length := hcomplete.size.trans hvalue.symm
      exact (List.append_inj_left hrest hlen.symm).symm
    subst hl hbody
    have hlength : m'.inPacket.remainingLength = body'.length := by
      rw [show m'.inPacket.remainingLength = _ from congrArg LengthFields.length hcomplete.fields]
      exact (isLength_encode hlt).1
    have hcount : m'.inPacket.remainingCount = (Base128.encode 4 body'.length).length :=
      congrArg LengthFields.count hcomplete.fields
    -- an empty body has no buffer: its payload is the one from before the length was
    -- read
    have hpayload : (m'.inPacket.payload.map Buffer.data).getD [] = body' ∧
        m'.inPacket.toProcess = 0 := by
      by_cases hnil : body' = []
      · obtain ⟨hpart, hnothing, -⟩ := hcomplete.empty hnil
        have hunread : (mqttLength.get m.inPacket).count ≤ 0 := by
          cases holds with
          | inLength fields =>
            rw [fields]
            exact neg_nonpos.mpr (Int.natCast_nonneg _)
          | inPayload block isLength more fields part =>
            rw [part, payloadRead] at hnothing
            dsimp only at hnothing
            omega
        rw [empty hunread] at hpart
        rw [show m'.inPacket.payload = _ from congrArg PayloadFields.payload hpart,
          show m'.inPacket.toProcess = _ from congrArg PayloadFields.toProcess hpart, hnil]
        exact ⟨rfl, rfl⟩
      · obtain ⟨block, hpart⟩ := hcomplete.part hnil
        rw [show m'.inPacket.payload = _ from congrArg PayloadFields.payload hpart,
          show m'.inPacket.toProcess = _ from congrArg PayloadFields.toProcess hpart, payloadRead]
        exact ⟨rfl, Nat.sub_self _⟩
    simp only [Packet.incoming, laidOutIncoming, hcommand', hlength, hcount, hpayload.1, hpayload.2]

/-- The ways in which one call ends. -/
theorem packetReadPlain_cut (env : Setup σ) {m m₀ : Mosq σ} {p : Bytes} {command : UInt8}
    {body more : Bytes}
    (hlt : body.length < 2 ^ 28) (nonzero : command ≠ 0) (holds : PlainHolds m.inPacket p)
    (hreads : m.state ≠ .connectPending) (hcut : IsCut m.recv) (hmemory : HasMemory m₀ m)
    (hstream : p ++ received m.recv =
      command :: (Base128.encode 4 body.length ++ body ++ more)) :
    (∃ m', WaitsFor (packetReadPlain env m) m m' p) ∨
      HandsOver env (packetReadPlain env m) m (laidOutIncoming command body) ∨
      Refuses env (packetReadPlain env m) m m₀ command body := by
  unfold packetReadPlain
  rw [bind_of_ok get_apply]
  by_cases hsock : m.sock = false
  · rw [bind_of_error (failIf_error.mpr ⟨hsock, rfl, rfl⟩)]
    exact .inr (.inr ⟨.noConn, m, rfl, rfl, .inr (.inr ⟨rfl, hsock⟩)⟩)
  rw [bind_of_ok ((failIf_ok (u := ())).mpr ⟨hsock, rfl⟩), if_neg hreads]
  -- a call begins a packet, or goes on behind the command of one
  cases holds with
  | start untouched =>
    rcases netRead_cut hcut Nat.zero_lt_one with ⟨rest, hread, htook, hsize⟩ |
      ⟨b, bs, rest, hread, hone, htook⟩
    · have hwait : readPlainCommand env m = some (.ok false, { m with
          errno := .again
          recv := rest }) := by
        unfold readPlainCommand
        rw [bind_of_ok get_apply, if_pos untouched.command, bind_of_ok hread]
        rfl
      rw [bind_of_ok hwait]
      refine .inl ⟨_, rfl, rfl, rfl, rfl, rfl, hsize, ⟨[], htook, .start untouched⟩, ?_⟩
      exact fun m₁ hm₁ hcount => (hm₁ hcount).trans ⟨rfl, rfl, rfl⟩
    -- the command came, and the rest is read in the same call
    · obtain rfl : bs = [] := List.length_eq_zero_iff.mp (by simpa using hone)
      rw [List.nil_append, htook.received] at hstream
      obtain ⟨rfl, hrest⟩ := List.cons_eq_cons.mp hstream
      let m₁ : Mosq σ := { m with
        errno := .zero
        recv := rest
        inPacket := { m.inPacket with command := b } }
      have hcommand : readPlainCommand env m =
          (failIf (refusesCommand env m b) .protocol >>= fun _ => pure true) m₁ := by
        unfold readPlainCommand
        rw [bind_of_ok get_apply, if_pos untouched.command, bind_of_ok hread]
        rfl
      by_cases hrefuses : refusesCommand env m b
      · rw [bind_of_error (hcommand.trans (bind_of_error (failIf_error.mpr ⟨hrefuses, rfl, rfl⟩)))]
        exact .inr (.inr ⟨.protocol, m₁, rfl, rfl, .inl ⟨rfl, hrefuses⟩⟩)
      rw [bind_of_ok (hcommand.trans (bind_of_ok ((failIf_ok (u := ())).mpr ⟨hrefuses, rfl⟩)))]
      have hsize := htook.size
      have hholds : Holds mqttLength mqttPayload m₁.inPacket [] := by
        refine .inLength untouched.length ?_ ?_ (by simp) (by simp)
        · exact congrArg PayloadFields.toProcess untouched.payload
        · exact congrArg PayloadFields.pos untouched.payload
      have hstill : ∀ m₂, HasMemory m₂ m → HasMemory m₂ m₁ :=
        fun m₂ hm₂ hcount => (hm₂ hcount).trans ⟨rfl, rfl, rfl⟩
      rcases readPlainBody_cut (m := m₁) hlt rfl nonzero hholds (fun _ => untouched.payload)
          htook.cut (hstill m₀ hmemory) hrest with ⟨m', hwait⟩ | hover | hrefuse
      · obtain ⟨d, htook', hholds'⟩ := hwait.took
        refine .inl ⟨m', hwait.call, hwait.handled, hwait.state, hwait.sock, hwait.bridge, ?_,
          ⟨b :: d, htook.trans htook', hholds'⟩, fun m₂ hm₂ => hwait.memory m₂ (hstill m₂ hm₂)⟩
        have := hwait.size
        simp only [List.length_singleton] at hsize
        dsimp only [m₁] at this
        omega
      · exact .inr (.inl hover)
      · exact .inr (.inr hrefuse)
  | @behindCommand c p isCommand nonzero holds empty =>
    have hskip : readPlainCommand env m = some (.ok true, m) := by
      unfold readPlainCommand
      rw [bind_of_ok get_apply, if_neg (isCommand ▸ nonzero), pure_apply]
    obtain ⟨rfl, hrest⟩ := List.cons_eq_cons.mp hstream
    rw [bind_of_ok hskip]
    exact readPlainBody_cut hlt isCommand nonzero holds empty hcut hmemory hrest

/-- Calls that return without having given a packet to `handle__packet`. -/
inductive Waits (env : Setup σ) : Mosq σ → Mosq σ → Prop
  | refl (m : Mosq σ) : Waits env m m
  | call {m m₁ m₂ : Mosq σ} (read : packetReadPlain env m = some (.ok (), m₁))
      (handled : m₁.handled = m.handled) (rest : Waits env m₁ m₂) : Waits env m m₂

/-- Enough calls come to the end of the packet. -/
theorem waits_laidOut {n : Nat} {m m₀ : Mosq σ} {p : Bytes} {command : UInt8} {body more : Bytes}
    (hlt : body.length < 2 ^ 28) (nonzero : command ≠ 0) (holds : PlainHolds m.inPacket p)
    (hreads : m.state ≠ .connectPending) (hcut : IsCut m.recv) (hmemory : HasMemory m₀ m)
    (hstream : p ++ received m.recv =
      command :: (Base128.encode 4 body.length ++ body ++ more)) (hn : scriptSize m.recv ≤ n) :
    ∃ m₁, Waits env m m₁ ∧
      (HandsOver env (packetReadPlain env m₁) m (laidOutIncoming command body) ∨
        Refuses env (packetReadPlain env m₁) m m₀ command body) := by
  -- every call that waits shortens the script, so the calls come to an end
  induction n generalizing m p with
  | zero =>
    -- the whole packet was read, and yet it was incomplete
    rw [received_nil hn, List.append_nil] at hstream
    subst hstream
    cases holds with
    | behindCommand isCommand nonzero holds =>
      have hfront := holds.incomplete
      rw [← Base128.encodeFrame, Base128.nextFrame_encodeFrame (by omega) (by decide)] at hfront
      cases hfront
  | succ n ih =>
    rcases packetReadPlain_cut env hlt nonzero holds hreads hcut hmemory hstream with
      ⟨m', hwait⟩ | hover | hrefuse
    · obtain ⟨d, htook, hholds⟩ := hwait.took
      have hsize := hwait.size
      have hstream' : p ++ d ++ received m'.recv =
          command :: (Base128.encode 4 body.length ++ body ++ more) := by
        rw [List.append_assoc, ← htook.received, hstream]
      obtain ⟨m₁, hwaits, hends⟩ := ih hholds (hwait.state ▸ hreads) htook.cut
        (hwait.memory m₀ hmemory) hstream' (by omega)
      refine ⟨m₁, .call hwait.call hwait.handled hwaits, ?_⟩
      rcases hends with ⟨m₂, hcall, hin, hhandled, hclean⟩ | ⟨e, m₂, hcall, hhandled, hwhy⟩
      · exact .inl ⟨m₂, hcall, hin, hhandled.trans hwait.handled, hclean⟩
      · refine .inr ⟨e, m₂, hcall, hhandled.trans hwait.handled, ?_⟩
        -- the reasons are about fields that waiting has left as they were
        unfold refusesCommand at hwhy ⊢
        rwa [hwait.state, hwait.bridge, hwait.sock] at hwhy
    · exact ⟨m, .refl m, .inl hover⟩
    · exact ⟨m, .refl m, .inr hrefuse⟩

/-- For a packet that `packet__alloc` laid out, the call of `packet__read` that
    decrypts it and the call that has received it from the socket, in whatever
    chunks, give the same fields to `handle__packet` and leave them clean; or the
    call has a reason to end before that.  The memory for the body is asked for in
    the state behind the decryption, and in the one the packet begins in. -/
theorem receive_paths_agree (env : Setup σ) {command : UInt8} {body bytes : Bytes}
    (hlaid : LaidOut env command body bytes) (nonzero : command ≠ 0) :
    (∀ m m₁, Receives env m m₁ bytes →
      HandsOver env (packetRead env m) m (laidOutIncoming command body) ∨
        Refuses env (packetRead env m) m m₁ command body) ∧
    (∀ (m : Mosq σ) more, Untouched m.inPacket → m.state ≠ .connectPending → IsCut m.recv →
      received m.recv = bytes ++ more → ∃ m₁, Waits env m m₁ ∧
        (HandsOver env (packetReadPlain env m₁) m (laidOutIncoming command body) ∨
          Refuses env (packetReadPlain env m₁) m m command body)) := by
  refine ⟨fun m m₁ h => packetRead_laidOut hlaid h, fun m more huntouched hreads hcut hstream => ?_⟩
  obtain ⟨hlt, rfl⟩ := hlaid.eq
  exact waits_laidOut hlt nonzero (.start huntouched) hreads hcut (fun _ => ⟨rfl, rfl, rfl⟩) hstream
    (Nat.le_refl _)

/-! ## A packet in two pieces -/

/-- A connected client that is to receive a PUBLISH of two bytes in two pieces. -/
def publishScript : List Recv := [.data PUBLISH [], .wouldBlock, .data 2 [5, 6]]

theorem receive_paths_agree_publish :
    HandsOver (findsSetup [PUBLISH, 2, 5, 6]) (packetRead (findsSetup [PUBLISH, 2, 5, 6]) oneFrame)
        oneFrame (laidOutIncoming PUBLISH [5, 6]) ∧
      ∃ m₁, Waits (findsSetup [PUBLISH, 2, 5, 6]) (freshMosq () .connected publishScript) m₁ ∧
        HandsOver (findsSetup [PUBLISH, 2, 5, 6]) (packetReadPlain (findsSetup [PUBLISH, 2, 5, 6]) m₁)
          (freshMosq () .connected publishScript) (laidOutIncoming PUBLISH [5, 6]) := by
  have hlaid : LaidOut (findsSetup [PUBLISH, 2, 5, 6]) PUBLISH [5, 6] [PUBLISH, 2, 5, 6] :=
    ⟨{ zeroPacket with command := PUBLISH, remainingLength := 2 }, _, _,
      freshMosq () .connected [], _, rfl, rfl, rfl, rfl, rfl⟩
  have haccepts : ∀ m : Mosq Unit, ¬ refusesCommand (findsSetup [PUBLISH, 2, 5, 6]) m PUBLISH :=
    fun m h => absurd h.1 (by decide)
  obtain ⟨hsmp, hplain⟩ := receive_paths_agree _ hlaid (by decide)
  obtain ⟨m₁, h, hgrants⟩ : ∃ m₁,
      Receives (findsSetup [PUBLISH, 2, 5, 6]) oneFrame m₁ [PUBLISH, 2, 5, 6] ∧
        grants (findsSetup [PUBLISH, 2, 5, 6]) 2 m₁ :=
    ⟨_, ⟨rfl, by decide, ⟨rfl, rfl, rfl⟩, rfl, (fun h => by cases h), ⟨⟨rfl, rfl, rfl⟩, _, rfl⟩⟩,
      (fun hlimit => absurd hlimit.1 (by decide)), 2, rfl, Nat.le_refl 2, by decide⟩
  have hcut : IsCut publishScript := by
    intro x hx
    simp only [publishScript, List.mem_cons, List.not_mem_nil, or_false] at hx
    rcases hx with rfl | rfl | rfl <;> simp
  obtain ⟨m₂, hwaits, hends⟩ :=
    hplain (freshMosq () .connected publishScript) [] ⟨rfl, rfl, rfl⟩ (by decide) hcut (by decide)
  refine ⟨HandsOver.of_accepted (hsmp _ _ h) (haccepts _) hgrants rfl, m₂, hwaits,
    HandsOver.of_accepted hends (haccepts _) ?_ rfl⟩
  exact ⟨fun hlimit => absurd hlimit.1 (by decide), 2, rfl, Nat.le_refl 2, by decide⟩

end WeeveMQ
