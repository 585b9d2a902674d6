/-
  WeeveMQ.PacketQueue

  The packets on their way out.

  The current packet, the queue behind it and what is on the wire are one
  `PieceLine`.  Writing moves that line on (`WritesLine`), and every function
  of `send_mosq.c` does one of three things to line and session
  (`SendsPacket`): nothing, a message that is lost, or a packet at the end of
  the line that carries a message of the session.
-/

import WeeveMQ.Framing
import WeeveMQ.Lib.PieceLine

namespace WeeveMQ

open Call

variable {σ : Type} {env : Setup σ}

/-! ## The line of a client -/

/-- What a packet was secured with: the session, as it stood before that, the command
    and the message id of the packet, and the bytes that came out. -/
structure SecuredPacket (σ : Type) where
  origin : σ
  command : UInt8
  mid : UInt16
  bytes : Bytes

def OutPacket.secured (out : OutPacket σ) : SecuredPacket σ where
  origin := out.origin
  command := out.packet.command
  mid := out.packet.mid
  bytes := (out.packet.payload.map Buffer.data).getD []

def OutPacket.item (out : OutPacket σ) : LineItem (SecuredPacket σ) where
  key := out.secured
  pos := out.packet.pos
  left := out.packet.toProcess

def Written.piece (written : Written σ) : SecuredPacket σ × Nat :=
  (written.packet.secured, written.pos)

/-- What was written to the connection, and what is still to be. -/
def Mosq.outLine (m : Mosq σ) : PieceLine (SecuredPacket σ) where
  log := m.wire.map Written.piece
  line := (m.currentOutPacket.toList ++ m.outPacket).map OutPacket.item

/-- The session is untouched, and what happened to the line is writing. -/
structure WritesLine (m m' : Mosq σ) : Prop where
  session : m'.session = m.session
  line : Relation.ReflTransGen PieceLine.Writes m.outLine m'.outLine

namespace WritesLine

instance : Std.Refl (WritesLine : Mosq σ → Mosq σ → Prop) where
  refl _ := ⟨rfl, .refl⟩

instance : IsTrans (Mosq σ) WritesLine where
  trans _ _ _ h h' := ⟨h'.session.trans h.session, h.line.trans h'.line⟩

theorem ofSame {m m' : Mosq σ} (hsession : m'.session = m.session)
    (hline : m'.outLine = m.outLine) : WritesLine m m' := by
  refine ⟨hsession, ?_⟩
  rw [hline]

theorem ofHeapOnly {m m' : Mosq σ} (h : HeapOnly m m') : WritesLine m m' := by
  obtain ⟨_, _, _, rfl⟩ := h
  exact ⟨rfl, .refl⟩

end WritesLine

/-! ## Calls that do not touch the line -/

theorem HeapOnly.outLine {m m' : Mosq σ} (h : HeapOnly m m') : m'.outLine = m.outLine := by
  obtain ⟨_, _, _, rfl⟩ := h
  rfl

theorem HeapOnly.currentOutPacket {m m' : Mosq σ} (h : HeapOnly m m') :
    m'.currentOutPacket = m.currentOutPacket := by
  obtain ⟨_, _, _, rfl⟩ := h
  rfl

theorem HeapOnly.outPacket {m m' : Mosq σ} (h : HeapOnly m m') : m'.outPacket = m.outPacket := by
  obtain ⟨_, _, _, rfl⟩ := h
  rfl

theorem HeapOnly.malloc {kind : BlockKind} {size : Nat} :
    Relates HeapOnly (malloc env kind size) := by
  intro m r m' h
  rcases malloc_cases env kind size m with hm | ⟨b, -, -, -, -, hm⟩
  · rw [hm] at h
    cases h
    exact ⟨_, _, _, rfl⟩
  · rw [hm] at h
    cases h
    exact ⟨_, _, _, rfl⟩

theorem HeapOnly.free {b : Block} : Relates HeapOnly (free b : Call (Mosq σ) MosqError Unit) :=
  relates_modify fun _ => ⟨_, _, _, rfl⟩

theorem HeapOnly.packetCleanup {packet : Packet} : Relates HeapOnly (packetCleanup env packet) :=
  mosquittoFree.bind fun _ => mosquittoFree.bind fun _ => relates_pure

/-- A write takes no more than it is given, and leaves the packets alone. -/
theorem netWrite_cases {bytes : Bytes} {m m' : Mosq σ} {r : Except MosqError (Option Nat)}
    (h : netWrite bytes m = some (r, m')) :
    WritesLine m m' ∧ m'.currentOutPacket = m.currentOutPacket ∧
      ∀ n, r = .ok (some n) → n ≤ bytes.length := by
  unfold netWrite at h
  split at h
  · cases h
    exact ⟨⟨rfl, .refl⟩, rfl, nofun⟩
  · cases h
    exact ⟨⟨rfl, .refl⟩, rfl, nofun⟩
  · cases h
    exact ⟨⟨rfl, .refl⟩, rfl, nofun⟩
  · cases h
    refine ⟨⟨rfl, .refl⟩, rfl, fun n hn => ?_⟩
    cases hn
    exact min_le_right ..

theorem comeBackLater_same {m m' : Mosq σ} {r : Except MosqError Unit}
    (h : comeBackLater m = some (r, m')) : m' = m := by
  unfold comeBackLater at h
  rw [bind_of_ok get_apply] at h
  cases herr : m.errno <;> rw [herr] at h <;> cases h <;> rfl

/-! ## Writing -/

/-- With the current packet written the line moves on. -/
theorem next_writes {m : Mosq σ} (h : ∀ out ∈ m.currentOutPacket, out.packet.toProcess = 0) :
    WritesLine m (nextOutPacket m) := by
  have hline : ∀ queue : List (OutPacket σ), queue.head?.toList ++ queue.tail = queue := by
    intro queue
    cases queue <;> rfl
  cases hcurrent : m.currentOutPacket with
  | none =>
    refine .ofSame rfl ?_
    simp only [Mosq.outLine, nextOutPacket, hcurrent, hline, Option.toList_none, List.nil_append]
  | some out =>
    have hleft : out.packet.toProcess = 0 := h out (by simp [hcurrent])
    have hwrites : PieceLine.Writes m.outLine (nextOutPacket m).outLine := by
      simp only [Mosq.outLine, nextOutPacket, hcurrent, hline, Option.toList_some,
        List.singleton_append, List.map_cons, OutPacket.item, hleft]
      exact .leave
    exact ⟨rfl, .single hwrites⟩

/-- The client once `n` more bytes of its current packet are written. -/
def Mosq.pieceWritten (m : Mosq σ) (out : OutPacket σ) (n : Nat) : Mosq σ :=
  { m with
    currentOutPacket := some { out with packet := { out.packet with
      toProcess := out.packet.toProcess - n
      pos := out.packet.pos + n } }
    wire := m.wire ++ [{
      bytes := out.packet.unsent.take n
      packet := out
      pos := out.packet.pos
      part := (List.take_prefix ..).trans (List.take_prefix ..) }] }

theorem pieceWritten_writes {m : Mosq σ} {out : OutPacket σ} {n : Nat}
    (hcurrent : m.currentOutPacket = some out) (hpos : 0 < n) (hn : n ≤ out.packet.toProcess) :
    WritesLine m (m.pieceWritten out n) := by
  have hwrites : PieceLine.Writes m.outLine (m.pieceWritten out n).outLine := by
    simp only [Mosq.outLine, Mosq.pieceWritten, hcurrent, Option.toList_some,
      List.singleton_append, List.map_cons, List.map_append, List.map_nil]
    exact .piece n hpos hn
  exact ⟨rfl, .single hwrites⟩

theorem writeCurrent_writes {fuel : Nat} {m m' : Mosq σ} {r : Except MosqError Bool}
    (h : writeCurrent fuel m = some (r, m')) :
    WritesLine m m' ∧
      (r = .ok true → (∀ out ∈ m.currentOutPacket, out.packet.toProcess ≤ fuel) →
        ∀ out ∈ m'.currentOutPacket, out.packet.toProcess = 0) := by
  -- every round writes at least one byte of the packet, so its length is enough fuel
  induction fuel generalizing m with
  | zero =>
    cases h
    exact ⟨Std.Refl.refl _, fun _ hall out hout => Nat.le_zero.mp (hall out hout)⟩
  | succ fuel ih =>
    unfold writeCurrent at h
    rw [bind_of_ok get_apply] at h
    cases hcurrent : m.currentOutPacket with
    | none =>
      simp only [hcurrent] at h
      cases h
      refine ⟨Std.Refl.refl _, fun _ _ out hout => ?_⟩
      rw [hcurrent] at hout
      cases hout
    | some out =>
      simp only [hcurrent] at h
      split at h
      · next hdone =>
        cases h
        refine ⟨Std.Refl.refl _, fun _ _ out' hout' => ?_⟩
        rw [hcurrent] at hout'
        obtain rfl := Option.some.inj hout'
        exact hdone
      · rcases bind_some.mp h with ⟨e, h₁, rfl⟩ | ⟨_, m₁, h₁, h⟩
        · exact ⟨.ofHeapOnly (HeapOnly.touch _ _ _ h₁), nofun⟩
        have hm₁ := HeapOnly.touch _ _ _ h₁
        have hw₁ : WritesLine m m₁ := .ofHeapOnly hm₁
        rcases bind_some.mp h with ⟨e, h₂, rfl⟩ | ⟨written, m₂, h₂, h⟩
        · exact ⟨trans_of WritesLine hw₁ (netWrite_cases h₂).1, nofun⟩
        obtain ⟨hw₂, hcurrent₂, hfits⟩ := netWrite_cases h₂
        have hw := trans_of WritesLine hw₁ hw₂
        -- no bytes were taken
        have hnone : ∀ h : (comeBackLater >>= fun _ => pure false) m₂ = some (r, m'),
            WritesLine m m' ∧ r ≠ .ok true := by
          intro h
          rcases bind_some.mp h with ⟨e, h₃, rfl⟩ | ⟨_, m₃, h₃, h⟩
          · rw [comeBackLater_same h₃]
            exact ⟨hw, nofun⟩
          · cases h
            rw [comeBackLater_same h₃]
            exact ⟨hw, nofun⟩
        rcases written with _ | _ | n
        · obtain ⟨hw', hr⟩ := hnone h
          exact ⟨hw', fun hok => absurd hok hr⟩
        · obtain ⟨hw', hr⟩ := hnone h
          exact ⟨hw', fun hok => absurd hok hr⟩
        · have hn : n + 1 ≤ out.packet.toProcess := by
            have := hfits (n + 1) rfl
            have : out.packet.unsent.length ≤ out.packet.toProcess := List.length_take_le ..
            omega
          have hcur : m₂.currentOutPacket = some out :=
            hcurrent₂.trans (hm₁.currentOutPacket.trans hcurrent)
          -- what was taken is a piece of the packet, from where it stands
          have hpiece := pieceWritten_writes hcur (Nat.succ_pos n) hn
          obtain ⟨hrest, hall⟩ := ih (m := m₂.pieceWritten out (n + 1)) h
          refine ⟨trans_of WritesLine hw (trans_of WritesLine hpiece hrest),
            fun hok hfuel => hall hok ?_⟩
          intro out' hout'
          have := hfuel out (by simp)
          obtain rfl := Option.some.inj hout'
          dsimp only
          omega

theorem writePackets_writes {fuel : Nat} : Relates WritesLine (writePackets env fuel) := by
  -- on the packets: the current one is written to its end, then the next one comes
  induction fuel with
  | zero => exact relates_pure
  | succ fuel ih =>
    intro m r m' h
    unfold writePackets at h
    rw [bind_of_ok get_apply] at h
    cases hcurrent : m.currentOutPacket with
    | none =>
      simp only [hcurrent] at h
      cases h
      exact Std.Refl.refl m
    | some out =>
      simp only [hcurrent] at h
      rcases bind_some.mp h with ⟨e, h₁, rfl⟩ | ⟨done, m₁, h₁, h⟩
      · exact (writeCurrent_writes h₁).1
      obtain ⟨hwritten, hall⟩ := writeCurrent_writes h₁
      cases done with
      | false =>
        cases h
        exact hwritten
      | true =>
        have hdone := hall rfl (by
          intro out' hout'
          rw [hcurrent] at hout'
          obtain rfl := Option.some.inj hout'
          exact Nat.le_refl _)
        -- behind a DISCONNECT of the client nothing more is written
        have hrest : Relates WritesLine (packetCleanup env out.packet >>= fun _ =>
            mosquittoFree env (some out.block) >>= fun _ =>
              if env.role = .client ∧ out.packet.command &&& 0xF6 ≠ PUBLISH ∧
                out.packet.command &&& 0xF0 = DISCONNECT then pure () else
                  writePackets env fuel) :=
          (HeapOnly.packetCleanup.mono fun _ _ => .ofHeapOnly).bind fun _ =>
            (HeapOnly.mosquittoFree.mono fun _ _ => .ofHeapOnly).bind fun _ => relates_pure.ite ih
        rw [if_pos rfl] at h
        rcases bind_some.mp h with ⟨e, h₂, rfl⟩ | ⟨_, m₂, h₂, h⟩
        · exact absurd h₂ (NeverFails.onlyIf neverFails_modify _ _ _)
        have hclose : WritesLine m₁ m₂ ∧ m₂.currentOutPacket = m₁.currentOutPacket := by
          unfold onlyIf at h₂
          split at h₂ <;> cases h₂ <;> exact ⟨⟨rfl, .refl⟩, rfl⟩
        rw [bind_of_ok modify_apply] at h
        have hnext : WritesLine m₂ (nextOutPacket m₂) := next_writes (by
          rw [hclose.2]
          exact hdone)
        exact trans_of WritesLine hwritten (trans_of WritesLine hclose.1
          (trans_of WritesLine hnext (hrest _ _ _ h)))

theorem packetWrite_writes : Relates WritesLine (packetWrite env) := by
  unfold packetWrite
  refine Relates.bind relates_get fun m => ?_
  refine Relates.bind relates_failIf fun _ => ?_
  refine Relates.bind (relates_modify fun m => ?_) fun _ => ?_
  · split
    · next hnone =>
      exact next_writes fun out hout => by simp [Option.isNone_iff_eq_none.mp hnone] at hout
    · exact Std.Refl.refl m
  · refine Relates.bind relates_get fun m => ?_
    exact relates_pure.ite writePackets_writes

/-! ## Securing and queueing -/

theorem getMessage_same {messageType : Nat} {packet : Bytes} {m m' : Mosq σ}
    {r : Except MosqError Bytes}
    (h : onSession (env.wclSmpGetMessage messageType packet) m = some (r, m')) :
    m'.outLine = m.outLine ∧ ∃ r₀, env.wclSmpGetMessage messageType packet m.session =
      some (r₀, m'.session) ∧ ∀ message, r = .ok message → r₀ = .ok message := by
  cases r with
  | error e =>
    obtain ⟨e₀, he, -⟩ := mapErr_error.mp h
    obtain ⟨session, hget, rfl⟩ := onPart_eq.mp he
    exact ⟨rfl, .error e₀, hget, nofun⟩
  | ok message =>
    obtain ⟨session, hget, rfl⟩ := onPart_eq.mp (mapErr_ok.mp h)
    exact ⟨rfl, .ok message, hget, fun message' hm => congrArg Except.ok (Except.ok.inj hm)⟩

/-- How securing a packet ends: the line is as before, and unless it fails the packet
    that comes out holds a message of the session behind its length. -/
structure Secures (env : Setup σ) (packet : Packet) (m : Mosq σ) (r : Except MosqError Packet)
    (m' : Mosq σ) : Prop where
  line : m'.outLine = m.outLine
  session : ∃ r₀, env.wclSmpGetMessage
    (((packet.payload.map Buffer.data).getD []).headD 0 >>> 4).toNat
    (((packet.payload.map Buffer.data).getD []).take packet.packetLength) m.session =
      some (r₀, m'.session)
  message : ∀ packet', r = .ok packet' → ∃ message,
    env.wclSmpGetMessage (((packet.payload.map Buffer.data).getD []).headD 0 >>> 4).toNat
      (((packet.payload.map Buffer.data).getD []).take packet.packetLength) m.session =
        some (.ok message, m'.session) ∧
      (packet'.payload.map Buffer.data).getD [] = Base128.encodeFrame 4 message ∧
      message.length < 2 ^ 28 ∧ packet'.command = packet.command ∧
      packet'.mid = packet.mid ∧ packet'.pos = 0 ∧
      packet'.toProcess = ((packet'.payload.map Buffer.data).getD []).length

theorem mosqWclSmpGetMessage_cases {messageType : Nat} {packet : Bytes} {m m' : Mosq σ}
    {r : Except MosqError Buffer}
    (h : mosqWclSmpGetMessage env messageType packet m = some (r, m')) :
    m'.outLine = m.outLine ∧
      (∃ r₀, env.wclSmpGetMessage messageType packet m.session = some (r₀, m'.session)) ∧
      ∀ buffer, r = .ok buffer → ∃ message,
        buffer.data = Base128.encodeFrame 4 message ∧ message.length < 2 ^ 28 ∧
        env.wclSmpGetMessage messageType packet m.session = some (.ok message, m'.session) := by
  unfold mosqWclSmpGetMessage at h
  rcases bind_some.mp h with ⟨e, h₁, rfl⟩ | ⟨message, m₁, h₁, h⟩
  · obtain ⟨hline, r₀, hget, -⟩ := getMessage_same h₁
    exact ⟨hline, ⟨r₀, hget⟩, (fun _ h => by cases h)⟩
  obtain ⟨hline, r₀, hget, hok⟩ := getMessage_same h₁
  obtain rfl := hok message rfl
  -- the rest is about blocks
  have hrest : HeapOnly m₁ m' ∧ ∀ buffer : Buffer, r = .ok buffer →
      buffer.data = Base128.encodeFrame 4 message ∧ message.length < 2 ^ 28 := by
    rcases bind_some.mp h with ⟨e, h₂, rfl⟩ | ⟨temp, m₂, h₂, h⟩
    · exact ⟨HeapOnly.libraryBlock _ _ _ h₂, (fun _ h => by cases h)⟩
    have hm₂ := HeapOnly.libraryBlock _ _ _ h₂
    rcases bind_some.mp h with ⟨e, h₃, rfl⟩ | ⟨_, m₃, h₃, h⟩
    · obtain ⟨-, -, rfl⟩ := failIf_error.mp h₃
      exact ⟨hm₂, (fun _ h => by cases h)⟩
    obtain ⟨hslots, rfl⟩ := failIf_ok.mp h₃
    -- a fifth length byte was refused
    have hfits := encode_slots.mp hslots
    rcases bind_some.mp h with ⟨e, h₄, rfl⟩ | ⟨mem, m₄, h₄, h⟩
    · exact ⟨trans_of HeapOnly hm₂ (HeapOnly.malloc _ _ _ h₄), (fun _ h => by cases h)⟩
    have hm₄ := trans_of HeapOnly hm₂ (HeapOnly.malloc _ _ _ h₄)
    cases mem with
    | none =>
      cases h
      exact ⟨hm₄, (fun _ h => by cases h)⟩
    | some block =>
      obtain ⟨_, m₅, h₅, h⟩ := (bind_some.mp h).resolve_left (by
        rintro ⟨e, h₅, -⟩
        exact neverFails_modify _ _ _ h₅)
      have hm₅ := trans_of HeapOnly hm₄ (HeapOnly.touch _ _ _ h₅)
      obtain ⟨_, m₆, h₆, h⟩ := (bind_some.mp h).resolve_left (by
        rintro ⟨e, h₆, -⟩
        exact neverFails_modify _ _ _ h₆)
      have hm₆ := trans_of HeapOnly hm₅ (HeapOnly.free _ _ _ h₆)
      cases h
      refine ⟨hm₆, fun buffer hb => ?_⟩
      cases hb
      exact ⟨congrArg (· ++ message) (encode_fits hfits), hfits⟩
  obtain ⟨hheap, hbuffer⟩ := hrest
  have hsession : m'.session = m₁.session := hheap.session
  refine ⟨hheap.outLine.trans hline, ?_, fun buffer hb =>
    ⟨message, (hbuffer buffer hb).1, (hbuffer buffer hb).2, ?_⟩⟩
  · rw [hsession]
    exact ⟨_, hget⟩
  · rw [hsession]
    exact hget

theorem packetSecure_cases {packet : Packet} {m m' : Mosq σ} {r : Except MosqError Packet}
    (h : packetSecure env packet m = some (r, m')) : Secures env packet m r m' := by
  unfold packetSecure at h
  obtain ⟨_, m₁, h₁, h⟩ := (bind_some.mp h).resolve_left (by
    rintro ⟨e, h₁, -⟩
    exact neverFails_modify _ _ _ h₁)
  have hm₁ := HeapOnly.touch _ _ _ h₁
  have hline₁ := hm₁.outLine
  rcases bind_some.mp h with ⟨e, h₂, rfl⟩ | ⟨buffer, m₂, h₂, h⟩
  · obtain ⟨hline, hget, -⟩ := mosqWclSmpGetMessage_cases h₂
    rw [hm₁.session] at hget
    exact ⟨hline.trans hline₁, hget, fun _ hp => by cases hp⟩
  obtain ⟨hline, hget, hmessage⟩ := mosqWclSmpGetMessage_cases h₂
  rw [hm₁.session] at hget hmessage
  rcases bind_some.mp h with ⟨e, h₃, rfl⟩ | ⟨_, m₃, h₃, h⟩
  · rw [mosquittoFree_apply] at h₃
    cases h₃
  have hm₃ := HeapOnly.mosquittoFree _ _ _ h₃
  cases h
  have hsession : m'.session = m₂.session := hm₃.session
  refine ⟨hm₃.outLine.trans (hline.trans hline₁), ?_, fun packet' hp => ?_⟩
  · rw [hsession]
    exact hget
  · obtain ⟨message, hdata, hfits, hsecured⟩ := hmessage buffer rfl
    cases hp
    refine ⟨message, ?_, hdata, hfits, rfl, rfl, rfl, rfl⟩
    rw [hsession]
    exact hsecured

/-- A packet that was secured joins the line. -/
theorem packetEnqueue_line {out : OutPacket σ} {m m' : Mosq σ} {u : Unit}
    (h : packetEnqueue out m = some (.ok u, m')) (hpos : out.packet.pos = 0) :
    m'.session = m.session ∧ m'.outLine = m.outLine.push out.secured out.packet.toProcess := by
  cases h
  refine ⟨rfl, ?_⟩
  simp only [Mosq.outLine, PieceLine.push, ← List.append_assoc, List.map_append, List.map_cons,
    List.map_nil, OutPacket.item, hpos]

/-- What sending one packet does to the session and the line. -/
inductive SendsPacket (env : Setup σ) (command : UInt8) (mid : UInt16) (m m' : Mosq σ) : Prop
  | notSent (session : m'.session = m.session) (line : m'.outLine = m.outLine)
  | lost {packet r}
      (get : env.wclSmpGetMessage (command >>> 4).toNat packet m.session = some (r, m'.session))
      (line : m'.outLine = m.outLine)
  | queued {packet message}
      (get : env.wclSmpGetMessage (command >>> 4).toNat packet m.session =
        some (.ok message, m'.session))
      (fits : message.length < 2 ^ 28)
      (line : Relation.ReflTransGen PieceLine.Writes
        (m.outLine.push {
          origin := m.session
          command := command
          mid := mid
          bytes := Base128.encodeFrame 4 message } (Base128.encodeFrame 4 message).length)
        m'.outLine)

/-- The command of a packet is the first byte of its payload. -/
def Packet.Headed (packet : Packet) : Prop :=
  ((packet.payload.map Buffer.data).getD []).headD 0 = packet.command

theorem packetQueue_sends {block : Block} {packet : Packet} {m m' : Mosq σ}
    {r : Except MosqError Unit} (hheaded : packet.Headed)
    (h : packetQueue env block packet m = some (r, m')) :
    SendsPacket env packet.command packet.mid m m' := by
  unfold packetQueue at h
  rw [bind_of_ok get_apply] at h
  rcases bind_some.mp h with ⟨e, h₁, rfl⟩ | ⟨packet', m₁, h₁, h⟩
  · obtain ⟨hline, ⟨_, hget⟩, -⟩ := packetSecure_cases h₁
    rw [hheaded] at hget
    exact .lost hget hline
  obtain ⟨hline, -, hmessage⟩ := packetSecure_cases h₁
  obtain ⟨message, hget, hdata, hfits, hcommand, hmid, hpos, hsize⟩ := hmessage packet' rfl
  rcases bind_some.mp h with ⟨e, h₂, rfl⟩ | ⟨_, m₂, h₂, h⟩
  · cases h₂
  obtain ⟨hsession₂, hline₂⟩ := packetEnqueue_line h₂ hpos
  have hrest : Relates WritesLine (get >>= fun mosq : Mosq σ =>
      if env.role = .client ∧ (mosq.inCallback ∨ mosq.threaded) then pure ()
      else packetWrite env) :=
    Relates.bind relates_get fun _ => relates_pure.ite packetWrite_writes
  have hwrites := hrest _ _ _ h
  have hpushed := hwrites.line
  rw [hline₂, hline, hsize] at hpushed
  simp only [OutPacket.secured, hcommand, hmid, hdata] at hpushed
  have hsession : m'.session = m₁.session := hwrites.session.trans hsession₂
  rw [hheaded, ← hsession] at hget
  exact .queued hget hfits hpushed

theorem packetAlloc_ok {packet packet' : Packet} {m m' : Mosq σ}
    (h : packetAlloc env packet m = some (.ok packet', m')) :
    packet'.command = packet.command ∧ packet'.mid = packet.mid ∧
      ∃ block, packet'.payload = some {
      block := block
      data := packet.command :: Base128.encode 5 packet.remainingLength } := by
  unfold packetAlloc at h
  obtain ⟨_, m₁, -, h⟩ := bind_ok.mp h
  obtain ⟨mem, m₂, -, h⟩ := bind_ok.mp h
  cases mem with
  | none => cases h
  | some block =>
    cases h
    exact ⟨rfl, rfl, block, rfl⟩

theorem HeapOnly.packetAlloc {packet : Packet} : Relates HeapOnly (packetAlloc env packet) := by
  unfold WeeveMQ.packetAlloc
  refine Relates.bind relates_failIf fun _ => ?_
  refine Relates.bind mosquittoMalloc fun mem => ?_
  cases mem with
  | none => exact relates_throw
  | some b => exact relates_pure

/-- Every function of `send_mosq.c` sends one packet of its own command. -/
theorem sendPacket_sends {command : UInt8} {mid : UInt16} {body : Bytes} {m m' : Mosq σ}
    {r : Except MosqError Unit} (h : sendPacket env command mid body m = some (r, m')) :
    SendsPacket env command mid m m' := by
  have hsame : ∀ {m₁ : Mosq σ}, HeapOnly m m₁ → SendsPacket env command mid m m₁ :=
    fun h => .notSent h.session h.outLine
  unfold sendPacket at h
  rcases bind_some.mp h with ⟨e, h₁, rfl⟩ | ⟨mem, m₁, h₁, h⟩
  · exact hsame (HeapOnly.mosquittoMalloc _ _ _ h₁)
  have hm₁ := HeapOnly.mosquittoMalloc _ _ _ h₁
  cases mem with
  | none =>
    cases h
    exact hsame hm₁
  | some block =>
    rcases bind_some.mp h with ⟨e, h₂, rfl⟩ | ⟨packet, m₂, h₂, h⟩
    · exact hsame (trans_of HeapOnly hm₁
        (relates_onErr HeapOnly.packetAlloc HeapOnly.mosquittoFree _ _ _ h₂))
    have hok : packetAlloc env { zeroPacket with
        command := command
        mid := mid
        remainingLength := body.length } m₁ = some (.ok packet, m₂) := onErr_ok.mp h₂
    have hm₂ := trans_of HeapOnly hm₁ (HeapOnly.packetAlloc _ _ _ hok)
    obtain ⟨hcommand, hmid, block', hpayload⟩ := packetAlloc_ok hok
    rcases bind_some.mp h with ⟨e, h₃, rfl⟩ | ⟨_, m₃, h₃, h⟩
    · exact absurd h₃ (neverFails_modify _ _ _)
    have hm₃ := trans_of HeapOnly hm₂ (HeapOnly.touch _ _ _ h₃)
    have hqueued := packetQueue_sends (by
      rw [Packet.Headed, hpayload]
      exact hcommand.symm) h
    dsimp only at hqueued
    rw [hcommand, hmid] at hqueued
    -- up to here only the heap has changed
    cases hqueued with
    | notSent session line =>
      exact .notSent (session.trans hm₃.session) (line.trans hm₃.outLine)
    | lost get line =>
      rw [hm₃.session] at get
      exact .lost get (line.trans hm₃.outLine)
    | queued get fits line =>
      rw [hm₃.session, hm₃.outLine] at line
      rw [hm₃.session] at get
      exact .queued get fits line

end WeeveMQ
