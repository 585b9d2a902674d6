/-
  WeeveMQ.PacketDecode

  Taking a decrypted packet apart.

  `packet__read_smp` leaves a decrypted packet in `mqttPacket`, and the fields
  a packet is taken apart into as `packet__cleanup` left them.  What comes of
  the packet is decided by `Base128.decode` of the bytes behind the command:
  whether the remaining length is complete, and whether it fits.
-/

import WeeveMQ.Framing

namespace WeeveMQ

open Call

variable {σ : Type} {env : Setup σ}

/-! ## Reading a frame, whatever the socket does -/

instance : Std.Refl (ReadsTo smpLength smpPayload : Mosq σ → Mosq σ → Prop) where
  refl m := .ofWorld m.errno m.recv m.heap m.memcount m.mallocs

instance : IsTrans (Mosq σ) (ReadsTo smpLength smpPayload) where
  trans _ _ _ := ReadsTo.trans smp_apart

namespace ReadsTo

theorem netRead {count : Nat} :
    Relates (ReadsTo smpLength smpPayload) (netRead count : Call (Mosq σ) _ _) := by
  intro m r m' h
  unfold WeeveMQ.netRead at h
  split at h <;> cases h <;> exact .ofWorld ..

theorem comeBackLater :
    Relates (ReadsTo smpLength smpPayload) (comeBackLater : Call (Mosq σ) _ _) := by
  unfold WeeveMQ.comeBackLater
  refine Relates.bind relates_get fun m => ?_
  split
  · exact relates_pure
  · exact relates_throw
  · exact relates_throw

theorem modifyLength {f : LengthFields → LengthFields} :
    Relates (ReadsTo smpLength smpPayload) (modifyPart smpLength f : Call (Mosq σ) _ _) :=
  relates_modify fun m => .ofLength m.errno m.recv _

theorem modifyPayload {f : PayloadFields → PayloadFields} :
    Relates (ReadsTo smpLength smpPayload) (modifyPart smpPayload f : Call (Mosq σ) _ _) :=
  relates_modify fun m => .ofPayload m.errno m.recv m.heap _

theorem touch {p : Option Buffer} :
    Relates (ReadsTo smpLength smpPayload) (touch p : Call (Mosq σ) MosqError Unit) := by
  apply relates_modify
  intro m
  cases p <;> exact .ofWorld ..

theorem mosquittoMalloc {purpose : Purpose} {size : Nat} :
    Relates (ReadsTo smpLength smpPayload) (mosquittoMalloc env purpose size) := by
  intro m r m' h
  rcases mosquittoMalloc_cases env purpose size m with ⟨calls, hm⟩ | ⟨b, -, -, -, -, -, hm⟩
  · rw [hm] at h
    cases h
    exact .ofWorld ..
  · rw [hm] at h
    cases h
    exact .ofWorld ..

theorem takeLengthByte {byte : UInt8} :
    Relates (ReadsTo smpLength smpPayload) (takeLengthByte smpLength byte : Call (Mosq σ) _ _) :=
  modifyLength.bind fun _ => relates_get.bind fun _ => relates_failIf.bind fun _ => modifyLength

theorem readLength {fuel : Nat} :
    Relates (ReadsTo smpLength smpPayload) (readLength smpLength fuel : Call (Mosq σ) _ _) := by
  induction fuel with
  | zero => exact relates_throw
  | succ fuel ih =>
    unfold WeeveMQ.readLength
    refine Relates.bind netRead fun bytes => ?_
    split
    · exact takeLengthByte.bind fun _ => ih.ite relates_pure
    · exact relates_throw
    · exact comeBackLater.bind fun _ => relates_pure

theorem readPayload {fuel : Nat} :
    Relates (ReadsTo smpLength smpPayload) (readPayload smpPayload fuel : Call (Mosq σ) _ _) := by
  induction fuel with
  | zero => exact relates_pure
  | succ fuel ih =>
    unfold WeeveMQ.readPayload
    refine Relates.bind relates_get fun m => ?_
    refine Relates.ite relates_pure ?_
    refine Relates.bind touch fun _ => Relates.bind netRead fun bytes => ?_
    split
    · exact modifyPayload.bind fun _ => ih
    · exact comeBackLater.bind fun _ => relates_pure

theorem readHeader : Relates (ReadsTo smpLength smpPayload)
    (readHeader env smpLength smpPayload .smpPayload) := by
  unfold WeeveMQ.readHeader
  refine Relates.bind relates_get fun m => Relates.ite ?_ relates_pure
  refine Relates.bind readLength fun done => Relates.ite ?_ relates_pure
  refine Relates.bind modifyLength fun _ => Relates.bind relates_get fun m => ?_
  refine Relates.ite (Relates.bind mosquittoMalloc fun mem => ?_) relates_pure
  cases mem with
  | none => exact modifyPayload.bind fun _ => relates_throw
  | some b => exact modifyPayload.bind fun _ => relates_pure

theorem readSmpFrame : Relates (ReadsTo smpLength smpPayload) (readSmpFrame env) :=
  readHeader.bind fun _ => (relates_get.bind fun _ => readPayload).ite relates_pure

end ReadsTo

theorem comeBackLater_ok {m m' : Mosq σ} (h : comeBackLater m = some (.ok (), m')) :
    m' = m ∧ m.errno = .again := by
  unfold comeBackLater at h
  rw [bind_of_ok get_apply] at h
  cases herr : m.errno <;> rw [herr] at h <;> cases h
  exact ⟨rfl, rfl⟩

/-- A frame that is not complete is told by `errno`. -/
theorem readLength_again {part : PacketPart LengthFields} {fuel : Nat} {m m' : Mosq σ}
    (h : readLength part fuel m = some (.ok false, m')) : m'.errno = .again := by
  induction fuel generalizing m with
  | zero => cases h
  | succ fuel ih =>
    unfold readLength at h
    obtain ⟨bytes, m₁, -, h⟩ := bind_ok.mp h
    rcases bytes with _ | _ | ⟨byte, bs⟩
    · obtain ⟨_, m₂, h₂, hr⟩ := bind_ok.mp h
      obtain ⟨rfl, hagain⟩ := comeBackLater_ok h₂
      cases hr
      exact hagain
    · cases h
    · obtain ⟨_, m₂, -, h⟩ := bind_ok.mp h
      split at h
      · exact ih h
      · cases h

theorem readPayload_again {part : PacketPart PayloadFields} {fuel : Nat} {m m' : Mosq σ}
    (h : readPayload part fuel m = some (.ok false, m')) : m'.errno = .again := by
  induction fuel generalizing m with
  | zero => cases h
  | succ fuel ih =>
    unfold readPayload at h
    rw [bind_of_ok get_apply] at h
    dsimp only at h
    split at h
    · cases h
    · obtain ⟨_, m₁, -, h⟩ := bind_ok.mp h
      obtain ⟨bytes, m₂, -, h⟩ := bind_ok.mp h
      rcases bytes with _ | _ | ⟨b, bs⟩
      · obtain ⟨_, m₃, h₃, hr⟩ := bind_ok.mp h
        obtain ⟨rfl, hagain⟩ := comeBackLater_ok h₃
        cases hr
        exact hagain
      · obtain ⟨_, m₃, h₃, hr⟩ := bind_ok.mp h
        obtain ⟨rfl, hagain⟩ := comeBackLater_ok h₃
        cases hr
        exact hagain
      · obtain ⟨_, m₃, -, h⟩ := bind_ok.mp h
        exact ih h

theorem readHeader_again {length : PacketPart LengthFields} {payload : PacketPart PayloadFields}
    {purpose : Purpose} {m m' : Mosq σ}
    (h : readHeader env length payload purpose m = some (.ok false, m')) : m'.errno = .again := by
  unfold readHeader at h
  rw [bind_of_ok get_apply] at h
  split at h
  · obtain ⟨done, m₁, h₁, h⟩ := bind_ok.mp h
    cases done with
    | false =>
      cases h
      exact readLength_again h₁
    | true =>
      rw [if_pos rfl, modifyPart, modifyIn, bind_of_ok modify_apply, bind_of_ok get_apply] at h
      dsimp only at h
      split at h
      · obtain ⟨mem, m₂, -, h⟩ := bind_ok.mp h
        cases mem <;> cases h
      · cases h
  · cases h

theorem readSmpFrame_again {m m' : Mosq σ} (h : readSmpFrame env m = some (.ok false, m')) :
    m'.errno = .again := by
  obtain ⟨done, m₁, h₁, h⟩ := bind_ok.mp h
  cases done with
  | false =>
    cases h
    exact readHeader_again h₁
  | true =>
    rw [if_pos rfl, bind_of_ok get_apply] at h
    exact readPayload_again h

/-- With the length of a frame complete, there is something left of it to read. -/
def FramePending (q : Packet) : Prop := 0 < q.smpRemainingCount → 0 < q.smpToProcess

theorem netRead_errno {count : Nat} {m m' : Mosq σ} {b : UInt8} {bs : Bytes}
    (h : netRead count m = some (.ok (some (b :: bs)), m')) : m'.errno = .zero := by
  unfold netRead at h
  split at h <;> simp only [Option.some.injEq, Prod.mk.injEq, Except.ok.injEq, reduceCtorEq,
    false_and] at h
  rw [← h.2]

theorem netRead_inPacket {count : Nat} {m m' : Mosq σ} {r : Except MosqError (Option Bytes)}
    (h : netRead count m = some (r, m')) : m'.inPacket = m.inPacket := by
  unfold netRead at h
  split at h <;> cases h <;> rfl

theorem takeLengthByte_get {part : PacketPart LengthFields} {byte : UInt8} {m m' : Mosq σ}
    (h : takeLengthByte part byte m = some (.ok (), m')) :
    (part.get m'.inPacket).count = (part.get m.inPacket).count - 1 ∧ m'.errno = m.errno := by
  unfold takeLengthByte at h
  rw [bind_of_ok modifyPart_apply, bind_of_ok get_apply] at h
  obtain ⟨_, m₁, h₁, h⟩ := bind_ok.mp h
  obtain ⟨-, rfl⟩ := failIf_ok.mp h₁
  rw [modifyPart_apply] at h
  cases h
  simp only [part.get_set, and_self]

/-- Reading a length ends with the count below zero, and without an error if it ends. -/
theorem readLength_done {part : PacketPart LengthFields} {fuel : Nat} {m m' : Mosq σ} {done : Bool}
    (hcount : (part.get m.inPacket).count ≤ 0)
    (h : readLength part fuel m = some (.ok done, m')) :
    (part.get m'.inPacket).count ≤ 0 ∧
      (done = true → m'.errno = .zero ∧ (part.get m'.inPacket).count < 0) := by
  induction fuel generalizing m with
  | zero => cases h
  | succ fuel ih =>
    unfold readLength at h
    obtain ⟨bytes, m₁, h₁, h⟩ := bind_ok.mp h
    rcases bytes with _ | _ | ⟨byte, bs⟩
    · obtain ⟨_, m₂, h₂, hr⟩ := bind_ok.mp h
      obtain ⟨rfl, -⟩ := comeBackLater_ok h₂
      cases hr
      rw [netRead_inPacket h₁]
      exact ⟨hcount, (fun h => by cases h)⟩
    · cases h
    · obtain ⟨_, m₂, h₂, h⟩ := bind_ok.mp h
      obtain ⟨hget, herrno⟩ := takeLengthByte_get h₂
      rw [netRead_inPacket h₁] at hget
      rw [netRead_errno h₁] at herrno
      split at h
      · exact ih (by omega) h
      · cases h
        exact ⟨by omega, fun _ => ⟨herrno, by omega⟩⟩

theorem readPayload_done {part : PacketPart PayloadFields} {fuel : Nat} {m m' : Mosq σ}
    {done : Bool} (h : readPayload part fuel m = some (.ok done, m')) :
    (done = false → 0 < (part.get m'.inPacket).toProcess) ∧
      (done = true → m' = m ∧ (fuel = 0 ∨ (part.get m.inPacket).toProcess = 0) ∨
        m'.errno = .zero) := by
  induction fuel generalizing m with
  | zero =>
    cases h
    exact ⟨(fun h => by cases h), fun _ => .inl ⟨rfl, .inl rfl⟩⟩
  | succ fuel ih =>
    unfold readPayload at h
    rw [bind_of_ok get_apply] at h
    dsimp only at h
    split at h
    · next hzero =>
      cases h
      exact ⟨(fun h => by cases h), fun _ => .inl ⟨rfl, .inr hzero⟩⟩
    · next hzero =>
      obtain ⟨_, m₁, h₁, h⟩ := bind_ok.mp h
      have hin := (HeapOnly.touch _ _ _ h₁).inPacket
      obtain ⟨bytes, m₂, h₂, h⟩ := bind_ok.mp h
      have hstays : ∀ u, comeBackLater m₂ = some (.ok u, m') →
          0 < (part.get m'.inPacket).toProcess := by
        intro u hr
        obtain ⟨rfl, -⟩ := comeBackLater_ok hr
        rw [netRead_inPacket h₂, hin]
        omega
      rcases bytes with _ | _ | ⟨b, bs⟩
      · obtain ⟨u, m₃, h₃, hr⟩ := bind_ok.mp h
        cases hr
        exact ⟨fun _ => hstays u h₃, (fun h => by cases h)⟩
      · obtain ⟨u, m₃, h₃, hr⟩ := bind_ok.mp h
        cases hr
        exact ⟨fun _ => hstays u h₃, (fun h => by cases h)⟩
      · obtain ⟨_, m₃, h₃, h⟩ := bind_ok.mp h
        obtain ⟨hfalse, htrue⟩ := ih h
        refine ⟨hfalse, fun hd => .inr ?_⟩
        have herrno := netRead_errno h₂
        rcases htrue hd with ⟨rfl, -⟩ | hzero
        · cases h₃
          exact herrno
        · exact hzero

theorem readHeader_done {m m' : Mosq σ} {done : Bool}
    (h : readHeader env smpLength smpPayload .smpPayload m = some (.ok done, m')) :
    (done = false → m'.inPacket.smpRemainingCount ≤ 0) ∧
      (done = true → m' = m ∧ 0 < m.inPacket.smpRemainingCount ∨ m'.errno = .zero) := by
  unfold readHeader at h
  rw [bind_of_ok get_apply] at h
  split at h
  · next hcount =>
    obtain ⟨read, m₁, h₁, h⟩ := bind_ok.mp h
    obtain ⟨hle, hzero⟩ := readLength_done hcount h₁
    cases read with
    | false =>
      cases h
      exact ⟨fun _ => hle, nofun⟩
    | true =>
      have herrno := (hzero rfl).1
      rw [if_pos rfl, bind_of_ok modifyPart_apply, bind_of_ok get_apply] at h
      dsimp only at h
      split at h
      · obtain ⟨mem, m₂, h₂, h⟩ := bind_ok.mp h
        obtain ⟨_, _, _, rfl⟩ := HeapOnly.mosquittoMalloc _ _ _ h₂
        cases mem with
        | none => cases h
        | some block =>
          cases h
          exact ⟨nofun, fun _ => .inr herrno⟩
      · cases h
        exact ⟨nofun, fun _ => .inr herrno⟩
  · next hcount =>
    cases h
    exact ⟨nofun, fun _ => .inl ⟨rfl, not_le.mp hcount⟩⟩

/-- A complete frame was read without an error, and an incomplete one has more to come. -/
theorem readSmpFrame_done {m m' : Mosq σ} {done : Bool} (hpending : FramePending m.inPacket)
    (h : readSmpFrame env m = some (.ok done, m')) :
    (done = true → m'.errno = .zero) ∧ (done = false → FramePending m'.inPacket) := by
  obtain ⟨header, m₁, h₁, h⟩ := bind_ok.mp h
  obtain ⟨hfalse, htrue⟩ := readHeader_done h₁
  cases header with
  | false =>
    cases h
    exact ⟨nofun, fun _ hcount => absurd hcount (not_lt.mpr (hfalse rfl))⟩
  | true =>
    rw [if_pos rfl, bind_of_ok get_apply] at h
    obtain ⟨hmore, hall⟩ := readPayload_done h
    refine ⟨fun hd => ?_, fun hd _ => hmore hd⟩
    rcases hall hd with ⟨rfl, hnone⟩ | hzero
    · rcases htrue rfl with ⟨rfl, hcount⟩ | hzero
      · -- nothing was left of a frame that is pending
        have hzero : m'.inPacket.smpToProcess = 0 := hnone.elim id id
        exact absurd (hpending hcount) (by omega)
      · exact hzero
    · exact hzero

/-- What a frame that is processed leaves: the packet it contained, and nothing
    else that is new to the client. -/
structure Delivers (env : Setup σ) (m m' : Mosq σ) (b : Bytes) : Prop where
  some : b ≠ []
  session : env.wclSmpProcessMessage m.inPacket.frame m.session = .some (.ok b, m'.session)
  packet : ∃ block, m'.inPacket = { m.inPacket with
    smpPos := 0
    mqttPacket := .some { block := block, data := b } }
  handed : m'.handed = m.handed ++ [m.inPacket.frame]
  handled : m'.handled = m.handled
  sock : m'.sock = m.sock
  state : m'.state = m.state
  bridge : m'.bridge = m.bridge
  errno : m'.errno = m.errno

theorem processSmpFrame_ok {m m' : Mosq σ} (h : processSmpFrame env m = some (.ok (), m')) :
    ∃ b, Delivers env m m' b := by
  have herrno := (processSmpFrame_frame h).2.2.1
  unfold processSmpFrame at h
  obtain ⟨_, m₁, h₁, h⟩ := bind_ok.mp h
  cases h₁
  rw [bind_of_ok get_apply] at h
  obtain ⟨_, m₂, h₂, h⟩ := bind_ok.mp h
  have hm₂ := HeapOnly.touch.onlyIf _ _ _ h₂
  obtain ⟨_, m₃, h₃, h⟩ := bind_ok.mp h
  cases h₃
  obtain ⟨b, m₄, h₄, h⟩ := bind_ok.mp h
  obtain ⟨session, hsession, hm₄⟩ := onPart_eq.mp (mapErr_ok.mp h₄)
  obtain ⟨_, m₅, h₅, h⟩ := bind_ok.mp h
  obtain ⟨_, m₆, h₆, h⟩ := bind_ok.mp h
  have hm₆ := HeapOnly.mosquittoFree _ _ _ h₆
  obtain ⟨hb, rfl⟩ := failIf_ok.mp h
  -- a message that is not empty was copied to a block of its own
  rw [onlyIf, if_pos hb] at h₅
  obtain ⟨block, m₇, h₇, h₅⟩ := bind_ok.mp h₅
  have hm₇ := HeapOnly.libraryBlock _ _ _ h₇
  cases h₅
  subst hm₄
  refine ⟨b, hb, ?_, ⟨block, ?_⟩, ?_, ?_, ?_, ?_, ?_, herrno⟩
  · rw [hm₆.session]
    show env.wclSmpProcessMessage m.inPacket.frame m.session = some (.ok b, m₇.session)
    rw [hm₇.session, ← hm₂.session]
    exact hsession
  · rw [hm₆.inPacket]
    show { m₇.inPacket with mqttPacket := some { block := block, data := b } } = _
    rw [hm₇.inPacket]
    show { m₂.inPacket with mqttPacket := some { block := block, data := b } } = _
    rw [hm₂.inPacket]
  · rw [hm₆.handed]
    show m₇.handed = _
    rw [hm₇.handed]
    show m₂.handed ++ [m.inPacket.frame] = _
    rw [hm₂.handed]
  · exact hm₆.handled.trans (hm₇.handled.trans hm₂.handled)
  · exact hm₆.sock.trans (hm₇.sock.trans hm₂.sock)
  · exact hm₆.state.trans (hm₇.state.trans hm₂.state)
  · exact hm₆.bridge.trans (hm₇.bridge.trans hm₂.bridge)

/-- A packet of which nothing is taken apart yet. -/
structure Untouched (q : Packet) : Prop where
  command : q.command = 0
  length : mqttLength.get q = lengthRead []
  payload : mqttPayload.get q = { payload := none, toProcess := 0, pos := 0 }

/-- A decrypted packet that is still to be taken apart. -/
structure Decrypted (b : Bytes) (q : Packet) : Prop extends Untouched q where
  packet : ∃ block, q.mqttPacket = some { block := block, data := b }

theorem Untouched.cleaned (q : Packet) : Untouched q.cleaned := ⟨rfl, rfl, rfl⟩

/-- A call of `packet__read_smp` after which the packet is there. -/
theorem packetReadSmp_delivers {m m' : Mosq σ} (hq : Untouched m.inPacket)
    (h : packetReadSmp env m = some (.ok (), m')) (hdone : m'.errno ≠ .again) :
    ∃ m₁ b, ReadsTo smpLength smpPayload m m₁ ∧ Delivers env m₁ m' b ∧
      Decrypted b m'.inPacket := by
  unfold packetReadSmp at h
  obtain ⟨done, m₁, h₁, h⟩ := bind_ok.mp h
  cases done with
  | false =>
    cases h
    exact absurd (readSmpFrame_again h₁) hdone
  | true =>
    rw [if_pos rfl] at h
    obtain ⟨b, hb⟩ := processSmpFrame_ok h
    have hto := ReadsTo.readSmpFrame _ _ _ h₁
    obtain ⟨block, hpacket⟩ := hb.packet
    have hin : ∃ lf pf, m₁.inPacket = smpPayload.set pf (smpLength.set lf m.inPacket) := by
      obtain ⟨_, _, _, _, _, lf, pf, rfl⟩ := hto
      exact ⟨lf, pf, rfl⟩
    obtain ⟨lf, pf, hin⟩ := hin
    rw [hin] at hpacket
    refine ⟨m₁, b, hto, hb, ⟨?_, ?_, ?_⟩, block, ?_⟩
    · rw [hpacket]
      exact hq.command
    · rw [hpacket]
      exact hq.length
    · rw [hpacket]
      exact hq.payload
    · rw [hpacket]

/-- A call of `packet__read_smp` waits for more of the frame, or the packet is there. -/
theorem packetReadSmp_cases {m m' : Mosq σ} (hq : Untouched m.inPacket)
    (hpending : FramePending m.inPacket) (h : packetReadSmp env m = some (.ok (), m')) :
    (m'.errno = .again ∧ ReadsTo smpLength smpPayload m m' ∧ FramePending m'.inPacket) ∨
      (m'.errno = .zero ∧ ∃ m₁ b, ReadsTo smpLength smpPayload m m₁ ∧ Delivers env m₁ m' b ∧
        Decrypted b m'.inPacket) := by
  have hread := h
  unfold packetReadSmp at h
  obtain ⟨done, m₁, h₁, h⟩ := bind_ok.mp h
  obtain ⟨htrue, hfalse⟩ := readSmpFrame_done hpending h₁
  cases done with
  | false =>
    cases h
    exact .inl ⟨readSmpFrame_again h₁, ReadsTo.readSmpFrame _ _ _ h₁, hfalse rfl⟩
  | true =>
    rw [if_pos rfl] at h
    have herrno : m'.errno = .zero := (processSmpFrame_frame h).2.2.1.trans (htrue rfl)
    refine .inr ⟨herrno, packetReadSmp_delivers hq hread ?_⟩
    rw [herrno]
    decide

/-! ## The bytes of a packet -/

section Bytes

variable {b : Bytes} {m : Mosq σ}

theorem packetByte_inside {index : Nat} {c : UInt8} (h : b[index]? = some c) :
    packetByte env b index m = some (.ok c, m) := by
  unfold packetByte
  rw [h]
  rfl

theorem packetByte_outside {index : Nat} (hbeyond : env.beyondPacket = none)
    (h : b.length ≤ index) : packetByte env b index m = none := by
  unfold packetByte
  rw [List.getElem?_eq_none h, hbeyond]
  rfl

theorem packetBytes_inside {index count : Nat} (h : index + count ≤ b.length) :
    packetBytes env b index count m = some (.ok ((b.drop index).take count), m) := by
  induction count generalizing index with
  | zero => simp [packetBytes]
  | succ count ih =>
    have hget : b[index]? = some b[index] := List.getElem?_eq_getElem (by omega)
    have hdrop : b.drop index = b[index] :: b.drop (index + 1) := List.drop_eq_getElem_cons (by omega)
    rw [packetBytes, bind_of_ok (packetByte_inside hget), bind_of_ok (ih (by omega)), hdrop,
      List.take_succ_cons, pure_apply]

theorem packetBytes_outside {index count : Nat} (hbeyond : env.beyondPacket = none)
    (hindex : index ≤ b.length) (h : b.length < index + count) :
    packetBytes env b index count m = none := by
  induction count generalizing index with
  | zero => omega
  | succ count ih =>
    rw [packetBytes]
    by_cases hin : index < b.length
    · have hget : b[index]? = some b[index] := List.getElem?_eq_getElem hin
      rw [bind_of_ok (packetByte_inside hget), bind_apply, ih (by omega) (by omega)]
    · rw [bind_apply, packetByte_outside hbeyond (by omega)]

theorem packetBytes_beyond {beyond : Nat → UInt8} (hbeyond : env.beyondPacket = some beyond)
    (index count : Nat) : ∃ bs, packetBytes env b index count m = some (.ok bs, m) := by
  induction count generalizing index with
  | zero => exact ⟨[], rfl⟩
  | succ count ih =>
    have hbyte : ∃ c, packetByte env b index m = some (.ok c, m) := by
      cases hget : b[index]? with
      | some c => exact ⟨c, packetByte_inside hget⟩
      | none =>
        refine ⟨beyond (index - b.length), ?_⟩
        unfold packetByte
        rw [hget, hbeyond]
        rfl
    obtain ⟨c, hc⟩ := hbyte
    obtain ⟨bs, hbs⟩ := ih (index + 1)
    rw [packetBytes, bind_of_ok hc, bind_of_ok hbs]
    exact ⟨c :: bs, rfl⟩

end Bytes

/-! ## The remaining length -/

/-- The ways in which the length bytes of a decrypted packet end.  The bytes `p`
    were read before, and `s` are left. -/
theorem decodeRemainingLength_cases {b p s : Bytes} (fuel : Nat) {offset : Nat} {m : Mosq σ}
    (h : mqttLength.get m.inPacket = lengthRead p) (hp : ∀ c ∈ p, Base128.continues c = true)
    (hlen : p.length ≤ 4) (hfuel : 5 ≤ fuel + p.length) (hs : b.drop offset = s)
    (hoffset : offset ≤ b.length) :
    (∃ lf, decodeRemainingLength env b fuel offset m = some (.error .protocol, { m with
        inPacket := mqttLength.set lf m.inPacket }) ∧ Base128.decode 4 (p ++ s) = .tooLong) ∨
    (∃ d rest, decodeRemainingLength env b fuel offset m = some (.ok (offset + d.length), { m with
        inPacket := mqttLength.set (lengthRead (p ++ d)) m.inPacket }) ∧ s = d ++ rest ∧
      IsLength (p ++ d)) ∨
    (Base128.decode 4 (p ++ s) = .incomplete ∧
      (env.beyondPacket = none → decodeRemainingLength env b fuel offset m = none)) := by
  -- on the rounds, as for the length that is read from the socket
  induction fuel generalizing m p s offset with
  | zero => omega
  | succ fuel ih =>
    rw [decodeRemainingLength]
    cases s with
    | nil =>
      -- the loop condition lets the index come to the length of the packet
      have hend : b.length ≤ offset := List.drop_eq_nil_iff.mp hs
      refine .inr (.inr ⟨?_, fun hbeyond => ?_⟩)
      · rw [List.append_nil]
        exact decode_unfinished hp hlen
      · rw [bind_apply, packetByte_outside hbeyond hend]
    | cons c s =>
      have hlt : offset < b.length := by
        by_contra hnot
        rw [List.drop_eq_nil_of_le (by omega)] at hs
        cases hs
      have hcons : b[offset] :: b.drop (offset + 1) = c :: s := by
        rw [← List.drop_eq_getElem_cons hlt]
        exact hs
      obtain ⟨hc, hs'⟩ := List.cons_eq_cons.mp hcons
      have hget : b[offset]? = some c := by rw [List.getElem?_eq_getElem hlt, hc]
      rw [bind_of_ok (packetByte_inside hget)]
      by_cases hfour : p.length = 4
      · -- a fifth byte
        obtain ⟨lf, hlf⟩ := takeLengthByte_tooLong c h hfour
        refine .inl ⟨lf, bind_of_error hlf, ?_⟩
        have htoo := Base128.decode_append hp 0 (c :: s)
        rwa [hfour, Nat.add_zero, Base128.decode, Base128.Decoded.extend_tooLong] at htoo
      · rw [bind_of_ok (takeLengthByte_ok c h (by omega))]
        by_cases hcont : Base128.continues c = true
        -- another byte is to follow: the rest is taken with `p ++ [c]` behind it
        -- another byte is to follow: the rest is taken with `p ++ [c]` behind it
        · have hne : c &&& 128 ≠ 0 ∧ offset + 1 ≤ b.length :=
            ⟨by simpa [Base128.continues] using hcont, by omega⟩
          have hp' : ∀ e ∈ p ++ [c], Base128.continues e = true := by
            intro e he
            rcases List.mem_append.mp he with he | he
            · exact hp e he
            · exact (List.mem_singleton.mp he) ▸ hcont
          have hlen' : (p ++ [c]).length = p.length + 1 := by simp
          rw [if_pos hne]
          rcases ih (m := { m with
                inPacket := mqttLength.set (lengthRead (p ++ [c])) m.inPacket })
              (mqttLength.get_set ..) hp' (by omega) (by omega) hs' (by omega) with
            ⟨lf, hr, hd⟩ | ⟨d, rest, hr, hsplit, hd⟩ | ⟨hd, hr⟩
          · refine .inl ⟨lf, ?_, by simpa using hd⟩
            rw [hr]
            simp only [mqttLength.set_set]
          · refine .inr (.inl ⟨c :: d, rest, ?_, by rw [hsplit, List.cons_append],
              by simpa using hd⟩)
            rw [hr]
            simp only [mqttLength.set_set, List.append_assoc, List.singleton_append,
              List.length_cons, Nat.add_assoc, Nat.add_comm 1]
          · exact .inr (.inr ⟨by simpa using hd, hr⟩)
        · -- the last byte
          have heq : ¬ (c &&& 128 ≠ 0 ∧ offset + 1 ≤ b.length) := by
            intro hne
            exact hcont (by simpa [Base128.continues] using hne.1)
          refine .inr (.inl ⟨[c], s, ?_, rfl, ?_⟩)
          · rw [if_neg heq]
            rfl
          · have hlast := Base128.decode_last hp (by simpa using hcont) (3 - p.length) []
            rwa [show p.length + (3 - p.length + 1) = 4 by omega] at hlast

/-! ## The whole of a packet -/

/-- What `handle__packet` is to find of a packet with the length bytes `l`. -/
def incomingOf (command : UInt8) (l body : Bytes) : Incoming where
  command := command
  remainingLength := Base128.value l
  remainingCount := l.length
  payload := body
  pos := 0
  toProcess := 0

/-- The ways in which a decrypted packet is taken apart. -/
inductive DecodeOutcome (env : Setup σ) (b : Bytes) (m : Mosq σ) :
    Option (Except MosqError Unit × Mosq σ) → Prop
  | short (length : b.length < 2) (m' : Mosq σ) :
      DecodeOutcome env b m (some (.error .protocol, m'))
  | refused (refuses : refusesCommand env m (b.headD 0)) (m' : Mosq σ) :
      DecodeOutcome env b m (some (.error .protocol, m'))
  | tooLong (length : Base128.decode 4 b.tail = .tooLong) (m' : Mosq σ) :
      DecodeOutcome env b m (some (.error .protocol, m'))
  | noMemory {l rest : Bytes} (split : b.tail = l ++ rest) (isLength : IsLength l)
      (positive : 0 < Base128.value l) (refuses : ¬ grants env (Base128.value l) m) (m' : Mosq σ) :
      DecodeOutcome env b m (some (.error .nomem, m'))
  | fits {l rest : Bytes} (split : b.tail = l ++ rest) (isLength : IsLength l)
      (long : 2 ≤ b.length) (accepts : ¬ refusesCommand env m (b.headD 0))
      (inside : Base128.value l ≤ rest.length) {m' : Mosq σ}
      (incoming : m'.inPacket.incoming =
        incomingOf (b.headD 0) l (rest.take (Base128.value l))) :
      DecodeOutcome env b m (some (.ok (), m'))
  | endless {r : Option (Except MosqError Unit × Mosq σ)} (long : 2 ≤ b.length)
      (accepts : ¬ refusesCommand env m (b.headD 0))
      (length : Base128.decode 4 b.tail = .incomplete)
      (faults : env.beyondPacket = none → r = none) : DecodeOutcome env b m r
  | beyond {l rest : Bytes} {r : Option (Except MosqError Unit × Mosq σ)} (long : 2 ≤ b.length)
      (accepts : ¬ refusesCommand env m (b.headD 0)) (split : b.tail = l ++ rest)
      (isLength : IsLength l) (outside : rest.length < Base128.value l)
      (grants : grants env (Base128.value l) m) (faults : env.beyondPacket = none → r = none)
      (accepted : ∀ beyond, env.beyondPacket = some beyond → ∃ m', r = some (.ok (), m')) :
      DecodeOutcome env b m r

theorem decodeLength_cases (env : Setup σ) {b s : Bytes} (offset : Nat) {m : Mosq σ}
    (h : mqttLength.get m.inPacket = lengthRead []) (hs : b.drop offset = s)
    (hoffset : offset ≤ b.length) :
    (∃ m', decodeLength env b offset m = some (.error .protocol, m') ∧
      Base128.decode 4 s = .tooLong) ∨
    (∃ l rest, decodeLength env b offset m = some (.ok (offset + l.length), { m with
        inPacket := mqttLength.set (lengthDone l) m.inPacket }) ∧ s = l ++ rest ∧ IsLength l) ∨
    (Base128.decode 4 s = .incomplete ∧
      (env.beyondPacket = none → decodeLength env b offset m = none)) := by
  have hcount : m.inPacket.remainingCount ≤ 0 := le_of_eq (congrArg LengthFields.count h)
  unfold decodeLength
  rw [bind_of_ok get_apply, if_pos hcount]
  rcases decodeRemainingLength_cases 5 h (by simp) (by simp) (by simp) hs hoffset with
    ⟨lf, hr, hd⟩ | ⟨l, rest, hr, hsplit, hl⟩ | ⟨hd, hr⟩
  · exact .inl ⟨_, bind_of_error hr, hd⟩
  · have hturn : { lengthRead l with count := (lengthRead l).count * -1 } = lengthDone l := by
      simp [lengthRead, lengthDone]
    refine .inr (.inl ⟨l, rest, ?_, hsplit, hl⟩)
    rw [bind_of_ok hr, bind_of_ok modifyPart_apply, pure_apply]
    simp only [mqttLength.get_set, mqttLength.set_set, List.nil_append, hturn]
  · refine .inr (.inr ⟨hd, fun hbeyond => ?_⟩)
    rw [bind_apply, hr hbeyond]

theorem decodePayload_cases (env : Setup σ) {b rest : Bytes} {offset n : Nat} {m : Mosq σ}
    (hn : m.inPacket.remainingLength = n)
    (h : mqttPayload.get m.inPacket = { payload := none, toProcess := 0, pos := 0 })
    (hs : b.drop offset = rest) (hoffset : offset ≤ b.length) :
    (∃ m', decodePayload env b offset m = some (.error .nomem, m') ∧ 0 < n ∧ ¬ grants env n m) ∨
    (∃ m', decodePayload env b offset m = some (.ok (), m') ∧ n ≤ rest.length ∧
      m'.inPacket.incoming = { m.inPacket.incoming with payload := rest.take n }) ∨
    (rest.length < n ∧ grants env n m ∧
      (env.beyondPacket = none → decodePayload env b offset m = none) ∧
      (∀ beyond, env.beyondPacket = some beyond →
        ∃ m', decodePayload env b offset m = some (.ok (), m'))) := by
  have hrest : rest.length = b.length - offset := by rw [← hs, List.length_drop]
  have hpayload : m.inPacket.payload = none := congrArg PayloadFields.payload h
  have htoProcess : m.inPacket.toProcess = 0 := congrArg PayloadFields.toProcess h
  have hpos : m.inPacket.pos = 0 := congrArg PayloadFields.pos h
  unfold decodePayload
  rw [bind_of_ok get_apply]
  dsimp only
  rw [hn]
  by_cases hzero : n > 0
  · rw [if_pos hzero]
    by_cases hgrant : grants env n m
    · obtain ⟨c, m', hmalloc, hin⟩ := mosquittoMalloc_granted .payload hgrant
      rw [bind_of_ok hmalloc]
      dsimp only
      by_cases hfits : n ≤ rest.length
      · rw [bind_of_ok (packetBytes_inside (by omega)), hs]
        refine .inr (.inl ⟨_, rfl, hfits, ?_⟩)
        simp only [hin, Packet.incoming, Option.map_some, Option.getD_some, htoProcess, hpos]
      · refine .inr (.inr ⟨by omega, hgrant, fun hbeyond => ?_, fun beyond hbeyond => ?_⟩)
        · rw [bind_apply, packetBytes_outside hbeyond hoffset (by omega)]
        · obtain ⟨bs, hbs⟩ := packetBytes_beyond (b := b) (m := m') hbeyond offset n
          rw [bind_of_ok hbs]
          exact ⟨_, rfl⟩
    · obtain ⟨calls, hmalloc⟩ := mosquittoMalloc_refused .payload hgrant
      rw [bind_of_ok hmalloc]
      exact .inl ⟨_, rfl, hzero, hgrant⟩
  · obtain rfl : n = 0 := by omega
    rw [if_neg hzero, pure_apply]
    refine .inr (.inl ⟨m, rfl, Nat.zero_le _, ?_⟩)
    simp only [Packet.incoming, hpayload, Option.map_none, Option.getD_none, List.take_zero]

theorem decodeMqttPacket_cases (env : Setup σ) {b : Bytes} {m : Mosq σ}
    (h : Decrypted b m.inPacket) :
    DecodeOutcome env b m (decodeMqttPacket env m) := by
  obtain ⟨block, hpacket⟩ := h.packet
  have hdata : (m.inPacket.mqttPacket.map Buffer.data).getD [] = b := by
    rw [hpacket]
    rfl
  unfold decodeMqttPacket
  rw [bind_of_ok get_apply, hdata]
  by_cases hshort : b.length < 2
  · rw [bind_of_error (failIf_error.mpr ⟨hshort, rfl, rfl⟩)]
    exact .short hshort m
  obtain ⟨command, s, rfl⟩ : ∃ command s, b = command :: s := by
    cases b with
    | nil => simp at hshort
    | cons command s => exact ⟨command, s, rfl⟩
  have hlong : 2 ≤ (command :: s).length := by omega
  have htouch : touch m.inPacket.mqttPacket m =
      some (.ok (), { m with heap := .use block :: m.heap }) := by
    rw [hpacket]
    rfl
  rw [bind_of_ok ((failIf_ok (u := ())).mpr ⟨hshort, rfl⟩), bind_of_ok htouch]
  -- the command
  let m₁ : Mosq σ := { m with
    heap := .use block :: m.heap
    inPacket := { m.inPacket with command := command } }
  have hcommand : decodeCommand env (command :: s) { m with heap := .use block :: m.heap } =
      (failIf (refusesCommand env m command) .protocol >>= fun _ => pure 1) m₁ := by
    unfold decodeCommand
    rw [bind_of_ok get_apply, if_pos h.command]
    rfl
  by_cases hrefuses : refusesCommand env m command
  · have herror := hcommand.trans (bind_of_error (failIf_error.mpr ⟨hrefuses, rfl, rfl⟩))
    rw [bind_of_error herror]
    exact .refused hrefuses _
  have hok := hcommand.trans (bind_of_ok ((failIf_ok (u := ())).mpr ⟨hrefuses, rfl⟩))
  rw [bind_of_ok (hok.trans pure_apply)]
  -- the length
  rcases decodeLength_cases env (b := command :: s) (s := s) 1 (m := m₁) h.length rfl (by simp) with
    ⟨m', hr, hd⟩ | ⟨l, rest, hr, hsplit, hl⟩ | ⟨hd, hr⟩
  · rw [bind_of_error hr]
    exact .tooLong (b := command :: s) hd _
  · have hlength : s.length = l.length + rest.length := by rw [hsplit, List.length_append]
    have hoffset : (command :: s).drop (1 + l.length) = rest := by
      rw [Nat.add_comm, List.drop_succ_cons, hsplit, List.drop_left]
    have hgrants : grants env (Base128.value l) { m₁ with
          inPacket := mqttLength.set (lengthDone l) m₁.inPacket } ↔
        grants env (Base128.value l) m := grants_congr rfl rfl rfl
    rw [bind_of_ok hr]
    -- the payload
    rcases decodePayload_cases env (n := Base128.value l) (m := { m₁ with
          inPacket := mqttLength.set (lengthDone l) m₁.inPacket })
        rfl h.payload hoffset (by rw [List.length_cons]; omega) with
      ⟨m', hr, hpos, hgrant⟩ | ⟨m', hr, hfits, hin⟩ | ⟨hover, hgrant, hnone, hsome⟩
    · rw [hr]
      exact .noMemory (b := command :: s) hsplit hl hpos (mt hgrants.mpr hgrant) _
    · rw [hr]
      refine .fits (b := command :: s) hsplit hl hlong hrefuses hfits ?_
      have htoProcess : m.inPacket.toProcess = 0 := congrArg PayloadFields.toProcess h.payload
      have hpos : m.inPacket.pos = 0 := congrArg PayloadFields.pos h.payload
      rw [hin]
      simp only [Packet.incoming, incomingOf, mqttLength, lengthDone, htoProcess, hpos,
        List.headD_cons, m₁]
    · exact .beyond (b := command :: s) hlong hrefuses hsplit hl hover (hgrants.mp hgrant) hnone
        hsome
  -- the packet ends in its length, and the next byte is read behind it
  · refine .endless (b := command :: s) hlong hrefuses hd fun hbeyond => ?_
    rw [bind_apply, hr hbeyond]

/-- The command of a packet that was taken apart is its first byte, and accepted. -/
theorem decodeMqttPacket_command {b : Bytes} {m m' : Mosq σ} (h : Decrypted b m.inPacket)
    (hdecode : decodeMqttPacket env m = some (.ok (), m')) :
    m'.inPacket.command = b.headD 0 ∧ ¬ refusesCommand env m (b.headD 0) := by
  obtain ⟨block, hpacket⟩ := h.packet
  have hdata : (m.inPacket.mqttPacket.map Buffer.data).getD [] = b := by
    rw [hpacket]
    rfl
  unfold decodeMqttPacket at hdecode
  rw [bind_of_ok get_apply, hdata] at hdecode
  obtain ⟨_, m₁, h₁, hdecode⟩ := bind_ok.mp hdecode
  obtain ⟨hshort, rfl⟩ := failIf_ok.mp h₁
  obtain ⟨_, m₂, h₂, hdecode⟩ := bind_ok.mp hdecode
  have hm₂ := HeapOnly.touch _ _ _ h₂
  obtain ⟨offset, m₃, h₃, hdecode⟩ := bind_ok.mp hdecode
  have hm' := (TakesApart.decodeLength.bind fun _ => TakesApart.decodePayload) _ _ _ hdecode
  have hsame : m'.inPacket.command = m₃.inPacket.command := by
    obtain ⟨_, _, _, _, _, rfl⟩ := hm'
    rfl
  have hzero : m₂.inPacket.command = 0 := by rw [hm₂.inPacket, h.command]
  have hget : b[0]? = some (b.headD 0) := by
    cases b with
    | nil => simp at hshort
    | cons c b => rfl
  unfold decodeCommand at h₃
  rw [bind_of_ok get_apply, if_pos hzero, bind_of_ok (packetByte_inside hget), modifyIn,
    bind_of_ok modify_apply, bind_of_ok get_apply] at h₃
  obtain ⟨_, m₄, h₄, h₃⟩ := bind_ok.mp h₃
  obtain ⟨haccepts, rfl⟩ := failIf_ok.mp h₄
  cases h₃
  refine ⟨hsame, fun hrefuses => haccepts ?_⟩
  unfold refusesCommand at hrefuses ⊢
  rwa [← hm₂.bridge, ← hm₂.state] at hrefuses

/-! ## Up to handle__packet -/

/-- One message given to the session, whatever came of it. -/
def ProcessesMessage (env : Setup σ) (session session' : σ) : Prop :=
  ∃ message r, env.wclSmpProcessMessage message session = some (r, session')

/-- What reading does before a packet is handled. -/
structure ReadSide (env : Setup σ) (m m' : Mosq σ) : Prop where
  handled : m'.handled = m.handled
  state : m'.state = m.state
  bridge : m'.bridge = m.bridge
  sock : m'.sock = m.sock
  currentOutPacket : m'.currentOutPacket = m.currentOutPacket
  outPacket : m'.outPacket = m.outPacket
  wire : m'.wire = m.wire
  session : Relation.ReflTransGen (ProcessesMessage env) m.session m'.session

namespace ReadSide

instance : Std.Refl (ReadSide env) where
  refl _ := ⟨rfl, rfl, rfl, rfl, rfl, rfl, rfl, .refl⟩

instance : IsTrans (Mosq σ) (ReadSide env) where
  trans _ _ _ h h' := ⟨h'.handled.trans h.handled, h'.state.trans h.state,
    h'.bridge.trans h.bridge, h'.sock.trans h.sock,
    h'.currentOutPacket.trans h.currentOutPacket, h'.outPacket.trans h.outPacket,
    h'.wire.trans h.wire, h.session.trans h'.session⟩

theorem ofPacketOnly {m m' : Mosq σ} (h : PacketOnly m m') : ReadSide env m m' := by
  obtain ⟨_, _, _, _, rfl⟩ := h
  exact ⟨rfl, rfl, rfl, rfl, rfl, rfl, rfl, .refl⟩

theorem ofHeapOnly {m m' : Mosq σ} (h : HeapOnly m m') : ReadSide env m m' :=
  ofPacketOnly (.ofTakesApart (.ofHeapOnly h))

theorem ofReadsTo (env : Setup σ) {m m' : Mosq σ} (h : ReadsTo smpLength smpPayload m m') :
    ReadSide env m m' := by
  obtain ⟨_, _, _, _, _, _, _, rfl⟩ := h
  exact ⟨rfl, rfl, rfl, rfl, rfl, rfl, rfl, .refl⟩

theorem processSmpFrame : Relates (ReadSide env) (processSmpFrame env) := by
  unfold WeeveMQ.processSmpFrame
  refine Relates.bind (PacketOnly.modifyIn.mono fun _ _ => ofPacketOnly) fun _ => ?_
  refine Relates.bind relates_get fun m => ?_
  dsimp only
  refine Relates.bind (HeapOnly.touch.mono fun _ _ => ofHeapOnly).onlyIf fun _ => ?_
  refine Relates.bind (relates_modify fun m => ⟨rfl, rfl, rfl, rfl, rfl, rfl, rfl, .refl⟩) fun _ => ?_
  refine Relates.bind ?_ fun packet => ?_
  · refine relates_mapErr (relates_onPart fun m r session h => ?_)
    exact ⟨rfl, rfl, rfl, rfl, rfl, rfl, rfl, .single ⟨_, r, h⟩⟩
  refine Relates.bind (Relates.onlyIf ?_) fun _ => ?_
  · exact (HeapOnly.libraryBlock.mono fun _ _ => ofHeapOnly).bind fun _ =>
      PacketOnly.modifyIn.mono fun _ _ => ofPacketOnly
  exact (HeapOnly.mosquittoFree.mono fun _ _ => ofHeapOnly).bind fun _ => relates_failIf

theorem packetReadSmp : Relates (ReadSide env) (packetReadSmp env) :=
  (ReadsTo.readSmpFrame.mono fun _ _ => ofReadsTo env).bind fun _ => processSmpFrame.ite relates_pure

end ReadSide

/-- A call of `packet__read` ends before it handles a packet, or with handling one. -/
theorem packetRead_parts {m m' : Mosq σ} {r : Except MosqError Unit}
    (h : packetRead env m = some (r, m')) :
    ReadSide env m m' ∨ ∃ m₁, ReadSide env m m₁ ∧ handlePacket env m₁ = some (r, m') := by
  have hdecodes : ∀ {m₀ : Mosq σ}, ReadSide env m m₀ →
      (decodeMqttPacket env >>= fun _ => handlePacket env) m₀ = some (r, m') →
      ReadSide env m m' ∨ ∃ m₁, ReadSide env m m₁ ∧ handlePacket env m₁ = some (r, m') := by
    intro m₀ h₀ h
    rcases bind_some.mp h with ⟨e, h₁, rfl⟩ | ⟨_, m₁, h₁, h⟩
    · exact .inl (trans_of (ReadSide env) h₀
        (.ofPacketOnly (PacketOnly.decodeMqttPacket _ _ _ h₁)))
    · exact .inr ⟨m₁, trans_of (ReadSide env) h₀
        (.ofPacketOnly (PacketOnly.decodeMqttPacket _ _ _ h₁)), h⟩
  unfold packetRead at h
  rw [bind_of_ok get_apply] at h
  rcases bind_some.mp h with ⟨e, h₁, rfl⟩ | ⟨_, m₁, h₁, h⟩
  · obtain ⟨-, -, rfl⟩ := failIf_error.mp h₁
    exact .inl (Std.Refl.refl _)
  obtain ⟨-, rfl⟩ := failIf_ok.mp h₁
  split at h
  · cases h
    exact .inl (Std.Refl.refl _)
  split at h
  · rcases bind_some.mp h with ⟨e, h₂, rfl⟩ | ⟨_, m₂, h₂, h⟩
    · exact .inl (ReadSide.packetReadSmp _ _ _ h₂)
    have hread := ReadSide.packetReadSmp _ _ _ h₂
    rw [bind_of_ok get_apply] at h
    split at h
    · cases h
      exact .inl hread
    · exact hdecodes hread h
  · exact hdecodes (Std.Refl.refl _) h

end WeeveMQ
