/-
  WeeveMQ.Framing

  Incremental framing and one-shot framing.

  `packet__read` is called whenever there may be something to read, and keeps
  what it has of a frame in `in_packet` until the rest arrives.  Whatever the
  chunks of the stream are, the frames it hands on are those that a decoder of
  the whole stream finds; and that decoder undoes the framing of
  `mosq_wclSmpGetMessage`.

  The invariant is `Holds`: the fields of `in_packet` are a function of the
  bytes of the current frame that have been read.
-/

import WeeveMQ.PacketReadSpec

namespace WeeveMQ

open Call

variable {σ : Type} {env : Setup σ}

/-! ## A complete frame -/

/-- The frame that stands in `in_packet`. -/
def Packet.frame (packet : Packet) : Bytes :=
  ((packet.smpPayload.map Buffer.data).getD []).take packet.smpRemainingLength

theorem processSmpFrame_frame {m m' : Mosq σ} {r : Except MosqError Unit}
    (h : processSmpFrame env m = some (r, m')) :
    m'.handed = m.handed ++ [m.inPacket.frame] ∧ m'.recv = m.recv ∧ m'.errno = m.errno ∧
      m'.state = m.state := by
  unfold processSmpFrame at h
  rw [modifyIn, bind_of_ok modify_apply, bind_of_ok get_apply] at h
  rcases bind_some.mp h with ⟨e, h, -⟩ | ⟨_, m₁, h₁, h⟩
  · exact absurd h (NeverFails.onlyIf neverFails_modify _ _ _)
  have hm₁ := InMemory.touch.onlyIf _ _ _ h₁
  rw [bind_of_ok modify_apply] at h
  have hrest : Relates InMemory (do
      let mqttPacket ← onSession (env.wclSmpProcessMessage m.inPacket.frame)
      onlyIf (mqttPacket ≠ []) (do
        let block ← libraryBlock env .mqttPacket mqttPacket.length
        modifyIn fun p => { p with mqttPacket := some { block := block, data := mqttPacket } })
      mosquittoFree env (m.inPacket.smpPayload.map Buffer.block)
      failIf (mqttPacket = []) .unknown) := by
    refine Relates.bind InMemory.onSession fun _ => ?_
    refine Relates.bind (InMemory.libraryBlock.bind fun _ => InMemory.modifyIn).onlyIf fun _ => ?_
    exact InMemory.mosquittoFree.bind fun _ => relates_failIf
  have hm' := hrest _ _ _ h
  refine ⟨?_, hm'.recv.trans hm₁.recv, hm'.errno.trans hm₁.errno, hm'.state.trans hm₁.state⟩
  rw [hm'.handed]
  simp only [hm₁.handed]
  rfl

/-! ## One call -/

/-- A client between two calls, with the bytes `p` of its current frame read. -/
structure Between (p : Bytes) (m : Mosq σ) : Prop where
  holds : Holds smpLength smpPayload m.inPacket p
  command : m.inPacket.command = 0
  reads : m.state ≠ .connectPending
  cut : IsCut m.recv

/-- A client with a clean packet is at the start of a frame. -/
theorem Between.cleaned {m : Mosq σ} {q : Packet} (hq : m.inPacket = q.cleaned)
    (hreads : m.state ≠ .connectPending) (hcut : IsCut m.recv) : Between [] m where
  holds := by
    rw [hq]
    exact .inLength rfl rfl rfl (by simp) (by simp)
  command := by
    rw [hq]
    rfl
  reads := hreads
  cut := hcut

/-- Bytes that all continue are no complete length. -/
theorem decode_unfinished {p : Bytes} (hp : ∀ b ∈ p, Base128.continues b = true)
    (hlen : p.length ≤ 4) : Base128.decode 4 p = .incomplete := by
  have h := Base128.decode_append hp (4 - p.length) []
  rw [List.append_nil, show p.length + (4 - p.length) = 4 by omega] at h
  rw [h, Base128.decode_nil, Base128.Decoded.extend_incomplete]

/-- What is read of a frame is no frame yet. -/
theorem Holds.incomplete {length : PacketPart LengthFields} {payload : PacketPart PayloadFields}
    {q : Packet} {p : Bytes} (h : Holds length payload q p) :
    Base128.nextFrame 4 p = .incomplete := by
  unfold Base128.nextFrame
  cases h with
  | inLength fields nothing start continues short =>
    rw [decode_unfinished continues short]
  | inPayload block isLength more fields part =>
    rw [Base128.decode_number_append isLength]
    simp only [List.nil_append]
    rw [if_neg (by omega)]

theorem Complete.nextFrame {l body : Bytes} {q q' : Packet}
    (h : Complete smpLength smpPayload l body q q') :
    Base128.nextFrame 4 (l ++ body) = .frame body [] := by
  unfold Base128.nextFrame
  rw [Base128.decode_number_append h.isLength]
  simp only [List.nil_append]
  rw [if_pos (by rw [h.size]), ← h.size, List.take_length, List.drop_length]

theorem Complete.frame {l body : Bytes} {q q' : Packet}
    (h : Complete smpLength smpPayload l body q q') : q'.frame = body := by
  have hlength : q'.smpRemainingLength = body.length :=
    (congrArg LengthFields.length h.fields).trans h.size.symm
  unfold Packet.frame
  rw [hlength]
  by_cases hbody : body = []
  · rw [hbody, List.length_nil, List.take_zero]
  · obtain ⟨block, hpart⟩ := h.part hbody
    have hpayload : q'.smpPayload = some { block := block, data := body } :=
      congrArg PayloadFields.payload hpart
    rw [hpayload, Option.map_some, Option.getD_some, List.take_length]

/-- What one call can do. -/
inductive ReadOutcome (p : Bytes) (m m' : Mosq σ) : Except MosqError Unit → Prop
  | waits (d : Bytes) (took : Took d m.recv m'.recv) (handed : m'.handed = m.handed)
      (size : scriptSize m'.recv ≤ scriptSize m.recv - 1) (between : Between (p ++ d) m') :
      ReadOutcome p m m' (.ok ())
  | tooLong (front : Base128.nextFrame 4 (p ++ received m.recv) = .tooLong)
      (handed : m'.handed = m.handed) : ReadOutcome p m m' (.error .protocol)
  | stopped {e : MosqError} (other : e ≠ .protocol) (handed : m'.handed = m.handed) :
      ReadOutcome p m m' (.error e)
  | frame {r : Except MosqError Unit} (d body : Bytes) (took : Took d m.recv m'.recv) (some : d ≠ [])
      (front : Base128.nextFrame 4 (p ++ d) = .frame body [])
      (handed : m'.handed = m.handed ++ [body]) (between : r = .ok () → Between [] m') :
      ReadOutcome p m m' r

theorem packetRead_cut {p : Bytes} {m m' : Mosq σ} {r : Except MosqError Unit} (hb : Between p m)
    (h : packetRead env m = some (r, m')) : ReadOutcome p m m' r := by
  unfold packetRead at h
  rw [bind_of_ok get_apply] at h
  by_cases hsock : m.sock = false
  · rw [bind_of_error (failIf_error.mpr ⟨hsock, rfl, rfl⟩)] at h
    cases h
    exact .stopped (by decide) rfl
  rw [bind_of_ok ((failIf_ok (u := ())).mpr ⟨hsock, rfl⟩), if_neg hb.reads, if_pos hb.command] at h
  obtain ⟨q, m₁, hq, hto, hcases⟩ := readBody_cut env .smpPayload smp_apart hb.holds
    hb.cut
  obtain ⟨e, recv, log, count, calls, lf, pf, hm₁⟩ := hto
  have hhanded : m₁.handed = m.handed := by rw [hm₁]
  have hstate : m₁.state = m.state := by rw [hm₁]
  have hcommand : m₁.inPacket.command = m.inPacket.command := by rw [hm₁]; rfl
  -- would block, a length that is too long, no memory for the payload, or a whole frame
  rcases hcases with ⟨rfl, herr, hsize, -, d, htook, hholds⟩ | ⟨rfl, hlong⟩ | ⟨rfl, -⟩ |
    ⟨rfl, herr, d, l, body, htook, hne, hsplit, hcomplete⟩
  · have hread : packetReadSmp env m = some (.ok (), m₁) := by
      unfold packetReadSmp readSmpFrame
      rw [bind_of_ok hq]
      rfl
    rw [bind_of_ok hread, bind_of_ok get_apply, if_pos herr] at h
    cases h
    exact .waits d htook hhanded hsize ⟨hholds, hcommand.trans hb.command, hstate ▸ hb.reads,
      htook.cut⟩
  · have hread : packetReadSmp env m = some (.error .protocol, m₁) := bind_of_error hq
    rw [bind_of_error hread] at h
    cases h
    refine .tooLong ?_ hhanded
    rw [Base128.nextFrame, hlong]
  · have hread : packetReadSmp env m = some (.error .nomem, m₁) := bind_of_error hq
    rw [bind_of_error hread] at h
    cases h
    exact .stopped (by decide) hhanded
  · have hread : packetReadSmp env m = processSmpFrame env m₁ := by
      unfold packetReadSmp readSmpFrame
      rw [bind_of_ok hq]
      rfl
    have hfront : Base128.nextFrame 4 (p ++ d) = .frame body [] := hsplit ▸ hcomplete.nextFrame
    -- the frame was handed on, whatever comes of it
    rcases bind_some.mp h with ⟨e, h₁, rfl⟩ | ⟨_, m₂, h₁, h⟩
    · rw [hread] at h₁
      obtain ⟨hhand, hrecv, -, -⟩ := processSmpFrame_frame h₁
      refine .frame d body (hrecv ▸ htook) hne hfront ?_ (by simp)
      rw [hhand, hcomplete.frame, hhanded]
    · rw [hread] at h₁
      obtain ⟨hhand, hrecv, herrno, hstate₂⟩ := processSmpFrame_frame h₁
      -- errno is zero since the last read, so this is not taken for a call that waits
      have hnot : ¬ m₂.errno = .again := by
        rw [herrno, herr]
        decide
      rw [bind_of_ok get_apply, if_neg hnot] at h
      rcases bind_some.mp h with ⟨e, h₂, rfl⟩ | ⟨_, m₃, h₂, h⟩
      -- `packet__cleanup` makes `in_packet` ready for the next frame
      · have hm := InMemory.decodeMqttPacket _ _ _ h₂
        refine .frame d body ((hm.recv.trans hrecv) ▸ htook) hne hfront ?_ (by simp)
        rw [hm.handed, hhand, hcomplete.frame, hhanded]
      · have hm := InMemory.decodeMqttPacket _ _ _ h₂
        have hdone := handlePacket_handles h
        have htook' : Took d m.recv m'.recv := (hdone.recv.trans (hm.recv.trans hrecv)) ▸ htook
        refine .frame d body htook' hne hfront ?_ fun _ => .cleaned hdone.inPacket ?_ htook'.cut
        · rw [hdone.handed, hm.handed, hhand, hcomplete.frame, hhanded]
        · rw [hdone.state]
          refine actsState_ne ?_ (by decide)
          rw [hm.state, hstate₂, hstate]
          exact hb.reads

/-! ## Repeated calls -/

/-- `n` calls of `packet__read`; a call that fails is the last one. -/
def readCalls (env : Setup σ) : Nat → Call (Mosq σ) MosqError Unit
  | 0 => return ()
  | n + 1 => do
    packetRead env
    readCalls env n

/-- Every frame that `n` calls hand on is processed successfully: a call returns,
    and if it fails then with a protocol error, and no frame was handed on. -/
def Undisturbed (env : Setup σ) : Nat → Mosq σ → Prop
  | 0, _ => True
  | n + 1, m => ∃ r m', packetRead env m = some (r, m') ∧
      (∀ e, r = .error e → e = .protocol ∧ m'.handed = m.handed) ∧
      (r = .ok () → Undisturbed env n m')

instance Undisturbed.decidable (env : Setup σ) :
    (n : Nat) → (m : Mosq σ) → Decidable (Undisturbed env n m)
  | 0, _ => isTrue trivial
  | n + 1, m =>
    match h : packetRead env m with
    | none => isFalse (by rintro ⟨r, m', h', -⟩; rw [h] at h'; cases h')
    | some (.error e, m') =>
      decidable_of_iff (e = .protocol ∧ m'.handed = m.handed) (by simp [Undisturbed, h])
    | some (.ok _, m') =>
      have := Undisturbed.decidable env n m'
      decidable_of_iff (Undisturbed env n m') (by simp [Undisturbed, h])

/-- Whatever happens, only frames of the stream are handed on, in their order. -/
theorem readCalls_prefix {n : Nat} {p : Bytes} {m m' : Mosq σ} {r : Except MosqError Unit}
    (hb : Between p m) (h : readCalls env n m = some (r, m')) :
    ∃ fs, m'.handed = m.handed ++ fs ∧
      fs <+: (Base128.frames 4 (p ++ received m.recv)).1 := by
  -- on the calls: `p` is what the calls before have read of the current frame
  induction n generalizing p m with
  | zero =>
    cases h
    exact ⟨[], (List.append_nil _).symm, List.nil_prefix⟩
  | succ n ih =>
    rcases bind_some.mp h with ⟨e, h₁, rfl⟩ | ⟨_, m₁, h₁, h⟩
    · cases packetRead_cut hb h₁ with
      | tooLong front handed => exact ⟨[], by rw [handed, List.append_nil], List.nil_prefix⟩
      | stopped other handed => exact ⟨[], by rw [handed, List.append_nil], List.nil_prefix⟩
      | frame d body took some front handed between =>
        have hframe := Base128.nextFrame_append front (received m'.recv)
        rw [List.append_assoc, ← took.received] at hframe
        exact ⟨[body], handed, by rw [Base128.frames_frame hframe]; simp⟩
    · cases packetRead_cut hb h₁ with
      | waits d took handed size between =>
        obtain ⟨fs, hfs, hpre⟩ := ih between h
        refine ⟨fs, by rw [hfs, handed], ?_⟩
        rwa [List.append_assoc, ← took.received] at hpre
      | frame d body took some front handed between =>
        have hframe := Base128.nextFrame_append front (received m₁.recv)
        rw [List.append_assoc, ← took.received] at hframe
        obtain ⟨fs, hfs, hpre⟩ := ih (between rfl) h
        refine ⟨body :: fs, by rw [hfs, handed]; simp, ?_⟩
        rw [Base128.frames_frame hframe]
        exact (List.prefix_cons_inj body).mpr hpre

/-- With every frame processed, enough calls hand on all of them, and fail exactly
    when a length is too long. -/
theorem readCalls_frames {n : Nat} {p : Bytes} {m : Mosq σ} (hb : Between p m)
    (hu : Undisturbed env n m) (hn : scriptSize m.recv ≤ n) :
    ∃ r m', readCalls env n m = some (r, m') ∧
      m'.handed = m.handed ++ (Base128.frames 4 (p ++ received m.recv)).1 ∧
      (r = .error .protocol ↔ (Base128.frames 4 (p ++ received m.recv)).2 = true) ∧
      (r = .ok () ↔ (Base128.frames 4 (p ++ received m.recv)).2 = false) := by
  -- every call takes something off the script, so `n` calls come to its end
  induction n generalizing p m with
  | zero =>
    refine ⟨.ok (), m, rfl, ?_⟩
    rw [received_nil hn, List.append_nil, Base128.frames_incomplete hb.holds.incomplete]
    simp
  | succ n ih =>
    obtain ⟨r, m₁, h₁, hfail, hok⟩ := hu
    cases packetRead_cut hb h₁ with
    | waits d took handed size between =>
      obtain ⟨r, m', h, hhanded, hcases⟩ := ih between (hok rfl) (by omega)
      rw [List.append_assoc, ← took.received] at hhanded hcases
      exact ⟨r, m', (bind_of_ok h₁).trans h, by rw [hhanded, handed], hcases⟩
    | tooLong front handed =>
      refine ⟨_, m₁, bind_of_error h₁, ?_⟩
      rw [Base128.frames_tooLong front, handed]
      simp
    | stopped other handed => exact absurd (hfail _ rfl).1 other
    | frame d body took some front handed between =>
      have hframe := Base128.nextFrame_append front (received m₁.recv)
      rw [List.append_assoc, ← took.received] at hframe
      cases r with
      | error e =>
        have := (hfail e rfl).2
        rw [handed] at this
        simp at this
      | ok u =>
        -- at least one byte was read, so the script is shorter
        have hsize := took.size
        have := List.length_pos_iff.mpr some
        obtain ⟨r, m', h, hhanded, hcases⟩ := ih (between rfl) (hok rfl) (by omega)
        refine ⟨r, m', (bind_of_ok h₁).trans h, ?_, ?_⟩
        · rw [hhanded, handed, Base128.frames_frame hframe]
          simp
        · rw [Base128.frames_frame hframe]
          exact hcases

/-! ## Framing a message -/

/-- The length of a message fits into four bytes exactly below `2 ^ 28`. -/
theorem encode_slots {n : Nat} : (Base128.encode 5 n).length ≠ 5 ↔ n < 2 ^ 28 := by
  constructor
  · intro h
    by_contra hn
    exact h (@Base128.encode_length_eq 4 n (by omega))
  · intro h
    exact Nat.ne_of_lt (@Base128.encode_length_lt 3 n (by omega))

theorem encode_fits {n : Nat} (h : n < 2 ^ 28) : Base128.encode 5 n = Base128.encode 4 n :=
  @Base128.encode_succ 3 n (by omega) 1

/-- `malloc` has a block for the frame of a message of this length, in the state in which
    the session has allocated the message itself. -/
def HasFrameBlock (env : Setup σ) (length : Nat) (m : Mosq σ) : Prop :=
  ∀ temp m₁, libraryBlock env .tempSmpMessage length m = some (.ok temp, m₁) →
    hasBlock env (length + (Base128.encode 4 length).length) m₁

/-- What `mosq_wclSmpGetMessage` makes of a message of the session. -/
theorem mosqWclSmpGetMessage_some {messageType : Nat} {packet message : Bytes} {m : Mosq σ} {s : σ}
    (hget : env.wclSmpGetMessage messageType packet m.session = some (.ok message, s)) :
    ∃ r m', mosqWclSmpGetMessage env messageType packet m = some (r, m') ∧
      ((∃ block, message.length < 2 ^ 28 ∧ HasFrameBlock env message.length m ∧
          r = .ok { block := block, data := Base128.encodeFrame 4 message }) ∨
        (r = .error .unknown ∧
          (2 ^ 28 ≤ message.length ∨ ¬ HasFrameBlock env message.length m))) := by
  have hsession : onSession (env.wclSmpGetMessage messageType packet) m =
      some (.ok message, { m with session := s }) := by
    unfold onSession
    rw [mapErr_ok, onPart_eq]
    exact ⟨s, hget, rfl⟩
  -- the block of the message is made first, in the state `HasFrameBlock` speaks of
  obtain ⟨temp, m₁, htemp, hgranted⟩ : ∃ temp m₁,
      libraryBlock env .tempSmpMessage message.length { m with session := s } =
        some (.ok temp, m₁) ∧
      (HasFrameBlock env message.length m ↔
        hasBlock env (message.length + (Base128.encode 4 message.length).length) m₁) := by
    refine ⟨_, _, rfl, ?_, ?_⟩
    · intro h
      have hblock := h _ _ rfl
      exact hblock
    · intro h temp m₂ hm₂
      cases hm₂
      exact h
  unfold mosqWclSmpGetMessage
  rw [bind_of_ok hsession, bind_of_ok htemp]
  by_cases hlen : message.length < 2 ^ 28
  · rw [bind_of_ok ((failIf_ok (u := ())).mpr ⟨encode_slots.mpr hlen, rfl⟩), encode_fits hlen]
    by_cases hblock : HasFrameBlock env message.length m
    · obtain ⟨usable, husable, hsize, hfits⟩ := hgranted.mp hblock
      rw [bind_of_ok (malloc_granted husable hsize hfits)]
      exact ⟨_, _, rfl, .inl ⟨_, hlen, hblock, rfl⟩⟩
    · rw [bind_of_ok (malloc_refused _ (mt hgranted.mpr hblock))]
      exact ⟨_, _, rfl, .inr ⟨rfl, .inr hblock⟩⟩
  -- a fifth length byte: the function gives up
  · have hfive : (Base128.encode 5 message.length).length = 5 := by
      by_contra h
      exact hlen (encode_slots.mp h)
    rw [bind_of_error (failIf_error.mpr ⟨hfive, rfl, rfl⟩)]
    exact ⟨_, _, rfl, .inr ⟨rfl, .inl (by omega)⟩⟩

/-- A message of the session, and what `mosq_wclSmpGetMessage` made of it. -/
def FramedAs (env : Setup σ) (message framed : Bytes) : Prop :=
  ∃ messageType packet block s, ∃ m m' : Mosq σ,
    env.wclSmpGetMessage messageType packet m.session = some (.ok message, s) ∧
      mosqWclSmpGetMessage env messageType packet m =
        some (.ok { block := block, data := framed }, m')

theorem FramedAs.eq {message framed : Bytes} (h : FramedAs env message framed) :
    message.length < 128 ^ 4 ∧ framed = Base128.encodeFrame 4 message := by
  obtain ⟨messageType, packet, block, s, m, m', hget, hframe⟩ := h
  obtain ⟨r, m'', hr, hcases⟩ := mosqWclSmpGetMessage_some hget
  rw [hframe] at hr
  rcases hcases with ⟨block', hlen, -, rfl⟩ | ⟨rfl, -⟩
  · simp only [Option.some.injEq, Prod.mk.injEq, Except.ok.injEq, Buffer.mk.injEq] at hr
    exact ⟨hlen, hr.1.2⟩
  · simp at hr

theorem framed_flatten {messages framed : List Bytes}
    (h : List.Forall₂ (FramedAs env) messages framed) :
    framed.flatten = messages.flatMap (Base128.encodeFrame 4) ∧
      ∀ message ∈ messages, message.length < 128 ^ 4 := by
  induction h with
  | nil => simp
  | cons hframe _ ih =>
    obtain ⟨hlen, rfl⟩ := hframe.eq
    refine ⟨by rw [List.flatten_cons, List.flatMap_cons, ih.1], fun message hm => ?_⟩
    rcases List.mem_cons.mp hm with rfl | hm
    · exact hlen
    · exact ih.2 message hm

/-- Incremental framing is one-shot framing: however the stream is cut, the frames
    handed to `wclSmpProcessMessage` are those of the whole stream, up to a length
    that is too long; framed messages are the frames of their stream; and a message
    below `2 ^ 28` is framed exactly if there is memory for its frame. -/
theorem incremental_framing (env : Setup σ) :
    (∀ m : Mosq σ, Between [] m → ∀ n,
      (∀ r m', readCalls env n m = some (r, m') → ∃ fs, m'.handed = m.handed ++ fs ∧
        fs <+: (Base128.frames 4 (received m.recv)).1) ∧
      (Undisturbed env n m → scriptSize m.recv ≤ n →
        ∃ r m', readCalls env n m = some (r, m') ∧
          m'.handed = m.handed ++ (Base128.frames 4 (received m.recv)).1 ∧
          (r = .error .protocol ↔ (Base128.frames 4 (received m.recv)).2 = true) ∧
          (r = .ok () ↔ (Base128.frames 4 (received m.recv)).2 = false))) ∧
    (∀ messages framed, List.Forall₂ (FramedAs env) messages framed →
      Base128.frames 4 framed.flatten = (messages, false)) ∧
    (∀ messageType packet message s, ∀ m : Mosq σ,
      env.wclSmpGetMessage messageType packet m.session = some (.ok message, s) →
      message.length < 2 ^ 28 →
      ((∃ block m', mosqWclSmpGetMessage env messageType packet m =
          some (.ok { block := block, data := Base128.encodeFrame 4 message }, m')) ↔
        HasFrameBlock env message.length m)) := by
  refine ⟨fun m hb n => ⟨fun r m' h => ?_, fun hu hn => ?_⟩, fun messages framed h => ?_, ?_⟩
  · exact readCalls_prefix hb h
  · exact readCalls_frames hb hu hn
  · obtain ⟨hflat, hlen⟩ := framed_flatten h
    rw [hflat, Base128.frames_encodeFrame (by decide) hlen]
  · intro messageType packet message s m hget hlen
    obtain ⟨r, m', hr, hcases⟩ := mosqWclSmpGetMessage_some hget
    rw [hr]
    rcases hcases with ⟨block, -, hblock, rfl⟩ | ⟨rfl, hlong | hnone⟩
    · exact iff_of_true ⟨block, m', rfl⟩ hblock
    · omega
    · refine iff_of_false ?_ hnone
      rintro ⟨block, m₁, h⟩
      cases h

/-! ## A run -/

/-- A client that receives PINGRESP in every message, sends its packets as they are, and
    has as much memory as it wants. -/
def pingSetup : Setup Unit where
  role := .client
  wclSmpProcessMessage _ s := some (.ok [PINGRESP, 0], s)
  wclSmpGetMessage _ packet s := some (.ok packet, s)
  handlePacket _ _ _ := ([], .ok ())
  malloc _ size := some size
  memLimit := 0
  beyondPacket := none

/-- A connected client that is to receive what the script says. -/
def freshMosq (session : σ) (state : MosqState) (recv : List Recv) : Mosq σ where
  sock := true
  state := state
  bridge := false
  session := session
  inPacket := zeroPacket.cleaned
  currentOutPacket := none
  outPacket := []
  inCallback := false
  threaded := false
  errno := .zero
  memcount := 0
  heap := []
  recv := recv
  send := []
  mallocs := 0
  handed := []
  handled := []
  wire := []

/-- Two frames in three pieces. -/
def cutScript : List Recv :=
  [.data 3 [1], .wouldBlock, .data 2 [3, 1], .wouldBlock, .data 4 []]

theorem pingSetup_hasFrameBlock {length : Nat} (h : length < 2 ^ 28) :
    HasFrameBlock pingSetup length (freshMosq () .connected []) := by
  intro temp m₁ hm₁
  cases hm₁
  have hbytes : (Base128.encode 4 length).length ≤ 4 := Base128.encode_length_le 4 _
  refine ⟨_, rfl, Nat.le_refl _, ?_⟩
  rw [HeapLog.liveSize_alloc]
  show 0 + length + (length + (Base128.encode 4 length).length) < 2 ^ 64
  omega

/-- Two messages are framed, and their frames are received in three pieces. -/
theorem incremental_framing_cut :
    ∃ framed₁ framed₂ : Buffer, ∃ m₁ m₂,
      mosqWclSmpGetMessage pingSetup 13 [1, 2, 3] (freshMosq () .connected []) =
        some (.ok framed₁, m₁) ∧
      mosqWclSmpGetMessage pingSetup 13 [4] (freshMosq () .connected []) =
        some (.ok framed₂, m₂) ∧
      received cutScript = framed₁.data ++ framed₂.data ∧
      ∃ r m', readCalls pingSetup 11 (freshMosq () .connected cutScript) = some (r, m') ∧
        m'.handed = [[1, 2, 3], [4]] ∧ r = .ok () := by
  obtain ⟨hdecode, hframes, hencode⟩ := incremental_framing pingSetup
  obtain ⟨block₁, m₁, h₁⟩ := (hencode 13 [1, 2, 3] [1, 2, 3] () (freshMosq () .connected []) rfl
    (by decide)).mpr (pingSetup_hasFrameBlock (by decide))
  obtain ⟨block₂, m₂, h₂⟩ := (hencode 13 [4] [4] () (freshMosq () .connected []) rfl
    (by decide)).mpr (pingSetup_hasFrameBlock (by decide))
  have hstream : received cutScript =
      Base128.encodeFrame 4 [1, 2, 3] ++ Base128.encodeFrame 4 [4] := by decide
  refine ⟨_, _, m₁, m₂, h₁, h₂, hstream, ?_⟩
  -- the stream is the frames of two messages
  have hframed := hframes [[1, 2, 3], [4]]
    [Base128.encodeFrame 4 [1, 2, 3], Base128.encodeFrame 4 [4]]
    (.cons ⟨13, _, block₁, (), _, m₁, rfl, h₁⟩ (.cons ⟨13, _, block₂, (), _, m₂, rfl, h₂⟩ .nil))
  rw [List.flatten_cons, List.flatten_cons, List.flatten_nil, List.append_nil, ← hstream] at hframed
  have hcut : IsCut cutScript := by
    intro x hx
    simp only [cutScript, List.mem_cons, List.not_mem_nil, or_false] at hx
    rcases hx with rfl | rfl | rfl | rfl | rfl <;> simp
  have hb : Between [] (freshMosq () .connected cutScript) := .cleaned rfl (by decide) hcut
  have hu : Undisturbed pingSetup 11 (freshMosq () .connected cutScript) := by decide +kernel
  obtain ⟨r, m', h, hhanded, -, hok⟩ := (hdecode _ hb 11).2 hu (by decide)
  rw [show (freshMosq () .connected cutScript).recv = cutScript from rfl, hframed] at hhanded hok
  exact ⟨r, m', h, hhanded, hok.mpr rfl⟩

end WeeveMQ
