/-
  WeeveMQ.PacketReadSpec

  Reading from a socket that is neither closed nor broken.

  The script of such a socket is a stream cut into chunks, with would-block
  results anywhere between them.  Every read loop is described by the bytes it
  has consumed: what the fields hold is a function of them, so a loop that stops
  for lack of input can be picked up where it stopped.
-/

import WeeveMQ.PacketFrames

namespace WeeveMQ

open Call

variable {σ : Type}

/-! ## Scripts -/

/-- The bytes of one result. -/
def Recv.bytes : Recv → Bytes
  | .data first rest => first :: rest
  | _ => []

/-- The bytes a script delivers. -/
def received (script : List Recv) : Bytes := script.flatMap Recv.bytes

/-- A bound on the reads that use a script up. -/
def scriptSize (script : List Recv) : Nat := (script.map fun r => r.bytes.length + 1).sum

/-- Nothing is left of a script that is used up. -/
theorem received_nil {script : List Recv} (h : scriptSize script ≤ 0) : received script = [] := by
  cases script with
  | nil => rfl
  | cons x script =>
    rw [scriptSize, List.map_cons, List.sum_cons] at h
    omega

/-- A stream in chunks: no end and no failure. -/
def IsCut (script : List Recv) : Prop :=
  ∀ r ∈ script, r = .wouldBlock ∨ ∃ first rest, r = .data first rest

/-- The bytes `d` were taken off the front of a script. -/
structure Took (d : Bytes) (script rest : List Recv) : Prop where
  received : received script = d ++ received rest
  cut : IsCut rest
  size : scriptSize rest + d.length ≤ scriptSize script

theorem Took.trans {d e : Bytes} {s t u : List Recv} (h : Took d s t) (h' : Took e t u) :
    Took (d ++ e) s u := by
  refine ⟨?_, h'.cut, ?_⟩
  · rw [h.received, h'.received, List.append_assoc]
  · have := h.size
    have := h'.size
    rw [List.length_append]
    omega

theorem netRead_cut {m : Mosq σ} {count : Nat} (hcut : IsCut m.recv) (hcount : 0 < count) :
    (∃ rest, netRead count m = some (.ok none, { m with errno := .again, recv := rest }) ∧
      Took [] m.recv rest ∧ scriptSize rest ≤ scriptSize m.recv - 1) ∨
    (∃ b bs rest, netRead count m =
        some (.ok (some (b :: bs)), { m with errno := .zero, recv := rest }) ∧
      (b :: bs).length ≤ count ∧ Took (b :: bs) m.recv rest) := by
  unfold netRead
  cases hrecv : m.recv with
  | nil =>
    refine .inl ⟨[], ?_, ⟨rfl, by simp [IsCut], Nat.le_refl _⟩, Nat.zero_le _⟩
    cases m
    simp_all
  | cons r script =>
    have hscript : IsCut script := fun x hx => hcut x (hrecv ▸ List.mem_cons_of_mem _ hx)
    rcases hcut r (hrecv ▸ List.mem_cons_self ..) with rfl | ⟨first, rest, rfl⟩
    · exact .inl ⟨script, rfl, ⟨rfl, hscript, by simp [scriptSize, Recv.bytes]⟩,
        by simp [scriptSize, Recv.bytes]⟩
    · obtain ⟨n, rfl⟩ : ∃ n, count = n + 1 := ⟨count - 1, by omega⟩
      refine .inr ⟨first, rest.take n, _, rfl, ?_, ?_⟩
      · simp
      · have hsplit : rest = rest.take n ++ rest.drop n := (List.take_append_drop n rest).symm
        have hlen := congrArg List.length hsplit
        rw [List.drop_succ_cons]
        cases hdrop : rest.drop n with
        | nil =>
          rw [hdrop, List.append_nil] at hsplit
          refine ⟨?_, hscript, ?_⟩
          · simp [received, Recv.bytes, ← hsplit]
          · simp [scriptSize, Recv.bytes, ← hsplit]
            omega
        | cons b bs =>
          rw [hdrop] at hsplit hlen
          refine ⟨?_, ?_, ?_⟩
          · have : rest ++ received script = rest.take n ++ (b :: bs ++ received script) := by
              rw [← List.append_assoc, ← hsplit]
            simpa [received, Recv.bytes] using this
          · intro x hx
            rcases List.mem_cons.mp hx with rfl | hx
            · exact .inr ⟨b, bs, rfl⟩
            · exact hscript x hx
          · simp only [List.length_append, List.length_cons] at hlen
            simp only [scriptSize, List.map_cons, List.sum_cons, Recv.bytes, List.length_cons]
            omega

theorem comeBackLater_again {m : Mosq σ} (h : m.errno = .again) :
    comeBackLater m = some (.ok (), m) := by
  unfold comeBackLater
  rw [bind_of_ok get_apply, h]
  rfl

/-! ## The remaining length -/

/-- The fields once the bytes `p` are read, all of which continue. -/
def lengthRead (p : Bytes) : LengthFields where
  mult := 128 ^ p.length
  length := Base128.value p
  count := -(p.length : Int)

theorem modifyPart_apply {τ : Type} {part : PacketPart τ} {f : τ → τ} {m : Mosq σ} :
    modifyPart part f m = some (.ok (), { m with
      inPacket := part.set (f (part.get m.inPacket)) m.inPacket }) := rfl

variable {part : PacketPart LengthFields} {m : Mosq σ} {p : Bytes}

theorem takeLengthByte_ok (b : UInt8) (h : part.get m.inPacket = lengthRead p)
    (hp : p.length < 4) :
    takeLengthByte part b m = some (.ok (), { m with
      inPacket := part.set (lengthRead (p ++ [b])) m.inPacket }) := by
  have hvalue : Base128.value (p ++ [b]) < 2 ^ 32 :=
    calc Base128.value (p ++ [b]) < 128 ^ (p ++ [b]).length := Base128.value_lt _
      _ ≤ 128 ^ 4 := Nat.pow_le_pow_right (by omega) (by simp; omega)
      _ < 2 ^ 32 := by decide
  have hmult : 128 ^ p.length * 128 < 2 ^ 32 :=
    calc 128 ^ p.length * 128 = 128 ^ (p.length + 1) := (pow_succ ..).symm
      _ ≤ 128 ^ 4 := Nat.pow_le_pow_right (by omega) (by omega)
      _ < 2 ^ 32 := by decide
  have hfields : lengthRead (p ++ [b]) = {
      length := (Base128.value p + (b &&& 127).toNat * 128 ^ p.length) % 2 ^ 32
      mult := 128 ^ p.length * 128 % 2 ^ 32
      count := -(p.length : Int) - 1 } := by
    rw [Base128.value_append] at hvalue
    simp only [Base128.value, Base128.digit, Nat.mul_zero, Nat.add_zero] at hvalue
    rw [Nat.mul_comm _ (128 ^ p.length), Nat.mod_eq_of_lt hvalue, Nat.mod_eq_of_lt hmult]
    simp only [lengthRead, Base128.value_append, Base128.value, Base128.digit, List.length_append,
      List.length_singleton, Nat.mul_zero, Nat.add_zero, pow_succ, LengthFields.mk.injEq, true_and]
    omega
  have hcount : ¬ (part.get (part.set { part.get m.inPacket with
      count := (part.get m.inPacket).count - 1 } m.inPacket)).count < -4 := by
    rw [part.get_set, h]
    simp only [lengthRead]
    omega
  unfold takeLengthByte
  rw [bind_of_ok modifyPart_apply, bind_of_ok get_apply,
    bind_of_ok ((failIf_ok (u := ())).mpr ⟨hcount, rfl⟩),
    modifyPart_apply]
  simp only [part.get_set, part.set_set]
  rw [h, hfields]
  rfl

theorem takeLengthByte_tooLong (b : UInt8) (h : part.get m.inPacket = lengthRead p)
    (hp : p.length = 4) :
    ∃ lf, takeLengthByte part b m =
      some (.error .protocol, { m with inPacket := part.set lf m.inPacket }) := by
  have hcount : (part.get (part.set { part.get m.inPacket with
      count := (part.get m.inPacket).count - 1 } m.inPacket)).count < -4 := by
    rw [part.get_set, h]
    simp only [lengthRead]
    omega
  refine ⟨{ part.get m.inPacket with count := (part.get m.inPacket).count - 1 }, ?_⟩
  unfold takeLengthByte
  rw [bind_of_ok modifyPart_apply, bind_of_ok get_apply]
  exact bind_of_error (failIf_error.mpr ⟨hcount, rfl, rfl⟩)

/-- The ways in which reading a remaining length ends.  The bytes `p` were read
    before. -/
theorem readLength_cut (fuel : Nat) (h : part.get m.inPacket = lengthRead p)
    (hp : ∀ b ∈ p, Base128.continues b = true) (hlen : p.length ≤ 4) (hfuel : 5 ≤ fuel + p.length)
    (hcut : IsCut m.recv) :
    (∃ d rest, readLength part fuel m = some (.ok false, { m with
        errno := .again
        recv := rest
        inPacket := part.set (lengthRead (p ++ d)) m.inPacket }) ∧
      Took d m.recv rest ∧ scriptSize rest ≤ scriptSize m.recv - 1 ∧
      (∀ b ∈ p ++ d, Base128.continues b = true) ∧ (p ++ d).length ≤ 4) ∨
    (∃ rest lf, readLength part fuel m = some (.error .protocol, { m with
        errno := .zero
        recv := rest
        inPacket := part.set lf m.inPacket }) ∧
      Base128.decode 4 (p ++ received m.recv) = .tooLong) ∨
    (∃ d rest, readLength part fuel m = some (.ok true, { m with
        errno := .zero
        recv := rest
        inPacket := part.set (lengthRead (p ++ d)) m.inPacket }) ∧
      Took d m.recv rest ∧ d ≠ [] ∧
      Base128.decode 4 (p ++ d) = .number (Base128.value (p ++ d)) []) := by
  -- induction on the rounds: the bytes read so far all continue, so at most five are
  -- needed
  induction fuel generalizing m p with
  | zero => omega
  | succ fuel ih =>
    rw [readLength]
    rcases netRead_cut hcut Nat.zero_lt_one with ⟨rest, hread, htook, hsize⟩ |
      ⟨b, bs, rest, hread, hone, htook⟩
    · -- nothing there: come back with the bytes read so far
      refine .inl ⟨[], rest, ?_, htook, hsize, by simpa using hp, by simpa using hlen⟩
      rw [bind_of_ok hread]
      dsimp only
      rw [bind_of_ok (comeBackLater_again rfl), pure_apply, List.append_nil, ← h, part.set_get]
    · obtain rfl : bs = [] := List.length_eq_zero_iff.mp (by simpa using hone)
      rw [bind_of_ok hread]
      dsimp only
      have hget : part.get { m with errno := .zero, recv := rest }.inPacket = lengthRead p := h
      by_cases hfour : p.length = 4
      · -- a fifth byte
        obtain ⟨lf, hlf⟩ := takeLengthByte_tooLong b hget hfour
        refine .inr (.inl ⟨rest, lf, bind_of_error hlf, ?_⟩)
        have := Base128.decode_append hp 0 (b :: received rest)
        rw [hfour, Nat.add_zero, Base128.decode, Base128.Decoded.extend_tooLong] at this
        rwa [htook.received]
      · rw [bind_of_ok (takeLengthByte_ok b hget (by omega))]
        by_cases hb : Base128.continues b = true
        -- another byte follows: the rest is read with `p ++ [b]` behind it
        · have hne : b &&& 128 ≠ 0 := by simpa [Base128.continues] using hb
          rw [if_pos hne]
          have hp' : ∀ c ∈ p ++ [b], Base128.continues c = true := by
            intro c hc
            rcases List.mem_append.mp hc with hc | hc
            · exact hp c hc
            · exact (List.mem_singleton.mp hc) ▸ hb
          have hlen' : (p ++ [b]).length ≤ 4 := by
            rw [List.length_append, List.length_singleton]
            omega
          have hfuel' : 5 ≤ fuel + (p ++ [b]).length := by
            rw [List.length_append, List.length_singleton]
            omega
          rcases ih (m := { m with
                errno := .zero
                recv := rest
                inPacket := part.set (lengthRead (p ++ [b])) m.inPacket })
              (part.get_set ..) hp' hlen' hfuel' htook.cut with
            ⟨d, rest', hr, ht, hs, hc, hl⟩ | ⟨rest', lf, hr, hd⟩ | ⟨d, rest', hr, ht, -, hd⟩
          · refine .inl ⟨b :: d, rest', ?_, htook.trans ht, ?_, by simpa using hc,
              by simpa using hl⟩
            · rw [hr]
              simp only [part.set_set, List.append_assoc, List.singleton_append]
            · have := htook.size
              simp only [List.length_singleton] at this
              dsimp only at hs
              omega
          · refine .inr (.inl ⟨rest', lf, ?_, ?_⟩)
            · rw [hr]
              simp only [part.set_set]
            · rw [htook.received]
              simpa using hd
          · refine .inr (.inr ⟨b :: d, rest', ?_, htook.trans ht, by simp, by simpa using hd⟩)
            rw [hr]
            simp only [part.set_set, List.append_assoc, List.singleton_append]
        · -- the last byte
          have heq : ¬ b &&& 128 ≠ 0 := by simpa [Base128.continues] using hb
          refine .inr (.inr ⟨[b], rest, ?_, htook, by simp, ?_⟩)
          · rw [if_neg heq]
            rfl
          · have := Base128.decode_last hp (by simpa using hb) (3 - p.length) []
            rwa [show p.length + (3 - p.length + 1) = 4 by omega] at this

/-! ## The payload -/

/-- The fields once the bytes `body` of a payload of `n` bytes are read. -/
def payloadRead (block : Block) (body : Bytes) (n : Nat) : PayloadFields where
  payload := some { block := block, data := body }
  toProcess := n - body.length
  pos := body.length

theorem payloadRead_append (block : Block) (body d : Bytes) (n : Nat) :
    payloadRead block (body ++ d) n = {
      payload := some { block := block, data := body ++ d }
      toProcess := n - body.length - d.length
      pos := body.length + d.length } := by
  rw [payloadRead, List.length_append, Nat.sub_add_eq]

/-- The ways in which reading a payload ends.  The bytes `body` were read before. -/
theorem readPayload_cut {part : PacketPart PayloadFields} {m : Mosq σ} (fuel : Nat) {block : Block}
    {body : Bytes} {n : Nat} (h : part.get m.inPacket = payloadRead block body n)
    (hle : body.length ≤ n) (hfuel : n ≤ fuel + body.length) (hcut : IsCut m.recv) :
    (∃ d rest log, readPayload part fuel m = some (.ok false, { m with
        errno := .again
        recv := rest
        heap := log
        inPacket := part.set (payloadRead block (body ++ d) n) m.inPacket }) ∧
      Took d m.recv rest ∧ scriptSize rest ≤ scriptSize m.recv - 1 ∧ (body ++ d).length < n) ∨
    (∃ d rest log e, readPayload part fuel m = some (.ok true, { m with
        errno := e
        recv := rest
        heap := log
        inPacket := part.set (payloadRead block (body ++ d) n) m.inPacket }) ∧
      Took d m.recv rest ∧ (body ++ d).length = n ∧ e = if d = [] then m.errno else .zero) := by
  -- every round that gets bytes brings at least one, so `n` rounds are enough
  induction fuel generalizing m body with
  | zero =>
    refine .inr ⟨[], m.recv, m.heap, m.errno, ?_, ⟨rfl, hcut, Nat.le_refl _⟩, ?_, by simp⟩
    · rw [readPayload, pure_apply, List.append_nil, ← h, part.set_get]
    · rw [List.append_nil]
      omega
  | succ fuel ih =>
    rw [readPayload, bind_of_ok get_apply]
    have hfields : (part.get m.inPacket).toProcess = n - body.length := by rw [h, payloadRead]
    by_cases hzero : (part.get m.inPacket).toProcess = 0
    -- nothing left to read: `net__read` is not called, and errno stays
    · refine .inr ⟨[], m.recv, m.heap, m.errno, ?_, ⟨rfl, hcut, Nat.le_refl _⟩, ?_, by simp⟩
      · rw [if_pos hzero, pure_apply, List.append_nil, ← h, part.set_get]
      · rw [List.append_nil]
        omega
    · have hpos : 0 < (part.get m.inPacket).toProcess := Nat.pos_of_ne_zero hzero
      have htouch : touch (part.get m.inPacket).payload m =
          some (.ok (), { m with heap := .use block :: m.heap }) := by
        rw [h]
        rfl
      rw [if_neg hzero, bind_of_ok htouch]
      rcases netRead_cut (m := { m with heap := .use block :: m.heap }) hcut hpos with
        ⟨rest, hread, htook, hsize⟩ | ⟨b, bs, rest, hread, hone, htook⟩
      -- nothing there: come back with the bytes read so far
      · refine .inl ⟨[], rest, .use block :: m.heap, ?_, htook, hsize, ?_⟩
        · rw [bind_of_ok hread]
          dsimp only
          rw [bind_of_ok (comeBackLater_again rfl), pure_apply, List.append_nil, ← h, part.set_get]
        · rw [List.append_nil]
          omega
      -- some bytes came: they stand behind the ones in the buffer, and reading goes on
      · let write : Buffer → Buffer := fun p => { p with data := p.data ++ b :: bs }
        have hset : part.set {
              payload := (part.get m.inPacket).payload.map write
              toProcess := (part.get m.inPacket).toProcess - (b :: bs).length
              pos := (part.get m.inPacket).pos + (b :: bs).length } m.inPacket =
            part.set (payloadRead block (body ++ b :: bs) n) m.inPacket := by
          rw [payloadRead_append, h]
          rfl
        have hlen : (body ++ b :: bs).length = body.length + (b :: bs).length := List.length_append
        rw [bind_of_ok hread]
        dsimp only
        rw [bind_of_ok modifyPart_apply, hset]
        rcases ih (m := { m with
              errno := .zero
              recv := rest
              heap := .use block :: m.heap
              inPacket := part.set (payloadRead block (body ++ b :: bs) n) m.inPacket })
            (part.get_set ..) (by omega) (by simp only [List.length_cons] at hlen; omega) htook.cut
            with ⟨d, rest', log, hr, ht, hs, hl⟩ | ⟨d, rest', log, e, hr, ht, hl, he⟩
        · refine .inl ⟨b :: bs ++ d, rest', log, ?_, htook.trans ht, ?_,
            by simpa only [List.append_assoc] using hl⟩
          · rw [hr]
            simp only [part.set_set, List.append_assoc]
          · have := htook.size
            simp only [List.length_cons] at this
            dsimp only at hs this
            omega
        · refine .inr ⟨b :: bs ++ d, rest', log, e, ?_, htook.trans ht,
            by simpa only [List.append_assoc] using hl, ?_⟩
          · rw [hr]
            simp only [part.set_set, List.append_assoc]
          · have hne : b :: bs ++ d ≠ [] := by simp
            rw [if_neg hne, he]
            split <;> rfl

/-! ## The whole of a frame -/

/-- Two parts of a packet that have no field in common. -/
structure PacketPart.Apart {τ υ : Type} (part : PacketPart τ) (part' : PacketPart υ) : Prop where
  get_set : ∀ t q, part'.get (part.set t q) = part'.get q
  get_set' : ∀ t q, part.get (part'.set t q) = part.get q
  comm : ∀ t u q, part.set t (part'.set u q) = part'.set u (part.set t q)

theorem smp_apart : smpLength.Apart smpPayload :=
  ⟨fun _ _ => rfl, fun _ _ => rfl, fun _ _ _ => rfl⟩

theorem mqtt_apart : mqttLength.Apart mqttPayload :=
  ⟨fun _ _ => rfl, fun _ _ => rfl, fun _ _ _ => rfl⟩

/-- The fields once the whole length `l` is read. -/
def lengthDone (l : Bytes) : LengthFields where
  mult := 128 ^ l.length
  length := Base128.value l
  count := l.length

/-- The bytes of a length, complete. -/
def IsLength (l : Bytes) : Prop := Base128.decode 4 l = .number (Base128.value l) []

theorem IsLength.ne_nil {l : Bytes} (h : IsLength l) : l ≠ [] := by
  rintro rfl
  simp [IsLength, Base128.decode] at h

theorem IsLength.count_pos {l : Bytes} (h : IsLength l) : 0 < (lengthDone l).count := by
  have := List.length_pos_iff.mpr h.ne_nil
  show (0 : Int) < l.length
  omega

/-- A packet of which the bytes `p` are read, and more are to come. -/
inductive Holds (length : PacketPart LengthFields) (payload : PacketPart PayloadFields)
    (q : Packet) : Bytes → Prop
  | inLength {p : Bytes} (fields : length.get q = lengthRead p)
      (nothing : (payload.get q).toProcess = 0) (start : (payload.get q).pos = 0)
      (continues : ∀ b ∈ p, Base128.continues b = true) (short : p.length ≤ 4) :
      Holds length payload q p
  | inPayload {l body : Bytes} (block : Block) (isLength : IsLength l)
      (more : body.length < Base128.value l) (fields : length.get q = lengthDone l)
      (part : payload.get q = payloadRead block body (Base128.value l)) :
      Holds length payload q (l ++ body)

/-- A packet that is read to its end, as it was before (`q`) and after (`q'`). -/
structure Complete (length : PacketPart LengthFields) (payload : PacketPart PayloadFields)
    (l body : Bytes) (q q' : Packet) : Prop where
  isLength : IsLength l
  size : body.length = Base128.value l
  fields : length.get q' = lengthDone l
  part : body ≠ [] → ∃ block, payload.get q' = payloadRead block body body.length
  empty : body = [] → payload.get q' = payload.get q ∧ (payload.get q).toProcess = 0 ∧
    (payload.get q).pos = 0

/-- Reading changes nothing else of a client, and nothing else of its packet. -/
def ReadsTo (length : PacketPart LengthFields) (payload : PacketPart PayloadFields)
    (m m' : Mosq σ) : Prop :=
  ∃ errno recv heap memcount mallocs lf pf, m' = { m with
    errno := errno
    recv := recv
    heap := heap
    memcount := memcount
    mallocs := mallocs
    inPacket := payload.set pf (length.set lf m.inPacket) }

section Body

variable {length : PacketPart LengthFields} {payload : PacketPart PayloadFields}

theorem ReadsTo.trans {m m' m'' : Mosq σ} (hapart : length.Apart payload)
    (h : ReadsTo length payload m m') (h' : ReadsTo length payload m' m'') :
    ReadsTo length payload m m'' := by
  obtain ⟨_, _, _, _, _, lf, pf, rfl⟩ := h
  obtain ⟨e, r, log, count, calls, lf', pf', rfl⟩ := h'
  refine ⟨e, r, log, count, calls, lf', pf', ?_⟩
  simp only [hapart.comm, length.set_set, payload.set_set]

/-- Reading that changes nothing of the packet. -/
theorem ReadsTo.ofWorld {m : Mosq σ} (e : Errno) (recv : List Recv) (log : HeapLog BlockKind)
    (count calls : Nat) :
    ReadsTo length payload m { m with
      errno := e
      recv := recv
      heap := log
      memcount := count
      mallocs := calls } :=
  ⟨e, recv, log, count, calls, length.get m.inPacket, payload.get m.inPacket, by
    rw [length.set_get, payload.set_get]⟩

/-- Reading that stays within the length. -/
theorem ReadsTo.ofLength {m : Mosq σ} (e : Errno) (recv : List Recv) (lf : LengthFields) :
    ReadsTo length payload m { m with
      errno := e
      recv := recv
      inPacket := length.set lf m.inPacket } :=
  ⟨e, recv, m.heap, m.memcount, m.mallocs, lf, payload.get (length.set lf m.inPacket), by
    rw [payload.set_get]⟩

/-- Reading that stays within the payload. -/
theorem ReadsTo.ofPayload {m : Mosq σ} (e : Errno) (recv : List Recv) (log : HeapLog BlockKind)
    (pf : PayloadFields) :
    ReadsTo length payload m { m with
      errno := e
      recv := recv
      heap := log
      inPacket := payload.set pf m.inPacket } :=
  ⟨e, recv, log, m.memcount, m.mallocs, length.get m.inPacket, pf, by rw [length.set_get]⟩

/-- No block was made or released. -/
structure SameMemory (m m' : Mosq σ) : Prop where
  mallocs : m'.mallocs = m.mallocs
  memcount : m'.memcount = m.memcount
  heap : m'.heap = m.heap

theorem SameMemory.trans {m m' m'' : Mosq σ} (h : SameMemory m m') (h' : SameMemory m' m'') :
    SameMemory m m'' :=
  ⟨h'.mallocs.trans h.mallocs, h'.memcount.trans h.memcount, h'.heap.trans h.heap⟩

theorem SameMemory.grants_iff {m m' : Mosq σ} {size : Nat} (h : SameMemory m m') :
    grants env size m' ↔ grants env size m :=
  grants_congr h.mallocs h.memcount (congrArg HeapLog.live h.heap)

/-- There is no memory for as many bytes as these announce. -/
def Refused (env : Setup σ) (m : Mosq σ) (bytes : Bytes) : Prop :=
  ∃ n rest, Base128.decode 4 bytes = .number n rest ∧ 0 < n ∧ ¬ grants env n m

/-- The buffer of a payload of `n` bytes is there, if there is any payload. -/
def Prepared (payload : PacketPart PayloadFields) (n : Nat) (q q' : Packet) : Prop :=
  n = 0 ∧ payload.get q' = payload.get q ∨ 0 < n ∧ ∃ block, payload.get q' = payloadRead block [] n

theorem readHeader_cut (env : Setup σ) (purpose : Purpose) (hapart : length.Apart payload)
    {m : Mosq σ} {p : Bytes}
    (hfields : length.get m.inPacket = lengthRead p) (hstart : (payload.get m.inPacket).pos = 0)
    (hp : ∀ b ∈ p, Base128.continues b = true) (hlen : p.length ≤ 4) (hcut : IsCut m.recv) :
    ∃ r m', readHeader env length payload purpose m = some (r, m') ∧
      ReadsTo length payload m m' ∧
      ((r = .ok false ∧ m'.errno = .again ∧ scriptSize m'.recv ≤ scriptSize m.recv - 1 ∧
          SameMemory m m' ∧
          ∃ d, Took d m.recv m'.recv ∧ length.get m'.inPacket = lengthRead (p ++ d) ∧
            payload.get m'.inPacket = payload.get m.inPacket ∧
            (∀ b ∈ p ++ d, Base128.continues b = true) ∧ (p ++ d).length ≤ 4) ∨
        (r = .error .protocol ∧ Base128.decode 4 (p ++ received m.recv) = .tooLong) ∨
        (r = .error .nomem ∧ Refused env m (p ++ received m.recv)) ∨
        (r = .ok true ∧ m'.errno = .zero ∧ ∃ d, Took d m.recv m'.recv ∧ d ≠ [] ∧
          IsLength (p ++ d) ∧ length.get m'.inPacket = lengthDone (p ++ d) ∧
          Prepared payload (Base128.value (p ++ d)) m.inPacket m'.inPacket)) := by
  -- as long as the length is incomplete its count is not positive, so it is read on
  have hcount : (length.get m.inPacket).count ≤ 0 := by
    rw [hfields, lengthRead]
    dsimp only
    omega
  unfold readHeader
  rw [bind_of_ok get_apply, if_pos hcount]
  rcases readLength_cut 5 hfields hp hlen (by omega) hcut with
    ⟨d, rest, hr, ht, hs, hc, hl⟩ | ⟨rest, lf, hr, hd⟩ | ⟨d, rest, hr, ht, hne, hd⟩
  · refine ⟨.ok false, _, bind_of_ok hr, .ofLength .again rest _, .inl ⟨rfl, rfl, hs,
      ⟨rfl, rfl, rfl⟩, d, ht, length.get_set .., hapart.get_set .., hc, hl⟩⟩
  · exact ⟨.error .protocol, _, bind_of_error hr, .ofLength .zero rest lf, .inr (.inl ⟨rfl, hd⟩)⟩
  -- the length is complete: the sign of the count turns
  · have hturn : { lengthRead (p ++ d) with count := (lengthRead (p ++ d)).count * -1 } =
        lengthDone (p ++ d) := by
      simp [lengthRead, lengthDone]
    rw [bind_of_ok hr]
    dsimp only
    rw [if_pos rfl, bind_of_ok modifyPart_apply, bind_of_ok get_apply]
    simp only [length.get_set, length.set_set, hturn]
    have hsize : (lengthDone (p ++ d)).length = Base128.value (p ++ d) := rfl
    by_cases hpos : Base128.value (p ++ d) > 0
    · rw [hsize, if_pos hpos]
      -- `m₁` is the state in which the payload is asked for
      obtain ⟨m₁, hm₁⟩ : ∃ m₁ : Mosq σ, m₁ = { m with
          errno := .zero
          recv := rest
          inPacket := length.set (lengthDone (p ++ d)) m.inPacket } := ⟨_, rfl⟩
      have hmemory : SameMemory m m₁ := by
        rw [hm₁]
        exact ⟨rfl, rfl, rfl⟩
      rw [← hm₁]
      by_cases hgrants : grants env (Base128.value (p ++ d)) m₁
      case neg =>
        obtain ⟨calls, hm⟩ := mosquittoMalloc_refused purpose hgrants
        rw [bind_of_ok hm, hm₁]
        refine ⟨.error .nomem, _, rfl, ⟨.zero, rest, m.heap, m.memcount, calls, _, _, rfl⟩,
          .inr (.inr (.inl ⟨rfl, Base128.value (p ++ d), received rest, ?_, hpos,
            mt hmemory.grants_iff.mpr hgrants⟩))⟩
        rw [ht.received, ← List.append_assoc]
        exact Base128.decode_number_append hd _
      rcases mosquittoMalloc_cases env purpose (Base128.value (p ++ d)) m₁ with
        ⟨calls, hm⟩ | ⟨b, -, -, -, -, -, hm⟩
      · obtain ⟨b, m₂, hgranted, -⟩ := mosquittoMalloc_granted purpose hgrants
        rw [hgranted] at hm
        cases hm
      · rw [bind_of_ok hm, hm₁]
        refine ⟨.ok true, _, rfl, ⟨.zero, rest, _, _, m.mallocs + 1, _, _, rfl⟩,
          .inr (.inr (.inr ⟨rfl, rfl, d, ht, hne, hd, ?_, .inr ⟨hpos, b, ?_⟩⟩))⟩
        · rw [hapart.get_set', length.get_set]
        · rw [payload.get_set, hapart.get_set]
          simp only [hstart]
          rfl
    -- an empty frame has no payload
    · rw [hsize, if_neg hpos]
      refine ⟨.ok true, _, rfl, .ofLength .zero rest _, .inr (.inr (.inr ⟨rfl, rfl, d, ht, hne, hd,
        length.get_set .., .inl ⟨by omega, hapart.get_set ..⟩⟩))⟩

/-- The ways in which reading up to the end of the payload ends. -/
theorem readBody_cut (env : Setup σ) (purpose : Purpose) (hapart : length.Apart payload)
    {m : Mosq σ} {p : Bytes}
    (h : Holds length payload m.inPacket p) (hcut : IsCut m.recv) :
    ∃ r m', readBody env length payload purpose m = some (r, m') ∧
      ReadsTo length payload m m' ∧
      ((r = .ok false ∧ m'.errno = .again ∧ scriptSize m'.recv ≤ scriptSize m.recv - 1 ∧
          ((length.get m'.inPacket).count ≤ 0 → (length.get m.inPacket).count ≤ 0 ∧
            payload.get m'.inPacket = payload.get m.inPacket ∧ SameMemory m m') ∧
          ∃ d, Took d m.recv m'.recv ∧ Holds length payload m'.inPacket (p ++ d)) ∨
        (r = .error .protocol ∧ Base128.decode 4 (p ++ received m.recv) = .tooLong) ∨
        (r = .error .nomem ∧ (length.get m.inPacket).count ≤ 0 ∧
          Refused env m (p ++ received m.recv)) ∨
        (r = .ok true ∧ m'.errno = .zero ∧ ∃ d l body, Took d m.recv m'.recv ∧ d ≠ [] ∧
          p ++ d = l ++ body ∧ Complete length payload l body m.inPacket m'.inPacket)) := by
  unfold readBody
  -- by where the bytes read so far end: in the length, or in the payload
  cases h with
  | inLength fields nothing start continues short =>
    obtain ⟨r, m', hr, hto, hcases⟩ := readHeader_cut env purpose hapart
      fields start continues short hcut
    have hunread : (length.get m.inPacket).count ≤ 0 := by
      rw [fields]
      exact neg_nonpos.mpr (Int.natCast_nonneg _)
    rcases hcases with ⟨rfl, he, hs, hmemory, d, ht, hl, hpl, hc, hle⟩ | ⟨rfl, hd⟩ | ⟨rfl, hrefused⟩ |
      ⟨rfl, he, d, ht, hne, hd, hl, hprep⟩
    · refine ⟨.ok false, m', bind_of_ok hr, hto, .inl ⟨rfl, he, hs,
        fun _ => ⟨hunread, hpl, hmemory⟩, d, ht, .inLength hl ?_ ?_ hc hle⟩⟩
      · rw [hpl, nothing]
      · rw [hpl, start]
    · exact ⟨.error .protocol, m', bind_of_error hr, hto, .inr (.inl ⟨rfl, hd⟩)⟩
    · exact ⟨.error .nomem, m', bind_of_error hr, hto, .inr (.inr (.inl ⟨rfl, hunread, hrefused⟩))⟩
    · rw [bind_of_ok hr, if_pos rfl, bind_of_ok get_apply]
      rcases hprep with ⟨hzero, hpl⟩ | ⟨hpos, block, hpl⟩
      · -- nothing to read: the frame is empty
        have hnone : (payload.get m'.inPacket).toProcess = 0 := by rw [hpl, nothing]
        rw [hnone]
        refine ⟨.ok true, m', rfl, hto, .inr (.inr (.inr ⟨rfl, he, d, p ++ d, [], ht, hne,
          (List.append_nil _).symm, hd, hzero.symm, hl, by simp, fun _ => ⟨hpl, nothing, start⟩⟩))⟩
      -- the length is there now, and the payload is read in the same call
      · have hfuel : (payload.get m'.inPacket).toProcess = Base128.value (p ++ d) := by
          rw [hpl, payloadRead, List.length_nil, Nat.sub_zero]
        rw [hfuel]
        rcases readPayload_cut (Base128.value (p ++ d)) hpl (Nat.zero_le _) (by omega)
            ht.cut with
          ⟨e, rest, log, hr', ht', hs', hlt⟩ | ⟨e, rest, log, errno, hr', ht', hlen, herr⟩
        · have hlength : length.get (payload.set (payloadRead block ([] ++ e)
              (Base128.value (p ++ d))) m'.inPacket) = lengthDone (p ++ d) := by
            rw [hapart.get_set', hl]
          refine ⟨.ok false, _, hr', hto.trans hapart (.ofPayload .again rest log _),
            .inl ⟨rfl, rfl, ?_, fun hle => ?_, d ++ e, ht.trans ht', ?_⟩⟩
          · have := ht.size
            dsimp only
            omega
          · rw [hlength] at hle
            exact absurd hle (not_le.mpr hd.count_pos)
          · rw [← List.append_assoc]
            exact .inPayload block hd hlt hlength (payload.get_set ..)
        · have hzero : errno = .zero := by
            rw [herr, he]
            split <;> rfl
          rw [List.nil_append] at hr' hlen
          refine ⟨.ok true, _, hr', hto.trans hapart (.ofPayload errno rest log _),
            .inr (.inr (.inr ⟨rfl, hzero, d ++ e, p ++ d, e, ht.trans ht', by simp [hne],
              (List.append_assoc ..).symm, hd, hlen, ?_, fun _ => ⟨block, ?_⟩, fun hnil => ?_⟩))⟩
          · rw [← hl]
            exact hapart.get_set' ..
          · rw [hlen]
            exact payload.get_set ..
          · rw [hnil, List.length_nil] at hlen
            omega
  | @inPayload l body block isLength more fields part =>
    -- the length was read by an earlier call, so the header is passed over
    have hcount : ¬ (length.get m.inPacket).count ≤ 0 := by
      rw [fields]
      exact not_le.mpr isLength.count_pos
    have hheader : readHeader env length payload purpose m = some (.ok true, m) := by
      unfold readHeader
      rw [bind_of_ok get_apply, if_neg hcount]
      rfl
    have hfuel : (payload.get m.inPacket).toProcess = Base128.value l - body.length := by
      rw [part, payloadRead]
    rw [bind_of_ok hheader, if_pos rfl, bind_of_ok get_apply, hfuel]
    rcases readPayload_cut (Base128.value l - body.length) part (by omega) (by omega)
        hcut with
      ⟨d, rest, log, hr, ht, hs, hlt⟩ | ⟨d, rest, log, errno, hr, ht, hlen, herr⟩
    · have hlength : length.get (payload.set (payloadRead block (body ++ d) (Base128.value l))
          m.inPacket) = lengthDone l := by
        rw [hapart.get_set', fields]
      refine ⟨.ok false, _, hr, .ofPayload .again rest log _,
        .inl ⟨rfl, rfl, hs, fun hle => ?_, d, ht, ?_⟩⟩
      · rw [hlength] at hle
        exact absurd hle (not_le.mpr isLength.count_pos)
      · rw [List.append_assoc]
        exact .inPayload block isLength hlt hlength (payload.get_set ..)
    · have hne : d ≠ [] := by
        rintro rfl
        rw [List.append_nil] at hlen
        omega
      refine ⟨.ok true, _, hr, .ofPayload errno rest log _, .inr (.inr (.inr ⟨rfl, ?_, d, l,
        body ++ d, ht, hne, List.append_assoc .., isLength, hlen, ?_, fun _ => ⟨block, ?_⟩,
        fun hnil => absurd (List.append_eq_nil_iff.mp hnil).2 hne⟩))⟩
      · rw [herr, if_neg hne]
      · rw [← fields]
        exact hapart.get_set' ..
      · rw [hlen]
        exact payload.get_set ..

end Body

end WeeveMQ
