/-
  WeeveMQ.Lib.Base128

  Base-128 numbers and the streams framed with them.

  A number is a string of bytes of seven bits each, lowest first; every byte but
  the last has its high bit set.  A frame is such a number followed by as many
  bytes.

  - `Base128.encode` writes at most a given number of bytes, `Base128.decode`
    reads at most a given number and says which of three ways it ended.
  - `Base128.decode_append` resumes a decoder behind bytes that all continue,
    which is what an incremental reader does.
  - `Base128.frames` splits a whole stream; `Base128.frames_encodeFrame` is the
    round trip over any number of messages.
-/

import Mathlib.Data.Nat.Bitwise
import Mathlib.Tactic.Ring

namespace Base128

/-! ## Digits -/

/-- The high bit: more bytes follow. -/
def continues (b : UInt8) : Bool := b &&& 128 ≠ 0

/-- The low seven bits. -/
def digit (b : UInt8) : Nat := (b &&& 127).toNat

theorem digit_eq (b : UInt8) : digit b = b.toNat % 128 := by
  unfold digit
  rw [UInt8.toNat_and]
  exact Nat.and_two_pow_sub_one_eq_mod b.toNat 7

theorem digit_lt (b : UInt8) : digit b < 128 := by
  rw [digit_eq]
  exact Nat.mod_lt _ (by omega)

theorem continues_iff (b : UInt8) : continues b = true ↔ 128 ≤ b.toNat := by
  have hb := b.toNat_lt
  have h : b.toNat &&& 128 = (b.toNat.testBit 7).toNat * 128 := Nat.and_two_pow b.toNat 7
  unfold continues
  rw [decide_eq_true_iff, ne_eq, ← UInt8.toNat_inj, UInt8.toNat_and]
  show ¬ b.toNat &&& 128 = 0 ↔ _
  rw [h, Nat.testBit_eq_decide_div_mod_eq, show 2 ^ 7 = 128 from rfl]
  by_cases hd : b.toNat / 128 % 2 = 1
  · have hge : 128 ≤ b.toNat := by omega
    simp [hd, hge]
  · have hlt : ¬ 128 ≤ b.toNat := by omega
    simp [hd, hlt]

/-- The number a string of digits stands for, lowest digit first. -/
def value : List UInt8 → Nat
  | [] => 0
  | b :: bs => digit b + 128 * value bs

@[simp] theorem value_nil : value [] = 0 := rfl

theorem value_append (p q : List UInt8) : value (p ++ q) = value p + 128 ^ p.length * value q := by
  induction p with
  | nil => simp
  | cons b p ih =>
    rw [List.cons_append, value, value, ih, List.length_cons, pow_succ]
    ring

theorem value_lt (p : List UInt8) : value p < 128 ^ p.length := by
  induction p with
  | nil => simp
  | cons b p ih =>
    have := digit_lt b
    rw [value, List.length_cons, pow_succ]
    omega

/-! ## Numbers -/

/-- The bytes of a number, `slots` at most; what does not fit is cut off. -/
def encode : Nat → Nat → List UInt8
  | 0, _ => []
  | slots + 1, n =>
    if n / 128 = 0 then [UInt8.ofNat (n % 128)]
    else (UInt8.ofNat (n % 128) ||| 128) :: encode slots (n / 128)

/-- How reading a number ends. -/
inductive Decoded where
  | incomplete
  | tooLong
  | number (n : Nat) (rest : List UInt8)
  deriving DecidableEq, Repr

/-- Read a number of at most `limit` bytes. -/
def decode : Nat → List UInt8 → Decoded
  | _, [] => .incomplete
  | 0, _ :: _ => .tooLong
  | limit + 1, b :: bs =>
    if continues b then
      match decode limit bs with
      | .number n rest => .number (digit b + 128 * n) rest
      | .incomplete => .incomplete
      | .tooLong => .tooLong
    else .number (digit b) bs

@[simp] theorem decode_nil (limit : Nat) : decode limit [] = .incomplete := by
  cases limit <;> rfl

/-- Put the digits `p` in front of a number. -/
def Decoded.extend (p : List UInt8) : Decoded → Decoded
  | .number n rest => .number (value p + 128 ^ p.length * n) rest
  | d => d

@[simp] theorem Decoded.extend_incomplete (p : List UInt8) :
    incomplete.extend p = incomplete := rfl

@[simp] theorem Decoded.extend_tooLong (p : List UInt8) : tooLong.extend p = tooLong := rfl

/-- A decoder goes on behind bytes that all continue. -/
theorem decode_append {p : List UInt8} (hp : ∀ b ∈ p, continues b = true) (limit : Nat)
    (s : List UInt8) : decode (p.length + limit) (p ++ s) = (decode limit s).extend p := by
  induction p with
  | nil =>
    rw [List.length_nil, Nat.zero_add, List.nil_append]
    cases decode limit s with
    | incomplete => rfl
    | tooLong => rfl
    | number n rest => simp [Decoded.extend]
  | cons b p ih =>
    rw [List.length_cons, Nat.add_right_comm, List.cons_append, decode,
      if_pos (hp b (List.mem_cons_self ..)), ih fun b hb => hp b (List.mem_cons_of_mem _ hb)]
    cases decode limit s with
    | incomplete => rfl
    | tooLong => rfl
    | number n rest =>
      simp only [Decoded.extend, value, List.length_cons, pow_succ, Decoded.number.injEq, and_true]
      ring

/-- A number ends at the first byte that does not continue. -/
theorem decode_last {p : List UInt8} (hp : ∀ b ∈ p, continues b = true) {b : UInt8}
    (hb : continues b = false) (limit : Nat) (s : List UInt8) :
    decode (p.length + (limit + 1)) (p ++ b :: s) = .number (value (p ++ [b])) s := by
  rw [decode_append hp, decode, if_neg (by simp [hb]), Decoded.extend, value_append]
  simp [value]

/-- More input does not change a number that was read. -/
theorem decode_number_append {limit : Nat} {s : List UInt8} {n : Nat} {rest : List UInt8}
    (h : decode limit s = .number n rest) (t : List UInt8) :
    decode limit (s ++ t) = .number n (rest ++ t) := by
  induction s generalizing limit n rest with
  | nil => simp at h
  | cons b s ih =>
    cases limit with
    | zero => simp [decode] at h
    | succ limit =>
      rw [decode] at h
      rw [List.cons_append, decode]
      split at h
      next hc =>
        rw [if_pos hc]
        cases hd : decode limit s with
        | incomplete => simp [hd] at h
        | tooLong => simp [hd] at h
        | number m r =>
          rw [hd] at h
          simp only [Decoded.number.injEq] at h
          rw [ih hd, ← h.1, ← h.2]
      next hc =>
        simp only [Decoded.number.injEq] at h
        rw [if_neg hc, ← h.1, ← h.2]

/-- A number that was read is the value of its own bytes. -/
theorem decode_split {limit : Nat} {s : List UInt8} {n : Nat} {rest : List UInt8}
    (h : decode limit s = .number n rest) :
    ∃ l, s = l ++ rest ∧ value l = n ∧ decode limit l = .number n [] := by
  induction s generalizing limit n rest with
  | nil => simp at h
  | cons b s ih =>
    cases limit with
    | zero => simp [decode] at h
    | succ limit =>
      rw [decode] at h
      split at h
      next hc =>
        cases hd : decode limit s with
        | incomplete => simp [hd] at h
        | tooLong => simp [hd] at h
        | number m r =>
          rw [hd] at h
          obtain ⟨rfl, rfl⟩ := Decoded.number.inj h
          obtain ⟨l, rfl, rfl, hl⟩ := ih hd
          refine ⟨b :: l, rfl, rfl, ?_⟩
          rw [decode, if_pos hc, hl]
      next hc =>
        obtain ⟨rfl, rfl⟩ := Decoded.number.inj h
        refine ⟨[b], rfl, ?_, ?_⟩
        · rw [value, value_nil, Nat.mul_zero, Nat.add_zero]
        · rw [decode, if_neg hc]

theorem decode_length_le {limit : Nat} {s : List UInt8} {n : Nat} {rest : List UInt8}
    (h : decode limit s = .number n rest) : rest.length < s.length := by
  obtain ⟨l, rfl, -, hl⟩ := decode_split h
  cases l with
  | nil => simp at hl
  | cons b l =>
    rw [List.cons_append, List.length_cons, List.length_append]
    omega

theorem encode_length_le (slots n : Nat) : (encode slots n).length ≤ slots := by
  induction slots generalizing n with
  | zero => simp [encode]
  | succ slots ih =>
    rw [encode]
    split
    · simp
    · simpa using ih (n / 128)

/-- The last slot is used only for a number the others have no room for. -/
theorem encode_length_pos (slots n : Nat) : 0 < (encode (slots + 1) n).length := by
  rw [encode]
  split <;> simp

theorem encode_length_lt {slots n : Nat} (h : n < 128 ^ (slots + 1)) :
    (encode (slots + 2) n).length < slots + 2 := by
  induction slots generalizing n with
  | zero =>
    have : n / 128 = 0 := Nat.div_eq_of_lt (by omega)
    simp [encode, this]
  | succ slots ih =>
    rw [encode]
    split
    · simp
    · have : n / 128 < 128 ^ (slots + 1) := by
        rw [Nat.div_lt_iff_lt_mul (by omega)]
        rwa [pow_succ] at h
      simpa using ih this

theorem encode_length_eq {slots n : Nat} (h : 128 ^ slots ≤ n) :
    (encode (slots + 1) n).length = slots + 1 := by
  induction slots generalizing n with
  | zero =>
    rw [encode]
    split <;> simp [encode]
  | succ slots ih =>
    have hn : 128 ^ slots ≤ n / 128 := by
      rw [Nat.le_div_iff_mul_le (by omega)]
      rwa [pow_succ] at h
    have hpos : 0 < 128 ^ slots := Nat.pow_pos (by omega)
    rw [encode, if_neg (by omega), List.length_cons, ih hn]

/-- A slot to spare: the cut did not happen. -/
theorem encode_succ {slots n : Nat} (h : n < 128 ^ (slots + 1)) (extra : Nat) :
    encode (slots + 1 + extra) n = encode (slots + 1) n := by
  induction slots generalizing n with
  | zero =>
    have : n / 128 = 0 := Nat.div_eq_of_lt (by omega)
    rw [Nat.add_right_comm]
    simp [encode, this]
  | succ slots ih =>
    have hn : n / 128 < 128 ^ (slots + 1) := by
      rw [Nat.div_lt_iff_lt_mul (by omega)]
      rwa [pow_succ] at h
    rw [Nat.add_right_comm, encode, encode, ih hn]

theorem digit_last {n : Nat} (h : n < 128) : digit (UInt8.ofNat n) = n := by
  rw [digit_eq, UInt8.toNat_ofNat']
  omega

theorem continues_last {n : Nat} (h : n < 128) : continues (UInt8.ofNat n) = false := by
  have hn : ¬ continues (UInt8.ofNat n) = true := by
    rw [continues_iff, UInt8.toNat_ofNat']
    omega
  simpa using hn

theorem toNat_marked {n : Nat} (h : n < 128) : (UInt8.ofNat n ||| 128).toNat = n + 128 := by
  have hor : 128 + n = 128 ||| n := Nat.two_pow_add_eq_or_of_lt (i := 7) h 1
  rw [UInt8.toNat_or, UInt8.toNat_ofNat', Nat.mod_eq_of_lt (by omega), Nat.or_comm]
  show 128 ||| n = n + 128
  rw [← hor, Nat.add_comm]

theorem decode_encode {limit n : Nat} (h : n < 128 ^ limit) (s : List UInt8) (hl : limit ≠ 0) :
    decode limit (encode limit n ++ s) = .number n s := by
  induction limit generalizing n with
  | zero => exact absurd rfl hl
  | succ limit ih =>
    have hd : n % 128 < 128 := Nat.mod_lt _ (by omega)
    rw [encode]
    split
    next hn =>
      rw [List.singleton_append, decode, if_neg (by simp [continues_last hd]), digit_last hd]
      simp only [Decoded.number.injEq, and_true]
      omega
    next hn =>
      have hlt : n / 128 < 128 ^ limit := by
        rw [Nat.div_lt_iff_lt_mul (by omega)]
        rwa [pow_succ] at h
      have hlimit : limit ≠ 0 := by
        rintro rfl
        rw [pow_zero] at hlt
        omega
      have hc : continues (UInt8.ofNat (n % 128) ||| 128) = true := by
        rw [continues_iff, toNat_marked hd]
        omega
      rw [List.cons_append, decode, if_pos hc, ih hlt hlimit, digit_eq, toNat_marked hd]
      simp only [Decoded.number.injEq, and_true]
      omega

/-! ## Framed streams -/

/-- What stands at the front of a stream. -/
inductive Front where
  | incomplete
  | tooLong
  | frame (body rest : List UInt8)
  deriving DecidableEq, Repr

/-- One frame, its length written in at most `limit` bytes. -/
def nextFrame (limit : Nat) (s : List UInt8) : Front :=
  match decode limit s with
  | .incomplete => .incomplete
  | .tooLong => .tooLong
  | .number n rest => if n ≤ rest.length then .frame (rest.take n) (rest.drop n) else .incomplete

theorem nextFrame_length_lt {limit : Nat} {s body rest : List UInt8}
    (h : nextFrame limit s = .frame body rest) : rest.length < s.length := by
  unfold nextFrame at h
  split at h
  · cases h
  · cases h
  next n r hd =>
    have := decode_length_le hd
    split at h
    · simp only [Front.frame.injEq] at h
      rw [← h.2, List.length_drop]
      omega
    · cases h

/-- More input does not change a frame that is complete. -/
theorem nextFrame_append {limit : Nat} {s body rest : List UInt8}
    (h : nextFrame limit s = .frame body rest) (t : List UInt8) :
    nextFrame limit (s ++ t) = .frame body (rest ++ t) := by
  unfold nextFrame at h ⊢
  split at h
  · cases h
  · cases h
  next n r hd =>
    split at h
    next hn =>
      simp only [Front.frame.injEq] at h
      rw [decode_number_append hd t]
      simp only
      rw [if_pos (by rw [List.length_append]; omega), ← h.1, ← h.2,
        List.take_append_of_le_length hn, List.drop_append_of_le_length hn]
    next => cases h

/-- The frames of a whole stream, and whether they end at a length that is too long. -/
def frames (limit : Nat) (s : List UInt8) : List (List UInt8) × Bool :=
  match h : nextFrame limit s with
  | .incomplete => ([], false)
  | .tooLong => ([], true)
  | .frame body rest =>
    have := nextFrame_length_lt h
    (body :: (frames limit rest).1, (frames limit rest).2)
termination_by s.length

theorem frames_incomplete {limit : Nat} {s : List UInt8} (h : nextFrame limit s = .incomplete) :
    frames limit s = ([], false) := by
  rw [frames]
  split <;> simp_all

theorem frames_tooLong {limit : Nat} {s : List UInt8} (h : nextFrame limit s = .tooLong) :
    frames limit s = ([], true) := by
  rw [frames]
  split <;> simp_all

theorem frames_frame {limit : Nat} {s body rest : List UInt8}
    (h : nextFrame limit s = .frame body rest) :
    frames limit s = (body :: (frames limit rest).1, (frames limit rest).2) := by
  rw [frames]
  split <;> simp_all

/-- A message behind its length. -/
def encodeFrame (limit : Nat) (message : List UInt8) : List UInt8 :=
  encode limit message.length ++ message

theorem nextFrame_encodeFrame {limit : Nat} {message : List UInt8}
    (h : message.length < 128 ^ limit) (hl : limit ≠ 0) (s : List UInt8) :
    nextFrame limit (encodeFrame limit message ++ s) = .frame message s := by
  rw [nextFrame, encodeFrame, List.append_assoc, decode_encode h _ hl]
  simp

/-- Framing is undone exactly, whatever number of messages stands in the stream. -/
theorem frames_encodeFrame {limit : Nat} (hl : limit ≠ 0) {messages : List (List UInt8)}
    (h : ∀ m ∈ messages, m.length < 128 ^ limit) :
    frames limit (messages.flatMap (encodeFrame limit)) = (messages, false) := by
  induction messages with
  | nil =>
    exact frames_incomplete (by simp [nextFrame])
  | cons m messages ih =>
    have hm := h m (List.mem_cons_self ..)
    rw [List.flatMap_cons, frames_frame (nextFrame_encodeFrame hm hl _),
      ih fun m hm => h m (List.mem_cons_of_mem _ hm)]

end Base128
