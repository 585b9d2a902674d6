/-
  WeeveMQ.Lib.Cbor

  The fragment of RFC 7049 that a pull parser and a bounded encoder work on.

  - `encodeHead` / `decodeHead`: item heads, written in shortest form and read
    in any form.
  - `Cursor`: a reading position inside an array, settled on the head of the
    current item; `Writer`: an output buffer of fixed capacity.
  - `decodeHead_encodeHead`: a head reads back as it was written.
  - `*_append`: a reader that succeeds looks at no byte behind what it consumes,
    so the same bytes with a tail give the same result in front of that tail.
-/

import Mathlib.Algebra.Ring.Nat
import Mathlib.Data.List.Basic

namespace Cbor

/-! ## Item heads -/

/-- Major type and argument of an item; no argument means indefinite length. -/
structure Head where
  major : Nat
  arg : Option Nat
  deriving DecidableEq, Repr

/-- Big-endian value of a byte string. -/
def beNat (bs : List UInt8) : Nat :=
  bs.foldl (fun n b => 256 * n + b.toNat) 0

/-- The `w` low bytes of `n`, most significant first. -/
def beBytes : Nat → Nat → List UInt8
  | 0, _ => []
  | w + 1, n => beBytes w (n / 256) ++ [UInt8.ofNat n]

/-- Split off the first `n` bytes, if there are that many. -/
def splitBytes (n : Nat) (bs : List UInt8) : Option (List UInt8 × List UInt8) :=
  if n ≤ bs.length then some (bs.take n, bs.drop n) else none

/-- Read one item head.  Additional information 28..30 is reserved, 31 is an
    indefinite length on strings and containers only, and a simple value below
    32 has no two-byte form. -/
def decodeHead : List UInt8 → Option (Head × List UInt8)
  | [] => none
  | b :: bs =>
      let major := b.toNat / 32
      let info := b.toNat % 32
      if info < 24 then some (⟨major, some info⟩, bs)
      else if info < 28 then
        match splitBytes (2 ^ (info - 24)) bs with
        | none => none
        | some (arg, rest) =>
            if major = 7 ∧ info = 24 ∧ beNat arg < 32 then none
            else some (⟨major, some (beNat arg)⟩, rest)
      else if info = 31 ∧ 2 ≤ major ∧ major ≤ 5 then some (⟨major, none⟩, bs)
      else none

/-- The shortest head with this argument. -/
def encodeHead (major n : Nat) : List UInt8 :=
  if n < 24 then [UInt8.ofNat (32 * major + n)]
  else if n < 2 ^ 8 then UInt8.ofNat (32 * major + 24) :: beBytes 1 n
  else if n < 2 ^ 16 then UInt8.ofNat (32 * major + 25) :: beBytes 2 n
  else if n < 2 ^ 32 then UInt8.ofNat (32 * major + 26) :: beBytes 4 n
  else UInt8.ofNat (32 * major + 27) :: beBytes 8 n

/-- A definite-length byte or text string. -/
def encodeString (major : Nat) (s : List UInt8) : List UInt8 := encodeHead major s.length ++ s

@[simp] theorem beBytes_length (w n : Nat) : (beBytes w n).length = w := by
  induction w generalizing n with
  | zero => rfl
  | succ w ih => simp [beBytes, ih]

theorem beNat_concat (bs : List UInt8) (b : UInt8) :
    beNat (bs ++ [b]) = 256 * beNat bs + b.toNat := by
  simp [beNat]

theorem beNat_beBytes (w n : Nat) : beNat (beBytes w n) = n % 256 ^ w := by
  induction w generalizing n with
  | zero => simp [beBytes, beNat, Nat.mod_one]
  | succ w ih =>
      have hsplit : n % 256 ^ (w + 1) = n % 256 + 256 * (n / 256 % 256 ^ w) := by
        rw [Nat.pow_succ', Nat.mod_mul]
      rw [beBytes, beNat_concat, ih, hsplit]
      simp only [UInt8.toNat_ofNat']
      omega

theorem splitBytes_append {n : Nat} {bs c rest : List UInt8} (x : List UInt8)
    (h : splitBytes n bs = some (c, rest)) :
    splitBytes n (bs ++ x) = some (c, rest ++ x) := by
  unfold splitBytes at h ⊢
  split at h
  · rename_i hn
    simp only [Option.some.injEq, Prod.mk.injEq] at h
    obtain ⟨rfl, rfl⟩ := h
    rw [if_pos (by simp; omega), List.take_append_of_le_length hn,
      List.drop_append_of_le_length hn]
  · simp at h

theorem splitBytes_exact (c rest : List UInt8) :
    splitBytes c.length (c ++ rest) = some (c, rest) := by
  simp [splitBytes]

theorem splitBytes_eq {n : Nat} {bs c rest : List UInt8} (h : splitBytes n bs = some (c, rest)) :
    bs = c ++ rest ∧ c.length = n := by
  unfold splitBytes at h
  split at h
  · simp only [Option.some.injEq, Prod.mk.injEq] at h
    obtain ⟨rfl, rfl⟩ := h
    simp; omega
  · simp at h

theorem decodeHead_append {bs rest : List UInt8} {hd : Head} (x : List UInt8)
    (h : decodeHead bs = some (hd, rest)) : decodeHead (bs ++ x) = some (hd, rest ++ x) := by
  cases bs with
  | nil => simp [decodeHead] at h
  | cons b bs =>
      simp only [decodeHead, List.cons_append] at h ⊢
      split_ifs at h ⊢ with h1 h2 h3
      · simp_all
      · rcases hs : splitBytes (2 ^ (b.toNat % 32 - 24)) bs with _ | ⟨arg, r⟩
        · simp [hs] at h
        · rw [splitBytes_append x hs]
          simp only [hs] at h ⊢
          split_ifs at h ⊢
          simp_all
      · simp_all

/-- A head reads back as it was written, whatever follows it. -/
theorem decodeHead_encodeHead {major n : Nat} (hm : major < 7) (hn : n < 2 ^ 64)
    (rest : List UInt8) :
    decodeHead (encodeHead major n ++ rest) = some (⟨major, some n⟩, rest) := by
  -- one lemma for the four wide forms: `k` is the size exponent
  have wide : ∀ k, k < 4 → n < 256 ^ 2 ^ k →
      decodeHead (UInt8.ofNat (32 * major + (24 + k)) :: (beBytes (2 ^ k) n ++ rest)) =
        some (⟨major, some n⟩, rest) := by
    intro k hk hn
    have hb : (UInt8.ofNat (32 * major + (24 + k))).toNat = 32 * major + (24 + k) := by
      rw [UInt8.toNat_ofNat']
      omega
    have hmaj : (32 * major + (24 + k)) / 32 = major := by omega
    have hinfo : (32 * major + (24 + k)) % 32 = 24 + k := by omega
    have harg : splitBytes (2 ^ k) (beBytes (2 ^ k) n ++ rest) = some (beBytes (2 ^ k) n, rest) := by
      have := splitBytes_exact (beBytes (2 ^ k) n) rest
      rwa [beBytes_length] at this
    simp only [decodeHead, hb, hmaj, hinfo]
    rw [if_neg (by omega), if_pos (by omega), show 24 + k - 24 = k by omega, harg]
    simp only
    rw [if_neg (by omega), beNat_beBytes, Nat.mod_eq_of_lt hn]
  unfold encodeHead
  split_ifs with h1 h2 h3 h4
  · have hb : (UInt8.ofNat (32 * major + n)).toNat = 32 * major + n := by
      rw [UInt8.toNat_ofNat']
      omega
    simp only [List.singleton_append, decodeHead, hb]
    rw [if_pos (by omega)]
    simp only [Option.some.injEq, Prod.mk.injEq, Head.mk.injEq, and_true]
    omega
  · exact wide 0 (by decide) (by simpa using h2)
  · exact wide 1 (by decide) (by simpa using h3)
  · exact wide 2 (by decide) (by simpa using h4)
  · exact wide 3 (by decide) (by simpa using hn)

theorem encodeHead_length_le_two {major n : Nat} (hn : n < 2 ^ 8) :
    (encodeHead major n).length ≤ 2 := by
  unfold encodeHead
  split_ifs <;> simp

theorem encodeHead_length_le_of_lt {major n : Nat} (hn : n < 2 ^ 32) :
    (encodeHead major n).length ≤ 5 := by
  unfold encodeHead
  split_ifs <;> simp

/-- No item head is the break code. -/
theorem encodeHead_head? {major n : Nat} (_hm : major < 7) (rest : List UInt8) :
    (encodeHead major n ++ rest).head? ≠ some 0xff := by
  have hbyte : ∀ k < 28, UInt8.ofNat (32 * major + k) ≠ 0xff := by
    intro k hk h
    have hval := congrArg UInt8.toNat h
    rw [UInt8.toNat_ofNat', show (0xff : UInt8).toNat = 255 from rfl] at hval
    omega
  unfold encodeHead
  split_ifs with h1 h2 h3 h4
  · simpa using hbyte n (by omega)
  · simpa using hbyte 24 (by omega)
  · simpa using hbyte 25 (by omega)
  · simpa using hbyte 26 (by omega)
  · simpa using hbyte 27 (by omega)

/-! ## Strings -/

/-- The chunks of an indefinite-length string up to the break, concatenated. -/
def readChunks (major : Nat) : Nat → List UInt8 → Option (List UInt8 × List UInt8)
  | 0, _ => none
  | fuel + 1, bs =>
      if bs.head? = some 0xff then some ([], bs.tail)
      else
        match decodeHead bs with
        | some (⟨m, some n⟩, body) =>
            if m = major then
              match splitBytes n body with
              | none => none
              | some (c, rest) =>
                  (readChunks major fuel rest).map fun r => (c ++ r.1, r.2)
            else none
        | _ => none

/-- Content of the string with head `hd`, and the bytes behind the string.
    Every chunk takes at least one byte, so the length of the input is enough
    fuel (`readChunks_enough`). -/
def readString (hd : Head) (body : List UInt8) : Option (List UInt8 × List UInt8) :=
  match hd.arg with
  | some n => splitBytes n body
  | none => readChunks hd.major body.length body

theorem decodeHead_length {bs rest : List UInt8} {hd : Head} (h : decodeHead bs = some (hd, rest)) :
    rest.length < bs.length := by
  cases bs with
  | nil => simp [decodeHead] at h
  | cons b bs =>
      simp only [decodeHead] at h
      split_ifs at h with h1 h2 h3
      · simp_all
      · rcases hs : splitBytes (2 ^ (b.toNat % 32 - 24)) bs with _ | ⟨arg, r⟩
        · simp [hs] at h
        · obtain ⟨rfl, -⟩ := splitBytes_eq hs
          simp only [hs] at h
          split_ifs at h
          simp only [Option.some.injEq, Prod.mk.injEq] at h
          rw [← h.2, List.length_cons, List.length_append]
          omega
      · simp_all

theorem readChunks_append {major fuel : Nat} {bs c rest : List UInt8} (x : List UInt8)
    {fuel' : Nat} (hf : fuel ≤ fuel') (h : readChunks major fuel bs = some (c, rest)) :
    readChunks major fuel' (bs ++ x) = some (c, rest ++ x) := by
  induction fuel generalizing bs c fuel' with
  | zero => simp [readChunks] at h
  | succ fuel ih =>
      obtain ⟨fuel', rfl⟩ : ∃ k, fuel' = k + 1 := ⟨fuel' - 1, by omega⟩
      cases bs with
      | nil => simp [readChunks, decodeHead] at h
      | cons b bs =>
          simp only [readChunks] at h ⊢
          rw [List.head?_append_of_ne_nil _ (by simp), List.tail_append_of_ne_nil (by simp)]
          split_ifs at h ⊢ with hbreak
          · simp_all
          · split at h
            · rename_i m n body hd
              rw [decodeHead_append x hd]
              split_ifs at h with hm
              rcases hs : splitBytes n body with _ | ⟨c', r'⟩
              · simp [hs] at h
              · simp only [hs, Option.map_eq_some_iff, Prod.exists, Prod.mk.injEq] at h
                obtain ⟨c2, r2, hrec, rfl, rfl⟩ := h
                have hle : fuel ≤ fuel' := by omega
                simp [hm, splitBytes_append x hs, ih hle hrec]
            · simp at h

/-- A chunked string that reads with any fuel reads with the length of the
    input as fuel. -/
theorem readChunks_enough {major fuel : Nat} {bs c rest : List UInt8}
    (h : readChunks major fuel bs = some (c, rest)) :
    readChunks major bs.length bs = some (c, rest) := by
  induction fuel generalizing bs c with
  | zero => simp [readChunks] at h
  | succ fuel ih =>
      cases bs with
      | nil => simp [readChunks, decodeHead] at h
      | cons b bs =>
          simp only [readChunks, List.length_cons] at h ⊢
          split_ifs at h ⊢ with hbreak
          · exact h
          · split at h
            · rename_i m n body hd
              have hlen := decodeHead_length hd
              split_ifs at h with hm
              rcases hs : splitBytes n body with _ | ⟨c', r'⟩
              · simp [hs] at h
              · obtain ⟨rfl, -⟩ := splitBytes_eq hs
                simp only [hs, Option.map_eq_some_iff, Prod.exists, Prod.mk.injEq] at h
                obtain ⟨c2, r2, hrec, rfl, rfl⟩ := h
                have hle : r'.length ≤ bs.length := by simp at hlen; omega
                have := readChunks_append [] hle (ih hrec)
                simp only [List.append_nil] at this
                simp [hm, this]
            · simp at h

theorem readString_append {hd : Head} {body c rest : List UInt8} (x : List UInt8)
    (h : readString hd body = some (c, rest)) :
    readString hd (body ++ x) = some (c, rest ++ x) := by
  unfold readString at h ⊢
  split at h
  · exact splitBytes_append x h
  · exact readChunks_append x (by simp) h

/-! ## Reading position -/

/-- A position inside an array: how many items are left there (`none` in an
    indefinite-length array), the head of the current item (`none` behind the
    last one), and the bytes behind that head. -/
structure Cursor where
  left : Option Nat
  head : Option Head
  body : List UInt8
  deriving DecidableEq, Repr

namespace Cursor

/-- Settle on the next item: behind the last item of the array, or on a
    well-formed head. -/
def settle (left : Option Nat) (bs : List UInt8) : Option Cursor :=
  if left = some 0 then some ⟨some 0, none, bs⟩
  else if left = none ∧ bs.head? = some 0xff then some ⟨some 0, none, bs.tail⟩
  else (decodeHead bs).map fun r => ⟨left, some r.1, r.2⟩

/-- A byte string holds one top-level item. -/
def start (bs : List UInt8) : Option Cursor := settle (some 1) bs

/-- The current item has this major type. -/
def is (major : Nat) (c : Cursor) : Bool := c.head.any fun hd => hd.major == major

/-- Enter the array at the cursor; `limit` is the largest item count the reader
    can hold. -/
def enterArray (limit : Nat) (c : Cursor) : Option Cursor :=
  match c.head with
  | some ⟨4, none⟩ => settle none c.body
  | some ⟨4, some n⟩ => if n ≤ limit then settle (some n) c.body else none
  | _ => none

/-- The first item of the array at the cursor, however many items it announces. -/
def items (c : Cursor) : Option Cursor :=
  match c.head with
  | some ⟨4, left⟩ => settle left c.body
  | _ => none

/-- The unsigned integer at the cursor. -/
def uint (c : Cursor) : Option Nat :=
  match c.head with
  | some ⟨0, some n⟩ => some n
  | _ => none

/-- The byte or text string at the cursor, and the bytes behind it. -/
def string (c : Cursor) : Option (List UInt8 × List UInt8) :=
  match c.head with
  | some hd => if hd.major = 2 ∨ hd.major = 3 then readString hd c.body else none
  | none => none

/-- Settle on the item at `rest`, one item further in the same array. -/
def next (c : Cursor) (rest : List UInt8) : Option Cursor := settle (c.left.map (· - 1)) rest

/-- Skip the integer or string at the cursor. -/
def skip (c : Cursor) : Option Cursor :=
  if c.is 0 then c.next c.body
  else c.string.bind fun r => c.next r.2

/-- The same position with more input behind it. -/
def extend (x : List UInt8) (c : Cursor) : Cursor := { c with body := c.body ++ x }

@[simp] theorem extend_left (x : List UInt8) (c : Cursor) : (c.extend x).left = c.left := rfl

@[simp] theorem extend_head (x : List UInt8) (c : Cursor) : (c.extend x).head = c.head := rfl

@[simp] theorem extend_body (x : List UInt8) (c : Cursor) :
    (c.extend x).body = c.body ++ x := rfl

@[simp] theorem extend_is (x : List UInt8) (m : Nat) (c : Cursor) :
    (c.extend x).is m = c.is m := rfl

@[simp] theorem extend_uint (x : List UInt8) (c : Cursor) : (c.extend x).uint = c.uint := rfl

theorem settle_append {left : Option Nat} {bs : List UInt8} {c : Cursor} (x : List UInt8)
    (h : settle left bs = some c) : settle left (bs ++ x) = some (c.extend x) := by
  cases bs with
  | nil =>
      unfold settle at h
      split_ifs at h with h0 hbreak
      · cases h
        simp [settle, h0, extend]
      · simp at hbreak
      · simp [decodeHead] at h
  | cons b bs =>
      unfold settle at h ⊢
      rw [List.head?_append_of_ne_nil _ (by simp), List.tail_append_of_ne_nil (by simp)]
      split_ifs at h ⊢
      · cases h
        rfl
      · cases h
        rfl
      · simp only [Option.map_eq_some_iff, Prod.exists] at h ⊢
        obtain ⟨hd, r, hdec, rfl⟩ := h
        exact ⟨hd, r ++ x, decodeHead_append x hdec, rfl⟩

theorem start_append {bs : List UInt8} {c : Cursor} (x : List UInt8) (h : start bs = some c) :
    start (bs ++ x) = some (c.extend x) :=
  settle_append x h

/-- Settling on an item written by `encodeHead`. -/
theorem settle_encodeHead {left : Option Nat} {major n : Nat} (hl : left ≠ some 0)
    (hm : major < 7) (hn : n < 2 ^ 64) (rest : List UInt8) :
    settle left (encodeHead major n ++ rest) = some ⟨left, some ⟨major, some n⟩, rest⟩ := by
  unfold settle
  rw [if_neg hl, if_neg fun h => encodeHead_head? hm rest h.2, decodeHead_encodeHead hm hn]
  rfl

/-- The break ends an indefinite-length array. -/
theorem settle_break (rest : List UInt8) :
    settle none (0xff :: rest) = some ⟨some 0, none, rest⟩ := rfl

/-- An indefinite-length array at the start of the input. -/
theorem start_array (rest : List UInt8) :
    start (0x9f :: rest) = some ⟨some 1, some ⟨4, none⟩, rest⟩ := rfl

theorem settle_encodeString {left : Option Nat} {major : Nat} {s : List UInt8}
    (hl : left ≠ some 0) (hm : major < 7) (hs : s.length < 2 ^ 64) (rest : List UInt8) :
    settle left (encodeString major s ++ rest) =
      some ⟨left, some ⟨major, some s.length⟩, s ++ rest⟩ := by
  rw [encodeString, List.append_assoc]
  exact settle_encodeHead hl hm hs (s ++ rest)

theorem string_encoded {left : Option Nat} {major : Nat} (hm : major = 2 ∨ major = 3)
    (s rest : List UInt8) :
    (⟨left, some ⟨major, some s.length⟩, s ++ rest⟩ : Cursor).string = some (s, rest) := by
  simp only [string, hm, if_true, readString]
  exact splitBytes_exact s rest

/-- A string that has been read is skipped. -/
theorem skip_of_string {major : Nat} {c c' : Cursor} {s rest : List UInt8} (hm : major ≠ 0)
    (his : c.is major = true) (hs : c.string = some (s, rest)) (hn : c.next rest = some c') :
    c.skip = some c' := by
  have hint : ¬ c.is 0 = true := by
    intro h0
    unfold is at his h0
    rcases hc : c.head with _ | hd
    · rw [hc] at his
      simp at his
    · rw [hc] at his h0
      simp only [Option.any_some, beq_iff_eq] at his h0
      omega
  rw [skip, if_neg hint, hs]
  exact hn

theorem items_of_enterArray {limit : Nat} {c c' : Cursor} (h : c.enterArray limit = some c') :
    c.items = some c' := by
  unfold enterArray at h
  unfold items
  split at h
  next heq =>
    rw [heq]
    exact h
  next n heq =>
    split_ifs at h
    rw [heq]
    exact h
  next => simp at h

theorem enterArray_append {limit : Nat} {c c' : Cursor} (x : List UInt8)
    (h : c.enterArray limit = some c') :
    (c.extend x).enterArray limit = some (c'.extend x) := by
  unfold enterArray at h ⊢
  rw [extend_head, extend_body]
  split at h
  · exact settle_append x h
  · split_ifs at h ⊢
    exact settle_append x h
  · simp at h

theorem string_append {c : Cursor} {s rest : List UInt8} (x : List UInt8)
    (h : c.string = some (s, rest)) : (c.extend x).string = some (s, rest ++ x) := by
  unfold string at h ⊢
  rw [extend_head, extend_body]
  split at h
  · split_ifs at h ⊢
    exact readString_append x h
  · simp at h

theorem skip_append {c c' : Cursor} (x : List UInt8) (h : c.skip = some c') :
    (c.extend x).skip = some (c'.extend x) := by
  unfold skip at h ⊢
  rw [extend_is]
  split_ifs at h ⊢
  · exact settle_append x h
  · simp only [Option.bind_eq_some_iff, Prod.exists] at h ⊢
    obtain ⟨s, rest, hs, hn⟩ := h
    exact ⟨s, rest ++ x, string_append x hs, settle_append x hn⟩

end Cursor

/-! ## Bounded output -/

/-- An output buffer: its capacity, and what has been written so far. -/
structure Writer where
  capacity : Nat
  out : List UInt8
  deriving DecidableEq, Repr

namespace Writer

/-- Append, if it fits. -/
def put (bs : List UInt8) (w : Writer) : Option Writer :=
  if w.out.length + bs.length ≤ w.capacity then some { w with out := w.out ++ bs } else none

theorem put_eq {bs : List UInt8} {w w' : Writer} :
    w.put bs = some w' ↔
      w.out.length + bs.length ≤ w.capacity ∧ w' = { w with out := w.out ++ bs } := by
  unfold put
  split_ifs with h <;> simp [h, eq_comm]

end Writer

end Cbor
