/-
  WeeveMQ.Utf8

  `mosquitto_validate_utf8` of `utf8_mosq.c`.

  The check walks over the bytes with one index for the sequences and for the
  bytes inside of them; reading behind the memory it is given has no result.

  - `mosquittoValidateUtf8_iff`: it accepts exactly the encodings of characters other
    than NUL, up to 65536 bytes, and stays inside of a string with its terminator.
-/

import WeeveMQ.Types

namespace WeeveMQ

/-! ## The check -/

inductive Utf8Error where
  | inval
  | malformed
  deriving DecidableEq, Repr

/-- By the first byte of a sequence, its length and the bits it starts the code point with. -/
def utf8First (b : UInt8) : Option (Nat × Nat) :=
  if b = 0 then none
  else if b ≤ 0x7F then some (1, b.toNat)
  else if b &&& 0xE0 = 0xC0 then
    if b = 0xC0 ∨ b = 0xC1 then none else some (2, (b &&& 0x1F).toNat)
  else if b &&& 0xF0 = 0xE0 then some (3, (b &&& 0x0F).toNat)
  else if b &&& 0xF8 = 0xF0 then
    if b > 0xF4 then none else some (4, (b &&& 0x07).toNat)
  else none

/-- The loop over the `n` bytes behind the one at `i`: where it stops, and the code point. -/
def utf8Continue (ustr : Bytes) : Nat → Nat → Nat → Option (Except Utf8Error (Nat × Nat))
  | 0, i, codepoint => some (.ok (i, codepoint))
  | n + 1, i, codepoint =>
    match ustr[i + 1]? with
    | none => none
    | some b =>
      if b &&& 0xC0 ≠ 0x80 then some (.error .malformed)
      else utf8Continue ustr n (i + 1) ((codepoint <<< 6) ||| (b &&& 0x3F).toNat)

/-- The code points that are refused: surrogates, overlong and out of range ones. -/
def utf8Refuses (codelen codepoint : Nat) : Bool :=
  (codepoint ≥ 0xD800 && codepoint ≤ 0xDFFF) || (codelen = 2 && codepoint < 0x80) ||
    (codelen = 3 && codepoint < 0x800) ||
    (codelen = 4 && (codepoint < 0x10000 || codepoint > 0x10FFFF))

/-- The loop of `mosquitto_validate_utf8`; every round takes a byte. -/
def utf8Loop (ustr : Bytes) (len : Nat) : Nat → Nat → Option (Except Utf8Error Unit)
  | 0, _ => none
  | fuel + 1, i =>
    if i < len then
      match ustr[i]? with
      | none => none
      | some b =>
        match utf8First b with
        | none => some (.error .malformed)
        | some (codelen, codepoint) =>
          if (i : Int) = len - codelen + 1 then some (.error .malformed)
          else
            match utf8Continue ustr (codelen - 1) i codepoint with
            | none => none
            | some (.error e) => some (.error e)
            | some (.ok (j, codepoint)) =>
              if utf8Refuses codelen codepoint then some (.error .malformed)
              else utf8Loop ustr len fuel (j + 1)
    else some (.ok ())

/-- `mosquitto_validate_utf8` on the memory from `str` on. -/
def mosquittoValidateUtf8 (str : Bytes) (len : Nat) : Option (Except Utf8Error Unit) :=
  if len > 65536 then some (.error .inval) else utf8Loop str len (len + 1) 0

/-! ## Bytes as numbers -/

/-- `utf8First` by the value of the byte. -/
def firstOf (n : Nat) : Option (Nat × Nat) :=
  if n = 0 then none
  else if n ≤ 0x7F then some (1, n)
  else if n < 0xC2 then none
  else if n ≤ 0xDF then some (2, n - 0xC0)
  else if n ≤ 0xEF then some (3, n - 0xE0)
  else if n ≤ 0xF4 then some (4, n - 0xF0)
  else none

/-- A byte inside of a sequence. -/
def IsTail (b : UInt8) : Prop := 0x80 ≤ b.toNat ∧ b.toNat ≤ 0xBF

instance (b : UInt8) : Decidable (IsTail b) := inferInstanceAs (Decidable (_ ∧ _))

theorem utf8First_eq (b : UInt8) : utf8First b = firstOf b.toNat := by
  have hall : ∀ n : Fin 256, utf8First (UInt8.ofNat n) = firstOf n := by decide +kernel
  have hb := hall ⟨b.toNat, b.toNat_lt⟩
  rwa [UInt8.ofNat_toNat] at hb

theorem isTail_iff (b : UInt8) : IsTail b ↔ b &&& 0xC0 = 0x80 := by
  have hall : ∀ n : Fin 256, (0x80 ≤ n.val ∧ n.val ≤ 0xBF) ↔
      UInt8.ofNat n &&& 0xC0 = 0x80 := by decide +kernel
  have hb := hall ⟨b.toNat, b.toNat_lt⟩
  rwa [UInt8.ofNat_toNat] at hb

theorem tailBits (b : UInt8) : (b &&& 0x3F).toNat = b.toNat % 64 := by
  have hall : ∀ n : Fin 256, (UInt8.ofNat n &&& 0x3F).toNat = n.val % 64 := by decide +kernel
  have hb := hall ⟨b.toNat, b.toNat_lt⟩
  rwa [UInt8.ofNat_toNat] at hb

/-! ## One round -/

/-- The loop over the bytes of a sequence, on what is left of the memory. -/
def readTails : Nat → Nat → Bytes → Option (Except Utf8Error Nat)
  | 0, codepoint, _ => some (.ok codepoint)
  | _ + 1, _, [] => none
  | n + 1, codepoint, b :: rest =>
    if IsTail b then readTails n (codepoint * 64 + b.toNat % 64) rest
    else some (.error .malformed)

theorem utf8Continue_eq (n : Nat) :
    ∀ (front rest : Bytes) (i codepoint : Nat), front.length = i + 1 →
      utf8Continue (front ++ rest) n i codepoint =
        (readTails n codepoint rest).map fun r => r.map fun c => (i + n, c) := by
  induction n with
  | zero => exact fun _ _ _ _ _ => rfl
  | succ n ih =>
    intro front rest i codepoint hfront
    have hread : (front ++ rest)[i + 1]? = rest[0]? := by
      rw [List.getElem?_append_right (by omega), hfront, Nat.sub_self]
    rw [utf8Continue, hread]
    cases rest with
    | nil => rfl
    | cons b rest =>
      have hbits : (codepoint <<< 6) ||| (b &&& 0x3F).toNat = codepoint * 64 + b.toNat % 64 := by
        rw [tailBits, ← Nat.shiftLeft_add_eq_or_of_lt (by omega), Nat.shiftLeft_eq]
      have hnext := ih (front ++ [b]) rest (i + 1) (codepoint * 64 + b.toNat % 64)
        (by rw [List.length_append, hfront]; rfl)
      rw [List.append_assoc, List.singleton_append] at hnext
      show (if b &&& 0xC0 ≠ 0x80 then _ else _) = _
      rw [readTails, hbits, hnext]
      by_cases hb : IsTail b
      · rw [if_pos hb, if_neg (not_not.mpr ((isTail_iff b).mp hb)), Nat.add_right_comm]
        rfl
      · rw [if_neg hb, if_pos fun heq => hb ((isTail_iff b).mpr heq)]
        rfl

/-- What a round finds at the start of what is left. -/
def utf8Round (b : UInt8) (rest : Bytes) : Option (Except Utf8Error (Nat × Nat)) :=
  match firstOf b.toNat with
  | none => some (.error .malformed)
  | some (codelen, codepoint) =>
    if codelen = rest.length + 2 then some (.error .malformed)
    else
      match readTails (codelen - 1) codepoint (rest ++ [0]) with
      | none => none
      | some (.error e) => some (.error e)
      | some (.ok codepoint) =>
        if utf8Refuses codelen codepoint then some (.error .malformed)
        else some (.ok (codelen, codepoint))

theorem firstOf_pos {n codelen codepoint : Nat} (h : firstOf n = some (codelen, codepoint)) :
    0 < codelen := by
  rw [firstOf] at h
  split_ifs at h <;> obtain ⟨rfl, -⟩ := Prod.mk.inj (Option.some.inj h) <;> omega

theorem utf8Loop_eq (front : Bytes) (b : UInt8) (rest : Bytes) (fuel : Nat) :
    utf8Loop (front ++ (b :: rest ++ [0])) (front ++ b :: rest).length (fuel + 1) front.length =
      match utf8Round b rest with
      | none => none
      | some (.error e) => some (.error e)
      | some (.ok (codelen, _)) =>
        utf8Loop (front ++ (b :: rest ++ [0])) (front ++ b :: rest).length fuel
          (front.length + codelen) := by
  have hlength : (front ++ b :: rest).length = front.length + rest.length + 1 := by
    rw [List.length_append, List.length_cons]
    omega
  have hread : (front ++ (b :: rest ++ [0]))[front.length]? = some b := by
    rw [List.getElem?_append_right (Nat.le_refl _), Nat.sub_self]
    rfl
  rw [utf8Loop, if_pos (by omega), hread, utf8Round, ← utf8First_eq]
  dsimp only
  rcases hfirst : utf8First b with _ | ⟨codelen, codepoint⟩
  · rfl
  have hpos : 0 < codelen := firstOf_pos ((utf8First_eq b).symm.trans hfirst)
  dsimp only
  by_cases hshort : codelen = rest.length + 2
  · rw [if_pos hshort, if_pos (by omega)]
  · have htails := utf8Continue_eq (codelen - 1) (front ++ [b]) (rest ++ [0]) front.length codepoint
      (by rw [List.length_append]; rfl)
    rw [List.append_assoc, List.singleton_append] at htails
    rw [if_neg hshort, if_neg (by omega), List.cons_append, htails]
    rcases readTails (codelen - 1) codepoint (rest ++ [0]) with _ | (e | c)
    · rfl
    · rfl
    · show (if utf8Refuses codelen c then _ else _) = _
      have hnext : front.length + (codelen - 1) + 1 = front.length + codelen := by omega
      dsimp only
      split_ifs
      · rfl
      · rw [hnext]

/-! ## Sequences and characters -/

theorem utf8Refuses_iff {codelen codepoint : Nat} :
    utf8Refuses codelen codepoint = false ↔
      (codepoint < 0xD800 ∨ 0xDFFF < codepoint) ∧ (codelen = 2 → 0x80 ≤ codepoint) ∧
        (codelen = 3 → 0x800 ≤ codepoint) ∧
        (codelen = 4 → 0x10000 ≤ codepoint ∧ codepoint ≤ 0x10FFFF) := by
  rw [← Bool.not_eq_true, utf8Refuses]
  simp only [Bool.or_eq_true, Bool.and_eq_true, decide_eq_true_eq]
  omega

theorem toNat_ofNat_of_valid {n : Nat} (h : n.isValidChar) : (Char.ofNat n).val.toNat = n := by
  rw [Char.ofNat, dif_pos h]
  rfl

theorem ofNat_eq_byte {n : Nat} {b : UInt8} (h : n = b.toNat) : UInt8.ofNat n = b := by
  rw [h, UInt8.ofNat_toNat]

section Encodings

variable {c : Char} {b x y z : UInt8}

theorem encode_one (hc : c.val.toNat ≤ 0x7F) (hb : b.toNat = c.val.toNat) :
    String.utf8EncodeChar c = [b] := by
  rw [String.utf8EncodeChar, if_pos hc, ofNat_eq_byte hb.symm]

theorem encode_two (hlow : 0x80 ≤ c.val.toNat) (hhigh : c.val.toNat ≤ 0x7FF)
    (hb : b.toNat = c.val.toNat / 64 + 0xC0) (hx : x.toNat = c.val.toNat % 64 + 0x80) :
    String.utf8EncodeChar c = [b, x] := by
  have hfirst : c.val.toNat / 64 % 0x20 + 0xC0 = b.toNat := by omega
  rw [String.utf8EncodeChar, if_neg (by omega), if_pos hhigh, ofNat_eq_byte hfirst,
    ofNat_eq_byte hx.symm]

theorem encode_three (hlow : 0x800 ≤ c.val.toNat) (hhigh : c.val.toNat ≤ 0xFFFF)
    (hb : b.toNat = c.val.toNat / 4096 + 0xE0) (hx : x.toNat = c.val.toNat / 64 % 64 + 0x80)
    (hy : y.toNat = c.val.toNat % 64 + 0x80) : String.utf8EncodeChar c = [b, x, y] := by
  have hfirst : c.val.toNat / 4096 % 0x10 + 0xE0 = b.toNat := by omega
  rw [String.utf8EncodeChar, if_neg (by omega), if_neg (by omega), if_pos hhigh,
    ofNat_eq_byte hfirst, ofNat_eq_byte hx.symm, ofNat_eq_byte hy.symm]

theorem encode_four (hlow : 0x10000 ≤ c.val.toNat) (hhigh : c.val.toNat ≤ 0x10FFFF)
    (hb : b.toNat = c.val.toNat / 262144 + 0xF0)
    (hx : x.toNat = c.val.toNat / 4096 % 64 + 0x80) (hy : y.toNat = c.val.toNat / 64 % 64 + 0x80)
    (hz : z.toNat = c.val.toNat % 64 + 0x80) : String.utf8EncodeChar c = [b, x, y, z] := by
  have hfirst : c.val.toNat / 262144 % 0x08 + 0xF0 = b.toNat := by omega
  rw [String.utf8EncodeChar, if_neg (by omega), if_neg (by omega), if_neg (by omega),
    ofNat_eq_byte hfirst, ofNat_eq_byte hx.symm, ofNat_eq_byte hy.symm, ofNat_eq_byte hz.symm]

end Encodings

theorem firstOf_cases {n codelen codepoint : Nat} (h : firstOf n = some (codelen, codepoint)) :
    codelen = 1 ∧ 1 ≤ n ∧ n ≤ 0x7F ∧ codepoint = n ∨
      codelen = 2 ∧ 0xC2 ≤ n ∧ n ≤ 0xDF ∧ codepoint = n - 0xC0 ∨
      codelen = 3 ∧ 0xE0 ≤ n ∧ n ≤ 0xEF ∧ codepoint = n - 0xE0 ∨
      codelen = 4 ∧ 0xF0 ≤ n ∧ n ≤ 0xF4 ∧ codepoint = n - 0xF0 := by
  rw [firstOf] at h
  split_ifs at h <;> obtain ⟨rfl, rfl⟩ := Prod.mk.inj (Option.some.inj h) <;> omega

/-- A tail is read, or what is read is refused. -/
theorem readTails_ok {n codepoint v : Nat} {rest : Bytes}
    (h : readTails (n + 1) codepoint (rest ++ [0]) = some (.ok v)) :
    ∃ x rest', rest = x :: rest' ∧ IsTail x ∧
      readTails n (codepoint * 64 + x.toNat % 64) (rest' ++ [0]) = some (.ok v) := by
  cases rest with
  | nil => exact absurd h (by simp [readTails, IsTail])
  | cons x rest' =>
    rw [List.cons_append, readTails] at h
    split_ifs at h with hx
    · exact ⟨x, rest', rfl, hx, h⟩
    · cases h

theorem char_of_valid {n : Nat} (h : n < 0xD800 ∨ 0xDFFF < n) (hmax : n ≤ 0x10FFFF) :
    ∃ c : Char, c.val.toNat = n := by
  refine ⟨Char.ofNat n, toNat_ofNat_of_valid ?_⟩
  rw [Nat.isValidChar]
  omega

/-- A sequence that a round accepts is the encoding of its code point. -/
theorem utf8Round_sound {b : UInt8} {rest : Bytes} {codelen codepoint : Nat}
    (h : utf8Round b rest = some (.ok (codelen, codepoint))) :
    ∃ (c : Char) (rest' : Bytes), c.val.toNat = codepoint ∧ codepoint ≠ 0 ∧
      b :: rest = String.utf8EncodeChar c ++ rest' ∧ codelen = (String.utf8EncodeChar c).length := by
  rw [utf8Round] at h
  rcases hfirst : firstOf b.toNat with _ | ⟨n, cp⟩
  · rw [hfirst] at h
    cases h
  rw [hfirst] at h
  dsimp only at h
  split_ifs at h with hshort
  · cases h
  rcases htails : readTails (n - 1) cp (rest ++ [0]) with _ | (e | v)
  · rw [htails] at h
    cases h
  · rw [htails] at h
    cases h
  rw [htails] at h
  dsimp only at h
  split_ifs at h with hrefused
  · cases h
  obtain ⟨rfl, rfl⟩ := Prod.mk.inj (Except.ok.inj (Option.some.inj h))
  obtain ⟨hvalid, h₂, h₃, h₄⟩ := utf8Refuses_iff.mp (Bool.not_eq_true _ ▸ hrefused)
  -- by the length that the first byte announces
  rcases firstOf_cases hfirst with ⟨hn, hlow, hhigh, hcp⟩ | ⟨hn, hlow, hhigh, hcp⟩ |
    ⟨hn, hlow, hhigh, hcp⟩ | ⟨hn, hlow, hhigh, hcp⟩ <;> subst hn
  · -- one byte
    obtain rfl := Except.ok.inj (Option.some.inj htails)
    obtain ⟨c, hc⟩ := char_of_valid hvalid (by omega)
    have henc := encode_one (c := c) (b := b) (by omega) (by omega)
    exact ⟨c, rest, hc, by omega, by rw [henc]; rfl, by rw [henc]; rfl⟩
  · obtain ⟨x, rest, rfl, hx, htails⟩ := readTails_ok htails
    obtain rfl := Except.ok.inj (Option.some.inj htails)
    obtain ⟨c, hc⟩ := char_of_valid hvalid (by omega)
    rw [IsTail] at hx
    have henc := encode_two (c := c) (b := b) (x := x) (by omega) (by omega) (by omega) (by omega)
    exact ⟨c, rest, hc, by omega, by rw [henc]; rfl, by rw [henc]; rfl⟩
  · obtain ⟨x, rest, rfl, hx, htails⟩ := readTails_ok htails
    obtain ⟨y, rest, rfl, hy, htails⟩ := readTails_ok htails
    obtain rfl := Except.ok.inj (Option.some.inj htails)
    obtain ⟨c, hc⟩ := char_of_valid hvalid (by omega)
    rw [IsTail] at hx hy
    have hmin := h₃ rfl
    have henc := encode_three (c := c) (b := b) (x := x) (y := y) (by omega) (by omega) (by omega)
      (by omega) (by omega)
    exact ⟨c, rest, hc, by omega, by rw [henc]; rfl, by rw [henc]; rfl⟩
  · obtain ⟨x, rest, rfl, hx, htails⟩ := readTails_ok htails
    obtain ⟨y, rest, rfl, hy, htails⟩ := readTails_ok htails
    obtain ⟨z, rest, rfl, hz, htails⟩ := readTails_ok htails
    obtain rfl := Except.ok.inj (Option.some.inj htails)
    obtain ⟨hmin, hmax⟩ := h₄ rfl
    obtain ⟨c, hc⟩ := char_of_valid hvalid hmax
    rw [IsTail] at hx hy hz
    have henc := encode_four (c := c) (b := b) (x := x) (y := y) (z := z) (by omega) (by omega)
      (by omega) (by omega) (by omega) (by omega)
    exact ⟨c, rest, hc, by omega, by rw [henc]; rfl, by rw [henc]; rfl⟩

theorem readTails_cons {n codepoint : Nat} {x : UInt8} {rest : Bytes} (hx : IsTail x) :
    readTails (n + 1) codepoint (x :: rest) = readTails n (codepoint * 64 + x.toNat % 64) rest :=
  if_pos hx

/-- What a round does with a sequence whose bytes fit. -/
theorem utf8Round_of {b : UInt8} {rest : Bytes} {codelen v : Nat} (codepoint : Nat)
    (hfirst : firstOf b.toNat = some (codelen, codepoint)) (hlong : codelen ≤ rest.length + 1)
    (htails : readTails (codelen - 1) codepoint (rest ++ [0]) = some (.ok v))
    (hrefuses : utf8Refuses codelen v = false) : utf8Round b rest = some (.ok (codelen, v)) := by
  rw [utf8Round, hfirst]
  dsimp only
  rw [if_neg (by omega), htails]
  dsimp only
  rw [if_neg (by rw [hrefuses]; exact Bool.false_ne_true)]

theorem byte_toNat {n : Nat} (h : n < 256) : (UInt8.ofNat n).toNat = n := by
  rw [UInt8.toNat_ofNat']
  exact Nat.mod_eq_of_lt h

/-- The encoding of a character is accepted. -/
theorem utf8Round_complete {b : UInt8} {rest rest' : Bytes} {c : Char} (hc : c.val.toNat ≠ 0)
    (h : b :: rest = String.utf8EncodeChar c ++ rest') :
    utf8Round b rest = some (.ok ((String.utf8EncodeChar c).length, c.val.toNat)) := by
  have hvalid : c.val.toNat < 0xD800 ∨ 0xDFFF < c.val.toNat ∧ c.val.toNat < 0x110000 := c.valid
  -- by the length of the encoding: the checks of each length are about just these
  -- characters
  by_cases hone : c.val.toNat ≤ 0x7F
  · have hb := byte_toNat (n := c.val.toNat) (by omega)
    rw [encode_one hone hb] at h ⊢
    obtain ⟨rfl, rfl⟩ := List.cons.inj h
    apply utf8Round_of _ _ (Nat.le_add_left _ _) rfl
    · show utf8Refuses 1 c.val.toNat = false
      rw [utf8Refuses_iff]
      omega
    · rw [hb, firstOf, if_neg hc, if_pos hone]
  -- the first byte brings the high bits, every tail six more
  by_cases htwo : c.val.toNat ≤ 0x7FF
  · have hb := byte_toNat (n := c.val.toNat / 64 + 0xC0) (by omega)
    have hx := byte_toNat (n := c.val.toNat % 64 + 0x80) (by omega)
    rw [encode_two (by omega) htwo hb hx] at h ⊢
    obtain ⟨rfl, rfl⟩ := List.cons.inj h
    apply utf8Round_of (c.val.toNat / 64) _ (by simp)
    · show readTails 1 _ (_ :: (rest' ++ [0])) = _
      rw [readTails_cons ⟨by omega, by omega⟩, readTails, hx]
      exact congrArg (some ∘ Except.ok) (by omega)
    · show utf8Refuses 2 c.val.toNat = false
      rw [utf8Refuses_iff]
      omega
    · rw [hb, firstOf, if_neg (by omega), if_neg (by omega), if_neg (by omega), if_pos (by omega),
        Nat.add_sub_cancel]
      rfl
  by_cases hthree : c.val.toNat ≤ 0xFFFF
  · have hb := byte_toNat (n := c.val.toNat / 4096 + 0xE0) (by omega)
    have hx := byte_toNat (n := c.val.toNat / 64 % 64 + 0x80) (by omega)
    have hy := byte_toNat (n := c.val.toNat % 64 + 0x80) (by omega)
    rw [encode_three (by omega) hthree hb hx hy] at h ⊢
    obtain ⟨rfl, rfl⟩ := List.cons.inj h
    apply utf8Round_of (c.val.toNat / 4096) _ (by simp)
    · show readTails 2 _ (_ :: _ :: (rest' ++ [0])) = _
      rw [readTails_cons ⟨by omega, by omega⟩, readTails_cons ⟨by omega, by omega⟩, readTails, hx, hy]
      exact congrArg (some ∘ Except.ok) (by omega)
    · show utf8Refuses 3 c.val.toNat = false
      rw [utf8Refuses_iff]
      omega
    · rw [hb, firstOf, if_neg (by omega), if_neg (by omega), if_neg (by omega), if_neg (by omega),
        if_pos (by omega), Nat.add_sub_cancel]
      rfl
  · have hb := byte_toNat (n := c.val.toNat / 262144 + 0xF0) (by omega)
    have hx := byte_toNat (n := c.val.toNat / 4096 % 64 + 0x80) (by omega)
    have hy := byte_toNat (n := c.val.toNat / 64 % 64 + 0x80) (by omega)
    have hz := byte_toNat (n := c.val.toNat % 64 + 0x80) (by omega)
    rw [encode_four (by omega) (by omega) hb hx hy hz] at h ⊢
    obtain ⟨rfl, rfl⟩ := List.cons.inj h
    apply utf8Round_of (c.val.toNat / 262144) _ (by simp)
    · show readTails 3 _ (_ :: _ :: _ :: (rest' ++ [0])) = _
      rw [readTails_cons ⟨by omega, by omega⟩, readTails_cons ⟨by omega, by omega⟩,
        readTails_cons ⟨by omega, by omega⟩, readTails, hx, hy, hz]
      exact congrArg (some ∘ Except.ok) (by omega)
    · show utf8Refuses 4 c.val.toNat = false
      rw [utf8Refuses_iff]
      omega
    · rw [hb, firstOf, if_neg (by omega), if_neg (by omega), if_neg (by omega), if_neg (by omega),
        if_neg (by omega), if_pos (by omega), Nat.add_sub_cancel]
      rfl

/-- The terminator is no tail, so nothing behind it is read. -/
theorem readTails_ne_none (n : Nat) :
    ∀ (codepoint : Nat) (rest : Bytes), readTails n codepoint (rest ++ [0]) ≠ none := by
  induction n with
  | zero => exact fun _ _ => Option.some_ne_none _
  | succ n ih =>
    intro codepoint rest
    cases rest with
    | nil =>
      rw [List.nil_append, readTails, if_neg (by decide)]
      exact Option.some_ne_none _
    | cons x rest =>
      rw [List.cons_append, readTails]
      split_ifs
      · exact ih _ _
      · exact Option.some_ne_none _

theorem utf8Round_ne_none (b : UInt8) (rest : Bytes) : utf8Round b rest ≠ none := by
  rw [utf8Round]
  rcases firstOf b.toNat with _ | ⟨n, cp⟩
  · exact Option.some_ne_none _
  dsimp only
  split_ifs
  · exact Option.some_ne_none _
  have htails := readTails_ne_none (n - 1) cp rest
  rcases hread : readTails (n - 1) cp (rest ++ [0]) with _ | (e | v)
  · exact absurd hread htails
  · exact Option.some_ne_none _
  · dsimp only
    split_ifs
    · exact Option.some_ne_none _
    · exact Option.some_ne_none _

/-! ## Strings -/

/-- The bytes are characters without NUL, encoded one behind the other. -/
def IsUtf8 (s : Bytes) : Prop :=
  ∃ cs : List Char, (∀ c ∈ cs, c ≠ '\x00') ∧ s = cs.flatMap String.utf8EncodeChar

theorem encode_cons (c : Char) : ∃ b rest, String.utf8EncodeChar c = b :: rest := by
  rw [String.utf8EncodeChar]
  split_ifs
  · exact ⟨_, _, rfl⟩
  · exact ⟨_, _, rfl⟩
  · exact ⟨_, _, rfl⟩
  · exact ⟨_, _, rfl⟩

theorem toNat_ne_zero {c : Char} (hc : c ≠ '\x00') : c.val.toNat ≠ 0 := by
  intro hzero
  apply hc
  apply Char.ext
  exact UInt32.toNat_inj.mp hzero

/-- No encoding starts another one. -/
theorem isUtf8_cons {c : Char} {rest : Bytes} (hc : c ≠ '\x00') :
    IsUtf8 (String.utf8EncodeChar c ++ rest) ↔ IsUtf8 rest := by
  constructor
  · rintro ⟨cs, hcs, heq⟩
    obtain ⟨b, t, hb⟩ := encode_cons c
    have hstart : b :: (t ++ rest) = String.utf8EncodeChar c ++ rest := by rw [hb]; rfl
    cases cs with
    | nil =>
      rw [hb] at heq
      exact absurd heq (List.cons_ne_nil _ _)
    | cons c' cs =>
      -- a round finds the same character in both
      rw [List.flatMap_cons] at heq
      have h₁ := utf8Round_complete (toNat_ne_zero hc) hstart
      have h₂ := utf8Round_complete (toNat_ne_zero (hcs c' List.mem_cons_self)) (hstart.trans heq)
      rw [h₁] at h₂
      have hval := (Prod.mk.inj (Except.ok.inj (Option.some.inj h₂))).2
      obtain rfl : c = c' := Char.ext (UInt32.toNat_inj.mp hval)
      exact ⟨cs, fun c hc => hcs c (List.mem_cons_of_mem _ hc), List.append_cancel_left heq⟩
  · rintro ⟨cs, hcs, rfl⟩
    refine ⟨c :: cs, ?_, rfl⟩
    intro c' hc'
    rcases List.mem_cons.mp hc' with rfl | hc'
    · exact hc
    · exact hcs c' hc'

/-- The loop from where what is left starts. -/
theorem utf8Loop_iff (fuel : Nat) :
    ∀ front rest : Bytes, rest.length < fuel →
      ∃ r, utf8Loop (front ++ (rest ++ [0])) (front ++ rest).length fuel front.length = some r ∧
        (r = .ok () ↔ IsUtf8 rest) := by
  induction fuel with
  | zero => exact fun _ _ h => absurd h (Nat.not_lt_zero _)
  | succ fuel ih =>
    intro front rest hfuel
    cases rest with
    | nil =>
      refine ⟨.ok (), ?_, iff_of_true rfl ⟨[], List.forall_mem_nil _, rfl⟩⟩
      rw [utf8Loop, if_neg (by rw [List.append_nil]; exact Nat.lt_irrefl _)]
    | cons b rest =>
      rw [utf8Loop_eq]
      rcases hround : utf8Round b rest with _ | (e | ⟨codelen, codepoint⟩)
      · exact absurd hround (utf8Round_ne_none b rest)
      · refine ⟨.error e, rfl, iff_of_false (by simp) ?_⟩
        rintro ⟨cs, hcs, heq⟩
        cases cs with
        | nil => exact List.cons_ne_nil _ _ heq
        | cons c cs =>
          rw [List.flatMap_cons] at heq
          have hok := utf8Round_complete (toNat_ne_zero (hcs c List.mem_cons_self)) heq
          rw [hround] at hok
          cases hok
      · obtain ⟨c, rest', hcode, hzero, hsplit, rfl⟩ := utf8Round_sound hround
        have hc : c ≠ '\x00' := by
          rintro rfl
          exact hzero hcode.symm
        have hlength := congrArg List.length hsplit
        rw [List.length_cons, List.length_append] at hlength
        rw [List.length_cons] at hfuel
        have hpos : 0 < (String.utf8EncodeChar c).length := by
          obtain ⟨b', t, hb'⟩ := encode_cons c
          rw [hb']
          exact Nat.succ_pos _
        obtain ⟨r, hr, hiff⟩ := ih (front ++ String.utf8EncodeChar c) rest' (by omega)
        refine ⟨r, ?_, ?_⟩
        · dsimp only
          rw [hsplit, ← hr, List.length_append]
          simp only [List.append_assoc, List.length_append]
        · rw [hsplit, isUtf8_cons hc]
          exact hiff

/-- A topic is accepted exactly when it is UTF-8 without NUL and not too long, and the check reads
    nothing behind the terminator. -/
theorem mosquittoValidateUtf8_iff (s : Bytes) :
    ∃ r, mosquittoValidateUtf8 (s ++ [0]) s.length = some r ∧
      (r = .ok () ↔ s.length ≤ 65536 ∧ IsUtf8 s) := by
  rw [mosquittoValidateUtf8]
  split_ifs with hlong
  · refine ⟨_, rfl, iff_of_false (by simp) ?_⟩
    omega
  · obtain ⟨r, hr, hiff⟩ := utf8Loop_iff (s.length + 1) [] s (Nat.lt_succ_self _)
    refine ⟨r, hr, hiff.trans ?_⟩
    rw [and_iff_right (by omega)]

end WeeveMQ
