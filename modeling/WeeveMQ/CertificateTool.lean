/-
  WeeveMQ.CertificateTool

  The decoder of hex text in the certificate tool (`WeeveCertificateTool.c`).

  A hex text of some bytes writes each byte as two digits and may have other
  characters anywhere.  The loop keeps the first digit of a byte until the
  second one comes:

  - `loop_spec`: what the loop has written and what it has left after any text.
  - `hex2Buffer_eq`: the result for every text, inside the allocation.
  - `decodesHex_iff`: it is the decoded text, except where the text ends behind
    an unpaired digit: there the loop variable is used once more, and it holds
    the last character of the text, whatever that is.
-/

import WeeveMQ.WosSpec

namespace WeeveMQ

/-! ## Hex text -/

/-- `c` is the digit of value `d`, in either case. -/
def WritesDigit (d c : UInt8) : Prop :=
  (ascii "0123456789ABCDEF")[d.toNat]? = some c ∨ (ascii "0123456789abcdef")[d.toNat]? = some c

instance (d c : UInt8) : Decidable (WritesDigit d c) := by
  unfold WritesDigit
  infer_instance

/-- The text writes these digits, with other characters anywhere. -/
inductive DigitText : List UInt8 → Bytes → Prop
  | nil : DigitText [] []
  | digit {d c ds text} (written : WritesDigit d c) (rest : DigitText ds text) :
      DigitText (d :: ds) (c :: text)
  | other {c ds text} (noDigit : ∀ d, ¬ WritesDigit d c) (rest : DigitText ds text) :
      DigitText ds (c :: text)

/-- High and low half of a byte. -/
def nibbles (b : UInt8) : List UInt8 := [b >>> 4, b &&& 0xF]

/-- The text writes every byte as two digits. -/
def HexText (b text : Bytes) : Prop := DigitText (b.flatMap nibbles) text

/-- The text writes every byte as two digits, and one more digit. -/
def TrailingHexText (b : Bytes) (d : UInt8) (text : Bytes) : Prop :=
  DigitText (b.flatMap nibbles ++ [d]) text

/-- The one byte a trailing digit stands for: both halves are the digit, as in a text that
    ends in it. -/
def trailingByte (d : UInt8) : UInt8 := d <<< 4 ||| d

/-! ## `hex2Buffer` -/

/-- The branches of the loop; `none` is a character it skips. -/
def hexDigitValue (c : UInt8) : Option UInt8 :=
  if 48 ≤ c ∧ c ≤ 57 then some (c - 48)
  else if 97 ≤ c ∧ c ≤ 102 then some (c - 97 + 10)
  else if 65 ≤ c ∧ c ≤ 70 then some (c - 65 + 10)
  else none

/-- The variables of the loop, and the memory it writes. -/
structure HexLoop where
  hexValue : UInt32
  byte : UInt8
  flagInsideByte : Bool
  j : Nat
  data : Bytes
  deriving DecidableEq, Repr

namespace HexLoop

/-- Complete a byte and write it at `j`; outside of the allocation this has no result. -/
def put (s : HexLoop) : Option HexLoop :=
  let hexValue := (s.hexValue <<< 4) ||| (s.byte &&& 0xF).toUInt32
  if s.j < s.data.length then
    some { s with hexValue := hexValue, data := s.data.set s.j hexValue.toUInt8, j := s.j + 1 }
  else none

/-- One round, for the character `c`. -/
def step (s : HexLoop) (c : UInt8) : Option HexLoop :=
  match hexDigitValue c with
  -- skipped, but `byte` holds it
  | none => some { s with byte := c }
  | some digit =>
      let s := { s with byte := digit }
      if s.flagInsideByte then do
        let s ← s.put
        return { s with flagInsideByte := false }
      else some { s with hexValue := (s.byte &&& 0xF).toUInt32, flagInsideByte := true }

end HexLoop

/-- The buffer `hex2Buffer` makes of a string, where `fresh` is what the memory
    it is given holds at first. -/
def hex2Buffer (fresh : Nat → UInt8) (hexString : WosString) : Option Bytes :=
  let length := wosStringLength hexString % 2 ^ 32
  -- `int i` cannot count further
  if 2 ^ 31 ≤ length then none
  else do
    let s ← ((stringContent hexString).take length).foldlM HexLoop.step
      { hexValue := 0, byte := 0, flagInsideByte := false, j := 0,
        data := (List.range (length / 2 + 1)).map fresh }
    let s ← if s.flagInsideByte then s.put else some s
    return s.data.take s.j

/-- `hex2Storage`: the user enters the text, and the id of the entry it is for. -/
def hex2Storage (env : Env) (fresh : Nat → UInt8) (hexString : WosString)
    (storageId : StorageId) : Call KeyStore WosStorageError Unit := do
  let buffer ← Call.ofOutcome ((hex2Buffer fresh hexString).map .ok)
  wosStorageWrite env storageId buffer

/-! ## Digits -/

/-- The digits of a text, in the order the loop sees them. -/
def digitsOf (text : Bytes) : List UInt8 := text.filterMap hexDigitValue

theorem low_toNat (b : UInt8) : (b &&& 0xF).toNat = b.toNat % 16 := by
  rw [UInt8.toNat_and]
  exact Nat.and_two_pow_sub_one_eq_mod b.toNat 4

theorem high_toNat (b : UInt8) : (b >>> 4).toNat = b.toNat / 16 := by
  rw [UInt8.toNat_shiftRight]
  exact Nat.shiftRight_eq_div_pow b.toNat 4

/-- Two halves side by side. -/
theorem join_toNat {high low : UInt8} (hhigh : high.toNat < 16) (hlow : low.toNat < 16) :
    (high <<< 4 ||| low).toNat = 16 * high.toNat + low.toNat := by
  have hshift : (high <<< 4).toNat = high.toNat <<< 4 := by
    rw [UInt8.toNat_shiftLeft]
    show high.toNat <<< 4 % 256 = _
    rw [Nat.shiftLeft_eq]
    omega
  rw [UInt8.toNat_or, hshift, ← Nat.shiftLeft_add_eq_or_of_lt hlow, Nat.shiftLeft_eq]
  omega

/-- The three ranges of digits, and the value in each. -/
theorem hexDigitValue_cases {c d : UInt8} (h : hexDigitValue c = some d) :
    (48 ≤ c.toNat ∧ c.toNat ≤ 57 ∧ d.toNat = c.toNat - 48) ∨
      (97 ≤ c.toNat ∧ c.toNat ≤ 102 ∧ d.toNat = c.toNat - 97 + 10) ∨
      65 ≤ c.toNat ∧ c.toNat ≤ 70 ∧ d.toNat = c.toNat - 65 + 10 := by
  have hsub : ∀ {first : UInt8}, first ≤ c → (c - first).toNat = c.toNat - first.toNat :=
    fun hle => UInt8.toNat_sub_of_le _ _ hle
  unfold hexDigitValue at h
  by_cases hnumber : 48 ≤ c ∧ c ≤ 57
  · rw [if_pos hnumber, Option.some.injEq] at h
    obtain ⟨hfrom, hto⟩ := hnumber
    rw [← h, hsub hfrom]
    exact .inl ⟨UInt8.le_iff_toNat_le.mp hfrom, UInt8.le_iff_toNat_le.mp hto, rfl⟩
  rw [if_neg hnumber] at h
  by_cases hlower : 97 ≤ c ∧ c ≤ 102
  · rw [if_pos hlower, Option.some.injEq] at h
    obtain ⟨hfrom, hto⟩ := hlower
    have hfrom' : 97 ≤ c.toNat := UInt8.le_iff_toNat_le.mp hfrom
    have hto' : c.toNat ≤ 102 := UInt8.le_iff_toNat_le.mp hto
    have hvalue : d.toNat = (c.toNat - 97 + 10) % 256 := by
      rw [← h, UInt8.toNat_add, hsub hfrom]
      rfl
    exact .inr (.inl ⟨hfrom', hto', by omega⟩)
  rw [if_neg hlower] at h
  by_cases hupper : 65 ≤ c ∧ c ≤ 70
  · rw [if_pos hupper, Option.some.injEq] at h
    obtain ⟨hfrom, hto⟩ := hupper
    have hfrom' : 65 ≤ c.toNat := UInt8.le_iff_toNat_le.mp hfrom
    have hto' : c.toNat ≤ 70 := UInt8.le_iff_toNat_le.mp hto
    have hvalue : d.toNat = (c.toNat - 65 + 10) % 256 := by
      rw [← h, UInt8.toNat_add, hsub hfrom]
      rfl
    exact .inr (.inr ⟨hfrom', hto', by omega⟩)
  · rw [if_neg hupper] at h
    cases h

theorem hexDigitValue_eq_some {c d : UInt8} : hexDigitValue c = some d ↔ WritesDigit d c := by
  constructor
  · intro h
    have hnumbers : ∀ n : Fin 10, (ascii "0123456789ABCDEF")[n.val]? =
        some (UInt8.ofNat (n + 48)) := by decide
    have hlower : ∀ n : Fin 6, (ascii "0123456789abcdef")[n.val + 10]? =
        some (UInt8.ofNat (n + 97)) := by decide
    have hupper : ∀ n : Fin 6, (ascii "0123456789ABCDEF")[n.val + 10]? =
        some (UInt8.ofNat (n + 65)) := by decide
    rcases hexDigitValue_cases h with ⟨hfrom, hto, hd⟩ | ⟨hfrom, hto, hd⟩ | ⟨hfrom, hto, hd⟩
    · have hc := hnumbers ⟨c.toNat - 48, by omega⟩
      rw [Nat.sub_add_cancel hfrom, UInt8.ofNat_toNat] at hc
      rw [WritesDigit, hd]
      exact .inl hc
    · have hc := hlower ⟨c.toNat - 97, by omega⟩
      rw [Nat.sub_add_cancel hfrom, UInt8.ofNat_toNat] at hc
      rw [WritesDigit, hd]
      exact .inr hc
    · have hc := hupper ⟨c.toNat - 65, by omega⟩
      rw [Nat.sub_add_cancel hfrom, UInt8.ofNat_toNat] at hc
      rw [WritesDigit, hd]
      exact .inl hc
  · intro h
    have hupper : ∀ n : Fin 16, ((ascii "0123456789ABCDEF")[n.val]?.bind hexDigitValue) =
        some (UInt8.ofNat n) := by decide
    have hlower : ∀ n : Fin 16, ((ascii "0123456789abcdef")[n.val]?.bind hexDigitValue) =
        some (UInt8.ofNat n) := by decide
    rcases h with h | h
    · have hlt : d.toNat < 16 := (List.getElem?_eq_some_iff.mp h).1
      have hd := hupper ⟨d.toNat, hlt⟩
      rw [h, UInt8.ofNat_toNat] at hd
      exact hd
    · have hlt : d.toNat < 16 := (List.getElem?_eq_some_iff.mp h).1
      have hd := hlower ⟨d.toNat, hlt⟩
      rw [h, UInt8.ofNat_toNat] at hd
      exact hd

theorem hexDigitValue_eq_none {c : UInt8} : hexDigitValue c = none ↔ ∀ d, ¬ WritesDigit d c := by
  rw [Option.eq_none_iff_forall_ne_some]
  simp only [ne_eq, hexDigitValue_eq_some]

theorem toNat_lt_of_low {b : UInt8} (h : b &&& 0xF = b) : b.toNat < 16 := by
  rw [← h, low_toNat]
  omega

/-- A digit has no high half. -/
theorem digit_low {c d : UInt8} (h : hexDigitValue c = some d) : d &&& 0xF = d := by
  apply UInt8.toNat_inj.mp
  rw [low_toNat]
  rcases hexDigitValue_cases h with ⟨_, _, _⟩ | ⟨_, _, _⟩ | ⟨_, _, _⟩ <;> omega

theorem digitText_iff {ds : List UInt8} {text : Bytes} :
    DigitText ds text ↔ digitsOf text = ds := by
  constructor
  · intro h
    -- on how the text was written
    induction h with
    | nil => rfl
    | digit written rest ih =>
        rw [digitsOf, List.filterMap_cons_some (hexDigitValue_eq_some.mpr written)]
        exact congrArg _ ih
    | other noDigit rest ih =>
        rw [digitsOf, List.filterMap_cons_none (hexDigitValue_eq_none.mpr noDigit)]
        exact ih
  · rintro rfl
    -- on the text: every character is a digit or it is none
    induction text with
    | nil => exact .nil
    | cons c text ih =>
        cases hc : hexDigitValue c with
        | none =>
            rw [digitsOf, List.filterMap_cons_none hc]
            exact .other (hexDigitValue_eq_none.mp hc) ih
        | some d =>
            rw [digitsOf, List.filterMap_cons_some hc]
            exact .digit (hexDigitValue_eq_some.mp hc) ih

/-! ## Pairs of digits -/

/-- The bytes of a sequence of digits, and the digit that is left over. -/
def pairUp : List UInt8 → Bytes × Option UInt8
  | [] => ([], none)
  | [d] => ([], some d)
  | high :: low :: ds => ((high <<< 4 ||| low) :: (pairUp ds).1, (pairUp ds).2)

theorem join_nibbles (b : UInt8) : (b >>> 4) <<< 4 ||| (b &&& 0xF) = b := by
  have hlt := b.toNat_lt
  have hhigh := high_toNat b
  have hlow := low_toNat b
  apply UInt8.toNat_inj.mp
  rw [join_toNat (by omega) (by omega), hhigh, hlow]
  omega

theorem pairUp_flatMap_append (b : Bytes) (ds : List UInt8) :
    pairUp (b.flatMap nibbles ++ ds) = (b ++ (pairUp ds).1, (pairUp ds).2) := by
  induction b with
  | nil => rfl
  | cons x b ih =>
      rw [List.flatMap_cons, List.append_assoc]
      show pairUp (x >>> 4 :: (x &&& 0xF) :: (b.flatMap nibbles ++ ds)) = _
      rw [pairUp, ih, join_nibbles]
      rfl

theorem pairUp_length (ds : List UInt8) : (pairUp ds).1.length = ds.length / 2 := by
  fun_induction pairUp ds with
  | case1 => rfl
  | case2 d => simp
  | case3 high low ds ih =>
      rw [List.length_cons, ih, List.length_cons, List.length_cons]
      omega

/-- Later digits are paired with the one left over. -/
theorem pairUp_append (ds es : List UInt8) :
    pairUp (ds ++ es) = ((pairUp ds).1 ++ (pairUp ((pairUp ds).2.toList ++ es)).1,
      (pairUp ((pairUp ds).2.toList ++ es)).2) := by
  -- the two first cases have less than a pair in front
  fun_induction pairUp ds with
  | case1 => rfl
  | case2 d => rfl
  | case3 high low ds ih =>
      show pairUp (high :: low :: (ds ++ es)) = _
      rw [pairUp, ih]
      rfl

theorem pairUp_rest (ds : List UInt8) : (pairUp ds).2.toList.length = ds.length % 2 := by
  fun_induction pairUp ds with
  | case1 => rfl
  | case2 d => rfl
  | case3 high low ds ih =>
      show (pairUp ds).2.toList.length = _
      rw [ih, List.length_cons, List.length_cons]
      omega

/-! ## The loop -/

namespace HexLoop

/-- The first digit of a byte that is not complete yet. -/
def pending (s : HexLoop) : List UInt8 :=
  if s.flagInsideByte then [s.hexValue.toUInt8] else []

/-- The bytes written so far. -/
def written (s : HexLoop) : Bytes := s.data.take s.j

theorem completed_toUInt8 (hexValue : UInt32) (byte : UInt8) :
    ((hexValue <<< 4) ||| (byte &&& 0xF).toUInt32).toUInt8 =
      hexValue.toUInt8 <<< 4 ||| (byte &&& 0xF) := by
  rw [UInt32.toUInt8_or, UInt32.toUInt8_shiftLeft _ _ (by decide), UInt8.toUInt8_toUInt32]
  rfl

theorem put_of_lt {s : HexLoop} (h : s.j < s.data.length) :
    ∃ t, s.put = some t ∧ t.written = s.written ++ [s.hexValue.toUInt8 <<< 4 ||| (s.byte &&& 0xF)] ∧
      t.j = s.j + 1 ∧ t.data.length = s.data.length ∧ t.byte = s.byte := by
  refine ⟨_, if_pos h, ?_, rfl, List.length_set, rfl⟩
  show (s.data.set s.j _).take (s.j + 1) = s.data.take s.j ++ _
  rw [completed_toUInt8, List.take_succ_eq_append_getElem (by rw [List.length_set]; exact h),
    List.getElem_set_self, List.take_set_of_le (Nat.le_refl _)]

/-- What one round does, for a character that is a digit and for one that is not. -/
theorem step_spec {s : HexLoop} {c : UInt8}
    (hroom : s.j + (s.pending.length + (digitsOf [c]).length) / 2 ≤ s.data.length) :
    ∃ t, s.step c = some t ∧ t.data.length = s.data.length ∧
      t.written = s.written ++ (pairUp (s.pending ++ digitsOf [c])).1 ∧
      t.j = s.j + (pairUp (s.pending ++ digitsOf [c])).1.length ∧
      t.pending = (pairUp (s.pending ++ digitsOf [c])).2.toList ∧
      t.byte = (hexDigitValue c).getD c := by
  cases hc : hexDigitValue c with
  -- a character that is no digit is only kept in `byte`
  | none =>
      have hdigits : digitsOf [c] = [] := List.filterMap_cons_none hc
      have hpair : pairUp s.pending = ([], s.pending.head?) := by
        unfold pending
        cases s.flagInsideByte <;> rfl
      refine ⟨{ s with byte := c }, by rw [step, hc], rfl, ?_⟩
      rw [hdigits, List.append_nil, hpair, List.append_nil]
      refine ⟨rfl, rfl, ?_, rfl⟩
      show s.pending = _
      unfold pending
      cases s.flagInsideByte <;> rfl
  | some d =>
      have hdigits : digitsOf [c] = [d] := List.filterMap_cons_some hc
      have hd := digit_low hc
      rw [hdigits] at hroom ⊢
      cases hflag : s.flagInsideByte with
      | false =>
          -- the first digit of a byte is kept
          have hpending : s.pending = [] := by rw [pending, hflag]; rfl
          rw [hpending]
          refine ⟨{ s with byte := d, hexValue := (d &&& 0xF).toUInt32, flagInsideByte := true },
            by simp only [step, hc, hflag]; rfl, rfl, (List.append_nil _).symm, rfl, ?_, rfl⟩
          show [((d &&& 0xF).toUInt32).toUInt8] = [d]
          rw [UInt8.toUInt8_toUInt32, hd]
      | true =>
          -- the second one completes it
          have hpending : s.pending = [s.hexValue.toUInt8] := by rw [pending, hflag]; rfl
          rw [hpending] at hroom ⊢
          obtain ⟨t, hput, hwritten, hj, hlen, hbyte⟩ := put_of_lt (s := { s with byte := d })
            (by simpa [Nat.succ_le_iff] using hroom)
          rw [hflag] at hput
          refine ⟨{ t with flagInsideByte := false }, ?_, hlen, ?_, hj, rfl, hbyte⟩
          · simp only [step, hc, hflag, if_true]
            rw [hput]
            rfl
          · show t.written = _
            rw [hwritten]
            show s.written ++ [s.hexValue.toUInt8 <<< 4 ||| (d &&& 0xF)] = _
            rw [hd]
            rfl

/-- `byte` behind a text: the value of its last character if that is a digit,
    and the character itself otherwise. -/
def lastByte (byte : UInt8) (text : Bytes) : UInt8 :=
  text.foldl (fun _ c => (hexDigitValue c).getD c) byte

/-- The loop over any text, from any state that has room for its digits.
    Induction on the text. -/
theorem loop_spec {text : Bytes} {s : HexLoop}
    (hroom : s.j + (s.pending.length + (digitsOf text).length) / 2 ≤ s.data.length) :
    ∃ t, text.foldlM step s = some t ∧ t.data.length = s.data.length ∧
      t.written = s.written ++ (pairUp (s.pending ++ digitsOf text)).1 ∧
      t.j = s.j + (pairUp (s.pending ++ digitsOf text)).1.length ∧
      t.pending = (pairUp (s.pending ++ digitsOf text)).2.toList ∧
      t.byte = lastByte s.byte text := by
  induction text generalizing s with
  | nil =>
      refine ⟨s, rfl, rfl, ?_⟩
      have hpair : pairUp (s.pending ++ digitsOf []) = ([], s.pending.head?) := by
        unfold pending
        cases s.flagInsideByte <;> rfl
      rw [hpair, List.append_nil]
      refine ⟨rfl, rfl, ?_, rfl⟩
      unfold pending
      cases s.flagInsideByte <;> rfl
  | cons c text ih =>
      have hsplit : digitsOf (c :: text) = digitsOf [c] ++ digitsOf text :=
        List.filterMap_append (l := [c])
      rw [hsplit, List.length_append] at hroom
      obtain ⟨t, hstep, hlen, hwritten, hj, hpending, hbyte⟩ := step_spec (s := s) (c := c)
        (by omega)
      -- what is written and what is left over make up the digits so far
      have hrest : t.pending.length = (s.pending ++ digitsOf [c]).length % 2 := by
        rw [hpending, pairUp_rest]
      have hfirst := pairUp_length (s.pending ++ digitsOf [c])
      rw [List.length_append] at hrest hfirst
      -- the allocation has room for the digits that come
      obtain ⟨u, hloop, hlenᵤ, hwrittenᵤ, hjᵤ, hpendingᵤ, hbyteᵤ⟩ := ih (s := t) (by omega)
      refine ⟨u, ?_, hlenᵤ.trans hlen, ?_⟩
      · rw [List.foldlM_cons, hstep]
        exact hloop
      rw [hsplit, ← List.append_assoc, pairUp_append, ← hpending, List.length_append]
      refine ⟨?_, ?_, hpendingᵤ, ?_⟩
      · rw [hwrittenᵤ, hwritten, List.append_assoc]
      · rw [hjᵤ, hj, Nat.add_assoc]
      · rw [hbyteᵤ, hbyte]
        rfl

end HexLoop

/-! ## The result -/

section Result

variable {fresh : Nat → UInt8} {text : WosString} {b : Bytes} {c d : UInt8}

/-- Of every text the complete bytes are written, and behind them the digit
    that is left over, joined with the low half of the loop variable. -/
theorem hex2Buffer_eq (hlen : wosStringLength text < 2 ^ 31) :
    hex2Buffer fresh text = some ((pairUp (digitsOf (stringContent text))).1 ++
      (pairUp (digitsOf (stringContent text))).2.toList.map fun d : UInt8 =>
        d <<< 4 ||| (HexLoop.lastByte 0 (stringContent text) &&& 0xF)) := by
  have hmod : wosStringLength text % 2 ^ 32 = wosStringLength text := by omega
  have htake : (stringContent text).take (wosStringLength text) = stringContent text :=
    List.take_length
  have hdigits : (digitsOf (stringContent text)).length ≤ wosStringLength text :=
    List.length_filterMap_le _ _
  unfold hex2Buffer
  rw [hmod, if_neg (by omega), htake]
  -- `s` is the state in front of the loop: nothing pending and nothing written
  obtain ⟨s, hs⟩ : ∃ s : HexLoop, s =
      { hexValue := 0, byte := 0, flagInsideByte := false, j := 0,
        data := (List.range (wosStringLength text / 2 + 1)).map fresh } := ⟨_, rfl⟩
  rw [← hs]
  have hpending : s.pending = [] := by rw [hs]; rfl
  have hroom : s.data.length = wosStringLength text / 2 + 1 := by
    rw [hs, List.length_map, List.length_range]
  have hj : s.j = 0 := by rw [hs]
  have hbyte : s.byte = 0 := by rw [hs]
  have hwritten : s.written = [] := by rw [HexLoop.written, hj, List.take_zero]
  have hfits : s.j + (s.pending.length + (digitsOf (stringContent text)).length) / 2 ≤
      s.data.length := by
    rw [hpending, List.length_nil]
    omega
  obtain ⟨t, hloop, hlenₜ, hwrittenₜ, hjₜ, hpendingₜ, hbyteₜ⟩ := HexLoop.loop_spec hfits
  rw [hpending, List.nil_append] at hwrittenₜ hjₜ hpendingₜ
  rw [hwritten, List.nil_append] at hwrittenₜ
  rw [hj, Nat.zero_add, pairUp_length] at hjₜ
  rw [hloop]
  show (if t.flagInsideByte = true then t.put.bind fun u => some (u.data.take u.j)
    else some (t.data.take t.j)) = _
  -- behind the loop a digit is left over or not
  cases hflag : t.flagInsideByte with
  | false =>
      have hnone : t.pending = [] := by rw [HexLoop.pending, hflag]; rfl
      rw [if_neg (by decide), ← hpendingₜ, hnone, List.map_nil, List.append_nil]
      exact congrArg some hwrittenₜ
  | true =>
      have hone : t.pending = [t.hexValue.toUInt8] := by rw [HexLoop.pending, hflag]; rfl
      obtain ⟨u, hput, hwrittenᵤ, -⟩ := HexLoop.put_of_lt (s := t) (by omega)
      rw [if_pos rfl, hput, ← hpendingₜ, hone, ← hbyte, ← hbyteₜ]
      exact congrArg some (hwrittenᵤ.trans (by rw [hwrittenₜ]; rfl))

theorem hex2Buffer_hexText (hlen : wosStringLength text < 2 ^ 31)
    (h : HexText b (stringContent text)) : hex2Buffer fresh text = some b := by
  have hdigits : digitsOf (stringContent text) = b.flatMap nibbles ++ [] := by
    rw [digitText_iff.mp h, List.append_nil]
  rw [hex2Buffer_eq hlen, hdigits, pairUp_flatMap_append]
  exact congrArg some ((List.append_nil _).trans (List.append_nil _))

/-- What is stored for a hex text is the bytes it writes. -/
theorem hex2Storage_hexText {env : Env} {storageId : StorageId} {store store' : KeyStore}
    {u : Unit} (hlen : wosStringLength text < 2 ^ 31) (h : HexText b (stringContent text))
    (hstored : hex2Storage env fresh text storageId store = some (.ok u, store')) :
    store' = Function.update store storageId (some b) := by
  obtain ⟨buffer, _, hbuffer, hwrite⟩ := Call.bind_ok.mp hstored
  rw [hex2Buffer_hexText hlen h] at hbuffer
  obtain ⟨hb, rfl⟩ := Call.ofOutcome_eq.mp hbuffer
  obtain ⟨-, -, -, hstore⟩ := wosStorageWrite_ok.mp hwrite
  rw [hstore, ← Except.ok.inj (Option.some.inj hb)]

theorem hex2Buffer_trailing (hlen : wosStringLength text < 2 ^ 31)
    (h : TrailingHexText b d (stringContent text)) :
    hex2Buffer fresh text =
      some (b ++ [d <<< 4 ||| (HexLoop.lastByte 0 (stringContent text) &&& 0xF)]) := by
  have hdigits : digitsOf (stringContent text) = b.flatMap nibbles ++ [d] := digitText_iff.mp h
  rw [hex2Buffer_eq hlen, hdigits, pairUp_flatMap_append]
  show some ((b ++ []) ++ [_]) = _
  rw [List.append_nil]

/-- The loop variable at the end holds the trailing digit only if nothing
    comes behind it. -/
theorem lastByte_of_getLast {content : Bytes} (h : TrailingHexText b d content)
    (hlast : content.getLast? = some c) :
    HexLoop.lastByte 0 content &&& 0xF = if WritesDigit d c then d else c &&& 0xF := by
  obtain ⟨front, rfl⟩ := List.getLast?_eq_some_iff.mp hlast
  have hbyte : HexLoop.lastByte 0 (front ++ [c]) = (hexDigitValue c).getD c := by
    rw [HexLoop.lastByte, List.foldl_append]
    rfl
  rw [hbyte]
  cases hc : hexDigitValue c with
  | none => rw [if_neg (hexDigitValue_eq_none.mp hc d), Option.getD_none]
  | some e =>
      -- a last character that is a digit is the trailing one
      have hdigits := digitText_iff.mp h
      rw [digitsOf, List.filterMap_append, List.filterMap_cons_some hc, List.filterMap_nil] at hdigits
      have hed : e = d := List.singleton_inj.mp (List.append_inj' hdigits rfl).2
      rw [hed] at hc
      rw [if_pos (hexDigitValue_eq_some.mp hc), Option.getD_some, hed, digit_low hc]

theorem trailingByte_join_iff {low : UInt8} (hd : d &&& 0xF = d) (hlow : low &&& 0xF = low) :
    d <<< 4 ||| low = trailingByte d ↔ low = d := by
  have hdlt := toNat_lt_of_low hd
  have hlowlt := toNat_lt_of_low hlow
  unfold trailingByte
  -- both halves are below 16, so the high half tells nothing
  rw [← UInt8.toNat_inj, ← UInt8.toNat_inj, join_toNat hdlt hlowlt, join_toNat hdlt hdlt]
  omega

theorem trailing_clean_iff {content : Bytes} (h : TrailingHexText b d content)
    (hlast : content.getLast? = some c) :
    d <<< 4 ||| (HexLoop.lastByte 0 content &&& 0xF) = trailingByte d ↔
      WritesDigit d c ∨ c &&& 0xF = d := by
  have hd : d &&& 0xF = d := by
    have hmem : d ∈ digitsOf content := by
      rw [digitText_iff.mp h]
      exact List.mem_append_right _ (List.mem_singleton_self d)
    obtain ⟨digit, -, hdigit⟩ := List.mem_filterMap.mp hmem
    exact digit_low hdigit
  rw [trailingByte_join_iff hd (by rw [UInt8.and_assoc, UInt8.and_self]), lastByte_of_getLast h hlast]
  by_cases hc : WritesDigit d c
  · rw [if_pos hc]
    exact iff_of_true rfl (.inl hc)
  · rw [if_neg hc, or_iff_right hc]

theorem TrailingHexText.exists_last {content : Bytes} (h : TrailingHexText b d content) :
    ∃ c, content.getLast? = some c := by
  cases hlast : content.getLast? with
  | some c => exact ⟨c, rfl⟩
  | none =>
      have hdigits := digitText_iff.mp h
      rw [List.getLast?_eq_none_iff.mp hlast] at hdigits
      exact absurd hdigits.symm (by simp [digitsOf])

/-- `hex2Buffer` decodes this string: it returns, the bytes of a hex text are
    what it returns, and a digit that is left over adds its one byte, whatever
    stands behind it. -/
def DecodesHex (fresh : Nat → UInt8) (text : WosString) : Prop :=
  (hex2Buffer fresh text).isSome ∧
    (∀ b, HexText b (stringContent text) → hex2Buffer fresh text = some b) ∧
    ∀ b d, TrailingHexText b d (stringContent text) →
      hex2Buffer fresh text = some (b ++ [trailingByte d])

/-- The last character of a text with a digit left over is that digit, or its
    low half is. -/
def TrailingClean (content : Bytes) : Prop :=
  ∀ b d c, TrailingHexText b d content → content.getLast? = some c →
    WritesDigit d c ∨ c &&& 0xF = d

/-- Every string is decoded inside the allocation; it is decoded correctly
    exactly if it does not end behind an unpaired digit in a character whose low
    half is another one. -/
theorem decodesHex_iff (hlen : wosStringLength text < 2 ^ 31) :
    (hex2Buffer fresh text).isSome ∧
      (DecodesHex fresh text ↔ TrailingClean (stringContent text)) := by
  have hsome : (hex2Buffer fresh text).isSome := by
    rw [hex2Buffer_eq hlen]
    exact Option.isSome_some
  refine ⟨hsome, ?_⟩
  constructor
  · rintro ⟨-, -, htrailing⟩ b d c h hlast
    have hv := htrailing b d h
    rw [hex2Buffer_trailing hlen h, Option.some.injEq, List.append_right_inj,
      List.singleton_inj] at hv
    exact (trailing_clean_iff h hlast).mp hv
  · intro hclean
    refine ⟨hsome, fun b h => hex2Buffer_hexText hlen h, fun b d h => ?_⟩
    obtain ⟨c, hlast⟩ := h.exists_last
    rw [hex2Buffer_trailing hlen h, (trailing_clean_iff h hlast).mpr (hclean b d c h hlast)]

/-- The layout of `printBuffer`, with two digits kept apart behind it, and with a digit
    left over. -/
theorem decodesHex_iff_printed :
    DecodesHex (fun _ => 0) (ascii "0A fF 1:c") ∧
      hex2Buffer (fun _ => 0) (ascii "0A fF 1:c") = some [0x0A, 0xFF, 0x1C] ∧
      DecodesHex (fun _ => 0) (ascii "0A fF C") ∧
      hex2Buffer (fun _ => 0) (ascii "0A fF C") = some [0x0A, 0xFF, 0xCC] := by
  have hpaired : TrailingClean (stringContent (ascii "0A fF 1:c")) := by
    intro b d c h
    have hdigits := congrArg List.length (digitText_iff.mp h)
    have hsix : (digitsOf (stringContent (ascii "0A fF 1:c"))).length = 6 := by decide
    have hbytes : (b.flatMap nibbles).length = 2 * b.length := by
      rw [List.length_flatMap]
      simp [nibbles, List.map_const', Nat.mul_comm]
    rw [hsix, List.length_append, List.length_singleton] at hdigits
    omega
  have hlast : TrailingClean (stringContent (ascii "0A fF C")) := by
    intro b d c h hlast
    have hdigits := digitText_iff.mp h
    have hfive : digitsOf (stringContent (ascii "0A fF C")) = [0, 10, 15, 15] ++ [12] := by decide
    rw [hfive] at hdigits
    obtain rfl : (12 : UInt8) = d := List.singleton_inj.mp (List.append_inj' hdigits rfl).2
    have hc : (stringContent (ascii "0A fF C")).getLast? = some 67 := by decide
    rw [hc] at hlast
    obtain rfl := Option.some.inj hlast
    exact .inl (by decide)
  exact ⟨(decodesHex_iff (by decide)).2.mpr hpaired, by decide,
    (decodesHex_iff (by decide)).2.mpr hlast, by decide⟩

/-- Of the text "1:" the digit is joined with the low half of the colon. -/
theorem separator_decoded_as_digit :
    hex2Buffer (fun _ => 0) (ascii "1:") = some [0x1A] ∧
      ¬ DecodesHex (fun _ => 0) (ascii "1:") := by
  have hresult : hex2Buffer (fun _ => 0) (ascii "1:") = some [0x1A] := by decide
  refine ⟨hresult, ?_⟩
  rintro ⟨-, -, htrailing⟩
  have hdigit := htrailing [] 1 (digitText_iff.mpr (by decide))
  rw [hresult] at hdigit
  exact absurd hdigit (by decide)

end Result

end WeeveMQ
