/-
  WeeveMQ.WosMemory

  The comparison in constant time of `wosMemoryLibC.c`, on which the tag check
  of `wosCryptoAeDecrypt` rests.

  - `wosMemComparisonConstTime_eq`: 0 for equal arrays and 1 for all others.
  - `tagCheck_iff`: the check the decryption makes of a tag accepts the tag it
    computed and no other, which is how `wosCryptoAeDecrypt` has it in the model.
-/

import WeeveMQ.Wos

namespace WeeveMQ

/-! ## `wosMemoryLibC.c` -/

/-- `ret |= x`: the operands are promoted to `int`, and the result is cut to a byte. -/
def orByte (ret : UInt8) (x : Nat) : UInt8 := UInt8.ofNat (ret.toNat ||| x)

/-- The loop over the arrays, at index `i` with `rounds` indices to go; a read
    behind the end of an array has no result. -/
def accumulateDifference (first second : Bytes) : (rounds i : Nat) → UInt8 → Option UInt8
  | 0, _, ret => some ret
  | rounds + 1, i, ret => do
      let a ← first[i]?
      let b ← second[i]?
      accumulateDifference first second rounds (i + 1) (orByte ret (a.toNat ^^^ b.toNat))

/-- "Reduces difference to only one bit." -/
def reduceDifference (ret : UInt8) : UInt8 :=
  let ret := orByte ret (ret.toNat >>> 4)
  let ret := orByte ret (ret.toNat >>> 2)
  let ret := orByte ret (ret.toNat >>> 1)
  UInt8.ofNat (ret.toNat &&& 1)

/-- A buffer of `none` is a null pointer. -/
def wosMemComparisonConstTime (pFirstBuffer pSecondBuffer : Option Bytes) (len : Nat) :
    Option UInt8 :=
  match pFirstBuffer, pSecondBuffer with
  | some first, some second => (accumulateDifference first second len 0 0).map reduceDifference
  | _, _ => some 1

/-- How `wosCryptoAeDecrypt` compares the tag it computed with the one received. -/
def tagCheck (tagAux tag : Bytes) : Bool :=
  tagAux.length = tag.length ∧
    wosMemComparisonConstTime (some tag) (some tagAux) tagAux.length = some 0

/-! ## The loop -/

theorem orByte_toNat (ret : UInt8) {x : Nat} (hx : x < 256) :
    (orByte ret x).toNat = ret.toNat ||| x := by
  have hlt : ret.toNat ||| x < 2 ^ 8 := Nat.or_lt_two_pow ret.toNat_lt hx
  rw [orByte, UInt8.toNat_ofNat', Nat.mod_eq_of_lt hlt]

/-- A difference once found stays, and equal bytes add none. -/
theorem orByte_xor_eq_zero (ret a b : UInt8) :
    orByte ret (a.toNat ^^^ b.toNat) = 0 ↔ ret = 0 ∧ a = b := by
  have hxor : a.toNat ^^^ b.toNat < 256 := Nat.xor_lt_two_pow (n := 8) a.toNat_lt b.toNat_lt
  have hbyte : a.toNat ^^^ b.toNat = 0 ↔ a = b := by
    rw [← UInt8.toNat_xor, ← UInt8.toNat_zero, UInt8.toNat_inj, UInt8.xor_eq_zero_iff]
  have hret : ret.toNat = 0 ↔ ret = 0 := by
    rw [← UInt8.toNat_zero, UInt8.toNat_inj]
  rw [← UInt8.toNat_inj, orByte_toNat ret hxor, UInt8.toNat_zero, Nat.or_eq_zero_iff, hbyte,
    hret]

/-- What the rest of the loop finds, from index `i` on.  Induction on the rounds left. -/
theorem accumulateDifference_spec {first second : Bytes} {rounds i : Nat} (ret : UInt8)
    (hfirst : i + rounds ≤ first.length) (hsecond : i + rounds ≤ second.length) :
    ∃ difference, accumulateDifference first second rounds i ret = some difference ∧
      (difference = 0 ↔ ret = 0 ∧ ∀ k, i ≤ k → k < i + rounds → first[k]? = second[k]?) := by
  induction rounds generalizing i ret with
  | zero =>
      refine ⟨ret, rfl, ?_⟩
      constructor
      · intro h
        exact ⟨h, fun k hk hlt => by omega⟩
      · exact fun h => h.1
  | succ rounds ih =>
      obtain ⟨x, hx⟩ : ∃ x, first[i]? = some x := ⟨_, List.getElem?_eq_getElem (by omega)⟩
      obtain ⟨y, hy⟩ : ∃ y, second[i]? = some y := ⟨_, List.getElem?_eq_getElem (by omega)⟩
      obtain ⟨difference, hrun, hzero⟩ := ih (i := i + 1) (orByte ret (x.toNat ^^^ y.toNat))
        (by omega) (by omega)
      refine ⟨difference, ?_, ?_⟩
      · rw [accumulateDifference, hx, hy]
        exact hrun
      rw [hzero, orByte_xor_eq_zero]
      constructor
      · rintro ⟨⟨hret, heq⟩, hrest⟩
        refine ⟨hret, fun k hk hlt => ?_⟩
        by_cases hki : k = i
        · rw [hki, hx, hy, heq]
        · exact hrest k (by omega) (by omega)
      · rintro ⟨hret, hall⟩
        have hi := hall i (by omega) (by omega)
        rw [hx, hy, Option.some.injEq] at hi
        exact ⟨⟨hret, hi⟩, fun k hk hlt => hall k (by omega) (by omega)⟩

/-! ## The result -/

/-- After the three shifts the lowest bit is the disjunction of all eight. -/
theorem reduceDifference_eq (difference : UInt8) :
    reduceDifference difference = if difference = 0 then 0 else 1 := by
  have hall : ∀ n : Fin 256,
      reduceDifference (UInt8.ofNat n) = if UInt8.ofNat n = 0 then 0 else 1 := by
    decide +kernel
  have h := hall ⟨difference.toNat, difference.toNat_lt⟩
  rw [UInt8.ofNat_toNat] at h
  exact h

theorem comparison_eq {n : Nat} {a b : Bytes} (ha : a.length = n) (hb : b.length = n) :
    wosMemComparisonConstTime (some a) (some b) n = some (if a = b then 0 else 1) := by
  have hfirst : 0 + n ≤ a.length := by omega
  have hsecond : 0 + n ≤ b.length := by omega
  obtain ⟨difference, hrun, hzero⟩ := accumulateDifference_spec 0 hfirst hsecond
  have heq : difference = 0 ↔ a = b := by
    rw [hzero]
    constructor
    · rintro ⟨-, hall⟩
      apply List.ext_getElem?
      intro k
      by_cases hk : k < n
      · exact hall k (Nat.zero_le k) (by omega)
      · rw [List.getElem?_eq_none (by omega), List.getElem?_eq_none (by omega)]
    · rintro rfl
      exact ⟨rfl, fun _ _ _ => rfl⟩
  rw [wosMemComparisonConstTime, hrun, Option.map_some, reduceDifference_eq]
  simp only [heq]

/-- For arrays of any length the result is 0 if they are equal and 1 otherwise;
    in between, no difference that is not 0 is reduced to 0. -/
theorem wosMemComparisonConstTime_eq {n : Nat} {a b : Bytes} (ha : a.length = n)
    (hb : b.length = n) :
    wosMemComparisonConstTime (some a) (some b) n = some (if a = b then 0 else 1) ∧
      ∀ difference, difference ≠ 0 → reduceDifference difference ≠ 0 := by
  refine ⟨comparison_eq ha hb, fun difference hne => ?_⟩
  rw [reduceDifference_eq, if_neg hne]
  decide

/-- Two arrays that differ in the highest bit of their last byte. -/
theorem wosMemComparisonConstTime_eq_last :
    wosMemComparisonConstTime (some [0, 255, 128]) (some [0, 255, 0]) 3 = some 1 :=
  (wosMemComparisonConstTime_eq (n := 3) rfl rfl).1

/-! ## The tag of a decryption -/

theorem tagCheck_iff {tagAux tag : Bytes} : tagCheck tagAux tag = true ↔ tagAux = tag := by
  rw [tagCheck, decide_eq_true_eq]
  constructor
  · rintro ⟨hlen, hzero⟩
    rw [comparison_eq hlen.symm rfl, Option.some.injEq] at hzero
    by_cases heq : tag = tagAux
    · exact heq.symm
    · rw [if_neg heq] at hzero
      cases hzero
  · rintro rfl
    refine ⟨rfl, ?_⟩
    rw [comparison_eq rfl rfl, if_pos rfl]

/-- The decryption of the model is the one that compares the tags this way. -/
theorem wosCryptoAeDecrypt_eq (env : Env) (symKeyStorageId : StorageId)
    (cipherText aad iv tag : Bytes) :
    wosCryptoAeDecrypt env symKeyStorageId cipherText aad iv tag = (do
      Call.failIf (symKeyStorageId = [] ∨ iv = [] ∨ tag = []) .badParams
      let secretKey ← cryptoStorage (wosStorageRead env symKeyStorageId)
      Call.failIf (secretKey.length ≠ WOS_CRYPTO_AE_AES256_KEY_LENGTH) .storage
      let (plainText, tagAux) ← Call.ofExcept
        (tomcrypt (env.gcmDecrypt secretKey iv aad cipherText))
      Call.failIf (tagCheck tagAux tag = false) .error
      return plainText) := by
  have hcheck : ∀ tagAux, (Call.failIf (tagCheck tagAux tag = false) .error :
      Call KeyStore WosCryptoError Unit) = Call.failIf (tagAux ≠ tag) .error := by
    intro tagAux
    funext store
    unfold Call.failIf
    by_cases heq : tagAux = tag
    · rw [if_neg (by simp [tagCheck_iff.mpr heq]), if_neg (by simp [heq])]
    · rw [if_pos (by rw [← Bool.not_eq_true, tagCheck_iff]; exact heq), if_pos heq]
  simp only [hcheck]
  rfl

end WeeveMQ
