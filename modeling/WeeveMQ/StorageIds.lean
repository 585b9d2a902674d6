/-
  WeeveMQ.StorageIds

  The session context as the bytes it takes in memory, and the generator of
  storage ids writing into it.

  The generator writes 32 characters, no terminator, and a zero at index 33,
  which is behind the field.  That is harmless for the calls the library makes:
  the context was zeroed, and the ids are generated in the order of their
  fields, so the byte behind the field is zero already.

  - `generate_changesOnly_iff`: in general, a call changes nothing but its field
    exactly if the byte behind the field is zero.
  - `ids_well_formed`: the three ids after a successful initialization, and the
    frame of each of its three calls.
  - `initialise_abstracts`: read field by field, the bytes are the context of
    `smpInitialiseSessionParams`.
-/

import WeeveMQ.SmpSpec

namespace WeeveMQ

open Call

/-! ## Layout -/

/-- The data models the library is built for: pointers of four or of eight bytes. -/
inductive DataModel where
  | ilp32
  | lp64
  deriving DecidableEq, Repr

def DataModel.pointerSize : DataModel → Nat
  | .ilp32 => 4
  | .lp64 => 8

/-- The members of `SmpSessionContext_t`. -/
inductive ContextField where
  | clientId
  | isPreSessionSecretsGenerated
  | isSessionKeyEstablished
  | pStorageContext
  | sessionPrivateKeyStorageId
  | sessionPublicKeyStorageId
  | sessionSharedKeyStorageId
  | pEccOptions
  | pAeadOptions
  | toBeSentMessageId
  | lastReceivedMessageId
  | selfPrivKeyStorageId
  | selfCertChainStorageId
  | selfCertChainSize
  | rootCaStorageId
  deriving DecidableEq, Repr

/-- `SMP_INTERNAL_ID_LENGTH`. -/
def SMP_INTERNAL_ID_LENGTH : Nat := 0x20

namespace ContextField

/-- In the order of the declaration. -/
def all : List ContextField :=
  [clientId, isPreSessionSecretsGenerated, isSessionKeyEstablished, pStorageContext,
    sessionPrivateKeyStorageId, sessionPublicKeyStorageId, sessionSharedKeyStorageId, pEccOptions,
    pAeadOptions, toBeSentMessageId, lastReceivedMessageId, selfPrivKeyStorageId,
    selfCertChainStorageId, selfCertChainSize, rootCaStorageId]

variable (m : DataModel)

def size : ContextField → Nat
  | clientId => WCL_SMP_CLIENT_ID_LENGTH + 1
  | isPreSessionSecretsGenerated | isSessionKeyEstablished | selfCertChainSize => 1
  | sessionPrivateKeyStorageId | sessionPublicKeyStorageId | sessionSharedKeyStorageId =>
      SMP_INTERNAL_ID_LENGTH + 1
  | toBeSentMessageId | lastReceivedMessageId => 4
  | pStorageContext | pEccOptions | pAeadOptions | selfPrivKeyStorageId | selfCertChainStorageId
  | rootCaStorageId => m.pointerSize

/-- Arrays of characters stand anywhere, numbers and pointers at multiples of their size. -/
def alignment (f : ContextField) : Nat :=
  match f with
  | clientId | sessionPrivateKeyStorageId | sessionPublicKeyStorageId
  | sessionSharedKeyStorageId => 1
  | f => f.size m

def alignUp (n a : Nat) : Nat := (n + a - 1) / a * a

/-- Where `f` starts if the given members are laid out from `start` on. -/
def offsetFrom (f : ContextField) : List ContextField → (start : Nat) → Nat
  | [], start => start
  | g :: gs, start =>
      if g = f then alignUp start (g.alignment m)
      else offsetFrom f gs (alignUp start (g.alignment m) + g.size m)

/-- `offsetof(SmpSessionContext_t, f)`. -/
def offset (f : ContextField) : Nat := offsetFrom m f all 0

end ContextField

/-- `sizeof(SmpSessionContext_t)`. -/
def sizeofContext (m : DataModel) : Nat :=
  ContextField.alignUp
    (ContextField.rootCaStorageId.offset m + ContextField.rootCaStorageId.size m) m.pointerSize

/-- The bytes of a context, by their distance from its start. -/
abbrev ContextBytes := Nat → UInt8

section Generator

variable (m : DataModel) (env : Env)

/-- Write one byte; outside of the context this has no result. -/
def writeByte (i : Nat) (v : UInt8) (ctx : ContextBytes) : Option ContextBytes :=
  if i < sizeofContext m then some (Function.update ctx i v) else none

/-- The loop of `smpUtilsGen32CharRandomId`: both digits of each random byte. -/
def writeHexDigits : (randData : Bytes) → (i : Nat) → ContextBytes → Option ContextBytes
  | [], _, ctx => some ctx
  | b :: randData, i, ctx => do
      let ctx ← writeByte m i ((ascii "0123456789ABCDEF").getD ((b >>> 4) &&& 0xF).toNat 0) ctx
      let ctx ← writeByte m (i + 1) ((ascii "0123456789ABCDEF").getD (b &&& 0xF).toNat 0) ctx
      writeHexDigits randData (i + 2) ctx

/-- `smpUtilsGen32CharRandomId`, given a member of the context. -/
def smpUtilsGen32CharRandomIdIn (draw : Nat) (randomId : ContextField) (ctx : ContextBytes) :
    Option (Except WclError ContextBytes) :=
  match wosCryptoGetRandomBytes env draw 16 with
  | .error _ => some (.error .cryptoOperation)
  | .ok randData => do
      let ctx ← writeHexDigits m randData (randomId.offset m) ctx
      -- the terminator of 32 characters would be at 32
      let ctx ← writeByte m (randomId.offset m + 33) 0 ctx
      return .ok ctx

/-- Assign a member. -/
def setField (f : ContextField) (value : Nat → UInt8) (ctx : ContextBytes) : ContextBytes :=
  fun i => if f.offset m ≤ i ∧ i < f.offset m + f.size m then value (i - f.offset m) else ctx i

/-- The string a member holds, as a reader of strings finds it. -/
def fieldString (f : ContextField) (ctx : ContextBytes) : WosString :=
  stringContent ((List.range (sizeofContext m - f.offset m)).map fun k => ctx (f.offset m + k))

/-- The context that the first id is generated for: zeroed, with the members
    that `smpConfigGlobalCreds` copies and the ECC options.  `pointer` is the
    representation of the pointer in each member. -/
def configuredContext (pointer : ContextField → Nat → UInt8) : ContextBytes :=
  let ctx : ContextBytes := fun _ => 0
  let ctx := setField m .rootCaStorageId (pointer .rootCaStorageId) ctx
  let ctx := setField m .selfCertChainStorageId (pointer .selfCertChainStorageId) ctx
  let ctx := setField m .selfPrivKeyStorageId (pointer .selfPrivKeyStorageId) ctx
  let ctx := setField m .selfCertChainSize (fun _ => env.gSelfCertChainSize) ctx
  setField m .pEccOptions (pointer .pEccOptions) ctx

/-- What follows once the key pair is stored. -/
def withKeyPair (pointer : ContextField → Nat → UInt8) (ctx : ContextBytes) : ContextBytes :=
  setField m .pAeadOptions (pointer .pAeadOptions)
    (setField m .isPreSessionSecretsGenerated (fun _ => 1) ctx)

/-- `smpInitialiseSessionParams` on the bytes of the context. -/
def initialiseContextBytes (pointer : ContextField → Nat → UInt8) :
    Call KeyStore WclError ContextBytes := do
  let ctx := configuredContext m env pointer
  let ctx ← mapErr (fun _ => .error)
    (ofOutcome (smpUtilsGen32CharRandomIdIn m env 0 .sessionPrivateKeyStorageId ctx))
  let ctx ← mapErr (fun _ => .error)
    (ofOutcome (smpUtilsGen32CharRandomIdIn m env 1 .sessionPublicKeyStorageId ctx))
  mapErr (fun _ => .cryptoOperation) (wosCryptoEccGenerateKey env
    (fieldString m .sessionPrivateKeyStorageId ctx) (fieldString m .sessionPublicKeyStorageId ctx))
  let ctx := withKeyPair m pointer ctx
  mapErr (fun _ => .error)
    (ofOutcome (smpUtilsGen32CharRandomIdIn m env 2 .sessionSharedKeyStorageId ctx))

end Generator

/-! ## Offsets -/

/-- The three ids are adjacent, and a byte of padding follows the last one. -/
theorem id_offsets (m : DataModel) :
    ContextField.sessionPublicKeyStorageId.offset m =
        ContextField.sessionPrivateKeyStorageId.offset m + 33 ∧
      ContextField.sessionSharedKeyStorageId.offset m =
        ContextField.sessionPublicKeyStorageId.offset m + 33 ∧
      ContextField.sessionSharedKeyStorageId.offset m + 34 ≤ ContextField.pEccOptions.offset m ∧
      ContextField.pEccOptions.offset m ≤ sizeofContext m := by
  cases m <;> decide

/-! ## The generator -/

section Generate

variable {m : DataModel} {env : Env} {ctx after : ContextBytes} {draw : Nat}
  {randomId : ContextField}

theorem writeByte_of_lt {i : Nat} (h : i < sizeofContext m) (v : UInt8) (ctx : ContextBytes) :
    writeByte m i v ctx = some (Function.update ctx i v) :=
  if_pos h

theorem digit_indices (b : UInt8) :
    ((b >>> 4) &&& 0xF).toNat = b.toNat / 16 ∧ (b &&& 0xF).toNat = b.toNat % 16 := by
  have hlt := b.toNat_lt
  have hlow : ∀ x : UInt8, (x &&& 0xF).toNat = x.toNat % 16 := by
    intro x
    rw [UInt8.toNat_and]
    exact Nat.and_two_pow_sub_one_eq_mod x.toNat 4
  have hhigh : (b >>> 4).toNat = b.toNat / 16 := by
    rw [UInt8.toNat_shiftRight]
    exact Nat.shiftRight_eq_div_pow b.toNat 4
  refine ⟨?_, hlow b⟩
  rw [hlow, hhigh]
  omega

/-- The loop writes the digits one behind the other, and nothing else.
    Induction on the random bytes. -/
theorem writeHexDigits_spec {randData : Bytes} {i : Nat}
    (h : i + 2 * randData.length ≤ sizeofContext m) :
    ∃ after, writeHexDigits m randData i ctx = some after ∧
      (∀ k, k < 2 * randData.length → some (after (i + k)) = (randData.flatMap hexDigits)[k]?) ∧
      ∀ p, p < i ∨ i + 2 * randData.length ≤ p → after p = ctx p := by
  induction randData generalizing i ctx with
  | nil => exact ⟨ctx, rfl, fun k hk => by simp at hk, fun _ _ => rfl⟩
  | cons b randData ih =>
      rw [List.length_cons] at h
      obtain ⟨hhigh, hlow⟩ := digit_indices b
      have htext : (b :: randData).flatMap hexDigits =
          (ascii "0123456789ABCDEF").getD (b.toNat / 16) 0 ::
            (ascii "0123456789ABCDEF").getD (b.toNat % 16) 0 :: randData.flatMap hexDigits := rfl
      rw [writeHexDigits, writeByte_of_lt (by omega), Option.bind_eq_bind, Option.bind_some,
        writeByte_of_lt (by omega), Option.bind_some, hhigh, hlow]
      obtain ⟨after, hwrite, hdigits, hframe⟩ := @ih
        (Function.update (Function.update ctx i
          ((ascii "0123456789ABCDEF").getD (b.toNat / 16) 0)) (i + 1)
            ((ascii "0123456789ABCDEF").getD (b.toNat % 16) 0)) (i + 2) (by omega)
      refine ⟨after, hwrite, fun k hk => ?_, fun p hp => ?_⟩
      · rw [htext]
        rcases k with _ | _ | k
        · rw [Nat.add_zero, hframe i (by omega), Function.update_of_ne (by omega),
            Function.update_self]
          rfl
        · rw [hframe (i + 1) (by omega), Function.update_self]
          rfl
        · rw [List.length_cons] at hk
          have hrest := hdigits k (by omega)
          rw [show i + (k + 1 + 1) = i + 2 + k by omega, hrest]
          rfl
      · rw [List.length_cons] at hp
        rw [hframe p (by omega), Function.update_of_ne (by omega),
          Function.update_of_ne (by omega)]

theorem hexText_length (randData : Bytes) :
    (randData.flatMap hexDigits).length = 2 * randData.length := by
  induction randData with
  | nil => rfl
  | cons b randData ih =>
      rw [List.flatMap_cons, List.length_append, ih, List.length_cons]
      show 2 + _ = _
      omega

theorem hexDigits_inj {a b : UInt8} (h : hexDigits a = hexDigits b) : a = b := by
  have hdigit : ∀ m n : Fin 16, (ascii "0123456789ABCDEF").getD m 0 =
      (ascii "0123456789ABCDEF").getD n 0 → m = n := by decide
  have ha := a.toNat_lt
  have hb := b.toNat_lt
  obtain ⟨hhigh, hlow⟩ := List.cons.inj h
  have hhigh := hdigit ⟨a.toNat / 16, by omega⟩ ⟨b.toNat / 16, by omega⟩ hhigh
  have hlow := hdigit ⟨a.toNat % 16, by omega⟩ ⟨b.toNat % 16, by omega⟩ (List.cons.inj hlow).1
  rw [Fin.mk.injEq] at hhigh hlow
  apply UInt8.toNat_inj.mp
  omega

/-- Different random bytes have different texts. -/
theorem hexText_inj {r r' : Bytes} (hlen : r.length = r'.length)
    (h : r.flatMap hexDigits = r'.flatMap hexDigits) : r = r' := by
  induction r generalizing r' with
  | nil => exact (List.eq_nil_of_length_eq_zero hlen.symm).symm
  | cons a r ih =>
      cases r' with
      | nil => cases hlen
      | cons b r' =>
          rw [List.flatMap_cons, List.flatMap_cons] at h
          obtain ⟨hfirst, hrest⟩ := List.append_inj h rfl
          rw [hexDigits_inj hfirst, ih (Nat.succ.inj hlen) hrest]

/-- Every byte outside of the member is what it was. -/
def ChangesOnly (m : DataModel) (f : ContextField) (ctx after : ContextBytes) : Prop :=
  ∀ p, p < f.offset m ∨ f.offset m + f.size m ≤ p → after p = ctx p

/-- The bytes of a member. -/
def fieldBytes (m : DataModel) (f : ContextField) (ctx : ContextBytes) : Bytes :=
  (List.range (f.size m)).map fun k => ctx (f.offset m + k)

/-- The member of the `i`-th id, generated from the `i`-th draw. -/
def idField : Fin 3 → ContextField
  | 0 => .sessionPrivateKeyStorageId
  | 1 => .sessionPublicKeyStorageId
  | 2 => .sessionSharedKeyStorageId

theorem idField_size (i : Fin 3) : (idField i).size m = 33 := by
  match i with
  | 0 => rfl
  | 1 => rfl
  | 2 => rfl

/-- Index 33 of an id is in front of the ECC options, and inside the context. -/
theorem idField_offset (i : Fin 3) :
    (idField i).offset m + 34 ≤ ContextField.pEccOptions.offset m ∧
      ContextField.pEccOptions.offset m ≤ sizeofContext m := by
  obtain ⟨hpublic, hshared, hecc, hsize⟩ := id_offsets m
  refine ⟨?_, hsize⟩
  match i with
  | 0 =>
      show ContextField.sessionPrivateKeyStorageId.offset m + 34 ≤ _
      omega
  | 1 =>
      show ContextField.sessionPublicKeyStorageId.offset m + 34 ≤ _
      omega
  | 2 => exact hecc

/-- A call either has no random bytes, or writes their digits and the zero. -/
theorem generate_spec (m : DataModel) (env : Env) (draw : Nat) (i : Fin 3) (ctx : ContextBytes) :
    (env.randomBytes draw 16 = none ∧
        smpUtilsGen32CharRandomIdIn m env draw (idField i) ctx =
          some (.error .cryptoOperation)) ∨
      ∃ randData after, env.randomBytes draw 16 = some randData ∧
        smpUtilsGen32CharRandomIdIn m env draw (idField i) ctx = some (.ok after) ∧
        (∀ k, k < 32 →
          some (after ((idField i).offset m + k)) = (randData.flatMap hexDigits)[k]?) ∧
        after ((idField i).offset m + 33) = 0 ∧
        ∀ p, p < (idField i).offset m ∨ (idField i).offset m + 32 ≤ p →
          p ≠ (idField i).offset m + 33 → after p = ctx p := by
  obtain ⟨hecc, hsize⟩ := idField_offset (m := m) i
  unfold smpUtilsGen32CharRandomIdIn
  cases hrandom : env.randomBytes draw 16 with
  | none =>
      have hdraw : wosCryptoGetRandomBytes env draw 16 = .error .error := by
        rw [wosCryptoGetRandomBytes, hrandom]
        rfl
      rw [hdraw]
      exact .inl ⟨rfl, rfl⟩
  | some randData =>
      have hdraw : wosCryptoGetRandomBytes env draw 16 = .ok randData :=
        wosCryptoGetRandomBytes_ok.mpr ⟨by decide, hrandom⟩
      have hlen := env.randomBytes_length hrandom
      have hroom : (idField i).offset m + 2 * randData.length ≤ sizeofContext m := by omega
      obtain ⟨written, hwrite, hdigits, hframe⟩ := @writeHexDigits_spec m ctx _ _ hroom
      rw [hlen] at hdigits hframe
      rw [hdraw]
      dsimp only
      rw [hwrite, Option.bind_eq_bind, Option.bind_some, writeByte_of_lt (by omega),
        Option.bind_some]
      refine .inr ⟨randData, _, rfl, rfl, fun k hk => ?_, ?_, fun p hp hne => ?_⟩
      · rw [Function.update_of_ne (by omega)]
        exact hdigits k hk
      · rw [Function.update_self]
      · rw [Function.update_of_ne hne]
        exact hframe p hp

/-- What a call that succeeded has done. -/
theorem generate_ok {i : Fin 3}
    (h : smpUtilsGen32CharRandomIdIn m env draw (idField i) ctx = some (.ok after)) :
    ∃ randData, env.randomBytes draw 16 = some randData ∧
      (∀ k, k < 32 →
        some (after ((idField i).offset m + k)) = (randData.flatMap hexDigits)[k]?) ∧
      after ((idField i).offset m + 33) = 0 ∧
      ∀ p, p < (idField i).offset m ∨ (idField i).offset m + 32 ≤ p →
        p ≠ (idField i).offset m + 33 → after p = ctx p := by
  rcases generate_spec m env draw i ctx with ⟨-, hr⟩ | ⟨randData, _, hrandom, hr, heffect⟩
  · rw [hr] at h
    cases h
  · rw [hr, Option.some.injEq, Except.ok.injEq] at h
    rw [← h]
    exact ⟨randData, hrandom, heffect⟩

/-- On any context: only the member changes, if the byte behind it is zero. -/
theorem generate_changesOnly_iff {i : Fin 3}
    (h : smpUtilsGen32CharRandomIdIn m env draw (idField i) ctx = some (.ok after)) :
    ChangesOnly m (idField i) ctx after ↔ ctx ((idField i).offset m + 33) = 0 := by
  obtain ⟨_, -, -, hzero, hframe⟩ := generate_ok h
  unfold ChangesOnly
  rw [idField_size]
  constructor
  · intro hsame
    rw [← hsame _ (.inr (Nat.le_refl _)), hzero]
  · intro hbehind p hp
    by_cases hne : p = (idField i).offset m + 33
    · rw [hne, hzero, hbehind]
    · exact hframe p (by omega) hne

/-- The terminator of the id is the byte that was there before. -/
theorem generate_fieldBytes {i : Fin 3}
    (h : smpUtilsGen32CharRandomIdIn m env draw (idField i) ctx = some (.ok after))
    (hzero : ctx ((idField i).offset m + 32) = 0) :
    ∃ randData, env.randomBytes draw 16 = some randData ∧
      fieldBytes m (idField i) after = randData.flatMap hexDigits ++ [0] := by
  obtain ⟨randData, hrandom, hdigits, -, hframe⟩ := generate_ok h
  refine ⟨randData, hrandom, ?_⟩
  have hlen : (randData.flatMap hexDigits).length = 32 := by
    rw [hexText_length, env.randomBytes_length hrandom]
  apply List.ext_getElem?
  intro k
  unfold fieldBytes
  rw [idField_size, List.getElem?_map]
  by_cases hk : k < 33
  · rw [List.getElem?_range hk, Option.map_some]
    by_cases hlast : k < 32
    · rw [hdigits k hlast, List.getElem?_append_left (by omega)]
    · obtain rfl : k = 32 := by omega
      rw [hframe _ (by omega) (by omega), hzero, List.getElem?_append_right (by omega), hlen]
      rfl
  · rw [List.getElem?_eq_none (by simpa using hk), Option.map_none, List.getElem?_eq_none]
    rw [List.length_append, hlen, List.length_singleton]
    omega

end Generate

/-! ## An initialization -/

section Initialise

variable {m : DataModel} {env : Env} {pointer : ContextField → Nat → UInt8}
  {ctx after : ContextBytes}

/-- The calls of the generator an initialization makes, each with the context
    it is made on: the third one follows when the key pair is stored. -/
inductive CallsGenerator (m : DataModel) (env : Env) (pointer : ContextField → Nat → UInt8) :
    Fin 3 → ContextBytes → Prop
  | privateKeyId : CallsGenerator m env pointer 0 (configuredContext m env pointer)
  | publicKeyId {first : ContextBytes}
      (h : smpUtilsGen32CharRandomIdIn m env 0 .sessionPrivateKeyStorageId
        (configuredContext m env pointer) = some (.ok first)) : CallsGenerator m env pointer 1 first
  | sharedKeyId {first second : ContextBytes} (call : CallsGenerator m env pointer 1 first)
      (h : smpUtilsGen32CharRandomIdIn m env 1 .sessionPublicKeyStorageId first =
        some (.ok second)) : CallsGenerator m env pointer 2 (withKeyPair m pointer second)

/-- The bytes from `start` up to the ECC options are still zero. -/
def ZeroFrom (m : DataModel) (start : Nat) (ctx : ContextBytes) : Prop :=
  ∀ p, start ≤ p → p < ContextField.pEccOptions.offset m → ctx p = 0

theorem setField_of_lt {f : ContextField} {value : Nat → UInt8} {p : Nat}
    (h : p < f.offset m) : setField m f value ctx p = ctx p :=
  if_neg (by omega)

theorem setField_of_ge {f : ContextField} {value : Nat → UInt8} {p : Nat}
    (h : f.offset m + f.size m ≤ p) : setField m f value ctx p = ctx p :=
  if_neg (by omega)

/-- The other members of the context lie in front of the ids, or behind them. -/
theorem other_offsets (m : DataModel) :
    ContextField.isPreSessionSecretsGenerated.offset m + 1 ≤
        ContextField.sessionPrivateKeyStorageId.offset m ∧
      ∀ f ∈ [ContextField.pAeadOptions, .selfPrivKeyStorageId, .selfCertChainStorageId,
        .selfCertChainSize, .rootCaStorageId],
        ContextField.pEccOptions.offset m ≤ f.offset m := by
  cases m <;> decide

/-- Up to the ECC options the context is zeroed. -/
theorem configuredContext_apply {p : Nat} (hp : p < ContextField.pEccOptions.offset m) :
    configuredContext m env pointer p = 0 := by
  obtain ⟨-, hothers⟩ := other_offsets m
  have hkey := hothers .selfPrivKeyStorageId (by decide)
  have hchain := hothers .selfCertChainStorageId (by decide)
  have hsize := hothers .selfCertChainSize (by decide)
  have hroot := hothers .rootCaStorageId (by decide)
  unfold configuredContext
  rw [setField_of_lt hp, setField_of_lt (by omega), setField_of_lt (by omega),
    setField_of_lt (by omega), setField_of_lt (by omega)]

/-- Between the ids and the ECC options nothing changes with the key pair. -/
theorem withKeyPair_apply {p : Nat} (hfrom : ContextField.sessionPrivateKeyStorageId.offset m ≤ p)
    (hp : p < ContextField.pEccOptions.offset m) : withKeyPair m pointer ctx p = ctx p := by
  obtain ⟨hflag, hothers⟩ := other_offsets m
  have haead := hothers .pAeadOptions (by decide)
  have hsize : ContextField.isPreSessionSecretsGenerated.size m = 1 := rfl
  unfold withKeyPair
  rw [setField_of_lt (by omega), setField_of_ge (by omega)]

/-- A call on a member with nothing but zeros behind it changes that member only. -/
theorem generate_changesOnly {i : Fin 3} {draw : Nat}
    (hzero : ZeroFrom m ((idField i).offset m) ctx)
    (h : smpUtilsGen32CharRandomIdIn m env draw (idField i) ctx = some (.ok after)) :
    ChangesOnly m (idField i) ctx after := by
  have hecc := (idField_offset (m := m) i).1
  exact (generate_changesOnly_iff h).mpr (hzero _ (by omega) (by omega))

/-- The invariant of an initialization: what comes behind the ids that are
    generated already is zero.  Induction on the calls. -/
theorem CallsGenerator.zeroFrom {i : Fin 3} (h : CallsGenerator m env pointer i ctx) :
    ZeroFrom m ((idField i).offset m) ctx := by
  obtain ⟨hpublic, hshared, -, -⟩ := id_offsets m
  induction h with
  | privateKeyId => exact fun p _ hp => configuredContext_apply hp
  | publicKeyId h =>
      intro p hstart hp
      change ContextField.sessionPublicKeyStorageId.offset m ≤ p at hstart
      have hbehind : (idField 0).offset m + (idField 0).size m ≤ p := by
        rw [idField_size]
        show ContextField.sessionPrivateKeyStorageId.offset m + 33 ≤ p
        omega
      rw [generate_changesOnly (i := 0) (fun p _ hp => configuredContext_apply hp) h p
        (.inr hbehind)]
      exact configuredContext_apply hp
  | sharedKeyId call h ih =>
      intro p hstart hp
      change ContextField.sessionSharedKeyStorageId.offset m ≤ p at hstart
      change ZeroFrom m (ContextField.sessionPublicKeyStorageId.offset m) _ at ih
      have hbehind : (idField 1).offset m + (idField 1).size m ≤ p := by
        rw [idField_size]
        show ContextField.sessionPublicKeyStorageId.offset m + 33 ≤ p
        omega
      rw [withKeyPair_apply (by omega) hp,
        generate_changesOnly (i := 1) ih h p (.inr hbehind)]
      exact ih p (by omega) hp

/-- A call of an initialization: its id, and its frame. -/
theorem CallsGenerator.spec {i : Fin 3} (h : CallsGenerator m env pointer i ctx)
    (hgen : smpUtilsGen32CharRandomIdIn m env i (idField i) ctx = some (.ok after)) :
    ChangesOnly m (idField i) ctx after ∧
      ∃ randData, env.randomBytes i 16 = some randData ∧
        fieldBytes m (idField i) after = randData.flatMap hexDigits ++ [0] := by
  have hecc := (idField_offset (m := m) i).1
  exact ⟨generate_changesOnly h.zeroFrom hgen,
    generate_fieldBytes hgen (h.zeroFrom _ (by omega) (by omega))⟩

theorem fieldBytes_congr {f : ContextField}
    (h : ∀ k, k < f.size m → after (f.offset m + k) = ctx (f.offset m + k)) :
    fieldBytes m f after = fieldBytes m f ctx :=
  List.map_congr_left fun k hk => h k (List.mem_range.mp hk)

/-- The three calls of an initialization that succeeded. -/
theorem initialise_calls {store store' : KeyStore}
    (h : initialiseContextBytes m env pointer store = some (.ok ctx, store')) :
    ∃ first second, smpUtilsGen32CharRandomIdIn m env 0 .sessionPrivateKeyStorageId
        (configuredContext m env pointer) = some (.ok first) ∧
      smpUtilsGen32CharRandomIdIn m env 1 .sessionPublicKeyStorageId first = some (.ok second) ∧
      smpUtilsGen32CharRandomIdIn m env 2 .sessionSharedKeyStorageId
        (withKeyPair m pointer second) = some (.ok ctx) := by
  obtain ⟨first, _, hfirst, h⟩ := bind_ok.mp h
  obtain ⟨second, _, hsecond, h⟩ := bind_ok.mp h
  obtain ⟨_, _, -, hthird⟩ := bind_ok.mp h
  exact ⟨first, second, (ofOutcome_eq.mp (mapErr_ok.mp hfirst)).1,
    (ofOutcome_eq.mp (mapErr_ok.mp hsecond)).1, (ofOutcome_eq.mp (mapErr_ok.mp hthird)).1⟩

/-- Every id that was generated is still there at the end. -/
theorem initialise_fieldBytes {store store' : KeyStore}
    (h : initialiseContextBytes m env pointer store = some (.ok ctx, store')) (i : Fin 3) :
    ∃ randData, env.randomBytes i 16 = some randData ∧
      fieldBytes m (idField i) ctx = randData.flatMap hexDigits ++ [0] := by
  obtain ⟨first, second, hfirst, hsecond, hthird⟩ := initialise_calls h
  have hcall : CallsGenerator m env pointer 1 first := .publicKeyId hfirst
  obtain ⟨hpublic, hshared, hecc, -⟩ := id_offsets m
  obtain ⟨-, hprivateId⟩ := CallsGenerator.spec (i := 0) .privateKeyId hfirst
  obtain ⟨hsame₁, hpublicId⟩ := CallsGenerator.spec (i := 1) hcall hsecond
  obtain ⟨hsame₂, hsharedId⟩ := CallsGenerator.spec (i := 2) (.sharedKeyId hcall hsecond) hthird
  change ChangesOnly m .sessionPublicKeyStorageId _ _ at hsame₁
  change ChangesOnly m .sessionSharedKeyStorageId _ _ at hsame₂
  match i with
  | 0 =>
      obtain ⟨randData, hrandom, hfield⟩ := hprivateId
      refine ⟨randData, hrandom, (fieldBytes_congr fun k hk => ?_).trans hfield⟩
      rw [idField_size] at hk
      change ctx (ContextField.sessionPrivateKeyStorageId.offset m + k) = _
      rw [hsame₂ _ (.inl (by omega)), withKeyPair_apply (by omega) (by omega),
        hsame₁ _ (.inl (by omega))]
      rfl
  | 1 =>
      obtain ⟨randData, hrandom, hfield⟩ := hpublicId
      refine ⟨randData, hrandom, (fieldBytes_congr fun k hk => ?_).trans hfield⟩
      rw [idField_size] at hk
      change ctx (ContextField.sessionPublicKeyStorageId.offset m + k) = _
      rw [hsame₂ _ (.inl (by omega)), withKeyPair_apply (by omega) (by omega)]
      rfl
  | 2 => exact hsharedId

/-- Whatever the generator draws, each call of an initialization changes its own
    member of the context only, and after a successful one each of the three
    members holds the text of its own draw and a terminator, so members that
    are equal come from equal draws. -/
theorem ids_well_formed (m : DataModel) (env : Env) (pointer : ContextField → Nat → UInt8) :
    (∀ (i : Fin 3) before after, CallsGenerator m env pointer i before →
      smpUtilsGen32CharRandomIdIn m env i (idField i) before = some (.ok after) →
        ChangesOnly m (idField i) before after) ∧
    ∀ store store' ctx, initialiseContextBytes m env pointer store = some (.ok ctx, store') →
      ∃ randData : Fin 3 → Bytes, ∀ i : Fin 3, env.randomBytes i 16 = some (randData i) ∧
        fieldBytes m (idField i) ctx = (randData i).flatMap hexDigits ++ [0] ∧
        ∀ j : Fin 3, fieldBytes m (idField i) ctx = fieldBytes m (idField j) ctx →
          randData i = randData j := by
  refine ⟨fun i before after hcall hgen => (hcall.spec hgen).1, fun store store' ctx h => ?_⟩
  choose randData hrandom hfield using initialise_fieldBytes h
  refine ⟨randData, fun i => ⟨hrandom i, hfield i, fun j heq => ?_⟩⟩
  rw [hfield i, hfield j] at heq
  apply hexText_inj
  · rw [env.randomBytes_length (hrandom i), env.randomBytes_length (hrandom j)]
  · exact List.append_cancel_right heq

/-- An initialization whose draws are sixteen bytes 0, 1 and 2. -/
theorem ids_well_formed_sample :
    ∃ ctx store', initialiseContextBytes .lp64 Env.sample (fun _ _ => 7) (fun _ => none) =
        some (.ok ctx, store') ∧
      fieldBytes .lp64 .sessionPublicKeyStorageId ctx =
        (List.replicate 16 1).flatMap hexDigits ++ [0] := by
  have hsome : ((initialiseContextBytes .lp64 Env.sample (fun _ _ => 7) fun _ => none).map
      fun r => r.1.isOk) = some true := by decide +kernel
  obtain ⟨⟨r, store'⟩, h, hr⟩ := Option.map_eq_some_iff.mp hsome
  cases r with
  | error e => cases hr
  | ok ctx =>
      obtain ⟨randData, hids⟩ :=
        (ids_well_formed .lp64 Env.sample fun _ _ => 7).2 _ _ _ h
      obtain ⟨hrandom, hfield, -⟩ := hids 1
      refine ⟨ctx, store', h, hfield.trans ?_⟩
      rw [← Option.some.inj hrandom]
      rfl

/-! ## The context of the session model -/

/-- The context as the rest of the development has it. -/
def abstractContext (m : DataModel) (env : Env) (ctx : ContextBytes) : SmpSessionContext :=
  { smpConfigGlobalCreds env with
    isPreSessionSecretsGenerated :=
      ctx (ContextField.isPreSessionSecretsGenerated.offset m) ≠ 0
    isSessionKeyEstablished := ctx (ContextField.isSessionKeyEstablished.offset m) ≠ 0
    sessionPrivateKeyStorageId := fieldString m .sessionPrivateKeyStorageId ctx
    sessionPublicKeyStorageId := fieldString m .sessionPublicKeyStorageId ctx
    sessionSharedKeyStorageId := fieldString m .sessionSharedKeyStorageId ctx }

theorem fieldString_of_fieldBytes {f : ContextField} {text : Bytes}
    (h : fieldBytes m f ctx = text ++ [0]) (hne : ∀ c ∈ text, c ≠ 0)
    (hsize : f.offset m + f.size m ≤ sizeofContext m) : fieldString m f ctx = text := by
  obtain ⟨rest, hrest⟩ : ∃ rest, sizeofContext m - f.offset m = f.size m + rest :=
    ⟨sizeofContext m - f.offset m - f.size m, by omega⟩
  unfold fieldString stringContent
  rw [hrest, List.range_add, List.map_append]
  change List.takeWhile _ (fieldBytes m f ctx ++ _) = _
  rw [h, List.append_assoc, List.takeWhile_append_of_pos (fun c hc => by simpa using hne c hc),
    List.singleton_append, List.takeWhile_cons_of_neg (by simp), List.append_nil]

theorem hexText_ne_zero {randData : Bytes} : ∀ c ∈ randData.flatMap hexDigits, c ≠ 0 := by
  intro c hc
  obtain ⟨b, -, hc⟩ := List.mem_flatMap.mp hc
  have hvalid := (hexDigits_valid b c hc).1
  rintro rfl
  revert hvalid
  decide

theorem fieldString_idField {i : Fin 3} {randData : Bytes}
    (h : fieldBytes m (idField i) ctx = randData.flatMap hexDigits ++ [0]) :
    fieldString m (idField i) ctx = randData.flatMap hexDigits := by
  obtain ⟨hecc, hsize⟩ := idField_offset (m := m) i
  exact fieldString_of_fieldBytes h hexText_ne_zero (by rw [idField_size]; omega)

/-- The generator of the session model, for one draw. -/
theorem generateId_apply (env : Env) (draw : Nat) (store : KeyStore) :
    (ofExcept ((smpUtilsGen32CharRandomId env draw).mapError fun _ => .error) :
      Call KeyStore WclError StorageId) store =
      match env.randomBytes draw 16 with
      | none => some (.error .error, store)
      | some randData => some (.ok (randData.flatMap hexDigits), store) := by
  cases hrandom : env.randomBytes draw 16 with
  | none =>
      have hdraw : wosCryptoGetRandomBytes env draw 16 = .error .error := by
        rw [wosCryptoGetRandomBytes, hrandom]
        rfl
      rw [ofExcept_apply, smpUtilsGen32CharRandomId, hdraw]
      rfl
  | some randData =>
      rw [ofExcept_apply, smpUtilsGen32CharRandomId_ok.mpr ⟨randData, hrandom, rfl⟩]
      rfl

/-- The flags lie in front of the ids: neither the calls nor the options touch them. -/
theorem flag_offsets (m : DataModel) :
    ContextField.isPreSessionSecretsGenerated.offset m + 1 =
        ContextField.isSessionKeyEstablished.offset m ∧
      ContextField.isSessionKeyEstablished.offset m + 1 ≤
        ContextField.sessionPrivateKeyStorageId.offset m := by
  cases m <;> decide

theorem withKeyPair_flags :
    withKeyPair m pointer ctx (ContextField.isPreSessionSecretsGenerated.offset m) = 1 ∧
      withKeyPair m pointer ctx (ContextField.isSessionKeyEstablished.offset m) =
        ctx (ContextField.isSessionKeyEstablished.offset m) := by
  obtain ⟨hflag, hids⟩ := flag_offsets m
  obtain ⟨-, hothers⟩ := other_offsets m
  have haead := hothers .pAeadOptions (by decide)
  have hecc := (idField_offset (m := m) 0).1
  change ContextField.sessionPrivateKeyStorageId.offset m + 34 ≤ _ at hecc
  have hsize : ContextField.isPreSessionSecretsGenerated.size m = 1 := rfl
  unfold withKeyPair
  constructor
  · rw [setField_of_lt (by omega)]
    exact if_pos ⟨Nat.le_refl _, by omega⟩
  · rw [setField_of_lt (by omega), setField_of_ge (by omega)]

/-- Only the first flag is set when an initialization succeeds. -/
theorem initialise_flags {store store' : KeyStore}
    (h : initialiseContextBytes m env pointer store = some (.ok ctx, store')) :
    ctx (ContextField.isPreSessionSecretsGenerated.offset m) = 1 ∧
      ctx (ContextField.isSessionKeyEstablished.offset m) = 0 := by
  obtain ⟨first, second, hfirst, hsecond, hthird⟩ := initialise_calls h
  obtain ⟨hpublic, hshared, hecc, -⟩ := id_offsets m
  obtain ⟨hflag, hids⟩ := flag_offsets m
  have hcall : CallsGenerator m env pointer 1 first := .publicKeyId hfirst
  have hsame₀ := (CallsGenerator.spec (i := 0) .privateKeyId hfirst).1
  have hsame₁ := (CallsGenerator.spec (i := 1) hcall hsecond).1
  have hsame₂ := (CallsGenerator.spec (i := 2) (.sharedKeyId hcall hsecond) hthird).1
  change ChangesOnly m .sessionPrivateKeyStorageId _ _ at hsame₀
  change ChangesOnly m .sessionPublicKeyStorageId _ _ at hsame₁
  change ChangesOnly m .sessionSharedKeyStorageId _ _ at hsame₂
  rw [hsame₂ _ (.inl (by omega)), hsame₂ _ (.inl (by omega)), withKeyPair_flags.1,
    withKeyPair_flags.2, hsame₁ _ (.inl (by omega)), hsame₀ _ (.inl (by omega))]
  exact ⟨rfl, configuredContext_apply (by omega)⟩

theorem idCall_ok {draw : Nat} {f : ContextField} {store : KeyStore}
    (h : smpUtilsGen32CharRandomIdIn m env draw f ctx = some (.ok after)) :
    (mapErr (fun _ => .error) (ofOutcome (smpUtilsGen32CharRandomIdIn m env draw f ctx)) :
      Call KeyStore WclError ContextBytes) store = some (.ok after, store) := by
  rw [h]
  rfl

theorem idCall_error {draw : Nat} {f : ContextField} {store : KeyStore} {e : WclError}
    (h : smpUtilsGen32CharRandomIdIn m env draw f ctx = some (.error e)) :
    (mapErr (fun _ => .error) (ofOutcome (smpUtilsGen32CharRandomIdIn m env draw f ctx)) :
      Call KeyStore WclError ContextBytes) store = some (.error .error, store) := by
  rw [h]
  rfl

/-- The ids that the key pair is stored under. -/
theorem keyIds {first second : ContextBytes} {randData₀ randData₁ : Bytes}
    (hrandom₀ : env.randomBytes 0 16 = some randData₀)
    (hrandom₁ : env.randomBytes 1 16 = some randData₁)
    (hfirst : smpUtilsGen32CharRandomIdIn m env 0 .sessionPrivateKeyStorageId
      (configuredContext m env pointer) = some (.ok first))
    (hsecond : smpUtilsGen32CharRandomIdIn m env 1 .sessionPublicKeyStorageId first =
      some (.ok second)) :
    fieldString m .sessionPrivateKeyStorageId second = randData₀.flatMap hexDigits ∧
      fieldString m .sessionPublicKeyStorageId second = randData₁.flatMap hexDigits := by
  obtain ⟨hpublic, -, -, -⟩ := id_offsets m
  obtain ⟨-, r₀, hr₀, hfield₀⟩ := CallsGenerator.spec (i := 0) .privateKeyId hfirst
  obtain ⟨hsame, r₁, hr₁, hfield₁⟩ := CallsGenerator.spec (i := 1) (.publicKeyId hfirst) hsecond
  obtain rfl := Option.some.inj (hr₀.symm.trans hrandom₀)
  obtain rfl := Option.some.inj (hr₁.symm.trans hrandom₁)
  change ChangesOnly m .sessionPublicKeyStorageId _ _ at hsame
  have hkept : fieldBytes m (idField 0) second = fieldBytes m (idField 0) first := by
    apply fieldBytes_congr
    intro k hk
    rw [idField_size] at hk
    change second (ContextField.sessionPrivateKeyStorageId.offset m + k) = _
    rw [hsame _ (.inl (by omega))]
    rfl
  exact ⟨fieldString_idField (i := 0) (hkept.trans hfield₀), fieldString_idField (i := 1) hfield₁⟩

/-- Read member by member, the bytes are the context of the session model, and
    both initializations do the same to the storage. -/
theorem initialise_abstracts (m : DataModel) (env : Env) (pointer : ContextField → Nat → UInt8)
    (store : KeyStore) :
    (initialiseContextBytes m env pointer store).map
        (fun r => (r.1.map (abstractContext m env), r.2)) =
      smpInitialiseSessionParams env store := by
  obtain ⟨bytes, hbytes⟩ : ∃ x, x = initialiseContextBytes m env pointer store := ⟨_, rfl⟩
  rw [← hbytes]
  have hrun := hbytes
  unfold initialiseContextBytes at hrun
  unfold smpInitialiseSessionParams
  dsimp only at hrun
  rcases generate_spec m env 0 0 (configuredContext m env pointer) with
    ⟨hrandom₀, hgen₀⟩ | ⟨randData₀, first, hrandom₀, hgen₀, -⟩
  · change smpUtilsGen32CharRandomIdIn m env 0 .sessionPrivateKeyStorageId _ = _ at hgen₀
    rw [bind_of_error (idCall_error hgen₀)] at hrun
    rw [hrun, bind_of_error (e := .error) (by rw [generateId_apply, hrandom₀])]
    rfl
  change smpUtilsGen32CharRandomIdIn m env 0 .sessionPrivateKeyStorageId _ = _ at hgen₀
  rw [bind_of_ok (idCall_ok hgen₀)] at hrun
  rw [bind_of_ok (a := randData₀.flatMap hexDigits) (by rw [generateId_apply, hrandom₀])]
  rcases generate_spec m env 1 1 first with
    ⟨hrandom₁, hgen₁⟩ | ⟨randData₁, second, hrandom₁, hgen₁, -⟩
  · change smpUtilsGen32CharRandomIdIn m env 1 .sessionPublicKeyStorageId _ = _ at hgen₁
    rw [bind_of_error (idCall_error hgen₁)] at hrun
    rw [hrun, bind_of_error (e := .error) (by rw [generateId_apply, hrandom₁])]
    rfl
  change smpUtilsGen32CharRandomIdIn m env 1 .sessionPublicKeyStorageId _ = _ at hgen₁
  rw [bind_of_ok (idCall_ok hgen₁)] at hrun
  rw [bind_of_ok (a := randData₁.flatMap hexDigits) (by rw [generateId_apply, hrandom₁])]
  -- both key ids are complete when the key pair is generated
  obtain ⟨hprivateId, hpublicId⟩ := keyIds hrandom₀ hrandom₁ hgen₀ hgen₁
  rw [hprivateId, hpublicId] at hrun
  obtain ⟨keyCall, hkeyCall⟩ : ∃ x : Call KeyStore WclError Unit, x =
      mapErr (fun _ => .cryptoOperation) (wosCryptoEccGenerateKey env
        (randData₀.flatMap hexDigits) (randData₁.flatMap hexDigits)) := ⟨_, rfl⟩
  rw [← hkeyCall] at hrun ⊢
  -- the key pair is generated by the same call on both sides
  rcases hkey : keyCall store with _ | ⟨e | u, store'⟩
  · rw [bind_apply, hkey] at hrun
    rw [hrun, bind_apply, hkey]
    rfl
  · rw [bind_of_error hkey] at hrun
    rw [hrun, bind_of_error hkey]
    rfl
  rw [bind_of_ok hkey] at hrun ⊢
  rcases generate_spec m env 2 2 (withKeyPair m pointer second) with
    ⟨hrandom₂, hgen₂⟩ | ⟨randData₂, ctx, hrandom₂, hgen₂, -⟩
  · change smpUtilsGen32CharRandomIdIn m env 2 .sessionSharedKeyStorageId _ = _ at hgen₂
    rw [idCall_error hgen₂] at hrun
    rw [hrun, bind_of_error (e := .error) (by rw [generateId_apply, hrandom₂])]
    rfl
  change smpUtilsGen32CharRandomIdIn m env 2 .sessionSharedKeyStorageId _ = _ at hgen₂
  rw [idCall_ok hgen₂] at hrun
  rw [hrun, bind_of_ok (a := randData₂.flatMap hexDigits) (by rw [generateId_apply, hrandom₂])]
  have hinit := hbytes.symm.trans hrun
  have hid : ∀ (i : Fin 3) (randData : Bytes), env.randomBytes i 16 = some randData →
      fieldString m (idField i) ctx = randData.flatMap hexDigits := by
    intro i randData hrandom
    obtain ⟨drawn, hdrawn, hfield⟩ := initialise_fieldBytes hinit i
    rw [fieldString_idField hfield, Option.some.inj (hdrawn.symm.trans hrandom)]
  have h₀ := hid 0 randData₀ hrandom₀
  have h₁ := hid 1 randData₁ hrandom₁
  have h₂ := hid 2 randData₂ hrandom₂
  -- the ids as they are when all is drawn; each call has left the earlier ones alone
  change fieldString m .sessionPrivateKeyStorageId ctx = _ at h₀
  change fieldString m .sessionPublicKeyStorageId ctx = _ at h₁
  change fieldString m .sessionSharedKeyStorageId ctx = _ at h₂
  obtain ⟨hpre, hkeyFlag⟩ := initialise_flags hinit
  have hctx : abstractContext m env ctx = { smpConfigGlobalCreds env with
      isPreSessionSecretsGenerated := true
      sessionPrivateKeyStorageId := randData₀.flatMap hexDigits
      sessionPublicKeyStorageId := randData₁.flatMap hexDigits
      sessionSharedKeyStorageId := randData₂.flatMap hexDigits } := by
    rw [abstractContext, h₀, h₁, h₂, hpre, hkeyFlag]
    rfl
  rw [Option.map_some, Except.map, hctx]
  rfl

end Initialise

end WeeveMQ
