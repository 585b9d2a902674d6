/-
  WeeveMQ.SeDecoder

  `wosMsgUnpackSmpMqttsSEMessage` and `wosMsgFreeSmpMqttsSEMessage` with the
  memory they work on: the pointer fields, and the table of certificates.

  A slot of the table is garbage until a certificate is stored in it, since
  `wosMemAlloc` does not clear memory.  Storing or reading behind the end of the
  table is undefined behaviour, and the call has no result then.

  - `FieldsHold` / `TableHolds`: where the buffers of the call are while the
    fields and then the certificates are decoded.
  - `slots_in_range_iff`: no slot behind the table is touched.
  - `clean_failure_iff`: a failing call visits nothing but its own buffers.
-/

import WeeveMQ.MsgSmpIntegers
import Mathlib.Data.List.Induction
import Mathlib.Data.List.Nodup
import Mathlib.Tactic.IntervalCases

namespace WeeveMQ

open Call

/-! ## Memory -/

/-- What a pointer field or a slot holds.  A buffer is named by the allocation
    request it came from. -/
inductive Pointer where
  | uninitialised
  | null
  | buffer (request : Nat) (content : Bytes)
  deriving DecidableEq, Repr

/-- The request a buffer came from. -/
def Pointer.request : Pointer → Option Nat
  | .buffer request _ => some request
  | _ => none

/-- `WosMsgMqttsSeParams_t` in memory, and what happened to it. -/
structure SeMemory where
  /-- Whether the allocation with this number succeeds. -/
  malloc : Nat → Bool
  /-- Allocations asked for so far. -/
  requests : Nat
  pEncodedSmpHeader : Pointer
  cipherSchemeId : UInt8
  pEccDhPubParams : Pointer
  pMqttPacket : Pointer
  pSignature : Pointer
  numCerts : UInt8
  /-- The slots of the table; none when the pointer is null. -/
  ppCerts : Option (List Pointer)
  /-- Buffers allocated and handed out by this call. -/
  handedOut : List Nat
  /-- Rounds of the certificate loop that have been completed. -/
  rounds : Nat
  /-- Fields and slots the cleanup has visited. -/
  visited : List Pointer

/-- The parameters as `lSmpProcessSeMessage` passes them. -/
def SeMemory.fresh (malloc : Nat → Bool) : SeMemory where
  malloc := malloc
  requests := 0
  pEncodedSmpHeader := .null
  cipherSchemeId := 0
  pEccDhPubParams := .null
  pMqttPacket := .null
  pSignature := .null
  numCerts := 0
  ppCerts := none
  handedOut := []
  rounds := 0
  visited := []

/-- The calls of this module. -/
abbrev SeCall (α : Type) : Type := Call SeMemory WosMsgError α

/-- `wosMemAlloc` of a size that is not zero: the number of the request, unless
    memory is exhausted. -/
def seMemAlloc (e : WosMsgError) : SeCall Nat := fun m =>
  let m' := { m with requests := m.requests + 1 }
  if m.malloc m.requests then some (.ok m.requests, m') else some (.error e, m')

section Functions

variable (cbor : TinyCbor)

/-- `msgCborParseByteString`, with what TinyCBOR returns of the string as a
    parameter.  A buffer that is not handed out is released again. -/
def parseBufferWith {α : Type} (value : cbor.Value) (dup : Option (Bytes × α)) :
    SeCall (Pointer × α) := do
  let request ← seMemAlloc .outOfMemory
  failIf (cbor.cborValueIsByteString value = false) .badFormat
  let (content, next) ← ofExcept (cborStatus dup)
  -- TinyCBOR allocates the data
  let _ ← seMemAlloc .error
  modify fun m => { m with handedOut := m.handedOut ++ [request] }
  return (.buffer request content, next)

/-- `msgCborParseByteString` that also fetches the next object. -/
def parseBufferNext (value : cbor.Value) : SeCall (Pointer × cbor.Value) :=
  parseBufferWith cbor value (cbor.cborValueDupByteStringNext value)

/-- `msgCborParseByteString` with `pNextCborValue` null. -/
def parseBuffer (value : cbor.Value) : SeCall Pointer := do
  let (p, _) ← parseBufferWith cbor value ((cbor.cborValueDupByteString value).map (·, ()))
  return p

/-- The fields in front of the certificates: the announced number, and the
    value that carries it. -/
def unpackSeFieldsInto (role : Role) (packedBuffer : Bytes) : SeCall (Nat × cbor.Value) := do
  failIf (packedBuffer = []) .badParams
  modify fun m => { m with numCerts := 0 }
  let dataArray ← ofExcept (enterRootArray cbor packedBuffer)
  let (encodedSmpHeader, value1) ← parseBufferNext cbor dataArray
  modify fun m => { m with pEncodedSmpHeader := encodedSmpHeader }
  let (cipherSchemeId, value1) ← ofExcept (unpackCipherSchemeId cbor role value1)
  modify fun m => { m with cipherSchemeId := cipherSchemeId }
  let (eccDhPubParams, value2) ← parseBufferNext cbor value1
  modify fun m => { m with pEccDhPubParams := eccDhPubParams }
  let (mqttPacket, value1) ← parseBufferNext cbor value2
  modify fun m => { m with pMqttPacket := mqttPacket }
  let (signature, value2) ← parseBufferNext cbor value1
  modify fun m => { m with pSignature := signature }
  let numCerts ← ofExcept (msgCborParseUint64 cbor value2)
  modify fun m => { m with numCerts := UInt8.ofNat numCerts }
  return (numCerts, value2)

/-- The table has a slot for each of the 8-bit number of certificates; no bytes
    give no table. -/
def allocateCertTable : SeCall Unit := do
  let m ← get
  failIf (m.numCerts = 0) .outOfMemory
  let _ ← seMemAlloc .outOfMemory
  modify fun m' =>
    { m' with ppCerts := some (List.replicate m.numCerts.toNat .uninitialised) }

/-- `pSeParams->ppCerts[i] = p`. -/
def storeSlot (i : Nat) (p : Pointer) : SeCall Unit := fun m =>
  match m.ppCerts with
  | some table =>
      if i < table.length then some (.ok (), { m with ppCerts := some (table.set i p) }) else none
  | none => none

/-- The certificate loop, `remaining` rounds from slot `i` on.  The 8-bit index
    of the source does not wrap: it is behind the table before that. -/
def unpackCertsInto : Nat → Nat → cbor.Value → SeCall Unit
  | 0, _, _ => pure ()
  | remaining + 1, i, value2 => do
      let cert ← parseBuffer cbor value2
      storeSlot i cert
      let value2 ← ofExcept (cborStatus (cbor.cborValueAdvance value2))
      modify fun m => { m with rounds := m.rounds + 1 }
      unpackCertsInto remaining (i + 1) value2

/-- `WOS_FREE_BUF_AND_DATA` of a field. -/
def freeField (get : SeMemory → Pointer) (clear : SeMemory → SeMemory) : SeCall Unit :=
  modify fun m => { clear m with visited := m.visited ++ [get m] }

/-- `WOS_FREE_BUF_AND_DATA` of the slots from `i` on. -/
def freeSlots : Nat → Nat → SeCall Unit
  | 0, _ => pure ()
  | remaining + 1, i => do
      let m ← get
      match (m.ppCerts.getD [])[i]? with
      | some p =>
          storeSlot i .null
          modify fun m => { m with visited := m.visited ++ [p] }
          freeSlots remaining (i + 1)
      | none => fault

/-- `wosMsgFreeSmpMqttsSEMessage`. -/
def wosMsgFreeSmpMqttsSEMessage : SeCall Unit := do
  freeField (·.pEncodedSmpHeader) fun m => { m with pEncodedSmpHeader := .null }
  freeField (·.pMqttPacket) fun m => { m with pMqttPacket := .null }
  freeField (·.pEccDhPubParams) fun m => { m with pEccDhPubParams := .null }
  freeField (·.pSignature) fun m => { m with pSignature := .null }
  let m ← get
  onlyIf (m.ppCerts ≠ none) (do
    freeSlots m.numCerts.toNat 0
    modify fun m => { m with ppCerts := none, numCerts := 0 })

/-- The decoder up to its exit label. -/
def unpackSeMessageInto (role : Role) (packedBuffer : Bytes) : SeCall Unit := do
  let (numCerts, value2) ← unpackSeFieldsInto cbor role packedBuffer
  allocateCertTable
  let value2 ← ofExcept (cborStatus (cbor.cborValueAdvance value2))
  unpackCertsInto cbor numCerts 0 value2

/-- `wosMsgUnpackSmpMqttsSEMessage` on the memory of its parameters. -/
def wosMsgUnpackSmpMqttsSEMessageInto (role : Role) (packedBuffer : Bytes) : SeCall Unit :=
  onErr (unpackSeMessageInto cbor role packedBuffer) wosMsgFreeSmpMqttsSEMessage

end Functions

/-! ## Parsing one buffer -/

/-- Memory for a buffer and its data is left. -/
def SeMemory.CanAllocate (m : SeMemory) : Prop :=
  m.malloc m.requests = true ∧ m.malloc (m.requests + 1) = true

/-- A buffer has been allocated and handed out. -/
def SeMemory.afterBuffer (m : SeMemory) : SeMemory :=
  { m with requests := m.requests + 2, handedOut := m.handedOut ++ [m.requests] }

section Specs

variable {cbor : TinyCbor} {m m' : SeMemory}

theorem seMemAlloc_ok {e : WosMsgError} {r : Nat} :
    seMemAlloc e m = some (.ok r, m') ↔
      m.malloc m.requests = true ∧ r = m.requests ∧ m' = { m with requests := m.requests + 1 } := by
  unfold seMemAlloc
  dsimp only
  split_ifs with h
  · simp [h, eq_comm]
  · simp [h]

theorem seMemAlloc_error {e e' : WosMsgError} (h : seMemAlloc e m = some (.error e', m')) :
    m.malloc m.requests = false ∧ m' = { m with requests := m.requests + 1 } := by
  unfold seMemAlloc at h
  dsimp only at h
  split_ifs at h with hm
  · simp at h
  · simp only [Option.some.injEq, Prod.mk.injEq] at h
    exact ⟨by simpa using hm, h.2.symm⟩

theorem parseBufferWith_ok {α : Type} {value : cbor.Value} {dup : Option (Bytes × α)}
    {p : Pointer} {next : α} :
    parseBufferWith cbor value dup m = some (.ok (p, next), m') ↔
      m.CanAllocate ∧ cbor.cborValueIsByteString value = true ∧
        ∃ content, dup = some (content, next) ∧ p = .buffer m.requests content ∧
          m' = m.afterBuffer := by
  simp only [parseBufferWith, bind_ok, seMemAlloc_ok, failIf_ok, ofExcept_apply, modify_apply,
    pure_apply, Option.some.injEq, Prod.mk.injEq, Except.ok.injEq, SeMemory.CanAllocate,
    SeMemory.afterBuffer]
  constructor
  · rintro ⟨_, _, ⟨h1, rfl, rfl⟩, _, _, ⟨h2, rfl⟩, ⟨content, _⟩, _, ⟨hdup, rfl⟩, _, _,
      ⟨h3, rfl, rfl⟩, _, _, ⟨-, rfl⟩, ⟨rfl, rfl⟩, rfl⟩
    exact ⟨⟨h1, h3⟩, by simpa using h2, content, cborStatus_ok.mp hdup, rfl, rfl⟩
  · rintro ⟨⟨h1, h3⟩, h2, content, hdup, rfl, rfl⟩
    exact ⟨_, _, ⟨h1, rfl, rfl⟩, (), _, ⟨by simpa using h2, rfl⟩, (content, next), _,
      ⟨cborStatus_ok.mpr hdup, rfl⟩, _, _, ⟨h3, rfl, rfl⟩, (), _, ⟨trivial, rfl⟩, ⟨rfl, rfl⟩, rfl⟩

/-- A call that fails has asked for memory at most. -/
theorem parseBufferWith_error {α : Type} {value : cbor.Value} {dup : Option (Bytes × α)}
    {e : WosMsgError} (h : parseBufferWith cbor value dup m = some (.error e, m')) :
    m' = { m with requests := m'.requests } := by
  unfold parseBufferWith at h
  rcases bind_error.mp h with h | ⟨r, m1, h1, h⟩
  · rw [(seMemAlloc_error h).2]
  obtain ⟨-, -, rfl⟩ := seMemAlloc_ok.mp h1
  rcases bind_error.mp h with h | ⟨_, m2, h2, h⟩
  · rw [← (failIf_error.mp h).2.2]
  obtain ⟨-, rfl⟩ := failIf_ok.mp h2
  rcases bind_error.mp h with h | ⟨d, m3, h3, h⟩
  · simp only [ofExcept_apply, Option.some.injEq, Prod.mk.injEq] at h
    rw [← h.2]
  simp only [ofExcept_apply, Option.some.injEq, Prod.mk.injEq] at h3
  obtain ⟨-, rfl⟩ := h3
  rcases bind_error.mp h with h | ⟨r', m4, h4, h⟩
  · rw [(seMemAlloc_error h).2]
  · rw [bind_of_ok modify_apply] at h
    simp at h

theorem returns_seMemAlloc {e : WosMsgError} : Returns (seMemAlloc e) := by
  intro m
  unfold seMemAlloc
  dsimp only
  split_ifs
  · exact ⟨_, _, rfl⟩
  · exact ⟨_, _, rfl⟩

theorem returns_ofExcept {α : Type} {x : Except WosMsgError α} :
    Returns (ofExcept x : SeCall α) := fun m => ⟨x, m, rfl⟩

theorem returns_parseBufferWith {α : Type} (value : cbor.Value) (dup : Option (Bytes × α)) :
    Returns (parseBufferWith cbor value dup) := by
  unfold parseBufferWith
  apply returns_seMemAlloc.bind
  intro request
  apply returns_failIf.bind
  intro _
  apply returns_ofExcept.bind
  intro d
  apply returns_seMemAlloc.bind
  intro _
  exact returns_modify.bind fun _ => fun m => ⟨_, m, rfl⟩

theorem parseBufferNext_ok {value next : cbor.Value} {p : Pointer} :
    parseBufferNext cbor value m = some (.ok (p, next), m') ↔
      m.CanAllocate ∧ ∃ content, msgCborParseByteStringNext cbor value = .ok (content, next) ∧
        p = .buffer m.requests content ∧ m' = m.afterBuffer := by
  simp only [parseBufferNext, parseBufferWith_ok, msgCborParseByteStringNext, except_bind_ok,
    reject_ok, cborStatus_ok, exists_and_left, exists_const, Bool.not_eq_false]
  constructor
  · rintro ⟨hm, hv, content, hdup, hrest⟩
    exact ⟨hm, content, ⟨hv, hdup⟩, hrest⟩
  · rintro ⟨hm, content, ⟨hv, hdup⟩, hrest⟩
    exact ⟨hm, hv, content, hdup, hrest⟩

theorem parseBuffer_ok {value : cbor.Value} {p : Pointer} :
    parseBuffer cbor value m = some (.ok p, m') ↔
      m.CanAllocate ∧ ∃ content, msgCborParseByteString cbor value = .ok content ∧
        p = .buffer m.requests content ∧ m' = m.afterBuffer := by
  unfold parseBuffer
  simp only [bind_ok, Prod.exists, parseBufferWith_ok, pure_apply, Option.some.injEq,
    Prod.mk.injEq, Except.ok.injEq, msgCborParseByteString, except_bind_ok, reject_ok,
    cborStatus_ok, exists_and_left, exists_const, Bool.not_eq_false, Option.map_eq_some_iff]
  constructor
  · rintro ⟨q, _, ⟨hm, hv, content, ⟨_, hdup, rfl, -⟩, rfl, rfl⟩, rfl, rfl⟩
    exact ⟨hm, _, ⟨hv, hdup⟩, rfl, rfl⟩
  · rintro ⟨hm, content, ⟨hv, hdup⟩, rfl, rfl⟩
    exact ⟨_, _, ⟨hm, hv, content, ⟨content, hdup, rfl, trivial⟩, rfl, rfl⟩, rfl, rfl⟩

theorem parseBuffer_error {value : cbor.Value} {e : WosMsgError}
    (h : parseBuffer cbor value m = some (.error e, m')) :
    m' = { m with requests := m'.requests } := by
  rcases bind_error.mp h with h | ⟨p, m1, -, h⟩
  · exact parseBufferWith_error h
  · simp at h

/-- Without memory or without a byte string there is no buffer. -/
theorem parseBuffer_fails {value : cbor.Value}
    (h : ¬ (m.CanAllocate ∧ ∃ content, msgCborParseByteString cbor value = .ok content)) :
    ∃ e n, parseBuffer cbor value m = some (.error e, { m with requests := n }) := by
  obtain ⟨e | p, m', hm'⟩ := (returns_parseBufferWith value _).bind
    (fun r => fun m => ⟨.ok r.1, m, rfl⟩) m
  · have heq := parseBuffer_error hm'
    rw [heq] at hm'
    exact ⟨e, _, hm'⟩
  · obtain ⟨hm, content, hp, -⟩ := parseBuffer_ok.mp hm'
    exact absurd ⟨hm, content, hp⟩ h

end Specs

/-! ## The fields -/

/-- The pointer fields, in the order the cleanup visits them. -/
def SeMemory.fields (m : SeMemory) : List Pointer :=
  [m.pEncodedSmpHeader, m.pMqttPacket, m.pEccDhPubParams, m.pSignature]

/-- While there is no table, the fields hold the buffers of the call. -/
structure FieldsHold (m : SeMemory) : Prop where
  own : ∀ p ∈ m.fields, p = .null ∨ ∃ r ∈ m.handedOut, p.request = some r
  once : (m.fields.filterMap Pointer.request).Perm m.handedOut
  nodup : m.handedOut.Nodup
  noTable : m.ppCerts = none
  unvisited : m.visited = []

theorem FieldsHold.requests {m : SeMemory} (h : FieldsHold m) (n : Nat) :
    FieldsHold { m with requests := n } :=
  ⟨h.own, h.once, h.nodup, h.noTable, h.unvisited⟩

/-- The pointer of the `j`-th field to be decoded, when these are. -/
def decodedField (contents : List Bytes) (j : Nat) : Pointer :=
  match contents[j]? with
  | some content => .buffer (2 * j) content
  | none => .null

/-- The memory when these fields are decoded: header, key, packet, signature. -/
def SeMemory.decodedSoFar (malloc : Nat → Bool) (cipherSchemeId : UInt8) (contents : List Bytes) :
    SeMemory :=
  { SeMemory.fresh malloc with
    requests := 2 * contents.length
    pEncodedSmpHeader := decodedField contents 0
    cipherSchemeId := cipherSchemeId
    pEccDhPubParams := decodedField contents 1
    pMqttPacket := decodedField contents 2
    pSignature := decodedField contents 3
    handedOut := (List.range contents.length).map (2 * ·) }

/-- The memory when all of them are. -/
def SeMemory.decoded (malloc : Nat → Bool) (q : WosMsgMqttsSeParams) : SeMemory :=
  { SeMemory.decodedSoFar malloc q.cipherSchemeId
      [q.encodedSmpHeader, q.eccDhPubParams, q.mqttPacket, q.signature] with
    numCerts := q.numCerts }

theorem fieldsHold_decodedSoFar (malloc : Nat → Bool) (id : UInt8) (contents : List Bytes)
    (h : contents.length ≤ 4) : FieldsHold (SeMemory.decodedSoFar malloc id contents) := by
  have nodup : ∀ k, ((List.range k).map (2 * ·)).Nodup := by
    intro k
    refine List.Nodup.map (fun a b hab => ?_) List.nodup_range
    have : 2 * a = 2 * b := hab
    omega
  rcases contents with _ | ⟨c0, _ | ⟨c1, _ | ⟨c2, _ | ⟨c3, _ | ⟨c4, contents⟩⟩⟩⟩⟩
  -- which fields are null, and where the buffers of the others came from
  · exact ⟨by simp [SeMemory.fields, SeMemory.decodedSoFar, decodedField],
      List.Perm.refl _, List.nodup_nil, rfl, rfl⟩
  · exact ⟨by simp [SeMemory.fields, SeMemory.decodedSoFar, decodedField, Pointer.request],
      List.Perm.refl _, nodup _, rfl, rfl⟩
  · exact ⟨by simp [SeMemory.fields, SeMemory.decodedSoFar, decodedField, Pointer.request],
      List.Perm.refl _, nodup _, rfl, rfl⟩
  · refine ⟨by simp [SeMemory.fields, SeMemory.decodedSoFar, decodedField, Pointer.request,
      List.range_succ], ?_, nodup _, rfl, rfl⟩
    show List.Perm [0, 4, 2] [0, 2, 4]
    decide
  · refine ⟨by simp [SeMemory.fields, SeMemory.decodedSoFar, decodedField, Pointer.request,
      List.range_succ], ?_, nodup _, rfl, rfl⟩
    show List.Perm [0, 4, 2, 6] [0, 2, 4, 6]
    decide
  · simp only [List.length_cons] at h
    omega

/-- A parse step of the fields, with what comes behind it: memory may be
    exhausted, or the string may be no good, or the rest goes on with one more
    buffer. -/
theorem parse_then {cbor : TinyCbor} {α : Type} {value : cbor.Value}
    {f : Pointer × cbor.Value → SeCall α} {m m' : SeMemory} {r : Except WosMsgError α}
    (h : (parseBufferNext cbor value >>= f) m = some (r, m')) :
    ((∃ e, r = .error e) ∧ m' = { m with requests := m'.requests }) ∨
      ∃ content next, m.CanAllocate ∧
        msgCborParseByteStringNext cbor value = .ok (content, next) ∧
        f (.buffer m.requests content, next) m.afterBuffer = some (r, m') := by
  rcases bind_some.mp h with ⟨e, he, rfl⟩ | ⟨⟨p, next⟩, m1, h1, hrest⟩
  · exact .inl ⟨⟨e, rfl⟩, parseBufferWith_error he⟩
  · obtain ⟨hm, content, hparse, rfl, rfl⟩ := parseBufferNext_ok.mp h1
    exact .inr ⟨content, next, hm, hparse, hrest⟩

theorem ofExcept_then {α β : Type} {x : Except WosMsgError β} {f : β → SeCall α}
    {m m' : SeMemory} {r : Except WosMsgError α} (h : (ofExcept x >>= f) m = some (r, m')) :
    ((∃ e, r = .error e) ∧ m' = m) ∨ ∃ b, x = .ok b ∧ f b m = some (r, m') := by
  rcases x with e | b
  · rw [bind_of_error (e := e) ofExcept_apply] at h
    simp only [Option.some.injEq, Prod.mk.injEq] at h
    exact .inl ⟨⟨e, h.1.symm⟩, h.2.symm⟩
  · exact .inr ⟨b, rfl, h⟩

/-- The fields phase: it fails with the fields holding what was allocated, or
    it has decoded all of them. -/
theorem unpackSeFieldsInto_cases {cbor : TinyCbor} {role : Role} {b : Bytes}
    {malloc : Nat → Bool} {m' : SeMemory} {r : Except WosMsgError (Nat × cbor.Value)}
    (h : unpackSeFieldsInto cbor role b (SeMemory.fresh malloc) = some (r, m')) :
    ((∃ e, r = .error e) ∧ FieldsHold m') ∨
      ∃ q n v, r = .ok (n, v) ∧ unpackSeFields cbor role b = .ok (q, n, v) ∧
        (∀ j < 8, malloc j = true) ∧ m' = SeMemory.decoded malloc q := by
  -- field by field: what was decoded before the call that fails is held by the record
  unfold unpackSeFieldsInto at h
  have held := fun (id : UInt8) (contents : List Bytes) (hc : contents.length ≤ 4) (n : Nat) =>
    (fieldsHold_decodedSoFar malloc id contents hc).requests n
  rcases bind_some.mp h with ⟨e, he, rfl⟩ | ⟨_, m1, h1, h1'⟩
  · left
    rw [← (failIf_error.mp he).2.2]
    exact ⟨⟨e, rfl⟩, held 0 [] (by simp) 0⟩
  obtain ⟨hb, rfl⟩ := failIf_ok.mp h1
  replace h1' : (ofExcept (enterRootArray cbor b) >>= _) (SeMemory.decodedSoFar malloc 0 []) =
    some (r, m') := h1'
  rcases ofExcept_then h1' with ⟨he, rfl⟩ | ⟨dataArray, hroot, h2⟩
  · exact .inl ⟨he, held 0 [] (by simp) 0⟩
  rcases parse_then h2 with ⟨he, heq⟩ | ⟨hdr, v1, a0, p0, h3⟩
  · rw [heq]
    exact .inl ⟨he, held 0 [] (by simp) _⟩
  replace h3 : (ofExcept (unpackCipherSchemeId cbor role v1) >>= _)
    (SeMemory.decodedSoFar malloc 0 [hdr]) = some (r, m') := h3
  rcases ofExcept_then h3 with ⟨he, rfl⟩ | ⟨⟨id, v2⟩, hid, h4⟩
  · exact .inl ⟨he, held 0 [hdr] (by simp) 2⟩
  replace h4 : (parseBufferNext cbor v2 >>= _) (SeMemory.decodedSoFar malloc id [hdr]) =
    some (r, m') := h4
  rcases parse_then h4 with ⟨he, heq⟩ | ⟨ecc, v3, a1, p1, h5⟩
  · rw [heq]
    exact .inl ⟨he, held id [hdr] (by simp) _⟩
  replace h5 : (parseBufferNext cbor v3 >>= _) (SeMemory.decodedSoFar malloc id [hdr, ecc]) =
    some (r, m') := h5
  rcases parse_then h5 with ⟨he, heq⟩ | ⟨packet, v4, a2, p2, h6⟩
  · rw [heq]
    exact .inl ⟨he, held id [hdr, ecc] (by simp) _⟩
  replace h6 : (parseBufferNext cbor v4 >>= _)
    (SeMemory.decodedSoFar malloc id [hdr, ecc, packet]) = some (r, m') := h6
  rcases parse_then h6 with ⟨he, heq⟩ | ⟨sig, v5, a3, p3, h7⟩
  · rw [heq]
    exact .inl ⟨he, held id [hdr, ecc, packet] (by simp) _⟩
  replace h7 : (ofExcept (msgCborParseUint64 cbor v5) >>= _)
    (SeMemory.decodedSoFar malloc id [hdr, ecc, packet, sig]) = some (r, m') := h7
  rcases ofExcept_then h7 with ⟨he, rfl⟩ | ⟨n, hn, h8⟩
  · exact .inl ⟨he, held id [hdr, ecc, packet, sig] (by simp) 8⟩
  replace h8 : some (.ok (n, v5), SeMemory.decoded malloc
    ⟨hdr, id, ecc, packet, sig, UInt8.ofNat n, []⟩) = some (r, m') := h8
  simp only [Option.some.injEq, Prod.mk.injEq] at h8
  obtain ⟨rfl, rfl⟩ := h8
  -- nothing failed, so every field was decoded and every request granted
  refine .inr ⟨⟨hdr, id, ecc, packet, sig, UInt8.ofNat n, []⟩, n, v5, rfl, ?_, ?_, rfl⟩
  · simp only [unpackSeFields, except_bind_ok]
    exact ⟨(), reject_ok.mpr hb, dataArray, hroot, (hdr, v1), p0, (id, v2), hid, (ecc, v3), p1,
      (packet, v4), p2, (sig, v5), p3, n, hn, rfl⟩
  · intro j hj
    have hall : malloc 0 = true ∧ malloc 1 = true ∧ malloc 2 = true ∧ malloc 3 = true ∧
        malloc 4 = true ∧ malloc 5 = true ∧ malloc 6 = true ∧ malloc 7 = true :=
      ⟨a0.1, a0.2, a1.1, a1.2, a2.1, a2.2, a3.1, a3.2⟩
    interval_cases j <;> simp [hall]

theorem returns_unpackSeFieldsInto (cbor : TinyCbor) (role : Role) (b : Bytes) :
    Returns (unpackSeFieldsInto cbor role b) := by
  unfold unpackSeFieldsInto
  refine returns_failIf.bind fun _ => returns_modify.bind fun _ => returns_ofExcept.bind fun _ => ?_
  refine (returns_parseBufferWith _ _).bind fun _ => returns_modify.bind fun _ => ?_
  refine returns_ofExcept.bind fun _ => returns_modify.bind fun _ => ?_
  refine (returns_parseBufferWith _ _).bind fun _ => returns_modify.bind fun _ => ?_
  refine (returns_parseBufferWith _ _).bind fun _ => returns_modify.bind fun _ => ?_
  refine (returns_parseBufferWith _ _).bind fun _ => returns_modify.bind fun _ => ?_
  exact returns_ofExcept.bind fun _ => returns_modify.bind fun _ => fun m => ⟨_, m, rfl⟩

/-- The fields phase succeeds when the fields decode and memory is left. -/
theorem unpackSeFieldsInto_of_ok {cbor : TinyCbor} {role : Role} {b : Bytes}
    {malloc : Nat → Bool} {q : WosMsgMqttsSeParams} {n : Nat} {v : cbor.Value}
    (hq : unpackSeFields cbor role b = .ok (q, n, v)) (hm : ∀ j < 8, malloc j = true) :
    unpackSeFieldsInto cbor role b (SeMemory.fresh malloc) =
      some (.ok (n, v), SeMemory.decoded malloc q) := by
  simp only [unpackSeFields, except_bind_ok, Prod.exists] at hq
  obtain ⟨_, hb, dataArray, hroot, hdr, v1, p0, id, v2, hid, ecc, v3, p1, packet, v4, p2, sig, v5,
    p3, k, hk, heq⟩ := hq
  cases heq
  have parse : ∀ (k : Nat) (m : SeMemory) {value next : cbor.Value} {content : Bytes},
      k + 1 < 8 → m.malloc = malloc → m.requests = k →
      msgCborParseByteStringNext cbor value = .ok (content, next) →
      parseBufferNext cbor value m = some (.ok (.buffer k content, next), m.afterBuffer) :=
    fun k m _ _ content hk hmal hreq hp => parseBufferNext_ok.mpr
      ⟨⟨by rw [hmal, hreq]; exact hm k (by omega), by rw [hmal, hreq]; exact hm (k + 1) hk⟩,
        content, hp, by rw [hreq], rfl⟩
  unfold unpackSeFieldsInto
  rw [bind_of_ok (failIf_ok (u := ()) |>.mpr ⟨reject_ok.mp hb, rfl⟩), bind_of_ok modify_apply, hroot,
    bind_of_ok (a := dataArray) ofExcept_apply, bind_of_ok (parse 0 _ (by decide) rfl rfl p0)]
  dsimp only
  rw [bind_of_ok modify_apply, hid, bind_of_ok (a := (id, v2)) ofExcept_apply]
  dsimp only
  rw [bind_of_ok modify_apply, bind_of_ok (parse 2 _ (by decide) rfl rfl p1)]
  dsimp only
  rw [bind_of_ok modify_apply, bind_of_ok (parse 4 _ (by decide) rfl rfl p2)]
  dsimp only
  rw [bind_of_ok modify_apply, bind_of_ok (parse 6 _ (by decide) rfl rfl p3)]
  dsimp only
  rw [bind_of_ok modify_apply, hk, bind_of_ok (a := n) ofExcept_apply, bind_of_ok modify_apply]
  rfl

/-! ## The certificates -/

/-- The certificates that can be read and stored from this value on, the first
    with this allocation request, before something fails. -/
def readCerts (cbor : TinyCbor) (malloc : Nat → Bool) : Nat → Nat → cbor.Value → List Bytes
  | 0, _, _ => []
  | remaining + 1, request, value =>
      match msgCborParseByteString cbor value with
      | .error _ => []
      | .ok cert =>
          if malloc request && malloc (request + 1) then
            match cbor.cborValueAdvance value with
            | none => [cert]
            | some next => cert :: readCerts cbor malloc remaining (request + 2) next
          else []

/-- The slot of the `j`-th certificate. -/
def certSlot (j : Nat) (cert : Bytes) : Pointer := .buffer (9 + 2 * j) cert

/-- A table of which these certificates fill the first slots. -/
def certTable (slots : Nat) (certs : List Bytes) : List Pointer :=
  certs.mapIdx certSlot ++ List.replicate (slots - certs.length) .uninitialised

/-- The memory with this table. -/
def SeMemory.withTable (m : SeMemory) (slots : Nat) (certs : List Bytes) : SeMemory :=
  { m with
    requests := 9 + 2 * certs.length
    ppCerts := some (certTable slots certs)
    handedOut := m.handedOut ++ (List.range certs.length).map (9 + 2 * ·)
    rounds := certs.length }

section Certificates

variable {cbor : TinyCbor} {m m' : SeMemory} {slots : Nat} {certs : List Bytes}

theorem certTable_length (h : certs.length ≤ slots) : (certTable slots certs).length = slots := by
  rw [certTable, List.length_append, List.length_mapIdx, List.length_replicate]
  omega

/-- Storing the next certificate fills the first free slot. -/
theorem certTable_set (h : certs.length < slots) (cert : Bytes) :
    (certTable slots certs).set certs.length (certSlot certs.length cert) =
      certTable slots (certs ++ [cert]) := by
  obtain ⟨k, hk⟩ : ∃ k, slots - certs.length = k + 1 := ⟨slots - certs.length - 1, by omega⟩
  have hk' : slots - (certs ++ [cert]).length = k := by
    rw [List.length_append, List.length_singleton]
    omega
  rw [certTable, certTable, hk, hk', List.mapIdx_concat, List.set_append_right _ _ (by simp),
    List.length_mapIdx, Nat.sub_self, List.replicate_succ, List.set_cons_zero, List.append_assoc,
    List.singleton_append]

/-- Parsing and storing a certificate, in a table with a free slot. -/
theorem store_next (h : certs.length < slots) (cert : Bytes) :
    storeSlot certs.length (.buffer (m.withTable slots certs).requests cert)
        (m.withTable slots certs).afterBuffer =
      some (.ok (), { m.withTable slots (certs ++ [cert]) with rounds := certs.length }) := by
  have hlt : certs.length < (certTable slots certs).length := by
    rw [certTable_length (by omega)]
    exact h
  have hlen : (certs ++ [cert]).length = certs.length + 1 := by simp
  have hset := certTable_set h cert
  unfold certSlot at hset
  unfold storeSlot SeMemory.afterBuffer SeMemory.withTable
  dsimp only
  rw [if_pos hlt, hset, hlen, List.range_succ, List.map_append, List.append_assoc]
  rfl

/-- Storing behind the table is undefined. -/
theorem store_behind (h : certs.length = slots) (p : Pointer) :
    storeSlot certs.length p (m.withTable slots certs).afterBuffer = none := by
  have hge : ¬ certs.length < (certTable slots certs).length := by
    rw [certTable_length (by omega)]
    omega
  unfold storeSlot SeMemory.afterBuffer SeMemory.withTable
  dsimp only
  rw [if_neg hge]

/-- What can be read from a value on starts with the certificate there. -/
theorem readCerts_succ {malloc : Nat → Bool} {remaining request : Nat} {value : cbor.Value}
    {cert : Bytes} (hp : msgCborParseByteString cbor value = .ok cert)
    (hm : malloc request = true ∧ malloc (request + 1) = true) :
    readCerts cbor malloc (remaining + 1) request value =
      cert :: match cbor.cborValueAdvance value with
        | none => []
        | some next => readCerts cbor malloc remaining (request + 2) next := by
  simp only [readCerts, hp, hm.1, hm.2, Bool.and_self, if_true]
  cases cbor.cborValueAdvance value with
  | none => rfl
  | some next => rfl

theorem readCerts_nil {remaining : Nat} {value : cbor.Value}
    (h : ¬ ((m.withTable slots certs).CanAllocate ∧
      ∃ content, msgCborParseByteString cbor value = .ok content)) :
    readCerts cbor m.malloc (remaining + 1) (9 + 2 * certs.length) value = [] := by
  unfold readCerts
  rcases hp : msgCborParseByteString cbor value with e | cert
  · rfl
  · dsimp only
    rw [if_neg]
    intro hm
    rw [Bool.and_eq_true] at hm
    exact h ⟨hm, cert, hp⟩

section Rounds

variable {remaining : Nat} {value : cbor.Value}

/-- A round in which there is no certificate to be stored. -/
theorem round_fails (remaining : Nat) (h : ¬ ((m.withTable slots certs).CanAllocate ∧
      ∃ content, msgCborParseByteString cbor value = .ok content)) :
    ∃ e n, unpackCertsInto cbor (remaining + 1) certs.length value (m.withTable slots certs) =
      some (.error e, { m.withTable slots certs with requests := n }) := by
  obtain ⟨e, n, he⟩ := parseBuffer_fails h
  exact ⟨e, n, bind_of_error he⟩

variable {cert : Bytes} (hm : (m.withTable slots certs).CanAllocate)
  (hp : msgCborParseByteString cbor value = .ok cert)

include hm hp

/-- A round with a certificate, but no slot for it. -/
theorem round_behind (h : certs.length = slots) :
    unpackCertsInto cbor (remaining + 1) certs.length value (m.withTable slots certs) = none := by
  unfold unpackCertsInto
  rw [bind_of_ok (parseBuffer_ok.mpr ⟨hm, cert, hp, rfl, rfl⟩)]
  rw [bind_apply, store_behind h]

/-- A round that stores its certificate and finds nothing behind it. -/
theorem round_last (h : certs.length < slots) (ha : cbor.cborValueAdvance value = none) :
    unpackCertsInto cbor (remaining + 1) certs.length value (m.withTable slots certs) =
      some (.error .error, { m.withTable slots (certs ++ [cert]) with rounds := certs.length }) := by
  unfold unpackCertsInto
  rw [bind_of_ok (parseBuffer_ok.mpr ⟨hm, cert, hp, rfl, rfl⟩), bind_of_ok (store_next h cert), ha]
  rfl

/-- A round that stores its certificate and goes on. -/
theorem round_next (h : certs.length < slots) {next : cbor.Value}
    (ha : cbor.cborValueAdvance value = some next) :
    unpackCertsInto cbor (remaining + 1) certs.length value (m.withTable slots certs) =
      unpackCertsInto cbor remaining (certs ++ [cert]).length next
        (m.withTable slots (certs ++ [cert])) := by
  have hlen : (certs ++ [cert]).length = certs.length + 1 := by simp
  rw [unpackCertsInto, bind_of_ok (parseBuffer_ok.mpr ⟨hm, cert, hp, rfl, rfl⟩),
    bind_of_ok (store_next h cert), ha,
    bind_of_ok (a := next) (x := ofExcept (cborStatus (some next))) rfl, bind_of_ok modify_apply]
  simp only [SeMemory.withTable, hlen]

end Rounds

/-- Where the certificate loop ends: behind the table, or with everything it
    could read stored, in an error or after its last round. -/
theorem unpackCertsInto_cases (m : SeMemory) (slots : Nat) (certs : List Bytes) (remaining : Nat)
    (value : cbor.Value) (h : certs.length ≤ slots) {more : List Bytes}
    (hmore : readCerts cbor m.malloc remaining (9 + 2 * certs.length) value = more) :
    (slots < certs.length + more.length ∧
      unpackCertsInto cbor remaining certs.length value (m.withTable slots certs) = none) ∨
    certs.length + more.length ≤ slots ∧
      ((∃ e requests rounds,
        unpackCertsInto cbor remaining certs.length value (m.withTable slots certs) =
          some (.error e, { m.withTable slots (certs ++ more) with
            requests := requests, rounds := rounds })) ∨
      more.length = remaining ∧
        unpackCertsInto cbor remaining certs.length value (m.withTable slots certs) =
          some (.ok (), m.withTable slots (certs ++ more))) := by
  -- on the rounds that are left; `certs` are those in the table
  induction remaining generalizing certs value more with
  | zero =>
      have hnil : more = [] := by rw [← hmore]; rfl
      subst hnil
      right
      refine ⟨by simpa using h, .inr ⟨rfl, ?_⟩⟩
      rw [List.append_nil]
      rfl
  | succ remaining ih =>
      by_cases hread : (m.withTable slots certs).CanAllocate ∧
          ∃ content, msgCborParseByteString cbor value = .ok content
      · obtain ⟨hm, cert, hp⟩ := hread
        have hmem : m.malloc (9 + 2 * certs.length) = true ∧
            m.malloc (9 + 2 * certs.length + 1) = true := hm
        rw [readCerts_succ hp hmem] at hmore
        -- there is a certificate and no slot for it
        by_cases hslot : certs.length = slots
        · left
          refine ⟨?_, round_behind hm hp hslot⟩
          rw [← hmore, List.length_cons]
          omega
        · rcases ha : cbor.cborValueAdvance value with _ | next
          · right
            simp only [ha] at hmore
            subst hmore
            refine ⟨by simp; omega, .inl ⟨.error, (m.withTable slots (certs ++ [cert])).requests,
              certs.length, ?_⟩⟩
            exact round_last hm hp (by omega) ha
          · simp only [ha] at hmore
            obtain ⟨rest, hrest⟩ : ∃ rest,
                readCerts cbor m.malloc remaining (9 + 2 * (certs ++ [cert]).length) next = rest :=
              ⟨_, rfl⟩
            have hreq : 9 + 2 * certs.length + 2 = 9 + 2 * (certs ++ [cert]).length := by
              simp
              omega
            rw [hreq, hrest] at hmore
            subst hmore
            rw [round_next hm hp (by omega) ha, List.append_cons certs cert rest]
            have hlen : (certs ++ [cert]).length + rest.length =
                certs.length + (cert :: rest).length := by
              simp
              omega
            rw [← hlen]
            have hle : (certs ++ [cert]).length ≤ slots := by
              simp
              omega
            rcases ih _ next hle hrest with hnone | ⟨hfit, herr | ⟨hall, hok⟩⟩
            · exact .inl hnone
            · exact .inr ⟨hfit, .inl herr⟩
            · exact .inr ⟨hfit, .inr ⟨by rw [List.length_cons, hall], hok⟩⟩
      · have hnil : more = [] := by
          rw [← hmore]
          exact readCerts_nil hread
        subst hnil
        right
        obtain ⟨e, n, he⟩ := round_fails remaining hread
        rw [List.append_nil]
        exact ⟨by simpa using h, .inl ⟨e, n, _, he⟩⟩

end Certificates

/-! ## The cleanup -/

theorem freeSlots_visits (m : SeMemory) (table : List Pointer) (remaining i : Nat)
    (ht : m.ppCerts = some table) (h : i + remaining ≤ table.length) :
    ∃ m', freeSlots remaining i m = some (.ok (), m') ∧
      m'.visited = m.visited ++ (table.drop i).take remaining ∧ m'.handedOut = m.handedOut := by
  induction remaining generalizing m table i with
  | zero => exact ⟨m, rfl, by simp, rfl⟩
  | succ remaining ih =>
      have hi : i < table.length := by omega
      have hread : (m.ppCerts.getD [])[i]? = some table[i] := by
        rw [ht, Option.getD_some]
        exact List.getElem?_eq_getElem hi
      have hstore : storeSlot i .null m =
          some (.ok (), { m with ppCerts := some (table.set i .null) }) := by
        unfold storeSlot
        rw [ht]
        dsimp only
        rw [if_pos hi]
      obtain ⟨m', hm', hvisited, hhanded⟩ := ih
        { m with ppCerts := some (table.set i .null), visited := m.visited ++ [table[i]] }
        (table.set i .null) (i + 1) rfl (by rw [List.length_set]; omega)
      refine ⟨m', ?_, ?_, hhanded⟩
      · unfold freeSlots
        rw [bind_of_ok get_apply, hread]
        dsimp only
        rw [bind_of_ok hstore, bind_of_ok modify_apply]
        exact hm'
      · rw [hvisited, List.drop_set_of_lt (by omega), List.drop_eq_getElem_cons hi,
          List.take_succ_cons, List.append_assoc, List.singleton_append]

/-- The cleanup visits the fields, and as many slots as the field says there are. -/
theorem free_visits {m : SeMemory}
    (h : ∀ table, m.ppCerts = some table → m.numCerts.toNat ≤ table.length) :
    ∃ m', wosMsgFreeSmpMqttsSEMessage m = some (.ok (), m') ∧
      m'.visited = m.visited ++ m.fields ++ (m.ppCerts.getD []).take m.numCerts.toNat ∧
      m'.handedOut = m.handedOut := by
  unfold wosMsgFreeSmpMqttsSEMessage freeField
  rw [bind_of_ok modify_apply, bind_of_ok modify_apply, bind_of_ok modify_apply,
    bind_of_ok modify_apply, bind_of_ok get_apply]
  dsimp only
  rcases ht : m.ppCerts with _ | table
  · refine ⟨_, rfl, ?_, rfl⟩
    simp [SeMemory.fields]
  · unfold onlyIf
    rw [if_pos (by simp)]
    obtain ⟨m', hm', hvisited, hhanded⟩ := freeSlots_visits
      { m with
        pEncodedSmpHeader := .null, pMqttPacket := .null, pEccDhPubParams := .null
        pSignature := .null
        visited := m.visited ++ [m.pEncodedSmpHeader] ++ [m.pMqttPacket] ++ [m.pEccDhPubParams] ++
          [m.pSignature] } table m.numCerts.toNat 0 ht (by have := h table ht; omega)
    rw [ht] at hm'
    refine ⟨{ m' with ppCerts := none, numCerts := 0 }, bind_of_ok hm', ?_, hhanded⟩
    rw [hvisited, Option.getD_some, List.drop_zero]
    simp [SeMemory.fields]

/-! ## Whole calls -/

section Calls

variable {cbor : TinyCbor} {role : Role} {malloc : Nat → Bool} {b : Bytes}

/-- The decoder gets as far as to allocate the table: this is the announced
    number of certificates, and the value that carries it. -/
def TableReached (cbor : TinyCbor) (role : Role) (malloc : Nat → Bool) (b : Bytes) (n : Nat)
    (v : cbor.Value) : Prop :=
  (∃ q, unpackSeFields cbor role b = .ok (q, n, v)) ∧ n % 256 ≠ 0 ∧ ∀ j < 9, malloc j = true

/-- The certificates behind their number that can be read and stored. -/
def certsBehind (cbor : TinyCbor) (malloc : Nat → Bool) (n : Nat) (v : cbor.Value) : List Bytes :=
  match cbor.cborValueAdvance v with
  | none => []
  | some next => readCerts cbor malloc n 9 next

theorem numCerts_of_fields {q : WosMsgMqttsSeParams} {n : Nat} {v : cbor.Value}
    (h : unpackSeFields cbor role b = .ok (q, n, v)) : q.numCerts.toNat = n % 256 := by
  obtain ⟨-, -, -, -, -, hnum⟩ := encodedSeIntegers_of_fields h
  rw [hnum, UInt8.toNat_ofNat']

/-- The empty table. -/
theorem allocateCertTable_ok {q : WosMsgMqttsSeParams} (hq : q.numCerts ≠ 0)
    (hm : malloc 8 = true) :
    allocateCertTable (SeMemory.decoded malloc q) =
      some (.ok (), (SeMemory.decoded malloc q).withTable q.numCerts.toNat []) := by
  have hne : ¬ (SeMemory.decoded malloc q).numCerts = 0 := hq
  have hmem : (SeMemory.decoded malloc q).malloc (SeMemory.decoded malloc q).requests = true := hm
  unfold allocateCertTable
  rw [bind_of_ok get_apply, bind_of_ok (failIf_ok (u := ()) |>.mpr ⟨hne, rfl⟩),
    bind_of_ok (seMemAlloc_ok.mpr ⟨hmem, rfl, rfl⟩)]
  simp [SeMemory.withTable, certTable, SeMemory.decoded, SeMemory.decodedSoFar, SeMemory.fresh]

theorem allocateCertTable_error {q : WosMsgMqttsSeParams}
    (h : ¬ (q.numCerts ≠ 0 ∧ malloc 8 = true)) :
    ∃ e n, allocateCertTable (SeMemory.decoded malloc q) =
      some (.error e, { SeMemory.decoded malloc q with requests := n }) := by
  unfold allocateCertTable
  rw [bind_of_ok get_apply]
  by_cases hq : (SeMemory.decoded malloc q).numCerts = 0
  · exact ⟨.outOfMemory, 8, bind_of_error (failIf_error.mpr ⟨hq, rfl, rfl⟩)⟩
  · have hm : ¬ malloc 8 = true := fun hm => h ⟨hq, hm⟩
    rw [bind_of_ok (failIf_ok (u := ()) |>.mpr ⟨hq, rfl⟩)]
    exact ⟨.outOfMemory, 9, bind_of_error (if_neg hm)⟩

/-- The decoder stops before there is a table, with the fields in order. -/
theorem unpackSeMessageInto_of_not_reached
    (h : ∀ n v, ¬ TableReached cbor role malloc b n v) :
    ∃ e m', unpackSeMessageInto cbor role b (SeMemory.fresh malloc) = some (.error e, m') ∧
      FieldsHold m' := by
  obtain ⟨r, m', hr⟩ := returns_unpackSeFieldsInto cbor role b (SeMemory.fresh malloc)
  rcases unpackSeFieldsInto_cases hr with ⟨⟨e, rfl⟩, hhold⟩ | ⟨q, n, v, rfl, hq, hm, rfl⟩
  · exact ⟨e, m', bind_of_error hr, hhold⟩
  · -- the fields are there, so it is the table that cannot be allocated
    have hno : ¬ (q.numCerts ≠ 0 ∧ malloc 8 = true) := by
      rintro ⟨hne, h8⟩
      refine h n v ⟨⟨q, hq⟩, ?_, fun j hj => ?_⟩
      · rw [← numCerts_of_fields hq]
        exact fun h0 => hne (UInt8.toNat_inj.mp h0)
      · by_cases hj8 : j = 8
        · rw [hj8]
          exact h8
        · exact hm j (by omega)
    obtain ⟨e, k, he⟩ := allocateCertTable_error hno
    refine ⟨e, _, (bind_of_ok hr).trans (bind_of_error he), ?_⟩
    have hold := fieldsHold_decodedSoFar malloc q.cipherSchemeId
      [q.encodedSmpHeader, q.eccDhPubParams, q.mqttPacket, q.signature] (by simp)
    exact ⟨hold.own, hold.once, hold.nodup, hold.noTable, hold.unvisited⟩

/-- The decoder gets to the certificates. -/
theorem unpackSeMessageInto_of_reached {n : Nat} {v : cbor.Value}
    (h : TableReached cbor role malloc b n v) :
    ∃ q, unpackSeFields cbor role b = .ok (q, n, v) ∧
      (n % 256 < (certsBehind cbor malloc n v).length ∧
          unpackSeMessageInto cbor role b (SeMemory.fresh malloc) = none ∨
        (certsBehind cbor malloc n v).length ≤ n % 256 ∧
          ((∃ e requests rounds, unpackSeMessageInto cbor role b (SeMemory.fresh malloc) =
              some (.error e, { (SeMemory.decoded malloc q).withTable (n % 256)
                (certsBehind cbor malloc n v) with requests := requests, rounds := rounds })) ∨
            (certsBehind cbor malloc n v).length = n ∧
              unpackSeMessageInto cbor role b (SeMemory.fresh malloc) =
                some (.ok (), (SeMemory.decoded malloc q).withTable (n % 256)
                  (certsBehind cbor malloc n v)))) := by
  obtain ⟨⟨q, hq⟩, hn, hm⟩ := h
  have hnum := numCerts_of_fields hq
  have hne : q.numCerts ≠ 0 := by
    intro h0
    rw [h0] at hnum
    exact hn hnum.symm
  refine ⟨q, hq, ?_⟩
  have hrun : unpackSeMessageInto cbor role b (SeMemory.fresh malloc) = _ :=
    (bind_of_ok (unpackSeFieldsInto_of_ok hq fun j hj => hm j (by omega))).trans
      (bind_of_ok (allocateCertTable_ok hne (hm 8 (by omega))))
  rw [hrun, hnum]
  unfold certsBehind
  rcases hadv : cbor.cborValueAdvance v with _ | next
  · right
    refine ⟨by simp, .inl ⟨.error, 9, 0, rfl⟩⟩
  · rw [bind_of_ok (a := next) (x := ofExcept (cborStatus (some next))) rfl]
    dsimp only
    have hmore : readCerts cbor (SeMemory.decoded malloc q).malloc n
        (9 + 2 * ([] : List Bytes).length) next = readCerts cbor malloc n 9 next := rfl
    have hcases := unpackCertsInto_cases (SeMemory.decoded malloc q) (n % 256) [] n next (by simp)
      hmore
    simpa only [List.length_nil, Nat.zero_add, List.nil_append] using hcases

/-- What the whole call comes to, by what it has decoded. -/
theorem unpackInto_of_error {e : WosMsgError} {m' : SeMemory}
    (h : unpackSeMessageInto cbor role b (SeMemory.fresh malloc) = some (.error e, m'))
    (ht : ∀ table, m'.ppCerts = some table → m'.numCerts.toNat ≤ table.length) :
    ∃ m'', wosMsgUnpackSmpMqttsSEMessageInto cbor role b (SeMemory.fresh malloc) =
        some (.error e, m'') ∧
      m''.visited = m'.visited ++ m'.fields ++ (m'.ppCerts.getD []).take m'.numCerts.toNat ∧
      m''.handedOut = m'.handedOut := by
  obtain ⟨m'', hfree, hvisited, hhanded⟩ := free_visits ht
  refine ⟨m'', ?_, hvisited, hhanded⟩
  unfold wosMsgUnpackSmpMqttsSEMessageInto onErr
  rw [h]
  dsimp only
  rw [hfree]
  rfl

theorem unpackInto_of_ok {m' : SeMemory}
    (h : unpackSeMessageInto cbor role b (SeMemory.fresh malloc) = some (.ok (), m')) :
    wosMsgUnpackSmpMqttsSEMessageInto cbor role b (SeMemory.fresh malloc) = some (.ok (), m') := by
  unfold wosMsgUnpackSmpMqttsSEMessageInto onErr
  rw [h]

theorem unpackInto_of_none
    (h : unpackSeMessageInto cbor role b (SeMemory.fresh malloc) = none) :
    wosMsgUnpackSmpMqttsSEMessageInto cbor role b (SeMemory.fresh malloc) = none := by
  unfold wosMsgUnpackSmpMqttsSEMessageInto onErr
  rw [h]

/-- The table has as many slots as the field says. -/
theorem slots_of_certTable {m : SeMemory} {certs : List Bytes} {slots : Nat}
    (hp : m.ppCerts = some (certTable slots certs)) (hnum : m.numCerts.toNat = slots)
    (hle : certs.length ≤ slots) :
    ∀ table, m.ppCerts = some table → m.numCerts.toNat ≤ table.length := by
  intro table ht
  have heq : certTable slots certs = table := Option.some.inj (hp.symm.trans ht)
  rw [← heq, certTable_length hle, hnum]

/-! ### Slots in range -/

/-- No slot behind the table is touched; the loop makes as many rounds as the
    message announces, or the call fails; what is handed to the caller can be
    read slot by slot, and released. -/
structure SlotsInRange (cbor : TinyCbor) (role : Role) (malloc : Nat → Bool) (b : Bytes) :
    Prop where
  returns : wosMsgUnpackSmpMqttsSEMessageInto cbor role b (SeMemory.fresh malloc) ≠ none
  succeeds : ∀ m', wosMsgUnpackSmpMqttsSEMessageInto cbor role b (SeMemory.fresh malloc) =
      some (.ok (), m') →
    ∃ e table, encodedSeIntegers role b = some e ∧ m'.rounds = e.numCerts ∧
      m'.numCerts.toNat = e.numCerts ∧ m'.ppCerts = some table ∧ table.length = e.numCerts ∧
      (∀ p ∈ table, p.request ≠ none) ∧ wosMsgFreeSmpMqttsSEMessage m' ≠ none

theorem request_of_mem_mapIdx {certs : List Bytes} {p : Pointer}
    (h : p ∈ certs.mapIdx certSlot) :
    ∃ j, j < certs.length ∧ p.request = some (9 + 2 * j) := by
  obtain ⟨j, hj, rfl⟩ := List.mem_mapIdx.mp h
  exact ⟨j, hj, rfl⟩

theorem slotsInRange_of_full {q : WosMsgMqttsSeParams} {n : Nat} {v : cbor.Value}
    {certs : List Bytes} {m' : SeMemory} (hq : unpackSeFields cbor role b = .ok (q, n, v))
    (hall : certs.length = n) (hle : certs.length ≤ n % 256)
    (hm' : m' = (SeMemory.decoded malloc q).withTable (n % 256) certs) :
    ∃ e table, encodedSeIntegers role b = some e ∧ m'.rounds = e.numCerts ∧
      m'.numCerts.toNat = e.numCerts ∧ m'.ppCerts = some table ∧ table.length = e.numCerts ∧
      (∀ p ∈ table, p.request ≠ none) ∧ wosMsgFreeSmpMqttsSEMessage m' ≠ none := by
  have hn : n % 256 = n := by omega
  have hnum := numCerts_of_fields hq
  obtain ⟨scheme, hcur, huint, -⟩ := encodedSeIntegers_of_fields hq
  subst hm'
  refine ⟨⟨scheme, n⟩, certTable (n % 256) certs, ?_, hall, ?_, rfl, ?_, ?_, ?_⟩
  · simp only [encodedSeIntegers, hcur, huint, Option.bind_eq_bind, Option.bind_some]
  · exact hnum.trans hn
  · rw [certTable_length hle]
    exact hn
  · intro p hp
    have hrep : n % 256 - certs.length = 0 := by omega
    rw [certTable, hrep, List.replicate_zero, List.append_nil] at hp
    obtain ⟨j, -, hj⟩ := request_of_mem_mapIdx hp
    rw [hj]
    simp
  · obtain ⟨m'', hfree, -⟩ := free_visits (m := (SeMemory.decoded malloc q).withTable (n % 256) certs)
      (slots_of_certTable rfl hnum hle)
    rw [hfree]
    simp

theorem slotsInRange_of_error {e : WosMsgError} {m' : SeMemory}
    (h : wosMsgUnpackSmpMqttsSEMessageInto cbor role b (SeMemory.fresh malloc) =
      some (.error e, m')) : SlotsInRange cbor role malloc b := by
  refine ⟨by rw [h]; simp, fun m'' h'' => ?_⟩
  rw [h] at h''
  simp at h''

/-- The decoder keeps to the table exactly when the message has no more
    certificates than the 8-bit number it announces. -/
theorem slots_in_range_iff (cbor : TinyCbor) (role : Role) (malloc : Nat → Bool) (b : Bytes) :
    SlotsInRange cbor role malloc b ↔
      ∀ n v, TableReached cbor role malloc b n v →
        (certsBehind cbor malloc n v).length ≤ n % 256 := by
  constructor
  · intro h n v hreach
    obtain ⟨q, -, ⟨-, hnone⟩ | ⟨hle, -⟩⟩ := unpackSeMessageInto_of_reached hreach
    · exact absurd (unpackInto_of_none hnone) h.returns
    · exact hle
  · intro h
    by_cases hreach : ∃ n v, TableReached cbor role malloc b n v
    · obtain ⟨n, v, hreach⟩ := hreach
      obtain ⟨q, hq, ⟨hlt, -⟩ | ⟨hle, ⟨e, requests, rounds, herr⟩ | ⟨hall, hok⟩⟩⟩ :=
        unpackSeMessageInto_of_reached hreach
      · have := h n v hreach
        omega
      · obtain ⟨m'', hrun, -⟩ := unpackInto_of_error herr
          (slots_of_certTable rfl (numCerts_of_fields hq) hle)
        exact slotsInRange_of_error hrun
      · have hrun := unpackInto_of_ok hok
        refine ⟨by rw [hrun]; simp, fun m' hm' => ?_⟩
        rw [hrun] at hm'
        simp only [Option.some.injEq, Prod.mk.injEq, true_and] at hm'
        exact slotsInRange_of_full hq hall hle hm'.symm
    · push Not at hreach
      obtain ⟨e, m', herr, hhold⟩ := unpackSeMessageInto_of_not_reached hreach
      have hnoTable : ∀ table, m'.ppCerts = some table → m'.numCerts.toNat ≤ table.length := by
        intro table ht
        rw [hhold.noTable] at ht
        simp at ht
      obtain ⟨m'', hrun, -⟩ := unpackInto_of_error herr hnoTable
      exact slotsInRange_of_error hrun

/-- A message that announces 257 certificates and brings two; the table has one
    slot. -/
def overfullTable : Bytes := [0x9f, 0x40, 0x40, 0x40, 0x40, 0x19, 1, 1, 0x40, 0x40, 0xff]

theorem overfullTable_not_in_range :
    ¬ SlotsInRange (rfc7049 0) .client (fun _ => true) overfullTable := by
  intro h
  have hnone : (wosMsgUnpackSmpMqttsSEMessageInto (rfc7049 0) .client overfullTable
      (SeMemory.fresh fun _ => true)).isNone = true := by decide +kernel
  exact h.returns (Option.isNone_iff_eq_none.mp hnone)

/-! ### A clean failure -/

/-- What the cleanup has visited: null pointers and buffers of this call, each
    buffer once and all of them. -/
structure CleanVisit (m : SeMemory) : Prop where
  own : ∀ p ∈ m.visited, p = .null ∨ ∃ r ∈ m.handedOut, p.request = some r
  once : (m.visited.filterMap Pointer.request).Perm m.handedOut
  nodup : m.handedOut.Nodup

/-- The call keeps to its memory, and cleans up after itself when it fails. -/
structure CleanFailure (cbor : TinyCbor) (role : Role) (malloc : Nat → Bool) (b : Bytes) :
    Prop where
  returns : wosMsgUnpackSmpMqttsSEMessageInto cbor role b (SeMemory.fresh malloc) ≠ none
  clean : ∀ e m', wosMsgUnpackSmpMqttsSEMessageInto cbor role b (SeMemory.fresh malloc) =
    some (.error e, m') → CleanVisit m'

/-- With a slot that was never filled, the visit is not clean. -/
theorem full_of_cleanVisit {m : SeMemory} {fields certs : List Pointer} {k : Nat}
    (hvisited : m.visited = fields ++ (certs ++ List.replicate k .uninitialised))
    (h : CleanVisit m) : k = 0 := by
  by_contra hk
  have hmem : Pointer.uninitialised ∈ m.visited := by
    rw [hvisited]
    exact List.mem_append_right _ (List.mem_append_right _ (List.mem_replicate.mpr ⟨hk, rfl⟩))
  rcases h.own _ hmem with h | ⟨r, -, h⟩
  · simp at h
  · simp [Pointer.request] at h

theorem filterMap_request_mapIdx (certs : List Bytes) :
    (certs.mapIdx certSlot).filterMap Pointer.request =
      (List.range certs.length).map (9 + 2 * ·) := by
  induction certs using List.reverseRecOn with
  | nil => rfl
  | append_singleton certs cert ih =>
      rw [List.mapIdx_concat, List.filterMap_append, ih, List.length_append, List.length_singleton,
        List.range_succ, List.map_append]
      rfl

/-- Fields and table in order make a clean visit. -/
theorem cleanVisit_of_full {q : WosMsgMqttsSeParams} {certs : List Bytes} {m : SeMemory}
    (hvisited : m.visited = (SeMemory.decoded malloc q).fields ++ certs.mapIdx certSlot)
    (hhanded : m.handedOut = (SeMemory.decoded malloc q).handedOut ++
      (List.range certs.length).map (9 + 2 * ·)) : CleanVisit m := by
  have hfields := fieldsHold_decodedSoFar malloc q.cipherSchemeId
    [q.encodedSmpHeader, q.eccDhPubParams, q.mqttPacket, q.signature] (by simp)
  refine ⟨fun p hp => ?_, ?_, ?_⟩
  · rw [hvisited, List.mem_append] at hp
    rw [hhanded]
    rcases hp with hp | hp
    · rcases hfields.own p hp with h | ⟨r, hr, h⟩
      · exact .inl h
      · exact .inr ⟨r, List.mem_append_left _ hr, h⟩
    · obtain ⟨j, hj, h⟩ := request_of_mem_mapIdx hp
      exact .inr ⟨_, List.mem_append_right _
        (List.mem_map.mpr ⟨j, List.mem_range.mpr hj, rfl⟩), h⟩
  · rw [hvisited, hhanded, List.filterMap_append, filterMap_request_mapIdx]
    exact hfields.once.append_right _
  · rw [hhanded]
    refine List.Nodup.append hfields.nodup ?_ ?_
    · refine List.Nodup.map (fun a c hac => ?_) List.nodup_range
      have : 9 + 2 * a = 9 + 2 * c := hac
      omega
    · -- the fields come from even requests, the certificates from odd ones
      intro r hr hr'
      obtain ⟨j, -, rfl⟩ := List.mem_map.mp hr'
      obtain ⟨i, -, hi⟩ := List.mem_map.mp hr
      have : 2 * i = 9 + 2 * j := hi
      omega

/-- What the cleanup visits behind a table. -/
theorem visited_of_table {q : WosMsgMqttsSeParams} {n : Nat} {v : cbor.Value}
    {certs : List Bytes} {e : WosMsgError} {requests rounds : Nat}
    (hq : unpackSeFields cbor role b = .ok (q, n, v)) (hle : certs.length ≤ n % 256)
    (herr : unpackSeMessageInto cbor role b (SeMemory.fresh malloc) =
      some (.error e, { (SeMemory.decoded malloc q).withTable (n % 256) certs with
        requests := requests, rounds := rounds })) :
    ∃ m', wosMsgUnpackSmpMqttsSEMessageInto cbor role b (SeMemory.fresh malloc) =
        some (.error e, m') ∧
      m'.visited = (SeMemory.decoded malloc q).fields ++ (certs.mapIdx certSlot ++
        List.replicate (n % 256 - certs.length) .uninitialised) ∧
      m'.handedOut = (SeMemory.decoded malloc q).handedOut ++
        (List.range certs.length).map (9 + 2 * ·) := by
  have hnum := numCerts_of_fields hq
  obtain ⟨m', hrun, hvisited, hhanded⟩ := unpackInto_of_error herr
    (slots_of_certTable rfl hnum hle)
  refine ⟨m', hrun, ?_, hhanded⟩
  have htake : (certTable (n % 256) certs).take q.numCerts.toNat = certTable (n % 256) certs := by
    rw [hnum, List.take_of_length_le]
    rw [certTable_length hle]
  rw [hvisited]
  show [] ++ _ ++ (certTable (n % 256) certs).take q.numCerts.toNat = _
  rw [htake, List.nil_append]
  rfl

/-- A failing call visits nothing but its own buffers exactly when, once it has
    a table, there is a certificate for every slot of it and no more. -/
theorem clean_failure_iff (cbor : TinyCbor) (role : Role) (malloc : Nat → Bool) (b : Bytes) :
    CleanFailure cbor role malloc b ↔
      ∀ n v, TableReached cbor role malloc b n v →
        (certsBehind cbor malloc n v).length = n % 256 := by
  constructor
  · intro h n v hreach
    obtain ⟨q, hq, ⟨-, hnone⟩ | ⟨hle, ⟨e, requests, rounds, herr⟩ | ⟨hall, -⟩⟩⟩ :=
      unpackSeMessageInto_of_reached hreach
    · exact absurd (unpackInto_of_none hnone) h.returns
    · obtain ⟨m', hrun, hvisited, -⟩ := visited_of_table hq hle herr
      have := full_of_cleanVisit hvisited (h.clean e m' hrun)
      omega
    · omega
  · intro h
    -- without a table only the fields are cleaned up
    by_cases hreach : ∃ n v, TableReached cbor role malloc b n v
    · obtain ⟨n, v, hreach⟩ := hreach
      have hfull := h n v hreach
      obtain ⟨q, hq, ⟨hlt, -⟩ | ⟨hle, ⟨e, requests, rounds, herr⟩ | ⟨-, hok⟩⟩⟩ :=
        unpackSeMessageInto_of_reached hreach
      · omega
      · obtain ⟨m', hrun, hvisited, hhanded⟩ := visited_of_table hq hle herr
        refine ⟨by rw [hrun]; simp, fun e' m'' hm'' => ?_⟩
        rw [hrun, Option.some.injEq, Prod.mk.injEq] at hm''
        rw [← hm''.2]
        rw [hfull, Nat.sub_self, List.replicate_zero, List.append_nil] at hvisited
        exact cleanVisit_of_full hvisited hhanded
      · have hrun := unpackInto_of_ok hok
        refine ⟨by rw [hrun]; simp, fun e m' hm' => ?_⟩
        rw [hrun] at hm'
        simp at hm'
    -- without a table only the fields are cleaned up
    · push Not at hreach
      obtain ⟨e, m', herr, hhold⟩ := unpackSeMessageInto_of_not_reached hreach
      have hnoTable : ∀ table, m'.ppCerts = some table → m'.numCerts.toNat ≤ table.length := by
        intro table ht
        rw [hhold.noTable] at ht
        simp at ht
      obtain ⟨m'', hrun, hvisited, hhanded⟩ := unpackInto_of_error herr hnoTable
      refine ⟨by rw [hrun]; simp, fun e' m3 hm3 => ?_⟩
      rw [hrun, Option.some.injEq, Prod.mk.injEq] at hm3
      rw [← hm3.2]
      -- only the fields are visited
      rw [hhold.unvisited, hhold.noTable, Option.getD_none, List.take_nil, List.append_nil,
        List.nil_append] at hvisited
      exact ⟨by rw [hvisited, hhanded]; exact hhold.own, by rw [hvisited, hhanded]; exact hhold.once,
        by rw [hhanded]; exact hhold.nodup⟩

/-- A message that announces two certificates and brings one. -/
def missingCertificate : Bytes := [0x9f, 0x40, 0x40, 0x40, 0x40, 2, 0x40, 0xff]

theorem missingCertificate_not_clean :
    ¬ CleanFailure (rfc7049 0) .client (fun _ => true) missingCertificate := by
  intro h
  have hrun : ((wosMsgUnpackSmpMqttsSEMessageInto (rfc7049 0) .client missingCertificate
      (SeMemory.fresh fun _ => true)).map fun r => (r.1, r.2.visited)) =
      some (.error .badFormat, [.buffer 0 [], .buffer 4 [], .buffer 2 [], .buffer 6 [],
        .buffer 9 [], .uninitialised]) := by decide +kernel
  obtain ⟨⟨r, m'⟩, hm', heq⟩ := Option.map_eq_some_iff.mp hrun
  simp only [Prod.mk.injEq] at heq
  obtain ⟨rfl, hvisited⟩ := heq
  rcases (h.clean _ m' hm').own .uninitialised (by rw [hvisited]; simp) with h | ⟨r, -, h⟩
  · simp at h
  · simp [Pointer.request] at h

end Calls

/-! ## With enough memory

When no allocation fails, the decoder with its memory has the results of the
one without it. -/

/-- No allocation fails. -/
def SeMemory.Plentiful (m : SeMemory) : Prop := ∀ request, m.malloc request = true

/-- The bytes of a buffer. -/
def Pointer.content : Pointer → Bytes
  | .buffer _ content => content
  | _ => []

/-- The decoded parameters, without the memory they lie in. -/
def SeMemory.params (m : SeMemory) : WosMsgMqttsSeParams where
  encodedSmpHeader := m.pEncodedSmpHeader.content
  cipherSchemeId := m.cipherSchemeId
  eccDhPubParams := m.pEccDhPubParams.content
  mqttPacket := m.pMqttPacket.content
  signature := m.pSignature.content
  numCerts := m.numCerts
  certs := (m.ppCerts.getD []).map Pointer.content

section Plentiful

variable {cbor : TinyCbor} {role : Role} {b : Bytes}

/-- The errors of a buffer are those of its byte string. -/
theorem parseBufferWith_of_error {α : Type} {value : cbor.Value} {dup : Option (Bytes × α)}
    {m : SeMemory} (hm : m.Plentiful) {e : WosMsgError}
    (h : (do reject (cbor.cborValueIsByteString value = false) .badFormat; cborStatus dup) =
      (.error e : Except WosMsgError (Bytes × α))) :
    parseBufferWith cbor value dup m = some (.error e, { m with requests := m.requests + 1 }) := by
  unfold parseBufferWith
  rw [bind_of_ok (seMemAlloc_ok.mpr ⟨hm _, rfl, rfl⟩)]
  by_cases hv : cbor.cborValueIsByteString value = false
  · have he : e = .badFormat := by
      unfold reject at h
      rw [if_pos hv] at h
      cases h
      rfl
    exact bind_of_error (failIf_error.mpr ⟨hv, he.symm, rfl⟩)
  · rw [bind_of_ok (failIf_ok (u := ()) |>.mpr ⟨hv, rfl⟩)]
    unfold reject at h
    rw [if_neg hv] at h
    have hdup : cborStatus dup = .error e := h
    rw [hdup]
    rfl

/-- A buffer in front of a call that does not look at it. -/
theorem computes_parse_bind {α : Type} {value : cbor.Value}
    {f : Pointer × cbor.Value → SeCall α} {g : cbor.Value → Except WosMsgError α}
    (h : ∀ p next, Computes SeMemory.Plentiful (f (p, next)) (g next)) :
    Computes SeMemory.Plentiful (parseBufferNext cbor value >>= f)
      (msgCborParseByteStringNext cbor value >>= fun r => g r.2) := by
  intro m hm
  rcases hp : msgCborParseByteStringNext cbor value with e | ⟨content, next⟩
  · exact ⟨_, bind_of_error (parseBufferWith_of_error hm hp), hm⟩
  · obtain ⟨m', hm', hplenty⟩ := h (.buffer m.requests content) next m.afterBuffer hm
    exact ⟨m', (bind_of_ok (parseBufferNext_ok.mpr ⟨⟨hm _, hm _⟩, content, hp, rfl, rfl⟩)).trans hm',
      hplenty⟩

theorem unpackSeFieldsInto_computes (role : Role) (b : Bytes) :
    Computes SeMemory.Plentiful (unpackSeFieldsInto cbor role b)
      (Prod.snd <$> unpackSeFields cbor role b) := by
  have h : Computes SeMemory.Plentiful (unpackSeFieldsInto cbor role b) _ :=
    computes_failIf.bind fun _ => computes_modify_bind (fun _ h => h) <|
    computes_ofExcept.bind fun _ => computes_parse_bind fun _ _ =>
    computes_modify_bind (fun _ h => h) <| computes_ofExcept.bind fun _ =>
    computes_modify_bind (fun _ h => h) <| computes_parse_bind fun _ _ =>
    computes_modify_bind (fun _ h => h) <| computes_parse_bind fun _ _ =>
    computes_modify_bind (fun _ h => h) <| computes_parse_bind fun _ _ =>
    computes_modify_bind (fun _ h => h) <| computes_ofExcept.bind fun _ =>
    computes_modify_bind (fun _ h => h) computes_pure
  unfold unpackSeFields
  simpa only [map_bind, map_pure] using h

theorem parseBuffer_of_error {value : cbor.Value} {m : SeMemory} (hm : m.Plentiful)
    {e : WosMsgError} (h : msgCborParseByteString cbor value = .error e) :
    parseBuffer cbor value m = some (.error e, { m with requests := m.requests + 1 }) := by
  refine bind_of_error (parseBufferWith_of_error hm ?_)
  unfold msgCborParseByteString at h
  by_cases hv : cbor.cborValueIsByteString value = false
  · simp only [reject, if_pos hv] at h ⊢
    cases h
    rfl
  · simp only [reject, if_neg hv] at h ⊢
    -- no string is duplicated in either form of the call
    rcases hdup : cbor.cborValueDupByteString value with _ | content
    · rw [hdup] at h
      cases h
      rfl
    · rw [hdup] at h
      cases h

/-- The two certificate loops go through the same rounds. -/
theorem unpackCertsInto_agrees {m : SeMemory} (hm : m.Plentiful) (slots : Nat) (certs : List Bytes)
    (remaining : Nat) (value : cbor.Value) (h : certs.length ≤ slots) :
    (unpackCertsInto cbor remaining certs.length value (m.withTable slots certs) = none ∧
        unpackCerts cbor slots remaining certs.length value = none) ∨
      (∃ e m', unpackCertsInto cbor remaining certs.length value (m.withTable slots certs) =
          some (.error e, m') ∧
        unpackCerts cbor slots remaining certs.length value = some (.error e)) ∨
      ∃ more, unpackCertsInto cbor remaining certs.length value (m.withTable slots certs) =
          some (.ok (), m.withTable slots (certs ++ more)) ∧
        unpackCerts cbor slots remaining certs.length value = some (.ok more) := by
  induction remaining generalizing certs value with
  | zero => exact .inr (.inr ⟨[], by rw [List.append_nil]; rfl, rfl⟩)
  | succ remaining ih =>
      have hplenty : (m.withTable slots certs).Plentiful := hm
      have hmem : (m.withTable slots certs).CanAllocate := ⟨hm _, hm _⟩
      rcases hp : msgCborParseByteString cbor value with e | cert
      · right
        left
        refine ⟨e, _, bind_of_error (parseBuffer_of_error hplenty hp), ?_⟩
        simp only [unpackCerts, hp]
      · by_cases hslot : certs.length = slots
        · left
          refine ⟨round_behind hmem hp hslot, ?_⟩
          simp only [unpackCerts, hp]
          rw [if_pos (by omega)]
        · rcases hadv : cbor.cborValueAdvance value with _ | next
          · right
            left
            refine ⟨.error, _, round_last hmem hp (by omega) hadv, ?_⟩
            simp only [unpackCerts, hp, hadv]
            rw [if_neg (by omega)]
          · have hpure : unpackCerts cbor slots (remaining + 1) certs.length value =
                (unpackCerts cbor slots remaining (certs ++ [cert]).length next).map
                  fun r => r.map (cert :: ·) := by
              simp only [unpackCerts, hp, hadv, List.length_append, List.length_singleton]
              rw [if_neg (by omega)]
            rw [round_next hmem hp (by omega) hadv, hpure]
            have hle : (certs ++ [cert]).length ≤ slots := by
              simp
              omega
            rcases ih (certs ++ [cert]) next hle with
              ⟨hnone, hnone'⟩ | ⟨e, m', herr, herr'⟩ | ⟨more, hok, hok'⟩
            · exact .inl ⟨hnone, by rw [hnone']; rfl⟩
            · exact .inr (.inl ⟨e, m', herr, by rw [herr']; rfl⟩)
            · refine .inr (.inr ⟨cert :: more, ?_, by rw [hok']; rfl⟩)
              rw [List.append_cons certs cert more]
              exact hok

theorem params_withTable {malloc : Nat → Bool} {q : WosMsgMqttsSeParams} {slots : Nat}
    {certs : List Bytes} (hall : certs.length = slots) :
    ((SeMemory.decoded malloc q).withTable slots certs).params = { q with certs := certs } := by
  have hcerts : (certTable slots certs).map Pointer.content = certs := by
    rw [certTable, hall, Nat.sub_self, List.replicate_zero, List.append_nil]
    exact List.ext_getElem (by simp) fun j _ _ => by simp [certSlot, Pointer.content]
  show WosMsgMqttsSeParams.mk _ _ _ _ _ _ ((certTable slots certs).map Pointer.content) = _
  rw [hcerts]
  rfl

/-- The two decoders up to the exit label. -/
theorem unpackSeMessageInto_agrees (cbor : TinyCbor) (role : Role) (b : Bytes) :
    (unpackSeMessageInto cbor role b (SeMemory.fresh fun _ => true) = none ∧
        wosMsgUnpackSmpMqttsSEMessage cbor role b = none) ∨
      (∃ e m', unpackSeMessageInto cbor role b (SeMemory.fresh fun _ => true) =
          some (.error e, m') ∧
        wosMsgUnpackSmpMqttsSEMessage cbor role b = some (.error e)) ∨
      ∃ m', unpackSeMessageInto cbor role b (SeMemory.fresh fun _ => true) = some (.ok (), m') ∧
        wosMsgUnpackSmpMqttsSEMessage cbor role b = some (.ok m'.params) := by
  have hplenty : (SeMemory.fresh fun _ => true).Plentiful := fun _ => rfl
  unfold unpackSeMessageInto wosMsgUnpackSmpMqttsSEMessage
  rcases hq : unpackSeFields cbor role b with e | ⟨q, n, v⟩
  · right
    left
    obtain ⟨m', hm', -⟩ := @unpackSeFieldsInto_computes cbor role b _ hplenty
    rw [hq] at hm'
    exact ⟨e, m', bind_of_error hm', rfl⟩
  · rw [bind_of_ok (unpackSeFieldsInto_of_ok hq fun _ _ => rfl)]
    dsimp only
    -- `calloc` of no elements counts as out of memory
    by_cases hnum : q.numCerts = 0
    · right
      left
      have hfail : allocateCertTable (SeMemory.decoded (fun _ => true) q) =
          some (.error .outOfMemory, SeMemory.decoded (fun _ => true) q) :=
        (bind_of_ok get_apply).trans (bind_of_error (failIf_error.mpr ⟨hnum, rfl, rfl⟩))
      refine ⟨.outOfMemory, _, bind_of_error hfail, ?_⟩
      rw [if_pos hnum]
    · rw [bind_of_ok (allocateCertTable_ok hnum rfl), if_neg hnum]
      rcases hadv : cbor.cborValueAdvance v with _ | next
      · exact .inr (.inl ⟨.error, _, rfl, rfl⟩)
      · rw [bind_of_ok (a := next) (x := ofExcept (cborStatus (some next))) rfl]
        dsimp only
        rcases unpackCertsInto_agrees (m := SeMemory.decoded (fun _ => true) q) (fun _ => rfl)
          q.numCerts.toNat [] n next (Nat.zero_le _) with
          ⟨hnone, hnone'⟩ | ⟨e, m', herr, herr'⟩ | ⟨certs, hok, hok'⟩
        · exact .inl ⟨hnone, by rw [List.length_nil] at hnone'; rw [hnone']; rfl⟩
        · refine .inr (.inl ⟨e, m', herr, ?_⟩)
          rw [List.length_nil] at herr'
          rw [herr']
          rfl
        · rw [List.length_nil] at hok'
          refine .inr (.inr ⟨_, hok, ?_⟩)
          obtain ⟨hlen, hle⟩ := unpackCerts_ok_length hok'
          -- the table and the loop have the same count here, or the loop had come
          -- behind the table
          have hfull : certs.length = q.numCerts.toNat := by
            rw [numCerts_of_fields hq] at hle ⊢
            have := Nat.mod_le n 256
            omega
          rw [hok', List.nil_append, params_withTable hfull]
          rfl

/-- The cleanup of a failing call stays inside the table. -/
theorem table_of_error {malloc : Nat → Bool} {e : WosMsgError} {m' : SeMemory}
    (h : unpackSeMessageInto cbor role b (SeMemory.fresh malloc) = some (.error e, m')) :
    ∀ table, m'.ppCerts = some table → m'.numCerts.toNat ≤ table.length := by
  by_cases hreach : ∃ n v, TableReached cbor role malloc b n v
  · obtain ⟨n, v, hreach⟩ := hreach
    obtain ⟨q, hq, ⟨-, hnone⟩ | ⟨hle, ⟨e', requests, rounds, herr⟩ | ⟨-, hok⟩⟩⟩ :=
      unpackSeMessageInto_of_reached hreach
    · rw [hnone] at h
      simp at h
    · rw [herr, Option.some.injEq, Prod.mk.injEq] at h
      rw [← h.2]
      exact slots_of_certTable rfl (numCerts_of_fields hq) hle
    · rw [hok] at h
      simp at h
  · push Not at hreach
    obtain ⟨e', m'', herr, hhold⟩ := unpackSeMessageInto_of_not_reached hreach
    intro table ht
    rw [herr, Option.some.injEq, Prod.mk.injEq] at h
    rw [← h.2, hhold.noTable] at ht
    simp at ht

/-- With enough memory, the decoder with its memory and the one without it have
    the same result. -/
theorem unpackInto_agrees (cbor : TinyCbor) (role : Role) (b : Bytes) :
    (wosMsgUnpackSmpMqttsSEMessageInto cbor role b (SeMemory.fresh fun _ => true)).map
        (fun r => r.1.map fun _ => r.2.params) =
      wosMsgUnpackSmpMqttsSEMessage cbor role b := by
  rcases unpackSeMessageInto_agrees cbor role b with
    ⟨hnone, hpure⟩ | ⟨e, m', herr, hpure⟩ | ⟨m', hok, hpure⟩
  · rw [unpackInto_of_none hnone, hpure]
    rfl
  · obtain ⟨m'', hrun, -⟩ := unpackInto_of_error herr (table_of_error herr)
    rw [hrun, hpure]
    rfl
  · rw [unpackInto_of_ok hok, hpure]
    rfl

end Plentiful

end WeeveMQ
