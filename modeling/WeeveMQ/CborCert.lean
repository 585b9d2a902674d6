/-
  WeeveMQ.CborCert

  Serialisation of certificates: `wosCborCert.c`, with what it alone uses of
  `msgCborUtils.c`.

  A certificate is a container around its encoded "to be signed" part (TBS).
  Allocation succeeds, so what the decoders allocate is left out.  Each result
  is the same on every TinyCBOR that implements RFC 7049.
-/

import WeeveMQ.MsgSmpConforms

namespace WeeveMQ

open Call (reject except_bind_ok)

/-- `WosCertTbsType_t`. -/
structure WosCertTbsType where
  version : UInt32
  signatureAlgorithm : UInt8
  issuerId : WosString
  subjectId : WosString
  subjectPubKeyInfo : UInt8
  subjectPubKey : Bytes
  deriving DecidableEq, Repr

/-- `WosCertContainerType_t`. -/
structure WosCertContainerType where
  version : UInt32
  encodedTbs : Bytes
  signature : Bytes
  deriving DecidableEq, Repr

/-- The bytes an integer takes, RFC 7049 section 2.1. -/
def msgCborCalcLengthUInt (value : UInt64) : UInt32 :=
  if value ≤ 23 then 1
  else if value ≤ 255 then 2
  else if value ≤ 65535 then 3
  else if value ≤ 4294967295 then 5
  else 9

/-- A string with its head; `length` is its 32-bit length. -/
def calcLengthString (length : UInt32) : UInt32 :=
  msgCborCalcLengthUInt length.toUInt64 + length

/-! ## Length calculators -/

/-- The check all three functions of a TBS make. -/
def WosCertTbsType.isBad (certTbs : WosCertTbsType) : Bool :=
  wosStringLength certTbs.issuerId = 0 ∨ wosStringLength certTbs.subjectId = 0 ∨
    certTbs.subjectPubKey = []

/-- The check all three functions of a container make. -/
def WosCertContainerType.isBad (container : WosCertContainerType) : Bool :=
  container.encodedTbs = [] ∨ container.signature = []

def wosCborCalcCertificateTbs (certTbs : WosCertTbsType) : Except WosMsgError UInt32 := do
  reject (certTbs.isBad = true) .badParams
  -- the array
  let packedLength : UInt32 := 1
  let packedLength := packedLength + msgCborCalcLengthUInt certTbs.version.toUInt64
  let packedLength := packedLength + msgCborCalcLengthUInt certTbs.signatureAlgorithm.toUInt64
  let aux := UInt32.ofNat (wosStringLength certTbs.issuerId)
  let packedLength := packedLength + calcLengthString aux
  let aux := UInt32.ofNat (wosStringLength certTbs.subjectId)
  let packedLength := packedLength + calcLengthString aux
  let packedLength := packedLength + msgCborCalcLengthUInt certTbs.subjectPubKeyInfo.toUInt64
  let packedLength := packedLength + calcLengthString (UInt32.ofNat certTbs.subjectPubKey.length)
  -- its closure
  return packedLength + 1

def wosCborCalcCertificateContainer (container : WosCertContainerType) :
    Except WosMsgError UInt32 := do
  reject (container.isBad = true) .badParams
  let packedLength : UInt32 := 1
  let packedLength := packedLength + msgCborCalcLengthUInt container.version.toUInt64
  let packedLength := packedLength + calcLengthString (UInt32.ofNat container.encodedTbs.length)
  let packedLength := packedLength + calcLengthString (UInt32.ofNat container.signature.length)
  return packedLength + 1

section Functions

variable (cbor : TinyCbor)

/-! ## Packing -/

/-- `size` is the length of the caller's buffer. -/
def wosCborPackCertificateTbs (certTbs : WosCertTbsType) (size : Nat) :
    Except WosMsgError Bytes := do
  reject (certTbs.isBad = true ∨ size = 0) .badParams
  let encoder := cbor.cborEncoderInit size
  let dataArray ← cborStatus (cbor.cborEncoderCreateArray encoder)
  let dataArray ← cborStatus (cbor.cborEncodeUint dataArray certTbs.version.toNat)
  let dataArray ← cborStatus (cbor.cborEncodeUint dataArray certTbs.signatureAlgorithm.toNat)
  let dataArray ← cborStatus (cbor.cborEncodeTextStringz dataArray certTbs.issuerId)
  let dataArray ← cborStatus (cbor.cborEncodeTextStringz dataArray certTbs.subjectId)
  let dataArray ← cborStatus (cbor.cborEncodeUint dataArray certTbs.subjectPubKeyInfo.toNat)
  let dataArray ← cborStatus (cbor.cborEncodeByteString dataArray certTbs.subjectPubKey)
  let encoder ← cborStatus (cbor.cborEncoderCloseContainerChecked encoder dataArray)
  return cbor.cborEncoderGetBuffer encoder

def wosCborPackCertificateContainer (cert : WosCertContainerType) (size : Nat) :
    Except WosMsgError Bytes := do
  reject (cert.isBad = true ∨ size = 0) .badParams
  let encoder := cbor.cborEncoderInit size
  let dataArray ← cborStatus (cbor.cborEncoderCreateArray encoder)
  let dataArray ← cborStatus (cbor.cborEncodeUint dataArray cert.version.toNat)
  let dataArray ← cborStatus (cbor.cborEncodeByteString dataArray cert.encodedTbs)
  let dataArray ← cborStatus (cbor.cborEncodeByteString dataArray cert.signature)
  let encoder ← cborStatus (cbor.cborEncoderCloseContainerChecked encoder dataArray)
  return cbor.cborEncoderGetBuffer encoder

/-! ## Unpacking -/

/-- `msgCborParseTextString`.  The length is dropped: what is handed on ends at
    the first terminator for everyone who uses it. -/
def msgCborParseTextString (value : cbor.Value) : Except WosMsgError (WosString × cbor.Value) := do
  reject (cbor.cborValueIsTextString value = false) .badFormat
  let (tempString, length, next) ← cborStatus (cbor.cborValueDupTextStringNext value)
  reject (tempString[length]? ≠ some WOS_STRING_NULL_TERM) .badFormat
  return (tempString.take length, next)

/-- Every parse error of a certificate is reported as `WOS_MSG_ERROR`. -/
def parseStatus {α : Type} (x : Except WosMsgError α) : Except WosMsgError α :=
  x.mapError fun _ => .error

/-- The integers are narrowed to 8 bits, also the version, whose field has 32. -/
def wosCborUnpackCertificateTbs (packedBuffer : Bytes) : Except WosMsgError WosCertTbsType := do
  reject (packedBuffer = []) .badParams
  let iterator ← enterRootArray cbor packedBuffer
  let version ← parseStatus (msgCborParseUint64 cbor iterator)
  let iterator ← cborStatus (cbor.cborValueAdvanceFixed iterator)
  let signatureAlgorithm ← parseStatus (msgCborParseUint64 cbor iterator)
  let iterator ← cborStatus (cbor.cborValueAdvanceFixed iterator)
  let (issuerId, iterator2) ← parseStatus (msgCborParseTextString cbor iterator)
  let (subjectId, iterator) ← parseStatus (msgCborParseTextString cbor iterator2)
  let subjectPubKeyInfo ← parseStatus (msgCborParseUint64 cbor iterator)
  let iterator ← cborStatus (cbor.cborValueAdvanceFixed iterator)
  let (subjectPubKey, _) ← parseStatus (msgCborParseByteStringNext cbor iterator)
  return {
    version := (UInt8.ofNat version).toUInt32
    signatureAlgorithm := UInt8.ofNat signatureAlgorithm
    issuerId := issuerId
    subjectId := subjectId
    subjectPubKeyInfo := UInt8.ofNat subjectPubKeyInfo
    subjectPubKey := subjectPubKey }

def wosCborUnpackCertificateContainer (packedBuffer : Bytes) :
    Except WosMsgError WosCertContainerType := do
  reject (packedBuffer = []) .badParams
  let iterator ← enterRootArray cbor packedBuffer
  let version ← parseStatus (msgCborParseUint64 cbor iterator)
  let iterator ← cborStatus (cbor.cborValueAdvanceFixed iterator)
  let (encodedTbs, iterator2) ← parseStatus (msgCborParseByteStringNext cbor iterator)
  let (signature, _) ← parseStatus (msgCborParseByteStringNext cbor iterator2)
  return {
    version := (UInt8.ofNat version).toUInt32
    encodedTbs := encodedTbs
    signature := signature }

end Functions

/-! ## Running on RFC 7049 -/

section Conformance

variable (cbor : TinyCbor)

theorem uint64_of_uint32 (n : UInt32) : n.toNat < 2 ^ 64 := by
  have := n.toNat_lt
  omega

theorem wosCborPackCertificateTbs_conforms (certTbs : WosCertTbsType) (size : Nat) :
    wosCborPackCertificateTbs cbor certTbs size =
      wosCborPackCertificateTbs cbor.reference certTbs size := by
  have uint8 := fun n : UInt8 => uint64_of_uint8 n
  have uint32 := uint64_of_uint32 certTbs.version
  unfold wosCborPackCertificateTbs
  refine reject_conforms Iff.rfl fun _ => ?_
  simp only
  rw [← cbor.encoderInit_writer size]
  refine bind_conforms (encode_conforms cbor (cbor.createArray_writer _)) fun e _ => ?_
  refine bind_conforms (encode_conforms cbor (cbor.encodeUint_writer e _ uint32)) fun e _ => ?_
  refine bind_conforms (encode_conforms cbor (cbor.encodeUint_writer e _ (uint8 _))) fun e _ => ?_
  refine bind_conforms (encode_conforms cbor (cbor.encodeTextStringz_writer e _)) fun e _ => ?_
  refine bind_conforms (encode_conforms cbor (cbor.encodeTextStringz_writer e _)) fun e _ => ?_
  refine bind_conforms (encode_conforms cbor (cbor.encodeUint_writer e _ (uint8 _))) fun e _ => ?_
  refine bind_conforms (encode_conforms cbor (cbor.encodeByteString_writer e _)) fun e _ => ?_
  refine bind_conforms (encode_conforms cbor (cbor.closeContainer_writer _ e)) fun e _ => ?_
  rw [cbor.getBuffer_writer]

theorem wosCborPackCertificateContainer_conforms (cert : WosCertContainerType) (size : Nat) :
    wosCborPackCertificateContainer cbor cert size =
      wosCborPackCertificateContainer cbor.reference cert size := by
  have uint32 := uint64_of_uint32 cert.version
  unfold wosCborPackCertificateContainer
  refine reject_conforms Iff.rfl fun _ => ?_
  simp only
  rw [← cbor.encoderInit_writer size]
  refine bind_conforms (encode_conforms cbor (cbor.createArray_writer _)) fun e _ => ?_
  refine bind_conforms (encode_conforms cbor (cbor.encodeUint_writer e _ uint32)) fun e _ => ?_
  refine bind_conforms (encode_conforms cbor (cbor.encodeByteString_writer e _)) fun e _ => ?_
  refine bind_conforms (encode_conforms cbor (cbor.encodeByteString_writer e _)) fun e _ => ?_
  refine bind_conforms (encode_conforms cbor (cbor.closeContainer_writer _ e)) fun e _ => ?_
  rw [cbor.getBuffer_writer]

theorem msgCborParseTextString_conforms (v : cbor.Value) :
    (msgCborParseTextString cbor v).map (Prod.map id cbor.cursor) =
      msgCborParseTextString cbor.reference (cbor.cursor v) := by
  refine reject_map_conforms (by rw [cbor.isTextString_cursor]) fun hv => ?_
  have hdup : (cborStatus (cbor.cborValueDupTextStringNext v)).map
      (Prod.map id (Prod.map id cbor.cursor)) =
        cborStatus (cbor.reference.cborValueDupTextStringNext (cbor.cursor v)) := by
    rw [cborStatus_map, cbor.dupTextStringNext_cursor v (by simpa using hv)]
  refine bind_map_conforms hdup fun r _ => ?_
  exact reject_map_conforms Iff.rfl fun _ => rfl

variable {cbor}

theorem parseStatus_conforms {α β : Type} {view : α → β} {x : Except WosMsgError α}
    {y : Except WosMsgError β} (h : x.map view = y) :
    (parseStatus x).map view = parseStatus y := by
  subst h
  cases x <;> rfl

@[simp] theorem parseStatus_ok {α : Type} {x : Except WosMsgError α} {a : α} :
    parseStatus x = .ok a ↔ x = .ok a := Call.except_mapError_ok

variable (cbor)

/-- An integer, and the step to the next item. -/
theorem parseUint_conforms {γ : Type} {v : cbor.Value}
    {f : Nat → cbor.Value → Except WosMsgError γ}
    {g : Nat → cbor.reference.Value → Except WosMsgError γ}
    (hfg : ∀ n v', f n v' = g n (cbor.cursor v')) :
    (do
      let n ← parseStatus (msgCborParseUint64 cbor v)
      let v' ← cborStatus (cbor.cborValueAdvanceFixed v)
      f n v') =
    (do
      let n ← parseStatus (msgCborParseUint64 cbor.reference (cbor.cursor v))
      let v' ← cborStatus (cbor.reference.cborValueAdvanceFixed (cbor.cursor v))
      g n v') := by
  have hparse := parseStatus_conforms ((map_id_eq _).trans (msgCborParseUint64_conforms cbor v))
  refine bind_conforms hparse fun n hn => ?_
  refine bind_conforms (advanceFixed_conforms cbor (isUnsignedInteger_of_parse
    (parseStatus_ok.mp hn))) fun v' _ => hfg n v'

theorem wosCborUnpackCertificateTbs_conforms (b : Bytes) :
    wosCborUnpackCertificateTbs cbor b = wosCborUnpackCertificateTbs cbor.reference b := by
  have text := fun v => parseStatus_conforms (msgCborParseTextString_conforms cbor v)
  have bytes := fun v => parseStatus_conforms (msgCborParseByteStringNext_conforms cbor v)
  unfold wosCborUnpackCertificateTbs
  refine reject_conforms Iff.rfl fun _ => ?_
  refine bind_conforms (enterRootArray_conforms cbor b) fun v _ => ?_
  refine parseUint_conforms cbor fun version v => ?_
  refine parseUint_conforms cbor fun signatureAlgorithm v => ?_
  refine bind_conforms (text v) fun issuerId _ => ?_
  refine bind_conforms (text issuerId.2) fun subjectId _ => ?_
  refine parseUint_conforms cbor fun subjectPubKeyInfo v => ?_
  exact bind_conforms (bytes v) fun subjectPubKey _ => rfl

theorem wosCborUnpackCertificateContainer_conforms (b : Bytes) :
    wosCborUnpackCertificateContainer cbor b =
      wosCborUnpackCertificateContainer cbor.reference b := by
  have bytes := fun v => parseStatus_conforms (msgCborParseByteStringNext_conforms cbor v)
  unfold wosCborUnpackCertificateContainer
  refine reject_conforms Iff.rfl fun _ => ?_
  refine bind_conforms (enterRootArray_conforms cbor b) fun v _ => ?_
  refine parseUint_conforms cbor fun version v => ?_
  refine bind_conforms (bytes v) fun encodedTbs _ => ?_
  exact bind_conforms (bytes encodedTbs.2) fun signature _ => rfl

end Conformance

end WeeveMQ
