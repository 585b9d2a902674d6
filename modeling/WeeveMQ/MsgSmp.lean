/-
  WeeveMQ.MsgSmp

  Serialisation of SMP messages: `msgCborUtils.c` and `wosMsgSmp.c`.

  Allocation succeeds, so what the decoders allocate is left out; only the
  table of certificates keeps its size, because a message may announce more
  certificates than the table has slots for.
-/

import WeeveMQ.Lib.Call
import WeeveMQ.TinyCbor

namespace WeeveMQ

open Call (reject)

/-- `WCL_SMP_CLIENT_ID_LENGTH`. -/
def WCL_SMP_CLIENT_ID_LENGTH : Nat := 32

/-- `WOS_STRING_NULL_TERM`. -/
def WOS_STRING_NULL_TERM : UInt8 := 0

/-- `WosSmpHeader_t`. -/
structure WosSmpHeader where
  messageContext : UInt8
  messageContextVersion : UInt8
  messageType : Nat
  clientId : WosString
  messageId : UInt32
  deriving DecidableEq, Repr

/-- `WosMsgMqttsSeParams_t`. -/
structure WosMsgMqttsSeParams where
  encodedSmpHeader : Bytes
  cipherSchemeId : UInt8
  eccDhPubParams : Bytes
  mqttPacket : Bytes
  signature : Bytes
  numCerts : UInt8
  certs : List Bytes
  deriving DecidableEq, Repr

/-- `WosMsgMqttsControlParams_t`. -/
structure WosMsgMqttsControlParams where
  encodedSmpHeader : Bytes
  mqttPacket : Bytes
  iv : Bytes
  authTag : Bytes
  deriving DecidableEq, Repr

/-- Every `CborError` leaves through `exit:` as `WOS_MSG_ERROR`. -/
def cborStatus {α : Type} : Option α → Except WosMsgError α
  | none => .error .error
  | some a => .ok a

section Functions

variable (cbor : TinyCbor)

/-! ## `msgCborUtils.c` -/

def msgCborParseUint64 (value : cbor.Value) : Except WosMsgError Nat := do
  reject (cbor.cborValueIsUnsignedInteger value = false) .badFormat
  cborStatus (cbor.cborValueGetUint64 value)

/-- `msgCborParseByteString` with `pNextCborValue` null. -/
def msgCborParseByteString (value : cbor.Value) : Except WosMsgError Bytes := do
  reject (cbor.cborValueIsByteString value = false) .badFormat
  cborStatus (cbor.cborValueDupByteString value)

/-- `msgCborParseByteString` that also fetches the next object. -/
def msgCborParseByteStringNext (value : cbor.Value) : Except WosMsgError (Bytes × cbor.Value) := do
  reject (cbor.cborValueIsByteString value = false) .badFormat
  cborStatus (cbor.cborValueDupByteStringNext value)

/-! ## Headers -/

/-- `size` is the capacity of the caller's buffer. -/
def wosMsgPackSmpHeader (messageHeader : WosSmpHeader) (size : Nat) :
    Except WosMsgError Bytes := do
  reject (wosStringLength messageHeader.clientId > WCL_SMP_CLIENT_ID_LENGTH) .badParams
  -- an array of indefinite length, so its end is a break byte
  let encoder := cbor.cborEncoderInit size
  let dataArray ← cborStatus (cbor.cborEncoderCreateArray encoder)
  let dataArray ← cborStatus (cbor.cborEncodeUint dataArray messageHeader.messageContext.toNat)
  let dataArray ←
    cborStatus (cbor.cborEncodeUint dataArray messageHeader.messageContextVersion.toNat)
  let dataArray ← cborStatus (cbor.cborEncodeUint dataArray messageHeader.messageType)
  let dataArray ← cborStatus (cbor.cborEncodeTextStringz dataArray messageHeader.clientId)
  let dataArray ← cborStatus (cbor.cborEncodeUint dataArray messageHeader.messageId.toNat)
  let encoder ← cborStatus (cbor.cborEncoderCloseContainerChecked encoder dataArray)
  return cbor.cborEncoderGetBuffer encoder

/-- Enter the root array of a message. -/
def enterRootArray (packedBuffer : Bytes) : Except WosMsgError cbor.Value := do
  let value ← cborStatus (cbor.cborParserInit packedBuffer)
  reject (cbor.cborValueIsArray value = false) .badFormat
  cborStatus (cbor.cborValueEnterContainer value)

/-- Second half of `wosMsgUnpackSmpHeaderFromSmpMsg`: the fields of the encoded
    header.  The numbers are narrowed to their fields, and nothing behind the
    message id is looked at. -/
def unpackSmpHeader (smpCborHeader : Bytes) : Except WosMsgError WosSmpHeader := do
  let dataArray ← enterRootArray cbor smpCborHeader
  let messageContext ← msgCborParseUint64 cbor dataArray
  let dataArray ← cborStatus (cbor.cborValueAdvanceFixed dataArray)
  let messageContextVersion ← msgCborParseUint64 cbor dataArray
  let dataArray ← cborStatus (cbor.cborValueAdvanceFixed dataArray)
  let messageType ← msgCborParseUint64 cbor dataArray
  let dataArray ← cborStatus (cbor.cborValueAdvance dataArray)
  reject (cbor.cborValueIsTextString dataArray = false) .badFormat
  -- one byte more than the id, for the terminator
  let (clientId, clientIdLength) ←
    cborStatus (cbor.cborValueCopyTextString dataArray (WCL_SMP_CLIENT_ID_LENGTH + 1))
  reject (clientIdLength > WCL_SMP_CLIENT_ID_LENGTH ∨
    clientId[clientIdLength]? ≠ some WOS_STRING_NULL_TERM) .badFormat
  let dataArray ← cborStatus (cbor.cborValueAdvance dataArray)
  let messageId ← msgCborParseUint64 cbor dataArray
  return {
    messageContext := UInt8.ofNat messageContext
    messageContextVersion := UInt8.ofNat messageContextVersion
    messageType := messageType % 256
    clientId := clientId.take clientIdLength
    messageId := UInt32.ofNat messageId }

def wosMsgUnpackSmpHeaderFromSmpMsg (packedBuffer : Bytes) : Except WosMsgError WosSmpHeader := do
  reject (packedBuffer = []) .badParams
  let dataArray ← enterRootArray cbor packedBuffer
  let extractedSmpCborHeader ← msgCborParseByteString cbor dataArray
  unpackSmpHeader cbor extractedSmpCborHeader

/-! ## Session establishment messages -/

/-- The certificate loop of the packer. -/
def packCerts (dataArray : cbor.Encoder) : List Bytes → Except WosMsgError cbor.Encoder
  | [] => .ok dataArray
  | certBuffer :: certs => do
      reject (certBuffer = []) .badParams
      let dataArray ← cborStatus (cbor.cborEncodeByteString dataArray certBuffer)
      packCerts dataArray certs

/-- The cipher scheme is part of the client's message only. -/
def packCipherSchemeId (role : Role) (dataArray : cbor.Encoder) (cipherSchemeId : UInt8) :
    Except WosMsgError cbor.Encoder :=
  match role with
  | .client => cborStatus (cbor.cborEncodeUint dataArray cipherSchemeId.toNat)
  | .broker => .ok dataArray

def wosMsgPackSmpMqttsSEMessage (role : Role) (seParams : WosMsgMqttsSeParams) (size : Nat) :
    Except WosMsgError Bytes := do
  reject (seParams.encodedSmpHeader = [] ∨ seParams.eccDhPubParams = [] ∨
    seParams.mqttPacket = [] ∨ seParams.signature = [] ∨ seParams.numCerts < 1 ∨ size = 0)
    .badParams
  let encoder := cbor.cborEncoderInit size
  let dataArray ← cborStatus (cbor.cborEncoderCreateArray encoder)
  let dataArray ← cborStatus (cbor.cborEncodeByteString dataArray seParams.encodedSmpHeader)
  let dataArray ← packCipherSchemeId cbor role dataArray seParams.cipherSchemeId
  let dataArray ← cborStatus (cbor.cborEncodeByteString dataArray seParams.eccDhPubParams)
  let dataArray ← cborStatus (cbor.cborEncodeByteString dataArray seParams.mqttPacket)
  let dataArray ← cborStatus (cbor.cborEncodeByteString dataArray seParams.signature)
  let dataArray ← cborStatus (cbor.cborEncodeUint dataArray seParams.numCerts.toNat)
  let dataArray ← packCerts cbor dataArray (seParams.certs.take seParams.numCerts.toNat)
  let encoder ← cborStatus (cbor.cborEncoderCloseContainerChecked encoder dataArray)
  return cbor.cborEncoderGetBuffer encoder

/-- The broker reads the cipher scheme, the client's message has none. -/
def unpackCipherSchemeId (role : Role) (value1 : cbor.Value) :
    Except WosMsgError (UInt8 × cbor.Value) :=
  match role with
  | .client => .ok (0, value1)
  | .broker => do
      let cipherSchemeId ← msgCborParseUint64 cbor value1
      let value1 ← cborStatus (cbor.cborValueAdvance value1)
      return (UInt8.ofNat cipherSchemeId, value1)

/-- The fields in front of the certificates, the announced number of
    certificates, and the value that carries the number. -/
def unpackSeFields (role : Role) (packedBuffer : Bytes) :
    Except WosMsgError (WosMsgMqttsSeParams × Nat × cbor.Value) := do
  reject (packedBuffer = []) .badParams
  let dataArray ← enterRootArray cbor packedBuffer
  let (encodedSmpHeader, value1) ← msgCborParseByteStringNext cbor dataArray
  let (cipherSchemeId, value1) ← unpackCipherSchemeId cbor role value1
  let (eccDhPubParams, value2) ← msgCborParseByteStringNext cbor value1
  let (mqttPacket, value1) ← msgCborParseByteStringNext cbor value2
  let (signature, value2) ← msgCborParseByteStringNext cbor value1
  let numCerts ← msgCborParseUint64 cbor value2
  let seParams : WosMsgMqttsSeParams := {
    encodedSmpHeader := encodedSmpHeader
    cipherSchemeId := cipherSchemeId
    eccDhPubParams := eccDhPubParams
    mqttPacket := mqttPacket
    signature := signature
    numCerts := UInt8.ofNat numCerts
    certs := [] }
  return (seParams, numCerts, value2)

/-- The certificate loop, from certificate `i` on.  The table has `slots`
    entries; a certificate stored behind its end is undefined behaviour. -/
def unpackCerts (slots : Nat) : Nat → Nat → cbor.Value → Option (Except WosMsgError (List Bytes))
  | 0, _, _ => some (.ok [])
  | remaining + 1, i, value2 =>
      match msgCborParseByteString cbor value2 with
      | .error e => some (.error e)
      | .ok cert =>
          -- the certificate was decoded, and there is no slot to store it in
          if slots ≤ i then none
          else
            match cbor.cborValueAdvance value2 with
            | none => some (.error .error)
            | some value2 =>
                (unpackCerts slots remaining (i + 1) value2).map fun r => r.map (cert :: ·)

/-- `none` is undefined behaviour of the certificate loop. -/
def wosMsgUnpackSmpMqttsSEMessage (role : Role) (packedBuffer : Bytes) :
    Option (Except WosMsgError WosMsgMqttsSeParams) :=
  match unpackSeFields cbor role packedBuffer with
  | .error e => some (.error e)
  | .ok (seParams, numCerts, value2) =>
      -- an allocation of no bytes gives no table
      if seParams.numCerts = 0 then some (.error .outOfMemory)
      else
        match cbor.cborValueAdvance value2 with
        | none => some (.error .error)
        | some value2 =>
            -- the table has the 8-bit number of slots, the loop runs to the 64-bit one
            (unpackCerts cbor seParams.numCerts.toNat numCerts 0 value2).map fun r =>
              r.map fun certs => { seParams with certs := certs }

/-! ## Control messages -/

def wosMsgPackSmpMqttsControlMessage (controlParams : WosMsgMqttsControlParams) (size : Nat) :
    Except WosMsgError Bytes := do
  reject (controlParams.encodedSmpHeader = [] ∨ controlParams.mqttPacket = [] ∨
    controlParams.iv = [] ∨ controlParams.authTag = [] ∨ size = 0) .badParams
  let encoder := cbor.cborEncoderInit size
  let dataArray ← cborStatus (cbor.cborEncoderCreateArray encoder)
  let dataArray ← cborStatus (cbor.cborEncodeByteString dataArray controlParams.encodedSmpHeader)
  let dataArray ← cborStatus (cbor.cborEncodeByteString dataArray controlParams.mqttPacket)
  let dataArray ← cborStatus (cbor.cborEncodeByteString dataArray controlParams.iv)
  let dataArray ← cborStatus (cbor.cborEncodeByteString dataArray controlParams.authTag)
  let encoder ← cborStatus (cbor.cborEncoderCloseContainerChecked encoder dataArray)
  return cbor.cborEncoderGetBuffer encoder

def wosMsgUnpackSmpMqttsControlMessage (packedBuffer : Bytes) :
    Except WosMsgError WosMsgMqttsControlParams := do
  reject (packedBuffer = []) .badParams
  let dataArray ← enterRootArray cbor packedBuffer
  let (encodedSmpHeader, nextValue1) ← msgCborParseByteStringNext cbor dataArray
  let (mqttPacket, nextValue2) ← msgCborParseByteStringNext cbor nextValue1
  let (iv, nextValue1) ← msgCborParseByteStringNext cbor nextValue2
  let authTag ← msgCborParseByteString cbor nextValue1
  return {
    encodedSmpHeader := encodedSmpHeader
    mqttPacket := mqttPacket
    iv := iv
    authTag := authTag }

end Functions

end WeeveMQ
