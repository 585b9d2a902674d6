/-
  WeeveMQ.SmpInternal

  The SMP session: `smpInternal.c`, with `smpInternalUtils.c` and
  `smpConfigGlobalCreds` of `smpGlobalCreds.c`.

  A session call works on the session context and the key storage.  `role` is
  the build the code is compiled in, `env` the outside world during the call,
  `cbor` the CBOR library.  Undefined behaviour is a call without a result: a
  concatenation whose length does not fit its 32-bit variable, a certificate
  table that is too small, and a label behind the end of its table when the
  environment lets that read crash.
-/

import WeeveMQ.MsgSmp
import WeeveMQ.Wos

namespace WeeveMQ

open Call
open WclSmpMessageType

/-! ## Session -/

/-- `SmpSessionContext_t` without the two pointers to constant option tables. -/
structure SmpSessionContext where
  clientId : WosString
  isPreSessionSecretsGenerated : Bool
  isSessionKeyEstablished : Bool
  sessionPrivateKeyStorageId : StorageId
  sessionPublicKeyStorageId : StorageId
  sessionSharedKeyStorageId : StorageId
  toBeSentMessageId : UInt32
  lastReceivedMessageId : UInt32
  selfPrivKeyStorageId : StorageId
  selfCertChainStorageId : StorageId
  selfCertChainSize : UInt8
  rootCaStorageId : StorageId
  deriving DecidableEq, Repr

/-- A session and the storage it works on. -/
structure Session where
  ctx : SmpSessionContext
  storage : KeyStore

/-- A storage or crypto call of a session; `e` is what its failure is reported as. -/
def onStorage {ε α : Type} (e : WclError) (x : Call KeyStore ε α) : Call Session WclError α :=
  mapErr (fun _ => e) (onPart Session.storage (fun store s => { s with storage := store }) x)

/-- Change the session context. -/
def modifyCtx (f : SmpSessionContext → SmpSessionContext) : Call Session WclError Unit :=
  modify fun s => { s with ctx := f s.ctx }

/-! ## Constants -/

/-- `WOS_MSG_CONTEXT_SMP_MQTTS`. -/
def WOS_MSG_CONTEXT_SMP_MQTTS : UInt8 := 0

/-- `WCL_SMP_CIPHER_SCHEME_ID0`. -/
def WCL_SMP_CIPHER_SCHEME_ID0 : UInt8 := 0

def SMP_HEADER_MSG_SERIALIZER_SIZE_OVERHEAD : Nat := 3 + 8 + 8

def SMP_MQTTS_SE_MSG_SERIALIZER_SIZE_OVERHEAD : Nat := 10 * 4

def SMP_MQTTS_CONTROL_MSG_SERIALIZER_SIZE_OVERHEAD : Nat := 4 * 4

def SMP_ENCODED_HEADER_LENGTH : Nat :=
  SMP_HEADER_MSG_SERIALIZER_SIZE_OVERHEAD + WCL_SMP_CLIENT_ID_LENGTH

/-- The label tables of both directions, up to their prefix.  The entries stand
    in the order of the message types from CONNECT = 1 on, but at index 0. -/
def msgLabels (direction : String) : List (Option Bytes) :=
  [none, none] ++
    ["_PUBLIS", "_PUBACK", "_PUBREC", "_PUBREL", "_PUBCOM", "_SUBSCR", "_SUBACK", "_USUBSC",
      "_USUBAC", "_PINGRQ", "_PINGRS", "_DISCON"].map fun l => some (ascii direction ++ ascii l)

def gClientToBrokerMsgLabels : List (Option Bytes) := msgLabels "C2B"

def gBrokerToClientMsgLabels : List (Option Bytes) := msgLabels "B2C"

/-- The labels of the messages this role sends; it expects those of its peer. -/
def sentMsgLabels : Role → List (Option Bytes)
  | .client => gClientToBrokerMsgLabels
  | .broker => gBrokerToClientMsgLabels

/-- The session establishment message this role sends. -/
def seMessageType : Role → WclSmpMessageType
  | .client => connect
  | .broker => connack

/-- The message types `lSmpValidateSmpHeader` lets through. -/
def isReceivable (role : Role) (messageType : Nat) : Bool :=
  messageType ∈ [publish.code, puback.code, pubrec.code, pubrel.code, pubcomp.code] ∨
    messageType ∈ match role with
      | .client => [connack.code, suback.code, unsuback.code, pingresp.code]
      | .broker => [connect.code, subscribe.code, unsubscribe.code, pingreq.code, disconnect.code]

/-- The decision of `smpSecureMessage` to encrypt the packet. -/
def encryptMqttPacket (messageType : Nat) : Bool :=
  messageType ∈ [publish.code, subscribe.code, suback.code, unsubscribe.code]

/-- The decision of `lSmpProcessControlMessage` that the packet is in clear. -/
def hasClearMqttPacket (role : Role) (messageType : Nat) : Bool :=
  messageType ∉ match role with
    | .client => [publish.code, suback.code]
    | .broker => [publish.code, subscribe.code, unsubscribe.code]

section Functions

variable (cbor : TinyCbor) (role : Role) (env : Env)

/-! ## Buffers and labels -/

/-- Concatenate into a buffer whose length is computed in 32 bits.  An
    allocation of no bytes fails, one that is too small is overrun. -/
def concatBuffers {σ : Type} (parts : List Bytes) : Call σ WclError Bytes :=
  let length := parts.flatten.length
  if length % 2 ^ 32 = 0 then throw .outOfMemory
  else if 2 ^ 32 ≤ length then fault
  else pure parts.flatten

/-- The string `labels[messageType]`; the null label has no characters, and
    behind the table is whatever the environment has there. -/
def msgLabel (labels : List (Option Bytes)) (messageType : Nat) : Option Bytes :=
  match labels[messageType]? with
  | some label => some (label.getD [])
  | none => env.beyondLabelTable

/-- The authentication data: SMP-header || label (|| MQTT packet). -/
def prepareAad {σ : Type} (labels : List (Option Bytes)) (messageType : Nat)
    (encodedHeader clearPacket : Bytes) : Call σ WclError Bytes := do
  let label ← ofOutcome ((msgLabel env labels messageType).map .ok)
  concatBuffers [encodedHeader, label, clearPacket]

/-! ## Sending -/

def lSmpPackHeader (smpCtx : SmpSessionContext) (messageType : Nat) : Except WclError Bytes :=
  let smpHeader : WosSmpHeader := {
    messageContext := WOS_MSG_CONTEXT_SMP_MQTTS
    messageContextVersion := 0
    messageType := messageType
    clientId := smpCtx.clientId
    messageId := smpCtx.toBeSentMessageId }
  (wosMsgPackSmpHeader cbor smpHeader SMP_ENCODED_HEADER_LENGTH).mapError fun _ => .serialization

/-- Only a chain of one certificate is supported. -/
def lSmpGetDeviceCertificates : Call Session WclError (UInt8 × List Bytes) := do
  modifyCtx fun ctx => { ctx with selfCertChainSize := 1 }
  let smpCtx := (← get).ctx
  -- the whole entry is the one certificate
  let cert ← onStorage .storageOperation (wosStorageRead env smpCtx.selfCertChainStorageId)
  return (smpCtx.selfCertChainSize, [cert])

/-- The cipher scheme is signed in a CONNECT only. -/
def signedCipherSchemeId : Role → UInt8 → Bytes
  | .client, cipherSchemeId => [cipherSchemeId]
  | .broker, _ => []

/-- The signed string: header, cipher scheme of a CONNECT, public parameter, packet. -/
def seSignedParts (sender : Role) (encodedSmpHeader : Bytes) (cipherSchemeId : UInt8)
    (eccDhPubParams mqttPacket : Bytes) : List Bytes :=
  [encodedSmpHeader, signedCipherSchemeId sender cipherSchemeId, eccDhPubParams, mqttPacket]

/-- The complete parameters, and the size of the buffer they are packed into. -/
def lSmpSignSeParams (encodedSmpHeader eccDhPubParams mqttPacket : Bytes) :
    Call Session WclError (WosMsgMqttsSeParams × Nat) := do
  let smpCtx := (← get).ctx
  let cipherSchemeId := WCL_SMP_CIPHER_SCHEME_ID0
  let toBeSignedData ← concatBuffers
    (seSignedParts role encodedSmpHeader cipherSchemeId eccDhPubParams mqttPacket)
  let signature ← onStorage .cryptoOperation
    (wosCryptoEccSign env smpCtx.selfPrivKeyStorageId toBeSignedData)
  let (numCerts, certs) ← lSmpGetDeviceCertificates env
  let seParams : WosMsgMqttsSeParams := {
    encodedSmpHeader := encodedSmpHeader
    cipherSchemeId := cipherSchemeId
    eccDhPubParams := eccDhPubParams
    mqttPacket := mqttPacket
    signature := signature
    numCerts := numCerts
    certs := certs }
  -- the size of what is signed stands for its parts, header and packet included
  let seParamsTotalBytesLength := SMP_MQTTS_SE_MSG_SERIALIZER_SIZE_OVERHEAD +
    toBeSignedData.length + signature.length + 1 + (certs.map List.length).sum
  return (seParams, seParamsTotalBytesLength % 2 ^ 32)

def smpExportSessionEstablishmentParams (stdProtocolSEParams : Bytes) :
    Call Session WclError Bytes := do
  failIf (stdProtocolSEParams = []) .badParams
  let smpCtx := (← get).ctx
  let encodedHeader ← ofExcept (lSmpPackHeader cbor smpCtx (seMessageType role).code)
  let eccDhPubParams ← onStorage .cryptoOperation
    (wosCryptoEccReadPubKey env smpCtx.sessionPublicKeyStorageId)
  failIf (eccDhPubParams = []) .cryptoOperation
  let (mqttsSeParams, size) ← lSmpSignSeParams role env encodedHeader eccDhPubParams
    stdProtocolSEParams
  failIf (size = 0) .outOfMemory
  let smpSEMessage ← ofExcept
    ((wosMsgPackSmpMqttsSEMessage cbor role mqttsSeParams size).mapError fun _ => .serialization)
  modifyCtx fun ctx => { ctx with toBeSentMessageId := ctx.toBeSentMessageId + 1 }
  return smpSEMessage

/-- What `smpSecureMessage` has after the authenticated encryption. -/
structure SealedMessage where
  encodedHeader : Bytes
  aad : Bytes
  plainText : Bytes
  ae : AeResult
  deriving DecidableEq, Repr

/-- First half of `smpSecureMessage`, up to the encryption and its checks. -/
def smpSealMessage (messageType : Nat) (clearMessage : Bytes) :
    Call Session WclError SealedMessage := do
  failIf (clearMessage = []) .badParams
  failIf (messageType < connect.code ∨ messageType > disconnect.code) .invalidMessage
  let smpCtx := (← get).ctx
  failIf (smpCtx.isSessionKeyEstablished = false) .badSession
  let encodedHeader ← ofExcept (lSmpPackHeader cbor smpCtx messageType)
  let encrypt := encryptMqttPacket messageType
  -- a packet in clear is authenticated behind the label
  let aad ← prepareAad env (sentMsgLabels role) messageType encodedHeader
    (if encrypt then [] else clearMessage)
  let plainText := if encrypt then clearMessage else []
  let ae ← onStorage .cryptoOperation
    (wosCryptoAeEncrypt env smpCtx.sessionSharedKeyStorageId plainText aad)
  -- without encryption an empty cipher text is what is expected
  failIf (ae.iv = [] ∨ ae.tag = [] ∨ (encrypt ∧ ae.cipherText = [])) .cryptoOperation
  return { encodedHeader := encodedHeader, aad := aad, plainText := plainText, ae := ae }

def smpSecureMessage (messageType : Nat) (clearMessage : Bytes) :
    Call Session WclError Bytes := do
  let message ← smpSealMessage cbor role env messageType clearMessage
  let mqttsControlParams : WosMsgMqttsControlParams := {
    encodedSmpHeader := message.encodedHeader
    mqttPacket := if encryptMqttPacket messageType then message.ae.cipherText else clearMessage
    iv := message.ae.iv
    authTag := message.ae.tag }
  let serializedBufSize := SMP_MQTTS_CONTROL_MSG_SERIALIZER_SIZE_OVERHEAD +
    message.encodedHeader.length + message.ae.iv.length + message.ae.tag.length +
    mqttsControlParams.mqttPacket.length
  -- the length field of the buffer has 32 bits
  let securedMessage ← ofExcept
    ((wosMsgPackSmpMqttsControlMessage cbor mqttsControlParams (serializedBufSize % 2 ^ 32)).mapError
      fun _ => .serialization)
  modifyCtx fun ctx => { ctx with toBeSentMessageId := ctx.toBeSentMessageId + 1 }
  return securedMessage

/-! ## Receiving -/

/-- Delete an entry when the flag is set; a failure is logged only. -/
def deleteWhen (flag : Bool) (id : StorageId) : Call KeyStore WclError Unit :=
  if flag then ignoreErr (wosStorageDelete env id) else pure ()

def lSmpVerifySeParams (mqttSeParams : WosMsgMqttsSeParams) : Call Session WclError Unit := do
  failIf (mqttSeParams.encodedSmpHeader = [] ∨ mqttSeParams.eccDhPubParams = [] ∨
    mqttSeParams.mqttPacket = [] ∨
    (role = .broker ∧ mqttSeParams.cipherSchemeId ≠ WCL_SMP_CIPHER_SCHEME_ID0) ∨
    mqttSeParams.numCerts < 1) .invalidMessage
  let signedData ← concatBuffers (seSignedParts role.peer mqttSeParams.encodedSmpHeader
    mqttSeParams.cipherSchemeId mqttSeParams.eccDhPubParams mqttSeParams.mqttPacket)
  let smpCtx := (← get).ctx
  let rootCa ← onStorage .storageOperation (wosStorageRead env smpCtx.rootCaStorageId)
  failIf (env.wosCertValidateData rootCa mqttSeParams.certs signedData
    mqttSeParams.signature = false) .invalidMessage

/-- Context, message type and message id of a received header. -/
def lSmpValidateSmpHeader (smpCtx : SmpSessionContext) (smpHeader : WosSmpHeader) :
    Except WclError Unit := do
  reject (smpHeader.messageContext ≠ WOS_MSG_CONTEXT_SMP_MQTTS) .invalidMessage
  reject (isReceivable role smpHeader.messageType = false) .invalidMessage
  -- the id of the last message passes once more
  reject (smpHeader.messageId < smpCtx.lastReceivedMessageId) .invalidMessage

def lSmpProcessSeMessage (smpSEMessage : Bytes) : Call Session WclError Bytes := do
  failIf (smpSEMessage = []) .badParams
  let mqttsSeParams ← mapErr (fun _ => .serialization)
    (ofOutcome (wosMsgUnpackSmpMqttsSEMessage cbor role smpSEMessage))
  lSmpVerifySeParams role env mqttsSeParams
  let smpCtx := (← get).ctx
  onStorage .cryptoOperation (wosCryptoDeriveSymKey env mqttsSeParams.eccDhPubParams
    smpCtx.sessionPrivateKeyStorageId smpCtx.sessionSharedKeyStorageId)
  modifyCtx fun ctx => { ctx with isSessionKeyEstablished := true }
  -- the broker needs its public key for the CONNACK
  onStorage .storageOperation (deleteWhen env true smpCtx.sessionPrivateKeyStorageId)
  onStorage .storageOperation (deleteWhen env (role = .client) smpCtx.sessionPublicKeyStorageId)
  failIf (mqttsSeParams.mqttPacket = []) .outOfMemory
  return mqttsSeParams.mqttPacket

def lSmpProcessControlMessage (messageType : Nat) (securedMessage : Bytes) :
    Call Session WclError Bytes := do
  failIf (securedMessage = []) .badParams
  let smpCtx := (← get).ctx
  failIf (smpCtx.isSessionKeyEstablished = false) .badSession
  let mqttsControlParams ← mapErr (fun _ => .serialization)
    (ofExcept (wosMsgUnpackSmpMqttsControlMessage cbor securedMessage))
  failIf (mqttsControlParams.encodedSmpHeader = [] ∨ mqttsControlParams.mqttPacket = [] ∨
    mqttsControlParams.iv = [] ∨ mqttsControlParams.authTag = []) .invalidMessage
  let clear := hasClearMqttPacket role messageType
  -- the label is the one of the type in the header that was read before
  let aad ← prepareAad env (sentMsgLabels role.peer) messageType
    mqttsControlParams.encodedSmpHeader (if clear then mqttsControlParams.mqttPacket else [])
  let cipherText := if clear then [] else mqttsControlParams.mqttPacket
  let plainText ← onStorage .cryptoOperation
    (wosCryptoAeDecrypt env smpCtx.sessionSharedKeyStorageId cipherText aad
      mqttsControlParams.iv mqttsControlParams.authTag)
  return if clear then mqttsControlParams.mqttPacket else plainText

def smpProcessMessage (securedMessage : Bytes) : Call Session WclError Bytes := do
  failIf (securedMessage = []) .badParams
  let smpHeader ← mapErr (fun _ => .error)
    (ofExcept (wosMsgUnpackSmpHeaderFromSmpMsg cbor securedMessage))
  let smpCtx := (← get).ctx
  ofExcept (lSmpValidateSmpHeader role smpCtx smpHeader)
  let clearMessage ← (
    if smpHeader.messageType = (seMessageType role.peer).code then
      lSmpProcessSeMessage cbor role env securedMessage
    else lSmpProcessControlMessage cbor role env smpHeader.messageType securedMessage)
  -- only a message that was accepted counts as received
  modifyCtx fun ctx => { ctx with lastReceivedMessageId := smpHeader.messageId }
  return clearMessage

/-! ## Opening and closing -/

/-- The two hex digits of a byte. -/
def hexDigits (b : UInt8) : Bytes :=
  let hexString := ascii "0123456789ABCDEF"
  [hexString.getD (b.toNat / 16) 0, hexString.getD (b.toNat % 16) 0]

/-- A random string used as id, from the given draw of the generator. -/
def smpUtilsGen32CharRandomId (draw : Nat) : Except WclError StorageId := do
  let randomBuffer ← (wosCryptoGetRandomBytes env draw 16).mapError fun _ => .cryptoOperation
  return randomBuffer.flatMap hexDigits

/-- The context after `wosMemSet`, with the ids `smpConfigGlobalCreds` copies. -/
def smpConfigGlobalCreds : SmpSessionContext where
  clientId := []
  isPreSessionSecretsGenerated := false
  isSessionKeyEstablished := false
  sessionPrivateKeyStorageId := []
  sessionPublicKeyStorageId := []
  sessionSharedKeyStorageId := []
  toBeSentMessageId := 0
  lastReceivedMessageId := 0
  selfPrivKeyStorageId := ascii "self_key"
  selfCertChainStorageId := ascii "self_cert"
  selfCertChainSize := env.gSelfCertChainSize
  rootCaStorageId := ascii "root_ca"

/-- Nothing that was written is removed again when a later step fails. -/
def smpInitialiseSessionParams : Call KeyStore WclError SmpSessionContext := do
  let privateKeyId ← ofExcept ((smpUtilsGen32CharRandomId env 0).mapError fun _ => .error)
  let publicKeyId ← ofExcept ((smpUtilsGen32CharRandomId env 1).mapError fun _ => .error)
  -- the key pair is in the storage from here on
  mapErr (fun _ => .cryptoOperation) (wosCryptoEccGenerateKey env privateKeyId publicKeyId)
  let sharedKeyId ← ofExcept ((smpUtilsGen32CharRandomId env 2).mapError fun _ => .error)
  return { smpConfigGlobalCreds env with
    isPreSessionSecretsGenerated := true
    sessionPrivateKeyStorageId := privateKeyId
    sessionPublicKeyStorageId := publicKeyId
    sessionSharedKeyStorageId := sharedKeyId }

def smpDeleteSessionCredentials (smpCtx : SmpSessionContext) : Call KeyStore WclError Unit := do
  deleteWhen env smpCtx.isPreSessionSecretsGenerated smpCtx.sessionPrivateKeyStorageId
  deleteWhen env smpCtx.isPreSessionSecretsGenerated smpCtx.sessionPublicKeyStorageId
  -- the shared key is there once the session is established
  deleteWhen env smpCtx.isSessionKeyEstablished smpCtx.sessionSharedKeyStorageId

end Functions

end WeeveMQ
