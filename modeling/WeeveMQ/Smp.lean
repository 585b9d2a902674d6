/-
  WeeveMQ.Smp

  The SMP interface of the library, `smp.c`: open a session, get and process
  messages, close it.  A null session is refused before anything else happens
  and is not modelled.
-/

import WeeveMQ.SmpInternal

namespace WeeveMQ

open Call
open WclSmpMessageType

variable (cbor : TinyCbor) (role : Role) (env : Env)

def wclSmpOpen : Call KeyStore WclError SmpSessionContext := smpInitialiseSessionParams env

def wclSmpClose (smpSession : SmpSessionContext) : Call KeyStore WclError Unit :=
  smpDeleteSessionCredentials env smpSession

/-- The message types `wclSmpGetMessage` hands to `smpSecureMessage`. -/
def isSecurable (messageType : Nat) : Bool :=
  messageType ∈ [publish.code, puback.code, pubrec.code, pubrel.code, pubcomp.code, pingreq.code,
      pingresp.code] ∨
    messageType ∈ match role with
      | .client => [subscribe.code, unsubscribe.code, disconnect.code]
      | .broker => [suback.code, unsuback.code]

def wclSmpGetMessage (messageType : Nat) (stdProtocolPacket : Bytes) :
    Call Session WclError Bytes := do
  failIf (messageType < connect.code ∨ messageType > disconnect.code ∨ stdProtocolPacket = [])
    .badParams
  let smpMessage ← (
    if messageType = (seMessageType role).code then
      smpExportSessionEstablishmentParams cbor role env stdProtocolPacket
    else if isSecurable role messageType then
      smpSecureMessage cbor role env messageType stdProtocolPacket
    else throw .error)
  -- the check is made on the input packet
  failIf (stdProtocolPacket = []) .unknown
  return smpMessage

def wclSmpProcessMessage (smpMessage : Bytes) : Call Session WclError Bytes := do
  failIf (smpMessage = []) .badParams
  let stdProtocolPacket ← smpProcessMessage cbor role env smpMessage
  failIf (stdProtocolPacket = []) .unknown
  return stdProtocolPacket

end WeeveMQ
