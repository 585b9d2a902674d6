/-
  WeeveMQ.Types

  The types every layer shares: buffers, the two builds of the library, the
  message types of `wclSmp.h`, and the status codes of the components.

  A buffer is the list of its bytes; it is valid when it is not empty
  (`WOS_IS_VALID_BUFFER`).  A message type travels as the number it has on the
  wire, since the header decoder and the API both take numbers that are no
  enumerator.
-/

import Mathlib.Algebra.Ring.Nat

namespace WeeveMQ

/-- What holds of all elements of a list is decided along the list, also where
    the type of the elements is finite and could be searched instead. -/
instance (priority := high) decidableForallMem {α : Type} {p : α → Prop} [DecidablePred p]
    (l : List α) : Decidable (∀ a ∈ l, p a) :=
  List.decidableBAll p l

/-- `WosBuffer_t`. -/
abbrev Bytes := List UInt8

/-- `WosString_t`: the bytes of the array it points into. -/
abbrev WosString := List UInt8

/-- The part of a string in front of its terminator. -/
def stringContent (s : WosString) : Bytes := s.takeWhile (· ≠ 0)

/-- `wosStringLength`. -/
def wosStringLength (s : WosString) : Nat := (stringContent s).length

/-- The characters of a literal. -/
def ascii (s : String) : Bytes := s.toList.map fun c => UInt8.ofNat c.toNat

/-- The build switches `SMP_MQTTS_CLIENT` and `SMP_MQTTS_BROKER`. -/
inductive Role where
  | client
  | broker
  deriving DecidableEq, Repr

/-- The other end of the connection. -/
def Role.peer : Role → Role
  | .client => .broker
  | .broker => .client

@[simp] theorem Role.peer_peer (r : Role) : r.peer.peer = r := by
  cases r <;> rfl

theorem Role.peer_ne (r : Role) : r.peer ≠ r := by
  cases r <;> decide

/-- `WclSmpMessageType_t`, same order and values as the MQTT control packets. -/
inductive WclSmpMessageType where
  | reserved
  | connect
  | connack
  | publish
  | puback
  | pubrec
  | pubrel
  | pubcomp
  | subscribe
  | suback
  | unsubscribe
  | unsuback
  | pingreq
  | pingresp
  | disconnect
  deriving DecidableEq, Repr

namespace WclSmpMessageType

/-- The value of the enumerator. -/
@[simp] def code : WclSmpMessageType → Nat
  | reserved => 0
  | connect => 1
  | connack => 2
  | publish => 3
  | puback => 4
  | pubrec => 5
  | pubrel => 6
  | pubcomp => 7
  | subscribe => 8
  | suback => 9
  | unsubscribe => 10
  | unsuback => 11
  | pingreq => 12
  | pingresp => 13
  | disconnect => 14

end WclSmpMessageType

/-- `WclError_t` without its success code. -/
inductive WclError where
  | error
  | badParams
  | badSession
  | outOfMemory
  | storageOperation
  | cryptoOperation
  | serialization
  | invalidMessage
  | unknown
  deriving DecidableEq, Repr

/-- `WosMsgError_t` without its success code. -/
inductive WosMsgError where
  | error
  | badParams
  | outOfMemory
  | badFormat
  deriving DecidableEq, Repr

/-- `WosStorageError_t` without its success code. -/
inductive WosStorageError where
  | error
  | notFound
  | badParams
  | outOfMemory
  deriving DecidableEq, Repr

/-- `WosCryptoError_t` without its success codes. -/
inductive WosCryptoError where
  | error
  | badParams
  | storage
  deriving DecidableEq, Repr

end WeeveMQ
