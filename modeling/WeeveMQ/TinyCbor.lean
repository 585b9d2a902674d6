/-
  WeeveMQ.TinyCbor

  The TinyCBOR functions the message layer calls, as a parameter.

  The library is not part of the repository.  What the message layer relies on
  is that it implements RFC 7049: every parser value stands at a `Cbor.Cursor`,
  every encoder has written a `Cbor.Writer`, and each call moves them as the
  RFC says.  A call with a precondition (an accessor of one item type) is
  described under that precondition only.

  `rfc7049` is the instance that runs on cursors and writers themselves.
-/

import WeeveMQ.Lib.Cbor
import WeeveMQ.Types

namespace WeeveMQ

open Cbor (Cursor Writer encodeHead)

/-- TinyCBOR.  A result of `none` is a `CborError`. -/
structure TinyCbor where
  /-- `CborValue` -/
  Value : Type
  /-- `CborEncoder` -/
  Encoder : Type
  /-- Largest announced array length the parser enters. -/
  maxArrayCount : Nat
  cborParserInit : Bytes → Option Value
  cborValueIsArray : Value → Bool
  cborValueIsUnsignedInteger : Value → Bool
  cborValueIsByteString : Value → Bool
  cborValueIsTextString : Value → Bool
  cborValueEnterContainer : Value → Option Value
  cborValueGetUint64 : Value → Option Nat
  cborValueAdvance : Value → Option Value
  cborValueAdvanceFixed : Value → Option Value
  /-- `cbor_value_dup_byte_string` without a place for the next value. -/
  cborValueDupByteString : Value → Option Bytes
  /-- `cbor_value_dup_byte_string` that also moves on to the next value. -/
  cborValueDupByteStringNext : Value → Option (Bytes × Value)
  /-- `cbor_value_copy_text_string` into a buffer of the given size: the bytes
      it leaves in the buffer, and the length it reports. -/
  cborValueCopyTextString : Value → Nat → Option (Bytes × Nat)
  /-- `cbor_value_dup_text_string` that also moves on to the next value: the
      bytes of the buffer it allocates, and the length it reports. -/
  cborValueDupTextStringNext : Value → Option (Bytes × Nat × Value)
  cborEncoderInit : Nat → Encoder
  /-- `cbor_encoder_create_array` with `CborIndefiniteLength`. -/
  cborEncoderCreateArray : Encoder → Option Encoder
  cborEncodeUint : Encoder → Nat → Option Encoder
  cborEncodeTextStringz : Encoder → WosString → Option Encoder
  cborEncodeByteString : Encoder → Bytes → Option Encoder
  /-- `cbor_encoder_close_container_checked`, parent and container. -/
  cborEncoderCloseContainerChecked : Encoder → Encoder → Option Encoder
  /-- The bytes of the buffer up to `cbor_encoder_get_buffer_size`. -/
  cborEncoderGetBuffer : Encoder → Bytes
  /-- Where a value stands. -/
  cursor : Value → Cursor
  /-- What an encoder has written. -/
  writer : Encoder → Writer
  parserInit_cursor : ∀ b, (cborParserInit b).map cursor = Cursor.start b
  isArray_cursor : ∀ v, cborValueIsArray v = (cursor v).is 4
  isUnsignedInteger_cursor : ∀ v, cborValueIsUnsignedInteger v = (cursor v).is 0
  isByteString_cursor : ∀ v, cborValueIsByteString v = (cursor v).is 2
  isTextString_cursor : ∀ v, cborValueIsTextString v = (cursor v).is 3
  enterContainer_cursor : ∀ v, cborValueIsArray v →
    (cborValueEnterContainer v).map cursor = (cursor v).enterArray maxArrayCount
  getUint64_cursor : ∀ v, cborValueIsUnsignedInteger v → cborValueGetUint64 v = (cursor v).uint
  advance_cursor : ∀ v,
    cborValueIsUnsignedInteger v ∨ cborValueIsByteString v ∨ cborValueIsTextString v →
    (cborValueAdvance v).map cursor = (cursor v).skip
  advanceFixed_cursor : ∀ v, cborValueIsUnsignedInteger v →
    (cborValueAdvanceFixed v).map cursor = (cursor v).skip
  dupByteString_cursor : ∀ v, cborValueIsByteString v →
    cborValueDupByteString v = (cursor v).string.map Prod.fst
  dupByteStringNext_cursor : ∀ v, cborValueIsByteString v →
    (cborValueDupByteStringNext v).map (Prod.map id cursor) =
      (cursor v).string.bind fun r => ((cursor v).next r.2).map fun c => (r.1, c)
  /-- The text is copied when it fits; a terminator follows when there is room
      for it. -/
  copyTextString_cursor : ∀ v size, cborValueIsTextString v →
    cborValueCopyTextString v size = (cursor v).string.bind fun r =>
      if r.1.length < size then some (r.1 ++ [0], r.1.length)
      else if r.1.length = size then some (r.1, r.1.length)
      else none
  /-- The buffer has room for a terminator. -/
  dupTextStringNext_cursor : ∀ v, cborValueIsTextString v →
    (cborValueDupTextStringNext v).map (Prod.map id (Prod.map id cursor)) =
      (cursor v).string.bind fun r =>
        ((cursor v).next r.2).map fun c => (r.1 ++ [0], r.1.length, c)
  encoderInit_writer : ∀ size, writer (cborEncoderInit size) = ⟨size, []⟩
  createArray_writer : ∀ e, (cborEncoderCreateArray e).map writer = (writer e).put [0x9f]
  encodeUint_writer : ∀ e n, n < 2 ^ 64 →
    (cborEncodeUint e n).map writer = (writer e).put (encodeHead 0 n)
  encodeTextStringz_writer : ∀ e s, (cborEncodeTextStringz e s).map writer =
    (writer e).put (encodeHead 3 (wosStringLength s) ++ stringContent s)
  encodeByteString_writer : ∀ e b,
    (cborEncodeByteString e b).map writer = (writer e).put (encodeHead 2 b.length ++ b)
  closeContainer_writer : ∀ e c,
    (cborEncoderCloseContainerChecked e c).map writer = (writer c).put [0xff]
  getBuffer_writer : ∀ e, cborEncoderGetBuffer e = (writer e).out

/-- The RFC itself, with a bound on announced array lengths. -/
@[reducible] def rfc7049 (maxArrayCount : Nat) : TinyCbor where
  Value := Cursor
  Encoder := Writer
  maxArrayCount := maxArrayCount
  cborParserInit := Cursor.start
  cborValueIsArray := fun c => c.is 4
  cborValueIsUnsignedInteger := fun c => c.is 0
  cborValueIsByteString := fun c => c.is 2
  cborValueIsTextString := fun c => c.is 3
  cborValueEnterContainer := fun c => c.enterArray maxArrayCount
  cborValueGetUint64 := fun c => c.uint
  cborValueAdvance := fun c => c.skip
  cborValueAdvanceFixed := fun c => c.skip
  cborValueDupByteString := fun c => c.string.map Prod.fst
  cborValueDupByteStringNext := fun c =>
    c.string.bind fun r => (c.next r.2).map fun c' => (r.1, c')
  cborValueCopyTextString := fun c size => c.string.bind fun r =>
    if r.1.length < size then some (r.1 ++ [0], r.1.length)
    else if r.1.length = size then some (r.1, r.1.length)
    else none
  cborValueDupTextStringNext := fun c => c.string.bind fun r =>
    (c.next r.2).map fun c' => (r.1 ++ [0], r.1.length, c')
  cborEncoderInit := fun size => ⟨size, []⟩
  cborEncoderCreateArray := fun w => w.put [0x9f]
  cborEncodeUint := fun w n => w.put (encodeHead 0 n)
  cborEncodeTextStringz := fun w s => w.put (encodeHead 3 (wosStringLength s) ++ stringContent s)
  cborEncodeByteString := fun w b => w.put (encodeHead 2 b.length ++ b)
  cborEncoderCloseContainerChecked := fun _ w => w.put [0xff]
  cborEncoderGetBuffer := fun w => w.out
  cursor := id
  writer := id
  parserInit_cursor := by simp
  isArray_cursor := fun _ => rfl
  isUnsignedInteger_cursor := fun _ => rfl
  isByteString_cursor := fun _ => rfl
  isTextString_cursor := fun _ => rfl
  enterContainer_cursor := by simp
  getUint64_cursor := fun _ _ => rfl
  advance_cursor := by simp
  advanceFixed_cursor := by simp
  dupByteString_cursor := fun _ _ => rfl
  dupByteStringNext_cursor := by simp
  copyTextString_cursor := fun _ _ _ => rfl
  dupTextStringNext_cursor := by simp
  encoderInit_writer := fun _ => rfl
  createArray_writer := by simp
  encodeUint_writer := by simp
  encodeTextStringz_writer := by simp
  encodeByteString_writer := by simp
  closeContainer_writer := by simp
  getBuffer_writer := fun _ => rfl

end WeeveMQ
