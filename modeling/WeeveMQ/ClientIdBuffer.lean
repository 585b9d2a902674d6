/-
  WeeveMQ.ClientIdBuffer

  The bytes of the client-id buffer that the header decoder touches.

  `smpProcessMessage` allocates the buffer, `wosMsgUnpackSmpHeaderFromSmpMsg`
  fills it.  Here the decoder runs again with a log of the indices it writes
  and reads; what it prints of the client id is left out, since it lies in
  front of the terminator it has checked.

  - `unpackSmpHeaderInto_result`: with the log or without, the decoder returns
    the same.
  - `clientIdAccesses_of_reached` / `_of_not_reached`: the indices, by what the
    copy routine of TinyCBOR has written.
  - `client_id_in_bounds_iff`: they stay inside the allocation exactly when the
    client id is short enough.
-/

import WeeveMQ.MsgSmpCodec

namespace WeeveMQ

open Cbor (Cursor)
open Call

/-! ## The decoder with its buffer -/

/-- What `cbor_value_copy_text_string` has put into a buffer of the given size,
    from its start on, when it returns: on success what it reports, and never
    more than the size. -/
structure TextCopy (cbor : TinyCbor) where
  written : cbor.Value → Nat → Bytes
  written_length : ∀ v size, (written v size).length ≤ size
  written_ok : ∀ {v size b n}, cbor.cborValueCopyTextString v size = some (b, n) →
    written v size = b

/-- A copy routine that puts nothing into a buffer that is too small. -/
def TextCopy.allOrNothing (limit : Nat) : TextCopy (rfc7049 limit) where
  written := fun v size => (((rfc7049 limit).cborValueCopyTextString v size).map Prod.fst).getD []
  written_length := by
    intro v size
    rcases h : (rfc7049 limit).cborValueCopyTextString v size with _ | ⟨b, n⟩
    · simp
    · simp only [Option.map_some, Option.getD_some]
      obtain ⟨r, -, hr⟩ := Option.bind_eq_some_iff.mp h
      split_ifs at hr
      · simp only [Option.some.injEq, Prod.mk.injEq] at hr
        rw [← hr.1, List.length_append, List.length_singleton]
        omega
      · simp only [Option.some.injEq, Prod.mk.injEq] at hr
        rw [← hr.1]
        omega
  written_ok := by
    intro v size b n h
    rw [h]
    rfl

section Decoder

variable (cbor : TinyCbor) (copy : TextCopy cbor)

/-- The client-id buffer in `smpProcessMessage`. -/
def clientIdBufferSize : Nat := WCL_SMP_CLIENT_ID_LENGTH

/-- Touch these indices of the buffer. -/
def touchIndices (indices : List Nat) : Call (List Nat) WosMsgError Unit :=
  modify fun touched => touched ++ indices

/-- The part of the decoder in front of the client id: its position, and the
    three integers before it. -/
def unpackToClientId (smpCborHeader : Bytes) :
    Except WosMsgError (Nat × Nat × Nat × cbor.Value) := do
  let dataArray ← enterRootArray cbor smpCborHeader
  let messageContext ← msgCborParseUint64 cbor dataArray
  let dataArray ← cborStatus (cbor.cborValueAdvanceFixed dataArray)
  let messageContextVersion ← msgCborParseUint64 cbor dataArray
  let dataArray ← cborStatus (cbor.cborValueAdvanceFixed dataArray)
  let messageType ← msgCborParseUint64 cbor dataArray
  let dataArray ← cborStatus (cbor.cborValueAdvance dataArray)
  reject (cbor.cborValueIsTextString dataArray = false) .badFormat
  return (messageContext, messageContextVersion, messageType, dataArray)

/-- The client id is copied into the buffer, announced as one byte longer than
    the longest id; its terminator is looked at when the length is right. -/
def copyClientId (dataArray : cbor.Value) : Call (List Nat) WosMsgError Bytes := do
  touchIndices (List.range (copy.written dataArray (WCL_SMP_CLIENT_ID_LENGTH + 1)).length)
  let (clientId, clientIdLength) ←
    ofExcept (cborStatus (cbor.cborValueCopyTextString dataArray (WCL_SMP_CLIENT_ID_LENGTH + 1)))
  failIf (clientIdLength > WCL_SMP_CLIENT_ID_LENGTH) .badFormat
  touchIndices [clientIdLength]
  failIf (clientId[clientIdLength]? ≠ some WOS_STRING_NULL_TERM) .badFormat
  return clientId.take clientIdLength

/-- `unpackSmpHeader` with its buffer. -/
def unpackSmpHeaderInto (smpCborHeader : Bytes) : Call (List Nat) WosMsgError WosSmpHeader := do
  let (messageContext, messageContextVersion, messageType, dataArray) ←
    ofExcept (unpackToClientId cbor smpCborHeader)
  let clientId ← copyClientId cbor copy dataArray
  let dataArray ← ofExcept (cborStatus (cbor.cborValueAdvance dataArray))
  let messageId ← ofExcept (msgCborParseUint64 cbor dataArray)
  return {
    messageContext := UInt8.ofNat messageContext
    messageContextVersion := UInt8.ofNat messageContextVersion
    messageType := messageType % 256
    clientId := clientId
    messageId := UInt32.ofNat messageId }

/-- The encoded header of a message. -/
def extractSmpCborHeader (packedBuffer : Bytes) : Except WosMsgError Bytes := do
  reject (packedBuffer = []) .badParams
  let dataArray ← enterRootArray cbor packedBuffer
  msgCborParseByteString cbor dataArray

/-- `wosMsgUnpackSmpHeaderFromSmpMsg` with its buffer. -/
def unpackSmpHeaderFromSmpMsgInto (packedBuffer : Bytes) :
    Call (List Nat) WosMsgError WosSmpHeader := do
  let extractedSmpCborHeader ← ofExcept (extractSmpCborHeader cbor packedBuffer)
  unpackSmpHeaderInto cbor copy extractedSmpCborHeader

/-- The indices touched while this message is decoded. -/
def clientIdAccesses (packedBuffer : Bytes) : List Nat :=
  match unpackSmpHeaderFromSmpMsgInto cbor copy packedBuffer [] with
  | some (_, touched) => touched
  | none => []

end Decoder

/-! ## The same result with and without the buffer -/

section Results

variable {cbor : TinyCbor} (copy : TextCopy cbor)

/-- The two halves of the check of the client id. -/
theorem reject_or {p q : Prop} [Decidable p] [Decidable q] {e : WosMsgError} :
    reject (p ∨ q) e = (do reject p e; reject q e) := by
  unfold reject
  by_cases hp : p <;> simp [hp, bind, Except.bind]

theorem copyClientId_computes (dataArray : cbor.Value) :
    Computes (fun _ => True) (copyClientId cbor copy dataArray) (do
      let (clientId, clientIdLength) ← cborStatus
        (cbor.cborValueCopyTextString dataArray (WCL_SMP_CLIENT_ID_LENGTH + 1))
      reject (clientIdLength > WCL_SMP_CLIENT_ID_LENGTH ∨
        clientId[clientIdLength]? ≠ some WOS_STRING_NULL_TERM) .badFormat
      return clientId.take clientIdLength) := by
  unfold copyClientId touchIndices
  refine computes_modify_bind (fun _ _ => ?_) ?_
  · trivial
  apply computes_ofExcept.bind
  rintro ⟨clientId, clientIdLength⟩
  simp only [reject_or, bind_assoc]
  apply computes_failIf.bind
  intro _
  refine computes_modify_bind (fun _ _ => ?_) ?_
  · trivial
  exact computes_failIf.bind fun _ => computes_pure

theorem unpackSmpHeaderInto_computes (smpCborHeader : Bytes) :
    Computes (fun _ => True) (unpackSmpHeaderInto cbor copy smpCborHeader)
      (unpackSmpHeader cbor smpCborHeader) := by
  have h : Computes (fun _ => True) (unpackSmpHeaderInto cbor copy smpCborHeader) _ :=
    computes_ofExcept.bind fun r => (copyClientId_computes copy r.2.2.2).bind fun _ =>
      computes_ofExcept.bind fun _ => computes_ofExcept.bind fun _ => computes_pure
  unfold unpackSmpHeader
  unfold unpackToClientId at h
  simpa only [bind_assoc, pure_bind] using h

theorem unpackSmpHeaderFromSmpMsgInto_computes (packedBuffer : Bytes) :
    Computes (fun _ => True) (unpackSmpHeaderFromSmpMsgInto cbor copy packedBuffer)
      (wosMsgUnpackSmpHeaderFromSmpMsg cbor packedBuffer) := by
  have h : Computes (fun _ => True) (unpackSmpHeaderFromSmpMsgInto cbor copy packedBuffer) _ :=
    computes_ofExcept.bind fun hdr => unpackSmpHeaderInto_computes copy hdr
  unfold wosMsgUnpackSmpHeaderFromSmpMsg
  unfold extractSmpCborHeader at h
  simpa only [bind_assoc] using h

/-! ## The bytes it touches -/

/-- The client id of a message, when the decoder gets as far as to copy it. -/
def reachedClientId (cbor : TinyCbor) (packedBuffer : Bytes) : Option cbor.Value :=
  match extractSmpCborHeader cbor packedBuffer >>= unpackToClientId cbor with
  | .ok (_, _, _, clientId) => some clientId
  | .error _ => none

theorem reachedClientId_text {packedBuffer : Bytes} {v : cbor.Value}
    (h : reachedClientId cbor packedBuffer = some v) : cbor.cborValueIsTextString v = true := by
  unfold reachedClientId at h
  split at h
  next a b c clientId hr =>
    obtain ⟨hdr, -, hr⟩ := except_bind_ok.mp hr
    simp only [unpackToClientId, except_bind_ok, reject_ok] at hr
    obtain ⟨_, -, _, -, _, -, _, -, _, -, _, -, w, -, _, htext, heq⟩ := hr
    cases heq
    cases h
    simpa using htext
  next => simp at h

/-- The terminator lies inside what was written. -/
theorem terminator_lt {v : cbor.Value} (hv : cbor.cborValueIsTextString v = true) {b : Bytes}
    {n : Nat} (h : cbor.cborValueCopyTextString v (WCL_SMP_CLIENT_ID_LENGTH + 1) = some (b, n))
    (hn : n ≤ WCL_SMP_CLIENT_ID_LENGTH) :
    n < (copy.written v (WCL_SMP_CLIENT_ID_LENGTH + 1)).length := by
  rw [copy.written_ok h]
  rw [cbor.copyTextString_cursor v _ hv] at h
  obtain ⟨r, -, hr⟩ := Option.bind_eq_some_iff.mp h
  split_ifs at hr with h1 h2
  · simp only [Option.some.injEq, Prod.mk.injEq] at hr
    rw [← hr.1, ← hr.2, List.length_append, List.length_singleton]
    omega
  · simp only [Option.some.injEq, Prod.mk.injEq] at hr
    omega

/-- The copy touches what TinyCBOR writes, and at most the terminator again. -/
theorem copyClientId_touched {v : cbor.Value} (hv : cbor.cborValueIsTextString v = true)
    (touched : List Nat) : ∃ r more, copyClientId cbor copy v touched =
      some (r, touched ++
        List.range (copy.written v (WCL_SMP_CLIENT_ID_LENGTH + 1)).length ++ more) ∧
      ∀ i ∈ more, i < (copy.written v (WCL_SMP_CLIENT_ID_LENGTH + 1)).length := by
  unfold copyClientId touchIndices
  rw [bind_of_ok modify_apply]
  rcases hcopy : cbor.cborValueCopyTextString v (WCL_SMP_CLIENT_ID_LENGTH + 1) with _ | ⟨b, n⟩
  · exact ⟨.error .error, [], by rw [List.append_nil]; rfl, by simp⟩
  · rw [bind_of_ok (a := (b, n)) rfl]
    by_cases hn : n > WCL_SMP_CLIENT_ID_LENGTH
    · refine ⟨.error .badFormat, [], ?_, by simp⟩
      rw [List.append_nil]
      exact bind_of_error (failIf_error.mpr ⟨hn, rfl, rfl⟩)
    · have hlt := terminator_lt copy hv hcopy (by omega)
      dsimp only
      rw [bind_of_ok (failIf_ok (u := ()) |>.mpr ⟨hn, rfl⟩), bind_of_ok modify_apply]
      by_cases hterm : b[n]? ≠ some WOS_STRING_NULL_TERM
      · refine ⟨.error .badFormat, [n], ?_, by simpa using hlt⟩
        exact bind_of_error (failIf_error.mpr ⟨hterm, rfl, rfl⟩)
      · refine ⟨.ok (b.take n), [n], ?_, by simpa using hlt⟩
        rw [bind_of_ok (failIf_ok (u := ()) |>.mpr ⟨hterm, rfl⟩)]
        rfl

/-- How far the decoder gets, in terms of the parts in front of the client id. -/
theorem reachedClientId_eq_some {packedBuffer : Bytes} {v : cbor.Value} :
    reachedClientId cbor packedBuffer = some v ↔
      ∃ hdr a b c, extractSmpCborHeader cbor packedBuffer = .ok hdr ∧
        unpackToClientId cbor hdr = .ok (a, b, c, v) := by
  unfold reachedClientId
  constructor
  · intro h
    split at h
    next a b c clientId hr =>
      obtain ⟨hdr, hx, hr⟩ := except_bind_ok.mp hr
      cases h
      exact ⟨hdr, a, b, c, hx, hr⟩
    next => simp at h
  · rintro ⟨hdr, a, b, c, hx, hr⟩
    rw [except_bind_ok.mpr ⟨hdr, hx, hr⟩]

theorem clientIdAccesses_of_not_reached {packedBuffer : Bytes}
    (h : reachedClientId cbor packedBuffer = none) :
    clientIdAccesses cbor copy packedBuffer = [] := by
  unfold clientIdAccesses unpackSmpHeaderFromSmpMsgInto
  rcases hx : extractSmpCborHeader cbor packedBuffer with e | hdr
  · rw [bind_of_error (e := e) (ofExcept_apply)]
  · rw [bind_of_ok (a := hdr) ofExcept_apply]
    unfold unpackSmpHeaderInto
    rcases hr : unpackToClientId cbor hdr with e | ⟨a, b, c, v⟩
    · rw [bind_of_error (e := e) ofExcept_apply]
    · rw [reachedClientId_eq_some.mpr ⟨hdr, a, b, c, hx, hr⟩] at h
      simp at h

theorem clientIdAccesses_of_reached {packedBuffer : Bytes} {v : cbor.Value}
    (h : reachedClientId cbor packedBuffer = some v) :
    ∃ more, clientIdAccesses cbor copy packedBuffer =
        List.range (copy.written v (WCL_SMP_CLIENT_ID_LENGTH + 1)).length ++ more ∧
      ∀ i ∈ more, i < (copy.written v (WCL_SMP_CLIENT_ID_LENGTH + 1)).length := by
  obtain ⟨hdr, a, b, c, hx, hr⟩ := reachedClientId_eq_some.mp h
  obtain ⟨r, more, hcopy, hmore⟩ := copyClientId_touched copy (reachedClientId_text h) []
  refine ⟨more, ?_, hmore⟩
  unfold clientIdAccesses unpackSmpHeaderFromSmpMsgInto
  rw [hx, bind_of_ok (a := hdr) ofExcept_apply]
  unfold unpackSmpHeaderInto
  rw [hr, bind_of_ok (a := (a, b, c, v)) ofExcept_apply]
  dsimp only
  cases r with
  | error e => rw [bind_of_error hcopy, List.nil_append]
  | ok clientId =>
      rw [bind_of_ok hcopy, List.nil_append]
      -- nothing behind the client id touches the buffer
      rcases hadv : cborStatus (cbor.cborValueAdvance v) with e | next
      · rw [bind_of_error (e := e) ofExcept_apply]
      · rw [bind_of_ok (a := next) ofExcept_apply]
        rcases hid : msgCborParseUint64 cbor next with e | messageId
        · rw [bind_of_error (e := e) ofExcept_apply]
        · rw [bind_of_ok (a := messageId) ofExcept_apply, pure_apply]

/-! ## Inside the allocation -/

/-- Every byte touched lies below `size` exactly when TinyCBOR writes no more
    than `size` bytes. -/
theorem clientIdAccesses_lt {packedBuffer : Bytes} {size : Nat} :
    (∀ i ∈ clientIdAccesses cbor copy packedBuffer, i < size) ↔
      ∀ v, reachedClientId cbor packedBuffer = some v →
        (copy.written v (WCL_SMP_CLIENT_ID_LENGTH + 1)).length ≤ size := by
  rcases hv : reachedClientId cbor packedBuffer with _ | v
  · simp [clientIdAccesses_of_not_reached copy hv]
  · obtain ⟨more, heq, hmore⟩ := clientIdAccesses_of_reached copy hv
    rw [heq]
    constructor
    · rintro h _ ⟨⟩
      by_contra hlong
      have := h size (List.mem_append_left _ (List.mem_range.mpr (by omega)))
      omega
    · intro h i hi
      have hsize := h v rfl
      rcases List.mem_append.mp hi with hi | hi
      · have := List.mem_range.mp hi
        omega
      · have := hmore i hi
        omega

/-- A client id that leaves room for a terminator inside the allocation; of one
    that TinyCBOR refuses, it has not filled the announced size. -/
def ClientIdFits (cbor : TinyCbor) (copy : TextCopy cbor) (v : cbor.Value) : Prop :=
  match (cbor.cursor v).string with
  | some (clientId, _) =>
      clientId.length < clientIdBufferSize ∨ WCL_SMP_CLIENT_ID_LENGTH + 1 < clientId.length ∧
        (copy.written v (WCL_SMP_CLIENT_ID_LENGTH + 1)).length ≤ clientIdBufferSize
  | none => (copy.written v (WCL_SMP_CLIENT_ID_LENGTH + 1)).length ≤ clientIdBufferSize

theorem written_le_iff {v : cbor.Value} (hv : cbor.cborValueIsTextString v = true) :
    (copy.written v (WCL_SMP_CLIENT_ID_LENGTH + 1)).length ≤ clientIdBufferSize ↔
      ClientIdFits cbor copy v := by
  have hcopy := cbor.copyTextString_cursor v (WCL_SMP_CLIENT_ID_LENGTH + 1) hv
  unfold ClientIdFits
  rcases hs : (cbor.cursor v).string with _ | ⟨clientId, rest⟩
  · exact Iff.rfl
  · rw [hs, Option.bind_some] at hcopy
    dsimp only at hcopy ⊢
    split_ifs at hcopy with h1 h2
    · rw [copy.written_ok hcopy, List.length_append, List.length_singleton]
      unfold clientIdBufferSize
      omega
    · rw [copy.written_ok hcopy]
      unfold clientIdBufferSize
      omega
    · unfold clientIdBufferSize
      omega

/-- The decoder stays inside the buffer `smpProcessMessage` has allocated
    exactly when the client id it copies fits there. -/
theorem client_id_in_bounds_iff (cbor : TinyCbor) (copy : TextCopy cbor) (packedBuffer : Bytes) :
    (∀ i ∈ clientIdAccesses cbor copy packedBuffer, i < clientIdBufferSize) ↔
      ∀ v, reachedClientId cbor packedBuffer = some v → ClientIdFits cbor copy v := by
  rw [clientIdAccesses_lt]
  exact forall_congr' fun v => imp_congr_right fun hv => written_le_iff copy (reachedClientId_text hv)

end Results

/-- A control message of a client with an id of 32 characters. -/
def longClientId : Bytes :=
  0x9f :: (Cbor.encodeString 2 (encodeSmpHeader
    ⟨1, 1, 3, List.replicate WCL_SMP_CLIENT_ID_LENGTH 97, 7⟩) ++ [0xff])

/-- Its terminator is written, and read, behind the allocation. -/
theorem longClientId_not_in_bounds :
    ¬ ∀ i ∈ clientIdAccesses (rfc7049 0) (TextCopy.allOrNothing 0) longClientId,
      i < clientIdBufferSize := by
  decide +kernel

end WeeveMQ
