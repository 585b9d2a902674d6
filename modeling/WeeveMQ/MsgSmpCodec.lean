/-
  WeeveMQ.MsgSmpCodec

  The wire formats of SMP, and that the packers and unpackers agree on them.

  - `wosMsgPack*_ok`: a packer succeeds exactly when its parameters are valid
    and the buffer is large enough, and what it writes is `encode*`.
  - `wosMsgUnpack*_encode`: the matching unpacker gives the parameters back.
  - `unpackSmpHeader_encode` / `unpackSmpHeader_prefix`: a header decodes to the
    same fields with any tail, and of its proper prefixes only the one without
    the closing break decodes at all.
-/

import WeeveMQ.MsgSmpConforms

namespace WeeveMQ

open Cbor (Cursor Writer Head encodeHead encodeString)
open Call (reject except_bind_ok)

/-! ## Formats -/

/-- The bytes of a packed header. -/
def encodeSmpHeader (h : WosSmpHeader) : Bytes :=
  0x9f :: (encodeHead 0 h.messageContext.toNat ++ (encodeHead 0 h.messageContextVersion.toNat ++
    (encodeHead 0 h.messageType ++ (encodeString 3 (stringContent h.clientId) ++
      (encodeHead 0 h.messageId.toNat ++ [0xff])))))

/-- The bytes of a packed control message. -/
def encodeSmpMqttsControlMessage (p : WosMsgMqttsControlParams) : Bytes :=
  0x9f :: (encodeString 2 p.encodedSmpHeader ++ (encodeString 2 p.mqttPacket ++
    (encodeString 2 p.iv ++ (encodeString 2 p.authTag ++ [0xff]))))

/-- The certificates of a session establishment message, one after another. -/
def encodeCerts (certs : List Bytes) : Bytes := certs.flatMap (encodeString 2)

/-- The cipher scheme in the message of this role. -/
def encodeCipherSchemeId (role : Role) (cipherSchemeId : UInt8) : Bytes :=
  match role with
  | .client => encodeHead 0 cipherSchemeId.toNat
  | .broker => []

/-- The bytes of a packed session establishment message. -/
def encodeSmpMqttsSEMessage (role : Role) (p : WosMsgMqttsSeParams) : Bytes :=
  0x9f :: (encodeString 2 p.encodedSmpHeader ++ (encodeCipherSchemeId role p.cipherSchemeId ++
    (encodeString 2 p.eccDhPubParams ++ (encodeString 2 p.mqttPacket ++
      (encodeString 2 p.signature ++ (encodeHead 0 p.numCerts.toNat ++
        (encodeCerts (p.certs.take p.numCerts.toNat) ++ [0xff])))))))

/-! ## Packing -/

@[simp] theorem cborStatus_ok {α : Type} {x : Option α} {a : α} :
    cborStatus x = .ok a ↔ x = some a := by
  cases x <;> simp [cborStatus]

/-- A packer from `w` on: it appends `bs` when its input is valid and the bytes
    fit, and fails otherwise; `result` is what it returns of the writer. -/
def Writes {α : Type} (result : Writer → α) (w : Writer) (valid : Prop) (bs : Bytes)
    (x : Except WosMsgError α) : Prop :=
  ∀ a, x = .ok a ↔ valid ∧ w.out.length + bs.length ≤ w.capacity ∧
    a = result { w with out := w.out ++ bs }

theorem writes_put (w : Writer) (bs : Bytes) : Writes id w True bs (cborStatus (w.put bs)) := by
  intro w'
  rw [cborStatus_ok, Cbor.Writer.put_eq, true_and, id]

theorem writes_nothing {α : Type} (result : Writer → α) (w : Writer)
    (hw : w.out.length ≤ w.capacity) : Writes result w True [] (pure (result w)) := by
  intro a
  simp [pure, Except.pure, hw, eq_comm]

/-- One part after the other; the rest starts from a writer that is not
    overfull. -/
theorem Writes.bind {α : Type} {result : Writer → α} {w : Writer} {v v' : Prop} {bs bs' : Bytes}
    {x : Except WosMsgError Writer} {f : Writer → Except WosMsgError α} (hx : Writes id w v bs x)
    (hf : ∀ w1 : Writer, w1.out.length ≤ w1.capacity → Writes result w1 v' bs' (f w1)) :
    Writes result w (v ∧ v') (bs ++ bs') (x >>= f) := by
  intro a
  rw [except_bind_ok]
  simp only [hx _, id, List.length_append]
  constructor
  · rintro ⟨w1, ⟨hv, hle, rfl⟩, hrest⟩
    obtain ⟨hv', hle', rfl⟩ := (hf _ (by simpa using hle) a).mp hrest
    simp only [List.length_append] at hle'
    exact ⟨⟨hv, hv'⟩, by omega, by simp⟩
  · rintro ⟨⟨hv, hv'⟩, hle, rfl⟩
    refine ⟨_, ⟨hv, by omega, rfl⟩, (hf _ ?_ _).mpr ⟨hv', ?_, by simp⟩⟩
    · simp only [List.length_append]
      omega
    · simp only [List.length_append]
      omega

/-- A check in front of a part. -/
theorem Writes.reject {α : Type} {result : Writer → α} {w : Writer} {c v : Prop} [Decidable c]
    {bs : Bytes} {e : WosMsgError} {f : Unit → Except WosMsgError α}
    (hf : Writes result w v bs (f ())) : Writes result w (¬ c ∧ v) bs (reject c e >>= f) := by
  intro a
  simp only [except_bind_ok, Call.reject_ok, exists_and_left, exists_const, hf a, and_assoc]

/-- The whole packer, on an empty buffer of `size` bytes. -/
theorem Writes.packed {size : Nat} {valid : Prop} {bs : Bytes} {x : Except WosMsgError Bytes}
    (h : Writes Writer.out ⟨size, []⟩ valid bs x) {b : Bytes} :
    x = .ok b ↔ valid ∧ bs.length ≤ size ∧ b = bs := by
  simpa using h b

section Packing

variable (cbor : TinyCbor)

theorem wosMsgPackSmpHeader_ok {h : WosSmpHeader} {size : Nat} {b : Bytes}
    (ht : h.messageType < 2 ^ 64) :
    wosMsgPackSmpHeader cbor h size = .ok b ↔
      wosStringLength h.clientId ≤ WCL_SMP_CLIENT_ID_LENGTH ∧
        (encodeSmpHeader h).length ≤ size ∧ b = encodeSmpHeader h := by
  rw [wosMsgPackSmpHeader_conforms cbor h size ht]
  have body := (writes_put ⟨size, []⟩ [0x9f]).bind fun w1 _ =>
    (writes_put w1 (encodeHead 0 h.messageContext.toNat)).bind fun w2 _ =>
    (writes_put w2 (encodeHead 0 h.messageContextVersion.toNat)).bind fun w3 _ =>
    (writes_put w3 (encodeHead 0 h.messageType)).bind fun w4 _ =>
    (writes_put w4 (encodeString 3 (stringContent h.clientId))).bind fun w5 _ =>
    (writes_put w5 (encodeHead 0 h.messageId.toNat)).bind fun w6 _ =>
    (writes_put w6 [0xff]).bind (writes_nothing Writer.out)
  refine body.reject.packed.trans ?_
  simp [encodeSmpHeader]

theorem wosMsgPackSmpMqttsControlMessage_ok {p : WosMsgMqttsControlParams} {size : Nat}
    {b : Bytes} : wosMsgPackSmpMqttsControlMessage cbor p size = .ok b ↔
      (p.encodedSmpHeader ≠ [] ∧ p.mqttPacket ≠ [] ∧ p.iv ≠ [] ∧ p.authTag ≠ []) ∧
        (encodeSmpMqttsControlMessage p).length ≤ size ∧ b = encodeSmpMqttsControlMessage p := by
  rw [wosMsgPackSmpMqttsControlMessage_conforms]
  have body := (writes_put ⟨size, []⟩ [0x9f]).bind fun w1 _ =>
    (writes_put w1 (encodeString 2 p.encodedSmpHeader)).bind fun w2 _ =>
    (writes_put w2 (encodeString 2 p.mqttPacket)).bind fun w3 _ =>
    (writes_put w3 (encodeString 2 p.iv)).bind fun w4 _ =>
    (writes_put w4 (encodeString 2 p.authTag)).bind fun w5 _ =>
    (writes_put w5 [0xff]).bind (writes_nothing Writer.out)
  refine body.reject.packed.trans ?_
  have hsize : (encodeSmpMqttsControlMessage p).length ≤ size → size ≠ 0 := by
    simp only [encodeSmpMqttsControlMessage, List.length_cons]
    omega
  simp only [List.append_nil, List.singleton_append, and_self, and_true]
  constructor
  · rintro ⟨hvalid, hle, rfl⟩
    exact ⟨by tauto, hle, rfl⟩
  · rintro ⟨hvalid, hle, rfl⟩
    have := hsize hle
    exact ⟨by tauto, hle, rfl⟩

/-- The certificate loop of the packer. -/
theorem packCerts_writes (limit : Nat) (certs : List Bytes) (w : Writer)
    (hw : w.out.length ≤ w.capacity) :
    Writes id w (∀ c ∈ certs, c ≠ []) (encodeCerts certs) (packCerts (rfc7049 limit) w certs) := by
  induction certs generalizing w with
  | nil =>
      intro w'
      refine (writes_nothing id w hw w').trans ?_
      simp [encodeCerts]
  | cons cert certs ih =>
      have body := (writes_put w (encodeString 2 cert)).bind ih
      intro w'
      refine (body.reject w').trans ?_
      simp [encodeCerts]

theorem packCipherSchemeId_writes (limit : Nat) (role : Role) (id' : UInt8) (w : Writer)
    (hw : w.out.length ≤ w.capacity) :
    Writes id w True (encodeCipherSchemeId role id')
      (packCipherSchemeId (rfc7049 limit) role w id') :=
  match role with
  | .client => writes_put w _
  | .broker => writes_nothing id w hw

theorem wosMsgPackSmpMqttsSEMessage_ok {role : Role} {p : WosMsgMqttsSeParams} {size : Nat}
    {b : Bytes} : wosMsgPackSmpMqttsSEMessage cbor role p size = .ok b ↔
      (p.encodedSmpHeader ≠ [] ∧ p.eccDhPubParams ≠ [] ∧ p.mqttPacket ≠ [] ∧ p.signature ≠ [] ∧
        1 ≤ p.numCerts ∧ ∀ c ∈ p.certs.take p.numCerts.toNat, c ≠ []) ∧
        (encodeSmpMqttsSEMessage role p).length ≤ size ∧ b = encodeSmpMqttsSEMessage role p := by
  rw [wosMsgPackSmpMqttsSEMessage_conforms]
  have body := (writes_put ⟨size, []⟩ [0x9f]).bind fun w1 _ =>
    (writes_put w1 (encodeString 2 p.encodedSmpHeader)).bind fun w2 hw2 =>
    (packCipherSchemeId_writes cbor.maxArrayCount role p.cipherSchemeId w2 hw2).bind fun w3 _ =>
    (writes_put w3 (encodeString 2 p.eccDhPubParams)).bind fun w4 _ =>
    (writes_put w4 (encodeString 2 p.mqttPacket)).bind fun w5 _ =>
    (writes_put w5 (encodeString 2 p.signature)).bind fun w6 _ =>
    (writes_put w6 (encodeHead 0 p.numCerts.toNat)).bind fun w7 hw7 =>
    (packCerts_writes cbor.maxArrayCount (p.certs.take p.numCerts.toNat) w7 hw7).bind fun w8 _ =>
    (writes_put w8 [0xff]).bind (writes_nothing Writer.out)
  refine body.reject.packed.trans ?_
  have hsize : (encodeSmpMqttsSEMessage role p).length ≤ size → size ≠ 0 := by
    simp only [encodeSmpMqttsSEMessage, List.length_cons]
    omega
  have hnum : ¬ p.numCerts < 1 ↔ 1 ≤ p.numCerts := UInt8.not_lt
  simp only [List.append_nil, List.singleton_append, and_true, true_and, ← hnum]
  constructor
  · rintro ⟨hvalid, hle, rfl⟩
    exact ⟨by tauto, hle, rfl⟩
  · rintro ⟨hvalid, hle, rfl⟩
    have := hsize hle
    exact ⟨by tauto, hle, rfl⟩

end Packing

/-! ## Reading on RFC 7049 -/

section Reading

variable {limit : Nat} {c : Cursor}

theorem msgCborParseUint64_ok {n : Nat} :
    msgCborParseUint64 (rfc7049 limit) c = .ok n ↔ c.uint = some n := by
  simp only [msgCborParseUint64, except_bind_ok, Call.reject_ok, cborStatus_ok, exists_and_left,
    exists_const, and_iff_right_iff_imp]
  intro h hc
  unfold Cursor.uint at h
  split at h
  · rename_i m hm
    simp [Cursor.is, hm] at hc
  · simp at h

theorem msgCborParseByteString_ok {s : Bytes} :
    msgCborParseByteString (rfc7049 limit) c = .ok s ↔
      c.is 2 = true ∧ ∃ rest, c.string = some (s, rest) := by
  simp [msgCborParseByteString, except_bind_ok]

theorem msgCborParseByteStringNext_ok {s : Bytes} {c' : Cursor} :
    msgCborParseByteStringNext (rfc7049 limit) c = .ok (s, c') ↔
      c.is 2 = true ∧ ∃ rest, c.string = some (s, rest) ∧ c.next rest = some c' := by
  simp only [msgCborParseByteStringNext, except_bind_ok, Call.reject_ok, cborStatus_ok,
    exists_and_left, exists_const, Bool.not_eq_false, Option.bind_eq_some_iff, Prod.exists,
    Option.map_eq_some_iff, Prod.mk.injEq]
  constructor
  · rintro ⟨hc, s', rest, hs, c'', hn, rfl, rfl⟩
    exact ⟨hc, rest, hs, hn⟩
  · rintro ⟨hc, rest, hs, hn⟩
    exact ⟨hc, s, rest, hs, c', hn, rfl, rfl⟩

theorem enterRootArray_ok {b : Bytes} :
    enterRootArray (rfc7049 limit) b = .ok c ↔
      ∃ c0, Cursor.start b = some c0 ∧ c0.enterArray limit = some c := by
  simp only [enterRootArray, except_bind_ok, Call.reject_ok, cborStatus_ok, exists_and_left,
    exists_const, Bool.not_eq_false]
  refine exists_congr fun c0 => and_congr_right fun _ => ?_
  rw [and_iff_right_iff_imp]
  intro h
  unfold Cursor.enterArray at h
  split at h
  · rename_i hh
    simp [Cursor.is, hh]
  · rename_i n hh
    simp [Cursor.is, hh]
  · simp at h

/-- The client id is accepted when it fits with its terminator. -/
theorem copyTextString_accepted (limit : Nat) {buf : Bytes} {len : Nat} :
    (rfc7049 limit).cborValueCopyTextString c (WCL_SMP_CLIENT_ID_LENGTH + 1) = some (buf, len) ∧
        ¬(len > WCL_SMP_CLIENT_ID_LENGTH ∨ buf[len]? ≠ some WOS_STRING_NULL_TERM) ↔
      ∃ s rest, c.string = some (s, rest) ∧ s.length ≤ WCL_SMP_CLIENT_ID_LENGTH ∧
        buf = s ++ [0] ∧ len = s.length := by
  simp only [Option.bind_eq_some_iff, Prod.exists]
  constructor
  · rintro ⟨⟨s, rest, hs, h⟩, hcheck⟩
    split_ifs at h with h1 h2
    · simp only [Option.some.injEq, Prod.mk.injEq] at h
      obtain ⟨rfl, rfl⟩ := h
      exact ⟨s, rest, hs, by omega, rfl, rfl⟩
    · simp only [Option.some.injEq, Prod.mk.injEq] at h
      exact absurd (.inl (by omega)) hcheck
  · rintro ⟨s, rest, hs, hlen, rfl, rfl⟩
    refine ⟨⟨s, rest, hs, ?_⟩, ?_⟩
    · rw [if_pos (by omega)]
    · simp [WOS_STRING_NULL_TERM]
      omega

end Reading

/-- The header decoder on cursors, with the bytes it leaves unread. -/
def readSmpHeader (limit : Nat) (b : Bytes) : Option (WosSmpHeader × Bytes) := do
  let c ← Cursor.start b
  let c ← c.enterArray limit
  let messageContext ← c.uint
  let c ← c.skip
  let messageContextVersion ← c.uint
  let c ← c.skip
  let messageType ← c.uint
  let c ← c.skip
  let r ← (if c.is 3 then c.string else none)
  let c ← (if r.1.length ≤ WCL_SMP_CLIENT_ID_LENGTH then c.skip else none)
  let messageId ← c.uint
  some ({
    messageContext := UInt8.ofNat messageContext
    messageContextVersion := UInt8.ofNat messageContextVersion
    messageType := messageType % 256
    clientId := r.1
    messageId := UInt32.ofNat messageId }, c.body)

theorem readSmpHeader_eq {limit : Nat} {b : Bytes} {h : WosSmpHeader} {rest : Bytes} :
    readSmpHeader limit b = some (h, rest) ↔
      ∃ c0 c1 c2 c3 c4 c5 : Cursor, ∃ n1 n2 n3 n4 : Nat, ∃ clientId tail : Bytes,
        (Cursor.start b = some c0 ∧ c0.enterArray limit = some c1) ∧
        (c1.uint = some n1 ∧ c1.skip = some c2) ∧ (c2.uint = some n2 ∧ c2.skip = some c3) ∧
        (c3.uint = some n3 ∧ c3.skip = some c4) ∧
        (c4.is 3 = true ∧ c4.string = some (clientId, tail)) ∧
        (clientId.length ≤ WCL_SMP_CLIENT_ID_LENGTH ∧ c4.skip = some c5) ∧
        c5.uint = some n4 ∧
        h = ⟨UInt8.ofNat n1, UInt8.ofNat n2, n3 % 256, clientId, UInt32.ofNat n4⟩ ∧
        rest = c5.body := by
  simp only [readSmpHeader, Option.bind_eq_bind, Option.bind_eq_some_iff, Prod.exists]
  constructor
  · rintro ⟨c0, h0, c1, h1, n1, hn1, c2, h2, n2, hn2, c3, h3, n3, hn3, c4, h4, s, t, hs, c5, h5,
      n4, hn4, heq⟩
    split_ifs at hs with ht
    split_ifs at h5 with hlen
    cases heq
    exact ⟨c0, c1, c2, c3, c4, c5, n1, n2, n3, n4, s, t, ⟨h0, h1⟩, ⟨hn1, h2⟩, ⟨hn2, h3⟩, ⟨hn3, h4⟩,
      ⟨ht, hs⟩, ⟨hlen, h5⟩, hn4, rfl, rfl⟩
  · rintro ⟨c0, c1, c2, c3, c4, c5, n1, n2, n3, n4, s, t, ⟨h0, h1⟩, ⟨hn1, h2⟩, ⟨hn2, h3⟩, ⟨hn3, h4⟩,
      ⟨ht, hs⟩, ⟨hlen, h5⟩, hn4, rfl, rfl⟩
    exact ⟨c0, h0, c1, h1, n1, hn1, c2, h2, n2, hn2, c3, h3, n3, hn3, c4, h4, s, t,
      by rw [if_pos ht, hs], c5, by rw [if_pos hlen, h5], n4, hn4, rfl⟩

theorem unpackSmpHeader_ok (cbor : TinyCbor) {b : Bytes} {h : WosSmpHeader} :
    unpackSmpHeader cbor b = .ok h ↔
      ∃ rest, readSmpHeader cbor.maxArrayCount b = some (h, rest) := by
  rw [unpackSmpHeader_conforms]
  unfold TinyCbor.reference
  generalize cbor.maxArrayCount = limit
  simp only [unpackSmpHeader, except_bind_ok, Call.reject_ok, cborStatus_ok,
    msgCborParseUint64_ok, readSmpHeader_eq, Prod.exists, Bool.not_eq_false]
  constructor
  · rintro ⟨c1, hroot, n1, hn1, c2, h2, n2, hn2, c3, h3, n3, hn3, c4, h4, -, ht, buf, len, hcopy,
      -, hcheck, c5, h5, n4, hn4, heq⟩
    obtain ⟨c0, h0, h1⟩ := enterRootArray_ok.mp hroot
    obtain ⟨s, t, hs, hlen, rfl, rfl⟩ := (copyTextString_accepted limit).mp ⟨hcopy, hcheck⟩
    cases heq
    exact ⟨c5.body, c0, c1, c2, c3, c4, c5, n1, n2, n3, n4, s, t, ⟨h0, h1⟩, ⟨hn1, h2⟩, ⟨hn2, h3⟩,
      ⟨hn3, h4⟩, ⟨ht, hs⟩, ⟨hlen, h5⟩, hn4, by simp, rfl⟩
  · rintro ⟨rest, c0, c1, c2, c3, c4, c5, n1, n2, n3, n4, s, t, ⟨h0, h1⟩, ⟨hn1, h2⟩, ⟨hn2, h3⟩,
      ⟨hn3, h4⟩, ⟨ht, hs⟩, ⟨hlen, h5⟩, hn4, rfl, rfl⟩
    obtain ⟨hcopy, hcheck⟩ := (copyTextString_accepted limit).mpr ⟨s, t, hs, hlen, rfl, rfl⟩
    exact ⟨c1, enterRootArray_ok.mpr ⟨c0, h0, h1⟩, n1, hn1, c2, h2, n2, hn2, c3, h3, n3, hn3, c4,
      h4, (), ht, _, _, hcopy, (), hcheck, c5, h5, n4, hn4, by simp [pure, Except.pure]⟩

/-! ## Headers -/

/-- What the decoder reads does not depend on what follows it. -/
theorem readSmpHeader_append {limit : Nat} {b : Bytes} {h : WosSmpHeader} {rest : Bytes}
    (x : Bytes) (hb : readSmpHeader limit b = some (h, rest)) :
    readSmpHeader limit (b ++ x) = some (h, rest ++ x) := by
  rw [readSmpHeader_eq] at hb ⊢
  obtain ⟨c0, c1, c2, c3, c4, c5, n1, n2, n3, n4, s, t, ⟨h0, h1⟩, ⟨hn1, h2⟩, ⟨hn2, h3⟩, ⟨hn3, h4⟩,
    ⟨ht, hs⟩, ⟨hlen, h5⟩, hn4, rfl, rfl⟩ := hb
  exact ⟨c0.extend x, c1.extend x, c2.extend x, c3.extend x, c4.extend x, c5.extend x, n1, n2, n3,
    n4, s, t ++ x, ⟨Cursor.start_append x h0, Cursor.enterArray_append x h1⟩,
    ⟨hn1, Cursor.skip_append x h2⟩, ⟨hn2, Cursor.skip_append x h3⟩, ⟨hn3, Cursor.skip_append x h4⟩,
    ⟨ht, Cursor.string_append x hs⟩, ⟨hlen, Cursor.skip_append x h5⟩, hn4, rfl, rfl⟩

/-- The header as its fields hold it: the client id up to its terminator, the
    type in one byte. -/
def WosSmpHeader.narrowed (h : WosSmpHeader) : WosSmpHeader :=
  { h with clientId := stringContent h.clientId, messageType := h.messageType % 256 }

/-- The decoder stops in front of the closing break. -/
theorem readSmpHeader_encode (limit : Nat) {h : WosSmpHeader} (ht : h.messageType < 2 ^ 64)
    (hid : wosStringLength h.clientId ≤ WCL_SMP_CLIENT_ID_LENGTH) :
    readSmpHeader limit (encodeSmpHeader h) = some (h.narrowed, [0xff]) := by
  have hid64 : (stringContent h.clientId).length < 2 ^ 64 := by
    unfold wosStringLength WCL_SMP_CLIENT_ID_LENGTH at hid
    omega
  have h32 : h.messageId.toNat < 2 ^ 64 := by
    have := h.messageId.toNat_lt
    omega
  have uint : ∀ {n : Nat} (b : Bytes), n < 2 ^ 64 →
      Cursor.settle none (encodeHead 0 n ++ b) = some ⟨none, some ⟨0, some n⟩, b⟩ :=
    fun b hn => Cursor.settle_encodeHead (by simp) (by decide) hn b
  have text : Cursor.settle none (encodeString 3 (stringContent h.clientId) ++
      (encodeHead 0 h.messageId.toNat ++ [0xff])) = some ⟨none, some ⟨3, some _⟩, _⟩ :=
    Cursor.settle_encodeString (by simp) (by decide) hid64 _
  refine readSmpHeader_eq.mpr ⟨_, _, _, _, _, ⟨none, some ⟨0, some h.messageId.toNat⟩, [0xff]⟩,
    _, _, _, _, _, _, ⟨Cursor.start_array _, uint _ (uint64_of_uint8 _)⟩,
    ⟨rfl, uint _ (uint64_of_uint8 _)⟩, ⟨rfl, uint _ ht⟩, ⟨rfl, text⟩,
    ⟨rfl, Cursor.string_encoded (.inr rfl) _ _⟩, ⟨hid, ?_⟩, rfl, ?_, rfl⟩
  · unfold Cursor.skip
    rw [Cursor.string_encoded (.inr rfl)]
    exact uint [0xff] h32
  · simp [WosSmpHeader.narrowed]

theorem unpackSmpHeader_append (cbor : TinyCbor) {b : Bytes} {h : WosSmpHeader} (x : Bytes)
    (hb : unpackSmpHeader cbor b = .ok h) : unpackSmpHeader cbor (b ++ x) = .ok h := by
  rw [unpackSmpHeader_ok] at hb ⊢
  obtain ⟨rest, hr⟩ := hb
  exact ⟨rest ++ x, readSmpHeader_append x hr⟩

theorem unpackSmpHeader_encode (cbor : TinyCbor) {h : WosSmpHeader} (ht : h.messageType < 2 ^ 64)
    (hid : wosStringLength h.clientId ≤ WCL_SMP_CLIENT_ID_LENGTH) :
    unpackSmpHeader cbor (encodeSmpHeader h) = .ok h.narrowed :=
  (unpackSmpHeader_ok cbor).mpr ⟨_, readSmpHeader_encode _ ht hid⟩

/-- A prefix of an encoded header decodes only when at most the closing break
    is missing, and then to the header itself. -/
theorem unpackSmpHeader_prefix (cbor : TinyCbor) {h h' : WosSmpHeader} {b x : Bytes}
    (ht : h.messageType < 2 ^ 64) (hid : wosStringLength h.clientId ≤ WCL_SMP_CLIENT_ID_LENGTH)
    (hb : b ++ x = encodeSmpHeader h) (hdec : unpackSmpHeader cbor b = .ok h') :
    h' = h.narrowed ∧ (x = [] ∨ x = [0xff]) := by
  obtain ⟨rest, hr⟩ := (unpackSmpHeader_ok cbor).mp hdec
  have hfull := readSmpHeader_append x hr
  rw [hb, readSmpHeader_encode _ ht hid, Option.some.injEq, Prod.mk.injEq] at hfull
  refine ⟨hfull.1.symm, ?_⟩
  cases rest with
  | nil => exact .inr hfull.2.symm
  | cons c rest =>
      have := hfull.2
      simp only [List.cons_append, List.cons.injEq, List.nil_eq, List.append_eq_nil_iff] at this
      exact .inl this.2.2

/-! ## Messages -/

theorem parseByteString_of_next {limit : Nat} {c c' : Cursor} {b : Bytes}
    (h : msgCborParseByteStringNext (rfc7049 limit) c = .ok (b, c')) :
    msgCborParseByteString (rfc7049 limit) c = .ok b := by
  obtain ⟨his, rest, hs, -⟩ := msgCborParseByteStringNext_ok.mp h
  exact msgCborParseByteString_ok.mpr ⟨his, rest, hs⟩

/-- The header that routes a control message is the one it authenticates. -/
theorem header_of_control (cbor : TinyCbor) {m : Bytes} {p : WosMsgMqttsControlParams}
    (hp : wosMsgUnpackSmpMqttsControlMessage cbor m = .ok p) :
    wosMsgUnpackSmpHeaderFromSmpMsg cbor m = unpackSmpHeader cbor p.encodedSmpHeader := by
  rw [wosMsgUnpackSmpMqttsControlMessage_conforms] at hp
  rw [wosMsgUnpackSmpHeaderFromSmpMsg_conforms, unpackSmpHeader_conforms]
  simp only [wosMsgUnpackSmpMqttsControlMessage, except_bind_ok, Prod.exists] at hp
  obtain ⟨u, hm, c, hc, hdr, c1, h1, _, _, -, _, _, -, _, -, heq⟩ := hp
  cases heq
  simp only [wosMsgUnpackSmpHeaderFromSmpMsg, hm, hc, bind, Except.bind,
    parseByteString_of_next h1]

/-- An unpacked session establishment message is its fields and certificates. -/
theorem unpackSeFields_of_ok {cbor : TinyCbor} {role : Role} {m : Bytes} {p : WosMsgMqttsSeParams}
    (hp : wosMsgUnpackSmpMqttsSEMessage cbor role m = some (.ok p)) :
    ∃ q n v certs, unpackSeFields cbor role m = .ok (q, n, v) ∧ p = { q with certs := certs } := by
  unfold wosMsgUnpackSmpMqttsSEMessage at hp
  rcases hf : unpackSeFields cbor role m with e | ⟨q, n, v⟩
  · simp [hf] at hp
  · simp only [hf] at hp
    split_ifs at hp
    · simp at hp
    · split at hp
      · simp at hp
      · obtain ⟨r, -, hr⟩ := Option.map_eq_some_iff.mp hp
        cases r with
        | error e => simp [Except.map] at hr
        | ok certs =>
            cases hr
            exact ⟨q, n, v, certs, rfl, rfl⟩

/-- The header that routes a session establishment message is the one it signs. -/
theorem header_of_se (cbor : TinyCbor) {role : Role} {m : Bytes} {p : WosMsgMqttsSeParams}
    (hp : wosMsgUnpackSmpMqttsSEMessage cbor role m = some (.ok p)) :
    wosMsgUnpackSmpHeaderFromSmpMsg cbor m = unpackSmpHeader cbor p.encodedSmpHeader := by
  rw [wosMsgUnpackSmpMqttsSEMessage_conforms] at hp
  rw [wosMsgUnpackSmpHeaderFromSmpMsg_conforms, unpackSmpHeader_conforms]
  obtain ⟨q, n, v, certs, hf, rfl⟩ := unpackSeFields_of_ok hp
  simp only [unpackSeFields, except_bind_ok, Prod.exists] at hf
  obtain ⟨u, hm, c, hc, hdr, c1, h1, _, _, -, _, _, -, _, _, -, _, _, -, _, -, heq⟩ := hf
  cases heq
  simp only [wosMsgUnpackSmpHeaderFromSmpMsg, hm, hc, bind, Except.bind,
    parseByteString_of_next h1]

section RoundTrip

variable {limit : Nat}

theorem enterRootArray_encoded {major n : Nat} (hm : major < 7) (hn : n < 2 ^ 64) (rest : Bytes) :
    enterRootArray (rfc7049 limit) (0x9f :: (encodeHead major n ++ rest)) =
      .ok ⟨none, some ⟨major, some n⟩, rest⟩ :=
  enterRootArray_ok.mpr
    ⟨_, Cursor.start_array _, Cursor.settle_encodeHead (by simp) hm hn rest⟩

theorem parseByteString_encoded (s rest : Bytes) :
    msgCborParseByteString (rfc7049 limit) ⟨none, some ⟨2, some s.length⟩, s ++ rest⟩ = .ok s :=
  msgCborParseByteString_ok.mpr ⟨rfl, rest, Cursor.string_encoded (.inl rfl) s rest⟩

/-- A byte string followed by any item written by `encodeHead`. -/
theorem parseByteStringNext_encoded (s : Bytes) {major n : Nat} (hm : major < 7)
    (hn : n < 2 ^ 64) (rest : Bytes) :
    msgCborParseByteStringNext (rfc7049 limit)
        ⟨none, some ⟨2, some s.length⟩, s ++ (encodeHead major n ++ rest)⟩ =
      .ok (s, ⟨none, some ⟨major, some n⟩, rest⟩) :=
  msgCborParseByteStringNext_ok.mpr
    ⟨rfl, _, Cursor.string_encoded (.inl rfl) s _, Cursor.settle_encodeHead (by simp) hm hn rest⟩

theorem parseUint64_encoded (n : Nat) (body : Bytes) :
    msgCborParseUint64 (rfc7049 limit) ⟨none, some ⟨0, some n⟩, body⟩ = .ok n :=
  msgCborParseUint64_ok.mpr rfl

theorem skip_uint_encoded (k : Nat) {major n : Nat} (hm : major < 7) (hn : n < 2 ^ 64)
    (rest : Bytes) :
    (⟨none, some ⟨0, some k⟩, encodeHead major n ++ rest⟩ : Cursor).skip =
      some ⟨none, some ⟨major, some n⟩, rest⟩ := by
  have : (Option.map (· - 1) (none : Option Nat)) ≠ some 0 := by simp
  exact Cursor.settle_encodeHead this hm hn rest

/-- Unpacking undoes packing. -/
theorem wosMsgUnpackSmpMqttsControlMessage_encode (cbor : TinyCbor) {p : WosMsgMqttsControlParams}
    (h : (encodeSmpMqttsControlMessage p).length < 2 ^ 64) :
    wosMsgUnpackSmpMqttsControlMessage cbor (encodeSmpMqttsControlMessage p) = .ok p := by
  simp only [encodeSmpMqttsControlMessage, encodeString, List.append_assoc, List.length_cons,
    List.length_append] at h
  rw [wosMsgUnpackSmpMqttsControlMessage_conforms]
  unfold TinyCbor.reference
  simp only [wosMsgUnpackSmpMqttsControlMessage, encodeSmpMqttsControlMessage, encodeString,
    List.append_assoc, except_bind_ok]
  refine ⟨(), by simp, _, enterRootArray_encoded (by decide) (by omega) _,
    _, parseByteStringNext_encoded _ (by decide) (by omega) _,
    _, parseByteStringNext_encoded _ (by decide) (by omega) _,
    _, parseByteStringNext_encoded _ (by decide) (by omega) _,
    _, parseByteString_encoded _ _, rfl⟩

theorem encodeCerts_cons (cert : Bytes) (certs : List Bytes) :
    encodeCerts (cert :: certs) = encodeString 2 cert ++ encodeCerts certs := rfl

theorem skip_string_encoded {s rest : Bytes} {c' : Cursor}
    (h : Cursor.settle none rest = some c') :
    (⟨none, some ⟨2, some s.length⟩, s ++ rest⟩ : Cursor).skip = some c' := by
  unfold Cursor.skip
  rw [Cursor.string_encoded (.inl rfl)]
  exact h

/-- One round of the certificate loop. -/
theorem unpackCerts_step {slots remaining i : Nat} {cert rest : Bytes} {c' : Cursor}
    (hi : i < slots) (h : Cursor.settle none rest = some c') :
    unpackCerts (rfc7049 limit) slots (remaining + 1) i
        ⟨none, some ⟨2, some cert.length⟩, cert ++ rest⟩ =
      (unpackCerts (rfc7049 limit) slots remaining (i + 1) c').map fun r =>
        r.map (cert :: ·) := by
  simp only [unpackCerts, parseByteString_encoded]
  rw [if_neg (by omega), skip_string_encoded h]

/-- The certificate loop reads back the certificates, when the table has a slot
    for each of them. -/
theorem unpackCerts_encoded {slots : Nat} (cert : Bytes) (certs : List Bytes) {i : Nat}
    (hslots : i + certs.length < slots) (hlen : (encodeCerts (cert :: certs)).length < 2 ^ 64) :
    unpackCerts (rfc7049 limit) slots (certs.length + 1) i
        ⟨none, some ⟨2, some cert.length⟩, cert ++ (encodeCerts certs ++ [0xff])⟩ =
      some (.ok (cert :: certs)) := by
  induction certs generalizing cert i with
  | nil =>
      have hend : Cursor.settle none (encodeCerts [] ++ [0xff]) = some ⟨some 0, none, []⟩ :=
        Cursor.settle_break []
      rw [List.length_nil] at hslots ⊢
      rw [unpackCerts_step (by omega) hend]
      rfl
  | cons next certs ih =>
      simp only [encodeCerts_cons, encodeString, List.length_append] at hlen
      have hnext : Cursor.settle none (encodeCerts (next :: certs) ++ [0xff]) =
          some ⟨none, some ⟨2, some next.length⟩, next ++ (encodeCerts certs ++ [0xff])⟩ := by
        rw [encodeCerts_cons, List.append_assoc]
        exact Cursor.settle_encodeString (by simp) (by decide) (by omega) _
      rw [List.length_cons] at hslots ⊢
      rw [unpackCerts_step (by omega) hnext, ih next (by omega) ?_]
      · rfl
      · simp only [encodeCerts_cons, encodeString, List.length_append]
        omega

/-- The parameters as the other role unpacks them: only the client's message
    carries a cipher scheme. -/
def WosMsgMqttsSeParams.receivedFrom (p : WosMsgMqttsSeParams) (role : Role) :
    WosMsgMqttsSeParams :=
  { p with cipherSchemeId := match role with
      | .client => p.cipherSchemeId
      | .broker => 0 }

theorem unpackCipherSchemeId_encoded (limit : Nat) (role : Role) (id : UInt8) (b : Bytes) {n : Nat}
    (hn : n < 2 ^ 64) (rest : Bytes) :
    ∃ c : Cursor, msgCborParseByteStringNext (rfc7049 limit) ⟨none, some ⟨2, some b.length⟩,
        b ++ (encodeCipherSchemeId role id ++ (encodeHead 2 n ++ rest))⟩ = .ok (b, c) ∧
      unpackCipherSchemeId (rfc7049 limit) role.peer c =
        .ok (match role with | .client => id | .broker => 0,
          ⟨none, some ⟨2, some n⟩, rest⟩) := by
  cases role with
  | client =>
      refine ⟨_, parseByteStringNext_encoded b (by decide) (uint64_of_uint8 id) _, ?_⟩
      simp only [Role.peer, unpackCipherSchemeId, parseUint64_encoded, bind, Except.bind,
        skip_uint_encoded _ (show 2 < 7 by decide) hn, cborStatus, pure, Except.pure,
        UInt8.ofNat_toNat]
  | broker => exact ⟨_, parseByteStringNext_encoded b (by decide) hn _, rfl⟩

theorem unpackSeFields_encoded (role : Role) (p : WosMsgMqttsSeParams)
    (h : (encodeSmpMqttsSEMessage role p).length < 2 ^ 64) :
    unpackSeFields (rfc7049 limit) role.peer (encodeSmpMqttsSEMessage role p) =
      .ok ({ p.receivedFrom role with certs := [] }, p.numCerts.toNat,
        ⟨none, some ⟨0, some p.numCerts.toNat⟩,
          encodeCerts (p.certs.take p.numCerts.toNat) ++ [0xff]⟩) := by
  simp only [encodeSmpMqttsSEMessage, encodeString, List.append_assoc, List.length_cons,
    List.length_append] at h
  simp only [unpackSeFields, encodeSmpMqttsSEMessage, encodeString, List.append_assoc,
    except_bind_ok, Prod.exists]
  obtain ⟨c, hc, hcipher⟩ := unpackCipherSchemeId_encoded limit role p.cipherSchemeId
    p.encodedSmpHeader (n := p.eccDhPubParams.length) (by omega) (p.eccDhPubParams ++
      (encodeHead 2 p.mqttPacket.length ++ (p.mqttPacket ++ (encodeHead 2 p.signature.length ++
        (p.signature ++ (encodeHead 0 p.numCerts.toNat ++
          (encodeCerts (p.certs.take p.numCerts.toNat) ++ [0xff])))))))
  refine ⟨(), by simp, _, enterRootArray_encoded (by decide) (by omega) _, _, _, hc, _, _, hcipher,
    _, _, parseByteStringNext_encoded _ (by decide) (by omega) _,
    _, _, parseByteStringNext_encoded _ (by decide) (by omega) _,
    _, _, parseByteStringNext_encoded _ (by decide) (uint64_of_uint8 _) _,
    _, parseUint64_encoded _ _, ?_⟩
  simp [pure, Except.pure, WosMsgMqttsSeParams.receivedFrom]

/-- Unpacking by the other role undoes packing. -/
theorem wosMsgUnpackSmpMqttsSEMessage_encode (cbor : TinyCbor) (role : Role)
    {p : WosMsgMqttsSeParams} (hcerts : p.certs.length = p.numCerts.toNat) (hne : p.numCerts ≠ 0)
    (h : (encodeSmpMqttsSEMessage role p).length < 2 ^ 64) :
    wosMsgUnpackSmpMqttsSEMessage cbor role.peer (encodeSmpMqttsSEMessage role p) =
      some (.ok (p.receivedFrom role)) := by
  rw [wosMsgUnpackSmpMqttsSEMessage_conforms]
  simp only [wosMsgUnpackSmpMqttsSEMessage, unpackSeFields_encoded role p h]
  rw [← hcerts, List.take_length]
  rcases hp : p.certs with _ | ⟨cert, certs⟩
  · exact absurd (UInt8.toNat_inj.mp (by simp [← hcerts, hp])) hne
  · have hlen : (encodeCerts (cert :: certs)).length < 2 ^ 64 := by
      simp only [encodeSmpMqttsSEMessage, List.length_cons, List.length_append] at h
      rw [← hcerts, List.take_length, hp] at h
      omega
    have hnum : (p.receivedFrom role).numCerts.toNat = certs.length + 1 := by
      rw [← List.length_cons (a := cert), ← hp]
      exact hcerts.symm
    have hcert : cert.length < 2 ^ 64 := by
      simp only [encodeCerts_cons, encodeString, List.length_append] at hlen
      omega
    have hne' : (p.receivedFrom role).numCerts ≠ 0 := hne
    rw [if_neg hne', encodeCerts_cons, encodeString, List.append_assoc, List.append_assoc,
      skip_uint_encoded _ (by decide) hcert, List.length_cons]
    simp only [hnum]
    rw [unpackCerts_encoded cert certs (by omega) hlen]
    simp [Except.map, WosMsgMqttsSeParams.receivedFrom, ← hp]

end RoundTrip

end WeeveMQ
