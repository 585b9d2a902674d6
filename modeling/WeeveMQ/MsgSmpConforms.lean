/-
  WeeveMQ.MsgSmpConforms

  The SMP serialisation gives the same result on every TinyCBOR that implements
  RFC 7049: that of the instance `rfc7049`, which runs on cursors and writers.

  Each `*_conforms` lemma follows its function statement by statement with
  `bind_conforms`; the precondition of an accessor comes from the type check in
  front of it.
-/

import WeeveMQ.MsgSmp

namespace WeeveMQ

open Cbor (Writer)
open Call (reject except_bind_ok)

/-! ## Running on RFC 7049 -/

/-- Two sequences agree when their first steps agree up to a view and their
    rests agree on what the first step can return. -/
theorem bind_map_conforms {ε α β γ δ : Type} {x : Except ε α} {y : Except ε β} {view : α → β}
    {f : α → Except ε γ} {g : β → Except ε δ} {view' : γ → δ} (hxy : x.map view = y)
    (hfg : ∀ a, x = .ok a → (f a).map view' = g (view a)) :
    (x >>= f).map view' = (y >>= g) := by
  subst hxy
  cases x with
  | error e => rfl
  | ok a => exact hfg a rfl

theorem map_id_eq {ε α : Type} (x : Except ε α) : x.map id = x := by
  cases x <;> rfl

theorem bind_conforms {ε α β γ : Type} {x : Except ε α} {y : Except ε β} {view : α → β}
    {f : α → Except ε γ} {g : β → Except ε γ} (hxy : x.map view = y)
    (hfg : ∀ a, x = .ok a → f a = g (view a)) : (x >>= f) = (y >>= g) := by
  rw [← map_id_eq (x >>= f)]
  exact bind_map_conforms hxy fun a ha => (map_id_eq (f a)).trans (hfg a ha)

theorem reject_map_conforms {ε γ δ : Type} {c c' : Prop} [Decidable c] [Decidable c'] {e : ε}
    {f : Unit → Except ε γ} {g : Unit → Except ε δ} {view : γ → δ} (hc : c ↔ c')
    (hfg : ¬ c → (f ()).map view = g ()) :
    (reject c e >>= f).map view = (reject c' e >>= g) := by
  have hxy : (reject c e).map id = reject c' e := by
    simp only [map_id_eq, reject, hc]
  exact bind_map_conforms hxy fun u hu => hfg (Call.reject_ok.mp hu)

theorem reject_conforms {ε γ : Type} {c c' : Prop} [Decidable c] [Decidable c'] {e : ε}
    {f g : Unit → Except ε γ} (hc : c ↔ c') (hfg : ¬ c → f () = g ()) :
    (reject c e >>= f) = (reject c' e >>= g) := by
  rw [← map_id_eq (reject c e >>= f)]
  exact reject_map_conforms hc fun h => (map_id_eq _).trans (hfg h)

theorem cborStatus_map {α β : Type} (x : Option α) (view : α → β) :
    (cborStatus x).map view = cborStatus (x.map view) := by
  cases x <;> rfl

section Conformance

variable (cbor : TinyCbor)

/-- The reference this TinyCBOR agrees with. -/
abbrev TinyCbor.reference : TinyCbor := rfc7049 cbor.maxArrayCount

theorem msgCborParseUint64_conforms (v : cbor.Value) :
    msgCborParseUint64 cbor v = msgCborParseUint64 cbor.reference (cbor.cursor v) := by
  refine reject_conforms (by rw [cbor.isUnsignedInteger_cursor]) fun hv => ?_
  rw [cbor.getUint64_cursor v (by simpa using hv)]

theorem msgCborParseByteString_conforms (v : cbor.Value) :
    msgCborParseByteString cbor v = msgCborParseByteString cbor.reference (cbor.cursor v) := by
  refine reject_conforms (by rw [cbor.isByteString_cursor]) fun hv => ?_
  rw [cbor.dupByteString_cursor v (by simpa using hv)]

theorem msgCborParseByteStringNext_conforms (v : cbor.Value) :
    (msgCborParseByteStringNext cbor v).map (Prod.map id cbor.cursor) =
      msgCborParseByteStringNext cbor.reference (cbor.cursor v) := by
  refine reject_map_conforms (by rw [cbor.isByteString_cursor]) fun hv => ?_
  rw [cborStatus_map, cbor.dupByteStringNext_cursor v (by simpa using hv)]

theorem advance_conforms {v : cbor.Value}
    (hv : cbor.cborValueIsUnsignedInteger v ∨ cbor.cborValueIsByteString v ∨
      cbor.cborValueIsTextString v) :
    (cborStatus (cbor.cborValueAdvance v)).map cbor.cursor =
      cborStatus (cbor.reference.cborValueAdvance (cbor.cursor v)) := by
  rw [cborStatus_map, cbor.advance_cursor v hv]

theorem advanceFixed_conforms {v : cbor.Value} (hv : cbor.cborValueIsUnsignedInteger v) :
    (cborStatus (cbor.cborValueAdvanceFixed v)).map cbor.cursor =
      cborStatus (cbor.reference.cborValueAdvanceFixed (cbor.cursor v)) := by
  rw [cborStatus_map, cbor.advanceFixed_cursor v hv]

variable {cbor}

theorem isUnsignedInteger_of_parse {v : cbor.Value} {n : Nat}
    (h : msgCborParseUint64 cbor v = .ok n) : cbor.cborValueIsUnsignedInteger v := by
  obtain ⟨u, hu, -⟩ := except_bind_ok.mp h
  simpa using Call.reject_ok.mp hu

theorem isByteString_of_parse {v : cbor.Value} {b : Bytes}
    (h : msgCborParseByteString cbor v = .ok b) : cbor.cborValueIsByteString v := by
  obtain ⟨u, hu, -⟩ := except_bind_ok.mp h
  simpa using Call.reject_ok.mp hu

variable (cbor)

theorem enterRootArray_conforms (b : Bytes) :
    (enterRootArray cbor b).map cbor.cursor = enterRootArray cbor.reference b := by
  have hinit : (cborStatus (cbor.cborParserInit b)).map cbor.cursor =
      cborStatus (cbor.reference.cborParserInit b) := by
    rw [cborStatus_map, cbor.parserInit_cursor]
  refine bind_map_conforms hinit fun v _ => ?_
  refine reject_map_conforms (by rw [cbor.isArray_cursor]) fun hv => ?_
  rw [cborStatus_map, cbor.enterContainer_cursor v (by simpa using hv)]

theorem unpackSmpHeader_conforms (b : Bytes) :
    unpackSmpHeader cbor b = unpackSmpHeader cbor.reference b := by
  have parse := fun v => (map_id_eq _).trans (msgCborParseUint64_conforms cbor v)
  unfold unpackSmpHeader
  refine bind_conforms (enterRootArray_conforms cbor b) fun v _ => ?_
  refine bind_conforms (parse v) fun messageContext h => ?_
  refine bind_conforms (advanceFixed_conforms cbor (isUnsignedInteger_of_parse h)) fun v _ => ?_
  refine bind_conforms (parse v) fun messageContextVersion h => ?_
  refine bind_conforms (advanceFixed_conforms cbor (isUnsignedInteger_of_parse h)) fun v _ => ?_
  refine bind_conforms (parse v) fun messageType h => ?_
  refine bind_conforms (advance_conforms cbor (.inl (isUnsignedInteger_of_parse h)))
    fun v _ => ?_
  refine reject_conforms (by rw [cbor.isTextString_cursor]) fun hv => ?_
  have hcopy : (cborStatus (cbor.cborValueCopyTextString v (WCL_SMP_CLIENT_ID_LENGTH + 1))).map id =
      cborStatus (cbor.reference.cborValueCopyTextString (cbor.cursor v)
        (WCL_SMP_CLIENT_ID_LENGTH + 1)) := by
    rw [map_id_eq, cbor.copyTextString_cursor v _ (by simpa using hv)]
  refine bind_conforms hcopy fun clientId _ => ?_
  refine reject_conforms Iff.rfl fun _ => ?_
  refine bind_conforms (advance_conforms cbor (.inr (.inr (by simpa using hv)))) fun v _ => ?_
  exact bind_conforms (parse v) fun messageId _ => rfl

theorem wosMsgUnpackSmpHeaderFromSmpMsg_conforms (b : Bytes) :
    wosMsgUnpackSmpHeaderFromSmpMsg cbor b = wosMsgUnpackSmpHeaderFromSmpMsg cbor.reference b := by
  unfold wosMsgUnpackSmpHeaderFromSmpMsg
  refine reject_conforms Iff.rfl fun _ => ?_
  refine bind_conforms (enterRootArray_conforms cbor b) fun v _ => ?_
  refine bind_conforms ((map_id_eq _).trans (msgCborParseByteString_conforms cbor v)) fun hdr _ => ?_
  exact unpackSmpHeader_conforms cbor hdr

theorem wosMsgUnpackSmpMqttsControlMessage_conforms (b : Bytes) :
    wosMsgUnpackSmpMqttsControlMessage cbor b =
      wosMsgUnpackSmpMqttsControlMessage cbor.reference b := by
  unfold wosMsgUnpackSmpMqttsControlMessage
  refine reject_conforms Iff.rfl fun _ => ?_
  refine bind_conforms (enterRootArray_conforms cbor b) fun v _ => ?_
  refine bind_conforms (msgCborParseByteStringNext_conforms cbor v) fun r1 _ => ?_
  refine bind_conforms (msgCborParseByteStringNext_conforms cbor r1.2) fun r2 _ => ?_
  refine bind_conforms (msgCborParseByteStringNext_conforms cbor r2.2) fun r3 _ => ?_
  exact bind_conforms ((map_id_eq _).trans (msgCborParseByteString_conforms cbor r3.2))
    fun authTag _ => rfl

theorem unpackCipherSchemeId_conforms (role : Role) (v : cbor.Value) :
    (unpackCipherSchemeId cbor role v).map (Prod.map id cbor.cursor) =
      unpackCipherSchemeId cbor.reference role (cbor.cursor v) := by
  cases role with
  | client => rfl
  | broker =>
      refine bind_map_conforms ((map_id_eq _).trans (msgCborParseUint64_conforms cbor v))
        fun n hn => ?_
      exact bind_map_conforms (advance_conforms cbor (.inl (isUnsignedInteger_of_parse hn)))
        fun v _ => rfl

theorem unpackSeFields_conforms (role : Role) (b : Bytes) :
    (unpackSeFields cbor role b).map (Prod.map id (Prod.map id cbor.cursor)) =
      unpackSeFields cbor.reference role b := by
  unfold unpackSeFields
  refine bind_map_conforms (map_id_eq _) fun _ _ => ?_
  refine bind_map_conforms (enterRootArray_conforms cbor b) fun v _ => ?_
  refine bind_map_conforms (msgCborParseByteStringNext_conforms cbor v) fun r1 _ => ?_
  refine bind_map_conforms (unpackCipherSchemeId_conforms cbor role r1.2) fun r2 _ => ?_
  refine bind_map_conforms (msgCborParseByteStringNext_conforms cbor r2.2) fun r3 _ => ?_
  refine bind_map_conforms (msgCborParseByteStringNext_conforms cbor r3.2) fun r4 _ => ?_
  refine bind_map_conforms (msgCborParseByteStringNext_conforms cbor r4.2) fun r5 _ => ?_
  exact bind_map_conforms ((map_id_eq _).trans (msgCborParseUint64_conforms cbor r5.2))
    fun n _ => rfl

theorem unpackCerts_conforms (slots remaining i : Nat) (v : cbor.Value) :
    unpackCerts cbor slots remaining i v =
      unpackCerts cbor.reference slots remaining i (cbor.cursor v) := by
  induction remaining generalizing i v with
  | zero => rfl
  | succ remaining ih =>
      simp only [unpackCerts]
      rw [← msgCborParseByteString_conforms]
      rcases hp : msgCborParseByteString cbor v with e | cert
      · rfl
      · simp only
        rw [← cbor.advance_cursor v (.inr (.inl (isByteString_of_parse hp)))]
        split_ifs
        · rfl
        · cases cbor.cborValueAdvance v with
          | none => rfl
          | some v' => simp only [Option.map_some, ih]

theorem wosMsgUnpackSmpMqttsSEMessage_conforms (role : Role) (b : Bytes) :
    wosMsgUnpackSmpMqttsSEMessage cbor role b =
      wosMsgUnpackSmpMqttsSEMessage cbor.reference role b := by
  unfold wosMsgUnpackSmpMqttsSEMessage
  rw [← unpackSeFields_conforms]
  rcases hf : unpackSeFields cbor role b with e | ⟨seParams, numCerts, v⟩
  · rfl
  · -- the value carries the number of certificates, so it is an integer
    have hv : cbor.cborValueIsUnsignedInteger v := by
      simp only [unpackSeFields, except_bind_ok] at hf
      obtain ⟨_, -, _, -, _, -, _, -, _, -, _, -, _, -, n, hn, h⟩ := hf
      cases h
      exact isUnsignedInteger_of_parse hn
    simp only [Except.map, Prod.map, id]
    rw [← cbor.advance_cursor v (.inl hv)]
    split_ifs
    · rfl
    · cases cbor.cborValueAdvance v with
      | none => rfl
      | some v' => simp only [Option.map_some, unpackCerts_conforms cbor]

theorem encode_conforms {x : Option cbor.Encoder} {y : Option Writer}
    (h : x.map cbor.writer = y) : (cborStatus x).map cbor.writer = cborStatus y := by
  rw [cborStatus_map, h]

theorem uint64_of_uint8 (n : UInt8) : n.toNat < 2 ^ 64 := by
  have := n.toNat_lt
  omega

theorem wosMsgPackSmpHeader_conforms (h : WosSmpHeader) (size : Nat)
    (ht : h.messageType < 2 ^ 64) :
    wosMsgPackSmpHeader cbor h size = wosMsgPackSmpHeader cbor.reference h size := by
  have uint8 := fun n : UInt8 => uint64_of_uint8 n
  have uint32 : h.messageId.toNat < 2 ^ 64 := by
    have := h.messageId.toNat_lt
    omega
  unfold wosMsgPackSmpHeader
  refine reject_conforms Iff.rfl fun _ => ?_
  simp only
  rw [← cbor.encoderInit_writer size]
  refine bind_conforms (encode_conforms cbor (cbor.createArray_writer _)) fun e _ => ?_
  refine bind_conforms (encode_conforms cbor (cbor.encodeUint_writer e _ (uint8 _))) fun e _ => ?_
  refine bind_conforms (encode_conforms cbor (cbor.encodeUint_writer e _ (uint8 _))) fun e _ => ?_
  refine bind_conforms (encode_conforms cbor (cbor.encodeUint_writer e _ ht)) fun e _ => ?_
  refine bind_conforms (encode_conforms cbor (cbor.encodeTextStringz_writer e _)) fun e _ => ?_
  refine bind_conforms (encode_conforms cbor (cbor.encodeUint_writer e _ uint32)) fun e _ => ?_
  refine bind_conforms (encode_conforms cbor (cbor.closeContainer_writer _ e)) fun e _ => ?_
  rw [cbor.getBuffer_writer]

theorem wosMsgPackSmpMqttsControlMessage_conforms (params : WosMsgMqttsControlParams)
    (size : Nat) : wosMsgPackSmpMqttsControlMessage cbor params size =
      wosMsgPackSmpMqttsControlMessage cbor.reference params size := by
  unfold wosMsgPackSmpMqttsControlMessage
  refine reject_conforms Iff.rfl fun _ => ?_
  simp only
  rw [← cbor.encoderInit_writer size]
  refine bind_conforms (encode_conforms cbor (cbor.createArray_writer _)) fun e _ => ?_
  refine bind_conforms (encode_conforms cbor (cbor.encodeByteString_writer e _)) fun e _ => ?_
  refine bind_conforms (encode_conforms cbor (cbor.encodeByteString_writer e _)) fun e _ => ?_
  refine bind_conforms (encode_conforms cbor (cbor.encodeByteString_writer e _)) fun e _ => ?_
  refine bind_conforms (encode_conforms cbor (cbor.encodeByteString_writer e _)) fun e _ => ?_
  refine bind_conforms (encode_conforms cbor (cbor.closeContainer_writer _ e)) fun e _ => ?_
  rw [cbor.getBuffer_writer]

theorem packCipherSchemeId_conforms (role : Role) (e : cbor.Encoder) (id : UInt8) :
    (packCipherSchemeId cbor role e id).map cbor.writer =
      packCipherSchemeId cbor.reference role (cbor.writer e) id := by
  cases role with
  | client =>
      exact encode_conforms cbor
        (cbor.encodeUint_writer e _ (uint64_of_uint8 id))
  | broker => rfl

theorem packCerts_conforms (e : cbor.Encoder) (certs : List Bytes) :
    (packCerts cbor e certs).map cbor.writer =
      packCerts cbor.reference (cbor.writer e) certs := by
  induction certs generalizing e with
  | nil => rfl
  | cons cert certs ih =>
      refine reject_map_conforms Iff.rfl fun _ => ?_
      exact bind_map_conforms (encode_conforms cbor (cbor.encodeByteString_writer e _))
        fun e _ => ih e

theorem wosMsgPackSmpMqttsSEMessage_conforms (role : Role) (params : WosMsgMqttsSeParams)
    (size : Nat) : wosMsgPackSmpMqttsSEMessage cbor role params size =
      wosMsgPackSmpMqttsSEMessage cbor.reference role params size := by
  have uint8 := uint64_of_uint8 params.numCerts
  unfold wosMsgPackSmpMqttsSEMessage
  refine reject_conforms Iff.rfl fun _ => ?_
  simp only
  rw [← cbor.encoderInit_writer size]
  refine bind_conforms (encode_conforms cbor (cbor.createArray_writer _)) fun e _ => ?_
  refine bind_conforms (encode_conforms cbor (cbor.encodeByteString_writer e _)) fun e _ => ?_
  refine bind_conforms (packCipherSchemeId_conforms cbor role e _) fun e _ => ?_
  refine bind_conforms (encode_conforms cbor (cbor.encodeByteString_writer e _)) fun e _ => ?_
  refine bind_conforms (encode_conforms cbor (cbor.encodeByteString_writer e _)) fun e _ => ?_
  refine bind_conforms (encode_conforms cbor (cbor.encodeByteString_writer e _)) fun e _ => ?_
  refine bind_conforms (encode_conforms cbor (cbor.encodeUint_writer e _ uint8)) fun e _ => ?_
  refine bind_conforms (packCerts_conforms cbor e _) fun e _ => ?_
  refine bind_conforms (encode_conforms cbor (cbor.closeContainer_writer _ e)) fun e _ => ?_
  rw [cbor.getBuffer_writer]

end Conformance

end WeeveMQ
