/-
  WeeveMQ.CborCertCodec

  What the certificate serialisation computes.

  - `encodeCertificateTbs` / `encodeCertificateContainer`: the formats.
  - `wosCborPackCertificateTbs_ok`, `wosCborPackCertificateContainer_ok`: a
    packer writes its format when it fits, and fails otherwise.
  - `certificates_survive_iff`: what is read back, and when it is the original.
  - `calculators_exact`: the calculators predict the packers.
-/

import WeeveMQ.CborCert
import WeeveMQ.MsgSmpRoundTrip

namespace WeeveMQ

open Cbor (Cursor Writer encodeHead encodeString)
open Call (except_bind_ok)

/-! ## Formats -/

/-- The bytes of a packed TBS. -/
def encodeCertificateTbs (t : WosCertTbsType) : Bytes :=
  0x9f :: (encodeHead 0 t.version.toNat ++ (encodeHead 0 t.signatureAlgorithm.toNat ++
    (encodeString 3 (stringContent t.issuerId) ++ (encodeString 3 (stringContent t.subjectId) ++
      (encodeHead 0 t.subjectPubKeyInfo.toNat ++ (encodeString 2 t.subjectPubKey ++ [0xff]))))))

/-- The bytes of a packed container. -/
def encodeCertificateContainer (c : WosCertContainerType) : Bytes :=
  0x9f :: (encodeHead 0 c.version.toNat ++ (encodeString 2 c.encodedTbs ++
    (encodeString 2 c.signature ++ [0xff])))

/-! ## Packing -/

section Packing

variable (cbor : TinyCbor)

theorem wosCborPackCertificateTbs_ok {t : WosCertTbsType} {size : Nat} {b : Bytes} :
    wosCborPackCertificateTbs cbor t size = .ok b ↔
      t.isBad = false ∧ (encodeCertificateTbs t).length ≤ size ∧ b = encodeCertificateTbs t := by
  rw [wosCborPackCertificateTbs_conforms]
  have body := (writes_put ⟨size, []⟩ [0x9f]).bind fun w1 _ =>
    (writes_put w1 (encodeHead 0 t.version.toNat)).bind fun w2 _ =>
    (writes_put w2 (encodeHead 0 t.signatureAlgorithm.toNat)).bind fun w3 _ =>
    (writes_put w3 (encodeString 3 (stringContent t.issuerId))).bind fun w4 _ =>
    (writes_put w4 (encodeString 3 (stringContent t.subjectId))).bind fun w5 _ =>
    (writes_put w5 (encodeHead 0 t.subjectPubKeyInfo.toNat)).bind fun w6 _ =>
    (writes_put w6 (encodeString 2 t.subjectPubKey)).bind fun w7 _ =>
    (writes_put w7 [0xff]).bind (writes_nothing Writer.out)
  refine body.reject.packed.trans ?_
  have hsize : (encodeCertificateTbs t).length ≤ size → size ≠ 0 := by
    simp only [encodeCertificateTbs, List.length_cons]
    omega
  simp only [List.append_nil, List.singleton_append, and_self, and_true]
  constructor
  · rintro ⟨hvalid, hle, rfl⟩
    exact ⟨by simpa using fun h => hvalid (.inl h), hle, rfl⟩
  · rintro ⟨hvalid, hle, rfl⟩
    refine ⟨?_, hle, rfl⟩
    rintro (h | h)
    · rw [hvalid] at h
      simp at h
    · exact hsize hle h

theorem wosCborPackCertificateContainer_ok {c : WosCertContainerType} {size : Nat} {b : Bytes} :
    wosCborPackCertificateContainer cbor c size = .ok b ↔
      c.isBad = false ∧ (encodeCertificateContainer c).length ≤ size ∧
        b = encodeCertificateContainer c := by
  rw [wosCborPackCertificateContainer_conforms]
  have body := (writes_put ⟨size, []⟩ [0x9f]).bind fun w1 _ =>
    (writes_put w1 (encodeHead 0 c.version.toNat)).bind fun w2 _ =>
    (writes_put w2 (encodeString 2 c.encodedTbs)).bind fun w3 _ =>
    (writes_put w3 (encodeString 2 c.signature)).bind fun w4 _ =>
    (writes_put w4 [0xff]).bind (writes_nothing Writer.out)
  refine body.reject.packed.trans ?_
  have hsize : (encodeCertificateContainer c).length ≤ size → size ≠ 0 := by
    simp only [encodeCertificateContainer, List.length_cons]
    omega
  simp only [List.append_nil, List.singleton_append, and_self, and_true]
  constructor
  · rintro ⟨hvalid, hle, rfl⟩
    exact ⟨by simpa using fun h => hvalid (.inl h), hle, rfl⟩
  · rintro ⟨hvalid, hle, rfl⟩
    refine ⟨?_, hle, rfl⟩
    rintro (h | h)
    · rw [hvalid] at h
      simp at h
    · exact hsize hle h

end Packing

/-! ## Reading back -/

section Reading

variable {limit : Nat} {c c' : Cursor}

theorem msgCborParseTextString_ok {s : WosString} :
    msgCborParseTextString (rfc7049 limit) c = .ok (s, c') ↔
      c.is 3 = true ∧ ∃ rest, c.string = some (s, rest) ∧ c.next rest = some c' := by
  simp only [msgCborParseTextString, except_bind_ok, Call.reject_ok, cborStatus_ok, Prod.exists,
    Option.bind_eq_some_iff, Option.map_eq_some_iff, Prod.mk.injEq, exists_and_left, exists_const,
    Bool.not_eq_false, pure, Except.pure, Except.ok.injEq]
  constructor
  · rintro ⟨hc, buf, len, next, ⟨s', rest, hs, c'', hn, rfl, rfl, rfl⟩, -, htake, rfl⟩
    rw [List.take_left] at htake
    subst htake
    exact ⟨hc, rest, hs, hn⟩
  · rintro ⟨hc, rest, hs, hn⟩
    exact ⟨hc, s ++ [0], s.length, c', ⟨s, rest, hs, c', hn, rfl, rfl, rfl⟩,
      by simp [WOS_STRING_NULL_TERM], by simp, rfl⟩

/-- A text string in front of another item. -/
theorem parseTextStringNext_encoded (s : Bytes) {major n : Nat} (hm : major < 7)
    (hn : n < 2 ^ 64) (rest : Bytes) :
    msgCborParseTextString (rfc7049 limit)
        ⟨none, some ⟨3, some s.length⟩, s ++ (encodeHead major n ++ rest)⟩ =
      .ok (s, ⟨none, some ⟨major, some n⟩, rest⟩) := by
  refine msgCborParseTextString_ok.mpr ⟨rfl, _, Cursor.string_encoded (.inr rfl) _ _, ?_⟩
  exact Cursor.settle_encodeHead (by simp) hm hn rest

/-- The byte string at the end of an array. -/
theorem parseByteStringLast_encoded (s : Bytes) :
    msgCborParseByteStringNext (rfc7049 limit) ⟨none, some ⟨2, some s.length⟩, s ++ [0xff]⟩ =
      .ok (s, ⟨some 0, none, []⟩) :=
  msgCborParseByteStringNext_ok.mpr ⟨rfl, _, Cursor.string_encoded (.inl rfl) _ _, rfl⟩

end Reading

/-- A TBS as the decoder returns it: strings up to their terminator, and the
    version in 8 bits. -/
def WosCertTbsType.narrowed (t : WosCertTbsType) : WosCertTbsType :=
  { t with
    version := (UInt8.ofNat t.version.toNat).toUInt32
    issuerId := stringContent t.issuerId
    subjectId := stringContent t.subjectId }

/-- A container as the decoder returns it. -/
def WosCertContainerType.narrowed (c : WosCertContainerType) : WosCertContainerType :=
  { c with version := (UInt8.ofNat c.version.toNat).toUInt32 }

section RoundTrip

variable (cbor : TinyCbor)

theorem wosCborUnpackCertificateTbs_encode {t : WosCertTbsType}
    (h : (encodeCertificateTbs t).length < 2 ^ 64) :
    wosCborUnpackCertificateTbs cbor (encodeCertificateTbs t) = .ok t.narrowed := by
  have uint8 := fun n : UInt8 => uint64_of_uint8 n
  simp only [encodeCertificateTbs, encodeString, List.append_assoc, List.length_cons,
    List.length_append] at h
  rw [wosCborUnpackCertificateTbs_conforms]
  unfold TinyCbor.reference
  simp only [wosCborUnpackCertificateTbs, encodeCertificateTbs, encodeString, List.append_assoc,
    except_bind_ok, parseStatus_ok]
  refine ⟨(), by simp, _, enterRootArray_encoded (by decide) (uint64_of_uint32 _) _,
    _, parseUint64_encoded _ _, _, cborStatus_ok.mpr (skip_uint_encoded _ (by decide) (uint8 _) _),
    _, parseUint64_encoded _ _,
    _, cborStatus_ok.mpr (skip_uint_encoded _ (by decide) (by omega) _),
    _, parseTextStringNext_encoded _ (by decide) (by omega) _,
    _, parseTextStringNext_encoded _ (by decide) (uint8 _) _,
    _, parseUint64_encoded _ _, _, cborStatus_ok.mpr (skip_uint_encoded _ (by decide) (by omega) _),
    _, parseByteStringLast_encoded _, ?_⟩
  simp [pure, Except.pure, WosCertTbsType.narrowed]

theorem wosCborUnpackCertificateContainer_encode {c : WosCertContainerType}
    (h : (encodeCertificateContainer c).length < 2 ^ 64) :
    wosCborUnpackCertificateContainer cbor (encodeCertificateContainer c) = .ok c.narrowed := by
  simp only [encodeCertificateContainer, encodeString, List.append_assoc, List.length_cons,
    List.length_append] at h
  rw [wosCborUnpackCertificateContainer_conforms]
  unfold TinyCbor.reference
  simp only [wosCborUnpackCertificateContainer, encodeCertificateContainer, encodeString,
    List.append_assoc, except_bind_ok, parseStatus_ok]
  exact ⟨(), by simp, _, enterRootArray_encoded (by decide) (uint64_of_uint32 _) _,
    _, parseUint64_encoded _ _,
    _, cborStatus_ok.mpr (skip_uint_encoded _ (by decide) (by omega) _),
    _, parseByteStringNext_encoded _ (by decide) (by omega) _,
    _, parseByteStringLast_encoded _, rfl⟩

/-! ## What survives -/

/-- The data of a TBS: names without a terminator inside, and a key. -/
structure WosCertTbsType.Valid (t : WosCertTbsType) : Prop where
  issuerId : t.issuerId ≠ [] ∧ WOS_STRING_NULL_TERM ∉ t.issuerId
  subjectId : t.subjectId ≠ [] ∧ WOS_STRING_NULL_TERM ∉ t.subjectId
  subjectPubKey : t.subjectPubKey ≠ []

/-- The data of a container. -/
structure WosCertContainerType.Valid (c : WosCertContainerType) : Prop where
  encodedTbs : c.encodedTbs ≠ []
  signature : c.signature ≠ []

theorem wosStringLength_ne_zero {s : WosString} (h : s ≠ [] ∧ WOS_STRING_NULL_TERM ∉ s) :
    wosStringLength s ≠ 0 := by
  unfold wosStringLength
  rw [stringContent_of_not_mem h.2]
  intro hzero
  exact h.1 (List.eq_nil_of_length_eq_zero hzero)

theorem WosCertTbsType.Valid.isBad {t : WosCertTbsType} (h : t.Valid) : t.isBad = false := by
  unfold WosCertTbsType.isBad
  rw [decide_eq_false_iff_not]
  rintro (hzero | hzero | hnil)
  · exact wosStringLength_ne_zero h.issuerId hzero
  · exact wosStringLength_ne_zero h.subjectId hzero
  · exact h.subjectPubKey hnil

theorem WosCertContainerType.Valid.isBad {c : WosCertContainerType} (h : c.Valid) :
    c.isBad = false := by
  unfold WosCertContainerType.isBad
  rw [decide_eq_false_iff_not]
  rintro (hnil | hnil)
  · exact h.encodedTbs hnil
  · exact h.signature hnil

/-- An 8-bit cast keeps the versions below 256. -/
theorem narrowVersion_eq_iff {v : UInt32} : (UInt8.ofNat v.toNat).toUInt32 = v ↔ v < 256 := by
  rw [← UInt32.toNat_inj, UInt8.toNat_toUInt32, UInt8.toNat_ofNat', UInt32.lt_iff_toNat_lt,
    show (256 : UInt32).toNat = 256 from rfl]
  omega

theorem WosCertTbsType.Valid.narrowed_eq_iff {t : WosCertTbsType} (h : t.Valid) :
    t.narrowed = t ↔ t.version < 256 := by
  rw [← narrowVersion_eq_iff]
  unfold WosCertTbsType.narrowed
  rw [stringContent_of_not_mem h.issuerId.2, stringContent_of_not_mem h.subjectId.2]
  constructor
  · intro heq
    exact congrArg WosCertTbsType.version heq
  · intro heq
    rw [heq]

theorem WosCertContainerType.narrowed_eq_iff {c : WosCertContainerType} :
    c.narrowed = c ↔ c.version < 256 := by
  rw [← narrowVersion_eq_iff]
  unfold WosCertContainerType.narrowed
  constructor
  · intro heq
    exact congrArg WosCertContainerType.version heq
  · intro heq
    rw [heq]

/-- A certificate that fits into memory is read back as it was exactly when its
    version fits the 8 bits of the decoders. -/
theorem certificates_survive_iff :
    (∀ t : WosCertTbsType, t.Valid → (encodeCertificateTbs t).length < 2 ^ 64 →
        (RoundTrips (wosCborPackCertificateTbs cbor t) (fun b =>
          wosCborUnpackCertificateTbs cbor b = .ok t) ↔ t.version < 256)) ∧
      ∀ c : WosCertContainerType, c.Valid → (encodeCertificateContainer c).length < 2 ^ 64 →
        (RoundTrips (wosCborPackCertificateContainer cbor c) (fun b =>
          wosCborUnpackCertificateContainer cbor b = .ok c) ↔ c.version < 256) := by
  constructor
  · intro t hv hlen
    rw [roundTrips_iff_of_packed (fun _ _ => wosCborPackCertificateTbs_ok cbor) hv.isBad hlen,
      wosCborUnpackCertificateTbs_encode cbor hlen, Except.ok.injEq, hv.narrowed_eq_iff]
  · intro c hv hlen
    rw [roundTrips_iff_of_packed (fun _ _ => wosCborPackCertificateContainer_ok cbor) hv.isBad hlen,
      wosCborUnpackCertificateContainer_encode cbor hlen, Except.ok.injEq,
      WosCertContainerType.narrowed_eq_iff]

end RoundTrip

/-- A TBS and a container of version 256. -/
def wideTbs : WosCertTbsType := ⟨256, 0, [97], [98], 100, [1]⟩

def wideContainer : WosCertContainerType := ⟨256, [1], [2]⟩

/-- Both come back with version 0. -/
theorem wideVersion_not_survives :
    (wideTbs.Valid ∧ ¬ RoundTrips (wosCborPackCertificateTbs (rfc7049 0) wideTbs) fun b =>
        wosCborUnpackCertificateTbs (rfc7049 0) b = .ok wideTbs) ∧
      wideContainer.Valid ∧
        ¬ RoundTrips (wosCborPackCertificateContainer (rfc7049 0) wideContainer) fun b =>
          wosCborUnpackCertificateContainer (rfc7049 0) b = .ok wideContainer := by
  refine ⟨⟨⟨⟨by decide, by decide⟩, ⟨by decide, by decide⟩, by decide⟩, fun h => ?_⟩,
    ⟨by decide, by decide⟩, fun h => ?_⟩
  · have hread := h.unpacks 32 (encodeCertificateTbs wideTbs) (by decide) (by decide +kernel)
    revert hread
    decide +kernel
  · have hread := h.unpacks 32 (encodeCertificateContainer wideContainer) (by decide)
      (by decide +kernel)
    revert hread
    decide +kernel

/-! ## The calculators -/

/-- The calculator of an integer is the size of its head. -/
theorem msgCborCalcLengthUInt_eq (major : Nat) (v : UInt64) :
    (msgCborCalcLengthUInt v).toNat = (encodeHead major v.toNat).length := by
  have h23 : v ≤ 23 ↔ v.toNat ≤ 23 := UInt64.le_iff_toNat_le
  have h255 : v ≤ 255 ↔ v.toNat ≤ 255 := UInt64.le_iff_toNat_le
  have h65535 : v ≤ 65535 ↔ v.toNat ≤ 65535 := UInt64.le_iff_toNat_le
  have h32 : v ≤ 4294967295 ↔ v.toNat ≤ 4294967295 := UInt64.le_iff_toNat_le
  unfold msgCborCalcLengthUInt encodeHead
  simp only [h23, h255, h65535, h32]
  -- the two case splits have the same bounds
  split_ifs <;> first | rfl | omega

/-- A string whose encoding has less than 2^32 bytes. -/
theorem calcLengthString_eq (major : Nat) {s : Bytes}
    (h : (encodeString major s).length < 2 ^ 32) :
    (calcLengthString (UInt32.ofNat s.length)).toNat = (encodeString major s).length := by
  unfold encodeString at h ⊢
  rw [List.length_append] at h ⊢
  have hlen : (UInt32.ofNat s.length).toNat = s.length := by
    rw [UInt32.toNat_ofNat']
    omega
  have hhead : (msgCborCalcLengthUInt (UInt32.ofNat s.length).toUInt64).toNat =
      (encodeHead major s.length).length := by
    rw [msgCborCalcLengthUInt_eq major, UInt32.toNat_toUInt64, hlen]
  unfold calcLengthString
  rw [UInt32.toNat_add, hhead, hlen]
  omega

theorem wosCborCalcCertificateTbs_eq {t : WosCertTbsType} (hv : t.isBad = false)
    (hlen : (encodeCertificateTbs t).length < 2 ^ 32) :
    ∃ n, wosCborCalcCertificateTbs t = .ok n ∧ n.toNat = (encodeCertificateTbs t).length := by
  simp only [encodeCertificateTbs, List.length_cons, List.length_append, List.length_nil] at hlen ⊢
  have hversion := msgCborCalcLengthUInt_eq 0 t.version.toUInt64
  have halg := msgCborCalcLengthUInt_eq 0 t.signatureAlgorithm.toUInt64
  have hinfo := msgCborCalcLengthUInt_eq 0 t.subjectPubKeyInfo.toUInt64
  have hissuer := calcLengthString_eq 3 (s := stringContent t.issuerId) (by omega)
  have hsubject := calcLengthString_eq 3 (s := stringContent t.subjectId) (by omega)
  have hkey := calcLengthString_eq 2 (s := t.subjectPubKey) (by omega)
  rw [UInt32.toNat_toUInt64] at hversion
  rw [UInt8.toNat_toUInt64] at halg hinfo
  refine ⟨_, except_bind_ok.mpr ⟨(), Call.reject_ok.mpr (by simp [hv]), rfl⟩, ?_⟩
  unfold wosStringLength
  simp only [UInt32.toNat_add, hversion, halg, hinfo, hissuer, hsubject, hkey, UInt32.toNat_one]
  omega

theorem wosCborCalcCertificateContainer_eq {c : WosCertContainerType} (hv : c.isBad = false)
    (hlen : (encodeCertificateContainer c).length < 2 ^ 32) :
    ∃ n, wosCborCalcCertificateContainer c = .ok n ∧
      n.toNat = (encodeCertificateContainer c).length := by
  simp only [encodeCertificateContainer, List.length_cons, List.length_append,
    List.length_nil] at hlen ⊢
  have hversion := msgCborCalcLengthUInt_eq 0 c.version.toUInt64
  have htbs := calcLengthString_eq 2 (s := c.encodedTbs) (by omega)
  have hsignature := calcLengthString_eq 2 (s := c.signature) (by omega)
  rw [UInt32.toNat_toUInt64] at hversion
  refine ⟨_, except_bind_ok.mpr ⟨(), Call.reject_ok.mpr (by simp [hv]), rfl⟩, ?_⟩
  simp only [UInt32.toNat_add, hversion, htbs, hsignature, UInt32.toNat_one]
  omega

/-- What a calculator should say about a packer: the length of everything it
    packs, the size of a buffer that suffices, and that no smaller one does. -/
structure Predicts (n : UInt32) (pack : Nat → Except WosMsgError Bytes) : Prop where
  length : ∀ size b, pack size = .ok b → b.length = n.toNat
  enough : ∃ b, pack n.toNat = .ok b ∧ b.length = n.toNat
  smaller : ∀ size, size < n.toNat → ∃ e, pack size = .error e

theorem predicts_of_packed {pack : Nat → Except WosMsgError Bytes} {valid : Prop} {bs : Bytes}
    {n : UInt32} (hpack : ∀ size b, pack size = .ok b ↔ valid ∧ bs.length ≤ size ∧ b = bs)
    (hvalid : valid) (hn : n.toNat = bs.length) : Predicts n pack := by
  refine ⟨?_, ⟨bs, (hpack _ _).mpr ⟨hvalid, Nat.le_of_eq hn.symm, rfl⟩, hn.symm⟩, ?_⟩
  · intro size b hb
    obtain ⟨-, -, rfl⟩ := (hpack size b).mp hb
    exact hn.symm
  · intro size hsize
    rcases hp : pack size with e | b
    · exact ⟨e, rfl⟩
    · obtain ⟨-, hle, -⟩ := (hpack size b).mp hp
      omega

/-- The calculators are exact, for everything the packers accept whose encoding
    has less than 2^32 bytes. -/
theorem calculators_exact (cbor : TinyCbor) :
    (∀ t : WosCertTbsType, t.isBad = false → (encodeCertificateTbs t).length < 2 ^ 32 →
        ∃ n, wosCborCalcCertificateTbs t = .ok n ∧ Predicts n (wosCborPackCertificateTbs cbor t)) ∧
      ∀ c : WosCertContainerType, c.isBad = false →
        (encodeCertificateContainer c).length < 2 ^ 32 →
        ∃ n, wosCborCalcCertificateContainer c = .ok n ∧
          Predicts n (wosCborPackCertificateContainer cbor c) := by
  constructor
  · intro t hv hlen
    obtain ⟨n, hn, hsize⟩ := wosCborCalcCertificateTbs_eq hv hlen
    exact ⟨n, hn, predicts_of_packed (fun _ _ => wosCborPackCertificateTbs_ok cbor) hv hsize⟩
  · intro c hv hlen
    obtain ⟨n, hn, hsize⟩ := wosCborCalcCertificateContainer_eq hv hlen
    exact ⟨n, hn, predicts_of_packed (fun _ _ => wosCborPackCertificateContainer_ok cbor) hv hsize⟩

end WeeveMQ
