/-
  WeeveMQ.CertFields

  When two certificates can be told apart by their decoded fields.

  The decoders narrow the integers of CBOR to 8 bits, and names are compared up
  to their first NUL, of which a text string of CBOR may hold any number.

  - `tbsItems` / `containerItems`: what the bytes carry, read on the cursor of
    RFC 7049.
  - `tbsItems_of_unpack` / `containerItems_of_unpack`: what it decodes to.
  - `fields_never_confused_iff`: different items have different fields exactly
    when the items differ where the fields can show it.
-/

import WeeveMQ.CborCertCodec
import WeeveMQ.MsgSmpIntegers
import WeeveMQ.WosCert

namespace WeeveMQ

open Cbor (Cursor)
open Call (except_bind_ok)

/-! ## The items of a certificate -/

/-- The items of a TBS. -/
structure TbsItems where
  version : Nat
  signatureAlgorithm : Nat
  issuerId : Bytes
  subjectId : Bytes
  subjectPubKeyInfo : Nat
  subjectPubKey : Bytes
  deriving DecidableEq, Repr

/-- The items of a container. -/
structure ContainerItems where
  version : Nat
  encodedTbs : Bytes
  signature : Bytes
  deriving DecidableEq, Repr

def tbsItems (b : Bytes) : Option TbsItems := do
  let c ← firstItem b
  let version ← c.uint
  let c ← c.skip
  let signatureAlgorithm ← c.uint
  let c ← c.skip
  let issuerId ← c.string
  let c ← c.skip
  let subjectId ← c.string
  let c ← c.skip
  let subjectPubKeyInfo ← c.uint
  let c ← c.skip
  let subjectPubKey ← c.string
  some {
    version := version
    signatureAlgorithm := signatureAlgorithm
    issuerId := issuerId.1
    subjectId := subjectId.1
    subjectPubKeyInfo := subjectPubKeyInfo
    subjectPubKey := subjectPubKey.1 }

def containerItems (b : Bytes) : Option ContainerItems := do
  let c ← firstItem b
  let version ← c.uint
  let c ← c.skip
  let encodedTbs ← c.string
  let c ← c.skip
  let signature ← c.string
  some {
    version := version
    encodedTbs := encodedTbs.1
    signature := signature.1 }

/-- The fields the items are decoded to. -/
def TbsItems.decoded (e : TbsItems) : WosCertTbsType where
  version := (UInt8.ofNat e.version).toUInt32
  signatureAlgorithm := UInt8.ofNat e.signatureAlgorithm
  issuerId := e.issuerId
  subjectId := e.subjectId
  subjectPubKeyInfo := UInt8.ofNat e.subjectPubKeyInfo
  subjectPubKey := e.subjectPubKey

def ContainerItems.decoded (e : ContainerItems) : WosCertContainerType where
  version := (UInt8.ofNat e.version).toUInt32
  encodedTbs := e.encodedTbs
  signature := e.signature

/-- An accepted TBS decodes to its items. -/
theorem tbsItems_of_unpack {cbor : TinyCbor} {b : Bytes} {t : WosCertTbsType}
    (h : wosCborUnpackCertificateTbs cbor b = .ok t) :
    ∃ e, tbsItems b = some e ∧ t = e.decoded := by
  rw [wosCborUnpackCertificateTbs_conforms] at h
  simp only [wosCborUnpackCertificateTbs, except_bind_ok, Prod.exists, parseStatus_ok,
    cborStatus_ok] at h
  obtain ⟨_, -, c1, hroot, version, hversion, c2, h2, alg, halg, c3, h3, issuer, c4, hissuer,
    subject, c5, hsubject, info, hinfo, c6, h6, key, c7, hkey, heq⟩ := h
  cases heq
  obtain ⟨his, r1, hissuer, h4⟩ := msgCborParseTextString_ok.mp hissuer
  obtain ⟨his', r2, hsubject, h5⟩ := msgCborParseTextString_ok.mp hsubject
  obtain ⟨-, r3, hkey, -⟩ := msgCborParseByteStringNext_ok.mp hkey
  refine ⟨⟨version, alg, issuer, subject, info, key⟩, ?_, rfl⟩
  simp only [tbsItems, firstItem_of_enterRootArray hroot, msgCborParseUint64_ok.mp hversion, h2,
    msgCborParseUint64_ok.mp halg, h3, hissuer, Cursor.skip_of_string (by decide) his hissuer h4,
    hsubject,
    Cursor.skip_of_string (by decide) his' hsubject h5, msgCborParseUint64_ok.mp hinfo, h6, hkey,
    Option.bind_eq_bind, Option.bind_some]

/-- An accepted container decodes to its items. -/
theorem containerItems_of_unpack {cbor : TinyCbor} {b : Bytes} {c : WosCertContainerType}
    (h : wosCborUnpackCertificateContainer cbor b = .ok c) :
    ∃ e, containerItems b = some e ∧ c = e.decoded := by
  rw [wosCborUnpackCertificateContainer_conforms] at h
  simp only [wosCborUnpackCertificateContainer, except_bind_ok, Prod.exists, parseStatus_ok,
    cborStatus_ok] at h
  obtain ⟨_, -, c1, hroot, version, hversion, c2, h2, tbs, c3, htbs, signature, c4, hsignature,
    heq⟩ := h
  cases heq
  obtain ⟨his, r1, htbs, h3⟩ := msgCborParseByteStringNext_ok.mp htbs
  obtain ⟨-, r2, hsignature, -⟩ := msgCborParseByteStringNext_ok.mp hsignature
  refine ⟨⟨version, tbs, signature⟩, ?_, rfl⟩
  simp only [containerItems, firstItem_of_enterRootArray hroot, msgCborParseUint64_ok.mp hversion,
    h2, htbs, Cursor.skip_of_string (by decide) his htbs h3, hsignature, Option.bind_eq_bind,
    Option.bind_some]

/-! ## Telling certificates apart -/

/-- Items that differ show in the fields, under the comparison the chain check
    uses. -/
structure TbsTold (e e' : TbsItems) (t t' : WosCertTbsType) : Prop where
  version : e.version ≠ e'.version → t.version ≠ t'.version
  signatureAlgorithm :
    e.signatureAlgorithm ≠ e'.signatureAlgorithm → t.signatureAlgorithm ≠ t'.signatureAlgorithm
  issuerId : e.issuerId ≠ e'.issuerId → wosStringComparison t.issuerId t'.issuerId ≠ 0
  subjectId : e.subjectId ≠ e'.subjectId → wosStringComparison t.subjectId t'.subjectId ≠ 0
  subjectPubKeyInfo :
    e.subjectPubKeyInfo ≠ e'.subjectPubKeyInfo → t.subjectPubKeyInfo ≠ t'.subjectPubKeyInfo
  subjectPubKey : e.subjectPubKey ≠ e'.subjectPubKey → t.subjectPubKey ≠ t'.subjectPubKey

structure ContainerTold (e e' : ContainerItems) (c c' : WosCertContainerType) : Prop where
  version : e.version ≠ e'.version → c.version ≠ c'.version
  encodedTbs : e.encodedTbs ≠ e'.encodedTbs → c.encodedTbs ≠ c'.encodedTbs
  signature : e.signature ≠ e'.signature → c.signature ≠ c'.signature

/-- Integers that a field of 8 bits tells apart. -/
def Told8 (n n' : Nat) : Prop := n % 256 = n' % 256 → n = n'

/-- Names that differ in front of their first NUL, if they differ. -/
def ToldNames (s s' : Bytes) : Prop := stringContent s = stringContent s' → s = s'

instance (n n' : Nat) : Decidable (Told8 n n') := inferInstanceAs (Decidable (_ → _))

instance (s s' : Bytes) : Decidable (ToldNames s s') := inferInstanceAs (Decidable (_ → _))

/-- The integers and names of two TBS can be told apart. -/
def TbsItems.Tellable (e e' : TbsItems) : Prop :=
  Told8 e.version e'.version ∧ Told8 e.signatureAlgorithm e'.signatureAlgorithm ∧
    ToldNames e.issuerId e'.issuerId ∧ ToldNames e.subjectId e'.subjectId ∧
    Told8 e.subjectPubKeyInfo e'.subjectPubKeyInfo

theorem told8_iff {n n' : Nat} :
    (n ≠ n' → UInt8.ofNat n ≠ UInt8.ofNat n') ↔ Told8 n n' := by
  unfold Told8
  rw [not_imp_not, ← UInt8.toNat_inj, UInt8.toNat_ofNat', UInt8.toNat_ofNat']

theorem toldVersion_iff {n n' : Nat} :
    (n ≠ n' → (UInt8.ofNat n).toUInt32 ≠ (UInt8.ofNat n').toUInt32) ↔ Told8 n n' := by
  rw [← told8_iff, not_imp_not, not_imp_not, ← UInt32.toNat_inj, UInt8.toNat_toUInt32,
    UInt8.toNat_toUInt32, UInt8.toNat_inj]

theorem toldNames_iff {s s' : Bytes} :
    (s ≠ s' → wosStringComparison s s' ≠ 0) ↔ ToldNames s s' := by
  unfold ToldNames
  rw [not_imp_not, wosStringComparison_eq_zero]

theorem tbsTold_iff (e e' : TbsItems) : TbsTold e e' e.decoded e'.decoded ↔ e.Tellable e' := by
  constructor
  · intro h
    exact ⟨toldVersion_iff.mp h.version, told8_iff.mp h.signatureAlgorithm,
      toldNames_iff.mp h.issuerId, toldNames_iff.mp h.subjectId, told8_iff.mp h.subjectPubKeyInfo⟩
  · rintro ⟨hversion, halg, hissuer, hsubject, hinfo⟩
    exact ⟨toldVersion_iff.mpr hversion, told8_iff.mpr halg, toldNames_iff.mpr hissuer,
      toldNames_iff.mpr hsubject, told8_iff.mpr hinfo, id⟩

theorem containerTold_iff (e e' : ContainerItems) :
    ContainerTold e e' e.decoded e'.decoded ↔ Told8 e.version e'.version := by
  constructor
  · intro h
    exact toldVersion_iff.mp h.version
  · intro h
    exact ⟨toldVersion_iff.mpr h, id, id⟩

/-! ## The checks of a chain -/

/-- The name check of `lWosCertCheckIssuance` has passed. -/
def PassesNameCheck (verify : Bytes → Bytes → Bytes → Bool) (previous this : WosCertType) : Prop :=
  lWosCertCheckIssuance verify previous this ≠ .issuerMismatch

theorem passesNameCheck_iff {verify : Bytes → Bytes → Bytes → Bool} {previous this : WosCertType} :
    PassesNameCheck verify previous this ↔
      stringContent previous.tbs.subjectId = stringContent this.tbs.issuerId := by
  unfold PassesNameCheck lWosCertCheckIssuance
  rw [← wosStringComparison_eq_zero]
  split_ifs with hname <;> simp_all

/-- Fields of two accepted certificates tell their items apart exactly when the
    integers differ modulo 256 and the names in front of their first NUL; and
    the checks of a chain pass for equal names and versions only, exactly under
    this condition on the ones they compare. -/
theorem fields_never_confused_iff (cbor : TinyCbor) (b b' : Bytes) :
    (∀ t t', wosCborUnpackCertificateTbs cbor b = .ok t →
      wosCborUnpackCertificateTbs cbor b' = .ok t' →
      ∃ e e', tbsItems b = some e ∧ tbsItems b' = some e' ∧
        (TbsTold e e' t t' ↔ e.Tellable e') ∧
        -- as the names of an issuer and of the certificate it has issued
        ∀ verify previous this, previous.tbs = t → this.tbs = t' →
          ((PassesNameCheck verify previous this → e.subjectId = e'.issuerId) ↔
            ToldNames e.subjectId e'.issuerId)) ∧
    (∀ c c', wosCborUnpackCertificateContainer cbor b = .ok c →
      wosCborUnpackCertificateContainer cbor b' = .ok c' →
      ∃ e e', containerItems b = some e ∧ containerItems b' = some e' ∧
        (ContainerTold e e' c c' ↔ Told8 e.version e'.version)) ∧
    ∀ c t, wosCborUnpackCertificateContainer cbor b = .ok c →
      wosCborUnpackCertificateTbs cbor b' = .ok t →
      ∃ e e', containerItems b = some e ∧ tbsItems b' = some e' ∧
        ((lWosCertCheckCertParams ⟨c, t⟩ = .success → e'.version = e.version) ↔
          Told8 e'.version e.version) := by
  refine ⟨fun t t' ht ht' => ?_, fun c c' hc hc' => ?_, fun c t hc ht => ?_⟩
  · obtain ⟨e, he, rfl⟩ := tbsItems_of_unpack ht
    obtain ⟨e', he', rfl⟩ := tbsItems_of_unpack ht'
    refine ⟨e, e', he, he', tbsTold_iff e e', ?_⟩
    intro verify previous this hprevious hthis
    rw [passesNameCheck_iff, hprevious, hthis]
    exact Iff.rfl
  · obtain ⟨e, he, rfl⟩ := containerItems_of_unpack hc
    obtain ⟨e', he', rfl⟩ := containerItems_of_unpack hc'
    exact ⟨e, e', he, he', containerTold_iff e e'⟩
  · obtain ⟨e, he, rfl⟩ := containerItems_of_unpack hc
    obtain ⟨e', he', rfl⟩ := tbsItems_of_unpack ht
    refine ⟨e, e', he, he', ?_⟩
    rw [lWosCertCheckCertParams_success, ← toldVersion_iff, not_imp_not]
    exact Iff.rfl

/-- A TBS of version 0 with the name `root`, and one of version 256 with that
    name, a NUL and an `x`. -/
def plainTbs : Bytes := encodeCertificateTbs ⟨0, 0, ascii "root", ascii "root", 100, [1]⟩

def nulTbs : Bytes :=
  0x9f :: 0x19 :: 1 :: 0 :: 0 :: (Cbor.encodeString 3 (ascii "root" ++ [0, 120]) ++
    (Cbor.encodeString 3 (ascii "root" ++ [0, 120]) ++ [0x18, 100, 0x41, 1, 0xff]))

/-- They decode to fields that no comparison tells apart. -/
theorem nulTbs_confused :
    ∃ t t' e e', wosCborUnpackCertificateTbs (rfc7049 0) plainTbs = .ok t ∧
      wosCborUnpackCertificateTbs (rfc7049 0) nulTbs = .ok t' ∧
      tbsItems plainTbs = some e ∧ tbsItems nulTbs = some e' ∧ ¬ TbsTold e e' t t' ∧
      (e.version ≠ e'.version ∧ t.version = t'.version) ∧
      PassesNameCheck (fun _ _ _ => true) ⟨⟨0, [], []⟩, t⟩ ⟨⟨0, [], []⟩, t'⟩ ∧
      e.subjectId ≠ e'.issuerId := by
  refine ⟨⟨0, 0, ascii "root", ascii "root", 100, [1]⟩,
    ⟨0, 0, ascii "root" ++ [0, 120], ascii "root" ++ [0, 120], 100, [1]⟩,
    ⟨0, 0, ascii "root", ascii "root", 100, [1]⟩,
    ⟨256, 0, ascii "root" ++ [0, 120], ascii "root" ++ [0, 120], 100, [1]⟩, ?_⟩
  refine ⟨by decide +kernel, by decide +kernel, by decide +kernel, by decide +kernel, ?_,
    by decide, ?_, by decide⟩
  · intro h
    exact h.version (by decide) (by decide)
  · unfold PassesNameCheck
    decide

end WeeveMQ
