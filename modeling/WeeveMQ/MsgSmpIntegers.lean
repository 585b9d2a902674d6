/-
  WeeveMQ.MsgSmpIntegers

  What the decoders make of the integers of a message.

  An integer of CBOR has up to 64 bits, the fields of the decoded structures
  have 8 or 32, and the decoders narrow the one to the other by a cast.

  - `encodedHeader` / `encodedSeIntegers`: the integers as the message carries
    them, read on the cursor of RFC 7049.
  - `decoded_header_integers` / `decoded_se_integers`: what an accepted message
    decodes to, field by field.
  - `integers_faithful_iff_fit`: the fields are the encoded integers exactly
    when these fit.
-/

import WeeveMQ.MsgSmpCodec

namespace WeeveMQ

open Cbor (Cursor)
open Call (reject except_bind_ok)

/-! ## The integers of a message -/

/-- The integers in a header. -/
structure EncodedHeader where
  messageContext : Nat
  messageContextVersion : Nat
  messageType : Nat
  messageId : Nat
  deriving DecidableEq, Repr

/-- The integers in a session establishment message; the broker's message has
    no cipher scheme. -/
structure EncodedSeIntegers where
  cipherSchemeId : Option Nat
  numCerts : Nat
  deriving DecidableEq, Repr

/-- The first item of the array these bytes hold. -/
def firstItem (b : Bytes) : Option Cursor := (Cursor.start b).bind Cursor.items

/-- The integers of an encoded header. -/
def headerIntegers (smpCborHeader : Bytes) : Option EncodedHeader := do
  let c ← firstItem smpCborHeader
  let messageContext ← c.uint
  let c ← c.skip
  let messageContextVersion ← c.uint
  let c ← c.skip
  let messageType ← c.uint
  let c ← c.skip
  -- the client id
  let c ← c.skip
  let messageId ← c.uint
  some {
    messageContext := messageContext
    messageContextVersion := messageContextVersion
    messageType := messageType
    messageId := messageId }

/-- The integers of the header a message carries. -/
def encodedHeader (packedBuffer : Bytes) : Option EncodedHeader := do
  let c ← firstItem packedBuffer
  let smpCborHeader ← c.string
  headerIntegers smpCborHeader.1

/-- The cipher scheme of a session establishment message received in this role,
    and the position of the number of certificates. -/
def seCountCursor (role : Role) (packedBuffer : Bytes) : Option (Option Nat × Cursor) := do
  let c ← firstItem packedBuffer
  -- the header
  let c ← c.skip
  let (cipherSchemeId, c) ← (match role with
    | .client => some (none, c)
    | .broker => do
        let id ← c.uint
        let c ← c.skip
        some (some id, c))
  -- the key, the packet and the signature
  let c ← c.skip
  let c ← c.skip
  let c ← c.skip
  some (cipherSchemeId, c)

/-- The integers of a session establishment message received in this role. -/
def encodedSeIntegers (role : Role) (packedBuffer : Bytes) : Option EncodedSeIntegers := do
  let r ← seCountCursor role packedBuffer
  let numCerts ← r.2.uint
  some { cipherSchemeId := r.1, numCerts := numCerts }

/-! ## What the fields hold -/

theorem firstItem_of_enterRootArray {limit : Nat} {b : Bytes} {c : Cursor}
    (h : enterRootArray (rfc7049 limit) b = .ok c) : firstItem b = some c := by
  obtain ⟨c0, h0, h1⟩ := enterRootArray_ok.mp h
  rw [firstItem, h0]
  exact Cursor.items_of_enterArray h1

theorem skip_of_parseByteStringNext {limit : Nat} {c c' : Cursor} {s : Bytes}
    (h : msgCborParseByteStringNext (rfc7049 limit) c = .ok (s, c')) : c.skip = some c' := by
  obtain ⟨his, rest, hs, hn⟩ := msgCborParseByteStringNext_ok.mp h
  exact Cursor.skip_of_string (by decide) his hs hn

/-- The fields of a decoded header, narrowed from the encoded integers. -/
theorem headerIntegers_of_unpack {cbor : TinyCbor} {b : Bytes} {h : WosSmpHeader}
    (hb : unpackSmpHeader cbor b = .ok h) :
    ∃ e, headerIntegers b = some e ∧ h.messageContext = UInt8.ofNat e.messageContext ∧
      h.messageContextVersion = UInt8.ofNat e.messageContextVersion ∧
      h.messageType = e.messageType % 256 ∧ h.messageId = UInt32.ofNat e.messageId := by
  obtain ⟨rest, hr⟩ := (unpackSmpHeader_ok cbor).mp hb
  obtain ⟨c0, c1, c2, c3, c4, c5, n1, n2, n3, n4, s, t, ⟨h0, h1⟩, ⟨hn1, h2⟩, ⟨hn2, h3⟩,
    ⟨hn3, h4⟩, -, ⟨-, h5⟩, hn4, rfl, -⟩ := readSmpHeader_eq.mp hr
  have hfirst : firstItem b = some c1 := by
    rw [firstItem, h0]
    exact Cursor.items_of_enterArray h1
  refine ⟨⟨n1, n2, n3, n4⟩, ?_, rfl, rfl, rfl, rfl⟩
  simp only [headerIntegers, hfirst, hn1, h2, hn2, h3, hn3, h4, h5, hn4, Option.bind_eq_bind,
    Option.bind_some]

theorem decoded_header_integers {cbor : TinyCbor} {b : Bytes} {h : WosSmpHeader}
    (hb : wosMsgUnpackSmpHeaderFromSmpMsg cbor b = .ok h) :
    ∃ e, encodedHeader b = some e ∧ h.messageContext = UInt8.ofNat e.messageContext ∧
      h.messageContextVersion = UInt8.ofNat e.messageContextVersion ∧
      h.messageType = e.messageType % 256 ∧ h.messageId = UInt32.ofNat e.messageId := by
  rw [wosMsgUnpackSmpHeaderFromSmpMsg_conforms] at hb
  simp only [wosMsgUnpackSmpHeaderFromSmpMsg, except_bind_ok] at hb
  obtain ⟨_, -, c, hc, hdr, hhdr, hb⟩ := hb
  obtain ⟨-, tail, hs⟩ := msgCborParseByteString_ok.mp hhdr
  obtain ⟨e, he, hfields⟩ := headerIntegers_of_unpack hb
  refine ⟨e, ?_, hfields⟩
  simp only [encodedHeader, firstItem_of_enterRootArray hc, hs, Option.bind_eq_bind,
    Option.bind_some]
  exact he

/-- A certificate loop that ends well has read every certificate, and the table
    had a slot for each. -/
theorem unpackCerts_ok_length {cbor : TinyCbor} {slots remaining i : Nat} {v : cbor.Value}
    {certs : List Bytes} (h : unpackCerts cbor slots remaining i v = some (.ok certs)) :
    certs.length = remaining ∧ (remaining = 0 ∨ i + remaining ≤ slots) := by
  induction remaining generalizing i v certs with
  | zero =>
      simp only [unpackCerts, Option.some.injEq, Except.ok.injEq] at h
      exact ⟨by rw [← h]; rfl, .inl rfl⟩
  | succ remaining ih =>
      unfold unpackCerts at h
      split at h
      · simp at h
      · rename_i cert _
        split_ifs at h with hi
        split at h
        · simp at h
        · obtain ⟨r, hr, hmap⟩ := Option.map_eq_some_iff.mp h
          rcases r with e | rest
          · simp [Except.map] at hmap
          · simp only [Except.map, Except.ok.injEq] at hmap
            obtain ⟨hlen, hslots⟩ := ih hr
            refine ⟨by rw [← hmap, List.length_cons, hlen], .inr ?_⟩
            omega

/-- The fields in front of the certificates, and where the integers come from. -/
theorem encodedSeIntegers_of_fields {cbor : TinyCbor} {role : Role} {b : Bytes}
    {q : WosMsgMqttsSeParams} {n : Nat} {v : cbor.Value}
    (h : unpackSeFields cbor role b = .ok (q, n, v)) :
    ∃ scheme, seCountCursor role b = some (scheme, cbor.cursor v) ∧
      (cbor.cursor v).uint = some n ∧ q.cipherSchemeId = UInt8.ofNat (scheme.getD 0) ∧
      (scheme = none ↔ role = .client) ∧ q.numCerts = UInt8.ofNat n := by
  have hconf := unpackSeFields_conforms cbor role b
  rw [h] at hconf
  have h' := hconf.symm
  simp only [Except.map, Prod.map, id] at h'
  simp only [unpackSeFields, except_bind_ok, Prod.exists] at h'
  obtain ⟨_, -, c, hc, hdr, c1, h1, scheme, c2, h2, _, c3, h3, _, c4, h4, _, c5, h5, m, hm,
    heq⟩ := h'
  simp only [pure, Except.pure, Except.ok.injEq, Prod.mk.injEq] at heq
  obtain ⟨rfl, rfl, rfl⟩ := heq
  have hu := msgCborParseUint64_ok.mp hm
  cases role with
  | client =>
      simp only [unpackCipherSchemeId, Except.ok.injEq, Prod.mk.injEq] at h2
      obtain ⟨rfl, rfl⟩ := h2
      refine ⟨none, ?_, hu, rfl, by simp, rfl⟩
      simp only [seCountCursor, firstItem_of_enterRootArray hc, skip_of_parseByteStringNext h1,
        skip_of_parseByteStringNext h3, skip_of_parseByteStringNext h4,
        skip_of_parseByteStringNext h5, Option.bind_eq_bind, Option.bind_some]
  | broker =>
      simp only [unpackCipherSchemeId, except_bind_ok, cborStatus_ok] at h2
      obtain ⟨id, hid, c1', hskip, heq⟩ := h2
      simp only [pure, Except.pure, Except.ok.injEq, Prod.mk.injEq] at heq
      obtain ⟨rfl, rfl⟩ := heq
      refine ⟨some id, ?_, hu, rfl, by simp, rfl⟩
      have hskip' : c1.skip = some c1' := hskip
      simp only [seCountCursor, firstItem_of_enterRootArray hc, skip_of_parseByteStringNext h1,
        msgCborParseUint64_ok.mp hid, hskip',
        skip_of_parseByteStringNext h3, skip_of_parseByteStringNext h4,
        skip_of_parseByteStringNext h5, Option.bind_eq_bind, Option.bind_some]

/-- No message announces more certificates than its field holds and is accepted. -/
theorem decoded_se_integers {cbor : TinyCbor} {role : Role} {b : Bytes}
    {p : WosMsgMqttsSeParams} (hb : wosMsgUnpackSmpMqttsSEMessage cbor role b = some (.ok p)) :
    ∃ e, encodedSeIntegers role b = some e ∧
      p.cipherSchemeId = UInt8.ofNat (e.cipherSchemeId.getD 0) ∧
      (e.cipherSchemeId = none ↔ role = .client) ∧
      p.numCerts.toNat = e.numCerts ∧ e.numCerts < 256 ∧ p.certs.length = e.numCerts := by
  unfold wosMsgUnpackSmpMqttsSEMessage at hb
  rcases hf : unpackSeFields cbor role b with e | ⟨q, n, v⟩
  · simp [hf] at hb
  obtain ⟨scheme, hcur, huint, hscheme, hrole, hnum⟩ := encodedSeIntegers_of_fields hf
  simp only [hf] at hb
  split_ifs at hb with hzero
  · simp at hb
  split at hb
  · simp at hb
  · rename_i v' hv'
    obtain ⟨r, hr, hmap⟩ := Option.map_eq_some_iff.mp hb
    rcases r with e | certs
    · simp [Except.map] at hmap
    · simp only [Except.map, Except.ok.injEq] at hmap
      subst hmap
      obtain ⟨hlen, hslots⟩ := unpackCerts_ok_length hr
      have hn : n < 256 := by
        rw [hnum, UInt8.toNat_ofNat'] at hslots
        omega
      refine ⟨⟨scheme, n⟩, ?_, hscheme, hrole, ?_, hn, hlen⟩
      · simp only [encodedSeIntegers, hcur, huint, Option.bind_eq_bind, Option.bind_some]
      · rw [hnum, UInt8.toNat_ofNat']
        exact Nat.mod_eq_of_lt hn

/-! ## Faithful integers -/

/-- The integers in the fields of a header. -/
def WosSmpHeader.integers (h : WosSmpHeader) : EncodedHeader where
  messageContext := h.messageContext.toNat
  messageContextVersion := h.messageContextVersion.toNat
  messageType := h.messageType
  messageId := h.messageId.toNat

/-- The integers in the fields that this role unpacks. -/
def WosMsgMqttsSeParams.integers (role : Role) (p : WosMsgMqttsSeParams) : EncodedSeIntegers where
  cipherSchemeId := match role with
    | .client => none
    | .broker => some p.cipherSchemeId.toNat
  numCerts := p.numCerts.toNat

/-- The integers of a header fit the fields they are read into. -/
def EncodedHeader.Fits (e : EncodedHeader) : Prop :=
  e.messageContext < 2 ^ 8 ∧ e.messageContextVersion < 2 ^ 8 ∧ e.messageType < 2 ^ 8 ∧
    e.messageId < 2 ^ 32

/-- The integers of a session establishment message fit. -/
def EncodedSeIntegers.Fits (e : EncodedSeIntegers) : Prop :=
  ∀ id, e.cipherSchemeId = some id → id < 2 ^ 8

theorem header_faithful_iff {h : WosSmpHeader} {e : EncodedHeader}
    (h1 : h.messageContext = UInt8.ofNat e.messageContext)
    (h2 : h.messageContextVersion = UInt8.ofNat e.messageContextVersion)
    (h3 : h.messageType = e.messageType % 256) (h4 : h.messageId = UInt32.ofNat e.messageId) :
    h.integers = e ↔ e.Fits := by
  obtain ⟨n1, n2, n3, n4⟩ := e
  simp only [WosSmpHeader.integers, EncodedHeader.mk.injEq, EncodedHeader.Fits, h1, h2, h3, h4,
    UInt8.toNat_ofNat', UInt32.toNat_ofNat']
  omega

theorem se_faithful_iff {role : Role} {p : WosMsgMqttsSeParams} {e : EncodedSeIntegers}
    (hscheme : p.cipherSchemeId = UInt8.ofNat (e.cipherSchemeId.getD 0))
    (hrole : e.cipherSchemeId = none ↔ role = .client) (hnum : p.numCerts.toNat = e.numCerts) :
    p.integers role = e ↔ e.Fits := by
  obtain ⟨scheme, n⟩ := e
  have hnum' : n = p.numCerts.toNat := hnum.symm
  cases role with
  | client =>
      have hnone : scheme = none := hrole.mpr rfl
      subst hnone
      simp [WosMsgMqttsSeParams.integers, EncodedSeIntegers.Fits, hnum']
  | broker =>
      have hsome : scheme ≠ none := fun h => by simpa using hrole.mp h
      obtain ⟨id, rfl⟩ := Option.ne_none_iff_exists'.mp hsome
      simp only [Option.getD_some] at hscheme
      simp only [WosMsgMqttsSeParams.integers, EncodedSeIntegers.mk.injEq, EncodedSeIntegers.Fits,
        Option.some.injEq, hnum', and_true, hscheme, UInt8.toNat_ofNat', forall_eq']
      omega

/-- The fields an accepted message decodes to are the integers it carries exactly
    when every integer fits its field, and two headers whose integers fit are told
    apart by their fields. -/
theorem integers_faithful_iff_fit (cbor : TinyCbor) (role : Role) (b : Bytes) :
    (∀ h, wosMsgUnpackSmpHeaderFromSmpMsg cbor b = .ok h →
      ∃ e, encodedHeader b = some e ∧ (h.integers = e ↔ e.Fits)) ∧
    (∀ p, wosMsgUnpackSmpMqttsSEMessage cbor role b = some (.ok p) →
      ∃ e, encodedSeIntegers role b = some e ∧ (p.integers role = e ↔ e.Fits)) ∧
    ∀ b' h h' e e', wosMsgUnpackSmpHeaderFromSmpMsg cbor b = .ok h →
      wosMsgUnpackSmpHeaderFromSmpMsg cbor b' = .ok h' →
      encodedHeader b = some e → encodedHeader b' = some e' → e.Fits → e'.Fits →
      (e.messageType ≠ e'.messageType → h.messageType ≠ h'.messageType) ∧
        (e.messageId ≠ e'.messageId → h.messageId ≠ h'.messageId) := by
  refine ⟨fun h hb => ?_, fun p hb => ?_, ?_⟩
  · obtain ⟨e, he, h1, h2, h3, h4⟩ := decoded_header_integers hb
    exact ⟨e, he, header_faithful_iff h1 h2 h3 h4⟩
  · obtain ⟨e, he, hscheme, hrole, hnum, -⟩ := decoded_se_integers hb
    exact ⟨e, he, se_faithful_iff hscheme hrole hnum⟩
  · intro b' h h' e e' hb hb' he he' hfit hfit'
    obtain ⟨f, hf, h1, h2, h3, h4⟩ := decoded_header_integers hb
    obtain ⟨f', hf', h1', h2', h3', h4'⟩ := decoded_header_integers hb'
    rw [he, Option.some.injEq] at hf
    rw [he', Option.some.injEq] at hf'
    subst hf hf'
    -- each field is the integer itself
    have hint := (header_faithful_iff h1 h2 h3 h4).mpr hfit
    have hint' := (header_faithful_iff h1' h2' h3' h4').mpr hfit'
    refine ⟨fun hne heq => hne ?_, fun hne heq => hne ?_⟩
    · rw [← hint, ← hint']
      exact heq
    · rw [← hint, ← hint']
      exact congrArg UInt32.toNat heq

/-- A message whose header announces message type 259 and message id 2^32 + 7,
    which decode to a PUBLISH with id 7. -/
def wideIntegers : Bytes :=
  0x9f :: (Cbor.encodeString 2 ([0x9f, 1, 1, 0x19, 1, 3, 0x60] ++
    [0x1b, 0, 0, 0, 1, 0, 0, 0, 7, 0xff]) ++ [0xff])

theorem wideIntegers_not_faithful :
    ∃ h e, wosMsgUnpackSmpHeaderFromSmpMsg (rfc7049 0) wideIntegers = .ok h ∧
      encodedHeader wideIntegers = some e ∧ h.integers ≠ e :=
  ⟨⟨1, 1, 3, [], 7⟩, ⟨1, 1, 259, 2 ^ 32 + 7⟩, by decide +kernel, by decide +kernel, by decide⟩

end WeeveMQ
