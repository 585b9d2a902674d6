/-
  WeeveMQ.MsgSmpRoundTrip

  Unpacking undoes packing, for every format of `wosMsgSmp.c`.

  - `RoundTrips`: a packer that succeeds in every large enough buffer, and what
    is read back from the buffers it has filled.
  - `decode_undoes_encode`: headers, control messages, and session
    establishment messages in both directions.
-/

import WeeveMQ.MsgSmpCodec
import Mathlib.Data.List.TakeWhile

namespace WeeveMQ

/-! ## Packing into a buffer of some size -/

/-- Packing succeeds in every buffer that is large enough, and `Unpacks` holds
    of the bytes in each buffer the machine can address. -/
structure RoundTrips (pack : Nat → Except WosMsgError Bytes) (Unpacks : Bytes → Prop) : Prop where
  packs : ∃ needed, ∀ size, needed ≤ size → ∃ b, pack size = .ok b
  unpacks : ∀ size b, size < 2 ^ 64 → pack size = .ok b → Unpacks b

/-- A packer that writes one encoding round trips when the encoding is read back
    as it should be. -/
theorem roundTrips_iff_of_packed {pack : Nat → Except WosMsgError Bytes} {Unpacks : Bytes → Prop}
    {valid : Prop} {bs : Bytes}
    (hpack : ∀ size b, pack size = .ok b ↔ valid ∧ bs.length ≤ size ∧ b = bs) (hvalid : valid)
    (hlen : bs.length < 2 ^ 64) : RoundTrips pack Unpacks ↔ Unpacks bs := by
  constructor
  · intro h
    exact h.unpacks bs.length bs hlen ((hpack _ _).mpr ⟨hvalid, Nat.le_refl _, rfl⟩)
  · intro hread
    refine ⟨⟨bs.length, fun size hsize => ⟨bs, (hpack size bs).mpr ⟨hvalid, hsize, rfl⟩⟩⟩, ?_⟩
    intro size b _ hb
    obtain ⟨-, -, rfl⟩ := (hpack size b).mp hb
    exact hread

/-- An encoding that no buffer can hold need not be read back. -/
theorem roundTrips_of_packed {pack : Nat → Except WosMsgError Bytes} {Unpacks : Bytes → Prop}
    {valid : Prop} {bs : Bytes}
    (hpack : ∀ size b, pack size = .ok b ↔ valid ∧ bs.length ≤ size ∧ b = bs) (hvalid : valid)
    (hread : bs.length < 2 ^ 64 → Unpacks bs) : RoundTrips pack Unpacks := by
  by_cases hlen : bs.length < 2 ^ 64
  · exact (roundTrips_iff_of_packed hpack hvalid hlen).mpr (hread hlen)
  · refine ⟨⟨bs.length, fun size hsize => ⟨bs, (hpack size bs).mpr ⟨hvalid, hsize, rfl⟩⟩⟩, ?_⟩
    intro size b hsize hb
    obtain ⟨-, hle, -⟩ := (hpack size b).mp hb
    omega

/-- A string without a terminator inside is its own content. -/
theorem stringContent_of_not_mem {s : WosString} (h : WOS_STRING_NULL_TERM ∉ s) :
    stringContent s = s := by
  unfold stringContent
  rw [List.takeWhile_eq_self_iff]
  intro c hc
  rw [decide_eq_true_eq]
  intro hzero
  rw [hzero] at hc
  exact h hc

/-! ## Valid data -/

/-- A header whose fields hold what they are meant for. -/
structure WosSmpHeader.Valid (h : WosSmpHeader) : Prop where
  messageType : h.messageType < 256
  terminator : WOS_STRING_NULL_TERM ∉ h.clientId
  clientId : h.clientId.length ≤ WCL_SMP_CLIENT_ID_LENGTH

/-- Four valid buffers. -/
structure WosMsgMqttsControlParams.Valid (p : WosMsgMqttsControlParams) : Prop where
  encodedSmpHeader : p.encodedSmpHeader ≠ []
  mqttPacket : p.mqttPacket ≠ []
  iv : p.iv ≠ []
  authTag : p.authTag ≠ []

/-- Valid buffers, and as many certificates as the field says. -/
structure WosMsgMqttsSeParams.Valid (p : WosMsgMqttsSeParams) : Prop where
  encodedSmpHeader : p.encodedSmpHeader ≠ []
  eccDhPubParams : p.eccDhPubParams ≠ []
  mqttPacket : p.mqttPacket ≠ []
  signature : p.signature ≠ []
  numCerts : 1 ≤ p.numCerts
  table : p.certs.length = p.numCerts.toNat
  certs : ∀ c ∈ p.certs, c ≠ []

section RoundTrip

variable (cbor : TinyCbor)

/-! ## Headers -/

theorem WosSmpHeader.Valid.narrowed {h : WosSmpHeader} (hv : h.Valid) : h.narrowed = h := by
  unfold WosSmpHeader.narrowed
  rw [stringContent_of_not_mem hv.terminator, Nat.mod_eq_of_lt hv.messageType]

theorem WosSmpHeader.Valid.length {h : WosSmpHeader} (hv : h.Valid) :
    wosStringLength h.clientId ≤ WCL_SMP_CLIENT_ID_LENGTH := by
  unfold wosStringLength
  rw [stringContent_of_not_mem hv.terminator]
  exact hv.clientId

theorem unpackSmpHeader_valid {h : WosSmpHeader} (hv : h.Valid) :
    unpackSmpHeader cbor (encodeSmpHeader h) = .ok h := by
  have ht : h.messageType < 2 ^ 64 := by
    have := hv.messageType
    omega
  rw [unpackSmpHeader_encode cbor ht hv.length, hv.narrowed]

/-- Unpacking the header of a control message reads the header it carries. -/
theorem header_of_packed_control {p : WosMsgMqttsControlParams} {size : Nat} {m : Bytes}
    (hsize : size < 2 ^ 64) (hm : wosMsgPackSmpMqttsControlMessage cbor p size = .ok m) :
    wosMsgUnpackSmpHeaderFromSmpMsg cbor m = unpackSmpHeader cbor p.encodedSmpHeader := by
  obtain ⟨-, hlen, rfl⟩ := (wosMsgPackSmpMqttsControlMessage_ok cbor).mp hm
  have hread := wosMsgUnpackSmpMqttsControlMessage_encode cbor (p := p) (by omega)
  exact header_of_control cbor hread

/-- Unpacking the header of a session establishment message likewise. -/
theorem header_of_packed_se {role : Role} {p : WosMsgMqttsSeParams} {size : Nat} {m : Bytes}
    (hsize : size < 2 ^ 64) (htable : p.certs.length = p.numCerts.toNat)
    (hm : wosMsgPackSmpMqttsSEMessage cbor role p size = .ok m) :
    wosMsgUnpackSmpHeaderFromSmpMsg cbor m = unpackSmpHeader cbor p.encodedSmpHeader := by
  obtain ⟨⟨-, -, -, -, hnum, -⟩, hlen, rfl⟩ := (wosMsgPackSmpMqttsSEMessage_ok cbor).mp hm
  have hne : p.numCerts ≠ 0 := by
    intro h0
    rw [h0] at hnum
    exact absurd hnum (by decide)
  have hread := wosMsgUnpackSmpMqttsSEMessage_encode cbor role htable hne (by omega)
  have hhdr := header_of_se cbor hread
  exact hhdr

/-! ## Messages -/

theorem controlMessage_roundTrips {p : WosMsgMqttsControlParams} (hv : p.Valid) :
    RoundTrips (wosMsgPackSmpMqttsControlMessage cbor p) fun b =>
      wosMsgUnpackSmpMqttsControlMessage cbor b = .ok p := by
  refine roundTrips_of_packed (fun _ _ => wosMsgPackSmpMqttsControlMessage_ok cbor)
    ⟨hv.encodedSmpHeader, hv.mqttPacket, hv.iv, hv.authTag⟩ ?_
  intro hlen
  exact wosMsgUnpackSmpMqttsControlMessage_encode cbor hlen

theorem seMessage_roundTrips (role : Role) {p : WosMsgMqttsSeParams} (hv : p.Valid) :
    RoundTrips (wosMsgPackSmpMqttsSEMessage cbor role p) fun b =>
      wosMsgUnpackSmpMqttsSEMessage cbor role.peer b = some (.ok (p.receivedFrom role)) := by
  have hcerts : ∀ c ∈ p.certs.take p.numCerts.toNat, c ≠ [] :=
    fun c hc => hv.certs c (List.mem_of_mem_take hc)
  have hne : p.numCerts ≠ 0 := by
    intro h0
    have hnum := hv.numCerts
    rw [h0] at hnum
    exact absurd hnum (by decide)
  refine roundTrips_of_packed (fun _ _ => wosMsgPackSmpMqttsSEMessage_ok cbor)
    ⟨hv.encodedSmpHeader, hv.eccDhPubParams, hv.mqttPacket, hv.signature, hv.numCerts, hcerts⟩ ?_
  intro hlen
  exact wosMsgUnpackSmpMqttsSEMessage_encode cbor role hv.table hne hlen

theorem header_roundTrips {h : WosSmpHeader} (hv : h.Valid) :
    RoundTrips (wosMsgPackSmpHeader cbor h) fun b => unpackSmpHeader cbor b = .ok h := by
  have ht : h.messageType < 2 ^ 64 := by
    have := hv.messageType
    omega
  refine roundTrips_of_packed (fun _ _ => wosMsgPackSmpHeader_ok cbor ht) hv.length ?_
  intro _
  exact unpackSmpHeader_valid cbor hv

/-- Decoding undoes encoding.  A header is read back from every packed message
    that carries it; the broker's message carries no cipher scheme, and
    `receivedFrom` leaves that field as it was. -/
theorem decode_undoes_encode :
    (∀ h : WosSmpHeader, h.Valid → RoundTrips (wosMsgPackSmpHeader cbor h) fun hdr =>
        (∀ (p : WosMsgMqttsControlParams) (size : Nat) (m : Bytes), p.encodedSmpHeader = hdr →
          size < 2 ^ 64 → wosMsgPackSmpMqttsControlMessage cbor p size = .ok m →
          wosMsgUnpackSmpHeaderFromSmpMsg cbor m = .ok h) ∧
        ∀ (role : Role) (p : WosMsgMqttsSeParams) (size : Nat) (m : Bytes),
          p.encodedSmpHeader = hdr → p.certs.length = p.numCerts.toNat → size < 2 ^ 64 →
          wosMsgPackSmpMqttsSEMessage cbor role p size = .ok m →
          wosMsgUnpackSmpHeaderFromSmpMsg cbor m = .ok h) ∧
      (∀ p : WosMsgMqttsControlParams, p.Valid →
        RoundTrips (wosMsgPackSmpMqttsControlMessage cbor p) fun b =>
          wosMsgUnpackSmpMqttsControlMessage cbor b = .ok p) ∧
      ∀ (role : Role) (p : WosMsgMqttsSeParams), p.Valid →
        RoundTrips (wosMsgPackSmpMqttsSEMessage cbor role p) fun b =>
          wosMsgUnpackSmpMqttsSEMessage cbor role.peer b = some (.ok (p.receivedFrom role)) := by
  refine ⟨?_, fun p hv => controlMessage_roundTrips cbor hv,
    fun role p hv => seMessage_roundTrips cbor role hv⟩
  intro h hv
  have hhdr := header_roundTrips cbor hv
  refine ⟨hhdr.packs, fun size hdr hsize hpack => ?_⟩
  have hread := hhdr.unpacks size hdr hsize hpack
  constructor
  · rintro p size' m rfl hsize' hm
    rw [header_of_packed_control cbor hsize' hm, hread]
  · rintro role p size' m rfl htable hsize' hm
    rw [header_of_packed_se cbor hsize' htable hm, hread]

end RoundTrip

end WeeveMQ
