/-
  WeeveMQ.SeBinding

  What the signature of a session establishment message binds.

  The signed string is header, cipher scheme of a CONNECT, public parameter
  and packet, without any lengths.  Two messages with one signed string always
  agree on the fields of the header, because the header decoder reads from the
  front and stops (`header_fields_bound`).  They agree on the public parameter
  and the packet exactly when they cut the string in the same places
  (`se_fields_bound_iff`).
-/

import WeeveMQ.SmpSpec

namespace WeeveMQ

open Call
open WclSmpMessageType

variable {cbor : TinyCbor} {role : Role}

/-- The message passes every check in front of the key derivation. -/
structure SePasses (cbor : TinyCbor) (role : Role) (env : Env) (s : Session) (message : Bytes)
    (h : WosSmpHeader) (p : WosMsgMqttsSeParams) : Prop where
  header : wosMsgUnpackSmpHeaderFromSmpMsg cbor message = .ok h
  valid : lSmpValidateSmpHeader role s.ctx h = .ok ()
  unpacked : wosMsgUnpackSmpMqttsSEMessage cbor role message = some (.ok p)
  verified : lSmpVerifySeParams role env p s = some (.ok (), s)

/-- The fields that are routed on are those of the signed header. -/
theorem SePasses.signedHeader {env : Env} {s : Session} {message : Bytes} {h : WosSmpHeader}
    {p : WosMsgMqttsSeParams} (hp : SePasses cbor role env s message h p) :
    unpackSmpHeader cbor p.encodedSmpHeader = .ok h := by
  rw [← header_of_se cbor hp.unpacked]
  exact hp.header

/-- Two strings that begin with a header begin with the same header. -/
theorem unpackSmpHeader_of_append_eq {b b' x x' : Bytes} {h h' : WosSmpHeader}
    (hb : unpackSmpHeader cbor b = .ok h) (hb' : unpackSmpHeader cbor b' = .ok h')
    (heq : b ++ x = b' ++ x') : h = h' := by
  have hfull := unpackSmpHeader_append cbor x hb
  rw [heq, unpackSmpHeader_append cbor x' hb'] at hfull
  exact (Except.ok.inj hfull).symm

theorem signedData_eq (p : WosMsgMqttsSeParams) (sender : Role) :
    p.signedData sender = p.encodedSmpHeader ++
      (signedCipherSchemeId sender p.cipherSchemeId ++ (p.eccDhPubParams ++ p.mqttPacket)) := by
  simp [WosMsgMqttsSeParams.signedData, seSignedParts]

section TwoMessages

variable {env env' : Env} {s s' : Session} {message message' : Bytes} {h h' : WosSmpHeader}
  {p p' : WosMsgMqttsSeParams}

theorem header_fields_bound (hp : SePasses cbor role env s message h p)
    (hp' : SePasses cbor role env' s' message' h' p')
    (same : p.signedData role.peer = p'.signedData role.peer) : h = h' := by
  rw [signedData_eq, signedData_eq] at same
  exact unpackSmpHeader_of_append_eq hp.signedHeader hp'.signedHeader same

/-- The signature binds every field separately exactly where the two messages
    have headers and public parameters of the same length. -/
theorem se_fields_bound_iff (hp : SePasses cbor role env s message h p)
    (hp' : SePasses cbor role env' s' message' h' p')
    (same : p.signedData role.peer = p'.signedData role.peer) :
    (h = h' ∧ p.eccDhPubParams = p'.eccDhPubParams ∧ p.mqttPacket = p'.mqttPacket) ↔
      p.encodedSmpHeader.length = p'.encodedSmpHeader.length ∧
        p.eccDhPubParams.length = p'.eccDhPubParams.length := by
  have hcipher : (signedCipherSchemeId role.peer p.cipherSchemeId).length =
      (signedCipherSchemeId role.peer p'.cipherSchemeId).length := by
    cases role <;> rfl
  constructor
  · rintro ⟨-, hpub, hpkt⟩
    rw [signedData_eq, signedData_eq] at same
    have hlen := congrArg List.length same
    simp only [List.length_append, hcipher, hpub, hpkt] at hlen
    exact ⟨by omega, by rw [hpub]⟩
  · rintro ⟨hhdr, hpub⟩
    refine ⟨header_fields_bound hp hp' same, ?_⟩
    rw [signedData_eq, signedData_eq] at same
    obtain ⟨-, htail⟩ := List.append_inj same hhdr
    obtain ⟨-, htail⟩ := List.append_inj htail (hcipher)
    exact List.append_inj htail hpub

end TwoMessages

/-- The CONNECT of a client and the same elements in an array of definite length. -/
theorem se_fields_bound_iff_reencoded :
    ((⟨0, 0, connect.code, [], 0⟩ : WosSmpHeader) = ⟨0, 0, connect.code, [], 0⟩ ∧
        (connectParams [4, 5] [6]).eccDhPubParams = [4, 5] ∧
        (connectParams [4, 5] [6]).mqttPacket = [6]) ↔
      (connectParams [4, 5] [6]).encodedSmpHeader.length = 7 ∧
        (connectParams [4, 5] [6]).eccDhPubParams.length = 2 :=
  have sent : SePasses (rfc7049 64) .broker Env.sample Session.sample
      (connectMessage [4, 5] [6]) ⟨0, 0, connect.code, [], 0⟩ (connectParams [4, 5] [6]) :=
    ⟨rfl, rfl, rfl, rfl⟩
  have reencoded : SePasses (rfc7049 64) .broker Env.sample Session.sample
      (0x87 :: connectElements [4, 5] [6]) ⟨0, 0, connect.code, [], 0⟩
      (connectParams [4, 5] [6]) := ⟨rfl, rfl, rfl, rfl⟩
  se_fields_bound_iff sent reencoded rfl

/-- A byte moves from the public parameter into the packet: one signed string,
    one signature, one certificate, two messages. -/
theorem se_fields_not_bound :
    ∃ (m m' : Bytes) (h h' : WosSmpHeader) (p p' : WosMsgMqttsSeParams),
      SePasses (rfc7049 64) .broker Env.sample Session.sample m h p ∧
      SePasses (rfc7049 64) .broker Env.sample Session.sample m' h' p' ∧
      p.certs = p'.certs ∧ p.signature = p'.signature ∧
      p.signedData .client = p'.signedData .client ∧
      ¬ (h = h' ∧ p.eccDhPubParams = p'.eccDhPubParams ∧ p.mqttPacket = p'.mqttPacket) :=
  ⟨connectMessage [4, 5] [6], connectMessage [4] [5, 6],
    ⟨0, 0, connect.code, [], 0⟩, ⟨0, 0, connect.code, [], 0⟩,
    connectParams [4, 5] [6], connectParams [4] [5, 6], ⟨rfl, rfl, rfl, rfl⟩, ⟨rfl, rfl, rfl, rfl⟩,
    rfl, rfl, rfl, by decide⟩

end WeeveMQ
