/-
  WeeveMQ.LabelTables

  Reads behind the label tables.  `smpInternal.c` indexes a table of fourteen
  labels by a message type that goes up to DISCONNECT = 14.

  `Env.bounded` leaves such a read without a result.  A call that has a result
  there has the same one everywhere (`wclSmpGetMessage_bounded`,
  `wclSmpProcessMessage_bounded`), so it has stayed inside the tables.
-/

import WeeveMQ.Smp

namespace WeeveMQ

open Call

variable (cbor : TinyCbor) (role : Role) (env : Env)

/-- The environment in which a read behind a label table has no result. -/
def Env.bounded (env : Env) : Env := { env with beyondLabelTable := none }

theorem msgLabel_bounded {labels : List (Option Bytes)} {messageType : Nat} {label : Bytes}
    (h : msgLabel env.bounded labels messageType = some label) :
    msgLabel env labels messageType = some label := by
  unfold msgLabel at h ⊢
  split at h
  · exact h
  · cases h

theorem prepareAad_bounded {σ : Type} (labels : List (Option Bytes)) (messageType : Nat)
    (encodedHeader clearPacket : Bytes) :
    Refines (prepareAad env.bounded labels messageType encodedHeader clearPacket : Call σ _ _)
      (prepareAad env labels messageType encodedHeader clearPacket) := by
  refine Refines.bind ?_ fun _ => .refl _
  intro s r h
  obtain ⟨hlabel, rfl⟩ := ofOutcome_eq.mp h
  obtain ⟨label, hlabel, hr⟩ := Option.map_eq_some_iff.mp hlabel
  exact ofOutcome_eq.mpr ⟨Option.map_eq_some_iff.mpr ⟨label, msgLabel_bounded env hlabel, hr⟩, rfl⟩

theorem smpSecureMessage_bounded (messageType : Nat) (packet : Bytes) :
    Refines (smpSecureMessage cbor role env.bounded messageType packet)
      (smpSecureMessage cbor role env messageType packet) := by
  have hseal : Refines (smpSealMessage cbor role env.bounded messageType packet)
      (smpSealMessage cbor role env messageType packet) :=
    (Refines.refl _).bind fun _ => (Refines.refl _).bind fun _ => (Refines.refl _).bind fun _ =>
      (Refines.refl _).bind fun _ => (Refines.refl _).bind fun _ =>
      (prepareAad_bounded env _ _ _ _).bind fun _ => .refl _
  exact hseal.bind fun _ => .refl _

theorem lSmpProcessControlMessage_bounded (messageType : Nat) (message : Bytes) :
    Refines (lSmpProcessControlMessage cbor role env.bounded messageType message)
      (lSmpProcessControlMessage cbor role env messageType message) :=
  (Refines.refl _).bind fun _ => (Refines.refl _).bind fun _ => (Refines.refl _).bind fun _ =>
    (Refines.refl _).bind fun _ => (Refines.refl _).bind fun _ =>
    (prepareAad_bounded env _ _ _ _).bind fun _ => .refl _

theorem wclSmpGetMessage_bounded (messageType : Nat) (packet : Bytes) :
    Refines (wclSmpGetMessage cbor role env.bounded messageType packet)
      (wclSmpGetMessage cbor role env messageType packet) :=
  (Refines.refl _).bind fun _ =>
    ((Refines.refl _).ite ((smpSecureMessage_bounded cbor role env _ _).ite (.refl _))).bind
      fun _ => .refl _

theorem wclSmpProcessMessage_bounded (message : Bytes) :
    Refines (wclSmpProcessMessage cbor role env.bounded message)
      (wclSmpProcessMessage cbor role env message) := by
  have hprocess : Refines (smpProcessMessage cbor role env.bounded message)
      (smpProcessMessage cbor role env message) :=
    (Refines.refl _).bind fun _ => (Refines.refl _).bind fun _ => (Refines.refl _).bind fun _ =>
      (Refines.refl _).bind fun _ =>
      ((Refines.refl _).ite (lSmpProcessControlMessage_bounded cbor role env _ _)).bind
        fun _ => .refl _
  exact (Refines.refl _).bind fun _ => hprocess.bind fun _ => .refl _

end WeeveMQ
