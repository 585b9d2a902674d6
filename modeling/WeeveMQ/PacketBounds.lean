/-
  WeeveMQ.PacketBounds

  Which indices of a decrypted packet are read.

  The loop over the length bytes goes on while `offset <= mqtt_packet_length`,
  so it reads one byte too many of a length that has no end, and the payload is
  copied with the length that is announced.  `packet__read` stays within the
  packet, and reports a length that does not fit, exactly when something else
  ends the call before that, or the length fits.
-/

import WeeveMQ.PacketDecode

namespace WeeveMQ

open Call

variable {σ : Type} {env : Setup σ}

/-- A call of `packet__read` in which the packet `b` was decrypted. -/
structure Receives (env : Setup σ) (m m₁ : Mosq σ) (b : Bytes) : Prop where
  sock : m.sock = true
  reads : m.state ≠ .connectPending
  untouched : Untouched m.inPacket
  read : packetReadSmp env m = some (.ok (), m₁)
  done : m₁.errno ≠ .again
  packet : Decrypted b m₁.inPacket

/-- The rest of the call. -/
theorem Receives.call_eq {m m₁ : Mosq σ} {b : Bytes} (h : Receives env m m₁ b) :
    packetRead env m = (decodeMqttPacket env >>= fun _ => handlePacket env) m₁ := by
  have hsock : ¬ m.sock = false := by
    rw [h.sock]
    decide
  unfold packetRead
  rw [bind_of_ok get_apply, bind_of_ok ((failIf_ok (u := ())).mpr ⟨hsock, rfl⟩), if_neg h.reads,
    if_pos h.untouched.command, bind_of_ok h.read, bind_of_ok get_apply, if_neg h.done]

/-- The packet was decrypted in the state the call began in. -/
theorem Receives.same {m m₁ : Mosq σ} {b : Bytes} (h : Receives env m m₁ b) :
    m₁.handled = m.handled ∧ m₁.state = m.state ∧ m₁.bridge = m.bridge := by
  obtain ⟨m₂, _, hto, hdel, -⟩ := packetReadSmp_delivers h.untouched h.read h.done
  obtain ⟨_, _, _, _, _, _, _, rfl⟩ := hto
  exact ⟨hdel.handled, hdel.state, hdel.bridge⟩

theorem IsLength.decode {l rest : Bytes} (h : IsLength l) :
    Base128.decode 4 (l ++ rest) = .number (Base128.value l) rest :=
  Base128.decode_number_append h rest

/-- The announced length is complete, and that many bytes follow it. -/
def AnnouncedFits (b : Bytes) : Prop :=
  ∃ n rest, Base128.decode 4 b.tail = .number n rest ∧ n ≤ rest.length

/-- The call reads nothing outside of the packet, and fails when the announced
    length does not fit, whatever stands behind the packet. -/
structure StaysInside (env : Setup σ) (m m₁ : Mosq σ) (b : Bytes) : Prop where
  inside : decodeMqttPacket { env with beyondPacket := none } m₁ ≠ none
  reports : ¬ AnnouncedFits b → ∀ beyond, ∃ e m',
    packetRead { env with beyondPacket := some beyond } m = some (.error e, m') ∧
      m'.handled = m.handled

/-- Something ends the call before the payload is copied, or the length fits. -/
def EndsInside (env : Setup σ) (m₁ : Mosq σ) (b : Bytes) : Prop :=
  b.length < 2 ∨ refusesCommand env m₁ (b.headD 0) ∨ Base128.decode 4 b.tail = .tooLong ∨
    AnnouncedFits b ∨ ∃ n rest, Base128.decode 4 b.tail = .number n rest ∧ ¬ grants env n m₁

theorem EndsInside.not_endless {m₁ : Mosq σ} {b : Bytes} (h : EndsInside env m₁ b)
    (long : 2 ≤ b.length) (accepts : ¬ refusesCommand env m₁ (b.headD 0)) :
    Base128.decode 4 b.tail ≠ .incomplete := by
  intro hdec
  rcases h with hshort | hrefuses | htoo | ⟨n, rest, hn, -⟩ | ⟨n, rest, hn, -⟩
  · omega
  · exact accepts hrefuses
  · rw [hdec] at htoo
    cases htoo
  · rw [hdec] at hn
    cases hn
  · rw [hdec] at hn
    cases hn

theorem EndsInside.not_beyond {m₁ : Mosq σ} {l rest b : Bytes} (h : EndsInside env m₁ b)
    (long : 2 ≤ b.length) (accepts : ¬ refusesCommand env m₁ (b.headD 0))
    (split : b.tail = l ++ rest) (isLength : IsLength l)
    (granted : grants env (Base128.value l) m₁) : ¬ rest.length < Base128.value l := by
  have hdec : Base128.decode 4 b.tail = .number (Base128.value l) rest := split ▸ isLength.decode
  rcases h with hshort | hrefuses | htoo | ⟨n, rest', hn, hle⟩ | ⟨n, rest', hn, hrefused⟩
  · omega
  · exact absurd hrefuses accepts
  · rw [hdec] at htoo
    cases htoo
  · rw [hdec] at hn
    cases hn
    omega
  · rw [hdec] at hn
    cases hn
    exact absurd granted hrefused

/-- `packet__read` stays inside a decrypted packet exactly when something ends the
    call before the payload is copied, or the announced length fits. -/
theorem packet_read_inside_iff {m m₁ : Mosq σ} {b : Bytes} (h : Receives env m m₁ b) :
    StaysInside env m m₁ b ↔ EndsInside env m₁ b := by
  constructor
  -- with nothing behind the packet a read there has no result
  · intro hinside
    have hcases := decodeMqttPacket_cases { env with beyondPacket := none } h.packet
    generalize hr : decodeMqttPacket { env with beyondPacket := none } m₁ = r at hcases
    cases hcases with
    | short length => exact .inl length
    | refused refuses => exact .inr (.inl refuses)
    | tooLong length => exact .inr (.inr (.inl length))
    | noMemory split isLength positive refuses =>
      exact .inr (.inr (.inr (.inr ⟨_, _, split ▸ isLength.decode, refuses⟩)))
    | fits split isLength long accepts inside incoming =>
      exact .inr (.inr (.inr (.inl ⟨_, _, split ▸ isLength.decode, inside⟩)))
    | endless long accepts length faults => exact absurd (hr.trans (faults rfl)) hinside.inside
    | beyond long accepts split isLength outside grants faults =>
      exact absurd (hr.trans (faults rfl)) hinside.inside
  · intro hends
    refine ⟨?_, fun hfits beyond => ?_⟩
    · have hcases := decodeMqttPacket_cases { env with beyondPacket := none } h.packet
      generalize decodeMqttPacket { env with beyondPacket := none } m₁ = r at hcases
      cases hcases with
      | short => simp
      | refused => simp
      | tooLong => simp
      | noMemory => simp
      | fits => simp
      | endless long accepts length => exact absurd length (hends.not_endless long accepts)
      | beyond long accepts split isLength outside granted =>
        exact absurd outside (hends.not_beyond long accepts split isLength granted)
    · -- what stands behind the packet plays no part in receiving it
      have h' : Receives { env with beyondPacket := some beyond } m m₁ b :=
        ⟨h.sock, h.reads, h.untouched, h.read, h.done, h.packet⟩
      have hmemory : Relates InMemory (decodeMqttPacket { env with beyondPacket := some beyond }) :=
        InMemory.decodeMqttPacket
      specialize hmemory m₁
      have hcases := decodeMqttPacket_cases { env with beyondPacket := some beyond } h.packet
      rw [h'.call_eq, bind_apply, ← h.same.1]
      generalize decodeMqttPacket { env with beyondPacket := some beyond } m₁ = r at hcases hmemory
      cases hcases with
      | short _ m' => exact ⟨_, m', rfl, (hmemory _ _ rfl).handled⟩
      | refused _ m' => exact ⟨_, m', rfl, (hmemory _ _ rfl).handled⟩
      | tooLong _ m' => exact ⟨_, m', rfl, (hmemory _ _ rfl).handled⟩
      | noMemory _ _ _ _ m' => exact ⟨_, m', rfl, (hmemory _ _ rfl).handled⟩
      | fits split isLength long accepts inside =>
        exact absurd ⟨_, _, split ▸ isLength.decode, inside⟩ hfits
      | endless long accepts length => exact absurd length (hends.not_endless long accepts)
      | beyond long accepts split isLength outside granted =>
        exact absurd outside (hends.not_beyond long accepts split isLength granted)

/-! ## Two packets that do not fit -/

/-- A client that finds the same packet in every frame. -/
def findsSetup (packet : Bytes) : Setup Unit :=
  { pingSetup with wclSmpProcessMessage := fun _ s => some (.ok packet, s) }

/-- A client that has a frame of one byte to read. -/
def oneFrame : Mosq Unit := freshMosq () .connected [.data 1 [7]]

theorem findsSetup_receives (c : UInt8) (b : Bytes) :
    ∃ m₁, Receives (findsSetup (c :: b)) oneFrame m₁ (c :: b) :=
  ⟨_, rfl, by decide, ⟨rfl, rfl, rfl⟩, rfl, (fun h => by cases h), ⟨⟨rfl, rfl, rfl⟩, _, rfl⟩⟩

/-- A PUBLISH whose payload fits. -/
theorem packet_read_inside_iff_publish :
    ∃ m₁, Receives (findsSetup [PUBLISH, 3, 0, 1, 97]) oneFrame m₁ [PUBLISH, 3, 0, 1, 97] ∧
      StaysInside (findsSetup [PUBLISH, 3, 0, 1, 97]) oneFrame m₁ [PUBLISH, 3, 0, 1, 97] := by
  obtain ⟨m₁, h⟩ := findsSetup_receives PUBLISH [3, 0, 1, 97]
  have hfits : AnnouncedFits [PUBLISH, 3, 0, 1, 97] := ⟨3, [0, 1, 97], rfl, Nat.le_refl 3⟩
  exact ⟨m₁, h, (packet_read_inside_iff h).mpr (.inr (.inr (.inr (.inl hfits))))⟩

/-- A packet that does not fit and is accepted for the bytes behind it. -/
theorem Receives.not_inside {m m₁ : Mosq σ} {b : Bytes} {beyond : Nat → UInt8} {m' : Mosq σ}
    (hfits : ¬ AnnouncedFits b)
    (h : packetRead { env with beyondPacket := some beyond } m = some (.ok (), m')) :
    ¬ StaysInside env m m₁ b := by
  intro hs
  obtain ⟨e, m'', hfail, -⟩ := hs.reports hfits beyond
  rw [h] at hfail
  cases hfail

/-- What can be seen of a call: whether it succeeded, and the payloads it handed on. -/
def handedOn (r : Option (Except MosqError Unit × Mosq Unit)) : Option (Bool × List Bytes) :=
  r.map fun r => (r.1.isOk, r.2.handled.map fun entry => entry.2.payload)

theorem handedOn_some {r : Option (Except MosqError Unit × Mosq Unit)} {payloads : List Bytes}
    (h : handedOn r = some (true, payloads)) :
    ∃ m', r = some (.ok (), m') ∧ m'.handled.map (fun entry => entry.2.payload) = payloads := by
  obtain ⟨⟨e | u, m'⟩, hr, heq⟩ := Option.map_eq_some_iff.mp h
  · cases heq
  · cases heq
    exact ⟨m', hr, rfl⟩

/-- A PUBLISH that announces two bytes and has none is handed on with the two bytes
    that stand behind it, and a length that runs to the end of the packet is read on
    behind it. -/
theorem decrypted_packet_overread :
    (∃ m₁ m', Receives (findsSetup [PUBLISH, 2]) oneFrame m₁ [PUBLISH, 2] ∧
      packetRead { findsSetup [PUBLISH, 2] with beyondPacket := some fun _ => 9 } oneFrame =
        some (.ok (), m') ∧ m'.handled.map (fun entry => entry.2.payload) = [[9, 9]] ∧
      ¬ StaysInside (findsSetup [PUBLISH, 2]) oneFrame m₁ [PUBLISH, 2]) ∧
    (∃ m₁, Receives (findsSetup [PINGRESP, 0x80]) oneFrame m₁ [PINGRESP, 0x80] ∧
      packetRead (findsSetup [PINGRESP, 0x80]) oneFrame = none ∧
      ¬ StaysInside (findsSetup [PINGRESP, 0x80]) oneFrame m₁ [PINGRESP, 0x80]) := by
  constructor
  · obtain ⟨m₁, h⟩ := findsSetup_receives PUBLISH [2]
    have hfits : ¬ AnnouncedFits [PUBLISH, 2] := by
      rintro ⟨n, rest, hdec, hle⟩
      have hnone : Base128.decode 4 [PUBLISH, 2].tail = .number 2 [] := by decide
      rw [hnone] at hdec
      cases hdec
      exact absurd hle (by decide)
    have hrun : handedOn (packetRead
        { findsSetup [PUBLISH, 2] with beyondPacket := some fun _ => 9 } oneFrame) =
          some (true, [[9, 9]]) := by decide +kernel
    obtain ⟨m', hread, hpayload⟩ := handedOn_some hrun
    exact ⟨m₁, m', h, hread, hpayload, Receives.not_inside hfits hread⟩
  · obtain ⟨m₁, h⟩ := findsSetup_receives PINGRESP [0x80]
    have hfits : ¬ AnnouncedFits [PINGRESP, 0x80] := by
      rintro ⟨n, rest, hdec, -⟩
      have hnone : Base128.decode 4 [PINGRESP, 0x80].tail = .incomplete := by decide
      rw [hnone] at hdec
      cases hdec
    have hnone : handedOn (packetRead (findsSetup [PINGRESP, 0x80]) oneFrame) = none := by
      decide +kernel
    have hrun : handedOn (packetRead
        { findsSetup [PINGRESP, 0x80] with beyondPacket := some fun _ => 0 } oneFrame) =
          some (true, [[]]) := by decide +kernel
    obtain ⟨m', hread, -⟩ := handedOn_some hrun
    exact ⟨m₁, h, Option.map_eq_none_iff.mp hnone, Receives.not_inside hfits hread⟩

end WeeveMQ
