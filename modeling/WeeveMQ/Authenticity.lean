/-
  WeeveMQ.Authenticity

  What an accepted control message proves about its sender, against a network
  that delivers any byte string.

  - `encrypted_packet_authentic`: a packet that was decrypted is one the other
    role has secured, with the same type and id.
  - `clear_packet_authentic`: the same for a packet in clear, in runs that
    secure only packets whose authenticated string splits in one way
    (`SplitsOnce`).

  The authenticated string of a packet in clear is header, label and packet
  without any lengths, and the header decoder does not look behind its array.
  A packet that contains a label can therefore be cut there, the part in front
  going into the header.
-/

import WeeveMQ.SecureChannel

namespace WeeveMQ

open Call
open WclSmpMessageType

variable {cbor : TinyCbor} {env : Env} {role : Role}

/-- The role of a sender shows in its labels. -/
theorem sentLabel_injective {r q : Role} {messageType : Nat}
    (ht : 2 ≤ messageType ∧ messageType ≤ 13)
    (h : sentLabel r messageType = sentLabel q messageType) : r = q := by
  obtain ⟨name, -, hlabel⟩ := sentLabel_split ht
  rw [hlabel, hlabel] at h
  exact labelDirection_injective (List.append_cancel_right h)

/-- Whatever a receiver decrypts the sender encrypts. -/
theorem encrypts_of_decrypts {messageType : Nat}
    (h : hasClearMqttPacket role messageType = false) :
    encryptMqttPacket messageType = true ∧ 3 ≤ messageType ∧ messageType ≤ 10 := by
  cases role <;> simp [hasClearMqttPacket, encryptMqttPacket] at h ⊢ <;> omega

/-- The control message behind an accepted message of such a type. -/
theorem controlAccepted_of_step {c c' : Channel} {message packet : Bytes} {h : WosSmpHeader}
    (step : ChannelStep cbor c ⟨role, env, .process message, .ok packet⟩ c')
    (header : wosMsgUnpackSmpHeaderFromSmpMsg cbor message = .ok h)
    (control : h.messageType ≠ (seMessageType role.peer).code) :
    IdealAead c.encryptions cbor role env message (c.session role) ∧ ∃ p plainText,
      ControlAccepted cbor role env (c.session role) message h p plainText ∧
        packet = deliveredPacket role h.messageType p plainText := by
  cases step with
  | process ideal call =>
      refine ⟨ideal, ?_⟩
      rcases smpProcessMessage_ok.mp call with ⟨h', p, _, ha, -⟩ | ⟨h', p, plain, ha, rfl, -⟩
      · obtain rfl : h' = h := Except.ok.inj (ha.routed.unpacked.symm.trans header)
        exact absurd ha.type control
      · obtain rfl : h' = h := Except.ok.inj (ha.routed.unpacked.symm.trans header)
        exact ⟨p, plain, ha, rfl⟩

/-! ## Encrypted packets -/

/-- Authenticity of encrypted messages, for every run of two sessions that have
    not encrypted anything yet, whatever keys they hold. -/
theorem encrypted_packet_authentic {start c c' : Channel} {events : List ChannelEvent}
    {message packet : Bytes} {h : WosSmpHeader} (fresh : start.encryptions = [])
    (run : Run (ChannelStep cbor) start events c)
    (step : ChannelStep cbor c ⟨role, env, .process message, .ok packet⟩ c')
    (header : wosMsgUnpackSmpHeaderFromSmpMsg cbor message = .ok h)
    (decrypted : hasClearMqttPacket role h.messageType = false) :
    ⟨role.peer, h.messageType, h.messageId, packet⟩ ∈ c.secured := by
  obtain ⟨hencrypt, hrange⟩ := encrypts_of_decrypts decrypted
  have hcontrol : h.messageType ≠ (seMessageType role.peer).code := by
    cases role <;> simp [seMessageType, Role.peer] <;> omega
  obtain ⟨ideal, p, plain, accepted, rfl⟩ := controlAccepted_of_step step header hcontrol
  obtain ⟨a, ha, htype, hid, -, -, hplain, hsplit⟩ := accepted.origin (originLog fresh run) ideal
  -- no packet in the authenticated string, and all labels are equally long
  obtain ⟨z, hz⟩ := hsplit (by omega)
  rw [if_pos hencrypt, decrypted, List.append_nil] at hz
  simp only [Bool.false_eq_true, if_false, List.append_nil] at hz
  have hlen := congrArg List.length hz
  rw [List.length_append, sentLabel_length (by omega), sentLabel_length (by omega)] at hlen
  obtain rfl : z = [] := List.eq_nil_of_length_eq_zero (by omega)
  have hsender : a.sender = role.peer := sentLabel_injective (by omega) hz
  rw [if_pos hencrypt] at hplain
  have hdelivered : deliveredPacket role h.messageType p plain = a.packet := by
    rw [deliveredPacket, decrypted, hplain]
    rfl
  rw [hdelivered, ← hsender, ← htype, ← hid]
  exact ha

/-- The sample client has secured a PUBLISH. -/
def publishedChannel : Channel where
  session := Function.update Channel.sample.session .client Session.sample.sent
  secured := [⟨.client, publish.code, 0, [1, 2]⟩]
  encryptions := encryptionsOf (rfc7049 64) .client Env.sample publish.code [1, 2] Session.sample

/-- The broker gets the PUBLISH the client has sent. -/
theorem encrypted_packet_authentic_publish :
    ⟨.client, publish.code, 0, [1, 2]⟩ ∈ publishedChannel.secured :=
  have sent : ChannelStep (rfc7049 64) Channel.sample
      ⟨.client, Env.sample, .secure publish.code [1, 2], .ok publishMessage⟩ publishedChannel :=
    .secure rfl
  have received : ChannelStep (rfc7049 64) publishedChannel
      ⟨.broker, Env.sample, .process publishMessage, .ok [1, 2]⟩
      { publishedChannel with
        session := Function.update publishedChannel.session .broker (Session.sample.received 0) } :=
    .process (.of_mem rfl rfl (by decide)) rfl
  have header : wosMsgUnpackSmpHeaderFromSmpMsg (rfc7049 64) publishMessage =
      .ok ⟨0, 0, publish.code, [], 0⟩ := rfl
  encrypted_packet_authentic rfl (Run.single sent) received header rfl

/-! ## Packets in clear -/

/-- The types that only authenticate their packet, on both sides. -/
def clearTypes : List Nat :=
  [puback.code, pubrec.code, pubrel.code, pubcomp.code, unsuback.code, pingreq.code,
    pingresp.code]

/-- The string label || packet has no second reading: no receiver of the type
    finds its label, followed by a packet, behind the beginning. -/
def SplitsOnce (sender : Role) (messageType : Nat) (packet : Bytes) : Prop :=
  ∀ (receiver : Role) (z packet' : Bytes), isReceivable receiver messageType = true →
    packet' ≠ [] →
    sentLabel sender messageType ++ packet =
      z ++ (sentLabel receiver.peer messageType ++ packet') → z = []

/-- The call does not secure a packet in clear that has a second reading. -/
def ChannelEvent.SplitsOnce (ev : ChannelEvent) : Prop :=
  ∀ messageType packet, ev.call = .secure messageType packet → messageType ∈ clearTypes →
    WeeveMQ.SplitsOnce ev.role messageType packet

/-- A step whose call meets the condition. -/
def UnambiguousStep (cbor : TinyCbor) (c : Channel) (ev : ChannelEvent) (c' : Channel) : Prop :=
  ChannelStep cbor c ev c' ∧ ev.SplitsOnce

theorem splitsOnce_secured {start c : Channel} {events : List ChannelEvent}
    (hstart : ∀ a ∈ start.secured, a.messageType ∈ clearTypes →
      SplitsOnce a.sender a.messageType a.packet)
    (run : Run (UnambiguousStep cbor) start events c) :
    ∀ a ∈ c.secured, a.messageType ∈ clearTypes → SplitsOnce a.sender a.messageType a.packet := by
  refine run.invariant (I := fun c => ∀ a ∈ c.secured, a.messageType ∈ clearTypes →
    SplitsOnce a.sender a.messageType a.packet) hstart ?_
  rintro c ev c' hinv ⟨step, honce⟩
  cases step with
  | secure call =>
      intro a ha hclear
      rcases List.mem_append.mp ha with ha | ha
      · exact hinv a ha hclear
      · obtain rfl := List.mem_singleton.mp ha
        exact honce _ _ rfl hclear
  | establish call => exact hinv
  | process ideal call => exact hinv

/-- Both ends leave the packets of these types in clear. -/
theorem clear_of_clearTypes (role : Role) {messageType : Nat} (h : messageType ∈ clearTypes) :
    hasClearMqttPacket role messageType = true ∧ encryptMqttPacket messageType = false ∧
      4 ≤ messageType ∧ messageType ≤ 13 := by
  simp only [clearTypes, List.mem_cons, List.not_mem_nil, or_false] at h
  rcases h with rfl | rfl | rfl | rfl | rfl | rfl | rfl <;> cases role <;> decide

/-- A label has its only digit in second place. -/
theorem sentLabel_digit {messageType : Nat} (ht : 2 ≤ messageType ∧ messageType ≤ 13)
    {i : Nat} (hi : i < 9) :
    (sentLabel role messageType)[i + 1]? = some 50 ↔ i = 0 := by
  obtain ⟨h2, h13⟩ := ht
  revert i
  interval_cases messageType <;> cases role <;> decide

/-- Packets of up to nine bytes have no second reading; the MQTT packets of
    these types have two or four. -/
theorem splitsOnce_of_length_le {messageType : Nat} {packet : Bytes}
    (ht : messageType ∈ clearTypes) (hlen : packet.length ≤ 9) :
    SplitsOnce role messageType packet := by
  obtain ⟨-, -, hrange⟩ := clear_of_clearTypes role ht
  have hlabel : ∀ r, (sentLabel r messageType).length = 10 :=
    fun r => sentLabel_length (by omega)
  intro receiver z packet' _ hne heq
  have hsum := congrArg List.length heq
  simp only [List.length_append, hlabel] at hsum
  have hpos := List.length_pos_of_ne_nil hne
  -- the digit of the second label, seen from both sides
  have hdigit := congrArg (·[z.length + 1]?) heq
  rw [List.getElem?_append_left (by rw [hlabel]; omega),
    List.getElem?_append_right (by omega), Nat.add_sub_cancel_left,
    List.getElem?_append_left (by rw [hlabel]; omega),
    (sentLabel_digit (i := 0) (by omega) (by omega)).mpr rfl] at hdigit
  exact List.eq_nil_of_length_eq_zero ((sentLabel_digit (by omega) (by omega)).mp hdigit)

/-- Integrity of the messages in clear, in runs that secure no packet with a
    second reading. -/
theorem clear_packet_authentic {start c c' : Channel} {events : List ChannelEvent}
    {message packet : Bytes} {h : WosSmpHeader} (fresh : start.encryptions = [])
    (unused : start.secured = []) (run : Run (UnambiguousStep cbor) start events c)
    (step : ChannelStep cbor c ⟨role, env, .process message, .ok packet⟩ c')
    (header : wosMsgUnpackSmpHeaderFromSmpMsg cbor message = .ok h)
    (clear : h.messageType ∈ clearTypes) :
    ⟨role.peer, h.messageType, h.messageId, packet⟩ ∈ c.secured := by
  obtain ⟨hclear, hencrypt, hrange⟩ := clear_of_clearTypes role clear
  have hcontrol : h.messageType ≠ (seMessageType role.peer).code := by
    cases role <;> simp [seMessageType, Role.peer] <;> omega
  obtain ⟨ideal, p, plain, accepted, rfl⟩ := controlAccepted_of_step step header hcontrol
  have hlog := originLog fresh (run.mono fun _ _ _ h => h.1)
  obtain ⟨a, ha, htype, hid, hne, -, -, hsplit⟩ := accepted.origin hlog ideal
  obtain ⟨z, hz⟩ := hsplit (by omega)
  rw [hencrypt, hclear] at hz
  simp only [Bool.false_eq_true, if_false, if_true] at hz
  -- the sender's condition leaves one reading of the authenticated string
  have honce : SplitsOnce a.sender h.messageType a.packet := by
    rw [← htype]
    refine splitsOnce_secured ?_ run a ha (htype ▸ clear)
    rw [unused]
    simp
  obtain rfl : z = [] :=
    honce role z p.mqttPacket accepted.routed.valid.receivable accepted.opened.payload_ne hz
  rw [List.nil_append] at hz
  obtain ⟨hlabel, hpacket⟩ :=
    List.append_inj hz (by rw [sentLabel_length (by omega), sentLabel_length (by omega)])
  have hsender : a.sender = role.peer := sentLabel_injective (by omega) hlabel
  have hdelivered : deliveredPacket role h.messageType p plain = a.packet := by
    rw [deliveredPacket, hclear, if_pos rfl, hpacket]
  rw [hdelivered, ← hsender, ← htype, ← hid]
  exact ha

/-- The sample channel after the client has secured a PUBACK with this packet. -/
def pubackChannel (packet : Bytes) : Channel where
  session := Function.update Channel.sample.session .client Session.sample.sent
  secured := [⟨.client, puback.code, 0, packet⟩]
  encryptions := encryptionsOf (rfc7049 64) .client Env.sample puback.code packet Session.sample

/-- A message of type PUBACK with a header of less than 24 bytes and a packet of
    less than 24 bytes, as the sample client sends it. -/
def pubackMessage (header packet : Bytes) : Bytes :=
  0x9f :: Cbor.encodeString 2 header ++ Cbor.encodeString 2 packet ++
    Cbor.encodeString 2 (List.replicate 12 0) ++ Cbor.encodeString 2 (List.replicate 16 5) ++ [0xff]

/-- The header of the sample client's PUBACK. -/
def pubackHeader : Bytes := [0x9f, 0, 0, 4, 0x60, 0, 0xff]

/-- The broker gets the PUBACK the client has sent. -/
theorem clear_packet_authentic_puback :
    ⟨.client, puback.code, 0, [9]⟩ ∈ (pubackChannel [9]).secured :=
  have sent : UnambiguousStep (rfc7049 64) Channel.sample
      ⟨.client, Env.sample, .secure puback.code [9], .ok (pubackMessage pubackHeader [9])⟩
      (pubackChannel [9]) :=
    ⟨.secure rfl, by
      rintro _ _ ⟨⟩ -
      exact splitsOnce_of_length_le (by decide) (by decide)⟩
  have received : ChannelStep (rfc7049 64) (pubackChannel [9])
      ⟨.broker, Env.sample, .process (pubackMessage pubackHeader [9]), .ok [9]⟩
      { pubackChannel [9] with
        session := Function.update (pubackChannel [9]).session .broker
          (Session.sample.received 0) } :=
    .process (.of_mem rfl rfl (by decide)) rfl
  have header : wosMsgUnpackSmpHeaderFromSmpMsg (rfc7049 64) (pubackMessage pubackHeader [9]) =
      .ok ⟨0, 0, puback.code, [], 0⟩ := rfl
  clear_packet_authentic rfl rfl (Run.single sent) received header (by decide)

/-- Where the client secures a packet that begins with the label of its type,
    the broker accepts the rest of it behind a header that ends in that label. -/
theorem clear_packet_forged :
    ∃ (c c' : Channel) (events : List ChannelEvent) (env : Env) (message packet : Bytes)
      (h : WosSmpHeader),
      Run (ChannelStep (rfc7049 64)) Channel.sample events c ∧
      ChannelStep (rfc7049 64) c ⟨.broker, env, .process message, .ok packet⟩ c' ∧
      wosMsgUnpackSmpHeaderFromSmpMsg (rfc7049 64) message = .ok h ∧
      h.messageType ∈ clearTypes ∧
      ⟨Role.broker.peer, h.messageType, h.messageId, packet⟩ ∉ c.secured := by
  have sent : ChannelStep (rfc7049 64) Channel.sample
      ⟨.client, Env.sample, .secure puback.code (sentLabel .client puback.code ++ [7]),
        .ok (pubackMessage pubackHeader (sentLabel .client puback.code ++ [7]))⟩
      (pubackChannel (sentLabel .client puback.code ++ [7])) := .secure rfl
  have received : ChannelStep (rfc7049 64) (pubackChannel (sentLabel .client puback.code ++ [7]))
      ⟨.broker, Env.sample,
        .process (pubackMessage (pubackHeader ++ sentLabel .client puback.code) [7]), .ok [7]⟩
      { pubackChannel (sentLabel .client puback.code ++ [7]) with
        session := Function.update (pubackChannel (sentLabel .client puback.code ++ [7])).session
          .broker (Session.sample.received 0) } :=
    .process (.of_mem rfl rfl (by decide)) rfl
  exact ⟨_, _, _, _, _, [7], ⟨0, 0, puback.code, [], 0⟩, Run.single sent, received, rfl,
    by decide, by decide⟩

end WeeveMQ
