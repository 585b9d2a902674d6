/-
  WeeveMQ.DeliveryBooks

  What the steps of `Delivery` keep, with the steps of the client.

  The books compare what has been published with what has been handed on.  A message
  with QoS 2 is owed until its PUBREL has been read, and the broker hands it on in
  that moment; one with QoS 1 until the broker answers it, and after a lost answer it
  is handed on again; one with QoS 0 is in the lane once or not at all.

  - `Delivery.Ok.publish`, `.receive`, `.reconnect`: the steps of the client keep all
    of it.
-/

import WeeveMQ.Delivery

namespace WeeveMQ

/-! ## The books -/

/-- What the subscribers have not been given yet of this message, with QoS 2. -/
def owes (held : List UInt16) (m : OutMessage) : Option Content :=
  if m.qos = 2 ∧ (¬ m.Releasing ∨ m.mid ∈ held) then some m.content else none

/-- What they may not have been given, with QoS 1. -/
def mayOwe (down : List MqttPacket) (m : OutMessage) : Option Content :=
  if m.qos = 1 ∧ .puback m.mid ∉ down then some m.content else none

structure Books (messages : List OutMessage) (held : List UInt16) (up down : List MqttPacket)
    (published forwarded : List Content) : Prop where
  known : ∀ m ∈ messages, m.content ∈ published
  honest : ∀ c ∈ forwarded, c ∈ published
  exactly : ∀ c, c.qos = 2 →
    published.count c = forwarded.count c + (messages.filterMap (owes held)).count c
  atLeast : ∀ c, c.qos = 1 →
    published.count c ≤ forwarded.count c + (messages.filterMap (mayOwe down)).count c
  atMost : ∀ c, c.qos = 0 → forwarded.count c + up.countP (·.brings c) ≤ published.count c

/-- What holds between the steps. -/
structure Delivery.Ok (limit : Nat) (s : Delivery) : Prop where
  sound : s.client.Sound
  limit : s.client.maxInflight = limit
  phased : ∀ m ∈ s.client.messages, m.Phased
  holding : s.broker.Holding
  holds : ∀ h ∈ s.broker.inflight, ∃ m ∈ s.client.messages,
    m.mid = h.mid ∧ m.state ≠ .invalid ∧ m.qos = 2 ∧ h.content = some m.content
  lanes : Lanes s.client.messages s.broker.held s.up s.down
  books : Books s.client.messages s.broker.held s.up s.down s.published s.forwarded

section Books

variable {messages messages' : List OutMessage} {held held' : List UInt16}
  {up up' down down' sent : List MqttPacket} {published forwarded : List Content}
  {p : MqttPacket} {m : OutMessage} {mid : UInt16} {c : Content}

theorem place_cases (sends : Sends) (p : MqttPacket) : sends.place p = [] ∨ sends.place p = [p] := by
  rw [Sends.place]
  split_ifs
  · exact .inr rfl
  · exact .inl rfl

theorem mem_place {sends : Sends} {p p' : MqttPacket} (h : p' ∈ sends.place p) : p' = p := by
  rcases place_cases sends p with hnone | hone
  · rw [hnone] at h
    exact absurd h List.not_mem_nil
  · rw [hone] at h
    exact List.mem_singleton.mp h

/-- Only a PUBLISH without token publishes with QoS 0. -/
theorem brings_token (h : p.token ≠ none) (hc : c.qos = 0) : p.brings c = false := by
  cases p with
  | publish p =>
    by_contra hbrings
    obtain ⟨-, -, hqos, -⟩ := by simpa [MqttPacket.brings] using hbrings
    apply h
    rw [MqttPacket.token, if_pos (hqos.trans hc)]
  | connect => rfl
  | connack => rfl
  | puback => rfl
  | pubrec => rfl
  | pubrel => rfl
  | pubcomp => rfl

theorem countP_brings (h : ∀ p ∈ sent, p.token ≠ none) (hc : c.qos = 0) :
    (up ++ sent).countP (·.brings c) = up.countP (·.brings c) := by
  have hnone : sent.countP (·.brings c) = 0 := by
    apply List.countP_eq_zero.mpr
    intro p hp
    rw [brings_token (h p hp) hc]
    exact Bool.false_ne_true
  rw [List.countP_append, hnone, Nat.add_zero]

theorem filterMap_sublist {f f' : OutMessage → Option Content}
    (h : ∀ m ∈ messages, ∀ c, f m = some c → f' m = some c) :
    (messages.filterMap f).Sublist (messages.filterMap f') := by
  induction messages with
  | nil => exact List.Sublist.slnil
  | cons m messages ih =>
    have hrest := ih fun n hn => h n (List.mem_cons_of_mem _ hn)
    rw [List.filterMap_cons, List.filterMap_cons]
    rcases hf : f m with _ | c
    · rcases f' m with _ | c'
      · exact hrest
      · exact hrest.cons c'
    · rw [h m List.mem_cons_self c hf]
      exact hrest.cons_cons c

/-- The message of an id apart from the others. -/
theorem count_filterMap_split (f : OutMessage → Option Content) (hm : m ∈ messages)
    (hmids : (messages.map (·.mid)).Nodup) :
    (messages.filterMap f).count c = (f m).toList.count c +
      ((messages.filter fun n => n.mid ≠ m.mid).filterMap f).count c := by
  obtain ⟨before, behind, rfl⟩ := List.append_of_mem hm
  have hother : ∀ n ∈ before ++ behind, n.mid ≠ m.mid := by
    simp only [List.map_append, List.map_cons, List.nodup_append, List.nodup_cons, List.mem_map,
      List.mem_cons] at hmids
    intro n hn heq
    rcases List.mem_append.mp hn with hn | hn
    · exact hmids.2.2 n.mid ⟨n, hn, rfl⟩ m.mid (.inl rfl) heq
    · exact hmids.2.1.1 ⟨n, hn, heq⟩
  have hfilter : ((before ++ m :: behind).filter fun n => n.mid ≠ m.mid) = before ++ behind := by
    rw [List.filter_append, List.filter_cons_of_neg (by simp), ← List.filter_append]
    exact List.filter_eq_self.mpr fun n hn => by simpa using hother n hn
  rw [hfilter, List.filterMap_append, List.filterMap_append, List.filterMap_cons, List.count_append,
    List.count_append]
  rcases f m with _ | c'
  · simp
  · rw [Option.toList_some, List.count_cons, List.count_singleton]
    omega

/-- What changes about one message changes the count by that message. -/
theorem count_filterMap_change {f f' : OutMessage → Option Content} (hm : m ∈ messages)
    (hmids : (messages.map (·.mid)).Nodup)
    (hother : ∀ n ∈ messages, n.mid ≠ m.mid → f' n = f n) :
    (messages.filterMap f).count c + (f' m).toList.count c =
      (messages.filterMap f').count c + (f m).toList.count c := by
  have hsame : (messages.filter fun n => n.mid ≠ m.mid).filterMap f' =
      (messages.filter fun n => n.mid ≠ m.mid).filterMap f := by
    refine List.filterMap_congr fun n hn => ?_
    obtain ⟨hn, hmid⟩ := List.mem_filter.mp hn
    exact hother n hn (by simpa using hmid)
  rw [count_filterMap_split f hm hmids, count_filterMap_split f' hm hmids, hsame]
  omega

/-- Nothing is published or handed on, and nothing is owed less. -/
theorem Books.follow (h : Books messages held up down published forwarded)
    (hknown : ∀ m' ∈ messages', ∃ m ∈ messages, m'.content = m.content)
    (howes : messages'.filterMap (owes held') = messages.filterMap (owes held))
    (hmay : (messages.filterMap (mayOwe down)).Sublist (messages'.filterMap (mayOwe down')))
    (hup : ∀ c : Content, c.qos = 0 → up'.countP (·.brings c) ≤ up.countP (·.brings c)) :
    Books messages' held' up' down' published forwarded where
  known m' hm' := by
    obtain ⟨m, hm, heq⟩ := hknown m' hm'
    rw [heq]
    exact h.known m hm
  honest := h.honest
  exactly c hc := by
    rw [howes]
    exact h.exactly c hc
  atLeast c hc := by
    have hbefore := h.atLeast c hc
    have hmore := hmay.count_le c
    omega
  atMost c hc := by
    have hbefore := h.atMost c hc
    have hless := hup c hc
    omega

/-- The messages go on, apart from some that are not owed. -/
theorem filterMap_kept {keep : OutMessage → Bool} {g : OutMessage → OutMessage}
    {f f' : OutMessage → Option Content}
    (h : ∀ m ∈ messages, f m = if keep m then f' (g m) else none) :
    ((messages.filter keep).map g).filterMap f' = messages.filterMap f := by
  rw [List.filterMap_map, List.filterMap_filter]
  exact (List.filterMap_congr h).symm

theorem owes_goes {m' : OutMessage} (h : m.Goes m') : owes held m' = owes held m := by
  simp only [owes, h.qos, h.mid, h.content, h.releasing]

theorem mayOwe_goes {m' : OutMessage} (h : m.Goes m') : mayOwe down m' = mayOwe down m := by
  rw [mayOwe, mayOwe, h.qos, h.mid, h.content]

/-- Fewer answers are on the way. -/
theorem mayOwe_sublist (h : ∀ mid, .puback mid ∈ down' → .puback mid ∈ down) :
    (messages.filterMap (mayOwe down)).Sublist (messages.filterMap (mayOwe down')) := by
  refine filterMap_sublist fun m _ c hc => ?_
  rw [mayOwe] at hc ⊢
  split_ifs at hc with hcond
  rw [if_pos ⟨hcond.1, fun hmem => hcond.2 (h m.mid hmem)⟩]
  exact hc

end Books

/-! ## Publishing -/

section Publish

variable {limit : Nat} {s : Delivery} {sends : Sends} {q : OutMessages} {m : OutMessage}
  {messages : List OutMessage} {held : List UInt16} {up down : List MqttPacket} {p : MqttPacket}
  {c : Content}

theorem OutMessage.packet_token (h : m.qos ≠ 0) : m.packet.token = some m.mid := if_neg h

theorem OutMessage.packet_fits (h : ¬ m.Releasing) : m.packet.Fits held m := ⟨rfl, rfl, rfl, rfl, h⟩

/-- The client sends a packet of a message that has none on the way. -/
theorem Lanes.sendOne (h : Lanes messages held up down) (hm : m ∈ messages)
    (hmids : (messages.map (·.mid)).Nodup) (hup : p.upward = true) (htoken : p.token = some m.mid)
    (hnew : m.mid ∉ tokens up down) (hstate : m.state ≠ .invalid) (hfits : p.Fits held m)
    (hwaits : (.connect ∈ up ∨ ∃ result, .connack result ∈ down) → m.Waiting) :
    Lanes messages held (up ++ sends.place p) down := by
  have hp : ∀ p' ∈ sends.place p, p' = p := fun _ => mem_place
  refine h.send ?_ ?_ ?_ ?_ ?_ ?_
  · intro p' hp'
    rw [hp p' hp']
    exact hup
  · intro hmem
    rw [← hp _ hmem] at htoken
    exact Option.some_ne_none _ htoken.symm
  · rcases place_cases sends p with hnone | hone
    · rw [hnone]
      exact List.nodup_nil
    · rw [hone, List.filterMap_cons, htoken]
      exact List.nodup_singleton _
  · intro mid hmid
    obtain ⟨p', hp', htoken'⟩ := List.mem_filterMap.mp hmid
    rw [hp p' hp', htoken] at htoken'
    rwa [← Option.some.inj htoken']
  · intro p' hp' mid htoken'
    rw [hp p' hp'] at htoken' ⊢
    exact ⟨m, hm, Option.some.inj (htoken.symm.trans htoken'), hstate, hfits⟩
  · intro hgreets p' hp' n hn htoken'
    rw [hp p' hp', htoken] at htoken'
    -- there is only one message of this id
    obtain rfl : m = n := List.inj_on_of_nodup_map hmids hm hn (Option.some.inj htoken')
    exact hwaits hgreets

theorem mosquittoPublish_refused {e : MosqCode}
    (h : publishCheck c.topic c.payload c.qos = .error e) :
    mosquittoPublish sends q c.topic c.payload c.qos c.retain =
      { out := q, packets := [], rc := .error e } := by
  rw [mosquittoPublish, h]

theorem mosquittoPublish_plain (h : publishCheck c.topic c.payload c.qos = .ok ())
    (hqos : c.qos = 0) :
    (mosquittoPublish sends q c.topic c.payload c.qos c.retain).out =
        { q with lastMid := mosquittoMidGenerate q.lastMid } ∧
      (mosquittoPublish sends q c.topic c.payload c.qos c.retain).packets = sends.place
        (newMessage (mosquittoMidGenerate q.lastMid) c.topic c.payload c.qos c.retain).packet := by
  rw [mosquittoPublish, h]
  dsimp only
  rw [if_pos hqos]
  exact ⟨rfl, rfl⟩

/-- A packet publishes the content that its fields say. -/
theorem publish_brings (p : PublishPacket) (c : Content) :
    (MqttPacket.publish p).brings c = decide (⟨p.topic, p.payload, p.qos, p.retain⟩ = c) := by
  rw [Bool.eq_iff_iff, decide_eq_true_iff]
  show decide (p.topic = c.topic ∧ p.payload = c.payload ∧ p.qos = c.qos ∧
    p.retain = c.retain) = true ↔ _
  rw [decide_eq_true_iff]
  constructor
  · rintro ⟨htopic, hpayload, hqos, hretain⟩
    rw [htopic, hpayload, hqos, hretain]
  · rintro rfl
    exact ⟨rfl, rfl, rfl, rfl⟩

theorem OutMessage.packet_brings (c : Content) : m.packet.brings c = decide (m.content = c) :=
  publish_brings _ c

/-- A message is published that needs no answer. -/
theorem Delivery.Ok.publishPlain (h : s.Ok limit) {lastMid : UInt16} (hqos : m.qos = 0)
    (hsound : ({ s.client with lastMid := lastMid } : OutMessages).Sound) :
    ({ s with
      client := { s.client with lastMid := lastMid }
      up := s.up ++ sends.place m.packet
      published := s.published ++ [m.content] } : Delivery).Ok limit where
  sound := hsound
  limit := h.limit
  phased := h.phased
  holding := h.holding
  holds := h.holds
  lanes := by
    -- a PUBLISH without QoS has no id, so the lanes of the ids do not see it
    have htoken : ∀ p ∈ sends.place m.packet, p.token = none ∧ p.upward = true ∧ p ≠ .connect := by
      intro p hp
      rw [mem_place hp]
      exact ⟨if_pos hqos, rfl, MqttPacket.noConfusion⟩
    have hnone : (sends.place m.packet).filterMap MqttPacket.token = [] :=
      List.filterMap_eq_nil_iff.mpr fun p hp => (htoken p hp).1
    refine h.lanes.send (fun p hp => (htoken p hp).2.1) (fun hmem => (htoken _ hmem).2.2 rfl) ?_ ?_
      ?_ ?_
    · rw [hnone]
      exact List.nodup_nil
    · rw [hnone]
      exact fun mid hmid => absurd hmid List.not_mem_nil
    · intro p hp mid hmid
      rw [(htoken p hp).1] at hmid
      exact absurd hmid (Option.some_ne_none _).symm
    · intro _ p hp n _ hmid
      rw [(htoken p hp).1] at hmid
      exact absurd hmid (Option.some_ne_none _).symm
  books := by
    refine ⟨?_, ?_, ?_, ?_, ?_⟩
    · exact fun n hn => List.mem_append_left _ (h.books.known n hn)
    · exact fun c hc => List.mem_append_left _ (h.books.honest c hc)
    -- content of QoS 2 and of QoS 1 is counted as before: this message is neither
    · intro c hc
      have hother : m.content ≠ c := by
        rintro rfl
        have hzero : m.qos = 2 := hc
        omega
      rw [List.count_append, List.count_singleton, if_neg (by simpa using hother)]
      exact h.books.exactly c hc
    · intro c hc
      have hbefore := h.books.atLeast c hc
      rw [List.count_append]
      show _ ≤ s.forwarded.count c + (s.client.messages.filterMap (mayOwe s.down)).count c
      have hother : m.content ≠ c := by
        rintro rfl
        have hzero : m.qos = 1 := hc
        omega
      rw [List.count_singleton, if_neg (by simpa using hother)]
      exact hbefore
    · intro c hc
      have hbefore := h.books.atMost c hc
      -- the packet is sent once or, if the send fails, not at all
      have hplace : (sends.place m.packet).countP (·.brings c) ≤ [m.content].count c := by
        rcases place_cases sends m.packet with hnone | hone
        · rw [hnone]
          exact Nat.zero_le _
        · rw [hone, List.countP_singleton, List.count_singleton, OutMessage.packet_brings]
          by_cases heq : m.content = c <;> simp [heq]
      show s.forwarded.count c + (s.up ++ sends.place m.packet).countP _ ≤ _
      rw [List.countP_append, List.count_append]
      omega

/-- A message is published that waits for an answer. -/
theorem Delivery.Ok.publishQueued (h : s.Ok limit) {q : OutMessages} (sends : Sends)
    (sent : List MqttPacket) (hsound : q.Sound) (hlimit : q.maxInflight = limit)
    (hmessages : q.messages = s.client.messages ++ [m])
    (hphase : m.state = .invalid ∧ sent = [] ∨ m.Waiting ∧ sent = sends.place m.packet) :
    ({ s with
      client := q
      up := s.up ++ sent
      published := s.published ++ [m.content] } : Delivery).Ok limit := by
  have hm : m ∈ q.messages := by
    rw [hmessages]
    exact List.mem_append_right _ (List.mem_singleton_self _)
  have hkept : ∀ n ∈ s.client.messages, n ∈ q.messages := by
    rw [hmessages]
    exact fun n hn => List.mem_append_left _ hn
  have hqos := hsound.qos m hm
  have hreleasing : ¬ m.Releasing := by
    rw [OutMessage.Releasing]
    rcases hphase with ⟨hstate, -⟩ | ⟨hstate | hstate, -⟩
    · simp [hstate]
    · simp [hstate]
    · simp [hstate]
  -- `hsound` has the ids of the list distinct, so nothing on the way has the new one
  have hnew : m.mid ∉ s.client.messages.map (·.mid) := by
    have hmids := hsound.mids
    rw [hmessages, List.map_append, List.nodup_append] at hmids
    exact fun hmem => hmids.2.2 _ hmem m.mid (List.mem_singleton_self _) rfl
  have hnewToken : m.mid ∉ tokens s.up s.down := fun hmem => hnew (h.lanes.message hmem)
  refine ⟨hsound, hlimit, ?_, h.holding, ?_, ?_, ?_⟩
  · show ∀ n ∈ q.messages, n.Phased
    rw [hmessages]
    intro n hn
    rcases List.mem_append.mp hn with hn | hn
    · exact h.phased n hn
    · rw [List.mem_singleton.mp hn]
      refine ⟨?_, fun hrel => absurd hrel hreleasing⟩
      rcases hphase with ⟨hstate, -⟩ | ⟨hwaits, -⟩
      · exact .inl hstate
      · exact .inr (.inr (.inr (.inl hwaits)))
  · intro k hk
    obtain ⟨n, hn, hrest⟩ := h.holds k hk
    exact ⟨n, hkept n hn, hrest⟩
  -- the lanes: the message waits and nothing is sent, or its PUBLISH is the one new
  -- packet
  · have hlanes : Lanes q.messages s.broker.held s.up s.down :=
      h.lanes.change hsound.mids (fun n hn _ => ⟨n, hkept n hn, .refl n, id⟩) fun _ _ => Iff.rfl
    rcases hphase with ⟨-, rfl⟩ | ⟨hwaits, rfl⟩
    · rw [List.append_nil]
      exact hlanes
    · apply hlanes.sendOne hm hsound.mids rfl _ hnewToken _ (OutMessage.packet_fits hreleasing)
        fun _ => hwaits
      · exact OutMessage.packet_token (by omega)
      · rcases hwaits with hstate | hstate
        · simp [hstate]
        · simp [hstate]
  · have htokens : ∀ p ∈ sent, p.token ≠ none := by
      intro p hp
      rcases hphase with ⟨-, rfl⟩ | ⟨-, rfl⟩
      · exact absurd hp List.not_mem_nil
      · rw [mem_place hp, OutMessage.packet_token (by omega)]
        exact Option.some_ne_none _
    have hpuback : .puback m.mid ∉ s.down := fun hmem =>
      hnewToken (mem_tokens (List.mem_append_right _ hmem) rfl)
    refine ⟨?_, ?_, ?_, ?_, ?_⟩
    · show ∀ n ∈ q.messages, n.content ∈ s.published ++ [m.content]
      rw [hmessages]
      intro n hn
      rcases List.mem_append.mp hn with hn | hn
      · exact List.mem_append_left _ (h.books.known n hn)
      · rw [List.mem_singleton.mp hn]
        exact List.mem_append_right _ (List.mem_singleton_self _)
    · exact fun c hc => List.mem_append_left _ (h.books.honest c hc)
    · intro c hc
      have hbefore := h.books.exactly c hc
      -- what is published is owed at once, so both sides grow by the same
      have howes : ([m].filterMap (owes s.broker.held)).count c = [m.content].count c := by
        by_cases htwo : m.qos = 2
        · rw [List.filterMap_cons, owes, if_pos ⟨htwo, .inl hreleasing⟩, List.filterMap_nil]
        · have hother : m.content ≠ c := fun heq => htwo ((congrArg Content.qos heq).trans hc)
          rw [List.filterMap_cons, owes, if_neg fun hall => htwo hall.1, List.filterMap_nil,
            List.count_singleton, if_neg (by simpa using hother), List.count_nil]
      show (s.published ++ [m.content]).count c =
        s.forwarded.count c + (q.messages.filterMap (owes s.broker.held)).count c
      rw [hmessages, List.filterMap_append, List.count_append, List.count_append, howes]
      omega
    · intro c hc
      have hbefore := h.books.atLeast c hc
      have howes : ([m].filterMap (mayOwe s.down)).count c = [m.content].count c := by
        by_cases hone : m.qos = 1
        · rw [List.filterMap_cons, mayOwe, if_pos ⟨hone, hpuback⟩, List.filterMap_nil]
        · have hother : m.content ≠ c := fun heq => hone ((congrArg Content.qos heq).trans hc)
          rw [List.filterMap_cons, mayOwe, if_neg fun hall => hone hall.1, List.filterMap_nil,
            List.count_singleton, if_neg (by simpa using hother), List.count_nil]
      show (s.published ++ [m.content]).count c ≤
        s.forwarded.count c + (q.messages.filterMap (mayOwe s.down)).count c
      rw [hmessages, List.filterMap_append, List.count_append, List.count_append, howes]
      omega
    · intro c hc
      have hbefore := h.books.atMost c hc
      show s.forwarded.count c + (s.up ++ sent).countP (·.brings c) ≤
        (s.published ++ [m.content]).count c
      rw [countP_brings htokens hc, List.count_append]
      omega

theorem flown_waiting (h : m.qos = 1 ∨ m.qos = 2) : m.flown.Waiting := by
  show waitState m.qos m.state = _ ∨ waitState m.qos m.state = _
  rw [waitState]
  rcases h with hqos | hqos
  · exact .inl (if_pos hqos)
  · rw [if_neg (by omega)]
    exact .inr (if_pos hqos)

theorem OutMessage.Waiting.sent (h : m.Waiting) : m.state ≠ .invalid ∧ ¬ m.Releasing := by
  rw [OutMessage.Releasing]
  rcases h with hstate | hstate
  · simp [hstate]
  · simp [hstate]

theorem place_tokens (h : p.token ≠ none) : ∀ p' ∈ sends.place p, p'.token ≠ none := by
  intro p' hp'
  rwa [mem_place hp']

theorem added_content :
    (q.added c.topic c.payload c.qos c.retain).content = c := by
  rw [OutMessages.added]
  split_ifs <;> rfl

theorem Delivery.Ok.publish (h : s.Ok limit)
    (unused : mosquittoMidGenerate s.client.lastMid ∉ s.client.messages.map (·.mid)) :
    (s.publish sends c).Ok limit := by
  have hsound : (mosquittoPublish sends s.client c.topic c.payload c.qos c.retain).out.Sound :=
    sound_publish h.sound unused
  rw [Delivery.publish]
  rcases hcheck : publishCheck c.topic c.payload c.qos with e | ⟨⟩
  · have hsame : s.publish sends c = s := by
      rw [Delivery.publish, mosquittoPublish_refused hcheck, taken, hcheck]
      simp
    rwa [← Delivery.publish, hsame]
  have htaken : taken c.topic c.payload c.qos c.retain = [c] := by
    rw [taken, hcheck]
  rw [htaken]
  by_cases hqos : c.qos = 0
  · obtain ⟨hout, hpackets⟩ :=
      @mosquittoPublish_plain sends s.client c hcheck hqos
    rw [hout] at hsound
    rw [hout, hpackets]
    exact h.publishPlain hqos hsound
  · obtain ⟨hout, hpackets⟩ :=
      @mosquittoPublish_queued sends s.client c.topic c.payload c.qos c.retain hcheck hqos
    have hcontent : (s.client.added c.topic c.payload c.qos c.retain).content = c := added_content
    have hpublished := h.publishQueued sends
      (mosquittoPublish sends s.client c.topic c.payload c.qos c.retain).packets hsound
      (by rw [hout]; exact h.limit) (by rw [hout])
    rw [hcontent] at hpublished
    apply hpublished
    rw [hpackets, OutMessages.added]
    split_ifs with hfly
    · right
      refine ⟨flown_waiting ?_, rfl⟩
      have hle := publishCheck_qos hcheck
      show c.qos = 1 ∨ c.qos = 2
      omega
    · exact .inl ⟨rfl, rfl⟩

end Publish

/-! ## Answers -/

section Receive

variable {limit : Nat} {s : Delivery} {sends : Sends} {q : OutMessages} {m : OutMessage}
  {later : List MqttPacket} {p : MqttPacket} {mid : UInt16}

/-- An acknowledgement that the client takes away: the message goes, and one that waits may be
    sent instead. -/
theorem messageRemove_goes (h : q.Sound) (flying : q.Flying mid) :
    ∃ g : OutMessage → OutMessage,
      (messageRemove sends q mid).out.messages = (q.messages.filter fun m => m.mid ≠ mid).map g ∧
      (∀ m ∈ q.messages, m.Goes (g m) ∧ (m.state ≠ .invalid → g m = m) ∧
        (m.Phased → (g m).Phased)) ∧
      ((messageRemove sends q mid).packets = [] ∨
        ∃ b ∈ q.messages, b.mid ≠ mid ∧ b.state = .invalid ∧ (g b).Waiting ∧
          (messageRemove sends q mid).packets = sends.place (g b).packet) := by
  obtain ⟨-, g, hmessages, hcases⟩ := @messageRemove_eq sends q mid h flying
  refine ⟨g, hmessages, ?_, ?_⟩
  · rcases hcases with ⟨hsame, -⟩ | ⟨b, hb, -, hstate, hg, -⟩
    · intro m _
      rw [hsame m]
      exact ⟨.refl m, fun _ => rfl, id⟩
    · intro m hm
      rw [hg m hm]
      split_ifs with hmid
      · obtain rfl : m = b := List.inj_on_of_nodup_map h.mids hm hb hmid
        have hwaits := flown_waiting (h.qos m hm)
        have hflown := hwaits.sent.2
        have hnot : ¬ m.Releasing := by
          rw [OutMessage.Releasing, hstate]
          simp
        refine ⟨⟨rfl, rfl, fun hne => absurd hstate hne, iff_of_false hflown hnot⟩,
          fun hne => absurd hstate hne, fun _ => ⟨.inr (.inr (.inr (.inl hwaits))), ?_⟩⟩
        exact fun hrel => absurd hrel hflown
      · exact ⟨.refl m, fun _ => rfl, id⟩
  · rcases hcases with ⟨-, hpackets⟩ | ⟨b, hb, hmid, hstate, hg, hpackets⟩
    · exact .inl hpackets
    · have hgb : g b = b.flown := (hg b hb).trans (if_pos rfl)
      refine .inr ⟨b, hb, hmid, hstate, ?_, ?_⟩
      · rw [hgb]
        exact flown_waiting (h.qos b hb)
      · rw [hgb]
        exact hpackets

/-- The token of the packet that comes first is not on the way any more. -/
theorem Lanes.tokenDown {messages : List OutMessage} {held : List UInt16}
    {up down : List MqttPacket} (h : Lanes messages held up (p :: down))
    (htoken : p.token = some mid) :
    mid ∉ tokens up down := by
  have hperm : (up ++ p :: down).Perm (p :: (up ++ down)) := List.perm_middle
  have hsingle := h.single
  rw [tokens, (hperm.filterMap _).nodup_iff, List.filterMap_cons, htoken] at hsingle
  exact (List.nodup_cons.mp hsingle).1

theorem Lanes.tokenUp {messages : List OutMessage} {held : List UInt16}
    {up down : List MqttPacket} (h : Lanes messages held (p :: up) down)
    (htoken : p.token = some mid) :
    mid ∉ tokens up down := by
  have hsingle := h.single
  rw [tokens, List.cons_append, List.filterMap_cons, htoken] at hsingle
  exact (List.nodup_cons.mp hsingle).1

/-- The client receives the last answer for a message. -/
theorem Delivery.Ok.receiveLast (h : s.Ok limit) (comes : s.down = p :: later)
    (htoken : p.token = some mid) (hm : m ∈ s.client.messages) (hmid : m.mid = mid)
    (hstate : m.state ≠ .invalid) (hheld : mid ∉ s.broker.held)
    (hlast : m.qos = 1 ∧ p = .puback mid ∨ m.qos = 2 ∧ m.Releasing ∧ p = .pubcomp mid) :
    ({ s with
      client := (messageRemove sends s.client mid).out
      up := s.up ++ (messageRemove sends s.client mid).packets
      down := later } : Delivery).Ok limit := by
  have flying : s.client.Flying mid := ⟨m, hm, hmid, hstate⟩
  have hsound := (@messageRemove_eq sends s.client mid h.sound flying).1
  obtain ⟨g, hmessages, hg, hpackets⟩ := @messageRemove_goes sends s.client mid h.sound flying
  have hlanes := h.lanes
  rw [comes] at hlanes
  -- the answer was the one packet with this id
  have hgone := hlanes.tokenDown htoken
  have hkept : ∀ n ∈ s.client.messages, n.mid ≠ mid →
      g n ∈ (messageRemove sends s.client mid).out.messages := by
    intro n hn hne
    rw [hmessages]
    exact List.mem_map_of_mem (List.mem_filter.mpr ⟨hn, by simpa using hne⟩)
  refine ⟨hsound, ?_, ?_, h.holding, ?_, ?_, ?_⟩
  · show (messageRemove sends s.client mid).out.maxInflight = _
    rw [messageRemove_maxInflight]
    exact h.limit
  · show ∀ n ∈ (messageRemove sends s.client mid).out.messages, n.Phased
    rw [hmessages]
    intro n hn
    obtain ⟨k, hk, rfl⟩ := List.mem_map.mp hn
    have hk := List.mem_of_mem_filter hk
    exact (hg k hk).2.2 (h.phased k hk)
  · intro k hk
    obtain ⟨n, hn, hnmid, hnstate, hnqos, hcontent⟩ := h.holds k hk
    -- what the broker holds is another message, so it is still in the list
    have hne : n.mid ≠ mid := by
      rw [hnmid]
      rintro rfl
      exact hheld (List.mem_map_of_mem hk)
    obtain ⟨hgoes, -, -⟩ := hg n hn
    exact ⟨g n, hkept n hn hne, hgoes.mid.trans hnmid, hgoes.flies hnstate,
      hgoes.qos.trans hnqos, by rw [hgoes.content]; exact hcontent⟩
  · -- the messages on the way are in flight, so they stay what they are
    have hchanged : Lanes (messageRemove sends s.client mid).out.messages s.broker.held s.up
        later := by
      apply hlanes.tailDown.change hsound.mids _ fun _ _ => Iff.rfl
      intro n hn htokens
      have hne : n.mid ≠ mid := by
        rintro rfl
        exact hgone htokens
      obtain ⟨q, hq, hqtoken⟩ := List.mem_filterMap.mp htokens
      obtain ⟨k, hk, hkmid, hkstate, -⟩ := hlanes.tailDown.fits q hq n.mid hqtoken
      obtain rfl : k = n := List.inj_on_of_nodup_map h.sound.mids hk hn hkmid
      refine ⟨g k, hkept k hn hne, (hg k hn).1, ?_⟩
      rw [(hg k hn).2.1 hkstate]
      exact id
    -- the place it leaves is taken by a message that waited, whose PUBLISH is sent
    rcases hpackets with hnone | ⟨b, hb, hbmid, hbstate, hwaits, hpackets⟩
    · show Lanes _ _ (s.up ++ (messageRemove sends s.client mid).packets) later
      rw [hnone, List.append_nil]
      exact hchanged
    · show Lanes _ _ (s.up ++ (messageRemove sends s.client mid).packets) later
      have hgb := (hg b hb).1
      have hqos : (g b).qos ≠ 0 := by
        have hb := h.sound.qos b hb
        rw [hgb.qos]
        omega
      rw [hpackets]
      apply hchanged.sendOne (hkept b hb hbmid) hsound.mids rfl (OutMessage.packet_token hqos) _
        hwaits.sent.1 (OutMessage.packet_fits hwaits.sent.2) fun _ => hwaits
      rw [hgb.mid]
      intro htokens
      obtain ⟨q, hq, hqtoken⟩ := List.mem_filterMap.mp htokens
      obtain ⟨k, hk, hkmid, hkstate, -⟩ := hlanes.tailDown.fits q hq b.mid hqtoken
      obtain rfl : k = b := List.inj_on_of_nodup_map h.sound.mids hk hb hkmid
      exact hkstate hbstate
  · have hone : ∀ n ∈ s.client.messages, n.mid = mid → n = m := fun n hn hnmid =>
      List.inj_on_of_nodup_map h.sound.mids hn hm (hnmid.trans hmid.symm)
    refine h.books.follow ?_ ?_ ?_ ?_
    · show ∀ n ∈ (messageRemove sends s.client mid).out.messages, _
      rw [hmessages]
      intro n hn
      obtain ⟨k, hk, rfl⟩ := List.mem_map.mp hn
      have hk := List.mem_of_mem_filter hk
      exact ⟨k, hk, (hg k hk).1.content⟩
    · show (messageRemove sends s.client mid).out.messages.filterMap _ = _
      rw [hmessages]
      -- the message that goes is not owed any more: its content was handed on
      apply filterMap_kept
      intro n hn
      by_cases hnmid : n.mid = mid
      · rw [if_neg (by simpa using hnmid), hone n hn hnmid, owes, if_neg]
        rintro ⟨htwo, howed⟩
        rcases hlast with ⟨hqos, -⟩ | ⟨-, hrel, -⟩
        · omega
        · rw [hmid] at howed
          exact howed.elim (fun hnot => hnot hrel) hheld
      · rw [if_pos (by simpa using hnmid)]
        exact (owes_goes (hg n hn).1).symm
    · show List.Sublist _ ((messageRemove sends s.client mid).out.messages.filterMap (mayOwe later))
      rw [hmessages, List.filterMap_map, List.filterMap_filter]
      -- with the PUBACK gone from the way, its message has to be gone from the list
      apply filterMap_sublist
      intro n hn c hc
      rw [mayOwe] at hc
      split_ifs at hc with hcond
      obtain ⟨hqos, hnone⟩ := hcond
      rw [comes, List.mem_cons, not_or] at hnone
      have hnmid : n.mid ≠ mid := by
        intro hnmid
        rcases hlast with ⟨-, rfl⟩ | ⟨htwo, -, -⟩
        · exact hnone.1 (by rw [hnmid])
        · rw [← hone n hn hnmid] at htwo
          omega
      rw [if_pos (by simpa using hnmid), Function.comp_apply, mayOwe_goes (hg n hn).1, mayOwe,
        if_pos ⟨hqos, hnone.2⟩]
      exact hc
    · intro c hc
      apply le_of_eq
      apply countP_brings _ hc
      rcases hpackets with hnone | ⟨b, hb, -, -, -, hpackets⟩
      · rw [hnone]
        exact List.forall_mem_nil _
      · rw [hpackets]
        apply place_tokens
        have hqos := h.sound.qos b hb
        rw [OutMessage.packet_token]
        · exact Option.some_ne_none _
        · rw [(hg b hb).1.qos]
          omega

/-- The books, when messages go on in place. -/
theorem Books.inPlace {messages : List OutMessage} {held : List UInt16}
    {up up' down down' : List MqttPacket} {published forwarded : List Content}
    {g : OutMessage → OutMessage} (h : Books messages held up down published forwarded)
    (hdown : ∀ mid, .puback mid ∈ down' → .puback mid ∈ down)
    (hcontent : ∀ m ∈ messages, (g m).mid = m.mid ∧ (g m).content = m.content)
    (howes : ∀ m ∈ messages, owes held (g m) = owes held m)
    (hup : ∀ c : Content, c.qos = 0 → up'.countP (·.brings c) ≤ up.countP (·.brings c)) :
    Books (messages.map g) held up' down' published forwarded := by
  refine h.follow ?_ ?_ ?_ hup
  · intro n hn
    obtain ⟨k, hk, rfl⟩ := List.mem_map.mp hn
    exact ⟨k, hk, (hcontent k hk).2⟩
  · rw [List.filterMap_map]
    exact List.filterMap_congr howes
  · rw [List.filterMap_map]
    apply filterMap_sublist
    intro n hn c hc
    rw [mayOwe] at hc
    split_ifs at hc with hcond
    obtain ⟨hmid, hsame⟩ := hcontent n hn
    have hqos : (g n).qos = n.qos := congrArg Content.qos hsame
    rw [Function.comp_apply, mayOwe, hqos, hmid, hsame, if_pos]
    · exact hc
    · exact ⟨hcond.1, fun hmem => hcond.2 (hdown _ hmem)⟩

/-- The client receives a PUBREC. -/
theorem Delivery.Ok.receivePubrec (h : s.Ok limit) (comes : s.down = .pubrec mid :: later)
    (hm : m ∈ s.client.messages) (hmid : m.mid = mid) (hstate : m.state ≠ .invalid)
    (hqos : m.qos = 2) (hheld : mid ∈ s.broker.held) :
    ({ s with
      client := (handlePubrec sends s.client mid).out
      up := s.up ++ (handlePubrec sends s.client mid).packets
      down := later } : Delivery).Ok limit := by
  have hsound := @sound_pubrec sends s.client mid h.sound ⟨m, hm, hmid, hstate⟩
  have hmessages : (handlePubrec sends s.client mid).out.messages =
      s.client.messages.map (withState mid .waitForPubcomp) := messageOutUpdate_eq h.sound.mids
  have hlanes := h.lanes
  rw [comes] at hlanes
  have hgone := hlanes.tokenDown rfl
  have hother : ∀ n ∈ s.client.messages, n.mid ≠ mid →
      withState mid .waitForPubcomp n = n := fun n _ hne => if_neg hne
  have hthis : withState mid .waitForPubcomp m = { m with state := .waitForPubcomp } := if_pos hmid
  have hone : ∀ n ∈ s.client.messages, n.mid = mid → n = m := fun n hn hnmid =>
    List.inj_on_of_nodup_map h.sound.mids hn hm (hnmid.trans hmid.symm)
  have hcontent : ∀ n ∈ s.client.messages, (withState mid .waitForPubcomp n).mid = n.mid ∧
      (withState mid .waitForPubcomp n).content = n.content := by
    intro n _
    rw [withState]
    split_ifs
    · exact ⟨rfl, rfl⟩
    · exact ⟨rfl, rfl⟩
  -- only the state of the one message changes, and its PUBREL is sent
  refine ⟨hsound, h.limit, ?_, h.holding, ?_, ?_, ?_⟩
  · show ∀ n ∈ (handlePubrec sends s.client mid).out.messages, n.Phased
    rw [hmessages]
    intro n hn
    obtain ⟨k, hk, rfl⟩ := List.mem_map.mp hn
    by_cases hkmid : k.mid = mid
    · rw [hone k hk hkmid, hthis]
      exact ⟨.inr (.inr (.inr (.inr (.inl rfl)))), fun _ => hqos⟩
    · rw [hother k hk hkmid]
      exact h.phased k hk
  · intro k hk
    obtain ⟨n, hn, hnmid, hnstate, hnqos, hncontent⟩ := h.holds k hk
    have hmem : withState mid .waitForPubcomp n ∈ (handlePubrec sends s.client mid).out.messages := by
      rw [hmessages]
      exact List.mem_map_of_mem hn
    refine ⟨_, hmem, (hcontent n hn).1.trans hnmid, ?_, ?_, ?_⟩
    · rw [withState]
      split_ifs
      · exact MsgState.noConfusion
      · exact hnstate
    · exact (congrArg Content.qos (hcontent n hn).2).trans hnqos
    · rw [(hcontent n hn).2]
      exact hncontent
  · show Lanes (handlePubrec sends s.client mid).out.messages s.broker.held
      (s.up ++ sends.place (.pubrel mid)) later
    have hchanged : Lanes (handlePubrec sends s.client mid).out.messages s.broker.held s.up
        later := by
      apply hlanes.tailDown.change hsound.mids _ fun _ _ => Iff.rfl
      intro n hn htokens
      have hne : n.mid ≠ mid := by
        rintro rfl
        exact hgone htokens
      refine ⟨n, ?_, .refl n, id⟩
      rw [hmessages]
      exact List.mem_map.mpr ⟨n, hn, hother n hn hne⟩
    have hmem : ({ m with state := .waitForPubcomp } : OutMessage) ∈
        (handlePubrec sends s.client mid).out.messages := by
      rw [hmessages]
      exact List.mem_map.mpr ⟨m, hm, hthis⟩
    apply hchanged.sendOne hmem hsound.mids rfl
    · exact congrArg some hmid.symm
    · rw [hmid]
      exact hgone
    · exact MsgState.noConfusion
    · exact ⟨hqos, .inl rfl⟩
    · -- the CONNACK has come
      rintro (hconnect | ⟨result, hconnack⟩)
      · exact absurd (h.lanes.quiet hconnect) (by rw [comes]; exact List.cons_ne_nil _ _)
      · exact absurd hconnack (hlanes.first result)
  · have hbooks := h.books
    rw [comes] at hbooks
    show Books (handlePubrec sends s.client mid).out.messages s.broker.held
      (s.up ++ sends.place (.pubrel mid)) later s.published s.forwarded
    rw [hmessages]
    apply hbooks.inPlace (fun _ hmem => List.mem_cons_of_mem _ hmem) hcontent
    · -- it is owed as long as it is held
      intro n hn
      by_cases hnmid : n.mid = mid
      · have hmem : m.mid ∈ s.broker.held := hmid ▸ hheld
        rw [hone n hn hnmid, hthis, owes, owes, if_pos ⟨hqos, .inr hmem⟩, if_pos ⟨hqos, .inr hmem⟩]
        rfl
      · rw [hother n hn hnmid]
    · intro c hc
      apply le_of_eq
      exact countP_brings (place_tokens (Option.some_ne_none _)) hc

/-- What is sent again of a message. -/
theorem retryPacket_eq {held : List UInt16} (hphased : m.Phased) (hqos : m.qos = 1 ∨ m.qos = 2)
    (h : retryPacket m = some p) :
    p.upward = true ∧ p ≠ .connect ∧ p.token = some m.mid ∧ m.state ≠ .invalid ∧ ¬ m.Waiting ∧
      p.Fits held m := by
  have hzero : m.qos ≠ 0 := by omega
  rw [retryPacket] at h
  rw [OutMessage.Waiting]
  -- by the states a message can be in: those that wait for room are not sent again
  rcases hphased.states with hstate | hstate | hstate | (hstate | hstate) | (hstate | hstate)
  · simp [hstate] at h
  · rw [hstate] at h ⊢
    obtain rfl := Option.some.inj h
    refine ⟨rfl, MqttPacket.noConfusion, if_neg hzero, by decide, by decide, rfl, rfl, rfl, rfl, ?_⟩
    rw [OutMessage.Releasing, hstate]
    decide
  · rw [hstate] at h ⊢
    obtain rfl := Option.some.inj h
    refine ⟨rfl, MqttPacket.noConfusion, if_neg hzero, by decide, by decide, rfl, rfl, rfl, rfl, ?_⟩
    rw [OutMessage.Releasing, hstate]
    decide
  · simp [hstate] at h
  · simp [hstate] at h
  · have hreleasing : m.Releasing := .inl hstate
    rw [hstate] at h ⊢
    obtain rfl := Option.some.inj h
    exact ⟨rfl, MqttPacket.noConfusion, rfl, by decide, by decide, hphased.releasing hreleasing,
      hreleasing⟩
  · have hreleasing : m.Releasing := .inr hstate
    rw [hstate] at h ⊢
    obtain rfl := Option.some.inj h
    exact ⟨rfl, MqttPacket.noConfusion, rfl, by decide, by decide, hphased.releasing hreleasing,
      hreleasing⟩

/-- The packets of `message__retry_check`, each with its message. -/
theorem mem_retry {messages : List OutMessage}
    (h : p ∈ messages.flatMap fun m => (retryPacket m).elim [] sends.place) :
    ∃ m ∈ messages, retryPacket m = some p := by
  obtain ⟨m, hm, hp⟩ := List.mem_flatMap.mp h
  rcases hretry : retryPacket m with _ | p'
  · rw [hretry] at hp
    exact absurd hp List.not_mem_nil
  · have hplaced : p ∈ sends.place p' := by
      rw [hretry] at hp
      exact hp
    exact ⟨m, hm, by rw [hretry, mem_place hplaced]⟩

theorem retry_tokens {messages : List OutMessage}
    (htoken : ∀ m ∈ messages, ∀ p, retryPacket m = some p → p.token = some m.mid) :
    ((messages.flatMap fun m => (retryPacket m).elim [] sends.place).filterMap
      MqttPacket.token).Sublist (messages.map (·.mid)) := by
  -- every message puts at most one packet on the way, with its own id
  induction messages with
  | nil => exact List.Sublist.slnil
  | cons m messages ih =>
    have hrest := ih fun n hn => htoken n (List.mem_cons_of_mem _ hn)
    rw [List.flatMap_cons, List.filterMap_append, List.map_cons]
    rcases hretry : retryPacket m with _ | p
    · exact hrest.cons _
    · have hp := htoken m List.mem_cons_self p hretry
      show (List.filterMap MqttPacket.token (sends.place p) ++ _).Sublist _
      rcases place_cases sends p with hnone | hone
      · rw [hnone]
        exact hrest.cons _
      · rw [hone, List.filterMap_cons, hp]
        exact hrest.cons_cons _

/-- What `message__retry_check` makes of a message. -/
def retried (m : OutMessage) : OutMessage :=
  if (retryPacket m).isSome then { m with dup := true } else m

theorem retried_goes : m.Goes (retried m) ∧ (m.Waiting → (retried m).Waiting) ∧
    (m.Phased → (retried m).Phased) := by
  rw [retried]
  split_ifs
  · exact ⟨⟨rfl, rfl, id, Iff.rfl⟩, id, fun h => ⟨h.states, h.releasing⟩⟩
  · exact ⟨.refl m, id, id⟩

/-- The client receives a CONNACK. -/
theorem Delivery.Ok.receiveConnack {result : UInt8} (h : s.Ok limit)
    (comes : s.down = .connack result :: later) :
    ({ s with
      client := (handleConnack sends s.client result).out
      up := s.up ++ (handleConnack sends s.client result).packets
      down := later } : Delivery).Ok limit := by
  have hsound := @sound_connack sends s.client result h.sound
  have hlanes := h.lanes
  have hbooks := h.books
  rw [comes] at hlanes hbooks
  have hconnect : .connect ∉ s.up := fun hmem => List.cons_ne_nil _ _ (hlanes.quiet hmem)
  by_cases hzero : result = 0
  -- accepted: `message__retry_check` sends again what is in flight
  · have hmessages : (handleConnack sends s.client result).out.messages =
        s.client.messages.map retried := by
      rw [handleConnack, if_pos hzero]
      rfl
    have hpackets : (handleConnack sends s.client result).packets =
        s.client.messages.flatMap fun m => (retryPacket m).elim [] sends.place := by
      rw [handleConnack, if_pos hzero]
      rfl
    have hlimit : (handleConnack sends s.client result).out.maxInflight = s.client.maxInflight := by
      rw [handleConnack, if_pos hzero]
      rfl
    have hretry : ∀ n ∈ s.client.messages, ∀ p, retryPacket n = some p →
        p.upward = true ∧ p ≠ .connect ∧ p.token = some n.mid ∧ n.state ≠ .invalid ∧ ¬ n.Waiting ∧
          p.Fits s.broker.held n := fun n hn p hp =>
      retryPacket_eq (h.phased n hn) (h.sound.qos n hn) hp
    have hkept : ∀ n ∈ s.client.messages,
        retried n ∈ (handleConnack sends s.client result).out.messages := by
      intro n hn
      rw [hmessages]
      exact List.mem_map_of_mem hn
    have hchanged : Lanes (handleConnack sends s.client result).out.messages s.broker.held s.up
        later :=
      hlanes.tailDown.change hsound.mids
        (fun n hn _ => ⟨retried n, hkept n hn, retried_goes.1, retried_goes.2.1⟩) fun _ _ => Iff.rfl
    have htokens := @retry_tokens sends s.client.messages fun n hn p hp => (hretry n hn p hp).2.2.1
    refine ⟨hsound, hlimit.trans h.limit, ?_, h.holding, ?_, ?_, ?_⟩
    · show ∀ n ∈ (handleConnack sends s.client result).out.messages, n.Phased
      rw [hmessages]
      intro n hn
      obtain ⟨k, hk, rfl⟩ := List.mem_map.mp hn
      exact retried_goes.2.2 (h.phased k hk)
    · intro k hk
      obtain ⟨n, hn, hnmid, hnstate, hnqos, hncontent⟩ := h.holds k hk
      obtain ⟨hgoes, -, -⟩ := @retried_goes n
      exact ⟨retried n, hkept n hn, hgoes.mid.trans hnmid, hgoes.flies hnstate,
        hgoes.qos.trans hnqos, by rw [hgoes.content]; exact hncontent⟩
    · show Lanes _ _ (s.up ++ (handleConnack sends s.client result).packets) later
      rw [hpackets]
      refine hchanged.send ?_ ?_ ?_ ?_ ?_ ?_
      · intro p hp
        obtain ⟨n, hn, hnp⟩ := mem_retry hp
        exact (hretry n hn p hnp).1
      · intro hmem
        obtain ⟨n, hn, hnp⟩ := mem_retry hmem
        exact (hretry n hn _ hnp).2.1 rfl
      · exact List.Nodup.sublist htokens h.sound.mids
      · -- what is on the way was sent since the last CONNECT, so it is not sent again
        intro mid hmid hlane
        obtain ⟨p, hp, hptoken⟩ := List.mem_filterMap.mp hmid
        obtain ⟨n, hn, hnp⟩ := mem_retry hp
        obtain ⟨-, -, hntoken, -, hwaits, -⟩ := hretry n hn p hnp
        obtain ⟨q, hq, hqtoken⟩ := List.mem_filterMap.mp hlane
        apply hwaits
        have hgreets : MqttPacket.connack result ∈ MqttPacket.connack result :: later :=
          List.mem_cons_self
        apply hlanes.fresh (.inr ⟨result, hgreets⟩) q _ n hn
          (hqtoken.trans (hptoken.symm.trans hntoken))
        rw [sinceConnect_of_notMem hconnect]
        exact (List.mem_append.mp hq).elim (List.mem_append_left _)
          fun hq => List.mem_append_right _ (List.mem_cons_of_mem _ hq)
      · intro p hp mid hptoken
        obtain ⟨n, hn, hnp⟩ := mem_retry hp
        obtain ⟨-, -, hntoken, hnstate, -, hfits⟩ := hretry n hn p hnp
        obtain ⟨hgoes, -, -⟩ := @retried_goes n
        refine ⟨retried n, hkept n hn, ?_, hgoes.flies hnstate, hfits.goes hgoes fun _ _ => Iff.rfl⟩
        exact hgoes.mid.trans (Option.some.inj (hntoken.symm.trans hptoken))
      · rintro (hmem | ⟨result', hmem⟩)
        · exact absurd hmem hconnect
        · exact absurd hmem (hlanes.first result')
    · show Books (handleConnack sends s.client result).out.messages s.broker.held
        (s.up ++ (handleConnack sends s.client result).packets) later s.published s.forwarded
      rw [hmessages]
      apply hbooks.inPlace (fun _ hmem => List.mem_cons_of_mem _ hmem)
        (fun n _ => ⟨retried_goes.1.mid, retried_goes.1.content⟩)
        fun n _ => owes_goes retried_goes.1
      intro c hc
      apply le_of_eq
      apply countP_brings _ hc
      rw [hpackets]
      intro p hp
      obtain ⟨n, hn, hnp⟩ := mem_retry hp
      rw [(hretry n hn p hnp).2.2.1]
      exact Option.some_ne_none _
  -- refused: the client keeps all its messages and sends nothing
  · have hout : (handleConnack sends s.client result).out = s.client ∧
        (handleConnack sends s.client result).packets = [] := by
      rw [handleConnack, if_neg hzero]
      split_ifs
      · exact ⟨rfl, rfl⟩
      · exact ⟨rfl, rfl⟩
    rw [hout.1, hout.2, List.append_nil]
    refine ⟨h.sound, h.limit, h.phased, h.holding, h.holds, hlanes.tailDown, ?_⟩
    refine h.books.follow (fun m hm => ⟨m, hm, rfl⟩) rfl ?_ fun _ _ => le_rfl
    apply mayOwe_sublist
    intro mid hmem
    rw [comes]
    exact List.mem_cons_of_mem _ hmem

theorem Delivery.Ok.receive (h : s.Ok limit) (comes : s.down = p :: later) :
    (s.receive sends p later).Ok limit := by
  have hp : p ∈ s.up ++ s.down := by
    rw [comes]
    exact List.mem_append_right _ List.mem_cons_self
  have hdown : p.upward = false := by
    apply h.lanes.downward
    rw [comes]
    exact List.mem_cons_self
  cases p with
  | connack result => exact h.receiveConnack comes
  | puback mid =>
    obtain ⟨m, hm, hmid, hstate, hqos⟩ := h.lanes.fits _ hp mid rfl
    have hqos : m.qos = 1 := hqos
    have hheld : mid ∉ s.broker.held := by
      intro hmem
      obtain ⟨k, hk, hkmid⟩ := List.mem_map.mp hmem
      obtain ⟨n, hn, hnmid, -, htwo, -⟩ := h.holds k hk
      obtain rfl : n = m :=
        List.inj_on_of_nodup_map h.sound.mids hn hm (hnmid.trans (hkmid.trans hmid.symm))
      omega
    exact h.receiveLast comes rfl hm hmid hstate hheld (.inl ⟨hqos, rfl⟩)
  | pubrec mid =>
    obtain ⟨m, hm, hmid, hstate, hqos, hheld, -⟩ := h.lanes.fits _ hp mid rfl
    exact h.receivePubrec comes hm hmid hstate hqos hheld
  | pubcomp mid =>
    obtain ⟨m, hm, hmid, hstate, hqos, hheld, hreleasing⟩ := h.lanes.fits _ hp mid rfl
    exact h.receiveLast comes rfl hm hmid hstate hheld (.inr ⟨hqos, hreleasing, rfl⟩)
  | connect => exact absurd hdown.symm Bool.false_ne_true
  | publish p => exact absurd hdown.symm Bool.false_ne_true
  | pubrel mid => exact absurd hdown.symm Bool.false_ne_true

end Receive

/-! ## Connecting again -/

/-- What `message__reconnect_reset` makes of a message. -/
def resetMessage (m : OutMessage) : OutMessage :=
  if m.state = .invalid then m else { m with state := resetState m.qos m.state }

theorem resetMessage_same (m : OutMessage) : (resetMessage m).mid = m.mid ∧
    (resetMessage m).content = m.content ∧ (resetMessage m).qos = m.qos := by
  rw [resetMessage]
  split_ifs
  · exact ⟨rfl, rfl, rfl⟩
  · exact ⟨rfl, rfl, rfl⟩

theorem resetMessage_releasing {m : OutMessage} (hqos : m.qos = 1 ∨ m.qos = 2)
    (hphased : m.Phased) :
    ((resetMessage m).Releasing ↔ m.Releasing) ∧ (resetMessage m).Phased := by
  have hkeeps : ∀ m' : OutMessage, m'.qos = m.qos → (m'.Releasing ↔ m.Releasing) →
      (m'.state = .publishQos1 ∨ m'.state = .publishQos2 ∨ m'.Waiting ∨ m'.Releasing) →
      (m'.Releasing ↔ m.Releasing) ∧ m'.Phased := fun m' hq hr hs =>
    ⟨hr, .inr hs, fun hrel => hq.trans (hphased.releasing (hr.mp hrel))⟩
  rw [resetMessage]
  split_ifs with hstate
  · exact ⟨Iff.rfl, hphased⟩
  apply hkeeps { m with state := resetState m.qos m.state } rfl
  · show (resetState m.qos m.state = _ ∨ resetState m.qos m.state = _) ↔ m.Releasing
    rcases hqos with hone | htwo
    · have hnot : ¬ m.Releasing := fun hrel => by
        have := hphased.releasing hrel
        omega
      rw [resetState, if_pos hone]
      exact iff_of_false (by decide) hnot
    · rw [resetState, if_neg (by omega), if_pos htwo, OutMessage.Releasing]
      rcases hphased.states with hs | hs | hs | (hs | hs) | (hs | hs)
      · exact absurd hs hstate
      all_goals
        rw [hs]
        decide
  · show resetState m.qos m.state = _ ∨ resetState m.qos m.state = _ ∨
      (resetState m.qos m.state = _ ∨ resetState m.qos m.state = _) ∨
      (resetState m.qos m.state = _ ∨ resetState m.qos m.state = _)
    rcases hqos with hone | htwo
    · exact .inl (if_pos hone)
    · rw [resetState, if_neg (by omega), if_pos htwo]
      rcases hphased.states with hs | hs | hs | (hs | hs) | (hs | hs)
      · exact absurd hs hstate
      all_goals
        rw [hs]
        decide

theorem messageReconnectReset_map {q : OutMessages} (h : q.Sound) :
    (messageReconnectReset q).messages = q.messages.map resetMessage := by
  obtain ⟨front, back, hsplit, -, hwindow⟩ := h.window
  have hfront : front.map (fun m => { m with state := resetState m.qos m.state }) =
      front.map resetMessage :=
    List.map_congr_left fun m hm => (if_neg (hwindow.flies m hm)).symm
  have hback : back.map resetMessage = back := by
    conv_rhs => rw [← List.map_id back]
    exact List.map_congr_left fun m hm => if_pos (hwindow.waits m hm)
  rw [messageReconnectReset_eq hsplit hwindow h.qos, hsplit, List.map_append, hback]
  dsimp only
  rw [hfront]

theorem Delivery.Ok.reconnect {limit : Nat} {s : Delivery} {kept : List MqttPacket} (h : s.Ok limit)
    (reads : kept <+: s.up) : (s.reconnect kept).Ok limit := by
  have hmessages := messageReconnectReset_map h.sound
  have hgoes : ∀ m ∈ s.client.messages, m.Goes (resetMessage m) := by
    intro m hm
    obtain ⟨hmid, hcontent, -⟩ := resetMessage_same m
    refine ⟨hmid, hcontent, ?_, (resetMessage_releasing (h.sound.qos m hm) (h.phased m hm)).1⟩
    intro hstate
    rw [resetMessage, if_neg hstate]
    exact resetState_ne_invalid hstate
  have hkept : ∀ m ∈ s.client.messages,
      resetMessage m ∈ (messageReconnectReset s.client).messages := by
    intro m hm
    rw [hmessages]
    exact List.mem_map_of_mem hm
  refine ⟨sound_reconnect h.sound, h.limit, ?_, h.holding, ?_, ?_, ?_⟩
  · show ∀ m ∈ (messageReconnectReset s.client).messages, m.Phased
    rw [hmessages]
    intro m hm
    obtain ⟨n, hn, rfl⟩ := List.mem_map.mp hm
    exact (resetMessage_releasing (h.sound.qos n hn) (h.phased n hn)).2
  · intro k hk
    obtain ⟨m, hm, hmid, hstate, hqos, hcontent⟩ := h.holds k hk
    have hg := hgoes m hm
    exact ⟨resetMessage m, hkept m hm, hg.mid.trans hmid, hg.flies hstate, hg.qos.trans hqos,
      by rw [hg.content]; exact hcontent⟩
  · exact h.lanes.reopen reads fun m hm => ⟨resetMessage m, hkept m hm, hgoes m hm⟩
  · show Books (messageReconnectReset s.client).messages s.broker.held (kept ++ [.connect]) []
      s.published s.forwarded
    rw [hmessages]
    apply h.books.inPlace (fun _ hmem => absurd hmem List.not_mem_nil)
      (fun m hm => ⟨(hgoes m hm).mid, (hgoes m hm).content⟩) fun m hm => owes_goes (hgoes m hm)
    intro c _
    rw [List.countP_append]
    exact reads.sublist.countP_le

end WeeveMQ
