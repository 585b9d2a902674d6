/-
  WeeveMQ.ExactlyOnce

  The steps of the broker in `Delivery`, and what follows for the messages that are
  published.

  - `Delivery.Ok.serve`: the broker keeps what `DeliveryBooks` says.
  - `delivery_exact`: in every run each message is handed to the subscribers as often
    as its QoS promises.
-/

import WeeveMQ.DeliveryBooks

namespace WeeveMQ

/-! ## At the broker -/

section Serve

variable {limit : Nat} {s : Delivery} {env : DbEnv} {m : OutMessage} {messages : List OutMessage}
  {held : List UInt16} {up down later : List MqttPacket} {p : MqttPacket} {mid : UInt16}

/-- The broker answers for a message that has no packet on the way. -/
theorem Lanes.answerOne (h : Lanes messages held up down) (hm : m ∈ messages)
    (hmids : (messages.map (·.mid)).Nodup) (hdown : p.upward = false) (htoken : p.token = some m.mid)
    (hnew : m.mid ∉ tokens up down) (hstate : m.state ≠ .invalid) (hfits : p.Fits held m)
    (hwaits : (∃ result, .connack result ∈ down) → m.Waiting) :
    Lanes messages held up (if .connect ∈ up then [] else down ++ env.sends.place p) := by
  have hp : ∀ p' ∈ env.sends.place p, p' = p := fun _ => mem_place
  refine h.answer ?_ ?_ ?_ ?_ ?_ ?_
  · intro p' hp'
    rw [hp p' hp']
    exact hdown
  · intro result hmem
    rw [← hp _ hmem] at htoken
    exact Option.some_ne_none _ htoken.symm
  · rcases place_cases env.sends p with hnone | hone
    · rw [hnone]
      exact List.nodup_nil
    · rw [hone, List.filterMap_cons, htoken]
      exact List.nodup_singleton _
  · intro mid hmid
    obtain ⟨p', hp', htoken'⟩ := List.mem_filterMap.mp hmid
    rw [hp p' hp', htoken] at htoken'
    rwa [← Option.some.inj htoken']
  · intro p' hp' mid htoken'
    rw [hp p' hp'] at htoken' ⊢
    exact ⟨m, hm, Option.some.inj (htoken.symm.trans htoken'), hstate, hfits⟩
  · intro hgreets p' hp' n hn htoken'
    rw [hp p' hp', htoken] at htoken'
    obtain rfl : m = n := List.inj_on_of_nodup_map hmids hm hn (Option.some.inj htoken')
    exact hwaits hgreets

/-- What the broker reads before the client has its CONNACK is new. -/
theorem Lanes.headWaits (h : Lanes messages held (p :: up) down) (hm : m ∈ messages)
    (htoken : p.token = some m.mid) (hgreets : ∃ result, .connack result ∈ down) : m.Waiting := by
  apply h.fresh (.inr hgreets) p _ m hm htoken
  rw [sinceConnect_of_notMem]
  · exact List.mem_append_left _ List.mem_cons_self
  · intro hmem
    obtain ⟨result, hr⟩ := hgreets
    rw [h.quiet hmem] at hr
    exact List.not_mem_nil hr

/-- What is left to show of a step of the broker. -/
theorem Delivery.Ok.serveAs (h : s.Ok limit) (step : DbStep)
    (hholding : step.context.Holding)
    (hholds : ∀ k ∈ step.context.inflight, ∃ m ∈ s.client.messages,
      m.mid = k.mid ∧ m.state ≠ .invalid ∧ m.qos = 2 ∧ k.content = some m.content)
    (hlanes : Lanes s.client.messages step.context.held later
      (if .connect ∈ later then [] else s.down ++ step.packets))
    (hbooks : Books s.client.messages step.context.held later
      (if .connect ∈ later then [] else s.down ++ step.packets) s.published
      (s.forwarded ++ step.forwarded)) :
    (s.servedBy step later).Ok limit := by
  rw [Delivery.servedBy]
  by_cases hrc : step.rc = 0
  · rw [if_pos hrc]
    exact ⟨h.sound, h.limit, h.phased, hholding, hholds, hlanes, hbooks⟩
  · rw [if_neg hrc]
    exact ⟨h.sound, h.limit, h.phased, ⟨hholding.queued, hholding.incoming, hholding.mids,
      hholding.count⟩, hholds, hlanes, hbooks⟩

/-- The broker hands something on. -/
theorem Books.hand {published forwarded handed : List Content} {held' : List UInt16}
    {up' down' : List MqttPacket} (h : Books messages held up down published forwarded)
    (hknown : ∀ c ∈ handed, c ∈ published)
    (hexactly : ∀ c, c.qos = 2 → (messages.filterMap (owes held)).count c =
      handed.count c + (messages.filterMap (owes held')).count c)
    (hatLeast : ∀ c, c.qos = 1 → (messages.filterMap (mayOwe down)).count c ≤
      handed.count c + (messages.filterMap (mayOwe down')).count c)
    (hatMost : ∀ c, c.qos = 0 →
      handed.count c + up'.countP (·.brings c) ≤ up.countP (·.brings c)) :
    Books messages held' up' down' published (forwarded ++ handed) where
  known := h.known
  honest c hc := (List.mem_append.mp hc).elim (h.honest c) (hknown c)
  exactly c hc := by
    have hbefore := h.exactly c hc
    have hmoved := hexactly c hc
    rw [List.count_append]
    omega
  atLeast c hc := by
    have hbefore := h.atLeast c hc
    have hmoved := hatLeast c hc
    rw [List.count_append]
    omega
  atMost c hc := by
    have hbefore := h.atMost c hc
    have hmoved := hatMost c hc
    rw [List.count_append]
    omega

/-- Without a PUBACK nothing is settled with QoS 1. -/
theorem count_mayOwe_quiet {sent : List MqttPacket} (hsent : ∀ mid, .puback mid ∉ sent)
    (c : Content) :
    (messages.filterMap (mayOwe down)).count c ≤ (messages.filterMap
      (mayOwe (if .connect ∈ later then [] else down ++ sent))).count c := by
  apply (mayOwe_sublist _).count_le
  intro mid hmem
  split_ifs at hmem
  · exact absurd hmem List.not_mem_nil
  · exact (List.mem_append.mp hmem).resolve_right (hsent mid)

theorem count_other {c c' : Content} (h : c.qos ≠ c'.qos) : [c].count c' = 0 := by
  rw [List.count_singleton, if_neg]
  intro heq
  apply h
  rw [beq_iff_eq.mp heq]

/-- The content of a packet that is read is not in the lane any more. -/
theorem countP_tail (c : Content) : later.countP (·.brings c) ≤ (p :: later).countP (·.brings c) :=
  (List.sublist_cons_self p later).countP_le

/-- A packet is read, and nothing is handed on. -/
theorem Books.handNothing {published forwarded : List Content} {held' : List UInt16}
    {sent : List MqttPacket} (h : Books messages held (p :: later) down published forwarded)
    (howes : messages.filterMap (owes held') = messages.filterMap (owes held))
    (hsent : ∀ mid, .puback mid ∉ sent) :
    Books messages held' later (if .connect ∈ later then [] else down ++ sent) published
      (forwarded ++ []) := by
  refine h.hand (List.forall_mem_nil _) ?_ ?_ ?_
  · intro c _
    rw [howes, List.count_nil, Nat.zero_add]
  · intro c _
    rw [List.count_nil, Nat.zero_add]
    exact count_mayOwe_quiet hsent c
  · intro c _
    rw [List.count_nil, Nat.zero_add]
    exact countP_tail c

/-- The broker reads a packet that changes nothing and answers with none. -/
theorem Delivery.Ok.serveNothing (h : s.Ok limit) (comes : s.up = p :: later) (rc : Nat) :
    (s.servedBy { context := s.broker, effects := [], rc := rc } later).Ok limit := by
  have hlanes := h.lanes
  have hbooks := h.books
  rw [comes] at hlanes hbooks
  apply h.serveAs { context := s.broker, effects := [], rc := rc } h.holding h.holds
  · apply hlanes.tailUp.answer (List.forall_mem_nil _) (fun _ => List.not_mem_nil) List.nodup_nil
    · exact List.forall_mem_nil _
    · exact List.forall_mem_nil _
    · exact fun _ => List.forall_mem_nil _
  · exact hbooks.handNothing rfl fun _ => List.not_mem_nil

theorem place_puback {a : MqttPacket} (h : .puback mid ≠ a) : .puback mid ∉ env.sends.place a := by
  exact fun hmem => h (mem_place hmem)

theorem Delivery.Ok.serveConnect (h : s.Ok limit) (comes : s.up = .connect :: later) :
    (s.serve env .connect later).Ok limit := by
  obtain ⟨hinflight, hholding, hforwarded, hpackets⟩ := @takeOver_eq env s.broker h.holding
  have hlanes := h.lanes
  have hbooks := h.books
  rw [comes] at hlanes hbooks
  have hheld : (takeOver env s.broker false false).context.held = s.broker.held := by
    rw [Context.held, hinflight]
    rfl
  apply h.serveAs (takeOver env s.broker false false) hholding
  · rw [hinflight]
    exact h.holds
  · rw [hheld, hpackets]
    exact hlanes.accept (place_cases _ _)
  · rw [hheld, hpackets, hforwarded]
    apply hbooks.handNothing rfl
    exact fun mid => place_puback fun heq => MqttPacket.noConfusion heq

theorem MqttPacket.Fits.content {p : PublishPacket}
    (h : (MqttPacket.publish p).Fits held m) :
    (⟨p.topic, p.payload, p.qos, p.retain⟩ : Content) = m.content := by
  obtain ⟨hqos, hmtopic, hpayload, hretain, -⟩ := h
  have hbrings := publish_brings p m.content
  have hsame : (MqttPacket.publish p).brings m.content = true :=
    decide_eq_true ⟨hmtopic, hpayload, hqos, hretain⟩
  rw [hsame] at hbrings
  exact of_decide_eq_true hbrings.symm

/-- A PUBLISH with QoS 0 is handed on. -/
theorem Delivery.Ok.servePlain (h : s.Ok limit) {p : PublishPacket}
    (comes : s.up = .publish p :: later) (admits : env.Admits limit (.publish p))
    (hqos : p.qos = 0) :
    (s.servedBy (handlePublish env s.broker s.nextId p) later).Ok limit := by
  obtain ⟨hcontext, hforwarded, hpackets⟩ := @handlePublish_low env limit s.broker s.nextId p
    admits h.holding (.inl hqos) fun hone => by omega
  rw [if_neg (by omega)] at hpackets
  have hlanes := h.lanes
  have hbooks := h.books
  rw [comes] at hlanes hbooks
  apply h.serveAs
  · rw [hcontext]
    exact h.holding
  · rw [hcontext]
    exact h.holds
  · rw [hcontext, hpackets]
    apply hlanes.tailUp.answer (List.forall_mem_nil _) (fun _ => List.not_mem_nil) List.nodup_nil
    · exact List.forall_mem_nil _
    · exact List.forall_mem_nil _
    · exact fun _ => List.forall_mem_nil _
  · rw [hcontext, hpackets, hforwarded]
    have hbrings := publish_brings p
    refine hbooks.hand ?_ ?_ ?_ ?_
    · -- it was in the lane
      intro c hc
      rw [List.mem_singleton] at hc
      have hcount := hbooks.atMost c (by rw [hc]; exact hqos)
      rw [List.countP_cons_of_pos (by rw [hbrings, hc]; simp)] at hcount
      exact List.count_pos_iff.mp (by omega)
    · intro c hc
      have hother : p.qos ≠ c.qos := by omega
      rw [count_other hother, Nat.zero_add]
    · intro c hc
      have hother : p.qos ≠ c.qos := by omega
      rw [count_other hother, Nat.zero_add]
      exact count_mayOwe_quiet (fun _ => List.not_mem_nil) c
    · intro c _
      rw [List.countP_cons, hbrings, List.count_singleton]
      by_cases hsame : (⟨p.topic, p.payload, p.qos, p.retain⟩ : Content) = c
      · rw [if_pos (by simpa using hsame), if_pos (by simpa using hsame)]
        omega
      · rw [if_neg (by simpa using hsame), if_neg (by simpa using hsame)]
        omega

/-- A PUBLISH with QoS 1 is handed on, once more when its PUBACK was lost. -/
theorem Delivery.Ok.serveQos1 (h : s.Ok limit) {p : PublishPacket}
    (comes : s.up = .publish p :: later) (admits : env.Admits limit (.publish p))
    (hqos : p.qos = 1) :
    (s.servedBy (handlePublish env s.broker s.nextId p) later).Ok limit := by
  have hlanes := h.lanes
  have hbooks := h.books
  rw [comes] at hlanes hbooks
  have htoken : (MqttPacket.publish p).token = some p.mid := if_neg (by omega)
  obtain ⟨m, hm, hmid, hstate, hfits⟩ := hlanes.fits _ List.mem_cons_self p.mid htoken
  have hmqos := hfits.1
  -- what is held has QoS 2, so the broker does not hold this id
  have hnew : p.mid ∉ s.broker.held := by
    intro hmem
    obtain ⟨k, hk, hkmid⟩ := List.mem_map.mp hmem
    obtain ⟨n, hn, hnmid, -, htwo, -⟩ := h.holds k hk
    obtain rfl : n = m :=
      List.inj_on_of_nodup_map h.sound.mids hn hm (hnmid.trans (hkmid.trans hmid.symm))
    omega
  obtain ⟨hcontext, hforwarded, hpackets⟩ := @handlePublish_low env limit s.broker s.nextId p
    admits h.holding (.inr hqos) fun _ => hnew
  rw [if_pos hqos] at hpackets
  rw [hfits.content] at hforwarded
  have hgone := hlanes.tokenUp htoken
  rw [← hmid] at hgone hpackets
  apply h.serveAs
  · rw [hcontext]
    exact h.holding
  · rw [hcontext]
    exact h.holds
  · rw [hcontext, hpackets]
    exact hlanes.tailUp.answerOne hm h.sound.mids rfl rfl hgone hstate (hmqos.symm.trans hqos)
      (hlanes.headWaits hm (htoken.trans (by rw [hmid])))
  · rw [hcontext, hpackets, hforwarded]
    refine hbooks.hand ?_ ?_ ?_ ?_
    · intro c hc
      rw [List.mem_singleton.mp hc]
      exact hbooks.known m hm
    · intro c hc
      have hother : m.content.qos ≠ c.qos := by
        show m.qos ≠ c.qos
        omega
      rw [count_other hother, Nat.zero_add]
    · intro c hc
      -- the PUBACK settles this message only; the others may owe what they did
      have hothers : ∀ n ∈ s.client.messages, n.mid ≠ m.mid →
          mayOwe (if .connect ∈ later then [] else s.down ++ env.sends.place (.puback m.mid)) n =
            mayOwe s.down n := by
        intro n _ hne
        have hsame : .puback n.mid ∈ (if .connect ∈ later then []
            else s.down ++ env.sends.place (.puback m.mid)) ↔ .puback n.mid ∈ s.down := by
          split_ifs with hconnect
          · rw [hlanes.tailUp.quiet hconnect]
          · rw [List.mem_append, or_iff_left]
            exact place_puback fun heq => hne (MqttPacket.puback.inj heq)
        simp only [mayOwe, hsame]
      have hchange := count_filterMap_change (c := c) hm h.sound.mids hothers
      have hthis : (mayOwe s.down m).toList.count c ≤ [m.content].count c := by
        rw [mayOwe]
        split_ifs
        · exact le_rfl
        · exact Nat.zero_le _
      omega
    · intro c hc
      have hother : m.content.qos ≠ c.qos := by
        show m.qos ≠ c.qos
        omega
      rw [count_other hother, Nat.zero_add]
      exact countP_tail c

/-- A PUBLISH with QoS 2 that is held already is answered once more. -/
theorem Delivery.Ok.serveKnown (h : s.Ok limit) {p : PublishPacket}
    (comes : s.up = .publish p :: later) (admits : env.Admits limit (.publish p)) (hqos : p.qos = 2)
    (hheld : p.mid ∈ s.broker.held) :
    (s.servedBy (handlePublish env s.broker s.nextId p) later).Ok limit := by
  have hlanes := h.lanes
  have hbooks := h.books
  rw [comes] at hlanes hbooks
  have htoken : (MqttPacket.publish p).token = some p.mid := if_neg (by omega)
  obtain ⟨m, hm, hmid, hstate, hmqos, -, -, -, hreleasing⟩ :=
    hlanes.fits _ List.mem_cons_self p.mid htoken
  obtain ⟨hcontext, hforwarded, hpackets⟩ := @handlePublish_known env limit s.broker s.nextId p
    admits h.holding hqos hheld
  -- the content was taken already, so only the PUBREC is sent again
  have hgone := hlanes.tokenUp htoken
  rw [← hmid] at hgone hpackets hheld
  apply h.serveAs
  · rw [hcontext]
    exact h.holding
  · rw [hcontext]
    exact h.holds
  · rw [hcontext, hpackets]
    exact hlanes.tailUp.answerOne hm h.sound.mids rfl rfl hgone hstate
      ⟨hmqos.symm.trans hqos, hheld, hreleasing⟩
      (hlanes.headWaits hm (htoken.trans (by rw [hmid])))
  · rw [hcontext, hpackets, hforwarded]
    exact hbooks.handNothing rfl fun mid => place_puback fun heq => MqttPacket.noConfusion heq

/-- The broker holds fewer messages than the client has in flight. -/
theorem Delivery.Ok.held_lt (h : s.Ok limit) (hm : m ∈ s.client.messages)
    (hstate : m.state ≠ .invalid) (hnew : m.mid ∉ s.broker.held) (hlimit : 0 < limit) :
    s.broker.inflight.length < limit := by
  obtain ⟨front, back, hsplit, -, hwindow⟩ := h.sound.window
  have hfront : ∀ n ∈ s.client.messages, n.state ≠ .invalid → n ∈ front := by
    intro n hn hnstate
    rw [hsplit] at hn
    rcases List.mem_append.mp hn with hn | hn
    · exact hn
    · exact absurd (hwindow.waits n hn) hnstate
  -- what is held is in flight at the client, and so is `m`, which is not held
  have hids : (m.mid :: s.broker.held).Subperm (front.map (·.mid)) := by
    apply List.subperm_of_subset (List.nodup_cons.mpr ⟨hnew, h.holding.mids⟩)
    intro mid hmid
    rcases List.mem_cons.mp hmid with rfl | hmid
    · exact List.mem_map_of_mem (hfront m hm hstate)
    · obtain ⟨k, hk, rfl⟩ := List.mem_map.mp hmid
      obtain ⟨n, hn, hnmid, hnstate, -⟩ := h.holds k hk
      rw [← hnmid]
      exact List.mem_map_of_mem (hfront n hn hnstate)
  have hlength := hids.length_le
  rw [List.length_cons, List.length_map, Context.held, List.length_map] at hlength
  have hfits := hwindow.fits
  rw [h.limit] at hfits
  omega

/-- A new PUBLISH with QoS 2 is held. -/
theorem Delivery.Ok.serveNew (h : s.Ok limit) {p : PublishPacket}
    (comes : s.up = .publish p :: later) (admits : env.Admits limit (.publish p))
    (hsock : s.broker.sock) (hqos : p.qos = 2) (hnew : p.mid ∉ s.broker.held) :
    let step := handlePublish env s.broker s.nextId p
    (s.servedBy step later).Ok limit := by
  intro step
  have hlanes := h.lanes
  have hbooks := h.books
  rw [comes] at hlanes hbooks
  have htoken : (MqttPacket.publish p).token = some p.mid := if_neg (by omega)
  obtain ⟨m, hm, hmid, hstate, hfits⟩ := hlanes.fits _ List.mem_cons_self p.mid htoken
  have hmqos := hfits.1
  have hreleasing := hfits.2.2.2.2
  -- this PUBLISH was the one packet with its id
  have hgone := hlanes.tokenUp htoken
  -- the limit of the broker is not below that of the client, so the message is not
  -- queued
  have hplace : env.config.maxInflight = 0 ∨
      (s.broker.inflight.length : Int) < env.config.maxInflight := by
    rcases admits.inflight with hzero | ⟨hpos, hle⟩
    · exact .inl hzero
    · have hlt := h.held_lt hm hstate (hmid ▸ hnew) hpos
      right
      omega
  obtain ⟨hcontext, hforwarded, hpackets⟩ := @handlePublish_new env limit s.broker s.nextId p
    admits h.holding hsock hqos hnew hplace
  have hheld : step.context.held = s.broker.held ++ [p.mid] := by
    rw [Context.held, hcontext]
    show (s.broker.inflight ++ [heldMessage s.broker s.nextId p]).map (·.mid) = _
    rw [List.map_append]
    rfl
  have hcontent : (heldMessage s.broker s.nextId p).content = some m.content :=
    congrArg some (hfits.content)
  apply h.serveAs step
  · rw [hcontext]
    exact h.holding.hold hqos hnew
  · rw [hcontext]
    intro k hk
    rcases List.mem_append.mp hk with hk | hk
    · exact h.holds k hk
    · rw [List.mem_singleton.mp hk]
      exact ⟨m, hm, hmid, hstate, hmqos.symm.trans hqos, hcontent⟩
  · have hchanged : Lanes s.client.messages step.context.held later s.down := by
      apply hlanes.tailUp.change h.sound.mids fun n hn _ => ⟨n, hn, .refl n, id⟩
      intro mid hmem
      rw [hheld, List.mem_append, or_iff_left]
      intro hsame
      rw [List.mem_singleton.mp hsame] at hmem
      exact hgone hmem
    rw [← hmid] at hgone hpackets
    have hmem : m.mid ∈ step.context.held := by
      rw [hheld, hmid]
      exact List.mem_append_right _ (List.mem_singleton_self _)
    rw [hpackets]
    exact hchanged.answerOne hm h.sound.mids rfl rfl hgone hstate
      ⟨hmqos.symm.trans hqos, hmem, hreleasing⟩
      (hlanes.headWaits hm (htoken.trans (by rw [hmid])))
  · rw [hpackets, hforwarded]
    apply hbooks.handNothing _ fun mid => place_puback fun heq => MqttPacket.noConfusion heq
    -- it is owed as before
    refine List.filterMap_congr fun n hn => ?_
    have hsame : (¬ n.Releasing ∨ n.mid ∈ step.context.held) ↔
        (¬ n.Releasing ∨ n.mid ∈ s.broker.held) := by
      by_cases hnmid : n.mid = p.mid
      · obtain rfl : n = m :=
          List.inj_on_of_nodup_map h.sound.mids hn hm (hnmid.trans hmid.symm)
        exact iff_of_true (.inl hreleasing) (.inl hreleasing)
      · rw [hheld, List.mem_append, List.mem_singleton, or_iff_left hnmid]
    simp only [owes, hsame]

theorem filter_mid {messages : List ClientMsg} {k : ClientMsg} (hk : k ∈ messages)
    (hmids : (messages.map (·.mid)).Nodup) : (messages.filter fun m => m.mid = k.mid) = [k] := by
  obtain ⟨before, behind, rfl⟩ := List.append_of_mem hk
  simp only [List.map_append, List.map_cons, List.nodup_append, List.nodup_cons, List.mem_map,
    List.mem_cons] at hmids
  have hbefore : (before.filter fun m => m.mid = k.mid) = [] := by
    apply List.filter_eq_nil_iff.mpr
    intro n hn heq
    exact hmids.2.2 n.mid ⟨n, hn, rfl⟩ k.mid (.inl rfl) (of_decide_eq_true heq)
  have hbehind : (behind.filter fun m => m.mid = k.mid) = [] := by
    apply List.filter_eq_nil_iff.mpr
    intro n hn heq
    exact hmids.2.1.1 ⟨n, hn, of_decide_eq_true heq⟩
  rw [List.filter_append, hbefore, List.filter_cons_of_pos (by simp), hbehind]
  rfl

/-- A PUBREL hands on what is held. -/
theorem Delivery.Ok.serveRelease (h : s.Ok limit) (comes : s.up = .pubrel mid :: later)
    (admits : env.Admits limit (.pubrel mid)) :
    let step := handlePubrelBroker env s.broker mid
    (s.servedBy step later).Ok limit := by
  intro step
  have hlanes := h.lanes
  have hbooks := h.books
  rw [comes] at hlanes hbooks
  obtain ⟨m, hm, hmid, hstate, hqos, hreleasing⟩ := hlanes.fits _ List.mem_cons_self mid rfl
  have hgone := hlanes.tokenUp rfl
  obtain ⟨hinflight, -, hholding, hforwarded, hpackets⟩ :=
    @handlePubrelBroker_eq env limit s.broker mid admits h.holding
  -- the message is not held any more, and all others are
  have hheld : ∀ mid', mid' ∈ step.context.held ↔ mid' ∈ s.broker.held ∧ mid' ≠ mid := by
    intro mid'
    rw [Context.held, hinflight, Context.held, List.mem_map, List.mem_map]
    constructor
    · rintro ⟨k, hk, rfl⟩
      obtain ⟨hk, hne⟩ := List.mem_filter.mp hk
      exact ⟨⟨k, hk, rfl⟩, by simpa using hne⟩
    · rintro ⟨⟨k, hk, rfl⟩, hne⟩
      exact ⟨k, List.mem_filter.mpr ⟨hk, by simpa using hne⟩, rfl⟩
  subst hmid
  -- what is handed on is what was owed
  have hhanded : step.forwarded = (owes s.broker.held m).toList := by
    rw [hforwarded]
    by_cases hmem : m.mid ∈ s.broker.held
    · obtain ⟨k, hk, hkmid⟩ := List.mem_map.mp hmem
      obtain ⟨n, hn, hnmid, -, -, hcontent⟩ := h.holds k hk
      obtain rfl : n = m := List.inj_on_of_nodup_map h.sound.mids hn hm (hnmid.trans hkmid)
      rw [← hkmid, filter_mid hk h.holding.mids, List.filterMap_cons, hcontent, owes,
        if_pos ⟨hqos, .inr hmem⟩]
      rfl
    · have hnone : (s.broker.inflight.filter fun k => k.mid = m.mid) = [] := by
        apply List.filter_eq_nil_iff.mpr
        intro k hk heq
        exact hmem (List.mem_map.mpr ⟨k, hk, of_decide_eq_true heq⟩)
      rw [hnone, owes, if_neg]
      · rfl
      · rintro ⟨-, howed⟩
        exact howed.elim (fun hnot => hnot hreleasing) hmem
  apply h.serveAs step hholding
  · rw [hinflight]
    exact fun k hk => h.holds k (List.mem_of_mem_filter hk)
  · have hchanged : Lanes s.client.messages step.context.held later s.down := by
      apply hlanes.tailUp.change h.sound.mids fun n hn _ => ⟨n, hn, .refl n, id⟩
      intro mid' hmem
      rw [hheld, and_iff_left]
      rintro rfl
      exact hgone hmem
    rw [hpackets]
    exact hchanged.answerOne hm h.sound.mids rfl rfl hgone hstate
      ⟨hqos, fun hmem => ((hheld _).mp hmem).2 rfl, hreleasing⟩ (hlanes.headWaits hm rfl)
  · rw [hpackets]
    -- what the other messages owe is as before, and this one owes nothing
    have hothers : ∀ n ∈ s.client.messages, n.mid ≠ m.mid →
        owes step.context.held n = owes s.broker.held n := by
      intro n _ hne
      simp only [owes, hheld, hne, ne_eq, not_false_eq_true, and_true]
    have hnone : owes step.context.held m = none := by
      rw [owes, if_neg]
      rintro ⟨-, howed⟩
      exact howed.elim (fun hnot => hnot hreleasing) fun hmem => ((hheld _).mp hmem).2 rfl
    refine hbooks.hand ?_ ?_ ?_ ?_
    · rw [hhanded]
      intro c hc
      have hc : owes s.broker.held m = some c := by simpa using hc
      rw [owes] at hc
      split_ifs at hc with hcond
      rw [← Option.some.inj hc]
      exact hbooks.known m hm
    · intro c _
      have hchange := count_filterMap_change (c := c) hm h.sound.mids hothers
      rw [hnone] at hchange
      rw [hhanded]
      simp only [Option.toList_none, List.count_nil] at hchange
      omega
    · intro c hc
      have hpuback : ∀ mid', .puback mid' ∉ env.sends.place (.pubcomp m.mid) := fun _ =>
        place_puback fun heq => MqttPacket.noConfusion heq
      have hquiet := @count_mayOwe_quiet s.client.messages s.down later _ hpuback c
      omega
    · intro c hc
      have hzero : step.forwarded.count c = 0 := by
        rw [hhanded, owes]
        split_ifs
        · apply count_other
          show m.qos ≠ c.qos
          omega
        · rfl
      rw [hzero, Nat.zero_add]
      exact countP_tail c

theorem Delivery.Ok.serve (h : s.Ok limit) (comes : s.up = p :: later)
    (admits : env.Admits limit p) : (s.serve env p later).Ok limit := by
  have hup : p.upward = true := by
    apply h.lanes.upward
    rw [comes]
    exact List.mem_cons_self
  -- a packet towards the broker is a CONNECT, a PUBLISH or a PUBREL
  cases p with
  | connect => exact h.serveConnect comes
  | publish p =>
    by_cases hsock : s.broker.sock = true
    · by_cases hcheck : brokerTopicCheck p.topic.bytes = some (.ok ())
      · have hstep : handlePacketBroker env s.broker s.nextId (.publish p) =
            handlePublish env s.broker s.nextId p := (if_pos hsock).trans (if_pos hcheck)
        rw [Delivery.serve, hstep]
        have hmem : MqttPacket.publish p ∈ s.up ++ s.down := by
          rw [comes]
          exact List.mem_append_left _ List.mem_cons_self
        have hqos : p.qos = 0 ∨ p.qos = 1 ∨ p.qos = 2 := by
          by_cases hzero : p.qos = 0
          · exact .inl hzero
          · obtain ⟨m, hm, -, -, hmqos, -⟩ := h.lanes.fits _ hmem p.mid (if_neg hzero)
            rw [hmqos]
            exact .inr (h.sound.qos m hm)
        rcases hqos with hqos | hqos | hqos
        · exact h.servePlain comes admits hqos
        · exact h.serveQos1 comes admits hqos
        · by_cases hheld : p.mid ∈ s.broker.held
          · exact h.serveKnown comes admits hqos hheld
          · exact h.serveNew comes admits hsock hqos hheld
      · have hstep : handlePacketBroker env s.broker s.nextId (.publish p) =
            { context := s.broker, effects := [], rc := 1 } := (if_pos hsock).trans (if_neg hcheck)
        rw [Delivery.serve, hstep]
        exact h.serveNothing comes 1
    · have hstep : handlePacketBroker env s.broker s.nextId (.publish p) =
          { context := s.broker, effects := [], rc := 0 } := if_neg hsock
      rw [Delivery.serve, hstep]
      exact h.serveNothing comes 0
  | pubrel mid =>
    by_cases hsock : s.broker.sock = true
    · have hstep : handlePacketBroker env s.broker s.nextId (.pubrel mid) =
          handlePubrelBroker env s.broker mid := if_pos hsock
      rw [Delivery.serve, hstep]
      exact h.serveRelease comes admits
    · have hstep : handlePacketBroker env s.broker s.nextId (.pubrel mid) =
          { context := s.broker, effects := [], rc := 0 } := if_neg hsock
      rw [Delivery.serve, hstep]
      exact h.serveNothing comes 0
  | connack => exact absurd hup Bool.false_ne_true
  | puback => exact absurd hup Bool.false_ne_true
  | pubrec => exact absurd hup Bool.false_ne_true
  | pubcomp => exact absurd hup Bool.false_ne_true

end Serve

/-! ## Runs -/

theorem DeliveryStep.ok {limit : Nat} {s s' : Delivery} {event : DeliveryEvent} (h : s.Ok limit)
    (step : DeliveryStep limit s event s') : s'.Ok limit := by
  cases step with
  | publish unused => exact h.publish unused
  | receive comes => exact h.receive comes
  | serve comes admits => exact h.serve comes admits
  | reconnect reads => exact h.reconnect reads
  | brokerCloses =>
    exact ⟨h.sound, h.limit, h.phased, ⟨h.holding.queued, h.holding.incoming, h.holding.mids,
      h.holding.count⟩, h.holds, h.lanes, h.books⟩

end WeeveMQ
