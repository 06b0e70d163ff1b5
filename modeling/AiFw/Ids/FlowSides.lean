import AiFw.Ids.FlowAccounting

namespace AiFw.Ids
open AiFw.Net AiFw.Lib
set_option autoImplicit true

def DecodedPacket.FromInitiator (packet : DecodedPacket) (flow : Flow) : Prop :=
  packet.srcIp = some flow.initiatorIp ∧ packet.srcPort.getD 0 = flow.initiatorPort

instance (packet : DecodedPacket) (flow : Flow) : Decidable (packet.FromInitiator flow) :=
  inferInstanceAs (Decidable (_ ∧ _))

def DecodedPacket.SourceIsLower (packet : DecodedPacket) : Prop :=
  ∃ srcIp dstIp, packet.srcIp = some srcIp ∧ packet.dstIp = some dstIp ∧
    endpoint srcIp (packet.srcPort.getD 0) ≤ endpoint dstIp (packet.dstPort.getD 0)

theorem DecodedPacket.flowKey_cases {packet : DecodedPacket}
    (h : packet.flowKey = some (key, direction)) :
    (packet.srcIp = some key.ipA ∧ packet.srcPort.getD 0 = key.portA ∧
        packet.dstIp = some key.ipB ∧ packet.dstPort.getD 0 = key.portB ∧
        endpoint key.ipA key.portA ≤ endpoint key.ipB key.portB ∧ direction = .toServer) ∨
      (packet.srcIp = some key.ipB ∧ packet.srcPort.getD 0 = key.portB ∧
        packet.dstIp = some key.ipA ∧ packet.dstPort.getD 0 = key.portA ∧
        endpoint key.ipA key.portA < endpoint key.ipB key.portB ∧ direction = .toClient) := by
  simp only [DecodedPacket.flowKey, Option.bind_eq_bind, Option.bind_eq_some_iff] at h
  obtain ⟨srcIp, hs, dstIp, hd, he⟩ := h
  simp only [Option.pure_def, Option.some.injEq, Prod.mk.injEq] at he
  obtain ⟨hk, hdir⟩ := he
  unfold FlowKey.fromPacket at hk hdir
  by_cases hle : endpoint srcIp (packet.srcPort.getD 0) ≤ endpoint dstIp (packet.dstPort.getD 0)
  · rw [if_pos hle] at hk hdir
    subst hk
    refine .inl ⟨hs, rfl, hd, rfl, hle, ?_⟩
    rw [← hdir]
    exact if_pos ⟨rfl, rfl⟩
  · rw [if_neg hle] at hk hdir
    subst hk
    have hlt := lt_of_not_ge hle
    refine .inr ⟨hs, rfl, hd, rfl, hlt, ?_⟩
    rw [← hdir]
    apply if_neg
    intro he
    exact hlt.ne (endpoint_inj.mpr he).symm

theorem DecodedPacket.sourceIsLower_iff {packet : DecodedPacket}
    (h : packet.flowKey = some (key, direction)) :
    packet.SourceIsLower ↔ direction = .toServer := by
  rcases packet.flowKey_cases h with ⟨hs, hsp, hd, hdp, hle, he⟩ | ⟨hs, hsp, hd, hdp, hlt, he⟩
  · subst he
    constructor
    · intro _
      rfl
    · intro _
      refine ⟨_, _, hs, hd, ?_⟩
      rw [hsp, hdp]
      exact hle
  · subst he
    constructor
    · intro hc
      obtain ⟨srcIp, dstIp, hs', hd', hle⟩ := hc
      cases Option.some.inj (hs.symm.trans hs')
      cases Option.some.inj (hd.symm.trans hd')
      rw [hsp, hdp] at hle
      exact absurd hle (not_le_of_gt hlt)
    · intro hc
      cases hc

theorem DecodedPacket.same_source_iff {p q : DecodedPacket} (hp : p.flowKey = some (key, d))
    (hq : q.flowKey = some (key, d')) :
    (p.srcIp = q.srcIp ∧ p.srcPort.getD 0 = q.srcPort.getD 0) ↔ d = d' := by
  rcases p.flowKey_cases hp with ⟨hs, hsp, -, -, -, he⟩ | ⟨hs, hsp, -, -, hlt, he⟩ <;>
    rcases q.flowKey_cases hq with ⟨hs', hsp', -, -, -, he'⟩ | ⟨hs', hsp', -, -, hlt', he'⟩ <;>
      rw [hs, hsp, hs', hsp', he, he']
  · exact ⟨fun _ => rfl, fun _ => ⟨rfl, rfl⟩⟩
  · constructor
    · intro hc
      exact absurd (endpoint_inj.mpr ⟨Option.some.inj hc.1, hc.2⟩) hlt'.ne
    · intro hc
      cases hc
  · constructor
    · intro hc
      exact absurd (endpoint_inj.mpr ⟨Option.some.inj hc.1, hc.2⟩) hlt.ne'
    · intro hc
      cases hc
  · exact ⟨fun _ => rfl, fun _ => ⟨rfl, rfl⟩⟩

namespace FlowTable

variable {t : FlowTable}

theorem enforceBudget_lookup (choices : Choices)
    (h : (t.enforceBudget choices).table.lookup k = some f) : t.table.lookup k = some f := by
  rcases t.enforceBudget_cases choices with ⟨he, -⟩ | ⟨-, he⟩
  · rwa [he] at h
  · obtain ⟨batch, rest, hev⟩ := t.evictOldestBatch_spec choices.budgetOrder evictBatch
    rw [he] at h
    exact hev.lookup h

theorem recordPacket_lookup (choices : Choices) (t : FlowTable) (packet : DecodedPacket)
    (key : FlowKey) (direction : FlowDirection) :
    (t.recordPacket choices packet key direction).table.lookup key =
      some (t.recordedFlow choices packet key direction) := by
  rw [recordPacket_table, AList.lookup_insert]

theorem recordPacket_lookup_ne (choices : Choices) (hne : k ≠ key)
    (h : (t.recordPacket choices packet key direction).table.lookup k = some f) :
    t.table.lookup k = some f := by
  rw [recordPacket_table, AList.lookup_insert_ne hne] at h
  rcases t.evictAtCap_cases choices key with ⟨he, -⟩ | ⟨-, n, batch, rest, -, he⟩
  · rwa [he] at h
  · exact he.lookup h

theorem trackPacket_lookup (choices : Choices)
    (h : (t.trackPacket choices packet).1.table.lookup k = some f) :
    t.table.lookup k = some f ∨ ∃ direction, packet.flowKey = some (k, direction) ∧
      f = t.recordedFlow choices packet k direction := by
  cases hk : packet.flowKey with
  | none =>
    rw [trackPacket_none choices t hk] at h
    exact .inl h
  | some kd =>
    obtain ⟨key, direction⟩ := kd
    rw [trackPacket_some choices t hk] at h
    have hr := enforceBudget_lookup choices h
    by_cases he : k = key
    · subst he
      rw [recordPacket_lookup] at hr
      exact .inr ⟨direction, rfl, (Option.some.inj hr).symm⟩
    · exact .inl (recordPacket_lookup_ne choices he hr)

theorem trackPacket_lookup_self (choices : Choices) (hl : t.table.lookup key = some flow)
    (hk : packet.flowKey = some (key, direction))
    (h : (t.trackPacket choices packet).1.table.lookup key = some flow') :
    flow' = flow.update packet direction := by
  rw [trackPacket_some choices t hk] at h
  have hr := enforceBudget_lookup choices h
  rw [recordPacket_lookup, recordedFlow, hl] at hr
  exact (Option.some.inj hr).symm

theorem run_snoc (t : FlowTable) (ops : List Op) (op : Op) :
    t.run (ops ++ [op]) = (t.run ops).step op := by
  rw [run, List.foldl_append]
  rfl

theorem step_lookup (h : (t.step op).table.lookup key = some flow) :
    (∃ flow₀, t.table.lookup key = some flow₀ ∧ flow.initiatorIp = flow₀.initiatorIp ∧
        flow.initiatorPort = flow₀.initiatorPort) ∨
      (t.table.lookup key = none ∧ ∃ choices packet direction, op = .track choices packet ∧
        packet.flowKey = some (key, direction) ∧ packet.FromInitiator flow) := by
  cases op with
  | track choices packet =>
    rcases trackPacket_lookup choices h with hl | ⟨direction, hk, he⟩
    · exact .inl ⟨flow, hl, rfl, rfl⟩
    · subst he
      unfold recordedFlow
      cases hl : t.table.lookup key with
      | some flow₀ =>
        have hu := flow₀.update_updated packet direction
        exact .inl ⟨flow₀, rfl, hu.initiatorIp, hu.initiatorPort⟩
      | none =>
        refine .inr ⟨rfl, choices, packet, direction, rfl, hk, ?_, rfl⟩
        rcases packet.flowKey_cases hk with ⟨hs, -⟩ | ⟨hs, -⟩ <;>
          simp only [Flow.new, hs, Option.getD_some]
  | expire nowUs timeoutUs =>
    exact .inl ⟨flow, (KeyedMap.lookup_retain.mp h).1, rfl, rfl⟩
  | clear =>
    change (∅ : KeyedMap FlowKey Flow).lookup key = some flow at h
    rw [AList.lookup_empty] at h
    cases h

/-- The call in a run that created a live flow: the flow is absent just before it, present ever
since, and keeps the packet's source as its initiator. -/
structure Created (t : FlowTable) (ops pre : List Op) (choices : Choices) (first : DecodedPacket)
    (post : List Op) (key : FlowKey) (flow : Flow) : Prop where
  split : ops = pre ++ .track choices first :: post
  absent : (t.run pre).get key = none
  live : ∀ mid, mid <+: post → (t.run (pre ++ .track choices first :: mid)).get key ≠ none
  key : ∃ direction, first.flowKey = some (key, direction)
  source : first.FromInitiator flow

theorem run_created (hf : t.table = ∅) (h : (t.run ops).get key = some flow) :
    ∃ pre choices first post, Created t ops pre choices first post key flow := by
  induction ops using List.reverseRecOn generalizing flow with
  | nil =>
    change t.table.lookup key = some flow at h
    rw [hf, AList.lookup_empty] at h
    cases h
  | append_singleton ops op ih =>
    have hlast : (t.run (ops ++ [op])).get key ≠ none := by
      rw [h]
      exact Option.some_ne_none _
    rw [run_snoc] at h
    rcases step_lookup h with ⟨flow₀, hl, hip, hport⟩ |
      ⟨hn, choices, packet, direction, he, hk, hi⟩
    · obtain ⟨pre, choices, first, post, hc⟩ := ih hl
      refine ⟨pre, choices, first, post ++ [op], ?_, hc.absent, ?_, hc.key, ?_⟩
      · rw [hc.split]
        simp only [List.append_assoc, List.cons_append]
      · intro mid hm
        rcases List.prefix_concat_iff.mp hm with he | hp
        · subst he
          rw [hc.split, List.append_assoc, List.cons_append] at hlast
          exact hlast
        · exact hc.live mid hp
      · exact ⟨hc.source.1.trans (congrArg some hip.symm), hc.source.2.trans hport.symm⟩
    · subst he
      refine ⟨ops, choices, packet, [], rfl, hn, ?_, ⟨direction, hk⟩, hi⟩
      intro mid hm
      rw [List.prefix_nil] at hm
      subst hm
      exact hlast

/-- The side law for one packet of a live flow: reported as going to the server, counted and
appended there, exactly when the initiator sent it; otherwise all of it on the other side. -/
structure InitiatorRelative (flow : Flow) (key : FlowKey) (packet : DecodedPacket)
    (result : FlowTable × Option (FlowKey × FlowDirection)) : Prop where
  toServer : packet.FromInitiator flow → result.2 = some (key, .toServer) ∧
    ∀ flow', result.1.get key = some flow' → flow.CountedToServer flow' packet
  toClient : ¬ packet.FromInitiator flow → result.2 = some (key, .toClient) ∧
    ∀ flow', result.1.get key = some flow' → flow.CountedToClient flow' packet

theorem initiatorRelative_of_direction (choices : Choices) (hl : t.get key = some flow)
    (hk : packet.flowKey = some (key, direction))
    (hd : packet.FromInitiator flow ↔ direction = .toServer) :
    InitiatorRelative flow key packet (t.trackPacket choices packet) := by
  have hr : (t.trackPacket choices packet).2 = some (key, direction) := by
    rw [trackPacket_some choices t hk]
  constructor
  · intro hi
    have he := hd.mp hi
    subst he
    refine ⟨hr, ?_⟩
    intro flow' hf
    rw [trackPacket_lookup_self choices hl hk hf]
    exact flow.update_toServer packet
  · intro hi
    have he : direction = .toClient := by
      cases direction with
      | toServer => exact absurd (hd.mpr rfl) hi
      | toClient => rfl
    subst he
    refine ⟨hr, ?_⟩
    intro flow' hf
    rw [trackPacket_lookup_self choices hl hk hf]
    exact flow.update_toClient packet

theorem InitiatorRelative.reported_iff (h : InitiatorRelative flow key packet
      (t.trackPacket choices packet)) (hk : packet.flowKey = some (key, direction)) :
    packet.FromInitiator flow ↔ direction = .toServer := by
  have hr : (t.trackPacket choices packet).2 = some (key, direction) := by
    rw [trackPacket_some choices t hk]
  by_cases hi : packet.FromInitiator flow
  · have he := (h.toServer hi).1
    rw [hr] at he
    exact iff_of_true hi (Prod.mk.inj (Option.some.inj he)).2
  · have he := (h.toClient hi).1
    rw [hr] at he
    apply iff_of_false hi
    rw [(Prod.mk.inj (Option.some.inj he)).2]
    intro hc
    cases hc

/-- In every run, for every live flow and every later packet of it, the side law holds exactly
when the packet that created the flow came from the lower of the two endpoints. -/
theorem initiator_relative_iff_lower (maxFlows depth budget : Nat) (ops : List Op)
    (hl : ((fresh maxFlows depth budget).run ops).get key = some flow) (choices : Choices)
    (hk : packet.flowKey = some (key, direction)) :
    ∃ pre choices₀ first post,
      Created (fresh maxFlows depth budget) ops pre choices₀ first post key flow ∧
      (InitiatorRelative flow key packet
          (((fresh maxFlows depth budget).run ops).trackPacket choices packet) ↔
        first.SourceIsLower) := by
  obtain ⟨pre, choices₀, first, post, hc⟩ := run_created rfl hl
  refine ⟨pre, choices₀, first, post, hc, ?_⟩
  obtain ⟨direction₀, hk₀⟩ := hc.key
  have hsame : packet.FromInitiator flow ↔ direction = direction₀ := by
    rw [← DecodedPacket.same_source_iff hk hk₀, hc.source.1, hc.source.2]
    rfl
  rw [DecodedPacket.sourceIsLower_iff hk₀]
  constructor
  · intro h
    have hd := h.reported_iff hk
    rw [hsame] at hd
    cases direction with
    | toServer => exact (hd.mpr rfl).symm
    | toClient =>
      cases direction₀ with
      | toServer => rfl
      | toClient => cases hd.mp rfl
  · intro he
    subst he
    exact initiatorRelative_of_direction choices hl hk hsame

/-- A client at 10.0.0.2:12345 talking to a server at 10.0.0.1:80. -/
def clientPacket (timestampUs : Int) : DecodedPacket where
  timestampUs := timestampUs
  srcIp := some (.v4 0x0A000002)
  dstIp := some (.v4 0x0A000001)
  srcPort := some 12345
  dstPort := some 80
  protocol := .tcp
  tcpFlags := some { syn := true, ack := false, fin := false, rst := false }
  payload := [71, 69, 84]
  packetLen := 57

def clientKey : FlowKey where
  ipA := .v4 0x0A000001
  ipB := .v4 0x0A000002
  portA := 80
  portB := 12345
  protocol := 6

theorem clientPacket_flowKey (ts : Int) :
    (clientPacket ts).flowKey = some (clientKey, .toClient) := by
  have h : (clientPacket 0).flowKey = some (clientKey, .toClient) := by decide
  exact h

theorem initiator_relative_iff_lower_client :
    ∃ pre choices₀ first post,
      Created (fresh 1024 65536 268435456) [.track anyChoices (clientPacket 1000)] pre choices₀
        first post clientKey (Flow.new 7 clientKey (clientPacket 1000) 65536) ∧
      (InitiatorRelative (Flow.new 7 clientKey (clientPacket 1000) 65536) clientKey
          (clientPacket 2000)
          (((fresh 1024 65536 268435456).run
            [.track anyChoices (clientPacket 1000)]).trackPacket anyChoices (clientPacket 2000)) ↔
        first.SourceIsLower) :=
  initiator_relative_iff_lower 1024 65536 268435456 [.track anyChoices (clientPacket 1000)]
    (by decide) anyChoices (clientPacket_flowKey 2000)

/-- The client opens the flow, yet its next packet is reported as coming from the server. -/
theorem initiator_relative_fails_for_client :
    ((fresh 1024 65536 268435456).run [.track anyChoices (clientPacket 1000)]).get clientKey =
        some (Flow.new 7 clientKey (clientPacket 1000) 65536) ∧
      ¬ InitiatorRelative (Flow.new 7 clientKey (clientPacket 1000) 65536) clientKey
        (clientPacket 2000)
        (((fresh 1024 65536 268435456).run
          [.track anyChoices (clientPacket 1000)]).trackPacket anyChoices (clientPacket 2000)) := by
  constructor
  · decide
  · intro h
    have hi : (clientPacket 2000).FromInitiator
        (Flow.new 7 clientKey (clientPacket 1000) 65536) := ⟨rfl, rfl⟩
    cases (h.reported_iff (clientPacket_flowKey 2000)).mp hi

end FlowTable

end AiFw.Ids
