import AiFw.Wan.PolicyHealth

namespace AiFw.Wan
open AiFw.Lib
set_option autoImplicit true

/-- A member that counts: its gateway is stored, enabled, and up or warning. -/
def Refers (gateways : List Gateway) (m : GroupMember) (gw : Gateway) : Prop :=
  byId Gateway.id gateways m.gatewayId = some gw ∧ gw.enabled = true ∧
    (gw.state = .up ∨ gw.state = .warning)

/-- The lowest tier among the members that count. -/
structure LowestTier (gateways : List Gateway) (members : List GroupMember) (T : UInt32) : Prop where
  inhabited : ∃ m ∈ members, ∃ gw, Refers gateways m gw ∧ m.tier = T
  least : ∀ m ∈ members, ∀ gw, Refers gateways m gw → T ≤ m.tier

def standsIn (gateways : List Gateway) (T : UInt32) (m : GroupMember) : Bool :=
  match byId Gateway.id gateways m.gatewayId with
  | some gw => gw.usable && decide (m.tier = T)
  | none => false

/-- A member of the tier that no other member of the tier outweighs, up if one of that weight is. -/
structure BestOf (gateways : List Gateway) (members : List GroupMember) (T : UInt32)
    (m : GroupMember) (gw : Gateway) : Prop where
  member : m ∈ members
  refers : Refers gateways m gw
  tier : m.tier = T
  heaviest : ∀ m' ∈ members, ∀ gw', Refers gateways m' gw' → m'.tier = T → m'.weight ≤ m.weight
  up : (∃ m' ∈ members, ∃ gw', Refers gateways m' gw' ∧ m'.tier = T ∧ m'.weight = m.weight ∧
    gw'.state = .up) → gw.state = .up

/-- What the selection of a gateway promises for each policy. -/
structure SelectsBest (group : GatewayGroup) (members : List GroupMember)
    (gateways : List Gateway) : Prop where
  none_iff : select group members gateways = .none ↔
    ∀ m ∈ members, ∀ gw, ¬ Refers gateways m gw
  failover : group.policy = .failover → ∀ T, LowestTier gateways members T →
    ∃ m gw, BestOf gateways members T m gw ∧ select group members gateways = .single gw.id
  balanced : group.policy ≠ .failover → ∀ T, LowestTier gateways members T →
    ∃ list, select group members gateways = .weightedList list ∧
      list.map Prod.fst = (members.filter (standsIn gateways T)).map GroupMember.gatewayId ∧
      ∀ e ∈ list, 1 ≤ e.2

theorem usable_iff {gw : Gateway} :
    gw.usable = true ↔ gw.enabled = true ∧ (gw.state = .up ∨ gw.state = .warning) := by
  rw [Gateway.usable, Bool.and_eq_true]
  cases gw.state <;> simp [GatewayState.healthy]

theorem mem_healthyMembers {e : GroupMember × Gateway} :
    e ∈ healthyMembers members gateways ↔ e.1 ∈ members ∧ Refers gateways e.1 e.2 := by
  rw [healthyMembers, List.mem_filterMap]
  constructor
  · intro ⟨m, hm, he⟩
    cases hgw : byId Gateway.id gateways m.gatewayId with
    | none =>
      rw [hgw] at he
      cases he
    | some gw =>
      rw [hgw] at he
      obtain ⟨hu, he⟩ := Option.ite_none_right_eq_some.mp he
      cases he
      exact ⟨hm, hgw, usable_iff.mp hu⟩
  · intro ⟨hm, hgw, hu⟩
    refine ⟨e.1, hm, ?_⟩
    rw [hgw]
    exact if_pos (usable_iff.mpr hu)

theorem healthyMembers_eq_nil : healthyMembers members gateways = [] ↔
    ∀ m ∈ members, ∀ gw, ¬ Refers gateways m gw := by
  rw [List.eq_nil_iff_forall_not_mem]
  constructor
  · intro h m hm gw hgw
    exact h (m, gw) (mem_healthyMembers.mpr ⟨hm, hgw⟩)
  · intro h e he
    obtain ⟨hm, hgw⟩ := mem_healthyMembers.mp he
    exact h e.1 hm e.2 hgw

theorem LowestTier.min_eq (hT : LowestTier gateways members T) :
    ((healthyMembers members gateways).map fun e => e.1.tier.toNat).min? = some T.toNat := by
  rw [List.min?_eq_some_iff]
  obtain ⟨m, hm, gw, hgw, htier⟩ := hT.inhabited
  constructor
  · exact List.mem_map.mpr ⟨(m, gw), mem_healthyMembers.mpr ⟨hm, hgw⟩, congrArg _ htier⟩
  · intro n hn
    obtain ⟨e, he, rfl⟩ := List.mem_map.mp hn
    obtain ⟨hm, hgw⟩ := mem_healthyMembers.mp he
    exact UInt32.le_iff_toNat_le.mp (hT.least e.1 hm e.2 hgw)

theorem LowestTier.mem_lowestTier (hT : LowestTier gateways members T) :
    e ∈ lowestTier (healthyMembers members gateways) ↔
      (e.1 ∈ members ∧ Refers gateways e.1 e.2) ∧ e.1.tier = T := by
  rw [lowestTier, hT.min_eq, List.mem_filter, mem_healthyMembers, decide_eq_true_iff,
    Option.some_inj, UInt32.toNat_inj]

theorem exists_lowestTier (h : healthyMembers members gateways ≠ []) :
    ∃ T, LowestTier gateways members T := by
  cases hmin : ((healthyMembers members gateways).map fun e => e.1.tier.toNat).min? with
  | none =>
    rw [List.min?_eq_none_iff, List.map_eq_nil_iff] at hmin
    exact absurd hmin h
  | some n =>
    obtain ⟨hmem, hleast⟩ := List.min?_eq_some_iff.mp hmin
    obtain ⟨e, he, rfl⟩ := List.mem_map.mp hmem
    obtain ⟨hm, hgw⟩ := mem_healthyMembers.mp he
    refine ⟨e.1.tier, ⟨e.1, hm, e.2, hgw, rfl⟩, ?_⟩
    intro m hm gw hgw
    apply UInt32.le_iff_toNat_le.mpr
    apply hleast
    exact List.mem_map.mpr ⟨(m, gw), mem_healthyMembers.mpr ⟨hm, hgw⟩, rfl⟩

/-- The members of a tier come in the order of the list, each under the id it names. -/
theorem ids_of_tier : ((healthyMembers members gateways).filter fun e => e.1.tier = T).map
      (fun e => e.2.id) = (members.filter (standsIn gateways T)).map GroupMember.gatewayId := by
  induction members with
  | nil => rfl
  | cons m members ih =>
    cases hgw : byId Gateway.id gateways m.gatewayId with
    | none =>
      have hno : standsIn gateways T m = false := by rw [standsIn, hgw]
      rw [List.filter_cons_of_neg (by rw [hno]; exact Bool.false_ne_true), ← ih, healthyMembers,
        List.filterMap_cons_none (by rw [hgw])]
      rfl
    | some gw =>
      have hstands : standsIn gateways T m = (gw.usable && decide (m.tier = T)) := by
        rw [standsIn, hgw]
      by_cases hu : gw.usable = true
      · rw [hu, Bool.true_and] at hstands
        rw [healthyMembers, List.filterMap_cons_some (b := (m, gw)) (by rw [hgw]; exact if_pos hu)]
        by_cases htier : m.tier = T
        · rw [List.filter_cons_of_pos (by exact decide_eq_true htier),
            List.filter_cons_of_pos (by rw [hstands]; exact decide_eq_true htier), List.map_cons,
            List.map_cons, ← ih, id_of_byId hgw]
          rfl
        · rw [List.filter_cons_of_neg (by exact fun h => htier (of_decide_eq_true h)),
            List.filter_cons_of_neg (by rw [hstands]; exact fun h => htier (of_decide_eq_true h)),
            ← ih]
          rfl
      · rw [Bool.eq_false_iff.mpr hu, Bool.false_and] at hstands
        rw [List.filter_cons_of_neg (by rw [hstands]; exact Bool.false_ne_true), ← ih,
          healthyMembers, List.filterMap_cons_none (by rw [hgw]; exact if_neg hu)]
        rfl

theorem LowestTier.ids (hT : LowestTier gateways members T) :
    (lowestTier (healthyMembers members gateways)).map (fun e => e.2.id) =
      (members.filter (standsIn gateways T)).map GroupMember.gatewayId := by
  rw [← ids_of_tier, lowestTier, hT.min_eq]
  congr 1
  apply List.filter_congr
  intro e he
  apply decide_eq_decide.mpr
  rw [Option.some_inj, UInt32.toNat_inj]

/-- The pairs of weight and preference compare as their keys do. -/
theorem failoverKey_le {a b : GroupMember × Gateway} (h : failoverKey a ≤ failoverKey b) :
    a.1.weight ≤ b.1.weight ∧
      (a.1.weight = b.1.weight → preferUp a.2.state ≤ preferUp b.2.state) := by
  have hbelow (s : GatewayState) : preferUp s ≤ 2 := by cases s <;> decide
  have ha := hbelow a.2.state
  have hb := hbelow b.2.state
  unfold failoverKey at h
  constructor
  · rw [UInt32.le_iff_toNat_le]
    omega
  · intro heq
    rw [heq] at h
    omega

theorem up_of_preferUp (h : preferUp .up ≤ preferUp s) : s = .up := by
  cases s with
  | up => rfl
  | unknown | down | warning => exact absurd h (by decide)

theorem le_saturatingMul {a b : Nat} (ha : 1 ≤ a) (hb : 1 ≤ b) : 1 ≤ saturatingMul a b := by
  have hpos : 1 ≤ a * b := Nat.mul_pos ha hb
  rw [UInt32.le_iff_toNat_le, saturatingMul, UInt32.toNat_ofNat']
  rw [Nat.mod_eq_of_lt (by unfold u32Max; omega)]
  exact le_min hpos (by decide)

theorem adaptiveWeight_pos_iff : 1 ≤ adaptiveWeight m gw ↔ m.weight ≠ 0 := by
  constructor
  · intro h hzero
    have hw : adaptiveWeight m gw = 0 := by
      simp only [adaptiveWeight, saturatingMul, hzero, UInt32.toNat_zero, Nat.zero_mul,
        Nat.zero_min]
      rfl
    rw [hw] at h
    exact absurd h (by decide)
  · intro h
    apply le_saturatingMul
    · apply Nat.pos_of_ne_zero
      intro hz
      exact h (UInt32.toNat_inj.mp hz)
    · exact le_max_right _ _

theorem one_le_max (w : UInt32) : 1 ≤ max w 1 := by
  change 1 ≤ if w ≤ 1 then 1 else w
  split
  next => decide
  next h =>
    rw [UInt32.le_iff_toNat_le] at h ⊢
    exact Nat.le_of_not_le h

/-- The weight each policy but failover gives a member. -/
def balancedWeight (policy : GroupPolicy) (e : GroupMember × Gateway) : UInt32 :=
  match policy with
  | .adaptive => adaptiveWeight e.1 e.2
  | _ => max e.1.weight 1

theorem select_of_no_healthy (h : healthyMembers members gateways = []) :
    select group members gateways = .none := by
  rw [select, h]
  rfl

theorem select_failover (h : healthyMembers members gateways ≠ []) (hp : group.policy = .failover)
    (hbest : maxByKey failoverKey (lowestTier (healthyMembers members gateways)) = some best) :
    select group members gateways = .single best.2.id := by
  simp only [select, hp, List.isEmpty_iff, if_neg h, hbest]

theorem select_balanced (h : healthyMembers members gateways ≠ []) (hp : group.policy ≠ .failover) :
    select group members gateways =
      .weightedList ((lowestTier (healthyMembers members gateways)).map fun e =>
        (e.2.id, balancedWeight group.policy e)) := by
  simp only [select, List.isEmpty_iff, if_neg h]
  cases hpol : group.policy with
  | failover => exact absurd hpol hp
  | weightedLb | adaptive | loadBalance => rfl

theorem LowestTier.healthy (hT : LowestTier gateways members T) :
    healthyMembers members gateways ≠ [] := by
  obtain ⟨m, hm, gw, hgw, -⟩ := hT.inhabited
  intro hnil
  exact healthyMembers_eq_nil.mp hnil m hm gw hgw

theorem LowestTier.exists_best (hT : LowestTier gateways members T) :
    ∃ best, maxByKey failoverKey (lowestTier (healthyMembers members gateways)) = some best := by
  cases hbest : maxByKey failoverKey (lowestTier (healthyMembers members gateways)) with
  | some best => exact ⟨best, rfl⟩
  | none =>
    obtain ⟨m, hm, gw, hgw, htier⟩ := hT.inhabited
    have hmem : (m, gw) ∈ lowestTier (healthyMembers members gateways) :=
      hT.mem_lowestTier.mpr ⟨⟨hm, hgw⟩, htier⟩
    rw [maxByKey_eq_none.mp hbest] at hmem
    cases hmem

theorem LowestTier.bestOf (hT : LowestTier gateways members T)
    (hbest : maxByKey failoverKey (lowestTier (healthyMembers members gateways)) = some best) :
    BestOf gateways members T best.1 best.2 := by
  obtain ⟨⟨hm, hgw⟩, htier⟩ := hT.mem_lowestTier.mp (maxByKey_mem hbest)
  have hkey {m' gw'} (hm' : m' ∈ members) (hgw' : Refers gateways m' gw') (ht' : m'.tier = T) :=
    failoverKey_le (maxByKey_le hbest (hT.mem_lowestTier (e := (m', gw')).mpr ⟨⟨hm', hgw'⟩, ht'⟩))
  constructor
  · exact hm
  · exact hgw
  · exact htier
  · intro m' hm' gw' hgw' ht'
    exact (hkey hm' hgw' ht').1
  · intro ⟨m', hm', gw', hgw', ht', hweight, hup⟩
    have hpref := (hkey hm' hgw' ht').2 hweight
    apply up_of_preferUp
    rw [← hup]
    exact hpref

theorem SelectsBest.weight_pos (h : SelectsBest group members gateways)
    (hp : group.policy ≠ .failover) (hT : LowestTier gateways members T) (hm : m ∈ members)
    (hgw : Refers gateways m gw) (htier : m.tier = T) :
    1 ≤ balancedWeight group.policy (m, gw) := by
  obtain ⟨list, hsel, -, hpos⟩ := h.balanced hp T hT
  rw [select_balanced hT.healthy hp] at hsel
  injection hsel with hlist
  apply hpos (gw.id, _)
  rw [← hlist]
  exact List.mem_map.mpr ⟨(m, gw), hT.mem_lowestTier.mpr ⟨⟨hm, hgw⟩, htier⟩, rfl⟩

/-- The selection keeps its promise, but for an adaptive group with a healthy member of weight
zero in its lowest tier: the product of the weight and the quality is zero, where the other
balanced policies count such a member with weight one. -/
theorem selectsBest_iff (group : GatewayGroup) (members : List GroupMember)
    (gateways : List Gateway) :
    SelectsBest group members gateways ↔ ¬ (group.policy = .adaptive ∧
      ∃ T, LowestTier gateways members T ∧
        ∃ m ∈ members, ∃ gw, Refers gateways m gw ∧ m.tier = T ∧ m.weight = 0) := by
  constructor
  · intro h ⟨hp, T, hT, m, hm, gw, hgw, htier, hzero⟩
    have hpol : group.policy ≠ .failover := by
      rw [hp]
      nofun
    have hweight := h.weight_pos hpol hT hm hgw htier
    rw [hp] at hweight
    exact adaptiveWeight_pos_iff.mp hweight hzero
  · intro h
    constructor
    · constructor
      · intro hnone
        apply healthyMembers_eq_nil.mp
        by_contra hhealthy
        obtain ⟨T, hT⟩ := exists_lowestTier hhealthy
        by_cases hp : group.policy = .failover
        · obtain ⟨best, hbest⟩ := hT.exists_best
          rw [select_failover hhealthy hp hbest] at hnone
          cases hnone
        · rw [select_balanced hhealthy hp] at hnone
          cases hnone
      · intro hnone
        exact select_of_no_healthy (healthyMembers_eq_nil.mpr hnone)
    · intro hp T hT
      obtain ⟨best, hbest⟩ := hT.exists_best
      exact ⟨best.1, best.2, hT.bestOf hbest, select_failover hT.healthy hp hbest⟩
    · intro hp T hT
      refine ⟨_, select_balanced hT.healthy hp, ?_, ?_⟩
      · rw [List.map_map, ← hT.ids]
        rfl
      · intro entry hentry
        obtain ⟨e, he, rfl⟩ := List.mem_map.mp hentry
        obtain ⟨⟨hm, hgw⟩, htier⟩ := hT.mem_lowestTier.mp he
        cases hpol : group.policy with
        | failover => exact absurd hpol hp
        | weightedLb | loadBalance => exact one_le_max e.1.weight
        | adaptive =>
          apply adaptiveWeight_pos_iff.mpr
          intro hzero
          exact h ⟨hpol, T, hT, e.1, hm, e.2, hgw, htier, hzero⟩

def adaptiveGroup : GatewayGroup where
  id := 5
  policy := .adaptive
  sticky := .none

def spareMember : GroupMember where
  gatewayId := 1
  tier := 0
  weight := 0

def fibreGateway : Gateway where
  id := 1
  interface := "em0".toList
  nextHop := "192.0.2.1".toList
  enabled := true
  state := .up
  lastMos := none

/-- The one member of the group is healthy, and the selection lists it with weight zero. -/
theorem spareMember_weighs_nothing :
    ¬ ∀ group members gateways, SelectsBest group members gateways := by
  intro h
  have hrefers : Refers [fibreGateway] spareMember fibreGateway := ⟨rfl, rfl, .inl rfl⟩
  have hlowest : LowestTier [fibreGateway] [spareMember] 0 := by
    refine ⟨⟨spareMember, List.mem_cons_self, fibreGateway, hrefers, rfl⟩, ?_⟩
    intro m hm gw hgw
    rw [List.mem_singleton.mp hm]
    decide
  have hweight := (h adaptiveGroup [spareMember] [fibreGateway]).weight_pos nofun hlowest
    List.mem_cons_self hrefers rfl
  exact adaptiveWeight_pos_iff.mp hweight rfl

end AiFw.Wan
