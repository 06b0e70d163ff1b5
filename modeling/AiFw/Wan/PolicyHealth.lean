import AiFw.Wan.Policy

namespace AiFw.Wan
open AiFw.Lib AiFw.Pf
set_option autoImplicit true

/-- Enabled and up or with a warning, as `select` asks. -/
def Gateway.usable (gw : Gateway) : Bool := gw.enabled && gw.state.healthy

namespace PolicyRule

def selectionTargets (gateways : List Gateway) : Selection → List Gateway
  | .none => []
  | .single id => (byId Gateway.id gateways id).toList
  | .weightedList [] => []
  | .weightedList (head :: list) =>
    if (byId Gateway.id gateways head.1).isSome then
      (head :: list).filterMap fun e => byId Gateway.id gateways e.1
    else []

/-- The gateways the forward rule of a policy is routed to. -/
def routeTargets (p : PolicyRule) (t : Tables) : List Gateway :=
  match p.actionKind with
  | .setInstance => []
  | .setGateway => (byId Gateway.id t.gateways p.targetId).toList
  | .setGroup =>
    match byId GatewayGroup.id t.groups p.targetId with
    | some group => selectionTargets t.gateways (select group (t.groupMembers group.id) t.gateways)
    | none => []

/-- The `route-to` clause a line holds: one next hop, or a pool of weighted ones. -/
inductive RoutesTo (line : List Char) : List Gateway → Prop where
  | hop (front back : List Char) (gw : Gateway)
      (h : line = front ++ " route-to ".toList ++ hopText gw ++ back) : RoutesTo line [gw]
  | pool (front back : List Char) (targets : List (Gateway × UInt32))
      (h : line = front ++ " route-to \x7b ".toList ++
        List.intercalate ", ".toList (targets.map fun e => poolTarget e.1 e.2) ++ back) :
      RoutesTo line (targets.map Prod.fst)

theorem emitSetGateway_routesTo (p : PolicyRule) (gw : Gateway) (label : List Char) :
    RoutesTo (p.emitSetGateway gw label).1 [gw] := by
  unfold emitSetGateway
  refine .hop ("pass out quick on ".toList ++ gw.interface ++ ifSomeAf p.ipVersion ++
    ifSomeProto p.protocol ++ p.fromTo ++ portText p.srcPort ++ portText p.dstPort)
    (keepState ++ quotedLabel label) gw ?_
  simp only [List.append_assoc]

theorem filterMap_targets (gateways : List Gateway) (list : List (Uuid × UInt32)) :
    ∃ targets : List (Gateway × UInt32),
      (list.filterMap fun e => (byId Gateway.id gateways e.1).map fun gw => poolTarget gw e.2) =
        targets.map (fun e => poolTarget e.1 e.2) ∧
      (list.filterMap fun e => byId Gateway.id gateways e.1) = targets.map Prod.fst := by
  induction list with
  | nil => exact ⟨[], rfl, rfl⟩
  | cons e list ih =>
    obtain ⟨targets, htext, hgws⟩ := ih
    cases hgw : byId Gateway.id gateways e.1 with
    | none =>
      refine ⟨targets, ?_, ?_⟩
      · simp only [List.filterMap_cons, hgw, Option.map_none, htext]
      · simp only [List.filterMap_cons, hgw, hgws]
    | some gw =>
      refine ⟨(gw, e.2) :: targets, ?_, ?_⟩
      · simp only [List.filterMap_cons, hgw, Option.map_some, htext, List.map_cons]
      · simp only [List.filterMap_cons, hgw, hgws, List.map_cons]

theorem emitPool_routesTo (p : PolicyRule) (group : GatewayGroup) (first : Gateway)
    (targets : List (Gateway × UInt32)) (label : List Char) :
    RoutesTo (p.emitPool group first (targets.map fun e => poolTarget e.1 e.2) label).1
      (targets.map Prod.fst) := by
  refine .pool ("pass out quick on ".toList ++ first.interface ++ ifSomeAf p.ipVersion ++
    ifSomeProto p.protocol ++ p.fromTo) (" \x7d round-robin".toList ++
    (if group.sticky = .src then " sticky-address".toList else []) ++ keepState ++
    quotedLabel (label ++ ":grp".toList)) targets ?_
  unfold emitPool poolText
  simp only [List.append_assoc]

theorem emitSetGroup_routesTo {p : PolicyRule}
    (h : p.emitSetGroup group sel gateways label = some lines) :
    RoutesTo lines.1 (selectionTargets gateways sel) := by
  unfold emitSetGroup at h
  split at h
  · cases h
  · next i =>
    obtain ⟨gw, hgw, heq⟩ := Option.map_eq_some_iff.mp h
    rw [selectionTargets, hgw, ← heq]
    exact emitSetGateway_routesTo p gw label
  · cases h
  · next head list =>
    simp only [Option.bind_eq_bind, Option.bind_eq_some_iff] at h
    obtain ⟨first, hfirst, h⟩ := h
    obtain ⟨targets, htext, hgws⟩ := filterMap_targets gateways (head :: list)
    rw [htext] at h
    by_cases hempty : (targets.map fun e => poolTarget e.1 e.2).isEmpty = true
    · rw [if_pos hempty] at h
      cases h
    · rw [if_neg hempty] at h
      have heq := Option.some.inj h
      rw [selectionTargets, hfirst, Option.isSome_some, if_pos rfl, hgws, ← heq]
      exact emitPool_routesTo p group first targets label

/-- The targets are the ones written in the emitted text. -/
theorem emit_routesTo {p : PolicyRule} (h : p.emit t = some (line, reply)) :
    p.actionKind = .setInstance ∧ p.routeTargets t = [] ∨ RoutesTo line (p.routeTargets t) := by
  unfold emit at h
  cases ha : p.actionKind with
  | setInstance =>
    left
    unfold routeTargets
    rw [ha]
    exact ⟨rfl, rfl⟩
  | setGateway =>
    right
    simp only [ha, Option.bind_eq_bind, Option.bind_eq_some_iff, Option.pure_def] at h
    obtain ⟨gw, hgw, h⟩ := h
    cases h
    unfold routeTargets
    rw [ha, hgw]
    exact emitSetGateway_routesTo p gw _
  | setGroup =>
    right
    simp only [ha, Option.bind_eq_bind, Option.bind_eq_some_iff, Option.pure_def] at h
    obtain ⟨group, hgroup, lines, hlines, h⟩ := h
    cases h
    unfold routeTargets
    rw [ha, hgroup]
    exact emitSetGroup_routesTo hlines

/-- A target that is not stored is not healthy. -/
def primaryHealthy (p : PolicyRule) (t : Tables) : Bool :=
  match p.actionKind with
  | .setInstance => (byId RoutingInstance.id t.instances p.targetId).isSome
  | .setGateway => (byId Gateway.id t.gateways p.targetId).any Gateway.usable
  | .setGroup => (byId GatewayGroup.id t.groups p.targetId).any fun group =>
      !(healthyMembers (t.groupMembers group.id) t.gateways).isEmpty

/-- The gateway the fallback of a policy names, where it could take the traffic. -/
def usableFallback (p : PolicyRule) (t : Tables) : Option Gateway :=
  (p.fallbackTargetId.bind (byId Gateway.id t.gateways)).filter Gateway.usable

/-- What one policy promises: its rule sends nothing to a gateway that cannot take it, and where
its primary target cannot, the fallback that can is the one the rule names. -/
structure AvoidsOutage (p : PolicyRule) (t : Tables) : Prop where
  live : (p.emit t).isSome → ∀ gw ∈ p.routeTargets t, gw.usable = true
  fallback : ∀ gw, p.primaryHealthy t = false → p.usableFallback t = some gw →
    (p.emit t).isSome ∧ p.routeTargets t = [gw]

/-- The condition on one policy: it does not name a gateway that is out, and no fallback is
needed. -/
def FallbackUnneeded (p : PolicyRule) (t : Tables) : Prop :=
  (p.actionKind = .setGateway →
    ∀ gw, byId Gateway.id t.gateways p.targetId = some gw → gw.usable = true) ∧
  (p.primaryHealthy t = false → p.usableFallback t = none)

end PolicyRule

theorem id_of_byId {key : α → Uuid} (h : byId key rows i = some row) : key row = i := by
  have hfound := List.find?_some h
  exact of_decide_eq_true hfound

/-- The healthy members are found again by the id of their gateway. -/
theorem usable_of_mem_healthyMembers (h : e ∈ healthyMembers members gateways) :
    e.2.usable = true ∧ byId Gateway.id gateways e.2.id = some e.2 := by
  unfold healthyMembers at h
  obtain ⟨m, -, hm⟩ := List.mem_filterMap.mp h
  cases hgw : byId Gateway.id gateways m.gatewayId with
  | none =>
    rw [hgw] at hm
    cases hm
  | some gw =>
    rw [hgw] at hm
    by_cases hu : gw.usable = true
    · have hpair : some (m, gw) = some e := (if_pos hu).symm.trans hm
      cases hpair
      refine ⟨hu, ?_⟩
      rw [id_of_byId hgw]
      exact hgw
    · have hnone : (none : Option (GroupMember × Gateway)) = some e := (if_neg hu).symm.trans hm
      cases hnone

theorem mem_of_mem_lowestTier (h : e ∈ lowestTier healthy) : e ∈ healthy :=
  List.mem_of_mem_filter h

namespace PolicyRule

theorem usable_of_weighted {entries : List (GroupMember × Gateway)}
    {f : GroupMember × Gateway → UInt32}
    (hentries : ∀ e ∈ entries, e ∈ healthyMembers members gateways)
    (h : gw ∈ selectionTargets gateways (.weightedList (entries.map fun e => (e.2.id, f e)))) :
    gw.usable = true := by
  cases entries with
  | nil => cases h
  | cons first entries =>
    have hfirst := usable_of_mem_healthyMembers (hentries first List.mem_cons_self)
    rw [List.map_cons, selectionTargets, hfirst.2, Option.isSome_some, if_pos rfl] at h
    obtain ⟨entry, hentry, hgw⟩ := List.mem_filterMap.mp h
    obtain ⟨e, he, rfl⟩ : ∃ e ∈ first :: entries, (e.2.id, f e) = entry :=
      List.mem_map.mp (List.map_cons ▸ hentry)
    have hmember := usable_of_mem_healthyMembers (hentries e he)
    have heq : e.2 = gw := Option.some.inj (hmember.2.symm.trans hgw)
    rw [← heq]
    exact hmember.1

/-- What a group picks is up, enabled and stored. -/
theorem usable_of_select (h : gw ∈ selectionTargets gateways (select group members gateways)) :
    gw.usable = true := by
  simp only [select] at h
  split at h
  · cases h
  · cases hp : group.policy with
    | failover =>
      simp only [hp] at h
      cases hbest : maxByKey failoverKey (lowestTier (healthyMembers members gateways)) with
      | none =>
        rw [hbest] at h
        cases h
      | some best =>
        rw [hbest] at h
        have hmember := usable_of_mem_healthyMembers
          (mem_of_mem_lowestTier (maxByKey_mem hbest))
        simp only [selectionTargets, hmember.2, Option.toList_some, List.mem_singleton] at h
        rw [h]
        exact hmember.1
    | weightedLb =>
      simp only [hp] at h
      exact usable_of_weighted (fun e he => mem_of_mem_lowestTier he) h
    | loadBalance =>
      simp only [hp] at h
      exact usable_of_weighted (fun e he => mem_of_mem_lowestTier he) h
    | adaptive =>
      simp only [hp] at h
      exact usable_of_weighted (fun e he => mem_of_mem_lowestTier he) h

/-- With no healthy member a group selects nothing and the policy is left out. -/
theorem emit_setGroup_unhealthy {p : PolicyRule} (ha : p.actionKind = .setGroup)
    (h : p.primaryHealthy t = false) : p.emit t = none := by
  unfold emit
  simp only [ha, Option.bind_eq_bind]
  cases hg : byId GatewayGroup.id t.groups p.targetId with
  | none => rfl
  | some group =>
    simp only [primaryHealthy, ha, hg, Option.any_some, Bool.not_eq_false'] at h
    simp only [Option.bind_some, select, h, if_true, emitSetGroup, Option.bind_none]

theorem routeTargets_setGateway {p : PolicyRule} (ha : p.actionKind = .setGateway) :
    p.routeTargets t = (byId Gateway.id t.gateways p.targetId).toList := by
  unfold routeTargets
  rw [ha]

theorem avoidsOutage_of_unneeded {p : PolicyRule} (h : p.FallbackUnneeded t) :
    p.AvoidsOutage t := by
  refine ⟨?_, ?_⟩
  · intro _ gw hgw
    cases ha : p.actionKind with
    | setInstance =>
      unfold routeTargets at hgw
      rw [ha] at hgw
      cases hgw
    | setGateway =>
      rw [routeTargets_setGateway ha] at hgw
      exact h.1 ha gw (Option.mem_toList.mp hgw)
    | setGroup =>
      unfold routeTargets at hgw
      rw [ha] at hgw
      cases hg : byId GatewayGroup.id t.groups p.targetId with
      | none =>
        rw [hg] at hgw
        cases hgw
      | some group =>
        rw [hg] at hgw
        exact usable_of_select hgw
  · intro gw hdown hfallback
    rw [h.2 hdown] at hfallback
    cases hfallback

/-- A rule towards the fallback is never written. -/
theorem not_fallback {p : PolicyRule} (hdown : p.primaryHealthy t = false)
    (hfallback : p.usableFallback t = some gw) :
    ¬((p.emit t).isSome ∧ p.routeTargets t = [gw]) := by
  rintro ⟨hemit, htargets⟩
  cases ha : p.actionKind with
  | setInstance =>
    unfold routeTargets at htargets
    rw [ha] at htargets
    cases htargets
  | setGateway =>
    rw [routeTargets_setGateway ha, Option.toList_eq_singleton_iff] at htargets
    have husable : gw.usable = true := (Option.filter_eq_some_iff.mp hfallback).2
    simp only [primaryHealthy, ha, htargets, Option.any_some, husable] at hdown
    cases hdown
  | setGroup =>
    rw [emit_setGroup_unhealthy ha hdown] at hemit
    cases hemit

theorem emit_setGateway_isSome {p : PolicyRule} (ha : p.actionKind = .setGateway)
    (h : byId Gateway.id t.gateways p.targetId = some gw) : (p.emit t).isSome := by
  unfold emit
  simp only [ha, h, Option.bind_eq_bind, Option.bind_some, Option.pure_def, Option.isSome_some]

theorem unneeded_of_avoidsOutage {p : PolicyRule} (h : p.AvoidsOutage t) :
    p.FallbackUnneeded t := by
  refine ⟨?_, ?_⟩
  · intro ha gw hgw
    refine h.live (emit_setGateway_isSome ha hgw) gw ?_
    rw [routeTargets_setGateway ha]
    exact Option.mem_toList.mpr hgw
  · intro hdown
    cases hfallback : p.usableFallback t with
    | none => rfl
    | some gw => exact absurd (h.fallback gw hdown hfallback) (not_fallback hdown hfallback)

end PolicyRule

theorem compile_avoidsOutage_iff (policies : List PolicyRule) (t : Tables) :
    (∀ line ∈ (compile policies t).pbr, ∃ p ∈ policies, p.status = .active ∧
      (p.actionKind = .setInstance ∧ p.routeTargets t = [] ∨
        PolicyRule.RoutesTo line (p.routeTargets t))) ∧
    ((∀ p ∈ policies, p.status = .active → p.AvoidsOutage t) ↔
      ∀ p ∈ policies, p.status = .active → p.FallbackUnneeded t) := by
  refine ⟨?_, ?_, ?_⟩
  · intro line hline
    obtain ⟨p, hp, hactive, reply, hemit⟩ := mem_compile_pbr.mp hline
    exact ⟨p, hp, hactive, PolicyRule.emit_routesTo hemit⟩
  · intro h p hp hactive
    exact PolicyRule.unneeded_of_avoidsOutage (h p hp hactive)
  · intro h p hp hactive
    exact PolicyRule.avoidsOutage_of_unneeded (h p hp hactive)

def downTables : Tables where
  instances := []
  gateways := [
    { id := 1, interface := "em0".toList, nextHop := "192.0.2.1".toList, enabled := true,
      state := .down, lastMos := none },
    { id := 2, interface := "em1".toList, nextHop := "198.51.100.1".toList, enabled := true,
      state := .up, lastMos := none }]
  groups := []
  groupMembers := fun _ => []

def pinnedPolicy : PolicyRule where
  id := 7
  status := .active
  ipVersion := .v4
  ifaceIn := none
  srcAddr := "any".toList
  dstAddr := "any".toList
  srcPort := none
  dstPort := none
  protocol := .any
  actionKind := .setGateway
  targetId := 1
  fallbackTargetId := some 2

/-- The first gateway is out and the second could take its traffic; the rule still names the
first. -/
theorem pinnedPolicy_routes_down :
    ∃ gw ∈ pinnedPolicy.routeTargets downTables, gw.state = .down ∧
      pinnedPolicy.primaryHealthy downTables = false ∧
      (pinnedPolicy.usableFallback downTables).map Gateway.id = some 2 ∧
      ¬ ∀ p ∈ [pinnedPolicy], p.status = .active → p.AvoidsOutage downTables := by
  have hgw : byId Gateway.id downTables.gateways pinnedPolicy.targetId =
      downTables.gateways.head? := rfl
  have htargets : pinnedPolicy.routeTargets downTables = downTables.gateways.head?.toList := rfl
  refine ⟨downTables.gateways.head (by simp [downTables]), ?_, rfl, rfl, rfl, ?_⟩
  · rw [htargets]
    exact List.mem_singleton.mpr rfl
  · intro h
    have hunneeded := PolicyRule.unneeded_of_avoidsOutage
      (h pinnedPolicy List.mem_cons_self rfl)
    have husable := hunneeded.1 rfl _ hgw
    cases husable

end AiFw.Wan
