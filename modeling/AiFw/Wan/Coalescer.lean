import AiFw.Wan.PolicyStore

namespace AiFw.Wan
open AiFw.Lib
set_option autoImplicit true

/-- The calls of the API that write the tables. -/
inductive WanCall where
  | instanceOp (op : InstanceStore.Op)
  | createGateway (gw : GatewayRow)
  | updateGateway (gw : GatewayRow)
  | deleteGateway (id : Uuid)
  | createGroup (g : GroupRow)
  | updateGroup (g : GroupRow)
  | deleteGroup (id : Uuid)
  | addGroupMember (m : MemberRow)
  | removeGroupMember (groupId gatewayId : Uuid)
  | createPolicy (p : PolicyRow)
  | updatePolicy (p : PolicyRow)
  | deletePolicy (id : Uuid)
  | reorderPolicies (ids : List Uuid)
  | duplicatePolicy (id newId : Uuid)
  | togglePolicy (id : Uuid) (enabled : Bool)
  | importConfig (cfg : PolicyStore.ConfigYaml)

/-- The tables a call leaves and whether it went through. -/
def PolicyStore.settle (s : PolicyStore) : Except AifwError PolicyStore → PolicyStore × Bool
  | .ok s' => (s', true)
  | .error _ => (s, false)

def WanCall.run (fibCount : UInt32) (s : PolicyStore) : WanCall → PolicyStore × Bool
  | instanceOp op => s.settle (s.instanceOp fibCount op)
  | createGateway gw => s.settle (s.addGateway { gw with state := .unknown, lastMos := none })
  | updateGateway gw => s.settle (s.updateGateway gw)
  | deleteGateway id => s.settle (s.deleteGateway id)
  | createGroup g => s.settle (s.addGroup g)
  | updateGroup g => s.settle (s.updateGroup g)
  | deleteGroup id => s.settle (s.deleteGroup id)
  | addGroupMember m => s.settle (s.addMember m)
  | removeGroupMember groupId gatewayId => s.settle (s.removeMember groupId gatewayId)
  | createPolicy p => s.settle (s.addPolicy p)
  | updatePolicy p => s.settle (s.updatePolicy p)
  | deletePolicy id => s.settle (s.deletePolicy id)
  | reorderPolicies ids => s.reorderFrom 0 ids
  | duplicatePolicy id newId => s.settle (s.duplicatePolicy id newId)
  | togglePolicy id enabled => s.settle (s.togglePolicy id enabled)
  | importConfig cfg => (s.importConfig fibCount cfg, true)

/-- The calls after which `mark_policies_dirty` stands. -/
def WanCall.marks : WanCall → Bool
  | createPolicy _ | updatePolicy _ | deletePolicy _ | reorderPolicies _ | togglePolicy _ _
  | importConfig _ => true
  | instanceOp _ | createGateway _ | updateGateway _ | deleteGateway _ | createGroup _
  | updateGroup _ | deleteGroup _ | addGroupMember _ | removeGroupMember _ _
  | duplicatePolicy _ _ => false

/-- Where `apply_all` is, with what it has read. -/
inductive Drain where
  | idle
  | readInstances
  | readGateways (instances : List RoutingInstance)
  | readGroups (instances : List RoutingInstance) (gateways : List Gateway)
  | readMembers (instances : List RoutingInstance) (gateways : List Gateway)
      (groups : List GatewayGroup) (got : List (Uuid × List GroupMember))
      (todo : List GatewayGroup)
  | readPolicies (t : Tables)
  | loadPbr (c : CompiledPolicies)
  | loadReply (c : CompiledPolicies)

namespace Drain

/-- One statement of `apply_all`, over the tables and the two anchors. -/
def next (s : PolicyStore) (anchors : CompiledPolicies) : Drain → Drain × CompiledPolicies
  | idle => (idle, anchors)
  | readInstances => (readGateways s.listInstances, anchors)
  | readGateways instances => (readGroups instances s.listGateways, anchors)
  | readGroups instances gateways =>
    (readMembers instances gateways s.listGroups [] s.listGroups, anchors)
  | readMembers instances gateways groups got [] =>
    (readPolicies (tablesOf instances gateways groups got), anchors)
  | readMembers instances gateways groups got (g :: todo) =>
    (readMembers instances gateways groups (got ++ [(g.id, s.listMembers g.id)]) todo, anchors)
  | readPolicies t => (loadPbr (compile s.listPolicies t), anchors)
  | loadPbr c => (loadReply c, { anchors with pbr := c.pbr })
  | loadReply c => (idle, { anchors with reply := c.reply })

/-- What the anchors will hold once this is done, if nothing is written before. -/
def outcome (s : PolicyStore) (anchors : CompiledPolicies) : Drain → CompiledPolicies
  | idle => anchors
  | readInstances => s.compiled
  | readGateways instances =>
    compile s.listPolicies
      (tablesOf instances s.listGateways s.listGroups (s.membersOf s.listGroups))
  | readGroups instances gateways =>
    compile s.listPolicies (tablesOf instances gateways s.listGroups (s.membersOf s.listGroups))
  | readMembers instances gateways groups got todo =>
    compile s.listPolicies (tablesOf instances gateways groups (got ++ s.membersOf todo))
  | readPolicies t => compile s.listPolicies t
  | loadPbr c => c
  | loadReply c => { anchors with reply := c.reply }

theorem outcome_next (s : PolicyStore) (anchors : CompiledPolicies) (d : Drain) :
    (d.next s anchors).1.outcome s (d.next s anchors).2 = d.outcome s anchors := by
  cases d with
  | idle => rfl
  | readInstances => rfl
  | readGateways instances => rfl
  | readGroups instances gateways => rfl
  | readMembers instances gateways groups got todo =>
    cases todo with
    | nil =>
      simp only [next, outcome, PolicyStore.membersOf, List.map_nil, List.append_nil]
    | cons g todo =>
      simp only [next, outcome, PolicyStore.membersOf, List.map_cons, List.append_assoc,
        List.singleton_append]
  | readPolicies t => rfl
  | loadPbr c => rfl
  | loadReply c => rfl

/-- What a running drain will load depends on the policies only through what they compile to. -/
theorem outcome_congr (s s' : PolicyStore)
    (hlists : s'.listInstances = s.listInstances ∧ s'.listGateways = s.listGateways ∧
      s'.listGroups = s.listGroups ∧ s'.listMembers = s.listMembers)
    (hpolicies : ∀ t, compile s'.listPolicies t = compile s.listPolicies t)
    (anchors : CompiledPolicies) (d : Drain) : d.outcome s' anchors = d.outcome s anchors := by
  obtain ⟨hi, hg, hgr, hm⟩ := hlists
  cases d <;>
    simp only [outcome, PolicyStore.compiled, PolicyStore.membersOf, hi, hg, hgr, hm, hpolicies]

end Drain

/-- The tables, the flag of the coalescer, the drain, and what the two anchors hold. -/
structure WanSystem where
  store : PolicyStore
  dirty : Bool
  drain : Drain
  anchors : CompiledPolicies

inductive WanEvent where
  | call (c : WanCall)
  | sample (id : Uuid) (state : GatewayState) (mos : Option F64)
  | drain

namespace WanSystem

/-- The daemon applies the policies at boot. -/
def boot (store : PolicyStore) : WanSystem := ⟨store, false, .idle, store.compiled⟩

/-- A drain begins by taking the flag and ends with both anchors loaded. -/
def drainStep (s : WanSystem) : WanSystem :=
  match s.drain with
  | .idle => if s.dirty then { s with dirty := false, drain := .readInstances } else s
  | d => { s with drain := (d.next s.store s.anchors).1, anchors := (d.next s.store s.anchors).2 }

def step (fibCount : UInt32) (s : WanSystem) : WanEvent → WanSystem
  | .call c =>
    { s with
      store := (c.run fibCount s.store).1
      dirty := s.dirty || (c.run fibCount s.store).2 && c.marks }
  | .sample id state mos => { s with store := s.store.persistState id state mos }
  | .drain => s.drainStep

/-- With the flag clear and no drain running, the anchors hold what is stored. -/
def Follows (s : WanSystem) : Prop :=
  s.dirty = false → s.drain = .idle → s.anchors = s.store.compiled

/-- New tables that need no drain: with none running they compile to the same, and one that is
running still loads what they compile to. -/
def Unseen (s : WanSystem) (store : PolicyStore) : Prop :=
  (s.drain = .idle → store.compiled = s.store.compiled) ∧
    (s.drain ≠ .idle → s.drain.outcome store s.anchors = store.compiled)

/-- What is written without the flag, while it is clear, needs no drain. -/
def Careful (fibCount : UInt32) (s : WanSystem) : WanEvent → Prop
  | .call (.duplicatePolicy _ _) => True
  | .call c =>
    ((c.run fibCount s.store).2 && c.marks) = false → s.dirty = false →
      s.Unseen (c.run fibCount s.store).1
  | .sample id state mos => s.dirty = false → s.Unseen (s.store.persistState id state mos)
  | .drain => True

/-- With the flag clear, what the anchors hold or will hold is what is stored. -/
def Current (s : WanSystem) : Prop :=
  s.dirty = false → s.drain.outcome s.store s.anchors = s.store.compiled

theorem Current.follows {s : WanSystem} (h : s.Current) : s.Follows := by
  intro hdirty hidle
  have hcurrent := h hdirty
  rw [hidle] at hcurrent
  exact hcurrent

theorem Current.boot (store : PolicyStore) : (boot store).Current := fun _ => rfl

theorem Current.drainStep {s : WanSystem} (h : s.Current) : s.drainStep.Current := by
  unfold WanSystem.drainStep
  split
  · split
    · intro _
      rfl
    · exact h
  · intro hdirty
    exact (Drain.outcome_next s.store s.anchors s.drain).trans (h hdirty)

theorem Current.write {s : WanSystem} {store : PolicyStore} (h : s.Current) (hdirty : s.dirty = false)
    (hunseen : s.Unseen store) : s.drain.outcome store s.anchors = store.compiled := by
  by_cases hidle : s.drain = .idle
  · have hcurrent := h hdirty
    rw [hidle] at hcurrent ⊢
    exact hcurrent.trans (hunseen.1 hidle).symm
  · exact hunseen.2 hidle

/-- A copied policy is compiled by no drain. -/
theorem Current.duplicatePolicy {s : WanSystem} (h : s.Current) (hdirty : s.dirty = false)
    (id newId : Uuid) :
    s.drain.outcome (s.store.settle (s.store.duplicatePolicy id newId)).1 s.anchors =
      (s.store.settle (s.store.duplicatePolicy id newId)).1.compiled := by
  cases hdup : s.store.duplicatePolicy id newId with
  | error e => exact h hdirty
  | ok store =>
    obtain ⟨p, hp, rfl⟩ := PolicyStore.duplicatePolicy_ok hdup
    have hpolicies := compile_append_disabled s.store p hp
    have hcompiled := hpolicies (tablesOf s.store.listInstances s.store.listGateways
      s.store.listGroups (s.store.membersOf s.store.listGroups))
    have houtcome := Drain.outcome_congr s.store
      { s.store with policies := s.store.policies ++ [p] }
      ⟨rfl, rfl, rfl, rfl⟩ hpolicies s.anchors s.drain
    exact (houtcome.trans (h hdirty)).trans hcompiled.symm

theorem Current.step {s : WanSystem} (h : s.Current) (hc : Careful fibCount s e) :
    (s.step fibCount e).Current := by
  cases e with
  | call c =>
    intro hdirty
    rw [WanSystem.step, Bool.or_eq_false_iff] at hdirty
    obtain ⟨hclear, hunmarked⟩ := hdirty
    cases c with
    | duplicatePolicy id newId => exact h.duplicatePolicy hclear id newId
    | _ => exact h.write hclear (hc hunmarked hclear)
  | sample id state mos => exact fun hdirty => h.write hdirty (hc hdirty)
  | drain => exact h.drainStep

/-- In every run whose unmarked writes need no drain while the flag is clear, the anchors hold what
is stored whenever the flag is clear and no drain is running. -/
theorem follows_of_careful (fibCount : UInt32) (store : PolicyStore) (events past : List WanEvent)
    (h : Along (step fibCount) (Careful fibCount) (boot store) events) (hp : past <+: events) :
    Follows (past.foldl (step fibCount) (boot store)) := by
  have hcurrent := h.reaches Current (fun s e hs hc => hs.step hc) (Current.boot store) hp
  exact hcurrent.follows

def wan1 : GatewayRow where
  id := 11
  interface := "em0".toList
  nextHop := "203.0.113.1".toList
  enabled := true
  state := .up
  lastMos := none
  name := "wan1".toList
  instanceId := defaultInstanceId

def viaWan1 : PolicyRow where
  id := 21
  status := .active
  ipVersion := .v4
  ifaceIn := none
  srcAddr := "any".toList
  dstAddr := "any".toList
  srcPort := none
  dstPort := none
  protocol := .any
  actionKind := .setGateway
  targetId := 11
  fallbackTargetId := none
  priority := 1
  name := "via wan1".toList

def oneGateway : PolicyStore := ⟨.migrate, [wan1], [], [], [viaWan1]⟩

/-- The policy is switched off and its gateway deleted before the drain. -/
def retired : List WanEvent :=
  [.call (.togglePolicy 21 false), .call (.deleteGateway 11), .drain, .drain, .drain, .drain, .drain,
    .drain, .drain, .drain]

theorem careful_retired : Along (step 1) (Careful 1) (boot oneGateway) retired := by
  refine ⟨?_, ?_, trivial, trivial, trivial, trivial, trivial, trivial, trivial, trivial, trivial⟩
  · intro hunmarked
    exact absurd hunmarked (by decide)
  · intro _ hclear
    exact absurd hclear (by decide)

theorem follows_retired : Follows (retired.foldl (step 1) (boot oneGateway)) :=
  follows_of_careful 1 oneGateway retired retired careful_retired (List.prefix_refl retired)

theorem compiled_oneGateway :
    oneGateway.compiled.pbr = [(viaWan1.emitSetGateway wan1.toGateway
      ("pbr:".toList ++ displayUuid 21)).1] := by
  simp [PolicyStore.compiled, oneGateway, PolicyStore.listPolicies, PolicyStore.listGateways,
    compile, PolicyRule.emit, tablesOf, byId, viaWan1, wan1]

theorem deleted_gateway_loaded :
    ((WanCall.deleteGateway 11).run 1 oneGateway).2 = true ∧
      ¬ Follows ([WanEvent.call (.deleteGateway 11)].foldl (step 1) (boot oneGateway)) := by
  refine ⟨rfl, ?_⟩
  intro h
  have hload := congrArg CompiledPolicies.pbr (h rfl rfl)
  have hboot : ([WanEvent.call (.deleteGateway 11)].foldl (step 1) (boot oneGateway)).anchors.pbr =
      oneGateway.compiled.pbr := rfl
  have hnow : ([WanEvent.call (.deleteGateway 11)].foldl (step 1) (boot oneGateway)).store =
      ⟨.migrate, [], [], [], [viaWan1]⟩ := rfl
  have hempty : (PolicyStore.mk .migrate [] [] [] [viaWan1]).compiled.pbr = [] := by
    simp [PolicyStore.compiled, PolicyStore.listPolicies, PolicyStore.listGateways,
      compile, PolicyRule.emit, tablesOf, byId, viaWan1]
  rw [hboot, hnow, hempty, compiled_oneGateway] at hload
  cases hload

end WanSystem

end AiFw.Wan
