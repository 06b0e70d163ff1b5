import AiFw.Lib.ListOrder
import AiFw.Wan.Instance
import Mathlib.Data.Char
import Mathlib.Data.List.Lex

namespace AiFw.Wan
open AiFw.Lib
set_option autoImplicit true

structure GatewayRow extends Gateway where
  name : List Char
  instanceId : Uuid

structure GroupRow extends GatewayGroup where
  name : List Char

structure MemberRow extends GroupMember where
  groupId : Uuid

structure PolicyRow extends PolicyRule where
  priority : Int64
  name : List Char

/-- The tables the policies are compiled from. -/
structure PolicyStore where
  base : InstanceStore
  gateways : List GatewayRow
  groups : List GroupRow
  members : List MemberRow
  policies : List PolicyRow

def notFoundError (kind : String) (id : Uuid) : AifwError :=
  .notFound (kind.toList ++ ' ' :: displayUuid id ++ " not found".toList)

namespace PolicyStore

def updateInstance (s : PolicyStore) (inst : InstanceRow) : Except AifwError PolicyStore :=
  (s.base.update inst).map fun base => { s with base }

/-- The gateways go with their instance, and their memberships with them. -/
def deleteInstance (s : PolicyStore) (id : Uuid) : Except AifwError PolicyStore :=
  (s.base.delete id).map fun base =>
    let gone := (s.gateways.filter fun g => g.instanceId = id).map fun g => g.id
    { s with
      base
      gateways := dropKey (fun g => g.instanceId) id s.gateways
      members := s.members.filter fun m => m.gatewayId ∉ gone }

def instanceOp (fibCount : UInt32) (s : PolicyStore) : InstanceStore.Op → Except AifwError PolicyStore
  | .update inst => s.updateInstance inst
  | .delete id => s.deleteInstance id
  | op => (s.base.call fibCount op).map fun base => { s with base }

/-- What the constraints of the table refuse: a name of another gateway, an instance that is not
there. -/
def gatewayRefused (s : PolicyStore) (gw : GatewayRow) : Bool :=
  (s.gateways.any fun g => g.id ≠ gw.id && g.name = gw.name) ||
    !hasKey (fun i => i.id) gw.instanceId s.base.instances

def addGateway (s : PolicyStore) (gw : GatewayRow) : Except AifwError PolicyStore :=
  if (trim gw.name).isEmpty then .error (.validation "gateway name required".toList)
  else if hasKey (fun g => g.id) gw.id s.gateways || s.gatewayRefused gw then .error .database
  else .ok { s with gateways := s.gateways ++ [gw] }

/-- The columns of the probes stay as they are. -/
def updateGateway (s : PolicyStore) (gw : GatewayRow) : Except AifwError PolicyStore :=
  if hasKey (fun g => g.id) gw.id s.gateways = false then .error (notFoundError "gateway" gw.id)
  else if s.gatewayRefused gw then .error .database
  else .ok { s with gateways := s.gateways.map fun g =>
    if g.id = gw.id then { gw with state := g.state, lastMos := g.lastMos } else g }

def deleteGateway (s : PolicyStore) (id : Uuid) : Except AifwError PolicyStore :=
  if hasKey (fun g => g.id) id s.gateways = false then .error (notFoundError "gateway" id)
  else .ok { s with
    gateways := dropKey (fun g => g.id) id s.gateways
    members := dropKey (fun m => m.gatewayId) id s.members }

/-- What `persist_state` writes of a probe. -/
def persistState (s : PolicyStore) (id : Uuid) (state : GatewayState) (mos : Option F64) :
    PolicyStore :=
  { s with gateways := s.gateways.map fun g =>
    if g.id = id then { g with state := state, lastMos := mos } else g }

def groupNameTaken (s : PolicyStore) (g : GroupRow) : Bool :=
  s.groups.any fun g' => g'.id ≠ g.id && g'.name = g.name

def addGroup (s : PolicyStore) (g : GroupRow) : Except AifwError PolicyStore :=
  if hasKey (fun g => g.id) g.id s.groups || s.groupNameTaken g then .error .database
  else .ok { s with groups := s.groups ++ [g] }

def updateGroup (s : PolicyStore) (g : GroupRow) : Except AifwError PolicyStore :=
  if hasKey (fun g => g.id) g.id s.groups = false then .error (notFoundError "group" g.id)
  else if s.groupNameTaken g then .error .database
  else .ok { s with groups := setRow (fun g => g.id) g s.groups }

def deleteGroup (s : PolicyStore) (id : Uuid) : Except AifwError PolicyStore :=
  if hasKey (fun g => g.id) id s.groups = false then .error (notFoundError "group" id)
  else .ok { s with
    groups := dropKey (fun g => g.id) id s.groups
    members := dropKey MemberRow.groupId id s.members }

def MemberRow.key (m : MemberRow) : Uuid × Uuid := (m.groupId, m.gatewayId)

/-- A membership that is there already is replaced. -/
def addMember (s : PolicyStore) (m : MemberRow) : Except AifwError PolicyStore :=
  if hasKey (fun g => g.id) m.groupId s.groups && hasKey (fun g => g.id) m.gatewayId s.gateways then
    .ok { s with members := dropKey MemberRow.key (MemberRow.key m) s.members ++ [m] }
  else .error .database

def removeMember (s : PolicyStore) (groupId gatewayId : Uuid) : Except AifwError PolicyStore :=
  if hasKey MemberRow.key (groupId, gatewayId) s.members then
    .ok { s with members := dropKey MemberRow.key (groupId, gatewayId) s.members }
  else .error (.notFound "member not in group".toList)

def getPolicy (s : PolicyStore) (id : Uuid) : Except AifwError PolicyRow :=
  match s.policies.find? fun p => p.id = id with
  | some p => .ok p
  | none => .error (notFoundError "policy" id)

/-- Neither the target nor the texts of a policy are checked. -/
def addPolicy (s : PolicyStore) (p : PolicyRow) : Except AifwError PolicyStore :=
  if hasKey (fun p => p.id) p.id s.policies then .error .database
  else .ok { s with policies := s.policies ++ [p] }

def updatePolicy (s : PolicyStore) (p : PolicyRow) : Except AifwError PolicyStore :=
  if hasKey (fun p => p.id) p.id s.policies = false then .error (notFoundError "policy" p.id)
  else .ok { s with policies := setRow (fun p => p.id) p s.policies }

def deletePolicy (s : PolicyStore) (id : Uuid) : Except AifwError PolicyStore :=
  if hasKey (fun p => p.id) id s.policies = false then .error (notFoundError "policy" id)
  else .ok { s with policies := dropKey (fun p => p.id) id s.policies }

/-- Policies get the numbers of their places. What was written before one is missed stays. -/
def reorderFrom (i : Nat) (s : PolicyStore) : List Uuid → PolicyStore × Bool
  | [] => (s, true)
  | id :: ids =>
    match s.getPolicy id >>= fun p => s.updatePolicy { p with priority := Int64.ofNat i + 1 } with
    | .ok s' => reorderFrom (i + 1) s' ids
    | .error _ => (s, false)

/-- The copy starts disabled. -/
def duplicatePolicy (s : PolicyStore) (id newId : Uuid) : Except AifwError PolicyStore := do
  let src ← s.getPolicy id
  s.addPolicy { src with
    id := newId
    priority := src.priority + 1
    name := src.name ++ "-copy".toList
    status := .disabled }

def togglePolicy (s : PolicyStore) (id : Uuid) (enabled : Bool) : Except AifwError PolicyStore := do
  let p ← s.getPolicy id
  s.updatePolicy { p with status := if enabled then .active else .disabled }

structure ConfigYaml where
  instances : List InstanceRow
  gateways : List GatewayRow
  groups : List GroupRow
  policies : List PolicyRow

/-- An import goes on after an entry that is refused. -/
def keep (s : PolicyStore) : Except AifwError PolicyStore → PolicyStore
  | .ok s' => s'
  | .error _ => s

def importInstance (fibCount : UInt32) (s : PolicyStore) (inst : InstanceRow) : PolicyStore :=
  if inst.mgmtReachable then s
  else if hasKey (fun i => i.id) inst.id s.base.instances then s.keep (s.updateInstance inst)
  else s.keep (s.instanceOp fibCount (.add inst))

def importGateway (s : PolicyStore) (gw : GatewayRow) : PolicyStore :=
  if hasKey (fun g => g.id) gw.id s.gateways then s.keep (s.updateGateway gw)
  else s.keep (s.addGateway gw)

def importGroup (s : PolicyStore) (g : GroupRow) : PolicyStore :=
  if hasKey (fun g => g.id) g.id s.groups then s.keep (s.updateGroup g) else s.keep (s.addGroup g)

def importPolicy (s : PolicyStore) (p : PolicyRow) : PolicyStore :=
  if hasKey (fun p => p.id) p.id s.policies then s.keep (s.updatePolicy p)
  else s.keep (s.addPolicy p)

def importConfig (fibCount : UInt32) (s : PolicyStore) (cfg : ConfigYaml) : PolicyStore :=
  let s := cfg.instances.foldl (importInstance fibCount) s
  let s := cfg.gateways.foldl importGateway s
  let s := cfg.groups.foldl importGroup s
  cfg.policies.foldl importPolicy s

def listInstances (s : PolicyStore) : List RoutingInstance :=
  (s.base.instances.mergeSort fun a b => a.fibNumber ≤ b.fibNumber).map fun i => i.toRoutingInstance

def listGateways (s : PolicyStore) : List Gateway :=
  (s.gateways.mergeSort fun a b => a.name ≤ b.name).map fun g => g.toGateway

def listGroups (s : PolicyStore) : List GatewayGroup :=
  (s.groups.mergeSort fun a b => a.name ≤ b.name).map fun g => g.toGatewayGroup

/-- By tier, and the heavier first. -/
def memberLe (a b : MemberRow) : Bool := a.tier < b.tier || a.tier = b.tier && b.weight ≤ a.weight

def listMembers (s : PolicyStore) (groupId : Uuid) : List GroupMember :=
  ((s.members.filter fun m => m.groupId = groupId).mergeSort memberLe).map fun m => m.toGroupMember

def priorityLe (a b : PolicyRow) : Bool := a.priority ≤ b.priority

def listPolicies (s : PolicyStore) : List PolicyRule :=
  (s.policies.mergeSort priorityLe).map fun p => p.toPolicyRule

/-- The members as they are read for the groups of a list. -/
def membersOf (s : PolicyStore) (groups : List GatewayGroup) : List (Uuid × List GroupMember) :=
  groups.map fun g => (g.id, s.listMembers g.id)

end PolicyStore

def tablesOf (instances : List RoutingInstance) (gateways : List Gateway)
    (groups : List GatewayGroup) (members : List (Uuid × List GroupMember)) : Tables where
  instances := instances
  gateways := gateways
  groups := groups
  groupMembers := fun id => ((byId Prod.fst members id).map Prod.snd).getD []

/-- `PolicyEngine::compile` of what is stored. -/
def PolicyStore.compiled (s : PolicyStore) : CompiledPolicies :=
  compile s.listPolicies
    (tablesOf s.listInstances s.listGateways s.listGroups (s.membersOf s.listGroups))

theorem PolicyStore.addPolicy_ok {s s' : PolicyStore} (h : s.addPolicy p = .ok s') :
    s' = { s with policies := s.policies ++ [p] } := by
  unfold addPolicy at h
  split at h
  · cases h
  · cases h
    rfl

theorem PolicyStore.duplicatePolicy_ok {s s' : PolicyStore} {id newId : Uuid}
    (h : s.duplicatePolicy id newId = .ok s') :
    ∃ p : PolicyRow, p.status = .disabled ∧ s' = { s with policies := s.policies ++ [p] } := by
  unfold duplicatePolicy at h
  cases hget : s.getPolicy id with
  | error e =>
    rw [hget] at h
    cases h
  | ok src =>
    rw [hget] at h
    exact ⟨_, rfl, addPolicy_ok h⟩

theorem compile_filter_active (policies : List PolicyRule) (t : Tables) :
    compile (policies.filter fun p => p.status = .active) t = compile policies t := by
  unfold compile
  rw [List.filter_filter]
  simp only [Bool.and_self]

/-- A disabled policy more leaves what is compiled as it was, whatever the tables. -/
theorem compile_append_disabled (s : PolicyStore) (p : PolicyRow) (hp : p.status = .disabled)
    (t : Tables) : compile ({ s with policies := s.policies ++ [p] } : PolicyStore).listPolicies t =
      compile s.listPolicies t := by
  have htrans : ∀ a b c : PolicyRow, PolicyStore.priorityLe a b = true →
      PolicyStore.priorityLe b c = true → PolicyStore.priorityLe a c = true := by
    intro a b c hab hbc
    exact decide_eq_true (Int64.le_trans (of_decide_eq_true hab) (of_decide_eq_true hbc))
  have htotal : ∀ a b : PolicyRow,
      (PolicyStore.priorityLe a b || PolicyStore.priorityLe b a) = true := by
    intro a b
    rw [Bool.or_eq_true]
    exact (Int64.le_total a.priority b.priority).imp decide_eq_true decide_eq_true
  have hactive : ∀ rows : List PolicyRow,
      ((rows.mergeSort PolicyStore.priorityLe).map fun p => p.toPolicyRule).filter
        (fun p => p.status = .active) =
      ((rows.filter fun p => p.status = .active).mergeSort PolicyStore.priorityLe).map
        fun p => p.toPolicyRule := by
    intro rows
    rw [← filter_mergeSort htrans htotal, List.filter_map]
    rfl
  have hdrop : (s.policies ++ [p]).filter (fun p => p.status = .active) =
      s.policies.filter fun p => p.status = .active := by
    rw [List.filter_append, List.filter_cons_of_neg, List.filter_nil, List.append_nil]
    rw [hp]
    decide
  rw [← compile_filter_active, PolicyStore.listPolicies, hactive, hdrop, ← hactive,
    compile_filter_active]
  rfl

end AiFw.Wan
