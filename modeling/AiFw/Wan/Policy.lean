import AiFw.Lib.Buckets
import AiFw.Pf.Types
import AiFw.Wan.Gateway

namespace AiFw.Wan
open AiFw.Lib AiFw.Pf
set_option autoImplicit true

abbrev Uuid := BitVec 128

/-- A gateway as the compilation of the policies reads it. -/
structure Gateway where
  id : Uuid
  interface : List Char
  nextHop : List Char
  enabled : Bool
  state : GatewayState
  lastMos : Option F64

inductive GroupPolicy where
  | failover
  | weightedLb
  | adaptive
  | loadBalance
deriving DecidableEq, Repr

inductive StickyMode where
  | none
  | src
  | fiveTuple
deriving DecidableEq, Repr

structure GatewayGroup where
  id : Uuid
  policy : GroupPolicy
  sticky : StickyMode

structure GroupMember where
  gatewayId : Uuid
  tier : UInt32
  weight : UInt32

inductive Selection where
  | none
  | single (id : Uuid)
  | weightedList (list : List (Uuid × UInt32))

/-- The rows collected into a map by their id: of two with the same id the later one stays. -/
def byId (key : α → Uuid) (rows : List α) (id : Uuid) : Option α :=
  rows.reverse.find? fun row => key row = id

def preferUp : GatewayState → Nat
  | .up => 2
  | .warning => 1
  | _ => 0

/-- The pair of the weight and the preference, as a number of the same order. -/
def failoverKey (e : GroupMember × Gateway) : Nat := 3 * e.1.weight.toNat + preferUp e.2.state

def healthyMembers (members : List GroupMember) (gateways : List Gateway) :
    List (GroupMember × Gateway) :=
  members.filterMap fun m =>
    match byId Gateway.id gateways m.gatewayId with
    | some gw => if gw.enabled && gw.state.healthy then some (m, gw) else .none
    | .none => .none

/-- The entries of the lowest tier present. -/
def lowestTier (healthy : List (GroupMember × Gateway)) : List (GroupMember × Gateway) :=
  healthy.filter fun e => some e.1.tier.toNat = (healthy.map fun e => e.1.tier.toNat).min?

def saturatingMul (a b : Nat) : UInt32 := UInt32.ofNat (min (a * b) u32Max)

def adaptiveWeight (m : GroupMember) (gw : Gateway) : UInt32 :=
  let mos := (gw.lastMos.getD (.fin 3.5)).clamp (.fin 1) (.fin 4.5)
  let factor := ((mos.sub (.fin 1)).mul (.fin 10)).toUnsigned u32Max
  saturatingMul m.weight.toNat (max factor 1)

def select (group : GatewayGroup) (members : List GroupMember) (gateways : List Gateway) :
    Selection :=
  let healthy := healthyMembers members gateways
  if healthy.isEmpty then .none
  else
    match group.policy with
    | .failover =>
      match maxByKey failoverKey (lowestTier healthy) with
      | some best => .single best.2.id
      | .none => .none
    | .weightedLb => .weightedList ((lowestTier healthy).map fun e => (e.2.id, max e.1.weight 1))
    | .loadBalance => .weightedList ((lowestTier healthy).map fun e => (e.2.id, max e.1.weight 1))
    | .adaptive => .weightedList ((lowestTier healthy).map fun e => (e.2.id, adaptiveWeight e.1 e.2))

inductive PolicyStatus where
  | active
  | disabled
deriving DecidableEq, Repr

inductive MwIpVersion where
  | v4
  | v6
  | both
deriving DecidableEq, Repr

inductive MwProtocol where
  | any
  | tcp
  | udp
  | icmp
deriving DecidableEq, Repr

def MwProtocol.asStr : MwProtocol → String
  | .any => "any"
  | .tcp => "tcp"
  | .udp => "udp"
  | .icmp => "icmp"

inductive RouteAction where
  | setInstance
  | setGateway
  | setGroup
deriving DecidableEq, Repr

structure RoutingInstance where
  id : Uuid
  fibNumber : UInt32

/-- The addresses and ports are texts of the request that nothing checks. -/
structure PolicyRule where
  id : Uuid
  status : PolicyStatus
  ipVersion : MwIpVersion
  ifaceIn : Option (List Char)
  srcAddr : List Char
  dstAddr : List Char
  srcPort : Option (List Char)
  dstPort : Option (List Char)
  protocol : MwProtocol
  actionKind : RouteAction
  targetId : Uuid
  fallbackTargetId : Option Uuid

/-- What the policies are compiled against. -/
structure Tables where
  instances : List RoutingInstance
  gateways : List Gateway
  groups : List GatewayGroup
  groupMembers : Uuid → List GroupMember

def hexField (width n : Nat) : List Char :=
  (List.range width).reverse.map fun i => Nat.digitChar (n / 16 ^ i % 16)

/-- The hyphenated lower-case form. -/
def displayUuid (id : Uuid) : List Char :=
  List.intercalate ['-'] [hexField 8 (id.toNat / 16 ^ 24), hexField 4 (id.toNat / 16 ^ 20),
    hexField 4 (id.toNat / 16 ^ 16), hexField 4 (id.toNat / 16 ^ 12), hexField 12 id.toNat]

/-- An id is written with the hyphen and the sixteen digits. -/
theorem forall_mem_displayUuid {P : Char → Prop} (hhyphen : P '-')
    (hdigit : ∀ d < 16, P (Nat.digitChar d)) (id : Uuid) : ∀ c ∈ displayUuid id, P c := by
  have hfield (width n : Nat) : ∀ c ∈ hexField width n, P c := by
    intro c hc
    obtain ⟨i, -, rfl⟩ := List.mem_map.mp hc
    exact hdigit _ (Nat.mod_lt _ (by decide))
  intro c hc
  simp only [displayUuid, List.intercalate_cons_cons, List.intercalate_singleton, List.mem_append,
    List.mem_singleton] at hc
  rcases hc with (hc | rfl) | (hc | rfl) | (hc | rfl) | (hc | rfl) | hc
  all_goals first | exact hhyphen | exact hfield _ _ _ hc

def ifSomeAf : MwIpVersion → List Char
  | .v4 => " inet".toList
  | .v6 => " inet6".toList
  | .both => []

def ifSomeProto (p : MwProtocol) : List Char :=
  if p ≠ .any then " proto ".toList ++ p.asStr.toList else []

def portText : Option (List Char) → List Char
  | some p => " port ".toList ++ p
  | none => []

def onText : Option (List Char) → List Char
  | some iface => " on ".toList ++ iface
  | none => []

def keepState : List Char := " keep state (if-bound)".toList

def hopText (gw : Gateway) : List Char := '(' :: gw.interface ++ ' ' :: gw.nextHop ++ [')']

def quotedLabel (label : List Char) : List Char := " label \"".toList ++ label ++ ['"']

def u32Text (n : UInt32) : List Char := Nat.toDigits 10 n.toNat

namespace PolicyRule

def fromTo (p : PolicyRule) : List Char :=
  " from ".toList ++ p.srcAddr ++ " to ".toList ++ p.dstAddr

def emitSetInstance (p : PolicyRule) (inst : RoutingInstance) (label : List Char) :
    Option (List Char) :=
  p.ifaceIn.map fun ifaceIn =>
    "pass in quick on ".toList ++ ifaceIn ++ ifSomeAf p.ipVersion ++ ifSomeProto p.protocol ++
      p.fromTo ++ portText p.srcPort ++ portText p.dstPort ++
      (" rtable ".toList ++ u32Text inst.fibNumber ++ keepState ++ quotedLabel label)

def emitSetGateway (p : PolicyRule) (gw : Gateway) (label : List Char) : List Char × List Char :=
  ("pass out quick on ".toList ++ gw.interface ++ ifSomeAf p.ipVersion ++ ifSomeProto p.protocol ++
      p.fromTo ++ portText p.srcPort ++ portText p.dstPort ++
      (" route-to ".toList ++ hopText gw ++ keepState ++ quotedLabel label),
    "pass in quick".toList ++ onText p.ifaceIn ++ ifSomeAf p.ipVersion ++ ifSomeProto p.protocol ++
      p.fromTo ++ portText p.srcPort ++ portText p.dstPort ++
      (" reply-to ".toList ++ hopText gw ++ keepState ++ quotedLabel (label ++ ":rep".toList)))

def poolTarget (gw : Gateway) (weight : UInt32) : List Char :=
  hopText gw ++ " weight ".toList ++ u32Text weight

def poolText (group : GatewayGroup) (targets : List (List Char)) : List Char :=
  " route-to \x7b ".toList ++ List.intercalate ", ".toList targets ++ " \x7d round-robin".toList ++
    if group.sticky = .src then " sticky-address".toList else []

/-- The pool is written without the ports. -/
def emitPool (p : PolicyRule) (group : GatewayGroup) (first : Gateway)
    (targets : List (List Char)) (label : List Char) : List Char × List Char :=
  ("pass out quick on ".toList ++ first.interface ++ ifSomeAf p.ipVersion ++
      ifSomeProto p.protocol ++ p.fromTo ++
      (poolText group targets ++ keepState ++ quotedLabel (label ++ ":grp".toList)),
    "pass in quick".toList ++ onText p.ifaceIn ++ ifSomeAf p.ipVersion ++ ifSomeProto p.protocol ++
      p.fromTo ++
      (" reply-to ".toList ++ hopText first ++ keepState ++
        quotedLabel (label ++ ":grp:rep".toList)))

def emitSetGroup (p : PolicyRule) (group : GatewayGroup) (sel : Selection)
    (gateways : List Gateway) (label : List Char) : Option (List Char × List Char) :=
  match sel with
  | .none => none
  | .single id => (byId Gateway.id gateways id).map fun gw => p.emitSetGateway gw label
  | .weightedList [] => none
  | .weightedList (head :: list) => do
    let first ← byId Gateway.id gateways head.1
    let targets := (head :: list).filterMap fun e =>
      (byId Gateway.id gateways e.1).map fun gw => poolTarget gw e.2
    if targets.isEmpty then none else return p.emitPool group first targets label

/-- The forward rule of a policy and, where there is a way back to pin, the reply rule. -/
def emit (p : PolicyRule) (t : Tables) : Option (List Char × Option (List Char)) :=
  let label := "pbr:".toList ++ displayUuid p.id
  match p.actionKind with
  | .setInstance => do
    let inst ← byId RoutingInstance.id t.instances p.targetId
    let line ← p.emitSetInstance inst label
    return (line, none)
  | .setGateway => do
    let gw ← byId Gateway.id t.gateways p.targetId
    return ((p.emitSetGateway gw label).1, some (p.emitSetGateway gw label).2)
  | .setGroup => do
    let group ← byId GatewayGroup.id t.groups p.targetId
    let sel := select group (t.groupMembers group.id) t.gateways
    let lines ← p.emitSetGroup group sel t.gateways label
    return (lines.1, some lines.2)

end PolicyRule

structure CompiledPolicies where
  pbr : List (List Char)
  reply : List (List Char)

def compile (policies : List PolicyRule) (t : Tables) : CompiledPolicies :=
  let emitted := (policies.filter fun p => p.status = .active).filterMap fun p => p.emit t
  { pbr := emitted.map Prod.fst, reply := emitted.filterMap Prod.snd }

theorem mem_compile_pbr :
    line ∈ (compile policies t).pbr ↔
      ∃ p ∈ policies, p.status = .active ∧ ∃ reply, p.emit t = some (line, reply) := by
  simp only [compile, List.mem_map, List.mem_filterMap, List.mem_filter, decide_eq_true_eq,
    Prod.exists, exists_and_right, exists_eq_right]
  constructor
  · rintro ⟨reply, p, ⟨hp, ha⟩, he⟩
    exact ⟨p, hp, ha, reply, he⟩
  · rintro ⟨p, hp, ha, reply, he⟩
    exact ⟨reply, p, ⟨hp, ha⟩, he⟩

end AiFw.Wan
