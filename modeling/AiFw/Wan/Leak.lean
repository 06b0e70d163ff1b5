import AiFw.Pf.Match
import AiFw.Wan.Instance
import AiFw.Wan.PolicyText

namespace AiFw.Wan
open AiFw.Lib AiFw.Net AiFw.Pf
set_option autoImplicit true

inductive LeakDirection where
  | bidirectional
  | oneWay
deriving DecidableEq, Repr

/-- The prefix and the ports are texts of the request that nothing checks. -/
structure RouteLeak where
  id : Uuid
  name : List Char
  srcInstanceId : Uuid
  dstInstanceId : Uuid
  prefixText : List Char
  protocol : MwProtocol
  ports : Option (List Char)
  direction : LeakDirection
  enabled : Bool

namespace RouteLeak

def anyText : List Char := "any".toList

/-- A leak is written for every interface. -/
def rule (l : RouteLeak) (src dst : List Char) (fib : UInt32) (label : List Char) : List Char :=
  "pass quick".toList ++ ifSomeProto l.protocol ++ " from".toList ++ ' ' ::
    (src ++ (" to ".toList ++ dst ++ portText l.ports ++
      (" rtable ".toList ++ u32Text fib ++ keepState ++ quotedLabel label)))

def label (l : RouteLeak) : List Char := "leak:".toList ++ displayUuid l.id

def forward (l : RouteLeak) (dst : RoutingInstance) : List Char :=
  l.rule anyText l.prefixText dst.fibNumber l.label

def reverse (l : RouteLeak) (src : RoutingInstance) : List Char :=
  l.rule l.prefixText anyText src.fibNumber (l.label ++ ":rev".toList)

/-- The rules of one leak: nothing without the destination, and a way back where it is wanted and
the source is stored. -/
def emit (l : RouteLeak) (instances : List RoutingInstance) : List (List Char) :=
  match byId RoutingInstance.id instances l.dstInstanceId with
  | none => []
  | some dst => l.forward dst ::
      if l.direction = .bidirectional then
        ((byId RoutingInstance.id instances l.srcInstanceId).map l.reverse).toList
      else []

def compile (leaks : List RouteLeak) (instances : List RoutingInstance) : List (List Char) :=
  (leaks.filter fun l => l.enabled).flatMap fun l => l.emit instances

end RouteLeak

namespace RouteLeak

/-- The same packet on another interface. -/
def moved (pkt : Packet) (interface : List Char) : Packet :=
  { pkt with inbound := true, interface := interface }

/-- The prefix and the ports as they are meant: an address, a network or `any`, and a port or a
range of ports. -/
def Plain (l : RouteLeak) : Prop :=
  ∃ (h : RawHost) (addr : Address) (port : Option PortRange), h.Spells l.prefixText l.ports ∧
    h.neg = false ∧ h.addr.resolve = some addr ∧ resolvePort l.ports = some port ∧
    ∀ range ∈ port, range.start ≤ range.end_

def written (l : RouteLeak) (s d : RawHost) : RawMatch where
  family := none
  protos := l.protocol.names
  src := some { s with port := none }
  dst := some { d with port := l.ports }

theorem exists_accepted (addr : Address) :
    ∃ ip, addr.accepts (fun _ _ => true) false ip = true := by
  cases addr with
  | any => exact ⟨.v4 0, rfl⟩
  | single ip =>
    refine ⟨ip, ?_⟩
    simp only [Address.accepts, IpAddr.sameFamily_self, beq_self_eq_true, Bool.true_and]
    rfl
  | network ip len =>
    refine ⟨ip, ?_⟩
    simp only [Address.accepts, IpAddr.sameFamily_self, IpAddr.inNet_self, Bool.true_and]
    rfl
  | table name => exact ⟨.v4 0, rfl⟩

/-- The leak that is seeded for an instance. -/
def mgmtEscape (id : Uuid) (inst default : InstanceRow) : RouteLeak where
  id := id
  name := inst.name ++ "-mgmt-escape".toList
  srcInstanceId := inst.id
  dstInstanceId := default.id
  prefixText := anyText
  protocol := .any
  ports := none
  direction := .bidirectional
  enabled := true

end RouteLeak

end AiFw.Wan
