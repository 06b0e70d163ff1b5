import AiFw.Lib.Views
import AiFw.Net.IpText
import AiFw.Wan.PolicyStore

namespace AiFw.Wan
open AiFw.Lib AiFw.Net
set_option autoImplicit true

/-- A state of pf, with the columns the report shows. -/
structure PfState where
  protocol : List Char
  srcAddr : IpAddr
  srcPort : UInt16
  dstAddr : IpAddr
  dstPort : UInt16
  bytesIn : UInt64
  bytesOut : UInt64
  iface : Option (List Char)

structure ValidationFinding where
  severity : List Char
  message : List Char
deriving DecidableEq, Repr

def strandsMgmt (mgmt : InstanceRow) (p : PolicyRow) : Bool :=
  p.status = .active && p.actionKind = .setInstance && p.targetId ≠ mgmt.id &&
    (p.srcAddr = "any".toList || p.srcAddr = "0.0.0.0/0".toList)

def strandFinding (p : PolicyRow) : ValidationFinding where
  severity := "error".toList
  message := "Policy '".toList ++ p.name ++
    "' with src=any moves ALL traffic away from mgmt FIB".toList

def noMgmtFinding : ValidationFinding where
  severity := "warning".toList
  message := "No management-reachable instance defined".toList

def validateMgmtSafety (proposed : List PolicyRow) (instances : List InstanceRow) :
    Bool × List ValidationFinding :=
  match instances.find? fun i => i.mgmtReachable with
  | none => (false, [noMgmtFinding])
  | some mgmt =>
    let stranding := proposed.filter (strandsMgmt mgmt)
    (!stranding.isEmpty, stranding.map strandFinding)

/-- The verdict on the management traffic is whether an error is among the findings. -/
theorem strands_iff (proposed : List PolicyRow) (instances : List InstanceRow) :
    (validateMgmtSafety proposed instances).1 = true ↔
      ∃ f ∈ (validateMgmtSafety proposed instances).2, f.severity = "error".toList := by
  unfold validateMgmtSafety
  cases instances.find? fun i => i.mgmtReachable with
  | none =>
    refine iff_of_false Bool.false_ne_true ?_
    intro ⟨f, hf, herror⟩
    rw [List.mem_singleton.mp hf] at herror
    exact absurd herror (by decide)
  | some mgmt =>
    rw [Bool.not_eq_true', List.isEmpty_eq_false_iff]
    constructor
    · intro hne
      obtain ⟨p, hp⟩ := List.exists_mem_of_ne_nil _ hne
      exact ⟨strandFinding p, List.mem_map_of_mem hp, rfl⟩
    · intro ⟨f, hf, _⟩ hnil
      have hmem : f ∈ (proposed.filter (strandsMgmt mgmt)).map strandFinding := hf
      rw [hnil] at hmem
      cases hmem

/-- The rules of the active policies, each forward rule with the reply rule beside it. -/
def emitted (policies : List PolicyRow) (t : Tables) : List (List Char × Option (List Char)) :=
  (policies.filter fun p => p.status = .active).filterMap fun p => p.emit t

/-- The active policies that emit a rule, in order. -/
def emitting (t : Tables) (policies : List PolicyRow) : List PolicyRow :=
  policies.filter fun p => p.status = .active && (p.emit t).isSome

def forwardRule (t : Tables) (p : PolicyRow) : Option (List Char) := (p.emit t).map Prod.fst

/-- A policy of the first list has a forward rule that none of the second has. -/
def Outside (t : Tables) (policies other : List PolicyRow) : Prop :=
  ∃ p ∈ emitting t policies, ∀ q ∈ emitting t other, forwardRule t p ≠ forwardRule t q

end AiFw.Wan
