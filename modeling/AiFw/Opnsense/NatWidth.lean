import AiFw.Opnsense.Importer
import AiFw.Pf.SameHosts

namespace AiFw.Opnsense
open AiFw.Lib AiFw.Net AiFw.Pf
set_option autoImplicit true

/-- The address that an endpoint names, if it is understood; a missing one is any address. -/
def OpnEndpoint.namedAddress (ep : OpnEndpoint) (aliasNames : List (List Char)) : Option Address :=
  if ep.any then some .any
  else
    match ep.address with
    | some addr =>
      match Address.parse addr with
      | .ok a => some a
      | .error _ => if aliasNames.contains addr then some (.table addr) else none
    | none =>
      match ep.network with
      | some net => if aliasNames.contains net then some (.table net) else none
      | none => some .any

/-- The ports that an endpoint names, if they are understood: a number, or a range that ascends. -/
def OpnEndpoint.namedPorts (ep : OpnEndpoint) (aliasNames : List (List Char)) :
    Option (Option PortRange) :=
  match parsePort aliasNames ep.port with
  | .ok none => some none
  | .ok (some range) => if range.start ≤ range.end_ then some (some range) else none
  | .error _ => none

/-- What the endpoint describes: its addresses, inverted or not, and its ports. -/
def OpnEndpoint.described (ep : OpnEndpoint) (aliasNames : List (List Char)) : Option HostMatch := do
  let addr ← ep.namedAddress aliasNames
  let port ← ep.namedPorts aliasNames
  return ⟨ep.not, addr, port⟩

/-- A side of a rule matches what the endpoint describes, no more and no less. -/
def Describes (ep : OpnEndpoint) (aliasNames : List (List Char)) (addr : Address)
    (port : Option PortRange) : Prop :=
  ∃ h, ep.described aliasNames = some h ∧ HostMatch.Same ⟨false, addr, port⟩ h

/-- The endpoint is understood and not inverted. -/
structure Plain (ep : OpnEndpoint) (aliasNames : List (List Char)) : Prop where
  straight : ep.not = false
  address : (ep.namedAddress aliasNames).isSome = true
  ports : (ep.namedPorts aliasNames).isSome = true

/-- The ports of the destination are kept, which the rule otherwise takes from the local port. -/
def PortsKept (n : OpnNatPortForward) (aliases : List (List Char)) : Prop :=
  n.destination.port = none → redirectPort n aliases = .ok (some allPorts)

/-- Neither the destination nor the rule matches anything: the destination is what is left of all
addresses, and the local port is a range that descends. -/
def BothEmpty (n : OpnNatPortForward) (aliases : List (List Char)) : Prop :=
  n.destination.not = true ∧ n.destination.port = none ∧
    (∃ a, n.destination.namedAddress aliases = some a ∧ a.Whole) ∧
    ∃ range, redirectPort n aliases = .ok (some range) ∧ range.end_ < range.start

variable {ep : OpnEndpoint} {aliasNames : List (List Char)}

theorem described_iff {h : HostMatch} :
    ep.described aliasNames = some h ↔
      ep.namedAddress aliasNames = some h.addr ∧ ep.namedPorts aliasNames = some h.port ∧
        ep.not = h.invert := by
  unfold OpnEndpoint.described
  constructor
  · intro hd
    obtain ⟨addr, haddr, hd⟩ := Option.bind_eq_some_iff.mp hd
    obtain ⟨port, hport, hd⟩ := Option.bind_eq_some_iff.mp hd
    cases hd
    exact ⟨haddr, hport, rfl⟩
  · obtain ⟨invert, addr, port⟩ := h
    rintro ⟨haddr, hport, rfl⟩
    rw [haddr, hport]
    rfl

/-- An address that is understood is the one the rule gets. -/
theorem orAny_of_named (h : ep.namedAddress aliasNames = some a) :
    (translateAddressOrAny ep aliasNames).1 = a := by
  unfold OpnEndpoint.namedAddress at h
  unfold translateAddressOrAny
  cases hany : ep.any with
  | true =>
    rw [hany, if_pos rfl] at h
    rw [if_pos rfl]
    exact Option.some.inj h
  | false =>
    rw [hany, if_neg Bool.false_ne_true] at h
    rw [if_neg Bool.false_ne_true]
    cases haddr : ep.address with
    | some addr =>
      rw [haddr] at h
      dsimp only at h ⊢
      cases hparse : Address.parse addr with
      | ok a' =>
        rw [hparse] at h
        exact Option.some.inj h
      | error e =>
        rw [hparse] at h
        dsimp only at h ⊢
        obtain ⟨hin, ha⟩ := Option.ite_none_right_eq_some.mp h
        rw [if_pos hin]
        exact Option.some.inj ha
    | none =>
      rw [haddr] at h
      dsimp only at h ⊢
      unfold translateNetwork
      cases hnet : ep.network with
      | some net =>
        rw [hnet] at h
        obtain ⟨hin, ha⟩ := Option.ite_none_right_eq_some.mp h
        dsimp only
        rw [if_pos hin]
        exact Option.some.inj ha
      | none =>
        rw [hnet] at h
        exact Option.some.inj h

theorem portOrNone_of_named (h : ep.namedPorts aliasNames = some p) :
    portOrNone ep aliasNames = p ∧ ∀ range, p = some range → range.start ≤ range.end_ := by
  unfold OpnEndpoint.namedPorts at h
  unfold portOrNone
  split at h
  · next hparse =>
    cases h
    rw [hparse]
    exact ⟨rfl, nofun⟩
  · next range hparse =>
    split at h
    · next hle =>
      cases h
      rw [hparse]
      refine ⟨rfl, ?_⟩
      rintro _ ⟨⟩
      exact hle
    · cases h
  · cases h

/-- Some port is among those that are understood. -/
theorem exists_portAccepts (h : ∀ range, p = some range → range.start ≤ range.end_) :
    ∃ n, portAccepts n p = true := by
  cases p with
  | none => exact ⟨0, rfl⟩
  | some range => exact ⟨range.start, portAccepts_start (h range rfl)⟩

/-- The side of a rule that keeps its ports is right exactly of a plain endpoint. -/
theorem describes_iff_plain :
    Describes ep aliasNames (translateAddressOrAny ep aliasNames).1 (portOrNone ep aliasNames) ↔
      Plain ep aliasNames := by
  constructor
  · rintro ⟨h, hdescribed, hsame⟩
    obtain ⟨haddr, hport, hnot⟩ := described_iff.mp hdescribed
    obtain ⟨hkept, hascends⟩ := portOrNone_of_named hport
    rw [orAny_of_named haddr, hkept, HostMatch.same_iff] at hsame
    refine ⟨?_, Option.isSome_of_eq_some haddr, Option.isSome_of_eq_some hport⟩
    by_contra hinvert
    rw [Bool.not_eq_false] at hinvert
    rw [if_pos (hnot.symm.trans hinvert)] at hsame
    obtain ⟨n, hn⟩ := exists_portAccepts hascends
    rw [hsame.1 n] at hn
    cases hn
  · intro h
    obtain ⟨addr, haddr⟩ := Option.isSome_iff_exists.mp h.address
    obtain ⟨port, hport⟩ := Option.isSome_iff_exists.mp h.ports
    refine ⟨⟨ep.not, addr, port⟩, described_iff.mpr ⟨haddr, hport, rfl⟩, ?_⟩
    rw [orAny_of_named haddr, (portOrNone_of_named hport).1, h.straight]
    exact fun _ _ _ => rfl

theorem namedPorts_of_none (h : ep.port = none) : ep.namedPorts aliasNames = some none := by
  rw [OpnEndpoint.namedPorts, h]
  rfl

/-- A port that is named and understood is a range. -/
theorem namedPorts_ne_none (h : ep.port ≠ none) : ep.namedPorts aliasNames ≠ some none := by
  obtain ⟨spec, hspec⟩ := Option.ne_none_iff_exists'.mp h
  unfold OpnEndpoint.namedPorts
  rw [hspec, parsePort]
  cases parsePortSpec spec aliasNames with
  | error e => exact nofun
  | ok range =>
    change (if range.start ≤ range.end_ then some (some range) else none) ≠ _
    split
    · exact nofun
    · exact nofun

theorem describes_of_named {a : Address} {p q : Option PortRange}
    (haddr : ep.namedAddress aliasNames = some a) (hport : ep.namedPorts aliasNames = some p) :
    Describes ep aliasNames (translateAddressOrAny ep aliasNames).1 q ↔
      HostMatch.Same ⟨false, a, q⟩ ⟨ep.not, a, p⟩ := by
  rw [orAny_of_named haddr]
  constructor
  · rintro ⟨h, hdescribed, hsame⟩
    obtain ⟨haddr', hport', hnot⟩ := described_iff.mp hdescribed
    rw [haddr] at haddr'
    rw [hport] at hport'
    cases haddr'
    cases hport'
    rw [hnot]
    exact hsame
  · intro hsame
    exact ⟨_, described_iff.mpr ⟨haddr, hport, rfl⟩, hsame⟩

theorem named_of_describes (h : Describes ep aliasNames addr q) :
    (∃ a, ep.namedAddress aliasNames = some a) ∧ ∃ p, ep.namedPorts aliasNames = some p := by
  obtain ⟨host, hdescribed, -⟩ := h
  obtain ⟨haddr, hport, -⟩ := described_iff.mp hdescribed
  exact ⟨⟨_, haddr⟩, _, hport⟩

/-- Where the destination names no port, the rule gets the local one. -/
theorem describes_local_iff {n : OpnNatPortForward} {range : PortRange}
    (hnone : n.destination.port = none) (hlocal : redirectPort n aliases = .ok (some range)) :
    Describes n.destination aliases (translateAddressOrAny n.destination aliases).1 (some range) ↔
      Plain n.destination aliases ∧ PortsKept n aliases ∨ BothEmpty n aliases := by
  have hport : n.destination.namedPorts aliases = some none := namedPorts_of_none hnone
  have hkept : PortsKept n aliases ↔ range = allPorts := by
    rw [PortsKept, hlocal, forall_prop_of_true hnone, Except.ok.injEq, Option.some.injEq]
  constructor
  · intro h
    obtain ⟨⟨a, haddr⟩, -⟩ := named_of_describes h
    rw [describes_of_named haddr hport, HostMatch.same_iff] at h
    cases hnot : n.destination.not with
    | false =>
      rw [hnot, if_neg Bool.false_ne_true] at h
      have hall : range = allPorts := portAccepts_all_iff.mp h
      exact .inl ⟨⟨hnot, Option.isSome_of_eq_some haddr, Option.isSome_of_eq_some hport⟩,
        hkept.mpr hall⟩
    | true =>
      rw [hnot, if_pos rfl] at h
      obtain ⟨hnoport, hnever | hwhole⟩ := h
      · cases hnever 0
      · exact .inr ⟨hnot, hnone, ⟨a, haddr, hwhole⟩, range, hlocal, portAccepts_none_iff.mp hnoport⟩
  · rintro (⟨hplain, hports⟩ | ⟨hnot, -, ⟨a, haddr, hwhole⟩, range', hlocal', hdescends⟩)
    · obtain ⟨a, haddr⟩ := Option.isSome_iff_exists.mp hplain.address
      rw [describes_of_named haddr hport, HostMatch.same_iff, hplain.straight,
        if_neg Bool.false_ne_true]
      exact portAccepts_all_iff.mpr (hkept.mp hports)
    · rw [hlocal] at hlocal'
      cases hlocal'
      rw [describes_of_named haddr hport, HostMatch.same_iff, hnot, if_pos rfl]
      exact ⟨portAccepts_none_iff.mpr hdescends, .inr hwhole⟩

theorem describes_destination_iff {n : OpnNatPortForward} {port : Option PortRange}
    (hlocal : redirectPort n aliases = .ok port)
    (hsome : (portOrNone n.destination aliases <|> port).isSome = true) :
    Describes n.destination aliases (translateAddressOrAny n.destination aliases).1
        (portOrNone n.destination aliases <|> port) ↔
      Plain n.destination aliases ∧ PortsKept n aliases ∨ BothEmpty n aliases := by
  by_cases hnone : n.destination.port = none
  · have hkept : portOrNone n.destination aliases = none :=
      (portOrNone_of_named (namedPorts_of_none hnone)).1
    rw [hkept] at hsome ⊢
    change port.isSome = true at hsome
    obtain ⟨range, rfl⟩ := Option.isSome_iff_exists.mp hsome
    exact describes_local_iff hnone hlocal
  · have hempty : ¬BothEmpty n aliases := fun h => hnone h.2.1
    have hports : PortsKept n aliases := fun h => absurd h hnone
    rw [or_iff_left hempty, and_iff_left hports]
    cases hnamed : n.destination.namedPorts aliases with
    | none =>
      refine iff_of_false ?_ ?_
      · intro h
        obtain ⟨-, p, hp⟩ := named_of_describes h
        rw [hnamed] at hp
        cases hp
      · intro h
        have hp := h.ports
        rw [hnamed] at hp
        cases hp
    | some p =>
      cases p with
      | none => exact absurd hnamed (namedPorts_ne_none hnone)
      | some range =>
        have hkept := (portOrNone_of_named hnamed).1
        rw [← describes_iff_plain, hkept]
        exact Iff.rfl

/-- The rule of a one-to-one entry, for any ports, is right of a destination that names all. -/
theorem describes_anyPort_iff :
    Describes ep aliasNames (translateAddressOrAny ep aliasNames).1 none ↔
      Plain ep aliasNames ∧ ∀ range, ep.namedPorts aliasNames = some (some range) →
        range = allPorts := by
  constructor
  · intro h
    obtain ⟨⟨a, haddr⟩, p, hport⟩ := named_of_describes h
    rw [describes_of_named haddr hport, HostMatch.same_iff] at h
    cases hnot : ep.not with
    | true =>
      rw [hnot, if_pos rfl] at h
      cases h.1 0
    | false =>
      rw [hnot, if_neg Bool.false_ne_true] at h
      refine ⟨⟨hnot, Option.isSome_of_eq_some haddr, Option.isSome_of_eq_some hport⟩, ?_⟩
      intro range hrange
      rw [hport] at hrange
      cases hrange
      exact portAccepts_all_iff.mp fun n => (h n).symm
  · rintro ⟨hplain, hall⟩
    obtain ⟨a, haddr⟩ := Option.isSome_iff_exists.mp hplain.address
    obtain ⟨p, hport⟩ := Option.isSome_iff_exists.mp hplain.ports
    rw [describes_of_named haddr hport, HostMatch.same_iff, hplain.straight,
      if_neg Bool.false_ne_true]
    intro n
    cases p with
    | none => rfl
    | some range => exact (portAccepts_all_iff.mpr (hall range hport) n).symm

/-- The match of an imported NAT rule is that of its entry exactly if each endpoint is understood and
not inverted, and the ports of a destination are ones that the rule can have. Only a port forward can
have something to report. -/
theorem imported_describes_iff (ifaceMap : IfaceMap) (aliases : List (List Char)) :
    (∀ n r, buildPortForward n ifaceMap aliases = .ok (r, []) →
      (Describes n.source aliases r.srcAddr r.srcPort ∧
          Describes n.destination aliases r.dstAddr r.dstPort ↔
        Plain n.source aliases ∧
          (Plain n.destination aliases ∧ PortsKept n aliases ∨ BothEmpty n aliases))) ∧
    (∀ n r, buildOutbound n ifaceMap aliases = .ok r →
      (Describes n.source aliases r.srcAddr r.srcPort ∧
          Describes n.destination aliases r.dstAddr r.dstPort ↔
        Plain n.source aliases ∧ Plain n.destination aliases)) ∧
    ∀ n r, buildOneToOne n ifaceMap aliases = .ok r →
      (Address.parse n.internal = .ok r.srcAddr ∧ r.srcPort = none ∧
          Describes n.destination aliases r.dstAddr r.dstPort ↔
        Plain n.destination aliases ∧ ∀ range,
          n.destination.namedPorts aliases = some (some range) → range = allPorts) := by
  refine ⟨?_, ?_, ?_⟩
  · intro n r h
    obtain ⟨protocol, target, port, -, -, hlocal, hsome, rfl, -⟩ := buildPortForward_ok.mp h
    exact and_congr describes_iff_plain (describes_destination_iff hlocal hsome)
  · intro n r h
    obtain ⟨-, -, protocol, target, -, -, rfl⟩ := buildOutbound_ok.mp h
    exact and_congr describes_iff_plain describes_iff_plain
  · intro n r h
    obtain ⟨external, inside, -, hinside, rfl⟩ := buildOneToOne_ok.mp h
    rw [and_iff_right (parseField_ok.mp hinside), and_iff_right rfl]
    exact describes_anyPort_iff

def anyPort (port : Option String) : OpnEndpoint :=
  ⟨none, none, true, false, port.map String.toList⟩

/-- A port forward from one port of an address. -/
def forwardTo (destination : OpnEndpoint) : OpnNatPortForward where
  interface := "wan".toList
  protocol := "tcp".toList
  source := anyPort none
  destination
  target := "10.0.0.2".toList
  localPort := some "8080".toList
  disabled := false
  descr := none

def hostPort (address : String) : OpnEndpoint :=
  ⟨some address.toList, none, false, false, some "80".toList⟩

theorem describes_forward :
    ∃ r, buildPortForward (forwardTo (hostPort "192.0.2.1")) (fun _ => none) [] = .ok (r, []) ∧
      Describes (anyPort none) [] r.srcAddr r.srcPort ∧
        Describes (hostPort "192.0.2.1") [] r.dstAddr r.dstPort := by
  have hplain : Plain (hostPort "192.0.2.1") [] := ⟨rfl, by decide, by decide⟩
  have hkept : PortsKept (forwardTo (hostPort "192.0.2.1")) [] := nofun
  refine ⟨_, rfl, ?_⟩
  refine ((imported_describes_iff (fun _ => none) []).1
    (forwardTo (hostPort "192.0.2.1")) _ rfl).mpr ?_
  exact ⟨⟨rfl, rfl, rfl⟩, .inl ⟨hplain, hkept⟩⟩

/-- An alias name as the destination of a port forward is taken for any address. -/
theorem forward_widened :
    ¬∀ n ifaceMap aliases r, buildPortForward n ifaceMap aliases = .ok (r, []) →
      Describes n.source aliases r.srcAddr r.srcPort ∧
        Describes n.destination aliases r.dstAddr r.dstPort := by
  intro h
  have hnamed : (forwardTo (hostPort "webserver")).destination.namedAddress [] = none := by decide
  have hdescribes := (h (forwardTo (hostPort "webserver")) (fun _ => none) [] _ rfl).2
  obtain ⟨⟨a, ha⟩, -⟩ := named_of_describes hdescribes
  rw [hnamed] at ha
  cases ha

end AiFw.Opnsense
