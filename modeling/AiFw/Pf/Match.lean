import AiFw.Net.Network
import AiFw.Pf.RuleText

namespace AiFw.Pf
open AiFw.Lib AiFw.Net
set_option autoImplicit true

/-- Both addresses of a packet are of one family. -/
inductive Endpoints where
  | v4 (src dst : BitVec 32)
  | v6 (src dst : BitVec 128)
deriving DecidableEq, Repr

structure Packet where
  inbound : Bool
  interface : List Char
  endpoints : Endpoints
  protocol : BitVec 8
  srcPort : UInt16
  dstPort : UInt16
deriving DecidableEq, Repr

def Packet.src (pkt : Packet) : IpAddr :=
  match pkt.endpoints with
  | .v4 src _ => .v4 src
  | .v6 src _ => .v6 src

def Packet.dst (pkt : Packet) : IpAddr :=
  match pkt.endpoints with
  | .v4 _ dst => .v4 dst
  | .v6 _ dst => .v6 dst

abbrev Tables := List Char → IpAddr → Bool

/-- An address of one family, inverted or not, is for packets of that family only. -/
def Address.accepts (tables : Tables) (invert : Bool) (ip : IpAddr) : Address → Bool
  | .any => !invert
  | .single host => host.sameFamily ip && ((host == ip) != invert)
  | .network net len => net.sameFamily ip && (net.inNet len.toNat ip != invert)
  | .table name => tables name ip != invert

def portAccepts (port : UInt16) : Option PortRange → Bool
  | some range => range.start ≤ port && port ≤ range.end_
  | none => true

/-- One side of a match. -/
structure HostMatch where
  invert : Bool
  addr : Address
  port : Option PortRange
deriving DecidableEq, Repr

def HostMatch.any : HostMatch := ⟨false, .any, none⟩

def HostMatch.accepts (h : HostMatch) (tables : Tables) (ip : IpAddr) (port : UInt16) : Bool :=
  h.addr.accepts tables h.invert ip && portAccepts port h.port

def Direction.accepts (inbound : Bool) : Direction → Bool
  | .in => inbound
  | .out => !inbound
  | .any => true

def IpVersion.accepts (ip : IpAddr) : IpVersion → Bool
  | .inet => ip.width = 32
  | .inet6 => ip.width = 128
  | .both => true

def interfaceAccepts (interface : List Char) : Option (List Char) → Bool
  | some iface => iface == interface
  | none => true

/-- The protocol numbers of the names a rule can be written with. -/
def protocolNumber (name : List Char) : Option (BitVec 8) :=
  if name = "tcp".toList then some 6
  else if name = "udp".toList then some 17
  else if name = "icmp".toList then some 1
  else if name = "icmp6".toList then some 58
  else if name = "esp".toList then some 50
  else if name = "ah".toList then some 51
  else if name = "gre".toList then some 47
  else none

def Protocol.numbers : Protocol → List (BitVec 8)
  | .tcp => [6]
  | .udp => [17]
  | .icmp => [1]
  | .icmp6 => [58]
  | .tcpUdp => [6, 17]
  | .esp => [50]
  | .ah => [51]
  | .gre => [47]
  | .any => []

def protocolAccepts (protocol : BitVec 8) (numbers : List (BitVec 8)) : Bool :=
  numbers = [] ∨ protocol ∈ numbers

/-- A filter rule's match as pf applies it. -/
structure FilterMatch where
  direction : Direction
  interface : Option (List Char)
  family : IpVersion
  protocols : List (BitVec 8)
  src : HostMatch
  dst : HostMatch
deriving DecidableEq, Repr

def FilterMatch.accepts (m : FilterMatch) (tables : Tables) (pkt : Packet) : Bool :=
  m.direction.accepts pkt.inbound && interfaceAccepts pkt.interface m.interface &&
    m.family.accepts pkt.src && protocolAccepts pkt.protocol m.protocols &&
    m.src.accepts tables pkt.src pkt.srcPort && m.dst.accepts tables pkt.dst pkt.dstPort

/-- The match the fields of the rule ask for. -/
def Rule.described (rule : Rule) : FilterMatch where
  direction := rule.direction
  interface := rule.interface
  family := rule.ipVersion
  protocols := rule.protocol.numbers
  src := ⟨rule.srcInvert, rule.ruleMatch.srcAddr, rule.ruleMatch.srcPort⟩
  dst := ⟨rule.dstInvert, rule.ruleMatch.dstAddr, rule.ruleMatch.dstPort⟩

def resolvePort : Option (List Char) → Option (Option PortRange)
  | none => some none
  | some w => (readPort w).map some

/-- A missing clause stands for any host. -/
def resolveHost : Option RawHost → Option HostMatch
  | none => some .any
  | some h => do
    let addr ← h.addr.resolve
    let port ← resolvePort h.port
    return ⟨h.neg, addr, port⟩

def resolveDirection : Option (List Char) → Option Direction
  | none => some .any
  | some w =>
    if w = "in".toList then some .in else if w = "out".toList then some .out else none

def resolveFamily : Option (List Char) → Option IpVersion
  | none => some .both
  | some w =>
    if w = "inet".toList then some .inet else if w = "inet6".toList then some .inet6 else none

def resolveProtocols : Option (List (List Char)) → Option (List (BitVec 8))
  | none => some []
  | some names => names.mapM protocolNumber

def RawFilter.resolve (raw : RawFilter) : Option FilterMatch := do
  let direction ← resolveDirection raw.head.direction
  let family ← resolveFamily raw.clauses.family
  let protocols ← resolveProtocols raw.clauses.protos
  let src ← resolveHost raw.clauses.src
  let dst ← resolveHost raw.clauses.dst
  return ⟨direction, raw.head.interface, family, protocols, src, dst⟩

/-- The match of a line of a filter ruleset, if it is one. -/
def readFilter (line : List Char) : Option FilterMatch := (parseFilter line).bind RawFilter.resolve

/-- The match that is left of the rule once it is written. -/
def Rule.written (rule : Rule) : FilterMatch where
  direction := rule.direction
  interface := rule.interface
  family := rule.ipVersion
  protocols := rule.protocol.numbers
  src :=
    if rule.ruleMatch.srcAddr = .any then .any
    else ⟨rule.srcInvert, rule.ruleMatch.srcAddr, rule.ruleMatch.srcPort⟩
  dst :=
    if rule.ruleMatch.dstAddr = .any then ⟨false, .any, rule.ruleMatch.dstPort⟩
    else ⟨rule.dstInvert, rule.ruleMatch.dstAddr, rule.ruleMatch.dstPort⟩

/-- Both lists of state options are written, each in its own parentheses. -/
def Rule.twoStateLists (rule : Rule) : Bool :=
  rule.action = .pass ∧ rule.stateOptions.tracking ≠ .none ∧ rule.stateOptions.policy.isSome ∧
    rule.stateOptions.adaptiveTimeouts.isSome

def stateItems : Option StatePolicy → Option AdaptiveTimeouts → List Token
  | some policy, _ => [.word policy.display]
  | none, some adaptive => adaptiveItems adaptive
  | none, none => []

def Rule.rawOptions (rule : Rule) : RawOptions where
  rtable := none
  state :=
    if rule.stateOptions.tracking ≠ .none ∧ rule.action = .pass then
      some (rule.stateOptions.tracking.kind,
        stateItems rule.stateOptions.policy rule.stateOptions.adaptiveTimeouts)
    else none
  label := rule.label

theorem StateTracking.kind_mem {t : StateTracking} (h : t ≠ .none) :
    t.kind ∈ ["keep", "modulate", "synproxy"].map String.toList := by
  cases t with
  | none => exact absurd rfl h
  | keepState => decide
  | modulateState => decide
  | synproxyState => decide

theorem stateItems_closed (policy : Option StatePolicy) (adaptive : Option AdaptiveTimeouts) :
    .sym ')' ∉ stateItems policy adaptive := by
  intro h
  cases policy with
  | some p =>
    rcases List.mem_singleton.mp h with h
    cases h
  | none =>
    cases adaptive with
    | none => cases h
    | some a =>
      simp only [stateItems, adaptiveItems, List.mem_cons, reduceCtorEq, Token.sym.injEq,
        Char.reduceEq, List.not_mem_nil, or_self] at h

theorem Rule.rawOptions_wellFormed (rule : Rule) : rule.rawOptions.WellFormed := by
  have hs : ∀ s ∈ rule.rawOptions.state, rule.stateOptions.tracking ≠ .none ∧
      s = (rule.stateOptions.tracking.kind,
        stateItems rule.stateOptions.policy rule.stateOptions.adaptiveTimeouts) := by
    intro s hs
    simp only [Rule.rawOptions, Option.mem_def] at hs
    split at hs
    · rename_i h
      cases hs
      exact ⟨h.1, rfl⟩
    · cases hs
  refine ⟨?_, ?_⟩
  · intro s h
    obtain ⟨ht, rfl⟩ := hs s h
    exact StateTracking.kind_mem ht
  · intro s h
    obtain ⟨-, rfl⟩ := hs s h
    exact stateItems_closed _ _

theorem Rule.rawHead_wellFormed (rule : Rule) (routeTo : Option (List Char × List Char)) :
    (rule.rawHead routeTo).WellFormed := by
  refine ⟨?_, ?_, ?_, ?_⟩
  · simp only [Rule.rawHead]
    cases rule.action <;> decide
  · simp only [Rule.rawHead]
    cases rule.action <;> decide
  · simp only [Rule.rawHead]
    cases rule.direction <;> decide
  · intro r hr
    simp only [Rule.rawHead, Option.mem_def] at hr
    split at hr
    · obtain ⟨p, -, rfl⟩ := Option.map_eq_some_iff.mp hr
      simp only [RawRoute.Closed, List.mem_cons, reduceCtorEq, List.not_mem_nil, or_self,
        not_false_eq_true]
    · cases hr

theorem IpVersion.raw_mem (v : IpVersion) :
    ∀ w ∈ v.raw, w ∈ ["inet", "inet6"].map String.toList := by
  cases v <;> decide

theorem Rule.stateToks_eq (rule : Rule) (h : rule.twoStateLists = false) :
    rule.stateToks = optStateToks rule.rawOptions.state := by
  unfold Rule.stateToks Rule.rawOptions
  split
  · rename_i hs
    simp only [Rule.twoStateLists, hs.1, hs.2, ne_eq, not_false_eq_true, true_and,
      decide_eq_false_iff_not, not_and] at h
    simp only [optStateToks, Pf.stateToks]
    cases hp : rule.stateOptions.policy with
    | none =>
      cases ha : rule.stateOptions.adaptiveTimeouts with
      | none => rfl
      | some a => rfl
    | some p =>
      cases ha : rule.stateOptions.adaptiveTimeouts with
      | none => rfl
      | some a =>
        rw [hp, ha] at h
        exact absurd rfl (h rfl)
  · rfl

theorem Rule.stateToks_two (rule : Rule) (h : rule.twoStateLists) :
    ∃ policy adaptive, rule.stateToks = Pf.stateToks (rule.stateOptions.tracking.kind,
      [.word policy]) ++ .sym '(' :: adaptive := by
  simp only [Rule.twoStateLists, decide_eq_true_eq, Option.isSome_iff_exists] at h
  obtain ⟨hact, ht, ⟨p, hp⟩, ⟨a, ha⟩⟩ := h
  refine ⟨p.display, adaptiveItems a ++ [.sym ')'], ?_⟩
  simp only [Rule.stateToks, ht, hact, hp, ha, ne_eq, not_false_eq_true, and_self, if_true]
  rfl

theorem Rule.parse_written {rule : Rule} (hv : rule.Valid)
    (hr : ∀ p ∈ routeTo, IsWord p.1 ∧ IsWord p.2) :
    parseFilter (rule.toPfRuleRouted routeTo) =
      if rule.twoStateLists then none
      else some ⟨rule.rawHead routeTo, rule.rawMatch, rule.rawOptions⟩ := by
  have hh := rule.rawHead_wellFormed routeTo
  have hf := rule.ipVersion.raw_mem
  rw [parseFilter, Rule.lex_toPfRuleRouted hv hr, Option.bind_some, Rule.tokens]
  by_cases h : rule.twoStateLists
  · obtain ⟨policy, adaptive, he⟩ := rule.stateToks_two h
    have hkind : rule.stateOptions.tracking.kind ∈
        ["keep", "modulate", "synproxy"].map String.toList := by
      simp only [Rule.twoStateLists, decide_eq_true_eq] at h
      exact StateTracking.kind_mem h.2.1
    have hstart : Starts ["keep", "modulate", "synproxy"] (rule.stateToks ++ labelToks rule.label) := by
      obtain ⟨k, hk, hke⟩ := List.mem_map.mp hkind
      rw [he, Pf.stateToks, ← hke]
      exact .kw hk
    rw [if_pos h, filterRule_toks hh hf hstart (by decide) (by decide) (fun h => absurd h (by decide))
      (.inr (by decide)), he, List.append_assoc, List.cons_append,
      filterOptions_second_list hkind (by simp) (List.cons_ne_nil _ _), Option.map_none]
  · have ho := rule.rawOptions_wellFormed
    have htoks : rule.stateToks ++ labelToks rule.label = optionsToks rule.rawOptions := by
      rw [rule.stateToks_eq (by simpa using h)]
      rfl
    have hstart : Starts ["keep", "modulate", "synproxy", "label"] (optionsToks rule.rawOptions) :=
      (Starts.optState ho.kind).append Starts.clause
    rw [if_neg h, htoks, filterRule_toks hh hf hstart (by decide) (by decide)
      (fun h => absurd h (by decide)) (.inr (by decide)), filterOptions_toks ho, Option.map_some]

theorem resolvePort_display (port : Option PortRange) :
    resolvePort (port.map PortRange.display) = some port := by
  cases port with
  | none => rfl
  | some p => rw [Option.map_some, resolvePort, readPort_display, Option.map_some]

theorem resolveHost_raw (invert : Bool) {addr : Address} (ha : addr.InRange)
    (port : Option PortRange) :
    resolveHost (some (rawHost invert addr port)) = some ⟨invert, addr, port⟩ := by
  simp only [resolveHost, rawHost, Address.resolve_raw.mpr ha, resolvePort_display,
    Option.bind_eq_bind, Option.bind_some, Option.pure_def]

theorem Direction.resolve_raw (d : Direction) : resolveDirection d.raw = some d := by
  cases d <;> rfl

theorem IpVersion.resolve_raw (v : IpVersion) : resolveFamily v.raw = some v := by
  cases v <;> rfl

theorem Protocol.resolve_names (p : Protocol) : resolveProtocols p.names = some p.numbers := by
  cases p <;> rfl

theorem Rule.resolve_written {rule : Rule} (hv : rule.Valid)
    (routeTo : Option (List Char × List Char)) :
    RawFilter.resolve ⟨rule.rawHead routeTo, rule.rawMatch, rule.rawOptions⟩ =
      some rule.written := by
  have hsrc : resolveHost rule.rawMatch.src = some rule.written.src := by
    simp only [Rule.rawMatch, Rule.written, ne_eq]
    by_cases h : rule.ruleMatch.srcAddr = .any
    · simp only [h, not_true_eq_false, if_false, if_true, resolveHost]
    · simp only [h, not_false_eq_true, if_true, if_false, resolveHost_raw _ hv.srcRange]
  have hdst : resolveHost rule.rawMatch.dst = some rule.written.dst := by
    simp only [Rule.rawMatch, Rule.written, ne_eq]
    by_cases h : rule.ruleMatch.dstAddr = .any
    · simp only [h, not_true_eq_false, if_false, if_true]
      cases rule.ruleMatch.dstPort with
      | none => rfl
      | some port =>
        have hany : Address.any.InRange := trivial
        exact resolveHost_raw false hany (some port)
    · simp only [h, not_false_eq_true, if_true, if_false, resolveHost_raw _ hv.dstRange]
  have hdir : resolveDirection (rule.rawHead routeTo).direction = some rule.direction :=
    rule.direction.resolve_raw
  have hfam : resolveFamily rule.rawMatch.family = some rule.ipVersion :=
    rule.ipVersion.resolve_raw
  have hproto : resolveProtocols rule.rawMatch.protos = some rule.protocol.numbers :=
    rule.protocol.resolve_names
  simp only [RawFilter.resolve, hdir, hfam, hproto, hsrc, hdst, Option.bind_eq_bind,
    Option.bind_some, Option.pure_def]
  rfl

/-- What pf reads in the line: nothing when there are two lists of state options. -/
theorem Rule.readFilter_line {rule : Rule} (hv : rule.Valid)
    (hr : ∀ p ∈ routeTo, IsWord p.1 ∧ IsWord p.2) :
    readFilter (rule.toPfRuleRouted routeTo) =
      if rule.twoStateLists then none else some rule.written := by
  rw [readFilter, Rule.parse_written hv hr]
  split
  · rfl
  · exact Rule.resolve_written hv routeTo

end AiFw.Pf
