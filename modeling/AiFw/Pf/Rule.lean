import AiFw.Pf.Types

namespace AiFw.Pf
open AiFw.Lib AiFw.Net
set_option autoImplicit true

inductive IpVersion where
  | inet
  | inet6
  | both
deriving DecidableEq, Repr

inductive Protocol where
  | tcp
  | udp
  | icmp
  | icmp6
  | tcpUdp
  | esp
  | ah
  | gre
  | any
deriving DecidableEq, Repr

inductive Action where
  | pass
  | block
  | blockDrop
  | blockReturn
deriving DecidableEq, Repr

inductive Direction where
  | «in»
  | out
  | any
deriving DecidableEq, Repr

inductive RuleStatus where
  | active
  | disabled
deriving DecidableEq, Repr

inductive StateTracking where
  | none
  | keepState
  | modulateState
  | synproxyState
deriving DecidableEq, Repr

inductive StatePolicy where
  | ifBound
  | floating
deriving DecidableEq, Repr

structure AdaptiveTimeouts where
  start : UInt32
  end_ : UInt32
deriving DecidableEq, Repr

structure StateOptions where
  tracking : StateTracking
  policy : Option StatePolicy
  adaptiveTimeouts : Option AdaptiveTimeouts
deriving DecidableEq, Repr

structure RuleMatch where
  srcAddr : Address
  srcPort : Option PortRange
  dstAddr : Address
  dstPort : Option PortRange
deriving DecidableEq, Repr

/-- A stored filter rule. -/
structure Rule where
  id : BitVec 128
  priority : Int
  action : Action
  direction : Direction
  ipVersion : IpVersion
  interface : Option (List Char)
  protocol : Protocol
  ruleMatch : RuleMatch
  srcInvert : Bool
  dstInvert : Bool
  log : Bool
  quick : Bool
  label : Option (List Char)
  gateway : Option (List Char)
  stateOptions : StateOptions
  status : RuleStatus
  scheduleId : Option (List Char)
deriving DecidableEq, Repr

def Protocol.display : Protocol → List Char
  | .tcp => "tcp".toList
  | .udp => "udp".toList
  | .icmp => "icmp".toList
  | .icmp6 => "icmp6".toList
  | .tcpUdp => ['{', ' ', 't', 'c', 'p', ' ', 'u', 'd', 'p', ' ', '}']
  | .esp => "esp".toList
  | .ah => "ah".toList
  | .gre => "gre".toList
  | .any => "any".toList

def Action.display : Action → List Char
  | .pass => "pass".toList
  | .block => "block".toList
  | .blockDrop => "block drop".toList
  | .blockReturn => "block return".toList

def Direction.display : Direction → List Char
  | .in => "in".toList
  | .out => "out".toList
  | .any => []

def StateTracking.display : StateTracking → List Char
  | .none => []
  | .keepState => "keep state".toList
  | .modulateState => "modulate state".toList
  | .synproxyState => "synproxy state".toList

def StatePolicy.display : StatePolicy → List Char
  | .ifBound => "if-bound".toList
  | .floating => "floating".toList

def decimal (n : Nat) : List Char := Nat.toDigits 10 n

/-- One side of the match, as both sides write it. -/
def hostClause (k : String) (invert : Bool) (addr : Address) (port : Option PortRange) :
    List Char :=
  let neg := if invert then "! ".toList else []
  match port with
  | some port => k.toList ++ ' ' :: (neg ++ addr.display) ++ " port ".toList ++ port.display
  | none => k.toList ++ ' ' :: (neg ++ addr.display)

def Rule.statePart (rule : Rule) : List Char :=
  let policy := match rule.stateOptions.policy with
    | some policy => " (".toList ++ policy.display ++ [')']
    | none => []
  let adaptive := match rule.stateOptions.adaptiveTimeouts with
    | some adaptive => " (adaptive.start ".toList ++ decimal adaptive.start.toNat ++
        ", adaptive.end ".toList ++ decimal adaptive.end_.toNat ++ [')']
    | none => []
  rule.stateOptions.tracking.display ++ policy ++ adaptive

def Rule.routePart (rule : Rule) : Option (List Char × List Char) → List (List Char)
  | some (gwIface, nextHop) =>
    if rule.action = .pass then ["route-to (".toList ++ gwIface ++ ' ' :: nextHop ++ [')']]
    else []
  | none => []

def onPart : Option (List Char) → List (List Char)
  | some iface => ["on ".toList ++ iface]
  | none => []

def IpVersion.part : IpVersion → List (List Char)
  | .inet => ["inet".toList]
  | .inet6 => ["inet6".toList]
  | .both => []

def Rule.srcPart (rule : Rule) : List (List Char) :=
  if rule.ruleMatch.srcAddr ≠ .any then
    [hostClause "from" rule.srcInvert rule.ruleMatch.srcAddr rule.ruleMatch.srcPort]
  else []

def Rule.dstPart (rule : Rule) : List (List Char) :=
  if rule.ruleMatch.dstAddr ≠ .any then
    [hostClause "to" rule.dstInvert rule.ruleMatch.dstAddr rule.ruleMatch.dstPort]
  else
    match rule.ruleMatch.dstPort with
    | some port => ["to any port ".toList ++ port.display]
    | none => []

/-- The parts before the label, in order. -/
def Rule.parts (rule : Rule) (routeTo : Option (List Char × List Char)) : List (List Char) :=
  [rule.action.display] ++
  (if rule.direction.display = [] then [] else [rule.direction.display]) ++
  (if rule.log ∨ rule.action = .block then ["log".toList] else []) ++
  (if rule.quick then ["quick".toList] else []) ++
  onPart rule.interface ++
  rule.routePart routeTo ++
  rule.ipVersion.part ++
  (if rule.protocol ≠ .any then ["proto ".toList ++ rule.protocol.display] else []) ++
  rule.srcPart ++
  rule.dstPart ++
  (if rule.stateOptions.tracking.display ≠ [] ∧ rule.action = .pass then [rule.statePart] else [])

def Rule.toPfRuleRouted (rule : Rule) (routeTo : Option (List Char × List Char)) : List Char :=
  List.intercalate [' '] (rule.parts routeTo ++
    match rule.label with
    | some label => ["label ".toList ++ '"' :: label ++ ['"']]
    | none => [])

def validatePortProtocol : Protocol → Except String Unit
  | .tcp | .udp | .tcpUdp => .ok ()
  | _ => .error "port matching requires TCP, UDP, or TCP/UDP protocol"

def validateAddress : Address → Except String Unit
  | .network ip len =>
    let (maxPrefix, family) := match ip with
      | .v4 _ => (32, "IPv4")
      | .v6 _ => (128, "IPv6")
    if len.toNat > maxPrefix then
      .error s!"prefix length {len} exceeds maximum {maxPrefix} for {family}"
    else .ok ()
  | .table name => validateTableName name
  | _ => .ok ()

def validateInterfaceName (name : List Char) : Except String Unit :=
  if name = [] ∨ byteLen name > 15 then .error "interface name must be 1-15 characters"
  else if !name.all fun c => c.isAlphanum || c == '_' || c == '-' || c == '.' then
    .error "interface name contains invalid characters (allowed: alphanumeric, _, -, .)"
  else .ok ()

def validateLabel (label : List Char) : Except String Unit :=
  if byteLen label > 63 then .error "label must be at most 63 characters"
  else if ['"', apostrophe, ';', '\n', '\r', '\\', Char.ofNat 0].any fun c => label.contains c then
    .error "label contains invalid characters (quotes, semicolons, backslashes, newlines not allowed)"
  else .ok ()

def validatePort (side : String) (protocol : Protocol) : Option PortRange → Except String Unit
  | some port =>
    if port.start > port.end_ then .error (side ++ " port range start must be <= end")
    else validatePortProtocol protocol
  | none => .ok ()

def validatePriority (priority : Int) : Except String Unit :=
  if priority < 0 ∨ priority > 10000 then .error "priority must be between 0 and 10000"
  else .ok ()

def validateSome (validate : List Char → Except String Unit) :
    Option (List Char) → Except String Unit
  | some text => validate text
  | none => .ok ()

def validateRule (rule : Rule) : Except String Unit := do
  validateAddress rule.ruleMatch.srcAddr
  validateAddress rule.ruleMatch.dstAddr
  validatePort "source" rule.protocol rule.ruleMatch.srcPort
  validatePort "destination" rule.protocol rule.ruleMatch.dstPort
  validatePriority rule.priority
  validateSome validateInterfaceName rule.interface
  validateSome validateLabel rule.label

/-- The gateway table as it is loaded: interface, next hop and state by gateway id. -/
abbrev GatewayRoutes := List Char → Option (List Char × List Char × List Char)

def resolveRuleRoute (rule : Rule) (gateways : GatewayRoutes) : Option (List Char × List Char) := do
  let gwId ← rule.gateway
  let (iface, nextHop, state) ← gateways gwId
  if state = "down".toList then none
  else
    let ifaceOk := iface ≠ [] ∧ iface.all fun c => c.isAlphanum || ['.', '_', '-'].contains c
    if ¬ifaceOk ∨ (IpAddr.parse nextHop).isNone then none
    else some (iface, nextHop)

theorem except_bind_ok {x : Except ε α} {f : α → Except ε β} (h : (x >>= f) = .ok b) :
    ∃ a, x = .ok a ∧ f a = .ok b := by
  cases x with
  | error e => cases h
  | ok a => exact ⟨a, rfl, h⟩

/-- What a rule that passes `validate_rule` can rely on. -/
structure Rule.Valid (rule : Rule) : Prop where
  srcRange : rule.ruleMatch.srcAddr.InRange
  dstRange : rule.ruleMatch.dstAddr.InRange
  srcTable : ∀ name, rule.ruleMatch.srcAddr = .table name → IsWord name
  dstTable : ∀ name, rule.ruleMatch.dstAddr = .table name → IsWord name
  srcPort : ∀ p ∈ rule.ruleMatch.srcPort, p.start ≤ p.end_
  dstPort : ∀ p ∈ rule.ruleMatch.dstPort, p.start ≤ p.end_
  interface : ∀ iface ∈ rule.interface, IsWord iface
  label : ∀ label ∈ rule.label, ∀ c ∈ label, c ≠ '"' ∧ c ≠ '\\' ∧ c ≠ '\n' ∧ c ≠ '\r'

theorem inRange_of_validateAddress (h : validateAddress a = .ok ()) : a.InRange := by
  cases a with
  | network ip len =>
    cases ip <;>
      · simp only [validateAddress] at h
        split at h
        · cases h
        · rename_i hle
          exact Nat.le_of_not_lt hle
  | any => trivial
  | single ip => trivial
  | table name => trivial

theorem isWord_of_validateAddress (h : validateAddress a = .ok ()) :
    ∀ name, a = .table name → IsWord name := by
  rintro name rfl
  exact isWord_tableName h

theorem start_le_of_validatePort (h : validatePort side protocol port = .ok ()) :
    ∀ p ∈ port, p.start ≤ p.end_ := by
  rintro p hp
  rw [Option.mem_def.mp hp] at h
  simp only [validatePort] at h
  split at h
  · cases h
  · rename_i hle
    exact UInt16.not_lt.mp hle

theorem isWord_of_alphanum {e : List Char} (hne : w ≠ [])
    (h : ∀ c ∈ w, c.isAlphanum ∨ c ∈ e) (he : ∀ c ∈ e, isWordChar c) : IsWord w := by
  refine ⟨hne, ?_⟩
  intro c hc
  rcases h c hc with hc | hc
  · exact isWordChar_of_alphanum hc
  · exact he c hc

theorem isWord_of_validateInterfaceName (h : validateInterfaceName name = .ok ()) :
    IsWord name := by
  unfold validateInterfaceName at h
  split at h
  · cases h
  · rename_i hne
    split at h
    · cases h
    · rename_i hall
      rw [not_or] at hne
      rw [Bool.not_eq_true', Bool.not_eq_false, List.all_eq_true] at hall
      apply isWord_of_alphanum (e := ['_', '-', '.']) hne.1 _ (List.all_eq_true.mp (by decide))
      intro c hc
      have hcc := hall c hc
      simp only [Bool.or_eq_true, beq_iff_eq] at hcc
      simp only [List.mem_cons, List.not_mem_nil, or_false]
      tauto

theorem chars_of_validateLabel (h : validateLabel label = .ok ()) :
    ∀ c ∈ label, c ≠ '"' ∧ c ≠ '\\' ∧ c ≠ '\n' ∧ c ≠ '\r' := by
  unfold validateLabel at h
  split at h
  · cases h
  · split at h
    · cases h
    · rename_i hany
      intro c hc
      have hno (d : Char) (hd : d ∈ ['"', apostrophe, ';', '\n', '\r', '\\', Char.ofNat 0]) :
          c ≠ d := by
        rintro rfl
        exact hany (List.any_eq_true.mpr ⟨c, hd, List.contains_iff_mem.mpr hc⟩)
      exact ⟨hno _ (by decide), hno _ (by decide), hno _ (by decide), hno _ (by decide)⟩

theorem Rule.valid_of_validateRule (h : validateRule rule = .ok ()) : rule.Valid := by
  unfold validateRule at h
  obtain ⟨_, hsrc, h⟩ := except_bind_ok h
  obtain ⟨_, hdst, h⟩ := except_bind_ok h
  obtain ⟨_, hsport, h⟩ := except_bind_ok h
  obtain ⟨_, hdport, h⟩ := except_bind_ok h
  obtain ⟨_, -, h⟩ := except_bind_ok h
  obtain ⟨_, hiface, hlabel⟩ := except_bind_ok h
  refine ⟨inRange_of_validateAddress hsrc, inRange_of_validateAddress hdst,
    isWord_of_validateAddress hsrc, isWord_of_validateAddress hdst,
    start_le_of_validatePort hsport, start_le_of_validatePort hdport, ?_, ?_⟩
  · intro iface hi
    rw [Option.mem_def.mp hi] at hiface
    exact isWord_of_validateInterfaceName hiface
  · intro label hl
    rw [Option.mem_def.mp hl] at hlabel
    exact chars_of_validateLabel hlabel

theorem resolveRuleRoute_words (h : resolveRuleRoute rule gateways = some (iface, nextHop)) :
    IsWord iface ∧ IsWord nextHop := by
  simp only [resolveRuleRoute, Option.bind_eq_bind, Option.bind_eq_some_iff] at h
  obtain ⟨gwId, -, ⟨iface', nextHop', state⟩, -, h⟩ := h
  simp only [] at h
  split at h
  · cases h
  split at h
  · cases h
  · rename_i hok
    cases h
    rw [not_or, not_not, Option.isNone_iff_eq_none, ← ne_eq, Option.ne_none_iff_exists'] at hok
    obtain ⟨⟨hne, hall⟩, ip, hip⟩ := hok
    rw [List.all_eq_true] at hall
    constructor
    · apply isWord_of_alphanum (e := ['.', '_', '-']) hne _ (List.all_eq_true.mp (by decide))
      intro c hc
      have hcc := hall c hc
      rw [Bool.or_eq_true, List.contains_iff_mem] at hcc
      exact hcc
    · exact ⟨IpAddr.parse_ne_nil hip, fun c hc =>
        isWordChar_of_addrChar (IpAddr.parse_chars hip c hc)⟩

end AiFw.Pf
