import AiFw.Lib.Results
import AiFw.Pf.NatOrder

namespace AiFw.Opnsense
open AiFw.Lib AiFw.Net AiFw.Pf
set_option autoImplicit true

inductive AddrFamily where
  | inet
  | inet6
  | both
deriving DecidableEq, Repr

/-- One side of a rule. -/
structure OpnEndpoint where
  address : Option (List Char)
  network : Option (List Char)
  any : Bool
  not : Bool
  port : Option (List Char)
deriving DecidableEq, Repr

/-- A filter rule of the configuration that is imported. -/
structure OpnRule where
  action : List Char
  direction : List Char
  interface : List (List Char)
  ipprotocol : AddrFamily
  protocol : List Char
  source : OpnEndpoint
  destination : OpnEndpoint
  disabled : Bool
  log : Bool
  quick : Bool
  descr : Option (List Char)

structure OpnNatPortForward where
  interface : List Char
  protocol : List Char
  source : OpnEndpoint
  destination : OpnEndpoint
  target : List Char
  localPort : Option (List Char)
  disabled : Bool
  descr : Option (List Char)

structure OpnNatOutbound where
  interface : List Char
  protocol : List Char
  source : OpnEndpoint
  destination : OpnEndpoint
  target : Option (List Char)
  disabled : Bool
  descr : Option (List Char)
  nonat : Bool
  staticnatport : Bool

structure OpnNatOneToOne where
  interface : List Char
  external : List Char
  «internal» : List Char
  destination : OpnEndpoint
  disabled : Bool
  descr : Option (List Char)

structure OpnNat where
  mode : Option (List Char)
  portForwards : List OpnNatPortForward
  outbound : List OpnNatOutbound
  onetoone : List OpnNatOneToOne

structure OpnAlias where
  name : List Char
  kind : List Char
  content : List (List Char)
  descr : Option (List Char)
  disabled : Bool

/-- What is imported as aliases, rules and NAT entries. -/
structure OpnConfig where
  aliases : List OpnAlias
  rules : List OpnRule
  nat : OpnNat

/-- The names given to the interfaces of the configuration. -/
abbrev IfaceMap := List Char → Option (List Char)

def mapIface (name : List Char) (ifaceMap : IfaceMap) : List Char := (ifaceMap name).getD name

/-- A text in the quotes of a message. -/
def quoted (s : List Char) : String := "'" ++ String.ofList s ++ "'"

/-- The two ends of a range, which a single port has in common. -/
def portEnds (raw : List Char) : List Char × List Char :=
  match splitOnce ':' raw with
  | some ends => ends
  | none =>
    match splitOnce '-' raw with
    | some ends => ends
    | none => (raw, raw)

def parsePortSpec (raw : List Char) (aliasNames : List (List Char)) : Except String PortRange :=
  let raw := trim raw
  match parseUnsigned 65536 (portEnds raw).1 with
  | none =>
    if aliasNames.contains raw then
      .error ("port alias " ++ quoted raw ++ " references not yet inlined")
    else .error ("invalid port " ++ quoted raw)
  | some start =>
    match parseUnsigned 65536 (portEnds raw).2 with
    | none => .error ("invalid port range " ++ quoted raw)
    | some stop => .ok ⟨UInt16.ofNat start, UInt16.ofNat stop⟩

def parsePort (aliasNames : List (List Char)) :
    Option (List Char) → Except String (Option PortRange)
  | some p => (parsePortSpec p aliasNames).map some
  | none => .ok none

/-- The address of an endpoint of a filter rule: an unknown name is refused. -/
def translateAddress (ep : OpnEndpoint) (aliasNames : List (List Char)) : Except String Address :=
  if ep.any then .ok .any
  else
    match ep.address with
    | some addr =>
      match Address.parse addr with
      | .ok a => .ok a
      | .error _ =>
        if aliasNames.contains addr then .ok (.table addr)
        else .error ("unresolvable address " ++ quoted addr)
    | none =>
      match ep.network with
      | some net =>
        if aliasNames.contains net then .ok (.table net)
        else .error ("network keyword " ++ quoted net ++
          " has no AiFw equivalent — replace with the underlying address")
      | none => .error "endpoint has neither <any/>, <address>, nor <network>"

def translateEndpoint (ep : OpnEndpoint) (aliasNames : List (List Char)) :
    Except String (Address × Option PortRange) := do
  let port ← parsePort aliasNames ep.port
  let addr ← translateAddress ep aliasNames
  return (addr, port)

def broadened (net : List Char) : String :=
  "OPNsense network keyword " ++ quoted net ++
    " broadened to 'any' (no AiFw equivalent for interface address)"

/-- What an endpoint with no address that is understood comes to by its network. -/
def translateNetwork (ep : OpnEndpoint) (aliasNames : List (List Char)) :
    Address × Option String :=
  match ep.network with
  | some net =>
    if aliasNames.contains net then (.table net, none) else (.any, some (broadened net))
  | none => (.any, none)

def translateAddressOrAny (ep : OpnEndpoint) (aliasNames : List (List Char)) :
    Address × Option String :=
  if ep.any then (.any, none)
  else
    match ep.address with
    | some addr =>
      match Address.parse addr with
      | .ok a => (a, none)
      | .error _ =>
        if aliasNames.contains addr then (.table addr, none)
        else translateNetwork ep aliasNames
    | none => translateNetwork ep aliasNames

/-- A port that is not understood is left out. -/
def portOrNone (ep : OpnEndpoint) (aliasNames : List (List Char)) : Option PortRange :=
  match parsePort aliasNames ep.port with
  | .ok port => port
  | .error _ => none

/-- The endpoint of a NAT entry: the address, the port and what is lost by them. -/
def translateEndpointOrAny (ep : OpnEndpoint) (aliasNames : List (List Char)) :
    Address × Option PortRange × Option String :=
  let addr := translateAddressOrAny ep aliasNames
  (addr.1, portOrNone ep aliasNames, addr.2)

def parseAction (action : List Char) : Except String Action :=
  if action = "pass".toList then .ok .pass
  else if action = "block".toList then .ok .block
  else if action = "reject".toList then .ok .blockReturn
  else .error ("unknown action " ++ quoted action)

def parseDirection (direction : List Char) : Except String Direction :=
  if direction = "in".toList then .ok .in
  else if direction = "out".toList then .ok .out
  else if direction = "any".toList ∨ direction = [] then .ok .any
  else .error ("unknown direction " ++ quoted direction)

def AddrFamily.ipVersion : AddrFamily → IpVersion
  | .inet => .inet
  | .inet6 => .inet6
  | .both => .both

def parseProtocol (protocol : List Char) : Except String Protocol :=
  if protocol = [] then .ok .any else Protocol.parse protocol

/-- The rule is given the id that is drawn for it. -/
def buildRule (id : BitVec 128) (r : OpnRule) (iface : Option (List Char))
    (aliasNames : List (List Char)) (priority : Int) : Except String Rule := do
  let action ← parseAction r.action
  let direction ← parseDirection r.direction
  let protocol ← parseProtocol r.protocol
  let src ← translateEndpoint r.source aliasNames
  let dst ← translateEndpoint r.destination aliasNames
  return {
    id
    priority
    action
    direction
    ipVersion := r.ipprotocol.ipVersion
    interface := iface
    protocol
    ruleMatch := ⟨src.1, src.2, dst.1, dst.2⟩
    srcInvert := r.source.not
    dstInvert := r.destination.not
    log := r.log
    quick := r.quick
    label := r.descr
    gateway := none
    stateOptions := ⟨.keepState, none, none⟩
    status := if r.disabled then .disabled else .active
    scheduleId := none }

/-- A NAT rule that is imported, with its label. -/
structure ImportedNat extends NatRule where
  label : Option (List Char)

def prefixed (side : String) : Option String → List String
  | some advisory => [side ++ advisory]
  | none => []

/-- An address as a field of a NAT entry, where the error names the field. -/
def parseField (field : String) (text : List Char) : Except String Address :=
  match Address.parse text with
  | .ok a => .ok a
  | .error e => .error (field ++ quoted text ++ ": " ++ e)

/-- The port a port forward redirects to: its own, or else that of the destination. -/
def redirectPort (n : OpnNatPortForward) (aliases : List (List Char)) :
    Except String (Option PortRange) :=
  match n.localPort with
  | some p => (parsePortSpec p aliases).map some
  | none => .ok (portOrNone n.destination aliases)

def buildPortForward (n : OpnNatPortForward) (ifaceMap : IfaceMap) (aliases : List (List Char)) :
    Except String (ImportedNat × List String) := do
  let protocol ← Protocol.parse n.protocol
  let src := translateEndpointOrAny n.source aliases
  let dst := translateEndpointOrAny n.destination aliases
  let target ← parseField "redirect target " n.target
  let port ← redirectPort n aliases
  let finalDstPort := dst.2.1 <|> port
  if finalDstPort.isNone then
    throw ("DNAT/port-forward needs either <destination><port> or <local-port> — " ++
      "full-IP redirects not yet supported")
  return ({
    natType := .dnat
    interface := mapIface n.interface ifaceMap
    protocol
    srcAddr := src.1
    srcPort := src.2.1
    dstAddr := dst.1
    dstPort := finalDstPort
    redirect := ⟨target, port⟩
    label := n.descr }, prefixed "source: " src.2.2 ++ prefixed "destination: " dst.2.2)

/-- The kind of an outbound rule and the address it is translated to. -/
def outboundTarget : Option (List Char) → Except String (NatType × Address)
  | none => .ok (.masquerade, .any)
  | some [] => .ok (.masquerade, .any)
  | some t => (parseField "outbound target " t).map fun a => (.snat, a)

/-- What the endpoints lose is not returned. -/
def buildOutbound (n : OpnNatOutbound) (ifaceMap : IfaceMap) (aliases : List (List Char)) :
    Except String ImportedNat := do
  if n.nonat then
    throw ("<nonat> outbound NAT bypass not yet supported — leaves source rewriting on, " ++
      "opposite of intent. Configure manually after import.")
  if n.staticnatport then
    throw ("<staticnatport> (preserve source port) not yet supported — " ++
      "pf rule emits dynamic source port. Configure manually after import.")
  let protocol ← Protocol.parse n.protocol
  let src := translateEndpointOrAny n.source aliases
  let dst := translateEndpointOrAny n.destination aliases
  let target ← outboundTarget n.target
  return {
    natType := target.1
    interface := mapIface n.interface ifaceMap
    protocol
    srcAddr := src.1
    srcPort := src.2.1
    dstAddr := dst.1
    dstPort := dst.2.1
    redirect := ⟨target.2, none⟩
    label := n.descr }

/-- Of the destination only the address is kept. -/
def buildOneToOne (n : OpnNatOneToOne) (ifaceMap : IfaceMap) (aliases : List (List Char)) :
    Except String ImportedNat := do
  let external ← parseField "external " n.external
  let inside ← parseField "internal " n.internal
  let dst := translateEndpointOrAny n.destination aliases
  return {
    natType := .binat
    interface := mapIface n.interface ifaceMap
    protocol := .any
    srcAddr := inside
    srcPort := none
    dstAddr := dst.1
    dstPort := none
    redirect := ⟨external, none⟩
    label := n.descr }

theorem parseField_ok : parseField field s = .ok a ↔ Address.parse s = .ok a := by
  unfold parseField
  cases Address.parse s with
  | error e => exact iff_of_false (fun h => nomatch h) fun h => nomatch h
  | ok b => exact Iff.rfl

theorem buildPortForward_ok {n : OpnNatPortForward} :
    buildPortForward n ifaceMap aliases = .ok (r, advisories) ↔
      ∃ protocol target port, Protocol.parse n.protocol = .ok protocol ∧
        parseField "redirect target " n.target = .ok target ∧
        redirectPort n aliases = .ok port ∧
        ((portOrNone n.destination aliases <|> port).isSome = true) ∧
        r = {
          natType := .dnat
          interface := mapIface n.interface ifaceMap
          protocol
          srcAddr := (translateAddressOrAny n.source aliases).1
          srcPort := portOrNone n.source aliases
          dstAddr := (translateAddressOrAny n.destination aliases).1
          dstPort := portOrNone n.destination aliases <|> port
          redirect := ⟨target, port⟩
          label := n.descr } ∧
        advisories = prefixed "source: " (translateAddressOrAny n.source aliases).2 ++
          prefixed "destination: " (translateAddressOrAny n.destination aliases).2 := by
  unfold buildPortForward
  constructor
  · intro h
    obtain ⟨protocol, hprotocol, h⟩ := bind_ok.mp h
    obtain ⟨target, htarget, h⟩ := bind_ok.mp h
    obtain ⟨port, hport, h⟩ := bind_ok.mp h
    dsimp only at h
    split at h
    · cases h
    · next hsome =>
      cases h
      refine ⟨protocol, target, port, hprotocol, htarget, hport, ?_, rfl, rfl⟩
      rwa [← Option.not_isNone, Bool.not_eq_true', ← Bool.not_eq_true]
  · rintro ⟨protocol, target, port, hprotocol, htarget, hport, hsome, rfl, rfl⟩
    rw [hprotocol, htarget, hport]
    have hnone : ¬(portOrNone n.destination aliases <|> port).isNone = true := by
      rw [← Option.not_isNone, Bool.not_eq_true', ← Bool.not_eq_true] at hsome
      exact hsome
    change (if (portOrNone n.destination aliases <|> port).isNone = true then _ else _) = _
    rw [if_neg hnone]
    rfl

theorem buildOutbound_ok {n : OpnNatOutbound} :
    buildOutbound n ifaceMap aliases = .ok r ↔
      n.nonat = false ∧ n.staticnatport = false ∧ ∃ protocol target,
        Protocol.parse n.protocol = .ok protocol ∧ outboundTarget n.target = .ok target ∧
        r = {
          natType := target.1
          interface := mapIface n.interface ifaceMap
          protocol
          srcAddr := (translateAddressOrAny n.source aliases).1
          srcPort := portOrNone n.source aliases
          dstAddr := (translateAddressOrAny n.destination aliases).1
          dstPort := portOrNone n.destination aliases
          redirect := ⟨target.2, none⟩
          label := n.descr } := by
  unfold buildOutbound
  cases n.nonat with
  | true => exact iff_of_false (fun h => nomatch h) fun h => nomatch h.1
  | false =>
    cases n.staticnatport with
    | true => exact iff_of_false (fun h => nomatch h) fun h => nomatch h.2.1
    | false =>
      constructor
      · intro h
        obtain ⟨protocol, hprotocol, h⟩ := bind_ok.mp h
        obtain ⟨target, htarget, h⟩ := bind_ok.mp h
        cases h
        exact ⟨rfl, rfl, protocol, target, hprotocol, htarget, rfl⟩
      · rintro ⟨-, -, protocol, target, hprotocol, htarget, rfl⟩
        rw [hprotocol, htarget]
        rfl

theorem buildOneToOne_ok {n : OpnNatOneToOne} :
    buildOneToOne n ifaceMap aliases = .ok r ↔
      ∃ external inside, parseField "external " n.external = .ok external ∧
        parseField "internal " n.internal = .ok inside ∧
        r = {
          natType := .binat
          interface := mapIface n.interface ifaceMap
          protocol := .any
          srcAddr := inside
          srcPort := none
          dstAddr := (translateAddressOrAny n.destination aliases).1
          dstPort := none
          redirect := ⟨external, none⟩
          label := n.descr } := by
  unfold buildOneToOne
  constructor
  · intro h
    obtain ⟨external, hexternal, h⟩ := bind_ok.mp h
    obtain ⟨inside, hinside, h⟩ := bind_ok.mp h
    cases h
    exact ⟨external, inside, hexternal, hinside, rfl⟩
  · rintro ⟨external, inside, hexternal, hinside, rfl⟩
    rw [hexternal, hinside]
    rfl

end AiFw.Opnsense
