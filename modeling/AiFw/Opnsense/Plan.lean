import AiFw.Aliases.Engine
import AiFw.Opnsense.Importer

namespace AiFw.Opnsense
open AiFw.Lib AiFw.Net AiFw.Pf

set_option autoImplicit true

def toLowercase (s : List Char) : List Char := s.map lowerChar

def validAliasName (s : List Char) : Bool :=
  s ≠ [] && byteLen s ≤ 31 && s.all fun c => c.isAlphanum || c == '_' || c == '-'

structure PlanAlias where
  name : List Char
  kind : List Char
  entries : List (List Char)
  skipReason : Option String

structure PlanRule where
  action : List Char
  direction : List Char
  interface : Option (List Char)
  ipVersion : String
  protocol : List Char
  src : List Char
  srcPort : Option (List Char)
  dst : List Char
  dstPort : Option (List Char)
  disabled : Bool
  log : Bool
  label : Option (List Char)
  skipReason : Option String

structure PlanNat where
  kind : String
  interface : List Char
  protocol : List Char
  src : List Char
  dst : List Char
  redirect : List Char
  label : Option (List Char)
  skipReason : Option String

structure PreviewPlan where
  aliases : List PlanAlias
  rules : List PlanRule
  nat : List PlanNat

def plannedKinds : List String := ["host", "network", "port", "url", "urltable"]

def isPlannedKind (kind : List Char) : Bool :=
  plannedKinds.any fun k => k.toList = toLowercase kind

def aliasSkip (existing : List (List Char)) (a : OpnAlias) : Option String :=
  if a.disabled then some "disabled in source config"
  else if !validAliasName a.name then some "invalid alias name"
  else if existing.contains a.name then some "name collides with existing AiFw alias"
  else if !isPlannedKind a.kind then some ("alias type " ++ quoted a.kind ++ " not supported")
  else none

def planAlias (existing : List (List Char)) (a : OpnAlias) : PlanAlias :=
  ⟨a.name, a.kind, a.content, aliasSkip existing a⟩

def availableAliases (existing : List (List Char)) (aliases : List OpnAlias) : List (List Char) :=
  (aliases.filter fun a => (aliasSkip existing a).isNone).map OpnAlias.name

/-- A rule is for each of its interfaces, or for any. -/
def OpnRule.interfaces (r : OpnRule) (ifaceMap : IfaceMap) : List (Option (List Char)) :=
  if r.interface = [] then [none] else r.interface.map fun i => some (mapIface i ifaceMap)

/-- What both the plan and the import go through: each rule with each of its interfaces. -/
def ruleItems (rules : List OpnRule) (ifaceMap : IfaceMap) :
    List (OpnRule × Option (List Char)) :=
  rules.flatMap fun r => (r.interfaces ifaceMap).map fun iface => (r, iface)

def renderEndpoint (ep : OpnEndpoint) (aliases : List (List Char)) : List Char × Option String :=
  if ep.any then ("any".toList, none)
  else
    match ep.address with
    | some addr =>
      match Address.parse addr with
      | .ok _ => ((if ep.not then ['!'] else []) ++ addr, none)
      | .error _ =>
        if aliases.contains addr then ('<' :: addr ++ ['>'], none)
        else (addr, some ("address " ++ quoted addr ++ " not an IP/CIDR and no alias matches"))
    | none =>
      match ep.network with
      | some net =>
        if aliases.contains net then ('<' :: net ++ ['>'], none)
        else (net, some ("network keyword " ++ quoted net ++ " has no AiFw equivalent"))
      | none => ("any".toList, none)

def portProtocols : List String := ["tcp", "udp", "tcpudp", "tcp/udp", "tcp+udp"]

def isPortProtocol (protocol : List Char) : Bool :=
  portProtocols.any fun w => w.toList = lower protocol

/-- The ports that a rule names, the source first. -/
def OpnRule.ports (r : OpnRule) : List (List Char) :=
  r.source.port.toList ++ r.destination.port.toList

def portsSkip (r : OpnRule) (aliases : List (List Char)) : Option String :=
  match r.ports.find? fun p => (parsePortSpec p aliases).toOption.isNone with
  | some p => some ("port spec " ++ quoted p ++ " not parseable as number/range")
  | none => none

def ruleSkip (r : OpnRule) (aliases : List (List Char)) : Option String :=
  match (renderEndpoint r.source aliases).2 <|> (renderEndpoint r.destination aliases).2 with
  | some reason => some reason
  | none =>
    if r.ports ≠ [] ∧ isPortProtocol r.protocol = false then
      some ("port matching requires tcp/udp protocol; rule has protocol " ++ quoted r.protocol)
    else portsSkip r aliases

def AddrFamily.planned : AddrFamily → String
  | .inet => "inet"
  | .inet6 => "inet6"
  | .both => "both"

def planRule (aliases : List (List Char)) (item : OpnRule × Option (List Char)) : PlanRule where
  action := item.1.action
  direction := item.1.direction
  interface := item.2
  ipVersion := item.1.ipprotocol.planned
  protocol := item.1.protocol
  src := (renderEndpoint item.1.source aliases).1
  srcPort := item.1.source.port
  dst := (renderEndpoint item.1.destination aliases).1
  dstPort := item.1.destination.port
  disabled := item.1.disabled
  log := item.1.log
  label := item.1.descr
  skipReason := ruleSkip item.1 aliases

def endpointSummary (ep : OpnEndpoint) : List Char :=
  if ep.any then "any".toList
  else
    let base := ((ep.address <|> ep.network).getD "any".toList)
    match ep.port with
    | some p => base ++ ':' :: p
    | none => base

def portForwardSkip (n : OpnNatPortForward) : Option String :=
  if n.disabled then some "disabled"
  else if (IpAddr.parse n.target).isNone then
    some ("redirect target " ++ quoted n.target ++ " is not an IP")
  else if n.localPort.isNone ∧ n.destination.port.isNone then
    some ("DNAT/port-forward needs <destination><port> or <local-port>; " ++
      "full-IP redirects unsupported")
  else none

def planPortForward (ifaceMap : IfaceMap) (n : OpnNatPortForward) : PlanNat where
  kind := "dnat"
  interface := mapIface n.interface ifaceMap
  protocol := n.protocol
  src := endpointSummary n.source
  dst := endpointSummary n.destination
  redirect := match n.localPort with
    | some p => n.target ++ ':' :: p
    | none => n.target
  label := n.descr
  skipReason := portForwardSkip n

def disabledSkip (disabled : Bool) : Option String := if disabled then some "disabled" else none

def planOutbound (ifaceMap : IfaceMap) (n : OpnNatOutbound) : PlanNat where
  kind := match n.target with
    | none | some [] => "masquerade"
    | some _ => "snat"
  interface := mapIface n.interface ifaceMap
  protocol := n.protocol
  src := endpointSummary n.source
  dst := endpointSummary n.destination
  redirect := n.target.getD "(<iface>)".toList
  label := n.descr
  skipReason := disabledSkip n.disabled

def planOneToOne (ifaceMap : IfaceMap) (n : OpnNatOneToOne) : PlanNat where
  kind := "binat"
  interface := mapIface n.interface ifaceMap
  protocol := "any".toList
  src := n.internal
  dst := endpointSummary n.destination
  redirect := n.external
  label := n.descr
  skipReason := disabledSkip n.disabled

/-- The mode of the outbound rules is not looked at. -/
def planNat (nat : OpnNat) (ifaceMap : IfaceMap) : List PlanNat :=
  nat.portForwards.map (planPortForward ifaceMap) ++ nat.outbound.map (planOutbound ifaceMap) ++
    nat.onetoone.map (planOneToOne ifaceMap)

def buildPlan (cfg : OpnConfig) (ifaceMap : IfaceMap) (existingAliases : List (List Char)) :
    PreviewPlan where
  aliases := cfg.aliases.map (planAlias existingAliases)
  rules := (ruleItems cfg.rules ifaceMap).map
    (planRule (availableAliases existingAliases cfg.aliases))
  nat := planNat cfg.nat ifaceMap

open AiFw.Aliases (Alias AliasType Fetch)
open AiFw.Wan (Uuid AifwError)

/-- The text of an error; what the database says is left out. -/
def errorText : AifwError → String
  | .validation text => "validation error: " ++ String.ofList text
  | .notFound text => "not found: " ++ String.ofList text
  | .database => "database error: "

def aliasKind (kind : List Char) : Except String AliasType :=
  let lowered := toLowercase kind
  if lowered = "host".toList then .ok .host
  else if lowered = "network".toList then .ok .network
  else if lowered = "port".toList then .ok .port
  else if lowered = "url".toList ∨ lowered = "urltable".toList then .ok .urlTable
  else if ["geoip", "external", "asn", "macaddress"].any fun k => k.toList = lowered then
    .error ("type " ++ String.ofList kind ++ " not supported")
  else .error ("unknown type " ++ String.ofList lowered)

def aliasSkipped (a : OpnAlias) (reason : String) : String :=
  "alias " ++ quoted a.name ++ " (" ++ reason ++ ")"

def aliasFor (a : OpnAlias) (id : Uuid) (aliasType : AliasType) (now : List Char) : Alias where
  id
  name := a.name
  aliasType
  entries := a.content
  description := a.descr
  enabled := true
  createdAt := now
  updatedAt := now

/-- What becomes of one alias: it is inserted, or reported among those that are skipped. -/
def applyAlias (fetch : Fetch) (now : List Char) (existing : List (List Char)) (id : Uuid)
    (rows : List Alias) (a : OpnAlias) : List Alias × Except String Alias :=
  if a.disabled then (rows, .error (aliasSkipped a "disabled"))
  else if !validAliasName a.name then (rows, .error (aliasSkipped a "invalid name"))
  else if existing.contains a.name then (rows, .error (aliasSkipped a "name collision"))
  else
    match aliasKind a.kind with
    | .error reason => (rows, .error (aliasSkipped a reason))
    | .ok kind =>
      match Aliases.add fetch rows (aliasFor a id kind now) with
      | (rows, _, .ok added) => (rows, .ok added)
      | (rows, _, .error e) => (rows, .error (aliasSkipped a (errorText e)))

/-- The id of each alias is drawn as it comes. -/
def applyAliases (fetch : Fetch) (now : List Char) (existing : List (List Char)) :
    (Nat → Uuid) → List Alias → List OpnAlias → List Alias × List (Except String Alias)
  | _, rows, [] => (rows, [])
  | draw, rows, a :: as =>
    let applied := applyAlias fetch now existing (draw 0) rows a
    let rest := applyAliases fetch now existing (fun n => draw (n + 1)) applied.1 as
    (rest.1, applied.2 :: rest.2)

def importedNames (outcomes : List (Except String Alias)) : List (List Char) :=
  outcomes.filterMap fun o => o.toOption.map Alias.name

def skippedText (kind : String) (descr : Option (List Char)) (reason : String) : String :=
  kind ++ " " ++ quoted (descr.getD []) ++ " (" ++ reason ++ ")"

def ruleSkipped (r : OpnRule) (reason : String) : String :=
  skippedText "rule" (some (r.descr.getD "(no descr)".toList)) reason

/-- What the engine makes of a rule that is built. -/
def insertRule (r : OpnRule) (rule : Rule) : Except String Rule :=
  match validateRule rule with
  | .ok () => .ok rule
  | .error e => .error (ruleSkipped r ("validation error: " ++ e))

/-- The priority goes up with each rule that is built. -/
def applyRules (aliasNames : List (List Char)) :
    (Nat → Uuid) → Int → List (OpnRule × Option (List Char)) → List (Except String Rule)
  | _, _, [] => []
  | draw, priority, (r, iface) :: items =>
    match buildRule (draw 0) r iface aliasNames priority with
    | .ok rule =>
      insertRule r rule :: applyRules aliasNames (fun n => draw (n + 1)) (min (priority + 1) 10000) items
    | .error reason =>
      .error (ruleSkipped r reason) :: applyRules aliasNames (fun n => draw (n + 1)) priority items

/-- What the engine makes of a NAT rule that is built. -/
def insertNat (kind : String) (descr : Option (List Char)) (r : ImportedNat) :
    Except String ImportedNat :=
  match validateNatRule r.toNatRule with
  | .ok () => .ok r
  | .error e => .error (skippedText kind descr ("validation error: " ++ e))

def applyPortForward (ifaceMap : IfaceMap) (n : OpnNatPortForward) :
    Except String (ImportedNat × List String) :=
  if n.disabled then .error (skippedText "port-forward" n.descr "disabled")
  else
    match buildPortForward n ifaceMap [] with
    | .ok (r, advisories) => (insertNat "port-forward" n.descr r).map fun r => (r, advisories)
    | .error reason => .error (skippedText "port-forward" n.descr reason)

def applyOutbound (ifaceMap : IfaceMap) (n : OpnNatOutbound) : Except String ImportedNat :=
  if n.disabled then .error (skippedText "outbound NAT" n.descr "disabled")
  else
    match buildOutbound n ifaceMap [] with
    | .ok r => insertNat "outbound NAT" n.descr r
    | .error reason => .error (skippedText "outbound NAT" n.descr reason)

def applyOneToOne (ifaceMap : IfaceMap) (n : OpnNatOneToOne) : Except String ImportedNat :=
  if n.disabled then .error (skippedText "1:1 NAT" n.descr "disabled")
  else
    match buildOneToOne n ifaceMap [] with
    | .ok r => insertNat "1:1 NAT" n.descr r
    | .error reason => .error (skippedText "1:1 NAT" n.descr reason)

def OpnNat.outboundDisabled (nat : OpnNat) : Bool :=
  match nat.mode with
  | some mode => lower mode = "disabled".toList
  | none => false

/-- One report stands for all outbound rules where they are disabled by the mode. -/
def outboundReport (nat : OpnNat) : String :=
  toString nat.outbound.length ++ " outbound NAT rules (skipped: <nat><mode>disabled</mode>)"

/-- What becomes of the NAT entries, with what is reported of those that are inserted. -/
def applyNat (nat : OpnNat) (ifaceMap : IfaceMap) :
    List (Except String (ImportedNat × List String)) :=
  nat.portForwards.map (applyPortForward ifaceMap) ++
    nat.outbound.map (fun n =>
      if nat.outboundDisabled then .error (outboundReport nat)
      else (applyOutbound ifaceMap n).map fun r => (r, [])) ++
    nat.onetoone.map fun n => (applyOneToOne ifaceMap n).map fun r => (r, [])

/-- What becomes of the items of a configuration, one by one. -/
structure ImportOutcome where
  aliases : List (Except String Alias)
  rules : List (Except String Rule)
  nat : List (Except String (ImportedNat × List String))

/-- The rules are given the names of the aliases that were inserted, the NAT entries none. -/
def applyConfig (fetch : Fetch) (now : List Char) (draw : Nat → Uuid) (cfg : OpnConfig)
    (ifaceMap : IfaceMap) (rows : List Alias) : ImportOutcome :=
  let outcomes := (applyAliases fetch now (rows.map Alias.name) draw rows cfg.aliases).2
  { aliases := outcomes
    rules := applyRules (importedNames outcomes) (fun n => draw (cfg.aliases.length + n)) 1000
      (ruleItems cfg.rules ifaceMap)
    nat := applyNat cfg.nat ifaceMap }

end AiFw.Opnsense
