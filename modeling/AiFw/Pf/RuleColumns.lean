import AiFw.Lib.Numerals
import AiFw.Pf.BlockLogging
import AiFw.Pf.NatOrder

namespace AiFw.Pf
open AiFw.Lib AiFw.Net
open NatRuleRow (readDate)
set_option autoImplicit true

/-- A filter rule with its note, its timeouts and its times. -/
structure RuleRecord (DateTime : Type) extends Rule where
  description : Option (List Char)
  timeoutTcp : Option UInt32
  timeoutUdp : Option UInt32
  timeoutIcmp : Option UInt32
  createdAt : DateTime
  updatedAt : DateTime

/-- A row of the table of rules. The id is the one a hyphenated text stands for. -/
structure RuleRow where
  id : BitVec 128
  priority : Int
  action : List Char
  direction : List Char
  interface : Option (List Char)
  protocol : List Char
  srcAddr : List Char
  srcPortStart : Option Int
  srcPortEnd : Option Int
  dstAddr : List Char
  dstPortStart : Option Int
  dstPortEnd : Option Int
  log : Bool
  quick : Bool
  label : Option (List Char)
  stateTracking : List Char
  statePolicy : Option (List Char)
  adaptiveStart : Option Int
  adaptiveEnd : Option Int
  timeoutTcp : Option Int
  timeoutUdp : Option Int
  timeoutIcmp : Option Int
  status : List Char
  createdAt : List Char
  updatedAt : List Char
  scheduleId : Option (List Char)
  ipVersion : List Char
  srcInvert : Bool
  dstInvert : Bool
  gateway : Option (List Char)

/-- The name of the variant, lowered. -/
def Direction.dbStr : Direction → List Char
  | .in => "in".toList
  | .out => "out".toList
  | .any => "any".toList

def IpVersion.dbStr : IpVersion → List Char
  | .inet => "inet".toList
  | .inet6 => "inet6".toList
  | .both => "both".toList

def stateTrackingToStr : StateTracking → List Char
  | .none => "none".toList
  | .keepState => "keep_state".toList
  | .modulateState => "modulate_state".toList
  | .synproxyState => "synproxy_state".toList

def statePolicyToStr : StatePolicy → List Char
  | .ifBound => "if_bound".toList
  | .floating => "floating".toList

def RuleStatus.dbStr : RuleStatus → List Char
  | .active => "active".toList
  | .disabled => "disabled".toList

def actionWords : List (String × Action) :=
  [("pass", .pass), ("block", .block), ("block_drop", .blockDrop), ("blockdrop", .blockDrop),
    ("block_return", .blockReturn), ("blockreturn", .blockReturn)]

def Action.parseDb (s : List Char) : Option Action :=
  (actionWords.find? fun e => e.1.toList = s).map Prod.snd

def parseAction (s : List Char) : Except String Action :=
  match Action.parseDb s with
  | some a => .ok a
  | none => .error ("unknown action: " ++ String.ofList s)

def parseDirection (s : List Char) : Except String Direction :=
  if s = "in".toList then .ok .in
  else if s = "out".toList then .ok .out
  else if s = "any".toList then .ok .any
  else .error ("unknown direction: " ++ String.ofList s)

def ipVersionWords : List (String × IpVersion) :=
  [("inet", .inet), ("ipv4", .inet), ("4", .inet), ("inet6", .inet6), ("ipv6", .inet6),
    ("6", .inet6), ("both", .both), ("any", .both), ("*", .both), ("", .both), ("inet46", .both)]

def IpVersion.parse (s : List Char) : Except String IpVersion :=
  match parseKeyword ipVersionWords s with
  | some v => .ok v
  | none => .error ("unknown ip version: " ++ String.ofList s)

/-- `unwrap_or_default`. -/
def readIpVersion (s : List Char) : IpVersion :=
  match IpVersion.parse s with
  | .ok v => v
  | .error _ => .both

def parseStateTracking (s : List Char) : StateTracking :=
  if s = "none".toList then .none
  else if s = "modulate_state".toList then .modulateState
  else if s = "synproxy_state".toList then .synproxyState
  else .keepState

def parseStatePolicy (s : List Char) : StatePolicy :=
  if s = "floating".toList then .floating else .ifBound

def parsePortColumns : Option Int → Option Int → Option PortRange
  | some s, some e => some ⟨UInt16.ofInt s, UInt16.ofInt e⟩
  | _, _ => none

def parseAdaptive : Option Int → Option Int → Option AdaptiveTimeouts
  | some s, some e => some ⟨UInt32.ofInt s, UInt32.ofInt e⟩
  | _, _ => none

def bindU16 (n : UInt16) : Int := n.toNat

def bindU32 (n : UInt32) : Int := n.toNat

namespace RuleRow
variable {DateTime : Type} (chrono : Rfc3339 DateTime)

/-- The row `insert_rule_on` inserts. -/
def ofRule (rule : RuleRecord DateTime) : RuleRow where
  id := rule.id
  priority := rule.priority
  action := rule.action.asDbStr.toList
  direction := rule.direction.dbStr
  interface := rule.interface
  protocol := rule.protocol.display
  srcAddr := rule.ruleMatch.srcAddr.display
  srcPortStart := rule.ruleMatch.srcPort.map fun p => bindU16 p.start
  srcPortEnd := rule.ruleMatch.srcPort.map fun p => bindU16 p.end_
  dstAddr := rule.ruleMatch.dstAddr.display
  dstPortStart := rule.ruleMatch.dstPort.map fun p => bindU16 p.start
  dstPortEnd := rule.ruleMatch.dstPort.map fun p => bindU16 p.end_
  log := rule.log
  quick := rule.quick
  label := rule.label
  stateTracking := stateTrackingToStr rule.stateOptions.tracking
  statePolicy := rule.stateOptions.policy.map statePolicyToStr
  adaptiveStart := rule.stateOptions.adaptiveTimeouts.map fun a => bindU32 a.start
  adaptiveEnd := rule.stateOptions.adaptiveTimeouts.map fun a => bindU32 a.end_
  timeoutTcp := rule.timeoutTcp.map bindU32
  timeoutUdp := rule.timeoutUdp.map bindU32
  timeoutIcmp := rule.timeoutIcmp.map bindU32
  status := rule.status.dbStr
  createdAt := chrono.toRfc3339 rule.createdAt
  updatedAt := chrono.toRfc3339 rule.updatedAt
  scheduleId := rule.scheduleId
  ipVersion := rule.ipVersion.dbStr
  srcInvert := rule.srcInvert
  dstInvert := rule.dstInvert
  gateway := rule.gateway

/-- The columns `update_rule_on` sets, on the row it finds: all but the id and the time of creation,
and the time of the update is the clock's. -/
def setTo (rule : RuleRecord DateTime) (now : DateTime) (row : RuleRow) : RuleRow :=
  { row with
      priority := rule.priority
      action := rule.action.asDbStr.toList
      direction := rule.direction.dbStr
      interface := rule.interface
      protocol := rule.protocol.display
      srcAddr := rule.ruleMatch.srcAddr.display
      srcPortStart := rule.ruleMatch.srcPort.map fun p => bindU16 p.start
      srcPortEnd := rule.ruleMatch.srcPort.map fun p => bindU16 p.end_
      dstAddr := rule.ruleMatch.dstAddr.display
      dstPortStart := rule.ruleMatch.dstPort.map fun p => bindU16 p.start
      dstPortEnd := rule.ruleMatch.dstPort.map fun p => bindU16 p.end_
      log := rule.log
      quick := rule.quick
      label := rule.label
      stateTracking := stateTrackingToStr rule.stateOptions.tracking
      statePolicy := rule.stateOptions.policy.map statePolicyToStr
      adaptiveStart := rule.stateOptions.adaptiveTimeouts.map fun a => bindU32 a.start
      adaptiveEnd := rule.stateOptions.adaptiveTimeouts.map fun a => bindU32 a.end_
      timeoutTcp := rule.timeoutTcp.map bindU32
      timeoutUdp := rule.timeoutUdp.map bindU32
      timeoutIcmp := rule.timeoutIcmp.map bindU32
      status := rule.status.dbStr
      updatedAt := chrono.toRfc3339 now
      scheduleId := rule.scheduleId
      ipVersion := rule.ipVersion.dbStr
      srcInvert := rule.srcInvert
      dstInvert := rule.dstInvert
      gateway := rule.gateway }

def intoRule (row : RuleRow) : Except String (RuleRecord DateTime) := do
  let action ← parseAction row.action
  let direction ← parseDirection row.direction
  let protocol ← Protocol.parse row.protocol
  let srcAddr ← Address.parse row.srcAddr
  let dstAddr ← Address.parse row.dstAddr
  let createdAt ← readDate chrono row.createdAt
  let updatedAt ← readDate chrono row.updatedAt
  return {
    id := row.id
    priority := row.priority
    action
    direction
    ipVersion := readIpVersion row.ipVersion
    interface := row.interface
    protocol
    ruleMatch := {
      srcAddr
      srcPort := parsePortColumns row.srcPortStart row.srcPortEnd
      dstAddr
      dstPort := parsePortColumns row.dstPortStart row.dstPortEnd }
    srcInvert := row.srcInvert
    dstInvert := row.dstInvert
    log := row.log
    quick := row.quick
    label := row.label
    description := none
    gateway := row.gateway
    stateOptions := {
      tracking := parseStateTracking row.stateTracking
      policy := row.statePolicy.map parseStatePolicy
      adaptiveTimeouts := parseAdaptive row.adaptiveStart row.adaptiveEnd }
    timeoutTcp := row.timeoutTcp.map UInt32.ofInt
    timeoutUdp := row.timeoutUdp.map UInt32.ofInt
    timeoutIcmp := row.timeoutIcmp.map UInt32.ofInt
    status := if row.status = "active".toList then .active else .disabled
    scheduleId := row.scheduleId
    createdAt
    updatedAt }

end RuleRow

theorem parseAction_asDbStr (a : Action) : parseAction a.asDbStr.toList = .ok a := by
  cases a <;> rfl

theorem parseDirection_dbStr (d : Direction) : parseDirection d.dbStr = .ok d := by
  cases d <;> rfl

theorem readIpVersion_dbStr (v : IpVersion) : readIpVersion v.dbStr = v := by
  cases v <;> rfl

theorem parseStateTracking_toStr (t : StateTracking) :
    parseStateTracking (stateTrackingToStr t) = t := by
  cases t <;> rfl

theorem parseStatePolicy_toStr (p : StatePolicy) : parseStatePolicy (statePolicyToStr p) = p := by
  cases p <;> rfl

theorem ruleStatus_of_dbStr (s : RuleStatus) :
    (if s.dbStr = "active".toList then RuleStatus.active else .disabled) = s := by
  cases s <;> rfl

theorem parsePortColumns_map (port : Option PortRange) :
    parsePortColumns (port.map fun p => bindU16 p.start) (port.map fun p => bindU16 p.end_) =
      port := by
  cases port with
  | none => rfl
  | some p =>
    simp only [Option.map_some, parsePortColumns, bindU16, ofInt_toNat_u16]

theorem parseAdaptive_map (adaptive : Option AdaptiveTimeouts) :
    parseAdaptive (adaptive.map fun a => bindU32 a.start) (adaptive.map fun a => bindU32 a.end_) =
      adaptive := by
  cases adaptive with
  | none => rfl
  | some a =>
    simp only [Option.map_some, parseAdaptive, bindU32, ofInt_toNat_u32]

theorem policy_map (policy : Option StatePolicy) :
    (policy.map statePolicyToStr).map parseStatePolicy = policy := by
  cases policy with
  | none => rfl
  | some p => simp only [Option.map_some, parseStatePolicy_toStr]

theorem timeout_map (timeout : Option UInt32) :
    (timeout.map bindU32).map UInt32.ofInt = timeout := by
  cases timeout with
  | none => rfl
  | some n => simp only [Option.map_some, bindU32, ofInt_toNat_u32]

/-- The names of the tables of an accepted rule are valid. -/
structure Rule.TablesValid (rule : Rule) : Prop where
  srcTable : ∀ name, rule.ruleMatch.srcAddr = .table name → validateTableName name = .ok ()
  dstTable : ∀ name, rule.ruleMatch.dstAddr = .table name → validateTableName name = .ok ()

theorem Rule.tablesValid_of_validateRule (h : validateRule rule = .ok ()) : rule.TablesValid := by
  unfold validateRule at h
  obtain ⟨_, hsrc, h⟩ := except_bind_ok h
  obtain ⟨_, hdst, -⟩ := except_bind_ok h
  constructor
  · intro name hname
    rw [hname] at hsrc
    exact hsrc
  · intro name hname
    rw [hname] at hdst
    exact hdst

namespace RuleRow
variable {DateTime : Type} {chrono : Rfc3339 DateTime} {rule : RuleRecord DateTime}

/-- A row reads as the rule it was written from, but for the note. -/
theorem intoRule_ofRule (h : rule.toRule.TablesValid) :
    intoRule chrono (ofRule chrono rule) = .ok { rule with description := none } := by
  have hdate (t : DateTime) : readDate chrono (chrono.toRfc3339 t) = .ok t := by
    unfold readDate
    rw [chrono.parse_toRfc3339]
  unfold intoRule ofRule
  simp only [parseAction_asDbStr, parseDirection_dbStr, Protocol.parse_display,
    Address.parse_display _ h.srcTable, Address.parse_display _ h.dstTable, hdate,
    readIpVersion_dbStr, parsePortColumns_map, parseStateTracking_toStr, policy_map,
    parseAdaptive_map, timeout_map, ruleStatus_of_dbStr]
  rfl

/-- An updated row is the row of the rule with the time of creation it had. -/
theorem setTo_ofRule (old : RuleRecord DateTime) (now : DateTime) (hid : old.id = rule.id) :
    setTo chrono rule now (ofRule chrono old) =
      ofRule chrono { rule with createdAt := old.createdAt, updatedAt := now } := by
  unfold setTo ofRule
  simp only [hid]

end RuleRow

end AiFw.Pf
