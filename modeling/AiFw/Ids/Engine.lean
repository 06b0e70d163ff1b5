import AiFw.Ids.FlowTable
import AiFw.Ids.Matching
import AiFw.Ids.Ruleset
import AiFw.Ids.Threshold
import AiFw.Lib.Text
import Mathlib.Data.List.Sort

namespace AiFw.Ids
open AiFw.Net AiFw.Lib
set_option autoImplicit true

abbrev StickyBuffers := KeyedMap String Bytes

inductive ProbeResult where
  | isMatch
  | noMatch
  | needMore
deriving DecidableEq, Repr

/-- An application-layer parser. Parsing may change the flow and adds to the buffers; its result
code is not used. -/
structure ProtocolParser where
  appProto : AppProto
  defaultPorts : List UInt16
  probe : Bytes → FlowDirection → ProbeResult
  parse : Flow → Bytes → FlowDirection → StickyBuffers → Flow × StickyBuffers

structure ProtocolRegistry where
  parsers : List ProtocolParser

namespace ProtocolRegistry

def detect (reg : ProtocolRegistry) (payload : Bytes) (dstPort : UInt16)
    (direction : FlowDirection) : Option AppProto :=
  if payload = [] then none
  else
    let hinted := reg.parsers.find? fun p =>
      p.defaultPorts.contains dstPort && p.probe payload direction == .isMatch
    let probed := reg.parsers.find? fun p => p.probe payload direction == .isMatch
    (hinted.or probed).map ProtocolParser.appProto

def getParser (reg : ProtocolRegistry) (proto : AppProto) : Option ProtocolParser :=
  reg.parsers.find? fun p => p.appProto == proto

def parse (reg : ProtocolRegistry) (flow : Flow) (payload : Bytes) (direction : FlowDirection)
    (buffers : StickyBuffers) : Flow × StickyBuffers :=
  match flow.appProto.bind reg.getParser with
  | some parser => parser.parse flow payload direction buffers
  | none => (flow, buffers)

end ProtocolRegistry

inductive AlertClassification where
  | unreviewed
  | confirmed
  | falsePositive
  | investigating
deriving DecidableEq, Repr

/-- An alert. The flow id is kept as the identifier itself, not its text. -/
structure IdsAlert where
  id : Uuid
  timestamp : Int
  signatureId : Option UInt32
  signatureMsg : String
  severity : IdsSeverity
  srcIp : IpAddr
  srcPort : Option UInt16
  dstIp : IpAddr
  dstPort : Option UInt16
  protocol : String
  action : IdsAction
  ruleSource : RuleSource
  flowId : Option Uuid
  payloadExcerpt : Option (List Char)
  metadata : Option (KeyedMap String String)
  acknowledged : Bool
  classification : AlertClassification
  analystNotes : Option String

def IdsAlert.new (id : Uuid) (timestamp : Int) (signatureMsg : String) (severity : IdsSeverity)
    (srcIp dstIp : IpAddr) (protocol : String) (action : IdsAction) (ruleSource : RuleSource) :
    IdsAlert where
  id := id
  timestamp := timestamp
  signatureId := none
  signatureMsg := signatureMsg
  severity := severity
  srcIp := srcIp
  srcPort := none
  dstIp := dstIp
  dstPort := none
  protocol := protocol
  action := action
  ruleSource := ruleSource
  flowId := none
  payloadExcerpt := none
  metadata := none
  acknowledged := false
  classification := .unreviewed
  analystNotes := none

def contentData (packet : DecodedPacket) (flow : Option Flow) (direction : FlowDirection)
    (stickyBuffers : StickyBuffers) (buffer : Option String) : Bytes :=
  match buffer with
  | none => packet.payload
  | some name =>
    match stickyBuffers.lookup name, flow, direction with
    | some buf, _, _ => buf
    | none, some flow, .toServer => flow.toserverBuf
    | none, some flow, .toClient => flow.toclientBuf
    | none, none, _ => packet.payload

/-- Expressions fall back to the payload, not to the reassembled stream. -/
def pcreData (packet : DecodedPacket) (stickyBuffers : StickyBuffers) (buffer : Option String) :
    Bytes :=
  match buffer with
  | none => packet.payload
  | some name => (stickyBuffers.lookup name).getD packet.payload

/-- A precompiled expression with this text that matches, or one compiled on the spot. -/
def pcreMatch (m : Matchers) (ruleset : Option CompiledRuleset) (pattern : String)
    (data : Bytes) : Bool :=
  let dataStr := fromUtf8Lossy data
  (ruleset.any fun rs => rs.regexPatterns.any fun r => r.1.asStr == pattern && r.1.isMatch dataStr)
    || (m.regexNew pattern).any fun re => re.isMatch dataStr

def evaluateRule (m : Matchers) (ruleset : Option CompiledRuleset) (rule : CompiledRule)
    (packet : DecodedPacket) (flow : Option Flow) (direction : FlowDirection)
    (stickyBuffers : StickyBuffers) : Bool :=
  rule.protocol.all (fun proto => matchProtocol proto packet flow) &&
  rule.flow.all (fun c => matchFlowConstraint c flow direction) &&
  rule.srcAddr.all (fun src => matchAddress src packet.srcIp) &&
  rule.dstAddr.all (fun dst => matchAddress dst packet.dstIp) &&
  rule.srcPort.all (fun port => matchPort port packet.srcPort) &&
  rule.dstPort.all (fun port => matchPort port packet.dstPort) &&
  rule.contents.all (fun content =>
    contentMatch content (contentData packet flow direction stickyBuffers content.buffer)
      != content.negated) &&
  rule.pcrePatterns.all (fun pcre =>
    pcreMatch m ruleset pcre.pattern (pcreData packet stickyBuffers pcre.buffer) != pcre.negated)

def applyFlowbit (bits : Finset String) : FlowbitOp → Finset String
  | .set name => insert name bits
  | .unset name => bits.erase name
  | .toggle name => if name ∈ bits then bits.erase name else insert name bits
  | .isSet _ => bits
  | .noAlert => bits

def applyFlowbits (rule : CompiledRule) (flow : Flow) : Flow :=
  { flow with flowbits := rule.flowbits.foldl applyFlowbit flow.flowbits }

/-- The isset conditions of a rule against the snapshot of the flow's bits; a packet without a
flow meets them only if there are none. -/
def flowbitsOk (snapshot : Option (Finset String)) (rule : CompiledRule) : Bool :=
  match snapshot with
  | some bits => rule.flowbits.all fun
    | .isSet name => decide (name ∈ bits)
    | _ => true
  | none => !rule.flowbits.any fun
    | .isSet _ => true
    | _ => false

def FlowTable.modify (t : FlowTable) (key : FlowKey) (f : Flow → Flow) : FlowTable :=
  match t.table.lookup key with
  | some flow => { t with table := t.table.insert key (f flow) }
  | none => t

def hexDigit (n : Nat) : Char := Char.ofNat (if n < 10 then 0x30 + n else 0x41 + (n - 10))

def payloadExcerpt (payload : Bytes) : Option (List Char) :=
  if payload = [] then none
  else
    let excerpt := payload.take 256
    if excerpt.all fun b => b.toNat < 128 then some (fromUtf8Lossy excerpt)
    else some ([' '].intercalate (excerpt.map fun b =>
      [hexDigit (b.toNat / 16), hexDigit (b.toNat % 16)]))

def ThresholdConfig.trackedIp (config : ThresholdConfig) (packet : DecodedPacket) :
    Option IpAddr :=
  match config.track with
  | .bySrc => packet.srcIp
  | .byDst => packet.dstIp

/-- What the runtime supplies to one call of `detect`: the table's choices, the clock in seconds
(all threshold checks of a call read the same second), and ids and times for the alerts. -/
structure Environment where
  choices : Choices
  now : Int
  alertId : Nat → Uuid
  alertTime : Nat → Int

/-- What stays fixed while the candidate rules of one packet are processed. -/
structure Pass where
  env : Environment
  ruleset : CompiledRuleset
  packet : DecodedPacket
  flowKey : FlowKey
  direction : FlowDirection
  stickyBuffers : StickyBuffers
  snapshot : Option (Finset String)
  flowId : Option Uuid

structure PassState where
  flowTable : FlowTable
  thresholdTracker : ThresholdTracker
  alerts : List IdsAlert

namespace Pass

def evaluates (m : Matchers) (pass : Pass) (flowTable : FlowTable) (rule : CompiledRule) : Bool :=
  evaluateRule m (some pass.ruleset) rule pass.packet (flowTable.get pass.flowKey) pass.direction
    pass.stickyBuffers

/-- The threshold stage: a rule without a threshold, or a packet without the tracked address,
passes without being counted. -/
def checkThreshold (pass : Pass) (tracker : ThresholdTracker) (rule : CompiledRule) :
    ThresholdTracker × Bool :=
  match rule.threshold with
  | none => (tracker, true)
  | some config =>
    match config.trackedIp pass.packet with
    | none => (tracker, true)
    | some ip => tracker.check pass.env.now (rule.sid.getD 0) ip config

def buildAlert (pass : Pass) (rule : CompiledRule) (n : Nat) : IdsAlert :=
  let packet := pass.packet
  let srcIp := packet.srcIp.getD IpAddr.unspecifiedV4
  let dstIp := packet.dstIp.getD IpAddr.unspecifiedV4
  { IdsAlert.new (pass.env.alertId n) (pass.env.alertTime n) rule.msg rule.severity srcIp dstIp
      packet.protocol.display rule.action rule.source with
    signatureId := rule.sid
    srcPort := packet.srcPort
    dstPort := packet.dstPort
    flowId := pass.flowId
    payloadExcerpt := payloadExcerpt packet.payload
    metadata := if rule.metadata.entries = [] then none else some rule.metadata }

/-- One round of the candidate loop: evaluate, check the threshold, check the flowbits, change
the flowbits, and alert unless told not to. -/
def applyRule (m : Matchers) (pass : Pass) (st : PassState) (rule : CompiledRule) : PassState :=
  if pass.evaluates m st.flowTable rule then
    let (tracker, fire) := pass.checkThreshold st.thresholdTracker rule
    if !fire then { st with thresholdTracker := tracker }
    else if !flowbitsOk pass.snapshot rule then { st with thresholdTracker := tracker }
    else
      let flowTable := st.flowTable.modify pass.flowKey (applyFlowbits rule)
      if rule.flowbits.contains .noAlert then
        { st with flowTable := flowTable, thresholdTracker := tracker }
      else
        { flowTable := flowTable
          thresholdTracker := tracker
          alerts := st.alerts ++ [pass.buildAlert rule st.alerts.length] }
  else st

def applyCandidates (m : Matchers) (pass : Pass) (st : PassState) (candidates : List Nat) :
    PassState :=
  candidates.foldl (fun st ruleIdx =>
    match pass.ruleset.rules[ruleIdx]? with
    | some rule => pass.applyRule m st rule
    | none => st) st

end Pass

structure DetectionEngine where
  ruleDb : RuleDatabase
  flowTable : FlowTable
  protocolRegistry : ProtocolRegistry
  thresholdTracker : ThresholdTracker

namespace DetectionEngine

def new (ruleDb : RuleDatabase) (flowTable : FlowTable) (registry : ProtocolRegistry) :
    DetectionEngine where
  ruleDb := ruleDb
  flowTable := flowTable
  protocolRegistry := registry
  thresholdTracker := .new

def parseProtocol (registry : ProtocolRegistry) (flow : Flow) (packet : DecodedPacket)
    (direction : FlowDirection) : Flow × StickyBuffers :=
  let flow :=
    if flow.appProto = none ∧ packet.payload ≠ [] then
      { flow with
        appProto := registry.detect packet.payload (packet.dstPort.getD 0) direction }
    else flow
  if flow.appProto.isSome then registry.parse flow packet.payload direction ∅ else (flow, ∅)

/-- Steps 1 and 2 of `detect`: the flow table, key, direction and buffers the rules will see. -/
def prepare (engine : DetectionEngine) (env : Environment) (packet : DecodedPacket) :
    FlowTable × Option (FlowKey × FlowDirection × StickyBuffers) :=
  match engine.flowTable.trackPacket env.choices packet with
  | (flowTable, none) => (flowTable, none)
  | (flowTable, some (key, direction)) =>
    match flowTable.get key with
    | none => (flowTable, some (key, direction, ∅))
    | some flow =>
      let (flow, buffers) := parseProtocol engine.protocolRegistry flow packet direction
      (flowTable.modify key fun _ => flow, some (key, direction, buffers))

def pass (env : Environment) (ruleset : CompiledRuleset) (packet : DecodedPacket)
    (flowTable : FlowTable) (key : FlowKey) (direction : FlowDirection)
    (buffers : StickyBuffers) : Pass where
  env := env
  ruleset := ruleset
  packet := packet
  flowKey := key
  direction := direction
  stickyBuffers := buffers
  snapshot := (flowTable.get key).map Flow.flowbits
  flowId := (flowTable.get key).map Flow.id

def sortBySeverity (alerts : List IdsAlert) : List IdsAlert :=
  alerts.insertionSort fun a b => a.severity ≤ b.severity

def detect (m : Matchers) (engine : DetectionEngine) (env : Environment)
    (packet : DecodedPacket) : DetectionEngine × List IdsAlert :=
  match engine.prepare env packet with
  | (flowTable, none) => ({ engine with flowTable := flowTable }, [])
  | (flowTable, some (key, direction, buffers)) =>
    match engine.ruleDb.ruleset with
    | none => ({ engine with flowTable := flowTable }, [])
    | some ruleset =>
      let pass := pass env ruleset packet flowTable key direction buffers
      let st := pass.applyCandidates m ⟨flowTable, engine.thresholdTracker, []⟩
        (ruleset.prefilter packet.payload)
      ({ engine with flowTable := st.flowTable, thresholdTracker := st.thresholdTracker },
        sortBySeverity st.alerts)

end DetectionEngine

end AiFw.Ids
