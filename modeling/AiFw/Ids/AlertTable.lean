import AiFw.Ids.Engine
import AiFw.Lib.ListOrder
import AiFw.Lib.Table
import AiFw.Net.IpText
import Mathlib.Data.List.Lex

namespace AiFw.Ids
open AiFw.Lib AiFw.Net
set_option autoImplicit true

namespace AlertClassification

def asStr : AlertClassification → List Char
  | .unreviewed => "unreviewed".toList
  | .confirmed => "confirmed".toList
  | .falsePositive => "false_positive".toList
  | .investigating => "investigating".toList

/-- No name has a letter that a sign outside ASCII is lowered to. -/
def parse (s : List Char) : Option AlertClassification :=
  let s := s.map Char.toLower
  if s = "unreviewed".toList then some .unreviewed
  else if s = "confirmed".toList then some .confirmed
  else if s = "false_positive".toList then some .falsePositive
  else if s = "investigating".toList then some .investigating
  else none

theorem parse_asStr (c : AlertClassification) : parse c.asStr = some c := by
  cases c <;> decide

end AlertClassification

def reviewed : List Char := "reviewed".toList

/-- What a query of the alerts asks for. -/
structure AlertFilter where
  severity : Option UInt8
  srcIp : Option (List Char)
  signatureId : Option UInt32
  acknowledged : Option Bool
  classification : Option (List Char)

/-- A time of nanoseconds. -/
def seconds (n : Int) : Int := n * 1000000000

def alertEstimatedBytes : Nat := 1200

/-- The alerts in memory, the oldest first. -/
structure AlertBuffer where
  alerts : List IdsAlert
  maxBytes : Nat
  maxAgeSecs : Nat

namespace AlertBuffer

/-- The alerts that are left of those with one more at the end. -/
def push (buf : AlertBuffer) (now : Int) (alert : IdsAlert) : AlertBuffer :=
  let alerts := buf.alerts ++ [alert]
  let maxEntries := buf.maxBytes / alertEstimatedBytes
  let kept := alerts.drop (alerts.length - maxEntries)
  if 0 < buf.maxAgeSecs then
    let cutoff := now - seconds buf.maxAgeSecs
    { buf with alerts := kept.dropWhile fun a => a.timestamp < cutoff }
  else { buf with alerts := kept }

def passesClassification (cls : List Char) (a : IdsAlert) : Bool :=
  if cls = reviewed then a.classification ≠ .unreviewed
  else AlertClassification.parse cls = some a.classification

/-- The tests of a query but the one of the classification. -/
def passesFields (filter : AlertFilter) (a : IdsAlert) : Bool :=
  filter.severity.all (fun sev => a.severity = sev) &&
    filter.srcIp.all (fun ip => a.srcIp.display = ip) &&
    filter.signatureId.all (fun sid => a.signatureId = some sid) &&
    filter.acknowledged.all fun ack => a.acknowledged = ack

def passes (filter : AlertFilter) (a : IdsAlert) : Bool :=
  passesFields filter a && filter.classification.all fun cls => passesClassification cls a

def query (buf : AlertBuffer) (filter : AlertFilter) (limit offset : Nat) : List IdsAlert :=
  ((buf.alerts.reverse.filter (passes filter)).drop offset).take limit

/-- Change the first alert of the id. -/
def modify (id : Uuid) (f : IdsAlert → IdsAlert) : List IdsAlert → List IdsAlert
  | [] => []
  | a :: rest => if a.id = id then f a :: rest else a :: modify id f rest

/-- Without notes the ones the alert has stay. -/
def classified (classification : AlertClassification) (notes : Option String) (a : IdsAlert) :
    IdsAlert :=
  { a with
    classification
    analystNotes := notes.or a.analystNotes
    acknowledged := true }

def classify (buf : AlertBuffer) (id : Uuid) (classification : AlertClassification)
    (notes : Option String) : AlertBuffer :=
  { buf with alerts := modify id (classified classification notes) buf.alerts }

def acknowledge (buf : AlertBuffer) (id : Uuid) : AlertBuffer :=
  { buf with alerts := modify id (fun a => { a with acknowledged := true }) buf.alerts }

end AlertBuffer

section
def IdsAction.display : IdsAction → List Char
  | .alert => "alert".toList
  | .drop => "drop".toList
  | .reject => "reject".toList
  | .pass => "pass".toList

def IdsAction.fromStr (s : List Char) : Option IdsAction :=
  if s = "alert".toList then some .alert
  else if s = "drop".toList then some .drop
  else if s = "reject".toList then some .reject
  else if s = "pass".toList then some .pass
  else none

def RuleSource.display : RuleSource → List Char
  | .etOpen => "et_open".toList
  | .sigma => "sigma".toList
  | .yara => "yara".toList
  | .custom => "custom".toList

def RuleSource.fromStr (s : List Char) : Option RuleSource :=
  if s = "et_open".toList then some .etOpen
  else if s = "sigma".toList then some .sigma
  else if s = "yara".toList then some .yara
  else if s = "custom".toList then some .custom
  else none

theorem IdsAction.fromStr_display (a : IdsAction) : fromStr a.display = some a := by
  cases a <;> decide

theorem RuleSource.fromStr_display (s : RuleSource) : fromStr s.display = some s := by
  cases s <;> decide

/-- The functions of chrono and serde_json that the alert table uses. -/
structure AlertLibs where
  year : Int → Int
  toRfc3339 : Int → List Char
  parseRfc3339 : List Char → Option Int
  toJson : KeyedMap String String → Option (List Char)
  fromJson : List Char → Option (KeyedMap String String)

variable (libs : AlertLibs)

/-- The years whose times are taken as they are. -/
def AlertLibs.InYears (ts : Int) : Prop := 2020 ≤ libs.year ts ∧ libs.year ts ≤ 2100

instance (ts : Int) : Decidable (libs.InYears ts) := inferInstanceAs (Decidable (_ ∧ _))

def AlertLibs.Plausible (now ts : Int) : Prop :=
  now - seconds (365 * 5 * 86400) ≤ ts ∧ ts ≤ now + seconds 3600 ∧ libs.InYears ts

instance (now ts : Int) : Decidable (libs.Plausible now ts) := inferInstanceAs (Decidable (_ ∧ _))

def sanitizeAlertTimestamp (now ts : Int) : Int := if libs.Plausible now ts then ts else now

/-- A row of the table. The id is the one a hyphenated text stands for. -/
structure AlertRow where
  id : Uuid
  timestamp : List Char
  signatureId : Option Int
  signatureMsg : String
  severity : Int
  srcIp : List Char
  srcPort : Option Int
  dstIp : List Char
  dstPort : Option Int
  protocol : String
  action : List Char
  ruleSource : List Char
  flowId : Option Uuid
  payloadExcerpt : Option (List Char)
  metadata : Option (List Char)
  acknowledged : Bool
  classification : List Char
  analystNotes : Option String

namespace AlertRow

/-- The values `emit` binds, and the defaults of the columns it does not name. -/
def ofAlert (now : Int) (a : IdsAlert) : AlertRow where
  id := a.id
  timestamp := libs.toRfc3339 (sanitizeAlertTimestamp libs now a.timestamp)
  signatureId := a.signatureId.map fun s => s.toNat
  signatureMsg := a.signatureMsg
  severity := a.severity.toNat
  srcIp := a.srcIp.display
  srcPort := a.srcPort.map fun p => p.toNat
  dstIp := a.dstIp.display
  dstPort := a.dstPort.map fun p => p.toNat
  protocol := a.protocol
  action := a.action.display
  ruleSource := a.ruleSource.display
  flowId := a.flowId
  payloadExcerpt := a.payloadExcerpt
  metadata := a.metadata.bind libs.toJson
  acknowledged := false
  classification := "unreviewed".toList
  analystNotes := none

/-- The last column of the query. -/
def packed (row : AlertRow) : List Char :=
  row.classification ++ '|' :: (row.analystNotes.getD "").toList

def unpackNotes (packed : List Char) : Option String :=
  (splitOnce '|' packed).bind fun p => if p.2 = [] then none else some (String.ofList p.2)

def intoAlert (row : AlertRow) : Option IdsAlert := do
  let srcIp ← IpAddr.parse row.srcIp
  let dstIp ← IpAddr.parse row.dstIp
  let timestamp ← libs.parseRfc3339 row.timestamp
  return {
    id := row.id
    timestamp
    signatureId := row.signatureId.map UInt32.ofInt
    signatureMsg := row.signatureMsg
    severity := UInt8.ofInt row.severity
    srcIp
    srcPort := row.srcPort.map UInt16.ofInt
    dstIp
    dstPort := row.dstPort.map UInt16.ofInt
    protocol := row.protocol
    action := (IdsAction.fromStr row.action).getD .alert
    ruleSource := (RuleSource.fromStr row.ruleSource).getD .custom
    flowId := none
    payloadExcerpt := row.payloadExcerpt
    metadata := row.metadata.bind libs.fromJson
    acknowledged := row.acknowledged
    classification :=
      (((splitOn '|' row.packed).head?).bind AlertClassification.parse).getD .unreviewed
    analystNotes := unpackNotes row.packed }

def meetsClassification (cls : List Char) (row : AlertRow) : Bool :=
  if cls = reviewed then row.classification ≠ "unreviewed".toList else row.classification = cls

/-- The conditions of the query; a bound decimal is compared as the number. -/
def meets (filter : AlertFilter) (row : AlertRow) : Bool :=
  filter.severity.all (fun sev => row.severity = sev.toNat) &&
    filter.srcIp.all (fun ip => row.srcIp = ip) &&
    filter.signatureId.all (fun sid => row.signatureId = some (sid.toNat : Int)) &&
    filter.acknowledged.all (fun ack => row.acknowledged = ack) &&
    filter.classification.all fun cls => meetsClassification cls row

end AlertRow

/-- The rows in the order of their rowids. -/
abbrev AlertTable := List AlertRow

namespace AlertTable
variable (rows : AlertTable)

/-- The primary key refuses an id that is stored. -/
def emit (now : Int) (alert : IdsAlert) : AlertTable :=
  if hasKey AlertRow.id alert.id rows then rows else rows ++ [AlertRow.ofAlert libs now alert]

def queryAlerts (filter : AlertFilter) (limit offset : Nat) : List IdsAlert :=
  ((((rows.filter (AlertRow.meets filter)).mergeSort fun a b =>
    !decide (a.timestamp < b.timestamp)).drop offset).take limit).filterMap (AlertRow.intoAlert libs)

def classify (id : Uuid) (classification : AlertClassification) (notes : Option String) :
    AlertTable :=
  rows.map fun row =>
    if row.id = id then
      { row with classification := classification.asStr, analystNotes := notes, acknowledged := true }
    else row

def acknowledge (id : Uuid) : AlertTable :=
  rows.map fun row => if row.id = id then { row with acknowledged := true } else row

end AlertTable

end

end AiFw.Ids
