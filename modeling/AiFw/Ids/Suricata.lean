import AiFw.Ids.AlertTable
import AiFw.Lib.TextSearch
import AiFw.Pf.Types

namespace AiFw.Ids
open AiFw.Lib
open AiFw.Pf (byteLen)
set_option autoImplicit true

/-- A compiled rule with its direction. The ids of rules without a sid are random; no id is kept. -/
structure SuricataRule extends CompiledRule where
  bidirectional : Bool

/-- The signs before a byte position of a text, which is not inside of a sign. -/
def takeBytes : Nat → List Char → Option (List Char)
  | 0, _ => some []
  | _ + 1, [] => none
  | n + 1, c :: cs =>
    if c.utf8Size ≤ n + 1 then (takeBytes (n + 1 - c.utf8Size) cs).map (c :: ·) else none

/-- Options are read sign by sign. -/
structure OptionScan where
  options : List (List Char × List Char)
  key : List Char
  value : List Char
  inValue : Bool
  inQuotes : Bool
  escaped : Bool
  depth : Int

namespace OptionScan

def start : OptionScan := ⟨[], [], [], false, false, false, 0⟩

def pushValue (s : OptionScan) (c : Char) : OptionScan :=
  if s.inValue then { s with value := s.value ++ [c] } else s

def push (s : OptionScan) (c : Char) : OptionScan :=
  if s.inValue then { s with value := s.value ++ [c] } else { s with key := s.key ++ [c] }

def result (s : OptionScan) : List (List Char × List Char) :=
  if trim s.key = [] then s.options else s.options ++ [(trim s.key, trim s.value)]

def step (s : OptionScan) (c : Char) : OptionScan :=
  if s.escaped then { s.push c with escaped := false }
  else if c = '\\' then { s.pushValue c with escaped := true }
  else if c = '"' then { s.pushValue c with inQuotes := !s.inQuotes }
  else if s.inQuotes then s.push c
  else if c = ':' ∧ !s.inValue ∧ s.depth = 0 then { s with inValue := true }
  else if c = ';' ∧ s.depth = 0 then
    { s with options := s.result, key := [], value := [], inValue := false }
  else if c = '(' then { s.pushValue c with depth := s.depth + 1 }
  else if c = ')' then { s.pushValue c with depth := s.depth - 1 }
  else s.push c

end OptionScan

def parseOptions (opts : List Char) : List (List Char × List Char) :=
  (opts.foldl OptionScan.step .start).result

example : parseOptions "msg:\"a; b\"; nocase; sid:7".toList =
    [("msg".toList, "\"a; b\"".toList), ("nocase".toList, []), ("sid".toList, "7".toList)] := by
  decide +kernel

def unquote (s : List Char) : List Char :=
  match trim s with
  | '"' :: rest => if rest.getLast? = some '"' then rest.dropLast else trim s
  | s => s

/-- `u8::from_str_radix` of two signs. -/
def hexByte (c d : Char) : Option UInt8 :=
  if c = '+' then (toDigit 16 d).map UInt8.ofNat
  else (toDigit 16 c).bind fun high => (toDigit 16 d).map fun low => UInt8.ofNat (16 * high + low)

/-- A sign cast to a byte: its low eight bits. -/
def castByte (c : Char) : UInt8 := UInt8.ofNat c.toNat

def escapeBytes (c : Char) : Bytes :=
  if c = 'n' then [0x0A]
  else if c = 'r' then [0x0D]
  else if c = 't' then [0x09]
  else if c = '\\' ∨ c = '"' ∨ c = ';' then [castByte c]
  else [0x5C, castByte c]

/-- The loop over the signs of an unquoted content. -/
def contentBytes (inHex : Bool) : List Char → Except (List Char) Bytes
  | [] => .ok []
  | c :: cs =>
    if c = '|' then contentBytes (!inHex) cs
    else if inHex then
      if isWhitespace c then contentBytes inHex cs
      else match cs with
        | [] => contentBytes inHex []
        | d :: rest =>
          match hexByte c d with
          | some byte => (contentBytes inHex rest).map (byte :: ·)
          | none => .error ("invalid hex: ".toList ++ [c, d])
    else if c = '\\' then
      match cs with
      | [] => .ok [castByte c]
      | d :: rest => (contentBytes inHex rest).map (escapeBytes d ++ ·)
    else (contentBytes inHex cs).map (castByte c :: ·)

/-- The bytes of a content, and whether it is negated. -/
def parseContentValue (s : List Char) : Except (List Char) (Bytes × Bool) :=
  let (body, negated) := match trim s with
    | '!' :: rest => (trim rest, true)
    | s => (s, false)
  (contentBytes false (unquote body)).map fun bytes => (bytes, negated)

def parsePcrePattern (s : List Char) : Option (List Char) :=
  match (trim s).dropWhile (· == '!') with
  | '/' :: rest =>
    (rsplitOnce '/' rest).map fun (pattern, flags) =>
      (if 'i' ∈ flags then "(?i)".toList else []) ++ (if 's' ∈ flags then "(?s)".toList else []) ++
        (if 'm' ∈ flags then "(?m)".toList else []) ++ pattern
  | _ => none

def parseFlowConstraint (s : List Char) : FlowConstraint :=
  ((splitOn ',' s).map trim).foldl (fun fc part =>
    if part = "established".toList then { fc with established := true }
    else if part = "to_server".toList ∨ part = "from_client".toList then
      { fc with toServer := some true }
    else if part = "to_client".toList ∨ part = "from_server".toList then
      { fc with toServer := some false }
    else if part = "stateless".toList then { fc with stateless := true }
    else fc) ⟨false, none, false⟩

def parseThresholdPart (config : ThresholdConfig) (part : List Char) : ThresholdConfig :=
  match splitOnce ' ' part with
  | none => config
  | some (key, value) =>
    let key := trim key
    let value := trim value
    if key = "type".toList then
      { config with
        thresholdType :=
          if value = "threshold".toList then .threshold
          else if value = "both".toList then .both
          else .limit }
    else if key = "track".toList then
      { config with track := if value = "by_dst".toList then .byDst else .bySrc }
    else if key = "count".toList then
      { config with count := UInt32.ofNat ((parseUnsigned (2 ^ 32) value).getD 1) }
    else if key = "seconds".toList then
      { config with seconds := UInt32.ofNat ((parseUnsigned (2 ^ 32) value).getD 60) }
    else config

def parseThreshold (s : List Char) : Option ThresholdConfig :=
  some (((splitOn ',' s).map trim).foldl parseThresholdPart ⟨.limit, .bySrc, 1, 60⟩)

/-- At most one comma parts the operation from its name. -/
def parseFlowbits (s : List Char) : Option FlowbitOp :=
  let (op, name) := match splitOnce ',' s with
    | some (op, name) => (trim op, some (String.ofList (trim name)))
    | none => (trim s, none)
  if op = "set".toList then name.map .set
  else if op = "isset".toList then name.map .isSet
  else if op = "unset".toList then name.map .unset
  else if op = "toggle".toList then name.map .toggle
  else if op = "noalert".toList then some .noAlert
  else none

def classtypeSeverity (classtype : List Char) : IdsSeverity :=
  let isOneOf (names : List String) : Bool := names.any fun name => name.toList = classtype
  if isOneOf ["trojan-activity", "exploit-kit", "attempted-admin", "successful-admin",
      "shellcode-detect"] then 1
  else if isOneOf ["attempted-user", "successful-user", "web-application-attack",
      "web-application-activity", "attempted-dos", "successful-dos"] then 2
  else if isOneOf ["bad-unknown", "attempted-recon", "successful-recon-limited",
      "suspicious-filename-detect", "suspicious-login", "policy-violation"] then 3
  else 4

def normalizeAddr (s : List Char) : Option String :=
  if s = "any".toList then none else some (String.ofList s)

def normalizePort (s : List Char) : Option String :=
  if s = "any".toList then none else some (String.ofList s)

/-- `str::parse` of a signed number of 32 bits. -/
def parseInt32 (s : List Char) : Option Int32 :=
  match s with
  | '-' :: digits =>
    if digits.head? = some '+' then none
    else (parseUnsigned (2 ^ 31 + 1) digits).map fun n => Int32.ofInt (-n)
  | _ => (parseUnsigned (2 ^ 31) s).map fun n => Int32.ofInt n

/-- The keywords that name a buffer, and the buffer. -/
def stickyBuffers : List (List String × String) :=
  [(["http_method", "http.method"], "http.method"),
    (["http_uri", "http.uri", "http_raw_uri", "http.uri.raw"], "http.uri"),
    (["http_host", "http.host"], "http.host"),
    (["http_user_agent", "http.user_agent"], "http.user_agent"),
    (["http_header", "http.header"], "http.request_header"),
    (["http_cookie", "http.cookie"], "http.cookie"),
    (["http_content_type", "http.content_type"], "http.content_type"),
    (["http_response_body", "http.response_body", "file_data", "file.data"], "http.response_body"),
    (["http_stat_code", "http.stat_code"], "http.stat_code"),
    (["http_stat_msg", "http.stat_msg"], "http.stat_msg"),
    (["tls_sni", "tls.sni"], "tls.sni"),
    (["ja3_hash", "ja3.hash", "tls.ja3"], "tls.ja3"),
    (["dns_query", "dns.query"], "dns.query"),
    (["ssh.software"], "ssh.software")]

def bufferOf (key : List Char) : Option String :=
  (stickyBuffers.find? fun entry => entry.1.any fun name => name.toList = key).map Prod.snd

namespace SuricataRule
variable (rule : SuricataRule)

/-- A modifier is of the last content, if there is one. -/
def onLast (f : ContentMatch → ContentMatch) : SuricataRule :=
  { rule with contents := rule.contents.modify (rule.contents.length - 1) f }

def note (key value : List Char) : SuricataRule :=
  { rule with metadata := rule.metadata.insert (String.ofList key) (String.ofList value) }

def noteMetadata (value : List Char) : SuricataRule :=
  (splitOn ',' value).foldl (fun rule pair =>
    match splitOnce ' ' (trim pair) with
    | some (k, v) => rule.note (trim k) (trim v)
    | none => rule) rule

def withClasstype (value : List Char) : SuricataRule :=
  let noted := rule.note "classtype".toList value
  { noted with
    severity := if rule.severity = 3 then classtypeSeverity value else rule.severity }

def withPcre (value : List Char) : SuricataRule :=
  let pattern := unquote value
  match parsePcrePattern pattern with
  | some re =>
    let pcre := ⟨String.ofList re, pattern.head? = some '!', none⟩
    { rule with pcrePatterns := rule.pcrePatterns ++ [pcre] }
  | none => rule

def withContent (value : List Char) : Except (List Char) SuricataRule :=
  (parseContentValue value).map fun (pattern, negated) =>
    { rule with contents := rule.contents ++ [{ ContentMatch.text pattern with negated }] }

/-- One option of a rule; only a content can be refused. -/
def applyOption (option : List Char × List Char) : Except (List Char) SuricataRule :=
  let (key, value) := option
  let size := (parseUnsigned (2 ^ 64) value).map UInt64.ofNat
  if key = "sid".toList then
    .ok { rule with sid := (parseUnsigned (2 ^ 32) value).map UInt32.ofNat }
  else if key = "msg".toList then .ok { rule with msg := String.ofList (unquote value) }
  else if key = "priority".toList then
    .ok { rule with severity := UInt8.ofNat ((parseUnsigned (2 ^ 8) value).getD 3) }
  else if key = "classtype".toList then .ok (rule.withClasstype value)
  else if key = "reference".toList ∨ key = "rev".toList then .ok (rule.note key value)
  else if key = "metadata".toList then .ok (rule.noteMetadata value)
  else if key = "content".toList then rule.withContent value
  else if key = "nocase".toList then .ok (rule.onLast fun last => { last with nocase := true })
  else if key = "depth".toList then .ok (rule.onLast fun last => { last with depth := size })
  else if key = "offset".toList then .ok (rule.onLast fun last => { last with offset := size })
  else if key = "distance".toList then
    .ok (rule.onLast fun last => { last with distance := parseInt32 value })
  else if key = "within".toList then .ok (rule.onLast fun last => { last with within := size })
  else if key = "fast_pattern".toList then
    .ok (rule.onLast fun last => { last with fastPattern := true })
  else if key = "pcre".toList then .ok (rule.withPcre value)
  else if key = "flow".toList then .ok { rule with flow := some (parseFlowConstraint value) }
  else if key = "threshold".toList ∨ key = "detection_filter".toList then
    .ok { rule with threshold := parseThreshold value }
  else if key = "flowbits".toList then
    .ok { rule with flowbits := rule.flowbits ++ (parseFlowbits value).toList }
  else
    match bufferOf key with
    | some buffer => .ok (rule.onLast fun last => { last with buffer := some buffer })
    | none => .ok (if value = [] then rule else rule.note key value)

end SuricataRule

/-- A rule as its header gives it, before its options. -/
def headerRule (source : RuleSource) (action : IdsAction)
    (protocol srcAddr srcPort direction dstAddr dstPort : List Char) : SuricataRule where
  sid := none
  msg := ""
  severity := 3
  source := source
  action := action
  protocol := some (String.ofList protocol)
  srcAddr := normalizeAddr srcAddr
  srcPort := normalizePort srcPort
  dstAddr := normalizeAddr dstAddr
  dstPort := normalizePort dstPort
  contents := []
  pcrePatterns := []
  flow := none
  threshold := none
  flowbits := []
  metadata := ∅
  noPrefilter := true
  bidirectional := direction = "<>".toList

/-- The header's fields, then the options one after the other. -/
def parseParts (header options : List Char) (source : RuleSource) :
    Except (List Char) SuricataRule :=
  match splitWhitespace header with
  | action :: protocol :: srcAddr :: srcPort :: direction :: dstAddr :: dstPort :: _ =>
    match IdsAction.fromStr action with
    | none => .error ("unknown action: ".toList ++ action)
    | some action =>
      let rule := headerRule source action protocol srcAddr srcPort direction dstAddr dstPort
      ((parseOptions options).foldlM SuricataRule.applyOption rule).map fun rule =>
        { rule with noPrefilter := rule.contents = [] ∧ rule.pcrePatterns = [] }
  | _ => .error ("incomplete rule header: ".toList ++ header)

/-- Nothing is answered where a slice panics: the first 80 bytes of a line without a parenthesis
that end inside of a sign, and options whose last closing parenthesis is before the opening one. -/
def parseRule (line : List Char) (source : RuleSource) :
    Option (Except (List Char) SuricataRule) :=
  let line := trim line
  if line = [] ∨ line.head? = some '#' then some (.error "comment or empty".toList)
  else
    match splitOnce '(' line with
    | none =>
      (takeBytes (min (byteLen line) 80) line).map fun front =>
        .error ("no options section in rule: ".toList ++ front)
    | some (front, rest) =>
      match rsplitOnce ')' rest with
      | none => if ')' ∈ front then none else some (.error "no closing paren".toList)
      | some (options, _) => some (parseParts (trim front) options source)

/-- A drop rule of the source's own tests. -/
def dropText : List Char :=
  "drop tcp any any -> any any (msg:\"Drop test\"; content:\"bad\"; sid:8;)".toList

example : (parseRule dropText .custom).map (fun r => r.toOption.map fun rule =>
    (rule.action, rule.contents)) = some (some (.drop, [.text "bad".toUTF8.toList])) := by
  decide +kernel

end AiFw.Ids
