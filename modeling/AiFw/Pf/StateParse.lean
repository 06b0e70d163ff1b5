import AiFw.Geo.Index
import AiFw.Lib.TextSearch
import AiFw.Net.IpText

namespace AiFw.Pf
open AiFw.Lib AiFw.Net
set_option autoImplicit true

/-- An entry of the state table of pf. -/
structure PfState where
  id : UInt64
  protocol : List Char
  srcAddr : IpAddr
  srcPort : UInt16
  dstAddr : IpAddr
  dstPort : UInt16
  state : List Char
  packetsIn : UInt64
  packetsOut : UInt64
  bytesIn : UInt64
  bytesOut : UInt64
  ageSecs : UInt64
  iface : Option (List Char)
  rtable : Option UInt32
deriving DecidableEq, Repr

def unspecified : IpAddr := .v4 0

def parseU64 (s : List Char) : UInt64 := UInt64.ofNat ((parseUnsigned (2 ^ 64) s).getD 0)

/-- Whatever is not understood is taken for the unspecified address, or for port 0. -/
def parseAddrPort (s : List Char) : IpAddr × UInt16 :=
  match rsplitOnce ':' s with
  | some (addr, port) =>
    ((IpAddr.parse (trimMatches (fun c => c == '[' || c == ']') addr)).getD unspecified,
      UInt16.ofNat ((parseUnsigned 65536 port).getD 0))
  | none => (unspecified, 0)

def isArrow (part : List Char) : Bool := part = "->".toList || part = "<-".toList

/-- The name of an interface, which a state is tagged with if it has a digit. -/
def ifaceTag (part : List Char) : Bool :=
  !(["all", "in", "out"].any fun w => w.toList = part) && part.any Char.isDigit

/-- The state that a header line begins; its counters come with the lines after it. -/
def headerState (parts : List (List Char)) : Option PfState :=
  if parts.length < 5 then none
  else
    match parts.findIdx? isArrow with
    | none => none
    | some ai =>
      if parts.length ≤ ai + 2 then none
      else
        let lhs := parts.getD 2 []
        let rhs := parts.getD (ai + 1) []
        let (src, dst) := if parts.getD ai [] = "->".toList then (lhs, rhs) else (rhs, lhs)
        some {
          id := 0
          protocol := parts.getD 1 []
          srcAddr := (parseAddrPort src).1
          srcPort := (parseAddrPort src).2
          dstAddr := (parseAddrPort dst).1
          dstPort := (parseAddrPort dst).2
          state := parts.getD (ai + 2) []
          packetsIn := 0
          packetsOut := 0
          bytesIn := 0
          bytesOut := 0
          ageSecs := 0
          iface := parts.head?.filter ifaceTag
          rtable := none }

/-- `trim_start_matches(", ")`. -/
def trimCommas : List Char → List Char
  | ',' :: ' ' :: rest => trimCommas rest
  | s => s

def readPackets (trimmed : List Char) (s : PfState) : PfState :=
  match splitAround " pkts,".toList trimmed with
  | some (before, _) =>
    match splitOnce ':' (trimCommas (trim (afterLast ", ".toList before))) with
    | some (a, b) => { s with packetsIn := parseU64 (trim a), packetsOut := parseU64 (trim b) }
    | none => s
  | none => s

def readBytes (trimmed : List Char) (s : PfState) : PfState :=
  match splitAround " bytes".toList trimmed with
  | some (before, _) =>
    match splitOnce ':' (afterLast ", ".toList before) with
    | some (a, b) => { s with bytesIn := parseU64 (trim a), bytesOut := parseU64 (trim b) }
    | none => s
  | none => s

def readAge (trimmed : List Char) (s : PfState) : PfState :=
  match splitAround "age ".toList trimmed with
  | some (_, after) =>
    match splitOnce ',' after with
    | some (duration, _) =>
      match splitOn ':' duration with
      | [h, m, sec] => { s with ageSecs := parseU64 h * 3600 + parseU64 m * 60 + parseU64 sec }
      | _ => s
    | none => s
  | none => s

def readDetail (line : List Char) (s : PfState) : PfState :=
  let trimmed := trim line
  readAge trimmed (readBytes trimmed (readPackets trimmed s))

/-- The states that are done, and the one whose lines are read. -/
abbrev Reading := List PfState × Option PfState

def isIndented (line : List Char) : Bool := line.head? = some ' ' || line.head? = some '\t'

def readLine (acc : Reading) (line : List Char) : Reading :=
  if line = [] ∨ "No ".toList.isPrefixOf line then acc
  else if isIndented line then (acc.1, acc.2.map (readDetail line))
  else (acc.1 ++ acc.2.toList, headerState (splitWhitespace line))

def Reading.states (acc : Reading) : List PfState := acc.1 ++ acc.2.toList

/-- What `get_states` makes of the output of `pfctl -ss -vv`. -/
def getStates (out : List Char) : List PfState :=
  Reading.states ((Geo.lines out).foldl readLine ([], none))

end AiFw.Pf
