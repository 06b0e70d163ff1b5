import AiFw.Ids.FlowTable
import AiFw.Lib.Buckets
import AiFw.Lib.ByteSearch
import AiFw.Lib.KeyedMap

namespace AiFw.Ids
open AiFw.Lib

set_option autoImplicit true

abbrev IdsSeverity := UInt8

inductive IdsAction where
  | alert
  | drop
  | reject
  | pass
deriving DecidableEq, Repr

inductive RuleSource where
  | etOpen
  | sigma
  | yara
  | custom
deriving DecidableEq, Repr

/-- A content pattern with its position constraints. Offsets and lengths are machine words. -/
structure ContentMatch where
  pattern : Bytes
  nocase : Bool
  depth : Option UInt64
  offset : Option UInt64
  distance : Option Int32
  within : Option UInt64
  fastPattern : Bool
  negated : Bool
  buffer : Option String
deriving DecidableEq, Repr

structure PcrePattern where
  pattern : String
  negated : Bool
  buffer : Option String
deriving DecidableEq, Repr

/-- `toServer` is `some true` for to_server, `some false` for to_client. -/
structure FlowConstraint where
  established : Bool
  toServer : Option Bool
  stateless : Bool
deriving DecidableEq, Repr

inductive ThresholdType where
  | limit
  | threshold
  | both
deriving DecidableEq, Repr

inductive TrackBy where
  | bySrc
  | byDst
deriving DecidableEq, Repr

structure ThresholdConfig where
  thresholdType : ThresholdType
  track : TrackBy
  count : UInt32
  seconds : UInt32
deriving DecidableEq, Repr

inductive FlowbitOp where
  | set (name : String)
  | isSet (name : String)
  | unset (name : String)
  | toggle (name : String)
  | noAlert
deriving DecidableEq, Repr

structure CompiledRule where
  sid : Option UInt32
  msg : String
  severity : IdsSeverity
  source : RuleSource
  action : IdsAction
  protocol : Option String
  srcAddr : Option String
  srcPort : Option String
  dstAddr : Option String
  dstPort : Option String
  contents : List ContentMatch
  pcrePatterns : List PcrePattern
  flow : Option FlowConstraint
  threshold : Option ThresholdConfig
  flowbits : List FlowbitOp
  metadata : KeyedMap String String
  noPrefilter : Bool

def ContentMatch.text (pattern : Bytes) : ContentMatch where
  pattern := pattern
  nocase := false
  depth := none
  offset := none
  distance := none
  within := none
  fastPattern := false
  negated := false
  buffer := none

/-- A rule without constraints, as the database tests make them. -/
def makeRule (sid : UInt32) (contents : List ContentMatch) (msg : String) : CompiledRule where
  sid := some sid
  msg := msg
  severity := 3
  source := .custom
  action := .alert
  protocol := none
  srcAddr := none
  srcPort := none
  dstAddr := none
  dstPort := none
  contents := contents
  pcrePatterns := []
  flow := none
  threshold := none
  flowbits := []
  metadata := ∅
  noPrefilter := false

structure AhoCorasick where
  findOverlappingIter : Bytes → List Nat

structure Regex where
  asStr : String
  isMatch : List Char → Bool

/-- The two matching crates, as the engine calls them. The automaton builder is the one in ASCII
case-insensitive mode. -/
structure Matchers where
  buildAhoCorasick : List Bytes → Option AhoCorasick
  regexNew : String → Option Regex

/-- What the crates document: the automaton reports exactly the patterns that occur up to ASCII
case, and an expression keeps its text. -/
structure Matchers.Lawful (m : Matchers) : Prop where
  reports : ∀ {patterns ac}, m.buildAhoCorasick patterns = some ac → ∀ data i,
    i ∈ ac.findOverlappingIter data ↔ ∃ p, patterns[i]? = some p ∧ OccursNocase p data
  asStr_new : ∀ {pattern re}, m.regexNew pattern = some re → re.asStr = pattern

structure CompiledRuleset where
  rules : List CompiledRule
  contentMatcher : Option AhoCorasick
  contentToRules : List (List Nat)
  contentPatterns : List Bytes
  regexPatterns : List (Regex × List Nat)
  noContentRules : List Nat

/-- The rank of a content as prefilter pattern: `usize::MAX` for a fast pattern. -/
def ContentMatch.prefilterKey (c : ContentMatch) : Nat :=
  if c.fastPattern then 2 ^ 64 - 1 else c.pattern.length

def ContentMatch.prefilterPattern (c : ContentMatch) : Bytes :=
  if c.nocase then toAsciiLowercase c.pattern else c.pattern

def CompiledRule.best (rule : CompiledRule) : Option ContentMatch :=
  maxByKey ContentMatch.prefilterKey (rule.contents.filter fun c => !c.negated)

structure BuildState where
  contents : Buckets Bytes Nat
  regexPatterns : List (Regex × List Nat)
  noContentRules : List Nat

def pushRegex (regexes : List (Regex × List Nat)) (pattern : String) (re : Regex) (ruleIdx : Nat) :
    List (Regex × List Nat) :=
  match regexes.findIdx? fun r => r.1.asStr == pattern with
  | some i => regexes.modify i fun r => (r.1, r.2 ++ [ruleIdx])
  | none => regexes ++ [(re, [ruleIdx])]

def compilePcre (m : Matchers) (ruleIdx : Nat) (acc : List (Regex × List Nat) × Bool)
    (pcre : PcrePattern) : List (Regex × List Nat) × Bool :=
  match m.regexNew pcre.pattern with
  | some re => (pushRegex acc.1 pcre.pattern re ruleIdx, true)
  | none => acc

def buildStep (m : Matchers) (st : BuildState) (entry : CompiledRule × Nat) : BuildState :=
  let (rule, ruleIdx) := entry
  if rule.noPrefilter then { st with noContentRules := st.noContentRules ++ [ruleIdx] }
  else
    let contents := match rule.best with
      | some content => st.contents.file content.prefilterPattern ruleIdx
      | none => st.contents
    let (regexes, hasContent) :=
      rule.pcrePatterns.foldl (compilePcre m ruleIdx) (st.regexPatterns, rule.best.isSome)
    { contents := contents
      regexPatterns := regexes
      noContentRules :=
        if hasContent then st.noContentRules else st.noContentRules ++ [ruleIdx] }

def buildState (m : Matchers) (rules : List CompiledRule) : BuildState :=
  rules.zipIdx.foldl (buildStep m) ⟨.empty, [], []⟩

namespace CompiledRuleset

def build (m : Matchers) (rules : List CompiledRule) : CompiledRuleset :=
  let st := buildState m rules
  { rules := rules
    contentMatcher :=
      if st.contents.keys = [] then none else m.buildAhoCorasick st.contents.keys
    contentToRules := st.contents.values
    contentPatterns := st.contents.keys
    regexPatterns := st.regexPatterns
    noContentRules := st.noContentRules }

/-- The rules of the matched patterns, then the rules that are always scanned, each once. -/
def prefilter (rs : CompiledRuleset) (payload : Bytes) : List Nat :=
  let matched := match rs.contentMatcher with
    | some ac => (ac.findOverlappingIter payload).foldl
        (fun candidates patternIdx =>
          match rs.contentToRules[patternIdx]? with
          | some ruleIdxs => ruleIdxs.foldl pushNew candidates
          | none => candidates) []
    | none => []
  rs.noContentRules.foldl pushNew matched

end CompiledRuleset

structure RuleDatabase where
  ruleset : Option CompiledRuleset
  rawRules : Option (List CompiledRule)

namespace RuleDatabase

def new : RuleDatabase := ⟨none, none⟩

def loadRules (m : Matchers) (_ : RuleDatabase) (rules : List CompiledRule) : RuleDatabase where
  ruleset := some (.build m rules)
  rawRules := some rules

def addRules (m : Matchers) (db : RuleDatabase) (newRules : List CompiledRule) : RuleDatabase :=
  db.loadRules m (db.rawRules.getD [] ++ newRules)

def ruleCount (db : RuleDatabase) : Nat := (db.rawRules.map List.length).getD 0

def clear (_ : RuleDatabase) : RuleDatabase := ⟨none, none⟩

end RuleDatabase

end AiFw.Ids
