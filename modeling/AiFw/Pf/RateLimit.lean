import AiFw.Pf.Match

namespace AiFw.Pf
open AiFw.Lib AiFw.Net
set_option autoImplicit true

inductive RateLimitStatus where
  | active
  | disabled
deriving DecidableEq, Repr

/-- A rate limit, as its row reads back; the times are kept as their texts. -/
structure RateLimitRule where
  id : BitVec 128
  name : List Char
  interface : Option (List Char)
  protocol : Protocol
  srcAddr : Address
  dstAddr : Address
  dstPort : Option PortRange
  maxConnections : UInt32
  windowSecs : UInt32
  overloadTable : List Char
  flushStates : Bool
  status : RateLimitStatus
  createdAt : List Char
  updatedAt : List Char
deriving DecidableEq, Repr

namespace RateLimitRule

def statePart (rule : RateLimitRule) : List Char :=
  let flush := if rule.flushStates then " flush global".toList else []
  "keep state (max-src-conn ".toList ++ decimal rule.maxConnections.toNat ++
    ", max-src-conn-rate ".toList ++ decimal rule.maxConnections.toNat ++
    '/' :: decimal rule.windowSecs.toNat ++ ", overload <".toList ++ rule.overloadTable ++
    '>' :: flush ++ [')']

def dstPart (rule : RateLimitRule) : List (List Char) :=
  if rule.dstAddr ≠ .any ∨ rule.dstPort.isSome then
    [hostClause "to" false rule.dstAddr rule.dstPort]
  else []

/-- The parts before the label, in order. -/
def parts (rule : RateLimitRule) : List (List Char) :=
  ["pass in quick".toList] ++ onPart rule.interface ++
    (if rule.protocol ≠ .any then ["proto ".toList ++ rule.protocol.display] else []) ++
    (if rule.srcAddr ≠ .any then [hostClause "from" false rule.srcAddr none] else []) ++
    rule.dstPart ++ [rule.statePart]

def toPfRule (rule : RateLimitRule) : List Char :=
  List.intercalate [' ']
    (rule.parts ++ ["label \"ratelimit-".toList ++ rule.name ++ ['"']])

def toPfTable (rule : RateLimitRule) : List Char :=
  "table <".toList ++ rule.overloadTable ++ "> persist".toList

def toPfBlockRule (rule : RateLimitRule) : List Char :=
  "block in quick from <".toList ++ rule.overloadTable ++ "> label \"overload-".toList ++
    rule.name ++ ['"']

def pfLines (rule : RateLimitRule) : List (List Char) :=
  [rule.toPfTable, rule.toPfBlockRule, rule.toPfRule]

/-- The lines `apply_rate_limits` loads for the listed rules. -/
def applyRateLimits (rules : List RateLimitRule) : List (List Char) :=
  (rules.filter fun r => r.status = .active).flatMap pfLines

end RateLimitRule

/-- A filter rule as pf evaluates it. -/
structure PfRule where
  block : Bool
  quick : Bool
  pattern : FilterMatch
deriving DecidableEq, Repr

inductive Statement where
  | table (name : List Char)
  | rule (r : PfRule)
deriving DecidableEq, Repr

def tableLine : List Token → Option (List Char)
  | [.word k, .sym '<', .word name, .sym '>', .word p] =>
    if k = "table".toList ∧ p = "persist".toList then some name else none
  | _ => none

def ruleLine (ts : List Token) : Option PfRule := do
  let raw ← filterRule ts
  let pattern ← raw.resolve
  return ⟨raw.head.action.1 = "block".toList, raw.head.quick, pattern⟩

/-- What pf reads in a line of the anchor. -/
def readStatement (line : List Char) : Option Statement := do
  let ts ← lex line
  match tableLine ts with
  | some name => return .table name
  | none => return .rule (← ruleLine ts)

/-- The last rule that matches decides, or the first one that is quick. -/
def evaluate (tables : Tables) (pkt : Packet) : Option PfRule → List Statement → Option PfRule
  | last, [] => last
  | last, .table _ :: rest => evaluate tables pkt last rest
  | last, .rule r :: rest =>
    if r.pattern.accepts tables pkt then
      if r.quick then some r else evaluate tables pkt (some r) rest
    else evaluate tables pkt last rest

namespace RateLimitRule

def fromTable (name : List Char) : FilterMatch where
  direction := .in
  interface := none
  family := .both
  protocols := []
  src := ⟨false, .table name, none⟩
  dst := .any

def blockRule (rule : RateLimitRule) : PfRule := ⟨true, true, fromTable rule.overloadTable⟩

def pattern (rule : RateLimitRule) : FilterMatch where
  direction := .in
  interface := rule.interface
  family := .both
  protocols := rule.protocol.numbers
  src := ⟨false, rule.srcAddr, none⟩
  dst := ⟨false, rule.dstAddr, rule.dstPort⟩

def passRule (rule : RateLimitRule) : PfRule := ⟨false, true, rule.pattern⟩

def statements (rule : RateLimitRule) : List Statement :=
  [.table rule.overloadTable, .rule rule.blockRule, .rule rule.passRule]

end RateLimitRule

namespace RateLimitRule

/-- The names of the rule are such that pf reads each as one. -/
structure Named (rule : RateLimitRule) : Prop where
  interface : ∀ iface ∈ rule.interface, IsWord iface
  srcRange : rule.srcAddr.InRange
  dstRange : rule.dstAddr.InRange
  srcTable : ∀ name, rule.srcAddr = .table name → IsWord name
  dstTable : ∀ name, rule.dstAddr = .table name → IsWord name
  overload : IsWord rule.overloadTable
  name : ∀ c ∈ rule.name, c ≠ '"' ∧ c ≠ '\\'

def head (rule : RateLimitRule) : RawHead where
  action := ("pass".toList, none)
  direction := some "in".toList
  log := false
  quick := true
  interface := rule.interface
  route := none

def rawMatch (rule : RateLimitRule) : RawMatch where
  family := none
  protos := rule.protocol.names
  src := if rule.srcAddr ≠ .any then some (rawHost false rule.srcAddr none) else none
  dst :=
    if rule.dstAddr ≠ .any ∨ rule.dstPort.isSome then
      some (rawHost false rule.dstAddr rule.dstPort)
    else none

def stateItems (rule : RateLimitRule) : List Token :=
  [kw "max-src-conn", .word (decimal rule.maxConnections.toNat), .sym ',',
    kw "max-src-conn-rate", .word (decimal rule.maxConnections.toNat), .sym '/',
    .word (decimal rule.windowSecs.toNat), .sym ',', kw "overload", .sym '<',
    .word rule.overloadTable, .sym '>'] ++
    if rule.flushStates then [kw "flush", kw "global"] else []

def options (rule : RateLimitRule) : RawOptions where
  rtable := none
  state := some ("keep".toList, rule.stateItems)
  label := some ("ratelimit-".toList ++ rule.name)

theorem head_wellFormed (rule : RateLimitRule) : rule.head.WellFormed := by
  refine ⟨?_, ?_, ?_, ?_⟩
  · exact List.mem_map_of_mem List.mem_cons_self
  · intro p h
    cases h
  · intro w h
    cases h
    exact List.mem_map_of_mem List.mem_cons_self
  · intro r h
    cases h

theorem stateItems_closed (rule : RateLimitRule) : .sym ')' ∉ rule.stateItems := by
  intro h
  rcases List.mem_append.mp h with h | h
  · simp only [List.mem_cons, reduceCtorEq, Token.sym.injEq, Char.reduceEq, List.not_mem_nil,
      or_self] at h
  · split at h
    · simp only [List.mem_cons, reduceCtorEq, List.not_mem_nil, or_self] at h
    · cases h

theorem options_wellFormed (rule : RateLimitRule) : rule.options.WellFormed := by
  refine ⟨?_, ?_⟩
  · intro s h
    cases h
    exact List.mem_map_of_mem List.mem_cons_self
  · intro s h
    cases h
    exact rule.stateItems_closed

variable {rule : RateLimitRule}

theorem statePart_renders (ht : IsWord rule.overloadTable) :
    Renders rule.statePart (stateToks ("keep".toList, rule.stateItems)) := by
  have hflush : Renders ('>' :: ((if rule.flushStates then " flush global".toList else []) ++ [')']))
      (.sym '>' :: ((if rule.flushStates then [kw "flush", kw "global"] else []) ++ [.sym ')'])) := by
    have hclose : Renders [')'] [.sym ')'] := .sym (by decide)
    cases rule.flushStates with
    | false => exact .sym_append (by decide) hclose
    | true =>
      have hglobal := (renders_kw "global" (by decide)).glue hclose (by decide)
      exact (Renders.sym (c := '>') (by decide)).space ((renders_kw "flush" (by decide)).space hglobal)
  have hoverload := (renders_kw "overload" (by decide)).space
    (.sym_append (c := '<') (by decide) (ht.renders.glue hflush (by decide)))
  have hcomma := (Renders.sym (c := ',') (by decide)).space hoverload
  have hwindow := (isWord_toDigits rule.windowSecs.toNat).renders.glue hcomma (by decide)
  have hrate := (renders_kw "max-src-conn-rate" (by decide)).space
    ((isWord_toDigits rule.maxConnections.toNat).renders.glue
      (.sym_append (c := '/') (by decide) hwindow) (by decide))
  have hconn := (renders_kw "max-src-conn" (by decide)).space
    ((isWord_toDigits rule.maxConnections.toNat).renders.glue
      ((Renders.sym (c := ',') (by decide)).space hrate) (by decide))
  have hlist := (renders_kw "keep" (by decide)).space ((renders_kw "state" (by decide)).space
    (.sym_append (c := '(') (by decide) hconn))
  have hopen : "keep state (max-src-conn ".toList =
      "keep".toList ++ ' ' :: ("state".toList ++ ' ' :: '(' :: ("max-src-conn".toList ++ [' '])) :=
    rfl
  have hnext : ", max-src-conn-rate ".toList = ',' :: ' ' :: ("max-src-conn-rate".toList ++ [' ']) :=
    rfl
  have hlast : ", overload <".toList = ',' :: ' ' :: ("overload".toList ++ [' ', '<']) := rfl
  simp only [List.cons_append, List.nil_append] at hlist
  unfold statePart
  simp only [decimal, stateToks, stateItems, hopen, hnext, hlast, List.append_assoc,
    List.cons_append, List.nil_append]
  exact hlist

theorem parts_renders (hn : rule.Named) :
    PartsRender rule.parts (headToks rule.head ++ (matchToks rule.rawMatch ++
      stateToks ("keep".toList, rule.stateItems))) := by
  have hhead : PartsRender ["pass in quick".toList] [kw "pass", kw "in", kw "quick"] :=
    .single ((renders_kw "pass" (by decide)).space
      ((renders_kw "in" (by decide)).space (renders_kw "quick" (by decide))))
  have hon : PartsRender (onPart rule.interface)
      (clauseToks "on" (fun w => [.word w]) rule.interface) := by
    cases hi : rule.interface with
    | none => exact .nil
    | some iface =>
      exact .single ((renders_kw "on" (by decide)).space (hn.interface iface hi).renders)
  have hproto : PartsRender
      (if rule.protocol ≠ .any then ["proto ".toList ++ rule.protocol.display] else [])
      (clauseToks "proto" protocolToks rule.protocol.names) := by
    split
    · rename_i h
      exact .single (rule.protocol.renders h)
    · rename_i h
      rw [not_not.mp h]
      exact .nil
  have hsrc : PartsRender
      (if rule.srcAddr ≠ .any then [hostClause "from" false rule.srcAddr none] else [])
      (clauseToks "from" hostToks rule.rawMatch.src) := by
    simp only [rawMatch]
    split
    · exact .single (hostClause_renders "from" (by decide) _ hn.srcTable _)
    · exact .nil
  have hdst : PartsRender rule.dstPart (clauseToks "to" hostToks rule.rawMatch.dst) := by
    simp only [dstPart, rawMatch]
    split
    · exact .single (hostClause_renders "to" (by decide) _ hn.dstTable _)
    · exact .nil
  have hstate := PartsRender.single (statePart_renders hn.overload)
  have hall := ((((hhead.append hon).append hproto).append hsrc).append hdst).append hstate
  have htoks : headToks rule.head ++ (matchToks rule.rawMatch ++
      stateToks ("keep".toList, rule.stateItems)) =
        [kw "pass", kw "in", kw "quick"] ++ clauseToks "on" (fun w => [.word w]) rule.interface ++
        clauseToks "proto" protocolToks rule.protocol.names ++
        clauseToks "from" hostToks rule.rawMatch.src ++
        clauseToks "to" hostToks rule.rawMatch.dst ++
        stateToks ("keep".toList, rule.stateItems) := by
    simp only [headToks, matchToks, head, rawMatch, actionToks, pickToks, flagToks, clauseToks,
      List.append_assoc, List.nil_append, List.append_nil, Bool.false_eq_true, if_false, if_true,
      List.cons_append]
  rw [htoks]
  exact hall

theorem label_chars (hn : rule.Named) (kind : List Char) (hk : ∀ c ∈ kind, c ≠ '"' ∧ c ≠ '\\') :
    ∀ l ∈ some (kind ++ rule.name), ∀ c ∈ l, c ≠ '"' ∧ c ≠ '\\' := by
  intro l hl c hc
  cases hl
  rcases List.mem_append.mp hc with hc | hc
  · exact hk c hc
  · exact hn.name c hc

theorem parts_ne_nil (rule : RateLimitRule) : rule.parts ≠ [] := by
  intro h
  have hlen := congrArg List.length h
  simp only [parts, List.length_append, List.length_singleton, List.length_nil] at hlen
  omega

theorem lex_toPfRule (hn : rule.Named) :
    lex rule.toPfRule = some (headToks rule.head ++ (matchToks rule.rawMatch ++
      optionsToks rule.options)) := by
  have hlabel := label_chars hn "ratelimit-".toList (by simp)
  have hline := label_lexes hlabel (parts_renders hn).join.lexes
  have htext : rule.toPfRule = withLabel (List.intercalate [' '] rule.parts)
      (some ("ratelimit-".toList ++ rule.name)) := by
    rw [toPfRule, intercalate_concat rule.parts_ne_nil, withLabel]
    rfl
  rw [htext, hline.lex_eq]
  simp only [optionsToks, options, optStateToks, labelToks, clauseToks, List.append_assoc,
    List.nil_append]

theorem resolve_pass (hn : rule.Named) :
    RawFilter.resolve ⟨rule.head, rule.rawMatch, rule.options⟩ = some rule.pattern := by
  have hsrc : resolveHost rule.rawMatch.src = some rule.pattern.src := by
    simp only [rawMatch, pattern, ne_eq]
    by_cases h : rule.srcAddr = .any
    · simp only [h, not_true_eq_false, if_false, resolveHost, HostMatch.any]
    · simp only [h, not_false_eq_true, if_true, resolveHost_raw _ hn.srcRange]
  have hdst : resolveHost rule.rawMatch.dst = some rule.pattern.dst := by
    simp only [rawMatch, pattern]
    split
    · exact resolveHost_raw _ hn.dstRange _
    · rename_i h
      rw [not_or, not_not, Option.not_isSome_iff_eq_none] at h
      rw [h.1, h.2]
      rfl
  have hproto : resolveProtocols rule.rawMatch.protos = some rule.protocol.numbers :=
    rule.protocol.resolve_names
  have hdir : resolveDirection (some "in".toList) = some .in := by decide
  simp only [RawFilter.resolve, head, hdir, hproto, hsrc, hdst, Option.bind_eq_bind,
    Option.bind_some, Option.pure_def]
  rfl

theorem ruleLine_pass (hn : rule.Named) :
    ruleLine (headToks rule.head ++ (matchToks rule.rawMatch ++ optionsToks rule.options)) =
      some rule.passRule := by
  have ho := rule.options_wellFormed
  have hstart : Starts ["keep", "modulate", "synproxy", "label"] (optionsToks rule.options) :=
    (Starts.optState ho.kind).append Starts.clause
  have hfamily : ∀ w ∈ rule.rawMatch.family, w ∈ ["inet", "inet6"].map String.toList := by
    intro w h
    cases h
  have hparse := filterRule_toks rule.head_wellFormed hfamily hstart (by decide) (by decide)
    (fun h => absurd h (by decide)) (.inr (by decide))
  rw [filterOptions_toks ho, Option.map_some] at hparse
  rw [ruleLine, hparse]
  simp only [Option.bind_eq_bind, Option.bind_some, resolve_pass hn, Option.pure_def]
  rfl

def blockHead : RawHead where
  action := ("block".toList, none)
  direction := some "in".toList
  log := false
  quick := true
  interface := none
  route := none

def blockMatch (rule : RateLimitRule) : RawMatch where
  family := none
  protos := none
  src := some (rawHost false (.table rule.overloadTable) none)
  dst := none

def blockOptions (rule : RateLimitRule) : RawOptions where
  rtable := none
  state := none
  label := some ("overload-".toList ++ rule.name)

theorem blockHead_wellFormed : blockHead.WellFormed := by
  refine ⟨?_, ?_, ?_, ?_⟩
  · exact List.mem_map_of_mem (List.mem_cons_of_mem _ List.mem_cons_self)
  · intro p h
    cases h
  · intro w h
    cases h
    exact List.mem_map_of_mem List.mem_cons_self
  · intro r h
    cases h

theorem blockOptions_wellFormed (rule : RateLimitRule) : rule.blockOptions.WellFormed := by
  refine ⟨?_, ?_⟩ <;>
    · intro s h
      cases h

theorem tableName_renders (ht : IsWord rule.overloadTable) :
    Renders ('<' :: rule.overloadTable ++ ['>']) (addrToks (.table rule.overloadTable)) :=
  .sym_append (c := '<') (by decide) (ht.renders.glue (.sym (c := '>') (by decide)) (by decide))

theorem lex_toPfBlockRule (hn : rule.Named) :
    lex rule.toPfBlockRule = some (headToks blockHead ++ (matchToks rule.blockMatch ++
      optionsToks rule.blockOptions)) := by
  have hfrom := (renders_kw "from" (by decide)).space (tableName_renders hn.overload)
  have hhead := (renders_kw "block" (by decide)).space ((renders_kw "in" (by decide)).space
    ((renders_kw "quick" (by decide)).space hfrom))
  have hline := label_lexes (label_chars hn "overload-".toList (by simp)) hhead.lexes
  rw [withLabel_some] at hline
  have hopen : "block in quick from <".toList =
      "block".toList ++ ' ' :: ("in".toList ++ ' ' :: ("quick".toList ++ ' ' ::
        ("from".toList ++ [' ', '<']))) := rfl
  have hmid : "> label \"overload-".toList = '>' :: (" label \"".toList ++ "overload-".toList) := rfl
  have htext : rule.toPfBlockRule = "block".toList ++ ' ' :: ("in".toList ++ ' ' ::
      ("quick".toList ++ ' ' :: ("from".toList ++ ' ' :: ('<' :: rule.overloadTable ++ ['>'])))) ++
        " label \"".toList ++ ("overload-".toList ++ rule.name) ++ ['"'] := by
    unfold toPfBlockRule
    rw [hopen, hmid]
    simp only [List.append_assoc, List.cons_append, List.nil_append]
  rw [htext, hline.lex_eq]
  rfl

theorem lex_toPfTable (ht : IsWord rule.overloadTable) :
    lex rule.toPfTable = some [kw "table", .sym '<', .word rule.overloadTable, .sym '>',
      kw "persist"] := by
  have hline := (renders_kw "table" (by decide)).space
    ((tableName_renders ht).space (renders_kw "persist" (by decide)))
  have hopen : "table <".toList = "table".toList ++ [' ', '<'] := rfl
  have hclose : "> persist".toList = '>' :: ' ' :: "persist".toList := rfl
  have htext : rule.toPfTable = "table".toList ++ ' ' :: (('<' :: rule.overloadTable ++ ['>']) ++
      ' ' :: "persist".toList) := by
    unfold toPfTable
    rw [hopen, hclose]
    simp only [List.append_assoc, List.cons_append, List.nil_append]
  rw [htext, hline.lexes.lex_eq]
  rfl

theorem ruleLine_block (rule : RateLimitRule) :
    ruleLine (headToks blockHead ++ (matchToks rule.blockMatch ++ optionsToks rule.blockOptions)) =
      some rule.blockRule := by
  have ho := rule.blockOptions_wellFormed
  have hstart : Starts ["label"] (optionsToks rule.blockOptions) :=
    Starts.clause (f := fun w => [Token.str w]) (o := rule.blockOptions.label)
  have hfamily : ∀ w ∈ rule.blockMatch.family, w ∈ ["inet", "inet6"].map String.toList := by
    intro w h
    cases h
  have hparse := filterRule_toks blockHead_wellFormed hfamily hstart (by decide) (by decide)
    (fun h => absurd h (by decide)) (.inr (by decide))
  rw [filterOptions_toks ho, Option.map_some] at hparse
  rw [ruleLine, hparse]
  rfl

/-- The three lines of a rule are read as the statements they stand for. -/
theorem read_pfLines (hn : rule.Named) :
    rule.pfLines.mapM readStatement = some rule.statements := by
  have htable : readStatement rule.toPfTable = some (.table rule.overloadTable) := by
    rw [readStatement, lex_toPfTable hn.overload]
    rfl
  have hblock : readStatement rule.toPfBlockRule = some (.rule rule.blockRule) := by
    have hno : tableLine (headToks blockHead ++ (matchToks rule.blockMatch ++
        optionsToks rule.blockOptions)) = none := rfl
    rw [readStatement, lex_toPfBlockRule hn]
    simp only [Option.bind_eq_bind, Option.bind_some, hno, ruleLine_block, Option.pure_def]
  have hpass : readStatement rule.toPfRule = some (.rule rule.passRule) := by
    have hno : tableLine (headToks rule.head ++ (matchToks rule.rawMatch ++
        optionsToks rule.options)) = none := rfl
    rw [readStatement, lex_toPfRule hn]
    simp only [Option.bind_eq_bind, Option.bind_some, hno, ruleLine_pass hn, Option.pure_def]
  simp only [pfLines, List.mapM_cons, List.mapM_nil, htable, hblock, hpass, Option.bind_eq_bind,
    Option.bind_some, Option.pure_def]
  rfl

end RateLimitRule

end AiFw.Pf
