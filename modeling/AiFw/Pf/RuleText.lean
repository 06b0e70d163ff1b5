import AiFw.Pf.Rule

namespace AiFw.Pf
open AiFw.Lib AiFw.Net
set_option autoImplicit true

def Action.raw : Action → List Char × Option (List Char)
  | .pass => ("pass".toList, none)
  | .block => ("block".toList, none)
  | .blockDrop => ("block".toList, some "drop".toList)
  | .blockReturn => ("block".toList, some "return".toList)

def Direction.raw : Direction → Option (List Char)
  | .in => some "in".toList
  | .out => some "out".toList
  | .any => none

def IpVersion.raw : IpVersion → Option (List Char)
  | .inet => some "inet".toList
  | .inet6 => some "inet6".toList
  | .both => none

def Protocol.names : Protocol → Option (List (List Char))
  | .any => none
  | .tcpUdp => some ["tcp".toList, "udp".toList]
  | p => some [p.display]

def rawHost (invert : Bool) (addr : Address) (port : Option PortRange) : RawHost :=
  ⟨invert, addr.raw, port.map PortRange.display⟩

def Rule.rawHead (rule : Rule) (routeTo : Option (List Char × List Char)) : RawHead where
  action := rule.action.raw
  direction := rule.direction.raw
  log := rule.log || rule.action = .block
  quick := rule.quick
  interface := rule.interface
  route :=
    if rule.action = .pass then routeTo.map fun (gwIface, nextHop) =>
      .hop [.word gwIface, .word nextHop]
    else none

/-- The match clauses that are written: nothing for a source of any address, and at most the port
for such a destination. -/
def Rule.rawMatch (rule : Rule) : RawMatch where
  family := rule.ipVersion.raw
  protos := rule.protocol.names
  src :=
    if rule.ruleMatch.srcAddr ≠ .any then
      some (rawHost rule.srcInvert rule.ruleMatch.srcAddr rule.ruleMatch.srcPort)
    else none
  dst :=
    if rule.ruleMatch.dstAddr ≠ .any then
      some (rawHost rule.dstInvert rule.ruleMatch.dstAddr rule.ruleMatch.dstPort)
    else rule.ruleMatch.dstPort.map fun port => rawHost false .any (some port)

def StateTracking.kind : StateTracking → List Char
  | .none => []
  | .keepState => "keep".toList
  | .modulateState => "modulate".toList
  | .synproxyState => "synproxy".toList

def policyToks : Option StatePolicy → List Token
  | some policy => [.sym '(', .word policy.display, .sym ')']
  | none => []

def adaptiveItems (adaptive : AdaptiveTimeouts) : List Token :=
  [kw "adaptive.start", .word (decimal adaptive.start.toNat), .sym ',', kw "adaptive.end",
    .word (decimal adaptive.end_.toNat)]

def adaptiveToks : Option AdaptiveTimeouts → List Token
  | some adaptive => .sym '(' :: adaptiveItems adaptive ++ [.sym ')']
  | none => []

def Rule.stateToks (rule : Rule) : List Token :=
  if rule.stateOptions.tracking ≠ .none ∧ rule.action = .pass then
    .word rule.stateOptions.tracking.kind :: kw "state" ::
      (policyToks rule.stateOptions.policy ++ adaptiveToks rule.stateOptions.adaptiveTimeouts)
  else []

def labelToks (label : Option (List Char)) : List Token :=
  clauseToks "label" (fun w => [.str w]) label

/-- The clauses of the line, each text of the rule a token of its own. -/
def Rule.tokens (rule : Rule) (routeTo : Option (List Char × List Char)) : List Token :=
  headToks (rule.rawHead routeTo) ++ (matchToks rule.rawMatch ++
    (rule.stateToks ++ labelToks rule.label))

theorem renders_kw (k : String) (h : k.toList ≠ [] ∧ k.toList.all isWordChar) :
    Renders k.toList [kw k] := (isWord_keyword h).renders

theorem Action.renders (a : Action) : Renders a.display (actionToks a.raw) := by
  cases a with
  | pass => exact renders_kw "pass" (by decide)
  | block => exact renders_kw "block" (by decide)
  | blockDrop => exact (renders_kw "block" (by decide)).space (renders_kw "drop" (by decide))
  | blockReturn => exact (renders_kw "block" (by decide)).space (renders_kw "return" (by decide))

theorem Direction.renders (d : Direction) :
    PartsRender (if d.display = [] then [] else [d.display]) (pickToks d.raw) := by
  cases d with
  | «in» => exact .single (renders_kw "in" (by decide))
  | out => exact .single (renders_kw "out" (by decide))
  | any => exact .nil

theorem flag_renders (k : String) (h : k.toList ≠ [] ∧ k.toList.all isWordChar) (p : Prop)
    [Decidable p] : PartsRender (if p then [k.toList] else []) (flagToks k (decide p)) := by
  by_cases hp : p
  · simp only [hp, if_true, decide_true]
    exact .single (renders_kw k h)
  · simp only [hp, if_false, decide_false]
    exact .nil

theorem IpVersion.renders (v : IpVersion) :
    PartsRender v.part (pickToks v.raw) := by
  cases v with
  | inet => exact .single (renders_kw "inet" (by decide))
  | inet6 => exact .single (renders_kw "inet6" (by decide))
  | both => exact .nil

theorem Protocol.renders (p : Protocol) (h : p ≠ .any) :
    Renders ("proto ".toList ++ p.display) (clauseToks "proto" protocolToks p.names) := by
  have hproto := renders_kw "proto" (by decide)
  cases p with
  | tcp => exact hproto.space (renders_kw "tcp" (by decide))
  | udp => exact hproto.space (renders_kw "udp" (by decide))
  | icmp => exact hproto.space (renders_kw "icmp" (by decide))
  | icmp6 => exact hproto.space (renders_kw "icmp6" (by decide))
  | esp => exact hproto.space (renders_kw "esp" (by decide))
  | ah => exact hproto.space (renders_kw "ah" (by decide))
  | gre => exact hproto.space (renders_kw "gre" (by decide))
  | any => exact absurd rfl h
  | tcpUdp =>
    have hnames := (renders_kw "tcp" (by decide)).space (renders_kw "udp" (by decide))
    exact hproto.space ((Renders.sym (by decide)).space (hnames.space (.sym (by decide))))

theorem hostClause_renders (k : String) (hk : k.toList ≠ [] ∧ k.toList.all isWordChar)
    (invert : Bool) (ht : ∀ name, addr = .table name → IsWord name) (port : Option PortRange) :
    Renders (hostClause k invert addr port) (kw k :: hostToks (rawHost invert addr port)) := by
  have haddr : Renders ((if invert then "! ".toList else []) ++ addr.display)
      ((if invert then [.sym '!'] else []) ++ addrToks addr.raw) := by
    cases invert with
    | false => exact Address.renders ht
    | true => exact (Renders.sym (by decide)).space (Address.renders ht)
  have hside := (renders_kw k hk).space haddr
  cases port with
  | none =>
    simp only [hostClause, rawHost, hostToks, Option.map_none, clauseToks, List.append_nil]
    exact hside
  | some p =>
    have hport := hside.space ((renders_kw "port" (by decide)).space (isWord_port p).renders)
    simp only [hostClause, rawHost, hostToks, Option.map_some, clauseToks]
    have htext : k.toList ++ ' ' :: ((if invert then "! ".toList else []) ++ addr.display) ++
        " port ".toList ++ p.display = k.toList ++ ' ' :: ((if invert then "! ".toList else []) ++
        addr.display) ++ ' ' :: ("port".toList ++ ' ' :: p.display) := by
      rw [List.append_assoc _ " port ".toList]
      rfl
    rw [htext]
    exact hport

theorem policy_renders (h : Renders p ts) (policy : Option StatePolicy) :
    Renders (p ++ match policy with
      | some policy => " (".toList ++ policy.display ++ [')']
      | none => []) (ts ++ policyToks policy) := by
  cases policy with
  | none =>
    rw [List.append_nil, policyToks, List.append_nil]
    exact h
  | some policy =>
    have hword : IsWord policy.display := by
      cases policy <;> exact isWord_keyword (by decide)
    have hlist := h.space (.sym_append (c := '(') (by decide)
      (hword.renders.glue (.sym (c := ')') (by decide)) (by decide)))
    exact hlist

theorem adaptive_renders (h : Renders p ts) (adaptive : Option AdaptiveTimeouts) :
    Renders (p ++ match adaptive with
      | some adaptive => " (adaptive.start ".toList ++ decimal adaptive.start.toNat ++
          ", adaptive.end ".toList ++ decimal adaptive.end_.toNat ++ [')']
      | none => []) (ts ++ adaptiveToks adaptive) := by
  cases adaptive with
  | none =>
    rw [List.append_nil, adaptiveToks, List.append_nil]
    exact h
  | some adaptive =>
    have hend := (renders_kw "adaptive.end" (by decide)).space
      ((isWord_toDigits adaptive.end_.toNat).renders.glue (.sym (c := ')') (by decide)) (by decide))
    have hcomma := (Renders.sym (c := ',') (by decide)).space hend
    have hstart := (renders_kw "adaptive.start" (by decide)).space
      ((isWord_toDigits adaptive.start.toNat).renders.glue hcomma (by decide))
    have hlist := h.space (.sym_append (c := '(') (by decide) hstart)
    simp only [decimal, List.append_assoc]
    exact hlist

theorem Rule.state_renders (rule : Rule) :
    PartsRender (if rule.stateOptions.tracking.display ≠ [] ∧ rule.action = .pass then
      [rule.statePart] else []) rule.stateToks := by
  have hempty : rule.stateOptions.tracking.display ≠ [] ↔ rule.stateOptions.tracking ≠ .none := by
    cases rule.stateOptions.tracking <;> decide
  unfold Rule.stateToks
  simp only [hempty]
  split
  · rename_i h
    have hkind : Renders rule.stateOptions.tracking.display
        [.word rule.stateOptions.tracking.kind, kw "state"] := by
      have hstate := renders_kw "state" (by decide)
      cases ht : rule.stateOptions.tracking with
      | none => exact absurd ht h.1
      | keepState => exact (renders_kw "keep" (by decide)).space hstate
      | modulateState => exact (renders_kw "modulate" (by decide)).space hstate
      | synproxyState => exact (renders_kw "synproxy" (by decide)).space hstate
    apply PartsRender.single
    have hall := adaptive_renders (policy_renders hkind rule.stateOptions.policy)
      rule.stateOptions.adaptiveTimeouts
    exact hall
  · exact .nil

theorem Rule.route_renders (rule : Rule) (hr : ∀ p ∈ routeTo, IsWord p.1 ∧ IsWord p.2) :
    PartsRender (rule.routePart routeTo)
      (clauseToks "route-to" routeToks (rule.rawHead routeTo).route) := by
  cases routeTo with
  | none =>
    simp only [Rule.rawHead, Option.map_none, ite_self]
    exact .nil
  | some p =>
    obtain ⟨gwIface, nextHop⟩ := p
    have hw := hr _ rfl
    simp only [Rule.rawHead, Rule.routePart, Option.map_some]
    split
    · apply PartsRender.single
      have hhop := hw.1.renders.space (hw.2.renders.glue (.sym (c := ')') (by decide)) (by decide))
      have hopen := (renders_kw "route-to" (by decide)).space
        (.sym_append (c := '(') (by decide) hhop)
      rw [List.append_assoc, List.append_assoc]
      exact hopen
    · exact .nil

theorem Rule.parts_renders {rule : Rule} (hv : rule.Valid)
    (hr : ∀ p ∈ routeTo, IsWord p.1 ∧ IsWord p.2) :
    PartsRender (rule.parts routeTo) (headToks (rule.rawHead routeTo) ++
      (matchToks rule.rawMatch ++ rule.stateToks)) := by
  have haction := PartsRender.single rule.action.renders
  have hdir := rule.direction.renders
  have hlog := flag_renders "log" (by decide) (rule.log ∨ rule.action = .block)
  have hquick := flag_renders "quick" (by decide) (rule.quick = true)
  have hon : PartsRender (onPart rule.interface) (clauseToks "on" (fun w => [.word w]) rule.interface) := by
    cases hi : rule.interface with
    | none => exact .nil
    | some iface =>
      exact .single ((renders_kw "on" (by decide)).space (hv.interface iface hi).renders)
  have hroute := rule.route_renders hr
  have haf := rule.ipVersion.renders
  have hproto : PartsRender
      (if rule.protocol ≠ .any then ["proto ".toList ++ rule.protocol.display] else [])
      (clauseToks "proto" protocolToks rule.protocol.names) := by
    split
    · rename_i h
      exact .single (rule.protocol.renders h)
    · rename_i h
      rw [not_not.mp h]
      exact .nil
  have hsrc : PartsRender rule.srcPart (clauseToks "from" hostToks rule.rawMatch.src) := by
    simp only [Rule.srcPart, Rule.rawMatch]
    split
    · exact .single (hostClause_renders "from" (by decide) _ hv.srcTable _)
    · exact .nil
  have hdst : PartsRender rule.dstPart (clauseToks "to" hostToks rule.rawMatch.dst) := by
    simp only [Rule.dstPart, Rule.rawMatch]
    split
    · exact .single (hostClause_renders "to" (by decide) _ hv.dstTable _)
    · cases rule.ruleMatch.dstPort with
      | none => exact .nil
      | some port =>
        apply PartsRender.single
        have hany : ∀ name, Address.any = .table name → IsWord name := by
          intro name h
          cases h
        exact hostClause_renders "to" (by decide) false hany (some port)
  have hall := ((((((((((haction.append hdir).append hlog).append hquick).append hon).append
    hroute).append haf).append hproto).append hsrc).append hdst).append rule.state_renders)
  have htoks : headToks (rule.rawHead routeTo) ++ (matchToks rule.rawMatch ++ rule.stateToks) =
      actionToks rule.action.raw ++ pickToks rule.direction.raw ++
      flagToks "log" (decide (rule.log ∨ rule.action = .block)) ++
      flagToks "quick" (decide (rule.quick = true)) ++
      clauseToks "on" (fun w => [.word w]) rule.interface ++
      clauseToks "route-to" routeToks (rule.rawHead routeTo).route ++
      pickToks rule.ipVersion.raw ++ clauseToks "proto" protocolToks rule.protocol.names ++
      clauseToks "from" hostToks rule.rawMatch.src ++
      clauseToks "to" hostToks rule.rawMatch.dst ++ rule.stateToks := by
    simp only [headToks, matchToks, Rule.rawHead, Rule.rawMatch, List.append_assoc,
      Bool.decide_or, Bool.decide_eq_true]
  rw [htoks]
  exact hall

def withLabel (s : List Char) : Option (List Char) → List Char
  | some label => s ++ ' ' :: ("label ".toList ++ '"' :: label ++ ['"'])
  | none => s

theorem label_lexes (h : ∀ l ∈ label, ∀ c ∈ l, c ≠ '"' ∧ c ≠ '\\') (hs : Lexes s ts) :
    Lexes (withLabel s label) (ts ++ labelToks label) := by
  cases label with
  | none =>
    rw [labelToks, clauseToks, List.append_nil]
    exact hs
  | some l => exact hs.space ((renders_kw "label" (by decide)).lexes.space (lexes_str (h l rfl)))

theorem withLabel_some (s l : List Char) :
    withLabel s (some l) = s ++ " label \"".toList ++ l ++ ['"'] := by
  simp only [withLabel, List.append_assoc]
  rfl

theorem notMem_withLabel (hs : d ∉ s) (hl : ∀ l ∈ label, d ∉ l) (hd : d ∉ " label \"".toList) :
    d ∉ withLabel s label := by
  cases label with
  | none => exact hs
  | some l =>
    have hq : d ∉ ['"'] := fun h => hd (List.mem_of_mem_getLast? (l := " label \"".toList)
      (by rw [List.mem_singleton.mp h]; rfl))
    rw [withLabel_some]
    simp only [List.mem_append, hs, hd, hl l rfl, hq, or_self, not_false_eq_true]

theorem count_withLabel (hs : '"' ∉ s) (hl : ∀ l ∈ label, '"' ∉ l) :
    (withLabel s label).count '"' = if label.isSome then 2 else 0 := by
  cases label with
  | none => exact List.count_eq_zero.mpr hs
  | some l =>
    rw [withLabel_some, List.count_append, List.count_append, List.count_append,
      List.count_eq_zero.mpr hs, List.count_eq_zero.mpr (hl l rfl)]
    rfl

theorem intercalate_concat {sep p : List Char} {ps : List (List Char)} (h : ps ≠ []) :
    List.intercalate sep (ps ++ [p]) = List.intercalate sep ps ++ (sep ++ p) := by
  induction ps with
  | nil => exact absurd rfl h
  | cons q qs ih =>
    cases qs with
    | nil =>
      rw [List.singleton_append, List.intercalate_cons_cons, List.intercalate_singleton,
        List.intercalate_singleton, List.append_assoc]
    | cons r rs =>
      have hi := ih (List.cons_ne_nil r rs)
      rw [List.cons_append, List.cons_append, List.intercalate_cons_cons, ← List.cons_append, hi,
        List.intercalate_cons_cons, List.append_assoc _ _ (sep ++ p)]

theorem Rule.parts_ne_nil (rule : Rule) (routeTo : Option (List Char × List Char)) :
    rule.parts routeTo ≠ [] := by
  simp only [Rule.parts, List.append_assoc, List.singleton_append]
  exact List.cons_ne_nil _ _

theorem Rule.toPfRuleRouted_eq (rule : Rule) (routeTo : Option (List Char × List Char)) :
    rule.toPfRuleRouted routeTo =
      withLabel (List.intercalate [' '] (rule.parts routeTo)) rule.label := by
  unfold Rule.toPfRuleRouted
  cases rule.label with
  | none => simp only [List.append_nil, withLabel]
  | some l => exact intercalate_concat (rule.parts_ne_nil routeTo)

theorem Rule.lex_toPfRuleRouted {rule : Rule} (hv : rule.Valid)
    (hr : ∀ p ∈ routeTo, IsWord p.1 ∧ IsWord p.2) :
    lex (rule.toPfRuleRouted routeTo) = some (rule.tokens routeTo) := by
  have hlabel : ∀ l ∈ rule.label, ∀ c ∈ l, c ≠ '"' ∧ c ≠ '\\' := by
    intro l h c hc
    have hcc := hv.label l h c hc
    exact ⟨hcc.1, hcc.2.1⟩
  have hl := label_lexes hlabel (Rule.parts_renders hv hr).join.lexes
  rw [Rule.toPfRuleRouted_eq, hl.lex_eq, Rule.tokens]
  simp only [List.append_assoc]

theorem lexOpen_newline (h : .newline ∈ (lexOpen c).1) : c = '\n' := by
  unfold lexOpen at h
  split at h
  · assumption
  split at h
  · cases h
  split at h
  · cases h
  split at h
  · cases h
  split at h
  · cases h
  · rcases List.mem_singleton.mp h with h
    cases h

theorem lexStep_newline {m : Mode} (h : .newline ∈ (lexStep m c).1) : c = '\n' := by
  cases m with
  | start => exact lexOpen_newline h
  | word acc =>
    simp only [lexStep] at h
    split at h
    · cases h
    · rcases List.mem_cons.mp h with h | h
      · cases h
      · exact lexOpen_newline h
  | quoted q acc =>
    simp only [lexStep] at h
    split at h
    · rcases List.mem_singleton.mp h with h
      cases h
    split at h
    · cases h
    · cases h
  | escaped q acc =>
    simp only [lexStep] at h
    split at h
    · cases h
    split at h
    · cases h
    · cases h
  | comment =>
    simp only [lexStep] at h
    split at h
    · assumption
    · cases h

theorem lexFrom_newline {m : Mode} (h : lexFrom m s = some toks) (hn : .newline ∈ toks) :
    '\n' ∈ s := by
  induction s generalizing m toks with
  | nil =>
    cases m <;> cases h
    · cases hn
    · rcases List.mem_singleton.mp hn with hn
      cases hn
    · cases hn
  | cons c cs ih =>
    rw [lexFrom_cons, Option.map_eq_some_iff] at h
    obtain ⟨ts, hts, rfl⟩ := h
    rcases List.mem_append.mp hn with hn | hn
    · rw [← lexStep_newline hn]
      exact List.mem_cons_self
    · exact List.mem_cons_of_mem _ (ih hts hn)

/-- However the texts of a validated rule and of the gateway records are chosen, the line is one
rule whose tokens are the clauses of the rule, with every text a single word or the quoted label. -/
theorem Rule.routed_line_contained (rule : Rule) (gateways : GatewayRoutes)
    (h : validateRule rule = .ok ()) :
    let routeTo := resolveRuleRoute rule gateways
    let line := rule.toPfRuleRouted routeTo
    '\n' ∉ line ∧ '\r' ∉ line ∧
      line.count '"' = (if rule.label.isSome then 2 else 0) ∧
      (∀ label ∈ rule.label, ∃ front, line = front ++ '"' :: label ++ ['"']) ∧
      lex line = some (rule.tokens routeTo) ∧ .newline ∉ rule.tokens routeTo := by
  intro routeTo line
  have hv := Rule.valid_of_validateRule h
  have hr : ∀ p ∈ routeTo, IsWord p.1 ∧ IsWord p.2 := fun p hp => resolveRuleRoute_words hp
  have hclean := (Rule.parts_renders hv hr).join.clean
  have hline : line = withLabel (List.intercalate [' '] (rule.parts routeTo)) rule.label :=
    rule.toPfRuleRouted_eq routeTo
  have hlex : lex line = some (rule.tokens routeTo) := Rule.lex_toPfRuleRouted hv hr
  have hlabel := hv.label
  generalize List.intercalate [' '] (rule.parts routeTo) = front at hclean hline
  rw [hline] at hlex ⊢
  have hn : '\n' ∉ withLabel front rule.label :=
    notMem_withLabel (fun h => (hclean _ h).1 rfl) (fun l hl h => (hlabel l hl _ h).2.2.1 rfl)
      (by decide)
  refine ⟨hn, ?_, ?_, ?_, hlex, ?_⟩
  · exact notMem_withLabel (fun h => (hclean _ h).2.1 rfl)
      (fun l hl h => (hlabel l hl _ h).2.2.2 rfl) (by decide)
  · exact count_withLabel (fun h => (hclean _ h).2.2 rfl) fun l hl h => (hlabel l hl _ h).1 rfl
  · intro label hl
    rw [Option.mem_def.mp hl]
    exact ⟨front ++ " label ".toList, by simp only [withLabel, List.append_assoc]; rfl⟩
  · intro hnl
    exact hn (lexFrom_newline hlex hnl)

/-- A policy-routed rule with every text set. -/
def sampleRule : Rule where
  id := 1
  priority := 100
  action := .pass
  direction := .in
  ipVersion := .inet
  interface := some "em0".toList
  protocol := .tcp
  ruleMatch := ⟨.table "lan".toList, some ⟨1024, 65535⟩, .network (.v4 0x0A000000) 8, some ⟨22, 22⟩⟩
  srcInvert := true
  dstInvert := false
  log := false
  quick := true
  label := some "to ssh".toList
  gateway := some "wan2".toList
  stateOptions := ⟨.keepState, some .ifBound, none⟩
  status := .active
  scheduleId := none

def sampleGateways : GatewayRoutes := fun _ =>
  some ("igb1".toList, "192.0.2.1".toList, "up".toList)

theorem Rule.routed_line_contained_sample :
    validateRule sampleRule = .ok () ∧
      resolveRuleRoute sampleRule sampleGateways = some ("igb1".toList, "192.0.2.1".toList) ∧
      (sampleRule.toPfRuleRouted (resolveRuleRoute sampleRule sampleGateways)).count '"' = 2 := by
  have h := Rule.routed_line_contained sampleRule sampleGateways rfl
  exact ⟨rfl, by decide +kernel, h.2.2.1⟩

example : sampleRule.toPfRuleRouted (resolveRuleRoute sampleRule sampleGateways) =
    "pass in quick on em0 ".toList ++ "route-to (igb1 192.0.2.1) ".toList ++
      "inet proto tcp ".toList ++ "from ! <lan> port 1024:65535 ".toList ++
      "to 10.0.0.0/8 port 22 ".toList ++ "keep state (if-bound) ".toList ++
      "label \"to ssh\"".toList := by
  decide +kernel

end AiFw.Pf
