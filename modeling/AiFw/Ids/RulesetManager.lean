import AiFw.Ids.Prefilter
import AiFw.Ids.Suricata
import AiFw.Lib.Results
import AiFw.Lib.Separated

namespace AiFw.Ids
open AiFw.Lib AiFw.Net
set_option autoImplicit true

inductive RuleFormat where
  | suricata
  | sigma
  | yara
deriving DecidableEq, Repr

/-- A row of the table of rules. Ids are the ones their texts stand for. -/
structure StoredRule where
  id : Uuid
  rulesetId : Uuid
  sid : Option Int
  ruleText : List Char
  msg : Option String
  severity : Int
  enabled : Bool
  actionOverride : Option (List Char)
  hitCount : Int
  lastHit : Option (List Char)
  createdAt : List Char

/-- A row of the table of rulesets; the columns that no rule is compiled from are left out. -/
structure StoredRuleset where
  id : Uuid
  ruleFormat : List Char
  enabled : Bool

/-- The two tables, in the order of their rowids. -/
structure RulesetManager where
  rules : List StoredRule
  rulesets : List StoredRuleset

/-- A rule as it is listed. -/
structure IdsRule where
  id : Uuid
  rulesetId : Uuid
  sid : Option UInt32
  ruleText : List Char
  msg : Option String
  severity : IdsSeverity
  enabled : Bool
  actionOverride : Option IdsAction
  hitCount : UInt64
  lastHit : Option Int
  createdAt : Int

/-- The other two parsers of rules, and the parser of times. -/
structure RuleLibs where
  parseSigmaRule : List Char → RuleSource → Except (List Char) CompiledRule
  parseYaraRules : List Char → RuleSource → List CompiledRule
  parseRfc3339 : List Char → Option Int

def StoredRule.intoIdsRule (libs : RuleLibs) (now : Int) (row : StoredRule) : IdsRule where
  id := row.id
  rulesetId := row.rulesetId
  sid := row.sid.map UInt32.ofInt
  ruleText := row.ruleText
  msg := row.msg
  severity := UInt8.ofInt row.severity
  enabled := row.enabled
  actionOverride := row.actionOverride.bind IdsAction.fromStr
  hitCount := UInt64.ofInt row.hitCount
  lastHit := row.lastHit.bind libs.parseRfc3339
  createdAt := (libs.parseRfc3339 row.createdAt).getD now

/-- `ORDER BY sid ASC, created_at ASC`; NULL is before every number. -/
def StoredRule.listedBefore (a b : StoredRule) : Bool :=
  match a.sid, b.sid with
  | none, some _ => true
  | some _, none => false
  | none, none => !decide (b.createdAt < a.createdAt)
  | some m, some n => m < n || m = n && !decide (b.createdAt < a.createdAt)

def detectFormat (text : List Char) : RuleFormat :=
  let trimmed := trim text
  let startsWith s := s.toList.isPrefixOf trimmed
  if startsWith "alert " || startsWith "drop " || startsWith "reject " || startsWith "pass " then
    .suricata
  else if startsWith "title:" || startsWith "id:" ||
      (splitAround "detection:".toList trimmed).isSome then .sigma
  else if startsWith "rule " || startsWith "private rule " then .yara
  else .suricata

namespace RulesetManager
variable (mgr : RulesetManager) (libs : RuleLibs) (now : Int)

def rulesetEnabled (id : Uuid) : Bool := mgr.rulesets.any fun rs => rs.id = id && rs.enabled

/-- The rules that the conditions of the query let through, in its order. -/
def queried (rulesetId : Option Uuid) (enabledOnly : Bool) : List StoredRule :=
  (mgr.rules.filter fun row => rulesetId.all (fun id => row.rulesetId = id) &&
    (!enabledOnly || row.enabled && mgr.rulesetEnabled row.rulesetId)).mergeSort
      StoredRule.listedBefore

def listRules (rulesetId : Option Uuid) (enabledOnly : Bool) (limit offset : Nat) : List IdsRule :=
  (((mgr.queried rulesetId enabledOnly).drop offset).take limit).map
    (StoredRule.intoIdsRule libs now)

def toggleRule (ruleId : Uuid) (enabled : Bool) : RulesetManager :=
  { mgr with rules := mgr.rules.map fun row =>
      if row.id = ruleId then { row with enabled := enabled } else row }

def overrideRuleAction (ruleId : Uuid) (action : Option (List Char)) : RulesetManager :=
  { mgr with rules := mgr.rules.map fun row =>
      if row.id = ruleId then { row with actionOverride := action } else row }

/-- The source a rule of a ruleset is compiled with. -/
def sourceByRuleset (id : Uuid) : RuleSource :=
  match mgr.rulesets.find? fun rs => rs.id = id with
  | none => .custom
  | some rs =>
    if rs.ruleFormat = "sigma".toList then .sigma
    else if rs.ruleFormat = "yara".toList then .yara
    else .etOpen

/-- The rules of one text; nothing where the parser panics. -/
def compileRule (rule : IdsRule) : Option (List CompiledRule) :=
  let source := mgr.sourceByRuleset rule.rulesetId
  match detectFormat rule.ruleText with
  | .suricata => (parseRule rule.ruleText source).map fun
    | .ok cr => [cr.toCompiledRule]
    | .error _ => []
  | .sigma => some (libs.parseSigmaRule rule.ruleText source).toOption.toList
  | .yara => some (libs.parseYaraRules rule.ruleText source)

/-- The number of the rules and the database they are loaded into; nothing where it panics. -/
def compileRules (m : Matchers) (db : RuleDatabase) : Option (Nat × RuleDatabase) :=
  ((mgr.listRules libs now none true 100000 0).mapM (mgr.compileRule libs)).map fun compiled =>
    (compiled.flatten.length, db.loadRules m compiled.flatten)

end RulesetManager

/-- The two calls of an operator. -/
inductive RuleCall where
  | toggleRule (ruleId : Uuid) (enabled : Bool)
  | overrideRuleAction (ruleId : Uuid) (action : Option (List Char))

namespace RuleCall

def exec (mgr : RulesetManager) : RuleCall → RulesetManager
  | toggleRule ruleId enabled => mgr.toggleRule ruleId enabled
  | overrideRuleAction ruleId action => mgr.overrideRuleAction ruleId action

def run (mgr : RulesetManager) (calls : List RuleCall) : RulesetManager := calls.foldl exec mgr

theorem exec_texts (mgr : RulesetManager) (call : RuleCall) :
    (exec mgr call).rules.map StoredRule.ruleText = mgr.rules.map StoredRule.ruleText := by
  cases call with
  | toggleRule ruleId enabled =>
    simp only [exec, RulesetManager.toggleRule, List.map_map]
    apply List.map_congr_left
    intro row _
    simp only [Function.comp_apply]
    split <;> rfl
  | overrideRuleAction ruleId action =>
    simp only [exec, RulesetManager.overrideRuleAction, List.map_map]
    apply List.map_congr_left
    intro row _
    simp only [Function.comp_apply]
    split <;> rfl

/-- No call changes a text. -/
theorem run_texts (mgr : RulesetManager) (calls : List RuleCall) :
    (run mgr calls).rules.map StoredRule.ruleText = mgr.rules.map StoredRule.ruleText := by
  unfold run
  induction calls generalizing mgr with
  | nil => rfl
  | cons call calls ih =>
    rw [List.foldl_cons, ih]
    exact exec_texts mgr call

end RuleCall

namespace RulesetManager
variable {mgr : RulesetManager} {libs : RuleLibs} {now : Int}

/-- The enabled rules of the enabled rulesets. -/
def isEnabled (mgr : RulesetManager) (row : StoredRule) : Bool :=
  row.enabled && mgr.rulesetEnabled row.rulesetId

def enabledRules (mgr : RulesetManager) : List StoredRule := mgr.queried none true

/-- Each of them is listed, as often as it is stored. -/
theorem enabledRules_perm (mgr : RulesetManager) :
    mgr.enabledRules.Perm (mgr.rules.filter mgr.isEnabled) :=
  List.mergeSort_perm _ _

/-- What the text of a rule says, if it can be parsed. -/
def ofText (mgr : RulesetManager) (row : StoredRule) : Option CompiledRule :=
  ((parseRule row.ruleText (mgr.sourceByRuleset row.rulesetId)).bind Except.toOption).map
    SuricataRule.toCompiledRule

/-- The rule the operator asks for: the one of the text, with the override's action. -/
def effective (mgr : RulesetManager) (row : StoredRule) : Option CompiledRule :=
  (mgr.ofText row).map fun cr =>
    { cr with action := (row.actionOverride.bind IdsAction.fromStr).getD cr.action }

/-- No text among the first hundred thousand enabled rules makes the parser panic, none of these
rules has an override that differs from its text's action, and no rule after them can be parsed. -/
structure TextsDecide (mgr : RulesetManager) : Prop where
  parsed : ∀ row ∈ mgr.enabledRules.take 100000,
    (parseRule row.ruleText (mgr.sourceByRuleset row.rulesetId)).isSome
  overrides : ∀ row ∈ mgr.enabledRules.take 100000, ∀ cr, mgr.ofText row = some cr →
    ∀ a, row.actionOverride.bind IdsAction.fromStr = some a → a = cr.action
  limit : ∀ row ∈ mgr.enabledRules.drop 100000, mgr.ofText row = none

theorem ofText_eq_effective_iff (row : StoredRule) :
    mgr.ofText row = mgr.effective row ↔ ∀ cr, mgr.ofText row = some cr →
      ∀ a, row.actionOverride.bind IdsAction.fromStr = some a → a = cr.action := by
  unfold effective
  cases hcr : mgr.ofText row with
  | none => simp
  | some cr =>
    cases row.actionOverride.bind IdsAction.fromStr with
    | none => simp
    | some a =>
      simp only [Option.map_some, Option.getD_some, Option.some.injEq, forall_eq']
      constructor
      · intro h
        rw [h]
      · intro h
        rw [h]

theorem isSome_ofText (mgr : RulesetManager) (row : StoredRule) :
    (mgr.ofText row).isSome = (mgr.effective row).isSome := by
  rw [effective, Option.isSome_map]

theorem effective_eq_none_iff (row : StoredRule) :
    mgr.effective row = none ↔ mgr.ofText row = none :=
  Option.map_eq_none_iff

theorem compileRule_of_suricata {row : StoredRule}
    (h : detectFormat row.ruleText = .suricata) (now : Int) :
    mgr.compileRule libs (row.intoIdsRule libs now) =
      (parseRule row.ruleText (mgr.sourceByRuleset row.rulesetId)).map fun parsed =>
        (parsed.toOption.map SuricataRule.toCompiledRule).toList := by
  unfold compileRule
  simp only [StoredRule.intoIdsRule, h]
  congr
  funext parsed
  cases parsed <;> rfl

/-- No more than a hundred thousand rules are compiled. -/
theorem listRules_eq : mgr.listRules libs now none true 100000 0 =
    (mgr.enabledRules.take 100000).map (StoredRule.intoIdsRule libs now) := rfl

theorem compileRules_rawRules (m : Matchers) (db : RuleDatabase) :
    (mgr.compileRules libs now m db).map (fun p => p.2.rawRules) =
      (((mgr.enabledRules.take 100000).mapM fun row =>
        mgr.compileRule libs (row.intoIdsRule libs now)).map List.flatten).map some := by
  rw [compileRules, listRules_eq, List.mapM_map, Option.map_map, Option.map_map]
  rfl

/-- What is loaded is what the texts of the first hundred thousand enabled rules say. -/
theorem compileRules_eq_some
    (hformat : ∀ row ∈ mgr.rules, detectFormat row.ruleText = .suricata)
    (m : Matchers) (db : RuleDatabase) (rules : List CompiledRule) :
    (mgr.compileRules libs now m db).map (fun p => p.2.rawRules) = some (some rules) ↔
      (∀ row ∈ mgr.enabledRules.take 100000,
        (parseRule row.ruleText (mgr.sourceByRuleset row.rulesetId)).isSome) ∧
      (mgr.enabledRules.take 100000).filterMap mgr.ofText = rules := by
  have hcompile : ∀ row ∈ mgr.enabledRules.take 100000,
      mgr.compileRule libs (row.intoIdsRule libs now) =
        (parseRule row.ruleText (mgr.sourceByRuleset row.rulesetId)).map fun parsed =>
          (parsed.toOption.map SuricataRule.toCompiledRule).toList := by
    intro row hrow
    have hmem := mgr.enabledRules_perm.mem_iff.mp (List.mem_of_mem_take hrow)
    exact compileRule_of_suricata (hformat row (List.mem_of_mem_filter hmem)) now
  rw [compileRules_rawRules]
  generalize mgr.enabledRules.take 100000 = rows at hcompile
  by_cases hparsed : ∀ row ∈ rows,
      (parseRule row.ruleText (mgr.sourceByRuleset row.rulesetId)).isSome
  · have hflat := mapM_flatten (g := mgr.ofText) (l := rows)
      (f := fun row => mgr.compileRule libs (row.intoIdsRule libs now)) <| by
        intro row hrow
        obtain ⟨parsed, hrule⟩ := Option.isSome_iff_exists.mp (hparsed row hrow)
        rw [hcompile row hrow, ofText, hrule]
        rfl
    rw [hflat]
    rw [Option.map_some, Option.some.injEq, Option.some.injEq]
    exact (and_iff_right hparsed).symm
  · refine iff_of_false ?_ fun h => hparsed h.1
    intro h
    obtain ⟨flat, hflat, -⟩ := Option.map_eq_some_iff.mp h
    obtain ⟨compiled, hcompiled, -⟩ := Option.map_eq_some_iff.mp hflat
    apply hparsed
    intro row hrow
    have hsome := isSome_of_mapM hcompiled hrow
    rwa [hcompile row hrow, Option.isSome_map] at hsome

/-- The order of the listing and what is listed are of the columns no override touches. -/
theorem queried_map {f : StoredRule → StoredRule}
    (hsid : ∀ row, (f row).sid = row.sid) (hcreated : ∀ row, (f row).createdAt = row.createdAt)
    (henabled : ∀ row, (f row).enabled = row.enabled)
    (hruleset : ∀ row, (f row).rulesetId = row.rulesetId) (mgr : RulesetManager) :
    ({ mgr with rules := mgr.rules.map f } : RulesetManager).enabledRules =
      mgr.enabledRules.map f := by
  unfold enabledRules queried
  rw [List.map_mergeSort (s := StoredRule.listedBefore), List.filter_map]
  · congr 2
    apply List.filter_congr
    intro row _
    simp only [Function.comp_apply, henabled, hruleset]
    rfl
  · intro a _ b _
    simp only [StoredRule.listedBefore, hsid, hcreated]

/-- An override changes nothing of what is compiled. -/
theorem compileRules_overrideRuleAction (mgr : RulesetManager) (ruleId : Uuid)
    (action : Option (List Char)) (m : Matchers) (db : RuleDatabase) :
    (mgr.overrideRuleAction ruleId action).compileRules libs now m db =
      mgr.compileRules libs now m db := by
  generalize hf : (fun row : StoredRule =>
    if row.id = ruleId then { row with actionOverride := action } else row) = f
  have hkeep : ∀ {α : Type} (column : StoredRule → α),
      (∀ row a, column { row with actionOverride := a } = column row) →
      ∀ row, column (f row) = column row := by
    intro α column hcolumn row
    rw [← hf]
    dsimp only
    split
    · exact hcolumn row action
    · rfl
  have hmgr : mgr.overrideRuleAction ruleId action = { mgr with rules := mgr.rules.map f } := by
    rw [← hf]
    rfl
  have hqueried : (mgr.overrideRuleAction ruleId action).enabledRules =
      mgr.enabledRules.map f := by
    rw [hmgr]
    exact queried_map (hkeep _ fun _ _ => rfl) (hkeep _ fun _ _ => rfl) (hkeep _ fun _ _ => rfl)
      (hkeep _ fun _ _ => rfl) mgr
  have hcompile : (fun row => mgr.compileRule libs ((f row).intoIdsRule libs now)) =
      fun row => mgr.compileRule libs (row.intoIdsRule libs now) := by
    funext row
    have htext : (f row).ruleText = row.ruleText := hkeep _ (fun _ _ => rfl) row
    have hruleset : (f row).rulesetId = row.rulesetId := hkeep _ (fun _ _ => rfl) row
    simp only [compileRule, StoredRule.intoIdsRule, htext, hruleset]
  rw [compileRules, compileRules, listRules_eq, listRules_eq, hqueried, List.mapM_map,
    List.mapM_map, ← List.map_take, List.mapM_map]
  exact congrArg (fun g => ((mgr.enabledRules.take 100000).mapM g).map fun compiled =>
    (compiled.flatten.length, db.loadRules m compiled.flatten)) hcompile

end RulesetManager

/-- After any calls of the operator, the rules that are loaded are the enabled ones that can be
parsed, each as the operator asks for it, if and only if the texts decide. -/
theorem overrides_reach_iff (mgr : RulesetManager) (calls : List RuleCall)
    (hformat : ∀ row ∈ mgr.rules, detectFormat row.ruleText = .suricata) (libs : RuleLibs)
    (now : Int) (m : Matchers) (db : RuleDatabase) :
    ((RuleCall.run mgr calls).compileRules libs now m db).map (fun p => p.2.rawRules) =
        some (some ((RuleCall.run mgr calls).enabledRules.filterMap
          (RuleCall.run mgr calls).effective)) ↔
      (RuleCall.run mgr calls).TextsDecide := by
  have hformat' : ∀ row ∈ (RuleCall.run mgr calls).rules,
      detectFormat row.ruleText = .suricata := by
    have htexts := RuleCall.run_texts mgr calls
    intro row hrow
    have hmem : row.ruleText ∈ mgr.rules.map StoredRule.ruleText :=
      htexts ▸ List.mem_map_of_mem hrow
    obtain ⟨row', hrow', htext⟩ := List.mem_map.mp hmem
    rw [← htext]
    exact hformat row' hrow'
  generalize RuleCall.run mgr calls = mgr' at hformat'
  rw [RulesetManager.compileRules_eq_some hformat']
  have hsplit : (mgr'.enabledRules.take 100000).filterMap mgr'.ofText =
        (mgr'.enabledRules.take 100000 ++ mgr'.enabledRules.drop 100000).filterMap
          mgr'.effective ↔
      (∀ row ∈ mgr'.enabledRules.take 100000, mgr'.ofText row = mgr'.effective row) ∧
        ∀ row ∈ mgr'.enabledRules.drop 100000, mgr'.effective row = none :=
    filterMap_append_eq_iff fun row _ => mgr'.isSome_ofText row
  rw [List.take_append_drop] at hsplit
  rw [hsplit]
  simp only [RulesetManager.ofText_eq_effective_iff, RulesetManager.effective_eq_none_iff]
  constructor
  · rintro ⟨hparsed, hoverrides, hlimit⟩
    exact ⟨hparsed, hoverrides, hlimit⟩
  · intro h
    exact ⟨h.parsed, h.overrides, h.limit⟩

def quietLibs : RuleLibs where
  parseSigmaRule _ _ := .error []
  parseYaraRules _ _ := []
  parseRfc3339 _ := none

/-- `alert tcp any any -> any any (sid:1;)` in an enabled ruleset. -/
def alertRule : StoredRule where
  id := 1
  rulesetId := 7
  sid := some 1
  ruleText := "alert tcp any any -> any any (sid:1;)".toList
  msg := none
  severity := 3
  enabled := true
  actionOverride := none
  hitCount := 0
  lastHit := none
  createdAt := "2026-01-10T01:00:00+00:00".toList

def oneRule : RulesetManager := ⟨[alertRule], [⟨7, "suricata".toList, true⟩]⟩

/-- A rule that drops by its text. -/
def dropRule : StoredRule :=
  { alertRule with
    id := 2
    sid := some 2
    ruleText := "drop tcp any any -> any any (sid:2;)".toList }

/-- The first of two rules is switched off, the second one is to drop. -/
def droppedRun : RulesetManager :=
  RuleCall.run ⟨[alertRule, dropRule], [⟨7, "suricata".toList, true⟩]⟩
    [.toggleRule 1 false, .overrideRuleAction 2 (some "drop".toList)]

theorem droppedRun_enabled : droppedRun.enabledRules =
    [{ dropRule with actionOverride := some "drop".toList }] := by
  have hrows : droppedRun.rules.filter droppedRun.isEnabled =
      [{ dropRule with actionOverride := some "drop".toList }] := rfl
  exact List.perm_singleton.mp (hrows ▸ droppedRun.enabledRules_perm)

theorem overrides_reach_dropped :
    (droppedRun.compileRules quietLibs 0 literalMatchers .new).map (fun p => p.2.rawRules) =
        some (some (droppedRun.enabledRules.filterMap droppedRun.effective)) ∧
      (droppedRun.enabledRules.filterMap droppedRun.effective).map CompiledRule.action =
        [.drop] := by
  have hdecide : droppedRun.TextsDecide := by
    constructor
    · rw [droppedRun_enabled]
      decide +kernel
    · rw [droppedRun_enabled]
      intro row hrow cr hcr a ha
      cases List.mem_singleton.mp (List.mem_of_mem_take hrow)
      have haction : (droppedRun.ofText { dropRule with
          actionOverride := some "drop".toList }).map CompiledRule.action = some .drop := by
        decide +kernel
      rw [hcr] at haction
      exact (Option.some.inj ha).symm.trans (Option.some.inj haction).symm
    · rw [droppedRun_enabled]
      exact List.forall_mem_nil _
  refine ⟨(overrides_reach_iff ⟨[alertRule, dropRule], _⟩ _ ?_ quietLibs 0 literalMatchers
    .new).mpr hdecide, ?_⟩
  · decide +kernel
  · rw [droppedRun_enabled]
    decide +kernel

/-- A rule that is to drop is loaded as one that alerts. -/
theorem drop_compiled_as_alert :
    (((RuleCall.run oneRule [.overrideRuleAction 1 (some "drop".toList)]).compileRules quietLibs 0
        literalMatchers .new).bind fun p => p.2.rawRules.map fun rules =>
          rules.map CompiledRule.action) = some [.alert] ∧
      ((RuleCall.run oneRule [.overrideRuleAction 1 (some "drop".toList)]).enabledRules.filterMap
        (RuleCall.run oneRule [.overrideRuleAction 1 (some "drop".toList)]).effective).map
          CompiledRule.action = [.drop] := by
  decide +kernel

end AiFw.Ids
