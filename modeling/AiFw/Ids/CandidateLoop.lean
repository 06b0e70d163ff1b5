import AiFw.Ids.Engine
import AiFw.Ids.Prefilter

namespace AiFw.Ids
open AiFw.Net AiFw.Lib
set_option autoImplicit true

/-- What rule evaluation can see of a flow: everything but its flowbits. -/
def Flow.clearBits (flow : Flow) : Flow := { flow with flowbits := ∅ }

theorem contentData_clearBits (flow : Option Flow) :
    contentData packet (flow.map Flow.clearBits) direction buffers buffer =
      contentData packet flow direction buffers buffer := by
  cases flow with
  | none => rfl
  | some flow =>
    cases buffer with
    | none => rfl
    | some name =>
      cases h : buffers.lookup name <;> cases direction <;> simp only [contentData, h] <;> rfl

theorem matchProtocol_clearBits (flow : Option Flow) :
    matchProtocol proto packet (flow.map Flow.clearBits) = matchProtocol proto packet flow := by
  cases flow <;> rfl

theorem matchFlowConstraint_clearBits (flow : Option Flow) :
    matchFlowConstraint c (flow.map Flow.clearBits) direction =
      matchFlowConstraint c flow direction := by
  cases flow <;> rfl

theorem evaluateRule_clearBits (flow : Option Flow) :
    evaluateRule m loaded rule packet (flow.map Flow.clearBits) direction buffers =
      evaluateRule m loaded rule packet flow direction buffers := by
  simp only [evaluateRule, contentData_clearBits, matchProtocol_clearBits,
    matchFlowConstraint_clearBits]

/-- The precompiled expressions of a ruleset change nothing: they are what compiling on the spot
gives. -/
theorem pcreMatch_build (hm : m.Lawful) (rules : List CompiledRule) :
    pcreMatch m (some (.build m rules)) pattern data = pcreMatch m none pattern data := by
  have hpre (text : List Char) : ((CompiledRuleset.build m rules).regexPatterns.any fun r =>
      r.1.asStr == pattern && r.1.isMatch text) = true →
      ((m.regexNew pattern).any fun re => re.isMatch text) = true := by
    intro h
    obtain ⟨r, hr, he⟩ := List.any_eq_true.mp h
    rw [Bool.and_eq_true, beq_iff_eq] at he
    obtain ⟨p, hp⟩ := compiled_build m rules r.1 (List.mem_map_of_mem hr)
    rw [← he.1, hm.asStr_new hp, hp]
    exact he.2
  simp only [pcreMatch, Option.any_some, Option.any_none, Bool.false_or]
  rw [Bool.or_eq_right_iff_imp]
  exact hpre _

theorem evaluateRule_build (hm : m.Lawful) (rules : List CompiledRule) :
    evaluateRule m (some (.build m rules)) rule packet flow direction buffers =
      evaluateRule m none rule packet flow direction buffers := by
  simp only [evaluateRule, pcreMatch_build hm]

namespace CompiledRuleset

def candidateRules (rs : CompiledRuleset) (payload : Bytes) : List CompiledRule :=
  (rs.prefilter payload).filterMap (rs.rules[·]?)

theorem candidateRules_perm {rules : List CompiledRule} (hm : m.Lawful) (hb : Builds m rules)
    (payload : Bytes) : ((build m rules).candidateRules payload).Perm
      (rules.filter (CompiledRule.isCandidate m payload)) :=
  filterMap_getElem_perm (nodup_prefilter _ _) fun _ => mem_prefilter_build hm hb

end CompiledRuleset

theorem FlowTable.get_modify (t : FlowTable) (key : FlowKey) (f : Flow → Flow) :
    (t.modify key f).get key = (t.get key).map f := by
  rw [FlowTable.modify]
  cases h : t.table.lookup key with
  | none => exact h.trans (congrArg (Option.map f) h).symm
  | some flow =>
    have hg : t.get key = some flow := h
    rw [hg]
    exact AList.lookup_insert _

structure AlertSummary where
  signatureId : Option UInt32
  severity : IdsSeverity
  action : IdsAction
  signatureMsg : String
  srcIp : IpAddr
  srcPort : Option UInt16
  dstIp : IpAddr
  dstPort : Option UInt16
deriving DecidableEq, Repr

def IdsAlert.summary (alert : IdsAlert) : AlertSummary where
  signatureId := alert.signatureId
  severity := alert.severity
  action := alert.action
  signatureMsg := alert.signatureMsg
  srcIp := alert.srcIp
  srcPort := alert.srcPort
  dstIp := alert.dstIp
  dstPort := alert.dstPort

namespace Pass

def thresholdKey (pass : Pass) (rule : CompiledRule) : Option (UInt32 × IpAddr) :=
  rule.threshold.bind fun config =>
    (config.trackedIp pass.packet).map fun ip => (rule.sid.getD 0, ip)

theorem checkThreshold_lookup_ne {pass : Pass} (h : pass.thresholdKey rule ≠ some key) :
    (pass.checkThreshold tracker rule).1.state.lookup key = tracker.state.lookup key := by
  rw [checkThreshold]
  cases hc : rule.threshold with
  | none => rfl
  | some config =>
    cases hi : config.trackedIp pass.packet with
    | none => simp only [hi]
    | some ip =>
      simp only [hi, thresholdKey, hc, Option.bind_some, Option.map_some, ne_eq,
        Option.some.injEq] at h ⊢
      exact KeyedMap.lookup_hitAt_ne fun he => h he.symm

theorem checkThreshold_congr {pass : Pass}
    (h : ∀ key, pass.thresholdKey rule = some key →
      tracker.state.lookup key = tracker'.state.lookup key) :
    (pass.checkThreshold tracker rule).2 = (pass.checkThreshold tracker' rule).2 := by
  rw [checkThreshold, checkThreshold]
  cases hc : rule.threshold with
  | none => rfl
  | some config =>
    cases hi : config.trackedIp pass.packet with
    | none => simp only [hi]
    | some ip =>
      simp only [thresholdKey, hc, hi, Option.bind_some, Option.map_some, Option.some.injEq,
        forall_eq'] at h ⊢
      simp only [ThresholdTracker.check, KeyedMap.hitAt, h]

def raises (m : Matchers) (pass : Pass) (flowTable : FlowTable) (tracker : ThresholdTracker)
    (rule : CompiledRule) : Bool :=
  pass.evaluates m flowTable rule && (pass.checkThreshold tracker rule).2 &&
    flowbitsOk pass.snapshot rule && !rule.flowbits.contains .noAlert

/-- A round of the loop, stage by stage: the tracker moves if the rule matches, an alert is
added if it gets through all stages, and the flow changes in its flowbits at most. -/
structure Round (m : Matchers) (pass : Pass) (rule : CompiledRule) (st st' : PassState) : Prop where
  alerts : st'.alerts = st.alerts ++
    if pass.raises m st.flowTable st.thresholdTracker rule then
      [pass.buildAlert rule st.alerts.length]
    else []
  tracker : st'.thresholdTracker =
    if pass.evaluates m st.flowTable rule then (pass.checkThreshold st.thresholdTracker rule).1
    else st.thresholdTracker
  view : (st'.flowTable.get pass.flowKey).map Flow.clearBits =
    (st.flowTable.get pass.flowKey).map Flow.clearBits

theorem modify_view (pass : Pass) (flowTable : FlowTable) (rule : CompiledRule) :
    ((flowTable.modify pass.flowKey (applyFlowbits rule)).get pass.flowKey).map Flow.clearBits =
      (flowTable.get pass.flowKey).map Flow.clearBits := by
  rw [FlowTable.get_modify, Option.map_map]
  rfl

theorem applyRule_round (m : Matchers) (pass : Pass) (st : PassState) (rule : CompiledRule) :
    pass.Round m rule st (pass.applyRule m st rule) := by
  cases he : pass.evaluates m st.flowTable rule with
  | false =>
    refine ⟨?_, ?_, ?_⟩ <;>
      simp only [applyRule, raises, he, Bool.false_and, Bool.false_eq_true, if_false,
        List.append_nil]
  | true =>
    cases hf : (pass.checkThreshold st.thresholdTracker rule).2 with
    | false =>
      refine ⟨?_, ?_, ?_⟩ <;>
        simp only [applyRule, raises, he, hf, Bool.true_and, Bool.false_and, Bool.not_false,
          Bool.false_eq_true, if_true, if_false, List.append_nil]
    | true =>
      cases hb : flowbitsOk pass.snapshot rule with
      | false =>
        refine ⟨?_, ?_, ?_⟩ <;>
          simp only [applyRule, raises, he, hf, hb, Bool.true_and, Bool.false_and, Bool.not_true,
            Bool.not_false, Bool.false_eq_true, if_true, if_false, List.append_nil]
      | true =>
        cases hn : rule.flowbits.contains .noAlert with
        | true =>
          refine ⟨?_, ?_, ?_⟩ <;>
            simp only [applyRule, raises, he, hf, hb, hn, Bool.true_and, Bool.not_true,
              Bool.false_eq_true, if_true, if_false, List.append_nil, modify_view]
        | false =>
          refine ⟨?_, ?_, ?_⟩ <;>
            simp only [applyRule, raises, he, hf, hb, hn, Bool.true_and, Bool.not_true,
              Bool.not_false, Bool.false_eq_true, if_true, if_false, modify_view]

theorem evaluates_congr {pass : Pass}
    (h : (t'.get pass.flowKey).map Flow.clearBits = (t.get pass.flowKey).map Flow.clearBits) :
    pass.evaluates m t' rule = pass.evaluates m t rule := by
  rw [evaluates, evaluates, ← evaluateRule_clearBits (t'.get _), h, evaluateRule_clearBits]

theorem applyCandidates_eq (m : Matchers) (pass : Pass) (st : PassState) (payload : Bytes) :
    pass.applyCandidates m st (pass.ruleset.prefilter payload) =
      (pass.ruleset.candidateRules payload).foldl (pass.applyRule m) st := by
  rw [applyCandidates, CompiledRuleset.candidateRules, List.foldl_filterMap]
  congr 1
  funext st i
  cases pass.ruleset.rules[i]? <;> rfl

def touch (m : Matchers) (pass : Pass) (flowTable : FlowTable) (key : UInt32 × IpAddr)
    (entry : Option ThresholdState) (rule : CompiledRule) : Option ThresholdState :=
  match rule.threshold with
  | none => entry
  | some config =>
    if pass.evaluates m flowTable rule ∧ pass.thresholdKey rule = some key then
      some (ThresholdState.hit entry (pass.env.now, config)).1
    else entry

theorem applyRule_lookup (m : Matchers) (pass : Pass) (st : PassState) (rule : CompiledRule)
    (key : UInt32 × IpAddr) :
    (pass.applyRule m st rule).thresholdTracker.state.lookup key =
      pass.touch m st.flowTable key (st.thresholdTracker.state.lookup key) rule := by
  rw [(pass.applyRule_round m st rule).tracker, touch]
  cases hc : rule.threshold with
  | none => simp only [checkThreshold, hc, ite_self]
  | some config =>
    by_cases hk : pass.thresholdKey rule = some key
    · simp only [hk, and_true]
      split
      next he =>
        simp only [thresholdKey, hc, Option.bind_some, Option.map_eq_some_iff] at hk
        obtain ⟨ip, hi, rfl⟩ := hk
        simp only [checkThreshold, hc, hi]
        exact KeyedMap.lookup_hitAt_self
      next => rfl
    · simp only [hk, and_false, if_false]
      split
      · exact checkThreshold_lookup_ne hk
      · rfl

theorem foldl_lookup (m : Matchers) (pass : Pass) (l : List CompiledRule) (st : PassState)
    (key : UInt32 × IpAddr) :
    (l.foldl (pass.applyRule m) st).thresholdTracker.state.lookup key =
      l.foldl (pass.touch m st.flowTable key) (st.thresholdTracker.state.lookup key) := by
  induction l generalizing st with
  | nil => rfl
  | cons rule l ih =>
    have hv := (pass.applyRule_round m st rule).view
    have ht : pass.touch m (pass.applyRule m st rule).flowTable key =
        pass.touch m st.flowTable key := by
      funext entry r
      simp only [touch, evaluates_congr hv]
    rw [List.foldl_cons, ih, ht, applyRule_lookup, List.foldl_cons]

theorem thresholdKey_sid {pass : Pass} (h : pass.thresholdKey rule = some key) :
    key.1 = rule.sid.getD 0 := by
  simp only [thresholdKey, Option.bind_eq_some_iff, Option.map_eq_some_iff] at h
  obtain ⟨config, -, ip, -, rfl⟩ := h
  rfl

theorem touch_of_sid_ne {pass : Pass} (h : rule.sid.getD 0 ≠ key.1) :
    pass.touch m flowTable key entry rule = entry := by
  rw [touch]
  split
  · rfl
  · rw [if_neg fun hk => h (thresholdKey_sid hk.2).symm]

theorem raises_applyRule {pass : Pass} (h : rule.sid.getD 0 ≠ other.sid.getD 0) :
    pass.raises m (pass.applyRule m st rule).flowTable (pass.applyRule m st rule).thresholdTracker
        other =
      pass.raises m st.flowTable st.thresholdTracker other := by
  rw [raises, raises, evaluates_congr (pass.applyRule_round m st rule).view,
    checkThreshold_congr fun key hk => ?_]
  rw [applyRule_lookup, touch_of_sid_ne]
  rw [thresholdKey_sid hk]
  exact h

def summaryOf (pass : Pass) (rule : CompiledRule) : AlertSummary := (pass.buildAlert rule 0).summary

/-- The alerts of a loop over rules with distinct ids are decided by the state at its start. -/
theorem foldl_summaries (m : Matchers) (pass : Pass) {l : List CompiledRule}
    (hl : (l.map fun rule => rule.sid.getD 0).Nodup) (st : PassState) :
    (l.foldl (pass.applyRule m) st).alerts.map IdsAlert.summary =
      st.alerts.map IdsAlert.summary ++
        (l.filter (pass.raises m st.flowTable st.thresholdTracker)).map pass.summaryOf := by
  induction l generalizing st with
  | nil => exact (List.append_nil _).symm
  | cons rule l ih =>
    rw [List.map_cons, List.nodup_cons] at hl
    have hc : l.filter (pass.raises m (pass.applyRule m st rule).flowTable
        (pass.applyRule m st rule).thresholdTracker) =
        l.filter (pass.raises m st.flowTable st.thresholdTracker) := by
      apply List.filter_congr
      intro other ho
      apply raises_applyRule
      intro he
      apply hl.1
      rw [he]
      exact List.mem_map_of_mem ho
    rw [List.foldl_cons, ih hl.2, hc, (pass.applyRule_round m st rule).alerts, List.map_append,
      List.append_assoc, List.filter_cons]
    congr 1
    split <;> rfl

end Pass

namespace DetectionEngine

def looped (m : Matchers) (engine : DetectionEngine) (env : Environment) (packet : DecodedPacket)
    (ruleset : CompiledRuleset) (table : FlowTable) (key : FlowKey) (direction : FlowDirection)
    (buffers : StickyBuffers) : PassState :=
  (ruleset.candidateRules packet.payload).foldl
    ((pass env ruleset packet table key direction buffers).applyRule m)
    ⟨table, engine.thresholdTracker, []⟩

theorem detect_prepared {engine : DetectionEngine}
    (hp : engine.prepare env packet = (table, some (key, direction, buffers)))
    (hr : engine.ruleDb.ruleset = some ruleset) :
    engine.detect m env packet =
      ({ engine with
          flowTable := (engine.looped m env packet ruleset table key direction buffers).flowTable
          thresholdTracker :=
            (engine.looped m env packet ruleset table key direction buffers).thresholdTracker },
        sortBySeverity
          (engine.looped m env packet ruleset table key direction buffers).alerts) := by
  have hl := (pass env ruleset packet table key direction buffers).applyCandidates_eq m
    ⟨table, engine.thresholdTracker, []⟩ packet.payload
  simp only [detect, hp, hr, looped]
  exact congrArg (fun st : PassState => (({ engine with
    flowTable := st.flowTable, thresholdTracker := st.thresholdTracker } : DetectionEngine),
    sortBySeverity st.alerts)) hl

theorem detect_untracked {engine : DetectionEngine}
    (hp : engine.prepare env packet = (table, none)) :
    engine.detect m env packet = ({ engine with flowTable := table }, []) := by
  simp only [detect, hp]

def anyEnvironment : Environment where
  choices := FlowTable.anyChoices
  now := 0
  alertId := id
  alertTime := fun _ => 0

end DetectionEngine

namespace Pass

theorem touch_comm {pass : Pass} {l : List CompiledRule}
    (hl : (l.map fun rule => rule.sid.getD 0).Nodup) (hx : x ∈ l) (hy : y ∈ l) :
    pass.touch m flowTable key (pass.touch m flowTable key entry x) y =
      pass.touch m flowTable key (pass.touch m flowTable key entry y) x := by
  by_cases hxk : x.sid.getD 0 = key.1
  · by_cases hyk : y.sid.getD 0 = key.1
    · have he : x = y := List.inj_on_of_nodup_map hl hx hy (hxk.trans hyk.symm)
      rw [he]
    · rw [touch_of_sid_ne hyk, touch_of_sid_ne hyk]
  · rw [touch_of_sid_ne hxk, touch_of_sid_ne hxk]

theorem foldl_perm (m : Matchers) (pass : Pass) {l l' : List CompiledRule} (hp : l.Perm l')
    (hl : (l.map fun rule => rule.sid.getD 0).Nodup) (flowTable : FlowTable)
    (tracker : ThresholdTracker) :
    ((l.foldl (pass.applyRule m) ⟨flowTable, tracker, []⟩).alerts.map IdsAlert.summary).Perm
        ((l'.foldl (pass.applyRule m) ⟨flowTable, tracker, []⟩).alerts.map IdsAlert.summary) ∧
      ∀ key,
        (l.foldl (pass.applyRule m) ⟨flowTable, tracker, []⟩).thresholdTracker.state.lookup key =
          (l'.foldl (pass.applyRule m)
            ⟨flowTable, tracker, []⟩).thresholdTracker.state.lookup key := by
  have hl' := (hp.map fun rule => rule.sid.getD 0).nodup_iff.mp hl
  constructor
  · rw [pass.foldl_summaries m hl, pass.foldl_summaries m hl']
    exact ((hp.filter _).map _).append_left _
  · intro key
    rw [pass.foldl_lookup, pass.foldl_lookup]
    exact hp.foldl_eq' (fun x hx y hy _ => touch_comm hl hx hy) _

end Pass

namespace DetectionEngine

def withRules (m : Matchers) (engine : DetectionEngine) (rules : List CompiledRule) :
    DetectionEngine :=
  { engine with ruleDb := engine.ruleDb.loadRules m rules }

theorem applyRule_ruleset (hm : m.Lawful) (rules rules' : List CompiledRule) :
    (pass env (.build m rules) packet table key direction buffers).applyRule m =
      (pass env (.build m rules') packet table key direction buffers).applyRule m := by
  funext st rule
  have he : ∀ l, (pass env (.build m l) packet table key direction buffers).evaluates m
      st.flowTable rule = evaluateRule m none rule packet (st.flowTable.get key) direction
        buffers := fun l => evaluateRule_build hm l
  simp only [Pass.applyRule, he]
  rfl

theorem nodup_getD_sid {rules : List CompiledRule} (hsome : ∀ rule ∈ rules, rule.sid.isSome)
    (hsid : (rules.map CompiledRule.sid).Nodup) :
    (rules.map fun rule => rule.sid.getD 0).Nodup := by
  apply List.Nodup.map_on _ hsid.of_map
  intro x hx y hy he
  obtain ⟨a, ha⟩ := Option.isSome_iff_exists.mp (hsome x hx)
  obtain ⟨b, hb⟩ := Option.isSome_iff_exists.mp (hsome y hy)
  rw [ha, hb, Option.getD_some, Option.getD_some] at he
  apply List.inj_on_of_nodup_map hsid hx hy
  rw [ha, hb, he]

/-- Rules with distinct sids give the same alerts and threshold state in whatever order they are
loaded. -/
theorem detect_rule_order {rules rules' : List CompiledRule} (hm : m.Lawful)
    (hb : CompiledRuleset.Builds m rules) (hb' : CompiledRuleset.Builds m rules')
    (hp : rules.Perm rules') (hsome : ∀ rule ∈ rules, rule.sid.isSome)
    (hsid : (rules.map CompiledRule.sid).Nodup) (engine : DetectionEngine) (env : Environment)
    (packet : DecodedPacket) :
    (((engine.withRules m rules).detect m env packet).2.map IdsAlert.summary).Perm
        (((engine.withRules m rules').detect m env packet).2.map IdsAlert.summary) ∧
      ((engine.withRules m rules).detect m env packet).1.thresholdTracker.state.entries.Perm
        ((engine.withRules m rules').detect m env packet).1.thresholdTracker.state.entries := by
  have hprep : ∀ l, (engine.withRules m l).prepare env packet = engine.prepare env packet :=
    fun _ => rfl
  rcases hprepared : engine.prepare env packet with ⟨table, found⟩
  cases found with
  | none =>
    rw [detect_untracked ((hprep rules).trans hprepared),
      detect_untracked ((hprep rules').trans hprepared)]
    exact ⟨.refl _, .refl _⟩
  | some prepared =>
    obtain ⟨key, direction, buffers⟩ := prepared
    have hcand := ((CompiledRuleset.candidateRules_perm hm hb packet.payload).trans
      (hp.filter _)).trans (CompiledRuleset.candidateRules_perm hm hb' packet.payload).symm
    have hnodup : (((CompiledRuleset.build m rules).candidateRules packet.payload).map
        fun rule => rule.sid.getD 0).Nodup := by
      rw [((CompiledRuleset.candidateRules_perm hm hb packet.payload).map _).nodup_iff]
      exact (nodup_getD_sid hsome hsid).sublist (List.filter_sublist.map _)
    obtain ⟨halerts, hlookup⟩ := (pass env (.build m rules) packet table key direction
      buffers).foldl_perm m hcand hnodup table engine.thresholdTracker
    rw [detect_prepared ((hprep rules).trans hprepared) rfl,
      detect_prepared ((hprep rules').trans hprepared) rfl]
    simp only [looped]
    rw [applyRule_ruleset hm rules' rules]
    constructor
    · exact (((List.perm_insertionSort _ _).map _).trans halerts).trans
        ((List.perm_insertionSort _ _).map _).symm
    · apply List.lookup_ext (AList.nodupKeys _) (AList.nodupKeys _)
      intro k v
      have hk := hlookup k
      exact Eq.to_iff (congrArg (v ∈ ·) hk)

def evilRule : CompiledRule := makeRule 1 [.text "evil".toUTF8.toList] "Rule 1"

def badRule : CompiledRule := makeRule 2 [.text "bad".toUTF8.toList] "Rule 2"

theorem detect_rule_order_swap :
    let engine := new .new (.new 1024) ⟨[]⟩
    (((engine.withRules literalMatchers [evilRule, badRule]).detect literalMatchers anyEnvironment
        (tcpPacket "evil and bad".toUTF8.toList)).2.map IdsAlert.summary).Perm
      (((engine.withRules literalMatchers [badRule, evilRule]).detect literalMatchers anyEnvironment
        (tcpPacket "evil and bad".toUTF8.toList)).2.map IdsAlert.summary) :=
  (detect_rule_order literalMatchers_lawful (literalMatchers_builds _) (literalMatchers_builds _)
    (.swap badRule evilRule []) (by decide) (by decide) _ anyEnvironment _).1

end DetectionEngine

end AiFw.Ids
