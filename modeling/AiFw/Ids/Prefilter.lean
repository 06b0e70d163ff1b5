import AiFw.Ids.Engine
import AiFw.Ids.Ruleset

namespace AiFw.Ids
open AiFw.Lib

set_option autoImplicit true

def CompiledRule.hasPcre (m : Matchers) (rule : CompiledRule) : Bool :=
  rule.pcrePatterns.any fun pcre => (m.regexNew pcre.pattern).isSome

def CompiledRule.FiledUnder (rule : CompiledRule) (pattern : Bytes) : Prop :=
  rule.noPrefilter = false ∧ ∃ c, rule.best = some c ∧ c.prefilterPattern = pattern

def CompiledRule.AlwaysScanned (m : Matchers) (rule : CompiledRule) : Prop :=
  rule.noPrefilter = true ∨ rule.best = none ∧ rule.hasPcre m = false

theorem CompiledRule.best_mem {rule : CompiledRule} (h : rule.best = some c) :
    c ∈ rule.contents ∧ c.negated = false := by
  have hm := maxByKey_mem h
  rw [List.mem_filter, Bool.not_eq_true'] at hm
  exact hm

theorem CompiledRule.best_eq_none {rule : CompiledRule} :
    rule.best = none ↔ ∀ c ∈ rule.contents, c.negated = true := by
  rw [CompiledRule.best, maxByKey_eq_none, List.filter_eq_nil_iff]
  simp only [Bool.not_eq_true', Bool.not_eq_false]

theorem compilePcre_hasContent (m : Matchers) (ruleIdx : Nat) (pcres : List PcrePattern)
    (acc : List (Regex × List Nat) × Bool) :
    (pcres.foldl (compilePcre m ruleIdx) acc).2 =
      (acc.2 || pcres.any fun pcre => (m.regexNew pcre.pattern).isSome) := by
  induction pcres generalizing acc with
  | nil => rw [List.foldl_nil, List.any_nil, Bool.or_false]
  | cons pcre pcres ih =>
    rw [List.foldl_cons, ih, List.any_cons]
    cases h : m.regexNew pcre.pattern with
    | none => simp only [compilePcre, h, Option.isSome_none, Bool.false_or]
    | some re => simp only [compilePcre, h, Option.isSome_some, Bool.true_or, Bool.or_true]

theorem buildStep_noPrefilter {rule : CompiledRule} (h : rule.noPrefilter = true) :
    buildStep m st (rule, k) = { st with noContentRules := st.noContentRules ++ [k] } := by
  simp only [buildStep, h, if_true]

theorem files_buildStep :
    (buildStep m st (rule, k)).contents.Files p i ↔
      st.contents.Files p i ∨ i = k ∧ rule.FiledUnder p := by
  cases hn : rule.noPrefilter with
  | true =>
    rw [buildStep_noPrefilter hn]
    simp only [CompiledRule.FiledUnder, hn, Bool.true_eq_false, false_and, and_false, or_false]
  | false =>
    cases hb : rule.best with
    | none =>
      simp only [buildStep, CompiledRule.FiledUnder, hn, hb, Bool.false_eq_true, if_false,
        reduceCtorEq, false_and, exists_false, and_false, or_false]
    | some c =>
      simp only [buildStep, CompiledRule.FiledUnder, hn, hb, Bool.false_eq_true, if_false,
        Buckets.files_file, Option.some.injEq, exists_eq_left', true_and]
      exact or_congr_right ⟨fun h => ⟨h.2, h.1.symm⟩, fun h => ⟨h.2.symm, h.1⟩⟩

theorem mem_noContentRules_buildStep :
    i ∈ (buildStep m st (rule, k)).noContentRules ↔
      i ∈ st.noContentRules ∨ i = k ∧ rule.AlwaysScanned m := by
  cases hn : rule.noPrefilter with
  | true =>
    rw [buildStep_noPrefilter hn]
    simp only [CompiledRule.AlwaysScanned, hn, true_or, and_true, List.mem_append,
      List.mem_singleton]
  | false =>
    have hc := compilePcre_hasContent m k rule.pcrePatterns (st.regexPatterns, rule.best.isSome)
    simp only [buildStep, CompiledRule.AlwaysScanned, hn, Bool.false_eq_true, if_false, false_or,
      hc]
    cases hb : rule.best with
    | some c =>
      simp only [Option.isSome_some, Bool.true_or, if_true, reduceCtorEq, false_and, and_false,
        or_false]
    | none =>
      cases hp : rule.hasPcre m with
      | true =>
        rw [CompiledRule.hasPcre] at hp
        simp only [hp, Option.isSome_none, Bool.false_or, if_true, Bool.true_eq_false, and_false,
          or_false]
      | false =>
        rw [CompiledRule.hasPcre] at hp
        simp only [hp, Option.isSome_none, Bool.false_or, Bool.false_eq_true, if_false,
          List.mem_append, List.mem_singleton, and_self, and_true]

theorem files_buildState {rules : List CompiledRule} :
    (buildState m rules).contents.Files p i ↔
      ∃ rule, rules[i]? = some rule ∧ rule.FiledUnder p := by
  apply (foldl_zipIdx_gathers (P := fun st : BuildState => st.contents.Files p i)
    (fun _ _ _ => files_buildStep) _ rules).trans
  exact or_iff_right Buckets.not_files_empty

theorem mem_noContentRules_buildState {rules : List CompiledRule} :
    i ∈ (buildState m rules).noContentRules ↔
      ∃ rule, rules[i]? = some rule ∧ rule.AlwaysScanned m := by
  apply (foldl_zipIdx_gathers (P := fun st : BuildState => i ∈ st.noContentRules)
    (fun _ _ _ => mem_noContentRules_buildStep) _ rules).trans
  exact or_iff_right List.not_mem_nil

namespace CompiledRuleset

/-- The automaton for these rules can be built, where one is needed. -/
def Builds (m : Matchers) (rules : List CompiledRule) : Prop :=
  (build m rules).contentPatterns ≠ [] →
    (m.buildAhoCorasick (build m rules).contentPatterns).isSome

def Reports (rs : CompiledRuleset) (payload : Bytes) (i : Nat) : Prop :=
  ∃ ac, rs.contentMatcher = some ac ∧ ∃ j ∈ ac.findOverlappingIter payload,
    ∃ ruleIdxs, rs.contentToRules[j]? = some ruleIdxs ∧ i ∈ ruleIdxs

theorem mem_prefilter_iff {rs : CompiledRuleset} :
    i ∈ rs.prefilter payload ↔ rs.Reports payload i ∨ i ∈ rs.noContentRules := by
  rw [prefilter, mem_foldl_pushNew]
  apply or_congr_left
  cases hc : rs.contentMatcher with
  | none => simp only [Reports, hc, List.not_mem_nil, reduceCtorEq, false_and, exists_false]
  | some ac =>
    simp only [Reports, hc, Option.some.injEq, exists_eq_left']
    rw [foldl_gathers (P := (i ∈ ·)) (Q := fun j => ∃ ruleIdxs,
      rs.contentToRules[j]? = some ruleIdxs ∧ i ∈ ruleIdxs)]
    · exact or_iff_right List.not_mem_nil
    · intro candidates j
      cases hj : rs.contentToRules[j]? with
      | none => simp only [reduceCtorEq, false_and, exists_false, or_false]
      | some ruleIdxs => simp only [mem_foldl_pushNew, Option.some.injEq, exists_eq_left']

theorem nodup_prefilter (rs : CompiledRuleset) (payload : Bytes) :
    (rs.prefilter payload).Nodup := by
  apply nodup_foldl_pushNew
  cases rs.contentMatcher with
  | none => exact List.nodup_nil
  | some ac =>
    apply List.foldlRecOn _ _ List.nodup_nil
    intro candidates hn j _
    cases rs.contentToRules[j]? with
    | none => exact hn
    | some ruleIdxs => exact nodup_foldl_pushNew hn _

theorem Reports.filed {rules : List CompiledRule} (h : (build m rules).Reports payload i) :
    ∃ rule p, rules[i]? = some rule ∧ rule.FiledUnder p := by
  obtain ⟨ac, -, j, -, ruleIdxs, hj, hi⟩ := h
  have hlt : j < (buildState m rules).contents.keys.length := by
    rw [← (buildState m rules).contents.parallel]
    exact (List.getElem?_eq_some_iff.mp hj).1
  obtain ⟨rule, hr, hf⟩ := files_buildState.mp
    ⟨j, ruleIdxs, List.getElem?_eq_getElem hlt, hj, hi⟩
  exact ⟨rule, _, hr, hf⟩

theorem reports_build_iff {rules : List CompiledRule} (hm : m.Lawful) (hb : Builds m rules) :
    (build m rules).Reports payload i ↔
      ∃ rule p, rules[i]? = some rule ∧ rule.FiledUnder p ∧ OccursNocase p payload := by
  constructor
  · rintro ⟨ac, hac, j, hj, ruleIdxs, hv, hi⟩
    simp only [build] at hac
    split at hac
    · cases hac
    · obtain ⟨p, hp, ho⟩ := (hm.reports hac payload j).mp hj
      obtain ⟨rule, hr, hf⟩ := files_buildState.mp ⟨j, ruleIdxs, hp, hv, hi⟩
      exact ⟨rule, p, hr, hf, ho⟩
  · rintro ⟨rule, p, hr, hf, ho⟩
    obtain ⟨j, ruleIdxs, hp, hv, hi⟩ := files_buildState.mpr ⟨rule, hr, hf⟩
    have hne : (build m rules).contentPatterns ≠ [] := List.ne_nil_of_mem (List.mem_of_getElem? hp)
    obtain ⟨ac, hac⟩ := Option.isSome_iff_exists.mp (hb hne)
    refine ⟨ac, ?_, j, (hm.reports hac payload j).mpr ⟨p, hp, ho⟩, ruleIdxs, hv, hi⟩
    exact (if_neg hne).trans hac

end CompiledRuleset

theorem ContentMatch.occurs_prefilterPattern (c : ContentMatch) :
    OccursNocase c.prefilterPattern payload ↔ OccursNocase c.pattern payload := by
  rw [ContentMatch.prefilterPattern]
  split
  · exact occursNocase_lower_iff
  · exact Iff.rfl

/-- Whether a rule is a candidate for a payload depends on the rule alone. -/
def CompiledRule.isCandidate (m : Matchers) (payload : Bytes) (rule : CompiledRule) : Bool :=
  rule.noPrefilter ||
    match rule.best with
    | some c => decide (OccursNocase c.pattern payload)
    | none => !rule.hasPcre m

theorem CompiledRule.isCandidate_iff {rule : CompiledRule} :
    rule.isCandidate m payload = true ↔
      (∃ p, rule.FiledUnder p ∧ OccursNocase p payload) ∨ rule.AlwaysScanned m := by
  rw [CompiledRule.isCandidate, Bool.or_eq_true]
  cases hn : rule.noPrefilter with
  | true => simp only [CompiledRule.AlwaysScanned, hn, true_or, or_true]
  | false =>
    cases hb : rule.best with
    | none =>
      simp only [CompiledRule.AlwaysScanned, CompiledRule.FiledUnder, hn, hb, Bool.false_eq_true,
        Bool.not_eq_true', reduceCtorEq, false_and, exists_false, and_false, true_and, false_or]
    | some c =>
      simp only [CompiledRule.AlwaysScanned, CompiledRule.FiledUnder, hn, hb, Bool.false_eq_true,
        decide_eq_true_eq, reduceCtorEq, false_and, false_or, or_false, true_and,
        Option.some.injEq, exists_eq_left', c.occurs_prefilterPattern]

/-- The candidates for a payload are exactly the positions of the rules that qualify by
themselves. -/
theorem CompiledRuleset.mem_prefilter_build {rules : List CompiledRule} (hm : m.Lawful)
    (hb : Builds m rules) : i ∈ (build m rules).prefilter payload ↔
      ∃ rule, rules[i]? = some rule ∧ rule.isCandidate m payload = true := by
  rw [mem_prefilter_iff, reports_build_iff hm hb]
  apply (or_congr_right mem_noContentRules_buildState).trans
  simp only [CompiledRule.isCandidate_iff]
  constructor
  · intro h
    obtain ⟨rule, p, hr, hf, ho⟩ | ⟨rule, hr, hs⟩ := h
    · exact ⟨rule, hr, .inl ⟨p, hf, ho⟩⟩
    · exact ⟨rule, hr, .inr hs⟩
  · intro h
    obtain ⟨rule, hr, ⟨p, hf, ho⟩ | hs⟩ := h
    · exact .inl ⟨rule, p, hr, hf, ho⟩
    · exact .inr ⟨rule, hr, hs⟩

def Compiled (m : Matchers) (regexes : List (Regex × List Nat)) : Prop :=
  ∀ re ∈ regexes.map Prod.fst, ∃ pattern, m.regexNew pattern = some re

theorem map_fst_modify (regexes : List (Regex × List Nat)) (i ruleIdx : Nat) :
    (regexes.modify i fun r => (r.1, r.2 ++ [ruleIdx])).map Prod.fst = regexes.map Prod.fst := by
  apply List.ext_getElem?
  intro j
  rw [List.getElem?_map, List.getElem?_map, List.getElem?_modify]
  cases regexes[j]? with
  | none => rfl
  | some r =>
    by_cases hi : i = j <;>
      simp only [hi, if_true, if_false, Option.map_eq_map, Option.map_some]

theorem Compiled.push (h : Compiled m regexes) (hre : m.regexNew pattern = some re) :
    Compiled m (pushRegex regexes pattern re ruleIdx) := by
  rw [pushRegex]
  split
  · rw [Compiled, map_fst_modify]
    exact h
  · intro re' hm
    rw [List.map_append, List.mem_append] at hm
    rcases hm with hm | hm
    · exact h re' hm
    · rw [List.map_singleton, List.mem_singleton] at hm
      subst re'
      exact ⟨pattern, hre⟩

theorem Compiled.compilePcre {acc : List (Regex × List Nat) × Bool} (h : Compiled m acc.1) :
    Compiled m (compilePcre m ruleIdx acc pcre).1 := by
  simp only [AiFw.Ids.compilePcre]
  split
  next re hre => exact h.push hre
  next => exact h

theorem Compiled.buildStep {st : BuildState} (h : Compiled m st.regexPatterns) :
    Compiled m (buildStep m st entry).regexPatterns := by
  obtain ⟨rule, ruleIdx⟩ := entry
  cases hn : rule.noPrefilter with
  | true =>
    rw [buildStep_noPrefilter hn]
    exact h
  | false =>
    simp only [AiFw.Ids.buildStep, hn, Bool.false_eq_true, if_false]
    exact List.foldlRecOn (motive := fun acc : List (Regex × List Nat) × Bool => Compiled m acc.1)
      rule.pcrePatterns _ h fun _ hacc _ _ => hacc.compilePcre

theorem compiled_build (m : Matchers) (rules : List CompiledRule) :
    Compiled m (CompiledRuleset.build m rules).regexPatterns :=
  List.foldlRecOn (motive := fun st : BuildState => Compiled m st.regexPatterns)
    rules.zipIdx _ (fun _ hre => by cases hre) fun _ hst _ _ => hst.buildStep

/-- Reference matchers: every pattern is searched for by itself, and an expression stands for
its own text, as one without metacharacters does. -/
def literalMatchers : Matchers where
  buildAhoCorasick patterns := some ⟨fun data => (List.range patterns.length).filter fun i =>
    (patterns[i]?).any fun p => decide (OccursNocase p data)⟩
  regexNew pattern := some ⟨pattern, fun text => decide (pattern.toList <:+: text)⟩

theorem literalMatchers_lawful : literalMatchers.Lawful where
  reports := by
    intro patterns ac h data i
    cases h
    simp only [List.mem_filter, List.mem_range, Option.any_eq_true, decide_eq_true_eq]
    constructor
    · rintro ⟨-, p, hp, ho⟩
      exact ⟨p, hp, ho⟩
    · rintro ⟨p, hp, ho⟩
      exact ⟨(List.getElem?_eq_some_iff.mp hp).1, p, hp, ho⟩
  asStr_new := by
    intro pattern re h
    cases h
    rfl

theorem literalMatchers_builds (rules : List CompiledRule) :
    CompiledRuleset.Builds literalMatchers rules := fun _ => rfl

open AiFw.Net

theorem evaluateRule_content (h : evaluateRule m loaded rule packet flow direction buffers = true)
    (hc : c ∈ rule.contents) :
    (contentMatch c (contentData packet flow direction buffers c.buffer) != c.negated) = true := by
  simp only [evaluateRule, Bool.and_eq_true, List.all_eq_true] at h
  exact h.1.2 c hc

namespace CompiledRuleset

/-- The prefilter loses no match of a rule whose positive contents are all about the payload,
and always offers the rules it has nothing to look for. -/
theorem prefilter_sound {rules : List CompiledRule} (hm : m.Lawful) (hb : Builds m rules)
    (hr : rules[i]? = some rule) :
    ((∃ c ∈ rule.contents, c.negated = false) →
      (∀ c ∈ rule.contents, c.negated = false → c.buffer = none) →
      ∀ loaded packet flow direction buffers,
        evaluateRule m loaded rule packet flow direction buffers = true →
        i ∈ (build m rules).prefilter packet.payload) ∧
    ((∀ c ∈ rule.contents, c.negated = true) → rule.hasPcre m = false →
      ∀ payload, i ∈ (build m rules).prefilter payload) := by
  simp only [mem_prefilter_build hm hb, hr, Option.some.injEq, exists_eq_left',
    CompiledRule.isCandidate, Bool.or_eq_true]
  constructor
  · intro hpos hbuf loaded packet flow direction buffers he
    right
    cases hbest : rule.best with
    | none =>
      obtain ⟨c, hc, hn⟩ := hpos
      rw [CompiledRule.best_eq_none.mp hbest c hc] at hn
      cases hn
    | some c =>
      obtain ⟨hc, hn⟩ := CompiledRule.best_mem hbest
      have hmatch := evaluateRule_content he hc
      rw [hn, hbuf c hc hn, Bool.bne_false] at hmatch
      exact decide_eq_true (occursNocase_of_contentMatch hmatch)
  · intro hneg hpcre payload
    right
    rw [CompiledRule.best_eq_none.mpr hneg, hpcre]
    rfl

def plainRules : List CompiledRule :=
  [makeRule 1 [{ ContentMatch.text "EVIL".toUTF8.toList with nocase := true }] "evil",
    makeRule 2 [] "anything"]

def trackedFlow (payloads : List Bytes) : Option Flow :=
  ((FlowTable.new 1024).run (payloads.map fun payload =>
    .track FlowTable.anyChoices (tcpPacket payload))).get
      (.fromPacket (.v4 0x0A000001) (.v4 0x0A000002) 12345 80 6)

theorem prefilter_sound_plain :
    0 ∈ (build literalMatchers plainRules).prefilter "be evil".toUTF8.toList ∧
      1 ∈ (build literalMatchers plainRules).prefilter [] :=
  ⟨(prefilter_sound literalMatchers_lawful (literalMatchers_builds _) (i := 0) rfl).1
      (by decide) (by decide) none (tcpPacket "be evil".toUTF8.toList)
      (trackedFlow ["be evil".toUTF8.toList]) .toServer ∅ (by decide +kernel),
    (prefilter_sound literalMatchers_lawful (literalMatchers_builds _) (i := 1) rfl).2
      (by decide) (by decide) []⟩

/-- A rule that only has expressions is offered exactly if it opted out of the prefilter: the
rules listed with the compiled expressions are never looked up. -/
theorem pcre_only_candidate_iff {rules : List CompiledRule} (hr : rules[i]? = some rule)
    (hneg : ∀ c ∈ rule.contents, c.negated = true) (hpcre : rule.hasPcre m = true)
    (_he : evaluateRule m loaded rule packet flow direction buffers = true) :
    i ∈ (build m rules).prefilter packet.payload ↔ rule.noPrefilter = true := by
  have hbest := CompiledRule.best_eq_none.mpr hneg
  rw [mem_prefilter_iff]
  constructor
  · rintro (hrep | hscan)
    · obtain ⟨rule', p, hr', -, c, hc, -⟩ := hrep.filed
      cases Option.some.inj (hr.symm.trans hr')
      rw [hbest] at hc
      cases hc
    · obtain ⟨rule', hr', hs⟩ := mem_noContentRules_buildState.mp hscan
      cases Option.some.inj (hr.symm.trans hr')
      rcases hs with hs | ⟨-, hs⟩
      · exact hs
      · rw [hpcre] at hs
        cases hs
  · intro hn
    exact .inr (mem_noContentRules_buildState.mpr ⟨rule, hr, .inl hn⟩)

def pcreRule : CompiledRule :=
  { makeRule 1 [] "evil" with pcrePatterns := [⟨"evil", false, none⟩] }

/-- The parsers leave `no_prefilter` off for a rule with an expression, so its matches are
lost. -/
theorem pcre_only_match_lost :
    evaluateRule literalMatchers (some (build literalMatchers [pcreRule])) pcreRule
        (tcpPacket "be evil".toUTF8.toList) (trackedFlow ["be evil".toUTF8.toList])
        .toServer ∅ = true ∧
      (∀ c ∈ pcreRule.contents, c.negated = true) ∧ pcreRule.hasPcre literalMatchers = true ∧
      0 ∉ (build literalMatchers [pcreRule]).prefilter "be evil".toUTF8.toList := by
  refine ⟨by decide +kernel, by decide, by decide +kernel, by decide +kernel⟩

def scannedPcreRule : CompiledRule := { pcreRule with noPrefilter := true }

theorem pcre_only_candidate_iff_evil :
    0 ∈ (build literalMatchers [scannedPcreRule]).prefilter "be evil".toUTF8.toList := by
  have hmatch : evaluateRule literalMatchers none scannedPcreRule
      (tcpPacket "be evil".toUTF8.toList) (trackedFlow ["be evil".toUTF8.toList]) .toServer ∅ =
        true := by decide +kernel
  have hrule : [scannedPcreRule][0]? = some scannedPcreRule := rfl
  exact (pcre_only_candidate_iff hrule (by decide) (by decide +kernel) hmatch).mpr rfl

/-- A rule with buffer contents is offered exactly if it opted out of the prefilter or its
pattern lies in the packet itself; where the buffer got its bytes from does not matter. -/
theorem buffer_content_candidate_iff {rules : List CompiledRule} (hm : m.Lawful)
    (hb : Builds m rules) (hr : rules[i]? = some rule)
    (hpos : ∃ c ∈ rule.contents, c.negated = false)
    (_hbuf : ∀ c ∈ rule.contents, c.negated = false → c.buffer.isSome)
    (_he : evaluateRule m loaded rule packet flow direction buffers = true) :
    i ∈ (build m rules).prefilter packet.payload ↔
      rule.noPrefilter = true ∨
        ∃ c, rule.best = some c ∧ OccursNocase c.pattern packet.payload := by
  simp only [mem_prefilter_build hm hb, hr, Option.some.injEq, exists_eq_left',
    CompiledRule.isCandidate, Bool.or_eq_true]
  cases hbest : rule.best with
  | none =>
    obtain ⟨c, hc, hn⟩ := hpos
    rw [CompiledRule.best_eq_none.mp hbest c hc] at hn
    cases hn
  | some c => simp only [decide_eq_true_eq, Option.some.injEq, exists_eq_left']

def uriRule : CompiledRule :=
  makeRule 1 [{ ContentMatch.text "evil".toUTF8.toList with buffer := some "http.uri" }] "evil"

theorem split_buffer_match_lost :
    evaluateRule literalMatchers (some (build literalMatchers [uriRule])) uriRule
        (tcpPacket "il".toUTF8.toList)
        (trackedFlow ["ev".toUTF8.toList, "il".toUTF8.toList]) .toServer ∅ = true ∧
      (∃ c ∈ uriRule.contents, c.negated = false) ∧
      (∀ c ∈ uriRule.contents, c.negated = false → c.buffer.isSome) ∧
      0 ∉ (build literalMatchers [uriRule]).prefilter "il".toUTF8.toList := by
  refine ⟨by decide +kernel, by decide, by decide, by decide +kernel⟩

theorem buffer_content_candidate_iff_uri :
    0 ∈ (build literalMatchers [uriRule]).prefilter "evil".toUTF8.toList := by
  have hmatch : evaluateRule literalMatchers none uriRule (tcpPacket "evil".toUTF8.toList)
      (trackedFlow ["evil".toUTF8.toList]) .toServer ∅ = true := by decide +kernel
  have hrule : [uriRule][0]? = some uriRule := rfl
  refine (buffer_content_candidate_iff literalMatchers_lawful (literalMatchers_builds _) hrule
    (by decide) (by decide) hmatch).mpr (.inr ⟨_, rfl, ?_⟩)
  decide +kernel

end CompiledRuleset

end AiFw.Ids
