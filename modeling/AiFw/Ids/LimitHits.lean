import AiFw.Ids.CandidateLoop

namespace AiFw.Ids
open AiFw.Net AiFw.Lib
set_option autoImplicit true

def CompiledRule.OwnsSid (rule : CompiledRule) (rules : List CompiledRule) : Prop :=
  rule ∈ rules ∧ rules.countP (fun other => other.sid.getD 0 = rule.sid.getD 0) = 1

def CompiledRule.OthersThan (rule : CompiledRule) (rules : List CompiledRule) : Prop :=
  ∀ other ∈ rules, other.sid.getD 0 ≠ rule.sid.getD 0

theorem CompiledRule.OthersThan.of_countP {rule : CompiledRule}
    (h : rules.countP (fun other => other.sid.getD 0 = rule.sid.getD 0) = 0) :
    rule.OthersThan rules := by
  intro other ho he
  exact absurd (decide_eq_true he) (List.countP_eq_zero.mp h other ho)

theorem CompiledRule.OwnsSid.split {rule : CompiledRule} (h : rule.OwnsSid rules)
    {isCand : CompiledRule → Bool} (hp : l.Perm (rules.filter isCand)) :
    (isCand rule = false ∧ rule.OthersThan l) ∨
      (isCand rule = true ∧ ∃ before after, l = before ++ rule :: after ∧
        rule.OthersThan before ∧ rule.OthersThan after) := by
  have hle : l.countP (fun other => other.sid.getD 0 = rule.sid.getD 0) ≤ 1 := by
    rw [hp.countP_eq, ← h.2]
    exact List.filter_sublist.countP_le
  cases hc : isCand rule with
  | true =>
    right
    have hm : rule ∈ l := hp.mem_iff.mpr (List.mem_filter.mpr ⟨h.1, hc⟩)
    obtain ⟨before, after, rfl⟩ := List.append_of_mem hm
    have hone : (rule :: after).countP (fun other => other.sid.getD 0 = rule.sid.getD 0) =
        after.countP (fun other => other.sid.getD 0 = rule.sid.getD 0) + 1 :=
      List.countP_cons_of_pos (decide_eq_true rfl)
    rw [List.countP_append, hone] at hle
    exact ⟨rfl, before, after, rfl, .of_countP (by omega), .of_countP (by omega)⟩
  | false =>
    refine .inl ⟨rfl, ?_⟩
    intro other ho he
    obtain ⟨hmem, hcand⟩ := List.mem_filter.mp (hp.mem_iff.mp ho)
    have hlen := h.2
    rw [List.countP_eq_length_filter, List.length_eq_one_iff] at hlen
    obtain ⟨only, ho⟩ := hlen
    have h₁ : other ∈ [only] := ho ▸ List.mem_filter.mpr ⟨hmem, decide_eq_true he⟩
    have h₂ : rule ∈ [only] := ho ▸ List.mem_filter.mpr ⟨h.1, decide_eq_true rfl⟩
    rw [List.mem_singleton.mp h₁, ← List.mem_singleton.mp h₂, hc] at hcand
    cases hcand

def alertsOf (rule : CompiledRule) (alerts : List IdsAlert) : Nat :=
  alerts.countP fun alert => alert.signatureId == rule.sid

namespace Pass

variable {pass : Pass} {rule : CompiledRule} {l : List CompiledRule}

theorem applyRule_alertsOf_ne (h : other.sid.getD 0 ≠ rule.sid.getD 0) :
    alertsOf rule (pass.applyRule m st other).alerts = alertsOf rule st.alerts := by
  have hne : (other.sid == rule.sid) = false := beq_eq_false_iff_ne.mpr fun he => h (by rw [he])
  rw [(pass.applyRule_round m st other).alerts, alertsOf, alertsOf, List.countP_append]
  split
  · have hz : [pass.buildAlert other st.alerts.length].countP
        (fun alert => alert.signatureId == rule.sid) = 0 :=
      List.countP_eq_zero.mpr fun alert ha => by
        rw [List.mem_singleton.mp ha]
        exact Bool.eq_false_iff.mp hne
    rw [hz, Nat.add_zero]
  · rfl

theorem applyRule_alertsOf_self :
    alertsOf rule (pass.applyRule m st rule).alerts = alertsOf rule st.alerts +
      if pass.raises m st.flowTable st.thresholdTracker rule then 1 else 0 := by
  rw [(pass.applyRule_round m st rule).alerts, alertsOf, alertsOf, List.countP_append]
  split
  · have ho : [pass.buildAlert rule st.alerts.length].countP
        (fun alert => alert.signatureId == rule.sid) = 1 :=
      List.countP_cons_of_pos (beq_self_eq_true rule.sid)
    rw [ho]
  · rfl

theorem foldl_others (h : rule.OthersThan l) (st : PassState) :
    alertsOf rule (l.foldl (pass.applyRule m) st).alerts = alertsOf rule st.alerts ∧
      pass.raises m (l.foldl (pass.applyRule m) st).flowTable
          (l.foldl (pass.applyRule m) st).thresholdTracker rule =
        pass.raises m st.flowTable st.thresholdTracker rule := by
  induction l generalizing st with
  | nil => exact ⟨rfl, rfl⟩
  | cons other l ih =>
    have ho := h other List.mem_cons_self
    obtain ⟨ha, hr⟩ := ih (fun r hm => h r (List.mem_cons_of_mem _ hm)) (pass.applyRule m st other)
    exact ⟨ha.trans (applyRule_alertsOf_ne ho), hr.trans (raises_applyRule ho)⟩

theorem foldl_touch_others (h : rule.OthersThan l)
    (entry : Option ThresholdState) :
    l.foldl (pass.touch m table (rule.sid.getD 0, ip)) entry = entry := by
  induction l with
  | nil => rfl
  | cons other l ih =>
    rw [List.foldl_cons, touch_of_sid_ne (h other List.mem_cons_self)]
    exact ih fun r hm => h r (List.mem_cons_of_mem _ hm)

theorem foldl_own (m : Matchers) (pass : Pass) (h : rule.OwnsSid rules)
    {isCand : CompiledRule → Bool} (hp : l.Perm (rules.filter isCand)) (table : FlowTable)
    (tracker : ThresholdTracker) (ip : IpAddr) :
    alertsOf rule (l.foldl (pass.applyRule m) ⟨table, tracker, []⟩).alerts =
        (if isCand rule && pass.raises m table tracker rule then 1 else 0) ∧
      (l.foldl (pass.applyRule m) ⟨table, tracker, []⟩).thresholdTracker.state.lookup
          (rule.sid.getD 0, ip) =
        if isCand rule then
          pass.touch m table (rule.sid.getD 0, ip) (tracker.state.lookup (rule.sid.getD 0, ip)) rule
        else tracker.state.lookup (rule.sid.getD 0, ip) := by
  rw [foldl_lookup]
  rcases h.split hp with ⟨hc, ho⟩ | ⟨hc, before, after, rfl, hb, ha⟩
  · rw [hc, (foldl_others ho _).1, foldl_touch_others ho]
    exact ⟨rfl, rfl⟩
  · rw [hc, List.foldl_append, List.foldl_cons, List.foldl_append, List.foldl_cons,
      (foldl_others ha _).1, foldl_touch_others ha, applyRule_alertsOf_self,
      (foldl_others hb _).1, (foldl_others hb _).2, foldl_touch_others hb]
    exact ⟨Nat.zero_add _, rfl⟩

end Pass

/-- What one packet of a run means for a rule: whether it meets the header, content and PCRE
conditions, whether the prefilter offers the rule for it, whether it meets the flowbits isset
conditions, and how many alerts of the rule it raised. -/
structure RuleEvent where
  now : Int
  hit : Bool
  candidate : Bool
  isset : Bool
  alerts : Nat
deriving DecidableEq, Repr

namespace DetectionEngine

def ruleEvent (m : Matchers) (engine : DetectionEngine) (rule : CompiledRule) (env : Environment)
    (packet : DecodedPacket) : RuleEvent :=
  let candidate := rule.isCandidate m packet.payload
  let alerts := alertsOf rule (engine.detect m env packet).2
  match engine.prepare env packet with
  | (_, none) => { now := env.now, hit := false, candidate, isset := false, alerts }
  | (table, some (key, direction, buffers)) =>
    { now := env.now
      hit := evaluateRule m engine.ruleDb.ruleset rule packet (table.get key) direction buffers
      candidate
      isset := flowbitsOk ((table.get key).map Flow.flowbits) rule
      alerts }

def ruleEvents (m : Matchers) (rule : CompiledRule) (config : ThresholdConfig) (ip : IpAddr) :
    DetectionEngine → List (Environment × DecodedPacket) → List RuleEvent
  | _, [] => []
  | engine, (env, packet) :: rest =>
    let events := ruleEvents m rule config ip (engine.detect m env packet).1 rest
    if config.trackedIp packet = some ip then engine.ruleEvent m rule env packet :: events
    else events

theorem detect_ruleDb (m : Matchers) (engine : DetectionEngine) (env : Environment)
    (packet : DecodedPacket) : (engine.detect m env packet).1.ruleDb = engine.ruleDb := by
  rcases hp : engine.prepare env packet with ⟨table, _ | ⟨key, direction, buffers⟩⟩
  · rw [detect_untracked hp]
  · cases hr : engine.ruleDb.ruleset with
    | none => simp only [detect, hp, hr]
    | some ruleset => rw [detect_prepared hp hr]

variable {engine : DetectionEngine} {rule : CompiledRule} {rules : List CompiledRule}
  {config : ThresholdConfig}

theorem detect_alertsOf (m : Matchers) (rule : CompiledRule)
    (hp : engine.prepare env packet = (table, some (key, direction, buffers)))
    (hr : engine.ruleDb.ruleset = some ruleset) :
    alertsOf rule (engine.detect m env packet).2 =
      alertsOf rule (engine.looped m env packet ruleset table key direction buffers).alerts := by
  rw [detect_prepared hp hr]
  exact (List.perm_insertionSort _ _).countP_eq _

def entry (engine : DetectionEngine) (rule : CompiledRule) (ip : IpAddr) : Option ThresholdState :=
  engine.thresholdTracker.state.lookup (rule.sid.getD 0, ip)

theorem detect_entry (m : Matchers) (rule : CompiledRule) (ip : IpAddr)
    (hp : engine.prepare env packet = (table, some (key, direction, buffers)))
    (hr : engine.ruleDb.ruleset = some ruleset) :
    (engine.detect m env packet).1.entry rule ip =
      (engine.looped m env packet ruleset table key direction buffers).thresholdTracker.state.lookup
        (rule.sid.getD 0, ip) := by
  rw [entry, detect_prepared hp hr]

theorem ruleEvent_now : (engine.ruleEvent m rule env packet).now = env.now := by
  rw [ruleEvent]
  split <;> rfl

theorem detect_own (hm : m.Lawful) (hb : CompiledRuleset.Builds m rules)
    (hown : rule.OwnsSid rules) (hthr : rule.threshold = some config)
    (halert : rule.flowbits.contains .noAlert = false)
    (hload : engine.ruleDb.ruleset = some (.build m rules))
    (hip : config.trackedIp packet = some ip)
    (hp : engine.prepare env packet = (table, some (key, direction, buffers))) :
    (engine.ruleEvent m rule env packet).alerts =
        (if (engine.ruleEvent m rule env packet).candidate &&
            ((engine.ruleEvent m rule env packet).hit &&
              (ThresholdState.hit (engine.entry rule ip) (env.now, config)).2 &&
              (engine.ruleEvent m rule env packet).isset) then 1 else 0) ∧
      (engine.detect m env packet).1.entry rule ip =
        if (engine.ruleEvent m rule env packet).candidate then
          if (engine.ruleEvent m rule env packet).hit then
            some (ThresholdState.hit (engine.entry rule ip) (env.now, config)).1
          else engine.entry rule ip
        else engine.entry rule ip := by
  have hip' : config.trackedIp (pass env (.build m rules) packet table key direction
    buffers).packet = some ip := hip
  have hkey : (pass env (.build m rules) packet table key direction buffers).thresholdKey rule =
      some (rule.sid.getD 0, ip) := by
    simp only [Pass.thresholdKey, hthr, Option.bind_some, hip', Option.map_some]
  have hfire : ((pass env (.build m rules) packet table key direction buffers).checkThreshold
      engine.thresholdTracker rule).2 =
        (ThresholdState.hit (engine.entry rule ip) (env.now, config)).2 := by
    simp only [Pass.checkThreshold, hthr, hip']
    rfl
  obtain ⟨ha, hl⟩ := (pass env (.build m rules) packet table key direction buffers).foldl_own m hown
    (CompiledRuleset.candidateRules_perm hm hb packet.payload) table engine.thresholdTracker ip
  simp only [Pass.raises, hfire, halert, Bool.not_false, Bool.and_true] at ha
  simp only [Pass.touch, hthr, hkey, and_true] at hl
  have halerts := (detect_alertsOf m rule hp hload).trans ha
  have hentry := (detect_entry m rule ip hp hload).trans hl
  simp only [ruleEvent, hp, hload]
  exact ⟨halerts, hentry⟩

/-- The step of a run: a hit that the prefilter offers is counted in the entry of the rule and
alerts if the entry fires and the isset conditions hold; any other packet of the address leaves
the entry alone and raises no alert of the rule. -/
theorem ruleEvent_step (hm : m.Lawful) (hb : CompiledRuleset.Builds m rules)
    (hown : rule.OwnsSid rules) (hthr : rule.threshold = some config)
    (halert : rule.flowbits.contains .noAlert = false)
    (hload : engine.ruleDb.ruleset = some (.build m rules))
    (hip : config.trackedIp packet = some ip)
    (hcand : (engine.ruleEvent m rule env packet).hit = true →
      (engine.ruleEvent m rule env packet).candidate = true) :
    (engine.ruleEvent m rule env packet).alerts =
        (if (engine.ruleEvent m rule env packet).hit &&
            ((ThresholdState.hit (engine.entry rule ip) (env.now, config)).2 &&
              (engine.ruleEvent m rule env packet).isset) then 1 else 0) ∧
      (engine.detect m env packet).1.entry rule ip =
        if (engine.ruleEvent m rule env packet).hit then
          some (ThresholdState.hit (engine.entry rule ip) (env.now, config)).1
        else engine.entry rule ip := by
  rcases hp : engine.prepare env packet with ⟨table, _ | ⟨key, direction, buffers⟩⟩
  · simp only [ruleEvent, hp, detect_untracked hp, Bool.false_and, Bool.false_eq_true, if_false]
    exact ⟨rfl, rfl⟩
  · obtain ⟨ha, hl⟩ := detect_own hm hb hown hthr halert hload hip hp
    cases hh : (engine.ruleEvent m rule env packet).hit with
    | false =>
      simp only [hh, Bool.false_and, Bool.and_false, Bool.false_eq_true, if_false, ite_self]
        at ha hl ⊢
      exact ⟨ha, hl⟩
    | true =>
      simp only [hh, hcand hh, Bool.true_and, if_true] at ha hl ⊢
      exact ⟨ha, hl⟩

theorem detect_entry_other (env : Environment) (hm : m.Lawful)
    (hb : CompiledRuleset.Builds m rules)
    (hown : rule.OwnsSid rules) (hthr : rule.threshold = some config)
    (hload : engine.ruleDb.ruleset = some (.build m rules))
    (hip : config.trackedIp packet ≠ some ip) :
    (engine.detect m env packet).1.entry rule ip = engine.entry rule ip := by
  rcases hp : engine.prepare env packet with ⟨table, _ | ⟨key, direction, buffers⟩⟩
  · rw [detect_untracked hp]
    rfl
  · have hkey : (pass env (.build m rules) packet table key direction buffers).thresholdKey rule ≠
        some (rule.sid.getD 0, ip) := by
      intro hk
      simp only [Pass.thresholdKey, hthr, Option.bind_some, Option.map_eq_some_iff, Prod.mk.injEq,
        true_and, exists_eq_right] at hk
      exact hip hk
    obtain ⟨-, hl⟩ := (pass env (.build m rules) packet table key direction buffers).foldl_own m
      hown (CompiledRuleset.candidateRules_perm hm hb packet.payload) table
      engine.thresholdTracker ip
    simp only [Pass.touch, hthr, hkey, and_false, if_false, ite_self] at hl
    exact (detect_entry m rule ip hp hload).trans hl

def alertIf (fire : Bool) (x : RuleEvent) : Nat := if fire && x.isset then 1 else 0

/-- Over a whole run, the hits of the address alert as their entry answers, and no other packet
of the address raises an alert of the rule. -/
theorem ruleEvents_run (hm : m.Lawful) (hb : CompiledRuleset.Builds m rules)
    (hown : rule.OwnsSid rules) (hthr : rule.threshold = some config)
    (halert : rule.flowbits.contains .noAlert = false)
    (hload : engine.ruleDb.ruleset = some (.build m rules))
    (inputs : List (Environment × DecodedPacket))
    (hcand : ∀ x ∈ ruleEvents m rule config ip engine inputs, x.hit = true → x.candidate = true) :
    (∀ x ∈ ruleEvents m rule config ip engine inputs, x.hit = false → x.alerts = 0) ∧
      ((ruleEvents m rule config ip engine inputs).filter RuleEvent.hit).map RuleEvent.alerts =
        List.zipWith alertIf
          (config.entryAnswers RuleEvent.now (engine.entry rule ip)
            ((ruleEvents m rule config ip engine inputs).filter RuleEvent.hit))
          ((ruleEvents m rule config ip engine inputs).filter RuleEvent.hit) := by
  induction inputs generalizing engine with
  | nil =>
    constructor
    · intro x hx
      cases hx
    · rfl
  | cons input rest ih =>
    obtain ⟨env, packet⟩ := input
    have hload' : (engine.detect m env packet).1.ruleDb.ruleset = some (.build m rules) := by
      rw [detect_ruleDb, hload]
    simp only [ruleEvents] at hcand ⊢
    by_cases hip : config.trackedIp packet = some ip
    · simp only [hip, if_true] at hcand ⊢
      have hstep := ruleEvent_step hm hb hown hthr halert hload hip
        (hcand _ List.mem_cons_self)
      obtain ⟨hmiss, hhits⟩ := ih hload' fun x hx => hcand x (List.mem_cons_of_mem _ hx)
      constructor
      · intro x hx hn
        rcases List.mem_cons.mp hx with rfl | hx
        · rw [hstep.1, hn]
          rfl
        · exact hmiss x hx hn
      · cases hh : (engine.ruleEvent m rule env packet).hit with
        | false =>
          rw [hh, if_neg Bool.false_ne_true] at hstep
          rw [List.filter_cons_of_neg (Bool.eq_false_iff.mp hh), hhits, hstep.2]
        | true =>
          rw [hh, if_pos rfl] at hstep
          rw [List.filter_cons_of_pos hh, List.map_cons, hhits, hstep.2, hstep.1,
            ThresholdConfig.entryAnswers_step, ruleEvent_now, List.zipWith_cons_cons]
          rfl
    · simp only [hip, if_false] at hcand ⊢
      rw [← detect_entry_other env hm hb hown hthr hload hip]
      exact ih hload' hcand

/-- Under a limit the first hits of a window get through the threshold, and those of them that
meet the isset conditions alert. -/
theorem sum_zipWith_alertIf (c i : Nat) (w : List RuleEvent) :
    (List.zipWith alertIf ((List.range' (i + 1) w.length).map fun j => decide (j ≤ c)) w).sum =
      (w.take (c - i)).countP RuleEvent.isset := by
  induction w generalizing i with
  | nil => rw [List.take_nil]; rfl
  | cons x w ih =>
    rw [List.length_cons, List.range'_succ, List.map_cons, List.zipWith_cons_cons, List.sum_cons,
      ih]
    by_cases hi : i + 1 ≤ c
    · obtain ⟨k, rfl⟩ := Nat.exists_eq_add_of_le hi
      have hk : i + 1 + k - i = k + 1 := by omega
      have hk' : i + 1 + k - (i + 1) = k := by omega
      rw [hk, hk', List.take_succ_cons, List.countP_cons, alertIf, decide_eq_true hi,
        Bool.true_and, Nat.add_comm]
    · have hz : c - i = 0 := by omega
      have hz' : c - (i + 1) = 0 := by omega
      rw [hz, hz', List.take_zero, List.take_zero, alertIf, decide_eq_false hi]
      rfl

theorem sum_alerts_window (htype : config.thresholdType = .limit) {hits : List RuleEvent}
    (h : hits.map RuleEvent.alerts =
      List.zipWith alertIf (config.entryAnswers RuleEvent.now none hits) hits)
    (hw : ∀ w ∈ timeWindows RuleEvent.now config.seconds.toNat hits, w.length < 2 ^ 32) :
    ∀ w ∈ timeWindows RuleEvent.now config.seconds.toNat hits,
      (w.map RuleEvent.alerts).sum = (w.take config.count.toNat).countP RuleEvent.isset := by
  have hfires : config.fires = fun j => decide (j ≤ config.count.toNat) := by
    funext j
    simp only [ThresholdConfig.fires, htype]
  have hboth : config.thresholdType = .both → 1 ≤ config.count.toNat := by
    intro hb
    rw [htype] at hb
    cases hb
  induction hits using timeWindows.induct RuleEvent.now config.seconds.toNat with
  | case1 =>
    intro w hmem
    rw [timeWindows] at hmem
    cases hmem
  | case2 x xs ih =>
    rw [timeWindows] at hw ⊢
    have hlen := hw _ List.mem_cons_self
    rw [List.length_cons] at hlen
    have hcut : x :: xs = (x :: config.inWindow RuleEvent.now x.now xs) ++
        config.afterWindow RuleEvent.now x.now xs :=
      congrArg (x :: ·) List.takeWhile_append_dropWhile.symm
    rw [ThresholdConfig.entryAnswers_cons hboth hlen, hcut, List.map_append,
      List.zipWith_append
        (by simp only [List.length_map, List.length_range', List.length_cons])] at h
    obtain ⟨hfirst, hrest⟩ := List.append_inj h (by
      simp only [List.length_map, List.length_zipWith, List.length_range', List.length_cons,
        Nat.min_self])
    intro w hmem
    rcases List.mem_cons.mp hmem with rfl | hmem
    · have hsum := sum_zipWith_alertIf config.count.toNat 0
        (x :: config.inWindow RuleEvent.now x.now xs)
      rw [hfires] at hfirst
      exact (congrArg List.sum hfirst).trans hsum
    · exact ih hrest (fun w' hw' => hw w' (List.mem_cons_of_mem _ hw')) w hmem

structure EngineRun where
  flowTable : FlowTable
  registry : ProtocolRegistry
  inputs : List (Environment × DecodedPacket)

def EngineRun.events (m : Matchers) (rules : List CompiledRule) (rule : CompiledRule)
    (config : ThresholdConfig) (ip : IpAddr) (run : EngineRun) : List RuleEvent :=
  ruleEvents m rule config ip
    (new (RuleDatabase.new.loadRules m rules) run.flowTable run.registry) run.inputs

def EngineRun.windows (m : Matchers) (rules : List CompiledRule) (rule : CompiledRule)
    (config : ThresholdConfig) (ip : IpAddr) (run : EngineRun) : List (List RuleEvent) :=
  timeWindows RuleEvent.now config.seconds.toNat
    ((run.events m rules rule config ip).filter RuleEvent.hit)

/-- In every run and every window, a rule with a limit raises as many alerts as its limit allows
for the packets that meet all of its conditions exactly if the packets that use up the limit all
meet its isset conditions, or no later packet of the window does. -/
theorem limit_alerts_iff (hm : m.Lawful) (hb : CompiledRuleset.Builds m rules)
    (hown : rule.OwnsSid rules) (hthr : rule.threshold = some config)
    (htype : config.thresholdType = .limit) (halert : .noAlert ∉ rule.flowbits)
    (ip : IpAddr) (run : EngineRun)
    (hcand : ∀ x ∈ run.events m rules rule config ip, x.hit = true → x.candidate = true)
    (hcount : ∀ w ∈ run.windows m rules rule config ip, w.length < 2 ^ 32) :
    (∀ x ∈ run.events m rules rule config ip, x.hit = false → x.alerts = 0) ∧
      ∀ w ∈ run.windows m rules rule config ip,
        (w.map RuleEvent.alerts).sum = min config.count.toNat (w.countP RuleEvent.isset) ↔
          (∀ x ∈ w.take config.count.toNat, x.isset = true) ∨
            ∀ x ∈ w.drop config.count.toNat, x.isset = false := by
  have halert' : rule.flowbits.contains .noAlert = false := by
    rw [← Bool.not_eq_true, List.contains_iff_mem]
    exact halert
  obtain ⟨hmiss, hhits⟩ := ruleEvents_run hm hb hown hthr halert' rfl run.inputs hcand
  constructor
  · exact hmiss
  · intro w hw
    rw [sum_alerts_window htype hhits hcount w hw]
    exact countP_take_eq_min_iff RuleEvent.isset config.count.toNat w

def oncePerMinute : ThresholdConfig := ⟨.limit, .bySrc, 1, 60⟩

def loginRule : CompiledRule :=
  { makeRule 1 [.text "login".toUTF8.toList] "login" with flowbits := [.set "login"] }

/-- Alerts once a minute about a command on a connection that has logged in. -/
def cmdRule : CompiledRule :=
  { makeRule 2 [.text "cmd".toUTF8.toList] "command" with
    flowbits := [.isSet "login"]
    threshold := some oncePerMinute }

def payloadRun (payloads : List String) : EngineRun where
  flowTable := .new 1024
  registry := ⟨[]⟩
  inputs := payloads.map fun text => (anyEnvironment, tcpPacket text.toUTF8.toList)

/-- The command before the login uses up the limit, so the one after it raises no alert although
it is the only one that meets all conditions. -/
theorem limit_used_up_without_login :
    ∃ w ∈ (payloadRun ["cmd", "login", "cmd"]).windows literalMatchers [loginRule, cmdRule] cmdRule
        oncePerMinute (.v4 0x0A000001),
      (w.map RuleEvent.alerts).sum ≠ min 1 (w.countP RuleEvent.isset) := by
  have hhits : ((payloadRun ["cmd", "login", "cmd"]).events literalMatchers [loginRule, cmdRule]
      cmdRule oncePerMinute (.v4 0x0A000001)).filter RuleEvent.hit =
        [⟨0, true, true, false, 0⟩, ⟨0, true, true, true, 0⟩] := by decide +kernel
  rw [EngineRun.windows, hhits, timeWindows_eq_single (by decide)]
  exact ⟨_, List.mem_cons_self, by decide⟩

theorem limit_alerts_iff_login_first :
    ∃ w ∈ (payloadRun ["login", "cmd", "cmd"]).windows literalMatchers [loginRule, cmdRule] cmdRule
        oncePerMinute (.v4 0x0A000001),
      (w.map RuleEvent.alerts).sum = min 1 (w.countP RuleEvent.isset) := by
  have hevents : (payloadRun ["login", "cmd", "cmd"]).events literalMatchers [loginRule, cmdRule]
      cmdRule oncePerMinute (.v4 0x0A000001) =
        [⟨0, false, false, false, 0⟩, ⟨0, true, true, true, 1⟩, ⟨0, true, true, true, 0⟩] := by
    decide +kernel
  have hwindows : (payloadRun ["login", "cmd", "cmd"]).windows literalMatchers
      [loginRule, cmdRule] cmdRule oncePerMinute (.v4 0x0A000001) =
        [[⟨0, true, true, true, 1⟩, ⟨0, true, true, true, 0⟩]] := by
    rw [EngineRun.windows, hevents]
    exact timeWindows_eq_single (by decide)
  have hthr : cmdRule.threshold = some oncePerMinute := rfl
  have hmem : [⟨0, true, true, true, 1⟩, ⟨0, true, true, true, 0⟩] ∈
      (payloadRun ["login", "cmd", "cmd"]).windows literalMatchers [loginRule, cmdRule] cmdRule
        oncePerMinute (.v4 0x0A000001) := by
    rw [hwindows]
    exact List.mem_cons_self
  refine ⟨_, hmem, ((limit_alerts_iff literalMatchers_lawful (literalMatchers_builds _)
    ⟨List.mem_cons_of_mem _ List.mem_cons_self, by decide⟩ hthr rfl (by decide) (.v4 0x0A000001)
    (payloadRun ["login", "cmd", "cmd"]) (by rw [hevents]; decide)
    (by rw [hwindows]; decide)).2 _ hmem).mpr ?_⟩
  decide

end DetectionEngine

end AiFw.Ids
