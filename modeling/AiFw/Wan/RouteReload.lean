import AiFw.Lib.Runs
import AiFw.Pf.BlockLogging
import AiFw.Wan.Failover
import AiFw.Wan.RouteWatch

namespace AiFw.Wan
open AiFw.Lib AiFw.Net AiFw.Pf
set_option autoImplicit true

namespace RouteSystem

/-- A reload that has not read the table yet is under way: a call of the daemon is about to
announce, an event waits, or the watcher has taken one. -/
def Due (s : RouteSystem) : Prop :=
  (∃ i c, s.At i c ∧ c.process = .daemon ∧ ∃ gw newState, c.phase = .broadcast gw newState) ∨
    s.shared.queue ≠ [] ∨ s.shared.watcher = .received ∨ s.shared.watcher = .reading

/-- No call is under way, no event waits and the watcher is idle. -/
structure Quiet (s : RouteSystem) : Prop where
  calls : ∀ i c, s.At i c → c.phase = .start ∨ c.phase = .done
  queue : s.shared.queue = []
  watcher : s.shared.watcher = .idle

/-- A state is written that takes no routed gateway across down, or by a call of the daemon that
will announce it, or while a reload is due. -/
def Careful (rules : List Rule) (s : RouteSystem) : RouteEvent → Prop
  | .probe call _ => ∀ c gw newState, s.At call c → c.phase = .update gw newState →
    (∀ r g, Steers rules s.shared.rows r g → g.id = gw.id →
      (g.state = .down ↔ newState = .down)) ∨
    (c.process = .daemon ∧ newState ≠ gw.state) ∨ s.Due
  | .watch _ => True

/-- What the anchor holds, or will hold when the load under way is done. -/
def awaited (s : RouteState) : List (Rule × List Char) :=
  match s.watcher with
  | .loading lines => lines
  | _ => s.anchor

/-- A reload is due, or the table is what the anchor shows. -/
def Followed (rules : List Rule) (s : RouteSystem) : Prop :=
  s.Due ∨ Shows rules (awaited s.shared) s.shared.rows

theorem Followed.shows {s : RouteSystem} (h : s.Followed rules) (hq : s.Quiet) :
    Shows rules s.shared.anchor s.shared.rows := by
  obtain hdue | hshows := h
  · obtain ⟨i, c, hat, _, gw, newState, hphase⟩ | hqueue | hwatch | hwatch := hdue
    · obtain hstart | hdone := hq.calls i c hat
      · rw [hphase] at hstart
        cases hstart
      · rw [hphase] at hdone
        cases hdone
    · exact absurd hq.queue hqueue
    · rw [hq.watcher] at hwatch
      cases hwatch
    · rw [hq.watcher] at hwatch
      cases hwatch
  · rw [awaited, hq.watcher] at hshows
    exact hshows

theorem send_queue (s : RouteState) (event : Uuid × GatewayState) : (s.send event).queue ≠ [] := by
  unfold RouteState.send
  split
  · exact List.append_ne_nil_of_right_ne_nil _ (List.cons_ne_nil _ _)
  · next hfull =>
    intro hnil
    have hlen := congrArg List.length hnil
    rw [List.length_tail, List.length_append, List.length_singleton, Nat.add_sub_cancel,
      List.length_nil] at hlen
    rw [hlen] at hfull
    exact hfull (by decide)

/-- Only the `UPDATE` writes the table. -/
theorem probeStep_rows (sample : Sample) (s : RouteState) (c : ProbeCall) :
    (∃ gw newState, c.phase = .update gw newState ∧
      (probeStep sample s c).1.rows = setState gw.id newState s.rows) ∨
    (probeStep sample s c).1.rows = s.rows := by
  obtain ⟨process, gatewayId, phase⟩ := c
  cases phase with
  | start =>
    simp only [probeStep]
    split <;> exact .inr rfl
  | evaluate gw => exact .inr rfl
  | update gw newState => exact .inl ⟨gw, newState, rfl, rfl⟩
  | broadcast gw newState =>
    cases process with
    | daemon =>
      simp only [probeStep, RouteState.send, if_true]
      split <;> exact .inr rfl
    | api => exact .inr rfl
  | done => exact .inr rfl

theorem probeStep_watcher (sample : Sample) (s : RouteState) (c : ProbeCall) :
    (probeStep sample s c).1.watcher = s.watcher ∧ (probeStep sample s c).1.anchor = s.anchor := by
  obtain ⟨process, gatewayId, phase⟩ := c
  cases phase with
  | start =>
    simp only [probeStep]
    split <;> exact ⟨rfl, rfl⟩
  | evaluate gw => exact ⟨rfl, rfl⟩
  | update gw newState => exact ⟨rfl, rfl⟩
  | broadcast gw newState =>
    cases process with
    | daemon =>
      simp only [probeStep, RouteState.send, if_true]
      split <;> exact ⟨rfl, rfl⟩
    | api => exact ⟨rfl, rfl⟩
  | done => exact ⟨rfl, rfl⟩

/-- A call adds to the channel or leaves it. -/
theorem probeStep_queue (sample : Sample) (s : RouteState) (c : ProbeCall) :
    (probeStep sample s c).1.queue = s.queue ∨ (probeStep sample s c).1.queue ≠ [] := by
  obtain ⟨process, gatewayId, phase⟩ := c
  cases phase with
  | start =>
    simp only [probeStep]
    split <;> exact .inl rfl
  | evaluate gw => exact .inl rfl
  | update gw newState => exact .inl rfl
  | broadcast gw newState =>
    cases process with
    | daemon => exact .inr (send_queue _ _)
    | api => exact .inl rfl
  | done => exact .inl rfl

theorem probeStep_broadcast (hdaemon : c.process = .daemon)
    (hphase : c.phase = .broadcast gw newState) : (probeStep sample s c).1.queue ≠ [] := by
  obtain ⟨process, gatewayId, phase⟩ := c
  cases hdaemon
  cases hphase
  exact send_queue _ _

theorem probeStep_update (hphase : c.phase = .update gw newState) (hnew : newState ≠ gw.state) :
    (probeStep sample s c).2.process = c.process ∧
      (probeStep sample s c).2.phase = .broadcast gw newState := by
  obtain ⟨process, gatewayId, phase⟩ := c
  cases hphase
  exact ⟨rfl, if_pos hnew⟩

theorem Due.probe {s : RouteSystem} (h : s.Due) (e : Nat × Sample) :
    Due (Interleaved.step probeStep s e) := by
  obtain hsame | ⟨p, hp, hshared, hat⟩ := s.step_cases probeStep e
  · rw [hsame]
    exact h
  obtain ⟨i, c, hc, hdaemon, gw, newState, hphase⟩ | hqueue | hwatch := h
  · by_cases hi : e.1 = i
    · rw [hi] at hp
      cases hp.unique hc
      apply Or.inr
      apply Or.inl
      rw [hshared]
      exact probeStep_broadcast hdaemon hphase
    · exact .inl ⟨i, c, (hat i c).mpr (.inr ⟨hi, hc⟩), hdaemon, gw, newState, hphase⟩
  · apply Or.inr
    apply Or.inl
    rw [hshared]
    obtain hsame | hne := probeStep_queue e.2 s.shared p
    · rw [hsame]
      exact hqueue
    · exact hne
  · apply Or.inr
    apply Or.inr
    rw [hshared, (probeStep_watcher e.2 s.shared p).1]
    exact hwatch

theorem Followed.probe {s : RouteSystem} (h : s.Followed rules)
    (hc : Careful rules s (.probe call sample)) :
    Followed rules (Interleaved.step probeStep s (call, sample)) := by
  obtain hdue | hshows := h
  · exact .inl (hdue.probe (call, sample))
  obtain hsame | ⟨p, hp, hshared, hat⟩ := s.step_cases probeStep (call, sample)
  · rw [hsame]
    exact .inr hshows
  obtain ⟨hwatcher, hanchor⟩ := probeStep_watcher sample s.shared p
  have hawaited : awaited (Interleaved.step probeStep s (call, sample)).shared =
      awaited s.shared := by
    rw [hshared, awaited, awaited, hwatcher, hanchor]
  obtain ⟨gw, newState, hphase, hrows⟩ | hrows := probeStep_rows sample s.shared p
  · obtain hside | ⟨hdaemon, hnew⟩ | hdue := hc p gw newState hp hphase
    · apply Or.inr
      rw [hawaited, hshared, hrows]
      exact hshows.setState hside
    · obtain ⟨hprocess, hnext⟩ := probeStep_update hphase hnew
      have hmoved := (hat call _).mpr (.inl ⟨rfl, rfl⟩)
      exact .inl (.inl ⟨call, _, hmoved, hprocess.trans hdaemon, gw, newState, hnext⟩)
    · exact .inl (hdue.probe (call, sample))
  · apply Or.inr
    rw [hawaited, hshared, hrows]
    exact hshows

/-- The watcher reads the table after it has taken the event. -/
theorem Followed.watch {s : RouteSystem} (h : s.Followed rules) (schedules : Schedules)
    (now : LocalTime) : Followed rules { s with shared := s.shared.watch rules schedules now } := by
  cases hwatch : s.shared.watcher with
  | idle =>
    cases hlag : s.shared.lagged with
    | true =>
      have heq : s.shared.watch rules schedules now = { s.shared with lagged := false } := by
        simp only [RouteState.watch, hwatch, hlag, if_true]
      rw [heq]
      exact h
    | false =>
      cases hqueue : s.shared.queue with
      | nil =>
        have heq : s.shared.watch rules schedules now = s.shared := by
          simp only [RouteState.watch, hwatch, hlag, hqueue, Bool.false_eq_true, if_false]
        rw [heq]
        exact h
      | cons event queue =>
        have heq : (s.shared.watch rules schedules now).watcher = .received := by
          simp only [RouteState.watch, hwatch, hlag, hqueue, Bool.false_eq_true, if_false]
        exact .inl (.inr (.inr (.inl heq)))
  | received =>
    cases hrules : hasGatewayRules rules with
    | true =>
      have heq : (s.shared.watch rules schedules now).watcher = .reading := by
        simp only [RouteState.watch, hwatch, hrules, if_true]
      exact .inl (.inr (.inr (.inr heq)))
    | false => exact .inr (shows_of_no_gateway_rules hrules _ _)
  | reading =>
    have heq : s.shared.watch rules schedules now =
        { s.shared with watcher := .loading (loadedLines rules schedules s.shared.rows now) } := by
      simp only [RouteState.watch, hwatch]
    rw [heq]
    exact .inr (shows_loadedLines rules schedules s.shared.rows now)
  | loading lines =>
    have heq : s.shared.watch rules schedules now =
        { s.shared with watcher := .idle, anchor := lines } := by
      simp only [RouteState.watch, hwatch]
    rw [heq]
    obtain hdue | hshows := h
    · obtain hcall | hqueue | hw | hw := hdue
      · exact .inl (.inl hcall)
      · exact .inl (.inr (.inl hqueue))
      · rw [hwatch] at hw
        cases hw
      · rw [hwatch] at hw
        cases hw
    · rw [awaited, hwatch] at hshows
      exact .inr hshows

theorem Followed.step {s : RouteSystem} (h : s.Followed rules) (schedules : Schedules)
    (hc : Careful rules s e) : Followed rules (s.step rules schedules e) := by
  cases e with
  | probe call sample => exact h.probe hc
  | watch now => exact h.watch schedules now

/-- In every run whose careless writes fall into a reload that is due, the anchor shows the stored
states whenever nothing is under way. -/
theorem shows_of_careful (rules : List Rule) (schedules : Schedules) (rows : List ProbedGateway)
    (engines : Process → ProbeEngine) (now : LocalTime) (calls : List (Process × Uuid))
    (events past : List RouteEvent)
    (h : Along (step rules schedules) (Careful rules)
      (fresh rules schedules rows engines now calls) events) (hp : past <+: events)
    (hquiet : Quiet (past.foldl (step rules schedules)
      (fresh rules schedules rows engines now calls))) :
    Shows rules
      (past.foldl (step rules schedules) (fresh rules schedules rows engines now calls)).shared.anchor
      (past.foldl (step rules schedules)
        (fresh rules schedules rows engines now calls)).shared.rows := by
  have hstart : Followed rules (fresh rules schedules rows engines now calls) :=
    .inr (shows_loadedLines rules schedules rows now)
  have hall := h.reaches (Followed rules) (fun s e hs hc => hs.step schedules hc) hstart hp
  exact hall.shows hquiet

/-- A gateway that is down after one failed probe. -/
def strictWan : ProbedGateway where
  id := 11
  interface := "igb1".toList
  nextHop := "192.0.2.1".toList
  state := .up
  thresholds := { defaultThresholds with consecFailDown := 1 }

def viaStrictWan : Rule := { sampleRule with gateway := some (displayUuid 11) }

def noSamples : Process → ProbeEngine := fun _ => ⟨fun _ => {}, fun _ => none⟩

/-- One call, of the given process, is to probe the gateway. -/
def watched (p : Process) : RouteSystem :=
  fresh [viaStrictWan] (fun _ => none) [strictWan] noSamples 0 [(p, 11)]

def failure : RouteEvent := .probe 0 (probeAt 1 false)

def watchedStep : RouteSystem → RouteEvent → RouteSystem := step [viaStrictWan] fun _ => none

def sampled (p : Process) : RouteState :=
  (watched p).shared.setEngine p ((noSamples p).ingest 11 (probeAt 1 false))

theorem step_read (p : Process) : watchedStep (watched p) failure =
    ⟨(watched p).shared, [⟨p, 11, .evaluate strictWan⟩]⟩ := rfl

theorem step_evaluate (p : Process) :
    watchedStep ⟨(watched p).shared, [⟨p, 11, .evaluate strictWan⟩]⟩ failure =
      ⟨sampled p, [⟨p, 11, .update strictWan .down⟩]⟩ := by
  have hdown : evaluateSample (noSamples p) strictWan (probeAt 1 false) = .down := by
    apply Monitor.nextState_of_failures
    rw [Metrics.ingest_consecFail]
    exact Nat.le_refl 1
  have heval : watchedStep ⟨(watched p).shared, [⟨p, 11, .evaluate strictWan⟩]⟩ failure =
      ⟨sampled p, [⟨p, 11, .update strictWan
        (evaluateSample (noSamples p) strictWan (probeAt 1 false))⟩]⟩ := rfl
  rw [heval, hdown]

theorem step_update (p : Process) :
    watchedStep ⟨sampled p, [⟨p, 11, .update strictWan .down⟩]⟩ failure =
      ⟨{ sampled p with rows := [{ strictWan with state := .down }] },
        [⟨p, 11, .broadcast strictWan .down⟩]⟩ := rfl

theorem Careful.of_phase {s : RouteSystem} (hat : s.At 0 c)
    (hphase : ∀ gw newState, c.phase ≠ .update gw newState) : Careful rules s failure := by
  intro c' gw newState hat' hphase'
  cases hat.unique hat'
  exact absurd hphase' (hphase gw newState)

/-- The daemon's own probe fails and its watcher takes the event. -/
def daemonOutage : List RouteEvent := List.replicate 4 failure ++ List.replicate 4 (.watch 0)

theorem careful_daemonOutage :
    Along watchedStep (Careful [viaStrictWan]) (watched .daemon) daemonOutage := by
  refine ⟨.of_phase rfl (fun _ _ h => nomatch h), ?_⟩
  rw [step_read]
  refine ⟨.of_phase rfl (fun _ _ h => nomatch h), ?_⟩
  rw [step_evaluate]
  refine ⟨?_, ?_⟩
  · intro c gw newState hat hphase
    cases Option.some.inj hat
    cases hphase
    exact .inr (.inl ⟨rfl, by decide⟩)
  · rw [step_update]
    exact ⟨.of_phase rfl (fun _ _ h => nomatch h), trivial, trivial, trivial, trivial, trivial⟩

theorem at_single {x : RouteState} (h : Interleaved.At ⟨x, [c₀]⟩ i c) : c = c₀ :=
  List.mem_singleton.mp (List.mem_of_getElem? h)

theorem quiet_daemonOutage : Quiet (daemonOutage.foldl watchedStep (watched .daemon)) := by
  simp only [daemonOutage, List.replicate, List.cons_append, List.nil_append, List.foldl_cons,
    step_read, step_evaluate, step_update]
  refine ⟨?_, rfl, rfl⟩
  intro i c hat
  rw [at_single hat]
  exact .inr rfl

theorem shows_daemonOutage :
    Quiet (daemonOutage.foldl watchedStep (watched .daemon)) ∧
      Shows [viaStrictWan] (daemonOutage.foldl watchedStep (watched .daemon)).shared.anchor
        (daemonOutage.foldl watchedStep (watched .daemon)).shared.rows :=
  ⟨quiet_daemonOutage, shows_of_careful [viaStrictWan] (fun _ => none) [strictWan] noSamples 0
    [(.daemon, 11)] daemonOutage daemonOutage careful_daemonOutage (List.prefix_refl daemonOutage)
    quiet_daemonOutage⟩

/-- The same outage is noticed by the other process first. -/
def apiOutage : List RouteEvent := List.replicate 4 failure

theorem steers_down : Steers [viaStrictWan] [{ strictWan with state := .down }] viaStrictWan
    { strictWan with state := .down } where
  stored := List.mem_singleton.mpr rfl
  active := rfl
  unscheduled := rfl
  names := ⟨displayUuid 11, rfl, by simp [recordOf, strictWan]⟩
  valid := ⟨⟨by decide, by decide⟩, by decide⟩

theorem steers_up : Steers [viaStrictWan] [strictWan] viaStrictWan strictWan where
  stored := List.mem_singleton.mpr rfl
  active := rfl
  unscheduled := rfl
  names := ⟨displayUuid 11, rfl, by simp [recordOf, strictWan]⟩
  valid := ⟨⟨by decide, by decide⟩, by decide⟩

theorem apiOutage_unnoticed : Quiet (apiOutage.foldl watchedStep (watched .api)) ∧
    ¬ Shows [viaStrictWan] (apiOutage.foldl watchedStep (watched .api)).shared.anchor
      (apiOutage.foldl watchedStep (watched .api)).shared.rows := by
  simp only [apiOutage, List.replicate, List.foldl_cons, step_read, step_evaluate, step_update]
  constructor
  · refine ⟨?_, rfl, rfl⟩
    intro i c hat
    rw [at_single hat]
    exact .inr rfl
  · intro h
    have hboot := shows_loadedLines [viaStrictWan] (fun _ => none) [strictWan] 0 _ _ steers_up
    obtain ⟨⟨line, hline⟩, hrouted⟩ := hboot
    have hdown := (h _ _ steers_down).2 line hline
    rw [hrouted line hline, if_pos rfl] at hdown
    cases (Rule.toPfRuleRouted_eq_none_iff viaStrictWan _).mp hdown.symm rfl

end RouteSystem

end AiFw.Wan
