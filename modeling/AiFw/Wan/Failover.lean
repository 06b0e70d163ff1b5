import AiFw.Wan.Gateway
import Mathlib.Data.List.Chain

namespace AiFw.Wan
open AiFw.Lib
set_option autoImplicit true

def instants (samples : List Sample) : List Nat :=
  samples.flatMap fun s => [s.checkedAt, s.storedAt]

/-- Probe outcomes fed in with a clock that does not run backwards. -/
structure TimedRun where
  samples : List Sample
  clock : (instants samples).Pairwise (· ≤ ·)

def holdDown (t : Thresholds) : Nat := t.dampeningSecs.toNat * 10 ^ 9

/-- Any change but one to down comes a hold-down after the change before it. -/
def Spaced (t : Thresholds) (e e' : GatewayEvent) : Prop :=
  e'.toState ≠ .down → e.at_ + holdDown t ≤ e'.at_

/-- Events that lead from one state to another, each from where the one before it ended. -/
def EventChain : GatewayState → List GatewayEvent → GatewayState → Prop
  | start, [], final => start = final
  | start, e :: es, final =>
    e.fromState = start ∧ e.toState ≠ start ∧ EventChain e.toState es final

/-- A sample records an event, of the old and the new state, exactly if it changes the state. -/
def Recorded (before after : Monitor) (now : Nat) : Prop :=
  if after.state = before.state then after.events = before.events
  else after.events = before.events ++ [⟨now, before.state, after.state⟩]

theorem EventChain.concat (h : EventChain start es final) (hfrom : e.fromState = final)
    (hne : e.toState ≠ final) : EventChain start (es ++ [e]) e.toState := by
  induction es generalizing start with
  | nil =>
    cases h
    exact ⟨hfrom, hne, rfl⟩
  | cons e' es ih => exact ⟨h.1, h.2.1, ih h.2.2⟩

namespace Monitor
variable {t : Thresholds} {m : Monitor} {s : Sample}

theorem injectSample_recorded (t : Thresholds) (m : Monitor) (s : Sample) :
    Recorded m (m.injectSample t s) s.storedAt := by
  rw [Recorded, injectSample_state]
  split
  · next h => rw [injectSample_unchanged h]
  · next h => rw [injectSample_changed h]

theorem run_eventChain (t : Thresholds) (start : GatewayState) (l : List Sample) :
    EventChain start (run t start l).events (run t start l).state := by
  induction l using List.reverseRecOn with
  | nil => exact rfl
  | append_singleton l s ih =>
    rw [run_concat]
    by_cases h : (run t start l).nextState t s = (run t start l).state
    · rw [injectSample_unchanged h]
      exact ih
    · rw [injectSample_changed h]
      exact ih.concat rfl h

theorem held_down (t : Thresholds) (m : Monitor) (now : Nat) : m.held t now .down = false := by
  unfold held
  cases m.lastTransition <;> rfl

theorem nextState_of_failures
    (h : t.consecFailDown.toNat ≤ (m.metrics.ingest s.toProbeOutcome).consecFail) :
    m.nextState t s = .down := by
  have heval : evaluateTransition m.state (m.metrics.ingest s.toProbeOutcome) t = .down :=
    if_pos h
  simp only [nextState, heval, held_down, Bool.false_eq_true, and_false, if_false]

theorem run_down_of_failures (hfail : 1 ≤ t.consecFailDown.toNat) (start : GatewayState)
    (h : EndsIn (fun s => !s.success) t.consecFailDown.toNat l) :
    (run t start l).state = .down := by
  have hcount : t.consecFailDown.toNat ≤ (run t start l).metrics.consecFail := by
    rw [run_consecFail]
    exact (le_min_streak_iff _ (Nat.le_pred_of_lt t.consecFailDown.toNat_lt) l).mpr h
  cases l using List.reverseRecOn with
  | nil => exact absurd (hfail.trans hcount) (Nat.not_succ_le_zero 0)
  | append_singleton l s =>
    rw [run_concat] at hcount ⊢
    rw [injectSample_metrics] at hcount
    rw [injectSample_state]
    exact nextState_of_failures hcount

/-- The engine's record of the last transition is the instant of the last event. -/
structure Timed (t : Thresholds) (seen : List Nat) (m : Monitor) : Prop where
  last : m.lastTransition = m.events.getLast?.map GatewayEvent.at_
  past : ∀ now ∈ m.lastTransition, now ∈ seen
  spaced : m.events.IsChain (Spaced t)

theorem nextState_held (h : m.nextState t s ≠ m.state) :
    m.held t s.checkedAt (m.nextState t s) = false := by
  simp only [nextState] at h ⊢
  split at h
  · exact absurd rfl h
  · next hn =>
    rw [if_neg hn]
    exact Bool.eq_false_iff.mpr fun hheld => hn ⟨h, hheld⟩

theorem spaced_of_not_held (hlast : m.lastTransition = some e.at_) (hclock : e.at_ ≤ now)
    (hheld : m.held t now e'.toState = false) (hnow : now ≤ e'.at_) : Spaced t e e' := by
  intro hne
  rw [held, hlast, Option.any_some, dampeningHolds, decide_eq_true hne, Bool.true_and,
    decide_eq_false_iff_not] at hheld
  unfold holdDown
  omega

theorem timed_injectSample (h : m.Timed t seen) (hclock : ∀ now ∈ seen, now ≤ s.checkedAt)
    (hs : s.checkedAt ≤ s.storedAt) :
    (m.injectSample t s).Timed t (seen ++ [s.checkedAt, s.storedAt]) := by
  by_cases hc : m.nextState t s = m.state
  · rw [injectSample_unchanged hc]
    exact ⟨h.last, fun now hnow => List.mem_append_left _ (h.past now hnow), h.spaced⟩
  · rw [injectSample_changed hc]
    refine ⟨by rw [List.getLast?_concat]; rfl, ?_, ?_⟩
    · intro now hnow
      cases hnow
      simp
    · rw [List.isChain_append]
      refine ⟨h.spaced, List.isChain_singleton _, ?_⟩
      intro e he e' he'
      cases he'
      have hlast : m.lastTransition = some e.at_ := by
        rw [h.last, he]
        rfl
      exact spaced_of_not_held hlast (hclock _ (h.past _ hlast)) (nextState_held hc) hs

theorem run_timed (t : Thresholds) (start : GatewayState) (hl : (instants l).Pairwise (· ≤ ·)) :
    (run t start l).Timed t (instants l) := by
  induction l using List.reverseRecOn with
  | nil =>
    refine ⟨rfl, ?_, .nil⟩
    rintro now ⟨⟩
  | append_singleton l s ih =>
    rw [instants, List.flatMap_append, List.pairwise_append] at hl
    obtain ⟨hl, hs, hcross⟩ := hl
    rw [run_concat, instants, List.flatMap_append]
    apply timed_injectSample (ih hl)
    · intro now hnow
      exact hcross now hnow _ (by simp)
    · simpa using hs

end Monitor

/-- However a link flaps, a gateway is down after enough failures in a row, every other change
keeps the hold-down, and the events tell the changes one by one. -/
theorem failover_timing (t : Thresholds) (hfail : 1 ≤ t.consecFailDown.toNat)
    (start : GatewayState) (r : TimedRun) :
    (EndsIn (fun s => !s.success) t.consecFailDown.toNat r.samples →
      (Monitor.run t start r.samples).state = .down) ∧
    (Monitor.run t start r.samples).events.IsChain (Spaced t) ∧
    (∀ past s, past ++ [s] <+: r.samples →
      Recorded (Monitor.run t start past) (Monitor.run t start (past ++ [s])) s.storedAt) ∧
    EventChain start (Monitor.run t start r.samples).events
      (Monitor.run t start r.samples).state := by
  refine ⟨Monitor.run_down_of_failures hfail start, (Monitor.run_timed t start r.clock).spaced, ?_,
    Monitor.run_eventChain t start r.samples⟩
  intro past s _
  rw [Monitor.run_concat]
  exact Monitor.injectSample_recorded t _ s

/-- The thresholds the API gives a gateway by default. -/
def defaultThresholds : Thresholds where
  lossPctDown := .fin 20
  lossPctUp := .fin 5
  latencyMsDown := none
  latencyMsUp := none
  consecFailDown := 3
  consecOkUp := 5
  dampeningSecs := 10

def probeAt (secs : Nat) (success : Bool) : Sample where
  success := success
  rttMs := if success then some (.fin 5) else none
  checkedAt := secs * 10 ^ 9
  storedAt := secs * 10 ^ 9

def outage : TimedRun where
  samples := [probeAt 1 true, probeAt 2 false, probeAt 3 false, probeAt 4 false]
  clock := by decide

theorem failover_timing_outage :
    1 ≤ defaultThresholds.consecFailDown.toNat ∧
      (Monitor.run defaultThresholds .unknown outage.samples).state = .down ∧
      (Monitor.run defaultThresholds .unknown outage.samples).events.IsChain
        (Spaced defaultThresholds) := by
  have h := failover_timing defaultThresholds (by decide) .unknown outage
  refine ⟨by decide, h.1 ⟨outage.samples.tail, ?_, by decide, by decide⟩, h.2.1⟩
  exact List.tail_suffix _

/-- Every sample of the run that takes the gateway from down to a state with traffic ends a row of
`consec_ok_up` successes. -/
def SustainedRecovery (t : Thresholds) (start : GatewayState) (samples : List Sample) : Prop :=
  ∀ past s, past ++ [s] <+: samples → (Monitor.run t start past).state = .down →
    (Monitor.run t start (past ++ [s])).state.healthy = true →
      EndsIn (fun s => s.success) t.consecOkUp.toNat (past ++ [s])

/-- What keeps a sample from reviving a gateway that is down: the hold-down; for a failure, a
full row of failures, or a last latency and a loss threshold that do not degrade a link at a loss
of 100; for a success, a full row of successes, or that neither its latency nor the loss
threshold degrades a link at a loss of 0. -/
def Monitor.StaysDown (t : Thresholds) (m : Monitor) (s : Sample) : Prop :=
  m.held t s.checkedAt .warning = true ∨
    if s.success then
      t.consecOkUp.toNat ≤ m.metrics.consecOk + 1 ∨
        t.latency (s.rttMs.or m.metrics.lastRttMs) ≠ .degrade ∧ t.lossPctDown.lt (.fin 0) = false
    else
      t.consecFailDown.toNat ≤ m.metrics.consecFail + 1 ∨
        t.latency m.metrics.lastRttMs ≠ .degrade ∧ t.lossPctDown.lt (.fin 100) = false

theorem evaluateTransition_down_healthy (m : Metrics) (t : Thresholds) :
    (evaluateTransition .down m t).healthy = true ↔
      ¬ t.consecFailDown.toNat ≤ m.consecFail ∧
        (t.latency m.lastRttMs = .degrade ∨ t.consecOkUp.toNat ≤ m.consecOk ∨
          t.lossPctDown.lt m.recentLoss = true) := by
  unfold evaluateTransition
  -- one case per return of the cascade, in its order
  by_cases hf : t.consecFailDown.toNat ≤ m.consecFail
  · simp [hf, GatewayState.healthy]
  by_cases hd : t.latency m.lastRttMs = .degrade
  · simp [hf, hd, GatewayState.healthy]
  by_cases hok : t.consecOkUp.toNat ≤ m.consecOk
  · cases t.lossPctUp.lt m.recentLoss <;> simp [hf, hd, hok, GatewayState.healthy]
  cases t.lossPctDown.lt m.recentLoss <;> simp [hf, hd, hok, GatewayState.healthy]

namespace Monitor
variable {t : Thresholds} {m : Monitor} {s : Sample}

theorem held_eq_warning (hne : target ≠ .down) : m.held t now target = m.held t now .warning := by
  simp only [held, dampeningHolds, decide_eq_true hne]
  rfl

theorem nextState_down_healthy (hm : m.state = .down) :
    (m.nextState t s).healthy = true ↔
      m.held t s.checkedAt .warning = false ∧
        (evaluateTransition .down (m.metrics.ingest s.toProbeOutcome) t).healthy = true := by
  simp only [nextState, hm]
  generalize evaluateTransition .down (m.metrics.ingest s.toProbeOutcome) t = new
  by_cases hnew : new = .down
  · simp [hnew, GatewayState.healthy]
  · rw [held_eq_warning hnew]
    cases m.held t s.checkedAt .warning <;> simp [hnew, GatewayState.healthy]

theorem le_saturatingSucc_iff (k : UInt32) (n : Nat) :
    k.toNat ≤ saturatingSucc n ↔ k.toNat ≤ n + 1 := by
  have := k.toNat_lt
  unfold saturatingSucc u32Max
  omega

theorem endsIn_run_iff (t : Thresholds) (start : GatewayState) (l : List Sample) :
    EndsIn (fun s => s.success) t.consecOkUp.toNat l ↔
      t.consecOkUp.toNat ≤ (run t start l).metrics.consecOk := by
  rw [run_consecOk]
  exact (le_min_streak_iff _ (Nat.le_pred_of_lt t.consecOkUp.toNat_lt) l).symm

/-- A step from down that gives traffic without a full row of successes is one that nothing of
`StaysDown` stops. -/
theorem staysDown_iff (hfail : 1 ≤ t.consecFailDown.toNat) (hok : 1 ≤ t.consecOkUp.toNat)
    (hm : m.state = .down) :
    ((m.nextState t s).healthy = true →
        t.consecOkUp.toNat ≤ (m.metrics.ingest s.toProbeOutcome).consecOk) ↔
      m.StaysDown t s := by
  rw [nextState_down_healthy hm, evaluateTransition_down_healthy, StaysDown,
    Metrics.ingest_consecFail, Metrics.ingest_consecOk, Metrics.ingest_lastRttMs,
    Metrics.ingest_recentLoss]
  have hnofail : ¬ t.consecFailDown.toNat ≤ 0 := Nat.not_le.mpr hfail
  have hnook : ¬ t.consecOkUp.toNat ≤ 0 := Nat.not_le.mpr hok
  cases s.success
  · simp only [Bool.false_eq_true, if_false, le_saturatingSucc_iff, hnook]
    grind
  · simp only [if_true, le_saturatingSucc_iff, hnofail]
    grind

end Monitor

/-- A down gateway comes back on sustained success only in exactly the runs whose samples at a
down gateway are each kept from reviving it. -/
theorem sustainedRecovery_iff (t : Thresholds) (hfail : 1 ≤ t.consecFailDown.toNat)
    (hok : 1 ≤ t.consecOkUp.toNat) (start : GatewayState) (samples : List Sample) :
    SustainedRecovery t start samples ↔
      ∀ past s, past ++ [s] <+: samples → (Monitor.run t start past).state = .down →
        (Monitor.run t start past).StaysDown t s := by
  unfold SustainedRecovery
  refine forall_congr' fun past => forall_congr' fun s => forall_congr' fun _ =>
    forall_congr' fun hdown => ?_
  rw [← Monitor.staysDown_iff hfail hok hdown, Monitor.endsIn_run_iff t start, Monitor.run_concat,
    Monitor.injectSample_state, Monitor.injectSample_metrics]

/-- A link that fails, comes back for one probe and fails again. -/
def flap : TimedRun where
  samples := [probeAt 1 false, probeAt 2 false, probeAt 3 false, probeAt 20 true, probeAt 21 false]
  clock := by decide

theorem sustainedRecovery_flap_false :
    ¬ SustainedRecovery defaultThresholds .unknown flap.samples := by
  intro h
  have hrow := h flap.samples.dropLast (probeAt 21 false) (List.prefix_refl _)
    (by decide +kernel) (by decide +kernel)
  rw [endsIn_iff_le_streak] at hrow
  exact absurd hrow (by decide)

def recovery : TimedRun where
  samples := [probeAt 1 true, probeAt 2 true, probeAt 3 true, probeAt 4 true, probeAt 5 true]
  clock := by decide

theorem sustainedRecovery_successes :
    1 ≤ defaultThresholds.consecFailDown.toNat ∧ 1 ≤ defaultThresholds.consecOkUp.toNat ∧
      SustainedRecovery defaultThresholds .down recovery.samples ∧
      (Monitor.run defaultThresholds .down recovery.samples).state = .up := by
  refine ⟨by decide, by decide, (sustainedRecovery_iff _ (by decide) (by decide) _ _).mpr ?_,
    by decide +kernel⟩
  intro past s hpre _
  have hall : ∀ s ∈ recovery.samples, s.success = true := by decide
  have hs : s.success = true := hall s (hpre.subset List.mem_concat_self)
  right
  rw [if_pos hs]
  right
  constructor
  · cases s.rttMs.or _ <;> exact LatencyVerdict.noConfusion
  · decide +kernel

end AiFw.Wan
