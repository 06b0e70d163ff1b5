import AiFw.Lib.Binary64
import AiFw.Lib.Streak

namespace AiFw.Wan
open AiFw.Lib
set_option autoImplicit true

inductive GatewayState where
  | up
  | warning
  | down
  | unknown
deriving DecidableEq, Repr

/-- The states in which `select` gives a gateway traffic. -/
def GatewayState.healthy : GatewayState → Bool
  | .up => true
  | .warning => true
  | _ => false

/-- The columns of a gateway its state machine reads. -/
structure Thresholds where
  lossPctDown : F64
  lossPctUp : F64
  latencyMsDown : Option UInt64
  latencyMsUp : Option UInt64
  consecFailDown : UInt32
  consecOkUp : UInt32
  dampeningSecs : UInt32

structure ProbeOutcome where
  success : Bool
  rttMs : Option F64

structure Metrics where
  consecFail : Nat := 0
  consecOk : Nat := 0
  recentLoss : F64 := .fin 0
  lastRttMs : Option F64 := none
  lastJitterMs : Option F64 := none
  lastMos : Option F64 := none
  samples : List F64 := []

def u32Max : Nat := 2 ^ 32 - 1

def saturatingSucc (n : Nat) : Nat := min (n + 1) u32Max

def jitter (samples : List F64) : F64 :=
  if samples.length < 2 then .fin 0
  else
    let sumDiff : F64 := (samples.zip samples.tail).foldl
      (fun (sum : F64) (w : F64 × F64) => sum.add (w.2.sub w.1).abs) (.fin 0)
    sumDiff.div (F64.ofNat (samples.length - 1))

def mosScore (rttMs jitterMs lossPct : F64) : F64 :=
  let spread := (rttMs.add ((F64.fin 2).mul jitterMs)).div (.fin 40)
  let rFactor := ((F64.round 93.2).sub spread).sub ((F64.fin 2.5).mul lossPct)
  let r := rFactor.clamp (.fin 0) (.fin 100)
  if r.lt (.fin 6.5) then .fin 1
  else if (F64.fin 100).lt r then .fin 4.5
  else
    ((F64.fin 1).add ((F64.round 0.035).mul r)).add
      ((((F64.round 7e-6).mul r).mul (r.sub (.fin 60))).mul ((F64.fin 100).sub r))

namespace Metrics

def sampled (m : Metrics) (rtt : F64) : Metrics :=
  let samples := m.samples ++ [rtt]
  let samples := if 20 < samples.length then samples.tail else samples
  { m with
    lastRttMs := some rtt
    samples := samples
    lastJitterMs := some (jitter samples)
    lastMos := some (mosScore rtt (jitter samples) (.fin 0)) }

def counted (m : Metrics) (outcome : ProbeOutcome) : Metrics :=
  if outcome.success then
    let m := { m with consecFail := 0, consecOk := saturatingSucc m.consecOk }
    match outcome.rttMs with
    | some rtt => m.sampled rtt
    | none => m
  else { m with consecOk := 0, consecFail := saturatingSucc m.consecFail }

def withLoss (m : Metrics) : Metrics :=
  let total := m.consecFail + m.consecOk
  if 0 < total then
    { m with recentLoss := ((F64.ofNat m.consecFail).div (F64.ofNat total)).mul (.fin 100) }
  else m

def ingest (m : Metrics) (outcome : ProbeOutcome) : Metrics := (m.counted outcome).withLoss

@[simp] theorem withLoss_consecFail (m : Metrics) : m.withLoss.consecFail = m.consecFail := by
  simp only [withLoss]
  split <;> rfl

@[simp] theorem withLoss_consecOk (m : Metrics) : m.withLoss.consecOk = m.consecOk := by
  simp only [withLoss]
  split <;> rfl

@[simp] theorem withLoss_lastRttMs (m : Metrics) : m.withLoss.lastRttMs = m.lastRttMs := by
  simp only [withLoss]
  split <;> rfl

theorem ofNat_counter (hn : n ≤ u32Max) : F64.ofNat n = .fin n := by
  apply F64.round_natCast
  unfold u32Max at hn
  omega

theorem withLoss_no_failures (m : Metrics) (hf : m.consecFail = 0) (hpos : 0 < m.consecOk)
    (hmax : m.consecOk ≤ u32Max) : m.withLoss.recentLoss = .fin 0 := by
  have hok : (m.consecOk : ℚ) ≠ 0 := Nat.cast_ne_zero.mpr hpos.ne'
  simp only [withLoss, hf, Nat.zero_add, if_pos hpos, ofNat_counter hmax,
    ofNat_counter (Nat.zero_le u32Max), Nat.cast_zero, F64.div, if_neg hok, zero_div,
    F64.round_zero, F64.mul, zero_mul]

theorem withLoss_no_successes (m : Metrics) (hok : m.consecOk = 0) (hpos : 0 < m.consecFail)
    (hmax : m.consecFail ≤ u32Max) : m.withLoss.recentLoss = .fin 100 := by
  have hf : (m.consecFail : ℚ) ≠ 0 := Nat.cast_ne_zero.mpr hpos.ne'
  have hround : F64.round 100 = .fin 100 := by
    exact_mod_cast F64.round_natCast (n := 100) (by norm_num)
  simp only [withLoss, hok, Nat.add_zero, if_pos hpos, ofNat_counter hmax, F64.div, if_neg hf,
    div_self hf, F64.round_one, F64.mul, one_mul, hround]

theorem saturatingSucc_pos (n : Nat) : 0 < saturatingSucc n := by
  unfold saturatingSucc u32Max
  omega

theorem saturatingSucc_le (n : Nat) : saturatingSucc n ≤ u32Max := Nat.min_le_right _ _

section
variable {m : Metrics} {o : ProbeOutcome}

theorem counted_of_success (ho : o.success = true) :
    (m.counted o).consecFail = 0 ∧ (m.counted o).consecOk = saturatingSucc m.consecOk ∧
      (m.counted o).lastRttMs = o.rttMs.or m.lastRttMs := by
  rw [counted, if_pos ho]
  cases o.rttMs <;> exact ⟨rfl, rfl, rfl⟩

theorem counted_of_failure (ho : o.success = false) :
    m.counted o = { m with consecOk := 0, consecFail := saturatingSucc m.consecFail } := by
  rw [counted, if_neg (Bool.eq_false_iff.mp ho)]

theorem ingest_consecOk :
    (m.ingest o).consecOk = if o.success then saturatingSucc m.consecOk else 0 := by
  rw [ingest, withLoss_consecOk]
  split
  · next h => exact (counted_of_success h).2.1
  · next h => rw [counted_of_failure (Bool.eq_false_iff.mpr h)]

theorem ingest_consecFail :
    (m.ingest o).consecFail = if o.success then 0 else saturatingSucc m.consecFail := by
  rw [ingest, withLoss_consecFail]
  split
  · next h => exact (counted_of_success h).1
  · next h => rw [counted_of_failure (Bool.eq_false_iff.mpr h)]

theorem ingest_lastRttMs :
    (m.ingest o).lastRttMs = if o.success then o.rttMs.or m.lastRttMs else m.lastRttMs := by
  rw [ingest, withLoss_lastRttMs]
  split
  · next h => exact (counted_of_success h).2.2
  · next h => rw [counted_of_failure (Bool.eq_false_iff.mpr h)]

/-- One of the counters is zero after every outcome, so the loss is all or nothing. -/
theorem ingest_recentLoss :
    (m.ingest o).recentLoss = if o.success then .fin 0 else .fin 100 := by
  rw [ingest]
  split
  · next h =>
    obtain ⟨hf, hok, _⟩ := counted_of_success (m := m) h
    apply withLoss_no_failures _ hf
    · rw [hok]
      exact saturatingSucc_pos _
    · rw [hok]
      exact saturatingSucc_le _
  · next h =>
    rw [counted_of_failure (Bool.eq_false_iff.mpr h)]
    exact withLoss_no_successes _ rfl (saturatingSucc_pos _) (saturatingSucc_le _)

end

end Metrics

inductive LatencyVerdict where
  | degrade
  | recover
  | hold
deriving DecidableEq, Repr

def latencyVerdict (latencyMsDown latencyMsUp : Option UInt64) (rttMs : Option F64) :
    LatencyVerdict :=
  match latencyMsDown, rttMs with
  | some down, some rtt =>
    let up := min (latencyMsUp.getD down) down
    if (F64.ofNat down.toNat).le rtt then .degrade
    else if rtt.le (F64.ofNat up.toNat) then .recover
    else .hold
  | _, _ => .recover

def Thresholds.latency (t : Thresholds) (rttMs : Option F64) : LatencyVerdict :=
  latencyVerdict t.latencyMsDown t.latencyMsUp rttMs

def evaluateTransition (current : GatewayState) (m : Metrics) (t : Thresholds) : GatewayState :=
  let lat := t.latency m.lastRttMs
  if t.consecFailDown.toNat ≤ m.consecFail then .down
  else if lat = .degrade then .warning
  else if t.consecOkUp.toNat ≤ m.consecOk then
    if t.lossPctUp.lt m.recentLoss then .warning
    else if lat = .hold ∧ current = .warning then .warning
    else .up
  else if t.lossPctDown.lt m.recentLoss then .warning
  else current

def dampeningHolds (elapsed : Nat) (dampeningSecs : UInt32) (target : GatewayState) : Bool :=
  target ≠ .down && elapsed < dampeningSecs.toNat * 10 ^ 9

/-- An outcome with the instants, in nanoseconds, at which the hold-down is checked and the
transition recorded. -/
structure Sample extends ProbeOutcome where
  checkedAt : Nat
  storedAt : Nat

structure GatewayEvent where
  at_ : Nat
  fromState : GatewayState
  toState : GatewayState
deriving DecidableEq, Repr

/-- What the database and the engine hold of one gateway. -/
structure Monitor where
  state : GatewayState
  metrics : Metrics
  lastTransition : Option Nat
  events : List GatewayEvent

namespace Monitor

def fresh (state : GatewayState) : Monitor :=
  { state, metrics := {}, lastTransition := none, events := [] }

def held (t : Thresholds) (m : Monitor) (now : Nat) (target : GatewayState) : Bool :=
  m.lastTransition.any fun last => dampeningHolds (now - last) t.dampeningSecs target

def persistState (m : Monitor) (newState : GatewayState) (now : Nat) : Monitor :=
  if newState ≠ m.state then
    { m with
      state := newState
      lastTransition := some now
      events := m.events ++ [⟨now, m.state, newState⟩] }
  else m

def nextState (t : Thresholds) (m : Monitor) (s : Sample) : GatewayState :=
  let newState := evaluateTransition m.state (m.metrics.ingest s.toProbeOutcome) t
  if newState ≠ m.state ∧ m.held t s.checkedAt newState then m.state else newState

def injectSample (t : Thresholds) (m : Monitor) (s : Sample) : Monitor :=
  { m with metrics := m.metrics.ingest s.toProbeOutcome }.persistState (m.nextState t s) s.storedAt

def run (t : Thresholds) (start : GatewayState) (samples : List Sample) : Monitor :=
  samples.foldl (injectSample t) (fresh start)

section
variable {t : Thresholds} {m : Monitor} {s : Sample}

theorem injectSample_unchanged (h : m.nextState t s = m.state) :
    m.injectSample t s = { m with metrics := m.metrics.ingest s.toProbeOutcome } := by
  rw [injectSample, persistState, if_neg (not_not.mpr h)]

theorem injectSample_changed (h : m.nextState t s ≠ m.state) :
    m.injectSample t s =
      { state := m.nextState t s
        metrics := m.metrics.ingest s.toProbeOutcome
        lastTransition := some s.storedAt
        events := m.events ++ [⟨s.storedAt, m.state, m.nextState t s⟩] } := by
  rw [injectSample, persistState, if_pos h]

@[simp] theorem injectSample_state : (m.injectSample t s).state = m.nextState t s := by
  by_cases h : m.nextState t s = m.state
  · rw [injectSample_unchanged h, h]
  · rw [injectSample_changed h]

@[simp] theorem injectSample_metrics :
    (m.injectSample t s).metrics = m.metrics.ingest s.toProbeOutcome := by
  by_cases h : m.nextState t s = m.state
  · rw [injectSample_unchanged h]
  · rw [injectSample_changed h]

theorem run_concat (t : Thresholds) (start : GatewayState) (l : List Sample) (s : Sample) :
    run t start (l ++ [s]) = (run t start l).injectSample t s := List.foldl_concat ..

theorem saturatingSucc_min (n : Nat) : saturatingSucc (min n u32Max) = min (n + 1) u32Max := by
  unfold saturatingSucc
  omega

theorem run_consecOk (t : Thresholds) (start : GatewayState) (l : List Sample) :
    (run t start l).metrics.consecOk = min (streak (fun s => s.success) l) u32Max := by
  induction l using List.reverseRecOn with
  | nil => rfl
  | append_singleton l s ih =>
    rw [run_concat, injectSample_metrics, Metrics.ingest_consecOk, streak_concat, ih,
      saturatingSucc_min]
    cases s.success <;> rfl

theorem run_consecFail (t : Thresholds) (start : GatewayState) (l : List Sample) :
    (run t start l).metrics.consecFail = min (streak (fun s => !s.success) l) u32Max := by
  induction l using List.reverseRecOn with
  | nil => rfl
  | append_singleton l s ih =>
    rw [run_concat, injectSample_metrics, Metrics.ingest_consecFail, streak_concat, ih,
      saturatingSucc_min]
    cases s.success <;> rfl

end

end Monitor

namespace Metrics
/-- The metrics of a gateway after the outcomes of all its probes. -/
def after (outcomes : List ProbeOutcome) : Metrics := outcomes.foldl ingest {}

/-- The outcomes the loss is meant to be taken over: the last twenty. -/
def window (outcomes : List ProbeOutcome) : List ProbeOutcome :=
  outcomes.drop (outcomes.length - 20)

/-- The failures among the outcomes, in percent. -/
def lossPct (outcomes : List ProbeOutcome) : ℚ :=
  100 * (outcomes.countP fun o => !o.success) / outcomes.length

theorem after_concat (l : List ProbeOutcome) (o : ProbeOutcome) :
    (after (l ++ [o])).recentLoss = if o.success then .fin 0 else .fin 100 := by
  rw [after, List.foldl_concat]
  exact ingest_recentLoss

theorem window_concat (l : List ProbeOutcome) (o : ProbeOutcome) :
    window (l ++ [o]) = l.drop (l.length + 1 - 20) ++ [o] := by
  rw [window, List.length_append, List.length_singleton]
  exact List.drop_append_of_le_length (by omega)

theorem lossPct_eq_zero_iff {l : List ProbeOutcome} :
    lossPct l = 0 ↔ ∀ o ∈ l, o.success = true := by
  rw [lossPct, div_eq_zero_iff, mul_eq_zero, Nat.cast_eq_zero, Nat.cast_eq_zero,
    List.countP_eq_zero]
  constructor
  · intro h o ho
    rcases h with (h | h) | h
    · norm_num at h
    · have hfail := h o ho
      rw [Bool.not_eq_true', Bool.not_eq_false] at hfail
      exact hfail
    · rw [List.length_eq_zero_iff.mp h] at ho
      cases ho
  · intro h
    refine .inl (.inr ?_)
    intro o ho
    rw [h o ho]
    exact Bool.false_ne_true

theorem lossPct_eq_hundred_iff {l : List ProbeOutcome} (hl : l ≠ []) :
    lossPct l = 100 ↔ ∀ o ∈ l, o.success = false := by
  have hlen : (l.length : ℚ) ≠ 0 := Nat.cast_ne_zero.mpr (mt List.length_eq_zero_iff.mp hl)
  rw [lossPct, div_eq_iff hlen, mul_right_inj' (by norm_num), Nat.cast_inj,
    List.countP_eq_length]
  simp only [Bool.not_eq_true']

/-- The loss taken over the window, read off the last outcome alone. -/
theorem recentLoss_concat_iff (l : List ProbeOutcome) (o : ProbeOutcome) :
    (after (l ++ [o])).recentLoss = .fin (lossPct (window (l ++ [o]))) ↔
      ∀ o' ∈ window (l ++ [o]), o'.success = o.success := by
  have hne : window (l ++ [o]) ≠ [] := by
    rw [window_concat]
    exact List.concat_ne_nil o _
  rw [after_concat]
  cases ho : o.success with
  | true =>
    rw [if_pos rfl, F64.fin.injEq, eq_comm]
    exact lossPct_eq_zero_iff
  | false =>
    rw [if_neg Bool.false_ne_true, F64.fin.injEq, eq_comm]
    exact lossPct_eq_hundred_iff hne

/-- The recent loss is the loss over the window only where the window holds one kind of outcome:
each of the two counters is cleared by the outcome that the other counts. -/
theorem recentLoss_windowed_iff (outcomes : List ProbeOutcome) :
    (after outcomes).recentLoss = .fin (lossPct (window outcomes)) ↔
      ∀ o ∈ window outcomes, ∀ o' ∈ window outcomes, o.success = o'.success := by
  rcases List.eq_nil_or_concat outcomes with rfl | ⟨l, last, rfl⟩
  · refine iff_of_true ?_ ?_
    · simp [after, window, lossPct]
    · intro o ho
      cases ho
  · rw [List.concat_eq_append, recentLoss_concat_iff]
    have hlast : last ∈ window (l ++ [last]) := by
      rw [window_concat]
      exact List.mem_concat_self
    constructor
    · intro h o ho o' ho'
      rw [h o ho, h o' ho']
    · intro h o ho
      exact h o ho last hlast

/-- Every threshold from 0 up to but not including 100 asks the same: whether the last probe
failed. -/
theorem threshold_sees_last {t : ℚ} (ht : 0 ≤ t) (htop : t < 100) (l : List ProbeOutcome)
    (o : ProbeOutcome) :
    (F64.fin t).lt (after (l ++ [o])).recentLoss = !o.success := by
  rw [after_concat]
  cases o.success with
  | true => exact decide_eq_false (not_lt.mpr ht)
  | false => exact decide_eq_true htop

/-- One failure and one success: the loss reads 0, not 50. -/
theorem recentLoss_forgets :
    ¬ ∀ outcomes, (after outcomes).recentLoss = .fin (lossPct (window outcomes)) := by
  intro h
  have hloss := (recentLoss_concat_iff [⟨false, none⟩] ⟨true, some (.fin 12)⟩).mp (h _)
  have hfailed := hloss ⟨false, none⟩ List.mem_cons_self
  cases hfailed

end Metrics

end AiFw.Wan
