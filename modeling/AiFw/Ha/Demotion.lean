import AiFw.Ha.HealthProber
import AiFw.Lib.Streak

namespace AiFw.Ha
open AiFw.Lib
open AiFw.Wan (Uuid)
set_option autoImplicit true

namespace HealthCheck

/-- The check is probed at once, and then whenever its interval is over. -/
def due (c : HealthCheck) (log : List (Nat × Bool)) (t : Tick) : Bool :=
  log.getLast?.all fun r => decide (c.intervalSecs.toNat * nanosPerSec ≤ t.polledAt c.id - r.1)

/-- The probes of the check, with the times at which they start. -/
def probes (c : HealthCheck) (ticks : List Tick) : List (Nat × Bool) :=
  ticks.foldl
    (fun log t => if c.due log t then log ++ [(t.startedAt c.id, t.outcome c.id)] else log) []

/-- The probes that have failed since the last one that succeeded. -/
def failedInARow (log : List (Nat × Bool)) : Nat := streak (fun r => !r.2) log

/-- The state tells of the probes of the check what the next turn needs. -/
structure Reflects (c : HealthCheck) (log : List (Nat × Bool)) (st : ProbeState) : Prop where
  lastRun : st.lastRun = log.getLast?.map Prod.fst
  failures : st.failures = UInt32.ofNat (failedInARow log)
  healthy : st.healthy = decide (failedInARow log < c.failuresBeforeDown.toNat)

section
variable {c : HealthCheck} {log : List (Nat × Bool)} {st : ProbeState}

theorem probes_concat (c : HealthCheck) (ticks : List Tick) (t : Tick) :
    c.probes (ticks ++ [t]) =
      if c.due (c.probes ticks) t then c.probes ticks ++ [(t.startedAt c.id, t.outcome c.id)]
      else c.probes ticks := by
  unfold probes
  rw [List.foldl_concat]

theorem failedInARow_concat (log : List (Nat × Bool)) (r : Nat × Bool) :
    failedInARow (log ++ [r]) = if r.2 then 0 else failedInARow log + 1 := by
  rw [failedInARow, streak_concat]
  cases r.2 with
  | true => rfl
  | false => rfl

theorem Reflects.fresh (h : 1 ≤ c.failuresBeforeDown.toNat) : c.Reflects [] .new where
  lastRun := rfl
  failures := rfl
  healthy := (decide_eq_true h).symm

theorem Reflects.ready (h : c.Reflects log st) (t : Tick) :
    st.ready c (t.polledAt c.id) = c.due log t := by
  unfold ProbeState.ready due
  rw [h.lastRun]
  cases log.getLast? with
  | none => rfl
  | some r =>
    rw [Option.all_some]
    simp only [Option.map_some]

/-- A count of failures that has not reached the threshold has not wrapped. -/
theorem Reflects.failures_succ (h : c.Reflects log st) (hhealthy : st.healthy = true) :
    (st.failures + 1).toNat = failedInARow log + 1 := by
  have hbelow : failedInARow log < c.failuresBeforeDown.toNat := by
    rw [h.healthy] at hhealthy
    exact of_decide_eq_true hhealthy
  have hsize := c.failuresBeforeDown.toNat_lt
  rw [h.failures, UInt32.toNat_add, UInt32.toNat_ofNat', UInt32.toNat_one]
  omega

theorem Reflects.probed (h : c.Reflects log st) (startedAt : Nat) (ok : Bool)
    (hthreshold : 1 ≤ c.failuresBeforeDown.toNat) :
    c.Reflects (log ++ [(startedAt, ok)])
      (ProbeState.probed c ok { st with lastRun := some startedAt }) := by
  have hlast : some startedAt = (log ++ [(startedAt, ok)]).getLast?.map Prod.fst := by
    rw [List.getLast?_concat]
    rfl
  cases ok with
  | true =>
    constructor
    · exact hlast
    · rw [failedInARow_concat]
      rfl
    · rw [failedInARow_concat]
      exact (decide_eq_true hthreshold).symm
  | false =>
    constructor
    · exact hlast
    · rw [failedInARow_concat]
      change st.failures + 1 = UInt32.ofNat (failedInARow log + 1)
      rw [h.failures, UInt32.ofNat_add]
      rfl
    · rw [failedInARow_concat]
      change (if decide (c.failuresBeforeDown ≤ st.failures + 1) && st.healthy then false
        else st.healthy) = decide (failedInARow log + 1 < c.failuresBeforeDown.toNat)
      cases hhealthy : st.healthy with
      | true =>
        have hcount : c.failuresBeforeDown ≤ st.failures + 1 ↔
            ¬failedInARow log + 1 < c.failuresBeforeDown.toNat := by
          rw [UInt32.le_iff_toNat_le, h.failures_succ hhealthy, Nat.not_lt]
        rw [Bool.and_true]
        by_cases hlt : failedInARow log + 1 < c.failuresBeforeDown.toNat
        · rw [decide_eq_false (mt hcount.mp (not_not_intro hlt)), decide_eq_true hlt]
          rfl
        · rw [decide_eq_true (hcount.mpr hlt), decide_eq_false hlt]
          rfl
      | false =>
        have hnot : ¬failedInARow log < c.failuresBeforeDown.toNat := by
          rw [h.healthy] at hhealthy
          exact of_decide_eq_false hhealthy
        rw [Bool.and_false, decide_eq_false fun hlt => hnot (Nat.lt_of_succ_lt hlt)]
        rfl

theorem Reflects.polled (h : c.Reflects (c.probes ticks) st) (t : Tick)
    (hthreshold : 1 ≤ c.failuresBeforeDown.toNat) :
    c.Reflects (c.probes (ticks ++ [t])) (st.polled t c) := by
  unfold ProbeState.polled
  rw [h.ready, probes_concat]
  split
  · exact h.probed _ _ hthreshold
  · exact h

end

end HealthCheck

namespace HealthProber

/-- The loop visits each check once, and fails if one of them is not healthy after its turn. -/
theorem foldl_probeCheck (t : Tick) (l : List HealthCheck) (hids : (l.map HealthCheck.id).Nodup)
    (acc : (Uuid → Option ProbeState) × Bool) :
    (∀ id ∉ l.map HealthCheck.id, (l.foldl (probeCheck t) acc).1 id = acc.1 id) ∧
    (∀ c ∈ l, (l.foldl (probeCheck t) acc).1 c.id =
      some (((acc.1 c.id).getD .new).polled t c)) ∧
    ((l.foldl (probeCheck t) acc).2 = true ↔ acc.2 = true ∨
      ∃ c ∈ l, (((acc.1 c.id).getD .new).polled t c).healthy = false) := by
  induction l generalizing acc with
  | nil =>
    refine ⟨fun _ _ => rfl, (fun _ hc => nomatch hc), ?_⟩
    exact (or_iff_left fun ⟨_, hc, _⟩ => nomatch hc).symm
  | cons d l ih =>
    obtain ⟨hd, hl⟩ := List.nodup_cons.mp hids
    obtain ⟨hframe, hstates, hfails⟩ := ih hl (probeCheck t acc d)
    have hother : ∀ id, id ≠ d.id → (probeCheck t acc d).1 id = acc.1 id :=
      fun id hne => Function.update_of_ne hne ..
    have hself : (probeCheck t acc d).1 d.id = some (((acc.1 d.id).getD .new).polled t d) :=
      Function.update_self ..
    have hne : ∀ c ∈ l, c.id ≠ d.id := fun c hc he => hd (he ▸ List.mem_map_of_mem hc)
    refine ⟨?_, ?_, ?_⟩
    · intro id hid
      rw [List.map_cons, List.mem_cons, not_or] at hid
      rw [List.foldl_cons, hframe id hid.2, hother id hid.1]
    · intro c hc
      rw [List.foldl_cons]
      obtain rfl | hc := List.mem_cons.mp hc
      · rw [hframe c.id hd, hself]
      · rw [hstates c hc, hother c.id (hne c hc)]
    · rw [List.foldl_cons, hfails]
      have hrest : (∃ c ∈ l, ((((probeCheck t acc d).1 c.id).getD .new).polled t c).healthy = false) ↔
          ∃ c ∈ l, (((acc.1 c.id).getD .new).polled t c).healthy = false := by
        apply exists_congr
        intro c
        apply and_congr_right
        intro hc
        rw [hother c.id (hne c hc)]
      rw [hrest, List.exists_mem_cons_iff, ← or_assoc]
      apply or_congr_left
      change (acc.2 || !(((acc.1 d.id).getD .new).polled t d).healthy) = true ↔ _
      rw [Bool.or_eq_true, Bool.not_eq_true']

end HealthProber

/-- Some enabled check has failed as many probes in a row as it may. -/
def Ill (checks : List HealthCheck) (ticks : List Tick) : Prop :=
  ∃ c ∈ checks, c.enabled = true ∧
    c.failuresBeforeDown.toNat ≤ HealthCheck.failedInARow (c.probes ticks)

/-- No enabled check has been unhealthy since the given tick, the first one of its kind. -/
def CalmFrom (checks : List HealthCheck) (u : Tick) : List Tick → Prop :=
  Since (fun w => ¬Ill checks w) fun w => ∃ before, w = before ++ [u] ∧ (before = [] ∨ Ill checks before)

/-- No enabled check has been unhealthy for as long as the hold-down. -/
def Cleared (checks : List HealthCheck) (ticks : List Tick) : Prop :=
  ∃ t u, ticks.getLast? = some t ∧ CalmFrom checks u ticks ∧ recoveryHoldDown ≤ t.now - u.now

/-- The host is to be demoted: since a check was found unhealthy the hold-down has not been over. -/
def Down (checks : List HealthCheck) : List Tick → Prop :=
  Since (fun w => ¬Cleared checks w) (Ill checks)

/-- The turns of the loop that go on after the checks are listed. -/
def evaluated (ticks : List Tick) : List Tick := ticks.filter fun t => t.listed.isSome

namespace HealthProber

/-- The counter of the kernel is as the health of the checks demands, after every turn. -/
def FollowsHealth (checks : List HealthCheck) (carpDemotion : Int) (ticks : List Tick) : Prop :=
  ∀ past, List.IsPrefix past ticks →
    (Down checks (evaluated past) → (run carpDemotion past).carpDemotion = carpDemotion + 240) ∧
    (¬Down checks (evaluated past) → (run carpDemotion past).carpDemotion = carpDemotion)

end HealthProber

section
variable {checks : List HealthCheck} {ticks : List Tick} {t u : Tick}

theorem CalmFrom.not_ill (h : CalmFrom checks u ticks) : ¬Ill checks ticks := h.holds

theorem calmFrom_concat : CalmFrom checks u (ticks ++ [t]) ↔ ¬Ill checks (ticks ++ [t]) ∧
    (u = t ∧ (ticks = [] ∨ Ill checks ticks) ∨ CalmFrom checks u ticks) := by
  apply since_concat.trans
  apply and_congr_right
  intro _
  apply or_congr_left
  constructor
  · rintro ⟨before, he, hbefore⟩
    obtain ⟨rfl, hu⟩ := List.append_inj' he rfl
    exact ⟨(List.cons.inj hu).1.symm, hbefore⟩
  · rintro ⟨rfl, hbefore⟩
    exact ⟨ticks, rfl, hbefore⟩

/-- A calm has a first tick. -/
theorem exists_calmFrom (hne : ticks ≠ []) (h : ¬Ill checks ticks) :
    ∃ u, CalmFrom checks u ticks := by
  induction ticks using List.reverseRecOn with
  | nil => exact absurd rfl hne
  | append_singleton ticks t ih =>
    by_cases hbefore : ticks = [] ∨ Ill checks ticks
    · exact ⟨t, calmFrom_concat.mpr ⟨h, .inl ⟨rfl, hbefore⟩⟩⟩
    · obtain ⟨hne, hcalm⟩ := not_or.mp hbefore
      obtain ⟨u, hu⟩ := ih hne hcalm
      exact ⟨u, calmFrom_concat.mpr ⟨h, .inr hu⟩⟩

theorem not_ill_nil (h : ∀ c ∈ checks, 1 ≤ c.failuresBeforeDown.toNat) : ¬Ill checks [] := by
  rintro ⟨c, hc, -, hle⟩
  exact absurd (h c hc) (Nat.not_le.mpr (Nat.lt_succ_of_le hle))

theorem not_cleared_of_ill (h : Ill checks ticks) : ¬Cleared checks ticks := by
  rintro ⟨t, u, -, hcalm, -⟩
  exact hcalm.not_ill h

theorem down_of_ill (h : Ill checks (ticks ++ [t])) : Down checks (ticks ++ [t]) :=
  since_concat.mpr ⟨not_cleared_of_ill h, .inl h⟩

/-- Where no check is unhealthy, the demotion goes on until the hold-down is over. -/
theorem down_of_calm (h : ¬Ill checks (ticks ++ [t])) :
    Down checks (ticks ++ [t]) ↔ ¬Cleared checks (ticks ++ [t]) ∧ Down checks ticks := by
  apply since_concat.trans
  rw [or_iff_right h]
  exact Iff.rfl

theorem not_down_nil (h : ∀ c ∈ checks, 1 ≤ c.failuresBeforeDown.toNat) : ¬Down checks [] :=
  fun hdown => not_ill_nil h (since_nil.mp hdown).2

theorem cleared_concat : Cleared checks (ticks ++ [t]) ↔
    ∃ u, CalmFrom checks u (ticks ++ [t]) ∧ recoveryHoldDown ≤ t.now - u.now := by
  unfold Cleared
  rw [List.getLast?_concat]
  constructor
  · rintro ⟨t', u, he, hcalm⟩
    cases he
    exact ⟨u, hcalm⟩
  · rintro ⟨u, hcalm⟩
    exact ⟨t, u, rfl, hcalm⟩

/-- A calm that follows a failure begins with its own first tick. -/
theorem calmFrom_after_ill (hill : Ill checks ticks) (hcalm : ¬Ill checks (ticks ++ [t])) :
    CalmFrom checks u (ticks ++ [t]) ↔ u = t := by
  rw [calmFrom_concat, and_iff_right hcalm]
  constructor
  · rintro (⟨rfl, -⟩ | hu)
    · rfl
    · exact absurd hill hu.not_ill
  · rintro rfl
    exact .inl ⟨rfl, .inr hill⟩

theorem calmFrom_after_calm (hne : ticks ≠ []) (h : ¬Ill checks ticks)
    (hcalm : ¬Ill checks (ticks ++ [t])) :
    CalmFrom checks u (ticks ++ [t]) ↔ CalmFrom checks u ticks := by
  rw [calmFrom_concat, and_iff_right hcalm]
  apply or_iff_right
  rintro ⟨-, hempty | hill⟩
  · exact hne hempty
  · exact h hill

theorem cleared_after_calm (hne : ticks ≠ []) (h : ¬Ill checks ticks)
    (hcalm : ¬Ill checks (ticks ++ [t])) : Cleared checks (ticks ++ [t]) ↔
      ∃ u, CalmFrom checks u ticks ∧ recoveryHoldDown ≤ t.now - u.now := by
  rw [cleared_concat]
  apply exists_congr
  intro u
  rw [calmFrom_after_calm hne h hcalm]

/-- The hold-down takes time. -/
theorem not_cleared_after_ill (hill : Ill checks ticks) : ¬Cleared checks (ticks ++ [t]) := by
  rw [cleared_concat]
  rintro ⟨u, hu, hle⟩
  rw [(calmFrom_after_ill hill hu.not_ill).mp hu, Nat.sub_self] at hle
  exact absurd hle (by decide)

end

namespace HealthProber

/-- What the loop knows after the ticks: the states of the checks, whether the host is to be
demoted, and since when no check has been unhealthy. -/
structure Follows (checks : HealthCheckTable) (ticks : List Tick) (s : HealthProber) : Prop where
  states : ∀ c ∈ checks.rows, c.enabled = true →
    c.Reflects (c.probes ticks) ((s.state c.id).getD .new)
  demoted : s.demoted = true ↔ Down checks.rows ticks
  ill : Ill checks.rows ticks → s.recoveryStarted = none
  calm : s.demoted = true → ∀ u, CalmFrom checks.rows u ticks → s.recoveryStarted = some u.now

section
variable {checks : HealthCheckTable} {ticks : List Tick} {t : Tick} {s : HealthProber}

theorem elect_failing (hsysctl : t.sysctl = true) (s : HealthProber) :
    (elect t true s).state = s.state ∧ (elect t true s).demoted = true ∧
      (elect t true s).recoveryStarted = none ∧
      (elect t true s).carpDemotion = if s.demoted then s.carpDemotion else s.carpDemotion + 240 := by
  unfold elect
  cases s.demoted with
  | true => exact ⟨rfl, rfl, rfl, rfl⟩
  | false =>
    rw [hsysctl]
    exact ⟨rfl, rfl, rfl, rfl⟩

/-- The hold-down is over: nothing is taken back from the counter. -/
theorem elect_over (hsysctl : t.sysctl = true) (hdemoted : s.demoted = true)
    (hstarted : s.recoveryStarted = some started) (h : recoveryHoldDown ≤ t.now - started) :
    elect t false s = { s with demoted := false, recoveryStarted := none } := by
  unfold elect
  rw [hdemoted, hstarted, hsysctl]
  change (if t.now - started ≥ recoveryHoldDown then
    { s.writeDemotion 0 with demoted := false, recoveryStarted := none } else s) = _
  rw [if_pos h, writeDemotion, Int.add_zero]

theorem elect_holding (hdemoted : s.demoted = true) (hstarted : s.recoveryStarted = some started)
    (h : ¬recoveryHoldDown ≤ t.now - started) : elect t false s = s := by
  unfold elect
  rw [hdemoted, hstarted]
  change (if t.now - started ≥ recoveryHoldDown then _ else s) = s
  rw [if_neg h]

theorem elect_recovering (hdemoted : s.demoted = true) (hstarted : s.recoveryStarted = none) :
    elect t false s = { s with recoveryStarted := some t.now } := by
  unfold elect
  rw [hdemoted, hstarted]
  rfl

theorem elect_healthy (hdemoted : s.demoted = false) : elect t false s = s := by
  unfold elect
  rw [hdemoted]
  rfl

theorem probeChecks_spec (t : Tick) (checks : HealthCheckTable)
    (state : Uuid → Option ProbeState) :
    (∀ c ∈ checks.rows, c.enabled = true →
      (probeChecks t checks state).1 c.id = some (((state c.id).getD .new).polled t c)) ∧
    ((probeChecks t checks state).2 = true ↔ ∃ c ∈ checks.rows, c.enabled = true ∧
      (((state c.id).getD .new).polled t c).healthy = false) := by
  have hkept : ∀ c ∈ checks.rows,
      (if checks.rows.any (fun d => d.id == c.id) then state c.id else none) = state c.id := by
    intro c hc
    rw [if_pos]
    exact List.any_eq_true.mpr ⟨c, hc, beq_iff_eq.mpr rfl⟩
  have hids : ((checks.rows.filter HealthCheck.enabled).map HealthCheck.id).Nodup :=
    checks.distinct.sublist (List.filter_sublist.map _)
  obtain ⟨-, hstates, hfails⟩ := foldl_probeCheck t _ hids
    (fun id => if checks.rows.any (fun c => c.id == id) then state id else none, false)
  constructor
  · intro c hc henabled
    have hstate := hstates c (List.mem_filter.mpr ⟨hc, henabled⟩)
    dsimp only at hstate
    rwa [hkept c hc] at hstate
  · apply (hfails.trans (or_iff_right Bool.false_ne_true)).trans
    constructor
    · rintro ⟨c, hc, hhealthy⟩
      obtain ⟨hc, henabled⟩ := List.mem_filter.mp hc
      dsimp only at hhealthy
      rw [hkept c hc] at hhealthy
      exact ⟨c, hc, henabled, hhealthy⟩
    · rintro ⟨c, hc, henabled, hhealthy⟩
      refine ⟨c, List.mem_filter.mpr ⟨hc, henabled⟩, ?_⟩
      dsimp only
      rwa [hkept c hc]

/-- The states go on telling of the probes, and the loop finds out whether a check is unhealthy. -/
theorem Follows.probeChecks (h : Follows checks ticks s) (t : Tick)
    (hthreshold : ∀ c ∈ checks.rows, 1 ≤ c.failuresBeforeDown.toNat) :
    (∀ c ∈ checks.rows, c.enabled = true → c.Reflects (c.probes (ticks ++ [t]))
      (((HealthProber.probeChecks t checks s.state).1 c.id).getD .new)) ∧
    ((HealthProber.probeChecks t checks s.state).2 = true ↔ Ill checks.rows (ticks ++ [t])) := by
  obtain ⟨hstates, hfails⟩ := probeChecks_spec t checks s.state
  have hpolled : ∀ c ∈ checks.rows, c.enabled = true → c.Reflects (c.probes (ticks ++ [t]))
      (((s.state c.id).getD .new).polled t c) := fun c hc henabled =>
    (h.states c hc henabled).polled t (hthreshold c hc)
  constructor
  · intro c hc henabled
    rw [hstates c hc henabled]
    exact hpolled c hc henabled
  · rw [hfails]
    apply exists_congr
    intro c
    apply and_congr_right
    intro hc
    apply and_congr_right
    intro henabled
    rw [(hpolled c hc henabled).healthy, decide_eq_false_iff_not, Nat.not_lt]

section
variable {s' : HealthProber} (hstates : ∀ c ∈ checks.rows, c.enabled = true →
  c.Reflects (c.probes (ticks ++ [t])) ((s'.state c.id).getD .new))
include hstates

theorem Follows.of_ill (hsysctl : t.sysctl = true) (hill : Ill checks.rows (ticks ++ [t])) :
    Follows checks (ticks ++ [t]) (HealthProber.elect t true s') := by
  obtain ⟨hstate, hdown, hnone, -⟩ := elect_failing hsysctl s'
  constructor
  case states =>
    rw [hstate]
    exact hstates
  case demoted => exact iff_of_true hdown (down_of_ill hill)
  case ill => exact fun _ => hnone
  case calm => exact fun _ u hu => absurd hill hu.not_ill

/-- Nothing is to be taken back. -/
theorem Follows.of_spared (hdemoted : s'.demoted = false) (hnot : ¬Down checks.rows ticks)
    (hcalm : ¬Ill checks.rows (ticks ++ [t])) :
    Follows checks (ticks ++ [t]) (HealthProber.elect t false s') := by
  rw [elect_healthy hdemoted]
  constructor
  case states => exact hstates
  case demoted =>
    exact iff_of_false (Bool.eq_false_iff.mp hdemoted) fun hd => hnot ((down_of_calm hcalm).mp hd).2
  case ill => exact fun hill => absurd hill hcalm
  case calm =>
    intro htrue
    rw [hdemoted] at htrue
    cases htrue

/-- The calm begins with this tick, and the recovery clock is set at it. -/
theorem Follows.of_recovering (hdemoted : s'.demoted = true) (hstarted : s'.recoveryStarted = none)
    (hd : Down checks.rows ticks) (hill : Ill checks.rows ticks)
    (hcalm : ¬Ill checks.rows (ticks ++ [t])) :
    Follows checks (ticks ++ [t]) (HealthProber.elect t false s') := by
  rw [elect_recovering hdemoted hstarted]
  constructor
  case states => exact hstates
  case demoted =>
    exact iff_of_true hdemoted ((down_of_calm hcalm).mpr ⟨not_cleared_after_ill hill, hd⟩)
  case ill => exact fun hill' => absurd hill' hcalm
  case calm =>
    intro _ u hu
    rw [(calmFrom_after_ill hill hcalm).mp hu]

/-- The calm goes on from the tick that the recovery clock was set at. -/
theorem Follows.of_calm (hsysctl : t.sysctl = true) (hdemoted : s'.demoted = true)
    (hclock : ∀ u, CalmFrom checks.rows u ticks → s'.recoveryStarted = some u.now)
    (hne : ticks ≠ []) (hd : Down checks.rows ticks) (hill : ¬Ill checks.rows ticks)
    (hcalm : ¬Ill checks.rows (ticks ++ [t])) :
    Follows checks (ticks ++ [t]) (HealthProber.elect t false s') := by
  have hdown := down_of_calm hcalm
  obtain ⟨u, hu⟩ := exists_calmFrom hne hill
  have hstarted := hclock u hu
  have hover : Cleared checks.rows (ticks ++ [t]) ↔ recoveryHoldDown ≤ t.now - u.now := by
    rw [cleared_after_calm hne hill hcalm]
    constructor
    · rintro ⟨u', hu', hle⟩
      have hsame := hclock u' hu'
      rw [hstarted] at hsame
      rwa [Option.some.inj hsame]
    · exact fun hle => ⟨u, hu, hle⟩
  by_cases hle : recoveryHoldDown ≤ t.now - u.now
  · rw [elect_over hsysctl hdemoted hstarted hle]
    constructor
    case states => exact hstates
    case demoted =>
      exact iff_of_false Bool.false_ne_true fun hd' => (hdown.mp hd').1 (hover.mpr hle)
    case ill => exact fun _ => rfl
    case calm => exact fun hfalse => absurd hfalse Bool.false_ne_true
  · rw [elect_holding hdemoted hstarted hle]
    constructor
    case states => exact hstates
    case demoted => exact iff_of_true hdemoted (hdown.mpr ⟨mt hover.mp hle, hd⟩)
    case ill => exact fun hill' => absurd hill' hcalm
    case calm =>
      intro _ u' hu'
      exact hclock u' ((calmFrom_after_calm hne hill hcalm).mp hu')

/-- The demotion and the recovery clock after one turn of the loop. -/
theorem Follows.elect (hthreshold : ∀ c ∈ checks.rows, 1 ≤ c.failuresBeforeDown.toNat)
    (hsysctl : t.sysctl = true) (h : Follows checks ticks s)
    (hdemoted : s'.demoted = s.demoted) (hstarted : s'.recoveryStarted = s.recoveryStarted)
    (hany : anyFailingLocal = true ↔ Ill checks.rows (ticks ++ [t])) :
    Follows checks (ticks ++ [t]) (HealthProber.elect t anyFailingLocal s') := by
  cases anyFailingLocal with
  | true => exact .of_ill hstates hsysctl (hany.mp rfl)
  | false =>
    have hcalm : ¬Ill checks.rows (ticks ++ [t]) := fun hill => Bool.false_ne_true (hany.mpr hill)
    cases hbefore : s.demoted with
    | false =>
      have hnot : ¬Down checks.rows ticks := mt h.demoted.mpr (Bool.eq_false_iff.mp hbefore)
      exact .of_spared hstates (hdemoted.trans hbefore) hnot hcalm
    | true =>
      have hd := h.demoted.mp hbefore
      by_cases hill : Ill checks.rows ticks
      · exact .of_recovering hstates (hdemoted.trans hbefore) (hstarted.trans (h.ill hill)) hd
          hill hcalm
      · have hne : ticks ≠ [] := by
          rintro rfl
          exact not_down_nil hthreshold hd
        have hclock : ∀ u, CalmFrom checks.rows u ticks → s'.recoveryStarted = some u.now :=
          fun u hu => hstarted.trans (h.calm hbefore u hu)
        exact .of_calm hstates hsysctl (hdemoted.trans hbefore) hclock hne hd hill hcalm

end

theorem elect_calm_counter (t : Tick) (s : HealthProber) :
    (HealthProber.elect t false s).carpDemotion = s.carpDemotion := by
  unfold HealthProber.elect
  split
  · contradiction
  · split
    · contradiction
    · repeat' split
      all_goals first | rfl | exact Int.add_zero _

theorem Follows.tick (hthreshold : ∀ c ∈ checks.rows, 1 ≤ c.failuresBeforeDown.toNat)
    (hsysctl : t.sysctl = true) (hlisted : t.listed = some checks) (h : Follows checks ticks s) :
    Follows checks (ticks ++ [t]) (s.tick t) ∧
      (Down checks.rows ticks ∨ ¬Down checks.rows (ticks ++ [t]) →
        (s.tick t).carpDemotion = s.carpDemotion) ∧
      (¬Down checks.rows ticks → Down checks.rows (ticks ++ [t]) →
        (s.tick t).carpDemotion = s.carpDemotion + 240) := by
  obtain ⟨hreflects, hill⟩ := h.probeChecks t hthreshold
  unfold HealthProber.tick
  rw [hlisted]
  refine ⟨.elect hreflects hthreshold hsysctl h rfl rfl hill, ?_⟩
  dsimp only
  cases hany : (HealthProber.probeChecks t checks s.state).2 with
  | true =>
    have hdown := down_of_ill (hill.mp hany)
    obtain ⟨-, -, -, hcounter⟩ :=
      elect_failing hsysctl { s with state := (HealthProber.probeChecks t checks s.state).1 }
    rw [hcounter]
    constructor
    · intro hbefore
      exact if_pos (h.demoted.mpr (hbefore.resolve_right fun hnot => hnot hdown))
    · intro hbefore _
      exact if_neg (mt h.demoted.mp hbefore)
  | false =>
    rw [elect_calm_counter]
    constructor
    · exact fun _ => rfl
    · intro hbefore hafter
      have hcalm : ¬Ill checks.rows (ticks ++ [t]) := fun hi => by
        rw [hill.mpr hi] at hany
        cases hany
      exact absurd ((down_of_calm hcalm).mp hafter).2 hbefore

theorem tick_skip (h : t.listed = none) (s : HealthProber) : s.tick t = s := by
  unfold HealthProber.tick
  rw [h]

theorem follows_start (hthreshold : ∀ c ∈ checks.rows, 1 ≤ c.failuresBeforeDown.toNat)
    (carpDemotion : Int) : Follows checks [] (start carpDemotion) where
  states := fun c hc _ => HealthCheck.Reflects.fresh (hthreshold c hc)
  demoted := iff_of_false Bool.false_ne_true (not_down_nil hthreshold)
  ill := fun _ => rfl
  calm := fun h => nomatch h

theorem run_concat (carpDemotion : Int) (ticks : List Tick) (t : Tick) :
    run carpDemotion (ticks ++ [t]) = (run carpDemotion ticks).tick t := List.foldl_concat ..

theorem evaluated_skip (h : t.listed = none) : evaluated (ticks ++ [t]) = evaluated ticks := by
  unfold evaluated
  rw [List.filter_append, List.filter_cons_of_neg (by rw [h]; exact Bool.false_ne_true),
    List.filter_nil, List.append_nil]

theorem evaluated_tick (h : t.listed = some checks) :
    evaluated (ticks ++ [t]) = evaluated ticks ++ [t] := by
  unfold evaluated
  rw [List.filter_append, List.filter_cons_of_pos (by rw [h]; rfl), List.filter_nil]

theorem follows_run (hthreshold : ∀ c ∈ checks.rows, 1 ≤ c.failuresBeforeDown.toNat)
    (carpDemotion : Int)
    (hticks : ∀ t ∈ ticks, (t.listed = none ∨ t.listed = some checks) ∧ t.sysctl = true) :
    Follows checks (evaluated ticks) (run carpDemotion ticks) := by
  induction ticks using List.reverseRecOn with
  | nil => exact follows_start hthreshold carpDemotion
  | append_singleton ticks t ih =>
    have hbefore := ih fun t' ht' => hticks t' (List.mem_append_left _ ht')
    obtain ⟨hlisted, hsysctl⟩ := hticks t List.mem_concat_self
    rw [run_concat]
    obtain hnone | hsome := hlisted
    · rw [tick_skip hnone, evaluated_skip hnone]
      exact hbefore
    · rw [evaluated_tick hsome]
      exact (hbefore.tick hthreshold hsysctl hsome).1

/-- What one turn of the loop does to the counter: it is raised where the host goes down, and is
left alone where it stays down, stays up or comes back. -/
theorem counter_concat (hthreshold : ∀ c ∈ checks.rows, 1 ≤ c.failuresBeforeDown.toNat)
    (carpDemotion : Int)
    (hticks : ∀ t' ∈ ticks ++ [t], (t'.listed = none ∨ t'.listed = some checks) ∧ t'.sysctl = true) :
    (Down checks.rows (evaluated ticks) ∨ ¬Down checks.rows (evaluated (ticks ++ [t])) →
      (run carpDemotion (ticks ++ [t])).carpDemotion = (run carpDemotion ticks).carpDemotion) ∧
    (¬Down checks.rows (evaluated ticks) → Down checks.rows (evaluated (ticks ++ [t])) →
      (run carpDemotion (ticks ++ [t])).carpDemotion =
        (run carpDemotion ticks).carpDemotion + 240) := by
  obtain ⟨hlisted, hsysctl⟩ := hticks t List.mem_concat_self
  rw [run_concat]
  obtain hnone | hsome := hlisted
  · rw [tick_skip hnone, evaluated_skip hnone]
    exact ⟨fun _ => rfl, fun hnot hdown => absurd hdown hnot⟩
  · rw [evaluated_tick hsome]
    have hbefore := follows_run hthreshold carpDemotion fun t' ht' =>
      hticks t' (List.mem_append_left [t] ht')
    exact (hbefore.tick hthreshold hsysctl hsome).2

end

/-- The counter follows the health of the checks in a run exactly if no demotion of it ends: the
write of zero that is to end one adds nothing. -/
theorem followsHealth_iff (checks : HealthCheckTable)
    (hthreshold : ∀ c ∈ checks.rows, 1 ≤ c.failuresBeforeDown.toNat) (carpDemotion : Int)
    (ticks : List Tick)
    (hticks : ∀ t ∈ ticks, (t.listed = none ∨ t.listed = some checks) ∧ t.sysctl = true) :
    FollowsHealth checks.rows carpDemotion ticks ↔
      ∀ past t, List.IsPrefix (past ++ [t]) ticks →
        Down checks.rows (evaluated past) → Down checks.rows (evaluated (past ++ [t])) := by
  have hcounter : ∀ past t, List.IsPrefix (past ++ [t]) ticks → _ := fun past t hp =>
    counter_concat (t := t) hthreshold carpDemotion fun t' ht' => hticks t' (hp.subset ht')
  constructor
  · intro h past t hp hdown
    by_contra hover
    have hbefore := (h past ((List.prefix_append past [t]).trans hp)).1 hdown
    have hafter := (h (past ++ [t]) hp).2 hover
    rw [(hcounter past t hp).1 (.inl hdown), hbefore] at hafter
    omega
  · intro h past hp
    induction past using List.reverseRecOn with
    | nil => exact ⟨fun hdown => absurd hdown (not_down_nil hthreshold), fun _ => rfl⟩
    | append_singleton past t ih =>
      obtain ⟨hdown, hup⟩ := ih ((List.prefix_append past [t]).trans hp)
      by_cases hbefore : Down checks.rows (evaluated past)
      · rw [(hcounter past t hp).1 (.inl hbefore)]
        exact ⟨fun _ => hdown hbefore, fun hnot => absurd (h past t hp hbefore) hnot⟩
      · constructor
        · intro hafter
          rw [(hcounter past t hp).2 hbefore hafter, hup hbefore]
        · intro hafter
          rw [(hcounter past t hp).1 (.inr hafter)]
          exact hup hbefore

/-- One check that is down at its first failure. -/
def oneCheck : HealthCheckTable where
  rows := [⟨1, 10, 1, true⟩]
  distinct := List.nodup_singleton _

/-- A turn of the loop at the given second, with its outcome for every check. -/
def turn (second : Nat) (ok : Bool) : Tick where
  listed := some oneCheck
  outcome := fun _ => ok
  polledAt := fun _ => second * nanosPerSec
  startedAt := fun _ => second * nanosPerSec
  now := second * nanosPerSec
  sysctl := true

theorem oneCheck_threshold : ∀ c ∈ oneCheck.rows, 1 ≤ c.failuresBeforeDown.toNat := by
  intro c hc
  rw [List.mem_singleton.mp hc]
  decide

def turns (outcomes : List (Nat × Bool)) : List Tick := outcomes.map fun e => turn e.1 e.2

theorem turns_listed (outcomes : List (Nat × Bool)) :
    ∀ t ∈ turns outcomes, (t.listed = none ∨ t.listed = some oneCheck) ∧ t.sysctl = true := by
  intro t ht
  obtain ⟨e, -, rfl⟩ := List.mem_map.mp ht
  exact ⟨.inr rfl, rfl⟩

theorem down_turns (outcomes : List (Nat × Bool)) (h : List.IsPrefix past (turns outcomes)) :
    Down oneCheck.rows (evaluated past) ↔ (run 0 past).demoted = true :=
  (follows_run oneCheck_threshold 0 fun t ht => turns_listed outcomes t (h.subset ht)).demoted.symm

/-- A failure that lasts raises the counter once. -/
theorem follows_failure :
    FollowsHealth oneCheck.rows 0 (turns [(0, true), (10, false), (20, false)]) := by
  apply (followsHealth_iff oneCheck oneCheck_threshold 0 _ (turns_listed _)).mpr
  intro past t hp hdown
  have hpast := (List.prefix_append past [t]).trans hp
  have hlen : past.length < 3 := by
    have hle := hp.length_le
    rwa [List.length_append, List.length_singleton] at hle
  rw [down_turns _ hpast, List.prefix_iff_eq_take.mp hpast] at hdown
  rw [down_turns _ hp, List.prefix_iff_eq_take.mp hp, List.length_append, List.length_singleton]
  revert hdown
  generalize past.length = n at hlen
  revert n
  decide +kernel

/-- The check fails once and recovers, and the counter is still raised after the hold-down. -/
theorem recovery_keeps_demotion :
    (∀ c ∈ oneCheck.rows, 1 ≤ c.failuresBeforeDown.toNat) ∧
      (∀ t ∈ turns [(0, false), (10, true), (40, true)],
        (t.listed = none ∨ t.listed = some oneCheck) ∧ t.sysctl = true) ∧
      ¬FollowsHealth oneCheck.rows 0 (turns [(0, false), (10, true), (40, true)]) := by
  refine ⟨oneCheck_threshold, turns_listed _, ?_⟩
  intro h
  have hup : ¬Down oneCheck.rows (evaluated (turns [(0, false), (10, true), (40, true)])) := by
    rw [down_turns _ (List.prefix_refl _)]
    decide +kernel
  have hcounter := (h _ (List.prefix_refl _)).2 hup
  revert hcounter
  decide +kernel

end HealthProber

end AiFw.Ha
