import AiFw.Ha.Cluster

namespace AiFw.Ha
open AiFw.Wan (Uuid)
set_option autoImplicit true

/-- A health check, as far as its schedule and its threshold go. -/
structure HealthCheck where
  id : Uuid
  intervalSecs : UInt32
  failuresBeforeDown : UInt32
  enabled : Bool
deriving DecidableEq, Repr

/-- The rows of `health_checks`; their ids are the primary key. -/
structure HealthCheckTable where
  rows : List HealthCheck
  distinct : (rows.map HealthCheck.id).Nodup

structure ProbeState where
  healthy : Bool
  failures : UInt32
  lastRun : Option Nat
deriving DecidableEq, Repr

def ProbeState.new : ProbeState := ⟨true, 0, none⟩

def nanosPerSec : Nat := 10 ^ 9

def recoveryHoldDown : Nat := 30 * nanosPerSec

/-- What one turn of the loop finds: the checks, unless they cannot be listed, the outcomes of the
probes, the times in nanoseconds at which a check is looked at, is probed and all of them are
through, and whether `sysctl` succeeds. -/
structure Tick where
  listed : Option HealthCheckTable
  outcome : Uuid → Bool
  polledAt : Uuid → Nat
  startedAt : Uuid → Nat
  now : Nat
  sysctl : Bool

structure ProbeOutcome where
  becameUnhealthy : Bool
  becameHealthy : Bool
  failuresAfter : UInt32
  healthyAfter : Bool
deriving DecidableEq, Repr

namespace ProbeState

def applyProbeResult (st : ProbeState) (ok : Bool) (failuresBeforeDown : UInt32) :
    ProbeState × ProbeOutcome :=
  if ok then
    ({ st with healthy := true, failures := 0 }, ⟨false, !st.healthy, 0, true⟩)
  else
    let failures := st.failures + 1
    let becameUnhealthy := decide (failuresBeforeDown ≤ failures) && st.healthy
    let healthy := if becameUnhealthy then false else st.healthy
    ({ st with healthy := healthy, failures := failures },
      ⟨becameUnhealthy, false, failures, healthy⟩)

def ready (c : HealthCheck) (polledAt : Nat) (st : ProbeState) : Bool :=
  match st.lastRun with
  | none => true
  | some t => decide (c.intervalSecs.toNat * nanosPerSec ≤ polledAt - t)

/-- The state after the outcome of a probe. -/
def probed (c : HealthCheck) (ok : Bool) (st : ProbeState) : ProbeState :=
  if ok then { st with healthy := true, failures := 0 }
  else
    let failures := st.failures + 1
    { st with
        failures := failures
        healthy := if failures ≥ c.failuresBeforeDown && st.healthy then false else st.healthy }

/-- The state of a check after one turn of the loop. -/
def polled (t : Tick) (c : HealthCheck) (st : ProbeState) : ProbeState :=
  if st.ready c (t.polledAt c.id) then
    probed c (t.outcome c.id) { st with lastRun := some (t.startedAt c.id) }
  else st

/-- The function under test is what the loop does with an outcome. -/
theorem probed_eq_applyProbeResult (c : HealthCheck) (ok : Bool) (st : ProbeState) :
    st.probed c ok = (st.applyProbeResult ok c.failuresBeforeDown).1 := by
  cases ok with
  | true => rfl
  | false => rfl

end ProbeState

/-- The variables of `run`, and the counter of the kernel. -/
structure HealthProber where
  state : Uuid → Option ProbeState
  demoted : Bool
  recoveryStarted : Option Nat
  carpDemotion : Int

namespace HealthProber

def start (carpDemotion : Int) : HealthProber := ⟨fun _ => none, false, none, carpDemotion⟩

/-- `sysctl net.inet.carp.demotion=value`: the kernel adds what is written. -/
def writeDemotion (s : HealthProber) (value : Int) : HealthProber :=
  { s with carpDemotion := s.carpDemotion + value }

/-- The body of the loop over the enabled checks: their states, and whether one of them fails. -/
def probeCheck (t : Tick) (acc : (Uuid → Option ProbeState) × Bool) (c : HealthCheck) :
    (Uuid → Option ProbeState) × Bool :=
  let st := ((acc.1 c.id).getD .new).polled t c
  (Function.update acc.1 c.id (some st), acc.2 || !st.healthy)

/-- The states of checks that are gone are dropped, and the enabled checks have their turns. -/
def probeChecks (t : Tick) (checks : HealthCheckTable) (state : Uuid → Option ProbeState) :
    (Uuid → Option ProbeState) × Bool :=
  let kept := fun id => if checks.rows.any (fun c => c.id == id) then state id else none
  (checks.rows.filter HealthCheck.enabled).foldl (probeCheck t) (kept, false)

/-- What follows from the probes: a demotion, the recovery clock, the end of a demotion. -/
def elect (t : Tick) (anyFailingLocal : Bool) (s : HealthProber) : HealthProber :=
  if anyFailingLocal && !s.demoted then
    if t.sysctl then { s.writeDemotion 240 with demoted := true, recoveryStarted := none } else s
  else if anyFailingLocal && s.demoted then { s with recoveryStarted := none }
  else if !anyFailingLocal && s.demoted then
    match s.recoveryStarted with
    | none => { s with recoveryStarted := some t.now }
    | some started =>
      if t.now - started ≥ recoveryHoldDown then
        if t.sysctl then { s.writeDemotion 0 with demoted := false, recoveryStarted := none } else s
      else s
  else s

def tick (s : HealthProber) (t : Tick) : HealthProber :=
  match t.listed with
  | none => s
  | some checks =>
    let (state, anyFailingLocal) := probeChecks t checks s.state
    elect t anyFailingLocal { s with state := state }

def run (carpDemotion : Int) (ticks : List Tick) : HealthProber :=
  ticks.foldl tick (start carpDemotion)

end HealthProber

end AiFw.Ha
