import AiFw.Lib.Runs
import AiFw.Pf.Anchor
import AiFw.Wan.Policy

namespace AiFw.Wan
open AiFw.Lib AiFw.Net AiFw.Pf
set_option autoImplicit true

def GatewayState.asStr : GatewayState → List Char
  | .up => "up".toList
  | .warning => "warning".toList
  | .down => "down".toList
  | .unknown => "unknown".toList

theorem GatewayState.asStr_eq_down {state : GatewayState} :
    state.asStr = "down".toList ↔ state = .down := by
  cases state <;> decide

/-- A gateway as the probes and the filter rules read it. -/
structure ProbedGateway where
  id : Uuid
  interface : List Char
  nextHop : List Char
  state : GatewayState
  thresholds : Thresholds

/-- The record passes the checks made before it is written into a rule. -/
def ProbedGateway.Valid (g : ProbedGateway) : Prop :=
  (g.interface ≠ [] ∧ g.interface.all fun c => c.isAlphanum || ['.', '_', '-'].contains c) ∧
    (IpAddr.parse g.nextHop).isSome

def recordOf (rows : List ProbedGateway) (gwId : List Char) : Option ProbedGateway :=
  rows.find? fun g => displayUuid g.id = gwId

def listGatewayRoutes (rows : List ProbedGateway) : GatewayRoutes := fun gwId =>
  (recordOf rows gwId).map fun g => (g.interface, g.nextHop, g.state.asStr)

/-- The `UPDATE` of a gateway's state. -/
def setState (id : Uuid) (state : GatewayState) (rows : List ProbedGateway) : List ProbedGateway :=
  rows.map fun g => if g.id = id then { g with state } else g

/-- What `apply_rules` loads: every active rule inside its window, with its line. -/
def loadedLines (rules : List Rule) (schedules : Schedules) (rows : List ProbedGateway)
    (now : LocalTime) : List (Rule × List Char) :=
  ((rules.filter fun r => r.status = .active).filter fun r => r.inSchedule schedules now).map
    fun r => (r, r.toPfRuleRouted (resolveRuleRoute r (listGatewayRoutes rows)))

/-- `SELECT EXISTS(… WHERE gateway IS NOT NULL AND gateway != '')`. -/
def hasGatewayRules (rules : List Rule) : Bool :=
  rules.any fun r => r.gateway ≠ none && r.gateway ≠ some []

inductive Process where
  | daemon
  | api
deriving DecidableEq, Repr

/-- What an engine keeps in memory for each gateway. -/
structure ProbeEngine where
  metrics : Uuid → Metrics
  lastTransition : Uuid → Option Nat

/-- Where a call of `inject_sample` is, with the row it has read. -/
inductive ProbePhase where
  | start
  | evaluate (gw : ProbedGateway)
  | update (gw : ProbedGateway) (newState : GatewayState)
  | broadcast (gw : ProbedGateway) (newState : GatewayState)
  | done

structure ProbeCall where
  process : Process
  gatewayId : Uuid
  phase : ProbePhase

inductive RouteWatcher where
  | idle
  | received
  | reading
  | loading (lines : List (Rule × List Char))

/-- The table, the memory of the two engines, the channel of the daemon's engine, its watcher and
the anchor. -/
structure RouteState where
  rows : List ProbedGateway
  engines : Process → ProbeEngine
  queue : List (Uuid × GatewayState)
  lagged : Bool
  watcher : RouteWatcher
  anchor : List (Rule × List Char)

def channelCapacity : Nat := 256

/-- The oldest event is lost when the channel is full. -/
def RouteState.send (s : RouteState) (event : Uuid × GatewayState) : RouteState :=
  if s.queue.length < channelCapacity then { s with queue := s.queue ++ [event] }
  else { s with queue := (s.queue ++ [event]).tail, lagged := true }

def evaluateSample (e : ProbeEngine) (gw : ProbedGateway) (sample : Sample) : GatewayState :=
  Monitor.nextState gw.thresholds
    { state := gw.state
      metrics := e.metrics gw.id
      lastTransition := e.lastTransition gw.id
      events := [] } sample

def ProbeEngine.ingest (e : ProbeEngine) (id : Uuid) (sample : Sample) : ProbeEngine :=
  { e with metrics := Function.update e.metrics id ((e.metrics id).ingest sample.toProbeOutcome) }

def ProbeEngine.record (e : ProbeEngine) (id : Uuid) (now : Nat) : ProbeEngine :=
  { e with lastTransition := Function.update e.lastTransition id (some now) }

def RouteState.setEngine (s : RouteState) (p : Process) (e : ProbeEngine) : RouteState :=
  { s with engines := Function.update s.engines p e }

/-- One step of `inject_sample`. Only the daemon's engine has a subscriber. -/
def probeStep (sample : Sample) (s : RouteState) (c : ProbeCall) : RouteState × ProbeCall :=
  match c.phase with
  | .start =>
    match s.rows.find? fun g => g.id = c.gatewayId with
    | some gw => (s, { c with phase := .evaluate gw })
    | none => (s, { c with phase := .done })
  | .evaluate gw =>
    (s.setEngine c.process ((s.engines c.process).ingest gw.id sample),
      { c with phase := .update gw (evaluateSample (s.engines c.process) gw sample) })
  | .update gw newState =>
    ({ s with rows := setState gw.id newState s.rows },
      { c with phase := if newState ≠ gw.state then .broadcast gw newState else .done })
  | .broadcast gw newState =>
    let s := s.setEngine c.process ((s.engines c.process).record gw.id sample.storedAt)
    (if c.process = .daemon then s.send (gw.id, newState) else s, { c with phase := .done })
  | .done => (s, c)

/-- One step of the watcher: it takes an event, asks for gateway rules, reads the tables and loads
the anchor. -/
def RouteState.watch (rules : List Rule) (schedules : Schedules) (now : LocalTime)
    (s : RouteState) : RouteState :=
  match s.watcher with
  | .idle =>
    if s.lagged then { s with lagged := false }
    else
      match s.queue with
      | [] => s
      | _ :: queue => { s with queue, watcher := .received }
  | .received => { s with watcher := if hasGatewayRules rules then .reading else .idle }
  | .reading => { s with watcher := .loading (loadedLines rules schedules s.rows now) }
  | .loading lines => { s with watcher := .idle, anchor := lines }

abbrev RouteSystem := Interleaved RouteState ProbeCall

inductive RouteEvent where
  | probe (call : Nat) (sample : Sample)
  | watch (now : LocalTime)

def RouteSystem.step (rules : List Rule) (schedules : Schedules) (s : RouteSystem) :
    RouteEvent → RouteSystem
  | .probe call sample => Interleaved.step probeStep s (call, sample)
  | .watch now => { s with shared := s.shared.watch rules schedules now }

/-- The anchor just loaded, no event under way and the calls not begun. -/
def RouteSystem.fresh (rules : List Rule) (schedules : Schedules) (rows : List ProbedGateway)
    (engines : Process → ProbeEngine) (now : LocalTime) (calls : List (Process × Uuid)) :
    RouteSystem where
  shared := {
    rows
    engines
    queue := []
    lagged := false
    watcher := .idle
    anchor := loadedLines rules schedules rows now }
  calls := calls.map fun c => ⟨c.1, c.2, .start⟩

/-- An active rule without a schedule names the gateway, and its record is valid. -/
structure Steers (rules : List Rule) (rows : List ProbedGateway) (r : Rule) (g : ProbedGateway) :
    Prop where
  stored : r ∈ rules
  active : r.status = .active
  unscheduled : r.scheduleId = none
  names : ∃ gwId, r.gateway = some gwId ∧ recordOf rows gwId = some g
  valid : g.Valid

/-- Each such rule is loaded, with its route unless the gateway's stored state is down. -/
def Shows (rules : List Rule) (anchor : List (Rule × List Char)) (rows : List ProbedGateway) :
    Prop :=
  ∀ r g, Steers rules rows r g → (∃ line, (r, line) ∈ anchor) ∧
    ∀ line, (r, line) ∈ anchor →
      line = r.toPfRuleRouted (if g.state = .down then none else some (g.interface, g.nextHop))

theorem resolveRuleRoute_of_steers (h : Steers rules rows r g) :
    resolveRuleRoute r (listGatewayRoutes rows) =
      if g.state = .down then none else some (g.interface, g.nextHop) := by
  obtain ⟨gwId, hgw, hrec⟩ := h.names
  obtain ⟨hiface, hhop⟩ := h.valid
  have hnot : ¬ (¬ (g.interface ≠ [] ∧ g.interface.all fun c =>
      c.isAlphanum || ['.', '_', '-'].contains c) ∨ (IpAddr.parse g.nextHop).isNone) := by
    rw [not_or, not_not, Option.isNone_iff_eq_none, ← ne_eq, Option.ne_none_iff_isSome]
    exact ⟨hiface, hhop⟩
  simp only [resolveRuleRoute, hgw, listGatewayRoutes, hrec, Option.map_some, Option.bind_eq_bind,
    Option.bind_some, GatewayState.asStr_eq_down, if_neg hnot]

/-- A load shows the table it was made from. -/
theorem shows_loadedLines (rules : List Rule) (schedules : Schedules) (rows : List ProbedGateway)
    (now : LocalTime) : Shows rules (loadedLines rules schedules rows now) rows := by
  intro r g h
  have hin : r.inSchedule schedules now = true := by
    rw [Rule.inSchedule, h.unscheduled, ruleScheduleActive]
  have hmem : r ∈ (rules.filter fun r => r.status = .active).filter
      fun r => r.inSchedule schedules now :=
    List.mem_filter.mpr ⟨List.mem_filter.mpr ⟨h.stored, decide_eq_true h.active⟩, hin⟩
  constructor
  · exact ⟨_, List.mem_map_of_mem hmem⟩
  · intro line hline
    obtain ⟨r', _, heq⟩ := List.mem_map.mp hline
    obtain ⟨rfl, rfl⟩ := Prod.mk.inj heq
    rw [resolveRuleRoute_of_steers h]

theorem recordOf_setState (id : Uuid) (state : GatewayState) (rows : List ProbedGateway)
    (gwId : List Char) : recordOf (setState id state rows) gwId =
      (recordOf rows gwId).map fun g => if g.id = id then { g with state } else g := by
  induction rows with
  | nil => rfl
  | cons g rows ih =>
    have hid : (if g.id = id then { g with state } else g).id = g.id := by
      split <;> rfl
    simp only [recordOf, setState, List.map_cons, List.find?_cons, hid] at ih ⊢
    split
    · rfl
    · exact ih

theorem Steers.of_setState {id : Uuid} (h : Steers rules (setState id state rows) r g') :
    ∃ g, Steers rules rows r g ∧ g' = if g.id = id then { g with state } else g := by
  obtain ⟨gwId, hgw, hrec⟩ := h.names
  rw [recordOf_setState, Option.map_eq_some_iff] at hrec
  obtain ⟨g, hg, heq⟩ := hrec
  have hvalid : g.Valid := by
    have hv := h.valid
    rw [← heq] at hv
    split at hv <;> exact hv
  exact ⟨g, ⟨h.stored, h.active, h.unscheduled, ⟨gwId, hgw, hg⟩, hvalid⟩, heq.symm⟩

/-- A state written that leaves every routed gateway on its side of down. -/
theorem Shows.setState {id : Uuid} (h : Shows rules anchor rows)
    (hsame : ∀ r g, Steers rules rows r g → g.id = id → (g.state = .down ↔ state = .down)) :
    Shows rules anchor (setState id state rows) := by
  intro r g' hs
  obtain ⟨g, hg, heq⟩ := hs.of_setState
  obtain ⟨hloaded, hline⟩ := h r g hg
  refine ⟨hloaded, ?_⟩
  intro line hmem
  rw [hline line hmem, heq]
  by_cases hid : g.id = id
  · rw [if_pos hid]
    simp only [hsame r g hg hid]
  · rw [if_neg hid]

theorem displayUuid_ne_nil (id : Uuid) : displayUuid id ≠ [] := by
  simp [displayUuid, List.intercalate, List.intersperse]

/-- Where no rule names a gateway there is nothing to show. -/
theorem shows_of_no_gateway_rules (h : hasGatewayRules rules = false)
    (anchor : List (Rule × List Char)) (rows : List ProbedGateway) : Shows rules anchor rows := by
  intro r g hs
  obtain ⟨gwId, hgw, hrec⟩ := hs.names
  have hfound := List.find?_some hrec
  have hid : displayUuid g.id = gwId := of_decide_eq_true hfound
  have hne : gwId ≠ [] := hid ▸ displayUuid_ne_nil g.id
  have hany := List.any_eq_false.mp h r hs.stored
  rw [hgw] at hany
  simp only [ne_eq, reduceCtorEq, not_false_eq_true, decide_true, Option.some.injEq, hne,
    Bool.and_self, not_true_eq_false] at hany

end AiFw.Wan
