import AiFw.Lib.Runs
import AiFw.Pf.Anchor
import Mathlib.Data.List.Nodup

namespace AiFw.Pf
open AiFw.Lib
set_option autoImplicit true

/-- The stored rules and schedules; the id is the primary key of the rules. -/
structure Store where
  rules : List Rule
  schedules : Schedules
  distinct : (rules.map Rule.id).Nodup

def Store.activeRules (db : Store) : List Rule := db.rules.filter fun r => r.status = .active

def Store.scheduledRules (db : Store) : List Rule :=
  db.activeRules.filter fun r => r.scheduleId.isSome

/-- The rules `apply_rules` compiles at an instant. -/
def Store.compiled (db : Store) (now : LocalTime) : List Rule :=
  db.activeRules.filter fun r => r.inSchedule db.schedules now

theorem Store.renderActive_eq (db : Store) (gateways : GatewayRoutes) (now : LocalTime) :
    renderActive db.rules db.schedules gateways now =
      (db.compiled now).map fun r => r.toPfRuleRouted (resolveRuleRoute r gateways) := rfl

abbrev Fingerprint := List (Nat × Bool)

def gateLe (a b : Nat × Bool) : Bool := a.1 < b.1 || (a.1 == b.1 && a.2 ≤ b.2)

/-- Every scheduled rule with its window state, sorted; the order of the ids as texts is the one
of their numbers. -/
def Store.fingerprint (db : Store) (now : LocalTime) : Fingerprint :=
  (db.scheduledRules.map fun r => (r.id.toNat, r.inSchedule db.schedules now)).mergeSort gateLe

def Store.readFingerprint (db : Store) (readOk : Bool) (now : LocalTime) : Fingerprint :=
  if readOk then db.fingerprint now else []

/-- A load can succeed and `apply_rules` still fail, on its audit entry. -/
inductive ApplyResult where
  | done
  | loadedOnly
  | failed
deriving DecidableEq, Repr

def ApplyResult.loads (r : ApplyResult) : Bool := r ≠ .failed

inductive Event where
  | bootApply (result : ApplyResult)
  | baseline (readOk : Bool)
  | tick (readOk : Bool) (result : ApplyResult)
  | apiApply (result : ApplyResult)
deriving DecidableEq, Repr

/-- The rules in the anchor and the fingerprint the watcher compares with. -/
structure Watcher where
  anchor : List Rule
  last : Fingerprint

def Store.applyRules (db : Store) (result : ApplyResult) (now : LocalTime) (anchor : List Rule) :
    List Rule :=
  if result.loads then db.compiled now else anchor

def watchStep (db : Store) (w : Watcher) (e : LocalTime × Event) : Watcher :=
  match e.2 with
  | .bootApply result => { w with anchor := db.applyRules result e.1 w.anchor }
  | .apiApply result => { w with anchor := db.applyRules result e.1 w.anchor }
  | .baseline readOk => { w with last := db.readFingerprint readOk e.1 }
  | .tick readOk result =>
    let fp := db.readFingerprint readOk e.1
    if fp = w.last then w
    else
      { anchor := db.applyRules result e.1 w.anchor
        last := if result = .done then fp else w.last }

def Event.isDaemon : Event → Bool
  | .apiApply _ => false
  | _ => true

def Event.isTick : Event → Bool
  | .tick _ _ => true
  | _ => false

/-- The daemon boots, takes its baseline and ticks, with loads of the other process anywhere in
between. -/
structure WatchRun where
  events : List (LocalTime × Event)
  clock : (events.map Prod.fst).Pairwise (· ≤ ·)
  daemon : ∃ boot readOk ticks, (events.map Prod.snd).filter Event.isDaemon =
    .bootApply boot :: .baseline readOk :: ticks ∧ ∀ e ∈ ticks, e.isTick

/-- The instants behind the fingerprint and the anchor: the last reading the watcher kept, and the
last load. -/
structure Ledger where
  recordedAt : Option LocalTime
  loadedAt : Option LocalTime

def Store.fingerprintAt (db : Store) : Option LocalTime → Fingerprint
  | some t => db.fingerprint t
  | none => []

def Store.compiledAt (db : Store) : Option LocalTime → List Rule
  | some t => db.compiled t
  | none => []

def loadedAt (result : ApplyResult) (now : LocalTime) (before : Option LocalTime) :
    Option LocalTime :=
  if result.loads then some now else before

def ledgerStep (db : Store) (l : Ledger) (e : LocalTime × Event) : Ledger :=
  match e.2 with
  | .bootApply result => { l with loadedAt := loadedAt result e.1 l.loadedAt }
  | .apiApply result => { l with loadedAt := loadedAt result e.1 l.loadedAt }
  | .baseline readOk => { l with recordedAt := if readOk then some e.1 else none }
  | .tick readOk result =>
    let read := if readOk then some e.1 else none
    if db.fingerprintAt read = db.fingerprintAt l.recordedAt then l
    else
      { loadedAt := loadedAt result e.1 l.loadedAt
        recordedAt := if result = .done then read else l.recordedAt }

def watchLedgerStep (db : Store) (s : Watcher × Ledger) (e : LocalTime × Event) :
    Watcher × Ledger :=
  (watchStep db s.1 e, ledgerStep db s.2 e)

def watchStart : Watcher × Ledger := (⟨[], []⟩, ⟨none, none⟩)

/-- The ledger's instants explain what the watcher and the anchor hold. -/
structure Explained (db : Store) (s : Watcher × Ledger) : Prop where
  last : s.1.last = db.fingerprintAt s.2.recordedAt
  anchor : s.1.anchor = db.compiledAt s.2.loadedAt

theorem Store.readFingerprint_eq (db : Store) (readOk : Bool) (now : LocalTime) :
    db.readFingerprint readOk now = db.fingerprintAt (if readOk then some now else none) := by
  cases readOk <;> rfl

theorem Store.applyRules_eq (db : Store) (result : ApplyResult) (now : LocalTime)
    (before : Option LocalTime) : db.applyRules result now (db.compiledAt before) =
      db.compiledAt (loadedAt result now before) := by
  cases result <;> rfl

theorem Explained.step {db : Store} {s : Watcher × Ledger} (h : Explained db s)
    (e : LocalTime × Event) : Explained db (watchLedgerStep db s e) := by
  obtain ⟨⟨anchor, last⟩, ⟨recordedAt, loadedAt⟩⟩ := s
  obtain ⟨hlast, hanchor⟩ := h
  obtain ⟨now, ev⟩ := e
  dsimp only at hlast hanchor
  subst hlast hanchor
  cases ev with
  | bootApply result => exact ⟨rfl, db.applyRules_eq result now loadedAt⟩
  | apiApply result => exact ⟨rfl, db.applyRules_eq result now loadedAt⟩
  | baseline readOk => exact ⟨db.readFingerprint_eq readOk now, rfl⟩
  | tick readOk result =>
    simp only [watchLedgerStep, watchStep, ledgerStep, Store.readFingerprint_eq]
    generalize (if readOk then some now else none) = read
    by_cases hsame : db.fingerprintAt read = db.fingerprintAt recordedAt
    · simp only [hsame, if_true]
      exact ⟨rfl, rfl⟩
    · simp only [hsame, if_false]
      refine ⟨?_, db.applyRules_eq result now loadedAt⟩
      cases result <;> rfl

/-- The scheduled rules in the anchor are the ones in their window. -/
def InEffect (db : Store) (w : Watcher) (now : LocalTime) : Prop :=
  ∀ r, (r ∈ w.anchor ∧ r.scheduleId.isSome) ↔
    (r ∈ db.scheduledRules ∧ r.inSchedule db.schedules now)

def TickInEffect (db : Store) (s : Watcher × Ledger) (e : LocalTime × Event) : Prop :=
  e.2 = .tick true .done → InEffect db (watchStep db s.1 e) e.1

/-- The window state of the rule in the anchor; nothing is loaded at first. -/
def Ledger.loadedWindow (l : Ledger) (db : Store) (r : Rule) : Bool :=
  match l.loadedAt with
  | some t => r.inSchedule db.schedules t
  | none => false

/-- At a tick some window differs from the recorded reading, or none from the loaded one. -/
def BoundarySeen (db : Store) (s : Watcher × Ledger) (e : LocalTime × Event) : Prop :=
  e.2 = .tick true .done →
    (∀ t ∈ s.2.recordedAt, ∃ r ∈ db.scheduledRules,
      r.inSchedule db.schedules e.1 ≠ r.inSchedule db.schedules t) ∨
    ∀ r ∈ db.scheduledRules, r.inSchedule db.schedules e.1 = s.2.loadedWindow db r

theorem Store.rule_eq_of_id {db : Store} (hr : r ∈ db.rules) (hr' : r' ∈ db.rules)
    (h : r.id = r'.id) : r = r' :=
  List.inj_on_of_nodup_map db.distinct hr hr' h

theorem Store.mem_rules_of_scheduled {db : Store} (h : r ∈ db.scheduledRules) : r ∈ db.rules :=
  List.mem_of_mem_filter (List.mem_of_mem_filter h)

/-- Equal fingerprints are equal window states, rule by rule. -/
theorem Store.fingerprint_eq_iff (db : Store) (t t' : LocalTime) :
    db.fingerprint t = db.fingerprint t' ↔
      ∀ r ∈ db.scheduledRules, r.inSchedule db.schedules t = r.inSchedule db.schedules t' := by
  constructor
  · intro h r hr
    have hperm : (db.scheduledRules.map fun r => (r.id.toNat, r.inSchedule db.schedules t)).Perm
        (db.scheduledRules.map fun r => (r.id.toNat, r.inSchedule db.schedules t')) := by
      apply (List.mergeSort_perm _ gateLe).symm.trans
      unfold Store.fingerprint at h
      rw [h]
      exact List.mergeSort_perm _ gateLe
    have hm := hperm.mem_iff.mp (List.mem_map_of_mem hr)
    obtain ⟨r', hr', he⟩ := List.mem_map.mp hm
    rw [Prod.mk.injEq, BitVec.toNat_inj] at he
    have hrr := Store.rule_eq_of_id (Store.mem_rules_of_scheduled hr')
      (Store.mem_rules_of_scheduled hr) he.1
    rw [hrr] at he
    exact he.2.symm
  · intro h
    have hmap : (db.scheduledRules.map fun r => (r.id.toNat, r.inSchedule db.schedules t)) =
        db.scheduledRules.map fun r => (r.id.toNat, r.inSchedule db.schedules t') := by
      apply List.map_congr_left
      intro r hr
      rw [h r hr]
    rw [Store.fingerprint, hmap]
    rfl

theorem Store.inEffect_compiled (db : Store) (last : Fingerprint) (now : LocalTime) :
    InEffect db ⟨db.compiled now, last⟩ now := by
  intro r
  simp only [Store.compiled, Store.scheduledRules, List.mem_filter]
  constructor
  · rintro ⟨⟨ha, hw⟩, hs⟩
    exact ⟨⟨ha, hs⟩, hw⟩
  · rintro ⟨⟨ha, hs⟩, hw⟩
    exact ⟨⟨ha, hw⟩, hs⟩

/-- What an earlier load left in the anchor is in effect exactly if no window has changed. -/
theorem Store.inEffect_compiledAt (db : Store) (last : Fingerprint) (l : Ledger)
    (now : LocalTime) : InEffect db ⟨db.compiledAt l.loadedAt, last⟩ now ↔
      ∀ r ∈ db.scheduledRules, r.inSchedule db.schedules now = l.loadedWindow db r := by
  have hmem (r : Rule) : (r ∈ db.compiledAt l.loadedAt ∧ r.scheduleId.isSome) ↔
      (r ∈ db.scheduledRules ∧ l.loadedWindow db r = true) := by
    cases hl : l.loadedAt with
    | none => simp only [Store.compiledAt, Ledger.loadedWindow, hl, List.not_mem_nil, false_and,
        Bool.false_eq_true, and_false]
    | some t =>
      simp only [Store.compiledAt, Ledger.loadedWindow, hl]
      exact db.inEffect_compiled [] t r
  simp only [InEffect, hmem]
  constructor
  · intro h r hr
    have hiff := h r
    simp only [hr, true_and] at hiff
    exact (Bool.eq_iff_iff.mpr hiff).symm
  · intro h r
    constructor
    · rintro ⟨hr, hw⟩
      exact ⟨hr, (h r hr).trans hw⟩
    · rintro ⟨hr, hw⟩
      exact ⟨hr, (h r hr).symm.trans hw⟩

theorem Store.fingerprint_nil_iff (db : Store) (t : LocalTime) :
    db.fingerprint t = [] ↔ db.scheduledRules = [] := by
  rw [Store.fingerprint, ← List.length_eq_zero_iff, List.length_mergeSort, List.length_map,
    List.length_eq_zero_iff]

/-- One tick: the reload is skipped exactly when no window differs from the recorded reading. -/
theorem tickInEffect_iff {db : Store} {s : Watcher × Ledger} (h : Explained db s)
    (e : LocalTime × Event) : TickInEffect db s e ↔ BoundarySeen db s e := by
  obtain ⟨⟨anchor, last⟩, l⟩ := s
  obtain ⟨hlast, hanchor⟩ := h
  obtain ⟨now, ev⟩ := e
  dsimp only at hlast hanchor
  subst hlast hanchor
  unfold TickInEffect BoundarySeen
  apply imp_congr_right
  rintro rfl
  have hread : db.readFingerprint true now = db.fingerprint now := rfl
  simp only [watchStep, hread]
  split
  · rename_i hsame
    rw [db.inEffect_compiledAt]
    constructor
    · exact .inr
    · rintro (hseen | hload)
      · cases hr : l.recordedAt with
        | none =>
          rw [hr] at hsame
          have hnil := (db.fingerprint_nil_iff now).mp hsame
          intro r hm
          rw [hnil] at hm
          cases hm
        | some t =>
          rw [hr] at hsame
          obtain ⟨r, hm, hne⟩ := hseen t hr
          exact absurd ((db.fingerprint_eq_iff now t).mp hsame r hm) hne
      · exact hload
  · rename_i hdiff
    refine iff_of_true (db.inEffect_compiled _ now) (.inl ?_)
    intro t ht
    rw [Option.mem_def.mp ht, Store.fingerprintAt, db.fingerprint_eq_iff] at hdiff
    simpa only [not_forall, exists_prop] using hdiff

/-- Ticks keep the schedules in effect in exactly the runs in which each tick sees a boundary
since the recorded reading, or there was none since the last load. -/
theorem schedules_in_effect_iff (db : Store) (run : WatchRun) :
    Along (watchLedgerStep db) (TickInEffect db) watchStart run.events ↔
      Along (watchLedgerStep db) (BoundarySeen db) watchStart run.events :=
  Along.congr (Explained db) (fun _ e h _ => h.step e) (fun _ e h => tickInEffect_iff h e)
    ⟨rfl, rfl⟩ run.events

/-- Open from the second minute of every day on. -/
def morningStore : Store where
  rules := [{ sampleRule with scheduleId := some "morning".toList }]
  schedules := fun _ => some ⟨true, List.replicate 7 true, [(1, 720)]⟩
  distinct := by decide

/-- The window opens between the load at boot and the baseline. -/
def boundaryBeforeBaseline : WatchRun where
  events := [(59, .bootApply .done), (60, .baseline true), (60, .tick true .done)]
  clock := by decide
  daemon := ⟨.done, true, [.tick true .done], by decide, by decide⟩

theorem schedules_in_effect_false :
    ¬Along (watchLedgerStep morningStore) (TickInEffect morningStore) watchStart
      boundaryBeforeBaseline.events := by
  rintro ⟨-, -, htick, -⟩
  have hrule := (htick rfl { sampleRule with scheduleId := some "morning".toList }).mpr
    (by decide +kernel)
  revert hrule
  decide +kernel

end AiFw.Pf
