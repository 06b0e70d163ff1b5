import AiFw.Lib.Runs
import Mathlib.Data.List.Nodup

namespace AiFw.Backup
open AiFw.Lib
set_option autoImplicit true

/-- What a caller of `commit_confirm_arm_with_snapshot` gives. -/
structure ArmRequest where
  snapshotJson : List Char
  description : List Char
  timeoutSecs : Nat
deriving DecidableEq

/-- The pending window, under the number it was stored with. -/
structure CommitConfirmInner where
  window : Nat
  rollbackConfig : List Char
  expiresAt : Int
  description : List Char
deriving DecidableEq

/-- How a window leaves the store: by an accept, or taken by the timer task of a window, which
applies the configuration its snapshot reads as. -/
inductive Leaving (Config : Type) where
  | accepted (window : Nat)
  | taken (timer window : Nat) (applied : Option Config)
deriving DecidableEq

/-- The store, the number of windows stored so far, those whose `cancel_tx` has sent or is dropped,
and how windows have left the store. -/
structure CommitStore (Config : Type) where
  store : Option CommitConfirmInner
  armed : Nat
  closed : List Nat
  left : List (Leaving Config)
deriving DecidableEq

def Leaving.window : Leaving Config → Nat
  | .accepted window | .taken _ window _ => window

def CommitStore.withdraw (s : CommitStore Config) (leaving : Leaving Config) :
    CommitStore Config :=
  { s with store := none, closed := leaving.window :: s.closed, left := leaving :: s.left }

/-- Where a task stands: an arming call, which goes on as the timer task it spawns, or an accept. -/
inductive CommitPhase where
  | read (request : ArmRequest)
  | write (request : ArmRequest) (expiresAt : Int)
  | spawn (window : Nat)
  | sleeping (window : Nat)
  | expired (window : Nat)
  | ended
  | conflict
  | accept
  | confirmed (pending : Bool)
deriving DecidableEq

/-- The clock at a step, and whether `select!` finds the sleep of a timer task over. -/
structure CommitTick where
  now : Int
  fires : Bool

section
variable {Config : Type} (fromJson : List Char → Option Config)

/-- One step of a task; a lock is held for the whole of a step. -/
def commitStep (tick : CommitTick) (s : CommitStore Config) :
    CommitPhase → CommitStore Config × CommitPhase
  | .read request =>
    if s.store.isSome then (s, .conflict) else (s, .write request (tick.now + request.timeoutSecs))
  | .write request expiresAt =>
    -- the slot can have been filled since it was read
    if s.store.isSome then (s, .conflict)
    else
      ({ s with
          store := some ⟨s.armed, request.snapshotJson, expiresAt, request.description⟩
          armed := s.armed + 1 }, .spawn s.armed)
  | .spawn window => (s, .sleeping window)
  | .sleeping window =>
    if tick.fires then (s, .expired window)
    else if window ∈ s.closed then (s, .ended)
    else (s, .sleeping window)
  | .expired window =>
    match s.store with
    | some inner =>
      -- whichever window is pending, its `cancel_tx` goes with it
      (s.withdraw (.taken window inner.window (fromJson inner.rollbackConfig)), .ended)
    | none => (s, .ended)
  | .accept =>
    match s.store with
    | some inner => (s.withdraw (.accepted inner.window), .confirmed true)
    | none => (s, .confirmed false)
  | phase@(.ended) | phase@(.conflict) | phase@(.confirmed _) => (s, phase)

/-- The window whose task this is, once it is stored. -/
def CommitPhase.window : CommitPhase → Option Nat
  | .spawn window | .sleeping window | .expired window => some window
  | _ => none

def CommitPhase.isExpired : CommitPhase → Bool
  | .expired _ => true
  | _ => false

/-- A step leaves the store alone, fills it, or empties it. -/
theorem commitStep_cases (tick : CommitTick) (s : CommitStore Config) (p : CommitPhase) :
    ((commitStep fromJson tick s p).1 = s ∧
        ∀ w, (commitStep fromJson tick s p).2.window = some w → p.window = some w) ∨
      (∃ request expiresAt, p = .write request expiresAt ∧ s.store = none ∧
        commitStep fromJson tick s p =
          ({ s with
              store := some ⟨s.armed, request.snapshotJson, expiresAt, request.description⟩
              armed := s.armed + 1 }, .spawn s.armed)) ∨
      ∃ inner leaving, s.store = some inner ∧ leaving.window = inner.window ∧
        (commitStep fromJson tick s p).1 = s.withdraw leaving ∧
        (commitStep fromJson tick s p).2.window = none ∧
        (leaving = .accepted inner.window ∨
          ∃ t applied, p = .expired t ∧ leaving = .taken t inner.window applied) := by
  cases p with
  | read request =>
    apply Or.inl
    dsimp only [commitStep]
    split
    · exact ⟨rfl, fun w hw => nomatch hw⟩
    · exact ⟨rfl, fun w hw => nomatch hw⟩
  | write request expiresAt =>
    dsimp only [commitStep]
    cases hstore : s.store with
    | some inner => exact .inl ⟨rfl, fun w hw => nomatch hw⟩
    | none => exact .inr (.inl ⟨request, expiresAt, rfl, rfl, rfl⟩)
  | spawn window => exact .inl ⟨rfl, fun w hw => hw⟩
  | sleeping window =>
    apply Or.inl
    dsimp only [commitStep]
    split
    · exact ⟨rfl, fun w hw => hw⟩
    · split
      · exact ⟨rfl, fun w hw => nomatch hw⟩
      · exact ⟨rfl, fun w hw => hw⟩
  | expired window =>
    dsimp only [commitStep]
    cases hstore : s.store with
    | none => exact .inl ⟨rfl, fun w hw => nomatch hw⟩
    | some inner =>
      exact .inr (.inr ⟨inner, _, rfl, rfl, rfl, rfl, .inr ⟨window, _, rfl, rfl⟩⟩)
  | accept =>
    dsimp only [commitStep]
    cases hstore : s.store with
    | none => exact .inl ⟨rfl, fun w hw => nomatch hw⟩
    | some inner => exact .inr (.inr ⟨inner, _, rfl, rfl, rfl, rfl, .inl rfl⟩)
  | ended => exact .inl ⟨rfl, fun w hw => nomatch hw⟩
  | conflict => exact .inl ⟨rfl, fun w hw => nomatch hw⟩
  | confirmed pending => exact .inl ⟨rfl, fun w hw => nomatch hw⟩

/-- A timer task comes to the lock only from its sleep. -/
theorem commitStep_expired (tick : CommitTick) (s : CommitStore Config)
    (h : (commitStep fromJson tick s p).2 = .expired w) : p = .sleeping w ∧ tick.fires = true := by
  cases p with
  | sleeping window =>
    dsimp only [commitStep] at h
    split at h
    · cases h
      exact ⟨rfl, ‹_›⟩
    · split at h
      · cases h
      · cases h
  | read request =>
    dsimp only [commitStep] at h
    split at h
    · cases h
    · cases h
  | write request expiresAt =>
    dsimp only [commitStep] at h
    split at h
    · cases h
    · cases h
  | expired window =>
    dsimp only [commitStep] at h
    split at h
    · cases h
    · cases h
  | accept =>
    dsimp only [commitStep] at h
    split at h
    · cases h
    · cases h
  | spawn window => cases h
  | ended => cases h
  | conflict => cases h
  | confirmed pending => cases h

end

/-- The windows stored so far are the ones that have left the store and the pending one. -/
structure CommitStore.Accounted (s : CommitStore Config) : Prop where
  newest : ∀ inner, s.store = some inner → inner.window + 1 = s.armed
  known : ∀ leaving ∈ s.left, leaving.window < s.armed
  leftOnce : (s.left.map Leaving.window).Nodup
  pending : ∀ inner, s.store = some inner → ∀ leaving ∈ s.left, leaving.window ≠ inner.window
  all : ∀ w < s.armed, (∃ inner, s.store = some inner ∧ inner.window = w) ∨
    ∃ leaving ∈ s.left, leaving.window = w

theorem CommitStore.Accounted.fill {s : CommitStore Config} (h : s.Accounted)
    (hstore : s.store = none) (snapshot : List Char) (expiresAt : Int) (description : List Char) :
    CommitStore.Accounted
      { s with store := some ⟨s.armed, snapshot, expiresAt, description⟩, armed := s.armed + 1 } where
  newest := by
    rintro inner ⟨⟩
    rfl
  known := fun leaving hl => Nat.lt_succ_of_lt (h.known leaving hl)
  leftOnce := h.leftOnce
  pending := by
    rintro inner ⟨⟩ leaving hl
    exact Nat.ne_of_lt (h.known leaving hl)
  all := by
    intro w hw
    obtain hlt | rfl := Nat.lt_succ_iff_lt_or_eq.mp hw
    · obtain ⟨inner, hinner, -⟩ | hleft := h.all w hlt
      · rw [hstore] at hinner
        cases hinner
      · exact .inr hleft
    · exact .inl ⟨_, rfl, rfl⟩

theorem CommitStore.Accounted.withdraw {s : CommitStore Config} (h : s.Accounted)
    {leaving : Leaving Config} {inner : CommitConfirmInner} (hstore : s.store = some inner)
    (hwindow : leaving.window = inner.window) : (s.withdraw leaving).Accounted where
  newest := fun _ hinner => nomatch hinner
  known := by
    intro l hl
    obtain rfl | hl := List.mem_cons.mp hl
    · rw [hwindow]
      exact Nat.lt_of_succ_le (Nat.le_of_eq (h.newest inner hstore))
    · exact h.known l hl
  leftOnce := by
    apply List.nodup_cons.mpr
    refine ⟨?_, h.leftOnce⟩
    rw [hwindow, List.mem_map]
    rintro ⟨l, hl, he⟩
    exact h.pending inner hstore l hl he
  pending := fun _ hinner => nomatch hinner
  all := by
    intro w hw
    obtain ⟨inner', hinner, rfl⟩ | ⟨l, hl, he⟩ := h.all w hw
    · rw [hstore] at hinner
      cases hinner
      exact .inr ⟨leaving, List.mem_cons_self, hwindow⟩
    · exact .inr ⟨l, List.mem_cons_of_mem leaving hl, he⟩

abbrev CommitRace (Config : Type) := Interleaved (CommitStore Config) CommitPhase

namespace CommitRace

def step (fromJson : List Char → Option Config) (s : CommitRace Config) (e : Nat × CommitTick) :
    CommitRace Config :=
  Interleaved.step (commitStep fromJson) s e

def run (fromJson : List Char → Option Config) (s : CommitRace Config)
    (events : List (Nat × CommitTick)) : CommitRace Config :=
  events.foldl (step fromJson) s

/-- No window is stored yet, and every call is an accept or an arming one before its first step. -/
def start (calls : List (Option ArmRequest)) : CommitRace Config where
  shared := ⟨none, 0, [], []⟩
  calls := calls.map fun
    | some request => .read request
    | none => .accept

/-- A window that is stored, and has neither been accepted nor taken by a timer task. -/
def Pending (s : CommitRace Config) (w : Nat) : Prop :=
  w < s.shared.armed ∧ ∀ leaving ∈ s.shared.left, leaving.window ≠ w

/-- The window was accepted. -/
def Accepted (s : CommitRace Config) (w : Nat) : Prop := .accepted w ∈ s.shared.left

/-- The timer task of the first window has taken the second one to roll it back. -/
def Taken (s : CommitRace Config) (timer w : Nat) : Prop :=
  ∃ applied, .taken timer w applied ∈ s.shared.left

structure OwnWindows (s : CommitRace Config) : Prop where
  accepted : ∀ w, s.Accepted w → ∀ timer, ¬s.Taken timer w
  one : ∀ w w', s.Pending w → s.Pending w' → w = w'
  own : ∀ timer w, s.Taken timer w → ¬timer < w

/-- No window is stored while a timer task whose sleep is over waits for the lock, and a timer
task finds its sleep over only when no later window is pending. -/
structure TimersInTime (s : CommitRace Config) (e : Nat × CommitTick) : Prop where
  stored : ∀ request expiresAt, s.At e.1 (.write request expiresAt) → s.shared.store = none →
    ∀ i timer, ¬s.At i (.expired timer)
  fired : ∀ timer, s.At e.1 (.sleeping timer) → e.2.fires = true →
    ∀ inner, s.shared.store = some inner → ¬timer < inner.window

/-- The invariant of the runs that needs no condition. -/
structure Sound (s : CommitRace Config) : Prop where
  accounted : s.shared.Accounted
  windows : ∀ i p, s.At i p → ∀ w, p.window = some w → w < s.shared.armed

section
variable {fromJson : List Char → Option Config} {s : CommitRace Config}

theorem start_phase (h : (start calls : CommitRace Config).At i p) :
    (∃ request, p = .read request) ∨ p = .accept := by
  obtain ⟨call, -, rfl⟩ := List.mem_map.mp (List.mem_of_getElem? h)
  cases call with
  | none => exact .inr rfl
  | some request => exact .inl ⟨request, rfl⟩

theorem start_sound (calls : List (Option ArmRequest)) : (start calls : CommitRace Config).Sound where
  accounted :=
    { newest := fun _ hinner => nomatch hinner
      known := fun _ hl => nomatch hl
      leftOnce := List.nodup_nil
      pending := fun _ hinner => nomatch hinner
      all := fun _ hw => nomatch hw }
  windows := by
    intro i p hp w hw
    obtain ⟨request, rfl⟩ | rfl := start_phase hp
    · cases hw
    · cases hw

theorem Sound.step (h : s.Sound) (e : Nat × CommitTick) : (s.step fromJson e).Sound := by
  obtain hsame | ⟨p, hp, hshared, hat⟩ := Interleaved.step_cases (commitStep fromJson) s e
  · rw [CommitRace.step, hsame]
    exact h
  have hothers : s.shared.armed ≤ (commitStep fromJson e.2 s.shared p).1.armed →
      (∀ w, (commitStep fromJson e.2 s.shared p).2.window = some w →
        w < (commitStep fromJson e.2 s.shared p).1.armed) →
      ∀ i q, (s.step fromJson e).At i q → ∀ w, q.window = some w →
        w < (s.step fromJson e).shared.armed := by
    intro hgrows hnext i q hq w hw
    rw [CommitRace.step, hshared]
    obtain ⟨-, rfl⟩ | ⟨-, hq⟩ := (hat i q).mp hq
    · exact hnext w hw
    · exact Nat.lt_of_lt_of_le (h.windows i q hq w hw) hgrows
  obtain ⟨hout, hnext⟩ | ⟨request, expiresAt, rfl, hstore, hout⟩ |
    ⟨inner, leaving, hstore, hwindow, hout, hnext, -⟩ := commitStep_cases fromJson e.2 s.shared p
  · constructor
    · rw [CommitRace.step, hshared, hout]
      exact h.accounted
    · apply hothers (Nat.le_of_eq (congrArg CommitStore.armed hout.symm))
      intro w hw
      rw [hout]
      exact h.windows e.1 p hp w (hnext w hw)
  · constructor
    · rw [CommitRace.step, hshared, hout]
      exact h.accounted.fill hstore _ _ _
    · rw [hout] at hothers
      apply hothers (Nat.le_succ s.shared.armed)
      rintro w ⟨⟩
      exact Nat.lt_succ_self s.shared.armed
  · constructor
    · rw [CommitRace.step, hshared, hout]
      exact h.accounted.withdraw hstore hwindow
    · rw [hout, hnext] at hothers
      exact hothers (Nat.le_refl s.shared.armed) fun w hw => nomatch hw

theorem Sound.run (h : s.Sound) (events : List (Nat × CommitTick)) :
    (s.run fromJson events).Sound := by
  induction events generalizing s with
  | nil => exact h
  | cons e events ih => exact ih (h.step e)

/-- A window leaves the store once, so an accepted one is not taken. -/
theorem Sound.accepted_stays (h : s.Sound) (hw : s.Accepted w) (timer : Nat) : ¬s.Taken timer w := by
  rintro ⟨applied, htaken⟩
  cases List.inj_on_of_nodup_map h.accounted.leftOnce hw htaken rfl

theorem Sound.pending_iff (h : s.Sound) :
    s.Pending w ↔ ∃ inner, s.shared.store = some inner ∧ inner.window = w := by
  constructor
  · rintro ⟨hw, hleft⟩
    exact (h.accounted.all w hw).resolve_right fun ⟨leaving, hl, he⟩ => hleft leaving hl he
  · rintro ⟨inner, hstore, rfl⟩
    exact ⟨Nat.lt_of_succ_le (Nat.le_of_eq (h.accounted.newest inner hstore)),
      h.accounted.pending inner hstore⟩

/-- At most one window is pending at a time. -/
theorem Sound.one_pending (h : s.Sound) (hw : s.Pending w) (hw' : s.Pending w') : w = w' := by
  obtain ⟨inner, hstore, rfl⟩ := h.pending_iff.mp hw
  obtain ⟨inner', hstore', rfl⟩ := h.pending_iff.mp hw'
  cases hstore.symm.trans hstore'
  rfl

/-- A timer task that has come to the lock finds no later window, and none has been taken so. -/
structure InTime (s : CommitRace Config) : Prop where
  sound : s.Sound
  expired : ∀ i timer, s.At i (.expired timer) → ∀ inner, s.shared.store = some inner →
    ¬timer < inner.window
  own : ∀ timer w, s.Taken timer w → ¬timer < w

theorem start_inTime (calls : List (Option ArmRequest)) :
    (start calls : CommitRace Config).InTime where
  sound := start_sound calls
  expired := fun _ _ _ _ hinner => nomatch hinner
  own := fun _ _ ⟨_, htaken⟩ => nomatch htaken

theorem InTime.step (h : s.InTime) (e : Nat × CommitTick) (hc : s.TimersInTime e) :
    (s.step fromJson e).InTime := by
  obtain hsame | ⟨p, hp, hshared, hat⟩ := Interleaved.step_cases (commitStep fromJson) s e
  · rw [CommitRace.step, hsame]
    exact h
  refine ⟨h.sound.step e, ?_, ?_⟩
  · intro i timer hi inner hinner
    rw [CommitRace.step, hshared] at hinner
    obtain ⟨hout, -⟩ | ⟨request, expiresAt, rfl, hstore, hout⟩ | ⟨_, leaving, -, -, hout, -⟩ :=
      commitStep_cases fromJson e.2 s.shared p
    · rw [hout] at hinner
      obtain ⟨-, hnext⟩ | ⟨-, hi⟩ := (hat i _).mp hi
      · obtain ⟨rfl, hfires⟩ := commitStep_expired fromJson e.2 s.shared hnext.symm
        exact hc.fired timer hp hfires inner hinner
      · exact h.expired i timer hi inner hinner
    · obtain ⟨-, hnext⟩ | ⟨-, hi⟩ := (hat i _).mp hi
      · rw [hout] at hnext
        cases hnext
      · exact absurd hi (hc.stored request expiresAt hp hstore i timer)
    · rw [hout] at hinner
      cases hinner
  · rintro timer w ⟨applied, htaken⟩
    rw [CommitRace.step, hshared] at htaken
    obtain ⟨hout, -⟩ | ⟨request, expiresAt, -, -, hout⟩ |
      ⟨inner, leaving, hstore, -, hout, -, hleaving⟩ := commitStep_cases fromJson e.2 s.shared p
    · rw [hout] at htaken
      exact h.own timer w ⟨applied, htaken⟩
    · rw [hout] at htaken
      exact h.own timer w ⟨applied, htaken⟩
    · rw [hout] at htaken
      obtain rfl | htaken := List.mem_cons.mp htaken
      · obtain he | ⟨t, _, rfl, he⟩ := hleaving
        · cases he
        · cases he
          exact h.expired e.1 timer hp inner hstore
      · exact h.own timer w ⟨applied, htaken⟩

end

/-- In every interleaving an accepted window stays accepted and at most one window is pending; and
where timers are in time, none takes a window that was armed after its own. -/
theorem ownWindows_of_inTime {Config : Type} (fromJson : List Char → Option Config)
    (calls : List (Option ArmRequest)) (events past : List (Nat × CommitTick))
    (hintime : Along (step fromJson) TimersInTime (start calls) events) (hpast : past <+: events) :
    ((start calls).run fromJson past).OwnWindows := by
  have hreached : ((start calls).run fromJson past).InTime :=
    hintime.reaches InTime (fun s e h hc => h.step e hc) (start_inTime calls) hpast
  exact ⟨fun w hw timer => hreached.sound.accepted_stays hw timer,
    fun w w' hw hw' => hreached.sound.one_pending hw hw', hreached.own⟩

def importRules : ArmRequest := ⟨"rules".toList, "import".toList, 0⟩

def quiet (task : Nat) : Nat × CommitTick := (task, ⟨0, false⟩)

def fires (task : Nat) : Nat × CommitTick := (task, ⟨0, true⟩)

/-- While no timer task waits for the lock, a step without a timer that fires is in time. -/
theorem timersInTime_quiet {s : CommitRace Config}
    (h : s.calls.any CommitPhase.isExpired = false) (task : Nat) :
    s.TimersInTime (quiet task) where
  stored := by
    intro _ _ _ _ i timer hi
    exact List.any_eq_false.mp h _ (List.mem_of_getElem? hi) rfl
  fired := by
    intro _ _ hfires
    cases hfires

/-- Two windows, and an accept between. -/
def twoWindows : CommitRace (List Char) := start [some importRules, none, some importRules]

/-- The first window is accepted and its timer task cancelled; the second is not accepted in time. -/
def acceptThenExpire : List (Nat × CommitTick) :=
  [quiet 0, quiet 0, quiet 0, quiet 1, quiet 0, quiet 2, quiet 2, quiet 2, fires 2, quiet 2]

theorem timersInTime_acceptThenExpire :
    Along (step some) TimersInTime twoWindows acceptThenExpire := by
  refine ⟨timersInTime_quiet rfl 0, timersInTime_quiet rfl 0, timersInTime_quiet rfl 0,
    timersInTime_quiet rfl 1, timersInTime_quiet rfl 0, timersInTime_quiet rfl 2,
    timersInTime_quiet rfl 2, timersInTime_quiet rfl 2, ⟨?_, ?_⟩, ⟨?_, ?_⟩, trivial⟩
  · intro _ _ hwrite
    cases hwrite
  · rintro _ ⟨⟩ _ _ ⟨⟩
    exact Nat.lt_irrefl 1
  · intro _ _ hwrite
    cases hwrite
  · intro _ _ hfires
    cases hfires

theorem ownWindows_acceptThenExpire :
    let s := twoWindows.run some acceptThenExpire
    s.Accepted 0 ∧ s.Taken 1 1 ∧ s.OwnWindows :=
  ⟨by unfold Accepted; decide, ⟨some "rules".toList, by decide⟩,
    ownWindows_of_inTime some [some importRules, none, some importRules] acceptThenExpire
      acceptThenExpire timersInTime_acceptThenExpire (List.prefix_refl acceptThenExpire)⟩

/-- The first window is accepted and another one armed before its timer task, whose sleep is over,
looks for the cancellation. -/
def acceptThenArm : List (Nat × CommitTick) :=
  [quiet 0, quiet 0, quiet 0, quiet 1, quiet 2, quiet 2, quiet 2, fires 0, quiet 0]

theorem timer_takes_later_window :
    (twoWindows.run some acceptThenArm).Accepted 0 ∧ (twoWindows.run some acceptThenArm).Taken 0 1 ∧
      ¬(twoWindows.run some acceptThenArm).OwnWindows := by
  have htaken : (twoWindows.run some acceptThenArm).Taken 0 1 := ⟨some "rules".toList, by decide⟩
  refine ⟨by unfold Accepted; decide, htaken, ?_⟩
  intro hown
  exact hown.own 0 1 htaken Nat.zero_lt_one

end CommitRace

end AiFw.Backup
