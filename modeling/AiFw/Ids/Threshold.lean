import AiFw.Ids.Ruleset
import AiFw.Lib.KeyedMap

namespace AiFw.Ids
open AiFw.Net AiFw.Lib
set_option autoImplicit true

structure ThresholdState where
  count : UInt32
  windowStart : Int
  alerted : Bool
deriving DecidableEq, Repr

def ThresholdState.fresh (now : Int) : ThresholdState := ⟨0, now, false⟩

def ThresholdState.renew (state : ThresholdState) (now : Int) (config : ThresholdConfig) :
    ThresholdState :=
  if now - state.windowStart ≥ config.seconds.toNat then .fresh now else state

/-- Count a hit, wrapping at the word size, and decide whether it fires. -/
def ThresholdState.countHit (state : ThresholdState) (config : ThresholdConfig) :
    ThresholdState × Bool :=
  let state := { state with count := state.count + 1 }
  match config.thresholdType with
  | .limit => (state, decide (state.count ≤ config.count))
  | .threshold =>
    (state, decide (state.count ≥ config.count ∧ (state.count - config.count) % config.count = 0))
  | .both =>
    if state.count ≥ config.count ∧ state.alerted = false then
      ({ state with alerted := true }, true)
    else (state, false)

def ThresholdState.hit (entry : Option ThresholdState) (call : Int × ThresholdConfig) :
    ThresholdState × Bool :=
  ((entry.getD (.fresh call.1)).renew call.1 call.2).countHit call.2

structure ThresholdTracker where
  state : KeyedMap (UInt32 × IpAddr) ThresholdState

namespace ThresholdTracker

def new : ThresholdTracker := ⟨∅⟩

/-- `check` with the clock reading as an argument. -/
def check (tracker : ThresholdTracker) (now : Int) (sid : UInt32) (ip : IpAddr)
    (config : ThresholdConfig) : ThresholdTracker × Bool :=
  let (state, fire) := tracker.state.hitAt ThresholdState.hit (sid, ip) (now, config)
  (⟨state⟩, fire)

def cleanup (tracker : ThresholdTracker) (now maxAgeSecs : Int) : ThresholdTracker :=
  ⟨tracker.state.retain fun _ state => decide (now - state.windowStart < maxAgeSecs)⟩

structure Call where
  now : Int
  sid : UInt32
  ip : IpAddr
  config : ThresholdConfig
deriving DecidableEq, Repr

def answers (tracker : ThresholdTracker) : List Call → List Bool
  | [] => []
  | c :: cs =>
    let (tracker, fire) := tracker.check c.now c.sid c.ip c.config
    fire :: answers tracker cs

end ThresholdTracker

/-- Whether the `i`-th hit of a window fires, counting from one. -/
def ThresholdConfig.fires (config : ThresholdConfig) (i : Nat) : Bool :=
  match config.thresholdType with
  | .limit => decide (i ≤ config.count.toNat)
  | .threshold => decide (config.count.toNat ∣ i)
  | .both => decide (i = config.count.toNat)

/-- An entry after `i` hits in a window that opened at `start`. -/
structure ThresholdState.After (config : ThresholdConfig) (start : Int) (i : Nat)
    (state : ThresholdState) : Prop where
  count : state.count.toNat = i
  opened : state.windowStart = start
  alerted : config.thresholdType = .both → (state.alerted = true ↔ config.count.toNat ≤ i)

theorem ThresholdState.fresh_after {config : ThresholdConfig}
    (hc : config.thresholdType = .both → 1 ≤ config.count.toNat) (now : Int) :
    (ThresholdState.fresh now).After config now 0 := by
  refine ⟨rfl, rfl, fun hb => ?_⟩
  have hc := hc hb
  simp only [ThresholdState.fresh, Bool.false_eq_true, false_iff]
  omega

theorem threshold_fires_iff {n c : UInt32} (hn : 1 ≤ n.toNat) :
    n ≥ c ∧ (n - c) % c = 0 ↔ c.toNat ∣ n.toNat := by
  rw [ge_iff_le, UInt32.le_iff_toNat_le]
  constructor
  · rintro ⟨hle, hz⟩
    have hz := congrArg UInt32.toNat hz
    rw [UInt32.toNat_mod, UInt32.toNat_sub_of_le _ _ (UInt32.le_iff_toNat_le.mpr hle)] at hz
    have hd := Nat.dvd_of_mod_eq_zero hz
    exact (Nat.dvd_sub_iff_left hle (Nat.dvd_refl _)).mp hd
  · intro hd
    have hle := Nat.le_of_dvd hn hd
    refine ⟨hle, UInt32.toNat_inj.mp ?_⟩
    rw [UInt32.toNat_mod, UInt32.toNat_sub_of_le _ _ (UInt32.le_iff_toNat_le.mpr hle)]
    exact Nat.mod_eq_zero_of_dvd (Nat.dvd_sub hd (Nat.dvd_refl _))

theorem ThresholdState.After.countHit {state : ThresholdState} (h : state.After config start i)
    (hi : i + 1 < 2 ^ 32) :
    (state.countHit config).1.After config start (i + 1) ∧
      (state.countHit config).2 = config.fires (i + 1) := by
  have hn : (state.count + 1).toNat = i + 1 := by
    rw [UInt32.toNat_add, h.count]
    exact Nat.mod_eq_of_lt hi
  cases ht : config.thresholdType with
  | limit =>
    simp only [ThresholdState.countHit, ThresholdConfig.fires, ht, UInt32.le_iff_toNat_le, hn,
      and_true]
    exact ⟨hn, h.opened, fun hb => by rw [ht] at hb; cases hb⟩
  | threshold =>
    have hf := threshold_fires_iff (c := config.count) (n := state.count + 1) (by omega)
    rw [hn] at hf
    simp only [ThresholdState.countHit, ThresholdConfig.fires, ht, hf, and_true]
    exact ⟨hn, h.opened, fun hb => by rw [ht] at hb; cases hb⟩
  | both =>
    have ha := h.alerted ht
    simp only [ThresholdState.countHit, ThresholdConfig.fires, ht]
    split
    next hf =>
      rw [ge_iff_le, UInt32.le_iff_toNat_le, hn] at hf
      have hlt : ¬config.count.toNat ≤ i := by
        rw [← ha, hf.2]
        exact Bool.false_ne_true
      refine ⟨⟨hn, h.opened, fun _ => ⟨fun _ => hf.1, fun _ => rfl⟩⟩, ?_⟩
      rw [eq_comm, decide_eq_true_eq]
      omega
    next hf =>
      rw [ge_iff_le, UInt32.le_iff_toNat_le, hn, ← Bool.not_eq_true, ha] at hf
      refine ⟨⟨hn, h.opened, fun _ => ha.trans ?_⟩, ?_⟩
      · omega
      · rw [eq_comm, decide_eq_false_iff_not]
        omega

theorem ThresholdState.renew_expired {state : ThresholdState}
    (h : ¬now - state.windowStart < config.seconds.toNat) :
    state.renew now config = .fresh now :=
  if_pos (Int.not_lt.mp h)

theorem ThresholdState.renew_within {state : ThresholdState}
    (h : now - state.windowStart < config.seconds.toNat) : state.renew now config = state :=
  if_neg (Int.not_le.mpr h)

theorem ThresholdState.renew_fresh : (ThresholdState.fresh now).renew now config = .fresh now :=
  ite_self _

namespace ThresholdConfig

variable {α : Type} {config : ThresholdConfig} {time : α → Int} {hits : List α}

def entryAnswers (config : ThresholdConfig) (time : α → Int) (entry : Option ThresholdState)
    (hits : List α) : List Bool :=
  outputs ThresholdState.hit entry (hits.map fun x => (time x, config))

theorem entryAnswers_step : config.entryAnswers time entry (x :: xs) =
    (ThresholdState.hit entry (time x, config)).2 ::
      config.entryAnswers time (some (ThresholdState.hit entry (time x, config)).1) xs := rfl

def inWindow (config : ThresholdConfig) (time : α → Int) (start : Int) (hits : List α) : List α :=
  hits.takeWhile fun x => decide (time x - start < config.seconds.toNat)

def afterWindow (config : ThresholdConfig) (time : α → Int) (start : Int) (hits : List α) :
    List α :=
  hits.dropWhile fun x => decide (time x - start < config.seconds.toNat)

theorem entryAnswers_expired {state : ThresholdState}
    (h : ∀ x ∈ hits.head?, ¬time x - state.windowStart < config.seconds.toNat) :
    config.entryAnswers time (some state) hits = config.entryAnswers time none hits := by
  cases hits with
  | nil => rfl
  | cons x xs =>
    have he := ThresholdState.renew_expired (h x rfl)
    simp only [entryAnswers, List.map_cons, outputs, ThresholdState.hit, Option.getD_some,
      Option.getD_none, he, ThresholdState.renew_fresh]

/-- Within a window the answers follow the hit numbers, up to the first hit outside of it. -/
theorem entryAnswers_within {state : ThresholdState} (h : state.After config start i)
    (hw : i + (config.inWindow time start hits).length < 2 ^ 32) :
    config.entryAnswers time (some state) hits =
      (List.range' (i + 1) (config.inWindow time start hits).length).map config.fires ++
      config.entryAnswers time none (config.afterWindow time start hits) := by
  rw [inWindow, afterWindow] at *
  induction hits generalizing state i with
  | nil => rfl
  | cons x xs ih =>
    by_cases hin : time x - start < config.seconds.toNat
    · simp only [List.takeWhile_cons, List.dropWhile_cons, hin, decide_true, if_true,
        List.length_cons] at hw ⊢
      obtain ⟨ha, hf⟩ := h.countHit (by omega)
      have hr : state.renew (time x) config = state := ThresholdState.renew_within (h.opened ▸ hin)
      have hrec := ih ha (by omega)
      rw [List.range'_succ, List.map_cons, List.cons_append, ← hrec, ← hf]
      simp only [entryAnswers, List.map_cons, outputs, ThresholdState.hit, Option.getD_some, hr]
    · simp only [List.takeWhile_cons, List.dropWhile_cons, hin, decide_false,
        Bool.false_eq_true, if_false, List.length_nil, List.range'_zero, List.map_nil,
        List.nil_append]
      apply entryAnswers_expired
      intro y hy
      cases hy
      rw [h.opened]
      exact hin

theorem entryAnswers_cons (hc : config.thresholdType = .both → 1 ≤ config.count.toNat)
    (hw : (config.inWindow time (time x) xs).length + 1 < 2 ^ 32) :
    config.entryAnswers time none (x :: xs) =
      (List.range' 1 ((config.inWindow time (time x) xs).length + 1)).map config.fires ++
      config.entryAnswers time none (config.afterWindow time (time x) xs) := by
  obtain ⟨ha, hf⟩ := (ThresholdState.fresh_after hc (time x)).countHit (by omega)
  rw [List.range'_succ, List.map_cons, List.cons_append, ← entryAnswers_within ha (by omega), ← hf]
  simp only [entryAnswers, List.map_cons, outputs, ThresholdState.hit, Option.getD_none,
    ThresholdState.renew_fresh]

theorem entryAnswers_windows (hc : config.thresholdType = .both → 1 ≤ config.count.toNat)
    (hw : ∀ w ∈ timeWindows time config.seconds.toNat hits, w.length < 2 ^ 32) :
    config.entryAnswers time none hits =
      (timeWindows time config.seconds.toNat hits).flatMap fun w =>
        (List.range' 1 w.length).map config.fires := by
  induction hits using timeWindows.induct time config.seconds.toNat with
  | case1 => simp only [timeWindows, List.flatMap_nil]; rfl
  | case2 x xs ih =>
    rw [timeWindows] at hw ⊢
    have hlen := hw _ List.mem_cons_self
    have hrest := ih fun w hm => hw w (List.mem_cons_of_mem _ hm)
    rw [List.length_cons] at hlen
    rw [List.flatMap_cons, ← hrest, List.length_cons]
    exact entryAnswers_cons hc hlen

end ThresholdConfig

namespace ThresholdTracker

def Call.input (c : Call) : (UInt32 × IpAddr) × (Int × ThresholdConfig) :=
  ((c.sid, c.ip), (c.now, c.config))

theorem answers_eq_outputsAt (tracker : ThresholdTracker) (calls : List Call) :
    tracker.answers calls = tracker.state.outputsAt ThresholdState.hit (calls.map Call.input) := by
  induction calls generalizing tracker with
  | nil => rfl
  | cons c calls ih => exact congrArg _ (ih _)

def callsOf (sid : UInt32) (ip : IpAddr) (calls : List Call) : List Call :=
  calls.filter fun c => c.sid = sid ∧ c.ip = ip

def answersOf (sid : UInt32) (ip : IpAddr) (calls : List Call) (answers : List Bool) : List Bool :=
  ((calls.zip answers).filter fun e => e.1.sid = sid ∧ e.1.ip = ip).map Prod.snd

theorem answersOf_eq_ownOutputs (sid : UInt32) (ip : IpAddr) (calls : List Call)
    (answers : List Bool) :
    answersOf sid ip calls answers =
      KeyedMap.ownOutputs (sid, ip) (calls.map Call.input) answers := by
  have hp : (fun e : ((UInt32 × IpAddr) × (Int × ThresholdConfig)) × Bool =>
      decide (e.1.1 = (sid, ip))) ∘ Prod.map Call.input id =
      fun e : Call × Bool => decide (e.1.sid = sid ∧ e.1.ip = ip) := by
    funext e
    simp only [Function.comp_apply, Prod.map_fst, Call.input, Prod.mk.injEq]
  rw [answersOf, KeyedMap.ownOutputs, List.zip_map_left, List.filter_map, List.map_map, hp]
  rfl

theorem ownInputs_eq_callsOf {calls : List Call} {configOf : UInt32 → ThresholdConfig}
    (h : ∀ c ∈ calls, c.config = configOf c.sid) (sid : UInt32) (ip : IpAddr) :
    KeyedMap.ownInputs (sid, ip) (calls.map Call.input) =
      (callsOf sid ip calls).map fun c => (c.now, configOf sid) := by
  induction calls with
  | nil => rfl
  | cons c calls ih =>
    have ih := ih fun c' hm => h c' (List.mem_cons_of_mem _ hm)
    have hc := h c List.mem_cons_self
    rw [KeyedMap.ownInputs, callsOf] at ih ⊢
    by_cases he : c.sid = sid ∧ c.ip = ip
    · have hk : c.input.1 = (sid, ip) := Prod.ext he.1 he.2
      rw [he.1] at hc
      simp only [List.map_cons, List.filter_cons, hk, he, and_self, decide_true, if_true, ih,
        List.cons.injEq, and_true]
      exact Prod.ext rfl hc
    · have hk : c.input.1 ≠ (sid, ip) := fun hk => he (Prod.mk.inj hk)
      simp only [List.map_cons, List.filter_cons, hk, he, decide_false, Bool.false_eq_true,
        if_false, ih]

/-- The answers for a rule and address are those its own calls get when they are cut into
windows and numbered within each, whatever the other calls in between and whichever way the
clock moves. -/
theorem answers_by_windows {calls : List Call} (configOf : UInt32 → ThresholdConfig)
    (hconfig : ∀ c ∈ calls, c.config = configOf c.sid) (sid : UInt32) (ip : IpAddr)
    (hcount : 1 ≤ (configOf sid).count.toNat)
    (hhits : ∀ w ∈ timeWindows Call.now (configOf sid).seconds.toNat (callsOf sid ip calls),
      w.length < 2 ^ 32) :
    answersOf sid ip calls (new.answers calls) =
      (timeWindows Call.now (configOf sid).seconds.toNat (callsOf sid ip calls)).flatMap fun w =>
        (List.range' 1 w.length).map (configOf sid).fires := by
  rw [answersOf_eq_ownOutputs, answers_eq_outputsAt, KeyedMap.ownOutputs_outputsAt,
    ownInputs_eq_callsOf hconfig, ← ThresholdConfig.entryAnswers_windows (fun _ => hcount) hhits]
  rfl

def twiceAMinute : ThresholdConfig := ⟨.limit, .bySrc, 2, 60⟩

def fourCalls : List Call :=
  [⟨0, 1, .v4 1, twiceAMinute⟩, ⟨5, 1, .v4 2, twiceAMinute⟩, ⟨30, 1, .v4 1, twiceAMinute⟩,
    ⟨59, 1, .v4 1, twiceAMinute⟩]

theorem answers_by_windows_limit :
    answersOf 1 (.v4 1) fourCalls (new.answers fourCalls) = [true, true, false] := by
  have hw : timeWindows Call.now (twiceAMinute.seconds.toNat : Nat)
      (callsOf 1 (.v4 1) fourCalls) = [callsOf 1 (.v4 1) fourCalls] :=
    timeWindows_eq_single (by decide)
  rw [answers_by_windows (fun _ => twiceAMinute) (by decide) 1 (.v4 1) (by decide)
    (by rw [hw]; decide), hw]
  decide

end ThresholdTracker

end AiFw.Ids
