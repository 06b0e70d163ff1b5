import AiFw.Auth.Tokens
import AiFw.Lib.Runs

namespace AiFw.Auth
open AiFw.Lib
set_option autoImplicit true

/-- A row of `recovery_codes`; the hash is the code it was made from. -/
structure RecoveryRow where
  id : Uuid
  userId : List Char
  codeHash : List Char
  used : Bool
deriving DecidableEq

def RecoveryRow.markUsed (id : Uuid) (r : RecoveryRow) : RecoveryRow :=
  if r.id = id then { r with used := true } else r

theorem markUsed_id (id : Uuid) (r : RecoveryRow) : (r.markUsed id).id = r.id := by
  unfold RecoveryRow.markUsed
  split
  · rfl
  · rfl

/-- The rows of `SELECT id, code_hash FROM recovery_codes WHERE user_id = ?1 AND used = 0`. -/
def unusedCodes (userId : List Char) (rows : List RecoveryRow) : List RecoveryRow :=
  rows.filter fun r => r.userId = userId && !r.used

def findUnused (userId code : List Char) (rows : List RecoveryRow) : Option RecoveryRow :=
  (unusedCodes userId rows).find? fun r => verifyPassword code r.codeHash

/-- Where a call of `use_recovery_code` stands between its statements. -/
inductive RecoveryPhase where
  | select
  | mark (id : Uuid)
  | done (accepted : Bool)
deriving DecidableEq

/-- One statement of the call, which goes through or fails; what the `UPDATE` says is ignored. -/
def recoveryStep (userId code : List Char) (ok : Bool) (rows : List RecoveryRow) :
    RecoveryPhase → List RecoveryRow × RecoveryPhase
  | .select =>
    match if ok then findUnused userId code rows else none with
    | some r => (rows, .mark r.id)
    | none => (rows, .done false)
  | .mark id => (if ok then rows.map (RecoveryRow.markUsed id) else rows, .done true)
  | .done accepted => (rows, .done accepted)

/-- A call whose statements all go through without another in between. -/
def useRecoveryCode (rows : List RecoveryRow) (userId code : List Char) :
    List RecoveryRow × Bool :=
  match findUnused userId code rows with
  | some r => (rows.map (RecoveryRow.markUsed r.id), true)
  | none => (rows, false)

theorem useRecoveryCode_steps (rows : List RecoveryRow) (userId code : List Char) :
    ∃ rows' phase, recoveryStep userId code true rows .select = (rows', phase) ∧
      recoveryStep userId code true rows' phase =
        ((useRecoveryCode rows userId code).1, .done (useRecoveryCode rows userId code).2) := by
  simp only [useRecoveryCode, recoveryStep, if_true]
  cases findUnused userId code rows with
  | none => exact ⟨_, _, rfl, rfl⟩
  | some r => exact ⟨_, _, rfl, rfl⟩

/-- The code is the one the row of the user was made from. -/
def RecoveryRow.Matches (userId code : List Char) (r : RecoveryRow) : Prop :=
  r.userId = userId ∧ r.codeHash = code

theorem mem_of_findUnused (h : findUnused userId code rows = some r) :
    r ∈ rows ∧ r.Matches userId code ∧ r.used = false := by
  have hcode : verifyPassword code r.codeHash = true := by
    simpa using List.find?_some h
  obtain ⟨hr, hrow⟩ := List.mem_filter.mp (List.mem_of_find?_eq_some h)
  rw [Bool.and_eq_true, decide_eq_true_eq, Bool.not_eq_true'] at hrow
  exact ⟨hr, ⟨hrow.1, (of_decide_eq_true hcode).symm⟩, hrow.2⟩

theorem recoveryStep_select (userId code : List Char) (ok : Bool) (rows : List RecoveryRow) :
    recoveryStep userId code ok rows .select = (rows, .done false) ∨
      ∃ r, findUnused userId code rows = some r ∧
        recoveryStep userId code ok rows .select = (rows, .mark r.id) := by
  unfold recoveryStep
  cases ok with
  | false => exact .inl rfl
  | true =>
    cases hfind : findUnused userId code rows with
    | none => exact .inl rfl
    | some r => exact .inr ⟨r, rfl, rfl⟩

/-- A row of the code was one before the statement, and is not less used. -/
theorem recoveryStep_rows (h : r ∈ (recoveryStep userId code ok rows p).1) :
    ∃ old ∈ rows, old.id = r.id ∧ (r.Matches userId code → old.Matches userId code) ∧
      (old.used = true → r.used = true) := by
  have hsame : r ∈ rows → ∃ old ∈ rows, old.id = r.id ∧
      (r.Matches userId code → old.Matches userId code) ∧ (old.used = true → r.used = true) :=
    fun hr => ⟨r, hr, rfl, id, id⟩
  cases p with
  | select =>
    obtain hsel | ⟨_, _, hsel⟩ := recoveryStep_select userId code ok rows
    · rw [hsel] at h
      exact hsame h
    · rw [hsel] at h
      exact hsame h
  | mark id =>
    cases ok with
    | false => exact hsame h
    | true =>
      obtain ⟨old, hold, rfl⟩ := List.mem_map.mp h
      refine ⟨old, hold, (markUsed_id id old).symm, ?_⟩
      unfold RecoveryRow.markUsed
      split
      · exact ⟨fun hm => hm, fun _ => rfl⟩
      · exact ⟨fun hm => hm, fun hu => hu⟩
  | done accepted => exact hsame h

abbrev RecoveryRace := Interleaved (List RecoveryRow) RecoveryPhase

namespace RecoveryRace

def start (rows : List RecoveryRow) (n : Nat) : RecoveryRace := ⟨rows, List.replicate n .select⟩

def run (userId code : List Char) (s : RecoveryRace) (events : List (Nat × Bool)) : RecoveryRace :=
  events.foldl (Interleaved.step (recoveryStep userId code)) s

end RecoveryRace

/-- The user has the code in one row. -/
def StoredOnce (userId code : List Char) (rows : List RecoveryRow) : Prop :=
  ∀ r ∈ rows, ∀ r' ∈ rows, r.Matches userId code → r'.Matches userId code → r.id = r'.id

def AcceptedAtMostOnce (s : RecoveryRace) : Prop :=
  ∀ i j, s.At i (.done true) → s.At j (.done true) → i = j

/-- The call has found the code unused. -/
def RecoveryPhase.Found : RecoveryPhase → Prop
  | .mark _ | .done true => True
  | .select | .done false => False

/-- No call finds the code unused that another has found and not yet marked, and the marking goes
through. -/
def MarksInTime (userId code : List Char) (s : RecoveryRace) (e : Nat × Bool) : Prop :=
  (s.At e.1 .select → (findUnused userId code s.shared).isSome = true → ∀ i id, ¬s.At i (.mark id)) ∧
    ∀ id, s.At e.1 (.mark id) → e.2 = true

/-- One call has found the code, and once it has marked it no row of the code is unused. -/
structure SpentOnce (userId code : List Char) (id : Uuid) (s : RecoveryRace) : Prop where
  ids : ∀ r ∈ s.shared, r.Matches userId code → r.id = id
  one : ∀ i j p q, s.At i p → s.At j q → p.Found → q.Found → i = j
  pending : ∀ i k, s.At i (.mark k) → k = id
  spent : ∀ i, s.At i (.done true) → ∀ r ∈ s.shared, r.Matches userId code → r.used = true

theorem SpentOnce.start (h : StoredOnce userId code rows) (n : Nat) :
    ∃ id, SpentOnce userId code id (.start rows n) := by
  have hselect : ∀ i p, (RecoveryRace.start rows n).At i p → p = .select :=
    fun _ _ => Interleaved.at_replicate
  have hid : ∃ id, ∀ r ∈ rows, r.Matches userId code → r.id = id := by
    by_cases hex : ∃ r ∈ rows, r.Matches userId code
    · obtain ⟨r, hr, hm⟩ := hex
      exact ⟨r.id, fun r' hr' hm' => h r' hr' r hr hm' hm⟩
    · exact ⟨0, fun r hr hm => absurd ⟨r, hr, hm⟩ hex⟩
  obtain ⟨id, hid⟩ := hid
  refine ⟨id, hid, ?_, ?_, ?_⟩
  · intro i j p q hp hq hfound
    rw [hselect i p hp] at hfound
    exact hfound.elim
  · intro i k hk
    cases hselect i _ hk
  · intro i hi
    cases hselect i _ hi

/-- A call that finds the code is the first to do so. -/
theorem SpentOnce.none_found {id : Uuid} {s : RecoveryRace} (h : SpentOnce userId code id s)
    (hfind : findUnused userId code s.shared = some r) (hfree : ∀ i k, ¬s.At i (.mark k)) :
    ∀ i p, s.At i p → ¬p.Found := by
  intro i p hp hfound
  obtain ⟨hr, hm, hunused⟩ := mem_of_findUnused hfind
  cases p with
  | select => exact hfound
  | mark k => exact hfree i k hp
  | done accepted =>
    cases accepted with
    | false => exact hfound
    | true =>
      have hused := h.spent i hp r hr hm
      rw [hunused] at hused
      cases hused

/-- Only a call that finds the code now, or had found it, has found it. -/
theorem recoveryStep_found (h : (recoveryStep userId code ok rows p).2.Found) :
    p.Found ∨ p = .select ∧ ∃ r, findUnused userId code rows = some r := by
  cases p with
  | select =>
    obtain hsel | ⟨r, hfind, _⟩ := recoveryStep_select userId code ok rows
    · rw [hsel] at h
      exact h.elim
    · exact .inr ⟨rfl, r, hfind⟩
  | mark id => exact .inl trivial
  | done accepted => exact .inl h

theorem SpentOnce.step {id : Uuid} {s : RecoveryRace} (h : SpentOnce userId code id s)
    (hc : MarksInTime userId code s e) :
    SpentOnce userId code id (s.step (recoveryStep userId code) e) := by
  obtain hsame | ⟨p, hp, hshared, hat⟩ := s.step_cases (recoveryStep userId code) e
  · rw [hsame]
    exact h
  obtain ⟨hfree, hmarks⟩ := hc
  have hrows : ∀ r ∈ (s.step (recoveryStep userId code) e).shared, r.Matches userId code →
      ∃ old ∈ s.shared, old.id = r.id ∧ old.Matches userId code ∧
        (old.used = true → r.used = true) := by
    intro r hr hm
    rw [hshared] at hr
    obtain ⟨old, hold, hid, hmatch, hused⟩ := recoveryStep_rows hr
    exact ⟨old, hold, hid, hmatch hm, hused⟩
  constructor
  case ids =>
    intro r hr hm
    obtain ⟨old, hold, hid, hmatch, -⟩ := hrows r hr hm
    exact hid.symm.trans (h.ids old hold hmatch)
  case one =>
    apply Interleaved.one_step h.one
    intro p j q hp hq hqfound hfound
    obtain hpfound | ⟨hsel, r, hfind⟩ := recoveryStep_found hfound
    · exact h.one e.1 j p q hp hq hpfound hqfound
    · rw [hsel] at hp
      have hsome := Option.isSome_of_mem hfind
      exact absurd hqfound (h.none_found hfind (hfree hp hsome) j q hq)
  case pending =>
    intro i k hk
    obtain ⟨_, heq⟩ | ⟨_, hold⟩ := (hat i _).mp hk
    · cases p with
      | select =>
        obtain hsel | ⟨r, hfind, hsel⟩ := recoveryStep_select userId code e.2 s.shared
        · rw [hsel] at heq
          cases heq
        · rw [hsel] at heq
          cases heq
          obtain ⟨hr, hm, -⟩ := mem_of_findUnused hfind
          exact h.ids r hr hm
      | mark k' => cases heq
      | done accepted => cases heq
    · exact h.pending i k hold
  case spent =>
    intro i hi r hr hm
    obtain ⟨old, hold, hid, hmatch, hused⟩ := hrows r hr hm
    obtain ⟨rfl, heq⟩ | ⟨_, hi⟩ := (hat i _).mp hi
    · cases p with
      | select =>
        obtain hsel | ⟨r, _, hsel⟩ := recoveryStep_select userId code e.2 s.shared
        · rw [hsel] at heq
          cases heq
        · rw [hsel] at heq
          cases heq
      | mark k =>
        -- the marking goes through, and the row is the one it marks
        have hok := hmarks k hp
        rw [hshared, recoveryStep, if_pos hok] at hr
        obtain ⟨old', _, rfl⟩ := List.mem_map.mp hr
        have hmark : old'.id = k := by
          rw [← markUsed_id k old', ← hid, h.ids old hold hmatch, h.pending e.1 k hp]
        rw [RecoveryRow.markUsed, if_pos hmark]
      | done accepted =>
        cases heq
        exact hused (h.spent e.1 hp old hold hmatch)
    · exact hused (h.spent i hi old hold hmatch)

theorem done_stays (userId code : List Char) (s : RecoveryRace) (events : List (Nat × Bool))
    (h : s.At i (.done accepted)) : (s.run userId code events).At i (.done accepted) := by
  induction events generalizing s with
  | nil => exact h
  | cons e events ih =>
    apply ih
    exact Interleaved.At.step_of_stays h (fun _ _ => rfl) e

/-- In every interleaving in which the marking goes through before another call finds the code, at
most one call accepts it, and none that starts after that. -/
theorem accepted_once_of_marked (hstored : StoredOnce userId code rows)
    (hmarks : Along (Interleaved.step (recoveryStep userId code)) (MarksInTime userId code)
      (RecoveryRace.start rows n) events) (hpast : past <+: events) :
    AcceptedAtMostOnce ((RecoveryRace.start rows n).run userId code past) ∧
      ∀ i j, ((RecoveryRace.start rows n).run userId code past).At i (.done true) →
        ((RecoveryRace.start rows n).run userId code past).At j .select →
          ¬((RecoveryRace.start rows n).run userId code events).At j (.done true) := by
  obtain ⟨id, hstart⟩ := SpentOnce.start hstored n
  have hone : ∀ past, past <+: events →
      AcceptedAtMostOnce ((RecoveryRace.start rows n).run userId code past) := by
    intro past hpast
    have hall := hmarks.reaches (SpentOnce userId code id) (fun s e h hc => h.step hc) hstart hpast
    intro i j hi hj
    exact hall.one i j _ _ hi hj trivial trivial
  refine ⟨hone past hpast, ?_⟩
  intro i j hi hj hlater
  obtain ⟨rest, rfl⟩ := hpast
  have hstays := done_stays userId code _ rest hi
  rw [RecoveryRace.run, RecoveryRace.run, ← List.foldl_append] at hstays
  have hij := hone _ (List.prefix_refl _) i j hstays hlater
  rw [hij] at hi
  cases hi.unique hj

def spareCode : List Char := "0F1E-2D3C-4B5A".toList

def spareRow : RecoveryRow := ⟨1, "7".toList, spareCode, false⟩

theorem storedOnce_spareRow : StoredOnce "7".toList spareCode [spareRow] := by
  intro r hr r' hr' _ _
  rw [List.mem_singleton.mp hr, List.mem_singleton.mp hr']

/-- The first call ends before the second begins. -/
def oneAfterOther : List (Nat × Bool) := [(0, true), (0, true), (1, true)]

theorem marksInTime_oneAfterOther :
    Along (Interleaved.step (recoveryStep "7".toList spareCode)) (MarksInTime "7".toList spareCode)
      (RecoveryRace.start [spareRow] 2) oneAfterOther := by
  refine ⟨⟨?_, fun _ _ => rfl⟩, ⟨?_, fun _ _ => rfl⟩, ⟨?_, fun _ _ => rfl⟩, trivial⟩
  · intro _ _ i id hi
    cases Interleaved.at_replicate hi
  · intro hsel
    cases hsel
  · intro _ hsome
    cases hsome

theorem accepted_oneAfterOther :
    AcceptedAtMostOnce ((RecoveryRace.start [spareRow] 2).run "7".toList spareCode oneAfterOther) :=
  (accepted_once_of_marked storedOnce_spareRow marksInTime_oneAfterOther
    (List.prefix_refl oneAfterOther)).1

/-- Both calls find the row before either marks it. -/
def bothFind : List (Nat × Bool) := [(0, true), (1, true), (0, true), (1, true)]

/-- The marking of the first call fails. -/
def markFails : List (Nat × Bool) := [(0, true), (0, false), (1, true), (1, true)]

theorem calls_accept_twice :
    StoredOnce "7".toList spareCode [spareRow] ∧
      ¬AcceptedAtMostOnce ((RecoveryRace.start [spareRow] 2).run "7".toList spareCode bothFind) ∧
      ¬AcceptedAtMostOnce ((RecoveryRace.start [spareRow] 2).run "7".toList spareCode markFails) := by
  refine ⟨storedOnce_spareRow, ?_, ?_⟩
  · intro hone
    cases hone 0 1 rfl rfl
  · intro hone
    cases hone 0 1 rfl rfl

end AiFw.Auth
