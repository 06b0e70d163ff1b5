import AiFw.Config.Versions
import AiFw.Lib.Runs

namespace AiFw.Config
open AiFw.Lib
set_option autoImplicit true

/-- Where a call of `save_and_apply` or `rollback` stands between its statements. -/
inductive ApplyPhase (Config : Type) where
  | insert (config : Config) (createdBy : List Char) (comment : Option (List Char))
  | select (version : Int)
  | rollBack (version : Int)
  | unmark (version : Int)
  | mark (version : Int) (now : List Char)
  | done (applied : Except (List Char) Int)

/-- The version that the call has saved or found, until it is through. -/
def ApplyPhase.target : ApplyPhase Config → Option Int
  | .rollBack version | .unmark version | .mark version _ => some version
  | .insert .. | .select _ | .done _ => none

namespace ConfigManager

/-- One statement of a call whose apply function succeeds; `mark_applied` reads the clock before
its first one. -/
def applyStep (fmt : ConfigFormat Config) (now : List Char) (s : ConfigManager) :
    ApplyPhase Config → ConfigManager × ApplyPhase Config
  | .insert config createdBy comment =>
    let (saved, version) := s.saveVersion fmt now config createdBy comment
    (saved, .unmark version)
  | .select version =>
    match s.getVersion fmt version with
    | .ok _ => (s, .rollBack version)
    | .error e => (s, .done (.error e))
  | .rollBack version => (s.markRolledBack, .unmark version)
  | .unmark version => (s.unmarkApplied, .mark version now)
  | .mark version appliedNow =>
    ({ s with rows := s.rows.map (ConfigVersion.mark appliedNow version) }, .done (.ok version))
  | .done applied => (s, .done applied)

section
variable {fmt : ConfigFormat Config}

/-- The statements of a call that no other comes between are the whole call. -/
theorem applyStep_saveAndApply (s : ConfigManager) (now appliedNow : List Char) (config : Config)
    (createdBy : List Char) (comment : Option (List Char)) :
    ∃ saved version, s.applyStep fmt now (.insert config createdBy comment) =
        (saved, .unmark version) ∧
      ∃ unmarked, saved.applyStep fmt appliedNow (.unmark version) =
          (unmarked, .mark version appliedNow) ∧
        ∀ later, unmarked.applyStep fmt later (.mark version appliedNow) =
          let whole := s.saveAndApply fmt now appliedNow config createdBy comment fun _ => .ok ()
          (whole.1, .done whole.2) :=
  ⟨_, _, rfl, _, rfl, fun _ => rfl⟩

theorem applyStep_rollback (s : ConfigManager) (now later : List Char) (version : Int) :
    (∃ e, s.rollback fmt now version (fun _ => .ok ()) = (s, .error e) ∧
        s.applyStep fmt later (.select version) = (s, .done (.error e))) ∨
      s.applyStep fmt later (.select version) = (s, .rollBack version) ∧
        ∃ marked, s.applyStep fmt later (.rollBack version) = (marked, .unmark version) ∧
          ∃ unmarked, marked.applyStep fmt now (.unmark version) =
              (unmarked, .mark version now) ∧
            unmarked.applyStep fmt later (.mark version now) =
              ((s.rollback fmt now version fun _ => .ok ()).1, .done (.ok version)) := by
  unfold rollback
  dsimp only [applyStep]
  cases s.getVersion fmt version with
  | error e => exact .inl ⟨e, rfl, rfl⟩
  | ok config => exact .inr ⟨rfl, _, rfl, _, rfl, rfl⟩

end

/-- A version is marked as applied. -/
def Applied (s : ConfigManager) (version : Int) : Prop :=
  ∃ r ∈ s.rows, r.applied = true ∧ r.version = version

section
variable {s : ConfigManager} {p : ApplyPhase Config}

/-- One row is applied exactly if one version is. -/
theorem Numbered.one_applied (h : s.Numbered) :
    s.appliedRows.length = 1 ↔ ∃ v, ∀ w, s.Applied w ↔ w = v := by
  constructor
  · intro hlen
    obtain ⟨r, hone⟩ := List.length_eq_one_iff.mp hlen
    have hmem : ∀ x, x ∈ s.appliedRows ↔ x = r := by
      intro x
      rw [hone, List.mem_singleton]
    refine ⟨r.version, fun w => ?_⟩
    constructor
    · rintro ⟨x, hx, happlied, rfl⟩
      rw [(hmem x).mp (List.mem_filter.mpr ⟨hx, happlied⟩)]
    · rintro rfl
      obtain ⟨hr, happlied⟩ := List.mem_filter.mp ((hmem r).mpr rfl)
      exact ⟨r, hr, happlied, rfl⟩
  · rintro ⟨v, hv⟩
    obtain ⟨r, hr, happlied, -⟩ := (hv v).mpr rfl
    have hle := h.increasing.length_filter_le (fun r => r.applied) [v] fun x hx happlied =>
      List.mem_singleton.mpr ((hv x.version).mp ⟨x, hx, happlied, rfl⟩)
    exact Nat.le_antisymm hle (List.length_pos_of_mem (List.mem_filter.mpr ⟨hr, happlied⟩))

/-- A statement adds a row or changes some columns of the rows there are. -/
theorem applyStep_rows (fmt : ConfigFormat Config) (now : List Char) (s : ConfigManager)
    (p : ApplyPhase Config) :
    (∃ config createdBy comment, p = .insert config createdBy comment ∧
        s.applyStep fmt now p =
          ((s.saveVersion fmt now config createdBy comment).1, .unmark (s.lastRowid + 1))) ∨
      ∃ f, KeepsText f ∧ (s.applyStep fmt now p).1 = { s with rows := s.rows.map f } := by
  have hsame : ∃ f, KeepsText f ∧ s = { s with rows := s.rows.map f } :=
    ⟨id, ⟨fun _ => rfl, fun _ => rfl⟩, by rw [List.map_id]⟩
  cases p with
  | insert config createdBy comment => exact .inl ⟨config, createdBy, comment, rfl, rfl⟩
  | select version =>
    apply Or.inr
    dsimp only [applyStep]
    cases s.getVersion fmt version with
    | ok config => exact hsame
    | error e => exact hsame
  | rollBack version => exact .inr ⟨_, rollBack_keepsText, rfl⟩
  | unmark version => exact .inr ⟨_, unmark_keepsText, rfl⟩
  | mark version appliedNow => exact .inr ⟨_, mark_keepsText appliedNow version, rfl⟩
  | done applied => exact .inr hsame

theorem Numbered.applyStep (h : s.Numbered) (fmt : ConfigFormat Config) (now : List Char)
    (p : ApplyPhase Config) : (s.applyStep fmt now p).1.Numbered := by
  obtain ⟨config, createdBy, comment, -, hout⟩ | ⟨f, hf, hout⟩ := s.applyStep_rows fmt now p
  · rw [hout]
    exact h.append_row
  · rw [hout]
    exact h.update hf

/-- A version that is stored. -/
def Stored (s : ConfigManager) (version : Int) : Prop := ∃ r ∈ s.rows, r.version = version

theorem Stored.applyStep (h : s.Stored v) (fmt : ConfigFormat Config) (now : List Char)
    (p : ApplyPhase Config) : (s.applyStep fmt now p).1.Stored v := by
  obtain ⟨r, hr, hv⟩ := h
  obtain ⟨config, createdBy, comment, -, hout⟩ | ⟨f, hf, hout⟩ := s.applyStep_rows fmt now p
  · rw [hout]
    exact ⟨r, List.mem_append_left _ hr, hv⟩
  · rw [hout]
    exact ⟨f r, List.mem_map_of_mem hr, (hf.version r).trans hv⟩

/-- The version a call goes on with is stored. -/
theorem applyStep_target (fmt : ConfigFormat Config) (now : List Char)
    (hp : ∀ v, p.target = some v → s.Stored v) :
    (s.applyStep fmt now p).2.target = some v → (s.applyStep fmt now p).1.Stored v := by
  intro htarget
  cases p with
  | insert config createdBy comment =>
    cases htarget
    exact ⟨_, List.mem_append_right _ (List.mem_singleton.mpr rfl), rfl⟩
  | select version =>
    dsimp only [ConfigManager.applyStep] at htarget ⊢
    cases hget : s.getVersion fmt version with
    | ok config =>
      rw [hget] at htarget
      cases htarget
      exact getVersion_ok hget
    | error e =>
      rw [hget] at htarget
      cases htarget
  | rollBack version =>
    cases htarget
    exact (hp _ rfl).applyStep fmt now (.rollBack _)
  | unmark version =>
    cases htarget
    exact (hp _ rfl).applyStep fmt now (.unmark _)
  | mark version appliedNow => cases htarget
  | done applied => cases htarget

theorem applied_map (f : ConfigVersion → ConfigVersion) (hf : KeepsText f) :
    Applied { s with rows := s.rows.map f } v ↔
      ∃ r ∈ s.rows, (f r).applied = true ∧ r.version = v := by
  unfold Applied
  constructor
  · rintro ⟨_, hr, happlied, hv⟩
    obtain ⟨r, hold, rfl⟩ := List.mem_map.mp hr
    exact ⟨r, hold, happlied, (hf.version r).symm.trans hv⟩
  · rintro ⟨r, hr, happlied, hv⟩
    exact ⟨f r, List.mem_map_of_mem hr, happlied, (hf.version r).trans hv⟩

theorem not_applied_unmarkApplied : ¬s.unmarkApplied.Applied v := by
  rintro ⟨r, hr, happlied, -⟩
  rw [unmarkApplied_rows hr] at happlied
  cases happlied

theorem applied_markRolledBack : s.markRolledBack.Applied v ↔ s.Applied v := by
  rw [markRolledBack, applied_map _ rollBack_keepsText]
  simp only [rollBack_applied, Applied]

/-- A mark applies the version, where it is stored, and leaves the others as they are. -/
theorem applied_mark {version : Int} (hstored : s.Stored version) (now : List Char) :
    Applied { s with rows := s.rows.map (ConfigVersion.mark now version) } v ↔
      v = version ∨ s.Applied v := by
  rw [applied_map _ (mark_keepsText now version)]
  unfold ConfigVersion.mark
  constructor
  · rintro ⟨r, hr, happlied, rfl⟩
    split at happlied
    · exact .inl ‹_›
    · exact .inr ⟨r, hr, happlied, rfl⟩
  · rintro (rfl | ⟨r, hr, happlied, rfl⟩)
    · obtain ⟨r, hr, hv⟩ := hstored
      exact ⟨r, hr, by rw [if_pos hv], hv⟩
    · refine ⟨r, hr, ?_, rfl⟩
      split
      · rfl
      · exact happlied

theorem applied_saveVersion :
    (s.saveVersion fmt now config createdBy comment).1.Applied v ↔ s.Applied v := by
  constructor
  · rintro ⟨r, hr, happlied, hv⟩
    obtain hr | hr := List.mem_append.mp hr
    · exact ⟨r, hr, happlied, hv⟩
    · rw [List.mem_singleton.mp hr] at happlied
      cases happlied
  · rintro ⟨r, hr, happlied, hv⟩
    exact ⟨r, List.mem_append_left _ hr, happlied, hv⟩

/-- A statement other than the first `UPDATE` of `mark_applied` applies at most the version that
its call was about to mark, and no call is about to mark one after it. -/
theorem applyStep_keeps (fmt : ConfigFormat Config) (now : List Char)
    (hp : ∀ v, p.target = some v → s.Stored v) (hstep : ∀ v, p ≠ .unmark v) :
    (∀ v, (s.applyStep fmt now p).1.Applied v ↔ s.Applied v ∨ ∃ now', p = .mark v now') ∧
      ∀ v now', (s.applyStep fmt now p).2 ≠ .mark v now' := by
  have hsame : (∀ v now', p ≠ .mark v now') →
      ∀ v, s.Applied v ↔ s.Applied v ∨ ∃ now', p = .mark v now' := by
    intro hmark v
    exact (or_iff_left fun ⟨now', he⟩ => hmark v now' he).symm
  cases p with
  | insert config createdBy comment =>
    refine ⟨fun v => ?_, fun v now' he => nomatch he⟩
    exact applied_saveVersion.trans (hsame (fun _ _ he => nomatch he) v)
  | select version =>
    dsimp only [applyStep]
    cases s.getVersion fmt version with
    | ok config => exact ⟨hsame (fun _ _ he => nomatch he), fun v now' he => nomatch he⟩
    | error e => exact ⟨hsame (fun _ _ he => nomatch he), fun v now' he => nomatch he⟩
  | rollBack version =>
    refine ⟨fun v => ?_, fun v now' he => nomatch he⟩
    exact applied_markRolledBack.trans (hsame (fun _ _ he => nomatch he) v)
  | unmark version => exact absurd rfl (hstep version)
  | mark version appliedNow =>
    refine ⟨fun v => ?_, fun v now' he => nomatch he⟩
    apply (applied_mark (hp version rfl) appliedNow).trans
    rw [or_comm]
    apply or_congr_right
    constructor
    · rintro rfl
      exact ⟨appliedNow, rfl⟩
    · rintro ⟨now', he⟩
      cases he
      rfl
  | done applied => exact ⟨hsame (fun _ _ he => nomatch he), fun v now' he => nomatch he⟩

end

end ConfigManager

abbrev ApplyRace (Config : Type) := Interleaved ConfigManager (ApplyPhase Config)

namespace ApplyRace

def step (fmt : ConfigFormat Config) (s : ApplyRace Config) (e : Nat × List Char) :
    ApplyRace Config :=
  Interleaved.step (fun now s p => s.applyStep fmt now p) s e

def run (fmt : ConfigFormat Config) (s : ApplyRace Config) (events : List (Nat × List Char)) :
    ApplyRace Config :=
  events.foldl (step fmt) s

/-- Every call has its first statement ahead. -/
def Fresh (s : ApplyRace Config) : Prop :=
  ∀ i p, s.At i p → (∃ config createdBy comment, p = .insert config createdBy comment) ∨
    ∃ version, p = .select version

def Finished (s : ApplyRace Config) : Prop := ∀ i p, s.At i p → ∃ applied, p = .done applied

/-- A call is between its two `UPDATE` statements, and marks the version next. -/
def WillMark (s : ApplyRace Config) (version : Int) : Prop :=
  ∃ i now, s.At i (.mark version now)

/-- Where the step unmarks, no call is about to mark another version. -/
def UnmarksAlone (s : ApplyRace Config) (e : Nat × List Char) (before : Prop) : Prop :=
  match s.calls[e.1]? with
  | some (.unmark version) => ∀ v, s.WillMark v → v = version
  | _ => before

/-- The last step of the run that unmarks does so alone; `before` stands for a run without one. -/
def LastUnmarksAlone (fmt : ConfigFormat Config) :
    Prop → ApplyRace Config → List (Nat × List Char) → Prop
  | before, _, [] => before
  | before, s, e :: events => LastUnmarksAlone fmt (s.UnmarksAlone e before) (s.step fmt e) events

/-- A version that is applied, or that a call is about to mark. -/
def Held (s : ApplyRace Config) (version : Int) : Prop :=
  s.shared.Applied version ∨ s.WillMark version

/-- The invariant of the runs. -/
structure Targeted (s : ApplyRace Config) : Prop where
  numbered : s.shared.Numbered
  stored : ∀ i p, s.At i p → ∀ v, p.target = some v → s.shared.Stored v

section
variable {fmt : ConfigFormat Config} {s : ApplyRace Config}

theorem Fresh.targeted (h : s.Fresh) (hnumbered : s.shared.Numbered) : s.Targeted where
  numbered := hnumbered
  stored := by
    intro i p hp v hv
    obtain ⟨config, createdBy, comment, rfl⟩ | ⟨version, rfl⟩ := h i p hp
    · cases hv
    · cases hv

theorem Targeted.step (h : s.Targeted) (e : Nat × List Char) : (s.step fmt e).Targeted := by
  obtain hsame | ⟨p, hp, hshared, hat⟩ :=
    Interleaved.step_cases (fun now s p => s.applyStep fmt now p) s e
  · rw [ApplyRace.step, hsame]
    exact h
  · constructor
    case numbered =>
      rw [ApplyRace.step, hshared]
      exact h.numbered.applyStep fmt e.2 p
    case stored =>
      intro i q hq v hv
      rw [ApplyRace.step, hshared]
      obtain ⟨-, rfl⟩ | ⟨-, hq⟩ := (hat i q).mp hq
      · exact ConfigManager.applyStep_target fmt e.2 (h.stored e.1 p hp) hv
      · exact (h.stored i q hq v hv).applyStep fmt e.2 p

theorem Targeted.run (h : s.Targeted) (events : List (Nat × List Char)) :
    (s.run fmt events).Targeted := by
  induction events generalizing s with
  | nil => exact h
  | cons e events ih => exact ih (h.step e)

/-- What is held stays so, but for the unmarking step, after which only that call's version and
those about to be marked are. -/
theorem Targeted.held_step (h : s.Targeted) (fmt : ConfigFormat Config) (e : Nat × List Char) :
    (∃ version, s.At e.1 (.unmark version) ∧
        ∀ v, (s.step fmt e).Held v ↔ v = version ∨ s.WillMark v) ∨
      (∀ version, ¬s.At e.1 (.unmark version)) ∧ ∀ v, (s.step fmt e).Held v ↔ s.Held v := by
  cases hcall : s.calls[e.1]? with
  | none =>
    have hnone : ∀ version, ¬s.At e.1 (.unmark version) := by
      intro version hv
      cases hcall.symm.trans hv
    rw [ApplyRace.step, Interleaved.step_none _ hcall]
    exact .inr ⟨hnone, fun v => Iff.rfl⟩
  | some p =>
    have hp : s.At e.1 p := hcall
    obtain ⟨hshared, hat⟩ := Interleaved.step_at (fun now s p => s.applyStep fmt now p) hp
    by_cases hunmark : ∃ version, p = .unmark version
    · obtain ⟨version, rfl⟩ := hunmark
      refine .inl ⟨version, hp, fun v => ?_⟩
      have hfree : ¬(s.step fmt e).shared.Applied v := by
        rw [ApplyRace.step, hshared]
        exact ConfigManager.not_applied_unmarkApplied
      rw [Held, or_iff_right hfree]
      constructor
      · rintro ⟨i, now, hi⟩
        obtain ⟨-, heq⟩ | ⟨-, hi⟩ := (hat i _).mp hi
        · cases heq
          exact .inl rfl
        · exact .inr ⟨i, now, hi⟩
      · rintro (rfl | ⟨i, now, hi⟩)
        · exact ⟨e.1, e.2, (hat e.1 _).mpr (.inl ⟨rfl, rfl⟩)⟩
        · refine ⟨i, now, (hat i _).mpr (.inr ⟨?_, hi⟩)⟩
          rintro rfl
          cases hp.unique hi
    · have hstep : ∀ v, p ≠ .unmark v := fun v he => hunmark ⟨v, he⟩
      obtain ⟨happlied, hmark⟩ :=
        ConfigManager.applyStep_keeps fmt e.2 (h.stored e.1 p hp) hstep
      refine .inr ⟨fun v hv => hstep v (hp.unique hv), fun v => ?_⟩
      rw [Held, ApplyRace.step, hshared, happlied, or_assoc]
      apply or_congr_right
      constructor
      · rintro (⟨now', rfl⟩ | ⟨i, now, hi⟩)
        · exact ⟨e.1, now', hp⟩
        · obtain ⟨-, heq⟩ | ⟨-, hi⟩ := (hat i _).mp hi
          · exact absurd heq.symm (hmark v now)
          · exact ⟨i, now, hi⟩
      · rintro ⟨i, now, hi⟩
        by_cases he : e.1 = i
        · subst he
          exact .inl ⟨now, hp.unique hi⟩
        · exact .inr ⟨i, now, (hat i _).mpr (.inr ⟨he, hi⟩)⟩

theorem Finished.held (h : s.Finished) : s.Held v ↔ s.shared.Applied v := by
  apply or_iff_left
  rintro ⟨i, now, hi⟩
  obtain ⟨applied, he⟩ := h i _ hi
  cases he

theorem Fresh.held (h : s.Fresh) : s.Held v ↔ s.shared.Applied v := by
  apply or_iff_left
  rintro ⟨i, now, hi⟩
  obtain ⟨config, createdBy, comment, he⟩ | ⟨version, he⟩ := h i _ hi
  · cases he
  · cases he

/-- Where one version is held before the step exactly if `before` holds, one is held after it
exactly if a step that unmarks does so alone. -/
theorem Targeted.one_held_step (h : s.Targeted) (e : Nat × List Char)
    (hbefore : before ↔ ∃ v, ∀ w, s.Held w ↔ w = v) :
    s.UnmarksAlone e before ↔ ∃ v, ∀ w, (s.step fmt e).Held w ↔ w = v := by
  obtain ⟨version, hat, hheld⟩ | ⟨hnot, hheld⟩ := h.held_step fmt e
  · have hcall : s.calls[e.1]? = some (.unmark version) := hat
    rw [UnmarksAlone, hcall]
    simp only [hheld]
    constructor
    · intro halone
      refine ⟨version, fun w => or_iff_left_of_imp (halone w)⟩
    · rintro ⟨v, hv⟩ w hw
      rw [(hv w).mp (.inr hw), ← (hv version).mp (.inl rfl)]
  · simp only [hheld]
    rw [← hbefore, UnmarksAlone]
    split
    · exact absurd ‹_› (hnot _)
    · exact Iff.rfl

theorem Targeted.one_held_run (h : s.Targeted) (events : List (Nat × List Char))
    (hbefore : before ↔ ∃ v, ∀ w, s.Held w ↔ w = v) :
    LastUnmarksAlone fmt before s events ↔ ∃ v, ∀ w, (s.run fmt events).Held w ↔ w = v := by
  induction events generalizing s before with
  | nil => exact hbefore
  | cons e events ih => exact ih (h.step e) (h.one_held_step e hbefore)

end

/-- In every interleaving, exactly one version is applied once all calls are through exactly if the
last of them to unmark the others finds none between its two updates with a version of its own. -/
theorem one_applied_iff (fmt : ConfigFormat Config) (s : ApplyRace Config)
    (hnumbered : s.shared.Numbered) (hfresh : s.Fresh) (events : List (Nat × List Char))
    (hfinished : (s.run fmt events).Finished) :
    (s.run fmt events).shared.appliedRows.length = 1 ↔
      s.LastUnmarksAlone fmt (s.shared.appliedRows.length = 1) events := by
  have hstart := hfresh.targeted hnumbered
  have hbefore : s.shared.appliedRows.length = 1 ↔ ∃ v, ∀ w, s.Held w ↔ w = v := by
    simp only [hfresh.held]
    exact hnumbered.one_applied
  rw [hstart.one_held_run events hbefore, (hstart.run events).numbered.one_applied]
  simp only [hfinished.held]

/-- Two calls of `save_and_apply` on an empty history. -/
def twoSaves : ApplyRace (List Char) where
  shared := ConfigManager.migrate none
  calls := [.insert "one".toList "admin".toList none, .insert "two".toList "admin".toList none]

theorem twoSaves_fresh : twoSaves.Fresh := by
  intro i p hp
  obtain rfl | hp := List.mem_cons.mp (List.mem_of_getElem? hp)
  · exact .inl ⟨_, _, _, rfl⟩
  · rw [List.mem_singleton.mp hp]
    exact .inl ⟨_, _, _, rfl⟩

theorem twoSaves_numbered : twoSaves.shared.Numbered where
  increasing := List.Pairwise.nil
  bounded := fun _ hr => nomatch hr

theorem finished_of_calls {s : ApplyRace Config} (h : ∀ p ∈ s.calls, ∃ applied, p = .done applied) :
    s.Finished :=
  fun _ p hp => h p (List.mem_of_getElem? hp)

def schedule (calls : List Nat) : List (Nat × List Char) := calls.map fun i => (i, "t".toList)

/-- The second call unmarks once the first is through. -/
def oneAfterOther : List (Nat × List Char) := schedule [0, 0, 1, 0, 1, 1]

theorem finished_oneAfterOther : (twoSaves.run ConfigManager.textFormat oneAfterOther).Finished := by
  apply finished_of_calls
  intro p hp
  obtain rfl | hp := List.mem_cons.mp hp
  · exact ⟨.ok 1, rfl⟩
  · exact ⟨.ok 2, List.mem_singleton.mp hp⟩

theorem one_applied_oneAfterOther :
    (twoSaves.run ConfigManager.textFormat oneAfterOther).shared.appliedRows.length = 1 := by
  apply (one_applied_iff ConfigManager.textFormat twoSaves twoSaves_numbered twoSaves_fresh
    oneAfterOther finished_oneAfterOther).mpr
  rintro v ⟨i, now, hi⟩
  obtain he | hi := List.mem_cons.mp (List.mem_of_getElem? hi)
  · cases he
  · cases List.mem_singleton.mp hi

/-- Both calls unmark before either marks its version. -/
def bothUnmark : List (Nat × List Char) := schedule [0, 0, 1, 1, 0, 1]

theorem two_applied_bothUnmark :
    twoSaves.Fresh ∧ twoSaves.shared.Numbered ∧
      (twoSaves.run ConfigManager.textFormat bothUnmark).Finished ∧
      (twoSaves.run ConfigManager.textFormat bothUnmark).shared.appliedRows.length ≠ 1 := by
  refine ⟨twoSaves_fresh, twoSaves_numbered, ?_, by decide⟩
  apply finished_of_calls
  intro p hp
  obtain rfl | hp := List.mem_cons.mp hp
  · exact ⟨.ok 1, rfl⟩
  · exact ⟨.ok 2, List.mem_singleton.mp hp⟩

end ApplyRace

end AiFw.Config
