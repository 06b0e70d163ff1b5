import AiFw.Lib.ByAge
import AiFw.Lib.Numerals

namespace AiFw.Config
open AiFw.Lib

set_option autoImplicit true

/-- The text serde writes of a configuration, what it reads of a text, and the hash. -/
structure ConfigFormat (Config : Type) where
  toJson : Config → List Char
  fromJson : List Char → Except (List Char) Config
  hash : Config → List Char

/-- A row of `config_versions`. -/
structure ConfigVersion where
  version : Int
  configJson : List Char
  hash : List Char
  applied : Bool
  appliedAt : Option (List Char)
  rolledBack : Bool
  createdBy : List Char
  createdAt : List Char
  comment : Option (List Char)

/-- The versions in the order they were saved in, the last number given out, and the text stored
for `config_history_max_versions`. -/
structure ConfigManager where
  rows : List ConfigVersion
  lastRowid : Int
  maxVersions : Option (List Char)

/-- What the `UPDATE` statements do to a row. -/
def ConfigVersion.unmark (r : ConfigVersion) : ConfigVersion :=
  if r.applied then { r with applied := false } else r

def ConfigVersion.mark (now : List Char) (version : Int) (r : ConfigVersion) : ConfigVersion :=
  if r.version = version then { r with applied := true, appliedAt := some now } else r

def ConfigVersion.rollBack (r : ConfigVersion) : ConfigVersion :=
  if r.applied then { r with rolledBack := true } else r

namespace ConfigManager

def migrate (maxVersions : Option (List Char)) : ConfigManager := ⟨[], 0, maxVersions⟩

def retentionLimit (s : ConfigManager) : Nat :=
  ((s.maxVersions.bind (parseUnsigned (2 ^ 32))).filter fun n => 5 ≤ n ∧ n ≤ 10000).getD 200

def newestVersions (keep : Nat) (rows : List ConfigVersion) : List Int :=
  (newest ConfigVersion.version keep rows).map ConfigVersion.version

/-- The one statement of `prune_to_limit`. -/
def prune (keep : Nat) (rows : List ConfigVersion) : List ConfigVersion :=
  rows.filter fun r => decide (r.version ∈ newestVersions keep rows) || r.applied

def pruneToLimit (s : ConfigManager) (keep : Nat) : ConfigManager × Nat :=
  ({ s with rows := prune keep s.rows }, s.rows.length - (prune keep s.rows).length)

def setRetentionLimit (s : ConfigManager) (limit : Nat) : ConfigManager × Except (List Char) Unit :=
  if 5 ≤ limit ∧ limit ≤ 10000 then
    (({ s with maxVersions := some (Nat.toDigits 10 limit) }.pruneToLimit limit).1, .ok ())
  else (s, .error "retention must be between 5 and 10000".toList)

def unmarkApplied (s : ConfigManager) : ConfigManager :=
  { s with rows := s.rows.map ConfigVersion.unmark }

def markApplied (s : ConfigManager) (now : List Char) (version : Int) : ConfigManager :=
  { s.unmarkApplied with rows := s.unmarkApplied.rows.map (ConfigVersion.mark now version) }

def markRolledBack (s : ConfigManager) : ConfigManager :=
  { s with rows := s.rows.map ConfigVersion.rollBack }

section
variable {Config : Type} (fmt : ConfigFormat Config)

def newRow (s : ConfigManager) (now : List Char) (config : Config) (createdBy : List Char)
    (comment : Option (List Char)) : ConfigVersion where
  version := s.lastRowid + 1
  configJson := fmt.toJson config
  hash := fmt.hash config
  applied := false
  appliedAt := none
  rolledBack := false
  createdBy := createdBy
  createdAt := now
  comment := comment

def saveVersion (s : ConfigManager) (now : List Char) (config : Config) (createdBy : List Char)
    (comment : Option (List Char)) : ConfigManager × Int :=
  ({ s with
      rows := s.rows ++ [s.newRow fmt now config createdBy comment]
      lastRowid := s.lastRowid + 1 }, s.lastRowid + 1)

def prevHash (s : ConfigManager) : Option (List Char) :=
  (newest ConfigVersion.version 1 s.rows).head?.map ConfigVersion.hash

def saveIfChanged (s : ConfigManager) (now : List Char) (config : Config) (createdBy : List Char)
    (comment : Option (List Char)) : ConfigManager × Option Int :=
  if s.prevHash = some (fmt.hash config) then (s, none)
  else
    let (saved, version) := s.saveVersion fmt now config createdBy comment
    ((saved.pruneToLimit saved.retentionLimit).1, some version)

def applyFailedText (version : Int) (e : List Char) : List Char :=
  "apply failed (v".toList ++ (toString version).toList ++ " saved but not applied): ".toList ++ e

/-- The copy written to a file is left out: nothing reads it back. -/
def saveAndApply (s : ConfigManager) (now appliedNow : List Char) (config : Config)
    (createdBy : List Char) (comment : Option (List Char))
    (applyFn : Config → Except (List Char) Unit) : ConfigManager × Except (List Char) Int :=
  let (saved, version) := s.saveVersion fmt now config createdBy comment
  match applyFn config with
  | .ok () => (saved.markApplied appliedNow version, .ok version)
  | .error e => (saved, .error (applyFailedText version e))

def getActive (s : ConfigManager) : Except (List Char) (Option (Int × Config)) :=
  match newest ConfigVersion.version 1 (s.rows.filter fun r => r.applied) with
  | [] => .ok none
  | r :: _ => (fmt.fromJson r.configJson).map fun config => some (r.version, config)

def notFoundText (version : Int) : List Char :=
  "version ".toList ++ (toString version).toList ++ " not found: ".toList ++
    "no rows returned by a query that expected to return at least one row".toList

def getVersion (s : ConfigManager) (version : Int) : Except (List Char) Config :=
  match s.rows.find? fun r => r.version = version with
  | some r => fmt.fromJson r.configJson
  | none => .error (notFoundText version)

def rollback (s : ConfigManager) (now : List Char) (version : Int)
    (applyFn : Config → Except (List Char) Unit) : ConfigManager × Except (List Char) Unit :=
  match s.getVersion fmt version with
  | .error e => (s, .error e)
  | .ok config =>
    match applyFn config with
    | .ok () => (s.markRolledBack.markApplied now version, .ok ())
    | .error e => (s.markRolledBack, .error e)

end

inductive Op (Config : Type) where
  | saveVersion (now : List Char) (config : Config) (createdBy : List Char)
      (comment : Option (List Char))
  | saveIfChanged (now : List Char) (config : Config) (createdBy : List Char)
      (comment : Option (List Char))
  | saveAndApply (now appliedNow : List Char) (config : Config) (createdBy : List Char)
      (comment : Option (List Char)) (applyFn : Config → Except (List Char) Unit)
  | rollback (now : List Char) (version : Int) (applyFn : Config → Except (List Char) Unit)
  | setRetentionLimit (limit : Nat)
  | pruneToLimit (keep : Nat)

def step (fmt : ConfigFormat Config) (s : ConfigManager) : Op Config → ConfigManager
  | .saveVersion now config createdBy comment => (s.saveVersion fmt now config createdBy comment).1
  | .saveIfChanged now config createdBy comment =>
    (s.saveIfChanged fmt now config createdBy comment).1
  | .saveAndApply now appliedNow config createdBy comment applyFn =>
    (s.saveAndApply fmt now appliedNow config createdBy comment applyFn).1
  | .rollback now version applyFn => (s.rollback fmt now version applyFn).1
  | .setRetentionLimit limit => (s.setRetentionLimit limit).1
  | .pruneToLimit keep => (s.pruneToLimit keep).1

/-- The version that the call has applied, where it is one that applies and has returned `Ok`. -/
def appliedBy (fmt : ConfigFormat Config) (s : ConfigManager) : Op Config → Option Int
  | .saveAndApply now appliedNow config createdBy comment applyFn =>
    (s.saveAndApply fmt now appliedNow config createdBy comment applyFn).2.toOption
  | .rollback now version applyFn =>
    (s.rollback fmt now version applyFn).2.toOption.map fun () => version
  | _ => none

/-- A run, with the version of its last call that has applied one. -/
def track (fmt : ConfigFormat Config) (t : ConfigManager × Option Int) (op : Op Config) :
    ConfigManager × Option Int :=
  (t.1.step fmt op, (t.1.appliedBy fmt op).or t.2)

end ConfigManager

namespace ConfigManager

def appliedRows (s : ConfigManager) : List ConfigVersion := s.rows.filter fun r => r.applied

/-- At most one version is applied, and the one that was applied last is and is given out. -/
structure ActiveIs (fmt : ConfigFormat Config) (s : ConfigManager) (last : Option Int) : Prop where
  atMostOne : s.appliedRows.length ≤ 1
  active : ∀ v, last = some v → (∃ r, s.appliedRows = [r] ∧ r.version = v) ∧
    ∃ config, s.getActive fmt = .ok (some (v, config)) ∧ s.getVersion fmt v = .ok config

/-- There are no more versions than the limit and one, and the newest of those there were are all
among them. -/
def KeepsNewest (before after : ConfigManager) : Prop :=
  after.rows.length ≤ after.retentionLimit + 1 ∧
    ∀ r ∈ before.rows, (before.rows.filter fun x => r.version < x.version).length <
      after.retentionLimit → r ∈ after.rows

/-- The invariant of the runs. -/
structure Sound (fmt : ConfigFormat Config) (s : ConfigManager) (last : Option Int) : Prop where
  increasing : Increasing ConfigVersion.version s.rows
  bounded : ∀ r ∈ s.rows, r.version ≤ s.lastRowid
  readable : ∀ r ∈ s.rows, ∃ config, fmt.fromJson r.configJson = .ok config
  atMostOne : s.appliedRows.length ≤ 1
  anchor : ∀ v, last = some v → ∃ r ∈ s.rows, r.applied = true ∧ r.version = v

/-- Each version has a number of its own, up to the last one given out. -/
structure Numbered (s : ConfigManager) : Prop where
  increasing : Increasing ConfigVersion.version s.rows
  bounded : ∀ r ∈ s.rows, r.version ≤ s.lastRowid

/-- An update of columns other than the number and the text. -/
structure KeepsText (f : ConfigVersion → ConfigVersion) : Prop where
  version : ∀ r, (f r).version = r.version
  configJson : ∀ r, (f r).configJson = r.configJson

section
variable {fmt : ConfigFormat Config} {s : ConfigManager} {rows : List ConfigVersion}

theorem newestVersions_length (keep : Nat) (rows : List ConfigVersion) :
    (newestVersions keep rows).length ≤ keep := by
  rw [newestVersions, List.length_map]
  exact newest_length ConfigVersion.version keep rows

theorem mem_prune (h : Increasing ConfigVersion.version rows) (keep : Nat) :
    r ∈ prune keep rows ↔ r ∈ rows ∧
      ((rows.filter fun x => r.version < x.version).length < keep ∨ r.applied = true) := by
  have hversion : r ∈ rows → (r.version ∈ newestVersions keep rows ↔
      (rows.filter fun x => r.version < x.version).length < keep) := by
    intro hr
    unfold newestVersions
    rw [List.mem_map]
    constructor
    · rintro ⟨r', hr', he⟩
      have hmem := (h.mem_newest keep).mp hr'
      rw [h.keyed r' hmem.1 r hr he] at hmem
      exact hmem.2
    · intro hlt
      exact ⟨r, (h.mem_newest keep).mpr ⟨hr, hlt⟩, rfl⟩
  rw [prune, List.mem_filter, Bool.or_eq_true, decide_eq_true_eq]
  constructor
  · rintro ⟨hr, hkept⟩
    exact ⟨hr, hkept.imp_left (hversion hr).mp⟩
  · rintro ⟨hr, hkept⟩
    exact ⟨hr, hkept.imp_left (hversion hr).mpr⟩

theorem applied_prune (keep : Nat) (rows : List ConfigVersion) :
    (prune keep rows).filter (fun r => r.applied) = rows.filter fun r => r.applied := by
  rw [prune, List.filter_filter]
  apply List.filter_congr
  intro r _
  cases r.applied
  · rfl
  · rw [Bool.or_true, Bool.and_self]

theorem prune_length (h : Increasing ConfigVersion.version rows) (keep : Nat) :
    (prune keep rows).length ≤ keep + (rows.filter fun r => r.applied).length := by
  have hkeys : (prune keep rows).length ≤ (newestVersions keep rows ++
      (rows.filter fun r => r.applied).map ConfigVersion.version).length := by
    apply h.length_filter_le
    intro r hr hkept
    obtain hnew | happlied := Bool.or_eq_true _ _ ▸ hkept
    · exact List.mem_append_left _ (of_decide_eq_true hnew)
    · exact List.mem_append_right _ (List.mem_map.mpr ⟨r, List.mem_filter.mpr ⟨hr, happlied⟩, rfl⟩)
  rw [List.length_append, List.length_map] at hkeys
  exact hkeys.trans (Nat.add_le_add_right (newestVersions_length keep rows) _)

/-- With one row applied, the newest applied row is that one. -/
theorem Sound.active (h : Sound fmt s last) : ActiveIs fmt s last where
  atMostOne := h.atMostOne
  active := by
    intro v hv
    obtain ⟨r, hr, happlied, hversion⟩ := h.anchor v hv
    have hmem : r ∈ s.appliedRows := List.mem_filter.mpr ⟨hr, happlied⟩
    obtain ⟨r', hone⟩ := List.length_eq_one_iff.mp
      (Nat.le_antisymm h.atMostOne (List.length_pos_of_mem hmem))
    rw [hone, List.mem_singleton] at hmem
    subst hmem
    obtain ⟨config, hconfig⟩ := h.readable r hr
    refine ⟨⟨r, hone, hversion⟩, config, ?_, ?_⟩
    · unfold getActive
      have hnewest : newest ConfigVersion.version 1 (s.rows.filter fun r => r.applied) = [r] := by
        rw [← appliedRows, hone, newest, List.mergeSort_singleton, List.take_succ_cons,
          List.take_zero]
      rw [hnewest]
      dsimp only
      rw [hconfig, hversion]
      rfl
    · unfold getVersion
      rw [h.increasing.keyed.find_iff.mpr ⟨hr, hversion⟩]
      exact hconfig

theorem Sound.numbered (h : Sound fmt s last) : s.Numbered := ⟨h.increasing, h.bounded⟩

theorem Numbered.append_row (h : s.Numbered) :
    (s.saveVersion fmt now config createdBy comment).1.Numbered where
  increasing := h.increasing.append_row fun r hr => Int.lt_add_one_of_le (h.bounded r hr)
  bounded := by
    intro r hr
    obtain hr | hr := List.mem_append.mp hr
    · exact Int.le_trans (h.bounded r hr) (Int.le_of_lt (Int.lt_add_one_of_le (Int.le_refl _)))
    · rw [List.mem_singleton.mp hr]
      exact Int.le_refl _

theorem Numbered.update (h : s.Numbered) (hf : KeepsText f) :
    Numbered { s with rows := s.rows.map f } where
  increasing := by
    apply List.pairwise_map.mpr
    apply h.increasing.imp
    intro a b hlt
    rw [hf.version, hf.version]
    exact hlt
  bounded := by
    intro r hr
    obtain ⟨old, hold, rfl⟩ := List.mem_map.mp hr
    rw [hf.version]
    exact h.bounded old hold

theorem Sound.append_row (h : Sound fmt s last)
    (hreads : ∃ config', fmt.fromJson (fmt.toJson config) = .ok config') :
    Sound fmt (s.saveVersion fmt now config createdBy comment).1 last where
  increasing := h.numbered.append_row.increasing
  bounded := h.numbered.append_row.bounded
  readable := by
    intro r hr
    obtain hr | hr := List.mem_append.mp hr
    · exact h.readable r hr
    · rw [List.mem_singleton.mp hr]
      exact hreads
  atMostOne := by
    have hsame : (s.saveVersion fmt now config createdBy comment).1.appliedRows = s.appliedRows :=
      (List.filter_append _ _).trans (List.append_nil _)
    rw [hsame]
    exact h.atMostOne
  anchor := by
    intro v hv
    obtain ⟨r, hr, hrest⟩ := h.anchor v hv
    exact ⟨r, List.mem_append_left _ hr, hrest⟩

theorem Sound.prune (h : Sound fmt s last) (keep : Nat) :
    Sound fmt (s.pruneToLimit keep).1 last where
  increasing := List.Pairwise.sublist List.filter_sublist h.increasing
  bounded := fun r hr => h.bounded r (List.mem_of_mem_filter hr)
  readable := fun r hr => h.readable r (List.mem_of_mem_filter hr)
  atMostOne := by
    have hsame : (s.pruneToLimit keep).1.appliedRows = s.appliedRows := applied_prune keep s.rows
    rw [hsame]
    exact h.atMostOne
  anchor := by
    intro v hv
    obtain ⟨r, hr, happlied, hversion⟩ := h.anchor v hv
    exact ⟨r, (mem_prune h.increasing keep).mpr ⟨hr, .inr happlied⟩, happlied, hversion⟩

theorem Sound.update (h : Sound fmt s last) (hf : KeepsText f)
    (hone : ((s.rows.map f).filter fun r => r.applied).length ≤ 1)
    (hanchor : ∀ v, last' = some v → ∃ r ∈ s.rows.map f, r.applied = true ∧ r.version = v) :
    Sound fmt { s with rows := s.rows.map f } last' where
  increasing := (h.numbered.update hf).increasing
  bounded := (h.numbered.update hf).bounded
  readable := by
    intro r hr
    obtain ⟨old, hold, rfl⟩ := List.mem_map.mp hr
    rw [hf.configJson]
    exact h.readable old hold
  atMostOne := hone
  anchor := hanchor

theorem unmark_keepsText : KeepsText ConfigVersion.unmark := by
  constructor <;> intro r <;> unfold ConfigVersion.unmark <;> split <;> rfl

theorem mark_keepsText (now : List Char) (version : Int) :
    KeepsText (ConfigVersion.mark now version) := by
  constructor <;> intro r <;> unfold ConfigVersion.mark <;> split <;> rfl

theorem rollBack_keepsText : KeepsText ConfigVersion.rollBack := by
  constructor <;> intro r <;> unfold ConfigVersion.rollBack <;> split <;> rfl

theorem unmark_applied (r : ConfigVersion) : r.unmark.applied = false := by
  unfold ConfigVersion.unmark
  split
  · rfl
  · exact Bool.eq_false_iff.mpr ‹_›

theorem rollBack_applied (r : ConfigVersion) : r.rollBack.applied = r.applied := by
  unfold ConfigVersion.rollBack
  split <;> rfl

theorem unmarkApplied_rows (hr : r ∈ s.unmarkApplied.rows) : r.applied = false := by
  obtain ⟨old, -, rfl⟩ := List.mem_map.mp hr
  exact unmark_applied old

theorem Sound.unmarkApplied (h : Sound fmt s last) : Sound fmt s.unmarkApplied none := by
  apply h.update unmark_keepsText
  · have hnone : (s.rows.map ConfigVersion.unmark).filter (fun r => r.applied) = [] := by
      apply List.filter_eq_nil_iff.mpr
      intro r hr
      rw [unmarkApplied_rows hr]
      exact Bool.false_ne_true
    rw [hnone]
    exact Nat.zero_le 1
  · intro v hv
    cases hv

/-- Once all are unmarked the one row of the version is the only one that is applied. -/
theorem Sound.markApplied (h : Sound fmt s last) (hr : r ∈ s.rows) (now : List Char) :
    Sound fmt (s.markApplied now r.version) (some r.version) := by
  have hunmarked := h.unmarkApplied
  have hkeeps := mark_keepsText now r.version
  apply hunmarked.update hkeeps
  · apply (hunmarked.numbered.update hkeeps).increasing.length_filter_le _ [r.version]
    intro x hx happlied
    obtain ⟨old, hold, rfl⟩ := List.mem_map.mp hx
    rw [hkeeps.version, List.mem_singleton]
    by_contra hne
    rw [ConfigVersion.mark, if_neg hne, unmarkApplied_rows hold] at happlied
    cases happlied
  · rintro v ⟨⟩
    refine ⟨_, List.mem_map_of_mem (List.mem_map_of_mem hr), ?_, ?_⟩
    · rw [ConfigVersion.mark, if_pos (unmark_keepsText.version r)]
    · rw [hkeeps.version, unmark_keepsText.version]

theorem Sound.markRolledBack (h : Sound fmt s last) : Sound fmt s.markRolledBack last := by
  apply h.update rollBack_keepsText
  · have hsame : (s.rows.map ConfigVersion.rollBack).filter (fun r => r.applied) =
        s.appliedRows.map ConfigVersion.rollBack := by
      rw [List.filter_map]
      congr 1
      apply List.filter_congr
      intro r _
      exact rollBack_applied r
    rw [hsame, List.length_map]
    exact h.atMostOne
  · intro v hv
    obtain ⟨r, hr, happlied, hversion⟩ := h.anchor v hv
    exact ⟨_, List.mem_map_of_mem hr, (rollBack_applied r).trans happlied,
      (rollBack_keepsText.version r).trans hversion⟩

theorem getVersion_ok (h : s.getVersion fmt v = .ok config) : ∃ r ∈ s.rows, r.version = v := by
  unfold getVersion at h
  cases hf : s.rows.find? fun r => r.version = v with
  | none =>
    rw [hf] at h
    cases h
  | some r =>
    exact ⟨r, List.mem_of_find?_eq_some hf, by simpa only [decide_eq_true_eq] using List.find?_some hf⟩

theorem Sound.rollback (h : Sound fmt s last) (now : List Char) (version : Int)
    (applyFn : Config → Except (List Char) Unit) :
    Sound fmt (s.rollback fmt now version applyFn).1
      (((s.rollback fmt now version applyFn).2.toOption.map fun () => version).or last) := by
  unfold ConfigManager.rollback
  cases hget : s.getVersion fmt version with
  | error e => exact h
  | ok config =>
    dsimp only
    cases applyFn config with
    | error e => exact h.markRolledBack
    | ok =>
      obtain ⟨r, hr, hversion⟩ := getVersion_ok hget
      have hmarked := h.markRolledBack.markApplied (List.mem_map_of_mem hr) now
      rw [rollBack_keepsText.version, hversion] at hmarked
      exact hmarked

theorem Sound.saveAndApply (h : Sound fmt s last)
    (hreads : ∃ config', fmt.fromJson (fmt.toJson config) = .ok config') :
    Sound fmt (s.saveAndApply fmt now appliedNow config createdBy comment applyFn).1
      ((s.saveAndApply fmt now appliedNow config createdBy comment applyFn).2.toOption.or last) := by
  have hsaved : Sound fmt (s.saveVersion fmt now config createdBy comment).1 last :=
    h.append_row hreads
  unfold ConfigManager.saveAndApply
  dsimp only
  cases applyFn config with
  | error e => exact hsaved
  | ok => exact hsaved.markApplied (List.mem_append_right _ (List.mem_singleton.mpr rfl)) appliedNow

theorem Sound.track (h : Sound fmt s last)
    (hreads : ∀ config, ∃ config', fmt.fromJson (fmt.toJson config) = .ok config') (op : Op Config) :
    Sound fmt (ConfigManager.track fmt (s, last) op).1
      (ConfigManager.track fmt (s, last) op).2 := by
  cases op with
  | saveVersion now config createdBy comment => exact h.append_row (hreads config)
  | saveIfChanged now config createdBy comment =>
    have hstep : ConfigManager.track fmt (s, last) (.saveIfChanged now config createdBy comment) =
        ((s.saveIfChanged fmt now config createdBy comment).1, last) := rfl
    rw [hstep]
    unfold ConfigManager.saveIfChanged
    split
    · exact h
    · exact (h.append_row (hreads config)).prune _
  | saveAndApply now appliedNow config createdBy comment applyFn => exact h.saveAndApply (hreads config)
  | rollback now version applyFn => exact h.rollback now version applyFn
  | setRetentionLimit limit =>
    have hstep : ConfigManager.track fmt (s, last) (.setRetentionLimit limit) =
        ((s.setRetentionLimit limit).1, last) := rfl
    rw [hstep]
    unfold ConfigManager.setRetentionLimit
    split
    · have hstored : Sound fmt { s with maxVersions := some (Nat.toDigits 10 limit) } last :=
        ⟨h.increasing, h.bounded, h.readable, h.atMostOne, h.anchor⟩
      exact hstored.prune limit
    · exact h
  | pruneToLimit keep => exact h.prune keep

theorem migrate_sound (fmt : ConfigFormat Config) (maxVersions : Option (List Char)) :
    Sound fmt (migrate maxVersions) none where
  increasing := .nil
  bounded := by
    rintro r ⟨⟩
  readable := by
    rintro r ⟨⟩
  atMostOne := Nat.zero_le 1
  anchor := by
    rintro v ⟨⟩

theorem Sound.saveIfChanged_some (h : Sound fmt s last)
    (hreads : ∃ config', fmt.fromJson (fmt.toJson config) = .ok config')
    (hsome : s.saveIfChanged fmt now config createdBy comment = (s', some v)) :
    KeepsNewest (s.saveVersion fmt now config createdBy comment).1 s' := by
  unfold ConfigManager.saveIfChanged at hsome
  split at hsome
  · cases hsome
  · cases hsome
    have hsaved : Sound fmt (s.saveVersion fmt now config createdBy comment).1 last :=
      h.append_row hreads
    constructor
    · exact (prune_length hsaved.increasing _).trans (Nat.add_le_add_left hsaved.atMostOne _)
    · intro r hr hfew
      exact (mem_prune hsaved.increasing _).mpr ⟨hr, .inl hfew⟩

theorem Sound.run (hreads : ∀ config, ∃ config', fmt.fromJson (fmt.toJson config) = .ok config')
    (ops : List (Op Config)) (t : ConfigManager × Option Int) (h : Sound fmt t.1 t.2) :
    Sound fmt (ops.foldl (ConfigManager.track fmt) t).1 (ops.foldl (ConfigManager.track fmt) t).2 := by
  induction ops generalizing t with
  | nil => exact h
  | cons op ops ih => exact ih _ (h.track hreads op)

end

/-- After every run of calls the applied version is the one of the last call that applied one, and
a save that adds a version leaves a bounded history with the newest versions in it. -/
theorem active_is_last_applied {Config : Type} (fmt : ConfigFormat Config)
    (hreads : ∀ config, ∃ config', fmt.fromJson (fmt.toJson config) = .ok config')
    (maxVersions : Option (List Char)) (ops : List (Op Config)) :
    ActiveIs fmt (ops.foldl (track fmt) (migrate maxVersions, none)).1
        (ops.foldl (track fmt) (migrate maxVersions, none)).2 ∧
      ∀ now config createdBy comment after v,
        (ops.foldl (track fmt) (migrate maxVersions, none)).1.saveIfChanged fmt now config
            createdBy comment = (after, some v) →
          KeepsNewest ((ops.foldl (track fmt) (migrate maxVersions, none)).1.saveVersion fmt now
            config createdBy comment).1 after := by
  have hrun := Sound.run hreads ops (migrate maxVersions, none) (migrate_sound fmt maxVersions)
  refine ⟨hrun.active, ?_⟩
  intro now config createdBy comment after v hsome
  exact hrun.saveIfChanged_some (hreads config) hsome

/-- Configurations that are their own texts. -/
def textFormat : ConfigFormat (List Char) := ⟨id, .ok, id⟩

def sampleOps : List (Op (List Char)) :=
  [.saveAndApply "t0".toList "t0".toList "one".toList "admin".toList none fun _ => .ok (),
    .saveAndApply "t1".toList "t1".toList "two".toList "admin".toList none
      fun _ => .error "pf".toList,
    .saveVersion "t2".toList "three".toList "admin".toList none, .pruneToLimit 0]

/-- The second apply fails, and pruning keeps the first version. -/
theorem active_is_last_applied_sample :
    (∀ config, ∃ config', textFormat.fromJson (textFormat.toJson config) = .ok config') ∧
      (sampleOps.foldl (track textFormat) (migrate none, none)).2 = some 1 ∧
      ActiveIs textFormat (sampleOps.foldl (track textFormat) (migrate none, none)).1
        (sampleOps.foldl (track textFormat) (migrate none, none)).2 := by
  have hreads : ∀ config, ∃ config', textFormat.fromJson (textFormat.toJson config) = .ok config' :=
    fun config => ⟨config, rfl⟩
  exact ⟨hreads, rfl, (active_is_last_applied textFormat hreads none sampleOps).1⟩

end ConfigManager

end AiFw.Config
