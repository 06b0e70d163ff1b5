import Mathlib.Data.List.Nodup

namespace AiFw.Lib
set_option autoImplicit true

variable {α κ : Type} {key : α → κ} {rows : List α}

/-- No two different rows of a table have the same key. -/
def Keyed (key : α → κ) (rows : List α) : Prop :=
  ∀ r ∈ rows, ∀ r' ∈ rows, key r = key r' → r = r'

theorem Keyed.nil : Keyed key ([] : List α) := by
  intro r hr
  cases hr

theorem Keyed.sublist (h : Keyed key rows) (hs : ∀ r ∈ rows', r ∈ rows) : Keyed key rows' := by
  intro r hr r' hr' he
  exact h r (hs r hr) r' (hs r' hr') he

theorem Keyed.of_nodup (h : (rows.map key).Nodup) : Keyed key rows := by
  intro r hr r' hr' he
  exact List.inj_on_of_nodup_map h hr hr' he

variable [DecidableEq κ]

/-- A row with the key is stored. -/
def hasKey (key : α → κ) (k : κ) (rows : List α) : Bool := rows.any fun r => key r = k

/-- Store a row in the place of the one with its key. -/
def setRow (key : α → κ) (row : α) (rows : List α) : List α :=
  rows.map fun r => if key r = key row then row else r

/-- Change the rows with the key in their places. -/
def amend (key : α → κ) (k : κ) (change : α → α) (rows : List α) : List α :=
  rows.map fun r => if key r = k then change r else r

def dropKey (key : α → κ) (k : κ) (rows : List α) : List α := rows.filter fun r => key r ≠ k

theorem hasKey_iff : hasKey key k rows = true ↔ ∃ r ∈ rows, key r = k := by
  simp only [hasKey, List.any_eq_true, decide_eq_true_eq]

theorem hasKey_eq_false : hasKey key k rows = false ↔ ∀ r ∈ rows, key r ≠ k := by
  rw [← Bool.not_eq_true, hasKey_iff]
  constructor
  · intro h r hr he
    exact h ⟨r, hr, he⟩
  · rintro h ⟨r, hr, he⟩
    exact h r hr he

theorem Keyed.find_iff (h : Keyed key rows) :
    rows.find? (fun r => key r = k) = some r ↔ r ∈ rows ∧ key r = k := by
  constructor
  · intro hf
    exact ⟨List.mem_of_find?_eq_some hf, by simpa only [decide_eq_true_eq] using List.find?_some hf⟩
  · rintro ⟨hr, hk⟩
    cases hf : rows.find? fun r => key r = k with
    | none => exact absurd (decide_eq_true hk) (List.find?_eq_none.mp hf r hr)
    | some r' =>
      have hk' : key r' = k := by simpa only [decide_eq_true_eq] using List.find?_some hf
      rw [h r' (List.mem_of_find?_eq_some hf) r hr (hk'.trans hk.symm)]

theorem mem_dropKey : r ∈ dropKey key k rows ↔ r ∈ rows ∧ key r ≠ k := by
  simp only [dropKey, List.mem_filter, decide_eq_true_eq]

theorem mem_setRow :
    r ∈ setRow key row rows ↔
      r ∈ rows ∧ key r ≠ key row ∨ r = row ∧ hasKey key (key row) rows = true := by
  unfold setRow
  rw [List.mem_map, hasKey_iff]
  constructor
  · rintro ⟨old, hold, he⟩
    by_cases hk : key old = key row
    · rw [if_pos hk] at he
      exact .inr ⟨he.symm, old, hold, hk⟩
    · rw [if_neg hk] at he
      rw [← he]
      exact .inl ⟨hold, hk⟩
  · rintro (⟨hr, hk⟩ | ⟨rfl, old, hold, hk⟩)
    · exact ⟨r, hr, if_neg hk⟩
    · exact ⟨old, hold, if_pos hk⟩

theorem mem_amend {change : α → α} :
    r ∈ amend key k change rows ↔
      r ∈ rows ∧ key r ≠ k ∨ ∃ old ∈ rows, key old = k ∧ change old = r := by
  rw [amend, List.mem_map]
  constructor
  · intro h
    obtain ⟨old, hold, he⟩ := h
    by_cases hk : key old = k
    · rw [if_pos hk] at he
      exact .inr ⟨old, hold, hk, he⟩
    · rw [if_neg hk] at he
      rw [← he]
      exact .inl ⟨hold, hk⟩
  · intro h
    obtain ⟨hr, hk⟩ | ⟨old, hold, hk, he⟩ := h
    · exact ⟨r, hr, if_neg hk⟩
    · exact ⟨old, hold, (if_pos hk).trans he⟩

/-- What a change leaves alone in every row is the same in every place of the table. -/
theorem map_amend {change : α → α} {f : α → β} (h : ∀ r ∈ rows, f (change r) = f r) :
    (amend key k change rows).map f = rows.map f := by
  rw [amend, List.map_map]
  apply List.map_congr_left
  intro r hr
  rw [Function.comp_apply]
  by_cases hk : key r = k
  · rw [if_pos hk]
    exact h r hr
  · rw [if_neg hk]

theorem amend_eq_self {change : α → α} (h : ∀ r ∈ rows, key r = k → change r = r) :
    amend key k change rows = rows := by
  have hmap : amend key k change rows = rows.map fun r => r := by
    apply List.map_congr_left
    intro r hr
    by_cases hk : key r = k
    · rw [if_pos hk]
      exact h r hr hk
    · rw [if_neg hk]
  rw [hmap, List.map_id']

theorem map_setRow (row : α) (rows : List α) : (setRow key row rows).map key = rows.map key := by
  rw [setRow, List.map_map]
  apply List.map_congr_left
  intro r _
  rw [Function.comp_apply]
  by_cases hk : key r = key row
  · rw [if_pos hk, hk]
  · rw [if_neg hk]

theorem hasKey_iff_mem_map : hasKey key k rows = true ↔ k ∈ rows.map key := by
  rw [hasKey_iff, List.mem_map]

theorem nodup_append_row (h : (rows.map key).Nodup) (hfresh : hasKey key (key row) rows = false) :
    ((rows ++ [row]).map key).Nodup := by
  rw [List.map_append, List.map_singleton, List.nodup_append]
  refine ⟨h, List.nodup_singleton _, ?_⟩
  intro k hk k' hk' heq
  rw [List.mem_singleton.mp hk'] at heq
  rw [heq, ← hasKey_iff_mem_map, hfresh] at hk
  cases hk

theorem Keyed.append_row (h : Keyed key rows) (hfresh : hasKey key (key row) rows = false) :
    Keyed key (rows ++ [row]) := by
  intro r hr r' hr' he
  have hnew := hasKey_eq_false.mp hfresh
  rw [List.mem_append, List.mem_singleton] at hr hr'
  rcases hr with hr | rfl
  · rcases hr' with hr' | rfl
    · exact h r hr r' hr' he
    · exact absurd he (hnew r hr)
  · rcases hr' with hr' | rfl
    · exact absurd he.symm (hnew r' hr')
    · rfl

theorem Keyed.setRow (h : Keyed key rows) (row : α) : Keyed key (Lib.setRow key row rows) := by
  intro r hr r' hr' he
  rcases mem_setRow.mp hr with ⟨hr, hk⟩ | ⟨rfl, -⟩
  · rcases mem_setRow.mp hr' with ⟨hr', -⟩ | ⟨rfl, -⟩
    · exact h r hr r' hr' he
    · exact absurd he hk
  · rcases mem_setRow.mp hr' with ⟨-, hk'⟩ | ⟨rfl, -⟩
    · exact absurd he.symm hk'
    · rfl

end AiFw.Lib
