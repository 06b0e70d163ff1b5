import AiFw.Lib.Runs
import Mathlib.Data.List.Nodup
import Mathlib.Data.List.Range

namespace AiFw.Lib
set_option autoImplicit true

variable {K V α β : Type}

/-- `Iterator::max_by_key`: the last of the elements with the largest key. -/
def maxByKey (key : α → Nat) : List α → Option α
  | [] => none
  | x :: xs =>
    match maxByKey key xs with
    | none => some x
    | some y => if key x ≤ key y then some y else some x

theorem maxByKey_mem {key : α → Nat} {l : List α} (h : maxByKey key l = some y) : y ∈ l := by
  induction l generalizing y with
  | nil => cases h
  | cons x xs ih =>
    cases hr : maxByKey key xs with
    | none =>
      simp only [maxByKey, hr, Option.some.injEq] at h
      subst y
      exact List.mem_cons_self
    | some z =>
      simp only [maxByKey, hr] at h
      split at h
      · cases h
        exact List.mem_cons_of_mem _ (ih hr)
      · cases h
        exact List.mem_cons_self

theorem maxByKey_eq_none {key : α → Nat} {l : List α} : maxByKey key l = none ↔ l = [] := by
  cases l with
  | nil => exact ⟨fun _ => rfl, fun _ => rfl⟩
  | cons x xs =>
    constructor
    · intro h
      simp only [maxByKey] at h
      split at h
      · cases h
      · split at h <;> cases h
    · intro h
      cases h

theorem maxByKey_le {key : α → Nat} {l : List α} (h : maxByKey key l = some y) (hx : x ∈ l) :
    key x ≤ key y := by
  induction l generalizing y with
  | nil => cases hx
  | cons z zs ih =>
    cases hr : maxByKey key zs with
    | none =>
      simp only [maxByKey, hr, Option.some.injEq] at h
      subst y
      rcases List.mem_cons.mp hx with rfl | hx
      · exact Nat.le_refl _
      · rw [maxByKey_eq_none.mp hr] at hx
        cases hx
    | some w =>
      simp only [maxByKey, hr] at h
      split at h
      next hle =>
        cases h
        rcases List.mem_cons.mp hx with rfl | hx
        · exact hle
        · exact ih hr hx
      next hle =>
        cases h
        rcases List.mem_cons.mp hx with rfl | hx
        · exact Nat.le_refl _
        · exact (ih hr hx).trans (Nat.le_of_not_le hle)

section PushNew
variable [DecidableEq α]

def pushNew (l : List α) (x : α) : List α := if x ∈ l then l else l ++ [x]

theorem mem_pushNew {l : List α} : y ∈ pushNew l x ↔ y ∈ l ∨ y = x := by
  rw [pushNew]
  split
  next h => exact ⟨.inl, fun hy => hy.elim id fun he => he ▸ h⟩
  next h => rw [List.mem_append, List.mem_singleton]

theorem nodup_pushNew {l : List α} (h : l.Nodup) (x : α) : (pushNew l x).Nodup := by
  rw [pushNew]
  split
  next => exact h
  next hx => exact List.nodup_append.mpr ⟨h, List.nodup_singleton x, by
    intro a ha b hb he
    rw [List.mem_singleton.mp hb] at he
    exact hx (he ▸ ha)⟩

theorem mem_foldl_pushNew {l xs : List α} : y ∈ xs.foldl pushNew l ↔ y ∈ l ∨ y ∈ xs := by
  apply (foldl_gathers (P := (y ∈ ·)) (fun _ x => mem_pushNew (x := x)) l xs).trans
  exact or_congr_right ⟨fun ⟨_, hm, he⟩ => he ▸ hm, fun hm => ⟨y, hm, rfl⟩⟩

theorem nodup_foldl_pushNew {l : List α} (h : l.Nodup) (xs : List α) :
    (xs.foldl pushNew l).Nodup := by
  induction xs generalizing l with
  | nil => exact h
  | cons x xs ih => exact ih (nodup_pushNew h x)

end PushNew

/-- Distinct keys and, in a second list beside them, the values filed under each. -/
structure Buckets (K V : Type) where
  keys : List K
  values : List (List V)
  parallel : values.length = keys.length

namespace Buckets

def empty : Buckets K V := ⟨[], [], rfl⟩

def Files (b : Buckets K V) (k : K) (v : V) : Prop :=
  ∃ (i : Nat) (vs : List V), b.keys[i]? = some k ∧ b.values[i]? = some vs ∧ v ∈ vs

theorem not_files_empty : ¬(empty : Buckets K V).Files k v := by
  rintro ⟨i, vs, hk, -, -⟩
  cases hk

theorem Files.lt {b : Buckets K V} {i : Nat} (h : b.keys[i]? = some k) : i < b.values.length := by
  rw [b.parallel]
  exact (List.getElem?_eq_some_iff.mp h).1

variable [DecidableEq K]

def file (b : Buckets K V) (k : K) (v : V) : Buckets K V :=
  match b.keys.idxOf? k with
  | some i =>
    { keys := b.keys
      values := b.values.modify i (· ++ [v])
      parallel := by rw [List.length_modify, b.parallel] }
  | none =>
    { keys := b.keys ++ [k]
      values := b.values ++ [[v]]
      parallel := by rw [List.length_append, List.length_append, b.parallel]; rfl }

theorem file_old {b : Buckets K V} {i : Nat} (h : b.keys.idxOf? k = some i) :
    (b.file k v).keys = b.keys ∧ (b.file k v).values = b.values.modify i (· ++ [v]) := by
  simp only [file, h, and_self]

theorem file_new {b : Buckets K V} (h : b.keys.idxOf? k = none) :
    (b.file k v).keys = b.keys ++ [k] ∧ (b.file k v).values = b.values ++ [[v]] := by
  simp only [file, h, and_self]

theorem files_file_old {b : Buckets K V} {i : Nat} (h : b.keys.idxOf? k = some i) :
    (b.file k v).Files k' v' ↔ b.Files k' v' ∨ k' = k ∧ v' = v := by
  have hk : b.keys[i]? = some k := by
    obtain ⟨hlt, hk, -⟩ := List.idxOf?_eq_some_iff.mp h
    rw [List.getElem?_eq_getElem hlt, hk]
  obtain ⟨ws, hws⟩ : ∃ ws, b.values[i]? = some ws :=
    ⟨_, List.getElem?_eq_getElem (Files.lt hk)⟩
  rw [Files, (file_old h).1, (file_old h).2]
  constructor
  · rintro ⟨j, vs, hj, hv, hm⟩
    by_cases he : i = j
    · subst j
      rw [List.getElem?_modify_eq, hws] at hv
      cases hv
      rcases List.mem_append.mp hm with hm | hm
      · exact .inl ⟨i, ws, hj, hws, hm⟩
      · exact .inr ⟨Option.some.inj (hj.symm.trans hk), List.mem_singleton.mp hm⟩
    · rw [List.getElem?_modify_ne _ _ he] at hv
      exact .inl ⟨j, vs, hj, hv, hm⟩
  · have hi : (b.values.modify i (· ++ [v]))[i]? = some (ws ++ [v]) := by
      rw [List.getElem?_modify_eq, hws]
      rfl
    rintro (⟨j, vs, hj, hv, hm⟩ | ⟨rfl, rfl⟩)
    · by_cases he : i = j
      · subst j
        cases Option.some.inj (hv.symm.trans hws)
        exact ⟨i, ws ++ [v], hj, hi, List.mem_append_left _ hm⟩
      · refine ⟨j, vs, hj, ?_, hm⟩
        rw [List.getElem?_modify_ne _ _ he, hv]
    · exact ⟨i, ws ++ [v'], hk, hi, List.mem_append_right _ List.mem_cons_self⟩

theorem files_file_new {b : Buckets K V} (h : b.keys.idxOf? k = none) :
    (b.file k v).Files k' v' ↔ b.Files k' v' ∨ k' = k ∧ v' = v := by
  rw [Files, (file_new h).1, (file_new h).2]
  constructor
  · rintro ⟨j, vs, hj, hv, hm⟩
    by_cases hlt : j < b.keys.length
    · rw [List.getElem?_append_left hlt] at hj
      rw [List.getElem?_append_left (b.parallel ▸ hlt)] at hv
      exact .inl ⟨j, vs, hj, hv, hm⟩
    · rw [List.getElem?_append_right (Nat.le_of_not_lt hlt)] at hj
      rw [List.getElem?_append_right (b.parallel ▸ Nat.le_of_not_lt hlt)] at hv
      have hk := List.mem_of_getElem? hj
      have hvs := List.mem_of_getElem? hv
      rw [List.mem_singleton] at hk hvs
      subst vs
      exact .inr ⟨hk, List.mem_singleton.mp hm⟩
  · rintro (⟨j, vs, hj, hv, hm⟩ | ⟨rfl, rfl⟩)
    · refine ⟨j, vs, ?_, ?_, hm⟩
      · rw [List.getElem?_append_left (List.getElem?_eq_some_iff.mp hj).1, hj]
      · rw [List.getElem?_append_left (List.getElem?_eq_some_iff.mp hv).1, hv]
    · refine ⟨b.keys.length, [v'], List.getElem?_concat_length, ?_, List.mem_cons_self⟩
      rw [← b.parallel]
      exact List.getElem?_concat_length

theorem files_file {b : Buckets K V} :
    (b.file k v).Files k' v' ↔ b.Files k' v' ∨ k' = k ∧ v' = v := by
  cases h : b.keys.idxOf? k with
  | none => exact files_file_new h
  | some i => exact files_file_old h

end Buckets

theorem filterMap_range_getElem (p : α → Bool) (l : List α) :
    ((List.range l.length).filter fun i => (l[i]?).any p).filterMap (l[·]?) = l.filter p := by
  induction l with
  | nil => rfl
  | cons x xs ih =>
    have hc : ((fun i => ((x :: xs)[i]?).any p) ∘ Nat.succ) = fun i => (xs[i]?).any p := rfl
    have hm : ((fun i : Nat => (x :: xs)[i]?) ∘ Nat.succ) = fun i => xs[i]? := rfl
    rw [List.length_cons, List.range_succ_eq_map, List.filter_cons, List.filter_map, hc]
    have h0 : ((x :: xs)[0]?).any p = p x := rfl
    rw [h0, List.filter_cons]
    split
    · have hx : (x :: xs)[0]? = some x := rfl
      rw [List.filterMap_cons, hx, List.filterMap_map, hm, ih]
    · rw [List.filterMap_map, hm, ih]

/-- A duplicate-free list of exactly the positions of the elements that pass a test reads back,
up to order, as those elements. -/
theorem filterMap_getElem_perm {p : α → Bool} {l : List α} {is : List Nat} (hn : is.Nodup)
    (h : ∀ i, i ∈ is ↔ ∃ x, l[i]? = some x ∧ p x = true) :
    (is.filterMap (l[·]?)).Perm (l.filter p) := by
  have hr : is.Perm ((List.range l.length).filter fun i => (l[i]?).any p) := by
    apply (List.perm_ext_iff_of_nodup hn (List.nodup_range.filter _)).mpr
    intro i
    rw [h i, List.mem_filter, List.mem_range, Option.any_eq_true]
    constructor
    · intro hi
      obtain ⟨x, hx, hp⟩ := hi
      exact ⟨(List.getElem?_eq_some_iff.mp hx).1, x, hx, hp⟩
    · intro hi
      obtain ⟨-, x, hx, hp⟩ := hi
      exact ⟨x, hx, hp⟩
  exact (hr.filterMap _).trans (.of_eq (filterMap_range_getElem p l))

end AiFw.Lib
