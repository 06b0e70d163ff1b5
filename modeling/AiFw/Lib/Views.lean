import AiFw.Lib.Results
import Mathlib.Data.List.Forall2

namespace AiFw.Lib
set_option autoImplicit true

theorem foldl_map_rows (f : β → α → α) (l : List β) (rows : List α) :
    l.foldl (fun rows b => rows.map (f b)) rows = rows.map fun r => l.foldl (fun r b => f b r) r := by
  induction l generalizing rows with
  | nil => exact (List.map_id _).symm
  | cons b l ih => rw [List.foldl_cons, ih, List.map_map]; rfl

/-- Two lists whose elements are told apart by their keys are equal if their keys are. -/
theorem eq_of_map_eq {key : α → κ} {l l' : List α}
    (h : ∀ a ∈ l, ∀ b ∈ l', key a = key b → a = b) (hkeys : l.map key = l'.map key) : l = l' := by
  induction l generalizing l' with
  | nil => exact (List.map_eq_nil_iff.mp hkeys.symm).symm
  | cons a l ih =>
    cases l' with
    | nil => cases hkeys
    | cons b l' =>
      obtain ⟨hkey, hrest⟩ := List.cons.inj hkeys
      rw [h a List.mem_cons_self b List.mem_cons_self hkey, ih _ hrest]
      intro x hx y hy
      exact h x (List.mem_cons_of_mem a hx) y (List.mem_cons_of_mem b hy)

section
variable {ρ ε τ : Type}

/-- What is written of the rows depends on no more of them than is looked at. -/
theorem map_eq_of_view {view : ρ → τ} {f f' : ρ → ε} (g : τ → ε) {l l' : List ρ}
    (h : l.map view = l'.map view) (hf : ∀ r, f r = g (view r)) (hf' : ∀ r, f' r = g (view r)) :
    l.map f = l'.map f' := by
  calc l.map f = (l.map view).map g := by
        rw [List.map_map]
        exact List.map_congr_left fun r _ => hf r
    _ = (l'.map view).map g := by rw [h]
    _ = l'.map f' := by
        rw [List.map_map]
        exact List.map_congr_left fun r _ => (hf' r).symm

/-- Rows that two views tell apart. -/
theorem eq_of_views {v : ρ → τ} {w : ρ → ε} (hinj : ∀ a b, v a = v b → w a = w b → a = b)
    {l l' : List ρ} (hv : l.map v = l'.map v) (hw : l.map w = l'.map w) : l = l' := by
  induction l generalizing l' with
  | nil => exact (List.map_eq_nil_iff.mp hv.symm).symm
  | cons a l ih =>
    cases l' with
    | nil => cases hv
    | cons b l' =>
      obtain ⟨hva, hvl⟩ := List.cons.inj hv
      obtain ⟨hwa, hwl⟩ := List.cons.inj hw
      rw [hinj a b hva hwa, ih hvl hwl]

theorem map_pair_eq {v : ρ → τ} {w : ρ → ε} {l l' : List ρ} (hv : l.map v = l'.map v)
    (hw : l.map w = l'.map w) : l.map (fun r => (v r, w r)) = l'.map fun r => (v r, w r) := by
  have hzip := congrArg₂ List.zip hv hw
  rwa [List.zip_map', List.zip_map'] at hzip

/-- What is written of the records that rows read as, where the rows look the same. -/
theorem map_eq_of_forall₂ {R : ρ → ε → Prop} {view : ρ → τ} {f : ε → κ}
    (hf : ∀ r r' x x', R r x → R r' x' → view r = view r' → f x = f x')
    {l l' : List ρ} {xs xs' : List ε} (h : List.Forall₂ R l xs) (h' : List.Forall₂ R l' xs')
    (hview : l.map view = l'.map view) : xs.map f = xs'.map f := by
  induction h generalizing l' xs' with
  | nil =>
    cases h' with
    | nil => rfl
    | cons _ _ => cases hview
  | cons hr _ ih =>
    cases h' with
    | nil => cases hview
    | cons hr' hrest' =>
      obtain ⟨hhead, htail⟩ := List.cons.inj hview
      rw [List.map_cons, List.map_cons, hf _ _ _ _ hr hr' hhead, ih hrest' htail]

theorem map_of_forall₂ {R : ρ → ε → Prop} {g : ρ → τ} {f : ε → τ}
    (hg : ∀ r x, R r x → g r = f x) {l : List ρ} {xs : List ε} (h : List.Forall₂ R l xs) :
    l.map g = xs.map f := by
  induction h with
  | nil => rfl
  | cons hr _ ih => rw [List.map_cons, List.map_cons, hg _ _ hr, ih]

end

/-- A traversal all of whose steps go through goes through. -/
theorem mapM_total {f : α → Except ε β} {l : List α} (h : ∀ x ∈ l, ∃ y, f x = .ok y) :
    ∃ ys, l.mapM f = .ok ys := by
  induction l with
  | nil => exact ⟨[], rfl⟩
  | cons x l ih =>
    obtain ⟨y, hy⟩ := h x List.mem_cons_self
    obtain ⟨ys, hys⟩ := ih fun x hx => h x (List.mem_cons_of_mem _ hx)
    refine ⟨y :: ys, ?_⟩
    rw [List.mapM_cons]
    exact bind_ok.mpr ⟨y, hy, bind_ok.mpr ⟨ys, hys, rfl⟩⟩

theorem exists_right_of_mem {R : α → β → Prop} {l : List α} {m : List β} (h : List.Forall₂ R l m)
    (ha : a ∈ l) : ∃ b ∈ m, R a b := by
  induction h with
  | nil => cases ha
  | cons hab _ ih =>
    rcases List.mem_cons.mp ha with rfl | ha
    · exact ⟨_, List.mem_cons_self, hab⟩
    · obtain ⟨b, hb, hrel⟩ := ih ha
      exact ⟨b, List.mem_cons_of_mem _ hb, hrel⟩

theorem exists_left_of_mem {R : α → β → Prop} {l : List α} {m : List β} (h : List.Forall₂ R l m)
    (hb : b ∈ m) : ∃ a ∈ l, R a b := exists_right_of_mem h.flip hb

/-- What is made of the values that the elements go to, where it tells what the elements were. -/
theorem filterMap_of_forall₂ {R : α → β → Prop} {f : β → Option γ} {g : γ → δ} {v : α → δ}
    {l : List α} {ys : List β} (h : List.Forall₂ R l ys)
    (hf : ∀ x ∈ l, ∀ y, R x y → ∃ z, f y = some z ∧ g z = v x) :
    (ys.filterMap f).map g = l.map v := by
  induction h with
  | nil => rfl
  | cons hxy _ ih =>
    obtain ⟨z, hz, hsame⟩ := hf _ List.mem_cons_self _ hxy
    rw [List.filterMap_cons_some hz, List.map_cons, List.map_cons, hsame,
      ih fun x hx => hf x (List.mem_cons_of_mem _ hx)]

end AiFw.Lib
