import Mathlib.Data.List.Forall2

namespace AiFw.Lib
set_option autoImplicit true

theorem andThen_ok {x : Except ε Unit} {y : Except ε β} :
    (x >>= fun _ => y) = .ok b ↔ x = .ok () ∧ y = .ok b := by
  cases x with
  | error e => exact ⟨(fun h => nomatch h), fun h => nomatch h.1⟩
  | ok u => exact ⟨fun h => ⟨rfl, h⟩, fun h => h.2⟩

theorem bind_ok {x : Except ε α} {f : α → Except ε β} :
    (x >>= f) = .ok b ↔ ∃ a, x = .ok a ∧ f a = .ok b := by
  cases x with
  | error e => exact ⟨(fun h => nomatch h), fun ⟨_, h, _⟩ => nomatch h⟩
  | ok a =>
    constructor
    · exact fun h => ⟨a, rfl, h⟩
    · rintro ⟨_, h, hf⟩
      cases h
      exact hf

theorem map_ok {x : Except ε α} {f : α → β} : x.map f = .ok b ↔ ∃ a, x = .ok a ∧ f a = b := by
  cases x with
  | error e => exact ⟨(fun h => nomatch h), fun ⟨_, h, _⟩ => nomatch h⟩
  | ok a =>
    constructor
    · exact fun h => ⟨a, rfl, Except.ok.inj h⟩
    · rintro ⟨_, h, rfl⟩
      cases h
      rfl

theorem forM_ok {f : α → Except ε Unit} {l : List α} : l.forM f = .ok () ↔ ∀ x ∈ l, f x = .ok () := by
  induction l with
  | nil => exact ⟨fun _ => List.forall_mem_nil _, fun _ => rfl⟩
  | cons x l ih =>
    change (f x >>= fun _ => l.forM f) = .ok () ↔ _
    rw [andThen_ok, ih, List.forall_mem_cons]

/-- A traversal succeeds exactly if each of its steps does. -/
theorem mapM_ok {f : α → Except ε β} {l : List α} {ys : List β} :
    l.mapM f = .ok ys ↔ List.Forall₂ (fun x y => f x = .ok y) l ys := by
  induction l generalizing ys with
  | nil =>
    rw [List.mapM_nil, List.forall₂_nil_left_iff]
    exact ⟨fun h => (Except.ok.inj h).symm, fun h => h ▸ rfl⟩
  | cons x l ih =>
    rw [List.mapM_cons, bind_ok, List.forall₂_cons_left_iff]
    constructor
    · rintro ⟨y, hy, h⟩
      obtain ⟨ys', hys, h⟩ := bind_ok.mp h
      cases h
      exact ⟨y, ys', hy, ih.mp hys, rfl⟩
    · rintro ⟨y, ys', hy, hys, rfl⟩
      exact ⟨y, hy, bind_ok.mpr ⟨ys', ih.mpr hys, rfl⟩⟩

theorem mem_of_mapM {f : α → Except ε β} {l : List α} {ys : List β} (h : l.mapM f = .ok ys) :
    y ∈ ys ↔ ∃ x ∈ l, f x = .ok y := by
  rw [mapM_ok] at h
  induction h with
  | nil =>
    constructor
    · exact fun h => nomatch h
    · rintro ⟨_, h, _⟩
      cases h
  | cons hx _ ih =>
    rw [List.mem_cons, List.exists_mem_cons_iff, ih, hx, Except.ok.injEq]
    exact or_congr_left eq_comm

theorem exists_of_mapM {f : α → Except ε β} {l : List α} {ys : List β} (h : l.mapM f = .ok ys)
    (hx : x ∈ l) : ∃ y, f x = .ok y := by
  rw [mapM_ok] at h
  induction h with
  | nil => cases hx
  | cons hy _ ih =>
    obtain rfl | hx := List.mem_cons.mp hx
    · exact ⟨_, hy⟩
    · exact ih hx

theorem forall₂_append_iff {R : α → β → Prop} {l l' : List α} {k k' : List β}
    (h : l.length = k.length) :
    List.Forall₂ R (l ++ l') (k ++ k') ↔ List.Forall₂ R l k ∧ List.Forall₂ R l' k' := by
  induction l generalizing k with
  | nil =>
    obtain rfl := List.length_eq_zero_iff.mp h.symm
    exact (and_iff_right .nil).symm
  | cons x l ih =>
    cases k with
    | nil => cases h
    | cons y k =>
      rw [List.cons_append, List.cons_append, List.forall₂_cons, List.forall₂_cons,
        ih (Nat.succ.inj h), and_assoc]

theorem forall₂_map_map_iff {R : β → γ → Prop} {f : α → β} {g : α → γ} {l : List α} :
    List.Forall₂ R (l.map f) (l.map g) ↔ ∀ x ∈ l, R (f x) (g x) := by
  rw [List.forall₂_map_left_iff, List.forall₂_map_right_iff, List.forall₂_same]

/-- What is read of the first entries is all that is wanted of a list exactly if nothing else is
wanted of these entries, and nothing of the others. -/
theorem filterMap_append_eq_iff {f g : α → Option β} {l l' : List α}
    (h : ∀ x ∈ l, (f x).isSome = (g x).isSome) :
    l.filterMap f = (l ++ l').filterMap g ↔ (∀ x ∈ l, f x = g x) ∧ ∀ x ∈ l', g x = none := by
  induction l with
  | nil =>
    rw [List.nil_append, List.filterMap_nil, eq_comm, List.filterMap_eq_nil_iff]
    exact (and_iff_right (List.forall_mem_nil _)).symm
  | cons x l ih =>
    obtain ⟨hx, hl⟩ := List.forall_mem_cons.mp h
    rw [List.forall_mem_cons, List.cons_append]
    cases hf : f x with
    | none =>
      rw [hf] at hx
      have hg : g x = none := Option.not_isSome_iff_eq_none.mp (by simp [← hx])
      rw [List.filterMap_cons_none hf, List.filterMap_cons_none hg, ih hl, hg]
      simp only [true_and]
    | some a =>
      rw [hf] at hx
      obtain ⟨b, hg⟩ := Option.isSome_iff_exists.mp hx.symm
      rw [List.filterMap_cons_some hf, List.filterMap_cons_some hg, hg, List.cons.injEq, ih hl,
        Option.some.injEq, and_assoc]

/-- A traversal whose steps all succeed collects what each of them gives. -/
theorem mapM_flatten {f : α → Option (List β)} {g : α → Option β} {l : List α}
    (h : ∀ x ∈ l, f x = some (g x).toList) :
    (l.mapM f).map List.flatten = some (l.filterMap g) := by
  induction l with
  | nil => rfl
  | cons x l ih =>
    obtain ⟨hx, hl⟩ := List.forall_mem_cons.mp h
    obtain ⟨ys, hys, hflat⟩ := Option.map_eq_some_iff.mp (ih hl)
    have hcons : (x :: l).filterMap g = (g x).toList ++ l.filterMap g := by
      cases hg : g x <;> simp [hg]
    rw [List.mapM_cons, hx, hys, hcons, ← hflat]
    rfl

end AiFw.Lib
