import Mathlib.Data.List.Basic
import Mathlib.Data.List.Lex
import Mathlib.Order.Basic
import Mathlib.Order.Lattice
import Mathlib.Tactic.Tauto

namespace AiFw.Lib

set_option autoImplicit true

section

variable {α : Type} {le : α → α → Bool}

/-- A list falls in only one way into a part without a property and a part with it. -/
theorem split_unique {q : α → Bool} {l₁ l₂ m₁ m₂ : List α} (h : l₁ ++ l₂ = m₁ ++ m₂)
    (hl₁ : ∀ b ∈ l₁, q b = false)
    (hl₂ : ∀ b ∈ l₂, q b = true) (hm₁ : ∀ b ∈ m₁, q b = false) (hm₂ : ∀ b ∈ m₂, q b = true) :
    l₁ = m₁ ∧ l₂ = m₂ := by
  have hparts : ∀ k₁ k₂ : List α, (∀ b ∈ k₁, q b = false) → (∀ b ∈ k₂, q b = true) →
      (k₁ ++ k₂).filter q = k₂ := by
    intro k₁ k₂ h₁ h₂
    have hnil : k₁.filter q = [] := by
      rw [List.filter_eq_nil_iff]
      intro b hb
      rw [h₁ b hb]
      exact Bool.false_ne_true
    rw [List.filter_append, hnil, List.nil_append, List.filter_eq_self.mpr h₂]
  have hsnd : l₂ = m₂ := by
    rw [← hparts l₁ l₂ hl₁ hl₂, h, hparts m₁ m₂ hm₁ hm₂]
  rw [hsnd] at h
  exact ⟨List.append_cancel_right h, hsnd⟩

/-- What a stable sort keeps it keeps in the order it would have alone. -/
theorem filter_mergeSort (trans : ∀ a b c, le a b = true → le b c = true → le a c = true)
    (total : ∀ a b, (le a b || le b a) = true) (p : α → Bool) (l : List α) :
    (l.mergeSort le).filter p = (l.filter p).mergeSort le := by
  induction l with
  | nil => rw [List.mergeSort_nil, List.filter_nil, List.mergeSort_nil]
  | cons a l ih =>
    obtain ⟨l₁, l₂, hl, hrest, hbefore⟩ := List.mergeSort_cons trans total a l
    rw [hl]
    rw [hrest, List.filter_append] at ih
    by_cases hp : p a = true
    · obtain ⟨m₁, m₂, hm, hrest', hbefore'⟩ := List.mergeSort_cons trans total a (l.filter p)
      have hsorted := List.pairwise_mergeSort trans total (a :: l)
      have hsorted' := List.pairwise_mergeSort trans total (a :: l.filter p)
      rw [hl, List.pairwise_append] at hsorted
      rw [hm, List.pairwise_append] at hsorted'
      have hparts : l₁.filter p = m₁ ∧ l₂.filter p = m₂ := by
        apply split_unique (ih.trans hrest') (q := le a)
        · intro b hb
          exact (Bool.not_eq_true' _).mp (hbefore b (List.mem_of_mem_filter hb))
        · intro b hb
          exact (List.pairwise_cons.mp hsorted.2.1).1 b (List.mem_of_mem_filter hb)
        · intro b hb
          exact (Bool.not_eq_true' _).mp (hbefore' b hb)
        · exact (List.pairwise_cons.mp hsorted'.2.1).1
      rw [List.filter_append, List.filter_cons_of_pos hp, List.filter_cons_of_pos hp, hm,
        hparts.1, hparts.2]
    · rw [List.filter_append, List.filter_cons_of_neg hp, List.filter_cons_of_neg hp, ih]

/-- A list in which nothing may stand before anything after it is turned round. -/
theorem mergeSort_eq_reverse (trans : ∀ a b c, le a b = true → le b c = true → le a c = true)
    (total : ∀ a b, (le a b || le b a) = true) {l : List α}
    (h : l.Pairwise fun a b => le a b = false) : l.mergeSort le = l.reverse := by
  have hback : l.reverse.Pairwise fun a b => le a b = true := by
    rw [List.pairwise_reverse]
    apply h.imp
    intro a b hab
    have htotal := total a b
    rwa [hab, Bool.false_or] at htotal
  have hanti : ∀ a ∈ l, ∀ b ∈ l, le a b = true → le b a = true → a = b := by
    induction h with
    | nil =>
      intro a ha
      cases ha
    | @cons x l hx _ ih =>
      have hrest := ih (List.pairwise_append.mp (List.reverse_cons ▸ hback)).1
      intro a ha b hb hab hba
      obtain rfl | ha' := List.mem_cons.mp ha
      · obtain rfl | hb' := List.mem_cons.mp hb
        · rfl
        · rw [hx b hb'] at hab
          cases hab
      · obtain rfl | hb' := List.mem_cons.mp hb
        · rw [hx a ha'] at hba
          cases hba
        · exact hrest a ha' b hb' hab hba
  have hsame : ∀ a b, a ∈ l.mergeSort le → b ∈ l.reverse → le a b = true → le b a = true →
      a = b := by
    intro a b ha hb
    exact hanti a (List.mem_mergeSort.mp ha) b (List.mem_reverse.mp hb)
  exact List.Perm.eq_of_pairwise hsame (List.pairwise_mergeSort trans total l) hback
    ((List.mergeSort_perm l le).trans l.reverse_perm.symm)

/-- In a sorted list one element stands before another that may not come first. -/
theorem pair_sublist_of_pairwise {l : List α} (h : l.Pairwise fun a b => le a b = true)
    (ha : a ∈ l) (hb : b ∈ l) (hne : b ≠ a) (hlt : le b a = false) : [a, b].Sublist l := by
  obtain ⟨front, back, rfl⟩ := List.append_of_mem ha
  have hback : b ∈ back := by
    rcases List.mem_append.mp hb with hfront | hrest
    · have hle := (List.pairwise_append.mp h).2.2 b hfront a List.mem_cons_self
      rw [hlt] at hle
      cases hle
    · exact (List.mem_cons.mp hrest).resolve_left hne
  exact ((List.singleton_sublist.mpr hback).cons_cons a).trans (List.sublist_append_right _ _)

end

section
variable {α : Type} [LinearOrder α]

theorem cons_lt_cons_iff' {a b : α} {l k : List α} : a :: l < b :: k ↔ a < b ∨ a = b ∧ l < k :=
  List.cons_lex_cons_iff

/-- Columns of one width decide before what follows them. -/
theorem append_lt_append_iff {l k : List α} (hwidth : l.length = k.length) (x y : List α) :
    l ++ x < k ++ y ↔ l < k ∨ l = k ∧ x < y := by
  induction l generalizing k with
  | nil =>
    cases List.eq_nil_of_length_eq_zero hwidth.symm
    simp
  | cons a l ih =>
    cases k with
    | nil => cases hwidth
    | cons b k =>
      have hrest := ih (Nat.succ.inj hwidth)
      simp only [List.cons_append, cons_lt_cons_iff', hrest, List.cons.injEq]
      tauto

/-- A column that grows makes the text grow. -/
theorem append_lt_append_of_lt {l k : List α} (hwidth : l.length = k.length) (h : l < k)
    (x y : List α) : l ++ x < k ++ y :=
  (append_lt_append_iff hwidth x y).mpr (.inl h)

/-- What writes smaller values as smaller texts orders the texts as the values. -/
theorem lt_iff_of_write_lt {β : Type} [LinearOrder β] {write : β → List α} {a b : β}
    (hab : a < b → write a < write b) (hba : b < a → write b < write a) :
    (write a < write b ↔ a < b) ∧ (write a = write b ↔ a = b) := by
  obtain h | h | h := lt_trichotomy a b
  · exact ⟨iff_of_true (hab h) h, iff_of_false (hab h).ne h.ne⟩
  · subst h
    simp
  · exact ⟨iff_of_false (hba h).not_gt h.not_gt, iff_of_false (hba h).ne' h.ne'⟩

end

section
variable {α : Type} {r : α → α → Prop} {keep : α → Option Nat}

/-- Of two lists only the numbers of some entries are kept. They stand in the order of the lists if
the first entries that differ are both kept, or if what is kept from there on happens to. -/
def Telling [DecidableEq α] (r : α → α → Prop) (keep : α → Option Nat) :
    List α → List α → Prop
  | [], [] => True
  | [], y :: ys => (y :: ys).filterMap keep ≠ []
  | _ :: _, [] => True
  | x :: xs, y :: ys =>
    if x = y then Telling r keep xs ys
    else (keep x).isSome ∧ (keep y).isSome ∨
      (r x y ↔ (x :: xs).filterMap keep < (y :: ys).filterMap keep)

/-- Where two lists first differ, the entries are kept; and what one only goes on with has some
number. -/
def Decided [DecidableEq α] (keep : α → Option Nat) : List α → List α → Prop
  | [], [] => True
  | [], y :: ys => (y :: ys).filterMap keep ≠ []
  | _ :: _, [] => True
  | x :: xs, y :: ys =>
    if x = y then Decided keep xs ys else (keep x).isSome ∧ (keep y).isSome

theorem Decided.telling [DecidableEq α] {xs ys : List α} (h : Decided keep xs ys) :
    Telling r keep xs ys := by
  induction xs generalizing ys with
  | nil => cases ys <;> exact h
  | cons x xs ih =>
    cases ys with
    | nil => trivial
    | cons y ys =>
      rw [Decided] at h
      rw [Telling]
      by_cases he : x = y
      · rw [if_pos he] at h ⊢
        exact ih h
      · rw [if_neg he] at h ⊢
        exact .inl h

theorem not_lt_nil (l : List Nat) : ¬ l < [] := by
  intro h
  cases h

theorem nil_lt_iff {l : List Nat} : [] < l ↔ l ≠ [] := by
  cases l <;> simp

theorem cons_lt_cons {a b : Nat} {l k : List Nat} : a :: l < b :: k ↔ a < b ∨ a = b ∧ l < k :=
  List.cons_lex_cons_iff

/-- Entries that are the same stand or fall with what follows. -/
theorem filterMap_lt_cons (x : α) (xs ys : List α) :
    (x :: xs).filterMap keep < (x :: ys).filterMap keep ↔
      xs.filterMap keep < ys.filterMap keep := by
  cases h : keep x with
  | none => rw [List.filterMap_cons_none h, List.filterMap_cons_none h]
  | some a =>
    rw [List.filterMap_cons_some h, List.filterMap_cons_some h, cons_lt_cons]
    simp

theorem filterMap_lt_of_kept {a b : Nat} (hne : a ≠ b) (hx : keep x = some a)
    (hy : keep y = some b) :
    (x :: xs).filterMap keep < (y :: ys).filterMap keep ↔ a < b := by
  rw [List.filterMap_cons_some hx, List.filterMap_cons_some hy, cons_lt_cons]
  simp [hne]

/-- The kept numbers compare as the lists do exactly if they are telling. -/
theorem kept_order_iff [DecidableEq α] (hirrefl : ∀ x, ¬ r x x)
    (hkeep : ∀ x y a b, x ≠ y → keep x = some a → keep y = some b → a ≠ b ∧ (r x y ↔ a < b))
    (xs ys : List α) :
    (xs.filterMap keep < ys.filterMap keep ↔ List.Lex r xs ys) ↔ Telling r keep xs ys := by
  induction xs generalizing ys with
  | nil =>
    cases ys with
    | nil => simp [Telling]
    | cons y ys => simp only [Telling, List.filterMap_nil, nil_lt_iff, List.Lex.nil, iff_true]
  | cons x xs ih =>
    cases ys with
    | nil =>
      have hlex : ¬ List.Lex r (x :: xs) [] := List.not_lex_nil
      simp only [Telling, iff_true]
      exact iff_of_false (not_lt_nil _) hlex
    | cons y ys =>
      rw [Telling, List.cons_lex_cons_iff]
      by_cases he : x = y
      · rw [if_pos he, he, filterMap_lt_cons, ← ih]
        simp [hirrefl]
      · rw [if_neg he]
        simp only [he, false_and, or_false]
        constructor
        · intro h
          exact .inr h.symm
        · rintro (⟨hx, hy⟩ | h)
          · obtain ⟨a, ha⟩ := Option.isSome_iff_exists.mp hx
            obtain ⟨b, hb⟩ := Option.isSome_iff_exists.mp hy
            obtain ⟨hne, hr⟩ := hkeep x y a b he ha hb
            rw [filterMap_lt_of_kept hne ha hb, hr]
          · exact h.symm

end

end AiFw.Lib
