import Mathlib.Data.List.Basic

namespace AiFw.Lib
set_option autoImplicit true

section
variable {α : Type} [DecidableEq α] (sep : α)

/-- What comes before the last separator, and what comes after it. -/
def splitLast : List α → Option (List α × List α)
  | [] => none
  | x :: xs =>
    match splitLast xs with
    | some (a, b) => some (x :: a, b)
    | none => if x = sep then some ([], xs) else none

/-- The piece before the first separator. -/
def firstPiece (l : List α) : List α := (l.splitOn sep).headD []

/-- The pieces after the separators, the last one first. -/
def piecesBack (l : List α) : List (List α) := (l.splitOn sep).tail.reverse

variable {sep}

theorem splitLast_none (h : splitLast sep l = none) : sep ∉ l := by
  induction l with
  | nil => exact List.not_mem_nil
  | cons x xs ih =>
    rw [splitLast] at h
    cases hlast : splitLast sep xs with
    | some p =>
      rw [hlast] at h
      cases h
    | none =>
      rw [hlast] at h
      dsimp only at h
      split at h
      · cases h
      · next hx =>
        rw [List.mem_cons, not_or]
        exact ⟨fun he => hx he.symm, ih hlast⟩

theorem splitLast_eq (h : splitLast sep l = some (a, b)) : l = a ++ sep :: b ∧ sep ∉ b := by
  induction l generalizing a b with
  | nil => cases h
  | cons x xs ih =>
    rw [splitLast] at h
    cases hlast : splitLast sep xs with
    | some p =>
      obtain ⟨a', b'⟩ := p
      rw [hlast] at h
      cases h
      obtain ⟨rfl, hb⟩ := ih hlast
      exact ⟨rfl, hb⟩
    | none =>
      rw [hlast] at h
      dsimp only at h
      split at h
      · next hx =>
        cases h
        subst hx
        exact ⟨rfl, splitLast_none hlast⟩
      · cases h

theorem firstPiece_of_notMem (h : sep ∉ l) : firstPiece sep l = l := by
  rw [firstPiece, List.splitOn_eq_singleton h]
  rfl

theorem splitOn_pieces (l : List α) :
    l.splitOn sep = firstPiece sep l :: (piecesBack sep l).reverse := by
  rw [firstPiece, piecesBack, List.reverse_reverse]
  cases hsplit : l.splitOn sep with
  | nil => exact absurd hsplit (List.splitOn_ne_nil sep l)
  | cons c rest => rfl

theorem notMem_firstPiece (l : List α) : sep ∉ firstPiece sep l := by
  by_cases hmem : sep ∈ l
  · obtain ⟨a, b, rfl, ha⟩ := List.eq_append_cons_of_mem hmem
    rw [firstPiece, List.splitOn_append_cons_self, List.splitOn_eq_singleton ha]
    exact ha
  · rwa [firstPiece_of_notMem hmem]

theorem piecesBack_of_notMem (h : sep ∉ l) : piecesBack sep l = [] := by
  rw [piecesBack, List.splitOn_eq_singleton h]
  rfl

/-- More pieces behind a separator. -/
theorem pieces_append_cons (sep : α) (a b : List α) :
    firstPiece sep (a ++ sep :: b) = firstPiece sep a ∧
      piecesBack sep (a ++ sep :: b) = (b.splitOn sep).reverse ++ piecesBack sep a := by
  rw [firstPiece, piecesBack, List.splitOn_append_cons_self, firstPiece, piecesBack]
  cases hsplit : a.splitOn sep with
  | nil => exact absurd hsplit (List.splitOn_ne_nil sep a)
  | cons c rest => exact ⟨rfl, List.reverse_append⟩

/-- The last piece of all comes first, and then those of what is before it. -/
theorem pieces_splitLast (h : splitLast sep l = some (a, b)) :
    firstPiece sep l = firstPiece sep a ∧ piecesBack sep l = b :: piecesBack sep a := by
  obtain ⟨rfl, hb⟩ := splitLast_eq h
  obtain ⟨hfirst, hback⟩ := pieces_append_cons sep a b
  rw [List.splitOn_eq_singleton hb] at hback
  exact ⟨hfirst, hback⟩

/-- The pieces of a list are those of its end, and then those of what comes before, to which the
first piece of the end belongs. -/
theorem pieces_append (sep : α) (front back : List α) :
    firstPiece sep (front ++ back) = firstPiece sep (front ++ firstPiece sep back) ∧
      piecesBack sep (front ++ back) =
        piecesBack sep back ++ piecesBack sep (front ++ firstPiece sep back) := by
  by_cases hmem : sep ∈ back
  · obtain ⟨a, b, rfl, ha⟩ := List.eq_append_cons_of_mem hmem
    obtain ⟨hfirst, hback⟩ := pieces_append_cons sep a b
    obtain ⟨hfirstAll, hbackAll⟩ := pieces_append_cons sep (front ++ a) b
    rw [firstPiece_of_notMem ha] at hfirst
    rw [piecesBack_of_notMem ha, List.append_nil] at hback
    rw [← List.append_assoc, hfirst, hback]
    exact ⟨hfirstAll, hbackAll⟩
  · rw [firstPiece_of_notMem hmem, piecesBack_of_notMem hmem]
    exact ⟨rfl, rfl⟩

end

section
variable {σ β : Type} (step : σ → β → σ × Bool)

/-- The state after the items, up to one with which the step ends it. -/
def feed (s : σ) : List β → σ × Bool
  | [] => (s, false)
  | b :: bs => if (step s b).2 then ((step s b).1, true) else feed (step s b).1 bs

variable {step}

theorem feed_append (s : σ) (as bs : List β) :
    feed step s (as ++ bs) =
      if (feed step s as).2 then ((feed step s as).1, true) else feed step (feed step s as).1 bs := by
  induction as generalizing s with
  | nil => rfl
  | cons a as ih =>
    rw [List.cons_append, feed, feed]
    by_cases hdone : (step s a).2 = true
    · rw [if_pos hdone, if_pos hdone, if_pos rfl]
    · rw [if_neg hdone, if_neg hdone, ih]

end

end AiFw.Lib
