import Mathlib.Algebra.Ring.Nat
import Mathlib.Data.List.Basic
import Mathlib.Order.Basic

namespace AiFw.Lib
set_option autoImplicit true

/-- How many of the strikes lie between two times. -/
def strikesIn (l : List Nat) (first last : Nat) : Nat :=
  l.countP fun t => first ≤ t && t ≤ last

/-- No window of the length that starts at a strike holds more strikes than the cap. -/
def Capped (cap len : Nat) (l : List Nat) : Prop := ∀ t ∈ l, strikesIn l t (t + len) ≤ cap

theorem strikesIn_le_since (l : List Nat) (h : since ≤ first) :
    strikesIn l first last ≤ l.countP (since ≤ ·) := by
  apply List.countP_mono_left
  intro t _ ht
  rw [Bool.and_eq_true, decide_eq_true_eq, decide_eq_true_eq] at ht
  exact decide_eq_true (h.trans ht.1)

theorem strikesIn_past (l : List Nat) (h : last < t) :
    strikesIn (t :: l) first last = strikesIn l first last := by
  apply List.countP_cons_of_neg
  rw [Bool.and_eq_true, decide_eq_true_eq, decide_eq_true_eq]
  exact fun ht => absurd ht.2 (Nat.not_le.mpr h)

/-- A counter of strikes, the latest first: its count is that of the strikes since it was started,
and it was started after the windows of the strikes before had passed. -/
structure StrikeCounter (cap len : Nat) (l : List Nat) (now : Nat) (entry : Option (Nat × Nat)) :
    Prop where
  past : ∀ t ∈ l, t ≤ now
  capped : Capped cap len l
  started : ∀ e ∈ entry, e.2 ≤ now
  count : ∀ e ∈ entry, e.1 = l.countP (e.2 ≤ ·)
  below : ∀ e ∈ entry, e.1 ≤ cap
  apart : ∀ e ∈ entry, ∀ t ∈ l, t < e.2 → t + len < e.2

namespace StrikeCounter

variable {cap len now now' : Nat} {l : List Nat} {entry : Option (Nat × Nat)}

theorem nil (cap len now : Nat) : StrikeCounter cap len [] now none where
  past := fun _ h => nomatch h
  capped := fun _ h => nomatch h
  started := fun _ h => nomatch h
  count := fun _ h => nomatch h
  below := fun _ h => nomatch h
  apart := fun _ h => nomatch h

theorem wait (h : StrikeCounter cap len l now entry) (hnow : now ≤ now') :
    StrikeCounter cap len l now' entry where
  past := fun t ht => (h.past t ht).trans hnow
  capped := h.capped
  started := fun e he => (h.started e he).trans hnow
  count := h.count
  below := h.below
  apart := h.apart

/-- The counter is gone, its strikes are not. -/
theorem forget (h : StrikeCounter cap len l now entry) : StrikeCounter cap len l now none where
  past := h.past
  capped := h.capped
  started := fun _ he => nomatch he
  count := fun _ he => nomatch he
  below := fun _ he => nomatch he
  apart := fun _ he => nomatch he

theorem strike (h : StrikeCounter cap len l now (some (n, since))) (hcount : n < cap) :
    StrikeCounter cap len (now :: l) now (some (n + 1, since)) := by
  have hsince : since ≤ now := h.started _ rfl
  have hnew : (now :: l).countP (since ≤ ·) = n + 1 := by
    have hold : n = l.countP (since ≤ ·) := h.count _ rfl
    rw [List.countP_cons_of_pos (p := (since ≤ ·)) (decide_eq_true hsince), ← hold]
  refine ⟨?_, ?_, ?_, ?_, ?_, ?_⟩
  · intro t ht
    obtain rfl | ht := List.mem_cons.mp ht
    · exact Nat.le_refl _
    · exact h.past t ht
  · intro t ht
    by_cases hlt : t < since
    · obtain rfl | ht := List.mem_cons.mp ht
      · exact absurd hsince (Nat.not_le.mpr hlt)
      · rw [strikesIn_past l ((h.apart _ rfl t ht hlt).trans_le hsince)]
        exact h.capped t ht
    · -- the window lies among the strikes the counter has counted
      apply (strikesIn_le_since _ (Nat.not_lt.mp hlt)).trans
      rw [hnew]
      exact hcount
  · intro e he
    cases he
    exact hsince
  · intro e he
    cases he
    exact hnew.symm
  · intro e he
    cases he
    exact hcount
  · intro e he t ht hlt
    cases he
    obtain rfl | ht := List.mem_cons.mp ht
    · exact absurd hsince (Nat.not_le.mpr hlt)
    · exact h.apart _ rfl t ht hlt

theorem restart (h : StrikeCounter cap len l now entry) (hcap : 0 < cap)
    (hapart : ∀ t ∈ l, t + len < now) : StrikeCounter cap len (now :: l) now (some (1, now)) := by
  have hold : l.countP (now ≤ ·) = 0 := by
    apply List.countP_eq_zero.mpr
    intro t ht hle
    exact absurd (of_decide_eq_true hle)
      (Nat.not_le.mpr ((Nat.le_add_right t len).trans_lt (hapart t ht)))
  have hcount : (now :: l).countP (now ≤ ·) = 1 := by
    rw [List.countP_cons_of_pos (p := (now ≤ ·)) (decide_eq_true (Nat.le_refl now)), hold]
  refine ⟨?_, ?_, ?_, ?_, ?_, ?_⟩
  · intro t ht
    obtain rfl | ht := List.mem_cons.mp ht
    · exact Nat.le_refl _
    · exact h.past t ht
  · intro t ht
    obtain rfl | ht := List.mem_cons.mp ht
    · apply (strikesIn_le_since _ (Nat.le_refl _)).trans
      rw [hcount]
      exact hcap
    · rw [strikesIn_past l (hapart t ht)]
      exact h.capped t ht
  · intro e he
    cases he
    exact Nat.le_refl _
  · intro e he
    cases he
    exact hcount.symm
  · intro e he
    cases he
    exact hcap
  · intro e he t ht hlt
    cases he
    obtain rfl | ht := List.mem_cons.mp ht
    · exact absurd hlt (Nat.lt_irrefl _)
    · exact hapart t ht

end StrikeCounter

end AiFw.Lib
