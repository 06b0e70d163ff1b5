import Mathlib.Data.List.Basic
import Mathlib.Tactic.ByContra

namespace AiFw.Lib
set_option autoImplicit true

variable {α : Type} {a b : α} {l : List α} {i j k p : Nat}

/-- The last place of the element, where places are counted from `k`. -/
def lastMention [DecidableEq α] (k : Nat) (a : α) : List α → Option Nat
  | [] => none
  | b :: l => (lastMention (k + 1) a l).or (if b = a then some k else none)

/-- The element stands at this place, and at no later one. -/
def LastAt (l : List α) (i : Nat) (a : α) : Prop :=
  l[i]? = some a ∧ ∀ j, i < j → l[j]? ≠ some a

/-- What stands between two places of one element is that element. -/
def Grouped (l : List α) : Prop :=
  ∀ (i j k : Nat) (a : α), i < j → j < k → l[i]? = some a → l[k]? = some a → l[j]? = some a

theorem lastMention_le [DecidableEq α] (h : lastMention k a l = some p) : k ≤ p := by
  induction l generalizing k with
  | nil => cases h
  | cons b l ih =>
    rw [lastMention, Option.or_eq_some_iff] at h
    cases h with
    | inl h => exact Nat.le_of_succ_le (ih h)
    | inr h =>
      split at h
      · exact Nat.le_of_eq (Option.some.inj h.2)
      · cases h.2

theorem lastMention_eq_none [DecidableEq α] :
    lastMention k a l = none ↔ ∀ i : Nat, l[i]? ≠ some a := by
  induction l generalizing k with
  | nil => simp [lastMention]
  | cons b l ih =>
    rw [lastMention, Option.or_eq_none_iff, ih]
    constructor
    · intro ⟨hl, hb⟩ i
      cases i with
      | zero =>
        rw [List.getElem?_cons_zero, Ne, Option.some.injEq]
        intro he
        rw [if_pos he] at hb
        cases hb
      | succ i => exact hl i
    · intro h
      have hb : b ≠ a := by
        intro he
        exact h 0 (congrArg some he)
      exact ⟨fun i => h (i + 1), if_neg hb⟩

theorem lastAt_cons_succ : LastAt (b :: l) (i + 1) a ↔ LastAt l i a := by
  rw [LastAt, LastAt, List.getElem?_cons_succ]
  apply and_congr_right
  intro _
  constructor
  · intro h j hj
    exact h (j + 1) (Nat.succ_lt_succ hj)
  · intro h j hj
    cases j with
    | zero => cases hj
    | succ j => exact h j (Nat.lt_of_succ_lt_succ hj)

theorem lastMention_eq_some [DecidableEq α] :
    lastMention k a l = some (k + i) ↔ LastAt l i a := by
  induction l generalizing k i with
  | nil => simp [lastMention, LastAt]
  | cons b l ih =>
    rw [lastMention, Option.or_eq_some_iff]
    cases i with
    | zero =>
      constructor
      · intro h
        cases h with
        | inl h => exact absurd (lastMention_le h) (by omega)
        | inr h =>
          obtain ⟨hnone, hb⟩ := h
          split at hb
          next he =>
            rw [he]
            refine ⟨rfl, ?_⟩
            intro j hj
            cases j with
            | zero => cases hj
            | succ j => exact lastMention_eq_none.mp hnone j
          · cases hb
      · intro ⟨hb, hl⟩
        have he : b = a := Option.some.inj hb
        right
        exact ⟨lastMention_eq_none.mpr fun j => hl (j + 1) (Nat.succ_pos j), if_pos he⟩
    | succ i =>
      have hk : k + (i + 1) = k + 1 + i := by omega
      rw [lastAt_cons_succ, ← ih, hk]
      constructor
      · intro h
        cases h with
        | inl h => exact h
        | inr h =>
          obtain ⟨-, hb⟩ := h
          split at hb
          · have := Option.some.inj hb
            omega
          · cases hb
      · exact .inl

theorem exists_lastAt (h : l[i]? = some a) : ∃ p, i ≤ p ∧ LastAt l p a := by
  classical
  cases hp : lastMention 0 a l with
  | none => exact absurd h (lastMention_eq_none.mp hp i)
  | some p =>
    have hlast : LastAt l p a := by
      rw [← lastMention_eq_some, hp, Nat.zero_add]
    refine ⟨p, Nat.le_of_not_lt ?_, hlast⟩
    intro hlt
    exact hlast.2 i hlt h

theorem LastAt.unique (h : LastAt l i a) (h' : LastAt l j a) : i = j := by
  rcases Nat.lt_trichotomy i j with hlt | he | hgt
  · exact absurd h'.1 (h.2 j hlt)
  · exact he
  · exact absurd h.1 (h'.2 i hgt)

/-- Elements stand in the order of their last places exactly if they stand in groups. -/
theorem grouped_iff_lastAt :
    Grouped l ↔ ∀ (i j : Nat) (a b : α) (p q : Nat), i < j → l[i]? = some a →
      l[j]? = some b → a ≠ b → LastAt l p a → LastAt l q b → p < q := by
  constructor
  · intro h i j a b p q hij ha hb hne hp hq
    have hjq : j ≤ q := by
      apply Nat.le_of_not_lt
      intro hlt
      exact hq.2 j hlt hb
    apply Nat.lt_of_not_le
    intro hqp
    have hb' : l[j]? = some a := by
      obtain hjp | hjp := Nat.lt_or_eq_of_le (Nat.le_trans hjq hqp)
      · exact h i j p a hij hjp ha hp.1
      · rw [hjp]
        exact hp.1
    rw [hb] at hb'
    exact hne (Option.some.inj hb').symm
  · intro h i j k a hij hjk ha hk
    by_contra hj
    have hlen : j < l.length := Nat.lt_trans hjk (List.getElem?_eq_some_iff.mp hk).1
    have hb := List.getElem?_eq_getElem hlen
    have hne : a ≠ l[j] := by
      intro he
      rw [← he] at hb
      exact hj hb
    obtain ⟨p, _, hp⟩ := exists_lastAt ha
    obtain ⟨q, _, hq⟩ := exists_lastAt hb
    have hpq := h i j a _ p q hij ha hb hne hp hq
    have hqp := h j k _ a q p hjk hb hk hne.symm hq hp
    omega

end AiFw.Lib
