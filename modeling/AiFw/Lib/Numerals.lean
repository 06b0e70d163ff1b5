import AiFw.Lib.Text
import Mathlib.Data.List.Induction
import Mathlib.Data.Nat.Cast.Order.Ring
import Mathlib.Order.Basic
import Mathlib.Tactic.IntervalCases

namespace AiFw.Lib
set_option autoImplicit true

theorem toNat_of_toDigit (h : toDigit radix c = some n) : c.toNat < 128 := by
  unfold toDigit at h
  rw [Option.filter_eq_some_iff] at h
  have hd := h.1
  by_contra hge
  rw [if_neg (by omega), if_neg (by omega), if_neg (by omega)] at hd
  cases hd

theorem toDigit_digitChar (hd : d < radix) (hr : radix ≤ 16) :
    toDigit radix (Nat.digitChar d) = some d := by
  have h16 : d < 16 := by omega
  have hbase : toDigit 16 (Nat.digitChar d) = some d := by
    interval_cases d <;> rfl
  unfold toDigit at hbase ⊢
  rw [Option.filter_eq_some_iff] at hbase ⊢
  exact ⟨hbase.1, decide_eq_true hd⟩

theorem digitsValue_append (radix d : Nat) (ds : List Nat) :
    digitsValue radix (ds ++ [d]) = digitsValue radix ds * radix + d := by
  rw [digitsValue, List.foldl_append]
  rfl

section
variable {b : Nat} (hb : 1 < b) (hb' : b ≤ 16)
include hb hb'

theorem mapM_toDigits (n : Nat) :
    ∃ ds, (Nat.toDigits b n).mapM (toDigit b) = some ds ∧ digitsValue b ds = n := by
  induction n using Nat.strongRecOn with
  | ind n ih =>
    rw [Nat.toDigits_eq_if hb]
    split
    · rename_i hn
      refine ⟨[n], ?_, ?_⟩
      · simp only [List.mapM_cons, List.mapM_nil, toDigit_digitChar hn hb', Option.pure_def,
          Option.bind_eq_bind, Option.bind_some]
      · simp only [digitsValue, List.foldl_cons, List.foldl_nil, Nat.zero_mul, Nat.zero_add]
    · rename_i hn
      obtain ⟨ds, hds, hv⟩ := ih (n / b) (Nat.div_lt_self (by omega) hb)
      have hd : n % b < b := Nat.mod_lt _ (by omega)
      refine ⟨ds ++ [n % b], ?_, ?_⟩
      · simp only [List.mapM_append, hds, List.mapM_cons, List.mapM_nil,
          toDigit_digitChar hd hb', Option.pure_def, Option.bind_eq_bind, Option.bind_some]
      · rw [digitsValue_append, hv, Nat.mul_comm]
        exact Nat.div_add_mod n b

theorem isSome_toDigit_of_mem (n : Nat) (h : c ∈ Nat.toDigits b n) : (toDigit b c).isSome := by
  induction n using Nat.strongRecOn with
  | ind n ih =>
    rw [Nat.toDigits_eq_if hb] at h
    split at h
    · rename_i hn
      rw [List.mem_singleton.mp h, toDigit_digitChar hn hb']
      rfl
    · rename_i hn
      rcases List.mem_append.mp h with h | h
      · exact ih (n / b) (Nat.div_lt_self (by omega) hb) h
      · rw [List.mem_singleton.mp h, toDigit_digitChar (Nat.mod_lt _ (by omega)) hb']
        rfl

theorem head_toDigits_ne_zero (hn : n ≠ 0) : (Nat.toDigits b n).head? ≠ some '0' := by
  induction n using Nat.strongRecOn with
  | ind n ih =>
    rw [Nat.toDigits_eq_if hb]
    split
    · rename_i hlt
      intro h
      rw [List.head?_cons, Option.some.injEq, Nat.digitChar_eq_zero] at h
      exact hn h
    · rename_i hge
      have hpos : n / b ≠ 0 := by
        rw [Nat.div_ne_zero_iff]
        omega
      rw [List.head?_append_of_ne_nil _ Nat.toDigits_ne_nil]
      exact ih (n / b) (Nat.div_lt_self (by omega) hb) hpos

end

theorem mapM_eq_some_filterMap {f : α → Option β} {l : List α} (h : l.mapM f = some ds) :
    l.filterMap f = ds := by
  induction l generalizing ds with
  | nil =>
    simp only [List.mapM_nil, Option.pure_def, Option.some.injEq] at h
    exact h
  | cons x xs ih =>
    simp only [List.mapM_cons, Option.pure_def, Option.bind_eq_bind, Option.bind_eq_some_iff,
      Option.some.injEq] at h
    obtain ⟨d, hd, ds', hds', rfl⟩ := h
    rw [List.filterMap_cons_some hd, ih hds']

theorem mapM_length {f : α → Option β} {l : List α} (h : l.mapM f = some ds) :
    ds.length = l.length := by
  induction l generalizing ds with
  | nil =>
    simp only [List.mapM_nil, Option.pure_def, Option.some.injEq] at h
    rw [← h]
    rfl
  | cons x xs ih =>
    simp only [List.mapM_cons, Option.pure_def, Option.bind_eq_bind, Option.bind_eq_some_iff,
      Option.some.injEq] at h
    obtain ⟨d, hd, ds', hds', rfl⟩ := h
    rw [List.length_cons, List.length_cons, ih hds']

/-- What is read as a number: digits of a value below the bound, perhaps after a plus sign. -/
theorem parseUnsigned_eq_some_iff : parseUnsigned bound s = some n ↔
    ∃ body ds, (s = '+' :: body ∨ s = body) ∧ body ≠ [] ∧ body.mapM (toDigit 10) = some ds ∧
      digitsValue 10 ds = n ∧ n < bound := by
  have hbody {body : List Char} {r : Option Nat} (hnil : body = [] → r = none)
      (hnone : body ≠ [] → body.mapM (toDigit 10) = none → r = none)
      (hsome : ∀ ds, body ≠ [] → body.mapM (toDigit 10) = some ds →
        r = if digitsValue 10 ds < bound then some (digitsValue 10 ds) else none) :
      r = some n ↔
        body ≠ [] ∧ ∃ ds, body.mapM (toDigit 10) = some ds ∧ digitsValue 10 ds = n ∧ n < bound := by
    by_cases hempty : body = []
    · simp [hnil hempty, hempty]
    · cases hds : body.mapM (toDigit 10) with
      | none => simp [hnone hempty hds]
      | some ds =>
        simp only [hempty, hsome ds hempty hds, Option.ite_none_right_eq_some, Option.some.injEq,
          ne_eq, not_false_eq_true, true_and, exists_eq_left']
        exact ⟨fun ⟨hlt, he⟩ => ⟨he, he ▸ hlt⟩, fun ⟨he, hlt⟩ => ⟨he ▸ hlt, he⟩⟩
  have hplus (cs : List Char) : ('+' :: cs).mapM (toDigit 10) = none := by
    rw [List.mapM_cons]
    rfl
  unfold parseUnsigned
  split
  · next cs =>
    refine (@hbody cs _ ?_ ?_ ?_).trans ?_
    · exact fun h => if_pos h
    · intro h hds
      simp only [h, if_false, hds]
    · intro ds h hds
      simp only [h, if_false, hds]
    constructor
    · rintro ⟨hne, ds, hds, hv⟩
      exact ⟨cs, ds, .inl rfl, hne, hds, hv⟩
    · rintro ⟨body, ds, h | h, hne, hds, hv⟩
      · cases h
        exact ⟨hne, ds, hds, hv⟩
      · rw [← h, hplus] at hds
        cases hds
  · next hno =>
    refine (@hbody s _ ?_ ?_ ?_).trans ?_
    · exact fun h => if_pos h
    · intro h hds
      simp only [h, if_false, hds]
    · intro ds h hds
      simp only [h, if_false, hds]
    constructor
    · rintro ⟨hne, ds, hds, hv⟩
      exact ⟨s, ds, .inr rfl, hne, hds, hv⟩
    · rintro ⟨body, ds, h | rfl, hne, hds, hv⟩
      · exact absurd h (hno body)
      · exact ⟨hne, ds, hds, hv⟩

theorem parseUnsigned_toDigits (h : n < bound) :
    parseUnsigned bound (Nat.toDigits 10 n) = some n := by
  obtain ⟨ds, hds, hv⟩ := mapM_toDigits (b := 10) (by decide) (by decide) n
  exact parseUnsigned_eq_some_iff.mpr ⟨_, ds, .inr rfl, Nat.toDigits_ne_nil, hds, hv, h⟩

/-- A number in as many decimal digits, with zeros in front. -/
def zeroPadded : Nat → Nat → List Char
  | 0, _ => []
  | digits + 1, n => zeroPadded digits (n / 10) ++ [Nat.digitChar (n % 10)]

theorem length_zeroPadded (digits n : Nat) : (zeroPadded digits n).length = digits := by
  induction digits generalizing n with
  | zero => rfl
  | succ digits ih => rw [zeroPadded, List.length_append, ih, List.length_singleton]

theorem mapM_zeroPadded (digits n : Nat) : ∃ ds,
    (zeroPadded digits n).mapM (toDigit 10) = some ds ∧ digitsValue 10 ds = n % 10 ^ digits := by
  induction digits generalizing n with
  | zero => exact ⟨[], rfl, by rw [pow_zero, Nat.mod_one]; rfl⟩
  | succ digits ih =>
    obtain ⟨ds, hds, hvalue⟩ := ih (n / 10)
    have hlast : toDigit 10 (Nat.digitChar (n % 10)) = some (n % 10) :=
      toDigit_digitChar (Nat.mod_lt _ (by decide)) (by decide)
    refine ⟨ds ++ [n % 10], ?_, ?_⟩
    · rw [zeroPadded, List.mapM_append, hds, List.mapM_cons, hlast]
      rfl
    · rw [digitsValue_append, hvalue, pow_succ, Nat.mul_comm (10 ^ digits) 10, Nat.mod_mul,
        Nat.add_comm, Nat.mul_comm 10]

theorem digitChar_of_toDigit (h : toDigit 10 c = some d) : d < 10 ∧ Nat.digitChar d = c := by
  unfold toDigit at h
  rw [Option.filter_eq_some_iff] at h
  obtain ⟨hd, hlt⟩ := h
  have hlt := of_decide_eq_true hlt
  refine ⟨hlt, ?_⟩
  have hc : c.toNat = 0x30 + d := by
    split at hd
    · cases hd
      omega
    · split at hd
      · cases hd
        omega
      · split at hd
        · cases hd
          omega
        · cases hd
  rw [← Char.ofNat_toNat c, hc]
  interval_cases d <;> rfl

/-- Digits are the numeral of their value in their width. -/
theorem zeroPadded_digitsValue (h : s.mapM (toDigit 10) = some ds) :
    digitsValue 10 ds < 10 ^ s.length ∧ zeroPadded s.length (digitsValue 10 ds) = s := by
  induction s using List.reverseRecOn generalizing ds with
  | nil =>
    cases h
    exact ⟨by decide, rfl⟩
  | append_singleton s c ih =>
    rw [List.mapM_append] at h
    simp only [List.mapM_cons, List.mapM_nil, Option.pure_def, Option.bind_eq_bind,
      Option.bind_eq_some_iff, Option.some.injEq] at h
    obtain ⟨ds, hds, -, ⟨d, hd, -, rfl, rfl⟩, rfl⟩ := h
    obtain ⟨hlt, hchars⟩ := ih hds
    obtain ⟨hd10, hchar⟩ := digitChar_of_toDigit hd
    have hdiv : (digitsValue 10 ds * 10 + d) / 10 = digitsValue 10 ds := by omega
    have hmod : (digitsValue 10 ds * 10 + d) % 10 = d := by omega
    rw [digitsValue_append, List.length_append, List.length_singleton, zeroPadded, hdiv, hmod,
      hchars, hchar, pow_succ]
    exact ⟨by omega, rfl⟩

theorem ofInt_toNat_u32 (n : UInt32) : UInt32.ofInt (n.toNat : Int) = n := by
  have hmod : ((n.toNat : Int) % 2 ^ 32) = (n.toNat : Int) :=
    Int.emod_eq_of_lt (Int.natCast_nonneg _) (by exact_mod_cast n.toNat_lt)
  rw [UInt32.ofInt, hmod, Int.toNat_natCast, UInt32.ofNat_toNat]

theorem ofInt_toNat_u16 (n : UInt16) : UInt16.ofInt (n.toNat : Int) = n := by
  have hmod : ((n.toNat : Int) % 2 ^ 16) = (n.toNat : Int) :=
    Int.emod_eq_of_lt (Int.natCast_nonneg _) (by exact_mod_cast n.toNat_lt)
  rw [UInt16.ofInt, hmod, Int.toNat_natCast, UInt16.ofNat_toNat]

theorem ofInt_toNat_u8 (n : UInt8) : UInt8.ofInt (n.toNat : Int) = n := by
  have hmod : ((n.toNat : Int) % 2 ^ 8) = (n.toNat : Int) :=
    Int.emod_eq_of_lt (Int.natCast_nonneg _) (by exact_mod_cast n.toNat_lt)
  rw [UInt8.ofInt, hmod, Int.toNat_natCast, UInt8.ofNat_toNat]

end AiFw.Lib
