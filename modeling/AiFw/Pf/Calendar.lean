import AiFw.Lib.ListOrder
import AiFw.Pf.NatOrder

namespace AiFw.Pf
open AiFw.Lib
set_option autoImplicit true

/-- Year, month and day of a number of days after the first of January 1970. -/
def civilDay (day : Int) : Int × Nat × Nat :=
  let z := day + 719468
  let date := civil (z % 146097).toNat
  (400 * (z / 146097) + date.1, date.2)

/-- `YYYY-MM-DD`, for a year of at most four digits. -/
def isoDate (day : Int) : List Char :=
  let date := civilDay day
  (if date.1 < 0 then ['-'] else []) ++ pad4 date.1.natAbs ++ '-' :: pad2 date.2.1 ++ '-' ::
    pad2 date.2.2

example : isoDate 20470 = "2026-01-17".toList := by decide +kernel

/-- A day of 400 years that begin in March: whole centuries, groups of four years and years before
it, and the days of its own year. A year ends with a leap day if the next one is divisible by four;
the last of a century's years only if the century is the last. -/
structure MarchParts (c q k u : Nat) : Prop where
  century : c ≤ 3
  group : q ≤ 24
  year : k ≤ 3
  day : u ≤ 365
  leap : k < 3 → u < 365
  last : q = 24 → k = 3 → u = 365 → c = 3

def marchDay (c q k u : Nat) : Nat := 36524 * c + 1461 * q + (365 * k + u)

theorem exists_marchParts (hd : d < 146097) :
    ∃ c q k u, MarchParts c q k u ∧ d = marchDay c q k u := by
  let c := min (d / 36524) 3
  let r := d - 36524 * c
  let q := r / 1461
  let k := min (r % 1461 / 365) 3
  refine ⟨c, q, k, r % 1461 - 365 * k, ⟨?_, ?_, ?_, ?_, ?_, ?_⟩, ?_⟩ <;>
    simp only [marchDay, c, r, q, k] <;> omega

namespace MarchParts

theorem lt (h : MarchParts c q k u) : marchDay c q k u < 146097 := by
  obtain ⟨hc, hq, hk, hu, hleap, hlast⟩ := h
  unfold marchDay
  omega

theorem div_146096 (h : MarchParts c q k u) :
    marchDay c q k u / 146096 = if c = 3 ∧ q = 24 ∧ k = 3 ∧ u = 365 then 1 else 0 := by
  obtain ⟨hc, hq, hk, hu, hleap, hlast⟩ := h
  unfold marchDay
  split
  · omega
  · omega

theorem div_36524 (h : MarchParts c q k u) :
    marchDay c q k u / 36524 = c + marchDay c q k u / 146096 := by
  rw [h.div_146096]
  obtain ⟨hc, hq, hk, hu, hleap, hlast⟩ := h
  unfold marchDay
  split
  · omega
  · interval_cases c <;> omega

theorem div_1460 (c q k u : Nat) :
    marchDay c q k u / 1460 = 25 * c + q + (24 * c + q + (365 * k + u)) / 1460 := by
  unfold marchDay
  omega

/-- The corrections for leap days leave the number of whole years. -/
theorem yearOfEra (h : MarchParts c q k u) :
    (marchDay c q k u - marchDay c q k u / 1460 + marchDay c q k u / 36524 -
      marchDay c q k u / 146096) / 365 = 100 * c + 4 * q + k := by
  rw [h.div_36524, div_1460, h.div_146096]
  obtain ⟨hc, hq, hk, hu, hleap, hlast⟩ := h
  unfold marchDay
  split
  · omega
  · omega

theorem dayOfYear (h : MarchParts c q k u) :
    marchDay c q k u - (365 * (100 * c + 4 * q + k) + (100 * c + 4 * q + k) / 4 -
      (100 * c + 4 * q + k) / 100) = u := by
  obtain ⟨hc, hq, hk, hu, hleap, hlast⟩ := h
  unfold marchDay
  omega

/-- Later days are of a later year, or later in the year. -/
theorem year_lt (h : MarchParts c q k u) (h' : MarchParts c' q' k' u') {e e' : Int}
    (hlt : 146097 * e + marchDay c q k u < 146097 * e' + marchDay c' q' k' u') :
    400 * e + (100 * c + 4 * q + k : Nat) < 400 * e' + (100 * c' + 4 * q' + k' : Nat) ∨
      400 * e + (100 * c + 4 * q + k : Nat) = 400 * e' + (100 * c' + 4 * q' + k' : Nat) ∧
        u < u' := by
  obtain ⟨hc, hq, hk, hu, hleap, hlast⟩ := h
  obtain ⟨hc', hq', hk', hu', hleap', hlast'⟩ := h'
  unfold marchDay at hlt
  omega

end MarchParts

/-- The date of a day of a year that begins in March. -/
def ofMarch (year : Int) (u : Nat) : Int × Nat × Nat :=
  let mp := (5 * u + 2) / 153
  let month := if mp < 10 then mp + 3 else mp - 9
  (year + (if month ≤ 2 then 1 else 0), month, u - (153 * mp + 2) / 5 + 1)

theorem civilDay_eq_ofMarch (day : Int) : ∃ c q k u, MarchParts c q k u ∧
    day + 719468 = 146097 * ((day + 719468) / 146097) + marchDay c q k u ∧
    civilDay day = ofMarch (400 * ((day + 719468) / 146097) + (100 * c + 4 * q + k : Nat)) u := by
  have hd : ((day + 719468) % 146097).toNat < 146097 := by omega
  obtain ⟨c, q, k, u, h, he⟩ := exists_marchParts hd
  refine ⟨c, q, k, u, h, by omega, ?_⟩
  have hera : marchDay c q k u / 146097 = 0 := Nat.div_eq_of_lt h.lt
  have hdoe : marchDay c q k u % 146097 = marchDay c q k u := Nat.mod_eq_of_lt h.lt
  simp only [civilDay, civil, ofMarch, he, hera, hdoe, h.yearOfEra, h.dayOfYear]
  push_cast
  congr 1
  omega

/-- One date is before another. -/
def DateLt (a b : Int × Nat × Nat) : Prop :=
  a.1 < b.1 ∨ a.1 = b.1 ∧ (a.2.1 < b.2.1 ∨ a.2.1 = b.2.1 ∧ a.2.2 < b.2.2)

theorem ofMarch_early (year : Int) (h : (5 * u + 2) / 153 < 10) : ofMarch year u =
    (year, (5 * u + 2) / 153 + 3, u - (153 * ((5 * u + 2) / 153) + 2) / 5 + 1) := by
  simp only [ofMarch, if_pos h]
  rw [if_neg (by omega), add_zero]

/-- January and February are of the next year. -/
theorem ofMarch_late (year : Int) (hu : u ≤ 365) (h : ¬ (5 * u + 2) / 153 < 10) :
    ofMarch year u =
      (year + 1, (5 * u + 2) / 153 - 9, u - (153 * ((5 * u + 2) / 153) + 2) / 5 + 1) := by
  simp only [ofMarch, if_neg h]
  rw [if_pos (by omega)]

theorem ofMarch_lt {y y' : Int} (hu : u ≤ 365) (hu' : u' ≤ 365)
    (h : y < y' ∨ y = y' ∧ u < u') : DateLt (ofMarch y u) (ofMarch y' u') := by
  by_cases hm : (5 * u + 2) / 153 < 10 <;> by_cases hm' : (5 * u' + 2) / 153 < 10
  · rw [ofMarch_early y hm, ofMarch_early y' hm']
    simp only [DateLt]
    omega
  · rw [ofMarch_early y hm, ofMarch_late y' hu' hm']
    simp only [DateLt]
    omega
  · rw [ofMarch_late y hu hm, ofMarch_early y' hm']
    simp only [DateLt]
    omega
  · rw [ofMarch_late y hu hm, ofMarch_late y' hu' hm']
    simp only [DateLt]
    omega

theorem civilDay_lt {day day' : Int} (h : day < day') : DateLt (civilDay day) (civilDay day') := by
  obtain ⟨c, q, k, u, hp, he, hcivil⟩ := civilDay_eq_ofMarch day
  obtain ⟨c', q', k', u', hp', he', hcivil'⟩ := civilDay_eq_ofMarch day'
  rw [hcivil, hcivil']
  apply ofMarch_lt hp.day hp'.day
  apply hp.year_lt hp'
  omega

theorem civilDay_bounds (day : Int) : (civilDay day).2.1 < 100 ∧ (civilDay day).2.2 < 100 := by
  obtain ⟨c, q, k, u, hp, -, hcivil⟩ := civilDay_eq_ofMarch day
  have hu := hp.day
  rw [hcivil]
  by_cases hm : (5 * u + 2) / 153 < 10
  · rw [ofMarch_early _ hm]
    dsimp only
    omega
  · rw [ofMarch_late _ hu hm]
    dsimp only
    omega

theorem year_mono {day day' : Int} (h : day ≤ day') : (civilDay day).1 ≤ (civilDay day').1 := by
  obtain h | h := lt_or_eq_of_le h
  · obtain h | ⟨h, -⟩ := civilDay_lt h
    · exact h.le
    · exact h.le
  · rw [h]

/-- A year begins on its first day. -/
theorem le_year_iff {first y : Int} (hfirst : (civilDay first).1 = y)
    (hbefore : (civilDay (first - 1)).1 < y) (day : Int) :
    y ≤ (civilDay day).1 ↔ first ≤ day := by
  constructor
  · intro h
    by_contra hlt
    have hmono : (civilDay day).1 ≤ (civilDay (first - 1)).1 := year_mono (by omega)
    omega
  · intro h
    rw [← hfirst]
    exact year_mono h

theorem digit_lt : ∀ i j : Fin 10, i < j → digit i < digit j := by decide

theorem pad2_lt (h : n < m) (hm : m < 100) : pad2 n < pad2 m := by
  simp only [pad2, cons_lt_cons_iff']
  by_cases hlt : n / 10 < m / 10
  · exact .inl (digit_lt ⟨n / 10, by omega⟩ ⟨m / 10, by omega⟩ hlt)
  · have heq : n / 10 = m / 10 := by omega
    have hunit : n % 10 < m % 10 := by omega
    refine .inr ⟨by rw [heq], .inl ?_⟩
    have hdigit := digit_lt ⟨n % 10, by omega⟩ ⟨m % 10, by omega⟩ hunit
    simpa [digit] using hdigit

theorem pad4_lt (h : n < m) (hm : m < 10000) : pad4 n < pad4 m := by
  by_cases hlt : n / 100 < m / 100
  · exact append_lt_append_of_lt (by rfl) (pad2_lt hlt (by omega)) _ _
  · have heq : n / 100 = m / 100 := by omega
    have hunit : n % 100 < m % 100 := by omega
    have hpad : ∀ k, pad2 k = pad2 (k % 100) := by
      intro k
      have hten : k / 10 % 10 = k % 100 / 10 % 10 := by omega
      have hone : k % 10 = k % 100 % 10 := by omega
      unfold pad2 digit
      rw [← hten, ← hone]
    rw [pad4, pad4, heq, hpad n, hpad m]
    apply List.append_left_lt
    exact pad2_lt hunit (Nat.mod_lt _ (by decide))

/-- The years of four digits. -/
def FourDigits (day : Int) : Prop := 0 ≤ (civilDay day).1 ∧ (civilDay day).1 < 10000

theorem fourDigits_iff (day : Int) : FourDigits day ↔ -719528 ≤ day ∧ day < 2932897 := by
  have hzero : 0 ≤ (civilDay day).1 ↔ -719528 ≤ day :=
    le_year_iff (by decide +kernel) (by decide +kernel) day
  have hend : 10000 ≤ (civilDay day).1 ↔ 2932897 ≤ day :=
    le_year_iff (by decide +kernel) (by decide +kernel) day
  rw [FourDigits, hzero]
  omega

theorem isoDate_eq {day : Int} (h : FourDigits day) : isoDate day =
    pad4 (civilDay day).1.natAbs ++ (['-'] ++ (pad2 (civilDay day).2.1 ++ (['-'] ++
      pad2 (civilDay day).2.2))) := by
  rw [isoDate, if_neg (not_lt.mpr h.1)]
  simp

theorem length_isoDate {day : Int} (h : FourDigits day) : (isoDate day).length = 10 := by
  rw [isoDate_eq h]
  rfl

/-- Later dates are written as greater texts. -/
theorem isoDate_lt {day day' : Int} (h : FourDigits day) (h' : FourDigits day')
    (hlt : day < day') : isoDate day < isoDate day' := by
  obtain ⟨hmonth', hday'⟩ := civilDay_bounds day'
  rw [isoDate_eq h, isoDate_eq h']
  obtain hyear | ⟨hyear, hmonth | ⟨hmonth, hday⟩⟩ := civilDay_lt hlt
  · obtain ⟨hnonneg, -⟩ := h
    obtain ⟨-, hfour⟩ := h'
    exact append_lt_append_of_lt (by rfl) (pad4_lt (by omega) (by omega)) _ _
  · rw [hyear]
    apply List.append_left_lt
    apply List.append_left_lt
    exact append_lt_append_of_lt (by rfl) (pad2_lt hmonth hmonth') _ _
  · rw [hyear, hmonth]
    apply List.append_left_lt
    apply List.append_left_lt
    apply List.append_left_lt
    apply List.append_left_lt
    exact pad2_lt hday hday'

theorem isoDate_lt_iff {day day' : Int} (h : FourDigits day) (h' : FourDigits day') :
    (isoDate day < isoDate day' ↔ day < day') ∧ (isoDate day = isoDate day' ↔ day = day') :=
  lt_iff_of_write_lt (isoDate_lt h h') (isoDate_lt h' h)

/-- Dates that a sign of the same order follows compare by the day, then by what follows. -/
theorem isoDate_append_lt {day day' : Int} (h : FourDigits day) (h' : FourDigits day')
    (x y : List Char) :
    isoDate day ++ x < isoDate day' ++ y ↔ day < day' ∨ day = day' ∧ x < y := by
  obtain ⟨hlt, heq⟩ := isoDate_lt_iff h h'
  rw [append_lt_append_iff (by rw [length_isoDate h, length_isoDate h']), hlt, heq]

end AiFw.Pf
