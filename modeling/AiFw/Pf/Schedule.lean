import AiFw.Lib.Text
import Mathlib.Data.Prod.Lex

namespace AiFw.Pf
open AiFw.Lib
set_option autoImplicit true

/-- A schedule as it is stored: days from Monday on, and ranges of minutes of the day. -/
structure ScheduleSpec where
  enabled : Bool
  days : List Bool
  ranges : List (Nat × Nat)
deriving DecidableEq, Repr

def dayIndex (d : List Char) : Option Nat :=
  ["mon", "tue", "wed", "thu", "fri", "sat", "sun"].findIdx? fun name => name.toList == d

def parseDays (days : List Bool) : List (List Char) → Option (List Bool)
  | [] => some days
  | d :: ds =>
    if trim d = [] then parseDays days ds
    else
      match dayIndex (trim d) with
      | some i => parseDays (days.set i true) ds
      | none => none

def parseMinute (hm : List Char) : Option Nat := do
  let (h, m) ← splitOnce ':' (trim hm)
  let h ← parseUnsigned 65536 h
  let m ← parseUnsigned 65536 m
  if h > 23 ∨ m > 59 then none else some (h * 60 + m)

def parseRanges : List (List Char) → Option (List (Nat × Nat))
  | [] => some []
  | range :: rest =>
    if trim range = [] then parseRanges rest
    else do
      let (start, end_) ← splitOnce '-' (trim range)
      let start ← parseMinute start
      let end_ ← parseMinute end_
      let rest ← parseRanges rest
      return (start, end_) :: rest

def ScheduleSpec.parse (timeRanges daysOfWeek : List Char) (enabled : Bool) :
    Option ScheduleSpec := do
  let days ← parseDays (List.replicate 7 false) (splitOn ',' daysOfWeek)
  let ranges ← parseRanges (splitOn ',' timeRanges)
  return { enabled, days, ranges }

/-- Local time in seconds; the first day of the epoch was a Thursday. -/
abbrev LocalTime := Int

def weekday (now : LocalTime) : Nat := ((now / 86400 + 3) % 7).toNat

def minuteOfDay (now : LocalTime) : Nat := (now % 86400 / 60).toNat

def ScheduleSpec.dayOn (s : ScheduleSpec) (day : Nat) : Bool := s.days.getD day false

def ScheduleSpec.rangeActive (s : ScheduleSpec) (day minute : Nat) (range : Nat × Nat) : Bool :=
  if range.1 < range.2 then s.dayOn day && range.1 ≤ minute && minute < range.2
  else if range.1 > range.2 then
    -- the half after midnight belongs to the day before
    (s.dayOn day && range.1 ≤ minute) || (s.dayOn ((day + 6) % 7) && minute < range.2)
  else s.dayOn day

def ScheduleSpec.isActiveAt (s : ScheduleSpec) (now : LocalTime) : Bool :=
  s.ranges.any (s.rangeActive (weekday now) (minuteOfDay now))

example : (ScheduleSpec.parse "22:00-06:00".toList "fri".toList true).map
    (fun s => (s.isActiveAt (1 * 86400 + 23 * 3600), s.isActiveAt (2 * 86400 + 5 * 3600),
      s.isActiveAt (2 * 86400 + 23 * 3600))) = some (true, true, false) := by decide +kernel

abbrev Schedules := List Char → Option ScheduleSpec

/-- A schedule that is missing or disabled does not constrain a rule. -/
def ruleScheduleActive (scheduleId : Option (List Char)) (schedules : Schedules)
    (now : LocalTime) : Bool :=
  match scheduleId with
  | none => true
  | some id =>
    match schedules id with
    | none => true
    | some s => if !s.enabled then true else s.isActiveAt now

/-- A date and time without a zone. A leap second counts its nanoseconds past the first 10^9. -/
structure NaiveDateTime where
  seconds : Int
  nanos : Nat
  nanos_lt : nanos < 2000000000

/-- Instants in the order of the clock; a leap second comes before the second after it. -/
def NaiveDateTime.instant (t : NaiveDateTime) : Int ×ₗ Nat := toLex (t.seconds, t.nanos)

/-- The interval that starts with a minute, counted from the epoch, and lasts `length` minutes. -/
def NaiveDateTime.During (t : NaiveDateTime) (start length : Int) : Prop :=
  toLex (60 * start, 0) ≤ t.instant ∧ t.instant < toLex (60 * (start + length), 0)

def weekdayOf (day : Int) : Nat := ((day + 3) % 7).toNat

/-- Where the window of a range starts in its day, and how many minutes it lasts. -/
def windowOf (s e : Nat) : Nat × Nat :=
  if s < e then (s, e - s) else if e < s then (s, 1440 - s + e) else (0, 1440)

def ListsDay (daysOfWeek : List Char) (d : Nat) : Prop :=
  ∃ piece ∈ splitOn ',' daysOfWeek, dayIndex (trim piece) = some d

def ListsRange (timeRanges : List Char) (s e : Nat) : Prop :=
  ∃ piece ∈ splitOn ',' timeRanges, ∃ start end_,
    splitOnce '-' (trim piece) = some (start, end_) ∧
      parseMinute start = some s ∧ parseMinute end_ = some e

theorem NaiveDateTime.during_iff (t : NaiveDateTime) (start length : Int) :
    t.During start length ↔ 60 * start ≤ t.seconds ∧ t.seconds < 60 * (start + length) := by
  simp only [During, instant, Prod.Lex.toLex_le_toLex, Prod.Lex.toLex_lt_toLex, Nat.zero_le,
    Nat.not_lt_zero, and_true, and_false, or_false]
  rw [← le_iff_lt_or_eq]

theorem dayIndex_lt (h : dayIndex d = some i) : i < 7 := by
  have := List.findIdx?_eq_some_iff_getElem.mp h
  exact this.1

/-- The flags after the loop: those set before, and those of the listed days. -/
theorem parseDays_getD {ds : List (List Char)} (h : parseDays days ds = some out)
    (hl : days.length = 7) (i : Nat) :
    out.getD i false = true ↔
      days.getD i false = true ∨ ∃ piece ∈ ds, dayIndex (trim piece) = some i := by
  induction ds generalizing days with
  | nil =>
    cases h
    simp
  | cons d ds ih =>
    rw [parseDays] at h
    split at h
    next hd =>
      have hn : dayIndex (trim d) = none := by
        rw [hd]
        decide
      rw [ih h hl]
      simp [hn]
    next hd =>
      cases hi : dayIndex (trim d) with
      | none => simp [hi] at h
      | some j =>
        rw [hi] at h
        have hj := dayIndex_lt hi
        rw [ih h (by simpa using hl)]
        have hset : (days.set j true).getD i false = true ↔
            days.getD i false = true ∨ j = i := by
          simp only [List.getD_eq_getElem?_getD, List.getElem?_set]
          split <;> simp_all
        rw [hset]
        simp only [List.mem_cons, exists_eq_or_imp, hi, Option.some.injEq, or_assoc]

theorem parseRanges_mem {rs : List (List Char)} (h : parseRanges rs = some out) (s e : Nat) :
    (s, e) ∈ out ↔ ∃ piece ∈ rs, ∃ start end_,
      splitOnce '-' (trim piece) = some (start, end_) ∧
        parseMinute start = some s ∧ parseMinute end_ = some e := by
  induction rs generalizing out with
  | nil =>
    cases h
    simp
  | cons r rs ih =>
    rw [parseRanges] at h
    split at h
    next hr =>
      have hn : splitOnce '-' (trim r) = none := by rw [hr, splitOnce]
      rw [ih h]
      simp [hn]
    next hr =>
      simp only [Option.bind_eq_bind, Option.bind_eq_some_iff, Option.pure_def] at h
      obtain ⟨⟨start, end_⟩, hse, s', hs, e', he, rest, hrest, ho⟩ := h
      cases ho
      have hcons := ih hrest
      simp only [List.mem_cons, exists_eq_or_imp, hse, Option.some.injEq, Prod.mk.injEq]
      rw [hcons]
      constructor
      · rintro (⟨rfl, rfl⟩ | h)
        · exact .inl ⟨start, end_, ⟨rfl, rfl⟩, hs, he⟩
        · exact .inr h
      · rintro (⟨_, _, ⟨rfl, rfl⟩, hs₂, he₂⟩ | h)
        · rw [hs] at hs₂
          rw [he] at he₂
          cases hs₂
          cases he₂
          exact .inl ⟨rfl, rfl⟩
        · exact .inr h

theorem parseMinute_lt (h : parseMinute hm = some s) : s < 1440 := by
  simp only [parseMinute, Option.bind_eq_bind, Option.bind_eq_some_iff] at h
  obtain ⟨⟨h', m'⟩, _, hh, _, mm, _, hite⟩ := h
  split at hite
  · cases hite
  · cases hite
    omega

theorem ScheduleSpec.parse_dayOn
    (h : ScheduleSpec.parse timeRanges daysOfWeek en = some spec) (d : Nat) :
    spec.dayOn d = true ↔ ListsDay daysOfWeek d := by
  simp only [ScheduleSpec.parse, Option.bind_eq_bind, Option.bind_eq_some_iff,
    Option.pure_def] at h
  obtain ⟨days, hd, ranges, _, hs⟩ := h
  cases hs
  rw [ScheduleSpec.dayOn, parseDays_getD hd rfl, ListsDay, or_iff_right]
  simp only [List.getD_eq_getElem?_getD, List.getElem?_replicate]
  split <;> simp

theorem ScheduleSpec.parse_ranges
    (h : ScheduleSpec.parse timeRanges daysOfWeek en = some spec) (s e : Nat) :
    (s, e) ∈ spec.ranges ↔ ListsRange timeRanges s e := by
  simp only [ScheduleSpec.parse, Option.bind_eq_bind, Option.bind_eq_some_iff,
    Option.pure_def] at h
  obtain ⟨days, _, ranges, hr, hs⟩ := h
  cases hs
  exact parseRanges_mem hr s e

theorem ListsRange.lt (h : ListsRange timeRanges s e) : s < 1440 ∧ e < 1440 := by
  obtain ⟨_, _, _, _, _, hs, he⟩ := h
  exact ⟨parseMinute_lt hs, parseMinute_lt he⟩

theorem weekday_eq (now : Int) : weekday now = weekdayOf (now / 86400) := rfl

theorem weekdayOf_pred (day : Int) : (weekdayOf day + 6) % 7 = weekdayOf (day - 1) := by
  simp only [weekdayOf]
  omega

/-- A window that ends on the day it starts. -/
theorem sameDay_iff (s e : Nat) (he : e ≤ 1440) (now : Int) (P : Nat → Prop) :
    (P (weekday now) ∧ s ≤ minuteOfDay now ∧ minuteOfDay now < e) ↔
      ∃ day, P (weekdayOf day) ∧
        60 * (1440 * day + s) ≤ now ∧ now < 60 * (1440 * day + e) := by
  rw [weekday_eq, minuteOfDay]
  constructor
  · intro ⟨hp, hs, he⟩
    exact ⟨_, hp, by omega, by omega⟩
  · intro ⟨day, hp, hs, he⟩
    have hday : now / 86400 = day := by omega
    rw [hday]
    exact ⟨hp, by omega, by omega⟩

/-- A window over midnight is two: the rest of its day, and the start of the day after. -/
theorem overnight_iff (s e : Nat) (hs : s < 1440) (he : e < s) (now : Int)
    (P : Nat → Prop) :
    (∃ day, P (weekdayOf day) ∧
        60 * (1440 * day + s) ≤ now ∧ now < 60 * (1440 * day + s + (1440 - s + e : Nat))) ↔
      P (weekday now) ∧ s ≤ minuteOfDay now ∨
        P ((weekday now + 6) % 7) ∧ minuteOfDay now < e := by
  rw [weekday_eq, weekdayOf_pred, minuteOfDay]
  constructor
  · intro ⟨day, hp, hs, he⟩
    have hday : day = now / 86400 ∨ day = now / 86400 - 1 := by omega
    cases hday with
    | inl hday =>
      rw [hday] at hp
      exact .inl ⟨hp, by omega⟩
    | inr hday =>
      rw [hday] at hp
      exact .inr ⟨hp, by omega⟩
  · intro h
    cases h with
    | inl h => exact ⟨_, h.1, by omega, by omega⟩
    | inr h => exact ⟨_, h.1, by omega, by omega⟩

theorem ScheduleSpec.rangeActive_iff (spec : ScheduleSpec) (hs : s < 1440) (he : e < 1440)
    (t : NaiveDateTime) :
    spec.rangeActive (weekday t.seconds) (minuteOfDay t.seconds) (s, e) = true ↔
      ∃ day : Int, spec.dayOn (weekdayOf day) = true ∧
        t.During (1440 * day + (windowOf s e).1) (windowOf s e).2 := by
  simp only [NaiveDateTime.during_iff]
  rw [ScheduleSpec.rangeActive, windowOf]
  rcases Nat.lt_trichotomy s e with hlt | rfl | hgt
  · have hsum (day : Int) : 1440 * day + (s : Int) + (e - s : Nat) = 1440 * day + e := by omega
    simp only [hlt, ↓reduceIte, Bool.and_eq_true, decide_eq_true_eq, and_assoc, hsum]
    exact sameDay_iff s e he.le t.seconds (spec.dayOn · = true)
  · have h := sameDay_iff 0 1440 le_rfl t.seconds (spec.dayOn · = true)
    have hm : minuteOfDay t.seconds < 1440 := by
      rw [minuteOfDay]
      omega
    simp only [lt_irrefl, ↓reduceIte]
    simpa [hm] using h
  · simp only [hgt, hgt.not_gt, ↓reduceIte, Bool.or_eq_true, Bool.and_eq_true,
      decide_eq_true_eq]
    exact (overnight_iff s e hs hgt t.seconds (spec.dayOn · = true)).symm

/-- A schedule is active in the windows that start on its days, and at no other time. -/
theorem ScheduleSpec.isActiveAt_iff_during
    (h : ScheduleSpec.parse timeRanges daysOfWeek en = some spec) (t : NaiveDateTime) :
    spec.isActiveAt t.seconds = true ↔
      ∃ s e d, ListsRange timeRanges s e ∧ ListsDay daysOfWeek d ∧
        ∃ day : Int, weekdayOf day = d ∧
          t.During (1440 * day + (windowOf s e).1) (windowOf s e).2 := by
  rw [ScheduleSpec.isActiveAt, List.any_eq_true]
  constructor
  · intro ⟨(s, e), hmem, hactive⟩
    have hr := (parse_ranges h s e).mp hmem
    obtain ⟨day, hday, hdur⟩ := (spec.rangeActive_iff hr.lt.1 hr.lt.2 t).mp hactive
    exact ⟨s, e, _, hr, (parse_dayOn h _).mp hday, day, rfl, hdur⟩
  · intro ⟨s, e, d, hr, hd, day, hday, hdur⟩
    have hon : spec.dayOn (weekdayOf day) = true := by
      rw [hday]
      exact (parse_dayOn h d).mpr hd
    exact ⟨(s, e), (parse_ranges h s e).mpr hr,
      (spec.rangeActive_iff hr.lt.1 hr.lt.2 t).mpr ⟨day, hon, hdur⟩⟩

/-- A Sunday window is still open on Monday at five. -/
theorem isActiveAt_iff_during_sunday :
    (ScheduleSpec.mk true [false, false, false, false, false, false, true]
      [(1320, 360)]).isActiveAt (4 * 86400 + 5 * 3600) = true ↔
      ∃ s e d, ListsRange "22:00-06:00".toList s e ∧ ListsDay "sun".toList d ∧
        ∃ day : Int, weekdayOf day = d ∧
          NaiveDateTime.During ⟨4 * 86400 + 5 * 3600, 0, by decide⟩
            (1440 * day + (windowOf s e).1) (windowOf s e).2 :=
  ScheduleSpec.isActiveAt_iff_during
    (show ScheduleSpec.parse "22:00-06:00".toList "sun".toList true = _ by decide +kernel)
    ⟨4 * 86400 + 5 * 3600, 0, by decide⟩

end AiFw.Pf
