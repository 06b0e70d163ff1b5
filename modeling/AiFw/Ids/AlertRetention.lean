import AiFw.Ids.AlertTable
import AiFw.Pf.Calendar

namespace AiFw.Ids
open AiFw.Lib
open AiFw.Pf (civilDay isoDate isoDate_eq isoDate_append_lt le_year_iff FourDigits fourDigits_iff
  digit pad2 pad4)
set_option autoImplicit true

/-- The day of a time, counted from the first of January 1970. -/
def dayOf (ts : Int) : Int := ts / seconds 86400

/-- SQLite's `datetime` of a time, which is NULL before and after the years it knows. -/
def datetime (ts : Int) : Option (List Char) :=
  let secs := ts / seconds 1
  let clock n := pad2 n.toNat
  if -210866760000 ≤ secs ∧ secs < 253402300800 then
    some (isoDate (dayOf ts) ++ ' ' :: clock (secs / 3600 % 24) ++ ':' :: clock (secs / 60 % 60) ++
      ':' :: clock (secs % 60))
  else none

example : datetime (seconds 1768651509) = some "2026-01-17 12:05:09".toList := by decide +kernel

namespace AlertTable
variable (rows : AlertTable)

/-- A comparison with NULL deletes nothing. -/
def purgeOld (now : Int) (days : UInt32) : AlertTable :=
  rows.filter fun row =>
    !(datetime (now - seconds (days.toNat * 86400))).any fun cutoff =>
      decide (row.timestamp < cutoff)

def purgeInvalidTimestamps (now : Int) : AlertTable :=
  rows.filter fun row =>
    !(decide (row.timestamp < "2020-01-01".toList) ||
      (datetime (now + seconds 86400)).any fun upper => decide (upper < row.timestamp))

end AlertTable

/-- What is done to the table, with the clock at which it is done. -/
inductive TableOp where
  | emit (now : Int) (alert : IdsAlert)
  | classify (id : Uuid) (classification : AlertClassification) (notes : Option String)
  | acknowledge (id : Uuid)
  | purgeOld (now : Int) (days : UInt32)
  | purgeInvalidTimestamps (now : Int)

namespace TableOp

def exec (libs : AlertLibs) (rows : AlertTable) : TableOp → AlertTable
  | emit now alert => rows.emit libs now alert
  | classify id classification notes => rows.classify id classification notes
  | acknowledge id => rows.acknowledge id
  | purgeOld now days => rows.purgeOld now days
  | purgeInvalidTimestamps now => rows.purgeInvalidTimestamps now

def run (libs : AlertLibs) (rows : AlertTable) (ops : List TableOp) : AlertTable :=
  ops.foldl (exec libs) rows

def Stores (id : Uuid) : TableOp → Prop
  | emit _ alert => alert.id = id
  | classify _ _ _ | acknowledge _ | purgeOld _ _ | purgeInvalidTimestamps _ => False

end TableOp

variable {libs : AlertLibs} {rows : AlertTable} {t₀ t ts : Int} {id : Uuid}

/-- What chrono documents: the year is that of the calendar, and a time of a year of four digits is
written as its date, a `T` and its time of day. -/
structure AlertLibs.Dated (libs : AlertLibs) : Prop where
  year : ∀ ts, libs.year ts = (civilDay (dayOf ts)).1
  text : ∀ ts, FourDigits (dayOf ts) →
    ∃ time, libs.toRfc3339 ts = isoDate (dayOf ts) ++ 'T' :: time

/-- Every row of the id has the timestamp. -/
def Stamped (id : Uuid) (timestamp : List Char) (rows : AlertTable) : Prop :=
  ∀ row ∈ rows, row.id = id → row.timestamp = timestamp

namespace Stamped

theorem filter (h : Stamped id timestamp rows) (p : AlertRow → Bool) :
    Stamped id timestamp (rows.filter p) :=
  fun row hrow => h row (List.mem_of_mem_filter hrow)

theorem map (h : Stamped id timestamp rows) {f : AlertRow → AlertRow}
    (hf : ∀ row, (f row).id = row.id ∧ (f row).timestamp = row.timestamp) :
    Stamped id timestamp (rows.map f) := by
  intro row hrow hid
  obtain ⟨row', hmem, rfl⟩ := List.mem_map.mp hrow
  obtain ⟨hid', htext⟩ := hf row'
  rw [htext]
  exact h row' hmem (hid'.symm.trans hid)

theorem emit (h : Stamped id timestamp rows) (hother : alert.id ≠ id) (libs : AlertLibs)
    (now : Int) : Stamped id timestamp (rows.emit libs now alert) := by
  unfold AlertTable.emit
  split
  · exact h
  · intro row hrow hid
    obtain hrow | hrow := List.mem_append.mp hrow
    · exact h row hrow hid
    · cases List.mem_singleton.mp hrow
      exact absurd hid hother

theorem exec (h : Stamped id timestamp rows) {op : TableOp} (hop : ¬ op.Stores id) :
    Stamped id timestamp (op.exec libs rows) := by
  cases op with
  | emit now alert => exact h.emit hop libs now
  | classify id' classification notes =>
    apply h.map
    intro row
    split <;> exact ⟨rfl, rfl⟩
  | acknowledge id' =>
    apply h.map
    intro row
    split <;> exact ⟨rfl, rfl⟩
  | purgeOld now days => exact h.filter _
  | purgeInvalidTimestamps now => exact h.filter _

/-- Nothing that does not store the id again changes its timestamp. -/
theorem run (h : Stamped id timestamp rows) (libs : AlertLibs) {ops : List TableOp}
    (hops : ∀ op ∈ ops, ¬ op.Stores id) :
    Stamped id timestamp (TableOp.run libs rows ops) := by
  unfold TableOp.run
  induction ops generalizing rows with
  | nil => exact h
  | cons op ops ih =>
    obtain ⟨hop, hrest⟩ := List.forall_mem_cons.mp hops
    exact ih (h.exec hop) hrest

/-- The row of a new alert has the timestamp `emit` gives it. -/
theorem of_emit (hnew : hasKey AlertRow.id alert.id rows = false) (libs : AlertLibs) (now : Int) :
    Stamped alert.id (AlertRow.ofAlert libs now alert).timestamp (rows.emit libs now alert) := by
  intro row hrow hid
  rw [AlertTable.emit, if_neg (by simp [hnew])] at hrow
  obtain hrow | hrow := List.mem_append.mp hrow
  · exact absurd hid (hasKey_eq_false.mp hnew row hrow)
  · cases List.mem_singleton.mp hrow
    rfl

end Stamped

theorem dayOf_days (t : Int) (days : Nat) : dayOf (t - seconds (days * 86400)) = dayOf t - days := by
  simp only [dayOf, seconds]
  omega

/-- SQLite knows the years of four digits. -/
theorem datetime_eq_some (h : FourDigits (dayOf t)) :
    ∃ clock, datetime t = some (isoDate (dayOf t) ++ ' ' :: clock) := by
  obtain ⟨hlow, hhigh⟩ := (fourDigits_iff _).mp h
  refine ⟨pad2 (t / seconds 1 / 3600 % 24).toNat ++ ':' :: pad2 (t / seconds 1 / 60 % 60).toNat ++
    ':' :: pad2 (t / seconds 1 % 60).toNat, ?_⟩
  rw [datetime, if_pos]
  · simp
  · simp only [dayOf, seconds] at hlow hhigh ⊢
    omega

theorem datetime_eq_none (h : 2932897 ≤ dayOf t) : datetime t = none := by
  rw [datetime, if_neg]
  simp only [dayOf, seconds] at h ⊢
  omega

/-- Before the year 0 there is a sign, or NULL. -/
theorem datetime_signed (h : dayOf t < -719528) (hs : datetime t = some s) :
    ∃ rest, s = '-' :: rest := by
  have hyear : (civilDay (dayOf t)).1 < 0 := by
    have hzero : 0 ≤ (civilDay (dayOf t)).1 ↔ -719528 ≤ dayOf t :=
      le_year_iff (by decide +kernel) (by decide +kernel) _
    omega
  rw [datetime] at hs
  split at hs
  · cases hs
    rw [isoDate, if_pos hyear]
    exact ⟨_, rfl⟩
  · cases hs

theorem sign_lt_digit (n : Nat) : '-' < digit n := by
  have h : ∀ i : Fin 10, '-' < digit i := by decide
  have hi := h ⟨n % 10, Nat.mod_lt _ (by decide)⟩
  simpa [digit] using hi

/-- A date of four digits is not before a sign. -/
theorem isoDate_not_lt_sign {day : Int} (h : FourDigits day) (x rest : List Char) :
    ¬ isoDate day ++ x < '-' :: rest := by
  rw [isoDate_eq h]
  intro hlt
  obtain hlt | ⟨heq, -⟩ := cons_lt_cons_iff'.mp hlt
  · exact lt_asymm hlt (sign_lt_digit _)
  · exact (sign_lt_digit _).ne' heq

theorem not_T_lt_space (time clock : List Char) : ¬ 'T' :: time < ' ' :: clock := by
  intro hlt
  obtain hlt | ⟨heq, -⟩ := cons_lt_cons_iff'.mp hlt
  · exact absurd hlt (by decide)
  · cases heq

/-- What is written with a `T` is before a `datetime` exactly when its day is. -/
theorem written_lt_datetime (h : FourDigits (dayOf ts)) (ht : dayOf t < 2932897)
    (time : List Char) :
    ((datetime t).any fun cutoff => decide (isoDate (dayOf ts) ++ 'T' :: time < cutoff)) =
      decide (dayOf ts < dayOf t) := by
  have hday := (fourDigits_iff _).mp h
  by_cases hlow : dayOf t < -719528
  · rw [decide_eq_false (by omega), Option.any_eq_false]
    intro cutoff hcutoff
    obtain ⟨rest, rfl⟩ := datetime_signed hlow hcutoff
    simpa using isoDate_not_lt_sign h ('T' :: time) rest
  · have hfour : FourDigits (dayOf t) := (fourDigits_iff _).mpr (by omega)
    obtain ⟨clock, hclock⟩ := datetime_eq_some hfour
    rw [hclock, Option.any_some, decide_eq_decide, isoDate_append_lt h hfour]
    simp [not_T_lt_space]

/-- It is after one exactly when its day is not before. -/
theorem datetime_lt_written (h : FourDigits (dayOf ts)) (ht : FourDigits (dayOf t))
    (time : List Char) :
    ((datetime t).any fun upper => decide (upper < isoDate (dayOf ts) ++ 'T' :: time)) =
      decide (dayOf t ≤ dayOf ts) := by
  obtain ⟨clock, hclock⟩ := datetime_eq_some ht
  have hspace : ' ' :: clock < 'T' :: time := cons_lt_cons_iff'.mpr (.inl (by decide))
  rw [hclock, Option.any_some, decide_eq_decide, isoDate_append_lt ht h]
  simp only [hspace, and_true]
  omega

theorem written_lt_2020 (h : FourDigits (dayOf ts)) (time : List Char) :
    isoDate (dayOf ts) ++ 'T' :: time < "2020-01-01".toList ↔ dayOf ts < 18262 := by
  have htext : "2020-01-01".toList = isoDate 18262 ++ [] := by decide +kernel
  rw [htext, isoDate_append_lt h (by rw [fourDigits_iff]; decide)]
  simp

/-- A time that is taken or replaced is of a year of four digits. -/
theorem sanitized_fourDigits (hlibs : libs.Dated) (hfour : FourDigits (dayOf t₀)) (ts : Int) :
    FourDigits (dayOf (sanitizeAlertTimestamp libs t₀ ts)) := by
  unfold sanitizeAlertTimestamp
  split
  · next hplausible =>
    obtain ⟨-, -, hfirst, hlast⟩ := hplausible
    rw [hlibs.year] at hfirst hlast
    exact ⟨by omega, by omega⟩
  · exact hfour

section Purges
variable {row : AlertRow} {time : List Char} (hfour : FourDigits (dayOf t)) (hrow : row ∈ rows)
  (htext : row.timestamp = isoDate (dayOf ts) ++ 'T' :: time) (hts : FourDigits (dayOf ts))
include hfour hrow htext hts

/-- Only the day counts: a row of the cutoff's own day is kept until the next day. -/
theorem not_mem_purgeOld_iff (days : UInt32) :
    row ∉ rows.purgeOld t days ↔ dayOf ts < dayOf t - days.toNat := by
  have hcutoff : dayOf (t - seconds (days.toNat * 86400)) < 2932897 := by
    have hday := (fourDigits_iff _).mp hfour
    rw [dayOf_days]
    omega
  rw [AlertTable.purgeOld, List.mem_filter, htext, written_lt_datetime hts hcutoff, dayOf_days]
  simp only [hrow, true_and, Bool.not_eq_true', decide_eq_false_iff_not, not_not]

theorem mem_purgeInvalidTimestamps_iff :
    row ∈ rows.purgeInvalidTimestamps t ↔ 18262 ≤ dayOf ts ∧ dayOf ts ≤ dayOf t := by
  have hnext : dayOf (t + seconds 86400) = dayOf t + 1 := by
    simp only [dayOf, seconds]
    omega
  have hafter : ((datetime (t + seconds 86400)).any fun upper =>
      decide (upper < isoDate (dayOf ts) ++ 'T' :: time)) = decide (dayOf t < dayOf ts) := by
    have hday := (fourDigits_iff _).mp hfour
    have hday' := (fourDigits_iff _).mp hts
    by_cases hlast : dayOf t + 1 < 2932897
    · have hfour' : FourDigits (dayOf (t + seconds 86400)) := by
        rw [hnext, fourDigits_iff]
        omega
      rw [datetime_lt_written hts hfour', hnext, decide_eq_decide]
      omega
    · rw [datetime_eq_none (by omega), decide_eq_false (by omega)]
      rfl
  rw [AlertTable.purgeInvalidTimestamps, List.mem_filter, htext, hafter]
  simp only [written_lt_2020 hts, Bool.not_or, Bool.and_eq_true, Bool.not_eq_true',
    decide_eq_false_iff_not, not_lt, hrow, true_and]

end Purges

/-- The stored time is not of the cutoff's own day before the cutoff, not before 2020, and not of a
day after the present one. -/
structure InRealTime (libs : AlertLibs) (t : Int) (days : UInt32) (ts : Int) : Prop where
  cutoffDay : dayOf ts = dayOf t - days.toNat → t - seconds (days.toNat * 86400) ≤ ts
  year : 2020 ≤ libs.year ts
  today : dayOf ts ≤ dayOf t

/-- Whatever else is done to the table after an alert is stored: at any time its row is purged by
age exactly if it is too old, and not as invalid, if and only if the stored time is in real time. -/
theorem retention_iff (hlibs : libs.Dated) (hfour₀ : FourDigits (dayOf t₀))
    (hfour : FourDigits (dayOf t)) (days : UInt32) {alert : IdsAlert}
    (hnew : hasKey AlertRow.id alert.id rows = false) {ops : List TableOp}
    (hops : ∀ op ∈ ops, ¬ op.Stores alert.id) {row : AlertRow}
    (hrow : row ∈ TableOp.run libs (rows.emit libs t₀ alert) ops)
    (hid : row.id = alert.id) :
    ((row ∉ (TableOp.run libs (rows.emit libs t₀ alert) ops).purgeOld t days ↔
        sanitizeAlertTimestamp libs t₀ alert.timestamp < t - seconds (days.toNat * 86400)) ∧
      row ∈ (TableOp.run libs (rows.emit libs t₀ alert) ops).purgeInvalidTimestamps t) ↔
      InRealTime libs t days (sanitizeAlertTimestamp libs t₀ alert.timestamp) := by
  have hstamp := (Stamped.of_emit hnew libs t₀).run libs hops row hrow hid
  have hts := sanitized_fourDigits hlibs hfour₀ alert.timestamp
  simp only [AlertRow.ofAlert] at hstamp
  generalize sanitizeAlertTimestamp libs t₀ alert.timestamp = ts at hts hstamp ⊢
  obtain ⟨time, htext⟩ := hlibs.text ts hts
  rw [htext] at hstamp
  have hyear : 2020 ≤ libs.year ts ↔ 18262 ≤ dayOf ts := by
    rw [hlibs.year]
    exact le_year_iff (by decide +kernel) (by decide +kernel) _
  rw [not_mem_purgeOld_iff hfour hrow hstamp hts,
    mem_purgeInvalidTimestamps_iff hfour hrow hstamp hts, ← hyear]
  have hold : (dayOf ts < dayOf t - days.toNat ↔ ts < t - seconds (days.toNat * 86400)) ↔
      (dayOf ts = dayOf t - days.toNat → t - seconds (days.toNat * 86400) ≤ ts) := by
    simp only [dayOf, seconds]
    omega
  rw [hold]
  constructor
  · rintro ⟨hcutoff, hfirst, htoday⟩
    exact ⟨hcutoff, hfirst, htoday⟩
  · intro h
    exact ⟨h.cutoffDay, h.year, h.today⟩

/-- Times in whole seconds, of years of four digits; there is no metadata to write. -/
def calendarLibs : AlertLibs where
  year ts := (civilDay (dayOf ts)).1
  toRfc3339 ts :=
    isoDate (dayOf ts) ++ 'T' :: pad2 (ts / seconds 3600 % 24).toNat ++ ':' ::
      pad2 (ts / seconds 60 % 60).toNat ++ ':' :: pad2 (ts / seconds 1 % 60).toNat ++
        "+00:00".toList
  parseRfc3339 _ := none
  toJson _ := none
  fromJson _ := none

example : calendarLibs.toRfc3339 (seconds 1768006800) = "2026-01-10T01:00:00+00:00".toList := by
  decide +kernel

theorem calendarLibs_dated : calendarLibs.Dated where
  year := fun _ => rfl
  text := by
    intro ts _
    simp only [calendarLibs, List.append_assoc, List.cons_append]
    exact ⟨_, rfl⟩

/-- Stored at one in the morning on the tenth of January 2026. -/
def nightAlert : IdsAlert :=
  .new 1 (seconds 1768006800) "ET SCAN" 2 (.v4 0xC0000201) (.v4 0xC6336401) "tcp" .alert .etOpen

def nightRow : AlertRow := .ofAlert calendarLibs (seconds 1768006800) nightAlert

/-- At noon a week later, when it has been acknowledged. -/
theorem retention_iff_noon :
    (({ nightRow with acknowledged := true } ∉
          (AlertTable.acknowledge [nightRow] 1).purgeOld (seconds 1768651200) 7 ↔
        sanitizeAlertTimestamp calendarLibs (seconds 1768006800) nightAlert.timestamp <
          seconds 1768651200 - seconds (7 * 86400)) ∧
      { nightRow with acknowledged := true } ∈
        (AlertTable.acknowledge [nightRow] 1).purgeInvalidTimestamps (seconds 1768651200)) ↔
      InRealTime calendarLibs (seconds 1768651200) 7
        (sanitizeAlertTimestamp calendarLibs (seconds 1768006800) nightAlert.timestamp) :=
  have hops : ∀ op ∈ [TableOp.acknowledge 1], ¬ op.Stores nightAlert.id := by
    simp [TableOp.Stores]
  have hnew : hasKey AlertRow.id nightAlert.id ([] : AlertTable) = false := rfl
  retention_iff calendarLibs_dated ⟨by decide +kernel, by decide +kernel⟩
    ⟨by decide +kernel, by decide +kernel⟩ 7 hnew hops List.mem_cons_self rfl

/-- It is more than seven days old then, and is kept; an alert dated ten minutes after midnight by a
clock that is twenty minutes ahead is purged as invalid at once. -/
theorem week_old_kept :
    sanitizeAlertTimestamp calendarLibs (seconds 1768006800) nightAlert.timestamp <
        seconds 1768651200 - seconds (7 * 86400) ∧
      nightRow ∈ AlertTable.purgeOld [nightRow] (seconds 1768651200) 7 ∧
      (AlertTable.purgeInvalidTimestamps
        (AlertTable.emit calendarLibs [] (seconds 1768002600)
          { nightAlert with timestamp := seconds 1768003800 }) (seconds 1768002600)).length = 0 :=
  ⟨by decide +kernel, List.mem_filter.mpr ⟨List.mem_singleton_self _, by decide +kernel⟩,
    by decide +kernel⟩

end AiFw.Ids
