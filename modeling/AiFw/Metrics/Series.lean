import AiFw.Lib.Blocks
import Mathlib.Algebra.BigOperators.Group.List.Basic
import Mathlib.Algebra.Order.Field.Rat
import Mathlib.Data.List.Forall2
import Mathlib.Data.List.GetD
import Mathlib.Data.Rat.Cast.Defs

namespace AiFw.Metrics
open AiFw.Lib

set_option autoImplicit true

section

variable {α : Type}

/-- A fixed-size circular buffer. The head never leaves it, so no push and no read is out of
bounds. -/
structure RingBuffer (α : Type) where
  capacity : Nat
  data : Vector (Option α) capacity
  head : Nat
  count : Nat
  head_lt : head < capacity

namespace RingBuffer

def new (α : Type) (capacity : Nat) (h : 0 < capacity) : RingBuffer α where
  capacity := capacity
  data := .replicate capacity none
  head := 0
  count := 0
  head_lt := h

theorem capacity_pos (rb : RingBuffer α) : 0 < rb.capacity :=
  Nat.lt_of_le_of_lt (Nat.zero_le _) rb.head_lt

def push (rb : RingBuffer α) (value : α) : RingBuffer α where
  capacity := rb.capacity
  data := rb.data.set rb.head (some value) rb.head_lt
  head := (rb.head + 1) % rb.capacity
  count := if rb.count < rb.capacity then rb.count + 1 else rb.count
  head_lt := Nat.mod_lt _ rb.capacity_pos

def cell (rb : RingBuffer α) (i : Nat) : Option α := rb.data[i]?.join

/-- The values, the oldest first. -/
def values (rb : RingBuffer α) : List α :=
  if rb.count = 0 then []
  else
    let start := if rb.count < rb.capacity then 0 else rb.head
    (List.range rb.count).filterMap fun i => rb.cell ((start + i) % rb.capacity)

def latest (rb : RingBuffer α) : Option α :=
  if rb.count = 0 then none
  else rb.cell (if rb.head = 0 then rb.capacity - 1 else rb.head - 1)

def latestN (rb : RingBuffer α) (n : Nat) : List α := rb.values.drop (rb.values.length - n)

/-- The buffer after these values were pushed: each of the last ones is in the cell its number
falls on. -/
structure Holds (rb : RingBuffer α) (l : List α) : Prop where
  head_eq : rb.head = l.length % rb.capacity
  count_eq : rb.count = min l.length rb.capacity
  cells : ∀ i x, l[i]? = some x → l.length ≤ i + rb.capacity →
    rb.cell (i % rb.capacity) = some x

theorem holds_new {capacity : Nat} (h : 0 < capacity) : (new α capacity h).Holds [] where
  head_eq := (Nat.zero_mod capacity).symm
  count_eq := (Nat.zero_min capacity).symm
  cells := by
    intro i x hx
    cases hx

theorem cell_push_self (rb : RingBuffer α) (value : α) : (rb.push value).cell rb.head = some value := by
  rw [cell, push, Vector.getElem?_set_self rb.head_lt]
  rfl

theorem cell_push_ne (rb : RingBuffer α) (value : α) (hi : rb.head ≠ i) :
    (rb.push value).cell i = rb.cell i := by
  rw [cell, push, Vector.getElem?_set_ne rb.head_lt hi, cell]

theorem Holds.push {rb : RingBuffer α} (h : rb.Holds l) (value : α) :
    (rb.push value).Holds (l ++ [value]) where
  head_eq := by
    change (rb.head + 1) % rb.capacity = (l ++ [value]).length % rb.capacity
    rw [h.head_eq, Nat.mod_add_mod, List.length_append, List.length_singleton]
  count_eq := by
    change (if rb.count < rb.capacity then rb.count + 1 else rb.count) =
      min (l ++ [value]).length rb.capacity
    rw [h.count_eq, List.length_append, List.length_singleton]
    split <;> omega
  cells := by
    intro i x hx hi
    rw [List.length_append, List.length_singleton] at hi
    change l.length + 1 ≤ i + rb.capacity at hi
    change (rb.push value).cell (i % rb.capacity) = some x
    rcases Nat.lt_trichotomy i l.length with hlt | rfl | hgt
    · rw [List.getElem?_append_left hlt] at hx
      rw [cell_push_ne]
      · exact h.cells i x hx (by omega)
      · rw [h.head_eq]
        exact mod_ne_of_lt hlt (by omega)
    · rw [List.getElem?_concat_length] at hx
      rw [← h.head_eq, cell_push_self, hx]
    · rw [List.getElem?_eq_none (by rw [List.length_append, List.length_singleton]; omega)] at hx
      cases hx

/-- The buffer shows the last values, as many as it has room for. -/
theorem Holds.values_eq {rb : RingBuffer α} (h : rb.Holds l) : rb.values = lastN rb.capacity l := by
  have hcells : ∀ i < rb.count,
      rb.cell (((if rb.count < rb.capacity then 0 else rb.head) + i) % rb.capacity) =
        l[l.length - rb.count + i]? := by
    intro i hi
    have hlt : l.length - rb.count + i < l.length := by
      rw [h.count_eq] at hi ⊢
      omega
    obtain ⟨x, hx⟩ : ∃ x, l[l.length - rb.count + i]? = some x := ⟨_, List.getElem?_eq_getElem hlt⟩
    rw [hx, ← h.cells _ x hx (by rw [h.count_eq]; omega)]
    congr 1
    split
    next hroom =>
      have hall : rb.count = l.length := by
        rw [h.count_eq] at hroom ⊢
        omega
      rw [hall, Nat.sub_self]
    next hfull =>
      have hcount : rb.count = rb.capacity := by
        rw [h.count_eq] at hfull ⊢
        omega
      have hle : rb.capacity ≤ l.length := by
        have heq := h.count_eq
        omega
      rw [h.head_eq, Nat.mod_add_mod, hcount,
        ← Nat.add_mod_right (l.length - rb.capacity + i) rb.capacity]
      congr 1
      omega
  have hlast : lastN rb.capacity l = (List.range rb.count).filterMap
      fun i => l[l.length - rb.count + i]? := by
    have hdrop : lastN rb.capacity l = l.drop (l.length - rb.count) := by
      rw [lastN, h.count_eq]
      congr 1
      omega
    rw [hdrop, ← filterMap_range_self (l.drop (l.length - rb.count)), List.length_drop,
      Nat.sub_sub_self (by rw [h.count_eq]; exact Nat.min_le_left _ _)]
    apply List.filterMap_congr
    intro i _
    exact List.getElem?_drop
  rw [values, hlast]
  split
  next hzero => rw [hzero]; rfl
  next =>
    apply List.filterMap_congr
    intro i hi
    exact hcells i (List.mem_range.mp hi)

theorem Holds.latest_eq {rb : RingBuffer α} (h : rb.Holds l) : rb.latest = l.getLast? := by
  rcases List.eq_nil_or_concat l with rfl | ⟨l, x, rfl⟩
  · rw [latest, if_pos (by rw [h.count_eq]; exact Nat.zero_min _)]
    rfl
  · rw [List.concat_eq_append, List.getLast?_concat, latest, if_neg]
    · have hlast := h.cells l.length x (by rw [List.concat_eq_append, List.getElem?_concat_length])
      rw [List.concat_eq_append, List.length_append, List.length_singleton] at hlast
      rw [← hlast (by have hpos := rb.capacity_pos; omega)]
      have hhead := h.head_eq
      rw [List.concat_eq_append, List.length_append, List.length_singleton] at hhead
      rw [hhead, place_before l.length rb.capacity_pos]
    · rw [h.count_eq, List.concat_eq_append, List.length_append, List.length_singleton]
      have hpos := rb.capacity_pos
      omega

end RingBuffer

end

/-- A point; its numbers are exact. -/
structure MetricPoint where
  timestamp : Int
  value : ℚ
  min : ℚ
  max : ℚ
  count : Nat
deriving DecidableEq, Repr

/-- A value to record and the time the clock then shows. -/
structure Sample where
  timestamp : Int
  value : ℚ
deriving DecidableEq, Repr

def MetricPoint.new (s : Sample) : MetricPoint where
  timestamp := s.timestamp
  value := s.value
  min := s.value
  max := s.value
  count := 1

inductive Aggregation where
  | average
  | sum
  | min
  | max
  | last
deriving DecidableEq, Repr

/-- The folds of the least and the greatest value start at an infinity, which the first point
replaces. -/
def aggregate (points : List MetricPoint) (method : Aggregation) : Option MetricPoint :=
  match points with
  | [] => none
  | first :: rest =>
    let last := (first :: rest).getLast (List.cons_ne_nil first rest)
    let totalCount := ((first :: rest).map MetricPoint.count).sum
    let least := rest.foldl (fun m p => Min.min m p.min) first.min
    let greatest := rest.foldl (fun m p => Max.max m p.max) first.max
    let value := match method with
      | .average => ((first :: rest).map fun p => p.value * (p.count : ℚ)).sum / (totalCount : ℚ)
      | .sum => ((first :: rest).map MetricPoint.value).sum
      | .min => least
      | .max => greatest
      | .last => last.value
    some { timestamp := last.timestamp, value, min := least, max := greatest, count := totalCount }

inductive Tier where
  | live
  | short
  | mid
  | long
deriving DecidableEq, Repr

namespace Tier

def capacity : Tier → Nat
  | .live => 1800
  | .short => 2160
  | .mid => 10080
  | .long => 8640

def intervalSecs : Tier → Nat
  | .live => 1
  | .short => 10
  | .mid => 60
  | .long => 300

def consolidationRatio : Tier → Nat
  | .live => 1
  | .short => 10
  | .mid => 6
  | .long => 5

theorem capacity_pos (t : Tier) : 0 < t.capacity := by
  cases t <;> decide

end Tier

structure MetricSeries where
  aggregation : Aggregation
  live : RingBuffer MetricPoint
  short : RingBuffer MetricPoint
  mid : RingBuffer MetricPoint
  long : RingBuffer MetricPoint
  shortAcc : List MetricPoint
  midAcc : List MetricPoint
  longAcc : List MetricPoint

/-- A point joins those that wait for a tier. Once they are enough, they are folded into one point
of the tier. -/
def consolidate (tier : Tier) (method : Aggregation) (acc : List MetricPoint)
    (ring : RingBuffer MetricPoint) (point : MetricPoint) :
    List MetricPoint × RingBuffer MetricPoint × Option MetricPoint :=
  if tier.consolidationRatio ≤ (acc ++ [point]).length then
    match aggregate (acc ++ [point]) method with
    | some agg => ([], ring.push agg, some agg)
    | none => (acc ++ [point], ring, none)
  else (acc ++ [point], ring, none)

namespace MetricSeries

def new (aggregation : Aggregation) : MetricSeries where
  aggregation := aggregation
  live := .new _ Tier.live.capacity Tier.live.capacity_pos
  short := .new _ Tier.short.capacity Tier.short.capacity_pos
  mid := .new _ Tier.mid.capacity Tier.mid.capacity_pos
  long := .new _ Tier.long.capacity Tier.long.capacity_pos
  shortAcc := []
  midAcc := []
  longAcc := []

def foldLong (s : MetricSeries) (point : MetricPoint) : MetricSeries :=
  let folded := consolidate .long s.aggregation s.longAcc s.long point
  { s with longAcc := folded.1, long := folded.2.1 }

def foldMid (s : MetricSeries) (point : MetricPoint) : MetricSeries :=
  let folded := consolidate .mid s.aggregation s.midAcc s.mid point
  let s := { s with midAcc := folded.1, mid := folded.2.1 }
  match folded.2.2 with
  | some agg => s.foldLong agg
  | none => s

def foldShort (s : MetricSeries) (point : MetricPoint) : MetricSeries :=
  let folded := consolidate .short s.aggregation s.shortAcc s.short point
  let s := { s with shortAcc := folded.1, short := folded.2.1 }
  match folded.2.2 with
  | some agg => s.foldMid agg
  | none => s

def record (s : MetricSeries) (sample : Sample) : MetricSeries :=
  { s with live := s.live.push (.new sample) }.foldShort (.new sample)

def tierBuffer (s : MetricSeries) : Tier → RingBuffer MetricPoint
  | .live => s.live
  | .short => s.short
  | .mid => s.mid
  | .long => s.long

def getTier (s : MetricSeries) (tier : Tier) : List MetricPoint := (s.tierBuffer tier).values

def getLast (s : MetricSeries) (tier : Tier) (n : Nat) : List MetricPoint :=
  (s.tierBuffer tier).latestN n

def latest (s : MetricSeries) : Option ℚ := s.live.latest.map MetricPoint.value

def recordAll (aggregation : Aggregation) (samples : List Sample) : MetricSeries :=
  samples.foldl record (new aggregation)

end MetricSeries

/-- The value a method gives a block of samples. -/
def blockValue (method : Aggregation) (block : List Sample) (p : MetricPoint) : Prop :=
  match method with
  | .average => p.value = (block.map Sample.value).sum / (block.length : ℚ)
  | .sum => p.value = (block.map Sample.value).sum
  | .min => p.value = p.min
  | .max => p.value = p.max
  | .last => block.getLast?.map Sample.value = some p.value

/-- A point that stands for the samples of a block. -/
structure Consolidates (method : Aggregation) (block : List Sample) (p : MetricPoint) : Prop where
  count : p.count = block.length
  least : p.min ∈ block.map Sample.value ∧ ∀ s ∈ block, p.min ≤ s.value
  greatest : p.max ∈ block.map Sample.value ∧ ∀ s ∈ block, s.value ≤ p.max
  value : blockValue method block p
  timestamp : block.getLast?.map Sample.timestamp = some p.timestamp

end AiFw.Metrics
