import AiFw.Lib.Views
import AiFw.Metrics.Series
import Mathlib.Tactic.FieldSimp
import Mathlib.Tactic.NormNum

namespace AiFw.Metrics
open AiFw.Lib
set_option autoImplicit true

section
variable {α β : Type} {r : β → β → Prop} {op : β → β → β}

/-- A fold of an operation that picks the better of two picks the best of all. -/
theorem foldl_picks (hrefl : ∀ a, r a a) (htrans : ∀ a b c, r a b → r b c → r a c)
    (hop : ∀ a b, (op a b = a ∨ op a b = b) ∧ r (op a b) a ∧ r (op a b) b) (f : α → β) (l : List α)
    (a : β) :
    l.foldl (fun m x => op m (f x)) a ∈ a :: l.map f ∧
      ∀ b ∈ a :: l.map f, r (l.foldl (fun m x => op m (f x)) a) b := by
  induction l generalizing a with
  | nil =>
    refine ⟨List.mem_cons_self, ?_⟩
    intro b hb
    rw [List.mem_singleton.mp hb]
    exact hrefl a
  | cons x l ih =>
    obtain ⟨hmem, hbest⟩ := ih (op a (f x))
    obtain ⟨hpick, hleft, hright⟩ := hop a (f x)
    rw [List.foldl_cons, List.map_cons]
    constructor
    · rcases List.mem_cons.mp hmem with heq | hmem
      · rw [heq]
        rcases hpick with hpick | hpick
        · rw [hpick]
          exact List.mem_cons_self
        · rw [hpick]
          exact List.mem_cons_of_mem _ List.mem_cons_self
      · exact List.mem_cons_of_mem _ (List.mem_cons_of_mem _ hmem)
    · have hpicked := hbest _ List.mem_cons_self
      intro b hb
      rcases List.mem_cons.mp hb with rfl | hb
      · exact htrans _ _ _ hpicked hleft
      · rcases List.mem_cons.mp hb with rfl | hb
        · exact htrans _ _ _ hpicked hright
        · exact hbest b (List.mem_cons_of_mem _ hb)

theorem last_of_forall₂ {R : α → β → Prop} {l : List α} {m : List β} (h : List.Forall₂ R l m)
    (hne : m ≠ []) : ∃ a b, l.getLast? = some a ∧ m.getLast? = some b ∧ R a b := by
  induction h with
  | nil => exact absurd rfl hne
  | @cons a b l m hab hrest ih =>
    cases hrest with
    | nil => exact ⟨a, b, rfl, rfl, hab⟩
    | cons hab' hrest' =>
      obtain ⟨a', b', ha', hb', hlast⟩ := ih (List.cons_ne_nil _ _)
      exact ⟨a', b', ha', hb', hlast⟩

theorem getLast?_flatten_of_last {blocks : List (List α)} (h : blocks.getLast? = some b)
    (hb : b ≠ []) : blocks.flatten.getLast? = b.getLast? := by
  obtain ⟨front, rfl⟩ := List.getLast?_eq_some_iff.mp h
  rw [List.flatten_append, List.flatten_singleton, List.getLast?_append_of_ne_nil _ hb]

end

variable {method : Aggregation} {block : List Sample}

theorem Consolidates.ne_nil (h : Consolidates method block p) : block ≠ [] := by
  rintro rfl
  cases h.least.1

theorem Consolidates.new (method : Aggregation) (s : Sample) :
    Consolidates method [s] (.new s) where
  count := rfl
  least := by
    refine ⟨List.mem_cons_self, ?_⟩
    intro s' hs'
    rw [List.mem_singleton.mp hs']
    exact le_refl _
  greatest := by
    refine ⟨List.mem_cons_self, ?_⟩
    intro s' hs'
    rw [List.mem_singleton.mp hs']
    exact le_refl _
  value := by
    cases method with
    | average => simp [blockValue, MetricPoint.new]
    | sum => simp [blockValue, MetricPoint.new]
    | min | max | last => rfl
  timestamp := rfl

section
variable {blocks : List (List Sample)} {points : List MetricPoint}

theorem sum_counts (h : List.Forall₂ (Consolidates method) blocks points) :
    (points.map MetricPoint.count).sum = blocks.flatten.length := by
  induction h with
  | nil => rfl
  | cons hp _ ih =>
    rw [List.map_cons, List.sum_cons, ih, List.flatten_cons, List.length_append, hp.count]

/-- A mean weighted by its count is a sum. -/
theorem sum_weighted (h : List.Forall₂ (Consolidates .average) blocks points) :
    (points.map fun p => p.value * (p.count : ℚ)).sum = (blocks.flatten.map Sample.value).sum := by
  induction h with
  | nil => rfl
  | @cons block p blocks points hp _ ih =>
    have hlen : (block.length : ℚ) ≠ 0 :=
      Nat.cast_ne_zero.mpr (mt List.length_eq_zero_iff.mp hp.ne_nil)
    have hvalue : p.value = (block.map Sample.value).sum / (block.length : ℚ) := hp.value
    rw [List.map_cons, List.sum_cons, ih, List.flatten_cons, List.map_append, List.sum_append,
      hvalue, hp.count, div_mul_cancel₀ _ hlen]

theorem sum_values (h : List.Forall₂ (Consolidates .sum) blocks points) :
    (points.map MetricPoint.value).sum = (blocks.flatten.map Sample.value).sum := by
  induction h with
  | nil => rfl
  | @cons block p blocks points hp _ ih =>
    have hvalue : p.value = (block.map Sample.value).sum := hp.value
    rw [List.map_cons, List.sum_cons, ih, List.flatten_cons, List.map_append, List.sum_append, hvalue]

theorem least_of_all (h : List.Forall₂ (Consolidates method) blocks points)
    (hmem : v ∈ points.map MetricPoint.min) (hle : ∀ w ∈ points.map MetricPoint.min, v ≤ w) :
    v ∈ blocks.flatten.map Sample.value ∧ ∀ s ∈ blocks.flatten, v ≤ s.value := by
  constructor
  · obtain ⟨p, hp, rfl⟩ := List.mem_map.mp hmem
    obtain ⟨block, hblock, hcons⟩ := exists_left_of_mem h hp
    obtain ⟨s, hs, hv⟩ := List.mem_map.mp hcons.least.1
    exact List.mem_map.mpr ⟨s, List.mem_flatten.mpr ⟨block, hblock, hs⟩, hv⟩
  · intro s hs
    obtain ⟨block, hblock, hs⟩ := List.mem_flatten.mp hs
    obtain ⟨p, hp, hcons⟩ := exists_right_of_mem h hblock
    exact (hle _ (List.mem_map_of_mem hp)).trans (hcons.least.2 s hs)

theorem greatest_of_all (h : List.Forall₂ (Consolidates method) blocks points)
    (hmem : v ∈ points.map MetricPoint.max) (hle : ∀ w ∈ points.map MetricPoint.max, w ≤ v) :
    v ∈ blocks.flatten.map Sample.value ∧ ∀ s ∈ blocks.flatten, s.value ≤ v := by
  constructor
  · obtain ⟨p, hp, rfl⟩ := List.mem_map.mp hmem
    obtain ⟨block, hblock, hcons⟩ := exists_left_of_mem h hp
    obtain ⟨s, hs, hv⟩ := List.mem_map.mp hcons.greatest.1
    exact List.mem_map.mpr ⟨s, List.mem_flatten.mpr ⟨block, hblock, hs⟩, hv⟩
  · intro s hs
    obtain ⟨block, hblock, hs⟩ := List.mem_flatten.mp hs
    obtain ⟨p, hp, hcons⟩ := exists_right_of_mem h hblock
    exact (hcons.greatest.2 s hs).trans (hle _ (List.mem_map_of_mem hp))

theorem last_of_all (h : List.Forall₂ (Consolidates method) blocks points)
    (hlast : points.getLast? = some p) :
    blocks.flatten.getLast?.map Sample.timestamp = some p.timestamp ∧
      (method = .last → blocks.flatten.getLast?.map Sample.value = some p.value) := by
  have hne : points ≠ [] := by
    rintro rfl
    cases hlast
  obtain ⟨block, p', hblock, hp', hcons⟩ := last_of_forall₂ h hne
  rw [hlast] at hp'
  cases hp'
  rw [getLast?_flatten_of_last hblock hcons.ne_nil]
  refine ⟨hcons.timestamp, ?_⟩
  rintro rfl
  exact hcons.value

theorem min_picks (a b : ℚ) : (min a b = a ∨ min a b = b) ∧ min a b ≤ a ∧ min a b ≤ b :=
  ⟨min_choice a b, min_le_left a b, min_le_right a b⟩

theorem max_picks (a b : ℚ) : (max a b = a ∨ max a b = b) ∧ max a b ≥ a ∧ max a b ≥ b :=
  ⟨max_choice a b, le_max_left a b, le_max_right a b⟩

/-- Points that stand for blocks are folded into one that stands for all of their samples. -/
theorem aggregate_consolidates (h : List.Forall₂ (Consolidates method) blocks points)
    (hne : points ≠ []) :
    ∃ q, aggregate points method = some q ∧ Consolidates method blocks.flatten q := by
  cases points with
  | nil => exact absurd rfl hne
  | cons first rest =>
    have hmin := foldl_picks (r := (· ≤ ·)) le_refl (fun _ _ _ => le_trans) min_picks
      MetricPoint.min rest first.min
    have hmax := foldl_picks (r := (· ≥ ·)) (fun a => le_refl a) (fun _ _ _ => ge_trans) max_picks
      MetricPoint.max rest first.max
    have hlast := last_of_all h (List.getLast?_eq_some_getLast (List.cons_ne_nil first rest))
    refine ⟨_, rfl, ?_⟩
    constructor
    · exact sum_counts h
    · exact least_of_all h hmin.1 hmin.2
    · exact greatest_of_all h hmax.1 hmax.2
    · cases method with
      | average =>
        change _ / _ = _ / _
        rw [sum_weighted h, sum_counts h]
      | sum => exact sum_values h
      | min | max => rfl
      | last => exact hlast.2 rfl
    · exact hlast.1

end

/-- A tier and the points that wait for it: what went in, in groups of the ratio, and the blocks of
samples its points stand for. -/
structure Level (tier : Tier) (method : Aggregation) (ins outs : List (List Sample))
    (acc : List MetricPoint) (ring : RingBuffer MetricPoint) : Prop where
  cut : ∃ groups left, Cut tier.consolidationRatio ins groups left ∧
    outs = groups.map List.flatten ∧ List.Forall₂ (Consolidates method) left acc
  held : ∃ points, ring.Holds points ∧ List.Forall₂ (Consolidates method) outs points
  capacity : ring.capacity = tier.capacity

theorem Tier.consolidationRatio_pos (tier : Tier) : 0 < tier.consolidationRatio := by
  cases tier <;> decide

theorem Level.new (tier : Tier) (method : Aggregation) :
    Level tier method [] [] [] (.new _ tier.capacity tier.capacity_pos) where
  cut := ⟨[], [], .nil tier.consolidationRatio_pos, rfl, .nil⟩
  held := ⟨[], RingBuffer.holds_new _, .nil⟩
  capacity := rfl

theorem forall₂_concat {R : List Sample → MetricPoint → Prop} (h : List.Forall₂ R l m)
    (hab : R a b) : List.Forall₂ R (l ++ [a]) (m ++ [b]) :=
  List.rel_append h (.cons hab .nil)

/-- One more point either waits or closes a block. -/
theorem Level.consolidate (h : Level tier method ins outs acc ring)
    (hp : Consolidates method block point) :
    let folded := consolidate tier method acc ring point
    folded.2.2 = none ∧ Level tier method (ins ++ [block]) outs folded.1 folded.2.1 ∨
      ∃ q closed, folded.2.2 = some q ∧ Consolidates method closed q ∧
        Level tier method (ins ++ [block]) (outs ++ [closed]) folded.1 folded.2.1 := by
  obtain ⟨groups, left, hcut, rfl, hacc⟩ := h.cut
  obtain ⟨points, hholds, hpoints⟩ := h.held
  have hlength : left.length = acc.length := hacc.length_eq
  have hwaiting := forall₂_concat hacc hp
  unfold Metrics.consolidate
  rw [List.length_append, List.length_singleton]
  by_cases hfull : tier.consolidationRatio ≤ acc.length + 1
  · have hclose : left.length + 1 = tier.consolidationRatio := by
      have hshort := hcut.short
      omega
    obtain ⟨q, hq, hcons⟩ := aggregate_consolidates hwaiting (List.concat_ne_nil point acc)
    rw [if_pos hfull, hq]
    refine .inr ⟨q, (left ++ [block]).flatten, rfl, hcons, ?_⟩
    constructor
    · refine ⟨groups ++ [left ++ [block]], [], hcut.close hclose block, ?_, .nil⟩
      rw [List.map_append, List.map_singleton]
    · exact ⟨points ++ [q], hholds.push q, forall₂_concat hpoints hcons⟩
    · exact h.capacity
  · rw [if_neg hfull]
    refine .inl ⟨rfl, ?_⟩
    constructor
    · exact ⟨groups, left ++ [block], hcut.wait (by omega) block, rfl, hwaiting⟩
    · exact ⟨points, hholds, hpoints⟩
    · exact h.capacity

/-- The blocks that come out of a tier are blocks of the samples, if those that go in are. -/
theorem Level.blocks (h : Level tier method ins outs acc ring) (hins : Cut k samples ins rest) :
    ∃ rest', Cut (k * tier.consolidationRatio) samples outs rest' := by
  obtain ⟨groups, left, hcut, rfl, -⟩ := h.cut
  exact ⟨_, hins.compose hcut⟩

/-- The points the tier shows stand for its last blocks. -/
theorem Level.shown (h : Level tier method ins outs acc ring) :
    List.Forall₂ (Consolidates method) (lastN tier.capacity outs) ring.values := by
  obtain ⟨points, hholds, hpoints⟩ := h.held
  rw [hholds.values_eq, h.capacity, lastN, lastN, hpoints.length_eq]
  exact List.forall₂_drop _ hpoints

/-- A series and the samples it recorded. -/
structure Tracks (method : Aggregation) (samples : List Sample) (s : MetricSeries) : Prop where
  aggregation : s.aggregation = method
  live : s.live.Holds (samples.map MetricPoint.new)
  capacity : s.live.capacity = Tier.live.capacity
  levels : ∃ short mid long,
    Level .short method (samples.map fun x => [x]) short s.shortAcc s.short ∧
      Level .mid method short mid s.midAcc s.mid ∧ Level .long method mid long s.longAcc s.long

theorem Tracks.new (method : Aggregation) : Tracks method [] (.new method) where
  aggregation := rfl
  live := RingBuffer.holds_new _
  capacity := rfl
  levels := ⟨[], [], [], .new .short method, .new .mid method, .new .long method⟩

theorem foldLong_level {s : MetricSeries} (hmethod : s.aggregation = method)
    (h : Level .long method ins outs s.longAcc s.long) (hp : Consolidates method block point) :
    ∃ outs', Level .long method (ins ++ [block]) outs' (s.foldLong point).longAcc
      (s.foldLong point).long := by
  subst hmethod
  unfold MetricSeries.foldLong
  rcases h.consolidate hp with ⟨-, hlevel⟩ | ⟨q, closed, -, -, hlevel⟩
  · exact ⟨outs, hlevel⟩
  · exact ⟨outs ++ [closed], hlevel⟩

theorem foldMid_short (s : MetricSeries) (point : MetricPoint) :
    (s.foldMid point).shortAcc = s.shortAcc ∧ (s.foldMid point).short = s.short := by
  unfold MetricSeries.foldMid
  dsimp only
  split <;> exact ⟨rfl, rfl⟩

theorem foldMid_levels {s : MetricSeries} (hmethod : s.aggregation = method)
    (h : Level .mid method ins outs s.midAcc s.mid)
    (hlong : Level .long method outs long s.longAcc s.long)
    (hp : Consolidates method block point) :
    ∃ outs' long', Level .mid method (ins ++ [block]) outs' (s.foldMid point).midAcc
        (s.foldMid point).mid ∧
      Level .long method outs' long' (s.foldMid point).longAcc (s.foldMid point).long := by
  subst hmethod
  unfold MetricSeries.foldMid
  rcases h.consolidate hp with ⟨hnone, hlevel⟩ | ⟨q, closed, hsome, hclosed, hlevel⟩
  · simp only [hnone]
    exact ⟨outs, long, hlevel, hlong⟩
  · simp only [hsome]
    obtain ⟨long', hlong'⟩ := foldLong_level
      (s := { s with
        midAcc := (consolidate .mid s.aggregation s.midAcc s.mid point).1
        mid := (consolidate .mid s.aggregation s.midAcc s.mid point).2.1 }) rfl hlong hclosed
    exact ⟨outs ++ [closed], long', hlevel, hlong'⟩

theorem foldShort_levels {s : MetricSeries} (hmethod : s.aggregation = method)
    (h : Level .short method ins outs s.shortAcc s.short)
    (hmid : Level .mid method outs mid s.midAcc s.mid)
    (hlong : Level .long method mid long s.longAcc s.long)
    (hp : Consolidates method block point) :
    ∃ outs' mid' long', Level .short method (ins ++ [block]) outs' (s.foldShort point).shortAcc
        (s.foldShort point).short ∧
      Level .mid method outs' mid' (s.foldShort point).midAcc (s.foldShort point).mid ∧
      Level .long method mid' long' (s.foldShort point).longAcc (s.foldShort point).long := by
  subst hmethod
  unfold MetricSeries.foldShort
  rcases h.consolidate hp with ⟨hnone, hlevel⟩ | ⟨q, closed, hsome, hclosed, hlevel⟩
  · simp only [hnone]
    exact ⟨outs, mid, long, hlevel, hmid, hlong⟩
  · simp only [hsome]
    obtain ⟨mid', long', hmid', hlong'⟩ := foldMid_levels
      (s := { s with
        shortAcc := (consolidate .short s.aggregation s.shortAcc s.short point).1
        short := (consolidate .short s.aggregation s.shortAcc s.short point).2.1 }) rfl hmid hlong
      hclosed
    have hkept := foldMid_short
      { s with
        shortAcc := (consolidate .short s.aggregation s.shortAcc s.short point).1
        short := (consolidate .short s.aggregation s.shortAcc s.short point).2.1 } q
    refine ⟨outs ++ [closed], mid', long', ?_, hmid', hlong'⟩
    rw [hkept.1, hkept.2]
    exact hlevel

theorem foldShort_live (s : MetricSeries) (point : MetricPoint) :
    (s.foldShort point).live = s.live ∧ (s.foldShort point).aggregation = s.aggregation := by
  unfold MetricSeries.foldShort
  dsimp only
  split
  · unfold MetricSeries.foldMid
    dsimp only
    split <;> exact ⟨rfl, rfl⟩
  · exact ⟨rfl, rfl⟩

theorem Tracks.record (h : Tracks method samples s) (sample : Sample) :
    Tracks method (samples ++ [sample]) (s.record sample) := by
  obtain ⟨short, mid, long, hshort, hmid, hlong⟩ := h.levels
  have hkept := foldShort_live { s with live := s.live.push (.new sample) } (.new sample)
  constructor
  · exact hkept.2.trans h.aggregation
  · rw [MetricSeries.record, hkept.1, List.map_append, List.map_singleton]
    exact h.live.push (.new sample)
  · rw [MetricSeries.record, hkept.1]
    exact h.capacity
  · obtain ⟨short', mid', long', hlevels⟩ := foldShort_levels
      (s := { s with live := s.live.push (.new sample) }) h.aggregation hshort hmid hlong
      (.new method sample)
    refine ⟨short', mid', long', ?_⟩
    rw [List.map_append, List.map_singleton]
    exact hlevels

theorem tracks_recordAll (method : Aggregation) (samples : List Sample) :
    Tracks method samples (.recordAll method samples) := by
  induction samples using List.reverseRecOn with
  | nil => exact .new method
  | append_singleton samples sample ih =>
    rw [MetricSeries.recordAll, List.foldl_concat]
    exact ih.record sample

/-- A tier shows the last of the complete blocks of its size, as many as it has room for, each as
one exact point; the blocks are the samples in order, each sample in one block. -/
structure ShowsBlocks (method : Aggregation) (samples : List Sample) (tier : Tier)
    (points : List MetricPoint) : Prop where
  folded : List.Forall₂ (Consolidates method)
    (lastN tier.capacity (fullBlocks tier.intervalSecs samples)) points
  number : points.length = min (samples.length / tier.intervalSecs) tier.capacity
  size : ∀ block ∈ fullBlocks tier.intervalSecs samples, block.length = tier.intervalSecs
  whole : (fullBlocks tier.intervalSecs samples).flatten =
    samples.take (samples.length / tier.intervalSecs * tier.intervalSecs)

theorem showsBlocks_of_points
    (h : List.Forall₂ (Consolidates method)
      (lastN tier.capacity (fullBlocks tier.intervalSecs samples)) points) :
    ShowsBlocks method samples tier points := by
  have hpos : 0 < tier.intervalSecs := by cases tier <;> decide
  have hcut := fullBlocks_cut hpos samples
  constructor
  · exact h
  · rw [← h.length_eq, length_lastN, hcut.count]
  · exact hcut.size
  · exact flatten_take_blocks _ _ _

theorem shows_of_level (h : Level tier method ins outs acc ring) (hins : Cut k samples ins rest)
    (hsize : k * tier.consolidationRatio = tier.intervalSecs) :
    ShowsBlocks method samples tier ring.values := by
  obtain ⟨rest', hcut⟩ := h.blocks hins
  apply showsBlocks_of_points
  rw [← hsize, ← hcut.eq_fullBlocks]
  exact h.shown

/-- Consolidation is exact in every tier, and the latest value is the last one recorded. -/
theorem consolidation_exact (method : Aggregation) (samples : List Sample) :
    (∀ tier, ShowsBlocks method samples tier
      ((MetricSeries.recordAll method samples).getTier tier)) ∧
      (MetricSeries.recordAll method samples).latest = samples.getLast?.map Sample.value := by
  have h := tracks_recordAll method samples
  obtain ⟨short, mid, long, hshort, hmid, hlong⟩ := h.levels
  have hsingle := Cut.singletons samples
  obtain ⟨rest, hcutShort⟩ := hshort.blocks hsingle
  obtain ⟨rest', hcutMid⟩ := hmid.blocks hcutShort
  constructor
  · intro tier
    cases tier with
    | live =>
      apply showsBlocks_of_points
      have hblocks : fullBlocks Tier.live.intervalSecs samples = samples.map fun x => [x] :=
        hsingle.eq_fullBlocks.symm
      change List.Forall₂ _ _ (MetricSeries.recordAll method samples).live.values
      rw [hblocks, h.live.values_eq, h.capacity, lastN, lastN, List.length_map, List.length_map,
        ← List.map_drop, ← List.map_drop, List.forall₂_map_left_iff, List.forall₂_map_right_iff,
        List.forall₂_same]
      intro s _
      exact .new method s
    | short => exact shows_of_level hshort hsingle rfl
    | mid => exact shows_of_level hmid hcutShort rfl
    | long => exact shows_of_level hlong hcutMid rfl
  · rw [MetricSeries.latest, h.live.latest_eq, List.getLast?_map, Option.map_map]
    rfl

end AiFw.Metrics
