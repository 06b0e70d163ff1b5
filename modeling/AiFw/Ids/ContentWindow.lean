import AiFw.Ids.Engine
import AiFw.Ids.Matching
import AiFw.Ids.RuleOptions

namespace AiFw.Ids
open AiFw.Lib

set_option autoImplicit true

/-- `slice[start..end]`, which panics where the bounds are out of order or beyond the data. -/
def sliceChecked (start stop : Nat) (data : List α) : Option (List α) :=
  if start ≤ stop ∧ stop ≤ data.length then some (slice start stop data) else none

/-- `content_match` with the panics of its slice. -/
def contentMatchChecked (content : ContentMatch) (data : Bytes) : Option Bool :=
  let pattern := if content.nocase then toAsciiLowercase content.pattern else content.pattern
  let searchData := if content.nocase then toAsciiLowercase data else data
  let start := content.offset.getD 0
  let stop := match content.depth with
    | some d => min (start + d).toNat searchData.length
    | none => searchData.length
  if start.toNat ≥ searchData.length ∨ stop ≤ start.toNat then some false
  else (sliceChecked start.toNat stop searchData).map (containsPattern pattern)

namespace ContentMatch
variable (content : ContentMatch)

/-- The bytes that count as those of the pattern. -/
def folds (a : Bytes) : Bytes := if content.nocase then toAsciiLowercase a else a

/-- A place for the pattern in the data, with the sum of offset and depth as a number. -/
structure OccursAt (data : Bytes) (i : Nat) : Prop where
  offset : (content.offset.getD 0).toNat ≤ i
  inside : i + content.pattern.length ≤ data.length
  depth : ∀ d ∈ content.depth, i + content.pattern.length ≤ (content.offset.getD 0).toNat + d.toNat
  same : content.folds (slice i (i + content.pattern.length) data) = content.folds content.pattern

/-- Offset and depth add up to a machine word. -/
def SumFits : Prop := ∀ d ∈ content.depth, (content.offset.getD 0).toNat + d.toNat < 2 ^ 64

end ContentMatch

theorem containsPattern_iff {pattern : Bytes} (hne : pattern ≠ []) (searchRange : Bytes) :
    containsPattern pattern searchRange = true ↔ pattern <:+: searchRange := by
  constructor
  · exact infix_of_containsPattern
  · intro h
    have hwindow := mem_windows_of_infix hne h
    cases pattern with
    | nil => exact absurd rfl hne
    | cons b rest =>
      cases rest with
      | nil =>
        rw [containsPattern, List.contains_iff_mem]
        exact h.subset List.mem_cons_self
      | cons c rest => exact List.any_eq_true.mpr ⟨_, hwindow, beq_self_eq_true _⟩

namespace ContentMatch
variable (content : ContentMatch)

/-- The end of the window in data of some length; the sum wraps. -/
def searchEnd (length : Nat) : Nat :=
  match content.depth with
  | some d => min (content.offset.getD 0 + d).toNat length
  | none => length

theorem searchEnd_le (length : Nat) : content.searchEnd length ≤ length := by
  unfold searchEnd
  cases content.depth with
  | none => exact Nat.le_refl _
  | some d => exact Nat.min_le_right _ _

theorem length_folds (a : Bytes) : (content.folds a).length = a.length := by
  unfold folds
  cases content.nocase with
  | false => rfl
  | true => exact List.length_map _

theorem folds_slice (start stop : Nat) (a : Bytes) :
    content.folds (slice start stop a) = slice start stop (content.folds a) := by
  unfold folds slice
  cases content.nocase with
  | false => rfl
  | true =>
    simp only [if_true, toAsciiLowercase, List.map_drop, List.map_take]

theorem folds_ne_nil {a : Bytes} (h : a ≠ []) : content.folds a ≠ [] := by
  intro hnil
  have hlength := content.length_folds a
  rw [hnil] at hlength
  exact h (List.eq_nil_of_length_eq_zero hlength.symm)

end ContentMatch

theorem contentMatch_eq (content : ContentMatch) (data : Bytes) :
    contentMatch content data =
      if (content.offset.getD 0).toNat ≥ data.length ∨
          content.searchEnd data.length ≤ (content.offset.getD 0).toNat then false
      else containsPattern (content.folds content.pattern)
        (slice (content.offset.getD 0).toNat (content.searchEnd data.length)
          (content.folds data)) := by
  have hlower : (toAsciiLowercase data).length = data.length := List.length_map _
  unfold contentMatch ContentMatch.folds
  cases content.nocase with
  | false => rfl
  | true =>
    exact congrArg (fun n => if (content.offset.getD 0).toNat ≥ n ∨
        content.searchEnd n ≤ (content.offset.getD 0).toNat then false
      else containsPattern (toAsciiLowercase content.pattern)
        (slice (content.offset.getD 0).toNat (content.searchEnd n) (toAsciiLowercase data))) hlower

theorem contentMatchChecked_eq_slice (content : ContentMatch) (data : Bytes) :
    contentMatchChecked content data =
      if (content.offset.getD 0).toNat ≥ data.length ∨
          content.searchEnd data.length ≤ (content.offset.getD 0).toNat then some false
      else (sliceChecked (content.offset.getD 0).toNat (content.searchEnd data.length)
        (content.folds data)).map (containsPattern (content.folds content.pattern)) := by
  have hlower : (toAsciiLowercase data).length = data.length := List.length_map _
  unfold contentMatchChecked ContentMatch.folds ContentMatch.searchEnd
  cases content.nocase with
  | false => rfl
  | true =>
    simp only [if_true, hlower]

/-- The bounds of the slice are always in order. -/
theorem contentMatchChecked_eq (content : ContentMatch) (data : Bytes) :
    contentMatchChecked content data = some (contentMatch content data) := by
  rw [contentMatchChecked_eq_slice, contentMatch_eq]
  split
  · rfl
  · next hbounds =>
    rw [not_or, Nat.not_le, Nat.not_le] at hbounds
    have hend : content.searchEnd data.length ≤ (content.folds data).length := by
      rw [content.length_folds]
      exact content.searchEnd_le data.length
    rw [sliceChecked, if_pos ⟨hbounds.2.le, hend⟩, Option.map_some]

/-- Below the word size the sum of offset and depth is the number it should be. -/
theorem ContentMatch.le_searchEnd_iff {content : ContentMatch} (h : content.SumFits) :
    n ≤ content.searchEnd length ↔
      n ≤ length ∧ ∀ d ∈ content.depth, n ≤ (content.offset.getD 0).toNat + d.toNat := by
  unfold ContentMatch.SumFits at h
  unfold ContentMatch.searchEnd
  cases hdepth : content.depth with
  | none => exact ⟨fun hn => ⟨hn, fun d hd => nomatch hd⟩, fun hn => hn.1⟩
  | some d =>
    have hsum : (content.offset.getD 0 + d).toNat = (content.offset.getD 0).toNat + d.toNat := by
      rw [UInt64.toNat_add, Nat.mod_eq_of_lt (h d hdepth)]
    dsimp only
    rw [hsum, Nat.le_min]
    constructor
    · rintro ⟨hn, hlength⟩
      refine ⟨hlength, ?_⟩
      rintro _ ⟨⟩
      exact hn
    · exact fun hn => ⟨hn.2 d rfl, hn.1⟩

/-- Beyond it the window is empty. -/
theorem ContentMatch.searchEnd_of_not_sumFits {content : ContentMatch} (h : ¬content.SumFits)
    (length : Nat) : content.searchEnd length ≤ (content.offset.getD 0).toNat := by
  unfold ContentMatch.SumFits at h
  unfold ContentMatch.searchEnd
  cases hdepth : content.depth with
  | none =>
    rw [hdepth] at h
    exact absurd (fun d hd => nomatch hd) h
  | some d =>
    have hover : ¬(content.offset.getD 0).toNat + d.toNat < 2 ^ 64 := by
      intro hlt
      apply h
      rw [hdepth]
      rintro _ ⟨⟩
      exact hlt
    have hoffset := (content.offset.getD 0).toNat_lt
    have hd := d.toNat_lt
    dsimp only
    rw [UInt64.toNat_add]
    omega

theorem contentMatch_iff {content : ContentMatch} (hne : content.pattern ≠ []) (data : Bytes) :
    contentMatch content data = true ↔ content.SumFits ∧ ∃ i, content.OccursAt data i := by
  have hpos := List.length_pos_iff.mpr hne
  rw [contentMatch_eq]
  by_cases hfits : content.SumFits
  · rw [and_iff_right hfits, ite_eq_iff, or_iff_right (fun h => Bool.false_ne_true h.2),
      containsPattern_iff (content.folds_ne_nil hne), infix_slice_iff (content.folds_ne_nil hne)]
    simp only [content.length_folds, ← content.folds_slice, ContentMatch.le_searchEnd_iff hfits]
    constructor
    · rintro ⟨-, i, hstart, ⟨hinside, hdepth⟩, -, hsame⟩
      exact ⟨i, hstart, hinside, hdepth, hsame⟩
    · rintro ⟨i, hstart, hinside, hdepth, hsame⟩
      have hend := (ContentMatch.le_searchEnd_iff hfits).mpr ⟨hinside, hdepth⟩
      refine ⟨?_, i, hstart, ⟨hinside, hdepth⟩, hinside, hsame⟩
      omega
  · rw [if_pos (.inr (ContentMatch.searchEnd_of_not_sumFits hfits data.length))]
    exact iff_of_false Bool.false_ne_true fun h => hfits h.1

/-- Without a window the pattern is looked for in all of the data, and not at all if that is
empty. -/
theorem contentMatch_anywhere_iff {content : ContentMatch} (hoffset : content.offset.getD 0 = 0)
    (hdepth : content.depth = none) (data : Bytes) :
    contentMatch content data = true ↔
      data ≠ [] ∧ content.folds content.pattern <:+: content.folds data := by
  have hslice : slice 0 data.length (content.folds data) = content.folds data := by
    rw [slice_eq, List.drop_zero, Nat.sub_zero, ← content.length_folds data, List.take_length]
  have hend : content.searchEnd data.length = data.length := by
    rw [ContentMatch.searchEnd, hdepth]
  have hstart : (content.offset.getD 0).toNat = 0 := by
    rw [hoffset]
    rfl
  rw [contentMatch_eq, hend, hstart, hslice]
  by_cases hdata : data = []
  · rw [if_pos (.inl (by rw [hdata]; exact Nat.le_refl 0))]
    exact iff_of_false Bool.false_ne_true fun h => h.1 hdata
  · have hpos := List.length_pos_iff.mpr hdata
    rw [if_neg (by omega), and_iff_right hdata]
    by_cases hne : content.pattern = []
    · have hfolds : content.folds content.pattern = [] := by
        apply List.eq_nil_of_length_eq_zero
        rw [content.length_folds, hne]
        rfl
      rw [hfolds]
      exact iff_of_true rfl List.nil_infix
    · exact containsPattern_iff (content.folds_ne_nil hne) _

theorem contentMatch_pattern_iff {content : ContentMatch} (hoffset : content.offset.getD 0 = 0)
    (hdepth : content.depth = none) (hne : content.pattern ≠ []) (data : Bytes) :
    contentMatch content data = true ↔ content.folds content.pattern <:+: content.folds data := by
  rw [contentMatch_anywhere_iff hoffset hdepth, and_iff_right_iff_imp]
  intro h hdata
  have hlength := h.length_le
  rw [content.length_folds, content.length_folds, hdata] at hlength
  exact hne (List.eq_nil_of_length_eq_zero (Nat.le_zero.mp hlength))

/-- What a content asks of the data by itself. An empty pattern still asks for a window that is not
empty. -/
structure ContentMatch.Placed (content : ContentMatch) (data : Bytes) : Prop where
  fits : content.SumFits
  starts : (content.offset.getD 0).toNat < data.length
  depth : content.depth ≠ some 0
  occurs : ∃ i, content.OccursAt data i

theorem contentMatch_empty {content : ContentMatch} (hnil : content.pattern = []) (data : Bytes) :
    contentMatch content data = true ↔ content.Placed data := by
  have hfolds : content.folds content.pattern = [] := by
    rw [hnil]
    exact List.eq_nil_of_length_eq_zero (content.length_folds [])
  rw [contentMatch_eq, hfolds]
  constructor
  · intro h
    rw [ite_eq_iff, or_iff_right fun h => Bool.false_ne_true h.2] at h
    obtain ⟨hbounds, -⟩ := h
    rw [not_or, Nat.not_le, Nat.not_le] at hbounds
    have hfits : content.SumFits := by
      by_contra hfits
      exact absurd hbounds.2
        (Nat.not_lt_of_le (ContentMatch.searchEnd_of_not_sumFits hfits data.length))
    have hdepth := ((ContentMatch.le_searchEnd_iff hfits).mp hbounds.2).2
    refine ⟨hfits, hbounds.1, ?_, (content.offset.getD 0).toNat, Nat.le_refl _, ?_, ?_, ?_⟩
    · intro hzero
      exact absurd (hdepth 0 hzero) (Nat.lt_irrefl _)
    · rw [hnil]
      exact hbounds.1.le
    · rw [hnil]
      exact fun d _ => Nat.le_add_right _ _
    · rw [hnil, List.length_nil, Nat.add_zero, slice_eq, Nat.sub_self, List.take_zero]
  · rintro ⟨hfits, hstarts, hdepth, -⟩
    have hend : (content.offset.getD 0).toNat + 1 ≤ content.searchEnd data.length := by
      apply (ContentMatch.le_searchEnd_iff hfits).mpr
      refine ⟨hstarts, ?_⟩
      intro d hd
      have hpos : d.toNat ≠ 0 := by
        intro hzero
        apply hdepth
        rw [Option.mem_def.mp hd]
        exact congrArg some (UInt64.toNat_inj.mp hzero)
      omega
    rw [if_neg]
    · rfl
    · omega

theorem contentMatch_placed (content : ContentMatch) (data : Bytes) :
    contentMatch content data = true ↔ content.Placed data := by
  by_cases hnil : content.pattern = []
  · exact contentMatch_empty hnil data
  · rw [contentMatch_iff hnil]
    have hpos := List.length_pos_iff.mpr hnil
    constructor
    · rintro ⟨hfits, i, hi⟩
      have hoffset := hi.offset
      have hinside := hi.inside
      refine ⟨hfits, by omega, ?_, i, hi⟩
      intro hzero
      have hdepth : i + content.pattern.length ≤ (content.offset.getD 0).toNat + 0 :=
        hi.depth 0 hzero
      omega
    · exact fun h => ⟨h.fits, h.occurs⟩

/-- A content is matched by its definition, and without a panic, exactly if its offset and depth add
up to a machine word or it has no place in the data. -/
theorem contentMatch_meets_iff (content : ContentMatch) (data : Bytes) (hne : content.pattern ≠ []) :
    (∃ matched, contentMatchChecked content data = some matched ∧
        (matched = true ↔ ∃ i, content.OccursAt data i)) ↔
      content.SumFits ∨ ¬∃ i, content.OccursAt data i := by
  have hmatched : (∃ matched, contentMatchChecked content data = some matched ∧
      (matched = true ↔ ∃ i, content.OccursAt data i)) ↔
        (contentMatch content data = true ↔ ∃ i, content.OccursAt data i) := by
    rw [contentMatchChecked_eq]
    constructor
    · rintro ⟨matched, ⟨⟩, hiff⟩
      exact hiff
    · exact fun hiff => ⟨_, rfl, hiff⟩
  rw [hmatched, contentMatch_iff hne]
  by_cases hfits : content.SumFits
  · exact iff_of_true (and_iff_right hfits) (.inl hfits)
  · rw [or_iff_right hfits]
    constructor
    · exact fun hiff hoccurs => hfits (hiff.mpr hoccurs).1
    · exact fun hnone => iff_of_false (fun h => hfits h.1) hnone

/-- An `A` after the first byte, with as much depth as a rule can ask for. -/
def unboundedDepth : ContentMatch :=
  { ContentMatch.text [0x41] with offset := some 1, depth := some 0xFFFFFFFFFFFFFFFF }

def smallDepth : ContentMatch := { unboundedDepth with depth := some 5 }

theorem contentMatch_meets_smallDepth : [0x41] ≠ ([] : Bytes) ∧
    ((∃ matched, contentMatchChecked smallDepth [0x78, 0x41] = some matched ∧
        (matched = true ↔ ∃ i, smallDepth.OccursAt [0x78, 0x41] i)) ↔
      smallDepth.SumFits ∨ ¬∃ i, smallDepth.OccursAt [0x78, 0x41] i) :=
  ⟨List.cons_ne_nil _ _, contentMatch_meets_iff smallDepth [0x78, 0x41] (List.cons_ne_nil _ _)⟩

/-- The sum of offset and depth wraps, and the byte is not found. -/
theorem content_lost_by_wrap : ¬∀ (content : ContentMatch) (data : Bytes), content.pattern ≠ [] →
    ∃ matched, contentMatchChecked content data = some matched ∧
      (matched = true ↔ ∃ i, content.OccursAt data i) := by
  intro h
  obtain ⟨matched, hchecked, hiff⟩ := h unboundedDepth [0x78, 0x41] (List.cons_ne_nil _ _)
  have hoccurs : unboundedDepth.OccursAt [0x78, 0x41] 1 := by
    refine ⟨by decide, by decide, ?_, by decide⟩
    rintro _ ⟨⟩
    decide
  have hlost : contentMatchChecked unboundedDepth [0x78, 0x41] = some false := by decide
  rw [hlost] at hchecked
  cases hchecked
  exact Bool.false_ne_true (hiff.mpr ⟨1, hoccurs⟩)

/-- The part of `evaluate_rule` that checks the contents. -/
def contentStage (rule : CompiledRule) (packet : DecodedPacket) (flow : Option Flow)
    (direction : FlowDirection) (stickyBuffers : StickyBuffers) : Bool :=
  rule.contents.all fun content =>
    contentMatch content (contentData packet flow direction stickyBuffers content.buffer)
      != content.negated

theorem contentStage_of_evaluateRule {m : Matchers} {ruleset : Option CompiledRuleset}
    {rule : CompiledRule} {packet : DecodedPacket} {flow : Option Flow} {direction : FlowDirection}
    {stickyBuffers : StickyBuffers}
    (h : evaluateRule m ruleset rule packet flow direction stickyBuffers = true) :
    contentStage rule packet flow direction stickyBuffers = true := by
  unfold evaluateRule at h
  rw [Bool.and_eq_true, Bool.and_eq_true] at h
  exact h.1.2

namespace ContentMatch

/-- The pattern is in the data at this place, inside or outside of its window. -/
def PatternAt (content : ContentMatch) (data : Bytes) (i : Nat) : Prop :=
  i + content.pattern.length ≤ data.length ∧
    content.folds (slice i (i + content.pattern.length) data) = content.folds content.pattern

/-- The distance and the width that the second content asks for, from the end of the first. -/
structure Spaced (first second : ContentMatch) (i j : Nat) : Prop where
  distance : ∀ d ∈ second.distance, ((i + first.pattern.length : Nat) : Int) + d.toInt ≤ j
  within : ∀ w ∈ second.within,
    j + second.pattern.length ≤ i + first.pattern.length + w.toNat

/-- Occurrences of two contents, each in its own data, that are spaced as asked. -/
def SpacedIn (first second : ContentMatch) (data data' : Bytes) : Prop :=
  ∃ i j, first.PatternAt data i ∧ second.PatternAt data' j ∧ Spaced first second i j

/-- The windows of two contents alone keep them apart as asked: the first ends early enough for the
distance, and the second for the width. -/
structure WindowsSpaced (first second : ContentMatch) : Prop where
  found : first.negated = false ∧ second.negated = false
  distance : ∀ d ∈ second.distance, ∃ depth ∈ first.depth,
    (((first.offset.getD 0).toNat + depth.toNat : Nat) : Int) + d.toInt ≤
      ((second.offset.getD 0).toNat : Nat)
  within : ∀ w ∈ second.within, ∃ depth ∈ second.depth,
    (second.offset.getD 0).toNat + depth.toNat ≤
      (first.offset.getD 0).toNat + first.pattern.length + w.toNat

/-- No data have a place for the content, though one is asked for. -/
structure Unmatchable (content : ContentMatch) : Prop where
  found : content.negated = false
  window : ¬content.SumFits ∨ ∃ d ∈ content.depth, d = 0 ∨ d.toNat < content.pattern.length

theorem Unmatchable.not_placed {content : ContentMatch} (h : content.Unmatchable) (data : Bytes) :
    ¬content.Placed data := by
  rintro ⟨hfits, -, hzero, i, hi⟩
  rcases h.window with hwide | ⟨d, hd, rfl | hshort⟩
  · exact hwide hfits
  · exact hzero hd
  · have hoffset := hi.offset
    have hdepth := hi.depth d hd
    omega

/-- Whatever places they have, contents with such windows are spaced as asked. -/
theorem WindowsSpaced.spacedIn {first second : ContentMatch} (h : first.WindowsSpaced second)
    (hfirst : first.Placed data) (hsecond : second.Placed data') :
    first.SpacedIn second data data' := by
  obtain ⟨i, hi⟩ := hfirst.occurs
  obtain ⟨j, hj⟩ := hsecond.occurs
  have hstart := hi.offset
  have hstart' := hj.offset
  refine ⟨i, j, ⟨hi.inside, hi.same⟩, ⟨hj.inside, hj.same⟩, ?_, ?_⟩
  · intro d hd
    obtain ⟨depth, hdepth, hroom⟩ := h.distance d hd
    have hend := hi.depth depth hdepth
    omega
  · intro w hw
    obtain ⟨depth, hdepth, hroom⟩ := h.within w hw
    have hend := hj.depth depth hdepth
    omega

def unspaced (content : ContentMatch) : ContentMatch :=
  { content with distance := none, within := none }

/-- The content is as it should be if nothing is asked of it but its own window. -/
def HoldsAlone (content : ContentMatch) (data : Bytes) : Prop :=
  content.negated = true ↔ ¬content.Placed data

end ContentMatch

section
variable (rule : CompiledRule) (packet : DecodedPacket) (flow : Option Flow)
  (direction : FlowDirection) (stickyBuffers : StickyBuffers)

theorem contentStage_iff : contentStage rule packet flow direction stickyBuffers = true ↔
    ∀ content ∈ rule.contents,
      content.HoldsAlone (contentData packet flow direction stickyBuffers content.buffer) := by
  unfold contentStage
  rw [List.all_eq_true]
  apply forall₂_congr
  intro content _
  have hplaced := contentMatch_placed content
    (contentData packet flow direction stickyBuffers content.buffer)
  rw [bne_iff_ne, ContentMatch.HoldsAlone, ← hplaced]
  cases content.negated with
  | false => simp
  | true => simp

/-- What is stored for the spacing has no part in the verdict. -/
theorem contentStage_unspaced : contentStage rule packet flow direction stickyBuffers =
    contentStage { rule with contents := rule.contents.map ContentMatch.unspaced } packet flow
      direction stickyBuffers := by
  unfold contentStage
  rw [List.all_map]
  rfl

/-- The spacing is kept to on every payload where the windows of the two contents see to it, or
some content of the rule can never be found. -/
theorem spacing_kept_of_windows {first second : ContentMatch} {rest : List ContentMatch}
    (hcontents : rule.contents = first :: second :: rest)
    (h : first.WindowsSpaced second ∨ ∃ content ∈ rule.contents, content.Unmatchable)
    (hstage : contentStage rule packet flow direction stickyBuffers = true) :
    first.SpacedIn second (contentData packet flow direction stickyBuffers first.buffer)
      (contentData packet flow direction stickyBuffers second.buffer) := by
  rw [contentStage_iff] at hstage
  have hplaced : ∀ content ∈ rule.contents, content.negated = false →
      content.Placed (contentData packet flow direction stickyBuffers content.buffer) := by
    intro content hmem hfound
    by_contra hnot
    have hnegated := (hstage content hmem).mpr hnot
    rw [hfound] at hnegated
    cases hnegated
  rcases h with hwindows | ⟨content, hmem, hnone⟩
  · apply hwindows.spacedIn
    · exact hplaced first (hcontents ▸ List.mem_cons_self) hwindows.found.1
    · exact hplaced second (hcontents ▸ List.mem_cons_of_mem _ List.mem_cons_self) hwindows.found.2
  · exact absurd (hplaced content hmem hnone.found) (hnone.not_placed _)

end

/-- `CD` right behind `AB` at the start of the payload, said twice: by windows and by the spacing. -/
def windowedText : List Char :=
  "alert tcp any any -> any any (msg:\"x\"; ".toList ++ "content:\"AB\"; depth:2; ".toList ++
    "content:\"CD\"; offset:2; depth:2; distance:0; within:2; sid:1;)".toList

def windowedFirst : ContentMatch := { ContentMatch.text [0x41, 0x42] with depth := some 2 }

def windowedSecond : ContentMatch :=
  { ContentMatch.text [0x43, 0x44] with
    offset := some 2, depth := some 2, distance := some 0, within := some 2 }

theorem spacing_kept_windowed : ∃ rule, parseRule windowedText .custom = some (.ok rule) ∧
    contentStage rule.toCompiledRule (tcpPacket [0x41, 0x42, 0x43, 0x44]) none .toServer ∅ = true ∧
    windowedFirst.SpacedIn windowedSecond [0x41, 0x42, 0x43, 0x44] [0x41, 0x42, 0x43, 0x44] := by
  have hparse : (parseRule windowedText .custom).map (fun r => r.toOption.map fun rule =>
      rule.contents) = some (some [windowedFirst, windowedSecond]) := by decide +kernel
  obtain ⟨rule, hline, hcontents⟩ := exists_of_parsed hparse
  have haccept : contentStage rule.toCompiledRule (tcpPacket [0x41, 0x42, 0x43, 0x44]) none
      .toServer ∅ = true := by
    rw [contentStage, hcontents]
    decide +kernel
  have hwindows : windowedFirst.WindowsSpaced windowedSecond := by
    refine ⟨⟨rfl, rfl⟩, ?_, ?_⟩
    · rintro _ ⟨⟩
      exact ⟨2, rfl, by decide⟩
    · rintro _ ⟨⟩
      exact ⟨2, rfl, by decide⟩
  exact ⟨rule, hline, haccept,
    spacing_kept_of_windows rule.toCompiledRule _ none .toServer ∅ hcontents (.inl hwindows) haccept⟩

def spacedText : List Char :=
  "alert tcp any any -> any any (msg:\"x\"; content:\"AB\"; content:\"CD\"; distance:0; sid:1;)".toList

def spacedContents : List ContentMatch :=
  [.text [0x41, 0x42], { ContentMatch.text [0x43, 0x44] with distance := some 0 }]

def swapped : DecodedPacket := tcpPacket [0x43, 0x44, 0x41, 0x42]

/-- The second pattern is found before the first. -/
theorem distance_ignored : ¬∀ (line : List Char) (source : RuleSource) (rule : SuricataRule)
    (first second : ContentMatch) (rest : List ContentMatch),
    parseRule line source = some (.ok rule) → rule.contents = first :: second :: rest →
    second.distance.isSome ∨ second.within.isSome →
    ∀ (packet : DecodedPacket) (flow : Option Flow) (direction : FlowDirection)
      (stickyBuffers : StickyBuffers),
      contentStage rule.toCompiledRule packet flow direction stickyBuffers = true →
      first.SpacedIn second (contentData packet flow direction stickyBuffers first.buffer)
        (contentData packet flow direction stickyBuffers second.buffer) := by
  intro h
  have hparse : (parseRule spacedText .custom).map (fun r => r.toOption.map fun rule =>
      rule.contents) = some (some spacedContents) := by decide +kernel
  obtain ⟨rule, hline, hcontents⟩ := exists_of_parsed hparse
  have haccept : contentStage rule.toCompiledRule swapped none .toServer ∅ = true := by
    rw [contentStage, hcontents]
    decide +kernel
  obtain ⟨i, j, ⟨hi, -⟩, ⟨hj, hsecond⟩, hspaced⟩ := h spacedText .custom rule _ _ _
    hline hcontents (.inl rfl) _ none .toServer ∅ haccept
  have hdistance : ((i + 2 : Nat) : Int) + 0 ≤ j := hspaced.distance 0 rfl
  have hinside : j + 2 ≤ 4 := hj
  have hplace : j = 2 := by omega
  subst hplace
  revert hsecond
  decide

end AiFw.Ids
