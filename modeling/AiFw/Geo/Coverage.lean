import AiFw.Geo.Merging

namespace AiFw.Geo
open AiFw.Lib AiFw.Net
set_option autoImplicit true

/-- The address is in some network of the list. -/
def Covers (nets : List Cidr) (addr : IpAddr) : Prop := ∃ e ∈ nets, e.Holds addr

instance (nets : List Cidr) (addr : IpAddr) : Decidable (Covers nets addr) :=
  inferInstanceAs (Decidable (∃ e ∈ nets, e.Holds addr))

theorem covers_cons : Covers (e :: nets) addr ↔ e.Holds addr ∨ Covers nets addr := by
  simp only [Covers, List.mem_cons, exists_eq_or_imp]

theorem Merged.holds_iff (h : Merged a b c) (hne : ¬ b.block ⊆ a.block) (ha : a.InRange) (hb : b.InRange)
    (hfam : a.ip.isIpv4 = b.ip.isIpv4) : c.Holds addr ↔ a.Holds addr ∨ b.Holds addr := by
  rw [Cidr.holds_iff h.inRange, Cidr.holds_iff ha, Cidr.holds_iff hb, h.family, h.union hne, ← hfam,
    Set.mem_union, and_or_left]

section Merging

variable (K : List Cidr)

/-- The entries of one family inside a set make it up. -/
def BuiltFrom (isV4 : Bool) (s : Set Nat) : Prop :=
  ∀ x ∈ s, ∃ e ∈ K, e.ip.isIpv4 = isV4 ∧ e.block ⊆ s ∧ x ∈ e.block

/-- No block has one half made up of IPv4 entries and the other of IPv6 entries. -/
def FamiliesApart : Prop :=
  ∀ k x y, y ∈ block (k + 1) x → y ∉ block k x →
    ¬ (BuiltFrom K true (block k x) ∧ BuiltFrom K false (block k y))

/-- The entries other than those of prefix length zero leave a number of the space free. -/
def LeavesSpace : Prop := ∃ x < 2 ^ 128, ∀ e ∈ K, 0 < e.prefixLen.toNat → x ∉ e.block

variable {K}

theorem BuiltFrom.union (hs : BuiltFrom K f s) (ht : BuiltFrom K f t) : BuiltFrom K f (s ∪ t) := by
  intro x hx
  rcases hx with hx | hx
  · obtain ⟨e, he, hf, hsub, hxe⟩ := hs x hx
    exact ⟨e, he, hf, hsub.trans Set.subset_union_left, hxe⟩
  · obtain ⟨e, he, hf, hsub, hxe⟩ := ht x hx
    exact ⟨e, he, hf, hsub.trans Set.subset_union_right, hxe⟩

theorem builtFrom_of_mem (h : e ∈ K) : BuiltFrom K e.ip.isIpv4 e.block :=
  fun _ hx => ⟨e, h, rfl, subset_rfl, hx⟩

theorem FamiliesApart.isIpv4_eq (h : FamiliesApart K) (hp : y ∈ block (k + 1) x) (hne : y ∉ block k x)
    (hx : BuiltFrom K f (block k x)) (hy : BuiltFrom K g (block k y)) : f = g := by
  cases f <;> cases g
  · rfl
  · exact absurd ⟨hy, hx⟩ (h k y x (mem_block_comm.mp hp) (fun hm => hne (mem_block_comm.mp hm)))
  · exact absurd ⟨hx, hy⟩ (h k x y hp hne)
  · rfl

/-- The invariant of the merge loop: every element is made up of entries of its own family, and
none is covered by the ones before it. -/
structure Sound (K : List Cidr) (seen : Set Nat) (l : List Cidr) : Prop where
  fresh : Fresh seen (l.map Cidr.block)
  inRange : ∀ e ∈ l, e.InRange
  built : ∀ e ∈ l, BuiltFrom K e.ip.isIpv4 e.block

theorem Sound.tail (h : Sound K seen (a :: l)) : Sound K (seen ∪ a.block) l :=
  ⟨h.fresh.2, fun e he => h.inRange e (List.mem_cons_of_mem _ he),
    fun e he => h.built e (List.mem_cons_of_mem _ he)⟩

theorem Sound.cons (h : Sound K (seen ∪ a.block) l) (hnew : ¬ a.block ⊆ seen) (hr : a.InRange)
    (hb : BuiltFrom K a.ip.isIpv4 a.block) : Sound K seen (a :: l) :=
  ⟨⟨hnew, h.fresh⟩, List.forall_mem_cons.mpr ⟨hr, h.inRange⟩, List.forall_mem_cons.mpr ⟨hb, h.built⟩⟩

/-- Two neighbours that are halves of the whole space would leave no number free. -/
theorem Sound.prefixLen_ne_one (h : Sound K seen (a :: b :: l)) (hspace : LeavesSpace K)
    (hsame : a.prefixLen = b.prefixLen) : a.prefixLen.toNat ≠ 1 := by
  intro hone
  obtain ⟨x, hx, hfree⟩ := hspace
  have hla : a.level = 127 := by rw [Cidr.level, hone]
  have hlb : b.level = 127 := by rw [Cidr.level, ← hsame, hone]
  have hdiff : place b.ip ∉ block 127 (place a.ip) := by
    intro hin
    apply h.fresh.not_subset_head
    rw [Cidr.block, Cidr.block, hla, hlb]
    exact block_subset (Nat.le_refl _) hin
  have hall {y z : Nat} (hy : y < 2 ^ 128) (hz : z < 2 ^ 128) : y ∈ block 128 z :=
    (Nat.div_eq_of_lt hy).trans (Nat.div_eq_of_lt hz).symm
  have hwhole := block_succ_eq_union (hall (place_lt b.ip) (place_lt a.ip)) hdiff
  have hcov : x ∈ a.block ∪ b.block := by
    rw [Cidr.block, Cidr.block, hla, hlb, ← hwhole]
    exact hall hx (place_lt a.ip)
  have hno (c : Cidr) (hc : c ∈ a :: b :: l) (hlc : c.level = 127) : x ∉ c.block := by
    intro hxc
    obtain ⟨e, he, -, hsub, hxe⟩ := h.built c hc x hxc
    have hle := le_of_block_subset hsub
    rw [hlc, Cidr.level] at hle
    exact hfree e he (by omega) hxe
  rcases hcov with hxa | hxb
  · exact hno a List.mem_cons_self hla hxa
  · exact hno b (List.mem_cons_of_mem _ List.mem_cons_self) hlb hxb

variable (hfam : FamiliesApart K) (hspace : LeavesSpace K)

include hspace in
theorem Sound.mergePairOverflows_eq_false (h : Sound K seen (a :: b :: l)) :
    mergePairOverflows a b = false := by
  by_cases hsame : a.prefixLen = b.prefixLen
  · have hone := h.prefixLen_ne_one hspace hsame
    have hp := (h.inRange a List.mem_cons_self).le
    have hlt : ¬ 128 < a.prefixLen := fun hlt => absurd (UInt8.lt_iff_toNat_lt.mp hlt) (Nat.not_lt.mpr hp)
    by_cases hpos : 0 < a.prefixLen
    · have hpos' : 0 < a.prefixLen.toNat := UInt8.lt_iff_toNat_lt.mp hpos
      have hamount : ¬ 128 ≤ (128 - a.prefixLen + 1).toNat := by
        rw [toNat_parent_amount hp]
        omega
      rw [mergePairOverflows, decide_eq_false hlt, decide_eq_false hamount, Bool.or_self, Bool.and_false]
    · rw [mergePairOverflows, decide_eq_false hpos, Bool.and_false, Bool.false_and]
  · rw [mergePairOverflows, decide_eq_false hsame, Bool.false_and, Bool.false_and]

include hfam hspace in
/-- In a sound list the code only merges two halves of one block of one family. -/
theorem Sound.merged (h : Sound K seen (a :: b :: l)) (hm : mergePair a b = some c) :
    Merged a b c ∧ a.ip.isIpv4 = b.ip.isIpv4 := by
  obtain ⟨hsame, hpos⟩ := mergePair_some_prefix hm
  have hone := h.prefixLen_ne_one hspace hsame
  have hmerged := mergePair_eq_some (h.inRange a List.mem_cons_self) (by omega) hm
  have hlevel : b.level = a.level := by rw [Cidr.level, Cidr.level, hsame]
  have hout : place b.ip ∉ block a.level (place a.ip) := fun hin =>
    h.fresh.not_subset_head (block_subset (Nat.le_of_eq hlevel) hin)
  have hb := h.built b (List.mem_cons_of_mem _ List.mem_cons_self)
  rw [Cidr.block, hlevel] at hb
  exact ⟨hmerged, hfam.isIpv4_eq hmerged.meets hout (h.built a List.mem_cons_self) hb⟩

include hfam hspace in
theorem mergePass_sound (h : Sound K seen l) :
    Sound K seen (mergePass l).1 ∧ (∀ addr, Covers (mergePass l).1 addr ↔ Covers l addr) ∧
      mergePassOverflows l = false := by
  induction l using mergePass.induct generalizing seen with
  | case1 => exact ⟨h, fun _ => Iff.rfl, rfl⟩
  | case2 a => exact ⟨h, fun _ => Iff.rfl, rfl⟩
  | case3 a b rest c hm ih =>
    obtain ⟨hmerged, hsame⟩ := h.merged hfam hspace hm
    have hdiff := h.fresh.not_subset_head
    have ha := h.inRange a List.mem_cons_self
    have hb := h.inRange b (List.mem_cons_of_mem _ List.mem_cons_self)
    have hunion := hmerged.union hdiff
    have hbuilt : BuiltFrom K c.ip.isIpv4 c.block := by
      have hbb := h.built b (List.mem_cons_of_mem _ List.mem_cons_self)
      rw [← hsame] at hbb
      rw [hunion, hmerged.family]
      exact (h.built a List.mem_cons_self).union hbb
    have hrest : Sound K (seen ∪ c.block) rest := by
      rw [hunion, ← Set.union_assoc]
      exact h.tail.tail
    obtain ⟨hsound, hcov, hover⟩ := ih hrest
    have hnew : ¬ c.block ⊆ seen := by
      rw [hunion]
      exact (h.fresh.merge).1
    simp only [mergePass, mergePassOverflows, hm]
    refine ⟨hsound.cons hnew hmerged.inRange hbuilt, ?_, ?_⟩
    · intro addr
      rw [covers_cons, covers_cons, covers_cons, hcov, hmerged.holds_iff hdiff ha hb hsame, or_assoc]
    · rw [h.mergePairOverflows_eq_false hspace, hover, Bool.or_self]
  | case4 a b rest hm ih =>
    obtain ⟨hsound, hcov, hover⟩ := ih h.tail
    simp only [mergePass, mergePassOverflows, hm]
    refine ⟨hsound.cons h.fresh.1 (h.inRange a List.mem_cons_self) (h.built a List.mem_cons_self), ?_, ?_⟩
    · intro addr
      rw [covers_cons, hcov, ← covers_cons]
    · rw [h.mergePairOverflows_eq_false hspace, hover, Bool.or_self]

include hfam hspace in
theorem mergeLoop_sound (h : Sound K seen l) :
    (∀ addr, Covers (mergeLoop l) addr ↔ Covers l addr) ∧ mergeLoopOverflows l = false := by
  induction l using mergeLoop.induct generalizing seen with
  | case1 l hchanged ih =>
    obtain ⟨hsound, hcov, hover⟩ := mergePass_sound hfam hspace h
    obtain ⟨hcov', hover'⟩ := ih hsound
    rw [mergeLoop, mergeLoopOverflows, dif_pos hchanged, dif_pos hchanged, hover, hover']
    exact ⟨fun addr => (hcov' addr).trans (hcov addr), rfl⟩
  | case2 l hdone =>
    obtain ⟨-, hcov, hover⟩ := mergePass_sound hfam hspace h
    rw [mergeLoop, mergeLoopOverflows, dif_neg hdone, dif_neg hdone, hover]
    exact ⟨hcov, rfl⟩

end Merging

/-- The entries the removal loop keeps: those inside no entry before them in the sorted order. -/
def kept (entries : List Cidr) : List Cidr := remaining [] (sortEntries entries)

theorem removeCovered_sortEntries (hr : ∀ e ∈ entries, e.InRange) :
    removeCovered none (sortEntries entries) = kept entries := by
  apply removeCovered_eq_remaining Tip.nil (fun s hs => absurd hs List.not_mem_nil)
  · intro e he
    exact (hr e (mem_sortEntries.mp he)).le
  · intro s hs
    exact absurd hs List.not_mem_nil
  · exact sortEntries_pairwise entries

theorem remaining_sublist (seen l : List Cidr) : (remaining seen l).Sublist l := by
  induction l generalizing seen with
  | nil => exact List.Sublist.refl _
  | cons e rest ih =>
    rw [remaining]
    split_ifs
    · exact (ih _).cons e
    · exact (ih _).cons_cons e

theorem mem_of_mem_kept (h : e ∈ kept entries) : e ∈ entries :=
  mem_sortEntries.mp ((remaining_sublist _ _).subset h)

/-- What the aggregation relies on: the removal loses no address, it leaves no entry covered by
the ones before it, the merges stay within a family, and they stop short of the whole space. -/
structure Separated (entries : List Cidr) : Prop where
  covers : ∀ addr, Covers entries addr → Covers (kept entries) addr
  fresh : Fresh ∅ ((kept entries).map Cidr.block)
  families : FamiliesApart (kept entries)
  space : LeavesSpace (kept entries)

structure CoveragePreserved (entries : List Cidr) : Prop where
  noOverflow : aggregateOverflows entries = false
  covers_iff : ∀ addr, Covers (aggregateCidrs entries) addr ↔ Covers entries addr

theorem Separated.sound (h : Separated entries) (hr : ∀ e ∈ entries, e.InRange) :
    Sound (kept entries) ∅ (kept entries) :=
  ⟨h.fresh, fun e he => hr e (mem_of_mem_kept he), fun _ he => builtFrom_of_mem he⟩

theorem coveragePreserved_of_separated (hr : ∀ e ∈ entries, e.InRange) (h : Separated entries) :
    CoveragePreserved entries := by
  by_cases hlen : entries.length ≤ 1
  · refine ⟨?_, ?_⟩
    · rw [aggregateOverflows, if_pos hlen]
    · intro addr
      rw [aggregateCidrs, if_pos hlen]
  · obtain ⟨hcov, hover⟩ := mergeLoop_sound h.families h.space (h.sound hr)
    have hsort : ∀ e ∈ sortEntries entries, e.prefixLen.toNat ≤ 128 := fun e he =>
      (hr e (mem_sortEntries.mp he)).le
    refine ⟨?_, ?_⟩
    · rw [aggregateOverflows, if_neg hlen, removeOverflows_eq_false (fun k hk => by cases hk) hsort,
        removeCovered_sortEntries hr, hover, Bool.or_self]
    · intro addr
      rw [aggregateCidrs, if_neg hlen, removeCovered_sortEntries hr, hcov addr]
      constructor
      · intro hin
        obtain ⟨e, he, hold⟩ := hin
        exact ⟨e, mem_of_mem_kept he, hold⟩
      · exact h.covers addr

theorem eq_nil_or_singleton {entries : List Cidr} (h : entries.length ≤ 1) :
    entries = [] ∨ ∃ e, entries = [e] := by
  cases entries with
  | nil => exact .inl rfl
  | cons e rest =>
    have hrest : rest = [] := List.length_eq_zero_iff.mp (Nat.le_zero.mp (Nat.le_of_succ_le_succ h))
    exact .inr ⟨e, by rw [hrest]⟩

theorem isChain_of_length_le_one {entries : List Cidr} (h : entries.length ≤ 1) :
    entries.IsChain R := by
  rcases eq_nil_or_singleton h with heq | ⟨e, heq⟩
  · rw [heq]
    exact List.IsChain.nil
  · rw [heq]
    exact List.IsChain.singleton _

theorem kept_of_length_le_one (h : entries.length ≤ 1) : kept entries = entries := by
  rcases eq_nil_or_singleton h with heq | ⟨e, heq⟩
  · rw [heq]
    rfl
  · rw [heq]
    rfl

/-- What the code returns when the entries it keeps are disjoint. -/
structure Final (K out : List Cidr) : Prop where
  ordered : Ordered out
  coarsens : Coarsens K out
  none : out.IsChain fun a b => mergePair a b = none

section Disjoint

variable (hr : ∀ e ∈ entries, e.InRange)
  (hdis : (kept entries).Pairwise fun a b => Apart a.block b.block)

include hdis in
theorem kept_ordered : Ordered (kept entries) :=
  ordered_of_disjoint ((sortEntries_pairwise entries).sublist (remaining_sublist _ _)) hdis

include hr hdis in
theorem aggregateCidrs_final : Final (kept entries) (aggregateCidrs entries) := by
  have hr' : ∀ e ∈ kept entries, e.InRange := fun e he => hr e (mem_of_mem_kept he)
  by_cases hlen : entries.length ≤ 1
  · rw [aggregateCidrs, if_pos hlen]
    have hord := kept_ordered hdis
    rw [kept_of_length_le_one hlen] at hord ⊢
    exact ⟨hord, Coarsens.refl hr, isChain_of_length_le_one hlen⟩
  · rw [aggregateCidrs, if_neg hlen, removeCovered_sortEntries hr]
    obtain ⟨hord, hcoarse⟩ := mergeLoop_ordered (kept_ordered hdis) hr'
    exact ⟨hord, hcoarse, (mergeLoop_final _).1⟩

include hr in
theorem aggregateCidrs_no_overflow (h : aggregateOverflows entries = false) :
    (aggregateCidrs entries).IsChain fun a b => mergePairOverflows a b = false := by
  by_cases hlen : entries.length ≤ 1
  · rw [aggregateCidrs, if_pos hlen]
    exact isChain_of_length_le_one hlen
  · rw [aggregateOverflows, if_neg hlen, Bool.or_eq_false_iff, removeCovered_sortEntries hr] at h
    rw [aggregateCidrs, if_neg hlen, removeCovered_sortEntries hr]
    exact (mergeLoop_final _).2 h.2

include hr hdis in
/-- An element of the result has the family of every entry it was merged from. -/
theorem family_of_mem_out (h : CoveragePreserved entries) (he : e ∈ kept entries)
    (hc : c ∈ aggregateCidrs entries) (hsub : e.block ⊆ c.block) : c.ip.isIpv4 = e.ip.isIpv4 := by
  have hfinal := aggregateCidrs_final hr hdis
  have hself : e.Holds e.ip := IpAddr.inNet_self _ _
  obtain ⟨d, hd, hold⟩ := (h.covers_iff e.ip).mpr ⟨e, mem_of_mem_kept he, hself⟩
  rw [Cidr.holds_iff (hfinal.coarsens.inRange d hd)] at hold
  have heq := hfinal.ordered.eq_of_mem hd hc hold.2 (hsub e.place_mem_block)
  rw [← heq]
  exact hold.1

theorem block_lt (h : x ∈ Cidr.block e) : x < 2 ^ 128 := by
  have hlevel : e.level ≤ 128 := Nat.sub_le _ _
  have hdiv := div_pow_eq_of_le hlevel h
  rw [Nat.div_eq_of_lt (place_lt e.ip)] at hdiv
  exact (Nat.div_eq_zero_iff_lt (Nat.two_pow_pos 128)).mp hdiv

include hr hdis in
theorem CoveragePreserved.familiesApart (h : CoveragePreserved entries) : FamiliesApart (kept entries) := by
  have hfinal := aggregateCidrs_final hr hdis
  intro k x y hp hne hbuilt
  obtain ⟨hx, hy⟩ := hbuilt
  obtain ⟨ex, hex, hfx, hsubx, hxin⟩ := hx x (self_mem_block k x)
  obtain ⟨ey, hey, hfy, hsuby, hyin⟩ := hy y (self_mem_block k y)
  have hparent := block_succ_eq_union hp hne
  have hk : k < 128 := by
    by_contra hge
    have hsmall : 2 ^ 128 ≤ 2 ^ k := Nat.pow_le_pow_right (by decide) (Nat.le_of_not_lt hge)
    have hxlt := block_lt hxin
    have hylt := block_lt hyin
    apply hne
    rw [mem_block, Nat.div_eq_of_lt (by omega), Nat.div_eq_of_lt (by omega)]
  -- an element around both halves would have two families
  have hnot (c : Cidr) (hc : c ∈ aggregateCidrs entries) : ¬ block (k + 1) x ⊆ c.block := by
    intro hsub
    rw [hparent] at hsub
    have hcx := family_of_mem_out hr hdis h hex hc (hsubx.trans (Set.subset_union_left.trans hsub))
    have hcy := family_of_mem_out hr hdis h hey hc (hsuby.trans (Set.subset_union_right.trans hsub))
    rw [hfx] at hcx
    rw [hfy, hcx] at hcy
    cases hcy
  have hcov : ∀ z ∈ block (k + 1) x, ∃ c ∈ aggregateCidrs entries, c.block ⊆ block (k + 1) x ∧ z ∈ c.block := by
    intro z hz
    have hentry : ∃ e ∈ kept entries, e.block ⊆ block (k + 1) x ∧ z ∈ e.block := by
      rw [hparent] at hz ⊢
      rcases hz with hz | hz
      · obtain ⟨e, he, -, hsub, hze⟩ := hx z hz
        exact ⟨e, he, hsub.trans Set.subset_union_left, hze⟩
      · obtain ⟨e, he, -, hsub, hze⟩ := hy z hz
        exact ⟨e, he, hsub.trans Set.subset_union_right, hze⟩
    obtain ⟨e, he, hsub, hze⟩ := hentry
    obtain ⟨c, hc, hec⟩ := hfinal.coarsens.up e he
    refine ⟨c, hc, ?_, hec hze⟩
    rcases Nat.le_total c.level (k + 1) with hle | hge
    · exact block_subset_of_meet hle (hec hze) hz
    · exact absurd (block_subset_of_meet hge hz (hec hze)) (hnot c hc)
  obtain ⟨c, hc, heq⟩ := hfinal.ordered.exists_block hfinal.coarsens.inRange hfinal.none
    (aggregateCidrs_no_overflow hr h.noOverflow) hk hcov
  exact hnot c hc heq.symm.subset

include hr hdis in
theorem CoveragePreserved.leavesSpace (h : CoveragePreserved entries) : LeavesSpace (kept entries) := by
  have hfinal := aggregateCidrs_final hr hdis
  by_contra hfull
  have hall : ∀ x < 2 ^ 128, ∃ e ∈ kept entries, 0 < e.prefixLen.toNat ∧ x ∈ e.block := by
    intro x hx
    by_contra hno
    apply hfull
    refine ⟨x, hx, ?_⟩
    intro e he hpos hxe
    exact hno ⟨e, he, hpos, hxe⟩
  have hspace {x : Nat} : x ∈ block 128 0 ↔ x < 2 ^ 128 := by
    rw [mem_block, Nat.zero_div, Nat.div_eq_zero_iff_lt (Nat.two_pow_pos 128)]
  have hcov : ∀ x ∈ block 128 0, ∃ c ∈ aggregateCidrs entries, c.block ⊆ block 128 0 ∧ x ∈ c.block := by
    intro x hx
    obtain ⟨e, he, -, hxe⟩ := hall x (hspace.mp hx)
    obtain ⟨c, hc, hec⟩ := hfinal.coarsens.up e he
    exact ⟨c, hc, fun y hy => hspace.mpr (block_lt hy), hec hxe⟩
  obtain ⟨c, hc, heq⟩ := hfinal.ordered.exists_block hfinal.coarsens.inRange hfinal.none
    (aggregateCidrs_no_overflow hr h.noOverflow) (Nat.le_refl 128) hcov
  have hlevel : 128 ≤ c.level := le_of_block_subset heq.symm.subset
  have hzero : ¬ 0 < c.prefixLen.toNat := by
    rw [Cidr.level] at hlevel
    omega
  -- such an element is not the result of a merge, so it was kept, and then nothing else was
  rcases hfinal.coarsens.aligned c hc with hkept | hnew
  · obtain ⟨e, he, hpos, hxe⟩ := hall 0 (Nat.two_pow_pos 128)
    have hin : 0 ∈ c.block := by
      rw [heq]
      exact self_mem_block 128 0
    have hsame := (kept_ordered hdis).eq_of_mem he hkept hxe hin
    rw [hsame] at hpos
    exact hzero hpos
  · exact hzero hnew.2

include hr hdis in
theorem separated_of_coveragePreserved (h : CoveragePreserved entries) : Separated entries := by
  have hfinal := aggregateCidrs_final hr hdis
  refine ⟨?_, ?_, h.familiesApart hr hdis, h.leavesSpace hr hdis⟩
  · intro addr hcov
    obtain ⟨c, hc, hold⟩ := (h.covers_iff addr).mpr hcov
    rw [Cidr.holds_iff (hfinal.coarsens.inRange c hc)] at hold
    obtain ⟨e, he, hsub, hin⟩ := hfinal.coarsens.down c hc _ hold.2
    have hfam := family_of_mem_out hr hdis h he hc hsub
    refine ⟨e, he, (Cidr.holds_iff (hr e (mem_of_mem_kept he))).mpr ⟨?_, hin⟩⟩
    rw [← hfam, hold.1]
  · exact (kept_ordered hdis).fresh (fun x hx => absurd hx (Set.notMem_empty x))

end Disjoint

/-- Under the condition the aggregation keeps coverage; and where the entries it keeps are disjoint
it keeps coverage under no other. -/
theorem aggregateCidrs_coverage (hr : ∀ e ∈ entries, e.InRange) :
    (Separated entries → CoveragePreserved entries) ∧
      ((kept entries).Pairwise (fun a b => Apart a.block b.block) →
        (CoveragePreserved entries ↔ Separated entries)) := by
  constructor
  · intro h
    exact coveragePreserved_of_separated hr h
  · intro hdis
    constructor
    · exact separated_of_coveragePreserved hr hdis
    · exact coveragePreserved_of_separated hr

theorem familiesApart_of_one_family (h : ∀ e ∈ K, e.ip.isIpv4 = f) : FamiliesApart K := by
  intro k x y _ _ hbuilt
  obtain ⟨e, he, hfe, -⟩ := hbuilt.1 x (self_mem_block k x)
  obtain ⟨d, hd, hfd, -⟩ := hbuilt.2 y (self_mem_block k y)
  rw [h e he] at hfe
  rw [h d hd, hfe] at hfd
  cases hfd

/-- `10.0.0.0/24` and `10.0.1.0/24`. -/
def adjacentEntries : List Cidr := [⟨.v4 0x0A000000, 24⟩, ⟨.v4 0x0A000100, 24⟩]

theorem adjacentEntries_separated : Separated adjacentEntries := by
  have hkept : kept adjacentEntries = adjacentEntries := by decide
  have hdis : (kept adjacentEntries).Pairwise fun a b => Apart a.block b.block := by
    rw [hkept]
    apply List.pairwise_pair.mpr
    intro x hx hx'
    have he : place (.v4 0x0A000000) / 2 ^ 104 = place (.v4 0x0A000100) / 2 ^ 104 := hx.symm.trans hx'
    exact absurd he (by decide)
  refine ⟨?_, ?_, ?_, ?_⟩
  · intro addr h
    rw [hkept]
    exact h
  · exact (kept_ordered hdis).fresh (fun x hx => absurd hx (Set.notMem_empty x))
  · rw [hkept]
    exact familiesApart_of_one_family (f := true) (by decide)
  · rw [hkept]
    refine ⟨0, by decide, ?_⟩
    intro e he _ hin
    rcases List.mem_pair.mp he with heq | heq
    · subst heq
      exact absurd (mem_block.mp hin) (by decide)
    · subst heq
      exact absurd (mem_block.mp hin) (by decide)

theorem aggregateCidrs_coverage_adjacent :
    (∀ e ∈ adjacentEntries, e.InRange) ∧ CoveragePreserved adjacentEntries ∧
      aggregateCidrs adjacentEntries = [⟨.v4 0x0A000000, 23⟩] :=
  ⟨by decide, (aggregateCidrs_coverage (by decide)).1 adjacentEntries_separated, by decide +kernel⟩

/-- `10.0.0.0/24`, `10.0.1.0/24` and `10.0.1.5/23`: the third sorts after the two it covers, and
what they merge into is merged with it as if it were the other half of `10.0.0.0/22`. -/
def hostBitsEntries : List Cidr :=
  [⟨.v4 0x0A000000, 24⟩, ⟨.v4 0x0A000100, 24⟩, ⟨.v4 0x0A000105, 23⟩]

theorem hostBitsEntries_coverage_false :
    (∀ e ∈ hostBitsEntries, e.InRange) ∧ ¬ CoveragePreserved hostBitsEntries := by
  refine ⟨by decide, ?_⟩
  intro h
  have hin : Covers (aggregateCidrs hostBitsEntries) (.v4 0x0A000201) := by
    rw [show aggregateCidrs hostBitsEntries = [⟨.v4 0x0A000000, 22⟩] by decide +kernel]
    decide
  exact absurd ((h.covers_iff _).mp hin) (by decide)

end AiFw.Geo
