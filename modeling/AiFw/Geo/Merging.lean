import AiFw.Geo.Aggregate

namespace AiFw.Geo
open AiFw.Lib AiFw.Net
set_option autoImplicit true

/-- What a merge of two neighbours yields: the block one level up around the first of them. -/
structure Merged (a b c : Cidr) : Prop where
  samePrefix : a.prefixLen = b.prefixLen
  meets : place b.ip ∈ block (a.level + 1) (place a.ip)
  block_eq : c.block = block (a.level + 1) (place a.ip)
  inRange : c.InRange
  aligned : 2 ^ c.level ∣ place c.ip
  prefix_pos : 0 < c.prefixLen.toNat
  family : c.ip.isIpv4 = a.ip.isIpv4

theorem toNat_parent_amount {p : UInt8} (hp : p.toNat ≤ 128) : (128 - p + 1).toNat = 129 - p.toNat := by
  rw [UInt8.toNat_add, toNat_shift_amount hp]
  change (128 - p.toNat + 1) % 256 = 129 - p.toNat
  omega

theorem oneShl_parent {p : UInt8} (hp : p.toNat ≤ 128) (h2 : 2 ≤ p.toNat) :
    oneShl (128 - p + 1) = 1#128 <<< (129 - p.toNat) := by
  rw [oneShl, toNat_parent_amount hp, Nat.mod_eq_of_lt (by omega)]

theorem mergePair_eq_some (hr : a.InRange) (h2 : 2 ≤ a.prefixLen.toNat) (h : mergePair a b = some c) :
    Merged a b c := by
  have hp := hr.le
  have hw := width_le a.ip
  have hr' : a.prefixLen.toNat ≤ a.ip.width := hr
  rw [mergePair] at h
  split_ifs at h with hsame hmask
  rw [parentMask, oneShl_parent hp h2, and_high_mask_eq_iff _ _ (by omega)] at hmask
  rw [parentMask, oneShl_parent hp h2, Option.some.injEq] at h
  have hlen : (a.prefixLen - 1).toNat = a.prefixLen.toNat - 1 :=
    UInt8.toNat_sub_of_le _ _ (UInt8.le_iff_toNat_le.mpr (by omega : 1 ≤ a.prefixLen.toNat))
  have hlevel : a.level + 1 = 129 - a.prefixLen.toNat := by
    rw [Cidr.level]
    omega
  have hplace := place_u128ToIp a.ip (by omega : 128 - a.ip.width ≤ 129 - a.prefixLen.toNat) (by omega)
  have hlevel' : 128 - (a.prefixLen.toNat - 1) = 129 - a.prefixLen.toNat := by omega
  subst c
  refine ⟨hsame.1, ?_, ?_, ?_, ?_, ?_, isIpv4_u128ToIp _ _⟩
  · rw [hlevel]
    exact mem_block_comm.mp hmask
  · rw [Cidr.block, Cidr.level, hlen, hplace, hlevel, hlevel']
    apply block_eq_of_mem
    rw [mem_block, Nat.mul_div_cancel _ (Nat.two_pow_pos _)]
  · rw [Cidr.InRange, hlen, width_eq, isIpv4_u128ToIp, ← width_eq]
    omega
  · rw [Cidr.level, hlen, hplace, hlevel']
    exact Nat.dvd_mul_left _ _
  · rw [hlen]
    omega

theorem mergePair_some_prefix (h : mergePair a b = some c) :
    a.prefixLen = b.prefixLen ∧ 0 < a.prefixLen.toNat := by
  rw [mergePair] at h
  split_ifs at h with hsame
  exact ⟨hsame.1, UInt8.lt_iff_toNat_lt.mp hsame.2⟩

/-- Two neighbours with different blocks make up their parent. -/
theorem Merged.union (h : Merged a b c) (hne : ¬ b.block ⊆ a.block) : c.block = a.block ∪ b.block := by
  have hlevel : b.level = a.level := by rw [Cidr.level, Cidr.level, h.samePrefix]
  have hout : place b.ip ∉ block a.level (place a.ip) :=
    fun hin => hne (block_subset (Nat.le_of_eq hlevel) hin)
  rw [h.block_eq, block_succ_eq_union h.meets hout, Cidr.block, Cidr.block, hlevel]

/-- The blocks lie one after the other. -/
def Ordered (l : List Cidr) : Prop :=
  l.Pairwise fun a b => ∀ x ∈ a.block, ∀ y ∈ b.block, x < y

/-- The second list comes from the first by merging elements into aligned ones. -/
structure Coarsens (l l' : List Cidr) : Prop where
  up : ∀ e ∈ l, ∃ c ∈ l', e.block ⊆ c.block
  down : ∀ c ∈ l', ∀ x ∈ c.block, ∃ e ∈ l, e.block ⊆ c.block ∧ x ∈ e.block
  inRange : ∀ c ∈ l', c.InRange
  aligned : ∀ c ∈ l', c ∈ l ∨ 2 ^ c.level ∣ place c.ip ∧ 0 < c.prefixLen.toNat

theorem Coarsens.refl (hr : ∀ e ∈ l, e.InRange) : Coarsens l l :=
  ⟨fun e he => ⟨e, he, subset_rfl⟩, fun c hc _ hx => ⟨c, hc, subset_rfl, hx⟩, hr, fun _ hc => .inl hc⟩

theorem Coarsens.trans (h : Coarsens l l') (h' : Coarsens l' l'') : Coarsens l l'' := by
  constructor
  · intro e he
    obtain ⟨c, hc, hec⟩ := h.up e he
    obtain ⟨d, hd, hcd⟩ := h'.up c hc
    exact ⟨d, hd, hec.trans hcd⟩
  · intro d hd x hx
    obtain ⟨c, hc, hcd, hxc⟩ := h'.down d hd x hx
    obtain ⟨e, he, hec, hxe⟩ := h.down c hc x hxc
    exact ⟨e, he, hec.trans hcd, hxe⟩
  · exact h'.inRange
  · intro d hd
    rcases h'.aligned d hd with hd' | hnew
    · exact h.aligned d hd'
    · exact .inr hnew

theorem Coarsens.cons (h : Coarsens l l') (hr : a.InRange) : Coarsens (a :: l) (a :: l') := by
  constructor
  · intro e he
    rcases List.mem_cons.mp he with heq | he
    · subst heq
      exact ⟨e, List.mem_cons_self, subset_rfl⟩
    · obtain ⟨c, hc, hec⟩ := h.up e he
      exact ⟨c, List.mem_cons_of_mem _ hc, hec⟩
  · intro c hc x hx
    rcases List.mem_cons.mp hc with heq | hc
    · subst heq
      exact ⟨c, List.mem_cons_self, subset_rfl, hx⟩
    · obtain ⟨e, he, hec, hxe⟩ := h.down c hc x hx
      exact ⟨e, List.mem_cons_of_mem _ he, hec, hxe⟩
  · exact List.forall_mem_cons.mpr ⟨hr, h.inRange⟩
  · intro c hc
    rcases List.mem_cons.mp hc with heq | hc
    · subst heq
      exact .inl List.mem_cons_self
    · rcases h.aligned c hc with hold | hnew
      · exact .inl (List.mem_cons_of_mem _ hold)
      · exact .inr hnew

theorem Merged.coarsens (h : Merged a b c) (hne : ¬ b.block ⊆ a.block) (hr : ∀ e ∈ l, e.InRange) :
    Coarsens (a :: b :: l) (c :: l) := by
  have hunion := h.union hne
  have ha : a.block ⊆ c.block := by
    rw [hunion]
    exact Set.subset_union_left
  have hb : b.block ⊆ c.block := by
    rw [hunion]
    exact Set.subset_union_right
  constructor
  · intro e he
    rcases List.mem_cons.mp he with heq | he
    · exact ⟨c, List.mem_cons_self, heq ▸ ha⟩
    · rcases List.mem_cons.mp he with heq | he
      · exact ⟨c, List.mem_cons_self, heq ▸ hb⟩
      · exact ⟨e, List.mem_cons_of_mem _ he, subset_rfl⟩
  · intro d hd x hx
    rcases List.mem_cons.mp hd with heq | hd
    · subst heq
      have hx' := hx
      rw [hunion] at hx'
      rcases hx' with hxa | hxb
      · exact ⟨a, List.mem_cons_self, ha, hxa⟩
      · exact ⟨b, List.mem_cons_of_mem _ List.mem_cons_self, hb, hxb⟩
    · exact ⟨d, List.mem_cons_of_mem _ (List.mem_cons_of_mem _ hd), subset_rfl, hx⟩
  · exact List.forall_mem_cons.mpr ⟨h.inRange, hr⟩
  · intro d hd
    rcases List.mem_cons.mp hd with heq | hd
    · subst heq
      exact .inr ⟨h.aligned, h.prefix_pos⟩
    · exact .inl (List.mem_cons_of_mem _ (List.mem_cons_of_mem _ hd))

theorem Ordered.eq_of_mem (h : Ordered l) (ha : a ∈ l) (hb : b ∈ l) (hxa : x ∈ a.block)
    (hxb : x ∈ b.block) : a = b := by
  induction l with
  | nil => cases ha
  | cons d rest ih =>
    obtain ⟨hd, hrest⟩ := List.pairwise_cons.mp h
    rcases List.mem_cons.mp ha with had | ha' <;> rcases List.mem_cons.mp hb with hbd | hb'
    · rw [had, hbd]
    · subst had
      exact absurd (hd b hb' x hxa x hxb) (Nat.lt_irrefl x)
    · subst hbd
      exact absurd (hd a ha' x hxb x hxa) (Nat.lt_irrefl x)
    · exact ih hrest ha' hb'

/-- Disjoint blocks in the order of their addresses lie one after the other. -/
theorem ordered_of_disjoint (hsort : l.Pairwise precedes)
    (hdis : l.Pairwise fun a b => Apart a.block b.block) : Ordered l := by
  refine (hsort.and hdis).imp ?_
  intro a b hab x hx y hy
  have hle := hab.1.place_le
  by_contra hyx
  rcases Nat.le_total (place b.ip) x with hbx | hxb
  · exact hab.2 _ (block_convex a.place_mem_block hx hle hbx) b.place_mem_block
  · exact hab.2 _ hx (block_convex hy b.place_mem_block (Nat.le_of_not_lt hyx) hxb)

theorem Ordered.fresh (h : Ordered l) (hseen : ∀ x ∈ seen, ∀ e ∈ l, x ∉ e.block) :
    Fresh seen (l.map Cidr.block) := by
  induction l generalizing seen with
  | nil => trivial
  | cons a rest ih =>
    obtain ⟨ha, hrest⟩ := List.pairwise_cons.mp h
    refine ⟨?_, ?_⟩
    · intro hsub
      exact hseen _ (hsub a.place_mem_block) a List.mem_cons_self a.place_mem_block
    · apply ih hrest
      intro x hx e he hxe
      rcases hx with hx | hx
      · exact hseen x hx e (List.mem_cons_of_mem _ he) hxe
      · exact Nat.lt_irrefl x (ha e he x hx x hxe)

theorem Ordered.not_subset (h : Ordered (a :: b :: l)) : ¬ b.block ⊆ a.block := by
  intro hsub
  have hab := (List.pairwise_cons.mp h).1 b List.mem_cons_self
  exact absurd (hab _ (hsub b.place_mem_block) _ b.place_mem_block) (Nat.lt_irrefl _)

/-- Two halves of the whole space are not merged by a wrapped shift: their addresses differ. -/
theorem Ordered.merged (h : Ordered (a :: b :: l)) (hr : a.InRange) (hm : mergePair a b = some c) :
    Merged a b c := by
  have hab := (List.pairwise_cons.mp h).1 b List.mem_cons_self
  have hlt := hab _ a.place_mem_block _ b.place_mem_block
  obtain ⟨-, hpos⟩ := mergePair_some_prefix hm
  apply mergePair_eq_some hr _ hm
  by_contra hsmall
  have hone : a.prefixLen = 1 := UInt8.toNat_inj.mp (by change _ = 1; omega)
  have hmask : parentMask 1 = BitVec.allOnes 128 := by decide
  rw [mergePair, hone, hmask] at hm
  split_ifs at hm with _ heq
  rw [BitVec.and_allOnes, BitVec.and_allOnes] at heq
  rw [place, place, heq] at hlt
  exact Nat.lt_irrefl _ hlt

theorem Ordered.merge (h : Ordered (a :: b :: l)) (hm : c.block = a.block ∪ b.block) :
    Ordered (c :: l) := by
  obtain ⟨ha, hbl⟩ := List.pairwise_cons.mp h
  obtain ⟨hb, hl⟩ := List.pairwise_cons.mp hbl
  apply List.pairwise_cons.mpr
  refine ⟨?_, hl⟩
  intro d hd x hx y hy
  rw [hm] at hx
  rcases hx with hxa | hxb
  · exact ha d (List.mem_cons_of_mem _ hd) x hxa y hy
  · exact hb d hd x hxb y hy

theorem Ordered.coarsen_tail (h : Ordered (a :: l)) (hl : Ordered l') (hc : Coarsens l l') :
    Ordered (a :: l') := by
  apply List.pairwise_cons.mpr
  refine ⟨?_, hl⟩
  intro d hd x hx y hy
  obtain ⟨e, he, -, hye⟩ := hc.down d hd y hy
  exact (List.pairwise_cons.mp h).1 e he x hx y hye

theorem mergePass_ordered (h : Ordered l) (hr : ∀ e ∈ l, e.InRange) :
    Ordered (mergePass l).1 ∧ Coarsens l (mergePass l).1 := by
  induction l using mergePass.induct with
  | case1 => exact ⟨h, Coarsens.refl hr⟩
  | case2 a => exact ⟨h, Coarsens.refl hr⟩
  | case3 a b rest c hm ih =>
    obtain ⟨ha, hr'⟩ := List.forall_mem_cons.mp hr
    obtain ⟨-, hrest⟩ := List.forall_mem_cons.mp hr'
    have hmerged := h.merged ha hm
    have hc := h.merge (hmerged.union h.not_subset)
    obtain ⟨hord, hcoarse⟩ := ih (List.pairwise_cons.mp hc).2 hrest
    simp only [mergePass, hm]
    exact ⟨hc.coarsen_tail hord hcoarse,
      (hmerged.coarsens h.not_subset hrest).trans (hcoarse.cons hmerged.inRange)⟩
  | case4 a b rest hm ih =>
    obtain ⟨ha, hrest⟩ := List.forall_mem_cons.mp hr
    obtain ⟨hord, hcoarse⟩ := ih (List.pairwise_cons.mp h).2 hrest
    simp only [mergePass, hm]
    exact ⟨h.coarsen_tail hord hcoarse, hcoarse.cons ha⟩

/-- A round that changes nothing found no pair to merge. -/
theorem mergePass_unchanged (h : (mergePass l).2 = false) :
    (mergePass l).1 = l ∧ l.IsChain fun a b => mergePair a b = none := by
  induction l using mergePass.induct with
  | case1 => exact ⟨rfl, List.IsChain.nil⟩
  | case2 a => exact ⟨rfl, List.IsChain.singleton _⟩
  | case3 a b rest c hm ih =>
    simp only [mergePass, hm] at h
    cases h
  | case4 a b rest hm ih =>
    simp only [mergePass, hm] at h ⊢
    obtain ⟨heq, hchain⟩ := ih h
    exact ⟨by rw [heq], List.isChain_cons_cons.mpr ⟨hm, hchain⟩⟩

theorem isChain_of_mergePassOverflows (hn : l.IsChain fun a b => mergePair a b = none)
    (h : mergePassOverflows l = false) : l.IsChain fun a b => mergePairOverflows a b = false := by
  induction l using mergePass.induct with
  | case1 => exact List.IsChain.nil
  | case2 a => exact List.IsChain.singleton _
  | case3 a b rest c hm ih =>
    rw [(List.isChain_cons_cons.mp hn).1] at hm
    cases hm
  | case4 a b rest hm ih =>
    simp only [mergePassOverflows, hm, Bool.or_eq_false_iff] at h
    exact List.isChain_cons_cons.mpr ⟨h.1, ih (List.isChain_cons_cons.mp hn).2 h.2⟩

theorem mergeLoop_ordered (h : Ordered l) (hr : ∀ e ∈ l, e.InRange) :
    Ordered (mergeLoop l) ∧ Coarsens l (mergeLoop l) := by
  induction l using mergeLoop.induct with
  | case1 l hchanged ih =>
    obtain ⟨hord, hcoarse⟩ := mergePass_ordered h hr
    obtain ⟨hord', hcoarse'⟩ := ih hord hcoarse.inRange
    rw [mergeLoop, dif_pos hchanged]
    exact ⟨hord', hcoarse.trans hcoarse'⟩
  | case2 l hdone =>
    rw [mergeLoop, dif_neg hdone]
    exact mergePass_ordered h hr

/-- No pair of the final list can be merged, and none trips a check when the run did not. -/
theorem mergeLoop_final (l : List Cidr) :
    ((mergeLoop l).IsChain fun a b => mergePair a b = none) ∧
      (mergeLoopOverflows l = false →
        (mergeLoop l).IsChain fun a b => mergePairOverflows a b = false) := by
  induction l using mergeLoop.induct with
  | case1 l hchanged ih =>
    rw [mergeLoop, mergeLoopOverflows, dif_pos hchanged, dif_pos hchanged, Bool.or_eq_false_iff]
    exact ⟨ih.1, fun h => ih.2 h.2⟩
  | case2 l hdone =>
    obtain ⟨heq, hchain⟩ := mergePass_unchanged (Bool.eq_false_iff.mpr hdone)
    rw [mergeLoop, mergeLoopOverflows, dif_neg hdone, dif_neg hdone, heq, Bool.or_false]
    exact ⟨hchain, isChain_of_mergePassOverflows hchain⟩

theorem mergePair_ne_none (hp : a.prefixLen.toNat ≤ 128) (h2 : 2 ≤ a.prefixLen.toNat)
    (hsame : a.prefixLen = b.prefixLen) (hmeets : place b.ip ∈ block (a.level + 1) (place a.ip)) :
    mergePair a b ≠ none := by
  have hpos : 0 < a.prefixLen := UInt8.lt_iff_toNat_lt.mpr (by change 0 < _; omega)
  have hlevel : a.level + 1 = 129 - a.prefixLen.toNat := by
    rw [Cidr.level]
    omega
  have hmask : ipToU128 a.ip &&& parentMask a.prefixLen = ipToU128 b.ip &&& parentMask a.prefixLen := by
    rw [parentMask, oneShl_parent hp h2, and_high_mask_eq_iff _ _ (by omega), ← hlevel]
    exact mem_block_comm.mp hmeets
  rw [mergePair, if_pos ⟨hsame, hpos⟩, if_pos hmask]
  exact Option.some_ne_none _

theorem mergePairOverflows_one (hsame : a.prefixLen = b.prefixLen) (hone : a.prefixLen.toNat = 1) :
    mergePairOverflows a b = true := by
  have ha : a.prefixLen = 1 := UInt8.toNat_inj.mp hone
  rw [mergePairOverflows, ← hsame, ha]
  decide

section Complete

variable {l : List Cidr} (hord : Ordered l) (hr : ∀ e ∈ l, e.InRange)
  (hnone : l.IsChain fun a b => mergePair a b = none)
  (hover : l.IsChain fun a b => mergePairOverflows a b = false)

include hord hr hnone hover in
/-- The final list does not hold the two halves of a block. -/
theorem Ordered.not_both_halves (hk : k < 128) (ha : a ∈ l) (hb : b ∈ l) (hla : a.block = block k x)
    (hlb : b.block = block k y) (hp : y ∈ block (k + 1) x) (hlt : x < y) (hne : y ∉ block k x) : False := by
  have hlevel {c : Cidr} {z : Nat} (h : c.block = block k z) : c.level = k :=
    Nat.le_antisymm (le_of_block_subset h.subset) (le_of_block_subset h.symm.subset)
  have hlevela := hlevel hla
  have hlevelb := hlevel hlb
  have hpa := (hr a ha).le
  have hpb := (hr b hb).le
  rw [Cidr.level] at hlevela hlevelb
  have hsame : a.prefixLen = b.prefixLen := UInt8.toNat_inj.mp (by omega)
  have hxa : x ∈ a.block := hla ▸ self_mem_block k x
  have hyb : y ∈ b.block := hlb ▸ self_mem_block k y
  have hdiff : a ≠ b := by
    intro heq
    subst heq
    rw [hla] at hyb
    exact hne hyb
  have hback : ¬ ∀ u ∈ b.block, ∀ v ∈ a.block, u < v := by
    intro h
    exact absurd (h y hyb x hxa) (by omega)
  have hgap : ∀ d ∈ l, (∀ u ∈ a.block, ∀ v ∈ d.block, u < v) → ¬ ∀ u ∈ d.block, ∀ v ∈ b.block, u < v := by
    intro d _ had hdb
    have hxd := had x hxa _ d.place_mem_block
    have hdy := hdb _ d.place_mem_block y hyb
    have hmid := block_convex (self_mem_block (k + 1) x) hp (Nat.le_of_lt hxd) (Nat.le_of_lt hdy)
    rw [block_succ_eq_union hp hne, ← hla, ← hlb] at hmid
    rcases hmid with hin | hin
    · exact Nat.lt_irrefl _ (had _ hin _ d.place_mem_block)
    · exact Nat.lt_irrefl _ (hdb _ d.place_mem_block _ hin)
  have hno := rel_of_consecutive hord hnone ha hb hdiff hback hgap
  have hflag := rel_of_consecutive hord hover ha hb hdiff hback hgap
  have hpos : 0 < a.prefixLen.toNat := by omega
  have hmeets : place b.ip ∈ block (a.level + 1) (place a.ip) := by
    have hsuba : place a.ip ∈ block k x := hla ▸ a.place_mem_block
    have hsubb : place b.ip ∈ block k y := hlb ▸ b.place_mem_block
    have hxa' := div_pow_eq_of_le (Nat.le_succ k) hsuba
    have hyb' := div_pow_eq_of_le (Nat.le_succ k) hsubb
    rw [Cidr.level, hlevela, mem_block, hyb', hxa']
    exact hp
  by_cases hone : a.prefixLen.toNat = 1
  · rw [mergePairOverflows_one hsame hone] at hflag
    cases hflag
  · exact mergePair_ne_none hpa (by omega) hsame hmeets hno

include hord hr hnone hover in
/-- A block that elements of the final list make up is itself an element. -/
theorem Ordered.exists_block (hk : k ≤ 128)
    (hcov : ∀ x ∈ block k z, ∃ c ∈ l, c.block ⊆ block k z ∧ x ∈ c.block) :
    ∃ c ∈ l, c.block = block k z := by
  induction k generalizing z with
  | zero =>
    obtain ⟨c, hc, hsub, -⟩ := hcov z (self_mem_block 0 z)
    have hlevel : c.level = 0 := Nat.le_zero.mp (le_of_block_subset hsub)
    refine ⟨c, hc, ?_⟩
    rw [Cidr.block, hlevel]
    exact block_eq_of_mem (hsub c.place_mem_block)
  | succ k ih =>
    by_contra hex
    -- every element inside the block is too small to be the block, so it is inside one half
    have hhalf {u : Nat} (hu : u ∈ block (k + 1) z) : ∃ c ∈ l, c.block = block k u := by
      apply ih (by omega)
      intro x hx
      have hx' : x ∈ block (k + 1) z := block_subset (Nat.le_succ k) hu hx
      obtain ⟨c, hc, hsub, hxc⟩ := hcov x hx'
      have hle := le_of_block_subset hsub
      have hlevel : c.level ≤ k := by
        rcases Nat.lt_or_eq_of_le hle with hlt | heq
        · omega
        · refine absurd ⟨c, hc, ?_⟩ hex
          rw [Cidr.block, heq]
          exact block_eq_of_mem (hsub c.place_mem_block)
      exact ⟨c, hc, block_subset_of_meet hlevel hxc hx, hxc⟩
    obtain ⟨w, hw, hne⟩ := exists_sibling k z
    obtain ⟨a, ha, hla⟩ := hhalf (self_mem_block (k + 1) z)
    obtain ⟨b, hb, hlb⟩ := hhalf hw
    rcases Nat.lt_trichotomy z w with hlt | heq | hgt
    · exact hord.not_both_halves hr hnone hover (by omega) ha hb hla hlb hw hlt hne
    · exact hne (heq ▸ self_mem_block k z)
    · exact hord.not_both_halves hr hnone hover (by omega) hb ha hlb hla (mem_block_comm.mp hw) hgt
        (fun h => hne (mem_block_comm.mp h))

end Complete

end AiFw.Geo
