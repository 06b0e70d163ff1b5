import AiFw.Geo.Coverage
import Mathlib.Data.List.Perm.Subperm
import Mathlib.Data.List.Nodup

namespace AiFw.Geo
open AiFw.Lib AiFw.Net
set_option autoImplicit true

namespace Cidr

/-- The address has no bits beyond the prefix. -/
def NoHostBits (e : Cidr) : Prop := 2 ^ (e.ip.width - e.prefixLen.toNat) ∣ e.ip.toNat

instance (e : Cidr) : Decidable e.NoHostBits := inferInstanceAs (Decidable (_ ∣ _))

/-- A network as it is usually written. -/
structure Plain (e : Cidr) : Prop where
  inRange : e.InRange
  noHostBits : e.NoHostBits

/-- The address of such a network is the first number of its block. -/
theorem Plain.dvd_place (h : Plain e) : 2 ^ e.level ∣ place e.ip := by
  have hr : e.prefixLen.toNat ≤ e.ip.width := h.inRange
  have hw := width_le e.ip
  have hlevel : e.level = (e.ip.width - e.prefixLen.toNat) + (128 - e.ip.width) := by
    rw [level]
    omega
  rw [hlevel, place_eq, Nat.pow_add]
  exact Nat.mul_dvd_mul_right h.noHostBits _

theorem noHostBits_of_dvd {e : Cidr} (hr : e.InRange) (h : 2 ^ e.level ∣ place e.ip) : e.NoHostBits := by
  have hr' : e.prefixLen.toNat ≤ e.ip.width := hr
  have hw := width_le e.ip
  have hlevel : e.level = (e.ip.width - e.prefixLen.toNat) + (128 - e.ip.width) := by
    rw [level]
    omega
  rw [hlevel, place_eq, Nat.pow_add] at h
  exact Nat.dvd_of_mul_dvd_mul_right (Nat.two_pow_pos _) h

theorem Plain.place_le (h : Plain e) (hx : x ∈ e.block) : place e.ip ≤ x := by
  obtain ⟨m, hm⟩ := h.dvd_place
  have hdiv : x / 2 ^ e.level = place e.ip / 2 ^ e.level := hx
  rw [hm, Nat.mul_div_cancel_left _ (Nat.two_pow_pos _)] at hdiv
  rw [hm, ← hdiv]
  exact Nat.mul_div_le x _

theorem ip_eq {a b : IpAddr} (hf : a.isIpv4 = b.isIpv4) (h : place a = place b) : a = b := by
  cases a with
  | v4 a =>
    cases b with
    | v4 b =>
      rw [place_eq, place_eq] at h
      have hval := Nat.eq_of_mul_eq_mul_right (Nat.two_pow_pos _) h
      exact congrArg IpAddr.v4 (BitVec.toNat_inj.mp hval)
    | v6 b => cases hf
  | v6 a =>
    cases b with
    | v4 b => cases hf
    | v6 b => exact congrArg IpAddr.v6 (BitVec.toNat_inj.mp h)

/-- Plain networks of one family are the same if they have the same block. -/
theorem Plain.eq_of_block (ha : Plain a) (hb : Plain b) (hf : a.ip.isIpv4 = b.ip.isIpv4)
    (h : a.block = b.block) : a = b := by
  have hlevel : a.level = b.level :=
    Nat.le_antisymm (le_of_block_subset h.subset) (le_of_block_subset h.symm.subset)
  have hplace : place a.ip = place b.ip := by
    apply Nat.le_antisymm
    · exact ha.place_le (h ▸ b.place_mem_block)
    · exact hb.place_le (h ▸ a.place_mem_block)
  have hpa := ha.inRange.le
  have hpb := hb.inRange.le
  rw [level, level] at hlevel
  have hlen : a.prefixLen = b.prefixLen := UInt8.toNat_inj.mp (by omega)
  have hip := ip_eq hf hplace
  cases a
  cases b
  cases hip
  cases hlen
  rfl

end Cidr

theorem isSubnetOf_self {e : Cidr} (h : e.prefixLen.toNat ≤ 128) : isSubnetOf e e = true :=
  (isSubnetOf_iff h).mpr ⟨Nat.le_refl _, e.place_mem_block⟩

/-- What the removal loop leaves out lies inside an entry before it or inside one that is kept. -/
theorem exists_of_mem_remaining (hs : ∀ s ∈ seen, s.prefixLen.toNat ≤ 128)
    (hl : ∀ e ∈ l, e.prefixLen.toNat ≤ 128) (he : e ∈ l) :
    (∃ s ∈ seen, isSubnetOf e s = true) ∨ ∃ k ∈ remaining seen l, isSubnetOf e k = true := by
  induction l generalizing seen e with
  | nil => cases he
  | cons d rest ih =>
    obtain ⟨hd, hrest⟩ := List.forall_mem_cons.mp hl
    have hseen : ∀ s ∈ d :: seen, s.prefixLen.toNat ≤ 128 := List.forall_mem_cons.mpr ⟨hd, hs⟩
    rw [remaining]
    by_cases hcov : seen.any (isSubnetOf d) = true
    · obtain ⟨s, hsm, hds⟩ := List.any_eq_true.mp hcov
      rw [if_pos hcov]
      rcases List.mem_cons.mp he with rfl | he
      · exact .inl ⟨s, hsm, hds⟩
      · rcases ih hseen hrest he with ⟨t, ht, het⟩ | hkept
        · rcases List.mem_cons.mp ht with rfl | ht
          · exact .inl ⟨s, hsm, isSubnetOf_trans hd (hs s hsm) het hds⟩
          · exact .inl ⟨t, ht, het⟩
        · exact .inr hkept
    · rw [if_neg hcov]
      rcases List.mem_cons.mp he with rfl | he
      · exact .inr ⟨e, List.mem_cons_self, isSubnetOf_self hd⟩
      · rcases ih hseen hrest he with ⟨t, ht, het⟩ | ⟨k, hk, hek⟩
        · rcases List.mem_cons.mp ht with rfl | ht
          · exact .inr ⟨t, List.mem_cons_self, het⟩
          · exact .inl ⟨t, ht, het⟩
        · exact .inr ⟨k, List.mem_cons_of_mem _ hk, hek⟩

/-- No kept entry lies inside one before it. -/
theorem remaining_pairwise (seen l : List Cidr) :
    (∀ e ∈ remaining seen l, ∀ s ∈ seen, ¬ isSubnetOf e s = true) ∧
      (remaining seen l).Pairwise fun a b => ¬ isSubnetOf b a = true := by
  induction l generalizing seen with
  | nil =>
    refine ⟨?_, List.Pairwise.nil⟩
    intro e he
    cases he
  | cons d rest ih =>
    obtain ⟨hnot, hpair⟩ := ih (d :: seen)
    rw [remaining]
    by_cases hcov : seen.any (isSubnetOf d) = true
    · rw [if_pos hcov]
      exact ⟨fun e he s hs => hnot e he s (List.mem_cons_of_mem _ hs), hpair⟩
    · rw [if_neg hcov]
      constructor
      · intro e he s hs
        rcases List.mem_cons.mp he with rfl | he
        · intro hes
          exact hcov (List.any_eq_true.mpr ⟨s, hs, hes⟩)
        · exact hnot e he s (List.mem_cons_of_mem _ hs)
      · exact List.pairwise_cons.mpr ⟨fun e he => hnot e he d List.mem_cons_self, hpair⟩

/-- Of plain entries in the order of the sort, two that meet and do not lie inside the first are none. -/
theorem apart_of_precedes {a b : Cidr} (ha : a.Plain) (hb : b.Plain) (hab : precedes a b)
    (hnot : ¬ isSubnetOf b a = true) : Apart a.block b.block := by
  intro x hxa hxb
  rw [isSubnetOf_iff_subset hb.inRange.le ha.inRange.le] at hnot
  rcases Nat.le_total b.level a.level with hle | hle
  · exact hnot (block_subset_of_meet hle hxb hxa)
  · have hsub : a.block ⊆ b.block := block_subset_of_meet hle hxa hxb
    have hplace := hb.place_le (hsub a.place_mem_block)
    have hpa := ha.inRange.le
    have hpb := hb.inRange.le
    rw [precedes_iff] at hab
    rw [Cidr.level, Cidr.level] at hle
    have hsame : place a.ip = place b.ip := by omega
    have hlevel : a.level = b.level := by
      rw [Cidr.level, Cidr.level]
      omega
    apply hnot
    rw [Cidr.block, Cidr.block, hsame, hlevel]

theorem kept_disjoint (h : ∀ e ∈ entries, e.Plain) :
    (kept entries).Pairwise fun a b => Apart a.block b.block := by
  have hsorted : (kept entries).Pairwise precedes :=
    (sortEntries_pairwise entries).sublist (remaining_sublist _ _)
  have hpair := hsorted.and (remaining_pairwise [] (sortEntries entries)).2
  apply hpair.imp_of_mem
  intro a b ha hb hab
  exact apart_of_precedes (h a (mem_of_mem_kept ha)) (h b (mem_of_mem_kept hb)) hab.1 hab.2

/-- Lists of networks of one family that together leave some address of it free. -/
structure Partial (f : Bool) (entries : List Cidr) : Prop where
  plain : ∀ e ∈ entries, e.Plain
  family : ∀ e ∈ entries, e.ip.isIpv4 = f
  free : ∃ addr : IpAddr, addr.isIpv4 = f ∧ ¬ Covers entries addr

theorem Partial.separated (h : Partial f entries) : Separated entries := by
  have hr : ∀ e ∈ entries, e.InRange := fun e he => (h.plain e he).inRange
  have hkept : ∀ e ∈ kept entries, e ∈ entries := fun e he => mem_of_mem_kept he
  constructor
  · intro addr ⟨e, he, hold⟩
    have hsort : ∀ d ∈ sortEntries entries, d.prefixLen.toNat ≤ 128 := by
      intro d hd
      exact (hr d (mem_sortEntries.mp hd)).le
    have hnil : ∀ s ∈ ([] : List Cidr), s.prefixLen.toNat ≤ 128 := by
      intro s hs
      cases hs
    rcases exists_of_mem_remaining hnil hsort (mem_sortEntries.mpr he) with ⟨s, hs, -⟩ | ⟨k, hk, hek⟩
    · cases hs
    · have hk' := hkept k hk
      rw [isSubnetOf_iff_subset (hr e he).le (hr k hk').le] at hek
      rw [Cidr.holds_iff (hr e he)] at hold
      refine ⟨k, hk, (Cidr.holds_iff (hr k hk')).mpr ⟨?_, hek hold.2⟩⟩
      rw [h.family k hk', ← h.family e he, hold.1]
  · exact (kept_ordered (kept_disjoint h.plain)).fresh fun x hx => absurd hx (Set.notMem_empty x)
  · exact familiesApart_of_one_family fun e he => h.family e (hkept e he)
  · obtain ⟨addr, hf, hfree⟩ := h.free
    refine ⟨place addr, place_lt addr, ?_⟩
    intro e he _ hin
    apply hfree
    refine ⟨e, hkept e he, (Cidr.holds_iff (hr e (hkept e he))).mpr ⟨?_, hin⟩⟩
    rw [hf, h.family e (hkept e he)]

/-- Some address of the family stands at the last place before any number, or on it. -/
theorem exists_place (f : Bool) (hx : x < 2 ^ 128) :
    ∃ addr : IpAddr, addr.isIpv4 = f ∧
      place addr = x / 2 ^ (128 - addr.width) * 2 ^ (128 - addr.width) := by
  cases f with
  | true =>
    have hlt : x / 2 ^ 96 < 2 ^ 32 := by omega
    refine ⟨.v4 (BitVec.ofNat 32 (x / 2 ^ 96)), rfl, ?_⟩
    rw [place_eq]
    change (BitVec.ofNat 32 (x / 2 ^ 96)).toNat * 2 ^ 96 = x / 2 ^ 96 * 2 ^ 96
    rw [BitVec.toNat_ofNat, Nat.mod_eq_of_lt hlt]
  | false =>
    refine ⟨.v6 (BitVec.ofNat 128 x), rfl, ?_⟩
    rw [place_eq]
    change (BitVec.ofNat 128 x).toNat * 2 ^ 0 = x / 2 ^ 0 * 2 ^ 0
    rw [BitVec.toNat_ofNat, Nat.mod_eq_of_lt hx, Nat.pow_zero, Nat.div_one]

/-- Blocks of a family do not tell numbers below one address apart. -/
theorem mem_block_of_place {e : Cidr} (hr : e.InRange) (hf : e.ip.isIpv4 = addr.isIpv4)
    (h : place addr = x / 2 ^ (128 - addr.width) * 2 ^ (128 - addr.width)) :
    place addr ∈ e.block ↔ x ∈ e.block := by
  have hwidth : e.ip.width = addr.width := by rw [width_eq, width_eq, hf]
  have hr' : e.prefixLen.toNat ≤ e.ip.width := hr
  have hle : 128 - addr.width ≤ e.level := by
    rw [Cidr.level]
    omega
  have hsame : place addr / 2 ^ e.level = x / 2 ^ e.level := by
    apply div_pow_eq_of_le hle
    rw [h, Nat.mul_div_cancel _ (Nat.two_pow_pos _)]
  rw [Cidr.block, mem_block, mem_block, hsame]

theorem exists_mem_block {d : Cidr} (hd : d.InRange) (hr : ∀ c ∈ l, c.InRange)
    (h : ∀ addr, d.Holds addr → Covers l addr) (hx : x ∈ d.block) : ∃ c ∈ l, x ∈ c.block := by
  obtain ⟨addr, hf, hplace⟩ := exists_place d.ip.isIpv4 (block_lt hx)
  have hin : d.Holds addr :=
    (Cidr.holds_iff hd).mpr ⟨hf.symm, (mem_block_of_place hd hf.symm hplace).mpr hx⟩
  obtain ⟨c, hc, hold⟩ := h addr hin
  rw [Cidr.holds_iff (hr c hc)] at hold
  exact ⟨c, hc, (mem_block_of_place (hr c hc) hold.1 hplace).mp hold.2⟩

section Result

variable {out : List Cidr} (hord : Ordered out) (hr : ∀ e ∈ out, e.InRange)
  (hnone : out.IsChain fun a b => mergePair a b = none)
  (hover : out.IsChain fun a b => mergePairOverflows a b = false)

include hord hr hnone hover in
/-- A network inside the union of the final list lies inside one of its elements. -/
theorem Ordered.exists_around {d : Cidr} (hd : d.InRange)
    (h : ∀ addr, d.Holds addr → Covers out addr) : ∃ c ∈ out, d.block ⊆ c.block := by
  by_cases hwide : ∃ c ∈ out, d.level ≤ c.level ∧ ∃ x ∈ d.block, x ∈ c.block
  · obtain ⟨c, hc, hle, x, hxd, hxc⟩ := hwide
    exact ⟨c, hc, block_subset_of_meet hle hxd hxc⟩
  · have hcov : ∀ x ∈ Lib.block d.level (place d.ip),
        ∃ c ∈ out, c.block ⊆ Lib.block d.level (place d.ip) ∧ x ∈ c.block := by
      intro x hx
      obtain ⟨c, hc, hxc⟩ := exists_mem_block hd hr h hx
      refine ⟨c, hc, block_subset_of_meet ?_ hxc hx, hxc⟩
      by_contra hlt
      exact hwide ⟨c, hc, by omega, x, hx, hxc⟩
    obtain ⟨c, hc, heq⟩ := hord.exists_block hr hnone hover (Nat.sub_le _ _) hcov
    exact ⟨c, hc, heq.symm.subset⟩

include hord hr hnone hover in
/-- The networks of any list with the same union are shared out among the elements of the final list,
and every element gets one. -/
theorem Ordered.exists_assignment {other : List Cidr} (hother : ∀ d ∈ other, d.InRange)
    (hunion : ∀ addr, Covers other addr ↔ Covers out addr) :
    ∃ g : Cidr → Cidr, (∀ d ∈ other, g d ∈ out ∧ d.block ⊆ (g d).block) ∧ out ⊆ other.map g := by
  have : Nonempty Cidr := ⟨⟨.v4 0, 0⟩⟩
  have haround : ∀ d ∈ other, ∃ c, c ∈ out ∧ d.block ⊆ c.block := by
    intro d hd
    obtain ⟨c, hc, hsub⟩ := hord.exists_around hr hnone hover (hother d hd)
      (fun addr hold => (hunion addr).mp ⟨d, hd, hold⟩)
    exact ⟨c, hc, hsub⟩
  choose! g hg using haround
  refine ⟨g, hg, ?_⟩
  intro c hc
  obtain ⟨d, hd, hold⟩ := (hunion c.ip).mpr ⟨c, hc, IpAddr.inNet_self _ _⟩
  rw [Cidr.holds_iff (hother d hd)] at hold
  have hsame := hord.eq_of_mem hc (hg d hd).1 c.place_mem_block ((hg d hd).2 hold.2)
  rw [hsame]
  exact List.mem_map_of_mem hd

theorem Ordered.lt_place (h : Ordered l) : l.Pairwise fun a b => place a.ip < place b.ip :=
  h.imp fun hab => hab _ (Cidr.place_mem_block _) _ (Cidr.place_mem_block _)

theorem nodup_of_lt_place {l : List Cidr} (h : l.Pairwise fun a b => place a.ip < place b.ip) : l.Nodup := by
  apply h.imp
  rintro a b hab rfl
  exact Nat.lt_irrefl _ hab

include hord hr hnone hover in
theorem Ordered.length_le {other : List Cidr} (hother : ∀ d ∈ other, d.InRange)
    (hunion : ∀ addr, Covers other addr ↔ Covers out addr) : out.length ≤ other.length := by
  obtain ⟨g, -, hsub⟩ := hord.exists_assignment hr hnone hover hother hunion
  have hle := ((nodup_of_lt_place hord.lt_place).subperm hsub).length_le
  rwa [List.length_map] at hle

include hord hr hnone hover in
/-- If there are no more networks than elements, each network is the element it is in. -/
theorem Ordered.block_eq {other : List Cidr} (hother : ∀ d ∈ other, d.InRange)
    (hunion : ∀ addr, Covers other addr ↔ Covers out addr)
    (hlen : other.length ≤ out.length) :
    ∃ g : Cidr → Cidr, (∀ d ∈ other, g d ∈ out ∧ d.block = (g d).block) ∧ out.Perm (other.map g) := by
  obtain ⟨g, hg, hsub⟩ := hord.exists_assignment hr hnone hover hother hunion
  have hout := nodup_of_lt_place hord.lt_place
  have hperm : out.Perm (other.map g) := by
    apply (hout.subperm hsub).perm_of_length_le
    rw [List.length_map]
    exact hlen
  have hinj := List.inj_on_of_nodup_map (hperm.nodup hout)
  refine ⟨g, ?_, hperm⟩
  intro d hd
  refine ⟨(hg d hd).1, Set.Subset.antisymm (hg d hd).2 ?_⟩
  intro x hx
  have hcov : ∀ addr, (g d).Holds addr → Covers other addr := fun addr hold =>
    (hunion addr).mpr ⟨g d, (hg d hd).1, hold⟩
  obtain ⟨d', hd', hx'⟩ := exists_mem_block (hr _ (hg d hd).1) hother hcov hx
  have hsame := hord.eq_of_mem (hg d' hd').1 (hg d hd).1 ((hg d' hd').2 hx') hx
  rwa [hinj hd' hd hsame] at hx'

end Result

/-- The shortest list of disjoint plain networks with the union of the entries, in the order of the
addresses; there is no other. -/
structure Canonical (entries out : List Cidr) : Prop where
  plain : ∀ c ∈ out, c.Plain
  union : ∀ addr, Covers out addr ↔ Covers entries addr
  increasing : out.Pairwise fun a b => a.ip.toNat < b.ip.toNat
  disjoint : out.Pairwise fun a b => ∀ addr, ¬ (a.Holds addr ∧ b.Holds addr)
  minimal : ∀ other : List Cidr, (∀ d ∈ other, d.InRange) →
    (∀ addr, Covers other addr ↔ Covers entries addr) → out.length ≤ other.length
  unique : ∀ other : List Cidr, (∀ d ∈ other, d.Plain) →
    (∀ addr, Covers other addr ↔ Covers entries addr) →
    (other.Pairwise fun a b => a.ip.toNat < b.ip.toNat) →
    other.length ≤ out.length → other = out

theorem family_of_covers (h : ∀ e ∈ entries, e.ip.isIpv4 = f) (hr : ∀ e ∈ entries, e.InRange)
    (hcov : Covers entries addr) : addr.isIpv4 = f := by
  obtain ⟨e, he, hold⟩ := hcov
  rw [Cidr.holds_iff (hr e he)] at hold
  rw [← hold.1, h e he]

theorem place_lt_iff {a b : IpAddr} (hf : a.isIpv4 = b.isIpv4) :
    place a < place b ↔ a.toNat < b.toNat := by
  have hwidth : a.width = b.width := by rw [width_eq, width_eq, hf]
  rw [place_eq, place_eq, hwidth, Nat.mul_lt_mul_right (Nat.two_pow_pos _)]

theorem lt_place_of_lt {l : List Cidr} (hf : ∀ e ∈ l, e.ip.isIpv4 = f)
    (h : l.Pairwise fun a b => a.ip.toNat < b.ip.toNat) :
    l.Pairwise fun a b => place a.ip < place b.ip := by
  apply h.imp_of_mem
  intro a b ha hb hab
  exact (place_lt_iff ((hf a ha).trans (hf b hb).symm)).mpr hab

theorem Partial.canonical (h : Partial f entries) :
    aggregateOverflows entries = false ∧ Canonical entries (aggregateCidrs entries) := by
  have hr : ∀ e ∈ entries, e.InRange := fun e he => (h.plain e he).inRange
  have hdis := kept_disjoint h.plain
  have hpres := coveragePreserved_of_separated hr h.separated
  have hfinal := aggregateCidrs_final hr hdis
  have hover := aggregateCidrs_no_overflow hr hpres.noOverflow
  have hord := hfinal.ordered
  have hout := hfinal.coarsens.inRange
  have hplain : ∀ c ∈ aggregateCidrs entries, c.Plain := by
    intro c hc
    rcases hfinal.coarsens.aligned c hc with hk | hnew
    · exact h.plain c (mem_of_mem_kept hk)
    · exact ⟨hout c hc, Cidr.noHostBits_of_dvd (hout c hc) hnew.1⟩
  have hfam : ∀ c ∈ aggregateCidrs entries, c.ip.isIpv4 = f := by
    intro c hc
    exact family_of_covers h.family hr
      ((hpres.covers_iff c.ip).mp ⟨c, hc, IpAddr.inNet_self _ _⟩)
  have hunion {other : List Cidr} (ho : ∀ addr, Covers other addr ↔ Covers entries addr) :
      ∀ addr, Covers other addr ↔ Covers (aggregateCidrs entries) addr :=
    fun addr => (ho addr).trans (hpres.covers_iff addr).symm
  refine ⟨hpres.noOverflow, hplain, hpres.covers_iff, ?_, ?_, ?_, ?_⟩
  · apply hord.lt_place.imp_of_mem
    intro a b ha hb hab
    exact (place_lt_iff ((hfam a ha).trans (hfam b hb).symm)).mp hab
  · apply hord.imp_of_mem
    intro a b ha hb hab addr hold
    rw [Cidr.holds_iff (hout a ha), Cidr.holds_iff (hout b hb)] at hold
    exact Nat.lt_irrefl _ (hab _ hold.1.2 _ hold.2.2)
  · intro other ho hcov
    exact hord.length_le hout hfinal.none hover ho (hunion hcov)
  · intro other ho hcov hinc hlen
    have hfam' : ∀ d ∈ other, d.ip.isIpv4 = f := by
      intro d hd
      exact family_of_covers h.family hr ((hcov d.ip).mp ⟨d, hd, IpAddr.inNet_self _ _⟩)
    have hinc' := lt_place_of_lt hfam' hinc
    obtain ⟨g, hg, hperm⟩ := hord.block_eq hout hfinal.none hover
      (fun d hd => (ho d hd).inRange) (hunion hcov) hlen
    have hsame : other.map g = other := by
      apply (List.map_congr_left _).trans (List.map_id other)
      intro d hd
      have hgd := (hg d hd).1
      exact ((ho d hd).eq_of_block (hplain _ hgd) ((hfam' d hd).trans (hfam _ hgd).symm)
        (hg d hd).2).symm
    rw [hsame] at hperm
    apply hperm.symm.eq_of_pairwise _ hinc' hord.lt_place
    intro a b _ _ hab hba
    exact absurd (Nat.lt_trans hab hba) (Nat.lt_irrefl _)

theorem Partial.of_union (h : Partial f entries) {other : List Cidr} (ho : ∀ d ∈ other, d.Plain)
    (hcov : ∀ addr, Covers other addr ↔ Covers entries addr) : Partial f other where
  plain := ho
  family := by
    intro d hd
    exact family_of_covers h.family (fun e he => (h.plain e he).inRange)
      ((hcov d.ip).mp ⟨d, hd, IpAddr.inNet_self _ _⟩)
  free := by
    obtain ⟨addr, hf, hfree⟩ := h.free
    exact ⟨addr, hf, fun hc => hfree ((hcov addr).mp hc)⟩

/-- The result depends on the union of the entries only. -/
theorem Partial.aggregateCidrs_eq (h : Partial f entries) {other : List Cidr}
    (ho : ∀ d ∈ other, d.Plain) (hcov : ∀ addr, Covers other addr ↔ Covers entries addr) :
    aggregateCidrs other = aggregateCidrs entries := by
  have hcan := h.canonical.2
  have hcan' := (h.of_union ho hcov).canonical.2
  have hunion : ∀ addr, Covers (aggregateCidrs other) addr ↔ Covers entries addr := fun addr =>
    (hcan'.union addr).trans (hcov addr)
  apply hcan.unique _ hcan'.plain hunion hcan'.increasing
  apply hcan'.minimal
  · intro d hd
    exact (hcan.plain d hd).inRange
  · intro addr
    exact (hcan.union addr).trans (hcov addr).symm

theorem covers_congr {l l' : List Cidr} (h : ∀ e, e ∈ l ↔ e ∈ l') (addr : IpAddr) :
    Covers l addr ↔ Covers l' addr := by
  constructor
  · intro ⟨e, he, hold⟩
    exact ⟨e, (h e).mp he, hold⟩
  · intro ⟨e, he, hold⟩
    exact ⟨e, (h e).mpr he, hold⟩

/-- The aggregation is canonical: no order and no repetition of the entries changes it, and it
leaves its own result as it is. -/
theorem aggregateCidrs_canonical (entries : List Cidr) (h : Partial f entries) :
    aggregateOverflows entries = false ∧ Canonical entries (aggregateCidrs entries) ∧
      (∀ other : List Cidr, (∀ e, e ∈ other ↔ e ∈ entries) →
        aggregateCidrs other = aggregateCidrs entries) ∧
      aggregateCidrs (aggregateCidrs entries) = aggregateCidrs entries := by
  obtain ⟨hover, hcan⟩ := h.canonical
  refine ⟨hover, hcan, ?_, ?_⟩
  · intro other hsame
    apply h.aggregateCidrs_eq
    · intro d hd
      exact h.plain d ((hsame d).mp hd)
    · exact covers_congr hsame
  · exact h.aggregateCidrs_eq hcan.plain hcan.union

theorem adjacentEntries_partial : Partial true adjacentEntries where
  plain := by
    intro e he
    have hall : ∀ e ∈ adjacentEntries, e.InRange ∧ e.NoHostBits := by decide
    exact ⟨(hall e he).1, (hall e he).2⟩
  family := by decide
  free := ⟨.v4 0, rfl, by decide⟩

theorem aggregateCidrs_canonical_adjacent :
    aggregateCidrs adjacentEntries = [⟨.v4 0x0A000000, 23⟩] ∧
      Canonical adjacentEntries (aggregateCidrs adjacentEntries) :=
  ⟨by decide +kernel, (aggregateCidrs_canonical adjacentEntries adjacentEntries_partial).2.1⟩

end AiFw.Geo
