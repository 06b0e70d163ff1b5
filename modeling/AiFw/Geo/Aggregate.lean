import AiFw.Geo.Cidr
import Mathlib.Data.List.Sort

namespace AiFw.Geo
open AiFw.Lib AiFw.Net
set_option autoImplicit true

/-- The comparison of the sort: the place in the shared space, host bits included, then the
prefix length. -/
def precedes (a b : Cidr) : Prop :=
  ipToU128 a.ip < ipToU128 b.ip ∨ ipToU128 a.ip = ipToU128 b.ip ∧ a.prefixLen ≤ b.prefixLen

instance : DecidableRel precedes := fun _ _ => inferInstanceAs (Decidable (_ ∨ _))

def sortEntries (entries : List Cidr) : List Cidr := entries.insertionSort precedes

/-- The removal loop. `last` is the entry pushed last, the only one the next is compared with. -/
def removeCovered (last : Option Cidr) : List Cidr → List Cidr
  | [] => []
  | e :: rest =>
    if last.any (isSubnetOf e) then removeCovered last rest
    else e :: removeCovered (some e) rest

def removeOverflows (last : Option Cidr) : List Cidr → Bool
  | [] => false
  | e :: rest =>
    last.any (isSubnetOfOverflows e) ||
      if last.any (isSubnetOf e) then removeOverflows last rest
      else removeOverflows (some e) rest

def parentMask (p : UInt8) : BitVec 128 := ~~~(oneShl (128 - p + 1) - 1#128)

/-- What two neighbours are merged into, when they are. -/
def mergePair (a b : Cidr) : Option Cidr :=
  if a.prefixLen = b.prefixLen ∧ 0 < a.prefixLen then
    if ipToU128 a.ip &&& parentMask a.prefixLen = ipToU128 b.ip &&& parentMask a.prefixLen then
      some ⟨u128ToIp (ipToU128 a.ip &&& parentMask a.prefixLen) a.ip.isIpv4, a.prefixLen - 1⟩
    else none
  else none

/-- The subtraction or the shift of `parent_mask` trips an overflow check. -/
def mergePairOverflows (a b : Cidr) : Bool :=
  decide (a.prefixLen = b.prefixLen) && decide (0 < a.prefixLen) &&
    (decide (128 < a.prefixLen) || decide (128 ≤ (128 - a.prefixLen + 1).toNat))

/-- One round of the outer loop: the new list, and whether anything was merged. -/
def mergePass : List Cidr → List Cidr × Bool
  | [] => ([], false)
  | [a] => ([a], false)
  | a :: b :: rest =>
    match mergePair a b with
    | some c => (c :: (mergePass rest).1, true)
    | none => (a :: (mergePass (b :: rest)).1, (mergePass (b :: rest)).2)

def mergePassOverflows : List Cidr → Bool
  | [] => false
  | [_] => false
  | a :: b :: rest =>
    mergePairOverflows a b ||
      match mergePair a b with
      | some _ => mergePassOverflows rest
      | none => mergePassOverflows (b :: rest)

theorem mergePass_length (l : List Cidr) :
    (mergePass l).1.length + (mergePass l).2.toNat ≤ l.length := by
  induction l using mergePass.induct with
  | case1 => exact Nat.le_refl 0
  | case2 a => exact Nat.le_refl 1
  | case3 a b rest c h ih =>
    simp only [mergePass, h, List.length_cons, Bool.toNat_true]
    omega
  | case4 a b rest h ih =>
    simp only [mergePass, h, List.length_cons] at ih ⊢
    omega

def mergeLoop (l : List Cidr) : List Cidr :=
  if _h : (mergePass l).2 = true then mergeLoop (mergePass l).1 else (mergePass l).1
termination_by l.length
decreasing_by
  have hlen := mergePass_length l
  rw [_h, Bool.toNat_true] at hlen
  omega

def mergeLoopOverflows (l : List Cidr) : Bool :=
  mergePassOverflows l || if _h : (mergePass l).2 = true then mergeLoopOverflows (mergePass l).1 else false
termination_by l.length
decreasing_by
  have hlen := mergePass_length l
  rw [_h, Bool.toNat_true] at hlen
  omega

def aggregateCidrs (entries : List Cidr) : List Cidr :=
  if entries.length ≤ 1 then entries else mergeLoop (removeCovered none (sortEntries entries))

/-- Some shift or subtraction of the run overflows its type. -/
def aggregateOverflows (entries : List Cidr) : Bool :=
  if entries.length ≤ 1 then false
  else
    removeOverflows none (sortEntries entries) ||
      mergeLoopOverflows (removeCovered none (sortEntries entries))

theorem precedes_iff {a b : Cidr} : precedes a b ↔
    place a.ip < place b.ip ∨ place a.ip = place b.ip ∧ a.prefixLen.toNat ≤ b.prefixLen.toNat := by
  rw [precedes, BitVec.lt_def, ← BitVec.toNat_inj, UInt8.le_iff_toNat_le]
  rfl

theorem precedes.place_le {a b : Cidr} (h : precedes a b) : place a.ip ≤ place b.ip := by
  rcases precedes_iff.mp h with h | h
  · exact Nat.le_of_lt h
  · exact Nat.le_of_eq h.1

instance : Std.Total precedes where
  total a b := by
    rw [precedes_iff, precedes_iff]
    omega

instance : IsTrans Cidr precedes where
  trans a b c hab hbc := by
    rw [precedes_iff] at *
    omega

theorem sortEntries_pairwise (entries : List Cidr) : (sortEntries entries).Pairwise precedes :=
  List.pairwise_insertionSort precedes entries

theorem mem_sortEntries {entries : List Cidr} : e ∈ sortEntries entries ↔ e ∈ entries :=
  List.mem_insertionSort precedes

/-- The entry pushed last stands for everything seen: whatever comes later in the order and lies
inside a seen entry lies inside that one. -/
def Tip (last : Option Cidr) (seen : List Cidr) : Prop :=
  ∀ e : Cidr, (∀ s ∈ seen, place s.ip ≤ place e.ip) →
    (last.any (isSubnetOf e) = true ↔ ∃ s ∈ seen, isSubnetOf e s = true)

theorem Tip.nil : Tip none [] := by
  intro e _
  simp

theorem isSubnetOf_trans {a b c : Cidr} (hb : b.prefixLen.toNat ≤ 128) (hc : c.prefixLen.toNat ≤ 128)
    (hab : isSubnetOf a b = true) (hbc : isSubnetOf b c = true) : isSubnetOf a c = true := by
  rw [isSubnetOf_iff hb] at hab
  have hsub := (isSubnetOf_iff_subset hb hc).mp hbc
  rw [isSubnetOf_iff hc] at hbc ⊢
  exact ⟨hbc.1.trans hab.1, hsub hab.2⟩

theorem Tip.skip (h : Tip last seen) (hs : ∀ s ∈ seen, s.prefixLen.toNat ≤ 128)
    (he : e.prefixLen.toNat ≤ 128) (hord : ∀ s ∈ seen, place s.ip ≤ place e.ip)
    (hcov : last.any (isSubnetOf e) = true) : Tip last (e :: seen) := by
  intro x hx
  have hx' : ∀ s ∈ seen, place s.ip ≤ place x.ip := fun s hm => hx s (List.mem_cons_of_mem _ hm)
  rw [h x hx']
  constructor
  · intro hin
    obtain ⟨s, hm, hxs⟩ := hin
    exact ⟨s, List.mem_cons_of_mem _ hm, hxs⟩
  · intro hin
    obtain ⟨s, hm, hxs⟩ := hin
    rcases List.mem_cons.mp hm with heq | hm
    · subst heq
      obtain ⟨t, ht, hst⟩ := (h s hord).mp hcov
      exact ⟨t, ht, isSubnetOf_trans he (hs t ht) hxs hst⟩
    · exact ⟨s, hm, hxs⟩

/-- A kept entry that meets an earlier one is wider than it. -/
theorem isSubnetOf_of_between {s e x : Cidr} (hs : s.prefixLen.toNat ≤ 128) (he : e.prefixLen.toNat ≤ 128)
    (hse : place s.ip ≤ place e.ip) (hex : place e.ip ≤ place x.ip) (hnot : ¬ isSubnetOf e s = true)
    (hxs : isSubnetOf x s = true) : isSubnetOf x e = true := by
  rw [isSubnetOf_iff hs] at hnot hxs
  have hmid : place e.ip ∈ s.block := block_convex s.place_mem_block hxs.2 hse hex
  have hwide : e.prefixLen.toNat < s.prefixLen.toNat := by
    by_contra hle
    exact hnot ⟨Nat.le_of_not_lt hle, hmid⟩
  have hsub : s.block ⊆ e.block := by
    apply block_subset_of_meet _ hmid e.place_mem_block
    rw [Cidr.level, Cidr.level]
    omega
  rw [isSubnetOf_iff he]
  exact ⟨by omega, hsub hxs.2⟩

theorem Tip.push (h : Tip last seen) (hs : ∀ s ∈ seen, s.prefixLen.toNat ≤ 128)
    (he : e.prefixLen.toNat ≤ 128) (hord : ∀ s ∈ seen, place s.ip ≤ place e.ip)
    (hnew : ¬ last.any (isSubnetOf e) = true) : Tip (some e) (e :: seen) := by
  intro x hx
  rw [Option.any_some]
  constructor
  · intro hin
    exact ⟨e, List.mem_cons_self, hin⟩
  · intro hin
    obtain ⟨s, hm, hxs⟩ := hin
    rcases List.mem_cons.mp hm with heq | hm
    · subst heq
      exact hxs
    · have hnot : ¬ isSubnetOf e s = true := fun hes => hnew ((h e hord).mpr ⟨s, hm, hes⟩)
      exact isSubnetOf_of_between (hs s hm) he (hord s hm) (hx e List.mem_cons_self) hnot hxs

/-- The entries that lie inside no entry before them. -/
def remaining (seen : List Cidr) : List Cidr → List Cidr
  | [] => []
  | e :: rest =>
    if seen.any (isSubnetOf e) then remaining (e :: seen) rest
    else e :: remaining (e :: seen) rest

theorem removeCovered_eq_remaining (htip : Tip last seen) (hs : ∀ s ∈ seen, s.prefixLen.toNat ≤ 128)
    (hl : ∀ e ∈ l, e.prefixLen.toNat ≤ 128) (hord : ∀ s ∈ seen, ∀ e ∈ l, place s.ip ≤ place e.ip)
    (hsort : l.Pairwise precedes) : removeCovered last l = remaining seen l := by
  induction l generalizing last seen with
  | nil => rfl
  | cons e rest ih =>
    obtain ⟨hfirst, hrest⟩ := List.pairwise_cons.mp hsort
    have he := hl e List.mem_cons_self
    have horde : ∀ s ∈ seen, place s.ip ≤ place e.ip := fun s hm => hord s hm e List.mem_cons_self
    have hs' : ∀ s ∈ e :: seen, s.prefixLen.toNat ≤ 128 := List.forall_mem_cons.mpr ⟨he, hs⟩
    have hl' : ∀ x ∈ rest, x.prefixLen.toNat ≤ 128 := fun x hx => hl x (List.mem_cons_of_mem _ hx)
    have hord' : ∀ s ∈ e :: seen, ∀ x ∈ rest, place s.ip ≤ place x.ip := by
      intro s hm x hx
      rcases List.mem_cons.mp hm with heq | hm
      · subst heq
        exact (hfirst x hx).place_le
      · exact hord s hm x (List.mem_cons_of_mem _ hx)
    have hany : last.any (isSubnetOf e) = seen.any (isSubnetOf e) := by
      rw [Bool.eq_iff_iff, htip e horde, List.any_eq_true]
    rw [removeCovered, remaining, ← hany]
    split_ifs with hcov
    · exact ih (htip.skip hs he horde hcov) hs' hl' hord' hrest
    · rw [ih (htip.push hs he horde hcov) hs' hl' hord' hrest]

theorem removeCovered_sublist (last : Option Cidr) (l : List Cidr) : (removeCovered last l).Sublist l := by
  induction l generalizing last with
  | nil => exact List.Sublist.refl _
  | cons e rest ih =>
    rw [removeCovered]
    split_ifs
    · exact (ih _).cons e
    · exact (ih _).cons_cons e

theorem removeOverflows_eq_false (hlast : ∀ k ∈ last, k.prefixLen.toNat ≤ 128)
    (hl : ∀ e ∈ l, e.prefixLen.toNat ≤ 128) : removeOverflows last l = false := by
  induction l generalizing last with
  | nil => rfl
  | cons e rest ih =>
    obtain ⟨he, hrest⟩ := List.forall_mem_cons.mp hl
    have hstep : last.any (isSubnetOfOverflows e) = false := by
      rw [Option.any_eq_false]
      intro k hk
      rw [isSubnetOfOverflows_eq_false (hlast k hk)]
    rw [removeOverflows, hstep, Bool.false_or]
    split_ifs
    · exact ih hlast hrest
    · apply ih _ hrest
      intro k hk
      cases hk
      exact he

end AiFw.Geo
