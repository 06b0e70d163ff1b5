import Mathlib.Algebra.Group.Nat.Defs
import Mathlib.Data.Set.Lattice
import Mathlib.Data.Nat.Bitwise
import Mathlib.Data.List.Chain

namespace AiFw.Lib
set_option autoImplicit true

/-- The aligned block of `2 ^ k` numbers that holds `x`. -/
def block (k x : Nat) : Set Nat := {y | y / 2 ^ k = x / 2 ^ k}

theorem mem_block : y ∈ block k x ↔ y / 2 ^ k = x / 2 ^ k := Iff.rfl

theorem self_mem_block (k x : Nat) : x ∈ block k x := rfl

theorem div_pow_eq_of_le (hk : j ≤ k) (h : a / 2 ^ j = b / 2 ^ j) : a / 2 ^ k = b / 2 ^ k := by
  rw [← Nat.add_sub_cancel' hk, Nat.pow_add, ← Nat.div_div_eq_div_mul, ← Nat.div_div_eq_div_mul, h]

theorem block_eq_of_mem (h : y ∈ block k x) : block k y = block k x := by
  ext z
  rw [mem_block, mem_block, mem_block.mp h]

theorem mem_block_comm : y ∈ block k x ↔ x ∈ block k y := eq_comm

theorem block_subset (hk : j ≤ k) (h : a ∈ block k b) : block j a ⊆ block k b := by
  intro x hx
  exact (div_pow_eq_of_le hk hx).trans h

/-- The two ends of a block lie in different blocks of any smaller size. -/
theorem le_of_block_subset (h : block j a ⊆ block k b) : j ≤ k := by
  by_contra hlt
  have hkj : k + 1 ≤ j := by omega
  have hpos : 0 < 2 ^ j := Nat.two_pow_pos j
  have hfirst : a / 2 ^ j * 2 ^ j ∈ block j a := by
    rw [mem_block, Nat.mul_div_cancel _ hpos]
  have hlast : a / 2 ^ j * 2 ^ j + 2 ^ k ∈ block j a := by
    have hsmall : 2 ^ k < 2 ^ j := Nat.pow_lt_pow_right (by decide) (by omega)
    rw [mem_block, Nat.add_comm, Nat.add_mul_div_right _ _ hpos, Nat.div_eq_of_lt hsmall,
      Nat.zero_add]
  have he := (h hlast).trans (h hfirst).symm
  rw [Nat.add_div_right _ (Nat.two_pow_pos k)] at he
  omega

theorem block_subset_iff : block j a ⊆ block k b ↔ j ≤ k ∧ a ∈ block k b := by
  constructor
  · intro h
    exact ⟨le_of_block_subset h, h (self_mem_block j a)⟩
  · intro h
    exact block_subset h.1 h.2

/-- Of two blocks that meet, the smaller lies inside the larger. -/
theorem block_subset_of_meet (hk : j ≤ k) (hx : x ∈ block j a) (hx' : x ∈ block k b) :
    block j a ⊆ block k b := by
  apply block_subset hk
  rw [← block_eq_of_mem hx']
  exact div_pow_eq_of_le hk (mem_block_comm.mp hx)

theorem block_convex (ha : a ∈ block k x) (hc : c ∈ block k x) (hab : a ≤ b) (hbc : b ≤ c) :
    b ∈ block k x := by
  have hl : a / 2 ^ k ≤ b / 2 ^ k := Nat.div_le_div_right hab
  have hr : b / 2 ^ k ≤ c / 2 ^ k := Nat.div_le_div_right hbc
  rw [mem_block] at ha hc ⊢
  omega

/-- Two different halves of a block make up the block. -/
theorem block_succ_eq_union (hp : b ∈ block (k + 1) a) (hne : b ∉ block k a) :
    block (k + 1) a = block k a ∪ block k b := by
  ext x
  rw [Set.mem_union]
  simp only [mem_block, Nat.pow_succ, ← Nat.div_div_eq_div_mul] at hp hne ⊢
  omega

theorem exists_sibling (k a : Nat) : ∃ b ∈ block (k + 1) a, b ∉ block k a := by
  have hpos : 0 < 2 ^ k := Nat.two_pow_pos k
  rcases Nat.mod_two_eq_zero_or_one (a / 2 ^ k) with heven | hodd
  · refine ⟨a + 2 ^ k, ?_, ?_⟩ <;>
      simp only [mem_block, Nat.pow_succ, ← Nat.div_div_eq_div_mul, Nat.add_div_right _ hpos] <;> omega
  · have hle : 2 ^ k ≤ a := by
      by_contra hlt
      rw [Nat.div_eq_of_lt (Nat.lt_of_not_le hlt)] at hodd
      omega
    have hback : (a - 2 ^ k) / 2 ^ k + 1 = a / 2 ^ k := by
      rw [← Nat.add_div_right _ hpos, Nat.sub_add_cancel hle]
    refine ⟨a - 2 ^ k, ?_, ?_⟩ <;>
      simp only [mem_block, Nat.pow_succ, ← Nat.div_div_eq_div_mul] <;> omega

/-- Clearing the low bits of a word leaves the first number of its block. -/
theorem toNat_and_high_mask (a : BitVec w) (hk : k < w) :
    (a &&& ~~~((1#w <<< k) - 1#w)).toNat = a.toNat / 2 ^ k * 2 ^ k := by
  have hlow : ((1#w <<< k) - 1#w).toNat = 2 ^ k - 1 := by
    have hlt : 2 ^ k < 2 ^ w := Nat.pow_lt_pow_right (by decide) hk
    have hone : (1#w).toNat = 1 := by
      rw [BitVec.toNat_ofNat, Nat.mod_eq_of_lt (Nat.one_lt_two_pow (by omega))]
    have hshift : (1#w <<< k).toNat = 2 ^ k := by
      rw [BitVec.toNat_shiftLeft, hone, Nat.shiftLeft_eq, Nat.one_mul, Nat.mod_eq_of_lt hlt]
    rw [BitVec.toNat_sub_of_le, hshift, hone]
    rw [BitVec.le_def, hone, hshift]
    exact Nat.one_le_two_pow
  apply Nat.eq_of_testBit_eq
  intro i
  rw [← Nat.shiftRight_eq_div_pow, ← Nat.shiftLeft_eq, Nat.testBit_shiftLeft, Nat.testBit_shiftRight,
    BitVec.testBit_toNat, BitVec.getLsbD_and, BitVec.getLsbD_not, BitVec.getLsbD, BitVec.getLsbD, hlow,
    Nat.testBit_two_pow_sub_one]
  by_cases hi : k ≤ i
  · have hwi : a.toNat.testBit i = (decide (i < w) && a.toNat.testBit i) := by
      by_cases hw : i < w
      · rw [decide_eq_true hw, Bool.true_and]
      · rw [decide_eq_false hw, Bool.false_and]
        exact Nat.testBit_lt_two_pow (Nat.lt_of_lt_of_le a.isLt
          (Nat.pow_le_pow_right (by decide) (by omega)))
    rw [decide_eq_false (by omega : ¬ i < k), decide_eq_true hi, Nat.add_sub_cancel' hi,
      Bool.not_false, Bool.and_true, Bool.true_and, Bool.and_comm, ← hwi]
  · rw [decide_eq_true (by omega : i < k), decide_eq_false hi]
    simp

theorem and_high_mask_eq_iff (a b : BitVec w) (hk : k < w) :
    a &&& ~~~((1#w <<< k) - 1#w) = b &&& ~~~((1#w <<< k) - 1#w) ↔ a.toNat ∈ block k b.toNat := by
  rw [← BitVec.toNat_inj, toNat_and_high_mask a hk, toNat_and_high_mask b hk, mem_block,
    Nat.mul_left_inj (Nat.two_pow_pos k).ne']

/-- In a list laid out by `R`, two elements with none between them are neighbours. -/
theorem rel_of_consecutive {R P : α → α → Prop} {l : List α} (hl : l.Pairwise R) (hc : l.IsChain P)
    (ha : a ∈ l) (hb : b ∈ l) (hne : a ≠ b) (hback : ¬ R b a) (hgap : ∀ d ∈ l, R a d → ¬ R d b) :
    P a b := by
  induction l with
  | nil => cases ha
  | cons d rest ih =>
    obtain ⟨hd, hrest⟩ := List.pairwise_cons.mp hl
    have hgap' : ∀ e ∈ rest, R a e → ¬ R e b := fun e he => hgap e (List.mem_cons_of_mem _ he)
    rcases List.mem_cons.mp ha with had | ha'
    · subst had
      have hb' : b ∈ rest := (List.mem_cons.mp hb).resolve_left (Ne.symm hne)
      cases rest with
      | nil => cases hb'
      | cons e rest =>
        rcases List.mem_cons.mp hb' with hbe | hb''
        · subst hbe
          exact (List.isChain_cons_cons.mp hc).1
        · have heb := (List.pairwise_cons.mp hrest).1 b hb''
          exact absurd heb (hgap e (List.mem_cons_of_mem _ List.mem_cons_self) (hd e List.mem_cons_self))
    · rcases List.mem_cons.mp hb with hbd | hb'
      · subst hbd
        exact absurd (hd a ha') hback
      · exact ih hrest hc.tail ha' hb' hgap'

def Apart (s t : Set α) : Prop := ∀ x ∈ s, x ∉ t

/-- No set of the list lies inside `seen` and the sets before it taken together. -/
def Fresh (seen : Set α) : List (Set α) → Prop
  | [] => True
  | s :: ss => ¬ s ⊆ seen ∧ Fresh (seen ∪ s) ss

theorem Fresh.merge (h : Fresh seen (s :: t :: ss)) : Fresh seen ((s ∪ t) :: ss) := by
  obtain ⟨hs, -, hss⟩ := h
  rw [Set.union_assoc] at hss
  exact ⟨fun hst => hs (Set.subset_union_left.trans hst), hss⟩

theorem Fresh.not_subset_head (h : Fresh seen (s :: t :: ss)) : ¬ t ⊆ s :=
  fun hts => h.2.1 (hts.trans Set.subset_union_right)

end AiFw.Lib
