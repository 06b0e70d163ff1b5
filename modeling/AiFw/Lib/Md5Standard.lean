import AiFw.Lib.BitGroups
import Mathlib.Analysis.Complex.Basic
import Mathlib.Analysis.Complex.Trigonometric
import Mathlib.Tactic.LinearCombination

namespace AiFw.Lib
set_option autoImplicit true

/-- The parts of a power of a number with whole parts. -/
def wholePow (a b : Int) : Nat → Int × Int
  | 0 => (1, 0)
  | n + 1 =>
    let (x, y) := wholePow a b n
    (x * a - y * b, x * b + y * a)

theorem wholePow_eq (a b : Int) (n : Nat) :
    (((wholePow a b n).1 : ℂ) + (wholePow a b n).2 * Complex.I) = (a + b * Complex.I) ^ n := by
  induction n with
  | zero => simp [wholePow]
  | succ n ih =>
    rw [pow_succ, ← ih, wholePow]
    push_cast
    linear_combination (-(wholePow a b n).2 * b : ℂ) * Complex.I_sq

/-- The powers of a number near one of absolute value 1 are near its powers. -/
theorem norm_pow_sub_pow_le {z w : ℂ} {ε : ℝ} (hz : ‖z‖ = 1) (h : ‖z - w‖ ≤ ε) {n : Nat}
    (hn : 2 * n * ε ≤ 1) : ‖z ^ n - w ^ n‖ ≤ 2 * n * ε := by
  have hpos : 0 ≤ ε := (norm_nonneg _).trans h
  induction n with
  | zero => simp
  | succ n ih =>
    push_cast at hn ⊢
    have hrest := ih (by nlinarith)
    have hw : ‖w ^ n‖ ≤ 2 := by
      have hsub : ‖w ^ n‖ ≤ ‖z ^ n‖ + ‖z ^ n - w ^ n‖ := by
        rw [norm_sub_rev]
        exact norm_le_insert' _ _
      rw [norm_pow z, hz, one_pow] at hsub
      linarith [mul_nonneg (Nat.cast_nonneg (α := ℝ) n) hpos]
    calc ‖z ^ (n + 1) - w ^ (n + 1)‖ = ‖(z ^ n - w ^ n) * z + w ^ n * (z - w)‖ := by
          congr 1
          ring
      _ ≤ ‖z ^ n - w ^ n‖ * ‖z‖ + ‖w ^ n‖ * ‖z - w‖ := by
          rw [← norm_mul, ← norm_mul]
          exact norm_add_le _ _
      _ ≤ 2 * (n + 1) * ε := by
          rw [hz, mul_one]
          nlinarith [mul_le_mul hw h (norm_nonneg _) (by norm_num : (0 : ℝ) ≤ 2)]

theorem sum_pairs (f : Nat → ℂ) (n : Nat) :
    ∑ m ∈ Finset.range (2 * n), f m = ∑ k ∈ Finset.range n, (f (2 * k) + f (2 * k + 1)) := by
  induction n with
  | zero => rfl
  | succ n ih =>
    rw [Nat.mul_succ, Finset.sum_range_succ, Finset.sum_range_succ, Finset.sum_range_succ, ih,
      add_assoc]

/-- The parts of the first 24 terms of the series of `e^i`, times 23 factorial. -/
def seriesParts : Int × Int := (13967904255361298514403, 21753721984539766369345)

theorem norm_exp_I_sub_le : ‖Complex.exp Complex.I -
    (seriesParts.1 + seriesParts.2 * Complex.I) / (23).factorial‖ ≤ 1 / (22 * (23).factorial) := by
  have hbound := Complex.exp_bound (x := Complex.I) (by rw [Complex.norm_I]) (n := 24) (by decide)
  have hsum : ∑ m ∈ Finset.range (2 * 12), Complex.I ^ m / m.factorial =
      (seriesParts.1 + seriesParts.2 * Complex.I) / (23).factorial := by
    have heven (k : Nat) : Complex.I ^ (2 * k) = (-1) ^ k := by rw [pow_mul, Complex.I_sq]
    have hodd (k : Nat) : Complex.I ^ (2 * k + 1) = (-1) ^ k * Complex.I := by
      rw [pow_succ, heven]
    rw [sum_pairs, seriesParts]
    simp_rw [heven, hodd]
    simp only [Finset.sum_range_succ, Finset.sum_range_zero, Nat.factorial]
    push_cast
    ring
  rw [hsum, Complex.norm_I, one_pow, one_mul] at hbound
  apply hbound.trans
  norm_num [Nat.factorial]

/-- The imaginary part of a power of the parts. -/
def sinePart (n : Nat) : Int := (wholePow seriesParts.1 seriesParts.2 n).2

theorem abs_sin_sub_le {n : Nat} (hn : n ≤ 64) :
    |Real.sin n - sinePart n / (23).factorial ^ n| ≤ n / (11 * (23).factorial) := by
  have hexp : ‖Complex.exp Complex.I‖ = 1 := by
    have hone := Complex.norm_exp_ofReal_mul_I 1
    rwa [Complex.ofReal_one, one_mul] at hone
  have hsmall : 2 * (n : ℝ) * (1 / (22 * (23).factorial)) ≤ 1 := by
    have hcast : (n : ℝ) ≤ 64 := by exact_mod_cast hn
    norm_num [Nat.factorial]
    linarith
  have hpow := norm_pow_sub_pow_le hexp norm_exp_I_sub_le hsmall
  have hsin : (Complex.exp Complex.I ^ n).im = Real.sin n := by
    rw [← Complex.exp_nat_mul, ← Complex.ofReal_natCast, Complex.exp_ofReal_mul_I_im]
  have hwhole : (((seriesParts.1 + seriesParts.2 * Complex.I) / (23).factorial) ^ n).im =
      sinePart n / (23).factorial ^ n := by
    rw [div_pow, ← wholePow_eq, ← Nat.cast_pow, Complex.div_natCast_im, Nat.cast_pow, sinePart]
    simp
  have him := (Complex.abs_im_le_norm _).trans hpow
  rw [Complex.sub_im, hsin, hwhole] at him
  apply him.trans (le_of_eq _)
  ring

/-- What is known of the sine tells that `k` is the whole part of 2^32 times its absolute value. -/
def SineNear (n k : Nat) : Prop :=
  11 * k * (23).factorial ^ (n + 1) + 2 ^ 32 * n * (23).factorial ^ n ≤
      11 * 2 ^ 32 * (sinePart n).natAbs * (23).factorial ∧
    11 * 2 ^ 32 * (sinePart n).natAbs * (23).factorial + 2 ^ 32 * n * (23).factorial ^ n <
      11 * (k + 1) * (23).factorial ^ (n + 1)

instance : Decidable (SineNear n k) := inferInstanceAs (Decidable (_ ∧ _))

/-- A bound by whole numbers, divided by their common scale. -/
theorem scaled_eq {D : ℝ} (hD : 0 < D) (n : Nat) (k l x y : ℝ) :
    k + l * (x / (11 * D)) - l * (y / D ^ n) =
      (11 * k * D ^ (n + 1) + l * x * D ^ n - 11 * l * y * D) / (11 * D ^ (n + 1)) := by
  have hne : D ≠ 0 := ne_of_gt hD
  field_simp
  ring

theorem floor_sin_eq {n k : Nat} (hn : n ≤ 64) (h : SineNear n k) :
    ⌊4294967296 * |Real.sin n|⌋₊ = k := by
  obtain ⟨hlow, hhigh⟩ := h
  have hlow' := (Nat.cast_le (α := ℝ)).mpr hlow
  have hhigh' := (Nat.cast_lt (α := ℝ)).mpr hhigh
  have hnear := (abs_abs_sub_abs_le _ _).trans (abs_sin_sub_le hn)
  have hD : (0 : ℝ) < (23).factorial := by positivity
  have hscale : (0 : ℝ) < 11 * (23).factorial ^ (n + 1) := by positivity
  rw [abs_div, abs_of_pos (pow_pos hD n), ← Int.cast_abs, Int.abs_eq_natAbs, Int.cast_natCast,
    abs_le] at hnear
  push_cast at hlow' hhigh'
  have hbelow : (k : ℝ) + 4294967296 * (n / (11 * (23).factorial)) -
      4294967296 * ((sinePart n).natAbs / (23).factorial ^ n) ≤ 0 := by
    rw [scaled_eq hD]
    apply div_nonpos_of_nonpos_of_nonneg _ hscale.le
    linarith
  have habove : -((k : ℝ) + 1) + 4294967296 * (n / (11 * (23).factorial)) -
      4294967296 * (-(sinePart n).natAbs / (23).factorial ^ n) < 0 := by
    rw [scaled_eq hD]
    apply div_neg_of_neg_of_pos _ hscale
    linarith
  rw [neg_div] at habove
  rw [Nat.floor_eq_iff (by positivity)]
  constructor
  · linarith
  · linarith

namespace Md5Standard

abbrev Word := BitVec 32

def f (x y z : Word) : Word := (x &&& y) ||| (~~~x &&& z)

def g (x y z : Word) : Word := (x &&& z) ||| (y &&& ~~~z)

def h (x y z : Word) : Word := x ^^^ y ^^^ z

def i (x y z : Word) : Word := y ^^^ (x ||| ~~~z)

/-- The table of sines. -/
noncomputable def t (n : Nat) : Word := BitVec.ofNat 32 ⌊4294967296 * |Real.sin n|⌋₊

/-- The zeros between the one that ends a message and its length. -/
def zeros (l : Nat) : Nat := (959 - l % 512) % 512

/-- They are the fewest that leave 64 bits of the last block. -/
theorem zeros_least (l : Nat) : (l + 1 + zeros l) % 512 = 448 ∧ ∀ n < zeros l,
    (l + 1 + n) % 512 ≠ 448 := by
  unfold zeros
  constructor
  · omega
  · intro n hn
    omega

/-- Bits with their bytes the other way round: the byte of lowest order is the first one. -/
def lowFirst (bits : List Bool) : List Bool := (wholeGroups 8 bits).reverse.flatten

def padded (m : List Bool) : List Bool :=
  m ++ true :: List.replicate (zeros m.length) false ++ lowFirst (toBits 64 m.length)

def words (bits : List Bool) : List Word :=
  (wholeGroups 32 bits).map fun group => BitVec.ofNat 32 (ofBits (lowFirst group))

def blocks (m : List Bool) : List (List Word) := (wholeGroups 512 (padded m)).map words

structure Registers where
  a : Word
  b : Word
  c : Word
  d : Word

def initial : Registers := ⟨0x67452301, 0xefcdab89, 0x98badcfe, 0x10325476⟩

/-- The registers in the order an operation names them; the first one is the one it changes. -/
inductive Order where
  | abcd
  | dabc
  | cdab
  | bcda

/-- `[abcd k s n]`: a word of the block, an amount to rotate by and an entry of the table. -/
structure Operation where
  order : Order
  k : Nat
  s : Nat
  n : Nat

noncomputable def Operation.apply (fn : Word → Word → Word → Word) (x : List Word) (r : Registers)
    (o : Operation) : Registers :=
  match o.order with
  | .abcd => { r with a := r.b + (r.a + fn r.b r.c r.d + x.getD o.k 0 + t o.n).rotateLeft o.s }
  | .dabc => { r with d := r.a + (r.d + fn r.a r.b r.c + x.getD o.k 0 + t o.n).rotateLeft o.s }
  | .cdab => { r with c := r.d + (r.c + fn r.d r.a r.b + x.getD o.k 0 + t o.n).rotateLeft o.s }
  | .bcda => { r with b := r.c + (r.b + fn r.c r.d r.a + x.getD o.k 0 + t o.n).rotateLeft o.s }

def round1 : List Operation :=
  [⟨.abcd, 0, 7, 1⟩, ⟨.dabc, 1, 12, 2⟩, ⟨.cdab, 2, 17, 3⟩, ⟨.bcda, 3, 22, 4⟩,
    ⟨.abcd, 4, 7, 5⟩, ⟨.dabc, 5, 12, 6⟩, ⟨.cdab, 6, 17, 7⟩, ⟨.bcda, 7, 22, 8⟩,
    ⟨.abcd, 8, 7, 9⟩, ⟨.dabc, 9, 12, 10⟩, ⟨.cdab, 10, 17, 11⟩, ⟨.bcda, 11, 22, 12⟩,
    ⟨.abcd, 12, 7, 13⟩, ⟨.dabc, 13, 12, 14⟩, ⟨.cdab, 14, 17, 15⟩, ⟨.bcda, 15, 22, 16⟩]

def round2 : List Operation :=
  [⟨.abcd, 1, 5, 17⟩, ⟨.dabc, 6, 9, 18⟩, ⟨.cdab, 11, 14, 19⟩, ⟨.bcda, 0, 20, 20⟩,
    ⟨.abcd, 5, 5, 21⟩, ⟨.dabc, 10, 9, 22⟩, ⟨.cdab, 15, 14, 23⟩, ⟨.bcda, 4, 20, 24⟩,
    ⟨.abcd, 9, 5, 25⟩, ⟨.dabc, 14, 9, 26⟩, ⟨.cdab, 3, 14, 27⟩, ⟨.bcda, 8, 20, 28⟩,
    ⟨.abcd, 13, 5, 29⟩, ⟨.dabc, 2, 9, 30⟩, ⟨.cdab, 7, 14, 31⟩, ⟨.bcda, 12, 20, 32⟩]

def round3 : List Operation :=
  [⟨.abcd, 5, 4, 33⟩, ⟨.dabc, 8, 11, 34⟩, ⟨.cdab, 11, 16, 35⟩, ⟨.bcda, 14, 23, 36⟩,
    ⟨.abcd, 1, 4, 37⟩, ⟨.dabc, 4, 11, 38⟩, ⟨.cdab, 7, 16, 39⟩, ⟨.bcda, 10, 23, 40⟩,
    ⟨.abcd, 13, 4, 41⟩, ⟨.dabc, 0, 11, 42⟩, ⟨.cdab, 3, 16, 43⟩, ⟨.bcda, 6, 23, 44⟩,
    ⟨.abcd, 9, 4, 45⟩, ⟨.dabc, 12, 11, 46⟩, ⟨.cdab, 15, 16, 47⟩, ⟨.bcda, 2, 23, 48⟩]

def round4 : List Operation :=
  [⟨.abcd, 0, 6, 49⟩, ⟨.dabc, 7, 10, 50⟩, ⟨.cdab, 14, 15, 51⟩, ⟨.bcda, 5, 21, 52⟩,
    ⟨.abcd, 12, 6, 53⟩, ⟨.dabc, 3, 10, 54⟩, ⟨.cdab, 10, 15, 55⟩, ⟨.bcda, 1, 21, 56⟩,
    ⟨.abcd, 8, 6, 57⟩, ⟨.dabc, 15, 10, 58⟩, ⟨.cdab, 6, 15, 59⟩, ⟨.bcda, 13, 21, 60⟩,
    ⟨.abcd, 4, 6, 61⟩, ⟨.dabc, 11, 10, 62⟩, ⟨.cdab, 2, 15, 63⟩, ⟨.bcda, 9, 21, 64⟩]

/-- The four rounds over the words of a block. -/
noncomputable def rounds (x : List Word) (r : Registers) : Registers :=
  round4.foldl (Operation.apply i x) (round3.foldl (Operation.apply h x)
    (round2.foldl (Operation.apply g x) (round1.foldl (Operation.apply f x) r)))

noncomputable def compress (r : Registers) (block : List Word) : Registers :=
  let s := rounds block r
  ⟨s.a + r.a, s.b + r.b, s.c + r.c, s.d + r.d⟩

noncomputable def digest (m : List Bool) : List Bool :=
  let r := (blocks m).foldl compress initial
  [r.a, r.b, r.c, r.d].flatMap fun word => lowFirst (toBits 32 word.toNat)

/-- The digest of a message of whole bytes. -/
noncomputable def hash (m : List UInt8) : List UInt8 := bytesOf (digest (bitsOf m))

end Md5Standard

end AiFw.Lib
