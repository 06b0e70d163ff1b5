import Mathlib.Data.Int.Log
import Mathlib.Data.Rat.Floor
import Mathlib.Algebra.Order.Floor.Ring

namespace AiFw.Lib
set_option autoImplicit true

/-- Double-precision values by what they denote; the sign of a zero is not kept, as neither the
order nor a conversion to an integer sees it. -/
inductive F64 where
  | nan
  | inf (negative : Bool)
  | fin (value : ℚ)
deriving DecidableEq, Repr

def roundHalfEven (x : ℚ) : ℤ :=
  if x - ⌊x⌋ < 1 / 2 then ⌊x⌋
  else if 1 / 2 < x - ⌊x⌋ then ⌊x⌋ + 1
  else ⌊x⌋ + ⌊x⌋ % 2

theorem roundHalfEven_intCast (n : ℤ) : roundHalfEven n = n := by
  rw [roundHalfEven, Int.floor_intCast, sub_self, if_pos (by norm_num)]

namespace F64

/-- The exponent of the last place of a double of the magnitude of `q`. -/
def lastPlace (q : ℚ) : ℤ := max (Int.log 2 |q|) (-1022) - 52

/-- The nearest double, with ties to the even significand. -/
def round (q : ℚ) : F64 :=
  let r : ℚ := roundHalfEven (q / 2 ^ lastPlace q) * 2 ^ lastPlace q
  if 2 ^ 1024 ≤ |r| then .inf (decide (r < 0)) else .fin r

def ofNat (n : Nat) : F64 := round n

def lt : F64 → F64 → Bool
  | .nan, _ => false
  | _, .nan => false
  | .inf n, .inf n' => n && !n'
  | .inf n, .fin _ => n
  | .fin _, .inf n => !n
  | .fin q, .fin q' => q < q'

def le : F64 → F64 → Bool
  | .nan, _ => false
  | _, .nan => false
  | .inf n, .inf n' => n || !n'
  | .inf n, .fin _ => n
  | .fin _, .inf n => !n
  | .fin q, .fin q' => q ≤ q'

def abs : F64 → F64
  | .nan => .nan
  | .inf _ => .inf false
  | .fin q => .fin |q|

def add : F64 → F64 → F64
  | .nan, _ => .nan
  | _, .nan => .nan
  | .inf n, .inf n' => if n = n' then .inf n else .nan
  | .inf n, .fin _ => .inf n
  | .fin _, .inf n => .inf n
  | .fin q, .fin q' => round (q + q')

def sub : F64 → F64 → F64
  | .nan, _ => .nan
  | _, .nan => .nan
  | .inf n, .inf n' => if n = n' then .nan else .inf n
  | .inf n, .fin _ => .inf n
  | .fin _, .inf n => .inf (!n)
  | .fin q, .fin q' => round (q - q')

def mul : F64 → F64 → F64
  | .nan, _ => .nan
  | _, .nan => .nan
  | .inf n, .inf n' => .inf (n != n')
  | .inf n, .fin q => if q = 0 then .nan else .inf (n != decide (q < 0))
  | .fin q, .inf n => if q = 0 then .nan else .inf (n != decide (q < 0))
  | .fin q, .fin q' => round (q * q')

/-- A zero divisor counts as a positive zero. -/
def div : F64 → F64 → F64
  | .nan, _ => .nan
  | _, .nan => .nan
  | .inf _, .inf _ => .nan
  | .inf n, .fin q => .inf (n != decide (q < 0))
  | .fin _, .inf _ => .fin 0
  | .fin q, .fin q' =>
    if q' = 0 then (if q = 0 then .nan else .inf (decide (q < 0))) else round (q / q')

def clamp (x lo hi : F64) : F64 := if x.lt lo then lo else if hi.lt x then hi else x

/-- The cast to an unsigned integer of at most `max`: towards zero and saturating. -/
def toUnsigned (max : Nat) : F64 → Nat
  | .nan => 0
  | .inf n => if n then 0 else max
  | .fin q => min ⌊q⌋₊ max

theorem round_natCast {n : Nat} (hn : n < 2 ^ 53) : round (n : ℚ) = .fin n := by
  obtain rfl | hpos := Nat.eq_zero_or_pos n
  · simp [round, roundHalfEven]
  have hlog : Nat.log 2 n ≤ 52 := Nat.lt_succ_iff.mp (Nat.log_lt_of_lt_pow hpos.ne' hn)
  obtain ⟨k, hk⟩ := Nat.exists_eq_add_of_le hlog
  have hplace : lastPlace (n : ℚ) = -(k : ℤ) := by
    rw [lastPlace, Nat.abs_cast, Int.log_natCast]
    omega
  have hscaled : (n : ℚ) / 2 ^ (-(k : ℤ)) = ((n * 2 ^ k : ℤ) : ℚ) := by
    rw [zpow_neg, zpow_natCast, div_inv_eq_mul]
    push_cast
    rfl
  have hback : ((n * 2 ^ k : ℤ) : ℚ) * 2 ^ (-(k : ℤ)) = n := by
    rw [← hscaled, div_mul_cancel₀]
    exact zpow_ne_zero _ two_ne_zero
  have hsmall : ¬ (2 : ℚ) ^ 1024 ≤ |(n : ℚ)| := by
    rw [Nat.abs_cast, not_le]
    have hlt : (n : ℚ) < 2 ^ 53 := by exact_mod_cast hn
    exact hlt.trans (pow_lt_pow_right₀ (by norm_num) (by norm_num))
  simp only [round]
  rw [hplace, hscaled, roundHalfEven_intCast, hback, if_neg hsmall]

theorem round_zero : round 0 = .fin 0 := by
  exact_mod_cast round_natCast (n := 0) (by norm_num)

theorem round_one : round 1 = .fin 1 := by
  exact_mod_cast round_natCast (n := 1) (by norm_num)

end F64

end AiFw.Lib
