import AiFw.Lib.Dyadic
import AiFw.Lib.Text
import Mathlib.Algebra.Group.Nat.Defs
import Mathlib.Data.Prod.Lex

namespace AiFw.Net
open AiFw.Lib

set_option autoImplicit true

/-- `std::net::IpAddr`: an address of one of the two families. -/
inductive IpAddr where
  | v4 (addr : BitVec 32)
  | v6 (addr : BitVec 128)
deriving DecidableEq, Repr

def IpAddr.unspecifiedV4 : IpAddr := .v4 0

def IpAddr.width : IpAddr → Nat
  | .v4 _ => 32
  | .v6 _ => 128

/-- The derived order of the source: every IPv4 address comes before every IPv6 address. -/
def IpAddr.rank : IpAddr → Nat ×ₗ Nat
  | .v4 a => toLex (0, a.toNat)
  | .v6 a => toLex (1, a.toNat)

theorem IpAddr.rank_injective : Function.Injective IpAddr.rank := by
  intro a b h
  cases a <;> cases b <;>
    simp only [IpAddr.rank, EmbeddingLike.apply_eq_iff_eq, Prod.mk.injEq, BitVec.toNat_inj] at h
  · rw [h.2]
  · cases h.1
  · cases h.1
  · rw [h.2]

instance : LinearOrder IpAddr := LinearOrder.lift' IpAddr.rank IpAddr.rank_injective

/-- `Parser::read_number` with a digit limit: all the digits there are, then the checks. -/
def readNumber (radix maxDigits bound : Nat) (zeroPrefix : Bool) (s : List Char) :
    Option (Nat × List Char) :=
  let text := s.takeWhile fun c => (toDigit radix c).isSome
  let ds := text.filterMap (toDigit radix)
  if ds.length > maxDigits then none
  else if ds.length = 0 then none
  else if !zeroPrefix && s.head? == some '0' && ds.length > 1 then none
  else if digitsValue radix ds < bound then
    some (digitsValue radix ds, s.dropWhile fun c => (toDigit radix c).isSome)
  else none

def readGivenChar (c : Char) : List Char → Option (List Char)
  | d :: ds => if d = c then some ds else none
  | [] => none

def readIpv4Addr (s : List Char) : Option (BitVec 32 × List Char) := do
  let (a, s) ← readNumber 10 3 256 false s
  let s ← readGivenChar '.' s
  let (b, s) ← readNumber 10 3 256 false s
  let s ← readGivenChar '.' s
  let (c, s) ← readNumber 10 3 256 false s
  let s ← readGivenChar '.' s
  let (d, s) ← readNumber 10 3 256 false s
  return (BitVec.ofNat 32 (((a * 256 + b) * 256 + c) * 256 + d), s)

/-- `read_groups`: up to `limit` colon-separated groups with an optional embedded IPv4 tail,
which needs two groups of room. -/
def readGroups (first : Bool) : Nat → List Char → List Nat × Bool × List Char
  | 0, s => ([], false, s)
  | limit + 1, s =>
    let start := if first then some s else readGivenChar ':' s
    let ipv4 := if limit = 0 then none else start.bind readIpv4Addr
    match ipv4 with
    | some (a, rest) => ([a.toNat / 65536, a.toNat % 65536], true, rest)
    | none =>
      match start.bind (readNumber 16 4 65536 true) with
      | some (g, rest) =>
        let (gs, v4, rest) := readGroups false limit rest
        (g :: gs, v4, rest)
      | none => ([], false, s)

def ipv6OfGroups (groups : List Nat) : BitVec 128 :=
  BitVec.ofNat 128 (groups.foldl (fun acc g => acc * 65536 + g) 0)

def readIpv6Addr (s : List Char) : Option (BitVec 128 × List Char) :=
  let (head, headIpv4, rest) := readGroups true 8 s
  if head.length = 8 then some (ipv6OfGroups head, rest)
  else if headIpv4 then none
  else do
    let rest ← readGivenChar ':' rest
    let rest ← readGivenChar ':' rest
    let (tail, _, rest) := readGroups true (8 - (head.length + 1)) rest
    return (ipv6OfGroups (head ++ List.replicate (8 - head.length - tail.length) 0 ++ tail), rest)

/-- `str::parse::<IpAddr>`: the IPv6 reader runs only when the IPv4 one fails, and the whole
text has to be consumed. -/
def IpAddr.parse (s : List Char) : Option IpAddr :=
  let result :=
    match readIpv4Addr s with
    | some (a, rest) => some (IpAddr.v4 a, rest)
    | none => (readIpv6Addr s).map fun (a, rest) => (IpAddr.v6 a, rest)
  match result with
  | some (a, []) => some a
  | _ => none

example : IpAddr.parse "10.0.0.1".toList = some (.v4 0x0A000001) := by decide +kernel

example : IpAddr.parse "2001:db8::1".toList =
    some (.v6 0x20010DB8000000000000000000000001) := by decide +kernel

example : IpAddr.parse "10.0.0.01".toList = none := by decide +kernel

def IpAddr.toNat : IpAddr → Nat
  | .v4 a => a.toNat
  | .v6 a => a.toNat

def IpAddr.isIpv4 : IpAddr → Bool
  | .v4 _ => true
  | .v6 _ => false

def IpAddr.sameFamily : IpAddr → IpAddr → Bool
  | .v4 _, .v4 _ => true
  | .v6 _, .v6 _ => true
  | _, _ => false

/-- Same family and the same first `len` bits. -/
def IpAddr.inNet (net : IpAddr) (len : Nat) (ip : IpAddr) : Bool :=
  net.sameFamily ip && net.toNat / 2 ^ (net.width - len) == ip.toNat / 2 ^ (ip.width - len)

example : IpAddr.inNet (.v4 0x0A000001) 8 (.v4 0x0AFFFFFF) = true := by decide

theorem IpAddr.toNat_lt (ip : IpAddr) : ip.toNat < 2 ^ ip.width := by
  cases ip with
  | v4 a => exact a.isLt
  | v6 a => exact a.isLt

theorem IpAddr.width_pos (ip : IpAddr) : 0 < ip.width := by
  cases ip <;> exact Nat.zero_lt_succ _

theorem IpAddr.sameFamily_self (ip : IpAddr) : ip.sameFamily ip = true := by
  cases ip <;> rfl

theorem IpAddr.inNet_self (ip : IpAddr) (len : Nat) : ip.inNet len ip = true := by
  rw [inNet, sameFamily_self, Bool.true_and, beq_self_eq_true]

theorem IpAddr.inNet_zero (net ip : IpAddr) : net.inNet 0 ip = net.sameFamily ip := by
  rw [inNet, Nat.sub_zero, Nat.sub_zero, Nat.div_eq_of_lt net.toNat_lt, Nat.div_eq_of_lt ip.toNat_lt,
    beq_self_eq_true, Bool.and_true]

def flipBit (w : Nat) (a : BitVec w) : BitVec w := a + BitVec.ofNat w (2 ^ (w - 1))

/-- The address with its first bit flipped. -/
def IpAddr.flipTop : IpAddr → IpAddr
  | .v4 a => .v4 (flipBit 32 a)
  | .v6 a => .v6 (flipBit 128 a)

theorem IpAddr.sameFamily_flipTop (ip : IpAddr) : ip.sameFamily ip.flipTop = true := by
  cases ip <;> rfl

theorem div_pow_ne (hw : 0 < k) (hk : k ≤ w) (h : a / 2 ^ (w - 1) ≠ b / 2 ^ (w - 1)) :
    a / 2 ^ (w - k) ≠ b / 2 ^ (w - k) := by
  intro he
  apply h
  have hsplit : w - 1 = (w - k) + (k - 1) := by omega
  rw [hsplit, Nat.pow_add, ← Nat.div_div_eq_div_mul, ← Nat.div_div_eq_div_mul, he]

theorem flip_div_ne (hn : n < p * 2) : n / p ≠ (n + p) % (p * 2) / p := by
  rcases Nat.lt_or_ge n p with h | h
  · rw [Nat.mod_eq_of_lt (by omega), Nat.div_eq_of_lt h, Nat.add_div_right _ (by omega)]
    exact (Nat.succ_ne_zero _).symm
  · have hmod : (n + p) % (p * 2) = n - p := by
      rw [Nat.mod_eq_sub_mod (by omega), Nat.mod_eq_of_lt (by omega)]
      omega
    rw [hmod, Nat.div_eq_of_lt (by omega : n - p < p)]
    exact Nat.ne_of_gt (Nat.div_pos h (by omega))

theorem flipBit_div_ne (hw : 0 < w) (a : BitVec w) :
    a.toNat / 2 ^ (w - 1) ≠ (flipBit w a).toNat / 2 ^ (w - 1) := by
  have htwo : 2 ^ w = 2 ^ (w - 1) * 2 := by
    rw [← Nat.pow_succ, Nat.succ_eq_add_one, Nat.sub_add_cancel hw]
  have hlt := a.isLt
  rw [flipBit, BitVec.toNat_add, BitVec.toNat_ofNat,
    Nat.mod_eq_of_lt (Nat.pow_lt_pow_right (by decide) (by omega : w - 1 < w)), htwo]
  rw [htwo] at hlt
  exact flip_div_ne hlt

theorem IpAddr.inNet_flipTop (ip : IpAddr) (hl : 0 < len) (hle : len ≤ ip.width) :
    ip.inNet len ip.flipTop = false := by
  have hne : ip.toNat / 2 ^ (ip.width - len) ≠ ip.flipTop.toNat / 2 ^ (ip.flipTop.width - len) := by
    cases ip with
    | v4 a =>
      simp only [toNat, width, flipTop] at hle ⊢
      exact div_pow_ne hl hle (flipBit_div_ne (by decide) a)
    | v6 a =>
      simp only [toNat, width, flipTop] at hle ⊢
      exact div_pow_ne hl hle (flipBit_div_ne (by decide) a)
  rw [inNet, beq_eq_false_iff_ne.mpr hne, Bool.and_false]

theorem IpAddr.flipTop_ne (ip : IpAddr) : ip.flipTop ≠ ip := by
  intro he
  have hin := ip.inNet_flipTop ip.width_pos (Nat.le_refl _)
  rw [he, ip.inNet_self] at hin
  cases hin

theorem width_of_sameFamily {a b : IpAddr} (h : a.sameFamily b = true) : a.width = b.width := by
  cases a <;> cases b
  · rfl
  · cases h
  · cases h
  · rfl

theorem IpAddr.sameFamily_trans {a b c : IpAddr} (h : a.sameFamily b = true)
    (h' : b.sameFamily c = true) : a.sameFamily c = true := by
  cases a with
  | v4 a =>
    cases b with
    | v4 b => cases c with
      | v4 c => rfl
      | v6 c => cases h'
    | v6 b => cases h
  | v6 a =>
    cases b with
    | v4 b => cases h
    | v6 b => cases c with
      | v4 c => cases h'
      | v6 c => rfl

theorem IpAddr.sameFamily_comm (a b : IpAddr) : a.sameFamily b = b.sameFamily a := by
  cases a <;> cases b <;> rfl

theorem IpAddr.inNet_iff_div {a b : IpAddr} : a.inNet n b = true ↔
    a.sameFamily b = true ∧ a.toNat / 2 ^ (a.width - n) = b.toNat / 2 ^ (a.width - n) := by
  rw [inNet, Bool.and_eq_true, beq_iff_eq]
  apply and_congr_right
  intro h
  rw [width_of_sameFamily h]

/-- Two networks meet if the addresses agree on the shorter of the two prefixes: the longer one's
network then lies inside the other's. -/
theorem IpAddr.exists_inNet_iff (a b : IpAddr) (m n : Nat) :
    (∃ ip, a.inNet m ip = true ∧ b.inNet n ip = true) ↔ a.inNet (min m n) b = true := by
  simp only [inNet_iff_div]
  constructor
  · intro ⟨ip, ⟨hfam, ha⟩, hfam', hb⟩
    have hab : a.sameFamily b = true := by
      rw [b.sameFamily_comm ip] at hfam'
      exact sameFamily_trans hfam hfam'
    refine ⟨hab, ?_⟩
    have hwidth := width_of_sameFamily hab
    have ha := div_pow_eq_of_le (by omega : a.width - m ≤ a.width - min m n) ha
    have hb := div_pow_eq_of_le (by omega : b.width - n ≤ a.width - min m n) hb
    exact ha.trans hb.symm
  · intro ⟨hfam, hdiv⟩
    have hwidth := width_of_sameFamily hfam
    rcases Nat.le_total m n with h | h
    · rw [Nat.min_eq_left h] at hdiv
      exact ⟨b, ⟨hfam, hdiv⟩, b.sameFamily_self, rfl⟩
    · rw [Nat.min_eq_right h] at hdiv
      refine ⟨a, ⟨a.sameFamily_self, rfl⟩, b.sameFamily_comm a ▸ hfam, ?_⟩
      rw [← hwidth, hdiv]

end AiFw.Net
