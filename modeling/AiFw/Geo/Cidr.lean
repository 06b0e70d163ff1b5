import AiFw.Lib.Dyadic
import AiFw.Net.Network

namespace AiFw.Geo
open AiFw.Lib AiFw.Net
set_option autoImplicit true

/-- An `(IpAddr, u8)` pair of the source: an address, host bits and all, and a prefix length. -/
structure Cidr where
  ip : IpAddr
  prefixLen : UInt8
deriving DecidableEq, Repr

def octets (a : BitVec 32) : BitVec 8 × BitVec 8 × BitVec 8 × BitVec 8 :=
  (a.extractLsb' 24 8, a.extractLsb' 16 8, a.extractLsb' 8 8, a.extractLsb' 0 8)

/-- `ip_to_u128`: an IPv4 address takes the upper 32 bits of the space both families share. -/
def ipToU128 : IpAddr → BitVec 128
  | .v4 a =>
    let (a₀, a₁, a₂, a₃) := octets a
    (a₀.setWidth 128 <<< 120) ||| (a₁.setWidth 128 <<< 112) ||| (a₂.setWidth 128 <<< 104) |||
      (a₃.setWidth 128 <<< 96)
  | .v6 a => a

def u128ToIp (val : BitVec 128) (isV4 : Bool) : IpAddr :=
  if isV4 then
    let a := ((val >>> 120) &&& 0xFF).setWidth 8
    let b := ((val >>> 112) &&& 0xFF).setWidth 8
    let c := ((val >>> 104) &&& 0xFF).setWidth 8
    let d := ((val >>> 96) &&& 0xFF).setWidth 8
    .v4 (a ++ b ++ c ++ d)
  else .v6 val

/-- `1u128 << k` of a build without overflow checks, where the shift amount wraps. -/
def oneShl (k : UInt8) : BitVec 128 := 1#128 <<< (k.toNat % 128)

def subnetMask (parentPrefix : UInt8) : BitVec 128 :=
  if parentPrefix = 0 then 0#128 else ~~~(oneShl (128 - parentPrefix) - 1#128)

def isSubnetOf (child parent : Cidr) : Bool :=
  if child.prefixLen < parent.prefixLen then false
  else
    ipToU128 child.ip &&& subnetMask parent.prefixLen ==
      ipToU128 parent.ip &&& subnetMask parent.prefixLen

/-- `is_subnet_of` trips an overflow check: the prefix length exceeds the word. -/
def isSubnetOfOverflows (child parent : Cidr) : Bool :=
  decide (parent.prefixLen ≤ child.prefixLen) && decide (128 < parent.prefixLen)

theorem getLsbD_octet_shiftLeft (a : BitVec 32) (s : Nat) (hi : i < 128) :
    ((a.extractLsb' s 8).setWidth 128 <<< (s + 96)).getLsbD i =
      (decide (s + 96 ≤ i ∧ i < s + 104) && a.getLsbD (i - 96)) := by
  rw [BitVec.getLsbD_shiftLeft, BitVec.getLsbD_setWidth, BitVec.getLsbD_extractLsb']
  by_cases hl : s + 96 ≤ i
  · have hbit : s + (i - (s + 96)) = i - 96 := by omega
    rw [hbit]
    by_cases hu : i < s + 104
    · simp [hi, hl, hu, show ¬ i < s + 96 by omega, show i - (s + 96) < 128 by omega,
        show i - (s + 96) < 8 by omega]
    · simp [hu, show ¬ i - (s + 96) < 8 by omega]
  · simp [hl, show i < s + 96 by omega]

theorem ipToU128_v4 (a : BitVec 32) : ipToU128 (.v4 a) = a.setWidth 128 <<< 96 := by
  apply BitVec.eq_of_getLsbD_eq
  intro i hi
  have hright : (a.setWidth 128 <<< 96).getLsbD i = (decide (96 ≤ i) && a.getLsbD (i - 96)) := by
    rw [BitVec.getLsbD_shiftLeft, BitVec.getLsbD_setWidth]
    rw [decide_eq_true hi, decide_eq_true (show i - 96 < 128 by omega), Bool.true_and, Bool.true_and,
      ← decide_not, decide_eq_decide.mpr Nat.not_lt]
  rw [hright, ipToU128]
  simp only [octets, BitVec.getLsbD_or]
  rw [getLsbD_octet_shiftLeft a 24 hi, getLsbD_octet_shiftLeft a 16 hi, getLsbD_octet_shiftLeft a 8 hi,
    getLsbD_octet_shiftLeft a 0 hi, ← Bool.and_or_distrib_right, ← Bool.and_or_distrib_right,
    ← Bool.and_or_distrib_right]
  congr 1
  rw [Bool.eq_iff_iff]
  simp only [Bool.or_eq_true, decide_eq_true_eq]
  omega

theorem setWidth_shiftRight_and (v : BitVec 128) (t : Nat) :
    ((v >>> t) &&& 0xFF).setWidth 8 = v.extractLsb' t 8 := by
  apply BitVec.eq_of_getLsbD_eq
  intro i hi
  have hmask : (0xFF : BitVec 128).getLsbD i = true := by
    change (0xFF#128).getLsbD i = true
    rw [BitVec.getLsbD_ofNat, decide_eq_true (by omega : i < 128), Bool.true_and]
    exact (Nat.testBit_two_pow_sub_one 8 i).trans (decide_eq_true hi)
  rw [BitVec.getLsbD_setWidth, BitVec.getLsbD_and, BitVec.getLsbD_ushiftRight, BitVec.getLsbD_extractLsb']
  exact congrArg (decide (i < 8) && ·) (by rw [hmask, Bool.and_true])

theorem u128ToIp_true (v : BitVec 128) : u128ToIp v true = .v4 (v.extractLsb' 96 32) := by
  rw [u128ToIp, if_pos rfl]
  simp only [setWidth_shiftRight_and]
  congr 1
  rw [BitVec.extractLsb'_append_extractLsb'_eq_extractLsb' (by rfl : 120 = 112 + 8),
    BitVec.extractLsb'_append_extractLsb'_eq_extractLsb' (by rfl : 112 = 104 + 8),
    BitVec.extractLsb'_append_extractLsb'_eq_extractLsb' (by rfl : 104 = 96 + 8)]

/-- Where an address stands in the space both families share. -/
def place (ip : IpAddr) : Nat := (ipToU128 ip).toNat

theorem place_eq (ip : IpAddr) : place ip = ip.toNat * 2 ^ (128 - ip.width) := by
  cases ip with
  | v4 a =>
    have hlt : a.toNat * 2 ^ 96 < 2 ^ 128 := by
      have ha := a.isLt
      omega
    rw [place, ipToU128_v4, BitVec.toNat_shiftLeft, BitVec.toNat_setWidth_of_le (by decide),
      Nat.shiftLeft_eq, Nat.mod_eq_of_lt hlt]
    rfl
  | v6 a => exact (Nat.mul_one a.toNat).symm

theorem place_lt (ip : IpAddr) : place ip < 2 ^ 128 := (ipToU128 ip).isLt

theorem width_le (ip : IpAddr) : ip.width ≤ 128 := by
  cases ip with
  | v4 a => exact (by decide : 32 ≤ 128)
  | v6 a => exact Nat.le_refl 128

/-- Membership in a network, read off the places in the shared space. -/
theorem inNet_iff {net ip : IpAddr} (hr : len ≤ net.width) :
    net.inNet len ip = true ↔ net.sameFamily ip = true ∧ place ip ∈ block (128 - len) (place net) := by
  rw [IpAddr.inNet, Bool.and_eq_true, beq_iff_eq]
  apply and_congr_right
  intro hf
  have hw := width_of_sameFamily hf
  have hle := width_le net
  have hsplit : 128 - len = (net.width - len) + (128 - net.width) := by omega
  rw [mem_block, place_eq, place_eq, ← hw, hsplit, Nat.pow_add,
    Nat.mul_div_mul_right _ _ (Nat.two_pow_pos _), Nat.mul_div_mul_right _ _ (Nat.two_pow_pos _), eq_comm]

theorem place_u128ToIp_true {v : BitVec 128} (h : 2 ^ 96 ∣ v.toNat) : place (u128ToIp v true) = v.toNat := by
  have hlt : v.toNat / 2 ^ 96 < 2 ^ 32 := by
    have hv := v.isLt
    omega
  rw [u128ToIp_true, place_eq]
  change (v.extractLsb' 96 32).toNat * 2 ^ 96 = v.toNat
  rw [BitVec.extractLsb'_toNat, Nat.shiftRight_eq_div_pow, Nat.mod_eq_of_lt hlt, Nat.div_mul_cancel h]

/-- The place of an address rebuilt from the high bits of another one. -/
theorem place_u128ToIp (ip : IpAddr) (hk : 128 - ip.width ≤ k) (hk' : k < 128) :
    place (u128ToIp (ipToU128 ip &&& ~~~((1#128 <<< k) - 1#128)) ip.isIpv4) =
      place ip / 2 ^ k * 2 ^ k := by
  have hclear := toNat_and_high_mask (ipToU128 ip) hk'
  cases ip with
  | v4 a =>
    have hdvd : 2 ^ 96 ∣ (ipToU128 (.v4 a) &&& ~~~((1#128 <<< k) - 1#128)).toNat := by
      rw [hclear]
      exact Nat.dvd_mul_left_of_dvd (Nat.pow_dvd_pow 2 hk) _
    exact (place_u128ToIp_true hdvd).trans hclear
  | v6 a => exact hclear

theorem isIpv4_u128ToIp (v : BitVec 128) (isV4 : Bool) : (u128ToIp v isV4).isIpv4 = isV4 := by
  cases isV4 <;> rfl

theorem sameFamily_iff (a b : IpAddr) : a.sameFamily b = true ↔ a.isIpv4 = b.isIpv4 := by
  cases a <;> cases b <;> simp [IpAddr.sameFamily, IpAddr.isIpv4]

theorem width_eq (ip : IpAddr) : ip.width = if ip.isIpv4 then 32 else 128 := by
  cases ip <;> rfl

namespace Cidr

/-- The prefix is no longer than the address. -/
def InRange (e : Cidr) : Prop := e.prefixLen.toNat ≤ e.ip.width

instance (e : Cidr) : Decidable e.InRange := inferInstanceAs (Decidable (_ ≤ _))

def level (e : Cidr) : Nat := 128 - e.prefixLen.toNat

/-- The part of the shared space a pair takes up. -/
def block (e : Cidr) : Set Nat := Lib.block e.level (place e.ip)

/-- The addresses of the network the pair stands for. -/
def Holds (e : Cidr) (ip : IpAddr) : Prop := e.ip.inNet e.prefixLen.toNat ip = true

instance (e : Cidr) (ip : IpAddr) : Decidable (e.Holds ip) := inferInstanceAs (Decidable (_ = _))

theorem InRange.le (h : InRange e) : e.prefixLen.toNat ≤ 128 := h.trans (width_le e.ip)

theorem place_mem_block (e : Cidr) : place e.ip ∈ e.block := self_mem_block _ _

theorem holds_iff {addr : IpAddr} (h : InRange e) :
    e.Holds addr ↔ e.ip.isIpv4 = addr.isIpv4 ∧ place addr ∈ e.block := by
  rw [Holds, inNet_iff h, sameFamily_iff]
  rfl

end Cidr

theorem toNat_shift_amount {p : UInt8} (hp : p.toNat ≤ 128) : (128 - p).toNat = 128 - p.toNat :=
  UInt8.toNat_sub_of_le _ _ (UInt8.le_iff_toNat_le.mpr hp)

theorem oneShl_sub {p : UInt8} (hp : p.toNat ≤ 128) (hpos : p ≠ 0) :
    oneShl (128 - p) = 1#128 <<< (128 - p.toNat) := by
  have hne : p.toNat ≠ 0 := fun h => hpos (UInt8.toNat_inj.mp h)
  rw [oneShl, toNat_shift_amount hp, Nat.mod_eq_of_lt (by omega)]

theorem and_subnetMask_eq_iff {p : UInt8} (hp : p.toNat ≤ 128) (a b : BitVec 128) :
    a &&& subnetMask p = b &&& subnetMask p ↔ a.toNat ∈ block (128 - p.toNat) b.toNat := by
  rw [subnetMask]
  split_ifs with hzero
  · rw [BitVec.and_zero, BitVec.and_zero, hzero, mem_block]
    exact iff_of_true rfl ((Nat.div_eq_of_lt a.isLt).trans (Nat.div_eq_of_lt b.isLt).symm)
  · have hne : p.toNat ≠ 0 := fun h => hzero (UInt8.toNat_inj.mp h)
    rw [oneShl_sub hp hzero, and_high_mask_eq_iff _ _ (by omega)]

/-- The code's test, as membership of the child's address in the parent's block. -/
theorem isSubnetOf_iff {child parent : Cidr} (hp : parent.prefixLen.toNat ≤ 128) :
    isSubnetOf child parent = true ↔
      parent.prefixLen.toNat ≤ child.prefixLen.toNat ∧ place child.ip ∈ parent.block := by
  rw [isSubnetOf]
  split_ifs with hlt
  · rw [UInt8.lt_iff_toNat_lt] at hlt
    exact ⟨fun h => (by cases h), fun h => absurd h.1 (by omega)⟩
  · rw [UInt8.lt_iff_toNat_lt] at hlt
    rw [beq_iff_eq, and_subnetMask_eq_iff hp]
    exact ⟨fun h => ⟨by omega, h⟩, fun h => h.2⟩

theorem isSubnetOf_iff_subset {child parent : Cidr} (hc : child.prefixLen.toNat ≤ 128)
    (hp : parent.prefixLen.toNat ≤ 128) :
    isSubnetOf child parent = true ↔ child.block ⊆ parent.block := by
  rw [isSubnetOf_iff hp, Cidr.block, Cidr.block, block_subset_iff, Cidr.level, Cidr.level]
  exact and_congr_left fun _ => by omega

theorem isSubnetOfOverflows_eq_false {child parent : Cidr} (hp : parent.prefixLen.toNat ≤ 128) :
    isSubnetOfOverflows child parent = false := by
  have hlt : ¬ 128 < parent.prefixLen := by
    rw [UInt8.lt_iff_toNat_lt]
    exact Nat.not_lt.mpr hp
  rw [isSubnetOfOverflows, decide_eq_false hlt, Bool.and_false]

end AiFw.Geo
