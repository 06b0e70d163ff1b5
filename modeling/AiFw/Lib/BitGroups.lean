import Mathlib.Data.List.Basic
import Mathlib.Data.Nat.Bitwise
import Mathlib.Data.Nat.Digits.Defs
import Mathlib.Tactic.Ring

namespace AiFw.Lib
set_option autoImplicit true

/-- The last bits of a number, the highest first. -/
def toBits : Nat → Nat → List Bool
  | 0, _ => []
  | w + 1, n => n.testBit w :: toBits w n

/-- The number that bits stand for, the highest first. -/
def ofBits (bs : List Bool) : Nat := bs.foldl (fun n b => 2 * n + b.toNat) 0

@[simp] theorem length_toBits (w n : Nat) : (toBits w n).length = w := by
  induction w with
  | zero => rfl
  | succ w ih => rw [toBits, List.length_cons, ih]

theorem foldl_bits (bs : List Bool) (n : Nat) :
    bs.foldl (fun n b => 2 * n + b.toNat) n = n * 2 ^ bs.length + ofBits bs := by
  unfold ofBits
  induction bs generalizing n with
  | nil => simp
  | cons b bs ih =>
    rw [List.foldl_cons, List.foldl_cons, ih, ih (2 * 0 + b.toNat), List.length_cons]
    ring

theorem ofBits_append (a b : List Bool) : ofBits (a ++ b) = ofBits a * 2 ^ b.length + ofBits b := by
  rw [ofBits, List.foldl_append, foldl_bits b]
  rfl

theorem ofBits_cons (b : Bool) (bs : List Bool) :
    ofBits (b :: bs) = b.toNat * 2 ^ bs.length + ofBits bs := by
  rw [ofBits, List.foldl_cons, foldl_bits]
  simp

theorem ofBits_lt (bs : List Bool) : ofBits bs < 2 ^ bs.length := by
  induction bs with
  | nil => decide
  | cons b bs ih =>
    rw [ofBits_cons, List.length_cons, pow_succ]
    cases b <;> simp only [Bool.toNat_true, Bool.toNat_false] <;> omega

theorem ofBits_toBits (w n : Nat) : ofBits (toBits w n) = n % 2 ^ w := by
  induction w with
  | zero => simp [toBits, ofBits, Nat.mod_one]
  | succ w ih =>
    have hbit := Nat.toNat_testBit n w
    rw [toBits, ofBits_cons, ih, length_toBits, hbit, pow_succ, Nat.mod_mul]
    ring

/-- Only the last bits count. -/
theorem toBits_congr {w n m : Nat} (h : ∀ i < w, n.testBit i = m.testBit i) :
    toBits w n = toBits w m := by
  induction w with
  | zero => rfl
  | succ w ih =>
    rw [toBits, toBits, h w (Nat.lt_succ_self w), ih fun i hi => h i (Nat.lt_succ_of_lt hi)]

theorem toBits_mod {w k : Nat} (h : w ≤ k) (n : Nat) : toBits w (n % 2 ^ k) = toBits w n := by
  apply toBits_congr
  intro i hi
  rw [Nat.testBit_mod_two_pow]
  simp [hi.trans_le h]

theorem toBits_append (v w n : Nat) : toBits (v + w) n = toBits v (n >>> w) ++ toBits w n := by
  induction v with
  | zero => rw [Nat.zero_add]; rfl
  | succ v ih =>
    rw [Nat.add_right_comm, toBits, toBits, ih, Nat.testBit_shiftRight, Nat.add_comm w v]
    rfl

theorem toBits_ofBits (bs : List Bool) : toBits bs.length (ofBits bs) = bs := by
  induction bs with
  | nil => rfl
  | cons b bs ih =>
    have hlt := ofBits_lt bs
    rw [List.length_cons, toBits, ofBits_cons]
    have hbit : (b.toNat * 2 ^ bs.length + ofBits bs).testBit bs.length = b := by
      rw [Nat.testBit_eq_decide_div_mod_eq, Nat.mul_comm, Nat.mul_add_div (Nat.two_pow_pos _),
        Nat.div_eq_of_lt hlt]
      cases b <;> rfl
    have hrest : toBits bs.length (b.toNat * 2 ^ bs.length + ofBits bs) = bs := by
      rw [← toBits_mod (Nat.le_refl _), Nat.mul_comm, Nat.mul_add_mod, Nat.mod_eq_of_lt hlt, ih]
    rw [hbit, hrest]

theorem toBits_zero (w : Nat) : toBits w 0 = List.replicate w false := by
  induction w with
  | zero => rfl
  | succ w ih => rw [toBits, ih, Nat.zero_testBit, List.replicate_succ]

theorem drop_toBits (v w n : Nat) : (toBits (v + w) n).drop v = toBits w n := by
  rw [toBits_append, List.drop_left' (length_toBits v _)]

/-- A number shifted to make place for another one. -/
theorem toBits_shift_or {v w k n m : Nat} (hk : v + w ≤ k) (hm : m < 2 ^ w) :
    toBits (v + w) (n <<< w % 2 ^ k ||| m) = toBits v n ++ toBits w m := by
  rw [toBits_append]
  congr 1
  · apply toBits_congr
    intro i hi
    have hsmall : m.testBit (w + i) = false :=
      Nat.testBit_lt_two_pow (hm.trans_le (Nat.pow_le_pow_right (by decide) (Nat.le_add_right w i)))
    rw [Nat.testBit_shiftRight, Nat.testBit_or, Nat.testBit_mod_two_pow, Nat.testBit_shiftLeft,
      hsmall]
    simp
    omega
  · apply toBits_congr
    intro i hi
    rw [Nat.testBit_or, Nat.testBit_mod_two_pow, Nat.testBit_shiftLeft]
    simp [hi.not_ge]

/-- The whole groups of a width, from the front; what is left over is dropped. -/
def wholeGroups {α : Type} (w : Nat) (l : List α) : List (List α) :=
  (List.range (l.length / w)).map fun i => (l.drop (w * i)).take w

theorem wholeGroups_short {l : List α} (h : l.length < w) : wholeGroups w l = [] := by
  rw [wholeGroups, Nat.div_eq_of_lt h]
  rfl

theorem wholeGroups_append {g : List α} (hw : 0 < w) (h : g.length = w) (l : List α) :
    wholeGroups w (g ++ l) = g :: wholeGroups w l := by
  have hlength : (g ++ l).length / w = l.length / w + 1 := by
    rw [List.length_append, h, Nat.add_comm, Nat.add_div_right _ hw]
  rw [wholeGroups, hlength, List.range_succ_eq_map, List.map_cons, List.map_map, wholeGroups]
  congr 1
  · rw [Nat.mul_zero, List.drop_zero, List.take_append_of_le_length h.ge,
      List.take_of_length_le h.le]
  · apply List.map_congr_left
    intro i _
    have hskip : w * (i + 1) = g.length + w * i := by
      rw [h]
      ring
    simp only [Function.comp_apply, Nat.succ_eq_add_one, hskip, ← List.drop_drop, List.drop_left]

/-- Groups laid one after the other are found again, up to a rest that is no whole group. -/
theorem wholeGroups_flatMap {α β : Type} {f : β → List α} (hw : 0 < w)
    (hf : ∀ b, (f b).length = w) (l : List β) {rest : List α} (hrest : rest.length < w) :
    wholeGroups w (l.flatMap f ++ rest) = l.map f := by
  induction l with
  | nil => exact wholeGroups_short hrest
  | cons b l ih => rw [List.flatMap_cons, List.append_assoc, wholeGroups_append hw (hf b), ih,
      List.map_cons]

theorem wholeGroups_append_of_whole {α : Type} {a : List α} (hw : 0 < w) (h : a.length = n * w)
    (l : List α) : wholeGroups w (a ++ l) = wholeGroups w a ++ wholeGroups w l := by
  induction n generalizing a with
  | zero =>
    obtain rfl := List.length_eq_zero_iff.mp (h.trans (Nat.zero_mul w))
    have hnil : wholeGroups w ([] : List α) = [] := wholeGroups_short hw
    rw [hnil, List.nil_append, List.nil_append]
  | succ n ih =>
    rw [Nat.succ_mul] at h
    have htake : (a.take w).length = w := by
      rw [List.length_take]
      omega
    have hdrop : (a.drop w).length = n * w := by
      rw [List.length_drop]
      omega
    have hsplit : wholeGroups w a = a.take w :: wholeGroups w (a.drop w) := by
      rw [← wholeGroups_append hw htake, List.take_append_drop]
    calc wholeGroups w (a ++ l)
        = wholeGroups w (a.take w ++ (a.drop w ++ l)) := by
          rw [← List.append_assoc, List.take_append_drop]
      _ = a.take w :: (wholeGroups w (a.drop w) ++ wholeGroups w l) := by
          rw [wholeGroups_append hw htake, ih hdrop]
      _ = wholeGroups w a ++ wholeGroups w l := by rw [hsplit, List.cons_append]

/-- What follows a list is grouped together with the rest of the list. -/
theorem wholeGroups_append_rest {α : Type} (hw : 0 < w) (a l : List α) :
    wholeGroups w (a ++ l) =
      wholeGroups w a ++ wholeGroups w (a.drop (a.length / w * w) ++ l) := by
  have hle : a.length / w * w ≤ a.length := Nat.div_mul_le_self a.length w
  have htake : (a.take (a.length / w * w)).length = a.length / w * w := by
    rw [List.length_take, Nat.min_eq_left hle]
  have hshort : (a.drop (a.length / w * w)).length < w := by
    rw [List.length_drop, ← Nat.mod_eq_sub_div_mul]
    exact Nat.mod_lt _ hw
  have hfront : wholeGroups w a = wholeGroups w (a.take (a.length / w * w)) := by
    conv_lhs => rw [← List.take_append_drop (a.length / w * w) a]
    rw [wholeGroups_append_of_whole hw htake, wholeGroups_short hshort, List.append_nil]
  rw [hfront, ← wholeGroups_append_of_whole hw htake, ← List.append_assoc, List.take_append_drop]

/-- Whole groups put together are the list again. -/
theorem flatten_wholeGroups {α : Type} {l : List α} (hw : 0 < w) (h : l.length = n * w) :
    (wholeGroups w l).flatten = l := by
  induction n generalizing l with
  | zero =>
    obtain rfl := List.length_eq_zero_iff.mp (h.trans (Nat.zero_mul w))
    rw [wholeGroups_short hw]
    rfl
  | succ n ih =>
    rw [Nat.succ_mul] at h
    have htake : (l.take w).length = w := by
      rw [List.length_take]
      omega
    have hdrop : (l.drop w).length = n * w := by
      rw [List.length_drop]
      omega
    conv_lhs => rw [← List.take_append_drop w l]
    rw [wholeGroups_append hw htake, List.flatten_cons, ih hdrop, List.take_append_drop]

theorem length_of_mem_wholeGroups {α : Type} {l g : List α} (h : g ∈ wholeGroups w l) :
    g.length = w := by
  rw [wholeGroups, List.mem_map] at h
  obtain ⟨i, hi, rfl⟩ := h
  have hlt := List.mem_range.mp hi
  have hle : w * (i + 1) ≤ l.length :=
    (Nat.mul_le_mul_left w hlt).trans (Nat.mul_div_le l.length w)
  rw [List.length_take, List.length_drop]
  rw [Nat.mul_add] at hle
  omega

/-- The bits of bytes one after the other. -/
def bitsOf (bytes : List UInt8) : List Bool := bytes.flatMap fun b => toBits 8 b.toNat

/-- The bytes of whole groups of eight bits. -/
def bytesOf (bits : List Bool) : List UInt8 :=
  (wholeGroups 8 bits).map fun group => UInt8.ofNat (ofBits group)

theorem bitsOf_append (a b : List UInt8) : bitsOf (a ++ b) = bitsOf a ++ bitsOf b :=
  List.flatMap_append

theorem bitsOf_cons (b : UInt8) (bytes : List UInt8) :
    bitsOf (b :: bytes) = toBits 8 b.toNat ++ bitsOf bytes := rfl

theorem length_bitsOf (bytes : List UInt8) : (bitsOf bytes).length = bytes.length * 8 := by
  induction bytes with
  | nil => rfl
  | cons b bytes ih =>
    rw [bitsOf_cons, List.length_append, length_toBits, ih, List.length_cons]
    ring

theorem byte_toBits (b : UInt8) : UInt8.ofNat (ofBits (toBits 8 b.toNat)) = b := by
  rw [ofBits_toBits, Nat.mod_eq_of_lt b.toNat_lt, UInt8.ofNat_toNat]

/-- Bytes are read back from their bits, also if less than a byte follows. -/
theorem bytesOf_bitsOf_append (bytes : List UInt8) {rest : List Bool} (h : rest.length < 8) :
    bytesOf (bitsOf bytes ++ rest) = bytes := by
  rw [bytesOf, bitsOf, wholeGroups_flatMap (by decide) (fun _ => length_toBits 8 _) bytes h,
    List.map_map]
  have hbyte : ((fun group => UInt8.ofNat (ofBits group)) ∘ fun b : UInt8 => toBits 8 b.toNat) =
      id := funext byte_toBits
  rw [hbyte, List.map_id]

theorem bytesOf_bitsOf (bytes : List UInt8) : bytesOf (bitsOf bytes) = bytes := by
  rw [← List.append_nil (bitsOf bytes)]
  exact bytesOf_bitsOf_append bytes (by decide)

/-- The first byte of bits, and the bytes of the others. -/
theorem bytesOf_append {group : List Bool} (h : group.length = 8) (bits : List Bool) :
    bytesOf (group ++ bits) = UInt8.ofNat (ofBits group) :: bytesOf bits := by
  rw [bytesOf, wholeGroups_append (by decide) h, List.map_cons]
  rfl

theorem toBits_byte (n : Nat) : toBits 8 (n % 256) = toBits 8 n := toBits_mod (k := 8) (le_refl 8) n

/-- Bytes put side by side add up. -/
theorem shifted_or {n m i : Nat} (hm : m < 2 ^ i) : n <<< i ||| m = n * 2 ^ i + m := by
  rw [← Nat.shiftLeft_add_eq_or_of_lt hm, Nat.shiftLeft_eq]

theorem ofBits_four (a b c d : UInt8) : ofBits (bitsOf [a, b, c, d]) =
    a.toNat * 2 ^ 24 + b.toNat * 2 ^ 16 + c.toNat * 2 ^ 8 + d.toNat := by
  have hbyte (n : UInt8) : n.toNat % 2 ^ 8 = n.toNat := Nat.mod_eq_of_lt n.toNat_lt
  simp only [bitsOf, List.flatMap_cons, List.flatMap_nil, List.append_nil, ofBits_append,
    List.length_append, length_toBits, ofBits_toBits, hbyte]
  ring

/-- The word of four bytes, the highest first. -/
theorem joined_toNat (a b c d : UInt8) :
    (a.toUInt32 <<< 24 ||| b.toUInt32 <<< 16 ||| c.toUInt32 <<< 8 ||| d.toUInt32).toNat =
      ofBits (bitsOf [a, b, c, d]) := by
  have ha := a.toNat_lt
  have hb := b.toNat_lt
  have hc := c.toNat_lt
  have hd := d.toNat_lt
  have h24 : (a.toUInt32 <<< 24).toNat = a.toNat <<< 24 % 2 ^ 32 := rfl
  have h16 : (b.toUInt32 <<< 16).toNat = b.toNat <<< 16 % 2 ^ 32 := rfl
  have h8 : (c.toUInt32 <<< 8).toNat = c.toNat <<< 8 % 2 ^ 32 := rfl
  have hab : a.toNat * 2 ^ 24 ||| b.toNat * 2 ^ 16 = (a.toNat * 2 ^ 8 + b.toNat) * 2 ^ 16 := by
    rw [← Nat.shiftLeft_eq a.toNat 24, shifted_or (by omega)]
    ring
  have habc : (a.toNat * 2 ^ 8 + b.toNat) * 2 ^ 16 ||| c.toNat * 2 ^ 8 =
      ((a.toNat * 2 ^ 8 + b.toNat) * 2 ^ 8 + c.toNat) * 2 ^ 8 := by
    rw [← Nat.shiftLeft_eq _ 16, shifted_or (by omega)]
    ring
  rw [UInt32.toNat_or, UInt32.toNat_or, UInt32.toNat_or, h24, h16, h8,
    UInt8.toNat_toUInt32, Nat.shiftLeft_eq, Nat.shiftLeft_eq, Nat.shiftLeft_eq,
    Nat.mod_eq_of_lt (by omega), Nat.mod_eq_of_lt (by omega), Nat.mod_eq_of_lt (by omega), hab,
    habc, ← Nat.shiftLeft_eq _ 8, shifted_or hd, ofBits_four]
  ring

theorem bitsOf_replicate_zero (n : Nat) :
    bitsOf (List.replicate n 0) = List.replicate (n * 8) false := by
  induction n with
  | zero => rfl
  | succ n ih =>
    rw [List.replicate_succ, bitsOf_cons, ih, Nat.succ_mul, Nat.add_comm, List.replicate_add]
    rfl

def leBytes : Nat → Nat → List UInt8
  | 0, _ => []
  | k + 1, n => UInt8.ofNat n :: leBytes k (n / 256)

def leNat (bytes : List UInt8) : Nat := Nat.ofDigits 256 (bytes.map UInt8.toNat)

@[simp] theorem length_leBytes (k n : Nat) : (leBytes k n).length = k := by
  induction k generalizing n with
  | zero => rfl
  | succ k ih => rw [leBytes, List.length_cons, ih]

theorem leNat_cons (b : UInt8) (bytes : List UInt8) :
    leNat (b :: bytes) = b.toNat + 256 * leNat bytes := by
  rw [leNat, List.map_cons, Nat.ofDigits_cons, leNat]

theorem leNat_leBytes (h : n < 256 ^ k) : leNat (leBytes k n) = n := by
  induction k generalizing n with
  | zero =>
    rw [pow_zero] at h
    rw [Nat.lt_one_iff.mp h]
    rfl
  | succ k ih =>
    have hdiv : n / 256 < 256 ^ k := by
      rw [pow_succ] at h
      exact Nat.div_lt_of_lt_mul (by rwa [Nat.mul_comm])
    rw [leBytes, leNat_cons, ih hdiv, UInt8.toNat_ofNat']
    exact Nat.mod_add_div n 256

theorem leNat_lt (bytes : List UInt8) : leNat bytes < 256 ^ bytes.length := by
  have h := Nat.ofDigits_lt_base_pow_length (b := 256) (l := bytes.map UInt8.toNat) (by decide)
    (by
      intro n hn
      obtain ⟨b, _, rfl⟩ := List.mem_map.mp hn
      exact b.toNat_lt)
  rwa [List.length_map] at h

end AiFw.Lib
