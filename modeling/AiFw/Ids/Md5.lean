import AiFw.Lib.Md5Standard

namespace AiFw.Ids
open AiFw.Lib
set_option autoImplicit true

def leBytes32 (n : UInt32) : List UInt8 :=
  [n.toUInt8, (n >>> 8).toUInt8, (n >>> 16).toUInt8, (n >>> 24).toUInt8]

def leBytes64 (n : UInt64) : List UInt8 :=
  leBytes32 n.toUInt32 ++ leBytes32 (n >>> 32).toUInt32

def fromLeBytes (a b c d : UInt8) : UInt32 :=
  d.toUInt32 <<< 24 ||| c.toUInt32 <<< 16 ||| b.toUInt32 <<< 8 ||| a.toUInt32

def rotateLeft (n : UInt32) (k : Nat) : UInt32 := ⟨n.toBitVec.rotateLeft k⟩

def md5S : List Nat :=
  [7, 12, 17, 22, 7, 12, 17, 22, 7, 12, 17, 22, 7, 12, 17, 22, 5, 9, 14, 20, 5, 9, 14, 20, 5,
    9, 14, 20, 5, 9, 14, 20, 4, 11, 16, 23, 4, 11, 16, 23, 4, 11, 16, 23, 4, 11, 16, 23, 6, 10,
    15, 21, 6, 10, 15, 21, 6, 10, 15, 21, 6, 10, 15, 21]

def md5K : List UInt32 :=
  [0xd76aa478, 0xe8c7b756, 0x242070db, 0xc1bdceee, 0xf57c0faf, 0x4787c62a, 0xa8304613,
    0xfd469501, 0x698098d8, 0x8b44f7af, 0xffff5bb1, 0x895cd7be, 0x6b901122, 0xfd987193,
    0xa679438e, 0x49b40821, 0xf61e2562, 0xc040b340, 0x265e5a51, 0xe9b6c7aa, 0xd62f105d,
    0x02441453, 0xd8a1e681, 0xe7d3fbc8, 0x21e1cde6, 0xc33707d6, 0xf4d50d87, 0x455a14ed,
    0xa9e3e905, 0xfcefa3f8, 0x676f02d9, 0x8d2a4c8a, 0xfffa3942, 0x8771f681, 0x6d9d6122,
    0xfde5380c, 0xa4beea44, 0x4bdecfa9, 0xf6bb4b60, 0xbebfbc70, 0x289b7ec6, 0xeaa127fa,
    0xd4ef3085, 0x04881d05, 0xd9d4d039, 0xe6db99e5, 0x1fa27cf8, 0xc4ac5665, 0xf4292244,
    0x432aff97, 0xab9423a7, 0xfc93a039, 0x655b59c3, 0x8f0ccc92, 0xffeff47d, 0x85845dd1,
    0x6fa87e4f, 0xfe2ce6e0, 0xa3014314, 0x4e0811a1, 0xf7537e82, 0xbd3af235, 0x2ad7d2bb,
    0xeb86d391]

/-- The loop that pushes zeros until eight bytes are left of the last chunk. -/
def pushZeros (msg : List UInt8) : List UInt8 :=
  if msg.length % 64 = 56 then msg else pushZeros (msg ++ [0])
termination_by (120 - msg.length % 64) % 64
decreasing_by
  rw [List.length_append, List.length_singleton]
  omega

/-- The bits are counted in a machine word. -/
def md5Padded (message : List UInt8) : List UInt8 :=
  pushZeros (message ++ [0x80]) ++ leBytes64 (UInt64.ofNat message.length * 8)

structure Md5State where
  a : UInt32
  b : UInt32
  c : UInt32
  d : UInt32

namespace Md5State

def start : Md5State := ⟨0x67452301, 0xefcdab89, 0x98badcfe, 0x10325476⟩

/-- What a round mixes in: a function of three words, and the place of a word of the chunk. -/
def mix (s : Md5State) (i : Nat) : UInt32 × Nat :=
  if i < 16 then ((s.b &&& s.c) ||| (~~~s.b &&& s.d), i)
  else if i < 32 then ((s.d &&& s.b) ||| (~~~s.d &&& s.c), (5 * i + 1) % 16)
  else if i < 48 then (s.b ^^^ s.c ^^^ s.d, (3 * i + 5) % 16)
  else (s.c ^^^ (s.b ||| ~~~s.d), (7 * i) % 16)

def round (m : List UInt32) (s : Md5State) (i : Nat) : Md5State :=
  let (f, g) := s.mix i
  ⟨s.d, s.b + rotateLeft (s.a + f + md5K.getD i 0 + m.getD g 0) (md5S.getD i 0), s.b, s.c⟩

def chunk (s : Md5State) (m : List UInt32) : Md5State :=
  let t := (List.range 64).foldl (round m) s
  ⟨s.a + t.a, s.b + t.b, s.c + t.c, s.d + t.d⟩

def digest (s : Md5State) : List UInt8 :=
  leBytes32 s.a ++ leBytes32 s.b ++ leBytes32 s.c ++ leBytes32 s.d

end Md5State

/-- The words of a chunk, each from four bytes at its place. -/
def chunkWords (chunk : List UInt8) : List UInt32 :=
  (List.range 16).map fun i => fromLeBytes (chunk.getD (i * 4) 0) (chunk.getD (i * 4 + 1) 0)
    (chunk.getD (i * 4 + 2) 0) (chunk.getD (i * 4 + 3) 0)

/-- Of the intrusion detection, with whole chunks only. -/
def md5Compute (message : List UInt8) : List UInt8 :=
  (((wholeGroups 64 (md5Padded message)).map chunkWords).foldl Md5State.chunk .start).digest

/-- `chunks`: the whole ones, and what is left over. -/
def chunks (w : Nat) (l : List α) : List (List α) :=
  wholeGroups w l ++ if l.length % w = 0 then [] else [l.drop (l.length / w * w)]

namespace Common

/-- The words of a chunk, written over zeros one after the other. -/
def chunkWords (chunk : List UInt8) : List UInt32 :=
  (chunks 4 chunk).zipIdx.foldl (fun m p => m.set p.2 (fromLeBytes (p.1.getD 0 0) (p.1.getD 1 0)
    (p.1.getD 2 0) (p.1.getD 3 0))) (List.replicate 16 0)

/-- Of the library that the other crates share. -/
def md5Compute (msg : List UInt8) : List UInt8 :=
  (((chunks 64 (md5Padded msg)).map chunkWords).foldl Md5State.chunk .start).digest

end Common

theorem pushZeros_eq (msg : List UInt8) :
    pushZeros msg = msg ++ List.replicate ((120 - msg.length % 64) % 64) 0 := by
  fun_induction pushZeros msg with
  | case1 msg h =>
    rw [h]
    exact (List.append_nil msg).symm
  | case2 msg h ih =>
    have hcount : (120 - msg.length % 64) % 64 =
        (120 - (msg ++ [0]).length % 64) % 64 + 1 := by
      rw [List.length_append, List.length_singleton]
      omega
    rw [ih, hcount, List.append_assoc, List.singleton_append, List.replicate_succ]

theorem length_md5Padded (message : List UInt8) : (md5Padded message).length % 64 = 0 := by
  have hlength : ∀ n, (leBytes64 n).length = 8 := fun _ => rfl
  rw [md5Padded, pushZeros_eq, List.length_append, List.length_append, List.length_append,
    List.length_replicate, hlength, List.length_singleton]
  omega

theorem wholeGroups_bitsOf (bytes : List UInt8) :
    wholeGroups 8 (bitsOf bytes) = bytes.map fun b => toBits 8 b.toNat := by
  have hgroups : wholeGroups 8 (bitsOf bytes ++ []) = bytes.map fun b => toBits 8 b.toNat :=
    wholeGroups_flatMap (by decide) (fun _ => length_toBits _ _) bytes (by decide)
  rwa [List.append_nil] at hgroups

theorem lowFirst_bitsOf (bytes : List UInt8) :
    Md5Standard.lowFirst (bitsOf bytes) = bitsOf bytes.reverse := by
  rw [Md5Standard.lowFirst, wholeGroups_bitsOf, ← List.map_reverse]
  rfl

/-- The byte of lowest order comes first. -/
theorem lowFirst_toBits (k n : Nat) : Md5Standard.lowFirst (toBits (8 * k + 8) n) =
    toBits 8 n ++ Md5Standard.lowFirst (toBits (8 * k) (n >>> 8)) := by
  have hwhole : (toBits (8 * k) (n >>> 8)).length = k * 8 := by
    rw [length_toBits, Nat.mul_comm]
  have hlast : wholeGroups 8 (toBits 8 n) = [toBits 8 n] := by
    have hgroup := wholeGroups_append (by decide) (length_toBits 8 n) []
    have hnil : wholeGroups 8 ([] : List Bool) = [] := wholeGroups_short (by decide)
    rwa [List.append_nil, hnil] at hgroup
  rw [Md5Standard.lowFirst, toBits_append, wholeGroups_append_of_whole (by decide) hwhole, hlast,
    List.reverse_append, List.reverse_singleton, List.flatten_append, List.flatten_singleton]
  rfl

theorem lowFirst_nil : Md5Standard.lowFirst [] = [] := rfl

theorem bitsOf_leBytes32 (n : UInt32) :
    bitsOf (leBytes32 n) = Md5Standard.lowFirst (toBits 32 n.toNat) := by
  have h8 : (n >>> 8).toNat = n.toNat >>> 8 := rfl
  have h16 : (n >>> 16).toNat = n.toNat >>> 16 := rfl
  have h24 : (n >>> 24).toNat = n.toNat >>> 24 := rfl
  have hbytes : Md5Standard.lowFirst (toBits 32 n.toNat) = toBits 8 n.toNat ++
      (toBits 8 (n.toNat >>> 8) ++ (toBits 8 (n.toNat >>> 16) ++ toBits 8 (n.toNat >>> 24))) := by
    rw [lowFirst_toBits 3, lowFirst_toBits 2, lowFirst_toBits 1, lowFirst_toBits 0, Nat.mul_zero,
      toBits, lowFirst_nil, List.append_nil, ← Nat.shiftRight_add, ← Nat.shiftRight_add]
  simp only [leBytes32, bitsOf, List.flatMap_cons, List.flatMap_nil, List.append_nil,
    UInt32.toNat_toUInt8, h8, h16, h24, hbytes]
  simp only [show 2 ^ 8 = 256 from rfl, toBits_byte]

theorem lowFirst_append {a b : List Bool} (ha : a.length = n * 8) :
    Md5Standard.lowFirst (a ++ b) = Md5Standard.lowFirst b ++ Md5Standard.lowFirst a := by
  rw [Md5Standard.lowFirst, wholeGroups_append_of_whole (by decide) ha, List.reverse_append,
    List.flatten_append]
  rfl

theorem bitsOf_leBytes64 (n : UInt64) :
    bitsOf (leBytes64 n) = Md5Standard.lowFirst (toBits 64 n.toNat) := by
  have h32 : (n >>> 32).toNat = n.toNat >>> 32 := rfl
  have hhigh : (toBits 32 (n.toNat >>> 32)).length = 4 * 8 := length_toBits _ _
  rw [leBytes64, bitsOf_append, bitsOf_leBytes32, bitsOf_leBytes32, UInt64.toNat_toUInt32,
    UInt64.toNat_toUInt32, h32, toBits_mod (le_refl 32), toBits_mod (le_refl 32),
    toBits_append 32 32, lowFirst_append hhigh]

theorem bitsOf_md5Padded (message : List UInt8) :
    bitsOf (md5Padded message) = Md5Standard.padded (bitsOf message) := by
  have hone : bitsOf [0x80] = true :: List.replicate 7 false := rfl
  have hzeros : Md5Standard.zeros (message.length * 8) =
      7 + (120 - (message ++ [0x80]).length % 64) % 64 * 8 := by
    rw [Md5Standard.zeros, List.length_append, List.length_singleton]
    omega
  have hlength : toBits 64 (UInt64.ofNat message.length * 8).toNat =
      toBits 64 (message.length * 8) := by
    rw [UInt64.toNat_mul, UInt64.toNat_ofNat', Nat.mod_mul_mod, toBits_mod (le_refl 64)]
    rfl
  rw [md5Padded, Md5Standard.padded, pushZeros_eq, bitsOf_append, bitsOf_append, bitsOf_append,
    hone, bitsOf_replicate_zero, bitsOf_leBytes64, hlength, length_bitsOf, hzeros,
    List.replicate_add]
  simp

theorem fromLeBytes_toNat (a b c d : UInt8) :
    (fromLeBytes a b c d).toNat = ofBits (bitsOf [d, c, b, a]) := joined_toNat d c b a

/-- The words of bytes are the words of their bits. -/
theorem words_bitsOf {a : List UInt8} (h : a.length = 4 * n) : Md5Standard.words (bitsOf a) =
    (wholeGroups 4 a).map fun word => (fromLeBytes (word.getD 0 0) (word.getD 1 0)
      (word.getD 2 0) (word.getD 3 0)).toBitVec := by
  induction n generalizing a with
  | zero =>
    obtain rfl := List.length_eq_zero_iff.mp h
    rfl
  | succ n ih =>
    match a, h with
    | x :: y :: z :: t :: a, h =>
      have hrest : a.length = 4 * n := by
        simp only [List.length_cons] at h
        omega
      have hbits : bitsOf (x :: y :: z :: t :: a) = bitsOf [x, y, z, t] ++ bitsOf a :=
        bitsOf_append [x, y, z, t] a
      have hword : BitVec.ofNat 32 (ofBits (Md5Standard.lowFirst (bitsOf [x, y, z, t]))) =
          (fromLeBytes x y z t).toBitVec := by
        rw [lowFirst_bitsOf]
        exact (congrArg _ (fromLeBytes_toNat x y z t).symm).trans (BitVec.ofNat_toNat _ _)
      have hlength : (bitsOf [x, y, z, t]).length = 32 := length_bitsOf [x, y, z, t]
      have hgroup : wholeGroups 4 (x :: y :: z :: t :: a) = [x, y, z, t] :: wholeGroups 4 a :=
        wholeGroups_append (w := 4) (g := [x, y, z, t]) (by decide) rfl a
      rw [hbits, Md5Standard.words, wholeGroups_append (by decide) hlength, List.map_cons, hword,
        hgroup, List.map_cons, ← ih hrest]
      rfl

/-- The bytes at their places are the bytes of the groups of four. -/
theorem chunkWords_groups {chunk : List UInt8} (h : chunk.length = 64) : chunkWords chunk =
    (wholeGroups 4 chunk).map fun word => fromLeBytes (word.getD 0 0) (word.getD 1 0)
      (word.getD 2 0) (word.getD 3 0) := by
  rw [chunkWords, wholeGroups, h, List.map_map]
  apply List.map_congr_left
  intro i hi
  have hat (j : Nat) (hj : j < 4) : ((chunk.drop (4 * i)).take 4).getD j 0 =
      chunk.getD (i * 4 + j) 0 := by
    rw [List.getD_eq_getElem?_getD, List.getElem?_take_of_lt hj, List.getElem?_drop,
      List.getD_eq_getElem?_getD, Nat.mul_comm]
  simp only [Function.comp_apply, hat 0 (by decide), hat 1 (by decide), hat 2 (by decide),
    hat 3 (by decide), Nat.add_zero]

theorem chunkWords_eq {chunk : List UInt8} (h : chunk.length = 64) :
    (chunkWords chunk).map UInt32.toBitVec = Md5Standard.words (bitsOf chunk) := by
  rw [words_bitsOf (n := 16) h, chunkWords_groups h, List.map_map]
  rfl

/-- The chunks of padded bytes are the blocks of their bits. -/
theorem blocks_bitsOf {a : List UInt8} (h : a.length = 64 * n) :
    (wholeGroups 512 (bitsOf a)).map Md5Standard.words =
      ((wholeGroups 64 a).map chunkWords).map fun chunk => chunk.map UInt32.toBitVec := by
  induction n generalizing a with
  | zero =>
    obtain rfl := List.length_eq_zero_iff.mp h
    rfl
  | succ n ih =>
    have htake : (a.take 64).length = 64 := by
      rw [List.length_take]
      omega
    have hdrop : (a.drop 64).length = 64 * n := by
      rw [List.length_drop]
      omega
    have hbits : (bitsOf (a.take 64)).length = 512 := by
      rw [length_bitsOf, htake]
    rw [← List.take_append_drop 64 a, bitsOf_append, wholeGroups_append (by decide) hbits,
      wholeGroups_append (by decide) htake, List.map_cons, List.map_cons, List.map_cons, ih hdrop,
      chunkWords_eq htake]

/-- The table of the code is the table of sines. -/
theorem md5K_eq (hj : j < 64) : (md5K.getD j 0).toBitVec = Md5Standard.t (j + 1) := by
  have hnear : ∀ j < 64, SineNear (j + 1) (md5K.getD j 0).toNat := by decide +kernel
  have hfloor := floor_sin_eq (Nat.succ_le_of_lt hj) (hnear j hj)
  rw [Md5Standard.t, hfloor, ← UInt32.toNat_toBitVec, BitVec.ofNat_toNat, BitVec.setWidth_eq]

namespace Md5State
variable (s : Md5State)

/-- The registers after some rounds, which the code has moved on by one variable a round. -/
def registers : Nat → Md5Standard.Registers
  | 0 => ⟨s.a.toBitVec, s.b.toBitVec, s.c.toBitVec, s.d.toBitVec⟩
  | 1 => ⟨s.b.toBitVec, s.c.toBitVec, s.d.toBitVec, s.a.toBitVec⟩
  | 2 => ⟨s.c.toBitVec, s.d.toBitVec, s.a.toBitVec, s.b.toBitVec⟩
  | _ => ⟨s.d.toBitVec, s.a.toBitVec, s.b.toBitVec, s.c.toBitVec⟩

end Md5State

/-- The order of the registers of a round. -/
def roundOrder (j : Nat) : Md5Standard.Order :=
  [.abcd, .dabc, .cdab, .bcda].getD (j % 4) .abcd

/-- The operation of a round. -/
def roundOperation (j : Nat) : Md5Standard.Operation :=
  ⟨roundOrder j, (Md5State.start.mix j).2, md5S.getD j 0, j + 1⟩

theorem toBitVec_getD (words : List UInt32) (i : Nat) :
    (words.getD i 0).toBitVec = (words.map UInt32.toBitVec).getD i 0 := by
  rw [List.getD_eq_getElem?_getD, List.getD_eq_getElem?_getD, List.getElem?_map]
  cases words[i]? <;> rfl

/-- The place of the word does not depend on the variables. -/
theorem mix_snd (s s' : Md5State) (j : Nat) : (s.mix j).2 = (s'.mix j).2 := by
  unfold Md5State.mix
  split_ifs <;> rfl

/-- The function of a round. -/
def MixesBy (fn : Md5Standard.Word → Md5Standard.Word → Md5Standard.Word → Md5Standard.Word)
    (j : Nat) : Prop :=
  ∀ s : Md5State, (s.mix j).1.toBitVec = fn s.b.toBitVec s.c.toBitVec s.d.toBitVec

theorem round_eq (hfn : MixesBy fn j) (hj : j < 64) (m : List UInt32) (s : Md5State) :
    Md5Standard.Operation.apply fn (m.map UInt32.toBitVec) (s.registers (j % 4))
      (roundOperation j) = (s.round m j).registers ((j + 1) % 4) := by
  have hnew : (s.round m j).b.toBitVec = s.b.toBitVec + (s.a.toBitVec +
      fn s.b.toBitVec s.c.toBitVec s.d.toBitVec +
        (m.map UInt32.toBitVec).getD (Md5State.start.mix j).2 0 +
          Md5Standard.t (j + 1)).rotateLeft (md5S.getD j 0) := by
    have hsum : (s.round m j).b.toBitVec = s.b.toBitVec + (s.a.toBitVec +
        (s.mix j).1.toBitVec + (md5K.getD j 0).toBitVec +
          (m.getD (s.mix j).2 0).toBitVec).rotateLeft (md5S.getD j 0) := rfl
    rw [hsum, hfn s, md5K_eq hj, toBitVec_getD, mix_snd s .start, BitVec.add_assoc (_ + _),
      BitVec.add_comm (Md5Standard.t _), ← BitVec.add_assoc]
  have ha : (s.round m j).a = s.d := rfl
  have hc : (s.round m j).c = s.b := rfl
  have hd : (s.round m j).d = s.c := rfl
  obtain h | h | h | h : j % 4 = 0 ∨ j % 4 = 1 ∨ j % 4 = 2 ∨ j % 4 = 3 := by omega
  · have hnext : (j + 1) % 4 = 1 := by omega
    rw [roundOperation, roundOrder, h, hnext]
    simp only [Md5State.registers, hnew, ha, hc, hd]
    rfl
  · have hnext : (j + 1) % 4 = 2 := by omega
    rw [roundOperation, roundOrder, h, hnext]
    simp only [Md5State.registers, hnew, ha, hc, hd]
    rfl
  · have hnext : (j + 1) % 4 = 3 := by omega
    rw [roundOperation, roundOrder, h, hnext]
    simp only [Md5State.registers, hnew, ha, hc, hd]
    rfl
  · have hnext : (j + 1) % 4 = 0 := by omega
    rw [roundOperation, roundOrder, h, hnext]
    simp only [Md5State.registers, hnew, ha, hc, hd]
    rfl

/-- Rounds one after the other that use the same function. -/
theorem rounds_eq {n : Nat} (hfn : ∀ i, j ≤ i → i < j + n → MixesBy fn i) (hn : j + n ≤ 64)
    (m : List UInt32) (s : Md5State) :
    ((List.range' j n).map roundOperation).foldl
      (Md5Standard.Operation.apply fn (m.map UInt32.toBitVec)) (s.registers (j % 4)) =
        ((List.range' j n).foldl (Md5State.round m) s).registers ((j + n) % 4) := by
  induction n generalizing j s with
  | zero => rfl
  | succ n ih =>
    have hround := round_eq (hfn j (Nat.le_refl j) (by omega)) (by omega) m s
    rw [List.range'_succ, List.map_cons, List.foldl_cons, List.foldl_cons, hround,
      ih (fun i hi hin => hfn i (by omega) (by omega)) (by omega), Nat.add_assoc, Nat.add_comm 1 n]

theorem mixesBy_f (h : j < 16) : MixesBy Md5Standard.f j := by
  intro s
  rw [Md5State.mix, if_pos h]
  rfl

theorem mixesBy_g (hlow : 16 ≤ j) (h : j < 32) : MixesBy Md5Standard.g j := by
  intro s
  rw [Md5State.mix, if_neg (Nat.not_lt.mpr hlow), if_pos h, Md5Standard.g, BitVec.and_comm,
    BitVec.and_comm s.c.toBitVec]
  rfl

theorem mixesBy_h (hlow : 32 ≤ j) (h : j < 48) : MixesBy Md5Standard.h j := by
  intro s
  rw [Md5State.mix, if_neg (by omega), if_neg (Nat.not_lt.mpr hlow), if_pos h]
  rfl

theorem mixesBy_i (hlow : 48 ≤ j) : MixesBy Md5Standard.i j := by
  intro s
  rw [Md5State.mix, if_neg (by omega), if_neg (by omega), if_neg (Nat.not_lt.mpr hlow)]
  rfl

/-- The operations of the standard are those of the rounds. -/
theorem operations_eq : Md5Standard.round1 = (List.range' 0 16).map roundOperation ∧
    Md5Standard.round2 = (List.range' 16 16).map roundOperation ∧
    Md5Standard.round3 = (List.range' 32 16).map roundOperation ∧
    Md5Standard.round4 = (List.range' 48 16).map roundOperation :=
  ⟨rfl, rfl, rfl, rfl⟩

theorem allRounds_eq (m : List UInt32) (s : Md5State) :
    Md5Standard.rounds (m.map UInt32.toBitVec) (s.registers 0) =
      ((List.range 64).foldl (Md5State.round m) s).registers 0 := by
  obtain ⟨h1, h2, h3, h4⟩ := operations_eq
  have hsplit : List.range 64 =
      List.range' 0 16 ++ List.range' 16 16 ++ List.range' 32 16 ++ List.range' 48 16 := rfl
  have first := rounds_eq (j := 0) (n := 16) (fun i _ h => mixesBy_f h) (by decide) m s
  rw [Md5Standard.rounds, h1, h2, h3, h4, hsplit, List.foldl_append, List.foldl_append,
    List.foldl_append]
  rw [first]
  have second := rounds_eq (j := 16) (n := 16) (fun i hl h => mixesBy_g hl h) (by decide) m
    ((List.range' 0 16).foldl (Md5State.round m) s)
  rw [second]
  have third := rounds_eq (j := 32) (n := 16) (fun i hl h => mixesBy_h hl h) (by decide) m
    ((List.range' 16 16).foldl (Md5State.round m) ((List.range' 0 16).foldl (Md5State.round m) s))
  rw [third]
  exact rounds_eq (j := 48) (n := 16) (fun i hl _ => mixesBy_i hl) (by decide) m _

theorem chunk_eq (s : Md5State) (m : List UInt32) :
    Md5Standard.compress (s.registers 0) (m.map UInt32.toBitVec) = (s.chunk m).registers 0 := by
  rw [Md5Standard.compress, allRounds_eq, Md5State.chunk]
  simp only [Md5State.registers, UInt32.toBitVec_add, Md5Standard.Registers.mk.injEq]
  exact ⟨BitVec.add_comm _ _, BitVec.add_comm _ _, BitVec.add_comm _ _, BitVec.add_comm _ _⟩

theorem chunks_eq (s : Md5State) (chunks : List (List UInt32)) :
    (chunks.map fun chunk => chunk.map UInt32.toBitVec).foldl Md5Standard.compress
      (s.registers 0) = (chunks.foldl Md5State.chunk s).registers 0 := by
  induction chunks generalizing s with
  | nil => rfl
  | cons chunk chunks ih => rw [List.map_cons, List.foldl_cons, List.foldl_cons, chunk_eq, ih]

theorem bitsOf_digest (s : Md5State) : bitsOf s.digest =
    [(s.registers 0).a, (s.registers 0).b, (s.registers 0).c, (s.registers 0).d].flatMap
      fun word => Md5Standard.lowFirst (toBits 32 word.toNat) := by
  rw [Md5State.digest, bitsOf_append, bitsOf_append, bitsOf_append, bitsOf_leBytes32,
    bitsOf_leBytes32, bitsOf_leBytes32, bitsOf_leBytes32, List.append_assoc, List.append_assoc]
  simp only [List.flatMap_cons, List.flatMap_nil, List.append_nil]
  rfl

theorem md5Compute_eq (message : List UInt8) : md5Compute message = Md5Standard.hash message := by
  obtain ⟨n, hlength⟩ : ∃ n, (md5Padded message).length = 64 * n :=
    ⟨(md5Padded message).length / 64, by have := length_md5Padded message; omega⟩
  rw [Md5Standard.hash, Md5Standard.digest, Md5Standard.blocks, ← bitsOf_md5Padded,
    blocks_bitsOf hlength]
  have hstart : Md5Standard.initial = Md5State.start.registers 0 := rfl
  rw [hstart, chunks_eq, ← bitsOf_digest, bytesOf_bitsOf]
  rfl

theorem chunks_of_whole {w : Nat} {l : List α} (h : l.length % w = 0) :
    chunks w l = wholeGroups w l := by
  rw [chunks, if_pos h, List.append_nil]

/-- What is set at one place after the other stands there in order. -/
theorem foldl_set_zipIdx (f : α → β) (l : List α) {b rest : List β}
    (h : l.length = rest.length) :
    (l.zipIdx b.length).foldl (fun m p => m.set p.2 (f p.1)) (b ++ rest) =
      b ++ l.map f := by
  induction l generalizing b rest with
  | nil =>
    obtain rfl := List.length_eq_zero_iff.mp h.symm
    rfl
  | cons a l ih =>
    match rest, h with
    | _ :: rest, h =>
      have hset (y : β) : (b ++ y :: rest).set b.length (f a) = (b ++ [f a]) ++ rest := by
        rw [List.set_append_right _ _ (Nat.le_refl _), Nat.sub_self, List.append_assoc]
        rfl
      have hrest := ih (b := b ++ [f a]) (Nat.succ.inj h)
      rw [List.length_append, List.length_singleton] at hrest
      rw [List.zipIdx_cons, List.foldl_cons, hset, hrest, List.append_assoc]
      rfl

theorem Common.chunkWords_eq {chunk : List UInt8} (h : chunk.length = 64) :
    Common.chunkWords chunk = Ids.chunkWords chunk := by
  have hgroups : (wholeGroups 4 chunk).length = (List.replicate 16 (0 : UInt32)).length := by
    rw [wholeGroups, List.length_map, List.length_range, h, List.length_replicate]
  rw [Common.chunkWords, chunks_of_whole (by rw [h]), chunkWords_groups h]
  have hset := foldl_set_zipIdx (b := []) (fun word => fromLeBytes (word.getD 0 0)
    (word.getD 1 0) (word.getD 2 0) (word.getD 3 0)) (wholeGroups 4 chunk) hgroups
  rw [List.nil_append, List.nil_append] at hset
  exact hset

theorem Common.md5Compute_eq (msg : List UInt8) :
    Common.md5Compute msg = Ids.md5Compute msg := by
  have hwords : (wholeGroups 64 (md5Padded msg)).map Common.chunkWords =
      (wholeGroups 64 (md5Padded msg)).map Ids.chunkWords :=
    List.map_congr_left fun chunk hchunk =>
      Common.chunkWords_eq (length_of_mem_wholeGroups hchunk)
  rw [Common.md5Compute, chunks_of_whole (length_md5Padded msg), hwords]
  rfl

/-- Both digests are that of the standard. -/
theorem md5_is_standard (message : List UInt8) :
    md5Compute message = Md5Standard.hash message ∧
      Common.md5Compute message = Md5Standard.hash message ∧
      Common.md5Compute message = md5Compute message := by
  have hcommon := Common.md5Compute_eq message
  exact ⟨md5Compute_eq message, hcommon.trans (md5Compute_eq message), hcommon⟩

end AiFw.Ids
