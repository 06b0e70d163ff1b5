import AiFw.Lib.BitGroups
import Mathlib.Data.List.Range

namespace AiFw.Lib
set_option autoImplicit true

namespace Sha1Standard

abbrev Word := BitVec 32

def ch (x y z : Word) : Word := (x &&& y) ^^^ (~~~x &&& z)

def parity (x y z : Word) : Word := x ^^^ y ^^^ z

def maj (x y z : Word) : Word := (x &&& y) ^^^ (x &&& z) ^^^ (y &&& z)

def f (t : Nat) : Word → Word → Word → Word :=
  if t < 20 then ch else if t < 40 then parity else if t < 60 then maj else parity

def k (t : Nat) : Word :=
  if t < 20 then 0x5a827999 else if t < 40 then 0x6ed9eba1
  else if t < 60 then 0x8f1bbcdc else 0xca62c1d6

/-- The zeros between the one that ends a message and its length. -/
def zeros (l : Nat) : Nat := (959 - l % 512) % 512

/-- They are the fewest that leave 64 bits of the last block. -/
theorem zeros_least (l : Nat) : (l + 1 + zeros l) % 512 = 448 ∧ ∀ n < zeros l,
    (l + 1 + n) % 512 ≠ 448 := by
  unfold zeros
  constructor
  · omega
  · intro n hn
    omega

def padded (m : List Bool) : List Bool :=
  m ++ true :: List.replicate (zeros m.length) false ++ toBits 64 m.length

def words (bits : List Bool) : List Word :=
  (wholeGroups 32 bits).map fun group => BitVec.ofNat 32 (ofBits group)

def blocks (m : List Bool) : List (List Word) := (wholeGroups 512 (padded m)).map words

/-- The schedule of a block. -/
def w (block : List Word) (t : Nat) : Word :=
  if t < 16 then block.getD t 0
  else (w block (t - 3) ^^^ w block (t - 8) ^^^ w block (t - 14) ^^^ w block (t - 16)).rotateLeft 1
termination_by t

structure State where
  a : Word
  b : Word
  c : Word
  d : Word
  e : Word

def initial : State := ⟨0x67452301, 0xefcdab89, 0x98badcfe, 0x10325476, 0xc3d2e1f0⟩

def step (block : List Word) (s : State) (t : Nat) : State :=
  ⟨s.a.rotateLeft 5 + f t s.b s.c s.d + s.e + k t + w block t, s.a, s.b.rotateLeft 30, s.c, s.d⟩

def compress (h : State) (block : List Word) : State :=
  let s := (List.range 80).foldl (step block) h
  ⟨s.a + h.a, s.b + h.b, s.c + h.c, s.d + h.d, s.e + h.e⟩

def digest (m : List Bool) : List Bool :=
  let h := (blocks m).foldl compress initial
  [h.a, h.b, h.c, h.d, h.e].flatMap fun word => toBits 32 word.toNat

/-- The hash of a message of whole bytes. -/
def hash (m : List UInt8) : List UInt8 := bytesOf (digest (bitsOf m))

end Sha1Standard

/-- A key is hashed if it is longer than a block, and filled up with zeros. -/
def hmacKey (hash : List UInt8 → List UInt8) (blockSize : Nat) (key : List UInt8) : List UInt8 :=
  let short := if key.length ≤ blockSize then key else hash key
  short ++ List.replicate (blockSize - short.length) 0

/-- Keyed hashing with a hash function of a block size. -/
def hmac (hash : List UInt8 → List UInt8) (blockSize : Nat) (key message : List UInt8) :
    List UInt8 :=
  let k := hmacKey hash blockSize key
  hash (k.map (· ^^^ 0x5c) ++ hash (k.map (· ^^^ 0x36) ++ message))

/-- The last 31 bits of the four bytes at the place the last byte names. -/
def truncate (mac : List UInt8) : Nat :=
  ofBits (bitsOf ((mac.drop (ofBits (toBits 4 (mac.getD 19 0).toNat))).take 4)) % 2 ^ 31

/-- The value of a counter of eight bytes. -/
def hotp (mac : List UInt8 → List UInt8 → List UInt8) (digits : Nat) (key : List UInt8)
    (counter : Nat) : Nat :=
  truncate (mac key (bytesOf (toBits 64 counter))) % 10 ^ digits

/-- The time steps a code may be of: the present one, the next one, and the one before if there is
one. -/
def NearStep (now s : Nat) : Prop := s = now ∨ s = now + 1 ∨ 1 ≤ now ∧ s = now - 1

end AiFw.Lib
