import AiFw.Pf.Types

namespace AiFw.Auth
open AiFw.Lib
set_option autoImplicit true

def digits : Nat := 6

def period : Nat := 30

def tolerance : Nat := 1

def beBytes32 (n : UInt32) : List UInt8 :=
  [(n >>> 24).toUInt8, (n >>> 16).toUInt8, (n >>> 8).toUInt8, n.toUInt8]

def beBytes64 (n : UInt64) : List UInt8 :=
  beBytes32 (n >>> 32).toUInt32 ++ beBytes32 n.toUInt32

def fromBeBytes (a b c d : UInt8) : UInt32 :=
  (a.toUInt32 <<< 24) ||| (b.toUInt32 <<< 16) ||| (c.toUInt32 <<< 8) ||| d.toUInt32

def rotateLeft (n : UInt32) (k : UInt32) : UInt32 := (n <<< k) ||| (n >>> (32 - k))

/-- The bytes up to the next whole block, with the length in bits at its end. -/
def sha1Padded (data : List UInt8) : List UInt8 :=
  data ++ 0x80 :: List.replicate ((119 - data.length % 64) % 64) 0 ++
    beBytes64 (UInt64.ofNat (data.length * 8))

def sha1Words : List UInt8 → List UInt32
  | a :: b :: c :: d :: rest => fromBeBytes a b c d :: sha1Words rest
  | _ => []

def sha1Chunks (words : List UInt32) : List (List UInt32) :=
  (List.range (words.length / 16)).map fun i => (words.drop (16 * i)).take 16

/-- The next word of the schedule, whose words are given from the last one back. -/
def scheduleWord (w : List UInt32) : UInt32 :=
  rotateLeft (w.getD 2 0 ^^^ w.getD 7 0 ^^^ w.getD 13 0 ^^^ w.getD 15 0) 1

def sha1Schedule (chunk : List UInt32) : List UInt32 :=
  (Nat.iterate (fun w => scheduleWord w :: w) 64 chunk.reverse).reverse

structure Sha1State where
  h0 : UInt32
  h1 : UInt32
  h2 : UInt32
  h3 : UInt32
  h4 : UInt32

def Sha1State.mix (s : Sha1State) (i : Nat) : UInt32 × UInt32 :=
  if i ≤ 19 then ((s.h1 &&& s.h2) ||| (~~~s.h1 &&& s.h3), 0x5A827999)
  else if i ≤ 39 then (s.h1 ^^^ s.h2 ^^^ s.h3, 0x6ED9EBA1)
  else if i ≤ 59 then ((s.h1 &&& s.h2) ||| (s.h1 &&& s.h3) ||| (s.h2 &&& s.h3), 0x8F1BBCDC)
  else (s.h1 ^^^ s.h2 ^^^ s.h3, 0xCA62C1D6)

def Sha1State.round (s : Sha1State) (w : UInt32 × Nat) : Sha1State :=
  let (f, k) := s.mix w.2
  ⟨rotateLeft s.h0 5 + f + s.h4 + k + w.1, s.h0, rotateLeft s.h1 30, s.h2, s.h3⟩

def Sha1State.chunk (s : Sha1State) (chunk : List UInt32) : Sha1State :=
  let t := (sha1Schedule chunk).zipIdx.foldl Sha1State.round s
  ⟨s.h0 + t.h0, s.h1 + t.h1, s.h2 + t.h2, s.h3 + t.h3, s.h4 + t.h4⟩

def sha1 (data : List UInt8) : List UInt8 :=
  let s := (sha1Chunks (sha1Words (sha1Padded data))).foldl Sha1State.chunk
    ⟨0x67452301, 0xEFCDAB89, 0x98BADCFE, 0x10325476, 0xC3D2E1F0⟩
  beBytes32 s.h0 ++ beBytes32 s.h1 ++ beBytes32 s.h2 ++ beBytes32 s.h3 ++ beBytes32 s.h4

def keyPadded (key : List UInt8) : List UInt8 :=
  let key := if key.length > 64 then sha1 key else key
  key ++ List.replicate (64 - key.length) 0

def hmacSha1 (key message : List UInt8) : List UInt8 :=
  let ipad := (keyPadded key).map (0x36 ^^^ ·)
  let opad := (keyPadded key).map (0x5c ^^^ ·)
  sha1 (opad ++ sha1 (ipad ++ message))

example : hmacSha1 (List.replicate 20 0x0b) ("Hi There".toList.map fun c => UInt8.ofNat c.toNat) =
    [0xb6, 0x17, 0x31, 0x86, 0x55, 0x05, 0x72, 0x64, 0xe2, 0x8b,
      0xc0, 0xb6, 0xfb, 0x37, 0x8c, 0x8e, 0xf1, 0x46, 0xbe, 0x00] := by decide +kernel

def generateCodeAtStep (secret : List UInt8) (step : UInt64) : Nat :=
  let hash := hmacSha1 secret (beBytes64 step)
  let offset := (hash.getD 19 0 &&& 0x0f).toNat
  let binary := fromBeBytes (hash.getD offset 0 &&& 0x7f) (hash.getD (offset + 1) 0)
    (hash.getD (offset + 2) 0) (hash.getD (offset + 3) 0)
  binary.toNat % 10 ^ digits

def base32Alphabet : List Char := "ABCDEFGHIJKLMNOPQRSTUVWXYZ234567".toList

def base32Char (n : UInt64) : Char := base32Alphabet.getD (n &&& 0x1f).toNat 'A'

/-- The letters for the whole groups of five bits, and how many bits are left. -/
def base32Emit (buffer : UInt64) : Nat → List Char × Nat
  | bits + 5 =>
    let (cs, rest) := base32Emit buffer bits
    (base32Char (buffer >>> UInt64.ofNat bits) :: cs, rest)
  | bits => ([], bits)

def base32EncodeAux (buffer : UInt64) (bits : Nat) : List UInt8 → List Char
  | [] => if bits > 0 then [base32Char (buffer <<< UInt64.ofNat (5 - bits))] else []
  | byte :: data =>
    let buffer := (buffer <<< 8) ||| byte.toUInt64
    let (cs, bits) := base32Emit buffer (bits + 8)
    cs ++ base32EncodeAux buffer bits data

def base32Encode (data : List UInt8) : List Char := base32EncodeAux 0 0 data

def base32Value (c : Char) : Option UInt64 :=
  let n := c.toNat
  if 0x41 ≤ n ∧ n ≤ 0x5A then some (UInt64.ofNat (n - 0x41))
  else if 0x32 ≤ n ∧ n ≤ 0x37 then some (UInt64.ofNat (n - 0x32 + 26))
  else none

def base32DecodeAux (buffer : UInt64) (bits : Nat) : List Char → Option (List UInt8)
  | [] => some []
  | c :: cs => do
    let val ← base32Value c
    let buffer := (buffer <<< 5) ||| val
    let bits := bits + 5
    if bits ≥ 8 then
      let rest ← base32DecodeAux buffer (bits - 8) cs
      return (buffer >>> UInt64.ofNat (bits - 8)).toUInt8 :: rest
    else base32DecodeAux buffer bits cs

/-- `trim_end_matches('=')`, then `to_uppercase`. -/
def base32Decode (encoded : List Char) : Option (List UInt8) :=
  base32DecodeAux 0 0
    ((encoded.reverse.dropWhile fun c => c = '=').reverse.flatMap upperChar)

example : base32Encode ("foobar".toList.map fun c => UInt8.ofNat c.toNat) =
    "MZXW6YTBOI".toList := by decide +kernel

/-- The code of the step `k` before or after the current one. -/
def codeNear (secret : List UInt8) (currentStep : UInt64) (offset : UInt64) (code : Nat) : Bool :=
  generateCodeAtStep secret (currentStep + offset) = code ||
    (offset > 0 && currentStep ≥ offset && generateCodeAtStep secret (currentStep - offset) = code)

/-- `verify` at a time in seconds. -/
def verify (now : Nat) (secret code : List Char) : Bool :=
  match base32Decode secret with
  | none => false
  | some secretBytes =>
    match parseUnsigned (2 ^ 32) code with
    | none => false
    | some codeNum =>
      if Pf.byteLen code ≠ digits then false
      else
        (List.range (tolerance + 1)).any fun offset =>
          codeNear secretBytes (UInt64.ofNat (now / period)) (UInt64.ofNat offset) codeNum

example : verify 59 "GEZDGNBVGY3TQOJQGEZDGNBVGY3TQOJQ".toList "287082".toList = true := by
  decide +kernel

end AiFw.Auth
