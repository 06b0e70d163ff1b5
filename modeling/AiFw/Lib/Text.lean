import Mathlib.Algebra.Ring.Nat
import Mathlib.Data.List.Basic

namespace AiFw.Lib
set_option autoImplicit true

def isWhitespace (c : Char) : Bool :=
  let n := c.toNat
  (0x09 ≤ n && n ≤ 0x0D) || n == 0x20 || n == 0x85 || n == 0xA0 || n == 0x1680 ||
    (0x2000 ≤ n && n ≤ 0x200A) || n == 0x2028 || n == 0x2029 || n == 0x202F ||
    n == 0x205F || n == 0x3000

def trimStart (s : List Char) : List Char := s.dropWhile isWhitespace

def trim (s : List Char) : List Char := (trimStart (trimStart s).reverse).reverse

theorem trimStart_length (s : List Char) : (trimStart s).length ≤ s.length :=
  (List.dropWhile_sublist _).length_le

theorem trim_length (s : List Char) : (trim s).length ≤ s.length := by
  rw [trim, List.length_reverse]
  apply Nat.le_trans (trimStart_length _)
  rw [List.length_reverse]
  exact trimStart_length s

def splitOnce (sep : Char) : List Char → Option (List Char × List Char)
  | [] => none
  | c :: cs =>
    if c = sep then some ([], cs)
    else (splitOnce sep cs).map fun p => (c :: p.1, p.2)

theorem splitOnce_none {sep : Char} {s : List Char} (h : sep ∉ s) : splitOnce sep s = none := by
  induction s with
  | nil => rfl
  | cons c cs ih =>
    rw [List.mem_cons, not_or] at h
    rw [splitOnce, if_neg (Ne.symm h.1), ih h.2, Option.map_none]

theorem splitOnce_append {sep : Char} {a b : List Char} (h : sep ∉ a) :
    splitOnce sep (a ++ sep :: b) = some (a, b) := by
  induction a with
  | nil => rw [List.nil_append, splitOnce, if_pos rfl]
  | cons c cs ih =>
    rw [List.mem_cons, not_or] at h
    rw [List.cons_append, splitOnce, if_neg (Ne.symm h.1), ih h.2, Option.map_some]

def splitOn (sep : Char) : List Char → List (List Char)
  | [] => [[]]
  | c :: cs =>
    if c = sep then [] :: splitOn sep cs
    else
      match splitOn sep cs with
      | [] => [[c]]
      | p :: ps => (c :: p) :: ps

theorem splitOn_length {p s : List Char} {sep : Char} (h : p ∈ splitOn sep s) :
    p.length ≤ s.length := by
  induction s generalizing p with
  | nil =>
    simp only [splitOn, List.mem_singleton] at h
    subst p; exact Nat.le_refl _
  | cons c cs ih =>
    simp only [splitOn] at h
    split at h
    · rcases List.mem_cons.mp h with he | hm
      · subst p; exact Nat.zero_le _
      · exact Nat.le_succ_of_le (ih hm)
    · cases hs : splitOn sep cs with
      | nil =>
        rw [hs] at h
        simp only [List.mem_singleton] at h
        subst p
        simp only [List.length_cons, List.length_nil]
        omega
      | cons q qs =>
        rw [hs] at h
        rcases List.mem_cons.mp h with he | hm
        · subst p
          have hq : q ∈ splitOn sep cs := by rw [hs]; exact List.mem_cons_self
          simpa only [List.length_cons, Nat.add_le_add_iff_right] using ih hq
        · apply Nat.le_succ_of_le
          apply ih
          rw [hs]
          exact List.mem_cons_of_mem _ hm

def toDigit (radix : Nat) (c : Char) : Option Nat :=
  let n := c.toNat
  let d :=
    if 0x30 ≤ n ∧ n ≤ 0x39 then some (n - 0x30)
    else if 0x61 ≤ n ∧ n ≤ 0x7A then some (n - 0x61 + 10)
    else if 0x41 ≤ n ∧ n ≤ 0x5A then some (n - 0x41 + 10)
    else none
  d.filter (· < radix)

def digitsValue (radix : Nat) (ds : List Nat) : Nat :=
  ds.foldl (fun acc d => acc * radix + d) 0

/-- Decimal text of an unsigned machine integer below `bound`: an optional plus sign and at
least one digit, leading zeros allowed. -/
def parseUnsigned (bound : Nat) (s : List Char) : Option Nat :=
  let body := match s with
    | '+' :: cs => cs
    | cs => cs
  if body = [] then none
  else
    match body.mapM (toDigit 10) with
    | none => none
    | some ds => if digitsValue 10 ds < bound then some (digitsValue 10 ds) else none

def replacementChar : Char := Char.ofNat 0xFFFD

def isContinuation (b : UInt8) : Bool := 0x80 ≤ b.toNat && b.toNat ≤ 0xBF

def secondByteOk (b₀ b₁ : UInt8) : Bool :=
  let f := b₀.toNat
  let n := b₁.toNat
  if f = 0xE0 then 0xA0 ≤ n && n ≤ 0xBF
  else if f = 0xED then 0x80 ≤ n && n ≤ 0x9F
  else if f = 0xF0 then 0x90 ≤ n && n ≤ 0xBF
  else if f = 0xF4 then 0x80 ≤ n && n ≤ 0x8F
  else isContinuation b₁

def sequenceLength (b : UInt8) : Nat :=
  let n := b.toNat
  if n < 0x80 then 1
  else if 0xC2 ≤ n ∧ n ≤ 0xDF then 2
  else if 0xE0 ≤ n ∧ n ≤ 0xEF then 3
  else if 0xF0 ≤ n ∧ n ≤ 0xF4 then 4
  else 0

def lowBits (b : UInt8) : Nat := b.toNat % 64

/-- Lossy UTF-8 decoding: each maximal ill-formed subpart becomes one replacement character.
The fuel is the number of bytes left. -/
def fromUtf8LossyAux : Nat → List UInt8 → List Char
  | 0, _ => []
  | _, [] => []
  | fuel + 1, b₀ :: rest =>
    match sequenceLength b₀, rest with
    | 1, _ => Char.ofNat b₀.toNat :: fromUtf8LossyAux fuel rest
    | 2, b₁ :: rest₁ =>
      if secondByteOk b₀ b₁ then
        Char.ofNat (b₀.toNat % 32 * 64 + lowBits b₁) :: fromUtf8LossyAux fuel rest₁
      else replacementChar :: fromUtf8LossyAux fuel rest
    | 3, b₁ :: rest₁ =>
      if secondByteOk b₀ b₁ then
        match rest₁ with
        | b₂ :: rest₂ =>
          if isContinuation b₂ then
            Char.ofNat ((b₀.toNat % 16 * 64 + lowBits b₁) * 64 + lowBits b₂) ::
              fromUtf8LossyAux fuel rest₂
          else replacementChar :: fromUtf8LossyAux fuel rest₁
        | [] => [replacementChar]
      else replacementChar :: fromUtf8LossyAux fuel rest
    | 4, b₁ :: rest₁ =>
      if secondByteOk b₀ b₁ then
        match rest₁ with
        | b₂ :: rest₂ =>
          if isContinuation b₂ then
            match rest₂ with
            | b₃ :: rest₃ =>
              if isContinuation b₃ then
                Char.ofNat (((b₀.toNat % 8 * 64 + lowBits b₁) * 64 + lowBits b₂) * 64 +
                  lowBits b₃) :: fromUtf8LossyAux fuel rest₃
              else replacementChar :: fromUtf8LossyAux fuel rest₂
            | [] => [replacementChar]
          else replacementChar :: fromUtf8LossyAux fuel rest₁
        | [] => [replacementChar]
      else replacementChar :: fromUtf8LossyAux fuel rest
    | _, _ => replacementChar :: fromUtf8LossyAux fuel rest

def fromUtf8Lossy (data : List UInt8) : List Char := fromUtf8LossyAux data.length data

/-- Joined by a sign, each part takes a place more than its length, but for the first. -/
theorem intercalate_length {c : Char} {parts : List (List Char)} (h : parts ≠ []) :
    (List.intercalate [c] parts).length + 1 = (parts.map fun p => p.length + 1).sum := by
  induction parts with
  | nil => exact absurd rfl h
  | cons p parts ih =>
    cases parts with
    | nil => rw [List.intercalate_singleton, List.map_singleton, List.sum_singleton]
    | cons q parts =>
      rw [List.intercalate_cons_cons, List.map_cons, List.sum_cons, ← ih (List.cons_ne_nil _ _),
        List.length_append, List.length_append, List.length_singleton, Nat.add_assoc]

/-- A property of the signs of a text can be checked on each of them. -/
theorem forall_mem_of_all {p : α → Prop} [DecidablePred p] {l : List α}
    (h : l.all (fun x => decide (p x)) = true) : ∀ x ∈ l, p x :=
  fun x hx => of_decide_eq_true (List.all_eq_true.mp h x hx)

theorem forall_mem_option_of_all {p : α → Prop} [DecidablePred p] {o : Option α}
    (h : o.toList.all (fun x => decide (p x)) = true) : ∀ x ∈ o, p x :=
  fun x hx => forall_mem_of_all h x (Option.mem_toList.mpr hx)

theorem forall_ascii {P : Char → Prop} (h : ∀ n < 128, P (Char.ofNat n)) (hc : c.toNat < 128) :
    P c := by
  rw [← Char.ofNat_toNat c]
  exact h _ hc

theorem toNat_of_isAlphanum {c : Char} (h : c.isAlphanum = true) : c.toNat < 128 := by
  unfold Char.isAlphanum Char.isAlpha Char.isUpper Char.isLower Char.isDigit at h
  simp only [Bool.or_eq_true, Bool.and_eq_true, decide_eq_true_eq, UInt32.le_iff_toNat_le,
    ge_iff_le] at h
  change ((65 ≤ c.toNat ∧ c.toNat ≤ 90) ∨ (97 ≤ c.toNat ∧ c.toNat ≤ 122)) ∨
    (48 ≤ c.toNat ∧ c.toNat ≤ 57) at h
  omega

/-- What lower case does to the signs of ASCII it does to all, if the others are left out of it. -/
theorem forall_toLower {P : Char → Char → Prop} (h : ∀ n < 128, P (Char.ofNat n) (Char.ofNat n).toLower)
    (hrefl : ∀ c, P c c) (c : Char) : P c c.toLower := by
  by_cases hc : c.toNat < 128
  · exact forall_ascii (P := fun c => P c c.toLower) h hc
  · have hZ : 'Z'.val.toNat = 90 := by decide
    have hother : ¬('A'.val ≤ c.val ∧ c.val ≤ 'Z'.val) := by
      rw [UInt32.le_iff_toNat_le, UInt32.le_iff_toNat_le, hZ]
      intro hupper
      exact hc (Nat.lt_of_le_of_lt hupper.2 (by decide))
    have hsame : c.toLower = c := dif_neg hother
    rw [hsame]
    exact hrefl c

/-- The lower case of a sign; outside ASCII only the Kelvin sign becomes a letter of it. -/
def lowerChar (c : Char) : Char := if c = Char.ofNat 0x212a then 'k' else c.toLower

/-- The upper case of the letters that have one in ASCII. -/
def upperChar (c : Char) : List Char :=
  match c with
  | 'ß' => "SS".toList
  | 'ı' => "I".toList
  | 'ſ' => "S".toList
  | 'ﬀ' => "FF".toList
  | 'ﬁ' => "FI".toList
  | 'ﬂ' => "FL".toList
  | 'ﬃ' => "FFI".toList
  | 'ﬄ' => "FFL".toList
  | 'ﬅ' => "ST".toList
  | 'ﬆ' => "ST".toList
  | c => [c.toUpper]

end AiFw.Lib
