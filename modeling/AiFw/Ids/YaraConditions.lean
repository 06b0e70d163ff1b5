import AiFw.Ids.QuotedMatchers
import AiFw.Ids.ContentWindow
import AiFw.Ids.YaraRules

namespace AiFw.Ids
open AiFw.Lib
open AiFw.Geo (lines filterMap_lines notMem_lines)
set_option autoImplicit true

namespace YaraRules

/-- A sign of a text string. -/
inductive YaraSign where
  | plain (c : Char)
  | newline
  | carriageReturn
  | tab
  | backslash
  | quote
  | hex (high low : Char)

namespace YaraSign

def text : YaraSign → List Char
  | .plain c => [c]
  | .newline => ['\\', 'n']
  | .carriageReturn => ['\\', 'r']
  | .tab => ['\\', 't']
  | .backslash => ['\\', '\\']
  | .quote => ['\\', '"']
  | .hex high low => ['\\', 'x', high, low]

def Valid : YaraSign → Prop
  | .plain c => c ≠ '"' ∧ c ≠ '\\' ∧ c ≠ '\n'
  | .hex high low => (toDigit 16 high).isSome = true ∧ (toDigit 16 low).isSome = true
  | _ => True

/-- The number that two digits are. -/
def hexValue (high low : Char) : UInt8 :=
  UInt8.ofNat (16 * (toDigit 16 high).getD 0 + (toDigit 16 low).getD 0)

/-- What the sign stands for. -/
def bytes : YaraSign → Bytes
  | .plain c => String.utf8EncodeChar c
  | .newline => [0x0A]
  | .carriageReturn => [0x0D]
  | .tab => [0x09]
  | .backslash => [0x5C]
  | .quote => [0x22]
  | .hex high low => [hexValue high low]

/-- What is read of the sign if it is no quote: of a sign beyond ASCII it is one byte. -/
def read : YaraSign → Bytes
  | .plain c => [castByte c]
  | sign => sign.bytes

/-- The sign is read as what it stands for. -/
def Kept : YaraSign → Prop
  | .plain c => c.toNat < 128
  | .quote => False
  | _ => True

end YaraSign

/-- The bytes that are read of a text string, which ends at its first quote, with the backslash
before it. -/
def readBytes : List YaraSign → Bytes
  | [] => []
  | .quote :: _ => [0x5C]
  | sign :: rest => sign.read ++ readBytes rest

/-- What is read for the modifiers of a text string: all from its first quote on. -/
def readFlags (modifiers : List Char) : List YaraSign → List Char
  | [] => '"' :: modifiers
  | .quote :: rest => '"' :: (rest.flatMap YaraSign.text ++ '"' :: modifiers)
  | _ :: rest => readFlags modifiers rest

/-- A byte of a hex string, after the blanks before it. -/
structure HexByte where
  gap : List Char
  high : Char
  low : Char
  blank : ∀ c ∈ gap, isWhitespace c = true
  highDigit : (toDigit 16 high).isSome = true
  lowDigit : (toDigit 16 low).isSome = true

def HexByte.text (b : HexByte) : List Char := b.gap ++ [b.high, b.low]

def HexByte.value (b : HexByte) : UInt8 := YaraSign.hexValue b.high b.low

/-- The strings of a rule: text, or bytes in hex. -/
inductive YaraDef where
  | text (signs : List YaraSign) (nocase : Bool)
  | hex (digits : List HexByte) (gap : List Char)

namespace YaraDef

def Valid : YaraDef → Prop
  | .text signs _ => signs ≠ [] ∧ ∀ sign ∈ signs, sign.Valid
  | .hex digits gap => digits ≠ [] ∧ ∀ c ∈ gap, isWhitespace c = true

def modifiers (nocase : Bool) : List Char := if nocase then " nocase".toList else []

/-- What stands behind the equals sign. -/
def value : YaraDef → List Char
  | .text signs nocase => '"' :: (signs.flatMap YaraSign.text ++ '"' :: modifiers nocase)
  | .hex digits gap => '{' :: (digits.flatMap HexByte.text ++ gap ++ ['}'])

def bytes : YaraDef → Bytes
  | .text signs _ => signs.flatMap YaraSign.bytes
  | .hex digits _ => digits.map HexByte.value

def nocase : YaraDef → Bool
  | .text _ nocase => nocase
  | .hex _ _ => false

/-- The content that is made of the string. -/
def content : YaraDef → ContentMatch
  | .text signs nocase =>
    { ContentMatch.text (readBytes signs) with
      nocase := (splitAround "nocase".toList (readFlags (modifiers nocase) signs)).isSome }
  | .hex digits _ => .text (digits.map HexByte.value)

end YaraDef

/-- The bytes are in the payload, in capitals or not if that is asked for. -/
def Found (nocase : Bool) (pattern payload : Bytes) : Prop :=
  if nocase then OccursNocase pattern payload else pattern <:+: payload

instance : Decidable (Found nocase pattern payload) := by
  unfold Found
  infer_instance

def YaraDef.OccursIn (payload : Bytes) (s : YaraDef) : Prop := Found s.nocase s.bytes payload

/-- The string occurs as it is read. -/
def YaraDef.ReadIn (payload : Bytes) (s : YaraDef) : Prop :=
  Found s.content.nocase s.content.pattern payload

instance : DecidablePred (YaraDef.OccursIn payload) :=
  fun s => inferInstanceAs (Decidable (Found s.nocase s.bytes payload))

instance : DecidablePred (YaraDef.ReadIn payload) :=
  fun s => inferInstanceAs (Decidable (Found s.content.nocase s.content.pattern payload))

inductive YaraCondition where
  | anyOfThem
  | allOfThem
  | ofThem (k : Nat)

namespace YaraCondition

def text : YaraCondition → List Char
  | .anyOfThem => "any of them".toList
  | .allOfThem => "all of them".toList
  | .ofThem k => Nat.toDigits 10 k ++ " of them".toList

/-- How many of some strings have to occur. -/
def needed (n : Nat) : YaraCondition → Nat
  | .anyOfThem => 1
  | .allOfThem => n
  | .ofThem k => k

def Holds (condition : YaraCondition) (strings : List YaraDef) (payload : Bytes) : Prop :=
  condition.needed strings.length ≤ strings.countP (YaraDef.OccursIn payload)

instance (condition : YaraCondition) (strings : List YaraDef) (payload : Bytes) :
    Decidable (condition.Holds strings payload) :=
  inferInstanceAs (Decidable (_ ≤ _))

end YaraCondition

/-- A line that defines a string. -/
inductive Defines : List Char → YaraDef → Prop
  | mk (indent name gap trailing : List Char) (s : YaraDef) :
      (∀ c ∈ indent, isWhitespace c = true) → '=' ∉ name →
      (∀ c ∈ gap, isWhitespace c = true) → (∀ c ∈ trailing, isWhitespace c = true) → s.Valid →
      Defines (indent ++ ('$' :: (name ++ '=' :: (gap ++ s.value)) ++ trailing)) s

/-- The lines between the marks of two sections: a string each, if not a blank line or a comment. -/
inductive StringLines : List (List Char) → List YaraDef → Prop
  | nil : StringLines [] []
  | skip (line : List Char) (ls : List (List Char)) (strings : List YaraDef) :
      trim line = [] ∨ "//".toList <+: trim line → StringLines ls strings →
      StringLines (line :: ls) strings
  | string (line : List Char) (s : YaraDef) (ls : List (List Char)) (strings : List YaraDef) :
      Defines line s → StringLines ls strings → StringLines (line :: ls) (s :: strings)

/-- A body with some strings, a line each, and a condition, whatever stands before them. -/
structure Written (body : List Char) (strings : List YaraDef) (condition : YaraCondition) :
    Prop where
  nonempty : strings ≠ []
  layout : ∃ front mark defs mark' line blanks,
    lines body = front ++ mark :: (defs ++ mark' :: line :: blanks) ∧
    trim mark = "strings:".toList ∧ StringLines defs strings ∧
    trim mark' = "condition:".toList ∧ trim line = condition.text ∧ ∀ l ∈ blanks, trim l = []

theorem unescape_plain {c : Char} (hc : c ≠ '\\') (rest : List Char) :
    unescapeYaraString (c :: rest) = castByte c :: unescapeYaraString rest := by
  rw [unescapeYaraString.eq_def]
  exact if_neg hc

theorem unescape_escape {d : Char} (hd : d ≠ 'x') (rest : List Char) :
    unescapeYaraString ('\\' :: d :: rest) = yaraEscape d ++ unescapeYaraString rest := by
  rw [unescapeYaraString.eq_def]
  exact if_neg hd

theorem unescape_hex (high low : Char) (rest : List Char) :
    unescapeYaraString ('\\' :: 'x' :: high :: low :: rest) =
      escapedByte high low :: unescapeYaraString rest := by
  rw [unescapeYaraString.eq_def]
  rfl

theorem escapedByte_digits (hhigh : (toDigit 16 high).isSome = true)
    (hlow : (toDigit 16 low).isSome = true) :
    escapedByte high low = YaraSign.hexValue high low := by
  obtain ⟨m, hm⟩ := Option.isSome_iff_exists.mp hhigh
  obtain ⟨n, hn⟩ := Option.isSome_iff_exists.mp hlow
  have hplus : high ≠ '+' := by
    rintro rfl
    cases hm
  rw [escapedByte, hexByte, if_neg hplus, YaraSign.hexValue, hm, hn]
  rfl

section
variable {sign : YaraSign}

theorem unescape_sign (hvalid : sign.Valid) (hquote : sign ≠ .quote) (rest : List Char) :
    unescapeYaraString (sign.text ++ rest) = sign.read ++ unescapeYaraString rest := by
  cases sign with
  | plain c => exact unescape_plain hvalid.2.1 rest
  | newline => exact unescape_escape (by decide) rest
  | carriageReturn => exact unescape_escape (by decide) rest
  | tab => exact unescape_escape (by decide) rest
  | backslash => exact unescape_escape (by decide) rest
  | quote => exact absurd rfl hquote
  | hex high low =>
    have hstep := unescape_hex high low rest
    rw [escapedByte_digits hvalid.1 hvalid.2] at hstep
    exact hstep

/-- The part of a text string that is read. -/
def cutText : List YaraSign → List Char
  | [] => []
  | .quote :: _ => ['\\']
  | sign :: rest => sign.text ++ cutText rest

theorem readBytes_cons (hquote : sign ≠ .quote) (rest : List YaraSign) :
    readBytes (sign :: rest) = sign.read ++ readBytes rest := by
  rw [readBytes]
  exact hquote

theorem cutText_cons (hquote : sign ≠ .quote) (rest : List YaraSign) :
    cutText (sign :: rest) = sign.text ++ cutText rest := by
  rw [cutText]
  exact hquote

theorem readFlags_cons (hquote : sign ≠ .quote) (rest : List YaraSign) (modifiers : List Char) :
    readFlags modifiers (sign :: rest) = readFlags modifiers rest := by
  rw [readFlags]
  exact hquote

theorem unescape_cutText (h : ∀ sign ∈ signs, sign.Valid) :
    unescapeYaraString (cutText signs) = readBytes signs := by
  induction signs with
  | nil => rfl
  | cons sign rest ih =>
    obtain ⟨hsign, hrest⟩ := List.forall_mem_cons.mp h
    by_cases hquote : sign = .quote
    · rw [hquote]
      rfl
    · rw [cutText_cons hquote, readBytes_cons hquote, unescape_sign hsign hquote, ih hrest]

theorem text_ne_quote (hvalid : sign.Valid) (hquote : sign ≠ .quote) :
    ∀ c ∈ sign.text, c ≠ '"' := by
  have hdigit : ∀ {c : Char}, (toDigit 16 c).isSome = true → c ≠ '"' := by
    rintro c hc rfl
    cases hc
  cases sign with
  | plain c => exact List.forall_mem_singleton.mpr hvalid.1
  | quote => exact absurd rfl hquote
  | hex high low =>
    have hhigh := hdigit hvalid.1
    have hlow := hdigit hvalid.2
    rw [YaraSign.text, List.forall_mem_cons, List.forall_mem_cons, List.forall_mem_cons,
      List.forall_mem_singleton]
    exact ⟨by decide, by decide, hhigh, hlow⟩
  | newline => exact forall_mem_of_all (by decide)
  | carriageReturn => exact forall_mem_of_all (by decide)
  | tab => exact forall_mem_of_all (by decide)
  | backslash => exact forall_mem_of_all (by decide)

end

/-- Where the first quote cuts the text of a string. -/
theorem cut_at_quote (h : ∀ sign ∈ signs, sign.Valid) (modifiers : List Char) :
    signs.flatMap YaraSign.text ++ '"' :: modifiers = cutText signs ++ readFlags modifiers signs ∧
      (∀ c ∈ cutText signs, c ≠ '"') ∧ (readFlags modifiers signs).head? = some '"' := by
  induction signs with
  | nil => exact ⟨rfl, List.forall_mem_nil _, rfl⟩
  | cons sign rest ih =>
    obtain ⟨hsign, hrest⟩ := List.forall_mem_cons.mp h
    by_cases hquote : sign = .quote
    · subst hquote
      refine ⟨?_, List.forall_mem_singleton.mpr (by decide), rfl⟩
      rw [List.flatMap_cons, List.append_assoc]
      rfl
    · obtain ⟨hcut, hplain, hhead⟩ := ih hrest
      rw [cutText_cons hquote, readFlags_cons hquote, List.flatMap_cons, List.append_assoc, hcut,
        List.append_assoc]
      refine ⟨rfl, ?_, hhead⟩
      intro c hc
      rcases List.mem_append.mp hc with hc | hc
      · exact text_ne_quote hsign hquote c hc
      · exact hplain c hc

theorem takeWhile_cut {front back : List Char} {d : Char} (hfront : ∀ c ∈ front, c ≠ d)
    (hback : back.head? = some d) :
    (front ++ back).takeWhile (· != d) = front ∧ (front ++ back).dropWhile (· != d) = back := by
  have hnot : d ∉ front := fun hmem => hfront d hmem rfl
  obtain ⟨rest, rfl⟩ := List.head?_eq_some_iff.mp hback
  rw [takeWhile_ne_append hnot, dropWhile_ne_append hnot, takeWhile_ne_cons, dropWhile_ne_cons,
    List.append_nil]
  exact ⟨rfl, rfl⟩

theorem parseYaraValue_text (h : ∀ sign ∈ signs, sign.Valid) (nocase : Bool) :
    parseYaraValue (YaraDef.text signs nocase).value =
      some (.content (YaraDef.text signs nocase).content) := by
  obtain ⟨hcut, hplain, hhead⟩ := cut_at_quote h (YaraDef.modifiers nocase)
  obtain ⟨htake, hdrop⟩ := takeWhile_cut hplain hhead
  rw [YaraDef.value, hcut, parseYaraValue, if_pos rfl, htake, hdrop]
  dsimp only
  rw [unescape_cutText h]
  rfl

/-- Digits are no other signs of a hex string. -/
theorem hexDigit_sign (h : (toDigit 16 c).isSome = true) :
    isWhitespace c = false ∧ ¬(c = '?' ∨ c = '[') ∧ c ≠ '}' := by
  obtain ⟨n, hn⟩ := Option.isSome_iff_exists.mp h
  exact forall_ascii (P := fun c => (toDigit 16 c).isSome = true →
    isWhitespace c = false ∧ ¬(c = '?' ∨ c = '[') ∧ c ≠ '}') (by decide) (toNat_of_toDigit hn) h

theorem hexPairs_blank (hc : isWhitespace c = true) (s : List Char) :
    hexPairs (c :: s) = hexPairs s := by
  cases s with
  | nil => rfl
  | cons d rest =>
    rw [hexPairs]
    exact if_pos hc

theorem hexPairs_digits (hhigh : (toDigit 16 high).isSome = true)
    (hlow : (toDigit 16 low).isSome = true) (rest : List Char) :
    hexPairs (high :: low :: rest) = YaraSign.hexValue high low :: hexPairs rest := by
  obtain ⟨hblank, hmark, -⟩ := hexDigit_sign hhigh
  obtain ⟨m, hm⟩ := Option.isSome_iff_exists.mp hhigh
  obtain ⟨n, hn⟩ := Option.isSome_iff_exists.mp hlow
  rw [hexPairs, if_neg (Bool.eq_false_iff.mp hblank), if_neg hmark, YaraSign.hexValue, hm, hn]
  rfl

theorem hexPairs_byte (b : HexByte) (rest : List Char) :
    hexPairs (b.text ++ rest) = b.value :: hexPairs rest := by
  have hgap : ∀ gap : List Char, (∀ c ∈ gap, isWhitespace c = true) →
      hexPairs (gap ++ (b.high :: b.low :: rest)) = b.value :: hexPairs rest := by
    intro gap h
    induction gap with
    | nil => exact hexPairs_digits b.highDigit b.lowDigit rest
    | cons c gap ih =>
      obtain ⟨hc, hgap⟩ := List.forall_mem_cons.mp h
      rw [List.cons_append, hexPairs_blank hc, ih hgap]
  rw [HexByte.text, List.append_assoc]
  exact hgap b.gap b.blank

theorem hexPairs_text (digits : List HexByte) :
    hexPairs (digits.flatMap HexByte.text) = digits.map HexByte.value := by
  induction digits with
  | nil => rfl
  | cons b digits ih => rw [List.flatMap_cons, hexPairs_byte, ih, List.map_cons]

theorem trim_hexText (b : HexByte) (digits : List HexByte)
    (hgap : ∀ c ∈ gap, isWhitespace c = true) :
    trim ((b :: digits).flatMap HexByte.text ++ gap) =
      b.high :: b.low :: digits.flatMap HexByte.text := by
  have hlast : ∀ c ∈ (b.high :: b.low :: digits.flatMap HexByte.text).getLast?,
      isWhitespace c = false := by
    intro c hc
    rcases List.eq_nil_or_concat digits with rfl | ⟨front, d, rfl⟩
    · cases hc
      exact (hexDigit_sign b.lowDigit).1
    · have htext : b.high :: b.low :: (front ++ [d]).flatMap HexByte.text =
          (b.high :: b.low :: (front.flatMap HexByte.text ++ (d.gap ++ [d.high]))) ++ [d.low] := by
        rw [List.flatMap_append, List.flatMap_singleton, HexByte.text]
        simp only [List.cons_append, List.append_assoc, List.nil_append]
      rw [List.concat_eq_append, htext, List.getLast?_concat] at hc
      cases hc
      exact (hexDigit_sign d.lowDigit).1
  have hfirst : ∀ c ∈ (b.high :: b.low :: digits.flatMap HexByte.text).head?,
      isWhitespace c = false := by
    intro c hc
    cases hc
    exact (hexDigit_sign b.highDigit).1
  have hbetween := trim_between b.blank hgap (List.cons_ne_nil b.high _) hfirst hlast
  rw [← hbetween, List.flatMap_cons, HexByte.text]
  simp only [List.cons_append, List.append_assoc, List.nil_append]

theorem parseYaraHex_text (hne : digits ≠ []) (hgap : ∀ c ∈ gap, isWhitespace c = true) :
    parseYaraHex (digits.flatMap HexByte.text ++ gap) = some (digits.map HexByte.value) := by
  obtain ⟨b, digits, rfl⟩ := List.exists_cons_of_ne_nil hne
  have hpairs : hexPairs (b.high :: b.low :: digits.flatMap HexByte.text) =
      (b :: digits).map HexByte.value := by
    rw [hexPairs_digits b.highDigit b.lowDigit, hexPairs_text]
    rfl
  rw [parseYaraHex, trim_hexText b digits hgap, hpairs]
  exact if_neg (List.cons_ne_nil _ _)

theorem hexText_sign (digits : List HexByte) (hgap : ∀ c ∈ gap, isWhitespace c = true) :
    ∀ c ∈ digits.flatMap HexByte.text ++ gap, c ≠ '}' := by
  have hblank : ∀ c, isWhitespace c = true → c ≠ '}' := by
    rintro c hc rfl
    cases hc
  intro c hc
  rcases List.mem_append.mp hc with hc | hc
  · obtain ⟨b, -, hb⟩ := List.mem_flatMap.mp hc
    rcases List.mem_append.mp hb with hb | hb
    · exact hblank c (b.blank c hb)
    · rcases List.mem_pair.mp hb with rfl | rfl
      · exact (hexDigit_sign b.highDigit).2.2
      · exact (hexDigit_sign b.lowDigit).2.2
  · exact hblank c (hgap c hc)

theorem parseYaraValue_hex (hne : digits ≠ []) (hgap : ∀ c ∈ gap, isWhitespace c = true) :
    parseYaraValue (YaraDef.hex digits gap).value =
      some (.content (YaraDef.hex digits gap).content) := by
  have hback : ['}'].head? = some '}' := rfl
  obtain ⟨htake, -⟩ := takeWhile_cut (hexText_sign digits hgap) hback
  rw [YaraDef.value, parseYaraValue, if_neg (by decide), if_pos rfl, htake,
    parseYaraHex_text hne hgap]
  rfl

theorem parseYaraValue_value (h : s.Valid) :
    parseYaraValue (YaraDef.value s) = some (.content s.content) := by
  cases s with
  | text signs nocase => exact parseYaraValue_text h.2 nocase
  | hex digits gap => exact parseYaraValue_hex h.1 h.2

/-- The value has no blank at its front or end. -/
theorem value_ends (s : YaraDef) :
    (∀ c ∈ s.value.head?, isWhitespace c = false) ∧
      ∀ c ∈ s.value.getLast?, isWhitespace c = false := by
  cases s with
  | text signs nocase =>
    constructor
    · intro c hc
      cases hc
      decide
    · intro c hc
      have hc' : c ∈ ('"' :: YaraDef.modifiers nocase).getLast? :=
        getLast?_of_mem_append ('"' :: signs.flatMap YaraSign.text) (List.cons_ne_nil _ _) hc
      cases nocase with
      | false =>
        cases hc'
        decide
      | true =>
        cases hc'
        decide
  | hex digits gap =>
    constructor
    · intro c hc
      cases hc
      decide
    · intro c hc
      have hc' : c ∈ ['}'].getLast? :=
        getLast?_of_mem_append ('{' :: (digits.flatMap HexByte.text ++ gap))
          (List.cons_ne_nil _ _) hc
      cases hc'
      decide

theorem value_ne_nil (s : YaraDef) : s.value ≠ [] := by
  cases s with
  | text signs nocase => exact List.cons_ne_nil _ _
  | hex digits gap => exact List.cons_ne_nil _ _

theorem Defines.trim_eq (h : Defines line s) : ∃ name gap,
    trim line = '$' :: (name ++ '=' :: (gap ++ s.value)) ∧ '=' ∉ name ∧
      ∀ c ∈ gap, isWhitespace c = true := by
  cases h with
  | mk indent name gap trailing s hindent hname hgap htrailing hvalid =>
    refine ⟨name, gap, ?_, hname, hgap⟩
    apply trim_between hindent htrailing (List.cons_ne_nil _ _)
    · intro c hc
      cases hc
      decide
    · intro c hc
      have hfront : '$' :: (name ++ '=' :: (gap ++ s.value)) =
          ('$' :: (name ++ '=' :: gap)) ++ s.value := by
        simp only [List.cons_append, List.append_assoc]
      rw [hfront] at hc
      exact (value_ends s).2 c (getLast?_of_mem_append _ (value_ne_nil s) hc)

theorem Defines.valid (h : Defines line s) : s.Valid := by
  cases h with
  | mk indent name gap trailing s hindent hname hgap htrailing hvalid => exact hvalid

theorem Defines.parse (h : Defines line s) : parseYaraLine line = some (.content s.content) := by
  obtain ⟨name, gap, htrim, hname, hgap⟩ := h.trim_eq
  have hsplit : splitOnce '=' ('$' :: (name ++ '=' :: (gap ++ s.value))) =
      some ('$' :: name, gap ++ s.value) := by
    apply splitOnce_append (a := '$' :: name)
    exact List.not_mem_cons_of_ne_of_not_mem (by decide) hname
  have hvalue : trim (gap ++ s.value) = s.value := by
    have hbetween := trim_between hgap (List.forall_mem_nil _) (value_ne_nil s) (value_ends s).1
      (value_ends s).2
    rwa [List.append_nil] at hbetween
  have hcomment : ¬('$' :: (name ++ '=' :: (gap ++ s.value)) = [] ∨
      "//".toList.isPrefixOf ('$' :: (name ++ '=' :: (gap ++ s.value))) = true) := by
    rintro (hnil | hprefix)
    · cases hnil
    · cases hprefix
  rw [parseYaraLine, htrim, if_neg hcomment, hsplit, Option.bind_some]
  dsimp only
  rw [hvalue, parseYaraValue_value h.valid]

theorem parseYaraLine_trim (h : trim a = trim b) : parseYaraLine a = parseYaraLine b := by
  rw [parseYaraLine, parseYaraLine, h]

theorem filterMap_stringLines (h : StringLines ls strings) :
    ls.filterMap parseYaraLine = strings.map fun s => .content s.content := by
  induction h with
  | nil => rfl
  | skip line ls strings hskip _ ih =>
    have hline : parseYaraLine line = none := by
      apply if_pos
      rcases hskip with hskip | hskip
      · exact .inl hskip
      · exact .inr (List.isPrefixOf_iff_prefix.mpr hskip)
    rw [List.filterMap_cons_none hline, ih]
  | string line s ls strings hline _ ih =>
    rw [List.filterMap_cons_some hline.parse, ih, List.map_cons]

/-- The line is the mark of a section. -/
def IsMark (line : List Char) : Prop :=
  trim line = "meta:".toList ∨ trim line = "strings:".toList ∨ trim line = "condition:".toList

theorem step_plain {s : SectionSplit} (h : ¬IsMark line) :
    s.step line = { s with content := s.content ++ (line ++ ['\n']) } := by
  rw [← List.append_assoc]
  exact if_neg h

theorem step_mark {s : SectionSplit} (h : IsMark line) : s.step line =
    ⟨s.close, ((trim line).reverse.dropWhile (· == ':')).reverse, []⟩ := if_pos h

theorem foldl_plain {s : SectionSplit} {ls : List (List Char)} (h : ∀ l ∈ ls, ¬IsMark l) :
    ls.foldl SectionSplit.step s =
      { s with content := s.content ++ ls.flatMap (· ++ ['\n']) } := by
  induction ls generalizing s with
  | nil =>
    rw [List.flatMap_nil, List.append_nil]
    rfl
  | cons l ls ih =>
    obtain ⟨hl, hls⟩ := List.forall_mem_cons.mp h
    rw [List.foldl_cons, step_plain hl, ih hls, List.flatMap_cons, List.append_assoc]

theorem not_mark_of_stringLines (h : StringLines ls strings) : ∀ l ∈ ls, ¬IsMark l := by
  have hhead : ∀ {line : List Char} {c : Char}, (trim line).head? = some c → c = '$' ∨ c = '/' →
      ¬IsMark line := by
    intro line c hline hc hmark
    rcases hmark with hmark | hmark | hmark
    all_goals
      rw [hmark] at hline
      cases hline
      exact absurd hc (by decide)
  induction h with
  | nil => exact List.forall_mem_nil _
  | skip line ls strings hskip _ ih =>
    refine List.forall_mem_cons.mpr ⟨?_, ih⟩
    rcases hskip with hskip | hskip
    · rintro (hmark | hmark | hmark)
      all_goals
        rw [hskip] at hmark
        cases hmark
    · obtain ⟨rest, hrest⟩ := hskip
      exact hhead (by rw [← hrest]; rfl) (.inr rfl)
  | string line s ls strings hline _ ih =>
    refine List.forall_mem_cons.mpr ⟨?_, ih⟩
    obtain ⟨name, gap, htrim, -⟩ := hline.trim_eq
    exact hhead (by rw [htrim]; rfl) (.inl rfl)

theorem not_mark_of_condition {condition : YaraCondition} (h : trim line = condition.text) :
    ¬IsMark line := by
  have hblank : ' ' ∈ trim line := by
    rw [h]
    cases condition with
    | anyOfThem => decide
    | allOfThem => decide
    | ofThem k => exact List.mem_append_right _ (by decide)
  rintro (hmark | hmark | hmark)
  all_goals
    rw [hmark] at hblank
    revert hblank
    decide

theorem filterMap_section {ls : List (List Char)} (h : ∀ l ∈ ls, '\n' ∉ l) :
    (lines (trim (ls.flatMap (· ++ ['\n'])))).filterMap parseYaraLine =
      ls.filterMap parseYaraLine := by
  have hsplit : (splitOn '\n' (ls.flatMap (· ++ ['\n']))).filterMap parseYaraLine =
      ls.filterMap parseYaraLine := by
    induction ls with
    | nil => rfl
    | cons l ls ih =>
      obtain ⟨hl, hls⟩ := List.forall_mem_cons.mp h
      rw [List.flatMap_cons, List.append_assoc, List.singleton_append, splitOn_append_cons,
        splitOn_of_notMem hl, List.filterMap_append, ih hls, ← List.filterMap_append,
        List.singleton_append]
  have hinv : ∀ a b, trim a = trim b → parseYaraLine a = parseYaraLine b :=
    fun _ _ => parseYaraLine_trim
  rw [filterMap_lines hinv rfl, filterMap_splitOn_trim hinv rfl, hsplit]

/-- The strings section of a written body. -/
theorem Written.section (h : Written body strings condition) : ∃ defs,
    (splitYaraSections body).lookup "strings".toList = some (trim (defs.flatMap (· ++ ['\n']))) ∧
      StringLines defs strings ∧ ∀ l ∈ defs, '\n' ∉ l := by
  obtain ⟨front, mark, defs, mark', line, blanks, hlines, hmark, hdefs, hmark', hline, hblanks⟩ :=
    h.layout
  have hfirst : IsMark mark := .inr (.inl hmark)
  have hsecond : IsMark mark' := .inr (.inr hmark')
  have hlast : ∀ l ∈ line :: blanks, ¬IsMark l := by
    refine List.forall_mem_cons.mpr ⟨not_mark_of_condition hline, ?_⟩
    rintro l hl (hmem | hmem | hmem)
    all_goals
      rw [hblanks l hl] at hmem
      cases hmem
  refine ⟨defs, ?_, hdefs, ?_⟩
  · rw [splitYaraSections, hlines, List.foldl_append, List.foldl_cons, List.foldl_append,
      List.foldl_cons, step_mark hfirst, foldl_plain (not_mark_of_stringLines hdefs),
      step_mark hsecond, foldl_plain hlast, hmark, hmark']
    dsimp only [SectionSplit.close]
    rw [if_neg (by decide), AList.lookup_insert_ne (by decide), if_neg (by decide), List.nil_append]
    exact AList.lookup_insert _
  · intro l hl
    have hmem : l ∈ lines body := by
      rw [hlines]
      exact List.mem_append_right front (List.mem_cons_of_mem mark (List.mem_append_left _ hl))
    exact notMem_lines hmem

theorem Written.contents (h : Written body strings condition) (name : List Char)
    (source : RuleSource) :
    (parseYaraBody name body source).contents = strings.map YaraDef.content := by
  obtain ⟨defs, hsection, hdefs, hlines⟩ := h.section
  have hread : (lines (((splitYaraSections body).lookup "strings".toList).getD [])).filterMap
      parseYaraLine = strings.map fun s => .content s.content := by
    rw [hsection, Option.getD_some, filterMap_section hlines, filterMap_stringLines hdefs]
  unfold parseYaraBody
  dsimp only
  rw [hread, List.filterMap_map, ← List.filterMap_eq_map]
  rfl

theorem StringLines.valid (h : StringLines ls strings) : ∀ s ∈ strings, s.Valid := by
  induction h with
  | nil => exact List.forall_mem_nil _
  | skip _ _ _ _ _ ih => exact ih
  | string line s ls strings hline _ ih => exact List.forall_mem_cons.mpr ⟨hline.valid, ih⟩

theorem content_pattern_ne_nil {s : YaraDef} (h : s.Valid) : s.content.pattern ≠ [] := by
  cases s with
  | text signs nocase =>
    obtain ⟨sign, rest, rfl⟩ := List.exists_cons_of_ne_nil h.1
    cases sign
    all_goals exact List.cons_ne_nil _ _
  | hex digits gap => exact mt List.map_eq_nil_iff.mp h.1

theorem contentMatch_content {s : YaraDef} (h : s.Valid) (payload : Bytes) :
    contentMatch s.content payload = true ↔ s.ReadIn payload := by
  have hoffset : s.content.offset.getD 0 = 0 := by cases s <;> rfl
  have hdepth : s.content.depth = none := by cases s <;> rfl
  rw [contentMatch_pattern_iff hoffset hdepth (content_pattern_ne_nil h), YaraDef.ReadIn, Found,
    ContentMatch.folds, ContentMatch.folds]
  cases s.content.nocase with
  | false => exact Iff.rfl
  | true => exact Iff.rfl

/-- The rule asks for every string as it is read, whatever its condition. -/
theorem Written.stage_iff (h : Written body strings condition) (name : List Char)
    (source : RuleSource) (packet : DecodedPacket) (flow : Option Flow)
    (direction : FlowDirection) (stickyBuffers : StickyBuffers) :
    contentStage (parseYaraBody name body source).toCompiledRule packet flow direction
      stickyBuffers = true ↔ ∀ s ∈ strings, s.ReadIn packet.payload := by
  obtain ⟨defs, -, hdefs, -⟩ := h.section
  have hplain : ∀ s : YaraDef, s.content.buffer = none ∧ s.content.negated = false := by
    intro s
    cases s with
    | text signs nocase => exact ⟨rfl, rfl⟩
    | hex digits gap => exact ⟨rfl, rfl⟩
  rw [contentStage, h.contents, List.all_map, List.all_eq_true]
  apply forall₂_congr
  intro s hs
  rw [Function.comp_apply, (hplain s).1, (hplain s).2, Bool.bne_false]
  exact contentMatch_content (hdefs.valid s hs) packet.payload

def YaraDef.Kept : YaraDef → Prop
  | .text signs _ => ∀ sign ∈ signs, sign.Kept
  | .hex _ _ => True

theorem read_of_kept {sign : YaraSign} (h : sign.Kept) :
    sign ≠ .quote ∧ sign.read = sign.bytes := by
  cases sign with
  | plain c => exact ⟨by simp, (utf8EncodeChar_of_ascii h).symm⟩
  | quote => cases h
  | newline => exact ⟨by simp, rfl⟩
  | carriageReturn => exact ⟨by simp, rfl⟩
  | tab => exact ⟨by simp, rfl⟩
  | backslash => exact ⟨by simp, rfl⟩
  | hex high low => exact ⟨by simp, rfl⟩

theorem readBytes_of_kept (h : ∀ sign ∈ signs, YaraSign.Kept sign) (modifiers : List Char) :
    readBytes signs = signs.flatMap YaraSign.bytes ∧
      readFlags modifiers signs = '"' :: modifiers := by
  induction signs with
  | nil => exact ⟨rfl, rfl⟩
  | cons sign rest ih =>
    obtain ⟨hsign, hrest⟩ := List.forall_mem_cons.mp h
    obtain ⟨hquote, hread⟩ := read_of_kept hsign
    obtain ⟨hbytes, hflags⟩ := ih hrest
    rw [readBytes_cons hquote, readFlags_cons hquote, List.flatMap_cons, hread, hbytes, hflags]
    exact ⟨rfl, rfl⟩

theorem YaraDef.Kept.readIn_iff {s : YaraDef} (h : s.Kept) (payload : Bytes) :
    s.ReadIn payload ↔ s.OccursIn payload := by
  cases s with
  | text signs nocase =>
    obtain ⟨hbytes, hflags⟩ := readBytes_of_kept h (YaraDef.modifiers nocase)
    have hnocase : (splitAround "nocase".toList ('"' :: YaraDef.modifiers nocase)).isSome =
        nocase := by
      cases nocase with
      | false => rfl
      | true => rfl
    rw [YaraDef.ReadIn, YaraDef.OccursIn, YaraDef.content, hbytes, hflags, hnocase]
    exact Iff.rfl
  | hex digits gap => exact Iff.rfl

/-- If all strings are read as they are, a rule asks for all of them, whatever its condition. -/
theorem Written.stage_of_kept (h : Written body strings condition) (hkept : ∀ s ∈ strings, s.Kept)
    (name : List Char) (source : RuleSource) (packet : DecodedPacket) (flow : Option Flow)
    (direction : FlowDirection) (stickyBuffers : StickyBuffers) :
    contentStage (parseYaraBody name body source).toCompiledRule packet flow direction
      stickyBuffers = true ↔
    strings.countP (YaraDef.OccursIn packet.payload) = strings.length := by
  rw [h.stage_iff, List.countP_eq_length]
  apply forall₂_congr
  intro s hs
  rw [decide_eq_true_eq, (hkept s hs).readIn_iff]

section
variable (signs : SignClass) (source : RuleSource)

/-- The scan of a text comes to a rule with this body, which is not private, and goes on with what
is compiled from it. -/
inductive Compiles (text body : List Char) (rule : SuricataRule) : Prop
  | mk (s s' : YaraScan) (header : List Char) (close : Char) (rest : List Char) :
      Relation.ReflTransGen (fun s s' => yaraRound signs source s = .next s') ⟨text, []⟩ s →
      yaraRound signs source s =
        ruleRound signs source false (header ++ '{' :: (body ++ close :: rest)) s.rules →
      Header signs header → Closes 1 body close → yaraRound signs source s = .next s' →
      s'.rules = s.rules ++ [rule] → Compiles text body rule

end

section
variable {signs : SignClass} {source : RuleSource}

theorem ruleRound_body (hheader : Header signs header) (hbody : Closes 1 body close)
    (rest : List Char) (rules : List SuricataRule) : ∃ name,
    ruleRound signs source false (header ++ '{' :: (body ++ close :: rest)) rules =
      .next ⟨rest, rules ++ [parseYaraBody name body source]⟩ := by
  have hbrace : (header ++ '{' :: (body ++ close :: rest)).dropWhile (· != '{') =
      '{' :: (body ++ close :: rest) := dropWhile_ne_append hheader.noBody _
  refine ⟨(trimStart (header ++ '{' :: (body ++ close :: rest))).takeWhile signs.isWordChar, ?_⟩
  unfold ruleRound
  rw [dropWhile_to_brace, hbrace]
  dsimp only
  rw [takeBody_closed hbody]
  rfl

theorem Compiles.parsed (h : Compiles signs source text body rule) :
    ∃ name, rule = parseYaraBody name body source := by
  obtain ⟨s, s', header, close, rest, -, hround, hheader, hbody, hnext, hrules⟩ := h
  obtain ⟨name, hrule⟩ := ruleRound_body hheader hbody rest s.rules
  rw [hround, hrule] at hnext
  cases hnext
  exact ⟨name, (List.singleton_injective (List.append_cancel_left hrules)).symm⟩

def rulesOf : Round YaraScan (List SuricataRule) → List SuricataRule
  | .done rules => rules
  | .next s => s.rules

/-- No round drops a rule. -/
theorem yaraRound_rules (s : YaraScan) : s.rules <+: rulesOf (yaraRound signs source s) := by
  have hrule : ∀ isPrivate text, s.rules <+:
      rulesOf (ruleRound signs source isPrivate text s.rules) := by
    intro isPrivate text
    unfold ruleRound
    rw [dropWhile_to_brace]
    cases text.dropWhile (· != '{') with
    | nil => exact List.prefix_refl _
    | cons c rest =>
      cases isPrivate with
      | false => exact List.prefix_append _ _
      | true => exact List.prefix_refl _
  unfold yaraRound
  dsimp only
  split_ifs
  · exact List.prefix_refl _
  · exact List.prefix_refl _
  · exact List.prefix_refl _
  · exact hrule false _
  · exact hrule _ _
  · exact List.prefix_refl _
  · exact List.prefix_refl _

theorem rules_of_ends (h : Ends (fun s => some (yaraRound signs source s)) s rules) :
    s.rules <+: rules := by
  induction h with
  | @done s _ hround =>
    have hrules : s.rules <+: rulesOf (yaraRound signs source s) := yaraRound_rules s
    rwa [Option.some.inj hround] at hrules
  | @next s _ _ hround _ ih =>
    have hrules : s.rules <+: rulesOf (yaraRound signs source s) := yaraRound_rules s
    rw [Option.some.inj hround] at hrules
    exact hrules.trans ih

theorem ends_of_next (h : Ends (fun s => some (yaraRound signs source s)) s rules)
    (hround : yaraRound signs source s = .next s') :
    Ends (fun s => some (yaraRound signs source s)) s' rules := by
  cases h with
  | done hdone =>
    rw [Option.some.inj hdone] at hround
    cases hround
  | next hnext hends =>
    rw [Option.some.inj hnext] at hround
    cases hround
    exact hends

/-- What is compiled is among the rules in the end. -/
theorem Compiles.mem (h : Compiles signs source text body rule)
    (hparse : ParsesTo signs source text rules) : rule ∈ rules := by
  obtain ⟨s, s', header, close, rest, hreached, -, -, -, hnext, hrules⟩ := h
  have hends : Ends (fun s => some (yaraRound signs source s)) s rules := by
    clear hnext hrules
    induction hreached with
    | refl => exact hparse
    | tail _ hround ih => exact ends_of_next ih hround
  have hprefix := rules_of_ends (ends_of_next hends hnext)
  rw [hrules] at hprefix
  exact hprefix.subset (List.mem_append_right _ List.mem_cons_self)

end

/-- Some number of the strings are never in a payload without all of them. -/
def Inseparable (k : Nat) (strings : List YaraDef) : Prop :=
  ∀ chosen : List YaraDef, chosen.Sublist strings → chosen.length = k → ∀ payload,
    (∀ s ∈ chosen, YaraDef.OccursIn payload s) → ∀ s ∈ strings, YaraDef.OccursIn payload s

theorem Inseparable.countP_eq (h : Inseparable k strings)
    (hk : k ≤ strings.countP (YaraDef.OccursIn payload)) :
    strings.countP (YaraDef.OccursIn payload) = strings.length := by
  have hlength : ((strings.filter (YaraDef.OccursIn payload)).take k).length = k := by
    rw [List.length_take, ← List.countP_eq_length_filter, Nat.min_eq_left hk]
  have hall := h _ ((List.take_sublist k _).trans List.filter_sublist) hlength payload (by
    intro s hs
    exact of_decide_eq_true (List.mem_filter.mp (List.mem_of_mem_take hs)).2)
  apply List.countP_eq_length.mpr
  intro s hs
  exact decide_eq_true (hall s hs)

/-- A condition that needs all of its strings is kept. -/
theorem condition_kept_of_all {signs : SignClass} {source : RuleSource} {text body : List Char}
    {rule : SuricataRule} {strings : List YaraDef} {condition : YaraCondition}
    (h : Compiles signs source text body rule) (hbody : Written body strings condition)
    (hkept : ∀ s ∈ strings, s.Kept) (hall : condition.needed strings.length = strings.length)
    (packet : DecodedPacket) (flow : Option Flow) (direction : FlowDirection)
    (stickyBuffers : StickyBuffers) :
    contentStage rule.toCompiledRule packet flow direction stickyBuffers = true ↔
      condition.Holds strings packet.payload := by
  obtain ⟨name, rfl⟩ := h.parsed
  rw [hbody.stage_of_kept hkept name source, YaraCondition.Holds, hall]
  exact ⟨fun hcount => hcount.ge, fun hle => List.countP_le_length.antisymm hle⟩

def pairBody (condition : YaraCondition) : List Char :=
  "\n    strings:\n        $a = \"AB\"\n".toList ++
    "        $b = \"CD\" nocase\n    condition:\n        ".toList ++ condition.text ++ ['\n']

def pairText (condition : YaraCondition) : List Char :=
  "rule".toList ++ (" pair ".toList ++ '{' :: (pairBody condition ++ '}' :: []))

end YaraRules

end AiFw.Ids
