import AiFw.Ids.ContentWindow
import AiFw.Ids.RuleOptions

namespace AiFw.Ids
open AiFw.Lib
open AiFw.Pf (byteLen)
set_option autoImplicit true

theorem trim_quoted (s : List Char) (hfirst : ∀ c ∈ s.head?, isWhitespace c = false)
    (hne : s ≠ []) (t : List Char) : trim (s ++ (t ++ ['"'])) = s ++ (t ++ ['"']) := by
  have hlast : (s ++ (t ++ ['"'])).getLast? = some '"' := by
    rw [← List.append_assoc, List.getLast?_concat]
  have hhead : (s ++ (t ++ ['"'])).head? = s.head? := by
    cases s with
    | nil => exact absurd rfl hne
    | cons c s => rfl
  have hbetween := trim_between (List.forall_mem_nil _) (List.forall_mem_nil _)
    (List.append_ne_nil_of_left_ne_nil hne (t ++ ['"'])) (by rwa [hhead])
    (by rw [hlast]; rintro _ ⟨⟩; rfl)
  rwa [List.nil_append, List.append_nil] at hbetween

theorem trim_in_quotes (t : List Char) : trim ('"' :: (t ++ ['"'])) = '"' :: (t ++ ['"']) :=
  trim_quoted ['"'] (by rintro _ ⟨⟩; rfl) (List.cons_ne_nil _ _) t

theorem trim_negated_quotes (t : List Char) :
    trim ('!' :: '"' :: (t ++ ['"'])) = '!' :: '"' :: (t ++ ['"']) :=
  trim_quoted ['!', '"'] (by rintro _ ⟨⟩; rfl) (List.cons_ne_nil _ _) t

theorem unquote_in_quotes (t : List Char) : unquote ('"' :: (t ++ ['"'])) = t := by
  rw [unquote, trim_in_quotes]
  change (if (t ++ ['"']).getLast? = some '"' then (t ++ ['"']).dropLast else _) = t
  rw [List.getLast?_concat, if_pos rfl, List.dropLast_concat]

/-- The quotes stay where something is before them. -/
theorem unquote_negated_quotes (t : List Char) :
    unquote ('!' :: '"' :: (t ++ ['"'])) = '!' :: '"' :: (t ++ ['"']) := by
  rw [unquote, trim_negated_quotes]
  rfl

theorem parseContentValue_quoted (t : List Char) :
    parseContentValue ('"' :: (t ++ ['"'])) =
      (contentBytes false t).map fun bytes => (bytes, false) := by
  rw [parseContentValue, trim_in_quotes]
  change (contentBytes false (unquote ('"' :: (t ++ ['"'])))).map _ = _
  rw [unquote_in_quotes]
  rfl

theorem parseContentValue_negated (t : List Char) :
    parseContentValue ('!' :: '"' :: (t ++ ['"'])) =
      (contentBytes false t).map fun bytes => (bytes, true) := by
  rw [parseContentValue, trim_negated_quotes]
  change (contentBytes false (unquote (trim ('"' :: (t ++ ['"']))))).map _ = _
  rw [trim_in_quotes, unquote_in_quotes]
  rfl

/-- An option with its value in quotes. -/
theorem ScansTo.quoted {indent name t : List Char} (hindent : ∀ c ∈ indent, isWhitespace c = true)
    (hname : name.all isNameSign = true) (hne : name ≠ []) (ht : ScansQuoted t) :
    ScansTo (indent ++ name ++ ':' :: ('"' :: (t ++ ['"']) ++ [';']))
      [(name, '"' :: (t ++ ['"']))] := by
  have hscan := ScansTo.named hindent hname hne ht.value
  rwa [trim_in_quotes] at hscan

/-- The message of a rule, as its first option. -/
def msgOption (t : List Char) : List Char :=
  "msg".toList ++ ':' :: ('"' :: (t ++ ['"']) ++ [';'])

theorem scans_msgOption (h : ∀ c ∈ t, c ≠ '\\' ∧ c ≠ '"') :
    ScansTo (msgOption t) [("msg".toList, '"' :: (t ++ ['"']))] := by
  have hname : "msg".toList.all isNameSign = true := by decide
  exact ScansTo.quoted (List.forall_mem_nil _) hname (by decide) (.of_signs h)

/-- The header of a rule for every packet. -/
def anyHeader : List Char := "alert tcp any any -> any any ".toList

theorem anyHeader_parts : splitWhitespace (trim anyHeader) =
    ["alert", "tcp", "any", "any", "->", "any", "any"].map String.toList := by
  decide +kernel

theorem anyHeader_ok : HeaderOk anyHeader where
  opening := by decide
  first := ⟨'a', rfl, rfl, by decide⟩
  parts := ⟨_, _, _, _, _, _, _, [], anyHeader_parts, rfl⟩

/-- The option of an expression, `mark` before its quotes. -/
def pcreOption (indent mark r flags : List Char) : List Char :=
  indent ++ "pcre".toList ++
    ':' :: ((mark ++ '"' :: ('/' :: (r ++ '/' :: flags) ++ ['"'])) ++ [';'])

/-- A rule with some expression among its options. -/
structure PcreLine where
  header : List Char
  before : List Char
  indent : List Char
  r : List Char
  flags : List Char
  after : List Char

namespace PcreLine
variable (line : PcreLine)

/-- The line with the expression as it is, or negated. -/
def text (mark : List Char) : List Char :=
  ruleLine line.header
    (line.before ++ pcreOption line.indent mark line.r line.flags ++ line.after)

/-- The expression is written without quotes and escapes, and there is no other matcher. -/
structure Only (others : List RuleOption) : Prop where
  header : HeaderOk line.header
  before : ScansTo line.before others
  others : ∀ o ∈ others ++ parseOptions line.after,
    o.1 ≠ "content".toList ∧ o.1 ≠ "pcre".toList
  indent : ∀ c ∈ line.indent, isWhitespace c = true
  r : ∀ c ∈ line.r, c ≠ '\\' ∧ c ≠ '"'
  flags : ∀ c ∈ line.flags, c ≠ '\\' ∧ c ≠ '"'

/-- What negation is to do: the same expression, negated. -/
def NegationKept (source : RuleSource) : Prop :=
  ∃ rule rule' p p', parseRule (line.text ['!']) source = some (.ok rule) ∧
    parseRule (line.text []) source = some (.ok rule') ∧
    rule.pcrePatterns = [p] ∧ rule'.pcrePatterns = [p'] ∧ p.negated = true ∧
    p.pattern = p'.pattern

end PcreLine

theorem scans_negated_pcre {indent r flags : List Char}
    (hindent : ∀ c ∈ indent, isWhitespace c = true) (hr : ∀ c ∈ r, c ≠ '\\' ∧ c ≠ '"')
    (hflags : ∀ c ∈ flags, c ≠ '\\' ∧ c ≠ '"') :
    ScansTo (pcreOption indent ['!'] r flags)
      [("pcre".toList, '!' :: '"' :: ('/' :: (r ++ '/' :: flags) ++ ['"']))] := by
  have hslash : '/' ≠ '\\' ∧ '/' ≠ '"' := by decide
  have hsigns : ∀ c ∈ '/' :: (r ++ '/' :: flags), c ≠ '\\' ∧ c ≠ '"' :=
    List.forall_mem_cons.mpr
      ⟨hslash, List.forall_mem_append.mpr ⟨hr, List.forall_mem_cons.mpr ⟨hslash, hflags⟩⟩⟩
  have hmark : ScansValue ['!'] := .of_signs rfl
  have hvalue := hmark.append (ScansQuoted.of_signs hsigns).value
  have hname : "pcre".toList.all isNameSign = true := by decide
  have hscan := ScansTo.named hindent hname (by decide) hvalue
  rwa [List.singleton_append, trim_negated_quotes] at hscan

/-- What is left of the value begins with a quote, not with a slash. -/
theorem parsePcrePattern_negated (t : List Char) :
    parsePcrePattern (unquote ('!' :: '"' :: (t ++ ['"']))) = none := by
  rw [unquote_negated_quotes, parsePcrePattern, trim_negated_quotes]
  rfl

/-- The rule is read, and nothing is left of the expression. -/
theorem pcrePatterns_negated {line : PcreLine} (h : line.Only others) (source : RuleSource) :
    ∃ rule, parseRule (line.text ['!']) source = some (.ok rule) ∧ rule.pcrePatterns = [] := by
  have hscan := parseOptions_append
    (h.before.append (scans_negated_pcre h.indent h.r h.flags)) line.after
  obtain ⟨hothers, hafter⟩ := List.forall_mem_append.mp h.others
  have hkey : "pcre".toList ≠ "content".toList := by decide
  have hok : ∀ o ∈ others ++ [("pcre".toList,
      '!' :: '"' :: ('/' :: (line.r ++ '/' :: line.flags) ++ ['"']))] ++
      parseOptions line.after, OptionOk o := by
    rw [forall_mem_around]
    exact ⟨fun o ho he => absurd he (hothers o ho).1, fun he => absurd he hkey,
      fun o ho he => absurd he (hafter o ho).1⟩
  obtain ⟨rule, hparse, -, hexpressions⟩ := parseRule_grows h.header hscan hok source
  refine ⟨rule, hparse, ?_⟩
  rw [hexpressions, List.flatMap_eq_nil_iff, forall_mem_around]
  refine ⟨fun o ho => addedExpressions_of_ne (hothers o ho).2, ?_,
    fun o ho => addedExpressions_of_ne (hafter o ho).2⟩
  rw [addedExpressions_pcre rfl, parsePcrePattern_negated]
  rfl

/-- A negated expression is lost whatever it is. -/
theorem negation_never_kept (line : PcreLine) (others : List RuleOption) (h : line.Only others)
    (source : RuleSource) : ¬line.NegationKept source := by
  rintro ⟨rule, rule', p, p', hparse, -, hp, -, -⟩
  obtain ⟨read, hread, hnone⟩ := pcrePatterns_negated h source
  rw [hread, Option.some.injEq, Except.ok.injEq] at hparse
  rw [← hparse, hnone] at hp
  cases hp

/-- A site without its administration. -/
def withoutAdmin : PcreLine where
  header := anyHeader
  before := msgOption "no admin".toList
  indent := [' ']
  r := "admin".toList
  flags := ['i']
  after := " sid:1;".toList

theorem withoutAdmin_only :
    withoutAdmin.Only [("msg".toList, '"' :: ("no admin".toList ++ ['"']))] where
  header := anyHeader_ok
  before := scans_msgOption (forall_mem_of_all (by decide))
  others := by decide +kernel
  indent := forall_mem_of_all (by decide)
  r := forall_mem_of_all (by decide)
  flags := forall_mem_of_all (by decide)

theorem withoutAdmin_never_kept :
    withoutAdmin.Only [("msg".toList, '"' :: ("no admin".toList ++ ['"']))] ∧
      ¬withoutAdmin.NegationKept .custom :=
  ⟨withoutAdmin_only, negation_never_kept withoutAdmin _ withoutAdmin_only .custom⟩

theorem withoutAdmin_unmatched :
    (parseRule (withoutAdmin.text ['!']) .custom).map (fun read =>
      read.toOption.map fun rule => (rule.contents, rule.pcrePatterns)) = some (some ([], [])) := by
  decide +kernel

theorem negation_lost : ¬∀ (line : PcreLine) (others : List RuleOption) (source : RuleSource),
    line.Only others → line.NegationKept source := by
  intro h
  obtain ⟨rule, rule', p, p', hparse, -, hp, -, -⟩ := h withoutAdmin _ .custom withoutAdmin_only
  have hread := withoutAdmin_unmatched
  rw [hparse, Option.map_some, Option.some.injEq] at hread
  have hnone : rule.pcrePatterns = [] := congrArg Prod.snd (Option.some.inj hread)
  rw [hnone] at hp
  cases hp

theorem contentBytes_pipe (inHex : Bool) (cs : List Char) :
    contentBytes inHex ('|' :: cs) = contentBytes (!inHex) cs := by
  cases cs with
  | nil => rfl
  | cons d cs => rfl

theorem contentBytes_sign {c : Char} (hpipe : c ≠ '|') (hescape : c ≠ '\\') (cs : List Char) :
    contentBytes false (c :: cs) = (contentBytes false cs).map (castByte c :: ·) := by
  cases cs with
  | nil =>
    change (if c = '|' then _ else if c = '\\' then _ else _) = _
    rw [if_neg hpipe, if_neg hescape]
  | cons d cs =>
    change (if c = '|' then _ else if c = '\\' then _ else _) = _
    rw [if_neg hpipe, if_neg hescape]

theorem contentBytes_escape (d : Char) (cs : List Char) :
    contentBytes false ('\\' :: d :: cs) = (contentBytes false cs).map (escapeBytes d ++ ·) :=
  rfl

theorem contentBytes_hex {c d : Char} (hpipe : c ≠ '|') (hblank : isWhitespace c = false)
    (h : hexByte c d = some byte) (cs : List Char) :
    contentBytes true (c :: d :: cs) = (contentBytes true cs).map (byte :: ·) := by
  change (if c = '|' then _ else if isWhitespace c = true then _ else _) = _
  rw [if_neg hpipe, hblank, if_neg Bool.false_ne_true, h]

/-- The bytes that a content of plain signs becomes: the low eight bits of each sign. -/
theorem contentBytes_plain {t : List Char} (h : ∀ c ∈ t, c ≠ '|' ∧ c ≠ '\\') :
    contentBytes false t = .ok (t.map castByte) := by
  induction t with
  | nil => rfl
  | cons c t ih =>
    obtain ⟨⟨hpipe, hescape⟩, hrest⟩ := List.forall_mem_cons.mp h
    rw [contentBytes_sign hpipe hescape, ih hrest]
    rfl

/-- A text in UTF-8. -/
def utf8Bytes (t : List Char) : Bytes := t.flatMap String.utf8EncodeChar

theorem utf8Size_eq_one (c : Char) : c.utf8Size = 1 ↔ c.toNat < 128 := by
  have hval : c.val.toNat = c.toNat := rfl
  rw [Char.utf8Size_eq_one_iff, UInt32.le_iff_toNat_le, hval]
  exact Nat.lt_succ_iff.symm

theorem utf8EncodeChar_of_ascii {c : Char} (h : c.toNat < 128) :
    String.utf8EncodeChar c = [castByte c] := by
  rw [String.utf8EncodeChar_eq_singleton ((utf8Size_eq_one c).mpr h)]
  rfl

theorem length_utf8Bytes (t : List Char) : (utf8Bytes t).length = byteLen t := by
  rw [utf8Bytes, List.length_flatMap, byteLen]
  simp only [String.length_utf8EncodeChar]

/-- Only an ASCII text has as many bytes as signs. -/
theorem byteLen_eq_length_iff (t : List Char) :
    byteLen t = t.length ↔ ∀ c ∈ t, c.toNat < 128 := by
  have hle (t : List Char) : t.length ≤ byteLen t := by
    induction t with
    | nil => exact Nat.zero_le _
    | cons c t ih =>
      have hc := c.utf8Size_pos
      have hcons : byteLen (c :: t) = c.utf8Size + byteLen t := rfl
      rw [hcons, List.length_cons]
      omega
  induction t with
  | nil => exact iff_of_true rfl (List.forall_mem_nil _)
  | cons c t ih =>
    have hc := c.utf8Size_pos
    have ht := hle t
    have hcons : byteLen (c :: t) = c.utf8Size + byteLen t := rfl
    rw [List.forall_mem_cons, ← utf8Size_eq_one, hcons, List.length_cons]
    constructor
    · intro h
      exact ⟨by omega, ih.mp (by omega)⟩
    · rintro ⟨hone, hrest⟩
      rw [hone, ih.mpr hrest, Nat.add_comm]

/-- Casting each sign is encoding the text exactly if the text is ASCII. -/
theorem map_castByte_iff (t : List Char) :
    t.map castByte = utf8Bytes t ↔ ∀ c ∈ t, c.toNat < 128 := by
  constructor
  · intro h
    rw [← byteLen_eq_length_iff, ← length_utf8Bytes, ← h, List.length_map]
  · intro h
    rw [utf8Bytes, List.map_eq_flatMap]
    exact List.flatMap_congr fun c hc => (utf8EncodeChar_of_ascii (h c hc)).symm

theorem contentMatch_text_iff {pattern : Bytes} (hne : pattern ≠ []) (data : Bytes) :
    contentMatch (.text pattern) data = true ↔ pattern <:+: data :=
  contentMatch_pattern_iff rfl rfl hne data

/-- A rule with a content of plain text among its options. -/
structure TextLine where
  header : List Char
  before : List Char
  indent : List Char
  t : List Char
  after : List Char

namespace TextLine
variable (line : TextLine)

def option : List Char :=
  line.indent ++ "content".toList ++ ':' :: ('"' :: (line.t ++ ['"']) ++ [';'])

def text : List Char := ruleLine line.header (line.before ++ line.option ++ line.after)

/-- The text has no signs of their own meaning, and no option around it is refused. -/
structure Plain (others : List RuleOption) : Prop where
  header : HeaderOk line.header
  before : ScansTo line.before others
  others : ∀ o ∈ others ++ parseOptions line.after, OptionOk o
  indent : ∀ c ∈ line.indent, isWhitespace c = true
  t : ∀ c ∈ line.t, c ≠ '|' ∧ c ≠ '\\' ∧ c ≠ '"'

/-- What the content is to be: the UTF-8 of the text, so that whatever holds that is matched. The
empty payload is never searched. -/
def TextKept (others : List RuleOption) (source : RuleSource) : Prop :=
  ∃ rule content, parseRule line.text source = some (.ok rule) ∧
    rule.contents[(others.flatMap addedPatterns).length]? = some content ∧
    content.pattern = utf8Bytes line.t ∧
    ∀ data, data ≠ [] → utf8Bytes line.t <:+: data →
      contentMatch (.text content.pattern) data = true

end TextLine

theorem scans_text {line : TextLine} (h : line.Plain others) :
    ScansTo line.option [("content".toList, '"' :: (line.t ++ ['"']))] := by
  have hname : "content".toList.all isNameSign = true := by decide
  exact ScansTo.quoted h.indent hname (by decide) (.of_signs fun c hc => (h.t c hc).2)

/-- The rule is read, and the content is each sign cast to a byte. -/
theorem content_of_text {line : TextLine} (h : line.Plain others) (source : RuleSource) :
    ∃ rule content, parseRule line.text source = some (.ok rule) ∧
      rule.contents[(others.flatMap addedPatterns).length]? = some content ∧
      content.pattern = line.t.map castByte := by
  have hscan := parseOptions_append (h.before.append (scans_text h)) line.after
  have hbytes : contentBytes false line.t = .ok (line.t.map castByte) :=
    contentBytes_plain fun c hc => ⟨(h.t c hc).1, (h.t c hc).2.1⟩
  have hvalue : parseContentValue ('"' :: (line.t ++ ['"'])) =
      .ok (line.t.map castByte, false) := by
    rw [parseContentValue_quoted, hbytes]
    rfl
  obtain ⟨hothers, hafter⟩ := List.forall_mem_append.mp h.others
  have hok : ∀ o ∈ others ++ [("content".toList, '"' :: (line.t ++ ['"']))] ++
      parseOptions line.after, OptionOk o := by
    rw [forall_mem_around]
    exact ⟨hothers, fun _ => ⟨_, hvalue⟩, hafter⟩
  obtain ⟨rule, hparse, hpatterns, -⟩ := parseRule_grows h.header hscan hok source
  have hadded : addedPatterns ("content".toList, '"' :: (line.t ++ ['"'])) =
      [line.t.map castByte] := addedPatterns_content rfl hvalue
  rw [List.flatMap_append, List.flatMap_append, List.flatMap_singleton, hadded,
    List.append_assoc, List.singleton_append] at hpatterns
  have hat : (rule.contents.map ContentMatch.pattern)[(others.flatMap addedPatterns).length]? =
      some (line.t.map castByte) := by
    rw [hpatterns, List.getElem?_append_right (Nat.le_refl _), Nat.sub_self]
    rfl
  rw [List.getElem?_map] at hat
  obtain ⟨content, hcontent, hpattern⟩ := Option.map_eq_some_iff.mp hat
  exact ⟨rule, content, hparse, hcontent, hpattern⟩

/-- A content of plain text is kept exactly if it is ASCII. -/
theorem text_kept_iff (line : TextLine) (others : List RuleOption) (h : line.Plain others)
    (source : RuleSource) : line.TextKept others source ↔ ∀ c ∈ line.t, c.toNat < 128 := by
  obtain ⟨rule, content, hparse, hcontent, hpattern⟩ := content_of_text h source
  rw [← map_castByte_iff, ← hpattern]
  constructor
  · rintro ⟨rule', content', hparse', hcontent', hutf8, -⟩
    rw [hparse, Option.some.injEq, Except.ok.injEq] at hparse'
    rw [← hparse', hcontent, Option.some.injEq] at hcontent'
    rwa [hcontent']
  · intro hutf8
    refine ⟨rule, content, hparse, hcontent, hutf8, ?_⟩
    intro data hdata hinfix
    by_cases hnil : content.pattern = []
    · have hpos := List.length_pos_iff.mpr hdata
      rw [hnil, contentMatch_placed]
      exact ⟨by rintro _ ⟨⟩, hpos, by rintro ⟨⟩, 0,
        ⟨Nat.le_refl _, Nat.zero_le _, by rintro _ ⟨⟩, rfl⟩⟩
    · rw [contentMatch_text_iff hnil, hutf8]
      exact hinfix

/-- A rule for some text, after its message. -/
def saying (t : List Char) : TextLine where
  header := anyHeader
  before := msgOption "x".toList
  indent := [' ']
  t := t
  after := " sid:1;".toList

theorem saying_plain {t : List Char} (h : ∀ c ∈ t, c ≠ '|' ∧ c ≠ '\\' ∧ c ≠ '"') :
    (saying t).Plain [("msg".toList, '"' :: ("x".toList ++ ['"']))] where
  header := anyHeader_ok
  before := scans_msgOption (forall_mem_of_all (by decide))
  others := by
    have hkeys : ∀ o ∈ [("msg".toList, '"' :: ("x".toList ++ ['"']))] ++
        parseOptions (saying t).after, o.1 ≠ "content".toList := by
      change ∀ o ∈ [("msg".toList, '"' :: ("x".toList ++ ['"']))] ++ parseOptions " sid:1;".toList,
        o.1 ≠ "content".toList
      decide +kernel
    exact fun o ho he => absurd he (hkeys o ho)
  indent := by
    change ∀ c ∈ [' '], isWhitespace c = true
    exact forall_mem_of_all (by decide)
  t := h

theorem text_kept_login : (saying "login; (su)".toList).Plain
      [("msg".toList, '"' :: ("x".toList ++ ['"']))] ∧
    (saying "login; (su)".toList).TextKept [("msg".toList, '"' :: ("x".toList ++ ['"']))]
      .custom := by
  have hplain := saying_plain (t := "login; (su)".toList) (forall_mem_of_all (by decide))
  exact ⟨hplain, (text_kept_iff _ _ hplain .custom).mpr (forall_mem_of_all (by decide))⟩

theorem accent_pattern : (parseRule (saying ['é']).text .custom).map (fun read =>
    read.toOption.map fun rule => rule.contents.map ContentMatch.pattern) =
      some (some [[0xE9]]) := by
  decide +kernel

theorem accent_lost : ¬∀ (line : TextLine) (others : List RuleOption) (source : RuleSource),
    line.Plain others → line.TextKept others source := by
  intro h
  obtain ⟨rule, content, hparse, hcontent, hutf8, -⟩ :=
    h (saying ['é']) _ .custom (saying_plain (forall_mem_of_all (by decide)))
  have hread := accent_pattern
  rw [hparse, Option.map_some, Option.some.injEq] at hread
  have hpatterns : rule.contents.map ContentMatch.pattern = [[0xE9]] := Option.some.inj hread
  have hmem : content.pattern ∈ rule.contents.map ContentMatch.pattern :=
    List.mem_map_of_mem (List.mem_of_getElem? hcontent)
  rw [hpatterns, List.mem_singleton, hutf8] at hmem
  exact absurd hmem (by decide +kernel)

end AiFw.Ids
