import AiFw.Geo.Index
import AiFw.Ids.Suricata
import AiFw.Lib.Checked
import Mathlib.Logic.Relation

namespace AiFw.Ids
open AiFw.Lib
open AiFw.Geo (lines)
set_option autoImplicit true

namespace YaraRules

/-- The sections of a body under their names; what stands before the first one is of none. -/
structure SectionSplit where
  sections : KeyedMap (List Char) (List Char)
  current : List Char
  content : List Char

namespace SectionSplit

def close (s : SectionSplit) : KeyedMap (List Char) (List Char) :=
  if s.current = [] then s.sections else s.sections.insert s.current (trim s.content)

def step (s : SectionSplit) (line : List Char) : SectionSplit :=
  let trimmed := trim line
  if trimmed = "meta:".toList ∨ trimmed = "strings:".toList ∨ trimmed = "condition:".toList then
    ⟨s.close, (trimmed.reverse.dropWhile (· == ':')).reverse, []⟩
  else { s with content := s.content ++ line ++ ['\n'] }

end SectionSplit

def splitYaraSections (body : List Char) : KeyedMap (List Char) (List Char) :=
  ((lines body).foldl SectionSplit.step ⟨∅, [], []⟩).close

/-- The number after `\x`, of two signs. -/
def escapedByte (h1 h2 : Char) : UInt8 := (hexByte h1 h2).getD 0

def yaraEscape (c : Char) : Bytes :=
  if c = 'n' then [0x0A]
  else if c = 'r' then [0x0D]
  else if c = 't' then [0x09]
  else if c = '\\' ∨ c = '"' then [castByte c]
  else [0x5C, castByte c]

def unescapeYaraString : List Char → Bytes
  | [] => []
  | c :: cs =>
    if c = '\\' then
      match cs with
      | [] => [0x5C]
      | d :: rest =>
        if d = 'x' then
          match rest with
          | [] => [escapedByte '0' '0']
          | [h1] => [escapedByte h1 '0']
          | h1 :: h2 :: rest => escapedByte h1 h2 :: unescapeYaraString rest
        else yaraEscape d ++ unescapeYaraString rest
    else castByte c :: unescapeYaraString cs

/-- Wildcards and jumps end the pattern; a sign without another one for a byte is skipped. -/
def hexPairs : List Char → Bytes
  | c :: d :: rest =>
    if isWhitespace c then hexPairs (d :: rest)
    else if c = '?' ∨ c = '[' then []
    else
      match toDigit 16 c, toDigit 16 d with
      | some high, some low => UInt8.ofNat (16 * high + low) :: hexPairs rest
      | _, _ => hexPairs (d :: rest)
  | _ => []

def parseYaraHex (hex : List Char) : Option Bytes :=
  let bytes := hexPairs (trim hex)
  if bytes = [] then none else some bytes

/-- What a line of the strings section defines. -/
inductive YaraString where
  | content (content : ContentMatch)
  | regex (pattern : PcrePattern)

/-- The value after the equals sign, if it is a string of one of the three kinds. -/
def parseYaraValue : List Char → Option YaraString
  | [] => none
  | mark :: rest =>
    if mark = '"' then
      let text := rest.takeWhile (· != '"')
      let flags := rest.dropWhile (· != '"')
      some (.content { ContentMatch.text (unescapeYaraString text) with
        nocase := (splitAround "nocase".toList flags).isSome })
    else if mark = '{' then
      (parseYaraHex (rest.takeWhile (· != '}'))).map fun bytes => .content (.text bytes)
    else if mark = '/' then
      let pattern := rest.takeWhile (· != '/')
      let flags := (rest.dropWhile (· != '/')).tail
      let re := (if 'i' ∈ flags then "(?i)".toList else []) ++
        (if 's' ∈ flags then "(?s)".toList else []) ++ pattern
      some (.regex ⟨String.ofList re, false, none⟩)
    else none

def parseYaraLine (line : List Char) : Option YaraString :=
  let line := trim line
  if line = [] ∨ "//".toList.isPrefixOf line then none
  else (splitOnce '=' line).bind fun (_, value) => parseYaraValue (trim value)

def parseYaraMeta (metadata : KeyedMap String String) (line : List Char) :
    KeyedMap String String :=
  match splitOnce '=' (trim line) with
  | some (key, value) =>
    metadata.insert (String.ofList (trim key))
      (String.ofList (trimMatches (· == '"') (trim value)))
  | none => metadata

def yaraSeverity (severity : Option String) : IdsSeverity :=
  if severity = some "critical" then 1
  else if severity = some "high" then 2
  else if severity = some "medium" then 3
  else if severity = some "low" ∨ severity = some "info" then 4
  else 3

/-- The rule of a body. It is never refused, and its condition is not read. -/
def parseYaraBody (name body : List Char) (source : RuleSource) : SuricataRule :=
  let sections := splitYaraSections body
  let metadata := (lines ((sections.lookup "meta".toList).getD [])).foldl parseYaraMeta ∅
  let strings := (lines ((sections.lookup "strings".toList).getD [])).filterMap parseYaraLine
  let contents := strings.filterMap fun
    | .content content => some content
    | .regex _ => none
  let pcrePatterns := strings.filterMap fun
    | .content _ => none
    | .regex pattern => some pattern
  { sid := none
    msg := (metadata.lookup "description").getD ("YARA rule: " ++ String.ofList name)
    severity := yaraSeverity (metadata.lookup "severity")
    source
    action := .alert
    protocol := none
    srcAddr := none
    srcPort := none
    dstAddr := none
    dstPort := none
    contents
    pcrePatterns
    flow := none
    threshold := none
    flowbits := []
    metadata
    noPrefilter := contents = [] ∧ pcrePatterns = []
    bidirectional := true }

/-- The signs of names. Of the signs beyond ASCII only blanks are known not to be among them. -/
structure SignClass where
  isAlphanumeric : Char → Bool
  ascii : ∀ c, c.toNat < 128 → isAlphanumeric c = c.isAlphanum
  blank : ∀ c, isWhitespace c = true → isAlphanumeric c = false

def SignClass.isWordChar (signs : SignClass) (c : Char) : Bool :=
  signs.isAlphanumeric c || c == '_'

/-- A comment is left at the first place that closes it, counted from the sign that opens it. -/
def dropBlockComment : List Char → List Char
  | c :: d :: rest => if c = '*' ∧ d = '/' then rest else dropBlockComment (d :: rest)
  | _ => []

def braceDepth (depth : Int32) (c : Char) : Int32 :=
  let depth := if c = '{' then depth + 1 else depth
  if c = '}' then depth - 1 else depth

/-- The signs up to the brace that closes a body, and what stands after it. -/
def takeBody (depth : Int32) : List Char → List Char × List Char
  | [] => ([], [])
  | c :: rest =>
    if 0 < braceDepth depth c then
      (c :: (takeBody (braceDepth depth c) rest).1, (takeBody (braceDepth depth c) rest).2)
    else ([], rest)

/-- The text that is still to be read, and the rules so far. -/
structure YaraScan where
  rest : List Char
  rules : List SuricataRule

section
variable (signs : SignClass) (source : RuleSource)

/-- What comes after the keyword of a rule. -/
def ruleRound (isPrivate : Bool) (text : List Char) (rules : List SuricataRule) :
    Round YaraScan (List SuricataRule) :=
  let name := (trimStart text).takeWhile signs.isWordChar
  match ((trimStart text).dropWhile signs.isWordChar).dropWhile (· != '{') with
  | [] => .done rules
  | _ :: rest =>
    let (body, rest) := takeBody 1 rest
    .next ⟨rest, if isPrivate then rules else rules ++ [parseYaraBody name body source]⟩

/-- One round of the loop. Of any other sign than those of names, blanks and comments, and the
rules' own, nothing is read. -/
def yaraRound (s : YaraScan) : Round YaraScan (List SuricataRule) :=
  let text := trimStart s.rest
  if text = [] then .done s.rules
  else if "//".toList.isPrefixOf text then .next { s with rest := text.dropWhile (· != '\n') }
  else if "/*".toList.isPrefixOf text then .next { s with rest := dropBlockComment text }
  else
    let word := text.takeWhile signs.isWordChar
    let rest := text.dropWhile signs.isWordChar
    if word = "rule".toList then ruleRound signs source false rest s.rules
    else if word = "private".toList ∨ word = "global".toList then
      let next := (trimStart rest).takeWhile signs.isWordChar
      let rest := (trimStart rest).dropWhile signs.isWordChar
      if next = "rule".toList then ruleRound signs source (word = "private".toList) rest s.rules
      else .next { s with rest }
    else .next { s with rest }

/-- The rules that a text is parsed to. -/
def ParsesTo (text : List Char) (rules : List SuricataRule) : Prop :=
  Ends (fun s => some (yaraRound signs source s)) ⟨text, []⟩ rules

end

section
variable (signs : SignClass)

/-- No sign of the body closes what is open before it at this depth. -/
def OpenFrom (depth : Int32) (body : List Char) : Prop :=
  ∀ front, front <+: body → 0 < front.foldl braceDepth depth

/-- The sign after a body is the first that closes it. -/
structure Closes (depth : Int32) (body : List Char) (close : Char) : Prop where
  opened : OpenFrom depth body
  closed : ¬0 < (body ++ [close]).foldl braceDepth depth

/-- What may stand after a word. -/
def EndsWord (rest : List Char) : Prop := ∀ c ∈ rest.head?, signs.isWordChar c = false

/-- A whole word and what comes after it. -/
structure WordBefore (w rest : List Char) : Prop where
  nonempty : w ≠ []
  names : ∀ c ∈ w, signs.isWordChar c = true
  ends : EndsWord signs rest

/-- What stands between the keyword and the body. -/
structure Header (header : List Char) : Prop where
  keyword : EndsWord signs header
  noBody : '{' ∉ header

/-- Texts made of blanks, comments, words and rules. The last comment and the last rule may be
without an end. -/
inductive Scannable : List Char → Prop
  | nil : Scannable []
  | blank (c : Char) (rest : List Char) : isWhitespace c = true → Scannable rest →
      Scannable (c :: rest)
  | lineComment (rest : List Char) : Scannable (rest.dropWhile (· != '\n')) →
      Scannable ('/' :: '/' :: rest)
  | blockComment (text inner rest : List Char) :
      splitAround "*/".toList ('*' :: text) = some (inner, rest) → Scannable rest →
      Scannable ('/' :: '*' :: text)
  | openComment (text : List Char) : splitAround "*/".toList ('*' :: text) = none →
      Scannable ('/' :: '*' :: text)
  | word (w rest : List Char) : WordBefore signs w rest → w ≠ "rule".toList →
      Scannable rest → Scannable (w ++ rest)
  | rule (header body : List Char) (close : Char) (rest : List Char) : Header signs header →
      Closes 1 body close → Scannable rest →
      Scannable ("rule".toList ++ (header ++ '{' :: (body ++ close :: rest)))
  | openRule (header : List Char) : Header signs header → Scannable ("rule".toList ++ header)
  | openBody (header body : List Char) : Header signs header → OpenFrom 1 body →
      Scannable ("rule".toList ++ (header ++ '{' :: body))

end

section
variable (signs : SignClass) (source : RuleSource)

/-- The scan of a text ends, and each of its rounds but the last leaves less of the text. -/
structure Progresses (text : List Char) : Prop where
  ends : ∃ rules, ParsesTo signs source text rules
  advances : ∀ s s', Relation.ReflTransGen (fun s s' => yaraRound signs source s = .next s')
      ⟨text, []⟩ s → yaraRound signs source s = .next s' → s'.rest.length < s.rest.length

def restOf : Round YaraScan (List SuricataRule) → Option (List Char)
  | .done _ => none
  | .next s => some s.rest

/-- What a round leaves of a text, if it is not the last. -/
def leaves (text : List Char) : Option (List Char) :=
  restOf (yaraRound signs source ⟨text, []⟩)

inductive Halts : List Char → Prop
  | done (text : List Char) : leaves signs source text = none → Halts text
  | next (text rest : List Char) : leaves signs source text = some rest → Halts rest → Halts text

end

theorem dropBlockComment_eq (text : List Char) : dropBlockComment text =
    match splitAround "*/".toList text with
    | some (_, rest) => rest
    | none => [] := by
  fun_induction dropBlockComment text with
  | case1 c d rest hclose =>
    obtain ⟨rfl, rfl⟩ := hclose
    rfl
  | case2 c d rest hclose ih =>
    have hprefix : "*/".toList.isPrefixOf (c :: d :: rest) = false := by
      apply Bool.eq_false_iff.mpr
      intro hprefix
      apply hclose
      obtain ⟨hc, hrest⟩ := List.cons_prefix_cons.mp (List.isPrefixOf_iff_prefix.mp hprefix)
      exact ⟨hc.symm, (List.cons_prefix_cons.mp hrest).1.symm⟩
    have hstep : splitAround "*/".toList (c :: d :: rest) =
        (splitAround "*/".toList (d :: rest)).map fun p => (c :: p.1, p.2) := by
      rw [splitAround, hprefix]
      rfl
    rw [ih, hstep]
    cases splitAround "*/".toList (d :: rest) with
    | none => rfl
    | some p => rfl
  | case3 text htext =>
    cases text with
    | nil => rfl
    | cons c rest =>
      cases rest with
      | nil =>
        have hprefix : "*/".toList.isPrefixOf [c] = false := by
          apply Bool.eq_false_iff.mpr
          intro hprefix
          cases (List.cons_prefix_cons.mp (List.isPrefixOf_iff_prefix.mp hprefix)).2.length_le
        rw [splitAround, hprefix]
        rfl
      | cons d rest => exact absurd rfl (htext c d rest)

theorem openFrom_nil (h : 0 < depth) : OpenFrom depth [] := by
  intro front hfront
  rw [List.prefix_nil.mp hfront]
  exact h

theorem openFrom_cons : OpenFrom depth (c :: body) ↔
    0 < depth ∧ OpenFrom (braceDepth depth c) body := by
  constructor
  · intro h
    refine ⟨h [] List.nil_prefix, ?_⟩
    intro front hfront
    exact h (c :: front) (List.cons_prefix_cons.mpr ⟨rfl, hfront⟩)
  · rintro ⟨hdepth, h⟩ front hfront
    cases front with
    | nil => exact hdepth
    | cons d front =>
      obtain ⟨rfl, hrest⟩ := List.cons_prefix_cons.mp hfront
      exact h front hrest

theorem takeBody_open (h : OpenFrom depth body) : takeBody depth body = (body, []) := by
  induction body generalizing depth with
  | nil => rfl
  | cons c body ih =>
    obtain ⟨_, hrest⟩ := openFrom_cons.mp h
    have hfirst : 0 < braceDepth depth c := hrest [] List.nil_prefix
    rw [takeBody, if_pos hfirst, ih hrest]

theorem takeBody_closed (h : Closes depth body close) (rest : List Char) :
    takeBody depth (body ++ close :: rest) = (body, rest) := by
  induction body generalizing depth with
  | nil => exact if_neg h.closed
  | cons c body ih =>
    obtain ⟨_, hrest⟩ := openFrom_cons.mp h.opened
    have hfirst : 0 < braceDepth depth c := hrest [] List.nil_prefix
    have hbody : takeBody (braceDepth depth c) (body ++ close :: rest) = (body, rest) :=
      ih ⟨hrest, h.closed⟩
    rw [List.cons_append, takeBody, if_pos hfirst, hbody]

theorem open_or_closed (hdepth : 0 < depth) (text : List Char) :
    OpenFrom depth text ∨ ∃ body close rest, text = body ++ close :: rest ∧
      Closes depth body close := by
  induction text generalizing depth with
  | nil => exact .inl (openFrom_nil hdepth)
  | cons c text ih =>
    by_cases hfirst : 0 < braceDepth depth c
    · rcases ih hfirst with hopen | ⟨body, close, rest, rfl, hbody⟩
      · exact .inl (openFrom_cons.mpr ⟨hdepth, hopen⟩)
      · exact .inr ⟨c :: body, close, rest, rfl,
          openFrom_cons.mpr ⟨hdepth, hbody.opened⟩, hbody.closed⟩
    · exact .inr ⟨[], c, text, rfl, openFrom_nil hdepth, hfirst⟩

/-- What is left after the keyword of a rule. -/
def afterRule (text : List Char) : Option (List Char) :=
  match text.dropWhile (· != '{') with
  | [] => none
  | _ :: rest => some (takeBody 1 rest).2

theorem dropWhile_dropWhile {p q : α → Bool} (h : ∀ a, p a = true → q a = true) (l : List α) :
    (l.dropWhile p).dropWhile q = l.dropWhile q := by
  induction l with
  | nil => rfl
  | cons a l ih =>
    by_cases hp : p a = true
    · rw [List.dropWhile_cons_of_pos hp, List.dropWhile_cons_of_pos (h a hp), ih]
    · rw [List.dropWhile_cons_of_neg hp]

section
variable {signs : SignClass} {source : RuleSource}

theorem isWordChar_ascii (h : c.toNat < 128) :
    signs.isWordChar c = (c.isAlphanum || c == '_') := by
  rw [SignClass.isWordChar, signs.ascii c h]

theorem isWordChar_blank (h : isWhitespace c = true) : signs.isWordChar c = false := by
  have hne : c ≠ '_' := by
    rintro rfl
    exact absurd h (by decide)
  rw [SignClass.isWordChar, signs.blank c h, beq_eq_false_iff_ne.mpr hne]
  rfl

theorem trimStart_of_word (h : signs.isWordChar c = true) (rest : List Char) :
    trimStart (c :: rest) = c :: rest := by
  apply List.dropWhile_cons_of_neg
  intro hblank
  rw [isWordChar_blank hblank] at h
  cases h

/-- A rule's blanks and its name have no brace. -/
theorem dropWhile_to_brace (text : List Char) :
    ((trimStart text).dropWhile signs.isWordChar).dropWhile (· != '{') =
      text.dropWhile (· != '{') := by
  have hword : ∀ c, signs.isWordChar c = true → (c != '{') = true := by
    intro c hc
    rw [bne_iff_ne]
    rintro rfl
    rw [isWordChar_ascii (by decide)] at hc
    cases hc
  have hblank : ∀ c, isWhitespace c = true → (c != '{') = true := by
    intro c hc
    rw [bne_iff_ne]
    rintro rfl
    exact absurd hc (by decide)
  rw [dropWhile_dropWhile hword, trimStart, dropWhile_dropWhile hblank]

theorem restOf_ruleRound (isPrivate : Bool) (text : List Char) (rules : List SuricataRule) :
    restOf (ruleRound signs source isPrivate text rules) = afterRule text := by
  unfold ruleRound afterRule
  rw [dropWhile_to_brace]
  cases text.dropWhile (· != '{') with
  | nil => rfl
  | cons c rest => rfl

/-- The rules so far have no part in what a round leaves. -/
theorem restOf_yaraRound (s : YaraScan) :
    restOf (yaraRound signs source s) = leaves signs source s.rest := by
  unfold leaves yaraRound
  dsimp only
  split_ifs
  · rfl
  · rfl
  · rfl
  · rw [restOf_ruleRound, restOf_ruleRound]
  · rw [restOf_ruleRound, restOf_ruleRound]
  · rfl
  · rfl

theorem leaves_of_trimStart (h : trimStart a = trimStart b) :
    leaves signs source a = leaves signs source b := by
  unfold leaves yaraRound
  dsimp only
  rw [h]

theorem leaves_blank (h : isWhitespace c = true) (rest : List Char) :
    leaves signs source (c :: rest) = leaves signs source rest :=
  leaves_of_trimStart (List.dropWhile_cons_of_pos h)

theorem leaves_lineComment (rest : List Char) :
    leaves signs source ('/' :: '/' :: rest) = some (rest.dropWhile (· != '\n')) := rfl

theorem leaves_blockComment (text : List Char) :
    leaves signs source ('/' :: '*' :: text) = some (dropBlockComment ('*' :: text)) := rfl

theorem WordBefore.takeWhile (h : WordBefore signs w rest) :
    (w ++ rest).takeWhile signs.isWordChar = w := by
  rw [List.takeWhile_append_of_pos h.names]
  cases rest with
  | nil => exact List.append_nil w
  | cons c rest =>
    have hc : ¬signs.isWordChar c = true := Bool.eq_false_iff.mp (h.ends c rfl)
    rw [List.takeWhile_cons_of_neg hc, List.append_nil]

theorem WordBefore.dropWhile (h : WordBefore signs w rest) :
    (w ++ rest).dropWhile signs.isWordChar = rest := by
  rw [List.dropWhile_append_of_pos h.names]
  cases rest with
  | nil => rfl
  | cons c rest => exact List.dropWhile_cons_of_neg (Bool.eq_false_iff.mp (h.ends c rfl))

theorem WordBefore.trimStart (h : WordBefore signs w rest) :
    trimStart (w ++ rest) = w ++ rest := by
  obtain ⟨c, w, rfl⟩ := List.exists_cons_of_ne_nil h.nonempty
  exact trimStart_of_word (h.names c List.mem_cons_self) (w ++ rest)

/-- No comment begins as a word does. -/
theorem WordBefore.not_comment (h : WordBefore signs w rest) (d : Char) (key : List Char) :
    ('/' :: d :: key).isPrefixOf (w ++ rest) = false := by
  obtain ⟨c, w, rfl⟩ := List.exists_cons_of_ne_nil h.nonempty
  apply Bool.eq_false_iff.mpr
  intro hprefix
  have hc := h.names c List.mem_cons_self
  rw [← (List.cons_prefix_cons.mp (List.isPrefixOf_iff_prefix.mp hprefix)).1,
    isWordChar_ascii (by decide)] at hc
  cases hc

theorem yaraRound_word (h : WordBefore signs w rest) {s : YaraScan}
    (htext : AiFw.Lib.trimStart s.rest = w ++ rest) : yaraRound signs source s =
      if w = "rule".toList then ruleRound signs source false rest s.rules
      else if w = "private".toList ∨ w = "global".toList then
        if (trimStart rest).takeWhile signs.isWordChar = "rule".toList then
          ruleRound signs source (w = "private".toList)
            ((trimStart rest).dropWhile signs.isWordChar) s.rules
        else .next { s with rest := (trimStart rest).dropWhile signs.isWordChar }
      else .next { s with rest } := by
  have hne : w ++ rest ≠ [] := List.append_ne_nil_of_left_ne_nil h.nonempty rest
  have hline : ¬"//".toList.isPrefixOf (w ++ rest) = true :=
    Bool.eq_false_iff.mp (h.not_comment '/' [])
  have hblock : ¬"/*".toList.isPrefixOf (w ++ rest) = true :=
    Bool.eq_false_iff.mp (h.not_comment '*' [])
  unfold yaraRound
  dsimp only
  rw [htext, if_neg hne, if_neg hline, if_neg hblock, h.takeWhile, h.dropWhile]

theorem leaves_word (h : WordBefore signs w rest) : leaves signs source (w ++ rest) =
    if w = "rule".toList then afterRule rest
    else if w = "private".toList ∨ w = "global".toList then
      if (trimStart rest).takeWhile signs.isWordChar = "rule".toList then
        afterRule ((trimStart rest).dropWhile signs.isWordChar)
      else some ((trimStart rest).dropWhile signs.isWordChar)
    else some rest := by
  rw [leaves, yaraRound_word h h.trimStart]
  split_ifs
  · exact restOf_ruleRound false rest []
  · exact restOf_ruleRound _ _ []
  · rfl
  · rfl

/-- A sign that nothing begins with is left where it is. -/
theorem leaves_stuck (hblank : isWhitespace c = false) (hword : signs.isWordChar c = false)
    (hline : ¬"//".toList <+: c :: rest) (hblock : ¬"/*".toList <+: c :: rest) :
    leaves signs source (c :: rest) = some (c :: rest) := by
  have htrim : trimStart (c :: rest) = c :: rest :=
    List.dropWhile_cons_of_neg (Bool.eq_false_iff.mp hblank)
  have hline' : ¬"//".toList.isPrefixOf (c :: rest) = true := by
    rwa [List.isPrefixOf_iff_prefix]
  have hblock' : ¬"/*".toList.isPrefixOf (c :: rest) = true := by
    rwa [List.isPrefixOf_iff_prefix]
  unfold leaves yaraRound
  dsimp only
  rw [htrim, if_neg (List.cons_ne_nil c rest), if_neg hline', if_neg hblock',
    List.takeWhile_cons_of_neg (Bool.eq_false_iff.mp hword),
    List.dropWhile_cons_of_neg (Bool.eq_false_iff.mp hword)]
  rfl

theorem dropBlockComment_suffix (text : List Char) : dropBlockComment text <:+ text := by
  rw [dropBlockComment_eq]
  cases h : splitAround "*/".toList text with
  | none => exact List.nil_suffix
  | some p => exact ⟨p.1 ++ "*/".toList, (splitAround_eq h).symm⟩

theorem takeBody_suffix (depth : Int32) (text : List Char) :
    (takeBody depth text).2 <:+ text := by
  induction text generalizing depth with
  | nil => exact List.suffix_refl []
  | cons c text ih =>
    rw [takeBody]
    split_ifs with hdepth
    · exact (ih (braceDepth depth c)).trans (List.suffix_cons c text)
    · exact List.suffix_cons c text

theorem afterRule_suffix (h : afterRule text = some rest) : rest <:+ text := by
  unfold afterRule at h
  split at h
  · cases h
  · next c body hbody =>
    cases h
    apply (takeBody_suffix 1 body).trans
    apply (List.suffix_cons c body).trans
    rw [← hbody]
    exact List.dropWhile_suffix _

theorem leaves_suffix (h : leaves signs source text = some rest) : rest <:+ text := by
  have htrim : trimStart text <:+ text := List.dropWhile_suffix isWhitespace
  have hword : (trimStart text).dropWhile signs.isWordChar <:+ text :=
    (List.dropWhile_suffix _).trans htrim
  have hnext : (trimStart ((trimStart text).dropWhile signs.isWordChar)).dropWhile
      signs.isWordChar <:+ text :=
    (List.dropWhile_suffix _).trans ((List.dropWhile_suffix _).trans hword)
  unfold leaves yaraRound at h
  dsimp only at h
  split_ifs at h
  · cases h
  · cases h
    exact (List.dropWhile_suffix _).trans htrim
  · cases h
    exact (dropBlockComment_suffix _).trans htrim
  · rw [restOf_ruleRound] at h
    exact (afterRule_suffix h).trans hword
  · rw [restOf_ruleRound] at h
    exact (afterRule_suffix h).trans hnext
  · cases h
    exact hnext
  · cases h
    exact hword

theorem not_halts_of_stuck (h : leaves signs source text = some text) :
    ¬Halts signs source text := by
  intro hhalts
  induction hhalts with
  | done text hdone =>
    rw [h] at hdone
    cases hdone
  | next text rest hnext _ ih =>
    rw [h] at hnext
    cases hnext
    exact ih h

theorem Halts.lt (hhalts : Halts signs source text) (h : leaves signs source text = some rest) :
    rest.length < text.length := by
  have hsuffix := leaves_suffix h
  apply Nat.lt_of_le_of_ne hsuffix.length_le
  intro hlength
  rw [hsuffix.eq_of_length hlength] at h
  exact not_halts_of_stuck h hhalts

theorem Halts.after (hhalts : Halts signs source text) (h : leaves signs source text = some rest) :
    Halts signs source rest := by
  cases hhalts with
  | done _ hdone =>
    rw [h] at hdone
    cases hdone
  | next _ rest' hnext hrest =>
    rw [h] at hnext
    cases hnext
    exact hrest

theorem halts_next_iff (h : leaves signs source text = some rest) :
    Halts signs source text ↔ Halts signs source rest :=
  ⟨fun hhalts => hhalts.after h, .next text rest h⟩

theorem halts_congr (h : leaves signs source a = leaves signs source b) :
    Halts signs source a ↔ Halts signs source b := by
  cases hleaves : leaves signs source b with
  | none => exact ⟨fun _ => .done b hleaves, fun _ => .done a (h.trans hleaves)⟩
  | some rest => rw [halts_next_iff hleaves, halts_next_iff (h.trans hleaves)]

theorem leaves_of_round {signs : SignClass} {source : RuleSource} {s : YaraScan}
    {next : Round YaraScan (List SuricataRule)} (h : yaraRound signs source s = next) :
    leaves signs source s.rest = restOf next := by
  rw [← restOf_yaraRound, h]

theorem halts_of_ends
    (h : Ends (fun s => some (yaraRound signs source s)) s rules) :
    Halts signs source s.rest := by
  induction h with
  | done hround => exact .done _ (leaves_of_round (Option.some.inj hround))
  | next hround _ ih => exact .next _ _ (leaves_of_round (Option.some.inj hround)) ih

theorem Halts.ends (h : Halts signs source text) (rules : List SuricataRule) :
    ∃ r, Ends (fun s => some (yaraRound signs source s)) ⟨text, rules⟩ r := by
  induction h generalizing rules with
  | done text hdone =>
    cases hround : yaraRound signs source ⟨text, rules⟩ with
    | done r => exact ⟨r, .done (congrArg some hround)⟩
    | next s =>
      have hleaves := leaves_of_round hround
      rw [hdone] at hleaves
      cases hleaves
  | next text rest hnext _ ih =>
    cases hround : yaraRound signs source ⟨text, rules⟩ with
    | done r =>
      have hleaves := leaves_of_round hround
      rw [hnext] at hleaves
      cases hleaves
    | next s =>
      have hleaves := leaves_of_round hround
      rw [hnext] at hleaves
      cases hleaves
      obtain ⟨r, hends⟩ := ih s.rules
      exact ⟨r, .next (congrArg some hround) hends⟩

theorem Halts.reached (h : Halts signs source s.rest)
    (hreached : Relation.ReflTransGen (fun s s' => yaraRound signs source s = .next s') s s') :
    Halts signs source s'.rest := by
  induction hreached with
  | refl => exact h
  | tail _ hstep ih => exact ih.after (leaves_of_round hstep)

theorem progresses_iff_halts : Progresses signs source text ↔ Halts signs source text := by
  constructor
  · intro h
    obtain ⟨rules, hends⟩ := h.ends
    exact halts_of_ends hends
  · intro h
    refine ⟨h.ends [], ?_⟩
    intro s s' hreached hround
    exact (h.reached hreached).lt (leaves_of_round hround)

theorem wordBefore_of_cons (h : signs.isWordChar c = true) (rest : List Char) :
    WordBefore signs ((c :: rest).takeWhile signs.isWordChar)
      ((c :: rest).dropWhile signs.isWordChar) where
  nonempty := by
    rw [List.takeWhile_cons_of_pos h]
    exact List.cons_ne_nil c _
  names := fun _ => List.mem_takeWhile_imp
  ends := by
    intro d hd
    have hhead := List.head?_dropWhile_not signs.isWordChar (c :: rest)
    rw [Option.mem_def.mp hd] at hhead
    exact hhead

theorem takeWhile_nil_of_ends (h : EndsWord signs rest) :
    rest.takeWhile signs.isWordChar = [] ∧ rest.dropWhile signs.isWordChar = rest := by
  cases rest with
  | nil => exact ⟨rfl, rfl⟩
  | cons c rest =>
    have hc : ¬signs.isWordChar c = true := Bool.eq_false_iff.mp (h c rfl)
    exact ⟨List.takeWhile_cons_of_neg hc, List.dropWhile_cons_of_neg hc⟩

theorem halts_trimStart (text : List Char) :
    Halts signs source (trimStart text) ↔ Halts signs source text :=
  halts_congr (leaves_of_trimStart (trimStart_trimStart text))

/-- A word that begins no rule may as well not be there, also where the code reads it together with
the next one. -/
theorem halts_word (h : WordBefore signs w rest) (hw : w ≠ "rule".toList) :
    Halts signs source (w ++ rest) ↔ Halts signs source rest := by
  induction hn : rest.length using Nat.strongRecOn generalizing w rest with
  | ind n ih =>
    have hleaves : leaves signs source (w ++ rest) = _ := leaves_word h
    rw [if_neg hw] at hleaves
    by_cases hmodifier : w = "private".toList ∨ w = "global".toList
    · rw [if_pos hmodifier] at hleaves
      rw [← halts_trimStart rest]
      have hlength := trimStart_length rest
      by_cases hends : EndsWord signs (trimStart rest)
      · obtain ⟨htake, hdrop⟩ := takeWhile_nil_of_ends hends
        rw [htake, hdrop, if_neg (by decide)] at hleaves
        exact halts_next_iff hleaves
      · cases htext : trimStart rest with
        | nil =>
          rw [htext] at hends
          exact absurd (fun _ hc => by cases hc) hends
        | cons c text =>
          have hc : signs.isWordChar c = true := by
            by_contra hc
            apply hends
            intro d hd
            rw [htext] at hd
            cases hd
            exact Bool.eq_false_iff.mpr hc
          have hnext := wordBefore_of_cons hc text
          rw [htext] at hleaves hlength
          rw [← List.takeWhile_append_dropWhile (p := signs.isWordChar) (l := c :: text)]
          by_cases hrule : (c :: text).takeWhile signs.isWordChar = "rule".toList
          · have hlast : leaves signs source _ = _ := leaves_word hnext
            rw [if_pos hrule] at hlast
            rw [if_pos hrule] at hleaves
            exact halts_congr (hleaves.trans hlast.symm)
          · rw [if_neg hrule] at hleaves
            rw [halts_next_iff hleaves]
            have hshort : ((c :: text).dropWhile signs.isWordChar).length < n := by
              rw [List.dropWhile_cons_of_pos hc, ← hn]
              exact Nat.lt_of_le_of_lt (List.dropWhile_suffix _).length_le hlength
            exact (ih _ hshort hnext hrule rfl).symm
    · rw [if_neg hmodifier] at hleaves
      exact halts_next_iff hleaves

theorem wordBefore_rule (h : EndsWord signs rest) : WordBefore signs "rule".toList rest where
  nonempty := List.cons_ne_nil 'r' _
  names := by
    have hascii : ∀ c ∈ "rule".toList, c.toNat < 128 ∧ c.isAlphanum = true :=
      forall_mem_of_all (by decide)
    intro c hc
    obtain ⟨hlow, halpha⟩ := hascii c hc
    rw [isWordChar_ascii hlow, halpha]
    rfl
  ends := h

theorem Header.wordBefore (h : Header signs header) (rest : List Char) :
    WordBefore signs "rule".toList (header ++ '{' :: rest) := by
  apply wordBefore_rule
  intro c hc
  cases header with
  | nil =>
    cases hc
    exact isWordChar_ascii (by decide)
  | cons d header => exact h.keyword c hc

theorem halts_of_scannable (h : Scannable signs text) : Halts signs source text := by
  induction h with
  | nil => exact .done [] rfl
  | blank c rest hc _ ih => exact (halts_congr (leaves_blank hc rest)).mpr ih
  | lineComment rest _ ih => exact .next _ _ (leaves_lineComment rest) ih
  | blockComment text inner rest hsplit _ ih =>
    apply Halts.next _ _ (leaves_blockComment text)
    rw [dropBlockComment_eq, hsplit]
    exact ih
  | openComment text hsplit =>
    apply Halts.next _ _ (leaves_blockComment text)
    rw [dropBlockComment_eq, hsplit]
    exact .done [] rfl
  | word w rest hword hw _ ih => exact (halts_word hword hw).mpr ih
  | rule header body close rest hheader hbody _ ih =>
    apply Halts.next _ rest ?_ ih
    rw [leaves_word (hheader.wordBefore _), if_pos rfl, afterRule,
      dropWhile_ne_append hheader.noBody]
    exact congrArg (fun p => some p.2) (takeBody_closed hbody rest)
  | openRule header hheader =>
    have hnone : header.dropWhile (· != '{') = [] := by
      rw [← List.append_nil header, dropWhile_ne_append hheader.noBody]
      rfl
    apply Halts.done
    rw [leaves_word (wordBefore_rule hheader.keyword), if_pos rfl, afterRule, hnone]
  | openBody header body hheader hbody =>
    apply Halts.next _ [] ?_ (.done [] rfl)
    rw [leaves_word (hheader.wordBefore _), if_pos rfl, afterRule,
      dropWhile_ne_append hheader.noBody]
    exact congrArg (fun p => some p.2) (takeBody_open hbody)

/-- A text from the keyword of a rule on that the scan ends on. -/
theorem scannable_of_rule (hrest : EndsWord signs rest)
    (hhalts : Halts signs source ("rule".toList ++ rest))
    (ih : ∀ after, after.length < ("rule".toList ++ rest).length → Halts signs source after →
      Scannable signs after) :
    Scannable signs ("rule".toList ++ rest) := by
  have hleaves : leaves signs source ("rule".toList ++ rest) = _ :=
    leaves_word (wordBefore_rule hrest)
  rw [if_pos rfl] at hleaves
  have hsplit := List.takeWhile_append_dropWhile (p := (· != '{')) (l := rest)
  have hbrace := notMem_takeWhile_ne '{' rest
  have hends : EndsWord signs (rest.takeWhile (· != '{')) := by
    intro c hc
    apply hrest c
    rw [← hsplit, List.head?_append, Option.mem_def.mp hc]
    rfl
  have hheader : Header signs (rest.takeWhile (· != '{')) := ⟨hends, hbrace⟩
  cases hdrop : rest.dropWhile (· != '{') with
  | nil =>
    rw [hdrop, List.append_nil] at hsplit
    rw [← hsplit]
    exact .openRule _ hheader
  | cons c text =>
    have hc : c = '{' := by
      have hhead := List.head?_dropWhile_not (· != '{') rest
      rw [hdrop] at hhead
      simpa using hhead
    subst hc
    rw [hdrop] at hsplit
    rcases open_or_closed (by decide : (0 : Int32) < 1) text with hopen |
      ⟨body, close, after, rfl, hbody⟩
    · rw [← hsplit]
      exact .openBody _ _ hheader hopen
    · have hrule : afterRule rest = some after := by
        rw [afterRule, hdrop]
        exact congrArg (fun p => some p.2) (takeBody_closed hbody after)
      rw [hrule] at hleaves
      have hafter : Scannable signs after :=
        ih after (hhalts.lt hleaves) (hhalts.after hleaves)
      rw [← hsplit]
      exact .rule _ body close after hheader hbody hafter

theorem scannable_of_halts (h : Halts signs source text) : Scannable signs text := by
  induction hn : text.length using Nat.strongRecOn generalizing text with
  | ind n ih =>
    have hshorter : ∀ rest, rest.length < text.length → Halts signs source rest →
        Scannable signs rest := by
      intro rest hlt hrest
      rw [hn] at hlt
      exact ih rest.length hlt hrest rfl
    cases text with
    | nil => exact .nil
    | cons c text =>
      by_cases hblank : isWhitespace c = true
      · apply Scannable.blank c text hblank
        apply hshorter text (Nat.lt_succ_self _)
        exact (halts_congr (leaves_blank hblank text)).mp h
      by_cases hword : signs.isWordChar c = true
      · have hbefore := wordBefore_of_cons hword text
        have hsplit := List.takeWhile_append_dropWhile (p := signs.isWordChar) (l := c :: text)
        by_cases hrule : (c :: text).takeWhile signs.isWordChar = "rule".toList
        · rw [hrule] at hsplit
          rw [← hsplit] at h hshorter ⊢
          exact scannable_of_rule hbefore.ends h hshorter
        · have hafter : Halts signs source ((c :: text).dropWhile signs.isWordChar) := by
            rw [← hsplit] at h
            exact (halts_word hbefore hrule).mp h
          have hlt : ((c :: text).dropWhile signs.isWordChar).length < (c :: text).length := by
            rw [List.dropWhile_cons_of_pos hword]
            exact Nat.lt_succ_of_le (List.dropWhile_suffix _).length_le
          rw [← hsplit]
          exact .word _ _ hbefore hrule (hshorter _ hlt hafter)
      by_cases hline : "//".toList <+: c :: text
      · obtain ⟨rest, hrest⟩ := hline
        cases hrest
        have hleaves : leaves signs source ('/' :: '/' :: rest) = _ := leaves_lineComment rest
        exact .lineComment rest (hshorter _ (h.lt hleaves) (h.after hleaves))
      by_cases hblock : "/*".toList <+: c :: text
      · obtain ⟨rest, hrest⟩ := hblock
        cases hrest
        have hleaves : leaves signs source ('/' :: '*' :: rest) = _ := leaves_blockComment rest
        rw [dropBlockComment_eq] at hleaves
        cases hsplit : splitAround "*/".toList ('*' :: rest) with
        | none => exact .openComment rest hsplit
        | some p =>
          rw [hsplit] at hleaves
          exact .blockComment rest p.1 p.2 hsplit (hshorter _ (h.lt hleaves) (h.after hleaves))
      · have hstuck : leaves signs source (c :: text) = some (c :: text) :=
          leaves_stuck (Bool.eq_false_iff.mpr hblank) (Bool.eq_false_iff.mpr hword) hline hblock
        exact absurd h (not_halts_of_stuck hstuck)

end

/-- The scan ends, and every round of it gets on, on exactly the texts that are made of blanks,
comments, words and rules. -/
theorem progresses_iff (signs : SignClass) (source : RuleSource) (text : List Char) :
    Progresses signs source text ↔ Scannable signs text := by
  rw [progresses_iff_halts]
  exact ⟨scannable_of_halts, halts_of_scannable⟩

def asciiSigns : SignClass where
  isAlphanumeric := Char.isAlphanum
  ascii := fun _ _ => rfl
  blank := by
    intro c hc
    apply Bool.eq_false_iff.mpr
    intro halpha
    have hgraphic : isWhitespace c = false :=
      forall_ascii (P := fun c => c.isAlphanum = true → isWhitespace c = false) (by decide)
        (toNat_of_isAlphanum halpha) halpha
    rw [hgraphic] at hc
    cases hc

/-- Nothing is read of the quote of an import. -/
theorem import_never_read :
    ¬Progresses asciiSigns .yara "import \"pe\"".toList := by
  have hword : leaves asciiSigns .yara "import \"pe\"".toList = some " \"pe\"".toList := rfl
  have hblank : leaves asciiSigns .yara " \"pe\"".toList = some "\"pe\"".toList := rfl
  have hquote : leaves asciiSigns .yara "\"pe\"".toList = some "\"pe\"".toList := rfl
  rw [progresses_iff_halts, halts_next_iff hword, halts_next_iff hblank]
  exact not_halts_of_stuck hquote

end YaraRules

end AiFw.Ids
