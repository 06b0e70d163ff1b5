import AiFw.Ids.QuotedMatchers
import AiFw.Lib.Numerals

namespace AiFw.Ids
open AiFw.Lib
set_option autoImplicit true

/-- A letter, a digit or a space. -/
def isLiteralSign (c : Char) : Bool := c.isAlphanum || c == ' '

/-- How a byte of a pattern is written: as it is, in hex, or behind a backslash. -/
inductive ByteText : UInt8 → List Char → Prop where
  | literal (h : isLiteralSign c = true) : ByteText (castByte c) [c]
  | hex (hhigh : toDigit 16 c = some high) (hlow : toDigit 16 d = some low) :
      ByteText (UInt8.ofNat (16 * high + low)) ['|', c, d, '|']
  | escaped (h : c = '\\' ∨ c = '"' ∨ c = ';') : ByteText (castByte c) ['\\', c]

theorem plain_of_literal (h : isLiteralSign c = true) : c ≠ '|' ∧ c ≠ '\\' ∧ c ≠ '"' := by
  refine ⟨?_, ?_, ?_⟩
  all_goals
    rintro rfl
    exact absurd h (by decide)

theorem plain_of_toDigit (h : toDigit 16 c = some n) :
    c ≠ '|' ∧ isWhitespace c = false ∧ c ≠ '\\' ∧ c ≠ '"' ∧ c ≠ '+' := by
  have hsome : (toDigit 16 c).isSome = true := by rw [h]; rfl
  exact forall_ascii (P := fun c => (toDigit 16 c).isSome = true →
    c ≠ '|' ∧ isWhitespace c = false ∧ c ≠ '\\' ∧ c ≠ '"' ∧ c ≠ '+') (by decide)
    (toNat_of_toDigit h) hsome

theorem ByteText.scans (h : ByteText b t) : ScansQuoted t := by
  cases h with
  | literal h => exact .sign (plain_of_literal h).2.1 (plain_of_literal h).2.2
  | hex hhigh hlow =>
    obtain ⟨-, -, hc⟩ := plain_of_toDigit hhigh
    obtain ⟨-, -, hd⟩ := plain_of_toDigit hlow
    have hpipe : '|' ≠ '\\' ∧ '|' ≠ '"' := by decide
    apply ScansQuoted.of_signs
    rw [List.forall_mem_cons, List.forall_mem_cons, List.forall_mem_cons,
      List.forall_mem_singleton]
    exact ⟨hpipe, ⟨hc.1, hc.2.1⟩, ⟨hd.1, hd.2.1⟩, hpipe⟩
  | escaped h => exact .escaped _

theorem ByteText.decodes (h : ByteText b t) (rest : List Char) :
    contentBytes false (t ++ rest) = (contentBytes false rest).map (b :: ·) := by
  cases h with
  | literal h =>
    exact contentBytes_sign (plain_of_literal h).1 (plain_of_literal h).2.1 rest
  | @hex c high d low hhigh hlow =>
    obtain ⟨hpipe, hblank, -, -, hplus⟩ := plain_of_toDigit hhigh
    have hbyte : hexByte c d = some (UInt8.ofNat (16 * high + low)) := by
      rw [hexByte, if_neg hplus, hhigh, hlow]
      rfl
    change contentBytes false ('|' :: c :: d :: '|' :: rest) = _
    rw [contentBytes_pipe, Bool.not_false, contentBytes_hex hpipe hblank hbyte, contentBytes_pipe]
    rfl
  | escaped h =>
    rw [List.cons_append, List.cons_append, List.nil_append, contentBytes_escape]
    obtain rfl | rfl | rfl := h
    all_goals rfl

theorem scansQuoted_printed (h : List.Forall₂ ByteText pattern pieces) :
    ScansQuoted pieces.flatten := by
  induction h with
  | nil => exact .nil
  | cons hb _ ih => exact hb.scans.append ih

theorem contentBytes_printed (h : List.Forall₂ ByteText pattern pieces) :
    contentBytes false pieces.flatten = .ok pattern := by
  induction h with
  | nil => rfl
  | cons hb _ ih =>
    rw [List.flatten_cons, hb.decodes, ih]
    rfl

/-- Every byte can be written. -/
theorem byteText_exists (b : UInt8) : ∃ t, ByteText b t := by
  have hb := b.toNat_lt
  have hhigh : toDigit 16 (Nat.digitChar (b.toNat / 16)) = some (b.toNat / 16) :=
    toDigit_digitChar (by omega) (Nat.le_refl _)
  have hlow : toDigit 16 (Nat.digitChar (b.toNat % 16)) = some (b.toNat % 16) :=
    toDigit_digitChar (by omega) (Nat.le_refl _)
  have hbyte : UInt8.ofNat (16 * (b.toNat / 16) + b.toNat % 16) = b := by
    rw [Nat.div_add_mod, UInt8.ofNat_toNat]
  have htext := ByteText.hex hhigh hlow
  rw [hbyte] at htext
  exact ⟨_, htext⟩

inductive Modifier where
  | nocase
  | fastPattern
  | depth (n : UInt64)
  | offset (n : UInt64)
  | distance (n : Int32)
  | within (n : UInt64)

def int32Text (n : Int32) : List Char :=
  if n.toInt < 0 then '-' :: Nat.toDigits 10 (-n.toInt).toNat else Nat.toDigits 10 n.toInt.toNat

namespace Modifier

def option : Modifier → RuleOption
  | .nocase => ("nocase".toList, [])
  | .fastPattern => ("fast_pattern".toList, [])
  | .depth n => ("depth".toList, Nat.toDigits 10 n.toNat)
  | .offset n => ("offset".toList, Nat.toDigits 10 n.toNat)
  | .distance n => ("distance".toList, int32Text n)
  | .within n => ("within".toList, Nat.toDigits 10 n.toNat)

def text (m : Modifier) : List Char :=
  if m.option.2 = [] then [' '] ++ m.option.1 ++ [';']
  else [' '] ++ m.option.1 ++ ':' :: (m.option.2 ++ [';'])

def set (content : ContentMatch) : Modifier → ContentMatch
  | .nocase => { content with nocase := true }
  | .fastPattern => { content with fastPattern := true }
  | .depth n => { content with depth := some n }
  | .offset n => { content with offset := some n }
  | .distance n => { content with distance := some n }
  | .within n => { content with within := some n }

end Modifier

/-- The modifiers that a content has. -/
def ContentMatch.modifiers (content : ContentMatch) : List Modifier :=
  (if content.nocase then [.nocase] else []) ++
    (if content.fastPattern then [.fastPattern] else []) ++
    content.depth.toList.map .depth ++ content.offset.toList.map .offset ++
    content.distance.toList.map .distance ++ content.within.toList.map .within

theorem nameSigns_of_digits (n : Nat) : (Nat.toDigits 10 n).all isNameSign = true := by
  rw [List.all_eq_true]
  intro c hc
  have hsome := isSome_toDigit_of_mem (b := 10) (by decide) (by decide) n hc
  obtain ⟨d, hd⟩ := Option.isSome_iff_exists.mp hsome
  exact forall_ascii (P := fun c => (toDigit 10 c).isSome = true → isNameSign c = true)
    (by decide) (toNat_of_toDigit hd) hsome

theorem nameSigns_of_int32 (n : Int32) : (int32Text n).all isNameSign = true := by
  unfold int32Text
  split_ifs
  · rw [List.all_cons, nameSigns_of_digits]
    rfl
  · exact nameSigns_of_digits _

theorem Modifier.nameSigns (m : Modifier) :
    m.option.1.all isNameSign = true ∧ m.option.2.all isNameSign = true := by
  cases m with
  | nocase => exact ⟨rfl, rfl⟩
  | fastPattern => exact ⟨rfl, rfl⟩
  | depth n => exact ⟨rfl, nameSigns_of_digits _⟩
  | offset n => exact ⟨rfl, nameSigns_of_digits _⟩
  | distance n => exact ⟨rfl, nameSigns_of_int32 n⟩
  | within n => exact ⟨rfl, nameSigns_of_digits _⟩

theorem Modifier.scans (m : Modifier) : ScansTo m.text [m.option] := by
  have hindent : ∀ c ∈ [' '], isWhitespace c = true := by
    rw [List.forall_mem_singleton]
    rfl
  have hne : m.option.1 ≠ [] := by
    cases m <;> exact List.cons_ne_nil _ _
  obtain ⟨hname, hvalue⟩ := m.nameSigns
  unfold Modifier.text
  split_ifs with hnone
  · have hscan := ScansTo.namedFlag hindent hname hne
    have hpair : (m.option.1, []) = m.option := Prod.ext rfl hnone.symm
    rwa [hpair] at hscan
  · have hsigns : m.option.2.all isValueSign = true := by
      rw [List.all_eq_true] at hvalue ⊢
      intro c hc
      have hkey := (Bool.and_eq_true_iff.mp (hvalue c hc)).1
      exact (Bool.and_eq_true_iff.mp hkey).1
    have hscan := ScansTo.named hindent hname hne (.of_signs hsigns)
    have htrim : trim m.option.2 = m.option.2 := trim_of_name (List.forall_mem_nil _) hvalue hnone
    rwa [htrim] at hscan

theorem parseSize_toDigits (n : UInt64) :
    (parseUnsigned (2 ^ 64) (Nat.toDigits 10 n.toNat)).map UInt64.ofNat = some n := by
  rw [parseUnsigned_toDigits n.toNat_lt, Option.map_some, UInt64.ofNat_toNat]

theorem head_notMem_digits {c : Char} (h : toDigit 10 c = none) (n : Nat) :
    c ∉ Nat.toDigits 10 n := by
  intro hc
  have hsome := isSome_toDigit_of_mem (b := 10) (by decide) (by decide) n hc
  rw [h] at hsome
  cases hsome

theorem parseInt32_digits {n : Nat} (h : n < 2 ^ 31) :
    parseInt32 (Nat.toDigits 10 n) = some (Int32.ofInt n) := by
  have hsign : '-' ∉ Nat.toDigits 10 n := head_notMem_digits rfl n
  unfold parseInt32
  split
  · rename_i digits hdigits
    rw [hdigits] at hsign
    exact absurd List.mem_cons_self hsign
  · rw [parseUnsigned_toDigits h]
    rfl

theorem parseInt32_minus {n : Nat} (h : n < 2 ^ 31 + 1) :
    parseInt32 ('-' :: Nat.toDigits 10 n) = some (Int32.ofInt (-n)) := by
  have hsign : '+' ∉ Nat.toDigits 10 n := head_notMem_digits rfl n
  change (if (Nat.toDigits 10 n).head? = some '+' then none
    else (parseUnsigned (2 ^ 31 + 1) (Nat.toDigits 10 n)).map fun n => Int32.ofInt (-n)) = _
  rw [if_neg fun he => hsign (List.mem_of_head? he), parseUnsigned_toDigits h]
  rfl

theorem parseInt32_text (n : Int32) : parseInt32 (int32Text n) = some n := by
  have hlt := n.toInt_lt
  have hge := n.le_toInt
  unfold int32Text
  split_ifs with hneg
  · rw [parseInt32_minus (by omega), Int.toNat_of_nonneg (by omega), Int.neg_neg, Int32.ofInt_toInt]
  · rw [parseInt32_digits (by omega), Int.toNat_of_nonneg (by omega), Int32.ofInt_toInt]

theorem Modifier.apply (m : Modifier) (rule : SuricataRule) :
    rule.applyOption m.option = .ok (rule.onLast fun last => m.set last) := by
  have hsize (f : ContentMatch → Option UInt64 → ContentMatch) (n : UInt64) :
      (rule.onLast fun last =>
        f last ((parseUnsigned (2 ^ 64) (Nat.toDigits 10 n.toNat)).map UInt64.ofNat)) =
      rule.onLast fun last => f last (some n) := by
    rw [parseSize_toDigits]
  cases m with
  | nocase => rfl
  | fastPattern => rfl
  | depth n => exact congrArg Except.ok (hsize (fun last size => { last with depth := size }) n)
  | offset n => exact congrArg Except.ok (hsize (fun last size => { last with offset := size }) n)
  | distance n =>
    have hread := parseInt32_text n
    change Except.ok (rule.onLast fun last =>
      { last with distance := parseInt32 (int32Text n) }) = _
    rw [hread]
    rfl
  | within n => exact congrArg Except.ok (hsize (fun last size => { last with within := size }) n)

theorem modify_last (l : List α) (x : α) (f : α → α) :
    (l ++ [x]).modify l.length f = l ++ [f x] := by
  induction l with
  | nil => rfl
  | cons y l ih =>
    rw [List.cons_append, List.length_cons, List.modify_succ_cons, ih]
    rfl

/-- Modifiers of the last content, one after the other. -/
theorem applyModifiers (modifiers : List Modifier) (rule : SuricataRule)
    {contents : List ContentMatch} {last : ContentMatch} (h : rule.contents = contents ++ [last]) :
    ∃ rule', (modifiers.map Modifier.option).foldlM SuricataRule.applyOption rule = .ok rule' ∧
      rule'.contents = contents ++ [modifiers.foldl Modifier.set last] := by
  induction modifiers generalizing rule last with
  | nil => exact ⟨rule, rfl, h⟩
  | cons m modifiers ih =>
    have hlast : (rule.onLast fun last => m.set last).contents = contents ++ [m.set last] := by
      rw [SuricataRule.onLast, h, List.length_append, List.length_singleton, Nat.add_sub_cancel]
      exact modify_last contents last _
    obtain ⟨rule', hread, hcontents⟩ := ih _ hlast
    refine ⟨rule', ?_, hcontents⟩
    rw [List.map_cons, List.foldlM_cons, m.apply]
    exact hread

/-- A content as it begins, before its modifiers. -/
def ContentMatch.plain (content : ContentMatch) : ContentMatch :=
  { ContentMatch.text content.pattern with negated := content.negated }

theorem foldl_modifiers {content : ContentMatch} (h : content.buffer = none) :
    content.modifiers.foldl Modifier.set content.plain = content := by
  obtain ⟨pattern, nocase, depth, offset, distance, within, fastPattern, negated, buffer⟩ := content
  obtain rfl : buffer = none := h
  cases nocase <;> cases fastPattern <;> cases depth <;> cases offset <;> cases distance <;>
    cases within <;> rfl

/-- A modifier that the content has. -/
def ContentMatch.Has (content : ContentMatch) : Modifier → Prop
  | .nocase => content.nocase = true
  | .fastPattern => content.fastPattern = true
  | .depth n => content.depth = some n
  | .offset n => content.offset = some n
  | .distance n => content.distance = some n
  | .within n => content.within = some n

theorem has_of_mem {content : ContentMatch} (h : m ∈ content.modifiers) : content.Has m := by
  cases m <;> simpa [ContentMatch.modifiers, ContentMatch.Has] using h

/-- Different modifiers set different fields, so that their order does not matter. -/
theorem set_comm {content : ContentMatch} {m m' : Modifier} (hm : content.Has m)
    (hm' : content.Has m') (last : ContentMatch) : m'.set (m.set last) = m.set (m'.set last) := by
  cases m with
  | nocase => cases m' <;> rfl
  | fastPattern => cases m' <;> rfl
  | depth n =>
    cases m' with
    | depth n' =>
      obtain rfl : n = n' := Option.some.inj (hm.symm.trans hm')
      rfl
    | _ => rfl
  | offset n =>
    cases m' with
    | offset n' =>
      obtain rfl : n = n' := Option.some.inj (hm.symm.trans hm')
      rfl
    | _ => rfl
  | distance n =>
    cases m' with
    | distance n' =>
      obtain rfl : n = n' := Option.some.inj (hm.symm.trans hm')
      rfl
    | _ => rfl
  | within n =>
    cases m' with
    | within n' =>
      obtain rfl : n = n' := Option.some.inj (hm.symm.trans hm')
      rfl
    | _ => rfl

/-- A content with a way to write it: its bytes, and an order of its modifiers. -/
structure PrintedContent where
  content : ContentMatch
  pieces : List (List Char)
  modifiers : List Modifier
  buffer : content.buffer = none
  bytes : List.Forall₂ ByteText content.pattern pieces
  order : modifiers.Perm content.modifiers

theorem printed_exists {content : ContentMatch} (h : content.buffer = none) :
    ∃ printed : PrintedContent, printed.content = content := by
  have hbytes (pattern : Bytes) : ∃ pieces, List.Forall₂ ByteText pattern pieces := by
    induction pattern with
    | nil => exact ⟨[], .nil⟩
    | cons b pattern ih =>
      obtain ⟨t, ht⟩ := byteText_exists b
      obtain ⟨pieces, hpieces⟩ := ih
      exact ⟨t :: pieces, .cons ht hpieces⟩
  obtain ⟨pieces, hpieces⟩ := hbytes content.pattern
  exact ⟨⟨content, pieces, content.modifiers, h, hpieces, .refl _⟩, rfl⟩

namespace PrintedContent
variable (printed : PrintedContent)

def value : List Char :=
  (if printed.content.negated then ['!'] else []) ++ '"' :: (printed.pieces.flatten ++ ['"'])

def text : List Char :=
  [' '] ++ "content".toList ++ ':' :: (printed.value ++ [';']) ++
    printed.modifiers.flatMap Modifier.text

def options : List RuleOption :=
  ("content".toList, printed.value) :: printed.modifiers.map Modifier.option

end PrintedContent

/-- A rule with the contents between its message and its sid. -/
def contentsRule (contents : List PrintedContent) : List Char :=
  ruleLine anyHeader
    (msgOption "x".toList ++ contents.flatMap PrintedContent.text ++ " sid:1;".toList)

theorem ScansTo.flatMap {f : α → List Char} {g : α → List RuleOption} {l : List α}
    (h : ∀ x ∈ l, ScansTo (f x) (g x)) : ScansTo (l.flatMap f) (l.flatMap g) := by
  induction l with
  | nil => exact .nil
  | cons x l ih =>
    obtain ⟨hx, hl⟩ := List.forall_mem_cons.mp h
    exact hx.append (ih hl)

namespace PrintedContent

theorem scans (printed : PrintedContent) : ScansTo printed.text printed.options := by
  have hindent : ∀ c ∈ [' '], isWhitespace c = true := by
    rw [List.forall_mem_singleton]
    rfl
  have hname : "content".toList.all isNameSign = true := by decide
  have hvalue : ScansTo ([' '] ++ "content".toList ++ ':' :: (printed.value ++ [';']))
      [("content".toList, printed.value)] := by
    have hquoted := scansQuoted_printed printed.bytes
    unfold value
    cases printed.content.negated with
    | false => exact .quoted hindent hname (by decide) hquoted
    | true =>
      have hmark : ScansValue ['!'] := .of_signs rfl
      have hscan := ScansTo.named hindent hname (by decide) (hmark.append hquoted.value)
      have htrim : trim (['!'] ++ '"' :: (printed.pieces.flatten ++ ['"'])) =
        ['!'] ++ '"' :: (printed.pieces.flatten ++ ['"']) := trim_negated_quotes _
      rwa [htrim] at hscan
  have hmodifiers : ScansTo (printed.modifiers.flatMap Modifier.text)
      (printed.modifiers.flatMap fun m => [m.option]) := .flatMap fun m _ => m.scans
  rw [← List.map_eq_flatMap] at hmodifiers
  exact hvalue.append hmodifiers

theorem parseContentValue_printed (printed : PrintedContent) :
    parseContentValue printed.value =
      .ok (printed.content.pattern, printed.content.negated) := by
  have hbytes := contentBytes_printed printed.bytes
  unfold value
  cases printed.content.negated with
  | false =>
    have hread := parseContentValue_quoted printed.pieces.flatten
    rwa [hbytes] at hread
  | true =>
    have hread := parseContentValue_negated printed.pieces.flatten
    rwa [hbytes] at hread

/-- The options of a content add it to the rule. -/
theorem applyOptions (printed : PrintedContent) (rule : SuricataRule) :
    ∃ rule', printed.options.foldlM SuricataRule.applyOption rule = .ok rule' ∧
      rule'.contents = rule.contents ++ [printed.content] := by
  have hcontent : rule.applyOption ("content".toList, printed.value) = .ok
      { rule with contents := rule.contents ++ [printed.content.plain] } :=
    rule.withContent_ok printed.parseContentValue_printed
  obtain ⟨rule', hread, hcontents⟩ := applyModifiers printed.modifiers
    { rule with contents := rule.contents ++ [printed.content.plain] } rfl
  have hset : printed.modifiers.foldl Modifier.set printed.content.plain = printed.content := by
    rw [printed.order.foldl_eq', foldl_modifiers printed.buffer]
    intro m hm m' hm' last
    exact set_comm (has_of_mem (printed.order.mem_iff.mp hm))
      (has_of_mem (printed.order.mem_iff.mp hm')) last
  refine ⟨rule', ?_, by rw [hcontents, hset]⟩
  rw [options, List.foldlM_cons, hcontent]
  exact hread

end PrintedContent

theorem applyContents (contents : List PrintedContent) (rule : SuricataRule) :
    ∃ rule', (contents.flatMap PrintedContent.options).foldlM SuricataRule.applyOption rule =
        .ok rule' ∧
      rule'.contents = rule.contents ++ contents.map PrintedContent.content := by
  induction contents generalizing rule with
  | nil => exact ⟨rule, rfl, (List.append_nil _).symm⟩
  | cons printed contents ih =>
    obtain ⟨rule', hread, hcontents⟩ := printed.applyOptions rule
    obtain ⟨rule'', hreads, hall⟩ := ih rule'
    refine ⟨rule'', ?_, ?_⟩
    · rw [List.flatMap_cons, List.foldlM_append, hread]
      exact hreads
    · rw [hall, hcontents, List.append_assoc]
      rfl

theorem parseOptions_contents (contents : List PrintedContent) :
    parseOptions (msgOption "x".toList ++ contents.flatMap PrintedContent.text ++ " sid:1;".toList) =
      ("msg".toList, '"' :: ("x".toList ++ ['"'])) ::
        contents.flatMap PrintedContent.options ++ [("sid".toList, ['1'])] := by
  have hmsg : ∀ c ∈ "x".toList, c ≠ '\\' ∧ c ≠ '"' := forall_mem_of_all (by decide)
  have hcontents : ScansTo (contents.flatMap PrintedContent.text)
      (contents.flatMap PrintedContent.options) := .flatMap fun printed _ => printed.scans
  rw [parseOptions_append ((scans_msgOption hmsg).append hcontents)]
  rfl

theorem apply_msg (rule : SuricataRule) :
    rule.applyOption ("msg".toList, '"' :: ("x".toList ++ ['"'])) = .ok { rule with msg := "x" } := by
  have hread : rule.applyOption ("msg".toList, '"' :: ("x".toList ++ ['"'])) =
    .ok { rule with msg := String.ofList (unquote ('"' :: ("x".toList ++ ['"']))) } := rfl
  rw [hread, unquote_in_quotes]
  rfl

theorem applyAll (contents : List PrintedContent) (rule : SuricataRule) :
    ∃ rule', (("msg".toList, '"' :: ("x".toList ++ ['"'])) ::
        contents.flatMap PrintedContent.options ++ [("sid".toList, ['1'])]).foldlM
          SuricataRule.applyOption rule = .ok rule' ∧
      rule'.contents = rule.contents ++ contents.map PrintedContent.content := by
  obtain ⟨rule', hread, hcontents⟩ := applyContents contents { rule with msg := "x" }
  have hsid : rule'.applyOption ("sid".toList, ['1']) = .ok { rule' with sid := some 1 } := rfl
  refine ⟨{ rule' with sid := some 1 }, ?_, hcontents⟩
  rw [List.cons_append, List.foldlM_cons, bind_ok]
  refine ⟨_, apply_msg rule, ?_⟩
  rw [List.foldlM_append, bind_ok]
  exact ⟨rule', hread, hsid⟩

/-- Contents that are written and read are the same ones, in their order. -/
theorem contents_survive (contents : List PrintedContent) (source : RuleSource) :
    ∃ rule, parseRule (contentsRule contents) source = some (.ok rule) ∧
      rule.contents = contents.map PrintedContent.content := by
  obtain ⟨rule, hread, hcontents⟩ := applyAll contents
    (headerRule source .alert "tcp".toList "any".toList "any".toList "->".toList "any".toList
      "any".toList)
  refine ⟨{ rule with noPrefilter := rule.contents = [] ∧ rule.pcrePatterns = [] }, ?_, hcontents⟩
  rw [contentsRule, parseRule_line anyHeader_ok, parseParts, anyHeader_parts, parseOptions_contents]
  exact congrArg some (map_ok.mpr ⟨rule, hread, rfl⟩)

end AiFw.Ids
