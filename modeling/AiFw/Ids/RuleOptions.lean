import AiFw.Ids.Suricata
import AiFw.Lib.Results

namespace AiFw.Ids
open AiFw.Lib
open AiFw.Pf (byteLen)
set_option autoImplicit true

namespace OptionScan

/-- Between two options. -/
def between (options : List (List Char × List Char)) : OptionScan :=
  ⟨options, [], [], false, false, false, 0⟩

/-- In a value, outside of quotes and parentheses. -/
def inside (options : List (List Char × List Char)) (key value : List Char) : OptionScan :=
  ⟨options, key, value, true, false, false, 0⟩

def quoted (options : List (List Char × List Char)) (key value : List Char) : OptionScan :=
  ⟨options, key, value, true, true, false, 0⟩

end OptionScan

open OptionScan (between inside quoted start push pushValue result)

/-- A sign that is none of the scanner's own, in a value. -/
def isValueSign (c : Char) : Bool := !(['\\', '"', ';', '(', ')'].contains c)

def isKeySign (c : Char) : Bool := isValueSign c && c != ':'

theorem valueSign_facts (h : isValueSign c = true) :
    c ≠ '\\' ∧ c ≠ '"' ∧ c ≠ ';' ∧ c ≠ '(' ∧ c ≠ ')' := by
  simpa [isValueSign, and_assoc] using h

theorem step_inside (h : isValueSign c = true) (options : List (List Char × List Char))
    (key value : List Char) :
    (inside options key value).step c = inside options key (value ++ [c]) := by
  obtain ⟨hescape, hquote, hend, hopen, hclose⟩ := valueSign_facts h
  simp [OptionScan.step, inside, push, hescape, hquote, hend, hopen, hclose]

theorem step_key (h : isKeySign c = true) (options : List (List Char × List Char))
    (key : List Char) : OptionScan.step ⟨options, key, [], false, false, false, 0⟩ c =
      ⟨options, key ++ [c], [], false, false, false, 0⟩ := by
  rw [isKeySign, Bool.and_eq_true, bne_iff_ne] at h
  obtain ⟨hescape, hquote, hend, hopen, hclose⟩ := valueSign_facts h.1
  simp [OptionScan.step, push, hescape, hquote, hend, hopen, hclose, h.2]

/-- Read in a value, the text becomes part of it. -/
def ScansValue (s : List Char) : Prop :=
  ∀ options key value, s.foldl OptionScan.step (inside options key value) =
    inside options key (value ++ s)

/-- Read in the quotes of a value, the text becomes part of it and the quotes stay open. -/
def ScansQuoted (s : List Char) : Prop :=
  ∀ options key value, s.foldl OptionScan.step (quoted options key value) =
    quoted options key (value ++ s)

theorem ScansValue.nil : ScansValue [] := by
  intro options key value
  rw [List.append_nil]
  rfl

theorem ScansValue.append (ha : ScansValue a) (hb : ScansValue b) : ScansValue (a ++ b) := by
  intro options key value
  rw [List.foldl_append, ha, hb, List.append_assoc]

theorem ScansValue.of_signs (h : s.all isValueSign = true) : ScansValue s := by
  induction s with
  | nil => exact .nil
  | cons c s ih =>
    rw [List.all_cons, Bool.and_eq_true] at h
    have hc : ScansValue [c] := fun options key value => step_inside h.1 options key value
    exact hc.append (ih h.2)

theorem ScansQuoted.nil : ScansQuoted [] := by
  intro options key value
  rw [List.append_nil]
  rfl

theorem ScansQuoted.append (ha : ScansQuoted a) (hb : ScansQuoted b) : ScansQuoted (a ++ b) := by
  intro options key value
  rw [List.foldl_append, ha, hb, List.append_assoc]

theorem ScansQuoted.sign (hescape : c ≠ '\\') (hquote : c ≠ '"') : ScansQuoted [c] := by
  intro options key value
  simp [OptionScan.step, quoted, push, hescape, hquote]

/-- Whatever is escaped stays in the quotes. -/
theorem ScansQuoted.escaped (c : Char) : ScansQuoted ['\\', c] := by
  intro options key value
  simp [OptionScan.step, quoted, push, pushValue]

theorem ScansQuoted.of_signs (h : ∀ c ∈ s, c ≠ '\\' ∧ c ≠ '"') : ScansQuoted s := by
  induction s with
  | nil => exact .nil
  | cons c s ih =>
    obtain ⟨hc, hrest⟩ := List.forall_mem_cons.mp h
    exact (ScansQuoted.sign hc.1 hc.2).append (ih hrest)

theorem ScansQuoted.value (h : ScansQuoted s) : ScansValue ('"' :: (s ++ ['"'])) := by
  intro options key value
  have hopen : (inside options key value).step '"' = quoted options key (value ++ ['"']) := by
    simp [OptionScan.step, inside, quoted, pushValue]
  have hclose (value : List Char) :
      (quoted options key value).step '"' = inside options key (value ++ ['"']) := by
    simp [OptionScan.step, inside, quoted, pushValue]
  rw [List.foldl_cons, hopen, List.foldl_append, h, List.foldl_cons, hclose, List.foldl_nil]
  simp only [List.append_assoc, List.cons_append, List.nil_append]

/-- Read between options, the text adds these to them. -/
def ScansTo (s : List Char) (options : List (List Char × List Char)) : Prop :=
  ∀ before, s.foldl OptionScan.step (between before) = between (before ++ options)

theorem ScansTo.nil : ScansTo [] [] := by
  intro before
  rw [List.append_nil]
  rfl

theorem ScansTo.append (ha : ScansTo a o) (hb : ScansTo b o') : ScansTo (a ++ b) (o ++ o') := by
  intro before
  rw [List.foldl_append, ha, hb, List.append_assoc]

theorem scan_key {key : List Char} (hkey : key.all isKeySign = true)
    (options : List (List Char × List Char)) (front : List Char) : key.foldl OptionScan.step ⟨options, front, [], false, false, false, 0⟩ =
      ⟨options, front ++ key, [], false, false, false, 0⟩ := by
  induction key generalizing front with
  | nil => rw [List.append_nil]; rfl
  | cons c key ih =>
    rw [List.all_cons, Bool.and_eq_true] at hkey
    rw [List.foldl_cons, step_key hkey.1, ih hkey.2, List.append_assoc]
    rfl

theorem ScansTo.flag {key : List Char} (hkey : key.all isKeySign = true) (hne : trim key ≠ []) :
    ScansTo (key ++ [';']) [(trim key, [])] := by
  intro before
  rw [List.foldl_append, between, scan_key hkey]
  simp only [List.nil_append, List.foldl_cons, List.foldl_nil]
  simp [OptionScan.step, result, hne, between]
  rfl

theorem ScansTo.option {key value : List Char} (hkey : key.all isKeySign = true)
    (hne : trim key ≠ [])
    (hvalue : ScansValue value) :
    ScansTo (key ++ ':' :: (value ++ [';'])) [(trim key, trim value)] := by
  intro before
  have hopen : OptionScan.step ⟨before, key, [], false, false, false, 0⟩ ':' =
      inside before key [] := by
    simp [OptionScan.step, inside]
  rw [List.foldl_append, between, scan_key hkey, List.nil_append, List.foldl_cons, hopen,
    List.foldl_append, hvalue, List.nil_append]
  simp [OptionScan.step, inside, result, hne, between]

/-- A sign of an option's name. -/
def isNameSign (c : Char) : Bool := isKeySign c && !isWhitespace c

theorem isKeySign_of_blank (h : isWhitespace c = true) : isKeySign c = true := by
  by_contra hc
  have hsign : c = '\\' ∨ c = '"' ∨ c = ';' ∨ c = '(' ∨ c = ')' ∨ c = ':' := by
    simpa [isKeySign, isValueSign, or_assoc, Decidable.or_iff_not_imp_left] using hc
  obtain rfl | rfl | rfl | rfl | rfl | rfl := hsign <;> exact absurd h (by decide)

section
variable {indent name : List Char} (hindent : ∀ c ∈ indent, isWhitespace c = true)
  (hname : name.all isNameSign = true)
include hindent hname

theorem keySigns_of_name : (indent ++ name).all isKeySign = true := by
  rw [List.all_eq_true] at hname ⊢
  rw [List.forall_mem_append]
  exact ⟨fun c hc => isKeySign_of_blank (hindent c hc),
    fun c hc => (Bool.and_eq_true_iff.mp (hname c hc)).1⟩

theorem trim_of_name (hne : name ≠ []) : trim (indent ++ name) = name := by
  rw [List.all_eq_true] at hname
  have hblank : ∀ c ∈ name, isWhitespace c = false := fun c hc =>
    Bool.not_eq_true' _ ▸ (Bool.and_eq_true_iff.mp (hname c hc)).2
  have htrim := trim_between hindent (List.forall_mem_nil _) hne
    (fun c hc => hblank c (List.mem_of_head? hc)) fun c hc => hblank c (List.mem_of_getLast? hc)
  rwa [List.append_nil] at htrim

theorem ScansTo.named {value : List Char} (hne : name ≠ []) (hvalue : ScansValue value) :
    ScansTo (indent ++ name ++ ':' :: (value ++ [';'])) [(name, trim value)] := by
  have htrim := trim_of_name hindent hname hne
  have hscan := ScansTo.option (keySigns_of_name hindent hname) (by rwa [htrim]) hvalue
  rwa [htrim] at hscan

theorem ScansTo.namedFlag (hne : name ≠ []) :
    ScansTo (indent ++ name ++ [';']) [(name, [])] := by
  have htrim := trim_of_name hindent hname hne
  have hscan := ScansTo.flag (keySigns_of_name hindent hname) (by rwa [htrim])
  rwa [htrim] at hscan

end

namespace OptionScan

/-- The scanner, had it begun with some options. -/
def after (options : List (List Char × List Char)) (st : OptionScan) : OptionScan :=
  { st with options := options ++ st.options }

variable (options : List (List Char × List Char)) (st : OptionScan) (c : Char)

theorem push_after : (st.after options).push c = (st.push c).after options := by
  unfold push after
  dsimp only
  split_ifs
  · rfl
  · rfl

theorem pushValue_after : (st.after options).pushValue c = (st.pushValue c).after options := by
  unfold pushValue after
  dsimp only
  split_ifs
  · rfl
  · rfl

theorem result_after : (st.after options).result = options ++ st.result := by
  unfold result after
  dsimp only
  split_ifs
  · rfl
  · rw [List.append_assoc]

theorem step_after : (st.after options).step c = (st.step c).after options := by
  have hescaped : (st.after options).escaped = st.escaped := rfl
  have hquotes : (st.after options).inQuotes = st.inQuotes := rfl
  have hvalue : (st.after options).inValue = st.inValue := rfl
  have hdepth : (st.after options).depth = st.depth := rfl
  unfold OptionScan.step
  rw [push_after, pushValue_after, result_after, hescaped, hquotes, hvalue, hdepth]
  split_ifs
  all_goals rfl

/-- The options that are there already have no part in the scan. -/
theorem foldl_after (s : List Char) : s.foldl OptionScan.step (st.after options) =
    (s.foldl OptionScan.step st).after options := by
  induction s generalizing st with
  | nil => rfl
  | cons c s ih => rw [List.foldl_cons, List.foldl_cons, step_after, ih]

end OptionScan

theorem parseOptions_append (h : ScansTo s options) (rest : List Char) :
    parseOptions (s ++ rest) = options ++ parseOptions rest := by
  have hstart : between options = start.after options := by
    rw [OptionScan.after, show (start : OptionScan).options = [] from rfl, List.append_nil]
    rfl
  have hscan : s.foldl OptionScan.step start = between options := h []
  rw [parseOptions, parseOptions, List.foldl_append, hscan, hstart, OptionScan.foldl_after,
    OptionScan.result_after]

theorem parseOptions_eq (h : ScansTo s options) : parseOptions s = options := by
  have hoptions := parseOptions_append h []
  rwa [List.append_nil, show parseOptions [] = [] from rfl, List.append_nil] at hoptions

abbrev RuleOption := List Char × List Char

/-- Of the options only a content can be refused. -/
def OptionOk (o : RuleOption) : Prop :=
  o.1 = "content".toList → ∃ content, parseContentValue o.2 = .ok content

/-- The patterns that an option adds. -/
def addedPatterns (o : RuleOption) : List Bytes :=
  if o.1 = "content".toList then (parseContentValue o.2).toOption.toList.map Prod.fst else []

/-- The expressions that an option adds. -/
def addedExpressions (o : RuleOption) : List PcrePattern :=
  if o.1 = "pcre".toList then
    (parsePcrePattern (unquote o.2)).toList.map fun re =>
      ⟨String.ofList re, (unquote o.2).head? = some '!', none⟩
  else []

theorem addedPatterns_content {o : RuleOption} (h : o.1 = "content".toList)
    (hvalue : parseContentValue o.2 = .ok (pattern, negated)) : addedPatterns o = [pattern] := by
  rw [addedPatterns, if_pos h, hvalue]
  rfl

theorem addedPatterns_of_ne {o : RuleOption} (h : o.1 ≠ "content".toList) :
    addedPatterns o = [] := if_neg h

theorem addedExpressions_pcre {o : RuleOption} (h : o.1 = "pcre".toList) :
    addedExpressions o = (parsePcrePattern (unquote o.2)).toList.map fun re =>
      ⟨String.ofList re, (unquote o.2).head? = some '!', none⟩ := if_pos h

theorem addedExpressions_of_ne {o : RuleOption} (h : o.1 ≠ "pcre".toList) :
    addedExpressions o = [] := if_neg h

/-- What holds of the options before one and after it, and of it. -/
theorem forall_mem_around {P : RuleOption → Prop} :
    (∀ o' ∈ before ++ [o] ++ after, P o') ↔
      (∀ o' ∈ before, P o') ∧ P o ∧ ∀ o' ∈ after, P o' := by
  rw [List.forall_mem_append, List.forall_mem_append, List.forall_mem_singleton, and_assoc]

theorem map_modify {f : α → α} {g : α → β} (h : ∀ x, g (f x) = g x) (i : Nat) (l : List α) :
    (l.modify i f).map g = l.map g := by
  induction l generalizing i with
  | nil =>
    rw [List.modify_nil]
  | cons x l ih =>
    cases i with
    | zero => rw [List.modify_zero_cons, List.map_cons, List.map_cons, h]
    | succ i => rw [List.modify_succ_cons, List.map_cons, List.map_cons, ih]

namespace SuricataRule

/-- What no option but a content or an expression changes. -/
structure Kept (rule rule' : SuricataRule) : Prop where
  patterns : rule'.contents.map ContentMatch.pattern = rule.contents.map ContentMatch.pattern
  pcrePatterns : rule'.pcrePatterns = rule.pcrePatterns

theorem Kept.onLast (rule : SuricataRule) {f : ContentMatch → ContentMatch}
    (hf : ∀ c, (f c).pattern = c.pattern) : rule.Kept (rule.onLast f) :=
  ⟨map_modify hf _ _, rfl⟩

theorem noteMetadata_eq (rule : SuricataRule) (value : List Char) :
    ∃ metadata, rule.noteMetadata value = { rule with metadata } := by
  unfold noteMetadata
  generalize splitOn ',' value = pairs
  induction pairs generalizing rule with
  | nil => exact ⟨rule.metadata, rfl⟩
  | cons pair pairs ih =>
    rw [List.foldl_cons]
    cases splitOnce ' ' (trim pair) with
    | none => exact ih rule
    | some p =>
      obtain ⟨metadata, hrest⟩ := ih (rule.note (trim p.1) (trim p.2))
      exact ⟨metadata, hrest⟩

theorem noteMetadata_kept (rule : SuricataRule) (value : List Char) :
    rule.Kept (rule.noteMetadata value) := by
  obtain ⟨metadata, he⟩ := rule.noteMetadata_eq value
  rw [he]
  exact ⟨rfl, rfl⟩

/-- The option is read, and the contents' patterns and the expressions stay. -/
def Keeps (rule : SuricataRule) (read : Except (List Char) SuricataRule) : Prop :=
  ∃ rule', read = .ok rule' ∧ rule.Kept rule'

theorem Keeps.ok {rule rule' : SuricataRule} (h : rule.Kept rule') : rule.Keeps (.ok rule') :=
  ⟨rule', rfl, h⟩

theorem Keeps.onLast (rule : SuricataRule) {f : ContentMatch → ContentMatch}
    (hf : ∀ c, (f c).pattern = c.pattern) : rule.Keeps (.ok (rule.onLast f)) :=
  .ok (.onLast rule hf)

theorem Keeps.ite {rule : SuricataRule} [Decidable p] (hthen : rule.Keeps a)
    (helse : rule.Keeps b) :
    rule.Keeps (if p then a else b) := by
  by_cases hp : p
  · rwa [if_pos hp]
  · rwa [if_neg hp]

/-- No other option adds a content or an expression, and none is refused. -/
theorem applyOption_keeps (rule : SuricataRule) (key value : List Char)
    (hcontent : key ≠ "content".toList) (hpcre : key ≠ "pcre".toList) :
    rule.Keeps (rule.applyOption (key, value)) := by
  unfold applyOption
  dsimp only
  rw [if_neg hcontent, if_neg hpcre]
  refine Keeps.ite (.ok ⟨rfl, rfl⟩) ?_
  refine Keeps.ite (.ok ⟨rfl, rfl⟩) ?_
  refine Keeps.ite (.ok ⟨rfl, rfl⟩) ?_
  refine Keeps.ite (.ok ⟨rfl, rfl⟩) ?_
  refine Keeps.ite (.ok ⟨rfl, rfl⟩) ?_
  refine Keeps.ite (.ok (rule.noteMetadata_kept value)) ?_
  refine Keeps.ite (.onLast rule fun _ => rfl) ?_
  refine Keeps.ite (.onLast rule fun _ => rfl) ?_
  refine Keeps.ite (.onLast rule fun _ => rfl) ?_
  refine Keeps.ite (.onLast rule fun _ => rfl) ?_
  refine Keeps.ite (.onLast rule fun _ => rfl) ?_
  refine Keeps.ite (.onLast rule fun _ => rfl) ?_
  refine Keeps.ite (.ok ⟨rfl, rfl⟩) ?_
  refine Keeps.ite (.ok ⟨rfl, rfl⟩) ?_
  refine Keeps.ite (.ok ⟨rfl, rfl⟩) ?_
  cases bufferOf key with
  | some buffer => exact .onLast rule fun _ => rfl
  | none =>
    by_cases hvalue : value = []
    · exact ⟨rule, by rw [if_pos hvalue], rfl, rfl⟩
    · exact ⟨rule.note key value, by rw [if_neg hvalue], rfl, rfl⟩

/-- What is added to a rule. -/
structure Grows (rule rule' : SuricataRule) (patterns : List Bytes)
    (expressions : List PcrePattern) : Prop where
  patterns : rule'.contents.map ContentMatch.pattern =
    rule.contents.map ContentMatch.pattern ++ patterns
  expressions : rule'.pcrePatterns = rule.pcrePatterns ++ expressions

theorem Kept.grows {rule rule' : SuricataRule} (h : rule.Kept rule') : rule.Grows rule' [] [] where
  patterns := by rw [h.patterns, List.append_nil]
  expressions := by rw [h.pcrePatterns, List.append_nil]

theorem Grows.append {rule rule' rule'' : SuricataRule} (h : rule.Grows rule' p e)
    (h' : rule'.Grows rule'' p' e') : rule.Grows rule'' (p ++ p') (e ++ e') where
  patterns := by rw [h'.patterns, h.patterns, List.append_assoc]
  expressions := by rw [h'.expressions, h.expressions, List.append_assoc]

theorem withPcre_grows (rule : SuricataRule) (value : List Char) :
    rule.Grows (rule.withPcre value) [] (addedExpressions ("pcre".toList, value)) := by
  rw [addedExpressions_pcre rfl]
  unfold withPcre
  dsimp only
  cases parsePcrePattern (unquote value) with
  | none => exact ⟨(List.append_nil _).symm, (List.append_nil _).symm⟩
  | some re => exact ⟨(List.append_nil _).symm, rfl⟩

theorem withContent_ok (rule : SuricataRule) {value : List Char} {pattern : Bytes} {negated : Bool}
    (h : parseContentValue value = .ok (pattern, negated)) :
    rule.withContent value = .ok
      { rule with
        contents := rule.contents ++ [{ ContentMatch.text pattern with negated := negated }] } := by
  rw [withContent, h]
  rfl

theorem applyOption_grows (rule : SuricataRule) (h : OptionOk o) :
    ∃ rule', rule.applyOption o = .ok rule' ∧
      rule.Grows rule' (addedPatterns o) (addedExpressions o) := by
  obtain ⟨key, value⟩ := o
  by_cases hcontent : key = "content".toList
  · obtain ⟨⟨pattern, negated⟩, hvalue⟩ := h hcontent
    subst hcontent
    refine ⟨_, rule.withContent_ok hvalue, ?_, (List.append_nil _).symm⟩
    rw [addedPatterns_content rfl hvalue]
    exact List.map_append
  by_cases hpcre : key = "pcre".toList
  · subst hpcre
    exact ⟨rule.withPcre value, rfl, rule.withPcre_grows value⟩
  obtain ⟨rule', hread, hkept⟩ := rule.applyOption_keeps key value hcontent hpcre
  refine ⟨rule', hread, ?_⟩
  rw [addedPatterns_of_ne hcontent, addedExpressions_of_ne hpcre]
  exact hkept.grows

theorem foldOptions_grows (rule : SuricataRule) {options : List RuleOption}
    (h : ∀ o ∈ options, OptionOk o) :
    ∃ rule', options.foldlM applyOption rule = .ok rule' ∧
      rule.Grows rule' (options.flatMap addedPatterns) (options.flatMap addedExpressions) := by
  induction options generalizing rule with
  | nil => exact ⟨rule, rfl, (List.append_nil _).symm, (List.append_nil _).symm⟩
  | cons o options ih =>
    obtain ⟨ho, hrest⟩ := List.forall_mem_cons.mp h
    obtain ⟨rule', hread, hgrows⟩ := rule.applyOption_grows ho
    obtain ⟨rule'', hreads, hgrows'⟩ := ih rule' hrest
    refine ⟨rule'', ?_, hgrows.append hgrows'⟩
    rw [List.foldlM_cons, hread]
    exact hreads

end SuricataRule

/-- A rule as it is written, its header before its options. -/
def ruleLine (header options : List Char) : List Char := header ++ '(' :: (options ++ [')'])

/-- A header with all of its parts, and an action that there is. -/
structure HeaderOk (header : List Char) : Prop where
  opening : '(' ∉ header
  first : ∃ c ∈ header.head?, isWhitespace c = false ∧ c ≠ '#'
  parts : ∃ action protocol srcAddr srcPort direction dstAddr dstPort rest,
    splitWhitespace (trim header) =
        action :: protocol :: srcAddr :: srcPort :: direction :: dstAddr :: dstPort :: rest ∧
      (IdsAction.fromStr action).isSome

theorem parseRule_line (h : HeaderOk header) (options : List Char) (source : RuleSource) :
    parseRule (ruleLine header options) source =
      some (parseParts (trim header) options source) := by
  obtain ⟨c, hc, hblank, hcomment⟩ := h.first
  have hhead : (ruleLine header options).head? = some c := by
    rw [ruleLine, List.head?_append, hc]
    rfl
  have hlast : (ruleLine header options).getLast? = some ')' := by
    rw [ruleLine, ← List.cons_append, ← List.append_assoc, List.getLast?_concat]
  have hne : ruleLine header options ≠ [] := by
    intro he
    rw [he] at hhead
    cases hhead
  have htrim : trim (ruleLine header options) = ruleLine header options := by
    have hbetween := trim_between (List.forall_mem_nil _) (List.forall_mem_nil _) hne
      (by rw [hhead]; rintro _ ⟨⟩; exact hblank) (by rw [hlast]; rintro _ ⟨⟩; rfl)
    rwa [List.nil_append, List.append_nil] at hbetween
  have hsplit : splitOnce '(' (ruleLine header options) = some (header, options ++ [')']) :=
    splitOnce_append h.opening
  have hclose : rsplitOnce ')' (options ++ [')']) = some (options, []) :=
    rsplitOnce_append List.not_mem_nil
  unfold parseRule
  dsimp only
  rw [htrim, hhead, hsplit, if_neg]
  · dsimp only
    rw [hclose]
  · rintro (he | he)
    · exact hne he
    · exact hcomment (Option.some.inj he)

/-- The rule that a line gives has the patterns and the expressions of its options. -/
theorem parseRule_grows (h : HeaderOk header) (hscan : parseOptions options = os)
    (hok : ∀ o ∈ os, OptionOk o) (source : RuleSource) :
    ∃ rule, parseRule (ruleLine header options) source = some (.ok rule) ∧
      rule.contents.map ContentMatch.pattern = os.flatMap addedPatterns ∧
      rule.pcrePatterns = os.flatMap addedExpressions := by
  obtain ⟨name, protocol, srcAddr, srcPort, direction, dstAddr, dstPort, rest, hparts, hname⟩ :=
    h.parts
  obtain ⟨action, haction⟩ := Option.isSome_iff_exists.mp hname
  obtain ⟨rule, hread, hgrows⟩ := SuricataRule.foldOptions_grows
    (headerRule source action protocol srcAddr srcPort direction dstAddr dstPort) hok
  refine ⟨{ rule with noPrefilter := rule.contents = [] ∧ rule.pcrePatterns = [] }, ?_,
    hgrows.patterns, hgrows.expressions⟩
  rw [parseRule_line h, parseParts, hparts]
  dsimp only
  rw [haction, hscan]
  dsimp only
  rw [hread]
  rfl

/-- What a line that is read gives. -/
theorem exists_of_parsed {f : SuricataRule → β} {b : β}
    (h : (parseRule line source).map (fun read => read.toOption.map f) = some (some b)) :
    ∃ rule, parseRule line source = some (.ok rule) ∧ f rule = b := by
  obtain ⟨read, hread, hf⟩ := Option.map_eq_some_iff.mp h
  obtain ⟨rule, hrule, hb⟩ := Option.map_eq_some_iff.mp hf
  cases read with
  | error e => cases hrule
  | ok rule' =>
    cases hrule
    exact ⟨rule, hread, hb⟩

end AiFw.Ids
