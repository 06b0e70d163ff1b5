import AiFw.Ids.QuotedMatchers
import AiFw.Ids.RuleSlices

namespace AiFw.Ids
open AiFw.Lib
open OptionScan (between inside start result)
set_option autoImplicit true

def sidNumber (text : List Char) : Option UInt32 := (parseUnsigned (2 ^ 32) text).map UInt32.ofNat

def extractSid (rule : List Char) : Option UInt32 :=
  (splitAround "sid:".toList rule).bind fun p => sidNumber (trim (p.2.takeWhile (· != ';')))

def extractMsg (rule : List Char) : Option String :=
  (splitAround "msg:\"".toList rule).bind fun p =>
    if '"' ∈ p.2 then some (String.ofList (p.2.takeWhile (· != '"'))) else none

/-- The options of a line, between its first opening and its last closing parenthesis. -/
def lineOptions (line : List Char) : List RuleOption :=
  parseOptions (((splitOnce '(' line).bind fun p =>
    (rsplitOnce ')' p.2).map Prod.fst).getD [])

/-- The value of the last option with a name. -/
def lastValue (key : String) (options : List RuleOption) : Option (List Char) :=
  options.reverse.findSome? fun o => if o.1 = key.toList then some o.2 else none

theorem lastValue_append (key : String) (a b : List RuleOption) :
    lastValue key (a ++ b) = (lastValue key b).or (lastValue key a) := by
  rw [lastValue, List.reverse_append, List.findSome?_append]
  rfl

theorem lastValue_cons (key : String) (o : RuleOption) (options : List RuleOption) :
    lastValue key (o :: options) =
      (lastValue key options).or (if o.1 = key.toList then some o.2 else none) := by
  rw [← List.singleton_append, lastValue_append, lastValue, lastValue, List.reverse_singleton,
    List.findSome?_singleton]

namespace SuricataRule

/-- If the option is read, the sid and the message stay. -/
def Frames (rule : SuricataRule) (read : Except (List Char) SuricataRule) : Prop :=
  ∀ rule', read = .ok rule' → rule'.sid = rule.sid ∧ rule'.msg = rule.msg

theorem Frames.ok {rule rule' : SuricataRule} (hsid : rule'.sid = rule.sid)
    (hmsg : rule'.msg = rule.msg) : rule.Frames (.ok rule') := by
  intro rule'' h
  cases h
  exact ⟨hsid, hmsg⟩

theorem Frames.ite {rule : SuricataRule} [Decidable p] (hthen : rule.Frames a)
    (helse : rule.Frames b) : rule.Frames (if p then a else b) := by
  by_cases hp : p
  · rwa [if_pos hp]
  · rwa [if_neg hp]

theorem noteMetadata_frames (rule : SuricataRule) (value : List Char) :
    rule.Frames (.ok (rule.noteMetadata value)) := by
  obtain ⟨metadata, he⟩ := rule.noteMetadata_eq value
  rw [he]
  exact .ok rfl rfl

theorem withPcre_frames (rule : SuricataRule) (value : List Char) :
    rule.Frames (.ok (rule.withPcre value)) := by
  unfold withPcre
  dsimp only
  cases parsePcrePattern (unquote value) with
  | none => exact .ok rfl rfl
  | some re => exact .ok rfl rfl

theorem withContent_frames (rule : SuricataRule) (value : List Char) :
    rule.Frames (rule.withContent value) := by
  unfold withContent
  cases parseContentValue value with
  | error e =>
    intro rule' h
    cases h
  | ok content => exact .ok rfl rfl

/-- No other option changes the sid or the message. -/
theorem applyOption_frames (rule : SuricataRule) (key value : List Char)
    (hsid : key ≠ "sid".toList) (hmsg : key ≠ "msg".toList) :
    rule.Frames (rule.applyOption (key, value)) := by
  unfold applyOption
  dsimp only
  rw [if_neg hsid, if_neg hmsg]
  refine Frames.ite (.ok rfl rfl) ?_
  refine Frames.ite (.ok rfl rfl) ?_
  refine Frames.ite (.ok rfl rfl) ?_
  refine Frames.ite (rule.noteMetadata_frames value) ?_
  refine Frames.ite (rule.withContent_frames value) ?_
  refine Frames.ite (.ok rfl rfl) ?_
  refine Frames.ite (.ok rfl rfl) ?_
  refine Frames.ite (.ok rfl rfl) ?_
  refine Frames.ite (.ok rfl rfl) ?_
  refine Frames.ite (.ok rfl rfl) ?_
  refine Frames.ite (.ok rfl rfl) ?_
  refine Frames.ite (rule.withPcre_frames value) ?_
  refine Frames.ite (.ok rfl rfl) ?_
  refine Frames.ite (.ok rfl rfl) ?_
  refine Frames.ite (.ok rfl rfl) ?_
  cases bufferOf key with
  | some buffer => exact .ok rfl rfl
  | none =>
    by_cases hvalue : value = []
    · rw [if_pos hvalue]
      exact .ok rfl rfl
    · rw [if_neg hvalue]
      exact .ok rfl rfl

/-- What the sid and the message of a rule become with an option. -/
structure Noted (o : RuleOption) (rule rule' : SuricataRule) : Prop where
  sid : rule'.sid = if o.1 = "sid".toList then sidNumber o.2 else rule.sid
  msg : rule'.msg = if o.1 = "msg".toList then String.ofList (unquote o.2) else rule.msg

theorem noted_of_applyOption {rule rule' : SuricataRule} (h : rule.applyOption o = .ok rule') :
    Noted o rule rule' := by
  have hne : "sid".toList ≠ "msg".toList := by decide
  obtain ⟨key, value⟩ := o
  by_cases hsid : key = "sid".toList
  · subst hsid
    cases h
    exact ⟨(if_pos rfl).symm, (if_neg hne).symm⟩
  by_cases hmsg : key = "msg".toList
  · subst hmsg
    cases h
    exact ⟨(if_neg hne.symm).symm, (if_pos rfl).symm⟩
  obtain ⟨hsid', hmsg'⟩ := rule.applyOption_frames key value hsid hmsg rule' h
  exact ⟨hsid'.trans (if_neg hsid).symm, hmsg'.trans (if_neg hmsg).symm⟩

/-- A later option is noted in place of an earlier one. -/
theorem noted_of_foldOptions {rule rule' : SuricataRule} {options : List RuleOption}
    (h : options.foldlM applyOption rule = .ok rule') :
    rule'.sid = (lastValue "sid" options).elim rule.sid sidNumber ∧
      rule'.msg = (lastValue "msg" options).elim rule.msg fun v => String.ofList (unquote v) := by
  induction options generalizing rule with
  | nil =>
    cases h
    exact ⟨rfl, rfl⟩
  | cons o options ih =>
    rw [List.foldlM_cons] at h
    cases hread : rule.applyOption o with
    | error e =>
      rw [hread] at h
      cases h
    | ok next =>
      rw [hread] at h
      obtain ⟨hsid, hmsg⟩ := ih h
      have hnoted := noted_of_applyOption hread
      rw [lastValue_cons, lastValue_cons, hsid, hmsg, hnoted.sid, hnoted.msg]
      constructor
      · cases lastValue "sid" options with
        | some v => rfl
        | none =>
          split_ifs
          · rfl
          · rfl
      · cases lastValue "msg" options with
        | some v => rfl
        | none =>
          split_ifs
          · rfl
          · rfl

end SuricataRule

theorem parts_of_parseParts (h : parseParts header options source = .ok rule) :
    rule.sid = (lastValue "sid" (parseOptions options)).bind sidNumber ∧
      rule.msg = (lastValue "msg" (parseOptions options)).elim "" fun v =>
        String.ofList (unquote v) := by
  unfold parseParts at h
  split at h
  · split at h
    · cases h
    · obtain ⟨last, hfold, hrule⟩ := map_ok.mp h
      obtain ⟨hsid, hmsg⟩ := SuricataRule.noted_of_foldOptions hfold
      rw [← hrule]
      refine ⟨hsid.trans ?_, hmsg⟩
      cases lastValue "sid" (parseOptions options) with
      | none => rfl
      | some v => rfl
  · cases h

/-- The parts of a line that is read. -/
theorem accepted_parts (h : parseRule line source = some (.ok rule)) : ∃ front options tail,
    line = front ++ '(' :: (options ++ ')' :: tail) ∧ '(' ∉ front ∧ ')' ∉ tail ∧
      rule.sid = (lastValue "sid" (parseOptions options)).bind sidNumber ∧
      rule.msg = (lastValue "msg" (parseOptions options)).elim "" fun v =>
        String.ofList (unquote v) := by
  obtain ⟨a, b, hline, ha, hb⟩ := trim_parts line
  unfold parseRule at h
  dsimp only at h
  split_ifs at h with hcomment
  · cases h
  obtain ⟨hsplit, -⟩ | ⟨front, rest, hfront, htrim, hsplit⟩ := splitOnce_cases '(' (trim line)
  · rw [hsplit] at h
    obtain ⟨_, _, he⟩ := Option.map_eq_some_iff.mp h
    cases he
  obtain ⟨hlast, -⟩ | ⟨options, tail, htail, hrest, hlast⟩ := rsplitOnce_cases ')' rest
  · rw [hsplit] at h
    dsimp only at h
    rw [hlast] at h
    dsimp only at h
    split_ifs at h
    cases h
  · rw [hsplit] at h
    dsimp only at h
    rw [hlast] at h
    refine ⟨a ++ front, options, tail ++ b, ?_, ?_, ?_, parts_of_parseParts (Option.some.inj h)⟩
    · rw [htrim, hrest] at hline
      rw [hline]
      simp only [List.append_assoc, List.cons_append]
    · rw [List.mem_append, not_or]
      exact ⟨fun hmem => absurd (ha '(' hmem) (by decide), hfront⟩
    · rw [List.mem_append, not_or]
      exact ⟨htail, fun hmem => absurd (hb ')' hmem) (by decide)⟩

theorem lineOptions_eq (hopen : '(' ∉ front) (hclose : ')' ∉ tail) (options : List Char) :
    lineOptions (front ++ '(' :: (options ++ ')' :: tail)) = parseOptions options := by
  rw [lineOptions, splitOnce_append hopen, Option.bind_some, rsplitOnce_append hclose]
  rfl

/-- What a line is compiled to. -/
theorem compiled_of_accepted (h : parseRule line source = some (.ok rule)) :
    rule.sid = (lastValue "sid" (lineOptions line)).bind sidNumber ∧
      rule.msg = (lastValue "msg" (lineOptions line)).elim "" fun v =>
        String.ofList (unquote v) := by
  obtain ⟨front, options, tail, rfl, hopen, hclose, hsid, hmsg⟩ := accepted_parts h
  rw [lineOptions_eq hopen hclose]
  exact ⟨hsid, hmsg⟩

/-- The first `sid:` of a line opens its last option of that name, which ends with a semicolon. -/
inductive OpensSid (line : List Char) : Prop
  | mk (front before indent value after tail : List Char) (options : List RuleOption) :
      splitAround "sid:".toList line =
        some (front ++ '(' :: (before ++ indent), value ++ ';' :: (after ++ ')' :: tail)) →
      '(' ∉ front → ')' ∉ tail → ScansTo before options →
      (∀ c ∈ indent, isWhitespace c = true) → value.all isValueSign = true →
      lastValue "sid" (parseOptions after) = none → OpensSid line

/-- The first `msg:"` of a line opens its last option of that name, whose text has no quote. -/
inductive OpensMsg (line : List Char) : Prop
  | mk (front before indent text blanks rest tail : List Char) (options : List RuleOption) :
      splitAround "msg:\"".toList line = some (front ++ '(' :: (before ++ indent),
        text ++ '"' :: (blanks ++ (rest ++ ')' :: tail))) →
      '(' ∉ front → ')' ∉ tail → ScansTo before options →
      (∀ c ∈ indent, isWhitespace c = true) → (∀ c ∈ text, c ≠ '\\' ∧ c ≠ '"') →
      (∀ c ∈ blanks, isWhitespace c = true) →
      (rest = [] ∨ ∃ after, rest = ';' :: after ∧ lastValue "msg" (parseOptions after) = none) →
      OpensMsg line

/-- The line has no `sid:` anywhere, and no option of that name. -/
structure NoSid (line : List Char) : Prop where
  text : splitAround "sid:".toList line = none
  option : lastValue "sid" (lineOptions line) = none

/-- The text between the first `msg:"` and the next quote, wherever that is. -/
def BehindMsg (line text : List Char) : Prop :=
  ∃ front rest, splitAround "msg:\"".toList line = some (front, text ++ '"' :: rest) ∧ '"' ∉ text

/-- There is a message, and it has no backslash. -/
def MsgPlain (line : List Char) : Prop :=
  ∃ value, lastValue "msg" (lineOptions line) = some value ∧ '\\' ∉ value

theorem extractMsg_behind (h : BehindMsg line text) :
    extractMsg line = some (String.ofList text) := by
  obtain ⟨front, rest, hsplit, htext⟩ := h
  have hquote : '"' ∈ text ++ '"' :: rest := List.mem_append_right _ List.mem_cons_self
  rw [extractMsg, hsplit, Option.bind_some]
  dsimp only
  rw [if_pos hquote, takeWhile_ne_append htext]
  exact congrArg (fun t => some (String.ofList t)) (List.append_nil text)

theorem lastValue_between {key : String} {a b : List RuleOption} (hb : lastValue key b = none)
    (value : List Char) :
    lastValue key (a ++ [(key.toList, value)] ++ b) = some value := by
  rw [lastValue_append, hb, lastValue_append, lastValue_cons, if_pos rfl]
  rfl

theorem OpensSid.agrees (h : OpensSid line) : ∃ value,
    lastValue "sid" (lineOptions line) = some value ∧ extractSid line = sidNumber value := by
  obtain ⟨front, before, indent, value, after, tail, options, hsplit, hopen, hclose, hbefore,
    hindent, hvalue, hafter⟩ := h
  have hname : "sid".toList.all isNameSign = true := by decide
  have hscan : ScansTo (before ++ (indent ++ "sid".toList ++ ':' :: (value ++ [';'])))
      (options ++ [("sid".toList, trim value)]) :=
    hbefore.append (ScansTo.named hindent hname (by decide) (.of_signs hvalue))
  have hkey : "sid:".toList = "sid".toList ++ [':'] := rfl
  have hline : line = front ++ '(' ::
      ((before ++ (indent ++ "sid".toList ++ ':' :: (value ++ [';'])) ++ after) ++
        ')' :: tail) := by
    rw [splitAround_eq hsplit, hkey]
    simp only [List.append_assoc, List.cons_append, List.nil_append]
  have hend : ';' ∉ value := by
    intro hmem
    exact (valueSign_facts (List.all_eq_true.mp hvalue ';' hmem)).2.2.1 rfl
  refine ⟨trim value, ?_, ?_⟩
  · rw [hline, lineOptions_eq hopen hclose, parseOptions_append hscan]
    exact lastValue_between hafter (trim value)
  · rw [extractSid, hsplit, Option.bind_some]
    dsimp only
    rw [takeWhile_ne_append hend]
    exact congrArg (fun t => sidNumber (trim t)) (List.append_nil value)

/-- An option without a semicolon, as the last may be. -/
theorem parseOptions_unfinished {indent name value : List Char}
    (hindent : ∀ c ∈ indent, isWhitespace c = true) (hname : name.all isNameSign = true)
    (hne : name ≠ []) (hvalue : ScansValue value) :
    parseOptions (indent ++ name ++ ':' :: value) = [(name, trim value)] := by
  have hopen : OptionScan.step ⟨[], indent ++ name, [], false, false, false, 0⟩ ':' =
      inside [] (indent ++ name) [] := by
    simp [OptionScan.step, inside]
  have htrim : trim (indent ++ name) ≠ [] := by rwa [trim_of_name hindent hname hne]
  rw [parseOptions, List.foldl_append, start, scan_key (keySigns_of_name hindent hname),
    List.nil_append, List.foldl_cons, hopen, hvalue, List.nil_append]
  change (if trim (indent ++ name) = [] then []
    else [] ++ [(trim (indent ++ name), trim value)]) = _
  rw [if_neg htrim, trim_of_name hindent hname hne]
  rfl

theorem OpensMsg.agrees (h : OpensMsg line) : ∃ value,
    lastValue "msg" (lineOptions line) = some value ∧ BehindMsg line (unquote value) := by
  obtain ⟨front, before, indent, text, blanks, rest, tail, options, hsplit, hopen, hclose, hbefore,
    hindent, htext, hblanks, hrest⟩ := h
  have hname : "msg".toList.all isNameSign = true := by decide
  have hsigns : blanks.all isValueSign = true := by
    rw [List.all_eq_true]
    intro c hc
    exact (Bool.and_eq_true_iff.mp (isKeySign_of_blank (hblanks c hc))).1
  have hvalue : ScansValue ('"' :: (text ++ ['"']) ++ blanks) :=
    (ScansQuoted.of_signs htext).value.append (.of_signs hsigns)
  have htrim : trim ('"' :: (text ++ ['"']) ++ blanks) = '"' :: (text ++ ['"']) := by
    rw [trim_append_blanks hblanks, trim_in_quotes]
  have hkey : "msg:\"".toList = "msg".toList ++ [':', '"'] := rfl
  refine ⟨'"' :: (text ++ ['"']), ?_, ?_⟩
  · rcases hrest with rfl | ⟨after, rfl, hafter⟩
    · have hline : line = front ++ '(' :: ((before ++
          (indent ++ "msg".toList ++ ':' :: ('"' :: (text ++ ['"']) ++ blanks))) ++
            ')' :: tail) := by
        rw [splitAround_eq hsplit, hkey]
        simp only [List.append_assoc, List.cons_append, List.nil_append]
      have hlast := parseOptions_unfinished hindent hname (by decide) hvalue
      rw [htrim] at hlast
      rw [hline, lineOptions_eq hopen hclose, parseOptions_append hbefore, hlast,
        ← List.append_nil (options ++ _)]
      exact lastValue_between rfl _
    · have hscan : ScansTo (before ++ (indent ++ "msg".toList ++
          ':' :: (('"' :: (text ++ ['"']) ++ blanks) ++ [';'])))
          (options ++ [("msg".toList, '"' :: (text ++ ['"']))]) := by
        have hnamed := ScansTo.named hindent hname (by decide) hvalue
        rw [htrim] at hnamed
        exact hbefore.append hnamed
      have hline : line = front ++ '(' :: ((before ++ (indent ++ "msg".toList ++
          ':' :: (('"' :: (text ++ ['"']) ++ blanks) ++ [';'])) ++ after) ++ ')' :: tail) := by
        rw [splitAround_eq hsplit, hkey]
        simp only [List.append_assoc, List.cons_append, List.nil_append]
      rw [hline, lineOptions_eq hopen hclose, parseOptions_append hscan]
      exact lastValue_between hafter _
  · rw [unquote_in_quotes]
    refine ⟨_, _, hsplit, ?_⟩
    intro hmem
    exact (htext '"' hmem).2 rfl

/-- The sid and the message that are stored of a line are those of the compiled rule wherever the
first `sid:` and the first `msg:"` are those of the options that are compiled. -/
theorem stored_of_opens {line : List Char} {source : RuleSource} {rule : SuricataRule}
    (h : parseRule line source = some (.ok rule)) (hsid : OpensSid line ∨ NoSid line)
    (hmsg : MsgPlain line → OpensMsg line) :
    extractSid line = rule.sid ∧ (MsgPlain line → extractMsg line = some rule.msg) := by
  obtain ⟨hsid', hmsg'⟩ := compiled_of_accepted h
  constructor
  · rcases hsid with hopens | ⟨htext, hoption⟩
    · obtain ⟨value, hlast, hextract⟩ := hopens.agrees
      rw [hextract, hsid', hlast]
      rfl
    · rw [extractSid, htext, hsid', hoption]
      rfl
  · intro hplain
    obtain ⟨value, hlast, hbehind⟩ := (hmsg hplain).agrees
    rw [extractMsg_behind hbehind, hmsg', hlast]
    rfl

theorem dropText_opensSid : OpensSid dropText := by
  have hmsg : ScansTo ([] ++ "msg".toList ++ ':' :: (('"' :: ("Drop test".toList ++ ['"'])) ++ [';']))
      [("msg".toList, trim ('"' :: ("Drop test".toList ++ ['"'])))] :=
    .named (List.forall_mem_nil _) (by decide) (by decide)
      (ScansQuoted.of_signs (forall_mem_of_all (by decide))).value
  have hcontent : ScansTo (" ".toList ++ "content".toList ++
      ':' :: (('"' :: ("bad".toList ++ ['"'])) ++ [';']))
      [("content".toList, trim ('"' :: ("bad".toList ++ ['"'])))] :=
    .named (forall_mem_of_all (by decide)) (by decide) (by decide)
      (ScansQuoted.of_signs (forall_mem_of_all (by decide))).value
  exact .mk "drop tcp any any -> any any ".toList _ " ".toList "8".toList [] [] _ (by decide +kernel)
    (by decide) (by decide) (hmsg.append hcontent) (forall_mem_of_all (by decide)) (by decide) rfl

theorem dropText_opensMsg : OpensMsg dropText :=
  .mk "drop tcp any any -> any any ".toList [] [] "Drop test".toList []
    "; content:\"bad\"; sid:8;".toList [] [] (by decide +kernel) (by decide) (by decide) .nil
    (List.forall_mem_nil _) (forall_mem_of_all (by decide)) (List.forall_mem_nil _)
    (.inr ⟨" content:\"bad\"; sid:8;".toList, rfl, by decide +kernel⟩)

theorem stored_drop : ∃ rule, parseRule dropText .custom = some (.ok rule) ∧
    rule.sid = some 8 ∧ extractSid dropText = rule.sid ∧ MsgPlain dropText ∧
      extractMsg dropText = some rule.msg := by
  have hparse : (parseRule dropText .custom).map (fun r => r.toOption.map fun rule =>
      rule.sid) = some (some (some 8)) := by decide +kernel
  obtain ⟨rule, hline, hrule⟩ := exists_of_parsed hparse
  have hplain : MsgPlain dropText := ⟨"\"Drop test\"".toList, by decide +kernel, by decide⟩
  obtain ⟨hsid, hmsg⟩ := stored_of_opens hline (.inl dropText_opensSid) fun _ => dropText_opensMsg
  exact ⟨rule, hline, hrule, hsid, hplain, hmsg hplain⟩

def quotingText : List Char :=
  "alert tcp any any -> any any (msg:\"x sid:5; y\"; sid:1;)".toList

/-- The number in the message is stored in place of the rule's own. -/
theorem sid_of_message : extractSid quotingText = some 5 ∧
    ¬∀ (line : List Char) (source : RuleSource) (rule : SuricataRule),
      parseRule line source = some (.ok rule) →
      extractSid line = rule.sid ∧ (MsgPlain line → extractMsg line = some rule.msg) := by
  have hread : extractSid quotingText = some 5 := by decide +kernel
  refine ⟨hread, ?_⟩
  intro h
  have hparse : (parseRule quotingText .custom).map (fun r => r.toOption.map fun rule =>
      rule.sid) = some (some (some 1)) := by decide +kernel
  obtain ⟨rule, hline, hsid⟩ := exists_of_parsed hparse
  have hstored := (h quotingText .custom rule hline).1
  rw [hsid, hread] at hstored
  exact absurd hstored (by decide)

end AiFw.Ids
