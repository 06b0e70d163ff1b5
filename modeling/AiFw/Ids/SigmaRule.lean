import AiFw.Ids.QuotedMatchers
import AiFw.Ids.ContentWindow

namespace AiFw.Ids
open AiFw.Lib
set_option autoImplicit true

/-- A value, whose numbers are of a type of their own. -/
inductive YamlValue (ν : Type) where
  | null
  | bool (b : Bool)
  | number (n : ν)
  | string (s : List Char)
  | sequence (items : List (YamlValue ν))
  | mapping (entries : List (YamlValue ν × YamlValue ν))
  | tagged (tag : List Char) (value : YamlValue ν)

namespace YamlValue
variable {ν : Type}

def untag : YamlValue ν → YamlValue ν
  | .tagged _ value => value.untag
  | value => value

def asStr (value : YamlValue ν) : Option (List Char) :=
  match value.untag with
  | .string s => some s
  | _ => none

def asSequence (value : YamlValue ν) : Option (List (YamlValue ν)) :=
  match value.untag with
  | .sequence items => some items
  | _ => none

def asMapping (value : YamlValue ν) : Option (List (YamlValue ν × YamlValue ν)) :=
  match value.untag with
  | .mapping entries => some entries
  | _ => none

def isString (key : List Char) : YamlValue ν → Bool
  | .string s => s = key
  | _ => false

def get (value : YamlValue ν) (key : String) : Option (YamlValue ν) :=
  value.asMapping.bind fun entries =>
    (entries.find? fun e => e.1.isString key.toList).map Prod.snd

end YamlValue

/-- The library itself: its reader, and how it writes a number. -/
structure YamlLibrary where
  Number : Type
  fromStr : List Char → Except (List Char) (YamlValue Number)
  numberText : Number → List Char

namespace SigmaRule

inductive SigmaModifier where
  | exact
  | contains
  | startsWith
  | endsWith
  | regex
  | all
deriving DecidableEq, Repr

def modifierOf (modifier : List Char) : SigmaModifier :=
  if modifier = "contains".toList then .contains
  else if modifier = "startswith".toList then .startsWith
  else if modifier = "endswith".toList then .endsWith
  else if modifier = "re".toList then .regex
  else if modifier = "all".toList then .all
  else .exact

def extractSigmaModifier (field : List Char) : SigmaModifier × List Char :=
  match rsplitOnce '|' field with
  | some (base, modifier) => (modifierOf modifier, base)
  | none => (.exact, field)

example : extractSigmaModifier "dns.query|contains|all".toList =
    (.all, "dns.query|contains".toList) := by decide

section
variable (yaml : YamlLibrary)

def boolText (b : Bool) : List Char := if b then "true".toList else "false".toList

def itemText : YamlValue yaml.Number → Option (List Char)
  | .string s => some s
  | .number n => some (yaml.numberText n)
  | _ => none

/-- The values of a field. In a list only strings and numbers are values. -/
def extractValues : YamlValue yaml.Number → List (List Char)
  | .string s => [s]
  | .number n => [yaml.numberText n]
  | .bool b => [boolText b]
  | .sequence items => items.filterMap (itemText yaml)
  | _ => []

/-- A value as a content, anywhere in its buffer: the offset of zero starts the search there. -/
def sigmaContent (buffer : Option String) (offset : Option UInt64) (value : List Char) :
    ContentMatch :=
  { ContentMatch.text (utf8Bytes value) with nocase := true, offset, buffer }

def bufferName (field : List Char) : Option String :=
  if field = [] then none else some (String.ofList field)

def fieldPattern (modifier : SigmaModifier) (buffer : Option String) (value : List Char) :
    ContentMatch ⊕ PcrePattern :=
  match modifier with
  | .regex => .inr ⟨String.ofList value, false, buffer⟩
  | .startsWith => .inl (sigmaContent buffer (some 0) value)
  | _ => .inl (sigmaContent buffer none value)

def fieldPatterns (entry : YamlValue yaml.Number × YamlValue yaml.Number) :
    List (ContentMatch ⊕ PcrePattern) :=
  let (modifier, base) := extractSigmaModifier (entry.1.asStr.getD [])
  (extractValues yaml entry.2).map (fieldPattern modifier (bufferName base))

/-- The patterns of a selection or of a list of keywords. -/
def selectionPatterns (entry : YamlValue yaml.Number × YamlValue yaml.Number) :
    List (ContentMatch ⊕ PcrePattern) :=
  if entry.1.asStr.getD [] = "condition".toList then []
  else
    match entry.2.asMapping with
    | some fields => fields.flatMap (fieldPatterns yaml)
    | none => ((entry.2.asSequence.getD []).filterMap YamlValue.asStr).map fun s =>
        .inl (sigmaContent none none s)

def parseSigmaDetection (detection : YamlValue yaml.Number) :
    Except (List Char) (List (ContentMatch ⊕ PcrePattern)) :=
  match detection.asMapping with
  | some entries => .ok (entries.flatMap (selectionPatterns yaml))
  | none => .error "detection must be a mapping".toList

def levelSeverity (level : List Char) : IdsSeverity :=
  if level = "critical".toList then 1
  else if level = "high".toList then 2
  else if level = "medium".toList then 3
  else if level = "low".toList ∨ level = "informational".toList then 4
  else 3

def noteText (metadata : KeyedMap String String) (key : String) (value : Option (List Char)) :
    KeyedMap String String :=
  match value with
  | some text => metadata.insert key (String.ofList text)
  | none => metadata

/-- The rule of a document that has these patterns. -/
def sigmaRule (doc : YamlValue yaml.Number) (patterns : List (ContentMatch ⊕ PcrePattern))
    (source : RuleSource) : SuricataRule :=
  let field (key : String) : Option (List Char) := (doc.get key).bind YamlValue.asStr
  let status := noteText ∅ "sigma_status" (some ((field "status").getD "experimental".toList))
  let description := noteText status "description" ((field "description").filter (· ≠ []))
  let tags := noteText description "tags" (((doc.get "tags").bind YamlValue.asSequence).map fun
    tags => [','].intercalate (tags.filterMap YamlValue.asStr))
  let contents := patterns.filterMap Sum.getLeft?
  let pcrePatterns := patterns.filterMap Sum.getRight?
  { sid := none
    msg := String.ofList ((field "title").getD "Untitled Sigma Rule".toList)
    severity := levelSeverity ((field "level").getD "medium".toList)
    source
    action := .alert
    protocol := none
    srcAddr := none
    srcPort := none
    dstAddr := none
    dstPort := none
    contents
    pcrePatterns
    flow := none
    threshold := none
    flowbits := []
    metadata := noteText tags "author" (field "author")
    noPrefilter := contents = [] ∧ pcrePatterns = []
    bidirectional := true }

def parseSigmaRule (yamlText : List Char) (source : RuleSource) :
    Except (List Char) SuricataRule :=
  match yaml.fromStr yamlText with
  | .error e => .error ("YAML parse error: ".toList ++ e)
  | .ok doc =>
    match doc.get "detection" with
    | none => .error "no detection section".toList
    | some detection => (parseSigmaDetection yaml detection).map fun patterns =>
        sigmaRule yaml doc patterns source

end

/-- How a value is to be matched. -/
inductive Matching where
  | contains
  | startsWith
  | endsWith
  | exact

namespace Matching

def suffix : Matching → List Char
  | .contains => '|' :: "contains".toList
  | .startsWith => '|' :: "startswith".toList
  | .endsWith => '|' :: "endswith".toList
  | .exact => []

/-- The value matches the data, in capitals or not. -/
def Matches (value data : Bytes) : Matching → Prop
  | .contains => toAsciiLowercase value <:+: toAsciiLowercase data
  | .startsWith => toAsciiLowercase value <+: toAsciiLowercase data
  | .endsWith => toAsciiLowercase value <:+ toAsciiLowercase data
  | .exact => toAsciiLowercase value = toAsciiLowercase data

end Matching

inductive SigmaValue (ν : Type) where
  | string (s : List Char)
  | number (n : ν)
  | bool (b : Bool)

/-- One field with a list of values, of which any is to match, or all. -/
structure Selection (ν : Type) where
  field : List Char
  matching : Matching
  all : Bool
  values : List (SigmaValue ν)
  named : '|' ∉ field

section
variable {ν : Type}

def SigmaValue.toYaml : SigmaValue ν → YamlValue ν
  | .string s => .string s
  | .number n => .number n
  | .bool b => .bool b

def SigmaValue.text (numberText : ν → List Char) : SigmaValue ν → List Char
  | .string s => s
  | .number n => numberText n
  | .bool b => boolText b

def SigmaValue.isBool : SigmaValue ν → Bool
  | .bool _ => true
  | _ => false

namespace Selection
variable (selection : Selection ν)

def key : List Char :=
  selection.field ++ selection.matching.suffix ++
    (if selection.all then '|' :: "all".toList else [])

/-- The name of the buffer that is read: with the modifier before `all`, if there is one. -/
def readField : List Char :=
  if selection.all then selection.field ++ selection.matching.suffix else selection.field

/-- The values that are read: all but those that are true or false. -/
def readValues : List (SigmaValue ν) := selection.values.filter fun v => !v.isBool

def toYaml : YamlValue ν :=
  .mapping [(.string selection.key, .sequence (selection.values.map SigmaValue.toYaml))]

def Holds (numberText : ν → List Char) (data : Bytes) : Prop :=
  if selection.all then
    ∀ v ∈ selection.values, selection.matching.Matches (utf8Bytes (v.text numberText)) data
  else ∃ v ∈ selection.values, selection.matching.Matches (utf8Bytes (v.text numberText)) data

end Selection

/-- A document whose detection is one selection under a name, and the name as the condition. -/
structure Selects (doc : YamlValue ν) (name : List Char) (selection : Selection ν) : Prop where
  named : name ≠ "condition".toList
  detection : ∃ detection, doc.get "detection" = some detection ∧
    (detection.asMapping = some [(.string name, selection.toYaml),
      (.string "condition".toList, .string name)] ∨
    detection.asMapping = some [(.string "condition".toList, .string name),
      (.string name, selection.toYaml)])

/-- What is looked for in the data that is read: the value anywhere, if there are any data. -/
def FoundIn (numberText : ν → List Char) (data : Bytes) (v : SigmaValue ν) : Prop :=
  data ≠ [] ∧ OccursNocase (utf8Bytes (v.text numberText)) data

end

theorem extractSigmaModifier_append (base : List Char) {modifier : List Char}
    (h : '|' ∉ modifier) :
    extractSigmaModifier (base ++ '|' :: modifier) = (modifierOf modifier, base) := by
  rw [extractSigmaModifier, rsplitOnce_append h]

theorem extractSigmaModifier_suffix {field : List Char} (hfield : '|' ∉ field)
    (matching : Matching) : ∃ modifier,
      extractSigmaModifier (field ++ matching.suffix) = (modifier, field) ∧ modifier ≠ .regex := by
  cases matching with
  | contains =>
    exact ⟨modifierOf "contains".toList, extractSigmaModifier_append field (by decide), by decide⟩
  | startsWith =>
    exact ⟨modifierOf "startswith".toList, extractSigmaModifier_append field (by decide),
      by decide⟩
  | endsWith =>
    exact ⟨modifierOf "endswith".toList, extractSigmaModifier_append field (by decide), by decide⟩
  | exact =>
    refine ⟨.exact, ?_, by decide⟩
    rw [Matching.suffix, List.append_nil, extractSigmaModifier, rsplitOnce_none hfield]

/-- Where a selection's values are looked for, and that they are no expressions. -/
theorem extractSigmaModifier_key {ν : Type} (selection : Selection ν) : ∃ modifier,
    extractSigmaModifier selection.key = (modifier, selection.readField) ∧ modifier ≠ .regex := by
  rw [Selection.key, Selection.readField]
  cases selection.all with
  | true =>
    exact ⟨modifierOf "all".toList, extractSigmaModifier_append _ (by decide), by decide⟩
  | false =>
    have hkey : selection.field ++ selection.matching.suffix ++
        (if false = true then '|' :: "all".toList else []) =
        selection.field ++ selection.matching.suffix := List.append_nil _
    rw [hkey]
    exact extractSigmaModifier_suffix selection.named selection.matching

theorem fieldPattern_content {modifier : SigmaModifier} (h : modifier ≠ .regex)
    (buffer : Option String) : ∃ offset : Option UInt64, offset.getD 0 = 0 ∧
      ∀ value, fieldPattern modifier buffer value = .inl (sigmaContent buffer offset value) := by
  cases modifier with
  | regex => exact absurd rfl h
  | startsWith => exact ⟨some 0, rfl, fun _ => rfl⟩
  | exact => exact ⟨none, rfl, fun _ => rfl⟩
  | contains => exact ⟨none, rfl, fun _ => rfl⟩
  | endsWith => exact ⟨none, rfl, fun _ => rfl⟩
  | all => exact ⟨none, rfl, fun _ => rfl⟩

section
variable {yaml : YamlLibrary} {selection : Selection yaml.Number}

theorem itemText_toYaml (v : SigmaValue yaml.Number) : itemText yaml v.toYaml =
    if v.isBool then none else some (v.text yaml.numberText) := by
  cases v with
  | string s => rfl
  | number n => rfl
  | bool b => rfl

theorem extractValues_sequence (values : List (SigmaValue yaml.Number)) :
    extractValues yaml (.sequence (values.map SigmaValue.toYaml)) =
      (values.filter fun v => !v.isBool).map (SigmaValue.text yaml.numberText) := by
  rw [extractValues, List.filterMap_map]
  induction values with
  | nil => rfl
  | cons v values ih =>
    rw [List.filterMap_cons, Function.comp_apply, itemText_toYaml, List.filter_cons, ih]
    cases v.isBool with
    | true => rfl
    | false => rfl

/-- The contents of a selection's rule. -/
theorem selectionPatterns_selection (hname : name ≠ "condition".toList) : ∃ offset : Option UInt64,
    offset.getD 0 = 0 ∧ selectionPatterns yaml (.string name, selection.toYaml) =
      selection.readValues.map fun v => .inl
        (sigmaContent (bufferName selection.readField) offset (v.text yaml.numberText)) := by
  obtain ⟨modifier, hkey, hmodifier⟩ := extractSigmaModifier_key selection
  obtain ⟨offset, hoffset, hpattern⟩ :=
    fieldPattern_content hmodifier (bufferName selection.readField)
  refine ⟨offset, hoffset, ?_⟩
  have hfield : fieldPatterns yaml
      (.string selection.key, .sequence (selection.values.map SigmaValue.toYaml)) =
      selection.readValues.map fun v => .inl
        (sigmaContent (bufferName selection.readField) offset (v.text yaml.numberText)) := by
    have hstr : (YamlValue.asStr (.string selection.key : YamlValue yaml.Number)).getD [] =
        selection.key := rfl
    rw [fieldPatterns, hstr, hkey, extractValues_sequence]
    dsimp only
    rw [List.map_map]
    exact List.map_congr_left fun v _ => hpattern _
  have hselection : selectionPatterns yaml (.string name, selection.toYaml) =
      [(.string selection.key, .sequence (selection.values.map SigmaValue.toYaml))].flatMap
        (fieldPatterns yaml) := if_neg hname
  rw [hselection, List.flatMap_singleton, hfield]

theorem parseSigmaDetection_selects {doc : YamlValue yaml.Number}
    (h : Selects doc name selection) : ∃ detection, ∃ offset : Option UInt64,
      doc.get "detection" = some detection ∧ offset.getD 0 = 0 ∧
      parseSigmaDetection yaml detection = .ok (selection.readValues.map fun v => .inl
        (sigmaContent (bufferName selection.readField) offset (v.text yaml.numberText))) := by
  obtain ⟨detection, hdetection, hentries⟩ := h.detection
  obtain ⟨offset, hoffset, hselection⟩ :=
    selectionPatterns_selection h.named
  refine ⟨detection, offset, hdetection, hoffset, ?_⟩
  have hcondition : selectionPatterns yaml (.string "condition".toList, .string name) = [] := rfl
  rcases hentries with hentries | hentries
  · rw [parseSigmaDetection, hentries]
    dsimp only
    rw [List.flatMap_cons, List.flatMap_singleton, hselection, hcondition, List.append_nil]
  · rw [parseSigmaDetection, hentries]
    dsimp only
    rw [List.flatMap_cons, List.flatMap_singleton, hselection, hcondition, List.nil_append]

theorem contentMatch_sigmaContent (hoffset : offset.getD 0 = 0) (buffer : Option String)
    (v : SigmaValue yaml.Number) (data : Bytes) :
    contentMatch (sigmaContent buffer offset (v.text yaml.numberText)) data = true ↔
      FoundIn yaml.numberText data v :=
  contentMatch_anywhere_iff hoffset rfl data

/-- A selection's rule asks for every value that is read, anywhere in the buffer. -/
theorem parseSigmaRule_selects {doc : YamlValue yaml.Number} {yamlText : List Char}
    (hdoc : yaml.fromStr yamlText = .ok doc) (h : Selects doc name selection)
    (source : RuleSource) : ∃ rule, parseSigmaRule yaml yamlText source = .ok rule ∧
      ∀ (packet : DecodedPacket) (flow : Option Flow) (direction : FlowDirection)
        (stickyBuffers : StickyBuffers),
        contentStage rule.toCompiledRule packet flow direction stickyBuffers = true ↔
          ∀ v ∈ selection.readValues, FoundIn yaml.numberText
            (contentData packet flow direction stickyBuffers (bufferName selection.readField))
            v := by
  obtain ⟨detection, offset, hdetection, hoffset, hpatterns⟩ := parseSigmaDetection_selects h
  have hparse : parseSigmaRule yaml yamlText source = .ok (sigmaRule yaml doc
      (selection.readValues.map fun v => .inl
        (sigmaContent (bufferName selection.readField) offset (v.text yaml.numberText)))
      source) := by
    rw [parseSigmaRule, hdoc]
    dsimp only
    rw [hdetection]
    dsimp only
    rw [hpatterns]
    rfl
  refine ⟨_, hparse, ?_⟩
  intro packet flow direction stickyBuffers
  have hcontents (buffer : Option String) (values : List (SigmaValue yaml.Number)) :
      (values.map fun v => (.inl (sigmaContent buffer offset (v.text yaml.numberText)) :
        ContentMatch ⊕ PcrePattern)).filterMap Sum.getLeft? =
      values.map fun v => sigmaContent buffer offset (v.text yaml.numberText) := by
    rw [List.filterMap_map, ← List.filterMap_eq_map]
    rfl
  rw [contentStage, sigmaRule]
  dsimp only
  rw [hcontents, List.all_map, List.all_eq_true]
  apply forall₂_congr
  intro v _
  rw [← contentMatch_sigmaContent hoffset (bufferName selection.readField), Function.comp_apply]
  exact iff_of_eq (congrArg (· = true) (Bool.bne_false _))

end

section
variable {ν : Type} {numberText : ν → List Char} {selection : Selection ν}

abbrev SigmaValue.bytes (numberText : ν → List Char) (v : SigmaValue ν) : Bytes :=
  utf8Bytes (v.text numberText)

/-- Any value is asked for, anywhere in the buffer, and but for capitals they are all one text,
which is not empty. -/
structure Selection.OneText (numberText : ν → List Char) (selection : Selection ν) : Prop where
  any : selection.all = false
  anywhere : selection.matching = .contains
  read : selection.readValues ≠ []
  nonempty : ∀ v ∈ selection.values, v.bytes numberText ≠ []
  same : ∀ r ∈ selection.readValues, ∀ v ∈ selection.values,
    OccursNocase (r.bytes numberText) (v.bytes numberText)

theorem boolText_ne_nil (b : Bool) : utf8Bytes (boolText b) ≠ [] := by
  cases b with
  | false => decide
  | true => decide

/-- A value that is not read is a word for true or false. -/
theorem bool_of_not_read {v : SigmaValue ν} (hv : v ∈ selection.values)
    (hread : v ∉ selection.readValues) : ∃ b, v = .bool b := by
  cases v with
  | bool b => exact ⟨b, rfl⟩
  | string s => exact absurd (List.mem_filter.mpr ⟨hv, rfl⟩) hread
  | number n => exact absurd (List.mem_filter.mpr ⟨hv, rfl⟩) hread

theorem mem_values_of_read {v : SigmaValue ν} (h : v ∈ selection.readValues) :
    v ∈ selection.values := List.mem_of_mem_filter h

/-- A value without a text is read: it is no word for true or false. -/
theorem read_of_empty {v : SigmaValue ν} (hv : v ∈ selection.values)
    (hempty : v.bytes numberText = []) : v ∈ selection.readValues := by
  by_contra hread
  obtain ⟨b, rfl⟩ := bool_of_not_read hv hread
  exact boolText_ne_nil b hempty

/-- The byte that no text has. -/
theorem ff_notMem_utf8EncodeChar (c : Char) : (0xFF : UInt8) ∉ String.utf8EncodeChar c := by
  have hne (n : Nat) (h : n % 256 ≠ 255) : ¬(0xFF : UInt8) = UInt8.ofNat n := by
    intro heq
    have hnat := congrArg UInt8.toNat heq
    rw [UInt8.toNat_ofNat'] at hnat
    exact h hnat.symm
  unfold String.utf8EncodeChar
  simp only
  split_ifs <;> simp only [List.mem_cons, List.not_mem_nil, or_false, not_or]
  · exact hne _ (by omega)
  · exact ⟨hne _ (by omega), hne _ (by omega)⟩
  · exact ⟨hne _ (by omega), hne _ (by omega), hne _ (by omega)⟩
  · exact ⟨hne _ (by omega), hne _ (by omega), hne _ (by omega), hne _ (by omega)⟩

theorem ff_notMem_lower (t : List Char) :
    (0xFF : UInt8) ∉ toAsciiLowercase (utf8Bytes t) := by
  intro h
  obtain ⟨b, hb, hlower⟩ := List.mem_map.mp h
  obtain ⟨c, -, hc⟩ := List.mem_flatMap.mp hb
  have hsame : b = 0xFF := by
    have hnat := congrArg UInt8.toNat hlower
    simp only [asciiLower, UInt8.le_iff_toNat_le, UInt8.reduceToNat] at hnat
    split at hnat
    · rw [UInt8.toNat_add] at hnat
      simp only [UInt8.reduceToNat] at hnat
      omega
    · exact UInt8.toNat_inj.mp hnat
  rw [hsame] at hc
  exact ff_notMem_utf8EncodeChar c hc

namespace Matching
variable {value : Bytes}

theorem matches_self (data : Bytes) (matching : Matching) : matching.Matches data data := by
  cases matching with
  | contains => exact List.infix_refl _
  | startsWith => exact List.prefix_refl _
  | endsWith => exact List.suffix_refl _
  | exact => rfl

theorem eq_nil_of_matches {matching : Matching} (h : matching.Matches value []) : value = [] := by
  apply List.map_eq_nil_iff.mp
  cases matching with
  | contains => exact List.infix_nil.mp h
  | startsWith => exact List.prefix_nil.mp h
  | endsWith => exact List.suffix_nil.mp h
  | exact => exact h

theorem exact_of_suffix {matching : Matching} (h : matching.suffix = []) : matching = .exact := by
  cases matching with
  | exact => rfl
  | contains => nomatch h
  | startsWith => nomatch h
  | endsWith => nomatch h

/-- A value that is matched at an edge of the data has the byte of the edge. -/
theorem edge_mem {matching : Matching} (h : matching.Matches value (0xFF :: (middle ++ [0xFF])))
    (hmatching : matching ≠ .contains) (hvalue : value ≠ [] ∨ matching = .exact) :
    (0xFF : UInt8) ∈ toAsciiLowercase value := by
  have hfirst : toAsciiLowercase (0xFF :: (middle ++ [0xFF])) =
      0xFF :: toAsciiLowercase (middle ++ [0xFF]) := rfl
  have hlast : toAsciiLowercase (0xFF :: (middle ++ [0xFF])) =
      toAsciiLowercase (0xFF :: middle) ++ [0xFF] := by
    rw [toAsciiLowercase, ← List.cons_append, List.map_append]
    rfl
  have hlower : value ≠ [] → toAsciiLowercase value ≠ [] := mt List.map_eq_nil_iff.mp
  cases matching with
  | contains => exact absurd rfl hmatching
  | exact =>
    have hsame : toAsciiLowercase value = toAsciiLowercase (0xFF :: (middle ++ [0xFF])) := h
    rw [hsame, hfirst]
    exact List.mem_cons_self
  | startsWith =>
    have hprefix : toAsciiLowercase value <+: toAsciiLowercase (0xFF :: (middle ++ [0xFF])) := h
    rw [hfirst, List.prefix_cons_iff] at hprefix
    have hne := hvalue.resolve_right fun hexact => by cases hexact
    obtain ⟨rest, hrest, -⟩ := hprefix.resolve_left (hlower hne)
    rw [hrest]
    exact List.mem_cons_self
  | endsWith =>
    have hsuffix : toAsciiLowercase value <:+ toAsciiLowercase (0xFF :: (middle ++ [0xFF])) := h
    rw [hlast, List.suffix_concat_iff] at hsuffix
    have hne := hvalue.resolve_right fun hexact => by cases hexact
    obtain ⟨rest, hrest, -⟩ := hsuffix.resolve_left (hlower hne)
    rw [hrest]
    exact List.mem_append_right _ List.mem_cons_self

end Matching

/-- What a rule's stage and its selection say of the two buffers, which are one if they have one
name. -/
def Selection.Agrees (numberText : ν → List Char) (selection : Selection ν) : Prop :=
  ∀ own read : Bytes, (selection.readField = selection.field → own = read) →
    ((∀ v ∈ selection.readValues, FoundIn numberText read v) ↔ selection.Holds numberText own)

/-- All values in one buffer, none of them at its edges. -/
def Selection.edged (numberText : ν → List Char) (selection : Selection ν) : Bytes :=
  0xFF :: (selection.values.flatMap (SigmaValue.bytes numberText) ++ [0xFF])

theorem found_edged {v : SigmaValue ν} (hv : v ∈ selection.readValues) :
    FoundIn numberText (selection.edged numberText) v := by
  refine ⟨List.cons_ne_nil _ _, .ofInfix ?_⟩
  obtain ⟨front, back, hvalues⟩ := List.append_of_mem (mem_values_of_read hv)
  rw [Selection.edged, hvalues, List.flatMap_append, List.flatMap_cons]
  exact ⟨0xFF :: front.flatMap (SigmaValue.bytes numberText),
    back.flatMap (SigmaValue.bytes numberText) ++ [0xFF], by simp⟩

theorem not_matches_edged {v : SigmaValue ν} (hmatching : selection.matching ≠ .contains)
    (hvalue : v.bytes numberText ≠ [] ∨ selection.matching = .exact) :
    ¬selection.matching.Matches (v.bytes numberText) (selection.edged numberText) :=
  fun h => ff_notMem_lower _ (Matching.edge_mem h hmatching hvalue)

theorem Selection.holds_any (hany : selection.all = false) (data : Bytes) :
    selection.Holds numberText data ↔
      ∃ v ∈ selection.values, selection.matching.Matches (v.bytes numberText) data := by
  rw [Selection.Holds, hany]
  rfl

theorem Selection.holds_all (hall : selection.all = true) (data : Bytes) :
    selection.Holds numberText data ↔
      ∀ v ∈ selection.values, selection.matching.Matches (v.bytes numberText) data := by
  rw [Selection.Holds, hall]
  rfl

theorem Selection.readField_any (hany : selection.all = false) :
    selection.readField = selection.field := by
  rw [Selection.readField, hany]
  rfl

theorem Selection.OneText.agrees (h : selection.OneText numberText) :
    selection.Agrees numberText := by
  intro own read hone
  obtain rfl := hone (Selection.readField_any h.any)
  rw [Selection.holds_any h.any, h.anywhere]
  constructor
  · intro hfound
    obtain ⟨r, hr⟩ := List.exists_mem_of_ne_nil _ h.read
    exact ⟨r, mem_values_of_read hr, (hfound r hr).2⟩
  · rintro ⟨v, hv, hmatches⟩ r hr
    refine ⟨?_, (h.same r hr v hv).trans hmatches⟩
    rintro rfl
    exact h.nonempty v hv (Matching.eq_nil_of_matches hmatches)

theorem Selection.Agrees.oneText (h : selection.Agrees numberText)
    (hany : selection.all = false) : selection.OneText numberText := by
  have hagrees (data : Bytes) := h data data fun _ => rfl
  simp only [Selection.holds_any hany] at hagrees
  have hread : selection.readValues ≠ [] := by
    intro hnone
    obtain ⟨v, hv, hmatches⟩ := (hagrees []).mp (by rw [hnone]; nofun)
    have hmem := read_of_empty hv (Matching.eq_nil_of_matches hmatches)
    rw [hnone] at hmem
    exact List.not_mem_nil hmem
  obtain ⟨r, hr⟩ := List.exists_mem_of_ne_nil _ hread
  have hnonempty : ∀ v ∈ selection.values, v.bytes numberText ≠ [] := by
    intro v hv hempty
    have hholds : selection.matching.Matches (v.bytes numberText) [] := by
      rw [hempty]
      exact Matching.matches_self _ _
    exact ((hagrees []).mpr ⟨v, hv, hholds⟩ r hr).1 rfl
  refine ⟨hany, ?_, hread, hnonempty, ?_⟩
  · by_contra hmatching
    obtain ⟨v, hv, hmatches⟩ := (hagrees (selection.edged numberText)).mp fun r hr => found_edged hr
    exact not_matches_edged hmatching (.inl (hnonempty v hv)) hmatches
  · intro r hr v hv
    exact ((hagrees (v.bytes numberText)).mpr ⟨v, hv, Matching.matches_self _ _⟩ r hr).2

/-- A selection of all values is kept only without values: its buffer is that of another name, or
its values are to be the whole of it. -/
theorem Selection.Agrees.values_eq_nil (h : selection.Agrees numberText)
    (hall : selection.all = true) : selection.values = [] := by
  by_contra hvalues
  obtain ⟨v, hv⟩ := List.exists_mem_of_ne_nil _ hvalues
  have hfound : ∀ r ∈ selection.readValues, FoundIn numberText (selection.edged numberText) r :=
    fun r hr => found_edged hr
  by_cases hexact : selection.matching = .exact
  · have hholds := (h _ _ fun _ => rfl).mp hfound
    rw [Selection.holds_all hall] at hholds
    exact not_matches_edged (by rw [hexact]; nofun) (.inr hexact) (hholds v hv)
  · have hname : selection.readField ≠ selection.field := by
      rw [Selection.readField, if_pos hall]
      intro hsame
      have hsuffix := List.append_right_eq_self.mp hsame
      exact hexact (Matching.exact_of_suffix hsuffix)
    have hempty : ∀ v ∈ selection.values, v.bytes numberText = [] := by
      have hholds := (h [] _ fun hsame => absurd hsame hname).mp hfound
      rw [Selection.holds_all hall] at hholds
      exact fun v hv => Matching.eq_nil_of_matches (hholds v hv)
    have hnone := (h [] [] fun _ => rfl).mpr ((Selection.holds_all hall _).mpr fun v hv => by
      rw [hempty v hv]
      exact Matching.matches_self _ _)
    exact (hnone v (read_of_empty hv (hempty v hv))).1 rfl

theorem Selection.agrees_iff : selection.Agrees numberText ↔
    selection.OneText numberText ∨ (selection.all = true ∧ selection.values = []) := by
  cases hall : selection.all with
  | false =>
    rw [or_iff_left fun h => Bool.false_ne_true h.1]
    exact ⟨fun h => h.oneText hall, fun h => h.agrees⟩
  | true =>
    rw [or_iff_right fun h => Bool.false_ne_true (h.any.symm.trans hall), and_iff_right rfl]
    refine ⟨fun h => h.values_eq_nil hall, ?_⟩
    intro hvalues own read _
    rw [Selection.holds_all hall, Selection.readValues, hvalues]
    exact iff_of_true nofun nofun

theorem contentData_of_lookup {stickyBuffers : StickyBuffers} {buffer : String}
    (h : stickyBuffers.lookup buffer = some data) (packet : DecodedPacket) (flow : Option Flow)
    (direction : FlowDirection) :
    contentData packet flow direction stickyBuffers (some buffer) = data := by
  unfold contentData
  simp only [h]

theorem contentData_field (own : Bytes) (stickyBuffers : StickyBuffers) (field : List Char) :
    contentData (tcpPacket own) none .toServer
      (stickyBuffers.insert (String.ofList field) own) (bufferName field) = own := by
  rw [bufferName]
  split
  · rfl
  · exact contentData_of_lookup (AList.lookup_insert _) _ _ _

/-- Two buffers with two names are filled apart. -/
theorem contentData_readField {own read : Bytes}
    (hone : selection.readField = selection.field → own = read) :
    contentData (tcpPacket own) none .toServer
      (((∅ : StickyBuffers).insert (String.ofList selection.readField) read).insert
        (String.ofList selection.field) own) (bufferName selection.readField) = read := by
  by_cases hsame : selection.readField = selection.field
  · rw [hsame, contentData_field, hone hsame]
  · have hread : selection.readField ≠ [] := by
      intro hnil
      apply hsame
      rw [Selection.readField] at hnil ⊢
      split
      · next hall =>
        rw [if_pos hall] at hnil
        rw [(List.append_eq_nil_iff.mp hnil).2, List.append_nil]
      · rfl
    have hname : String.ofList selection.readField ≠ String.ofList selection.field :=
      fun h => hsame (String.ofList_injective h)
    rw [bufferName, if_neg hread]
    apply contentData_of_lookup
    rw [AList.lookup_insert_ne hname, AList.lookup_insert]

end

/-- The rule of a selection agrees with it on all buffers exactly if any value is asked for, anywhere
in the buffer, and the values are one text but for capitals; or all of no values are. -/
theorem values_kept_iff {yaml : YamlLibrary} {selection : Selection yaml.Number}
    {doc : YamlValue yaml.Number} {yamlText name : List Char}
    (hdoc : yaml.fromStr yamlText = .ok doc) (h : Selects doc name selection)
    (source : RuleSource) : ∃ rule, parseSigmaRule yaml yamlText source = .ok rule ∧
      ((∀ (packet : DecodedPacket) (flow : Option Flow) (direction : FlowDirection)
          (stickyBuffers : StickyBuffers),
        contentStage rule.toCompiledRule packet flow direction stickyBuffers = true ↔
          selection.Holds yaml.numberText
            (contentData packet flow direction stickyBuffers (bufferName selection.field))) ↔
      selection.OneText yaml.numberText ∨ (selection.all = true ∧ selection.values = [])) := by
  obtain ⟨rule, hparse, hstage⟩ := parseSigmaRule_selects hdoc h source
  refine ⟨rule, hparse, ?_⟩
  rw [← Selection.agrees_iff]
  simp only [hstage]
  constructor
  · intro hkept own read hone
    have hdata := hkept (tcpPacket own) none .toServer
      (((∅ : StickyBuffers).insert (String.ofList selection.readField) read).insert
        (String.ofList selection.field) own)
    rw [contentData_field, contentData_readField hone] at hdata
    exact hdata
  · intro hagrees packet flow direction stickyBuffers
    exact hagrees _ _ fun hsame => by rw [hsame]

def evilSelection : Selection Nat where
  field := "dns.query".toList
  matching := .contains
  all := false
  values := [.string "evil.com".toList, .string "malware.net".toList]
  named := by decide

def evilText : List Char :=
  "detection:\n    selection:\n        dns.query|contains:\n            - evil.com\n            - malware.net\n    condition: selection\n".toList

def evilDoc : YamlValue Nat :=
  .mapping [(.string "detection".toList, .mapping
    [(.string "selection".toList, evilSelection.toYaml),
      (.string "condition".toList, .string "selection".toList)])]

/-- A library that reads this one text. -/
def libraryOf (known : List Char) (doc : YamlValue Nat) : YamlLibrary where
  Number := Nat
  fromStr := fun text => if text = known then .ok doc else .error []
  numberText := Nat.toDigits 10

theorem fromStr_libraryOf (known : List Char) (doc : YamlValue Nat) :
    (libraryOf known doc).fromStr known = .ok doc := if_pos rfl

def evilLibrary : YamlLibrary := libraryOf evilText evilDoc

theorem evil_selects : Selects evilDoc "selection".toList evilSelection where
  named := by decide
  detection := ⟨_, rfl, .inl rfl⟩

def evilBuffers : StickyBuffers :=
  (∅ : StickyBuffers).insert "dns.query" (utf8Bytes "evil.com".toList)

theorem evilBuffers_data : contentData (tcpPacket []) none .toServer evilBuffers
    (bufferName evilSelection.field) = utf8Bytes "evil.com".toList := by
  have hname : bufferName evilSelection.field = some "dns.query" :=
    congrArg some String.ofList_toList
  rw [hname]
  rfl

/-- A list of one value, and of the same value in capitals. -/
def capitalsSelection : Selection Nat where
  field := "dns.query".toList
  matching := .contains
  all := false
  values := [.string "evil.com".toList, .string "EVIL.com".toList]
  named := by decide

def capitalsDoc : YamlValue Nat :=
  .mapping [(.string "detection".toList, .mapping
    [(.string "selection".toList, capitalsSelection.toYaml),
      (.string "condition".toList, .string "selection".toList)])]

theorem capitals_selects : Selects capitalsDoc "selection".toList capitalsSelection where
  named := by decide
  detection := ⟨_, rfl, .inl rfl⟩

theorem capitals_oneText : capitalsSelection.OneText (Nat.toDigits 10) where
  any := rfl
  anywhere := rfl
  read := nofun
  nonempty := by decide +kernel
  same := by decide +kernel

theorem capitals_kept : ∃ rule,
    parseSigmaRule (libraryOf [] capitalsDoc) [] .sigma = .ok rule ∧
      ∀ (packet : DecodedPacket) (flow : Option Flow) (direction : FlowDirection)
        (stickyBuffers : StickyBuffers),
        contentStage rule.toCompiledRule packet flow direction stickyBuffers = true ↔
          capitalsSelection.Holds (Nat.toDigits 10)
            (contentData packet flow direction stickyBuffers
              (bufferName capitalsSelection.field)) := by
  obtain ⟨rule, hparse, hkept⟩ := values_kept_iff
    (fromStr_libraryOf [] capitalsDoc) capitals_selects .sigma
  exact ⟨rule, hparse, hkept.mpr (.inl capitals_oneText)⟩

/-- One of two values is in the buffer. -/
theorem any_value_lost : ¬∀ (yaml : YamlLibrary) (selection : Selection yaml.Number)
    (doc : YamlValue yaml.Number) (yamlText name : List Char) (source : RuleSource)
    (rule : SuricataRule),
    yaml.fromStr yamlText = .ok doc → Selects doc name selection →
    parseSigmaRule yaml yamlText source = .ok rule →
    ∀ (packet : DecodedPacket) (flow : Option Flow) (direction : FlowDirection)
      (stickyBuffers : StickyBuffers),
      contentStage rule.toCompiledRule packet flow direction stickyBuffers = true ↔
        selection.Holds yaml.numberText
          (contentData packet flow direction stickyBuffers (bufferName selection.field)) := by
  intro h
  obtain ⟨rule, hparse, hstage⟩ := parseSigmaRule_selects
    (fromStr_libraryOf evilText evilDoc) evil_selects .sigma
  have hkept := h evilLibrary evilSelection evilDoc evilText "selection".toList .sigma rule
    (fromStr_libraryOf evilText evilDoc) evil_selects hparse (tcpPacket []) none .toServer
    evilBuffers
  rw [evilBuffers_data] at hkept
  have hholds : evilSelection.Holds (Nat.toDigits 10) (utf8Bytes "evil.com".toList) :=
    ⟨.string "evil.com".toList, List.mem_cons_self, List.infix_refl _⟩
  have hall := (hstage (tcpPacket []) none .toServer evilBuffers).mp (hkept.mpr hholds)
  have hread : SigmaValue.string "malware.net".toList ∈ evilSelection.readValues :=
    List.mem_cons_of_mem _ List.mem_cons_self
  have hfound : OccursNocase (utf8Bytes "malware.net".toList) (utf8Bytes "evil.com".toList) := by
    rw [← evilBuffers_data]
    exact (hall _ hread).2
  revert hfound
  decide +kernel

end SigmaRule

end AiFw.Ids
