import AiFw.Geo.Index
import AiFw.Ids.QuotedMatchers

namespace AiFw.Ids
open AiFw.Lib
open AiFw.Pf (byteLen)
open AiFw.Geo (lines)
set_option autoImplicit true

/-- The signs from a byte position of a text on, which is not inside of a sign. -/
def dropBytes : Nat → List Char → Option (List Char)
  | 0, s => some s
  | _ + 1, [] => none
  | n + 1, c :: cs => if c.utf8Size ≤ n + 1 then dropBytes (n + 1 - c.utf8Size) cs else none

/-- `&s[start..stop]`, which panics where the bounds are out of order, beyond the text or inside of a
sign. -/
def sliceBytes (s : List Char) (start stop : Nat) : Option (List Char) :=
  (takeBytes stop s).bind (dropBytes start)

/-- `str::find` of a sign. -/
def findByte (c : Char) (s : List Char) : Option Nat :=
  (splitOnce c s).map fun parts => byteLen parts.1

/-- `str::rfind` of a sign. -/
def rfindByte (c : Char) (s : List Char) : Option Nat :=
  (rsplitOnce c s).map fun parts => byteLen parts.1

theorem byteLen_append (a b : List Char) : byteLen (a ++ b) = byteLen a + byteLen b := by
  rw [byteLen, List.map_append, List.sum_append]
  rfl

theorem byteLen_cons (c : Char) (s : List Char) : byteLen (c :: s) = c.utf8Size + byteLen s := rfl

/-- The first sign of a text has some of its bytes. -/
theorem byteLen_first (c : Char) (s : List Char) : ∃ n, byteLen (c :: s) = n + 1 ∧
    c.utf8Size ≤ n + 1 ∧ n + 1 - c.utf8Size = byteLen s := by
  have hpos := c.utf8Size_pos
  refine ⟨byteLen (c :: s) - 1, ?_⟩
  rw [byteLen_cons]
  omega

theorem takeBytes_append (a b : List Char) : takeBytes (byteLen a) (a ++ b) = some a := by
  induction a with
  | nil => cases b <;> rfl
  | cons c a ih =>
    obtain ⟨n, hn, hle, hrest⟩ := byteLen_first c a
    rw [hn, List.cons_append, takeBytes, if_pos hle, hrest, ih]
    rfl

theorem dropBytes_append (a b : List Char) : dropBytes (byteLen a) (a ++ b) = some b := by
  induction a with
  | nil => cases b <;> rfl
  | cons c a ih =>
    obtain ⟨n, hn, hle, hrest⟩ := byteLen_first c a
    rw [hn, List.cons_append, dropBytes, if_pos hle, hrest, ih]

theorem takeBytes_some (h : takeBytes n s = some front) :
    byteLen front = n ∧ ∃ rest, s = front ++ rest := by
  induction s generalizing n front with
  | nil =>
    cases n with
    | zero =>
      cases h
      exact ⟨rfl, [], rfl⟩
    | succ n => cases h
  | cons c s ih =>
    cases n with
    | zero =>
      cases h
      exact ⟨rfl, c :: s, rfl⟩
    | succ n =>
      rw [takeBytes] at h
      by_cases hle : c.utf8Size ≤ n + 1
      · rw [if_pos hle] at h
        obtain ⟨front', hfront, rfl⟩ := Option.map_eq_some_iff.mp h
        obtain ⟨hlen, rest, rfl⟩ := ih hfront
        refine ⟨?_, rest, rfl⟩
        rw [byteLen_cons, hlen]
        omega
      · rw [if_neg hle] at h
        cases h

theorem takeBytes_isSome_iff (n : Nat) (s : List Char) :
    (takeBytes n s).isSome = true ↔ ∃ front rest, s = front ++ rest ∧ byteLen front = n := by
  rw [Option.isSome_iff_exists]
  constructor
  · rintro ⟨front, h⟩
    obtain ⟨hlen, rest, hs⟩ := takeBytes_some h
    exact ⟨front, rest, hs, hlen⟩
  · rintro ⟨front, rest, rfl, rfl⟩
    exact ⟨front, takeBytes_append front rest⟩

theorem dropBytes_some (h : dropBytes n s = some rest) : n ≤ byteLen s := by
  induction s generalizing n with
  | nil =>
    cases n with
    | zero => exact Nat.zero_le _
    | succ n => cases h
  | cons c s ih =>
    cases n with
    | zero => exact Nat.zero_le _
    | succ n =>
      rw [dropBytes] at h
      by_cases hle : c.utf8Size ≤ n + 1
      · rw [if_pos hle] at h
        have hn := ih h
        rw [byteLen_cons]
        omega
      · rw [if_neg hle] at h
        cases h

/-- A slice between two places of a text. -/
theorem sliceBytes_parts (a b c : List Char) :
    sliceBytes (a ++ (b ++ c)) (byteLen a) (byteLen (a ++ b)) = some b := by
  rw [sliceBytes, ← List.append_assoc, takeBytes_append, Option.bind_some, dropBytes_append]

/-- No slice ends before it starts. -/
theorem sliceBytes_none (s : List Char) (h : stop < start) : sliceBytes s start stop = none := by
  rw [sliceBytes, Option.bind_eq_none_iff]
  intro front hfront
  rw [Option.eq_none_iff_forall_ne_some]
  intro rest hrest
  have hle := dropBytes_some hrest
  rw [(takeBytes_some hfront).1] at hle
  omega

def unquoteChecked (s : List Char) : Option (List Char) :=
  let s := trim s
  if byteLen s ≥ 2 ∧ s.head? = some '"' ∧ s.getLast? = some '"' then
    sliceBytes s 1 (byteLen s - 1)
  else some s

def parsePcrePatternChecked (s : List Char) : Option (Option (List Char)) :=
  let s := (trim s).dropWhile (· == '!')
  if s.head? = some '/' then
    (sliceBytes s 1 (byteLen s)).bind fun rest =>
      match rfindByte '/' rest with
      | none => some none
      | some lastSlash =>
        (sliceBytes s 1 (lastSlash + 1)).bind fun pattern =>
          (sliceBytes s (lastSlash + 2) (byteLen s)).map fun flags =>
            some ((if 'i' ∈ flags then "(?i)".toList else []) ++
              (if 's' ∈ flags then "(?s)".toList else []) ++
              (if 'm' ∈ flags then "(?m)".toList else []) ++ pattern)
  else some none

/-- The loop over the places of an unquoted content. -/
def contentLoop (chars : List Char) (i : Nat) (inHex : Bool) (bytes : Bytes) :
    Option (Except (List Char) Bytes) :=
  if _hi : i < chars.length then
    (chars[i]?).bind fun c =>
      if c = '|' then contentLoop chars (i + 1) (!inHex) bytes
      else if inHex then
        if isWhitespace c then contentLoop chars (i + 1) inHex bytes
        else if i + 1 < chars.length then
          (chars[i + 1]?).bind fun d =>
            match hexByte c d with
            | some byte => contentLoop chars (i + 2) inHex (bytes ++ [byte])
            | none => some (.error ("invalid hex: ".toList ++ [c, d]))
        else contentLoop chars (i + 1) inHex bytes
      else if c = '\\' ∧ i + 1 < chars.length then
        (chars[i + 1]?).bind fun d =>
          contentLoop chars (i + 2) inHex (bytes ++ escapeBytes d)
      else contentLoop chars (i + 1) inHex (bytes ++ [castByte c])
  else some (.ok bytes)
termination_by chars.length - i

def parseContentValueChecked (s : List Char) : Option (Except (List Char) (Bytes × Bool)) :=
  let (body, negated) := match trim s with
    | '!' :: rest => (trim rest, true)
    | s => (s, false)
  (unquoteChecked body).bind fun text =>
    (contentLoop text 0 false []).map fun read => read.map fun bytes => (bytes, negated)

namespace SuricataRule
variable (rule : SuricataRule)

/-- The options whose values are sliced, with the panics; the others as they are. -/
def applyOptionChecked (option : RuleOption) : Option (Except (List Char) SuricataRule) :=
  let (key, value) := option
  if key = "msg".toList then
    (unquoteChecked value).map fun msg => .ok { rule with msg := String.ofList msg }
  else if key = "content".toList then
    (parseContentValueChecked value).map fun read => read.map fun (pattern, negated) =>
      { rule with contents := rule.contents ++ [{ ContentMatch.text pattern with negated }] }
  else if key = "pcre".toList then
    (unquoteChecked value).bind fun pattern =>
      (parsePcrePatternChecked pattern).map fun read =>
        match read with
        | some re =>
          .ok { rule with
            pcrePatterns := rule.pcrePatterns ++
              [⟨String.ofList re, pattern.head? = some '!', none⟩] }
        | none => .ok rule
  else some (rule.applyOption option)

def applyOptionsChecked : SuricataRule → List RuleOption → Option (Except (List Char) SuricataRule)
  | rule, [] => some (.ok rule)
  | rule, option :: options =>
    (rule.applyOptionChecked option).bind fun read =>
      match read with
      | .error e => some (.error e)
      | .ok rule => rule.applyOptionsChecked options

end SuricataRule

def parsePartsChecked (header options : List Char) (source : RuleSource) :
    Option (Except (List Char) SuricataRule) :=
  match splitWhitespace header with
  | action :: protocol :: srcAddr :: srcPort :: direction :: dstAddr :: dstPort :: _ =>
    match IdsAction.fromStr action with
    | none => some (.error ("unknown action: ".toList ++ action))
    | some action =>
      let rule := headerRule source action protocol srcAddr srcPort direction dstAddr dstPort
      (rule.applyOptionsChecked (parseOptions options)).map fun read => read.map fun rule =>
        { rule with noPrefilter := rule.contents = [] ∧ rule.pcrePatterns = [] }
  | _ => some (.error ("incomplete rule header: ".toList ++ header))

/-- `parse_rule` by the places that it finds. -/
def parseRuleChecked (line : List Char) (source : RuleSource) :
    Option (Except (List Char) SuricataRule) :=
  let line := trim line
  if line = [] ∨ line.head? = some '#' then some (.error "comment or empty".toList)
  else
    match findByte '(' line with
    | none =>
      (sliceBytes line 0 (min (byteLen line) 80)).map fun front =>
        .error ("no options section in rule: ".toList ++ front)
    | some parenStart =>
      match rfindByte ')' line with
      | none => some (.error "no closing paren".toList)
      | some parenEnd =>
        (sliceBytes line 0 parenStart).bind fun header =>
          (sliceBytes line (parenStart + 1) parenEnd).bind fun options =>
            parsePartsChecked (trim header) options source

/-- A round of the loop over the lines. -/
def parseStep (source : RuleSource) (rules : List SuricataRule) (line : List Char) :
    Option (List SuricataRule) :=
  let line := trim line
  if line = [] ∨ line.head? = some '#' then some rules
  else (parseRuleChecked line source).map fun read =>
    match read with
    | .ok rule => rules ++ [rule]
    | .error _ => rules

/-- `parse_rules`: the rules of the lines that are read. -/
def parseRules (text : List Char) (source : RuleSource) : Option (List SuricataRule) :=
  (lines text).foldlM (parseStep source) []

theorem rsplitOnce_eq (h : rsplitOnce sep s = some (a, b)) : s = a ++ sep :: b := by
  obtain ⟨⟨a', b'⟩, hsplit, hparts⟩ := Option.map_eq_some_iff.mp h
  cases hparts
  have hreverse := congrArg List.reverse (splitOnce_eq hsplit)
  rwa [List.reverse_reverse, List.reverse_append, List.reverse_cons, List.append_assoc] at hreverse

/-- The slice between the first and the last sign, both of one byte. -/
theorem sliceBytes_inside (hc : c.utf8Size = 1) (s rest : List Char) :
    sliceBytes (c :: (s ++ rest)) 1 (byteLen s + 1) = some s := by
  have hone : byteLen [c] = 1 := by rw [byteLen_cons, hc]; rfl
  have hparts := sliceBytes_parts [c] s rest
  rw [byteLen_append, hone, Nat.add_comm] at hparts
  exact hparts

/-- The slice up to the end of a text. -/
theorem sliceBytes_end (a b : List Char) :
    sliceBytes (a ++ b) (byteLen a) (byteLen (a ++ b)) = some b := by
  have hparts := sliceBytes_parts a b []
  rwa [List.append_nil] at hparts

theorem unquoteChecked_eq (s : List Char) : unquoteChecked s = some (unquote s) := by
  unfold unquoteChecked unquote
  dsimp only
  generalize trim s = t
  cases t with
  | nil => rfl
  | cons c t =>
    by_cases hc : c = '"'
    · subst hc
      change _ = some (if t.getLast? = some '"' then t.dropLast else '"' :: t)
      by_cases hlast : t.getLast? = some '"'
      · obtain ⟨u, rfl⟩ := List.getLast?_eq_some_iff.mp hlast
        have hlen : byteLen ('"' :: (u ++ ['"'])) = byteLen u + 1 + 1 := by
          rw [byteLen_cons, byteLen_append, Nat.add_comm]
          rfl
        have hend : ('"' :: (u ++ ['"'])).getLast? = some '"' := by
          rw [← List.cons_append, List.getLast?_concat]
        rw [if_pos hlast, hlen, if_pos ⟨Nat.le_add_left 2 _, rfl, hend⟩, Nat.add_sub_cancel,
          sliceBytes_inside rfl, List.dropLast_concat]
      · rw [if_neg hlast, if_neg]
        rintro ⟨hlen, -, hend⟩
        cases t with
        | nil => exact absurd hlen (by decide)
        | cons d t => exact hlast hend
    · have hhead : (c :: t).head? ≠ some '"' := mt Option.some.inj hc
      rw [if_neg fun h => hhead h.2.1]
      split
      · rename_i rest heq
        exact absurd (List.cons.inj heq).1 hc
      · rfl

theorem parsePcrePatternChecked_eq (s : List Char) :
    parsePcrePatternChecked s = some (parsePcrePattern s) := by
  unfold parsePcrePatternChecked parsePcrePattern
  dsimp only
  generalize (trim s).dropWhile (· == '!') = t
  cases t with
  | nil => rfl
  | cons c t =>
    by_cases hc : c = '/'
    · subst hc
      have hrest : sliceBytes ('/' :: t) 1 (byteLen ('/' :: t)) = some t := sliceBytes_end ['/'] t
      rw [if_pos List.head?_cons, hrest, Option.bind_some]
      change _ = some ((rsplitOnce '/' t).map _)
      cases hsplit : rsplitOnce '/' t with
      | none => rw [rfindByte, hsplit]; rfl
      | some parts =>
        obtain ⟨pattern, flags⟩ := parts
        obtain rfl := rsplitOnce_eq hsplit
        have hlast : rfindByte '/' (pattern ++ '/' :: flags) = some (byteLen pattern) := by
          rw [rfindByte, hsplit]
          rfl
        have hfront : '/' :: (pattern ++ '/' :: flags) = '/' :: (pattern ++ ['/']) ++ flags := by
          rw [List.cons_append, List.append_assoc]
          rfl
        have hplace : byteLen pattern + 2 = byteLen ('/' :: (pattern ++ ['/'])) := by
          rw [byteLen_cons, byteLen_append]
          exact Nat.add_comm _ 1
        rw [hlast]
        dsimp only
        rw [sliceBytes_inside rfl, Option.bind_some, hplace, hfront, sliceBytes_end]
        rfl
    · have hhead : (c :: t).head? ≠ some '/' := mt Option.some.inj hc
      rw [if_neg hhead]
      split
      · rename_i rest heq
        exact absurd (List.cons.inj heq).1 hc
      · rfl

theorem contentBytes_blank {c : Char} (hpipe : c ≠ '|') (hblank : isWhitespace c = true)
    (cs : List Char) : contentBytes true (c :: cs) = contentBytes true cs := by
  cases cs with
  | nil =>
    change (if c = '|' then _ else if isWhitespace c = true then _ else _) = _
    rw [if_neg hpipe, if_pos hblank]
  | cons d cs =>
    change (if c = '|' then _ else if isWhitespace c = true then _ else _) = _
    rw [if_neg hpipe, if_pos hblank]

theorem contentBytes_half {c : Char} (hpipe : c ≠ '|') (hblank : isWhitespace c = false) :
    contentBytes true [c] = .ok [] := by
  change (if c = '|' then _ else if isWhitespace c = true then _ else _) = _
  rw [if_neg hpipe, hblank, if_neg Bool.false_ne_true]
  rfl

theorem contentBytes_refused {c d : Char} (hpipe : c ≠ '|') (hblank : isWhitespace c = false)
    (h : hexByte c d = none) (cs : List Char) :
    contentBytes true (c :: d :: cs) = .error ("invalid hex: ".toList ++ [c, d]) := by
  change (if c = '|' then _ else if isWhitespace c = true then _ else _) = _
  rw [if_neg hpipe, hblank, if_neg Bool.false_ne_true, h]

/-- Bytes that are there already come first. -/
theorem map_append_bytes (bytes more : Bytes) (read : Except (List Char) Bytes) :
    (read.map (more ++ ·)).map (bytes ++ ·) = read.map (bytes ++ more ++ ·) := by
  cases read with
  | error e => rfl
  | ok rest => exact congrArg Except.ok (List.append_assoc _ _ _).symm

/-- The loop never leaves the content, and reads what the rest of it gives. -/
theorem contentLoop_eq (chars : List Char) (i : Nat) (inHex : Bool) (bytes : Bytes) :
    contentLoop chars i inHex bytes =
      some ((contentBytes inHex (chars.drop i)).map (bytes ++ ·)) := by
  induction hn : chars.length - i using Nat.strongRecOn generalizing i inHex bytes with
  | ind n ih =>
    have hended (j : Nat) (hj : ¬j < chars.length) : chars.drop j = [] :=
      List.drop_eq_nil_of_le (Nat.le_of_not_lt hj)
    rw [contentLoop]
    by_cases hi : i < chars.length
    · have hnext (inHex : Bool) (bytes : Bytes) := ih _ (by omega) (i + 1) inHex bytes rfl
      have hskip (inHex : Bool) (bytes : Bytes) := ih _ (by omega) (i + 2) inHex bytes rfl
      have hdrop : chars.drop i = chars[i] :: chars.drop (i + 1) := List.drop_eq_getElem_cons hi
      rw [dif_pos hi, List.getElem?_eq_getElem hi, Option.bind_some, hdrop]
      generalize chars[i] = c
      have hsecond (hj : i + 1 < chars.length) :
          chars.drop (i + 1) = chars[i + 1] :: chars.drop (i + 2) := List.drop_eq_getElem_cons hj
      by_cases hpipe : c = '|'
      · rw [if_pos hpipe, hpipe, contentBytes_pipe, hnext]
      rw [if_neg hpipe]
      cases inHex with
      | true =>
        rw [if_pos rfl]
        by_cases hblank : isWhitespace c = true
        · rw [if_pos hblank, contentBytes_blank hpipe hblank, hnext]
        have hgraphic := Bool.not_eq_true _ ▸ hblank
        rw [if_neg hblank]
        by_cases hj : i + 1 < chars.length
        · rw [if_pos hj, List.getElem?_eq_getElem hj, Option.bind_some, hsecond hj]
          cases hbyte : hexByte c chars[i + 1] with
          | some byte =>
            rw [contentBytes_hex hpipe hgraphic hbyte]
            dsimp only
            rw [hskip, ← map_append_bytes]
            rfl
          | none =>
            rw [contentBytes_refused hpipe hgraphic hbyte]
            rfl
        · rw [if_neg hj, hnext, hended _ hj, contentBytes_half hpipe hgraphic]
          rfl
      | false =>
        rw [if_neg Bool.false_ne_true]
        by_cases hescape : c = '\\'
        · by_cases hj : i + 1 < chars.length
          · rw [if_pos ⟨hescape, hj⟩, List.getElem?_eq_getElem hj, Option.bind_some, hskip,
              hsecond hj, hescape, contentBytes_escape, map_append_bytes]
          · rw [if_neg fun h => hj h.2, hnext, hended _ hj, hescape]
            exact congrArg (fun b => some (Except.ok b)) (List.append_nil _)
        · rw [if_neg fun h => hescape h.1, hnext, contentBytes_sign hpipe hescape,
            ← map_append_bytes]
          rfl
    · rw [dif_neg hi, hended _ hi]
      exact congrArg (fun b => some (Except.ok b)) (List.append_nil bytes).symm

theorem parseContentValueChecked_eq (s : List Char) :
    parseContentValueChecked s = some (parseContentValue s) := by
  have hread (text : List Char) : contentLoop text 0 false [] = some (contentBytes false text) := by
    rw [contentLoop_eq, List.drop_zero]
    cases contentBytes false text <;> rfl
  unfold parseContentValueChecked parseContentValue
  dsimp only
  rw [unquoteChecked_eq, Option.bind_some, hread]
  rfl

namespace SuricataRule

theorem applyOptionChecked_eq (rule : SuricataRule) (o : RuleOption) :
    rule.applyOptionChecked o = some (rule.applyOption o) := by
  obtain ⟨key, value⟩ := o
  unfold applyOptionChecked
  dsimp only
  by_cases hmsg : key = "msg".toList
  · subst hmsg
    rw [if_pos rfl, unquoteChecked_eq]
    rfl
  by_cases hcontent : key = "content".toList
  · subst hcontent
    rw [if_neg hmsg, if_pos rfl, parseContentValueChecked_eq]
    rfl
  by_cases hpcre : key = "pcre".toList
  · subst hpcre
    have happly : rule.applyOption ("pcre".toList, value) = .ok (rule.withPcre value) := rfl
    rw [if_neg hmsg, if_neg hcontent, if_pos rfl, unquoteChecked_eq, Option.bind_some,
      parsePcrePatternChecked_eq, happly, withPcre]
    cases parsePcrePattern (unquote value) <;> rfl
  rw [if_neg hmsg, if_neg hcontent, if_neg hpcre]

theorem applyOptionsChecked_eq (rule : SuricataRule) (options : List RuleOption) :
    rule.applyOptionsChecked options = some (options.foldlM applyOption rule) := by
  induction options generalizing rule with
  | nil => rfl
  | cons o options ih =>
    rw [applyOptionsChecked, applyOptionChecked_eq, Option.bind_some, List.foldlM_cons]
    cases rule.applyOption o with
    | error e => rfl
    | ok rule' => exact ih rule'

end SuricataRule

theorem parsePartsChecked_eq (header options : List Char) (source : RuleSource) :
    parsePartsChecked header options source = some (parseParts header options source) := by
  unfold parsePartsChecked parseParts
  generalize splitWhitespace header = fields
  obtain _ | ⟨name, _ | ⟨protocol, _ | ⟨srcAddr, _ | ⟨srcPort, _ | ⟨direction, _ | ⟨dstAddr,
    _ | ⟨dstPort, rest⟩⟩⟩⟩⟩⟩⟩ := fields
  case cons.cons.cons.cons.cons.cons.cons =>
    dsimp only
    cases IdsAction.fromStr name with
    | none => rfl
    | some action =>
      dsimp only
      rw [SuricataRule.applyOptionsChecked_eq]
      rfl
  all_goals rfl

/-- A text without a sign, or what is before its first place and after it. -/
theorem splitOnce_cases (c : Char) (s : List Char) : splitOnce c s = none ∧ c ∉ s ∨
    ∃ front rest, c ∉ front ∧ s = front ++ c :: rest ∧ splitOnce c s = some (front, rest) := by
  by_cases hc : c ∈ s
  · obtain ⟨front, rest, rfl, hfront⟩ := List.eq_append_cons_of_mem hc
    exact .inr ⟨front, rest, hfront, rfl, splitOnce_append hfront⟩
  · exact .inl ⟨splitOnce_none hc, hc⟩

/-- A text without a sign, or what is before its last place and after it. -/
theorem rsplitOnce_cases (c : Char) (s : List Char) : rsplitOnce c s = none ∧ c ∉ s ∨
    ∃ front rest, c ∉ rest ∧ s = front ++ c :: rest ∧ rsplitOnce c s = some (front, rest) := by
  obtain ⟨hnone, hc⟩ | ⟨front, rest, hfront, hs, -⟩ := splitOnce_cases c s.reverse
  · rw [List.mem_reverse] at hc
    exact .inl ⟨rsplitOnce_none hc, hc⟩
  · have hs' := congrArg List.reverse hs
    rw [List.reverse_reverse, List.reverse_append, List.reverse_cons, List.append_assoc,
      List.singleton_append] at hs'
    have hrest := mt List.mem_reverse.mp hfront
    exact .inr ⟨rest.reverse, front.reverse, hrest, hs', hs' ▸ rsplitOnce_append hrest⟩

/-- The slices of `parse_rule` are what the parts of the line are taken to be. -/
theorem parseRuleChecked_eq (line : List Char) (source : RuleSource) :
    parseRuleChecked line source = parseRule line source := by
  have hstart (s : List Char) (n : Nat) : sliceBytes s 0 n = takeBytes n s := by
    rw [sliceBytes]
    cases takeBytes n s with
    | none => rfl
    | some front => cases front <;> rfl
  unfold parseRuleChecked parseRule
  dsimp only
  generalize trim line = s
  by_cases hskip : s = [] ∨ s.head? = some '#'
  · rw [if_pos hskip, if_pos hskip]
  rw [if_neg hskip, if_neg hskip]
  obtain ⟨hsplit, -⟩ | ⟨front, rest, hfront, rfl, hsplit⟩ := splitOnce_cases '(' s
  · rw [findByte, hsplit]
    dsimp only [Option.map_none]
    rw [hstart, Nat.min_comm]
  rw [findByte, hsplit]
  dsimp only [Option.map_some]
  have hopening : byteLen front + 1 = byteLen (front ++ ['(']) := by
    rw [byteLen_append]
    rfl
  have hheader : sliceBytes (front ++ '(' :: rest) 0 (byteLen front) = some front := by
    rw [hstart, takeBytes_append]
  obtain ⟨hnone, hrest⟩ | ⟨options, tail, htail, rfl, hlast⟩ := rsplitOnce_cases ')' rest
  · rw [hnone]
    dsimp only
    have hafter : ')' ∉ '(' :: rest := List.not_mem_cons_of_ne_of_not_mem (by decide) hrest
    obtain ⟨hnone, hclose⟩ | ⟨a, b, hb, rfl, -⟩ := rsplitOnce_cases ')' front
    · have hall : ')' ∉ front ++ '(' :: rest := List.not_mem_append hclose hafter
      rw [rfindByte, rsplitOnce_none hall, if_neg hclose]
      rfl
    · -- the last closing parenthesis is before the first opening one
      have hlast : rsplitOnce ')' (a ++ ')' :: b ++ '(' :: rest) = some (a, b ++ '(' :: rest) := by
        rw [List.append_assoc, List.cons_append]
        exact rsplitOnce_append (List.not_mem_append hb hafter)
      have hbefore : byteLen a < byteLen (a ++ ')' :: b) + 1 := by
        rw [byteLen_append]
        omega
      rw [rfindByte, hlast, if_pos (List.mem_append_right a List.mem_cons_self)]
      dsimp only [Option.map_some]
      rw [hheader, Option.bind_some, sliceBytes_none _ hbefore, Option.bind_none]
  · have hwhole : front ++ '(' :: (options ++ ')' :: tail) =
        front ++ '(' :: options ++ ')' :: tail := by
      rw [List.append_assoc, List.cons_append]
    have hall : rsplitOnce ')' (front ++ '(' :: (options ++ ')' :: tail)) =
        some (front ++ '(' :: options, tail) := by
      rw [hwhole]
      exact rsplitOnce_append htail
    have hopen : front ++ '(' :: options = front ++ ['('] ++ options := by
      rw [List.append_assoc]
      rfl
    have hslice : sliceBytes (front ++ '(' :: (options ++ ')' :: tail)) (byteLen front + 1)
        (byteLen (front ++ '(' :: options)) = some options := by
      have hparts := sliceBytes_parts (front ++ ['(']) options (')' :: tail)
      rw [List.append_assoc, List.singleton_append] at hparts
      rw [hopening, hopen]
      exact hparts
    rw [rfindByte, hall, hlast]
    dsimp only [Option.map_some]
    rw [hheader, Option.bind_some, hslice, Option.bind_some, parsePartsChecked_eq]

/-- A line whose parts can be sliced: a comment, or one whose parentheses are in order as far as there
are both, or one without an opening parenthesis whose first 80 bytes end with a sign. -/
def SliceSafe (line : List Char) : Prop :=
  line.head? = some '#' ∨
    (∃ front rest, line = front ++ '(' :: rest ∧ '(' ∉ front ∧ (')' ∈ rest ∨ ')' ∉ front)) ∨
    '(' ∉ line ∧ (byteLen line ≤ 80 ∨ ∃ front rest, line = front ++ rest ∧ byteLen front = 80)

theorem parseRuleChecked_isSome_iff (line : List Char) (source : RuleSource) :
    (parseRuleChecked line source).isSome = true ↔ SliceSafe (trim line) := by
  rw [parseRuleChecked_eq]
  unfold parseRule
  dsimp only
  generalize trim line = s
  by_cases hskip : s = [] ∨ s.head? = some '#'
  · rw [if_pos hskip]
    apply iff_of_true rfl
    obtain rfl | hcomment := hskip
    · exact .inr (.inr ⟨List.not_mem_nil, .inl (Nat.zero_le _)⟩)
    · exact .inl hcomment
  rw [if_neg hskip]
  rw [not_or] at hskip
  rw [SliceSafe, or_iff_right hskip.2]
  obtain ⟨hsplit, hnone⟩ | ⟨front, rest, hfront, rfl, hsplit⟩ := splitOnce_cases '(' s
  · have hparts : ¬∃ front rest, s = front ++ '(' :: rest ∧ '(' ∉ front ∧
        (')' ∈ rest ∨ ')' ∉ front) := by
      rintro ⟨front, rest, rfl, -⟩
      exact hnone (List.mem_append_right front List.mem_cons_self)
    rw [hsplit, or_iff_right hparts, and_iff_right hnone]
    dsimp only
    rw [Option.isSome_map, takeBytes_isSome_iff]
    by_cases hlen : byteLen s ≤ 80
    · rw [Nat.min_eq_left hlen]
      exact iff_of_true ⟨s, [], (List.append_nil s).symm, rfl⟩ (.inl hlen)
    · rw [Nat.min_eq_right (Nat.le_of_not_le hlen), or_iff_right hlen]
  · have hopen : ¬('(' ∉ front ++ '(' :: rest ∧ (byteLen (front ++ '(' :: rest) ≤ 80 ∨
        ∃ front' rest', front ++ '(' :: rest = front' ++ rest' ∧ byteLen front' = 80)) :=
      fun h => h.1 (List.mem_append_right front List.mem_cons_self)
    have hparts : (∃ front' rest', front ++ '(' :: rest = front' ++ '(' :: rest' ∧
        '(' ∉ front' ∧ (')' ∈ rest' ∨ ')' ∉ front')) ↔ (')' ∈ rest ∨ ')' ∉ front) := by
      constructor
      · rintro ⟨front', rest', he, hfront', hclose⟩
        have hsplit' := splitOnce_append (b := rest') hfront'
        rw [← he, hsplit] at hsplit'
        cases hsplit'
        exact hclose
      · exact fun hclose => ⟨front, rest, rfl, hfront, hclose⟩
    rw [hsplit, or_iff_left hopen, hparts]
    dsimp only
    obtain ⟨hnone, hrest⟩ | ⟨options, tail, -, rfl, hlast⟩ := rsplitOnce_cases ')' rest
    · rw [hnone, or_iff_right hrest]
      dsimp only
      by_cases hclose : ')' ∈ front
      · rw [if_pos hclose]
        exact iff_of_false Bool.false_ne_true (not_not.mpr hclose)
      · rw [if_neg hclose]
        exact iff_of_true rfl hclose
    · rw [hlast]
      exact iff_of_true rfl (.inl (List.mem_append_right options List.mem_cons_self))

theorem isSome_foldlM {f : β → α → Option β} {P : α → Prop}
    (h : ∀ acc x, (f acc x).isSome = true ↔ P x) (acc : β) (l : List α) :
    (l.foldlM f acc).isSome = true ↔ ∀ x ∈ l, P x := by
  induction l generalizing acc with
  | nil => exact iff_of_true rfl (List.forall_mem_nil _)
  | cons x l ih =>
    rw [List.foldlM_cons, List.forall_mem_cons, ← h acc x]
    cases f acc x with
    | none => exact iff_of_false Bool.false_ne_true fun hall => Bool.false_ne_true hall.1
    | some acc' =>
      exact (ih acc').trans (and_iff_right Option.isSome_some).symm

theorem parseStep_isSome_iff (source : RuleSource) (rules : List SuricataRule)
    (line : List Char) : (parseStep source rules line).isSome = true ↔ SliceSafe (trim line) := by
  unfold parseStep
  dsimp only
  by_cases hskip : trim line = [] ∨ (trim line).head? = some '#'
  · rw [if_pos hskip]
    apply iff_of_true rfl
    obtain hnil | hcomment := hskip
    · rw [hnil]
      exact .inr (.inr ⟨List.not_mem_nil, .inl (Nat.zero_le _)⟩)
    · exact .inl hcomment
  · rw [if_neg hskip, Option.isSome_map, parseRuleChecked_isSome_iff, trim_trim]

/-- A line is read without a panic exactly if its parts can be sliced, and a text exactly if each of
its lines can. -/
theorem never_panics_iff (line text : List Char) (source : RuleSource) :
    ((parseRuleChecked line source).isSome = true ↔ SliceSafe (trim line)) ∧
      ((parseRules text source).isSome = true ↔ ∀ line ∈ lines text, SliceSafe (trim line)) :=
  ⟨parseRuleChecked_isSome_iff line source,
    isSome_foldlM (parseStep_isSome_iff source) [] (lines text)⟩

/-- A rule, and a line whose parentheses are the other way round. -/
def crossedText : List Char := "alert tcp any any -> any any (sid:1;)\n)(".toList

theorem crossed_aborts : ¬((∀ line source, (parseRuleChecked line source).isSome = true) ∧
    ∀ text source, (parseRules text source).isSome = true) := by
  rintro ⟨-, h⟩
  have hnone : (parseRules crossedText .custom).isSome = false := by decide +kernel
  exact Bool.false_ne_true (hnone ▸ h crossedText .custom)

/-- The first 80 bytes of a line that is no rule end inside of its last sign. -/
example : parseRuleChecked (List.replicate 79 'a' ++ ['é']) .custom = none := by decide +kernel

end AiFw.Ids
