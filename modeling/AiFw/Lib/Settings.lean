import AiFw.Lib.Results
import AiFw.Lib.TextSearch

namespace AiFw.Lib
set_option autoImplicit true

/-- A value, or a section of settings and sections. -/
inductive Setting where
  | value (text : List Char)
  | part (settings : List (List Char × Setting))

abbrev Settings := List (List Char × Setting)

inductive SettingsLine where
  | blank
  | opens (name : List Char)
  | closes
  | sets (key value : List Char)

/-- Text up to the closing quote, and what comes after it; a backslash escapes the next sign. -/
def unquote : List Char → Option (List Char × List Char)
  | [] => none
  | c :: rest =>
    if c = '"' then some ([], rest)
    else if c = '\\' then
      match rest with
      | [] => none
      | d :: rest => (unquote rest).map fun p => (d :: p.1, p.2)
    else (unquote rest).map fun p => (c :: p.1, p.2)

/-- A line without its comment, which a `#` outside quotes begins. -/
def uncommented : Bool → List Char → List Char
  | _, [] => []
  | quoted, c :: cs =>
    if quoted && c == '\\' then
      match cs with
      | [] => [c]
      | d :: ds => c :: d :: uncommented true ds
    else if c = '"' then c :: uncommented (!quoted) cs
    else if !quoted && c == '#' then []
    else c :: uncommented quoted cs

def isSyntax (c : Char) : Bool := c == '#' || c == '"' || c == '{' || c == '}' || c == '='

def isBare (c : Char) : Bool := !isWhitespace c && !isSyntax c

/-- A word with no sign of the syntax in it. -/
def isName (s : List Char) : Bool := !s.isEmpty && s.all isBare

def readValue : List Char → Option (List Char)
  | '"' :: rest =>
    match unquote rest with
    | some (v, []) => some v
    | _ => none
  | text => if text.any fun c => c == '"' || c == '{' || c == '}' then none else some text

def settingLine (line : List Char) : Option SettingsLine :=
  let s := trim (uncommented false line)
  if s = [] then some .blank
  else if s = ['}'] then some .closes
  else
    match splitOnce '=' s with
    | some (key, value) =>
      if isName (trim key) then (readValue (trim value)).map (.sets (trim key)) else none
    | none =>
      if s.getLast? = some '{' && isName (trim s.dropLast) then some (.opens (trim s.dropLast))
      else none

/-- The settings of the section that is open, and those around it by their names. -/
abbrev Nesting := Settings × List (List Char × Settings)

def nest : Nesting → SettingsLine → Option Nesting
  | n, .blank => some n
  | (settings, outer), .sets key value => some (settings ++ [(key, .value value)], outer)
  | (settings, outer), .opens name => some ([], (name, settings) :: outer)
  | (settings, (name, around) :: outer), .closes =>
    some (around ++ [(name, .part settings)], outer)
  | (_, []), .closes => none

def readInto (n : Nesting) (line : List Char) : Option Nesting := (settingLine line).bind (nest n)

/-- Nested sections, with one setting to a line. -/
def readSettings (text : List Char) : Option Settings :=
  match (splitOn '\n' text).foldlM readInto ([], []) with
  | some (settings, []) => some settings
  | _ => none

theorem unquote_length (h : unquote s = some (v, rest)) : v.length + rest.length < s.length := by
  induction hn : s.length using Nat.strong_induction_on generalizing s v with
  | _ n ih =>
    have hmap {c : Char} {tail : List Char} (hlt : tail.length + 1 ≤ n)
        (h : ((unquote tail).map fun p => (c :: p.1, p.2)) = some (v, rest)) :
        v.length + rest.length < n := by
      obtain ⟨⟨v', r⟩, htail, hp⟩ := Option.map_eq_some_iff.mp h
      cases hp
      have hlength := ih tail.length (by omega) htail rfl
      simp only [List.length_cons] at hlength ⊢
      omega
    cases s with
    | nil => cases h
    | cons c s =>
      rw [List.length_cons] at hn
      rw [unquote.eq_def] at h
      dsimp only at h
      split at h
      · cases h
        simp only [List.length_nil]
        omega
      · split at h
        · cases s with
          | nil => cases h
          | cons d s =>
            rw [List.length_cons] at hn
            exact hmap (by omega) h
        · exact hmap (by omega) h

/-- Quoted text is read as itself if and only if it has no backslash. -/
theorem unquote_eq_iff (h : '"' ∉ s) : unquote (s ++ ['"']) = some (s, []) ↔ '\\' ∉ s := by
  induction s with
  | nil => exact iff_of_true rfl List.not_mem_nil
  | cons c s ih =>
    rw [List.mem_cons, not_or] at h
    rw [List.cons_append, unquote.eq_def]
    dsimp only
    rw [if_neg (Ne.symm h.1)]
    by_cases hc : c = '\\'
    · subst hc
      refine iff_of_false ?_ fun hmem => hmem List.mem_cons_self
      rw [if_pos rfl]
      cases s with
      | nil => exact nofun
      | cons d s =>
        intro hread
        obtain ⟨⟨v, r⟩, hrest, hp⟩ := Option.map_eq_some_iff.mp hread
        cases hp
        have hlength : ('\\' :: s).length + 0 < (s ++ ['"']).length := unquote_length hrest
        simp at hlength
    · rw [if_neg hc, List.mem_cons, not_or, ← ih h.2, Option.map_eq_some_iff]
      constructor
      · rintro ⟨⟨v, r⟩, hread, hp⟩
        cases hp
        exact ⟨Ne.symm hc, hread⟩
      · exact fun ⟨_, hread⟩ => ⟨_, hread, rfl⟩

theorem uncommented_quoted (h : '"' ∉ s) :
    uncommented true (s ++ ['"']) = s ++ ['"'] := by
  induction hn : s.length using Nat.strong_induction_on generalizing s with
  | _ n ih =>
    cases s with
    | nil => rfl
    | cons c s =>
      rw [List.length_cons] at hn
      rw [List.mem_cons, not_or] at h
      rw [List.cons_append, uncommented.eq_def]
      dsimp only
      by_cases hc : c = '\\'
      · subst hc
        cases s with
        | nil => rfl
        | cons d s =>
          rw [List.length_cons] at hn
          rw [List.mem_cons, not_or] at h
          exact congrArg (fun t => '\\' :: d :: t) (ih s.length (by omega) h.2.2 rfl)
      · have hescape : (true && c == '\\') = false := by simpa using hc
        rw [hescape, if_neg Bool.false_ne_true, if_neg (Ne.symm h.1)]
        exact congrArg (c :: ·) (ih s.length (by omega) h.2 rfl)

theorem uncommented_cons (c : Char) (cs : List Char) : uncommented false (c :: cs) =
    if c = '"' then c :: uncommented true cs else if c = '#' then []
    else c :: uncommented false cs := by
  rw [uncommented.eq_def]
  simp

theorem uncommented_append (h : ∀ c ∈ front, c ≠ '#' ∧ c ≠ '"') (back : List Char) :
    uncommented false (front ++ back) = front ++ uncommented false back := by
  induction front with
  | nil => rfl
  | cons c front ih =>
    obtain ⟨⟨hcomment, hquote⟩, hrest⟩ := List.forall_mem_cons.mp h
    rw [List.cons_append, uncommented_cons, if_neg hquote, if_neg hcomment, ih hrest,
      List.cons_append]

theorem uncommented_of_plain (h : ∀ c ∈ s, c ≠ '#' ∧ c ≠ '"') : uncommented false s = s := by
  have happ := uncommented_append h []
  rwa [List.append_nil, uncommented, List.append_nil] at happ

theorem bare_facts (h : isBare c = true) : isWhitespace c = false ∧ c ≠ '#' ∧ c ≠ '"' ∧ c ≠ '{' ∧
    c ≠ '}' ∧ c ≠ '=' := by
  simpa [isBare, isSyntax, and_assoc] using h

theorem isName_iff : isName s = true ↔ s ≠ [] ∧ ∀ c ∈ s, isBare c = true := by
  simp [isName]

theorem isName_append (ha : isName a = true) (hb : b.all isBare = true) :
    isName (a ++ b) = true := by
  obtain ⟨hne, hall⟩ := isName_iff.mp ha
  apply isName_iff.mpr
  exact ⟨mt List.append_eq_nil_iff.mp fun hnil => hne hnil.1,
    List.forall_mem_append.mpr ⟨hall, List.all_eq_true.mp hb⟩⟩

theorem plain_of_name (h : isName s = true) : ∀ c ∈ s, isWhitespace c = false ∧ c ≠ '#' ∧ c ≠ '"' ∧
    c ≠ '{' ∧ c ≠ '}' ∧ c ≠ '=' :=
  fun c hc => bare_facts ((isName_iff.mp h).2 c hc)

theorem blanks (n : Nat) : ∀ c ∈ List.replicate n ' ', isWhitespace c = true := by
  intro c hc
  rw [(List.mem_replicate.mp hc).2]
  decide

/-- A word between blanks. -/
theorem trim_name (ha : ∀ c ∈ a, isWhitespace c = true) (hb : ∀ c ∈ b, isWhitespace c = true)
    (h : isName s = true) : trim (a ++ (s ++ b)) = s :=
  trim_between ha hb (isName_iff.mp h).1
    (fun c hc => (plain_of_name h c (List.mem_of_head? hc)).1)
    fun c hc => (plain_of_name h c (List.mem_of_getLast? hc)).1

section
variable (n : Nat) {key name s : List Char}

theorem settingLine_comment (s : List Char) : settingLine ('#' :: s) = some .blank := by
  rw [settingLine, uncommented_cons]
  rfl

/-- An indented line whose text neither begins nor ends with a blank. -/
theorem trim_line (hne : s ≠ []) (hfirst : ∀ c ∈ s.head?, isWhitespace c = false)
    (hlast : ∀ c ∈ s.getLast?, isWhitespace c = false) :
    trim (List.replicate n ' ' ++ s) = s := by
  have htrim := trim_between (blanks n) (List.forall_mem_nil _) hne hfirst hlast
  rwa [List.append_nil] at htrim

theorem uncommented_line (hs : uncommented false s = s) :
    uncommented false (List.replicate n ' ' ++ s) = List.replicate n ' ' ++ s := by
  rw [uncommented_append, hs]
  intro c hc
  rw [(List.mem_replicate.mp hc).2]
  decide

theorem settingLine_closes : settingLine (List.replicate n ' ' ++ ['}']) = some .closes := by
  have htrim : trim (List.replicate n ' ' ++ ['}']) = ['}'] :=
    trim_line n (by decide) (fun c hc => by cases hc; decide) (fun c hc => by cases hc; decide)
  rw [settingLine, uncommented_line n rfl, htrim]
  rfl

theorem head?_name (h : isName name = true) (back : List Char) :
    ∀ c ∈ (name ++ back).head?, isWhitespace c = false := by
  obtain ⟨d, cs, rfl⟩ := List.exists_cons_of_ne_nil (isName_iff.mp h).1
  have hd := (plain_of_name h d List.mem_cons_self).1
  intro c hc
  cases hc
  exact hd

theorem settingLine_opens (h : isName name = true) :
    settingLine (List.replicate n ' ' ++ (name ++ [' ', '{'])) = some (.opens name) := by
  have hname := plain_of_name h
  have hcomment : uncommented false (name ++ [' ', '{']) = name ++ [' ', '{'] :=
    uncommented_append (fun c hc => ⟨(hname c hc).2.1, (hname c hc).2.2.1⟩) _
  have hne : name ++ [' ', '{'] ≠ [] := by simp
  have hlast : (name ++ [' ', '{']).getLast? = some '{' := by
    rw [List.getLast?_append]
    rfl
  have htrim : trim (List.replicate n ' ' ++ (name ++ [' ', '{'])) = name ++ [' ', '{'] := by
    apply trim_line n hne (head?_name h _)
    rw [hlast]
    intro c hc
    cases hc
    decide
  have hclose : name ++ [' ', '{'] ≠ ['}'] := by
    intro he
    rw [he] at hlast
    exact absurd hlast (by decide)
  have hequals : '=' ∉ name ++ [' ', '{'] := by
    rw [List.mem_append, not_or]
    exact ⟨fun hmem => (hname _ hmem).2.2.2.2.2 rfl, by decide⟩
  have hinner : trim (name ++ [' ', '{']).dropLast = name := by
    have hsplit : name ++ [' ', '{'] = (name ++ [' ']) ++ ['{'] := by
      rw [List.append_assoc]
      rfl
    rw [hsplit, List.dropLast_concat]
    exact trim_name (List.forall_mem_nil _) (List.all_eq_true.mp (by decide)) h
  rw [settingLine, uncommented_line n hcomment, htrim,
    if_neg hne, if_neg hclose, splitOnce_none hequals, hlast, hinner, h]
  rfl

/-- A setting is read as its value is. -/
theorem settingLine_setting (h : isName key = true) {value : List Char} (hne : value ≠ [])
    (hcomment : uncommented false value = value)
    (hfirst : ∀ c ∈ value.head?, isWhitespace c = false)
    (hlast : ∀ c ∈ value.getLast?, isWhitespace c = false) :
    settingLine (List.replicate n ' ' ++ (key ++ ' ' :: '=' :: ' ' :: value)) =
      (readValue value).map (.sets key) := by
  have hkey := plain_of_name h
  have huncommented : uncommented false (key ++ ' ' :: '=' :: ' ' :: value) =
      key ++ ' ' :: '=' :: ' ' :: value := by
    rw [uncommented_append fun c hc => ⟨(hkey c hc).2.1, (hkey c hc).2.2.1⟩, uncommented_cons,
      uncommented_cons, uncommented_cons, hcomment]
    rfl
  have htrim : trim (List.replicate n ' ' ++ (key ++ ' ' :: '=' :: ' ' :: value)) =
      key ++ ' ' :: '=' :: ' ' :: value := by
    apply trim_line n (by simp) (head?_name h _)
    have hsplit : key ++ ' ' :: '=' :: ' ' :: value = (key ++ [' ', '=', ' ']) ++ value := by
      rw [List.append_assoc]
      rfl
    rw [hsplit]
    exact fun c hc => hlast c (getLast?_of_mem_append _ hne hc)
  have hmem : '=' ∈ key ++ ' ' :: '=' :: ' ' :: value := by simp
  have hsplit : splitOnce '=' (key ++ ' ' :: '=' :: ' ' :: value) =
      some (key ++ [' '], ' ' :: value) := by
    have happ : key ++ ' ' :: '=' :: ' ' :: value = (key ++ [' ']) ++ '=' :: ' ' :: value := by
      rw [List.append_assoc]
      rfl
    rw [happ]
    apply splitOnce_append
    rw [List.mem_append, not_or]
    exact ⟨fun hmem => (hkey _ hmem).2.2.2.2.2 rfl, by decide⟩
  have htrimKey : trim (key ++ [' ']) = key :=
    trim_name (List.forall_mem_nil _) (List.all_eq_true.mp (by decide)) h
  have htrimValue : trim (' ' :: value) = value := trim_line 1 hne hfirst hlast
  have hnil : key ++ ' ' :: '=' :: ' ' :: value ≠ [] := by simp
  have hclose : key ++ ' ' :: '=' :: ' ' :: value ≠ ['}'] := by
    intro he
    rw [he] at hmem
    exact absurd hmem (by decide)
  rw [settingLine, uncommented_line n huncommented, htrim,
    if_neg hnil, if_neg hclose, hsplit]
  dsimp only
  rw [htrimKey, htrimValue, h]
  rfl

theorem settingLine_plain (h : isName key = true) {value : List Char}
    (hvalue : isName value = true) :
    settingLine (List.replicate n ' ' ++ (key ++ ' ' :: '=' :: ' ' :: value)) =
      some (.sets key value) := by
  have hplain := plain_of_name hvalue
  have hread : readValue value = some value := by
    obtain ⟨c, cs, rfl⟩ := List.exists_cons_of_ne_nil (isName_iff.mp hvalue).1
    have hquote : c ≠ '"' := (hplain c List.mem_cons_self).2.2.1
    rw [readValue]
    · rw [if_neg]
      simp only [List.any_eq_true, not_exists, not_and]
      intro d hd
      obtain ⟨-, -, hquote, hopen, hclose, -⟩ := hplain d hd
      simp [hquote, hopen, hclose]
    · rintro rest ⟨⟩
      exact hquote rfl
  rw [settingLine_setting n h (isName_iff.mp hvalue).1
    (uncommented_of_plain fun c hc => ⟨(hplain c hc).2.1, (hplain c hc).2.2.1⟩)
    (fun c hc => (hplain c (List.mem_of_head? hc)).1)
    (fun c hc => (hplain c (List.mem_of_getLast? hc)).1), hread]
  rfl

/-- A quoted setting, whatever is in the quotes. -/
theorem settingLine_quoted (h : isName key = true) {text : List Char} (htext : '"' ∉ text) :
    settingLine (List.replicate n ' ' ++ (key ++ ' ' :: '=' :: ' ' :: '"' :: (text ++ ['"']))) =
      (readValue ('"' :: (text ++ ['"']))).map (.sets key) := by
  apply settingLine_setting n h (List.cons_ne_nil _ _)
  · rw [uncommented_cons, uncommented_quoted htext]
    rfl
  · intro c hc
    cases hc
    decide
  · intro c hc
    cases getLast?_of_mem_append ('"' :: text) (List.cons_ne_nil _ _) hc
    decide

theorem readValue_quoted (htext : '"' ∉ text) :
    readValue ('"' :: (text ++ ['"'])) = some text ↔ '\\' ∉ text := by
  rw [← unquote_eq_iff htext, readValue]
  constructor
  · intro hread
    split at hread
    · next v hv =>
      cases hread
      exact hv
    · cases hread
  · intro hv
    rw [hv]

end

/-- Wherever they stand, the lines add the settings to the section that is open, if they can be
read. -/
structure Reads (lines : List (List Char)) (read : Option Settings) : Prop where
  whole : ∀ line ∈ lines, '\n' ∉ line
  build : ∀ before outer, lines.foldlM readInto (before, outer) =
    read.map fun settings => (before ++ settings, outer)

/-- A section around some lines, with its braces indented. -/
def inBraces (n : Nat) (name : List Char) (body : List (List Char)) : List (List Char) :=
  (List.replicate n ' ' ++ (name ++ [' ', '{'])) :: (body ++ [List.replicate n ' ' ++ ['}']])

namespace Reads
variable {a b body : List (List Char)} {r r' : Option Settings}

theorem nil : Reads [] (some []) where
  whole := List.forall_mem_nil _
  build before outer := by
    rw [Option.map_some, List.append_nil]
    rfl

theorem append (ha : Reads a r) (hb : Reads b r') :
    Reads (a ++ b) (r.bind fun s => r'.map (s ++ ·)) where
  whole := List.forall_mem_append.mpr ⟨ha.whole, hb.whole⟩
  build before outer := by
    rw [List.foldlM_append, ha.build]
    cases r with
    | none => rfl
    | some s =>
      apply (hb.build (before ++ s) outer).trans
      cases r' with
      | none => rfl
      | some s' =>
        rw [Option.map_some, List.append_assoc]
        rfl

theorem line {line key : List Char} {value : Option (List Char)} (hwhole : '\n' ∉ line)
    (hread : settingLine line = value.map (.sets key)) :
    Reads [line] (value.map fun v => [(key, .value v)]) where
  whole := List.forall_mem_singleton.mpr hwhole
  build before outer := by
    rw [List.foldlM_cons, readInto, hread]
    cases value with
    | none => rfl
    | some v => rfl

theorem comment {line : List Char} (h : line.head? = some '#') (hwhole : '\n' ∉ line) :
    Reads [line] (some []) where
  whole := List.forall_mem_singleton.mpr hwhole
  build before outer := by
    obtain ⟨s, rfl⟩ : ∃ s, line = '#' :: s := by
      cases line with
      | nil => cases h
      | cons c s =>
        cases h
        exact ⟨s, rfl⟩
    rw [List.foldlM_cons, readInto, settingLine_comment, Option.map_some, List.append_nil]
    rfl

theorem notMem_blanks (n : Nat) {s : List Char} (h : '\n' ∉ s) :
    '\n' ∉ List.replicate n ' ' ++ s := by
  rw [List.mem_append, not_or]
  exact ⟨fun hmem => absurd (List.mem_replicate.mp hmem).2 (by decide), h⟩

theorem notMem_name (h : isName name = true) : '\n' ∉ name := by
  intro hmem
  have hblank := (plain_of_name h _ hmem).1
  revert hblank
  decide

/-- A section is built on its own, whatever is around it. -/
theorem part (n : Nat) (name : List Char) (h : isName name = true) (hbody : Reads body r) :
    Reads (inBraces n name body) (r.map fun s => [(name, .part s)]) where
  whole := by
    rw [inBraces, List.forall_mem_cons, List.forall_mem_append, List.forall_mem_singleton]
    refine ⟨notMem_blanks n ?_, hbody.whole, notMem_blanks n (by decide)⟩
    rw [List.mem_append, not_or]
    exact ⟨notMem_name h, by decide⟩
  build before outer := by
    have hopen : readInto (before, outer) (List.replicate n ' ' ++ (name ++ [' ', '{'])) =
        some ([], (name, before) :: outer) := by
      rw [readInto, settingLine_opens n h]
      rfl
    have hclose (s : Settings) : readInto (s, (name, before) :: outer)
        (List.replicate n ' ' ++ ['}']) = some (before ++ [(name, .part s)], outer) := by
      rw [readInto, settingLine_closes n]
      rfl
    rw [inBraces, List.foldlM_cons, hopen, Option.bind_eq_bind, Option.bind_some,
      List.foldlM_append, hbody.build]
    cases r with
    | none => rfl
    | some s =>
      change [List.replicate n ' ' ++ ['}']].foldlM readInto (s, (name, before) :: outer) = _
      rw [List.foldlM_cons, hclose]
      rfl

theorem plain (n : Nat) (key : List Char)
    (hfront : front = List.replicate n ' ' ++ (key ++ [' ', '=', ' '])) (hkey : isName key = true)
    (hvalue : isName value = true) : Reads [front ++ value] (some [(key, .value value)]) := by
  have hline : front ++ value = List.replicate n ' ' ++ (key ++ ' ' :: '=' :: ' ' :: value) := by
    rw [hfront, List.append_assoc, List.append_assoc]
    rfl
  rw [hline]
  have hread := settingLine_plain n hkey hvalue
  refine @line _ _ (some value) (notMem_blanks n ?_) hread
  simp only [List.mem_append, List.mem_cons, not_or]
  exact ⟨notMem_name hkey, by decide, by decide, by decide, notMem_name hvalue⟩

theorem quoted (n : Nat) (key : List Char)
    (hfront : front = List.replicate n ' ' ++ (key ++ [' ', '=', ' ', '"']))
    (hkey : isName key = true) {text : List Char} (hquote : '"' ∉ text) (hwhole : '\n' ∉ text) :
    Reads [front ++ (text ++ ['"'])]
      ((readValue ('"' :: (text ++ ['"']))).map fun v => [(key, .value v)]) := by
  have hline : front ++ (text ++ ['"']) =
      List.replicate n ' ' ++ (key ++ ' ' :: '=' :: ' ' :: '"' :: (text ++ ['"'])) := by
    rw [hfront, List.append_assoc, List.append_assoc]
    rfl
  rw [hline]
  refine line (notMem_blanks n ?_) (settingLine_quoted n hkey hquote)
  simp only [List.mem_append, List.mem_cons, not_or]
  exact ⟨notMem_name hkey, by decide, by decide, by decide, by decide, hwhole, by decide,
    List.not_mem_nil⟩

/-- What has no backslash is read as it was quoted. -/
theorem quotedText (n : Nat) (key : List Char)
    (hfront : front = List.replicate n ' ' ++ (key ++ [' ', '=', ' ', '"']))
    (hkey : isName key = true) {text : List Char}
    (htext : ∀ c ∈ text, c ≠ '"' ∧ c ≠ '\\' ∧ c ≠ '\n') :
    Reads [front ++ (text ++ ['"'])] (some [(key, .value text)]) := by
  have hquote : '"' ∉ text := fun hmem => (htext _ hmem).1 rfl
  have hread := quoted n key hfront hkey hquote fun hmem => (htext _ hmem).2.2 rfl
  rwa [(readValue_quoted hquote).mpr fun hmem => (htext _ hmem).2.1 rfl] at hread

end Reads

/-- A text of whole lines. -/
theorem splitOn_lines {lines : List (List Char)} (h : ∀ l ∈ lines, '\n' ∉ l) :
    splitOn '\n' (lines.flatMap fun l => l ++ ['\n']) = lines ++ [[]] := by
  induction lines with
  | nil => rfl
  | cons l lines ih =>
    obtain ⟨hl, hrest⟩ := List.forall_mem_cons.mp h
    rw [List.flatMap_cons, List.append_assoc, List.singleton_append, splitOn_append_cons,
      splitOn_of_notMem hl, ih hrest]
    rfl

/-- A text is read as its lines are. -/
theorem readSettings_lines (h : Reads lines r) :
    readSettings (lines.flatMap fun l => l ++ ['\n']) = r := by
  rw [readSettings, splitOn_lines h.whole, List.foldlM_append, h.build]
  cases r with
  | none => rfl
  | some settings => rfl

namespace Settings
variable (settings : Settings)

def under (key : String) : Option Setting :=
  (settings.find? fun e => e.1 = key.toList).map Prod.snd

/-- The keys are distinct, and among those that are known. -/
def known (keys : List String) : Bool :=
  decide (settings.map Prod.fst).Nodup &&
    settings.all fun e => keys.any fun key => key.toList = e.1

def text (key : String) : Option (List Char) :=
  match settings.under key with
  | some (.value text) => some text
  | _ => none

/-- A value that need not be there. -/
def textIfAny (key : String) : Option (Option (List Char)) :=
  match settings.under key with
  | none => some none
  | some (.value text) => some (some text)
  | some (.part _) => none

def inner (key : String) : Option Settings :=
  match settings.under key with
  | some (.part settings) => some settings
  | _ => none

end Settings

/-- A list with commas between its entries, and blanks around them that do not count. -/
def listed (text : List Char) : List (List Char) := (splitOn ',' text).map trim

/-- A word that can be an entry of such a list. -/
def isEntry (s : List Char) : Bool := isName s && !s.contains ','

/-- A time in seconds. -/
def seconds (text : List Char) : Option Nat :=
  if text.getLast? = some 's' then parseUnsigned (2 ^ 32) text.dropLast else none

theorem entry_facts (h : isEntry s = true) : isName s = true ∧ ',' ∉ s := by
  simpa [isEntry] using h

/-- What is listed has no blanks around it. -/
theorem trim_of_listed (h : s ∈ listed text) : trim s = s := by
  obtain ⟨p, -, rfl⟩ := List.mem_map.mp h
  exact trim_trim p

theorem listed_entries {entries : List (List Char)} (hne : entries ≠ [])
    (h : ∀ s ∈ entries, isEntry s = true) : listed ([','].intercalate entries) = entries := by
  rw [listed, splitOn_intercalate (fun s hs => (entry_facts (h s hs)).2) hne]
  apply (List.map_inj_left.mpr _).trans (List.map_id entries)
  intro s hs
  have htrim := trim_name (List.forall_mem_nil _) (List.forall_mem_nil _) (entry_facts (h s hs)).1
  rwa [List.append_nil] at htrim

theorem listed_entry (h : isEntry s = true) : listed s = [s] := by
  have hlisted := listed_entries (List.cons_ne_nil s []) (List.forall_mem_singleton.mpr h)
  rwa [List.intercalate_singleton] at hlisted

theorem isName_intercalate {entries : List (List Char)} (hne : entries ≠ [])
    (h : ∀ s ∈ entries, isName s = true) : isName ([','].intercalate entries) = true := by
  induction entries with
  | nil => exact absurd rfl hne
  | cons s entries ih =>
    obtain ⟨hs, hrest⟩ := List.forall_mem_cons.mp h
    cases entries with
    | nil => rwa [List.intercalate_singleton]
    | cons s' entries =>
      have htail := isName_iff.mp (ih (List.cons_ne_nil _ _) hrest)
      rw [List.intercalate_cons_cons]
      exact isName_append (isName_append hs (by decide)) (List.all_eq_true.mpr htail.2)

theorem seconds_toDigits (h : n < 2 ^ 32) : seconds (Nat.toDigits 10 n ++ ['s']) = some n := by
  rw [seconds, List.getLast?_concat, if_pos rfl, List.dropLast_concat, parseUnsigned_toDigits h]

end AiFw.Lib
