import AiFw.Lib.Separated

namespace AiFw.Lib.MasterFile
open AiFw.Lib
set_option autoImplicit true

/-- A sign of a word, and whether it is escaped. -/
abbrev Sign := Char × Bool

abbrev Word := List Sign

/-- The words of an entry, and whether a blank stands before the first. -/
structure Entry where
  blank : Bool
  words : List Word
deriving DecidableEq, Repr

inductive Mode where
  | plain
  | quoted
  | comment
deriving DecidableEq, Repr

/-- How far a file is cut into entries. The digits of an escape are kept until there are three. -/
structure Lexer where
  entries : List Entry
  start : Bool
  blank : Bool
  words : List Word
  word : Option Word
  depth : Nat
  mode : Mode
  escape : Option (List Char)
deriving DecidableEq, Repr

namespace Lexer

def endWord (l : Lexer) : Lexer :=
  { l with words := l.words ++ l.word.toList, word := none, start := false }

def endEntry (l : Lexer) : Lexer :=
  let words := l.words ++ l.word.toList
  { l with
    entries := if words = [] then l.entries else l.entries ++ [⟨l.blank, words⟩]
    start := true
    blank := false
    words := []
    word := none }

def push (l : Lexer) (s : Sign) : Lexer :=
  { l with word := some (l.word.getD [] ++ [s]), start := false, escape := none }

/-- Between parentheses the end of a line is a blank. -/
def newline (l : Lexer) : Lexer :=
  if l.depth = 0 then { l.endEntry with mode := .plain } else { l.endWord with mode := .plain }

def stepPlain (l : Lexer) (c : Char) : Option Lexer :=
  if c = '\n' then some l.newline
  else if c = ' ' ∨ c = '\t' ∨ c = '\r' then some { l.endWord with blank := l.blank || l.start }
  else if c = ';' then some { l.endWord with mode := .comment }
  else if c = '(' then some { l.endWord with depth := l.depth + 1 }
  else if c = ')' then
    if l.depth = 0 then none else some { l.endWord with depth := l.depth - 1 }
  else if c = '"' then some { l.endWord with mode := .quoted, word := some [] }
  else if c = '\\' then some { l with escape := some [] }
  else some (l.push (c, false))

/-- `\X`, or `\DDD` for the octet of that number. -/
def stepEscape (l : Lexer) (digits : List Char) (c : Char) : Option Lexer :=
  if c.isDigit then
    if digits.length < 2 then some { l with escape := some (digits ++ [c]) }
    else
      match parseUnsigned 256 (digits ++ [c]) with
      | some n => some (l.push (Char.ofNat n, true))
      | none => none
  else if digits = [] ∧ c ≠ '\n' then some (l.push (c, true))
  else none

def stepQuoted (l : Lexer) (c : Char) : Option Lexer :=
  if c = '"' then some { l.endWord with mode := .plain }
  else if c = '\\' then some { l with escape := some [] }
  else if c = '\n' then none
  else some (l.push (c, true))

def step (l : Lexer) (c : Char) : Option Lexer :=
  match l.escape with
  | some digits => l.stepEscape digits c
  | none =>
    match l.mode with
    | .plain => l.stepPlain c
    | .quoted => l.stepQuoted c
    | .comment => if c = '\n' then some l.newline else some l

def initial : Lexer := ⟨[], true, false, [], none, 0, .plain, none⟩

def finish (l : Lexer) : Option (List Entry) :=
  if l.escape = none ∧ l.depth = 0 ∧ l.mode ≠ .quoted then some l.endEntry.entries else none

end Lexer

def entriesOf (file : List Char) : Option (List Entry) :=
  (file.foldlM Lexer.step Lexer.initial).bind Lexer.finish

/-- The labels of a name, from the host to the root. -/
abbrev Name := List (List Char)

/-- The pieces of a word between the dots that are not escaped. -/
def labelsOf : Word → Name
  | [] => [[]]
  | s :: rest =>
    if s = ('.', false) then [] :: labelsOf rest
    else
      match labelsOf rest with
      | [] => [[s.1]]
      | l :: ls => (s.1 :: l) :: ls

/-- The name a word stands for: of the root if it ends with a dot, else of the origin. -/
def resolve (origin : Name) (w : Word) : Option Name :=
  if w = [('@', false)] then some origin
  else if w = [('.', false)] then some []
  else
    let labels := labelsOf w
    let own := if labels.getLast? = some [] then labels.dropLast else labels
    if own.any List.isEmpty then none
    else if labels.getLast? = some [] then some own
    else some (own ++ origin)

structure Record where
  owner : Name
  type : List Char
  rdata : List (List Char)
deriving DecidableEq, Repr

def spelled (w : Word) : List Char := w.map Prod.fst

def isTtl (w : Word) : Bool := !w.isEmpty && (spelled w).all Char.isDigit

def isClass (w : Word) : Bool :=
  ["IN", "CS", "CH", "HS"].any fun c => c.toList = (spelled w).map Char.toUpper

/-- What is left of a record without its time to live and its class, in either order. -/
def dropTtlClass : List Word → List Word
  | w :: v :: rest =>
    if isTtl w then if isClass v then rest else v :: rest
    else if isClass w then if isTtl v then rest else v :: rest
    else w :: v :: rest
  | ws => ws

/-- The records that are read, under the origin and the last owner. -/
structure Reading where
  origin : Name
  owner : Option Name
  records : List Record
deriving DecidableEq, Repr

def addRecord (st : Reading) (owner : Name) (words : List Word) : Option Reading :=
  match dropTtlClass words with
  | [] => none
  | type :: rdata => some { st with
      owner := some owner
      records := st.records ++ [⟨owner, spelled type, rdata.map spelled⟩] }

/-- A control entry. No other file is there to include. -/
def control (st : Reading) (keyword : List Char) (args : List Word) : Option Reading :=
  if keyword.map Char.toUpper = "$TTL".toList then
    match args with
    | [ttl] => if isTtl ttl then some st else none
    | _ => none
  else if keyword.map Char.toUpper = "$ORIGIN".toList then
    match args with
    | [name] => (resolve st.origin name).map fun origin => { st with origin }
    | _ => none
  else none

def readEntry (st : Reading) (e : Entry) : Option Reading :=
  match e.blank, e.words with
  | _, [] => some st
  | true, words =>
    match st.owner with
    | some owner => addRecord st owner words
    | none => none
  | false, w :: words =>
    if w.head? = some ('$', false) then control st (spelled w) words
    else
      match resolve st.origin w with
      | some owner => addRecord st owner words
      | none => none

/-- The records of a file, under the origin it is loaded with. -/
def readZone (origin : Name) (file : List Char) : Option (List Record) :=
  (entriesOf file).bind fun entries =>
    (entries.foldlM readEntry ⟨origin, none, []⟩).map Reading.records

/-- A sign that stands for itself in a word. -/
def isPlain (c : Char) : Bool :=
  !(['\n', ' ', '\t', '\r', ';', '(', ')', '"', '\\'].contains c)

/-- A word of such signs. -/
def plainWord (w : List Char) : Word := w.map fun c => (c, false)

theorem spelled_plainWord (w : List Char) : spelled (plainWord w) = w := by
  rw [spelled, plainWord, List.map_map]
  exact List.map_id' w

theorem spelled_plainWords (ws : List (List Char)) : (ws.map plainWord).map spelled = ws := by
  rw [List.map_map]
  exact (List.map_congr_left fun w _ => spelled_plainWord w).trans (List.map_id ws)

theorem labelsOf_plainWord (w : List Char) : labelsOf (plainWord w) = splitOn '.' w := by
  induction w with
  | nil => rfl
  | cons c w ih =>
    rw [plainWord, List.map_cons, labelsOf, splitOn, ← plainWord, ih]
    by_cases hc : c = '.'
    · rw [if_pos hc, if_pos (by rw [hc])]
    · rw [if_neg hc, if_neg (fun h => hc (Prod.mk.inj h).1)]
      cases splitOn '.' w with
      | nil => rfl
      | cons l ls => rfl

namespace Lexer

/-- Between two entries. -/
def idle (entries : List Entry) : Lexer := ⟨entries, true, false, [], none, 0, .plain, none⟩

/-- Within an entry, outside parentheses. -/
def within (entries : List Entry) (blank : Bool) (words : List Word) (word : Option Word) : Lexer :=
  ⟨entries, false, blank, words, word, 0, .plain, none⟩

theorem stepPlain_of_plain (h : isPlain c = true) (l : Lexer) :
    l.stepPlain c = some (l.push (c, false)) := by
  simp only [isPlain, List.contains_cons, List.contains_nil, Bool.or_false, Bool.not_eq_true',
    Bool.or_eq_false_iff, beq_eq_false_iff_ne] at h
  obtain ⟨hline, hspace, htab, hcr, hsemi, hopen, hclose, hquote, hescape⟩ := h
  have hblank : ¬(c = ' ' ∨ c = '\t' ∨ c = '\r') := by
    rintro (h | h | h)
    · exact hspace h
    · exact htab h
    · exact hcr h
  unfold stepPlain
  rw [if_neg hline, if_neg hblank, if_neg hsemi, if_neg hopen, if_neg hclose, if_neg hquote,
    if_neg hescape]

variable {es : List Entry} {b : Bool}

theorem step_within (h : isPlain c = true) (vs : List Word) (v : Option Word) :
    (within es b vs v).step c = some (within es b vs (some (v.getD [] ++ [(c, false)]))) :=
  stepPlain_of_plain h _

/-- A blank ends a word. -/
theorem step_space (vs : List Word) (v : Word) :
    (within es b vs (some v)).step ' ' = some (within es b (vs ++ [v]) none) := by
  cases b with
  | true => rfl
  | false => rfl

/-- The end of a line ends the entry. -/
theorem step_newline (vs : List Word) (v : Word) :
    (within es b vs (some v)).step '\n' = some (idle (es ++ [⟨b, vs ++ [v]⟩])) := by
  have hwords : vs ++ [v] ≠ [] := List.append_ne_nil_of_right_ne_nil _ (List.cons_ne_nil _ _)
  have hend : (within es b vs (some v)).endEntry = idle (es ++ [⟨b, vs ++ [v]⟩]) :=
    congrArg idle (if_neg hwords)
  exact congrArg some hend

theorem run_signs (w : List Char) (h : ∀ c ∈ w, isPlain c = true) (vs : List Word) (v : Word) :
    w.foldlM step (within es b vs (some v)) = some (within es b vs (some (v ++ plainWord w))) := by
  induction w generalizing v with
  | nil =>
    rw [plainWord, List.map_nil, List.append_nil]
    rfl
  | cons c w ih =>
    rw [List.forall_mem_cons] at h
    rw [List.foldlM_cons, step_within h.1]
    change w.foldlM step (within es b vs (some (v ++ [(c, false)]))) = _
    rw [ih h.2, List.append_assoc]
    rfl

/-- A word is read. -/
theorem run_word {w : List Char} (hne : w ≠ []) (h : ∀ c ∈ w, isPlain c = true) (vs : List Word) :
    w.foldlM step (within es b vs none) = some (within es b vs (some (plainWord w))) := by
  obtain ⟨c, cs, rfl⟩ := List.exists_cons_of_ne_nil hne
  rw [List.forall_mem_cons] at h
  rw [List.foldlM_cons, step_within h.1]
  exact run_signs cs h.2 vs [(c, false)]

/-- The rest of an entry: its words, and the end of the line. -/
theorem run_words (ws : List (List Char)) (hne : ws ≠ [])
    (h : ∀ w ∈ ws, w ≠ [] ∧ ∀ c ∈ w, isPlain c = true) (vs : List Word) :
    ([' '].intercalate ws ++ ['\n']).foldlM step (within es b vs none) =
      some (idle (es ++ [⟨b, vs ++ ws.map plainWord⟩])) := by
  induction ws generalizing vs with
  | nil => exact absurd rfl hne
  | cons w ws ih =>
    rw [List.forall_mem_cons] at h
    cases ws with
    | nil =>
      rw [List.intercalate_singleton, List.foldlM_append, run_word h.1.1 h.1.2]
      exact step_newline vs (plainWord w)
    | cons v rest =>
      rw [List.intercalate_cons_cons, List.append_assoc, List.append_assoc, List.foldlM_append,
        run_word h.1.1 h.1.2, Option.bind_eq_bind, Option.bind_some, List.singleton_append,
        List.foldlM_cons, step_space, Option.bind_eq_bind, Option.bind_some,
        ih (List.cons_ne_nil v rest) h.2, List.append_assoc]
      rfl

/-- A line of words is an entry. -/
theorem run_line (ws : List (List Char)) (hne : ws ≠ [])
    (h : ∀ w ∈ ws, w ≠ [] ∧ ∀ c ∈ w, isPlain c = true) :
    ([' '].intercalate ws ++ ['\n']).foldlM step (idle es) =
      some (idle (es ++ [⟨false, ws.map plainWord⟩])) := by
  -- the first sign leads to where an entry is begun without a blank
  have hfirst (s : List Char) (hs : ∀ c ∈ s.head?, isPlain c = true) (hnil : s ≠ []) :
      s.foldlM step (idle es) = s.foldlM step (within es false [] none) := by
    obtain ⟨c, cs, rfl⟩ := List.exists_cons_of_ne_nil hnil
    rw [List.foldlM_cons, List.foldlM_cons, step_within (hs c rfl)]
    exact congrArg (· >>= _) (stepPlain_of_plain (hs c rfl) (idle es))
  rw [hfirst, run_words ws hne h]
  · rfl
  · obtain ⟨w, rest, rfl⟩ := List.exists_cons_of_ne_nil hne
    obtain ⟨⟨hword, hplain⟩, -⟩ := List.forall_mem_cons.mp h
    obtain ⟨c, cs, rfl⟩ := List.exists_cons_of_ne_nil hword
    have hhead : ([' '].intercalate ((c :: cs) :: rest) ++ ['\n']).head? = some c := by
      cases rest with
      | nil => rfl
      | cons v vs => rfl
    rw [hhead]
    rintro _ ⟨⟩
    exact hplain c List.mem_cons_self
  · exact List.append_ne_nil_of_right_ne_nil _ (List.cons_ne_nil _ _)

end Lexer

/-- Lines of words are entries. -/
theorem Lexer.run_lines {α : Type} (wordsOf : α → List (List Char)) (xs : List α)
    (h : ∀ x ∈ xs, wordsOf x ≠ [] ∧ ∀ w ∈ wordsOf x, w ≠ [] ∧ ∀ c ∈ w, isPlain c = true)
    (es : List Entry) :
    (xs.map fun x => [' '].intercalate (wordsOf x) ++ ['\n']).flatten.foldlM Lexer.step
        (Lexer.idle es) =
      some (Lexer.idle (es ++ xs.map fun x => ⟨false, (wordsOf x).map plainWord⟩)) := by
  induction xs generalizing es with
  | nil =>
    rw [List.map_nil, List.map_nil, List.append_nil]
    rfl
  | cons x xs ih =>
    rw [List.forall_mem_cons] at h
    rw [List.map_cons, List.flatten_cons, List.foldlM_append, Lexer.run_line _ h.1.1 h.1.2]
    change (xs.map fun x => [' '].intercalate (wordsOf x) ++ ['\n']).flatten.foldlM Lexer.step
      (Lexer.idle (es ++ [⟨false, (wordsOf x).map plainWord⟩])) = _
    rw [ih h.2, List.append_assoc]
    rfl

/-- A name of plain labels is one of the origin. -/
theorem resolve_plainWord {w : List Char} (h : ∀ l ∈ splitOn '.' w, l ≠ []) (hat : w ≠ ['@'])
    (origin : Name) : resolve origin (plainWord w) = some (splitOn '.' w ++ origin) := by
  have hword (c : Char) (hw : w ≠ [c]) : plainWord w ≠ [(c, false)] := by
    intro heq
    have hspelled := congrArg spelled heq
    rw [spelled_plainWord] at hspelled
    exact hw hspelled
  have hdot : w ≠ ['.'] := by
    rintro rfl
    exact h [] (by decide) rfl
  have hlast : (splitOn '.' w).getLast? ≠ some [] := fun hl => h [] (List.mem_of_getLast? hl) rfl
  have hempty : (splitOn '.' w).any List.isEmpty = false := by
    rw [List.any_eq_false]
    intro l hl hnil
    exact h l hl (List.isEmpty_iff.mp hnil)
  unfold resolve
  rw [if_neg (hword '@' hat), if_neg (hword '.' hdot), labelsOf_plainWord]
  dsimp only
  rw [if_neg hlast, hempty, if_neg Bool.false_ne_true, if_neg hlast]

/-- An entry that begins with a name is a record of that name. -/
theorem readEntry_name {st : Reading} (hname : resolve st.origin w = some owner)
    (hcontrol : w.head? ≠ some ('$', false)) (hrest : dropTtlClass words = type :: rdata) :
    readEntry st ⟨false, w :: words⟩ =
      some { st with
        owner := some owner
        records := st.records ++ [⟨owner, spelled type, rdata.map spelled⟩] } := by
  unfold readEntry
  dsimp only
  rw [if_neg hcontrol, hname]
  dsimp only
  rw [addRecord, hrest]

/-- Entries that are records each. -/
theorem read_records {α : Type} (entryOf : α → Entry) (recordOf : α → Record) (origin : Name)
    (xs : List α)
    (h : ∀ x ∈ xs, ∀ owner records, readEntry ⟨origin, owner, records⟩ (entryOf x) =
      some ⟨origin, some (recordOf x).owner, records ++ [recordOf x]⟩)
    (owner : Option Name) (records : List Record) :
    ((xs.map entryOf).foldlM readEntry ⟨origin, owner, records⟩).map Reading.records =
      some (records ++ xs.map recordOf) := by
  induction xs generalizing owner records with
  | nil =>
    rw [List.map_nil, List.map_nil, List.append_nil]
    rfl
  | cons x xs ih =>
    rw [List.forall_mem_cons] at h
    rw [List.map_cons, List.foldlM_cons, h.1, Option.bind_eq_bind, Option.bind_some, ih h.2,
      List.map_cons, List.append_assoc]
    rfl

end AiFw.Lib.MasterFile
