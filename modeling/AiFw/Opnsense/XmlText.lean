import AiFw.Lib.Text

namespace AiFw.Opnsense
open AiFw.Lib
set_option autoImplicit true

structure Node where
  name : List Char
  text : List Char
  children : List Node

/-- What a reference stands for: a character, or a name. -/
inductive Reference where
  | char (c : Char)
  | name (n : List Char)
  | bad

/-- The events of the XML reader; what its errors say is left out. -/
inductive Event where
  | failed
  | other
  | start (name : List Char)
  | «end»
  | empty (name : List Char)
  | text (s : List Char)
  | cdata (s : List Char)
  | generalRef (r : Reference)

inductive ParseError where
  | xml
  | wrongRoot (name : List Char)
  | malformed (msg : List Char)

/-- A run of text; after the first one each starts a line of its own. -/
def Node.addText (n : Node) (s : List Char) : Node :=
  if trim s = [] then n
  else if n.text = [] then { n with text := s }
  else { n with text := n.text ++ '\n' :: s }

def Node.addCdata (n : Node) (s : List Char) : Node :=
  { n with text := (if n.text = [] then [] else n.text ++ ['\n']) ++ s }

def Node.push (n : Node) (s : List Char) : Node := { n with text := n.text ++ s }

def Node.addChild (n child : Node) : Node := { n with children := n.children ++ [child] }

def entities : List (String × Char) :=
  [("amp", '&'), ("lt", '<'), ("gt", '>'), ("quot", '"'), ("apos", Char.ofNat 39)]

def Reference.resolve : Reference → Except ParseError (List Char)
  | .char c => .ok [c]
  | .name n =>
    match entities.find? fun e => e.1.toList = n with
    | some (_, c) => .ok [c]
    | none => .error (.malformed ("unknown entity reference &".toList ++ n ++ [';']))
  | .bad => .error (.malformed [])

/-- The open elements, innermost first; below them is the holder of the document. -/
abbrev Stack := Node × List Node

def Event.step : Stack → Event → Except ParseError Stack
  | _, .failed => .error .xml
  | st, .other => .ok st
  | (top, below), .start name => .ok (⟨name, [], []⟩, top :: below)
  | (_, []), .end => .error (.malformed "unbalanced end tag".toList)
  | (top, outer :: below), .end => .ok (outer.addChild top, below)
  | (top, below), .empty name => .ok (top.addChild ⟨name, [], []⟩, below)
  | (top, below), .text s => .ok (top.addText s, below)
  | (top, below), .cdata s => .ok (top.addCdata s, below)
  | (top, below), .generalRef r => do
    let s ← r.resolve
    return (top.push s, below)

def rootHolder : Node := ⟨"__root__".toList, [], []⟩

def finish : Stack → Except ParseError Node
  | (holder, []) =>
    match holder.children.find? fun c => c.name ≠ [] with
    | some root => .ok root
    | none => .error (.malformed "no root element".toList)
  | _ => .error (.malformed "unclosed tags".toList)

def parseDom (events : List Event) : Except ParseError Node := do
  let st ← events.foldlM Event.step (rootHolder, [])
  finish st

/-- One character of an element's text as it is written. -/
inductive Piece where
  | literal (c : Char) (h : c ≠ '<' ∧ c ≠ '&')
  | entity (e : String × Char) (h : e ∈ entities)
  | charRef (c : Char)

def Piece.char : Piece → Char
  | .literal c _ => c
  | .entity e _ => e.2
  | .charRef c => c

def Piece.isLiteral : Piece → Bool
  | .literal _ _ => true
  | _ => false

def decoded (content : List Piece) : List Char := content.map Piece.char

/-- The white space of XML. -/
def isXmlSpace (c : Char) : Bool := [' ', '\t', '\r', '\n'].contains c

def trimXml (s : List Char) : List Char :=
  ((s.dropWhile isXmlSpace).reverse.dropWhile isXmlSpace).reverse

def textEvents (run : List Char) : List Event :=
  if trimXml run = [] then [] else [.text (trimXml run)]

/-- The events of a content after a run that is still open: a trimmed one for every run without
references, and one for every reference. -/
def contentEvents (run : List Char) : List Piece → List Event
  | [] => textEvents run
  | .literal c _ :: rest => contentEvents (run ++ [c]) rest
  | .entity e _ :: rest =>
    textEvents run ++ .generalRef (.name e.1.toList) :: contentEvents [] rest
  | .charRef c :: rest => textEvents run ++ .generalRef (.char c) :: contentEvents [] rest

def elementEvents (name : List Char) (content : List Piece) : List Event :=
  .start name :: contentEvents [] content ++ [.end]

/-- The text of an element after a run of its content. -/
def appendRun (text run : List Char) : List Char :=
  if trim (trimXml run) = [] then text
  else if text = [] then trimXml run
  else text ++ '\n' :: trimXml run

/-- The text that a content is read as, after a text and a run that is still open. -/
def readPieces (text run : List Char) : List Piece → List Char
  | [] => appendRun text run
  | p :: rest =>
    if p.isLiteral then readPieces text (run ++ [p.char]) rest
    else readPieces (appendRun text run ++ [p.char]) [] rest

theorem resolve_entity (h : e ∈ entities) :
    Reference.resolve (.name e.1.toList) = .ok [e.2] := by
  have hall : ∀ e ∈ entities, (entities.find? fun f => f.1.toList = e.1.toList) = some e := by
    decide
  unfold Reference.resolve
  dsimp only
  rw [hall e h]

theorem fold_textEvents (top : Node) (below : List Node) (run : List Char) (rest : List Event) :
    (textEvents run ++ rest).foldlM Event.step (top, below) =
      rest.foldlM Event.step ({ top with text := appendRun top.text run }, below) := by
  obtain ⟨name, text, children⟩ := top
  unfold textEvents appendRun
  by_cases hempty : trimXml run = []
  · have htrim : trim [] = [] := rfl
    rw [if_pos hempty, hempty, if_pos htrim, List.nil_append]
  · rw [if_neg hempty]
    change List.foldlM Event.step (Node.addText ⟨name, text, children⟩ (trimXml run), below) rest = _
    unfold Node.addText
    split
    · rfl
    · split <;> rfl

theorem fold_contentEvents (content : List Piece) (top : Node) (below : List Node)
    (run : List Char) (rest : List Event) :
    (contentEvents run content ++ rest).foldlM Event.step (top, below) =
      rest.foldlM Event.step ({ top with text := readPieces top.text run content }, below) := by
  induction content generalizing top run with
  | nil => exact fold_textEvents top below run rest
  | cons p content ih =>
    cases p with
    | literal c h => exact ih top (run ++ [c])
    | entity e h =>
      rw [contentEvents, List.append_assoc, fold_textEvents, List.cons_append, List.foldlM_cons]
      have hstep : Event.step ({ top with text := appendRun top.text run }, below)
          (.generalRef (.name e.1.toList)) =
            .ok ({ top with text := appendRun top.text run ++ [e.2] }, below) := by
        rw [Event.step, resolve_entity h]
        rfl
      rw [hstep]
      exact ih { top with text := appendRun top.text run ++ [e.2] } []
    | charRef c =>
      rw [contentEvents, List.append_assoc, fold_textEvents, List.cons_append, List.foldlM_cons]
      exact ih { top with text := appendRun top.text run ++ [c] } []

/-- An element is added to the one around it, with the text its content is read as. -/
theorem fold_elementEvents (name : List Char) (content : List Piece) (top : Node)
    (below : List Node) (rest : List Event) :
    (elementEvents name content ++ rest).foldlM Event.step (top, below) =
      rest.foldlM Event.step (top.addChild ⟨name, readPieces [] [] content, []⟩, below) := by
  have hfold := fold_contentEvents content ⟨name, [], []⟩ (top :: below) [] (.end :: rest)
  rw [elementEvents, List.cons_append, List.cons_append, List.foldlM_cons, List.append_assoc]
  exact hfold

/-- Wherever in a document the element stands, it has the text. -/
def GivesText (content : List Piece) (text : List Char) : Prop :=
  ∀ name top below rest, (elementEvents name content ++ rest).foldlM Event.step (top, below) =
    rest.foldlM Event.step (top.addChild ⟨name, text, []⟩, below)

/-- The control characters. -/
def isControl (c : Char) : Bool := c.toNat < 0x20 || (0x7F ≤ c.toNat && c.toNat < 0xA0)

/-- A text without control characters that neither starts nor ends with white space. -/
structure PlainText (s : List Char) : Prop where
  noControl : ∀ c ∈ s, isControl c = false
  starts : ∀ c ∈ s.head?, isWhitespace c = false
  ends : ∀ c ∈ s.getLast?, isWhitespace c = false

/-- The references come last, and no space stands before them. -/
def RefsLast (content : List Piece) : Prop :=
  ∃ lits refs, content = lits ++ refs ∧ (∀ p ∈ lits, p.isLiteral = true) ∧
    (∀ p ∈ refs, p.isLiteral = false) ∧ (refs ≠ [] → ∀ p ∈ lits.getLast?, p.char ≠ ' ')

theorem givesText_iff {content : List Piece} {text : List Char} :
    GivesText content text ↔ readPieces [] [] content = text := by
  constructor
  · intro h
    have hsame := h "a".toList rootHolder [] []
    rw [fold_elementEvents] at hsame
    injection hsame with hsame
    injection hsame with hsame
    injection hsame with _ _ hchildren
    injection hchildren with hchild
    injection hchild
  · rintro rfl name top below rest
    exact fold_elementEvents name content top below rest

def refChars (content : List Piece) : List Char :=
  (content.filter fun p => !p.isLiteral).map Piece.char

/-- After some text, either a line break is added or every run is dropped. -/
theorem readPieces_after (content : List Piece) (text run : List Char) (htext : text ≠ []) :
    ∃ added, readPieces text run content = text ++ added ∧
      ('\n' ∈ added ∨ added = refChars content) := by
  induction content generalizing text run with
  | nil =>
    unfold readPieces appendRun
    split
    · exact ⟨[], (List.append_nil _).symm, .inr rfl⟩
    · exact ⟨_, rfl, .inl List.mem_cons_self⟩
  | cons p content ih =>
    unfold readPieces
    cases hp : p.isLiteral with
    | true =>
      rw [if_pos rfl]
      obtain ⟨added, hread, hadded⟩ := ih text (run ++ [p.char]) htext
      refine ⟨added, hread, ?_⟩
      rw [refChars, List.filter_cons_of_neg (by rw [hp]; decide)]
      exact hadded
    | false =>
      rw [if_neg Bool.false_ne_true]
      obtain ⟨added, hread, hadded⟩ := ih (appendRun text run ++ [p.char]) []
        (List.append_ne_nil_of_right_ne_nil _ (List.cons_ne_nil _ _))
      rw [hread]
      have hrefs : refChars (p :: content) = p.char :: refChars content := by
        rw [refChars, List.filter_cons_of_pos (by rw [hp]; rfl)]
        rfl
      rw [hrefs]
      unfold appendRun
      split
      · refine ⟨p.char :: added, ?_, ?_⟩
        · rw [List.append_assoc, List.singleton_append]
        · obtain hline | rfl := hadded
          · exact .inl (List.mem_cons_of_mem _ hline)
          · exact .inr rfl
      · refine ⟨'\n' :: trimXml run ++ p.char :: added, ?_, .inl List.mem_cons_self⟩
        simp only [List.append_assoc, List.cons_append, List.nil_append]

theorem readPieces_literals (lits : List Piece) (text run : List Char) (rest : List Piece)
    (h : ∀ p ∈ lits, p.isLiteral = true) :
    readPieces text run (lits ++ rest) = readPieces text (run ++ decoded lits) rest := by
  induction lits generalizing run with
  | nil => rw [decoded, List.map_nil, List.append_nil, List.nil_append]
  | cons p lits ih =>
    rw [List.cons_append, readPieces, if_pos (h p List.mem_cons_self),
      ih (run ++ [p.char]) fun q hq => h q (List.mem_cons_of_mem _ hq), decoded, decoded,
      List.map_cons, List.append_assoc, List.singleton_append]

theorem readPieces_refs (refs : List Piece) (text : List Char)
    (h : ∀ p ∈ refs, p.isLiteral = false) : readPieces text [] refs = text ++ decoded refs := by
  have hblank (text : List Char) : appendRun text [] = text := rfl
  induction refs generalizing text with
  | nil => rw [readPieces, hblank, decoded, List.map_nil, List.append_nil]
  | cons p refs ih =>
    have hp := h p List.mem_cons_self
    rw [readPieces, if_neg (by rw [hp]; exact Bool.false_ne_true), hblank,
      ih (text ++ [p.char]) fun q hq => h q (List.mem_cons_of_mem _ hq), List.append_assoc]
    rfl

theorem trimXml_length (s : List Char) : (trimXml s).length ≤ s.length := by
  rw [trimXml, List.length_reverse]
  apply Nat.le_trans (List.dropWhile_sublist _).length_le
  rw [List.length_reverse]
  exact (List.dropWhile_sublist _).length_le

theorem dropWhile_of_head {p : Char → Bool} {s : List Char} (h : ∀ c ∈ s.head?, p c = false) :
    s.dropWhile p = s := by
  cases s with
  | nil => rfl
  | cons c s => rw [List.dropWhile_cons_of_neg (by rw [h c rfl]; exact Bool.false_ne_true)]

theorem trimXml_eq_self_iff {s : List Char} (h : ∀ c ∈ s.head?, isXmlSpace c = false) :
    trimXml s = s ↔ ∀ c ∈ s.getLast?, isXmlSpace c = false := by
  rw [trimXml, dropWhile_of_head h]
  constructor
  · intro hs c hc
    have hrev : s.reverse.dropWhile isXmlSpace = s.reverse := by
      rw [← List.reverse_reverse (s.reverse.dropWhile isXmlSpace), hs]
    cases hlist : s.reverse with
    | nil =>
      rw [List.reverse_eq_nil_iff.mp hlist] at hc
      cases hc
    | cons d rest =>
      rw [← List.head?_reverse, hlist] at hc
      cases hc
      rw [hlist] at hrev
      by_contra hspace
      rw [Bool.not_eq_false] at hspace
      rw [List.dropWhile_cons_of_pos hspace] at hrev
      have hshort := (List.dropWhile_sublist isXmlSpace (l := rest)).length_le
      rw [hrev, List.length_cons] at hshort
      omega
  · intro hlast
    rw [dropWhile_of_head (by rwa [List.head?_reverse]), List.reverse_reverse]

theorem isWhitespace_of_isXmlSpace (h : isXmlSpace c = true) : isWhitespace c = true := by
  have hall : ∀ c ∈ [' ', '\t', '\r', '\n'], isWhitespace c = true :=
    forall_mem_of_all (by decide)
  exact hall c (List.contains_iff_mem.mp h)

theorem isXmlSpace_eq_false (hc : isControl c = false) : isXmlSpace c = false ↔ c ≠ ' ' := by
  constructor
  · rintro h rfl
    cases h
  · intro hne
    by_contra h
    rw [Bool.not_eq_false] at h
    have hmem := List.contains_iff_mem.mp h
    simp only [List.mem_cons, List.not_mem_nil, or_false] at hmem
    obtain rfl | rfl | rfl | rfl := hmem
    · exact hne rfl
    · cases hc
    · cases hc
    · cases hc

theorem mem_dropWhile {p : Char → Bool} {s : List Char} (hc : c ∈ s) (hp : p c = false) :
    c ∈ s.dropWhile p := by
  induction s with
  | nil => cases hc
  | cons d s ih =>
    rw [List.dropWhile_cons]
    split
    · next hd =>
      obtain rfl | hc := List.mem_cons.mp hc
      · rw [hp] at hd
        cases hd
      · exact ih hc
    · exact hc

/-- The text of a first run that starts without white space. -/
theorem appendRun_nil {run : List Char} (h : ∀ c ∈ run.head?, isWhitespace c = false) :
    appendRun [] run = trimXml run := by
  cases run with
  | nil => rfl
  | cons c run =>
    have hc := h c rfl
    have hspace : isXmlSpace c = false := by
      by_contra hspace
      rw [Bool.not_eq_false] at hspace
      rw [isWhitespace_of_isXmlSpace hspace] at hc
      cases hc
    have hkept : c ∈ trimXml (c :: run) :=
      List.mem_reverse.mpr (mem_dropWhile (List.mem_reverse.mpr (mem_dropWhile List.mem_cons_self
        hspace)) hspace)
    have hmem : c ∈ trim (trimXml (c :: run)) :=
      List.mem_reverse.mpr (mem_dropWhile (List.mem_reverse.mpr (mem_dropWhile hkept hc)) hc)
    unfold appendRun
    rw [if_neg (List.ne_nil_of_mem hmem), if_pos rfl]

theorem decoded_append (a b : List Piece) : decoded (a ++ b) = decoded a ++ decoded b :=
  List.map_append

theorem head_of_append {a b : List Char} {P : Char → Prop} (h : ∀ c ∈ (a ++ b).head?, P c) :
    ∀ c ∈ a.head?, P c := by
  cases a with
  | nil =>
    intro c hc
    cases hc
  | cons d a => exact h

/-- What is read of literals that something follows has all of them exactly if they do not end with
a space. -/
theorem appendRun_eq_self_iff {run : List Char} (hcontrol : ∀ c ∈ run, isControl c = false)
    (hstart : ∀ c ∈ run.head?, isWhitespace c = false) :
    appendRun [] run = run ↔ ∀ c ∈ run.getLast?, c ≠ ' ' := by
  have hspace : ∀ c ∈ run.head?, isXmlSpace c = false := by
    intro c hc
    rw [isXmlSpace_eq_false (hcontrol c (List.mem_of_head? hc))]
    rintro rfl
    have hwhite := hstart _ hc
    cases hwhite
  rw [appendRun_nil hstart, trimXml_eq_self_iff hspace]
  apply forall₂_congr
  intro c hc
  exact isXmlSpace_eq_false (hcontrol c (List.mem_of_getLast? hc))

theorem refsLast_of_reads {lits refs : List Piece} {p : Piece}
    (h : PlainText (decoded (lits ++ p :: refs))) (hlits : ∀ q ∈ lits, q.isLiteral = true)
    (hp : p.isLiteral = false)
    (hread : readPieces [] [] (lits ++ p :: refs) = decoded (lits ++ p :: refs)) :
    RefsLast (lits ++ p :: refs) := by
  have hdecoded : decoded (lits ++ p :: refs) = decoded lits ++ p.char :: decoded refs :=
    decoded_append lits (p :: refs)
  rw [hdecoded] at h hread
  rw [readPieces_literals lits [] [] _ hlits, List.nil_append, readPieces,
    if_neg (by rw [hp]; exact Bool.false_ne_true)] at hread
  obtain ⟨added, hadd, hadded⟩ := readPieces_after refs (appendRun [] (decoded lits) ++ [p.char]) []
    (List.append_ne_nil_of_right_ne_nil _ (List.cons_ne_nil _ _))
  rw [hadd] at hread
  obtain hline | rfl := hadded
  · have hmem : '\n' ∈ decoded lits ++ p.char :: decoded refs := by
      rw [← hread]
      exact List.mem_append_right _ hline
    have hcontrol := h.noControl _ hmem
    cases hcontrol
  · have hstart : ∀ c ∈ (decoded lits).head?, isWhitespace c = false := head_of_append h.starts
    have hrun : (appendRun [] (decoded lits)).length ≤ (decoded lits).length := by
      rw [appendRun_nil hstart]
      exact trimXml_length _
    have hrefs : (refChars refs).length ≤ (decoded refs).length := by
      rw [refChars, decoded, List.length_map, List.length_map]
      exact List.length_filter_le _ _
    have hlengths := congrArg List.length hread
    simp only [List.length_append, List.length_cons, List.length_nil] at hlengths
    have hsame := List.append_inj_left (List.append_assoc _ _ _ ▸ hread) (by omega)
    have hall : (refs.filter fun q => !q.isLiteral).length = refs.length := by
      rw [hsame, refChars, List.length_map] at hlengths
      have hlength : (decoded refs).length = refs.length := List.length_map _
      omega
    rw [List.length_filter_eq_length_iff] at hall
    refine ⟨lits, p :: refs, rfl, hlits, ?_, ?_⟩
    · intro q hq
      obtain rfl | hq := List.mem_cons.mp hq
      · exact hp
      · exact (Bool.not_eq_true' _).mp (hall q hq)
    · intro _ q hq
      have hcontrol : ∀ c ∈ decoded lits, isControl c = false := by
        intro c hc
        exact h.noControl c (List.mem_append_left _ hc)
      apply (appendRun_eq_self_iff hcontrol hstart).mp hsame
      rw [decoded, List.getLast?_map, Option.mem_def.mp hq]
      rfl

theorem reads_of_refsLast {content : List Piece} (h : PlainText (decoded content))
    (hlast : RefsLast content) : readPieces [] [] content = decoded content := by
  obtain ⟨lits, refs, rfl, hlits, hrefs, hspace⟩ := hlast
  rw [decoded_append] at h ⊢
  have hcontrol : ∀ c ∈ decoded lits, isControl c = false := by
    intro c hc
    exact h.noControl c (List.mem_append_left _ hc)
  have hrun : appendRun [] (decoded lits) = decoded lits := by
    rw [appendRun_eq_self_iff hcontrol (head_of_append h.starts)]
    intro c hc
    cases refs with
    | nil =>
      rintro rfl
      have hnil : decoded lits ++ decoded [] = decoded lits := List.append_nil _
      rw [hnil] at h
      have hwhite := h.ends ' ' hc
      cases hwhite
    | cons p refs =>
      rw [decoded, List.getLast?_map, Option.mem_def, Option.map_eq_some_iff] at hc
      obtain ⟨q, hq, rfl⟩ := hc
      exact hspace (List.cons_ne_nil _ _) q hq
  rw [readPieces_literals lits [] [] refs hlits, List.nil_append]
  cases refs with
  | nil =>
    rw [readPieces, hrun]
    exact (List.append_nil _).symm
  | cons p refs =>
    have hp := hrefs p List.mem_cons_self
    rw [readPieces, if_neg (by rw [hp]; exact Bool.false_ne_true), hrun,
      readPieces_refs refs _ fun q hq => hrefs q (List.mem_cons_of_mem _ hq), List.append_assoc]
    rfl

/-- An escaped text is read back exactly if its references come last, after no space. -/
theorem givesText_decoded_iff (content : List Piece) (h : PlainText (decoded content)) :
    GivesText content (decoded content) ↔ RefsLast content := by
  rw [givesText_iff]
  constructor
  · intro hread
    have hsplit := List.takeWhile_append_dropWhile (p := Piece.isLiteral) (l := content)
    have hlits : ∀ q ∈ content.takeWhile Piece.isLiteral, q.isLiteral = true := by
      intro q hq
      exact List.all_eq_true.mp (List.all_takeWhile) q hq
    cases hrest : content.dropWhile Piece.isLiteral with
    | nil =>
      rw [hrest, List.append_nil] at hsplit
      rw [hsplit] at hlits
      refine ⟨content, [], (List.append_nil _).symm, hlits, ?_, fun hne => absurd rfl hne⟩
      intro q hq
      cases hq
    | cons p refs =>
      have hp : p.isLiteral = false := by
        have hhead := List.head?_dropWhile_not Piece.isLiteral content
        rw [hrest] at hhead
        exact hhead
      rw [hrest] at hsplit
      rw [← hsplit] at h hread ⊢
      exact refsLast_of_reads h hlits hp hread
  · exact reads_of_refsLast h

def ampersand : Piece := .entity ("amp", '&') List.mem_cons_self

def letter (c : Char) (h : c ≠ '<' ∧ c ≠ '&') : Piece := .literal c h

/-- `AT&amp;`, whose reference comes last. -/
def atSign : List Piece := [letter 'A' (by decide), letter 'T' (by decide), ampersand]

theorem givesText_atSign : PlainText (decoded atSign) ∧ GivesText atSign (decoded atSign) := by
  have hplain : PlainText (decoded atSign) :=
    ⟨forall_mem_of_all (by decide), forall_mem_option_of_all (by decide),
      forall_mem_option_of_all (by decide)⟩
  have hlast : RefsLast atSign :=
    ⟨[letter 'A' (by decide), letter 'T' (by decide)], [ampersand], rfl, by decide, by decide,
      by decide⟩
  exact ⟨hplain, (givesText_decoded_iff atSign hplain).mpr hlast⟩

/-- `R&amp;D` is read as two lines. -/
theorem givesText_inside :
    ¬∀ content, PlainText (decoded content) → GivesText content (decoded content) := by
  intro h
  have htext := h [letter 'R' (by decide), ampersand, letter 'D' (by decide)]
    ⟨forall_mem_of_all (by decide), forall_mem_option_of_all (by decide),
      forall_mem_option_of_all (by decide)⟩
  rw [givesText_iff] at htext
  revert htext
  decide

end AiFw.Opnsense
