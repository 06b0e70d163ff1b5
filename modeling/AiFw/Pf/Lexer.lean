import AiFw.Lib.Lexing
import AiFw.Lib.Text

namespace AiFw.Pf
open AiFw.Lib
set_option autoImplicit true

inductive Token where
  | word (text : List Char)
  | str (text : List Char)
  | sym (c : Char)
  | newline
deriving DecidableEq, Repr

def apostrophe : Char := Char.ofNat 0x27

def isQuote (c : Char) : Bool := c == '"' || c == apostrophe

def isBlank (c : Char) : Bool := c == ' ' || c == Char.ofNat 9

/-- Words are runs of ASCII graphic characters other than the signs of the grammar. -/
def isWordChar (c : Char) : Bool :=
  0x21 ≤ c.toNat && c.toNat ≤ 0x7E && !isQuote c &&
    !(['(', ')', '{', '}', '<', '>', '!', '=', '/', '#', ',', '\\'].contains c)

inductive Mode where
  | start
  | word (acc : List Char)
  | quoted (quote : Char) (acc : List Char)
  | escaped (quote : Char) (acc : List Char)
  | comment
deriving DecidableEq, Repr

def lexOpen (c : Char) : List Token × Mode :=
  if c = '\n' then ([.newline], .start)
  else if isBlank c then ([], .start)
  else if isQuote c then ([], .quoted c [])
  else if c = '#' then ([], .comment)
  else if isWordChar c then ([], .word [c])
  else ([.sym c], .start)

def lexStep : Mode → Char → List Token × Mode
  | .start, c => lexOpen c
  | .word acc, c =>
    if isWordChar c then ([], .word (c :: acc))
    else
      let (toks, mode) := lexOpen c
      (.word acc.reverse :: toks, mode)
  | .quoted quote acc, c =>
    if c = quote then ([.str acc.reverse], .start)
    else if c = '\\' then ([], .escaped quote acc)
    else ([], .quoted quote (c :: acc))
  | .escaped quote acc, c =>
    if c = '\n' then ([], .quoted quote acc)
    else if c = quote ∨ isBlank c then ([], .quoted quote (c :: acc))
    else ([], .quoted quote (c :: '\\' :: acc))
  | .comment, c => if c = '\n' then ([.newline], .start) else ([], .comment)

def lexFrom : Mode → List Char → Option (List Token)
  | .start, [] => some []
  | .word acc, [] => some [.word acc.reverse]
  | .comment, [] => some []
  | .quoted _ _, [] => none
  | .escaped _ _, [] => none
  | mode, c :: cs => (lexFrom (lexStep mode c).2 cs).map ((lexStep mode c).1 ++ ·)

/-- The tokens of a pf ruleset text; an unclosed quotation has none. -/
def lex (s : List Char) : Option (List Token) := lexFrom .start s

example : lex "from <bad> port 80 # x".toList =
    some [.word "from".toList, .sym '<', .word "bad".toList, .sym '>', .word "port".toList,
      .word "80".toList] := by decide +kernel

example : lex "label \"a b\"\npass".toList =
    some [.word "label".toList, .str "a b".toList, .newline, .word "pass".toList] := by
  decide +kernel

/-- The text that follows does not continue a word. -/
def Boundary (rest : List Char) : Prop := ∀ c ∈ rest.head?, isWordChar c = false

abbrev Lexes (chunk : List Char) (toks : List Token) : Prop := LexesTo lex Boundary chunk toks

theorem boundary_nil : Boundary [] := by
  intro c hc
  cases hc

theorem boundary_cons (h : isWordChar c = false) : Boundary (c :: cs) := by
  intro d hd
  cases hd
  exact h

theorem lex_nil : lex [] = some [] := rfl

theorem Lexes.lex_eq (h : Lexes chunk toks) : lex chunk = some toks :=
  LexesTo.whole h boundary_nil lex_nil

theorem lexFrom_cons (mode : Mode) (c : Char) (cs : List Char) :
    lexFrom mode (c :: cs) = (lexFrom (lexStep mode c).2 cs).map ((lexStep mode c).1 ++ ·) := by
  cases mode <;> rfl

theorem map_nil_append (o : Option (List Token)) : o.map ([] ++ ·) = o := by
  cases o <;> rfl

theorem lex_blank (rest : List Char) : lex ([' '] ++ rest) = lex rest := by
  exact map_nil_append (lex rest)

theorem lexOpen_word (h : isWordChar c) : lexOpen c = ([], .word [c]) := by
  have hq : isQuote c = false := by
    simp only [isWordChar, Bool.and_eq_true, Bool.not_eq_true'] at h
    exact h.1.2
  have hn : c ≠ '\n' := by
    rintro rfl
    exact absurd h (by decide)
  have hb : isBlank c = false := by
    by_contra hb
    rw [Bool.not_eq_false, isBlank, Bool.or_eq_true, beq_iff_eq, beq_iff_eq] at hb
    rcases hb with rfl | rfl <;> exact absurd h (by decide)
  have hh : c ≠ '#' := by
    rintro rfl
    exact absurd h (by decide)
  simp only [lexOpen, hn, hb, hq, hh, h, if_false, if_true, Bool.false_eq_true]

theorem lexFrom_word (h : ∀ c ∈ w, isWordChar c) (hr : Boundary rest) :
    lexFrom (.word acc) (w ++ rest) =
      (lex rest).map (Token.word (acc.reverse ++ w) :: ·) := by
  induction w generalizing acc with
  | nil =>
    cases rest with
    | nil => simp only [List.append_nil, lexFrom, lex, Option.map_some]
    | cons c cs =>
      have hc := hr c rfl
      rw [List.nil_append, lex, lexFrom_cons, lexFrom_cons, Option.map_map, List.append_nil]
      simp only [lexStep, hc, Bool.false_eq_true, if_false]
      rfl
  | cons c cs ih =>
    have hc := h c List.mem_cons_self
    rw [List.cons_append, lexFrom_cons]
    simp only [lexStep, hc, if_true]
    rw [map_nil_append, ih (fun d hd => h d (List.mem_cons_of_mem _ hd)), List.reverse_cons,
      List.append_assoc]
    rfl

theorem lexes_word (hne : w ≠ []) (h : ∀ c ∈ w, isWordChar c) : Lexes w [.word w] := by
  intro rest hr
  cases w with
  | nil => exact absurd rfl hne
  | cons c cs =>
    rw [List.cons_append, lex, lexFrom_cons]
    simp only [lexStep, lexOpen_word (h c List.mem_cons_self)]
    rw [map_nil_append, lexFrom_word (fun d hd => h d (List.mem_cons_of_mem _ hd)) hr]
    rfl

theorem lexes_sym (h : lexOpen c = ([.sym c], .start)) : Lexes [c] [.sym c] := by
  intro rest _
  rw [List.singleton_append, lex, lexFrom_cons]
  simp only [lexStep, h]
  rfl

theorem lexFrom_quoted (h : ∀ c ∈ w, c ≠ q ∧ c ≠ '\\') (rest : List Char) :
    lexFrom (.quoted q acc) (w ++ q :: rest) =
      (lex rest).map (Token.str (acc.reverse ++ w) :: ·) := by
  induction w generalizing acc with
  | nil =>
    rw [List.nil_append, lexFrom_cons, List.append_nil]
    simp only [lexStep, if_true]
    rfl
  | cons c cs ih =>
    have hc := h c List.mem_cons_self
    rw [List.cons_append, lexFrom_cons]
    simp only [lexStep, hc.1, hc.2, if_false]
    rw [map_nil_append, ih (fun d hd => h d (List.mem_cons_of_mem _ hd)), List.reverse_cons,
      List.append_assoc]
    rfl

theorem lexes_str (h : ∀ c ∈ w, c ≠ '"' ∧ c ≠ '\\') : Lexes ('"' :: w ++ ['"']) [.str w] := by
  intro rest _
  rw [List.append_assoc, List.cons_append, lex, lexFrom_cons]
  have hopen : lexStep .start '"' = ([], .quoted '"' []) := by decide
  rw [hopen]
  simp only []
  rw [map_nil_append, List.singleton_append, lexFrom_quoted h]
  rfl

theorem Lexes.glue (ha : Lexes a ta) (hb : Lexes (c :: cs) tb) (hc : isWordChar c = false) :
    Lexes (a ++ c :: cs) (ta ++ tb) := by
  apply LexesTo.append ha hb
  intro rest _
  exact boundary_cons hc

theorem Lexes.sym_append (h : lexOpen c = ([.sym c], .start)) (hb : Lexes b tb) :
    Lexes (c :: b) (.sym c :: tb) := by
  intro rest hr
  rw [List.cons_append, lex, lexFrom_cons]
  simp only [lexStep, h]
  have hl := hb rest hr
  rw [lex] at hl
  rw [hl, Option.map_map]
  rfl

theorem Lexes.space (ha : Lexes a ta) (hb : Lexes b tb) : Lexes (a ++ ' ' :: b) (ta ++ tb) :=
  LexesTo.sep_append lex_blank (fun _ => boundary_cons rfl) ha hb

theorem Lexes.join (h : List.Forall₂ Lexes chunks toks) :
    Lexes (List.intercalate [' '] chunks) toks.flatten :=
  LexesTo.intercalate lex_blank (fun _ => boundary_cons rfl) h

end AiFw.Pf
