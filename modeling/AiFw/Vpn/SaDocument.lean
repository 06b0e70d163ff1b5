import AiFw.Vpn.SasParse

namespace AiFw.Vpn
open AiFw.Lib
set_option autoImplicit true

/-- A word of a document: no blank is in it, and no sign of the syntax. -/
structure Word where
  chars : List Char
  ne_nil : chars ≠ []
  plain : ∀ c ∈ chars, isWhitespace c = false ∧ isStructural c = false ∧ c ≠ '='

def isPrintable (c : Char) : Bool := 0x20 ≤ c.toNat && !(0x7F ≤ c.toNat && c.toNat ≤ 0x9F)

/-- Printable text without braces and brackets. -/
structure IdentityText where
  chars : List Char
  printable : ∀ c ∈ chars, isPrintable c = true
  plain : ∀ c ∈ chars, isStructural c = false

inductive SasField where
  | value (key value : Word)
  | list (key : Word) (items : List Word)

inductive Side where
  | here
  | remote

def plainWord (chars : List Char) (hne : chars ≠ [])
    (h : (chars.all fun c => !isWhitespace c && !isStructural c && c != '=') = true) : Word where
  chars := chars
  ne_nil := hne
  plain := by
    intro c hc
    simpa [and_assoc] using List.all_eq_true.mp h c hc

def Side.word : Side → Word
  | here => plainWord "local-id".toList (by decide) (by decide)
  | remote => plainWord "remote-id".toList (by decide) (by decide)

def childSasWord : Word := plainWord "child-sas".toList (by decide) (by decide)

def Side.key (side : Side) : List Char := side.word.chars

def childSasKey : List Char := childSasWord.chars

def SasField.key : SasField → List Char
  | value key _ => key.chars
  | list key _ => key.chars

/-- A key that is not that of an identity, and not that of the child SAs. -/
def IsOther (key : List Char) : Prop := (∀ side : Side, key ≠ side.key) ∧ key ≠ childSasKey

inductive SaEntry where
  | field (f : SasField) (other : IsOther f.key)
  | identity (side : Side) (text : IdentityText)

structure Child where
  name : Word
  fields : List SasField

/-- The section of an IKE SA, with the section of its child SAs among its entries. -/
structure Sa where
  name : Word
  front : List SaEntry
  children : List Child
  back : List SaEntry

/-- The SAs of each event. -/
abbrev SaDocument := List (List Sa)

def rawSection (name : List Char) (parts : List (List Char)) : List Char :=
  name ++ ' ' :: '{' :: ([' '].intercalate parts ++ ['}'])

def SasField.raw : SasField → List Char
  | value key v => key.chars ++ '=' :: v.chars
  | list key items => key.chars ++ '=' :: '[' :: ([' '].intercalate (items.map Word.chars) ++ [']'])

def SaEntry.raw : SaEntry → List Char
  | field f _ => f.raw
  | identity side text => side.key ++ '=' :: text.chars

def Child.raw (c : Child) : List Char := rawSection c.name.chars (c.fields.map SasField.raw)

def Sa.raw (s : Sa) : List Char :=
  rawSection s.name.chars (s.front.map SaEntry.raw ++
    rawSection childSasKey (s.children.map Child.raw) :: s.back.map SaEntry.raw)

def eventName : List Char := "list-sa event".toList

def SaDocument.raw (D : SaDocument) : List Char :=
  (D.flatMap fun sas => rawSection eventName (sas.map Sa.raw) ++ ['\n']) ++
    "list-sas reply {}\n".toList

def indented (lines : List (List Char)) : List (List Char) := lines.map fun l => ' ' :: ' ' :: l

def sectionLines (name : List Char) (body : List (List Char)) : List (List Char) :=
  (name ++ [' ', '{']) :: (indented body ++ [['}']])

def SasField.lines : SasField → List (List Char)
  | value key v => [key.chars ++ ' ' :: '=' :: ' ' :: v.chars]
  | list key items =>
    (key.chars ++ [' ', '=', ' ', '[']) :: (indented (items.map Word.chars) ++ [[']']])

def SaEntry.lines : SaEntry → List (List Char)
  | field f _ => f.lines
  | identity side text => [side.key ++ ' ' :: '=' :: ' ' :: text.chars]

def Child.lines (c : Child) : List (List Char) :=
  sectionLines c.name.chars (c.fields.flatMap SasField.lines)

def Sa.lines (s : Sa) : List (List Char) :=
  sectionLines s.name.chars (s.front.flatMap SaEntry.lines ++
    (sectionLines childSasKey (s.children.flatMap Child.lines) ++ s.back.flatMap SaEntry.lines))

def SaDocument.lines (D : SaDocument) : List (List Char) :=
  D.flatMap fun sas => sectionLines eventName (sas.flatMap Sa.lines)

inductive Form where
  | raw
  | indented

def Form.print : Form → SaDocument → List Char
  | raw, D => D.raw
  | indented, D => D.lines.flatMap fun l => l ++ ['\n']

def SasField.tokens : SasField → List SasToken
  | value key v => [key.chars, ['='], v.chars]
  | list key items => key.chars :: ['='] :: ['['] :: (items.map Word.chars ++ [[']']])

def Form.identityTokens (side : Side) (text : IdentityText) : Form → List SasToken
  | raw => tokenize (side.key ++ '=' :: text.chars)
  | indented => side.key :: ['='] :: tokenize text.chars

def SaEntry.tokens (form : Form) : SaEntry → List SasToken
  | field f _ => f.tokens
  | identity side text => form.identityTokens side text

def sectionTokens (name : SasToken) (body : List SasToken) : List SasToken :=
  name :: ['{'] :: (body ++ [['}']])

def Child.tokens (c : Child) : List SasToken :=
  sectionTokens c.name.chars (c.fields.flatMap SasField.tokens)

def Sa.bodyTokens (form : Form) (s : Sa) : List SasToken :=
  s.front.flatMap (SaEntry.tokens form) ++
    (sectionTokens childSasKey (s.children.flatMap Child.tokens) ++
      s.back.flatMap (SaEntry.tokens form))

def Sa.tokens (form : Form) (s : Sa) : List SasToken :=
  sectionTokens s.name.chars (s.bodyTokens form)

def Form.replyTokens : Form → List SasToken
  | raw => "list-sas".toList :: sectionTokens "reply".toList []
  | indented => []

def SaDocument.tokens (form : Form) (D : SaDocument) : List SasToken :=
  (D.flatMap fun sas => "list-sa".toList :: sectionTokens "event".toList
    (sas.flatMap (Sa.tokens form))) ++ form.replyTokens

theorem tokenize_eq :
    tokenize = fragments isWhitespace isStructural pushFragment (fun c => [c]) [] := by
  funext s
  exact flatMap_fragments rfl (fun w hw => by simpa using hw) s

theorem tokenize_blank (hc : isWhitespace c = true) (a b : List Char) :
    tokenize (a ++ c :: b) = tokenize a ++ tokenize b := by
  rw [tokenize_eq]
  exact fragments_append_blank hc [] a b

theorem tokenize_space (a b : List Char) : tokenize (a ++ ' ' :: b) = tokenize a ++ tokenize b :=
  tokenize_blank (by decide) a b

theorem tokenize_mark (hblank : isWhitespace c = false) (hc : isStructural c = true)
    (a b : List Char) : tokenize (a ++ c :: b) = tokenize a ++ [c] :: tokenize b := by
  rw [tokenize_eq]
  exact fragments_append_mark hblank hc [] a b

theorem tokenize_fragment {a : List Char}
    (h : ∀ c ∈ a, isWhitespace c = false ∧ isStructural c = false) :
    tokenize a = pushFragment a := by
  rw [tokenize_eq, fragments_plain h, List.nil_append]

theorem tokenize_intercalate (texts : List (List Char)) :
    tokenize ([' '].intercalate texts) = texts.flatMap tokenize := by
  have hspace : isWhitespace ' ' = true := by decide
  have hnil : pushFragment [] = [] := rfl
  rw [tokenize_eq]
  exact fragments_intercalate hspace hnil texts

theorem tokenize_lines (lines : List (List Char)) :
    tokenize (lines.flatMap fun l => l ++ ['\n']) = lines.flatMap tokenize := by
  have hnewline : isWhitespace '\n' = true := by decide
  have hnil : pushFragment [] = [] := rfl
  rw [tokenize_eq]
  exact fragments_flatMap hnewline hnil _ lines

theorem flatMap_indented (lines : List (List Char)) :
    (indented lines).flatMap tokenize = lines.flatMap tokenize := by
  rw [indented, List.flatMap_map]
  apply List.flatMap_congr
  intro l _
  exact (tokenize_space [] _).trans (tokenize_space [] l)

theorem Word.equals_notMem (w : Word) : '=' ∉ w.chars := fun h => (w.plain '=' h).2.2 rfl

theorem tokenize_word (w : Word) : tokenize w.chars = [w.chars] := by
  have hne : w.chars ≠ ['='] := fun h => w.equals_notMem (h ▸ List.mem_singleton_self _)
  rw [tokenize_fragment fun c hc => ⟨(w.plain c hc).1, (w.plain c hc).2.1⟩, pushFragment,
    if_neg w.ne_nil, if_neg hne, splitOnce_none w.equals_notMem]

theorem flatMap_words (ws : List Word) :
    (ws.map Word.chars).flatMap tokenize = ws.map Word.chars := by
  induction ws with
  | nil => rfl
  | cons w ws ih => rw [List.map_cons, List.flatMap_cons, tokenize_word, ih, List.singleton_append]

/-- The first `=` ends a key. -/
theorem pushFragment_key {key : List Char} (hne : key ≠ []) (h : '=' ∉ key) (value : List Char) :
    pushFragment (key ++ '=' :: value) =
      key :: ['='] :: (if value = [] then [] else [value]) := by
  have hequals : key ++ '=' :: value ≠ ['='] := by
    intro he
    obtain ⟨rfl, -⟩ | ⟨-, he⟩ := List.append_eq_singleton_iff.mp he
    · exact hne rfl
    · cases he
  rw [pushFragment, if_neg (by simp), if_neg hequals, splitOnce_append h]
  exact if_neg hne

theorem tokenize_rawSection (name : List Char) (parts : List (List Char)) :
    tokenize (rawSection name parts) =
      tokenize name ++ ['{'] :: (parts.flatMap tokenize ++ [['}']]) := by
  rw [rawSection, tokenize_space]
  have hopen := tokenize_mark (c := '{') (by decide) (by decide) []
    ([' '].intercalate parts ++ ['}'])
  have hclose := tokenize_mark (c := '}') (by decide) (by decide) ([' '].intercalate parts) []
  rw [List.nil_append] at hopen
  rw [hopen, hclose, tokenize_intercalate]
  rfl

theorem flatMap_sectionLines (name : List Char) (body : List (List Char)) :
    (sectionLines name body).flatMap tokenize =
      tokenize name ++ ['{'] :: (body.flatMap tokenize ++ [['}']]) := by
  rw [sectionLines, List.flatMap_cons, tokenize_space, List.flatMap_append, flatMap_indented,
    List.append_assoc]
  rfl

theorem tokenize_key (key : Word) {value : List Char}
    (h : ∀ c ∈ value, isWhitespace c = false ∧ isStructural c = false) :
    tokenize (key.chars ++ '=' :: value) =
      key.chars :: ['='] :: (if value = [] then [] else [value]) := by
  rw [tokenize_fragment, pushFragment_key key.ne_nil key.equals_notMem]
  intro c hc
  rcases List.mem_append.mp hc with hc | hc
  · exact ⟨(key.plain c hc).1, (key.plain c hc).2.1⟩
  · rcases List.mem_cons.mp hc with rfl | hc
    · exact ⟨by decide, by decide⟩
    · exact h c hc

theorem tokenize_line (key : Word) (rest : List Char) :
    tokenize (key.chars ++ ' ' :: '=' :: ' ' :: rest) = key.chars :: ['='] :: tokenize rest := by
  have hequals := tokenize_space ['='] rest
  rw [List.singleton_append] at hequals
  rw [tokenize_space, hequals, tokenize_word]
  rfl

theorem tokenize_field (f : SasField) : tokenize f.raw = f.tokens := by
  cases f with
  | value key v =>
    rw [SasField.raw, tokenize_key key fun c hc => ⟨(v.plain c hc).1, (v.plain c hc).2.1⟩,
      if_neg v.ne_nil]
    rfl
  | list key items =>
    have hopen := tokenize_mark (c := '[') (by decide) (by decide) (key.chars ++ ['='])
      ([' '].intercalate (items.map Word.chars) ++ [']'])
    have hclose := tokenize_mark (c := ']') (by decide) (by decide)
      ([' '].intercalate (items.map Word.chars)) []
    rw [List.append_assoc, List.singleton_append] at hopen
    rw [SasField.raw, hopen, hclose, tokenize_key key (List.forall_mem_nil _), tokenize_intercalate,
      flatMap_words]
    rfl

theorem flatMap_field (f : SasField) : f.lines.flatMap tokenize = f.tokens := by
  cases f with
  | value key v =>
    rw [SasField.lines, List.flatMap_singleton, tokenize_line, tokenize_word]
    rfl
  | list key items =>
    have hline : tokenize (key.chars ++ [' ', '=', ' ', '[']) = [key.chars, ['='], ['[']] :=
      tokenize_line key ['[']
    rw [SasField.lines, List.flatMap_cons, hline, List.flatMap_append, flatMap_indented,
      flatMap_words]
    rfl

theorem tokenize_entry (e : SaEntry) : tokenize e.raw = e.tokens .raw := by
  cases e with
  | field f other => exact tokenize_field f
  | identity side text => rfl

theorem flatMap_entry (e : SaEntry) : e.lines.flatMap tokenize = e.tokens .indented := by
  cases e with
  | field f other => exact flatMap_field f
  | identity side text =>
    rw [SaEntry.lines, List.flatMap_singleton]
    exact tokenize_line side.word text.chars

theorem flatMap_flatMap_tokens {f : α → List (List Char)} {g : α → List SasToken}
    (h : ∀ x, (f x).flatMap tokenize = g x) (xs : List α) :
    (xs.flatMap f).flatMap tokenize = xs.flatMap g := by
  rw [List.flatMap_assoc]
  exact List.flatMap_congr fun x _ => h x

theorem flatMap_map_tokens {f : α → List Char} {g : α → List SasToken}
    (h : ∀ x, tokenize (f x) = g x) (xs : List α) :
    (xs.map f).flatMap tokenize = xs.flatMap g := by
  rw [List.flatMap_map]
  exact List.flatMap_congr fun x _ => h x

theorem tokenize_child (c : Child) : tokenize c.raw = c.tokens := by
  rw [Child.raw, tokenize_rawSection, tokenize_word, flatMap_map_tokens tokenize_field]
  rfl

theorem flatMap_child (c : Child) : c.lines.flatMap tokenize = c.tokens := by
  rw [Child.lines, flatMap_sectionLines, tokenize_word, flatMap_flatMap_tokens flatMap_field]
  rfl

theorem tokenize_sa (s : Sa) : tokenize s.raw = s.tokens .raw := by
  have hchildren : tokenize (rawSection childSasKey (s.children.map Child.raw)) =
      sectionTokens childSasKey (s.children.flatMap Child.tokens) := by
    rw [tokenize_rawSection, childSasKey, tokenize_word, flatMap_map_tokens tokenize_child]
    rfl
  rw [Sa.raw, tokenize_rawSection, tokenize_word, List.flatMap_append, List.flatMap_cons,
    hchildren, flatMap_map_tokens tokenize_entry, flatMap_map_tokens tokenize_entry]
  rfl

theorem flatMap_sa (s : Sa) : s.lines.flatMap tokenize = s.tokens .indented := by
  have hchildren : (sectionLines childSasKey (s.children.flatMap Child.lines)).flatMap tokenize =
      sectionTokens childSasKey (s.children.flatMap Child.tokens) := by
    rw [flatMap_sectionLines, childSasKey, tokenize_word, flatMap_flatMap_tokens flatMap_child]
    rfl
  rw [Sa.lines, flatMap_sectionLines, tokenize_word, List.flatMap_append, List.flatMap_append,
    hchildren, flatMap_flatMap_tokens flatMap_entry, flatMap_flatMap_tokens flatMap_entry]
  rfl

/-- What is read of a document as text are its tokens. -/
theorem tokenize_print (form : Form) (D : SaDocument) :
    tokenize (form.print D) = D.tokens form := by
  have hname : tokenize eventName = ["list-sa".toList, "event".toList] := by decide +kernel
  cases form with
  | raw =>
    have hevents (D : SaDocument) (rest : List Char) :
        tokenize ((D.flatMap fun sas => rawSection eventName (sas.map Sa.raw) ++ ['\n']) ++ rest) =
          (D.flatMap fun sas => "list-sa".toList :: sectionTokens "event".toList
            (sas.flatMap (Sa.tokens .raw))) ++ tokenize rest := by
      induction D with
      | nil => rfl
      | cons sas D ih =>
        rw [List.flatMap_cons, List.append_assoc, List.append_assoc, List.singleton_append,
          tokenize_blank (by decide), ih, tokenize_rawSection, hname,
          flatMap_map_tokens tokenize_sa, List.flatMap_cons]
        simp only [sectionTokens, List.append_assoc, List.cons_append, List.nil_append]
    have hreply : tokenize "list-sas reply {}\n".toList = Form.raw.replyTokens := by decide +kernel
    exact (hevents D _).trans (congrArg (_ ++ ·) hreply)
  | indented =>
    have hevent (sas : List Sa) : (sectionLines eventName (sas.flatMap Sa.lines)).flatMap tokenize =
        "list-sa".toList :: sectionTokens "event".toList
          (sas.flatMap (Sa.tokens .indented)) := by
      rw [flatMap_sectionLines, hname, flatMap_flatMap_tokens flatMap_sa]
      rfl
    rw [Form.print, tokenize_lines, SaDocument.lines, flatMap_flatMap_tokens hevent]
    exact (List.append_nil _).symm

end AiFw.Vpn
