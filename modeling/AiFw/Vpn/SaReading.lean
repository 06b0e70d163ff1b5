import AiFw.Vpn.SaDocument

namespace AiFw.Vpn
open AiFw.Lib
open AiFw.Wan (Uuid)
set_option autoImplicit true

def SasField.entry : SasField → List Char × Node
  | value key v => (key.chars, .value v.chars)
  | list key items => (key.chars, .list (items.map Word.chars))

def SaEntry.entry : SaEntry → List Char × Node
  | field f _ => f.entry
  | identity side text => (side.key, .value text.chars)

def Child.entries (c : Child) : Entries := c.fields.map SasField.entry

def childEntries (children : List Child) : Entries :=
  children.map fun c => (c.name.chars, .nested c.entries)

def Sa.entries (s : Sa) : Entries :=
  s.front.map SaEntry.entry ++
    (childSasKey, .nested (childEntries s.children)) :: s.back.map SaEntry.entry

theorem Word.ne_sign (w : Word) (h : isWhitespace c = true ∨ isStructural c = true ∨ c = '=') :
    w.chars ≠ [c] := by
  intro he
  obtain ⟨hblank, hmark, hequals⟩ := w.plain c (he ▸ List.mem_singleton_self c)
  rcases h with h | h | h
  · rw [hblank] at h
    cases h
  · rw [hmark] at h
    cases h
  · exact hequals h

theorem Word.ne_brace (w : Word) : w.chars ≠ ['{'] ∧ w.chars ≠ ['}'] ∧ w.chars ≠ ['='] :=
  ⟨w.ne_sign (by decide), w.ne_sign (by decide), w.ne_sign (by decide)⟩

theorem Word.ne_bracket (w : Word) : w.chars ≠ ['['] ∧ w.chars ≠ [']'] :=
  ⟨w.ne_sign (by decide), w.ne_sign (by decide)⟩

theorem reads_word (w : Word) (pending : Option SasToken) (rest : List SasToken) :
    parseEntries pending (w.chars :: rest) = parseEntries (some w.chars) rest :=
  parseEntries_atom pending rest w.ne_brace.1 w.ne_brace.2.1 w.ne_brace.2.2

theorem closing_notMem (items : List Word) : [']'] ∉ items.map Word.chars := by
  intro h
  obtain ⟨w, -, hw⟩ := List.mem_map.mp h
  exact w.ne_bracket.2 hw

theorem reads_field (f : SasField) : Reads f.tokens [f.entry] := by
  intro rest
  cases f with
  | value key v =>
    exact (reads_word key none _).trans
      (parseEntries_value rest key.chars v.ne_bracket.1 v.ne_brace.1 v.ne_brace.2.1)
  | list key items =>
    rw [SasField.tokens, List.cons_append, List.cons_append, List.cons_append, List.append_assoc,
      reads_word]
    exact parseEntries_list rest key.chars (closing_notMem items)

theorem reads_fields (fields : List SasField) :
    Reads (fields.flatMap SasField.tokens) (fields.map SasField.entry) := by
  rw [← List.flatMap_singleton' (fields.map SasField.entry), List.flatMap_map]
  exact Reads.flatMap reads_field fields

theorem reads_section (name : Word) {body : List SasToken}
    (h : ∀ rest, parseEntries none (body ++ ['}'] :: rest) = (es, rest)) :
    Reads (sectionTokens name.chars body) [(name.chars, .nested es)] :=
  Reads.of_section name.ne_brace.1 name.ne_brace.2.1 name.ne_brace.2.2 h

theorem reads_children (children : List Child) :
    Reads (children.flatMap Child.tokens) (childEntries children) := by
  rw [childEntries, ← List.flatMap_singleton' (children.map _), List.flatMap_map]
  exact Reads.flatMap (fun c => reads_section c.name (reads_fields c.fields).body) children

theorem Word.not_brace (w : Word) : isBrace w.chars = false := by
  simp only [isBrace, Bool.or_eq_false_iff, beq_eq_false_iff_ne]
  exact ⟨w.ne_brace.1, w.ne_brace.2.1⟩

theorem run_field (f : SasField) : Run f.tokens := by
  cases f with
  | value key v =>
    apply Run.of_plain
    · simp only [SasField.tokens, List.forall_mem_cons]
      exact ⟨key.not_brace, by decide, v.not_brace, List.forall_mem_nil _⟩
    · simp only [SasField.tokens, List.mem_cons, not_or]
      exact ⟨key.ne_bracket.1.symm, by decide, v.ne_bracket.1.symm, List.not_mem_nil⟩
  | list key items =>
    have hitems : ∀ tok ∈ items.map Word.chars, isBrace tok = false := by
      rw [List.forall_mem_map]
      exact fun w _ => w.not_brace
    apply Run.of_closed
    · simp only [SasField.tokens, List.forall_mem_cons, List.forall_mem_append]
      exact ⟨key.not_brace, by decide, by decide, hitems, by decide, List.forall_mem_nil _⟩
    · have hsplit : (SasField.list key items).tokens =
          (key.chars :: ['='] :: ['['] :: items.map Word.chars) ++ [[']']] := rfl
      rw [hsplit, List.getLast?_append]
      rfl

theorem mem_pushFragment (h : tok ∈ pushFragment frag) : ∀ c ∈ tok, c ∈ frag := by
  unfold pushFragment at h
  split at h
  · cases h
  · split at h
    · next he =>
      rw [he, ← List.mem_singleton.mp h]
      exact fun c hc => hc
    · split at h
      · next key value hsplit =>
        rw [splitOnce_eq hsplit]
        split at h
        · rw [List.mem_singleton.mp h, splitOnce_eq hsplit]
          exact fun c hc => hc
        · rcases List.mem_cons.mp h with rfl | h
          · exact fun c hc => List.mem_append_left _ hc
          · rcases List.mem_cons.mp h with rfl | h
            · intro c hc
              rw [List.mem_singleton.mp hc]
              exact List.mem_append_right _ List.mem_cons_self
            · split at h
              · cases h
              · rw [List.mem_singleton.mp h]
                exact fun c hc => List.mem_append_right _ (List.mem_cons_of_mem _ hc)
      · rw [List.mem_singleton.mp h]
        exact fun c hc => hc

/-- Text without braces and brackets has no tokens that are. -/
theorem run_text {a : List Char} (h : ∀ c ∈ a, isStructural c = false) : Run (tokenize a) := by
  have hsign : ∀ tok ∈ tokenize a, ∀ c, isStructural c = true → tok ≠ [c] := by
    rw [tokenize_eq]
    rintro tok htok c hc rfl
    obtain ⟨piece, hpiece, hsub⟩ := mem_fragments h htok
    have hmem := mem_pushFragment hpiece c (List.mem_singleton_self c)
    have hplain := h c ((hsub c hmem).resolve_left List.not_mem_nil)
    rw [hc] at hplain
    cases hplain
  apply Run.of_plain
  · intro tok htok
    simp only [isBrace, Bool.or_eq_false_iff, beq_eq_false_iff_ne]
    exact ⟨hsign tok htok '{' (by decide), hsign tok htok '}' (by decide)⟩
  · exact fun htok => hsign _ htok '[' (by decide) rfl

/-- The tokens of an identity, whatever its text. -/
theorem run_identity (form : Form) (side : Side) (text : IdentityText) :
    Run (form.identityTokens side text) := by
  cases form with
  | raw =>
    apply run_text
    rw [List.forall_mem_append, List.forall_mem_cons]
    exact ⟨fun c hc => (side.word.plain c hc).2.1, by decide, text.plain⟩
  | indented =>
    have hkey : Run [side.key, ['=']] := by
      apply Run.of_plain
      · simp only [List.forall_mem_cons]
        exact ⟨side.word.not_brace, by decide, List.forall_mem_nil _⟩
      · simp only [List.mem_cons, not_or]
        exact ⟨side.word.ne_bracket.1.symm, by decide, List.not_mem_nil⟩
    exact hkey.append (run_text text.plain)

theorem run_entry (form : Form) (e : SaEntry) : Run (e.tokens form) := by
  cases e with
  | field f other => exact run_field f
  | identity side text => exact run_identity form side text

/-- What is read in front of the section of the child SAs and after it, and the name that the section
is read with; nothing goes wrong where there is no identity. -/
structure Gaps (free free' : Prop) (n : List Char) (gap gap' : Entries) : Prop where
  flat : Flat gap
  flat' : Flat gap'
  name : n = childSasKey ∨ n = []
  front : free → gap = [] ∧ n = childSasKey
  back : free' → gap' = []

def around (fields fields' : List SasField) (children : List Child) (n : List Char)
    (gap gap' : Entries) : Entries :=
  fields.map SasField.entry ++
    (gap ++ (n, .nested (childEntries children)) :: (fields'.map SasField.entry ++ gap'))

theorem reads_gap {run : List SasToken} (h : Run run) :
    ∃ n gap, Flat gap ∧ (n = childSasKey ∨ n = []) ∧ (run = [] → gap = [] ∧ n = childSasKey) ∧
      ∀ rest, parseEntries none (run ++ childSasKey :: ['{'] :: rest) =
        ahead (gap ++ [(n, .nested (parseEntries none rest).1)])
          (parseEntries none (parseEntries none rest).2) := by
  have hopen (rest : List SasToken) : parseEntries none (childSasKey :: ['{'] :: rest) =
      ahead [(childSasKey, .nested (parseEntries none rest).1)]
        (parseEntries none (parseEntries none rest).2) :=
    (reads_word childSasWord none _).trans (parseEntries_open _ rest)
  by_cases hrun : run = []
  · subst hrun
    exact ⟨childSasKey, [], .nil, .inl rfl, fun _ => ⟨rfl, rfl⟩, hopen⟩
  · have hname : Run [childSasKey] := by
      apply Run.of_plain
      · rw [List.forall_mem_singleton]
        exact childSasWord.not_brace
      · exact fun hmem => childSasWord.ne_bracket.1 (List.mem_singleton.mp hmem).symm
    obtain ⟨gap, pending, hflat, hlast, hread⟩ :=
      @parseEntries_run ['{'] rfl _ (h.append hname) none
    refine ⟨pending.getD [], gap, hflat, ?_, fun he => absurd he hrun, ?_⟩
    · cases pending with
      | none => exact .inr rfl
      | some name =>
        have hmem := hlast name rfl
        rw [List.getLast?_append] at hmem
        exact .inl (Option.some.inj hmem).symm
    · intro rest
      have hrest := hread rest
      rw [List.append_assoc, List.singleton_append, parseEntries_open, ahead_ahead] at hrest
      exact hrest

theorem reads_end {run : List SasToken} (h : Run run) :
    ∃ gap, Flat gap ∧ (run = [] → gap = []) ∧
      ∀ rest, parseEntries none (run ++ ['}'] :: rest) = (gap, rest) := by
  by_cases hrun : run = []
  · subst hrun
    exact ⟨[], .nil, fun _ => rfl, fun _ => rfl⟩
  · obtain ⟨gap, pending, hflat, -, hread⟩ := @parseEntries_run ['}'] rfl _ h none
    refine ⟨gap, hflat, fun he => absurd he hrun, ?_⟩
    intro rest
    rw [hread, parseEntries_close, ahead, List.append_nil]

/-- The entries of an SA, as they are read around its child SAs. -/
theorem reads_around (fields fields' : List SasField) (children : List Child)
    {run run' : List SasToken} (h : Run run) (h' : Run run') :
    ∃ n gap gap', Gaps (run = []) (run' = []) n gap gap' ∧
      ∀ rest, parseEntries none ((fields.flatMap SasField.tokens ++ run) ++
          (sectionTokens childSasKey (children.flatMap Child.tokens) ++
            (fields'.flatMap SasField.tokens ++ run')) ++ ['}'] :: rest) =
        (around fields fields' children n gap gap', rest) := by
  obtain ⟨n, gap, hflat, hname, hfront, hread⟩ := reads_gap h
  obtain ⟨gap', hflat', hback, hread'⟩ := reads_end h'
  refine ⟨n, gap, gap', ⟨hflat, hflat', hname, hfront, hback⟩, ?_⟩
  intro rest
  have hchildren := (reads_children children).body
    (fields'.flatMap SasField.tokens ++ (run' ++ ['}'] :: rest))
  simp only [sectionTokens, List.append_assoc, List.cons_append, List.nil_append]
  rw [reads_fields fields, hread, hchildren, reads_fields fields', hread']
  simp only [ahead, around, List.append_assoc, List.singleton_append]

def SaEntry.isIdentity : SaEntry → Bool
  | field _ _ => false
  | identity _ _ => true

def lead : List SaEntry → List SasField
  | .field f _ :: es => f :: lead es
  | _ => []

/-- There is no identity among the entries. -/
def Free (es : List SaEntry) : Prop := ∀ e ∈ es, e.isIdentity = false

theorem lead_entries (h : Free es) : (lead es).map SasField.entry = es.map SaEntry.entry := by
  induction es with
  | nil => rfl
  | cons e es ih =>
    obtain ⟨he, hrest⟩ := List.forall_mem_cons.mp h
    cases e with
    | field f other => exact congrArg (f.entry :: ·) (ih hrest)
    | identity side text => cases he

theorem lead_append (h : Free es) (es' : List SaEntry) : lead (es ++ es') = lead es ++ lead es' := by
  induction es with
  | nil => rfl
  | cons e es ih =>
    obtain ⟨he, hrest⟩ := List.forall_mem_cons.mp h
    cases e with
    | field f other => exact congrArg (f :: ·) (ih hrest)
    | identity side text => cases he

theorem lead_before (h : Free pre) (side : Side) (text : IdentityText) (post : List SaEntry) :
    lead (pre ++ .identity side text :: post) = lead pre := by
  rw [lead_append h]
  exact List.append_nil _

theorem lead_other (h : f ∈ lead es) : IsOther f.key := by
  induction es with
  | nil => cases h
  | cons e es ih =>
    cases e with
    | field f' other =>
      rcases List.mem_cons.mp h with rfl | h
      · exact other
      · exact ih h
    | identity side text => cases h

/-- Entries are free, or there is a first identity. -/
theorem free_or_first (es : List SaEntry) : Free es ∨
    ∃ pre side text post, Free pre ∧ es = pre ++ .identity side text :: post := by
  induction es with
  | nil => exact .inl (List.forall_mem_nil _)
  | cons e es ih =>
    cases e with
    | identity side text => exact .inr ⟨[], side, text, es, List.forall_mem_nil _, rfl⟩
    | field f other =>
      obtain hfree | ⟨pre, side, text, post, hpre, rfl⟩ := ih
      · exact .inl (List.forall_mem_cons.mpr ⟨rfl, hfree⟩)
      · exact .inr ⟨.field f other :: pre, side, text, post,
          List.forall_mem_cons.mpr ⟨rfl, hpre⟩, rfl⟩

theorem not_free (pre : List SaEntry) (side : Side) (text : IdentityText) (post : List SaEntry) :
    ¬Free (pre ++ .identity side text :: post) := by
  intro h
  cases h _ (List.mem_append_right _ List.mem_cons_self)

theorem lead_tokens (h : Free es) (form : Form) :
    es.flatMap (SaEntry.tokens form) = (lead es).flatMap SasField.tokens := by
  induction es with
  | nil => rfl
  | cons e es ih =>
    obtain ⟨he, hrest⟩ := List.forall_mem_cons.mp h
    cases e with
    | field f other => exact congrArg (f.tokens ++ ·) (ih hrest)
    | identity side text => cases he

/-- The tokens of the fields before the first identity, and those from there on. -/
theorem tokens_split (form : Form) (es : List SaEntry) :
    ∃ run, Run run ∧ (Free es → run = []) ∧
      es.flatMap (SaEntry.tokens form) = (lead es).flatMap SasField.tokens ++ run := by
  obtain hfree | ⟨pre, side, text, post, hpre, rfl⟩ := free_or_first es
  · refine ⟨[], .of_plain (List.forall_mem_nil _) List.not_mem_nil, fun _ => rfl, ?_⟩
    rw [lead_tokens hfree, List.append_nil]
  · refine ⟨form.identityTokens side text ++ post.flatMap (SaEntry.tokens form),
      (run_identity form side text).append (Run.flatMap fun e _ => run_entry form e),
      fun h => absurd h (not_free _ _ _ _), ?_⟩
    rw [lead_before hpre, List.flatMap_append, lead_tokens hpre, List.flatMap_cons]
    rfl

/-- What the section of an SA can be read as, whatever the texts of its identities are. -/
def Sa.Reading (s : Sa) (es : Entries) : Prop :=
  ∃ n gap gap', Gaps (Free s.front) (Free s.back) n gap gap' ∧
    es = around (lead s.front) (lead s.back) s.children n gap gap'

/-- What the section of an SA is read as. -/
def Sa.read (form : Form) (s : Sa) : Entries :=
  (parseEntries none (s.bodyTokens form ++ [['}']])).1

theorem Sa.reads (form : Form) (s : Sa) :
    s.Reading (s.read form) ∧
      ∀ rest, parseEntries none (s.bodyTokens form ++ ['}'] :: rest) = (s.read form, rest) := by
  obtain ⟨run, hrun, hfree, htokens⟩ := tokens_split form s.front
  obtain ⟨run', hrun', hfree', htokens'⟩ := tokens_split form s.back
  obtain ⟨n, gap, gap', hgaps, hread⟩ :=
    reads_around (lead s.front) (lead s.back) s.children hrun hrun'
  rw [← htokens, ← htokens'] at hread
  have hentries : s.read form = around (lead s.front) (lead s.back) s.children n gap gap' :=
    congrArg Prod.fst (hread [])
  rw [hentries]
  exact ⟨⟨n, gap, gap', ⟨hgaps.flat, hgaps.flat', hgaps.name, fun h => hgaps.front (hfree h),
    fun h => hgaps.back (hfree' h)⟩, rfl⟩, hread⟩

theorem flat_entries (es : List SaEntry) : Flat (es.map SaEntry.entry) := by
  intro key inner h
  obtain ⟨e, -, he⟩ := List.mem_map.mp h
  cases e with
  | field f other => cases f <;> cases he
  | identity side text => cases he

theorem flat_fields (fields : List SasField) : Flat (fields.map SasField.entry) := by
  intro key inner h
  obtain ⟨f, -, hf⟩ := List.mem_map.mp h
  cases f <;> cases hf

theorem entries_split (es : List SaEntry) : ∃ gap, Flat gap ∧ (Free es → gap = []) ∧
    es.map SaEntry.entry = (lead es).map SasField.entry ++ gap := by
  obtain hfree | ⟨pre, side, text, post, hpre, rfl⟩ := free_or_first es
  · exact ⟨[], .nil, fun _ => rfl, by rw [lead_entries hfree, List.append_nil]⟩
  · refine ⟨(SaEntry.identity side text :: post).map SaEntry.entry, flat_entries _,
      fun h => absurd h (not_free _ _ _ _), ?_⟩
    rw [lead_before hpre, lead_entries hpre, List.map_append]

/-- The SA itself is a way to read it. -/
theorem Sa.reading_entries (s : Sa) : s.Reading s.entries := by
  obtain ⟨gap, hflat, hfree, hfront⟩ := entries_split s.front
  obtain ⟨gap', hflat', hfree', hback⟩ := entries_split s.back
  refine ⟨childSasKey, gap, gap', ⟨hflat, hflat', .inl rfl, fun h => ⟨hfree h, rfl⟩, hfree'⟩, ?_⟩
  rw [Sa.entries, hfront, hback, around, List.append_assoc]

theorem collect_append (a b : Entries) :
    collectAifwSections (a ++ b) = collectAifwSections a ++ collectAifwSections b := by
  induction a with
  | nil => rfl
  | cons e a ih =>
    rw [List.cons_append, collectAifwSections, collectAifwSections, ih, List.append_assoc]

theorem collect_flat (h : Flat a) : collectAifwSections a = [] := by
  induction a with
  | nil => rfl
  | cons e a ih =>
    rw [collectAifwSections, ih fun key inner hmem => h key inner (List.mem_cons_of_mem _ hmem)]
    obtain ⟨name, node⟩ := e
    cases node with
    | value v => rfl
    | list items => rfl
    | nested inner => exact absurd List.mem_cons_self (h name inner)

def isAifw (name : List Char) : Bool := aifwPrefix.isPrefixOf name

theorem collect_section (name : List Char) (inner : Entries) :
    collectAifwSections [(name, .nested inner)] =
      if isAifw name then [(name, inner)] else collectAifwSections inner := by
  rw [collectAifwSections, collectAifwSections, List.append_nil]
  rfl

/-- The child SAs that are named as an SA of ours. -/
theorem collect_children (children : List Child) : collectAifwSections (childEntries children) =
    (children.filter fun c => isAifw c.name.chars).map fun c => (c.name.chars, c.entries) := by
  induction children with
  | nil => rfl
  | cons c children ih =>
    have hcons : childEntries (c :: children) =
        [(c.name.chars, .nested c.entries)] ++ childEntries children := rfl
    rw [hcons, collect_append, collect_section, ih, Child.entries, collect_flat (flat_fields _),
      List.filter_cons]
    split
    · rfl
    · rfl

/-- Around the child SAs there are no other sections. -/
theorem collect_around (fields fields' : List SasField) (children : List Child)
    (h : Gaps free free' n gap gap') :
    collectAifwSections (around fields fields' children n gap gap') =
      collectAifwSections (childEntries children) := by
  have hname : isAifw n = false := by
    obtain rfl | rfl := h.name
    · decide
    · rfl
  have hcons (inner : Entries) (es : Entries) : (n, Node.nested inner) :: es =
      [(n, Node.nested inner)] ++ es := rfl
  rw [around, hcons]
  simp only [collect_append, collect_flat (flat_fields _), collect_flat h.flat,
    collect_flat h.flat', collect_section, hname, List.nil_append, List.append_nil]
  rfl

theorem get_append (a b : Entries) (key : List Char) :
    get (a ++ b) key = (get a key).or (get b key) := by
  rw [get, List.find?_append, Option.map_or]
  rfl

theorem get_cons_self (key : List Char) (node : Node) (es : Entries) :
    get ((key, node) :: es) key = some node := by
  simp [get]

theorem get_cons_ne (h : n ≠ key) (node : Node) (es : Entries) :
    get ((n, node) :: es) key = get es key := by
  simp [get, h]

theorem mem_of_get (h : get es key = some node) : (key, node) ∈ es := by
  obtain ⟨e, hfind, rfl⟩ := Option.map_eq_some_iff.mp h
  have hkey := List.find?_some hfind
  rw [← of_decide_eq_true hkey]
  exact List.mem_of_find?_eq_some hfind

theorem SasField.entry_key (f : SasField) : f.entry.1 = f.key := by
  cases f with
  | value key v => rfl
  | list key items => rfl

theorem get_fields_eq_none_iff {fields : List SasField} :
    get (fields.map SasField.entry) key = none ↔ ∀ f ∈ fields, f.key ≠ key := by
  simp only [get, Option.map_eq_none_iff, List.find?_eq_none, List.forall_mem_map,
    SasField.entry_key, decide_eq_true_eq, ne_eq]

theorem get_fields_isSome {fields : List SasField} (h : ∃ f ∈ fields, f.key = key) :
    (get (fields.map SasField.entry) key).isSome = true := by
  rw [Option.isSome_iff_ne_none]
  obtain ⟨f, hf, hkey⟩ := h
  exact fun hnone => get_fields_eq_none_iff.mp hnone f hf hkey

theorem or_of_isSome {a : Option α} (h : a.isSome = true) (b : Option α) : a.or b = a := by
  cases a with
  | none => cases h
  | some x => rfl

/-- The fields before the first identity of an SA. -/
def Sa.leads (s : Sa) : List SasField := lead (s.front ++ s.back)

theorem not_free_append (h : ¬Free es) (es' : List SaEntry) : lead (es ++ es') = lead es := by
  obtain hfree | ⟨pre, side, text, post, hpre, rfl⟩ := free_or_first es
  · exact absurd hfree h
  · rw [List.append_assoc, List.cons_append, lead_before hpre, lead_before hpre]

/-- A value before the first identity is read. -/
theorem get_reading {s : Sa} (h : s.Reading es) (hchild : key ≠ childSasKey)
    (hlead : ∃ f ∈ s.leads, f.key = key) : get es key = get (s.leads.map SasField.entry) key := by
  obtain ⟨n, gap, gap', hgaps, rfl⟩ := h
  have hsome := get_fields_isSome hlead
  by_cases hfree : Free s.front
  · obtain ⟨rfl, rfl⟩ := hgaps.front hfree
    rw [Sa.leads, lead_append hfree, List.map_append] at hsome ⊢
    rw [around, List.nil_append, get_append, get_cons_ne hchild.symm, get_append, ← Option.or_assoc,
      ← get_append, or_of_isSome hsome]
  · rw [Sa.leads, not_free_append hfree] at hsome ⊢
    rw [around, get_append, or_of_isSome hsome]

/-- The sections among what is read are those of the child SAs. -/
theorem nested_reading {s : Sa} {inner : Entries} (h : s.Reading es)
    (hmem : (key, .nested inner) ∈ es) :
    inner = childEntries s.children := by
  obtain ⟨n, gap, gap', hgaps, rfl⟩ := h
  simp only [around, List.mem_append, List.mem_cons] at hmem
  obtain hmem | hmem | hmem | hmem | hmem := hmem
  · exact absurd hmem (flat_fields _ key inner)
  · exact absurd hmem (hgaps.flat key inner)
  · cases hmem
    rfl
  · exact absurd hmem (flat_fields _ key inner)
  · exact absurd hmem (hgaps.flat' key inner)

theorem childSas_section {children : List Child}
    (h : get es childSasKey = some (.nested (childEntries children))) :
    childSas es = children.map fun c => parseChild c.name.chars c.entries := by
  have hget : get es "child-sas".toList = some (.nested (childEntries children)) := h
  rw [childSas, hget]
  dsimp only
  rw [childEntries, List.filterMap_map]
  exact List.filterMap_eq_map_iff_forall_eq_some.mpr fun c _ => rfl

/-- The child SAs are read, if they stand before every identity or there are none. -/
theorem childSas_reading {s : Sa} (h : s.Reading es) (hs : s.children = [] ∨ Free s.front) :
    childSas es = s.children.map fun c => parseChild c.name.chars c.entries := by
  by_cases hfree : Free s.front
  · apply childSas_section
    obtain ⟨n, gap, gap', hgaps, rfl⟩ := h
    obtain ⟨rfl, rfl⟩ := hgaps.front hfree
    have hnone : get ((lead s.front).map SasField.entry) childSasKey = none :=
      get_fields_eq_none_iff.mpr fun f hf => (lead_other hf).2
    rw [around, List.nil_append, get_append, hnone, Option.none_or, get_cons_self]
  · have hempty := hs.resolve_right hfree
    rw [hempty, List.map_nil, childSas]
    split
    · next children hget =>
      rw [nested_reading h (mem_of_get hget), hempty]
      rfl
    · rfl

def reportedKeys : List (List Char) :=
  ["state".toList, "established".toList, "remote-host".toList, "version".toList]

/-- There is no identity, or what is reported stands before the first one. -/
def Sa.Shielded (s : Sa) : Prop :=
  Free (s.front ++ s.back) ∨
    (∀ key ∈ reportedKeys, ∃ f ∈ s.leads, f.key = key) ∧ (s.children = [] ∨ Free s.front)

theorem liveStatus_congr (h : ∀ key ∈ reportedKeys, get es key = get es' key)
    (hchildren : childSas es = childSas es') (id : Uuid) (conn : List Char) :
    liveStatus id conn es = liveStatus id conn es' := by
  simp only [reportedKeys, List.forall_mem_cons] at h
  obtain ⟨hstate, hestablished, hremote, hversion, -⟩ := h
  simp only [liveStatus, getU64, getValue, hstate, hestablished, hremote, hversion, hchildren]

/-- However it is read, a shielded SA is reported the same. -/
theorem Sa.Shielded.report {s : Sa} (hs : s.Shielded) (h : s.Reading es) (h' : s.Reading es')
    (id : Uuid) (conn : List Char) : liveStatus id conn es = liveStatus id conn es' := by
  obtain hfree | ⟨hlead, hchildren⟩ := hs
  · obtain ⟨hfront, hback⟩ := List.forall_mem_append.mp hfree
    have hown {es : Entries} (h : s.Reading es) :
        es = around (lead s.front) (lead s.back) s.children childSasKey [] [] := by
      obtain ⟨n, gap, gap', hgaps, rfl⟩ := h
      obtain ⟨rfl, rfl⟩ := hgaps.front hfront
      rw [hgaps.back hback]
    rw [hown h, hown h']
  · apply liveStatus_congr
    · intro key hkey
      have hchild : key ≠ childSasKey := by
        rintro rfl
        exact absurd hkey (by decide)
      rw [get_reading h hchild (hlead key hkey), get_reading h' hchild (hlead key hkey)]
    · rw [childSas_reading h hchildren, childSas_reading h' hchildren]

end AiFw.Vpn
