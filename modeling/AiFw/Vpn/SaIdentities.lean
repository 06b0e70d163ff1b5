import AiFw.Vpn.SaReading

namespace AiFw.Vpn
open AiFw.Lib
open AiFw.Wan (Uuid)
set_option autoImplicit true

section
variable {α : Type} {R S : α → α → Prop}

def OneChanged (R : α → α → Prop) (l l' : List α) : Prop :=
  ∃ front x x' back, R x x' ∧ l = front ++ x :: back ∧ l' = front ++ x' :: back

theorem OneChanged.forall₂ {l l' : List α} (h : OneChanged R l l') (hrefl : ∀ x, S x x)
    (hchange : ∀ x x', R x x' → S x x') : List.Forall₂ S l l' := by
  obtain ⟨front, x, x', back, hx, rfl, rfl⟩ := h
  exact List.rel_append (List.forall₂_same.mpr fun y _ => hrefl y)
    (.cons (hchange x x' hx) (List.forall₂_same.mpr fun y _ => hrefl y))

theorem OneChanged.flatten {L L' : List (List α)} (h : OneChanged (OneChanged R) L L') :
    OneChanged R L.flatten L'.flatten := by
  obtain ⟨front, l, l', back, ⟨a, x, x', b, hx, rfl, rfl⟩, rfl, rfl⟩ := h
  refine ⟨front.flatten ++ a, x, x', b ++ back.flatten, hx, ?_, ?_⟩
  · simp only [List.flatten_append, List.flatten_cons, List.append_assoc, List.cons_append]
  · simp only [List.flatten_append, List.flatten_cons, List.append_assoc, List.cons_append]

/-- A change of a member of one of the lists. -/
theorem exists_changed {L : List (List α)} (h : L.flatten = front ++ x :: back) (hx : R x x') :
    ∃ L', OneChanged (OneChanged R) L L' ∧ L'.flatten = front ++ x' :: back := by
  induction L generalizing front with
  | nil => cases (List.append_eq_nil_iff.mp h.symm).2
  | cons l L ih =>
    have hlater {front : List α} (h : L.flatten = front ++ x :: back) :
        ∃ L', OneChanged (OneChanged R) (l :: L) L' ∧ L'.flatten = l ++ (front ++ x' :: back) := by
      obtain ⟨L', ⟨a, y, y', b, hy, rfl, rfl⟩, hflat⟩ := ih h
      exact ⟨l :: (a ++ y' :: b), ⟨l :: a, y, y', b, hy, rfl, rfl⟩, congrArg (l ++ ·) hflat⟩
    rw [List.flatten_cons] at h
    obtain ⟨mid, rfl, hmid⟩ | ⟨mid, rfl, hmid⟩ := List.append_eq_append_iff.mp h
    · obtain ⟨L', hL', hflat⟩ := hlater hmid
      exact ⟨L', hL', by rw [hflat, List.append_assoc]⟩
    · cases mid with
      | nil =>
        obtain ⟨L', hL', hflat⟩ := @hlater [] hmid.symm
        exact ⟨L', hL', by rw [hflat, List.append_nil, List.nil_append]⟩
      | cons y mid =>
        obtain ⟨rfl, rfl⟩ := List.cons_eq_cons.mp hmid
        exact ⟨(front ++ x' :: mid) :: L, ⟨[], _, _, L, ⟨front, x, x', mid, hx, rfl, rfl⟩, rfl, rfl⟩,
          List.append_assoc ..⟩

end

inductive SaEntry.Replaced : SaEntry → SaEntry → Prop where
  | identity (side : Side) (text text' : IdentityText) :
      Replaced (.identity side text) (.identity side text')

/-- The SA with another text in one of its identities. -/
inductive Sa.Replaced (s : Sa) : Sa → Prop where
  | front {entries : List SaEntry} (h : OneChanged SaEntry.Replaced s.front entries) :
      Replaced s { s with front := entries }
  | back {entries : List SaEntry} (h : OneChanged SaEntry.Replaced s.back entries) :
      Replaced s { s with back := entries }

def SaDocument.Replaced (D D' : SaDocument) : Prop := OneChanged (OneChanged Sa.Replaced) D D'

theorem free_replaced (h : OneChanged SaEntry.Replaced es es') : ¬Free es ∧ ¬Free es' := by
  obtain ⟨pre, e, e', post, ⟨side, text, text'⟩, rfl, rfl⟩ := h
  exact ⟨not_free _ _ _ _, not_free _ _ _ _⟩

theorem lead_replaced (h : OneChanged SaEntry.Replaced es es') : lead es' = lead es := by
  obtain ⟨pre, e, e', post, ⟨side, text, text'⟩, rfl, rfl⟩ := h
  induction pre with
  | nil => rfl
  | cons e pre ih =>
    cases e with
    | field f other => exact congrArg (f :: ·) ih
    | identity side text => rfl

/-- Another text gives no other way to read an SA. -/
theorem Sa.Replaced.reading {s s' : Sa} (h : s.Replaced s') (hs' : s'.Reading es) :
    s.Reading es := by
  obtain ⟨n, gap, gap', hgaps, rfl⟩ := hs'
  cases h with
  | front h =>
    refine ⟨n, gap, gap', ⟨hgaps.flat, hgaps.flat', hgaps.name,
      fun hfree => absurd hfree (free_replaced h).1, hgaps.back⟩, ?_⟩
    rw [lead_replaced h]
  | back h =>
    refine ⟨n, gap, gap', ⟨hgaps.flat, hgaps.flat', hgaps.name, hgaps.front,
      fun hfree => absurd hfree (free_replaced h).1⟩, ?_⟩
    rw [lead_replaced h]

def stray : Word := plainWord ['x'] (by decide) (by decide)

/-- A word, and an entry after it. -/
def forgedText (key value : Word) (h : (key.chars ++ value.chars).all isPrintable = true) :
    IdentityText where
  chars := stray.chars ++ ' ' :: (key.chars ++ '=' :: value.chars)
  printable := by
    rw [List.all_eq_true, List.forall_mem_append] at h
    simp only [List.forall_mem_append, List.forall_mem_cons]
    exact ⟨List.all_eq_true.mp (by decide), by decide, h.1, by decide, h.2⟩
  plain := by
    simp only [List.forall_mem_append, List.forall_mem_cons]
    exact ⟨fun c hc => (stray.plain c hc).2.1, by decide, fun c hc => (key.plain c hc).2.1, by decide,
      fun c hc => (value.plain c hc).2.1⟩

theorem forged_tokens (form : Form) (side : Side) (key value : Word)
    (h : (key.chars ++ value.chars).all isPrintable = true) :
    form.identityTokens side (forgedText key value h) =
      [SasField.value side.word stray, .value key value].flatMap SasField.tokens := by
  have hentry : tokenize (key.chars ++ '=' :: value.chars) = (SasField.value key value).tokens :=
    tokenize_field (.value key value)
  cases form with
  | raw =>
    have hfirst : tokenize (side.word.chars ++ '=' :: stray.chars) =
        (SasField.value side.word stray).tokens := tokenize_field (.value side.word stray)
    have hsplit : side.key ++ '=' :: (forgedText key value h).chars =
        (side.word.chars ++ '=' :: stray.chars) ++ ' ' :: (key.chars ++ '=' :: value.chars) := by
      simp only [forgedText, Side.key, List.append_assoc, List.cons_append]
    rw [Form.identityTokens, hsplit, tokenize_space, hfirst, hentry]
    rfl
  | indented =>
    rw [Form.identityTokens, forgedText, tokenize_space, hentry, tokenize_word]
    rfl

section
variable {s : Sa} {key value : Word} (h : (key.chars ++ value.chars).all isPrintable = true)
  (hside : ∀ side : Side, side.key ≠ key.chars)

theorem forged_entries {pre : List SaEntry} (hpre : Free pre) (form : Form) (side : Side)
    (post : List SaEntry) :
    (pre ++ SaEntry.identity side (forgedText key value h) :: post).flatMap
        (SaEntry.tokens form) =
      (lead pre ++ [SasField.value side.word stray, .value key value]).flatMap SasField.tokens ++
        post.flatMap (SaEntry.tokens form) := by
  rw [List.flatMap_append, List.flatMap_cons, SaEntry.tokens, forged_tokens, lead_tokens hpre,
    List.flatMap_append, List.append_assoc]

include hside

theorem get_forged {fields : List SasField} (hlead : ∀ f ∈ fields, f.key ≠ key.chars) (side : Side) :
    get ((fields ++ [SasField.value side.word stray, .value key value]).map SasField.entry)
      key.chars = some (.value value.chars) := by
  rw [List.map_append, get_append, get_fields_eq_none_iff.mpr hlead, Option.none_or]
  exact (get_cons_ne (hside side) _ _).trans (get_cons_self _ _ _)

include h

theorem forged_front {side : Side} {text : IdentityText} {pre post : List SaEntry}
    (hs : s.front = pre ++ SaEntry.identity side text :: post) (hpre : Free pre)
    (hlead : ∀ f ∈ lead pre, f.key ≠ key.chars) :
    ∃ s', s.Replaced s' ∧ ∀ form, get (s'.read form) key.chars = some (.value value.chars) := by
  refine ⟨{ s with front := pre ++ SaEntry.identity side (forgedText key value h) :: post },
    .front ⟨pre, _, _, post, .identity side text _, hs, rfl⟩, ?_⟩
  intro form
  obtain ⟨run', hrun', -, htokens'⟩ := tokens_split form s.back
  have hrun : Run (post.flatMap (SaEntry.tokens form)) := Run.flatMap fun e _ => run_entry form e
  obtain ⟨n, gap, gap', -, hread⟩ :=
    reads_around (lead pre ++ [SasField.value side.word stray, .value key value]) (lead s.back)
      s.children hrun hrun'
  rw [← forged_entries h hpre, ← htokens'] at hread
  rw [Sa.read, Sa.bodyTokens, hread, around, get_append, get_forged hside hlead]
  rfl

theorem forged_back {side : Side} {text : IdentityText} {pre post : List SaEntry}
    (hfront : Free s.front) (hs : s.back = pre ++ SaEntry.identity side text :: post)
    (hpre : Free pre) (hchild : key.chars ≠ childSasKey)
    (hlead : ∀ f ∈ lead s.front ++ lead pre, f.key ≠ key.chars) :
    ∃ s', s.Replaced s' ∧ ∀ form, get (s'.read form) key.chars = some (.value value.chars) := by
  refine ⟨{ s with back := pre ++ SaEntry.identity side (forgedText key value h) :: post },
    .back ⟨pre, _, _, post, .identity side text _, hs, rfl⟩, ?_⟩
  intro form
  have hrun : Run (post.flatMap (SaEntry.tokens form)) := Run.flatMap fun e _ => run_entry form e
  obtain ⟨n, gap, gap', hgaps, hread⟩ := reads_around (lead s.front)
    (lead pre ++ [SasField.value side.word stray, .value key value]) s.children
    (Run.of_plain (List.forall_mem_nil _) List.not_mem_nil) hrun
  rw [List.append_nil, ← lead_tokens hfront form, ← forged_entries h hpre] at hread
  obtain ⟨rfl, rfl⟩ := hgaps.front rfl
  obtain ⟨hleadFront, hleadBack⟩ := List.forall_mem_append.mp hlead
  rw [Sa.read, Sa.bodyTokens, hread, around, List.nil_append, get_append,
    get_fields_eq_none_iff.mpr hleadFront, Option.none_or, get_cons_ne hchild.symm, get_append,
    get_forged hside hleadBack]
  rfl

/-- What does not stand before the first identity can be forged. -/
theorem exists_forged (hid : ¬Free (s.front ++ s.back)) (hlead : ∀ f ∈ s.leads, f.key ≠ key.chars)
    (hchild : key.chars = childSasKey → ¬Free s.front) :
    ∃ s', s.Replaced s' ∧ ∀ form, get (s'.read form) key.chars = some (.value value.chars) := by
  obtain hfree | ⟨pre, side, text, post, hpre, hfront⟩ := free_or_first s.front
  · obtain hfree' | ⟨pre, side, text, post, hpre, hback⟩ := free_or_first s.back
    · exact absurd (List.forall_mem_append.mpr ⟨hfree, hfree'⟩) hid
    · rw [Sa.leads, lead_append hfree, hback, lead_before hpre] at hlead
      exact forged_back h hside hfree hback hpre (fun he => hchild he hfree) hlead
  · rw [Sa.leads, hfront, List.append_assoc, List.cons_append, lead_before hpre] at hlead
    exact forged_front h hside hfront hpre hlead

end

end AiFw.Vpn
