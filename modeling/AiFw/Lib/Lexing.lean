import AiFw.Lib.TextSearch
import Mathlib.Data.List.Forall2

namespace AiFw.Lib
set_option autoImplicit true

section
variable {α τ : Type} {lex : List α → Option (List τ)} {Boundary : List α → Prop}

/-- At a boundary of the text that follows, reading goes over the chunk alone and gives its
tokens. -/
def LexesTo (lex : List α → Option (List τ)) (Boundary : List α → Prop)
    (chunk : List α) (toks : List τ) : Prop :=
  ∀ rest, Boundary rest → lex (chunk ++ rest) = (lex rest).map (toks ++ ·)

theorem LexesTo.nil : LexesTo lex Boundary [] [] := by
  intro rest _
  cases h : lex rest <;> simp only [List.nil_append, h, Option.map_none, Option.map_some]

theorem LexesTo.append (ha : LexesTo lex Boundary a ta) (hb : LexesTo lex Boundary b tb)
    (hjoin : ∀ rest, Boundary rest → Boundary (b ++ rest)) :
    LexesTo lex Boundary (a ++ b) (ta ++ tb) := by
  intro rest hr
  rw [List.append_assoc, ha _ (hjoin rest hr), hb rest hr, Option.map_map]
  congr 1
  funext toks
  rw [Function.comp_apply, List.append_assoc]

theorem LexesTo.whole (h : LexesTo lex Boundary chunk toks) (hend : Boundary [])
    (hnil : lex [] = some []) : lex chunk = some toks := by
  have hw := h [] hend
  rw [List.append_nil, hnil, Option.map_some, List.append_nil] at hw
  exact hw

section
variable {sep : List α} (hskip : ∀ rest, lex (sep ++ rest) = lex rest)
  (hbreak : ∀ rest, Boundary (sep ++ rest))
include hskip hbreak

theorem LexesTo.sep_append (ha : LexesTo lex Boundary a ta) (hb : LexesTo lex Boundary b tb) :
    LexesTo lex Boundary (a ++ (sep ++ b)) (ta ++ tb) := by
  have hsb : LexesTo lex Boundary (sep ++ b) tb := by
    intro rest hr
    rw [List.append_assoc, hskip]
    exact hb rest hr
  apply ha.append hsb
  intro rest _
  rw [List.append_assoc]
  exact hbreak _

theorem LexesTo.intercalate (h : List.Forall₂ (LexesTo lex Boundary) chunks toks) :
    LexesTo lex Boundary (List.intercalate sep chunks) toks.flatten := by
  induction h with
  | nil => exact .nil
  | @cons a ta as tas ha has ih =>
    cases has with
    | nil =>
      rw [List.intercalate_singleton, List.flatten_cons, List.flatten_nil, List.append_nil]
      exact ha
    | @cons b tb bs tbs hb hbs =>
      rw [List.intercalate_cons_cons, List.flatten_cons, List.append_assoc]
      exact LexesTo.sep_append hskip hbreak ha ih

end

end

section
variable {α τ : Type} (blank mark : α → Bool) (emit : List α → List τ) (sign : α → τ)

/-- The tokens of a text: what is emitted for each fragment between blanks and marks, and each mark
by itself. The fragment that the text goes on with comes first. -/
def fragments (frag : List α) : List α → List τ
  | [] => emit frag
  | c :: cs =>
    if blank c then emit frag ++ fragments [] cs
    else if mark c then emit frag ++ sign c :: fragments [] cs
    else fragments (frag ++ [c]) cs

variable {blank mark emit sign}

theorem fragments_append_blank (hc : blank c = true) (frag a b : List α) :
    fragments blank mark emit sign frag (a ++ c :: b) =
      fragments blank mark emit sign frag a ++ fragments blank mark emit sign [] b := by
  induction a generalizing frag with
  | nil => simp only [List.nil_append, fragments, hc, if_true]
  | cons d a ih =>
    rw [List.cons_append, fragments, fragments]
    split
    · rw [ih, List.append_assoc]
    · split
      · rw [ih, List.append_assoc, List.cons_append]
      · exact ih _

theorem fragments_append_mark (hblank : blank c = false) (hc : mark c = true) (frag a b : List α) :
    fragments blank mark emit sign frag (a ++ c :: b) =
      fragments blank mark emit sign frag a ++ sign c :: fragments blank mark emit sign [] b := by
  induction a generalizing frag with
  | nil => simp only [List.nil_append, fragments, hblank, hc, Bool.false_eq_true, if_false, if_true]
  | cons d a ih =>
    rw [List.cons_append, fragments, fragments]
    split
    · rw [ih, List.append_assoc]
    · split
      · rw [ih, List.append_assoc, List.cons_append]
      · exact ih _

/-- A fragment alone. -/
theorem fragments_plain (h : ∀ c ∈ a, blank c = false ∧ mark c = false) (frag : List α) :
    fragments blank mark emit sign frag a = emit (frag ++ a) := by
  induction a generalizing frag with
  | nil => rw [fragments, List.append_nil]
  | cons c a ih =>
    obtain ⟨⟨hblank, hmark⟩, hrest⟩ := List.forall_mem_cons.mp h
    rw [fragments, if_neg (Bool.not_eq_true _ ▸ hblank), if_neg (Bool.not_eq_true _ ▸ hmark),
      ih hrest, List.append_assoc, List.singleton_append]

/-- A token of a text without marks is emitted for signs of the text. -/
theorem mem_fragments (h : ∀ c ∈ a, mark c = false)
    (ht : t ∈ fragments blank mark emit sign frag a) :
    ∃ piece, t ∈ emit piece ∧ ∀ c ∈ piece, c ∈ frag ∨ c ∈ a := by
  induction a generalizing frag with
  | nil => exact ⟨frag, ht, fun c hc => .inl hc⟩
  | cons c a ih =>
    obtain ⟨hmark, hrest⟩ := List.forall_mem_cons.mp h
    rw [fragments, hmark] at ht
    split at ht
    · rcases List.mem_append.mp ht with ht | ht
      · exact ⟨frag, ht, fun d hd => .inl hd⟩
      · obtain ⟨piece, hpiece, hsub⟩ := ih hrest ht
        refine ⟨piece, hpiece, fun d hd => .inr (List.mem_cons_of_mem _ ?_)⟩
        exact (hsub d hd).resolve_left List.not_mem_nil
    · obtain ⟨piece, hpiece, hsub⟩ := ih hrest ht
      refine ⟨piece, hpiece, ?_⟩
      intro d hd
      rcases hsub d hd with hfrag | ha
      · rcases List.mem_append.mp hfrag with hfrag | hc
        · exact .inl hfrag
        · exact .inr (List.mem_singleton.mp hc ▸ List.mem_cons_self)
      · exact .inr (List.mem_cons_of_mem _ ha)

/-- Texts with a blank after each of them. -/
theorem fragments_flatMap (hc : blank c = true) (hnil : emit [] = []) (text : β → List α)
    (xs : List β) :
    fragments blank mark emit sign [] (xs.flatMap fun x => text x ++ [c]) =
      xs.flatMap fun x => fragments blank mark emit sign [] (text x) := by
  induction xs with
  | nil => exact hnil
  | cons x xs ih =>
    rw [List.flatMap_cons, List.append_assoc, List.singleton_append, fragments_append_blank hc, ih,
      List.flatMap_cons]

/-- Texts with a blank between them. -/
theorem fragments_intercalate (hc : blank c = true) (hnil : emit [] = []) (texts : List (List α)) :
    fragments blank mark emit sign [] ([c].intercalate texts) =
      texts.flatMap (fragments blank mark emit sign []) := by
  induction texts with
  | nil => exact hnil
  | cons text texts ih =>
    cases texts with
    | nil => rw [List.intercalate_singleton, List.flatMap_cons, List.flatMap_nil, List.append_nil]
    | cons text' texts =>
      rw [List.intercalate_cons_cons, List.append_assoc, List.singleton_append,
        fragments_append_blank hc, ih]
      rfl

/-- The pieces between blanks, and the marks of each of them then. -/
theorem flatMap_splitOnP (h : a.splitOnP blank = w :: ws) (frag : List α) :
    fragments (fun _ => false) mark emit sign frag w ++
        ws.flatMap (fragments (fun _ => false) mark emit sign []) =
      fragments blank mark emit sign frag a := by
  induction a generalizing frag w ws with
  | nil =>
    cases h
    exact List.append_nil _
  | cons c a ih =>
    rw [List.splitOnP_cons_eq_if_modifyHead] at h
    obtain ⟨w', ws', hrest⟩ := List.exists_cons_of_ne_nil (List.splitOnP_ne_nil blank a)
    rw [hrest] at h
    rw [fragments]
    split at h
    · next hblank =>
      cases h
      rw [if_pos hblank, ← ih hrest []]
      rfl
    · next hblank =>
      cases h
      rw [if_neg hblank, fragments, if_neg Bool.false_ne_true]
      split
      · rw [← ih hrest [], List.append_assoc, List.cons_append]
      · exact ih hrest _

/-- Words first, and the marks of each of them then; nothing is lost with an empty word. -/
theorem flatMap_fragments (hnil : emit [] = []) {keep : List α → Bool}
    (hkeep : ∀ w, keep w = false → w = []) (a : List α) :
    ((a.splitOnP blank).filter keep).flatMap (fragments (fun _ => false) mark emit sign []) =
      fragments blank mark emit sign [] a := by
  have hskip (ws : List (List α)) :
      (ws.filter keep).flatMap (fragments (fun _ => false) mark emit sign []) =
        ws.flatMap (fragments (fun _ => false) mark emit sign []) := by
    induction ws with
    | nil => rfl
    | cons w ws ih =>
      rw [List.filter_cons, List.flatMap_cons]
      split
      · rw [List.flatMap_cons, ih]
      · next hw =>
        rw [hkeep w (Bool.not_eq_true _ ▸ hw), fragments, hnil, ih, List.nil_append]
  obtain ⟨w, ws, h⟩ := List.exists_cons_of_ne_nil (List.splitOnP_ne_nil blank a)
  rw [hskip, h, List.flatMap_cons, flatMap_splitOnP h]

end

end AiFw.Lib
