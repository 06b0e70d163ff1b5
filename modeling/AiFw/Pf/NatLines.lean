import AiFw.Pf.NatRule

namespace AiFw.Pf
open AiFw.Lib AiFw.Net
set_option autoImplicit true

/-- The tokens of the line that reflects a redirection. -/
def NatRule.reflectionToks (rule : NatRule) : List Token :=
  [kw "nat", kw "on", .word rule.interface] ++ clauseToks "proto" protocolToks rule.protocol.names ++
    [kw "from", kw "any", kw "to"] ++ targetToks rule.redirect ++
    [kw "-", .sym '>', .sym '(', .word rule.interface, .sym ')']

/-- The tokens of each line, with the interface, the addresses and the redirect in their places. -/
def NatRule.lineToks (rule : NatRule) : List (List Token) :=
  translationToks rule.raw :: if rule.natType = .dnat then [rule.reflectionToks] else []

/-- Every element is one line, and pf reads it as the tokens that are meant. -/
def NatRule.Contained (rule : NatRule) : Prop :=
  List.Forall₂ (fun line toks => '\n' ∉ line ∧ lex line = some toks) rule.toPfRules rule.lineToks

/-- The words that are being read are words. -/
def Mode.Ok : Mode → Prop
  | .word acc => IsWord acc.reverse
  | _ => True

theorem lexOpen_ok (c : Char) : (lexOpen c).2.Ok ∧ ∀ w, .word w ∉ (lexOpen c).1 := by
  unfold lexOpen
  split
  · exact ⟨trivial, by simp⟩
  split
  · exact ⟨trivial, by simp⟩
  split
  · exact ⟨trivial, by simp⟩
  split
  · exact ⟨trivial, by simp⟩
  split
  · next hc =>
    refine ⟨⟨List.cons_ne_nil _ _, ?_⟩, by simp⟩
    intro d hd
    rw [List.mem_singleton.mp hd]
    exact hc
  · exact ⟨trivial, by simp⟩

theorem lexStep_ok {mode : Mode} (h : mode.Ok) (c : Char) :
    (lexStep mode c).2.Ok ∧ ∀ w, .word w ∈ (lexStep mode c).1 → IsWord w := by
  cases mode with
  | start =>
    obtain ⟨hmode, hnone⟩ := lexOpen_ok c
    exact ⟨hmode, fun w hw => absurd hw (hnone w)⟩
  | word acc =>
    unfold lexStep
    dsimp only
    split
    · next hc =>
      refine ⟨⟨?_, ?_⟩, by simp⟩
      · rw [List.reverse_cons]
        exact List.append_ne_nil_of_right_ne_nil _ (List.cons_ne_nil _ _)
      · intro d hd
        obtain rfl | hd := List.mem_cons.mp (List.mem_reverse.mp hd)
        · exact hc
        · exact h.2 d (List.mem_reverse.mpr hd)
    · obtain ⟨hmode, hnone⟩ := lexOpen_ok c
      refine ⟨hmode, ?_⟩
      intro w hw
      obtain hw | hw := List.mem_cons.mp hw
      · injection hw with hw
        rw [hw]
        exact h
      · exact absurd hw (hnone w)
  | quoted quote acc =>
    unfold lexStep
    dsimp only
    split
    · exact ⟨trivial, by simp⟩
    split
    · exact ⟨trivial, by simp⟩
    · exact ⟨trivial, by simp⟩
  | escaped quote acc =>
    unfold lexStep
    dsimp only
    split
    · exact ⟨trivial, by simp⟩
    split
    · exact ⟨trivial, by simp⟩
    · exact ⟨trivial, by simp⟩
  | comment =>
    unfold lexStep
    dsimp only
    split
    · exact ⟨trivial, by simp⟩
    · exact ⟨trivial, by simp⟩

/-- What is read as a word is one. -/
theorem isWord_of_lexFrom {mode : Mode} (h : mode.Ok) (hlex : lexFrom mode s = some toks)
    (hw : .word w ∈ toks) : IsWord w := by
  induction s generalizing mode toks with
  | nil =>
    cases mode with
    | word acc =>
      cases hlex
      injection List.mem_singleton.mp hw with hw
      rw [hw]
      exact h
    | start | comment =>
      cases hlex
      cases hw
    | quoted quote acc | escaped quote acc => cases hlex
  | cons c s ih =>
    rw [lexFrom_cons] at hlex
    obtain ⟨rest, hrest, rfl⟩ := Option.map_eq_some_iff.mp hlex
    obtain ⟨hmode, hwords⟩ := lexStep_ok h c
    obtain hw | hw := List.mem_append.mp hw
    · exact hwords w hw
    · exact ih hmode hrest hw

theorem NatRule.reflection_renders {rule : NatRule} (h : rule.Worded) :
    Renders rule.toPfRdrReflection rule.reflectionToks := by
  have hany : Renders "from any to".toList [kw "from", kw "any", kw "to"] :=
    (renders_kw "from" (by decide)).space ((renders_kw "any" (by decide)).space
      (renders_kw "to" (by decide)))
  have hline := rule.line_renders (NatRule.head_renders h "nat" (by decide))
    (PartsRender.single (hany.space (NatRule.redirect_renders h))) (NatRule.ownAddress_renders h)
  unfold NatRule.reflectionToks
  simp only [List.append_assoc, List.cons_append, List.nil_append] at hline ⊢
  exact hline

/-- The lines are contained exactly if the interface is a word. -/
theorem NatRule.contained_iff {rule : NatRule}
    (hsrc : ∀ name, rule.srcAddr = .table name → IsWord name)
    (hdst : ∀ name, rule.dstAddr = .table name → IsWord name)
    (hredirect : ∀ name, rule.redirect.address = .table name → IsWord name) :
    rule.Contained ↔ IsWord rule.interface := by
  constructor
  · intro h
    unfold NatRule.Contained NatRule.lineToks at h
    obtain ⟨line, rest, hfirst, -, -⟩ := List.forall₂_cons_right_iff.mp h
    have hword : .word rule.interface ∈ translationToks rule.raw := by
      rw [rule.translationToks_raw]
      simp [NatRule.headToks]
    have hstart : Mode.start.Ok := trivial
    exact isWord_of_lexFrom hstart hfirst.2 hword
  · intro hiface
    have hworded : rule.Worded := ⟨hiface, hsrc, hdst, hredirect⟩
    have hcontained {line toks} (h : Renders line toks) : '\n' ∉ line ∧ lex line = some toks :=
      ⟨fun hmem => (h.clean _ hmem).1 rfl, h.lexes.lex_eq⟩
    obtain ⟨line, rest, hlines, hline⟩ := NatRule.first_renders hworded
    unfold NatRule.Contained NatRule.lineToks
    rw [hlines]
    refine .cons (hcontained hline) ?_
    have hreflection := hcontained (NatRule.reflection_renders hworded)
    unfold NatRule.toPfRules at hlines
    cases htype : rule.natType with
    | dnat =>
      rw [htype] at hlines
      cases hlines
      exact .cons hreflection .nil
    | snat | masquerade | binat | nat64 | nat46 =>
      rw [htype] at hlines
      cases hlines
      exact .nil

end AiFw.Pf
