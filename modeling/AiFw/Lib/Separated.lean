import AiFw.Lib.Numerals
import AiFw.Lib.Text
import Mathlib.Data.List.TakeWhile

namespace AiFw.Lib
set_option autoImplicit true

theorem splitOn_eq (sep : Char) (s : List Char) : splitOn sep s = s.splitOn sep := by
  induction s with
  | nil => rfl
  | cons c cs ih =>
    rw [List.splitOn_cons_eq_if_modifyHead, splitOn]
    by_cases hc : c = sep
    · rw [if_pos hc, if_pos (beq_iff_eq.mpr hc), ih]
    · rw [if_neg hc, if_neg (mt beq_iff_eq.mp hc), ih]
      cases hs : cs.splitOn sep with
      | nil => exact absurd hs (List.splitOn_ne_nil sep cs)
      | cons p ps => rfl

theorem splitOn_append_cons (sep : Char) (a b : List Char) :
    splitOn sep (a ++ sep :: b) = splitOn sep a ++ splitOn sep b := by
  rw [splitOn_eq, splitOn_eq, splitOn_eq]
  exact List.splitOn_append_cons_self a b

theorem splitOn_of_notMem (h : sep ∉ s) : splitOn sep s = [s] := by
  rw [splitOn_eq]
  exact List.splitOn_eq_singleton h

theorem splitOn_ne_nil (sep : Char) (s : List Char) : splitOn sep s ≠ [] := by
  rw [splitOn_eq]
  exact List.splitOn_ne_nil sep s

theorem splitOn_intercalate {parts : List (List Char)} (h : ∀ p ∈ parts, sep ∉ p)
    (hne : parts ≠ []) : splitOn sep ([sep].intercalate parts) = parts := by
  rw [splitOn_eq]
  exact List.splitOn_intercalate sep h hne

/-- A sign that is in none of the words is not between them either. -/
theorem notMem_intercalate_blank {ws : List (List Char)} (h : ∀ w ∈ ws, c ∉ w) (hc : c ≠ ' ') :
    c ∉ [' '].intercalate ws := by
  induction ws with
  | nil => exact List.not_mem_nil
  | cons w ws ih =>
    rw [List.forall_mem_cons] at h
    cases ws with
    | nil =>
      rw [List.intercalate_singleton]
      exact h.1
    | cons v rest =>
      rw [List.intercalate_cons_cons, List.mem_append, List.mem_append, List.mem_singleton, not_or,
        not_or]
      exact ⟨⟨h.1, hc⟩, ih h.2⟩

theorem splitOnce_eq (h : splitOnce sep s = some (a, b)) : s = a ++ sep :: b := by
  induction s generalizing a with
  | nil => cases h
  | cons c cs ih =>
    rw [splitOnce] at h
    by_cases hc : c = sep
    · rw [if_pos hc] at h
      cases h
      rw [hc, List.nil_append]
    · rw [if_neg hc] at h
      obtain ⟨⟨a', b'⟩, hsplit, hp⟩ := Option.map_eq_some_iff.mp h
      cases hp
      rw [ih hsplit, List.cons_append]

theorem mem_trimStart (h : c ∈ s) : isWhitespace c = true ∨ c ∈ trimStart s := by
  rw [← List.takeWhile_append_dropWhile (p := isWhitespace) (l := s), List.mem_append] at h
  exact h.imp_left fun hw => List.mem_takeWhile_imp hw

theorem mem_trim (h : c ∈ s) : isWhitespace c = true ∨ c ∈ trim s := by
  obtain hw | hc := mem_trimStart h
  · exact .inl hw
  · rw [trim, List.mem_reverse]
    exact mem_trimStart (List.mem_reverse.mpr hc)

/-- No part of a text has the separator in it. -/
theorem notMem_of_mem_splitOn {sep : Char} {s p : List Char} (h : p ∈ splitOn sep s) : sep ∉ p := by
  induction s generalizing p with
  | nil =>
    rw [splitOn, List.mem_singleton] at h
    rw [h]
    exact List.not_mem_nil
  | cons c cs ih =>
    rw [splitOn] at h
    by_cases hc : c = sep
    · rw [if_pos hc] at h
      rcases List.mem_cons.mp h with rfl | h
      · exact List.not_mem_nil
      · exact ih h
    · rw [if_neg hc] at h
      cases hs : splitOn sep cs with
      | nil =>
        rw [hs] at h
        cases List.mem_singleton.mp h
        exact fun hmem => hc (List.mem_singleton.mp hmem).symm
      | cons q ps =>
        rw [hs] at h ih
        rcases List.mem_cons.mp h with rfl | h
        · rw [List.mem_cons, not_or]
          exact ⟨Ne.symm hc, ih List.mem_cons_self⟩
        · exact ih (List.mem_cons_of_mem q h)

/-- A sign of a text is the separator or in one of its parts. -/
theorem mem_part_of_mem (sep : Char) (hc : c ∈ s) : c = sep ∨ ∃ p ∈ splitOn sep s, c ∈ p := by
  induction s with
  | nil => cases hc
  | cons d s ih =>
    rw [splitOn]
    by_cases hd : d = sep
    · rw [if_pos hd]
      rcases List.mem_cons.mp hc with rfl | hc
      · exact .inl hd
      · obtain hsep | ⟨p, hp, hmem⟩ := ih hc
        · exact .inl hsep
        · exact .inr ⟨p, List.mem_cons_of_mem _ hp, hmem⟩
    · rw [if_neg hd]
      cases hs : splitOn sep s with
      | nil => exact absurd hs (splitOn_ne_nil sep s)
      | cons q ps =>
        rw [hs] at ih
        rcases List.mem_cons.mp hc with rfl | hc
        · exact .inr ⟨_, List.mem_cons_self, List.mem_cons_self⟩
        · obtain hsep | ⟨p, hp, hmem⟩ := ih hc
          · exact .inl hsep
          · rcases List.mem_cons.mp hp with rfl | hp
            · exact .inr ⟨_, List.mem_cons_self, List.mem_cons_of_mem _ hmem⟩
            · exact .inr ⟨p, List.mem_cons_of_mem _ hp, hmem⟩

theorem mem_of_mem_trim (h : c ∈ trim s) : c ∈ s := by
  rw [trim, List.mem_reverse] at h
  have hrev := (List.dropWhile_sublist _).mem h
  rw [List.mem_reverse] at hrev
  exact (List.dropWhile_sublist _).mem hrev

theorem trim_of_graphic {s : List Char} (h : ∀ c ∈ s, isWhitespace c = false) : trim s = s := by
  have hstart : ∀ t : List Char, (∀ c ∈ t, isWhitespace c = false) → trimStart t = t := by
    intro t ht
    cases t with
    | nil => rfl
    | cons c cs =>
      unfold trimStart
      rw [List.dropWhile_cons, ht c List.mem_cons_self]
      rfl
  have hrev : ∀ c ∈ s.reverse, isWhitespace c = false := fun c hc => h c (List.mem_reverse.mp hc)
  rw [trim, hstart s h, hstart _ hrev, List.reverse_reverse]

theorem trimStart_trimStart (s : List Char) : trimStart (trimStart s) = trimStart s :=
  List.dropWhile_eq_self_iff.mpr fun hpos => List.dropWhile_get_zero_not isWhitespace s hpos

/-- A text that was trimmed has nothing left to trim. -/
theorem trim_trim (s : List Char) : trim (trim s) = trim s := by
  have hinit : List.IsPrefix (trim s) (trimStart s) := by
    rw [trim, ← List.reverse_suffix, List.reverse_reverse]
    exact List.dropWhile_suffix _
  have hstart : trimStart (trim s) = trim s := by
    apply List.dropWhile_eq_self_iff.mpr
    intro hpos
    have hlong : 0 < (trimStart s).length := Nat.lt_of_lt_of_le hpos hinit.length_le
    rw [hinit.getElem hpos]
    exact List.dropWhile_get_zero_not isWhitespace s hlong
  have hend : trimStart (trim s).reverse = (trim s).reverse := by
    rw [trim, List.reverse_reverse]
    exact trimStart_trimStart _
  calc trim (trim s)
      = (trimStart (trimStart (trim s)).reverse).reverse := rfl
    _ = (trimStart (trim s).reverse).reverse := by rw [hstart]
    _ = trim s := by rw [hend, List.reverse_reverse]

theorem isSome_of_mapM {f : α → Option β} {l : List α} (h : l.mapM f = some ds) (hx : x ∈ l) :
    (f x).isSome = true := by
  induction l generalizing ds with
  | nil => cases hx
  | cons y l ih =>
    simp only [List.mapM_cons, Option.pure_def, Option.bind_eq_bind, Option.bind_eq_some_iff] at h
    obtain ⟨v, hv, vs, hvs, -⟩ := h
    obtain rfl | hx := List.mem_cons.mp hx
    · exact Option.isSome_iff_exists.mpr ⟨v, hv⟩
    · exact ih hvs hx

theorem parseUnsigned_chars (h : parseUnsigned bound s = some n) (hc : c ∈ s) :
    c = '+' ∨ (toDigit 10 c).isSome = true := by
  unfold parseUnsigned at h
  split at h
  · dsimp only at h
    obtain rfl | hc := List.mem_cons.mp hc
    · exact .inl rfl
    · rw [if_neg (List.ne_nil_of_mem hc)] at h
      split at h
      · cases h
      · exact .inr (isSome_of_mapM ‹_› hc)
  · dsimp only at h
    rw [if_neg (List.ne_nil_of_mem hc)] at h
    split at h
    · cases h
    · exact .inr (isSome_of_mapM ‹_› hc)

/-- No text with another sign in it is a number. -/
theorem parseUnsigned_none (h : c ∈ s) (hplus : c ≠ '+') (hdigit : toDigit 10 c = none) :
    parseUnsigned bound s = none := by
  cases hn : parseUnsigned bound s with
  | none => rfl
  | some n =>
    rcases parseUnsigned_chars hn h with hc | hc
    · exact absurd hc hplus
    · rw [hdigit] at hc
      cases hc

theorem head_splitOn_append (h : sep ∉ s) (rest : List Char) :
    (splitOn sep (s ++ sep :: rest)).head? = some s := by
  induction s with
  | nil =>
    rw [List.nil_append, splitOn, if_pos rfl]
    rfl
  | cons c cs ih =>
    rw [List.mem_cons, not_or] at h
    have htail := ih h.2
    rw [List.cons_append, splitOn, if_neg (Ne.symm h.1)]
    cases hs : splitOn sep (cs ++ sep :: rest) with
    | nil =>
      rw [hs] at htail
      cases htail
    | cons p ps =>
      rw [hs, List.head?_cons] at htail
      rw [List.head?_cons, Option.some.inj htail]

end AiFw.Lib
