import AiFw.Lib.Separated
import Mathlib.Data.List.Infix

namespace AiFw.Lib
set_option autoImplicit true

/-- `str::find`: what comes before the first place of a text, and what comes after it. -/
def splitAround (key : List Char) : List Char → Option (List Char × List Char)
  | [] => if key = [] then some ([], []) else none
  | c :: cs =>
    if key.isPrefixOf (c :: cs) then some ([], (c :: cs).drop key.length)
    else (splitAround key cs).map fun p => (c :: p.1, p.2)

/-- The text after the last place of a separator: the first piece that `str::rsplit` gives. -/
def afterLast (sep s : List Char) : List Char :=
  match splitAround sep.reverse s.reverse with
  | some p => p.1.reverse
  | none => s

/-- `str::rfind` of a sign: what comes before its last place, and what comes after it. -/
def rsplitOnce (sep : Char) (s : List Char) : Option (List Char × List Char) :=
  (splitOnce sep s.reverse).map fun p => (p.2.reverse, p.1.reverse)

/-- `str::split_whitespace`. -/
def splitWhitespace (s : List Char) : List (List Char) :=
  (s.splitOnP isWhitespace).filter (· ≠ [])

/-- `str::trim_matches` of a class of signs. -/
def trimMatches (p : Char → Bool) (s : List Char) : List Char :=
  ((s.dropWhile p).reverse.dropWhile p).reverse

/-- `str::trim_end`. -/
def trimEnd (s : List Char) : List Char := (trimStart s.reverse).reverse

section
variable [BEq α] [LawfulBEq α] {d : α} {front : List α}

theorem all_ne_of_notMem (h : d ∉ front) : ∀ c ∈ front, (c != d) = true := by
  intro c hc
  rw [bne_iff_ne]
  rintro rfl
  exact h hc

theorem takeWhile_ne_append (h : d ∉ front) (back : List α) :
    (front ++ back).takeWhile (· != d) = front ++ back.takeWhile (· != d) :=
  List.takeWhile_append_of_pos (all_ne_of_notMem h)

theorem dropWhile_ne_append (h : d ∉ front) (back : List α) :
    (front ++ back).dropWhile (· != d) = back.dropWhile (· != d) :=
  List.dropWhile_append_of_pos (all_ne_of_notMem h)

theorem takeWhile_ne_cons (back : List α) : (d :: back).takeWhile (· != d) = [] := by
  rw [List.takeWhile_cons, bne_self_eq_false]
  rfl

theorem dropWhile_ne_cons (back : List α) : (d :: back).dropWhile (· != d) = d :: back := by
  rw [List.dropWhile_cons, bne_self_eq_false]
  rfl

theorem notMem_takeWhile_ne (d : α) (l : List α) : d ∉ l.takeWhile (· != d) := by
  intro hmem
  have hne := List.mem_takeWhile_imp (p := (· != d)) hmem
  rw [bne_self_eq_false] at hne
  cases hne

end

theorem splitAround_eq (h : splitAround key s = some (a, b)) : s = a ++ key ++ b := by
  induction s generalizing a with
  | nil =>
    rw [splitAround] at h
    split at h
    · next hkey =>
      cases h
      rw [hkey]
      rfl
    · cases h
  | cons c cs ih =>
    rw [splitAround] at h
    split at h
    · next hprefix =>
      cases h
      exact (List.prefix_iff_eq_append.mp (List.isPrefixOf_iff_prefix.mp hprefix)).symm
    · obtain ⟨⟨a', b'⟩, hrest, hp⟩ := Option.map_eq_some_iff.mp h
      cases hp
      rw [ih hrest]
      rfl

theorem splitAround_none (h : ¬key <:+: s) : splitAround key s = none := by
  cases hsplit : splitAround key s with
  | none => rfl
  | some p => exact absurd ⟨p.1, p.2, (splitAround_eq hsplit).symm⟩ h

/-- A sign that comes for the first time in the text, and for the first time in what goes before it,
tells where the text is. -/
theorem splitAround_append (front back : List Char) {d : Char} (hfront : d ∉ front) (ha : d ∉ a) :
    splitAround (front ++ d :: back) (a ++ (front ++ d :: back) ++ b) = some (a, b) := by
  induction a with
  | nil =>
    rw [List.nil_append]
    cases hs : front ++ d :: back ++ b with
    | nil =>
      rw [List.append_assoc] at hs
      cases (List.append_eq_nil_iff.mp hs).2
    | cons c cs =>
      have hprefix : (front ++ d :: back).isPrefixOf (c :: cs) = true :=
        List.isPrefixOf_iff_prefix.mpr ⟨b, hs⟩
      rw [splitAround, if_pos hprefix, ← hs, List.drop_left]
  | cons c a ih =>
    rw [List.mem_cons, not_or] at ha
    have hlater : (front ++ d :: back).isPrefixOf (c :: a ++ (front ++ d :: back) ++ b) = false := by
      rw [← Bool.not_eq_true, List.isPrefixOf_iff_prefix]
      rintro ⟨rest, hrest⟩
      have hmark : d ∉ c :: a ++ front := by
        rw [List.mem_append, List.mem_cons]
        rintro ((h | h) | h)
        · exact ha.1 h
        · exact ha.2 h
        · exact hfront h
      have hplace : c :: a ++ (front ++ d :: back) ++ b = c :: a ++ front ++ d :: (back ++ b) := by
        simp only [List.append_assoc, List.cons_append]
      rw [hplace, List.append_assoc, List.cons_append] at hrest
      have hsplit := congrArg (splitOnce d) hrest
      rw [splitOnce_append hfront, splitOnce_append hmark] at hsplit
      have hlength := congrArg (fun p => (p.map fun q => q.1.length).getD 0) hsplit
      simp only [Option.map_some, Option.getD_some, List.length_append, List.length_cons] at hlength
      omega
    have hcons : c :: a ++ (front ++ d :: back) ++ b = c :: (a ++ (front ++ d :: back) ++ b) := rfl
    rw [hcons] at hlater ⊢
    rw [splitAround, if_neg (Bool.not_eq_true _ ▸ hlater), ih ha.2]
    rfl

theorem afterLast_append (front back : List Char) {d : Char} (hd : d ∉ b) (hback : d ∉ back) :
    afterLast (front ++ d :: back) (a ++ (front ++ d :: back) ++ b) = b := by
  have hsep : (front ++ d :: back).reverse = back.reverse ++ d :: front.reverse := by
    rw [List.reverse_append, List.reverse_cons, List.append_assoc]
    rfl
  have htext : (a ++ (front ++ d :: back) ++ b).reverse =
      b.reverse ++ (back.reverse ++ d :: front.reverse) ++ a.reverse := by
    rw [← hsep, List.reverse_append, List.reverse_append, List.append_assoc]
  unfold afterLast
  rw [hsep, htext,
    splitAround_append _ _ (mt List.mem_reverse.mp hback) (mt List.mem_reverse.mp hd)]
  exact List.reverse_reverse b

theorem rsplitOnce_append {sep : Char} (h : sep ∉ b) :
    rsplitOnce sep (a ++ sep :: b) = some (a, b) := by
  unfold rsplitOnce
  rw [List.reverse_append, List.reverse_cons, List.append_assoc, List.singleton_append,
    splitOnce_append (mt List.mem_reverse.mp h), Option.map_some, List.reverse_reverse,
    List.reverse_reverse]

theorem rsplitOnce_none {sep : Char} (h : sep ∉ s) : rsplitOnce sep s = none := by
  unfold rsplitOnce
  rw [splitOnce_none (mt List.mem_reverse.mp h)]
  rfl

theorem infix_of_trim (s : List Char) : trim s <:+: s := by
  have hend : (trimStart (trimStart s).reverse).reverse <+: trimStart s := by
    have hsuffix : trimStart (trimStart s).reverse <:+ (trimStart s).reverse :=
      List.dropWhile_suffix _
    have hprefix := List.reverse_prefix.mpr hsuffix
    rwa [List.reverse_reverse] at hprefix
  exact hend.isInfix.trans (List.dropWhile_suffix _).isInfix

/-- The blanks around a text that neither begins nor ends with one; what follows it may stay. -/
theorem trim_around (hindent : ∀ c ∈ indent, isWhitespace c = true)
    (hfirst : ∀ c ∈ s.head?, isWhitespace c = false) (hlast : ∀ c ∈ s.getLast?, isWhitespace c = false)
    (hne : s ≠ []) : ∃ rest, trim (indent ++ s ++ more) = s ++ rest := by
  have hkeep (t front : List Char) (ht : ∀ c ∈ t.head?, isWhitespace c = false) (hne : t ≠ []) :
      ∃ front', trimStart (front ++ t) = front' ++ t := by
    unfold trimStart
    rw [List.dropWhile_append]
    split
    · obtain ⟨c, cs, rfl⟩ := List.exists_cons_of_ne_nil hne
      exact ⟨[], by rw [List.dropWhile_cons, ht c rfl, if_neg Bool.false_ne_true, List.nil_append]⟩
    · exact ⟨_, rfl⟩
  have hstart : trimStart (indent ++ s ++ more) = s ++ more := by
    obtain ⟨c, cs, rfl⟩ := List.exists_cons_of_ne_nil hne
    rw [List.append_assoc, trimStart, List.dropWhile_append_of_pos hindent, List.cons_append,
      List.dropWhile_cons, hfirst c rfl, if_neg Bool.false_ne_true]
  obtain ⟨rest, hrest⟩ := hkeep s.reverse more.reverse (by rwa [List.head?_reverse])
    (mt List.reverse_eq_nil_iff.mp hne)
  refine ⟨rest.reverse, ?_⟩
  rw [trim, hstart, List.reverse_append, hrest, List.reverse_append, List.reverse_reverse]

/-- Blanks around a text that neither begins nor ends with one. -/
theorem trim_between (ha : ∀ c ∈ a, isWhitespace c = true) (hb : ∀ c ∈ b, isWhitespace c = true)
    (hne : s ≠ []) (hfirst : ∀ c ∈ s.head?, isWhitespace c = false)
    (hlast : ∀ c ∈ s.getLast?, isWhitespace c = false) : trim (a ++ (s ++ b)) = s := by
  have hstart (t : List Char) {c : Char} (hc : c ∈ t.head?) (hblank : isWhitespace c = false)
      (rest : List Char) : trimStart (t ++ rest) = t ++ rest := by
    cases t with
    | nil => cases hc
    | cons d t =>
      cases hc
      rw [trimStart, List.cons_append, List.dropWhile_cons, hblank, if_neg Bool.false_ne_true]
  have hskip {a : List Char} (ha : ∀ c ∈ a, isWhitespace c = true) (t : List Char) :
      trimStart (a ++ t) = trimStart t := List.dropWhile_append_of_pos ha
  obtain ⟨c, hc⟩ : ∃ c, c ∈ s.head? := by
    cases s with
    | nil => exact absurd rfl hne
    | cons c s => exact ⟨c, rfl⟩
  obtain ⟨d, hd⟩ : ∃ d, d ∈ s.getLast? := ⟨_, List.getLast?_eq_some_getLast hne⟩
  have hreverse : d ∈ s.reverse.head? := by rwa [List.head?_reverse]
  have hb' : ∀ c ∈ b.reverse, isWhitespace c = true := fun c hc => hb c (List.mem_reverse.mp hc)
  have hend := hstart s.reverse hreverse (hlast d hd) []
  rw [List.append_nil] at hend
  rw [trim, hskip ha, hstart s hc (hfirst c hc), List.reverse_append, hskip hb', hend,
    List.reverse_reverse]

theorem getLast?_of_mem_append (front : List Char) {s : List Char} (hne : s ≠ [])
    (h : c ∈ (front ++ s).getLast?) : c ∈ s.getLast? := by
  rw [List.getLast?_append, List.getLast?_eq_some_getLast hne] at h
  rwa [List.getLast?_eq_some_getLast hne]

theorem splitWhitespace_word (hw : ∀ c ∈ w, isWhitespace c = false) (hne : w ≠ []) :
    splitWhitespace w = [w] := by
  unfold splitWhitespace
  rw [List.splitOnP_eq_singleton hw, List.filter_cons, if_pos (decide_eq_true hne)]
  rfl

/-- A word and the blank after it. -/
theorem splitWhitespace_append (hw : ∀ c ∈ w, isWhitespace c = false) (hne : w ≠ [])
    (hc : isWhitespace c = true) : splitWhitespace (w ++ c :: rest) = w :: splitWhitespace rest := by
  unfold splitWhitespace
  rw [List.splitOnP_append_cons_of_forall_mem hw c hc, List.filter_cons,
    if_pos (decide_eq_true hne)]

theorem splitWhitespace_blank (hc : isWhitespace c = true) :
    splitWhitespace (c :: rest) = splitWhitespace rest := by
  unfold splitWhitespace
  rw [← List.nil_append (c :: rest),
    List.splitOnP_append_cons_of_forall_mem (List.forall_mem_nil _) c hc, List.filter_cons]
  rfl

theorem splitWhitespace_blanks (n : Nat) :
    splitWhitespace (List.replicate n ' ' ++ rest) = splitWhitespace rest := by
  induction n with
  | zero => rfl
  | succ n ih =>
    rw [List.replicate_succ, List.cons_append, splitWhitespace_blank (by decide), ih]

/-- The words of a line, each with a blank after it. -/
theorem splitWhitespace_words {ws : List (List Char)}
    (h : ∀ w ∈ ws, w ≠ [] ∧ ∀ c ∈ w, isWhitespace c = false) (rest : List Char) :
    splitWhitespace ((ws.flatMap fun w => w ++ [' ']) ++ rest) = ws ++ splitWhitespace rest := by
  induction ws with
  | nil => rfl
  | cons w ws ih =>
    rw [List.forall_mem_cons] at h
    rw [List.flatMap_cons, List.append_assoc, List.append_assoc, List.singleton_append,
      splitWhitespace_append h.1.2 h.1.1 (by decide), ih h.2, List.cons_append]

theorem findIdx?_append_cons {p : α → Bool} (h : ∀ y ∈ front, p y = false) (hx : p x = true) :
    (front ++ x :: back).findIdx? p = some front.length := by
  induction front with
  | nil => rw [List.nil_append, List.findIdx?_cons, if_pos hx, List.length_nil]
  | cons y front ih =>
    rw [List.forall_mem_cons] at h
    rw [List.cons_append, List.findIdx?_cons, h.1, if_neg Bool.false_ne_true, ih h.2,
      Option.map_some, List.length_cons]

theorem trimMatches_of_none {p : Char → Bool} (h : ∀ c ∈ s, p c = false) : trimMatches p s = s := by
  have hstart (t : List Char) (ht : ∀ c ∈ t, p c = false) : t.dropWhile p = t := by
    cases t with
    | nil => rfl
    | cons c cs => rw [List.dropWhile_cons, ht c List.mem_cons_self, if_neg Bool.false_ne_true]
  unfold trimMatches
  rw [hstart s h, hstart s.reverse fun c hc => h c (List.mem_reverse.mp hc), List.reverse_reverse]

theorem trim_blanks_append (ha : ∀ c ∈ a, isWhitespace c = true) (s : List Char) :
    trim (a ++ s) = trim s := by
  rw [trim, trim, trimStart.eq_def (a ++ s), List.dropWhile_append_of_pos ha]
  rfl

theorem trim_append_blanks (hb : ∀ c ∈ b, isWhitespace c = true) (s : List Char) :
    trim (s ++ b) = trim s := by
  unfold trim trimStart
  rw [List.dropWhile_append]
  split
  · next hempty =>
    have hblank : b.dropWhile isWhitespace = [] := by
      rw [← List.append_nil b, List.dropWhile_append_of_pos hb]
      rfl
    rw [hblank, List.isEmpty_iff.mp hempty]
  · have hb' : ∀ c ∈ b.reverse, isWhitespace c = true := fun c hc => hb c (List.mem_reverse.mp hc)
    rw [List.reverse_append, List.dropWhile_append_of_pos hb']

/-- The signs that `trim` takes away. -/
theorem trim_parts (s : List Char) : ∃ a b, s = a ++ (trim s ++ b) ∧
    (∀ c ∈ a, isWhitespace c = true) ∧ ∀ c ∈ b, isWhitespace c = true := by
  refine ⟨s.takeWhile isWhitespace, ((trimStart s).reverse.takeWhile isWhitespace).reverse,
    ?_, fun _ => List.mem_takeWhile_imp, ?_⟩
  · have hend := congrArg List.reverse
      (List.takeWhile_append_dropWhile (p := isWhitespace) (l := (trimStart s).reverse))
    rw [List.reverse_append, List.reverse_reverse] at hend
    rw [trim, trimStart.eq_def (trimStart s).reverse, hend]
    exact List.takeWhile_append_dropWhile.symm
  · intro c hc
    exact List.mem_takeWhile_imp (List.mem_reverse.mp hc)

theorem splitOn_append_sign (hc : c ≠ sep) (s : List Char) : ∃ front last,
    splitOn sep s = front ++ [last] ∧ splitOn sep (s ++ [c]) = front ++ [last ++ [c]] := by
  induction s with
  | nil => exact ⟨[], [], rfl, splitOn_of_notMem fun h => hc (List.mem_singleton.mp h).symm⟩
  | cons d s ih =>
    obtain ⟨front, last, hs, hsc⟩ := ih
    rw [List.cons_append, splitOn, splitOn, hs, hsc]
    by_cases hd : d = sep
    · exact ⟨[] :: front, last, if_pos hd, if_pos hd⟩
    · cases front with
      | nil => exact ⟨[], d :: last, if_neg hd, if_neg hd⟩
      | cons line front => exact ⟨(d :: line) :: front, last, if_neg hd, if_neg hd⟩

section
variable {f : List Char → Option β}

/-- Blanks before a text, line ends among them, have no part in what its lines are read to, if none
have in what a line is. -/
theorem filterMap_splitOn_blank (hf : ∀ a b, trim a = trim b → f a = f b) (hnil : f [] = none)
    (hc : isWhitespace c = true) (s : List Char) :
    (splitOn '\n' (c :: s)).filterMap f = (splitOn '\n' s).filterMap f := by
  by_cases hend : c = '\n'
  · rw [splitOn, if_pos hend, List.filterMap_cons_none hnil]
  · have hsame : ∀ line, f (c :: line) = f line := by
      intro line
      apply hf
      exact trim_blanks_append (a := [c]) (List.forall_mem_singleton.mpr hc) line
    rw [splitOn, if_neg hend]
    cases hparts : splitOn '\n' s with
    | nil => exact absurd hparts (splitOn_ne_nil '\n' s)
    | cons line rest => rw [List.filterMap_cons, List.filterMap_cons, hsame]

theorem filterMap_splitOn_append_blank (hf : ∀ a b, trim a = trim b → f a = f b)
    (hnil : f [] = none) (hc : isWhitespace c = true) (s : List Char) :
    (splitOn '\n' (s ++ [c])).filterMap f = (splitOn '\n' s).filterMap f := by
  by_cases hend : c = '\n'
  · have hlast : (splitOn '\n' []).filterMap f = [] := List.filterMap_cons_none hnil
    rw [hend, splitOn_append_cons, List.filterMap_append, hlast, List.append_nil]
  · obtain ⟨front, last, hs, hsc⟩ := splitOn_append_sign hend s
    have hsame : f (last ++ [c]) = f last := by
      apply hf
      exact trim_append_blanks (List.forall_mem_singleton.mpr hc) last
    rw [hs, hsc, List.filterMap_append, List.filterMap_append, List.filterMap_cons,
      List.filterMap_cons, hsame]

theorem filterMap_splitOn_trim (hf : ∀ a b, trim a = trim b → f a = f b) (hnil : f [] = none)
    (s : List Char) : (splitOn '\n' (trim s)).filterMap f = (splitOn '\n' s).filterMap f := by
  obtain ⟨a, b, hs, ha, hb⟩ := trim_parts s
  have hfront : ∀ t, (splitOn '\n' (a ++ t)).filterMap f = (splitOn '\n' t).filterMap f := by
    intro t
    clear hs
    induction a with
    | nil => rfl
    | cons c a ih =>
      obtain ⟨hc, ha⟩ := List.forall_mem_cons.mp ha
      rw [List.cons_append, filterMap_splitOn_blank hf hnil hc, ih ha]
  have hback : ∀ t, (splitOn '\n' (t ++ b)).filterMap f = (splitOn '\n' t).filterMap f := by
    intro t
    clear hs
    induction b generalizing t with
    | nil => rw [List.append_nil]
    | cons c b ih =>
      obtain ⟨hc, hb⟩ := List.forall_mem_cons.mp hb
      rw [List.append_cons, ih hb, filterMap_splitOn_append_blank hf hnil hc]
  have hsame := hfront (trim s ++ b)
  rw [← hs, hback] at hsame
  exact hsame.symm
end

end AiFw.Lib
