import AiFw.Geo.Index

namespace AiFw.Host
open AiFw.Lib
open AiFw.Geo (lines stripCr lines_append_cons notMem_lines)

set_option autoImplicit true

/-- The carriage returns at the end of a line, of which reading and writing it may lose some. -/
def trimCrs (line : List Char) : List Char := (line.reverse.dropWhile (· == '\r')).reverse

/-- The lines of a text as a program that takes no account of carriage returns sees them. -/
def plainLines (text : List Char) : List (List Char) := (lines text).map trimCrs

def unlines (ls : List (List Char)) : List Char := ls.flatMap fun l => l ++ ['\n']

/-- A text in which every line ends, the last one too. -/
def ended (text : List Char) : List Char :=
  if text ≠ [] ∧ text.getLast? ≠ some '\n' then text ++ ['\n'] else text

/-- The same, but without any text there is an empty line. -/
def closed (text : List Char) : List Char :=
  if text.getLast? = some '\n' then text else text ++ ['\n']

def startsAt (key line : List Char) : Bool := key.isPrefixOf (trimStart line)

theorem unlines_append (ls ls' : List (List Char)) : unlines (ls ++ ls') = unlines ls ++ unlines ls' :=
  List.flatMap_append

theorem unlines_cons (l : List Char) (ls : List (List Char)) :
    unlines (l :: ls) = l ++ ['\n'] ++ unlines ls :=
  List.flatMap_cons

theorem dropWhile_dropWhile {p q : α → Bool} (h : ∀ x, p x = true → q x = true) (l : List α) :
    (l.dropWhile p).dropWhile q = l.dropWhile q := by
  induction l with
  | nil => rfl
  | cons x l ih =>
    rw [List.dropWhile_cons]
    split
    · next hp => rw [ih, List.dropWhile_cons, if_pos (h x hp)]
    · rfl

theorem crs_split (line : List Char) : ∃ n, line = trimCrs line ++ List.replicate n '\r' := by
  have hall : ∀ c ∈ line.reverse.takeWhile (· == '\r'), c = '\r' := fun c hc =>
    beq_iff_eq.mp (List.mem_takeWhile_imp (p := (· == '\r')) hc)
  refine ⟨(line.reverse.takeWhile (· == '\r')).length, ?_⟩
  have hsplit := congrArg List.reverse
    (List.takeWhile_append_dropWhile (p := (· == '\r')) (l := line.reverse))
  rw [List.reverse_append, List.reverse_reverse, List.eq_replicate_of_mem hall,
    List.reverse_replicate] at hsplit
  exact hsplit.symm

theorem trimCrs_concat (line : List Char) : trimCrs (line ++ ['\r']) = trimCrs line := by
  rw [trimCrs, List.reverse_append]
  rfl

theorem trimCrs_of_last (h : line.getLast? ≠ some '\r') : trimCrs line = line := by
  cases line using List.reverseRecOn with
  | nil => rfl
  | append_singleton front c =>
    rw [List.getLast?_concat] at h
    have hc : (c == '\r') = false := beq_false_of_ne fun heq => h (congrArg some heq)
    rw [trimCrs, List.reverse_append]
    change (List.dropWhile (· == '\r') (c :: front.reverse)).reverse = _
    rw [List.dropWhile_cons, hc, if_neg Bool.false_ne_true, List.reverse_cons, List.reverse_reverse]

theorem trimCrs_stripCr (line : List Char) : trimCrs (stripCr line) = trimCrs line := by
  rw [stripCr]
  split
  · next hlast =>
    obtain ⟨front, rfl⟩ := List.getLast?_eq_some_iff.mp hlast
    rw [List.dropLast_concat, trimCrs_concat]
  · rfl

theorem notMem_trimCrs (h : '\n' ∉ line) : '\n' ∉ trimCrs line := by
  obtain ⟨n, hn⟩ := crs_split line
  rw [hn, List.mem_append, not_or] at h
  exact h.1

theorem notMem_plainLines (h : l ∈ plainLines text) : '\n' ∉ l := by
  obtain ⟨line, hline, rfl⟩ := List.mem_map.mp h
  exact notMem_trimCrs (notMem_lines hline)

theorem plainLines_line (h : '\n' ∉ l) (rest : List Char) :
    plainLines (l ++ ['\n'] ++ rest) = trimCrs l :: plainLines rest := by
  rw [plainLines, List.append_assoc, List.singleton_append, lines_append_cons, splitOn_of_notMem h,
    List.map_append, List.map_singleton, List.map_singleton, trimCrs_stripCr]
  rfl

/-- Lines that were written are read back. -/
theorem plainLines_unlines (h : ∀ l ∈ ls, '\n' ∉ l) (rest : List Char) :
    plainLines (unlines ls ++ rest) = ls.map trimCrs ++ plainLines rest := by
  induction ls with
  | nil => rfl
  | cons l ls ih =>
    obtain ⟨hl, hls⟩ := List.forall_mem_cons.mp h
    rw [unlines_cons, List.append_assoc, plainLines_line hl, ih hls]
    rfl

theorem plainLines_unlines_all (h : ∀ l ∈ ls, '\n' ∉ l) :
    plainLines (unlines ls) = ls.map trimCrs := by
  have hlines := plainLines_unlines h []
  rw [List.append_nil] at hlines
  exact hlines.trans (List.append_nil _)

theorem plainLines_append_feed (front rest : List Char) :
    plainLines (front ++ '\n' :: rest) = (splitOn '\n' front).map trimCrs ++ plainLines rest := by
  rw [plainLines, lines_append_cons, List.map_append, List.map_map]
  congr 2
  exact funext trimCrs_stripCr

/-- Behind the end of a line, the lines of a text are those of what stands there. -/
theorem plainLines_append (h : text.getLast? = some '\n') (rest : List Char) :
    plainLines (text ++ rest) = plainLines text ++ plainLines rest := by
  obtain ⟨front, rfl⟩ := List.getLast?_eq_some_iff.mp h
  have hnone : plainLines (front ++ ['\n']) = (splitOn '\n' front).map trimCrs := by
    rw [plainLines_append_feed]
    exact List.append_nil _
  rw [hnone, List.append_assoc, List.singleton_append, plainLines_append_feed]

theorem getLast?_closed (text : List Char) : (closed text).getLast? = some '\n' := by
  rw [closed]
  split
  · assumption
  · exact List.getLast?_concat

/-- The end of the last line adds no line. -/
theorem plainLines_ended (text : List Char) : plainLines (ended text) = plainLines text := by
  rw [ended]
  split
  · next hopen =>
    obtain ⟨hne, hlast⟩ := hopen
    cases text using List.reverseRecOn with
    | nil => exact absurd rfl hne
    | append_singleton s c =>
      rw [List.getLast?_concat] at hlast
      have hc : c ≠ '\n' := fun heq => hlast (congrArg some heq)
      obtain ⟨front, last, -, hsplit⟩ := splitOn_append_sign hc s
      have hmap : (front.map stripCr).map trimCrs = front.map trimCrs := by
        rw [List.map_map]
        exact List.map_congr_left fun l _ => trimCrs_stripCr l
      have hkept : [last ++ [c]].filter (· ≠ []) = [last ++ [c]] :=
        List.filter_eq_self.mpr fun l hl => by simp [List.mem_singleton.mp hl]
      have hlines : plainLines (s ++ [c]) = front.map trimCrs ++ [last ++ [c]].map trimCrs := by
        rw [plainLines, lines, hsplit, List.dropLast_concat, List.getLast?_concat,
          Option.toList_some, hkept, List.map_append, hmap]
      rw [plainLines_append_feed, hsplit, hlines, List.map_append]
      exact List.append_nil _
  · rfl

theorem plainLines_ended_append (text rest : List Char) :
    plainLines (ended text ++ rest) = plainLines text ++ plainLines rest := by
  rw [← plainLines_ended text]
  by_cases hnil : text = []
  · subst hnil
    rfl
  · apply plainLines_append
    rw [ended]
    split
    · exact List.getLast?_concat
    · next hclosed =>
      by_contra hlast
      exact hclosed ⟨hnil, hlast⟩

theorem isWhitespace_cr (c : Char) (h : (c == '\r') = true) : isWhitespace c = true := by
  rw [beq_iff_eq.mp h]
  decide

theorem trimEnd_of_last (h : ∀ c ∈ line.getLast?, isWhitespace c = false) : trimEnd line = line := by
  cases line using List.reverseRecOn with
  | nil => rfl
  | append_singleton front c =>
    have hc := h c (List.getLast?_concat)
    rw [trimEnd, List.reverse_append]
    change (List.dropWhile isWhitespace (c :: front.reverse)).reverse = _
    rw [List.dropWhile_cons, hc, if_neg Bool.false_ne_true, List.reverse_cons, List.reverse_reverse]

theorem trimEnd_trimCrs (line : List Char) : trimEnd (trimCrs line) = trimEnd line := by
  rw [trimEnd, trimEnd, trimStart, trimStart, trimCrs, List.reverse_reverse,
    dropWhile_dropWhile isWhitespace_cr]

theorem trimEnd_prefix (line : List Char) : trimEnd line <+: line := by
  have hsuffix := List.dropWhile_suffix isWhitespace (l := line.reverse)
  rw [trimEnd, ← List.reverse_suffix, List.reverse_reverse]
  exact hsuffix

theorem blank_of_crs (h : c ∈ List.replicate n '\r') : isWhitespace c = true := by
  rw [List.eq_of_mem_replicate h]
  decide

theorem trim_trimCrs (line : List Char) : trim (trimCrs line) = trim line := by
  obtain ⟨n, hn⟩ := crs_split line
  conv => rhs; rw [hn]
  exact (trim_append_blanks (fun _ => blank_of_crs) _).symm

theorem splitWhitespace_trimCrs (line : List Char) :
    splitWhitespace (trimCrs line) = splitWhitespace line := by
  have hall (s : List Char) (n : Nat) :
      splitWhitespace (s ++ List.replicate n '\r') = splitWhitespace s := by
    induction n generalizing s with
    | zero => rw [List.replicate_zero, List.append_nil]
    | succ n ih =>
      rw [List.replicate_succ, ← List.singleton_append, ← List.append_assoc, ih, splitWhitespace,
        List.splitOnP_append_cons _ _ (by decide), List.filter_append]
      exact List.append_nil _
  obtain ⟨n, hn⟩ := crs_split line
  conv => rhs; rw [hn]
  exact (hall _ n).symm

theorem startsAt_trimCrs {key : List Char} (hkey : '\r' ∉ key) (line : List Char) :
    startsAt key (trimCrs line) = startsAt key line := by
  obtain ⟨n, hn⟩ := crs_split line
  conv => rhs; rw [hn]
  rw [startsAt, startsAt, trimStart, trimStart, List.dropWhile_append]
  split
  · next hempty =>
    have hblank : (List.replicate n '\r').dropWhile isWhitespace = [] :=
      List.dropWhile_eq_nil_iff.mpr fun _ => blank_of_crs
    rw [hblank, List.isEmpty_iff.mp hempty]
  · generalize (trimCrs line).dropWhile isWhitespace = s
    rw [Bool.eq_iff_iff, List.isPrefixOf_iff_prefix, List.isPrefixOf_iff_prefix]
    constructor
    · intro h
      exact h.trans (List.prefix_append s _)
    · intro h
      obtain hshort | hlong := List.prefix_or_prefix_of_prefix h (List.prefix_append s _)
      · exact hshort
      · obtain ⟨t, rfl⟩ := hlong
        have ht : t <+: List.replicate n '\r' := (List.prefix_append_right_inj s).mp h
        cases t with
        | nil =>
          rw [List.append_nil]
        | cons c t =>
          have hc := List.eq_of_mem_replicate (ht.subset List.mem_cons_self)
          rw [hc] at hkey
          exact absurd (List.mem_append_right s List.mem_cons_self) hkey

end AiFw.Host
