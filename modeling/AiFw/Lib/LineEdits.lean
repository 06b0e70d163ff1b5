import Mathlib.Data.List.Induction
import Mathlib.Data.List.TakeWhile
import Mathlib.Tactic.Common

namespace AiFw.Lib
set_option autoImplicit true

section
variable {σ β ι S : Type*}

/-- An edit leaves nothing of what an earlier edit of the same kind wrote. -/
structure Overwrites (Fit : σ → Prop) (put : σ → β → σ) : Prop where
  fit : ∀ s b, Fit s → Fit (put s b)
  put_put : ∀ s a b, Fit s → put (put s a) b = put s b

theorem Overwrites.foldl_eq {put : σ → β → σ} (h : Overwrites Fit put) (hs : Fit s) (bs : List β) :
    bs.foldl put s = bs.getLast?.elim s (put s) := by
  induction bs using List.reverseRecOn with
  | nil => rfl
  | append_singleton bs b ih =>
    rw [List.foldl_append, ih, List.getLast?_concat, List.foldl_cons, List.foldl_nil]
    cases bs.getLast? with
    | none => rfl
    | some a => exact h.put_put s a b hs

/-- A run of attempts leaves in a part of the state what the last one that wrote there wrote. -/
theorem Overwrites.run {put : σ → β → σ} (h : Overwrites Fit put) {v : S → σ}
    {exec : S → ι → S} {written : ι → Option β} {P : ι → Prop}
    (hstep : ∀ s i, Fit (v s) → P i → v (exec s i) = (written i).elim (v s) (put (v s)))
    (hs : Fit (v s)) (is : List ι) (his : ∀ i ∈ is, P i) :
    v (is.foldl exec s) = (is.filterMap written).getLast?.elim (v s) (put (v s)) := by
  have hfold : v (is.foldl exec s) = (is.filterMap written).foldl put (v s) := by
    induction is generalizing s with
    | nil => rfl
    | cons i is ih =>
      obtain ⟨hi, hrest⟩ := List.forall_mem_cons.mp his
      have hnext : Fit (v (exec s i)) := by
        rw [hstep s i hs hi]
        cases written i with
        | none => exact hs
        | some b => exact h.fit _ b hs
      rw [List.foldl_cons, ih hnext hrest, hstep s i hs hi]
      cases hw : written i with
      | none => rw [List.filterMap_cons_none hw]; rfl
      | some b => rw [List.filterMap_cons_some hw]; rfl
  rw [hfold, h.foldl_eq hs]

end

section
variable (own : α → Bool)

/-- The lines that the edit does not own. -/
def unowned (ls : List α) : List α := ls.filter fun l => !own l

/-- Every line that is owned becomes the wanted one, which is put in at a place if there is none. -/
def setOwned (place : List α → Nat) (want : α) (ls : List α) : List α :=
  if ls.any own then ls.map fun l => if own l then want else l
  else ls.take (place ls) ++ want :: ls.drop (place ls)

/-- The first line that is owned becomes the wanted one and the unowned go; without one it comes
first. -/
def setFirstOwned (want : Option α) (ls : List α) : List α :=
  if ls.any own then
    ls.takeWhile (fun l => !own l) ++ want.toList ++ unowned own (ls.dropWhile fun l => !own l)
  else want.toList ++ ls

variable {own}

theorem unowned_append (ls ls' : List α) : unowned own (ls ++ ls') = unowned own ls ++ unowned own ls' :=
  List.filter_append ls ls'

theorem unowned_of_own (h : ∀ l ∈ ls, own l = true) : unowned own ls = [] := by
  apply List.filter_eq_nil_iff.mpr
  intro l hl
  rw [h l hl]
  decide

theorem unowned_self (h : ls.any own = false) : unowned own ls = ls := by
  apply List.filter_eq_self.mpr
  intro l hl
  rw [Bool.eq_false_iff.mpr (List.any_eq_false.mp h l hl)]
  rfl

theorem unowned_map_owned (hwant : own want = true) (ls : List α) :
    unowned own (ls.map fun l => if own l then want else l) = unowned own ls := by
  induction ls with
  | nil => rfl
  | cons l ls ih =>
    unfold unowned at ih ⊢
    rw [List.map_cons, List.filter_cons, List.filter_cons, ih]
    cases hl : own l <;> simp [hl, hwant]

theorem unowned_setOwned (hwant : own want = true) (place : List α → Nat) (ls : List α) :
    unowned own (setOwned own place want ls) = unowned own ls := by
  rw [setOwned]
  split
  · exact unowned_map_owned hwant ls
  · have hhead : unowned own [want] = [] := unowned_of_own (List.forall_mem_singleton.mpr hwant)
    rw [unowned_append, ← List.singleton_append (x := want), unowned_append, hhead, List.nil_append,
      ← unowned_append, List.take_append_drop]

theorem filter_map_owned (hwant : own want = true) (ls : List α) :
    (ls.map fun l => if own l then want else l).filter own =
      List.replicate (ls.filter own).length want := by
  induction ls with
  | nil => rfl
  | cons l ls ih =>
    rw [List.map_cons, List.filter_cons, List.filter_cons, ih]
    cases hl : own l with
    | false =>
      rw [if_neg Bool.false_ne_true, hl]
      rfl
    | true =>
      rw [if_pos rfl, hwant]
      rfl

/-- Afterwards the owned lines are as many as before, at least one, and all of them the wanted
one. -/
theorem filter_setOwned (hwant : own want = true) (place : List α → Nat) (ls : List α) :
    (setOwned own place want ls).filter own =
      List.replicate (max 1 (ls.filter own).length) want := by
  rw [setOwned]
  split
  · next hany =>
    obtain ⟨l, hl, hown⟩ := List.any_eq_true.mp hany
    have hpos : 1 ≤ (ls.filter own).length :=
      List.length_pos_of_mem (List.mem_filter.mpr ⟨hl, hown⟩)
    rw [filter_map_owned hwant, Nat.max_eq_right hpos]
  · next hany =>
    have hnone (part : List α) (hpart : ∀ l ∈ part, l ∈ ls) : part.filter own = [] :=
      List.filter_eq_nil_iff.mpr fun l hl hown => hany (List.any_eq_true.mpr ⟨l, hpart l hl, hown⟩)
    rw [List.filter_append, List.filter_cons, if_pos hwant,
      hnone _ fun l hl => List.mem_of_mem_take hl, hnone _ fun l hl => List.mem_of_mem_drop hl,
      hnone ls fun l hl => hl]
    rfl

theorem unowned_takeWhile (ls : List α) :
    unowned own (ls.takeWhile fun l => !own l) = ls.takeWhile fun l => !own l :=
  List.filter_eq_self.mpr fun _ hl => List.mem_takeWhile_imp (p := fun l => !own l) hl

theorem filter_unowned (ls : List α) : (unowned own ls).filter own = [] := by
  apply List.filter_eq_nil_iff.mpr
  intro l hl hown
  have hnot := (List.mem_filter.mp hl).2
  rw [hown] at hnot
  cases hnot

theorem unowned_unowned (ls : List α) : unowned own (unowned own ls) = unowned own ls :=
  List.filter_eq_self.mpr fun _ hl => (List.mem_filter.mp hl).2

theorem unowned_setFirstOwned (hwant : ∀ l ∈ want, own l = true) (ls : List α) :
    unowned own (setFirstOwned own want ls) = unowned own ls := by
  have hgone : unowned own want.toList = [] :=
    unowned_of_own fun l hl => hwant l (Option.mem_toList.mp hl)
  rw [setFirstOwned]
  split
  · rw [unowned_append, unowned_append, hgone, List.append_nil, unowned_unowned, ← unowned_append,
      List.takeWhile_append_dropWhile]
  · rw [unowned_append, hgone, List.nil_append]

/-- Afterwards the wanted line is the only one that is owned. -/
theorem filter_setFirstOwned (hwant : ∀ l ∈ want, own l = true) (ls : List α) :
    (setFirstOwned own want ls).filter own = want.toList := by
  have hkept : want.toList.filter own = want.toList :=
    List.filter_eq_self.mpr fun l hl => hwant l (Option.mem_toList.mp hl)
  rw [setFirstOwned]
  split
  · rw [List.filter_append, List.filter_append, hkept, filter_unowned, ← unowned_takeWhile,
      filter_unowned, List.append_nil, List.nil_append]
  · next hany =>
    have hnone := unowned_self (Bool.eq_false_iff.mpr hany)
    rw [List.filter_append, hkept, ← hnone, filter_unowned, List.append_nil]

theorem mem_setOwned (h : l ∈ setOwned own place want ls) : l = want ∨ l ∈ ls := by
  rw [setOwned] at h
  split at h
  · obtain ⟨l', hl', rfl⟩ := List.mem_map.mp h
    split
    · exact .inl rfl
    · exact .inr hl'
  · obtain hfront | hback := List.mem_append.mp h
    · exact .inr (List.mem_of_mem_take hfront)
    · obtain rfl | hback := List.mem_cons.mp hback
      · exact .inl rfl
      · exact .inr (List.mem_of_mem_drop hback)

theorem mem_setFirstOwned (h : l ∈ setFirstOwned own want ls) : l ∈ want ∨ l ∈ ls := by
  rw [setFirstOwned] at h
  split at h
  · rw [List.mem_append, List.mem_append] at h
    obtain (hfront | hnew) | hback := h
    · exact .inr ((List.takeWhile_prefix _).subset hfront)
    · exact .inl (Option.mem_toList.mp hnew)
    · exact .inr ((List.dropWhile_suffix _).subset (List.mem_filter.mp hback).1)
  · obtain hnew | hold := List.mem_append.mp h
    · exact .inl (Option.mem_toList.mp hnew)
    · exact .inr hold

theorem setFirstOwned_none (ls : List α) : setFirstOwned own none ls = unowned own ls := by
  rw [setFirstOwned]
  split
  · have hall : unowned own ls = (ls.takeWhile fun l => !own l) ++
        unowned own (ls.dropWhile fun l => !own l) := by
      rw [← unowned_takeWhile ls, ← unowned_append, List.takeWhile_append_dropWhile]
    rw [hall]
    exact congrArg (· ++ _) (List.append_nil _)
  · next hany => exact (unowned_self (Bool.eq_false_iff.mpr hany)).symm

/-- The lines that are not owned, and those that are. -/
def partedBy (own : α → Bool) (ls : List α) : List α × List α := (unowned own ls, ls.filter own)

theorem partedBy_setOwned (hwant : own want = true) (place : List α → Nat) (ls : List α) :
    partedBy own (setOwned own place want ls) =
      ((partedBy own ls).1, List.replicate (max 1 (partedBy own ls).2.length) want) :=
  Prod.ext (unowned_setOwned hwant place ls) (filter_setOwned hwant place ls)

theorem partedBy_setFirstOwned (hwant : ∀ l ∈ want, own l = true) (ls : List α) :
    partedBy own (setFirstOwned own want ls) = ((partedBy own ls).1, want.toList) :=
  Prod.ext (unowned_setFirstOwned hwant ls) (filter_setFirstOwned hwant ls)

theorem partedBy_map {f : α → α} (hf : ∀ l, own (f l) = own l) (ls : List α) :
    partedBy own (ls.map f) = ((partedBy own ls).1.map f, (partedBy own ls).2.map f) := by
  have hfilter (p : α → Bool) (hp : ∀ l, p (f l) = p l) :
      (ls.map f).filter p = (ls.filter p).map f := by
    rw [List.filter_map]
    exact congrArg (List.map f) (List.filter_congr fun l _ => hp l)
  apply Prod.ext
  · exact hfilter (fun l => !own l) fun l => congrArg not (hf l)
  · exact hfilter own hf

end

/-- The first element of a class, with what stands before it and behind it. -/
def splitFirst (p : α → Bool) : List α → Option (List α × α × List α)
  | [] => none
  | l :: ls =>
    if p l then some ([], l, ls)
    else (splitFirst p ls).map fun parts => (l :: parts.1, parts.2)

theorem splitFirst_append {p : α → Bool} (h : ∀ l ∈ front, p l = false) (hx : p x = true)
    (back : List α) : splitFirst p (front ++ x :: back) = some (front, x, back) := by
  induction front with
  | nil => rw [List.nil_append, splitFirst, if_pos hx]
  | cons l front ih =>
    obtain ⟨hl, hrest⟩ := List.forall_mem_cons.mp h
    rw [List.cons_append, splitFirst, hl, if_neg Bool.false_ne_true, ih hrest]
    rfl

theorem splitFirst_eq_some {p : α → Bool} (h : splitFirst p ls = some (front, x, back)) :
    ls = front ++ x :: back ∧ (∀ l ∈ front, p l = false) ∧ p x = true := by
  induction ls generalizing front with
  | nil => cases h
  | cons l ls ih =>
    rw [splitFirst] at h
    split at h
    · next hl =>
      cases h
      exact ⟨rfl, List.forall_mem_nil _, hl⟩
    · next hl =>
      obtain ⟨⟨front', rest⟩, hparts, heq⟩ := Option.map_eq_some_iff.mp h
      cases heq
      obtain ⟨hls, hfront, hx⟩ := ih hparts
      exact ⟨congrArg (l :: ·) hls,
        List.forall_mem_cons.mpr ⟨Bool.eq_false_iff.mpr hl, hfront⟩, hx⟩

theorem splitFirst_eq_none {p : α → Bool} :
    splitFirst p ls = none ↔ ∀ l ∈ ls, p l = false := by
  induction ls with
  | nil => exact ⟨fun _ => List.forall_mem_nil _, fun _ => rfl⟩
  | cons l ls ih =>
    rw [splitFirst, List.forall_mem_cons, ← ih]
    cases p l with
    | true => exact ⟨nofun, fun h => nomatch h.1⟩
    | false =>
      rw [if_neg Bool.false_ne_true, Option.map_eq_none_iff]
      exact ⟨fun h => ⟨rfl, h⟩, fun h => h.2⟩

theorem splitFirst_map {p : α → Bool} {f : α → α} (hf : ∀ l, p (f l) = p l) (ls : List α) :
    splitFirst p (ls.map f) =
      (splitFirst p ls).map fun parts => (parts.1.map f, f parts.2.1, parts.2.2.map f) := by
  induction ls with
  | nil => rfl
  | cons l ls ih =>
    rw [List.map_cons, splitFirst, splitFirst, hf, ih]
    cases p l with
    | true => rfl
    | false => cases splitFirst p ls <;> rfl

/-- New lines before the first line of a class. -/
def putBefore (p : α → Bool) (new ls : List α) : List α :=
  match splitFirst p ls with
  | some (before, x, after) => before ++ new ++ x :: after
  | none => ls

/-- New lines behind every line of a class. -/
def putBehind (p : α → Bool) (new ls : List α) : List α :=
  ls.flatMap fun l => if p l then l :: new else [l]

theorem putBefore_cons (p : α → Bool) (new : List α) (l : α) (ls : List α) :
    putBefore p new (l :: ls) = if p l then new ++ l :: ls else l :: putBefore p new ls := by
  rw [putBefore, putBefore, splitFirst]
  cases p l with
  | true => rfl
  | false => cases splitFirst p ls <;> rfl

theorem putBefore_skip {p : α → Bool} {front : List α} (h : ∀ l ∈ front, p l = false)
    (new ls : List α) :
    putBefore p new (front ++ ls) = front ++ putBefore p new ls := by
  induction front with
  | nil => rfl
  | cons l front ih =>
    obtain ⟨hl, hrest⟩ := List.forall_mem_cons.mp h
    rw [List.cons_append, putBefore_cons, hl, if_neg Bool.false_ne_true, ih hrest,
      List.cons_append]

theorem sublist_putBefore (p : α → Bool) (new ls : List α) : ls.Sublist (putBefore p new ls) := by
  rw [putBefore]
  cases hsplit : splitFirst p ls with
  | none => exact List.Sublist.refl ls
  | some parts =>
    obtain ⟨before, x, after⟩ := parts
    obtain ⟨rfl, -, -⟩ := splitFirst_eq_some hsplit
    dsimp only
    rw [List.append_assoc]
    exact (List.Sublist.refl before).append (List.sublist_append_right new (x :: after))

theorem sublist_putBehind (p : α → Bool) (new ls : List α) : ls.Sublist (putBehind p new ls) := by
  induction ls with
  | nil => exact List.Sublist.slnil
  | cons l ls ih =>
    rw [putBehind, List.flatMap_cons, ← List.singleton_append (x := l) (l := ls)]
    refine List.Sublist.append ?_ ih
    split
    · exact List.singleton_sublist.mpr List.mem_cons_self
    · exact List.Sublist.refl [l]

theorem mem_putBefore (h : l ∈ putBefore p new ls) : l ∈ ls ∨ l ∈ new := by
  rw [putBefore] at h
  cases hsplit : splitFirst p ls with
  | none =>
    rw [hsplit] at h
    exact .inl h
  | some parts =>
    obtain ⟨before, x, after⟩ := parts
    rw [hsplit] at h
    obtain ⟨rfl, -, -⟩ := splitFirst_eq_some hsplit
    simp only [List.mem_append, List.mem_cons] at h ⊢
    tauto

theorem mem_putBehind (h : l ∈ putBehind p new ls) : l ∈ ls ∨ l ∈ new := by
  obtain ⟨l', hl', hmem⟩ := List.mem_flatMap.mp h
  split at hmem
  · obtain rfl | hnew := List.mem_cons.mp hmem
    · exact .inl hl'
    · exact .inr hnew
  · exact .inl (List.mem_singleton.mp hmem ▸ hl')

theorem subset_putBefore (hany : ls.any p = true) (new : List α) : new ⊆ putBefore p new ls := by
  rw [putBefore]
  cases hsplit : splitFirst p ls with
  | none =>
    obtain ⟨l, hl, hp⟩ := List.any_eq_true.mp hany
    rw [splitFirst_eq_none.mp hsplit l hl] at hp
    cases hp
  | some parts =>
    intro l hl
    exact List.mem_append_left _ (List.mem_append_right _ hl)

theorem subset_putBehind (hany : ls.any p = true) (new : List α) : new ⊆ putBehind p new ls := by
  obtain ⟨l, hl, hp⟩ := List.any_eq_true.mp hany
  intro l' hl'
  refine List.mem_flatMap.mpr ⟨l, hl, ?_⟩
  rw [if_pos hp]
  exact List.mem_cons_of_mem l hl'

theorem filter_putBefore {own : α → Bool} (hnew : ∀ l ∈ new, own l = false) (p : α → Bool)
    (ls : List α) : (putBefore p new ls).filter own = ls.filter own := by
  have hgone : new.filter own = [] :=
    List.filter_eq_nil_iff.mpr fun l hl => by rw [hnew l hl]; decide
  induction ls with
  | nil => rfl
  | cons l ls ih =>
    rw [putBefore_cons]
    split
    · rw [List.filter_append, hgone, List.nil_append]
    · rw [List.filter_cons, List.filter_cons, ih]

theorem filter_putBehind {own : α → Bool} (hnew : ∀ l ∈ new, own l = false) (p : α → Bool)
    (ls : List α) : (putBehind p new ls).filter own = ls.filter own := by
  have hgone : new.filter own = [] :=
    List.filter_eq_nil_iff.mpr fun l hl => by rw [hnew l hl]; decide
  induction ls with
  | nil => rfl
  | cons l ls ih =>
    have hcons : putBehind p new (l :: ls) =
        (if p l then l :: new else [l]) ++ putBehind p new ls := List.flatMap_cons
    rw [hcons, List.filter_append, ih]
    split
    · rw [List.filter_cons, List.filter_cons, hgone]
      split <;> rfl
    · rw [← List.filter_append, List.singleton_append]

/-- The markers that a block is written with, and which lines are taken for them. -/
structure BlockMarkers (α : Type) where
  isBegin : α → Bool
  isEnd : α → Bool
  beginLine : α
  endLine : α
  begin_isBegin : isBegin beginLine = true
  end_isEnd : isEnd endLine = true

namespace BlockMarkers
variable (m : BlockMarkers α)

/-- What stands before the first block, in it and behind it. -/
def parts (ls : List α) : Option (List α × List α × List α) :=
  (splitFirst m.isBegin ls).bind fun p =>
    (splitFirst m.isEnd p.2.2).map fun q => (p.1, q.1, q.2.2)

def written (block : List α) : List α := m.beginLine :: (block ++ [m.endLine])

/-- The block takes the place of the first one, or comes last. -/
def put (ls block : List α) : List α :=
  match m.parts ls with
  | some (before, _, after) => before ++ m.written block ++ after
  | none => ls ++ m.written block

/-- The lines that are not of the block. -/
def outside (ls : List α) : List α × List α :=
  match m.parts ls with
  | some (before, _, after) => (before, after)
  | none => (ls, [])

/-- The lines of the block. -/
def inside (ls : List α) : Option (List α) := (m.parts ls).map fun p => p.2.1

/-- The block begins and does not end. -/
def Orphan (ls : List α) : Prop := ls.any m.isBegin = true ∧ m.parts ls = none

variable {m} {block : List α}

theorem parts_written (hbefore : ∀ l ∈ before, m.isBegin l = false)
    (hblock : ∀ l ∈ block, m.isEnd l = false) (after : List α) :
    m.parts (before ++ m.written block ++ after) = some (before, block, after) := by
  rw [parts, written, List.append_assoc, List.cons_append, List.append_assoc,
    List.singleton_append, splitFirst_append hbefore m.begin_isBegin, Option.bind_some,
    splitFirst_append hblock m.end_isEnd, Option.map_some]

theorem parts_map {f : α → α} (hbegin : ∀ l, m.isBegin (f l) = m.isBegin l)
    (hend : ∀ l, m.isEnd (f l) = m.isEnd l) (ls : List α) :
    m.parts (ls.map f) =
      (m.parts ls).map fun p => (p.1.map f, p.2.1.map f, p.2.2.map f) := by
  rw [parts, parts, splitFirst_map hbegin]
  cases splitFirst m.isBegin ls with
  | none => rfl
  | some p =>
    rw [Option.map_some, Option.bind_some, Option.bind_some, splitFirst_map hend]
    cases splitFirst m.isEnd p.2.2 with
    | none => rfl
    | some q => rfl

theorem parts_eq_some (h : m.parts ls = some (before, block, after)) :
    (∀ l ∈ before, m.isBegin l = false) ∧ (∀ l ∈ block, m.isEnd l = false) ∧
      ∃ b e, m.isBegin b = true ∧ m.isEnd e = true ∧
        ls = before ++ b :: (block ++ e :: after) := by
  obtain ⟨⟨front, b, rest⟩, hfront, h⟩ := Option.bind_eq_some_iff.mp h
  obtain ⟨⟨mid, e, back⟩, hmid, heq⟩ := Option.map_eq_some_iff.mp h
  cases heq
  obtain ⟨rfl, hbefore, hb⟩ := splitFirst_eq_some hfront
  obtain ⟨hrest, hblock, he⟩ := splitFirst_eq_some hmid
  dsimp only at hrest
  exact ⟨hbefore, hblock, b, e, hb, he, by rw [hrest]⟩

theorem parts_put (h : ¬m.Orphan ls) (hblock : ∀ l ∈ block, m.isEnd l = false) :
    m.parts (m.put ls block) =
      some ((m.outside ls).1, block, (m.outside ls).2) := by
  rw [put, outside]
  cases hparts : m.parts ls with
  | some parts =>
    obtain ⟨before, old, after⟩ := parts
    exact parts_written (parts_eq_some hparts).1 hblock after
  | none =>
    have hnone : ∀ l ∈ ls, m.isBegin l = false := by
      intro l hl
      by_contra hbegin
      exact h ⟨List.any_eq_true.mpr ⟨l, hl, Bool.not_eq_false _ ▸ hbegin⟩, hparts⟩
    have hlast := parts_written hnone hblock []
    rwa [List.append_nil] at hlast

/-- Without an end to its first beginning, a block takes over whatever stands behind that
beginning. -/
theorem outside_put_iff (hblock : ∀ l ∈ block, m.isEnd l = false) :
    m.outside (m.put ls block) = m.outside ls ↔ ¬m.Orphan ls := by
  constructor
  · intro h horphan
    obtain ⟨hany, hnone⟩ := horphan
    have hput : m.put ls block = ls ++ m.written block := by rw [put, hnone]
    have houtside : m.outside ls = (ls, []) := by rw [outside, hnone]
    rw [hput, houtside] at h
    cases hfirst : splitFirst m.isBegin ls with
    | none =>
      obtain ⟨l, hl, hbegin⟩ := List.any_eq_true.mp hany
      rw [splitFirst_eq_none.mp hfirst l hl] at hbegin
      cases hbegin
    | some parts =>
      obtain ⟨front, b, back⟩ := parts
      obtain ⟨rfl, hfront, hb⟩ := splitFirst_eq_some hfirst
      have hshort : (m.outside (front ++ b :: back ++ m.written block)).1 = front := by
        have hend : splitFirst m.isEnd (back ++ m.written block) ≠ none := by
          rw [Ne, splitFirst_eq_none]
          intro hall
          have hlast := hall m.endLine (by simp [written])
          rw [m.end_isEnd] at hlast
          cases hlast
        obtain ⟨parts, hparts⟩ := Option.ne_none_iff_exists'.mp hend
        rw [outside, BlockMarkers.parts, List.append_assoc, List.cons_append,
          splitFirst_append hfront hb, Option.bind_some, hparts]
        rfl
      have hlength := congrArg (fun p => p.1.length) h
      dsimp only at hlength
      rw [hshort, List.length_append, List.length_cons] at hlength
      omega
  · intro h
    rw [outside, parts_put h hblock]

/-- A second block takes the place of all that stands behind the beginning without an end, and of
the first block. -/
theorem put_put_orphan (h : m.Orphan ls) (hbegin : m.isEnd m.beginLine = false)
    (hblock : ∀ l ∈ block, m.isEnd l = false) (block' : List α) :
    m.put (m.put ls block) block' = ls.takeWhile (fun l => !m.isBegin l) ++ m.written block' := by
  obtain ⟨hany, hnone⟩ := h
  have hput : m.put ls block = ls ++ m.written block := by rw [put, hnone]
  cases hfirst : splitFirst m.isBegin ls with
  | none =>
    obtain ⟨l, hl, hmarker⟩ := List.any_eq_true.mp hany
    rw [splitFirst_eq_none.mp hfirst l hl] at hmarker
    cases hmarker
  | some found =>
    obtain ⟨front, b, back⟩ := found
    obtain ⟨rfl, hfront, hb⟩ := splitFirst_eq_some hfirst
    have hback : ∀ l ∈ back, m.isEnd l = false := by
      rw [parts, hfirst, Option.bind_some, Option.map_eq_none_iff] at hnone
      exact splitFirst_eq_none.mp hnone
    have hmid : ∀ l ∈ back ++ m.beginLine :: block, m.isEnd l = false := by
      intro l hl
      rw [List.mem_append, List.mem_cons] at hl
      obtain hl | rfl | hl := hl
      · exact hback l hl
      · exact hbegin
      · exact hblock l hl
    have hsplit : front ++ b :: back ++ m.written block =
        front ++ b :: ((back ++ m.beginLine :: block) ++ [m.endLine]) := by
      rw [written]
      simp only [List.append_assoc, List.cons_append]
    have hparts : m.parts (front ++ b :: back ++ m.written block) =
        some (front, back ++ m.beginLine :: block, []) := by
      rw [hsplit, parts, splitFirst_append hfront hb, Option.bind_some,
        splitFirst_append hmid m.end_isEnd, Option.map_some]
    have htake : (front ++ b :: back).takeWhile (fun l => !m.isBegin l) = front := by
      have hnot : ∀ l ∈ front, (!m.isBegin l) = true := fun l hl => by rw [hfront l hl]; rfl
      rw [List.takeWhile_append_of_pos hnot, List.takeWhile_cons, hb]
      exact List.append_nil front
    rw [hput, put, hparts, htake]
    exact List.append_nil _

theorem put_overwrites {write : β → List α} (hwrite : ∀ b, ∀ l ∈ write b, m.isEnd l = false) :
    Overwrites (fun ls => ¬m.Orphan ls) fun ls b => m.put ls (write b) where
  fit := by
    intro ls b h horphan
    have hparts := parts_put h (hwrite b)
    rw [horphan.2] at hparts
    cases hparts
  put_put := by
    intro ls a b h
    have hput (block : List α) :
        m.put ls block = (m.outside ls).1 ++ m.written block ++ (m.outside ls).2 := by
      rw [put, outside]
      cases m.parts ls with
      | some parts => rfl
      | none => exact (List.append_nil _).symm
    rw [put, parts_put h (hwrite a)]
    exact (hput (write b)).symm

end BlockMarkers

end AiFw.Lib
