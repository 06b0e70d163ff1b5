import AiFw.Lib.Table
import Mathlib.Data.List.MinMax
import Mathlib.Data.List.Nodup
import Mathlib.Data.List.Perm.Basic
import Mathlib.Data.List.Perm.Subperm
import Mathlib.Order.Lattice

namespace AiFw.Lib
set_option autoImplicit true

section
variable {α ι : Type} [LinearOrder α] [LinearOrder ι]

/-- A max-heap by its contents; the order of the list carries no meaning. -/
abbrev BinaryHeap (α : Type) := List α

namespace BinaryHeap

def push (heap : BinaryHeap α) (x : α) : BinaryHeap α := x :: heap

def peek (heap : BinaryHeap α) : Option α := heap.max?

def pop (heap : BinaryHeap α) : BinaryHeap α :=
  match heap.peek with
  | some top => heap.erase top
  | none => heap

theorem peek_spec {heap : BinaryHeap α} (h : heap.peek = some top) :
    top ∈ heap ∧ ∀ x ∈ heap, x ≤ top :=
  List.max?_eq_some_iff.mp h

theorem perm_pop {heap : BinaryHeap α} (h : heap.peek = some top) :
    heap.Perm (top :: heap.pop) := by
  rw [pop, h]
  exact List.perm_cons_erase (peek_spec h).1

end BinaryHeap

/-- Offer one element to a heap that holds at most `n`: below capacity it is pushed, at capacity
it replaces the greatest element when its rank is strictly smaller. -/
def offer (n : Nat) (rank : α → ι) (heap : BinaryHeap α) (x : α) : BinaryHeap α :=
  if heap.length < n then heap.push x
  else
    match heap.peek with
    | some top => if rank x < rank top then heap.pop.push x else heap
    | none => heap

/-- A division of a list into a batch of `n` (or all, if there are fewer) and a rest, with no
element of the batch ranked above one of the rest. -/
structure OldestSplit (rank : α → ι) (n : Nat) (l batch rest : List α) : Prop where
  perm : (batch ++ rest).Perm l
  length : batch.length = min n l.length
  le : ∀ x ∈ batch, ∀ y ∈ rest, rank x ≤ rank y

omit [LinearOrder α] in
theorem OldestSplit.nil (rank : α → ι) (n : Nat) : OldestSplit rank n [] [] [] :=
  ⟨.refl _, by simp only [List.length_nil, Nat.min_zero], by
    intro x hx
    cases hx⟩

omit [LinearOrder α] in
theorem OldestSplit.zero_iff {rank : α → ι} :
    OldestSplit rank 0 l batch rest ↔ batch = [] ∧ rest.Perm l := by
  constructor
  · intro h
    have hb : batch = [] := by
      apply List.eq_nil_of_length_eq_zero
      rw [h.length, Nat.zero_min]
    subst hb
    exact ⟨rfl, h.perm⟩
  · intro h
    obtain ⟨rfl, hp⟩ := h
    exact ⟨hp, (Nat.zero_min _).symm, fun _ hx => by cases hx⟩

omit [LinearOrder α] in
theorem OldestSplit.of_perm {rank : α → ι} (h : OldestSplit rank n l batch rest)
    (hp : l.Perm l') : OldestSplit rank n l' batch rest :=
  ⟨h.perm.trans hp, by rw [h.length, hp.length_eq], h.le⟩

omit [LinearOrder α] in
theorem OldestSplit.map {β : Type} {rank : α → ι} {f : β → α} {l batch rest : List β}
    (h : OldestSplit (fun x => rank (f x)) n l batch rest) :
    OldestSplit rank n (l.map f) (batch.map f) (rest.map f) := by
  refine ⟨?_, ?_, ?_⟩
  · rw [← List.map_append]
    exact h.perm.map f
  · rw [List.length_map, List.length_map, h.length]
  · intro x hx y hy
    obtain ⟨x', hx', rfl⟩ := List.mem_map.mp hx
    obtain ⟨y', hy', rfl⟩ := List.mem_map.mp hy
    exact h.le x' hx' y' hy'

omit [LinearOrder α] in
theorem OldestSplit.rest_nil {rank : α → ι} (h : OldestSplit rank n l batch rest)
    (hn : batch.length < n) : rest = [] := by
  have hp := h.perm.length_eq
  have hl := h.length
  rw [List.length_append] at hp
  apply List.eq_nil_of_length_eq_zero
  omega

theorem OldestSplit.offer {rank : α → ι} (hm : Monotone rank)
    (h : OldestSplit rank n l heap rest) (x : α) :
    ∃ rest', OldestSplit rank n (x :: l) (offer n rank heap x) rest' := by
  have hlen := h.length
  unfold AiFw.Lib.offer
  split
  case isTrue hn =>
    have hr := h.rest_nil hn
    subst rest
    refine ⟨[], ⟨h.perm.cons x, ?_, fun _ _ _ hy => by cases hy⟩⟩
    simp only [BinaryHeap.push, List.length_cons]
    omega
  case isFalse hn =>
    cases hp : BinaryHeap.peek heap with
    | none =>
      have he : heap = [] := List.max?_eq_none_iff.mp hp
      subst heap
      refine ⟨x :: rest, ⟨h.perm.cons x, ?_, fun _ hx => by cases hx⟩⟩
      simp only [List.length_nil] at hn ⊢
      omega
    | some top =>
      obtain ⟨hmem, hmax⟩ := BinaryHeap.peek_spec hp
      have hpop := BinaryHeap.perm_pop hp
      simp only
      split
      case isTrue hlt =>
        refine ⟨top :: rest, ⟨?_, ?_, ?_⟩⟩
        · refine ((List.perm_middle.trans ?_).cons x).trans (h.perm.cons x)
          exact hpop.symm.append_right rest
        · have hl := hpop.length_eq
          simp only [BinaryHeap.push, List.length_cons] at hl ⊢
          omega
        · intro y hy z hz
          have hyt : rank y ≤ rank top := by
            rcases List.mem_cons.mp hy with he | hy
            · subst y; exact hlt.le
            · exact hm (hmax y (hpop.symm.subset (List.mem_cons_of_mem _ hy)))
          rcases List.mem_cons.mp hz with he | hz
          · subst z; exact hyt
          · exact hyt.trans (h.le top hmem z hz)
      case isFalse hlt =>
        refine ⟨x :: rest, ⟨List.perm_middle.trans (h.perm.cons x), ?_, ?_⟩⟩
        · simp only [List.length_cons]
          omega
        · intro y hy z hz
          rcases List.mem_cons.mp hz with he | hz
          · subst z
            exact (hm (hmax y hy)).trans (le_of_not_gt hlt)
          · exact h.le y hy z hz

def keepOldest (n : Nat) (rank : α → ι) (l : List α) : BinaryHeap α :=
  l.foldl (offer n rank) []

/-- Whatever the order of the pass, the heap ends up holding an oldest batch. -/
theorem keepOldest_split {rank : α → ι} (hm : Monotone rank) (n : Nat) (l : List α) :
    ∃ rest, OldestSplit rank n l (keepOldest n rank l) rest := by
  have hgen : ∀ (done : List α) (heap rest : List α), OldestSplit rank n done heap rest →
      ∃ rest', OldestSplit rank n (l.reverse ++ done) (l.foldl (offer n rank) heap) rest' := by
    induction l with
    | nil =>
      intro done heap rest h
      exact ⟨rest, h⟩
    | cons x l ih =>
      intro done heap rest h
      obtain ⟨rest', h'⟩ := h.offer hm x
      obtain ⟨rest'', h''⟩ := ih _ _ _ h'
      refine ⟨rest'', ?_⟩
      simpa only [List.reverse_cons, List.append_assoc, List.cons_append, List.nil_append,
        List.foldl_cons] using h''
  obtain ⟨rest, h⟩ := hgen [] [] [] (.nil rank n)
  rw [List.append_nil] at h
  have hlen := h.length
  rw [List.length_reverse] at hlen
  exact ⟨rest, h.perm.trans (List.reverse_perm l), hlen, h.le⟩

theorem foldl_offer_below (rank : α → ι) {l heap : List α} (h : l.length + heap.length ≤ n) :
    l.foldl (offer n rank) heap = l.reverse ++ heap := by
  induction l generalizing heap with
  | nil => rfl
  | cons x l ih =>
    simp only [List.length_cons] at h
    have ho : offer n rank heap x = x :: heap := if_pos (by omega)
    rw [List.foldl_cons, ho, ih (by simp only [List.length_cons]; omega), List.reverse_cons,
      List.append_assoc, List.cons_append, List.nil_append]

theorem foldl_offer_full {rank : α → ι} {l heap : List α} (hn : n ≤ heap.length)
    (h : ∀ x ∈ heap, ∀ y ∈ l, rank x ≤ rank y) : l.foldl (offer n rank) heap = heap := by
  induction l with
  | nil => rfl
  | cons y l ih =>
    have ho : offer n rank heap y = heap := by
      unfold offer
      rw [if_neg (by omega)]
      cases hp : BinaryHeap.peek heap with
      | none => rfl
      | some top =>
        have ht := h top (BinaryHeap.peek_spec hp).1 y List.mem_cons_self
        exact if_neg (not_lt_of_ge ht)
    rw [List.foldl_cons, ho]
    exact ih fun x hx z hz => h x hx z (List.mem_cons_of_mem _ hz)

/-- Every oldest batch is reached by some order of the pass: visit the batch first. -/
theorem keepOldest_batch {rank : α → ι} (h : OldestSplit rank n l batch rest) :
    keepOldest n rank (batch ++ rest) = batch.reverse := by
  have hlen := h.length
  have hn : batch.length ≤ n := hlen ▸ Nat.min_le_left _ _
  have hb : batch.foldl (offer n rank) [] = batch.reverse := by
    rw [foldl_offer_below rank (by simpa only [List.length_nil, Nat.add_zero] using hn),
      List.append_nil]
  rw [keepOldest, List.foldl_append, hb]
  by_cases hlt : batch.length < n
  · rw [h.rest_nil hlt]
    rfl
  · apply foldl_offer_full
    · rw [List.length_reverse]
      omega
    · intro x hx y hy
      exact h.le x (List.mem_reverse.mp hx) y hy

omit [LinearOrder α] in
theorem OldestSplit.of_map {β : Type} {rank : α → ι} {f : β → α} {l : List β}
    (h : OldestSplit rank n (l.map f) batch rest) :
    ∃ batch' rest', batch'.map f = batch ∧ rest'.map f = rest ∧
      OldestSplit (fun x => rank (f x)) n l batch' rest' := by
  obtain ⟨l', he, hl⟩ : Relation.Comp (· = List.map f ·) (· |>.Perm ·) (batch ++ rest) l := by
    rw [List.eq_map_comp_perm]
    exact h.perm
  obtain ⟨batch', rest', rfl, hb, hr⟩ := List.map_eq_append_iff.mp he.symm
  subst hb hr
  refine ⟨batch', rest', rfl, rfl, hl, ?_, ?_⟩
  · simpa only [List.length_map] using h.length
  · intro x hx y hy
    exact h.le _ (List.mem_map_of_mem hx) _ (List.mem_map_of_mem hy)

omit [LinearOrder α] in
theorem OldestSplit.older_lt {rank : α → ι} (h : OldestSplit rank n l batch rest)
    (hx : x ∈ batch) : (l.filter fun y => rank y < rank x).length < n := by
  have hrest : rest.filter (fun y => rank y < rank x) = [] := by
    apply List.filter_eq_nil_iff.mpr
    intro y hy
    rw [decide_eq_true_eq]
    exact not_lt_of_ge (h.le x hx y hy)
  have hbatch : (batch.filter fun y => rank y < rank x).length < batch.length := by
    apply List.length_filter_lt_length_iff_exists.mpr
    refine ⟨x, hx, ?_⟩
    rw [decide_eq_true_eq]
    exact lt_irrefl _
  have hlen := h.length
  rw [← (h.perm.filter _).length_eq, List.filter_append, hrest, List.append_nil]
  omega

omit [LinearOrder α] in
/-- However ties are broken, an oldest batch takes as many elements below a given rank as it
can. -/
theorem OldestSplit.length_filter_rest {rank : α → ι} (h : OldestSplit rank n l batch rest)
    (r : ι) : (rest.filter fun y => rank y < r).length =
      (l.filter fun y => rank y < r).length - n := by
  have hlen := h.length
  have hall := (h.perm.filter fun y => decide (rank y < r)).length_eq
  rw [List.filter_append, List.length_append] at hall
  by_cases hb : ∀ x ∈ batch, rank x < r
  · have hbatch : batch.filter (fun y => rank y < r) = batch := by
      apply List.filter_eq_self.mpr
      intro x hx
      exact decide_eq_true (hb x hx)
    rw [hbatch] at hall
    by_cases hn : batch.length < n
    · rw [h.rest_nil hn, List.filter_nil, List.length_nil] at hall ⊢
      omega
    · omega
  · obtain ⟨x, hx, hr⟩ : ∃ x ∈ batch, ¬rank x < r := by
      simpa only [not_forall, exists_prop] using hb
    have hrest : rest.filter (fun y => rank y < r) = [] := by
      apply List.filter_eq_nil_iff.mpr
      intro y hy
      rw [decide_eq_true_eq]
      exact not_lt_of_ge ((le_of_not_gt hr).trans (h.le x hx y hy))
    have hle := List.length_filter_le (fun y => decide (rank y < r)) batch
    rw [hrest, List.length_nil] at hall ⊢
    omega

def sortByRank (rank : α → ι) (l : List α) : List α :=
  l.mergeSort fun x y => decide (rank x ≤ rank y)

omit [LinearOrder α] in
theorem sortByRank_pairwise (rank : α → ι) (l : List α) :
    (sortByRank rank l).Pairwise fun x y => rank x ≤ rank y := by
  have h : (sortByRank rank l).Pairwise fun x y => decide (rank x ≤ rank y) = true :=
    List.pairwise_mergeSort
      (by simpa only [decide_eq_true_eq] using fun x y z h h' => le_trans h h')
      (by simpa only [Bool.or_eq_true, decide_eq_true_eq] using fun x y => le_total _ _) l
  simp only [decide_eq_true_eq] at h
  exact h

omit [LinearOrder α] in
theorem mem_sortByRank {rank : α → ι} : x ∈ sortByRank rank l ↔ x ∈ l :=
  List.mem_mergeSort

omit [LinearOrder α] in
theorem OldestSplit.of_sorted {rank : α → ι} {sorted l : List α} (hp : sorted.Perm l)
    (hs : sorted.Pairwise fun x y => rank x ≤ rank y) (n : Nat) :
    OldestSplit rank n l (sorted.take n) (sorted.drop n) := by
  refine ⟨by rw [List.take_append_drop]; exact hp, ?_, ?_⟩
  · rw [List.length_take, hp.length_eq]
  · rw [← List.take_append_drop n sorted] at hs
    exact (List.pairwise_append.mp hs).2.2

omit [LinearOrder α] in
theorem exists_oldestSplit_mem {rank : α → ι} (hx : x ∈ l)
    (hn : (l.filter fun y => rank y < rank x).length < n) :
    ∃ batch rest, OldestSplit rank n l batch rest ∧ x ∈ batch := by
  obtain ⟨l₁, l₂, rfl⟩ := List.append_of_mem hx
  have hmid : (l₁ ++ x :: l₂).Perm (x :: (l₁ ++ l₂)) := List.perm_middle
  have hnx : decide (rank x < rank x) = false := decide_eq_false (lt_irrefl _)
  rw [(hmid.filter _).length_eq, List.filter_cons, hnx] at hn
  let below := sortByRank rank ((l₁ ++ l₂).filter fun y => rank y < rank x)
  let above := sortByRank rank ((l₁ ++ l₂).filter fun y => !decide (rank y < rank x))
  have hbelow : ∀ y ∈ below, rank y < rank x := by
    intro y hy
    exact of_decide_eq_true (List.mem_filter.mp (mem_sortByRank.mp hy)).2
  have habove : ∀ y ∈ above, rank x ≤ rank y := by
    intro y hy
    have hd := (List.mem_filter.mp (mem_sortByRank.mp hy)).2
    rw [Bool.not_eq_true', decide_eq_false_iff_not] at hd
    exact le_of_not_gt hd
  have hperm : (below ++ x :: above).Perm (l₁ ++ x :: l₂) := by
    refine List.perm_middle.trans (.trans (.cons x ?_) hmid.symm)
    exact ((List.mergeSort_perm _ _).append (List.mergeSort_perm _ _)).trans
      (List.filter_append_perm _ _)
  have hsorted : (below ++ x :: above).Pairwise fun y z => rank y ≤ rank z := by
    refine List.pairwise_append.mpr ⟨sortByRank_pairwise _ _, ?_, ?_⟩
    · exact List.pairwise_cons.mpr ⟨habove, sortByRank_pairwise _ _⟩
    · intro y hy z hz
      rcases List.mem_cons.mp hz with he | hz
      · subst z; exact (hbelow y hy).le
      · exact (hbelow y hy).le.trans (habove z hz)
  refine ⟨_, _, .of_sorted hperm hsorted n, ?_⟩
  have hlen : below.length < n := (List.length_mergeSort _).trans_lt hn
  rw [List.take_append, List.take_of_length_le hlen.le]
  apply List.mem_append_right
  rw [List.take_cons (Nat.sub_pos_of_lt hlen)]
  exact List.mem_cons_self

end

section
variable {α κ : Type} [LinearOrder κ] {key : α → κ} {rows : List α}

/-- Rows stored under keys that only grow. -/
def Increasing (key : α → κ) (rows : List α) : Prop := rows.Pairwise fun a b => key a < key b

/-- The rows with the greatest keys, the greatest one first. -/
def newest (key : α → κ) (keep : Nat) (rows : List α) : List α :=
  (rows.mergeSort fun a b => decide (key b ≤ key a)).take keep

theorem newest_length (key : α → κ) (keep : Nat) (rows : List α) :
    (newest key keep rows).length ≤ keep := by
  rw [newest, List.length_take]
  exact Nat.min_le_left _ _

theorem Increasing.append_row (h : Increasing key rows) (hnew : ∀ r ∈ rows, key r < key row) :
    Increasing key (rows ++ [row]) := by
  apply List.pairwise_append.mpr
  refine ⟨h, List.pairwise_singleton _ _, ?_⟩
  intro r hr r' hr'
  rw [List.mem_singleton.mp hr']
  exact hnew r hr

theorem Increasing.nodup (h : Increasing key rows) : (rows.map key).Nodup := by
  apply List.pairwise_map.mpr
  exact h.imp ne_of_lt

theorem Increasing.keyed (h : Increasing key rows) : Keyed key rows :=
  fun _ hr _ hr' he => List.inj_on_of_nodup_map h.nodup hr hr' he

theorem Increasing.mergeSort (h : Increasing key rows) :
    (rows.mergeSort fun a b => decide (key b ≤ key a)) = rows.reverse := by
  have hsorted : (rows.mergeSort fun a b => decide (key b ≤ key a)).Pairwise
      fun a b => decide (key b ≤ key a) = true := by
    apply List.pairwise_mergeSort
    · intro a b c hab hbc
      exact decide_eq_true (le_trans (of_decide_eq_true hbc) (of_decide_eq_true hab))
    · intro a b
      rw [Bool.or_eq_true, decide_eq_true_eq, decide_eq_true_eq]
      exact le_total (key b) (key a)
  have hdown : rows.reverse.Pairwise fun a b => decide (key b ≤ key a) = true := by
    apply List.pairwise_reverse.mpr
    exact h.imp fun hlt => decide_eq_true (le_of_lt hlt)
  apply List.Perm.eq_of_pairwise ?_ hsorted hdown
  · exact (List.mergeSort_perm rows _).trans rows.reverse_perm.symm
  · intro a b ha hb hab hba
    have heq := le_antisymm (of_decide_eq_true hba) (of_decide_eq_true hab)
    exact h.keyed a (List.mem_mergeSort.mp ha) b (List.mem_reverse.mp hb) heq

/-- In a list from the greatest key down, the first rows are the ones with few above them. -/
theorem mem_take_iff (h : rows.Pairwise fun a b => key b < key a) (keep : Nat) :
    r ∈ rows.take keep ↔ r ∈ rows ∧ (rows.filter fun x => key r < key x).length < keep := by
  induction rows generalizing keep with
  | nil => simp only [List.take_nil, List.not_mem_nil, false_and]
  | cons a rows ih =>
    obtain ⟨hbelow, hrest⟩ := List.pairwise_cons.mp h
    cases keep with
    | zero => simp only [List.take_zero, List.not_mem_nil, Nat.not_lt_zero, and_false]
    | succ keep =>
      rw [List.take_succ_cons, List.mem_cons, List.mem_cons]
      by_cases he : r = a
      · subst he
        have hnone : (r :: rows).filter (fun x => key r < key x) = [] := by
          apply List.filter_eq_nil_iff.mpr
          intro x hx
          rw [decide_eq_true_eq]
          obtain rfl | hx := List.mem_cons.mp hx
          · exact lt_irrefl _
          · exact not_lt_of_gt (hbelow x hx)
        rw [hnone]
        exact iff_of_true (.inl rfl) ⟨.inl rfl, Nat.succ_pos keep⟩
      · rw [or_iff_right he, or_iff_right he, ih hrest]
        apply and_congr_right
        intro hr
        have hcons : (a :: rows).filter (fun x => decide (key r < key x)) =
            a :: rows.filter fun x => decide (key r < key x) :=
          List.filter_cons_of_pos (decide_eq_true (hbelow r hr))
        rw [hcons, List.length_cons, Nat.succ_lt_succ_iff]

theorem Increasing.mem_newest (h : Increasing key rows) (keep : Nat) :
    r ∈ newest key keep rows ↔ r ∈ rows ∧ (rows.filter fun x => key r < key x).length < keep := by
  have hdown : rows.reverse.Pairwise fun a b => key b < key a := List.pairwise_reverse.mpr h
  rw [newest, h.mergeSort, mem_take_iff hdown, List.mem_reverse, List.filter_reverse,
    List.length_reverse]

/-- Rows kept for one of a few keys are few. -/
theorem Increasing.length_filter_le (h : Increasing key rows) (p : α → Bool) (keys : List κ)
    (hp : ∀ r ∈ rows, p r = true → key r ∈ keys) : (rows.filter p).length ≤ keys.length := by
  have hnodup : ((rows.filter p).map key).Nodup :=
    h.nodup.sublist (List.filter_sublist.map key)
  have hsub : (rows.filter p).map key ⊆ keys := by
    intro k hk
    obtain ⟨r, hr, rfl⟩ := List.mem_map.mp hk
    obtain ⟨hr, hpr⟩ := List.mem_filter.mp hr
    exact hp r hr hpr
  have hle := (List.subperm_of_subset hnodup hsub).length_le
  rwa [List.length_map] at hle

end

end AiFw.Lib
