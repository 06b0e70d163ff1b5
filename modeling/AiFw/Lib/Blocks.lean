import Mathlib.Algebra.Group.Nat.Defs
import Mathlib.Data.List.Basic
import Mathlib.Data.List.Range
import Mathlib.Data.Nat.ModEq

namespace AiFw.Lib
set_option autoImplicit true

section
variable {α : Type}

/-- The list cut into blocks of `k` elements, with fewer than `k` left over at the end. -/
structure Cut (k : Nat) (l : List α) (blocks : List (List α)) (rest : List α) : Prop where
  whole : l = blocks.flatten ++ rest
  size : ∀ b ∈ blocks, b.length = k
  short : rest.length < k

/-- The complete blocks of `k` elements, one after the other. -/
def fullBlocks (k : Nat) (l : List α) : List (List α) :=
  (List.range (l.length / k)).map fun i => (l.drop (i * k)).take k

theorem Cut.nil (hk : 0 < k) : Cut k ([] : List α) [] [] where
  whole := rfl
  size := List.forall_mem_nil _
  short := hk

theorem Cut.wait (h : Cut k l blocks rest) (hr : rest.length + 1 < k) (x : α) :
    Cut k (l ++ [x]) blocks (rest ++ [x]) where
  whole := by rw [h.whole, List.append_assoc]
  size := h.size
  short := by
    rw [List.length_append, List.length_singleton]
    exact hr

theorem Cut.close (h : Cut k l blocks rest) (hr : rest.length + 1 = k) (x : α) :
    Cut k (l ++ [x]) (blocks ++ [rest ++ [x]]) [] where
  whole := by
    rw [h.whole, List.flatten_append, List.flatten_singleton, List.append_nil, List.append_assoc]
  size := by
    intro b hb
    rcases List.mem_append.mp hb with hb | hb
    · exact h.size b hb
    · rw [List.mem_singleton.mp hb, List.length_append, List.length_singleton]
      exact hr
  short := by
    rw [← hr]
    exact Nat.succ_pos _

theorem length_flatten_of_size {blocks : List (List α)} (h : ∀ b ∈ blocks, b.length = k) :
    blocks.flatten.length = blocks.length * k := by
  induction blocks with
  | nil => rw [List.flatten_nil, List.length_nil, List.length_nil, Nat.zero_mul]
  | cons b blocks ih =>
    obtain ⟨hb, hrest⟩ := List.forall_mem_cons.mp h
    rw [List.flatten_cons, List.length_append, hb, ih hrest, List.length_cons, Nat.succ_mul,
      Nat.add_comm]

theorem Cut.length (h : Cut k l blocks rest) : l.length = blocks.length * k + rest.length := by
  rw [h.whole, List.length_append, length_flatten_of_size h.size]

theorem Cut.count (h : Cut k l blocks rest) : blocks.length = l.length / k := by
  have hk : 0 < k := Nat.lt_of_le_of_lt (Nat.zero_le _) h.short
  rw [h.length, Nat.mul_comm, Nat.mul_add_div hk, Nat.div_eq_of_lt h.short, Nat.add_zero]

/-- A list is cut in one way only. -/
theorem Cut.unique (h : Cut k l blocks rest) (h' : Cut k l blocks' rest') : blocks = blocks' := by
  have hcount : blocks.length = blocks'.length := h.count.trans h'.count.symm
  have hflat : blocks.flatten = blocks'.flatten := by
    have hlength : blocks.flatten.length = blocks'.flatten.length := by
      rw [length_flatten_of_size h.size, length_flatten_of_size h'.size, hcount]
    exact (List.append_inj (h.whole.symm.trans h'.whole) hlength).1
  have hsize := h.size
  have hsize' := h'.size
  clear h h'
  induction blocks generalizing blocks' with
  | nil => exact (List.length_eq_zero_iff.mp hcount.symm).symm
  | cons b blocks ih =>
    cases blocks' with
    | nil => cases hcount
    | cons b' blocks' =>
      obtain ⟨hb, hrest⟩ := List.forall_mem_cons.mp hsize
      obtain ⟨hb', hrest'⟩ := List.forall_mem_cons.mp hsize'
      rw [List.flatten_cons, List.flatten_cons] at hflat
      obtain ⟨rfl, htail⟩ := List.append_inj hflat (hb.trans hb'.symm)
      rw [ih (Nat.succ.inj hcount) htail hrest hrest']

theorem flatten_take_blocks (k : Nat) (l : List α) (q : Nat) :
    ((List.range q).map fun i => (l.drop (i * k)).take k).flatten = l.take (q * k) := by
  induction q with
  | zero => rw [Nat.zero_mul, List.take_zero]; rfl
  | succ q ih =>
    rw [List.range_succ, List.map_append, List.flatten_append, ih, Nat.succ_mul, List.take_add,
      List.map_singleton, List.flatten_singleton]

theorem fullBlocks_cut (hk : 0 < k) (l : List α) :
    Cut k l (fullBlocks k l) (l.drop (l.length / k * k)) where
  whole := by rw [fullBlocks, flatten_take_blocks, List.take_append_drop]
  size := by
    intro b hb
    obtain ⟨i, hi, rfl⟩ := List.mem_map.mp hb
    have hq : (i + 1) * k ≤ l.length / k * k := Nat.mul_le_mul_right k (List.mem_range.mp hi)
    have hle := Nat.div_mul_le_self l.length k
    rw [Nat.succ_mul] at hq
    rw [List.length_take, List.length_drop]
    omega
  short := by
    rw [List.length_drop, ← Nat.mod_eq_sub_div_mul]
    exact Nat.mod_lt _ hk

theorem Cut.eq_fullBlocks (h : Cut k l blocks rest) : blocks = fullBlocks k l :=
  h.unique (fullBlocks_cut (Nat.lt_of_le_of_lt (Nat.zero_le _) h.short) l)

/-- Blocks of blocks are blocks of the product of the sizes. -/
theorem Cut.compose (h : Cut k l blocks rest) (h' : Cut m blocks groups left) :
    Cut (k * m) l (groups.map List.flatten) (left.flatten ++ rest) where
  whole := by
    rw [h.whole, h'.whole, List.flatten_append, List.flatten_flatten, List.append_assoc]
  size := by
    intro g hg
    obtain ⟨group, hgroup, rfl⟩ := List.mem_map.mp hg
    have hsize : ∀ b ∈ group, b.length = k := by
      intro b hb
      apply h.size
      rw [h'.whole]
      exact List.mem_append_left _ (List.mem_flatten.mpr ⟨group, hgroup, hb⟩)
    rw [length_flatten_of_size hsize, h'.size group hgroup, Nat.mul_comm]
  short := by
    have hsize : ∀ b ∈ left, b.length = k := by
      intro b hb
      apply h.size
      rw [h'.whole]
      exact List.mem_append_right _ hb
    have hrest := h.short
    have hleft : (left.length + 1) * k ≤ m * k := Nat.mul_le_mul_right k h'.short
    rw [List.length_append, length_flatten_of_size hsize, Nat.mul_comm k m]
    rw [Nat.succ_mul] at hleft
    omega

/-- Blocks of one element are the elements. -/
theorem Cut.singletons (l : List α) : Cut 1 l (l.map fun x => [x]) [] where
  whole := by rw [List.append_nil, ← List.flatMap_def, List.flatMap_singleton']
  size := by
    intro b hb
    obtain ⟨x, -, rfl⟩ := List.mem_map.mp hb
    rfl
  short := Nat.zero_lt_one

/-- The last elements, at most `n` of them. -/
def lastN (n : Nat) (l : List α) : List α := l.drop (l.length - n)

theorem length_lastN (n : Nat) (l : List α) : (lastN n l).length = min l.length n := by
  rw [lastN, List.length_drop]
  omega

theorem filterMap_range_self (l : List α) : ((List.range l.length).filterMap fun i => l[i]?) = l := by
  induction l with
  | nil => rfl
  | cons x l ih =>
    have htail : ((List.range l.length).map Nat.succ).filterMap (fun i => (x :: l)[i]?) = l := by
      rw [List.filterMap_map]
      exact ih
    rw [List.length_cons, List.range_succ_eq_map]
    exact congrArg (x :: ·) htail

/-- Two numbers less than a turn apart fall on different places of a circle. -/
theorem mod_ne_of_lt {i j c : Nat} (hij : i < j) (hj : j < i + c) : j % c ≠ i % c := by
  intro heq
  have hdvd : c ∣ j - i := (Nat.modEq_iff_dvd' (Nat.le_of_lt hij)).mp heq.symm
  exact absurd (Nat.le_of_dvd (Nat.sub_pos_of_lt hij) hdvd) (by omega)

/-- The place before the one of the next number. -/
theorem place_before (n : Nat) {c : Nat} (hc : 0 < c) :
    (if (n + 1) % c = 0 then c - 1 else (n + 1) % c - 1) = n % c := by
  have hlt := Nat.mod_lt n hc
  have hnext : (n + 1) % c = (n % c + 1) % c := (Nat.mod_add_mod n c 1).symm
  rw [hnext]
  rcases Nat.lt_or_eq_of_le (Nat.succ_le_of_lt hlt) with h | h
  · rw [Nat.mod_eq_of_lt h, if_neg (Nat.succ_ne_zero _)]
    exact Nat.add_sub_cancel _ 1
  · rw [← Nat.succ_eq_add_one, h, Nat.mod_self, if_pos rfl]
    omega

end

section
variable {α : Type}

/-- Read from a stream that arrives in chunks until there is enough or it ends. -/
def readUpTo : Nat → List (List α) → List α × List (List α)
  | _, [] => ([], [])
  | n, chunk :: chunks =>
    if chunk.length ≤ n then
      let (read, rest) := readUpTo (n - chunk.length) chunks
      (chunk ++ read, rest)
    else (chunk.take n, chunk.drop n :: chunks)

/-- How the stream is cut makes no difference. -/
theorem readUpTo_eq (n : Nat) (chunks : List (List α)) :
    (readUpTo n chunks).1 = chunks.flatten.take n ∧
      (readUpTo n chunks).2.flatten = chunks.flatten.drop n := by
  induction chunks generalizing n with
  | nil =>
    rw [List.flatten_nil, List.take_nil, List.drop_nil]
    exact ⟨rfl, rfl⟩
  | cons chunk chunks ih =>
    rw [readUpTo, List.flatten_cons]
    split
    case isTrue hle =>
      obtain ⟨hread, hrest⟩ := ih (n - chunk.length)
      dsimp only
      rw [List.take_append, List.take_of_length_le hle, List.drop_append,
        List.drop_eq_nil_of_le hle, List.nil_append, hread, hrest]
      exact ⟨rfl, rfl⟩
    case isFalse hgt =>
      have hle : n ≤ chunk.length := Nat.le_of_lt (Nat.lt_of_not_le hgt)
      rw [List.take_append_of_le_length hle, List.drop_append_of_le_length hle]
      exact ⟨rfl, rfl⟩

/-- What the stream starts with is read from it, and what follows is left. -/
theorem readUpTo_of_append {chunks : List (List α)} (h : chunks.flatten = wanted ++ later) :
    ∃ rest, readUpTo wanted.length chunks = (wanted, rest) ∧ rest.flatten = later := by
  obtain ⟨hread, hrest⟩ := readUpTo_eq wanted.length chunks
  rw [h, List.take_left] at hread
  rw [h, List.drop_left] at hrest
  exact ⟨_, Prod.ext hread rfl, hrest⟩

theorem readUpTo_of_short {chunks : List (List α)} (h : chunks.flatten.length < n) :
    ∃ rest, readUpTo n chunks = (chunks.flatten, rest) := by
  obtain ⟨hread, -⟩ := readUpTo_eq n chunks
  rw [List.take_of_length_le (Nat.le_of_lt h)] at hread
  exact ⟨_, Prod.ext hread rfl⟩

end

end AiFw.Lib
