import Mathlib.Algebra.Ring.Nat
import Mathlib.Data.List.AList
import Mathlib.Data.List.TakeWhile

namespace AiFw.Lib
set_option autoImplicit true

section
variable {K V : Type}

/-- A finite map, as the list of its entries with distinct keys. -/
abbrev KeyedMap (K V : Type) := AList (fun _ : K => V)

abbrev Entry (K V : Type) := Sigma (fun _ : K => V)

/-- An order in which a map hands out its bindings; the map promises no particular one. -/
structure IterOrder (K V : Type) where
  order : List (Entry K V) → List (Entry K V)
  perm : ∀ l, (order l).Perm l

def IterOrder.asStored : IterOrder K V := ⟨id, fun l => .refl l⟩

namespace KeyedMap

def size (m : KeyedMap K V) : Nat := m.entries.length

def weight (w : V → Nat) (m : KeyedMap K V) : Nat := (m.entries.map fun e => w e.2).sum

theorem weight_of_perm (w : V → Nat) {m : KeyedMap K V} (h : m.entries.Perm l) :
    m.weight w = (l.map fun e => w e.2).sum :=
  (h.map _).sum_nat

/-- `retain`: keep the bindings the predicate accepts. -/
def retain (p : K → V → Bool) (m : KeyedMap K V) : KeyedMap K V :=
  ⟨m.entries.filter fun e => p e.1 e.2, m.nodupKeys.sublist List.filter_sublist⟩

theorem weight_retain (w : V → Nat) (p : K → V → Bool) (m : KeyedMap K V) :
    m.weight w = weight w (m.retain p) + weight w (m.retain fun k v => !p k v) := by
  rw [weight_of_perm w (List.filter_append_perm (fun e : Entry K V => p e.1 e.2) _).symm,
    List.map_append, List.sum_append]
  rfl

theorem size_retain_le (p : K → V → Bool) (m : KeyedMap K V) : size (m.retain p) ≤ m.size :=
  List.length_filter_le _ _

variable [DecidableEq K]

theorem mem_entries {m : KeyedMap K V} {e : Entry K V} :
    e ∈ m.entries ↔ m.lookup e.1 = some e.2 := by
  rw [← Option.mem_def, AList.mem_lookup_iff]

theorem perm_cons_erase {m : KeyedMap K V} (h : m.lookup k = some v) :
    m.entries.Perm (⟨k, v⟩ :: (m.erase k).entries) := by
  have hk : k ∈ m.entries.keys := by
    rw [← AList.keys, ← AList.mem_keys, ← AList.lookup_isSome, h]
    rfl
  obtain ⟨v', l₁, l₂, -, he, hr⟩ := List.exists_of_kerase hk
  have hv : m.lookup k = some v' := by
    rw [← mem_entries (e := ⟨k, v'⟩), he]
    exact List.mem_append_right _ List.mem_cons_self
  cases Option.some.inj (h.symm.trans hv)
  change m.entries.Perm (⟨k, v⟩ :: List.kerase k m.entries)
  rw [hr, he]
  exact List.perm_middle

theorem weight_erase (w : V → Nat) {m : KeyedMap K V} (h : m.lookup k = some v) :
    m.weight w = w v + weight w (m.erase k) :=
  weight_of_perm w (perm_cons_erase h)

theorem weight_insert (w : V → Nat) (m : KeyedMap K V) (k : K) (v : V) :
    weight w (m.insert k v) = w v + weight w (m.erase k) := rfl

theorem erase_of_none {m : KeyedMap K V} (h : m.lookup k = none) : m.erase k = m := by
  apply AList.ext
  exact List.kerase_of_notMem_keys (AList.lookup_eq_none.mp h)

theorem size_erase {m : KeyedMap K V} (h : m.lookup k = some v) :
    m.size = size (m.erase k) + 1 := by
  exact (perm_cons_erase h).length_eq

theorem size_insert (m : KeyedMap K V) (k : K) (v : V) :
    size (m.insert k v) = size (m.erase k) + 1 := rfl

theorem lookup_retain {p : K → V → Bool} {m : KeyedMap K V} :
    (m.retain p).lookup k = some v ↔ m.lookup k = some v ∧ p k v = true := by
  rw [← mem_entries (e := ⟨k, v⟩), ← mem_entries (e := ⟨k, v⟩)]
  exact List.mem_filter

def removeAll (w : V → Nat) : List K → KeyedMap K V → Nat → KeyedMap K V × Nat
  | [], m, freed => (m, freed)
  | k :: ks, m, freed =>
    match m.lookup k with
    | some v => removeAll w ks (m.erase k) (freed + w v)
    | none => removeAll w ks m freed

theorem removeAll_spec (w : V → Nat) {E R : List (Entry K V)} {m : KeyedMap K V}
    (h : (E ++ R).Perm m.entries) (freed : Nat) :
    (removeAll w (E.map Sigma.fst) m freed).1.entries.Perm R ∧
      (removeAll w (E.map Sigma.fst) m freed).2 = freed + (E.map fun e => w e.2).sum := by
  induction E generalizing m freed with
  | nil => exact ⟨h.symm, rfl⟩
  | cons e E ih =>
    have he : m.lookup e.1 = some e.2 := mem_entries.mp (h.subset List.mem_cons_self)
    have hr : (E ++ R).Perm (m.erase e.1).entries :=
      (h.trans (perm_cons_erase he)).cons_inv
    simp only [List.map_cons, removeAll, he, List.sum_cons]
    refine ⟨(ih hr _).1, ?_⟩
    rw [(ih hr _).2, Nat.add_assoc]

def Forall (P : K → V → Prop) (m : KeyedMap K V) : Prop := ∀ k v, m.lookup k = some v → P k v

theorem Forall.empty (P : K → V → Prop) : Forall P (∅ : KeyedMap K V) := by
  intro k v h
  rw [AList.lookup_empty] at h
  cases h

theorem Forall.insert {P : K → V → Prop} {m : KeyedMap K V} (h : Forall P m) (hv : P k v) :
    Forall P (m.insert k v) := by
  intro k' v' hl
  by_cases he : k' = k
  · subst k'
    rw [AList.lookup_insert] at hl
    cases hl
    exact hv
  · rw [AList.lookup_insert_ne he] at hl
    exact h k' v' hl

theorem Forall.of_subset {P : K → V → Prop} {m m' : KeyedMap K V} (h : Forall P m)
    (hs : m'.entries ⊆ m.entries) : Forall P m' := by
  intro k v hl
  exact h k v (mem_entries.mp (hs (mem_entries (e := ⟨k, v⟩).mpr hl)))

theorem Forall.retain {P : K → V → Prop} {m : KeyedMap K V} (h : Forall P m)
    (p : K → V → Bool) : Forall P (m.retain p) :=
  h.of_subset List.filter_sublist.subset

end KeyedMap

end

section
variable {K S I O : Type}

def outputs (hit : Option S → I → S × O) : Option S → List I → List O
  | _, [] => []
  | s, i :: is => (hit s i).2 :: outputs hit (some (hit s i).1) is

namespace KeyedMap

variable [DecidableEq K]

/-- One input for the machine at a key; the machines of the other keys do not move. -/
def hitAt (hit : Option S → I → S × O) (m : KeyedMap K S) (k : K) (i : I) : KeyedMap K S × O :=
  (m.insert k (hit (m.lookup k) i).1, (hit (m.lookup k) i).2)

theorem lookup_hitAt_self {hit : Option S → I → S × O} {m : KeyedMap K S} :
    (m.hitAt hit k i).1.lookup k = some (hit (m.lookup k) i).1 := AList.lookup_insert _

theorem lookup_hitAt_ne {hit : Option S → I → S × O} {m : KeyedMap K S} (h : k' ≠ k) :
    (m.hitAt hit k i).1.lookup k' = m.lookup k' := AList.lookup_insert_ne h

def outputsAt (hit : Option S → I → S × O) : KeyedMap K S → List (K × I) → List O
  | _, [] => []
  | m, (k, i) :: is => (m.hitAt hit k i).2 :: outputsAt hit (m.hitAt hit k i).1 is

def ownOutputs (k : K) (is : List (K × I)) (os : List O) : List O :=
  ((is.zip os).filter fun e => e.1.1 = k).map Prod.snd

def ownInputs (k : K) (is : List (K × I)) : List I := (is.filter fun e => e.1 = k).map Prod.snd

/-- Each machine of the family answers as it would alone. -/
theorem ownOutputs_outputsAt (hit : Option S → I → S × O) (m : KeyedMap K S) (k : K)
    (is : List (K × I)) :
    ownOutputs k is (m.outputsAt hit is) = outputs hit (m.lookup k) (ownInputs k is) := by
  induction is generalizing m with
  | nil => rfl
  | cons e is ih =>
    obtain ⟨k', i⟩ := e
    have ih := ih (m.hitAt hit k' i).1
    rw [ownOutputs, ownInputs] at ih ⊢
    by_cases h : k' = k
    · subst k'
      rw [lookup_hitAt_self] at ih
      simp only [outputsAt, List.zip_cons_cons, List.filter_cons, decide_true, if_true,
        List.map_cons, outputs, ih]
      rfl
    · rw [lookup_hitAt_ne fun he => h he.symm] at ih
      simp only [outputsAt, List.zip_cons_cons, List.filter_cons, h, decide_false,
        Bool.false_eq_true, if_false, ih]

end KeyedMap

/-- A timed sequence cut into windows: each starts at its first element and ends before the
first later one that is `span` or more after that start. -/
def timeWindows (time : I → Int) (span : Int) : List I → List (List I)
  | [] => []
  | x :: xs =>
    (x :: xs.takeWhile fun y => decide (time y - time x < span)) ::
      timeWindows time span (xs.dropWhile fun y => decide (time y - time x < span))
termination_by xs => xs.length
decreasing_by
  rw [List.length_cons]
  exact Nat.lt_succ_of_le (List.dropWhile_sublist _).length_le

theorem timeWindows_eq_single {time : I → Int} {span : Int} {x : I} {xs : List I}
    (h : ∀ y ∈ xs, time y - time x < span) : timeWindows time span (x :: xs) = [x :: xs] := by
  have hall : ∀ y ∈ xs, decide (time y - time x < span) = true :=
    fun y hy => decide_eq_true (h y hy)
  rw [timeWindows, List.takeWhile_eq_self_iff.mpr hall, List.dropWhile_eq_nil_iff.mpr hall,
    timeWindows]

/-- The first `c` elements hold as many marked ones as a quota of `c` allows exactly if all of
them are marked or none after them is. -/
theorem countP_take_eq_min_iff (p : I → Bool) (c : Nat) (l : List I) :
    (l.take c).countP p = min c (l.countP p) ↔
      (∀ x ∈ l.take c, p x = true) ∨ ∀ x ∈ l.drop c, p x = false := by
  have hsum : l.countP p = (l.take c).countP p + (l.drop c).countP p := by
    rw [← List.countP_append, List.take_append_drop]
  have hle : (l.take c).countP p ≤ (l.take c).length := List.countP_le_length
  have hall : (∀ x ∈ l.take c, p x = true) ↔ (l.take c).countP p = (l.take c).length :=
    List.countP_eq_length.symm
  have hnone : (∀ x ∈ l.drop c, p x = false) ↔ (l.drop c).countP p = 0 := by
    rw [List.countP_eq_zero]
    simp only [Bool.not_eq_true]
  have hdrop : (l.drop c).countP p ≤ l.length - c := by
    rw [← List.length_drop]
    exact List.countP_le_length
  rw [hall, hnone, hsum]
  rw [List.length_take] at hle ⊢
  omega

end

end AiFw.Lib
