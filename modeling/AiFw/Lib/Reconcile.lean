import AiFw.Lib.KeyedMap
import AiFw.Lib.Table

namespace AiFw.Lib.KeyedMap
set_option autoImplicit true

variable {K V : Type} [DecidableEq K] {m m' m₁ m₂ m₃ : KeyedMap K V}

def insertAll (l : List (K × V)) (m : KeyedMap K V) : KeyedMap K V :=
  l.foldl (fun m e => m.insert e.1 e.2) m

def eraseAll (ks : List K) (m : KeyedMap K V) : KeyedMap K V :=
  ks.foldl (fun m k => m.erase k) m

/-- The same bindings, in whatever order. -/
def Same (m m' : KeyedMap K V) : Prop := ∀ k, m.lookup k = m'.lookup k

theorem Same.refl (m : KeyedMap K V) : Same m m := fun _ => rfl

theorem Same.symm (h : Same m m') : Same m' m := fun k => (h k).symm

theorem Same.trans (h : Same m₁ m₂) (h' : Same m₂ m₃) : Same m₁ m₃ := fun k => (h k).trans (h' k)

theorem lookup_insertAll {l : List (K × V)} {m : KeyedMap K V} (h : Keyed Prod.fst l) :
    (insertAll l m).lookup k = some v ↔
      (k, v) ∈ l ∨ hasKey Prod.fst k l = false ∧ m.lookup k = some v := by
  induction l generalizing m with
  | nil =>
    simp only [insertAll, List.foldl_nil, List.not_mem_nil, false_or, hasKey, List.any_nil, true_and]
  | cons e l ih =>
    have htail : Keyed Prod.fst l := h.sublist fun r hr => List.mem_cons_of_mem e hr
    change (insertAll l (m.insert e.1 e.2)).lookup k = some v ↔ _
    rw [ih htail, hasKey_eq_false, hasKey_eq_false, List.forall_mem_cons, List.mem_cons]
    by_cases hk : k = e.1
    · subst k
      rw [AList.lookup_insert, Option.some.injEq]
      constructor
      · rintro (hm | ⟨-, rfl⟩)
        · exact .inl (.inr hm)
        · exact .inl (.inl rfl)
      · rintro ((he | hm) | ⟨⟨hne, -⟩, -⟩)
        · by_cases hm : (e.1, v) ∈ l
          · exact .inl hm
          · refine .inr ⟨?_, (congrArg Prod.snd he).symm⟩
            -- the only binding of the key is this one
            intro e' he' hkey
            rw [h e' (List.mem_cons_of_mem e he') e List.mem_cons_self hkey, ← he] at he'
            exact hm he'
        · exact .inl hm
        · exact absurd rfl hne
    · rw [AList.lookup_insert_ne hk]
      constructor
      · rintro (hm | ⟨hnone, hl⟩)
        · exact .inl (.inr hm)
        · exact .inr ⟨⟨Ne.symm hk, hnone⟩, hl⟩
      · rintro ((he | hm) | ⟨⟨-, hnone⟩, hl⟩)
        · exact absurd (congrArg Prod.fst he) hk
        · exact .inl hm
        · exact .inr ⟨hnone, hl⟩

theorem lookup_eraseAll (ks : List K) (m : KeyedMap K V) :
    (eraseAll ks m).lookup k = some v ↔ k ∉ ks ∧ m.lookup k = some v := by
  induction ks generalizing m with
  | nil => simp only [eraseAll, List.foldl_nil, List.not_mem_nil, not_false_eq_true, true_and]
  | cons k' ks ih =>
    change (eraseAll ks (m.erase k')).lookup k = some v ↔ _
    rw [ih, List.mem_cons, not_or, and_assoc]
    by_cases hk : k = k'
    · subst k'
      rw [AList.lookup_erase]
      exact ⟨(fun h => nomatch h.2), fun h => absurd rfl h.1⟩
    · rw [AList.lookup_erase_ne hk]
      exact ⟨fun h => ⟨hk, h⟩, fun h => h.2⟩

def bindings (m : KeyedMap K V) : List (K × V) := m.entries.map fun e => (e.1, e.2)

theorem mem_bindings {m : KeyedMap K V} : (k, v) ∈ m.bindings ↔ m.lookup k = some v := by
  rw [← mem_entries (e := ⟨k, v⟩), bindings, List.mem_map]
  constructor
  · rintro ⟨⟨k', v'⟩, he, hp⟩
    cases hp
    exact he
  · exact fun he => ⟨_, he, rfl⟩

theorem keyed_bindings (m : KeyedMap K V) : Keyed Prod.fst m.bindings := by
  rintro ⟨k, v⟩ hv ⟨k', v'⟩ hv' hk
  cases hk
  rw [Option.some.inj ((mem_bindings.mp hv).symm.trans (mem_bindings.mp hv'))]

/-- Remove what is there and not desired, and write all that is desired. -/
def reconcile (desired existing : KeyedMap K V) : KeyedMap K V :=
  insertAll desired.bindings
    (eraseAll (existing.keys.filter fun k => (desired.lookup k).isNone) existing)

/-- Whatever was there before, what is desired is there and nothing else. -/
theorem reconcile_same (desired existing : KeyedMap K V) :
    Same (reconcile desired existing) desired := by
  intro k
  apply Option.ext
  intro v
  rw [reconcile, lookup_insertAll (keyed_bindings desired), mem_bindings, lookup_eraseAll]
  constructor
  · rintro (hm | ⟨hnone, hkept, hl⟩)
    · exact hm
    · refine absurd (List.mem_filter.mpr ⟨?_, ?_⟩) hkept
      · rw [← AList.mem_keys, ← AList.lookup_isSome, hl]
        rfl
      · cases hd : desired.lookup k with
        | none => rfl
        | some v' => exact absurd rfl (hasKey_eq_false.mp hnone _ (mem_bindings.mpr hd))
  · exact .inl

end AiFw.Lib.KeyedMap
