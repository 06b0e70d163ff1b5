import Mathlib.Data.List.Basic
import Mathlib.Data.List.Forall2

namespace AiFw.Lib
set_option autoImplicit true

/-- The computation does not panic, which it does with `none`, and its value meets a condition. -/
def Safe (m : Option α) (P : α → Prop) : Prop := ∃ a, m = some a ∧ P a

theorem Safe.isSome (h : Safe m P) : m.isSome = true := by
  obtain ⟨a, rfl, _⟩ := h
  rfl

theorem Safe.pure {P : α → Prop} (h : P a) : Safe (some a) P := ⟨a, rfl, h⟩

theorem Safe.mono (h : Safe m P) (hPQ : ∀ a, P a → Q a) : Safe m Q := by
  obtain ⟨a, ha, hP⟩ := h
  exact ⟨a, ha, hPQ a hP⟩

theorem Safe.bind {f : α → Option β} (h : Safe m P) (hf : ∀ a, P a → Safe (f a) Q) :
    Safe (m >>= f) Q := by
  obtain ⟨a, rfl, hP⟩ := h
  exact hf a hP

theorem Safe.ite {c : Prop} [Decidable c] {m₁ m₂ : Option α} (h₁ : c → Safe m₁ P)
    (h₂ : ¬c → Safe m₂ P) : Safe (if c then m₁ else m₂) P := by
  by_cases h : c
  · rw [if_pos h]
    exact h₁ h
  · rw [if_neg h]
    exact h₂ h

theorem safe_getElem {l : List α} (h : i < l.length) : Safe l[i]? fun _ => True :=
  ⟨l[i], List.getElem?_eq_getElem h, trivial⟩

/-- The items of a list one after the other. -/
theorem safe_mapM {f : α → Option β} {l : List α} (h : ∀ a ∈ l, Safe (f a) P) :
    Safe (l.mapM f) fun bs => ∀ b ∈ bs, P b := by
  induction l with
  | nil => exact .pure (List.forall_mem_nil _)
  | cons a l ih =>
    obtain ⟨ha, hl⟩ := List.forall_mem_cons.mp h
    rw [List.mapM_cons]
    apply ha.bind
    intro b hb
    apply (ih hl).bind
    intro bs hbs
    exact .pure (List.forall_mem_cons.mpr ⟨hb, hbs⟩)

/-- What a round of a loop comes to. -/
inductive Round (σ ρ : Type) where
  | done (result : ρ)
  | next (state : σ)

/-- A run of a loop from a state to its result. No round of it panics. -/
inductive Ends {σ ρ : Type} (body : σ → Option (Round σ ρ)) : σ → ρ → Prop
  | done : body s = some (.done r) → Ends body s r
  | next : body s = some (.next s') → Ends body s' r → Ends body s r

/-- A round keeps the invariant and lowers the rank, or ends with a result of the kind. -/
def Round.Lowers {σ ρ : Type} (inv : σ → Prop) (rank : σ → Nat) (P : ρ → Prop) (s : σ) :
    Round σ ρ → Prop
  | .done r => P r
  | .next s' => inv s' ∧ rank s' < rank s

section Loops
variable {σ ρ : Type} {body : σ → Option (Round σ ρ)} {inv : σ → Prop} {rank : σ → Nat}
  {P : ρ → Prop}

theorem exists_ends (h : ∀ s, inv s → Safe (body s) (Round.Lowers inv rank P s)) (hs : inv s) :
    ∃ r, Ends body s r ∧ P r := by
  induction hn : rank s using Nat.strongRecOn generalizing s with
  | ind n ih =>
    obtain ⟨round, hround, hlowers⟩ := h s hs
    cases round with
    | done r => exact ⟨r, .done hround, hlowers⟩
    | next s' =>
      obtain ⟨hinv, hlt⟩ := hlowers
      rw [hn] at hlt
      obtain ⟨r, hends, hr⟩ := ih (rank s') hlt hinv rfl
      exact ⟨r, .next hround hends, hr⟩

/-- The loop itself, where every round lowers a rank. -/
def runLoop (body : σ → Option (Round σ ρ)) (rank : σ → Nat)
    (h : ∀ s s', body s = some (.next s') → rank s' < rank s) (s : σ) : Option ρ :=
  match body s, h s with
  | none, _ => none
  | some (.done r), _ => some r
  | some (.next s'), _ => runLoop body rank h s'
termination_by rank s
decreasing_by
  rename_i hlower
  exact hlower s' rfl

theorem runLoop_of_ends {h : ∀ s s', body s = some (.next s') → rank s' < rank s}
    (hends : Ends body s r) : runLoop body rank h s = some r := by
  induction hends with
  | done hround =>
    rw [runLoop]
    split
    · next hnone _ =>
      rw [hround] at hnone
      cases hnone
    · next hdone _ =>
      rw [hround] at hdone
      cases hdone
      rfl
    · next hnext _ =>
      rw [hround] at hnext
      cases hnext
  | next hround _ ih =>
    rw [runLoop]
    split
    · next hnone _ =>
      rw [hround] at hnone
      cases hnone
    · next hdone _ =>
      rw [hround] at hdone
      cases hdone
    · next hnext _ =>
      rw [hround] at hnext
      cases hnext
      exact ih

end Loops

def be16 (v : UInt16) : List UInt8 := [(v >>> 8).toUInt8, v.toUInt8]

/-- `u16::from_be_bytes` -/
def fromBe16 (a b : UInt8) : UInt16 := a.toUInt16 <<< 8 ||| b.toUInt16

theorem fromBe16_toNat (a b : UInt8) : (fromBe16 a b).toNat = 256 * a.toNat + b.toNat := by
  have hb : b.toNat < 2 ^ 8 := b.toNat_lt
  have ha : a.toNat <<< 8 < 2 ^ 16 := by
    rw [Nat.shiftLeft_eq]
    have := a.toNat_lt
    omega
  have hshift : (a.toUInt16 <<< 8).toNat = a.toNat <<< 8 := by
    rw [UInt16.toNat_shiftLeft, UInt8.toNat_toUInt16]
    exact Nat.mod_eq_of_lt ha
  rw [fromBe16, UInt16.toNat_or, hshift, UInt8.toNat_toUInt16,
    ← Nat.shiftLeft_add_eq_or_of_lt hb, Nat.shiftLeft_eq, Nat.mul_comm]

theorem fromBe16_be16 (v : UInt16) : fromBe16 (v >>> 8).toUInt8 v.toUInt8 = v := by
  have hhigh : (v >>> 8).toNat = v.toNat / 256 := Nat.shiftRight_eq_div_pow v.toNat 8
  have hv : v.toNat < 65536 := v.toNat_lt
  apply UInt16.toNat_inj.mp
  rw [fromBe16_toNat, UInt16.toNat_toUInt8, UInt16.toNat_toUInt8, hhigh]
  omega

/-- The bytes of a number are those of no other pair. -/
theorem fromBe16_inj (h : fromBe16 a b = fromBe16 c d) : a = c ∧ b = d := by
  have hnat := congrArg UInt16.toNat h
  rw [fromBe16_toNat, fromBe16_toNat] at hnat
  have hb := b.toNat_lt
  have hd := d.toNat_lt
  constructor
  · apply UInt8.toNat_inj.mp
    omega
  · apply UInt8.toNat_inj.mp
    omega

/-- Two bytes read as a number. -/
def readBe16 (data : List UInt8) (pos : Nat) : Option UInt16 := do
  let a ← data[pos]?
  let b ← data[pos + 1]?
  return fromBe16 a b

theorem safe_readBe16 (h : pos + 2 ≤ data.length) : Safe (readBe16 data pos) fun _ => True := by
  apply (safe_getElem (Nat.lt_of_succ_lt h)).bind
  intro a _
  apply (safe_getElem h).bind
  intro b _
  exact .pure trivial

/-- The numbers of two bytes each, without a last byte on its own. -/
def pairs : List UInt8 → List UInt16
  | a :: b :: rest => fromBe16 a b :: pairs rest
  | _ => []

theorem pairs_be16 (values : List UInt16) : pairs (values.flatMap be16) = values := by
  induction values with
  | nil => rfl
  | cons v values ih =>
    have hcons : pairs ((v :: values).flatMap be16) =
        fromBe16 (v >>> 8).toUInt8 v.toUInt8 :: pairs (values.flatMap be16) := rfl
    rw [hcons, fromBe16_be16, ih]

/-- The loop that reads them from a position on, as long as they end before the bound. -/
def readPairs (data : List UInt8) (stop pos : Nat) : Option (List UInt16) :=
  if pos + 2 ≤ stop then do
    let v ← readBe16 data pos
    let rest ← readPairs data stop (pos + 2)
    return v :: rest
  else some []
termination_by stop - pos

theorem readBe16_eq (h : data.drop pos = a :: b :: rest) :
    readBe16 data pos = some (fromBe16 a b) := by
  have hfirst : data[pos]? = some a := by
    rw [← List.head?_drop, h]
    rfl
  have hsecond : data[pos + 1]? = some b := by
    rw [← List.head?_drop, ← List.drop_drop, h]
    rfl
  rw [readBe16, hfirst, hsecond]
  rfl

/-- The pairs of the bytes up to the bound. -/
theorem readPairs_eq (h : stop ≤ data.length) :
    readPairs data stop pos = some (pairs ((data.take stop).drop pos)) := by
  have hlength : (data.take stop).length = stop := List.length_take_of_le h
  fun_induction readPairs data stop pos with
  | case1 pos hpos ih =>
    have hdrop : (data.take stop).drop pos = (data.take stop)[pos] ::
        (data.take stop)[pos + 1] :: (data.take stop).drop (pos + 2) := by
      rw [List.drop_eq_getElem_cons (by omega), List.drop_eq_getElem_cons (by omega)]
    have hread : readBe16 data pos =
        some (fromBe16 (data.take stop)[pos] (data.take stop)[pos + 1]) := by
      have hdata : data.drop pos = (data.take stop)[pos] :: (data.take stop)[pos + 1] ::
          data.drop (pos + 2) := by
        rw [List.getElem_take, List.getElem_take, List.drop_eq_getElem_cons (by omega),
          List.drop_eq_getElem_cons (by omega)]
      exact readBe16_eq hdata
    rw [hread, ih, hdrop, pairs]
    rfl
  | case2 pos hpos =>
    have hshort : ((data.take stop).drop pos).length ≤ 1 := by
      rw [List.length_drop]
      omega
    match (data.take stop).drop pos, hshort with
    | [], _ => rfl
    | [a], _ => rfl

/-- What stands from a position on up to a bound inside of the data. -/
structure Rest (data : List α) (stop pos : Nat) (rest : List α) : Prop where
  inside : stop ≤ data.length
  reached : pos ≤ stop
  same : (data.take stop).drop pos = rest

theorem Rest.start (data : List α) : Rest data data.length 0 data where
  inside := Nat.le_refl _
  reached := Nat.zero_le _
  same := by rw [List.take_length, List.drop_zero]

namespace Rest
variable {data : List α}

theorem length (h : Rest data stop pos rest) : pos + rest.length = stop := by
  have hreached := h.reached
  rw [← h.same, List.length_drop, List.length_take_of_le h.inside]
  omega

theorem skip (h : Rest data stop pos (front ++ rest)) :
    Rest data stop (pos + front.length) rest where
  inside := h.inside
  reached := by
    rw [← h.length, List.length_append]
    omega
  same := by rw [← List.drop_drop, h.same, List.drop_left]

theorem next (h : Rest data stop pos (a :: rest)) : Rest data stop (pos + 1) rest := by
  have hfront : Rest data stop pos ([a] ++ rest) := h
  exact hfront.skip

theorem narrow (h : Rest data stop pos (front ++ rest)) :
    Rest data (pos + front.length) pos front where
  inside := Nat.le_trans h.skip.reached h.inside
  reached := Nat.le_add_right _ _
  same := by
    have hdrop := h.same
    rw [List.drop_take] at hdrop
    have hle : front.length ≤ stop - pos := by
      have hlength := h.length
      rw [List.length_append] at hlength
      omega
    rw [List.drop_take, Nat.add_sub_cancel_left]
    calc (data.drop pos).take front.length
        = ((data.drop pos).take (stop - pos)).take front.length := by
          rw [List.take_take, Nat.min_eq_left hle]
      _ = front := by rw [hdrop, List.take_left]

theorem getElem (h : Rest data stop pos (a :: rest)) : data[pos]? = some a := by
  have hlt : pos < stop := by
    rw [← h.length]
    exact Nat.lt_add_of_pos_right (Nat.succ_pos _)
  rw [← List.getElem?_take_of_lt hlt, ← List.head?_drop, h.same, List.head?_cons]

theorem take (h : Rest data stop pos rest) (n : Nat) :
    (data.take (min (pos + n) stop)).drop pos = rest.take n := by
  rw [← List.take_take, List.drop_take, Nat.add_sub_cancel_left, h.same]

end Rest

theorem Rest.readBe16 (h : Rest data stop pos (a :: b :: rest)) :
    readBe16 data pos = some (fromBe16 a b) := by
  rw [Lib.readBe16, h.getElem, h.next.getElem]
  rfl

theorem Rest.word (h : Rest data stop pos (be16 v ++ rest)) :
    Lib.readBe16 data pos = some v ∧ Rest data stop (pos + 2) rest := by
  refine ⟨?_, h.skip⟩
  rw [h.readBe16, fromBe16_be16]

theorem Rest.readPairs (h : Rest data stop pos rest) (n : Nat) :
    readPairs data (min (pos + n) stop) pos = some (pairs (rest.take n)) := by
  rw [readPairs_eq (Nat.le_trans (Nat.min_le_right _ _) h.inside), h.take]

/-- `String::from_utf8` -/
def fromUtf8 (data : List UInt8) : Option (List Char) :=
  data.toByteArray.utf8Decode?.map Array.toList

theorem fromUtf8_encoded (t : List Char) : fromUtf8 (t.flatMap String.utf8EncodeChar) = some t := by
  have hdecode : t.utf8Encode.utf8Decode? = some t.toArray := List.utf8Decode?_utf8Encode
  rw [List.utf8Encode] at hdecode
  rw [fromUtf8, hdecode, Option.map_some]

end AiFw.Lib
