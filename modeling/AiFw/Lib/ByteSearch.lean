import Mathlib.Data.List.Infix

namespace AiFw.Lib
set_option autoImplicit true

/-- `u8::to_ascii_lowercase`. -/
def asciiLower (b : UInt8) : UInt8 := if 0x41 ≤ b ∧ b ≤ 0x5A then b + 0x20 else b

def toAsciiLowercase (s : List UInt8) : List UInt8 := s.map asciiLower

theorem asciiLower_lower (b : UInt8) : asciiLower (asciiLower b) = asciiLower b := by
  simp only [asciiLower, UInt8.le_iff_toNat_le]
  split
  next h =>
    rw [if_neg]
    rw [UInt8.toNat_add]
    simp only [UInt8.reduceToNat] at h ⊢
    omega
  next => rfl

theorem toAsciiLowercase_lower (s : List UInt8) :
    toAsciiLowercase (toAsciiLowercase s) = toAsciiLowercase s := by
  rw [toAsciiLowercase, toAsciiLowercase, List.map_map]
  exact List.map_congr_left fun b _ => asciiLower_lower b

def OccursNocase (pattern data : List UInt8) : Prop :=
  toAsciiLowercase pattern <:+: toAsciiLowercase data

instance : Decidable (OccursNocase pattern data) :=
  inferInstanceAs (Decidable (toAsciiLowercase pattern <:+: toAsciiLowercase data))

theorem OccursNocase.ofInfix (h : pattern <:+: data) : OccursNocase pattern data :=
  h.map asciiLower

theorem occursNocase_lower_iff :
    OccursNocase (toAsciiLowercase pattern) data ↔ OccursNocase pattern data := by
  rw [OccursNocase, OccursNocase, toAsciiLowercase_lower]

/-- `slice::windows`: the contiguous blocks of a positive length. -/
def windows (n : Nat) : List α → List (List α)
  | [] => []
  | x :: xs => if n ≤ xs.length + 1 then (x :: xs).take n :: windows n xs else []

theorem infix_of_mem_windows {l w : List α} (h : w ∈ windows n l) : w <:+: l := by
  induction l with
  | nil => cases h
  | cons x xs ih =>
    simp only [windows] at h
    split at h
    · rcases List.mem_cons.mp h with he | hm
      · subst w
        exact (List.take_prefix n (x :: xs)).isInfix
      · exact List.infix_cons (ih hm)
    · cases h

/-- `slice[start..end]` for bounds within the data. -/
def slice (start stop : Nat) (data : List α) : List α := (data.take stop).drop start

theorem slice_isInfix (start stop : Nat) (data : List α) : slice start stop data <:+: data :=
  (List.drop_suffix _ _).isInfix.trans (List.take_prefix _ _).isInfix

theorem slice_eq (start stop : Nat) (data : List α) :
    slice start stop data = (data.drop start).take (stop - start) := List.drop_take

/-- A part occurs in a slice exactly where it is a slice within the bounds. -/
theorem infix_slice_iff {part data : List α} (hne : part ≠ []) :
    part <:+: slice start stop data ↔ ∃ i, start ≤ i ∧ i + part.length ≤ stop ∧
      i + part.length ≤ data.length ∧ slice i (i + part.length) data = part := by
  have hpos := List.length_pos_iff.mpr hne
  constructor
  · rintro ⟨a, b, hab⟩
    have hlength := congrArg List.length hab
    rw [List.append_assoc, slice_eq] at hab
    simp only [slice, List.length_append, List.length_drop, List.length_take] at hlength
    refine ⟨start + a.length, Nat.le_add_right _ _, by omega, by omega, ?_⟩
    have hdrop := congrArg (List.drop a.length) hab
    rw [List.drop_left, List.drop_take, List.drop_drop] at hdrop
    have htake := congrArg (List.take part.length) hdrop
    rw [List.take_left, List.take_take, Nat.min_eq_left (by omega)] at htake
    rw [slice_eq, Nat.add_sub_cancel_left, ← htake]
  · rintro ⟨i, hstart, hstop, -, hpart⟩
    rw [slice_eq, Nat.add_sub_cancel_left] at hpart
    have hdrop : (slice start stop data).drop (i - start) = (data.drop i).take (stop - i) := by
      rw [slice_eq, List.drop_take, List.drop_drop, Nat.add_sub_cancel' hstart]
      congr 1
      omega
    apply List.infix_iff_prefix_suffix.mpr
    refine ⟨(data.drop i).take (stop - i), ?_, hdrop ▸ List.drop_suffix _ _⟩
    rw [← hpart]
    exact List.take_prefix_take_left (by omega)

theorem mem_windows_of_infix {l w : List α} (hne : w ≠ []) (h : w <:+: l) :
    w ∈ windows w.length l := by
  induction l with
  | nil => exact absurd (List.infix_nil.mp h) hne
  | cons x xs ih =>
    have hlength := h.length_le
    rw [List.length_cons] at hlength
    rw [windows, if_pos hlength, List.mem_cons]
    obtain hprefix | hinfix := List.infix_cons_iff.mp h
    · exact .inl (List.prefix_iff_eq_take.mp hprefix)
    · exact .inr (ih hinfix)

end AiFw.Lib
