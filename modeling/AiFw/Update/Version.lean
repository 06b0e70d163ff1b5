import AiFw.Lib.ListOrder
import AiFw.Lib.Numerals
import AiFw.Lib.Separated

namespace AiFw.Update
open AiFw.Lib
set_option autoImplicit true

def parseVersion (v : List Char) : List Nat :=
  (splitOn '.' v).filterMap (parseUnsigned 4294967296)

def versionNewer (current latest : List Char) : Bool := parseVersion current < parseVersion latest

example : versionNewer "5.3.3".toList "5.4.0".toList = true := by decide +kernel

def isIdChar (c : Char) : Bool := c.isAlphanum || c = '-'

/-- The text of an identifier that is no number. -/
structure Word where
  text : List Char
  chars : ∀ c ∈ text, isIdChar c = true
  letter : ∃ c ∈ text, toDigit 10 c = none
deriving DecidableEq

inductive Identifier where
  | numeric (n : Nat)
  | word (w : Word)
deriving DecidableEq

def Identifier.text : Identifier → List Char
  | .numeric n => Nat.toDigits 10 n
  | .word w => w.text

/-- A version is a release if it has no identifiers after the patch. -/
structure Version where
  major : Nat
  minor : Nat
  patch : Nat
  preRelease : List Identifier
deriving DecidableEq

def Version.text (v : Version) : List Char :=
  Nat.toDigits 10 v.major ++ '.' :: (Nat.toDigits 10 v.minor ++ '.' :: (Nat.toDigits 10 v.patch ++
    match v.preRelease with
    | [] => []
    | ids => '-' :: ['.'].intercalate (ids.map Identifier.text)))

/-- Numbers come before words; words compare sign by sign. -/
def Identifier.Lower : Identifier → Identifier → Prop
  | .numeric m, .numeric n => m < n
  | .numeric _, .word _ => True
  | .word _, .numeric _ => False
  | .word s, .word t => s.text < t.text

/-- A release comes after its pre-releases. -/
def PreReleaseLower : List Identifier → List Identifier → Prop
  | [], _ => False
  | _ :: _, [] => True
  | ids, ids' => List.Lex Identifier.Lower ids ids'

/-- The precedence of semantic versions. -/
def Version.Lower (v w : Version) : Prop :=
  v.major < w.major ∨ v.major = w.major ∧
    (v.minor < w.minor ∨ v.minor = w.minor ∧
      (v.patch < w.patch ∨ v.patch = w.patch ∧ PreReleaseLower v.preRelease w.preRelease))

/-- What stands between the points of a version; the patch of a pre-release stands together with its
first identifier. -/
inductive Part where
  | number (n : Nat)
  | mixed (n : Nat) (id : Identifier)
  | word (w : Word)
deriving DecidableEq

def Part.text : Part → List Char
  | .number n => Nat.toDigits 10 n
  | .mixed n id => Nat.toDigits 10 n ++ '-' :: id.text
  | .word w => w.text

/-- The number of a part that the comparison keeps. -/
def Part.kept : Part → Option Nat
  | .number n => if n < 4294967296 then some n else none
  | _ => none

def Part.Lower : Part → Part → Prop
  | .number m, .number n => m < n
  | .number m, .mixed n _ => m < n
  | .mixed m _, .number n => m ≤ n
  | .mixed m id, .mixed n id' => m < n ∨ m = n ∧ id.Lower id'
  | .number _, .word _ => True
  | .word s, .word t => s.text < t.text
  | _, _ => False

def Identifier.part : Identifier → Part
  | .numeric n => .number n
  | .word w => .word w

def Version.parts (v : Version) : List Part :=
  .number v.major :: .number v.minor ::
    match v.preRelease with
    | [] => [.number v.patch]
    | id :: ids => .mixed v.patch id :: ids.map Identifier.part

theorem Part.lower_part (id id' : Identifier) : id.part.Lower id'.part ↔ id.Lower id' := by
  cases id <;> cases id' <;> rfl

theorem Identifier.part_injective : Function.Injective Identifier.part := by
  intro id id' h
  cases id <;> cases id' <;> cases h <;> rfl

theorem Identifier.lower_irrefl (id : Identifier) : ¬ id.Lower id := by
  cases id with
  | numeric n => exact Nat.lt_irrefl n
  | word w => exact List.lt_irrefl w.text

theorem Part.lower_irrefl (p : Part) : ¬ p.Lower p := by
  cases p with
  | number n => exact Nat.lt_irrefl n
  | mixed n id =>
    simp only [Part.Lower, Nat.lt_irrefl, true_and, false_or]
    exact id.lower_irrefl
  | word w => exact List.lt_irrefl w.text

theorem lex_map_part (ids ids' : List Identifier) :
    List.Lex Part.Lower (ids.map Identifier.part) (ids'.map Identifier.part) ↔
      List.Lex Identifier.Lower ids ids' := by
  induction ids generalizing ids' with
  | nil => cases ids' <;> simp
  | cons id ids ih =>
    cases ids' with
    | nil => simp
    | cons id' ids' =>
      simp only [List.map_cons, List.cons_lex_cons_iff, Part.lower_part, ih,
        Identifier.part_injective.eq_iff]

/-- The precedence is the order of the parts, from the left. -/
theorem Version.lower_iff (v w : Version) :
    v.Lower w ↔ List.Lex Part.Lower v.parts w.parts := by
  unfold Version.Lower Version.parts
  simp only [List.cons_lex_cons_iff, Part.Lower, Part.number.injEq]
  apply or_congr_right
  apply and_congr_right
  intro _
  apply or_congr_right
  apply and_congr_right
  intro _
  cases v.preRelease with
  | nil =>
    cases w.preRelease with
    | nil => simp [PreReleaseLower, List.cons_lex_cons_iff, Part.Lower]
    | cons id' ids' => simp [PreReleaseLower, List.cons_lex_cons_iff, Part.Lower]
  | cons id ids =>
    cases w.preRelease with
    | nil =>
      simp [PreReleaseLower, List.cons_lex_cons_iff, Part.Lower, Nat.le_iff_lt_or_eq]
    | cons id' ids' =>
      simp only [PreReleaseLower, List.cons_lex_cons_iff, Part.Lower, Part.mixed.injEq,
        lex_map_part]
      tauto

theorem parseUnsigned_toDigits_ge (h : bound ≤ n) :
    parseUnsigned bound (Nat.toDigits 10 n) = none := by
  obtain ⟨ds, hds, hv⟩ := mapM_toDigits (b := 10) (by decide) (by decide) n
  have hne : Nat.toDigits 10 n ≠ [] := Nat.toDigits_ne_nil
  unfold parseUnsigned
  split
  · rename_i cs hcs
    have hplus := isSome_toDigit_of_mem (b := 10) (by decide) (by decide) n
      (hcs ▸ List.mem_cons_self)
    cases hplus
  · simp only [hne, hds, hv, Nat.not_lt.mpr h, if_false]

/-- The comparison keeps of a part what its text parses to. -/
theorem Part.parse_text (p : Part) : parseUnsigned 4294967296 p.text = p.kept := by
  cases p with
  | number n =>
    rw [Part.text, Part.kept]
    split
    next h => exact parseUnsigned_toDigits h
    next h => exact parseUnsigned_toDigits_ge (Nat.le_of_not_lt h)
  | mixed n id =>
    have hmem : '-' ∈ Nat.toDigits 10 n ++ '-' :: id.text :=
      List.mem_append_right _ List.mem_cons_self
    exact parseUnsigned_none hmem (by decide) (by decide)
  | word w =>
    obtain ⟨c, hc, hdigit⟩ := w.letter
    apply parseUnsigned_none hc _ hdigit
    rintro rfl
    have hplus := w.chars _ hc
    revert hplus
    decide

theorem point_notMem_toDigits (n : Nat) : '.' ∉ Nat.toDigits 10 n := by
  intro h
  have hdigit := isSome_toDigit_of_mem (b := 10) (by decide) (by decide) n h
  cases hdigit

theorem Identifier.point_notMem (id : Identifier) : '.' ∉ id.text := by
  cases id with
  | numeric n => exact point_notMem_toDigits n
  | word w =>
    intro h
    have hpoint := w.chars _ h
    revert hpoint
    decide

theorem Identifier.text_part (id : Identifier) : id.part.text = id.text := by
  cases id <;> rfl

theorem Part.point_notMem (p : Part) : '.' ∉ p.text := by
  cases p with
  | number n => exact point_notMem_toDigits n
  | mixed n id =>
    intro h
    rcases List.mem_append.mp h with h | h
    · exact point_notMem_toDigits n h
    · rcases List.mem_cons.mp h with h | h
      · cases h
      · exact id.point_notMem h
  | word w => exact (Identifier.word w).point_notMem

theorem append_intercalate (front first sep : List Char) (rest : List (List Char)) :
    front ++ sep.intercalate (first :: rest) = sep.intercalate ((front ++ first) :: rest) := by
  cases rest with
  | nil => simp [List.intercalate]
  | cons second rest => simp [List.intercalate]

theorem Version.text_eq (v : Version) :
    v.text = ['.'].intercalate (v.parts.map Part.text) := by
  unfold Version.text Version.parts
  cases v.preRelease with
  | nil => simp [List.intercalate, Part.text]
  | cons id ids =>
    have htexts : ids.map (Part.text ∘ Identifier.part) = ids.map Identifier.text := by
      apply List.map_congr_left
      intro id' _
      exact id'.text_part
    have hpatch : Nat.toDigits 10 v.patch ++ '-' :: ['.'].intercalate
        (id.text :: ids.map Identifier.text) = ['.'].intercalate
          ((Part.mixed v.patch id).text :: ids.map Identifier.text) := by
      rw [← List.intercalate_cons_cons_left, append_intercalate]
      rfl
    simp only [List.map_cons, List.map_map, htexts, hpatch, List.intercalate_cons_cons]
    simp [Part.text]

/-- The parts are what the text is split into. -/
theorem Version.splitOn_text (v : Version) : splitOn '.' v.text = v.parts.map Part.text := by
  rw [Version.text_eq]
  apply splitOn_intercalate
  · intro p hp
    obtain ⟨part, -, rfl⟩ := List.mem_map.mp hp
    exact part.point_notMem
  · exact List.cons_ne_nil _ _

theorem Version.parse_text (v : Version) : parseVersion v.text = v.parts.filterMap Part.kept := by
  rw [parseVersion, Version.splitOn_text, List.filterMap_map]
  apply List.filterMap_congr
  intro p _
  exact p.parse_text

theorem Part.kept_lower (p q : Part) (a b : Nat) (hne : p ≠ q) (hp : p.kept = some a)
    (hq : q.kept = some b) : a ≠ b ∧ (p.Lower q ↔ a < b) := by
  cases p with
  | number m =>
    cases q with
    | number n =>
      simp only [Part.kept, Option.ite_none_right_eq_some, Option.some.injEq] at hp hq
      obtain ⟨-, rfl⟩ := hp
      obtain ⟨-, rfl⟩ := hq
      refine ⟨?_, Iff.rfl⟩
      rintro rfl
      exact hne rfl
    | mixed n id => cases hq
    | word w => cases hq
  | mixed n id => cases hp
  | word w => cases hp

theorem versionNewer_text (current latest : Version) :
    versionNewer current.text latest.text = true ↔
      current.parts.filterMap Part.kept < latest.parts.filterMap Part.kept := by
  rw [versionNewer, decide_eq_true_eq, Version.parse_text, Version.parse_text]

/-- A version is found newer exactly when it has the higher precedence, if and only if the numbers
that are kept are telling. -/
theorem versionNewer_iff (current latest : Version) :
    (versionNewer current.text latest.text = true ↔ current.Lower latest) ↔
      Telling Part.Lower Part.kept current.parts latest.parts := by
  rw [versionNewer_text, Version.lower_iff]
  exact kept_order_iff Part.lower_irrefl Part.kept_lower _ _

/-- Versions that first differ in parts that are kept are compared by their precedence. -/
theorem versionNewer_of_decided {current latest : Version}
    (h : Decided Part.kept current.parts latest.parts) :
    versionNewer current.text latest.text = true ↔ current.Lower latest := by
  rw [versionNewer_text, Version.lower_iff]
  exact (kept_order_iff Part.lower_irrefl Part.kept_lower _ _).mpr h.telling

/-- So are releases whose numbers all fit. -/
theorem versionNewer_releases {current latest : Version}
    (hcurrent : current.preRelease = []) (hlatest : latest.preRelease = [])
    (hkept : ∀ p ∈ current.parts ++ latest.parts, p.kept.isSome) :
    versionNewer current.text latest.text = true ↔ current.Lower latest := by
  apply versionNewer_of_decided
  simp only [Version.parts, hcurrent, hlatest] at hkept ⊢
  simp only [List.cons_append, List.nil_append, List.forall_mem_cons] at hkept
  obtain ⟨hmajor, hminor, hpatch, hmajor', hminor', hpatch', -⟩ := hkept
  simp only [Decided, hmajor, hminor, hpatch, hmajor', hminor', hpatch', and_self, ite_self]

/-- `5.3.4-rc.10`. -/
def candidate : Version :=
  ⟨5, 3, 4, [.word ⟨"rc".toList, forall_mem_of_all (by decide), 'r', by decide, by decide⟩,
    .numeric 10]⟩

/-- A release is not found newer than its tenth candidate, whose 10 stands in the place of the 4. -/
theorem release_not_newer :
    candidate.text = "5.3.4-rc.10".toList ∧ (Version.mk 5 3 4 []).text = "5.3.4".toList ∧
      ¬ (versionNewer candidate.text (Version.mk 5 3 4 []).text = true ↔
        candidate.Lower (Version.mk 5 3 4 [])) := by
  have htext : candidate.text = "5.3.4-rc.10".toList := by decide +kernel
  have hrelease : (Version.mk 5 3 4 []).text = "5.3.4".toList := by decide +kernel
  have hnewer : versionNewer "5.3.4-rc.10".toList "5.3.4".toList = false := by decide +kernel
  refine ⟨htext, hrelease, ?_⟩
  rw [htext, hrelease, hnewer]
  intro h
  have hlower : candidate.Lower (Version.mk 5 3 4 []) :=
    .inr ⟨rfl, .inr ⟨rfl, .inr ⟨rfl, trivial⟩⟩⟩
  cases h.mpr hlower

end AiFw.Update
