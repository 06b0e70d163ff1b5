import Mathlib.Data.List.Basic
import Mathlib.Data.List.Induction
import Mathlib.Data.List.Infix

namespace AiFw.Lib

set_option autoImplicit true

section

variable {σ ι : Type}

/-- A property of the state and the input at every step of a run. -/
def Along (step : σ → ι → σ) (P : σ → ι → Prop) : σ → List ι → Prop
  | _, [] => True
  | s, i :: is => P s i ∧ Along step P (step s i) is

/-- Two step properties that agree on the inputs of a kind, under an invariant the first one
keeps, agree on whole runs of such inputs. -/
theorem Along.congr_on {step : σ → ι → σ} {P Q : σ → ι → Prop} (D : ι → Prop) (Inv : σ → Prop)
    (hkeep : ∀ s i, D i → Inv s → P s i → Inv (step s i))
    (h : ∀ s i, D i → Inv s → (P s i ↔ Q s i)) (hs : Inv s) {l : List ι} (hl : ∀ i ∈ l, D i) :
    Along step P s l ↔ Along step Q s l := by
  induction l generalizing s with
  | nil => exact Iff.rfl
  | cons i l ih =>
    have hi := hl i List.mem_cons_self
    have hrest : ∀ j ∈ l, D j := fun j hj => hl j (List.mem_cons_of_mem i hj)
    constructor
    · rintro ⟨hp, hr⟩
      exact ⟨(h s i hi hs).mp hp, (ih (hkeep s i hi hs hp) hrest).mp hr⟩
    · rintro ⟨hq, hr⟩
      have hp := (h s i hi hs).mpr hq
      exact ⟨hp, (ih (hkeep s i hi hs hp) hrest).mpr hr⟩

/-- Two step properties that agree under an invariant the first one keeps agree on whole runs. -/
theorem Along.congr {step : σ → ι → σ} {P Q : σ → ι → Prop} (Inv : σ → Prop)
    (hkeep : ∀ s i, Inv s → P s i → Inv (step s i)) (h : ∀ s i, Inv s → (P s i ↔ Q s i))
    (hs : Inv s) (l : List ι) : Along step P s l ↔ Along step Q s l :=
  Along.congr_on (fun _ => True) Inv (fun s i _ => hkeep s i) (fun s i _ => h s i) hs
    fun _ _ => trivial

theorem Along.append {step : σ → ι → σ} {P : σ → ι → Prop} :
    Along step P s (l ++ l') ↔ Along step P s l ∧ Along step P (l.foldl step s) l' := by
  induction l generalizing s with
  | nil => exact (and_iff_right trivial).symm
  | cons i l ih =>
    rw [List.cons_append, List.foldl_cons]
    exact (and_congr_right fun _ => ih).trans and_assoc.symm

/-- A step property that follows from another, under an invariant that one keeps, follows from it
on whole runs. -/
theorem Along.imp {step : σ → ι → σ} {P Q : σ → ι → Prop} (Inv : σ → Prop)
    (hkeep : ∀ s i, Inv s → P s i → Inv (step s i)) (h : ∀ s i, Inv s → P s i → Q s i)
    (hs : Inv s) {l : List ι} (hl : Along step P s l) : Along step Q s l := by
  induction l generalizing s with
  | nil => trivial
  | cons i l ih => exact ⟨h s i hs hl.1, ih (hkeep s i hs hl.1) hl.2⟩

/-- An invariant that the steps of the kind keep holds in every state a run of such steps
reaches. -/
theorem Along.reaches {step : σ → ι → σ} {P : σ → ι → Prop} (Inv : σ → Prop)
    (hkeep : ∀ s i, Inv s → P s i → Inv (step s i)) (hs : Inv s) (h : Along step P s l)
    (hp : past <+: l) : Inv (past.foldl step s) := by
  induction past generalizing s l with
  | nil => exact hs
  | cons i past ih =>
    obtain ⟨rest, rfl⟩ := hp
    rw [List.cons_append] at h
    exact ih (hkeep s i hs h.1) h.2 (List.prefix_append past rest)

/-- Two properties of an input and what came before it that agree as long as the second one held of
everything before agree on whole runs. -/
theorem forall_prefix_congr {P Q : List ι → ι → Prop} {l : List ι}
    (h : ∀ past i, List.IsPrefix (past ++ [i]) l →
      (∀ p j, List.IsPrefix (p ++ [j]) past → Q p j) → (P past i ↔ Q past i)) :
    (∀ past i, List.IsPrefix (past ++ [i]) l → P past i) ↔
      ∀ past i, List.IsPrefix (past ++ [i]) l → Q past i := by
  induction l using List.reverseRecOn with
  | nil =>
    have hno {past : List ι} {i : ι} (hp : List.IsPrefix (past ++ [i]) []) : False :=
      List.concat_ne_nil i past (List.prefix_nil.mp hp)
    exact iff_of_true (fun _ _ hp => (hno hp).elim) fun _ _ hp => (hno hp).elim
  | append_singleton l x ih =>
    have hgrow {k : List ι} (hk : List.IsPrefix k l) : List.IsPrefix k (l ++ [x]) :=
      hk.trans (List.prefix_append l [x])
    have hbefore := ih fun past i hp => h past i (hgrow hp)
    constructor
    · intro hP past i hp
      have hQ := hbefore.mp fun p j hj => hP p j (hgrow hj)
      rcases List.prefix_concat_iff.mp hp with heq | hp'
      · obtain ⟨rfl, -⟩ := List.append_inj' heq rfl
        exact (h past i hp hQ).mp (hP past i hp)
      · exact hQ past i hp'
    · intro hQ past i hp
      rcases List.prefix_concat_iff.mp hp with heq | hp'
      · obtain ⟨rfl, -⟩ := List.append_inj' heq rfl
        exact (h past i hp fun p j hj => hQ p j (hgrow hj)).mpr (hQ past i hp)
      · exact hbefore.mpr (fun p j hj => hQ p j (hgrow hj)) past i hp'

/-- A state property to which each input adds a condition of its own holds after a run exactly
if it held before or some input of the run met its condition. -/
theorem foldl_gathers {step : σ → ι → σ} {P : σ → Prop} {Q : ι → Prop}
    (h : ∀ s i, P (step s i) ↔ P s ∨ Q i) (s : σ) (l : List ι) :
    P (l.foldl step s) ↔ P s ∨ ∃ i ∈ l, Q i := by
  induction l generalizing s with
  | nil => simp only [List.foldl_nil, List.not_mem_nil, false_and, exists_false, or_false]
  | cons i l ih =>
    rw [List.foldl_cons, ih, h, List.exists_mem_cons_iff, or_assoc]

theorem foldl_zipIdx_gathers {step : σ → ι × Nat → σ} {P : σ → Prop} {Q : ι → Prop} {k : Nat}
    (h : ∀ s i j, P (step s (i, j)) ↔ P s ∨ k = j ∧ Q i) (s : σ) (l : List ι) :
    P (l.zipIdx.foldl step s) ↔ P s ∨ ∃ i, l[k]? = some i ∧ Q i := by
  apply (foldl_gathers (fun s e => h s e.1 e.2) s l.zipIdx).trans
  apply or_congr_right
  constructor
  · intro hex
    obtain ⟨e, hm, he, hq⟩ := hex
    rw [he]
    exact ⟨e.1, List.mem_zipIdx_iff_getElem?.mp hm, hq⟩
  · intro hex
    obtain ⟨i, hi, hq⟩ := hex
    exact ⟨(i, k), List.mk_mem_zipIdx_iff_getElem?.mpr hi, rfl, hq⟩

end

section

variable {σ π ι : Type}

/-- Several calls over one shared state, each at a place of its own. -/
structure Interleaved (σ π : Type) where
  shared : σ
  calls : List π

namespace Interleaved

/-- The call of the given number takes its next step. -/
def step (f : ι → σ → π → σ × π) (s : Interleaved σ π) (e : Nat × ι) : Interleaved σ π :=
  match s.calls[e.1]? with
  | none => s
  | some p => ⟨(f e.2 s.shared p).1, s.calls.set e.1 (f e.2 s.shared p).2⟩

def At (s : Interleaved σ π) (i : Nat) (p : π) : Prop := s.calls[i]? = some p

theorem At.unique {s : Interleaved σ π} (h : s.At i p) (h' : s.At i q) : p = q :=
  Option.some.inj (h.symm.trans h')

theorem at_set {x : σ} {calls : List π} (hi : calls[i]? = some p₀) :
    At ⟨x, calls.set i p⟩ j q ↔ i = j ∧ q = p ∨ i ≠ j ∧ calls[j]? = some q := by
  obtain ⟨hlt, _⟩ := List.getElem?_eq_some_iff.mp hi
  unfold At
  rw [List.getElem?_set]
  by_cases hij : i = j
  · rw [if_pos hij, if_pos hlt, Option.some.injEq]
    constructor
    · intro h
      exact .inl ⟨hij, h.symm⟩
    · intro h
      exact (h.resolve_right fun hne => hne.1 hij).2.symm
  · rw [if_neg hij]
    constructor
    · intro h
      exact .inr ⟨hij, h⟩
    · intro h
      exact (h.resolve_left fun heq => hij heq.1).2

theorem step_none (f : ι → σ → π → σ × π) {s : Interleaved σ π} (h : s.calls[e.1]? = none) :
    s.step f e = s := by
  rw [step, h]

theorem step_at (f : ι → σ → π → σ × π) {s : Interleaved σ π} (h : s.At e.1 p) :
    (s.step f e).shared = (f e.2 s.shared p).1 ∧
      ∀ j q, (s.step f e).At j q ↔
        e.1 = j ∧ q = (f e.2 s.shared p).2 ∨ e.1 ≠ j ∧ s.At j q := by
  have hcall : s.calls[e.1]? = some p := h
  rw [step, hcall]
  exact ⟨rfl, fun j q => at_set hcall⟩

/-- Either there is no such call, or it makes its step on the shared state and the others stay. -/
theorem step_cases (f : ι → σ → π → σ × π) (s : Interleaved σ π) (e : Nat × ι) :
    s.step f e = s ∨ ∃ p, s.At e.1 p ∧ (s.step f e).shared = (f e.2 s.shared p).1 ∧
      ∀ j q, (s.step f e).At j q ↔
        e.1 = j ∧ q = (f e.2 s.shared p).2 ∨ e.1 ≠ j ∧ s.At j q := by
  cases h : s.calls[e.1]? with
  | none => exact .inl (step_none f h)
  | some p => exact .inr ⟨p, h, step_at f h⟩

theorem length_step (f : ι → σ → π → σ × π) (s : Interleaved σ π) (e : Nat × ι) :
    (s.step f e).calls.length = s.calls.length := by
  unfold step
  split
  · rfl
  · exact List.length_set

theorem at_replicate {x : σ} (h : At ⟨x, List.replicate n p₀⟩ i p) : p = p₀ :=
  List.eq_of_mem_replicate (List.mem_of_getElem? h)

/-- A call stays where its own steps leave it. -/
theorem At.step_of_stays {f : ι → σ → π → σ × π} {s : Interleaved σ π} (h : s.At i p)
    (hstays : ∀ o x, (f o x p).2 = p) (e : Nat × ι) : (s.step f e).At i p := by
  obtain hsame | ⟨q, hq, -, hat⟩ := s.step_cases f e
  · rw [hsame]
    exact h
  apply (hat i p).mpr
  by_cases hi : e.1 = i
  · rw [hi] at hq
    cases hq.unique h
    exact .inl ⟨hi, (hstays e.2 s.shared).symm⟩
  · exact .inr ⟨hi, h⟩

/-- At most one call is at a place of a kind, as long as none comes to one beside another. -/
theorem one_step {f : ι → σ → π → σ × π} {s : Interleaved σ π} {Kind : π → Prop}
    (hone : ∀ i j p q, s.At i p → s.At j q → Kind p → Kind q → i = j)
    (hmoved : ∀ p j q, s.At e.1 p → s.At j q → Kind q → Kind (f e.2 s.shared p).2 → e.1 = j) :
    ∀ i j p q, (s.step f e).At i p → (s.step f e).At j q → Kind p → Kind q → i = j := by
  obtain hsame | ⟨p, hp, -, hat⟩ := s.step_cases f e
  · rw [hsame]
    exact hone
  intro i j q q' hq hq' hkind hkind'
  obtain ⟨rfl, rfl⟩ | ⟨-, hq⟩ := (hat i q).mp hq
  · obtain ⟨rfl, -⟩ | ⟨-, hq'⟩ := (hat j q').mp hq'
    · rfl
    · exact hmoved p j q' hp hq' hkind' hkind
  · obtain ⟨rfl, rfl⟩ | ⟨-, hq'⟩ := (hat j q').mp hq'
    · exact (hmoved p i q hp hq hkind hkind').symm
    · exact hone i j q q' hq hq' hkind hkind'

end Interleaved

end

end AiFw.Lib
