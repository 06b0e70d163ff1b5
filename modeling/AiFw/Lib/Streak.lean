import Mathlib.Data.List.Basic
import Mathlib.Data.List.Induction
import Mathlib.Data.List.Infix

namespace AiFw.Lib

set_option autoImplicit true

section
variable {α : Type}

/-- The list ends in at least `k` elements in a row that satisfy `p`. -/
def EndsIn (p : α → Bool) (k : Nat) (l : List α) : Prop :=
  ∃ recent, recent <:+ l ∧ k ≤ recent.length ∧ ∀ x ∈ recent, p x = true

/-- The number of elements in a row that satisfy `p` at the end of the list. -/
def streak (p : α → Bool) (l : List α) : Nat := l.foldl (fun n x => if p x then n + 1 else 0) 0

theorem streak_concat (p : α → Bool) (l : List α) (x : α) :
    streak p (l ++ [x]) = if p x then streak p l + 1 else 0 := by
  rw [streak, List.foldl_concat]
  rfl

theorem EndsIn.zero (p : α → Bool) (l : List α) : EndsIn p 0 l :=
  ⟨[], List.nil_suffix, Nat.le_refl 0, fun _ h => absurd h List.not_mem_nil⟩

theorem endsIn_concat (p : α → Bool) (k : Nat) (l : List α) (x : α) :
    EndsIn p (k + 1) (l ++ [x]) ↔ p x = true ∧ EndsIn p k l := by
  constructor
  · rintro ⟨recent, hsuf, hlen, hall⟩
    obtain rfl | ⟨t, rfl, ht⟩ := List.suffix_concat_iff.mp hsuf
    · exact absurd hlen (Nat.not_succ_le_zero k)
    · rw [List.length_append, List.length_singleton] at hlen
      exact ⟨hall x List.mem_concat_self, t, ht, Nat.le_of_succ_le_succ hlen,
        fun y hy => hall y (List.mem_append_left _ hy)⟩
  · rintro ⟨hx, recent, hsuf, hlen, hall⟩
    refine ⟨recent ++ [x], List.suffix_concat_iff.mpr (.inr ⟨recent, rfl, hsuf⟩), ?_, ?_⟩
    · rw [List.length_append, List.length_singleton]
      exact Nat.succ_le_succ hlen
    · intro y hy
      obtain hy | hy := List.mem_append.mp hy
      · exact hall y hy
      · rw [List.mem_singleton.mp hy]
        exact hx

theorem endsIn_iff_le_streak (p : α → Bool) (k : Nat) (l : List α) :
    EndsIn p k l ↔ k ≤ streak p l := by
  induction l using List.reverseRecOn generalizing k with
  | nil =>
    constructor
    · rintro ⟨recent, hsuf, hlen, _⟩
      rw [List.suffix_nil.mp hsuf] at hlen
      exact hlen
    · intro hk
      rw [Nat.le_zero.mp hk]
      exact .zero p []
  | append_singleton l x ih =>
    cases k with
    | zero => exact iff_of_true (.zero p _) (Nat.zero_le _)
    | succ k =>
      rw [endsIn_concat, ih, streak_concat]
      cases p x <;> simp

/-- A counter that stops at `max` still tells a streak of any `k ≤ max`. -/
theorem le_min_streak_iff (p : α → Bool) {k max : Nat} (hk : k ≤ max) (l : List α) :
    k ≤ min (streak p l) max ↔ EndsIn p k l := by
  rw [endsIn_iff_le_streak, Nat.le_min]
  exact and_iff_left hk

end

section
variable {α : Type}

/-- The history has been as `hold` says since it was as `start` says. -/
def Since (hold start : List α → Prop) (l : List α) : Prop :=
  ∃ p, List.IsPrefix p l ∧ start p ∧ ∀ w, List.IsPrefix p w → List.IsPrefix w l → hold w

theorem since_nil {hold start : List α → Prop} : Since hold start [] ↔ hold [] ∧ start [] := by
  constructor
  · rintro ⟨p, hp, hstart, hhold⟩
    have hnil := List.prefix_nil.mp hp
    subst hnil
    exact ⟨hhold [] hp hp, hstart⟩
  · rintro ⟨hhold, hstart⟩
    refine ⟨[], List.prefix_refl [], hstart, ?_⟩
    intro w _ hw
    rwa [List.prefix_nil.mp hw]

/-- One more entry: it has to hold now, and either it starts now or it has been so before. -/
theorem since_concat {hold start : List α → Prop} {l : List α} {x : α} :
    Since hold start (l ++ [x]) ↔ hold (l ++ [x]) ∧ (start (l ++ [x]) ∨ Since hold start l) := by
  have hgrow {w : List α} (hw : List.IsPrefix w l) : List.IsPrefix w (l ++ [x]) :=
    hw.trans (List.prefix_append l [x])
  constructor
  · rintro ⟨p, hp, hstart, hhold⟩
    refine ⟨hhold _ hp (List.prefix_refl _), ?_⟩
    obtain rfl | hp := List.prefix_concat_iff.mp hp
    · exact .inl hstart
    · exact .inr ⟨p, hp, hstart, fun w hpw hw => hhold w hpw (hgrow hw)⟩
  · rintro ⟨hnow, hstart | ⟨p, hp, hstart, hhold⟩⟩
    · refine ⟨_, List.prefix_refl _, hstart, ?_⟩
      intro w hpw hw
      rwa [← hpw.eq_of_length_le hw.length_le]
    · refine ⟨p, hgrow hp, hstart, ?_⟩
      intro w hpw hw
      obtain rfl | hw := List.prefix_concat_iff.mp hw
      · exact hnow
      · exact hhold w hpw hw

theorem Since.holds {hold start : List α → Prop} {l : List α} (h : Since hold start l) : hold l := by
  obtain ⟨p, hp, -, hhold⟩ := h
  exact hhold l hp (List.prefix_refl l)

end

section
variable {ι σ : Type} {sets keeps : ι → Prop}

/-- Some input of the run set it, and every later one kept it. -/
def SetSince (sets keeps : ι → Prop) (run : List ι) : Prop :=
  ∃ before i after, run = before ++ i :: after ∧ sets i ∧ ∀ j ∈ after, keeps j

namespace SetSince

theorem not_nil : ¬SetSince sets keeps [] := by
  intro h
  obtain ⟨before, i, after, heq, -⟩ := h
  exact List.append_ne_nil_of_right_ne_nil before (List.cons_ne_nil i after) heq.symm

theorem of_last (run : List ι) (h : sets i) : SetSince sets keeps (run ++ [i]) :=
  ⟨run, i, [], rfl, h, fun _ hj => absurd hj List.not_mem_nil⟩

theorem snoc (h : SetSince sets keeps run) (hkeep : keeps j) :
    SetSince sets keeps (run ++ [j]) := by
  obtain ⟨before, i, after, rfl, hset, hafter⟩ := h
  refine ⟨before, i, after ++ [j], List.append_assoc before (i :: after) [j], hset, ?_⟩
  intro j' hj'
  rw [List.mem_append, List.mem_singleton] at hj'
  cases hj' with
  | inl hold => exact hafter j' hold
  | inr hlast => exact hlast ▸ hkeep

theorem snoc_iff :
    SetSince sets keeps (run ++ [j]) ↔ SetSince sets keeps run ∧ keeps j ∨ sets j := by
  constructor
  · intro h
    obtain ⟨before, i, after, heq, hset, hafter⟩ := h
    induction after using List.reverseRecOn with
    | nil =>
      obtain ⟨-, hlast⟩ := List.append_inj' heq rfl
      cases List.singleton_inj.mp hlast
      exact .inr hset
    | append_singleton after last _ =>
      rw [← List.cons_append, ← List.append_assoc] at heq
      obtain ⟨rfl, hlast⟩ := List.append_inj' heq rfl
      cases List.singleton_inj.mp hlast
      have hold : ∀ j' ∈ after, keeps j' := fun j' hj' => hafter j' (List.mem_append_left _ hj')
      exact .inl ⟨⟨before, i, after, rfl, hset, hold⟩,
        hafter j (List.mem_append_right _ List.mem_cons_self)⟩
  · intro h
    cases h with
    | inl hold => exact hold.1.snoc hold.2
    | inr hset => exact of_last run hset

/-- What an input undid was set again by a later one. -/
theorem later (h : SetSince sets keeps (past ++ i :: rest)) (hkeep : ¬keeps i) (hset : ¬sets i) :
    SetSince sets keeps rest := by
  induction rest using List.reverseRecOn with
  | nil =>
    cases snoc_iff.mp h with
    | inl hold => exact absurd hold.2 hkeep
    | inr hlast => exact absurd hlast hset
  | append_singleton rest last ih =>
    rw [← List.cons_append, ← List.append_assoc] at h
    apply snoc_iff.mpr
    cases snoc_iff.mp h with
    | inl hold => exact .inl ⟨ih hold.1, hold.2⟩
    | inr hlast => exact .inr hlast

theorem exists_mem (h : SetSince sets keeps run) : ∃ i ∈ run, sets i := by
  obtain ⟨before, i, after, rfl, hset, -⟩ := h
  exact ⟨i, List.mem_append_right before List.mem_cons_self, hset⟩

theorem mono (h : SetSince sets keeps run) (hsets : ∀ i, sets i → sets' i)
    (hkeeps : ∀ i, keeps i → keeps' i) : SetSince sets' keeps' run := by
  obtain ⟨before, i, after, heq, hset, hafter⟩ := h
  exact ⟨before, i, after, heq, hsets i hset, fun j hj => hkeeps j (hafter j hj)⟩

/-- What is set at most once in a run does not hold again once it is undone. -/
theorem once (h : SetSince sets keeps past) (hkeep : ¬keeps i) (hset : ¬sets i)
    (honce : (past ++ i :: rest).Pairwise fun j j' => sets j → ¬sets j') :
    ¬SetSince sets keeps (past ++ i :: rest) := by
  intro hagain
  obtain ⟨j, hj, hsj⟩ := h.exists_mem
  obtain ⟨j', hj', hsj'⟩ := (hagain.later hkeep hset).exists_mem
  exact (List.pairwise_append.mp honce).2.2 j hj j' (List.mem_cons_of_mem i hj') hsj hsj'

end SetSince

/-- A property of the state that each input keeps or sets holds after a run exactly if some input
set it and every later one kept it. -/
theorem foldl_since {step : σ → ι → σ} {P : σ → Prop}
    (h : ∀ s i, P (step s i) ↔ P s ∧ keeps i ∨ sets i) (hs : ¬P s) (run : List ι) :
    P (run.foldl step s) ↔ SetSince sets keeps run := by
  induction run using List.reverseRecOn with
  | nil => exact iff_of_false hs SetSince.not_nil
  | append_singleton run i ih =>
    rw [List.foldl_append, List.foldl_cons, List.foldl_nil, h, ih, SetSince.snoc_iff]

end

end AiFw.Lib
