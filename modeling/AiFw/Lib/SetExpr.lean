import AiFw.Lib.Separated

namespace AiFw.Lib
set_option autoImplicit true

/-- An expression for a set: an atom, the complement of a set, or a list of sets. -/
inductive SetExpr (α : Type) where
  | atom (a : α)
  | neg (e : SetExpr α)
  | list (members : List (SetExpr α))

namespace SetExpr

/-- Induction up to the lists of an expression. -/
@[elab_as_elim]
theorem neg_induction {motive : SetExpr α → Prop} (atom : ∀ a, motive (.atom a))
    (neg : ∀ e, motive e → motive (.neg e)) (list : ∀ members, motive (.list members)) :
    ∀ e, motive e
  | .atom a => atom a
  | .neg e => neg e (neg_induction atom neg list e)
  | .list members => list members

def isNegated : SetExpr α → Bool
  | .neg _ => true
  | _ => false

mutual

/-- Whether a value is in the set, from the atoms that it is in: a list has what is in one of its
positive members, or everything if it has none, without what a negated member excludes. -/
def contains (sat : α → Bool) : SetExpr α → Bool
  | .atom a => sat a
  | .neg e => !contains sat e
  | .list members =>
    (anyContains sat members || members.all isNegated) && !anyExcludes sat members

def anyContains (sat : α → Bool) : List (SetExpr α) → Bool
  | [] => false
  | e :: es => !e.isNegated && contains sat e || anyContains sat es

def anyExcludes (sat : α → Bool) : List (SetExpr α) → Bool
  | [] => false
  | e :: es => e.isNegated && !contains sat e || anyExcludes sat es

end

mutual

/-- The expression as it is written. -/
def text (atomText : α → List Char) : SetExpr α → List Char
  | .atom a => atomText a
  | .neg e => '!' :: text atomText e
  | .list members => '[' :: (membersText atomText members ++ [']'])

def membersText (atomText : α → List Char) : List (SetExpr α) → List Char
  | [] => []
  | e :: es => text atomText e ++ moreText atomText es

def moreText (atomText : α → List Char) : List (SetExpr α) → List Char
  | [] => []
  | e :: es => ',' :: (text atomText e ++ moreText atomText es)

end

/-- What stands before an atom. -/
inductive Opening where
  | not
  | bracket
deriving DecidableEq, Repr

def Opening.sign : Opening → Char
  | .not => '!'
  | .bracket => '['

/-- What is between two commas of an expression: an atom with the openings before it and the brackets
closed after it; an empty list has no atom. -/
structure Piece (α : Type) where
  openings : List Opening
  core : Option α
  closings : Nat

def Piece.text (atomText : α → List Char) (piece : Piece α) : List Char :=
  piece.openings.map Opening.sign ++
    ((piece.core.elim [] atomText) ++ List.replicate piece.closings ']')

mutual

/-- The pieces of an expression that stands between some openings and closings. -/
def pieces (openings : List Opening) (closings : Nat) : SetExpr α → List (Piece α)
  | .atom a => [⟨openings, some a, closings⟩]
  | .neg e => pieces (openings ++ [.not]) closings e
  | .list members => membersPieces (openings ++ [.bracket]) (closings + 1) members

def membersPieces (openings : List Opening) (closings : Nat) :
    List (SetExpr α) → List (Piece α)
  | [] => [⟨openings, none, closings⟩]
  | [e] => pieces openings closings e
  | e :: f :: es => pieces openings 0 e ++ membersPieces [] closings (f :: es)

end

theorem anyContains_iff (sat : α → Bool) (es : List (SetExpr α)) :
    anyContains sat es = true ↔ ∃ e ∈ es, e.isNegated = false ∧ e.contains sat = true := by
  induction es with
  | nil => exact iff_of_false Bool.false_ne_true fun ⟨_, he, _⟩ => List.not_mem_nil he
  | cons e es ih =>
    rw [anyContains, Bool.or_eq_true, Bool.and_eq_true, Bool.not_eq_true', ih,
      List.exists_mem_cons_iff]

theorem isNegated_iff {e : SetExpr α} : e.isNegated = true ↔ ∃ f, e = neg f := by
  cases e with
  | neg f => exact iff_of_true rfl ⟨f, rfl⟩
  | atom a => exact iff_of_false Bool.false_ne_true (by rintro ⟨_, ⟨⟩⟩)
  | list members => exact iff_of_false Bool.false_ne_true (by rintro ⟨_, ⟨⟩⟩)

theorem contains_neg (sat : α → Bool) (e : SetExpr α) :
    (neg e).contains sat = true ↔ e.contains sat = false := by
  rw [contains, Bool.not_eq_true']

theorem anyExcludes_iff (sat : α → Bool) (es : List (SetExpr α)) :
    anyExcludes sat es = true ↔ ∃ e, neg e ∈ es ∧ e.contains sat = true := by
  have hneg (e : SetExpr α) : e.isNegated = true ∧ e.contains sat = false ↔
      ∃ f, neg f = e ∧ f.contains sat = true := by
    rw [isNegated_iff]
    constructor
    · rintro ⟨⟨f, rfl⟩, h⟩
      rw [contains, Bool.not_eq_false'] at h
      exact ⟨f, rfl, h⟩
    · rintro ⟨f, rfl, h⟩
      rw [contains, h]
      exact ⟨⟨f, rfl⟩, rfl⟩
  induction es with
  | nil => exact iff_of_false Bool.false_ne_true fun ⟨_, he, _⟩ => List.not_mem_nil he
  | cons e es ih =>
    rw [anyExcludes, Bool.or_eq_true, Bool.and_eq_true, Bool.not_eq_true']
    apply (or_congr (hneg e) ih).trans
    simp only [List.mem_cons, or_and_right, exists_or]

/-- A value is in a list if it is in a positive member, or there is none, and in no negated one. -/
theorem contains_list (sat : α → Bool) (members : List (SetExpr α)) :
    (list members).contains sat = true ↔
      ((∃ e ∈ members, e.isNegated = false ∧ e.contains sat = true) ∨
        ∀ e ∈ members, e.isNegated = true) ∧
      ¬∃ e, neg e ∈ members ∧ e.contains sat = true := by
  rw [contains, Bool.and_eq_true, Bool.or_eq_true, Bool.not_eq_true', anyContains_iff,
    List.all_eq_true, ← anyExcludes_iff, Bool.not_eq_true]

/-- Brackets around a single member make no difference. -/
theorem contains_singleton (sat : α → Bool) (e : SetExpr α) :
    (list [e]).contains sat = e.contains sat := by
  rw [contains, anyContains, anyExcludes, anyContains, anyExcludes, List.all_cons, List.all_nil]
  cases e.isNegated <;> cases e.contains sat <;> rfl

theorem membersText_cons (atomText : α → List Char) (e f : SetExpr α) (es : List (SetExpr α)) :
    membersText atomText (e :: f :: es) =
      e.text atomText ++ ',' :: membersText atomText (f :: es) := by
  rw [membersText, moreText, membersText]

section
variable {atomText : α → List Char} (hatom : ∀ a, ',' ∉ atomText a)
include hatom

theorem comma_notMem_piece (piece : Piece α) : ',' ∉ piece.text atomText := by
  have hopening : ',' ∉ piece.openings.map Opening.sign := by
    rintro hc
    obtain ⟨o, -, ho⟩ := List.mem_map.mp hc
    cases o with
    | not => exact absurd ho (by decide)
    | bracket => exact absurd ho (by decide)
  have hcore : ',' ∉ piece.core.elim [] atomText := by
    cases piece.core with
    | none => exact List.not_mem_nil
    | some a => exact hatom a
  have hclosing : ',' ∉ List.replicate piece.closings ']' := by
    intro hc
    exact absurd (List.eq_of_mem_replicate hc) (by decide)
  exact List.not_mem_append hopening (List.not_mem_append hcore hclosing)

mutual

/-- Cut at its commas, the text of an expression is its pieces. -/
theorem splitOn_text (openings : List Opening) (closings : Nat) : ∀ e : SetExpr α,
    splitOn ',' (openings.map Opening.sign ++ (e.text atomText ++ List.replicate closings ']')) =
      (e.pieces openings closings).map (Piece.text atomText)
  | .atom a => by
    rw [pieces, text, List.map_singleton]
    exact splitOn_of_notMem (comma_notMem_piece hatom ⟨openings, some a, closings⟩)
  | .neg e => by
    have hrest := splitOn_text (openings ++ [.not]) closings e
    rw [List.map_append, List.append_assoc] at hrest
    rw [pieces, ← hrest, text]
    rfl
  | .list members => by
    have hrest := splitOn_membersText (openings ++ [.bracket]) (closings + 1) members
    rw [List.map_append, List.append_assoc] at hrest
    rw [pieces, ← hrest, text, List.cons_append, List.append_assoc]
    rfl

theorem splitOn_membersText (openings : List Opening) (closings : Nat) :
    ∀ es : List (SetExpr α),
    splitOn ',' (openings.map Opening.sign ++
        (membersText atomText es ++ List.replicate closings ']')) =
      (membersPieces openings closings es).map (Piece.text atomText)
  | [] => splitOn_of_notMem (comma_notMem_piece hatom ⟨openings, none, closings⟩)
  | [e] => by
    rw [membersPieces, ← splitOn_text openings closings e, membersText, moreText, List.append_nil]
  | e :: f :: es => by
    have hfirst := splitOn_text openings 0 e
    have hrest := splitOn_membersText [] closings (f :: es)
    rw [List.replicate_zero, List.append_nil] at hfirst
    rw [membersPieces, List.map_append, ← hfirst, ← hrest, membersText_cons, List.append_assoc,
      List.cons_append, ← List.append_assoc, splitOn_append_cons]
    rfl

end

end

/-- What a piece stands for by itself: every opening negates it or takes away a closing, an atom that
is not left bare counts as `left` or `right`, and no atom as everything. -/
def readPiece (whole left right : α → Bool) : List Opening → Option α → Nat → Bool
  | [], core, 0 => core.all whole
  | [], core, _ + 1 => core.all right
  | .not :: openings, core, closings => !readPiece whole left right openings core closings
  | .bracket :: _, core, 0 => core.all left
  | .bracket :: openings, core, closings + 1 => readPiece whole left right openings core closings

def Piece.reads (whole left right : α → Bool) (piece : Piece α) : Bool :=
  readPiece whole left right piece.openings piece.core piece.closings

/-- What an expression stands for if the members of a list are taken to be what is between its
commas, and a list to be the union of these. -/
def reads (whole left right : α → Bool) : SetExpr α → Bool
  | .atom a => whole a
  | .neg e => !reads whole left right e
  | .list members => (membersPieces [] 0 members).any (Piece.reads whole left right)

/-- An expression without a comma in its text, with atoms that are read as they should be. -/
inductive Uncut (atomOk : α → Prop) : SetExpr α → Prop
  | atom (h : atomOk a) : Uncut atomOk (.atom a)
  | neg (h : Uncut atomOk e) : Uncut atomOk (.neg e)
  | empty : Uncut atomOk (.list [])
  | brackets (h : Uncut atomOk e) : Uncut atomOk (.list [e])

/-- Where negated members can count as alternatives to the others: at a value that is in a positive
member and excluded by none, at one that no positive member has and all the negated ones exclude, and
at one that none excludes if there are no positive members. -/
inductive MembersAgree (sat : α → Bool) (members : List (SetExpr α)) : Prop
  | included (htaken : ∃ e ∈ members, e.isNegated = false ∧ e.contains sat = true)
      (hnone : ∀ e, neg e ∈ members → e.contains sat = false)
  | excluded (hnone : ∀ e ∈ members, e.isNegated = false → e.contains sat = false)
      (hall : ∀ e, neg e ∈ members → e.contains sat = true)
  | untouched (hneg : ∀ e ∈ members, e.isNegated = true)
      (hnone : ∀ e, neg e ∈ members → e.contains sat = false)

/-- Where reading piece by piece gives what the expression is for: at an atom that is read as it
should be; in a list of uncut members if these can be taken as alternatives; and in any other list if
something is in the set exactly where one of the pieces takes it. -/
def Agrees (atomOk : α → Prop) (sat whole left right : α → Bool) : SetExpr α → Prop
  | .atom a => atomOk a
  | .neg e => Agrees atomOk sat whole left right e
  | .list members =>
    (∀ e ∈ members, e.Uncut atomOk) ∧ MembersAgree sat members ∨
      (¬∀ e ∈ members, e.Uncut atomOk) ∧ ((SetExpr.list members).contains sat = true ↔
        ∃ piece ∈ membersPieces [] 0 members, piece.reads whole left right = true)

theorem exists_contains_iff (sat : α → Bool) (members : List (SetExpr α)) :
    (∃ e ∈ members, e.contains sat = true) ↔
      (∃ e ∈ members, e.isNegated = false ∧ e.contains sat = true) ∨
        ∃ e, neg e ∈ members ∧ e.contains sat = false := by
  constructor
  · rintro ⟨e, he, hsat⟩
    cases hneg : e.isNegated with
    | false => exact .inl ⟨e, he, hneg, hsat⟩
    | true =>
      obtain ⟨f, rfl⟩ := isNegated_iff.mp hneg
      exact .inr ⟨f, he, (contains_neg sat f).mp hsat⟩
  · rintro (⟨e, he, -, hsat⟩ | ⟨e, he, hsat⟩)
    · exact ⟨e, he, hsat⟩
    · exact ⟨neg e, he, (contains_neg sat e).mpr hsat⟩

/-- A list is the union of its members exactly where negated members can count as alternatives. -/
theorem membersAgree_iff (sat : α → Bool) (members : List (SetExpr α)) :
    ((list members).contains sat = true ↔ members = [] ∨ ∃ e ∈ members, e.contains sat = true) ↔
      MembersAgree sat members := by
  rw [contains_list, exists_contains_iff]
  constructor
  · intro h
    by_cases htaken : ∃ e ∈ members, e.isNegated = false ∧ e.contains sat = true
    · have hnone := (h.mpr (.inr (.inl htaken))).2
      exact .included htaken fun e he => Bool.eq_false_iff.mpr fun hsat => hnone ⟨e, he, hsat⟩
    · by_cases hleft : ∃ e, neg e ∈ members ∧ e.contains sat = false
      · obtain ⟨hneg, hnone⟩ := h.mpr (.inr (.inr hleft))
        exact .untouched (hneg.resolve_left htaken)
          fun e he => Bool.eq_false_iff.mpr fun hsat => hnone ⟨e, he, hsat⟩
      · exact .excluded
          (fun e he hpos => Bool.eq_false_iff.mpr fun hsat => htaken ⟨e, he, hpos, hsat⟩)
          fun e he => Bool.of_not_eq_false fun hsat => hleft ⟨e, he, hsat⟩
  · have hno (hnone : ∀ e, neg e ∈ members → e.contains sat = false) :
        ¬∃ e, neg e ∈ members ∧ e.contains sat = true := fun ⟨e, he, hsat⟩ =>
      Bool.false_ne_true ((hnone e he).symm.trans hsat)
    rintro (⟨htaken, hnone⟩ | ⟨hnone, hall⟩ | ⟨hneg, hnone⟩)
    · exact iff_of_true ⟨.inl htaken, hno hnone⟩ (.inr (.inl htaken))
    · have htaken : ¬∃ e ∈ members, e.isNegated = false ∧ e.contains sat = true :=
        fun ⟨e, he, hpos, hsat⟩ => Bool.false_ne_true ((hnone e he hpos).symm.trans hsat)
      have hleft : ¬∃ e, neg e ∈ members ∧ e.contains sat = false := fun ⟨e, he, hsat⟩ =>
        Bool.false_ne_true (hsat.symm.trans (hall e he))
      rw [or_iff_right htaken, or_iff_right htaken, or_iff_left hleft]
      cases members with
      | nil => exact iff_of_true ⟨List.forall_mem_nil _, fun ⟨_, he, _⟩ => List.not_mem_nil he⟩ rfl
      | cons e es =>
        refine iff_of_false ?_ (List.cons_ne_nil _ _)
        rintro ⟨hneg, hexcluded⟩
        obtain ⟨f, rfl⟩ := isNegated_iff.mp (hneg e List.mem_cons_self)
        exact hexcluded ⟨f, List.mem_cons_self, hall f List.mem_cons_self⟩
    · refine iff_of_true ⟨.inr hneg, hno hnone⟩ ?_
      cases members with
      | nil => exact .inl rfl
      | cons e es =>
        obtain ⟨f, rfl⟩ := isNegated_iff.mp (hneg e List.mem_cons_self)
        exact .inr (.inr ⟨f, List.mem_cons_self, hnone f List.mem_cons_self⟩)

section
variable {atomOk : α → Prop} {sat whole left right : α → Bool} (h : ∀ a, whole a = sat a ↔ atomOk a)
include h

/-- An uncut expression is one piece, which is read as it should be. -/
theorem Uncut.piece {e : SetExpr α} (he : e.Uncut atomOk) (left right : α → Bool) :
    ∃ (own : List Opening) (core : Option α) (n : Nat),
    (∀ openings closings, e.pieces openings closings = [⟨openings ++ own, core, closings + n⟩]) ∧
      readPiece whole left right own core n = e.contains sat := by
  induction he with
  | @atom a ha =>
    refine ⟨[], some a, 0, fun openings closings => ?_, (h a).mpr ha⟩
    rw [pieces, List.append_nil, Nat.add_zero]
  | @neg e _ ih =>
    obtain ⟨own, core, n, hpieces, hread⟩ := ih
    refine ⟨.not :: own, core, n, fun openings closings => ?_, ?_⟩
    · rw [pieces, hpieces, List.append_assoc, List.singleton_append]
    · rw [readPiece, hread, contains]
  | empty =>
    refine ⟨[.bracket], none, 1, fun openings closings => ?_, rfl⟩
    rw [pieces, membersPieces]
  | @brackets e _ ih =>
    obtain ⟨own, core, n, hpieces, hread⟩ := ih
    refine ⟨.bracket :: own, core, n + 1, fun openings closings => ?_, ?_⟩
    · rw [pieces, membersPieces, hpieces, List.append_assoc, List.singleton_append,
        Nat.add_right_comm, Nat.add_assoc]
    · rw [readPiece, hread, contains_singleton]

/-- The pieces of a list of uncut members are its members. -/
theorem pieces_uncut {members : List (SetExpr α)} (hmembers : ∀ e ∈ members, e.Uncut atomOk) :
    (∃ piece ∈ membersPieces [] 0 members, piece.reads whole left right = true) ↔
      members = [] ∨ ∃ e ∈ members, e.contains sat = true := by
  have hone (e : SetExpr α) (he : e.Uncut atomOk) :
      (∃ piece ∈ e.pieces [] 0, piece.reads whole left right = true) ↔ e.contains sat = true := by
    obtain ⟨own, core, n, hpieces, hread⟩ := he.piece h left right
    rw [hpieces, ← hread, Nat.zero_add, List.nil_append]
    simp only [List.mem_singleton, exists_eq_left]
    rfl
  cases members with
  | nil => exact iff_of_true ⟨_, List.mem_singleton_self _, rfl⟩ (.inl rfl)
  | cons e es =>
    rw [or_iff_right (List.cons_ne_nil e es)]
    induction es generalizing e with
    | nil =>
      rw [membersPieces, hone e (hmembers e List.mem_cons_self)]
      simp only [List.mem_singleton, exists_eq_left]
    | cons f es ih =>
      have hfirst := hone e (hmembers e List.mem_cons_self)
      have hrest := ih f fun g hg => hmembers g (List.mem_cons_of_mem _ hg)
      rw [membersPieces, List.exists_mem_cons_iff]
      apply Iff.trans _ (or_congr hfirst hrest)
      simp only [List.mem_append, or_and_right, exists_or]

theorem reads_eq_contains_iff (e : SetExpr α) :
    e.reads whole left right = e.contains sat ↔ e.Agrees atomOk sat whole left right := by
  induction e using neg_induction with
  | atom a => rw [reads, contains, Agrees, h]
  | neg e ih => rw [reads, contains, Agrees, Bool.not_inj_iff, ih]
  | list members =>
    rw [reads, Agrees, Bool.eq_iff_iff, List.any_eq_true]
    by_cases hmembers : ∀ e ∈ members, e.Uncut atomOk
    · have huncut : ¬((¬∀ e ∈ members, e.Uncut atomOk) ∧ ((list members).contains sat = true ↔
          ∃ piece ∈ membersPieces [] 0 members, piece.reads whole left right = true)) :=
        fun hcut => hcut.1 hmembers
      rw [or_iff_left huncut, and_iff_right hmembers, pieces_uncut h hmembers, ← membersAgree_iff]
      exact iff_comm
    · rw [and_iff_right hmembers, or_iff_right fun huncut => hmembers huncut.1]
      exact iff_comm

end

/-- Lists of atoms that are read as they should be. -/
theorem agrees_atoms {atomOk : α → Prop} {sat whole left right : α → Bool} (atoms : List α)
    (hok : ∀ a ∈ atoms, atomOk a) :
    (SetExpr.list (atoms.map .atom)).Agrees atomOk sat whole left right := by
  have hall {P : SetExpr α → Prop} (hP : ∀ a ∈ atoms, P (.atom a)) :
      ∀ e ∈ atoms.map SetExpr.atom, P e := List.forall_mem_map.mpr hP
  have hneg (f : SetExpr α) : neg f ∉ atoms.map SetExpr.atom := fun hf => by
    obtain ⟨a, -, ha⟩ := List.mem_map.mp hf
    cases ha
  refine .inl ⟨hall fun a ha => .atom (hok a ha), ?_⟩
  by_cases htaken : ∃ a ∈ atoms, sat a = true
  · obtain ⟨a, ha, hsat⟩ := htaken
    exact .included ⟨_, List.mem_map_of_mem ha, rfl, hsat⟩ fun f hf => absurd hf (hneg f)
  · exact .excluded
      (hall fun a ha _ => Bool.eq_false_iff.mpr fun hsat => htaken ⟨a, ha, hsat⟩)
      fun f hf => absurd hf (hneg f)

end SetExpr

end AiFw.Lib
