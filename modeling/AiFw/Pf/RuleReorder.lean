import AiFw.Lib.Mentions
import AiFw.Lib.Results
import AiFw.Pf.RuleStorage

namespace AiFw.Pf
open AiFw.Lib AiFw.Net
set_option autoImplicit true

inductive ReorderStatus where
  | badRequest
  | notFound
  | internalServerError
deriving DecidableEq, Repr

/-- The table of rules, and whether the firewall has changes to apply. -/
structure RuleStore where
  rows : List RuleRow
  pending : Bool

/-- `i as i32`. -/
def castI32 (i : Nat) : Int := Int.bmod i 4294967296

namespace RuleRow

section
variable {DateTime : Type} (chrono : Rfc3339 DateTime)
  (parseStr : List Char → Option (BitVec 128)) (clock : Nat → DateTime)

/-- `RuleEngine::update_rule`: a transaction, so that what fails leaves the rows. -/
def updateRule (now : DateTime) (rule : RuleRecord DateTime) (rows : List RuleRow) :
    Except String (List RuleRow) := do
  validateRule rule.toRule
  updateRuleOn chrono now rule rows

/-- One turn of the loop. The stamp the handler sets is overwritten by the one of the statement. -/
def reorderStep (i : Nat) (idStr : List Char) (rows : List RuleRow) :
    Except ReorderStatus (List RuleRow) :=
  match parseStr idStr with
  | none => .error .badRequest
  | some uuid =>
    match getRule chrono rows uuid with
    | .ok (some rule) =>
      let rule := { rule with priority := castI32 i, updatedAt := clock i }
      match updateRule chrono (clock i) rule rows with
      | .ok rows => .ok rows
      | .error _ => .error .internalServerError
    | _ => .error .notFound

def reorderFrom (i : Nat) : List (List Char) → List RuleRow →
    List RuleRow × Except ReorderStatus Unit
  | [], rows => (rows, .ok ())
  | idStr :: ids, rows =>
    match reorderStep chrono parseStr clock i idStr rows with
    | .ok rows => reorderFrom (i + 1) ids rows
    | .error e => (rows, .error e)

def reorderRules (ruleIds : List (List Char)) (s : RuleStore) :
    RuleStore × Except ReorderStatus String :=
  match reorderFrom chrono parseStr clock 0 ruleIds s.rows with
  | (rows, .ok ()) =>
    ({ rows, pending := true }, .ok (toString ruleIds.length ++ " rules reordered"))
  | (rows, .error e) => ({ s with rows }, .error e)

/-- The listing has the rules in the order of the request, each as it was but for its priority and
the time it was updated at. -/
structure OrderedAs (before after : List RuleRow) (uuids : List (BitVec 128))
    (listed : List (RuleRecord DateTime)) : Prop where
  lists : listRules chrono after = .ok listed
  all : ∀ uuid ∈ uuids, uuid ∈ listed.map fun r => r.id
  order : uuids.Pairwise fun a b => a ≠ b → [a, b].Sublist (listed.map fun r => r.id)
  kept : ∀ r ∈ listed, ∃ old, getRule chrono before r.id = .ok (some old) ∧
    r = { old with priority := r.priority, updatedAt := r.updatedAt }

def priorities (rows : List RuleRow) : List (BitVec 128 × Int) :=
  rows.map fun row => (row.id, row.priority)

structure AllOrNothing (before : List RuleRow) (ruleIds : List (List Char))
    (out : RuleStore × Except ReorderStatus String) : Prop where
  nothing : ∀ e, out.2 = .error e → priorities out.1.rows = priorities before
  all : ∀ message, out.2 = .ok message →
    ∃ listed, OrderedAs chrono before out.1.rows (ruleIds.filterMap parseStr) listed

/-- The id the request names at this place, if it is that of a rule that may have this place for
its priority. -/
def movable (rows : List RuleRow) (i : Nat) (idStr : List Char) : Option (BitVec 128) := do
  let uuid ← parseStr idStr
  match getRule chrono rows uuid with
  | .ok (some rule) =>
    match validateRule { rule.toRule with priority := castI32 i } with
    | .ok () => some uuid
    | .error _ => none
  | _ => none

/-- The ids up to the first that is refused. -/
def movedIds (rows : List RuleRow) (i : Nat) : List (List Char) → List (BitVec 128)
  | [] => []
  | idStr :: ids =>
    match movable chrono parseStr rows i idStr with
    | some uuid => uuid :: movedIds rows (i + 1) ids
    | none => []

/-- A request that is refused moves no rule, and one that is not names each rule in one place. -/
structure Harmless (rows : List RuleRow) (ruleIds : List (List Char)) : Prop where
  refused : (movedIds chrono parseStr rows 0 ruleIds).length < ruleIds.length →
    ∀ row ∈ rows, ∀ i, LastAt (movedIds chrono parseStr rows 0 ruleIds) i row.id →
      row.priority = i
  taken : (movedIds chrono parseStr rows 0 ruleIds).length = ruleIds.length →
    Grouped (movedIds chrono parseStr rows 0 ruleIds)

end

section
variable {DateTime : Type} {chrono : Rfc3339 DateTime}
  {parseStr : List Char → Option (BitVec 128)} {clock : Nat → DateTime} {rows : List RuleRow}

/-- The row with another priority, and with the time it was given it at. -/
def movedTo (chrono : Rfc3339 DateTime) (priority : Int) (now : DateTime) (row : RuleRow) :
    RuleRow :=
  { row with priority, updatedAt := chrono.toRfc3339 now }

/-- The row after the turns for these ids, counted from `k`. -/
def afterTurns (chrono : Rfc3339 DateTime) (clock : Nat → DateTime) (k : Nat)
    (uuids : List (BitVec 128)) (row : RuleRow) : RuleRow :=
  match lastMention k row.id uuids with
  | some i => movedTo chrono (castI32 i) (clock i) row
  | none => row

theorem movedTo_ofRule (priority : Int) (now : DateTime) (rule : RuleRecord DateTime) :
    movedTo chrono priority now (ofRule chrono rule) =
      ofRule chrono { rule with priority, updatedAt := now } := rfl

/-- What the update of a rule that was read writes over its row. -/
theorem setTo_movedTo (priority : Int) (now : DateTime) (rule : RuleRecord DateTime) :
    setTo chrono { rule with priority, updatedAt := now, description := none } now
      (ofRule chrono rule) = movedTo chrono priority now (ofRule chrono rule) := rfl

theorem movedTo_id (priority : Int) (now : DateTime) (row : RuleRow) :
    (movedTo chrono priority now row).id = row.id := rfl

theorem movedTo_priority (priority : Int) (now : DateTime) (row : RuleRow) :
    (movedTo chrono priority now row).priority = priority := rfl

theorem movedTo_movedTo (priority priority' : Int) (now now' : DateTime) (row : RuleRow) :
    movedTo chrono priority now (movedTo chrono priority' now' row) =
      movedTo chrono priority now row := rfl

theorem afterTurns_id (row : RuleRow) : (afterTurns chrono clock k uuids row).id = row.id := by
  unfold afterTurns
  split
  · exact movedTo_id _ _ row
  · rfl

theorem map_afterTurns_nil : rows.map (afterTurns chrono clock k []) = rows := List.map_id rows

theorem afterTurns_singleton :
    afterTurns chrono clock k [uuid] = fun row =>
      if row.id = uuid then movedTo chrono (castI32 k) (clock k) row else row := by
  funext row
  unfold afterTurns
  simp only [lastMention, Option.none_or]
  by_cases h : row.id = uuid
  · rw [if_pos h, if_pos h.symm]
  · rw [if_neg h, if_neg (Ne.symm h)]

theorem Sound.map_row (h : Sound chrono rows) (f : RuleRow → RuleRow)
    (hid : ∀ row, (f row).id = row.id)
    (hf : ∀ row, OfAccepted chrono row → OfAccepted chrono (f row)) :
    Sound chrono (rows.map f) where
  rules := by
    intro row hrow
    obtain ⟨old, hold, rfl⟩ := List.mem_map.mp hrow
    exact hf old (h.rules old hold)
  keyed := by
    intro r hr r' hr' he
    obtain ⟨old, hold, rfl⟩ := List.mem_map.mp hr
    obtain ⟨old', hold', rfl⟩ := List.mem_map.mp hr'
    rw [hid, hid] at he
    rw [h.keyed old hold old' hold' he]

theorem OfAccepted.movedTo (h : OfAccepted chrono row) (priority : Int) (now : DateTime) :
    OfAccepted chrono (movedTo chrono priority now row) := by
  obtain ⟨rule, hvalid, rfl⟩ := h
  exact ⟨{ rule with priority, updatedAt := now }, ⟨hvalid.srcTable, hvalid.dstTable⟩,
    movedTo_ofRule priority now rule⟩

theorem OfAccepted.afterTurns (h : OfAccepted chrono row) :
    OfAccepted chrono (afterTurns chrono clock k uuids row) := by
  unfold RuleRow.afterTurns
  split
  · exact h.movedTo _ _
  · exact h

theorem Sound.afterTurns (h : Sound chrono rows) (k : Nat) (uuids : List (BitVec 128)) :
    Sound chrono (rows.map (afterTurns chrono clock k uuids)) :=
  h.map_row _ afterTurns_id fun _ => OfAccepted.afterTurns

/-- On a sound table a rule is read exactly if a row has its id. -/
theorem getRule_cases (h : Sound chrono rows) (uuid : BitVec 128) :
    (getRule chrono rows uuid = .ok none ∧ hasKey RuleRow.id uuid rows = false) ∨
      ∃ rule : RuleRecord DateTime, rule.toRule.TablesValid ∧ ofRule chrono rule ∈ rows ∧
        rule.id = uuid ∧
        getRule chrono rows uuid = .ok (some { rule with description := none }) := by
  cases hkey : hasKey RuleRow.id uuid rows with
  | false =>
    left
    have hfind : rows.find? (fun row => row.id = uuid) = none := by
      rw [List.find?_eq_none]
      intro row hrow
      rw [decide_eq_true_eq]
      exact hasKey_eq_false.mp hkey row hrow
    refine ⟨?_, rfl⟩
    unfold getRule
    rw [hfind]
  | true =>
    right
    obtain ⟨row, hrow, hid⟩ := hasKey_iff.mp hkey
    obtain ⟨rule, hvalid, rfl⟩ := h.rules row hrow
    have hget := getRule_of_mem h hvalid hrow
    rw [show rule.id = uuid from hid] at hget
    exact ⟨rule, hvalid, hrow, hid, hget⟩

theorem updateRule_read (h : Sound chrono rows) {rule : RuleRecord DateTime}
    (hmem : ofRule chrono rule ∈ rows) (priority : Int) (now : DateTime)
    (hvalid : validateRule { rule.toRule with priority } = .ok ()) :
    updateRule chrono now { rule with priority, updatedAt := now, description := none } rows =
      .ok (rows.map fun row =>
        if row.id = rule.id then movedTo chrono priority now row else row) := by
  have hkey : hasKey RuleRow.id rule.id rows = true := hasKey_iff.mpr ⟨_, hmem, rfl⟩
  unfold updateRule updateRuleOn
  rw [hvalid, if_pos hkey]
  apply congrArg Except.ok
  apply List.map_congr_left
  intro row hrow
  by_cases hsame : row.id = rule.id
  · have heq := h.keyed row hrow _ hmem hsame
    rw [if_pos hsame, if_pos hsame, heq]
    exact setTo_movedTo priority now rule
  · rw [if_neg hsame]
    exact (if_neg hsame).symm

theorem updateRule_invalid {rule : RuleRecord DateTime} {priority : Int}
    (h : validateRule { rule.toRule with priority } = .error e) :
    updateRule chrono now { rule with priority, updatedAt := now, description := none } rows =
      .error e := by
  unfold updateRule
  rw [h]
  rfl

theorem reorderStep_eq (h : Sound chrono rows) (parseStr : List Char → Option (BitVec 128))
    (clock : Nat → DateTime) (i : Nat) (idStr : List Char) :
    (∃ uuid, movable chrono parseStr rows i idStr = some uuid ∧
      reorderStep chrono parseStr clock i idStr rows =
        .ok (rows.map (afterTurns chrono clock i [uuid]))) ∨
    (movable chrono parseStr rows i idStr = none ∧
      ∃ e, reorderStep chrono parseStr clock i idStr rows = .error e) := by
  simp only [movable, reorderStep]
  generalize hpriority : castI32 i = priority
  cases hparse : parseStr idStr with
  | none => exact .inr ⟨rfl, _, rfl⟩
  | some uuid =>
    simp only [Option.bind_eq_bind, Option.bind_some]
    obtain ⟨hget, -⟩ | ⟨rule, hvalid, hmem, rfl, hget⟩ := getRule_cases h uuid
    · rw [hget]
      exact .inr ⟨rfl, _, rfl⟩
    · rw [hget]
      cases hrule : validateRule { rule.toRule with priority } with
      | error e =>
        simp only [updateRule_invalid hrule, hrule]
        exact .inr ⟨trivial, _, rfl⟩
      | ok _ =>
        have hupdate := updateRule_read h hmem priority (clock i) hrule
        refine .inl ⟨rule.id, ?_, ?_⟩
        · simp only [hrule]
        · simp only [hupdate, afterTurns_singleton, hpriority]

theorem afterTurns_ofRule (chrono : Rfc3339 DateTime) (clock : Nat → DateTime) (k : Nat)
    (uuids : List (BitVec 128)) (rule : RuleRecord DateTime) :
    ∃ priority now, afterTurns chrono clock k uuids (ofRule chrono rule) =
      ofRule chrono { rule with priority, updatedAt := now } := by
  unfold afterTurns
  split
  · exact ⟨_, _, movedTo_ofRule _ _ rule⟩
  · exact ⟨rule.priority, rule.updatedAt, rfl⟩

theorem hasKey_afterTurns (chrono : Rfc3339 DateTime) (clock : Nat → DateTime) (k : Nat)
    (uuids : List (BitVec 128)) (uuid : BitVec 128) :
    hasKey RuleRow.id uuid (rows.map (afterTurns chrono clock k uuids)) =
      hasKey RuleRow.id uuid rows := by
  simp only [hasKey, List.any_map, Function.comp_def, afterTurns_id]

/-- The turns change of a rule that is read its priority and its time only. -/
theorem getRule_afterTurns (h : Sound chrono rows) (clock : Nat → DateTime) (k : Nat)
    (uuids : List (BitVec 128)) {rule : RuleRecord DateTime} (hvalid : rule.toRule.TablesValid)
    (hmem : ofRule chrono rule ∈ rows) :
    ∃ priority now, getRule chrono (rows.map (afterTurns chrono clock k uuids)) rule.id =
      .ok (some { rule with priority, updatedAt := now, description := none }) := by
  obtain ⟨priority, now, hrow⟩ := afterTurns_ofRule chrono clock k uuids rule
  have hin : afterTurns chrono clock k uuids (ofRule chrono rule) ∈
      rows.map (afterTurns chrono clock k uuids) := List.mem_map_of_mem hmem
  rw [hrow] at hin
  let moved : RuleRecord DateTime := { rule with priority, updatedAt := now }
  have hmoved : moved.toRule.TablesValid := ⟨hvalid.srcTable, hvalid.dstTable⟩
  exact ⟨priority, now, getRule_of_mem (h.afterTurns k uuids) hmoved hin⟩

theorem movable_afterTurns (h : Sound chrono rows) (i : Nat) (idStr : List Char) :
    movable chrono parseStr (rows.map (afterTurns chrono clock k uuids)) i idStr =
      movable chrono parseStr rows i idStr := by
  unfold movable
  cases hparse : parseStr idStr with
  | none => rfl
  | some uuid =>
    simp only [Option.bind_eq_bind, Option.bind_some]
    obtain ⟨hget, hkey⟩ | ⟨rule, hvalid, hmem, rfl, hget⟩ := getRule_cases h uuid
    · rw [← hasKey_afterTurns chrono clock k uuids] at hkey
      have hafter : Sound chrono (rows.map (afterTurns chrono clock k uuids)) :=
        h.afterTurns k uuids
      obtain ⟨hget', -⟩ | ⟨rule, -, hmem, hid, -⟩ := getRule_cases hafter uuid
      · rw [hget, hget']
      · have hkey' : hasKey RuleRow.id uuid (rows.map (afterTurns chrono clock k uuids)) = true :=
          hasKey_iff.mpr ⟨_, hmem, hid⟩
        rw [hkey] at hkey'
        cases hkey'
    · obtain ⟨priority, now, hget'⟩ := getRule_afterTurns h clock k uuids hvalid hmem
      simp only [hget, hget']

theorem movedIds_afterTurns (h : Sound chrono rows) (i : Nat) (ids : List (List Char)) :
    movedIds chrono parseStr (rows.map (afterTurns chrono clock k uuids)) i ids =
      movedIds chrono parseStr rows i ids := by
  induction ids generalizing i with
  | nil => rfl
  | cons idStr ids ih => rw [movedIds, movedIds, movable_afterTurns h, ih]

theorem afterTurns_cons (row : RuleRow) :
    afterTurns chrono clock (k + 1) uuids (afterTurns chrono clock k [uuid] row) =
      afterTurns chrono clock k (uuid :: uuids) row := by
  have hid : (afterTurns chrono clock k [uuid] row).id = row.id := afterTurns_id row
  unfold afterTurns at hid ⊢
  rw [hid]
  simp only [lastMention, Option.none_or]
  cases lastMention (k + 1) row.id uuids with
  | none => rfl
  | some i =>
    simp only [Option.some_or]
    split
    · exact movedTo_movedTo _ _ _ _ row
    · rfl

/-- The loop takes the turns before the first id that is refused, and stays there. -/
theorem reorderFrom_eq (h : Sound chrono rows) (parseStr : List Char → Option (BitVec 128))
    (clock : Nat → DateTime) (k : Nat) (ids : List (List Char)) :
    ∃ res, reorderFrom chrono parseStr clock k ids rows =
        (rows.map (afterTurns chrono clock k (movedIds chrono parseStr rows k ids)), res) ∧
      (res = .ok () ∧ (movedIds chrono parseStr rows k ids).length = ids.length ∨
        (∃ e, res = .error e) ∧ (movedIds chrono parseStr rows k ids).length < ids.length) := by
  induction ids generalizing k rows with
  | nil =>
    rw [reorderFrom, movedIds, map_afterTurns_nil]
    exact ⟨.ok (), rfl, .inl ⟨rfl, rfl⟩⟩
  | cons idStr ids ih =>
    rw [reorderFrom, movedIds]
    obtain ⟨uuid, hmov, hstep⟩ | ⟨hmov, e, hstep⟩ :=
      reorderStep_eq h parseStr clock k idStr
    · have hafter : Sound chrono (rows.map (afterTurns chrono clock k [uuid])) :=
        h.afterTurns k [uuid]
      obtain ⟨res, hrun, hres⟩ := ih hafter (k + 1)
      rw [movedIds_afterTurns h] at hrun hres
      rw [hmov, hstep]
      refine ⟨res, ?_, ?_⟩
      · simp only [hrun, List.map_map, Function.comp_def, afterTurns_cons]
      · simpa using hres
    · rw [hmov, hstep]
      have hlength : ([] : List (BitVec 128)).length < (idStr :: ids).length := by simp
      simp only [map_afterTurns_nil]
      exact ⟨.error e, rfl, .inr ⟨⟨e, rfl⟩, hlength⟩⟩

theorem castI32_of_le {i : Nat} (h : i ≤ 10000) : castI32 i = i := by
  unfold castI32
  apply Int.bmod_eq_of_le
  · omega
  · omega

theorem priority_of_validatePriority {n : Int} (h : validatePriority n = .ok ()) :
    0 ≤ n ∧ n ≤ 10000 := by
  unfold validatePriority at h
  split at h
  · cases h
  · omega

/-- What is movable is the id in the request, and the id of a row. -/
theorem movable_some (h : Sound chrono rows)
    (hmov : movable chrono parseStr rows i idStr = some uuid) :
    parseStr idStr = some uuid ∧ (∃ row ∈ rows, row.id = uuid) ∧ castI32 i ≤ 10000 := by
  unfold movable at hmov
  generalize castI32 i = priority at hmov ⊢
  cases hparse : parseStr idStr with
  | none =>
    rw [hparse] at hmov
    cases hmov
  | some u =>
    rw [hparse] at hmov
    simp only [Option.bind_eq_bind, Option.bind_some] at hmov
    obtain ⟨hget, -⟩ | ⟨rule, -, hmem, hid, hget⟩ := getRule_cases h u
    · rw [hget] at hmov
      cases hmov
    · simp only [hget] at hmov
      split at hmov
      next hvalid =>
        cases hmov
        refine ⟨rfl, ⟨_, hmem, hid⟩, ?_⟩
        unfold validateRule at hvalid
        obtain ⟨_, -, hvalid⟩ := except_bind_ok hvalid
        obtain ⟨_, -, hvalid⟩ := except_bind_ok hvalid
        obtain ⟨_, -, hvalid⟩ := except_bind_ok hvalid
        obtain ⟨_, -, hvalid⟩ := except_bind_ok hvalid
        obtain ⟨_, hpriority, -⟩ := except_bind_ok hvalid
        exact (priority_of_validatePriority hpriority).2
      · cases hmov

theorem movedIds_getElem (h : (movedIds chrono parseStr rows k ids)[i]? = some uuid) :
    ∃ idStr, ids[i]? = some idStr ∧ movable chrono parseStr rows (k + i) idStr = some uuid := by
  induction ids generalizing k i with
  | nil => cases h
  | cons idStr ids ih =>
    rw [movedIds] at h
    cases hmov : movable chrono parseStr rows k idStr with
    | none =>
      rw [hmov] at h
      cases h
    | some u =>
      rw [hmov] at h
      cases i with
      | zero =>
        cases h
        exact ⟨idStr, rfl, hmov⟩
      | succ i =>
        have := ih h
        rwa [Nat.add_right_comm] at this

theorem movedIds_priority (h : Sound chrono rows)
    (hi : (movedIds chrono parseStr rows 0 ids)[i]? = some uuid) : castI32 i = i := by
  apply castI32_of_le
  by_contra hlong
  have hlen := (List.getElem?_eq_some_iff.mp hi).1
  have hplace : 10001 < (movedIds chrono parseStr rows 0 ids).length := by
    omega
  obtain ⟨idStr, -, hmov⟩ := movedIds_getElem (List.getElem?_eq_getElem hplace)
  have hpriority := (movable_some h hmov).2.2
  have hcast : castI32 (0 + 10001) = 10001 := by decide
  omega

theorem filterMap_movedIds (h : Sound chrono rows)
    (hall : (movedIds chrono parseStr rows k ids).length = ids.length) :
    ids.filterMap parseStr = movedIds chrono parseStr rows k ids := by
  induction ids generalizing k with
  | nil => rfl
  | cons idStr ids ih =>
    rw [movedIds] at hall ⊢
    cases hmov : movable chrono parseStr rows k idStr with
    | none =>
      rw [hmov] at hall
      cases hall
    | some uuid =>
      rw [hmov] at hall
      rw [List.filterMap_cons_some (movable_some h hmov).1, ih (Nat.succ.inj hall)]

theorem afterTurns_priority (row : RuleRow) (hlast : LastAt uuids i row.id) :
    (afterTurns chrono clock 0 uuids row).priority = castI32 i := by
  have hmention := lastMention_eq_some (k := 0).mpr hlast
  rw [Nat.zero_add] at hmention
  unfold afterTurns
  rw [hmention]
  exact movedTo_priority _ _ row

/-- The rules keep their priorities exactly if each has the one its last turn gives it. -/
theorem priorities_afterTurns (chrono : Rfc3339 DateTime) (clock : Nat → DateTime)
    (rows : List RuleRow) (uuids : List (BitVec 128))
    (hcast : ∀ i uuid, uuids[i]? = some uuid → castI32 i = i) :
    priorities (rows.map (afterTurns chrono clock 0 uuids)) = priorities rows ↔
      ∀ row ∈ rows, ∀ i, LastAt uuids i row.id → row.priority = i := by
  rw [priorities, priorities, List.map_map, List.map_inj_left]
  constructor
  · intro h row hrow i hlast
    have hpriority := congrArg Prod.snd (h row hrow)
    rw [Function.comp_apply] at hpriority
    dsimp only at hpriority
    rw [afterTurns_priority row hlast, hcast i _ hlast.1] at hpriority
    exact hpriority.symm
  · intro h row hrow
    rw [Function.comp_apply, afterTurns_id]
    cases hmention : lastMention 0 row.id uuids with
    | none =>
      unfold afterTurns
      rw [hmention]
    | some i =>
      have hlast : LastAt uuids i row.id := by
        rw [← lastMention_eq_some (k := 0), Nat.zero_add]
        exact hmention
      rw [afterTurns_priority row hlast, hcast i _ hlast.1, h row hrow i hlast]

end

section
variable {DateTime : Type} [LinearOrder DateTime] {chrono : UtcTimes DateTime}
  {parseStr : List Char → Option (BitVec 128)} {clock : Nat → DateTime} {rows : List RuleRow}

theorem intoRule_id (h : intoRule chrono.toChrono row = .ok rule) : rule.id = row.id := by
  obtain ⟨_, -, h⟩ := except_bind_ok h
  obtain ⟨_, -, h⟩ := except_bind_ok h
  obtain ⟨_, -, h⟩ := except_bind_ok h
  obtain ⟨_, -, h⟩ := except_bind_ok h
  obtain ⟨_, -, h⟩ := except_bind_ok h
  obtain ⟨_, -, h⟩ := except_bind_ok h
  obtain ⟨_, -, h⟩ := except_bind_ok h
  cases h
  rfl

theorem mapM_intoRule_ids (h : rows.mapM (intoRule chrono.toChrono) = .ok rules) :
    rules.map (fun r => r.id) = rows.map RuleRow.id := by
  rw [mapM_ok] at h
  induction h with
  | nil => rfl
  | cons hrow _ ih => rw [List.map_cons, List.map_cons, intoRule_id hrow, ih]

/-- A sound table is listed whole, each rule as its row reads. -/
theorem listRules_sound (h : Sound chrono.toChrono rows) :
    ∃ listed, listRules chrono.toChrono rows = .ok listed ∧
      listed.map (fun r => r.id) = (rows.mergeSort orderedBy).map RuleRow.id ∧
      ∀ r ∈ listed, ∃ row ∈ rows, intoRule chrono.toChrono row = .ok r := by
  have hsorted : ∀ row ∈ rows.mergeSort orderedBy, OfAccepted chrono.toChrono row := by
    intro row hrow
    exact h.rules row (List.mem_mergeSort.mp hrow)
  obtain ⟨listed, hlisted, -⟩ := mapM_intoRule hsorted
  refine ⟨listed, hlisted, mapM_intoRule_ids hlisted, ?_⟩
  intro r hr
  obtain ⟨row, hrow, hread⟩ := (mem_of_mapM hlisted).mp hr
  exact ⟨row, List.mem_mergeSort.mp hrow, hread⟩

/-- A rule that is read after the turns was there before, with all its other fields. -/
theorem kept_afterTurns (h : Sound chrono.toChrono rows)
    (hrow : row ∈ rows.map (afterTurns chrono.toChrono clock k uuids))
    (hread : intoRule chrono.toChrono row = .ok r) :
    ∃ old, getRule chrono.toChrono rows r.id = .ok (some old) ∧
      r = { old with priority := r.priority, updatedAt := r.updatedAt } := by
  obtain ⟨old, hold, rfl⟩ := List.mem_map.mp hrow
  obtain ⟨rule, hvalid, rfl⟩ := h.rules old hold
  obtain ⟨priority, now, hmoved⟩ := afterTurns_ofRule chrono.toChrono clock k uuids rule
  let moved : RuleRecord DateTime := { rule with priority, updatedAt := now }
  have hvalid' : moved.toRule.TablesValid := ⟨hvalid.srcTable, hvalid.dstTable⟩
  rw [hmoved, intoRule_ofRule hvalid'] at hread
  cases hread
  exact ⟨{ rule with description := none }, getRule_of_mem h hvalid hold, rfl⟩

theorem place_lt (a b : RuleRow) (h : a.priority < b.priority) : orderedBy b a = false := by
  rw [orderedBy, decide_eq_false_iff_not, not_le, place, place, Prod.Lex.toLex_lt_toLex]
  exact .inl h

/-- Of two rules the one with the lower priority is listed first. -/
theorem sublist_of_priority_lt {a b : RuleRow} (ha : a ∈ rows) (hb : b ∈ rows)
    (h : a.priority < b.priority) :
    [a.id, b.id].Sublist ((rows.mergeSort orderedBy).map RuleRow.id) := by
  have hsorted := List.pairwise_mergeSort orderedBy_trans orderedBy_total rows
  have hne : b ≠ a := by
    intro he
    rw [he] at h
    exact lt_irrefl _ h
  have hpair := pair_sublist_of_pairwise hsorted (List.mem_mergeSort.mpr ha)
    (List.mem_mergeSort.mpr hb) hne (place_lt a b h)
  exact hpair.map RuleRow.id

/-- And one that is listed before another has no higher priority. -/
theorem priority_le_of_sublist {a b : RuleRow} (h : Keyed RuleRow.id rows) (ha : a ∈ rows)
    (hb : b ∈ rows) (hsub : [a.id, b.id].Sublist ((rows.mergeSort orderedBy).map RuleRow.id)) :
    a.priority ≤ b.priority := by
  apply le_of_not_gt
  intro hlt
  obtain ⟨pair, hpair, hids⟩ := List.sublist_map_iff.mp hsub
  have hsorted := List.pairwise_mergeSort orderedBy_trans orderedBy_total rows
  have hmem : ∀ row ∈ pair, row ∈ rows := by
    intro row hrow
    exact List.mem_mergeSort.mp (hpair.subset hrow)
  obtain ⟨x, rest, rfl, hxid, hrest⟩ := List.map_eq_cons_iff.mp hids.symm
  obtain ⟨y, rest, rfl, hyid, hnil⟩ := List.map_eq_cons_iff.mp hrest
  obtain rfl := List.map_eq_nil_iff.mp hnil
  have hx := h a ha x (hmem x List.mem_cons_self) hxid.symm
  have hy := h b hb y (hmem y (List.mem_cons_of_mem _ List.mem_cons_self)) hyid.symm
  have hle := List.pairwise_pair.mp (hsorted.sublist hpair)
  rw [← hx, ← hy, place_lt b a hlt] at hle
  cases hle

/-- The rows after the turns are listed as the request names them exactly if it names each rule in
one place. -/
theorem order_iff_grouped (h : Sound chrono.toChrono rows) (clock : Nat → DateTime)
    (uuids : List (BitVec 128))
    (hcast : ∀ i uuid, uuids[i]? = some uuid → castI32 i = i)
    (hrows : ∀ uuid ∈ uuids, ∃ row ∈ rows, row.id = uuid) :
    (uuids.Pairwise fun a b => a ≠ b → [a, b].Sublist
        (((rows.map (afterTurns chrono.toChrono clock 0 uuids)).mergeSort orderedBy).map
          RuleRow.id)) ↔ Grouped uuids := by
  have hsound : Sound chrono.toChrono (rows.map (afterTurns chrono.toChrono clock 0 uuids)) :=
    h.afterTurns 0 uuids
  have hplaced : ∀ uuid p, LastAt uuids p uuid →
      ∃ row ∈ rows.map (afterTurns chrono.toChrono clock 0 uuids),
        row.id = uuid ∧ row.priority = p := by
    intro uuid p hlast
    obtain ⟨row, hrow, rfl⟩ := hrows uuid (List.mem_of_getElem? hlast.1)
    refine ⟨_, List.mem_map_of_mem hrow, afterTurns_id row, ?_⟩
    rw [afterTurns_priority row hlast, hcast p _ hlast.1]
  rw [grouped_iff_lastAt, List.pairwise_iff_getElem]
  constructor
  · intro hpairs i j a b p q hij ha hb hne hp hq
    obtain ⟨hi, rfl⟩ := List.getElem?_eq_some_iff.mp ha
    obtain ⟨hj, rfl⟩ := List.getElem?_eq_some_iff.mp hb
    obtain ⟨x, hx, hxid, hxp⟩ := hplaced _ p hp
    obtain ⟨y, hy, hyid, hyq⟩ := hplaced _ q hq
    have hsub := hpairs i j hi hj hij hne
    rw [← hxid, ← hyid] at hsub
    have hle := priority_le_of_sublist hsound.keyed hx hy hsub
    have hpq : p ≠ q := by
      rintro rfl
      exact hne (Option.some.inj (hp.1.symm.trans hq.1))
    omega
  · intro hlast i j hi hj hij hne
    have ha := List.getElem?_eq_getElem hi
    have hb := List.getElem?_eq_getElem hj
    obtain ⟨p, -, hp⟩ := exists_lastAt ha
    obtain ⟨q, -, hq⟩ := exists_lastAt hb
    have hpq := hlast i j _ _ p q hij ha hb hne hp hq
    obtain ⟨x, hx, hxid, hxp⟩ := hplaced _ p hp
    obtain ⟨y, hy, hyid, hyq⟩ := hplaced _ q hq
    rw [← hxid, ← hyid]
    apply sublist_of_priority_lt hx hy
    omega

theorem orderedAs_iff_grouped (h : Sound chrono.toChrono rows) (clock : Nat → DateTime)
    (uuids : List (BitVec 128)) (hcast : ∀ i uuid, uuids[i]? = some uuid → castI32 i = i)
    (hrows : ∀ uuid ∈ uuids, ∃ row ∈ rows, row.id = uuid) :
    (∃ listed, OrderedAs chrono.toChrono rows
        (rows.map (afterTurns chrono.toChrono clock 0 uuids)) uuids listed) ↔ Grouped uuids := by
  have hsound : Sound chrono.toChrono (rows.map (afterTurns chrono.toChrono clock 0 uuids)) :=
    h.afterTurns 0 uuids
  obtain ⟨listed, hlisted, hids, hread⟩ := listRules_sound hsound
  rw [← order_iff_grouped h clock uuids hcast hrows, ← hids]
  constructor
  · intro ⟨other, hother⟩
    have hsame := hother.lists
    rw [hlisted] at hsame
    cases hsame
    exact hother.order
  · intro horder
    refine ⟨listed, hlisted, ?_, horder, ?_⟩
    · intro uuid huuid
      obtain ⟨row, hrow, rfl⟩ := hrows uuid huuid
      rw [hids, List.mem_map]
      refine ⟨_, List.mem_mergeSort.mpr (List.mem_map_of_mem hrow), ?_⟩
      exact afterTurns_id row
    · intro r hr
      obtain ⟨row, hrow, hr⟩ := hread r hr
      exact kept_afterTurns h hrow hr

/-- A request leaves all or nothing exactly if a refusal finds every rule that was named before it
with the priority it was given, and a request that is taken names each rule in one place. -/
theorem allOrNothing_iff (chrono : UtcTimes DateTime)
    (parseStr : List Char → Option (BitVec 128)) (clock : Nat → DateTime) (s : RuleStore)
    (ruleIds : List (List Char)) (h : Sound chrono.toChrono s.rows) :
    AllOrNothing chrono.toChrono parseStr s.rows ruleIds
        (reorderRules chrono.toChrono parseStr clock ruleIds s) ↔
      Harmless chrono.toChrono parseStr s.rows ruleIds := by
  have hcast : ∀ i uuid, (movedIds chrono.toChrono parseStr s.rows 0 ruleIds)[i]? = some uuid →
      castI32 i = i := by
    intro i uuid hi
    exact movedIds_priority h hi
  obtain ⟨res, hrun, ⟨rfl, hall⟩ | ⟨⟨e, rfl⟩, hfew⟩⟩ :=
    reorderFrom_eq h parseStr clock 0 ruleIds
  · have hstored : ∀ uuid ∈ movedIds chrono.toChrono parseStr s.rows 0 ruleIds,
        ∃ row ∈ s.rows, row.id = uuid := by
      intro uuid huuid
      obtain ⟨i, hi⟩ := List.getElem?_of_mem huuid
      obtain ⟨idStr, -, hmov⟩ := movedIds_getElem hi
      exact (movable_some h hmov).2.1
    have horder := orderedAs_iff_grouped h clock _ hcast hstored
    unfold reorderRules
    rw [hrun]
    constructor
    · intro hout
      obtain ⟨listed, hlisted⟩ := hout.all _ rfl
      rw [filterMap_movedIds h hall] at hlisted
      refine ⟨?_, fun _ => horder.mp ⟨listed, hlisted⟩⟩
      intro hfew
      exact absurd hall hfew.ne
    · intro hsafe
      constructor
      · intro e he
        cases he
      · intro message _
        rw [filterMap_movedIds h hall]
        exact horder.mpr (hsafe.taken hall)
  · have hkept := priorities_afterTurns chrono.toChrono clock s.rows _ hcast
    unfold reorderRules
    rw [hrun]
    constructor
    · intro hout
      refine ⟨fun _ => hkept.mp (hout.nothing e rfl), ?_⟩
      intro hall
      exact absurd hall hfew.ne
    · intro hsafe
      constructor
      · intro e' _
        exact hkept.mpr (hsafe.refused hfew)
      · intro message hmessage
        cases hmessage

/-- The hyphenated texts of ids. -/
def parseHyphenated (s : List Char) : Option (BitVec 128) := do
  let groups := splitOn '-' s
  if groups.map List.length = [8, 4, 4, 4, 12] then
    let digits ← groups.flatten.mapM (toDigit 16)
    return BitVec.ofNat 128 (digitsValue 16 digits)
  else none

def blockAllId : List Char := "00000000-0000-0000-0000-000000000001".toList

def blockAllStore : RuleStore := ⟨[ofRule utcMinute.toChrono (blockAll none)], false⟩

theorem blockAllStore_sound : Sound utcMinute.toChrono blockAllStore.rows :=
  (Stored.empty.insert (blockAll_valid none) rfl).sound

def passWebId : List Char := "00000000-0000-0000-0000-000000000002".toList

def webStore : RuleStore :=
  ⟨[ofRule utcMinute.toChrono (blockAll none), ofRule utcMinute.toChrono passWeb], false⟩

theorem webStore_sound : Sound utcMinute.toChrono webStore.rows :=
  ((Stored.empty.insert (blockAll_valid none) rfl).insert (passWeb_valid false) rfl).sound

/-- The second rule is put before the first. -/
theorem allOrNothing_webStore :
    AllOrNothing utcMinute.toChrono parseHyphenated webStore.rows [passWebId, blockAllId]
      (reorderRules utcMinute.toChrono parseHyphenated (fun _ => 0) [passWebId, blockAllId]
        webStore) := by
  apply (allOrNothing_iff utcMinute parseHyphenated (fun _ => 0) webStore
    [passWebId, blockAllId] webStore_sound).mpr
  have hids : movedIds utcMinute.toChrono parseHyphenated webStore.rows 0
      [passWebId, blockAllId] = [2, 1] := by decide +kernel
  constructor
  · rw [hids]
    intro hfew
    cases Nat.lt_irrefl _ hfew
  · rw [hids]
    intro _ i j k a hij hjk _ hk
    have hlen := (List.getElem?_eq_some_iff.mp hk).1
    rw [List.length_cons, List.length_singleton] at hlen
    omega

/-- The first rule has its new priority, and the second id is refused. -/
theorem half_reordered :
    Sound utcMinute.toChrono blockAllStore.rows ∧
      ¬ AllOrNothing utcMinute.toChrono parseHyphenated blockAllStore.rows
        [blockAllId, "x".toList]
        (reorderRules utcMinute.toChrono parseHyphenated (fun _ => 0) [blockAllId, "x".toList]
          blockAllStore) := by
  refine ⟨blockAllStore_sound, ?_⟩
  intro h
  have hrefused : (reorderRules utcMinute.toChrono parseHyphenated (fun _ => 0)
      [blockAllId, "x".toList] blockAllStore).2 = .error .badRequest := by rfl
  have hsame := h.nothing _ hrefused
  revert hsame
  decide +kernel

end

end RuleRow
end AiFw.Pf
