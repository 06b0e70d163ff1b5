import AiFw.Lib.ListOrder
import AiFw.Pf.RuleColumns
import Mathlib.Data.Prod.Lex
import Mathlib.Order.Fin.Basic

namespace AiFw.Pf
open AiFw.Lib AiFw.Net
set_option autoImplicit true

/-- Times of four-digit years, all written in UTC: the texts sort as the times do. -/
structure UtcTimes (DateTime : Type) [LinearOrder DateTime] extends toChrono : Rfc3339 DateTime where
  toRfc3339_le : ∀ s t, toRfc3339 s ≤ toRfc3339 t ↔ s ≤ t

namespace RuleRow

/-- What the listings are ordered by. -/
def place (row : RuleRow) : Int ×ₗ List Char := toLex (row.priority, row.createdAt)

def orderedBy (a b : RuleRow) : Bool := a.place ≤ b.place

section
variable {DateTime : Type} (chrono : Rfc3339 DateTime)

def insertRuleOn (rule : RuleRecord DateTime) (rows : List RuleRow) :
    Except String (List RuleRow) :=
  if hasKey RuleRow.id rule.id rows then .error "database" else .ok (rows ++ [ofRule chrono rule])

def updateRuleOn (now : DateTime) (rule : RuleRecord DateTime) (rows : List RuleRow) :
    Except String (List RuleRow) :=
  if hasKey RuleRow.id rule.id rows then
    .ok (rows.map fun row => if row.id = rule.id then setTo chrono rule now row else row)
  else .error "rule not found"

def deleteRuleOn (id : BitVec 128) (rows : List RuleRow) : Except String (List RuleRow) :=
  if hasKey RuleRow.id id rows then .ok (dropKey RuleRow.id id rows) else .error "rule not found"

def getRule (rows : List RuleRow) (id : BitVec 128) :
    Except String (Option (RuleRecord DateTime)) :=
  match rows.find? fun row => row.id = id with
  | none => .ok none
  | some row => (intoRule chrono row).map some

def listRules (rows : List RuleRow) : Except String (List (RuleRecord DateTime)) :=
  (rows.mergeSort orderedBy).mapM (intoRule chrono)

def listActiveRules (rows : List RuleRow) : Except String (List (RuleRecord DateTime)) :=
  ((rows.filter fun row => row.status = "active".toList).mergeSort orderedBy).mapM (intoRule chrono)

/-- The tables that accepted rules leave: inserted, updated and deleted in any order. -/
inductive Stored : List RuleRow → Prop where
  | empty : Stored []
  | insert (h : Stored rows) (hvalid : validateRule rule.toRule = .ok ())
      (hrun : insertRuleOn chrono rule rows = .ok rows') : Stored rows'
  | update (h : Stored rows) (hvalid : validateRule rule.toRule = .ok ())
      (hrun : updateRuleOn chrono now rule rows = .ok rows') : Stored rows'
  | delete (gone : BitVec 128) (h : Stored rows) (hrun : deleteRuleOn gone rows = .ok rows') :
      Stored rows'

end

section
variable {DateTime : Type} [LinearOrder DateTime] (chrono : UtcTimes DateTime)

/-- The listing has the rule, after none that comes later and before none that comes earlier. -/
def ListedAt (listed : Except String (List (RuleRecord DateTime))) (rule : RuleRecord DateTime) :
    Prop :=
  ∃ before after, listed = .ok (before ++ rule :: after) ∧
    (∀ r ∈ before, toLex (r.priority, r.createdAt) ≤ toLex (rule.priority, rule.createdAt)) ∧
    ∀ r ∈ after, toLex (rule.priority, rule.createdAt) ≤ toLex (r.priority, r.createdAt)

/-- The rule is read back from the table, and stands where it belongs in the listings. -/
structure Survives (rows : List RuleRow) (rule : RuleRecord DateTime) : Prop where
  got : getRule chrono.toChrono rows rule.id = .ok (some rule)
  listed : ListedAt (listRules chrono.toChrono rows) rule
  active : rule.status = .active → ListedAt (listActiveRules chrono.toChrono rows) rule

end

section
variable {DateTime : Type} {chrono : Rfc3339 DateTime} {rows : List RuleRow}
  {rule : RuleRecord DateTime}

/-- The rule an update leaves in the place of another. -/
def replacing (old : RuleRecord DateTime) (now : DateTime) (rule : RuleRecord DateTime) :
    RuleRecord DateTime :=
  { rule with createdAt := old.createdAt, updatedAt := now }

/-- The row of an accepted rule. -/
def OfAccepted (chrono : Rfc3339 DateTime) (row : RuleRow) : Prop :=
  ∃ rule : RuleRecord DateTime, rule.toRule.TablesValid ∧ row = ofRule chrono rule

/-- What the table holds at any time. -/
structure Sound (chrono : Rfc3339 DateTime) (rows : List RuleRow) : Prop where
  rules : ∀ row ∈ rows, OfAccepted chrono row
  keyed : Keyed RuleRow.id rows

theorem insertRuleOn_ok (h : insertRuleOn chrono rule rows = .ok rows') :
    hasKey RuleRow.id rule.id rows = false ∧ rows' = rows ++ [ofRule chrono rule] := by
  unfold insertRuleOn at h
  split at h
  · cases h
  · next hnew =>
    cases h
    exact ⟨Bool.not_eq_true _ ▸ hnew, rfl⟩

/-- On a sound table the update writes the row of the rule, with the time of creation it had. -/
theorem updateRuleOn_ok (hsound : Sound chrono rows)
    (h : updateRuleOn chrono now rule rows = .ok rows') :
    ∃ old : RuleRecord DateTime, old.toRule.TablesValid ∧ ofRule chrono old ∈ rows ∧
      old.id = rule.id ∧
      rows' = setRow RuleRow.id (ofRule chrono (replacing old now rule)) rows := by
  unfold updateRuleOn at h
  split at h
  · next hkey =>
    cases h
    obtain ⟨row, hrow, hid⟩ := hasKey_iff.mp hkey
    obtain ⟨old, hold, rfl⟩ := hsound.rules row hrow
    refine ⟨old, hold, hrow, hid, ?_⟩
    apply List.map_congr_left
    intro other hother
    by_cases hsame : other.id = rule.id
    · have heq := hsound.keyed other hother _ hrow (hsame.trans hid.symm)
      rw [if_pos hsame, heq, setTo_ofRule old now hid]
      exact (if_pos hid).symm
    · rw [if_neg hsame]
      exact (if_neg hsame).symm
  · cases h

theorem Stored.sound (h : Stored chrono rows) : Sound chrono rows := by
  induction h with
  | empty =>
    constructor
    · intro row hrow
      cases hrow
    · exact .nil
  | @insert rows rule rows' h hvalid hrun ih =>
    obtain ⟨hnew, rfl⟩ := insertRuleOn_ok hrun
    constructor
    · intro row hrow
      rcases List.mem_append.mp hrow with hrow | hrow
      · exact ih.rules row hrow
      · exact ⟨rule, Rule.tablesValid_of_validateRule hvalid, List.mem_singleton.mp hrow⟩
    · exact ih.keyed.append_row hnew
  | @update rows now rule rows' h hvalid hrun ih =>
    obtain ⟨old, -, -, -, rfl⟩ := updateRuleOn_ok ih hrun
    constructor
    · intro row hrow
      rcases mem_setRow.mp hrow with ⟨hrow, -⟩ | ⟨rfl, -⟩
      · exact ih.rules row hrow
      · exact ⟨replacing old now rule, Rule.tablesValid_of_validateRule hvalid, rfl⟩
    · exact ih.keyed.setRow _
  | @delete rows rows' gone h hrun ih =>
    unfold deleteRuleOn at hrun
    split at hrun
    · cases hrun
      have hkept : ∀ row ∈ dropKey RuleRow.id gone rows, row ∈ rows := by
        intro row hrow
        exact (mem_dropKey.mp hrow).1
      constructor
      · intro row hrow
        exact ih.rules row (hkept row hrow)
      · exact ih.keyed.sublist hkept
    · cases hrun

/-- Rows of accepted rules are all read, each as a rule that has that row. -/
theorem mapM_intoRule (h : ∀ row ∈ rows, OfAccepted chrono row) :
    ∃ rules, rows.mapM (intoRule chrono) = .ok rules ∧ ∀ r ∈ rules, ofRule chrono r ∈ rows := by
  induction rows with
  | nil =>
    refine ⟨[], rfl, ?_⟩
    intro r hr
    cases hr
  | cons row rows ih =>
    obtain ⟨rule, hvalid, rfl⟩ := h row List.mem_cons_self
    obtain ⟨rules, hread, hrows⟩ := ih fun r hr => h r (List.mem_cons_of_mem _ hr)
    refine ⟨{ rule with description := none } :: rules, ?_, ?_⟩
    · rw [List.mapM_cons, intoRule_ofRule hvalid, hread]
      rfl
    · intro r hr
      rcases List.mem_cons.mp hr with rfl | hr
      · exact List.mem_cons_self
      · exact List.mem_cons_of_mem _ (hrows r hr)

theorem getRule_of_mem (h : Sound chrono rows) (hvalid : rule.toRule.TablesValid)
    (hmem : ofRule chrono rule ∈ rows) :
    getRule chrono rows rule.id = .ok (some { rule with description := none }) := by
  have hfind : rows.find? (fun row => row.id = rule.id) = some (ofRule chrono rule) :=
    h.keyed.find_iff.mpr ⟨hmem, rfl⟩
  unfold getRule
  rw [hfind]
  dsimp only
  rw [intoRule_ofRule hvalid]
  rfl

end

section
variable {DateTime : Type} [LinearOrder DateTime] {chrono : UtcTimes DateTime}
  {rows : List RuleRow} {rule : RuleRecord DateTime}

theorem orderedBy_trans (a b c : RuleRow) (hab : orderedBy a b = true)
    (hbc : orderedBy b c = true) : orderedBy a c = true := by
  rw [orderedBy, decide_eq_true_eq] at *
  exact hab.trans hbc

theorem orderedBy_total (a b : RuleRow) : (orderedBy a b || orderedBy b a) = true := by
  rw [orderedBy, orderedBy, Bool.or_eq_true, decide_eq_true_eq, decide_eq_true_eq]
  exact le_total _ _

/-- The rows of two rules stand as their priorities and times do. -/
theorem orderedBy_ofRule (a b : RuleRecord DateTime) :
    orderedBy (ofRule chrono.toChrono a) (ofRule chrono.toChrono b) = true ↔
      toLex (a.priority, a.createdAt) ≤ toLex (b.priority, b.createdAt) := by
  rw [orderedBy, decide_eq_true_eq, place, place, Prod.Lex.toLex_le_toLex,
    Prod.Lex.toLex_le_toLex]
  simp only [ofRule, chrono.toRfc3339_le]

theorem listedAt_of_mem (h : ∀ row ∈ rows, OfAccepted chrono.toChrono row)
    (hvalid : rule.toRule.TablesValid) (hmem : ofRule chrono.toChrono rule ∈ rows) :
    ListedAt ((rows.mergeSort orderedBy).mapM (intoRule chrono.toChrono))
      { rule with description := none } := by
  have hsorted := List.pairwise_mergeSort orderedBy_trans orderedBy_total rows
  have hin : ofRule chrono.toChrono rule ∈ rows.mergeSort orderedBy := List.mem_mergeSort.mpr hmem
  obtain ⟨front, back, hsplit⟩ := List.append_of_mem hin
  rw [hsplit] at hsorted ⊢
  obtain ⟨-, hback, hfront⟩ := List.pairwise_append.mp hsorted
  have hrows : ∀ row ∈ front ++ ofRule chrono.toChrono rule :: back,
      OfAccepted chrono.toChrono row := by
    intro row hrow
    rw [← hsplit] at hrow
    exact h row (List.mem_mergeSort.mp hrow)
  obtain ⟨before, hbefore, hofBefore⟩ := mapM_intoRule fun row hrow =>
    hrows row (List.mem_append_left _ hrow)
  obtain ⟨after, hafter, hofAfter⟩ := mapM_intoRule fun row hrow =>
    hrows row (List.mem_append_right _ (List.mem_cons_of_mem _ hrow))
  refine ⟨before, after, ?_, ?_, ?_⟩
  · rw [List.mapM_append, List.mapM_cons, hbefore, intoRule_ofRule hvalid, hafter]
    rfl
  · intro r hr
    exact (orderedBy_ofRule r rule).mp (hfront _ (hofBefore r hr) _ List.mem_cons_self)
  · intro r hr
    exact (orderedBy_ofRule rule r).mp ((List.pairwise_cons.mp hback).1 _ (hofAfter r hr))

theorem survives_of_mem (h : Sound chrono.toChrono rows) (hvalid : rule.toRule.TablesValid)
    (hmem : ofRule chrono.toChrono rule ∈ rows) :
    Survives chrono rows { rule with description := none } where
  got := getRule_of_mem h hvalid hmem
  listed := listedAt_of_mem h.rules hvalid hmem
  active := by
    intro hstatus
    apply listedAt_of_mem (fun row hrow => h.rules row (List.mem_of_mem_filter hrow)) hvalid
    rw [List.mem_filter, decide_eq_true_eq]
    refine ⟨hmem, ?_⟩
    change rule.status = .active at hstatus
    change rule.status.dbStr = _
    rw [hstatus]
    rfl

/-- Of the rules with one row only the one that is read survives. -/
theorem survives_iff_of_mem (stored : RuleRecord DateTime) (h : Sound chrono.toChrono rows)
    (hvalid : stored.toRule.TablesValid) (hmem : ofRule chrono.toChrono stored ∈ rows)
    (hid : stored.id = rule.id) :
    Survives chrono rows rule ↔ rule = { stored with description := none } := by
  constructor
  · intro hrule
    have hread := getRule_of_mem h hvalid hmem
    rw [hid, hrule.got] at hread
    injection hread with hread
    injection hread
  · rintro rfl
    exact survives_of_mem h hvalid hmem

/-- A rule comes back from the table exactly without a note, and from an update exactly if it also
keeps the time of creation of the rule in its place. -/
theorem rule_survives_iff (chrono : UtcTimes DateTime) (rows : List RuleRow)
    (rule : RuleRecord DateTime) (h : Stored chrono.toChrono rows)
    (hvalid : validateRule rule.toRule = .ok ()) :
    (∀ rows', insertRuleOn chrono.toChrono rule rows = .ok rows' →
      (Survives chrono rows' rule ↔ rule.description = none)) ∧
    ∀ now rows', updateRuleOn chrono.toChrono now rule rows = .ok rows' →
      (Survives chrono rows' { rule with updatedAt := now } ↔
        rule.description = none ∧
          ∃ old, getRule chrono.toChrono rows rule.id = .ok (some old) ∧
            old.createdAt = rule.createdAt) := by
  have htables := Rule.tablesValid_of_validateRule hvalid
  constructor
  · intro rows' hrun
    have hsound := (h.insert hvalid hrun).sound
    obtain ⟨-, rfl⟩ := insertRuleOn_ok hrun
    rw [survives_iff_of_mem rule hsound htables (List.mem_append_right _ List.mem_cons_self) rfl]
    constructor
    · intro heq
      rw [heq]
    · intro hnone
      rw [← hnone]
  · intro now rows' hrun
    have hsound := (h.update hvalid hrun).sound
    obtain ⟨old, hold, hmem, hid, rfl⟩ := updateRuleOn_ok h.sound hrun
    have hkey : hasKey RuleRow.id rule.id rows = true := hasKey_iff.mpr ⟨_, hmem, hid⟩
    have hgot := getRule_of_mem h.sound hold hmem
    rw [hid] at hgot
    have hset : ofRule chrono.toChrono (replacing old now rule) ∈
        setRow RuleRow.id (ofRule chrono.toChrono (replacing old now rule)) rows :=
      mem_setRow.mpr (.inr ⟨rfl, hkey⟩)
    apply (survives_iff_of_mem (replacing old now rule) hsound htables hset _).trans
    · constructor
      · intro heq
        have hnote := congrArg RuleRecord.description heq
        have hcreated := congrArg RuleRecord.createdAt heq
        exact ⟨hnote, _, hgot, hcreated.symm⟩
      · rintro ⟨hnone, old', hold', hcreated⟩
        rw [hgot] at hold'
        cases hold'
        dsimp only at hcreated
        rw [replacing, hcreated, ← hnone]
    · rfl

theorem minute_strictMono : StrictMono NatRuleRow.minute.toRfc3339 := by
  rw [Fin.strictMono_iff_lt_succ]
  decide +kernel

/-- The instants of one minute, in order. -/
def utcMinute : UtcTimes (Fin 60) where
  toChrono := NatRuleRow.minute
  toRfc3339_le _ _ := minute_strictMono.le_iff_le

/-- A rule that blocks everything on one interface. -/
def blockAll (description : Option (List Char)) : RuleRecord (Fin 60) where
  id := 1
  priority := 100
  action := .block
  direction := .in
  ipVersion := .both
  interface := some "em0".toList
  protocol := .any
  ruleMatch := ⟨.any, none, .any, none⟩
  srcInvert := false
  dstInvert := false
  log := false
  quick := true
  label := none
  gateway := none
  stateOptions := ⟨.keepState, none, none⟩
  status := .active
  scheduleId := none
  description
  timeoutTcp := none
  timeoutUdp := none
  timeoutIcmp := none
  createdAt := Fin.last 59
  updatedAt := Fin.last 59

theorem blockAll_valid (description : Option (List Char)) :
    validateRule (blockAll description).toRule = .ok () := by
  have hvalid : validateRule (blockAll none).toRule = .ok () := by decide
  exact hvalid

/-- A rule that lets a network come to the web servers. -/
def passWeb : RuleRecord (Fin 60) :=
  { blockAll none with
    id := 2
    priority := 10
    action := .pass
    protocol := .tcp
    ruleMatch := ⟨.network (.v4 0x0A000000) 8, none, .table "web".toList, some ⟨80, 443⟩⟩
    srcInvert := true
    label := some "web".toList
    stateOptions := ⟨.keepState, some .ifBound, none⟩
    timeoutTcp := some 600
    createdAt := (Fin.last 58).castSucc
    updatedAt := (Fin.last 58).castSucc }

theorem passWeb_valid (log : Bool) :
    validateRule { passWeb.toRule with log } = .ok () := by
  have hvalid : validateRule passWeb.toRule = .ok () := by decide
  exact hvalid

/-- It is put beside another rule, and later logs what it lets through. -/
theorem survives_passWeb :
    let rows := [ofRule utcMinute.toChrono (blockAll none)]
    let rows' := rows ++ [ofRule utcMinute.toChrono passWeb]
    insertRuleOn utcMinute.toChrono passWeb rows = .ok rows' ∧ Survives utcMinute rows' passWeb ∧
      ∃ rows'', updateRuleOn utcMinute.toChrono 9 { passWeb with log := true } rows' = .ok rows'' ∧
        Survives utcMinute rows'' { passWeb with log := true, updatedAt := 9 } := by
  intro rows rows'
  have hrows : Stored utcMinute.toChrono rows := Stored.empty.insert (blockAll_valid none) rfl
  have hinsert : insertRuleOn utcMinute.toChrono passWeb rows = .ok rows' := rfl
  have hrows' : Stored utcMinute.toChrono rows' := hrows.insert (passWeb_valid false) hinsert
  obtain ⟨hinserted, -⟩ := rule_survives_iff utcMinute rows passWeb hrows (passWeb_valid false)
  obtain ⟨-, hupdated⟩ := rule_survives_iff utcMinute rows' { passWeb with log := true } hrows'
    (passWeb_valid true)
  have hgot := getRule_of_mem hrows'.sound (Rule.tablesValid_of_validateRule (passWeb_valid false))
    (List.mem_append_right rows List.mem_cons_self)
  exact ⟨hinsert, (hinserted _ hinsert).mpr rfl, _, rfl, (hupdated 9 _ rfl).mpr ⟨rfl, _, hgot, rfl⟩⟩

/-- The note of a rule is gone when it is read. -/
theorem note_lost :
    validateRule (blockAll (some "uplink".toList)).toRule = .ok () ∧
      insertRuleOn utcMinute.toChrono (blockAll (some "uplink".toList)) [] =
        .ok [ofRule utcMinute.toChrono (blockAll (some "uplink".toList))] ∧
      ¬ Survives utcMinute [ofRule utcMinute.toChrono (blockAll (some "uplink".toList))]
        (blockAll (some "uplink".toList)) := by
  refine ⟨blockAll_valid _, rfl, ?_⟩
  intro h
  have hvalid := blockAll_valid (some "uplink".toList)
  have hstored : Stored utcMinute.toChrono
      [ofRule utcMinute.toChrono (blockAll (some "uplink".toList))] :=
    Stored.empty.insert hvalid rfl
  have heq := (survives_iff_of_mem _ hstored.sound (Rule.tablesValid_of_validateRule hvalid)
    List.mem_cons_self rfl).mp h
  have hnote := congrArg RuleRecord.description heq
  cases hnote

end
end RuleRow
end AiFw.Pf
