import AiFw.Lib.Table
import AiFw.Pf.NatColumns

namespace AiFw.Pf
open AiFw.Lib AiFw.Net
set_option autoImplicit true

/-- A time offset at the end of a text: `Z`, or a sign, hours and minutes. -/
inductive EndsInOffset (s : List Char) : Prop where
  | zulu (front : List Char) (z : Char) (hz : z ∈ ['Z', 'z']) (h : s = front ++ [z])
  | numeric (front : List Char) (sign h₁ h₂ m₁ m₂ : Char)
      (hs : sign ∈ ['+', '-', Char.ofNat 0x2212]) (h : s = front ++ [sign, h₁, h₂, ':', m₁, m₂])

/-- Times as chrono writes and reads them: what it writes it reads back, and as RFC 3339 asks, it
reads no time without an offset. -/
structure Rfc3339 (DateTime : Type) where
  toRfc3339 : DateTime → List Char
  parse : List Char → Option DateTime
  parse_toRfc3339 : ∀ t, parse (toRfc3339 t) = some t
  offset : ∀ s t, parse s = some t → EndsInOffset s

inductive NatStatus where
  | active
  | disabled
deriving DecidableEq, Repr

/-- A NAT rule with its id, label, status and times. -/
structure NatRecord (DateTime : Type) extends NatRule where
  id : BitVec 128
  label : Option (List Char)
  status : NatStatus
  createdAt : DateTime
  updatedAt : DateTime

/-- A row of the table. The id is the one a hyphenated text stands for. -/
structure NatRuleRow where
  id : BitVec 128
  natType : List Char
  interface : List Char
  protocol : List Char
  srcAddr : List Char
  srcPortStart : Option UInt16
  srcPortEnd : Option UInt16
  dstAddr : List Char
  dstPortStart : Option UInt16
  dstPortEnd : Option UInt16
  redirectAddr : List Char
  redirectPortStart : Option UInt16
  redirectPortEnd : Option UInt16
  label : Option (List Char)
  status : List Char
  createdAt : List Char
  updatedAt : List Char

def NatStatus.asStr : NatStatus → List Char
  | .active => "active".toList
  | .disabled => "disabled".toList

def parsePortRange : Option UInt16 → Option UInt16 → Option PortRange
  | some start, some end_ => some ⟨start, end_⟩
  | _, _ => none

def validateNatRule (rule : NatRule) : Except String Unit :=
  if rule.interface = [] then .error "NAT rule requires an interface"
  else if rule.natType = .dnat ∧ rule.dstPort = none ∧ rule.redirect.port = none then
    .error "DNAT/RDR rule requires a destination port or redirect port"
  else .ok ()

def digit (n : Nat) : Char := Nat.digitChar (n % 10)

def pad2 (n : Nat) : List Char := [digit (n / 10), digit n]

def pad4 (n : Nat) : List Char := pad2 (n / 100) ++ pad2 n

/-- Year, month and day of a number of days after the first of March of the year 0. -/
def civil (z : Nat) : Nat × Nat × Nat :=
  let era := z / 146097
  let doe := z % 146097
  let yoe := (doe - doe / 1460 + doe / 36524 - doe / 146096) / 365
  let doy := doe - (365 * yoe + yoe / 4 - yoe / 100)
  let mp := (5 * doy + 2) / 153
  let month := if mp < 10 then mp + 3 else mp - 9
  (yoe + 400 * era + (if month ≤ 2 then 1 else 0), month, doy - (153 * mp + 2) / 5 + 1)

/-- `datetime('2000-01-01', '+n seconds')`; there is none after the year 9999. -/
def sqliteDatetime (n : Nat) : Option (List Char) :=
  let (year, month, day) := civil (730425 + n / 86400)
  if year ≤ 9999 then
    some (pad4 year ++ '-' :: pad2 month ++ '-' :: pad2 day ++ ' ' :: pad2 (n / 3600 % 24) ++
      ':' :: pad2 (n / 60 % 60) ++ ':' :: pad2 (n % 60))
  else none

example : sqliteDatetime 5184001 = some "2000-03-01 00:00:01".toList := by decide +kernel

namespace NatRuleRow
variable {DateTime : Type} (chrono : Rfc3339 DateTime)

/-- The row `add_rule` inserts. -/
def ofRule (rule : NatRecord DateTime) : NatRuleRow where
  id := rule.id
  natType := rule.natType.display
  interface := rule.interface
  protocol := rule.protocol.display
  srcAddr := rule.srcAddr.display
  srcPortStart := rule.srcPort.map PortRange.start
  srcPortEnd := rule.srcPort.map PortRange.end_
  dstAddr := rule.dstAddr.display
  dstPortStart := rule.dstPort.map PortRange.start
  dstPortEnd := rule.dstPort.map PortRange.end_
  redirectAddr := rule.redirect.address.display
  redirectPortStart := rule.redirect.port.map PortRange.start
  redirectPortEnd := rule.redirect.port.map PortRange.end_
  label := rule.label
  status := rule.status.asStr
  createdAt := chrono.toRfc3339 rule.createdAt
  updatedAt := chrono.toRfc3339 rule.updatedAt

def readDate (s : List Char) : Except String DateTime :=
  match chrono.parse s with
  | some t => .ok t
  | none => .error "invalid date"

def intoNatRule (row : NatRuleRow) : Except String (NatRecord DateTime) := do
  let natType ← NatType.parse row.natType
  let protocol ← Protocol.parse row.protocol
  let srcAddr ← Address.parse row.srcAddr
  let dstAddr ← Address.parse row.dstAddr
  let redirectAddr ← Address.parse row.redirectAddr
  let createdAt ← readDate chrono row.createdAt
  let updatedAt ← readDate chrono row.updatedAt
  return {
    natType
    interface := row.interface
    protocol
    srcAddr
    srcPort := parsePortRange row.srcPortStart row.srcPortEnd
    dstAddr
    dstPort := parsePortRange row.dstPortStart row.dstPortEnd
    redirect := ⟨redirectAddr, parsePortRange row.redirectPortStart row.redirectPortEnd⟩
    id := row.id
    label := row.label
    status := if row.status = "active".toList then .active else .disabled
    createdAt
    updatedAt }

/-- The rows by the text of their time. -/
def byCreatedAt (rows : List NatRuleRow) : List NatRuleRow :=
  rows.mergeSort fun a b => a.createdAt ≤ b.createdAt

def listRules (rows : List NatRuleRow) : Except String (List (NatRecord DateTime)) :=
  (byCreatedAt rows).mapM (intoNatRule chrono)

def listActiveRules (rows : List NatRuleRow) : Except String (List (NatRecord DateTime)) :=
  (byCreatedAt (rows.filter fun row => row.status = "active".toList)).mapM (intoNatRule chrono)

def addRule (rows : List NatRuleRow) (rule : NatRecord DateTime) :
    Except String (List NatRuleRow) := do
  validateNatRule rule.toNatRule
  if hasKey NatRuleRow.id rule.id rows then throw "database"
  return rows ++ [ofRule chrono rule]

/-- One statement of the reordering; a time that does not exist changes nothing. -/
def setOrder (rows : List NatRuleRow) (e : BitVec 128 × Nat) : List NatRuleRow :=
  match sqliteDatetime e.2 with
  | some text => rows.map fun row => if row.id = e.1 then { row with createdAt := text } else row
  | none => rows

def reorder (rows : List NatRuleRow) (ruleIds : List (BitVec 128)) : List NatRuleRow :=
  ruleIds.zipIdx.foldl setOrder rows

end NatRuleRow

/-- The names of the tables are ones that the constructors of addresses let through. -/
structure NatRule.TablesValid (rule : NatRule) : Prop where
  srcTable : ∀ name, rule.srcAddr = .table name → validateTableName name = .ok ()
  dstTable : ∀ name, rule.dstAddr = .table name → validateTableName name = .ok ()
  redirectTable : ∀ name, rule.redirect.address = .table name → validateTableName name = .ok ()

namespace NatRuleRow
variable {DateTime : Type} (chrono : Rfc3339 DateTime)

def activeOnly (rules : List (NatRecord DateTime)) : List (NatRecord DateTime) :=
  rules.filter fun r => r.status = .active

/-- Both listings of the rows succeed with these rules. -/
def ListsAs (rows : List NatRuleRow) (rules : List (NatRecord DateTime)) : Prop :=
  listRules chrono rows = .ok rules ∧ listActiveRules chrono rows = .ok (activeOnly rules)

/-- A rule that `add_rule` takes, of a time later than any order of the year 2000. -/
structure Addable (rows : List NatRuleRow) (rule : NatRecord DateTime) : Prop where
  valid : validateNatRule rule.toNatRule = .ok ()
  tables : rule.toNatRule.TablesValid
  newId : hasKey NatRuleRow.id rule.id rows = false
  current : "2001".toList ≤ chrono.toRfc3339 rule.createdAt

/-- The rules are listed in the requested order, each as it was stored but for the time it was
created at, and a rule that is added comes last. -/
def OrderKept (rows : List NatRuleRow) (ruleIds : List (BitVec 128)) : Prop :=
  ∃ rules, ListsAs chrono (reorder rows ruleIds) rules ∧
    rules.map (fun r => r.id) = ruleIds ∧
    (∀ r ∈ rules, ∃ row ∈ rows, ∃ text,
      intoNatRule chrono { row with createdAt := text } = .ok r) ∧
    ∀ rule, Addable chrono rows rule →
      ∃ rows', addRule chrono (reorder rows ruleIds) rule = .ok rows' ∧
        ListsAs chrono rows' (rules ++ [rule])

variable {chrono}

/-- The text ends in `:MM:SS`. -/
theorem sqliteDatetime_ends (h : sqliteDatetime n = some line) :
    ∃ front, line = front ++ [':', digit (n / 60 % 60 / 10), digit (n / 60 % 60), ':',
      digit (n % 60 / 10), digit (n % 60)] := by
  unfold sqliteDatetime at h
  dsimp only at h
  split at h
  · rw [← Option.some.inj h]
    exact ⟨_, List.append_assoc _ _ _⟩
  · cases h

theorem EndsInOffset.not_clock {a b c d : Char} (hd : d ∉ ['Z', 'z']) :
    ¬ EndsInOffset (front ++ [':', a, b, ':', c, d]) := by
  intro h
  cases h with
  | zulu front' z hz h =>
    have hlast := congrArg List.getLast? h
    rw [List.getLast?_concat, List.getLast?_append] at hlast
    rw [← Option.some.inj hlast] at hz
    exact hd hz
  | numeric front' sign h₁ h₂ m₁ m₂ hs h =>
    have hlast := (List.append_inj_right' h rfl)
    injection hlast with hsign
    rw [← hsign] at hs
    revert hs
    decide

theorem sqliteDatetime_no_offset (h : sqliteDatetime n = some line) : ¬ EndsInOffset line := by
  obtain ⟨front, rfl⟩ := sqliteDatetime_ends h
  have hdigit : ∀ k < 10, Nat.digitChar k ∉ ['Z', 'z'] := by decide
  exact EndsInOffset.not_clock (hdigit _ (Nat.mod_lt _ (by decide)))

/-- A row whose time has no offset stays one. -/
theorem setOrder_unreadable (h : ∃ row ∈ rows, ¬ EndsInOffset row.createdAt)
    (e : BitVec 128 × Nat) : ∃ row ∈ setOrder rows e, ¬ EndsInOffset row.createdAt := by
  obtain ⟨row, hrow, hbad⟩ := h
  unfold setOrder
  cases hd : sqliteDatetime e.2 with
  | none => exact ⟨row, hrow, hbad⟩
  | some line =>
    refine ⟨_, List.mem_map_of_mem hrow, ?_⟩
    split
    · exact sqliteDatetime_no_offset hd
    · exact hbad

theorem foldl_setOrder_unreadable (h : ∃ row ∈ rows, ¬ EndsInOffset row.createdAt)
    (list : List (BitVec 128 × Nat)) :
    ∃ row ∈ list.foldl setOrder rows, ¬ EndsInOffset row.createdAt := by
  induction list generalizing rows with
  | nil => exact h
  | cons e list ih => exact ih (setOrder_unreadable h e)

theorem sqliteDatetime_zero : (sqliteDatetime 0).isSome := by decide

/-- The first id of a request gives its row a time without an offset. -/
theorem reorder_unreadable (hrow : row ∈ rows) (ids : List (BitVec 128)) :
    ∃ row' ∈ reorder rows (row.id :: ids), ¬ EndsInOffset row'.createdAt := by
  unfold reorder
  rw [List.zipIdx_cons, List.foldl_cons]
  apply foldl_setOrder_unreadable
  obtain ⟨line, hline⟩ := Option.isSome_iff_exists.mp sqliteDatetime_zero
  unfold setOrder
  rw [hline]
  refine ⟨_, List.mem_map_of_mem hrow, ?_⟩
  rw [if_pos rfl]
  exact sqliteDatetime_no_offset hline

theorem readDate_ok (h : readDate chrono s = .ok t) : chrono.parse s = some t := by
  unfold readDate at h
  split at h
  · next t' ht =>
    cases h
    exact ht
  · cases h

theorem createdAt_of_into {row : NatRuleRow} (h : intoNatRule chrono row = .ok r) :
    EndsInOffset row.createdAt := by
  obtain ⟨natType, -, h⟩ := except_bind_ok h
  obtain ⟨protocol, -, h⟩ := except_bind_ok h
  obtain ⟨srcAddr, -, h⟩ := except_bind_ok h
  obtain ⟨dstAddr, -, h⟩ := except_bind_ok h
  obtain ⟨redirectAddr, -, h⟩ := except_bind_ok h
  obtain ⟨createdAt, hcreated, -⟩ := except_bind_ok h
  exact chrono.offset _ _ (readDate_ok hcreated)

theorem into_of_mapM {rows : List NatRuleRow} (h : rows.mapM (intoNatRule chrono) = .ok rules)
    (hrow : row ∈ rows) : ∃ r, intoNatRule chrono row = .ok r := by
  induction rows generalizing rules with
  | nil => cases hrow
  | cons head rows ih =>
    rw [List.mapM_cons] at h
    obtain ⟨r, hr, h⟩ := except_bind_ok h
    obtain ⟨rest, hrest, -⟩ := except_bind_ok h
    rcases List.mem_cons.mp hrow with rfl | hrow
    · exact ⟨r, hr⟩
    · exact ih hrest hrow

theorem parsePortRange_map (port : Option PortRange) :
    parsePortRange (port.map PortRange.start) (port.map PortRange.end_) = port := by
  cases port <;> rfl

theorem status_of_asStr (s : NatStatus) :
    (if s.asStr = "active".toList then NatStatus.active else .disabled) = s := by
  cases s <;> rfl

/-- A row reads as the rule it was written from. -/
theorem intoNatRule_ofRule (rule : NatRecord DateTime) (h : rule.toNatRule.TablesValid) :
    intoNatRule chrono (ofRule chrono rule) = .ok rule := by
  have hdate (t : DateTime) : readDate chrono (chrono.toRfc3339 t) = .ok t := by
    unfold readDate
    rw [chrono.parse_toRfc3339]
  unfold intoNatRule ofRule
  simp only [NatType.parse_display, Protocol.parse_display, Address.parse_display _ h.srcTable,
    Address.parse_display _ h.dstTable, Address.parse_display _ h.redirectTable, hdate,
    parsePortRange_map, status_of_asStr]
  rfl

theorem listsAs_nil : ListsAs chrono [] [] := by
  unfold ListsAs listRules listActiveRules byCreatedAt
  simp only [List.filter_nil, List.mergeSort_nil]
  exact ⟨rfl, rfl⟩

theorem listsAs_singleton (rule : NatRecord DateTime) (h : rule.toNatRule.TablesValid) :
    ListsAs chrono [ofRule chrono rule] [rule] := by
  have hread : [ofRule chrono rule].mapM (intoNatRule chrono) = .ok [rule] := by
    rw [List.mapM_cons, intoNatRule_ofRule rule h]
    rfl
  unfold ListsAs listRules listActiveRules byCreatedAt activeOnly
  rw [List.mergeSort_singleton]
  refine ⟨hread, ?_⟩
  have hstatus : (ofRule chrono rule).status = rule.status.asStr := rfl
  rw [List.filter_singleton, List.filter_singleton, hstatus]
  cases hs : rule.status with
  | active =>
    have hon : decide (NatStatus.active.asStr = "active".toList) = true := by decide
    rw [hon, cond_true, decide_eq_true rfl, cond_true, List.mergeSort_singleton]
    exact hread
  | disabled =>
    have hoff : decide (NatStatus.disabled.asStr = "active".toList) = false := by decide
    rw [hoff, cond_false, decide_eq_false (by decide), cond_false, List.mergeSort_nil]
    rfl

theorem addRule_nil {rule : NatRecord DateTime}
    (h : validateNatRule rule.toNatRule = .ok ()) :
    addRule chrono [] rule = .ok [ofRule chrono rule] := by
  unfold addRule
  rw [h]
  rfl

/-- The order is kept exactly where there is nothing to order: the time the statement writes has no
offset, and one such row makes the whole table unreadable. -/
theorem orderKept_iff (chrono : Rfc3339 DateTime) (rows : List NatRuleRow)
    (ruleIds : List (BitVec 128)) (h : ruleIds.Perm (rows.map NatRuleRow.id)) :
    OrderKept chrono rows ruleIds ↔ rows = [] := by
  constructor
  · rintro ⟨rules, hlists, -⟩
    cases rows with
    | nil => rfl
    | cons first rows =>
      cases ruleIds with
      | nil =>
        have hlength := h.length_eq
        cases hlength
      | cons id ids =>
        obtain ⟨row, hrow, rfl⟩ := List.mem_map.mp (h.mem_iff.mp List.mem_cons_self)
        obtain ⟨row', hrow', hbad⟩ := reorder_unreadable hrow ids
        obtain ⟨r, hr⟩ := into_of_mapM hlists.1 (List.mem_mergeSort.mpr hrow')
        exact absurd (createdAt_of_into hr) hbad
  · rintro rfl
    have hids : ruleIds = [] := List.perm_nil.mp h
    rw [hids]
    refine ⟨[], listsAs_nil, rfl, ?_, ?_⟩
    · rintro r ⟨⟩
    · intro rule hrule
      exact ⟨_, addRule_nil hrule.valid, listsAs_singleton rule hrule.tables⟩

theorem pad2_inj : ∀ i j : Fin 60, pad2 i = pad2 j → i = j := by decide +kernel

/-- The times of one minute. -/
def minute : Rfc3339 (Fin 60) where
  toRfc3339 i := "2024-05-01T12:00:".toList ++ pad2 i ++ "+00:00".toList
  parse s := (List.finRange 60).find? fun i =>
    "2024-05-01T12:00:".toList ++ pad2 i ++ "+00:00".toList = s
  parse_toRfc3339 := by
    intro i
    have hfound : ((List.finRange 60).find? fun j : Fin 60 =>
        "2024-05-01T12:00:".toList ++ pad2 j ++ "+00:00".toList =
          "2024-05-01T12:00:".toList ++ pad2 i ++ "+00:00".toList).isSome :=
      List.find?_isSome.mpr ⟨i, List.mem_finRange i, decide_eq_true rfl⟩
    obtain ⟨j, hj⟩ := Option.isSome_iff_exists.mp hfound
    have htext := List.find?_some hj
    have hpad := List.append_cancel_left (List.append_cancel_right (of_decide_eq_true htext))
    rw [hj, pad2_inj j i hpad]
  offset := by
    intro s t h
    have hs := List.find?_some h
    rw [← of_decide_eq_true hs]
    exact .numeric _ '+' '0' '0' '0' '0' (by decide) rfl

theorem orderKept_empty :
    ([] : List (BitVec 128)).Perm (([] : List NatRuleRow).map NatRuleRow.id) ∧
      OrderKept minute [] [] :=
  ⟨.nil, (orderKept_iff minute [] [] .nil).mpr rfl⟩

/-- A rule of the table, to masquerade on one interface. -/
def sampleRow : NatRuleRow :=
  ofRule minute {
    natType := .masquerade
    interface := "em0".toList
    protocol := .any
    srcAddr := .any
    srcPort := none
    dstAddr := .any
    dstPort := none
    redirect := ⟨.any, none⟩
    id := 1
    label := none
    status := .active
    createdAt := 0
    updatedAt := 0 }

theorem orderKept_single_false :
    (reorder [sampleRow] [1]).map NatRuleRow.createdAt = ["2000-01-01 00:00:00".toList] ∧
      ¬ OrderKept minute [sampleRow] [1] := by
  refine ⟨by decide +kernel, ?_⟩
  rintro ⟨rules, hlists, -⟩
  have hmem : sampleRow ∈ [sampleRow] := List.mem_cons_self
  obtain ⟨row, hrow, hbad⟩ := reorder_unreadable hmem []
  obtain ⟨r, hr⟩ := into_of_mapM hlists.1 (List.mem_mergeSort.mpr hrow)
  exact hbad (createdAt_of_into hr)

end NatRuleRow

end AiFw.Pf
