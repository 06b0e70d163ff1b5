import AiFw.Ids.AlertTable
import AiFw.Lib.Numerals
import AiFw.Lib.Runs
import AiFw.Lib.Separated
import Mathlib.Data.Char

namespace AiFw.Ids
open AiFw.Lib AiFw.Net
set_option autoImplicit true

/-- The two stores of the alerts. -/
structure AlertStores where
  buffer : AlertBuffer
  rows : AlertTable

inductive AlertOp where
  | emit (alert : IdsAlert) (pushedAt insertedAt : Int)
  | classify (id : Uuid) (classification : AlertClassification) (notes : Option String)
  | acknowledge (id : Uuid)

/-- An alert as it is when it is raised. -/
def IdsAlert.raised (a : IdsAlert) : IdsAlert :=
  { a with acknowledged := false, classification := .unreviewed, analystNotes := none }

def IdsAlert.withoutFlow (a : IdsAlert) : IdsAlert := { a with flowId := none }

/-- A text that is read as a classification is the one stored for it. -/
def AlertFilter.SpeltAsStored (filter : AlertFilter) : Prop :=
  ∀ cls ∈ filter.classification, ∀ c, AlertClassification.parse cls = some c → cls = c.asStr

/-- The column a test of the row's classification compares is the text of the alert's. -/
def AlertFilter.passesAsText (filter : AlertFilter) (a : IdsAlert) : Bool :=
  AlertBuffer.passesFields filter a && filter.classification.all fun cls =>
    if cls = reviewed then a.classification ≠ .unreviewed else a.classification.asStr = cls

theorem asStr_eq_unreviewed {c : AlertClassification} :
    c.asStr = "unreviewed".toList ↔ c = .unreviewed := by
  cases c <;> decide

theorem asStr_no_bar (c : AlertClassification) : '|' ∉ c.asStr := by
  cases c <;> decide

theorem AlertFilter.passesAsText_eq {filter : AlertFilter} (h : filter.SpeltAsStored)
    (a : IdsAlert) : filter.passesAsText a = AlertBuffer.passes filter a := by
  unfold passesAsText AlertBuffer.passes
  congr 1
  cases hf : filter.classification with
  | none => rfl
  | some cls =>
    rw [Option.all_some, Option.all_some, AlertBuffer.passesClassification]
    congr 1
    rw [decide_eq_decide]
    constructor
    · rintro rfl
      exact AlertClassification.parse_asStr a.classification
    · intro hp
      exact (h cls hf a.classification hp).symm

/-- serde_json reads back what it has written of the metadata. -/
def AlertLibs.ReadsMetadata (libs : AlertLibs) (a : IdsAlert) : Prop :=
  ∀ m ∈ a.metadata, (libs.toJson m).bind libs.fromJson = some m

/-- What chrono is documented to do with the times that are stored. -/
structure AlertLibs.Documented (libs : AlertLibs) : Prop where
  read : ∀ ts, libs.InYears ts → libs.parseRfc3339 (libs.toRfc3339 ts) = some ts
  order : ∀ ts ts', libs.InYears ts → libs.InYears ts' → ts < ts' →
    libs.toRfc3339 ts < libs.toRfc3339 ts'

namespace AlertRow
variable (libs : AlertLibs)

/-- The row that holds just the alert. -/
def storing (a : IdsAlert) : AlertRow where
  id := a.id
  timestamp := libs.toRfc3339 a.timestamp
  signatureId := a.signatureId.map fun s => s.toNat
  signatureMsg := a.signatureMsg
  severity := a.severity.toNat
  srcIp := a.srcIp.display
  srcPort := a.srcPort.map fun p => p.toNat
  dstIp := a.dstIp.display
  dstPort := a.dstPort.map fun p => p.toNat
  protocol := a.protocol
  action := a.action.display
  ruleSource := a.ruleSource.display
  flowId := a.flowId
  payloadExcerpt := a.payloadExcerpt
  metadata := a.metadata.bind libs.toJson
  acknowledged := a.acknowledged
  classification := a.classification.asStr
  analystNotes := a.analystNotes

/-- The alert a row of its own is read as: empty notes are none. -/
def readBack (a : IdsAlert) : IdsAlert :=
  { a with
    flowId := none
    analystNotes := if a.analystNotes = some "" then none else a.analystNotes }

variable {libs : AlertLibs}

theorem ofAlert_eq (h : libs.Plausible now a.timestamp) :
    ofAlert libs now a = storing libs a.raised := by
  rw [ofAlert, sanitizeAlertTimestamp, if_pos h]
  rfl

theorem map_map_id {f : α → β} {g : β → α} (h : ∀ x, g (f x) = x) (o : Option α) :
    (o.map f).map g = o := by
  rw [Option.map_map]
  cases o with
  | none => rfl
  | some x => rw [Option.map_some, Function.comp_apply, h]

theorem unpackNotes_storing (a : IdsAlert) :
    unpackNotes (storing libs a).packed =
      if a.analystNotes = some "" then none else a.analystNotes := by
  have hsplit : splitOnce '|' (storing libs a).packed =
      some (a.classification.asStr, (a.analystNotes.getD "").toList) :=
    splitOnce_append (asStr_no_bar a.classification)
  rw [unpackNotes, hsplit, Option.bind_some]
  cases hn : a.analystNotes with
  | none => rfl
  | some n =>
    rw [Option.getD_some]
    by_cases he : n = ""
    · rw [he]
      rfl
    · have hne : n.toList ≠ [] := fun h => he (String.toList_eq_nil_iff.mp h)
      have hsome : some n ≠ some "" := fun h => he (Option.some.inj h)
      rw [if_neg hne, if_neg hsome, String.ofList_toList]

theorem intoAlert_storing {a : IdsAlert}
    (hread : libs.parseRfc3339 (libs.toRfc3339 a.timestamp) = some a.timestamp)
    (hjson : libs.ReadsMetadata a) : (storing libs a).intoAlert libs = some (readBack a) := by
  have hmeta : (a.metadata.bind libs.toJson).bind libs.fromJson = a.metadata := by
    cases hm : a.metadata with
    | none => rfl
    | some m => exact hjson m hm
  have hcls : ((splitOn '|' (storing libs a).packed).head?).bind AlertClassification.parse =
      some a.classification := by
    have hhead : (splitOn '|' (storing libs a).packed).head? = some a.classification.asStr :=
      head_splitOn_append (asStr_no_bar a.classification) _
    rw [hhead, Option.bind_some, AlertClassification.parse_asStr]
  rw [intoAlert, hcls, unpackNotes_storing]
  simp only [storing, IpAddr.parse_display, hread, hmeta, IdsAction.fromStr_display,
    RuleSource.fromStr_display, map_map_id ofInt_toNat_u32, map_map_id ofInt_toNat_u16,
    ofInt_toNat_u8, Option.bind_eq_bind, Option.bind_some, Option.getD_some, Option.pure_def]
  rfl

theorem meets_storing (filter : AlertFilter) (a : IdsAlert) :
    (storing libs a).meets filter = filter.passesAsText a := by
  have hsev : (fun sev : UInt8 => decide ((storing libs a).severity = sev.toNat)) =
      fun sev => decide (a.severity = sev) := by
    funext sev
    rw [decide_eq_decide, storing, Int.ofNat_inj, UInt8.toNat_inj]
  have hsid : (fun sid : UInt32 => decide ((storing libs a).signatureId = some (sid.toNat : Int))) =
      fun sid => decide (a.signatureId = some sid) := by
    funext sid
    rw [decide_eq_decide, storing]
    cases a.signatureId with
    | none => exact ⟨fun h => (nomatch h), fun h => nomatch h⟩
    | some s => rw [Option.map_some, Option.some_inj, Option.some_inj, Int.ofNat_inj, UInt32.toNat_inj]
  have hcls : (fun cls => (storing libs a).meetsClassification cls) = fun cls : List Char =>
      if cls = reviewed then decide (a.classification ≠ .unreviewed)
      else decide (a.classification.asStr = cls) := by
    funext cls
    rw [meetsClassification]
    split
    · rw [decide_eq_decide]
      exact not_congr asStr_eq_unreviewed
    · rfl
  rw [meets, hsev, hsid, hcls]
  rfl

end AlertRow

/-- The alerts stand in the order of their times, all in the years whose times are kept. -/
structure InOrder (libs : AlertLibs) (alerts : List IdsAlert) : Prop where
  times : alerts.Pairwise fun a b => a.timestamp < b.timestamp
  years : ∀ a ∈ alerts, libs.InYears a.timestamp
  json : ∀ a ∈ alerts, libs.ReadsMetadata a

theorem InOrder.map {libs : AlertLibs} {alerts : List IdsAlert} (h : InOrder libs alerts)
    {f : IdsAlert → IdsAlert} (htime : ∀ a, (f a).timestamp = a.timestamp)
    (hmeta : ∀ a, (f a).metadata = a.metadata) : InOrder libs (alerts.map f) := by
  refine ⟨?_, ?_, ?_⟩
  · rw [List.pairwise_map]
    apply h.times.imp
    intro a b hab
    rw [htime, htime]
    exact hab
  · intro a ha
    obtain ⟨b, hb, rfl⟩ := List.mem_map.mp ha
    rw [htime]
    exact h.years b hb
  · intro a ha
    obtain ⟨b, hb, rfl⟩ := List.mem_map.mp ha
    rw [AlertLibs.ReadsMetadata, hmeta]
    exact h.json b hb

theorem InOrder.append {libs : AlertLibs} {alerts : List IdsAlert} (h : InOrder libs alerts)
    (hnewest : ∀ a ∈ alerts, a.timestamp < alert.timestamp)
    (hyears : libs.InYears alert.timestamp) (hjson : libs.ReadsMetadata alert) :
    InOrder libs (alerts ++ [alert]) := by
  refine ⟨?_, ?_, ?_⟩
  · apply List.pairwise_append.mpr ⟨h.times, List.pairwise_singleton _ _, ?_⟩
    intro a ha b hb
    rw [List.mem_singleton.mp hb]
    exact hnewest a ha
  · intro a ha
    obtain ha | ha := List.mem_append.mp ha
    · exact h.years a ha
    · rw [List.mem_singleton.mp ha]
      exact hyears
  · intro a ha
    obtain ha | ha := List.mem_append.mp ha
    · exact h.json a ha
    · rw [List.mem_singleton.mp ha]
      exact hjson

namespace AlertTable
open AlertRow
variable {libs : AlertLibs}

theorem queryAlerts_storing (hlibs : libs.Documented) {alerts : List IdsAlert}
    (h : InOrder libs alerts) (filter : AlertFilter) (limit offset : Nat) :
    queryAlerts libs (alerts.map (storing libs)) filter limit offset =
      (((alerts.reverse.filter filter.passesAsText).drop offset).take limit).map readBack := by
  have hfilter : (alerts.map (storing libs)).filter (meets filter) =
      (alerts.filter filter.passesAsText).map (storing libs) := by
    rw [List.filter_map]
    congr 2
    funext a
    exact meets_storing filter a
  have hsorted : ((alerts.filter filter.passesAsText).map (storing libs)).Pairwise
      fun a b => (!decide (a.timestamp < b.timestamp)) = false := by
    rw [List.pairwise_map]
    apply (h.times.sublist List.filter_sublist).imp_of_mem
    intro a b ha hb hab
    rw [Bool.not_eq_false', decide_eq_true_eq]
    exact hlibs.order _ _ (h.years a (List.mem_of_mem_filter ha))
      (h.years b (List.mem_of_mem_filter hb)) hab
  have hread : ∀ a ∈ ((alerts.reverse.filter filter.passesAsText).drop offset).take limit,
      (storing libs a).intoAlert libs = some (readBack a) := by
    intro a ha
    have hmem := List.mem_of_mem_filter (List.mem_of_mem_drop (List.mem_of_mem_take ha))
    have hstored := List.mem_reverse.mp hmem
    exact intoAlert_storing (hlibs.read _ (h.years a hstored)) (h.json a hstored)
  rw [queryAlerts, hfilter, mergeSort_eq_reverse _ _ hsorted, ← List.map_reverse,
    ← List.filter_reverse, ← List.map_drop, ← List.map_take, List.filterMap_map]
  · rw [← List.filterMap_eq_map]
    exact List.filterMap_congr hread
  · intro a b c hab hbc
    rw [Bool.not_eq_true', decide_eq_false_iff_not] at hab hbc ⊢
    exact not_lt.mpr (le_trans (not_lt.mp hbc) (not_lt.mp hab))
  · intro a b
    rw [Bool.or_eq_true, Bool.not_eq_true', Bool.not_eq_true', decide_eq_false_iff_not,
      decide_eq_false_iff_not]
    exact (lt_or_ge a.timestamp b.timestamp).symm.imp not_lt.mpr not_lt_of_gt

end AlertTable

namespace AlertStores
open AlertRow (storing readBack ofAlert_eq)
variable (libs : AlertLibs)

def start (maxBytes maxAgeSecs : Nat) : AlertStores := ⟨⟨[], maxBytes, maxAgeSecs⟩, []⟩

def step (s : AlertStores) : AlertOp → AlertStores
  | .emit alert pushedAt insertedAt =>
    ⟨s.buffer.push pushedAt alert, AlertTable.emit libs s.rows insertedAt alert⟩
  | .classify id classification notes =>
    ⟨s.buffer.classify id classification notes, AlertTable.classify s.rows id classification notes⟩
  | .acknowledge id => ⟨s.buffer.acknowledge id, AlertTable.acknowledge s.rows id⟩

/-- A new alert with a sound time later than all others, and none is evicted for it. -/
structure Admitted (s : AlertStores) (alert : IdsAlert) (pushedAt insertedAt : Int) : Prop where
  fresh : ∀ a ∈ s.buffer.alerts, a.id ≠ alert.id
  newest : ∀ a ∈ s.buffer.alerts, a.timestamp < alert.timestamp
  instants : libs.Plausible insertedAt alert.timestamp
  kept : (s.buffer.push pushedAt alert).alerts = s.buffer.alerts ++ [alert]
  json : libs.ReadsMetadata alert

def Admits (s : AlertStores) : AlertOp → Prop
  | .emit alert pushedAt insertedAt => s.Admitted libs alert pushedAt insertedAt
  | _ => True

/-- An alert comes in as one that was just raised, and a classification either brings notes with a
text or finds an alert without notes. -/
def Careful (s : AlertStores) : AlertOp → Prop
  | .emit alert _ _ =>
    alert.acknowledged = false ∧ alert.classification = .unreviewed ∧ alert.analystNotes = none
  | .classify id _ notes => ∀ a ∈ s.buffer.alerts, a.id = id →
    notes ≠ some "" ∧ (notes = none → a.analystNotes = none)
  | .acknowledge _ => True

def SameAnswers (s : AlertStores) (filter : AlertFilter) : Prop :=
  ∀ limit offset, (s.buffer.query filter limit offset).map IdsAlert.withoutFlow =
    (AlertTable.queryAlerts libs s.rows filter limit offset).map IdsAlert.withoutFlow

/-- Every row holds just the alert of its place in the buffer. -/
structure Agree (s : AlertStores) : Prop where
  rows : s.rows = s.buffer.alerts.map (storing libs)
  order : InOrder libs s.buffer.alerts
  ids : s.buffer.alerts.Pairwise fun a b => a.id ≠ b.id
  notes : ∀ a ∈ s.buffer.alerts, a.analystNotes ≠ some ""

/-- What the operation makes of the alerts in the buffer. -/
def bufferChange : AlertOp → List IdsAlert → List IdsAlert
  | .emit alert _ _, alerts => alerts ++ [alert]
  | .classify id classification notes, alerts => alerts.map fun a =>
    if a.id = id then AlertBuffer.classified classification notes a else a
  | .acknowledge id, alerts => alerts.map fun a =>
    if a.id = id then { a with acknowledged := true } else a

/-- What it makes of the alerts that the rows hold. -/
def tableChange : AlertOp → List IdsAlert → List IdsAlert
  | .emit alert _ _, alerts => alerts ++ [alert.raised]
  | .classify id classification notes, alerts => alerts.map fun a =>
    if a.id = id then { a with classification, analystNotes := notes, acknowledged := true } else a
  | .acknowledge id, alerts => alerts.map fun a =>
    if a.id = id then { a with acknowledged := true } else a

section
variable {libs : AlertLibs} {s : AlertStores}

theorem readBack_of_notes {a : IdsAlert} (h : a.analystNotes ≠ some "") :
    readBack a = a.withoutFlow := by
  rw [readBack, if_neg h]
  rfl

theorem Agree.sameAnswers (h : s.Agree libs) (hlibs : libs.Documented) {filter : AlertFilter}
    (hspelt : filter.SpeltAsStored) : s.SameAnswers libs filter := by
  intro limit offset
  have hpasses : filter.passesAsText = AlertBuffer.passes filter :=
    funext fun a => filter.passesAsText_eq hspelt a
  rw [h.rows, AlertTable.queryAlerts_storing hlibs h.order, List.map_map, hpasses]
  apply List.map_congr_left
  intro a ha
  have hmem := List.mem_of_mem_filter (List.mem_of_mem_drop (List.mem_of_mem_take ha))
  exact (readBack_of_notes (h.notes a (List.mem_reverse.mp hmem))).symm

theorem modify_eq_map {alerts : List IdsAlert} (h : alerts.Pairwise fun a b => a.id ≠ b.id)
    (id : Uuid) (f : IdsAlert → IdsAlert) :
    AlertBuffer.modify id f alerts = alerts.map fun a => if a.id = id then f a else a := by
  induction alerts with
  | nil => rfl
  | cons a rest ih =>
    obtain ⟨hne, hrest⟩ := List.pairwise_cons.mp h
    rw [AlertBuffer.modify, List.map_cons]
    by_cases hid : a.id = id
    · rw [if_pos hid, if_pos hid]
      have hrest' : ∀ b ∈ rest, (if b.id = id then f b else b) = b := by
        intro b hb
        exact if_neg fun he => hne b hb (hid.trans he.symm)
      rw [List.map_congr_left hrest', List.map_id']
    · rw [if_neg hid, if_neg hid, ih hrest]

theorem Agree.step_alerts (h : s.Agree libs) {op : AlertOp} (hop : s.Admits libs op) :
    (s.step libs op).buffer.alerts = bufferChange op s.buffer.alerts := by
  cases op with
  | emit alert pushedAt insertedAt => exact hop.kept
  | classify id classification notes => exact modify_eq_map h.ids id _
  | acknowledge id => exact modify_eq_map h.ids id _

theorem Agree.step_rows (h : s.Agree libs) {op : AlertOp} (hop : s.Admits libs op) :
    (s.step libs op).rows = (tableChange op s.buffer.alerts).map (storing libs) := by
  cases op with
  | emit alert pushedAt insertedAt =>
    have hnew : hasKey AlertRow.id alert.id s.rows = false := by
      rw [hasKey_eq_false, h.rows]
      intro r hr
      obtain ⟨a, ha, rfl⟩ := List.mem_map.mp hr
      exact hop.fresh a ha
    change AlertTable.emit libs s.rows insertedAt alert = _
    rw [AlertTable.emit, hnew, if_neg Bool.false_ne_true, ofAlert_eq hop.instants, tableChange,
      List.map_append, ← h.rows]
    rfl
  | classify id classification notes =>
    change AlertTable.classify s.rows id classification notes = _
    rw [AlertTable.classify, h.rows, tableChange, List.map_map, List.map_map]
    apply List.map_congr_left
    intro a _
    simp only [Function.comp_apply]
    by_cases hid : a.id = id
    · rw [if_pos hid, if_pos (show (storing libs a).id = id from hid)]
      rfl
    · rw [if_neg hid, if_neg (show ¬(storing libs a).id = id from hid)]
  | acknowledge id =>
    change AlertTable.acknowledge s.rows id = _
    rw [AlertTable.acknowledge, h.rows, tableChange, List.map_map, List.map_map]
    apply List.map_congr_left
    intro a _
    simp only [Function.comp_apply]
    by_cases hid : a.id = id
    · rw [if_pos hid, if_pos (show (storing libs a).id = id from hid)]
      rfl
    · rw [if_neg hid, if_neg (show ¬(storing libs a).id = id from hid)]

theorem careful_iff (h : s.Agree libs) (op : AlertOp) :
    s.Careful op ↔ (bufferChange op s.buffer.alerts).map IdsAlert.withoutFlow =
      (tableChange op s.buffer.alerts).map readBack := by
  have hsame : s.buffer.alerts.map readBack = s.buffer.alerts.map IdsAlert.withoutFlow :=
    List.map_congr_left fun a ha => readBack_of_notes (h.notes a ha)
  cases op with
  | emit alert pushedAt insertedAt =>
    rw [bufferChange, tableChange, List.map_append, List.map_append, hsame,
      List.append_cancel_left_eq, List.map_singleton, List.map_singleton, List.cons.injEq,
      and_iff_left rfl]
    constructor
    · rintro ⟨hack, hcls, hnotes⟩
      rw [show alert.raised = alert by rw [IdsAlert.raised, ← hack, ← hcls, ← hnotes],
        readBack_of_notes]
      rw [hnotes]
      exact fun h => nomatch h
    · intro he
      exact ⟨congrArg IdsAlert.acknowledged he, congrArg IdsAlert.classification he,
        congrArg IdsAlert.analystNotes he⟩
  | classify id classification notes =>
    rw [bufferChange, tableChange, List.map_map, List.map_map, List.map_inj_left]
    apply forall₂_congr
    intro a ha
    simp only [Function.comp_apply]
    by_cases hid : a.id = id
    · rw [if_pos hid, if_pos hid, forall_prop_of_true hid]
      cases notes with
      | none =>
        constructor
        · rintro ⟨-, hnone⟩
          rw [AlertBuffer.classified, hnone rfl]
          rfl
        · intro he
          exact ⟨(fun h => nomatch h), fun _ => congrArg IdsAlert.analystNotes he⟩
      | some n =>
        constructor
        · rintro ⟨hne, -⟩
          rw [readBack_of_notes hne]
          rfl
        · intro he
          refine ⟨?_, fun h => nomatch h⟩
          intro hempty
          have hnotes := congrArg IdsAlert.analystNotes he
          change some n = if some n = some "" then none else some n at hnotes
          rw [if_pos hempty] at hnotes
          cases hnotes
    · rw [if_neg hid, if_neg hid, readBack_of_notes (h.notes a ha)]
      exact iff_of_true (fun hid' => absurd hid' hid) rfl
  | acknowledge id =>
    rw [bufferChange, tableChange, List.map_map, List.map_map]
    apply iff_of_true trivial
    apply List.map_congr_left
    intro a ha
    simp only [Function.comp_apply]
    by_cases hid : a.id = id
    · rw [if_pos hid, readBack_of_notes (a := { a with acknowledged := true }) (h.notes a ha)]
    · rw [if_neg hid, readBack_of_notes (h.notes a ha)]

/-- Both changes keep the order of the alerts. -/
theorem Agree.inOrder_tableChange (h : s.Agree libs) {op : AlertOp} (hop : s.Admits libs op) :
    InOrder libs (tableChange op s.buffer.alerts) := by
  cases op with
  | emit alert pushedAt insertedAt =>
    have hjson : libs.ReadsMetadata alert.raised := hop.json
    exact h.order.append hop.newest hop.instants.2.2 hjson
  | classify id classification notes =>
    apply h.order.map <;>
      · intro a
        split <;> rfl
  | acknowledge id =>
    apply h.order.map <;>
      · intro a
        split <;> rfl

/-- An operation that meets the condition changes both stores in the same way. -/
theorem changes_eq {op : AlertOp} (hcareful : s.Careful op) :
    bufferChange op s.buffer.alerts = tableChange op s.buffer.alerts := by
  cases op with
  | emit alert pushedAt insertedAt =>
    obtain ⟨hack, hcls, hnotes⟩ := hcareful
    rw [bufferChange, tableChange, IdsAlert.raised, ← hack, ← hcls, ← hnotes]
  | classify id classification notes =>
    apply List.map_congr_left
    intro a ha
    by_cases hid : a.id = id
    · rw [if_pos hid, if_pos hid, AlertBuffer.classified]
      cases notes with
      | none => rw [Option.none_or, (hcareful a ha hid).2 rfl]
      | some n => rfl
    · rw [if_neg hid, if_neg hid]
  | acknowledge id => rfl

theorem Agree.step (h : s.Agree libs) {op : AlertOp} (hop : s.Admits libs op)
    (hcareful : s.Careful op) : (s.step libs op).Agree libs := by
  have halerts := h.step_alerts hop
  have hrows := h.step_rows hop
  have heq := changes_eq hcareful
  refine ⟨?_, ?_, ?_, ?_⟩
  · rw [hrows, halerts, heq]
  · rw [halerts, heq]
    exact h.inOrder_tableChange hop
  · rw [halerts]
    cases op with
    | emit alert pushedAt insertedAt =>
      apply List.pairwise_append.mpr ⟨h.ids, List.pairwise_singleton _ _, ?_⟩
      intro a ha b hb
      rw [List.mem_singleton.mp hb]
      exact hop.fresh a ha
    | classify id classification notes =>
      rw [bufferChange, List.pairwise_map]
      apply h.ids.imp
      intro a b hab
      split <;> split <;> exact hab
    | acknowledge id =>
      rw [bufferChange, List.pairwise_map]
      apply h.ids.imp
      intro a b hab
      split <;> split <;> exact hab
  · rw [halerts]
    cases op with
    | emit alert pushedAt insertedAt =>
      intro a ha
      obtain ha | ha := List.mem_append.mp ha
      · exact h.notes a ha
      · rw [List.mem_singleton.mp ha, hcareful.2.2]
        exact fun h => nomatch h
    | classify id classification notes =>
      intro b hb
      obtain ⟨a, ha, rfl⟩ := List.mem_map.mp hb
      by_cases hid : a.id = id
      · rw [if_pos hid]
        cases notes with
        | none => exact h.notes a ha
        | some n => exact (hcareful a ha hid).1
      · rw [if_neg hid]
        exact h.notes a ha
    | acknowledge id =>
      intro b hb
      obtain ⟨a, ha, rfl⟩ := List.mem_map.mp hb
      split <;> exact h.notes a ha

def unfiltered : AlertFilter := ⟨none, none, none, none, none⟩

theorem unfiltered_spelt : unfiltered.SpeltAsStored := fun _ h => nomatch h

/-- The unfiltered answers tell an operation that does not meet the condition. -/
theorem Agree.careful_of_same (h : s.Agree libs) (hlibs : libs.Documented) {op : AlertOp}
    (hop : s.Admits libs op) (hsame : (s.step libs op).SameAnswers libs unfiltered) :
    s.Careful op := by
  have hall := hsame (s.buffer.alerts.length + 1) 0
  have hlen : (bufferChange op s.buffer.alerts).length ≤ s.buffer.alerts.length + 1 ∧
      (tableChange op s.buffer.alerts).length ≤ s.buffer.alerts.length + 1 := by
    cases op with
    | emit alert pushedAt insertedAt =>
      simp only [bufferChange, tableChange, List.length_append, List.length_singleton, le_refl,
        and_self]
    | classify id classification notes =>
      simp only [bufferChange, tableChange, List.length_map, Nat.le_succ, and_self]
    | acknowledge id =>
      simp only [bufferChange, tableChange, List.length_map, Nat.le_succ, and_self]
  have hpasses : unfiltered.passesAsText = fun _ => true := rfl
  have hpasses' : AlertBuffer.passes unfiltered = fun _ => true := rfl
  rw [h.step_rows hop, AlertTable.queryAlerts_storing hlibs (h.inOrder_tableChange hop),
    AlertBuffer.query, h.step_alerts hop, hpasses, hpasses', List.filter_true, List.filter_true,
    List.drop_zero, List.drop_zero, List.take_of_length_le, List.take_of_length_le,
    List.map_map] at hall
  · rw [List.map_reverse, List.map_reverse] at hall
    exact (careful_iff h op).mpr (List.reverse_injective hall)
  · rw [List.length_reverse]
    exact hlen.2
  · rw [List.length_reverse]
    exact hlen.1

/-- A classification that is spelt otherwise than it is stored finds no row. -/
theorem Agree.sameAnswers_misspelt (h : s.Agree libs) (hlibs : libs.Documented)
    {filter : AlertFilter} (hspelt : ¬filter.SpeltAsStored) :
    s.SameAnswers libs filter ↔ ∀ a ∈ s.buffer.alerts, AlertBuffer.passes filter a = false := by
  have hnone : filter.passesAsText = fun _ => false := by
    simp only [AlertFilter.SpeltAsStored, not_forall] at hspelt
    obtain ⟨cls, hcls, c, hparse, hne⟩ := hspelt
    funext a
    rw [AlertFilter.passesAsText, Option.mem_def.mp hcls, Option.all_some, Bool.and_eq_false_iff]
    right
    have hnot : cls ≠ reviewed := by
      rintro rfl
      rw [show AlertClassification.parse reviewed = none by decide] at hparse
      cases hparse
    rw [if_neg hnot, decide_eq_false_iff_not]
    rintro rfl
    rw [AlertClassification.parse_asStr] at hparse
    exact hne (congrArg AlertClassification.asStr (Option.some.inj hparse))
  have hempty (limit offset : Nat) :
      AlertTable.queryAlerts libs s.rows filter limit offset = [] := by
    rw [h.rows, AlertTable.queryAlerts_storing hlibs h.order, hnone, List.filter_false,
      List.drop_nil, List.take_nil, List.map_nil]
  constructor
  · intro hsame a ha
    have hall := hsame s.buffer.alerts.length 0
    rw [hempty, List.map_nil, List.map_eq_nil_iff, AlertBuffer.query, List.drop_zero,
      List.take_of_length_le, List.filter_eq_nil_iff] at hall
    · exact Bool.not_eq_true _ ▸ hall a (List.mem_reverse.mpr ha)
    · exact (List.length_filter_le _ _).trans (Nat.le_of_eq List.length_reverse)
  · intro hno limit offset
    have hfilter : s.buffer.alerts.reverse.filter (AlertBuffer.passes filter) = [] := by
      rw [List.filter_eq_nil_iff]
      intro a ha hpass
      rw [hno a (List.mem_reverse.mp ha)] at hpass
      cases hpass
    rw [hempty, AlertBuffer.query, hfilter, List.drop_nil, List.take_nil]

theorem agree_start (libs : AlertLibs) (maxBytes maxAgeSecs : Nat) :
    (start maxBytes maxAgeSecs).Agree libs where
  rows := rfl
  order := ⟨.nil, (fun _ h => nomatch h), fun _ h => nomatch h⟩
  ids := .nil
  notes := fun _ h => nomatch h

theorem Agree.same_iff (h : s.Agree libs) (hlibs : libs.Documented) {ops : List AlertOp}
    (hops : Along (AlertStores.step libs) (Admits libs) s ops) :
    (∀ past, past <+: ops → ∀ filter : AlertFilter, filter.SpeltAsStored →
        (past.foldl (AlertStores.step libs) s).SameAnswers libs filter) ↔
      Along (AlertStores.step libs) Careful s ops := by
  induction ops generalizing s with
  | nil =>
    apply iff_of_true _ trivial
    intro past hpast filter hspelt
    rw [List.prefix_nil.mp hpast]
    exact h.sameAnswers hlibs hspelt
  | cons op ops ih =>
    constructor
    · intro hsame
      have hcareful := h.careful_of_same hlibs hops.1
        (hsame [op] ⟨ops, rfl⟩ unfiltered unfiltered_spelt)
      refine ⟨hcareful, (ih (h.step hops.1 hcareful) hops.2).mp ?_⟩
      intro past hpast filter hspelt
      exact hsame (op :: past) (List.cons_prefix_cons.mpr ⟨rfl, hpast⟩) filter hspelt
    · rintro ⟨hcareful, hrest⟩ past hpast filter hspelt
      cases past with
      | nil => exact h.sameAnswers hlibs hspelt
      | cons op' past =>
        obtain ⟨rfl, hpast'⟩ := List.cons_prefix_cons.mp hpast
        exact (ih (h.step hops.1 hcareful) hops.2).mpr hrest past hpast' filter hspelt

theorem Agree.run (h : s.Agree libs) {ops : List AlertOp}
    (hops : Along (AlertStores.step libs) (Admits libs) s ops)
    (hcareful : Along (AlertStores.step libs) Careful s ops) :
    (ops.foldl (AlertStores.step libs) s).Agree libs := by
  induction ops generalizing s with
  | nil => exact h
  | cons op ops ih => exact ih (h.step hops.1 hcareful.1) hops.2 hcareful.2

end

/-- The stores give the same answers throughout a history, to every filter whose classification is
spelt as it is stored, exactly if each operation meets the condition; and to another filter then
exactly if no alert passes it. -/
theorem same_answers_iff (libs : AlertLibs) (hlibs : libs.Documented) (maxBytes maxAgeSecs : Nat)
    (ops : List AlertOp) (hops : Along (step libs) (Admits libs) (start maxBytes maxAgeSecs) ops) :
    ((∀ past, past <+: ops → ∀ filter : AlertFilter, filter.SpeltAsStored →
        (past.foldl (step libs) (start maxBytes maxAgeSecs)).SameAnswers libs filter) ↔
      Along (step libs) Careful (start maxBytes maxAgeSecs) ops) ∧
    (Along (step libs) Careful (start maxBytes maxAgeSecs) ops → ∀ filter : AlertFilter,
      ((ops.foldl (step libs) (start maxBytes maxAgeSecs)).SameAnswers libs filter ↔
        filter.SpeltAsStored ∨
          ∀ a ∈ (ops.foldl (step libs) (start maxBytes maxAgeSecs)).buffer.alerts,
            AlertBuffer.passes filter a = false)) := by
  have hstart := agree_start libs maxBytes maxAgeSecs
  refine ⟨hstart.same_iff hlibs hops, ?_⟩
  intro hcareful filter
  have hagree := hstart.run hops hcareful
  by_cases hspelt : filter.SpeltAsStored
  · exact iff_of_true (hagree.sameAnswers hlibs hspelt) (.inl hspelt)
  · rw [hagree.sameAnswers_misspelt hlibs hspelt, or_iff_right hspelt]

/-- Ten seconds of one minute. -/
def instant (i : Fin 10) : Int := seconds (1714564800 + i.val)

def instantText (i : Fin 10) : List Char :=
  "2024-05-01T12:00:0".toList ++ Nat.toDigits 10 i.val ++ "+00:00".toList

def instantOf (ts : Int) : Option (Fin 10) := (List.finRange 10).find? fun i => instant i = ts

/-- The times of these seconds; there is no metadata to write. -/
def sampleLibs : AlertLibs where
  year ts := if (instantOf ts).isSome then 2024 else 1970
  toRfc3339 ts :=
    match instantOf ts with
    | some i => instantText i
    | none => "1970-01-01T00:00:00+00:00".toList
  parseRfc3339 s := ((List.finRange 10).find? fun i => instantText i = s).map instant
  toJson _ := none
  fromJson _ := none

theorem exists_instant (h : sampleLibs.InYears ts) : ∃ i, ts = instant i := by
  cases hi : instantOf ts with
  | none =>
    have hyear : sampleLibs.year ts = 1970 := by
      change (if (instantOf ts).isSome then (2024 : Int) else 1970) = 1970
      rw [hi]
      rfl
    have hle := h.1
    rw [hyear] at hle
    exact absurd hle (by decide)
  | some i =>
    have hfound : decide (instant i = ts) = true :=
      List.find?_some (p := fun i => decide (instant i = ts)) hi
    exact ⟨i, (of_decide_eq_true hfound).symm⟩

theorem sampleLibs_documented : sampleLibs.Documented where
  read := by
    intro ts h
    obtain ⟨i, rfl⟩ := exists_instant h
    revert i
    decide +kernel
  order := by
    intro ts ts' h h' hlt
    obtain ⟨i, rfl⟩ := exists_instant h
    obtain ⟨j, rfl⟩ := exists_instant h'
    revert i j
    decide +kernel

def sampleAlert : IdsAlert :=
  .new 1 (instant 3) "ET SCAN" 2 (.v4 0xC0000201) (.v4 0xC6336401) "tcp" .alert .etOpen

def sampleOps : List AlertOp :=
  [.emit sampleAlert (instant 3) (instant 3), .classify 1 .confirmed (some "seen")]

theorem sampleAlert_admitted :
    (start 12000 0).Admitted sampleLibs sampleAlert (instant 3) (instant 3) where
  fresh := fun _ h => nomatch h
  newest := fun _ h => nomatch h
  instants := by decide +kernel
  kept := rfl
  json := fun _ h => nomatch h

def laterAlert : IdsAlert :=
  .new 2 (instant 5) "ET MALWARE" 1 (.v4 0xC0000202) (.v4 0xC6336401) "udp" .drop .etOpen

theorem laterAlert_admitted :
    ((start 12000 0).step sampleLibs (.emit sampleAlert (instant 3) (instant 3))).Admitted
      sampleLibs laterAlert (instant 5) (instant 6) where
  fresh := by
    intro a ha
    cases List.mem_singleton.mp ha
    decide
  newest := by
    intro a ha
    cases List.mem_singleton.mp ha
    decide +kernel
  instants := by decide +kernel
  kept := rfl
  json := fun _ h => nomatch h

/-- Two alerts, one of which is classified and the other one acknowledged. -/
def twoAlerts : List AlertOp :=
  [.emit sampleAlert (instant 3) (instant 3), .emit laterAlert (instant 5) (instant 6),
    .classify 1 .confirmed (some "seen"), .acknowledge 2]

theorem same_answers_twoAlerts :
    Along (step sampleLibs) (Admits sampleLibs) (start 12000 0) twoAlerts ∧
      ∀ past, past <+: twoAlerts → ∀ filter : AlertFilter, filter.SpeltAsStored →
        (past.foldl (step sampleLibs) (start 12000 0)).SameAnswers sampleLibs filter := by
  have hops : Along (step sampleLibs) (Admits sampleLibs) (start 12000 0) twoAlerts :=
    ⟨sampleAlert_admitted, laterAlert_admitted, trivial, trivial, trivial⟩
  refine ⟨hops, ?_⟩
  apply (same_answers_iff sampleLibs sampleLibs_documented 12000 0 twoAlerts hops).1.mpr
  refine ⟨⟨rfl, rfl, rfl⟩, ⟨rfl, rfl, rfl⟩, ?_, trivial, trivial⟩
  intro a ha hid
  obtain rfl | ha := List.mem_cons.mp ha
  · exact ⟨by decide, fun _ => rfl⟩
  · cases List.mem_singleton.mp ha
    cases hid

/-- The alert is classified again, without notes: the buffer keeps the ones it has, the table does
not. -/
def reclassified : List AlertOp := sampleOps ++ [.classify 1 .falsePositive none]

theorem reclassified_differ :
    Along (step sampleLibs) (Admits sampleLibs) (start 12000 0) reclassified ∧
      ¬∀ past, past <+: reclassified → ∀ filter : AlertFilter, filter.SpeltAsStored →
        (past.foldl (step sampleLibs) (start 12000 0)).SameAnswers sampleLibs filter := by
  have hops : Along (step sampleLibs) (Admits sampleLibs) (start 12000 0) reclassified :=
    ⟨sampleAlert_admitted, trivial, trivial, trivial⟩
  refine ⟨hops, ?_⟩
  intro hsame
  obtain ⟨-, -, hcareful, -⟩ :=
    ((agree_start sampleLibs 12000 0).same_iff sampleLibs_documented hops).mp hsame
  have hnotes := (hcareful _ List.mem_cons_self rfl).2 rfl
  cases hnotes

end AlertStores

end AiFw.Ids
