import AiFw.Lib.Table
import AiFw.Lib.Views
import AiFw.Wan.Policy
import Mathlib.Data.List.Nodup

namespace AiFw.Backup
open AiFw.Lib
open AiFw.Wan (Uuid displayUuid)
set_option autoImplicit true

structure IdsRuleRow where
  id : List Char
  enabled : Bool
  actionOverride : Option (List Char)
deriving DecidableEq

structure IdsSuppressionRow where
  id : List Char
  sid : Int
  suppressType : List Char
  ipCidr : Option (List Char)
  createdAt : List Char
deriving DecidableEq

/-- The tables `ids_rules` and `ids_suppressions`, in the order of their row numbers. -/
structure IdsTables where
  rules : List IdsRuleRow
  suppressions : List IdsSuppressionRow
deriving DecidableEq

inductive SuppressType where
  | src
  | dst
  | both
deriving DecidableEq

def SuppressType.display : SuppressType → List Char
  | .src => "src".toList
  | .dst => "dst".toList
  | .both => "both".toList

def SuppressType.fromStr (s : List Char) : Option SuppressType :=
  if s = "src".toList then some .src
  else if s = "dst".toList then some .dst
  else if s = "both".toList then some .both
  else none

structure UpdateRuleRequest where
  enabled : Option Bool
  actionOverride : Option (List Char)

structure CreateSuppressionRequest where
  sid : UInt32
  suppressType : List Char
  ipCidr : Option (List Char)

structure IdsRuleOverride where
  id : List Char
  enabled : Bool
  actionOverride : Option (List Char)
deriving DecidableEq

structure IdsSuppressionRecord where
  id : List Char
  sid : Int
  suppressType : List Char
  ipCidr : Option (List Char)
deriving DecidableEq

structure ClusterSnapshotPayload (Config : Type) where
  firewall : Config
  idsRuleOverrides : List IdsRuleOverride
  idsSuppressions : List IdsSuppressionRecord
deriving DecidableEq

/-- The row has the values a rule is stored with when nobody has changed it. -/
def IdsRuleRow.Default (r : IdsRuleRow) : Prop := r.enabled = true ∧ r.actionOverride = none

instance (r : IdsRuleRow) : Decidable r.Default := inferInstanceAs (Decidable (_ ∧ _))

def IdsRuleRow.record (r : IdsRuleRow) : IdsRuleOverride := ⟨r.id, r.enabled, r.actionOverride⟩

def IdsSuppressionRow.record (r : IdsSuppressionRow) : IdsSuppressionRecord :=
  ⟨r.id, r.sid, r.suppressType, r.ipCidr⟩

def IdsSuppressionRecord.row (now : List Char) (s : IdsSuppressionRecord) : IdsSuppressionRow :=
  ⟨s.id, s.sid, s.suppressType, s.ipCidr, now⟩

/-- `UPDATE ids_rules SET enabled, action_override WHERE id`, on one row. -/
def IdsRuleOverride.set (ov : IdsRuleOverride) (row : IdsRuleRow) : IdsRuleRow :=
  if row.id = ov.id then { row with enabled := ov.enabled, actionOverride := ov.actionOverride }
  else row

/-- `INSERT OR IGNORE INTO ids_suppressions`. -/
def insertOrIgnore (rows : List IdsSuppressionRow) (row : IdsSuppressionRow) :
    List IdsSuppressionRow :=
  if hasKey IdsSuppressionRow.id row.id rows then rows else rows ++ [row]

namespace IdsTables
variable (t : IdsTables)

def setRuleEnabled (id : List Char) (enabled : Bool) : IdsTables :=
  { t with rules := t.rules.map fun r => if r.id = id then { r with enabled } else r }

def toggleRule (ruleId : Uuid) (enabled : Bool) : IdsTables :=
  t.setRuleEnabled (displayUuid ruleId) enabled

def overrideRuleAction (ruleId : Uuid) (action : Option (List Char)) : IdsTables :=
  { t with
      rules := t.rules.map fun r =>
        if r.id = displayUuid ruleId then { r with actionOverride := action } else r }

def updateRule (id : Uuid) (req : UpdateRuleRequest) : IdsTables :=
  let toggled := match req.enabled with
    | some enabled => t.toggleRule id enabled
    | none => t
  match req.actionOverride with
  | some action => toggled.overrideRuleAction id (if action = [] then none else some action)
  | none => toggled

/-- No row is added for a type that is not one of the three, nor under an id that is taken. -/
def createSuppression (id : Uuid) (now : List Char) (req : CreateSuppressionRequest) :
    Option IdsTables := do
  let suppressType ← SuppressType.fromStr req.suppressType
  if hasKey IdsSuppressionRow.id (displayUuid id) t.suppressions then none
  else
    let row : IdsSuppressionRow :=
      ⟨displayUuid id, req.sid.toNat, suppressType.display, req.ipCidr, now⟩
    some { t with suppressions := t.suppressions ++ [row] }

def deleteSuppression (id : List Char) : IdsTables :=
  { t with suppressions := dropKey IdsSuppressionRow.id id t.suppressions }

/-- The rows of `cluster_export_payload`'s first query. -/
def ruleOverrides : List IdsRuleOverride :=
  (t.rules.filter fun r => !decide r.Default).map IdsRuleRow.record

def suppressionRecords : List IdsSuppressionRecord := t.suppressions.map IdsSuppressionRow.record

/-- What `apply_cluster_snapshot` does with the IDS sections of a payload. -/
def sync (now : List Char) (overrides : List IdsRuleOverride)
    (suppressions : List IdsSuppressionRecord) : IdsTables where
  rules := overrides.foldl (fun rows ov => rows.map ov.set) t.rules
  suppressions := suppressions.foldl (fun rows s => insertOrIgnore rows (s.row now)) []

end IdsTables

/-- An edit of the tables, or a snapshot that was applied to them. -/
inductive IdsEdit where
  | setRule (id : List Char) (enabled : Bool)
  | updateRule (id : Uuid) (req : UpdateRuleRequest)
  | createSuppression (id : Uuid) (now : List Char) (req : CreateSuppressionRequest)
  | deleteSuppression (id : List Char)
  | snapshot (now : List Char) (overrides : List IdsRuleOverride)
      (suppressions : List IdsSuppressionRecord)

def IdsTables.step (t : IdsTables) : IdsEdit → IdsTables
  | .setRule id enabled => t.setRuleEnabled id enabled
  | .updateRule id req => t.updateRule id req
  | .createSuppression id now req => (t.createSuppression id now req).getD t
  | .deleteSuppression id => t.deleteSuppression id
  | .snapshot now overrides suppressions => t.sync now overrides suppressions

/-- The ids are primary keys. -/
structure IdsTables.Sound (t : IdsTables) : Prop where
  rules : (t.rules.map IdsRuleRow.id).Nodup
  suppressions : (t.suppressions.map IdsSuppressionRow.id).Nodup

theorem IdsRuleOverride.set_id (ov : IdsRuleOverride) (row : IdsRuleRow) :
    (ov.set row).id = row.id := by
  unfold set
  split <;> rfl

/-- Updates of whole tables, one after the other, update every row so. -/
theorem foldl_set_id (ovs : List IdsRuleOverride) (row : IdsRuleRow) :
    (ovs.foldl (fun r ov => ov.set r) row).id = row.id := by
  induction ovs generalizing row with
  | nil => rfl
  | cons ov ovs ih => rw [List.foldl_cons, ih, ov.set_id]

theorem foldl_set_of_absent {ovs : List IdsRuleOverride} {row : IdsRuleRow}
    (h : ∀ ov ∈ ovs, row.id ≠ ov.id) : ovs.foldl (fun r ov => ov.set r) row = row := by
  induction ovs with
  | nil => rfl
  | cons ov ovs ih =>
    rw [List.foldl_cons, IdsRuleOverride.set, if_neg (h ov List.mem_cons_self)]
    exact ih fun o ho => h o (List.mem_cons_of_mem ov ho)

theorem foldl_set_of_mem {ovs : List IdsRuleOverride} (hids : (ovs.map IdsRuleOverride.id).Nodup)
    {row : IdsRuleRow} {ov : IdsRuleOverride} (hov : ov ∈ ovs) (hid : row.id = ov.id) :
    ovs.foldl (fun r ov => ov.set r) row = ⟨row.id, ov.enabled, ov.actionOverride⟩ := by
  induction ovs with
  | nil => cases hov
  | cons o ovs ih =>
    rw [List.map_cons, List.nodup_cons] at hids
    have hrest : ∀ o' ∈ ovs, o'.id ≠ o.id := fun o' ho' he =>
      hids.1 (he ▸ List.mem_map_of_mem ho')
    rw [List.foldl_cons]
    obtain rfl | hov := List.mem_cons.mp hov
    · have hset : ov.set row = ⟨row.id, ov.enabled, ov.actionOverride⟩ := if_pos hid
      rw [hset]
      exact foldl_set_of_absent fun o' ho' he => hrest o' ho' (he.symm.trans hid)
    · rw [IdsRuleOverride.set, if_neg fun he => hrest ov hov (hid.symm.trans he)]
      exact ih hids.2 hov

theorem insertOrIgnore_of_fresh {rows : List IdsSuppressionRow} {row : IdsSuppressionRow}
    (h : row.id ∉ rows.map IdsSuppressionRow.id) : insertOrIgnore rows row = rows ++ [row] := by
  have hfree : hasKey IdsSuppressionRow.id row.id rows = false :=
    hasKey_eq_false.mpr fun r hr he => h (he ▸ List.mem_map_of_mem hr)
  rw [insertOrIgnore, hfree, if_neg Bool.false_ne_true]

theorem nodup_insertOrIgnore {rows : List IdsSuppressionRow}
    (h : (rows.map IdsSuppressionRow.id).Nodup) (row : IdsSuppressionRow) :
    ((insertOrIgnore rows row).map IdsSuppressionRow.id).Nodup := by
  cases hkey : hasKey IdsSuppressionRow.id row.id rows with
  | true => rwa [insertOrIgnore, hkey, if_pos rfl]
  | false =>
    have hnew := hasKey_eq_false.mp hkey
    rw [insertOrIgnore, hkey, if_neg Bool.false_ne_true, List.map_append, List.map_singleton]
    apply h.append (List.nodup_singleton _)
    rw [List.disjoint_singleton]
    intro hmem
    obtain ⟨r, hr, he⟩ := List.mem_map.mp hmem
    exact hnew r hr he

/-- Rows under ids that are all new are all inserted. -/
theorem foldl_insertOrIgnore (now : List Char) (l : List IdsSuppressionRecord)
    {rows : List IdsSuppressionRow}
    (h : (rows.map IdsSuppressionRow.id ++ l.map IdsSuppressionRecord.id).Nodup) :
    l.foldl (fun rows s => insertOrIgnore rows (s.row now)) rows =
      rows ++ l.map (·.row now) := by
  induction l generalizing rows with
  | nil => exact (List.append_nil rows).symm
  | cons s l ih =>
    have hfresh : (s.row now).id ∉ rows.map IdsSuppressionRow.id := fun hmem =>
      (List.nodup_append'.mp h).2.2 hmem List.mem_cons_self
    rw [List.foldl_cons, insertOrIgnore_of_fresh hfresh, ih, List.append_assoc]
    · rfl
    · rw [List.map_append, List.append_assoc]
      exact h

namespace IdsTables
variable {t m s : IdsTables}

theorem setRuleEnabled_ids (t : IdsTables) (id : List Char) (enabled : Bool) :
    (t.setRuleEnabled id enabled).rules.map IdsRuleRow.id = t.rules.map IdsRuleRow.id := by
  rw [setRuleEnabled, List.map_map]
  apply List.map_congr_left
  intro r _
  rw [Function.comp_apply]
  split <;> rfl

theorem overrideRuleAction_ids (t : IdsTables) (id : Uuid) (action : Option (List Char)) :
    (t.overrideRuleAction id action).rules.map IdsRuleRow.id = t.rules.map IdsRuleRow.id := by
  rw [overrideRuleAction, List.map_map]
  apply List.map_congr_left
  intro r _
  rw [Function.comp_apply]
  split <;> rfl

theorem updateRule_ids (t : IdsTables) (id : Uuid) (req : UpdateRuleRequest) :
    (t.updateRule id req).rules.map IdsRuleRow.id = t.rules.map IdsRuleRow.id := by
  have htoggled : (match req.enabled with
      | some enabled => t.toggleRule id enabled
      | none => t).rules.map IdsRuleRow.id = t.rules.map IdsRuleRow.id := by
    cases req.enabled with
    | none => rfl
    | some enabled => exact setRuleEnabled_ids t _ enabled
  unfold updateRule
  cases req.actionOverride with
  | none => exact htoggled
  | some action => exact (overrideRuleAction_ids _ id _).trans htoggled

theorem updateRule_suppressions (t : IdsTables) (id : Uuid) (req : UpdateRuleRequest) :
    (t.updateRule id req).suppressions = t.suppressions := by
  cases henabled : req.enabled <;> cases haction : req.actionOverride <;>
    simp only [updateRule, henabled, haction, toggleRule, setRuleEnabled, overrideRuleAction]

theorem sync_rules (t : IdsTables) (now : List Char) (overrides : List IdsRuleOverride)
    (suppressions : List IdsSuppressionRecord) :
    (t.sync now overrides suppressions).rules =
      t.rules.map fun r => overrides.foldl (fun r ov => ov.set r) r :=
  foldl_map_rows IdsRuleOverride.set overrides t.rules

theorem sync_ids (t : IdsTables) (now : List Char) (overrides : List IdsRuleOverride)
    (suppressions : List IdsSuppressionRecord) :
    (t.sync now overrides suppressions).rules.map IdsRuleRow.id = t.rules.map IdsRuleRow.id := by
  rw [sync_rules, List.map_map]
  apply List.map_congr_left
  intro r _
  exact foldl_set_id overrides r

/-- No edit adds a rule or takes one away. -/
theorem step_ids (t : IdsTables) (e : IdsEdit) :
    (t.step e).rules.map IdsRuleRow.id = t.rules.map IdsRuleRow.id := by
  cases e with
  | setRule id enabled => exact setRuleEnabled_ids t id enabled
  | updateRule id req => exact updateRule_ids t id req
  | createSuppression id now req =>
    simp only [step, createSuppression, Option.bind_eq_bind]
    cases SuppressType.fromStr req.suppressType with
    | none => rfl
    | some suppressType =>
      rw [Option.bind_some]
      split <;> rfl
  | deleteSuppression id => rfl
  | snapshot now overrides suppressions => exact sync_ids t now overrides suppressions

theorem run_ids (t : IdsTables) (es : List IdsEdit) :
    (es.foldl step t).rules.map IdsRuleRow.id = t.rules.map IdsRuleRow.id := by
  induction es generalizing t with
  | nil => rfl
  | cons e es ih => exact (ih (t.step e)).trans (step_ids t e)

theorem Sound.createSuppression (h : t.Sound) (id : Uuid) (now : List Char)
    (req : CreateSuppressionRequest) : ((t.createSuppression id now req).getD t).Sound := by
  unfold IdsTables.createSuppression
  cases SuppressType.fromStr req.suppressType with
  | none => exact h
  | some suppressType =>
    rw [Option.bind_eq_bind, Option.bind_some]
    have hadd := nodup_insertOrIgnore h.suppressions
      ⟨displayUuid id, req.sid.toNat, suppressType.display, req.ipCidr, now⟩
    unfold insertOrIgnore at hadd
    split
    · exact h
    · next hfree =>
      rw [if_neg hfree] at hadd
      exact ⟨h.rules, hadd⟩

theorem Sound.sync (h : t.Sound) (now : List Char) (overrides : List IdsRuleOverride)
    (suppressions : List IdsSuppressionRecord) : (t.sync now overrides suppressions).Sound := by
  refine ⟨?_, ?_⟩
  · rw [sync_ids]
    exact h.rules
  · have hall : ∀ rows : List IdsSuppressionRow, (rows.map IdsSuppressionRow.id).Nodup →
        ((suppressions.foldl (fun rows s => insertOrIgnore rows (s.row now)) rows).map
          IdsSuppressionRow.id).Nodup := by
      induction suppressions with
      | nil => exact fun rows hrows => hrows
      | cons s l ih => exact fun rows hrows => ih _ (nodup_insertOrIgnore hrows (s.row now))
    exact hall [] List.nodup_nil

theorem Sound.step (h : t.Sound) (e : IdsEdit) : (t.step e).Sound := by
  cases e with
  | setRule id enabled => exact ⟨(step_ids t (.setRule id enabled)).symm ▸ h.rules, h.suppressions⟩
  | updateRule id req =>
    refine ⟨(step_ids t (.updateRule id req)).symm ▸ h.rules, ?_⟩
    rw [IdsTables.step, updateRule_suppressions]
    exact h.suppressions
  | createSuppression id now req => exact h.createSuppression id now req
  | deleteSuppression id =>
    exact ⟨h.rules, h.suppressions.sublist (List.filter_sublist.map IdsSuppressionRow.id)⟩
  | snapshot now overrides suppressions => exact h.sync now overrides suppressions

theorem Sound.run (h : t.Sound) (es : List IdsEdit) : (es.foldl IdsTables.step t).Sound := by
  induction es generalizing t with
  | nil => exact h
  | cons e es ih => exact ih (h.step e)

/-- Every rule has the values of the master's rule with its id. -/
def Agrees (t m : IdsTables) : Prop :=
  ∀ row ∈ t.rules, ∀ row' ∈ m.rules, row.id = row'.id →
    row.enabled = row'.enabled ∧ row.actionOverride = row'.actionOverride

instance (t m : IdsTables) : Decidable (t.Agrees m) :=
  inferInstanceAs (Decidable (∀ row ∈ t.rules, ∀ row' ∈ m.rules, _ → _))

/-- The two export the same IDS sections. -/
def SameSections (t m : IdsTables) : Prop :=
  t.ruleOverrides = m.ruleOverrides ∧ t.suppressionRecords = m.suppressionRecords

instance (t m : IdsTables) : Decidable (t.SameSections m) := inferInstanceAs (Decidable (_ ∧ _))

/-- A rule nothing is exported about is as it was stored on the standby too. -/
def DefaultsAgree (m s : IdsTables) : Prop :=
  ∀ row' ∈ m.rules, row'.Default → ∀ row ∈ s.rules, row.id = row'.id → row.Default

instance (m s : IdsTables) : Decidable (DefaultsAgree m s) :=
  inferInstanceAs (Decidable (∀ row' ∈ m.rules, row'.Default → ∀ row ∈ s.rules, _ → _))

/-- The rules an override is exported for stand in the same order on the standby. -/
def SameOrder (m s : IdsTables) : Prop :=
  (s.rules.map IdsRuleRow.id).filter (fun id => (m.ruleOverrides.map IdsRuleOverride.id).contains id)
    = m.ruleOverrides.map IdsRuleOverride.id

theorem ruleOverrides_ids (m : IdsTables) :
    m.ruleOverrides.map IdsRuleOverride.id =
      (m.rules.filter fun r => !decide r.Default).map IdsRuleRow.id := by
  rw [ruleOverrides, List.map_map]
  rfl

theorem Sound.nodup_overrides (h : m.Sound) : (m.ruleOverrides.map IdsRuleOverride.id).Nodup := by
  rw [ruleOverrides_ids]
  exact h.rules.sublist (List.filter_sublist.map IdsRuleRow.id)

theorem Sound.rule_unique (h : m.Sound) {row row' : IdsRuleRow} (hrow : row ∈ m.rules)
    (hrow' : row' ∈ m.rules) (hid : row.id = row'.id) : row = row' :=
  List.inj_on_of_nodup_map h.rules hrow hrow' hid

theorem mem_ruleOverrides {ov : IdsRuleOverride} :
    ov ∈ m.ruleOverrides ↔ ∃ row ∈ m.rules, ¬row.Default ∧ row.record = ov := by
  simp only [ruleOverrides, List.mem_map, List.mem_filter, Bool.not_eq_true',
    decide_eq_false_iff_not, and_assoc]

/-- A rule takes the values of a master's rule that is not as it was stored. -/
theorem Sound.sync_changed (hm : m.Sound) {row row' : IdsRuleRow} (hrow' : row' ∈ m.rules)
    (hchanged : ¬row'.Default) (hid : row.id = row'.id) :
    m.ruleOverrides.foldl (fun r ov => ov.set r) row = row' := by
  have hov := mem_ruleOverrides.mpr ⟨row', hrow', hchanged, rfl⟩
  rw [foldl_set_of_mem hm.nodup_overrides hov hid, hid]
  rfl

/-- Nothing is exported about a rule that is as it was stored. -/
theorem Sound.sync_default (hm : m.Sound) {row row' : IdsRuleRow} (hrow' : row' ∈ m.rules)
    (hdefault : row'.Default) (hid : row.id = row'.id) :
    m.ruleOverrides.foldl (fun r ov => ov.set r) row = row := by
  apply foldl_set_of_absent
  intro ov hov he
  obtain ⟨other, hother, hchanged, rfl⟩ := mem_ruleOverrides.mp hov
  have hsame := hm.rule_unique hother hrow' (he.symm.trans hid)
  exact hchanged (hsame ▸ hdefault)

theorem Sound.agrees_iff (hm : m.Sound) (now : List Char)
    (suppressions : List IdsSuppressionRecord) :
    (s.sync now m.ruleOverrides suppressions).Agrees m ↔ DefaultsAgree m s := by
  constructor
  · intro h row' hrow' hdefault row hrow hid
    have hsynced := hm.sync_default hrow' hdefault hid
    have hmem : row ∈ (s.sync now m.ruleOverrides suppressions).rules := by
      rw [sync_rules]
      exact List.mem_map.mpr ⟨row, hrow, hsynced⟩
    obtain ⟨henabled, haction⟩ := h row hmem row' hrow' hid
    exact ⟨henabled.trans hdefault.1, haction.trans hdefault.2⟩
  · intro h row hrow row' hrow' hid
    rw [sync_rules] at hrow
    obtain ⟨old, hold, rfl⟩ := List.mem_map.mp hrow
    rw [foldl_set_id] at hid
    by_cases hdefault : row'.Default
    · rw [hm.sync_default hrow' hdefault hid]
      have hold := h row' hrow' hdefault old hold hid
      exact ⟨hold.1.trans hdefault.1.symm, hold.2.trans hdefault.2.symm⟩
    · rw [hm.sync_changed hrow' hdefault hid]
      exact ⟨rfl, rfl⟩

theorem DefaultsAgree.changed_iff (h : DefaultsAgree m s) (hm : m.Sound)
    (hids : ∀ row ∈ s.rules, ∃ row' ∈ m.rules, row.id = row'.id) {row : IdsRuleRow}
    (hrow : row ∈ s.rules) :
    ¬(m.ruleOverrides.foldl (fun r ov => ov.set r) row).Default ↔
      row.id ∈ m.ruleOverrides.map IdsRuleOverride.id := by
  obtain ⟨row', hrow', hid⟩ := hids row hrow
  by_cases hdefault : row'.Default
  · rw [hm.sync_default hrow' hdefault hid]
    have hsame := h row' hrow' hdefault row hrow hid
    apply iff_of_false (not_not_intro hsame)
    intro hmem
    obtain ⟨ov, hov, he⟩ := List.mem_map.mp hmem
    obtain ⟨other, hother, hchanged, rfl⟩ := mem_ruleOverrides.mp hov
    have hother := hm.rule_unique hother hrow' (he.trans hid)
    exact hchanged (hother ▸ hdefault)
  · rw [hm.sync_changed hrow' hdefault hid]
    have hov := mem_ruleOverrides.mpr ⟨row', hrow', hdefault, rfl⟩
    exact iff_of_true hdefault (List.mem_map.mpr ⟨row'.record, hov, hid.symm⟩)

/-- The ids the standby exports overrides for, in its order. -/
theorem DefaultsAgree.synced_ids (h : DefaultsAgree m s) (hm : m.Sound)
    (hids : ∀ row ∈ s.rules, ∃ row' ∈ m.rules, row.id = row'.id) (now : List Char)
    (suppressions : List IdsSuppressionRecord) :
    (s.sync now m.ruleOverrides suppressions).ruleOverrides.map IdsRuleOverride.id =
      (s.rules.map IdsRuleRow.id).filter fun id =>
        (m.ruleOverrides.map IdsRuleOverride.id).contains id := by
  rw [ruleOverrides_ids, sync_rules, List.filter_map, List.filter_map, List.map_map]
  have hpick : s.rules.filter ((fun r : IdsRuleRow => !decide r.Default) ∘
        fun r => m.ruleOverrides.foldl (fun r ov => ov.set r) r) =
      s.rules.filter ((fun id => (m.ruleOverrides.map IdsRuleOverride.id).contains id) ∘
        IdsRuleRow.id) := by
    apply List.filter_congr
    intro row hrow
    have hchanged := h.changed_iff hm hids hrow
    rw [Bool.eq_iff_iff, Function.comp_apply, Function.comp_apply, Bool.not_eq_true',
      decide_eq_false_iff_not, List.contains_iff_mem]
    exact hchanged
  rw [hpick]
  apply List.map_congr_left
  intro row _
  exact foldl_set_id m.ruleOverrides row

/-- An override the standby exports for a rule that had to change is the master's. -/
theorem DefaultsAgree.mem_synced (h : DefaultsAgree m s) (hm : m.Sound)
    (hids : ∀ row ∈ s.rules, ∃ row' ∈ m.rules, row.id = row'.id) {now : List Char}
    {suppressions : List IdsSuppressionRecord} {ov : IdsRuleOverride}
    (hov : ov ∈ (s.sync now m.ruleOverrides suppressions).ruleOverrides) :
    ov ∈ m.ruleOverrides := by
  obtain ⟨row, hrow, hchanged, rfl⟩ := mem_ruleOverrides.mp hov
  rw [sync_rules] at hrow
  obtain ⟨old, hold, rfl⟩ := List.mem_map.mp hrow
  obtain ⟨row', hrow', hid⟩ := hids old hold
  by_cases hdefault : row'.Default
  · rw [hm.sync_default hrow' hdefault hid] at hchanged
    exact absurd (h row' hrow' hdefault old hold hid) hchanged
  · rw [hm.sync_changed hrow' hdefault hid]
    exact mem_ruleOverrides.mpr ⟨row', hrow', hdefault, rfl⟩

theorem Sound.same_overrides_iff (hm : m.Sound)
    (hids : ∀ row ∈ s.rules, ∃ row' ∈ m.rules, row.id = row'.id) (now : List Char)
    (suppressions : List IdsSuppressionRecord) :
    (s.sync now m.ruleOverrides suppressions).ruleOverrides = m.ruleOverrides ↔
      DefaultsAgree m s ∧ SameOrder m s := by
  constructor
  · intro hsame
    have hdefaults : DefaultsAgree m s := by
      intro row' hrow' hdefault row hrow hid
      by_contra hchanged
      have hsynced := hm.sync_default hrow' hdefault hid
      have hmem : row ∈ (s.sync now m.ruleOverrides suppressions).rules := by
        rw [sync_rules]
        exact List.mem_map.mpr ⟨row, hrow, hsynced⟩
      have hov := mem_ruleOverrides.mpr ⟨row, hmem, hchanged, rfl⟩
      rw [hsame] at hov
      obtain ⟨other, hother, hoff, he⟩ := mem_ruleOverrides.mp hov
      have hsameId : other.id = row.id := congrArg IdsRuleOverride.id he
      have hother := hm.rule_unique hother hrow' (hsameId.trans hid)
      exact hoff (hother ▸ hdefault)
    refine ⟨hdefaults, ?_⟩
    rw [SameOrder, ← hdefaults.synced_ids hm hids now suppressions, hsame]
  · rintro ⟨hdefaults, horder⟩
    have hsynced := hdefaults.synced_ids hm hids now suppressions
    apply eq_of_map_eq _ (hsynced.trans horder)
    intro ov hov ov' hov' he
    exact List.inj_on_of_nodup_map hm.nodup_overrides (hdefaults.mem_synced hm hids hov) hov' he

/-- The standby has the master's suppressions, all with the time they were taken over. -/
theorem Sound.sync_suppressions (hm : m.Sound) (s : IdsTables) (now : List Char)
    (overrides : List IdsRuleOverride) :
    (s.sync now overrides m.suppressionRecords).suppressions =
      m.suppressions.map fun row => { row with createdAt := now } := by
  have hids : (([] : List IdsSuppressionRow).map IdsSuppressionRow.id ++
      m.suppressionRecords.map IdsSuppressionRecord.id).Nodup := by
    rw [suppressionRecords, List.map_map]
    exact hm.suppressions
  change m.suppressionRecords.foldl (fun rows s => insertOrIgnore rows (s.row now)) [] = _
  rw [foldl_insertOrIgnore now _ hids, List.nil_append, suppressionRecords, List.map_map]
  rfl

theorem Sound.same_records (hm : m.Sound) (s : IdsTables) (now : List Char)
    (overrides : List IdsRuleOverride) :
    (s.sync now overrides m.suppressionRecords).suppressionRecords = m.suppressionRecords := by
  rw [suppressionRecords, hm.sync_suppressions, List.map_map]
  rfl

theorem Sound.same_rows_iff (hm : m.Sound) (s : IdsTables) (now : List Char)
    (overrides : List IdsRuleOverride) :
    (s.sync now overrides m.suppressionRecords).suppressions = m.suppressions ↔
      ∀ row ∈ m.suppressions, row.createdAt = now := by
  rw [hm.sync_suppressions]
  constructor
  · intro h row hrow
    rw [← h] at hrow
    obtain ⟨old, _, rfl⟩ := List.mem_map.mp hrow
    rfl
  · intro h
    calc m.suppressions.map (fun row => { row with createdAt := now })
        = m.suppressions.map id :=
          List.map_congr_left fun row hrow => by rw [← h row hrow, id]
      _ = m.suppressions := List.map_id _

end IdsTables

/-- A node: what the firewall section of a payload is about, and the IDS tables. -/
structure Node (Fw : Type) where
  firewall : Fw
  ids : IdsTables

/-- What the firewall section of a payload goes through on its way from one node to the other.
`applyFirewallConfig` stands for the apply with the keys of the cluster nodes put back. -/
structure FirewallSection (Fw Config : Type) where
  buildCurrentConfig : Fw → Option Config
  validate : Config → Bool
  applyFirewallConfig : Fw → Config → Option Fw
  toJson : ClusterSnapshotPayload Config → List Char
  fromJson : List Char → Option (ClusterSnapshotPayload Config)

namespace Node
variable (lib : FirewallSection Fw Config)

def clusterExportPayload (n : Node Fw) : Option (ClusterSnapshotPayload Config) := do
  let firewall ← lib.buildCurrentConfig n.firewall
  some ⟨firewall, n.ids.ruleOverrides, n.ids.suppressionRecords⟩

def applyClusterSnapshot (now : List Char) (n : Node Fw) (body : List Char) :
    Option (Node Fw) := do
  let payload ← lib.fromJson body
  if lib.validate payload.firewall then
    let firewall ← lib.applyFirewallConfig n.firewall payload.firewall
    some ⟨firewall, n.ids.sync now payload.idsRuleOverrides payload.idsSuppressions⟩
  else none

variable {lib}

theorem clusterExportPayload_sections {n : Node Fw} (h : clusterExportPayload lib n = some payload) :
    payload.idsRuleOverrides = n.ids.ruleOverrides ∧
      payload.idsSuppressions = n.ids.suppressionRecords := by
  obtain ⟨firewall, _, he⟩ := Option.bind_eq_some_iff.mp h
  cases he
  exact ⟨rfl, rfl⟩

theorem applyClusterSnapshot_ids {n n' : Node Fw} {payload : ClusterSnapshotPayload Config}
    (hjson : lib.fromJson (lib.toJson payload) = some payload)
    (h : applyClusterSnapshot lib now n (lib.toJson payload) = some n') :
    n'.ids = n.ids.sync now payload.idsRuleOverrides payload.idsSuppressions := by
  unfold applyClusterSnapshot at h
  rw [hjson, Option.bind_eq_bind, Option.bind_some] at h
  cases hvalid : lib.validate payload.firewall with
  | false =>
    rw [hvalid, if_neg Bool.false_ne_true] at h
    cases h
  | true =>
    rw [hvalid, if_pos rfl] at h
    obtain ⟨firewall, _, he⟩ := Option.bind_eq_some_iff.mp h
    cases he
    rfl

/-- After any edits on two nodes with the same rules, the standby has the master's values once the
master's snapshot is applied if and only if the rules the master has as they were stored are so on
the standby too. -/
theorem replicated_iff {m₀ s₀ : IdsTables} (hm : m₀.Sound)
    (hids : ∀ id, id ∈ m₀.rules.map IdsRuleRow.id ↔ id ∈ s₀.rules.map IdsRuleRow.id)
    (master standby : List IdsEdit) {m s s' : Node Fw} {payload : ClusterSnapshotPayload Config}
    (hmaster : m.ids = master.foldl IdsTables.step m₀)
    (hstandby : s.ids = standby.foldl IdsTables.step s₀)
    (hexport : clusterExportPayload lib m = some payload)
    (hjson : lib.fromJson (lib.toJson payload) = some payload)
    (happly : applyClusterSnapshot lib now s (lib.toJson payload) = some s') :
    (s'.ids.Agrees m.ids ↔ IdsTables.DefaultsAgree m.ids s.ids) ∧
      (s'.ids.SameSections m.ids ↔
        IdsTables.DefaultsAgree m.ids s.ids ∧ IdsTables.SameOrder m.ids s.ids) ∧
      s'.ids.suppressionRecords = m.ids.suppressionRecords ∧
      (s'.ids.suppressions = m.ids.suppressions ↔
        ∀ row ∈ m.ids.suppressions, row.createdAt = now) := by
  have hsoundM : m.ids.Sound := hmaster ▸ hm.run master
  have hrules : ∀ row ∈ s.ids.rules, ∃ row' ∈ m.ids.rules, row.id = row'.id := by
    intro row hrow
    have hmem : row.id ∈ s.ids.rules.map IdsRuleRow.id := List.mem_map_of_mem hrow
    rw [hstandby, IdsTables.run_ids, ← hids, ← IdsTables.run_ids m₀ master, ← hmaster] at hmem
    obtain ⟨row', hrow', he⟩ := List.mem_map.mp hmem
    exact ⟨row', hrow', he.symm⟩
  obtain ⟨hoverrides, hsuppressions⟩ := clusterExportPayload_sections hexport
  have hids' := applyClusterSnapshot_ids hjson happly
  rw [hoverrides, hsuppressions] at hids'
  rw [hids']
  have hrecords := hsoundM.same_records s.ids now m.ids.ruleOverrides
  refine ⟨hsoundM.agrees_iff now _, ?_, hrecords, hsoundM.same_rows_iff s.ids now _⟩
  rw [IdsTables.SameSections, and_iff_left hrecords]
  exact hsoundM.same_overrides_iff hrules now _

/-- The body of a snapshot without IDS records. -/
def sampleBody : List Char :=
  "\x7b\"firewall\":\x7b\x7d,\"ids_rule_overrides\":[],\"ids_suppressions\":[]\x7d".toList

def samplePayload : ClusterSnapshotPayload (List Char) := ⟨"\x7b\x7d".toList, [], []⟩

/-- A firewall section that is always the same, on nodes that write and read one text. -/
def sectionOf (body : List Char) (payload : ClusterSnapshotPayload (List Char)) :
    FirewallSection Unit (List Char) where
  buildCurrentConfig _ := some "\x7b\x7d".toList
  validate _ := true
  applyFirewallConfig _ _ := some ()
  toJson _ := body
  fromJson text := if text = body then some payload else none

theorem sectionOf_read (body : List Char) (payload : ClusterSnapshotPayload (List Char)) :
    (sectionOf body payload).fromJson body = some payload := if_pos rfl

theorem sectionOf_applied (body : List Char) (payload : ClusterSnapshotPayload (List Char))
    (now : List Char) (ids : IdsTables) :
    applyClusterSnapshot (sectionOf body payload) now ⟨(), ids⟩ body =
      some ⟨(), ids.sync now payload.idsRuleOverrides payload.idsSuppressions⟩ := by
  rw [applyClusterSnapshot, sectionOf_read]
  rfl

def sampleSection : FirewallSection Unit (List Char) := sectionOf sampleBody samplePayload

def sampleRules : IdsTables := ⟨[⟨displayUuid 7, true, none⟩], []⟩

def switchedOff : IdsEdit := .updateRule 7 ⟨some false, none⟩

def switchedOn : IdsEdit := .updateRule 7 ⟨some true, none⟩

def sampleNow : List Char := "2026-01-01 00:00:00".toList

def droppedRules : IdsTables :=
  ⟨[⟨displayUuid 7, true, none⟩, ⟨displayUuid 8, true, none⟩], []⟩

/-- A rule of two is made to drop and switched off, and one source is left alone. -/
def droppedEdits : List IdsEdit :=
  [.updateRule 7 ⟨none, some "drop".toList⟩, switchedOff,
    .createSuppression 1 sampleNow ⟨2001, "src".toList, some "10.0.0.5".toList⟩]

def droppedMaster : Node Unit := ⟨(), droppedEdits.foldl IdsTables.step droppedRules⟩

def droppedPayload : ClusterSnapshotPayload (List Char) where
  firewall := "\x7b\x7d".toList
  idsRuleOverrides := [⟨displayUuid 7, false, some "drop".toList⟩]
  idsSuppressions := [⟨displayUuid 1, 2001, "src".toList, some "10.0.0.5".toList⟩]

def droppedBody : List Char :=
  "\x7b\"firewall\":\x7b\x7d,\"ids_rule_overrides\":[\x7b\"id\":\"".toList ++ displayUuid 7 ++
    "\",\"enabled\":false,\"action_override\":\"drop\"\x7d],".toList ++
    "\"ids_suppressions\":[\x7b\"id\":\"".toList ++ displayUuid 1 ++
    "\",\"sid\":2001,\"suppress_type\":\"src\",\"ip_cidr\":\"10.0.0.5\"\x7d]\x7d".toList

/-- The override and the suppression reach a standby that has not seen them. -/
theorem replicated_dropped :
    clusterExportPayload (sectionOf droppedBody droppedPayload) droppedMaster =
        some droppedPayload ∧
      ∃ s', applyClusterSnapshot (sectionOf droppedBody droppedPayload) sampleNow
          ⟨(), droppedRules⟩ droppedBody = some s' ∧
        s'.ids.Agrees droppedMaster.ids ∧ s'.ids.SameSections droppedMaster.ids ∧
        s'.ids.suppressionRecords = droppedMaster.ids.suppressionRecords := by
  have hsound : droppedRules.Sound := ⟨by decide +kernel, List.nodup_nil⟩
  have hexport : clusterExportPayload (sectionOf droppedBody droppedPayload) droppedMaster =
      some droppedPayload := by decide +kernel
  obtain ⟨hagrees, hsections, hrecords, -⟩ := replicated_iff hsound (fun _ => Iff.rfl)
    droppedEdits [] rfl rfl hexport (sectionOf_read _ _) (sectionOf_applied _ _ sampleNow _)
  refine ⟨hexport, _, sectionOf_applied _ _ _ _, hagrees.mpr ?_, hsections.mpr ?_, hrecords⟩
  · decide +kernel
  · constructor
    · decide +kernel
    · unfold IdsTables.SameOrder
      decide +kernel

/-- A rule that is switched on again on the master stays switched off on the standby, to which it
was replicated in between. -/
theorem reenabled_rule_stays_off :
    let off := sampleRules.step switchedOff
    let m : Node Unit := ⟨(), [switchedOff, switchedOn].foldl IdsTables.step sampleRules⟩
    let s : Node Unit :=
      ⟨(), [.snapshot sampleNow off.ruleOverrides off.suppressionRecords].foldl IdsTables.step
        sampleRules⟩
    clusterExportPayload sampleSection m = some samplePayload ∧
      ∃ s', applyClusterSnapshot sampleSection sampleNow s (sampleSection.toJson samplePayload) =
          some s' ∧
        ¬s'.ids.Agrees m.ids ∧ ¬s'.ids.SameSections m.ids := by
  refine ⟨by decide +kernel, _, sectionOf_applied _ _ _ _, ?_, ?_⟩
  · decide +kernel
  · decide +kernel

end Node

end AiFw.Backup
