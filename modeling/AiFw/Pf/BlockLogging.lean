import AiFw.Lib.Text
import AiFw.Pf.Anchor

namespace AiFw.Pf
open AiFw.Lib
set_option autoImplicit true

/-- The spelling of an action in its column. -/
def Action.asDbStr : Action → String
  | .pass => "pass"
  | .block => "block"
  | .blockDrop => "block_drop"
  | .blockReturn => "block_return"

/-- The spellings the handler looks for. -/
def toggledActions : List String := ["block", "blockdrop", "block_return", "blockreturn"]

def Rule.setBlockLog (enabled : Bool) (rule : Rule) : Rule :=
  if rule.action.asDbStr ∈ toggledActions then { rule with log := enabled } else rule

/-- The stored rules after the update, in the order they are listed in, and the lines the handler
hands to `load_rules`. -/
def toggleBlockLogging (enabled : Bool) (rules : List Rule) : List Rule × List (List Char) :=
  let rules := rules.map (Rule.setBlockLog enabled)
  (rules, rules.map fun r => r.toPfRuleRouted none)

def Action.isBlock : Action → Bool
  | .pass => false
  | _ => true

/-- The handler loads what `apply_rules` would, and sets the flag of every block rule. -/
structure TogglesFaithfully (enabled : Bool) (rules : List Rule) (schedules : Schedules)
    (gateways : GatewayRoutes) (now : LocalTime) : Prop where
  loaded : (toggleBlockLogging enabled rules).2 =
    anchorRules (toggleBlockLogging enabled rules).1 schedules gateways now []
  logged : ∀ r ∈ (toggleBlockLogging enabled rules).1, r.action.isBlock = true → r.log = enabled

/-- The rule is loaded and unrouted, and if it drops, the flag is the requested one already. -/
structure Rule.Unaffected (rule : Rule) (enabled : Bool) (schedules : Schedules)
    (gateways : GatewayRoutes) (now : LocalTime) : Prop where
  active : rule.status = .active
  inWindow : rule.inSchedule schedules now = true
  unrouted : rule.action = .pass → resolveRuleRoute rule gateways = none
  drop : rule.action = .blockDrop → rule.log = enabled

section
variable {rule : Rule} {enabled : Bool}

/-- Only the flag can change. -/
theorem Rule.setBlockLog_eq (rule : Rule) (enabled : Bool) :
    ∃ log, rule.setBlockLog enabled = { rule with log } := by
  unfold Rule.setBlockLog
  split
  · exact ⟨enabled, rfl⟩
  · exact ⟨rule.log, rfl⟩

theorem Rule.setBlockLog_log (rule : Rule) (enabled : Bool) :
    (rule.action.isBlock = true → (rule.setBlockLog enabled).log = enabled) ↔
      (rule.action = .blockDrop → rule.log = enabled) := by
  unfold Rule.setBlockLog
  cases ha : rule.action with
  | pass =>
    constructor
    · rintro - ⟨⟩
    · rintro - ⟨⟩
  | block =>
    rw [if_pos (by decide)]
    constructor
    · rintro - ⟨⟩
    · rintro - -
      rfl
  | blockReturn =>
    rw [if_pos (by decide)]
    constructor
    · rintro - ⟨⟩
    · rintro - -
      rfl
  | blockDrop =>
    rw [if_neg (by decide)]
    constructor
    · rintro h -
      exact h rfl
    · rintro h -
      exact h rfl

def Rule.partsBeforeRoute (rule : Rule) : List (List Char) :=
  (if rule.direction.display = [] then [] else [rule.direction.display]) ++
  (if rule.log ∨ rule.action = .block then ["log".toList] else []) ++
  (if rule.quick then ["quick".toList] else []) ++
  onPart rule.interface

def Rule.partsAfterRoute (rule : Rule) : List (List Char) :=
  rule.ipVersion.part ++
  (if rule.protocol ≠ .any then ["proto ".toList ++ rule.protocol.display] else []) ++
  rule.srcPart ++
  rule.dstPart ++
  (if rule.stateOptions.tracking.display ≠ [] ∧ rule.action = .pass then [rule.statePart] else [])

theorem Rule.parts_split (rule : Rule) (routeTo : Option (List Char × List Char)) :
    rule.parts routeTo = rule.action.display ::
      (rule.partsBeforeRoute ++ (rule.routePart routeTo ++ rule.partsAfterRoute)) := by
  unfold Rule.parts partsBeforeRoute partsAfterRoute
  simp only [List.append_assoc, List.cons_append, List.nil_append]

theorem Rule.routePart_eq_nil (rule : Rule) (h : rule.action = .pass → routeTo = none) :
    rule.routePart routeTo = [] := by
  cases routeTo with
  | none => rfl
  | some hop =>
    have ha : rule.action ≠ .pass := by
      intro ha
      cases h ha
    exact if_neg ha

theorem Rule.routePart_pass (ha : rule.action = .pass) (hop : List Char × List Char) :
    ∃ part, rule.routePart (some hop) = [part] := ⟨_, if_pos ha⟩

/-- A written route makes the line longer. -/
theorem Rule.toPfRuleRouted_eq_none_iff (rule : Rule) (routeTo : Option (List Char × List Char)) :
    rule.toPfRuleRouted none = rule.toPfRuleRouted routeTo ↔
      (rule.action = .pass → routeTo = none) := by
  have hnone : rule.routePart none = [] := rfl
  unfold Rule.toPfRuleRouted
  rw [rule.parts_split, rule.parts_split, hnone, List.cons_append, List.cons_append]
  constructor
  · intro h ha
    cases routeTo with
    | none => rfl
    | some hop =>
      obtain ⟨part, hpart⟩ := Rule.routePart_pass ha hop
      rw [hpart] at h
      have hlength := congrArg (fun line => line.length + 1) h
      simp only [intercalate_length (List.cons_ne_nil _ _), List.map_cons, List.map_append,
        List.sum_cons, List.sum_append, List.map_nil, List.sum_nil] at hlength
      omega
  · intro h
    rw [rule.routePart_eq_nil h]

end

theorem map_eq_map_filter_iff {l : List α} {f g : α → β} {p : α → Bool} :
    l.map f = (l.filter p).map g ↔ ∀ x ∈ l, p x = true ∧ f x = g x := by
  constructor
  · intro h
    have hlength := congrArg List.length h
    rw [List.length_map, List.length_map] at hlength
    have hall := List.length_filter_eq_length_iff.mp hlength.symm
    rw [List.filter_eq_self.mpr hall] at h
    intro x hx
    exact ⟨hall x hx, List.map_inj_left.mp h x hx⟩
  · intro h
    rw [List.filter_eq_self.mpr fun x hx => (h x hx).1]
    exact List.map_congr_left fun x hx => (h x hx).2

theorem anchorRules_no_extras (rules : List Rule) (schedules : Schedules)
    (gateways : GatewayRoutes) (now : LocalTime) :
    anchorRules rules schedules gateways now [] = renderActive rules schedules gateways now := by
  unfold anchorRules
  rw [if_neg (not_not.mpr rfl)]

theorem toggle_loaded_iff (enabled : Bool) (rules : List Rule) (schedules : Schedules)
    (gateways : GatewayRoutes) (now : LocalTime) :
    (toggleBlockLogging enabled rules).2 =
        anchorRules (toggleBlockLogging enabled rules).1 schedules gateways now [] ↔
      ∀ r ∈ rules, (r.status = .active ∧ r.inSchedule schedules now = true) ∧
        (r.action = .pass → resolveRuleRoute r gateways = none) := by
  rw [anchorRules_no_extras]
  unfold toggleBlockLogging renderActive
  rw [List.filter_filter, map_eq_map_filter_iff, List.forall_mem_map]
  apply forall₂_congr
  intro r _
  obtain ⟨log, hlog⟩ := r.setBlockLog_eq enabled
  rw [hlog, Rule.toPfRuleRouted_eq_none_iff, Bool.and_eq_true, decide_eq_true_eq]
  exact and_congr_left' And.comm

/-- The handler is right exactly when every stored rule is loaded unrouted anyway and every
`block drop` rule has the requested flag before. -/
theorem togglesFaithfully_iff (enabled : Bool) (rules : List Rule) (schedules : Schedules)
    (gateways : GatewayRoutes) (now : LocalTime) :
    TogglesFaithfully enabled rules schedules gateways now ↔
      ∀ r ∈ rules, r.Unaffected enabled schedules gateways now := by
  have hlogged : (∀ r ∈ (toggleBlockLogging enabled rules).1, r.action.isBlock = true →
      r.log = enabled) ↔ ∀ r ∈ rules, r.action = .blockDrop → r.log = enabled := by
    unfold toggleBlockLogging
    rw [List.forall_mem_map]
    apply forall₂_congr
    intro r _
    have haction : (r.setBlockLog enabled).action = r.action := by
      obtain ⟨log, hlog⟩ := r.setBlockLog_eq enabled
      rw [hlog]
    rw [haction]
    exact r.setBlockLog_log enabled
  constructor
  · intro h r hr
    have hloaded := (toggle_loaded_iff enabled rules schedules gateways now).mp h.loaded r hr
    exact ⟨hloaded.1.1, hloaded.1.2, hloaded.2, hlogged.mp h.logged r hr⟩
  · intro h
    refine ⟨(toggle_loaded_iff enabled rules schedules gateways now).mpr ?_, hlogged.mpr ?_⟩
    · intro r hr
      exact ⟨⟨(h r hr).active, (h r hr).inWindow⟩, (h r hr).unrouted⟩
    · intro r hr
      exact (h r hr).drop

def dropRule : Rule := { sampleRule with id := 2, action := .blockDrop }

/-- A disabled pass rule is loaded, and the flag of a `block drop` rule stays off. -/
theorem togglesFaithfully_sample_false :
    (toggleBlockLogging true [{ sampleRule with status := .disabled }, dropRule]).2 =
        [{ sampleRule with status := .disabled }.toPfRuleRouted none,
          dropRule.toPfRuleRouted none] ∧
      (toggleBlockLogging true [{ sampleRule with status := .disabled }, dropRule]).1.map
        Rule.log = [false, false] ∧
      ¬ TogglesFaithfully true [{ sampleRule with status := .disabled }, dropRule]
        (fun _ => none) sampleGateways 0 := by
  refine ⟨rfl, rfl, ?_⟩
  intro h
  have hlog := h.logged dropRule (List.mem_cons_of_mem _ List.mem_cons_self) rfl
  cases hlog

end AiFw.Pf
