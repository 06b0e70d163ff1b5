import AiFw.Pf.RuleText
import AiFw.Pf.Schedule

namespace AiFw.Pf
set_option autoImplicit true

def Rule.inSchedule (rule : Rule) (schedules : Schedules) (now : LocalTime) : Bool :=
  ruleScheduleActive rule.scheduleId schedules now

/-- The lines of the rules that are active and inside their window. -/
def renderActive (rules : List Rule) (schedules : Schedules) (gateways : GatewayRoutes)
    (now : LocalTime) : List (List Char) :=
  ((rules.filter fun r => r.status = .active).filter fun r => r.inSchedule schedules now).map
    fun r => r.toPfRuleRouted (resolveRuleRoute r gateways)

def startsWithBlock (line : List Char) : Bool := "block ".toList.isPrefixOf line

/-- `pf_rules.insert(pos + i, extra)` for each extra rule in turn. -/
def insertExtras (pos : Nat) : Nat → List (List Char) → List (List Char) → List (List Char)
  | _, [], lines => lines
  | i, extra :: extras, lines => insertExtras pos (i + 1) extras (lines.insertIdx (pos + i) extra)

/-- The list `apply_rules` hands to `load_rules`. -/
def anchorRules (rules : List Rule) (schedules : Schedules) (gateways : GatewayRoutes)
    (now : LocalTime) (extras : List (List Char)) : List (List Char) :=
  let lines := renderActive rules schedules gateways now
  if extras ≠ [] then
    match lines.findIdx? startsWithBlock with
    | some pos => insertExtras pos 0 extras lines
    | none => lines ++ extras
  else lines

theorem insertIdx_append (a b : List α) (x : α) :
    (a ++ b).insertIdx a.length x = a ++ x :: b := by
  induction a with
  | nil => rfl
  | cons y ys ih =>
    rw [List.cons_append, List.length_cons, List.insertIdx_succ_cons, ih]
    rfl

theorem insertExtras_append (before placed extras after : List (List Char)) :
    insertExtras before.length placed.length extras (before ++ placed ++ after) =
      before ++ (placed ++ extras) ++ after := by
  induction extras generalizing placed with
  | nil => rw [insertExtras, List.append_nil]
  | cons extra extras ih =>
    have hi := ih (placed ++ [extra])
    rw [List.length_append, List.length_singleton] at hi
    rw [insertExtras, ← List.length_append, insertIdx_append]
    simp only [List.append_assoc, List.singleton_append] at hi ⊢
    exact hi

/-- The lines are cut in two before the first block, and the extra rules stand in between. -/
theorem anchorRules_split (rules : List Rule) (schedules : Schedules) (gateways : GatewayRoutes)
    (now : LocalTime) (extras : List (List Char)) :
    ∃ before after, renderActive rules schedules gateways now = before ++ after ∧
      anchorRules rules schedules gateways now extras = before ++ extras ++ after ∧
      ∀ line ∈ before, startsWithBlock line = false := by
  unfold anchorRules
  generalize renderActive rules schedules gateways now = lines
  dsimp only
  split
  · split
    · rename_i pos hpos
      have hlt : pos < lines.length := (List.findIdx?_eq_some_iff_findIdx_eq.mp hpos).1
      have hlen : (lines.take pos).length = pos := by
        rw [List.length_take]
        omega
      refine ⟨lines.take pos, lines.drop pos, (List.take_append_drop pos lines).symm, ?_, ?_⟩
      · have hins := insertExtras_append (lines.take pos) [] extras (lines.drop pos)
        rw [hlen, List.append_nil, List.take_append_drop, List.nil_append] at hins
        exact hins
      · intro line hline
        obtain ⟨i, hi, rfl⟩ := List.mem_take_iff_getElem.mp hline
        have hno := (List.findIdx?_eq_some_iff_getElem.mp hpos).2.2 i (by omega)
        simpa using hno
    · rename_i hnone
      refine ⟨lines, [], (List.append_nil _).symm, (List.append_nil _).symm, ?_⟩
      intro line hline
      exact List.findIdx?_eq_none_iff.mp hnone line hline
  · rename_i hne
    refine ⟨[], lines, rfl, ?_, ?_⟩
    · rw [not_not.mp hne]
      rfl
    · intro line hline
      cases hline

/-- A block line stands before one of the extra rules. -/
def BlockBeforeExtra (lines extras : List (List Char)) : Prop :=
  ∃ front extra rest, lines = front ++ extra :: rest ∧ extra ∈ extras ∧
    ∃ line ∈ front, startsWithBlock line = true

/-- The extra rules are taken as they are, so that one of them can be a block itself. -/
theorem anchorRules_block_extra :
    BlockBeforeExtra (anchorRules [] (fun _ => none) (fun _ => none) 0
      ["block in all".toList, "pass in all".toList])
      ["block in all".toList, "pass in all".toList] :=
  ⟨["block in all".toList], "pass in all".toList, [], by decide, by decide, _,
    List.mem_cons_self, by decide⟩

end AiFw.Pf
