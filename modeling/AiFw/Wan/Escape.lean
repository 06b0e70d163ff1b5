import AiFw.Wan.Leak

namespace AiFw.Wan
open AiFw.Lib
set_option autoImplicit true

/-- The leaks beside the instances they refer to. -/
structure LeakStore where
  base : InstanceStore
  leaks : List RouteLeak

namespace LeakStore

def get (s : LeakStore) (id : Uuid) : Except AifwError RouteLeak :=
  match s.leaks.find? fun l => l.id = id with
  | some l => .ok l
  | none => .error (.notFound ("leak ".toList ++ displayUuid id ++ " not found".toList))

/-- Both ends of a leak are stored, as the foreign keys ask. -/
def endsStored (s : LeakStore) (l : RouteLeak) : Bool :=
  hasKey (fun i => i.id) l.srcInstanceId s.base.instances &&
    hasKey (fun i => i.id) l.dstInstanceId s.base.instances

def add (s : LeakStore) (l : RouteLeak) : Except AifwError LeakStore :=
  if hasKey RouteLeak.id l.id s.leaks || !s.endsStored l then .error .database
  else .ok { s with leaks := s.leaks ++ [l] }

/-- Nothing keeps an escape from being disabled or turned elsewhere here. -/
def update (s : LeakStore) (l : RouteLeak) : Except AifwError LeakStore :=
  if hasKey RouteLeak.id l.id s.leaks = false then
    .error (.notFound ("leak ".toList ++ displayUuid l.id ++ " not found".toList))
  else if !s.endsStored l then .error .database
  else .ok { s with leaks := setRow RouteLeak.id l s.leaks }

def strandText : List Char :=
  "cannot delete leak pointing at ".toList ++
    "mgmt-reachable instance (would strand admin)".toList

def delete (s : LeakStore) (id : Uuid) : Except AifwError LeakStore := do
  let leak ← s.get id
  if (s.base.instances.find? fun i => i.id = leak.dstInstanceId).any fun i => i.mgmtReachable then
    .error (.validation strandText)
  else return { s with leaks := dropKey RouteLeak.id id s.leaks }

/-- The row the seeding looks for; it does not ask whether it is enabled. -/
def isEscapeRow (inst default : InstanceRow) (l : RouteLeak) : Bool :=
  l.srcInstanceId = inst.id && l.dstInstanceId = default.id &&
    l.prefixText = RouteLeak.anyText && l.protocol = .any

/-- One escape for each instance but the default one; the loop ends at the first failure. -/
def seedFrom (default : InstanceRow) (newId : Nat → Uuid) :
    Nat → List InstanceRow → LeakStore → LeakStore × Except AifwError Unit
  | _, [], s => (s, .ok ())
  | n, inst :: rest, s =>
    if inst.id = default.id || s.leaks.any (isEscapeRow inst default) then
      seedFrom default newId n rest s
    else
      match s.add (RouteLeak.mgmtEscape (newId n) inst default) with
      | .ok s' => seedFrom default newId (n + 1) rest s'
      | .error e => (s, .error e)

def seedMgmtEscapes (s : LeakStore) (newId : Nat → Uuid) (instances : List InstanceRow) :
    LeakStore × Except AifwError Unit :=
  match instances.find? fun i => i.mgmtReachable && i.fibNumber = defaultFibNumber with
  | none => (s, .ok ())
  | some default => seedFrom default newId 0 instances s

/-- The instances in the order of their FIB numbers. -/
def listInstances (s : LeakStore) : List InstanceRow :=
  s.base.instances.mergeSort fun a b => a.fibNumber ≤ b.fibNumber

def seed (s : LeakStore) (newId : Nat → Uuid) : LeakStore × Except AifwError Unit :=
  s.seedMgmtEscapes newId s.listInstances

inductive Op where
  | addLeak (l : RouteLeak)
  | updateLeak (l : RouteLeak)
  | deleteLeak (id : Uuid)
  | seed (newId : Nat → Uuid)
  | updateInstance (inst : InstanceRow)

def commit (s : LeakStore) : Except AifwError LeakStore → LeakStore
  | .ok s' => s'
  | .error _ => s

def step (s : LeakStore) : Op → LeakStore
  | .addLeak l => s.commit (s.add l)
  | .updateLeak l => s.commit (s.update l)
  | .deleteLeak id => s.commit (s.delete id)
  | .seed newId => (s.seed newId).1
  | .updateInstance inst => s.commit ((s.base.update inst).map fun base => { s with base })

/-- Every instance but the default one has an enabled leak to an instance that is reachable for
management on FIB 0, and to seed again adds nothing. -/
structure EscapeKept (s : LeakStore) : Prop where
  escape : ∀ i ∈ s.base.instances, i.id ≠ defaultInstanceId →
    ∃ l ∈ s.leaks, l.enabled = true ∧ l.srcInstanceId = i.id ∧
      ∃ d ∈ s.base.instances, d.id = l.dstInstanceId ∧ d.mgmtReachable = true ∧
        d.fibNumber = defaultFibNumber
  reseed : ∀ newId, s.seed newId = (s, .ok ())

/-- An enabled leak of all traffic to the default instance. -/
def IsEscape (l : RouteLeak) : Prop :=
  l.enabled = true ∧ l.dstInstanceId = defaultInstanceId ∧ l.prefixText = RouteLeak.anyText ∧
    l.protocol = .any

/-- A leak update that goes through leaves its source an enabled escape, and the default instance
is not moved off FIB 0 or made unreachable. -/
def Careful (s : LeakStore) : Op → Prop
  | .updateLeak l => s.endsStored l = true → ∀ old ∈ s.leaks, old.id = l.id → IsEscape old →
      IsEscape l ∧ l.srcInstanceId = old.srcInstanceId ∨
        ∃ other ∈ s.leaks, other.id ≠ l.id ∧ IsEscape other ∧
          other.srcInstanceId = old.srcInstanceId
  | .updateInstance inst => inst.id = defaultInstanceId → s.base.taken inst = false →
      inst.fibNumber = defaultFibNumber ∧ inst.mgmtReachable = true
  | _ => True

/-- What the schema and the first migration give: keys are unique and the default instance is
reachable on FIB 0. -/
structure Stored (s : LeakStore) : Prop where
  ids : Keyed (fun i : InstanceRow => i.id) s.base.instances
  fibs : Keyed (fun i : InstanceRow => i.fibNumber) s.base.instances
  leakIds : Keyed RouteLeak.id s.leaks
  default : ∃ d ∈ s.base.instances, d.id = defaultInstanceId ∧ d.fibNumber = defaultFibNumber ∧
    d.mgmtReachable = true

/-- The invariant of the runs. -/
structure Escaped (s : LeakStore) : Prop extends Stored s where
  escapes : ∀ i ∈ s.base.instances, i.id ≠ defaultInstanceId →
    ∃ l ∈ s.leaks, IsEscape l ∧ l.srcInstanceId = i.id

/-- A state in which the seeding gives every instance its escape: the new ids are new, and a row
that stands for an escape has an enabled one beside it. -/
structure Seedable (s : LeakStore) (newId : Nat → Uuid) : Prop extends Stored s where
  fresh : ∀ l ∈ s.leaks, ∀ n < s.base.instances.length, l.id ≠ newId n
  distinct : ∀ m < s.base.instances.length, ∀ n < s.base.instances.length,
    newId m = newId n → m = n
  enabled : ∀ l ∈ s.leaks, l.dstInstanceId = defaultInstanceId →
    l.prefixText = RouteLeak.anyText → l.protocol = .any →
      ∃ l' ∈ s.leaks, IsEscape l' ∧ l'.srcInstanceId = l.srcInstanceId

section
variable {s s' : LeakStore} {l : RouteLeak} {inst default : InstanceRow}

theorem add_ok (h : s.add l = .ok s') :
    hasKey RouteLeak.id l.id s.leaks = false ∧ s' = { s with leaks := s.leaks ++ [l] } := by
  unfold add at h
  split at h
  · cases h
  · next hfree =>
    rw [Bool.or_eq_true, not_or, Bool.not_eq_true] at hfree
    cases h
    exact ⟨hfree.1, rfl⟩

theorem add_stored (hfree : hasKey RouteLeak.id l.id s.leaks = false)
    (hends : s.endsStored l = true) : s.add l = .ok { s with leaks := s.leaks ++ [l] } := by
  unfold add
  rw [hfree, hends]
  rfl

theorem update_ok (h : s.update l = .ok s') :
    s.endsStored l = true ∧ hasKey RouteLeak.id l.id s.leaks = true ∧
      s' = { s with leaks := setRow RouteLeak.id l s.leaks } := by
  unfold update at h
  split at h
  · cases h
  · next hfound =>
    split at h
    · cases h
    · next hends =>
      rw [Bool.not_eq_true', Bool.not_eq_false] at hends
      cases h
      exact ⟨hends, Bool.of_not_eq_false hfound, rfl⟩

/-- What is deleted is a stored leak towards an instance that is not reachable for management. -/
theorem delete_ok {id : Uuid} (h : s.delete id = .ok s') :
    ∃ leak ∈ s.leaks, leak.id = id ∧
      (s.base.instances.find? fun i => i.id = leak.dstInstanceId).any
        (fun i => i.mgmtReachable) = false ∧
      s' = { s with leaks := dropKey RouteLeak.id id s.leaks } := by
  unfold delete get at h
  cases hf : s.leaks.find? fun l => l.id = id with
  | none =>
    rw [hf] at h
    cases h
  | some leak =>
    rw [hf] at h
    have hid := List.find?_some hf
    have hbind : (if (s.base.instances.find? fun i => i.id = leak.dstInstanceId).any
        (fun i => i.mgmtReachable) = true then Except.error (AifwError.validation strandText)
        else Except.ok { s with leaks := dropKey RouteLeak.id id s.leaks }) = Except.ok s' := h
    refine ⟨leak, List.mem_of_find?_eq_some hf, of_decide_eq_true hid, ?_⟩
    split at hbind
    · cases hbind
    · next hguard =>
      cases hbind
      exact ⟨Bool.of_not_eq_true hguard, rfl⟩

/-- The instance the seeding leads to is the default one. -/
theorem find_default (h : Stored s) :
    ∃ d ∈ s.base.instances, d.id = defaultInstanceId ∧
      (s.listInstances.find? fun i => i.mgmtReachable && i.fibNumber = defaultFibNumber) =
        some d := by
  obtain ⟨d, hd, hid, hfib, hmgmt⟩ := h.default
  have hsorted : d ∈ s.listInstances := List.mem_mergeSort.mpr hd
  have hsome : (s.listInstances.find? fun i =>
      i.mgmtReachable && i.fibNumber = defaultFibNumber).isSome := by
    rw [List.find?_isSome]
    refine ⟨d, hsorted, ?_⟩
    simp only [hmgmt, hfib, decide_true, Bool.and_self]
  obtain ⟨e, he⟩ := Option.isSome_iff_exists.mp hsome
  have hstored : e ∈ s.base.instances := List.mem_mergeSort.mp (List.mem_of_find?_eq_some he)
  have hpred := List.find?_some he
  rw [Bool.and_eq_true, decide_eq_true_eq] at hpred
  have heq : e = d := h.fibs e hstored d hd (hpred.2.trans hfib.symm)
  rw [heq] at he
  exact ⟨d, hd, hid, he⟩

theorem isEscapeRow_iff :
    isEscapeRow inst default l = true ↔ l.srcInstanceId = inst.id ∧
      l.dstInstanceId = default.id ∧ l.prefixText = RouteLeak.anyText ∧ l.protocol = .any := by
  simp only [isEscapeRow, Bool.and_eq_true, decide_eq_true_eq, and_assoc]

theorem seedFrom_settled (h : ∀ inst ∈ list, inst.id ≠ default.id →
      ∃ l ∈ s.leaks, isEscapeRow inst default l = true) :
    seedFrom default newId n list s = (s, .ok ()) := by
  induction list with
  | nil => rfl
  | cons inst list ih =>
    have hskip : (decide (inst.id = default.id) || s.leaks.any (isEscapeRow inst default)) =
        true := by
      by_cases hid : inst.id = default.id
      · rw [decide_eq_true hid, Bool.true_or]
      · rw [List.any_eq_true.mpr (h inst List.mem_cons_self hid), Bool.or_true]
    rw [seedFrom, if_pos hskip]
    exact ih fun i hi => h i (List.mem_cons_of_mem _ hi)

/-- To seed again changes nothing. -/
theorem Escaped.seed (h : Escaped s) (newId : Nat → Uuid) : s.seed newId = (s, .ok ()) := by
  obtain ⟨d, -, hid, hfind⟩ := find_default h.toStored
  unfold LeakStore.seed seedMgmtEscapes
  rw [hfind]
  apply seedFrom_settled
  intro inst hi hne
  rw [hid] at hne
  obtain ⟨l, hl, he, hsrc⟩ := h.escapes inst (List.mem_mergeSort.mp hi) hne
  refine ⟨l, hl, isEscapeRow_iff.mpr ⟨hsrc, ?_, he.2.2⟩⟩
  rw [hid]
  exact he.2.1

/-- What the loop has done after some instances: the old leaks are still there, and each of the
instances has the row of an escape, an old one or one that is enabled. -/
structure Seeds (default : InstanceRow) (s : LeakStore) (list : List InstanceRow) (s' : LeakStore) :
    Prop where
  base : s'.base = s.base
  kept : ∀ l ∈ s.leaks, l ∈ s'.leaks
  leakIds : Keyed RouteLeak.id s'.leaks
  rows : ∀ inst ∈ list, inst.id ≠ default.id →
    ∃ l ∈ s'.leaks, isEscapeRow inst default l = true ∧ (l ∈ s.leaks ∨ l.enabled = true)

theorem mgmtEscape_isEscapeRow (id : Uuid) (inst default : InstanceRow) :
    isEscapeRow inst default (RouteLeak.mgmtEscape id inst default) = true :=
  isEscapeRow_iff.mpr ⟨rfl, rfl, rfl, rfl⟩

theorem seedFrom_seeds (hdefault : default ∈ s.base.instances)
    (hlist : ∀ inst ∈ list, inst ∈ s.base.instances) (hkeyed : Keyed RouteLeak.id s.leaks)
    (hfresh : ∀ l ∈ s.leaks, ∀ m < bound, n ≤ m → l.id ≠ newId m)
    (hdistinct : ∀ i < bound, ∀ j < bound, newId i = newId j → i = j)
    (hbound : n + list.length ≤ bound) :
    ∃ s', seedFrom default newId n list s = (s', .ok ()) ∧ Seeds default s list s' := by
  induction list generalizing s n with
  | nil =>
    refine ⟨s, rfl, rfl, fun l hl => hl, hkeyed, ?_⟩
    intro inst hi
    cases hi
  | cons inst list ih =>
    have hrest : ∀ i ∈ list, i ∈ s.base.instances := fun i hi => hlist i (List.mem_cons_of_mem _ hi)
    rw [List.length_cons] at hbound
    by_cases hskip : (decide (inst.id = default.id) || s.leaks.any (isEscapeRow inst default)) = true
    · obtain ⟨s', hs', hseeds⟩ := ih hdefault hrest hkeyed hfresh (by omega)
      refine ⟨s', ?_, hseeds.base, hseeds.kept, hseeds.leakIds, ?_⟩
      · rw [seedFrom, if_pos hskip]
        exact hs'
      · intro i hi hne
        rcases List.mem_cons.mp hi with rfl | hi
        · rw [Bool.or_eq_true, decide_eq_true_eq] at hskip
          obtain ⟨l, hl, hrow⟩ := List.any_eq_true.mp (hskip.resolve_left hne)
          exact ⟨l, hseeds.kept l hl, hrow, .inl hl⟩
        · exact hseeds.rows i hi hne
    · have hends : s.endsStored (RouteLeak.mgmtEscape (newId n) inst default) = true := by
        unfold endsStored
        rw [Bool.and_eq_true, hasKey_iff, hasKey_iff]
        exact ⟨⟨inst, hlist inst List.mem_cons_self, rfl⟩, ⟨default, hdefault, rfl⟩⟩
      have hnew : hasKey RouteLeak.id (newId n) s.leaks = false :=
        hasKey_eq_false.mpr fun l hl => hfresh l hl n (by omega) (Nat.le_refl n)
      have hadd := add_stored hnew hends
      have hfresh' : ∀ l ∈ s.leaks ++ [RouteLeak.mgmtEscape (newId n) inst default],
          ∀ m < bound, n + 1 ≤ m → l.id ≠ newId m := by
        intro l hl m hlt hm he
        rcases List.mem_append.mp hl with hl | hl
        · exact hfresh l hl m hlt (Nat.le_of_succ_le hm) he
        · rw [List.mem_singleton.mp hl] at he
          have hnm : n = m := hdistinct n (by omega) m hlt he
          omega
      obtain ⟨s', hs', hseeds⟩ := ih (s := { s with leaks := s.leaks ++ [_] }) hdefault hrest
        (hkeyed.append_row hnew) hfresh' (by omega)
      have hmem : RouteLeak.mgmtEscape (newId n) inst default ∈ s'.leaks :=
        hseeds.kept _ (List.mem_append_right _ (List.mem_singleton.mpr rfl))
      refine ⟨s', ?_, hseeds.base, ?_, hseeds.leakIds, ?_⟩
      · rw [seedFrom, if_neg hskip, hadd]
        exact hs'
      · intro l hl
        exact hseeds.kept l (List.mem_append_left _ hl)
      · intro i hi hne
        rcases List.mem_cons.mp hi with rfl | hi
        · exact ⟨_, hmem, mgmtEscape_isEscapeRow _ _ _, .inr rfl⟩
        · obtain ⟨l, hl, hrow, hold⟩ := hseeds.rows i hi hne
          refine ⟨l, hl, hrow, ?_⟩
          rcases hold with hold | hon
          · rcases List.mem_append.mp hold with hold | hold
            · exact .inl hold
            · rw [List.mem_singleton.mp hold]
              exact .inr rfl
          · exact .inr hon

theorem Seedable.seed (h : Seedable s newId) :
    Escaped (s.seed newId).1 ∧ (s.seed newId).2 = .ok () := by
  obtain ⟨d, hd, hid, hfind⟩ := find_default h.toStored
  have hlist : ∀ i ∈ s.listInstances, i ∈ s.base.instances := fun i hi => List.mem_mergeSort.mp hi
  have hlength : 0 + s.listInstances.length ≤ s.base.instances.length := by
    rw [Nat.zero_add, listInstances, List.length_mergeSort]
  obtain ⟨s', hs', hseeds⟩ := seedFrom_seeds hd hlist h.leakIds
    (fun l hl m hm _ => h.fresh l hl m hm) h.distinct hlength
  have hseed : s.seed newId = (s', .ok ()) := by
    unfold LeakStore.seed seedMgmtEscapes
    rw [hfind]
    exact hs'
  rw [hseed]
  refine ⟨⟨⟨?_, ?_, hseeds.leakIds, ?_⟩, ?_⟩, rfl⟩
  · rw [hseeds.base]
    exact h.ids
  · rw [hseeds.base]
    exact h.fibs
  · rw [hseeds.base]
    exact h.default
  · intro i hi hne
    rw [hseeds.base] at hi
    have hne' : i.id ≠ d.id := by
      rw [hid]
      exact hne
    obtain ⟨l, hl, hrow, hold⟩ := hseeds.rows i (List.mem_mergeSort.mpr hi) hne'
    obtain ⟨hsrc, hdst, hprefix, hproto⟩ := isEscapeRow_iff.mp hrow
    rw [hid] at hdst
    rcases hold with hold | hon
    · obtain ⟨l', hl', he, hsrc'⟩ := h.enabled l hold hdst hprefix hproto
      exact ⟨l', hseeds.kept l' hl', he, hsrc'.trans hsrc⟩
    · exact ⟨l, hl, ⟨hon, hdst, hprefix, hproto⟩, hsrc⟩

end

section
variable {s s' : LeakStore} {l : RouteLeak} {inst : InstanceRow}

/-- More leaks do no harm. -/
theorem Escaped.of_leaks {leaks : List RouteLeak} (h : Escaped s) (hkeyed : Keyed RouteLeak.id leaks)
    (hkept : ∀ l ∈ s.leaks, IsEscape l → ∃ l' ∈ leaks, IsEscape l' ∧
      l'.srcInstanceId = l.srcInstanceId) : Escaped { s with leaks } where
  ids := h.ids
  fibs := h.fibs
  leakIds := hkeyed
  default := h.default
  escapes := by
    intro i hi hne
    obtain ⟨l, hl, he, hsrc⟩ := h.escapes i hi hne
    obtain ⟨l', hl', he', hsrc'⟩ := hkept l hl he
    exact ⟨l', hl', he', hsrc'.trans hsrc⟩

theorem Escaped.addLeak (h : Escaped s) (hadd : s.add l = .ok s') : Escaped s' := by
  obtain ⟨hfree, rfl⟩ := add_ok hadd
  apply h.of_leaks (h.leakIds.append_row hfree)
  intro l' hl' he
  exact ⟨l', List.mem_append_left _ hl', he, rfl⟩

theorem Escaped.updateLeak (h : Escaped s) (hc : Careful s (.updateLeak l))
    (hupdate : s.update l = .ok s') : Escaped s' := by
  obtain ⟨hends, hfound, rfl⟩ := update_ok hupdate
  apply h.of_leaks (h.leakIds.setRow l)
  intro old hold he
  by_cases hid : old.id = l.id
  · rcases hc hends old hold hid he with ⟨he', hsrc⟩ | ⟨other, hother, hne, he', hsrc⟩
    · exact ⟨l, mem_setRow.mpr (.inr ⟨rfl, hfound⟩), he', hsrc⟩
    · exact ⟨other, mem_setRow.mpr (.inl ⟨hother, hne⟩), he', hsrc⟩
  · exact ⟨old, mem_setRow.mpr (.inl ⟨hold, hid⟩), he, rfl⟩

theorem find_of_keyed (hkeyed : Keyed (fun i : InstanceRow => i.id) instances)
    (h : inst ∈ instances) : (instances.find? fun i => i.id = inst.id) = some inst := by
  have hsome : (instances.find? fun i => i.id = inst.id).isSome := by
    rw [List.find?_isSome]
    exact ⟨inst, h, decide_eq_true rfl⟩
  obtain ⟨e, he⟩ := Option.isSome_iff_exists.mp hsome
  have hid := List.find?_some he
  rw [he, hkeyed e (List.mem_of_find?_eq_some he) inst h (of_decide_eq_true hid)]

/-- The guard keeps the escapes, as long as the default instance is reachable for management. -/
theorem Escaped.deleteLeak {id : Uuid} (h : Escaped s) (hdelete : s.delete id = .ok s') :
    Escaped s' := by
  obtain ⟨leak, hleak, hid, hguard, rfl⟩ := delete_ok hdelete
  have hkeyed : Keyed RouteLeak.id (dropKey RouteLeak.id id s.leaks) :=
    h.leakIds.sublist fun l hl => (mem_dropKey.mp hl).1
  apply h.of_leaks hkeyed
  intro l hl he
  refine ⟨l, mem_dropKey.mpr ⟨hl, ?_⟩, he, rfl⟩
  intro hlid
  have hsame : l = leak := h.leakIds l hl leak hleak (hlid.trans hid.symm)
  obtain ⟨d, hd, hdid, -, hmgmt⟩ := h.default
  have hdst : leak.dstInstanceId = d.id := by
    rw [← hsame, hdid]
    exact he.2.1
  rw [hdst, find_of_keyed h.ids hd, Option.any_some, hmgmt] at hguard
  cases hguard

theorem fibs_of_update (h : Keyed (fun i : InstanceRow => i.fibNumber) instances)
    (hfree : ∀ i ∈ instances, i.id ≠ inst.id → i.fibNumber ≠ inst.fibNumber) :
    Keyed (fun i : InstanceRow => i.fibNumber) (setRow (fun i => i.id) inst instances) := by
  intro i hi j hj he
  rcases mem_setRow.mp hi with ⟨hold, hne⟩ | ⟨hnew, -⟩
  · rcases mem_setRow.mp hj with ⟨hold', -⟩ | ⟨hnew', -⟩
    · exact h i hold j hold' he
    · rw [hnew'] at he
      exact absurd he (hfree i hold hne)
  · rw [hnew] at he ⊢
    rcases mem_setRow.mp hj with ⟨hold', hne⟩ | ⟨hnew', -⟩
    · exact absurd he.symm (hfree j hold' hne)
    · exact hnew'.symm

theorem Escaped.updateInstance {base : InstanceStore} (h : Escaped s) (hc : Careful s (.updateInstance inst))
    (hupdate : s.base.update inst = .ok base) : Escaped { s with base } := by
  obtain ⟨hfound, hfree, rfl⟩ := InstanceStore.update_ok hupdate
  have hfib : ∀ i ∈ s.base.instances, i.id ≠ inst.id → i.fibNumber ≠ inst.fibNumber := by
    intro i hi hne he
    have htaken : s.base.taken inst = true := by
      unfold InstanceStore.taken
      rw [List.any_eq_true]
      refine ⟨i, hi, ?_⟩
      simp only [ne_eq, hne, not_false_eq_true, decide_true, he, Bool.or_true, Bool.and_self]
    rw [hfree] at htaken
    cases htaken
  refine ⟨⟨h.ids.setRow inst, fibs_of_update h.fibs hfib, h.leakIds, ?_⟩, ?_⟩
  · obtain ⟨d, hd, hid, hdefault⟩ := h.default
    by_cases he : d.id = inst.id
    · have hinst := hc (he.symm.trans hid) hfree
      exact ⟨inst, mem_setRow.mpr (.inr ⟨rfl, hfound⟩), he.symm.trans hid, hinst⟩
    · exact ⟨d, mem_setRow.mpr (.inl ⟨hd, he⟩), hid, hdefault⟩
  · intro i hi hne
    rcases mem_setRow.mp hi with ⟨hi, -⟩ | ⟨rfl, -⟩
    · exact h.escapes i hi hne
    · obtain ⟨old, hold, hid⟩ := hasKey_iff.mp hfound
      obtain ⟨l, hl, he, hsrc⟩ := h.escapes old hold (hid ▸ hne)
      exact ⟨l, hl, he, hsrc.trans hid⟩

theorem Escaped.commit (h : Escaped s) (hok : ∀ s', result = .ok s' → Escaped s') :
    Escaped (s.commit result) := by
  cases result with
  | ok s' => exact hok s' rfl
  | error e => exact h

theorem Escaped.step (h : Escaped s) (hc : Careful s op) : Escaped (s.step op) := by
  cases op with
  | addLeak l => exact h.commit fun s' hs' => h.addLeak hs'
  | updateLeak l => exact h.commit fun s' hs' => h.updateLeak hc hs'
  | deleteLeak id => exact h.commit fun s' hs' => h.deleteLeak hs'
  | seed newId =>
    have hstep : s.step (.seed newId) = (s.seed newId).1 := rfl
    rw [hstep, h.seed newId]
    exact h
  | updateInstance inst =>
    apply h.commit
    intro s' hs'
    cases hupdate : s.base.update inst with
    | ok base =>
      rw [hupdate] at hs'
      cases hs'
      exact h.updateInstance hc hupdate
    | error e =>
      rw [hupdate] at hs'
      cases hs'

theorem Escaped.kept (h : Escaped s) : EscapeKept s where
  escape := by
    intro i hi hne
    obtain ⟨l, hl, he, hsrc⟩ := h.escapes i hi hne
    obtain ⟨d, hd, hid, hfib, hmgmt⟩ := h.default
    exact ⟨l, hl, he.1, hsrc, d, hd, hid.trans he.2.1.symm, hmgmt, hfib⟩
  reseed := h.seed

end

theorem escapeKept_of_careful (s : LeakStore) (newId : Nat → Uuid) (hs : Seedable s newId)
    (ops past : List Op) (h : Along step Careful (s.seed newId).1 ops) (hp : past <+: ops) :
    EscapeKept (past.foldl step (s.seed newId).1) :=
  (Along.reaches Escaped (fun _ _ hs hc => hs.step hc) hs.seed.1 h hp).kept

/-- One instance beside the default one, and no leaks yet. -/
def sampleStore : LeakStore where
  base := { InstanceStore.migrate with
    instances := InstanceStore.migrate.instances ++ [InstanceStore.wan2] }
  leaks := []

def sampleIds (n : Nat) : Uuid := BitVec.ofNat 128 (n + 9)

theorem sampleStore_seedable : Seedable sampleStore sampleIds where
  ids := (Keyed.nil.append_row rfl).append_row (by decide)
  fibs := (Keyed.nil.append_row rfl).append_row (by decide)
  leakIds := .nil
  default := ⟨_, List.mem_cons_self, rfl, rfl, rfl⟩
  fresh := by
    rintro l ⟨⟩
  distinct := by decide
  enabled := by
    rintro l ⟨⟩

/-- The escape seeded for `wan2`. -/
def wan2Escape : RouteLeak :=
  RouteLeak.mgmtEscape 9 InstanceStore.wan2 (sampleStore.base.instances.head (by decide))

theorem escapeKept_of_careful_rename :
    Seedable sampleStore sampleIds ∧
      Along step Careful (sampleStore.seed sampleIds).1
        [.updateInstance { InstanceStore.wan2 with name := "lte".toList }, .deleteLeak 9] ∧
      EscapeKept (([.updateInstance { InstanceStore.wan2 with name := "lte".toList },
        .deleteLeak 9] : List Op).foldl step (sampleStore.seed sampleIds).1) := by
  have hops : Along step Careful (sampleStore.seed sampleIds).1
      [.updateInstance { InstanceStore.wan2 with name := "lte".toList }, .deleteLeak 9] := by
    refine ⟨?_, trivial, trivial⟩
    intro hid
    exact absurd hid (by decide)
  exact ⟨sampleStore_seedable, hops,
    escapeKept_of_careful sampleStore sampleIds sampleStore_seedable _ _ hops (List.prefix_refl _)⟩

theorem listInstances_sample {s : LeakStore} (h : s.base = sampleStore.base) :
    s.listInstances = sampleStore.base.instances := by
  unfold listInstances
  rw [h]
  exact List.mergeSort_of_pairwise (by decide)

def disabledStore : LeakStore :=
  { sampleStore with leaks := [{ wan2Escape with enabled := false }] }

/-- The update disables the one escape there is, and to seed again does not bring it back. -/
theorem escapeKept_disable_false :
    sampleStore.seed sampleIds = ({ sampleStore with leaks := [wan2Escape] }, .ok ()) ∧
      ¬ EscapeKept (([.updateLeak { wan2Escape with enabled := false }, .seed sampleIds] :
        List Op).foldl step (sampleStore.seed sampleIds).1) := by
  have hseed : sampleStore.seed sampleIds =
      ({ sampleStore with leaks := [wan2Escape] }, .ok ()) := by
    unfold seed
    rw [listInstances_sample rfl]
    rfl
  have hagain : disabledStore.seed sampleIds = (disabledStore, .ok ()) := by
    unfold seed
    rw [listInstances_sample (s := disabledStore) rfl]
    rfl
  have hstate : ([.updateLeak { wan2Escape with enabled := false }, .seed sampleIds] :
      List Op).foldl step (sampleStore.seed sampleIds).1 = disabledStore := by
    rw [hseed]
    exact congrArg Prod.fst hagain
  refine ⟨hseed, ?_⟩
  rw [hstate]
  intro h
  have hwan2 : InstanceStore.wan2 ∈ disabledStore.base.instances :=
    List.mem_append_right _ (List.mem_singleton.mpr rfl)
  obtain ⟨l, hl, hon, -⟩ := h.escape _ hwan2 (by decide)
  rw [List.mem_singleton.mp hl] at hon
  cases hon

end LeakStore

end AiFw.Wan
