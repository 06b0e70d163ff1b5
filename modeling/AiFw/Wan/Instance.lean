import AiFw.Lib.Runs
import AiFw.Lib.Table
import AiFw.Lib.Text
import AiFw.Wan.Policy

namespace AiFw.Wan
open AiFw.Lib

set_option autoImplicit true

inductive InstanceStatus where
  | active
  | idle
  | disabled
deriving DecidableEq, Repr

/-- A routing instance with all its columns but the times. -/
structure InstanceRow extends RoutingInstance where
  name : List Char
  description : Option (List Char)
  mgmtReachable : Bool
  status : InstanceStatus

structure InstanceMember where
  instanceId : Uuid
  interface : List Char
deriving DecidableEq, Repr

def defaultInstanceId : Uuid := 0x61696677000000000000000000000000

def defaultInstanceName : List Char := "default".toList

def defaultFibNumber : UInt32 := 0

/-- The text of a database error is left to the database. -/
inductive AifwError where
  | validation (text : List Char)
  | notFound (text : List Char)
  | database
deriving DecidableEq, Repr

/-- The two tables, and the FIB the kernel was last given for each interface. -/
structure InstanceStore where
  instances : List InstanceRow
  members : List InstanceMember
  interfaceFib : List Char → UInt32

namespace InstanceStore

/-- The default instance, seeded into empty tables. -/
def migrate : InstanceStore where
  instances := [{
    id := defaultInstanceId
    fibNumber := defaultFibNumber
    name := defaultInstanceName
    description := some "Default routing instance (FIB 0)".toList
    mgmtReachable := true
    status := .active }]
  members := []
  interfaceFib := fun _ => defaultFibNumber

def get (s : InstanceStore) (id : Uuid) : Except AifwError InstanceRow :=
  match s.instances.find? fun i => i.id = id with
  | some inst => .ok inst
  | none => .error (.notFound ("instance ".toList ++ displayUuid id ++ " not found".toList))

def setInterfaceFib (s : InstanceStore) (interface : List Char) (fib : UInt32) : InstanceStore :=
  { s with interfaceFib := Function.update s.interfaceFib interface fib }

/-- A name or a FIB number that another instance has already. -/
def taken (s : InstanceStore) (inst : InstanceRow) : Bool :=
  s.instances.any fun i => i.id ≠ inst.id && (i.name = inst.name || i.fibNumber = inst.fibNumber)

def add (fibCount : UInt32) (s : InstanceStore) (inst : InstanceRow) :
    Except AifwError InstanceStore :=
  if (trim inst.name).isEmpty then .error (.validation "instance name required".toList)
  else if fibCount ≤ inst.fibNumber then
    .error (.validation ("fib ".toList ++ u32Text inst.fibNumber ++
      " out of range (net.fibs=".toList ++ u32Text fibCount ++ [')']))
  else if hasKey (fun i => i.id) inst.id s.instances || s.taken inst then .error .database
  else .ok { s with instances := s.instances ++ [inst] }

/-- Neither the name nor the FIB number is checked, nor is a member given the new FIB. -/
def update (s : InstanceStore) (inst : InstanceRow) : Except AifwError InstanceStore :=
  if hasKey (fun i => i.id) inst.id s.instances = false then
    .error (.notFound ("instance ".toList ++ displayUuid inst.id ++ " not found".toList))
  else if s.taken inst then .error .database
  else .ok { s with instances := setRow (fun i => i.id) inst s.instances }

/-- The members go with their instance and keep its FIB. -/
def delete (s : InstanceStore) (id : Uuid) : Except AifwError InstanceStore :=
  if id = defaultInstanceId then
    .error (.validation "cannot delete the default routing instance".toList)
  else if hasKey (fun i => i.id) id s.instances = false then
    .error (.notFound ("instance ".toList ++ displayUuid id ++ " not found".toList))
  else .ok { s with
    instances := dropKey (fun i => i.id) id s.instances
    members := dropKey InstanceMember.instanceId id s.members }

def addMember (s : InstanceStore) (instanceId : Uuid) (interface : List Char) :
    Except AifwError InstanceStore := do
  let inst ← s.get instanceId
  let others := dropKey InstanceMember.interface interface s.members
  return { s with members := others ++ [InstanceMember.mk instanceId interface] }.setInterfaceFib interface inst.fibNumber

def removeMember (s : InstanceStore) (instanceId : Uuid) (interface : List Char) :
    Except AifwError InstanceStore :=
  if ⟨instanceId, interface⟩ ∈ s.members then
    .ok ({ s with members := dropKey id ⟨instanceId, interface⟩ s.members }.setInterfaceFib
      interface defaultFibNumber)
  else
    .error (.notFound ("member ".toList ++ interface ++ " not in instance ".toList ++
      displayUuid instanceId))

inductive Op where
  | add (inst : InstanceRow)
  | update (inst : InstanceRow)
  | delete (id : Uuid)
  | addMember (instanceId : Uuid) (interface : List Char)
  | removeMember (instanceId : Uuid) (interface : List Char)

def call (fibCount : UInt32) (s : InstanceStore) : Op → Except AifwError InstanceStore
  | .add inst => s.add fibCount inst
  | .update inst => s.update inst
  | .delete id => s.delete id
  | .addMember instanceId interface => s.addMember instanceId interface
  | .removeMember instanceId interface => s.removeMember instanceId interface

/-- A call that fails leaves everything as it was. -/
def step (fibCount : UInt32) (s : InstanceStore) (op : Op) : InstanceStore :=
  match s.call fibCount op with
  | .ok s' => s'
  | .error _ => s

/-- The default instance is there, the FIB numbers exist, and each interface has the FIB of the
one instance it is a member of. -/
structure Sound (fibCount : UInt32) (s : InstanceStore) : Prop where
  default : ∃ i ∈ s.instances, i.id = defaultInstanceId ∧ i.fibNumber = defaultFibNumber ∧
    i.mgmtReachable = true
  inRange : ∀ i ∈ s.instances, i.fibNumber < fibCount
  single : ∀ m ∈ s.members, ∀ m' ∈ s.members, m.interface = m'.interface →
    m.instanceId = m'.instanceId
  pinned : ∀ m ∈ s.members, ∃ i ∈ s.instances, i.id = m.instanceId ∧
    s.interfaceFib m.interface = i.fibNumber
  unpinned : ∀ iface, (∀ m ∈ s.members, m.interface ≠ iface) →
    s.interfaceFib iface = defaultFibNumber

/-- The calls that keep to what the others check: an update that goes through has a FIB number in
range, leaves the default instance reachable on FIB 0 and keeps the FIB number of an instance with
members, and an instance is deleted after its members. -/
def Careful (fibCount : UInt32) (s : InstanceStore) : Op → Prop
  | .update inst =>
    hasKey (fun i => i.id) inst.id s.instances = true → s.taken inst = false →
      inst.fibNumber < fibCount ∧
      (inst.id = defaultInstanceId →
        inst.fibNumber = defaultFibNumber ∧ inst.mgmtReachable = true) ∧
      ∀ m ∈ s.members, m.instanceId = inst.id →
        ∀ old ∈ s.instances, old.id = inst.id → old.fibNumber = inst.fibNumber
  | .delete id => id ≠ defaultInstanceId → ∀ m ∈ s.members, m.instanceId ≠ id
  | _ => True

section
variable {s s' : InstanceStore} {inst : InstanceRow} {fibCount : UInt32}

theorem add_ok (h : s.add fibCount inst = .ok s') :
    inst.fibNumber < fibCount ∧ hasKey (fun i => i.id) inst.id s.instances = false ∧
      s' = { s with instances := s.instances ++ [inst] } := by
  unfold add at h
  split at h
  · cases h
  · split at h
    · cases h
    · next hfib =>
      split at h
      · cases h
      · next hfree =>
        rw [Bool.or_eq_true, not_or, Bool.not_eq_true] at hfree
        cases h
        exact ⟨UInt32.not_le.mp hfib, hfree.1, rfl⟩

theorem update_ok (h : s.update inst = .ok s') :
    hasKey (fun i => i.id) inst.id s.instances = true ∧ s.taken inst = false ∧
      s' = { s with instances := setRow (fun i => i.id) inst s.instances } := by
  unfold update at h
  split at h
  · cases h
  · next hfound =>
    split at h
    · cases h
    · next hfree =>
      cases h
      exact ⟨Bool.of_not_eq_false hfound, Bool.of_not_eq_true hfree, rfl⟩

theorem delete_ok {id : Uuid} (h : s.delete id = .ok s') :
    id ≠ defaultInstanceId ∧ s' = { s with
      instances := dropKey (fun i => i.id) id s.instances
      members := dropKey InstanceMember.instanceId id s.members } := by
  unfold delete at h
  split at h
  · cases h
  · next hid =>
    split at h
    · cases h
    · cases h
      exact ⟨hid, rfl⟩

theorem addMember_ok {interface : List Char} (h : s.addMember instanceId interface = .ok s') :
    ∃ inst ∈ s.instances, inst.id = instanceId ∧
      s' = { s with members := dropKey InstanceMember.interface interface s.members ++
        [InstanceMember.mk instanceId interface] }.setInterfaceFib interface inst.fibNumber := by
  unfold addMember get at h
  cases hf : s.instances.find? fun i => i.id = instanceId with
  | none =>
    rw [hf] at h
    cases h
  | some inst =>
    rw [hf] at h
    cases h
    have hid := List.find?_some hf
    exact ⟨inst, List.mem_of_find?_eq_some hf, of_decide_eq_true hid, rfl⟩

theorem removeMember_ok {interface : List Char} (h : s.removeMember instanceId interface = .ok s') :
    ⟨instanceId, interface⟩ ∈ s.members ∧
      s' = { s with members := dropKey id ⟨instanceId, interface⟩ s.members }.setInterfaceFib
        interface defaultFibNumber := by
  unfold removeMember at h
  split at h
  · next hm =>
    cases h
    exact ⟨hm, rfl⟩
  · cases h

theorem Sound.add (h : Sound fibCount s) (hfib : inst.fibNumber < fibCount) :
    Sound fibCount { s with instances := s.instances ++ [inst] } where
  default := by
    obtain ⟨i, hi, hd⟩ := h.default
    exact ⟨i, List.mem_append_left _ hi, hd⟩
  inRange := by
    intro i hi
    rcases List.mem_append.mp hi with hi | hi
    · exact h.inRange i hi
    · rw [List.mem_singleton.mp hi]
      exact hfib
  single := h.single
  pinned := by
    intro m hm
    obtain ⟨i, hi, hp⟩ := h.pinned m hm
    exact ⟨i, List.mem_append_left _ hi, hp⟩
  unpinned := h.unpinned

theorem Sound.update (h : Sound fibCount s)
    (hfound : hasKey (fun i => i.id) inst.id s.instances = true)
    (hfib : inst.fibNumber < fibCount)
    (hdefault : inst.id = defaultInstanceId →
      inst.fibNumber = defaultFibNumber ∧ inst.mgmtReachable = true)
    (hmembers : ∀ m ∈ s.members, m.instanceId = inst.id →
      ∀ old ∈ s.instances, old.id = inst.id → old.fibNumber = inst.fibNumber) :
    Sound fibCount { s with instances := setRow (fun i => i.id) inst s.instances } where
  default := by
    obtain ⟨i, hi, hid, hd⟩ := h.default
    by_cases he : i.id = inst.id
    · refine ⟨inst, mem_setRow.mpr (.inr ⟨rfl, hfound⟩), he.symm.trans hid, ?_⟩
      exact hdefault (he.symm.trans hid)
    · exact ⟨i, mem_setRow.mpr (.inl ⟨hi, he⟩), hid, hd⟩
  inRange := by
    intro i hi
    rcases mem_setRow.mp hi with ⟨hi, -⟩ | ⟨rfl, -⟩
    · exact h.inRange i hi
    · exact hfib
  single := h.single
  pinned := by
    intro m hm
    obtain ⟨i, hi, hid, hp⟩ := h.pinned m hm
    by_cases he : i.id = inst.id
    · refine ⟨inst, mem_setRow.mpr (.inr ⟨rfl, hfound⟩), he.symm.trans hid, ?_⟩
      exact hp.trans (hmembers m hm (hid.symm.trans he) i hi he)
    · exact ⟨i, mem_setRow.mpr (.inl ⟨hi, he⟩), hid, hp⟩
  unpinned := h.unpinned

theorem dropKey_of_absent {key : α → Uuid} {rows : List α} (h : ∀ r ∈ rows, key r ≠ k) :
    dropKey key k rows = rows := by
  unfold dropKey
  rw [List.filter_eq_self]
  intro r hr
  exact decide_eq_true (h r hr)

theorem Sound.delete {id : Uuid} (h : Sound fibCount s) (hid : id ≠ defaultInstanceId)
    (hmembers : ∀ m ∈ s.members, m.instanceId ≠ id) :
    Sound fibCount { s with
      instances := dropKey (fun i => i.id) id s.instances
      members := dropKey InstanceMember.instanceId id s.members } := by
  rw [dropKey_of_absent hmembers]
  refine ⟨?_, ?_, h.single, ?_, h.unpinned⟩
  · obtain ⟨i, hi, he, hd⟩ := h.default
    refine ⟨i, mem_dropKey.mpr ⟨hi, ?_⟩, he, hd⟩
    rw [he]
    exact Ne.symm hid
  · intro i hi
    exact h.inRange i (mem_dropKey.mp hi).1
  · intro m hm
    obtain ⟨i, hi, he, hp⟩ := h.pinned m hm
    refine ⟨i, mem_dropKey.mpr ⟨hi, ?_⟩, he, hp⟩
    rw [he]
    exact hmembers m hm

theorem Sound.addMember {interface : List Char} (h : Sound fibCount s) (hi : inst ∈ s.instances) :
    Sound fibCount ({ s with members := dropKey InstanceMember.interface interface s.members ++
      [InstanceMember.mk inst.id interface] }.setInterfaceFib interface inst.fibNumber) where
  default := h.default
  inRange := h.inRange
  single := by
    intro m hm m' hm' he
    simp only [setInterfaceFib, List.mem_append, List.mem_singleton, mem_dropKey] at hm hm'
    rcases hm with ⟨hm, hne⟩ | rfl
    · rcases hm' with ⟨hm', -⟩ | rfl
      · exact h.single m hm m' hm' he
      · exact absurd he hne
    · rcases hm' with ⟨-, hne⟩ | rfl
      · exact absurd he.symm hne
      · rfl
  pinned := by
    intro m hm
    simp only [setInterfaceFib, List.mem_append, List.mem_singleton, mem_dropKey] at hm
    rcases hm with ⟨hm, hne⟩ | rfl
    · obtain ⟨i, hi, hid, hp⟩ := h.pinned m hm
      refine ⟨i, hi, hid, ?_⟩
      exact (Function.update_of_ne hne _ _).trans hp
    · exact ⟨inst, hi, rfl, Function.update_self _ _ _⟩
  unpinned := by
    intro iface hfree
    simp only [setInterfaceFib, List.mem_append, List.mem_singleton, mem_dropKey] at hfree
    have hne : iface ≠ interface := fun he => hfree ⟨inst.id, interface⟩ (.inr rfl) he.symm
    refine (Function.update_of_ne hne _ _).trans (h.unpinned iface ?_)
    intro m hm he
    exact hfree m (.inl ⟨hm, he ▸ hne⟩) he

/-- The interface that goes is not a member elsewhere, so FIB 0 is the right one for it. -/
theorem Sound.removeMember {interface : List Char} (h : Sound fibCount s) (hmember : ⟨instanceId, interface⟩ ∈ s.members) :
    Sound fibCount ({ s with members := dropKey id ⟨instanceId, interface⟩ s.members
      }.setInterfaceFib interface defaultFibNumber) := by
  have hother : ∀ m ∈ s.members, m ≠ ⟨instanceId, interface⟩ → m.interface ≠ interface := by
    intro m hm hne he
    apply hne
    have hid := h.single m hm _ hmember he
    obtain ⟨i, f⟩ := m
    rw [InstanceMember.mk.injEq]
    exact ⟨hid, he⟩
  refine ⟨h.default, h.inRange, ?_, ?_, ?_⟩
  · intro m hm m' hm'
    exact h.single m (mem_dropKey.mp hm).1 m' (mem_dropKey.mp hm').1
  · intro m hm
    obtain ⟨hm, hne⟩ := mem_dropKey.mp hm
    obtain ⟨i, hi, hid, hp⟩ := h.pinned m hm
    refine ⟨i, hi, hid, ?_⟩
    exact (Function.update_of_ne (hother m hm hne) _ _).trans hp
  · intro iface hfree
    by_cases he : iface = interface
    · rw [he]
      exact Function.update_self _ _ _
    · refine (Function.update_of_ne he _ _).trans (h.unpinned iface ?_)
      intro m hm hi
      refine hfree m (mem_dropKey.mpr ⟨hm, ?_⟩) hi
      rintro rfl
      exact he hi.symm

theorem Sound.call (h : Sound fibCount s) (hc : Careful fibCount s op)
    (hcall : s.call fibCount op = .ok s') : Sound fibCount s' := by
  cases op with
  | add inst =>
    obtain ⟨hfib, -, rfl⟩ := add_ok hcall
    exact h.add hfib
  | update inst =>
    obtain ⟨hfound, hfree, rfl⟩ := update_ok hcall
    obtain ⟨hfib, hdefault, hmembers⟩ := hc hfound hfree
    exact h.update hfound hfib hdefault hmembers
  | delete id =>
    obtain ⟨hid, rfl⟩ := delete_ok hcall
    exact h.delete hid (hc hid)
  | addMember instanceId interface =>
    obtain ⟨inst, hi, rfl, rfl⟩ := addMember_ok hcall
    exact h.addMember hi
  | removeMember instanceId interface =>
    obtain ⟨hm, rfl⟩ := removeMember_ok hcall
    exact h.removeMember hm

theorem Sound.step (h : Sound fibCount s) (hc : Careful fibCount s op) :
    Sound fibCount (s.step fibCount op) := by
  unfold InstanceStore.step
  cases hcall : s.call fibCount op with
  | ok s' => exact h.call hc hcall
  | error e => exact h

theorem migrate_sound (hfibs : 0 < fibCount) : Sound fibCount migrate where
  default := ⟨_, List.mem_singleton.mpr rfl, rfl, rfl, rfl⟩
  inRange := by
    intro i hi
    rw [List.mem_singleton.mp hi]
    exact hfibs
  single := by
    intro m hm
    cases hm
  pinned := by
    intro m hm
    cases hm
  unpinned := by
    intro iface _
    rfl

end

/-- The kernel has FIB 0 at least. -/
theorem sound_of_careful (fibCount : UInt32) (hfibs : 0 < fibCount) (ops past : List Op)
    (h : Along (step fibCount) (Careful fibCount) migrate ops) (hp : past <+: ops) :
    Sound fibCount (past.foldl (step fibCount) migrate) :=
  Along.reaches (Sound fibCount) (fun _ _ hs hc => hs.step hc) (migrate_sound hfibs) h hp

def wan2 : InstanceRow where
  id := 2
  fibNumber := 2
  name := "wan2".toList
  description := none
  mgmtReachable := false
  status := .idle

theorem sound_of_careful_attach :
    Along (step 4) (Careful 4) migrate
        [.add wan2, .addMember 2 "em1".toList, .removeMember 2 "em1".toList, .delete 2] ∧
      Sound 4 (([.add wan2, .addMember 2 "em1".toList] : List Op).foldl (step 4) migrate) := by
  have hops : Along (step 4) (Careful 4) migrate
      [.add wan2, .addMember 2 "em1".toList, .removeMember 2 "em1".toList, .delete 2] := by
    refine ⟨trivial, trivial, trivial, ?_, trivial⟩
    intro _ m hm
    cases hm
  refine ⟨hops, sound_of_careful 4 (by decide) _ _ hops ⟨_, rfl⟩⟩

/-- The interface keeps FIB 2 after its instance is gone, and an update gives the default instance a
FIB the kernel does not have. -/
theorem sound_careless_false :
    ¬ Sound 4 (([.add wan2, .addMember 2 "em1".toList, .delete 2] : List Op).foldl (step 4)
        migrate) ∧
      ¬ Sound 4 (([.update { wan2 with id := defaultInstanceId, fibNumber := 9 }] : List Op).foldl
        (step 4) migrate) := by
  constructor
  · intro h
    have hfib := h.unpinned "em1".toList fun m hm => by cases hm
    cases hfib
  · intro h
    have hrange := h.inRange _ (List.mem_singleton.mpr rfl)
    revert hrange
    decide

end InstanceStore

/-- A failed call: an error of the database or of pf. -/
inductive MemberError where
  | database (e : AifwError)
  | pf
deriving DecidableEq, Repr

/-- Which of the statements of one call fail: the two of the table, the query before them, and the
call into the kernel after them. -/
structure MemberFaults where
  get : Bool := false
  delete : Bool := false
  insert : Bool := false
  setInterfaceFib : Bool := false
deriving DecidableEq, Repr

namespace InstanceStore

/-- `add_member` statement by statement, none of them in a transaction. -/
def attach (f : MemberFaults) (s : InstanceStore) (instanceId : Uuid) (interface : List Char) :
    Except MemberError InstanceMember × InstanceStore :=
  if f.get then (.error (.database .database), s)
  else
    match s.get instanceId with
    | .error e => (.error (.database e), s)
    | .ok inst =>
      if f.delete then (.error (.database .database), s)
      else
        let s := { s with members := dropKey InstanceMember.interface interface s.members }
        if f.insert then (.error (.database .database), s)
        else
          let s := { s with members := s.members ++ [InstanceMember.mk instanceId interface] }
          if f.setInterfaceFib then (.error .pf, s)
          else (.ok ⟨instanceId, interface⟩, s.setInterfaceFib interface inst.fibNumber)

/-- Where nothing fails, the call is the one whose instance is found and attached. -/
theorem attach_sound (s : InstanceStore) (instanceId : Uuid) (interface : List Char) :
    s.attach {} instanceId interface =
      match s.addMember instanceId interface with
      | .ok s' => (.ok ⟨instanceId, interface⟩, s')
      | .error e => (.error (.database e), s) := by
  unfold attach addMember
  cases s.get instanceId <;> rfl

/-- A failed call leaves the table of members with the rows it had. -/
def KeepsMembers (s : InstanceStore) (r : Except MemberError InstanceMember × InstanceStore) :
    Prop :=
  ∀ e, r.1 = .error e → r.2.members.Perm s.members

/-- The rows of an interface, of which a call deletes all. -/
def membersOf (s : InstanceStore) (interface : List Char) : List InstanceMember :=
  s.members.filter fun m => m.interface = interface

/-- The statement that fails comes before the delete, or finds no other row than it leaves: none
if the insert fails, the new row alone if the kernel refuses the FIB. -/
def NothingLost (f : MemberFaults) (s : InstanceStore) (instanceId : Uuid)
    (interface : List Char) : Prop :=
  f.get = true ∨ (∀ inst, s.get instanceId ≠ .ok inst) ∨ f.delete = true ∨
    (f.insert = true → s.membersOf interface = []) ∧
      (f.insert = false → f.setInterfaceFib = true →
        s.membersOf interface = [⟨instanceId, interface⟩])

theorem members_split (s : InstanceStore) (interface : List Char) :
    (dropKey InstanceMember.interface interface s.members ++ s.membersOf interface).Perm
      s.members := by
  have hsplit := List.filter_append_perm (fun m : InstanceMember => m.interface = interface)
    s.members
  refine List.perm_append_comm.trans (.trans (.of_eq ?_) hsplit)
  congr 1
  apply List.filter_congr
  intro m _
  rw [← decide_not]

theorem dropped_perm_iff (s : InstanceStore) (interface : List Char) (rows : List InstanceMember) :
    (dropKey InstanceMember.interface interface s.members ++ rows).Perm s.members ↔
      rows.Perm (s.membersOf interface) := by
  have hsplit := s.members_split interface
  constructor
  · intro h
    exact (List.perm_append_left_iff _).mp (h.trans hsplit.symm)
  · intro h
    exact ((List.perm_append_left_iff _).mpr h).trans hsplit

/-- The table survives a failed call exactly when nothing was lost before the failure. -/
theorem attach_keepsMembers_iff (f : MemberFaults) (s : InstanceStore) (instanceId : Uuid)
    (interface : List Char) :
    s.KeepsMembers (s.attach f instanceId interface) ↔ s.NothingLost f instanceId interface := by
  unfold attach NothingLost
  cases hget : f.get with
  | true => exact iff_of_true (fun _ _ => .refl _) (.inl rfl)
  | false =>
    cases hinst : s.get instanceId with
    | error e =>
      refine iff_of_true (fun _ _ => .refl _) (.inr (.inl ?_))
      intro i hi
      cases hi
    | ok inst =>
      cases hdelete : f.delete with
      | true => exact iff_of_true (fun _ _ => .refl _) (.inr (.inr (.inl rfl)))
      | false =>
        have hfound : ¬ ∀ i, Except.ok inst ≠ (.ok i : Except AifwError InstanceRow) :=
          fun h => h inst rfl
        cases hinsert : f.insert with
        | true =>
          simp only [KeepsMembers, Bool.false_eq_true, if_false, if_true, hfound, false_or,
            true_implies, reduceCtorEq, false_implies, and_true, forall_eq', Except.error.injEq]
          have hlost := s.dropped_perm_iff interface []
          rw [List.append_nil, List.nil_perm] at hlost
          exact hlost
        | false =>
          cases hfib : f.setInterfaceFib with
          | true =>
            simp only [KeepsMembers, Bool.false_eq_true, if_false, if_true, hfound, false_or,
              true_implies, false_implies, true_and, forall_eq', Except.error.injEq]
            rw [s.dropped_perm_iff interface, List.singleton_perm, eq_comm]
          | false =>
            refine iff_of_true ?_ (.inr (.inr (.inr ⟨?_, ?_⟩)))
            · intro e he
              cases he
            · exact fun hinserted => absurd hinserted Bool.false_ne_true
            · exact fun _ hrefused => absurd hrefused Bool.false_ne_true

/-- The interface is in one instance, and the kernel refuses the FIB of the other. -/
def attached : InstanceStore :=
  { migrate with
    instances := migrate.instances ++ [wan2]
    members := [⟨defaultInstanceId, "em1".toList⟩] }

theorem refused_fib_moves_member :
    ¬ ∀ f s instanceId interface, KeepsMembers s (s.attach f instanceId interface) := by
  intro h
  have hkept := h { setInterfaceFib := true } attached 2 "em1".toList .pf rfl
  have hrow : (⟨2, "em1".toList⟩ : InstanceMember) ∈ attached.members := by
    apply hkept.mem_iff.mp
    exact List.mem_singleton.mpr rfl
  have hid := congrArg InstanceMember.instanceId (List.mem_singleton.mp hrow)
  exact absurd hid (by decide)

end InstanceStore

end AiFw.Wan
