import AiFw.Lib.Runs
import AiFw.Lib.Table
import AiFw.Pf.Types
import AiFw.Wan.Policy

namespace AiFw.Ha
open AiFw.Net AiFw.Wan AiFw.Lib
set_option autoImplicit true

inductive CarpLatencyProfile where
  | conservative
  | tight
  | aggressive
deriving DecidableEq, Repr

inductive CarpStatus where
  | master
  | backup
  | init
  | disabled
deriving DecidableEq, Repr

/-- A virtual IP, as its row reads back; the times are kept as their texts. -/
structure CarpVip where
  id : Uuid
  vhid : UInt8
  virtualIp : IpAddr
  plen : UInt8
  interface : List Char
  password : List Char
  status : CarpStatus
  createdAt : List Char
  updatedAt : List Char
deriving DecidableEq, Repr

def CarpVip.toPfRules (vip : CarpVip) : List (List Char) :=
  ["pass quick proto carp keep state label \"carp-vhid-".toList ++
    Nat.toDigits 10 vip.vhid.toNat ++ ['"']]

structure PfsyncConfig where
  id : Uuid
  syncInterface : List Char
  syncPeer : Option IpAddr
  defer : Bool
  enabled : Bool
  latencyProfile : CarpLatencyProfile
  heartbeatIface : Option (List Char)
  heartbeatIntervalMs : Option UInt32
  dhcpLink : Bool
  createdAt : List Char
deriving DecidableEq, Repr

def PfsyncConfig.peerRule (peer : IpAddr) : List Char :=
  "pass quick proto pfsync from ".toList ++ peer.display ++
    " keep state label \"pfsync-peer\"".toList

def PfsyncConfig.toPfRules (config : PfsyncConfig) : List (List Char) :=
  if !config.enabled then []
  else
    ("pass on ".toList ++ config.syncInterface ++
        " proto pfsync keep state label \"pfsync\"".toList) ::
      (config.syncPeer.map peerRule).toList

inductive ClusterRole where
  | primary
  | secondary
  | standalone
deriving DecidableEq, Repr

inductive NodeHealth where
  | healthy
  | degraded
  | unreachable
  | unknown
deriving DecidableEq, Repr

/-- A peer, with the columns of its row that the record itself does not have. -/
structure ClusterNode where
  id : Uuid
  name : List Char
  address : IpAddr
  role : ClusterRole
  health : NodeHealth
  lastSeen : List Char
  configVersion : UInt64
  createdAt : List Char
  softwareVersion : Option (List Char)
  lastPushedCertAt : Option (List Char)
  peerApiKey : Option (List Char)
  peerApiKeyHash : Option (List Char)
deriving DecidableEq, Repr

/-- The text of a database error is left to the database. -/
inductive AifwError where
  | validation (text : List Char)
  | notFound (text : List Char)
  | database
  | pf (text : List Char)
deriving DecidableEq, Repr

/-- The tables of the cluster engine in the order of their rowids, and the `aifw-ha` anchor of
pf. -/
structure ClusterStore where
  carpVips : List CarpVip
  pfsyncConfig : List PfsyncConfig
  clusterNodes : List ClusterNode
  anchor : List (List Char)

namespace ClusterStore

def empty : ClusterStore := ⟨[], [], [], []⟩

def validateVip (vip : CarpVip) : Except AifwError Unit :=
  if vip.vhid = 0 then .error (.validation "VHID must be > 0".toList)
  else if vip.password = [] then .error (.validation "CARP password required".toList)
  else .ok ()

def addCarpVip (s : ClusterStore) (vip : CarpVip) : Except AifwError ClusterStore := do
  validateVip vip
  if hasKey CarpVip.id vip.id s.carpVips then throw .database
  return { s with carpVips := s.carpVips ++ [vip] }

def listCarpVips (s : ClusterStore) : List CarpVip :=
  s.carpVips.mergeSort fun a b => a.vhid ≤ b.vhid

def vipNotFound (id : Uuid) : AifwError :=
  .notFound ("CARP VIP ".toList ++ displayUuid id ++ " not found".toList)

/-- An update is not validated. -/
def updateCarpVip (s : ClusterStore) (now : List Char) (vip : CarpVip) :
    Except AifwError ClusterStore := do
  if hasKey CarpVip.id vip.id s.carpVips = false then throw (vipNotFound vip.id)
  return { s with
    carpVips := s.carpVips.map fun row =>
      if row.id = vip.id then { vip with createdAt := row.createdAt, updatedAt := now } else row }

def deleteCarpVip (s : ClusterStore) (id : Uuid) : Except AifwError ClusterStore := do
  if hasKey CarpVip.id id s.carpVips = false then throw (vipNotFound id)
  return { s with carpVips := dropKey CarpVip.id id s.carpVips }

def setPfsync (s : ClusterStore) (config : PfsyncConfig) : ClusterStore :=
  { s with pfsyncConfig := [config] }

def getPfsync (s : ClusterStore) : Option PfsyncConfig := s.pfsyncConfig.head?

/-- The columns an INSERT does not name are null. -/
def addNode (s : ClusterStore) (node : ClusterNode) : Except AifwError ClusterStore := do
  if node.name = [] then throw (.validation "node name required".toList)
  if hasKey ClusterNode.id node.id s.clusterNodes ||
    hasKey ClusterNode.name node.name s.clusterNodes then throw .database
  let row := { node with
    softwareVersion := none
    lastPushedCertAt := none
    peerApiKey := none
    peerApiKeyHash := none }
  return { s with clusterNodes := s.clusterNodes ++ [row] }

def haRules (s : ClusterStore) : List (List Char) :=
  s.listCarpVips.flatMap CarpVip.toPfRules ++ (s.getPfsync.map PfsyncConfig.toPfRules).getD []

/-- The anchor is loaded only where there is a rule to load; `answer` is what pf says to it. -/
def applyHaRules (s : ClusterStore) (answer : Except (List Char) Unit) :
    Except AifwError ClusterStore :=
  if s.haRules = [] then .ok s
  else
    match answer with
    | .ok () => .ok { s with anchor := s.haRules }
    | .error text => .error (.pf text)

inductive HaCall where
  | addCarpVip (vip : CarpVip)
  | updateCarpVip (now : List Char) (vip : CarpVip)
  | deleteCarpVip (id : Uuid)
  | setPfsync (config : PfsyncConfig)
  | applyHaRules (answer : Except (List Char) Unit)

def call (s : ClusterStore) : HaCall → Except AifwError ClusterStore
  | .addCarpVip vip => s.addCarpVip vip
  | .updateCarpVip now vip => s.updateCarpVip now vip
  | .deleteCarpVip id => s.deleteCarpVip id
  | .setPfsync config => .ok (s.setPfsync config)
  | .applyHaRules answer => s.applyHaRules answer

/-- A call that fails leaves the tables and the anchor alone. -/
def step (s : ClusterStore) (c : HaCall) : ClusterStore :=
  match s.call c with
  | .ok s' => s'
  | .error _ => s

/-- Right after an apply that goes through, the anchor holds the rules of what is stored. -/
def Mirrors (s : ClusterStore) (c : HaCall) : Prop :=
  ∀ answer s', c = .applyHaRules answer → s.call c = .ok s' → s'.anchor = s'.haRules

/-- An apply finds something to render, or nothing loaded. -/
def RendersOrClear (s : ClusterStore) (c : HaCall) : Prop :=
  ∀ answer, c = .applyHaRules answer →
    s.carpVips ≠ [] ∨ (∃ config, s.getPfsync = some config ∧ config.enabled = true) ∨ s.anchor = []

variable {s : ClusterStore}

theorem toPfRules_eq_nil {config : PfsyncConfig} : config.toPfRules = [] ↔ config.enabled = false := by
  unfold PfsyncConfig.toPfRules
  cases config.enabled with
  | false => exact iff_of_true rfl rfl
  | true => exact iff_of_false (fun h => nomatch h) fun h => nomatch h

theorem haRules_eq_nil :
    s.haRules = [] ↔ s.carpVips = [] ∧ ∀ config, s.getPfsync = some config → config.enabled = false := by
  have hvips : s.listCarpVips.flatMap CarpVip.toPfRules = [] ↔ s.carpVips = [] := by
    rw [List.flatMap_eq_nil_iff]
    constructor
    · intro h
      apply List.eq_nil_iff_forall_not_mem.mpr
      intro vip hvip
      cases h vip (List.mem_mergeSort.mpr hvip)
    · intro h vip hvip
      rw [listCarpVips, List.mem_mergeSort, h] at hvip
      cases hvip
  rw [haRules, List.append_eq_nil_iff, hvips]
  apply and_congr_right
  intro _
  cases s.getPfsync with
  | none => exact iff_of_true rfl fun _ h => nomatch h
  | some config =>
    rw [Option.map_some, Option.getD_some, toPfRules_eq_nil]
    exact ⟨fun h config' he => Option.some.inj he ▸ h, fun h => h config rfl⟩

theorem applyHaRules_ok (h : s.applyHaRules answer = .ok s') :
    s.haRules = [] ∧ s' = s ∨ s.haRules ≠ [] ∧ s' = { s with anchor := s.haRules } := by
  unfold applyHaRules at h
  by_cases hnil : s.haRules = []
  · rw [if_pos hnil] at h
    exact .inl ⟨hnil, (Except.ok.inj h).symm⟩
  · rw [if_neg hnil] at h
    cases answer with
    | error text => cases h
    | ok _ => exact .inr ⟨hnil, (Except.ok.inj h).symm⟩

theorem mirrors_iff (s : ClusterStore) (c : HaCall) (hok : ∃ s', s.call c = .ok s') :
    s.Mirrors c ↔ s.RendersOrClear c := by
  have hrenders : s.haRules ≠ [] ↔
      s.carpVips ≠ [] ∨ ∃ config, s.getPfsync = some config ∧ config.enabled = true := by
    simp only [ne_eq, haRules_eq_nil, not_and_or, not_forall, Bool.not_eq_false, exists_prop]
  constructor
  · rintro h answer rfl
    obtain ⟨s', hs'⟩ := hok
    have hanchor := h answer s' rfl hs'
    rw [← or_assoc, ← hrenders]
    obtain ⟨hnil, rfl⟩ | ⟨hne, -⟩ := applyHaRules_ok hs'
    · exact .inr (hanchor.trans hnil)
    · exact .inl hne
  · rintro h answer s' rfl hs'
    obtain ⟨hnil, rfl⟩ | ⟨-, rfl⟩ := applyHaRules_ok hs'
    · have hclear := h answer rfl
      rw [← or_assoc, ← hrenders] at hclear
      obtain hne | hclear := hclear
      · exact absurd hnil hne
      · exact hclear.trans hnil.symm
    · rfl

/-- In every run of calls that succeed, the anchor mirrors the tables after every apply exactly if
no apply that finds nothing to render finds rules loaded. -/
theorem anchor_mirrors_iff (s : ClusterStore) (calls : List HaCall)
    (hok : Along step (fun s c => ∃ s', s.call c = .ok s') s calls) :
    Along step Mirrors s calls ↔ Along step RendersOrClear s calls := by
  induction calls generalizing s with
  | nil => rfl
  | cons c calls ih => exact and_congr (mirrors_iff s c hok.1) (ih (s.step c) hok.2)

def sampleVip : CarpVip where
  id := 1
  vhid := 7
  virtualIp := .v4 0xC0000201
  plen := 24
  interface := "em0".toList
  password := "secret".toList
  status := .init
  createdAt := "2026-01-01T00:00:00+00:00".toList
  updatedAt := "2026-01-01T00:00:00+00:00".toList

def samplePfsync : PfsyncConfig where
  id := 2
  syncInterface := "em1".toList
  syncPeer := none
  defer := true
  enabled := true
  latencyProfile := .conservative
  heartbeatIface := none
  heartbeatIntervalMs := none
  dhcpLink := false
  createdAt := "2026-01-01T00:00:00+00:00".toList

theorem applyHaRules_of_ne (h : s.haRules ≠ []) :
    s.call (.applyHaRules (.ok ())) = .ok { s with anchor := s.haRules } := if_neg h

theorem applyHaRules_of_nil (h : s.haRules = []) : s.call (.applyHaRules answer) = .ok s := if_pos h

theorem step_of_ok (h : s.call c = .ok s') : s.step c = s' := by
  rw [step, h]

def onlyVip : ClusterStore := ⟨[sampleVip], [], [], []⟩

theorem haRules_onlyVip : onlyVip.haRules = sampleVip.toPfRules := by
  simp only [haRules, listCarpVips, onlyVip, List.mergeSort_singleton, List.flatMap_cons,
    List.flatMap_nil, getPfsync, List.head?_nil, Option.map_none, Option.getD_none, List.append_nil]

def vipLoaded : ClusterStore := { onlyVip with anchor := sampleVip.toPfRules }

theorem onlyVip_applied : onlyVip.call (.applyHaRules (.ok ())) = .ok vipLoaded := by
  have hne : onlyVip.haRules ≠ [] := by
    rw [haRules_onlyVip]
    exact fun h => nomatch h
  rw [applyHaRules_of_ne hne, haRules_onlyVip, vipLoaded]

/-- A VIP is loaded, and deleted while pfsync is on. -/
def vipReplaced : List HaCall :=
  [.addCarpVip sampleVip, .applyHaRules (.ok ()), .setPfsync samplePfsync, .deleteCarpVip 1,
    .applyHaRules (.ok ())]

theorem anchor_mirrors_vipReplaced : Along step Mirrors empty vipReplaced := by
  have hloaded : (empty.step (.addCarpVip sampleVip)).step (.applyHaRules (.ok ())) = vipLoaded :=
    step_of_ok onlyVip_applied
  have hpfsync : (⟨[], [samplePfsync], [], vipLoaded.anchor⟩ : ClusterStore).haRules ≠ [] := by
    intro hnil
    cases (haRules_eq_nil.mp hnil).2 samplePfsync rfl
  have hok : Along step (fun s c => ∃ s', s.call c = .ok s') empty vipReplaced := by
    refine ⟨⟨onlyVip, rfl⟩, ⟨vipLoaded, onlyVip_applied⟩, ?_⟩
    rw [hloaded]
    exact ⟨⟨_, rfl⟩, ⟨_, rfl⟩, ⟨_, applyHaRules_of_ne hpfsync⟩, trivial⟩
  apply (anchor_mirrors_iff empty _ hok).mpr
  refine ⟨nofun, fun _ _ => .inl (List.cons_ne_nil _ _), ?_⟩
  rw [hloaded]
  refine ⟨nofun, nofun, ?_, trivial⟩
  intro _ _
  exact .inr (.inl ⟨samplePfsync, rfl, rfl⟩)

/-- The tables are empty, the rule of the deleted VIP is loaded. -/
def vipDeleted : ClusterStore := ⟨[], [], [], sampleVip.toPfRules⟩

/-- The rule of the only VIP stays loaded after the VIP is deleted and the rules are applied
again. -/
theorem deleted_vip_loaded :
    [HaCall.addCarpVip sampleVip, .applyHaRules (.ok ()), .deleteCarpVip 1,
        .applyHaRules (.ok ())].foldlM call empty = .ok vipDeleted ∧
      vipDeleted.anchor = ["pass quick proto carp keep state label \"carp-vhid-7\"".toList] ∧
      vipDeleted.anchor ≠ vipDeleted.haRules := by
  have hnil : vipDeleted.haRules = [] := haRules_eq_nil.mpr ⟨rfl, fun _ h => nomatch h⟩
  refine ⟨?_, by decide, ?_⟩
  · calc [HaCall.addCarpVip sampleVip, .applyHaRules (.ok ()), .deleteCarpVip 1,
          .applyHaRules (.ok ())].foldlM call empty
        = onlyVip.call (.applyHaRules (.ok ())) >>= fun s =>
            [HaCall.deleteCarpVip 1, .applyHaRules (.ok ())].foldlM call s := rfl
      _ = vipDeleted.call (.applyHaRules (.ok ())) >>= pure := by
        rw [onlyVip_applied]
        rfl
      _ = .ok vipDeleted := by
        rw [applyHaRules_of_nil hnil]
        rfl
  · rw [hnil]
    exact fun h => nomatch h

end ClusterStore

end AiFw.Ha
