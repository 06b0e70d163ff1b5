import AiFw.Backup.RowsBack

namespace AiFw.Backup
open AiFw.Lib AiFw.Net AiFw.Pf AiFw.Ha
open AiFw.Wan (Uuid displayUuid)
open AiFw.Aliases (Alias AliasType)
set_option autoImplicit true

variable {env : ApplyEnv DateTime} {chrono : Rfc3339 DateTime} {s : AppState}
  {config : FirewallConfig F DateTime} {now : List Char}

theorem addCarpVip_ok_iff {store : ClusterStore} :
    keeping ClusterStore.addCarpVip store v = .ok store' ↔
      (ClusterStore.validateVip v = .ok () ∧ ∀ q ∈ store.carpVips, q.id ≠ v.id) ∧
        store' = { store with carpVips := store.carpVips ++ [v] } := by
  rw [keeping_ok, ClusterStore.addCarpVip, andThen_ok, and_assoc]
  apply and_congr_right
  intro _
  rw [← hasKey_eq_false]
  cases hasKey CarpVip.id v.id store.carpVips with
  | true => exact ⟨nofun, nofun⟩
  | false =>
    constructor
    · intro h
      cases h
      exact ⟨rfl, rfl⟩
    · rintro ⟨-, rfl⟩
      rfl

theorem inserts_addCarpVip :
    Inserts ClusterStore.carpVips id (fun v => ClusterStore.validateVip v = .ok ())
      (fun q v => q.id = v.id) (keeping ClusterStore.addCarpVip) where
  grows store v store' h := by
    obtain ⟨-, rfl⟩ := addCarpVip_ok_iff.mp h
    rfl
  taken_iff store v := by
    constructor
    · rintro ⟨store', h⟩
      exact (addCarpVip_ok_iff.mp h).1
    · intro h
      exact ⟨_, addCarpVip_ok_iff.mpr ⟨h, rfl⟩⟩

/-- The row of a node that is added. -/
def nodeInserted (n : ClusterNode) : ClusterNode :=
  { n with
      softwareVersion := none
      lastPushedCertAt := none
      peerApiKey := none
      peerApiKeyHash := none }

theorem addNode_ok_iff {store : ClusterStore} :
    keeping ClusterStore.addNode store n = .ok store' ↔
      (n.name ≠ [] ∧ ∀ q ∈ store.clusterNodes, ¬(q.id = n.id ∨ q.name = n.name)) ∧
        store' = { store with clusterNodes := store.clusterNodes ++ [nodeInserted n] } := by
  have hkeys : (hasKey ClusterNode.id n.id store.clusterNodes ||
      hasKey ClusterNode.name n.name store.clusterNodes) = false ↔
        ∀ q ∈ store.clusterNodes, ¬(q.id = n.id ∨ q.name = n.name) := by
    rw [Bool.or_eq_false_iff, hasKey_eq_false, hasKey_eq_false, ← forall₂_and]
    simp only [not_or]
  rw [keeping_ok, ← hkeys]
  unfold ClusterStore.addNode
  by_cases hname : n.name = []
  · rw [if_pos hname]
    constructor
    · intro h
      cases h
    · rintro ⟨⟨hne, -⟩, -⟩
      exact absurd hname hne
  · rw [if_neg hname]
    cases hasKey ClusterNode.id n.id store.clusterNodes ||
        hasKey ClusterNode.name n.name store.clusterNodes with
    | true =>
      constructor
      · intro h
        cases h
      · rintro ⟨⟨-, hfalse⟩, -⟩
        cases hfalse
    | false =>
      constructor
      · intro h
        cases h
        exact ⟨⟨hname, rfl⟩, rfl⟩
      · rintro ⟨-, rfl⟩
        rfl

theorem inserts_addNode :
    Inserts ClusterStore.clusterNodes nodeInserted (fun n => n.name ≠ [])
      (fun q n => q.id = n.id ∨ q.name = n.name) (keeping ClusterStore.addNode) where
  grows store n store' h := by
    obtain ⟨-, rfl⟩ := addNode_ok_iff.mp h
    rfl
  taken_iff store n := by
    constructor
    · rintro ⟨store', h⟩
      exact (addNode_ok_iff.mp h).1
    · intro h
      exact ⟨_, addNode_ok_iff.mpr ⟨h, rfl⟩⟩

theorem carpVips_back (now : List Char) (rows : List CarpVip) :
    ComesBack (readCarpVip now .new) carpVipConfig (vipRestored now) CarpVip.id vipSettled rows where
  read v _ := readCarpVip_config v
  keeps _ := rfl
  tells v v' h := by
    have hid := congrArg CarpVip.id h
    exact hid

theorem clusterNodes_back (now : List Char) (rows : List ClusterNode) :
    ComesBack (clusterNodeFromConfig now) clusterNodeConfig (nodeRestored now) ClusterNode.id
      nodeSettled rows where
  read n _ := clusterNodeFromConfig_config n
  keeps _ := rfl
  tells n n' h := by
    have hid := congrArg ClusterNode.id h
    exact hid

/-- The one row of pfsync that is exported, as it comes back. -/
theorem pfsync_back (id : Uuid) (rows : List PfsyncConfig) :
    (rows.head?.map pfsyncEntry).bind (readPfsync now .new id) =
      rows.head?.map (pfsyncRestored now id) := by
  cases rows with
  | nil => rfl
  | cons p rows => exact readPfsync_entry id p

theorem pfsyncRows_iff (now : List Char) (id : Uuid) {rows : List PfsyncConfig}
    (h : rows.length ≤ 1) :
    (((rows.head?.map (pfsyncRestored now id)).toList).map pfsyncTimeless).Perm
        (rows.map pfsyncTimeless) ↔ ∀ p ∈ rows, PfsyncPlain id p := by
  cases rows with
  | nil => exact ⟨fun _ => List.forall_mem_nil _, fun _ => .refl _⟩
  | cons p rows =>
    have hnil : rows = [] := List.length_eq_zero_iff.mp (Nat.le_zero.mp (Nat.le_of_succ_le_succ h))
    subst hnil
    rw [List.forall_mem_singleton]
    have hrow : pfsyncTimeless (pfsyncRestored now id p) = pfsyncTimeless p ↔ PfsyncPlain id p :=
      pfsyncRestored_iff id p
    rw [← hrow]
    exact List.perm_singleton.trans ⟨fun h => (List.cons.inj h).1, fun h => congrArg ([·]) h⟩

variable {store : ClusterStore}

theorem setPfsync_rows (store : ClusterStore) (h : store.pfsyncConfig = [])
    (p : Option PfsyncConfig) : (setPfsync store p).pfsyncConfig = p.toList := by
  cases p with
  | none => exact h
  | some p => rfl

theorem setPfsync_carpVips (store : ClusterStore) (p : Option PfsyncConfig) :
    (setPfsync store p).carpVips = store.carpVips := by
  cases p <;> rfl

theorem setPfsync_clusterNodes (store : ClusterStore) (p : Option PfsyncConfig) :
    (setPfsync store p).clusterNodes = store.clusterNodes := by
  cases p <;> rfl

theorem vips_frame {read : ε → Option CarpVip}
    (h : reload read (keeping ClusterStore.addCarpVip) store entries = .ok store') :
    store'.pfsyncConfig = store.pfsyncConfig ∧ store'.clusterNodes = store.clusterNodes := by
  constructor
  · apply reload_frame _ h
    intro store v store' hadd
    obtain ⟨-, rfl⟩ := addCarpVip_ok_iff.mp hadd
    rfl
  · apply reload_frame _ h
    intro store v store' hadd
    obtain ⟨-, rfl⟩ := addCarpVip_ok_iff.mp hadd
    rfl

theorem nodes_frame {read : ε → Option ClusterNode}
    (h : reload read (keeping ClusterStore.addNode) store entries = .ok store') :
    store'.carpVips = store.carpVips ∧ store'.pfsyncConfig = store.pfsyncConfig := by
  constructor
  · apply reload_frame _ h
    intro store n store' hadd
    obtain ⟨-, rfl⟩ := addNode_ok_iff.mp hadd
    rfl
  · apply reload_frame _ h
    intro store n store' hadd
    obtain ⟨-, rfl⟩ := addNode_ok_iff.mp hadd
    rfl

/-- The sections of the cluster are those of the node. -/
structure HaExported (s : AppState) (ha : HaConfig) : Prop where
  carpVips : ha.carpVips = (orderByInt (fun v => v.vhid.toNat) s.carpVips).map carpVipConfig
  pfsync : ha.pfsync = s.pfsyncConfig.head?.map pfsyncEntry
  nodes : ha.nodes = (orderByText (fun n => n.name) s.clusterNodes).map clusterNodeConfig

def AppState.vipsRestored (s : AppState) (now : List Char) : List CarpVip :=
  (orderByInt (fun v => v.vhid.toNat) s.carpVips).map (vipRestored now)

def AppState.nodesRestored (s : AppState) (now : List Char) : List ClusterNode :=
  (orderByText (fun n => n.name) s.clusterNodes).map (nodeRestored now)

theorem vipsRestored_eq (h : HaExported s config.ha) (now : List Char) :
    config.ha.carpVips.filterMap (readCarpVip now .new) = s.vipsRestored now := by
  rw [h.carpVips]
  exact (carpVips_back now s.carpVips).filterMap (orderByInt_perm _ _)

theorem nodesRestored_eq (h : HaExported s config.ha) (now : List Char) :
    config.ha.nodes.filterMap (clusterNodeFromConfig now) = s.nodesRestored now := by
  rw [h.nodes]
  exact (clusterNodes_back now s.clusterNodes).filterMap (orderByText_perm _ _)

/-- The virtual IPs and the nodes can be added as they come back. -/
structure HaFits (s : AppState) (now : List Char) : Prop where
  carpVips : Fits id (fun v => ClusterStore.validateVip v = .ok ()) (fun q v => q.id = v.id) []
    (s.vipsRestored now)
  clusterNodes : Fits id (fun n : ClusterNode => n.name ≠ [])
    (fun q n => q.id = n.id ∨ q.name = n.name) [] (s.nodesRestored now)

theorem reload_vips_iff (h : HaExported s config.ha) (now : List Char) :
    (∃ store, reload (readCarpVip now .new) (keeping ClusterStore.addCarpVip) .empty
        config.ha.carpVips = .ok store) ↔
      Fits id (fun v => ClusterStore.validateVip v = .ok ()) (fun q v => q.id = v.id) []
        (s.vipsRestored now) := by
  rw [← vipsRestored_eq h]
  exact reload_ok_iff inserts_addCarpVip

theorem reload_nodes_iff (h : HaExported s config.ha) (now : List Char)
    (hempty : store.clusterNodes = []) :
    (∃ store', reload (clusterNodeFromConfig now) (keeping ClusterStore.addNode) store
        config.ha.nodes = .ok store') ↔
      Fits id (fun n : ClusterNode => n.name ≠ []) (fun q n => q.id = n.id ∨ q.name = n.name) []
        (s.nodesRestored now) := by
  rw [← nodesRestored_eq h, reload_ok_iff inserts_addNode, hempty]
  constructor
  · intro hfits
    exact ⟨hfits.checked, hfits.free, hfits.apart⟩
  · intro hfits
    exact ⟨hfits.checked, hfits.free, hfits.apart⟩

/-- The section of the cluster is reloaded exactly if its virtual IPs and nodes fit. -/
theorem restoreHa_ok_iff (h : HaExported s config.ha) :
    (∃ store, restoreHa env chrono .new config = .ok store) ↔ HaFits s (env.nowText chrono) := by
  have hnone (vips : ClusterStore) (p : Option PfsyncConfig)
      (hvips : reload (readCarpVip (env.nowText chrono) .new) (keeping ClusterStore.addCarpVip)
        .empty config.ha.carpVips = .ok vips) : (setPfsync vips p).clusterNodes = [] :=
    (setPfsync_clusterNodes vips p).trans (vips_frame hvips).2
  constructor
  · rintro ⟨store, hok⟩
    obtain ⟨vips, hvips, hnodes⟩ := bind_ok.mp hok
    exact ⟨(reload_vips_iff h _).mp ⟨vips, hvips⟩,
      (reload_nodes_iff h _ (hnone vips _ hvips)).mp ⟨store, hnodes⟩⟩
  · rintro ⟨hvipsFit, hnodesFit⟩
    obtain ⟨vips, hvips⟩ := (reload_vips_iff h _).mpr hvipsFit
    obtain ⟨store, hnodes⟩ := (reload_nodes_iff h _ (hnone vips _ hvips)).mpr hnodesFit
    exact ⟨store, bind_ok.mpr ⟨vips, hvips, hnodes⟩⟩

/-- The rows that a reload of the section leaves. -/
theorem rows_of_restoreHa (h : HaExported s config.ha)
    (hok : restoreHa env chrono .new config = .ok store) :
    store.carpVips = s.vipsRestored (env.nowText chrono) ∧
      store.pfsyncConfig =
        (s.pfsyncConfig.head?.map (pfsyncRestored (env.nowText chrono) env.pfsyncId)).toList ∧
      store.clusterNodes = s.nodesRestored (env.nowText chrono) := by
  obtain ⟨vips, hvips, hnodes⟩ := bind_ok.mp hok
  obtain ⟨hkeepsVips, hkeepsPfsync⟩ := nodes_frame hnodes
  obtain ⟨hpfsync, hnone⟩ := vips_frame hvips
  have hvipRows := rows_of_reload inserts_addCarpVip hvips
  have hnodeRows := rows_of_reload inserts_addNode hnodes
  refine ⟨?_, ?_, ?_⟩
  · rw [hkeepsVips, setPfsync_carpVips, hvipRows, vipsRestored_eq h, List.map_id]
    rfl
  · rw [hkeepsPfsync, setPfsync_rows vips hpfsync, h.pfsync, pfsync_back]
  · rw [hnodeRows, nodesRestored_eq h, setPfsync_clusterNodes, hnone]
    change (s.nodesRestored (env.nowText chrono)).map nodeInserted = _
    rw [AppState.nodesRestored, List.map_map]
    rfl

/-- The tables of the cluster engine are those of the node, up to the times and the states. -/
structure HaKept (s : AppState) (store : ClusterStore) : Prop where
  carpVips : (store.carpVips.map vipSettled).Perm (s.carpVips.map vipSettled)
  pfsyncConfig : (store.pfsyncConfig.map pfsyncTimeless).Perm (s.pfsyncConfig.map pfsyncTimeless)
  clusterNodes : (store.clusterNodes.map nodeSettled).Perm (s.clusterNodes.map nodeSettled)

theorem haFits_iff (hs : s.Stored chrono) (now : List Char) :
    HaFits s now ↔ (∀ v ∈ s.carpVips, ClusterStore.validateVip v = .ok ()) ∧
      ∀ n ∈ s.clusterNodes, n.name ≠ [] := by
  have hvipsApart : s.carpVips.Pairwise fun q v => ¬q.id = v.id := List.pairwise_map.mp hs.carpVips
  have hnodesApart := apart_of_keys hs.clusterNodes hs.clusterNodeNames
  have hvips : Fits id (fun v => ClusterStore.validateVip v = .ok ()) (fun q v => q.id = v.id) []
      (s.vipsRestored now) ↔ _ :=
    fits_back_iff (orderByInt_perm _ _) (fun _ => Iff.rfl) (fun _ _ => Iff.rfl) fun _ _ => Eq.symm
  have hnodes : Fits id (fun n : ClusterNode => n.name ≠ [])
      (fun q n => q.id = n.id ∨ q.name = n.name) [] (s.nodesRestored now) ↔ _ :=
    fits_back_iff (orderByText_perm _ _) (fun _ => Iff.rfl) (fun _ _ => Iff.rfl) fun _ _ h =>
      h.imp Eq.symm Eq.symm
  constructor
  · intro h
    exact ⟨(hvips.mp h.carpVips).1, (hnodes.mp h.clusterNodes).1⟩
  · rintro ⟨hvalid, hnames⟩
    exact ⟨hvips.mpr ⟨hvalid, hvipsApart⟩, hnodes.mpr ⟨hnames, hnodesApart⟩⟩

theorem haKept_iff (hs : s.Stored chrono) (h : HaExported s config.ha)
    (hok : restoreHa env chrono .new config = .ok store) :
    HaKept s store ↔ (∀ p ∈ s.pfsyncConfig, PfsyncPlain env.pfsyncId p) ∧
      ∀ n ∈ s.clusterNodes, NodePlain n := by
  obtain ⟨hvips, hpfsync, hnodes⟩ := rows_of_restoreHa h hok
  have hnodesKept : ((s.nodesRestored (env.nowText chrono)).map nodeSettled).Perm
      (s.clusterNodes.map nodeSettled) ↔ ∀ n ∈ s.clusterNodes, NodePlain n := by
    have hback := clusterNodes_back (env.nowText chrono) s.clusterNodes
    rw [AppState.nodesRestored, back_perm_iff (orderByText_perm _ _) hs.clusterNodes hback.keeps
      hback.tells]
    exact forall₂_congr fun n _ => nodeRestored_iff n
  have hvipsKept : ((s.vipsRestored (env.nowText chrono)).map vipSettled).Perm
      (s.carpVips.map vipSettled) := by
    rw [AppState.vipsRestored, List.map_map]
    exact (orderByInt_perm _ _).map vipSettled
  constructor
  · intro hkept
    refine ⟨(pfsyncRows_iff (env.nowText chrono) _ hs.pfsyncConfig).mp ?_, hnodesKept.mp ?_⟩
    · rw [← hpfsync]
      exact hkept.pfsyncConfig
    · rw [← hnodes]
      exact hkept.clusterNodes
  · rintro ⟨hplain, hnodesPlain⟩
    constructor
    · rw [hvips]
      exact hvipsKept
    · rw [hpfsync]
      exact (pfsyncRows_iff (env.nowText chrono) _ hs.pfsyncConfig).mpr hplain
    · rw [hnodes]
      exact hnodesKept.mpr hnodesPlain

/-- The virtual IPs pass their check, and no row has a setting that an entry has no place for. -/
structure HaRestorable (env : ApplyEnv DateTime) (s : AppState) : Prop where
  carpVips : ∀ v ∈ s.carpVips, ClusterStore.validateVip v = .ok ()
  pfsyncConfig : ∀ p ∈ s.pfsyncConfig, PfsyncPlain env.pfsyncId p
  clusterNodes : ∀ n ∈ s.clusterNodes, n.name ≠ [] ∧ NodePlain n

theorem restoresHa_iff (hs : s.Stored chrono) (h : HaExported s config.ha) :
    (∃ store, restoreHa env chrono .new config = .ok store ∧ HaKept s store) ↔
      HaRestorable env s := by
  have hfits := (haFits_iff hs (env.nowText chrono)).symm.trans (restoreHa_ok_iff h).symm
  constructor
  · rintro ⟨store, hok, hkept⟩
    obtain ⟨hvips, hnames⟩ := hfits.mpr ⟨store, hok⟩
    obtain ⟨hpfsync, hnodes⟩ := (haKept_iff hs h hok).mp hkept
    exact ⟨hvips, hpfsync, fun n hn => ⟨hnames n hn, hnodes n hn⟩⟩
  · intro hrows
    obtain ⟨store, hok⟩ := hfits.mp ⟨hrows.carpVips, fun n hn => (hrows.clusterNodes n hn).1⟩
    exact ⟨store, hok, (haKept_iff hs h hok).mpr
      ⟨hrows.pfsyncConfig, fun n hn => (hrows.clusterNodes n hn).2⟩⟩

end AiFw.Backup
