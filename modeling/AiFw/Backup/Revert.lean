import AiFw.Backup.Survival

namespace AiFw.Backup
open AiFw.Lib AiFw.Net AiFw.Pf AiFw.Ha
set_option autoImplicit true

/-- A configuration as it is kept for the rollback. -/
structure ConfigText (Config Json : Type) where
  toJson : Config → Json
  fromJson : Json → Option Config

/-- The four tables are those of the snapshot, up to the times. -/
structure SnapshotRestored (s t : AppState) : Prop where
  rules : (t.rules.map FilterRule.timeless).Perm (s.rules.map FilterRule.timeless)
  natRules : (t.natRules.map natTimeless).Perm (s.natRules.map natTimeless)
  aliases : (t.aliases.map aliasTimeless).Perm (s.aliases.map aliasTimeless)
  staticRoutes :
    (t.staticRoutes.map StaticRoute.timeless).Perm (s.staticRoutes.map StaticRoute.timeless)

/-- The rows of all other tables, but for those of the sign-in. -/
structure OtherTables where
  wgTunnels : List WgTunnel
  wgPeers : List WgPeer
  ipsecSas : List IpsecSa
  ipsecTunnels : List Vpn.IpsecTunnelRow
  geoipRules : List GeoIpRule
  queueConfigs : List QueueConfig
  rateLimitRules : List RateLimitRule
  sniRules : List SniRule
  ja3Blocklist : List Ja3Block
  carpVips : List CarpVip
  pfsyncConfig : List PfsyncConfig
  clusterNodes : List ClusterNode
  dhcpSubnets : List DhcpSubnet
  dhcpReservations : List DhcpReservation
  dhcpConfig : KeyValues
  dhcpDdnsConfig : KeyValues
  dhcpHaConfig : KeyValues

def AppState.otherTables (s : AppState) : OtherTables where
  wgTunnels := s.wgTunnels
  wgPeers := s.wgPeers
  ipsecSas := s.ipsecSas
  ipsecTunnels := s.ipsecTunnels.rows
  geoipRules := s.geoipRules
  queueConfigs := s.queueConfigs
  rateLimitRules := s.rateLimitRules
  sniRules := s.sniRules
  ja3Blocklist := s.ja3Blocklist
  carpVips := s.carpVips
  pfsyncConfig := s.pfsyncConfig
  clusterNodes := s.clusterNodes
  dhcpSubnets := s.dhcpSubnets
  dhcpReservations := s.dhcpReservations
  dhcpConfig := s.dhcpConfig
  dhcpDdnsConfig := s.dhcpDdnsConfig
  dhcpHaConfig := s.dhcpHaConfig

/-- The settings of the DHCP service have rows for their defaults; all else is empty. -/
def OtherTables.default (fl : FloatText F) : OtherTables where
  wgTunnels := []
  wgPeers := []
  ipsecSas := []
  ipsecTunnels := []
  geoipRules := []
  queueConfigs := []
  rateLimitRules := []
  sniRules := []
  ja3Blocklist := []
  carpVips := []
  pfsyncConfig := []
  clusterNodes := []
  dhcpSubnets := []
  dhcpReservations := []
  dhcpConfig := KeyValues.empty.setAll (globalRows fl (.default fl))
  dhcpDdnsConfig := KeyValues.empty.setAll (ddnsRows .default)
  dhcpHaConfig := KeyValues.empty.setAll (dhcpHaRows fl .default)

/-- All other tables are as they were. -/
structure OthersKept (t t' : AppState) : Prop where
  tables : t'.otherTables = t.otherTables
  authConfig : t'.authConfig = t.authConfig

/-- The other tables have what the default configuration puts there. -/
structure AppState.AtDefaults (fl : FloatText F) (t : AppState) : Prop where
  tables : t.otherTables = .default fl
  authConfig : ∀ e ∈ authRows .default, t.authConfig e.1.toList = some e.2

namespace AppState
variable {env : ApplyEnv DateTime} {fl : FloatText F} {chrono : Rfc3339 DateTime}
  {txt : ConfigText (FirewallConfig F DateTime) Json} {snapshot : FirewallConfig F DateTime}
  {s t t' : AppState}

/-- What the timer does to the node with the snapshot it finds; one that cannot be read changes
nothing. -/
def expire (env : ApplyEnv DateTime) (fl : FloatText F) (chrono : Rfc3339 DateTime)
    (txt : ConfigText (FirewallConfig F DateTime) Json) (rollbackConfig : Json) (t : AppState) :
    Except AppState AppState :=
  match txt.fromJson rollbackConfig with
  | some config => applyFirewallConfig env fl chrono .new config t
  | none => .ok t

/-- The sections of a snapshot: four are those of the node, and all the others are empty. -/
theorem snapshot_sections (h : s.captureRuntimeSnapshot fl chrono = some snapshot) :
    ∃ rules, NatRuleRow.listRules chrono s.natRules = .ok rules ∧
      snapshot = { FirewallConfig.default fl with
        rules := (listFilterRules s.rules).map FilterRule.config
        nat := rules.map natConfig
        aliases := s.aliasesSection
        staticRoutes := s.staticRoutesSection } := by
  obtain ⟨rules, hrules, h⟩ := Option.bind_eq_some_iff.mp h
  cases h
  refine ⟨rules, ?_, rfl⟩
  cases hlist : NatRuleRow.listRules chrono s.natRules with
  | error e =>
    rw [hlist] at hrules
    cases hrules
  | ok found =>
    rw [hlist] at hrules
    cases hrules
    rfl

theorem expire_snapshot (hjson : txt.fromJson (txt.toJson snapshot) = some snapshot)
    (hok : t.expire env fl chrono txt (txt.toJson snapshot) = .ok t') :
    Reloaded env fl chrono .new snapshot t t' := by
  unfold expire at hok
  rw [hjson] at hok
  exact apply_reloads hok

theorem snapshotRestored_iff (hs : s.Stored chrono)
    (h : s.captureRuntimeSnapshot fl chrono = some snapshot)
    (hback : Reloaded env fl chrono .new snapshot t t') :
    SnapshotRestored s t' ↔ ∀ r ∈ s.rules, r.Plain := by
  obtain ⟨rules, hlist, rfl⟩ := snapshot_sections h
  have hrules := restoredRules_iff hs rfl hback.rules
  constructor
  · intro hsame
    exact hrules.mp hsame.rules
  · intro hplain
    exact ⟨hrules.mpr hplain, restoredNat hs hlist rfl hback.natRules,
      restoredAliases hs rfl hback.aliases, restoredStaticRoutes hs rfl hback.staticRoutes⟩

theorem authRows_nodup (auth : AuthConfig) : ((authRows auth).map Prod.fst).Nodup := by
  change ["access_token_expiry_mins", "refresh_token_expiry_days", "require_totp"].Nodup
  decide

theorem reverted_authConfig (h : s.captureRuntimeSnapshot fl chrono = some snapshot)
    (hback : Reloaded env fl chrono .new snapshot t t') :
    t'.authConfig = t.authConfig.setAll (authRows .default) := by
  obtain ⟨rules, -, rfl⟩ := snapshot_sections h
  exact hback.authConfig

/-- The tables that the snapshot has no section for are reset, whatever was in them. -/
theorem reverted_otherTables (h : s.captureRuntimeSnapshot fl chrono = some snapshot)
    (hback : Reloaded env fl chrono .new snapshot t t') : t'.otherTables = .default fl := by
  obtain ⟨rules, -, rfl⟩ := snapshot_sections h
  obtain ⟨store, hstore, hvips, hpfsync, hnodes⟩ := hback.ha
  cases hstore
  have hwireguard := Except.ok.inj hback.wireguard
  have hwgTunnels : t'.wgTunnels = [] := (congrArg Prod.fst hwireguard).symm
  have hwgPeers : t'.wgPeers = [] := (congrArg Prod.snd hwireguard).symm
  have htunnels : t'.ipsecTunnels = .empty := (Except.ok.inj hback.ipsecTunnels).symm
  rw [otherTables, OtherTables.default, hwgTunnels, hwgPeers, ← Except.ok.inj hback.ipsecSas,
    htunnels, ← Except.ok.inj hback.geoipRules, ← Except.ok.inj hback.queueConfigs,
    ← Except.ok.inj hback.rateLimitRules, ← Except.ok.inj hback.sniRules, hback.ja3Blocklist, hvips,
    hpfsync, hnodes, ← Except.ok.inj hback.dhcpSubnets, ← Except.ok.inj hback.dhcpReservations,
    hback.dhcpConfig, hback.dhcpDdnsConfig, hback.dhcpHaConfig]
  rfl

theorem othersKept_iff (h : s.captureRuntimeSnapshot fl chrono = some snapshot)
    (hback : Reloaded env fl chrono .new snapshot t t') : OthersKept t t' ↔ t.AtDefaults fl := by
  have hreset := reverted_otherTables h hback
  have hauth : t'.authConfig = t.authConfig ↔
      ∀ e ∈ authRows .default, t.authConfig e.1.toList = some e.2 := by
    rw [reverted_authConfig h hback]
    exact KeyValues.setAll_eq_self_iff (authRows_nodup _)
  constructor
  · rintro ⟨htables, hkept⟩
    exact ⟨htables.symm.trans hreset, hauth.mp hkept⟩
  · rintro ⟨htables, hkeys⟩
    exact ⟨hreset.trans htables.symm, hauth.mpr hkeys⟩

/-- A revert that goes through restores the rules, NAT rules, aliases and routes of the snapshot
and leaves all other tables alone if and only if no filter rule has a state policy or timeouts, and
the other tables are at their defaults at that time. -/
theorem revert_touches_snapshot_iff (hs : s.Stored chrono)
    (h : s.captureRuntimeSnapshot fl chrono = some snapshot)
    (hjson : txt.fromJson (txt.toJson snapshot) = some snapshot)
    (hok : t.expire env fl chrono txt (txt.toJson snapshot) = .ok t') :
    SnapshotRestored s t' ∧ OthersKept t t' ↔ (∀ r ∈ s.rules, r.Plain) ∧ t.AtDefaults fl := by
  have hback := expire_snapshot hjson hok
  rw [snapshotRestored_iff hs h hback, othersKept_iff h hback]

end AppState

theorem capture_default {s : AppState} (hrules : s.rules = []) (hnat : s.natRules = [])
    (haliases : s.aliases = []) (hroutes : s.staticRoutes = []) (fl : FloatText F) :
    s.captureRuntimeSnapshot fl NatRuleRow.minute = some (.default fl) := by
  have hlist : NatRuleRow.listRules NatRuleRow.minute s.natRules = .ok [] := by
    rw [hnat]
    exact NatRuleRow.listsAs_nil.1
  unfold AppState.captureRuntimeSnapshot
  rw [hlist, AppState.aliasesSection, AppState.staticRoutesSection, hrules, haliases, hroutes,
    listFilterRules, Aliases.list, orderByText, orderByInt, orderByInt, List.mergeSort_nil,
    List.mergeSort_nil, List.mergeSort_nil, List.mergeSort_nil]
  rfl

theorem default_admitted (env : ApplyEnv DateTime) (chrono : Rfc3339 DateTime) (fl : FloatText F) :
    Admitted env chrono .new (.default fl) := by
  constructor <;> exact ⟨_, rfl⟩

theorem bareNode_stored (hostname : List Char) :
    (bareNode hostname).Stored NatRuleRow.minute := by
  constructor
  case pfsyncConfig => exact Nat.zero_le 1
  case ruleAddresses | natWritten | countries | wgTunnelAddresses | wgPeerAddresses | wgPeerTunnels
    | ipsecSaAddresses => exact List.forall_mem_nil _
  all_goals exact List.nodup_nil

def plainText : ConfigText (FirewallConfig Nat (Fin 60)) (FirewallConfig Nat (Fin 60)) := ⟨id, some⟩

def quietEnv : ApplyEnv (Fin 60) := ⟨Fin.last 59, fun _ => none, 0, fun _ => 0, false⟩

/-- A node that was restored to the defaults. -/
def defaultNode : AppState :=
  { bareNode "fw1".toList with
    dhcpConfig := KeyValues.empty.setAll (globalRows wholeFloats (.default wholeFloats))
    dhcpDdnsConfig := KeyValues.empty.setAll (ddnsRows .default)
    dhcpHaConfig := KeyValues.empty.setAll (dhcpHaRows wholeFloats .default)
    authConfig := KeyValues.empty.setAll (authRows .default) }

theorem defaultNode_atDefaults : defaultNode.AtDefaults wholeFloats := by
  refine ⟨rfl, ?_⟩
  intro e he
  exact KeyValues.setAll_of_mem (AppState.authRows_nodup _) he

/-- A snapshot without sections is applied to every node. -/
theorem expire_default (t : AppState) :
    ∃ t', t.expire quietEnv wholeFloats NatRuleRow.minute plainText
      (plainText.toJson (.default wholeFloats)) = .ok t' :=
  (default_admitted quietEnv NatRuleRow.minute wholeFloats).applies wholeFloats t

def fullNode : AppState := defaultNode.withRows []

def fullSnapshot : FirewallConfig Nat (Fin 60) :=
  { FirewallConfig.default wholeFloats with
    rules := [sshRule.config]
    nat := [natConfig outboundNat]
    aliases := [aliasConfig webAlias]
    staticRoutes := [labRoute.config] }

theorem fullNode_stored : fullNode.Stored NatRuleRow.minute := by
  have hbare := bareNode_stored "fw1".toList
  exact { hbare with
    rules := List.nodup_singleton _
    ruleAddresses := List.forall_mem_singleton.mpr
      ⟨⟨"10.0.0.0/8".toList, by decide +kernel⟩, ⟨"any".toList, by decide +kernel⟩⟩
    natRules := List.nodup_singleton _
    natWritten := List.forall_mem_singleton.mpr ⟨outboundNat, outboundNat_tables, rfl⟩
    aliases := List.nodup_singleton _
    aliasNames := List.nodup_singleton _
    staticRoutes := List.nodup_singleton _ }

theorem fullNode_captured :
    fullNode.captureRuntimeSnapshot wholeFloats NatRuleRow.minute = some fullSnapshot := by
  have hnat : NatRuleRow.listRules NatRuleRow.minute fullNode.natRules = .ok [outboundNat] :=
    (NatRuleRow.listsAs_singleton outboundNat outboundNat_tables).1
  have hrules : listFilterRules fullNode.rules = [sshRule] := listFilterRules_singleton sshRule
  have haliases : Aliases.list fullNode.aliases = [webAlias] := List.mergeSort_singleton _
  have hroutes : orderByInt StaticRoute.metric fullNode.staticRoutes = [labRoute] :=
    List.mergeSort_singleton _
  unfold AppState.captureRuntimeSnapshot
  rw [hnat, hrules, AppState.aliasesSection, haliases, AppState.staticRoutesSection, hroutes]
  rfl

theorem fullSnapshot_admitted : Admitted quietEnv NatRuleRow.minute .new fullSnapshot := by
  constructor <;> exact ⟨_, rfl⟩

/-- A node with nothing but rules, NAT rules, aliases and routes of its own is put back as it was. -/
theorem revert_fullNode :
    ∃ t', fullNode.expire quietEnv wholeFloats NatRuleRow.minute plainText
        (plainText.toJson fullSnapshot) = .ok t' ∧
      SnapshotRestored fullNode t' ∧ OthersKept fullNode t' := by
  obtain ⟨t', happly⟩ := fullSnapshot_admitted.applies wholeFloats fullNode
  have hok : fullNode.expire quietEnv wholeFloats NatRuleRow.minute plainText
      (plainText.toJson fullSnapshot) = .ok t' := happly
  have hdefaults : fullNode.AtDefaults wholeFloats :=
    ⟨defaultNode_atDefaults.tables, defaultNode_atDefaults.authConfig⟩
  refine ⟨t', hok, (AppState.revert_touches_snapshot_iff fullNode_stored fullNode_captured rfl
    hok).mpr ⟨?_, hdefaults⟩⟩
  exact List.forall_mem_singleton.mpr ⟨rfl, rfl, rfl, rfl, rfl⟩

def officeTunnel : WgTunnel where
  id := 7
  name := "office".toList
  interface := "wg0".toList
  privateKey := "key".toList
  publicKey := "pub".toList
  listenPort := 51820
  address := .network (.v4 0x0A090001) 24
  dns := none
  mtu := none
  listenInterface := none
  splitRoutes := none
  status := .down
  createdAt := []
  updatedAt := []

def vpnNode : AppState := { bareNode "fw1".toList with wgTunnels := [officeTunnel] }

theorem vpnNode_stored : vpnNode.Stored NatRuleRow.minute := by
  have hbare := bareNode_stored "fw1".toList
  exact { hbare with
    wgTunnels := List.nodup_singleton _
    wgTunnelNames := List.nodup_singleton _
    wgTunnelAddresses := by
      intro t ht
      cases List.mem_singleton.mp ht
      exact ⟨"10.9.0.1/24".toList, by decide +kernel⟩
    wgPeerTunnels := List.forall_mem_nil _ }

/-- The tunnel of a node is gone after a window in which nothing was changed. -/
theorem revert_erases_tunnel :
    vpnNode.Stored NatRuleRow.minute ∧
      ∃ snapshot t', vpnNode.captureRuntimeSnapshot wholeFloats NatRuleRow.minute = some snapshot ∧
        plainText.fromJson (plainText.toJson snapshot) = some snapshot ∧
        vpnNode.expire quietEnv wholeFloats NatRuleRow.minute plainText
          (plainText.toJson snapshot) = .ok t' ∧
        vpnNode.wgTunnels = [officeTunnel] ∧ t'.wgTunnels = [] ∧ ¬OthersKept vpnNode t' := by
  obtain ⟨t', hok⟩ := expire_default vpnNode
  have hsnapshot : vpnNode.captureRuntimeSnapshot wholeFloats NatRuleRow.minute =
      some (.default wholeFloats) := capture_default rfl rfl rfl rfl wholeFloats
  have hreset := AppState.reverted_otherTables hsnapshot (AppState.expire_snapshot rfl hok)
  have hgone : t'.wgTunnels = [] := congrArg OtherTables.wgTunnels hreset
  refine ⟨vpnNode_stored, _, t', hsnapshot, rfl, hok, rfl, hgone, ?_⟩
  intro hkept
  have htunnels : t'.wgTunnels = [officeTunnel] := congrArg OtherTables.wgTunnels hkept.tables
  rw [hgone] at htunnels
  cases htunnels

end AiFw.Backup
