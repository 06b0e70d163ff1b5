import AiFw.Backup.ClusterBack
import AiFw.Backup.KeyTables
import AiFw.Backup.Revert
import AiFw.Backup.TablesBack
import AiFw.Backup.WireguardBack

namespace AiFw.Backup
open AiFw.Lib AiFw.Net AiFw.Pf AiFw.Ha
open AiFw.Aliases (Alias)
set_option autoImplicit true

/-- Every table that a restore empties has the rows it had, up to the times and to what the rows say
about the running system. -/
structure RowsKept (s t : AppState) : Prop where
  rules : (t.rules.map FilterRule.timeless).Perm (s.rules.map FilterRule.timeless)
  natRules : (t.natRules.map natTimeless).Perm (s.natRules.map natTimeless)
  aliases : (t.aliases.map aliasTimeless).Perm (s.aliases.map aliasTimeless)
  staticRoutes :
    (t.staticRoutes.map StaticRoute.timeless).Perm (s.staticRoutes.map StaticRoute.timeless)
  geoipRules : (t.geoipRules.map GeoIpRule.timeless).Perm (s.geoipRules.map GeoIpRule.timeless)
  wireguard : WireguardKept s (t.wgTunnels, t.wgPeers)
  ipsecSas : (t.ipsecSas.map IpsecSa.settled).Perm (s.ipsecSas.map IpsecSa.settled)
  ipsecTunnels : (t.ipsecTunnels.rows.map tunnelTimeless).Perm
    (s.ipsecTunnels.rows.map tunnelTimeless)
  queueConfigs :
    (t.queueConfigs.map QueueConfig.timeless).Perm (s.queueConfigs.map QueueConfig.timeless)
  rateLimitRules :
    (t.rateLimitRules.map rateLimitTimeless).Perm (s.rateLimitRules.map rateLimitTimeless)
  sniRules : (t.sniRules.map SniRule.timeless).Perm (s.sniRules.map SniRule.timeless)
  ja3Blocklist : (t.ja3Blocklist.map Ja3Block.timeless).Perm (s.ja3Blocklist.map Ja3Block.timeless)
  carpVips : (t.carpVips.map vipSettled).Perm (s.carpVips.map vipSettled)
  pfsyncConfig : (t.pfsyncConfig.map pfsyncTimeless).Perm (s.pfsyncConfig.map pfsyncTimeless)
  clusterNodes : (t.clusterNodes.map nodeSettled).Perm (s.clusterNodes.map nodeSettled)
  dhcpSubnets : (t.dhcpSubnets.map DhcpSubnet.timeless).Perm (s.dhcpSubnets.map DhcpSubnet.timeless)
  dhcpReservations : (t.dhcpReservations.map DhcpReservation.timeless).Perm
    (s.dhcpReservations.map DhcpReservation.timeless)
  dhcpConfig : t.dhcpConfig = s.dhcpConfig
  dhcpDdnsConfig : t.dhcpDdnsConfig = s.dhcpDdnsConfig
  dhcpHaConfig : t.dhcpHaConfig = s.dhcpHaConfig

section
variable (env : ApplyEnv DateTime) (fl : FloatText F) (chrono : Rfc3339 DateTime) (s : AppState)

/-- The configuration of a node can be restored to it, and the rows are kept; so they are by every
rollback that is reported to have restored them. -/
structure RestoresItself : Prop where
  identity : ∃ config s', s.buildCurrentConfig fl chrono = some config ∧
    applyFirewallConfig env fl chrono .new config s = .ok s' ∧ RowsKept s s'
  rollback : ∀ applyEnv map config t,
    applyFirewallConfigOrRollback applyEnv env fl chrono map config s = some (t, .rolledBack) →
      RowsKept s t

/-- Each row passes the check that is made when it is added, and has no setting that is lost on the
way. -/
structure Restorable : Prop where
  rules : ∀ r ∈ s.rules, validateRule r.toRule = .ok () ∧ r.Plain
  natRules : ∀ row ∈ s.natRules,
    ∃ r, row.intoNatRule chrono = .ok r ∧ validateNatRule r.toNatRule = .ok ()
  aliases : ∀ a ∈ s.aliases, Aliases.validateName a.name = .ok ()
  wireguard : WireguardRestorable s
  ipsecSas : ∀ sa ∈ s.ipsecSas, sa.name ≠ [] ∧ env.randSpi sa.id = sa.spi
  ipsecTunnels : ∀ row ∈ s.ipsecTunnels.rows, row.Restorable chrono
  rateLimitRules : ∀ r ∈ s.rateLimitRules,
    (r.maxConnections ≠ 0 ∧ r.windowSecs ≠ 0 ∧ r.overloadTable ≠ []) ∧ RateLimitPlain r
  sniRules : ∀ r ∈ s.sniRules, r.pattern ≠ [] ∧ r.status = .active
  ja3Blocklist : ∀ b ∈ s.ja3Blocklist, b.description = "restored from backup".toList
  ha : HaRestorable env s
  dhcpSubnets : ∀ sub ∈ s.dhcpSubnets, sub.Plain
  dhcpConfig : s.dhcpConfig.Formed (globalForms fl)
  dhcpDdnsConfig : s.dhcpDdnsConfig.Formed ddnsForms
  dhcpHaConfig : s.dhcpHaConfig.Formed (dhcpHaForms fl)

/-- What a restore of a configuration has to come to in every section. -/
structure SectionsRestore (config : FirewallConfig F DateTime) : Prop where
  rules : Restores (restoreRules env chrono .new config) FilterRule.timeless s.rules
  natRules : Restores (restoreNat env chrono .new config) natTimeless s.natRules
  aliases : Restores (restoreAliases env chrono config) aliasTimeless s.aliases
  staticRoutes :
    Restores (restoreStaticRoutes env chrono .new config) StaticRoute.timeless s.staticRoutes
  geoipRules : Restores (restoreGeoIp env chrono config) GeoIpRule.timeless s.geoipRules
  wireguard : ∃ tables, restoreWireguard env chrono .new config = .ok tables ∧
    WireguardKept s tables
  ipsecSas : Restores (restoreIpsecSas env chrono config) IpsecSa.settled s.ipsecSas
  ipsecTunnels : ∃ table, restoreIpsecTunnels chrono config = .ok table ∧
    (table.rows.map tunnelTimeless).Perm (s.ipsecTunnels.rows.map tunnelTimeless)
  queueConfigs : Restores (restoreQueues env chrono .new config) QueueConfig.timeless s.queueConfigs
  rateLimitRules :
    Restores (restoreRateLimits env chrono .new config) rateLimitTimeless s.rateLimitRules
  sniRules : Restores (restoreSniRules env chrono config) SniRule.timeless s.sniRules
  ja3Blocklist : ((restoreJa3 env chrono config).map Ja3Block.timeless).Perm
    (s.ja3Blocklist.map Ja3Block.timeless)
  ha : ∃ store, restoreHa env chrono .new config = .ok store ∧ HaKept s store
  dhcpSubnets : Restores (restoreSubnets config) DhcpSubnet.timeless s.dhcpSubnets
  dhcpReservations :
    Restores (restoreReservations config) DhcpReservation.timeless s.dhcpReservations
  dhcpConfig : KeyValues.empty.setAll (globalRows fl config.dhcp.global) = s.dhcpConfig
  dhcpDdnsConfig : KeyValues.empty.setAll (ddnsRows config.dhcp.ddns) = s.dhcpDdnsConfig
  dhcpHaConfig : KeyValues.empty.setAll (dhcpHaRows fl config.dhcp.dhcpHa) = s.dhcpHaConfig

end

variable {env : ApplyEnv DateTime} {fl : FloatText F} {chrono : Rfc3339 DateTime}
  {s t t' : AppState} {config : FirewallConfig F DateTime}

theorem SectionsRestore.admitted (h : SectionsRestore env fl chrono s config) :
    Admitted env chrono .new config := by
  obtain ⟨tables, hwireguard, -⟩ := h.wireguard
  obtain ⟨table, htunnels, -⟩ := h.ipsecTunnels
  obtain ⟨store, hstore, -⟩ := h.ha
  exact ⟨h.rules.ok, h.natRules.ok, h.aliases.ok, h.staticRoutes.ok, h.geoipRules.ok,
    ⟨tables, hwireguard⟩, h.ipsecSas.ok, ⟨table, htunnels⟩, h.queueConfigs.ok, h.rateLimitRules.ok,
    h.sniRules.ok, ⟨store, hstore⟩, h.dhcpSubnets.ok, h.dhcpReservations.ok⟩

/-- A restore keeps the rows exactly if each section does, whatever the tables had in between. -/
theorem Reloaded.kept_iff (h : Reloaded env fl chrono .new config t t') :
    RowsKept s t' ↔ SectionsRestore env fl chrono s config := by
  obtain ⟨store, hstore, hvips, hpfsync, hnodes⟩ := h.ha
  constructor
  · intro hkept
    refine ⟨⟨_, h.rules, hkept.rules⟩, ⟨_, h.natRules, hkept.natRules⟩,
      ⟨_, h.aliases, hkept.aliases⟩, ⟨_, h.staticRoutes, hkept.staticRoutes⟩,
      ⟨_, h.geoipRules, hkept.geoipRules⟩, ⟨_, h.wireguard, hkept.wireguard⟩,
      ⟨_, h.ipsecSas, hkept.ipsecSas⟩, ⟨_, h.ipsecTunnels, hkept.ipsecTunnels⟩,
      ⟨_, h.queueConfigs, hkept.queueConfigs⟩, ⟨_, h.rateLimitRules, hkept.rateLimitRules⟩,
      ⟨_, h.sniRules, hkept.sniRules⟩, ?_, ⟨store, hstore, ?_⟩,
      ⟨_, h.dhcpSubnets, hkept.dhcpSubnets⟩, ⟨_, h.dhcpReservations, hkept.dhcpReservations⟩,
      h.dhcpConfig.symm.trans hkept.dhcpConfig, h.dhcpDdnsConfig.symm.trans hkept.dhcpDdnsConfig,
      h.dhcpHaConfig.symm.trans hkept.dhcpHaConfig⟩
    · rw [← h.ja3Blocklist]
      exact hkept.ja3Blocklist
    · constructor
      · rw [← hvips]
        exact hkept.carpVips
      · rw [← hpfsync]
        exact hkept.pfsyncConfig
      · rw [← hnodes]
        exact hkept.clusterNodes
  · intro hsections
    obtain ⟨tables, hwireguard, hwireguardKept⟩ := hsections.wireguard
    cases h.wireguard.symm.trans hwireguard
    obtain ⟨table, htunnels, htunnelsKept⟩ := hsections.ipsecTunnels
    cases h.ipsecTunnels.symm.trans htunnels
    obtain ⟨found, hfound, hstoreKept⟩ := hsections.ha
    cases hstore.symm.trans hfound
    refine ⟨hsections.rules.perm h.rules, hsections.natRules.perm h.natRules,
      hsections.aliases.perm h.aliases, hsections.staticRoutes.perm h.staticRoutes,
      hsections.geoipRules.perm h.geoipRules, hwireguardKept,
      hsections.ipsecSas.perm h.ipsecSas, htunnelsKept, hsections.queueConfigs.perm h.queueConfigs,
      hsections.rateLimitRules.perm h.rateLimitRules, hsections.sniRules.perm h.sniRules, ?_, ?_, ?_,
      ?_, hsections.dhcpSubnets.perm h.dhcpSubnets,
      hsections.dhcpReservations.perm h.dhcpReservations,
      h.dhcpConfig.trans hsections.dhcpConfig, h.dhcpDdnsConfig.trans hsections.dhcpDdnsConfig,
      h.dhcpHaConfig.trans hsections.dhcpHaConfig⟩
    · rw [h.ja3Blocklist]
      exact hsections.ja3Blocklist
    · rw [hvips]
      exact hstoreKept.carpVips
    · rw [hpfsync]
      exact hstoreKept.pfsyncConfig
    · rw [hnodes]
      exact hstoreKept.clusterNodes

/-- The current configuration is built of the rules and tunnels that can be listed. -/
theorem buildCurrentConfig_iff :
    s.buildCurrentConfig fl chrono = some config ↔
      ∃ rules tunnels, NatRuleRow.listRules chrono s.natRules = .ok rules ∧
        s.ipsecTunnels.listTunnels chrono = .ok tunnels ∧ config = s.configOf fl rules tunnels := by
  unfold AppState.buildCurrentConfig
  cases NatRuleRow.listRules chrono s.natRules with
  | error e =>
    constructor
    · intro h
      cases h
    · rintro ⟨_, _, h, -⟩
      cases h
  | ok rules =>
    cases s.ipsecTunnels.listTunnels chrono with
    | error e =>
      constructor
      · intro h
        cases h
      · rintro ⟨_, _, -, h, -⟩
        cases h
    | ok tunnels =>
      constructor
      · intro h
        exact ⟨rules, tunnels, rfl, rfl, (Option.some.inj h).symm⟩
      · rintro ⟨_, _, hrules, htunnels, rfl⟩
        cases hrules
        cases htunnels
        rfl

theorem configOf_ha (fl : FloatText F) (s : AppState) (rules : List (NatRecord DateTime))
    (tunnels : List (Vpn.IpsecTunnel DateTime)) : HaExported s (s.configOf fl rules tunnels).ha :=
  ⟨rfl, rfl, rfl⟩

variable {rules : List (NatRecord DateTime)} {tunnels : List (Vpn.IpsecTunnel DateTime)}

/-- The rows of the NAT table pass their check exactly if the rules that are listed do. -/
theorem natRules_iff (hlist : NatRuleRow.listRules chrono s.natRules = .ok rules) :
    (∀ r ∈ rules, validateNatRule r.toNatRule = .ok ()) ↔
      ∀ row ∈ s.natRules,
        ∃ r, row.intoNatRule chrono = .ok r ∧ validateNatRule r.toNatRule = .ok () := by
  constructor
  · intro h row hrow
    have hsorted : row ∈ NatRuleRow.byCreatedAt s.natRules := List.mem_mergeSort.mpr hrow
    obtain ⟨r, hread⟩ := exists_of_mapM hlist hsorted
    exact ⟨r, hread, h r ((mem_of_mapM hlist).mpr ⟨row, hsorted, hread⟩)⟩
  · intro h r hr
    obtain ⟨row, hrow, hread⟩ := (mem_of_mapM hlist).mp hr
    obtain ⟨found, hfound, hvalid⟩ := h row (List.mem_mergeSort.mp hrow)
    cases hread.symm.trans hfound
    exact hvalid

theorem sections_iff (hs : s.Stored chrono)
    (hrules : NatRuleRow.listRules chrono s.natRules = .ok rules)
    (htunnels : s.ipsecTunnels.listTunnels chrono = .ok tunnels) :
    SectionsRestore env fl chrono s (s.configOf fl rules tunnels) ↔ Restorable env fl chrono s := by
  constructor
  · intro h
    exact ⟨(restoresRules_iff hs rfl).mp h.rules,
      (natRules_iff hrules).mp ((restoresNat_iff hs hrules rfl).mp h.natRules),
      (restoresAliases_iff hs rfl).mp h.aliases, (restoresWireguard_iff hs rfl).mp h.wireguard,
      (restoresIpsecSas_iff hs rfl).mp h.ipsecSas,
      (restoresTunnels_iff hs htunnels rfl).mp h.ipsecTunnels,
      (restoresRateLimits_iff hs rfl).mp h.rateLimitRules,
      (restoresSniRules_iff hs rfl).mp h.sniRules, (restoresJa3_iff hs rfl).mp h.ja3Blocklist,
      (restoresHa_iff hs (configOf_ha fl s rules tunnels)).mp h.ha,
      (restoresSubnets_iff hs rfl).mp h.dhcpSubnets,
      (restoredGlobal_iff fl s.dhcpConfig).mp h.dhcpConfig,
      (restoredDdns_iff s.dhcpDdnsConfig).mp h.dhcpDdnsConfig,
      (restoredDhcpHa_iff fl s.dhcpHaConfig).mp h.dhcpHaConfig⟩
  · intro h
    exact ⟨(restoresRules_iff hs rfl).mpr h.rules,
      (restoresNat_iff hs hrules rfl).mpr ((natRules_iff hrules).mpr h.natRules),
      (restoresAliases_iff hs rfl).mpr h.aliases, restoresStaticRoutes hs rfl, restoresGeoIp hs rfl,
      (restoresWireguard_iff hs rfl).mpr h.wireguard, (restoresIpsecSas_iff hs rfl).mpr h.ipsecSas,
      (restoresTunnels_iff hs htunnels rfl).mpr h.ipsecTunnels, restoresQueues hs rfl,
      (restoresRateLimits_iff hs rfl).mpr h.rateLimitRules,
      (restoresSniRules_iff hs rfl).mpr h.sniRules, (restoresJa3_iff hs rfl).mpr h.ja3Blocklist,
      (restoresHa_iff hs (configOf_ha fl s rules tunnels)).mpr h.ha,
      (restoresSubnets_iff hs rfl).mpr h.dhcpSubnets, restoresReservations hs rfl,
      (restoredGlobal_iff fl s.dhcpConfig).mpr h.dhcpConfig,
      (restoredDdns_iff s.dhcpDdnsConfig).mpr h.dhcpDdnsConfig,
      (restoredDhcpHa_iff fl s.dhcpHaConfig).mpr h.dhcpHaConfig⟩

/-- What can be restored can be listed. -/
theorem Restorable.listed (h : Restorable env fl chrono s) :
    ∃ rules tunnels, NatRuleRow.listRules chrono s.natRules = .ok rules ∧
      s.ipsecTunnels.listTunnels chrono = .ok tunnels := by
  have hrules : ∃ rules, NatRuleRow.listRules chrono s.natRules = .ok rules := by
    apply mapM_total
    intro row hrow
    obtain ⟨r, hread, -⟩ := h.natRules row (List.mem_mergeSort.mp hrow)
    exact ⟨r, hread⟩
  have htunnels : ∃ tunnels, s.ipsecTunnels.listTunnels chrono = .ok tunnels := by
    apply mapM_total
    intro row hrow
    obtain ⟨r, hread, -⟩ := h.ipsecTunnels row (List.mem_mergeSort.mp hrow)
    exact ⟨r, hread⟩
  obtain ⟨rules, hrules⟩ := hrules
  obtain ⟨tunnels, htunnels⟩ := htunnels
  exact ⟨rules, tunnels, hrules, htunnels⟩

theorem rolledBack_of {snapshot : FirewallConfig F DateTime} {map : InterfaceMap}
    {applyEnv : ApplyEnv DateTime} (hbuild : s.buildCurrentConfig fl chrono = some snapshot)
    (happly : applyFirewallConfig applyEnv fl chrono map config s = .error t)
    (hback : applyFirewallConfig env fl chrono .new snapshot t = .ok t') :
    applyFirewallConfigOrRollback applyEnv env fl chrono map config s = some (t', .rolledBack) := by
  unfold applyFirewallConfigOrRollback
  simp only [hbuild, happly, hback, Option.bind_eq_bind, Option.bind_some]
  rfl

/-- A rollback that is reported is a restore of the configuration of before. -/
theorem rolledBack_reloaded {map : InterfaceMap} {applyEnv : ApplyEnv DateTime}
    (h : applyFirewallConfigOrRollback applyEnv env fl chrono map config s = some (t, .rolledBack)) :
    ∃ snapshot mid, s.buildCurrentConfig fl chrono = some snapshot ∧
      Reloaded env fl chrono .new snapshot mid t := by
  obtain ⟨snapshot, hsnapshot, h⟩ := Option.bind_eq_some_iff.mp h
  cases happly : applyFirewallConfig applyEnv fl chrono map config s with
  | ok applied =>
    rw [happly] at h
    cases h
  | error mid =>
    rw [happly] at h
    dsimp only at h
    cases hback : applyFirewallConfig env fl chrono .new snapshot mid with
    | ok restored =>
      rw [hback] at h
      cases h
      exact ⟨snapshot, mid, hsnapshot, apply_reloads hback⟩
    | error restored =>
      rw [hback] at h
      cases h

/-- A node can be restored to itself if and only if its rows pass the checks of the engines and have
no setting that the configuration has no place for. -/
theorem restoresItself_iff (hs : s.Stored chrono) :
    RestoresItself env fl chrono s ↔ Restorable env fl chrono s := by
  constructor
  · intro h
    obtain ⟨config, s', hbuild, happly, hkept⟩ := h.identity
    obtain ⟨rules, tunnels, hrules, htunnels, rfl⟩ := buildCurrentConfig_iff.mp hbuild
    exact (sections_iff hs hrules htunnels).mp ((apply_reloads happly).kept_iff.mp hkept)
  · intro h
    obtain ⟨rules, tunnels, hrules, htunnels⟩ := h.listed
    have hbuild : s.buildCurrentConfig fl chrono = some (s.configOf fl rules tunnels) :=
      buildCurrentConfig_iff.mpr ⟨rules, tunnels, hrules, htunnels, rfl⟩
    have hsections : SectionsRestore env fl chrono s (s.configOf fl rules tunnels) :=
      (sections_iff hs hrules htunnels).mpr h
    constructor
    · obtain ⟨s', happly⟩ := hsections.admitted.applies fl s
      exact ⟨_, s', hbuild, happly, (apply_reloads happly).kept_iff.mpr hsections⟩
    · intro applyEnv map config t hrolled
      obtain ⟨snapshot, mid, hsnapshot, hback⟩ := rolledBack_reloaded hrolled
      cases hbuild.symm.trans hsnapshot
      exact hback.kept_iff.mpr hsections

def tunnelNode (t : WgTunnel) : AppState := { defaultNode with wgTunnels := [t] }

theorem tunnelNode_stored {t : WgTunnel} (h : FromText t.address) :
    (tunnelNode t).Stored NatRuleRow.minute := by
  have hbare := bareNode_stored "fw1".toList
  exact { hbare with
    wgTunnels := List.nodup_singleton _
    wgTunnelNames := List.nodup_singleton _
    wgTunnelAddresses := by
      intro u hu
      cases List.mem_singleton.mp hu
      exact h
    wgPeerTunnels := List.forall_mem_nil _ }

theorem tunnelNode_lists (t : WgTunnel) :
    NatRuleRow.listRules NatRuleRow.minute (tunnelNode t).natRules = .ok [] ∧
      (tunnelNode t).ipsecTunnels.listTunnels NatRuleRow.minute = .ok [] := by
  refine ⟨NatRuleRow.listsAs_nil.1, ?_⟩
  change (List.mergeSort [] _).mapM _ = _
  rw [List.mergeSort_nil]
  rfl

theorem defaultNode_formed :
    defaultNode.dhcpConfig.Formed (globalForms wholeFloats) ∧
      defaultNode.dhcpDdnsConfig.Formed ddnsForms ∧
      defaultNode.dhcpHaConfig.Formed (dhcpHaForms wholeFloats) := by
  have hglobal : readGlobal wholeFloats defaultNode.dhcpConfig = .default wholeFloats := by
    decide +kernel
  have hddns : readDdns defaultNode.dhcpDdnsConfig = .default := by decide +kernel
  have hha : readDhcpHa wholeFloats defaultNode.dhcpHaConfig = .default := by decide +kernel
  refine ⟨(restoredGlobal_iff _ _).mp ?_, (restoredDdns_iff _).mp ?_,
    (restoredDhcpHa_iff _ _).mp ?_⟩
  · rw [hglobal]
    rfl
  · rw [hddns]
    rfl
  · rw [hha]
    rfl

theorem officeTunnel_address : FromText officeTunnel.address :=
  ⟨"10.9.0.1/24".toList, by decide +kernel⟩

theorem officeNode_restorable :
    Restorable quietEnv wholeFloats NatRuleRow.minute (tunnelNode officeTunnel) := by
  obtain ⟨hglobal, hddns, hha⟩ := defaultNode_formed
  constructor
  case wireguard =>
    refine ⟨List.forall_mem_singleton.mpr ⟨by decide, rfl, rfl⟩, List.nodup_singleton _,
      List.forall_mem_nil _, .nil⟩
  case ha => exact ⟨List.forall_mem_nil _, List.forall_mem_nil _, List.forall_mem_nil _⟩
  case dhcpConfig => exact hglobal
  case dhcpDdnsConfig => exact hddns
  case dhcpHaConfig => exact hha
  all_goals exact List.forall_mem_nil _

/-- A node with a plain tunnel can be restored to itself. -/
theorem officeNode_restoresItself :
    RestoresItself quietEnv wholeFloats NatRuleRow.minute (tunnelNode officeTunnel) :=
  (restoresItself_iff (tunnelNode_stored officeTunnel_address)).mpr officeNode_restorable

/-- The tunnel with a list of split routes. -/
def splitTunnel : WgTunnel := { officeTunnel with splitRoutes := some "10.0.0.0/8".toList }

/-- The configuration does not say whether a tunnel has split routes. -/
theorem configOf_splitTunnel :
    (tunnelNode splitTunnel).configOf wholeFloats ([] : List (NatRecord (Fin 60))) [] =
      (tunnelNode officeTunnel).configOf wholeFloats [] [] := by
  have hsorted (t : WgTunnel) : orderByText WgTunnel.createdAt [t] = [t] :=
    List.mergeSort_singleton t
  have htunnels : ((orderByText WgTunnel.createdAt (tunnelNode splitTunnel).wgTunnels).map fun t =>
        t.config ((tunnelNode splitTunnel).peersOf t)) =
      (orderByText WgTunnel.createdAt (tunnelNode officeTunnel).wgTunnels).map fun t =>
        t.config ((tunnelNode officeTunnel).peersOf t) := by
    change (orderByText WgTunnel.createdAt [splitTunnel]).map _ =
      (orderByText WgTunnel.createdAt [officeTunnel]).map _
    rw [hsorted, hsorted]
    rfl
  unfold AppState.configOf
  rw [htunnels]
  rfl

/-- A restore of that configuration leaves the tunnel without split routes. -/
theorem splitRoutes_lost {mid t : AppState}
    (h : Reloaded quietEnv wholeFloats NatRuleRow.minute .new
      ((tunnelNode splitTunnel).configOf wholeFloats [] []) mid t) :
    t.wgTunnels.map WgTunnel.splitRoutes = [none] ∧ ¬RowsKept (tunnelNode splitTunnel) t := by
  obtain ⟨hrules, htunnels⟩ := tunnelNode_lists officeTunnel
  rw [configOf_splitTunnel] at h
  have hkept : RowsKept (tunnelNode officeTunnel) t := h.kept_iff.mpr
    ((sections_iff (tunnelNode_stored officeTunnel_address) hrules htunnels).mpr
      officeNode_restorable)
  have hrows : t.wgTunnels.map WgTunnel.settled = [officeTunnel.settled] :=
    List.perm_singleton.mp hkept.wireguard.tunnels
  constructor
  · have hroutes := congrArg (List.map WgTunnel.splitRoutes) hrows
    rw [List.map_map] at hroutes
    exact hroutes
  · intro hsplit
    have hsplitRows : t.wgTunnels.map WgTunnel.settled = [splitTunnel.settled] :=
      List.perm_singleton.mp hsplit.wireguard.tunnels
    have hsame := (List.cons.inj (hrows.symm.trans hsplitRows)).1
    cases congrArg WgTunnel.splitRoutes hsame

/-- A configuration with a rule that no engine takes. -/
def emptyPatternConfig : FirewallConfig Nat (Fin 60) :=
  { FirewallConfig.default wholeFloats with tls := ⟨[], [⟨1, [], .block, none⟩]⟩ }

theorem emptyPattern_refused (s : AppState) :
    ∃ mid, applyFirewallConfig quietEnv wholeFloats NatRuleRow.minute .new emptyPatternConfig s =
      .error mid := by
  cases h : applyFirewallConfig quietEnv wholeFloats NatRuleRow.minute .new emptyPatternConfig s with
  | ok s' => cases (apply_reloads h).sniRules
  | error mid => exact ⟨mid, rfl⟩

/-- A restore of the current configuration, and a rollback that is reported to have restored the
tables, drop the split routes of a tunnel. -/
theorem restore_drops_splitRoutes :
    VpnEngine.addWgTunnel [] splitTunnel = .ok [splitTunnel] ∧
      (tunnelNode splitTunnel).Stored NatRuleRow.minute ∧
      (∃ config s', (tunnelNode splitTunnel).buildCurrentConfig wholeFloats NatRuleRow.minute =
          some config ∧
        applyFirewallConfig quietEnv wholeFloats NatRuleRow.minute .new config
          (tunnelNode splitTunnel) = .ok s' ∧ s'.wgTunnels.map WgTunnel.splitRoutes = [none]) ∧
      (∃ config t, applyFirewallConfigOrRollback quietEnv quietEnv wholeFloats NatRuleRow.minute .new
          config (tunnelNode splitTunnel) = some (t, .rolledBack) ∧
        t.wgTunnels.map WgTunnel.splitRoutes = [none]) ∧
      ¬RestoresItself quietEnv wholeFloats NatRuleRow.minute (tunnelNode splitTunnel) := by
  have hstored : (tunnelNode splitTunnel).Stored NatRuleRow.minute :=
    tunnelNode_stored officeTunnel_address
  obtain ⟨hrules, htunnels⟩ := tunnelNode_lists splitTunnel
  have hbuild : (tunnelNode splitTunnel).buildCurrentConfig wholeFloats NatRuleRow.minute =
      some ((tunnelNode splitTunnel).configOf wholeFloats [] []) :=
    buildCurrentConfig_iff.mpr ⟨[], [], hrules, htunnels, rfl⟩
  have hadmitted : Admitted quietEnv NatRuleRow.minute .new
      ((tunnelNode splitTunnel).configOf wholeFloats [] []) := by
    rw [configOf_splitTunnel]
    obtain ⟨hrules, htunnels⟩ := tunnelNode_lists officeTunnel
    exact ((sections_iff (tunnelNode_stored officeTunnel_address) hrules htunnels).mpr
      officeNode_restorable).admitted
  obtain ⟨s', happly⟩ := hadmitted.applies wholeFloats (tunnelNode splitTunnel)
  obtain ⟨mid, hrefused⟩ := emptyPattern_refused (tunnelNode splitTunnel)
  obtain ⟨t, hback⟩ := hadmitted.applies wholeFloats mid
  have hrolled := rolledBack_of hbuild hrefused hback
  refine ⟨by decide, hstored, ⟨_, s', hbuild, happly, (splitRoutes_lost (apply_reloads happly)).1⟩,
    ⟨_, t, hrolled, (splitRoutes_lost (apply_reloads hback)).1⟩, ?_⟩
  intro hself
  exact (splitRoutes_lost (apply_reloads hback)).2 (hself.rollback _ _ _ t hrolled)

end AiFw.Backup
