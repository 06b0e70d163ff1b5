import AiFw.Backup.Export

namespace AiFw.Backup
open AiFw.Lib AiFw.Net AiFw.Pf AiFw.Ha
open AiFw.Wan (Uuid displayUuid)
open AiFw.Aliases (Alias AliasType)
set_option autoImplicit true

def FilterRule.timeless (r : FilterRule) : FilterRule := { r with createdAt := [], updatedAt := [] }

def natTimeless (r : NatRuleRow) : NatRuleRow := { r with createdAt := [], updatedAt := [] }

def aliasTimeless (a : Alias) : Alias := { a with createdAt := [], updatedAt := [] }

def StaticRoute.timeless (r : StaticRoute) : StaticRoute := { r with createdAt := [] }

def GeoIpRule.timeless (g : GeoIpRule) : GeoIpRule := { g with createdAt := [], updatedAt := [] }

def WgTunnel.timeless (t : WgTunnel) : WgTunnel := { t with createdAt := [], updatedAt := [] }

def WgPeer.timeless (p : WgPeer) : WgPeer := { p with createdAt := [], updatedAt := [] }

def IpsecSa.timeless (s : IpsecSa) : IpsecSa := { s with createdAt := [], updatedAt := [] }

def tunnelTimeless (r : Vpn.IpsecTunnelRow) : Vpn.IpsecTunnelRow :=
  { r with createdAt := [], updatedAt := [] }

def QueueConfig.timeless (q : QueueConfig) : QueueConfig := { q with createdAt := [], updatedAt := [] }

def rateLimitTimeless (r : RateLimitRule) : RateLimitRule :=
  { r with createdAt := [], updatedAt := [] }

def SniRule.timeless (r : SniRule) : SniRule := { r with createdAt := [], updatedAt := [] }

def Ja3Block.timeless (b : Ja3Block) : Ja3Block := { b with createdAt := [] }

def vipTimeless (v : CarpVip) : CarpVip := { v with createdAt := [], updatedAt := [] }

def pfsyncTimeless (p : PfsyncConfig) : PfsyncConfig := { p with createdAt := [] }

def nodeWithoutKeys (n : ClusterNode) : ClusterNode :=
  { n with
      lastSeen := []
      createdAt := []
      lastPushedCertAt := none
      peerApiKey := none
      peerApiKeyHash := none }

def DhcpSubnet.timeless (s : DhcpSubnet) : DhcpSubnet := { s with createdAt := [] }

def DhcpReservation.timeless (r : DhcpReservation) : DhcpReservation := { r with createdAt := [] }

/-- Two nodes list the same rows of the replicated tables, up to the times and the credentials. -/
structure SameTables (a b : AppState) : Prop where
  rules : (listFilterRules a.rules).map FilterRule.timeless =
    (listFilterRules b.rules).map FilterRule.timeless
  natRules : (NatRuleRow.byCreatedAt a.natRules).map natTimeless =
    (NatRuleRow.byCreatedAt b.natRules).map natTimeless
  aliases : (Aliases.list a.aliases).map aliasTimeless = (Aliases.list b.aliases).map aliasTimeless
  staticRoutes : (orderByInt StaticRoute.metric a.staticRoutes).map StaticRoute.timeless =
    (orderByInt StaticRoute.metric b.staticRoutes).map StaticRoute.timeless
  geoipRules : (orderByText GeoIpRule.country a.geoipRules).map GeoIpRule.timeless =
    (orderByText GeoIpRule.country b.geoipRules).map GeoIpRule.timeless
  wgTunnels : (orderByText WgTunnel.createdAt a.wgTunnels).map WgTunnel.timeless =
    (orderByText WgTunnel.createdAt b.wgTunnels).map WgTunnel.timeless
  wgPeers : (listWgPeers a.wgPeers).map WgPeer.timeless =
    (listWgPeers b.wgPeers).map WgPeer.timeless
  ipsecSas : (orderByText IpsecSa.createdAt a.ipsecSas).map IpsecSa.timeless =
    (orderByText IpsecSa.createdAt b.ipsecSas).map IpsecSa.timeless
  ipsecTunnels : (orderByText Vpn.IpsecTunnelRow.createdAt a.ipsecTunnels.rows).map tunnelTimeless =
    (orderByText Vpn.IpsecTunnelRow.createdAt b.ipsecTunnels.rows).map tunnelTimeless
  queueConfigs : (orderByText QueueConfig.createdAt a.queueConfigs).map QueueConfig.timeless =
    (orderByText QueueConfig.createdAt b.queueConfigs).map QueueConfig.timeless
  rateLimitRules : (orderByText (fun r => r.createdAt) a.rateLimitRules).map rateLimitTimeless =
    (orderByText (fun r => r.createdAt) b.rateLimitRules).map rateLimitTimeless
  sniRules : (orderByText SniRule.pattern a.sniRules).map SniRule.timeless =
    (orderByText SniRule.pattern b.sniRules).map SniRule.timeless
  ja3Blocklist : (orderByTextDesc Ja3Block.createdAt a.ja3Blocklist).map Ja3Block.timeless =
    (orderByTextDesc Ja3Block.createdAt b.ja3Blocklist).map Ja3Block.timeless
  carpVips : (orderByInt (fun v => v.vhid.toNat) a.carpVips).map vipTimeless =
    (orderByInt (fun v => v.vhid.toNat) b.carpVips).map vipTimeless
  pfsyncConfig : a.pfsyncConfig.map pfsyncTimeless = b.pfsyncConfig.map pfsyncTimeless
  clusterNodes : (orderByText (fun n => n.name) a.clusterNodes).map nodeWithoutKeys =
    (orderByText (fun n => n.name) b.clusterNodes).map nodeWithoutKeys
  dhcpSubnets : (orderByText DhcpSubnet.createdAt a.dhcpSubnets).map DhcpSubnet.timeless =
    (orderByText DhcpSubnet.createdAt b.dhcpSubnets).map DhcpSubnet.timeless
  dhcpReservations :
    (orderByText DhcpReservation.ipAddress a.dhcpReservations).map DhcpReservation.timeless =
      (orderByText DhcpReservation.ipAddress b.dhcpReservations).map DhcpReservation.timeless
  dhcpConfig : a.dhcpConfig = b.dhcpConfig
  dhcpDdnsConfig : a.dhcpDdnsConfig = b.dhcpDdnsConfig
  dhcpHaConfig : a.dhcpHaConfig = b.dhcpHaConfig
  maxStates : configuredMaxStates a.authConfig = configuredMaxStates b.authConfig
  idsRules : a.ids.ruleOverrides = b.ids.ruleOverrides
  idsSuppressions : a.ids.suppressionRecords = b.ids.suppressionRecords

/-- The times that are exported with their rows. -/
structure SameTimes (chrono : Rfc3339 DateTime) (a b : AppState) : Prop where
  ipsecTunnels :
    (orderByText Vpn.IpsecTunnelRow.createdAt a.ipsecTunnels.rows).map
        (fun r => (chrono.parse r.createdAt, chrono.parse r.updatedAt)) =
      (orderByText Vpn.IpsecTunnelRow.createdAt b.ipsecTunnels.rows).map
        fun r => (chrono.parse r.createdAt, chrono.parse r.updatedAt)
  dhcpSubnets : (orderByText DhcpSubnet.createdAt a.dhcpSubnets).map DhcpSubnet.createdAt =
    (orderByText DhcpSubnet.createdAt b.dhcpSubnets).map DhcpSubnet.createdAt
  dhcpReservations :
    (orderByText DhcpReservation.ipAddress a.dhcpReservations).map DhcpReservation.createdAt =
      (orderByText DhcpReservation.ipAddress b.dhcpReservations).map DhcpReservation.createdAt

/-- What a node has for itself and exports. -/
structure SameLocals (a b : AppState) : Prop where
  hostname : a.gethostname.getD "aifw".toList = b.gethostname.getD "aifw".toList
  resolver : a.resolverServers = b.resolverServers
  authSettings : a.authSettings = b.authSettings

/-- The rows with a time that is parsed can be read. -/
def AppState.Readable (chrono : Rfc3339 DateTime) (s : AppState) : Prop :=
  (∃ rules, NatRuleRow.listRules chrono s.natRules = .ok rules) ∧
    ∃ tunnels, s.ipsecTunnels.listTunnels chrono = .ok tunnels

/-- The texts of a payload in JSON and their hash. -/
structure SnapshotText (Payload Json : Type) where
  toJson : Payload → Json
  sha256Hex : Json → List Char

structure ClusterSnapshotCache (Json : Type) where
  generation : UInt64
  builtAt : Nat
  json : Json
  hash : List Char

/-- The age in nanoseconds up to which a cached snapshot is returned. -/
def maxAge : Nat := 60 * 10 ^ 9

namespace AppState
variable (fl : FloatText F) (chrono : Rfc3339 DateTime)

abbrev Payload (F DateTime : Type) := ClusterSnapshotPayload (FirewallConfig F DateTime)

def clusterExportPayload (s : AppState) : Option (Payload F DateTime) := do
  let firewall ← s.buildCurrentConfig fl chrono
  return ⟨firewall, s.ids.ruleOverrides, s.ids.suppressionRecords⟩

variable (txt : SnapshotText (Payload F DateTime) Json)

/-- The snapshot and its hash, with the cache after the call. -/
def clusterSnapshotData (now : Nat) (generation : UInt64)
    (cache : Option (ClusterSnapshotCache Json)) (s : AppState) :
    Option (Json × List Char) × Option (ClusterSnapshotCache Json) :=
  match cache.filter fun c => c.generation == generation && decide (now - c.builtAt < maxAge) with
  | some c => (some (c.json, c.hash), cache)
  | none =>
    match s.clusterExportPayload fl chrono with
    | none => (none, cache)
    | some payload =>
      let json := txt.toJson payload
      let hash := txt.sha256Hex json
      (some (json, hash), some ⟨generation, now, json, hash⟩)

/-- Both nodes return a snapshot, under the same hash. -/
def SameHash (a b : AppState) : Prop :=
  ∀ nowA nowB generationA generationB, ∃ jsonA jsonB hash,
    (clusterSnapshotData fl chrono txt nowA generationA none a).1 = some (jsonA, hash) ∧
      (clusterSnapshotData fl chrono txt nowB generationB none b).1 = some (jsonB, hash)

end AppState

variable {fl : FloatText F} {chrono : Rfc3339 DateTime} {a b : AppState}

theorem DhcpSubnet.eq_of_view (s s' : DhcpSubnet) (h : s.timeless = s'.timeless)
    (htime : s.createdAt = s'.createdAt) : s = s' := by
  calc s = { s.timeless with createdAt := s.createdAt } := rfl
    _ = { s'.timeless with createdAt := s'.createdAt } := by rw [h, htime]
    _ = s' := rfl

theorem DhcpReservation.eq_of_view (r r' : DhcpReservation) (h : r.timeless = r'.timeless)
    (htime : r.createdAt = r'.createdAt) : r = r' := by
  calc r = { r.timeless with createdAt := r.createdAt } := rfl
    _ = { r'.timeless with createdAt := r'.createdAt } := by rw [h, htime]
    _ = r' := rfl

theorem natConfig_of_view {row row' : NatRuleRow} {r r' : NatRecord DateTime}
    (h : row.intoNatRule chrono = .ok r) (h' : row'.intoNatRule chrono = .ok r')
    (hview : natTimeless row = natTimeless row') : natConfig r = natConfig r' := by
  cases row
  cases row'
  simp only [natTimeless, NatRuleRow.mk.injEq] at hview
  obtain ⟨rfl, rfl, rfl, rfl, rfl, rfl, rfl, rfl, rfl, rfl, rfl, rfl, rfl, rfl, rfl, -⟩ := hview
  simp only [NatRuleRow.intoNatRule, bind_ok] at h h'
  obtain ⟨t, ht, p, hp, src, hsrc, dst, hdst, target, htarget, _, _, _, _, h⟩ := h
  obtain ⟨t', ht', p', hp', src', hsrc', dst', hdst', target', htarget', _, _, _, _, h'⟩ := h'
  cases ht.symm.trans ht'
  cases hp.symm.trans hp'
  cases hsrc.symm.trans hsrc'
  cases hdst.symm.trans hdst'
  cases htarget.symm.trans htarget'
  cases h
  cases h'
  rfl

theorem parseTs_ok {text : List Char} {t : DateTime} :
    Vpn.IpsecTunnelRow.parseTs chrono text = .ok t ↔ chrono.parse text = some t := by
  unfold Vpn.IpsecTunnelRow.parseTs
  cases chrono.parse text with
  | none => exact ⟨(fun h => nomatch h), fun h => nomatch h⟩
  | some t' =>
    constructor
    · intro h
      cases h
      rfl
    · intro h
      cases h
      rfl

/-- A tunnel is read with the times of its row. -/
theorem times_of_tunnel {row : Vpn.IpsecTunnelRow} {t : Vpn.IpsecTunnel DateTime}
    (h : row.intoTunnel chrono = .ok t) :
    (chrono.parse row.createdAt, chrono.parse row.updatedAt) =
      (some t.createdAt, some t.updatedAt) := by
  simp only [Vpn.IpsecTunnelRow.intoTunnel, bind_ok] at h
  obtain ⟨_, _, _, _, _, _, created, hcreated, updated, hupdated, h⟩ := h
  cases h
  rw [parseTs_ok.mp hcreated, parseTs_ok.mp hupdated]

theorem tunnel_of_views {row row' : Vpn.IpsecTunnelRow} {t t' : Vpn.IpsecTunnel DateTime}
    (h : row.intoTunnel chrono = .ok t) (h' : row'.intoTunnel chrono = .ok t')
    (hview : (tunnelTimeless row, chrono.parse row.createdAt, chrono.parse row.updatedAt) =
      (tunnelTimeless row', chrono.parse row'.createdAt, chrono.parse row'.updatedAt)) : t = t' := by
  have htimes : (some t.createdAt, some t.updatedAt) = (some t'.createdAt, some t'.updatedAt) := by
    rw [← times_of_tunnel h, ← times_of_tunnel h']
    exact congrArg Prod.snd hview
  have hrow := congrArg Prod.fst hview
  cases row
  cases row'
  simp only [tunnelTimeless, Vpn.IpsecTunnelRow.mk.injEq] at hrow
  obtain ⟨rfl, rfl, rfl, rfl, rfl, rfl, rfl, rfl, rfl, rfl, rfl, rfl, rfl, rfl, rfl, rfl, rfl, rfl,
    rfl, rfl, rfl, rfl, -⟩ := hrow
  simp only [Vpn.IpsecTunnelRow.intoTunnel, bind_ok] at h h'
  obtain ⟨m, hm, c, hc, sa, hsa, created, _, updated, _, h⟩ := h
  obtain ⟨m', hm', c', hc', sa', hsa', created', _, updated', _, h'⟩ := h'
  cases hm.symm.trans hm'
  cases hc.symm.trans hc'
  cases hsa.symm.trans hsa'
  cases h
  cases h'
  cases htimes
  rfl

theorem times_of_tunnels {table : Vpn.TunnelTable} {tunnels : List (Vpn.IpsecTunnel DateTime)}
    (h : table.listTunnels chrono = .ok tunnels) :
    (orderByText Vpn.IpsecTunnelRow.createdAt table.rows).map
        (fun r => (chrono.parse r.createdAt, chrono.parse r.updatedAt)) =
      tunnels.map fun t => (some t.createdAt, some t.updatedAt) :=
  map_of_forall₂ (fun _ _ hr => times_of_tunnel hr) (mapM_ok.mp h)

theorem tunnels_eq {table table' : Vpn.TunnelTable}
    {tunnels tunnels' : List (Vpn.IpsecTunnel DateTime)}
    (h : table.listTunnels chrono = .ok tunnels) (h' : table'.listTunnels chrono = .ok tunnels')
    (hrows : (orderByText Vpn.IpsecTunnelRow.createdAt table.rows).map tunnelTimeless =
      (orderByText Vpn.IpsecTunnelRow.createdAt table'.rows).map tunnelTimeless)
    (htimes : (orderByText Vpn.IpsecTunnelRow.createdAt table.rows).map
        (fun r => (chrono.parse r.createdAt, chrono.parse r.updatedAt)) =
      (orderByText Vpn.IpsecTunnelRow.createdAt table'.rows).map
        fun r => (chrono.parse r.createdAt, chrono.parse r.updatedAt)) : tunnels = tunnels' := by
  have hsame : tunnels.map id = tunnels'.map id := by
    apply map_eq_of_forall₂ _ (mapM_ok.mp h) (mapM_ok.mp h') (map_pair_eq hrows htimes)
    intro row row' t t' ht ht' hview
    exact tunnel_of_views ht ht' hview
  rwa [List.map_id, List.map_id] at hsame

theorem wireguard_eq (htunnels : (orderByText WgTunnel.createdAt a.wgTunnels).map WgTunnel.timeless =
      (orderByText WgTunnel.createdAt b.wgTunnels).map WgTunnel.timeless)
    (hpeers : (listWgPeers a.wgPeers).map WgPeer.timeless =
      (listWgPeers b.wgPeers).map WgPeer.timeless) :
    (orderByText WgTunnel.createdAt a.wgTunnels).map (fun t => t.config (a.peersOf t)) =
      (orderByText WgTunnel.createdAt b.wgTunnels).map fun t => t.config (b.peersOf t) := by
  have hown (t : WgTunnel) : (a.peersOf t).map WgPeer.timeless = (b.peersOf t).map WgPeer.timeless := by
    have hfilter := congrArg (List.filter fun p : WgPeer => p.tunnelId = t.id) hpeers
    rw [List.filter_map, List.filter_map] at hfilter
    exact hfilter
  have hconfig (t : WgTunnel) : t.config (a.peersOf t) = t.config (b.peersOf t) := by
    have hentries : (a.peersOf t).map WgPeer.config = (b.peersOf t).map WgPeer.config :=
      map_eq_of_view WgPeer.config (hown t) (fun _ => rfl) fun _ => rfl
    rw [WgTunnel.config, hentries, WgTunnel.config]
  have hview (t : WgTunnel) : t.config (b.peersOf t) = t.timeless.config (b.peersOf t.timeless) := rfl
  exact map_eq_of_view (fun t => t.config (b.peersOf t)) htunnels
    (fun t => (hconfig t).trans (hview t)) hview

/-- With the same tables, the configurations are the same exactly if the exported times and what
the nodes have for themselves are. -/
theorem SameTables.configOf_iff (h : SameTables a b) (fl : FloatText F) {natA natB : List (NatRecord DateTime)}
    {tunnelsA tunnelsB : List (Vpn.IpsecTunnel DateTime)}
    (hnatA : NatRuleRow.listRules chrono a.natRules = .ok natA)
    (hnatB : NatRuleRow.listRules chrono b.natRules = .ok natB)
    (htunnelsA : a.ipsecTunnels.listTunnels chrono = .ok tunnelsA)
    (htunnelsB : b.ipsecTunnels.listTunnels chrono = .ok tunnelsB) :
    a.configOf fl natA tunnelsA = b.configOf fl natB tunnelsB ↔
      SameTimes chrono a b ∧ SameLocals a b := by
  constructor
  · intro he
    have hsystem := congrArg FirewallConfig.system he
    have htunnels : tunnelsA = tunnelsB := congrArg (fun c => c.vpn.ipsecTunnels) he
    have hsubnets : orderByText DhcpSubnet.createdAt a.dhcpSubnets =
        orderByText DhcpSubnet.createdAt b.dhcpSubnets := congrArg (fun c => c.dhcp.subnets) he
    have hreservations : orderByText DhcpReservation.ipAddress a.dhcpReservations =
        orderByText DhcpReservation.ipAddress b.dhcpReservations :=
      congrArg (fun c => c.dhcp.reservations) he
    refine ⟨⟨?_, by rw [hsubnets], by rw [hreservations]⟩, congrArg SystemConfig.hostname hsystem,
      congrArg SystemConfig.dnsServers hsystem, congrArg FirewallConfig.auth he⟩
    rw [times_of_tunnels htunnelsA, times_of_tunnels htunnelsB, htunnels]
  · rintro ⟨htimes, hlocals⟩
    have hrules : (listFilterRules a.rules).map FilterRule.config =
        (listFilterRules b.rules).map FilterRule.config :=
      map_eq_of_view FilterRule.config h.rules (fun _ => rfl) fun _ => rfl
    have hnat : natA.map natConfig = natB.map natConfig := by
      apply map_eq_of_forall₂ _ (mapM_ok.mp hnatA) (mapM_ok.mp hnatB) h.natRules
      intro row row' r r' hr hr' hview
      exact natConfig_of_view hr hr' hview
    have haliases : a.aliasesSection = b.aliasesSection :=
      map_eq_of_view aliasConfig h.aliases (fun _ => rfl) fun _ => rfl
    have hroutes : a.staticRoutesSection = b.staticRoutesSection :=
      map_eq_of_view StaticRoute.config h.staticRoutes (fun _ => rfl) fun _ => rfl
    have hgeoip : (orderByText GeoIpRule.country a.geoipRules).map GeoIpRule.config =
        (orderByText GeoIpRule.country b.geoipRules).map GeoIpRule.config :=
      map_eq_of_view GeoIpRule.config h.geoipRules (fun _ => rfl) fun _ => rfl
    have hwireguard := wireguard_eq h.wgTunnels h.wgPeers
    have hsas : (orderByText IpsecSa.createdAt a.ipsecSas).map IpsecSa.config =
        (orderByText IpsecSa.createdAt b.ipsecSas).map IpsecSa.config :=
      map_eq_of_view IpsecSa.config h.ipsecSas (fun _ => rfl) fun _ => rfl
    have htunnels : tunnelsA = tunnelsB :=
      tunnels_eq htunnelsA htunnelsB h.ipsecTunnels htimes.ipsecTunnels
    have hqueues : (orderByText QueueConfig.createdAt a.queueConfigs).map QueueConfig.config =
        (orderByText QueueConfig.createdAt b.queueConfigs).map QueueConfig.config :=
      map_eq_of_view QueueConfig.config h.queueConfigs (fun _ => rfl) fun _ => rfl
    have hlimits : (orderByText (fun r => r.createdAt) a.rateLimitRules).map rateLimitConfig =
        (orderByText (fun r => r.createdAt) b.rateLimitRules).map rateLimitConfig :=
      map_eq_of_view rateLimitConfig h.rateLimitRules (fun _ => rfl) fun _ => rfl
    have hsni : (orderByText SniRule.pattern a.sniRules).map SniRule.config =
        (orderByText SniRule.pattern b.sniRules).map SniRule.config :=
      map_eq_of_view SniRule.config h.sniRules (fun _ => rfl) fun _ => rfl
    have hja3 : (orderByTextDesc Ja3Block.createdAt a.ja3Blocklist).map Ja3Block.hash =
        (orderByTextDesc Ja3Block.createdAt b.ja3Blocklist).map Ja3Block.hash :=
      map_eq_of_view Ja3Block.hash h.ja3Blocklist (fun _ => rfl) fun _ => rfl
    have hvips : (orderByInt (fun v => v.vhid.toNat) a.carpVips).map carpVipConfig =
        (orderByInt (fun v => v.vhid.toNat) b.carpVips).map carpVipConfig :=
      map_eq_of_view carpVipConfig h.carpVips (fun _ => rfl) fun _ => rfl
    have hpfsync : a.pfsyncConfig.head?.map pfsyncEntry = b.pfsyncConfig.head?.map pfsyncEntry := by
      rw [← List.head?_map, ← List.head?_map]
      exact congrArg List.head?
        (map_eq_of_view pfsyncEntry h.pfsyncConfig (fun _ => rfl) fun _ => rfl)
    have hnodes : (orderByText (fun n => n.name) a.clusterNodes).map clusterNodeConfig =
        (orderByText (fun n => n.name) b.clusterNodes).map clusterNodeConfig :=
      map_eq_of_view clusterNodeConfig h.clusterNodes (fun _ => rfl) fun _ => rfl
    have hdhcp : a.dhcpSection fl = b.dhcpSection fl := by
      have hsubnets := eq_of_views DhcpSubnet.eq_of_view h.dhcpSubnets htimes.dhcpSubnets
      have hreservations :=
        eq_of_views DhcpReservation.eq_of_view h.dhcpReservations htimes.dhcpReservations
      rw [AppState.dhcpSection, hsubnets, hreservations, h.dhcpConfig, h.dhcpDdnsConfig,
        h.dhcpHaConfig, AppState.dhcpSection]
    rw [AppState.configOf, AppState.configOf, hlocals.hostname, hlocals.resolver,
      hlocals.authSettings, hrules, hnat, hqueues, hlimits, hwireguard, hsas, htunnels, hgeoip, hja3,
      hsni, hvips, hpfsync, hnodes, h.maxStates, hdhcp, haliases, hroutes]

namespace AppState

theorem buildCurrentConfig_of {s : AppState} {rules : List (NatRecord DateTime)}
    {tunnels : List (Vpn.IpsecTunnel DateTime)}
    (hrules : NatRuleRow.listRules chrono s.natRules = .ok rules)
    (htunnels : s.ipsecTunnels.listTunnels chrono = .ok tunnels) :
    s.buildCurrentConfig fl chrono = some (s.configOf fl rules tunnels) := by
  rw [buildCurrentConfig, hrules, htunnels]
  rfl

theorem readable_of_build {s : AppState} {config : FirewallConfig F DateTime}
    (h : s.buildCurrentConfig fl chrono = some config) : s.Readable chrono := by
  unfold buildCurrentConfig at h
  obtain ⟨rules, hrules, h⟩ := Option.bind_eq_some_iff.mp h
  obtain ⟨tunnels, htunnels, -⟩ := Option.bind_eq_some_iff.mp h
  refine ⟨⟨rules, ?_⟩, tunnels, ?_⟩
  · cases hlist : NatRuleRow.listRules chrono s.natRules with
    | error e =>
      rw [hlist] at hrules
      cases hrules
    | ok found =>
      rw [hlist] at hrules
      cases hrules
      rfl
  · cases hlist : s.ipsecTunnels.listTunnels chrono with
    | error e =>
      rw [hlist] at htunnels
      cases htunnels
    | ok found =>
      rw [hlist] at htunnels
      cases htunnels
      rfl

variable {txt : SnapshotText (Payload F DateTime) Json}

theorem clusterExportPayload_of {s : AppState} {config : FirewallConfig F DateTime}
    (h : s.buildCurrentConfig fl chrono = some config) :
    s.clusterExportPayload fl chrono =
      some ⟨config, s.ids.ruleOverrides, s.ids.suppressionRecords⟩ := by
  rw [clusterExportPayload, h]
  rfl

theorem clusterSnapshotData_empty (now : Nat) (generation : UInt64) (s : AppState) :
    (clusterSnapshotData fl chrono txt now generation none s).1 =
      (s.clusterExportPayload fl chrono).map fun p =>
        (txt.toJson p, txt.sha256Hex (txt.toJson p)) := by
  unfold clusterSnapshotData
  rw [Option.filter_none]
  cases s.clusterExportPayload fl chrono <;> rfl

theorem export_eq {a b : AppState} (h : SameTables a b) (ha : a.Readable chrono)
    (hb : b.Readable chrono) (htimes : SameTimes chrono a b) (hlocals : SameLocals a b) :
    a.clusterExportPayload fl chrono = b.clusterExportPayload fl chrono := by
  obtain ⟨⟨natA, hnatA⟩, tunnelsA, htunnelsA⟩ := ha
  obtain ⟨⟨natB, hnatB⟩, tunnelsB, htunnelsB⟩ := hb
  have hconfig := (h.configOf_iff fl hnatA hnatB htunnelsA htunnelsB).mpr ⟨htimes, hlocals⟩
  rw [clusterExportPayload_of (buildCurrentConfig_of hnatA htunnelsA),
    clusterExportPayload_of (buildCurrentConfig_of hnatB htunnelsB), hconfig, h.idsRules,
    h.idsSuppressions]

theorem hostname_of_export {s : AppState} {p : Payload F DateTime}
    (h : s.clusterExportPayload fl chrono = some p) :
    p.firewall.system.hostname = s.gethostname.getD "aifw".toList := by
  obtain ⟨config, hbuild, hp⟩ := Option.bind_eq_some_iff.mp h
  cases hp
  obtain ⟨rules, -, hbuild⟩ := Option.bind_eq_some_iff.mp hbuild
  obtain ⟨tunnels, -, hbuild⟩ := Option.bind_eq_some_iff.mp hbuild
  cases hbuild
  rfl

/-- The nodes with the same tables return the same hash if and only if their rows can be read, the
times that are exported are the same, and so are the host name, the resolvers and the settings of
the sign-in. The texts tell the two payloads apart, and their hashes do not collide. -/
theorem same_hash_iff {a b : AppState} (h : SameTables a b)
    (hjson : ∀ p q, a.clusterExportPayload fl chrono = some p →
      b.clusterExportPayload fl chrono = some q → txt.toJson p = txt.toJson q → p = q)
    (hsha : ∀ p q, a.clusterExportPayload fl chrono = some p →
      b.clusterExportPayload fl chrono = some q →
      txt.sha256Hex (txt.toJson p) = txt.sha256Hex (txt.toJson q) → txt.toJson p = txt.toJson q) :
    SameHash fl chrono txt a b ↔
      (a.Readable chrono ∧ b.Readable chrono) ∧ SameTimes chrono a b ∧ SameLocals a b := by
  constructor
  · intro hsame
    obtain ⟨jsonA, jsonB, hash, hdataA, hdataB⟩ := hsame 0 0 0 0
    rw [clusterSnapshotData_empty, Option.map_eq_some_iff] at hdataA hdataB
    obtain ⟨p, hp, heA⟩ := hdataA
    obtain ⟨q, hq, heB⟩ := hdataB
    have hhash : txt.sha256Hex (txt.toJson p) = txt.sha256Hex (txt.toJson q) :=
      (congrArg Prod.snd heA).trans (congrArg Prod.snd heB).symm
    have hpq := hjson p q hp hq (hsha p q hp hq hhash)
    obtain ⟨configA, hbuildA, hpayloadA⟩ := Option.bind_eq_some_iff.mp hp
    obtain ⟨configB, hbuildB, hpayloadB⟩ := Option.bind_eq_some_iff.mp hq
    cases hpayloadA
    cases hpayloadB
    have hconfig : configA = configB := congrArg ClusterSnapshotPayload.firewall hpq
    have hreadA := readable_of_build hbuildA
    have hreadB := readable_of_build hbuildB
    refine ⟨⟨hreadA, hreadB⟩, ?_⟩
    obtain ⟨⟨natA, hnatA⟩, tunnelsA, htunnelsA⟩ := hreadA
    obtain ⟨⟨natB, hnatB⟩, tunnelsB, htunnelsB⟩ := hreadB
    rw [buildCurrentConfig_of hnatA htunnelsA] at hbuildA
    rw [buildCurrentConfig_of hnatB htunnelsB] at hbuildB
    apply (h.configOf_iff fl hnatA hnatB htunnelsA htunnelsB).mp
    rw [Option.some.inj hbuildA, Option.some.inj hbuildB, hconfig]
  · rintro ⟨⟨hreadA, hreadB⟩, htimes, hlocals⟩
    intro nowA nowB generationA generationB
    have hexport : a.clusterExportPayload fl chrono = b.clusterExportPayload fl chrono :=
      export_eq h hreadA hreadB htimes hlocals
    obtain ⟨⟨nat, hnat⟩, tunnels, htunnels⟩ := hreadB
    rw [clusterSnapshotData_empty, clusterSnapshotData_empty, hexport,
      clusterExportPayload_of (buildCurrentConfig_of hnat htunnels)]
    exact ⟨_, _, _, rfl, rfl⟩

end AppState

/-- A node without rows. -/
def bareNode (hostname : List Char) : AppState where
  rules := []
  natRules := []
  aliases := []
  staticRoutes := []
  geoipRules := []
  wgTunnels := []
  wgPeers := []
  ipsecSas := []
  ipsecTunnels := .empty
  queueConfigs := []
  rateLimitRules := []
  sniRules := []
  ja3Blocklist := []
  carpVips := []
  pfsyncConfig := []
  clusterNodes := []
  dhcpSubnets := []
  dhcpReservations := []
  dhcpConfig := .empty
  dhcpDdnsConfig := .empty
  dhcpHaConfig := .empty
  authConfig := .empty
  authSettings := .default
  hostnameFile := some hostname
  resolvConf := none
  ids := ⟨[], []⟩

/-- Floats that are whole numbers. -/
def wholeFloats : FloatText Nat := ⟨parseUnsigned (2 ^ 53), Nat.toDigits 10, 100⟩

/-- The payloads stand for their texts, and the host names tell their hashes apart. -/
def bareText : SnapshotText (AppState.Payload Nat (Fin 60)) (AppState.Payload Nat (Fin 60)) where
  toJson := id
  sha256Hex p :=
    if p.firewall.system.hostname = "fw1".toList then
      "d62c8e6ebf9ed5e986e2f61af8f23bcf428d4217bafd8b32e031f7ce88fcc3aa".toList
    else "cca1febc7bc5f90fcece9754d24e678b732c8e5dc99fb96d3df2d34dbf30624e".toList

theorem bareNode_tables (hostname hostname' : List Char) :
    SameTables (bareNode hostname) (bareNode hostname') := by
  constructor <;> rfl

theorem bareNode_times (hostname hostname' : List Char) :
    SameTimes NatRuleRow.minute (bareNode hostname) (bareNode hostname') := by
  constructor <;> rfl

theorem bareNode_readable (hostname : List Char) :
    (bareNode hostname).Readable NatRuleRow.minute := by
  refine ⟨⟨[], NatRuleRow.listsAs_nil.1⟩, [], ?_⟩
  change (List.mergeSort [] _).mapM _ = _
  rw [List.mergeSort_nil]
  rfl

/-- What an operator has put into the four tables of the snapshot. -/
def sshRule : FilterRule where
  id := 1
  priority := 10
  action := .pass
  direction := .in
  ipVersion := .both
  interface := some "em0".toList
  protocol := .tcp
  ruleMatch := ⟨.network (.v4 0x0A000000) 8, none, .any, some ⟨22, 22⟩⟩
  srcInvert := false
  dstInvert := false
  log := true
  quick := true
  label := some "ssh".toList
  gateway := none
  stateOptions := ⟨.keepState, none, none⟩
  status := .active
  scheduleId := none
  timeoutTcp := none
  timeoutUdp := none
  timeoutIcmp := none
  createdAt := []
  updatedAt := []

def outboundNat : NatRecord (Fin 60) where
  natType := .masquerade
  interface := "em0".toList
  protocol := .any
  srcAddr := .any
  srcPort := none
  dstAddr := .any
  dstPort := none
  redirect := ⟨.any, none⟩
  id := 1
  label := none
  status := .active
  createdAt := Fin.last 59
  updatedAt := Fin.last 59

def webAlias : Alias where
  id := 1
  name := "web".toList
  aliasType := .host
  entries := ["192.0.2.1".toList]
  description := none
  enabled := true
  createdAt := []
  updatedAt := []

def labRoute : StaticRoute where
  id := "r1".toList
  destination := "10.2.0.0/16".toList
  gateway := "10.0.0.2".toList
  interface := none
  metric := 0
  enabled := true
  description := none
  createdAt := []
  fib := 0

/-- The rows on a node to which they came at this time. -/
def AppState.withRows (s : AppState) (time : List Char) : AppState :=
  { s with
    rules := [{ sshRule with createdAt := time, updatedAt := time }]
    natRules := [NatRuleRow.ofRule NatRuleRow.minute outboundNat]
    aliases := [{ webAlias with createdAt := time, updatedAt := time }]
    staticRoutes := [{ labRoute with createdAt := time }] }

theorem listFilterRules_singleton (r : FilterRule) : listFilterRules [r] = [r] := by
  rw [listFilterRules, orderByInt, orderByText, List.mergeSort_singleton, List.mergeSort_singleton]

theorem outboundNat_tables : outboundNat.toNatRule.TablesValid := ⟨nofun, nofun, nofun⟩

theorem withRows_tables (h : SameTables a b) (timeA timeB : List Char) :
    SameTables (a.withRows timeA) (b.withRows timeB) := by
  refine { h with rules := ?_, natRules := rfl, aliases := ?_, staticRoutes := ?_ }
  · rw [AppState.withRows, AppState.withRows, listFilterRules_singleton, listFilterRules_singleton]
    rfl
  · rw [Aliases.list, Aliases.list, AppState.withRows, AppState.withRows, List.mergeSort_singleton,
      List.mergeSort_singleton]
    rfl
  · rw [orderByInt, orderByInt, AppState.withRows, AppState.withRows, List.mergeSort_singleton,
      List.mergeSort_singleton]
    rfl

theorem withRows_readable {s : AppState} (h : s.Readable NatRuleRow.minute) (time : List Char) :
    (s.withRows time).Readable NatRuleRow.minute :=
  ⟨⟨_, (NatRuleRow.listsAs_singleton outboundNat outboundNat_tables).1⟩, h.2⟩

theorem withRows_times (h : SameTimes NatRuleRow.minute a b) (timeA timeB : List Char) :
    SameTimes NatRuleRow.minute (a.withRows timeA) (b.withRows timeB) :=
  ⟨h.ipsecTunnels, h.dhcpSubnets, h.dhcpReservations⟩

theorem withRows_locals (h : SameLocals a b) (timeA timeB : List Char) :
    SameLocals (a.withRows timeA) (b.withRows timeB) :=
  ⟨h.hostname, h.resolver, h.authSettings⟩

/-- Two nodes to which the same rows came at two times; a newline after the host name makes no
difference. -/
theorem same_hash_replicated :
    AppState.SameHash wholeFloats NatRuleRow.minute bareText
      ((bareNode "fw1".toList).withRows "2026-01-10 09:00:00".toList)
      ((bareNode "fw1\n".toList).withRows "2026-01-10 09:00:07".toList) := by
  have htables := withRows_tables (bareNode_tables "fw1".toList "fw1\n".toList)
    "2026-01-10 09:00:00".toList "2026-01-10 09:00:07".toList
  have htimes := withRows_times (bareNode_times "fw1".toList "fw1\n".toList)
    "2026-01-10 09:00:00".toList "2026-01-10 09:00:07".toList
  have hbare : SameLocals (bareNode "fw1".toList) (bareNode "fw1\n".toList) :=
    ⟨by decide, rfl, rfl⟩
  have hlocals := withRows_locals hbare "2026-01-10 09:00:00".toList "2026-01-10 09:00:07".toList
  have hreadable := And.intro
    (withRows_readable (bareNode_readable "fw1".toList) "2026-01-10 09:00:00".toList)
    (withRows_readable (bareNode_readable "fw1\n".toList) "2026-01-10 09:00:07".toList)
  apply (AppState.same_hash_iff htables _ _).mpr ⟨hreadable, htimes, hlocals⟩
  · exact fun p q _ _ hjson => hjson
  · intro p q hp hq _
    rw [AppState.export_eq htables hreadable.1 hreadable.2 htimes hlocals] at hp
    exact Option.some.inj (hp.symm.trans hq)

/-- Two nodes that differ in their host name alone return different hashes. -/
theorem host_name_changes_hash :
    SameTables (bareNode "fw1".toList) (bareNode "fw2".toList) ∧
      (bareNode "fw1".toList).Readable NatRuleRow.minute ∧
      (bareNode "fw2".toList).Readable NatRuleRow.minute ∧
      ¬AppState.SameHash wholeFloats NatRuleRow.minute bareText (bareNode "fw1".toList)
        (bareNode "fw2".toList) := by
  refine ⟨bareNode_tables _ _, bareNode_readable _, bareNode_readable _, ?_⟩
  intro hsame
  obtain ⟨jsonA, jsonB, hash, hdataA, hdataB⟩ := hsame 0 0 0 0
  rw [AppState.clusterSnapshotData_empty, Option.map_eq_some_iff] at hdataA hdataB
  obtain ⟨p, hp, heA⟩ := hdataA
  obtain ⟨q, hq, heB⟩ := hdataB
  have hhash : bareText.sha256Hex p = bareText.sha256Hex q :=
    (congrArg Prod.snd heA).trans (congrArg Prod.snd heB).symm
  have hostA : p.firewall.system.hostname = "fw1".toList :=
    (AppState.hostname_of_export hp).trans (by decide)
  have hostB : q.firewall.system.hostname = "fw2".toList :=
    (AppState.hostname_of_export hq).trans (by decide)
  simp only [bareText, hostA, hostB] at hhash
  revert hhash
  decide

end AiFw.Backup
