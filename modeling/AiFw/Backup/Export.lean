import AiFw.Backup.FirewallConfig
import AiFw.Backup.IdsReplica

namespace AiFw.Backup
open AiFw.Lib AiFw.Net AiFw.Pf AiFw.Ha
open AiFw.Wan (Uuid displayUuid)
open AiFw.Aliases (Alias AliasType)
set_option autoImplicit true

/-- The tables that a configuration is built from and restored to, with what else of a node goes
into one: the settings of the sign-in in memory, the file of the host name and the resolver file. -/
structure AppState where
  rules : List FilterRule
  natRules : List NatRuleRow
  aliases : List Alias
  staticRoutes : List StaticRoute
  geoipRules : List GeoIpRule
  wgTunnels : List WgTunnel
  wgPeers : List WgPeer
  ipsecSas : List IpsecSa
  ipsecTunnels : Vpn.TunnelTable
  queueConfigs : List QueueConfig
  rateLimitRules : List RateLimitRule
  sniRules : List SniRule
  ja3Blocklist : List Ja3Block
  carpVips : List CarpVip
  pfsyncConfig : List PfsyncConfig
  clusterNodes : List ClusterNode
  dhcpSubnets : List DhcpSubnet
  dhcpReservations : List DhcpReservation
  dhcpConfig : KeyValues
  dhcpDdnsConfig : KeyValues
  dhcpHaConfig : KeyValues
  authConfig : KeyValues
  authSettings : AuthConfig
  hostnameFile : Option (List Char)
  resolvConf : Option (List Char)
  ids : IdsTables

/-- `ORDER BY` a text column. -/
def orderByText (column : ρ → List Char) (rows : List ρ) : List ρ :=
  rows.mergeSort fun a b => decide (column a ≤ column b)

def orderByTextDesc (column : ρ → List Char) (rows : List ρ) : List ρ :=
  rows.mergeSort fun a b => decide (column b ≤ column a)

/-- `ORDER BY` a number column. -/
def orderByInt (column : ρ → Int) (rows : List ρ) : List ρ :=
  rows.mergeSort fun a b => decide (column a ≤ column b)

/-- The rows by one column and, where it is the same, by a text column: the sort by the second
comes first, as each keeps the order of what it finds equal. -/
def listFilterRules (rows : List FilterRule) : List FilterRule :=
  orderByInt (fun r => r.priority) (orderByText (fun r => r.createdAt) rows)

def listWgPeers (rows : List WgPeer) : List WgPeer :=
  orderByText (fun p => displayUuid p.tunnelId) (orderByText WgPeer.createdAt rows)

def FilterRule.config (r : FilterRule) : RuleConfig where
  id := r.id
  priority := r.priority
  action := r.action
  direction := r.direction
  protocol := r.protocol
  interface := r.interface
  srcAddr := some r.ruleMatch.srcAddr.display
  srcPortStart := r.ruleMatch.srcPort.map PortRange.start
  srcPortEnd := r.ruleMatch.srcPort.map PortRange.end_
  dstAddr := some r.ruleMatch.dstAddr.display
  dstPortStart := r.ruleMatch.dstPort.map PortRange.start
  dstPortEnd := r.ruleMatch.dstPort.map PortRange.end_
  log := r.log
  quick := r.quick
  label := r.label
  stateTracking := r.stateOptions.tracking
  status := r.status
  ipVersion := r.ipVersion
  srcInvert := r.srcInvert
  dstInvert := r.dstInvert
  scheduleId := r.scheduleId
  gateway := r.gateway

def natConfig (n : NatRecord DateTime) : NatRuleConfig where
  id := n.id
  natType := n.natType
  interface := n.interface
  protocol := n.protocol
  srcAddr := some n.srcAddr.display
  srcPortStart := n.srcPort.map PortRange.start
  srcPortEnd := n.srcPort.map PortRange.end_
  dstAddr := some n.dstAddr.display
  dstPortStart := n.dstPort.map PortRange.start
  dstPortEnd := n.dstPort.map PortRange.end_
  redirectAddr := n.redirect.address.display
  redirectPortStart := n.redirect.port.map PortRange.start
  redirectPortEnd := n.redirect.port.map PortRange.end_
  label := n.label
  status := n.status

def QueueConfig.config (q : QueueConfig) : QueueConfigEntry where
  id := q.id
  name := q.name
  interface := q.interface
  queueType := q.queueType
  bandwidthValue := q.bandwidth.value
  bandwidthUnit := q.bandwidth.unit
  trafficClass := q.trafficClass
  bandwidthPct := q.bandwidthPct
  isDefault := q.isDefault
  status := q.status

def rateLimitConfig (r : RateLimitRule) : RateLimitEntry where
  id := r.id
  name := r.name
  interface := r.interface
  protocol := r.protocol
  dstPortStart := r.dstPort.map PortRange.start
  dstPortEnd := r.dstPort.map PortRange.end_
  maxConnections := r.maxConnections
  windowSecs := r.windowSecs
  overloadTable := r.overloadTable
  flushStates := r.flushStates
  status := r.status

def WgPeer.config (p : WgPeer) : WireguardPeerConfig where
  id := p.id
  name := p.name
  publicKey := p.publicKey
  presharedKey := p.presharedKey
  endpoint := p.endpoint
  allowedIps := p.allowedIps.map Address.display
  persistentKeepalive := p.persistentKeepalive

def WgTunnel.config (t : WgTunnel) (peers : List WgPeer) : WireguardTunnelConfig where
  id := t.id
  name := t.name
  interface := t.interface
  listenPort := t.listenPort
  address := t.address.display
  privateKey := t.privateKey
  publicKey := t.publicKey
  dns := t.dns
  mtu := t.mtu
  peers := peers.map WgPeer.config

def IpsecSa.config (s : IpsecSa) : IpsecSaConfig where
  id := s.id
  name := s.name
  srcAddr := s.srcAddr.display
  dstAddr := s.dstAddr.display
  protocol := s.protocol
  mode := s.mode
  encAlgo := s.encAlgo
  authAlgo := s.authAlgo

def GeoIpRule.config (g : GeoIpRule) : GeoIpEntry := ⟨g.id, g.country, g.action, g.label, g.status⟩

def SniRule.config (r : SniRule) : SniRuleConfig := ⟨r.id, r.pattern, r.action, r.label⟩

def carpVipConfig (v : CarpVip) : CarpVipConfig :=
  ⟨v.id, v.vhid, v.virtualIp.display, v.plen, v.interface, v.password⟩

def pfsyncEntry (p : PfsyncConfig) : PfsyncEntry :=
  ⟨p.syncInterface, p.syncPeer.map IpAddr.display, p.defer⟩

/-- The name of a role in JSON. -/
def roleString : ClusterRole → List Char
  | .primary => "primary".toList
  | .secondary => "secondary".toList
  | .standalone => "standalone".toList

def clusterNodeConfig (n : ClusterNode) : ClusterNodeConfig :=
  ⟨n.id, n.name, n.address.display, roleString n.role⟩

def aliasTypeStr : AliasType → List Char
  | .host => "host".toList
  | .network => "network".toList
  | .port => "port".toList
  | .urlTable => "url_table".toList

def aliasConfig (a : Alias) : AliasConfig :=
  ⟨a.id, a.name, aliasTypeStr a.aliasType, a.entries, a.description, a.enabled⟩

def StaticRoute.config (r : StaticRoute) : StaticRouteConfig :=
  ⟨r.id, r.destination, r.gateway, r.interface, r.metric, r.enabled, r.description, r.fib⟩

/-- The value of a key, read, or the default where there is none. -/
def KeyValues.read (t : KeyValues) (key : String) (d : α) (value : List Char → α) : α :=
  match t key.toList with
  | some text => value text
  | none => d

def isTrue (text : List Char) : Bool := text == "true".toList

def readU32 (text : List Char) : Option UInt32 := (parseUnsigned (2 ^ 32) text).map UInt32.ofNat

def nonempty (text : List Char) : Option (List Char) := if text = [] then none else some text

def readGlobal (fl : FloatText F) (t : KeyValues) : DhcpGlobalSection F where
  enabled := t.read "enabled" false isTrue
  interfaces := t.read "interfaces" [] Vpn.splitCsv
  authoritative := t.read "authoritative" true isTrue
  defaultLeaseTime := t.read "default_lease_time" 3600 fun v => (readU32 v).getD 3600
  maxLeaseTime := t.read "max_lease_time" 86400 fun v => (readU32 v).getD 86400
  dnsServers := t.read "dns_servers" [] Vpn.splitCsv
  domainName := t.read "domain_name" [] id
  domainSearch := t.read "domain_search" [] Vpn.splitCsv
  ntpServers := t.read "ntp_servers" [] Vpn.splitCsv
  winsServers := t.read "wins_servers" [] Vpn.splitCsv
  nextServer := t.read "next_server" none nonempty
  bootFilename := t.read "boot_filename" none nonempty
  logLevel := t.read "log_level" "info".toList id
  logFormat := t.read "log_format" "text".toList id
  apiPort := t.read "api_port" 9967 fun v =>
    ((parseUnsigned (2 ^ 16) v).map UInt16.ofNat).getD 9967
  workers := t.read "workers" 1 fun v => (readU32 v).getD 1
  acceptRelayed := t.read "accept_relayed" true isTrue
  relayRateLimitBurst := t.read "relay_rate_limit_burst" 200 fun v => (readU32 v).getD 200
  relayRateLimitPps := t.read "relay_rate_limit_pps" fl.hundred fun v =>
    (fl.parse v).getD fl.hundred

def readDdns (t : KeyValues) : DhcpDdnsSection where
  enabled := t.read "enabled" false isTrue
  forwardZone := t.read "forward_zone" [] id
  reverseZoneV4 := t.read "reverse_zone_v4" [] id
  reverseZoneV6 := t.read "reverse_zone_v6" [] id
  dnsServer := t.read "dns_server" [] id
  tsigKey := t.read "tsig_key" [] id
  tsigAlgorithm := t.read "tsig_algorithm" [] id
  tsigSecret := t.read "tsig_secret" [] id
  ttl := t.read "ttl" 0 fun v => (readU32 v).getD 300

def readDhcpHa (fl : FloatText F) (t : KeyValues) : DhcpHaSection F where
  mode := t.read "mode" [] id
  peer := t.read "peer" none nonempty
  listen := t.read "listen" none nonempty
  scopeSplit := t.read "scope_split" none fl.parse
  mclt := t.read "mclt" none readU32
  partnerDownDelay := t.read "partner_down_delay" none readU32
  nodeId := t.read "node_id" none fun v => (parseUnsigned (2 ^ 64) v).map UInt64.ofNat
  peers := t.read "peers" none fun v => (nonempty v).map fun _ => Vpn.splitCsv v
  tlsCert := t.read "tls_cert" none nonempty
  tlsKey := t.read "tls_key" none nonempty
  tlsCa := t.read "tls_ca" none nonempty

def configuredMaxStates (authConfig : KeyValues) : Nat :=
  ((((authConfig "pf_max_states".toList).bind (parseUnsigned (2 ^ 64))).filter fun n =>
    decide (1000 ≤ n ∧ n ≤ 4000000))).getD 100000

def stripWord (word line : List Char) : Option (List Char) :=
  if word.isPrefixOf line then some (line.drop word.length) else none

namespace AppState
variable (fl : FloatText F) (chrono : Rfc3339 DateTime) (s : AppState)

def gethostname : Option (List Char) := (s.hostnameFile.map trim).bind nonempty

def resolverServers : List (List Char) :=
  (Geo.lines (s.resolvConf.getD [])).filterMap fun l => (stripWord "nameserver".toList l).map trim

def aliasesSection : List AliasConfig := (Aliases.list s.aliases).map aliasConfig

def staticRoutesSection : List StaticRouteConfig :=
  (orderByInt StaticRoute.metric s.staticRoutes).map StaticRoute.config

def dhcpSection : DhcpSection F where
  global := readGlobal fl s.dhcpConfig
  subnets := orderByText DhcpSubnet.createdAt s.dhcpSubnets
  reservations := orderByText DhcpReservation.ipAddress s.dhcpReservations
  ddns := readDdns s.dhcpDdnsConfig
  dhcpHa := readDhcpHa fl s.dhcpHaConfig

def peersOf (t : WgTunnel) : List WgPeer :=
  (listWgPeers s.wgPeers).filter fun p => p.tunnelId = t.id

/-- The configuration of a node, whose NAT rules and IPsec tunnels have been listed. -/
def configOf (natRules : List (NatRecord DateTime)) (ipsecTunnels : List (Vpn.IpsecTunnel DateTime)) :
    FirewallConfig F DateTime where
  system := ⟨s.gethostname.getD "aifw".toList, s.resolverServers⟩
  auth := s.authSettings
  rules := (listFilterRules s.rules).map FilterRule.config
  nat := natRules.map natConfig
  queues := (orderByText QueueConfig.createdAt s.queueConfigs).map QueueConfig.config
  rateLimits := (orderByText (fun r => r.createdAt) s.rateLimitRules).map rateLimitConfig
  vpn := {
    wireguard := (orderByText WgTunnel.createdAt s.wgTunnels).map fun t => t.config (s.peersOf t)
    ipsec := (orderByText IpsecSa.createdAt s.ipsecSas).map IpsecSa.config
    ipsecTunnels }
  geoip := (orderByText GeoIpRule.country s.geoipRules).map GeoIpRule.config
  tls := {
    blockedJa3 := (orderByTextDesc Ja3Block.createdAt s.ja3Blocklist).map Ja3Block.hash
    sniRules := (orderByText SniRule.pattern s.sniRules).map SniRule.config }
  ha := {
    carpVips := (orderByInt (fun v => v.vhid.toNat) s.carpVips).map carpVipConfig
    pfsync := s.pfsyncConfig.head?.map pfsyncEntry
    nodes := (orderByText (fun n => n.name) s.clusterNodes).map clusterNodeConfig }
  tuning := [⟨"pf.max_states".toList, Nat.toDigits 10 (configuredMaxStates s.authConfig), true⟩]
  dhcp := s.dhcpSection fl
  aliases := s.aliasesSection
  staticRoutes := s.staticRoutesSection

/-- `none` stands for the status of an internal error. -/
def buildCurrentConfig : Option (FirewallConfig F DateTime) := do
  let natRules ← (NatRuleRow.listRules chrono s.natRules).toOption
  let ipsecTunnels ← (s.ipsecTunnels.listTunnels chrono).toOption
  return s.configOf fl natRules ipsecTunnels

/-- The configuration that is put into the snapshot; all other sections are the defaults. -/
def captureRuntimeSnapshot : Option (FirewallConfig F DateTime) := do
  let natRules ← (NatRuleRow.listRules chrono s.natRules).toOption
  return { FirewallConfig.default fl with
    rules := (listFilterRules s.rules).map FilterRule.config
    nat := natRules.map natConfig
    aliases := s.aliasesSection
    staticRoutes := s.staticRoutesSection }

end AppState

end AiFw.Backup
