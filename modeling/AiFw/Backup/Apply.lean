import AiFw.Backup.Export
import AiFw.Lib.Reload

namespace AiFw.Backup
open AiFw.Lib AiFw.Net AiFw.Pf AiFw.Ha
open AiFw.Wan (Uuid displayUuid)
open AiFw.Aliases (Alias AliasType)
set_option autoImplicit true

/-- What a restore takes from outside: the clock, the answers to fetches, an id, the indexes of
security associations, and whether the resolver file can be written. -/
structure ApplyEnv (DateTime : Type) where
  now : DateTime
  fetch : Aliases.Fetch
  pfsyncId : Uuid
  randSpi : Uuid → UInt32
  resolverWritable : Bool

/-- The interfaces that are renamed, or dropped with the entries on them. -/
abbrev InterfaceMap := List Char → Option (Option (List Char))

def InterfaceMap.new : InterfaceMap := fun _ => none

def mapIface (name : List Char) (map : InterfaceMap) : Option (List Char) :=
  match map name with
  | some (some new) => some new
  | some none => none
  | none => some name

/-- The interface of an entry, if it has one; `none` where the entry is dropped. -/
def ifaceAfter (map : InterfaceMap) : Option (List Char) → Option (Option (List Char))
  | some name => (mapIface name map).map some
  | none => some none

def portRange : Option UInt16 → Option UInt16 → Option PortRange
  | some s, some e => some ⟨s, e⟩
  | some s, none => some ⟨s, s⟩
  | _, _ => none

def optAddress : Option (List Char) → Option Address
  | some text => (Address.parse text).toOption
  | none => some .any

section
variable (now : List Char)

def ruleFromConfig (rc : RuleConfig) : Option FilterRule := do
  let srcAddr ← optAddress rc.srcAddr
  let dstAddr ← optAddress rc.dstAddr
  return {
    id := rc.id
    priority := rc.priority
    action := rc.action
    direction := rc.direction
    ipVersion := rc.ipVersion
    interface := rc.interface
    protocol := rc.protocol
    ruleMatch := {
      srcAddr
      srcPort := portRange rc.srcPortStart rc.srcPortEnd
      dstAddr
      dstPort := portRange rc.dstPortStart rc.dstPortEnd }
    srcInvert := rc.srcInvert
    dstInvert := rc.dstInvert
    log := rc.log
    quick := rc.quick
    label := rc.label
    gateway := rc.gateway
    stateOptions := ⟨rc.stateTracking, none, none⟩
    status := rc.status
    scheduleId := rc.scheduleId
    timeoutTcp := none
    timeoutUdp := none
    timeoutIcmp := none
    createdAt := now
    updatedAt := now }

def natFromConfig (now : DateTime) (nc : NatRuleConfig) : Option (NatRecord DateTime) := do
  let srcAddr ← optAddress nc.srcAddr
  let dstAddr ← optAddress nc.dstAddr
  let redirectAddr ← (Address.parse nc.redirectAddr).toOption
  return {
    natType := nc.natType
    interface := nc.interface
    protocol := nc.protocol
    srcAddr
    srcPort := portRange nc.srcPortStart nc.srcPortEnd
    dstAddr
    dstPort := portRange nc.dstPortStart nc.dstPortEnd
    redirect := ⟨redirectAddr, portRange nc.redirectPortStart nc.redirectPortEnd⟩
    id := nc.id
    label := nc.label
    status := nc.status
    createdAt := now
    updatedAt := now }

def aliasTypeWords : List (String × AliasType) :=
  [("host", .host), ("network", .network), ("port", .port), ("url_table", .urlTable),
    ("urltable", .urlTable), ("url", .urlTable)]

def aliasFromConfig (ac : AliasConfig) : Option Alias := do
  let aliasType ← parseKeyword aliasTypeWords ac.aliasType
  return ⟨ac.id, ac.name, aliasType, ac.entries, ac.description, ac.enabled, now, now⟩

def routeFromConfig (rc : StaticRouteConfig) : StaticRoute where
  id := rc.id
  destination := rc.destination
  gateway := rc.gateway
  interface := rc.interface
  metric := rc.metric
  enabled := rc.enabled
  description := rc.description
  createdAt := now
  fib := rc.fib

/-- `CountryCode::new`. -/
def countryCode (code : List Char) : Option (List Char) :=
  let code := (trim code).flatMap upperChar
  if byteLen code ≠ 2 ∨ ¬code.all Char.isAlpha then none else some code

def geoIpFromConfig (gc : GeoIpEntry) : Option GeoIpRule := do
  let country ← countryCode gc.country
  return ⟨gc.id, country, gc.action, gc.label, gc.status, now, now⟩

def wgTunnelFromConfig (wg : WireguardTunnelConfig) (ifaceName : List Char) : Option WgTunnel := do
  let address ← (Address.parse wg.address).toOption
  return {
    id := wg.id
    name := wg.name
    interface := ifaceName
    privateKey := wg.privateKey
    publicKey := wg.publicKey
    listenPort := wg.listenPort
    address
    dns := wg.dns
    mtu := wg.mtu
    listenInterface := none
    splitRoutes := none
    status := .down
    createdAt := now
    updatedAt := now }

/-- Addresses that cannot be parsed are left out. -/
def wgPeerFromConfig (tunnelId : Uuid) (p : WireguardPeerConfig) : WgPeer where
  id := p.id
  tunnelId := tunnelId
  name := p.name
  publicKey := p.publicKey
  presharedKey := p.presharedKey
  clientPrivateKey := none
  endpoint := p.endpoint
  allowedIps := p.allowedIps.filterMap fun text => (Address.parse text).toOption
  persistentKeepalive := p.persistentKeepalive
  createdAt := now
  updatedAt := now

def saFromConfig (randSpi : Uuid → UInt32) (sac : IpsecSaConfig) : Option IpsecSa := do
  let srcAddr ← (Address.parse sac.srcAddr).toOption
  let dstAddr ← (Address.parse sac.dstAddr).toOption
  return {
    id := sac.id
    name := sac.name
    srcAddr
    dstAddr
    protocol := sac.protocol
    mode := sac.mode
    spi := randSpi sac.id
    encAlgo := sac.encAlgo
    authAlgo := sac.authAlgo
    status := .down
    createdAt := now
    updatedAt := now }

def queueFromConfig (qc : QueueConfigEntry) : QueueConfig where
  id := qc.id
  interface := qc.interface
  queueType := qc.queueType
  bandwidth := ⟨qc.bandwidthValue, qc.bandwidthUnit⟩
  name := qc.name
  trafficClass := qc.trafficClass
  bandwidthPct := qc.bandwidthPct
  isDefault := qc.isDefault
  status := qc.status
  createdAt := now
  updatedAt := now

def rateLimitFromConfig (rc : RateLimitEntry) : RateLimitRule where
  id := rc.id
  name := rc.name
  interface := rc.interface
  protocol := rc.protocol
  srcAddr := .any
  dstAddr := .any
  dstPort := portRange rc.dstPortStart rc.dstPortEnd
  maxConnections := rc.maxConnections
  windowSecs := rc.windowSecs
  overloadTable := rc.overloadTable
  flushStates := rc.flushStates
  status := rc.status
  createdAt := now
  updatedAt := now

def sniRuleFromConfig (sc : SniRuleConfig) : SniRule :=
  ⟨sc.id, sc.pattern, sc.action, sc.label, .active, now, now⟩

def carpVipFromConfig (vc : CarpVipConfig) : Option CarpVip := do
  let virtualIp ← IpAddr.parse vc.virtualIp
  return ⟨vc.id, vc.vhid, virtualIp, vc.plen, vc.interface, vc.password, .init, now, now⟩

/-- `PfsyncConfig::new` with the peer and `defer` of the entry. -/
def pfsyncFromConfig (id : Uuid) (pc : PfsyncEntry) : Option PfsyncConfig := do
  let syncPeer ← match pc.syncPeer with
    | some text => (IpAddr.parse text).map some
    | none => some none
  return {
    id
    syncInterface := pc.syncInterface
    syncPeer
    defer := pc.defer
    enabled := true
    latencyProfile := .conservative
    heartbeatIface := none
    heartbeatIntervalMs := none
    dhcpLink := false
    createdAt := now }

def roleWords : List (String × ClusterRole) :=
  [("primary", .primary), ("master", .primary), ("secondary", .secondary), ("backup", .secondary),
    ("slave", .secondary), ("standalone", .standalone)]

def clusterNodeFromConfig (nc : ClusterNodeConfig) : Option ClusterNode := do
  let address ← IpAddr.parse nc.address
  let role ← parseKeyword roleWords nc.role
  return {
    id := nc.id
    name := nc.name
    address
    role
    health := .unknown
    lastSeen := now
    configVersion := 0
    createdAt := now
    softwareVersion := none
    lastPushedCertAt := none
    peerApiKey := none
    peerApiKeyHash := none }

end

/-- What the engine does with a row that is added; the primary key and the unique columns are among
what it must not clash with. -/
def RuleEngine.addRule : List FilterRule → FilterRule → Except (List FilterRule) (List FilterRule) :=
  insertRow (fun r => validateRule r.toRule = .ok ()) fun q r => q.id = r.id

def GeoIpEngine.addRule : List GeoIpRule → GeoIpRule → Except (List GeoIpRule) (List GeoIpRule) :=
  insertRow (fun _ => True) fun q r => q.id = r.id

def insertStaticRoute :
    List StaticRoute → StaticRoute → Except (List StaticRoute) (List StaticRoute) :=
  insertRow (fun _ => True) fun q r => q.id = r.id

namespace VpnEngine

def addWgTunnel : List WgTunnel → WgTunnel → Except (List WgTunnel) (List WgTunnel) :=
  insertRow (fun t => t.name ≠ [] ∧ t.listenPort ≠ 0)
    fun q t => q.id = t.id ∨ q.name = t.name ∨ q.listenPort = t.listenPort

/-- The text of an address up to the length. -/
def addressHost (a : Address) : List Char := a.display.takeWhile (· ≠ '/')

def shareAddress (q p : WgPeer) : Prop :=
  q.tunnelId = p.tunnelId ∧ ∃ a ∈ q.allowedIps, ∃ b ∈ p.allowedIps, addressHost a = addressHost b

instance (q p : WgPeer) : Decidable (shareAddress q p) :=
  inferInstanceAs (Decidable (_ ∧ ∃ a ∈ _, ∃ b ∈ _, _))

def addWgPeer (tunnels : List WgTunnel) :
    List WgPeer → WgPeer → Except (List WgPeer) (List WgPeer) :=
  insertRow (fun p => p.publicKey ≠ [] ∧ hasKey WgTunnel.id p.tunnelId tunnels = true)
    fun q p => q.id = p.id ∨ shareAddress q p

def addIpsecSa : List IpsecSa → IpsecSa → Except (List IpsecSa) (List IpsecSa) :=
  insertRow (fun s => s.name ≠ []) fun q s => q.id = s.id ∨ q.name = s.name

end VpnEngine

namespace ShapingEngine

def addQueue : List QueueConfig → QueueConfig → Except (List QueueConfig) (List QueueConfig) :=
  insertRow (fun _ => True) fun q r => q.id = r.id

def addRateLimit :
    List RateLimitRule → RateLimitRule → Except (List RateLimitRule) (List RateLimitRule) :=
  insertRow (fun r => r.maxConnections ≠ 0 ∧ r.windowSecs ≠ 0 ∧ r.overloadTable ≠ [])
    fun q r => q.id = r.id

end ShapingEngine

namespace TlsEngine

def addSniRule : List SniRule → SniRule → Except (List SniRule) (List SniRule) :=
  insertRow (fun r => r.pattern ≠ []) fun q r => q.id = r.id

/-- `INSERT OR REPLACE`: the row that has the hash is dropped. -/
def addJa3Block (now : List Char) (rows : List Ja3Block) (hash description : List Char) :
    List Ja3Block :=
  dropKey Ja3Block.hash hash rows ++ [⟨hash, description, now⟩]

end TlsEngine

def insertDhcpSubnet :
    List DhcpSubnet → DhcpSubnet → Except (List DhcpSubnet) (List DhcpSubnet) :=
  insertRow (fun _ => True) fun q s => q.id = s.id

def insertDhcpReservation :
    List DhcpReservation → DhcpReservation → Except (List DhcpReservation) (List DhcpReservation) :=
  insertRow (fun _ => True) fun q r => q.id = r.id ∨ q.ipAddress = r.ipAddress

def addAlias (fetch : Aliases.Fetch) (rows : List Alias) (a : Alias) :
    Except (List Alias) (List Alias) :=
  match Aliases.add fetch rows a with
  | (rows, _, .ok _) => .ok rows
  | (rows, _, .error _) => .error rows

def parseIpv4 (text : List Char) : Option (BitVec 32) :=
  match readIpv4Addr text with
  | some (a, []) => some a
  | _ => none

def isLoopback (a : BitVec 32) : Bool := a.toNat / 2 ^ 24 = 127

def relayKept (relay : List Char) : Bool :=
  let t := trim relay
  t ≠ [] && (parseIpv4 t).any fun ip => !isLoopback ip

def reservedOptionCodes : List UInt8 := [0, 1, 28, 50, 51, 53, 54, 55, 57, 58, 59, 82, 255]

def collisionOptionCodes : List UInt8 := [3, 6, 15, 42]

def isGraphic (c : Char) : Bool := decide ('!' ≤ c ∧ c ≤ '~')

def isHexDigit (c : Char) : Bool :=
  c.isDigit || decide ('a' ≤ c ∧ c ≤ 'f') || decide ('A' ≤ c ∧ c ≤ 'F')

def isOptionOverrideSafe (o : DhcpOptionOverride) : Bool :=
  let v := trim o.value
  if reservedOptionCodes.contains o.code then false
  else if collisionOptionCodes.contains o.code then false
  else if v = [] then false
  else if o.valueType = "ip".toList then (parseIpv4 v).isSome
  else if o.valueType = "ips".toList then
    let parts := Vpn.splitCsv v
    parts ≠ [] && parts.all fun p => (parseIpv4 p).isSome
  else if o.valueType = "string".toList then
    decide (byteLen v ≤ 255) && v.all fun c => isGraphic c || c == ' '
  else if o.valueType = "u8".toList then (parseUnsigned (2 ^ 8) v).isSome
  else if o.valueType = "u16".toList then (parseUnsigned (2 ^ 16) v).isSome
  else if o.valueType = "u32".toList then (parseUnsigned (2 ^ 32) v).isSome
  else if o.valueType = "hex".toList then
    decide (byteLen v ≤ 510 ∧ byteLen v % 2 = 0) && v.all isHexDigit
  else false

def subnetRestored (s : DhcpSubnet) : DhcpSubnet :=
  { s with
      trustedRelays := s.trustedRelays.filter relayKept
      options := s.options.filter isOptionOverrideSafe }

def boolText (b : Bool) : List Char := if b then "true".toList else "false".toList

def natText (n : Nat) : List Char := Nat.toDigits 10 n

def intText (n : Int) : List Char := if n < 0 then '-' :: natText n.natAbs else natText n.natAbs

def globalRows (fl : FloatText F) (g : DhcpGlobalSection F) : List (String × List Char) :=
  [("enabled", boolText g.enabled),
    ("interfaces", Vpn.joinComma g.interfaces),
    ("authoritative", boolText g.authoritative),
    ("default_lease_time", natText g.defaultLeaseTime.toNat),
    ("max_lease_time", natText g.maxLeaseTime.toNat),
    ("dns_servers", Vpn.joinComma g.dnsServers),
    ("domain_name", g.domainName),
    ("domain_search", Vpn.joinComma g.domainSearch),
    ("ntp_servers", Vpn.joinComma g.ntpServers),
    ("wins_servers", Vpn.joinComma g.winsServers),
    ("next_server", g.nextServer.getD []),
    ("boot_filename", g.bootFilename.getD []),
    ("log_level", g.logLevel),
    ("log_format", g.logFormat),
    ("api_port", natText g.apiPort.toNat),
    ("workers", natText g.workers.toNat),
    ("accept_relayed", boolText g.acceptRelayed),
    ("relay_rate_limit_burst", natText g.relayRateLimitBurst.toNat),
    ("relay_rate_limit_pps", fl.display g.relayRateLimitPps)]

def ddnsRows (d : DhcpDdnsSection) : List (String × List Char) :=
  [("enabled", boolText d.enabled),
    ("forward_zone", d.forwardZone),
    ("reverse_zone_v4", d.reverseZoneV4),
    ("reverse_zone_v6", d.reverseZoneV6),
    ("dns_server", d.dnsServer),
    ("tsig_key", d.tsigKey),
    ("tsig_algorithm", d.tsigAlgorithm),
    ("tsig_secret", d.tsigSecret),
    ("ttl", natText d.ttl.toNat)]

def dhcpHaRows (fl : FloatText F) (h : DhcpHaSection F) : List (String × List Char) :=
  [("mode", h.mode),
    ("peer", h.peer.getD []),
    ("listen", h.listen.getD []),
    ("scope_split", (h.scopeSplit.map fl.display).getD []),
    ("mclt", (h.mclt.map fun v => natText v.toNat).getD []),
    ("partner_down_delay", (h.partnerDownDelay.map fun v => natText v.toNat).getD []),
    ("node_id", (h.nodeId.map fun v => natText v.toNat).getD []),
    ("peers", (h.peers.map Vpn.joinComma).getD []),
    ("tls_cert", h.tlsCert.getD []),
    ("tls_key", h.tlsKey.getD []),
    ("tls_ca", h.tlsCa.getD [])]

def authRows (auth : AuthConfig) : List (String × List Char) :=
  [("access_token_expiry_mins", intText auth.accessTokenExpiryMins),
    ("refresh_token_expiry_days", intText auth.refreshTokenExpiryDays),
    ("require_totp", boolText auth.requireTotp)]

def KeyValues.setAll (t : KeyValues) (rows : List (String × List Char)) : KeyValues :=
  rows.foldl KeyValues.set t

/-- A value out of bounds is only logged. -/
def setMaxStates (authConfig : KeyValues) (requested : Nat) : KeyValues :=
  if 1000 ≤ requested ∧ requested ≤ 4000000 then
    authConfig.set ("pf_max_states", natText requested)
  else authConfig

def tuningStep (authConfig : KeyValues) (t : TuningEntry) : KeyValues :=
  if t.enabled ∧ t.key = "pf.max_states".toList then
    match parseUnsigned (2 ^ 64) t.value with
    | some val => setMaxStates authConfig val
    | none => authConfig
  else authConfig

def resolverText (dnsServers : List (List Char)) : List Char :=
  ['\n'].intercalate (dnsServers.map fun s => "nameserver ".toList ++ s)

/-- The outcome of a step on one table, as one on the whole state. -/
def within (put : σ → AppState) : Except σ σ → Except AppState AppState
  | .ok table => .ok (put table)
  | .error table => .error (put table)

section
variable (now : List Char) (map : InterfaceMap)

def readRule (rc : RuleConfig) : Option FilterRule := do
  let interface ← ifaceAfter map rc.interface
  ruleFromConfig now { rc with interface }

def readNat (now : DateTime) (nc : NatRuleConfig) : Option (NatRecord DateTime) := do
  let interface ← mapIface nc.interface map
  natFromConfig now { nc with interface }

def readStaticRoute (rc : StaticRouteConfig) : Option StaticRoute := do
  let interface ← ifaceAfter map rc.interface
  return routeFromConfig now { rc with interface }

def readWireguard (wg : WireguardTunnelConfig) : Option (WgTunnel × List WgPeer) := do
  let interface ← mapIface wg.interface map
  let tunnel ← wgTunnelFromConfig now wg interface
  return (tunnel, wg.peers.map (wgPeerFromConfig now tunnel.id))

def readQueue (qc : QueueConfigEntry) : Option QueueConfig := do
  let interface ← mapIface qc.interface map
  return queueFromConfig now { qc with interface }

def readRateLimit (rc : RateLimitEntry) : Option RateLimitRule := do
  let interface ← ifaceAfter map rc.interface
  return rateLimitFromConfig now { rc with interface }

def readCarpVip (vc : CarpVipConfig) : Option CarpVip := do
  let interface ← mapIface vc.interface map
  carpVipFromConfig now { vc with interface }

def readPfsync (id : Uuid) (pc : PfsyncEntry) : Option PfsyncConfig := do
  let syncInterface ← mapIface pc.syncInterface map
  pfsyncFromConfig now id { pc with syncInterface }

/-- A tunnel comes with its peers. -/
def addWireguard (t : List WgTunnel × List WgPeer) (e : WgTunnel × List WgPeer) :
    Except (List WgTunnel × List WgPeer) (List WgTunnel × List WgPeer) :=
  match VpnEngine.addWgTunnel t.1 e.1 with
  | .error _ => .error t
  | .ok tunnels =>
    match reload some (VpnEngine.addWgPeer tunnels) t.2 e.2 with
    | .error peers => .error (tunnels, peers)
    | .ok peers => .ok (tunnels, peers)

def setPfsync (store : ClusterStore) (config : Option PfsyncConfig) : ClusterStore :=
  match config with
  | some config => store.setPfsync config
  | none => store

end

section
variable (env : ApplyEnv DateTime) (chrono : Rfc3339 DateTime) (map : InterfaceMap)
  (config : FirewallConfig F DateTime)

def ApplyEnv.nowText : List Char := chrono.toRfc3339 env.now

def restoreRules : Except (List FilterRule) (List FilterRule) :=
  reload (readRule (env.nowText chrono) map) RuleEngine.addRule [] config.rules

def restoreNat : Except (List NatRuleRow) (List NatRuleRow) :=
  reload (readNat map env.now) (keeping (NatRuleRow.addRule chrono)) [] config.nat

def restoreAliases : Except (List Alias) (List Alias) :=
  reload (aliasFromConfig (env.nowText chrono)) (addAlias env.fetch) [] config.aliases

def restoreStaticRoutes : Except (List StaticRoute) (List StaticRoute) :=
  reload (readStaticRoute (env.nowText chrono) map) insertStaticRoute [] config.staticRoutes

def restoreGeoIp : Except (List GeoIpRule) (List GeoIpRule) :=
  reload (geoIpFromConfig (env.nowText chrono)) GeoIpEngine.addRule [] config.geoip

def restoreWireguard :
    Except (List WgTunnel × List WgPeer) (List WgTunnel × List WgPeer) :=
  reload (readWireguard (env.nowText chrono) map) addWireguard ([], []) config.vpn.wireguard

def restoreIpsecSas : Except (List IpsecSa) (List IpsecSa) :=
  reload (saFromConfig (env.nowText chrono) env.randSpi) VpnEngine.addIpsecSa [] config.vpn.ipsec

def restoreIpsecTunnels : Except Vpn.TunnelTable Vpn.TunnelTable :=
  reload some (keeping (Vpn.TunnelTable.addTunnel chrono)) .empty config.vpn.ipsecTunnels

def restoreQueues : Except (List QueueConfig) (List QueueConfig) :=
  reload (readQueue (env.nowText chrono) map) ShapingEngine.addQueue [] config.queues

def restoreRateLimits : Except (List RateLimitRule) (List RateLimitRule) :=
  reload (readRateLimit (env.nowText chrono) map) ShapingEngine.addRateLimit [] config.rateLimits

def restoreSniRules : Except (List SniRule) (List SniRule) :=
  reload (fun e => some (sniRuleFromConfig (env.nowText chrono) e)) TlsEngine.addSniRule []
    config.tls.sniRules

def restoreJa3 : List Ja3Block :=
  config.tls.blockedJa3.foldl
    (fun rows hash =>
      TlsEngine.addJa3Block (env.nowText chrono) rows hash "restored from backup".toList) []

/-- The tables of the cluster engine; its anchor is left out of the account. -/
def restoreHa : Except ClusterStore ClusterStore := do
  let store ← reload (readCarpVip (env.nowText chrono) map) (keeping ClusterStore.addCarpVip)
    .empty config.ha.carpVips
  let pfsync := config.ha.pfsync.bind (readPfsync (env.nowText chrono) map env.pfsyncId)
  reload (clusterNodeFromConfig (env.nowText chrono)) (keeping ClusterStore.addNode)
    (setPfsync store pfsync) config.ha.nodes

def restoreSubnets : Except (List DhcpSubnet) (List DhcpSubnet) :=
  reload (fun e => some (subnetRestored e)) insertDhcpSubnet [] config.dhcp.subnets

def restoreReservations : Except (List DhcpReservation) (List DhcpReservation) :=
  reload some insertDhcpReservation [] config.dhcp.reservations

end

namespace AppState

/-- The tables that are emptied before anything is added. -/
def cleared (s : AppState) : AppState :=
  { s with
      wgPeers := []
      wgTunnels := []
      ipsecSas := []
      ipsecTunnels := .empty
      geoipRules := []
      rules := []
      natRules := []
      aliases := []
      staticRoutes := [] }

def putWireguard (s : AppState) (t : List WgTunnel × List WgPeer) : AppState :=
  { s with wgTunnels := t.1, wgPeers := t.2 }

def putHa (s : AppState) (store : ClusterStore) : AppState :=
  { s with
      carpVips := store.carpVips
      pfsyncConfig := store.pfsyncConfig
      clusterNodes := store.clusterNodes }

end AppState

section
variable (env : ApplyEnv DateTime) (fl : FloatText F) (chrono : Rfc3339 DateTime)
  (map : InterfaceMap) (config : FirewallConfig F DateTime)

def applyDhcpSection (s : AppState) : Except AppState AppState := do
  let s := { s with
    dhcpSubnets := []
    dhcpReservations := []
    dhcpConfig := KeyValues.empty.setAll (globalRows fl config.dhcp.global)
    dhcpDdnsConfig := .empty
    dhcpHaConfig := .empty }
  let s ← within (fun rows => { s with dhcpSubnets := rows }) (restoreSubnets config)
  let s ← within (fun rows => { s with dhcpReservations := rows }) (restoreReservations config)
  return { s with
    dhcpDdnsConfig := KeyValues.empty.setAll (ddnsRows config.dhcp.ddns)
    dhcpHaConfig := KeyValues.empty.setAll (dhcpHaRows fl config.dhcp.dhcpHa) }

/-- `.error` stands for the status of an internal error, with the tables as they are by then. The
statements and the calls of pf go through. -/
def applyFirewallConfig (s : AppState) : Except AppState AppState := do
  let s := s.cleared
  let s ← within (fun rows => { s with rules := rows }) (restoreRules env chrono map config)
  let s ← within (fun rows => { s with natRules := rows }) (restoreNat env chrono map config)
  let s ← within (fun rows => { s with aliases := rows }) (restoreAliases env chrono config)
  let s ← within (fun rows => { s with staticRoutes := rows })
    (restoreStaticRoutes env chrono map config)
  let s ← within (fun rows => { s with geoipRules := rows }) (restoreGeoIp env chrono config)
  let s ← within s.putWireguard (restoreWireguard env chrono map config)
  let s ← within (fun rows => { s with ipsecSas := rows }) (restoreIpsecSas env chrono config)
  let s ← within (fun table => { s with ipsecTunnels := table })
    (restoreIpsecTunnels chrono config)
  let s := { s with
    resolvConf :=
      if config.system.dnsServers ≠ [] ∧ env.resolverWritable then
        some (resolverText config.system.dnsServers)
      else s.resolvConf
    authConfig := s.authConfig.setAll (authRows config.auth)
    queueConfigs := []
    rateLimitRules := [] }
  let s ← within (fun rows => { s with queueConfigs := rows })
    (restoreQueues env chrono map config)
  let s ← within (fun rows => { s with rateLimitRules := rows })
    (restoreRateLimits env chrono map config)
  let s := { s with sniRules := [], ja3Blocklist := [] }
  let s ← within (fun rows => { s with sniRules := rows }) (restoreSniRules env chrono config)
  let s := { s with ja3Blocklist := restoreJa3 env chrono config }
  let s ← within s.putHa (restoreHa env chrono map config)
  let s := { s with authConfig := config.tuning.foldl tuningStep s.authConfig }
  applyDhcpSection fl config s

end

/-- What a restore with rollback comes to. -/
inductive RestoreOutcome where
  | applied
  | rolledBack
  | rollbackFailed
deriving DecidableEq

/-- `none` where there is no snapshot to go back to. The rollback finds its own clock and ids. -/
def applyFirewallConfigOrRollback (env rollbackEnv : ApplyEnv DateTime) (fl : FloatText F)
    (chrono : Rfc3339 DateTime) (map : InterfaceMap) (config : FirewallConfig F DateTime)
    (s : AppState) : Option (AppState × RestoreOutcome) := do
  let snapshot ← s.buildCurrentConfig fl chrono
  match applyFirewallConfig env fl chrono map config s with
  | .ok s => return (s, .applied)
  | .error s =>
    match applyFirewallConfig rollbackEnv fl chrono .new snapshot s with
    | .ok s => return (s, .rolledBack)
    | .error s => return (s, .rollbackFailed)

variable {env : ApplyEnv DateTime} {fl : FloatText F} {chrono : Rfc3339 DateTime}
  {map : InterfaceMap} {config : FirewallConfig F DateTime} {s s' : AppState}

theorem within_ok {put : σ → AppState} {x : Except σ σ} :
    within put x = .ok s ↔ ∃ table, x = .ok table ∧ put table = s := by
  cases x with
  | ok table =>
    constructor
    · intro h
      exact ⟨table, rfl, Except.ok.inj h⟩
    · rintro ⟨_, he, hput⟩
      cases he
      exact congrArg Except.ok hput
  | error table =>
    constructor
    · intro h
      cases h
    · rintro ⟨_, he, -⟩
      cases he

section
variable (env : ApplyEnv DateTime) (fl : FloatText F) (chrono : Rfc3339 DateTime)
  (map : InterfaceMap) (config : FirewallConfig F DateTime)

/-- What a restore that goes through leaves: each table is reloaded from its section, and nothing
else changes but the keys of the sign-in and the resolver file. -/
structure Reloaded (s s' : AppState) : Prop where
  rules : restoreRules env chrono map config = .ok s'.rules
  natRules : restoreNat env chrono map config = .ok s'.natRules
  aliases : restoreAliases env chrono config = .ok s'.aliases
  staticRoutes : restoreStaticRoutes env chrono map config = .ok s'.staticRoutes
  geoipRules : restoreGeoIp env chrono config = .ok s'.geoipRules
  wireguard : restoreWireguard env chrono map config = .ok (s'.wgTunnels, s'.wgPeers)
  ipsecSas : restoreIpsecSas env chrono config = .ok s'.ipsecSas
  ipsecTunnels : restoreIpsecTunnels chrono config = .ok s'.ipsecTunnels
  queueConfigs : restoreQueues env chrono map config = .ok s'.queueConfigs
  rateLimitRules : restoreRateLimits env chrono map config = .ok s'.rateLimitRules
  sniRules : restoreSniRules env chrono config = .ok s'.sniRules
  ja3Blocklist : s'.ja3Blocklist = restoreJa3 env chrono config
  ha : ∃ store, restoreHa env chrono map config = .ok store ∧ s'.carpVips = store.carpVips ∧
    s'.pfsyncConfig = store.pfsyncConfig ∧ s'.clusterNodes = store.clusterNodes
  dhcpSubnets : restoreSubnets config = .ok s'.dhcpSubnets
  dhcpReservations : restoreReservations config = .ok s'.dhcpReservations
  dhcpConfig : s'.dhcpConfig = KeyValues.empty.setAll (globalRows fl config.dhcp.global)
  dhcpDdnsConfig : s'.dhcpDdnsConfig = KeyValues.empty.setAll (ddnsRows config.dhcp.ddns)
  dhcpHaConfig : s'.dhcpHaConfig = KeyValues.empty.setAll (dhcpHaRows fl config.dhcp.dhcpHa)
  authConfig : s'.authConfig =
    config.tuning.foldl tuningStep (s.authConfig.setAll (authRows config.auth))
  resolvConf : s'.resolvConf =
    if config.system.dnsServers ≠ [] ∧ env.resolverWritable then
      some (resolverText config.system.dnsServers)
    else s.resolvConf
  authSettings : s'.authSettings = s.authSettings
  hostnameFile : s'.hostnameFile = s.hostnameFile
  ids : s'.ids = s.ids

/-- Each section of a configuration can be reloaded. -/
structure Admitted : Prop where
  rules : ∃ rows, restoreRules env chrono map config = .ok rows
  natRules : ∃ rows, restoreNat env chrono map config = .ok rows
  aliases : ∃ rows, restoreAliases env chrono config = .ok rows
  staticRoutes : ∃ rows, restoreStaticRoutes env chrono map config = .ok rows
  geoipRules : ∃ rows, restoreGeoIp env chrono config = .ok rows
  wireguard : ∃ tables, restoreWireguard env chrono map config = .ok tables
  ipsecSas : ∃ rows, restoreIpsecSas env chrono config = .ok rows
  ipsecTunnels : ∃ table, restoreIpsecTunnels chrono config = .ok table
  queueConfigs : ∃ rows, restoreQueues env chrono map config = .ok rows
  rateLimitRules : ∃ rows, restoreRateLimits env chrono map config = .ok rows
  sniRules : ∃ rows, restoreSniRules env chrono config = .ok rows
  ha : ∃ store, restoreHa env chrono map config = .ok store
  dhcpSubnets : ∃ rows, restoreSubnets config = .ok rows
  dhcpReservations : ∃ rows, restoreReservations config = .ok rows

end

theorem apply_reloads (h : applyFirewallConfig env fl chrono map config s = .ok s') :
    Reloaded env fl chrono map config s s' := by
  unfold applyFirewallConfig at h
  obtain ⟨_, hstep, h⟩ := except_bind_ok h
  obtain ⟨rules, hrules, rfl⟩ := within_ok.mp hstep
  obtain ⟨_, hstep, h⟩ := except_bind_ok h
  obtain ⟨natRules, hnat, rfl⟩ := within_ok.mp hstep
  obtain ⟨_, hstep, h⟩ := except_bind_ok h
  obtain ⟨aliases, haliases, rfl⟩ := within_ok.mp hstep
  obtain ⟨_, hstep, h⟩ := except_bind_ok h
  obtain ⟨routes, hroutes, rfl⟩ := within_ok.mp hstep
  obtain ⟨_, hstep, h⟩ := except_bind_ok h
  obtain ⟨geoip, hgeoip, rfl⟩ := within_ok.mp hstep
  obtain ⟨_, hstep, h⟩ := except_bind_ok h
  obtain ⟨wireguard, hwireguard, rfl⟩ := within_ok.mp hstep
  obtain ⟨_, hstep, h⟩ := except_bind_ok h
  obtain ⟨sas, hsas, rfl⟩ := within_ok.mp hstep
  obtain ⟨_, hstep, h⟩ := except_bind_ok h
  obtain ⟨tunnels, htunnels, rfl⟩ := within_ok.mp hstep
  obtain ⟨_, hstep, h⟩ := except_bind_ok h
  obtain ⟨queues, hqueues, rfl⟩ := within_ok.mp hstep
  obtain ⟨_, hstep, h⟩ := except_bind_ok h
  obtain ⟨limits, hlimits, rfl⟩ := within_ok.mp hstep
  obtain ⟨_, hstep, h⟩ := except_bind_ok h
  obtain ⟨sni, hsni, rfl⟩ := within_ok.mp hstep
  obtain ⟨_, hstep, h⟩ := except_bind_ok h
  obtain ⟨store, hstore, rfl⟩ := within_ok.mp hstep
  unfold applyDhcpSection at h
  obtain ⟨_, hstep, h⟩ := except_bind_ok h
  obtain ⟨subnets, hsubnets, rfl⟩ := within_ok.mp hstep
  obtain ⟨_, hstep, h⟩ := except_bind_ok h
  obtain ⟨reservations, hreservations, rfl⟩ := within_ok.mp hstep
  cases h
  exact ⟨hrules, hnat, haliases, hroutes, hgeoip, hwireguard, hsas, htunnels, hqueues, hlimits,
    hsni, rfl, ⟨store, hstore, rfl, rfl, rfl⟩, hsubnets, hreservations, rfl, rfl, rfl, rfl, rfl,
    rfl, rfl, rfl⟩

theorem Reloaded.admitted (h : Reloaded env fl chrono map config s s') :
    Admitted env chrono map config := by
  obtain ⟨store, hstore, -⟩ := h.ha
  exact ⟨⟨_, h.rules⟩, ⟨_, h.natRules⟩, ⟨_, h.aliases⟩, ⟨_, h.staticRoutes⟩, ⟨_, h.geoipRules⟩,
    ⟨_, h.wireguard⟩, ⟨_, h.ipsecSas⟩, ⟨_, h.ipsecTunnels⟩, ⟨_, h.queueConfigs⟩,
    ⟨_, h.rateLimitRules⟩, ⟨_, h.sniRules⟩, ⟨store, hstore⟩, ⟨_, h.dhcpSubnets⟩,
    ⟨_, h.dhcpReservations⟩⟩

theorem bind_total {x : Except ε α} {f : α → Except ε β} (hx : ∃ a, x = .ok a)
    (hf : ∀ a, ∃ b, f a = .ok b) : ∃ b, (x >>= f) = .ok b := by
  obtain ⟨a, rfl⟩ := hx
  exact hf a

theorem within_total {put : σ → AppState} {x : Except σ σ} (h : ∃ table, x = .ok table) :
    ∃ s, within put x = .ok s := by
  obtain ⟨table, rfl⟩ := h
  exact ⟨put table, rfl⟩

/-- A configuration whose sections can be reloaded is applied, whatever the state is. -/
theorem Admitted.applies (h : Admitted env chrono map config) (fl : FloatText F) (s : AppState) :
    ∃ s', applyFirewallConfig env fl chrono map config s = .ok s' := by
  unfold applyFirewallConfig
  apply bind_total (within_total h.rules)
  intro s
  apply bind_total (within_total h.natRules)
  intro s
  apply bind_total (within_total h.aliases)
  intro s
  apply bind_total (within_total h.staticRoutes)
  intro s
  apply bind_total (within_total h.geoipRules)
  intro s
  apply bind_total (within_total h.wireguard)
  intro s
  apply bind_total (within_total h.ipsecSas)
  intro s
  apply bind_total (within_total h.ipsecTunnels)
  intro s
  apply bind_total (within_total h.queueConfigs)
  intro s
  apply bind_total (within_total h.rateLimitRules)
  intro s
  apply bind_total (within_total h.sniRules)
  intro s
  apply bind_total (within_total h.ha)
  intro s
  unfold applyDhcpSection
  apply bind_total (within_total h.dhcpSubnets)
  intro s
  apply bind_total (within_total h.dhcpReservations)
  intro s
  exact ⟨_, rfl⟩

end AiFw.Backup
