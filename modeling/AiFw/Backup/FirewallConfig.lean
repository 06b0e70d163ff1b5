import AiFw.Backup.Records

namespace AiFw.Backup
open AiFw.Lib AiFw.Net AiFw.Pf
open AiFw.Wan (Uuid displayUuid)
set_option autoImplicit true

structure SystemConfig where
  hostname : List Char
  dnsServers : List (List Char)
deriving DecidableEq

structure AuthConfig where
  accessTokenExpiryMins : Int
  refreshTokenExpiryDays : Int
  requireTotp : Bool
deriving DecidableEq

structure RuleConfig where
  id : Uuid
  priority : Int
  action : Action
  direction : Direction
  protocol : Protocol
  interface : Option (List Char)
  srcAddr : Option (List Char)
  srcPortStart : Option UInt16
  srcPortEnd : Option UInt16
  dstAddr : Option (List Char)
  dstPortStart : Option UInt16
  dstPortEnd : Option UInt16
  log : Bool
  quick : Bool
  label : Option (List Char)
  stateTracking : StateTracking
  status : RuleStatus
  ipVersion : IpVersion
  srcInvert : Bool
  dstInvert : Bool
  scheduleId : Option (List Char)
  gateway : Option (List Char)
deriving DecidableEq

structure NatRuleConfig where
  id : Uuid
  natType : NatType
  interface : List Char
  protocol : Protocol
  srcAddr : Option (List Char)
  srcPortStart : Option UInt16
  srcPortEnd : Option UInt16
  dstAddr : Option (List Char)
  dstPortStart : Option UInt16
  dstPortEnd : Option UInt16
  redirectAddr : List Char
  redirectPortStart : Option UInt16
  redirectPortEnd : Option UInt16
  label : Option (List Char)
  status : NatStatus
deriving DecidableEq

structure QueueConfigEntry where
  id : Uuid
  name : List Char
  interface : List Char
  queueType : QueueType
  bandwidthValue : UInt64
  bandwidthUnit : BandwidthUnit
  trafficClass : TrafficClass
  bandwidthPct : Option UInt8
  isDefault : Bool
  status : QueueStatus
deriving DecidableEq

structure RateLimitEntry where
  id : Uuid
  name : List Char
  interface : Option (List Char)
  protocol : Protocol
  dstPortStart : Option UInt16
  dstPortEnd : Option UInt16
  maxConnections : UInt32
  windowSecs : UInt32
  overloadTable : List Char
  flushStates : Bool
  status : RateLimitStatus
deriving DecidableEq

structure WireguardPeerConfig where
  id : Uuid
  name : List Char
  publicKey : List Char
  presharedKey : Option (List Char)
  endpoint : Option (List Char)
  allowedIps : List (List Char)
  persistentKeepalive : Option UInt16
deriving DecidableEq

structure WireguardTunnelConfig where
  id : Uuid
  name : List Char
  interface : List Char
  listenPort : UInt16
  address : List Char
  privateKey : List Char
  publicKey : List Char
  dns : Option (List Char)
  mtu : Option UInt16
  peers : List WireguardPeerConfig
deriving DecidableEq

structure IpsecSaConfig where
  id : Uuid
  name : List Char
  srcAddr : List Char
  dstAddr : List Char
  protocol : IpsecProtocol
  mode : IpsecMode
  encAlgo : List Char
  authAlgo : List Char
deriving DecidableEq

structure VpnConfig (DateTime : Type) where
  wireguard : List WireguardTunnelConfig
  ipsec : List IpsecSaConfig
  ipsecTunnels : List (Vpn.IpsecTunnel DateTime)

structure GeoIpEntry where
  id : Uuid
  country : List Char
  action : GeoIpAction
  label : Option (List Char)
  status : GeoIpRuleStatus
deriving DecidableEq

structure SniRuleConfig where
  id : Uuid
  pattern : List Char
  action : SniAction
  label : Option (List Char)
deriving DecidableEq

structure TlsConfig where
  blockedJa3 : List (List Char)
  sniRules : List SniRuleConfig
deriving DecidableEq

structure CarpVipConfig where
  id : Uuid
  vhid : UInt8
  virtualIp : List Char
  plen : UInt8
  interface : List Char
  password : List Char
deriving DecidableEq

structure PfsyncEntry where
  syncInterface : List Char
  syncPeer : Option (List Char)
  defer : Bool
deriving DecidableEq

structure ClusterNodeConfig where
  id : Uuid
  name : List Char
  address : List Char
  role : List Char
deriving DecidableEq

structure HaConfig where
  carpVips : List CarpVipConfig
  pfsync : Option PfsyncEntry
  nodes : List ClusterNodeConfig
deriving DecidableEq

structure TuningEntry where
  key : List Char
  value : List Char
  enabled : Bool
deriving DecidableEq

structure AliasConfig where
  id : Uuid
  name : List Char
  aliasType : List Char
  entries : List (List Char)
  description : Option (List Char)
  enabled : Bool
deriving DecidableEq

structure StaticRouteConfig where
  id : List Char
  destination : List Char
  gateway : List Char
  interface : Option (List Char)
  metric : Int
  enabled : Bool
  description : Option (List Char)
  fib : UInt32
deriving DecidableEq

structure DhcpGlobalSection (F : Type) where
  enabled : Bool
  interfaces : List (List Char)
  authoritative : Bool
  defaultLeaseTime : UInt32
  maxLeaseTime : UInt32
  dnsServers : List (List Char)
  domainName : List Char
  domainSearch : List (List Char)
  ntpServers : List (List Char)
  winsServers : List (List Char)
  nextServer : Option (List Char)
  bootFilename : Option (List Char)
  logLevel : List Char
  logFormat : List Char
  apiPort : UInt16
  workers : UInt32
  acceptRelayed : Bool
  relayRateLimitBurst : UInt32
  relayRateLimitPps : F
deriving DecidableEq

structure DhcpDdnsSection where
  enabled : Bool
  forwardZone : List Char
  reverseZoneV4 : List Char
  reverseZoneV6 : List Char
  dnsServer : List Char
  tsigKey : List Char
  tsigAlgorithm : List Char
  tsigSecret : List Char
  ttl : UInt32
deriving DecidableEq

structure DhcpHaSection (F : Type) where
  mode : List Char
  peer : Option (List Char)
  listen : Option (List Char)
  scopeSplit : Option F
  mclt : Option UInt32
  partnerDownDelay : Option UInt32
  nodeId : Option UInt64
  peers : Option (List (List Char))
  tlsCert : Option (List Char)
  tlsKey : Option (List Char)
  tlsCa : Option (List Char)
deriving DecidableEq

structure DhcpSection (F : Type) where
  global : DhcpGlobalSection F
  subnets : List DhcpSubnet
  reservations : List DhcpReservation
  ddns : DhcpDdnsSection
  dhcpHa : DhcpHaSection F
deriving DecidableEq

/-- The ids of the entries are the uuids that their texts stand for; fields with a fixed value that
nothing reads are left out. -/
structure FirewallConfig (F DateTime : Type) where
  system : SystemConfig
  auth : AuthConfig
  rules : List RuleConfig
  nat : List NatRuleConfig
  queues : List QueueConfigEntry
  rateLimits : List RateLimitEntry
  vpn : VpnConfig DateTime
  geoip : List GeoIpEntry
  tls : TlsConfig
  ha : HaConfig
  tuning : List TuningEntry
  dhcp : DhcpSection F
  aliases : List AliasConfig
  staticRoutes : List StaticRouteConfig

/-- The floats of the configuration, with how the standard library reads and writes them. -/
structure FloatText (F : Type) where
  parse : List Char → Option F
  display : F → List Char
  hundred : F

def SystemConfig.default : SystemConfig := ⟨"aifw".toList, ["1.1.1.1".toList, "8.8.8.8".toList]⟩

def AuthConfig.default : AuthConfig := ⟨15, 7, false⟩

def DhcpGlobalSection.default (fl : FloatText F) : DhcpGlobalSection F where
  enabled := false
  interfaces := []
  authoritative := true
  defaultLeaseTime := 3600
  maxLeaseTime := 86400
  dnsServers := []
  domainName := []
  domainSearch := []
  ntpServers := []
  winsServers := []
  nextServer := none
  bootFilename := none
  logLevel := "info".toList
  logFormat := "text".toList
  apiPort := 9967
  workers := 1
  acceptRelayed := true
  relayRateLimitBurst := 200
  relayRateLimitPps := fl.hundred

def DhcpDdnsSection.default : DhcpDdnsSection := ⟨false, [], [], [], [], [], [], [], 0⟩

def DhcpHaSection.default : DhcpHaSection F :=
  ⟨[], none, none, none, none, none, none, none, none, none, none⟩

def DhcpSection.default (fl : FloatText F) : DhcpSection F :=
  ⟨.default fl, [], [], .default, .default⟩

def FirewallConfig.default (fl : FloatText F) : FirewallConfig F DateTime where
  system := .default
  auth := .default
  rules := []
  nat := []
  queues := []
  rateLimits := []
  vpn := ⟨[], [], []⟩
  geoip := []
  tls := ⟨[], []⟩
  ha := ⟨[], none, []⟩
  tuning := []
  dhcp := .default fl
  aliases := []
  staticRoutes := []

end AiFw.Backup
