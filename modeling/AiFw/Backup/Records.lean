import AiFw.Aliases.Engine
import AiFw.Ha.Cluster
import AiFw.Pf.NatOrder
import AiFw.Pf.RateLimit
import AiFw.Vpn.IpsecEngine

namespace AiFw.Backup
open AiFw.Lib AiFw.Net AiFw.Pf
open AiFw.Wan (Uuid displayUuid)
set_option autoImplicit true

/-- A filter rule as its row reads back, with the columns the rendering does not use. The times are
kept as their texts, here and below. -/
structure FilterRule extends Rule where
  timeoutTcp : Option UInt32
  timeoutUdp : Option UInt32
  timeoutIcmp : Option UInt32
  createdAt : List Char
  updatedAt : List Char
deriving DecidableEq

/-- The metric is the `i32` it was bound as. -/
structure StaticRoute where
  id : List Char
  destination : List Char
  gateway : List Char
  interface : Option (List Char)
  metric : Int
  enabled : Bool
  description : Option (List Char)
  createdAt : List Char
  fib : UInt32
deriving DecidableEq

inductive GeoIpAction where
  | allow
  | block
deriving DecidableEq

inductive GeoIpRuleStatus where
  | active
  | disabled
deriving DecidableEq

/-- The country is the text of a `CountryCode`. -/
structure GeoIpRule where
  id : Uuid
  country : List Char
  action : GeoIpAction
  label : Option (List Char)
  status : GeoIpRuleStatus
  createdAt : List Char
  updatedAt : List Char
deriving DecidableEq

inductive VpnStatus where
  | up
  | down
  | error
deriving DecidableEq

structure WgTunnel where
  id : Uuid
  name : List Char
  interface : List Char
  privateKey : List Char
  publicKey : List Char
  listenPort : UInt16
  address : Address
  dns : Option (List Char)
  mtu : Option UInt16
  listenInterface : Option (List Char)
  splitRoutes : Option (List Char)
  status : VpnStatus
  createdAt : List Char
  updatedAt : List Char
deriving DecidableEq

structure WgPeer where
  id : Uuid
  tunnelId : Uuid
  name : List Char
  publicKey : List Char
  presharedKey : Option (List Char)
  clientPrivateKey : Option (List Char)
  endpoint : Option (List Char)
  allowedIps : List Address
  persistentKeepalive : Option UInt16
  createdAt : List Char
  updatedAt : List Char
deriving DecidableEq

inductive IpsecProtocol where
  | esp
  | ah
  | espAh
deriving DecidableEq

inductive IpsecMode where
  | tunnel
  | transport
deriving DecidableEq

structure IpsecSa where
  id : Uuid
  name : List Char
  srcAddr : Address
  dstAddr : Address
  protocol : IpsecProtocol
  mode : IpsecMode
  spi : UInt32
  encAlgo : List Char
  authAlgo : List Char
  status : VpnStatus
  createdAt : List Char
  updatedAt : List Char
deriving DecidableEq

inductive QueueType where
  | codel
  | hfsc
  | priq
deriving DecidableEq

inductive BandwidthUnit where
  | bps
  | kbps
  | mbps
  | gbps
deriving DecidableEq

inductive TrafficClass where
  | voip
  | interactive
  | default
  | bulk
deriving DecidableEq

inductive QueueStatus where
  | active
  | disabled
deriving DecidableEq

structure Bandwidth where
  value : UInt64
  unit : BandwidthUnit
deriving DecidableEq

structure QueueConfig where
  id : Uuid
  interface : List Char
  queueType : QueueType
  bandwidth : Bandwidth
  name : List Char
  trafficClass : TrafficClass
  bandwidthPct : Option UInt8
  isDefault : Bool
  status : QueueStatus
  createdAt : List Char
  updatedAt : List Char
deriving DecidableEq

inductive SniAction where
  | allow
  | block
deriving DecidableEq

inductive SniRuleStatus where
  | active
  | disabled
deriving DecidableEq

structure SniRule where
  id : Uuid
  pattern : List Char
  action : SniAction
  label : Option (List Char)
  status : SniRuleStatus
  createdAt : List Char
  updatedAt : List Char
deriving DecidableEq

structure Ja3Block where
  hash : List Char
  description : List Char
  createdAt : List Char
deriving DecidableEq

structure DhcpOptionOverride where
  code : UInt8
  valueType : List Char
  value : List Char
deriving DecidableEq

/-- The relays and options are what their columns read as. -/
structure DhcpSubnet where
  id : List Char
  network : List Char
  poolStart : List Char
  poolEnd : List Char
  gateway : List Char
  dnsServers : Option (List Char)
  domainName : Option (List Char)
  leaseTime : Option UInt32
  maxLeaseTime : Option UInt32
  renewalTime : Option UInt32
  rebindingTime : Option UInt32
  preferredTime : Option UInt32
  subnetType : List Char
  delegatedLength : Option UInt8
  enabled : Bool
  description : Option (List Char)
  trustedRelays : List (List Char)
  ntpServers : Option (List Char)
  options : List DhcpOptionOverride
  createdAt : List Char
deriving DecidableEq

structure DhcpReservation where
  id : List Char
  subnetId : Option (List Char)
  macAddress : List Char
  ipAddress : List Char
  hostname : Option (List Char)
  clientId : Option (List Char)
  description : Option (List Char)
  createdAt : List Char
deriving DecidableEq

/-- A table of keys and their values. -/
abbrev KeyValues := List Char → Option (List Char)

/-- `INSERT OR REPLACE` of a key. -/
def KeyValues.set (t : KeyValues) (e : String × List Char) : KeyValues := fun key =>
  if key = e.1.toList then some e.2 else t key

/-- The table with no rows. -/
def KeyValues.empty : KeyValues := fun _ => none

end AiFw.Backup
