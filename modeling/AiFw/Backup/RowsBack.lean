import AiFw.Backup.Survival

namespace AiFw.Backup
open AiFw.Lib AiFw.Net AiFw.Pf AiFw.Ha
open AiFw.Wan (Uuid displayUuid)
open AiFw.Aliases (Alias AliasType)
set_option autoImplicit true

def WgTunnel.settled (t : WgTunnel) : WgTunnel := { t.timeless with status := .down }

def IpsecSa.settled (s : IpsecSa) : IpsecSa := { s.timeless with status := .down }

def vipSettled (v : CarpVip) : CarpVip := { vipTimeless v with status := .init }

def nodeSettled (n : ClusterNode) : ClusterNode :=
  { n with
      health := .unknown
      lastSeen := []
      configVersion := 0
      createdAt := []
      softwareVersion := none
      lastPushedCertAt := none }

structure WgTunnel.Plain (t : WgTunnel) : Prop where
  listenInterface : t.listenInterface = none
  splitRoutes : t.splitRoutes = none

structure RateLimitPlain (r : RateLimitRule) : Prop where
  srcAddr : r.srcAddr = .any
  dstAddr : r.dstAddr = .any

structure PfsyncPlain (id : Uuid) (p : PfsyncConfig) : Prop where
  id : p.id = id
  enabled : p.enabled = true
  latencyProfile : p.latencyProfile = .conservative
  heartbeatIface : p.heartbeatIface = none
  heartbeatIntervalMs : p.heartbeatIntervalMs = none
  dhcpLink : p.dhcpLink = false

structure NodePlain (n : ClusterNode) : Prop where
  peerApiKey : n.peerApiKey = none
  peerApiKeyHash : n.peerApiKeyHash = none

structure DhcpSubnet.Plain (s : DhcpSubnet) : Prop where
  trustedRelays : ∀ relay ∈ s.trustedRelays, relayKept relay = true
  options : ∀ o ∈ s.options, isOptionOverrideSafe o = true

theorem isUpper_iff {c : Char} : c.isUpper = true ↔ 65 ≤ c.val.toNat ∧ c.val.toNat ≤ 90 := by
  have hA : 'A'.val.toNat = 65 := by decide
  have hZ : 'Z'.val.toNat = 90 := by decide
  unfold Char.isUpper
  rw [decide_eq_true_eq, ge_iff_le, UInt32.le_iff_toNat_le, UInt32.le_iff_toNat_le, hA, hZ]

theorem lower_iff {c : Char} :
    ('a'.val ≤ c.val ∧ c.val ≤ 'z'.val) ↔ 97 ≤ c.val.toNat ∧ c.val.toNat ≤ 122 := by
  have ha : 'a'.val.toNat = 97 := by decide
  have hz : 'z'.val.toNat = 122 := by decide
  rw [UInt32.le_iff_toNat_le, UInt32.le_iff_toNat_le, ha, hz]

theorem toUpper_of_not_lower {c : Char} (h : ¬('a'.val ≤ c.val ∧ c.val ≤ 'z'.val)) :
    c.toUpper = c := dif_neg h

theorem isUpper_toUpper {c : Char} (h : c.toUpper.isAlpha = true) : c.toUpper.isUpper = true := by
  by_cases hlower : 'a'.val ≤ c.val ∧ c.val ≤ 'z'.val
  · have hval : c.toUpper.val = c.val + ('A'.val - 'a'.val) := by
      delta Char.toUpper
      rw [dif_pos hlower]
    have hshift : ('A'.val - 'a'.val).toNat = 2 ^ 32 - 32 := by decide
    rw [lower_iff] at hlower
    rw [isUpper_iff, hval, UInt32.toNat_add, hshift]
    omega
  · rw [toUpper_of_not_lower hlower] at h ⊢
    rcases Bool.or_eq_true_iff.mp h with h | h
    · exact h
    · obtain ⟨ha, hz⟩ := Bool.and_eq_true_iff.mp h
      exact absurd ⟨of_decide_eq_true ha, of_decide_eq_true hz⟩ hlower

theorem upperChar_of_isUpper {c : Char} (h : c.isUpper = true) : upperChar c = [c] := by
  unfold upperChar
  split
  iterate 10 exact absurd h (by decide)
  have hlower : ¬('a'.val ≤ c.val ∧ c.val ≤ 'z'.val) := by
    rw [isUpper_iff] at h
    rw [lower_iff]
    omega
  rw [toUpper_of_not_lower hlower]

theorem isUpper_of_upperChar {c d : Char} (h : d ∈ upperChar c) (hd : d.isAlpha = true) :
    d.isUpper = true := by
  unfold upperChar at h
  split at h
  iterate 10 exact List.all_eq_true.mp (by decide) d h
  rw [List.mem_singleton] at h
  rw [h] at hd ⊢
  exact isUpper_toUpper hd

theorem flatMap_upperChar {code : List Char} (h : ∀ c ∈ code, c.isUpper = true) :
    code.flatMap upperChar = code := by
  induction code with
  | nil => rfl
  | cons c code ih =>
    rw [List.flatMap_cons, upperChar_of_isUpper (h c List.mem_cons_self),
      ih fun c hc => h c (List.mem_cons_of_mem _ hc)]
    rfl

theorem isUpper_graphic {c : Char} (h : c.isUpper = true) : isWhitespace c = false := by
  have hlt : c.toNat < 128 := Nat.lt_of_le_of_lt (isUpper_iff.mp h).2 (by decide)
  exact forall_ascii (P := fun c => c.isUpper = true → isWhitespace c = false) (by decide) hlt h

/-- The text of a country code reads as itself. -/
theorem countryCode_again {entered code : List Char} (h : countryCode entered = some code) :
    countryCode code = some code := by
  unfold countryCode at h
  dsimp only at h
  split at h
  · cases h
  · rename_i hcode
    have hsame := Option.some.inj h
    rw [not_or, not_not, hsame] at hcode
    have hupper : ∀ c ∈ code, c.isUpper = true := by
      intro c hc
      obtain ⟨x, -, hx⟩ := List.mem_flatMap.mp (hsame ▸ hc)
      exact isUpper_of_upperChar hx (List.all_eq_true.mp (not_not.mp hcode.2) c hc)
    unfold countryCode
    rw [trim_of_graphic fun c hc => isUpper_graphic (hupper c hc), flatMap_upperChar hupper]
    apply if_neg
    rw [not_or, not_not]
    exact hcode

variable {now : List Char}

def GeoIpRule.restored (now : List Char) (g : GeoIpRule) : GeoIpRule :=
  { g with createdAt := now, updatedAt := now }

theorem geoIp_back {rows : List GeoIpRule} (h : ∀ g ∈ rows, ∃ text, countryCode text = some g.country) :
    ComesBack (geoIpFromConfig now) GeoIpRule.config (GeoIpRule.restored now) GeoIpRule.id
      GeoIpRule.timeless rows where
  read g hg := by
    obtain ⟨text, hcode⟩ := h g hg
    unfold geoIpFromConfig GeoIpRule.config
    rw [countryCode_again hcode]
    rfl
  keeps _ := rfl
  tells g g' h := by
    have hid := congrArg GeoIpRule.id h
    exact hid

def IpsecSa.restored (now : List Char) (randSpi : Uuid → UInt32) (sa : IpsecSa) : IpsecSa :=
  { sa with spi := randSpi sa.id, status := .down, createdAt := now, updatedAt := now }

theorem ipsecSas_back {rows : List IpsecSa}
    (h : ∀ sa ∈ rows, FromText sa.srcAddr ∧ FromText sa.dstAddr) (randSpi : Uuid → UInt32) :
    ComesBack (saFromConfig now randSpi) IpsecSa.config (IpsecSa.restored now randSpi) IpsecSa.id
      IpsecSa.settled rows where
  read sa hsa := by
    unfold saFromConfig IpsecSa.config
    simp only [(h sa hsa).1.parse_display, (h sa hsa).2.parse_display]
    rfl
  keeps _ := rfl
  tells sa sa' h := by
    have hid := congrArg IpsecSa.id h
    exact hid

theorem IpsecSa.restored_iff (randSpi : Uuid → UInt32) (sa : IpsecSa) :
    (sa.restored now randSpi).settled = sa.settled ↔ randSpi sa.id = sa.spi := by
  constructor
  · intro h
    exact congrArg IpsecSa.spi h
  · intro h
    unfold IpsecSa.settled IpsecSa.timeless IpsecSa.restored
    rw [h]

def QueueConfig.restored (now : List Char) (q : QueueConfig) : QueueConfig :=
  { q with createdAt := now, updatedAt := now }

theorem queues_back (rows : List QueueConfig) :
    ComesBack (readQueue now .new) QueueConfig.config (QueueConfig.restored now) QueueConfig.id
      QueueConfig.timeless rows where
  read _ _ := rfl
  keeps _ := rfl
  tells q q' h := by
    have hid := congrArg QueueConfig.id h
    exact hid

def rateLimitRestored (now : List Char) (r : RateLimitRule) : RateLimitRule :=
  { r with srcAddr := .any, dstAddr := .any, createdAt := now, updatedAt := now }

theorem rateLimits_back (rows : List RateLimitRule) :
    ComesBack (readRateLimit now .new) rateLimitConfig (rateLimitRestored now)
      (fun r : RateLimitRule => r.id) rateLimitTimeless rows where
  read r _ := by
    unfold readRateLimit
    rw [rateLimitConfig, ifaceAfter_new]
    simp only [rateLimitFromConfig, portRange_map]
    rfl
  keeps _ := rfl
  tells r r' h := by
    have hid := congrArg RateLimitRule.id h
    exact hid

theorem rateLimitRestored_iff (r : RateLimitRule) :
    rateLimitTimeless (rateLimitRestored now r) = rateLimitTimeless r ↔ RateLimitPlain r := by
  constructor
  · intro h
    exact ⟨(congrArg RateLimitRule.srcAddr h).symm, (congrArg RateLimitRule.dstAddr h).symm⟩
  · intro h
    unfold rateLimitTimeless rateLimitRestored
    rw [h.srcAddr, h.dstAddr]

def SniRule.restored (now : List Char) (r : SniRule) : SniRule :=
  { r with status := .active, createdAt := now, updatedAt := now }

theorem sniRules_back (rows : List SniRule) :
    ComesBack (fun e => some (sniRuleFromConfig now e)) SniRule.config (SniRule.restored now)
      SniRule.id SniRule.timeless rows where
  read _ _ := rfl
  keeps _ := rfl
  tells r r' h := by
    have hid := congrArg SniRule.id h
    exact hid

theorem SniRule.restored_iff (r : SniRule) :
    (r.restored now).timeless = r.timeless ↔ r.status = .active := by
  constructor
  · intro h
    exact (congrArg SniRule.status h).symm
  · intro h
    unfold SniRule.timeless SniRule.restored
    rw [h]

def vipRestored (now : List Char) (v : CarpVip) : CarpVip :=
  { v with status := .init, createdAt := now, updatedAt := now }

theorem readCarpVip_config (v : CarpVip) :
    readCarpVip now .new (carpVipConfig v) = some (vipRestored now v) := by
  unfold readCarpVip
  rw [carpVipConfig, mapIface_new]
  simp only [carpVipFromConfig, IpAddr.parse_display]
  rfl

def pfsyncRestored (now : List Char) (id : Uuid) (p : PfsyncConfig) : PfsyncConfig where
  id := id
  syncInterface := p.syncInterface
  syncPeer := p.syncPeer
  defer := p.defer
  enabled := true
  latencyProfile := .conservative
  heartbeatIface := none
  heartbeatIntervalMs := none
  dhcpLink := false
  createdAt := now

theorem readPfsync_entry (id : Uuid) (p : PfsyncConfig) :
    readPfsync now .new id (pfsyncEntry p) = some (pfsyncRestored now id p) := by
  unfold readPfsync
  rw [pfsyncEntry, mapIface_new]
  unfold pfsyncFromConfig pfsyncRestored
  cases p.syncPeer with
  | none => rfl
  | some peer =>
    simp only [Option.map_some, IpAddr.parse_display]
    rfl

theorem pfsyncRestored_iff (id : Uuid) (p : PfsyncConfig) :
    pfsyncTimeless (pfsyncRestored now id p) = pfsyncTimeless p ↔ PfsyncPlain id p := by
  constructor
  · intro h
    exact ⟨(congrArg PfsyncConfig.id h).symm, (congrArg PfsyncConfig.enabled h).symm,
      (congrArg PfsyncConfig.latencyProfile h).symm, (congrArg PfsyncConfig.heartbeatIface h).symm,
      (congrArg PfsyncConfig.heartbeatIntervalMs h).symm, (congrArg PfsyncConfig.dhcpLink h).symm⟩
  · intro h
    unfold pfsyncTimeless pfsyncRestored
    rw [h.id, h.enabled, h.latencyProfile, h.heartbeatIface, h.heartbeatIntervalMs, h.dhcpLink]

theorem parseRole (role : ClusterRole) : parseKeyword roleWords (roleString role) = some role := by
  cases role <;> rfl

def nodeRestored (now : List Char) (n : ClusterNode) : ClusterNode :=
  { n with
      health := .unknown
      lastSeen := now
      configVersion := 0
      createdAt := now
      softwareVersion := none
      lastPushedCertAt := none
      peerApiKey := none
      peerApiKeyHash := none }

theorem clusterNodeFromConfig_config (n : ClusterNode) :
    clusterNodeFromConfig now (clusterNodeConfig n) = some (nodeRestored now n) := by
  unfold clusterNodeFromConfig clusterNodeConfig
  simp only [IpAddr.parse_display, parseRole]
  rfl

theorem nodeRestored_iff (n : ClusterNode) :
    nodeSettled (nodeRestored now n) = nodeSettled n ↔ NodePlain n := by
  constructor
  · intro h
    exact ⟨(congrArg ClusterNode.peerApiKey h).symm, (congrArg ClusterNode.peerApiKeyHash h).symm⟩
  · intro h
    unfold nodeSettled nodeRestored
    rw [h.peerApiKey, h.peerApiKeyHash]

theorem subnets_back (rows : List DhcpSubnet) :
    ComesBack (fun e => some (subnetRestored e)) id subnetRestored DhcpSubnet.id
      DhcpSubnet.timeless rows where
  read _ _ := rfl
  keeps _ := rfl
  tells s s' h := by
    have hid := congrArg DhcpSubnet.id h
    exact hid

theorem subnetRestored_iff (s : DhcpSubnet) :
    (subnetRestored s).timeless = s.timeless ↔ s.Plain := by
  constructor
  · intro h
    exact ⟨List.filter_eq_self.mp (congrArg DhcpSubnet.trustedRelays h),
      List.filter_eq_self.mp (congrArg DhcpSubnet.options h)⟩
  · intro h
    unfold subnetRestored
    rw [List.filter_eq_self.mpr h.trustedRelays, List.filter_eq_self.mpr h.options]

end AiFw.Backup
