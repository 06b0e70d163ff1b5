import AiFw.Backup.RowsBack

namespace AiFw.Backup
open AiFw.Lib AiFw.Net AiFw.Pf AiFw.Ha
open AiFw.Wan (Uuid displayUuid)
open AiFw.Aliases (Alias AliasType)
set_option autoImplicit true

variable {now : List Char}

def tunnelRestored (now : List Char) (t : WgTunnel) : WgTunnel :=
  { t with
      listenInterface := none
      splitRoutes := none
      status := .down
      createdAt := now
      updatedAt := now }

def peerRestored (now : List Char) (p : WgPeer) : WgPeer :=
  { p with clientPrivateKey := none, createdAt := now, updatedAt := now }

theorem filterMap_parse_display {as : List Address} (h : ∀ a ∈ as, FromText a) :
    (as.map Address.display).filterMap (fun text => (Address.parse text).toOption) = as := by
  have hback (a : Address) (ha : a ∈ as) : (Address.parse a.display).toOption = some a := by
    rw [(h a ha).parse_display]
    rfl
  rw [List.filterMap_map]
  exact (List.filterMap_congr hback).trans List.filterMap_some

theorem wgPeerFromConfig_config {p : WgPeer} (h : ∀ a ∈ p.allowedIps, FromText a)
    (hown : p.tunnelId = tunnelId) : wgPeerFromConfig now tunnelId p.config = peerRestored now p := by
  unfold wgPeerFromConfig WgPeer.config
  dsimp only
  rw [filterMap_parse_display h, ← hown]
  rfl

theorem readWireguard_config {t : WgTunnel} {peers : List WgPeer} (ht : FromText t.address)
    (hpeers : ∀ p ∈ peers, p.tunnelId = t.id ∧ ∀ a ∈ p.allowedIps, FromText a) :
    readWireguard now .new (t.config peers) =
      some (tunnelRestored now t, peers.map (peerRestored now)) := by
  have hpeers : (peers.map WgPeer.config).map (wgPeerFromConfig now t.id) =
      peers.map (peerRestored now) := by
    rw [List.map_map]
    apply List.map_congr_left
    intro p hp
    exact wgPeerFromConfig_config (hpeers p hp).2 (hpeers p hp).1
  unfold readWireguard
  rw [WgTunnel.config, mapIface_new]
  simp only [wgTunnelFromConfig, ht.parse_display]
  change some (tunnelRestored now t, (peers.map WgPeer.config).map (wgPeerFromConfig now t.id)) = _
  rw [hpeers]

theorem VpnEngine.shareAddress.symm {q p : WgPeer} (h : shareAddress q p) : shareAddress p q := by
  obtain ⟨htunnel, a, ha, b, hb, hsame⟩ := h
  exact ⟨htunnel.symm, b, hb, a, ha, hsame.symm⟩

abbrev TunnelsFit (ts new : List WgTunnel) : Prop :=
  Fits id (fun t => t.name ≠ [] ∧ t.listenPort ≠ 0)
    (fun q t : WgTunnel => q.id = t.id ∨ q.name = t.name ∨ q.listenPort = t.listenPort) ts new

abbrev PeersFit (ps new : List WgPeer) : Prop :=
  Fits id (fun p => p.publicKey ≠ [])
    (fun q p : WgPeer => q.id = p.id ∨ VpnEngine.shareAddress q p) ps new

theorem addWireguard_ok_iff {ts : List WgTunnel} {ps qs : List WgPeer} {t : WgTunnel}
    (hown : ∀ p ∈ qs, p.tunnelId = t.id) :
    addWireguard (ts, ps) (t, qs) = .ok tables ↔
      (TunnelsFit ts [t] ∧ PeersFit ps qs) ∧ tables = (ts ++ [t], ps ++ qs) := by
  have htunnel := inserts_insertRow (fun t : WgTunnel => t.name ≠ [] ∧ t.listenPort ≠ 0)
    fun q t => q.id = t.id ∨ q.name = t.name ∨ q.listenPort = t.listenPort
  have hpeer := inserts_insertRow
    (fun p : WgPeer => p.publicKey ≠ [] ∧ hasKey WgTunnel.id p.tunnelId (ts ++ [t]) = true)
    fun q p => q.id = p.id ∨ VpnEngine.shareAddress q p
  have hhome : ∀ p ∈ qs, hasKey WgTunnel.id p.tunnelId (ts ++ [t]) = true := by
    intro p hp
    exact hasKey_iff.mpr ⟨t, List.mem_append_right ts List.mem_cons_self, (hown p hp).symm⟩
  have hpeers : (∃ out, reload some (VpnEngine.addWgPeer (ts ++ [t])) ps qs = .ok out) ↔
      PeersFit ps qs := by
    rw [VpnEngine.addWgPeer, reload_ok_iff hpeer, List.filterMap_some]
    constructor
    · intro h
      exact ⟨fun p hp => (h.checked p hp).1, h.free, h.apart⟩
    · intro h
      exact ⟨fun p hp => ⟨h.checked p hp, hhome p hp⟩, h.free, h.apart⟩
  rw [← hpeers, TunnelsFit, fits_singleton]
  constructor
  · intro h
    unfold addWireguard at h
    dsimp only at h
    split at h
    · cases h
    · rename_i tunnels hadd
      have hgrown : tunnels = ts ++ [t] := htunnel.grows ts t tunnels hadd
      cases hgrown
      split at h
      · cases h
      · rename_i peers hreload
        cases h
        have hrows : peers = ps ++ (qs.filterMap some).map id := rows_of_reload hpeer hreload
        rw [List.filterMap_some, List.map_id] at hrows
        rw [hrows]
        exact ⟨⟨(htunnel.taken_iff ts t).mp ⟨_, hadd⟩, peers, hreload⟩, rfl⟩
  · rintro ⟨⟨hfits, peers, hreload⟩, rfl⟩
    obtain ⟨tunnels, hadd⟩ := (htunnel.taken_iff ts t).mpr hfits
    have hgrown : tunnels = ts ++ [t] := htunnel.grows ts t tunnels hadd
    have hrows : peers = ps ++ (qs.filterMap some).map id := rows_of_reload hpeer hreload
    rw [List.filterMap_some, List.map_id] at hrows
    unfold addWireguard
    rw [VpnEngine.addWgTunnel, hadd, hgrown]
    dsimp only
    rw [hreload, hrows]

theorem reload_wireguard_iff {read : ε → Option (WgTunnel × List WgPeer)} {entries : List ε}
    (hown : ∀ e ∈ entries.filterMap read, ∀ p ∈ e.2, p.tunnelId = e.1.id) :
    reload read addWireguard (ts, ps) entries = .ok tables ↔
      (TunnelsFit ts ((entries.filterMap read).map Prod.fst) ∧
        PeersFit ps ((entries.filterMap read).flatMap Prod.snd)) ∧
      tables = (ts ++ (entries.filterMap read).map Prod.fst,
        ps ++ (entries.filterMap read).flatMap Prod.snd) := by
  induction entries generalizing ts ps with
  | nil =>
    rw [List.filterMap_nil, List.map_nil, List.flatMap_nil, List.append_nil, List.append_nil]
    constructor
    · intro h
      exact ⟨⟨.nil _ _ _ ts, .nil _ _ _ ps⟩, (Except.ok.inj h).symm⟩
    · rintro ⟨-, rfl⟩
      rfl
  | cons e entries ih =>
    cases hread : read e with
    | none =>
      rw [List.filterMap_cons_none hread] at hown
      rw [reload_cons_none hread, List.filterMap_cons_none hread]
      exact ih hown
    | some group =>
      obtain ⟨t, qs⟩ := group
      rw [List.filterMap_cons_some hread, List.forall_mem_cons] at hown
      have htunnels : TunnelsFit ts (t :: (entries.filterMap read).map Prod.fst) ↔
          TunnelsFit ts [t] ∧ TunnelsFit (ts ++ [t]) ((entries.filterMap read).map Prod.fst) := by
        unfold TunnelsFit
        rw [fits_cons, fits_singleton, id]
      have hpeers : PeersFit ps (qs ++ (entries.filterMap read).flatMap Prod.snd) ↔
          PeersFit ps qs ∧ PeersFit (ps ++ qs) ((entries.filterMap read).flatMap Prod.snd) := by
        rw [PeersFit, fits_append, List.map_id]
      rw [reload_cons_ok_iff hread, List.filterMap_cons_some hread, List.map_cons,
        List.flatMap_cons, htunnels, hpeers]
      constructor
      · rintro ⟨mid, hmid, hrest⟩
        obtain ⟨hfirst, rfl⟩ := (addWireguard_ok_iff hown.1).mp hmid
        obtain ⟨hfits, rfl⟩ := (ih hown.2).mp hrest
        rw [List.append_assoc, List.append_assoc]
        exact ⟨⟨⟨hfirst.1, hfits.1⟩, hfirst.2, hfits.2⟩, rfl⟩
      · rintro ⟨⟨⟨htunnel, htunnels⟩, hqs, hpeers⟩, rfl⟩
        refine ⟨_, (addWireguard_ok_iff hown.1).mpr ⟨⟨htunnel, hqs⟩, rfl⟩, ?_⟩
        apply (ih hown.2).mpr
        rw [List.append_assoc, List.append_assoc]
        exact ⟨⟨htunnels, hpeers⟩, rfl⟩

theorem tunnelRestored_iff (t : WgTunnel) :
    (tunnelRestored now t).settled = t.settled ↔ t.Plain := by
  constructor
  · intro h
    exact ⟨(congrArg WgTunnel.listenInterface h).symm, (congrArg WgTunnel.splitRoutes h).symm⟩
  · intro h
    unfold WgTunnel.settled WgTunnel.timeless tunnelRestored
    rw [h.listenInterface, h.splitRoutes]

theorem peerRestored_iff (p : WgPeer) :
    (peerRestored now p).timeless = p.timeless ↔ p.clientPrivateKey = none := by
  constructor
  · intro h
    exact (congrArg WgPeer.clientPrivateKey h).symm
  · intro h
    unfold WgPeer.timeless peerRestored
    rw [h]

variable {env : ApplyEnv DateTime} {fl : FloatText F} {chrono : Rfc3339 DateTime} {s : AppState}
  {config : FirewallConfig F DateTime}

/-- The peers of the tunnels, one tunnel after the other. -/
def AppState.peersByTunnel (s : AppState) : List WgPeer :=
  (orderByText WgTunnel.createdAt s.wgTunnels).flatMap s.peersOf

theorem listWgPeers_perm (rows : List WgPeer) : (listWgPeers rows).Perm rows :=
  (List.mergeSort_perm _ _).trans (List.mergeSort_perm _ _)

theorem mem_peersOf {t : WgTunnel} : p ∈ s.peersOf t ↔ p ∈ s.wgPeers ∧ p.tunnelId = t.id := by
  rw [AppState.peersOf, List.mem_filter, decide_eq_true_eq, (listWgPeers_perm s.wgPeers).mem_iff]

theorem peersByTunnel_perm (hs : s.Stored chrono) : s.peersByTunnel.Perm s.wgPeers := by
  have hlist := listWgPeers_perm s.wgPeers
  have htunnels := orderByText_perm WgTunnel.createdAt s.wgTunnels
  have hnodup : (listWgPeers s.wgPeers).Nodup :=
    hlist.nodup_iff.mpr (List.Nodup.of_map WgPeer.id hs.wgPeers)
  apply (flatMap_filter_perm ((htunnels.map WgTunnel.id).nodup_iff.mpr hs.wgTunnels) hnodup _).trans
    hlist
  intro p hp
  obtain ⟨t, ht, hhome⟩ := hs.wgPeerTunnels p (hlist.mem_iff.mp hp)
  exact ⟨t, htunnels.mem_iff.mpr ht, hhome⟩

/-- The tunnels as they come back, each with its peers. -/
def AppState.groupsRestored (s : AppState) (now : List Char) : List (WgTunnel × List WgPeer) :=
  (orderByText WgTunnel.createdAt s.wgTunnels).map fun t =>
    (tunnelRestored now t, (s.peersOf t).map (peerRestored now))

theorem groupsRestored_fst (s : AppState) (now : List Char) :
    (s.groupsRestored now).map Prod.fst =
      (orderByText WgTunnel.createdAt s.wgTunnels).map (tunnelRestored now) := by
  rw [AppState.groupsRestored, List.map_map]
  rfl

theorem groupsRestored_snd (s : AppState) (now : List Char) :
    (s.groupsRestored now).flatMap Prod.snd = s.peersByTunnel.map (peerRestored now) := by
  rw [AppState.groupsRestored, List.flatMap_map, AppState.peersByTunnel, List.map_flatMap]

theorem groupsRestored_own (s : AppState) (now : List Char) :
    ∀ e ∈ s.groupsRestored now, ∀ p ∈ e.2, p.tunnelId = e.1.id := by
  intro e he p hp
  obtain ⟨t, -, rfl⟩ := List.mem_map.mp he
  obtain ⟨q, hq, rfl⟩ := List.mem_map.mp hp
  exact (mem_peersOf.mp hq).2

/-- What the section of the tunnels reads as. -/
theorem wireguard_back (hs : s.Stored chrono) (now : List Char) :
    ((orderByText WgTunnel.createdAt s.wgTunnels).map fun t => t.config (s.peersOf t)).filterMap
      (readWireguard now .new) = s.groupsRestored now := by
  rw [List.filterMap_map]
  refine (List.filterMap_congr ?_).trans (congrFun List.filterMap_eq_map' _)
  intro t ht
  apply readWireguard_config
  · exact hs.wgTunnelAddresses t ((orderByText_perm _ _).mem_iff.mp ht)
  · intro p hp
    obtain ⟨hp, hown⟩ := mem_peersOf.mp hp
    exact ⟨hown, hs.wgPeerAddresses p hp⟩

theorem restoreWireguard_ok_iff (hs : s.Stored chrono)
    (hconfig : config.vpn.wireguard =
      (orderByText WgTunnel.createdAt s.wgTunnels).map fun t => t.config (s.peersOf t)) :
    restoreWireguard env chrono .new config = .ok tables ↔
      (TunnelsFit [] ((orderByText WgTunnel.createdAt s.wgTunnels).map
          (tunnelRestored (env.nowText chrono))) ∧
        PeersFit [] (s.peersByTunnel.map (peerRestored (env.nowText chrono)))) ∧
      tables = ((orderByText WgTunnel.createdAt s.wgTunnels).map
          (tunnelRestored (env.nowText chrono)),
        s.peersByTunnel.map (peerRestored (env.nowText chrono))) := by
  have hback := wireguard_back hs (env.nowText chrono)
  have hown := groupsRestored_own s (env.nowText chrono)
  rw [← hback] at hown
  rw [restoreWireguard, hconfig, reload_wireguard_iff hown, hback, groupsRestored_fst,
    groupsRestored_snd, List.nil_append, List.nil_append]

/-- The tunnels and peers pass the checks of the engine, listen on ports of their own and share no
address within a tunnel, and no row has a setting that an entry has no place for. -/
structure WireguardRestorable (s : AppState) : Prop where
  tunnels : ∀ t ∈ s.wgTunnels, (t.name ≠ [] ∧ t.listenPort ≠ 0) ∧ t.Plain
  listenPorts : (s.wgTunnels.map WgTunnel.listenPort).Nodup
  peers : ∀ p ∈ s.wgPeers, p.publicKey ≠ [] ∧ p.clientPrivateKey = none
  allowedIps : s.wgPeers.Pairwise fun q p => ¬VpnEngine.shareAddress q p

/-- The rows of the two tables, up to the times and the states of the tunnels. -/
structure WireguardKept (s : AppState) (tables : List WgTunnel × List WgPeer) : Prop where
  tunnels : (tables.1.map WgTunnel.settled).Perm (s.wgTunnels.map WgTunnel.settled)
  peers : (tables.2.map WgPeer.timeless).Perm (s.wgPeers.map WgPeer.timeless)

theorem tunnelsFit_iff (hs : s.Stored chrono) (now : List Char) :
    TunnelsFit [] ((orderByText WgTunnel.createdAt s.wgTunnels).map (tunnelRestored now)) ↔
      (∀ t ∈ s.wgTunnels, t.name ≠ [] ∧ t.listenPort ≠ 0) ∧
        (s.wgTunnels.map WgTunnel.listenPort).Nodup := by
  have hfits : TunnelsFit []
      ((orderByText WgTunnel.createdAt s.wgTunnels).map (tunnelRestored now)) ↔ _ :=
    fits_back_iff (orderByText_perm _ _) (fun _ => Iff.rfl) (fun _ _ => Iff.rfl) fun q t h =>
      h.imp Eq.symm (Or.imp Eq.symm Eq.symm)
  have happart := apart_of_keys hs.wgTunnels hs.wgTunnelNames
  rw [hfits]
  apply and_congr_right
  intro _
  rw [List.Nodup, List.pairwise_map]
  constructor
  · intro h
    exact h.imp fun hfree hport => hfree (.inr (.inr hport))
  · intro h
    apply (List.pairwise_and_iff.mpr ⟨happart, h⟩).imp
    rintro q t ⟨hkeys, hport⟩ (hid | hname | hsame)
    · exact hkeys (.inl hid)
    · exact hkeys (.inr hname)
    · exact hport hsame

theorem peersFit_iff (hs : s.Stored chrono) (now : List Char) :
    PeersFit [] (s.peersByTunnel.map (peerRestored now)) ↔
      (∀ p ∈ s.wgPeers, p.publicKey ≠ []) ∧
        s.wgPeers.Pairwise fun q p => ¬VpnEngine.shareAddress q p := by
  have hfits : PeersFit [] (s.peersByTunnel.map (peerRestored now)) ↔ _ :=
    fits_back_iff (peersByTunnel_perm hs) (fun _ => Iff.rfl) (fun _ _ => Iff.rfl) fun q p h =>
      h.imp Eq.symm VpnEngine.shareAddress.symm
  rw [hfits]
  apply and_congr_right
  intro _
  constructor
  · intro h
    exact h.imp fun hfree hshare => hfree (.inr hshare)
  · intro h
    apply (List.pairwise_and_iff.mpr ⟨List.pairwise_map.mp hs.wgPeers, h⟩).imp
    rintro q p ⟨hid, hfree⟩
    exact not_or.mpr ⟨hid, hfree⟩

theorem restoresWireguard_iff (hs : s.Stored chrono)
    (hconfig : config.vpn.wireguard =
      (orderByText WgTunnel.createdAt s.wgTunnels).map fun t => t.config (s.peersOf t)) :
    (∃ tables, restoreWireguard env chrono .new config = .ok tables ∧ WireguardKept s tables) ↔
      WireguardRestorable s := by
  have htunnels : (((orderByText WgTunnel.createdAt s.wgTunnels).map
      (tunnelRestored (env.nowText chrono))).map WgTunnel.settled).Perm
        (s.wgTunnels.map WgTunnel.settled) ↔ ∀ t ∈ s.wgTunnels, t.Plain := by
    have hkeeps (t : WgTunnel) : (tunnelRestored (env.nowText chrono) t).id = t.id := rfl
    rw [back_perm_iff (orderByText_perm _ _) hs.wgTunnels hkeeps]
    · exact forall₂_congr fun t _ => tunnelRestored_iff t
    · intro t t' h
      have hid := congrArg WgTunnel.id h
      exact hid
  have hpeers : ((s.peersByTunnel.map (peerRestored (env.nowText chrono))).map
      WgPeer.timeless).Perm (s.wgPeers.map WgPeer.timeless) ↔
        ∀ p ∈ s.wgPeers, p.clientPrivateKey = none := by
    have hkeeps (p : WgPeer) : (peerRestored (env.nowText chrono) p).id = p.id := rfl
    rw [back_perm_iff (peersByTunnel_perm hs) hs.wgPeers hkeeps]
    · exact forall₂_congr fun p _ => peerRestored_iff p
    · intro p p' h
      have hid := congrArg WgPeer.id h
      exact hid
  constructor
  · rintro ⟨tables, hok, hkept⟩
    obtain ⟨⟨htunnelsFit, hpeersFit⟩, rfl⟩ := (restoreWireguard_ok_iff hs hconfig).mp hok
    obtain ⟨hchecks, hports⟩ := (tunnelsFit_iff hs _).mp htunnelsFit
    obtain ⟨hkeys, hshare⟩ := (peersFit_iff hs _).mp hpeersFit
    exact ⟨fun t ht => ⟨hchecks t ht, htunnels.mp hkept.tunnels t ht⟩, hports,
      fun p hp => ⟨hkeys p hp, hpeers.mp hkept.peers p hp⟩, hshare⟩
  · intro h
    have htunnelsFit := (tunnelsFit_iff hs (env.nowText chrono)).mpr
      ⟨fun t ht => (h.tunnels t ht).1, h.listenPorts⟩
    have hpeersFit := (peersFit_iff hs (env.nowText chrono)).mpr
      ⟨fun p hp => (h.peers p hp).1, h.allowedIps⟩
    exact ⟨_, (restoreWireguard_ok_iff hs hconfig).mpr ⟨⟨htunnelsFit, hpeersFit⟩, rfl⟩,
      htunnels.mpr fun t ht => (h.tunnels t ht).2, hpeers.mpr fun p hp => (h.peers p hp).2⟩

end AiFw.Backup
