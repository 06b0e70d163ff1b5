import AiFw.Backup.RowsBack
import AiFw.Vpn.Rollback

namespace AiFw.Backup
open AiFw.Lib AiFw.Net AiFw.Pf
open AiFw.Aliases (Alias)
set_option autoImplicit true

variable {env : ApplyEnv DateTime} {chrono : Rfc3339 DateTime} {s : AppState}
  {config : FirewallConfig F DateTime}

theorem restoresRules_iff (hs : s.Stored chrono)
    (hconfig : config.rules = (listFilterRules s.rules).map FilterRule.config) :
    Restores (restoreRules env chrono .new config) FilterRule.timeless s.rules ↔
      ∀ r ∈ s.rules, validateRule r.toRule = .ok () ∧ r.Plain := by
  rw [restoreRules, hconfig, RuleEngine.addRule, restored_iff (inserts_insertRow _ _) (rules_back hs)
    (listFilterRules_perm s.rules) hs.rules (List.pairwise_map.mp hs.rules) (fun _ => Iff.rfl)
    (fun _ _ => Iff.rfl) fun _ _ => Eq.symm]
  exact forall₂_congr fun r _ => and_congr_right fun _ => FilterRule.restored_iff _ r

theorem restoresAliases_iff (hs : s.Stored chrono) (hconfig : config.aliases = s.aliasesSection) :
    Restores (restoreAliases env chrono config) aliasTimeless s.aliases ↔
      ∀ a ∈ s.aliases, Aliases.validateName a.name = .ok () := by
  have hlist : (Aliases.list s.aliases).Perm s.aliases := List.mergeSort_perm _ _
  rw [restoreAliases, hconfig, AppState.aliasesSection, restored_iff (inserts_addAlias env.fetch)
    (aliases_back s.aliases) hlist hs.aliases (apart_of_keys hs.aliases hs.aliasNames)
    (fun _ => Iff.rfl) (fun _ _ => Iff.rfl) fun _ _ h => h.imp Eq.symm Eq.symm]
  exact forall₂_congr fun a _ => and_iff_left rfl

theorem restoresStaticRoutes (hs : s.Stored chrono)
    (hconfig : config.staticRoutes = s.staticRoutesSection) :
    Restores (restoreStaticRoutes env chrono .new config) StaticRoute.timeless s.staticRoutes := by
  rw [restoreStaticRoutes, hconfig, AppState.staticRoutesSection, insertStaticRoute,
    restored_iff (inserts_insertRow _ _) (staticRoutes_back s.staticRoutes) (orderByInt_perm _ _)
      hs.staticRoutes (List.pairwise_map.mp hs.staticRoutes) (fun _ => Iff.rfl) (fun _ _ => Iff.rfl)
      fun _ _ => Eq.symm]
  exact fun _ _ => ⟨trivial, rfl⟩

theorem restoresGeoIp (hs : s.Stored chrono)
    (hconfig : config.geoip = (orderByText GeoIpRule.country s.geoipRules).map GeoIpRule.config) :
    Restores (restoreGeoIp env chrono config) GeoIpRule.timeless s.geoipRules := by
  rw [restoreGeoIp, hconfig, GeoIpEngine.addRule, restored_iff (inserts_insertRow _ _)
    (geoIp_back hs.countries) (orderByText_perm _ _) hs.geoipRules
    (List.pairwise_map.mp hs.geoipRules) (fun _ => Iff.rfl) (fun _ _ => Iff.rfl) fun _ _ => Eq.symm]
  exact fun _ _ => ⟨trivial, rfl⟩

theorem restoresIpsecSas_iff (hs : s.Stored chrono)
    (hconfig : config.vpn.ipsec = (orderByText IpsecSa.createdAt s.ipsecSas).map IpsecSa.config) :
    Restores (restoreIpsecSas env chrono config) IpsecSa.settled s.ipsecSas ↔
      ∀ sa ∈ s.ipsecSas, sa.name ≠ [] ∧ env.randSpi sa.id = sa.spi := by
  rw [restoreIpsecSas, hconfig, VpnEngine.addIpsecSa, restored_iff (inserts_insertRow _ _)
    (ipsecSas_back hs.ipsecSaAddresses env.randSpi) (orderByText_perm _ _) hs.ipsecSas
    (apart_of_keys hs.ipsecSas hs.ipsecSaNames) (fun _ => Iff.rfl) (fun _ _ => Iff.rfl)
    fun _ _ h => h.imp Eq.symm Eq.symm]
  exact forall₂_congr fun sa _ => and_congr_right fun _ => IpsecSa.restored_iff env.randSpi sa

theorem restoresQueues (hs : s.Stored chrono)
    (hconfig : config.queues =
      (orderByText QueueConfig.createdAt s.queueConfigs).map QueueConfig.config) :
    Restores (restoreQueues env chrono .new config) QueueConfig.timeless s.queueConfigs := by
  rw [restoreQueues, hconfig, ShapingEngine.addQueue, restored_iff (inserts_insertRow _ _)
    (queues_back s.queueConfigs) (orderByText_perm _ _) hs.queueConfigs
    (List.pairwise_map.mp hs.queueConfigs) (fun _ => Iff.rfl) (fun _ _ => Iff.rfl) fun _ _ => Eq.symm]
  exact fun _ _ => ⟨trivial, rfl⟩

theorem restoresRateLimits_iff (hs : s.Stored chrono)
    (hconfig : config.rateLimits =
      (orderByText (fun r => r.createdAt) s.rateLimitRules).map rateLimitConfig) :
    Restores (restoreRateLimits env chrono .new config) rateLimitTimeless s.rateLimitRules ↔
      ∀ r ∈ s.rateLimitRules, (r.maxConnections ≠ 0 ∧ r.windowSecs ≠ 0 ∧ r.overloadTable ≠ []) ∧
        RateLimitPlain r := by
  rw [restoreRateLimits, hconfig, ShapingEngine.addRateLimit, restored_iff (inserts_insertRow _ _)
    (rateLimits_back s.rateLimitRules) (orderByText_perm _ _) hs.rateLimitRules
    (List.pairwise_map.mp hs.rateLimitRules) (fun _ => Iff.rfl) (fun _ _ => Iff.rfl)
    fun _ _ => Eq.symm]
  exact forall₂_congr fun r _ => and_congr_right fun _ => rateLimitRestored_iff r

theorem restoresSniRules_iff (hs : s.Stored chrono)
    (hconfig : config.tls.sniRules = (orderByText SniRule.pattern s.sniRules).map SniRule.config) :
    Restores (restoreSniRules env chrono config) SniRule.timeless s.sniRules ↔
      ∀ r ∈ s.sniRules, r.pattern ≠ [] ∧ r.status = .active := by
  rw [restoreSniRules, hconfig, TlsEngine.addSniRule, restored_iff (inserts_insertRow _ _)
    (sniRules_back s.sniRules) (orderByText_perm _ _) hs.sniRules (List.pairwise_map.mp hs.sniRules)
    (fun _ => Iff.rfl) (fun _ _ => Iff.rfl) fun _ _ => Eq.symm]
  exact forall₂_congr fun r _ => and_congr_right fun _ => SniRule.restored_iff r

theorem restoresSubnets_iff (hs : s.Stored chrono)
    (hconfig : config.dhcp.subnets = orderByText DhcpSubnet.createdAt s.dhcpSubnets) :
    Restores (restoreSubnets config) DhcpSubnet.timeless s.dhcpSubnets ↔
      ∀ sub ∈ s.dhcpSubnets, sub.Plain := by
  rw [restoreSubnets, hconfig, insertDhcpSubnet,
    ← List.map_id (orderByText DhcpSubnet.createdAt s.dhcpSubnets),
    restored_iff (inserts_insertRow _ _) (subnets_back s.dhcpSubnets) (orderByText_perm _ _)
      hs.dhcpSubnets (List.pairwise_map.mp hs.dhcpSubnets) (fun _ => Iff.rfl) (fun _ _ => Iff.rfl)
      fun _ _ => Eq.symm]
  exact forall₂_congr fun sub _ => (and_iff_right trivial).trans (subnetRestored_iff sub)

theorem reservations_back (rows : List DhcpReservation) :
    ComesBack some id id DhcpReservation.id DhcpReservation.timeless rows where
  read _ _ := rfl
  keeps _ := rfl
  tells r r' h := by
    have hid := congrArg DhcpReservation.id h
    exact hid

theorem restoresReservations (hs : s.Stored chrono)
    (hconfig : config.dhcp.reservations =
      orderByText DhcpReservation.ipAddress s.dhcpReservations) :
    Restores (restoreReservations config) DhcpReservation.timeless s.dhcpReservations := by
  rw [restoreReservations, hconfig, insertDhcpReservation,
    ← List.map_id (orderByText DhcpReservation.ipAddress s.dhcpReservations),
    restored_iff (inserts_insertRow _ _) (reservations_back s.dhcpReservations)
      (orderByText_perm _ _) hs.dhcpReservations
      (apart_of_keys hs.dhcpReservations hs.dhcpReservationIps) (fun _ => Iff.rfl)
      (fun _ _ => Iff.rfl) fun _ _ h => h.imp Eq.symm Eq.symm]
  exact fun _ _ => ⟨trivial, rfl⟩

def natRestored (now : DateTime) (r : NatRecord DateTime) : NatRecord DateTime :=
  { r with createdAt := now, updatedAt := now }

theorem readNat_listed (hs : s.Stored chrono)
    (hlist : NatRuleRow.listRules chrono s.natRules = .ok rules) (now : DateTime) :
    (rules.map natConfig).filterMap (readNat .new now) = rules.map (natRestored now) := by
  rw [List.filterMap_map]
  refine (List.filterMap_congr ?_).trans (congrFun List.filterMap_eq_map' _)
  intro r hr
  obtain ⟨row, hrow, hread⟩ := (mem_of_mapM hlist).mp hr
  obtain ⟨rule, hwritten⟩ := hs.natWritten row (List.mem_mergeSort.mp hrow)
  have hrule : natRestored now rule = natRestored now r := by
    have hsame := congrArg (natRestored now) (hwritten.read hread)
    exact hsame
  exact (readNat_config hwritten hread now).trans (congrArg some hrule)

theorem intoNatRule_id {row : NatRuleRow} {r : NatRecord DateTime}
    (h : row.intoNatRule chrono = .ok r) : r.id = row.id := by
  obtain ⟨_, -, h⟩ := bind_ok.mp h
  obtain ⟨_, -, h⟩ := bind_ok.mp h
  obtain ⟨_, -, h⟩ := bind_ok.mp h
  obtain ⟨_, -, h⟩ := bind_ok.mp h
  obtain ⟨_, -, h⟩ := bind_ok.mp h
  obtain ⟨_, -, h⟩ := bind_ok.mp h
  obtain ⟨_, -, h⟩ := bind_ok.mp h
  cases h
  rfl

theorem listedRules_nodup (hs : s.Stored chrono)
    (hlist : NatRuleRow.listRules chrono s.natRules = .ok rules) :
    (rules.map NatRecord.id).Nodup := by
  have hids : (NatRuleRow.byCreatedAt s.natRules).map NatRuleRow.id = rules.map NatRecord.id := by
    apply map_of_forall₂ _ (mapM_ok.mp hlist)
    intro row r h
    exact (intoNatRule_id h).symm
  rw [← hids]
  exact ((List.mergeSort_perm _ _).map NatRuleRow.id).nodup_iff.mpr hs.natRules

theorem restoresNat_iff (hs : s.Stored chrono)
    (hlist : NatRuleRow.listRules chrono s.natRules = .ok rules)
    (hconfig : config.nat = rules.map natConfig) :
    Restores (restoreNat env chrono .new config) natTimeless s.natRules ↔
      ∀ r ∈ rules, validateNatRule r.toNatRule = .ok () := by
  have hfits : (∃ rows, restoreNat env chrono .new config = .ok rows) ↔
      ∀ r ∈ rules, validateNatRule r.toNatRule = .ok () := by
    rw [restoreNat, hconfig, reload_ok_iff (inserts_addNat chrono), readNat_listed hs hlist]
    constructor
    · intro h r hr
      exact h.checked (natRestored env.now r) (List.mem_map_of_mem hr)
    · intro h
      refine ⟨List.forall_mem_map.mpr h, ?_,
        List.pairwise_map.mpr (List.pairwise_map.mp (listedRules_nodup hs hlist))⟩
      intro _ _ _ hq
      cases hq
  rw [← hfits]
  constructor
  · rintro ⟨rows, hok, -⟩
    exact ⟨rows, hok⟩
  · rintro ⟨rows, hok⟩
    exact ⟨rows, hok, restoredNat hs hlist hconfig hok⟩

/-- The row that is written for the tunnel a row reads as. -/
def tunnelRewritten (chrono : Rfc3339 DateTime) (row : Vpn.IpsecTunnelRow) : Vpn.IpsecTunnelRow :=
  match row.intoTunnel chrono with
  | .ok t => .ofTunnel chrono t
  | .error _ => row

theorem tunnelRewritten_of_ok {row : Vpn.IpsecTunnelRow} (h : row.intoTunnel chrono = .ok t) :
    tunnelRewritten chrono row = .ofTunnel chrono t := by
  rw [tunnelRewritten, h]

theorem tunnelRewritten_id (row : Vpn.IpsecTunnelRow) :
    (tunnelRewritten chrono row).id = row.id := by
  cases h : row.intoTunnel chrono with
  | ok t =>
    rw [tunnelRewritten_of_ok h]
    exact Vpn.intoTunnel_id h
  | error e => rw [tunnelRewritten, h]

theorem insert_ok_iff {table : Vpn.TunnelTable} {row : Vpn.IpsecTunnelRow} :
    (∃ table', table.insert row = .ok table') ↔
      ∀ q ∈ table.rows, ¬(q.id = row.id ∨ q.name = row.name) := by
  simp only [not_or, forall₂_and]
  rw [← hasKey_eq_false, ← hasKey_eq_false]
  unfold Vpn.TunnelTable.insert
  by_cases hid : hasKey Vpn.IpsecTunnelRow.id row.id table.rows = false
  · by_cases hname : hasKey Vpn.IpsecTunnelRow.name row.name table.rows = false
    · rw [dif_pos hid, dif_pos hname]
      exact ⟨fun _ => ⟨hid, hname⟩, fun _ => ⟨_, rfl⟩⟩
    · rw [dif_pos hid, dif_neg hname]
      constructor
      · rintro ⟨_, h⟩
        cases h
      · intro h
        exact absurd h.2 hname
  · rw [dif_neg hid]
    constructor
    · rintro ⟨_, h⟩
      cases h
    · intro h
      exact absurd h.1 hid

theorem inserts_addTunnel (chrono : Rfc3339 DateTime) :
    Inserts Vpn.TunnelTable.rows (Vpn.IpsecTunnelRow.ofTunnel chrono)
      (fun t => t.validate = .ok ()) (fun q r => q.id = r.id ∨ q.name = r.name)
      (keeping (Vpn.TunnelTable.addTunnel chrono)) where
  grows table t table' h := by
    have h := keeping_ok.mp h
    obtain ⟨-, hinsert⟩ := andThen_ok.mp h
    exact (Vpn.insert_ok hinsert).1
  taken_iff table t := by
    rw [← insert_ok_iff]
    constructor
    · rintro ⟨table', h⟩
      have h := keeping_ok.mp h
      obtain ⟨hvalid, hinsert⟩ := andThen_ok.mp h
      exact ⟨hvalid, table', hinsert⟩
    · rintro ⟨hvalid, table', hinsert⟩
      exact ⟨table', keeping_ok.mpr (andThen_ok.mpr ⟨hvalid, hinsert⟩)⟩

theorem tunnelNames_nodup (hs : s.Stored chrono) :
    (s.ipsecTunnels.rows.map Vpn.IpsecTunnelRow.name).Nodup := by
  apply List.Nodup.map_on _ (List.Nodup.of_map _ hs.ipsecTunnels)
  intro row hrow row' hrow'
  exact s.ipsecTunnels.names row hrow row' hrow'

theorem tunnelRewritten_iff {row : Vpn.IpsecTunnelRow} (h : row.intoTunnel chrono = .ok t) :
    t.validate = .ok () ∧ tunnelTimeless (tunnelRewritten chrono row) = tunnelTimeless row ↔
      row.Restorable chrono := by
  rw [tunnelRewritten_of_ok h]
  constructor
  · rintro ⟨hvalid, hsame⟩
    refine ⟨t, h, hvalid, ?_⟩
    have hback := congrArg (fun r : Vpn.IpsecTunnelRow =>
      { r with createdAt := row.createdAt, updatedAt := row.updatedAt }) hsame
    exact hback
  · rintro ⟨found, hread, hvalid, hsame⟩
    cases h.symm.trans hread
    have hview := congrArg tunnelTimeless hsame
    exact ⟨hvalid, hview⟩

/-- What the rows and the tunnels that are listed of them agree on. -/
theorem map_listed {κ : Type} {table : Vpn.TunnelTable}
    {tunnels : List (Vpn.IpsecTunnel DateTime)}
    {f : Vpn.IpsecTunnelRow → κ} {g : Vpn.IpsecTunnel DateTime → κ}
    (hlist : table.listTunnels chrono = .ok tunnels)
    (hsame : ∀ row t, row.intoTunnel chrono = .ok t → f row = g t) :
    (orderByText Vpn.IpsecTunnelRow.createdAt table.rows).map f = tunnels.map g :=
  map_of_forall₂ hsame (mapM_ok.mp hlist)

theorem restoresTunnels_iff (hs : s.Stored chrono)
    (hlist : s.ipsecTunnels.listTunnels chrono = .ok tunnels)
    (hconfig : config.vpn.ipsecTunnels = tunnels) :
    (∃ table, restoreIpsecTunnels chrono config = .ok table ∧
        (table.rows.map tunnelTimeless).Perm (s.ipsecTunnels.rows.map tunnelTimeless)) ↔
      ∀ row ∈ s.ipsecTunnels.rows, row.Restorable chrono := by
  have hsorted := orderByText_perm Vpn.IpsecTunnelRow.createdAt s.ipsecTunnels.rows
  have hids : (tunnels.map Vpn.IpsecTunnel.id).Nodup := by
    rw [← map_listed hlist fun _ _ h => (Vpn.intoTunnel_id h).symm]
    exact (hsorted.map _).nodup_iff.mpr hs.ipsecTunnels
  have hnames : (tunnels.map Vpn.IpsecTunnel.name).Nodup := by
    rw [← map_listed hlist fun _ _ h => (Vpn.intoTunnel_columns h).2.1.symm]
    exact (hsorted.map _).nodup_iff.mpr (tunnelNames_nodup hs)
  have hrewritten := map_listed hlist fun _ _ h => tunnelRewritten_of_ok h
  have hfits : (∃ table, restoreIpsecTunnels chrono config = .ok table) ↔
      ∀ t ∈ tunnels, t.validate = .ok () := by
    rw [restoreIpsecTunnels, hconfig, reload_ok_iff (inserts_addTunnel chrono), List.filterMap_some]
    constructor
    · intro h
      exact h.checked
    · intro h
      exact ⟨h, (fun _ _ _ hq => nomatch hq), apart_of_keys hids hnames⟩
  have hrows {table : Vpn.TunnelTable} (hok : restoreIpsecTunnels chrono config = .ok table) :
      (table.rows.map tunnelTimeless).Perm (s.ipsecTunnels.rows.map tunnelTimeless) ↔
        ∀ row ∈ s.ipsecTunnels.rows,
          tunnelTimeless (tunnelRewritten chrono row) = tunnelTimeless row := by
    rw [restoreIpsecTunnels, hconfig] at hok
    rw [rows_of_reload (inserts_addTunnel chrono) hok, List.filterMap_some, ← hrewritten]
    apply back_perm_iff hsorted hs.ipsecTunnels tunnelRewritten_id
    intro row row' h
    have hid := congrArg Vpn.IpsecTunnelRow.id h
    exact hid
  constructor
  · rintro ⟨table, hok, hperm⟩
    intro row hrow
    obtain ⟨t, ht⟩ := exists_of_mapM hlist (List.mem_mergeSort.mpr hrow)
    have hvalid := hfits.mp ⟨table, hok⟩ t ((mem_of_mapM hlist).mpr ⟨row, hsorted.mem_iff.mpr hrow, ht⟩)
    exact (tunnelRewritten_iff ht).mp ⟨hvalid, (hrows hok).mp hperm row hrow⟩
  · intro h
    have hvalid : ∀ t ∈ tunnels, t.validate = .ok () := by
      intro t ht
      obtain ⟨row, hrow, hread⟩ := (mem_of_mapM hlist).mp ht
      exact ((tunnelRewritten_iff hread).mpr (h row (hsorted.mem_iff.mp hrow))).1
    obtain ⟨table, hok⟩ := hfits.mpr hvalid
    refine ⟨table, hok, (hrows hok).mpr ?_⟩
    intro row hrow
    obtain ⟨t, ht⟩ := exists_of_mapM hlist (List.mem_mergeSort.mpr hrow)
    exact ((tunnelRewritten_iff ht).mpr (h row hrow)).2

def ja3Restored (now : List Char) (b : Ja3Block) : Ja3Block :=
  { b with description := "restored from backup".toList, createdAt := now }

theorem addJa3Block_fresh {rows : List Ja3Block} {hash : List Char} (h : ∀ b ∈ rows, b.hash ≠ hash)
    (now description : List Char) :
    TlsEngine.addJa3Block now rows hash description = rows ++ [⟨hash, description, now⟩] := by
  rw [TlsEngine.addJa3Block, dropKey, List.filter_eq_self.mpr]
  intro b hb
  exact decide_eq_true (h b hb)

theorem foldl_addJa3Block (now description : List Char) {hashes : List (List Char)}
    (h : hashes.Nodup) {rows : List Ja3Block} (hfree : ∀ b ∈ rows, b.hash ∉ hashes) :
    hashes.foldl (fun rows hash => TlsEngine.addJa3Block now rows hash description) rows =
      rows ++ hashes.map fun hash => ⟨hash, description, now⟩ := by
  induction hashes generalizing rows with
  | nil => exact (List.append_nil rows).symm
  | cons hash hashes ih =>
    rw [List.nodup_cons] at h
    have hfresh : ∀ b ∈ rows, b.hash ≠ hash := by
      intro b hb hsame
      exact hfree b hb (hsame ▸ List.mem_cons_self)
    rw [List.foldl_cons, addJa3Block_fresh hfresh, ih h.2, List.append_assoc]
    · rfl
    · intro b hb hmem
      rcases List.mem_append.mp hb with hb | hb
      · exact hfree b hb (List.mem_cons_of_mem hash hmem)
      · rw [List.mem_singleton.mp hb] at hmem
        exact h.1 hmem

theorem restoresJa3_iff (hs : s.Stored chrono)
    (hconfig : config.tls.blockedJa3 =
      (orderByTextDesc Ja3Block.createdAt s.ja3Blocklist).map Ja3Block.hash) :
    ((restoreJa3 env chrono config).map Ja3Block.timeless).Perm
        (s.ja3Blocklist.map Ja3Block.timeless) ↔
      ∀ b ∈ s.ja3Blocklist, b.description = "restored from backup".toList := by
  have hlist : (orderByTextDesc Ja3Block.createdAt s.ja3Blocklist).Perm s.ja3Blocklist :=
    List.mergeSort_perm _ _
  have hhashes : ((orderByTextDesc Ja3Block.createdAt s.ja3Blocklist).map Ja3Block.hash).Nodup :=
    (hlist.map Ja3Block.hash).nodup_iff.mpr hs.ja3Blocklist
  have hrows : restoreJa3 env chrono config =
      (orderByTextDesc Ja3Block.createdAt s.ja3Blocklist).map (ja3Restored (env.nowText chrono)) := by
    rw [restoreJa3, hconfig, foldl_addJa3Block _ _ hhashes (List.forall_mem_nil _), List.map_map]
    rfl
  have hkeeps (b : Ja3Block) : (ja3Restored (env.nowText chrono) b).hash = b.hash := rfl
  rw [hrows, back_perm_iff hlist hs.ja3Blocklist hkeeps]
  · apply forall₂_congr
    intro b _
    constructor
    · intro h
      exact (congrArg Ja3Block.description h).symm
    · intro h
      unfold Ja3Block.timeless ja3Restored
      rw [h]
  · intro b b' h
    have hhash := congrArg Ja3Block.hash h
    exact hhash

end AiFw.Backup
