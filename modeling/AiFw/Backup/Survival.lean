import AiFw.Backup.Apply
import AiFw.Backup.Replica

namespace AiFw.Backup
open AiFw.Lib AiFw.Net AiFw.Pf AiFw.Ha
open AiFw.Wan (Uuid displayUuid)
open AiFw.Aliases (Alias AliasType)
set_option autoImplicit true

/-- The address of a column, which has been read from its text. -/
def FromText (a : Address) : Prop := ∃ text, Address.parse text = .ok a

theorem FromText.table (h : FromText a) :
    ∀ name, a = .table name → validateTableName name = .ok () := by
  rintro name rfl
  obtain ⟨text, h⟩ := h
  exact Address.parse_table_valid h

theorem FromText.parse_display (h : FromText a) : Address.parse a.display = .ok a :=
  Address.parse_display a h.table

theorem FromText.optAddress (h : FromText a) : optAddress (some a.display) = some a := by
  rw [Backup.optAddress, h.parse_display]
  rfl

theorem portRange_map (p : Option PortRange) :
    portRange (p.map PortRange.start) (p.map PortRange.end_) = p := by
  cases p <;> rfl

theorem ifaceAfter_new (name : Option (List Char)) : ifaceAfter .new name = some name := by
  cases name <;> rfl

theorem mapIface_new (name : List Char) : mapIface name .new = some name := rfl

/-- The fields that an entry has no place for. -/
structure FilterRule.Plain (r : FilterRule) : Prop where
  policy : r.stateOptions.policy = none
  adaptive : r.stateOptions.adaptiveTimeouts = none
  timeoutTcp : r.timeoutTcp = none
  timeoutUdp : r.timeoutUdp = none
  timeoutIcmp : r.timeoutIcmp = none

def FilterRule.restored (now : List Char) (r : FilterRule) : FilterRule :=
  { r with
      stateOptions := ⟨r.stateOptions.tracking, none, none⟩
      timeoutTcp := none
      timeoutUdp := none
      timeoutIcmp := none
      createdAt := now
      updatedAt := now }

/-- A rule comes back without them. -/
theorem readRule_config {r : FilterRule} (hsrc : FromText r.ruleMatch.srcAddr)
    (hdst : FromText r.ruleMatch.dstAddr) : readRule now .new r.config = some (r.restored now) := by
  unfold readRule
  rw [ifaceAfter_new]
  simp only [ruleFromConfig, FilterRule.config, hsrc.optAddress, hdst.optAddress, portRange_map]
  rfl

theorem FilterRule.restored_iff (now : List Char) (r : FilterRule) :
    (r.restored now).timeless = r.timeless ↔ r.Plain := by
  constructor
  · intro h
    have hoptions : ⟨r.stateOptions.tracking, none, none⟩ = r.stateOptions :=
      congrArg (fun r : FilterRule => r.stateOptions) h
    exact ⟨(congrArg StateOptions.policy hoptions).symm,
      (congrArg StateOptions.adaptiveTimeouts hoptions).symm,
      (congrArg FilterRule.timeoutTcp h).symm, (congrArg FilterRule.timeoutUdp h).symm,
      (congrArg FilterRule.timeoutIcmp h).symm⟩
  · intro h
    have hoptions : r.stateOptions = ⟨r.stateOptions.tracking, none, none⟩ :=
      calc r.stateOptions
          = ⟨r.stateOptions.tracking, r.stateOptions.policy, r.stateOptions.adaptiveTimeouts⟩ := rfl
        _ = ⟨r.stateOptions.tracking, none, none⟩ := by rw [h.policy, h.adaptive]
    unfold FilterRule.timeless FilterRule.restored
    rw [← hoptions, h.timeoutTcp, h.timeoutUdp, h.timeoutIcmp]

/-- The row has been written for a rule, or for one that was put in its place. -/
structure NatWritten (chrono : Rfc3339 DateTime) (row : NatRuleRow) (rule : NatRecord DateTime) :
    Prop where
  tables : rule.toNatRule.TablesValid
  columns : natTimeless row = natTimeless (NatRuleRow.ofRule chrono rule)

variable {chrono : Rfc3339 DateTime} {now : List Char}

/-- A row that was written for a rule is read as that rule, up to the times. -/
theorem NatWritten.read {row : NatRuleRow} (h : NatWritten chrono row rule)
    (hread : row.intoNatRule chrono = .ok r) :
    { rule with createdAt := r.createdAt, updatedAt := r.updatedAt } = r := by
  obtain ⟨hsrcTable, hdstTable, htargetTable⟩ := h.tables
  have hcolumns := h.columns
  cases row
  simp only [natTimeless, NatRuleRow.ofRule, NatRuleRow.mk.injEq] at hcolumns
  obtain ⟨rfl, rfl, rfl, rfl, rfl, rfl, rfl, rfl, rfl, rfl, rfl, rfl, rfl, rfl, rfl, -⟩ := hcolumns
  simp only [NatRuleRow.intoNatRule, bind_ok, NatType.parse_display, Protocol.parse_display,
    Address.parse_display _ hsrcTable, Address.parse_display _ hdstTable,
    Address.parse_display _ htargetTable, NatRuleRow.parsePortRange_map,
    NatRuleRow.status_of_asStr] at hread
  obtain ⟨t, ht, p, hp, src, hsrc, dst, hdst, target, htarget, _, _, _, _, hread⟩ := hread
  cases ht
  cases hp
  cases hsrc
  cases hdst
  cases htarget
  cases hread
  rfl

/-- A NAT rule comes back as it was stored, but for its times. -/
theorem readNat_config {row : NatRuleRow} (h : NatWritten chrono row rule)
    (hread : row.intoNatRule chrono = .ok r) (now : DateTime) :
    readNat .new now (natConfig r) = some { rule with createdAt := now, updatedAt := now } := by
  have hconfig : natConfig r = natConfig rule := by
    rw [← h.read hread]
    rfl
  unfold readNat
  rw [hconfig, mapIface_new]
  simp only [natFromConfig, natConfig, optAddress, Address.parse_display _ h.tables.srcTable,
    Address.parse_display _ h.tables.dstTable, Address.parse_display _ h.tables.redirectTable,
    portRange_map]
  rfl

def aliasRestored (now : List Char) (a : Alias) : Alias :=
  { a with createdAt := now, updatedAt := now }

theorem aliasFromConfig_config (a : Alias) :
    aliasFromConfig now (aliasConfig a) = some (aliasRestored now a) := by
  cases a with
  | mk id name aliasType => cases aliasType <;> rfl

def StaticRoute.restored (now : List Char) (r : StaticRoute) : StaticRoute :=
  { r with createdAt := now }

theorem readStaticRoute_config (r : StaticRoute) :
    readStaticRoute now .new r.config = some (r.restored now) := by
  unfold readStaticRoute
  rw [StaticRoute.config, ifaceAfter_new]
  rfl

theorem inserts_addNat (chrono : Rfc3339 DateTime) :
    Inserts id (NatRuleRow.ofRule chrono) (fun r => validateNatRule r.toNatRule = .ok ())
      (fun q r => q.id = r.id) (keeping (NatRuleRow.addRule chrono)) := by
  apply inserts_of_ok_iff
  · intro rows rule rows' h
    have h := keeping_ok.mp h
    obtain ⟨hvalid, h⟩ := andThen_ok.mp h
    split at h
    · cases h
    · rename_i hfree
      cases h
      exact ⟨⟨hvalid, hasKey_eq_false.mp (Bool.not_eq_true _ ▸ hfree)⟩, rfl⟩
  · intro rows rule hvalid hfree
    have hkey : ¬hasKey NatRuleRow.id rule.id rows = true :=
      Bool.not_eq_true _ ▸ hasKey_eq_false.mpr hfree
    refine ⟨rows ++ [NatRuleRow.ofRule chrono rule], keeping_ok.mpr ?_⟩
    rw [NatRuleRow.addRule, hvalid, if_neg hkey]
    rfl

theorem inserts_addAlias (fetch : Aliases.Fetch) :
    Inserts id id (fun a : Alias => Aliases.validateName a.name = .ok ())
      (fun q a => q.id = a.id ∨ q.name = a.name) (addAlias fetch) := by
  have hkeys (rows : List Alias) (a : Alias) :
      (hasKey Alias.id a.id rows || hasKey Alias.name a.name rows) = false ↔
        ∀ q ∈ rows, ¬(q.id = a.id ∨ q.name = a.name) := by
    rw [Bool.or_eq_false_iff, hasKey_eq_false, hasKey_eq_false, ← forall₂_and]
    simp only [not_or]
  apply inserts_of_ok_iff
  · intro rows a rows' h
    unfold addAlias Aliases.add at h
    cases hvalid : Aliases.validateName a.name with
    | error e =>
      rw [hvalid] at h
      cases h
    | ok u =>
      cases hkey : hasKey Alias.id a.id rows || hasKey Alias.name a.name rows with
      | true =>
        rw [hvalid, hkey] at h
        cases h
      | false =>
        rw [hvalid, hkey] at h
        cases h
        exact ⟨⟨rfl, (hkeys rows a).mp hkey⟩, rfl⟩
  · intro rows a hvalid hfree
    refine ⟨rows ++ [a], ?_⟩
    unfold addAlias Aliases.add
    rw [hvalid, (hkeys rows a).mpr hfree]
    rfl

namespace KeyValues
variable {t : KeyValues} {rows : List (String × List Char)}

theorem setAll_cons (t : KeyValues) (e : String × List Char) (rows : List (String × List Char)) :
    t.setAll (e :: rows) = (t.set e).setAll rows := rfl

theorem setAll_other (h : ∀ e ∈ rows, key ≠ e.1.toList) : t.setAll rows key = t key := by
  induction rows generalizing t with
  | nil => rfl
  | cons e rows ih =>
    rw [setAll_cons, ih fun x hx => h x (List.mem_cons_of_mem e hx)]
    exact if_neg (h e List.mem_cons_self)

theorem setAll_of_mem (hkeys : (rows.map Prod.fst).Nodup) (he : e ∈ rows) :
    t.setAll rows e.1.toList = some e.2 := by
  induction rows generalizing t with
  | nil => cases he
  | cons e' rows ih =>
    rw [List.map_cons, List.nodup_cons] at hkeys
    rw [setAll_cons]
    rcases List.mem_cons.mp he with rfl | he
    · rw [setAll_other]
      · exact if_pos rfl
      · intro x hx hsame
        exact hkeys.1 (List.mem_map.mpr ⟨x, hx, (String.toList_inj.mp hsame).symm⟩)
    · exact ih hkeys.2 he

/-- Rows that are written to a table change nothing just if the table holds them already. -/
theorem setAll_eq_self_iff (hkeys : (rows.map Prod.fst).Nodup) :
    t.setAll rows = t ↔ ∀ e ∈ rows, t e.1.toList = some e.2 := by
  constructor
  · intro h e he
    rw [← h]
    exact setAll_of_mem hkeys he
  · intro h
    funext key
    by_cases hkey : ∃ e ∈ rows, key = e.1.toList
    · obtain ⟨e, he, rfl⟩ := hkey
      rw [setAll_of_mem hkeys he, h e he]
    · apply setAll_other
      intro e he hsame
      exact hkey ⟨e, he, hsame⟩

end KeyValues

/-- What the schema, and the engines that write the rows, see to in every table. -/
structure AppState.Stored (chrono : Rfc3339 DateTime) (s : AppState) : Prop where
  rules : (s.rules.map fun r => r.id).Nodup
  ruleAddresses : ∀ r ∈ s.rules, FromText r.ruleMatch.srcAddr ∧ FromText r.ruleMatch.dstAddr
  natRules : (s.natRules.map NatRuleRow.id).Nodup
  natWritten : ∀ row ∈ s.natRules, ∃ rule : NatRecord DateTime, NatWritten chrono row rule
  aliases : (s.aliases.map Alias.id).Nodup
  aliasNames : (s.aliases.map Alias.name).Nodup
  staticRoutes : (s.staticRoutes.map StaticRoute.id).Nodup
  geoipRules : (s.geoipRules.map GeoIpRule.id).Nodup
  countries : ∀ g ∈ s.geoipRules, ∃ text, countryCode text = some g.country
  wgTunnels : (s.wgTunnels.map WgTunnel.id).Nodup
  wgTunnelNames : (s.wgTunnels.map WgTunnel.name).Nodup
  wgTunnelAddresses : ∀ t ∈ s.wgTunnels, FromText t.address
  wgPeers : (s.wgPeers.map WgPeer.id).Nodup
  wgPeerAddresses : ∀ p ∈ s.wgPeers, ∀ a ∈ p.allowedIps, FromText a
  wgPeerTunnels : ∀ p ∈ s.wgPeers, ∃ t ∈ s.wgTunnels, t.id = p.tunnelId
  ipsecSas : (s.ipsecSas.map IpsecSa.id).Nodup
  ipsecSaNames : (s.ipsecSas.map IpsecSa.name).Nodup
  ipsecSaAddresses : ∀ sa ∈ s.ipsecSas, FromText sa.srcAddr ∧ FromText sa.dstAddr
  ipsecTunnels : (s.ipsecTunnels.rows.map Vpn.IpsecTunnelRow.id).Nodup
  queueConfigs : (s.queueConfigs.map QueueConfig.id).Nodup
  rateLimitRules : (s.rateLimitRules.map fun r => r.id).Nodup
  sniRules : (s.sniRules.map SniRule.id).Nodup
  ja3Blocklist : (s.ja3Blocklist.map Ja3Block.hash).Nodup
  carpVips : (s.carpVips.map CarpVip.id).Nodup
  pfsyncConfig : s.pfsyncConfig.length ≤ 1
  clusterNodes : (s.clusterNodes.map ClusterNode.id).Nodup
  clusterNodeNames : (s.clusterNodes.map ClusterNode.name).Nodup
  dhcpSubnets : (s.dhcpSubnets.map DhcpSubnet.id).Nodup
  dhcpReservations : (s.dhcpReservations.map DhcpReservation.id).Nodup
  dhcpReservationIps : (s.dhcpReservations.map DhcpReservation.ipAddress).Nodup

theorem listFilterRules_perm (rows : List FilterRule) : (listFilterRules rows).Perm rows :=
  (List.mergeSort_perm _ _).trans (List.mergeSort_perm _ _)

theorem orderByText_perm (column : ρ → List Char) (rows : List ρ) :
    (orderByText column rows).Perm rows := List.mergeSort_perm _ _

theorem orderByInt_perm (column : ρ → Int) (rows : List ρ) : (orderByInt column rows).Perm rows :=
  List.mergeSort_perm _ _

variable {env : ApplyEnv DateTime} {chrono : Rfc3339 DateTime} {s : AppState}
  {config : FirewallConfig F DateTime}

theorem rules_back (hs : s.Stored chrono) :
    ComesBack (readRule now .new) FilterRule.config (FilterRule.restored now)
      (fun r : FilterRule => r.id) FilterRule.timeless s.rules where
  read r hr := readRule_config (hs.ruleAddresses r hr).1 (hs.ruleAddresses r hr).2
  keeps _ := rfl
  tells r r' h := by
    have hid := congrArg (fun r : FilterRule => r.id) h
    exact hid

theorem aliases_back (rows : List Alias) :
    ComesBack (aliasFromConfig now) aliasConfig (aliasRestored now) Alias.id aliasTimeless rows where
  read a _ := aliasFromConfig_config a
  keeps _ := rfl
  tells a a' h := by
    have hid := congrArg Alias.id h
    exact hid

theorem staticRoutes_back (rows : List StaticRoute) :
    ComesBack (readStaticRoute now .new) StaticRoute.config (StaticRoute.restored now)
      StaticRoute.id StaticRoute.timeless rows where
  read r _ := readStaticRoute_config r
  keeps _ := rfl
  tells r r' h := by
    have hid := congrArg StaticRoute.id h
    exact hid

theorem restoredRules_iff (hs : s.Stored chrono)
    (hconfig : config.rules = (listFilterRules s.rules).map FilterRule.config)
    (hok : restoreRules env chrono .new config = .ok rows) :
    (rows.map FilterRule.timeless).Perm (s.rules.map FilterRule.timeless) ↔
      ∀ r ∈ s.rules, r.Plain := by
  rw [restoreRules, hconfig] at hok
  rw [reloaded_perm_iff (inserts_insertRow _ _) (rules_back hs) hok (listFilterRules_perm s.rules)
    hs.rules]
  exact forall₂_congr fun r _ => FilterRule.restored_iff _ r

/-- The rows of the NAT rules are always restored. -/
theorem restoredNat (hs : s.Stored chrono)
    (hlist : NatRuleRow.listRules chrono s.natRules = .ok rules)
    (hconfig : config.nat = rules.map natConfig)
    (hok : restoreNat env chrono .new config = .ok rows) :
    (rows.map natTimeless).Perm (s.natRules.map natTimeless) := by
  rw [restoreNat, hconfig] at hok
  have hrows : rows = ((rules.map natConfig).filterMap (readNat .new env.now)).map
      (NatRuleRow.ofRule chrono) := rows_of_reload (inserts_addNat chrono) hok
  have hback : rows.map natTimeless = (NatRuleRow.byCreatedAt s.natRules).map natTimeless := by
    rw [hrows, List.map_map, List.filterMap_map]
    apply filterMap_of_forall₂ (mapM_ok.mp hlist)
    intro row hrow r hread
    obtain ⟨rule, hwritten⟩ := hs.natWritten row (List.mem_mergeSort.mp hrow)
    exact ⟨_, readNat_config hwritten hread env.now, hwritten.columns.symm⟩
  rw [hback]
  exact (List.mergeSort_perm _ _).map natTimeless

theorem restoredAliases (hs : s.Stored chrono) (hconfig : config.aliases = s.aliasesSection)
    (hok : restoreAliases env chrono config = .ok rows) :
    (rows.map aliasTimeless).Perm (s.aliases.map aliasTimeless) := by
  rw [restoreAliases, hconfig] at hok
  exact (reloaded_perm_iff (inserts_addAlias env.fetch) (aliases_back s.aliases) hok
    (List.mergeSort_perm _ _) hs.aliases).mpr fun _ _ => rfl

theorem restoredStaticRoutes (hs : s.Stored chrono)
    (hconfig : config.staticRoutes = s.staticRoutesSection)
    (hok : restoreStaticRoutes env chrono .new config = .ok rows) :
    (rows.map StaticRoute.timeless).Perm (s.staticRoutes.map StaticRoute.timeless) := by
  rw [restoreStaticRoutes, hconfig] at hok
  exact (reloaded_perm_iff (inserts_insertRow _ _) (staticRoutes_back s.staticRoutes) hok
    (orderByInt_perm _ _) hs.staticRoutes).mpr fun _ _ => rfl

end AiFw.Backup
