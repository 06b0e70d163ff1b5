import AiFw.Aliases.Engine

namespace AiFw.Aliases
open AiFw.Lib AiFw.Net AiFw.Wan
set_option autoImplicit true

/-- Some alias of the name is to load the address. -/
def HeldUnder (rows : List Alias) (n : List Char) (x : IpAddr) : Prop :=
  ∃ a ∈ rows, a.name = n ∧ x ∈ a.held

theorem heldUnder_append {rows : List Alias} :
    HeldUnder (rows ++ [a]) n x ↔ HeldUnder rows n x ∨ a.name = n ∧ x ∈ a.held := by
  unfold HeldUnder
  constructor
  · intro h
    obtain ⟨r, hr, h⟩ := h
    obtain hr | hr := List.mem_append.mp hr
    · exact .inl ⟨r, hr, h⟩
    · rw [List.mem_singleton.mp hr] at h
      exact .inr h
  · intro h
    obtain ⟨r, hr, h⟩ | h := h
    · exact ⟨r, List.mem_append_left _ hr, h⟩
    · exact ⟨a, List.mem_append_right _ (List.mem_singleton_self a), h⟩

theorem unheld {rows : List Alias} (hfree : hasKey Alias.name n rows = false) :
    ¬HeldUnder rows n x := by
  intro hx
  obtain ⟨r, hr, hn, -⟩ := hx
  exact hasKey_eq_false.mp hfree r hr hn

theorem updateRow_of_id {a r : Alias} (h : r.id = a.id) (now : List Char) :
    (updateRow now a r).name = a.name ∧ (updateRow now a r).held = a.held := by
  unfold updateRow
  rw [if_pos h]
  exact ⟨rfl, rfl⟩

theorem updateRow_of_ne {a r : Alias} (h : r.id ≠ a.id) (now : List Char) : updateRow now a r = r :=
  if_neg h

theorem heldUnder_update {rows : List Alias} (hid : hasKey Alias.id a.id rows = true)
    (now : List Char) :
    HeldUnder (rows.map (updateRow now a)) n x ↔
      (∃ r ∈ rows, r.id ≠ a.id ∧ r.name = n ∧ x ∈ r.held) ∨ a.name = n ∧ x ∈ a.held := by
  unfold HeldUnder
  constructor
  · intro h
    obtain ⟨r', hr', hn, hx⟩ := h
    obtain ⟨r, hr, rfl⟩ := List.mem_map.mp hr'
    by_cases he : r.id = a.id
    · obtain ⟨hname, hheld⟩ := updateRow_of_id he now
      rw [hname] at hn
      rw [hheld] at hx
      exact .inr ⟨hn, hx⟩
    · rw [updateRow_of_ne he] at hn hx
      exact .inl ⟨r, hr, he, hn, hx⟩
  · intro h
    obtain ⟨r, hr, he, hn, hx⟩ | ⟨hn, hx⟩ := h
    · refine ⟨r, List.mem_map.mpr ⟨r, hr, updateRow_of_ne he now⟩, hn, hx⟩
    · obtain ⟨r, hr, he⟩ := hasKey_iff.mp hid
      obtain ⟨hname, hheld⟩ := updateRow_of_id he now
      exact ⟨updateRow now a r, List.mem_map_of_mem hr, hname.trans hn, hheld.symm ▸ hx⟩

theorem Updates.other (h : Updates rows a) : ∀ r ∈ rows, r.id ≠ a.id → r.name ≠ a.name := by
  intro r hr hne hn
  have hany : taken rows a = true := by
    apply List.any_eq_true.mpr
    refine ⟨r, hr, ?_⟩
    rw [Bool.and_eq_true, decide_eq_true_eq, decide_eq_true_eq]
    exact ⟨hne, hn⟩
  rw [h.2.2] at hany
  cases hany

namespace AliasEngine

/-- For every name, its table in pf holds exactly the entries of the alias of that name. -/
def Mirrors (s : AliasEngine) : Prop :=
  ∀ n x, x ∈ PfTables.entries s.tables n ↔ HeldUnder s.rows n x

structure Synced (s : AliasEngine) : Prop where
  ids : Keyed Alias.id s.rows
  names : Keyed Alias.name s.rows
  single : ∀ a ∈ s.rows, a.SingleAddresses
  mirrors : s.Mirrors

theorem empty_synced : empty.Synced where
  ids := .nil
  names := .nil
  single := by
    intro a ha
    cases ha
  mirrors := by
    intro n x
    have hnone : PfTables.entries empty.tables n = [] := by
      rw [PfTables.entries, empty, AList.lookup_empty]
      rfl
    rw [hnone]
    refine iff_of_false List.not_mem_nil ?_
    intro h
    obtain ⟨a, ha, -⟩ := h
    cases ha

theorem Synced.add_iff (h : Synced s) (hin : Inserts s.rows a) (ha : a.SingleAddresses)
    (fetch : Fetch) :
    Mirrors ⟨s.rows ++ [a], (syncIfEnabled fetch a).foldl PfOp.run s.tables⟩ ↔
      a.LoadsNoUrl fetch := by
  rw [← ha.pushed fetch]
  unfold Mirrors
  constructor
  · intro hm x
    have hx := hm a.name x
    rw [entries_sync, heldUnder_append, h.mirrors a.name x, or_iff_right (unheld hin.2.2),
      or_iff_right (unheld hin.2.2), and_iff_right rfl, and_iff_right rfl] at hx
    exact hx
  · intro hp n x
    rw [entries_sync, heldUnder_append, h.mirrors n x, hp x, eq_comm]

/-- The alias that an update is about has the only row with its id, and no other row its name. -/
theorem Synced.update_iff (h : Synced s) (hup : Updates s.rows a) (ha : a.SingleAddresses)
    (fetch : Fetch) (now : List Char) :
    Mirrors ⟨s.rows.map (updateRow now a),
        (.flushTable a.name :: syncIfEnabled fetch a).foldl PfOp.run s.tables⟩ ↔
      a.LoadsNoUrl fetch ∧ ∀ old ∈ s.rows, old.id = a.id → old.name ≠ a.name →
        PfTables.entries s.tables old.name = [] := by
  have hid := hup.2.1
  have hother := hup.other
  rw [← ha.pushed fetch]
  unfold Mirrors
  constructor
  · intro hm
    constructor
    · intro x
      have hx := hm a.name x
      rw [entries_flush_sync, heldUnder_update hid, or_iff_right fun hne => hne.1 rfl,
        and_iff_right rfl, and_iff_right rfl, or_iff_right] at hx
      · exact hx
      · intro hr
        obtain ⟨r, hr, hne, hn, -⟩ := hr
        exact hother r hr hne hn
    · intro old hold hoid hname
      apply List.eq_nil_iff_forall_not_mem.mpr
      intro x hx
      have hx' := (hm old.name x).mp (entries_flush_sync s.tables fetch a |>.mpr (.inl ⟨hname, hx⟩))
      obtain ⟨r, hr, hne, hn, -⟩ | hn := (heldUnder_update hid now).mp hx'
      · rw [h.names r hr old hold hn] at hne
        exact hne hoid
      · exact hname hn.1.symm
  · intro hc n x
    obtain ⟨hp, hclear⟩ := hc
    rw [entries_flush_sync, heldUnder_update hid, hp x, h.mirrors n x]
    by_cases hn : n = a.name
    · rw [hn, or_iff_right fun hne => hne.1 rfl, or_iff_right]
      intro hr
      obtain ⟨r, hr, hne, hn, -⟩ := hr
      exact hother r hr hne hn
    · rw [and_iff_right hn, or_iff_left fun he => hn he.1, or_iff_left fun he => hn he.1.symm]
      constructor
      · intro hx
        obtain ⟨r, hr, hrn, hheld⟩ := hx
        refine ⟨r, hr, ?_, hrn, hheld⟩
        -- the row that is renamed has nothing loaded
        intro he
        have hnone := hclear r hr he fun heq => hn (hrn.symm.trans heq)
        have hload : x ∈ PfTables.entries s.tables r.name := (h.mirrors r.name x).mpr ⟨r, hr, rfl, hheld⟩
        rw [hnone] at hload
        exact List.not_mem_nil hload
      · intro hx
        obtain ⟨r, hr, -, hrn, hheld⟩ := hx
        exact ⟨r, hr, hrn, hheld⟩

theorem Synced.delete_mirrors (h : Synced s) (ha : a ∈ s.rows) :
    Mirrors ⟨dropKey Alias.id a.id s.rows, [PfOp.flushTable a.name].foldl PfOp.run s.tables⟩ := by
  intro n x
  change x ∈ PfTables.entries (PfOp.run s.tables (.flushTable a.name)) n ↔
    HeldUnder (dropKey Alias.id a.id s.rows) n x
  rw [entries_flush, h.mirrors n x]
  constructor
  · intro hx
    obtain ⟨hn, r, hr, hrn, hheld⟩ := hx
    refine ⟨r, mem_dropKey.mpr ⟨hr, ?_⟩, hrn, hheld⟩
    intro he
    rw [h.ids r hr a ha he] at hrn
    exact hn hrn.symm
  · intro hx
    obtain ⟨r, hr, hrn, hheld⟩ := hx
    obtain ⟨hr, he⟩ := mem_dropKey.mp hr
    refine ⟨?_, r, hr, hrn, hheld⟩
    intro hn
    exact he (congrArg Alias.id (h.names r hr a ha (hrn.trans hn)))

theorem enabled_of_held {a : Alias} (h : x ∈ a.held) : a.enabled = true := by
  unfold Alias.held at h
  split at h
  · next hon => exact hon.1
  · exact absurd h List.not_mem_nil

theorem pushed_of_enabled {a : Alias} (h : a.enabled = true) (fetch : Fetch) :
    a.pushed fetch = a.addresses fetch := if_pos h

theorem Synced.syncAll_iff (h : Synced s) (fetch : Fetch) :
    Mirrors ⟨s.rows, ((list s.rows).flatMap (resync fetch)).foldl PfOp.run s.tables⟩ ↔
      ∀ a ∈ s.rows, a.LoadsNoUrl fetch := by
  have hkeyed : Keyed Alias.name (list s.rows) := h.names.sublist fun r hr => mem_list.mp hr
  unfold Mirrors
  constructor
  · intro hm a ha
    by_cases hon : a.enabled = true
    · apply ((h.single a ha).pushed fetch).mp
      intro x
      have hx := hm a.name x
      rw [entries_syncAll hkeyed] at hx
      rw [pushed_of_enabled hon]
      constructor
      · intro hload
        obtain ⟨r, hr, hn, hheld⟩ := hx.mp (.inr ⟨a, mem_list.mpr ha, ⟨hon, rfl⟩, hload⟩)
        rw [h.names r hr a ha hn] at hheld
        exact hheld
      · intro hheld
        obtain ⟨hnone, -⟩ | ⟨r, hr, hn, hload⟩ := hx.mpr ⟨a, ha, rfl, hheld⟩
        · exact absurd ⟨hon, rfl⟩ (hnone a (mem_list.mpr ha))
        · rw [h.names r (mem_list.mp hr) a ha hn.2.symm] at hload
          exact hload
    · intro hon'
      exact absurd hon' hon
  · intro hc n x
    rw [entries_syncAll hkeyed]
    constructor
    · intro hx
      obtain ⟨-, hx⟩ | ⟨a, ha, hn, hload⟩ := hx
      · exact (h.mirrors n x).mp hx
      · have ha := mem_list.mp ha
        rw [← pushed_of_enabled hn.1] at hload
        exact ⟨a, ha, hn.2.symm, (((h.single a ha).pushed fetch).mpr (hc a ha) x).mp hload⟩
    · intro hx
      obtain ⟨a, ha, hn, hheld⟩ := hx
      have hon := enabled_of_held hheld
      have hload := (((h.single a ha).pushed fetch).mpr (hc a ha) x).mpr hheld
      rw [pushed_of_enabled hon] at hload
      exact .inr ⟨a, mem_list.mpr ha, ⟨hon, hn.symm⟩, hload⟩

theorem Synced.update_names (h : Synced s) (hup : Updates s.rows a) (now : List Char) :
    Keyed Alias.name (s.rows.map (updateRow now a)) := by
  intro r hr r' hr' he
  obtain ⟨b, hb, rfl⟩ := List.mem_map.mp hr
  obtain ⟨b', hb', rfl⟩ := List.mem_map.mp hr'
  by_cases hid : b.id = a.id
  · by_cases hid' : b'.id = a.id
    · rw [h.ids b hb b' hb' (hid.trans hid'.symm)]
    · rw [(updateRow_of_id hid now).1, updateRow_of_ne hid'] at he
      exact absurd he.symm (hup.other b' hb' hid')
  · by_cases hid' : b'.id = a.id
    · rw [(updateRow_of_id hid' now).1, updateRow_of_ne hid] at he
      exact absurd he (hup.other b hb hid)
    · rw [updateRow_of_ne hid, updateRow_of_ne hid'] at he
      rw [h.names b hb b' hb' he]

end AliasEngine

/-- The call is given no host or network alias but one of single addresses. -/
def Op.SingleAddresses : Op → Prop
  | .add _ a | .update _ _ a => a.SingleAddresses
  | .delete _ | .syncAll _ => True

namespace AliasEngine

theorem Synced.step (h : Synced s) (hop : op.SingleAddresses) (hm : (s.step op).Mirrors) :
    Synced (s.step op) := by
  cases op with
  | add fetch a =>
    obtain ⟨hin, hadd⟩ | ⟨-, e, hadd⟩ := add_cases fetch s.rows a
    · have hrows : (s.step (.add fetch a)).rows = s.rows ++ [a] := congrArg Prod.fst hadd
      refine ⟨?_, ?_, ?_, hm⟩
      · rw [hrows]
        exact h.ids.append_row hin.2.1
      · rw [hrows]
        exact h.names.append_row hin.2.2
      · rw [hrows]
        intro r hr
        obtain hr | hr := List.mem_append.mp hr
        · exact h.single r hr
        · rw [List.mem_singleton.mp hr]
          exact hop
    · have hrows : (s.step (.add fetch a)).rows = s.rows := congrArg Prod.fst hadd
      exact ⟨hrows ▸ h.ids, hrows ▸ h.names, hrows ▸ h.single, hm⟩
  | update fetch now a =>
    obtain ⟨hup, hupdate⟩ | ⟨-, e, hupdate⟩ := update_cases fetch now s.rows a
    · have hrows : (s.step (.update fetch now a)).rows = s.rows.map (updateRow now a) :=
        congrArg Prod.fst hupdate
      refine ⟨hrows ▸ update_ids h.ids now a, hrows ▸ h.update_names hup now, ?_, hm⟩
      rw [hrows]
      intro r hr
      obtain ⟨b, hb, rfl⟩ := List.mem_map.mp hr
      by_cases hid : b.id = a.id
      · rw [updateRow, if_pos hid]
        exact hop
      · rw [updateRow_of_ne hid]
        exact h.single b hb
    · have hrows : (s.step (.update fetch now a)).rows = s.rows := congrArg Prod.fst hupdate
      exact ⟨hrows ▸ h.ids, hrows ▸ h.names, hrows ▸ h.single, hm⟩
  | delete id =>
    have hsub : ∀ r ∈ (s.step (.delete id)).rows, r ∈ s.rows := by
      intro r hr
      obtain ⟨a, -, -, hdel⟩ | ⟨-, e, hdel⟩ := delete_cases s.rows id
      · have hrows : (s.step (.delete id)).rows = dropKey Alias.id id s.rows :=
          congrArg Prod.fst hdel
        rw [hrows] at hr
        exact (mem_dropKey.mp hr).1
      · have hrows : (s.step (.delete id)).rows = s.rows := congrArg Prod.fst hdel
        exact hrows ▸ hr
    exact ⟨h.ids.sublist hsub, h.names.sublist hsub, fun r hr => h.single r (hsub r hr), hm⟩
  | syncAll fetch => exact ⟨h.ids, h.names, h.single, hm⟩

/-- No URL table loads an address, and no alias with a loaded table is given another name. -/
def Careful (s : AliasEngine) : Op → Prop
  | .add fetch a => Inserts s.rows a → a.LoadsNoUrl fetch
  | .update fetch _ a => Updates s.rows a →
      a.LoadsNoUrl fetch ∧ ∀ old ∈ s.rows, old.id = a.id → old.name ≠ a.name →
        PfTables.entries s.tables old.name = []
  | .delete _ => True
  | .syncAll fetch => ∀ a ∈ s.rows, a.LoadsNoUrl fetch

/-- A call that fails leaves the rows and the tables as they are. -/
theorem step_of_error {s : AliasEngine} (h : s.call op = (s.rows, [])) : s.step op = s := by
  rw [AliasEngine.step, h]
  rfl

theorem Synced.step_iff (h : Synced s) (hop : op.SingleAddresses) :
    (s.step op).Mirrors ↔ s.Careful op := by
  cases op with
  | add fetch a =>
    obtain ⟨hin, hadd⟩ | ⟨hin, e, hadd⟩ := add_cases fetch s.rows a
    · have hstep : s.step (.add fetch a) =
          ⟨s.rows ++ [a], (syncIfEnabled fetch a).foldl PfOp.run s.tables⟩ := by
        rw [AliasEngine.step, call, hadd]
      rw [hstep, h.add_iff hin hop fetch]
      exact ⟨fun hc _ => hc, fun hc => hc hin⟩
    · rw [step_of_error (by rw [call, hadd])]
      exact iff_of_true h.mirrors fun hin' => absurd hin' hin
  | update fetch now a =>
    obtain ⟨hup, hupdate⟩ | ⟨hup, e, hupdate⟩ := update_cases fetch now s.rows a
    · have hstep : s.step (.update fetch now a) = ⟨s.rows.map (updateRow now a),
          (.flushTable a.name :: syncIfEnabled fetch a).foldl PfOp.run s.tables⟩ := by
        rw [AliasEngine.step, call, hupdate]
      rw [hstep, h.update_iff hup hop fetch now]
      exact ⟨fun hc _ => hc, fun hc => hc hup⟩
    · rw [step_of_error (by rw [call, hupdate])]
      exact iff_of_true h.mirrors fun hup' => absurd hup' hup
  | delete id =>
    refine iff_of_true ?_ trivial
    obtain ⟨a, ha, rfl, hdel⟩ | ⟨-, e, hdel⟩ := delete_cases s.rows id
    · have hstep : s.step (.delete a.id) = ⟨dropKey Alias.id a.id s.rows,
          [PfOp.flushTable a.name].foldl PfOp.run s.tables⟩ := by
        rw [AliasEngine.step, call, hdel]
      rw [hstep]
      exact h.delete_mirrors ha
    · rw [step_of_error (by rw [call, hdel])]
      exact h.mirrors
  | syncAll fetch => exact h.syncAll_iff fetch

/-- After every call of a run the tables hold the entries of the aliases of their names, exactly if
no call loads a URL table or renames an alias whose table is loaded. -/
theorem tables_mirror_iff (ops : List Op) (hops : ∀ op ∈ ops, op.SingleAddresses) :
    Along AliasEngine.step (fun s op => (s.step op).Mirrors) empty ops ↔
      Along AliasEngine.step Careful empty ops :=
  Along.congr_on Op.SingleAddresses Synced (fun _ _ hop h hm => h.step hop hm)
    (fun _ _ hop h => h.step_iff hop) empty_synced hops

def sampleAlias (name : String) : Alias where
  id := 1
  name := name.toList
  aliasType := .host
  entries := ["192.0.2.1".toList]
  description := none
  enabled := true
  createdAt := "t".toList
  updatedAt := "t".toList

theorem sampleAlias_single (name : String) : (sampleAlias name).SingleAddresses := by
  intro ht entry hentry
  rw [List.mem_singleton.mp hentry]
  decide +kernel

/-- An alias that is added and disabled, and then renamed. -/
def carefulOps : List Op :=
  [.add (fun _ => none) (sampleAlias "web"),
    .update (fun _ => none) "t".toList { sampleAlias "web" with enabled := false },
    .update (fun _ => none) "t".toList { sampleAlias "www" with enabled := false }]

theorem tables_mirror_sample :
    (∀ op ∈ carefulOps, op.SingleAddresses) ∧
      Along AliasEngine.step (fun s op => (s.step op).Mirrors) empty carefulOps := by
  have hsingle : ∀ op ∈ carefulOps, op.SingleAddresses := by
    intro op hop
    simp only [carefulOps, List.mem_cons, List.not_mem_nil, or_false] at hop
    obtain rfl | rfl | rfl := hop
    · exact sampleAlias_single "web"
    · exact sampleAlias_single "web"
    · exact sampleAlias_single "www"
  have hcareful : Along AliasEngine.step Careful empty carefulOps := by
    refine ⟨fun _ => .of_host rfl _, fun _ => ⟨.of_host rfl _, ?_⟩,
      fun _ => ⟨.of_host rfl _, ?_⟩, trivial⟩
    · decide +kernel
    · decide +kernel
  exact ⟨hsingle, (tables_mirror_iff carefulOps hsingle).mpr hcareful⟩

/-- An alias that is renamed while its table is loaded. -/
def renameOps : List Op :=
  [.add (fun _ => none) (sampleAlias "web"),
    .update (fun _ => none) "t".toList (sampleAlias "www")]

/-- The rename leaves the address in the table of the old name, which no alias has. -/
theorem rename_leaves_table :
    ¬∀ ops : List Op, (∀ op ∈ ops, op.SingleAddresses) →
      Along AliasEngine.step (fun s op => (s.step op).Mirrors) empty ops := by
  intro h
  have hsingle : ∀ op ∈ renameOps, op.SingleAddresses := by
    intro op hop
    simp only [renameOps, List.mem_cons, List.not_mem_nil, or_false] at hop
    obtain rfl | rfl := hop
    · exact sampleAlias_single "web"
    · exact sampleAlias_single "www"
  obtain ⟨-, hm, -⟩ := h renameOps hsingle
  have hloaded : (.v4 0xC0000201 : IpAddr) ∈
      PfTables.entries (renameOps.foldl AliasEngine.step empty).tables "web".toList := by
    decide +kernel
  have hnames : ∀ a ∈ (renameOps.foldl AliasEngine.step empty).rows, a.name ≠ "web".toList := by
    decide +kernel
  obtain ⟨a, ha, hn, -⟩ := (hm _ _).mp hloaded
  exact hnames a ha hn

end AliasEngine

end AiFw.Aliases
