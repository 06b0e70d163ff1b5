import AiFw.Vpn.IpsecEngine

namespace AiFw.Vpn
open AiFw.Lib AiFw.Pf
open AiFw.Wan (Uuid)
set_option autoImplicit true

/-- The row but for the time of its last update. -/
def IpsecTunnelRow.timeless (row : IpsecTunnelRow) : IpsecTunnelRow := { row with updatedAt := [] }

/-- The rows, but for the times of their last updates, and the managed files are as before. -/
def IpsecState.Unchanged (s s' : IpsecState) : Prop :=
  s'.table.rows.map IpsecTunnelRow.timeless = s.table.rows.map IpsecTunnelRow.timeless ∧
    KeyedMap.Same s'.files s.files

variable {DateTime : Type} {chrono : Rfc3339 DateTime} {s : IpsecState}

/-- The row reads as a tunnel that passes `validate`, and would be written for it as it stands. -/
def IpsecTunnelRow.Restorable (chrono : Rfc3339 DateTime) (row : IpsecTunnelRow) : Prop :=
  ∃ t, row.intoTunnel chrono = .ok t ∧ t.validate = .ok () ∧
    { IpsecTunnelRow.ofTunnel chrono t with
      createdAt := row.createdAt, updatedAt := row.updatedAt } = row

/-- An update that passes its checks is of a restorable row. -/
def UndoSafe (chrono : Rfc3339 DateTime) (s : IpsecState) : IpsecCall DateTime → Prop
  | .update tunnel => tunnel.validate = .ok () →
      s.table.NameFree (.ofTunnel chrono tunnel) →
        ∀ row ∈ s.table.rows, row.id = tunnel.id → row.Restorable chrono
  | .create _ | .delete _ | .apply => True

theorem IpsecState.Unchanged.refl (s : IpsecState) : s.Unchanged s := ⟨rfl, .refl _⟩

theorem timeless_eq_iff {a b : IpsecTunnelRow} :
    a.timeless = b.timeless ↔ { a with updatedAt := b.updatedAt } = b := by
  constructor
  · intro h
    have hback := congrArg (fun r : IpsecTunnelRow => { r with updatedAt := b.updatedAt }) h
    exact hback
  · intro h
    rw [← h]
    rfl

theorem TunnelTable.eq_of_rows {a b : TunnelTable} (h : a.rows = b.rows) : a = b := by
  cases a
  cases b
  cases h
  rfl

/-- Taking back the row just added leaves the table as it was. -/
theorem delete_insert {table table' : TunnelTable} {row : IpsecTunnelRow}
    (h : table.insert row = .ok table') : table'.orKeep (table'.delete row.id) = table := by
  obtain ⟨hrows, hfresh⟩ := insert_ok h
  have hkey : hasKey IpsecTunnelRow.id row.id table'.rows = true := by
    rw [hrows]
    exact hasKey_iff.mpr ⟨row, List.mem_append_right _ List.mem_cons_self, rfl⟩
  apply TunnelTable.eq_of_rows
  rw [TunnelTable.delete, if_pos hkey]
  change dropKey IpsecTunnelRow.id row.id table'.rows = table.rows
  rw [hrows, dropKey, List.filter_append, List.filter_eq_self.mpr, List.filter_eq_nil_iff.mpr,
    List.append_nil]
  · intro r hr hne
    exact of_decide_eq_true hne (congrArg IpsecTunnelRow.id (List.mem_singleton.mp hr))
  · intro r hr
    exact decide_eq_true (hasKey_eq_false.mp hfresh r hr)

/-- Where the tunnels are the ones of before but for what no file shows, so are the files after an
application. -/
theorem reapplied (hr : s.Rendered chrono loadCert tunnels)
    (hrows : table.rows.map IpsecTunnelRow.timeless = s.table.rows.map IpsecTunnelRow.timeless)
    (hlist : table.listTunnels chrono = .ok tunnels')
    (hfiles : desiredFiles loadCert tunnels' = desiredFiles loadCert tunnels)
    (files : ConfFiles) (load : Except AifwError Unit) :
    s.Unchanged (IpsecState.applyAll chrono loadCert load ⟨table, files⟩).1 := by
  obtain ⟨-, desired, hdesired, hsame⟩ := hr
  refine ⟨?_, ?_⟩
  · rw [applyAll_table]
    exact hrows
  · have hrendered := applyAll_rendered (s := ⟨table, files⟩) hlist (hfiles.trans hdesired) load
    exact hrendered.trans hsame.symm

theorem create_undone {tunnel : IpsecTunnel DateTime} (hr : s.Rendered chrono env.loadCert tunnels)
    (herr : (s.createTunnelApplied chrono env tunnel).2 = .error e) :
    s.Unchanged (s.createTunnelApplied chrono env tunnel).1 := by
  obtain ⟨e, -, hcall⟩ | ⟨table, hadd, ⟨-, hcall⟩ | ⟨e, files, hcall⟩⟩ :=
    create_cases chrono env s tunnel
  · rw [hcall]
    exact .refl s
  · rw [hcall] at herr
    cases herr
  · have hback : table.orKeep (table.delete tunnel.id) = s.table :=
      delete_insert (addTunnel_ok hadd).2
    rw [hcall, hback]
    exact reapplied hr rfl hr.1 rfl files env.reload

theorem overwrite_overwrite {row row' : IpsecTunnelRow} (h : row'.id = row.id) (r : IpsecTunnelRow) :
    row'.overwrite (row.overwrite r) = row'.overwrite r := by
  by_cases hid : r.id = row.id
  · rw [overwrite_of_eq _ hid, overwrite_of_eq _ (hid.trans h.symm)]
    exact overwrite_of_eq row' (r := { row with createdAt := r.createdAt }) h.symm
  · rw [overwrite_of_ne hid]

theorem update_of_free {table : TunnelTable} (row : IpsecTunnelRow)
    (hkey : hasKey IpsecTunnelRow.id row.id table.rows = true)
    (hfree : table.NameFree row) :
    ∃ table', table.update row = .ok table' ∧ table'.rows = table.rows.map row.overwrite := by
  unfold TunnelTable.update
  rw [if_pos hkey, dif_pos hfree]
  exact ⟨_, rfl, rfl⟩

/-- Over a row just updated, values with the id and the name it had before can be written. -/
theorem update_back {table table' : TunnelTable} {row old : IpsecTunnelRow} (row' : IpsecTunnelRow)
    (h : table.update row = .ok table') (hold : old ∈ table.rows) (hid : old.id = row.id)
    (hid' : row'.id = row.id) (hname : row'.name = old.name) :
    ∃ table'', table'.update row' = .ok table'' ∧
      table''.rows = table.rows.map row'.overwrite := by
  obtain ⟨hrows, -, -⟩ := update_ok h
  have hkey : hasKey IpsecTunnelRow.id row'.id table'.rows = true := by
    rw [hrows]
    refine hasKey_iff.mpr ⟨_, List.mem_map_of_mem hold, ?_⟩
    rw [overwrite_id, hid, hid']
  have hfree : table'.NameFree row' := by
    intro r hr hrname
    rw [hrows] at hr
    obtain ⟨before, hbefore, rfl⟩ := List.mem_map.mp hr
    rw [overwrite_id]
    by_cases hrid : before.id = row.id
    · exact hrid.trans hid'.symm
    · -- a row that was not written has its name, and no other row had the old one
      rw [overwrite_of_ne hrid] at hrname
      rw [table.names before hbefore old hold (hrname.trans hname)]
      exact hid.trans hid'.symm
  obtain ⟨table'', hupdate, hrows'⟩ := update_of_free row' hkey hfree
  refine ⟨table'', hupdate, ?_⟩
  rw [hrows', hrows, List.map_map]
  apply List.map_congr_left
  intro r _
  exact overwrite_overwrite hid' r

def IpsecTunnelRow.touched (id : Uuid) (text : List Char) (row : IpsecTunnelRow) : IpsecTunnelRow :=
  if row.id = id then { row with updatedAt := text } else row

def IpsecTunnel.touched (id : Uuid) (now : DateTime) (t : IpsecTunnel DateTime) :
    IpsecTunnel DateTime :=
  if t.id = id then { t with updatedAt := now } else t

theorem intoTunnel_updatedAt {row : IpsecTunnelRow} (h : row.intoTunnel chrono = .ok t)
    (hupdated : chrono.parse updatedAt = some now) :
    ({ row with updatedAt }).intoTunnel chrono = .ok { t with updatedAt := now } := by
  obtain ⟨authMethod, hauth, h⟩ := bind_ok.mp h
  obtain ⟨certSource, hsource, h⟩ := bind_ok.mp h
  obtain ⟨startAction, haction, h⟩ := bind_ok.mp h
  obtain ⟨created, hcreated, h⟩ := bind_ok.mp h
  obtain ⟨updated, -, h⟩ := bind_ok.mp h
  cases h
  have hnow : IpsecTunnelRow.parseTs chrono updatedAt = .ok now := by
    rw [IpsecTunnelRow.parseTs, hupdated]
  simp only [IpsecTunnelRow.intoTunnel, hauth, hsource, haction, hcreated, hnow]
  rfl

theorem intoTunnel_touched {row : IpsecTunnelRow} (h : row.intoTunnel chrono = .ok t) (id : Uuid)
    (now : DateTime) :
    (row.touched id (chrono.toRfc3339 now)).intoTunnel chrono = .ok (t.touched id now) := by
  have hid : t.id = row.id := intoTunnel_id h
  unfold IpsecTunnelRow.touched IpsecTunnel.touched
  by_cases hrow : row.id = id
  · rw [if_pos hrow, if_pos (hid.trans hrow)]
    exact intoTunnel_updatedAt h (chrono.parse_toRfc3339 now)
  · rw [if_neg hrow, if_neg (hid ▸ hrow)]
    exact h

theorem touched_createdAt (id : Uuid) (text : List Char) (row : IpsecTunnelRow) :
    (row.touched id text).createdAt = row.createdAt := by
  unfold IpsecTunnelRow.touched
  split
  · rfl
  · rfl

theorem listTunnels_touched {table table' : TunnelTable} {id : Uuid}
    (h : table.listTunnels chrono = .ok tunnels)
    (hrows : table'.rows = table.rows.map (IpsecTunnelRow.touched id (chrono.toRfc3339 now))) :
    table'.listTunnels chrono = .ok (tunnels.map (IpsecTunnel.touched id now)) := by
  unfold TunnelTable.listTunnels at h ⊢
  rw [mapM_ok] at h ⊢
  have hsorted := List.map_mergeSort (r := fun a b : IpsecTunnelRow => a.createdAt ≤ b.createdAt)
    (s := fun a b : IpsecTunnelRow => a.createdAt ≤ b.createdAt)
    (f := IpsecTunnelRow.touched id (chrono.toRfc3339 now)) (l := table.rows) (by
      intro a _ b _
      rw [touched_createdAt, touched_createdAt])
  rw [hrows, ← hsorted, List.forall₂_map_left_iff, List.forall₂_map_right_iff]
  exact h.imp fun row t hread => intoTunnel_touched hread id now

/-- No file shows the time of the last update. -/
theorem desiredFiles_touched (tunnels : List (IpsecTunnel DateTime)) (id : Uuid) (now : DateTime) :
    desiredFiles loadCert (tunnels.map (IpsecTunnel.touched id now)) =
      desiredFiles loadCert tunnels := by
  have hfield (t : IpsecTunnel DateTime) : (t.touched id now).enabled = t.enabled ∧
      (tunnelFiles loadCert (t.touched id now)).map (placed (t.touched id now)) =
        (tunnelFiles loadCert t).map (placed t) := by
    unfold IpsecTunnel.touched
    split
    · exact ⟨rfl, rfl⟩
    · exact ⟨rfl, rfl⟩
  unfold desiredFiles
  rw [List.filter_map, List.mapM_map]
  have henabled : ((fun t : IpsecTunnel DateTime => t.enabled) ∘ IpsecTunnel.touched id now) =
      fun t => t.enabled := funext fun t => (hfield t).1
  have hfiles : ((fun t : IpsecTunnel DateTime => (tunnelFiles loadCert t).map (placed t)) ∘
      IpsecTunnel.touched id now) = fun t => (tunnelFiles loadCert t).map (placed t) :=
    funext fun t => (hfield t).2
  rw [henabled, hfiles]

/-- Where the table lists its tunnels, each of its rows can be read. -/
theorem getTunnel_listed {table : TunnelTable} {id : Uuid}
    (h : table.listTunnels chrono = .ok tunnels) (hget : table.getTunnel chrono id = .error e) :
    ∀ row ∈ table.rows, row.id ≠ id := by
  intro row hrow hid
  obtain ⟨t, ht⟩ := exists_of_mapM h (List.mem_mergeSort.mpr hrow)
  have hfind := table.ids.find_iff.mpr ⟨hrow, hid⟩
  rw [TunnelTable.getTunnel, hfind] at hget
  cases ht.symm.trans hget

theorem updateTunnel_of {table : TunnelTable} {tunnel : IpsecTunnel DateTime}
    (hvalid : tunnel.validate = .ok ()) (hfree : table.NameFree (.ofTunnel chrono tunnel))
    (hkey : hasKey IpsecTunnelRow.id tunnel.id table.rows = true) (now : DateTime) :
    ∃ table', table.updateTunnel chrono now tunnel = .ok table' ∧
      table'.rows = table.rows.map
        (IpsecTunnelRow.ofTunnel chrono { tunnel with updatedAt := now }).overwrite := by
  obtain ⟨table', hupdate, hrows⟩ := update_of_free
    (.ofTunnel chrono { tunnel with updatedAt := now }) hkey hfree
  exact ⟨table', andThen_ok.mpr ⟨hvalid, hupdate⟩, hrows⟩

/-- The row is restored exactly as it was if it is written for its tunnel as it stands. -/
theorem overwrite_restores {old : IpsecTunnelRow} {previous : IpsecTunnel DateTime}
    (hid : previous.id = old.id) (at_ : DateTime) :
    ((IpsecTunnelRow.ofTunnel chrono { previous with updatedAt := at_ }).overwrite old).timeless =
        old.timeless ↔
      { IpsecTunnelRow.ofTunnel chrono previous with
        createdAt := old.createdAt, updatedAt := old.updatedAt } = old := by
  rw [timeless_eq_iff, overwrite_of_eq (.ofTunnel chrono { previous with updatedAt := at_ })
    hid.symm]
  exact Iff.rfl

/-- With the values of a restorable row only the time of the update is written. -/
theorem overwrite_touched {table : TunnelTable} {old : IpsecTunnelRow}
    {previous : IpsecTunnel DateTime} (hold : old ∈ table.rows) (hid : previous.id = old.id)
    (hwritten : { IpsecTunnelRow.ofTunnel chrono previous with
      createdAt := old.createdAt, updatedAt := old.updatedAt } = old)
    (at_ : DateTime) (hrow : row ∈ table.rows) :
    (IpsecTunnelRow.ofTunnel chrono { previous with updatedAt := at_ }).overwrite row =
      row.touched old.id (chrono.toRfc3339 at_) := by
  unfold IpsecTunnelRow.touched
  by_cases hrid : row.id = old.id
  · rw [if_pos hrid, table.ids row hrow old hold hrid,
      overwrite_of_eq (.ofTunnel chrono { previous with updatedAt := at_ }) hid.symm]
    exact congrArg (fun r : IpsecTunnelRow => { r with updatedAt := chrono.toRfc3339 at_ }) hwritten
  · rw [if_neg hrid]
    exact overwrite_of_ne fun he => hrid (he.trans hid)

theorem timeless_touched (id : Uuid) (text : List Char) (row : IpsecTunnelRow) :
    (row.touched id text).timeless = row.timeless := by
  unfold IpsecTunnelRow.touched
  split
  · rfl
  · rfl

/-- The update has gone through and its application has failed: the rollback takes it back exactly
if the row was restorable. -/
theorem rollback_iff {table : TunnelTable} {tunnel previous : IpsecTunnel DateTime}
    (hr : s.Rendered chrono loadCert tunnels) (hold : old ∈ s.table.rows) (hid : old.id = tunnel.id)
    (hread : old.intoTunnel chrono = .ok previous)
    (hupdate : s.table.updateTunnel chrono now tunnel = .ok table) (restoredAt : DateTime)
    (files : ConfFiles) (load : Except AifwError Unit) :
    s.Unchanged (IpsecState.applyAll chrono loadCert load
      ⟨table.orKeep (table.updateTunnel chrono restoredAt previous), files⟩).1 ↔
        old.Restorable chrono := by
  obtain ⟨hvalid, hwrite⟩ := updateTunnel_ok hupdate
  obtain ⟨hrows, -, -⟩ := update_ok hwrite
  have hpid : previous.id = old.id := intoTunnel_id hread
  cases hprev : previous.validate with
  | error e =>
    have hfailed : table.updateTunnel chrono restoredAt previous = .error e := by
      rw [TunnelTable.updateTunnel, hprev]
      rfl
    rw [hfailed]
    constructor
    · -- the new values stay, and they are not those of the old row, which cannot be validated
      rintro ⟨hsame, -⟩
      rw [applyAll_table] at hsame
      change table.rows.map _ = _ at hsame
      rw [hrows, List.map_map] at hsame
      have hrow := (overwrite_restores hid.symm now).mp (List.map_inj_left.mp hsame old hold)
      obtain ⟨-, -, hcreated, hupdated⟩ := intoTunnel_columns hread
      have hback := intoTunnel_ofTunnel hvalid hcreated hupdated
      rw [hrow, hread] at hback
      have hpvalid : previous.validate = .ok () := by
        rw [Except.ok.inj hback]
        exact readBack_validate hvalid
      cases hprev.symm.trans hpvalid
    · rintro ⟨t, ht, htvalid, -⟩
      cases hread.symm.trans ht
      cases hprev.symm.trans htvalid
  | ok u =>
    obtain ⟨restored, hrestore, hrestored⟩ := update_back
      (.ofTunnel chrono { previous with updatedAt := restoredAt }) hwrite hold hid
      (hpid.trans hid) (intoTunnel_columns hread).2.1
    have hback : table.updateTunnel chrono restoredAt previous = .ok restored :=
      andThen_ok.mpr ⟨hprev, hrestore⟩
    rw [hback]
    change s.Unchanged (IpsecState.applyAll chrono loadCert load ⟨restored, files⟩).1 ↔ _
    constructor
    · rintro ⟨hsame, -⟩
      rw [applyAll_table] at hsame
      change restored.rows.map _ = _ at hsame
      rw [hrestored, List.map_map] at hsame
      exact ⟨previous, hread, hprev,
        (overwrite_restores hpid restoredAt).mp (List.map_inj_left.mp hsame old hold)⟩
    · rintro ⟨t, ht, -, hwritten⟩
      cases hread.symm.trans ht
      have htouched : restored.rows = s.table.rows.map
          (IpsecTunnelRow.touched old.id (chrono.toRfc3339 restoredAt)) := by
        rw [hrestored]
        exact List.map_congr_left fun row hrow =>
          overwrite_touched hold hpid hwritten restoredAt hrow
      apply reapplied hr ?_ (listTunnels_touched hr.1 htouched) (desiredFiles_touched _ _ _)
      rw [htouched, List.map_map]
      exact List.map_congr_left fun row _ => timeless_touched _ _ row

theorem update_undone_iff {tunnel : IpsecTunnel DateTime}
    (hr : s.Rendered chrono env.loadCert tunnels)
    (herr : (s.updateTunnelApplied chrono env tunnel).2 = .error e) :
    s.Unchanged (s.updateTunnelApplied chrono env tunnel).1 ↔
      UndoSafe chrono s (.update tunnel) := by
  obtain ⟨e, hget, hcall⟩ | ⟨previous, hget, hcall⟩ := update_cases chrono env s tunnel
  · rw [hcall]
    refine iff_of_true (.refl s) ?_
    intro _ _ row hrow hid
    exact absurd hid (getTunnel_listed hr.1 hget row hrow)
  · obtain ⟨old, hold, hid, hread⟩ := getTunnel_ok hget
    obtain ⟨e, hupdate, hcall⟩ | ⟨table, hupdate, ⟨-, hcall⟩ | ⟨e, files, hcall⟩⟩ := hcall
    · rw [hcall]
      refine iff_of_true (.refl s) ?_
      intro hvalid hfree
      obtain ⟨table, htable, -⟩ := updateTunnel_of hvalid hfree
        (hasKey_iff.mpr ⟨old, hold, hid⟩) env.now
      cases hupdate.symm.trans htable
    · rw [hcall] at herr
      cases herr
    · rw [hcall]
      apply (rollback_iff hr hold hid hread hupdate env.restoredAt files env.reload).trans
      obtain ⟨hvalid, hwrite⟩ := updateTunnel_ok hupdate
      constructor
      · intro hrestorable _ _ row hrow hrid
        rw [s.table.ids row hrow old hold (hrid.trans hid.symm)]
        exact hrestorable
      · exact fun hsafe => hsafe hvalid (update_ok hwrite).2.2 old hold hid

/-- A row written for a valid tunnel is restorable where none of the tunnel's selectors has white
space around it. -/
theorem restorable_ofTunnel_iff {t : IpsecTunnel DateTime} (h : t.validate = .ok ())
    (hcreated : chrono.parse createdAt = some created)
    (hupdated : chrono.parse updatedAt = some updated) :
    ({ IpsecTunnelRow.ofTunnel chrono t with createdAt, updatedAt }).Restorable chrono ↔
      (∀ ts ∈ t.localTs, trim ts = ts) ∧ ∀ ts ∈ t.remoteTs, trim ts = ts := by
  obtain ⟨hlocal, hremote⟩ := selectors_of_validate h
  have hread := intoTunnel_ofTunnel h hcreated hupdated
  rw [← joinComma_trim hlocal, ← joinComma_trim hremote]
  constructor
  · rintro ⟨t', ht', -, hwritten⟩
    cases hread.symm.trans ht'
    exact ⟨congrArg IpsecTunnelRow.localTs hwritten, congrArg IpsecTunnelRow.remoteTs hwritten⟩
  · rintro ⟨hlts, hrts⟩
    refine ⟨_, hread, readBack_validate h, ?_⟩
    unfold IpsecTunnelRow.ofTunnel IpsecTunnel.readBack
    simp only [hlts, hrts]

theorem failed_call_unchanged_iff (chrono : Rfc3339 DateTime) (s : IpsecState)
    (c : IpsecCall DateTime × CallEnv DateTime)
    (hcall : ∃ tunnel, c.1 = .create tunnel ∨ c.1 = .update tunnel)
    (hr : s.Rendered chrono c.2.loadCert tunnels) (herr : (s.call chrono c).2 = .error e) :
    s.Unchanged (s.call chrono c).1 ↔ UndoSafe chrono s c.1 := by
  obtain ⟨call, env⟩ := c
  have hfails : ∀ {r : Except AifwError (IpsecTunnel DateTime)},
      r.map (fun _ => ()) = .error e → r = .error e := by
    rintro (_ | _) h
    · cases h
      rfl
    · cases h
  obtain ⟨tunnel, rfl | rfl⟩ := hcall
  · exact iff_of_true (create_undone hr (hfails herr)) trivial
  · exact update_undone_iff hr (hfails herr)

namespace RollbackSample

/-- A tunnel between two branches, with these subnets behind this side. -/
def tunnel (localTs : List (List Char)) : IpsecTunnel (Fin 60) :=
  .new 1 (Fin.last 59) "branch".toList "203.0.113.7".toList "0123456789abcdef".toList localTs
    ["10.1.0.0/24".toList]

def tight : IpsecTunnel (Fin 60) := tunnel ["10.0.0.0/24".toList, "10.2.0.0/24".toList]

def spaced : IpsecTunnel (Fin 60) := tunnel ["10.0.0.0/24".toList, " 10.2.0.0/24".toList]

def table (t : IpsecTunnel (Fin 60)) : TunnelTable :=
  TunnelTable.empty.orKeep (TunnelTable.empty.addTunnel NatRuleRow.minute t)

def state (t : IpsecTunnel (Fin 60)) : IpsecState :=
  (IpsecState.applyAll NatRuleRow.minute (fun _ => none) (.ok ()) ⟨table t, ∅⟩).1

/-- The daemon does not take the new name. -/
def rename (t : IpsecTunnel (Fin 60)) : IpsecCall (Fin 60) × CallEnv (Fin 60) :=
  (.update { t with name := "main office".toList },
    ⟨fun _ => none, Fin.last 59, Fin.last 59, .error (.config "load failed".toList), .ok ()⟩)

end RollbackSample

/-- The row comes back without the space in front of its second subnet. -/
theorem rollback_drops_space : ¬∀ (DateTime : Type) (chrono : Rfc3339 DateTime) (s : IpsecState)
    (c : IpsecCall DateTime × CallEnv DateTime) (tunnels : List (IpsecTunnel DateTime))
    (e : AifwError), (∃ tunnel, c.1 = .create tunnel ∨ c.1 = .update tunnel) →
      s.Rendered chrono c.2.loadCert tunnels → (s.call chrono c).2 = .error e →
        s.Unchanged (s.call chrono c).1 := by
  intro h
  obtain ⟨tunnels, hr⟩ : ∃ tunnels, (RollbackSample.state RollbackSample.spaced).Rendered
      NatRuleRow.minute (fun _ => none) tunnels := applyAll_ok (by decide +kernel)
  obtain ⟨hrows, -⟩ := h (Fin 60) NatRuleRow.minute (RollbackSample.state RollbackSample.spaced)
    (RollbackSample.rename RollbackSample.spaced) tunnels (.config "load failed".toList)
    ⟨_, .inr rfl⟩ hr (by decide +kernel)
  revert hrows
  decide +kernel

theorem failed_call_unchanged_iff_tight : (RollbackSample.state RollbackSample.tight).Unchanged
    ((RollbackSample.state RollbackSample.tight).call NatRuleRow.minute
      (RollbackSample.rename RollbackSample.tight)).1 := by
  obtain ⟨tunnels, hr⟩ : ∃ tunnels, (RollbackSample.state RollbackSample.tight).Rendered
      NatRuleRow.minute (fun _ => none) tunnels := applyAll_ok (by decide +kernel)
  apply (failed_call_unchanged_iff NatRuleRow.minute (RollbackSample.state RollbackSample.tight)
    (RollbackSample.rename RollbackSample.tight) ⟨_, .inr rfl⟩ hr
    (e := .config "load failed".toList) (by decide +kernel)).mpr
  intro _ _ row hrow _
  have hrows : (RollbackSample.state RollbackSample.tight).table.rows =
      [IpsecTunnelRow.ofTunnel NatRuleRow.minute RollbackSample.tight] := by decide +kernel
  rw [hrows, List.mem_singleton] at hrow
  rw [hrow]
  exact (restorable_ofTunnel_iff (t := RollbackSample.tight) (by decide +kernel)
    (NatRuleRow.minute.parse_toRfc3339 _) (NatRuleRow.minute.parse_toRfc3339 _)).mpr (by decide)

end AiFw.Vpn
