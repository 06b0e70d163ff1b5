import AiFw.Lib.Runs
import AiFw.Vpn.SwanctlFiles
import AiFw.Vpn.TunnelRows

namespace AiFw.Vpn
open AiFw.Lib AiFw.Pf
open AiFw.Wan (Uuid displayUuid)
set_option autoImplicit true

/-- `ipsec_tunnels`: the id is the primary key, and the name is unique. -/
structure TunnelTable where
  rows : List IpsecTunnelRow
  ids : Keyed IpsecTunnelRow.id rows
  names : Keyed IpsecTunnelRow.name rows

/-- What an `UPDATE` with the values makes of a row; the time of creation is not among them. -/
def IpsecTunnelRow.overwrite (row r : IpsecTunnelRow) : IpsecTunnelRow :=
  if r.id = row.id then { row with createdAt := r.createdAt } else r

theorem overwrite_of_eq (row : IpsecTunnelRow) {r : IpsecTunnelRow} (h : r.id = row.id) :
    row.overwrite r = { row with createdAt := r.createdAt } := if_pos h

theorem overwrite_of_ne {row r : IpsecTunnelRow} (h : r.id ≠ row.id) : row.overwrite r = r :=
  if_neg h

theorem overwrite_id (row r : IpsecTunnelRow) : (row.overwrite r).id = r.id := by
  by_cases h : r.id = row.id
  · rw [overwrite_of_eq _ h]
    exact h.symm
  · rw [overwrite_of_ne h]

def tunnelNotFound (id : Uuid) : AifwError :=
  .notFound ("IPsec tunnel ".toList ++ displayUuid id ++ " not found".toList)

namespace TunnelTable

def empty : TunnelTable := ⟨[], .nil, .nil⟩

def insert (s : TunnelTable) (row : IpsecTunnelRow) : Except AifwError TunnelTable :=
  if hid : hasKey IpsecTunnelRow.id row.id s.rows = false then
    if hname : hasKey IpsecTunnelRow.name row.name s.rows = false then
      .ok ⟨s.rows ++ [row], s.ids.append_row hid, s.names.append_row hname⟩
    else .error .database
  else .error .database

/-- No other row has the name. -/
def NameFree (s : TunnelTable) (row : IpsecTunnelRow) : Prop :=
  ∀ r ∈ s.rows, r.name = row.name → r.id = row.id

instance (s : TunnelTable) (row : IpsecTunnelRow) : Decidable (s.NameFree row) :=
  inferInstanceAs (Decidable (∀ r ∈ s.rows, r.name = row.name → r.id = row.id))

theorem ids_overwrite (s : TunnelTable) (row : IpsecTunnelRow) :
    Keyed IpsecTunnelRow.id (s.rows.map row.overwrite) := by
  intro r hr r' hr' he
  obtain ⟨old, hold, rfl⟩ := List.mem_map.mp hr
  obtain ⟨old', hold', rfl⟩ := List.mem_map.mp hr'
  rw [overwrite_id, overwrite_id] at he
  rw [s.ids old hold old' hold' he]

theorem names_overwrite (s : TunnelTable) (hfree : s.NameFree row) :
    Keyed IpsecTunnelRow.name (s.rows.map row.overwrite) := by
  intro r hr r' hr' he
  obtain ⟨old, hold, rfl⟩ := List.mem_map.mp hr
  obtain ⟨old', hold', rfl⟩ := List.mem_map.mp hr'
  have hold_eq : old = old' := by
    by_cases hid : old.id = row.id
    · by_cases hid' : old'.id = row.id
      · exact s.ids old hold old' hold' (hid.trans hid'.symm)
      · rw [overwrite_of_eq _ hid, overwrite_of_ne hid'] at he
        exact absurd (hfree old' hold' he.symm) hid'
    · by_cases hid' : old'.id = row.id
      · rw [overwrite_of_ne hid, overwrite_of_eq _ hid'] at he
        exact absurd (hfree old hold he) hid
      · rw [overwrite_of_ne hid, overwrite_of_ne hid'] at he
        exact s.names old hold old' hold' he
  rw [hold_eq]

def update (s : TunnelTable) (row : IpsecTunnelRow) : Except AifwError TunnelTable :=
  if hasKey IpsecTunnelRow.id row.id s.rows then
    if hfree : s.NameFree row then
      .ok ⟨s.rows.map row.overwrite, s.ids_overwrite row, s.names_overwrite hfree⟩
    else .error .database
  else .error (tunnelNotFound row.id)

def delete (s : TunnelTable) (id : Uuid) : Except AifwError TunnelTable :=
  if hasKey IpsecTunnelRow.id id s.rows then
    .ok ⟨dropKey IpsecTunnelRow.id id s.rows, s.ids.sublist fun _ hr => (mem_dropKey.mp hr).1,
      s.names.sublist fun _ hr => (mem_dropKey.mp hr).1⟩
  else .error (tunnelNotFound id)

end TunnelTable

/-- The table, and the managed files of the conf store. -/
structure IpsecState where
  table : TunnelTable
  files : ConfFiles

/-- What a call meets: the ACME store, the clock at the update and at the restoring of the row, and
what the daemon says to the first and the second `--load-all`. -/
structure CallEnv (DateTime : Type) where
  loadCert : Int → Option AcmeCert
  now : DateTime
  restoredAt : DateTime
  load : Except AifwError Unit
  reload : Except AifwError Unit

variable {DateTime : Type} (chrono : Rfc3339 DateTime)

namespace TunnelTable

def addTunnel (s : TunnelTable) (tunnel : IpsecTunnel DateTime) : Except AifwError TunnelTable := do
  tunnel.validate
  s.insert (.ofTunnel chrono tunnel)

def listTunnels (s : TunnelTable) : Except AifwError (List (IpsecTunnel DateTime)) :=
  (s.rows.mergeSort fun a b => a.createdAt ≤ b.createdAt).mapM (IpsecTunnelRow.intoTunnel chrono)

def getTunnel (s : TunnelTable) (id : Uuid) : Except AifwError (IpsecTunnel DateTime) :=
  match s.rows.find? fun r => r.id = id with
  | some row => row.intoTunnel chrono
  | none => .error (tunnelNotFound id)

def updateTunnel (s : TunnelTable) (now : DateTime) (tunnel : IpsecTunnel DateTime) :
    Except AifwError TunnelTable := do
  tunnel.validate
  s.update (.ofTunnel chrono { tunnel with updatedAt := now })

/-- The table after a statement of the rollback, whose error is only logged. -/
def orKeep (s : TunnelTable) : Except AifwError TunnelTable → TunnelTable
  | .ok table => table
  | .error _ => s

end TunnelTable

namespace IpsecState

def applyAll (loadCert : Int → Option AcmeCert) (load : Except AifwError Unit) (s : IpsecState) :
    IpsecState × Except AifwError Unit :=
  match s.table.listTunnels chrono with
  | .error e => (s, .error e)
  | .ok tunnels =>
    match desiredFiles loadCert tunnels with
    | .error e => (s, .error e)
    | .ok desired =>
      ({ s with files := KeyedMap.reconcile desired s.files },
        if desired.entries = [] ∧ s.files.entries = [] then .ok () else load)

def createTunnelApplied (env : CallEnv DateTime) (s : IpsecState) (tunnel : IpsecTunnel DateTime) :
    IpsecState × Except AifwError (IpsecTunnel DateTime) :=
  match s.table.addTunnel chrono tunnel with
  | .error e => (s, .error e)
  | .ok table =>
    match applyAll chrono env.loadCert env.load { s with table } with
    | (s, .ok ()) => (s, .ok tunnel)
    | (s, .error e) =>
      let s := { s with table := s.table.orKeep (s.table.delete tunnel.id) }
      ((applyAll chrono env.loadCert env.reload s).1, .error e)

def updateTunnelApplied (env : CallEnv DateTime) (s : IpsecState) (tunnel : IpsecTunnel DateTime) :
    IpsecState × Except AifwError (IpsecTunnel DateTime) :=
  match s.table.getTunnel chrono tunnel.id with
  | .error e => (s, .error e)
  | .ok previous =>
    match s.table.updateTunnel chrono env.now tunnel with
    | .error e => (s, .error e)
    | .ok table =>
      match applyAll chrono env.loadCert env.load { s with table } with
      | (s, .ok ()) => (s, .ok { tunnel with updatedAt := env.now })
      | (s, .error e) =>
        let s := { s with
          table := s.table.orKeep (s.table.updateTunnel chrono env.restoredAt previous) }
        ((applyAll chrono env.loadCert env.reload s).1, .error e)

/-- The connection is terminated first; that it may not be up is only logged. -/
def deleteTunnelApplied (env : CallEnv DateTime) (s : IpsecState) (id : Uuid) :
    IpsecState × Except AifwError Unit :=
  match s.table.getTunnel chrono id with
  | .error e => (s, .error e)
  | .ok _ =>
    match s.table.delete id with
    | .error e => (s, .error e)
    | .ok table => applyAll chrono env.loadCert env.load { s with table }

end IpsecState

inductive IpsecCall (DateTime : Type) where
  | create (tunnel : IpsecTunnel DateTime)
  | update (tunnel : IpsecTunnel DateTime)
  | delete (id : Uuid)
  | apply

namespace IpsecState

/-- A call and whether it returned `Ok`. -/
def call (s : IpsecState) (c : IpsecCall DateTime × CallEnv DateTime) :
    IpsecState × Except AifwError Unit :=
  match c.1 with
  | .create tunnel =>
    let r := s.createTunnelApplied chrono c.2 tunnel
    (r.1, r.2.map fun _ => ())
  | .update tunnel =>
    let r := s.updateTunnelApplied chrono c.2 tunnel
    (r.1, r.2.map fun _ => ())
  | .delete id => s.deleteTunnelApplied chrono c.2 id
  | .apply => s.applyAll chrono c.2.loadCert c.2.load

def step (s : IpsecState) (c : IpsecCall DateTime × CallEnv DateTime) : IpsecState :=
  (s.call chrono c).1

end IpsecState

variable {chrono}

/-- The table lists these tunnels, and the files are the ones desired of them. -/
def IpsecState.Rendered (chrono : Rfc3339 DateTime) (loadCert : Int → Option AcmeCert)
    (tunnels : List (IpsecTunnel DateTime)) (s : IpsecState) : Prop :=
  s.table.listTunnels chrono = .ok tunnels ∧
    ∃ desired, desiredFiles loadCert tunnels = .ok desired ∧ KeyedMap.Same s.files desired

theorem applyAll_table (chrono : Rfc3339 DateTime) (loadCert : Int → Option AcmeCert)
    (load : Except AifwError Unit) (s : IpsecState) :
    (s.applyAll chrono loadCert load).1.table = s.table := by
  unfold IpsecState.applyAll
  split
  · rfl
  · split
    · rfl
    · rfl

/-- Where the tunnels can be read and their files made out, those are the files afterwards,
whatever the daemon says. -/
theorem applyAll_rendered {s : IpsecState} (htunnels : s.table.listTunnels chrono = .ok tunnels)
    (hdesired : desiredFiles loadCert tunnels = .ok desired) (load : Except AifwError Unit) :
    KeyedMap.Same (s.applyAll chrono loadCert load).1.files desired := by
  unfold IpsecState.applyAll
  rw [htunnels]
  dsimp only
  rw [hdesired]
  exact KeyedMap.reconcile_same desired s.files

theorem applyAll_ok {s : IpsecState} (h : (s.applyAll chrono loadCert load).2 = .ok ()) :
    ∃ tunnels, (s.applyAll chrono loadCert load).1.Rendered chrono loadCert tunnels := by
  cases htunnels : s.table.listTunnels chrono with
  | error e =>
    rw [IpsecState.applyAll, htunnels] at h
    cases h
  | ok tunnels =>
    cases hdesired : desiredFiles loadCert tunnels with
    | error e =>
      rw [IpsecState.applyAll, htunnels] at h
      dsimp only at h
      rw [hdesired] at h
      cases h
    | ok desired =>
      refine ⟨tunnels, ?_, desired, hdesired, applyAll_rendered htunnels hdesired load⟩
      rw [applyAll_table]
      exact htunnels

variable (chrono) in
/-- How a `create_tunnel_applied` ends: at the insert, with the tunnel applied, or with its row
deleted again. -/
theorem create_cases (env : CallEnv DateTime) (s : IpsecState) (tunnel : IpsecTunnel DateTime) :
    (∃ e, s.table.addTunnel chrono tunnel = .error e ∧
      s.createTunnelApplied chrono env tunnel = (s, .error e)) ∨
    ∃ table, s.table.addTunnel chrono tunnel = .ok table ∧
      ((IpsecState.applyAll chrono env.loadCert env.load { s with table }).2 = .ok () ∧
          s.createTunnelApplied chrono env tunnel =
            ((IpsecState.applyAll chrono env.loadCert env.load { s with table }).1, .ok tunnel) ∨
        ∃ e files, s.createTunnelApplied chrono env tunnel =
          ((IpsecState.applyAll chrono env.loadCert env.reload
            ⟨table.orKeep (table.delete tunnel.id), files⟩).1, .error e)) := by
  unfold IpsecState.createTunnelApplied
  cases s.table.addTunnel chrono tunnel with
  | error e => exact .inl ⟨e, rfl, rfl⟩
  | ok table =>
    refine .inr ⟨table, rfl, ?_⟩
    have htable := applyAll_table chrono env.loadCert env.load { s with table }
    dsimp only
    generalize IpsecState.applyAll chrono env.loadCert env.load { s with table } = applied
      at htable ⊢
    obtain ⟨⟨table', files⟩, e | _⟩ := applied
    · cases htable
      exact .inr ⟨e, files, rfl⟩
    · exact .inl ⟨rfl, rfl⟩

variable (chrono) in
/-- How an `update_tunnel_applied` ends: at the reading, at the update, with the tunnel applied, or
with the previous one written back if it can be. -/
theorem update_cases (env : CallEnv DateTime) (s : IpsecState) (tunnel : IpsecTunnel DateTime) :
    (∃ e, s.table.getTunnel chrono tunnel.id = .error e ∧
      s.updateTunnelApplied chrono env tunnel = (s, .error e)) ∨
    ∃ previous, s.table.getTunnel chrono tunnel.id = .ok previous ∧
      ((∃ e, s.table.updateTunnel chrono env.now tunnel = .error e ∧
          s.updateTunnelApplied chrono env tunnel = (s, .error e)) ∨
        ∃ table, s.table.updateTunnel chrono env.now tunnel = .ok table ∧
          ((IpsecState.applyAll chrono env.loadCert env.load { s with table }).2 = .ok () ∧
              s.updateTunnelApplied chrono env tunnel =
                ((IpsecState.applyAll chrono env.loadCert env.load { s with table }).1,
                  .ok { tunnel with updatedAt := env.now }) ∨
            ∃ e files, s.updateTunnelApplied chrono env tunnel =
              ((IpsecState.applyAll chrono env.loadCert env.reload
                ⟨table.orKeep (table.updateTunnel chrono env.restoredAt previous), files⟩).1,
                  .error e))) := by
  unfold IpsecState.updateTunnelApplied
  cases s.table.getTunnel chrono tunnel.id with
  | error e => exact .inl ⟨e, rfl, rfl⟩
  | ok previous =>
    refine .inr ⟨previous, rfl, ?_⟩
    cases s.table.updateTunnel chrono env.now tunnel with
    | error e => exact .inl ⟨e, rfl, rfl⟩
    | ok table =>
      refine .inr ⟨table, rfl, ?_⟩
      have htable := applyAll_table chrono env.loadCert env.load { s with table }
      dsimp only
      generalize IpsecState.applyAll chrono env.loadCert env.load { s with table } = applied
        at htable ⊢
      obtain ⟨⟨table', files⟩, e | _⟩ := applied
      · cases htable
        exact .inr ⟨e, files, rfl⟩
      · exact .inl ⟨rfl, rfl⟩

theorem insert_ok {s s' : TunnelTable} (h : s.insert row = .ok s') :
    s'.rows = s.rows ++ [row] ∧ hasKey IpsecTunnelRow.id row.id s.rows = false := by
  unfold TunnelTable.insert at h
  split at h
  · rename_i hid
    split at h
    · cases h
      exact ⟨rfl, hid⟩
    · cases h
  · cases h

theorem update_ok {s s' : TunnelTable} (h : s.update row = .ok s') :
    s'.rows = s.rows.map row.overwrite ∧ hasKey IpsecTunnelRow.id row.id s.rows = true ∧
      s.NameFree row := by
  unfold TunnelTable.update at h
  split at h
  · rename_i hid
    split at h
    · rename_i hfree
      cases h
      exact ⟨rfl, hid, hfree⟩
    · cases h
  · cases h

theorem delete_ok {s s' : TunnelTable} {id : Uuid} (h : s.delete id = .ok s') :
    s'.rows = dropKey IpsecTunnelRow.id id s.rows := by
  unfold TunnelTable.delete at h
  split at h
  · cases h
    rfl
  · cases h

theorem addTunnel_ok {s s' : TunnelTable} {tunnel : IpsecTunnel DateTime}
    (h : s.addTunnel chrono tunnel = .ok s') :
    tunnel.validate = .ok () ∧ s.insert (.ofTunnel chrono tunnel) = .ok s' :=
  andThen_ok.mp h

theorem updateTunnel_ok {s s' : TunnelTable} {tunnel : IpsecTunnel DateTime}
    (h : s.updateTunnel chrono now tunnel = .ok s') : tunnel.validate = .ok () ∧
      s.update (.ofTunnel chrono { tunnel with updatedAt := now }) = .ok s' :=
  andThen_ok.mp h

theorem getTunnel_ok {s : TunnelTable} {id : Uuid} {tunnel : IpsecTunnel DateTime}
    (h : s.getTunnel chrono id = .ok tunnel) :
    ∃ row ∈ s.rows, row.id = id ∧ row.intoTunnel chrono = .ok tunnel := by
  unfold TunnelTable.getTunnel at h
  split at h
  · rename_i row hrow
    obtain ⟨hm, hid⟩ := s.ids.find_iff.mp hrow
    exact ⟨row, hm, hid, h⟩
  · cases h

/-- Each tunnel listed is one of a row, and so each row's tunnel is listed. -/
theorem mem_listTunnels {s : TunnelTable} (h : s.listTunnels chrono = .ok tunnels) :
    t ∈ tunnels ↔ ∃ row ∈ s.rows, row.intoTunnel chrono = .ok t := by
  rw [mem_of_mapM h]
  simp only [List.mem_mergeSort]

theorem parseTs_ok {text : List Char} (h : IpsecTunnelRow.parseTs chrono text = .ok time) :
    chrono.parse text = some time := by
  unfold IpsecTunnelRow.parseTs at h
  split at h
  · cases h
    assumption
  · cases h

/-- What a row that is read says of its tunnel. -/
theorem intoTunnel_columns {row : IpsecTunnelRow} (h : row.intoTunnel chrono = .ok t) :
    t.id = row.id ∧ t.name = row.name ∧ chrono.parse row.createdAt = some t.createdAt ∧
      chrono.parse row.updatedAt = some t.updatedAt := by
  obtain ⟨_, -, h⟩ := bind_ok.mp h
  obtain ⟨_, -, h⟩ := bind_ok.mp h
  obtain ⟨_, -, h⟩ := bind_ok.mp h
  obtain ⟨_, hcreated, h⟩ := bind_ok.mp h
  obtain ⟨_, hupdated, h⟩ := bind_ok.mp h
  cases h
  exact ⟨rfl, rfl, parseTs_ok hcreated, parseTs_ok hupdated⟩

theorem intoTunnel_id {row : IpsecTunnelRow} (h : row.intoTunnel chrono = .ok t) : t.id = row.id :=
  (intoTunnel_columns h).1

theorem keyed_listTunnels {s : TunnelTable} (h : s.listTunnels chrono = .ok tunnels) :
    Keyed IpsecTunnel.id tunnels := by
  intro t ht t' ht' he
  obtain ⟨row, hrow, hread⟩ := (mem_listTunnels h).mp ht
  obtain ⟨row', hrow', hread'⟩ := (mem_listTunnels h).mp ht'
  rw [intoTunnel_id hread, intoTunnel_id hread'] at he
  cases s.ids row hrow row' hrow' he
  exact Except.ok.inj (hread.symm.trans hread')

end AiFw.Vpn
