import AiFw.Backup.Apply
import AiFw.Lib.Views

namespace AiFw.Pf
open AiFw.Net
set_option autoImplicit true

/-- The addresses an expression stands for in the list of a peer, where a table stands for none. -/
def Address.covers : Address → IpAddr → Bool
  | .any, _ => true
  | .single a, x => a = x
  | .network a len, x => a.inNet len.toNat x
  | .table _, _ => false

def Address.overlaps : Address → Address → Bool
  | .table _, _ => false
  | _, .table _ => false
  | .any, _ => true
  | _, .any => true
  | .single a, b => b.covers a
  | .network a m, .single b => a.inNet m.toNat b
  | .network a m, .network b n => a.inNet (min m.toNat n.toNat) b

/-- Two expressions overlap if they stand for an address in common. -/
theorem Address.overlaps_iff (a b : Address) :
    a.overlaps b = true ↔ ∃ ip, a.covers ip = true ∧ b.covers ip = true := by
  cases a with
  | table name => exact iff_of_false (fun h => nomatch h) fun ⟨_, h, _⟩ => nomatch h
  | any =>
    cases b with
    | table name => exact iff_of_false (fun h => nomatch h) fun ⟨_, _, h⟩ => nomatch h
    | any => exact iff_of_true rfl ⟨.unspecifiedV4, rfl, rfl⟩
    | single y => exact iff_of_true rfl ⟨y, rfl, decide_eq_true rfl⟩
    | network y n => exact iff_of_true rfl ⟨y, rfl, y.inNet_self _⟩
  | single x =>
    cases b with
    | table name => exact iff_of_false (fun h => nomatch h) fun ⟨_, _, h⟩ => nomatch h
    | any => exact iff_of_true rfl ⟨x, decide_eq_true rfl, rfl⟩
    | single y | network y n =>
      constructor
      · intro h
        exact ⟨x, decide_eq_true rfl, h⟩
      · intro ⟨ip, hx, hy⟩
        rw [← of_decide_eq_true hx] at hy
        exact hy
  | network x m =>
    cases b with
    | table name => exact iff_of_false (fun h => nomatch h) fun ⟨_, _, h⟩ => nomatch h
    | any => exact iff_of_true rfl ⟨x, x.inNet_self _, rfl⟩
    | single y =>
      constructor
      · intro h
        exact ⟨y, h, decide_eq_true rfl⟩
      · intro ⟨ip, hx, hy⟩
        rw [← of_decide_eq_true hy] at hx
        exact hx
    | network y n => exact (x.exists_inNet_iff y m.toNat n.toNat).symm

end AiFw.Pf

namespace AiFw.Vpn
open AiFw.Lib AiFw.Net AiFw.Pf
open AiFw.Backup (WgTunnel WgPeer orderByText)
open AiFw.Backup.VpnEngine (addressHost shareAddress)
open AiFw.Wan (Uuid displayUuid)

/-- A row of the peers. The list of the addresses is one text; the times are kept as texts. -/
structure WgPeerRow where
  id : Uuid
  tunnelId : Uuid
  name : List Char
  publicKey : List Char
  presharedKey : Option (List Char)
  clientPrivateKey : Option (List Char)
  endpoint : Option (List Char)
  allowedIps : List Char
  persistentKeepalive : Option UInt16
  createdAt : List Char
  updatedAt : List Char

def allowedText (ips : List Address) : List Char := joinComma (ips.map Address.display)

def readAllowed (text : List Char) : Except String (List Address) :=
  ((splitOn ',' text).filter fun s => !s.isEmpty).mapM fun s => Address.parse (trim s)

def WgPeerRow.ofPeer (p : WgPeer) : WgPeerRow where
  id := p.id
  tunnelId := p.tunnelId
  name := p.name
  publicKey := p.publicKey
  presharedKey := p.presharedKey
  clientPrivateKey := p.clientPrivateKey
  endpoint := p.endpoint
  allowedIps := allowedText p.allowedIps
  persistentKeepalive := p.persistentKeepalive
  createdAt := p.createdAt
  updatedAt := p.updatedAt

def WgPeerRow.intoPeer (r : WgPeerRow) : Except AifwError WgPeer :=
  match readAllowed r.allowedIps with
  | .error e => .error (.validation e.toList)
  | .ok ips => .ok {
      id := r.id
      tunnelId := r.tunnelId
      name := r.name
      publicKey := r.publicKey
      presharedKey := r.presharedKey
      clientPrivateKey := r.clientPrivateKey
      endpoint := r.endpoint
      allowedIps := ips
      persistentKeepalive := r.persistentKeepalive
      createdAt := r.createdAt
      updatedAt := r.updatedAt }

/-- The columns an update writes: neither the tunnel nor the time of creation. -/
def WgPeerRow.updated (p : WgPeer) (now : List Char) (r : WgPeerRow) : WgPeerRow :=
  { WgPeerRow.ofPeer p with
    id := r.id
    tunnelId := r.tunnelId
    createdAt := r.createdAt
    updatedAt := now }

abbrev WgPeerTable := List WgPeerRow

namespace WgPeerTable

def listWgPeers (rows : WgPeerTable) (tunnelId : Uuid) : Except AifwError (List WgPeer) :=
  (orderByText WgPeerRow.createdAt (rows.filter fun r => r.tunnelId = tunnelId)).mapM
    WgPeerRow.intoPeer

/-- The first address of a peer that has the text of one of the new ones, up to the length. -/
def duplicateIp (existing : List WgPeer) (ips : List Address) : Option (List Char × List Char) :=
  existing.findSome? fun ep =>
    ((ep.allowedIps.map addressHost).find? fun ip => (ips.map addressHost).contains ip).map
      fun ip => (ip, ep.name)

/-- The tunnels are the ids of those that exist. -/
def addWgPeer (tunnels : List Uuid) (rows : WgPeerTable) (peer : WgPeer) :
    Except AifwError WgPeerTable :=
  if peer.publicKey.isEmpty then .error (.validation "peer public key required".toList)
  else if !tunnels.contains peer.tunnelId then
    .error (.notFound ("WG tunnel ".toList ++ displayUuid peer.tunnelId ++ " not found".toList))
  else
    match rows.listWgPeers peer.tunnelId with
    | .error e => .error e
    | .ok existing =>
      match duplicateIp existing peer.allowedIps with
      | some (ip, name) =>
        .error (.validation ("IP ".toList ++ ip ++ " is already assigned to peer '".toList ++ name ++
          "'".toList))
      | none =>
        if hasKey WgPeerRow.id peer.id rows then .error .database
        else .ok (rows ++ [WgPeerRow.ofPeer peer])

/-- An unknown id is no error. -/
def updateWgPeer (rows : WgPeerTable) (peer : WgPeer) (now : List Char) : WgPeerTable :=
  rows.map fun r => if r.id = peer.id then r.updated peer now else r

def deleteWgPeer (rows : WgPeerTable) (id : Uuid) : Except AifwError WgPeerTable :=
  if hasKey WgPeerRow.id id rows then .ok (dropKey WgPeerRow.id id rows)
  else .error (.notFound ("WG peer ".toList ++ displayUuid id ++ " not found".toList))

inductive Call where
  | add (peer : WgPeer)
  | update (peer : WgPeer) (now : List Char)
  | delete (id : Uuid)

def call (tunnels : List Uuid) (rows : WgPeerTable) : Call → Except AifwError WgPeerTable
  | .add peer => rows.addWgPeer tunnels peer
  | .update peer now => .ok (rows.updateWgPeer peer now)
  | .delete id => rows.deleteWgPeer id

/-- A call that fails changes nothing. -/
def step (tunnels : List Uuid) (rows : WgPeerTable) (c : Call) : WgPeerTable :=
  match rows.call tunnels c with
  | .ok rows' => rows'
  | .error _ => rows

def run (tunnels : List Uuid) (calls : List Call) : WgPeerTable := calls.foldl (step tunnels) []

end WgPeerTable

/-- The addresses a row claims for its peer, as the row reads back. -/
def WgPeerRow.Claims (r : WgPeerRow) (ip : IpAddr) : Prop :=
  ∃ ips, readAllowed r.allowedIps = .ok ips ∧ ∃ a ∈ ips, a.covers ip = true

/-- Two lists of addresses, as they read back, with an overlap. -/
def Overlap (text text' : List Char) : Prop :=
  ∃ ips ips', readAllowed text = .ok ips ∧ readAllowed text' = .ok ips' ∧
    ∃ a ∈ ips, ∃ b ∈ ips', a.overlaps b = true

theorem overlap_iff {r r' : WgPeerRow} :
    Overlap r.allowedIps r'.allowedIps ↔ ∃ ip, r.Claims ip ∧ r'.Claims ip := by
  constructor
  · intro ⟨ips, ips', hips, hips', a, ha, b, hb, hab⟩
    obtain ⟨ip, hcover, hcover'⟩ := (a.overlaps_iff b).mp hab
    exact ⟨ip, ⟨ips, hips, a, ha, hcover⟩, ips', hips', b, hb, hcover'⟩
  · intro ⟨ip, ⟨ips, hips, a, ha, hcover⟩, ips', hips', b, hb, hcover'⟩
    exact ⟨ips, ips', hips, hips', a, ha, b, hb, (a.overlaps_iff b).mpr ⟨ip, hcover, hcover'⟩⟩

theorem Overlap.symm {s s' : List Char} (h : Overlap s s') : Overlap s' s := by
  obtain ⟨ips, ips', hips, hips', a, ha, b, hb, hab⟩ := h
  obtain ⟨ip, hcover, hcover'⟩ := (a.overlaps_iff b).mp hab
  exact ⟨ips', ips, hips', hips, b, hb, a, ha, (b.overlaps_iff a).mpr ⟨ip, hcover', hcover⟩⟩

namespace WgPeerTable

/-- No address is claimed by two peers of one tunnel. -/
def Apart (rows : WgPeerTable) : Prop :=
  ∀ r ∈ rows, ∀ r' ∈ rows, r.id ≠ r'.id → r.tunnelId = r'.tunnelId →
    ∀ ip, ¬ (r.Claims ip ∧ r'.Claims ip)

/-- What a call that nothing refuses makes of the table. -/
def effect (rows : WgPeerTable) : Call → WgPeerTable
  | .add peer => rows ++ [WgPeerRow.ofPeer peer]
  | .update peer now => rows.updateWgPeer peer now
  | .delete id => dropKey WgPeerRow.id id rows

/-- The peers never share an address, and a call that would make two share one fails and changes
nothing. -/
def NeverShare (tunnels : List Uuid) (calls : List Call) : Prop :=
  ∀ past c, List.IsPrefix (past ++ [c]) calls →
    (run tunnels (past ++ [c])).Apart ∧
      (¬ ((run tunnels past).effect c).Apart →
        (∃ e, (run tunnels past).call tunnels c = .error e) ∧
          run tunnels (past ++ [c]) = run tunnels past)

/-- What the checks of an add let through: the lists of the tunnel read, and no address in them has
the text of a new one up to the length. -/
def Admits (tunnels : List Uuid) (rows : WgPeerTable) (peer : WgPeer) : Prop :=
  peer.publicKey ≠ [] ∧ peer.tunnelId ∈ tunnels ∧ hasKey WgPeerRow.id peer.id rows = false ∧
    ∀ r ∈ rows, r.tunnelId = peer.tunnelId → ∃ ips, readAllowed r.allowedIps = .ok ips ∧
      ∀ a ∈ ips, ∀ b ∈ peer.allowedIps, addressHost a ≠ addressHost b

/-- An add that the checks let through, and an update of a stored peer, bring no address that
overlaps one of another peer of the tunnel. -/
def Careful (tunnels : List Uuid) (rows : WgPeerTable) : Call → Prop
  | .add peer => Admits tunnels rows peer → ∀ r ∈ rows, r.tunnelId = peer.tunnelId →
      ¬ Overlap r.allowedIps (allowedText peer.allowedIps)
  | .update peer _ => ∀ old ∈ rows, old.id = peer.id →
      ∀ r ∈ rows, r.id ≠ peer.id → r.tunnelId = old.tunnelId →
        ¬ Overlap r.allowedIps (allowedText peer.allowedIps)
  | .delete _ => True

variable {tunnels : List Uuid} {rows : WgPeerTable}

theorem apart_iff : rows.Apart ↔ ∀ r ∈ rows, ∀ r' ∈ rows, r.id ≠ r'.id → r.tunnelId = r'.tunnelId →
    ¬ Overlap r.allowedIps r'.allowedIps := by
  simp only [Apart, overlap_iff, not_exists]

theorem duplicateIp_eq_none {existing : List WgPeer} {ips : List Address} :
    duplicateIp existing ips = none ↔
      ∀ ep ∈ existing, ∀ a ∈ ep.allowedIps, ∀ b ∈ ips, addressHost a ≠ addressHost b := by
  simp only [duplicateIp, List.findSome?_eq_none_iff, Option.map_eq_none_iff, List.find?_eq_none,
    List.mem_map, List.contains_iff_mem, forall_exists_index, and_imp, forall_apply_eq_imp_iff₂,
    not_exists, not_and]
  apply forall₂_congr
  intro ep hep
  apply forall₂_congr
  intro a ha
  apply forall₂_congr
  intro b hb
  rw [ne_comm]

theorem intoPeer_ok {r : WgPeerRow} (h : r.intoPeer = .ok p) :
    readAllowed r.allowedIps = .ok p.allowedIps := by
  unfold WgPeerRow.intoPeer at h
  split at h
  · cases h
  next hread =>
    cases h
    exact hread

theorem intoPeer_keys {r : WgPeerRow} (h : r.intoPeer = .ok p) :
    p.id = r.id ∧ p.tunnelId = r.tunnelId := by
  unfold WgPeerRow.intoPeer at h
  split at h
  · cases h
  · cases h
    exact ⟨rfl, rfl⟩

theorem exists_intoPeer {r : WgPeerRow} (h : readAllowed r.allowedIps = .ok ips) :
    ∃ p, r.intoPeer = .ok p ∧ p.allowedIps = ips := by
  unfold WgPeerRow.intoPeer
  rw [h]
  exact ⟨_, rfl, rfl⟩

theorem mem_tunnelRows {tunnelId : Uuid} :
    r ∈ orderByText WgPeerRow.createdAt (rows.filter fun r => r.tunnelId = tunnelId) ↔
      r ∈ rows ∧ r.tunnelId = tunnelId := by
  rw [orderByText, List.mem_mergeSort, List.mem_filter, decide_eq_true_iff]

/-- The check on the list of the peers, whatever order they come in. -/
theorem existing_iff {tunnelId : Uuid} {ips : List Address} :
    (∃ existing, rows.listWgPeers tunnelId = .ok existing ∧ duplicateIp existing ips = none) ↔
      ∀ r ∈ rows, r.tunnelId = tunnelId → ∃ own, readAllowed r.allowedIps = .ok own ∧
        ∀ a ∈ own, ∀ b ∈ ips, addressHost a ≠ addressHost b := by
  constructor
  · intro ⟨existing, hlist, hnone⟩ r hr htunnel
    have hrow := mem_tunnelRows.mpr ⟨hr, htunnel⟩
    obtain ⟨p, hp⟩ := exists_of_mapM hlist hrow
    have hmem := (mem_of_mapM hlist).mpr ⟨r, hrow, hp⟩
    exact ⟨p.allowedIps, intoPeer_ok hp, duplicateIp_eq_none.mp hnone p hmem⟩
  · intro h
    have hreads : ∀ r ∈ orderByText WgPeerRow.createdAt (rows.filter fun r => r.tunnelId = tunnelId),
        ∃ p, r.intoPeer = .ok p := by
      intro r hr
      obtain ⟨hr, htunnel⟩ := mem_tunnelRows.mp hr
      obtain ⟨own, hown, -⟩ := h r hr htunnel
      obtain ⟨p, hp, -⟩ := exists_intoPeer hown
      exact ⟨p, hp⟩
    obtain ⟨existing, hlist⟩ := mapM_total hreads
    refine ⟨existing, hlist, duplicateIp_eq_none.mpr ?_⟩
    intro p hmem
    obtain ⟨r, hr, hp⟩ := (mem_of_mapM hlist).mp hmem
    obtain ⟨hr, htunnel⟩ := mem_tunnelRows.mp hr
    obtain ⟨own, hown, hnone⟩ := h r hr htunnel
    rw [intoPeer_ok hp] at hown
    cases hown
    exact hnone

theorem add_cases (tunnels : List Uuid) (rows : WgPeerTable) (peer : WgPeer) :
    Admits tunnels rows peer ∧
        rows.addWgPeer tunnels peer = .ok (rows ++ [WgPeerRow.ofPeer peer]) ∨
      ¬ Admits tunnels rows peer ∧ ∃ e, rows.addWgPeer tunnels peer = .error e := by
  unfold addWgPeer Admits
  by_cases hkey : peer.publicKey = []
  · exact .inr ⟨fun h => h.1 hkey, _, if_pos (List.isEmpty_iff.mpr hkey)⟩
  rw [if_neg (mt List.isEmpty_iff.mp hkey)]
  have hcontains : (!tunnels.contains peer.tunnelId) = true ↔ peer.tunnelId ∉ tunnels := by
    rw [Bool.not_eq_true', ← Bool.not_eq_true, List.contains_iff_mem]
  by_cases htunnel : peer.tunnelId ∈ tunnels
  · rw [if_neg (mt hcontains.mp (not_not.mpr htunnel))]
    rw [← existing_iff]
    cases hlist : rows.listWgPeers peer.tunnelId with
    | error e => exact .inr ⟨(fun ⟨_, _, _, _, h, _⟩ => nomatch h), e, rfl⟩
    | ok existing =>
      dsimp only
      cases hdup : duplicateIp existing peer.allowedIps with
      | some hit =>
        refine .inr ⟨?_, _, rfl⟩
        intro ⟨_, _, _, existing', hok, hnone⟩
        cases hok
        rw [hnone] at hdup
        cases hdup
      | none =>
        cases hid : hasKey WgPeerRow.id peer.id rows with
        | true => exact .inr ⟨(fun ⟨_, _, h, _⟩ => nomatch h), _, rfl⟩
        | false => exact .inl ⟨⟨hkey, htunnel, rfl, existing, rfl, hdup⟩, rfl⟩
  · exact .inr ⟨fun h => htunnel h.2.1, _, if_pos (hcontains.mpr htunnel)⟩

/-- The checks of an add, on the peers that the rows read back as. -/
theorem admits_iff {tunnels : List WgTunnel} {peers : List WgPeer}
    (hread : rows.mapM WgPeerRow.intoPeer = .ok peers) (peer : WgPeer) :
    Admits (tunnels.map WgTunnel.id) rows peer ↔
      (peer.publicKey ≠ [] ∧ hasKey WgTunnel.id peer.tunnelId tunnels = true) ∧
        ∀ q ∈ peers, ¬(q.id = peer.id ∨ shareAddress q peer) := by
  rw [Admits, List.mem_map, ← hasKey_iff, ← and_assoc]
  apply and_congr_right
  intro _
  rw [hasKey_eq_false]
  constructor
  · intro ⟨hfresh, hfree⟩ q hq hclash
    obtain ⟨r, hr, hrq⟩ := (mem_of_mapM hread).mp hq
    obtain ⟨hid, htunnel⟩ := intoPeer_keys hrq
    obtain hsame | ⟨hown, a, ha, b, hb, hab⟩ := hclash
    · exact hfresh r hr (hid.symm.trans hsame)
    · obtain ⟨ips, hips, hnone⟩ := hfree r hr (htunnel.symm.trans hown)
      cases (intoPeer_ok hrq).symm.trans hips
      exact hnone a ha b hb hab
  · intro hfree
    constructor
    · intro r hr hsame
      obtain ⟨q, hrq⟩ := exists_of_mapM hread hr
      exact hfree q ((mem_of_mapM hread).mpr ⟨r, hr, hrq⟩)
        (.inl ((intoPeer_keys hrq).1.trans hsame))
    · intro r hr htunnel
      obtain ⟨q, hrq⟩ := exists_of_mapM hread hr
      refine ⟨q.allowedIps, intoPeer_ok hrq, ?_⟩
      intro a ha b hb hab
      exact hfree q ((mem_of_mapM hread).mpr ⟨r, hr, hrq⟩)
        (.inr ⟨(intoPeer_keys hrq).2.trans htunnel, a, ha, b, hb, hab⟩)

/-- An add goes through exactly where it does in the table of peers that a restore fills, if these
are the rows read back. -/
theorem addWgPeer_ok_iff {tunnels : List WgTunnel} {peers : List WgPeer}
    (hread : rows.mapM WgPeerRow.intoPeer = .ok peers) (peer : WgPeer) :
    rows.addWgPeer (tunnels.map WgTunnel.id) peer = .ok (rows ++ [WgPeerRow.ofPeer peer]) ↔
      Backup.VpnEngine.addWgPeer tunnels peers peer = .ok (peers ++ [peer]) := by
  unfold Backup.VpnEngine.addWgPeer insertRow
  obtain ⟨hadmits, hadd⟩ | ⟨hrefused, e, hadd⟩ := add_cases (tunnels.map WgTunnel.id) rows peer
  · rw [if_pos ((admits_iff hread peer).mp hadmits)]
    exact iff_of_true hadd rfl
  · rw [if_neg (mt (admits_iff hread peer).mpr hrefused), hadd]
    apply iff_of_false
    · intro h
      cases h
    · intro h
      cases h

theorem run_concat (tunnels : List Uuid) (calls : List Call) (c : Call) :
    run tunnels (calls ++ [c]) = step tunnels (run tunnels calls) c := List.foldl_concat ..

theorem step_ok (h : rows.call tunnels c = .ok rows') : rows.step tunnels c = rows' := by
  rw [step, h]

theorem step_error (h : rows.call tunnels c = .error e) : rows.step tunnels c = rows := by
  rw [step, h]

theorem mem_updateWgPeer {peer : WgPeer} : r ∈ rows.updateWgPeer peer now ↔
    ∃ old ∈ rows, (if old.id = peer.id then old.updated peer now else old) = r := List.mem_map

theorem id_of_update (peer : WgPeer) (now : List Char) (r : WgPeerRow) :
    (if r.id = peer.id then r.updated peer now else r).id = r.id := by
  split <;> rfl

/-- The id tells the peers apart in every table the calls reach. -/
theorem keyed_run (tunnels : List Uuid) (calls : List Call) :
    Keyed WgPeerRow.id (run tunnels calls) := by
  induction calls using List.reverseRecOn with
  | nil => exact .nil
  | append_singleton calls c ih =>
    rw [run_concat]
    cases c with
    | add peer =>
      rcases add_cases tunnels (run tunnels calls) peer with ⟨hadmits, hok⟩ | ⟨-, e, herror⟩
      · rw [step_ok (c := .add peer) hok]
        exact ih.append_row hadmits.2.2.1
      · rw [step_error (c := .add peer) herror]
        exact ih
    | update peer now =>
      rw [step_ok (c := .update peer now) rfl]
      intro r hr r' hr' hid
      obtain ⟨old, hold, rfl⟩ := mem_updateWgPeer.mp hr
      obtain ⟨old', hold', rfl⟩ := mem_updateWgPeer.mp hr'
      rw [id_of_update, id_of_update] at hid
      rw [ih old hold old' hold' hid]
    | delete id =>
      by_cases hid : hasKey WgPeerRow.id id (run tunnels calls) = true
      · rw [step_ok (c := .delete id) (if_pos hid)]
        exact ih.sublist fun r hr => (mem_dropKey.mp hr).1
      · rw [step_error (c := .delete id) (if_neg hid)]
        exact ih

theorem apart_append_iff (h : rows.Apart) {peer : WgPeer}
    (hfresh : hasKey WgPeerRow.id peer.id rows = false) :
    (rows ++ [WgPeerRow.ofPeer peer]).Apart ↔ ∀ r ∈ rows, r.tunnelId = peer.tunnelId →
      ¬ Overlap r.allowedIps (allowedText peer.allowedIps) := by
  rw [apart_iff]
  have hne := hasKey_eq_false.mp hfresh
  constructor
  · intro hall r hr htunnel
    exact hall r (List.mem_append_left _ hr) _ List.mem_concat_self (hne r hr) htunnel
  · intro hnew r hr r' hr' hids htunnel
    rw [List.mem_append, List.mem_singleton] at hr hr'
    rcases hr with hr | rfl
    · rcases hr' with hr' | rfl
      · exact apart_iff.mp h r hr r' hr' hids htunnel
      · exact hnew r hr htunnel
    · rcases hr' with hr' | rfl
      · exact fun hover => hnew r' hr' htunnel.symm hover.symm
      · exact absurd rfl hids

theorem apart_update_iff (h : rows.Apart) (peer : WgPeer) (now : List Char) :
    (rows.updateWgPeer peer now).Apart ↔ ∀ old ∈ rows, old.id = peer.id →
      ∀ r ∈ rows, r.id ≠ peer.id → r.tunnelId = old.tunnelId →
        ¬ Overlap r.allowedIps (allowedText peer.allowedIps) := by
  rw [apart_iff]
  constructor
  · intro hall old hold hid r hr hne htunnel
    have hr' : r ∈ rows.updateWgPeer peer now := mem_updateWgPeer.mpr ⟨r, hr, if_neg hne⟩
    have hold' : old.updated peer now ∈ rows.updateWgPeer peer now :=
      mem_updateWgPeer.mpr ⟨old, hold, if_pos hid⟩
    exact hall r hr' _ hold' (fun he => hne (he.trans hid)) htunnel
  · intro hnew r hr r' hr' hids htunnel
    obtain ⟨old, hold, rfl⟩ := mem_updateWgPeer.mp hr
    obtain ⟨old', hold', rfl⟩ := mem_updateWgPeer.mp hr'
    by_cases hid : old.id = peer.id
    · rw [if_pos hid] at hids htunnel ⊢
      by_cases hid' : old'.id = peer.id
      · rw [if_pos hid'] at hids
        exact absurd (hid.trans hid'.symm) hids
      · rw [if_neg hid'] at htunnel ⊢
        exact fun hover => hnew old hold hid old' hold' hid' htunnel.symm hover.symm
    · rw [if_neg hid] at hids htunnel ⊢
      by_cases hid' : old'.id = peer.id
      · rw [if_pos hid'] at htunnel ⊢
        exact hnew old' hold' hid' old hold hid htunnel
      · rw [if_neg hid'] at hids htunnel ⊢
        exact apart_iff.mp h old hold old' hold' hids htunnel

theorem Apart.dropKey (h : rows.Apart) (id : Uuid) : Apart (dropKey WgPeerRow.id id rows) := by
  intro r hr r' hr'
  exact h r (mem_dropKey.mp hr).1 r' (mem_dropKey.mp hr').1

theorem Apart.step_iff (h : rows.Apart) (c : Call) :
    ((rows.step tunnels c).Apart ∧ (¬ (rows.effect c).Apart →
        (∃ e, rows.call tunnels c = .error e) ∧ rows.step tunnels c = rows)) ↔
      rows.Careful tunnels c := by
  cases c with
  | add peer =>
    rcases add_cases tunnels rows peer with ⟨hadmits, hok⟩ | ⟨hrefused, e, herror⟩
    · have hcareful : rows.Careful tunnels (.add peer) ↔ (rows.effect (.add peer)).Apart :=
        (forall_prop_of_true hadmits).trans (apart_append_iff h hadmits.2.2.1).symm
      rw [step_ok (c := .add peer) hok, hcareful]
      exact and_iff_left_of_imp fun hapart hnot => absurd hapart hnot
    · rw [step_error (c := .add peer) herror]
      exact iff_of_true ⟨h, fun _ => ⟨⟨e, herror⟩, rfl⟩⟩ fun hadmits => absurd hadmits hrefused
  | update peer now =>
    have hcareful : rows.Careful tunnels (.update peer now) ↔
        (rows.effect (.update peer now)).Apart := (apart_update_iff h peer now).symm
    rw [step_ok (c := .update peer now) rfl, hcareful]
    exact and_iff_left_of_imp fun hapart hnot => absurd hapart hnot
  | delete id =>
    refine iff_of_true ⟨?_, fun hnot => absurd (h.dropKey id) hnot⟩ trivial
    by_cases hid : hasKey WgPeerRow.id id rows = true
    · rw [step_ok (c := .delete id) (if_pos hid)]
      exact h.dropKey id
    · rw [step_error (c := .delete id) (if_neg hid)]
      exact h

theorem Apart.run {calls : List Call}
    (h : ∀ past c, List.IsPrefix (past ++ [c]) calls → (run tunnels past).Careful tunnels c) :
    (run tunnels calls).Apart := by
  induction calls using List.reverseRecOn with
  | nil => exact fun _ hr => nomatch hr
  | append_singleton calls c ih =>
    have hbefore := ih fun past c' hp => h past c' (hp.trans (List.prefix_append calls [c]))
    rw [run_concat]
    exact (hbefore.step_iff c).mpr (h calls c (List.prefix_refl _)) |>.1

/-- The peers of a tunnel never share an address exactly if every call is careful: the check on an
add compares texts, and an update is not checked at all. -/
theorem neverShare_iff (tunnels : List Uuid) (calls : List Call) :
    NeverShare tunnels calls ↔
      ∀ past c, List.IsPrefix (past ++ [c]) calls → (run tunnels past).Careful tunnels c := by
  apply forall_prefix_congr
  intro past c _ hcareful
  rw [run_concat]
  exact (Apart.run hcareful).step_iff c

def laptop (id : Uuid) (ips : List Address) : WgPeer where
  id := id
  tunnelId := 1
  name := "laptop".toList
  publicKey := "pubA".toList
  presharedKey := none
  clientPrivateKey := none
  endpoint := none
  allowedIps := ips
  persistentKeepalive := none
  createdAt := "2026-01-01T00:00:00+00:00".toList
  updatedAt := "2026-01-01T00:00:00+00:00".toList

/-- A network whose text differs from that of the address in it. -/
def office : WgPeer := laptop 7 [.network (.v4 0x0A000000) 24]

def roaming : WgPeer := laptop 8 [.single (.v4 0x0A000002)]

/-- Both adds are let through, and the address of the second peer lies in the network of the
first. -/
theorem network_taken_over : ¬ ∀ tunnels calls, NeverShare tunnels calls := by
  intro h
  have hread : readAllowed (allowedText office.allowedIps) = .ok office.allowedIps ∧
      readAllowed (allowedText roaming.allowedIps) = .ok roaming.allowedIps := by decide +kernel
  have hfirst : step [1] [] (.add office) = [WgPeerRow.ofPeer office] := by
    rcases add_cases [1] [] office with ⟨-, hok⟩ | ⟨hno, -⟩
    · exact step_ok (c := .add office) hok
    · exact absurd ⟨by decide, by decide, rfl, fun r hr => nomatch hr⟩ hno
  have hsecond : step [1] [WgPeerRow.ofPeer office] (.add roaming) =
      [WgPeerRow.ofPeer office, WgPeerRow.ofPeer roaming] := by
    rcases add_cases [1] [WgPeerRow.ofPeer office] roaming with ⟨-, hok⟩ | ⟨hno, -⟩
    · exact step_ok (c := .add roaming) hok
    · refine absurd ⟨by decide, by decide, by decide, ?_⟩ hno
      intro r hr _
      rw [List.mem_singleton.mp hr]
      exact ⟨_, hread.1, by decide +kernel⟩
  have hapart := (h [1] [.add office, .add roaming] [.add office] (.add roaming)
    (List.prefix_refl _)).1
  have hrun : run [1] ([.add office] ++ [.add roaming]) =
      [WgPeerRow.ofPeer office, WgPeerRow.ofPeer roaming] := by
    change step [1] (step [1] [] (.add office)) (.add roaming) = _
    rw [hfirst, hsecond]
  rw [hrun] at hapart
  apply apart_iff.mp hapart (WgPeerRow.ofPeer office) List.mem_cons_self
    (WgPeerRow.ofPeer roaming) (List.mem_cons_of_mem _ List.mem_cons_self) (by decide) rfl
  exact ⟨_, _, hread.1, hread.2, _, List.mem_cons_self, _, List.mem_cons_self, by decide⟩

end WgPeerTable

end AiFw.Vpn
