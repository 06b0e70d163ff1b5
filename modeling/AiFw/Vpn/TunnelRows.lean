import AiFw.Lib.Results
import AiFw.Lib.Separated
import AiFw.Pf.NatOrder
import AiFw.Vpn.Tunnel

namespace AiFw.Vpn
open AiFw.Lib AiFw.Net AiFw.Pf
open AiFw.Wan (Uuid displayUuid)
set_option autoImplicit true

/-- A row of `ipsec_tunnels`. The id is the one the hyphenated text stands for. -/
structure IpsecTunnelRow where
  id : Uuid
  name : List Char
  enabled : Int
  localAddr : List Char
  remoteAddr : List Char
  localId : List Char
  remoteId : List Char
  authMethod : List Char
  psk : List Char
  certSource : Option (List Char)
  acmeCertId : Option Int
  localCertPem : List Char
  localKeyPem : List Char
  caCertPem : List Char
  ikeProposal : List Char
  espProposal : List Char
  localTs : List Char
  remoteTs : List Char
  ikeLifetimeSecs : Int
  espLifetimeSecs : Int
  dpdDelaySecs : Int
  startAction : List Char
  createdAt : List Char
  updatedAt : List Char
deriving DecidableEq

def splitCsv (s : List Char) : List (List Char) :=
  ((splitOn ',' s).map trim).filter fun p => p ≠ []

/-- The cast of an `i64` to a `u32` keeps the low bits. -/
def asU32 (n : Int) : UInt32 := UInt32.ofNat (n % 2 ^ 32).toNat

def readCertSource : Option (List Char) → Except AifwError (Option IpsecCertSource)
  | none | some [] => .ok none
  | some s => (IpsecCertSource.parse s).map some

namespace IpsecTunnelRow

variable {DateTime : Type} (chrono : Rfc3339 DateTime)

def parseTs (s : List Char) : Except AifwError DateTime :=
  match chrono.parse s with
  | some t => .ok t
  | none => .error .database

def intoTunnel (row : IpsecTunnelRow) : Except AifwError (IpsecTunnel DateTime) := do
  let authMethod ← IpsecAuthMethod.parse row.authMethod
  let certSource ← readCertSource row.certSource
  let startAction ← IpsecStartAction.parse row.startAction
  let createdAt ← parseTs chrono row.createdAt
  let updatedAt ← parseTs chrono row.updatedAt
  return {
    id := row.id
    name := row.name
    enabled := row.enabled ≠ 0
    localAddr := row.localAddr
    remoteAddr := row.remoteAddr
    localId := row.localId
    remoteId := row.remoteId
    authMethod
    psk := row.psk
    certSource
    acmeCertId := row.acmeCertId
    localCertPem := row.localCertPem
    localKeyPem := row.localKeyPem
    caCertPem := row.caCertPem
    ikeProposal := row.ikeProposal
    espProposal := row.espProposal
    localTs := splitCsv row.localTs
    remoteTs := splitCsv row.remoteTs
    ikeLifetimeSecs := asU32 row.ikeLifetimeSecs
    espLifetimeSecs := asU32 row.espLifetimeSecs
    dpdDelaySecs := asU32 row.dpdDelaySecs
    startAction
    createdAt
    updatedAt }

/-- The values bound to the columns of the row. -/
def ofTunnel (t : IpsecTunnel DateTime) : IpsecTunnelRow where
  id := t.id
  name := t.name
  enabled := if t.enabled then 1 else 0
  localAddr := t.localAddr
  remoteAddr := t.remoteAddr
  localId := t.localId
  remoteId := t.remoteId
  authMethod := t.authMethod.display
  psk := t.psk
  certSource := t.certSource.map IpsecCertSource.display
  acmeCertId := t.acmeCertId
  localCertPem := t.localCertPem
  localKeyPem := t.localKeyPem
  caCertPem := t.caCertPem
  ikeProposal := t.ikeProposal
  espProposal := t.espProposal
  localTs := joinComma t.localTs
  remoteTs := joinComma t.remoteTs
  ikeLifetimeSecs := t.ikeLifetimeSecs.toNat
  espLifetimeSecs := t.espLifetimeSecs.toNat
  dpdDelaySecs := t.dpdDelaySecs.toNat
  startAction := t.startAction.display
  createdAt := chrono.toRfc3339 t.createdAt
  updatedAt := chrono.toRfc3339 t.updatedAt

end IpsecTunnelRow

/-- The tunnel with its selectors as they are read back. -/
def IpsecTunnel.readBack (t : IpsecTunnel DateTime) : IpsecTunnel DateTime :=
  { t with localTs := t.localTs.map trim, remoteTs := t.remoteTs.map trim }

/-- What `validate` asks of an entry of the traffic selectors. -/
def IsSelector (ts : List Char) : Prop :=
  ∃ a, Address.parse ts = .ok a ∧ ((∃ ip, a = .single ip) ∨ ∃ ip len, a = .network ip len)

theorem parseIp_chars (h : Address.parseIp s = .ok a) (hc : c ∈ s) :
    isNetChar c = true ∨ c = '+' := by
  unfold Address.parseIp at h
  split at h
  · rename_i ip len hsplit
    split at h
    · cases h
    · rename_i addr hip
      split at h
      · cases h
      · rename_i n hlen
        rw [splitOnce_eq hsplit, List.mem_append, List.mem_cons] at hc
        obtain hc | rfl | hc := hc
        · exact .inl (decide_eq_true (.inr (IpAddr.parse_chars hip c hc)))
        · exact .inl rfl
        · obtain rfl | hd := parseUnsigned_chars hlen hc
          · exact .inr rfl
          · exact .inl (decide_eq_true (.inr (isAddrChar_of_digit (by decide) hd)))
  · split at h
    · cases h
    · rename_i ip hip
      exact .inl (decide_eq_true (.inr (IpAddr.parse_chars hip c hc)))

theorem IsSelector.parseIp (h : IsSelector ts) : ∃ a, Address.parseIp (trim ts) = .ok a := by
  obtain ⟨a, hparse, ha⟩ := h
  unfold Address.parse at hparse
  dsimp only at hparse
  split at hparse
  · cases hparse
    obtain ⟨_, hip⟩ | ⟨_, _, hip⟩ := ha
    · cases hip
    · cases hip
  · split at hparse
    · obtain ⟨_, -, htable⟩ := except_bind_ok hparse
      cases htable
      obtain ⟨_, hip⟩ | ⟨_, _, hip⟩ := ha
      · cases hip
      · cases hip
    · exact ⟨a, hparse⟩

theorem selectorChar_facts (h : isNetChar c = true ∨ c = '+') : isWhitespace c = false ∧ c ≠ ',' := by
  obtain h | rfl := h
  · refine ⟨(isNetChar_facts h).1, ?_⟩
    rintro rfl
    revert h
    decide
  · decide

/-- A selector without the white space around it is read as before. -/
theorem IsSelector.trim (h : IsSelector ts) : IsSelector (Lib.trim ts) := by
  obtain ⟨ip, hip⟩ := h.parseIp
  obtain ⟨a, hparse, ha⟩ := h
  refine ⟨a, ?_, ha⟩
  have hgraphic : Lib.trim (Lib.trim ts) = Lib.trim ts :=
    trim_of_graphic fun c hc => (selectorChar_facts (parseIp_chars hip hc)).1
  unfold Address.parse at hparse ⊢
  rw [hgraphic]
  exact hparse

theorem IsSelector.no_comma (h : IsSelector ts) : ',' ∉ ts := by
  intro hc
  obtain ⟨ip, hip⟩ := h.parseIp
  obtain hw | hc := mem_trim hc
  · revert hw
    decide
  · exact (selectorChar_facts (parseIp_chars hip hc)).2 rfl

theorem IsSelector.trim_ne_nil (h : IsSelector ts) : Lib.trim ts ≠ [] := by
  intro hnil
  obtain ⟨ip, hip⟩ := h.parseIp
  rw [hnil] at hip
  cases hip

theorem validateSelectors_ok {list : List (List Char)} :
    validateSelectors field list = .ok () ↔ list ≠ [] ∧ ∀ ts ∈ list, IsSelector ts := by
  unfold validateSelectors
  by_cases hnil : list = []
  · rw [if_pos hnil]
    exact ⟨(fun h => nomatch h), fun h => absurd hnil h.1⟩
  · rw [if_neg hnil, forM_ok]
    apply Iff.trans _ (and_iff_right hnil).symm
    apply forall₂_congr
    intro ts _
    unfold IsSelector
    cases Address.parse ts with
    | error e => exact ⟨(fun h => nomatch h), fun ⟨_, h, _⟩ => nomatch h⟩
    | ok a =>
      cases a with
      | single ip => exact ⟨fun _ => ⟨_, rfl, .inl ⟨_, rfl⟩⟩, fun _ => rfl⟩
      | network ip len => exact ⟨fun _ => ⟨_, rfl, .inr ⟨_, _, rfl⟩⟩, fun _ => rfl⟩
      | any =>
        refine ⟨(fun h => nomatch h), ?_⟩
        rintro ⟨_, h, ⟨_, rfl⟩ | ⟨_, _, rfl⟩⟩
        · cases h
        · cases h
      | table name =>
        refine ⟨(fun h => nomatch h), ?_⟩
        rintro ⟨_, h, ⟨_, rfl⟩ | ⟨_, _, rfl⟩⟩
        · cases h
        · cases h

theorem validateSelectors_trim (h : validateSelectors field list = .ok ()) :
    validateSelectors field (list.map trim) = .ok () := by
  obtain ⟨hne, hall⟩ := validateSelectors_ok.mp h
  refine validateSelectors_ok.mpr ⟨mt List.map_eq_nil_iff.mp hne, ?_⟩
  intro ts hts
  obtain ⟨ts', hts', rfl⟩ := List.mem_map.mp hts
  exact (hall ts' hts').trim

/-- A column of selectors is read back entry by entry, without the white space. -/
theorem splitCsv_joinComma (h : validateSelectors field list = .ok ()) :
    splitCsv (joinComma list) = list.map trim := by
  obtain ⟨hne, hall⟩ := validateSelectors_ok.mp h
  unfold splitCsv joinComma
  rw [splitOn_intercalate (fun p hp => (hall p hp).no_comma) hne, List.filter_eq_self]
  intro p hp
  obtain ⟨ts, hts, rfl⟩ := List.mem_map.mp hp
  exact decide_eq_true (hall ts hts).trim_ne_nil

/-- A column is written as it was exactly if its entries had no white space around them. -/
theorem joinComma_trim (h : validateSelectors field list = .ok ()) :
    joinComma (list.map trim) = joinComma list ↔ ∀ ts ∈ list, trim ts = ts := by
  constructor
  · intro he
    obtain ⟨hne, hall⟩ := validateSelectors_ok.mp h
    obtain ⟨hne', hall'⟩ := validateSelectors_ok.mp (validateSelectors_trim h)
    have hsplit := congrArg (splitOn ',') he
    unfold joinComma at hsplit
    rw [splitOn_intercalate (fun p hp => (hall' p hp).no_comma) hne',
      splitOn_intercalate (fun p hp => (hall p hp).no_comma) hne] at hsplit
    exact List.map_inj_left.mp (hsplit.trans (List.map_id list).symm)
  · intro htrim
    exact congrArg joinComma ((List.map_inj_left.mpr htrim).trans (List.map_id list))

/-- The columns of selectors of a tunnel that passes `validate`. -/
theorem selectors_of_validate {t : IpsecTunnel DateTime} (h : t.validate = .ok ()) :
    validateSelectors "local_ts" t.localTs = .ok () ∧
      validateSelectors "remote_ts" t.remoteTs = .ok () := by
  unfold IpsecTunnel.validate at h
  simp only [andThen_ok] at h
  exact ⟨h.2.2.2.2.2.2.2.2.2.1, h.2.2.2.2.2.2.2.2.2.2.1⟩

/-- What is read back passes `validate` too. -/
theorem readBack_validate {t : IpsecTunnel DateTime} (h : t.validate = .ok ()) :
    t.readBack.validate = .ok () := by
  unfold IpsecTunnel.validate at h ⊢
  simp only [andThen_ok] at h ⊢
  obtain ⟨hname, hremote, hreq, hlocal, hlid, hrid, hauth, hike, hesp, hlts, hrts, hlife⟩ := h
  exact ⟨hname, hremote, hreq, hlocal, hlid, hrid, hauth, hike, hesp, validateSelectors_trim hlts,
    validateSelectors_trim hrts, hlife⟩

theorem asU32_toNat (n : UInt32) : asU32 n.toNat = n := by
  have hmod : ((n.toNat : Int) % 2 ^ 32) = (n.toNat : Int) :=
    Int.emod_eq_of_lt (Int.natCast_nonneg _) (by exact_mod_cast n.toNat_lt)
  rw [asU32, hmod, Int.toNat_natCast, UInt32.ofNat_toNat]

theorem readCertSource_display (s : Option IpsecCertSource) :
    readCertSource (s.map IpsecCertSource.display) = .ok s := by
  cases s with
  | none => rfl
  | some s =>
    cases s with
    | acme => rfl
    | manual => rfl

theorem enabled_column (b : Bool) : decide ((if b then (1 : Int) else 0) ≠ 0) = b := by
  cases b with
  | false => rfl
  | true => rfl

/-- A row that was written for a valid tunnel, with times that can be read, reads as the tunnel
with those times. -/
theorem intoTunnel_ofTunnel {chrono : Rfc3339 DateTime} {t : IpsecTunnel DateTime}
    (h : t.validate = .ok ()) (hcreated : chrono.parse createdAt = some created)
    (hupdated : chrono.parse updatedAt = some updated) :
    ({ IpsecTunnelRow.ofTunnel chrono t with createdAt, updatedAt }).intoTunnel chrono =
      .ok { t.readBack with createdAt := created, updatedAt := updated } := by
  obtain ⟨hlocal, hremote⟩ := selectors_of_validate h
  unfold IpsecTunnelRow.intoTunnel IpsecTunnelRow.ofTunnel IpsecTunnelRow.parseTs
  simp only [IpsecAuthMethod.parse_display, readCertSource_display, IpsecStartAction.parse_display,
    hcreated, hupdated, splitCsv_joinComma hlocal, splitCsv_joinComma hremote, asU32_toNat,
    enabled_column]
  rfl

end AiFw.Vpn
