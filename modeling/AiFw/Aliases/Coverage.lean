import AiFw.Aliases.Engine
import AiFw.Net.Network

namespace AiFw.Aliases
open AiFw.Lib AiFw.Net AiFw.Wan
set_option autoImplicit true

/-- The network that an entry writes; an address is a network of full length. -/
def entryNet (entry : List Char) : Option (IpAddr × Nat) :=
  let entry := trim entry
  match splitOnce '/' entry with
  | some (ip, len) => do
    let ip ← IpAddr.parse ip
    let n ← parseUnsigned 256 len
    if n ≤ ip.width then some (ip, n) else none
  | none => (IpAddr.parse entry).map fun ip => (ip, ip.width)

/-- Some entry covers the address. -/
def CoveredBy (entries : List (List Char)) (x : IpAddr) : Prop :=
  ∃ entry ∈ entries, ∃ net, entryNet entry = some net ∧ net.1.inNet net.2 x = true

/-- Some entry is written with the address, whatever length follows it. -/
def WrittenIn (entries : List (List Char)) (x : IpAddr) : Prop :=
  ∃ entry ∈ entries, ∃ net, entryNet entry = some net ∧ net.1 = x

/-- An enabled host or network alias whose entries are addresses and networks. -/
structure Alias.OfNetworks (a : Alias) : Prop where
  enabled : a.enabled = true
  kind : a.aliasType = .host ∨ a.aliasType = .network
  nets : ∀ entry ∈ a.entries, (entryNet entry).isSome = true

/-- The table of the alias matches the addresses that its entries cover, and no others. -/
def CoversExactly (tables : PfTables) (a : Alias) : Prop :=
  ∀ x, x ∈ PfTables.entries tables a.name ↔ CoveredBy a.entries x

/-- What is loaded for an entry is the address it is written with. -/
theorem entryAddress_of_net (h : entryNet entry = some net) : entryAddress entry = some net.1 := by
  unfold entryNet at h
  unfold entryAddress
  dsimp only at h ⊢
  by_cases hempty : trim entry = []
  · rw [hempty] at h
    cases h
  · rw [if_neg hempty]
    cases hsplit : splitOnce '/' (trim entry) with
    | none =>
      rw [hsplit] at h
      obtain ⟨ip, hip, rfl⟩ := Option.map_eq_some_iff.mp h
      exact hip
    | some parts =>
      rw [hsplit] at h
      obtain ⟨ip, hip, h⟩ := Option.bind_eq_some_iff.mp h
      obtain ⟨n, -, h⟩ := Option.bind_eq_some_iff.mp h
      split at h
      · cases h
        exact hip
      · cases h

theorem CoveredBy.of_written (h : WrittenIn entries x) : CoveredBy entries x := by
  obtain ⟨entry, hentry, net, hnet, rfl⟩ := h
  exact ⟨entry, hentry, net, hnet, net.1.inNet_self net.2⟩

theorem eq_of_inNet_width {a b : IpAddr} (h : a.inNet a.width b = true) : a = b := by
  obtain ⟨hfamily, hdiv⟩ := IpAddr.inNet_iff_div.mp h
  rw [Nat.sub_self, Nat.pow_zero, Nat.div_one, Nat.div_one] at hdiv
  cases a with
  | v4 a =>
    cases b with
    | v4 b => rw [BitVec.eq_of_toNat_eq hdiv]
    | v6 b => cases hfamily
  | v6 a =>
    cases b with
    | v4 b => cases hfamily
    | v6 b => rw [BitVec.eq_of_toNat_eq hdiv]

/-- A list of addresses, with or without their full length, covers what is written in it. -/
theorem written_of_full_length (h : ∀ entry ∈ entries, ∀ net, entryNet entry = some net →
    net.2 = net.1.width) (hx : CoveredBy entries x) : WrittenIn entries x := by
  obtain ⟨entry, hentry, net, hnet, hin⟩ := hx
  refine ⟨entry, hentry, net, hnet, ?_⟩
  rw [h entry hentry net hnet] at hin
  exact eq_of_inNet_width hin

theorem Alias.OfNetworks.mem_addresses {a : Alias} (h : a.OfNetworks) (fetch : Fetch) :
    x ∈ a.addresses fetch ↔ WrittenIn a.entries x := by
  have hload : a.addresses fetch = a.entries.filterMap entryAddress := by
    unfold Alias.addresses
    obtain hkind | hkind := h.kind
    · rw [hkind]
    · rw [hkind]
  rw [hload, List.mem_filterMap]
  constructor
  · rintro ⟨entry, hentry, hx⟩
    obtain ⟨net, hnet⟩ := Option.isSome_iff_exists.mp (h.nets entry hentry)
    rw [entryAddress_of_net hnet] at hx
    exact ⟨entry, hentry, net, hnet, Option.some.inj hx⟩
  · rintro ⟨entry, hentry, net, hnet, rfl⟩
    exact ⟨entry, hentry, entryAddress_of_net hnet⟩

theorem Alias.OfNetworks.mem_pushed {a : Alias} (h : a.OfNetworks) (fetch : Fetch) :
    x ∈ a.pushed fetch ↔ WrittenIn a.entries x := by
  unfold Alias.pushed
  rw [if_pos h.enabled, h.mem_addresses]

namespace AliasEngine

/-- Every address that an entry covers is written in one, or was in the table of the name before,
which had no other. -/
structure AddCovers (s : AliasEngine) (a : Alias) : Prop where
  covered : ∀ x, CoveredBy a.entries x →
    WrittenIn a.entries x ∨ x ∈ PfTables.entries s.tables a.name
  before : ∀ x ∈ PfTables.entries s.tables a.name, CoveredBy a.entries x

theorem add_covers_iff {s : AliasEngine} {a : Alias} (ha : a.OfNetworks) (fetch : Fetch)
    (h : Inserts s.rows a) :
    CoversExactly (s.step (.add fetch a)).tables a ↔ s.AddCovers a := by
  obtain ⟨-, hadd⟩ | ⟨hrefused, -⟩ := add_cases fetch s.rows a
  · have htables : (s.step (.add fetch a)).tables =
        (syncIfEnabled fetch a).foldl PfOp.run s.tables := by
      rw [AliasEngine.step, call, hadd]
    have hmem (x : IpAddr) : x ∈ PfTables.entries (s.step (.add fetch a)).tables a.name ↔
        x ∈ PfTables.entries s.tables a.name ∨ WrittenIn a.entries x := by
      rw [htables, entries_sync, ha.mem_pushed, and_iff_right rfl]
    constructor
    · intro hexact
      constructor
      · intro x hx
        exact ((hmem x).mp ((hexact x).mpr hx)).symm
      · intro x hx
        exact (hexact x).mp ((hmem x).mpr (.inl hx))
    · intro hcovers x
      rw [hmem x]
      constructor
      · rintro (hx | hx)
        · exact hcovers.before x hx
        · exact .of_written hx
      · intro hx
        exact (hcovers.covered x hx).symm
  · exact absurd h hrefused

theorem exactly_iff_of_mem {tables : PfTables} {a : Alias}
    (h : ∀ x, x ∈ PfTables.entries tables a.name ↔ WrittenIn a.entries x) :
    CoversExactly tables a ↔ ∀ x, CoveredBy a.entries x → WrittenIn a.entries x := by
  constructor
  · intro hexact x hx
    exact (h x).mp ((hexact x).mpr hx)
  · intro hwritten x
    rw [h x]
    exact ⟨.of_written, hwritten x⟩

theorem update_covers_iff {s : AliasEngine} {a : Alias} (ha : a.OfNetworks) (fetch : Fetch)
    (now : List Char) (h : Updates s.rows a) :
    CoversExactly (s.step (.update fetch now a)).tables a ↔
      ∀ x, CoveredBy a.entries x → WrittenIn a.entries x := by
  obtain ⟨-, hupdate⟩ | ⟨hrefused, -⟩ := update_cases fetch now s.rows a
  · apply exactly_iff_of_mem
    intro x
    have htables : (s.step (.update fetch now a)).tables =
        (.flushTable a.name :: syncIfEnabled fetch a).foldl PfOp.run s.tables := by
      rw [AliasEngine.step, call, hupdate]
    rw [htables, entries_flush_sync, ha.mem_pushed, and_iff_right rfl,
      or_iff_right fun hne => hne.1 rfl]
  · exact absurd h hrefused

theorem syncAll_covers_iff {s : AliasEngine} {a : Alias} (ha : a.OfNetworks) (fetch : Fetch)
    (hnames : Keyed Alias.name s.rows) (hrow : a ∈ s.rows) :
    CoversExactly (s.step (.syncAll fetch)).tables a ↔
      ∀ x, CoveredBy a.entries x → WrittenIn a.entries x := by
  apply exactly_iff_of_mem
  intro x
  have hkeyed : Keyed Alias.name (list s.rows) := hnames.sublist fun r hr => mem_list.mp hr
  have htables : (s.step (.syncAll fetch)).tables =
      ((list s.rows).flatMap (resync fetch)).foldl PfOp.run s.tables := rfl
  rw [htables, entries_syncAll hkeyed, ← ha.mem_addresses fetch]
  constructor
  · rintro (⟨hnone, -⟩ | ⟨r, hr, hn, hx⟩)
    · exact absurd ⟨ha.enabled, rfl⟩ (hnone a (mem_list.mpr hrow))
    · rw [hnames r (mem_list.mp hr) a hrow hn.2.symm] at hx
      exact hx
  · intro hx
    exact .inr ⟨a, mem_list.mpr hrow, ⟨ha.enabled, rfl⟩, hx⟩

/-- The table covers what the entries cover exactly if every address that an entry covers is written
in an entry; an added alias takes the table of its name as it is. -/
theorem table_covers_iff (s : AliasEngine) (a : Alias) (fetch : Fetch) (now : List Char)
    (ha : a.OfNetworks) (hnames : Keyed Alias.name s.rows) :
    (Inserts s.rows a → (CoversExactly (s.step (.add fetch a)).tables a ↔ s.AddCovers a)) ∧
    (Updates s.rows a → (CoversExactly (s.step (.update fetch now a)).tables a ↔
      ∀ x, CoveredBy a.entries x → WrittenIn a.entries x)) ∧
    (a ∈ s.rows → (CoversExactly (s.step (.syncAll fetch)).tables a ↔
      ∀ x, CoveredBy a.entries x → WrittenIn a.entries x)) :=
  ⟨add_covers_iff ha fetch, update_covers_iff ha fetch now, syncAll_covers_iff ha fetch hnames⟩

def networkAlias (entries : List String) : Alias where
  id := 1
  name := "lan".toList
  aliasType := .network
  entries := entries.map String.toList
  description := none
  enabled := true
  createdAt := "t".toList
  updatedAt := "t".toList

theorem ofNetworks_sample (entries : List String)
    (h : ∀ entry ∈ entries.map String.toList, (entryNet entry).isSome = true) :
    (networkAlias entries).OfNetworks where
  enabled := rfl
  kind := .inr rfl
  nets := h

theorem inserts_sample (entries : List String) : Inserts empty.rows (networkAlias entries) := by
  refine ⟨?_, rfl, rfl⟩
  have hname : validateName "lan".toList = .ok () := by decide
  exact hname

/-- A host and a network of full length. -/
def hostEntries : List String := [" 192.0.2.1", "2001:db8::1/128"]

theorem covers_hosts :
    (networkAlias hostEntries).OfNetworks ∧ Keyed Alias.name empty.rows ∧
      CoversExactly (empty.step (.add (fun _ => none) (networkAlias hostEntries))).tables
        (networkAlias hostEntries) := by
  have hnets := ofNetworks_sample hostEntries (by decide +kernel)
  have hlengths : ∀ entry ∈ (networkAlias hostEntries).entries,
      ∀ net ∈ entryNet entry, net.2 = net.1.width := by
    decide +kernel
  refine ⟨hnets, .nil, ?_⟩
  apply ((table_covers_iff empty _ (fun _ => none) "t".toList hnets .nil).1
    (inserts_sample hostEntries)).mpr
  constructor
  · intro x hx
    exact .inl (written_of_full_length hlengths hx)
  · intro x hx
    have hnone : PfTables.entries empty.tables (networkAlias hostEntries).name = [] := by
      decide
    rw [hnone] at hx
    cases hx

/-- The table of a network holds the address it is written with and no other. -/
theorem network_not_covered :
    ¬∀ (s : AliasEngine) (a : Alias) (fetch : Fetch), a.OfNetworks → Keyed Alias.name s.rows →
      Inserts s.rows a → CoversExactly (s.step (.add fetch a)).tables a := by
  intro h
  have hnets := ofNetworks_sample ["10.0.0.0/8"] (by decide +kernel)
  have hexact := h empty _ (fun _ => none) hnets .nil (inserts_sample _)
  have hcovered : CoveredBy (networkAlias ["10.0.0.0/8"]).entries (.v4 0x0A010203) :=
    ⟨_, List.mem_cons_self, (.v4 0x0A000000, 8), by decide +kernel, by decide +kernel⟩
  have hout : (.v4 0x0A010203 : IpAddr) ∉ PfTables.entries
      (empty.step (.add (fun _ => none) (networkAlias ["10.0.0.0/8"]))).tables "lan".toList := by
    decide +kernel
  exact hout ((hexact _).mpr hcovered)

end AliasEngine

end AiFw.Aliases
