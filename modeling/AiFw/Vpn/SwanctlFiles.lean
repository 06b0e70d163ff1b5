import AiFw.Lib.Reconcile
import AiFw.Lib.Results
import AiFw.Vpn.Tunnel

namespace AiFw.Vpn
open AiFw.Lib
open AiFw.Wan (Uuid displayUuid hexField)
set_option autoImplicit true

/-- A certificate of the ACME store. -/
structure AcmeCert where
  certPem : Option (List Char)
  keyPem : Option (List Char)
  chainPem : Option (List Char)

/-- The managed files by their paths; a content is the text its bytes stand for. -/
abbrev ConfFiles := KeyedMap (List Char) (List Char)

inductive FileKind where
  | conf
  | cert
  | key
  | chain
  | ca
deriving DecidableEq

namespace FileKind

def dir : FileKind → List Char
  | conf => "/usr/local/etc/swanctl/conf.d".toList
  | cert => "/usr/local/etc/swanctl/x509".toList
  | key => "/usr/local/etc/swanctl/private".toList
  | chain | ca => "/usr/local/etc/swanctl/x509ca".toList

def ending : FileKind → List Char
  | conf => ".conf".toList
  | cert | key => ".pem".toList
  | chain => "-chain.pem".toList
  | ca => "-ca.pem".toList

def path (kind : FileKind) (conn : List Char) : List Char :=
  kind.dir ++ '/' :: (conn ++ kind.ending)

end FileKind

variable {DateTime : Type}

/-- The certificate, the key and the chain of a tunnel, from the store or from its own fields. -/
def certMaterial (loadCert : Int → Option AcmeCert) (t : IpsecTunnel DateTime) :
    Except AifwError (List Char × List Char × Option (List Char)) :=
  match t.certSource with
  | some .manual => .ok (t.localCertPem, t.localKeyPem, none)
  | some .acme =>
    match t.acmeCertId with
    | none => .error (.config ("tunnel ".toList ++ t.name ++ " has no acme_cert_id".toList))
    | some id =>
      let idText := (toString id).toList
      match loadCert id with
      | none => .error (.config ("ACME cert ".toList ++ idText ++ " referenced by tunnel ".toList ++
          t.name ++ " not found".toList))
      | some cert =>
        let certPem := cert.certPem.getD []
        let keyPem := cert.keyPem.getD []
        if certPem = [] ∨ keyPem = [] then
          .error (.config ("ACME cert ".toList ++ idText ++ " for tunnel ".toList ++ t.name ++
            " has no issued material yet".toList))
        else .ok (certPem, keyPem, cert.chainPem.filter fun c => c ≠ [])
  | none =>
    .error (.config ("tunnel ".toList ++ t.name ++
      " uses cert auth without a cert source".toList))

/-- The files of the material, by their kinds. -/
def materialFiles : List Char × List Char × Option (List Char) → List (FileKind × List Char)
  | (certPem, keyPem, chainPem) =>
    (.cert, certPem) :: (.key, keyPem) :: (chainPem.map fun chain => (.chain, chain)).toList

def authFiles (loadCert : Int → Option AcmeCert) (t : IpsecTunnel DateTime) :
    Except AifwError (List (FileKind × List Char)) :=
  match t.authMethod with
  | .psk => .ok []
  | .cert => (certMaterial loadCert t).map materialFiles

/-- The files an enabled tunnel is given, in the order they are inserted in. -/
def tunnelFiles (loadCert : Int → Option AcmeCert) (t : IpsecTunnel DateTime) :
    Except AifwError (List (FileKind × List Char)) := do
  let files ← authFiles loadCert t
  return (.conf, renderSwanctlConf t) :: files ++
    if t.caCertPem ≠ [] then [(.ca, t.caCertPem)] else []

def placed (t : IpsecTunnel DateTime) (files : List (FileKind × List Char)) :
    List (List Char × List Char) :=
  files.map fun f => (f.1.path t.connName, f.2)

def desiredFiles (loadCert : Int → Option AcmeCert) (tunnels : List (IpsecTunnel DateTime)) :
    Except AifwError ConfFiles := do
  let files ← (tunnels.filter fun t => t.enabled).mapM fun t =>
    (tunnelFiles loadCert t).map (placed t)
  return KeyedMap.insertAll files.flatten ∅

theorem hexField_inj (h : hexField width n = hexField width m) : n % 16 ^ width = m % 16 ^ width := by
  have hdigit : ∀ a < 16, ∀ b < 16, Nat.digitChar a = Nat.digitChar b → a = b := by decide
  induction width with
  | zero => rw [Nat.pow_zero, Nat.mod_one, Nat.mod_one]
  | succ width ih =>
    unfold hexField at h ih
    rw [List.range_succ, List.reverse_append, List.reverse_singleton, List.map_append,
      List.map_append] at h
    obtain ⟨hhead, hrest⟩ := List.cons.inj h
    have hlead := hdigit _ (Nat.mod_lt _ (by decide)) _ (Nat.mod_lt _ (by decide)) hhead
    rw [Nat.pow_succ, Nat.mod_mul, Nat.mod_mul, hlead, ih hrest]

theorem hexField_length (width n : Nat) : (hexField width n).length = width := by
  rw [hexField, List.length_map, List.length_reverse, List.length_range]

theorem displayUuid_eq (id : Uuid) : displayUuid id =
    hexField 8 (id.toNat / 16 ^ 24) ++ ('-' :: (hexField 4 (id.toNat / 16 ^ 20) ++
      ('-' :: (hexField 4 (id.toNat / 16 ^ 16) ++ ('-' :: (hexField 4 (id.toNat / 16 ^ 12) ++
        ('-' :: hexField 12 id.toNat))))))) := by
  simp only [displayUuid, List.intercalate_cons_cons, List.intercalate_singleton,
    List.append_assoc, List.singleton_append]

theorem displayUuid_length (id : Uuid) : (displayUuid id).length = 36 := by
  simp only [displayUuid_eq, List.length_append, List.length_cons, hexField_length]

theorem displayUuid_inj {a b : Uuid} (h : displayUuid a = displayUuid b) : a = b := by
  have hfield (w n m : Nat) (u v : List Char) (he : hexField w n ++ u = hexField w m ++ v) :
      n % 16 ^ w = m % 16 ^ w ∧ u = v := by
    obtain ⟨hf, hr⟩ := List.append_inj he ((hexField_length w n).trans (hexField_length w m).symm)
    exact ⟨hexField_inj hf, hr⟩
  rw [displayUuid_eq, displayUuid_eq] at h
  obtain ⟨h₁, h⟩ := hfield _ _ _ _ _ h
  obtain ⟨h₂, h⟩ := hfield _ _ _ _ _ (List.cons.inj h).2
  obtain ⟨h₃, h⟩ := hfield _ _ _ _ _ (List.cons.inj h).2
  obtain ⟨h₄, h⟩ := hfield _ _ _ _ _ (List.cons.inj h).2
  have h₅ := hexField_inj (List.cons.inj h).2
  have ha := a.isLt
  have hb := b.isLt
  apply BitVec.eq_of_toNat_eq
  omega

theorem path_length (kind : FileKind) (id : Uuid) :
    (kind.path ("aifw-".toList ++ displayUuid id)).length =
      kind.dir.length + kind.ending.length + 42 := by
  simp only [FileKind.path, List.length_append, List.length_cons, displayUuid_length]
  change kind.dir.length + (5 + 36 + kind.ending.length + 1) = _
  omega

/-- The directories differ in their first 28 letters, but for the two of the CA files. -/
theorem path_take (kind : FileKind) (conn : List Char) :
    (kind.path conn).take 28 = (kind.dir ++ ['/']).take 28 := by
  have hpath : kind.path conn = (kind.dir ++ ['/']) ++ (conn ++ kind.ending) := by
    rw [FileKind.path, List.append_assoc]
    rfl
  rw [hpath, List.take_append_of_le_length]
  cases kind with
  | conf => decide
  | cert => decide
  | key => decide
  | chain => decide
  | ca => decide

/-- No two files of tunnels have the same path. -/
theorem path_inj {id id' : Uuid}
    (h : FileKind.path kind ("aifw-".toList ++ displayUuid id) =
      FileKind.path kind' ("aifw-".toList ++ displayUuid id')) : kind = kind' ∧ id = id' := by
  have htake := congrArg (List.take 28) h
  have hlen := congrArg List.length h
  rw [path_take, path_take] at htake
  rw [path_length, path_length] at hlen
  have hkind : kind = kind' := by
    have hall : ∀ k k' : FileKind, (k.dir ++ ['/']).take 28 = (k'.dir ++ ['/']).take 28 →
        k.dir.length + k.ending.length + 42 = k'.dir.length + k'.ending.length + 42 → k = k' := by
      intro k k'
      cases k <;> cases k' <;> decide
    exact hall kind kind' htake hlen
  subst hkind
  refine ⟨rfl, ?_⟩
  have hname := (List.cons.inj (List.append_cancel_left h)).2
  exact displayUuid_inj (List.append_cancel_left (List.append_cancel_right hname))

/-- The files a tunnel needs: its connection and, where it authenticates with a certificate, the
certificate, the key, and the chain and the CA if there are any. -/
def NeededFile (loadCert : Int → Option AcmeCert) (t : IpsecTunnel DateTime) (content : List Char) :
    FileKind → Prop
  | .conf => content = renderSwanctlConf t
  | .cert => t.authMethod = .cert ∧ ∃ m, certMaterial loadCert t = .ok m ∧ content = m.1
  | .key => t.authMethod = .cert ∧ ∃ m, certMaterial loadCert t = .ok m ∧ content = m.2.1
  | .chain => t.authMethod = .cert ∧ ∃ m, certMaterial loadCert t = .ok m ∧ m.2.2 = some content
  | .ca => t.authMethod = .cert ∧ t.caCertPem ≠ [] ∧ content = t.caCertPem

/-- The files are the ones the enabled tunnels need, and no others. -/
def Mirrors (loadCert : Int → Option AcmeCert) (tunnels : List (IpsecTunnel DateTime))
    (files : ConfFiles) : Prop :=
  ∀ path content, files.lookup path = some content ↔
    ∃ t ∈ tunnels, t.enabled = true ∧ ∃ kind : FileKind, path = kind.path t.connName ∧
      NeededFile loadCert t content kind

/-- A CA is kept for a tunnel that authenticates with a key. -/
def IpsecTunnel.SpareCa (t : IpsecTunnel DateTime) : Prop :=
  t.enabled = true ∧ t.authMethod = .psk ∧ t.caCertPem ≠ []

variable {loadCert : Int → Option AcmeCert} {t : IpsecTunnel DateTime}

theorem mem_materialFiles {m : List Char × List Char × Option (List Char)} :
    (kind, content) ∈ materialFiles m ↔ kind = .cert ∧ content = m.1 ∨
      kind = .key ∧ content = m.2.1 ∨ kind = .chain ∧ m.2.2 = some content := by
  obtain ⟨certPem, keyPem, chainPem⟩ := m
  simp only [materialFiles, List.mem_cons, Prod.mk.injEq, Option.mem_toList,
    Option.map_eq_some_iff]
  constructor
  · rintro (h | h | ⟨_, h, rfl, rfl⟩)
    · exact .inl h
    · exact .inr (.inl h)
    · exact .inr (.inr ⟨rfl, h⟩)
  · rintro (h | h | ⟨rfl, h⟩)
    · exact .inl h
    · exact .inr (.inl h)
    · exact .inr (.inr ⟨_, h, rfl, rfl⟩)

/-- An enabled tunnel is given the files it needs, and a CA also where it needs none. -/
theorem mem_tunnelFiles (h : tunnelFiles loadCert t = .ok files) :
    (kind, content) ∈ files ↔ NeededFile loadCert t content kind ∨
      t.authMethod = .psk ∧ kind = .ca ∧ t.caCertPem ≠ [] ∧ content = t.caCertPem := by
  obtain ⟨certFiles, hcert, hfiles⟩ := bind_ok.mp h
  cases hfiles
  have hca : (kind, content) ∈ (if t.caCertPem ≠ [] then [(FileKind.ca, t.caCertPem)] else []) ↔
      kind = .ca ∧ t.caCertPem ≠ [] ∧ content = t.caCertPem := by
    by_cases hnil : t.caCertPem = []
    · simp only [hnil, ne_eq, not_true_eq_false, if_false, List.not_mem_nil, false_and, and_false]
    · simp only [hnil, ne_eq, not_false_eq_true, if_true, List.mem_singleton, Prod.mk.injEq,
        true_and]
  rw [List.cons_append, List.mem_cons, List.mem_append, hca, Prod.mk.injEq]
  unfold authFiles at hcert
  cases hauth : t.authMethod with
  | psk =>
    rw [hauth] at hcert
    cases hcert
    cases kind <;> simp [NeededFile, hauth]
  | cert =>
    rw [hauth] at hcert
    obtain ⟨m, hm, rfl⟩ := map_ok.mp hcert
    rw [mem_materialFiles]
    cases kind <;> simp [NeededFile, hauth, hm]

theorem NeededFile.unique (h : NeededFile loadCert t content kind)
    (h' : NeededFile loadCert t content' kind) : content = content' := by
  cases kind with
  | conf => exact h.trans h'.symm
  | cert =>
    obtain ⟨-, m, hm, rfl⟩ := h
    obtain ⟨-, m', hm', rfl⟩ := h'
    rw [Except.ok.inj (hm.symm.trans hm')]
  | key =>
    obtain ⟨-, m, hm, rfl⟩ := h
    obtain ⟨-, m', hm', rfl⟩ := h'
    rw [Except.ok.inj (hm.symm.trans hm')]
  | chain =>
    obtain ⟨-, m, hm, he⟩ := h
    obtain ⟨-, m', hm', he'⟩ := h'
    rw [Except.ok.inj (hm.symm.trans hm')] at he
    exact Option.some.inj (he.symm.trans he')
  | ca => exact h.2.2.trans h'.2.2.symm

theorem tunnelFiles_unique (h : tunnelFiles loadCert t = .ok files) (hc : (kind, content) ∈ files)
    (hc' : (kind, content') ∈ files) : content = content' := by
  obtain hc | ⟨-, rfl, -, hc⟩ := (mem_tunnelFiles h).mp hc
  · obtain hc' | ⟨-, rfl, -, hc'⟩ := (mem_tunnelFiles h).mp hc'
    · exact hc.unique hc'
    · exact hc.2.2.trans hc'.symm
  · obtain hc' | ⟨-, -, -, hc'⟩ := (mem_tunnelFiles h).mp hc'
    · exact hc.trans hc'.2.2.symm
    · exact hc.trans hc'.symm

/-- Where a desired file comes from. -/
theorem lookup_desired {tunnels : List (IpsecTunnel DateTime)}
    (hids : Keyed IpsecTunnel.id tunnels) (h : desiredFiles loadCert tunnels = .ok desired) :
    desired.lookup path = some content ↔ ∃ t ∈ tunnels, t.enabled = true ∧
      ∃ files, tunnelFiles loadCert t = .ok files ∧
        ∃ kind, path = FileKind.path kind t.connName ∧ (kind, content) ∈ files := by
  obtain ⟨lists, hlists, hdesired⟩ := bind_ok.mp h
  cases hdesired
  have hmem : ∀ {e : List Char × List Char}, e ∈ lists.flatten ↔ ∃ t ∈ tunnels, t.enabled = true ∧
      ∃ files, tunnelFiles loadCert t = .ok files ∧
        ∃ kind, e.1 = FileKind.path kind t.connName ∧ (kind, e.2) ∈ files := by
    intro e
    rw [List.mem_flatten]
    constructor
    · rintro ⟨l, hl, he⟩
      obtain ⟨t, ht, hplaced⟩ := (mem_of_mapM hlists).mp hl
      obtain ⟨files, hfiles, rfl⟩ := map_ok.mp hplaced
      obtain ⟨f, hf, rfl⟩ := List.mem_map.mp he
      obtain ⟨ht, hon⟩ := List.mem_filter.mp ht
      exact ⟨t, ht, hon, _, hfiles, f.1, rfl, hf⟩
    · rintro ⟨t, ht, hon, files, hfiles, kind, hpath, hf⟩
      refine ⟨placed t files, (mem_of_mapM hlists).mpr ⟨t, List.mem_filter.mpr ⟨ht, hon⟩, ?_⟩, ?_⟩
      · exact map_ok.mpr ⟨files, hfiles, rfl⟩
      · exact List.mem_map.mpr ⟨_, hf, Prod.ext hpath.symm rfl⟩
  have hkeyed : Keyed Prod.fst lists.flatten := by
    intro e he e' he' hpath
    obtain ⟨t, ht, -, files, hfiles, kind, hkind, hf⟩ := hmem.mp he
    obtain ⟨t', ht', -, files', hfiles', kind', hkind', hf'⟩ := hmem.mp he'
    obtain ⟨rfl, hid⟩ := path_inj (hkind.symm.trans (hpath.trans hkind'))
    cases hids t ht t' ht' hid
    cases hfiles.symm.trans hfiles'
    exact Prod.ext hpath (tunnelFiles_unique hfiles hf hf')
  rw [KeyedMap.lookup_insertAll hkeyed, AList.lookup_empty]
  constructor
  · rintro (he | ⟨-, he⟩)
    · exact hmem.mp he
    · cases he
  · exact fun he => .inl (hmem.mpr he)

/-- The desired files are exactly the needed ones where no CA is kept for a tunnel that
authenticates with a key. -/
theorem mirrors_iff {tunnels : List (IpsecTunnel DateTime)} (hids : Keyed IpsecTunnel.id tunnels)
    (h : desiredFiles loadCert tunnels = .ok desired) (hsame : KeyedMap.Same files desired) :
    Mirrors loadCert tunnels files ↔ ∀ t ∈ tunnels, ¬t.SpareCa := by
  have hfiles : ∀ t ∈ tunnels, t.enabled = true → ∃ files, tunnelFiles loadCert t = .ok files := by
    intro t ht hon
    obtain ⟨lists, hlists, -⟩ := bind_ok.mp h
    obtain ⟨l, hl⟩ := exists_of_mapM hlists (List.mem_filter.mpr ⟨ht, hon⟩)
    obtain ⟨files, hfiles, -⟩ := map_ok.mp hl
    exact ⟨files, hfiles⟩
  constructor
  · rintro hm t ht ⟨hon, hauth, hca⟩
    obtain ⟨files', hf⟩ := hfiles t ht hon
    have hfile : desired.lookup (FileKind.path .ca t.connName) = some t.caCertPem :=
      (lookup_desired hids h).mpr ⟨t, ht, hon, files', hf, .ca, rfl,
        (mem_tunnelFiles hf).mpr (.inr ⟨hauth, rfl, hca, rfl⟩)⟩
    obtain ⟨t', ht', -, kind, hpath, hneed⟩ := (hm _ _).mp ((hsame _).trans hfile)
    obtain ⟨rfl, hid⟩ := path_inj hpath
    cases hids t ht t' ht' hid
    cases hauth.symm.trans hneed.1
  · intro hnone path content
    rw [hsame, lookup_desired hids h]
    constructor
    · rintro ⟨t, ht, hon, files', hf, kind, hpath, hmem⟩
      obtain hneed | ⟨hauth, -, hca, -⟩ := (mem_tunnelFiles hf).mp hmem
      · exact ⟨t, ht, hon, kind, hpath, hneed⟩
      · exact absurd ⟨hon, hauth, hca⟩ (hnone t ht)
    · rintro ⟨t, ht, hon, kind, hpath, hneed⟩
      obtain ⟨files', hf⟩ := hfiles t ht hon
      exact ⟨t, ht, hon, files', hf, kind, hpath, (mem_tunnelFiles hf).mpr (.inl hneed)⟩

end AiFw.Vpn
