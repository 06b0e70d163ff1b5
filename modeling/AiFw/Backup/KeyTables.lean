import AiFw.Backup.Survival

namespace AiFw.Backup
open AiFw.Lib
set_option autoImplicit true

def IsBool (v : List Char) : Prop := v = "true".toList ∨ v = "false".toList

def IsDecimal (bound : Nat) (v : List Char) : Prop := ∃ n < bound, v = natText n

def IsCsv (v : List Char) : Prop :=
  ∃ items, (∀ i ∈ items, i ≠ [] ∧ trim i = i ∧ ',' ∉ i) ∧ v = Vpn.joinComma items

/-- Empty where there is no value. -/
def IsBlankOr (form : List Char → Prop) (v : List Char) : Prop := v = [] ∨ form v

/-- The text that its float is written as, or that of 100 if it is none. -/
def IsFloat (fl : FloatText F) (v : List Char) : Prop :=
  fl.display ((fl.parse v).getD fl.hundred) = v

def IsOptFloat (fl : FloatText F) (v : List Char) : Prop :=
  ((fl.parse v).map fl.display).getD [] = v

def AnyText (_ : List Char) : Prop := True

/-- The keys of a table of the DHCP service, with the form of their values. -/
abbrev KeyForms := List (String × (List Char → Prop))

def globalForms (fl : FloatText F) : KeyForms :=
  [("enabled", IsBool),
    ("interfaces", IsCsv),
    ("authoritative", IsBool),
    ("default_lease_time", IsDecimal (2 ^ 32)),
    ("max_lease_time", IsDecimal (2 ^ 32)),
    ("dns_servers", IsCsv),
    ("domain_name", AnyText),
    ("domain_search", IsCsv),
    ("ntp_servers", IsCsv),
    ("wins_servers", IsCsv),
    ("next_server", AnyText),
    ("boot_filename", AnyText),
    ("log_level", AnyText),
    ("log_format", AnyText),
    ("api_port", IsDecimal (2 ^ 16)),
    ("workers", IsDecimal (2 ^ 32)),
    ("accept_relayed", IsBool),
    ("relay_rate_limit_burst", IsDecimal (2 ^ 32)),
    ("relay_rate_limit_pps", IsFloat fl)]

def ddnsForms : KeyForms :=
  [("enabled", IsBool),
    ("forward_zone", AnyText),
    ("reverse_zone_v4", AnyText),
    ("reverse_zone_v6", AnyText),
    ("dns_server", AnyText),
    ("tsig_key", AnyText),
    ("tsig_algorithm", AnyText),
    ("tsig_secret", AnyText),
    ("ttl", IsDecimal (2 ^ 32))]

def dhcpHaForms (fl : FloatText F) : KeyForms :=
  [("mode", AnyText),
    ("peer", AnyText),
    ("listen", AnyText),
    ("scope_split", IsOptFloat fl),
    ("mclt", IsBlankOr (IsDecimal (2 ^ 32))),
    ("partner_down_delay", IsBlankOr (IsDecimal (2 ^ 32))),
    ("node_id", IsBlankOr (IsDecimal (2 ^ 64))),
    ("peers", IsCsv),
    ("tls_cert", AnyText),
    ("tls_key", AnyText),
    ("tls_ca", AnyText)]

/-- The table has a row for each of the keys, with a value of its form, and no other rows. -/
structure KeyValues.Formed (forms : KeyForms) (t : KeyValues) : Prop where
  keys : ∀ key v, t key = some v → ∃ f ∈ forms, key = f.1.toList
  values : ∀ f ∈ forms, ∃ v, t f.1.toList = some v ∧ f.2 v

/-- A row is kept exactly if its value has the form. -/
def KeyValues.Keeps (t : KeyValues) (e : String × List Char) (f : String × (List Char → Prop)) :
    Prop :=
  e.1 = f.1 ∧ (t e.1.toList = some e.2 ↔ ∃ v, t e.1.toList = some v ∧ f.2 v)

variable {t : KeyValues} {rows : List (String × List Char)} {forms : KeyForms}

/-- The rows that are written are those of the table exactly if it has the keys and forms. -/
theorem setAll_formed_iff (hkeys : (rows.map Prod.fst).Nodup)
    (h : List.Forall₂ t.Keeps rows forms) : KeyValues.empty.setAll rows = t ↔ t.Formed forms := by
  constructor
  · intro heq
    constructor
    · intro key v hrow
      by_cases hwritten : ∃ e ∈ rows, key = e.1.toList
      · obtain ⟨e, he, rfl⟩ := hwritten
        obtain ⟨f, hf, hsame, -⟩ := exists_right_of_mem h he
        exact ⟨f, hf, congrArg String.toList hsame⟩
      · rw [← heq, KeyValues.setAll_other] at hrow
        · cases hrow
        · intro e he hsame
          exact hwritten ⟨e, he, hsame⟩
    · intro f hf
      obtain ⟨e, he, hsame, hkept⟩ := exists_left_of_mem h hf
      have hrow : t e.1.toList = some e.2 := by
        rw [← heq]
        exact KeyValues.setAll_of_mem hkeys he
      rw [← hsame]
      exact hkept.mp hrow
  · intro hformed
    funext key
    by_cases hwritten : ∃ e ∈ rows, key = e.1.toList
    · obtain ⟨e, he, rfl⟩ := hwritten
      obtain ⟨f, hf, hsame, hkept⟩ := exists_right_of_mem h he
      obtain ⟨v, hrow, hform⟩ := hformed.values f hf
      rw [← hsame] at hrow
      rw [KeyValues.setAll_of_mem hkeys he, hkept.mpr ⟨v, hrow, hform⟩]
    · have hnone : t key = none := by
        cases hrow : t key with
        | none => rfl
        | some v =>
          obtain ⟨f, hf, rfl⟩ := hformed.keys key v hrow
          obtain ⟨e, he, hsame, -⟩ := exists_left_of_mem h hf
          exact absurd ⟨e, he, congrArg String.toList hsame.symm⟩ hwritten
      rw [hnone, KeyValues.setAll_other]
      · rfl
      · intro e he hsame
        exact hwritten ⟨e, he, hsame⟩

/-- A value that is read and written again has its row back exactly if it has the form. -/
theorem keeps_read (key : String) (d : α) {value : List Char → α} (write : α → List Char)
    {form : List Char → Prop} (h : ∀ v, write (value v) = v ↔ form v) :
    t.Keeps (key, write (t.read key d value)) (key, form) := by
  refine ⟨rfl, ?_⟩
  unfold KeyValues.read
  cases t key.toList with
  | none =>
    constructor
    · intro hrow
      cases hrow
    · rintro ⟨v, hrow, -⟩
      cases hrow
  | some text =>
    constructor
    · intro hrow
      exact ⟨text, rfl, (h text).mp (Option.some.inj hrow).symm⟩
    · rintro ⟨v, hrow, hform⟩
      cases hrow
      exact congrArg some ((h text).mpr hform).symm

theorem keeps_bool (key : String) (d : Bool) :
    t.Keeps (key, boolText (t.read key d isTrue)) (key, IsBool) := by
  apply keeps_read key d boolText
  intro v
  unfold isTrue IsBool boolText
  by_cases htrue : v = "true".toList
  · rw [htrue]
    exact ⟨fun _ => .inl rfl, fun _ => rfl⟩
  · rw [beq_eq_false_iff_ne.mpr htrue, or_iff_right htrue]
    exact eq_comm

theorem joinComma_splitCsv_iff {v : List Char} : Vpn.joinComma (Vpn.splitCsv v) = v ↔ IsCsv v := by
  constructor
  · intro h
    refine ⟨Vpn.splitCsv v, ?_, h.symm⟩
    intro i hi
    obtain ⟨hi, hne⟩ := List.mem_filter.mp hi
    obtain ⟨p, hp, rfl⟩ := List.mem_map.mp hi
    exact ⟨of_decide_eq_true hne, trim_trim p,
      fun hcomma => notMem_of_mem_splitOn hp (mem_of_mem_trim hcomma)⟩
  · rintro ⟨items, hitems, rfl⟩
    by_cases hnil : items = []
    · rw [hnil]
      rfl
    · have htrim : items.map trim = items :=
        (List.map_congr_left fun i hi => (hitems i hi).2.1).trans (List.map_id items)
      have hkept : items.filter (fun p => p ≠ []) = items :=
        List.filter_eq_self.mpr fun i hi => decide_eq_true (hitems i hi).1
      unfold Vpn.splitCsv Vpn.joinComma
      rw [splitOn_intercalate (fun i hi => (hitems i hi).2.2) hnil, htrim, hkept]

theorem keeps_csv (key : String) (d : List (List Char)) :
    t.Keeps (key, Vpn.joinComma (t.read key d Vpn.splitCsv)) (key, IsCsv) :=
  keeps_read key d Vpn.joinComma fun _ => joinComma_splitCsv_iff

theorem keeps_text (key : String) (d : List Char) :
    t.Keeps (key, t.read key d id) (key, AnyText) :=
  keeps_read key d id fun _ => iff_of_true rfl trivial

theorem getD_nonempty (v : List Char) : (nonempty v).getD [] = v := by
  unfold nonempty
  by_cases hnil : v = []
  · rw [if_pos hnil, hnil]
    rfl
  · rw [if_neg hnil]
    rfl

theorem keeps_optText (key : String) :
    t.Keeps (key, (t.read key none nonempty).getD []) (key, AnyText) :=
  keeps_read key none (fun v : Option (List Char) => v.getD [])
    fun v => iff_of_true (getD_nonempty v) trivial

theorem keeps_peers (key : String) :
    t.Keeps (key, ((t.read key none fun v => (nonempty v).map fun _ => Vpn.splitCsv v).map
      Vpn.joinComma).getD []) (key, IsCsv) := by
  apply keeps_read key none fun peers : Option (List (List Char)) =>
    (peers.map Vpn.joinComma).getD []
  intro v
  rw [← joinComma_splitCsv_iff]
  unfold nonempty
  by_cases hnil : v = []
  · rw [if_pos hnil, hnil]
    exact Iff.rfl
  · rw [if_neg hnil]
    exact Iff.rfl

theorem parse_natText (h : n < bound) : parseUnsigned bound (natText n) = some n :=
  parseUnsigned_toDigits h

section
variable {bound : Nat} {cast : Nat → α} {toNat : α → Nat}

/-- A number that is read with a bound is written as it was exactly if it was written so. -/
theorem natText_parse_iff (hcast : ∀ n < bound, toNat (cast n) = n) (hlt : ∀ x, toNat x < bound)
    (d : α) (v : List Char) :
    natText (toNat (((parseUnsigned bound v).map cast).getD d)) = v ↔ IsDecimal bound v := by
  constructor
  · intro h
    exact ⟨_, hlt _, h.symm⟩
  · rintro ⟨n, hn, rfl⟩
    rw [parse_natText hn]
    exact congrArg natText (hcast n hn)

theorem natText_optParse_iff (hcast : ∀ n < bound, toNat (cast n) = n) (hlt : ∀ x, toNat x < bound)
    (v : List Char) :
    ((((parseUnsigned bound v).map cast).map fun x => natText (toNat x)).getD []) = v ↔
      IsBlankOr (IsDecimal bound) v := by
  constructor
  · intro h
    cases hparse : parseUnsigned bound v with
    | none =>
      rw [hparse] at h
      exact .inl h.symm
    | some n =>
      rw [hparse] at h
      exact .inr ⟨_, hlt _, h.symm⟩
  · rintro (rfl | ⟨n, hn, rfl⟩)
    · rfl
    · rw [parse_natText hn]
      exact congrArg natText (hcast n hn)

end

theorem toNat_ofNat_32 : ∀ n < 2 ^ 32, (UInt32.ofNat n).toNat = n :=
  fun _ hn => UInt32.toNat_ofNat_of_lt' hn

theorem keeps_u32 (key : String) (d d' : UInt32) :
    t.Keeps (key, natText (t.read key d fun v => (readU32 v).getD d').toNat)
      (key, IsDecimal (2 ^ 32)) :=
  keeps_read key d (fun n : UInt32 => natText n.toNat)
    (natText_parse_iff toNat_ofNat_32 UInt32.toNat_lt d')

theorem keeps_u16 (key : String) (d d' : UInt16) :
    t.Keeps (key, natText (t.read key d fun v =>
      ((parseUnsigned (2 ^ 16) v).map UInt16.ofNat).getD d').toNat) (key, IsDecimal (2 ^ 16)) :=
  keeps_read key d (fun n : UInt16 => natText n.toNat)
    (natText_parse_iff (fun _ hn => UInt16.toNat_ofNat_of_lt' hn) UInt16.toNat_lt d')

theorem keeps_optU32 (key : String) :
    t.Keeps (key, ((t.read key none readU32).map fun v => natText v.toNat).getD [])
      (key, IsBlankOr (IsDecimal (2 ^ 32))) :=
  keeps_read key none (fun n : Option UInt32 => (n.map fun v => natText v.toNat).getD [])
    (natText_optParse_iff toNat_ofNat_32 UInt32.toNat_lt)

theorem keeps_optU64 (key : String) :
    t.Keeps (key, ((t.read key none fun v => (parseUnsigned (2 ^ 64) v).map UInt64.ofNat).map
      fun v => natText v.toNat).getD []) (key, IsBlankOr (IsDecimal (2 ^ 64))) :=
  keeps_read key none (fun n : Option UInt64 => (n.map fun v => natText v.toNat).getD [])
    (natText_optParse_iff (fun _ hn => UInt64.toNat_ofNat_of_lt' hn) UInt64.toNat_lt)

theorem keeps_float (fl : FloatText F) (key : String) :
    t.Keeps (key, fl.display (t.read key fl.hundred fun v => (fl.parse v).getD fl.hundred))
      (key, IsFloat fl) :=
  keeps_read key fl.hundred fl.display fun _ => Iff.rfl

theorem keeps_optFloat (fl : FloatText F) (key : String) :
    t.Keeps (key, ((t.read key none fl.parse).map fl.display).getD []) (key, IsOptFloat fl) :=
  keeps_read key none (fun x : Option F => (x.map fl.display).getD []) fun _ => Iff.rfl

theorem globalRows_keeps (fl : FloatText F) (t : KeyValues) :
    List.Forall₂ t.Keeps (globalRows fl (readGlobal fl t)) (globalForms fl) := by
  apply List.Forall₂.cons (keeps_bool ..)
  apply List.Forall₂.cons (keeps_csv ..)
  apply List.Forall₂.cons (keeps_bool ..)
  apply List.Forall₂.cons (keeps_u32 ..)
  apply List.Forall₂.cons (keeps_u32 ..)
  apply List.Forall₂.cons (keeps_csv ..)
  apply List.Forall₂.cons (keeps_text ..)
  apply List.Forall₂.cons (keeps_csv ..)
  apply List.Forall₂.cons (keeps_csv ..)
  apply List.Forall₂.cons (keeps_csv ..)
  apply List.Forall₂.cons (keeps_optText ..)
  apply List.Forall₂.cons (keeps_optText ..)
  apply List.Forall₂.cons (keeps_text ..)
  apply List.Forall₂.cons (keeps_text ..)
  apply List.Forall₂.cons (keeps_u16 ..)
  apply List.Forall₂.cons (keeps_u32 ..)
  apply List.Forall₂.cons (keeps_bool ..)
  apply List.Forall₂.cons (keeps_u32 ..)
  apply List.Forall₂.cons (keeps_float ..)
  exact .nil

theorem ddnsRows_keeps (t : KeyValues) :
    List.Forall₂ t.Keeps (ddnsRows (readDdns t)) ddnsForms := by
  apply List.Forall₂.cons (keeps_bool ..)
  apply List.Forall₂.cons (keeps_text ..)
  apply List.Forall₂.cons (keeps_text ..)
  apply List.Forall₂.cons (keeps_text ..)
  apply List.Forall₂.cons (keeps_text ..)
  apply List.Forall₂.cons (keeps_text ..)
  apply List.Forall₂.cons (keeps_text ..)
  apply List.Forall₂.cons (keeps_text ..)
  apply List.Forall₂.cons (keeps_u32 ..)
  exact .nil

theorem dhcpHaRows_keeps (fl : FloatText F) (t : KeyValues) :
    List.Forall₂ t.Keeps (dhcpHaRows fl (readDhcpHa fl t)) (dhcpHaForms fl) := by
  apply List.Forall₂.cons (keeps_text ..)
  apply List.Forall₂.cons (keeps_optText ..)
  apply List.Forall₂.cons (keeps_optText ..)
  apply List.Forall₂.cons (keeps_optFloat ..)
  apply List.Forall₂.cons (keeps_optU32 ..)
  apply List.Forall₂.cons (keeps_optU32 ..)
  apply List.Forall₂.cons (keeps_optU64 ..)
  apply List.Forall₂.cons (keeps_peers ..)
  apply List.Forall₂.cons (keeps_optText ..)
  apply List.Forall₂.cons (keeps_optText ..)
  apply List.Forall₂.cons (keeps_optText ..)
  exact .nil

/-- The settings of the DHCP service are restored exactly if their tables have just the keys that a
restore writes, with values of their forms. -/
theorem restoredGlobal_iff (fl : FloatText F) (t : KeyValues) :
    KeyValues.empty.setAll (globalRows fl (readGlobal fl t)) = t ↔ t.Formed (globalForms fl) := by
  apply setAll_formed_iff _ (globalRows_keeps fl t)
  change ["enabled", "interfaces", "authoritative", "default_lease_time", "max_lease_time",
    "dns_servers", "domain_name", "domain_search", "ntp_servers", "wins_servers", "next_server",
    "boot_filename", "log_level", "log_format", "api_port", "workers", "accept_relayed",
    "relay_rate_limit_burst", "relay_rate_limit_pps"].Nodup
  decide

theorem restoredDdns_iff (t : KeyValues) :
    KeyValues.empty.setAll (ddnsRows (readDdns t)) = t ↔ t.Formed ddnsForms := by
  apply setAll_formed_iff _ (ddnsRows_keeps t)
  change (ddnsForms.map Prod.fst).Nodup
  decide

theorem restoredDhcpHa_iff (fl : FloatText F) (t : KeyValues) :
    KeyValues.empty.setAll (dhcpHaRows fl (readDhcpHa fl t)) = t ↔ t.Formed (dhcpHaForms fl) := by
  apply setAll_formed_iff _ (dhcpHaRows_keeps fl t)
  change ["mode", "peer", "listen", "scope_split", "mclt", "partner_down_delay", "node_id", "peers",
    "tls_cert", "tls_key", "tls_ca"].Nodup
  decide

end AiFw.Backup
