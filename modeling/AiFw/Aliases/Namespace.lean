import AiFw.Aliases.Engine
import Mathlib.Data.Set.Basic

namespace AiFw.Aliases
open AiFw.Lib AiFw.Net AiFw.Wan
set_option autoImplicit true

/-- A country code, as it is let through when it is made: two letters in upper case. -/
structure CountryCode where
  code : List Char
  letters : code.length = 2 ∧ ∀ c ∈ code, c.isUpper = true

structure GeoIpRule where
  country : CountryCode

def GeoIpRule.tableName (r : GeoIpRule) : List Char :=
  "geoip_".toList ++ Pf.lower r.country.code

/-- The table belongs to a rule of the GeoIP engine. -/
def GeoTable (rules : Set GeoIpRule) (n : List Char) : Prop := ∃ r ∈ rules, r.tableName = n

def Protected (rules : Set GeoIpRule) (n : List Char) : Prop :=
  GeoTable rules n ∨ n ∈ reservedNames

theorem not_reserved (h : validateName n = .ok ()) : n ∉ reservedNames := by
  unfold validateName at h
  split at h
  · cases h
  · split at h
    · cases h
    · split at h
      · cases h
      · next hfree => exact fun hmem => hfree (List.contains_iff_mem.mpr hmem)

theorem protected_iff (rules : Set GeoIpRule) (h : validateName n = .ok ()) :
    Protected rules n ↔ GeoTable rules n := or_iff_left (not_reserved h)

theorem syncToPf_table (h : p ∈ syncToPf fetch a) : p.table = a.name := by
  obtain ⟨addr, -, rfl⟩ := List.mem_map.mp h
  rfl

theorem syncIfEnabled_table (h : p ∈ syncIfEnabled fetch a) : p.table = a.name := by
  unfold syncIfEnabled at h
  split at h
  · exact syncToPf_table h
  · cases h

theorem syncIfEnabled_ne_nil : syncIfEnabled fetch a ≠ [] ↔
    a.enabled = true ∧ a.addresses fetch ≠ [] := by
  unfold syncIfEnabled
  split
  · next hon => rw [syncToPf, ne_eq, List.map_eq_nil_iff, and_iff_right hon]
  · next hoff => exact iff_of_false (fun h => h rfl) fun h => hoff h.1

theorem resync_table (h : p ∈ resync fetch a) : p.table = a.name := by
  unfold resync at h
  split at h
  · obtain rfl | h := List.mem_cons.mp h
    · rfl
    · exact syncToPf_table h
  · cases h

theorem resync_ne_nil : resync fetch a ≠ [] ↔ a.enabled = true := by
  unfold resync
  split
  · next hon => exact iff_of_true (List.cons_ne_nil _ _) hon
  · next hoff => exact iff_of_false (fun h => h rfl) hoff

/-- Operations on the table of a valid name spare those of other engines exactly if there are none
or it is not the name of a GeoIP table. -/
theorem spares_iff_of_table {ops : List PfOp} (rules : Set GeoIpRule)
    (hname : validateName n = .ok ()) (htable : ∀ p ∈ ops, p.table = n) :
    (∀ p ∈ ops, ¬Protected rules p.table) ↔ (ops ≠ [] → ¬GeoTable rules n) := by
  constructor
  · intro hs hne hgeo
    obtain ⟨p, hp⟩ := List.exists_mem_of_ne_nil ops hne
    apply hs p hp
    rw [htable p hp]
    exact .inl hgeo
  · intro hn p hp hprot
    rw [htable p hp, protected_iff rules hname] at hprot
    exact hn (List.ne_nil_of_mem hp) hprot

namespace AliasEngine

/-- The call neither flushes nor fills a table of another engine. -/
def SparesTables (rules : Set GeoIpRule) (s : AliasEngine) (op : Op) : Prop :=
  ∀ p ∈ (s.call op).2, ¬Protected rules p.table

/-- The alias that the call loads, flushes or loads again has no name of a GeoIP table. -/
def SparesNames (rules : Set GeoIpRule) (s : AliasEngine) : Op → Prop
  | .add fetch a => Inserts s.rows a → a.enabled = true → a.addresses fetch ≠ [] →
      ¬GeoTable rules a.name
  | .update _ _ a => Updates s.rows a → ¬GeoTable rules a.name
  | .delete id => ∀ a ∈ s.rows, a.id = id → ¬GeoTable rules a.name
  | .syncAll _ => ∀ a ∈ s.rows, a.enabled = true → ¬GeoTable rules a.name

structure Named (s : AliasEngine) : Prop where
  ids : Keyed Alias.id s.rows
  valid : ∀ a ∈ s.rows, validateName a.name = .ok ()

theorem empty_named : empty.Named where
  ids := .nil
  valid := by
    intro a ha
    cases ha

theorem Named.step (h : Named s) (op : Op) : Named (s.step op) := by
  cases op with
  | add fetch a =>
    obtain ⟨hin, hadd⟩ | ⟨-, e, hadd⟩ := add_cases fetch s.rows a
    · have hrows : (s.step (.add fetch a)).rows = s.rows ++ [a] := congrArg Prod.fst hadd
      constructor
      · rw [hrows]
        exact h.ids.append_row hin.2.1
      · rw [hrows]
        intro r hr
        obtain hr | hr := List.mem_append.mp hr
        · exact h.valid r hr
        · rw [List.mem_singleton.mp hr]
          exact hin.1
    · have hrows : (s.step (.add fetch a)).rows = s.rows := congrArg Prod.fst hadd
      exact ⟨hrows ▸ h.ids, hrows ▸ h.valid⟩
  | update fetch now a =>
    obtain ⟨hup, hupdate⟩ | ⟨-, e, hupdate⟩ := update_cases fetch now s.rows a
    · have hrows : (s.step (.update fetch now a)).rows = s.rows.map (updateRow now a) :=
        congrArg Prod.fst hupdate
      constructor
      · rw [hrows]
        exact update_ids h.ids now a
      · rw [hrows]
        intro r hr
        obtain ⟨b, hb, rfl⟩ := List.mem_map.mp hr
        unfold updateRow
        split
        · exact hup.1
        · exact h.valid b hb
    · have hrows : (s.step (.update fetch now a)).rows = s.rows := congrArg Prod.fst hupdate
      exact ⟨hrows ▸ h.ids, hrows ▸ h.valid⟩
  | delete id =>
    obtain ⟨a, -, -, hdel⟩ | ⟨-, e, hdel⟩ := delete_cases s.rows id
    · have hrows : (s.step (.delete id)).rows = dropKey Alias.id id s.rows :=
        congrArg Prod.fst hdel
      have hsub : ∀ r ∈ (s.step (.delete id)).rows, r ∈ s.rows := by
        intro r hr
        rw [hrows] at hr
        exact (mem_dropKey.mp hr).1
      exact ⟨h.ids.sublist hsub, fun r hr => h.valid r (hsub r hr)⟩
    · have hrows : (s.step (.delete id)).rows = s.rows := congrArg Prod.fst hdel
      exact ⟨hrows ▸ h.ids, hrows ▸ h.valid⟩
  | syncAll fetch => exact ⟨h.ids, h.valid⟩

theorem sparesTables_nil {s : AliasEngine} (h : s.call op = (s.rows, [])) :
    SparesTables rules s op := by
  intro p hp
  rw [h] at hp
  cases hp

theorem Named.spares_iff (h : Named s) (rules : Set GeoIpRule) (op : Op) :
    SparesTables rules s op ↔ SparesNames rules s op := by
  cases op with
  | add fetch a =>
    obtain ⟨hin, hadd⟩ | ⟨hin, e, hadd⟩ := add_cases fetch s.rows a
    · have hops : (s.call (.add fetch a)).2 = syncIfEnabled fetch a := by rw [call, hadd]
      rw [SparesTables, hops, spares_iff_of_table rules hin.1 fun _ => syncIfEnabled_table,
        syncIfEnabled_ne_nil]
      constructor
      · exact fun hs _ hon hload => hs ⟨hon, hload⟩
      · exact fun hn hne => hn hin hne.1 hne.2
    · exact iff_of_true (sparesTables_nil (by rw [call, hadd])) fun hin' => absurd hin' hin
  | update fetch now a =>
    obtain ⟨hup, hupdate⟩ | ⟨hup, e, hupdate⟩ := update_cases fetch now s.rows a
    · have hops : (s.call (.update fetch now a)).2 =
          .flushTable a.name :: syncIfEnabled fetch a := by rw [call, hupdate]
      have htable : ∀ p ∈ PfOp.flushTable a.name :: syncIfEnabled fetch a, p.table = a.name :=
        List.forall_mem_cons.mpr ⟨rfl, fun _ => syncIfEnabled_table⟩
      rw [SparesTables, hops, spares_iff_of_table rules hup.1 htable]
      constructor
      · exact fun hs _ => hs (List.cons_ne_nil _ _)
      · exact fun hn _ => hn hup
    · exact iff_of_true (sparesTables_nil (by rw [call, hupdate])) fun hup' => absurd hup' hup
  | delete id =>
    obtain ⟨a, ha, rfl, hdel⟩ | ⟨hnone, e, hdel⟩ := delete_cases s.rows id
    · have hops : (s.call (.delete a.id)).2 = [.flushTable a.name] := by rw [call, hdel]
      have htable : ∀ p ∈ [PfOp.flushTable a.name], p.table = a.name :=
        List.forall_mem_singleton.mpr rfl
      rw [SparesTables, hops, spares_iff_of_table rules (h.valid a ha) htable]
      constructor
      · intro hs r hr hid
        rw [h.ids r hr a ha hid]
        exact hs (List.cons_ne_nil _ _)
      · exact fun hn _ => hn a ha rfl
    · refine iff_of_true (sparesTables_nil (by rw [call, hdel])) ?_
      intro r hr hid
      exact absurd hid (hnone r hr)
  | syncAll fetch =>
    have hops : (s.call (.syncAll fetch)).2 = (list s.rows).flatMap (resync fetch) := rfl
    rw [SparesTables, hops, List.forall_mem_flatMap]
    apply forall_congr'
    intro a
    rw [mem_list]
    apply forall_congr'
    intro ha
    rw [spares_iff_of_table rules (h.valid a ha) fun _ => resync_table, resync_ne_nil]

/-- The calls of a run keep to the tables of aliases, exactly if none is about an alias that has
the name of a GeoIP table; the reserved names are kept out by the validation. -/
theorem calls_spare_iff (rules : Set GeoIpRule) (ops : List Op) :
    Along AliasEngine.step (SparesTables rules) empty ops ↔
      Along AliasEngine.step (SparesNames rules) empty ops :=
  Along.congr Named (fun _ op h _ => h.step op) (fun _ op h => h.spares_iff rules op) empty_named ops

def usRule : GeoIpRule := ⟨"US".toList, by simp⟩

def usAlias : Alias where
  id := 1
  name := "geoip_us".toList
  aliasType := .host
  entries := ["192.0.2.1".toList]
  description := none
  enabled := true
  createdAt := "t".toList
  updatedAt := "t".toList

/-- The validation lets an alias through that has the name of the table of a country. -/
theorem alias_fills_geoip_table :
    ¬∀ (rules : Set GeoIpRule) (ops : List Op),
      Along AliasEngine.step (SparesTables rules) empty ops := by
  intro h
  obtain ⟨hspares, -⟩ := h {usRule} [.add (fun _ => none) usAlias]
  have hfills : PfOp.addTableEntry "geoip_us".toList (.v4 0xC0000201) ∈
      (empty.call (.add (fun _ => none) usAlias)).2 := by decide +kernel
  have hname : usRule.tableName = "geoip_us".toList := by decide
  exact hspares _ hfills (.inl ⟨usRule, rfl, hname⟩)

end AliasEngine

end AiFw.Aliases
