import AiFw.Geo.Coverage
import AiFw.Lib.KeyedMap
import AiFw.Lib.TextSearch

namespace AiFw.Geo
open AiFw.Lib AiFw.Net

set_option autoImplicit true

def stripCr (line : List Char) : List Char :=
  if line.getLast? = some '\r' then line.dropLast else line

/-- `str::lines`: a carriage return goes with the line feed after it, and an empty piece after the
last line feed is no line. -/
def lines (content : List Char) : List (List Char) :=
  let parts := splitOn '\n' content
  parts.dropLast.map stripCr ++ (parts.getLast?.toList.filter (· ≠ []))

theorem stripCr_of_notMem (h : '\r' ∉ line) : stripCr line = line :=
  if_neg fun hlast => h (List.mem_of_getLast? hlast)

theorem lines_append_cons (a b : List Char) :
    lines (a ++ '\n' :: b) = (splitOn '\n' a).map stripCr ++ lines b := by
  have hne := splitOn_ne_nil '\n' b
  unfold lines
  rw [splitOn_append_cons]
  dsimp only
  rw [List.dropLast_append_of_ne_nil hne, List.getLast?_append_of_ne_nil _ hne, List.map_append,
    List.append_assoc]

theorem lines_ended {ls : List (List Char)} (h : ∀ l ∈ ls, '\n' ∉ l ∧ '\r' ∉ l) :
    lines (ls.flatMap fun l => l ++ ['\n']) = ls := by
  induction ls with
  | nil => rfl
  | cons l ls ih =>
    rw [List.forall_mem_cons] at h
    rw [List.flatMap_cons, List.append_assoc, List.singleton_append, lines_append_cons,
      splitOn_of_notMem h.1.1, List.map_singleton, stripCr_of_notMem h.1.2, ih h.2]
    rfl

theorem notMem_lines (h : l ∈ lines content) : '\n' ∉ l := by
  rcases List.mem_append.mp h with hmap | hlast
  · obtain ⟨part, hpart, rfl⟩ := List.mem_map.mp hmap
    have hnotMem : '\n' ∉ part := notMem_of_mem_splitOn (List.mem_of_mem_dropLast hpart)
    unfold stripCr
    split
    · exact fun hmem => hnotMem (List.mem_of_mem_dropLast hmem)
    · exact hnotMem
  · have hpart := List.mem_of_mem_filter hlast
    exact notMem_of_mem_splitOn (List.mem_of_getLast? (Option.mem_toList.mp hpart))

theorem trim_stripCr (line : List Char) : trim (stripCr line) = trim line := by
  unfold stripCr
  split
  · next hlast =>
    obtain ⟨front, rfl⟩ := List.getLast?_eq_some_iff.mp hlast
    rw [List.dropLast_concat]
    exact (trim_append_blanks (List.forall_mem_singleton.mpr (by decide)) front).symm
  · rfl

/-- What the lines of a text are read to, if blanks around them have no part in it. -/
theorem filterMap_lines {f : List Char → Option β} (hf : ∀ a b, trim a = trim b → f a = f b)
    (hnil : f [] = none) (s : List Char) :
    (lines s).filterMap f = (splitOn '\n' s).filterMap f := by
  have hparts := splitOn_ne_nil '\n' s
  have hmap : ∀ parts : List (List Char), (parts.map stripCr).filterMap f = parts.filterMap f := by
    intro parts
    rw [List.filterMap_map]
    exact List.filterMap_congr fun line _ => hf _ _ (trim_stripCr line)
  have hlast : (((splitOn '\n' s).getLast?.toList).filter (· ≠ [])).filterMap f =
      [(splitOn '\n' s).getLast hparts].filterMap f := by
    rw [List.getLast?_eq_some_getLast hparts, Option.toList_some]
    cases (splitOn '\n' s).getLast hparts with
    | nil => exact (List.filterMap_cons_none hnil).symm
    | cons c line => rfl
  rw [lines, List.filterMap_append, hmap, hlast, ← List.filterMap_append,
    List.dropLast_append_getLast]

/-- A line of the blocks file, or `none` where the loop goes on to the next. -/
def parseBlockLine (line : List Char) : Option (Cidr × Nat) := do
  let fields := splitOn ',' line
  let networkStr ← fields[0]?
  let geonameStr ← fields[1]?
  guard (trim geonameStr ≠ [])
  let geonameId ← parseUnsigned (2 ^ 32) (trim geonameStr)
  let (ipStr, prefixStr) ← splitOnce '/' (trim networkStr)
  let addr ← IpAddr.parse ipStr
  let len ← parseUnsigned 256 prefixStr
  return (⟨addr, UInt8.ofNat len⟩, geonameId)

def parseGeolite2BlocksCsv (content : List Char) : List (Cidr × Nat) :=
  ((lines content).drop 1).filterMap parseBlockLine

def utf8Len (s : List Char) : Nat := (s.map Char.utf8Size).sum

def parseLocationLine (line : List Char) : Option (Nat × List Char) := do
  let fields := splitOn ',' line
  let idStr ← fields[0]?
  let codeStr ← fields[4]?
  let geonameId ← parseUnsigned (2 ^ 32) (trim idStr)
  guard (utf8Len (trim codeStr) = 2)
  return (geonameId, trim codeStr)

/-- A later line for the same id overwrites an earlier one. -/
def parseGeolite2LocationsCsv (content : List Char) : KeyedMap Nat (List Char) :=
  (((lines content).drop 1).filterMap parseLocationLine).foldl (fun m row => m.insert row.1 row.2) ∅

/-- `entry(country).or_default().push(..)` for a row whose id has a country. -/
def addBlock (locations : KeyedMap Nat (List Char)) (m : KeyedMap (List Char) (List Cidr))
    (row : Cidr × Nat) : KeyedMap (List Char) (List Cidr) :=
  match locations.lookup row.2 with
  | some country => m.insert country ((m.lookup country).getD [] ++ [row.1])
  | none => m

def countryCidrs (blocksCsv locationsCsv : List Char) : KeyedMap (List Char) (List Cidr) :=
  (parseGeolite2BlocksCsv blocksCsv).foldl (addBlock (parseGeolite2LocationsCsv locationsCsv)) ∅

def aggregateEntry (e : Entry (List Char) (List Cidr)) : Entry (List Char) (List Cidr) :=
  ⟨e.1, aggregateCidrs e.2⟩

theorem nodupKeys_map_aggregateEntry (m : KeyedMap (List Char) (List Cidr)) :
    (m.entries.map aggregateEntry).NodupKeys := by
  have hkeys : (m.entries.map aggregateEntry).keys = m.entries.keys := by
    simp only [List.keys, List.map_map]
    rfl
  unfold List.NodupKeys
  rw [hkeys]
  exact m.nodupKeys

/-- `values_mut` with `aggregate_cidrs`. -/
def aggregateValues (m : KeyedMap (List Char) (List Cidr)) : KeyedMap (List Char) (List Cidr) :=
  ⟨m.entries.map aggregateEntry, nodupKeys_map_aggregateEntry m⟩

/-- In-range prefix and no host bits: what `Ipv4Network::new` and `Ipv6Network::new` accept. -/
def Cidr.WellFormed (e : Cidr) : Prop :=
  e.InRange ∧ e.ip.toNat % 2 ^ (e.ip.width - e.prefixLen.toNat) = 0

instance (e : Cidr) : Decidable e.WellFormed := inferInstanceAs (Decidable (_ ∧ _))

abbrev IpNetwork := {e : Cidr // e.WellFormed}

def buildIpNetwork (e : Cidr) : Option IpNetwork :=
  if h : e.WellFormed then some ⟨e, h⟩ else none

/-- The `IpNetworkTable` of the `ip_network_table` crate: its operations. -/
structure NetworkTable (V : Type) where
  Table : Type
  new : Table
  insert : Table → IpNetwork → V → Table
  longestMatch : Table → IpAddr → Option (IpNetwork × V)

/-- Its documented behaviour: an insert replaces the value of its network, and a lookup gives the
longest of the stored networks that hold the address. -/
structure NetworkTable.Lawful (T : NetworkTable V) where
  content : T.Table → IpNetwork → Option V
  content_new : ∀ n, content T.new n = none
  content_insert : ∀ t n v m, content (T.insert t n v) m = if m = n then some v else content t m
  longestMatch_some : ∀ t addr n v, T.longestMatch t addr = some (n, v) →
    content t n = some v ∧ n.val.Holds addr ∧
      ∀ m, (content t m).isSome = true → m.val.Holds addr → m.val.prefixLen ≤ n.val.prefixLen
  longestMatch_none : ∀ t addr, T.longestMatch t addr = none →
    ∀ m, (content t m).isSome = true → ¬ m.val.Holds addr

def insertCidrs (T : NetworkTable (List Char)) (country : List Char) (t : T.Table) (cidrs : List Cidr) :
    T.Table :=
  cidrs.foldl (fun t e =>
    match buildIpNetwork e with
    | some net => T.insert t net country
    | none => t) t

structure GeoIpIndex (T : NetworkTable (List Char)) where
  lookupTable : T.Table
  byCountry : KeyedMap (List Char) (List Cidr)

/-- `load_database`, with the order in which the map hands out its countries. -/
def loadDatabase (T : NetworkTable (List Char)) (order : IterOrder (List Char) (List Cidr))
    (blocksCsv locationsCsv : List Char) : GeoIpIndex T :=
  let byCountry := aggregateValues (countryCidrs blocksCsv locationsCsv)
  ⟨(order.order byCountry.entries).foldl (fun t e => insertCidrs T e.1 t e.2) T.new, byCountry⟩

namespace GeoIpIndex

variable {T : NetworkTable (List Char)}

def lookup (index : GeoIpIndex T) (addr : IpAddr) : Option (List Char) :=
  (T.longestMatch index.lookupTable addr).map Prod.snd

def getCountryCidrs (toUppercase : List Char → List Char) (index : GeoIpIndex T) (country : List Char) :
    List Cidr :=
  (index.byCountry.lookup (toUppercase country)).getD []

/-- The trie and the lists agree: an address is reported with a country whose list covers it, and
every address some country's list covers is reported. -/
structure Agrees (toUppercase : List Char → List Char) (index : GeoIpIndex T) : Prop where
  sound : ∀ addr country, index.lookup addr = some country →
    Covers (index.getCountryCidrs toUppercase country) addr
  complete : ∀ addr country cidrs, index.byCountry.lookup country = some cidrs → Covers cidrs addr →
    ∃ c, index.lookup addr = some c

end GeoIpIndex

theorem place_inj {a b : IpAddr} (hf : a.isIpv4 = b.isIpv4) (h : place a = place b) : a = b := by
  have hw : a.width = b.width := width_of_sameFamily ((sameFamily_iff a b).mpr hf)
  rw [place_eq, place_eq, hw, Nat.mul_left_inj (Nat.two_pow_pos _).ne'] at h
  cases a <;> cases b
  · rw [BitVec.toNat_inj.mp h]
  · cases hf
  · cases hf
  · rw [BitVec.toNat_inj.mp h]

namespace Cidr

theorem wellFormed_iff {e : Cidr} : e.WellFormed ↔ e.InRange ∧ 2 ^ e.level ∣ place e.ip := by
  rw [WellFormed]
  apply and_congr_right
  intro hr
  have hr' : e.prefixLen.toNat ≤ e.ip.width := hr
  have hw := width_le e.ip
  have hsplit : e.level = (e.ip.width - e.prefixLen.toNat) + (128 - e.ip.width) := by
    rw [level]
    omega
  rw [hsplit, place_eq, Nat.pow_add, Nat.mul_dvd_mul_iff_right (Nat.two_pow_pos _), Nat.dvd_iff_mod_eq_zero]

/-- A well-formed network starts at its address. -/
theorem WellFormed.place_le {e : Cidr} (h : e.WellFormed) (hx : x ∈ e.block) : place e.ip ≤ x := by
  obtain ⟨-, hdvd⟩ := wellFormed_iff.mp h
  rw [block, mem_block] at hx
  calc place e.ip = place e.ip / 2 ^ e.level * 2 ^ e.level := (Nat.div_mul_cancel hdvd).symm
    _ = x / 2 ^ e.level * 2 ^ e.level := by rw [hx]
    _ ≤ x := Nat.div_mul_le_self _ _

end Cidr

/-- Two well-formed entries in sorted order, the later not inside the earlier, share no address. -/
theorem disjoint_of_precedes (ha : a.WellFormed) (hb : b.WellFormed) (hab : precedes a b)
    (hnot : ¬ isSubnetOf b a = true) : Apart a.block b.block := by
  intro x hxa hxb
  have hpa := ha.1.le
  have hpb := hb.1.le
  have hwide : ¬ b.level ≤ a.level := fun hle =>
    hnot ((isSubnetOf_iff_subset hpb hpa).mpr (block_subset_of_meet hle hxb hxa))
  have hsub : a.block ⊆ b.block := block_subset_of_meet (by omega) hxa hxb
  have hle := hb.place_le (hsub a.place_mem_block)
  rw [Cidr.level, Cidr.level] at hwide
  rcases precedes_iff.mp hab with hlt | heq
  · omega
  · omega

/-- The entry is a network the trie takes, or lies inside one of the same list and family. -/
def Accounted (entries : List Cidr) (e : Cidr) : Prop :=
  e.WellFormed ∨ ∃ w ∈ entries, w.WellFormed ∧ w.ip.isIpv4 = e.ip.isIpv4 ∧ isSubnetOf e w = true

/-- An entry the trie would refuse comes after the one it lies inside. -/
theorem not_precedes_of_inside {e w : Cidr} (he : ¬ e.WellFormed) (hw : w.WellFormed)
    (hfam : w.ip.isIpv4 = e.ip.isIpv4) (hin : isSubnetOf e w = true) : ¬ precedes e w := by
  intro hprec
  rw [isSubnetOf_iff hw.1.le] at hin
  have hle := hw.place_le hin.2
  rcases precedes_iff.mp hprec with hlt | ⟨hplace, hlen⟩
  · omega
  · have hip := place_inj hfam hplace.symm
    have hpre : w.prefixLen = e.prefixLen := UInt8.toNat_inj.mp (by omega)
    have heq : w = e := by
      cases w
      cases e
      simp only [Cidr.mk.injEq]
      exact ⟨hip, hpre⟩
    exact he (heq ▸ hw)

theorem removeCovered_wellFormed (htip : Tip last seen) (hs : ∀ s ∈ seen, s.WellFormed)
    (hord : ∀ s ∈ seen, ∀ e ∈ l, place s.ip ≤ place e.ip) (hsort : l.Pairwise precedes)
    (hacc : ∀ e ∈ l, Accounted (seen ++ l) e) :
    (∀ e ∈ removeCovered last l, e.WellFormed ∧ ∀ s ∈ seen, ¬ isSubnetOf e s = true) ∧
      (removeCovered last l).Pairwise fun a b => ¬ isSubnetOf b a = true := by
  induction l generalizing last seen with
  | nil => exact ⟨fun e he => absurd he List.not_mem_nil, List.Pairwise.nil⟩
  | cons e rest ih =>
    obtain ⟨hfirst, hrest⟩ := List.pairwise_cons.mp hsort
    have horde : ∀ s ∈ seen, place s.ip ≤ place e.ip := fun s hm => hord s hm e List.mem_cons_self
    have hordr : ∀ s ∈ seen, ∀ x ∈ rest, place s.ip ≤ place x.ip := fun s hm x hx =>
      hord s hm x (List.mem_cons_of_mem _ hx)
    have hs128 : ∀ s ∈ seen, s.prefixLen.toNat ≤ 128 := fun s hm => (hs s hm).1.le
    by_cases hwf : e.WellFormed
    · have hs' : ∀ s ∈ e :: seen, s.WellFormed := List.forall_mem_cons.mpr ⟨hwf, hs⟩
      have hord' : ∀ s ∈ e :: seen, ∀ x ∈ rest, place s.ip ≤ place x.ip :=
        List.forall_mem_cons.mpr ⟨fun x hx => (hfirst x hx).place_le, hordr⟩
      have hacc' : ∀ x ∈ rest, Accounted (e :: seen ++ rest) x := by
        intro x hx
        rcases hacc x (List.mem_cons_of_mem _ hx) with hx | ⟨w, hw, hin⟩
        · exact .inl hx
        · refine .inr ⟨w, ?_, hin⟩
          exact List.perm_middle.subset hw
      rw [removeCovered]
      split_ifs with hcov
      · obtain ⟨hall, hpair⟩ := ih (htip.skip hs128 hwf.1.le horde hcov) hs' hord' hrest hacc'
        exact ⟨fun x hx => ⟨(hall x hx).1, fun s hm => (hall x hx).2 s (List.mem_cons_of_mem _ hm)⟩, hpair⟩
      · obtain ⟨hall, hpair⟩ := ih (htip.push hs128 hwf.1.le horde hcov) hs' hord' hrest hacc'
        constructor
        · refine List.forall_mem_cons.mpr ⟨⟨hwf, ?_⟩, ?_⟩
          · intro s hm hsub
            exact hcov ((htip e horde).mpr ⟨s, hm, hsub⟩)
          · intro x hx
            exact ⟨(hall x hx).1, fun s hm => (hall x hx).2 s (List.mem_cons_of_mem _ hm)⟩
        · exact List.pairwise_cons.mpr ⟨fun x hx => (hall x hx).2 e List.mem_cons_self, hpair⟩
    · -- the network around a refused entry has been seen, so the entry is dropped
      obtain ⟨w, hw, hww, hfam, hin⟩ := (hacc e List.mem_cons_self).resolve_left hwf
      have hseen : w ∈ seen := by
        rcases List.mem_append.mp hw with hm | hm
        · exact hm
        · rcases List.mem_cons.mp hm with heq | hm
          · exact absurd (heq ▸ hww) hwf
          · exact absurd (hfirst w hm) (not_precedes_of_inside hwf hww hfam hin)
      have hcov : last.any (isSubnetOf e) = true := (htip e horde).mpr ⟨w, hseen, hin⟩
      have hacc' : ∀ x ∈ rest, Accounted (seen ++ rest) x := by
        intro x hx
        rcases hacc x (List.mem_cons_of_mem _ hx) with hx | ⟨v, hv, hvw, hvin⟩
        · exact .inl hx
        · refine .inr ⟨v, ?_, hvw, hvin⟩
          rcases List.mem_append.mp hv with hm | hm
          · exact List.mem_append_left _ hm
          · rcases List.mem_cons.mp hm with heq | hm
            · exact absurd (heq ▸ hvw) hwf
            · exact List.mem_append_right _ hm
      rw [removeCovered, if_pos hcov]
      exact ih htip hs hordr hrest hacc'

/-- Every network the aggregation returns is one the trie takes. -/
theorem aggregateCidrs_wellFormed (h : ∀ e ∈ entries, Accounted entries e) :
    ∀ c ∈ aggregateCidrs entries, c.WellFormed := by
  by_cases hlen : entries.length ≤ 1
  · rw [aggregateCidrs, if_pos hlen]
    intro c hc
    rcases h c hc with hwf | ⟨w, hw, hww, -⟩
    · exact hwf
    · rcases eq_nil_or_singleton hlen with heq | ⟨e, heq⟩
      · rw [heq] at hc
        cases hc
      · rw [heq] at hw hc
        rw [List.mem_singleton.mp hw] at hww
        rw [List.mem_singleton.mp hc]
        exact hww
  · have hsort := sortEntries_pairwise entries
    have hacc : ∀ e ∈ sortEntries entries, Accounted ([] ++ sortEntries entries) e := by
      intro e he
      rcases h e (mem_sortEntries.mp he) with hwf | ⟨w, hw, hin⟩
      · exact .inl hwf
      · exact .inr ⟨w, mem_sortEntries.mpr hw, hin⟩
    obtain ⟨hall, hpair⟩ := removeCovered_wellFormed Tip.nil (fun s hs => absurd hs List.not_mem_nil)
      (fun s hs => absurd hs List.not_mem_nil) hsort hacc
    have hsub : (removeCovered none (sortEntries entries)).Pairwise precedes :=
      hsort.sublist (removeCovered_sublist _ _)
    have hdis : (removeCovered none (sortEntries entries)).Pairwise fun a b => Apart a.block b.block := by
      refine List.Pairwise.imp_of_mem ?_ (hsub.and hpair)
      intro a b ha hb hab
      exact disjoint_of_precedes (hall a ha).1 (hall b hb).1 hab.1 hab.2
    obtain ⟨-, hcoarse⟩ := mergeLoop_ordered (ordered_of_disjoint hsub hdis) (fun e he => (hall e he).1.1)
    rw [aggregateCidrs, if_neg hlen]
    intro c hc
    rcases hcoarse.aligned c hc with hold | hnew
    · exact (hall c hold).1
    · exact Cidr.wellFormed_iff.mpr ⟨hcoarse.inRange c hc, hnew.1⟩

/-- The rows of one country, in file order. -/
def countryRows (locations : KeyedMap Nat (List Char)) (rows : List (Cidr × Nat)) (country : List Char) :
    List Cidr :=
  (rows.filter fun row => locations.lookup row.2 = some country).map Prod.fst

theorem countryRows_cons (locations : KeyedMap Nat (List Char)) (row : Cidr × Nat) (rows : List (Cidr × Nat))
    (country : List Char) : countryRows locations (row :: rows) country =
      (if locations.lookup row.2 = some country then [row.1] else []) ++ countryRows locations rows country := by
  rw [countryRows, List.filter_cons]
  by_cases h : locations.lookup row.2 = some country
  · rw [if_pos h, if_pos (decide_eq_true h), List.map_cons]
    rfl
  · rw [if_neg h, if_neg (fun hd => h (of_decide_eq_true hd)), List.nil_append]
    rfl

section Fold

variable (locations : KeyedMap Nat (List Char))

theorem lookup_addBlock (m : KeyedMap (List Char) (List Cidr)) (row : Cidr × Nat) (country : List Char) :
    ((addBlock locations m row).lookup country).getD [] = (m.lookup country).getD [] ++
      if locations.lookup row.2 = some country then [row.1] else [] := by
  unfold addBlock
  cases hl : locations.lookup row.2 with
  | none => rw [if_neg (by simp), List.append_nil]
  | some c =>
    by_cases hc : country = c
    · subst hc
      rw [AList.lookup_insert, if_pos rfl]
      rfl
    · rw [AList.lookup_insert_ne hc, if_neg (fun h => hc (Option.some.inj h).symm), List.append_nil]

theorem lookup_foldl_addBlock (rows : List (Cidr × Nat)) (m : KeyedMap (List Char) (List Cidr))
    (country : List Char) : ((rows.foldl (addBlock locations) m).lookup country).getD [] =
      (m.lookup country).getD [] ++ countryRows locations rows country := by
  induction rows generalizing m with
  | nil => exact (List.append_nil _).symm
  | cons row rest ih => rw [List.foldl_cons, ih, lookup_addBlock, countryRows_cons, List.append_assoc]

end Fold

theorem lookup_aggregateValues (m : KeyedMap (List Char) (List Cidr)) (country : List Char) :
    (aggregateValues m).lookup country = (m.lookup country).map aggregateCidrs := by
  ext cidrs
  rw [← KeyedMap.mem_entries (e := ⟨country, cidrs⟩), Option.map_eq_some_iff]
  constructor
  · intro h
    obtain ⟨e, he, heq⟩ := List.mem_map.mp h
    cases heq
    exact ⟨e.2, KeyedMap.mem_entries.mp he, rfl⟩
  · rintro ⟨rows, hrows, rfl⟩
    exact List.mem_map.mpr ⟨⟨country, rows⟩, KeyedMap.mem_entries.mpr hrows, rfl⟩

/-- The list of a country: the networks of its rows, aggregated. -/
def countryList (blocksCsv locationsCsv country : List Char) : List Cidr :=
  aggregateCidrs (countryRows (parseGeolite2LocationsCsv locationsCsv)
    (parseGeolite2BlocksCsv blocksCsv) country)

theorem lookup_countryCidrs (blocksCsv locationsCsv country : List Char) :
    ((countryCidrs blocksCsv locationsCsv).lookup country).getD [] =
      countryRows (parseGeolite2LocationsCsv locationsCsv) (parseGeolite2BlocksCsv blocksCsv)
        country := by
  have hfold := lookup_foldl_addBlock (parseGeolite2LocationsCsv locationsCsv)
    (parseGeolite2BlocksCsv blocksCsv) ∅ country
  rw [AList.lookup_empty, Option.getD_none, List.nil_append] at hfold
  exact hfold

theorem lookup_byCountry (blocksCsv locationsCsv country : List Char) :
    ((aggregateValues (countryCidrs blocksCsv locationsCsv)).lookup country).getD [] =
      countryList blocksCsv locationsCsv country := by
  rw [lookup_aggregateValues, countryList, ← lookup_countryCidrs]
  cases (countryCidrs blocksCsv locationsCsv).lookup country <;> rfl

/-- A list with something in it is stored. -/
theorem lookup_byCountry_of_mem (h : e ∈ countryList blocksCsv locationsCsv country) :
    (aggregateValues (countryCidrs blocksCsv locationsCsv)).lookup country =
      some (countryList blocksCsv locationsCsv country) := by
  rw [← lookup_byCountry] at h ⊢
  cases hl : (aggregateValues (countryCidrs blocksCsv locationsCsv)).lookup country with
  | none =>
    rw [hl] at h
    cases h
  | some cidrs => rfl

theorem mem_entries_of_mem (h : e ∈ countryList blocksCsv locationsCsv country) :
    ⟨country, countryList blocksCsv locationsCsv country⟩ ∈
      (aggregateValues (countryCidrs blocksCsv locationsCsv)).entries :=
  KeyedMap.mem_entries.mpr (lookup_byCountry_of_mem h)

section Trie

variable {T : NetworkTable (List Char)} (L : T.Lawful)

theorem content_insertCidrs (country : List Char) (cidrs : List Cidr) (t : T.Table) (n : IpNetwork) :
    L.content (insertCidrs T country t cidrs) n = if n.val ∈ cidrs then some country else L.content t n := by
  induction cidrs generalizing t with
  | nil => rw [if_neg List.not_mem_nil]; rfl
  | cons e rest ih =>
    unfold insertCidrs at ih ⊢
    rw [List.foldl_cons, ih]
    by_cases hrest : n.val ∈ rest
    · rw [if_pos hrest, if_pos (List.mem_cons_of_mem _ hrest)]
    · rw [if_neg hrest]
      by_cases hwf : e.WellFormed
      · have hb : buildIpNetwork e = some ⟨e, hwf⟩ := dif_pos hwf
        simp only [hb, L.content_insert, List.mem_cons, hrest, or_false, Subtype.ext_iff]
      · have hb : buildIpNetwork e = none := dif_neg hwf
        have hne : ¬ n.val ∈ e :: rest := by
          intro hm
          rcases List.mem_cons.mp hm with heq | hm
          · exact hwf (heq ▸ n.property)
          · exact hrest hm
        simp only [hb, if_neg hne]

theorem content_foldl_some (E : List (Entry (List Char) (List Cidr))) (t : T.Table)
    (h : L.content (E.foldl (fun t e => insertCidrs T e.1 t e.2) t) n = some country) :
    L.content t n = some country ∨ ∃ e ∈ E, e.1 = country ∧ n.val ∈ e.2 := by
  induction E generalizing t with
  | nil => exact .inl h
  | cons e rest ih =>
    rcases ih _ h with hold | ⟨e', he', hin⟩
    · rw [content_insertCidrs] at hold
      split_ifs at hold with hm
      · exact .inr ⟨e, List.mem_cons_self, Option.some.inj hold, hm⟩
      · exact .inl hold
    · exact .inr ⟨e', List.mem_cons_of_mem _ he', hin⟩

theorem content_foldl_isSome (E : List (Entry (List Char) (List Cidr))) (t : T.Table)
    (h : (L.content t n).isSome = true ∨ ∃ e ∈ E, n.val ∈ e.2) :
    (L.content (E.foldl (fun t e => insertCidrs T e.1 t e.2) t) n).isSome = true := by
  induction E generalizing t with
  | nil => exact h.resolve_right (by simp)
  | cons e rest ih =>
    apply ih
    rw [content_insertCidrs]
    split_ifs with hm
    · exact .inl rfl
    · rcases h with h | ⟨e', he', hin⟩
      · exact .inl h
      · rcases List.mem_cons.mp he' with heq | he'
        · exact absurd (heq ▸ hin) hm
        · exact .inr ⟨e', he', hin⟩

theorem content_foldl_last {E : List (Entry (List Char) (List Cidr))} (hE : ∀ e ∈ E, e.1 = country)
    (t : T.Table) (h : L.content t n = some country ∨ ∃ e ∈ E, n.val ∈ e.2) :
    L.content (E.foldl (fun t e => insertCidrs T e.1 t e.2) t) n = some country := by
  induction E generalizing t with
  | nil => exact h.resolve_right (by simp)
  | cons e rest ih =>
    obtain ⟨he, hrest⟩ := List.forall_mem_cons.mp hE
    apply ih hrest
    rw [content_insertCidrs]
    split_ifs with hm
    · exact .inl (congrArg some he)
    · rcases h with h | ⟨e', he', hin⟩
      · exact .inl h
      · rcases List.mem_cons.mp he' with heq | he'
        · exact absurd (heq ▸ hin) hm
        · exact .inr ⟨e', he', hin⟩

end Trie

/-- Two networks of one length that hold one address are the same. -/
theorem Cidr.WellFormed.eq_of_holds {a b : Cidr} (ha : a.WellFormed) (hb : b.WellFormed)
    (hlen : a.prefixLen = b.prefixLen) (hold : a.Holds addr) (hold' : b.Holds addr) : a = b := by
  obtain ⟨hfam, hin⟩ := (Cidr.holds_iff ha.1).mp hold
  obtain ⟨hfam', hin'⟩ := (Cidr.holds_iff hb.1).mp hold'
  have hplace : place a.ip = place b.ip := by
    have hlevel : a.level = b.level := by rw [Cidr.level, Cidr.level, hlen]
    have hblock : a.block = b.block := by
      rw [Cidr.block] at hin hin'
      rw [← hlevel] at hin'
      rw [Cidr.block, Cidr.block, ← hlevel, ← block_eq_of_mem hin, ← block_eq_of_mem hin']
    apply Nat.le_antisymm
    · exact ha.place_le (hblock ▸ b.place_mem_block)
    · exact hb.place_le (hblock ▸ a.place_mem_block)
  cases a
  cases b
  rw [Cidr.mk.injEq]
  exact ⟨place_inj (hfam.trans hfam'.symm) hplace, hlen⟩

section Lists
variable (toUppercase : List Char → List Char) (blocksCsv locationsCsv : List Char)

/-- A network of some list that the trie takes, and that holds the address. -/
def TakenAt (addr : IpAddr) (country : List Char) (n : Cidr) : Prop :=
  n ∈ countryList blocksCsv locationsCsv country ∧ n.WellFormed ∧ n.Holds addr

/-- What the trie refuses of a list it takes from the lists in other networks, and where a country
that is asked for under another code has the longest network, the list of that code holds the
address as well. -/
structure LoadsInFull : Prop where
  refused : ∀ country, ∀ e ∈ countryList blocksCsv locationsCsv country, ¬ e.WellFormed →
    ∀ addr, e.Holds addr → ∃ other n, TakenAt blocksCsv locationsCsv addr other n
  renamed : ∀ country, toUppercase country ≠ country → ∀ addr n,
    TakenAt blocksCsv locationsCsv addr country n →
    (∀ other m, TakenAt blocksCsv locationsCsv addr other m → m.prefixLen ≤ n.prefixLen) →
    Covers (countryList blocksCsv locationsCsv (toUppercase country)) addr

end Lists

/-- An order that comes to one country last. -/
def comingLast (country : List Char) : IterOrder (List Char) (List Cidr) where
  order l := l.filter (fun e => !decide (e.1 = country)) ++ l.filter fun e => decide (e.1 = country)
  perm l := List.perm_append_comm.trans (List.filter_append_perm _ l)

section
variable {T : NetworkTable (List Char)} (L : T.Lawful)
include L

theorem takenAt_of_content {order : IterOrder (List Char) (List Cidr)}
    (h : L.content (loadDatabase T order blocksCsv locationsCsv).lookupTable n = some country)
    (hold : n.val.Holds addr) : TakenAt blocksCsv locationsCsv addr country n.val := by
  rcases content_foldl_some L _ _ h with hnew | ⟨e, he, rfl, hin⟩
  · rw [L.content_new] at hnew
    cases hnew
  · have hmem := KeyedMap.mem_entries.mp ((order.perm _).subset he)
    refine ⟨?_, n.property, hold⟩
    rw [← lookup_byCountry, hmem]
    exact hin

theorem isSome_content_of_takenAt (order : IterOrder (List Char) (List Cidr))
    (h : TakenAt blocksCsv locationsCsv addr country n) :
    (L.content (loadDatabase T order blocksCsv locationsCsv).lookupTable ⟨n, h.2.1⟩).isSome := by
  have hmem := (order.perm _).mem_iff.mpr (mem_entries_of_mem h.1)
  exact content_foldl_isSome L _ T.new (.inr ⟨_, hmem, h.1⟩)

/-- The country of an address has the longest network for it. -/
theorem takenAt_of_lookup {order : IterOrder (List Char) (List Cidr)}
    (h : (loadDatabase T order blocksCsv locationsCsv).lookup addr = some country) :
    ∃ n, TakenAt blocksCsv locationsCsv addr country n ∧
      ∀ other m, TakenAt blocksCsv locationsCsv addr other m → m.prefixLen ≤ n.prefixLen := by
  obtain ⟨⟨n, c⟩, hmatch, rfl⟩ := Option.map_eq_some_iff.mp h
  obtain ⟨hcontent, hold, hmax⟩ := L.longestMatch_some _ _ _ _ hmatch
  refine ⟨n.val, takenAt_of_content L hcontent hold, ?_⟩
  intro other m hm
  exact hmax ⟨m, hm.2.1⟩ (isSome_content_of_takenAt L order hm) hm.2.2

theorem lookup_of_takenAt (order : IterOrder (List Char) (List Cidr))
    (h : TakenAt blocksCsv locationsCsv addr country n) :
    ∃ c, (loadDatabase T order blocksCsv locationsCsv).lookup addr = some c := by
  cases hmatch : T.longestMatch (loadDatabase T order blocksCsv locationsCsv).lookupTable addr with
  | none => exact absurd h.2.2 (L.longestMatch_none _ _ hmatch _ (isSome_content_of_takenAt L order h))
  | some p => exact ⟨p.2, by rw [GeoIpIndex.lookup, hmatch]; rfl⟩

/-- The country that comes last keeps the networks it shares. -/
theorem lookup_comingLast (h : TakenAt blocksCsv locationsCsv addr country n)
    (hmax : ∀ other m, TakenAt blocksCsv locationsCsv addr other m → m.prefixLen ≤ n.prefixLen) :
    (loadDatabase T (comingLast country) blocksCsv locationsCsv).lookup addr = some country := by
  obtain ⟨c, hc⟩ := lookup_of_takenAt L (comingLast country) h
  obtain ⟨⟨m, c'⟩, hmatch, rfl⟩ := Option.map_eq_some_iff.mp hc
  obtain ⟨hcontent, hold, hlong⟩ := L.longestMatch_some _ _ _ _ hmatch
  have hm := takenAt_of_content L hcontent hold
  have hlen : m.val.prefixLen = n.prefixLen := UInt8.le_antisymm (hmax _ _ hm)
    (hlong ⟨n, h.2.1⟩ (isSome_content_of_takenAt L _ h) h.2.2)
  have heq : m.val = n := hm.2.1.eq_of_holds h.2.1 hlen hold h.2.2
  have hlast : L.content (loadDatabase T (comingLast country) blocksCsv locationsCsv).lookupTable
      m = some country := by
    have hentry := mem_entries_of_mem h.1
    unfold loadDatabase comingLast
    dsimp only
    rw [List.foldl_append]
    apply content_foldl_last L
    · intro e he
      exact of_decide_eq_true (List.mem_filter.mp he).2
    · exact .inr ⟨_, List.mem_filter.mpr ⟨hentry, decide_eq_true rfl⟩, heq ▸ h.1⟩
  rw [hlast] at hcontent
  rw [hc, Option.some.inj hcontent]

end

/-- The trie and the lists agree, in whatever order the countries come, exactly if what the trie
refuses is held by other networks and no country is out of the reach of its code. -/
theorem loadDatabase_agrees_iff {T : NetworkTable (List Char)} (L : T.Lawful)
    (toUppercase : List Char → List Char) (blocksCsv locationsCsv : List Char) :
    (∀ order, (loadDatabase T order blocksCsv locationsCsv).Agrees toUppercase) ↔
      LoadsInFull toUppercase blocksCsv locationsCsv := by
  constructor
  · intro h
    constructor
    · intro country e he _ addr hold
      obtain ⟨c, hc⟩ := (h .asStored).complete addr country _ (lookup_byCountry_of_mem he) ⟨e, he, hold⟩
      obtain ⟨n, hn, -⟩ := takenAt_of_lookup L hc
      exact ⟨c, n, hn⟩
    · intro country _ addr n hn hmax
      have hcov := (h (comingLast country)).sound addr country (lookup_comingLast L hn hmax)
      rw [← lookup_byCountry]
      exact hcov
  · intro h order
    constructor
    · intro addr country hlook
      obtain ⟨n, hn, hmax⟩ := takenAt_of_lookup L hlook
      have hlist : (loadDatabase T order blocksCsv locationsCsv).getCountryCidrs toUppercase country =
          countryList blocksCsv locationsCsv (toUppercase country) := lookup_byCountry _ _ _
      rw [hlist]
      by_cases hup : toUppercase country = country
      · rw [hup]
        exact ⟨n, hn.1, hn.2.2⟩
      · exact h.renamed country hup addr n hn hmax
    · intro addr country cidrs hl hcov
      obtain ⟨e, he, hold⟩ := hcov
      have hlist : cidrs = countryList blocksCsv locationsCsv country := by
        rw [← lookup_byCountry]
        exact (congrArg (Option.getD · []) hl).symm
      rw [hlist] at he
      by_cases hwf : e.WellFormed
      · exact lookup_of_takenAt L order ⟨he, hwf, hold⟩
      · obtain ⟨other, n, hn⟩ := h.refused country e he hwf addr hold
        exact lookup_of_takenAt L order hn

/-- The rows a country is known for carry a code that is its own upper case, and are networks or
lie inside a network of the same country. -/
structure LoadsCleanly (toUppercase : List Char → List Char) (blocksCsv locationsCsv : List Char) :
    Prop where
  upper : ∀ row ∈ parseGeolite2BlocksCsv blocksCsv, ∀ country,
    (parseGeolite2LocationsCsv locationsCsv).lookup row.2 = some country →
      toUppercase country = country
  accounted : ∀ country,
    ∀ e ∈ countryRows (parseGeolite2LocationsCsv locationsCsv) (parseGeolite2BlocksCsv blocksCsv) country,
      Accounted
        (countryRows (parseGeolite2LocationsCsv locationsCsv) (parseGeolite2BlocksCsv blocksCsv) country) e

/-- A country with something in its list has a row. -/
theorem exists_row_of_mem (h : e ∈ countryList blocksCsv locationsCsv country) :
    ∃ row ∈ parseGeolite2BlocksCsv blocksCsv,
      (parseGeolite2LocationsCsv locationsCsv).lookup row.2 = some country := by
  cases hrows : countryRows (parseGeolite2LocationsCsv locationsCsv)
      (parseGeolite2BlocksCsv blocksCsv) country with
  | nil =>
    rw [countryList, hrows] at h
    cases h
  | cons c rows =>
    have hmem : c ∈ countryRows (parseGeolite2LocationsCsv locationsCsv)
        (parseGeolite2BlocksCsv blocksCsv) country := hrows ▸ List.mem_cons_self
    obtain ⟨row, hrow, -⟩ := List.mem_map.mp hmem
    exact ⟨row, (List.mem_filter.mp hrow).1, of_decide_eq_true (List.mem_filter.mp hrow).2⟩

/-- Clean rows make lists that load in full. -/
theorem LoadsCleanly.loadsInFull (h : LoadsCleanly toUppercase blocksCsv locationsCsv) :
    LoadsInFull toUppercase blocksCsv locationsCsv where
  refused country e he hwf := absurd (aggregateCidrs_wellFormed (h.accounted country) e he) hwf
  renamed country hup _ n hn _ := by
    obtain ⟨row, hrow, hloc⟩ := exists_row_of_mem hn.1
    exact absurd (h.upper row hrow country hloc) hup

def longest : List (Entry IpNetwork (List Char)) → Option (IpNetwork × List Char)
  | [] => none
  | e :: rest =>
    match longest rest with
    | none => some (e.1, e.2)
    | some q => if q.1.val.prefixLen ≤ e.1.val.prefixLen then some (e.1, e.2) else some q

/-- A table with the documented behaviour, kept as a list of its networks. -/
def listTable : NetworkTable (List Char) where
  Table := KeyedMap IpNetwork (List Char)
  new := ∅
  insert t n v := AList.insert n v t
  longestMatch t addr := longest (t.entries.filter fun e => e.1.val.Holds addr)

theorem longest_eq_none (h : longest l = none) : l = [] := by
  cases l with
  | nil => rfl
  | cons e rest =>
    rw [longest] at h
    split at h
    · cases h
    · split_ifs at h

theorem longest_eq_some (h : longest l = some (n, v)) :
    ⟨n, v⟩ ∈ l ∧ ∀ e ∈ l, e.1.val.prefixLen ≤ n.val.prefixLen := by
  induction l generalizing n v with
  | nil => cases h
  | cons e rest ih =>
    rw [longest] at h
    split at h
    next hrest =>
      cases h
      rw [longest_eq_none hrest]
      exact ⟨List.mem_cons_self, fun d hd => UInt8.le_of_eq (by rw [List.mem_singleton.mp hd])⟩
    next q hrest =>
      obtain ⟨hq, hmax⟩ := ih hrest
      split_ifs at h with hle
      · cases h
        exact ⟨List.mem_cons_self, List.forall_mem_cons.mpr ⟨UInt8.le_refl _, fun d hd =>
          UInt8.le_trans (hmax d hd) hle⟩⟩
      · cases h
        exact ⟨List.mem_cons_of_mem _ hq,
          List.forall_mem_cons.mpr ⟨UInt8.le_of_lt (UInt8.not_le.mp hle), hmax⟩⟩

def listTableLawful : listTable.Lawful where
  content t n := AList.lookup n t
  content_new n := AList.lookup_empty n
  content_insert t n v m := by
    split_ifs with h
    · subst h
      exact AList.lookup_insert _
    · exact AList.lookup_insert_ne h
  longestMatch_some t addr n v h := by
    obtain ⟨hin, hmax⟩ := longest_eq_some h
    obtain ⟨hmem, hold⟩ := List.mem_filter.mp hin
    refine ⟨KeyedMap.mem_entries.mp hmem, of_decide_eq_true hold, ?_⟩
    intro m hm hmold
    obtain ⟨w, hw⟩ := Option.isSome_iff_exists.mp hm
    exact hmax ⟨m, w⟩ (List.mem_filter.mpr ⟨KeyedMap.mem_entries.mpr hw, decide_eq_true hmold⟩)
  longestMatch_none t addr h := by
    intro m hm hmold
    obtain ⟨w, hw⟩ := Option.isSome_iff_exists.mp hm
    have hempty := longest_eq_none h
    have hin : (⟨m, w⟩ : Entry IpNetwork (List Char)) ∈ t.entries.filter fun e => e.1.val.Holds addr :=
      List.mem_filter.mpr ⟨KeyedMap.mem_entries.mpr hw, decide_eq_true hmold⟩
    rw [hempty] at hin
    cases hin

def upperAscii (s : List Char) : List Char := s.map Char.toUpper

def sampleLocations : List Char := "id,lang,continent,name,code\n1,en,EU,Europe,DE\n".toList

def mergedBlocks : List Char := "network,id\n10.0.0.5/24,1\n10.0.1.0/24,1\n".toList

theorem mem_mergedBlocks (h : e ∈ countryList mergedBlocks sampleLocations country) :
    country = ['D', 'E'] ∧ e = ⟨.v4 0x0A000000, 23⟩ := by
  have hrows : parseGeolite2BlocksCsv mergedBlocks =
      [(⟨.v4 0x0A000005, 24⟩, 1), (⟨.v4 0x0A000100, 24⟩, 1)] := by decide +kernel
  have hloc : (parseGeolite2LocationsCsv sampleLocations).lookup 1 = some ['D', 'E'] := by
    decide +kernel
  have hcountry : country = ['D', 'E'] := by
    obtain ⟨row, hrow, hc⟩ := exists_row_of_mem h
    rw [hrows] at hrow
    rcases List.mem_pair.mp hrow with rfl | rfl
    · exact (Option.some.inj (hloc.symm.trans hc)).symm
    · exact (Option.some.inj (hloc.symm.trans hc)).symm
  have hlist : countryList mergedBlocks sampleLocations ['D', 'E'] = [⟨.v4 0x0A000000, 23⟩] := by
    decide +kernel
  rw [hcountry, hlist] at h
  exact ⟨hcountry, List.mem_singleton.mp h⟩

/-- The host bits of a row are gone when it is merged with the network after it. -/
theorem loadDatabase_agrees_merged :
    ∀ order, (loadDatabase listTable order mergedBlocks sampleLocations).Agrees upperAscii := by
  apply (loadDatabase_agrees_iff listTableLawful _ _ _).mpr
  constructor
  · intro country e he hwf
    obtain ⟨-, rfl⟩ := mem_mergedBlocks he
    exact absurd (by decide) hwf
  · intro country hup addr n hn
    obtain ⟨rfl, -⟩ := mem_mergedBlocks hn.1
    exact absurd (by decide) hup

/-- `10.0.0.5/24` goes into the country's list and not into the trie. -/
theorem loadDatabase_agrees_hostBits_false :
    ¬ (loadDatabase listTable .asStored "network,id\n10.0.0.5/24,1\n".toList sampleLocations).Agrees
      upperAscii := by
  intro h
  obtain ⟨c, hc⟩ := h.complete (.v4 0x0A000001) ['D', 'E'] [⟨.v4 0x0A000005, 24⟩] (by decide +kernel) (by decide)
  have hnone : (loadDatabase listTable .asStored "network,id\n10.0.0.5/24,1\n".toList sampleLocations).lookup
      (.v4 0x0A000001) = none := by decide +kernel
  rw [hnone] at hc
  cases hc

end AiFw.Geo
