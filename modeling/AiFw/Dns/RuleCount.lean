import AiFw.Dns.Rpz
import AiFw.Dns.ZoneCurrent
import AiFw.Lib.TextSearch
import Mathlib.Algebra.BigOperators.Group.List.Basic

namespace AiFw.Dns
open AiFw.Lib AiFw.Net
open AiFw.Geo (lines stripCr)
open AiFw.Lib.MasterFile (Name Record isPlain readZone)
set_option autoImplicit true

/-- A line that is counted as a rule. -/
def isRule (line : List Char) : Bool :=
  let l := trim line
  !l.isEmpty && l.head? != some ';' && l.head? != some '$' && l.head? != some '@'

/-- The rules in a part of a file that is cut off at the end of a line. -/
def ruleCount (part : List Char) : Nat := ((splitOn '\n' part).map stripCr).countP isRule

theorem countRules_append_cons (a b : List Char) :
    countRules (a ++ '\n' :: b) = ruleCount a + countRules b := by
  unfold countRules
  rw [Geo.lines_append_cons, List.countP_append]
  rfl

theorem countRules_parts (f : α → List Char) (xs : List α) :
    countRules ((xs.map fun x => f x ++ ['\n']).flatten) = (xs.map fun x => ruleCount (f x)).sum := by
  induction xs with
  | nil => rfl
  | cons x xs ih =>
    rw [List.map_cons, List.flatten_cons, List.append_assoc, List.singleton_append,
      countRules_append_cons, ih, List.map_cons, List.sum_cons]

theorem isRule_cons (h : isWhitespace c = false) (cs : List Char) :
    isRule (c :: cs) = !([';', '$', '@'].contains c) := by
  have hfirst : ∀ x ∈ [c].head?, isWhitespace x = false := by
    rintro _ ⟨⟩
    exact h
  have htrim : ∃ rest, trim ([] ++ [c] ++ cs) = [c] ++ rest :=
    trim_around (List.forall_mem_nil _) hfirst hfirst (List.cons_ne_nil c [])
  obtain ⟨rest, hrest⟩ := htrim
  have hline : trim (c :: cs) = c :: rest := hrest
  unfold isRule
  rw [hline]
  simp only [bne, List.isEmpty_cons, List.head?_cons, Option.some_beq_some, Bool.not_false,
    Bool.true_and, List.contains_cons, List.contains_nil, Bool.or_false, Bool.not_or, Bool.and_assoc]

theorem stripCr_cons (hc : c ≠ '\r') (p : List Char) : ∃ p', stripCr (c :: p) = c :: p' := by
  unfold stripCr
  split
  · next hlast =>
    cases p with
    | nil => exact absurd (Option.some.inj hlast) hc
    | cons d ds => exact ⟨(d :: ds).dropLast, rfl⟩
  · exact ⟨p, rfl⟩

/-- The first line of a part that begins with a sign of a word. -/
theorem ruleCount_cons (hblank : isWhitespace c = false) (cs : List Char) :
    ∃ rest, ruleCount (c :: cs) = (if [';', '$', '@'].contains c then 0 else 1) + rest ∧
      ('\n' ∉ cs → rest = 0) := by
  have hline : c ≠ '\n' := by
    rintro rfl
    cases hblank
  have hcr : c ≠ '\r' := by
    rintro rfl
    cases hblank
  obtain ⟨p, ps, hsplit⟩ := List.exists_cons_of_ne_nil (splitOn_ne_nil '\n' cs)
  obtain ⟨p', hstrip⟩ := stripCr_cons hcr p
  refine ⟨(ps.map stripCr).countP isRule, ?_, ?_⟩
  · rw [ruleCount, splitOn, if_neg hline, hsplit]
    dsimp only
    rw [List.map_cons, hstrip, List.countP_cons, isRule_cons hblank, Nat.add_comm]
    cases [';', '$', '@'].contains c with
    | true => rfl
    | false => rfl
  · intro hsingle
    rw [splitOn_of_notMem hsingle] at hsplit
    rw [← (List.cons.inj hsplit).2]
    rfl

theorem newline_notMem_words {ws : List (List Char)}
    (h : ∀ w ∈ ws, w ≠ [] ∧ ∀ c ∈ w, isPlain c = true) : '\n' ∉ [' '].intercalate ws := by
  apply notMem_intercalate_blank
  · intro w hw hin
    have hline := (h w hw).2 '\n' hin
    revert hline
    decide
  · decide

/-- Of the header only the record of the name server is counted. -/
theorem countRules_header (hzone : ∀ c ∈ zone, isPlain c = true) (serial : Nat) (rest : List Char) :
    countRules (zoneHeader zone serial ++ rest) = 1 + countRules rest := by
  obtain ⟨cs, hsoa⟩ : ∃ cs, [' '].intercalate (soaWords zone serial) = '@' :: cs := ⟨_, rfl⟩
  have hline := newline_notMem_words (soaWords_plain hzone serial)
  rw [hsoa, List.mem_cons, not_or] at hline
  obtain ⟨more, hcount, hmore⟩ := ruleCount_cons (c := '@') (by decide) cs
  have htext : zoneHeader zone serial ++ rest = "$TTL 300".toList ++ '\n' ::
      ('@' :: cs ++ '\n' :: ("  IN NS  localhost.".toList ++ '\n' :: rest)) := by
    rw [zoneHeader_eq, hsoa, List.append_assoc, List.append_assoc, List.append_assoc]
    rfl
  have hsigned : ruleCount ('@' :: cs) = 0 := by
    rw [hcount, hmore hline.2]
    rfl
  have httl : ruleCount "$TTL 300".toList = 0 := by decide
  have hserver : ruleCount "  IN NS  localhost.".toList = 1 := by decide
  rw [htext, countRules_append_cons, countRules_append_cons, countRules_append_cons, httl, hsigned,
    hserver, Nat.zero_add, Nat.zero_add]

/-- The record of a domain is counted, once if it is one line. -/
theorem ruleCount_record (hd : IsDomainName d) (policy : List Char × List Char) :
    1 ≤ ruleCount ([' '].intercalate (policyWords policy d)) ∧
      ('\n' ∉ [' '].intercalate (policyWords policy d) →
        ruleCount ([' '].intercalate (policyWords policy d)) = 1) := by
  obtain ⟨c, cs, rfl⟩ := List.exists_cons_of_ne_nil hd.plain.nonempty
  obtain ⟨hblank, hsign⟩ := hd.signs c List.mem_cons_self
  have hcounted : [';', '$', '@'].contains c = false := by
    rw [← Bool.not_eq_true, List.contains_iff_mem]
    intro hin
    have hsub : [';', '$', '@'] ⊆ zoneSigns := by decide
    exact hsign (hsub hin)
  obtain ⟨rest, htext⟩ :
      ∃ rest, [' '].intercalate (policyWords policy (c :: cs)) = c :: rest := ⟨_, rfl⟩
  obtain ⟨more, hcount, hmore⟩ := ruleCount_cons hblank rest
  rw [hcounted, if_neg Bool.false_ne_true] at hcount
  rw [htext, hcount, List.mem_cons, not_or]
  refine ⟨Nat.le_add_right 1 more, ?_⟩
  intro hline
  rw [hmore hline.2]

section
variable {domains : List (List Char)}

theorem countRules_buildRpz (hzone : ∀ c ∈ zone, isPlain c = true) (domains : List (List Char))
    (action : List Char) (redirectIp : Option (List Char)) (serial : Nat) :
    countRules (buildRpz domains action redirectIp zone serial) =
      1 + ((sortedDomains domains).map fun d =>
        ruleCount ([' '].intercalate (policyWords (policyData action redirectIp) d))).sum := by
  rw [buildRpz, countRules_header hzone, zoneRecords_eq, countRules_parts]

/-- More is counted than there are domains. -/
theorem lt_countRules_buildRpz (hzone : ∀ c ∈ zone, isPlain c = true)
    (hdomains : ∀ d ∈ domains, IsDomainName d) (action : List Char)
    (redirectIp : Option (List Char)) (serial : Nat) :
    domains.length < countRules (buildRpz domains action redirectIp zone serial) := by
  have hcounted : ∀ n ∈ (sortedDomains domains).map fun d =>
      ruleCount ([' '].intercalate (policyWords (policyData action redirectIp) d)), 1 ≤ n := by
    intro n hn
    obtain ⟨d, hd, rfl⟩ := List.mem_map.mp hn
    exact (ruleCount_record (hdomains d (mem_sortedDomains.mp hd)) _).1
  have hle := List.length_le_sum_of_one_le _ hcounted
  rw [List.length_map, length_sortedDomains] at hle
  rw [countRules_buildRpz hzone]
  exact Nat.lt_one_add_iff.mpr hle

theorem countRules_buildRpz_of_valid (hzone : ∀ c ∈ zone, isPlain c = true)
    (hdomains : ∀ d ∈ domains, IsDomainName d)
    (hredirect : validateRedirectIp action redirectIp = .ok ()) (serial : Nat) :
    countRules (buildRpz domains action redirectIp zone serial) = domains.length + 1 := by
  have hone (d) (hd : d ∈ sortedDomains domains) :
      ruleCount ([' '].intercalate (policyWords (policyData action redirectIp) d)) = 1 := by
    have hname := hdomains d (mem_sortedDomains.mp hd)
    exact (ruleCount_record hname _).2
      (newline_notMem_words (policyWords_plain hname.plain hredirect))
  rw [countRules_buildRpz hzone, List.map_congr_left hone, List.map_const', List.sum_replicate_nat,
    Nat.mul_one, length_sortedDomains, Nat.add_comm]

end

/-- The records that are not there for the zone itself are those of its domains. -/
theorem filter_isPolicy_perm (hredirect : validateRedirectIp action redirectIp = .ok ())
    (origin : Name) (zone : List Char) (serial : Nat) (ds : List (List Char)) :
    ((ownRecords origin zone serial ++
        (sortedDomains ds).map (policyRecord origin (policyData action redirectIp))).filter
          isPolicy).Perm (ds.map (policyRecord origin (policyData action redirectIp))) := by
  obtain ⟨htype, -⟩ := policyData_plain hredirect
  have hother : ∀ t ∈ ["CNAME".toList, "A".toList, "AAAA".toList],
      (t ≠ "SOA".toList && t ≠ "NS".toList) = true := by decide
  have hall : ∀ r ∈ (sortedDomains ds).map (policyRecord origin (policyData action redirectIp)),
      isPolicy r = true := by
    intro r hr
    obtain ⟨d, -, rfl⟩ := List.mem_map.mp hr
    exact hother _ htype
  have hown : (ownRecords origin zone serial).filter isPolicy = [] := rfl
  rw [List.filter_append, hown, List.nil_append, List.filter_eq_self.mpr hall]
  exact (List.perm_insertionSort _ ds).map _

namespace Built

/-- The domains a zone file is built for. -/
def domains (b : Built) : List (List Char) :=
  BlocklistStore.blockedDomains b.whitelist b.body b.source.format

def origin (b : Built) : Name := splitOn '.' (blocklistZone b.source.id)

def policy (b : Built) : List Char × List Char := policyData b.source.action b.source.redirectIp

theorem zone_eq (b : Built) (hformat : b.source.format ≠ "rpz".toList) :
    b.zone = buildRpz b.domains b.source.action b.source.redirectIp (blocklistZone b.source.id)
      b.serial :=
  if_neg hformat

theorem mem_parseBody_of_mem_domains {b : Built} (h : d ∈ b.domains) :
    d ∈ parseBody b.body b.source.format := by
  have hsub (whitelist : List PatternEntry) (ds : List (List Char)) :
      whitelist.foldl (fun ds w => ds.filter (· ≠ (trimEndDots (trim w.pattern)).map Char.toLower))
        ds ⊆ ds := by
    induction whitelist generalizing ds with
    | nil => exact List.Subset.refl ds
    | cons w ws ih => exact List.Subset.trans (ih _) (List.filter_subset_self _)
  exact hsub b.whitelist _ h

end Built

namespace BlocklistStore

/-- The file read back has one record for each domain, and no other. -/
def ReadsBack (after : BlocklistStore) (b : Built) : Prop :=
  ∃ file records, after.files b.source.id = some file ∧ readZone b.origin file = some records ∧
    (records.filter isPolicy).Perm (b.domains.map (policyRecord b.origin b.policy))

/-- The number of rules that is stored for a source. -/
def storedCount (after : BlocklistStore) (b : Built) : Option Nat :=
  (after.loadSource b.source.id).map BlocklistSource.ruleCount

/-- What a refresh is to leave: one record for each domain, and their number. -/
structure OneRecordEach (after : BlocklistStore) (b : Built) : Prop where
  names : ∀ d ∈ parseBody b.body b.source.format, IsDomainName d
  records : ReadsBack after b
  counted : storedCount after b = some b.domains.length

theorem loadSource_updateRow (s : BlocklistStore) (id : Nat) (set : BlocklistSource → BlocklistSource)
    (hset : ∀ src, (set src).id = src.id) :
    (s.updateRow id set).loadSource id = (s.loadSource id).map set := by
  unfold updateRow loadSource
  dsimp only
  rw [List.find?_map]
  have hsame : ((fun src : BlocklistSource => decide (src.id = id)) ∘
      fun src => if src.id = id then set src else src) = fun src => decide (src.id = id) := by
    funext src
    rw [Function.comp_apply]
    split
    · rw [hset]
    · rfl
  rw [hsame]
  cases hfound : s.sources.find? fun src => src.id = id with
  | none => rfl
  | some src =>
    have hid := List.find?_some hfound
    exact congrArg some (if_pos (of_decide_eq_true hid))

variable {sha256Hex : List UInt8 → List Char} {s : BlocklistStore} {id : Nat}

/-- A refresh that builds a file leaves it, and the number of its rules. -/
theorem refreshSource_built (h : s.builds sha256Hex (.refreshSource id w) = some b) :
    b.source.id = id ∧ (s.refreshSource sha256Hex id w).1.files id = some b.zone ∧
      storedCount (s.refreshSource sha256Hex id w).1 b = some (countRules b.zone) := by
  obtain ⟨hnone, -⟩ | ⟨b', hbuilds, hload, -, hafter⟩ := refreshSource_cases sha256Hex s id w
  · rw [hnone] at h
    cases h
  · obtain rfl := Option.some.inj (hbuilds.symm.trans h)
    have hid := loadSource_id hload
    rw [hafter]
    refine ⟨hid, ?_, ?_⟩
    · change (s.setFile id (some b'.zone)).files id = _
      rw [setFile_files, if_pos rfl]
    · unfold storedCount recordSuccess
      rw [hid, loadSource_updateRow]
      · change ((s.loadSource id).map _).map BlocklistSource.ruleCount = _
        rw [hload]
        rfl
      · exact fun _ => rfl

/-- The record of the name server is always counted, so the number is never that of the domains.
If they are all domain names, it is one more, and the file is read back. -/
theorem refresh_overcounts (h : s.builds sha256Hex (.refreshSource id w) = some b)
    (hformat : b.source.format ≠ "rpz".toList) :
    ¬OneRecordEach (s.refreshSource sha256Hex id w).1 b ∧
      ((∀ d ∈ parseBody b.body b.source.format, IsDomainName d) →
        validateRedirectIp b.source.action b.source.redirectIp = .ok () →
        ReadsBack (s.refreshSource sha256Hex id w).1 b ∧
          storedCount (s.refreshSource sha256Hex id w).1 b = some (b.domains.length + 1)) := by
  obtain ⟨rfl, hfile, hcount⟩ := refreshSource_built h
  rw [b.zone_eq hformat] at hfile hcount
  constructor
  · rintro ⟨hnames, -, hcounted⟩
    have hlt := lt_countRules_buildRpz (blocklistZone_plain b.source.id)
      (fun d hd => hnames d (Built.mem_parseBody_of_mem_domains hd)) b.source.action
      b.source.redirectIp b.serial
    rw [hcount] at hcounted
    exact Nat.ne_of_gt hlt (Option.some.inj hcounted)
  · intro hnames hredirect
    have hdomains (d) (hd : d ∈ b.domains) := hnames d (Built.mem_parseBody_of_mem_domains hd)
    have hread := readZone_buildRpz (blocklistZone_plain b.source.id) hdomains hredirect b.serial
      b.origin
    refine ⟨⟨_, _, hfile, hread, ?_⟩, ?_⟩
    · exact filter_isPolicy_perm hredirect b.origin (blocklistZone b.source.id) b.serial b.domains
    · rw [hcount, countRules_buildRpz_of_valid (blocklistZone_plain b.source.id) hdomains hredirect]

/-- What the list of one domain is built from. -/
def oneBuilt : Built where
  source := ⟨1, "ads".toList, "ads".toList, "https://lists.example/ads".toList, "domains".toList, true,
    "nxdomain".toList, none, none, none, 0, none, false⟩
  whitelist := []
  body := oneDomain
  serial := 1

theorem refresh_overcounts_oneSource :
    oneSource.builds oneHash (.refreshSource 1 (download 1)) = some oneBuilt ∧
      ¬OneRecordEach (oneSource.refreshSource oneHash 1 (download 1)).1 oneBuilt ∧
      ReadsBack (oneSource.refreshSource oneHash 1 (download 1)).1 oneBuilt ∧
      storedCount (oneSource.refreshSource oneHash 1 (download 1)).1 oneBuilt = some 2 := by
  have hbuilds : oneSource.builds oneHash (.refreshSource 1 (download 1)) = some oneBuilt := rfl
  have hbody : parseBody oneDomain "domains".toList = ["ads.example.com".toList] := by
    decide +kernel
  obtain ⟨hnever, hread⟩ := refresh_overcounts hbuilds (by decide)
  have hnames : ∀ d ∈ parseBody oneBuilt.body oneBuilt.source.format, IsDomainName d := by
    intro d hd
    obtain rfl := List.mem_singleton.mp (hbody ▸ hd)
    exact isDomainName_ads
  obtain ⟨hback, hcount⟩ := hread hnames rfl
  refine ⟨hbuilds, hnever, hback, hcount.trans ?_⟩
  decide +kernel

/-- A list with a parenthesis in a name. -/
def strayParen : List UInt8 :=
  "0.0.0.0 (ads.example.com\n0.0.0.0 tracker.example.com\n".toUTF8.toList

def hostsSource : BlocklistStore :=
  { oneSource with
    sources := [{ oneBuilt.source with format := "hosts".toList }] }

def strayBuilt : Built := ⟨{ oneBuilt.source with format := "hosts".toList }, [], strayParen, 1⟩

/-- The name is kept, the file cannot be read, and three rules are counted in it. -/
theorem stray_paren_kept :
    hostsSource.builds oneHash (.refreshSource 1 ⟨fun _ => .ok strayParen, 1, 1, .ok ()⟩) =
        some strayBuilt ∧
      strayBuilt.domains = ["(ads.example.com".toList, "tracker.example.com".toList] ∧
      readZone strayBuilt.origin strayBuilt.zone = none ∧
      storedCount (hostsSource.refreshSource oneHash 1 ⟨fun _ => .ok strayParen, 1, 1, .ok ()⟩).1
        strayBuilt = some 3 ∧
      ¬OneRecordEach
        (hostsSource.refreshSource oneHash 1 ⟨fun _ => .ok strayParen, 1, 1, .ok ()⟩).1
        strayBuilt := by
  have hdomains : strayBuilt.domains =
      ["(ads.example.com".toList, "tracker.example.com".toList] := by decide +kernel
  have hcount : storedCount
      (hostsSource.refreshSource oneHash 1 ⟨fun _ => .ok strayParen, 1, 1, .ok ()⟩).1
      strayBuilt = some 3 := by decide +kernel
  refine ⟨rfl, hdomains, by decide +kernel, hcount, ?_⟩
  rintro ⟨-, -, hcounted⟩
  rw [hcount, hdomains] at hcounted
  cases hcounted

end BlocklistStore

end AiFw.Dns
