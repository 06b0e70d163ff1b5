import AiFw.Dns.Blocklist
import AiFw.Lib.MasterFile
import AiFw.Net.IpText

namespace AiFw.Dns
open AiFw.Lib AiFw.Net
open AiFw.Geo (lines utf8Len)
open AiFw.Lib.MasterFile (Name Record Reading Lexer isPlain plainWord readZone readEntry)
set_option autoImplicit true

/-- The signs that mean something in a zone file, apart from blanks. -/
def zoneSigns : List Char := [';', '"', '(', ')', '\\', '$', '@']

/-- The name of a domain, which a zone file can have as it is. -/
structure IsDomainName (d : List Char) : Prop where
  labels : ∀ l ∈ splitOn '.' d, l ≠ [] ∧ utf8Len l ≤ 63
  short : utf8Len d ≤ 253
  signs : ∀ c ∈ d, isWhitespace c = false ∧ c ∉ zoneSigns

/-- The type and the data of the records that carry out an action. -/
def policyData (action : List Char) (redirectIp : Option (List Char)) : List Char × List Char :=
  if action = "redirect".toList then
    let ip := redirectIp.getD "0.0.0.0".toList
    if ip.contains ':' then ("AAAA".toList, ip) else ("A".toList, ip)
  else if action = "nodata".toList then ("CNAME".toList, "*.".toList)
  else if action = "drop".toList then ("CNAME".toList, "rpz-drop.".toList)
  else ("CNAME".toList, ".".toList)

/-- The record of a zone that blocks a domain. -/
def policyRecord (origin : Name) (policy : List Char × List Char) (d : List Char) : Record :=
  ⟨splitOn '.' d ++ origin, policy.1, [policy.2]⟩

/-- A record that is not there for the zone itself. -/
def isPolicy (r : Record) : Bool := r.type ≠ "SOA".toList && r.type ≠ "NS".toList

/-- The words of the record that holds the serial. -/
def soaWords (zone : List Char) (serial : Nat) : List (List Char) :=
  ["@".toList, "IN".toList, "SOA".toList, zone ++ ['.'], "admin.".toList ++ zone ++ ['.'],
    Nat.toDigits 10 serial, "3600".toList, "900".toList, "604800".toList, "300".toList]

theorem zoneHeader_eq (zone : List Char) (serial : Nat) :
    zoneHeader zone serial = "$TTL 300\n".toList ++
      (([' '].intercalate (soaWords zone serial) ++ ['\n']) ++ "  IN NS  localhost.\n".toList) := by
  unfold zoneHeader soaWords
  simp only [List.intercalate, List.intersperse, List.flatten_cons, List.flatten_nil,
    List.append_assoc]
  rfl

/-- The words of the record of a domain. -/
def policyWords (policy : List Char × List Char) (d : List Char) : List (List Char) :=
  [d, policy.1, policy.2]

theorem actionLine_eq (action : List Char) (redirectIp : Option (List Char)) (d : List Char) :
    actionLine action redirectIp d =
      [' '].intercalate (policyWords (policyData action redirectIp) d) ++ ['\n'] := by
  unfold actionLine policyWords policyData
  split
  · dsimp only
    split
    · simp only [List.intercalate, List.intersperse, List.flatten_cons, List.flatten_nil,
        List.append_assoc, List.append_nil]
      rfl
    · simp only [List.intercalate, List.intersperse, List.flatten_cons, List.flatten_nil,
        List.append_assoc, List.append_nil]
      rfl
  · split
    · simp only [List.intercalate, List.intersperse, List.flatten_cons, List.flatten_nil,
        List.append_assoc]
      rfl
    · split
      · simp only [List.intercalate, List.intersperse, List.flatten_cons, List.flatten_nil,
          List.append_assoc]
        rfl
      · simp only [List.intercalate, List.intersperse, List.flatten_cons, List.flatten_nil,
          List.append_assoc]
        rfl

theorem isPlain_of_signs {c : Char} (hblank : isWhitespace c = false) (hsign : c ∉ zoneSigns) :
    isPlain c = true := by
  have hother : ∀ d ∈ ['\n', ' ', '\t', '\r', ';', '(', ')', '"', '\\'],
      isWhitespace d = true ∨ d ∈ zoneSigns := forall_mem_of_all (by decide)
  rw [isPlain, Bool.not_eq_true', ← Bool.not_eq_true, List.contains_iff_mem]
  intro hin
  obtain h | h := hother c hin
  · rw [hblank] at h
    cases h
  · exact hsign h

theorem isPlain_of_addrChar {c : Char} (h : isAddrChar c = true) : isPlain c = true := by
  have hother : ∀ d ∈ ['\n', ' ', '\t', '\r', ';', '(', ')', '"', '\\'], isAddrChar d = false :=
    forall_mem_of_all (by decide)
  rw [isPlain, Bool.not_eq_true', ← Bool.not_eq_true, List.contains_iff_mem]
  intro hin
  rw [hother c hin] at h
  cases h

theorem isPlain_of_digits (n : Nat) : ∀ c ∈ Nat.toDigits 10 n, isPlain c = true := by
  intro c hc
  have hdigit := isSome_toDigit_of_mem (b := 10) (by decide) (by decide) n hc
  exact isPlain_of_addrChar (isAddrChar_of_digit (by decide) hdigit)

/-- A word that is read as it is written. -/
structure PlainWord (w : List Char) : Prop where
  nonempty : w ≠ []
  plain : ∀ c ∈ w, isPlain c = true

theorem plainWord_of_redirect {ip : List Char} (h : (IpAddr.parse ip).isNone = false) :
    PlainWord ip := by
  have hsome : (IpAddr.parse ip).isSome = true := by rw [← Option.not_isNone, h, Bool.not_false]
  obtain ⟨addr, hparse⟩ := Option.isSome_iff_exists.mp hsome
  exact ⟨IpAddr.parse_ne_nil hparse,
    fun c hc => isPlain_of_addrChar (IpAddr.parse_chars hparse c hc)⟩

/-- The words of a valid action. -/
theorem policyData_plain (h : validateRedirectIp action redirectIp = .ok ()) :
    (policyData action redirectIp).1 ∈ ["CNAME".toList, "A".toList, "AAAA".toList] ∧
      PlainWord (policyData action redirectIp).2 := by
  unfold policyData
  unfold validateRedirectIp at h
  split
  · next hredirect =>
    rw [if_neg (not_not.mpr hredirect)] at h
    have hip : PlainWord (redirectIp.getD "0.0.0.0".toList) := by
      cases redirectIp with
      | none => exact ⟨by decide, forall_mem_of_all (by decide)⟩
      | some ip =>
        dsimp only at h
        split at h
        · cases h
        · next hsome => exact plainWord_of_redirect (Bool.not_eq_true _ ▸ hsome)
    dsimp only
    split
    · exact ⟨.tail _ (.tail _ (.head _)), hip⟩
    · exact ⟨.tail _ (.head _), hip⟩
  · split
    · exact ⟨by decide, by decide, forall_mem_of_all (by decide)⟩
    · split
      · exact ⟨by decide, by decide, forall_mem_of_all (by decide)⟩
      · exact ⟨by decide, by decide, forall_mem_of_all (by decide)⟩

theorem IsDomainName.plain (h : IsDomainName d) : PlainWord d := by
  refine ⟨?_, fun c hc => isPlain_of_signs (h.signs c hc).1 (h.signs c hc).2⟩
  rintro rfl
  exact (h.labels [] (by decide)).1 rfl

theorem isDomainName_ads : IsDomainName "ads.example.com".toList where
  labels := by decide
  short := by decide
  signs := forall_mem_of_all (by decide)

/-- The name of the zone of a source. -/
def blocklistZone (id : Nat) : List Char := "rpz.blocklist-".toList ++ Nat.toDigits 10 id

theorem blocklistZone_plain (id : Nat) : ∀ c ∈ blocklistZone id, isPlain c = true :=
  List.forall_mem_append.mpr ⟨forall_mem_of_all (by decide), isPlain_of_digits id⟩

/-- The records of the zone itself. -/
def ownRecords (origin : Name) (zone : List Char) (serial : Nat) : List Record :=
  [⟨origin, "SOA".toList, (soaWords zone serial).drop 3⟩,
    ⟨origin, "NS".toList, ["localhost.".toList]⟩]

def sortedDomains (domains : List (List Char)) : List (List Char) :=
  domains.insertionSort fun a b => textLe a b = true

theorem zoneRecords_eq (domains : List (List Char)) (action : List Char)
    (redirectIp : Option (List Char)) :
    zoneRecords domains action redirectIp =
      ((sortedDomains domains).map fun d =>
        [' '].intercalate (policyWords (policyData action redirectIp) d) ++ ['\n']).flatten :=
  congrArg (fun f => ((sortedDomains domains).map f).flatten)
    (funext (actionLine_eq action redirectIp))

theorem mem_sortedDomains {domains : List (List Char)} : d ∈ sortedDomains domains ↔ d ∈ domains :=
  List.mem_insertionSort _

theorem length_sortedDomains (domains : List (List Char)) :
    (sortedDomains domains).length = domains.length :=
  List.length_insertionSort _ domains

/-- The entries of a zone file. -/
def zoneEntries (zone : List Char) (serial : Nat) (policy : List Char × List Char)
    (domains : List (List Char)) : List MasterFile.Entry :=
  [⟨false, ["$TTL".toList, "300".toList].map plainWord⟩,
    ⟨false, (soaWords zone serial).map plainWord⟩,
    ⟨true, ["IN".toList, "NS".toList, "localhost.".toList].map plainWord⟩] ++
    (sortedDomains domains).map fun d => ⟨false, (policyWords policy d).map plainWord⟩

theorem run_ttl : "$TTL 300\n".toList.foldlM Lexer.step Lexer.initial =
    some (Lexer.idle [⟨false, ["$TTL".toList, "300".toList].map plainWord⟩]) := rfl

/-- The second line of the header begins with a blank. -/
theorem run_ns (es : List MasterFile.Entry) :
    "  IN NS  localhost.\n".toList.foldlM Lexer.step (Lexer.idle es) =
      some (Lexer.idle
        (es ++ [⟨true, ["IN".toList, "NS".toList, "localhost.".toList].map plainWord⟩])) := rfl

theorem soaWords_plain (hzone : ∀ c ∈ zone, isPlain c = true) (serial : Nat) :
    ∀ w ∈ soaWords zone serial, w ≠ [] ∧ ∀ c ∈ w, isPlain c = true := by
  have hdot : ∀ c ∈ ['.'], isPlain c = true := forall_mem_of_all (by decide)
  have hadmin : ∀ c ∈ "admin.".toList, isPlain c = true :=
    forall_mem_of_all (by decide)
  have hfixed (w : List Char) (h : w ∈ ["@".toList, "IN".toList, "SOA".toList, "3600".toList,
      "900".toList, "604800".toList, "300".toList]) : w ≠ [] ∧ ∀ c ∈ w, isPlain c = true := by
    have hall : ∀ w ∈ ["@".toList, "IN".toList, "SOA".toList, "3600".toList, "900".toList,
        "604800".toList, "300".toList], w ≠ [] ∧ w.all isPlain = true := by decide
    exact (hall w h).imp_right List.all_eq_true.mp
  intro w hw
  simp only [soaWords, List.mem_cons, List.not_mem_nil, or_false] at hw
  obtain rfl | rfl | rfl | rfl | rfl | rfl | rfl | rfl | rfl | rfl := hw
  · exact hfixed _ (by decide)
  · exact hfixed _ (by decide)
  · exact hfixed _ (by decide)
  · refine ⟨List.append_ne_nil_of_right_ne_nil _ (List.cons_ne_nil _ _), ?_⟩
    exact List.forall_mem_append.mpr ⟨hzone, hdot⟩
  · refine ⟨List.append_ne_nil_of_right_ne_nil _ (List.cons_ne_nil _ _), ?_⟩
    exact List.forall_mem_append.mpr ⟨List.forall_mem_append.mpr ⟨hadmin, hzone⟩, hdot⟩
  · exact ⟨Nat.toDigits_ne_nil, isPlain_of_digits serial⟩
  · exact hfixed _ (by decide)
  · exact hfixed _ (by decide)
  · exact hfixed _ (by decide)
  · exact hfixed _ (by decide)

theorem policyType_plain {t : List Char} (ht : t ∈ ["CNAME".toList, "A".toList, "AAAA".toList]) :
    t ≠ [] ∧ ∀ c ∈ t, isPlain c = true := by
  have hall : ∀ t ∈ ["CNAME".toList, "A".toList, "AAAA".toList], t ≠ [] ∧ t.all isPlain = true := by
    decide
  exact (hall t ht).imp_right List.all_eq_true.mp

theorem policyWords_plain (hd : PlainWord d)
    (hredirect : validateRedirectIp action redirectIp = .ok ()) :
    ∀ w ∈ policyWords (policyData action redirectIp) d, w ≠ [] ∧ ∀ c ∈ w, isPlain c = true := by
  obtain ⟨htype, hdata⟩ := policyData_plain hredirect
  intro w hw
  simp only [policyWords, List.mem_cons, List.not_mem_nil, or_false] at hw
  obtain rfl | rfl | rfl := hw
  · exact ⟨hd.nonempty, hd.plain⟩
  · exact policyType_plain htype
  · exact ⟨hdata.nonempty, hdata.plain⟩

theorem entriesOf_buildRpz (hzone : ∀ c ∈ zone, isPlain c = true)
    (hdomains : ∀ d ∈ domains, PlainWord d)
    (hredirect : validateRedirectIp action redirectIp = .ok ()) :
    MasterFile.entriesOf (buildRpz domains action redirectIp zone serial) =
      some (zoneEntries zone serial (policyData action redirectIp) domains) := by
  have hwords (d) (hd : d ∈ sortedDomains domains) :
      policyWords (policyData action redirectIp) d ≠ [] ∧
        ∀ w ∈ policyWords (policyData action redirectIp) d, w ≠ [] ∧ ∀ c ∈ w, isPlain c = true :=
    ⟨List.cons_ne_nil _ _,
      policyWords_plain (hdomains d (mem_sortedDomains.mp hd)) hredirect⟩
  have hsoa (es : List MasterFile.Entry) :
      ([' '].intercalate (soaWords zone serial) ++ ['\n']).foldlM Lexer.step (Lexer.idle es) =
        some (Lexer.idle (es ++ [⟨false, (soaWords zone serial).map plainWord⟩])) :=
    Lexer.run_line _ (List.cons_ne_nil _ _) (soaWords_plain hzone serial)
  unfold MasterFile.entriesOf buildRpz
  rw [zoneHeader_eq, zoneRecords_eq, List.foldlM_append, List.foldlM_append, run_ttl,
    Option.bind_eq_bind, Option.bind_some, List.foldlM_append, hsoa, Option.bind_eq_bind,
    Option.bind_some, run_ns, Option.bind_some, Lexer.run_lines _ _ hwords]
  rfl

theorem readEntry_soa (origin : Name) (zone : List Char) (serial : Nat) :
    readEntry ⟨origin, none, []⟩ ⟨false, (soaWords zone serial).map plainWord⟩ =
      some ⟨origin, some origin, [⟨origin, "SOA".toList, (soaWords zone serial).drop 3⟩]⟩ := by
  have hrest : MasterFile.dropTtlClass ((soaWords zone serial).tail.map plainWord) =
      plainWord "SOA".toList :: ((soaWords zone serial).drop 3).map plainWord := rfl
  have hentry : readEntry ⟨origin, none, []⟩
      ⟨false, plainWord "@".toList :: (soaWords zone serial).tail.map plainWord⟩ = _ :=
    MasterFile.readEntry_name rfl (by decide) hrest
  rw [MasterFile.spelled_plainWords, MasterFile.spelled_plainWord] at hentry
  exact hentry

theorem readEntry_policy (hd : IsDomainName d)
    (hredirect : validateRedirectIp action redirectIp = .ok ()) (origin : Name)
    (owner : Option Name) (records : List Record) :
    readEntry ⟨origin, owner, records⟩
        ⟨false, (policyWords (policyData action redirectIp) d).map plainWord⟩ =
      some ⟨origin, some (policyRecord origin (policyData action redirectIp) d).owner,
        records ++ [policyRecord origin (policyData action redirectIp) d]⟩ := by
  obtain ⟨htype, -⟩ := policyData_plain hredirect
  generalize policyData action redirectIp = policy at htype ⊢
  obtain ⟨type, rdata⟩ := policy
  have hother : ∀ t ∈ ["CNAME".toList, "A".toList, "AAAA".toList],
      MasterFile.isTtl (plainWord t) = false ∧ MasterFile.isClass (plainWord t) = false := by decide
  have hrest : MasterFile.dropTtlClass [plainWord type, plainWord rdata] =
      [plainWord type, plainWord rdata] := by
    unfold MasterFile.dropTtlClass
    dsimp only
    rw [(hother type htype).1, (hother type htype).2, if_neg Bool.false_ne_true,
      if_neg Bool.false_ne_true]
  have hsign (c : Char) (hc : c ∈ zoneSigns) : c ∉ d := fun hin => (hd.signs c hin).2 hc
  have hname : MasterFile.resolve origin (plainWord d) = some (splitOn '.' d ++ origin) := by
    apply MasterFile.resolve_plainWord fun l hl => (hd.labels l hl).1
    rintro rfl
    exact hsign '@' (by decide) (by decide)
  have hcontrol : (plainWord d).head? ≠ some ('$', false) := by
    intro hhead
    rw [plainWord, List.head?_map] at hhead
    obtain ⟨c, hc, heq⟩ := Option.map_eq_some_iff.mp hhead
    obtain rfl : c = '$' := (Prod.mk.inj heq).1
    exact hsign '$' (by decide) (List.mem_of_head? hc)
  have hentry : readEntry ⟨origin, owner, records⟩
      ⟨false, [plainWord d, plainWord type, plainWord rdata]⟩ = _ :=
    MasterFile.readEntry_name hname hcontrol hrest
  rw [MasterFile.spelled_plainWord, List.map_singleton, MasterFile.spelled_plainWord] at hentry
  exact hentry

/-- The zone of domain names is read as it is meant. -/
theorem readZone_buildRpz (hzone : ∀ c ∈ zone, isPlain c = true)
    (hdomains : ∀ d ∈ domains, IsDomainName d)
    (hredirect : validateRedirectIp action redirectIp = .ok ()) (serial : Nat) (origin : Name) :
    readZone origin (buildRpz domains action redirectIp zone serial) =
      some (ownRecords origin zone serial ++
        (sortedDomains domains).map (policyRecord origin (policyData action redirectIp))) := by
  have hpolicies (d) (hd : d ∈ sortedDomains domains) :=
    readEntry_policy (hdomains d (mem_sortedDomains.mp hd)) hredirect origin
  have hown : ([⟨false, ["$TTL".toList, "300".toList].map plainWord⟩,
        ⟨false, (soaWords zone serial).map plainWord⟩,
        ⟨true, ["IN".toList, "NS".toList, "localhost.".toList].map plainWord⟩] :
          List MasterFile.Entry).foldlM readEntry ⟨origin, none, []⟩ =
      some ⟨origin, some origin, ownRecords origin zone serial⟩ := by
    have hfirst : readEntry ⟨origin, none, []⟩
        ⟨false, ["$TTL".toList, "300".toList].map plainWord⟩ = some ⟨origin, none, []⟩ := rfl
    rw [List.foldlM_cons, hfirst, Option.bind_eq_bind, Option.bind_some, List.foldlM_cons,
      readEntry_soa, Option.bind_eq_bind, Option.bind_some]
    rfl
  unfold readZone
  rw [entriesOf_buildRpz hzone (fun d hd => (hdomains d hd).plain) hredirect, Option.bind_some]
  unfold zoneEntries
  rw [List.foldlM_append, hown, Option.bind_eq_bind, Option.bind_some]
  exact MasterFile.read_records _ _ origin _ hpolicies _ _

end AiFw.Dns
