import AiFw.Dns.RuleCount

namespace AiFw.Dns
open AiFw.Lib AiFw.Net
open AiFw.Geo (lines)
open AiFw.Lib.MasterFile (Name Record isPlain readZone)
set_option autoImplicit true

/-- The labels of a domain, in lower case. -/
def labels (d : List Char) : Name := splitOn '.' (d.map Char.toLower)

/-- A name that is properly below another. -/
def IsSubdomain (n x : Name) : Prop := ∃ front, front ≠ [] ∧ n = front ++ x

/-- A trigger matches its own name, and as a wildcard every name below. -/
def Matches (trigger n : Name) : Prop := trigger = n ∨ ∃ x, trigger = ['*'] :: x ∧ IsSubdomain n x

/-- A zone applies an action to a domain. -/
def Applies (origin : Name) (policy : List Char × List Char) (records : List Record)
    (n : List Char) : Prop :=
  ∃ r ∈ records, r.type = policy.1 ∧ r.rdata = [policy.2] ∧
    ∃ trigger, r.owner = trigger ++ origin ∧ Matches trigger (labels n)

/-- The record a line shows: its owner is the word the line begins with. -/
def lineRecord (origin : Name) (line : List Char) : Option Record :=
  if line.head? = some ' ' then none
  else
    match (splitOn ' ' line).filter (· ≠ []) with
    | owner :: type :: rdata => some ⟨splitOn '.' owner ++ origin, type, rdata⟩
    | _ => none

/-- The records of a zone file as its lines show them. -/
def textRecords (origin : Name) (file : List Char) : List Record :=
  (lines file).filterMap (lineRecord origin)

/-- A line of the body offers the domain. -/
def Lists (body : List UInt8) (format d : List Char) : Prop :=
  ∃ rawLine ∈ lines (fromUtf8Lossy body), ∃ line,
    line = trim (rawLine.takeWhile fun c => c ≠ '#') ∧ line ≠ [] ∧
      ∃ c ∈ candidates format line, candidateDomain c = some d

theorem mem_foldl_insertDomain (found domains : List (List Char)) :
    d ∈ found.foldl insertDomain domains ↔ d ∈ domains ∨ d ∈ found := by
  induction found generalizing domains with
  | nil => exact ⟨.inl, fun h => h.resolve_right List.not_mem_nil⟩
  | cons x found ih =>
    have hinsert : d ∈ insertDomain domains x ↔ d ∈ domains ∨ d = x := by
      unfold insertDomain
      split
      · next hin =>
        rw [List.contains_iff_mem] at hin
        exact ⟨.inl, fun h => h.elim id fun hd => hd ▸ hin⟩
      · rw [List.mem_append, List.mem_singleton]
    rw [List.foldl_cons, ih, hinsert, List.mem_cons, or_assoc]

theorem mem_parseBody : d ∈ parseBody body format ↔ Lists body format d := by
  unfold parseBody Lists
  dsimp only
  rw [mem_foldl_insertDomain, or_iff_right List.not_mem_nil, List.mem_flatMap]
  apply exists_congr
  intro rawLine
  apply and_congr_right
  intro _
  rw [exists_eq_left]
  split
  · next hempty =>
    rw [List.isEmpty_iff] at hempty
    exact ⟨fun h => absurd h List.not_mem_nil, fun h => absurd hempty h.1⟩
  · next hline =>
    rw [List.isEmpty_iff] at hline
    rw [List.mem_filterMap, and_iff_right hline]

theorem trimWildcards_ne (s rest : List Char) : trimWildcards s ≠ '*' :: '.' :: rest := by
  induction s using trimWildcards.induct with
  | case1 rest' ih =>
    rw [trimWildcards]
    exact ih
  | case2 s hother =>
    rw [trimWildcards]
    · exact fun h => hother rest h
    · exact hother

/-- What is kept of a name is one word, and no wildcard. -/
structure Kept (d : List Char) : Prop where
  dotted : '.' ∈ d
  word : ∀ c ∈ d, isWhitespace c = false
  plain : ∀ rest, d ≠ '*' :: '.' :: rest

theorem kept_of_candidateDomain (h : candidateDomain c = some d) : Kept d := by
  unfold candidateDomain at h
  dsimp only at h
  split at h
  · cases h
  · next hname =>
    split at h
    · cases h
    · next hdots =>
      simp only [Bool.or_eq_true, not_or, Bool.not_eq_true, Bool.not_eq_false'] at hname hdots
      have hd := Option.some.inj h
      refine ⟨?_, ?_, ?_⟩
      · rw [← hd]
        exact List.mem_map.mpr ⟨'.', List.contains_iff_mem.mp hdots.1, rfl⟩
      · intro x hx
        rw [← hd] at hx
        obtain ⟨y, hy, rfl⟩ := List.mem_map.mp hx
        have hblank := Bool.not_eq_true _ ▸ List.any_eq_false.mp hdots.2 y hy
        exact forall_toLower
          (P := fun c e => isWhitespace c = false → isWhitespace e = false) (by decide +kernel)
          (fun _ => id) y hblank
      · intro rest hrest
        rw [hrest] at hd
        obtain ⟨a, t, ht, ha, htail⟩ := List.map_eq_cons_iff.mp hd
        obtain ⟨b, t', rfl, hb, -⟩ := List.map_eq_cons_iff.mp htail
        have hsign (x : Char) (e : Char) (hx : x.toLower = e) (he : e = '*' ∨ e = '.') : x = e :=
          forall_toLower (P := fun c e => (e = '*' ∨ e = '.') → c = e) (by decide +kernel)
            (fun _ _ => rfl) x (hx ▸ he) |>.trans hx
        rw [hsign a '*' ha (.inl rfl), hsign b '.' hb (.inr rfl)] at ht
        exact trimWildcards_ne _ _ ht

theorem kept_of_lists (h : Lists body format d) : Kept d := by
  obtain ⟨rawLine, -, line, -, -, c, -, hc⟩ := h
  exact kept_of_candidateDomain hc

theorem splitOn_dot_inj (h : splitOn '.' a = splitOn '.' b) : a = b := by
  rw [splitOn_eq, splitOn_eq] at h
  have hjoin := congrArg ['.'].intercalate h
  rwa [List.intercalate_splitOn, List.intercalate_splitOn] at hjoin

theorem Kept.nonempty (h : Kept d) : d ≠ [] := List.ne_nil_of_mem h.dotted

/-- A name that is kept is matched exactly. -/
theorem Kept.matches_iff (hd : Kept d) (n : List Char) :
    Matches (splitOn '.' d) (labels n) ↔ n.map Char.toLower = d := by
  unfold Matches labels
  constructor
  · rintro (h | ⟨x, h, -⟩)
    · exact (splitOn_dot_inj h).symm
    · have hjoin : d = ['.'].intercalate (['*'] :: x) := by
        rw [← h, splitOn_eq, List.intercalate_splitOn]
      cases x with
      | nil =>
        have hdot := hd.dotted
        rw [hjoin, List.intercalate_singleton] at hdot
        exact absurd hdot (by decide)
      | cons l ls =>
        rw [List.intercalate_cons_cons] at hjoin
        exact absurd hjoin (hd.plain _)
  · rintro rfl
    exact .inl rfl

/-- Records of names that are kept apply the action to these names alone. -/
theorem applies_policies_iff {own : List Record} (hown : ∀ r ∈ own, r.type ≠ policy.1)
    (hkept : ∀ d ∈ domains, Kept d) (origin : Name) (n : List Char) :
    Applies origin policy (own ++ (sortedDomains domains).map (policyRecord origin policy)) n ↔
      n.map Char.toLower ∈ domains := by
  unfold Applies
  constructor
  · rintro ⟨r, hr, htype, -, trigger, howner, hmatch⟩
    obtain hr | hr := List.mem_append.mp hr
    · exact absurd htype (hown r hr)
    · obtain ⟨d, hd, rfl⟩ := List.mem_map.mp hr
      have hin := mem_sortedDomains.mp hd
      rw [← List.append_cancel_right howner] at hmatch
      rw [((hkept d hin).matches_iff n).mp hmatch]
      exact hin
  · intro hin
    refine ⟨policyRecord origin policy (n.map Char.toLower), ?_, rfl, rfl, labels n, rfl, .inl rfl⟩
    exact List.mem_append_right _
      (List.mem_map.mpr ⟨_, mem_sortedDomains.mpr hin, rfl⟩)

/-- A word that neither a blank nor the end of a line cuts. -/
structure Uncut (w : List Char) : Prop where
  nonempty : w ≠ []
  whole : ∀ c ∈ ['\n', '\r', ' '], c ∉ w

theorem uncut_of_plain (hne : w ≠ []) (h : ∀ c ∈ w, isPlain c = true) : Uncut w := by
  have hother : ∀ c ∈ ['\n', '\r', ' '], isPlain c = false :=
    forall_mem_of_all (by decide)
  refine ⟨hne, ?_⟩
  intro c hc hin
  have hplain := h c hin
  rw [hother c hc] at hplain
  cases hplain

theorem Kept.uncut (h : Kept d) : Uncut d := by
  have hother : ∀ c ∈ ['\n', '\r', ' '], isWhitespace c = true :=
    forall_mem_of_all (by decide)
  refine ⟨h.nonempty, ?_⟩
  intro c hc hin
  have hword := h.word c hin
  rw [hother c hc] at hword
  cases hword

theorem lineRecord_words {owner type : List Char} {rdata : List (List Char)}
    (h : ∀ w ∈ owner :: type :: rdata, Uncut w) (origin : Name) :
    lineRecord origin ([' '].intercalate (owner :: type :: rdata)) =
      some ⟨splitOn '.' owner ++ origin, type, rdata⟩ := by
  have howner := h owner List.mem_cons_self
  obtain ⟨c, cs, hcons⟩ := List.exists_cons_of_ne_nil howner.nonempty
  have hhead : ([' '].intercalate (owner :: type :: rdata)).head? ≠ some ' ' := by
    rw [List.intercalate_cons_cons, hcons, List.append_assoc, List.cons_append, List.head?_cons]
    intro hblank
    have hin : ' ' ∈ owner := by
      rw [hcons, Option.some.inj hblank]
      exact List.mem_cons_self
    exact howner.whole ' ' (by decide) hin
  have hwords : (splitOn ' ' ([' '].intercalate (owner :: type :: rdata))).filter (· ≠ []) =
      owner :: type :: rdata := by
    rw [splitOn_intercalate (fun w hw => (h w hw).whole ' ' (by decide)) (List.cons_ne_nil _ _)]
    exact List.filter_eq_self.mpr fun w hw => decide_eq_true (h w hw).nonempty
  unfold lineRecord
  rw [if_neg hhead, hwords]

section
variable {domains : List (List Char)}

theorem policyWords_uncut (hd : Uncut d)
    (hredirect : validateRedirectIp action redirectIp = .ok ()) :
    ∀ w ∈ policyWords (policyData action redirectIp) d, Uncut w := by
  obtain ⟨htype, hdata⟩ := policyData_plain hredirect
  intro w hw
  simp only [policyWords, List.mem_cons, List.not_mem_nil, or_false] at hw
  obtain rfl | rfl | rfl := hw
  · exact hd
  · exact uncut_of_plain (policyType_plain htype).1 (policyType_plain htype).2
  · exact uncut_of_plain hdata.nonempty hdata.plain

theorem soaWords_uncut (hzone : ∀ c ∈ zone, isPlain c = true) (serial : Nat) :
    ∀ w ∈ soaWords zone serial, Uncut w := by
  intro w hw
  have hplain := soaWords_plain hzone serial w hw
  exact uncut_of_plain hplain.1 hplain.2

theorem lines_buildRpz (hzone : ∀ c ∈ zone, isPlain c = true) (hdomains : ∀ d ∈ domains, Uncut d)
    (hredirect : validateRedirectIp action redirectIp = .ok ()) (serial : Nat) :
    lines (buildRpz domains action redirectIp zone serial) =
      ["$TTL 300".toList, [' '].intercalate (soaWords zone serial), "  IN NS  localhost.".toList] ++
        (sortedDomains domains).map fun d =>
          [' '].intercalate (policyWords (policyData action redirectIp) d) := by
  have htext : buildRpz domains action redirectIp zone serial =
      (["$TTL 300".toList, [' '].intercalate (soaWords zone serial),
        "  IN NS  localhost.".toList] ++ (sortedDomains domains).map fun d =>
          [' '].intercalate (policyWords (policyData action redirectIp) d)).flatMap
            fun l => l ++ ['\n'] := by
    rw [buildRpz, zoneHeader_eq, zoneRecords_eq, List.flatMap_append, List.flatMap_map,
      List.flatMap_cons, List.flatMap_cons, List.flatMap_cons, List.flatMap_nil, List.append_nil,
      ← List.flatMap_def]
    rfl
  have hwords (ws : List (List Char)) (h : ∀ w ∈ ws, Uncut w) :
      '\n' ∉ [' '].intercalate ws ∧ '\r' ∉ [' '].intercalate ws :=
    ⟨notMem_intercalate_blank (fun w hw => (h w hw).whole _ (by decide)) (by decide),
      notMem_intercalate_blank (fun w hw => (h w hw).whole _ (by decide)) (by decide)⟩
  rw [htext]
  apply Geo.lines_ended
  intro l hl
  obtain hl | hl := List.mem_append.mp hl
  · simp only [List.mem_cons, List.not_mem_nil, or_false] at hl
    obtain rfl | rfl | rfl := hl
    · decide
    · exact hwords _ (soaWords_uncut hzone serial)
    · decide
  · obtain ⟨d, hd, rfl⟩ := List.mem_map.mp hl
    exact hwords _
      (policyWords_uncut (hdomains d (mem_sortedDomains.mp hd)) hredirect)

/-- The lines of the header show records of no action. -/
theorem textRecords_buildRpz (hzone : ∀ c ∈ zone, isPlain c = true)
    (hdomains : ∀ d ∈ domains, Uncut d)
    (hredirect : validateRedirectIp action redirectIp = .ok ()) (serial : Nat) (origin : Name) :
    textRecords origin (buildRpz domains action redirectIp zone serial) =
      [⟨["$TTL".toList] ++ origin, "300".toList, []⟩,
          ⟨["@".toList] ++ origin, "IN".toList, (soaWords zone serial).drop 2⟩] ++
        (sortedDomains domains).map (policyRecord origin (policyData action redirectIp)) := by
  have hsoa : lineRecord origin ([' '].intercalate (soaWords zone serial)) =
      some ⟨["@".toList] ++ origin, "IN".toList, (soaWords zone serial).drop 2⟩ :=
    lineRecord_words (soaWords_uncut hzone serial) origin
  have httl : lineRecord origin "$TTL 300".toList =
      some ⟨["$TTL".toList] ++ origin, "300".toList, []⟩ := rfl
  have hserver : lineRecord origin "  IN NS  localhost.".toList = none := rfl
  have hpolicies : ∀ d ∈ sortedDomains domains,
      lineRecord origin ([' '].intercalate (policyWords (policyData action redirectIp) d)) =
        some (policyRecord origin (policyData action redirectIp) d) := by
    intro d hd
    exact lineRecord_words
      (policyWords_uncut (hdomains d (mem_sortedDomains.mp hd)) hredirect) origin
  unfold textRecords
  rw [lines_buildRpz hzone hdomains hredirect, List.filterMap_append, List.filterMap_map,
    List.filterMap_cons_some httl, List.filterMap_cons_some hsoa, List.filterMap_cons_none hserver,
    List.filterMap_nil]
  exact congrArg _ ((List.filterMap_congr hpolicies).trans (congrFun List.filterMap_eq_map _))

end

/-- The types the header shows are those of no action. -/
theorem ne_policyType {t : List Char} (hredirect : validateRedirectIp action redirectIp = .ok ())
    (ht : t ∈ ["300".toList, "IN".toList, "SOA".toList, "NS".toList]) :
    t ≠ (policyData action redirectIp).1 := by
  have hother : ∀ t ∈ ["300".toList, "IN".toList, "SOA".toList, "NS".toList],
      t ∉ ["CNAME".toList, "A".toList, "AAAA".toList] := by decide
  rintro rfl
  exact hother _ ht (policyData_plain hredirect).1

/-- The action is applied to the names a body lists, and to no others. -/
theorem applies_text_iff (hzone : ∀ c ∈ zone, isPlain c = true)
    (hredirect : validateRedirectIp action redirectIp = .ok ()) (body : List UInt8)
    (format : List Char) (serial : Nat) (origin : Name) (n : List Char) :
    Applies origin (policyData action redirectIp)
        (textRecords origin (buildRpz (parseBody body format) action redirectIp zone serial)) n ↔
      Lists body format (n.map Char.toLower) := by
  have hkept (d) (hd : d ∈ parseBody body format) : Kept d := kept_of_lists (mem_parseBody.mp hd)
  rw [textRecords_buildRpz hzone (fun d hd => (hkept d hd).uncut) hredirect,
    applies_policies_iff _ hkept, mem_parseBody]
  intro r hr
  obtain rfl | rfl := List.mem_pair.mp hr
  · exact ne_policyType hredirect (.head _)
  · exact ne_policyType hredirect (.tail _ (.head _))

/-- So it is in the zone as it is read, if all the names are domain names. -/
theorem applies_read_iff (hzone : ∀ c ∈ zone, isPlain c = true)
    (hredirect : validateRedirectIp action redirectIp = .ok ())
    (hnames : ∀ d, Lists body format d → IsDomainName d) (serial : Nat) (origin : Name) :
    ∃ records,
      readZone origin (buildRpz (parseBody body format) action redirectIp zone serial) =
        some records ∧
      ∀ n, Applies origin (policyData action redirectIp) records n ↔
        Lists body format (n.map Char.toLower) := by
  have hkept (d) (hd : d ∈ parseBody body format) : Kept d := kept_of_lists (mem_parseBody.mp hd)
  refine ⟨_, readZone_buildRpz hzone (fun d hd => hnames d (mem_parseBody.mp hd)) hredirect serial
    origin, ?_⟩
  intro n
  rw [applies_policies_iff _ hkept, mem_parseBody]
  intro r hr
  obtain rfl | rfl := List.mem_pair.mp hr
  · exact ne_policyType hredirect (.tail _ (.tail _ (.head _)))
  · exact ne_policyType hredirect (.tail _ (.tail _ (.tail _ (.head _))))

/-- A zone applies an action to every name below a domain. -/
def Covers (origin : Name) (policy : List Char × List Char) (records : List Record)
    (d : List Char) : Prop :=
  ∀ n, IsDomainName n → IsSubdomain (labels n) (labels d) → Applies origin policy records n

/-- No entry covers what is below its domain: the action is applied there exactly as far as the
body lists these names too. -/
theorem covers_iff_listed (hredirect : validateRedirectIp action redirectIp = .ok ())
    (body : List UInt8) (format d : List Char) (id serial : Nat) (origin : Name) :
    (Covers origin (policyData action redirectIp)
        (textRecords origin
          (buildRpz (parseBody body format) action redirectIp (blocklistZone id) serial)) d ↔
      ∀ n, IsDomainName n → IsSubdomain (labels n) (labels d) →
        Lists body format (n.map Char.toLower)) ∧
    ((∀ w, Lists body format w → IsDomainName w) →
      ∃ records,
        readZone origin
            (buildRpz (parseBody body format) action redirectIp (blocklistZone id) serial) =
          some records ∧
        (Covers origin (policyData action redirectIp) records d ↔
          ∀ n, IsDomainName n → IsSubdomain (labels n) (labels d) →
            Lists body format (n.map Char.toLower))) := by
  have hzone := blocklistZone_plain id
  constructor
  · apply forall_congr'
    intro n
    rw [applies_text_iff hzone hredirect]
  · intro hnames
    obtain ⟨records, hread, happlies⟩ := applies_read_iff hzone hredirect hnames serial origin
    refine ⟨records, hread, ?_⟩
    apply forall_congr'
    intro n
    rw [happlies]

/-- What a body lists of one domain is not what is below it. -/
theorem not_lists_below {body : List UInt8} {format : List Char}
    (hbody : parseBody body format = ["example.com".toList]) :
    ¬∀ n, IsDomainName n → IsSubdomain (labels n) (labels "example.com".toList) →
      Lists body format (n.map Char.toLower) := by
  intro hlists
  have hlisted := hlists "ads.example.com".toList isDomainName_ads
    ⟨["ads".toList], List.cons_ne_nil _ _, by decide⟩
  rw [← mem_parseBody, hbody] at hlisted
  revert hlisted
  decide

theorem covers_iff_listed_redirect :
    validateRedirectIp "redirect".toList (some "192.0.2.1".toList) = .ok () ∧
      ¬Covers ["rpz".toList] (policyData "redirect".toList (some "192.0.2.1".toList))
        (textRecords ["rpz".toList] (buildRpz (parseBody "*.example.com\n".toUTF8.toList
          "domains".toList) "redirect".toList (some "192.0.2.1".toList) (blocklistZone 1) 1))
        "example.com".toList := by
  have hredirect : validateRedirectIp "redirect".toList (some "192.0.2.1".toList) = .ok () := by
    decide +kernel
  obtain ⟨hiff, -⟩ := covers_iff_listed hredirect "*.example.com\n".toUTF8.toList "domains".toList
    "example.com".toList 1 1 ["rpz".toList]
  exact ⟨hredirect, mt hiff.mp (not_lists_below (by decide +kernel))⟩

/-- The entry `||example.com^` stands for the names below `example.com`, and its record does not. -/
theorem adblock_apex_only :
    parseBody "||example.com^\n".toUTF8.toList "adblock".toList = ["example.com".toList] ∧
      ¬Covers ["rpz".toList] (policyData "nxdomain".toList none)
        (textRecords ["rpz".toList] (buildRpz (parseBody "||example.com^\n".toUTF8.toList
          "adblock".toList) "nxdomain".toList none (blocklistZone 1) 1))
        "example.com".toList := by
  have hbody : parseBody "||example.com^\n".toUTF8.toList "adblock".toList =
      ["example.com".toList] := by decide +kernel
  refine ⟨hbody, ?_⟩
  intro hcovers
  apply not_lists_below hbody
  intro n hn hsub
  exact (applies_text_iff (blocklistZone_plain 1) rfl _ _ _ _ n).mp (hcovers n hn hsub)

end AiFw.Dns
