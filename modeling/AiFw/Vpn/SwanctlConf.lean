import AiFw.Vpn.SwanctlMeaning

namespace AiFw.Vpn
open AiFw.Lib AiFw.Net AiFw.Pf
open AiFw.Wan (Uuid displayUuid forall_mem_displayUuid u32Text)
set_option autoImplicit true

section
theorem plain_of_word (h : isWordChar c) : isBare c = true := by
  have hlt : c.toNat < 128 := by
    simp only [isWordChar, Bool.and_eq_true, decide_eq_true_eq] at h
    omega
  exact forall_ascii (P := fun c => isWordChar c → isBare c = true) (by decide) hlt h

theorem entry_of_chars (hne : s ≠ []) (h : ∀ c ∈ s, isBare c = true ∧ c ≠ ',') :
    isEntry s = true := by
  have hname : isName s = true := isName_iff.mpr ⟨hne, fun c hc => (h c hc).1⟩
  have hcomma : ',' ∉ s := fun hmem => (h _ hmem).2 rfl
  simp [isEntry, hname, hcomma]

theorem entry_of_words (hne : s ≠ []) (h : ∀ c ∈ s, isWordChar c) : isEntry s = true := by
  apply entry_of_chars hne
  intro c hc
  refine ⟨plain_of_word (h c hc), ?_⟩
  rintro rfl
  exact absurd (h _ hc) (by decide)

theorem quotable_of_words {s : List Char} (h : ∀ c ∈ s, isWordChar c) :
    ∀ c ∈ s, c ≠ '"' ∧ c ≠ '\\' ∧ c ≠ '\n' := by
  intro c hc
  refine ⟨?_, ?_, ?_⟩
  all_goals
    rintro rfl
    exact absurd (h _ hc) (by decide)

theorem words_of_ip (h : (IpAddr.parse s).isSome) : ∀ c ∈ s, isWordChar c := by
  obtain ⟨ip, hip⟩ := Option.isSome_iff_exists.mp h
  exact fun c hc => isWordChar_of_addrChar (IpAddr.parse_chars hip c hc)

theorem words_of_localAddr (h : validateLocalAddr s = .ok ()) : ∀ c ∈ s, isWordChar c := by
  rw [validateLocalAddr] at h
  split at h
  · next hok =>
    obtain rfl | hip := hok
    · exact List.forall_mem_nil _
    · exact words_of_ip hip
  · cases h

theorem words_of_endpoint (h : validateEndpoint field s = .ok ()) : ∀ c ∈ s, isWordChar c := by
  intro c hc
  rw [validateEndpoint, if_neg (List.ne_nil_of_mem hc)] at h
  by_cases hip : (IpAddr.parse s).isSome
  · exact words_of_ip hip c hc
  · rw [if_neg hip] at h
    split at h
    · next hdns =>
      have hchar := List.all_eq_true.mp hdns.2.2 c hc
      simp only [Bool.or_eq_true, beq_iff_eq] at hchar
      obtain (halnum | rfl) | rfl := hchar
      · exact isWordChar_of_alphanum halnum
      · decide
      · decide
    · cases h

theorem entry_of_proposal (h : validateProposal kind s = .ok ()) : isEntry s = true := by
  have hwords : ∀ token ∈ proposalTokens, token.toList.all isWordChar = true := by decide
  rw [validateProposal] at h
  split at h
  · cases h
  · next hne =>
    split at h
    · next htokens =>
      apply entry_of_words hne
      intro c hc
      obtain rfl | ⟨token, htoken, hmem⟩ := mem_part_of_mem '-' hc
      · decide
      · obtain ⟨w, hw, he⟩ := List.any_eq_true.mp (List.all_eq_true.mp htokens token htoken)
        rw [← of_decide_eq_true he] at hmem
        exact List.all_eq_true.mp (hwords w hw) c hmem
    · cases h

theorem entry_of_selector (h : IsSelector ts) (htrim : trim ts = ts) : isEntry ts = true := by
  obtain ⟨a, hip⟩ := h.parseIp
  have hne := h.trim_ne_nil
  rw [htrim] at hip hne
  apply entry_of_chars hne
  intro c hc
  have hchar := parseIp_chars hip hc
  refine ⟨?_, (selectorChar_facts hchar).2⟩
  obtain hnet | rfl := hchar
  · rw [isNetChar, decide_eq_true_eq] at hnet
    obtain rfl | haddr := hnet
    · decide
    · exact plain_of_word (isWordChar_of_addrChar haddr)
  · decide

theorem quotable_of_ikeId (h : validateIkeId field s = .ok ()) :
    ∀ c ∈ s, c ≠ '"' ∧ c ≠ '\\' ∧ c ≠ '\n' := by
  intro c hc
  rw [validateIkeId, if_neg (List.ne_nil_of_mem hc)] at h
  split at h
  · cases h
  · split at h
    · next hall =>
      have hchar := List.all_eq_true.mp hall c hc
      simp only [Bool.and_eq_true, Bool.or_eq_true, bne_iff_ne, beq_iff_eq] at hchar
      refine ⟨hchar.1.2, hchar.2, ?_⟩
      rintro rfl
      exact absurd hchar.1.1 (by decide)
    · cases h

theorem plain_displayUuid (u : Uuid) : ∀ c ∈ displayUuid u, isBare c = true :=
  forall_mem_displayUuid (P := fun c => isBare c = true) (by decide) (by decide) u

section
variable (t : IpsecTunnel DateTime)

theorem isName_connName : isName t.connName = true :=
  isName_append (by decide) (List.all_eq_true.mpr (plain_displayUuid t.id))

theorem isName_childName : isName t.childName = true :=
  isName_append (isName_connName t) (by decide)

theorem isName_secretName : isName ("ike-".toList ++ t.connName) = true :=
  isName_append (by decide) (List.all_eq_true.mpr (isName_iff.mp (isName_connName t)).2)

theorem isName_seconds (n : UInt32) : isName (u32Text n ++ ['s']) = true := by
  apply isName_append _ (by decide)
  refine isName_iff.mpr ⟨Nat.toDigits_ne_nil, ?_⟩
  exact fun c hc => plain_of_word (isWordChar_of_digit hc)

end

/-- What passes `validate` is clean, if the selectors stand as they are read. -/
theorem clean_of_validate {t : IpsecTunnel DateTime} (h : t.validate = .ok ())
    (htrim : ∀ ts ∈ t.localTs ++ t.remoteTs, trim ts = ts) : t.Clean := by
  obtain ⟨hlocalTs, hremoteTs⟩ := selectors_of_validate h
  obtain ⟨hlocalTrim, hremoteTrim⟩ := List.forall_mem_append.mp htrim
  rw [IpsecTunnel.validate] at h
  simp only [andThen_ok] at h
  obtain ⟨-, hremote, hrequired, hlocal, hlocalId, hremoteId, -, hike, hesp, -, -, -⟩ := h
  have hselectors {field : String} {list : List (List Char)}
      (h : validateSelectors field list = .ok ()) (htrim : ∀ ts ∈ list, trim ts = ts) :
      list ≠ [] ∧ ∀ ts ∈ list, isEntry ts = true := by
    obtain ⟨hne, hall⟩ := validateSelectors_ok.mp h
    exact ⟨hne, fun ts hts => entry_of_selector (hall ts hts) (htrim ts hts)⟩
  have hlocalWords := words_of_localAddr hlocal
  have hremoteWords := words_of_endpoint hremote
  have hne : t.remoteAddr ≠ [] := by
    rintro hnil
    rw [requireRemoteAddr, if_pos hnil] at hrequired
    cases hrequired
  exact {
    localAddr := fun hne => entry_of_words hne hlocalWords
    remoteAddr := entry_of_words hne hremoteWords
    ikeProposal := entry_of_proposal hike
    espProposal := entry_of_proposal hesp
    localTs := hselectors hlocalTs hlocalTrim
    remoteTs := hselectors hremoteTs hremoteTrim
    localId := quotable_of_ikeId hlocalId
    remoteId := quotable_of_ikeId hremoteId
    localIdent := by
      rw [IpsecTunnel.localIdent]
      split
      · exact quotable_of_words hlocalWords
      · exact quotable_of_ikeId hlocalId
    remoteIdent := by
      rw [IpsecTunnel.remoteIdent]
      split
      · exact quotable_of_words hremoteWords
      · exact quotable_of_ikeId hremoteId }

theorem reads_ifAny {p : Prop} [Decidable p] {line : List Char} {settings : Settings}
    (h : p → Lib.Reads [line] (some settings)) :
    Lib.Reads (setting p line) (some (if p then settings else [])) := by
  by_cases hp : p
  · rw [if_pos hp, setting, decide_eq_true hp]
    exact h hp
  · rw [if_neg hp, setting, decide_eq_false hp]
    exact .nil

namespace IpsecTunnel
variable (t : IpsecTunnel DateTime)

def localLines : List (List Char) :=
  ["            auth = ".toList ++ t.authText] ++
  setting (t.authMethod = .cert) ("            certs = ".toList ++ (t.connName ++ ".pem".toList)) ++
  setting (t.localId ≠ []) ("            id = \"".toList ++ (t.localId ++ ['"']))

def remoteLines : List (List Char) :=
  ["            auth = ".toList ++ t.authText] ++
  setting (t.remoteId ≠ []) ("            id = \"".toList ++ (t.remoteId ++ ['"']))

def childLines : List (List Char) :=
  ["                local_ts = ".toList ++ joinComma t.localTs,
    "                remote_ts = ".toList ++ joinComma t.remoteTs,
    "                esp_proposals = ".toList ++ t.espProposal,
    "                rekey_time = ".toList ++ (u32Text t.espLifetimeSecs ++ ['s']),
    "                start_action = ".toList ++ t.startAction.display] ++
  setting (t.dpdDelaySecs > 0) ("                dpd_action = ".toList ++ t.dpdActionText)

def connLines : List (List Char) :=
  ["        version = 2".toList] ++
  setting (t.localAddr ≠ []) ("        local_addrs = ".toList ++ t.localAddr) ++
  ["        remote_addrs = ".toList ++ t.remoteAddr,
    "        proposals = ".toList ++ t.ikeProposal,
    "        rekey_time = ".toList ++ (u32Text t.ikeLifetimeSecs ++ ['s'])] ++
  setting (t.dpdDelaySecs > 0)
    ("        dpd_delay = ".toList ++ (u32Text t.dpdDelaySecs ++ ['s'])) ++
  (inBraces 8 "local".toList t.localLines ++ inBraces 8 "remote".toList t.remoteLines ++
    inBraces 8 "children".toList (inBraces 12 t.childName t.childLines))

def secretLines : List (List Char) :=
  ["        secret = \"".toList ++ (t.psk ++ ['"'])] ++
  setting (t.localIdent ≠ []) ("        id-1 = \"".toList ++ (t.localIdent ++ ['"'])) ++
  ["        id-2 = \"".toList ++ (t.remoteIdent ++ ['"'])]

end IpsecTunnel

variable {t : IpsecTunnel DateTime}

theorem swanctlLines_eq (t : IpsecTunnel DateTime) : swanctlLines t =
    ["# Managed by AiFw (#530 IPsec). Do not edit —".toList,
      "# regenerated from the AiFw database on every apply.".toList] ++
    inBraces 0 "connections".toList (inBraces 4 t.connName t.connLines) ++
    if t.authMethod = .psk then
      inBraces 0 "secrets".toList (inBraces 4 ("ike-".toList ++ t.connName) t.secretLines)
    else [] := by
  unfold swanctlLines IpsecTunnel.connLines IpsecTunnel.localLines IpsecTunnel.remoteLines
    IpsecTunnel.childLines IpsecTunnel.secretLines inBraces
  simp only [List.append_assoc, List.cons_append, List.nil_append]
  rfl

theorem isName_authText (t : IpsecTunnel DateTime) : isName t.authText = true := by
  unfold IpsecTunnel.authText
  cases t.authMethod with
  | psk => decide
  | cert => decide

theorem isName_certFile (t : IpsecTunnel DateTime) : isName (t.connName ++ ".pem".toList) = true :=
  isName_append (isName_connName t) (by decide)

theorem isName_startAction (a : IpsecStartAction) : isName a.display = true := by
  cases a with
  | start => decide
  | trap => decide
  | none => decide

theorem isName_dpdActionText (t : IpsecTunnel DateTime) : isName t.dpdActionText = true := by
  unfold IpsecTunnel.dpdActionText
  cases t.startAction with
  | start => decide
  | trap => decide
  | none => decide

theorem reads_auth (t : IpsecTunnel DateTime) :
    Lib.Reads ["            auth = ".toList ++ t.authText]
      (some [("auth".toList, .value t.authText)]) :=
  .plain 12 "auth".toList rfl (by decide) (isName_authText t)

theorem reads_id {id : List Char} (h : ∀ c ∈ id, c ≠ '"' ∧ c ≠ '\\' ∧ c ≠ '\n') :
    Lib.Reads (setting (id ≠ []) ("            id = \"".toList ++ (id ++ ['"'])))
      (some (if id ≠ [] then [("id".toList, .value id)] else [])) :=
  reads_ifAny fun _ => .quotedText 12 "id".toList rfl (by decide) h

theorem reads_localLines (h : t.Clean) : Lib.Reads t.localLines (some t.localSettings) := by
  have hcerts : Lib.Reads (setting (t.authMethod = .cert)
      ("            certs = ".toList ++ (t.connName ++ ".pem".toList)))
      (some (if t.authMethod = .cert then
        [("certs".toList, .value (t.connName ++ ".pem".toList))] else [])) :=
    reads_ifAny fun _ => .plain 12 "certs".toList rfl (by decide) (isName_certFile t)
  exact ((reads_auth t).append hcerts).append (reads_id h.localId)

theorem reads_remoteLines (h : t.Clean) : Lib.Reads t.remoteLines (some t.remoteSettings) :=
  (reads_auth t).append (reads_id h.remoteId)

theorem isName_selectors {list : List (List Char)}
    (h : list ≠ [] ∧ ∀ ts ∈ list, isEntry ts = true) : isName (joinComma list) = true :=
  isName_intercalate h.1 fun ts hts => (entry_facts (h.2 ts hts)).1

theorem reads_childLines (h : t.Clean) : Lib.Reads t.childLines (some t.childSettings) := by
  have hlocal : Lib.Reads ["                local_ts = ".toList ++ joinComma t.localTs] _ :=
    .plain 16 "local_ts".toList rfl (by decide) (isName_selectors h.localTs)
  have hremote : Lib.Reads ["                remote_ts = ".toList ++ joinComma t.remoteTs] _ :=
    .plain 16 "remote_ts".toList rfl (by decide) (isName_selectors h.remoteTs)
  have hesp : Lib.Reads ["                esp_proposals = ".toList ++ t.espProposal] _ :=
    .plain 16 "esp_proposals".toList rfl (by decide) (entry_facts h.espProposal).1
  have hrekey : Lib.Reads
      ["                rekey_time = ".toList ++ (u32Text t.espLifetimeSecs ++ ['s'])] _ :=
    .plain 16 "rekey_time".toList rfl (by decide) (isName_seconds t.espLifetimeSecs)
  have hstart : Lib.Reads ["                start_action = ".toList ++ t.startAction.display] _ :=
    .plain 16 "start_action".toList rfl (by decide) (isName_startAction t.startAction)
  have hdpd : Lib.Reads (setting (t.dpdDelaySecs > 0)
      ("                dpd_action = ".toList ++ t.dpdActionText))
      (some (if t.dpdDelaySecs > 0 then [("dpd_action".toList, .value t.dpdActionText)] else [])) :=
    reads_ifAny fun _ => .plain 16 "dpd_action".toList rfl (by decide) (isName_dpdActionText t)
  exact ((((hlocal.append hremote).append hesp).append hrekey).append hstart).append hdpd

theorem reads_connLines (h : t.Clean) : Lib.Reads t.connLines (some t.connSettings) := by
  have hversion : Lib.Reads ["        version = ".toList ++ ['2']] _ :=
    .plain 8 "version".toList rfl (by decide) (by decide)
  have hlocal : Lib.Reads (setting (t.localAddr ≠ []) ("        local_addrs = ".toList ++ t.localAddr))
      (some (if t.localAddr ≠ [] then [("local_addrs".toList, .value t.localAddr)] else [])) :=
    reads_ifAny fun hne =>
      .plain 8 "local_addrs".toList rfl (by decide) (entry_facts (h.localAddr hne)).1
  have hremote : Lib.Reads ["        remote_addrs = ".toList ++ t.remoteAddr] _ :=
    .plain 8 "remote_addrs".toList rfl (by decide) (entry_facts h.remoteAddr).1
  have hike : Lib.Reads ["        proposals = ".toList ++ t.ikeProposal] _ :=
    .plain 8 "proposals".toList rfl (by decide) (entry_facts h.ikeProposal).1
  have hrekey : Lib.Reads ["        rekey_time = ".toList ++ (u32Text t.ikeLifetimeSecs ++ ['s'])] _ :=
    .plain 8 "rekey_time".toList rfl (by decide) (isName_seconds t.ikeLifetimeSecs)
  have hdpd : Lib.Reads (setting (t.dpdDelaySecs > 0)
      ("        dpd_delay = ".toList ++ (u32Text t.dpdDelaySecs ++ ['s'])))
      (some (if t.dpdDelaySecs > 0 then
        [("dpd_delay".toList, .value (u32Text t.dpdDelaySecs ++ ['s']))] else [])) :=
    reads_ifAny fun _ =>
      .plain 8 "dpd_delay".toList rfl (by decide) (isName_seconds t.dpdDelaySecs)
  have hlocalAuth := Lib.Reads.part 8 "local".toList (by decide) (reads_localLines h)
  have hremoteAuth := Lib.Reads.part 8 "remote".toList (by decide) (reads_remoteLines h)
  have hchild := Lib.Reads.part 12 t.childName (isName_childName t) (reads_childLines h)
  have hchildren := Lib.Reads.part 8 "children".toList (by decide) hchild
  exact (((hversion.append hlocal).append ((hremote.append hike).append hrekey)).append hdpd).append
    ((hlocalAuth.append hremoteAuth).append hchildren)

/-- The secret is what its quotes are read as. -/
theorem reads_secretLines (h : t.Clean) (hquote : '"' ∉ t.psk) (hwhole : '\n' ∉ t.psk) :
    Lib.Reads t.secretLines ((readValue ('"' :: (t.psk ++ ['"']))).map t.secretSettings) := by
  have hsecret : Lib.Reads ["        secret = \"".toList ++ (t.psk ++ ['"'])] _ :=
    .quoted 8 "secret".toList rfl (by decide) hquote hwhole
  have hlocal : Lib.Reads
      (setting (t.localIdent ≠ []) ("        id-1 = \"".toList ++ (t.localIdent ++ ['"'])))
      (some (if t.localIdent ≠ [] then [("id-1".toList, .value t.localIdent)] else [])) :=
    reads_ifAny fun _ => .quotedText 8 "id-1".toList rfl (by decide) h.localIdent
  have hremote : Lib.Reads ["        id-2 = \"".toList ++ (t.remoteIdent ++ ['"'])] _ :=
    .quotedText 8 "id-2".toList rfl (by decide) h.remoteIdent
  have hall := (hsecret.append hlocal).append hremote
  cases hread : readValue ('"' :: (t.psk ++ ['"'])) with
  | none =>
    rw [hread] at hall
    exact hall
  | some secret =>
    rw [hread] at hall
    exact hall

/-- What is read of the file, by what the quoted key is read as. -/
def IpsecTunnel.settingsRead (t : IpsecTunnel DateTime) : Option Settings :=
  if t.authMethod = .psk then (readValue ('"' :: (t.psk ++ ['"']))).map t.settings
  else some (t.settings t.psk)

theorem reads_swanctlLines (h : t.Clean)
    (hpsk : t.authMethod = .psk → '"' ∉ t.psk ∧ '\n' ∉ t.psk) :
    Lib.Reads (swanctlLines t) t.settingsRead := by
  have hmanaged : Lib.Reads ["# Managed by AiFw (#530 IPsec). Do not edit —".toList] (some []) :=
    .comment (by decide) (by decide)
  have hregenerated : Lib.Reads ["# regenerated from the AiFw database on every apply.".toList]
      (some []) := .comment (by decide) (by decide)
  have hcomments := hmanaged.append hregenerated
  have hconn := Lib.Reads.part 4 t.connName (isName_connName t) (reads_connLines h)
  have hconns := Lib.Reads.part 0 "connections".toList (by decide) hconn
  rw [swanctlLines_eq]
  unfold IpsecTunnel.settingsRead IpsecTunnel.settings
  by_cases hmethod : t.authMethod = .psk
  · rw [if_pos hmethod, if_pos hmethod]
    have hbody := reads_secretLines h (hpsk hmethod).1 (hpsk hmethod).2
    have hsecret := Lib.Reads.part 4 ("ike-".toList ++ t.connName) (isName_secretName t) hbody
    have hall := (hcomments.append hconns).append (.part 0 "secrets".toList (by decide) hsecret)
    simp only [hmethod, if_true]
    cases hread : readValue ('"' :: (t.psk ++ ['"'])) with
    | none =>
      rw [hread] at hall
      exact hall
    | some secret =>
      rw [hread] at hall
      exact hall
  · have hall := (hcomments.append hconns).append Lib.Reads.nil
    rw [if_neg hmethod, if_neg hmethod, if_neg hmethod]
    exact hall

end

section
variable {DateTime : Type} {t : IpsecTunnel DateTime}

theorem of_mem_mapM {f : α → Option β} {l : List α} (h : l.mapM f = some ys) (hy : y ∈ ys) :
    ∃ x ∈ l, f x = some y := by
  rw [← mapM_eq_some_filterMap h] at hy
  exact List.mem_filterMap.mp hy

theorem trimmed_child (h : ChildConf.read e = some child) :
    ∀ ts ∈ child.localTs ++ child.remoteTs, trim ts = ts := by
  rw [ChildConf.read] at h
  simp only [Option.bind_eq_bind, Option.bind_eq_some_iff] at h
  obtain ⟨s, -, localTs, -, remoteTs, -, espProposals, -, rekey, -, rekeyTime, -, startAction, -,
    dpdAction, -, hchild⟩ := h
  cases hchild
  exact fun ts hts => (List.mem_append.mp hts).elim trim_of_listed trim_of_listed

theorem children_of_conn (h : ConnConf.read e = some conn) (hchild : child ∈ conn.children) :
    ∃ e', ChildConf.read e' = some child := by
  unfold ConnConf.read at h
  -- the settings that come before the children
  iterate 14 obtain ⟨_, -, h⟩ := Option.bind_eq_some_iff.mp h
  obtain ⟨children, hchildren, h⟩ := Option.bind_eq_some_iff.mp h
  cases h
  obtain ⟨e', -, he'⟩ := of_mem_mapM hchildren hchild
  exact ⟨e', he'⟩

theorem conns_of_conf (h : SwanctlConf.ofSettings settings = some c)
    (hconn : conn ∈ c.connections) : ∃ e, ConnConf.read e = some conn := by
  rw [SwanctlConf.ofSettings] at h
  simp only [Option.bind_eq_bind, Option.bind_eq_some_iff] at h
  obtain ⟨s, -, connections, hconnections, secrets, -, hc⟩ := h
  cases hc
  obtain ⟨e, -, he⟩ := of_mem_mapM hconnections hconn
  exact ⟨e, he⟩

/-- Selectors that are read from a file have no white space around them. -/
theorem trimmed_of_read {text : List Char} (h : SwanctlConf.read text = some t.conf) :
    ∀ ts ∈ t.localTs ++ t.remoteTs, trim ts = ts := by
  have hconnMem : t.connConf ∈ t.conf.connections := List.mem_cons_self
  have hchildMem : t.childConf ∈ t.connConf.children := List.mem_cons_self
  obtain ⟨settings, -, hsettings⟩ := Option.bind_eq_some_iff.mp h
  obtain ⟨e, hconn⟩ := conns_of_conf hsettings hconnMem
  obtain ⟨e', hchild⟩ := children_of_conn hconn hchildMem
  exact trimmed_child hchild

theorem psk_of_validate (h : t.validate = .ok ()) (hpsk : t.authMethod = .psk) :
    '"' ∉ t.psk ∧ '\n' ∉ t.psk := by
  rw [IpsecTunnel.validate] at h
  simp only [andThen_ok] at h
  have hauth := h.2.2.2.2.2.2.1
  rw [IpsecTunnel.validateAuth, hpsk] at hauth
  dsimp only at hauth
  split at hauth
  · cases hauth
  · split at hauth
    · next hall =>
      have hchar {c : Char} (hc : c ∈ t.psk) : isAsciiGraphic c = true ∧ c ≠ '"' := by
        simpa using List.all_eq_true.mp hall c hc
      exact ⟨fun hmem => (hchar hmem).2 rfl, fun hmem => absurd (hchar hmem).1 (by decide)⟩
    · cases hauth

/-- The file of a clean tunnel is read as it is meant, with the key as its quotes are read. -/
theorem read_renderSwanctlConf (h : t.Clean)
    (hpsk : t.authMethod = .psk → '"' ∉ t.psk ∧ '\n' ∉ t.psk) :
    SwanctlConf.read (renderSwanctlConf t) =
      if t.authMethod = .psk then (readValue ('"' :: (t.psk ++ ['"']))).map t.confWith
      else some t.conf := by
  rw [SwanctlConf.read, renderSwanctlConf, readSettings_lines (reads_swanctlLines h hpsk),
    IpsecTunnel.settingsRead]
  by_cases hmethod : t.authMethod = .psk
  · rw [if_pos hmethod, if_pos hmethod]
    cases readValue ('"' :: (t.psk ++ ['"'])) with
    | none => rfl
    | some secret => exact ofSettings_settings h secret
  · rw [if_neg hmethod, if_neg hmethod]
    exact ofSettings_settings h t.psk

theorem confWith_inj (hpsk : t.authMethod = .psk) (h : t.confWith a = t.confWith b) : a = b := by
  have hsecrets := congrArg SwanctlConf.secrets h
  rw [IpsecTunnel.confWith, IpsecTunnel.confWith, if_pos hpsk, if_pos hpsk] at hsecrets
  exact congrArg SecretConf.secret (List.cons.inj hsecrets).1

/-- The file of a valid tunnel is read as what was configured exactly if its key has no backslash
and none of its selectors has white space around it. -/
theorem rendered_conf_iff (t : IpsecTunnel DateTime) (h : t.validate = .ok ()) :
    SwanctlConf.read (renderSwanctlConf t) = some t.conf ↔
      (t.authMethod = .psk → '\\' ∉ t.psk) ∧ ∀ ts ∈ t.localTs ++ t.remoteTs, trim ts = ts := by
  have hpsk := psk_of_validate h
  constructor
  · intro hread
    have htrim := trimmed_of_read hread
    refine ⟨?_, htrim⟩
    intro hmethod
    rw [read_renderSwanctlConf (clean_of_validate h htrim) hpsk, if_pos hmethod] at hread
    obtain ⟨secret, hsecret, hconf⟩ := Option.map_eq_some_iff.mp hread
    cases confWith_inj hmethod hconf
    exact (readValue_quoted (hpsk hmethod).1).mp hsecret
  · rintro ⟨hbackslash, htrim⟩
    rw [read_renderSwanctlConf (clean_of_validate h htrim) hpsk]
    by_cases hmethod : t.authMethod = .psk
    · rw [if_pos hmethod, (readValue_quoted (hpsk hmethod).1).mpr (hbackslash hmethod)]
      rfl
    · rw [if_neg hmethod]

namespace MeaningSample

def tunnel (psk : String) (localTs : List String) : IpsecTunnel Unit :=
  .new 1 () "office".toList "203.0.113.7".toList psk.toList (localTs.map String.toList)
    ["10.1.0.0/24".toList]

def office : IpsecTunnel Unit := tunnel "0123456789abcdef" ["10.0.0.0/24"]

/-- The key has a backslash. -/
def escaping : IpsecTunnel Unit := tunnel "0123456789ab\\cdef" ["10.0.0.0/24"]

/-- A selector ends in a newline. -/
def broken : IpsecTunnel Unit := tunnel "0123456789abcdef" ["10.0.0.0/24\n", "10.2.0.0/24"]

end MeaningSample

theorem rendered_conf_office :
    SwanctlConf.read (renderSwanctlConf MeaningSample.office) = some MeaningSample.office.conf :=
  (rendered_conf_iff MeaningSample.office (by decide +kernel)).mpr ⟨fun _ => by decide, by decide⟩

/-- The backslash of a key is gone when the file is read. -/
theorem psk_backslash_lost : ¬∀ (DateTime : Type) (t : IpsecTunnel DateTime), t.validate = .ok () →
    SwanctlConf.read (renderSwanctlConf t) = some t.conf := by
  intro h
  have hvalid : MeaningSample.escaping.validate = .ok () := by decide +kernel
  have hmethod : MeaningSample.escaping.authMethod = .psk := rfl
  have hpsk := psk_of_validate hvalid
  have hread := h Unit MeaningSample.escaping hvalid
  rw [read_renderSwanctlConf (clean_of_validate hvalid (by decide)) hpsk, if_pos hmethod] at hread
  obtain ⟨secret, hsecret, hconf⟩ := Option.map_eq_some_iff.mp hread
  cases confWith_inj hmethod hconf
  have hbackslash := (readValue_quoted (hpsk hmethod).1).mp hsecret
  exact hbackslash (by decide)

example : MeaningSample.broken.validate = .ok () ∧
    SwanctlConf.read (renderSwanctlConf MeaningSample.broken) = none := by
  decide +kernel

end

end AiFw.Vpn
