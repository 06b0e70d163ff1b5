import AiFw.Vpn.SaIdentities

namespace AiFw.Vpn
open AiFw.Lib
open AiFw.Wan (Uuid)
set_option autoImplicit true

variable (parseUuid : List Char → Option Uuid)

/-- The sections of an SA that are named as ours. -/
def Sa.sections (s : Sa) : List (List Char × Entries) :=
  if isAifw s.name.chars then [(s.name.chars, s.entries)]
  else (s.children.filter fun c => isAifw c.name.chars).map fun c => (c.name.chars, c.entries)

/-- The states of the tunnels, as an SA has them. -/
def Sa.reports (s : Sa) : List IpsecLiveStatus := s.sections.filterMap (sectionStatus parseUuid)

def SaDocument.reports (D : SaDocument) : List IpsecLiveStatus :=
  D.flatten.flatMap (Sa.reports parseUuid)

/-- The section of an SA is that of a tunnel. -/
def Sa.Managed (s : Sa) : Prop :=
  isAifw s.name.chars = true ∧ (parseUuid (s.name.chars.drop aifwPrefix.length)).isSome = true

/-- The statuses of the sections among entries. -/
def statuses (es : Entries) : List IpsecLiveStatus :=
  (collectAifwSections es).filterMap (sectionStatus parseUuid)

def Sa.readReports (form : Form) (s : Sa) : List IpsecLiveStatus :=
  statuses parseUuid [(s.name.chars, .nested (s.read form))]

/-- What can be reported of an SA, whatever the texts of its identities are. -/
def Sa.Reports (s : Sa) (rs : List IpsecLiveStatus) : Prop :=
  ∃ es, s.Reading es ∧ rs = statuses parseUuid [(s.name.chars, .nested es)]

variable {parseUuid}

theorem sectionStatus_eq (h : isAifw name = true) (es : Entries) :
    sectionStatus parseUuid (name, es) =
      (parseUuid (name.drop aifwPrefix.length)).map fun id => liveStatus id name es := by
  rw [sectionStatus]
  exact if_pos h

theorem statuses_append (a b : Entries) :
    statuses parseUuid (a ++ b) = statuses parseUuid a ++ statuses parseUuid b := by
  rw [statuses, collect_append, List.filterMap_append]
  rfl

theorem statuses_ours (h : isAifw name = true) (es : Entries) :
    statuses parseUuid [(name, .nested es)] =
      ((parseUuid (name.drop aifwPrefix.length)).map fun id => liveStatus id name es).toList := by
  rw [statuses, collect_section, if_pos h, List.filterMap_cons, sectionStatus_eq h]
  cases (parseUuid (name.drop aifwPrefix.length)).map fun id => liveStatus id name es <;> rfl

theorem statuses_reading {s : Sa} (hs : isAifw s.name.chars = false) (h : s.Reading es) :
    statuses parseUuid [(s.name.chars, .nested es)] = s.reports parseUuid := by
  obtain ⟨n, gap, gap', hgaps, rfl⟩ := h
  rw [statuses, collect_section, hs, if_neg Bool.false_ne_true, collect_around _ _ _ hgaps,
    collect_children, Sa.reports, Sa.sections, hs, if_neg Bool.false_ne_true]

theorem Sa.reports_eq (s : Sa) : s.reports parseUuid =
    statuses parseUuid [(s.name.chars, .nested s.entries)] := by
  cases hs : isAifw s.name.chars with
  | false => exact (statuses_reading hs s.reading_entries).symm
  | true => rw [statuses, collect_section, if_pos hs, Sa.reports, Sa.sections, if_pos hs]

/-- An SA that is not of a tunnel, or is shielded, is reported as it is. -/
theorem Sa.Reports.eq {s : Sa} (h : s.Reports parseUuid rs)
    (hs : s.Managed parseUuid → s.Shielded) : rs = s.reports parseUuid := by
  obtain ⟨es, hes, rfl⟩ := h
  cases hname : isAifw s.name.chars with
  | false => exact statuses_reading hname hes
  | true =>
    rw [s.reports_eq, statuses_ours hname, statuses_ours hname]
    cases hid : parseUuid (s.name.chars.drop aifwPrefix.length) with
    | none => rfl
    | some id =>
      have hshielded := hs ⟨hname, by rw [hid]; rfl⟩
      rw [Option.map_some, hshielded.report hes s.reading_entries]
      rfl

theorem Sa.Managed.reports {s : Sa} (h : s.Managed parseUuid) :
    ∃ id, ∀ es, statuses parseUuid [(s.name.chars, .nested es)] =
      [liveStatus id s.name.chars es] := by
  obtain ⟨hname, hid⟩ := h
  obtain ⟨id, hid⟩ := Option.isSome_iff_exists.mp hid
  refine ⟨id, fun es => ?_⟩
  rw [statuses_ours hname, hid]
  rfl

/-- The names of what is reported are as they are. -/
theorem Sa.Reports.names {s : Sa} (h : s.Reports parseUuid rs) :
    rs.map IpsecLiveStatus.connName = (s.reports parseUuid).map IpsecLiveStatus.connName := by
  by_cases hmanaged : s.Managed parseUuid
  · obtain ⟨id, hid⟩ := hmanaged.reports
    obtain ⟨es, -, rfl⟩ := h
    rw [s.reports_eq, hid, hid]
    rfl
  · rw [h.eq fun hs => absurd hs hmanaged]

def lastNamed (name : List Char) (rs : List IpsecLiveStatus) : Option IpsecLiveStatus :=
  (rs.filter fun r => r.connName = name).getLast?

theorem lastNamed_append (name : List Char) (rs rs' : List IpsecLiveStatus) :
    lastNamed name (rs ++ rs') = (lastNamed name rs').or (lastNamed name rs) := by
  rw [lastNamed, List.filter_append, List.getLast?_append]
  rfl

theorem lastNamed_eq_none_iff : lastNamed name rs = none ↔ ∀ r ∈ rs, r.connName ≠ name := by
  rw [lastNamed, List.getLast?_eq_none_iff, List.filter_eq_nil_iff]
  simp only [decide_eq_true_eq, ne_eq]

theorem mem_of_lastNamed (h : lastNamed name rs = some r) : r ∈ rs ∧ r.connName = name := by
  obtain ⟨hmem, hname⟩ := List.mem_filter.mp (List.mem_of_getLast? h)
  exact ⟨hmem, of_decide_eq_true hname⟩

theorem lastNamed_singleton (r : IpsecLiveStatus) : lastNamed r.connName [r] = some r := by
  simp [lastNamed]

theorem connName_sectionStatus (h : sectionStatus parseUuid conn = some r) :
    r.connName = conn.1 := by
  rw [sectionStatus] at h
  split at h
  · obtain ⟨id, -, rfl⟩ := Option.map_eq_some_iff.mp h
    rfl
  · cases h

theorem lookup_foldl (sections : List (List Char × Entries))
    (m : KeyedMap (List Char) IpsecLiveStatus) (name : List Char) :
    (sections.foldl (keepStatus parseUuid) m).lookup name =
      (lastNamed name (sections.filterMap (sectionStatus parseUuid))).or (m.lookup name) := by
  induction sections generalizing m with
  | nil => rfl
  | cons conn sections ih =>
    rw [List.foldl_cons, ih, List.filterMap_cons, keepStatus]
    cases hstatus : sectionStatus parseUuid conn with
    | none => rfl
    | some r =>
      have hname := connName_sectionStatus hstatus
      have hcons (rs : List IpsecLiveStatus) : r :: rs = [r] ++ rs := rfl
      dsimp only
      rw [hcons, lastNamed_append, Option.or_assoc]
      congr 1
      by_cases he : name = conn.1
      · rw [he, AList.lookup_insert, ← hname, lastNamed_singleton]
        rfl
      · have hnone : lastNamed name [r] = none := by
          rw [lastNamed_eq_none_iff, List.forall_mem_singleton, hname]
          exact fun h => he h.symm
        rw [AList.lookup_insert_ne he, hnone]
        rfl

theorem reads_sa (form : Form) (s : Sa) :
    Reads (s.tokens form) [(s.name.chars, .nested (s.read form))] :=
  reads_section s.name (s.reads form).2

def eventWord : Word := plainWord "event".toList (by decide) (by decide)

def replyWord : Word := plainWord "reply".toList (by decide) (by decide)

def listSaWord : Word := plainWord "list-sa".toList (by decide) (by decide)

def listSasWord : Word := plainWord "list-sas".toList (by decide) (by decide)

/-- A word before the name of a section is passed over. -/
theorem Reads.after_word (before name : Word) {body : List SasToken}
    (h : Reads (sectionTokens name.chars body) es) :
    Reads (before.chars :: sectionTokens name.chars body) es := by
  intro rest
  rw [← h rest, List.cons_append, reads_word]
  exact (reads_word name _ _).trans (reads_word name _ _).symm

def saEntries (form : Form) (sas : List Sa) : Entries :=
  sas.flatMap fun s => [(s.name.chars, .nested (s.read form))]

def Form.replyEntries : Form → Entries
  | raw => [(replyWord.chars, .nested [])]
  | indented => []

theorem reads_document (form : Form) (D : SaDocument) :
    Reads (D.tokens form)
      ((D.flatMap fun sas => [(eventWord.chars, .nested (saEntries form sas))]) ++
        form.replyEntries) := by
  apply Reads.append
  · apply Reads.flatMap
    intro sas
    exact (reads_section eventWord (Reads.flatMap (reads_sa form) sas).body).after_word
      listSaWord eventWord
  · cases form with
    | raw => exact (reads_section replyWord Reads.nil.body).after_word listSasWord replyWord
    | indented => exact .nil

theorem statuses_flatMap {f : α → Entries} {g : α → List IpsecLiveStatus}
    (h : ∀ x, statuses parseUuid (f x) = g x) (xs : List α) :
    statuses parseUuid (xs.flatMap f) = xs.flatMap g := by
  induction xs with
  | nil => rfl
  | cons x xs ih => rw [List.flatMap_cons, statuses_append, h, ih, List.flatMap_cons]

/-- The result has the last status of each name. -/
theorem lookup_parseListSas (form : Form) (D : SaDocument) (name : List Char) :
    (parseListSas parseUuid (form.print D)).lookup name =
      lastNamed name (D.flatten.flatMap (Sa.readReports parseUuid form)) := by
  have hevent (sas : List Sa) :
      statuses parseUuid [(eventWord.chars, .nested (saEntries form sas))] =
        sas.flatMap (Sa.readReports parseUuid form) := by
    rw [statuses, collect_section]
    exact statuses_flatMap (fun s => rfl) sas
  have hreply : statuses parseUuid form.replyEntries = [] := by
    cases form <;> rfl
  have hread := reads_document form D []
  rw [List.append_nil] at hread
  rw [parseListSas, tokenize_print, hread, lookup_foldl, AList.lookup_empty, Option.or_none]
  congr 1
  refine (congrArg (statuses parseUuid) (List.append_nil _)).trans ?_
  rw [statuses_append, statuses_flatMap hevent, hreply, List.append_nil, ← List.flatMap_id,
    List.flatMap_assoc]
  rfl

/-- Each status of the document is the only one of its name, and the last SA of a tunnel has what is
reported of it before its first identity. -/
structure SaDocument.Settled (parseUuid : List Char → Option Uuid) (D : SaDocument) : Prop where
  agree : ∀ r ∈ D.reports parseUuid, ∀ r' ∈ D.reports parseUuid, r.connName = r'.connName → r = r'
  shielded : ∀ before s after, D.flatten = before ++ s :: after → s.Managed parseUuid →
    (∀ r ∈ after.flatMap (Sa.reports parseUuid), r.connName ≠ s.name.chars) → s.Shielded

theorem named_iff_of_names (h : rs.map IpsecLiveStatus.connName = rs'.map IpsecLiveStatus.connName)
    (name : List Char) : lastNamed name rs = none ↔ lastNamed name rs' = none := by
  have hforall (rs : List IpsecLiveStatus) : (∀ r ∈ rs, r.connName ≠ name) ↔
      ∀ n ∈ rs.map IpsecLiveStatus.connName, n ≠ name := by rw [List.forall_mem_map]
  rw [lastNamed_eq_none_iff, lastNamed_eq_none_iff, hforall, hforall, h]

/-- The last report of a name is of the SA as it is, if the last SA of the name is shielded. -/
theorem lastNamed_reports {sas : List Sa} {rss : List (List IpsecLiveStatus)}
    (h : List.Forall₂ (Sa.Reports parseUuid) sas rss)
    (hlast : ∀ before s after, sas = before ++ s :: after → s.Managed parseUuid →
      (∀ r ∈ after.flatMap (Sa.reports parseUuid), r.connName ≠ s.name.chars) → s.Shielded)
    (name : List Char) :
    lastNamed name rss.flatten = lastNamed name (sas.flatMap (Sa.reports parseUuid)) := by
  induction h with
  | nil => rfl
  | @cons s rs sas rss hs _ ih =>
    have hrest := ih fun before t after he => hlast (s :: before) t after (congrArg (s :: ·) he)
    rw [List.flatten_cons, List.flatMap_cons, lastNamed_append, lastNamed_append, hrest]
    cases hlater : lastNamed name (sas.flatMap (Sa.reports parseUuid)) with
    | some r => rfl
    | none =>
      rw [Option.none_or, Option.none_or]
      cases hnamed : lastNamed name (s.reports parseUuid) with
      | none => exact (named_iff_of_names hs.names name).mpr hnamed
      | some r =>
        rw [hs.eq, hnamed]
        intro hmanaged
        obtain ⟨hmem, hname⟩ := mem_of_lastNamed hnamed
        obtain ⟨id, hid⟩ := hmanaged.reports
        rw [s.reports_eq, hid, List.mem_singleton] at hmem
        subst hmem
        cases hname
        exact hlast [] s sas rfl hmanaged (lastNamed_eq_none_iff.mp hlater)

theorem Sa.reports_read (form : Form) (s : Sa) :
    s.Reports parseUuid (s.readReports parseUuid form) :=
  ⟨_, (s.reads form).1, rfl⟩

theorem Sa.Replaced.reports_read {s s' : Sa} (h : s.Replaced s') (form : Form) :
    s.Reports parseUuid (s'.readReports parseUuid form) := by
  have hname : s'.name = s.name := by
    cases h <;> rfl
  rw [Sa.readReports, hname]
  exact ⟨_, h.reading (s'.reads form).1, rfl⟩

section
variable {D : SaDocument} (form : Form)

theorem lookup_of_settled (h : D.Settled parseUuid) (name : List Char) :
    (parseListSas parseUuid (form.print D)).lookup name =
      lastNamed name (D.reports parseUuid) := by
  have hread : List.Forall₂ (Sa.Reports parseUuid) D.flatten
      (D.flatten.map (Sa.readReports parseUuid form)) :=
    List.forall₂_map_right_iff.mpr (List.forall₂_same.mpr fun s _ => s.reports_read form)
  rw [lookup_parseListSas, List.flatMap_def, lastNamed_reports hread h.shielded]
  rfl

theorem lookup_replaced (h : D.Settled parseUuid) {D' : SaDocument} (hD : D.Replaced D')
    (name : List Char) :
    (parseListSas parseUuid (form.print D')).lookup name =
      lastNamed name (D.reports parseUuid) := by
  have hread : List.Forall₂ (Sa.Reports parseUuid) D.flatten
      (D'.flatten.map (Sa.readReports parseUuid form)) :=
    List.forall₂_map_right_iff.mpr (hD.flatten.forall₂ (fun s => s.reports_read form)
      fun s s' hs => hs.reports_read form)
  rw [lookup_parseListSas, List.flatMap_def, lastNamed_reports hread h.shielded]
  rfl

end

end AiFw.Vpn
