import AiFw.Vpn.SaReports

namespace AiFw.Vpn
open AiFw.Lib
open AiFw.Wan (Uuid)
set_option autoImplicit true

variable {parseUuid : List Char → Option Uuid} {D : SaDocument} {form : Form}

/-- No text of an identity changes what is looked up. -/
def SaDocument.Undisturbed (parseUuid : List Char → Option Uuid) (form : Form) (D : SaDocument) :
    Prop :=
  ∀ D', D.Replaced D' → ∀ name, (parseListSas parseUuid (form.print D')).lookup name =
    (parseListSas parseUuid (form.print D)).lookup name

/-- What is found by a name is exactly what a section of that name has. -/
def SaDocument.Reported (parseUuid : List Char → Option Uuid) (form : Form) (D : SaDocument) :
    Prop :=
  ∀ name status, (parseListSas parseUuid (form.print D)).lookup name = some status ↔
    status ∈ D.reports parseUuid ∧ status.connName = name

theorem SaDocument.Settled.undisturbed (h : D.Settled parseUuid) :
    D.Undisturbed parseUuid form := by
  intro D' hD name
  rw [lookup_replaced form h hD, lookup_of_settled form h]

theorem SaDocument.Settled.reported (h : D.Settled parseUuid) : D.Reported parseUuid form := by
  intro name status
  rw [lookup_of_settled form h]
  constructor
  · exact mem_of_lastNamed
  · rintro ⟨hmem, hname⟩
    cases hlast : lastNamed name (D.reports parseUuid) with
    | none => exact absurd hname (lastNamed_eq_none_iff.mp hlast status hmem)
    | some r =>
      obtain ⟨hr, hrname⟩ := mem_of_lastNamed hlast
      rw [h.agree r hr status hmem (hrname.trans hname.symm)]

theorem SaDocument.Reported.agree (h : D.Reported parseUuid form) : ∀ r ∈ D.reports parseUuid,
    ∀ r' ∈ D.reports parseUuid, r.connName = r'.connName → r = r' := by
  intro r hr r' hr' hname
  have hfound := (h r.connName r).mpr ⟨hr, rfl⟩
  rw [(h r.connName r').mpr ⟨hr', hname.symm⟩] at hfound
  exact (Option.some.inj hfound).symm

/-- What is found of the last SA of a name. -/
theorem lookup_last (hD : D.flatten = before ++ s :: after) (hs : s.Managed parseUuid)
    (hafter : ∀ r ∈ after.flatMap (Sa.reports parseUuid), r.connName ≠ s.name.chars) :
    (parseListSas parseUuid (form.print D)).lookup s.name.chars =
      (s.readReports parseUuid form).head? := by
  have hnames : (after.flatMap (Sa.readReports parseUuid form)).map IpsecLiveStatus.connName =
      (after.flatMap (Sa.reports parseUuid)).map IpsecLiveStatus.connName := by
    rw [List.map_flatMap, List.map_flatMap]
    exact List.flatMap_congr fun t _ => (t.reports_read form).names
  have hlater := (named_iff_of_names hnames s.name.chars).mpr (lastNamed_eq_none_iff.mpr hafter)
  obtain ⟨id, hid⟩ := hs.reports
  rw [lookup_parseListSas, hD, List.flatMap_append, List.flatMap_cons, lastNamed_append,
    lastNamed_append, hlater, Option.none_or, Sa.readReports, hid]
  exact congrArg (Option.or · _) (lastNamed_singleton (liveStatus id s.name.chars (s.read form)))

/-- Where a document is not disturbed, another text leaves the last SA of a name as it is. -/
theorem SaDocument.Undisturbed.last (h : D.Undisturbed parseUuid form)
    (hown : D.Reported parseUuid form) (hD : D.flatten = before ++ s :: after)
    (hs : s.Managed parseUuid)
    (hafter : ∀ r ∈ after.flatMap (Sa.reports parseUuid), r.connName ≠ s.name.chars) :
    ∃ id, ∀ s', s.Replaced s' →
      liveStatus id s.name.chars (s'.read form) = liveStatus id s.name.chars s.entries := by
  obtain ⟨id, hid⟩ := hs.reports
  refine ⟨id, fun s' hs' => ?_⟩
  obtain ⟨D', hD', hflat⟩ := exists_changed hD hs'
  have hname : s'.name = s.name := by
    cases hs' <;> rfl
  have hlast := @lookup_last parseUuid D' form _ _ _ hflat (by rwa [Sa.Managed, hname])
    (by rwa [hname])
  have hmem : liveStatus id s.name.chars s.entries ∈ D.reports parseUuid := by
    rw [SaDocument.reports, hD, List.flatMap_append, List.flatMap_cons, s.reports_eq, hid]
    exact List.mem_append_right _ List.mem_cons_self
  have hfound := (hown s.name.chars _).mpr ⟨hmem, rfl⟩
  rw [← h D' hD', ← hname, hlast, Sa.readReports, hname, hid] at hfound
  exact Option.some.inj hfound

def stateWord : Word := plainWord "state".toList (by decide) (by decide)

def establishedWord : Word := plainWord "established".toList (by decide) (by decide)

def remoteHostWord : Word := plainWord "remote-host".toList (by decide) (by decide)

def versionWord : Word := plainWord "version".toList (by decide) (by decide)

def zeroWord : Word := plainWord ['0'] (by decide) (by decide)

def oneWord : Word := plainWord ['1'] (by decide) (by decide)

theorem childSas_entries (s : Sa) :
    childSas s.entries = s.children.map fun c => parseChild c.name.chars c.entries := by
  have hside (side : Side) : side.key ≠ childSasKey := by
    cases side <;> decide
  have hnone : get (s.front.map SaEntry.entry) childSasKey = none := by
    simp only [get, Option.map_eq_none_iff, List.find?_eq_none, List.forall_mem_map,
      decide_eq_true_eq]
    intro e _
    cases e with
    | field f other =>
      rw [SaEntry.entry, SasField.entry_key]
      exact other.2
    | identity side text => exact hside side
  apply childSas_section
  rw [Sa.entries, get_append, hnone, Option.none_or, get_cons_self]

section
variable {s : Sa} {tunnelId : Uuid} {conn : List Char}
  (h : ∀ s', s.Replaced s' →
    liveStatus tunnelId conn (s'.read form) = liveStatus tunnelId conn s.entries)
include h

/-- A key under which two values are reported otherwise stands before the first identity. -/
theorem lead_of_unchanged (hid : ¬Free (s.front ++ s.back)) {key : Word} (hname : key.chars = name)
    (hprint : ∀ value ∈ [zeroWord, oneWord], (key.chars ++ value.chars).all isPrintable = true)
    (hside : ∀ side : Side, side.key ≠ key.chars) (hchild : key.chars ≠ childSasKey)
    (hread : ∀ es es', getValue es name = some ['0'] → getValue es' name = some ['1'] →
      liveStatus tunnelId conn es ≠ liveStatus tunnelId conn es') :
    ∃ f ∈ s.leads, f.key = name := by
  subst hname
  have hvalue {es : Entries} {v : List Char} (hget : get es key.chars = some (.value v)) :
      getValue es key.chars = some v := by
    rw [getValue, hget]
  by_contra hlead
  push Not at hlead
  obtain ⟨s₀, hs₀, hzero⟩ := exists_forged (hprint zeroWord List.mem_cons_self) hside hid hlead
    fun he => absurd he hchild
  obtain ⟨s₁, hs₁, hone⟩ := exists_forged
    (hprint oneWord (List.mem_cons_of_mem _ List.mem_cons_self)) hside hid hlead
    fun he => absurd he hchild
  exact hread _ _ (hvalue (hzero form)) (hvalue (hone form)) ((h s₀ hs₀).trans (h s₁ hs₁).symm)

theorem children_of_unchanged (hid : ¬Free (s.front ++ s.back)) :
    s.children = [] ∨ Free s.front := by
  by_cases hfree : Free s.front
  · exact .inr hfree
  · have hlead : ∀ f ∈ s.leads, f.key ≠ childSasWord.chars := fun f hf => (lead_other hf).2
    have hprint : (childSasWord.chars ++ zeroWord.chars).all isPrintable = true := by decide
    obtain ⟨s', hs', hget⟩ := exists_forged hprint (fun side => by cases side <;> decide) hid hlead
      fun _ => hfree
    have hread : childSas (s'.read form) = [] := by
      have hvalue : get (s'.read form) "child-sas".toList = some (.value ['0']) := hget form
      rw [childSas, hvalue]
    have hsame : childSas (s'.read form) = childSas s.entries :=
      congrArg IpsecLiveStatus.childSas (h s' hs')
    rw [hread, childSas_entries] at hsame
    exact .inl (List.map_eq_nil_iff.mp hsame.symm)

theorem shielded_of_unchanged : s.Shielded := by
  by_cases hid : Free (s.front ++ s.back)
  · exact .inl hid
  · refine .inr ⟨?_, children_of_unchanged h hid⟩
    simp only [reportedKeys, List.forall_mem_cons]
    refine ⟨?_, ?_, ?_, ?_, List.forall_mem_nil _⟩
    · have hname : stateWord.chars = "state".toList := rfl
      apply lead_of_unchanged h hid hname (by decide) (fun side => by cases side <;> decide)
        (by decide)
      intro es es' hzero hone he
      have hstate := congrArg IpsecLiveStatus.ikeState he
      simp only [liveStatus, hzero, hone] at hstate
      exact absurd hstate (by decide)
    · have hname : establishedWord.chars = "established".toList := rfl
      apply lead_of_unchanged h hid hname (by decide) (fun side => by cases side <;> decide)
        (by decide)
      intro es es' hzero hone he
      have hestablished := congrArg IpsecLiveStatus.establishedSecs he
      simp only [liveStatus, getU64, hzero, hone] at hestablished
      exact absurd hestablished (by decide)
    · have hname : remoteHostWord.chars = "remote-host".toList := rfl
      apply lead_of_unchanged h hid hname (by decide) (fun side => by cases side <;> decide)
        (by decide)
      intro es es' hzero hone he
      have hremote := congrArg IpsecLiveStatus.remoteHost he
      simp only [liveStatus, hzero, hone] at hremote
      exact absurd hremote (by decide)
    · have hname : versionWord.chars = "version".toList := rfl
      apply lead_of_unchanged h hid hname (by decide) (fun side => by cases side <;> decide)
        (by decide)
      intro es es' hzero hone he
      have hversion := congrArg IpsecLiveStatus.ikeVersion he
      simp only [liveStatus, hzero, hone] at hversion
      exact absurd hversion (by decide)

end

/-- The result follows the document, and the texts of its identities cannot change it, if and only
if its statuses do not clash and those of tunnels stand before the identities. -/
theorem undisturbed_iff (parseUuid : List Char → Option Uuid) (form : Form) (D : SaDocument) :
    D.Undisturbed parseUuid form ∧ D.Reported parseUuid form ↔ D.Settled parseUuid := by
  constructor
  · rintro ⟨h, hown⟩
    refine ⟨hown.agree, ?_⟩
    intro before s after hD hs hafter
    obtain ⟨id, hid⟩ := h.last hown hD hs hafter
    exact shielded_of_unchanged hid
  · exact fun h => ⟨h.undisturbed, h.reported⟩

def peerText (chars : List Char)
    (h : (chars.all fun c => isPrintable c && !isStructural c) = true) : IdentityText where
  chars := chars
  printable := by
    intro c hc
    exact ((Bool.and_eq_true _ _).mp (List.all_eq_true.mp h c hc)).1
  plain := by
    intro c hc
    simpa using ((Bool.and_eq_true _ _).mp (List.all_eq_true.mp h c hc)).2

def tunnelWord : Word := plainWord "aifw-11111111-2222-3333-4444-555555555555".toList
  (by decide) (by decide)

/-- The order in which the keys come. -/
def peerSa (remoteId : IdentityText) : Sa where
  name := tunnelWord
  front := [
    .field (.value versionWord (plainWord ['2'] (by decide) (by decide)))
      ⟨fun side => by cases side <;> decide, by decide⟩,
    .field (.value stateWord (plainWord "ESTABLISHED".toList (by decide) (by decide)))
      ⟨fun side => by cases side <;> decide, by decide⟩,
    .identity .here (peerText "198.51.100.1".toList (by decide)),
    .field (.value remoteHostWord (plainWord "203.0.113.10".toList (by decide) (by decide)))
      ⟨fun side => by cases side <;> decide, by decide⟩,
    .identity .remote remoteId,
    .field (.value establishedWord (plainWord "773".toList (by decide) (by decide)))
      ⟨fun side => by cases side <;> decide, by decide⟩]
  children := []
  back := []

theorem peerSa_replaced (text text' : IdentityText) : (peerSa text).Replaced (peerSa text') :=
  .front ⟨[_, _, _, _], _, _, [_], .identity .remote text text', rfl, rfl⟩

def siteB : SaDocument := [[peerSa (peerText "C=US, O=AiFw, CN=site-b".toList (by decide))]]

def siteForged : SaDocument :=
  [[peerSa (peerText "C=US, O=AiFw established=9, CN=site-b".toList (by decide))]]

def siteUuid (s : List Char) : Option Uuid :=
  if s = "11111111-2222-3333-4444-555555555555".toList then
    some 0x11111111222233334444555555555555
  else none

example : ((parseListSas siteUuid (Form.raw.print siteB)).lookup tunnelWord.chars).map
    IpsecLiveStatus.establishedSecs = some (some 773) := by
  decide +kernel

/-- A distinguished name sets the seconds since the SA was established. -/
theorem forged_by_peer : ¬∀ (parseUuid : List Char → Option Uuid) (form : Form) (D : SaDocument),
    D.Undisturbed parseUuid form ∧ D.Reported parseUuid form := by
  intro h
  have hchanged : siteB.Replaced siteForged :=
    ⟨[], _, _, [], ⟨[], _, _, [], peerSa_replaced _ _, rfl, rfl⟩, rfl, rfl⟩
  have hsame := (h siteUuid .raw siteB).1 siteForged hchanged tunnelWord.chars
  have hseconds := congrArg (Option.map IpsecLiveStatus.establishedSecs) hsame
  exact absurd hseconds (by decide +kernel)

end AiFw.Vpn
