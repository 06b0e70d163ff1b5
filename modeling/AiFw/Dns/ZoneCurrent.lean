import AiFw.Dns.Blocklist
import AiFw.Lib.Runs

namespace AiFw.Dns
open AiFw.Lib
set_option autoImplicit true

/-- What a zone file was built from. -/
structure Built where
  source : BlocklistSource
  whitelist : List PatternEntry
  body : List UInt8
  serial : Nat

namespace Built
open BlocklistStore

def zone (b : Built) : List Char := zoneBody b.source b.whitelist b.body b.serial

/-- The file is, but for its serial, what the settings and the whitelist make of the body. -/
def Stands (b : Built) (src : BlocklistSource) (whitelist : List PatternEntry) : Prop :=
  ∃ serial, b.zone = zoneBody src whitelist b.body serial

/-- A file that is not passed through stands exactly as long as its records are the same. -/
theorem stands_iff {b : Built} {whitelist : List PatternEntry} (hid : b.source.id = src.id)
    (hbuilt : b.source.format ≠ "rpz".toList) (hsrc : src.format ≠ "rpz".toList) :
    b.Stands src whitelist ↔
      zoneRecords (blockedDomains b.whitelist b.body b.source.format) b.source.action
          b.source.redirectIp =
        zoneRecords (blockedDomains whitelist b.body src.format) src.action src.redirectIp := by
  unfold Stands zone zoneBody
  simp only [if_neg hbuilt, if_neg hsrc, hid]
  constructor
  · rintro ⟨serial, h⟩
    exact buildRpz_inj h
  · intro h
    refine ⟨b.serial, ?_⟩
    rw [buildRpz, h, buildRpz]

end Built

namespace BlocklistStore
variable (sha256Hex : List UInt8 → List Char)

/-- What a call builds a zone file from, if it builds one. -/
def builds (s : BlocklistStore) : BlocklistOp → Option Built
  | .refreshSource id w =>
    match s.loadSource id with
    | none => none
    | some src =>
      match w.fetch src.url with
      | .error _ => none
      | .ok body =>
        if s.scheduleEnabled && src.enabled && !s.unchanged src (sha256Hex body) && w.install.isOk
        then some ⟨src, s.whitelist, body, w.serial⟩
        else none
  | _ => none

/-- The store after a run, with what the last file of each source was built from. -/
def track (p : BlocklistStore × (Nat → Option Built)) (op : BlocklistOp) :
    BlocklistStore × (Nat → Option Built) :=
  (p.1.step sha256Hex op,
    match p.1.builds sha256Hex op with
    | some b => Function.update p.2 b.source.id (some b)
    | none => p.2)

def lastBuilt (s : BlocklistStore) (ops : List BlocklistOp) : Nat → Option Built :=
  (ops.foldl (track sha256Hex) (s, fun _ => none)).2

/-- Every refresh that returns ok for an enabled source that is not passed through leaves it with
the zone of the body it has downloaded, under the settings and the whitelist stored then. -/
def ZonesCurrent (s : BlocklistStore) (ops : List BlocklistOp) : Prop :=
  ∀ past id w, List.IsPrefix (past ++ [.refreshSource id w]) ops → ∀ src body,
    (s.run sha256Hex past).loadSource id = some src → src.enabled = true →
    src.format ≠ "rpz".toList → w.fetch src.url = .ok body →
    ((s.run sha256Hex past).refreshSource sha256Hex id w).2.ok = true →
    ∃ serial, (s.run sha256Hex (past ++ [.refreshSource id w])).files id =
      some (buildRpz (blockedDomains (s.run sha256Hex past).whitelist body src.format) src.action
        src.redirectIp ("rpz.blocklist-".toList ++ Nat.toDigits 10 id) serial)

/-- A body that a refresh of the run has downloaded. -/
def Downloaded (ops : List BlocklistOp) (body : List UInt8) : Prop :=
  ∃ id w url, .refreshSource id w ∈ ops ∧ w.fetch url = .ok body

/-- What the store says of the files, and what they were built from. -/
structure Recorded (ops : List BlocklistOp) (s : BlocklistStore) (built : Nat → Option Built) :
    Prop where
  hashes : ∀ r ∈ s.sources, r.lastSha256 = (built r.id).map fun b => sha256Hex b.body
  files : ∀ id text b, s.files id = some text → built id = some b → text = b.zone
  bodies : ∀ id b, built id = some b → Downloaded ops b.body

/-- A step that builds no file: rows keep their hashes, and files are at most removed. -/
structure Quiet (s s' : BlocklistStore) : Prop where
  sources : ∀ r ∈ s'.sources, ∃ old ∈ s.sources, old.id = r.id ∧ old.lastSha256 = r.lastSha256
  files : ∀ id text, s'.files id = some text → s.files id = some text
  scheduleEnabled : s'.scheduleEnabled = s.scheduleEnabled

section
variable {s : BlocklistStore} {sha256Hex : List UInt8 → List Char}

theorem Quiet.refl (s : BlocklistStore) : Quiet s s where
  sources := fun r hr => ⟨r, hr, rfl, rfl⟩
  files := fun _ _ h => h
  scheduleEnabled := rfl

theorem Quiet.updateRow (s : BlocklistStore) (id : Nat) (set : BlocklistSource → BlocklistSource)
    (hid : ∀ r, (set r).id = r.id) (hsha : ∀ r, (set r).lastSha256 = r.lastSha256) :
    Quiet s (s.updateRow id set) where
  sources := by
    intro r hr
    obtain ⟨old, hold, rfl⟩ := List.mem_map.mp hr
    refine ⟨old, hold, ?_⟩
    split
    · exact ⟨(hid old).symm, (hsha old).symm⟩
    · exact ⟨rfl, rfl⟩
  files := fun _ _ h => h
  scheduleEnabled := rfl

theorem Quiet.removeBlocklistFile (h : Quiet s s') (id : Nat) :
    Quiet s (s'.removeBlocklistFile id) where
  sources := h.sources
  files := by
    intro id' text hfile
    apply h.files
    rw [BlocklistStore.removeBlocklistFile, setFile_files] at hfile
    exact (Option.ite_none_left_eq_some.mp hfile).2
  scheduleEnabled := h.scheduleEnabled

theorem loadSource_id {id : Nat} (h : s.loadSource id = some src) : src.id = id := by
  unfold loadSource at h
  have hfound := List.find?_some h
  exact of_decide_eq_true hfound

theorem updateSource_quiet (s : BlocklistStore) (id : Nat) (req : UpdateBlocklistSource) :
    Quiet s (s.updateSource id req).1 := by
  unfold updateSource
  split
  · exact .refl s
  · dsimp only
    split
    · exact .refl s
    · split
      · exact .refl s
      · dsimp only
        split
        · exact .updateRow s id _ (fun _ => rfl) fun _ => rfl
        · apply Quiet.removeBlocklistFile
          exact .updateRow s id _ (fun _ => rfl) fun _ => rfl

theorem insertPattern_quiet (s : BlocklistStore) (pattern : List Char) (note : Option (List Char)) :
    Quiet s (s.insertPattern pattern note).1 := by
  unfold insertPattern
  split
  · exact .refl s
  · split
    · exact .refl s
    · exact ⟨fun r hr => ⟨r, hr, rfl, rfl⟩, fun _ _ h => h, rfl⟩

/-- A refresh builds a file and records its hash, or is quiet. -/
theorem refreshSource_cases (sha256Hex : List UInt8 → List Char) (s : BlocklistStore) (id : Nat)
    (w : RefreshInput) :
    s.builds sha256Hex (.refreshSource id w) = none ∧
        Quiet s (s.refreshSource sha256Hex id w).1 ∨
      ∃ b, s.builds sha256Hex (.refreshSource id w) = some b ∧ s.loadSource id = some b.source ∧
        w.fetch b.source.url = .ok b.body ∧
        (s.refreshSource sha256Hex id w).1 =
          (s.atomicWrite id b.zone).recordSuccess w.now id (countRules b.zone)
            (sha256Hex b.body) := by
  have herror : ∀ e, Quiet s (s.recordError id e) := fun e =>
    Quiet.updateRow s id _ (fun _ => rfl) fun _ => rfl
  unfold builds refreshSource
  dsimp only
  cases hschedule : s.scheduleEnabled with
  | false =>
    refine .inl ⟨?_, .refl s⟩
    split
    · rfl
    · split
      · rfl
      · rfl
  | true =>
    rw [Bool.not_true, if_neg Bool.false_ne_true]
    cases hload : s.loadSource id with
    | none => exact .inl ⟨rfl, .refl s⟩
    | some src =>
      dsimp only
      cases henabled : src.enabled with
      | false =>
        refine .inl ⟨?_, (Quiet.refl s).removeBlocklistFile id⟩
        split
        · rfl
        · rfl
      | true =>
        rw [Bool.not_true, if_neg Bool.false_ne_true]
        cases hfetch : w.fetch src.url with
        | error e => exact .inl ⟨rfl, herror e⟩
        | ok body =>
          dsimp only
          cases hsame : s.unchanged src (sha256Hex body) with
          | true =>
            rw [if_pos rfl]
            exact .inl ⟨rfl, Quiet.updateRow s id _ (fun _ => rfl) fun _ => rfl⟩
          | false =>
            rw [if_neg Bool.false_ne_true]
            cases hinstall : w.install with
            | error e => exact .inl ⟨rfl, herror _⟩
            | ok => exact .inr ⟨_, rfl, rfl, hfetch, rfl⟩

/-- What a call does to the rows and the files that it builds nothing for, and for what it does. -/
theorem step_cases (sha256Hex : List UInt8 → List Char) (s : BlocklistStore) (op : BlocklistOp) :
    s.builds sha256Hex op = none ∧ Quiet s (s.step sha256Hex op) ∨
      ∃ b now rules, s.builds sha256Hex op = some b ∧ Downloaded [op] b.body ∧
        s.step sha256Hex op = (s.atomicWrite b.source.id b.zone).recordSuccess now b.source.id rules
          (sha256Hex b.body) := by
  cases op with
  | updateSource id req => exact .inl ⟨rfl, updateSource_quiet s id req⟩
  | insertPattern pattern note => exact .inl ⟨rfl, insertPattern_quiet s pattern note⟩
  | deletePattern id => exact .inl ⟨rfl, fun r hr => ⟨r, hr, rfl, rfl⟩, fun _ _ h => h, rfl⟩
  | refreshSource id w =>
    obtain hquiet | ⟨b, hbuilds, hload, hfetch, hstep⟩ :=
      refreshSource_cases sha256Hex s id w
    · exact .inl hquiet
    · refine .inr ⟨b, w.now, countRules b.zone, hbuilds, ?_, ?_⟩
      · exact ⟨id, w, b.source.url, List.mem_singleton.mpr rfl, hfetch⟩
      · rw [loadSource_id hload]
        exact hstep

theorem Downloaded.of_subset (h : Downloaded ops body) (hsub : ops ⊆ ops') :
    Downloaded ops' body := by
  obtain ⟨id, w, url, hmem, hfetch⟩ := h
  exact ⟨id, w, url, hsub hmem, hfetch⟩

theorem Recorded.downloaded_concat {id : Nat} (h : Recorded sha256Hex ops s built)
    (op : BlocklistOp) (hbuilt : built id = some b) : Downloaded (ops ++ [op]) b.body :=
  (h.bodies id b hbuilt).of_subset (List.subset_append_left ops [op])

theorem Recorded.of_quiet (h : Recorded sha256Hex ops s built) (op : BlocklistOp)
    (hquiet : Quiet s s') : Recorded sha256Hex (ops ++ [op]) s' built where
  hashes := by
    intro r hr
    obtain ⟨old, hold, hid, hsha⟩ := hquiet.sources r hr
    rw [← hsha, ← hid]
    exact h.hashes old hold
  files := fun id text b hfile hb => h.files id text b (hquiet.files id text hfile) hb
  bodies := fun _ _ hb => h.downloaded_concat op hb

/-- The rows and the files after a build, with the source's last build replaced. -/
theorem Recorded.of_built (h : Recorded sha256Hex ops s built) (hbody : Downloaded [op] b.body)
    (now : Int) (rules : Nat) :
    Recorded sha256Hex (ops ++ [op])
      ((s.atomicWrite b.source.id b.zone).recordSuccess now b.source.id rules (sha256Hex b.body))
      (Function.update built b.source.id (some b)) where
  hashes := by
    intro r hr
    obtain ⟨old, hold, rfl⟩ := List.mem_map.mp hr
    by_cases hid : old.id = b.source.id
    · rw [if_pos hid]
      change some (sha256Hex b.body) = (Function.update built b.source.id (some b) old.id).map _
      rw [hid, Function.update_self]
      rfl
    · rw [if_neg hid, Function.update_of_ne hid]
      exact h.hashes old hold
  files := by
    intro id text b' hfile hb'
    change (s.setFile b.source.id (some b.zone)).files id = some text at hfile
    rw [setFile_files] at hfile
    by_cases hid : id = b.source.id
    · rw [if_pos hid] at hfile
      rw [hid, Function.update_self] at hb'
      cases hb'
      exact (Option.some.inj hfile).symm
    · rw [if_neg hid] at hfile
      rw [Function.update_of_ne hid] at hb'
      exact h.files id text b' hfile hb'
  bodies := by
    intro id b' hb'
    by_cases hid : id = b.source.id
    · rw [hid, Function.update_self] at hb'
      cases hb'
      exact hbody.of_subset (List.subset_append_right ops [op])
    · rw [Function.update_of_ne hid] at hb'
      exact h.downloaded_concat op hb'

theorem Recorded.concat (h : Recorded sha256Hex ops s built) (op : BlocklistOp) :
    Recorded sha256Hex (ops ++ [op]) (track sha256Hex (s, built) op).1
      (track sha256Hex (s, built) op).2 := by
  unfold track
  dsimp only
  obtain ⟨hbuilds, hquiet⟩ | ⟨b, now, rules, hbuilds, hbody, hstep⟩ := step_cases sha256Hex s op
  · rw [hbuilds]
    exact h.of_quiet op hquiet
  · rw [hbuilds, hstep]
    exact h.of_built hbody now rules

end

section
variable {init : BlocklistStore} {sha256Hex : List UInt8 → List Char} {ops : List BlocklistOp}

theorem track_run (sha256Hex : List UInt8 → List Char) (init : BlocklistStore)
    (ops : List BlocklistOp) :
    ops.foldl (track sha256Hex) (init, fun _ => none) =
      (init.run sha256Hex ops, init.lastBuilt sha256Hex ops) := by
  have hstore : (ops.foldl (track sha256Hex) (init, fun _ => none)).1 = init.run sha256Hex ops := by
    induction ops using List.reverseRecOn with
    | nil => rfl
    | append_singleton ops op ih =>
      rw [run, List.foldl_concat, List.foldl_concat, ← run, ← ih]
      rfl
  exact Prod.ext hstore rfl

theorem recorded_run (sha256Hex : List UInt8 → List Char)
    (hfresh : ∀ src ∈ init.sources, src.lastSha256 = none)
    (ops : List BlocklistOp) :
    Recorded sha256Hex ops (init.run sha256Hex ops) (init.lastBuilt sha256Hex ops) := by
  induction ops using List.reverseRecOn with
  | nil =>
    refine ⟨hfresh, ?_, ?_⟩
    · intro id text b _ hb
      cases hb
    · intro id b hb
      cases hb
  | append_singleton ops op ih =>
    have hboth := track_run sha256Hex init (ops ++ [op])
    rw [List.foldl_concat, track_run] at hboth
    have hnext := ih.concat op
    rwa [hboth] at hnext

theorem run_concat (sha256Hex : List UInt8 → List Char) (init : BlocklistStore)
    (ops : List BlocklistOp) (op : BlocklistOp) :
    init.run sha256Hex (ops ++ [op]) = (init.run sha256Hex ops).step sha256Hex op :=
  List.foldl_concat ..

theorem run_scheduleEnabled (init : BlocklistStore) (ops : List BlocklistOp) :
    (init.run sha256Hex ops).scheduleEnabled = init.scheduleEnabled := by
  induction ops using List.reverseRecOn with
  | nil => rfl
  | append_singleton ops op ih =>
    rw [run_concat]
    obtain ⟨-, hquiet⟩ | ⟨b, now, rules, -, -, hstep⟩ :=
      step_cases sha256Hex (init.run sha256Hex ops) op
    · exact hquiet.scheduleEnabled.trans ih
    · rw [hstep]
      exact ih

theorem zoneBody_of_format {id : Nat} {src : BlocklistSource} (hid : src.id = id)
    (hformat : src.format ≠ "rpz".toList) {whitelist : List PatternEntry} :
    zoneBody src whitelist body serial =
      buildRpz (blockedDomains whitelist body src.format) src.action src.redirectIp
        ("rpz.blocklist-".toList ++ Nat.toDigits 10 id) serial := by
  rw [zoneBody, if_neg hformat, hid]

theorem Recorded.file_of_isSome {id : Nat} (h : Recorded sha256Hex ops s built)
    (hbuilt : built id = some b) (hfile : (s.files id).isSome = true) : s.files id = some b.zone := by
  obtain ⟨text, htext⟩ := Option.isSome_iff_exists.mp hfile
  rw [htext, h.files id text b htext hbuilt]

/-- A body counts as unchanged exactly if its hash is that of the body the last file was built
from, and that file is still there. -/
theorem Recorded.unchanged_iff {id : Nat} (h : Recorded sha256Hex ops s built)
    (hload : s.loadSource id = some src) (body : List UInt8) :
    s.unchanged src (sha256Hex body) = true ↔
      ∃ b, built id = some b ∧ sha256Hex b.body = sha256Hex body ∧ s.files id = some b.zone := by
  rw [unchanged, h.hashes src (List.mem_of_find?_eq_some hload), loadSource_id hload,
    Bool.and_eq_true, beq_iff_eq, Option.map_eq_some_iff]
  constructor
  · rintro ⟨⟨b, hbuilt, hsame⟩, hfile⟩
    exact ⟨b, hbuilt, hsame, h.file_of_isSome hbuilt hfile⟩
  · rintro ⟨b, hbuilt, hsame, hzone⟩
    exact ⟨⟨b, hbuilt, hsame⟩, Option.isSome_of_eq_some hzone⟩

/-- A refresh of an enabled source with a download leaves the file alone or writes it anew. -/
theorem refreshSource_files (sha256Hex : List UInt8 → List Char) {s : BlocklistStore} {id : Nat}
    {w : RefreshInput}
    (hschedule : s.scheduleEnabled = true) (hload : s.loadSource id = some src)
    (henabled : src.enabled = true) (hfetch : w.fetch src.url = .ok body)
    (hinstall : w.install = .ok ()) :
    (s.refreshSource sha256Hex id w).2.ok = true ∧
      (s.refreshSource sha256Hex id w).1.files id =
        if s.unchanged src (sha256Hex body) then s.files id
        else some (zoneBody src s.whitelist body w.serial) := by
  unfold refreshSource
  dsimp only
  rw [hschedule, Bool.not_true, if_neg Bool.false_ne_true, hload]
  dsimp only
  rw [henabled, Bool.not_true, if_neg Bool.false_ne_true, hfetch]
  dsimp only
  cases s.unchanged src (sha256Hex body) with
  | true => exact ⟨rfl, rfl⟩
  | false =>
    rw [if_neg Bool.false_ne_true, if_neg Bool.false_ne_true, hinstall]
    refine ⟨rfl, ?_⟩
    change (s.setFile id (some (zoneBody src s.whitelist body w.serial))).files id = _
    rw [setFile_files, if_pos rfl]

end

/-- The files are current in a run exactly if every refresh that downloads the body its source was
last built from, and finds the file, does so under settings and a whitelist for which that file
still stands: a change of them alone builds no new file. -/
theorem zonesCurrent_iff (sha256Hex : List UInt8 → List Char) (init : BlocklistStore)
    (ops : List BlocklistOp) (hfresh : ∀ src ∈ init.sources, src.lastSha256 = none)
    (hschedule : init.scheduleEnabled = true)
    (hinstall : ∀ id w, .refreshSource id w ∈ ops → w.install = .ok ())
    (hsha : ∀ body body', Downloaded ops body → Downloaded ops body' →
      sha256Hex body = sha256Hex body' → body = body') :
    ZonesCurrent sha256Hex init ops ↔
      ∀ past id w, List.IsPrefix (past ++ [.refreshSource id w]) ops → ∀ src b,
        (init.run sha256Hex past).loadSource id = some src → src.enabled = true →
        src.format ≠ "rpz".toList → w.fetch src.url = .ok b.body →
        init.lastBuilt sha256Hex past id = some b →
        ((init.run sha256Hex past).files id).isSome = true →
        b.Stands src (init.run sha256Hex past).whitelist := by
  have hrefresh : ∀ past id w, List.IsPrefix (past ++ [.refreshSource id w]) ops → ∀ src body,
      (init.run sha256Hex past).loadSource id = some src → src.enabled = true →
      w.fetch src.url = .ok body → _ := fun past id w hp src body hload henabled hfetch =>
    refreshSource_files sha256Hex ((run_scheduleEnabled init past).trans hschedule)
      hload henabled hfetch (hinstall id w (hp.subset List.mem_concat_self))
  constructor
  · intro h past id w hp src b hload henabled hformat hfetch hbuilt hfile
    have hrecorded := recorded_run sha256Hex hfresh past
    obtain ⟨hok, hafter⟩ := hrefresh past id w hp src b.body hload henabled hfetch
    obtain ⟨serial, hcurrent⟩ := h past id w hp src b.body hload henabled hformat hfetch hok
    have hzone := hrecorded.file_of_isSome hbuilt hfile
    have hunchanged := (hrecorded.unchanged_iff hload b.body).mpr ⟨b, hbuilt, rfl, hzone⟩
    rw [run_concat] at hcurrent
    rw [if_pos hunchanged, hzone] at hafter
    refine ⟨serial, ?_⟩
    rw [zoneBody_of_format (loadSource_id hload) hformat]
    exact Option.some.inj (hafter.symm.trans hcurrent)
  · intro h past id w hp src body hload henabled hformat hfetch _
    have hrecorded := recorded_run sha256Hex hfresh past
    have hid := loadSource_id hload
    obtain ⟨-, hafter⟩ := hrefresh past id w hp src body hload henabled hfetch
    rw [run_concat]
    by_cases hunchanged : (init.run sha256Hex past).unchanged src (sha256Hex body) = true
    · rw [if_pos hunchanged] at hafter
      obtain ⟨b, hbuilt, hsame, hzone⟩ := (hrecorded.unchanged_iff hload body).mp hunchanged
      have hpast : Downloaded ops b.body :=
        (hrecorded.bodies id b hbuilt).of_subset ((List.prefix_append past _).trans hp).subset
      have hnow : Downloaded ops body :=
        ⟨id, w, src.url, hp.subset List.mem_concat_self, hfetch⟩
      have hbody := hsha b.body body hpast hnow hsame
      subst hbody
      have hfile := Option.isSome_of_eq_some hzone
      obtain ⟨serial, hstands⟩ := h past id w hp src b hload henabled hformat hfetch hbuilt hfile
      refine ⟨serial, hafter.trans (hzone.trans ?_)⟩
      rw [hstands, zoneBody_of_format hid hformat]
    · rw [if_neg hunchanged, zoneBody_of_format hid hformat] at hafter
      exact ⟨w.serial, hafter⟩

/-- A list of domains, never refreshed. -/
def oneSource : BlocklistStore where
  scheduleEnabled := true
  sources := [⟨1, "ads".toList, "ads".toList, "https://lists.example/ads".toList, "domains".toList, true,
    "nxdomain".toList, none, none, none, 0, none, false⟩]
  whitelist := []
  lastPatternId := 0
  files := fun _ => none

def oneDomain : List UInt8 := "ads.example.com\n".toUTF8.toList

/-- The hash of the one body there is. -/
def oneHash : List UInt8 → List Char := fun _ =>
  "3d439fc6b959423465db4238e7df7ebda7d47a3a9e123ce899faed5e49e4b1eb".toList

/-- Every download returns the list. -/
def download (serial : Nat) : RefreshInput := ⟨fun _ => .ok oneDomain, serial, serial, .ok ()⟩

/-- Two refreshes with an update between them. -/
def updateBetween (req : UpdateBlocklistSource) : List BlocklistOp :=
  [.refreshSource 1 (download 1), .updateSource 1 req, .refreshSource 1 (download 2)]

theorem mem_updateBetween {id : Nat} {req : UpdateBlocklistSource}
    (h : .refreshSource id w ∈ updateBetween req) : ∃ serial, w = download serial := by
  obtain he | h := List.mem_cons.mp h
  · cases he
    exact ⟨1, rfl⟩
  · obtain he | h := List.mem_cons.mp h
    · cases he
    · cases List.mem_singleton.mp h
      exact ⟨2, rfl⟩

theorem install_updateBetween (req : UpdateBlocklistSource) :
    ∀ id w, .refreshSource id w ∈ updateBetween req → w.install = .ok () := by
  intro id w hw
  obtain ⟨serial, rfl⟩ := mem_updateBetween hw
  rfl

theorem downloaded_updateBetween {req : UpdateBlocklistSource}
    (h : Downloaded (updateBetween req) body) : body = oneDomain := by
  obtain ⟨id, w, url, hw, hfetch⟩ := h
  obtain ⟨serial, rfl⟩ := mem_updateBetween hw
  exact (Except.ok.inj hfetch).symm

/-- The list moves to a mirror, and the file stands. -/
theorem zones_current_mirror :
    ZonesCurrent oneHash oneSource
      (updateBetween { url := some "https://mirror.example/ads".toList }) := by
  apply (zonesCurrent_iff oneHash oneSource _ (by decide) rfl (install_updateBetween _)
    fun body body' h h' _ =>
      (downloaded_updateBetween h).trans (downloaded_updateBetween h').symm).mpr
  intro past id w hp src b hload _ _ _ hbuilt _
  rcases past with _ | ⟨op, _ | ⟨op', _ | ⟨op'', past⟩⟩⟩
  · cases hbuilt
  · have hop := (List.cons_prefix_cons.mp (List.cons_prefix_cons.mp hp).2).1
    cases hop
  · obtain ⟨hfirst, hrest⟩ := List.cons_prefix_cons.mp hp
    obtain ⟨hsecond, hlast⟩ := List.cons_prefix_cons.mp hrest
    have hthird := (List.cons_prefix_cons.mp hlast).1
    subst hfirst hsecond
    cases hthird
    cases hload
    cases hbuilt
    exact ⟨1, rfl⟩
  · have hlen := hp.length_le
    simp only [List.length_append, List.length_cons, updateBetween] at hlen
    omega

/-- The action of the source is changed, its list is not: the refresh after that returns ok and
leaves the file with the old action. -/
theorem new_action_waits :
    (∀ src ∈ oneSource.sources, src.lastSha256 = none) ∧ oneSource.scheduleEnabled = true ∧
      (∀ id w, .refreshSource id w ∈ updateBetween { action := some "drop".toList } →
        w.install = .ok ()) ∧
      (∀ body body', Downloaded (updateBetween { action := some "drop".toList }) body →
        Downloaded (updateBetween { action := some "drop".toList }) body' →
        oneHash body = oneHash body' → body = body') ∧
      ¬ZonesCurrent oneHash oneSource (updateBetween { action := some "drop".toList }) := by
  refine ⟨by decide, rfl, install_updateBetween _, fun body body' h h' _ =>
    (downloaded_updateBetween h).trans (downloaded_updateBetween h').symm, ?_⟩
  intro h
  obtain ⟨serial, hfile⟩ := h [.refreshSource 1 (download 1),
    .updateSource 1 { action := some "drop".toList }] 1 (download 2) (List.prefix_refl _) _ oneDomain
    rfl rfl (by decide +kernel) rfl rfl
  have hkept : (oneSource.run oneHash (updateBetween { action := some "drop".toList })).files 1 =
      some (buildRpz ["ads.example.com".toList] "nxdomain".toList none "rpz.blocklist-1".toList 1) := by
    decide +kernel
  have hrecords := buildRpz_inj (Option.some.inj (hkept.symm.trans hfile))
  revert hrecords
  decide +kernel

end BlocklistStore

end AiFw.Dns
