import AiFw.Lib.Table
import Mathlib.Data.List.Perm.Basic
import Mathlib.Data.List.Nodup

namespace AiFw.Lib
set_option autoImplicit true

variable {σ ρ ε τ κ : Type}

/-- Adds what the entries read as to a table, one after the other. An entry that does not read is
passed over; the first row that is refused ends the reload, with the table as it is by then. -/
def reload (read : ε → Option ρ) (add : σ → ρ → Except σ σ) (table : σ) : List ε → Except σ σ
  | [] => .ok table
  | e :: entries =>
    match read e with
    | none => reload read add table entries
    | some r =>
      match add table r with
      | .ok table => reload read add table entries
      | .error table => .error table

/-- A row goes to the end of a table if it passes the check and clashes with no row there. -/
def insertRow (Checked : ρ → Prop) (Clash : ρ → ρ → Prop) [DecidablePred Checked]
    [DecidableRel Clash] (rows : List ρ) (r : ρ) : Except (List ρ) (List ρ) :=
  if Checked r ∧ ∀ q ∈ rows, ¬Clash q r then .ok (rows ++ [r]) else .error rows

/-- A call that fails leaves the table alone. -/
def keeping (add : σ → ρ → Except τ σ) (table : σ) (r : ρ) : Except σ σ :=
  match add table r with
  | .ok table => .ok table
  | .error _ => .error table

/-- How a table takes a row: at its end, after the check and unless it clashes. -/
structure Inserts (rows : σ → List τ) (row : ρ → τ) (Checked : ρ → Prop) (Clash : τ → τ → Prop)
    (add : σ → ρ → Except σ σ) : Prop where
  grows : ∀ table r table', add table r = .ok table' → rows table' = rows table ++ [row r]
  taken_iff : ∀ table r,
    (∃ table', add table r = .ok table') ↔ Checked r ∧ ∀ q ∈ rows table, ¬Clash q (row r)

/-- Rows that can be added: all pass the check, and none clashes with a row of the table or with one
that comes before it. -/
structure Fits (row : ρ → τ) (Checked : ρ → Prop) (Clash : τ → τ → Prop) (rows : List τ)
    (new : List ρ) : Prop where
  checked : ∀ r ∈ new, Checked r
  free : ∀ r ∈ new, ∀ q ∈ rows, ¬Clash q (row r)
  apart : new.Pairwise fun q r => ¬Clash (row q) (row r)

theorem Fits.nil (row : ρ → τ) (Checked : ρ → Prop) (Clash : τ → τ → Prop) (rows : List τ) :
    Fits row Checked Clash rows [] := ⟨nofun, nofun, .nil⟩

theorem fits_singleton {row : ρ → τ} {Checked : ρ → Prop} {Clash : τ → τ → Prop} {rows : List τ} :
    Fits row Checked Clash rows [r] ↔ Checked r ∧ ∀ q ∈ rows, ¬Clash q (row r) := by
  constructor
  · intro h
    exact ⟨h.checked r List.mem_cons_self, h.free r List.mem_cons_self⟩
  · rintro ⟨hcheck, hfree⟩
    exact ⟨List.forall_mem_singleton.mpr hcheck, List.forall_mem_singleton.mpr hfree,
      List.pairwise_singleton _ _⟩

/-- Rows fit one part after the other. -/
theorem fits_append {row : ρ → τ} {Checked : ρ → Prop} {Clash : τ → τ → Prop} {rows : List τ}
    {new rest : List ρ} :
    Fits row Checked Clash rows (new ++ rest) ↔
      Fits row Checked Clash rows new ∧ Fits row Checked Clash (rows ++ new.map row) rest := by
  constructor
  · intro h
    obtain ⟨hnew, hrest, hacross⟩ := List.pairwise_append.mp h.apart
    refine ⟨⟨?_, ?_, hnew⟩, ?_, ?_, hrest⟩
    · intro r hr
      exact h.checked r (List.mem_append_left rest hr)
    · intro r hr
      exact h.free r (List.mem_append_left rest hr)
    · intro r hr
      exact h.checked r (List.mem_append_right new hr)
    · intro r hr q hq
      rcases List.mem_append.mp hq with hq | hq
      · exact h.free r (List.mem_append_right new hr) q hq
      · obtain ⟨first, hfirst, rfl⟩ := List.mem_map.mp hq
        exact hacross first hfirst r hr
  · rintro ⟨hnew, hrest⟩
    refine ⟨?_, ?_, List.pairwise_append.mpr ⟨hnew.apart, hrest.apart, ?_⟩⟩
    · intro r hr
      rcases List.mem_append.mp hr with hr | hr
      · exact hnew.checked r hr
      · exact hrest.checked r hr
    · intro r hr q hq
      rcases List.mem_append.mp hr with hr | hr
      · exact hnew.free r hr q hq
      · exact hrest.free r hr q (List.mem_append_left _ hq)
    · intro q hq r hr
      exact hrest.free r hr (row q) (List.mem_append_right _ (List.mem_map_of_mem hq))

theorem fits_cons {row : ρ → τ} {Checked : ρ → Prop} {Clash : τ → τ → Prop} {rows : List τ}
    {rest : List ρ} :
    Fits row Checked Clash rows (r :: rest) ↔
      (Checked r ∧ ∀ q ∈ rows, ¬Clash q (row r)) ∧
        Fits row Checked Clash (rows ++ [row r]) rest := by
  rw [← fits_singleton, ← List.singleton_append]
  exact fits_append

theorem keeping_ok {add : σ → ρ → Except τ σ} :
    keeping add table r = .ok table' ↔ add table r = .ok table' := by
  unfold keeping
  cases add table r with
  | ok new =>
    constructor
    · intro h
      exact congrArg Except.ok (Except.ok.inj h)
    · intro h
      exact congrArg Except.ok (Except.ok.inj h)
  | error e => exact ⟨nofun, nofun⟩

/-- It is enough to say when a row is taken, and that it goes to the end then. -/
theorem inserts_of_ok_iff {rows : σ → List τ} {row : ρ → τ} {Checked : ρ → Prop}
    {Clash : τ → τ → Prop} {add : σ → ρ → Except σ σ}
    (hrefuses : ∀ table r table', add table r = .ok table' →
      (Checked r ∧ ∀ q ∈ rows table, ¬Clash q (row r)) ∧ rows table' = rows table ++ [row r])
    (htakes : ∀ table r, Checked r → (∀ q ∈ rows table, ¬Clash q (row r)) →
      ∃ table', add table r = .ok table') :
    Inserts rows row Checked Clash add where
  grows table r table' h := (hrefuses table r table' h).2
  taken_iff table r := by
    constructor
    · rintro ⟨table', h⟩
      exact (hrefuses table r table' h).1
    · rintro ⟨hcheck, hfree⟩
      exact htakes table r hcheck hfree

theorem inserts_insertRow (Checked : ρ → Prop) (Clash : ρ → ρ → Prop) [DecidablePred Checked]
    [DecidableRel Clash] : Inserts id id Checked Clash (insertRow Checked Clash) := by
  apply inserts_of_ok_iff
  · intro rows r rows' h
    unfold insertRow at h
    split at h
    · rename_i htaken
      cases h
      exact ⟨htaken, rfl⟩
    · cases h
  · intro rows r hcheck hfree
    exact ⟨rows ++ [r], if_pos ⟨hcheck, hfree⟩⟩

variable {read : ε → Option ρ} {add : σ → ρ → Except σ σ} {table table' : σ}
  {rows : σ → List τ} {row : ρ → τ} {Checked : ρ → Prop} {Clash : τ → τ → Prop}

theorem reload_cons_none (h : read e = none) (entries : List ε) :
    reload read add table (e :: entries) = reload read add table entries := by
  rw [reload, h]

theorem reload_cons_ok (h : read e = some r) (hadd : add table r = .ok table') (entries : List ε) :
    reload read add table (e :: entries) = reload read add table' entries := by
  rw [reload, h]
  dsimp only
  rw [hadd]

theorem reload_cons_ok_iff (h : read e = some r) (entries : List ε) :
    reload read add table (e :: entries) = .ok table' ↔
      ∃ mid, add table r = .ok mid ∧ reload read add mid entries = .ok table' := by
  cases hadd : add table r with
  | ok mid =>
    rw [reload_cons_ok h hadd]
    constructor
    · intro hrest
      exact ⟨mid, rfl, hrest⟩
    · rintro ⟨_, he, hrest⟩
      cases he
      exact hrest
  | error mid =>
    have herror : reload read add table (e :: entries) = .error mid := by
      rw [reload, h]
      dsimp only
      rw [hadd]
    rw [herror]
    constructor
    · intro he
      cases he
    · rintro ⟨_, he, -⟩
      cases he

/-- A reload that goes through adds just the rows that the entries read as. -/
theorem rows_of_reload (hadd : Inserts rows row Checked Clash add)
    (h : reload read add table entries = .ok table') :
    rows table' = rows table ++ (entries.filterMap read).map row := by
  induction entries generalizing table with
  | nil =>
    cases h
    rw [List.filterMap_nil, List.map_nil, List.append_nil]
  | cons e entries ih =>
    cases hread : read e with
    | none =>
      rw [reload_cons_none hread] at h
      rw [List.filterMap_cons_none hread]
      exact ih h
    | some r =>
      obtain ⟨mid, hmid, h⟩ := (reload_cons_ok_iff hread entries).mp h
      rw [List.filterMap_cons_some hread, ih h, hadd.grows table r mid hmid, List.append_assoc]
      rfl

/-- What no row that is added changes stays as it is. -/
theorem reload_frame {υ : Type} {g : σ → υ}
    (hframe : ∀ table r table', add table r = .ok table' → g table' = g table)
    (h : reload read add table entries = .ok table') : g table' = g table := by
  induction entries generalizing table with
  | nil =>
    cases h
    rfl
  | cons e entries ih =>
    cases hread : read e with
    | none =>
      rw [reload_cons_none hread] at h
      exact ih h
    | some r =>
      obtain ⟨mid, hmid, h⟩ := (reload_cons_ok_iff hread entries).mp h
      rw [ih h, hframe table r mid hmid]

/-- A reload goes through exactly if the rows that the entries read as fit. -/
theorem reload_ok_iff (hadd : Inserts rows row Checked Clash add) :
    (∃ table', reload read add table entries = .ok table') ↔
      Fits row Checked Clash (rows table) (entries.filterMap read) := by
  induction entries generalizing table with
  | nil => exact ⟨fun _ => .nil row Checked Clash (rows table), fun _ => ⟨table, rfl⟩⟩
  | cons e entries ih =>
    cases hread : read e with
    | none => rw [reload_cons_none hread, List.filterMap_cons_none hread, ih]
    | some r =>
      rw [List.filterMap_cons_some hread, fits_cons, ← hadd.taken_iff]
      constructor
      · rintro ⟨table', h⟩
        obtain ⟨mid, hmid, hrest⟩ := (reload_cons_ok_iff hread entries).mp h
        have hfits := ih.mp ⟨table', hrest⟩
        rw [hadd.grows table r mid hmid] at hfits
        exact ⟨⟨mid, hmid⟩, hfits⟩
      · rintro ⟨⟨mid, hmid⟩, hfits⟩
        rw [reload_cons_ok hread hmid]
        apply ih.mpr
        rw [hadd.grows table r mid hmid]
        exact hfits

/-- The reload goes through, and its rows look as those that were stored. -/
def Restores {υ : Type} (x : Except (List ρ) (List ρ)) (view : ρ → υ) (stored : List ρ) : Prop :=
  ∃ rows, x = .ok rows ∧ (rows.map view).Perm (stored.map view)

theorem Restores.ok {υ : Type} {x : Except (List ρ) (List ρ)} {view : ρ → υ} {stored : List ρ}
    (h : Restores x view stored) : ∃ rows, x = .ok rows := by
  obtain ⟨rows, hok, -⟩ := h
  exact ⟨rows, hok⟩

theorem Restores.perm {υ : Type} {x : Except (List ρ) (List ρ)} {view : ρ → υ}
    {rows stored : List ρ} (h : Restores x view stored) (hx : x = .ok rows) :
    (rows.map view).Perm (stored.map view) := by
  obtain ⟨found, hfound, hperm⟩ := h
  cases hx.symm.trans hfound
  exact hperm

section
variable {υ : Type} {read : ε → Option ρ} {entry : ρ → ε} {back : ρ → ρ} {key : ρ → κ}
  {view : ρ → υ} {stored listing : List ρ}

/-- A row comes back from its entry with its key, which can be told from what is looked at. -/
structure ComesBack (read : ε → Option ρ) (entry : ρ → ε) (back : ρ → ρ) (key : ρ → κ)
    (view : ρ → υ) (stored : List ρ) : Prop where
  read : ∀ r ∈ stored, read (entry r) = some (back r)
  keeps : ∀ r, key (back r) = key r
  tells : ∀ r r', view r = view r' → key r = key r'

theorem ComesBack.filterMap (h : ComesBack read entry back key view stored)
    (hlist : listing.Perm stored) :
    (listing.map entry).filterMap read = listing.map back := by
  have hread (r : ρ) (hr : r ∈ listing) : (read ∘ entry) r = some (back r) :=
    h.read r (hlist.mem_iff.mp hr)
  rw [List.filterMap_map, List.filterMap_congr hread]
  exact congrFun List.filterMap_eq_map' listing

/-- What comes back are the rows, as far as they are looked at, exactly if each row comes back as
itself. -/
theorem back_perm_iff (hlist : listing.Perm stored) (hkeys : (stored.map key).Nodup)
    (hkeeps : ∀ r, key (back r) = key r) (htells : ∀ r r', view r = view r' → key r = key r') :
    ((listing.map back).map view).Perm (stored.map view) ↔
      ∀ r ∈ stored, view (back r) = view r := by
  rw [List.map_map]
  constructor
  · intro h r hr
    have hmem : view r ∈ listing.map (view ∘ back) := h.mem_iff.mpr (List.mem_map_of_mem hr)
    obtain ⟨other, hother, hsame⟩ := List.mem_map.mp hmem
    have hkey : key other = key r := (hkeeps other).symm.trans (htells _ r hsame)
    rwa [List.inj_on_of_nodup_map hkeys (hlist.mem_iff.mp hother) hr hkey] at hsame
  · intro h
    have hall : listing.map (view ∘ back) = listing.map view :=
      List.map_congr_left fun r hr => h r (hlist.mem_iff.mp hr)
    rw [hall]
    exact hlist.map view

variable {add : List ρ → ρ → Except (List ρ) (List ρ)} {Checked : ρ → Prop} {Clash : ρ → ρ → Prop}

theorem reloaded_perm_iff {rows : List ρ} (hadd : Inserts id id Checked Clash add)
    (hback : ComesBack read entry back key view stored)
    (hok : reload read add [] (listing.map entry) = .ok rows) (hlist : listing.Perm stored)
    (hkeys : (stored.map key).Nodup) :
    (rows.map view).Perm (stored.map view) ↔ ∀ r ∈ stored, view (back r) = view r := by
  have hrows : rows = ((listing.map entry).filterMap read).map id := rows_of_reload hadd hok
  rw [hrows, List.map_id, hback.filterMap hlist]
  exact back_perm_iff hlist hkeys hback.keeps hback.tells

/-- The rows that come back fit if and only if the rows of the table would. -/
theorem fits_back_iff (hlist : listing.Perm stored)
    (hcheck : ∀ r, Checked (back r) ↔ Checked r) (hclash : ∀ q r, Clash (back q) (back r) ↔ Clash q r)
    (hsymm : ∀ q r, Clash q r → Clash r q) :
    Fits id Checked Clash [] (listing.map back) ↔
      (∀ r ∈ stored, Checked r) ∧ stored.Pairwise fun q r => ¬Clash q r := by
  have hswap {q r : ρ} (hfree : ¬Clash q r) : ¬Clash r q := fun hbad => hfree (hsymm r q hbad)
  have hapart : (listing.map back).Pairwise (fun q r => ¬Clash (id q) (id r)) ↔
      stored.Pairwise fun q r => ¬Clash q r := by
    rw [← hlist.pairwise_iff hswap, List.pairwise_map]
    exact List.Pairwise.iff fun q r => not_congr (hclash q r)
  have hchecks : (∀ r ∈ listing.map back, Checked r) ↔ ∀ r ∈ stored, Checked r := by
    rw [List.forall_mem_map]
    constructor
    · intro h r hr
      exact (hcheck r).mp (h r (hlist.mem_iff.mpr hr))
    · intro h r hr
      exact (hcheck r).mpr (h r (hlist.mem_iff.mp hr))
  constructor
  · intro h
    exact ⟨hchecks.mp h.checked, hapart.mp h.apart⟩
  · rintro ⟨h, hfree⟩
    exact ⟨hchecks.mpr h, (fun _ _ _ hq => nomatch hq), hapart.mpr hfree⟩

/-- A table whose rows do not clash is restored from its entries if and only if each row passes the
check and comes back as itself. -/
theorem restored_iff (hadd : Inserts id id Checked Clash add)
    (hback : ComesBack read entry back key view stored) (hlist : listing.Perm stored)
    (hkeys : (stored.map key).Nodup) (hapart : stored.Pairwise fun q r => ¬Clash q r)
    (hcheck : ∀ r, Checked (back r) ↔ Checked r) (hclash : ∀ q r, Clash (back q) (back r) ↔ Clash q r)
    (hsymm : ∀ q r, Clash q r → Clash r q) :
    Restores (reload read add [] (listing.map entry)) view stored ↔
      ∀ r ∈ stored, Checked r ∧ view (back r) = view r := by
  have hfits : (∃ rows, reload read add [] (listing.map entry) = .ok rows) ↔
      ∀ r ∈ stored, Checked r := by
    rw [reload_ok_iff hadd, hback.filterMap hlist]
    exact (fits_back_iff hlist hcheck hclash hsymm).trans (and_iff_left hapart)
  constructor
  · rintro ⟨rows, hok, hperm⟩
    have hchecked := hfits.mp ⟨rows, hok⟩
    have hsame := (reloaded_perm_iff hadd hback hok hlist hkeys).mp hperm
    intro r hr
    exact ⟨hchecked r hr, hsame r hr⟩
  · intro h
    obtain ⟨rows, hok⟩ := hfits.mpr fun r hr => (h r hr).1
    exact ⟨rows, hok, (reloaded_perm_iff hadd hback hok hlist hkeys).mpr fun r hr => (h r hr).2⟩

end

/-- Rows with two unique columns do not clash in either. -/
theorem apart_of_keys {ν : Type} {stored : List ρ} {key : ρ → κ} {name : ρ → ν}
    (hkeys : (stored.map key).Nodup) (hnames : (stored.map name).Nodup) :
    stored.Pairwise fun q r => ¬(key q = key r ∨ name q = name r) := by
  apply (List.pairwise_and_iff.mpr
    ⟨List.pairwise_map.mp hkeys, List.pairwise_map.mp hnames⟩).imp
  intro q r hne
  exact not_or.mpr hne

/-- The rows of each group, one group after the other, are all the rows. -/
theorem flatMap_filter_perm {γ : Type} [DecidableEq κ] {groups : List γ} {rows : List ρ} {home : γ → κ}
    {key : ρ → κ} (hgroups : (groups.map home).Nodup) (hrows : rows.Nodup)
    (hhome : ∀ r ∈ rows, ∃ g ∈ groups, home g = key r) :
    (groups.flatMap fun g => rows.filter fun r => key r = home g).Perm rows := by
  have hmem (g : γ) (r : ρ) : r ∈ rows.filter (fun r => key r = home g) ↔ r ∈ rows ∧ key r = home g := by
    rw [List.mem_filter, decide_eq_true_eq]
  apply (List.perm_ext_iff_of_nodup _ hrows).mpr
  · intro r
    rw [List.mem_flatMap]
    constructor
    · rintro ⟨g, -, hr⟩
      exact ((hmem g r).mp hr).1
    · intro hr
      obtain ⟨g, hg, hsame⟩ := hhome r hr
      exact ⟨g, hg, (hmem g r).mpr ⟨hr, hsame.symm⟩⟩
  · rw [List.nodup_flatMap]
    constructor
    · intro g _
      exact hrows.filter _
    · apply (List.pairwise_map.mp hgroups).imp
      intro g g' hne r hr hr'
      exact hne (((hmem g r).mp hr).2.symm.trans ((hmem g' r).mp hr').2)

end AiFw.Lib
