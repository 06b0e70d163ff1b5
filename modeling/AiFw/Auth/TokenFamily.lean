import AiFw.Auth.TokenRace

namespace AiFw.Auth
open AiFw.Lib
set_option autoImplicit true

def createRow (userId : List Char) (familyId : Uuid) (o : Outside) : TokenRow where
  id := o.newId
  userId := userId
  tokenHash := o.newToken
  tokenPrefix := refreshPrefix o.newToken
  familyId := familyId
  expiresAt := o.now + o.lifetime
  revoked := false
  createdAt := o.now

def createRefreshToken (rows : List TokenRow) (userId : List Char) (familyId : Uuid) (o : Outside) :
    List TokenRow × Except String (List Char) :=
  (rows ++ [createRow userId familyId o], .ok o.newToken)

def notFoundText : String := "refresh token not found"

/-- Only the rows not yet revoked are looked at. -/
def revokeRefreshToken (rows : List TokenRow) (token : List Char) :
    List TokenRow × Except String Unit :=
  match (rows.filter fun r => r.tokenPrefix = refreshPrefix token && !r.revoked).find?
      fun r => verifyPassword token r.tokenHash with
  | none => (rows, .error notFoundText)
  | some row => (revokeId row.id rows, .ok ())

inductive TokenCall where
  | create (userId : List Char) (familyId : Uuid) (o : Outside)
  | rotate (token : List Char) (o : Outside)
  | revoke (token : List Char)

namespace TokenCall

def exec (rows : List TokenRow) : TokenCall → List TokenRow
  | create userId familyId o => (createRefreshToken rows userId familyId o).1
  | rotate token o => (rotateRefreshToken rows token o).1
  | revoke token => (revokeRefreshToken rows token).1

/-- The raw tokens a call draws. -/
def draws : TokenCall → List (List Char)
  | create _ _ o => [o.newToken]
  | rotate _ o => [o.newToken]
  | revoke _ => []

def families : TokenCall → List Uuid
  | create _ familyId _ => [familyId]
  | rotate _ _ => []
  | revoke _ => []

/-- The call is not made before the time given. -/
def From (time : Nat) : TokenCall → Prop
  | create _ _ o => time ≤ o.now
  | rotate _ o => time ≤ o.now
  | revoke _ => True

/-- The table after a sequence of calls on an empty one. -/
def tableAfter (calls : List TokenCall) : List TokenRow := calls.foldl exec []

/-- Raw tokens and family ids are drawn only once. -/
def Distinct (calls : List TokenCall) : Prop :=
  (calls.flatMap draws).Nodup ∧ (calls.flatMap families).Nodup

end TokenCall

/-- The rotation succeeds on a row of the family. -/
def Accepts (rows : List TokenRow) (token : List Char) (o : Outside) (familyId : Uuid) : Prop :=
  (∃ row, lookup rows token = some row ∧ row.familyId = familyId) ∧
    ∃ new, (rotateRefreshToken rows token o).2 = .ok new

/-- The call fails, and from then on no rotation accepts a token of the family. -/
def Kills (past : List TokenCall) (token : List Char) (o : Outside) (familyId : Uuid) : Prop :=
  (∃ e, (rotateRefreshToken (TokenCall.tableAfter past) token o).2 = .error e) ∧
    ∀ later token' o', TokenCall.Distinct (past ++ .rotate token o :: later ++ [.rotate token' o']) →
      (∀ c ∈ later, c.From o.now) → o.now ≤ o'.now →
        ¬ Accepts (TokenCall.tableAfter (past ++ .rotate token o :: later)) token' o' familyId

/-- A row as it stands in the table after a call. -/
inductive Arises (rows : List TokenRow) (c : TokenCall) (r : TokenRow) : Prop where
  | kept (hold : old ∈ rows) (hages : Ages old r)
  | created (hc : c = .create userId familyId o) (hr : r = createRow userId familyId o)
  | rotated (hc : c = .rotate token o) (hl : lookup rows token = some row)
      (hlive : row.revoked = false) (htime : o.now ≤ row.expiresAt) (hr : r = newRow o row)

/-- The cases of a rotation. -/
theorem rotateRefreshToken_cases (rows : List TokenRow) (token : List Char) (o : Outside) :
    (lookup rows token = none ∧ rotateRefreshToken rows token o = (rows, .error invalidText)) ∨
    (∃ row, lookup rows token = some row ∧ row.revoked = true ∧
      rotateRefreshToken rows token o = (revokeFamily row.familyId rows, .error reuseText)) ∨
    (∃ row, lookup rows token = some row ∧ row.revoked = false ∧ row.expiresAt < o.now ∧
      rotateRefreshToken rows token o = (rows, .error expiredText)) ∨
    ∃ row, lookup rows token = some row ∧ row.revoked = false ∧ o.now ≤ row.expiresAt ∧
      rotateRefreshToken rows token o = (pruneIf o (revokeId row.id rows ++ [newRow o row]),
        o.account.map fun _ => o.newToken) := by
  unfold rotateRefreshToken
  cases hl : lookup rows token with
  | none => exact .inl ⟨rfl, rfl⟩
  | some row =>
    by_cases hr : row.revoked = true
    · exact .inr (.inl ⟨row, rfl, hr, if_pos hr⟩)
    · have hf := Bool.eq_false_iff.mpr hr
      by_cases he : row.expiresAt < o.now
      · exact .inr (.inr (.inl ⟨row, rfl, hf, he, (if_neg hr).trans (if_pos he)⟩))
      · exact .inr (.inr (.inr ⟨row, rfl, hf, Nat.le_of_not_lt he, (if_neg hr).trans (if_neg he)⟩))

theorem Accepts.cases (h : Accepts rows token o familyId) :
    ∃ row, lookup rows token = some row ∧ row.familyId = familyId ∧ row.revoked = false ∧
      o.now ≤ row.expiresAt ∧
      (rotateRefreshToken rows token o).1 = pruneIf o (revokeId row.id rows ++ [newRow o row]) := by
  obtain ⟨⟨row, hl, hfam⟩, new, hok⟩ := h
  obtain ⟨_, heq⟩ | ⟨_, _, _, heq⟩ | ⟨_, _, _, _, heq⟩ | ⟨row', hl', hlive, htime, heq⟩ :=
    rotateRefreshToken_cases rows token o
  · rw [heq] at hok
    cases hok
  · rw [heq] at hok
    cases hok
  · rw [heq] at hok
    cases hok
  · rw [hl] at hl'
    cases hl'
    exact ⟨row, hl, hfam, hlive, htime, congrArg Prod.fst heq⟩

theorem arises_exec (h : r ∈ TokenCall.exec rows c) : Arises rows c r := by
  have hrevoked : ∀ kind, r ∈ revokeWhere kind rows → Arises rows c r := by
    intro kind h
    obtain ⟨old, hold, hages, _⟩ := mem_revokeWhere h
    exact .kept hold hages
  cases c with
  | create userId familyId o =>
    cases List.mem_append.mp h with
    | inl h => exact .kept h (.inl rfl)
    | inr h => exact .created rfl (List.mem_singleton.mp h)
  | rotate token o =>
    rw [TokenCall.exec] at h
    obtain ⟨_, heq⟩ | ⟨row, _, _, heq⟩ | ⟨row, _, _, _, heq⟩ | ⟨row, hl, hlive, htime, heq⟩ :=
      rotateRefreshToken_cases rows token o
    · rw [heq] at h
      exact .kept h (.inl rfl)
    · rw [heq] at h
      exact hrevoked _ h
    · rw [heq] at h
      exact .kept h (.inl rfl)
    · rw [heq] at h
      cases List.mem_append.mp (mem_pruneIf h) with
      | inl h => exact hrevoked _ h
      | inr h => exact .rotated rfl hl hlive htime (List.mem_singleton.mp h)
  | revoke token =>
    simp only [TokenCall.exec, revokeRefreshToken] at h
    split at h
    · exact .kept h (.inl rfl)
    · exact hrevoked _ h

theorem map_tokenHash_revokeWhere (kind : TokenRow → Bool) (rows : List TokenRow) :
    (revokeWhere kind rows).map TokenRow.tokenHash = rows.map TokenRow.tokenHash := by
  induction rows with
  | nil => rfl
  | cons r rows ih =>
    have hr : (if kind r then r.revoke else r).tokenHash = r.tokenHash := by
      split <;> rfl
    rw [revokeWhere] at ih ⊢
    rw [List.map_cons, List.map_cons, List.map_cons, hr, ih]

theorem pruneIf_sublist (o : Outside) (rows : List TokenRow) : (pruneIf o rows).Sublist rows := by
  unfold pruneIf
  split
  · exact List.filter_sublist
  · exact List.Sublist.refl rows

/-- A call adds no token but the one it draws. -/
theorem tokenHash_exec (rows : List TokenRow) (c : TokenCall) :
    ((c.exec rows).map TokenRow.tokenHash).Sublist (rows.map TokenRow.tokenHash ++ c.draws) := by
  have hkeep : ∀ l : List TokenRow, l.map TokenRow.tokenHash = rows.map TokenRow.tokenHash →
      (l.map TokenRow.tokenHash).Sublist (rows.map TokenRow.tokenHash ++ c.draws) := by
    intro l hl
    rw [hl]
    exact List.sublist_append_left _ _
  cases c with
  | create userId familyId o =>
    simp only [TokenCall.exec, createRefreshToken, List.map_append]
    exact List.Sublist.refl _
  | rotate token o =>
    rw [TokenCall.exec]
    obtain ⟨_, heq⟩ | ⟨row, _, _, heq⟩ | ⟨row, _, _, _, heq⟩ | ⟨row, _, _, _, heq⟩ :=
      rotateRefreshToken_cases rows token o
    · rw [heq]
      exact hkeep _ rfl
    · rw [heq]
      exact hkeep _ (map_tokenHash_revokeWhere _ rows)
    · rw [heq]
      exact hkeep _ rfl
    · rw [heq]
      apply ((pruneIf_sublist o _).map TokenRow.tokenHash).trans
      rw [List.map_append, revokeId, map_tokenHash_revokeWhere]
      exact List.Sublist.refl _
  | revoke token =>
    simp only [TokenCall.exec, revokeRefreshToken]
    split
    · exact hkeep _ rfl
    · exact hkeep _ (map_tokenHash_revokeWhere _ rows)

/-- The table holds what the calls so far have drawn, each token once. -/
structure Sound (drawn : List (List Char)) (families : List Uuid) (rows : List TokenRow) : Prop where
  prefixed : ∀ r ∈ rows, r.tokenPrefix = refreshPrefix r.tokenHash
  family : ∀ r ∈ rows, r.familyId ∈ families
  hash : ∀ r ∈ rows, r.tokenHash ∈ drawn
  once : (rows.map TokenRow.tokenHash).Nodup

theorem Sound.exec (h : Sound drawn families rows) (hnew : ∀ x ∈ TokenCall.draws c, x ∉ drawn) :
    Sound (drawn ++ c.draws) (families ++ c.families) (c.exec rows) := by
  constructor
  case prefixed =>
    intro r hr
    cases arises_exec hr with
    | kept hold hages => rw [hages.tokenPrefix, hages.tokenHash, h.prefixed _ hold]
    | created _ hr =>
      rw [hr]
      rfl
    | rotated _ _ _ _ hr =>
      rw [hr]
      rfl
  case family =>
    intro r hr
    cases arises_exec hr with
    | kept hold hages =>
      rw [hages.familyId]
      exact List.mem_append_left _ (h.family _ hold)
    | created hc hr =>
      rw [hc, hr]
      exact List.mem_append_right _ List.mem_cons_self
    | rotated _ hl _ _ hr =>
      have hfam := h.family _ (mem_of_lookup hl).1
      rw [hr]
      exact List.mem_append_left _ hfam
  case hash =>
    intro r hr
    have hmem := (tokenHash_exec rows c).subset (List.mem_map_of_mem hr)
    cases List.mem_append.mp hmem with
    | inl hmem =>
      obtain ⟨old, hold, heq⟩ := List.mem_map.mp hmem
      exact List.mem_append_left _ (heq ▸ h.hash old hold)
    | inr hmem => exact List.mem_append_right _ hmem
  case once =>
    apply (tokenHash_exec rows c).nodup
    rw [List.nodup_append]
    have hdraws : c.draws.Nodup := by
      cases c with
      | create userId familyId o => exact List.nodup_singleton _
      | rotate token o => exact List.nodup_singleton _
      | revoke token => exact List.nodup_nil
    refine ⟨h.once, hdraws, ?_⟩
    intro x hx y hy heq
    obtain ⟨old, hold, rfl⟩ := List.mem_map.mp hx
    exact hnew y hy (heq ▸ h.hash old hold)

theorem Sound.execs {calls : List TokenCall} (h : Sound drawn families rows)
    (hnew : (drawn ++ calls.flatMap TokenCall.draws).Nodup) :
    Sound (drawn ++ calls.flatMap TokenCall.draws) (families ++ calls.flatMap TokenCall.families)
      (calls.foldl TokenCall.exec rows) := by
  induction calls generalizing drawn families rows with
  | nil =>
    rw [List.flatMap_nil, List.flatMap_nil, List.append_nil, List.append_nil]
    exact h
  | cons c calls ih =>
    rw [List.flatMap_cons, ← List.append_assoc] at hnew
    have hfirst : ∀ x ∈ c.draws, x ∉ drawn := by
      intro x hx hd
      exact (List.nodup_append.mp (List.nodup_append.mp hnew).1).2.2 x hd x hx rfl
    have hrest := ih (h.exec hfirst) hnew
    rw [List.flatMap_cons, List.flatMap_cons, ← List.append_assoc, ← List.append_assoc]
    exact hrest

theorem Sound.tableAfter (h : TokenCall.Distinct calls) :
    Sound (calls.flatMap TokenCall.draws) (calls.flatMap TokenCall.families)
      (TokenCall.tableAfter calls) := by
  have hnil : Sound [] [] [] := ⟨nofun, nofun, nofun, List.nodup_nil⟩
  exact hnil.execs h.1

/-- A stored token is found. -/
theorem Sound.lookup_eq (h : Sound drawn families rows) (hr : r ∈ rows) :
    lookup rows r.tokenHash = some r := by
  have hex : ∃ row, lookup rows r.tokenHash = some row := by
    apply Option.isSome_iff_exists.mp
    apply List.find?_isSome.mpr
    refine ⟨r, List.mem_mergeSort.mpr (List.mem_filter.mpr ⟨hr, ?_⟩), decide_eq_true rfl⟩
    exact decide_eq_true (h.prefixed r hr)
  obtain ⟨row, hrow⟩ := hex
  obtain ⟨hmem, hhash⟩ := mem_of_lookup hrow
  rw [hrow, List.inj_on_of_nodup_map h.once hmem hr hhash]

/-- Every row of the token is revoked, and of the family. -/
def Spent (token : List Char) (familyId : Uuid) (rows : List TokenRow) : Prop :=
  ∀ r ∈ rows, r.tokenHash = token → r.revoked = true ∧ r.familyId = familyId

theorem Spent.exec (h : Spent token familyId rows) (hnew : token ∉ TokenCall.draws c) :
    Spent token familyId (c.exec rows) := by
  intro r hr ht
  cases arises_exec hr with
  | kept hold hages =>
    obtain ⟨hrev, hfam⟩ := h _ hold (hages.tokenHash.symm.trans ht)
    exact ⟨hages.revoked hrev, hages.familyId.trans hfam⟩
  | created hc hr =>
    rw [hr] at ht
    rw [hc] at hnew
    exact absurd (List.mem_singleton.mpr ht.symm) hnew
  | rotated hc _ _ _ hr =>
    rw [hr] at ht
    rw [hc] at hnew
    exact absurd (List.mem_singleton.mpr ht.symm) hnew

theorem Spent.execs {calls : List TokenCall} (h : Spent token familyId rows)
    (hnew : token ∉ calls.flatMap TokenCall.draws) :
    Spent token familyId (calls.foldl TokenCall.exec rows) := by
  induction calls generalizing rows with
  | nil => exact h
  | cons c calls ih =>
    rw [List.flatMap_cons, List.mem_append, not_or] at hnew
    exact ih (h.exec hnew.1) hnew.2

/-- A rotation that succeeds spends its token. -/
theorem Spent.of_accepts (hs : Sound drawn families rows) (hnew : o.newToken ∉ drawn)
    (h : Accepts rows token o familyId) : Spent token familyId (TokenCall.exec rows (.rotate token o)) := by
  obtain ⟨row, hl, hfam, _, _, heq⟩ := h.cases
  obtain ⟨hmem, hhash⟩ := mem_of_lookup hl
  intro r hr ht
  rw [TokenCall.exec, heq] at hr
  cases List.mem_append.mp (mem_pruneIf hr) with
  | inl hr =>
    obtain ⟨old, hold, hages, hrev⟩ := mem_revokeWhere hr
    have hsame : old = row := by
      apply List.inj_on_of_nodup_map hs.once hold hmem
      exact (hages.tokenHash.symm.trans ht).trans hhash.symm
    rw [hsame] at hages hrev
    exact ⟨hrev (decide_eq_true rfl), hages.familyId.trans hfam⟩
  | inr hr =>
    rw [List.mem_singleton.mp hr] at ht
    have hdrawn := hs.hash row hmem
    rw [hhash, ← ht] at hdrawn
    exact absurd hdrawn hnew

/-- A spent token is refused. -/
theorem Spent.refused (h : Spent token familyId rows) (o : Outside) :
    ∃ e, (rotateRefreshToken rows token o).2 = .error e := by
  obtain ⟨_, heq⟩ | ⟨_, _, _, heq⟩ | ⟨_, _, _, _, heq⟩ | ⟨row, hl, hlive, _, _⟩ :=
    rotateRefreshToken_cases rows token o
  · exact ⟨_, congrArg Prod.snd heq⟩
  · exact ⟨_, congrArg Prod.snd heq⟩
  · exact ⟨_, congrArg Prod.snd heq⟩
  · obtain ⟨hmem, hhash⟩ := mem_of_lookup hl
    have hrev := (h row hmem hhash).1
    rw [hlive] at hrev
    cases hrev

/-- No row of the family lives at the time given or after. -/
def Dead (time : Nat) (familyId : Uuid) (rows : List TokenRow) : Prop :=
  ∀ r ∈ rows, r.familyId = familyId → r.revoked = true ∨ r.expiresAt < time

theorem Dead.not_live (h : Dead time familyId rows) (hr : r ∈ rows) (hf : r.familyId = familyId)
    (hlive : r.revoked = false) : ¬ time ≤ r.expiresAt := by
  cases h r hr hf with
  | inl hrev =>
    rw [hlive] at hrev
    cases hrev
  | inr hexp => exact Nat.not_le.mpr hexp

theorem Dead.not_accepts (h : Dead time familyId rows) (ho : time ≤ o.now) :
    ¬ Accepts rows token o familyId := by
  intro hacc
  obtain ⟨row, hl, hfam, hlive, htime, _⟩ := hacc.cases
  exact h.not_live (mem_of_lookup hl).1 hfam hlive (ho.trans htime)

theorem Dead.exec (h : Dead time familyId rows) (hfam : familyId ∉ TokenCall.families c)
    (htime : c.From time) : Dead time familyId (c.exec rows) := by
  intro r hr hf
  cases arises_exec hr with
  | kept hold hages =>
    rw [hages.expiresAt]
    exact (h _ hold (hages.familyId.symm.trans hf)).imp_left hages.revoked
  | created hc hr =>
    rw [hr] at hf
    rw [hc] at hfam
    exact absurd (List.mem_singleton.mpr hf.symm) hfam
  | rotated hc hl hlive hnow hr =>
    rw [hr] at hf
    rw [hc] at htime
    -- the row it came from would be one of the dead
    exact absurd (Nat.le_trans htime hnow) (h.not_live (mem_of_lookup hl).1 hf hlive)

theorem Dead.execs {calls : List TokenCall} (h : Dead time familyId rows)
    (hfam : familyId ∉ calls.flatMap TokenCall.families) (htime : ∀ c ∈ calls, c.From time) :
    Dead time familyId (calls.foldl TokenCall.exec rows) := by
  induction calls generalizing rows with
  | nil => exact h
  | cons c calls ih =>
    rw [List.flatMap_cons, List.mem_append, not_or] at hfam
    have hfirst := h.exec hfam.1 (htime c List.mem_cons_self)
    exact ih hfirst hfam.2 fun c' hc' => htime c' (List.mem_cons_of_mem c hc')

theorem TokenCall.tableAfter_append (calls calls' : List TokenCall) :
    tableAfter (calls ++ calls') = calls'.foldl exec (tableAfter calls) := List.foldl_append

theorem TokenCall.Distinct.left (h : Distinct (calls ++ calls')) : Distinct calls := by
  unfold Distinct at h
  rw [List.flatMap_append, List.flatMap_append] at h
  exact ⟨(List.nodup_append.mp h.1).1, (List.nodup_append.mp h.2).1⟩

theorem TokenCall.Distinct.draws_apart (h : Distinct (calls ++ calls'))
    (hx : x ∈ calls.flatMap draws) : x ∉ calls'.flatMap draws := by
  unfold Distinct at h
  rw [List.flatMap_append] at h
  exact fun hx' => (List.nodup_append.mp h.1).2.2 x hx x hx' rfl

theorem TokenCall.Distinct.families_apart (h : Distinct (calls ++ calls'))
    (hx : x ∈ calls.flatMap families) : x ∉ calls'.flatMap families := by
  unfold Distinct at h
  rw [List.flatMap_append, List.flatMap_append] at h
  exact fun hx' => (List.nodup_append.mp h.2).2.2 x hx x hx' rfl

/-- After its rotation a token stays spent. -/
theorem spent_tableAfter (hd : TokenCall.Distinct (before ++ .rotate token o₁ :: between))
    (h : Accepts (TokenCall.tableAfter before) token o₁ familyId) :
    Spent token familyId (TokenCall.tableAfter (before ++ .rotate token o₁ :: between)) := by
  have hs := Sound.tableAfter hd.left
  obtain ⟨row, hl, _⟩ := h.cases
  obtain ⟨hmem, hhash⟩ := mem_of_lookup hl
  have hdrawn := hs.hash row hmem
  rw [hhash] at hdrawn
  have hnew : o₁.newToken ∉ before.flatMap TokenCall.draws := by
    intro hmem'
    exact hd.draws_apart hmem' (List.mem_append_left _ List.mem_cons_self)
  have hbetween : token ∉ between.flatMap TokenCall.draws := by
    intro hmem'
    exact hd.draws_apart hdrawn (List.mem_append_right _ hmem')
  rw [TokenCall.tableAfter_append]
  exact (Spent.of_accepts hs hnew h).execs hbetween

/-- Reuse of a token still stored kills its family. -/
theorem Spent.dead (hs : Sound drawn families rows) (h : Spent token familyId rows)
    (hstored : ∃ r ∈ rows, r.tokenHash = token) (time : Nat) :
    Dead time familyId (TokenCall.exec rows (.rotate token o)) := by
  obtain ⟨r, hr, rfl⟩ := hstored
  obtain ⟨hrev, hfam⟩ := h r hr rfl
  have hexec : TokenCall.exec rows (.rotate r.tokenHash o) = revokeFamily r.familyId rows := by
    rw [TokenCall.exec, rotateRefreshToken, hs.lookup_eq hr]
    exact congrArg Prod.fst (if_pos hrev)
  intro r' hr' hf
  rw [hexec] at hr'
  obtain ⟨old, hold, hages, hkill⟩ := mem_revokeWhere hr'
  exact .inl (hkill (decide_eq_true ((hages.familyId.symm.trans hf).trans hfam.symm)))

/-- A token no longer stored changes nothing when it is presented. -/
theorem exec_rotate_of_not_stored (h : ¬ ∃ r ∈ rows, r.tokenHash = token) :
    TokenCall.exec rows (.rotate token o) = rows := by
  have hl : lookup rows token = none := by
    cases hl : lookup rows token with
    | none => rfl
    | some row => exact absurd ⟨row, mem_of_lookup hl⟩ h
  rw [TokenCall.exec, rotateRefreshToken, hl]

theorem Dead.tableAfter (hd : TokenCall.Distinct (past ++ later))
    (hfam : familyId ∈ past.flatMap TokenCall.families)
    (h : Dead time familyId (TokenCall.tableAfter past)) (hlater : ∀ c ∈ later, c.From time) :
    Dead time familyId (TokenCall.tableAfter (past ++ later)) := by
  rw [TokenCall.tableAfter_append]
  exact h.execs (hd.families_apart hfam) hlater

/-- A family whose spent token is stored no more is accepted right after the replay, if one of its
tokens lives. -/
theorem Kills.dead (hd : TokenCall.Distinct (past ++ [.rotate token o]))
    (h : Kills past token o familyId)
    (hgone : ¬ ∃ r ∈ TokenCall.tableAfter past, r.tokenHash = token) :
    Dead o.now familyId (TokenCall.tableAfter past) := by
  intro r hr hf
  by_contra hnot
  rw [not_or, Bool.not_eq_true, Nat.not_lt] at hnot
  obtain ⟨hlive, htime⟩ := hnot
  have hl := (Sound.tableAfter hd.left).lookup_eq hr
  have htable : TokenCall.tableAfter (past ++ [.rotate token o]) = TokenCall.tableAfter past := by
    rw [TokenCall.tableAfter_append]
    exact exec_rotate_of_not_stored hgone
  obtain ⟨fresh, hfresh⟩ := Infinite.exists_notMem_finset
    ((past ++ [TokenCall.rotate token o]).flatMap TokenCall.draws).toFinset
  rw [List.mem_toFinset] at hfresh
  apply h.2 [] r.tokenHash ⟨o.now, fresh, o.newId, o.lifetime, o.prunes, .ok ()⟩
  · constructor
    · rw [List.flatMap_append, List.nodup_append]
      refine ⟨hd.1, List.nodup_singleton _, ?_⟩
      intro x hx y hy heq
      have hx' : x = fresh := heq.trans (List.mem_singleton.mp hy)
      exact hfresh (hx' ▸ hx)
    · rw [List.flatMap_append]
      exact (List.append_nil _).symm ▸ hd.2
  · exact nofun
  · exact Nat.le_refl o.now
  · rw [htable]
    refine ⟨⟨r, hl, hf⟩, fresh, ?_⟩
    rw [rotateRefreshToken, hl]
    have hneg : ¬ r.revoked = true := Bool.eq_false_iff.mp hlive
    exact congrArg Prod.snd ((if_neg hneg).trans (if_neg (Nat.not_lt.mpr htime)))

/-- Presenting a rotated token again kills its family exactly if its row is still stored or no
token of the family is alive. -/
theorem kills_iff
    (hd : TokenCall.Distinct (before ++ .rotate token o₁ :: between ++ [.rotate token o]))
    (h : Accepts (TokenCall.tableAfter before) token o₁ familyId) :
    Kills (before ++ .rotate token o₁ :: between) token o familyId ↔
      (∃ r ∈ TokenCall.tableAfter (before ++ .rotate token o₁ :: between), r.tokenHash = token) ∨
      Dead o.now familyId (TokenCall.tableAfter (before ++ .rotate token o₁ :: between)) := by
  have hspent := spent_tableAfter hd.left h
  have hsound := Sound.tableAfter hd.left
  have hfam : familyId ∈ before.flatMap TokenCall.families := by
    obtain ⟨row, hl, hfam, _⟩ := h.cases
    rw [← hfam]
    exact (Sound.tableAfter hd.left.left).family row (mem_of_lookup hl).1
  generalize hpast : before ++ TokenCall.rotate token o₁ :: between = past at *
  have hfam' : familyId ∈ (past ++ [TokenCall.rotate token o]).flatMap TokenCall.families := by
    rw [← hpast, List.flatMap_append, List.flatMap_append]
    exact List.mem_append_left _ (List.mem_append_left _ hfam)
  constructor
  · intro hkills
    by_cases hstored : ∃ r ∈ TokenCall.tableAfter past, r.tokenHash = token
    · exact .inl hstored
    · exact .inr (hkills.dead hd hstored)
  · intro hcond
    have hdead : Dead o.now familyId (TokenCall.tableAfter (past ++ [.rotate token o])) := by
      rw [TokenCall.tableAfter_append]
      cases hcond with
      | inl hstored => exact hspent.dead hsound hstored o.now
      | inr hdead => exact hdead.exec (c := .rotate token o) List.not_mem_nil (Nat.le_refl o.now)
    refine ⟨hspent.refused o, ?_⟩
    intro later token' o' hdist hlater ho'
    rw [List.append_cons past (.rotate token o) later] at hdist ⊢
    exact (hdead.tableAfter hdist.left hfam' hlater).not_accepts ho'

def login : TokenCall := .create "7".toList 5 ⟨0, stolenToken, 1, 700, true, .ok ()⟩

theorem tableAfter_login : TokenCall.tableAfter [login] = [stolenRow] := rfl

theorem rotate_stolenRow (h : o.now ≤ 700) :
    rotateRefreshToken [stolenRow] stolenToken o =
      (pruneIf o [stolenRow.revoke, newRow o stolenRow], o.account.map fun _ => o.newToken) := by
  rw [rotateRefreshToken, lookup_stolenRow]
  exact (if_neg Bool.false_ne_true).trans (if_neg (Nat.not_lt.mpr h))

theorem accepts_login (h : o.now ≤ 700) (hok : o.account = .ok ()) :
    Accepts (TokenCall.tableAfter [login]) stolenToken o 5 := by
  refine ⟨⟨stolenRow, lookup_stolenRow, rfl⟩, o.newToken, ?_⟩
  rw [tableAfter_login, rotate_stolenRow h, hok]
  rfl

/-- The owner's rotation, with a cleanup that fails. -/
def ownerUncleaned : Outside := { ownerCall with prunes := false }

theorem kills_ownerUncleaned :
    Kills ([login] ++ .rotate stolenToken ownerUncleaned :: []) stolenToken thiefCall 5 := by
  have hd : TokenCall.Distinct ([login] ++ .rotate stolenToken ownerUncleaned :: [] ++
      [.rotate stolenToken thiefCall]) := ⟨by decide, by decide⟩
  apply (kills_iff hd (accepts_login (by decide) rfl)).mpr
  refine .inl ⟨stolenRow.revoke, ?_, rfl⟩
  have htable : TokenCall.tableAfter ([login] ++ .rotate stolenToken ownerUncleaned :: []) =
      [stolenRow.revoke, newRow ownerUncleaned stolenRow] := by
    rw [TokenCall.tableAfter_append, tableAfter_login]
    exact congrArg Prod.fst (rotate_stolenRow (o := ownerUncleaned) (by decide))
  rw [htable]
  exact List.mem_cons_self

theorem tableAfter_ownerCall :
    TokenCall.tableAfter ([login] ++ .rotate stolenToken ownerCall :: []) =
      [newRow ownerCall stolenRow] := by
  rw [TokenCall.tableAfter_append, tableAfter_login]
  exact congrArg Prod.fst (rotate_stolenRow (o := ownerCall) (by decide))

theorem ownerCall_survives :
    TokenCall.Distinct ([login] ++ .rotate stolenToken ownerCall :: [] ++
      [.rotate stolenToken thiefCall]) ∧
    Accepts (TokenCall.tableAfter [login]) stolenToken ownerCall 5 ∧
    ¬ Kills ([login] ++ .rotate stolenToken ownerCall :: []) stolenToken thiefCall 5 := by
  have hd : TokenCall.Distinct ([login] ++ .rotate stolenToken ownerCall :: [] ++
      [.rotate stolenToken thiefCall]) := ⟨by decide, by decide⟩
  refine ⟨hd, accepts_login (by decide) rfl, ?_⟩
  intro hkills
  have hgone : ¬ ∃ r ∈ TokenCall.tableAfter ([login] ++ .rotate stolenToken ownerCall :: []),
      r.tokenHash = stolenToken := by
    intro hex
    obtain ⟨r, hr, ht⟩ := hex
    rw [tableAfter_ownerCall] at hr
    rw [List.mem_singleton.mp hr] at ht
    exact absurd ht (by decide)
  have hdead := hkills.dead hd hgone
  rw [tableAfter_ownerCall] at hdead
  exact hdead.not_live List.mem_cons_self rfl rfl (by decide)

end AiFw.Auth
