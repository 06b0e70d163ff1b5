import AiFw.Auth.Tokens
import AiFw.Lib.Runs

namespace AiFw.Auth
open AiFw.Lib
set_option autoImplicit true

/-- Several rotations of one token, each between two of its statements. -/
abbrev Race := Interleaved (List TokenRow) Phase

def Race.run (token : List Char) (s : Race) (events : List (Nat × Outside)) : Race :=
  events.foldl (Interleaved.step (callStep token)) s

def Race.start (rows : List TokenRow) (n : Nat) : Race := ⟨rows, List.replicate n .select⟩

/-- Raw tokens are distinct, so a token has one row. -/
def IssuedOnce (token : List Char) (rows : List TokenRow) : Prop :=
  ∀ r ∈ rows, ∀ r' ∈ rows, r.tokenHash = token → r'.tokenHash = token → r.id = r'.id

def RedeemedAtMostOnce (s : Race) : Prop :=
  ∀ i j a b, s.At i (.done (.ok a)) → s.At j (.done (.ok b)) → i = j

/-- The call has found the token good and has not failed since. -/
def Phase.Passed : Phase → Prop
  | .revokeToken _ | .insert _ | .prune _ | .account _ | .done (.ok _) => True
  | .select | .revokeFamily _ | .done (.error _) => False

/-- The row the call would read is one that lets it go on. -/
def Good (token : List Char) (now : Nat) (rows : List TokenRow) (row : TokenRow) : Prop :=
  lookup rows token = some row ∧ row.revoked = false ∧ now ≤ row.expiresAt

/-- No call reads a good row that another has read and not yet revoked. -/
def Careful (token : List Char) (s : Race) (e : Nat × Outside) : Prop :=
  e.2.newToken ≠ token ∧
    (s.At e.1 .select → (∃ row, Good token e.2.now s.shared row) →
      ∀ i row, ¬ s.At i (.revokeToken row))

/-- A row of the token was there before the statement. -/
theorem callStep_rows (h : o.newToken ≠ token) (hr : r ∈ (callStep token o rows p).1)
    (ht : r.tokenHash = token) : ∃ old ∈ rows, Ages old r := by
  have hsame : r ∈ rows → ∃ old ∈ rows, Ages old r := fun hmem => ⟨r, hmem, .inl rfl⟩
  cases p with
  | select =>
    apply hsame
    simp only [callStep] at hr
    split at hr
    · exact hr
    · split at hr
      · exact hr
      · split at hr
        · exact hr
        · exact hr
  | revokeFamily familyId =>
    obtain ⟨old, hold, hages, _⟩ := mem_revokeWhere hr
    exact ⟨old, hold, hages⟩
  | revokeToken row =>
    obtain ⟨old, hold, hages, _⟩ := mem_revokeWhere hr
    exact ⟨old, hold, hages⟩
  | insert row =>
    cases List.mem_append.mp hr with
    | inl hr => exact hsame hr
    | inr hr =>
      rw [List.mem_singleton.mp hr] at ht
      exact absurd ht h
  | prune newToken => exact hsame (mem_pruneIf hr)
  | account newToken => exact hsame hr
  | done result => exact hsame hr

/-- Only a good row lets a call pass. -/
theorem callStep_passed (h : (callStep token o rows p).2.Passed) :
    p.Passed ∨ p = .select ∧ ∃ row, Good token o.now rows row ∧
      (callStep token o rows p).2 = .revokeToken row := by
  cases p with
  | select =>
    simp only [callStep] at h ⊢
    cases hl : lookup rows token with
    | none =>
      rw [hl] at h
      exact h.elim
    | some row =>
      simp only [hl] at h ⊢
      by_cases hr : row.revoked = true
      · rw [if_pos hr] at h
        exact h.elim
      · by_cases he : row.expiresAt < o.now
        · rw [if_neg hr, if_pos he] at h
          exact h.elim
        · rw [if_neg hr, if_neg he]
          exact .inr ⟨trivial, row, ⟨hl, Bool.eq_false_iff.mpr hr, Nat.le_of_not_lt he⟩, rfl⟩
  | revokeFamily familyId => exact h.elim
  | revokeToken row => exact .inl trivial
  | insert row => exact .inl trivial
  | prune newToken => exact .inl trivial
  | account newToken => exact .inl trivial
  | done result => exact .inl h

/-- A call about to revoke has just read. -/
theorem callStep_revokeToken (h : (callStep token o rows p).2 = .revokeToken row) :
    p = .select ∧ Good token o.now rows row := by
  have hp : (callStep token o rows p).2.Passed := by
    rw [h]
    trivial
  cases callStep_passed hp with
  | inl hp => cases p <;> first | exact hp.elim | cases h
  | inr hp =>
    obtain ⟨hsel, row', hgood, heq⟩ := hp
    rw [h] at heq
    cases heq
    exact ⟨hsel, hgood⟩

/-- One call has the token, and once it has revoked it no row of the token is left alive. -/
structure Redeemed (token : List Char) (id : Uuid) (s : Race) : Prop where
  ids : ∀ r ∈ s.shared, r.tokenHash = token → r.id = id
  one : ∀ i j p q, s.At i p → s.At j q → p.Passed → q.Passed → i = j
  pending : ∀ i row, s.At i (.revokeToken row) → row.id = id
  spent : ∀ i p, s.At i p → p.Passed → (∀ row, p ≠ .revokeToken row) →
    ∀ r ∈ s.shared, r.tokenHash = token → r.revoked = true

theorem Redeemed.start (h : IssuedOnce token rows) (n : Nat) :
    ∃ id, Redeemed token id (Race.start rows n) := by
  have hselect : ∀ i p, (Race.start rows n).At i p → p = .select :=
    fun _ _ => Interleaved.at_replicate
  have hnot : ∀ i p, (Race.start rows n).At i p → ¬ p.Passed := by
    intro i p hp hpass
    rw [hselect i p hp] at hpass
    exact hpass
  have hpend : ∀ i row, ¬ (Race.start rows n).At i (.revokeToken row) := by
    intro i row hp
    cases hselect i _ hp
  have hid : ∃ id, ∀ r ∈ rows, r.tokenHash = token → r.id = id := by
    by_cases hex : ∃ r ∈ rows, r.tokenHash = token
    · obtain ⟨r, hr, ht⟩ := hex
      exact ⟨r.id, fun r' hr' ht' => h r' hr' r hr ht' ht⟩
    · exact ⟨0, fun r hr ht => absurd ⟨r, hr, ht⟩ hex⟩
  obtain ⟨id, hid⟩ := hid
  exact ⟨id, hid, fun i _ p _ hp _ hpass _ => absurd hpass (hnot i p hp),
    fun i row hp => absurd hp (hpend i row), fun i p hp hpass => absurd hpass (hnot i p hp)⟩

/-- A row that a call reads as good is not spent. -/
theorem Redeemed.none_passed {id : Uuid} {s : Race} (h : Redeemed token id s)
    (hgood : Good token now s.shared row) (hfree : ∀ i row, ¬ s.At i (.revokeToken row)) :
    ∀ i p, s.At i p → ¬ p.Passed := by
  intro i p hp hpass
  obtain ⟨hl, hr, _⟩ := hgood
  obtain ⟨hmem, hhash⟩ := mem_of_lookup hl
  have hnot : ∀ row, p ≠ .revokeToken row := by
    intro row' heq
    exact hfree i row' (heq ▸ hp)
  have hrev := h.spent i p hp hpass hnot row hmem hhash
  rw [hr] at hrev
  cases hrev

theorem Redeemed.step {id : Uuid} {s : Race} (h : Redeemed token id s) (hc : Careful token s e) :
    Redeemed token id (s.step (callStep token) e) := by
  obtain hsame | ⟨p, hp, hshared, hat⟩ := s.step_cases (callStep token) e
  · rw [hsame]
    exact h
  obtain ⟨hnew, hfree⟩ := hc
  have hrows : ∀ r ∈ (s.step (callStep token) e).shared, r.tokenHash = token →
      ∃ old ∈ s.shared, old.tokenHash = token ∧ Ages old r := by
    intro r hr ht
    rw [hshared] at hr
    obtain ⟨old, hold, hages⟩ := callStep_rows hnew hr ht
    exact ⟨old, hold, hages.tokenHash.symm.trans ht, hages⟩
  constructor
  case ids =>
    intro r hr ht
    obtain ⟨old, hold, hot, hages⟩ := hrows r hr ht
    exact hages.id.trans (h.ids old hold hot)
  case one =>
    apply Interleaved.one_step h.one
    intro p j q hp hq hqpass hpass
    obtain hpp | ⟨hsel, row, hgood, _⟩ := callStep_passed hpass
    · exact h.one e.1 j p q hp hq hpp hqpass
    · -- a call that passes now is the only one
      rw [hsel] at hp
      exact absurd hqpass (h.none_passed hgood (hfree hp ⟨row, hgood⟩) j q hq)
  case pending =>
    intro i row hrow
    obtain ⟨_, heq⟩ | ⟨_, hold⟩ := (hat i _).mp hrow
    · obtain ⟨_, hl, _, _⟩ := callStep_revokeToken heq.symm
      obtain ⟨hmem, hhash⟩ := mem_of_lookup hl
      exact h.ids row hmem hhash
    · exact h.pending i row hold
  case spent =>
    intro i q hq hpass hnot r hr ht
    obtain ⟨old, hold, hot, hages⟩ := hrows r hr ht
    obtain ⟨rfl, rfl⟩ | ⟨_, hq⟩ := (hat i q).mp hq
    · -- the call that moved: either it had revoked the token before or does so now
      cases p with
      | revokeToken row =>
        rw [hshared] at hr
        obtain ⟨old', hold', hages', hrev⟩ := mem_revokeWhere hr
        have hid' := h.ids old' hold' (hages'.tokenHash.symm.trans ht)
        exact hrev (decide_eq_true (hid'.trans (h.pending e.1 row hp).symm))
      | select =>
        obtain hpp | ⟨_, row, _, heq⟩ := callStep_passed hpass
        · exact hpp.elim
        · exact absurd heq (hnot row)
      | revokeFamily familyId => exact hpass.elim
      | insert row => exact hages.revoked (h.spent e.1 _ hp trivial (fun _ h => nomatch h) old hold hot)
      | prune newToken => exact hages.revoked (h.spent e.1 _ hp trivial (fun _ h => nomatch h) old hold hot)
      | account newToken => exact hages.revoked (h.spent e.1 _ hp trivial (fun _ h => nomatch h) old hold hot)
      | done result => exact hages.revoked (h.spent e.1 _ hp hpass (fun _ h => nomatch h) old hold hot)
    · exact hages.revoked (h.spent i q hq hpass hnot old hold hot)

/-- In every interleaving in which no call reads the token between another's read of it and its
revocation, at most one call succeeds. -/
theorem redeemed_of_careful (hissued : IssuedOnce token rows)
    (hcareful : Along (Interleaved.step (callStep token)) (Careful token) (Race.start rows n) events)
    (hpast : past <+: events) : RedeemedAtMostOnce ((Race.start rows n).run token past) := by
  obtain ⟨id, hstart⟩ := Redeemed.start hissued n
  have hall := hcareful.reaches (Redeemed token id) (fun s e h hc => h.step hc) hstart hpast
  intro i j a b hi hj
  exact hall.one i j _ _ hi hj trivial trivial

def stolenToken : List Char := "rfx_0f1e2d3c4b5a69788796a5b4c3d2e1f0".toList

def stolenRow : TokenRow where
  id := 1
  userId := "7".toList
  tokenHash := stolenToken
  tokenPrefix := refreshPrefix stolenToken
  familyId := 5
  expiresAt := 700
  revoked := false
  createdAt := 0

def ownerCall : Outside :=
  ⟨1, "rfx_11111111111111111111111111111111".toList, 2, 700, true, .ok ()⟩

def thiefCall : Outside :=
  ⟨2, "rfx_22222222222222222222222222222222".toList, 3, 700, true, .ok ()⟩

theorem issuedOnce_stolenRow : IssuedOnce stolenToken [stolenRow] := by
  intro r hr r' hr' _ _
  rw [List.mem_singleton.mp hr, List.mem_singleton.mp hr']

theorem lookup_stolenRow : lookup [stolenRow] stolenToken = some stolenRow := by
  simp [lookup, samePrefix, stolenRow, verifyPassword]

theorem select_stolenRow (h : o.now ≤ 700) :
    callStep stolenToken o [stolenRow] .select = ([stolenRow], .revokeToken stolenRow) := by
  have hexp : ¬ stolenRow.expiresAt < o.now := Nat.not_lt.mpr h
  simp only [callStep, lookup_stolenRow, hexp, if_false]
  rfl

theorem step_ownerCall :
    (Race.start [stolenRow] 2).step (callStep stolenToken) (0, ownerCall) =
      ⟨[stolenRow], [.revokeToken stolenRow, .select]⟩ := by
  have hs := select_stolenRow (o := ownerCall) (by decide)
  simp only [Interleaved.step, Race.start, List.replicate, List.getElem?_cons_zero, hs, List.set]

/-- The owner's call ends before the thief's begins. -/
def ownerFirst : List (Nat × Outside) := List.replicate 5 (0, ownerCall) ++ [(1, thiefCall)]

theorem Careful.of_free {s : Race} (hnew : o.newToken ≠ token)
    (hfree : ∀ i row, ¬ s.At i (.revokeToken row)) : Careful token s (k, o) :=
  ⟨hnew, fun _ _ => hfree⟩

theorem Careful.of_busy {s : Race} (hnew : o.newToken ≠ token) (hp : s.At k p)
    (hbusy : p ≠ .select) : Careful token s (k, o) :=
  ⟨hnew, fun hsel => absurd (hp.unique hsel) hbusy⟩

theorem careful_ownerFirst : Along (Interleaved.step (callStep stolenToken)) (Careful stolenToken)
    (Race.start [stolenRow] 2) ownerFirst := by
  have howner : ownerCall.newToken ≠ stolenToken := by decide
  have hthief : thiefCall.newToken ≠ stolenToken := by decide
  constructor
  · apply Careful.of_free howner
    intro i row hat
    cases Interleaved.at_replicate hat
  · rw [step_ownerCall]
    refine ⟨.of_busy howner rfl (fun h => nomatch h), .of_busy howner rfl (fun h => nomatch h),
      .of_busy howner rfl (fun h => nomatch h), .of_busy howner rfl (fun h => nomatch h),
      .of_free hthief ?_, trivial⟩
    intro i row hat
    have hmem := List.mem_of_getElem? hat
    cases hmem with
    | tail _ hmem =>
      cases hmem with
      | tail _ hmem => cases hmem

theorem redeemed_ownerFirst :
    RedeemedAtMostOnce ((Race.start [stolenRow] 2).run stolenToken ownerFirst) :=
  redeemed_of_careful issuedOnce_stolenRow careful_ownerFirst (List.prefix_refl ownerFirst)

/-- Both calls read the row before either revokes it. -/
def bothRead : List (Nat × Outside) :=
  [(0, ownerCall), (1, thiefCall)] ++ List.replicate 4 (0, ownerCall) ++
    List.replicate 4 (1, thiefCall)

theorem step_thiefCall :
    Interleaved.step (callStep stolenToken) ⟨[stolenRow], [.revokeToken stolenRow, .select]⟩
      (1, thiefCall) = ⟨[stolenRow], [.revokeToken stolenRow, .revokeToken stolenRow]⟩ := by
  have hs := select_stolenRow (o := thiefCall) (by decide)
  simp only [Interleaved.step, List.getElem?_cons_succ, List.getElem?_cons_zero, hs, List.set]

theorem calls_bothRead : ((Race.start [stolenRow] 2).run stolenToken bothRead).calls =
    [.done (.ok ownerCall.newToken), .done (.ok thiefCall.newToken)] := by
  unfold Race.run bothRead
  simp only [List.cons_append, List.nil_append, List.foldl_cons, step_ownerCall, step_thiefCall]
  rfl

theorem bothRead_redeems_twice : IssuedOnce stolenToken [stolenRow] ∧
    (∀ e ∈ bothRead, e.2.newToken ≠ stolenToken) ∧
    ownerCall.newToken ≠ thiefCall.newToken ∧
    ¬ RedeemedAtMostOnce ((Race.start [stolenRow] 2).run stolenToken bothRead) := by
  refine ⟨issuedOnce_stolenRow, by decide, by decide, ?_⟩
  intro hone
  have howner : ((Race.start [stolenRow] 2).run stolenToken bothRead).At 0
      (.done (.ok ownerCall.newToken)) := by
    rw [Interleaved.At, calls_bothRead]
    rfl
  have hthief : ((Race.start [stolenRow] 2).run stolenToken bothRead).At 1
      (.done (.ok thiefCall.newToken)) := by
    rw [Interleaved.At, calls_bothRead]
    rfl
  cases hone 0 1 _ _ howner hthief

end AiFw.Auth
