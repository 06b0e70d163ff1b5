import AiFw.Lib.Table
import Mathlib.Data.BitVec

namespace AiFw.Auth
open AiFw.Lib
set_option autoImplicit true

abbrev Uuid := BitVec 128

/-- The statuses the handlers fail with. -/
inductive StatusCode where
  | badRequest
  | unauthorized
  | forbidden
  | tooManyRequests
  | internalServerError
deriving DecidableEq, Repr

/-- A row of `refresh_tokens`. Passwords are verified exactly, so the hash is the token it was
made from; times are numbers. -/
structure TokenRow where
  id : Uuid
  userId : List Char
  tokenHash : List Char
  tokenPrefix : List Char
  familyId : Uuid
  expiresAt : Nat
  revoked : Bool
  createdAt : Nat

def refreshPrefixLen : Nat := 12

def refreshPrefix (raw : List Char) : List Char := raw.take refreshPrefixLen

def verifyPassword (token hash : List Char) : Bool := token = hash

/-- The rows with the prefix of the token, the newest first. -/
def samePrefix (rows : List TokenRow) (token : List Char) : List TokenRow :=
  (rows.filter fun r => r.tokenPrefix = refreshPrefix token).mergeSort fun a b =>
    b.createdAt ≤ a.createdAt

def lookup (rows : List TokenRow) (token : List Char) : Option TokenRow :=
  (samePrefix rows token).find? fun r => verifyPassword token r.tokenHash

def TokenRow.revoke (r : TokenRow) : TokenRow := { r with revoked := true }

/-- `UPDATE refresh_tokens SET revoked = 1` over the rows of a kind. -/
def revokeWhere (kind : TokenRow → Bool) (rows : List TokenRow) : List TokenRow :=
  rows.map fun r => if kind r then r.revoke else r

def revokeId (id : Uuid) : List TokenRow → List TokenRow := revokeWhere fun r => r.id = id

def revokeFamily (familyId : Uuid) : List TokenRow → List TokenRow :=
  revokeWhere fun r => r.familyId = familyId

/-- Revoked and expired rows are deleted. -/
def pruneRefreshTokens (now : Nat) (rows : List TokenRow) : List TokenRow :=
  rows.filter fun r => !(r.revoked || decide (r.expiresAt < now))

def invalidText : String := "invalid refresh token"

def reuseText : String := "token reuse detected — all sessions revoked"

def expiredText : String := "refresh token expired"

/-- What one rotation takes from outside: the clock, the new token and its id, the time the new one
lives, whether the cleanup went through, and what the account of the user says. -/
structure Outside where
  now : Nat
  newToken : List Char
  newId : Uuid
  lifetime : Nat
  prunes : Bool
  account : Except String Unit

def newRow (o : Outside) (old : TokenRow) : TokenRow where
  id := o.newId
  userId := old.userId
  tokenHash := o.newToken
  tokenPrefix := refreshPrefix o.newToken
  familyId := old.familyId
  expiresAt := o.now + o.lifetime
  revoked := false
  createdAt := o.now

def pruneIf (o : Outside) (rows : List TokenRow) : List TokenRow :=
  if o.prunes then pruneRefreshTokens o.now rows else rows

/-- A whole call: the rows it leaves and the new token or an error. -/
def rotateRefreshToken (rows : List TokenRow) (token : List Char) (o : Outside) :
    List TokenRow × Except String (List Char) :=
  match lookup rows token with
  | none => (rows, .error invalidText)
  | some row =>
    if row.revoked then (revokeFamily row.familyId rows, .error reuseText)
    else if row.expiresAt < o.now then (rows, .error expiredText)
    else (pruneIf o (revokeId row.id rows ++ [newRow o row]), o.account.map fun _ => o.newToken)

/-- Where a call is, before its next statement. -/
inductive Phase where
  | select
  | revokeFamily (familyId : Uuid)
  | revokeToken (row : TokenRow)
  | insert (row : TokenRow)
  | prune (newToken : List Char)
  | account (newToken : List Char)
  | done (result : Except String (List Char))

/-- One statement of a call. -/
def callStep (token : List Char) (o : Outside) (rows : List TokenRow) :
    Phase → List TokenRow × Phase
  | .select =>
    match lookup rows token with
    | none => (rows, .done (.error invalidText))
    | some row =>
      if row.revoked then (rows, .revokeFamily row.familyId)
      else if row.expiresAt < o.now then (rows, .done (.error expiredText))
      else (rows, .revokeToken row)
  | .revokeFamily familyId => (revokeFamily familyId rows, .done (.error reuseText))
  | .revokeToken row => (revokeId row.id rows, .insert row)
  | .insert row => (rows ++ [newRow o row], .prune o.newToken)
  | .prune newToken => (pruneIf o rows, .account newToken)
  | .account newToken => (rows, .done (o.account.map fun _ => newToken))
  | .done result => (rows, .done result)

def callSteps (token : List Char) (o : Outside) : Nat → List TokenRow × Phase → List TokenRow × Phase
  | 0, s => s
  | n + 1, s => callSteps token o n (callStep token o s.1 s.2)

/-- The statements of a call that nothing comes between make the whole call. -/
theorem callSteps_select (token : List Char) (o : Outside) (rows : List TokenRow) :
    callSteps token o 5 (rows, .select) =
      ((rotateRefreshToken rows token o).1, .done (rotateRefreshToken rows token o).2) := by
  have hfirst : callSteps token o 5 (rows, .select) =
      callSteps token o 4 (callStep token o rows .select) := rfl
  rw [hfirst]
  unfold rotateRefreshToken
  cases h : lookup rows token with
  | none => simp only [callSteps, callStep, h]
  | some row =>
    by_cases hr : row.revoked = true
    · simp only [callSteps, callStep, h, hr, if_true]
    · have hf : (row.revoked = true) = False := eq_false hr
      by_cases he : row.expiresAt < o.now
      · have hs : callStep token o rows .select = (rows, .done (.error expiredText)) := by
          simp only [callStep, h, hf, he, if_true, if_false]
        rw [hs]
        simp only [callSteps, callStep, hf, he, if_true, if_false]
      · have hs : callStep token o rows .select = (rows, .revokeToken row) := by
          simp only [callStep, h, hf, he, if_false]
        rw [hs]
        simp only [callSteps, callStep, hf, he, if_false]

theorem mem_of_lookup (h : lookup rows token = some row) : row ∈ rows ∧ row.tokenHash = token := by
  have hmem := List.mem_mergeSort.mp (List.mem_of_find?_eq_some h)
  have hverify := List.find?_some h
  exact ⟨(List.mem_filter.mp hmem).1, (of_decide_eq_true hverify).symm⟩

/-- What an update leaves of a row. -/
def Ages (old r : TokenRow) : Prop := r = old ∨ r = old.revoke

theorem Ages.id (h : Ages old r) : r.id = old.id := by
  cases h with
  | inl h => rw [h]
  | inr h => rw [h, TokenRow.revoke]

theorem Ages.tokenHash (h : Ages old r) : r.tokenHash = old.tokenHash := by
  cases h with
  | inl h => rw [h]
  | inr h => rw [h, TokenRow.revoke]

theorem Ages.tokenPrefix (h : Ages old r) : r.tokenPrefix = old.tokenPrefix := by
  cases h with
  | inl h => rw [h]
  | inr h => rw [h, TokenRow.revoke]

theorem Ages.familyId (h : Ages old r) : r.familyId = old.familyId := by
  cases h with
  | inl h => rw [h]
  | inr h => rw [h, TokenRow.revoke]

theorem Ages.expiresAt (h : Ages old r) : r.expiresAt = old.expiresAt := by
  cases h with
  | inl h => rw [h]
  | inr h => rw [h, TokenRow.revoke]

theorem Ages.revoked (h : Ages old r) (hold : old.revoked = true) : r.revoked = true := by
  cases h with
  | inl h => rw [h, hold]
  | inr h => rw [h, TokenRow.revoke]

theorem mem_revokeWhere (h : r ∈ revokeWhere kind rows) :
    ∃ old ∈ rows, Ages old r ∧ (kind old = true → r.revoked = true) := by
  obtain ⟨old, hold, rfl⟩ := List.mem_map.mp h
  by_cases hk : kind old = true
  · rw [if_pos hk]
    exact ⟨old, hold, .inr rfl, fun _ => rfl⟩
  · rw [if_neg hk]
    exact ⟨old, hold, .inl rfl, fun h => absurd h hk⟩

theorem mem_pruneIf (h : r ∈ pruneIf o rows) : r ∈ rows := by
  unfold pruneIf at h
  split at h
  · exact List.mem_of_mem_filter h
  · exact h

end AiFw.Auth
