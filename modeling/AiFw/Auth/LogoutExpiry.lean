import AiFw.Auth.Sessions
import AiFw.Pf.NatOrder

namespace AiFw.Auth
open AiFw.Lib
set_option autoImplicit true

/-- One after the other: a request with a token, a logout with one, or a cleanup; each comes some
time after the one before. -/
inductive SessionOp where
  | request (elapsed : Nat) (token : List Char) (account : Except StatusCode Unit)
  | logout (elapsed : Nat) (token refreshToken : List Char) (account : Except StatusCode Unit)
  | cleanup (elapsed : Nat)

namespace SessionOp

def bearer : SessionOp → Option (List Char)
  | request _ token _ | logout _ token _ _ => some token
  | cleanup _ => none

def exec (libs : AuthLibs) (s : AuthState) : SessionOp → AuthState
  | request elapsed token account => ((s.wait elapsed).authMiddleware libs true token account).1
  | logout elapsed token refreshToken account =>
    ((s.wait elapsed).logoutRequest libs token refreshToken account).1
  | cleanup elapsed => (s.wait elapsed).cleanupRevokedTokens libs

/-- The middleware lets the request through. -/
def Authorized (libs : AuthLibs) (s : AuthState) : SessionOp → Prop
  | request elapsed token account | logout elapsed token _ account =>
    ((s.wait elapsed).authMiddleware libs true token account).2 = .ok ()
  | cleanup _ => False

/-- A logout that has answered `Ok`. -/
def LogsOut (libs : AuthLibs) (s : AuthState) (token : List Char) : SessionOp → Prop
  | logout elapsed token' refreshToken account => token' = token ∧
      ((s.wait elapsed).logoutRequest libs token' refreshToken account).2 = .ok ()
  | request _ _ _ | cleanup _ => False

end SessionOp

variable {libs : AuthLibs} {s : AuthState}

/-- No token of the id is accepted any more. -/
def AllExpired (libs : AuthLibs) (jti : List Char) (s : AuthState) : Prop :=
  ∀ token claims, libs.decode token = some claims → claims.jti = jti →
    claims.exp + leeway < s.timestamp

/-- A cleanup drops a revoked id only when no token of the id is accepted any more. -/
def CleansExpired (libs : AuthLibs) (s : AuthState) : SessionOp → Prop
  | .cleanup elapsed => ∀ r ∈ s.revokedTokens, r.expiresAt < libs.nowText (s.wait elapsed).now →
      AllExpired libs r.jti (s.wait elapsed)
  | .request _ _ _ | .logout _ _ _ _ => True

/-- The id is revoked and no live entry of the cache says otherwise. -/
structure Revoked (jti : List Char) (s : AuthState) : Prop where
  row : hasKey RevokedRow.jti jti s.revokedTokens = true
  cache : ∀ deadline, s.jtiCache.lookup jti = some (false, deadline) → deadline ≤ s.now

def TokenDead (libs : AuthLibs) (jti : List Char) (s : AuthState) : Prop :=
  Revoked jti s ∨ AllExpired libs jti s

theorem CacheSound.wait (h : CacheSound libs s) (elapsed : Nat) :
    CacheSound libs (s.wait elapsed) := by
  intro token entry hentry
  obtain ⟨hdecode, hdead | hexp⟩ := h token entry hentry
  · exact ⟨hdecode, .inl (hdead.trans (Nat.le_add_right _ _))⟩
  · exact ⟨hdecode, .inr hexp⟩

theorem timestamp_wait (s : AuthState) (elapsed : Nat) :
    s.timestamp ≤ (s.wait elapsed).timestamp := by
  apply Int.ofNat_le.mpr
  exact Nat.div_le_div_right (Nat.le_add_right _ _)

theorem TokenDead.wait (h : TokenDead libs jti s) (elapsed : Nat) : TokenDead libs jti (s.wait elapsed) := by
  obtain h | h := h
  · refine .inl ⟨h.row, ?_⟩
    intro deadline hentry
    exact (h.cache deadline hentry).trans (Nat.le_add_right _ _)
  · refine .inr ?_
    intro token claims hdecode hjti
    exact (h token claims hdecode hjti).trans_le (timestamp_wait s elapsed)

/-- Only the clock, the cache of ids and the revoked ids count. -/
theorem TokenDead.congr (h : TokenDead libs jti s) (hnow : s'.now = s.now)
    (hcache : s'.jtiCache = s.jtiCache) (hrows : s'.revokedTokens = s.revokedTokens) :
    TokenDead libs jti s' := by
  obtain h | h := h
  · refine .inl ⟨hrows ▸ h.row, ?_⟩
    rw [hcache, hnow]
    exact h.cache
  · refine .inr ?_
    unfold AllExpired AuthState.timestamp
    rw [hnow]
    exact h

/-- How the middleware ends: at the token, at a cached answer, or at one of the table. -/
theorem authMiddleware_cases (libs : AuthLibs) (ok : Bool) (s : AuthState) (token : List Char)
    (account : Except StatusCode Unit) :
    ((s.tokenClaims libs token).2 = none ∧ s.authMiddleware libs ok token account =
        ({ s with tokenCache := (s.tokenClaims libs token).1 }, .error .unauthorized)) ∨
      ∃ claims, (s.tokenClaims libs token).2 = some claims ∧
        ((∃ revoked, s.cachedRevoked s.now claims.jti = some revoked ∧
            s.authMiddleware libs ok token account =
              ({ s with tokenCache := (s.tokenClaims libs token).1 },
                if revoked then .error .unauthorized else account)) ∨
          s.cachedRevoked s.now claims.jti = none ∧
            s.authMiddleware libs ok token account =
              (AuthState.cacheJti { s with tokenCache := (s.tokenClaims libs token).1 } s.now
                  claims.jti (s.isTokenRevoked ok claims.jti),
                if s.isTokenRevoked ok claims.jti then .error .unauthorized else account)) := by
  unfold AuthState.authMiddleware
  obtain ⟨cache, found⟩ := s.tokenClaims libs token
  cases found with
  | none => exact .inl ⟨rfl, rfl⟩
  | some claims =>
    refine .inr ⟨claims, rfl, ?_⟩
    have hread : AuthState.cachedRevoked { s with tokenCache := cache } s.now claims.jti =
        s.cachedRevoked s.now claims.jti := rfl
    dsimp only
    cases hcached : s.cachedRevoked s.now claims.jti with
    | none =>
      refine .inr ⟨rfl, ?_⟩
      rw [hread, hcached]
      rfl
    | some revoked =>
      refine .inl ⟨revoked, rfl, ?_⟩
      rw [hread, hcached]

theorem CacheSound.authMiddleware (h : CacheSound libs s) (ok : Bool) (token : List Char)
    (account : Except StatusCode Unit) :
    CacheSound libs (s.authMiddleware libs ok token account).1 := by
  have hcache := h.tokenClaims token
  obtain ⟨-, hend⟩ | ⟨claims, -, ⟨revoked, -, hend⟩ | ⟨-, hend⟩⟩ :=
    authMiddleware_cases libs ok s token account
  · rw [hend]
    exact hcache
  · rw [hend]
    exact hcache
  · rw [hend]
    exact hcache

theorem Revoked.cached (h : Revoked jti s) (hcached : s.cachedRevoked s.now jti = some revoked) :
    revoked = true := by
  obtain ⟨entry, hentry, rfl⟩ := Option.map_eq_some_iff.mp hcached
  obtain ⟨hlookup, hlive⟩ := Option.filter_eq_some_iff.mp hentry
  obtain ⟨revoked, deadline⟩ := entry
  cases revoked with
  | true => rfl
  | false => exact absurd (of_decide_eq_true hlive) (Nat.not_lt.mpr (h.cache deadline hlookup))

theorem TokenDead.authMiddleware (h : TokenDead libs jti s) (token : List Char)
    (account : Except StatusCode Unit) :
    TokenDead libs jti (s.authMiddleware libs true token account).1 := by
  obtain ⟨-, hend⟩ | ⟨claims, hclaims, ⟨revoked, -, hend⟩ | ⟨-, hend⟩⟩ :=
    authMiddleware_cases libs true s token account
  · rw [hend]
    exact h.congr rfl rfl rfl
  · rw [hend]
    exact h.congr rfl rfl rfl
  · rw [hend]
    obtain h | h := h
    · refine .inl ⟨h.row, ?_⟩
      intro deadline hentry
      change (s.jtiCache.insert claims.jti _).lookup jti = _ at hentry
      by_cases hjti : jti = claims.jti
      · -- the table knows the id, so the new entry says revoked
        rw [hjti, AList.lookup_insert] at hentry
        have hrevoked : s.isTokenRevoked true claims.jti = true := by
          rw [AuthState.isTokenRevoked, ← hjti, h.row]
          rfl
        rw [hrevoked] at hentry
        cases hentry
      · rw [AList.lookup_insert_ne hjti] at hentry
        exact h.cache deadline hentry
    · exact .inr h

/-- A dead token is refused. -/
theorem TokenDead.refuses (hdead : ∀ claims, libs.decode token = some claims → TokenDead libs claims.jti s)
    (hs : CacheSound libs s) (account : Except StatusCode Unit) :
    (s.authMiddleware libs true token account).2 = .error .unauthorized := by
  obtain ⟨-, hend⟩ | ⟨claims, hclaims, hend⟩ := authMiddleware_cases libs true s token account
  · rw [hend]
  · obtain ⟨hdecode, hexp⟩ := hs.accepted hclaims
    obtain h | h := hdead claims hdecode
    · obtain ⟨revoked, hcached, hend⟩ | ⟨-, hend⟩ := hend
      · rw [hend, h.cached hcached]
        rfl
      · have hrevoked : s.isTokenRevoked true claims.jti = true := by
          rw [AuthState.isTokenRevoked, h.row]
          rfl
        rw [hend, hrevoked]
        rfl
    · exact absurd hexp (not_le.mpr (h token claims hdecode rfl))

theorem CacheSound.logout (h : CacheSound libs s) (token refreshToken : List Char) :
    CacheSound libs (s.logout libs true token refreshToken).1 := by
  unfold AuthState.logout AuthState.revokeAccessToken
  split
  · exact h
  · dsimp only
    split
    · exact h
    · split
      · exact h
      · exact h

theorem hasKey_revoke (ok : Bool) (s : AuthState) (claims : Claims)
    (h : ok = true ∨ hasKey RevokedRow.jti claims.jti s.revokedTokens = true) :
    hasKey RevokedRow.jti claims.jti (s.revokeAccessToken libs ok claims).revokedTokens = true := by
  unfold AuthState.revokeAccessToken
  split
  · apply hasKey_iff.mpr
    exact ⟨_, List.mem_append_right _ (List.mem_singleton_self _), rfl⟩
  · next hkept =>
    obtain rfl | h := h
    · rw [Bool.true_and, Bool.not_eq_true', Bool.not_eq_false] at hkept
      exact hkept
    · exact h

theorem revoke_keeps_row (ok : Bool) (claims : Claims)
    (h : hasKey RevokedRow.jti jti s.revokedTokens = true) :
    hasKey RevokedRow.jti jti (s.revokeAccessToken libs ok claims).revokedTokens = true := by
  unfold AuthState.revokeAccessToken
  split
  · obtain ⟨r, hr, hjti⟩ := hasKey_iff.mp h
    exact hasKey_iff.mpr ⟨r, List.mem_append_left _ hr, hjti⟩
  · exact h

theorem revoke_frame (libs : AuthLibs) (ok : Bool) (s : AuthState) (claims : Claims) :
    (s.revokeAccessToken libs ok claims).now = s.now ∧
      (s.revokeAccessToken libs ok claims).jtiCache = s.jtiCache := by
  unfold AuthState.revokeAccessToken
  split
  · exact ⟨rfl, rfl⟩
  · exact ⟨rfl, rfl⟩

/-- Revoking an id, its own or another's, leaves a revoked one so. -/
theorem Revoked.revoke (h : Revoked jti s) (ok : Bool) (claims : Claims) :
    Revoked jti ((s.revokeAccessToken libs ok claims).removeJti claims.jti) where
  row := revoke_keeps_row ok claims h.row
  cache := by
    intro deadline hentry
    obtain ⟨hnow, hjtis⟩ := revoke_frame libs ok s claims
    change ((s.revokeAccessToken libs ok claims).jtiCache.erase claims.jti).lookup jti = _ at hentry
    change deadline ≤ (s.revokeAccessToken libs ok claims).now
    rw [hnow]
    rw [hjtis] at hentry
    by_cases hjti : jti = claims.jti
    · rw [hjti, AList.lookup_erase] at hentry
      cases hentry
    · rw [AList.lookup_erase_ne hjti] at hentry
      exact h.cache deadline hentry

theorem TokenDead.revoke (h : TokenDead libs jti s) (ok : Bool) (claims : Claims) :
    TokenDead libs jti ((s.revokeAccessToken libs ok claims).removeJti claims.jti) := by
  obtain h | h := h
  · exact .inl (h.revoke ok claims)
  · refine .inr ?_
    intro token' claims' hdecode hjti
    have hexp := h token' claims' hdecode hjti
    have hnow := (revoke_frame libs ok s claims).1
    unfold AuthState.timestamp at hexp ⊢
    change claims'.exp + leeway < (((s.revokeAccessToken libs ok claims).now / second : Nat) : Int)
    rw [hnow]
    exact hexp

theorem TokenDead.logout (h : TokenDead libs jti s) (token refreshToken : List Char) :
    TokenDead libs jti (s.logout libs true token refreshToken).1 := by
  unfold AuthState.logout
  split
  · exact h
  · next rows _ =>
    have hrows : TokenDead libs jti { s with refreshTokens := rows } := h.congr rfl rfl rfl
    dsimp only
    split
    · exact hrows
    · next claims _ => exact hrows.revoke true claims

theorem logoutRequest_cases (libs : AuthLibs) (s : AuthState) (token refreshToken : List Char)
    (account : Except StatusCode Unit) :
    (∃ status, (s.authMiddleware libs true token account).2 = .error status ∧
        s.logoutRequest libs token refreshToken account =
          ((s.authMiddleware libs true token account).1, .error status)) ∨
      (s.authMiddleware libs true token account).2 = .ok () ∧
        s.logoutRequest libs token refreshToken account =
          (s.authMiddleware libs true token account).1.logout libs true token refreshToken := by
  unfold AuthState.logoutRequest
  obtain ⟨s', result⟩ := s.authMiddleware libs true token account
  cases result with
  | error status => exact .inl ⟨status, rfl, rfl⟩
  | ok => exact .inr ⟨rfl, rfl⟩

theorem CacheSound.exec (h : CacheSound libs s) (op : SessionOp) : CacheSound libs (op.exec libs s) := by
  cases op with
  | request elapsed token account => exact (h.wait elapsed).authMiddleware true token account
  | logout elapsed token refreshToken account =>
    have hmiddle := (h.wait elapsed).authMiddleware true token account
    obtain ⟨status, -, hend⟩ | ⟨-, hend⟩ :=
      logoutRequest_cases libs (s.wait elapsed) token refreshToken account
    · rw [SessionOp.exec, hend]
      exact hmiddle
    · rw [SessionOp.exec, hend]
      exact hmiddle.logout token refreshToken
  | cleanup elapsed => exact h.wait elapsed

theorem TokenDead.exec (h : TokenDead libs jti s) (hc : CleansExpired libs s op) : TokenDead libs jti (op.exec libs s) := by
  cases op with
  | request elapsed token account => exact (h.wait elapsed).authMiddleware token account
  | logout elapsed token refreshToken account =>
    have hmiddle := (h.wait elapsed).authMiddleware token account
    obtain ⟨status, -, hend⟩ | ⟨-, hend⟩ :=
      logoutRequest_cases libs (s.wait elapsed) token refreshToken account
    · rw [SessionOp.exec, hend]
      exact hmiddle
    · rw [SessionOp.exec, hend]
      exact hmiddle.logout token refreshToken
  | cleanup elapsed =>
    have hwait := h.wait elapsed
    obtain h | h := hwait
    · obtain ⟨r, hr, rfl⟩ := hasKey_iff.mp h.row
      by_cases hold : r.expiresAt < libs.nowText (s.wait elapsed).now
      · exact .inr (hc r hr hold)
      · refine .inl ⟨hasKey_iff.mpr ⟨r, ?_, rfl⟩, h.cache⟩
        apply List.mem_filter.mpr
        exact ⟨hr, by rw [decide_eq_false hold]; rfl⟩
    · exact .inr h

theorem authMiddleware_now (libs : AuthLibs) (ok : Bool) (s : AuthState) (token : List Char)
    (account : Except StatusCode Unit) : (s.authMiddleware libs ok token account).1.now = s.now := by
  obtain ⟨-, hend⟩ | ⟨claims, -, ⟨revoked, -, hend⟩ | ⟨-, hend⟩⟩ := authMiddleware_cases libs ok s token account
  · rw [hend]
  · rw [hend]
  · rw [hend]
    rfl

theorem CacheSound.authorized (hs : CacheSound libs s)
    (h : (s.authMiddleware libs ok token account).2 = .ok ()) :
    ∃ claims, libs.decode token = some claims ∧ s.timestamp ≤ claims.exp + leeway := by
  obtain ⟨-, hend⟩ | ⟨claims, hclaims, -⟩ := authMiddleware_cases libs ok s token account
  · rw [hend] at h
    cases h
  · exact ⟨claims, hs.accepted hclaims⟩

theorem logout_revokes (hverify : s.verifyAccessToken libs token = some claims)
    (hok : (s.logout libs true token refreshToken).2 = .ok ()) :
    Revoked claims.jti (s.logout libs true token refreshToken).1 := by
  unfold AuthState.logout at hok ⊢
  split at hok
  · cases hok
  · next rows hrows =>
    have hverify' : AuthState.verifyAccessToken libs { s with refreshTokens := rows } token =
        some claims := hverify
    simp only [hverify']
    constructor
    · exact hasKey_revoke true _ claims (.inl rfl)
    · intro deadline hentry
      change (AList.erase claims.jti _).lookup claims.jti = _ at hentry
      rw [AList.lookup_erase] at hentry
      cases hentry

/-- A logout that has answered `Ok` has revoked its token. -/
theorem logsOut_dead {op : SessionOp} (hs : CacheSound libs s) (h : op.LogsOut libs s token) :
    ∀ claims, libs.decode token = some claims → TokenDead libs claims.jti (op.exec libs s) := by
  cases op with
  | request elapsed token' account => exact h.elim
  | cleanup elapsed => exact h.elim
  | logout elapsed token' refreshToken account =>
    obtain ⟨rfl, hok⟩ := h
    intro claims hdecode
    obtain ⟨status, -, hend⟩ | ⟨hmiddle, hend⟩ :=
      logoutRequest_cases libs (s.wait elapsed) token' refreshToken account
    · rw [hend] at hok
      cases hok
    · obtain ⟨claims', hdecode', hexp⟩ := (hs.wait elapsed).authorized hmiddle
      cases hdecode.symm.trans hdecode'
      rw [hend] at hok
      rw [SessionOp.exec, hend]
      refine .inl (logout_revokes ?_ hok)
      apply Option.filter_eq_some_iff.mpr
      refine ⟨hdecode, decide_eq_true ?_⟩
      unfold AuthState.timestamp at hexp ⊢
      rw [authMiddleware_now]
      exact hexp

theorem TokenDead.unauthorized {op : SessionOp} (hs : CacheSound libs s)
    (hdead : ∀ claims, libs.decode token = some claims → TokenDead libs claims.jti s)
    (hbears : op.bearer = some token) : ¬op.Authorized libs s := by
  have hrefused : ∀ elapsed account,
      ((s.wait elapsed).authMiddleware libs true token account).2 ≠ .ok () := by
    intro elapsed account hok
    have hwaited : ∀ claims, libs.decode token = some claims →
        TokenDead libs claims.jti (s.wait elapsed) := fun claims hd => (hdead claims hd).wait elapsed
    rw [TokenDead.refuses hwaited (hs.wait elapsed) account] at hok
    cases hok
  cases op with
  | request elapsed token' account =>
    cases hbears
    exact hrefused elapsed account
  | logout elapsed token' refreshToken account =>
    cases hbears
    exact hrefused elapsed account
  | cleanup elapsed => cases hbears

def runSessions (libs : AuthLibs) (s : AuthState) (ops : List SessionOp) : AuthState :=
  ops.foldl (fun s op => op.exec libs s) s

theorem boot_sound (now : Nat) (revokedTokens : List RevokedRow) (refreshTokens : List TokenRow) :
    CacheSound libs (.boot now revokedTokens refreshTokens) := KeyedMap.Forall.empty _

theorem CacheSound.run (h : CacheSound libs s) (ops : List SessionOp) :
    CacheSound libs (runSessions libs s ops) := by
  induction ops generalizing s with
  | nil => exact h
  | cons op ops ih => exact ih (h.exec op)

theorem TokenDead.run {ops : List SessionOp} (h : TokenDead libs jti s)
    (hc : Along (fun s op => op.exec libs s) (CleansExpired libs) s ops) :
    TokenDead libs jti (runSessions libs s ops) :=
  hc.reaches (TokenDead libs jti) (fun _ _ h hc => h.exec hc) h (List.prefix_refl ops)

/-- In every run whose cleanups drop expired ids only, no request with the token is let through
after a logout with it has answered `Ok`. -/
theorem unauthorized_after_logout {before between rest : List SessionOp} {out later : SessionOp}
    (hclean : Along (fun s op => op.exec libs s) (CleansExpired libs)
      (.boot now revokedTokens refreshTokens) (before ++ out :: between ++ later :: rest))
    (hout : out.LogsOut libs (runSessions libs (.boot now revokedTokens refreshTokens) before) token)
    (hbears : later.bearer = some token) :
    ¬later.Authorized libs
      (runSessions libs (.boot now revokedTokens refreshTokens) (before ++ out :: between)) := by
  have hsound : CacheSound libs (.boot now revokedTokens refreshTokens) := boot_sound _ _ _
  have hdead := logsOut_dead (hsound.run before) hout
  apply TokenDead.unauthorized (hsound.run _) ?_ hbears
  intro claims hdecode
  have hbetween := (Along.append.mp (Along.append.mp hclean).1).2.2
  have hrun := (hdead claims hdecode).run hbetween
  rw [runSessions, List.foldl_append, List.foldl_cons]
  exact hrun

/-- The seconds of an instant with their fraction, if they have one. -/
def secondsText (now : Nat) : List Char :=
  let nanos := now % second
  let digits := Nat.toDigits 10 nanos
  let padded := List.replicate (9 - digits.length) '0' ++ digits
  Pf.pad2 (now / second % 60) ++
    (if nanos = 0 then []
    else if nanos % 1000000 = 0 then '.' :: padded.take 3
    else if nanos % 1000 = 0 then '.' :: padded.take 6
    else '.' :: padded)

/-- The text of an instant in the years with four digits. -/
def rfc3339Text (now : Nat) : List Char :=
  let secs := now / second
  let (year, month, day) := Pf.civil (719468 + secs / 86400)
  Pf.pad4 year ++ '-' :: Pf.pad2 month ++ '-' :: Pf.pad2 day ++ 'T' :: Pf.pad2 (secs / 3600 % 24) ++
    ':' :: Pf.pad2 (secs / 60 % 60) ++ ':' :: secondsText now ++ "+00:00".toList

example : rfc3339Text (1700000000 * second + 5000000) =
    "2023-11-14T22:13:20.005+00:00".toList := by decide +kernel

/-- One signed token, which expires at 2023-11-14T22:13:20Z. -/
def oneToken : AuthLibs where
  decode := fun token => if token = "t".toList then some ⟨1700000000, "j".toList⟩ else none
  nowText := rfc3339Text
  expText := fun exp => rfc3339Text (exp.toNat * second)

def logoutAt : SessionOp := .logout 0 "t".toList stolenToken (.ok ())

/-- Ten seconds before the token expires, with its refresh token stored. -/
def beforeExpiry : AuthState := .boot (1699999990 * second) [] [stolenRow]

theorem logoutAt_logsOut : logoutAt.LogsOut oneToken beforeExpiry "t".toList := by
  refine ⟨rfl, ?_⟩
  decide +kernel

theorem oneToken_expired (h : 1700000060 < s.timestamp) : AllExpired oneToken jti s := by
  intro token claims hdecode _
  unfold oneToken at hdecode
  dsimp only at hdecode
  split at hdecode
  · rw [← Option.some.inj hdecode]
    exact h
  · cases hdecode

/-- The cleanup of the next hour finds the token expired for good. -/
theorem unauthorized_after_logout_hourly :
    ¬(SessionOp.request 5 "t".toList (.ok ())).Authorized oneToken
      (runSessions oneToken beforeExpiry ([] ++ logoutAt :: [.cleanup (3600 * second)])) := by
  have hclean : Along (fun s op => op.exec oneToken s) (CleansExpired oneToken) beforeExpiry
      ([] ++ logoutAt :: [.cleanup (3600 * second)] ++ [.request 5 "t".toList (.ok ())]) := by
    refine ⟨trivial, ?_, trivial, trivial⟩
    intro r _ _
    apply oneToken_expired
    decide +kernel
  exact unauthorized_after_logout hclean logoutAt_logsOut rfl

/-- A cleanup within the minute after the expiry forgets a token that is still accepted. -/
theorem cleanup_revives_token :
    ¬∀ (libs : AuthLibs) (now : Nat) (revokedTokens : List RevokedRow)
        (refreshTokens : List TokenRow) (before between : List SessionOp) (out later : SessionOp)
        (token : List Char),
      out.LogsOut libs (runSessions libs (.boot now revokedTokens refreshTokens) before) token →
        later.bearer = some token →
          ¬later.Authorized libs (runSessions libs (.boot now revokedTokens refreshTokens)
            (before ++ out :: between)) := by
  intro h
  apply h oneToken (1699999990 * second) [] [stolenRow] [] [.cleanup (40 * second)] logoutAt
    (.request second "t".toList (.ok ())) "t".toList logoutAt_logsOut rfl
  change (AuthState.authMiddleware oneToken true _ _ _).2 = .ok ()
  decide +kernel

end AiFw.Auth
