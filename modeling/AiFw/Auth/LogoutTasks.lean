import AiFw.Auth.LogoutExpiry

namespace AiFw.Auth
open AiFw.Lib
set_option autoImplicit true

/-- What a step of a task takes from outside: the time since the last step of any task, whether its
statement goes through, and what the account of the user comes to. -/
structure TaskInput where
  elapsed : Nat
  ok : Bool
  account : Except StatusCode Unit

/-- Where a run of the middleware stands; the instant it keeps is the one it began at. -/
inductive AuthPhase where
  | start
  | readJti (now : Nat) (jti : List Char)
  | query (now : Nat) (jti : List Char)
  | insertJti (now : Nat) (jti : List Char) (revoked : Bool)
  | done (result : Except StatusCode Unit)
deriving DecidableEq

inductive LogoutPhase where
  | start
  | revokeAccess
  | removeJti (jti : List Char)
  | returned (time : Nat)
  | failed
deriving DecidableEq

inductive SessionTask where
  | auth (phase : AuthPhase)
  | logout (phase : LogoutPhase)
deriving DecidableEq

def answer (revoked : Bool) (account : Except StatusCode Unit) : Except StatusCode Unit :=
  if revoked then .error .unauthorized else account

section
variable (libs : AuthLibs) (token refreshToken : List Char)

def authStep (i : TaskInput) (s : AuthState) : AuthPhase → AuthState × AuthPhase
  | .start =>
    match s.tokenClaims libs token with
    | (cache, none) => ({ s with tokenCache := cache }, .done (.error .unauthorized))
    | (cache, some claims) => ({ s with tokenCache := cache }, .readJti s.now claims.jti)
  | .readJti now jti =>
    match s.cachedRevoked now jti with
    | some revoked => (s, .done (answer revoked i.account))
    | none => (s, .query now jti)
  | .query now jti => (s, .insertJti now jti (s.isTokenRevoked i.ok jti))
  | .insertJti now jti revoked =>
    (s.cacheJti now jti revoked, .done (answer revoked i.account))
  | .done result => (s, .done result)

def logoutStep (i : TaskInput) (s : AuthState) : LogoutPhase → AuthState × LogoutPhase
  | .start =>
    match revokeRefreshToken s.refreshTokens refreshToken with
    | (_, .error _) => (s, .failed)
    | (rows, .ok ()) => ({ s with refreshTokens := rows }, .revokeAccess)
  | .revokeAccess =>
    match s.verifyAccessToken libs token with
    | none => (s, .returned s.now)
    | some claims => (s.revokeAccessToken libs i.ok claims, .removeJti claims.jti)
  | .removeJti jti => (s.removeJti jti, .returned s.now)
  | .returned time => (s, .returned time)
  | .failed => (s, .failed)

def taskStep (i : TaskInput) (s : AuthState) : SessionTask → AuthState × SessionTask
  | .auth phase =>
    ((authStep libs token i (s.wait i.elapsed) phase).1,
      .auth (authStep libs token i (s.wait i.elapsed) phase).2)
  | .logout phase =>
    ((logoutStep libs token refreshToken i (s.wait i.elapsed) phase).1,
      .logout (logoutStep libs token refreshToken i (s.wait i.elapsed) phase).2)

end

section
variable {libs : AuthLibs} {s : AuthState} {claims : Claims}

theorem authStep_unknown (h : (s.tokenClaims libs token).2 = none) (i : TaskInput) :
    authStep libs token i s .start =
      ({ s with tokenCache := (s.tokenClaims libs token).1 }, .done (.error .unauthorized)) := by
  unfold authStep
  revert h
  obtain ⟨cache, found⟩ := s.tokenClaims libs token
  intro h
  cases h
  rfl

theorem authStep_known (h : (s.tokenClaims libs token).2 = some claims) (i : TaskInput) :
    authStep libs token i s .start =
      ({ s with tokenCache := (s.tokenClaims libs token).1 }, .readJti s.now claims.jti) := by
  unfold authStep
  revert h
  obtain ⟨cache, found⟩ := s.tokenClaims libs token
  intro h
  cases h
  rfl

theorem authStep_cached (libs : AuthLibs) (token : List Char)
    (h : s.cachedRevoked now jti = some revoked) (i : TaskInput) :
    authStep libs token i s (.readJti now jti) = (s, .done (answer revoked i.account)) := by
  simp only [authStep, h]

theorem authStep_uncached (libs : AuthLibs) (token : List Char)
    (h : s.cachedRevoked now jti = none) (i : TaskInput) :
    authStep libs token i s (.readJti now jti) = (s, .query now jti) := by
  simp only [authStep, h]

/-- A run of the middleware that no other task comes between is the whole call. -/
theorem authSteps_whole (i : TaskInput) (s : AuthState) :
    Nat.iterate (fun x => authStep libs token i x.1 x.2) 4 (s, .start) =
      ((s.authMiddleware libs i.ok token i.account).1,
        .done (s.authMiddleware libs i.ok token i.account).2) := by
  have hfour (f : AuthState × AuthPhase → AuthState × AuthPhase) (x : AuthState × AuthPhase) :
      Nat.iterate f 4 x = f (f (f (f x))) := rfl
  simp only [hfour]
  obtain ⟨hclaims, hend⟩ | ⟨claims, hclaims, ⟨revoked, hcached, hend⟩ | ⟨hcached, hend⟩⟩ :=
    authMiddleware_cases libs i.ok s token i.account
  · rw [hend, authStep_unknown hclaims]
    rfl
  · have hread := authStep_cached libs token
      (s := { s with tokenCache := (s.tokenClaims libs token).1 }) hcached i
    simp only [hend, authStep_known hclaims, hread]
    rfl
  · have hread := authStep_uncached libs token
      (s := { s with tokenCache := (s.tokenClaims libs token).1 }) hcached i
    simp only [hend, authStep_known hclaims, hread]
    rfl

/-- A step changes the cache of tokens, or nothing, or it puts an answer into the cache of ids. -/
theorem authStep_state (libs : AuthLibs) (token : List Char) (i : TaskInput) (s : AuthState)
    (phase : AuthPhase) :
    (authStep libs token i s phase).1 = { s with tokenCache := (s.tokenClaims libs token).1 } ∨
      (authStep libs token i s phase).1 = s ∨
        ∃ now jti revoked, phase = .insertJti now jti revoked ∧
          (authStep libs token i s phase).1 = s.cacheJti now jti revoked := by
  cases phase with
  | start =>
    cases hclaims : (s.tokenClaims libs token).2 with
    | none => exact .inl (congrArg Prod.fst (authStep_unknown hclaims i))
    | some claims => exact .inl (congrArg Prod.fst (authStep_known hclaims i))
  | readJti now jti =>
    cases hcached : s.cachedRevoked now jti with
    | none => exact .inr (.inl (congrArg Prod.fst (authStep_uncached libs token hcached i)))
    | some revoked => exact .inr (.inl (congrArg Prod.fst (authStep_cached libs token hcached i)))
  | query now jti => exact .inr (.inl rfl)
  | insertJti now jti revoked => exact .inr (.inr ⟨now, jti, revoked, rfl, rfl⟩)
  | done result => exact .inr (.inl rfl)

/-- The same of a logout: it revokes a refresh token or an id, or takes one out of the cache. -/
theorem logoutStep_state (libs : AuthLibs) (token refreshToken : List Char) (i : TaskInput)
    (s : AuthState) (phase : LogoutPhase) :
    (∃ rows, (logoutStep libs token refreshToken i s phase).1 = { s with refreshTokens := rows }) ∨
      (∃ claims, (logoutStep libs token refreshToken i s phase).1 =
        s.revokeAccessToken libs i.ok claims) ∨
        ∃ jti, (logoutStep libs token refreshToken i s phase).1 = s.removeJti jti := by
  cases phase with
  | start =>
    unfold logoutStep
    dsimp only
    split
    · exact .inl ⟨s.refreshTokens, rfl⟩
    · next rows _ => exact .inl ⟨rows, rfl⟩
  | revokeAccess =>
    unfold logoutStep
    dsimp only
    split
    · exact .inl ⟨s.refreshTokens, rfl⟩
    · next claims _ => exact .inr (.inl ⟨claims, rfl⟩)
  | removeJti jti => exact .inr (.inr ⟨jti, rfl⟩)
  | returned time => exact .inl ⟨s.refreshTokens, rfl⟩
  | failed => exact .inl ⟨s.refreshTokens, rfl⟩

theorem CacheSound.taskStep (h : CacheSound libs s) (token refreshToken : List Char) (i : TaskInput)
    (task : SessionTask) : CacheSound libs (taskStep libs token refreshToken i s task).1 := by
  have hwait := h.wait i.elapsed
  cases task with
  | auth phase =>
    unfold CacheSound Auth.taskStep
    obtain hstate | hstate | ⟨now, jti, revoked, -, hstate⟩ :=
      authStep_state libs token i (s.wait i.elapsed) phase
    · rw [hstate]
      exact hwait.tokenClaims token
    · rw [hstate]
      exact hwait
    · rw [hstate]
      exact hwait
  | logout phase =>
    unfold CacheSound Auth.taskStep
    obtain ⟨rows, hstate⟩ | ⟨claims, hstate⟩ | ⟨jti, hstate⟩ :=
      logoutStep_state libs token refreshToken i (s.wait i.elapsed) phase
    · rw [hstate]
      exact hwait
    · rw [hstate]
      unfold AuthState.revokeAccessToken
      split
      · exact hwait
      · exact hwait
    · rw [hstate]
      exact hwait

theorem taskStep_now (libs : AuthLibs) (token refreshToken : List Char) (i : TaskInput)
    (s : AuthState) (task : SessionTask) :
    (taskStep libs token refreshToken i s task).1.now = s.now + i.elapsed := by
  cases task with
  | auth phase =>
    unfold taskStep
    obtain hstate | hstate | ⟨now, jti, revoked, -, hstate⟩ :=
      authStep_state libs token i (s.wait i.elapsed) phase
    · rw [hstate]
      rfl
    · rw [hstate]
      rfl
    · rw [hstate]
      rfl
  | logout phase =>
    unfold taskStep
    obtain ⟨rows, hstate⟩ | ⟨claims, hstate⟩ | ⟨jti, hstate⟩ :=
      logoutStep_state libs token refreshToken i (s.wait i.elapsed) phase
    · rw [hstate]
      rfl
    · rw [hstate, (revoke_frame libs i.ok _ claims).1]
      rfl
    · rw [hstate]
      rfl

/-- No task takes back a revocation. -/
theorem taskStep_row (libs : AuthLibs) (token refreshToken : List Char) (i : TaskInput)
    (task : SessionTask) (h : hasKey RevokedRow.jti jti s.revokedTokens = true) :
    hasKey RevokedRow.jti jti (taskStep libs token refreshToken i s task).1.revokedTokens = true := by
  cases task with
  | auth phase =>
    unfold taskStep
    obtain hstate | hstate | ⟨now, jti, revoked, -, hstate⟩ :=
      authStep_state libs token i (s.wait i.elapsed) phase
    · rw [hstate]
      exact h
    · rw [hstate]
      exact h
    · rw [hstate]
      exact h
  | logout phase =>
    unfold taskStep
    obtain ⟨rows, hstate⟩ | ⟨claims, hstate⟩ | ⟨jti, hstate⟩ :=
      logoutStep_state libs token refreshToken i (s.wait i.elapsed) phase
    · rw [hstate]
      exact h
    · rw [hstate]
      exact revoke_keeps_row i.ok claims h
    · rw [hstate]
      exact h

/-- A "not revoked" in the cache after a step was there before, or a run has just put it there. -/
theorem taskStep_cached (libs : AuthLibs) (token refreshToken : List Char) (i : TaskInput)
    (s : AuthState) (task : SessionTask)
    (h : (taskStep libs token refreshToken i s task).1.jtiCache.lookup jti = some (false, deadline)) :
    s.jtiCache.lookup jti = some (false, deadline) ∨
      ∃ now, task = .auth (.insertJti now jti false) ∧ deadline = now + authJtiCacheTtl := by
  cases task with
  | auth phase =>
    unfold taskStep at h
    obtain hstate | hstate | ⟨now, jti', revoked, rfl, hstate⟩ :=
      authStep_state libs token i (s.wait i.elapsed) phase
    · rw [hstate] at h
      exact .inl h
    · rw [hstate] at h
      exact .inl h
    · rw [hstate] at h
      change (s.jtiCache.insert jti' (revoked, now + authJtiCacheTtl)).lookup jti = _ at h
      by_cases hjti : jti = jti'
      · rw [hjti, AList.lookup_insert] at h
        cases h
        exact .inr ⟨now, by rw [hjti], rfl⟩
      · rw [AList.lookup_insert_ne hjti] at h
        exact .inl h
  | logout phase =>
    unfold taskStep at h
    obtain ⟨rows, hstate⟩ | ⟨claims, hstate⟩ | ⟨jti', hstate⟩ :=
      logoutStep_state libs token refreshToken i (s.wait i.elapsed) phase
    · rw [hstate] at h
      exact .inl h
    · rw [hstate, (revoke_frame libs i.ok _ claims).2] at h
      exact .inl h
    · rw [hstate] at h
      change (s.jtiCache.erase jti').lookup jti = _ at h
      by_cases hjti : jti = jti'
      · rw [hjti, AList.lookup_erase] at h
        cases h
      · rw [AList.lookup_erase_ne hjti] at h
        exact .inl h

end

end AiFw.Auth
