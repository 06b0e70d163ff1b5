import AiFw.Auth.LogoutTasks
import AiFw.Lib.Runs

namespace AiFw.Auth
open AiFw.Lib
set_option autoImplicit true

abbrev AuthRace := Interleaved AuthState SessionTask

namespace AuthRace

/-- One logout, and runs of the middleware that have not begun. -/
def start (s : AuthState) (n : Nat) : AuthRace :=
  ⟨s, .logout .start :: List.replicate n (.auth .start)⟩

def run (libs : AuthLibs) (token refreshToken : List Char) (s : AuthRace)
    (events : List (Nat × TaskInput)) : AuthRace :=
  events.foldl (Interleaved.step (taskStep libs token refreshToken)) s

end AuthRace

variable {libs : AuthLibs} {claims : Claims} {s : AuthState}

/-- The logout's `INSERT` and every query go through, and once the logout has returned no run puts
a "not revoked" into the cache that outlives the return. -/
structure FillsInTime (s : AuthRace) (e : Nat × TaskInput) : Prop where
  insert : s.At e.1 (.logout .revokeAccess) → e.2.ok = true
  query : ∀ now jti, s.At e.1 (.auth (.query now jti)) → e.2.ok = true
  fill : ∀ now jti time, s.At e.1 (.auth (.insertJti now jti false)) →
    s.At 0 (.logout (.returned time)) → now + authJtiCacheTtl ≤ time

def Expired (claims : Claims) (s : AuthState) : Prop := claims.exp + leeway < s.timestamp

/-- The id is revoked, and no "not revoked" of the cache outlives the time. -/
structure Blocked (claims : Claims) (time : Nat) (s : AuthState) : Prop where
  past : time ≤ s.now
  row : hasKey RevokedRow.jti claims.jti s.revokedTokens = true
  cache : ∀ deadline, s.jtiCache.lookup claims.jti = some (false, deadline) → deadline ≤ time

/-- What a logout has reached. -/
def LogoutPhase.Fences (claims : Claims) (s : AuthState) : LogoutPhase → Prop
  | .removeJti jti => jti = claims.jti ∧ hasKey RevokedRow.jti claims.jti s.revokedTokens = true
  | .returned time => Blocked claims time s ∨ Expired claims s
  | .start | .revokeAccess | .failed => True

theorem Expired.taskStep (h : Expired claims s) (libs : AuthLibs) (token refreshToken : List Char)
    (i : TaskInput) (task : SessionTask) :
    Expired claims (taskStep libs token refreshToken i s task).1 := by
  have hwait := h.trans_le (timestamp_wait s i.elapsed)
  unfold Expired AuthState.timestamp at hwait ⊢
  rw [taskStep_now]
  exact hwait

theorem Blocked.taskStep (h : Blocked claims time s) (libs : AuthLibs)
    (token refreshToken : List Char) (i : TaskInput) (task : SessionTask)
    (hfill : ∀ now jti, task = .auth (.insertJti now jti false) → now + authJtiCacheTtl ≤ time) :
    Blocked claims time (taskStep libs token refreshToken i s task).1 where
  past := by
    rw [taskStep_now]
    exact h.past.trans (Nat.le_add_right _ _)
  row := taskStep_row libs token refreshToken i task h.row
  cache := by
    intro deadline hentry
    obtain hentry | ⟨now, htask, rfl⟩ := taskStep_cached libs token refreshToken i s task hentry
    · exact h.cache deadline hentry
    · exact hfill now _ htask

theorem Blocked.wait (h : Blocked claims time s) (elapsed : Nat) :
    Blocked claims time (s.wait elapsed) :=
  ⟨h.past.trans (Nat.le_add_right _ _), h.row, h.cache⟩

theorem Expired.wait (h : Expired claims s) (elapsed : Nat) : Expired claims (s.wait elapsed) :=
  h.trans_le (timestamp_wait s elapsed)

theorem Fences.wait {phase : LogoutPhase} (h : phase.Fences claims s) (elapsed : Nat) :
    phase.Fences claims (s.wait elapsed) := by
  cases phase with
  | start => trivial
  | revokeAccess => trivial
  | removeJti jti => exact h
  | returned time => exact h.imp (fun h => h.wait elapsed) fun h => h.wait elapsed
  | failed => trivial

/-- A step of another task leaves what the logout has reached. -/
theorem LogoutPhase.Fences.taskStep {phase : LogoutPhase} (h : phase.Fences claims s)
    (libs : AuthLibs) (token refreshToken : List Char) (i : TaskInput) (task : SessionTask)
    (hfill : ∀ time, phase = .returned time → ∀ now jti,
      task = .auth (.insertJti now jti false) → now + authJtiCacheTtl ≤ time) :
    phase.Fences claims (taskStep libs token refreshToken i s task).1 := by
  cases phase with
  | start => trivial
  | revokeAccess => trivial
  | removeJti jti => exact ⟨h.1, taskStep_row libs token refreshToken i task h.2⟩
  | returned time =>
    obtain h | h := h
    · exact .inl (h.taskStep libs token refreshToken i task (hfill time rfl))
    · exact .inr (h.taskStep libs token refreshToken i task)
  | failed => trivial

/-- The logout's own step. -/
theorem LogoutPhase.Fences.logoutStep {phase : LogoutPhase} (h : phase.Fences claims s)
    (hdecode : libs.decode token = some claims) (hok : phase = .revokeAccess → i.ok = true)
    (refreshToken : List Char) :
    (logoutStep libs token refreshToken i s phase).2.Fences claims
      (Auth.logoutStep libs token refreshToken i s phase).1 := by
  cases phase with
  | start =>
    unfold Auth.logoutStep
    dsimp only
    split
    · trivial
    · trivial
  | revokeAccess =>
    unfold Auth.logoutStep
    dsimp only
    split
    · next hverify =>
      refine .inr ?_
      rw [AuthState.verifyAccessToken, hdecode] at hverify
      have hdead := Option.filter_eq_none_iff.mp hverify claims rfl
      exact not_le.mp fun hle => hdead (decide_eq_true hle)
    · next claims' hverify =>
      cases hdecode.symm.trans (verifyAccessToken_some hverify).1
      exact ⟨rfl, hasKey_revoke i.ok s claims (.inl (hok rfl))⟩
  | removeJti jti =>
    obtain ⟨rfl, hrow⟩ := h
    refine .inl ⟨Nat.le_refl _, hrow, ?_⟩
    intro deadline hentry
    change (s.jtiCache.erase claims.jti).lookup claims.jti = _ at hentry
    rw [AList.lookup_erase] at hentry
    cases hentry
  | returned time => exact h
  | failed => trivial

/-- What holds of the logout and the caches in every state of a race. -/
structure Fenced (libs : AuthLibs) (claims : Claims) (s : AuthRace) : Prop where
  sound : CacheSound libs s.shared
  logout : ∃ phase, s.At 0 (.logout phase) ∧ phase.Fences claims s.shared

theorem Fenced.step {s : AuthRace} (h : Fenced libs claims s)
    (hdecode : libs.decode token = some claims) (hc : FillsInTime s e) :
    Fenced libs claims (s.step (taskStep libs token refreshToken) e) := by
  obtain hsame | ⟨task, htask, hshared, hat⟩ := s.step_cases (taskStep libs token refreshToken) e
  · rw [hsame]
    exact h
  obtain ⟨phase, hphase, hfences⟩ := h.logout
  constructor
  · rw [hshared]
    exact h.sound.taskStep token refreshToken e.2 task
  · rw [hshared]
    by_cases hzero : e.1 = 0
    · rw [hzero] at htask
      cases htask.unique hphase
      refine ⟨_, (hat 0 _).mpr (.inl ⟨hzero, rfl⟩), ?_⟩
      apply (Fences.wait hfences e.2.elapsed).logoutStep hdecode
      intro hinsert
      rw [hinsert] at hphase
      exact hc.insert (hzero ▸ hphase)
    · refine ⟨phase, (hat 0 _).mpr (.inr ⟨hzero, hphase⟩), ?_⟩
      apply hfences.taskStep
      intro time hreturned now jti hfill
      rw [hfill] at htask
      rw [hreturned] at hphase
      exact hc.fill now jti time htask hphase

theorem Fenced.start {s : AuthState} (h : CacheSound libs s) (claims : Claims) (n : Nat) :
    Fenced libs claims (.start s n) := ⟨h, .start, rfl, trivial⟩

/-- A run of the middleware that began after the time has found nothing to let it through. -/
def AuthPhase.Late (claims : Claims) (time : Nat) : AuthPhase → Prop
  | .start => True
  | .readJti now jti | .query now jti => time ≤ now ∧ jti = claims.jti
  | .insertJti _ _ revoked => revoked = true
  | .done result => result ≠ .ok ()

def AuthPhase.Refused : AuthPhase → Prop
  | .start => True
  | .done result => result ≠ .ok ()
  | .readJti _ _ | .query _ _ | .insertJti _ _ _ => False

theorem answer_true_ne (account : Except StatusCode Unit) : answer true account ≠ .ok () := by
  intro h
  cases h

theorem AuthPhase.Late.authStep {phase : AuthPhase} (h : phase.Late claims time)
    (hb : Blocked claims time s) (hs : CacheSound libs s)
    (hdecode : libs.decode token = some claims)
    (hquery : ∀ now jti, phase = .query now jti → i.ok = true) :
    (authStep libs token i s phase).2.Late claims time := by
  cases phase with
  | start =>
    cases hclaims : (s.tokenClaims libs token).2 with
    | none =>
      rw [authStep_unknown hclaims]
      intro hok
      cases hok
    | some claims' =>
      rw [authStep_known hclaims]
      cases hdecode.symm.trans (hs.accepted hclaims).1
      exact ⟨hb.past, rfl⟩
  | readJti now jti =>
    obtain ⟨hbegan, rfl⟩ := h
    cases hcached : s.cachedRevoked now claims.jti with
    | none =>
      rw [authStep_uncached libs token hcached]
      exact ⟨hbegan, rfl⟩
    | some revoked =>
      rw [authStep_cached libs token hcached]
      cases revoked with
      | true => exact answer_true_ne i.account
      | false =>
        -- a live entry that says so would outlive the time
        obtain ⟨⟨revoked, deadline⟩, hentry, hfst⟩ := Option.map_eq_some_iff.mp hcached
        obtain ⟨hlookup, hlive⟩ := Option.filter_eq_some_iff.mp hentry
        cases hfst
        have hle := (hb.cache deadline hlookup).trans hbegan
        exact absurd (of_decide_eq_true hlive) (Nat.not_lt.mpr hle)
  | query now jti =>
    obtain ⟨-, rfl⟩ := h
    change s.isTokenRevoked i.ok claims.jti = true
    rw [AuthState.isTokenRevoked, hquery now claims.jti rfl, hb.row]
    rfl
  | insertJti now jti revoked =>
    cases h
    exact answer_true_ne i.account
  | done result => exact h

/-- A run with a token that has expired, or that no key has signed, is refused at its start. -/
theorem AuthPhase.Refused.authStep {phase : AuthPhase} (h : phase.Refused)
    (he : ∀ claims, libs.decode token = some claims → Expired claims s) (hs : CacheSound libs s)
    (i : TaskInput) : (authStep libs token i s phase).2.Refused := by
  cases phase with
  | start =>
    cases hclaims : (s.tokenClaims libs token).2 with
    | none =>
      rw [authStep_unknown hclaims]
      intro hok
      cases hok
    | some claims =>
      obtain ⟨hdecode, hexp⟩ := hs.accepted hclaims
      exact absurd hexp (not_le.mpr (he claims hdecode))
  | readJti now jti => exact h.elim
  | query now jti => exact h.elim
  | insertJti now jti revoked => exact h.elim
  | done result => exact h

/-- What holds, from the return of the logout on, of a run that begins after it. -/
structure Excluded (libs : AuthLibs) (claims : Claims) (time j : Nat) (s : AuthRace) : Prop where
  sound : CacheSound libs s.shared
  returned : s.At 0 (.logout (.returned time))
  refused : ∃ phase, s.At j (.auth phase) ∧
    (Blocked claims time s.shared ∧ phase.Late claims time ∨
      Expired claims s.shared ∧ phase.Refused)

theorem Fenced.excluded {s : AuthRace} (h : Fenced libs claims s)
    (hreturned : s.At 0 (.logout (.returned time))) (hstart : s.At j (.auth .start)) :
    Excluded libs claims time j s := by
  obtain ⟨phase, hphase, hfences⟩ := h.logout
  cases hphase.unique hreturned
  obtain hb | he := hfences
  · exact ⟨h.sound, hreturned, .start, hstart, .inl ⟨hb, trivial⟩⟩
  · exact ⟨h.sound, hreturned, .start, hstart, .inr ⟨he, trivial⟩⟩

theorem Excluded.step {s : AuthRace} (h : Excluded libs claims time j s)
    (hdecode : libs.decode token = some claims) (hc : FillsInTime s e) :
    Excluded libs claims time j (s.step (taskStep libs token refreshToken) e) := by
  obtain hsame | ⟨task, htask, hshared, hat⟩ := s.step_cases (taskStep libs token refreshToken) e
  · rw [hsame]
    exact h
  obtain ⟨phase, hphase, hrefused⟩ := h.refused
  constructor
  case sound =>
    rw [hshared]
    exact h.sound.taskStep token refreshToken e.2 task
  case returned => exact Interleaved.At.step_of_stays h.returned (fun _ _ => rfl) e
  case refused =>
    rw [hshared]
    have hblocked : Blocked claims time s.shared →
        Blocked claims time (taskStep libs token refreshToken e.2 s.shared task).1 := by
      intro hb
      apply hb.taskStep
      intro now jti hfill
      rw [hfill] at htask
      exact hc.fill now jti time htask h.returned
    by_cases hj : e.1 = j
    · subst hj
      cases htask.unique hphase
      refine ⟨_, (hat e.1 _).mpr (.inl ⟨rfl, rfl⟩), ?_⟩
      obtain ⟨hb, hlate⟩ | ⟨he, hrefused⟩ := hrefused
      · refine .inl ⟨hblocked hb, ?_⟩
        apply hlate.authStep (hb.wait e.2.elapsed) (h.sound.wait e.2.elapsed) hdecode
        intro now jti hquery
        rw [hquery] at htask
        exact hc.query now jti htask
      · refine .inr ⟨he.taskStep libs token refreshToken e.2 _, ?_⟩
        apply hrefused.authStep ?_ (h.sound.wait e.2.elapsed)
        intro claims' hdecode'
        cases hdecode.symm.trans hdecode'
        exact he.wait e.2.elapsed
    · refine ⟨phase, (hat j _).mpr (.inr ⟨hj, hphase⟩), ?_⟩
      obtain ⟨hb, hlate⟩ | ⟨he, hrefused⟩ := hrefused
      · exact .inl ⟨hblocked hb, hlate⟩
      · exact .inr ⟨he.taskStep libs token refreshToken e.2 task, hrefused⟩

theorem Excluded.not_authorized {s : AuthRace} (h : Excluded libs claims time j s) :
    ¬s.At j (.auth (.done (.ok ()))) := by
  intro hdone
  obtain ⟨phase, hphase, ⟨-, hlate⟩ | ⟨-, hrefused⟩⟩ := h.refused
  · cases hphase.unique hdone
    exact hlate rfl
  · cases hphase.unique hdone
    exact hrefused rfl

theorem sound_step {s : AuthRace} (h : CacheSound libs s.shared) (e : Nat × TaskInput) :
    CacheSound libs (s.step (taskStep libs token refreshToken) e).shared := by
  obtain hsame | ⟨task, -, hshared, -⟩ := s.step_cases (taskStep libs token refreshToken) e
  · rw [hsame]
    exact h
  · rw [hshared]
    exact h.taskStep token refreshToken e.2 task

/-- A run with an unsigned token that has not been let through yet never is. -/
structure Unsigned (libs : AuthLibs) (j : Nat) (s : AuthRace) : Prop where
  sound : CacheSound libs s.shared
  refused : ∃ phase : AuthPhase, s.At j (.auth phase) ∧ phase.Refused

theorem Unsigned.step {s : AuthRace} (h : Unsigned libs j s) (hdecode : libs.decode token = none) :
    Unsigned libs j (s.step (taskStep libs token refreshToken) e) := by
  constructor
  case sound => exact sound_step h.sound e
  case refused =>
    obtain hsame | ⟨task, htask, -, hat⟩ := s.step_cases (taskStep libs token refreshToken) e
    · rw [hsame]
      exact h.refused
    obtain ⟨phase, hphase, hrefused⟩ := h.refused
    by_cases hj : e.1 = j
    · subst hj
      cases htask.unique hphase
      refine ⟨_, (hat e.1 _).mpr (.inl ⟨rfl, rfl⟩), ?_⟩
      apply hrefused.authStep ?_ (h.sound.wait e.2.elapsed)
      intro claims hclaims
      rw [hdecode] at hclaims
      cases hclaims
    · exact ⟨phase, (hat j _).mpr (.inr ⟨hj, hphase⟩), hrefused⟩

/-- In every interleaving that fills the cache in time, no run of the middleware that begins after
the logout has returned lets its request through. -/
theorem rejected_after_logout {s : AuthState} (hs : CacheSound libs s)
    (hfills : Along (Interleaved.step (taskStep libs token refreshToken)) FillsInTime
      (AuthRace.start s n) (past ++ rest))
    (hreturned : ((AuthRace.start s n).run libs token refreshToken past).At 0
      (.logout (.returned time)))
    (hstart : ((AuthRace.start s n).run libs token refreshToken past).At j (.auth .start)) :
    ¬((AuthRace.start s n).run libs token refreshToken (past ++ rest)).At j
      (.auth (.done (.ok ()))) := by
  obtain ⟨hpast, hrest⟩ := Along.append.mp hfills
  rw [AuthRace.run, List.foldl_append]
  cases hdecode : libs.decode token with
  | none =>
    have hsound := hpast.reaches (fun s => CacheSound libs s.shared) (fun s e h _ => sound_step h e)
      hs (List.prefix_refl past)
    have hunsigned : Unsigned libs j ((AuthRace.start s n).run libs token refreshToken past) :=
      ⟨hsound, .start, hstart, trivial⟩
    have hend := hrest.reaches (Unsigned libs j) (fun s e h _ => h.step hdecode) hunsigned
      (List.prefix_refl rest)
    intro hdone
    obtain ⟨phase, hphase, hrefused⟩ := hend.refused
    cases hphase.unique hdone
    exact hrefused rfl
  | some claims =>
    have hfenced := hpast.reaches (Fenced libs claims) (fun s e h hc => h.step hdecode hc)
      (Fenced.start hs claims n) (List.prefix_refl past)
    have hend := hrest.reaches (Excluded libs claims time j) (fun s e h hc => h.step hdecode hc)
      (hfenced.excluded hreturned hstart) (List.prefix_refl rest)
    exact hend.not_authorized

def plainInput : TaskInput := ⟨0, true, .ok ()⟩

theorem FillsInTime.of_logout {s : AuthRace} (phase : LogoutPhase) (h : s.At 0 (.logout phase))
    (hphase : ∀ time, phase ≠ .returned time) : FillsInTime s (k, plainInput) where
  insert := fun _ => rfl
  query := fun _ _ _ => rfl
  fill := by
    intro now jti time _ hreturned
    cases hreturned.unique h
    exact absurd rfl (hphase time)

theorem FillsInTime.of_auth {s : AuthRace} (phase : AuthPhase) (h : s.At k (.auth phase))
    (hphase : ∀ now jti, phase ≠ .insertJti now jti false) : FillsInTime s (k, plainInput) where
  insert := fun _ => rfl
  query := fun _ _ _ => rfl
  fill := by
    intro now jti time hfill
    cases hfill.unique h
    exact absurd rfl (hphase now jti)

def logoutAlone : List (Nat × TaskInput) := List.replicate 3 (0, plainInput)

/-- The first run fills the cache and lets its request through, and the logout follows. -/
def fillThenLogout : List (Nat × TaskInput) := List.replicate 4 (1, plainInput) ++ logoutAlone

theorem fillThenLogout_fills :
    Along (Interleaved.step (taskStep oneToken "t".toList stolenToken)) FillsInTime
      (AuthRace.start beforeExpiry 2) (fillThenLogout ++ List.replicate 4 (2, plainInput)) := by
  refine ⟨.of_logout .start rfl (by simp), .of_logout .start ?_ (by simp),
    .of_logout .start ?_ (by simp), .of_logout .start ?_ (by simp), .of_logout .start ?_ (by simp),
    .of_logout .revokeAccess ?_ (by simp), .of_logout (.removeJti "j".toList) ?_ (by simp),
    .of_auth .start ?_ (by simp), .of_auth (.readJti (1699999990 * second) "j".toList) ?_ (by simp),
    .of_auth (.query (1699999990 * second) "j".toList) ?_ (by simp),
    .of_auth (.insertJti (1699999990 * second) "j".toList true) ?_ (by simp), trivial⟩
  all_goals
    unfold Interleaved.At
    decide +kernel

/-- The second run misses the emptied cache, finds the row and is turned away. -/
theorem rejected_after_fillThenLogout :
    ((AuthRace.start beforeExpiry 2).run oneToken "t".toList stolenToken fillThenLogout).At 1
        (.auth (.done (.ok ()))) ∧
      ((AuthRace.start beforeExpiry 2).run oneToken "t".toList stolenToken
        (fillThenLogout ++ List.replicate 4 (2, plainInput))).At 2
          (.auth (.done (.error .unauthorized))) ∧
      ¬((AuthRace.start beforeExpiry 2).run oneToken "t".toList stolenToken
        (fillThenLogout ++ List.replicate 4 (2, plainInput))).At 2 (.auth (.done (.ok ()))) := by
  have hreturned : ((AuthRace.start beforeExpiry 2).run oneToken "t".toList stolenToken
      fillThenLogout).At 0 (.logout (.returned (1699999990 * second))) := by
    unfold Interleaved.At
    decide +kernel
  have hstart : ((AuthRace.start beforeExpiry 2).run oneToken "t".toList stolenToken
      fillThenLogout).At 2 (.auth .start) := by
    unfold Interleaved.At
    decide +kernel
  refine ⟨?_, ?_, rejected_after_logout (boot_sound _ _ _) fillThenLogout_fills hreturned hstart⟩
  · unfold Interleaved.At
    decide +kernel
  · unfold Interleaved.At
    decide +kernel

/-- The first run finds the token not revoked, the logout revokes it and empties the cache, and the
first run then puts its answer there. -/
def lateFill : List (Nat × TaskInput) :=
  List.replicate 3 (1, plainInput) ++ logoutAlone ++ [(1, plainInput)]

/-- The second run begins after the logout has returned, and is let through. -/
theorem lateFill_lets_through :
    ¬∀ (libs : AuthLibs) (token refreshToken : List Char) (s : AuthState) (n time j : Nat)
        (past rest : List (Nat × TaskInput)), CacheSound libs s →
      ((AuthRace.start s n).run libs token refreshToken past).At 0 (.logout (.returned time)) →
        ((AuthRace.start s n).run libs token refreshToken past).At j (.auth .start) →
          ¬((AuthRace.start s n).run libs token refreshToken (past ++ rest)).At j
            (.auth (.done (.ok ()))) := by
  intro h
  apply h oneToken "t".toList stolenToken beforeExpiry 2 (1699999990 * second) 2 lateFill
    (List.replicate 2 (2, plainInput)) (boot_sound _ _ _)
  · unfold Interleaved.At
    decide +kernel
  · unfold Interleaved.At
    decide +kernel
  · unfold Interleaved.At
    decide +kernel

end AiFw.Auth
