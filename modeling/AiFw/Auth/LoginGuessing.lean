import AiFw.Auth.LoginLimiter
import AiFw.Lib.Runs
import AiFw.Lib.StrikeWindow

namespace AiFw.Auth
open AiFw.Lib
set_option autoImplicit true

/-- A wrong password, or a right one with a wrong second factor. -/
def LoginUser.guesses (user : LoginUser) (s : LoginState) : LoginRequest → Bool
  | .login _ password => !verifyPassword password user.passwordHash
  | .totpLogin password totpCode =>
    !(verifyPassword password user.passwordHash && (user.secondFactor s totpCode).2)

/-- A guess that was answered with anything other than 429. -/
structure Guess where
  time : Nat
  recorded : Bool
deriving DecidableEq

/-- The server, and the guesses it has answered, the latest first. -/
structure LoginRun where
  state : LoginState
  guesses : List Guess

namespace LoginRun

def step (user : LoginUser) (requireTotp : Bool) (t : LoginRun) (c : LoginCall) : LoginRun :=
  let s := t.state.wait c.elapsed
  let outcome := user.handle requireTotp s c
  { state := outcome.state
    guesses :=
      if user.guesses (s.wait c.took) c.request && outcome.answer ≠ .error .tooManyRequests then
        ⟨outcome.state.now, outcome.recorded⟩ :: t.guesses
      else t.guesses }

/-- A server that has just started. -/
def boot (now maxAttempts : Nat) (windowSecs : Int) (recoveryCodes : List RecoveryRow) : LoginRun :=
  ⟨⟨now, .withLimits maxAttempts windowSecs, recoveryCodes⟩, []⟩

/-- A window that starts at a recorded failure holds no more answered guesses than the limiter
allows attempts. -/
def Bounded (t : LoginRun) : Prop :=
  ∀ e ∈ t.guesses, e.recorded = true →
    t.guesses.countP (fun g => e.time ≤ g.time &&
      g.time ≤ e.time + t.state.limiter.windowSecs * second) ≤ t.state.limiter.maxAttempts

end LoginRun

/-- The count the limiter holds against a name at a time. -/
def LoginRateLimiter.held (l : LoginRateLimiter) (now : Nat) (username : List Char) :
    Option (Nat × Nat) :=
  (l.byUser.lookup username).filter fun e => numSeconds now e.2 ≤ l.windowSecs

/-- A guess at an enabled account goes to `login`; unless it is blocked the row of the account is
read, and the limiter then holds a count against the name or has no failure on record that is
younger than its window. -/
def Limited (user : LoginUser) (t : LoginRun) (c : LoginCall) : Prop :=
  let s := t.state.wait c.elapsed
  let later := s.wait c.took
  user.enabled = true → user.guesses later c.request = true →
    ∃ forwardedFor password, c.request = .login forwardedFor password ∧
      (s.limiter.isBlocked s.now (user.clientIp forwardedFor) user.rlUser = false →
        c.found = true ∧ (later.limiter.held later.now user.rlUser = none →
          ∀ e ∈ t.guesses, e.recorded = true →
            e.time + later.limiter.windowSecs * second < later.now))

/-- The limiter counts what it has recorded against the name, which is every guess answered. -/
structure Counted (user : LoginUser) (t : LoginRun) : Prop where
  recorded : ∀ g ∈ t.guesses, g.recorded = true
  counter : StrikeCounter t.state.limiter.maxAttempts (t.state.limiter.windowSecs * second)
    (t.guesses.map Guess.time) t.state.now (t.state.limiter.byUser.lookup user.rlUser)

theorem Counted.bounded (h : Counted user t) : t.Bounded := by
  intro e he _
  have hcap := h.counter.capped e.time (List.mem_map_of_mem he)
  rw [strikesIn, List.countP_map] at hcap
  exact hcap

/-- Nothing is answered, and the counts are kept or dropped. -/
theorem Counted.keep (h : Counted user t) (hnow : t.state.now ≤ s.now)
    (hlimiter : s.limiter = t.state.limiter ∨ ∃ ip, s.limiter = t.state.limiter.clear ip user.rlUser) :
    Counted user ⟨s, t.guesses⟩ := by
  refine ⟨h.recorded, ?_⟩
  obtain hl | ⟨ip, hl⟩ := hlimiter
  · rw [hl]
    exact h.counter.wait hnow
  · rw [hl]
    change StrikeCounter _ _ _ _ (AList.lookup user.rlUser (t.state.limiter.byUser.erase user.rlUser))
    rw [AList.lookup_erase]
    exact h.counter.forget.wait hnow

/-- A recorded failure is a strike of the counter, or the first of a new one. -/
theorem Counted.failure (h : Counted user t) (hnow : t.state.now ≤ now) (hlater : now ≤ later)
    (hfree : t.state.limiter.isBlocked now ip user.rlUser = false)
    (hold : t.state.limiter.held later user.rlUser = none →
      ∀ e ∈ t.guesses, e.recorded = true →
        e.time + t.state.limiter.windowSecs * second < later) :
    Counted user ⟨⟨later, (t.state.limiter.recordFailure later ip user.rlUser).1, codes⟩,
      ⟨later, true⟩ :: t.guesses⟩ := by
  have hcounter := h.counter.wait (hnow.trans hlater)
  have huser : overCap t.state.limiter.byUser user.rlUser t.state.limiter.maxAttempts
      t.state.limiter.windowSecs now = false := (Bool.or_eq_false_iff.mp hfree).2
  refine ⟨?_, ?_⟩
  · intro g hg
    obtain rfl | hg := List.mem_cons.mp hg
    · rfl
    · exact h.recorded g hg
  · change StrikeCounter t.state.limiter.maxAttempts (t.state.limiter.windowSecs * second)
      (later :: t.guesses.map Guess.time) later ((bump t.state.limiter.byUser user.rlUser
        t.state.limiter.maxAttempts t.state.limiter.windowSecs later).1.lookup user.rlUser)
    cases hheld : t.state.limiter.held later user.rlUser with
    | some e =>
      obtain ⟨hentry, hlive⟩ := Option.filter_eq_some_iff.mp hheld
      have hlive := of_decide_eq_true hlive
      rw [lookup_bump_live hentry hlive]
      rw [hentry] at hcounter
      exact hcounter.strike (below_of_overCap huser hentry hlater hlive)
    | none =>
      have hexpired : ∀ e, t.state.limiter.byUser.lookup user.rlUser = some e →
          t.state.limiter.windowSecs < numSeconds later e.2 := by
        intro e he
        rw [LoginRateLimiter.held, he, Option.filter_eq_none_iff] at hheld
        exact Nat.not_le.mp fun hle => hheld e rfl (decide_eq_true hle)
      rw [lookup_bump_expired hexpired]
      apply hcounter.restart t.state.limiter.attempts_pos
      intro time htime
      obtain ⟨g, hg, rfl⟩ := List.mem_map.mp htime
      exact hold hheld g hg (h.recorded g hg)

theorem Counted.step (henabled : user.enabled = true) (h : Counted user t)
    (hc : Limited user t c) : Counted user (t.step user requireTotp c) := by
  have hwait : t.state.now ≤ t.state.now + c.elapsed := Nat.le_add_right _ _
  have hend : t.state.now ≤ t.state.now + c.elapsed + c.took := hwait.trans (Nat.le_add_right _ _)
  have hc := hc henabled
  obtain ⟨request, elapsed, took, found, issued⟩ := c
  cases request with
  | totpLogin password totpCode =>
    obtain ⟨hlimiter, hnow, -⟩ := user.totpLogin_state (t.state.wait elapsed)
      ⟨.totpLogin password totpCode, elapsed, took, found, issued⟩ password totpCode
    have hright : user.guesses ((t.state.wait elapsed).wait took) (.totpLogin password totpCode) =
        false := by
      apply Bool.eq_false_iff.mpr
      intro hguess
      obtain ⟨_, _, hlogin, _⟩ := hc hguess
      cases hlogin
    simp only [LoginRun.step, hright, Bool.false_and, Bool.false_eq_true, if_false]
    exact h.keep (hend.trans_eq hnow.symm) (.inl hlimiter)
  | login forwardedFor password =>
    have hout : user.handle requireTotp (t.state.wait elapsed)
        ⟨.login forwardedFor password, elapsed, took, found, issued⟩ =
          user.login requireTotp (t.state.wait elapsed)
            ⟨.login forwardedFor password, elapsed, took, found, issued⟩ forwardedFor password := rfl
    obtain ⟨-, hlogin⟩ | ⟨hfree, -, -, hwrong, hlogin⟩ | ⟨hfree, hright, limiter, answer, hkept, hlogin⟩ :=
      user.login_cases requireTotp (t.state.wait elapsed)
        ⟨.login forwardedFor password, elapsed, took, found, issued⟩ forwardedFor password
    · simp only [LoginRun.step, hout, hlogin, ne_eq, not_true_eq_false, decide_false, Bool.and_false,
        Bool.false_eq_true, if_false]
      exact h.keep hwait (.inl rfl)
    · have hguess : user.guesses ((t.state.wait elapsed).wait took) (.login forwardedFor password) =
          true := by
        rw [LoginUser.guesses, hwrong]
        rfl
      obtain ⟨_, _, hreq, hrest⟩ := hc hguess
      cases hreq
      obtain ⟨-, hold⟩ := hrest hfree
      simp only [LoginRun.step, hout, hlogin, hguess, Bool.true_and]
      exact h.failure hwait (Nat.le_add_right _ _) hfree hold
    · have hguess : user.guesses ((t.state.wait elapsed).wait took) (.login forwardedFor password) =
          false := by
        apply Bool.eq_false_iff.mpr
        intro hguess
        obtain ⟨_, _, hreq, hrest⟩ := hc hguess
        cases hreq
        rw [LoginUser.guesses, hright (hrest hfree).1 henabled] at hguess
        cases hguess
      simp only [LoginRun.step, hout, hlogin, hguess, Bool.false_and, Bool.false_eq_true, if_false]
      exact h.keep hend (hkept.imp_right fun hl => ⟨_, hl⟩)

/-- Nobody records a failure against a disabled account. -/
theorem unrecorded_step {user : LoginUser} {t : LoginRun} (henabled : user.enabled = false)
    (h : ∀ g ∈ t.guesses, g.recorded = false) (requireTotp : Bool) (c : LoginCall) :
    ∀ g ∈ (t.step user requireTotp c).guesses, g.recorded = false := by
  have hout : (user.handle requireTotp (t.state.wait c.elapsed) c).recorded = false := by
    unfold LoginUser.handle
    split
    · obtain ⟨-, hlogin⟩ | ⟨-, -, hon, -⟩ | ⟨-, -, _, _, -, hlogin⟩ :=
        user.login_cases requireTotp (t.state.wait c.elapsed) c _ _
      · rw [hlogin]
      · rw [henabled] at hon
        cases hon
      · rw [hlogin]
    · exact (user.totpLogin_state _ c _ _).2.2
  intro g hg
  simp only [LoginRun.step] at hg
  split at hg
  · obtain rfl | hg := List.mem_cons.mp hg
    · exact hout
    · exact h g hg
  · exact h g hg

theorem guesses_bounded_of_limited (user : LoginUser) (requireTotp : Bool) (now maxAttempts : Nat)
    (windowSecs : Int) (recoveryCodes : List RecoveryRow) (calls : List LoginCall)
    (h : Along (LoginRun.step user requireTotp) (Limited user)
      (.boot now maxAttempts windowSecs recoveryCodes) calls) (hp : past <+: calls) :
    (past.foldl (LoginRun.step user requireTotp)
      (.boot now maxAttempts windowSecs recoveryCodes)).Bounded := by
  cases henabled : user.enabled with
  | true =>
    apply Counted.bounded
    apply Along.reaches (Counted user) (fun _ _ => Counted.step henabled) _ h hp
    exact ⟨List.forall_mem_nil _, StrikeCounter.nil _ _ _⟩
  | false =>
    have hnone := Along.reaches (fun t : LoginRun => ∀ g ∈ t.guesses, g.recorded = false)
      (fun _ c hs _ => unrecorded_step henabled hs requireTotp c)
      (List.forall_mem_nil _) h hp
    intro e he hrec
    rw [hnone e he] at hrec
    cases hrec

namespace GuessSample

def user : LoginUser := ⟨"u1".toList, "admin".toList, "secret".toList, true, none, true⟩

def wrongLogin (xff : List Char) (elapsed : Nat) : LoginCall :=
  ⟨.login (some xff) "guess".toList, elapsed, 0, true, true⟩

def wrongTotpLogin : LoginCall := ⟨.totpLogin "secret".toList "000000".toList, second, 0, true, true⟩

def boot : LoginRun := .boot 0 2 300 []

end GuessSample

/-- One failure is recorded, and then every code guessed is answered. -/
theorem totpLogin_unlimited : ¬∀ (user : LoginUser) (requireTotp : Bool) (now maxAttempts : Nat)
    (windowSecs : Int) (recoveryCodes : List RecoveryRow) (calls : List LoginCall),
    (calls.foldl (LoginRun.step user requireTotp)
      (.boot now maxAttempts windowSecs recoveryCodes)).Bounded := by
  intro h
  have hbounded := h GuessSample.user false 0 2 300 []
    [GuessSample.wrongLogin "10.0.0.1".toList second, GuessSample.wrongTotpLogin,
      GuessSample.wrongTotpLogin]
  exact absurd (hbounded ⟨second, true⟩ (by decide) rfl) (by decide)

/-- With the address rotated the second failure is the last before the window has passed. -/
theorem guesses_bounded_of_limited_rotating : LoginRun.Bounded
    ([GuessSample.wrongLogin "10.0.0.1".toList second, GuessSample.wrongLogin "10.0.0.2".toList second,
      GuessSample.wrongLogin "10.0.0.3".toList second].foldl (LoginRun.step GuessSample.user false)
        GuessSample.boot) := by
  apply guesses_bounded_of_limited GuessSample.user false 0 2 300 [] _ ?_ (List.prefix_refl _)
  refine ⟨?_, ?_, ?_, trivial⟩
  · intro _ _
    exact ⟨_, _, rfl, fun _ => ⟨rfl, fun _ _ he => nomatch he⟩⟩
  · intro _ _
    exact ⟨_, _, rfl, fun _ => ⟨rfl, fun hnone => absurd hnone (by decide)⟩⟩
  · intro _ _
    exact ⟨_, _, rfl, fun hfree => absurd hfree (by decide)⟩

end AiFw.Auth
