import AiFw.Auth.RecoveryCodes
import AiFw.Auth.Sessions
import AiFw.Auth.Totp
import AiFw.Lib.Text

namespace AiFw.Auth
open AiFw.Lib
set_option autoImplicit true

/-- The failures counted for a key, and when their window began. -/
abbrev AttemptMap := KeyedMap (List Char) (Nat × Nat)

/-- The whole seconds since an instant in nanoseconds. -/
def numSeconds (now since : Nat) : Nat := (now - since) / second

def bump (m : AttemptMap) (key : List Char) (maxAttempts windowSecs now : Nat) :
    AttemptMap × Bool :=
  let m := m.retain fun _ e => numSeconds now e.2 ≤ windowSecs
  let entry := (m.lookup key).getD (0, now)
  if windowSecs < numSeconds now entry.2 then (m.insert key (1, now), false)
  else (m.insert key (entry.1 + 1, entry.2), maxAttempts ≤ entry.1 + 1)

def overCap (m : AttemptMap) (key : List Char) (maxAttempts windowSecs now : Nat) : Bool :=
  match m.lookup key with
  | some (count, since) => numSeconds now since ≤ windowSecs && maxAttempts ≤ count
  | none => false

structure LoginRateLimiter where
  byIp : AttemptMap
  byUser : AttemptMap
  maxAttempts : Nat
  windowSecs : Nat
  attempts_pos : 0 < maxAttempts
  window_pos : 0 < windowSecs

namespace LoginRateLimiter

def withLimits (maxAttempts : Nat) (windowSecs : Int) : LoginRateLimiter where
  byIp := ∅
  byUser := ∅
  maxAttempts := max maxAttempts 1
  windowSecs := (max windowSecs 1).toNat
  attempts_pos := Nat.lt_of_lt_of_le Nat.one_pos (Nat.le_max_right _ _)
  window_pos := by
    have hle : 1 ≤ max windowSecs 1 := le_max_right _ _
    exact Int.pos_iff_toNat_pos.mp (Int.lt_of_lt_of_le Int.one_pos hle)

def recordFailure (l : LoginRateLimiter) (now : Nat) (ip username : List Char) :
    LoginRateLimiter × Bool :=
  let a := bump l.byIp ip l.maxAttempts l.windowSecs now
  let b := bump l.byUser username l.maxAttempts l.windowSecs now
  ({ l with byIp := a.1, byUser := b.1 }, a.2 || b.2)

def isBlocked (l : LoginRateLimiter) (now : Nat) (ip username : List Char) : Bool :=
  overCap l.byIp ip l.maxAttempts l.windowSecs now ||
    overCap l.byUser username l.maxAttempts l.windowSecs now

def clear (l : LoginRateLimiter) (ip username : List Char) : LoginRateLimiter :=
  { l with byIp := l.byIp.erase ip, byUser := l.byUser.erase username }

end LoginRateLimiter

/-- What the handlers read of the account's row; the hash is the password it was made from. -/
structure LoginUser where
  id : List Char
  username : List Char
  passwordHash : List Char
  totpEnabled : Bool
  totpSecret : Option (List Char)
  enabled : Bool

inductive LoginAnswer where
  | tokens
  | totpRequired
deriving DecidableEq

/-- The clock in nanoseconds, the limiter and the recovery codes. -/
structure LoginState where
  now : Nat
  limiter : LoginRateLimiter
  recoveryCodes : List RecoveryRow

def LoginState.wait (s : LoginState) (elapsed : Nat) : LoginState :=
  { s with now := s.now + elapsed }

/-- What a handler leaves behind: the state, the answer, and whether it has recorded a failure. -/
structure LoginOutcome where
  state : LoginState
  answer : Except StatusCode LoginAnswer
  recorded : Bool

/-- A request naming the account, with the text of its `X-Forwarded-For` if there is one. -/
inductive LoginRequest where
  | login (forwardedFor : Option (List Char)) (password : List Char)
  | totpLogin (password totpCode : List Char)

/-- A request with what is outside: the time since the one before and the time the handler takes
to its verdict, and whether the account's row is read and the tokens are issued. -/
structure LoginCall where
  request : LoginRequest
  elapsed : Nat
  took : Nat
  found : Bool
  issued : Bool

namespace LoginUser

variable (user : LoginUser)

def clientIp (forwardedFor : Option (List Char)) : List Char :=
  match forwardedFor with
  | some s => trim ((splitOn ',' s).headD [])
  | none => "user:".toList ++ user.username

def rlUser : List Char := user.username.map Char.toLower

def issue (s : LoginState) (issued : Bool) : LoginOutcome :=
  ⟨s, if issued then .ok .tokens else .error .internalServerError, false⟩

def login (requireTotp : Bool) (s : LoginState) (c : LoginCall) (forwardedFor : Option (List Char))
    (password : List Char) : LoginOutcome :=
  let ip := user.clientIp forwardedFor
  if s.limiter.isBlocked s.now ip user.rlUser then ⟨s, .error .tooManyRequests, false⟩
  else
    let s := s.wait c.took
    if !c.found then ⟨s, .error .internalServerError, false⟩
    else if !user.enabled then ⟨s, .error .unauthorized, false⟩
    else if !verifyPassword password user.passwordHash then
      ⟨{ s with limiter := (s.limiter.recordFailure s.now ip user.rlUser).1 },
        .error .unauthorized, true⟩
    else
      let s := { s with limiter := s.limiter.clear ip user.rlUser }
      if user.totpEnabled then ⟨s, .ok .totpRequired, false⟩
      else if requireTotp && !user.totpEnabled then ⟨s, .ok .totpRequired, false⟩
      else issue s c.issued

/-- The code of the moment, or else a recovery code, with the rows of those after it. -/
def secondFactor (s : LoginState) (totpCode : List Char) : List RecoveryRow × Bool :=
  if user.totpSecret.any fun secret => verify (s.now / second) secret totpCode then
    (s.recoveryCodes, true)
  else useRecoveryCode s.recoveryCodes user.id totpCode

def totpLogin (s : LoginState) (c : LoginCall) (password totpCode : List Char) : LoginOutcome :=
  let s := s.wait c.took
  if !c.found then ⟨s, .error .internalServerError, false⟩
  else if !user.enabled then ⟨s, .error .unauthorized, false⟩
  else if !verifyPassword password user.passwordHash then ⟨s, .error .unauthorized, false⟩
  else
    let factor := user.secondFactor s totpCode
    let s := { s with recoveryCodes := factor.1 }
    if !factor.2 then ⟨s, .error .unauthorized, false⟩
    else issue s c.issued

def handle (requireTotp : Bool) (s : LoginState) (c : LoginCall) : LoginOutcome :=
  match c.request with
  | .login forwardedFor password => user.login requireTotp s c forwardedFor password
  | .totpLogin password totpCode => user.totpLogin s c password totpCode

end LoginUser

theorem lookup_bump_live {m : AttemptMap} (h : m.lookup key = some (count, since))
    (hlive : numSeconds now since ≤ windowSecs) (cap : Nat) :
    (bump m key cap windowSecs now).1.lookup key = some (count + 1, since) := by
  have hentry : (KeyedMap.retain (fun _ e => numSeconds now e.2 ≤ windowSecs) m).lookup key =
      some (count, since) := KeyedMap.lookup_retain.mpr ⟨h, decide_eq_true hlive⟩
  simp only [bump, hentry, Option.getD_some, if_neg (Nat.not_lt.mpr hlive)]
  exact AList.lookup_insert _

/-- A count that has expired starts again, at the failure. -/
theorem lookup_bump_expired {m : AttemptMap}
    (h : ∀ e, m.lookup key = some e → windowSecs < numSeconds now e.2) (cap : Nat) :
    (bump m key cap windowSecs now).1.lookup key = some (1, now) := by
  have hentry : (KeyedMap.retain (fun _ e => numSeconds now e.2 ≤ windowSecs) m).lookup key =
      none := by
    apply Option.eq_none_iff_forall_ne_some.mpr
    intro e he
    obtain ⟨hlookup, hlive⟩ := KeyedMap.lookup_retain.mp he
    exact absurd (of_decide_eq_true hlive) (Nat.not_le.mpr (h e hlookup))
  have hnow : ¬windowSecs < numSeconds now now := by
    rw [numSeconds, Nat.sub_self, Nat.zero_div]
    exact Nat.not_lt_zero _
  simp only [bump, hentry, Option.getD_none, if_neg hnow]
  exact AList.lookup_insert _

/-- Later on the count is no nearer to its cap: it has only aged. -/
theorem below_of_overCap {m : AttemptMap} (h : overCap m key cap windowSecs now = false)
    (hentry : m.lookup key = some (count, since)) (hnow : now ≤ later)
    (hlive : numSeconds later since ≤ windowSecs) : count < cap := by
  have hbefore : numSeconds now since ≤ windowSecs :=
    (Nat.div_le_div_right (Nat.sub_le_sub_right hnow since)).trans hlive
  simp only [overCap, hentry, decide_eq_true hbefore, Bool.true_and] at h
  exact Nat.not_le.mp (of_decide_eq_false h)

/-- How a `login` ends: turned away, with nothing recorded and the counts kept or cleared, or with
the failure recorded. -/
theorem LoginUser.login_cases (user : LoginUser) (requireTotp : Bool) (s : LoginState)
    (c : LoginCall) (forwardedFor : Option (List Char)) (password : List Char) :
    (s.limiter.isBlocked s.now (user.clientIp forwardedFor) user.rlUser = true ∧
      user.login requireTotp s c forwardedFor password =
        ⟨s, .error .tooManyRequests, false⟩) ∨
    (s.limiter.isBlocked s.now (user.clientIp forwardedFor) user.rlUser = false ∧
      c.found = true ∧ user.enabled = true ∧ verifyPassword password user.passwordHash = false ∧
      user.login requireTotp s c forwardedFor password =
        ⟨{ s.wait c.took with
          limiter := (s.limiter.recordFailure (s.now + c.took) (user.clientIp forwardedFor)
            user.rlUser).1 }, .error .unauthorized, true⟩) ∨
    (s.limiter.isBlocked s.now (user.clientIp forwardedFor) user.rlUser = false ∧
      (c.found = true → user.enabled = true → verifyPassword password user.passwordHash = true) ∧
      ∃ limiter answer, (limiter = s.limiter ∨
          limiter = s.limiter.clear (user.clientIp forwardedFor) user.rlUser) ∧
        user.login requireTotp s c forwardedFor password =
          ⟨{ s.wait c.took with limiter := limiter }, answer, false⟩) := by
  simp only [login]
  generalize user.clientIp forwardedFor = ip
  cases s.limiter.isBlocked s.now ip user.rlUser with
  | true => exact .inl ⟨rfl, rfl⟩
  | false =>
    refine .inr ?_
    cases c.found with
    | false => exact .inr ⟨rfl, (fun h => nomatch h), _, _, .inl rfl, rfl⟩
    | true =>
      cases user.enabled with
      | false => exact .inr ⟨rfl, (fun _ h => nomatch h), _, _, .inl rfl, rfl⟩
      | true =>
        cases verifyPassword password user.passwordHash with
        | false => exact .inl ⟨rfl, rfl, rfl, rfl, rfl⟩
        | true =>
          refine .inr ⟨rfl, fun _ _ => rfl, ?_⟩
          cases user.totpEnabled with
          | true => exact ⟨_, _, .inr rfl, rfl⟩
          | false =>
            cases requireTotp with
            | true => exact ⟨_, _, .inr rfl, rfl⟩
            | false => exact ⟨_, _, .inr rfl, rfl⟩

/-- A `totp_login` neither asks the limiter nor tells it. -/
theorem LoginUser.totpLogin_state (user : LoginUser) (s : LoginState) (c : LoginCall)
    (password totpCode : List Char) :
    (user.totpLogin s c password totpCode).state.limiter = s.limiter ∧
      (user.totpLogin s c password totpCode).state.now = s.now + c.took ∧
      (user.totpLogin s c password totpCode).recorded = false := by
  unfold totpLogin
  cases c.found with
  | false => exact ⟨rfl, rfl, rfl⟩
  | true =>
    cases user.enabled with
    | false => exact ⟨rfl, rfl, rfl⟩
    | true =>
      cases verifyPassword password user.passwordHash with
      | false => exact ⟨rfl, rfl, rfl⟩
      | true =>
        cases hfactor : (user.secondFactor (s.wait c.took) totpCode).2 with
        | false => simp only [hfactor]; exact ⟨rfl, rfl, rfl⟩
        | true => simp only [hfactor]; exact ⟨rfl, rfl, rfl⟩

end AiFw.Auth
