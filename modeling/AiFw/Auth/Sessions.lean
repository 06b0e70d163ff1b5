import AiFw.Auth.TokenFamily
import AiFw.Lib.KeyedMap

namespace AiFw.Auth
open AiFw.Lib
set_option autoImplicit true

/-- The claims of an access token that say when it dies and how it is revoked. -/
structure Claims where
  exp : Int
  jti : List Char
deriving DecidableEq

/-- What the libraries make of a token and of the times: the claims of a correctly signed token,
and the RFC 3339 texts of an instant in nanoseconds and of an expiry in seconds. -/
structure AuthLibs where
  decode : List Char → Option Claims
  nowText : Nat → List Char
  expText : Int → List Char

structure RevokedRow where
  jti : List Char
  expiresAt : List Char
deriving DecidableEq

/-- The clock in nanoseconds, the two caches with the deadlines of their entries, and the tables. -/
structure AuthState where
  now : Nat
  tokenCache : KeyedMap (List Char) (Claims × Nat)
  jtiCache : KeyedMap (List Char) (Bool × Nat)
  revokedTokens : List RevokedRow
  refreshTokens : List TokenRow

def second : Nat := 1000000000

/-- How long after its expiry a token is still accepted, in seconds. -/
def leeway : Int := 60

def authJtiCacheTtl : Nat := 60 * second

def authTokenCacheTtl : Nat := 60

def authTokenCacheMax : Nat := 10000

def tokenCacheTtlSecs (exp now : Int) : Nat := min (max (exp - now) 0).toNat authTokenCacheTtl

namespace AuthState

/-- A server that has just started, with the tables as it finds them. -/
def boot (now : Nat) (revokedTokens : List RevokedRow) (refreshTokens : List TokenRow) :
    AuthState := ⟨now, ∅, ∅, revokedTokens, refreshTokens⟩

def wait (s : AuthState) (elapsed : Nat) : AuthState := { s with now := s.now + elapsed }

def timestamp (s : AuthState) : Int := (s.now / second : Nat)

variable (libs : AuthLibs)

def verifyAccessToken (s : AuthState) (token : List Char) : Option Claims :=
  (libs.decode token).filter fun c => s.timestamp ≤ c.exp + leeway

/-- The claims of a token, from a live entry of the cache or decoded, and the cache after it. -/
def tokenClaims (s : AuthState) (token : List Char) :
    KeyedMap (List Char) (Claims × Nat) × Option Claims :=
  match (s.tokenCache.lookup token).filter fun e => s.now < e.2 with
  | some entry => (s.tokenCache, some entry.1)
  | none =>
    match s.verifyAccessToken libs token with
    | none => (s.tokenCache, none)
    | some claims =>
      let deadline := s.now + tokenCacheTtlSecs claims.exp s.timestamp * second
      let cache :=
        if authTokenCacheMax ≤ KeyedMap.size s.tokenCache then
          KeyedMap.retain (fun _ e => s.now < e.2) s.tokenCache
        else s.tokenCache
      (cache.insert token (claims, deadline), some claims)

/-- The live entry for a token id, at an instant read before. -/
def cachedRevoked (s : AuthState) (now : Nat) (jti : List Char) : Option Bool :=
  ((s.jtiCache.lookup jti).filter fun e => now < e.2).map Prod.fst

/-- A query that fails says that the token is not revoked. -/
def isTokenRevoked (ok : Bool) (s : AuthState) (jti : List Char) : Bool :=
  ok && hasKey RevokedRow.jti jti s.revokedTokens

def cacheJti (s : AuthState) (now : Nat) (jti : List Char) (revoked : Bool) : AuthState :=
  { s with jtiCache := s.jtiCache.insert jti (revoked, now + authJtiCacheTtl) }

/-- The token branch of the middleware; `account` is what the look at the user, the permissions and
the plugins comes to. -/
def authMiddleware (ok : Bool) (s : AuthState) (token : List Char)
    (account : Except StatusCode Unit) : AuthState × Except StatusCode Unit :=
  match s.tokenClaims libs token with
  | (cache, none) => ({ s with tokenCache := cache }, .error .unauthorized)
  | (cache, some claims) =>
    let s := { s with tokenCache := cache }
    match s.cachedRevoked s.now claims.jti with
    | some revoked => (s, if revoked then .error .unauthorized else account)
    | none =>
      let revoked := isTokenRevoked ok s claims.jti
      (s.cacheJti s.now claims.jti revoked, if revoked then .error .unauthorized else account)

/-- `INSERT OR IGNORE`. -/
def revokeAccessToken (ok : Bool) (s : AuthState) (claims : Claims) : AuthState :=
  if ok && !hasKey RevokedRow.jti claims.jti s.revokedTokens then
    { s with revokedTokens := s.revokedTokens ++ [⟨claims.jti, libs.expText claims.exp⟩] }
  else s

def removeJti (s : AuthState) (jti : List Char) : AuthState :=
  { s with jtiCache := s.jtiCache.erase jti }

/-- The handler, with the token the request carries; what the revocation says is ignored. -/
def logout (ok : Bool) (s : AuthState) (token refreshToken : List Char) :
    AuthState × Except StatusCode Unit :=
  match revokeRefreshToken s.refreshTokens refreshToken with
  | (_, .error _) => (s, .error .badRequest)
  | (rows, .ok ()) =>
    let s := { s with refreshTokens := rows }
    match s.verifyAccessToken libs token with
    | none => (s, .ok ())
    | some claims => ((s.revokeAccessToken libs ok claims).removeJti claims.jti, .ok ())

/-- A logout goes through the middleware first. -/
def logoutRequest (s : AuthState) (token refreshToken : List Char)
    (account : Except StatusCode Unit) : AuthState × Except StatusCode Unit :=
  match s.authMiddleware libs true token account with
  | (s, .error status) => (s, .error status)
  | (s, .ok ()) => s.logout libs true token refreshToken

/-- The texts are compared as strings. -/
def cleanupRevokedTokens (s : AuthState) : AuthState :=
  { s with revokedTokens := s.revokedTokens.filter fun r => !decide (r.expiresAt < libs.nowText s.now) }

end AuthState

variable {libs : AuthLibs} {s : AuthState}

/-- The entry of a token holds its claims and is dead when the token has expired. -/
def CachedWell (libs : AuthLibs) (now : Nat) (token : List Char) (entry : Claims × Nat) : Prop :=
  libs.decode token = some entry.1 ∧
    (entry.2 ≤ now ∨ (entry.2 : Int) < (entry.1.exp + 1) * second)

def CacheSound (libs : AuthLibs) (s : AuthState) : Prop :=
  KeyedMap.Forall (CachedWell libs s.now) s.tokenCache

theorem lt_timestamp (s : AuthState) : (s.now : Int) < (s.timestamp + 1) * second := by
  unfold AuthState.timestamp second
  omega

theorem timestamp_le (h : (s.now : Int) < (exp + 1) * second) : s.timestamp ≤ exp := by
  unfold AuthState.timestamp
  unfold second at h ⊢
  omega

theorem verifyAccessToken_some (h : s.verifyAccessToken libs token = some claims) :
    libs.decode token = some claims ∧ s.timestamp ≤ claims.exp + leeway := by
  obtain ⟨hdecode, hexp⟩ := Option.filter_eq_some_iff.mp h
  exact ⟨hdecode, of_decide_eq_true hexp⟩

/-- A decoded token is not kept beyond its expiry. -/
theorem deadline_lt (s : AuthState) (exp : Int) :
    s.now + tokenCacheTtlSecs exp s.timestamp * second ≤ s.now ∨
      ((s.now + tokenCacheTtlSecs exp s.timestamp * second : Nat) : Int) < (exp + 1) * second := by
  have hnow := lt_timestamp s
  have hmin : tokenCacheTtlSecs exp s.timestamp ≤ (max (exp - s.timestamp) 0).toNat :=
    Nat.min_le_left _ _
  unfold second at hnow ⊢
  omega

theorem CacheSound.tokenClaims (h : CacheSound libs s) (token : List Char) :
    KeyedMap.Forall (CachedWell libs s.now) (s.tokenClaims libs token).1 := by
  unfold AuthState.tokenClaims
  split
  · exact h
  · split
    · exact h
    · next claims hverify =>
      apply KeyedMap.Forall.insert
      · split
        · exact KeyedMap.Forall.retain h _
        · exact h
      · exact ⟨(verifyAccessToken_some hverify).1, deadline_lt s claims.exp⟩

/-- Whether from the cache or not, the claims are those of a token that is still accepted. -/
theorem CacheSound.accepted (h : CacheSound libs s)
    (hclaims : (s.tokenClaims libs token).2 = some claims) :
    libs.decode token = some claims ∧ s.timestamp ≤ claims.exp + leeway := by
  unfold AuthState.tokenClaims at hclaims
  split at hclaims
  · next entry hentry =>
    obtain ⟨hlookup, hlive⟩ := Option.filter_eq_some_iff.mp hentry
    obtain ⟨hdecode, hdead | hexp⟩ := h token entry hlookup
    · exact absurd (of_decide_eq_true hlive) (Nat.not_lt.mpr hdead)
    · rw [← Option.some.inj hclaims]
      refine ⟨hdecode, ?_⟩
      have hlt : (s.now : Int) < (entry.1.exp + 1) * second :=
        lt_trans (Int.ofNat_lt.mpr (of_decide_eq_true hlive)) hexp
      exact (timestamp_le hlt).trans (by unfold leeway; omega)
  · split at hclaims
    · cases hclaims
    · next claims' hverify =>
      rw [← Option.some.inj hclaims]
      exact verifyAccessToken_some hverify

end AiFw.Auth
