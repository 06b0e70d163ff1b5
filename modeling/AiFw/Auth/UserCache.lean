import AiFw.Auth.Roles
import AiFw.Auth.Sessions
import AiFw.Lib.Runs

namespace AiFw.Auth
open AiFw.Lib
set_option autoImplicit true

def authUserCacheTtl : Nat := 5 * second

/-- The clock, the table of users by their ids, and the cache of the middleware. -/
structure UserStore where
  now : Nat
  users : List Char → Option User
  cache : KeyedMap (List Char) (User × Nat)

/-- Where the middleware stands that looks up the user of a request. The instant it keeps is the one
it read first. -/
inductive LookupPhase where
  | start
  | clocked (now : Nat)
  | missed (now : Nat)
  | loaded (now : Nat) (user : User)
  | done (now : Nat) (user : Option User)

/-- Where a change of an account stands: the handlers of the API drop the cached row afterwards, a
command of the command line does not. -/
inductive ChangePhase where
  | start
  | written
  | returned

inductive UserTask where
  | lookup (userId : List Char) (phase : LookupPhase)
  | handler (userId : List Char) (row : Option User) (phase : ChangePhase)
  | command (userId : List Char) (row : Option User) (phase : ChangePhase)

namespace UserStore

def wait (s : UserStore) (elapsed : Nat) : UserStore := { s with now := s.now + elapsed }

def write (s : UserStore) (userId : List Char) (row : Option User) : UserStore :=
  { s with users := fun id => if id = userId then row else s.users id }

/-- The live entry of the cache for the user. -/
def cached (s : UserStore) (userId : List Char) (now : Nat) : Option User :=
  ((s.cache.lookup userId).filter fun e => decide (now < e.2)).map Prod.fst

end UserStore

def lookupStep (userId : List Char) (s : UserStore) : LookupPhase → UserStore × LookupPhase
  | .start => (s, .clocked s.now)
  | .clocked now =>
    match s.cached userId now with
    | some user => (s, .done now (some user))
    | none => (s, .missed now)
  | .missed now =>
    match s.users userId with
    | some user => (s, .loaded now user)
    | none => (s, .done now none)
  | .loaded now user =>
    ({ s with cache := s.cache.insert userId (user, now + authUserCacheTtl) }, .done now (some user))
  | .done now user => (s, .done now user)

def handlerStep (userId : List Char) (row : Option User) (s : UserStore) :
    ChangePhase → UserStore × ChangePhase
  | .start => (s.write userId row, .written)
  | .written => ({ s with cache := s.cache.erase userId }, .returned)
  | .returned => (s, .returned)

def commandStep (userId : List Char) (row : Option User) (s : UserStore) :
    ChangePhase → UserStore × ChangePhase
  | .start => (s.write userId row, .returned)
  | .written => (s, .returned)
  | .returned => (s, .returned)

/-- A step of a task, some time after the last step of any task. -/
def userStep (elapsed : Nat) (s : UserStore) : UserTask → UserStore × UserTask
  | .lookup userId phase =>
    ((lookupStep userId (s.wait elapsed) phase).1,
      .lookup userId (lookupStep userId (s.wait elapsed) phase).2)
  | .handler userId row phase =>
    ((handlerStep userId row (s.wait elapsed) phase).1,
      .handler userId row (handlerStep userId row (s.wait elapsed) phase).2)
  | .command userId row phase =>
    ((commandStep userId row (s.wait elapsed) phase).1,
      .command userId row (commandStep userId row (s.wait elapsed) phase).2)

abbrev UserRace := Interleaved UserStore UserTask

namespace UserRace

def run (s : UserRace) (events : List (Nat × Nat)) : UserRace :=
  events.foldl (Interleaved.step userStep) s

/-- The server has just started: nothing is cached and no request has begun. -/
structure Started (s : UserRace) : Prop where
  cache : s.shared.cache = ∅
  lookups : ∀ i userId phase, s.At i (.lookup userId phase) → phase = .start

/-- The row was stored at some moment of the run, at the instant or later. -/
def StoredSince (s : UserRace) (events : List (Nat × Nat)) (userId : List Char) (user : User)
    (time : Nat) : Prop :=
  ∃ past, past <+: events ∧ (run s past).shared.users userId = some user ∧
    time ≤ (run s past).shared.now

theorem StoredSince.mono (h : StoredSince s events userId user time) (e : Nat × Nat) :
    StoredSince s (events ++ [e]) userId user time := by
  obtain ⟨past, hpast, hrow, htime⟩ := h
  exact ⟨past, hpast.trans (List.prefix_append events [e]), hrow, htime⟩

end UserRace

/-- What is known of a request that has got so far. -/
def LookupPhase.Backed (s : UserRace) (events : List (Nat × Nat)) (userId : List Char) :
    LookupPhase → Prop
  | .start => True
  | .clocked now | .missed now => now ≤ (s.run events).shared.now
  | .loaded now user => s.StoredSince events userId user now
  | .done now user => ∀ u, user = some u →
      ∃ time, now < time + authUserCacheTtl ∧ s.StoredSince events userId u time

namespace UserRace

/-- Every entry of the cache and every request goes back to a row that was stored. -/
structure Backed (s : UserRace) (events : List (Nat × Nat)) : Prop where
  cache : ∀ userId user deadline,
    (s.run events).shared.cache.lookup userId = some (user, deadline) →
      ∃ time, deadline = time + authUserCacheTtl ∧ s.StoredSince events userId user time
  lookups : ∀ i userId phase, (s.run events).At i (.lookup userId phase) →
    phase.Backed s events userId

theorem run_snoc (s : UserRace) (events : List (Nat × Nat)) (e : Nat × Nat) :
    s.run (events ++ [e]) = (s.run events).step userStep e := by
  rw [run, List.foldl_append]
  rfl

end UserRace

theorem userStep_now (elapsed : Nat) (s : UserStore) (task : UserTask) :
    (userStep elapsed s task).1.now = s.now + elapsed := by
  cases task with
  | lookup userId phase =>
    cases phase with
    | start => rfl
    | clocked now =>
      rw [userStep, lookupStep]
      cases (s.wait elapsed).cached userId now <;> rfl
    | missed now =>
      rw [userStep, lookupStep]
      cases (s.wait elapsed).users userId <;> rfl
    | loaded now user => rfl
    | done now user => rfl
  | handler userId row phase => cases phase <;> rfl
  | command userId row phase => cases phase <;> rfl

namespace UserRace

variable {s : UserRace} {events : List (Nat × Nat)}

theorem now_step (s : UserRace) (events : List (Nat × Nat)) (e : Nat × Nat) :
    (s.run events).shared.now ≤ (s.run (events ++ [e])).shared.now := by
  rw [run_snoc]
  obtain hsame | ⟨task, -, hshared, -⟩ := (s.run events).step_cases userStep e
  · rw [hsame]
  · rw [hshared, userStep_now]
    exact Nat.le_add_right _ _

theorem now_append (s : UserRace) (events rest : List (Nat × Nat)) :
    (s.run events).shared.now ≤ (s.run (events ++ rest)).shared.now := by
  induction rest using List.reverseRecOn with
  | nil => rw [List.append_nil]
  | append_singleton rest e ih =>
    rw [← List.append_assoc]
    exact ih.trans (s.now_step (events ++ rest) e)

end UserRace

theorem LookupPhase.Backed.mono (h : LookupPhase.Backed s events userId phase) (e : Nat × Nat) :
    LookupPhase.Backed s (events ++ [e]) userId phase := by
  cases phase with
  | start => trivial
  | clocked now => exact Nat.le_trans h (s.now_step events e)
  | missed now => exact Nat.le_trans h (s.now_step events e)
  | loaded now user => exact UserRace.StoredSince.mono h e
  | done now user =>
    intro u hu
    obtain ⟨time, hnow, hstored⟩ := h u hu
    exact ⟨time, hnow, hstored.mono e⟩

theorem UserStore.cached_eq_some {s : UserStore} (h : s.cached userId instant = some user) :
    ∃ deadline, s.cache.lookup userId = some (user, deadline) ∧ instant < deadline := by
  rw [cached, Option.map_eq_some_iff] at h
  obtain ⟨entry, hentry, rfl⟩ := h
  obtain ⟨hlookup, hlive⟩ := Option.filter_eq_some_iff.mp hentry
  exact ⟨entry.2, hlookup, of_decide_eq_true hlive⟩

/-- An entry of the cache was there before, or the request that loaded it puts it there. -/
theorem userStep_cache (elapsed : Nat) (s : UserStore) (task : UserTask)
    (h : (userStep elapsed s task).1.cache.lookup userId = some (user, deadline)) :
    s.cache.lookup userId = some (user, deadline) ∨
      ∃ now, task = .lookup userId (.loaded now user) ∧ deadline = now + authUserCacheTtl := by
  cases task with
  | lookup userId' phase =>
    cases phase with
    | start => exact .inl h
    | clocked now =>
      rw [userStep, lookupStep] at h
      cases hcached : (s.wait elapsed).cached userId' now with
      | none =>
        rw [hcached] at h
        exact .inl h
      | some found =>
        rw [hcached] at h
        exact .inl h
    | missed now =>
      rw [userStep, lookupStep] at h
      cases hrow : (s.wait elapsed).users userId' with
      | none =>
        rw [hrow] at h
        exact .inl h
      | some found =>
        rw [hrow] at h
        exact .inl h
    | loaded now found =>
      change (AList.insert userId' (found, now + authUserCacheTtl) s.cache).lookup userId = _ at h
      by_cases hid : userId = userId'
      · subst hid
        rw [AList.lookup_insert] at h
        cases h
        exact .inr ⟨now, rfl, rfl⟩
      · rw [AList.lookup_insert_ne hid] at h
        exact .inl h
    | done now found => exact .inl h
  | handler userId' row phase =>
    cases phase with
    | start => exact .inl h
    | written =>
      change (AList.erase userId' s.cache).lookup userId = _ at h
      by_cases hid : userId = userId'
      · subst hid
        rw [AList.lookup_erase] at h
        cases h
      · rw [AList.lookup_erase_ne hid] at h
        exact .inl h
    | returned => exact .inl h
  | command userId' row phase =>
    cases phase <;> exact .inl h

namespace UserRace

variable {s : UserRace} {events : List (Nat × Nat)}

/-- A request that takes a step goes back to a row that was stored, as it did before. -/
theorem Backed.lookup_step (h : s.Backed events) (e : Nat × Nat)
    (hshared : (s.run (events ++ [e])).shared =
      (userStep e.2 (s.run events).shared (.lookup userId phase)).1)
    (hphase : phase.Backed s events userId) :
    LookupPhase.Backed s (events ++ [e]) userId
      (lookupStep userId ((s.run events).shared.wait e.2) phase).2 := by
  cases phase with
  | start =>
    change _ ≤ (s.run (events ++ [e])).shared.now
    rw [hshared, userStep_now]
    exact Nat.le_refl _
  | clocked now =>
    rw [lookupStep]
    cases hcached : ((s.run events).shared.wait e.2).cached userId now with
    | none => exact hphase.mono e
    | some user =>
      intro u hu
      cases hu
      obtain ⟨deadline, hentry, hlive⟩ := UserStore.cached_eq_some hcached
      obtain ⟨time, rfl, hstored⟩ := h.cache userId user deadline hentry
      exact ⟨time, hlive, hstored.mono e⟩
  | missed now =>
    rw [lookupStep]
    cases hrow : ((s.run events).shared.wait e.2).users userId with
    | none =>
      intro u hu
      cases hu
    | some user =>
      have hnow : now ≤ (s.run events).shared.now := hphase
      refine ⟨events, List.prefix_append events [e], hrow, hnow⟩
  | loaded now user =>
    intro u hu
    cases hu
    have hstored : s.StoredSince events userId user now := hphase
    exact ⟨now, Nat.lt_add_of_pos_right (by decide), hstored.mono e⟩
  | done now user => exact hphase.mono e

theorem Backed.snoc (h : s.Backed events) (e : Nat × Nat) : s.Backed (events ++ [e]) := by
  obtain hsame | ⟨task, htask, hshared, hat⟩ := (s.run events).step_cases userStep e
  · rw [← run_snoc] at hsame
    constructor
    case cache =>
      intro userId user deadline hentry
      rw [hsame] at hentry
      obtain ⟨time, hdeadline, hstored⟩ := h.cache userId user deadline hentry
      exact ⟨time, hdeadline, hstored.mono e⟩
    case lookups =>
      intro i userId phase hi
      rw [hsame] at hi
      exact (h.lookups i userId phase hi).mono e
  · rw [← run_snoc] at hshared hat
    constructor
    case cache =>
      intro userId user deadline hentry
      rw [hshared] at hentry
      obtain hold | ⟨now, rfl, hdeadline⟩ := userStep_cache e.2 _ task hentry
      · obtain ⟨time, hdeadline, hstored⟩ := h.cache userId user deadline hold
        exact ⟨time, hdeadline, hstored.mono e⟩
      · have hstored : s.StoredSince events userId user now := h.lookups e.1 userId _ htask
        exact ⟨now, hdeadline, hstored.mono e⟩
    case lookups =>
      intro i userId phase hi
      obtain ⟨rfl, hphase⟩ | ⟨-, hold⟩ := (hat i _).mp hi
      · cases task with
        | lookup userId' phase' =>
          cases hphase
          exact h.lookup_step e hshared (h.lookups e.1 _ phase' htask)
        | handler userId' row phase' => cases hphase
        | command userId' row phase' => cases hphase
      · exact (h.lookups i userId phase hold).mono e

theorem Started.backed (h : s.Started) (events : List (Nat × Nat)) : s.Backed events := by
  induction events using List.reverseRecOn with
  | nil =>
    constructor
    case cache =>
      intro userId user deadline hentry
      change s.shared.cache.lookup userId = _ at hentry
      rw [h.cache, AList.lookup_empty] at hentry
      cases hentry
    case lookups =>
      intro i userId phase hi
      rw [h.lookups i userId phase hi]
      trivial
  | append_singleton events e ih => exact ih.snoc e

/-- However requests and changes of accounts come together, the row a request is let in with was
stored for its user less than five seconds before the request began. -/
theorem lookup_fresh (h : s.Started) (events : List (Nat × Nat)) (i : Nat) (userId : List Char)
    (now : Nat) (user : User) (hi : (s.run events).At i (.lookup userId (.done now (some user)))) :
    ∃ past, past <+: events ∧ (s.run past).shared.users userId = some user ∧
      now < (s.run past).shared.now + authUserCacheTtl := by
  obtain ⟨time, hnow, past, hpast, hrow, htime⟩ := (h.backed events).lookups i userId _ hi user rfl
  exact ⟨past, hpast, hrow, hnow.trans_le (Nat.add_le_add_right htime _)⟩

/-- Once the stored row of a user stays disabled or deleted, no request that begins five seconds
later or after that is let in for him, whichever way he was changed. -/
theorem locked_out (h : s.Started) (before later : List (Nat × Nat)) (userId : List Char)
    (hlocked : ∀ past, past <+: later → ∀ u,
      (s.run (before ++ past)).shared.users userId = some u → u.enabled = false)
    (i : Nat) (now : Nat) (hnow : (s.run before).shared.now + authUserCacheTtl ≤ now)
    (user : User)
    (hi : (s.run (before ++ later)).At i (.lookup userId (.done now (some user)))) :
    user.enabled = false := by
  obtain ⟨time, hlt, past, hpast, hrow, htime⟩ :=
    (h.backed (before ++ later)).lookups i userId _ hi user rfl
  obtain hearly | ⟨rest, rfl⟩ := List.prefix_or_prefix_of_prefix hpast (List.prefix_append before later)
  · -- the row was read before the change, when the clock had not yet come so far
    have hclock : (s.run past).shared.now ≤ (s.run before).shared.now := by
      obtain ⟨rest, rfl⟩ := hearly
      exact s.now_append past rest
    omega
  · exact hlocked rest ((List.prefix_append_right_inj before).mp hpast) user hrow

/-- One user, a request for him, and an administrator who disables him. -/
def disabling : UserRace :=
  ⟨⟨0, fun id => if id = "u1".toList then some Rbac.rootUser else none, ∅⟩,
    [.lookup "u1".toList .start,
      .handler "u1".toList (some { Rbac.rootUser with enabled := false }) .start]⟩

theorem disabling_started : disabling.Started := by
  constructor
  case cache => rfl
  case lookups =>
    intro i userId phase hi
    have hmem := List.mem_of_getElem? hi
    rw [disabling, List.mem_pair] at hmem
    obtain h | h := hmem
    · cases h
      rfl
    · cases h

/-- The request begins before the change and ends after it. -/
theorem lookup_fresh_disabling :
    ∃ past, past <+: [(0, 1), (0, 1), (0, 1), (1, 1), (0, 1)] ∧
      (disabling.run past).shared.users "u1".toList = some Rbac.rootUser ∧
      1 < (disabling.run past).shared.now + authUserCacheTtl :=
  lookup_fresh disabling_started [(0, 1), (0, 1), (0, 1), (1, 1), (0, 1)] 0 "u1".toList 1
    Rbac.rootUser rfl

/-- The request begins five seconds after the change, and is answered. -/
theorem locked_out_disabling : ∃ user,
    (disabling.run ([(1, 1)] ++ [(0, authUserCacheTtl), (0, 1), (0, 1), (0, 1)])).At 0
        (.lookup "u1".toList (.done (1 + authUserCacheTtl) (some user))) ∧
      user.enabled = false := by
  have hdone : (disabling.run ([(1, 1)] ++ [(0, authUserCacheTtl), (0, 1), (0, 1), (0, 1)])).At 0
      (.lookup "u1".toList (.done (1 + authUserCacheTtl)
        (some { Rbac.rootUser with enabled := false }))) := rfl
  refine ⟨_, hdone, locked_out disabling_started [(1, 1)]
    [(0, authUserCacheTtl), (0, 1), (0, 1), (0, 1)] "u1".toList ?_ 0 (1 + authUserCacheTtl)
    (Nat.le_refl _) _ hdone⟩
  intro past hpast u hu
  have hmem := (List.mem_inits past _).mpr hpast
  simp only [List.inits, List.map_cons, List.map_nil, List.mem_cons,
    List.not_mem_nil, or_false] at hmem
  obtain rfl | rfl | rfl | rfl | rfl := hmem <;> cases hu <;> rfl

end UserRace

end AiFw.Auth
