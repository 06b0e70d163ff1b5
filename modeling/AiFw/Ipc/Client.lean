import AiFw.Lib.Runs
import Mathlib.Data.List.Nodup

namespace AiFw.Ipc
open AiFw.Lib
set_option autoImplicit true

def poolMaxIdle : Nat := 4

/-- A connection: what the client has written and the service not read, and what the service has
answered and the client not read. Each message is marked with the call it belongs to; the mark is
not on the wire, and nothing reads it. -/
structure Stream (Req Resp : Type) where
  requests : List (Nat × Req)
  responses : List (Nat × Resp)
  closed : Bool

def Stream.fresh : Stream Req Resp := ⟨[], [], false⟩

/-- The connections by their numbers, the idle ones, and, as a record that nothing reads, what the
service has answered. -/
structure IpcState (Req Resp : Type) where
  streams : Nat → Stream Req Resp
  opened : Nat
  pool : List Nat
  handled : List (Nat × Req × Resp)

/-- Where a call stands. -/
inductive CallPhase (Resp : Type) where
  | start
  | acquired (stream : Nat)
  | written (stream : Nat)
  | received (stream : Nat) (resp : Nat × Resp)
  | done (resp : Nat × Resp)
  | failed

inductive IpcTask (Req Resp : Type) where
  | call (caller : Nat) (req : Req) (phase : CallPhase Resp)
  | service

/-- What a step takes from outside: whether what it waits for comes in time and the call is still
wanted, and for the service the connection it serves and what its handler answers. -/
structure IpcInput (Resp : Type) where
  ok : Bool
  stream : Nat
  resp : Resp

namespace IpcState

variable {Req Resp : Type}

def setStream (s : IpcState Req Resp) (k : Nat) (stream : Stream Req Resp) : IpcState Req Resp :=
  { s with streams := fun j => if j = k then stream else s.streams j }

/-- An idle connection, the one that was idle longest first, or a new one. -/
def acquire (s : IpcState Req Resp) : IpcState Req Resp × Nat :=
  match s.pool with
  | k :: rest => ({ s with pool := rest }, k)
  | [] => ({ s with opened := s.opened + 1 }, s.opened)

def release (s : IpcState Req Resp) (k : Nat) : IpcState Req Resp :=
  if s.pool.length < poolMaxIdle then { s with pool := s.pool ++ [k] } else s

def write (s : IpcState Req Resp) (k caller : Nat) (req : Req) : IpcState Req Resp :=
  s.setStream k { s.streams k with requests := (s.streams k).requests ++ [(caller, req)] }

/-- A connection that fails, or whose call is dropped, is not given back. -/
def callStep (i : IpcInput Resp) (s : IpcState Req Resp) (caller : Nat) (req : Req) :
    CallPhase Resp → IpcState Req Resp × CallPhase Resp
  | .start => if i.ok then (s.acquire.1, .acquired s.acquire.2) else (s, .failed)
  | .acquired k => if i.ok then (s.write k caller req, .written k) else (s, .failed)
  | .written k =>
    if i.ok then
      match (s.streams k).responses with
      | resp :: rest => (s.setStream k { s.streams k with responses := rest }, .received k resp)
      | [] => (s, .written k)
    else (s, .failed)
  | .received k resp => if i.ok then (s.release k, .done resp) else (s, .failed)
  | .done resp => (s, .done resp)
  | .failed => (s, .failed)

/-- The service reads the next request of a connection and answers it, or closes the connection. The
connections are those of peers with the user id of the service: any other gets one error from the
accept loop, whatever it sends, and is closed. -/
def serve (i : IpcInput Resp) (s : IpcState Req Resp) : IpcState Req Resp :=
  if i.ok then
    if (s.streams i.stream).closed then s
    else
      match (s.streams i.stream).requests with
      | (caller, req) :: rest =>
        { s.setStream i.stream
            { s.streams i.stream with
              requests := rest
              responses := (s.streams i.stream).responses ++ [(caller, i.resp)] } with
          handled := (caller, req, i.resp) :: s.handled }
      | [] => s
  else s.setStream i.stream { s.streams i.stream with closed := true }

def taskStep (i : IpcInput Resp) (s : IpcState Req Resp) :
    IpcTask Req Resp → IpcState Req Resp × IpcTask Req Resp
  | .call caller req phase =>
    ((s.callStep i caller req phase).1, .call caller req (s.callStep i caller req phase).2)
  | .service => (s.serve i, .service)

end IpcState

abbrev IpcRace (Req Resp : Type) := Interleaved (IpcState Req Resp) (IpcTask Req Resp)

/-- The connection a call has in its hands. -/
def CallPhase.stream : CallPhase Resp → Option Nat
  | .acquired k | .written k | .received k _ => some k
  | .start | .done _ | .failed => none

namespace IpcState

variable {Req Resp : Type} {s : IpcState Req Resp}

def Quiet (s : IpcState Req Resp) (k : Nat) : Prop :=
  (s.streams k).requests = [] ∧ (s.streams k).responses = []

/-- Nobody else may take the connection. -/
def Owned (s : IpcState Req Resp) (k : Nat) : Prop := k < s.opened ∧ k ∉ s.pool

def Untraced (s : IpcState Req Resp) (caller : Nat) : Prop :=
  (∀ k req, (caller, req) ∉ (s.streams k).requests) ∧ caller ∉ s.handled.map Prod.fst

/-- The request is still to be read, or the service has answered it. -/
def Exchanging (s : IpcState Req Resp) (k caller : Nat) (req : Req) : Prop :=
  (s.streams k).requests = [(caller, req)] ∧ (s.streams k).responses = [] ∨
    (s.streams k).requests = [] ∧ ∃ resp, (s.streams k).responses = [(caller, resp)] ∧
      (caller, req, resp) ∈ s.handled

def Answered (s : IpcState Req Resp) (caller : Nat) (req : Req) (resp : Nat × Resp) : Prop :=
  resp.1 = caller ∧ (caller, req, resp.2) ∈ s.handled

/-- What is known of a call that has got so far. -/
def Holds (s : IpcState Req Resp) (caller : Nat) (req : Req) : CallPhase Resp → Prop
  | .start => s.Untraced caller
  | .acquired k => s.Owned k ∧ s.Quiet k ∧ s.Untraced caller
  | .written k => s.Owned k ∧ s.Exchanging k caller req
  | .received k resp => s.Owned k ∧ s.Quiet k ∧ s.Answered caller req resp
  | .done resp => s.Answered caller req resp
  | .failed => True

/-- The idle connections are few, different, and carry nothing; a request is in one place, and is
not answered while it is. -/
structure Orderly (s : IpcState Req Resp) : Prop where
  fits : s.pool.length ≤ poolMaxIdle
  nodup : s.pool.Nodup
  pooled : ∀ k ∈ s.pool, k < s.opened ∧ s.Quiet k
  unopened : ∀ k, s.opened ≤ k → s.Quiet k
  single : ∀ k, (s.streams k).requests.length ≤ 1
  sentOnce : ∀ k k' caller req req', (caller, req) ∈ (s.streams k).requests →
    (caller, req') ∈ (s.streams k').requests → k = k'
  sent : ∀ k caller req, (caller, req) ∈ (s.streams k).requests →
    caller ∉ s.handled.map Prod.fst
  handledOnce : (s.handled.map Prod.fst).Nodup

@[simp] theorem streams_setStream_self (k : Nat) (stream : Stream Req Resp) :
    (s.setStream k stream).streams k = stream := if_pos rfl

theorem streams_setStream_ne (h : j ≠ k) (stream : Stream Req Resp) :
    (s.setStream k stream).streams j = s.streams j := if_neg h

/-- What a step does that is none of the call's business. -/
structure Leaves (s s' : IpcState Req Resp) (caller : Nat) (held : Option Nat) : Prop where
  opened : s.opened ≤ s'.opened
  pool : ∀ k, held = some k → k ∉ s.pool → k ∉ s'.pool
  requests : ∀ k, held = some k → (s'.streams k).requests = (s.streams k).requests
  responses : ∀ k, held = some k → (s'.streams k).responses = (s.streams k).responses
  untraced : s.Untraced caller → s'.Untraced caller
  handled : ∀ entry ∈ s.handled, entry ∈ s'.handled

theorem Owned.leave (h : s.Owned k) (hl : Leaves s s' caller (some k)) : s'.Owned k :=
  ⟨h.1.trans_le hl.opened, hl.pool k rfl h.2⟩

theorem Quiet.leave (h : s.Quiet k) (hl : Leaves s s' caller (some k)) : s'.Quiet k :=
  ⟨(hl.requests k rfl).trans h.1, (hl.responses k rfl).trans h.2⟩

theorem Answered.leave (h : s.Answered caller req resp) (hl : Leaves s s' caller' held) :
    s'.Answered caller req resp :=
  ⟨h.1, hl.handled _ h.2⟩

theorem Holds.leave (h : s.Holds caller req phase) (hl : Leaves s s' caller phase.stream) :
    s'.Holds caller req phase := by
  cases phase with
  | start => exact hl.untraced h
  | acquired k => exact ⟨h.1.leave hl, h.2.1.leave hl, hl.untraced h.2.2⟩
  | written k =>
    refine ⟨h.1.leave hl, ?_⟩
    have hrequests := hl.requests k rfl
    have hresponses := hl.responses k rfl
    cases h.2 with
    | inl hwaiting => exact .inl ⟨hrequests.trans hwaiting.1, hresponses.trans hwaiting.2⟩
    | inr hreplied =>
      obtain ⟨hread, resp, hresp, hhandled⟩ := hreplied
      exact .inr ⟨hrequests.trans hread, resp, hresponses.trans hresp, hl.handled _ hhandled⟩
  | received k resp => exact ⟨h.1.leave hl, h.2.1.leave hl, h.2.2.leave hl⟩
  | done resp => exact Answered.leave h hl
  | failed => trivial

theorem Holds.owned (h : s.Holds caller req phase) (hk : phase.stream = some k) : s.Owned k := by
  cases phase with
  | acquired j =>
    cases hk
    exact h.1
  | written j =>
    cases hk
    exact h.1
  | received j resp =>
    cases hk
    exact h.1
  | start | done | failed => cases hk

theorem Leaves.refl (s : IpcState Req Resp) (caller : Nat) (held : Option Nat) :
    Leaves s s caller held :=
  ⟨Nat.le_refl _, fun _ _ h => h, fun _ _ => rfl, fun _ _ => rfl, fun h => h, fun _ h => h⟩

/-- What a step of a call owes to the other calls and to the state. -/
structure CallSpec (s : IpcState Req Resp) (caller : Nat) (req : Req) (phase : CallPhase Resp)
    (s' : IpcState Req Resp) (phase' : CallPhase Resp) : Prop where
  orderly : s'.Orderly
  holds : s'.Holds caller req phase'
  leaves : ∀ caller' held, caller' ≠ caller →
    (∀ k, held = some k → s.Owned k ∧ phase.stream ≠ some k) → Leaves s s' caller' held
  stream : ∀ k, phase'.stream = some k → phase.stream = some k ∨ ¬s.Owned k

theorem CallSpec.fail (h : s.Orderly) (caller : Nat) (req : Req) (phase : CallPhase Resp) :
    CallSpec s caller req phase s .failed :=
  ⟨h, trivial, fun caller' held _ _ => .refl s caller' held, fun _ hk => nomatch hk⟩

theorem CallSpec.stay (h : s.Orderly) (hholds : s.Holds caller req phase) :
    CallSpec s caller req phase s phase :=
  ⟨h, hholds, fun caller' held _ _ => .refl s caller' held, fun _ hk => .inl hk⟩

theorem acquire_cases (s : IpcState Req Resp) :
    s.pool = [] ∧ s.acquire = ({ s with opened := s.opened + 1 }, s.opened) ∨
      ∃ k rest, s.pool = k :: rest ∧ s.acquire = ({ s with pool := rest }, k) := by
  rw [acquire]
  split
  case h_1 k rest hpool => exact .inr ⟨k, rest, hpool, rfl⟩
  case h_2 hpool => exact .inl ⟨hpool, rfl⟩

/-- A connection that is taken is not another call's, and it carries nothing. -/
theorem CallSpec.acquire (h : s.Orderly) (huntraced : s.Untraced caller) (req : Req) :
    CallSpec s caller req .start s.acquire.1 (.acquired s.acquire.2) := by
  obtain ⟨-, hacquire⟩ | ⟨k, rest, hpool, hacquire⟩ := s.acquire_cases
  · rw [hacquire]
    constructor
    case orderly =>
      refine ⟨?_, ?_, ?_, ?_, h.single, h.sentOnce, h.sent, h.handledOnce⟩
      · exact h.fits
      · exact h.nodup
      · intro k hk
        exact ⟨(h.pooled k hk).1.trans (Nat.lt_succ_self _), (h.pooled k hk).2⟩
      · intro k hk
        exact h.unopened k (Nat.le_of_succ_le hk)
    case holds =>
      refine ⟨⟨Nat.lt_succ_self _, ?_⟩, h.unopened _ (Nat.le_refl _), huntraced⟩
      intro hmem
      exact absurd (h.pooled _ hmem).1 (Nat.lt_irrefl _)
    case leaves =>
      intro caller' held _ _
      exact ⟨Nat.le_succ _, fun _ _ hk => hk, fun _ _ => rfl, fun _ _ => rfl, fun h => h,
        fun _ h => h⟩
    case stream =>
      intro k hk
      cases hk
      exact .inr fun howned => absurd howned.1 (Nat.lt_irrefl _)
  · rw [hacquire]
    have hmem : k ∈ s.pool := hpool ▸ List.mem_cons_self
    have hsub : ∀ j ∈ rest, j ∈ s.pool := fun j hj => hpool ▸ List.mem_cons_of_mem k hj
    have hnodup := h.nodup
    rw [hpool, List.nodup_cons] at hnodup
    constructor
    case orderly =>
      refine ⟨?_, hnodup.2, fun j hj => h.pooled j (hsub j hj), h.unopened, h.single, h.sentOnce,
        h.sent, h.handledOnce⟩
      have hfits := h.fits
      rw [hpool, List.length_cons] at hfits
      exact Nat.le_of_succ_le hfits
    case holds => exact ⟨⟨(h.pooled k hmem).1, hnodup.1⟩, (h.pooled k hmem).2, huntraced⟩
    case leaves =>
      intro caller' held _ _
      exact ⟨Nat.le_refl _, fun j _ hj hrest => hj (hsub j hrest), fun _ _ => rfl, fun _ _ => rfl,
        fun h => h, fun _ h => h⟩
    case stream =>
      intro j hj
      cases hj
      exact .inr fun howned => howned.2 hmem

theorem mem_requests_write (hquiet : s.Quiet k) :
    entry ∈ ((s.write k caller req).streams j).requests ↔
      j ≠ k ∧ entry ∈ (s.streams j).requests ∨ j = k ∧ entry = (caller, req) := by
  rw [write]
  by_cases hj : j = k
  · subst hj
    rw [streams_setStream_self, hquiet.1, List.nil_append, List.mem_singleton]
    simp only [ne_eq, not_true_eq_false, false_and, true_and, false_or]
  · rw [streams_setStream_ne hj]
    simp only [ne_eq, hj, not_false_eq_true, true_and, false_and, or_false]

/-- The request goes onto a connection that carries nothing. -/
theorem CallSpec.write (h : s.Orderly) (howned : s.Owned k) (hquiet : s.Quiet k)
    (huntraced : s.Untraced caller) (req : Req) :
    CallSpec s caller req (.acquired k) (s.write k caller req) (.written k) := by
  have hother {j : Nat} (hj : j ≠ k) : (s.write k caller req).streams j = s.streams j :=
    streams_setStream_ne hj _
  have hself : (s.write k caller req).streams k =
      { s.streams k with requests := (s.streams k).requests ++ [(caller, req)] } :=
    streams_setStream_self k _
  constructor
  case orderly =>
    refine ⟨h.fits, h.nodup, ?_, ?_, ?_, ?_, ?_, h.handledOnce⟩
    · intro j hj
      have hne : j ≠ k := fun heq => howned.2 (heq ▸ hj)
      refine ⟨(h.pooled j hj).1, ?_⟩
      rw [Quiet, hother hne]
      exact (h.pooled j hj).2
    · intro j hj
      have hne : j ≠ k := fun heq => absurd howned.1 (heq ▸ Nat.not_lt.mpr hj)
      rw [Quiet, hother hne]
      exact h.unopened j hj
    · intro j
      by_cases hj : j = k
      · rw [hj, hself, hquiet.1]
        exact Nat.le_refl _
      · rw [hother hj]
        exact h.single j
    · intro j j' c r r' hm hm'
      obtain ⟨-, hold⟩ | ⟨rfl, heq⟩ := (mem_requests_write hquiet).mp hm
      · obtain ⟨-, hold'⟩ | ⟨rfl, heq'⟩ := (mem_requests_write hquiet).mp hm'
        · exact h.sentOnce j j' c r r' hold hold'
        · cases heq'
          exact absurd hold (huntraced.1 j r)
      · cases heq
        obtain ⟨-, hold'⟩ | ⟨rfl, -⟩ := (mem_requests_write hquiet).mp hm'
        · exact absurd hold' (huntraced.1 j' r')
        · rfl
    · intro j c r hm
      obtain ⟨-, hold⟩ | ⟨-, heq⟩ := (mem_requests_write hquiet).mp hm
      · exact h.sent j c r hold
      · cases heq
        exact huntraced.2
  case holds =>
    refine ⟨howned, .inl ⟨?_, ?_⟩⟩
    · rw [hself, hquiet.1]
      rfl
    · rw [hself]
      exact hquiet.2
  case leaves =>
    intro caller' held hne hheld
    have hdiff {j : Nat} (hj : held = some j) : j ≠ k :=
      fun heq => (hheld j hj).2 (congrArg some heq.symm)
    refine ⟨Nat.le_refl _, fun _ _ hk => hk, ?_, ?_, ?_, fun _ hmem => hmem⟩
    · intro j hj
      rw [hother (hdiff hj)]
    · intro j hj
      rw [hother (hdiff hj)]
    · intro hun
      refine ⟨?_, hun.2⟩
      intro j r hm
      obtain ⟨-, hold⟩ | ⟨-, heq⟩ := (mem_requests_write hquiet).mp hm
      · exact hun.1 j r hold
      · cases heq
        exact hne rfl
  case stream => exact fun j hj => .inl hj

/-- The answer that is read is that to the call's own request. -/
theorem CallSpec.receive (h : s.Orderly) (howned : s.Owned k) (hexchange : s.Exchanging k caller req)
    (hresponses : (s.streams k).responses = resp :: rest) :
    CallSpec s caller req (.written k)
      (s.setStream k { s.streams k with responses := rest }) (.received k resp) := by
  obtain ⟨-, hnone⟩ | ⟨hread, reply, hreply, hhandled⟩ := hexchange
  · rw [hnone] at hresponses
    cases hresponses
  rw [hreply] at hresponses
  cases hresponses
  have hrequests (j : Nat) : ((s.setStream k { s.streams k with responses := [] }).streams j).requests =
      (s.streams j).requests := by
    by_cases hj : j = k
    · rw [hj, streams_setStream_self]
    · rw [streams_setStream_ne hj]
  constructor
  case orderly =>
    refine ⟨h.fits, h.nodup, ?_, ?_, ?_, ?_, ?_, h.handledOnce⟩
    · intro j hj
      have hne : j ≠ k := fun heq => howned.2 (heq ▸ hj)
      refine ⟨(h.pooled j hj).1, ?_⟩
      rw [Quiet, streams_setStream_ne hne]
      exact (h.pooled j hj).2
    · intro j hj
      have hne : j ≠ k := fun heq => absurd howned.1 (heq ▸ Nat.not_lt.mpr hj)
      rw [Quiet, streams_setStream_ne hne]
      exact h.unopened j hj
    · intro j
      rw [hrequests]
      exact h.single j
    · intro j j' c r r' hm hm'
      rw [hrequests] at hm hm'
      exact h.sentOnce j j' c r r' hm hm'
    · intro j c r hm
      rw [hrequests] at hm
      exact h.sent j c r hm
  case holds =>
    refine ⟨howned, ⟨(hrequests k).trans hread, ?_⟩, rfl, hhandled⟩
    rw [streams_setStream_self]
  case leaves =>
    intro caller' held hne hheld
    have hdiff {j : Nat} (hj : held = some j) : j ≠ k :=
      fun heq => (hheld j hj).2 (congrArg some heq.symm)
    refine ⟨Nat.le_refl _, fun _ _ hk => hk, fun j _ => hrequests j, ?_, ?_, fun _ hmem => hmem⟩
    · intro j hj
      rw [streams_setStream_ne (hdiff hj)]
    · intro hun
      refine ⟨?_, hun.2⟩
      intro j r hm
      rw [hrequests] at hm
      exact hun.1 j r hm
  case stream => exact fun j hj => .inl hj

/-- Only a connection that carries nothing is given back. -/
theorem CallSpec.release (h : s.Orderly) (howned : s.Owned k) (hquiet : s.Quiet k)
    (hanswered : s.Answered caller req resp) :
    CallSpec s caller req (.received k resp) (s.release k) (.done resp) := by
  rw [IpcState.release]
  by_cases hroom : s.pool.length < poolMaxIdle
  · rw [if_pos hroom]
    have hmem {j : Nat} : j ∈ s.pool ++ [k] ↔ j ∈ s.pool ∨ j = k := by
      rw [List.mem_append, List.mem_singleton]
    constructor
    case orderly =>
      refine ⟨?_, ?_, ?_, h.unopened, h.single, h.sentOnce, h.sent, h.handledOnce⟩
      · rw [List.length_append]
        exact hroom
      · rw [List.nodup_append]
        refine ⟨h.nodup, List.nodup_singleton k, ?_⟩
        intro j hj j' hj' heq
        rw [List.mem_singleton.mp hj'] at heq
        exact howned.2 (heq ▸ hj)
      · intro j hj
        cases hmem.mp hj with
        | inl hold => exact h.pooled j hold
        | inr hnew =>
          rw [hnew]
          exact ⟨howned.1, hquiet⟩
    case holds => exact hanswered
    case leaves =>
      intro caller' held _ hheld
      refine ⟨Nat.le_refl _, ?_, fun _ _ => rfl, fun _ _ => rfl, fun h => h, fun _ h => h⟩
      intro j hj hout hin
      cases hmem.mp hin with
      | inl hold => exact hout hold
      | inr hnew => exact (hheld j hj).2 (congrArg some hnew.symm)
    case stream =>
      intro j hj
      cases hj
  · rw [if_neg hroom]
    exact ⟨h, hanswered, fun caller' held _ _ => .refl s caller' held, fun _ hk => nomatch hk⟩

theorem callStep_spec (h : s.Orderly) (i : IpcInput Resp) (hholds : s.Holds caller req phase) :
    CallSpec s caller req phase (s.callStep i caller req phase).1
      (s.callStep i caller req phase).2 := by
  cases phase with
  | start =>
    rw [callStep]
    cases i.ok with
    | false => exact .fail h caller req .start
    | true => exact .acquire h hholds req
  | acquired k =>
    rw [callStep]
    cases i.ok with
    | false => exact .fail h caller req (.acquired k)
    | true => exact .write h hholds.1 hholds.2.1 hholds.2.2 req
  | written k =>
    rw [callStep]
    cases i.ok with
    | false => exact .fail h caller req (.written k)
    | true =>
      cases hresponses : (s.streams k).responses with
      | nil => exact .stay h hholds
      | cons resp rest => exact .receive h hholds.1 hholds.2 hresponses
  | received k resp =>
    rw [callStep]
    cases i.ok with
    | false => exact .fail h caller req (.received k resp)
    | true => exact .release h hholds.1 hholds.2.1 hholds.2.2
  | done resp => exact .stay h hholds
  | failed => exact .stay h hholds

/-- What the service does on a connection is the business of the call that has it, and of no
other. -/
structure ServeSpec (s s' : IpcState Req Resp) : Prop where
  orderly : s'.Orderly
  holds : ∀ caller req phase, s.Holds caller req phase → s'.Holds caller req phase

theorem ServeSpec.of_leaves (horderly : s'.Orderly)
    (h : ∀ caller held, Leaves s s' caller held) : ServeSpec s s' :=
  ⟨horderly, fun caller _ phase hholds => hholds.leave (h caller phase.stream)⟩

theorem ServeSpec.close (h : s.Orderly) (k : Nat) :
    ServeSpec s (s.setStream k { s.streams k with closed := true }) := by
  have hrequests (j : Nat) :
      ((s.setStream k { s.streams k with closed := true }).streams j).requests =
        (s.streams j).requests := by
    by_cases hj : j = k
    · rw [hj, streams_setStream_self]
    · rw [streams_setStream_ne hj]
  have hresponses (j : Nat) :
      ((s.setStream k { s.streams k with closed := true }).streams j).responses =
        (s.streams j).responses := by
    by_cases hj : j = k
    · rw [hj, streams_setStream_self]
    · rw [streams_setStream_ne hj]
  have hquiet {j : Nat} (hj : s.Quiet j) :
      (s.setStream k { s.streams k with closed := true }).Quiet j :=
    ⟨(hrequests j).trans hj.1, (hresponses j).trans hj.2⟩
  apply ServeSpec.of_leaves
  · refine ⟨h.fits, h.nodup, ?_, fun j hj => hquiet (h.unopened j hj), ?_, ?_, ?_, h.handledOnce⟩
    · exact fun j hj => ⟨(h.pooled j hj).1, hquiet (h.pooled j hj).2⟩
    · intro j
      rw [hrequests]
      exact h.single j
    · intro j j' c r r' hm hm'
      rw [hrequests] at hm hm'
      exact h.sentOnce j j' c r r' hm hm'
    · intro j c r hm
      rw [hrequests] at hm
      exact h.sent j c r hm
  · intro caller held
    refine ⟨Nat.le_refl _, fun _ _ hk => hk, fun j _ => hrequests j, fun j _ => hresponses j, ?_,
      fun _ hmem => hmem⟩
    intro hun
    refine ⟨?_, hun.2⟩
    intro j r hm
    rw [hrequests] at hm
    exact hun.1 j r hm

/-- The state in which the only request of a connection has been answered. -/
def answer (s : IpcState Req Resp) (k caller : Nat) (req : Req) (resp : Resp) :
    IpcState Req Resp :=
  { s.setStream k
      { s.streams k with
        requests := []
        responses := (s.streams k).responses ++ [(caller, resp)] } with
    handled := (caller, req, resp) :: s.handled }

theorem requests_answer (resp : Resp) :
    entry ∈ ((s.answer k caller req resp).streams j).requests ↔
      j ≠ k ∧ entry ∈ (s.streams j).requests := by
  by_cases hj : j = k
  · rw [hj]
    change entry ∈ ((s.setStream k _).streams k).requests ↔ _
    rw [streams_setStream_self]
    simp only [List.not_mem_nil, ne_eq, not_true_eq_false, false_and]
  · change entry ∈ ((s.setStream k _).streams j).requests ↔ _
    rw [streams_setStream_ne hj]
    exact (and_iff_right hj).symm

theorem ServeSpec.answer (h : s.Orderly) (hrequests : (s.streams k).requests = [(caller, req)])
    (resp : Resp) : ServeSpec s (s.answer k caller req resp) := by
  have hsent : (caller, req) ∈ (s.streams k).requests := hrequests ▸ List.mem_cons_self
  have hother {j : Nat} (hj : j ≠ k) : (s.answer k caller req resp).streams j = s.streams j :=
    streams_setStream_ne hj _
  have hbusy {j : Nat} (hj : s.Quiet j) : j ≠ k := by
    intro heq
    rw [← heq, hj.1] at hrequests
    cases hrequests
  have hleaves {caller' : Nat} {held : Option Nat} (hheld : held ≠ some k) :
      Leaves s (s.answer k caller req resp) caller' held := by
    have hdiff {j : Nat} (hj : held = some j) : j ≠ k := fun heq => hheld (hj.trans (congrArg some heq))
    refine ⟨Nat.le_refl _, fun _ _ hk => hk, ?_, ?_, ?_, fun _ hmem => List.mem_cons_of_mem _ hmem⟩
    · intro j hj
      rw [hother (hdiff hj)]
    · intro j hj
      rw [hother (hdiff hj)]
    · intro hun
      constructor
      · intro j r hm
        exact hun.1 j r ((requests_answer resp).mp hm).2
      · intro hm
        cases List.mem_cons.mp hm with
        | inl heq =>
          cases heq
          exact hun.1 k req hsent
        | inr hold => exact hun.2 hold
  constructor
  case orderly =>
    refine ⟨h.fits, h.nodup, ?_, ?_, ?_, ?_, ?_, ?_⟩
    · intro j hj
      refine ⟨(h.pooled j hj).1, ?_⟩
      rw [Quiet, hother (hbusy (h.pooled j hj).2)]
      exact (h.pooled j hj).2
    · intro j hj
      rw [Quiet, hother (hbusy (h.unopened j hj))]
      exact h.unopened j hj
    · intro j
      by_cases hj : j = k
      · rw [hj]
        change ((s.setStream k _).streams k).requests.length ≤ 1
        rw [streams_setStream_self]
        exact Nat.zero_le 1
      · rw [hother hj]
        exact h.single j
    · intro j j' c r r' hm hm'
      exact h.sentOnce j j' c r r' ((requests_answer resp).mp hm).2
        ((requests_answer resp).mp hm').2
    · intro j c r hm
      obtain ⟨hj, hold⟩ := (requests_answer resp).mp hm
      intro hhandled
      cases List.mem_cons.mp hhandled with
      | inl heq =>
        cases heq
        exact hj (h.sentOnce j k _ r req hold hsent)
      | inr hlogged => exact h.sent j c r hold hlogged
    · exact List.nodup_cons.mpr ⟨h.sent k caller req hsent, h.handledOnce⟩
  case holds =>
    intro caller' req' phase hholds
    by_cases hk : phase.stream = some k
    · cases phase with
      | acquired j =>
        cases hk
        exact absurd rfl (hbusy hholds.2.1)
      | written j =>
        cases hk
        refine ⟨⟨hholds.1.1, hholds.1.2⟩, .inr ?_⟩
        obtain ⟨hwaiting, hnone⟩ | ⟨hread, -⟩ := hholds.2
        · rw [hrequests] at hwaiting
          cases hwaiting
          refine ⟨?_, resp, ?_, List.mem_cons_self⟩
          · change ((s.setStream k _).streams k).requests = []
            rw [streams_setStream_self]
          · change ((s.setStream k _).streams k).responses = _
            rw [streams_setStream_self, hnone]
            rfl
        · rw [hread] at hrequests
          cases hrequests
      | received j resp' =>
        cases hk
        exact absurd rfl (hbusy hholds.2.1)
      | start | done | failed => cases hk
    · exact hholds.leave (hleaves hk)

theorem serve_spec (h : s.Orderly) (i : IpcInput Resp) : ServeSpec s (s.serve i) := by
  rw [serve]
  cases i.ok with
  | false => exact .close h i.stream
  | true =>
    simp only [if_true]
    by_cases hclosed : (s.streams i.stream).closed = true
    · rw [if_pos hclosed]
      exact .of_leaves h (Leaves.refl s)
    rw [if_neg hclosed]
    cases hrequests : (s.streams i.stream).requests with
    | nil => exact .of_leaves h (Leaves.refl s)
    | cons entry rest =>
      have hsingle := h.single i.stream
      rw [hrequests, List.length_cons] at hsingle
      cases List.eq_nil_of_length_eq_zero (Nat.le_zero.mp (Nat.le_of_succ_le_succ hsingle))
      exact ServeSpec.answer h hrequests i.resp

end IpcState

namespace IpcRace

variable {Req Resp : Type} {s : IpcRace Req Resp}

def run (s : IpcRace Req Resp) (events : List (Nat × IpcInput Resp)) : IpcRace Req Resp :=
  events.foldl (Interleaved.step IpcState.taskStep) s

/-- A client that has made no connection, and calls that have not begun. -/
structure Started (s : IpcRace Req Resp) : Prop where
  streams : ∀ k, s.shared.streams k = .fresh
  pool : s.shared.pool = []
  handled : s.shared.handled = []
  calls : ∀ i caller req phase, s.At i (.call caller req phase) → caller = i ∧ phase = .start

/-- No two calls have one connection, and each is as its phase says. -/
structure Inv (s : IpcRace Req Resp) : Prop where
  orderly : s.shared.Orderly
  calls : ∀ i caller req phase, s.At i (.call caller req phase) →
    caller = i ∧ s.shared.Holds caller req phase
  apart : ∀ i j c c' r r' p q k, s.At i (.call c r p) → s.At j (.call c' r' q) →
    p.stream = some k → q.stream = some k → i = j

theorem Started.inv (h : s.Started) : s.Inv := by
  have hquiet (k : Nat) : s.shared.Quiet k := by
    rw [IpcState.Quiet, h.streams k]
    exact ⟨rfl, rfl⟩
  have hnone (k : Nat) (entry : Nat × Req) : entry ∉ (s.shared.streams k).requests := by
    rw [(hquiet k).1]
    exact List.not_mem_nil
  constructor
  case orderly =>
    refine ⟨?_, ?_, ?_, fun k _ => hquiet k, ?_, ?_, ?_, ?_⟩
    · rw [h.pool]
      exact Nat.zero_le _
    · rw [h.pool]
      exact List.nodup_nil
    · intro k hk
      rw [h.pool] at hk
      cases hk
    · intro k
      rw [(hquiet k).1]
      exact Nat.zero_le 1
    · exact fun k _ caller req _ hm _ => absurd hm (hnone k (caller, req))
    · exact fun k caller req hm => absurd hm (hnone k (caller, req))
    · rw [h.handled]
      exact List.nodup_nil
  case calls =>
    intro i caller req phase hi
    obtain ⟨hcaller, rfl⟩ := h.calls i caller req phase hi
    refine ⟨hcaller, fun k req => hnone k (caller, req), ?_⟩
    rw [h.handled]
    exact List.not_mem_nil
  case apart =>
    intro i j c c' r r' p q k hi _ hp _
    obtain ⟨-, rfl⟩ := h.calls i c r p hi
    cases hp

theorem Inv.step (h : s.Inv) (e : Nat × IpcInput Resp) : Inv (s.step IpcState.taskStep e) := by
  obtain hsame | ⟨task, htask, hshared, hat⟩ := s.step_cases IpcState.taskStep e
  · rw [hsame]
    exact h
  cases task with
  | service =>
    have hspec := IpcState.serve_spec h.orderly e.2
    have hcall {i caller : Nat} {req : Req} {phase : CallPhase Resp}
        (hi : (s.step IpcState.taskStep e).At i (.call caller req phase)) :
        s.At i (.call caller req phase) := by
      obtain ⟨-, hphase⟩ | ⟨-, hold⟩ := (hat i _).mp hi
      · cases hphase
      · exact hold
    constructor
    case orderly =>
      rw [hshared]
      exact hspec.orderly
    case calls =>
      intro i caller req phase hi
      obtain ⟨hcaller, hholds⟩ := h.calls i caller req phase (hcall hi)
      rw [hshared]
      exact ⟨hcaller, hspec.holds caller req phase hholds⟩
    case apart =>
      intro i j c c' r r' p q k hi hj
      exact h.apart i j c c' r r' p q k (hcall hi) (hcall hj)
  | call c r p =>
    obtain ⟨rfl, hholds⟩ := h.calls e.1 c r p htask
    have hspec := IpcState.callStep_spec h.orderly e.2 hholds
    -- another call has a connection of its own
    have hother {i c' : Nat} {r' : Req} {q : CallPhase Resp} (hne : e.1 ≠ i)
        (hi : s.At i (.call c' r' q)) (k : Nat) (hk : q.stream = some k) :
        s.shared.Owned k ∧ p.stream ≠ some k :=
      ⟨(h.calls i c' r' q hi).2.owned hk,
        fun hp => hne (h.apart e.1 i e.1 c' r r' p q k htask hi hp hk)⟩
    constructor
    case orderly =>
      rw [hshared]
      exact hspec.orderly
    case calls =>
      intro i caller req phase hi
      rw [hshared]
      obtain ⟨rfl, heq⟩ | ⟨hne, hold⟩ := (hat i _).mp hi
      · cases heq
        exact ⟨rfl, hspec.holds⟩
      · obtain ⟨rfl, hkept⟩ := h.calls i caller req phase hold
        exact ⟨rfl, hkept.leave (hspec.leaves caller phase.stream (Ne.symm hne) (hother hne hold))⟩
    case apart =>
      intro i j c c' r₁ r₂ p₁ p₂ k hi hj hp₁ hp₂
      obtain ⟨rfl, heq⟩ | ⟨hne, hold⟩ := (hat i _).mp hi
      · obtain ⟨rfl, -⟩ | ⟨hne', hold'⟩ := (hat j _).mp hj
        · rfl
        · cases heq
          obtain ⟨howned, hdiff⟩ := hother hne' hold' k hp₂
          exact ((hspec.stream k hp₁).elim hdiff fun hnot => hnot howned).elim
      · obtain ⟨rfl, heq'⟩ | ⟨-, hold'⟩ := (hat j _).mp hj
        · cases heq'
          obtain ⟨howned, hdiff⟩ := hother hne hold k hp₁
          exact ((hspec.stream k hp₂).elim hdiff fun hnot => hnot howned).elim
        · exact h.apart i j c c' r₁ r₂ p₁ p₂ k hold hold' hp₁ hp₂

theorem Inv.run (h : s.Inv) (events : List (Nat × IpcInput Resp)) : (s.run events).Inv := by
  induction events generalizing s with
  | nil => exact h
  | cons e events ih => exact ih (h.step e)

/-- However the calls, their timeouts and the service come together, a call that returns has the
answer the service gave to its own request, which it handled once, and no more connections are idle
than the pool may hold, none of them with anything left on it. -/
theorem answers_own_request (h : s.Started) (events : List (Nat × IpcInput Resp)) (i caller : Nat)
    (req : Req) (resp : Nat × Resp) (hi : (s.run events).At i (.call caller req (.done resp))) :
    (∃ before after, (s.run events).shared.handled = before ++ (i, req, resp.2) :: after ∧
      ∀ entry ∈ before ++ after, entry.1 ≠ i) ∧
      (s.run events).shared.pool.length ≤ poolMaxIdle ∧
      ∀ k ∈ (s.run events).shared.pool, (s.run events).shared.Quiet k := by
  have hinv := h.inv.run events
  obtain ⟨rfl, -, hhandled⟩ := hinv.calls i caller req _ hi
  refine ⟨?_, hinv.orderly.fits, fun k hk => (hinv.orderly.pooled k hk).2⟩
  obtain ⟨before, after, heq⟩ := List.append_of_mem hhandled
  refine ⟨before, after, heq, ?_⟩
  have hnodup := hinv.orderly.handledOnce
  rw [heq, List.map_append, List.map_cons, List.nodup_middle, List.nodup_cons,
    ← List.map_append] at hnodup
  intro entry hentry hsame
  exact hnodup.1 (List.mem_map.mpr ⟨entry, hentry, hsame⟩)

/-- Two calls and the service, whose answers are numbers. -/
def twoCalls : IpcRace Unit Nat :=
  ⟨⟨fun _ => .fresh, 0, [], []⟩, [.call 0 () .start, .call 1 () .start, .service]⟩

theorem twoCalls_started : twoCalls.Started := by
  constructor
  case streams => exact fun _ => rfl
  case pool => rfl
  case handled => rfl
  case calls =>
    intro i caller req phase hi
    cases i with
    | zero =>
      cases hi
      exact ⟨rfl, rfl⟩
    | succ i =>
      cases i with
      | zero =>
        cases hi
        exact ⟨rfl, rfl⟩
      | succ i =>
        cases i with
        | zero => cases hi
        | succ i => cases hi

/-- The first call times out after its request is written; the service answers it all the same, and
then the second call. -/
def oneTimesOut : List (Nat × IpcInput Nat) :=
  [(0, ⟨true, 0, 0⟩), (0, ⟨true, 0, 0⟩), (0, ⟨false, 0, 0⟩), (1, ⟨true, 0, 0⟩), (2, ⟨true, 0, 7⟩),
    (1, ⟨true, 0, 0⟩), (2, ⟨true, 1, 8⟩), (1, ⟨true, 0, 0⟩), (1, ⟨true, 0, 0⟩)]

theorem answers_own_request_second :
    (∃ before after,
      (twoCalls.run oneTimesOut).shared.handled = before ++ (1, (), 8) :: after ∧
        ∀ entry ∈ before ++ after, entry.1 ≠ 1) ∧
      (twoCalls.run oneTimesOut).shared.pool.length ≤ poolMaxIdle ∧
      ∀ k ∈ (twoCalls.run oneTimesOut).shared.pool, (twoCalls.run oneTimesOut).shared.Quiet k :=
  answers_own_request twoCalls_started oneTimesOut 1 1 () (1, 8) rfl

end IpcRace

end AiFw.Ipc
