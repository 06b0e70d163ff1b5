import AiFw.Auth.LogoutExpiry
import AiFw.Lib.Streak

namespace AiFw.Auth
open AiFw.Lib
set_option autoImplicit true

def ticketTtl : Nat := 30 * second

structure Ticket where
  userId : List Char
  expiresAt : Nat
deriving DecidableEq

structure WsTicketStore where
  inner : KeyedMap (List Char) Ticket

namespace WsTicketStore

def new : WsTicketStore := ⟨∅⟩

def pruned (s : WsTicketStore) (now : Nat) : KeyedMap (List Char) Ticket :=
  s.inner.retain fun _ t => decide (now < t.expiresAt)

/-- A ticket for the user, with the id that is drawn and the clock as it was read before the lock
was taken. -/
def issue (s : WsTicketStore) (id userId : List Char) (now : Nat) : WsTicketStore :=
  ⟨(s.pruned now).insert id ⟨userId, now + ticketTtl⟩⟩

def consume (s : WsTicketStore) (ticketId : List Char) (now : Nat) :
    WsTicketStore × Option (List Char) :=
  (⟨(s.pruned now).erase ticketId⟩,
    match (s.pruned now).lookup ticketId with
    | some t => if now < t.expiresAt then some t.userId else none
    | none => none)

theorem lookup_pruned {s : WsTicketStore} :
    (s.pruned now).lookup ticketId = some t ↔
      s.inner.lookup ticketId = some t ∧ now < t.expiresAt := by
  rw [pruned, KeyedMap.lookup_retain, decide_eq_true_eq]

theorem consume_eq_some_iff {s : WsTicketStore} :
    (s.consume ticketId now).2 = some u ↔
      ∃ t, s.inner.lookup ticketId = some t ∧ now < t.expiresAt ∧ t.userId = u := by
  rw [consume]
  cases h : (s.pruned now).lookup ticketId with
  | none =>
    simp only [reduceCtorEq, false_iff]
    intro hex
    obtain ⟨t, ht, hnow, -⟩ := hex
    rw [lookup_pruned.mpr ⟨ht, hnow⟩] at h
    cases h
  | some t =>
    obtain ⟨ht, hnow⟩ := lookup_pruned.mp h
    simp only [if_pos hnow, Option.some.injEq, ht]
    constructor
    · intro hu
      exact ⟨t, rfl, hnow, hu⟩
    · intro hex
      obtain ⟨t', rfl, -, hu⟩ := hex
      exact hu

end WsTicketStore

/-- A call of the store, in the order in which the calls get the lock. -/
inductive TicketCall where
  | issue (id userId : List Char) (now : Nat)
  | consume (ticketId : List Char) (now : Nat)

namespace TicketCall

def exec (s : WsTicketStore) : TicketCall → WsTicketStore
  | issue id userId now => s.issue id userId now
  | consume ticketId now => (s.consume ticketId now).1

def id : TicketCall → List Char
  | issue id _ _ | consume id _ => id

def now : TicketCall → Nat
  | issue _ _ now | consume _ now => now

def Issues (id : List Char) : TicketCall → Prop
  | issue id' _ _ => id' = id
  | consume _ _ => False

/-- The call is for another ticket, and it comes before the deadline. -/
def Spares (id : List Char) (deadline : Nat) (call : TicketCall) : Prop :=
  call.id ≠ id ∧ call.now < deadline

theorem lookup_exec (s : WsTicketStore) (call : TicketCall) (id : List Char) (t : Ticket) :
    (call.exec s).inner.lookup id = some t ↔
      s.inner.lookup id = some t ∧ call.Spares id t.expiresAt ∨
        ∃ issuedAt, call = issue id t.userId issuedAt ∧ t.expiresAt = issuedAt + ticketTtl := by
  cases call with
  | issue id' u now =>
    rw [exec, WsTicketStore.issue, Spares, TicketCall.id, TicketCall.now]
    by_cases hid : id' = id
    · subst hid
      rw [AList.lookup_insert, Option.some.injEq]
      constructor
      · intro heq
        cases heq
        exact .inr ⟨now, rfl, rfl⟩
      · intro h
        obtain h | ⟨issuedAt, heq, hexp⟩ := h
        · exact absurd rfl h.2.1
        · cases heq
          exact congrArg (Ticket.mk t.userId) hexp.symm
    · rw [AList.lookup_insert_ne (Ne.symm hid), WsTicketStore.lookup_pruned]
      constructor
      · intro h
        exact .inl ⟨h.1, hid, h.2⟩
      · intro h
        obtain h | ⟨issuedAt, heq, -⟩ := h
        · exact ⟨h.1, h.2.2⟩
        · cases heq
          exact absurd rfl hid
  | consume id' now =>
    rw [exec, WsTicketStore.consume, Spares, TicketCall.id, TicketCall.now]
    simp only [reduceCtorEq, false_and, exists_false, or_false]
    by_cases hid : id' = id
    · subst hid
      rw [AList.lookup_erase]
      simp only [reduceCtorEq, ne_eq, not_true_eq_false, false_and, and_false]
    · rw [AList.lookup_erase_ne (Ne.symm hid), WsTicketStore.lookup_pruned]
      exact and_congr_right fun _ => ⟨fun h => ⟨hid, h⟩, fun h => h.2⟩

end TicketCall

/-- The user has a ticket of the id: it was issued to him, and every later call was for another
one and came before its deadline. -/
def HoldsTicket (id userId : List Char) (deadline : Nat) (calls : List TicketCall) : Prop :=
  SetSince
    (fun call => ∃ issuedAt, call = .issue id userId issuedAt ∧ deadline = issuedAt + ticketTtl)
    (fun call => call.Spares id deadline) calls

theorem lookup_calls (calls : List TicketCall) (id : List Char) (t : Ticket) :
    (calls.foldl TicketCall.exec .new).inner.lookup id = some t ↔
      HoldsTicket id t.userId t.expiresAt calls := by
  apply foldl_since (P := fun s : WsTicketStore => s.inner.lookup id = some t)
  · intro s call
    exact call.lookup_exec s id t
  · intro h
    rw [WsTicketStore.new, AList.lookup_empty] at h
    cases h

/-- A ticket is accepted for a user exactly if it was issued to him less than thirty seconds
before, no other call has consumed it, and no call has read a clock past its deadline. -/
theorem ticket_accepted_iff (calls : List TicketCall) (id userId : List Char) (now : Nat) :
    ((calls.foldl TicketCall.exec .new).consume id now).2 = some userId ↔
      ∃ before issuedAt after, calls = before ++ .issue id userId issuedAt :: after ∧
        now < issuedAt + ticketTtl ∧
        ∀ call ∈ after, call.id ≠ id ∧ call.now < issuedAt + ticketTtl := by
  rw [WsTicketStore.consume_eq_some_iff]
  constructor
  · intro h
    obtain ⟨t, ht, hnow, rfl⟩ := h
    obtain ⟨before, _, after, heq, ⟨issuedAt, rfl, hexp⟩, hafter⟩ := (lookup_calls calls id t).mp ht
    rw [hexp] at hnow
    refine ⟨before, issuedAt, after, heq, hnow, ?_⟩
    intro call hcall
    exact hexp ▸ hafter call hcall
  · intro h
    obtain ⟨before, issuedAt, after, heq, hnow, hafter⟩ := h
    refine ⟨⟨userId, issuedAt + ticketTtl⟩, (lookup_calls calls id _).mpr ?_, hnow, rfl⟩
    exact ⟨before, _, after, heq, ⟨issuedAt, rfl, rfl⟩, hafter⟩

/-- No ticket whose id is drawn once is accepted twice. -/
theorem ticket_accepted_once (past later : List TicketCall) (id u u' : List Char) (now now' : Nat)
    (honce : (past ++ .consume id now :: later).Pairwise fun call call' =>
      call.Issues id → ¬call'.Issues id)
    (h : ((past.foldl TicketCall.exec .new).consume id now).2 = some u) :
    (((past ++ .consume id now :: later).foldl TicketCall.exec .new).consume id now').2 ≠
      some u' := by
  intro h'
  have hissues {v : List Char} {deadline : Nat} (call : TicketCall)
      (hset : ∃ issuedAt, call = .issue id v issuedAt ∧ deadline = issuedAt + ticketTtl) :
      call.Issues id := by
    obtain ⟨issuedAt, rfl, -⟩ := hset
    exact rfl
  obtain ⟨t, ht, -⟩ := WsTicketStore.consume_eq_some_iff.mp h
  obtain ⟨t', ht', -⟩ := WsTicketStore.consume_eq_some_iff.mp h'
  have hpast : SetSince (TicketCall.Issues id) (fun call => call.id ≠ id) past :=
    ((lookup_calls past id t).mp ht).mono hissues fun _ hspare => hspare.1
  have hspares : ¬(TicketCall.consume id now).id ≠ id := fun hne => hne rfl
  have hsets : ¬(TicketCall.consume id now).Issues id := fun hno => hno
  apply hpast.once hspares hsets honce
  exact ((lookup_calls _ id t').mp ht').mono hissues fun _ hspare => hspare.1

/-- A second browser that presents a ticket is refused, though the ticket has not expired. -/
theorem ticket_accepted_once_replayed :
    ((TicketCall.exec (TicketCall.exec .new (.issue "t".toList "alice".toList 5))
      (.consume "t".toList 6)).consume "t".toList 7).2 ≠ some "alice".toList :=
  ticket_accepted_once [.issue "t".toList "alice".toList 5] [] "t".toList "alice".toList
    "alice".toList 6 7
    (List.pairwise_pair.mpr fun _ hno => hno) (by decide)

/-- The times in nanoseconds as chrono writes and reads them, and those of a year of four
digits. -/
structure StateClock where
  toRfc3339 : Int → List Char
  parse : List Char → Option Int
  InYears : Int → Prop

structure StateClock.Documented (clock : StateClock) : Prop where
  read : ∀ t, clock.InYears t → clock.parse (clock.toRfc3339 t) = some t
  order : ∀ t t', clock.InYears t → clock.InYears t' → t < t' →
    clock.toRfc3339 t < clock.toRfc3339 t'

def oauthStateTtlSecs : Int := 600

/-- A row of `oauth_states`; its key is the state. -/
structure OAuthStateRow where
  provider : List Char
  createdAt : List Char
deriving DecidableEq

/-- The instant before which a state is stale. -/
def stateCutoff (now : Int) : Int := now - oauthStateTtlSecs * second

def eqIgnoreAsciiCase (s t : List Char) : Bool := s.map Char.toLower = t.map Char.toLower

/-- A statement of `save_state` or of `consume_state`. -/
inductive StateStmt where
  | save (state provider : List Char) (now : Int)
  | sweep (now : Int)
  | take (state : List Char)

namespace StateStmt

variable (clock : StateClock)

def exec (table : KeyedMap (List Char) OAuthStateRow) :
    StateStmt → KeyedMap (List Char) OAuthStateRow
  | save state provider now => table.insert state ⟨provider, clock.toRfc3339 now⟩
  | sweep now => table.retain fun _ row =>
      !decide (row.createdAt < clock.toRfc3339 (stateCutoff now))
  | take state => table.erase state

/-- The instants whose texts the statement writes or compares are of a year of four digits. -/
def InYears : StateStmt → Prop
  | save _ _ now => clock.InYears now
  | sweep now => clock.InYears (stateCutoff now)
  | take _ => True

/-- The statement leaves the row of the state alone. -/
def SparesText (state createdAt : List Char) : StateStmt → Prop
  | save state' _ _ | take state' => state' ≠ state
  | sweep now => ¬createdAt < clock.toRfc3339 (stateCutoff now)

def Saves (state : List Char) : StateStmt → Prop
  | save state' _ _ => state' = state
  | sweep _ | take _ => False

def Spares (state : List Char) (created : Int) : StateStmt → Prop
  | save state' _ _ | take state' => state' ≠ state
  | sweep now => stateCutoff now ≤ created

variable {clock}

theorem lookup_exec (table : KeyedMap (List Char) OAuthStateRow) (stmt : StateStmt) :
    (stmt.exec clock table).lookup state = some row ↔
      table.lookup state = some row ∧ stmt.SparesText clock state row.createdAt ∨
        ∃ now, stmt = save state row.provider now ∧ clock.toRfc3339 now = row.createdAt := by
  cases stmt with
  | save state' provider now =>
    rw [exec, SparesText]
    by_cases hstate : state' = state
    · subst hstate
      rw [AList.lookup_insert, Option.some.injEq]
      constructor
      · intro heq
        cases heq
        exact .inr ⟨now, rfl, rfl⟩
      · intro h
        obtain h | ⟨now', heq, hcreated⟩ := h
        · exact absurd rfl h.2
        · cases heq
          exact congrArg (OAuthStateRow.mk row.provider) hcreated
    · rw [AList.lookup_insert_ne (Ne.symm hstate)]
      constructor
      · intro h
        exact .inl ⟨h, hstate⟩
      · intro h
        obtain h | ⟨now', heq, -⟩ := h
        · exact h.1
        · cases heq
          exact absurd rfl hstate
  | sweep now =>
    rw [exec, SparesText, KeyedMap.lookup_retain, Bool.not_eq_true', decide_eq_false_iff_not]
    simp only [reduceCtorEq, false_and, exists_false, or_false]
  | take state' =>
    rw [exec, SparesText]
    simp only [reduceCtorEq, false_and, exists_false, or_false]
    by_cases hstate : state' = state
    · subst hstate
      rw [AList.lookup_erase]
      simp only [reduceCtorEq, ne_eq, not_true_eq_false, and_false]
    · rw [AList.lookup_erase_ne (Ne.symm hstate)]
      exact (and_iff_left hstate).symm

theorem sparesText_iff (hdoc : clock.Documented) {stmt : StateStmt} (hstmt : stmt.InYears clock)
    (hcreated : clock.InYears created) :
    stmt.SparesText clock state (clock.toRfc3339 created) ↔ stmt.Spares state created := by
  cases stmt with
  | save state' provider now => exact Iff.rfl
  | take state' => exact Iff.rfl
  | sweep now =>
    rw [SparesText, Spares]
    constructor
    · intro hnot
      by_contra hlt
      exact hnot (hdoc.order _ _ hcreated hstmt (not_le.mp hlt))
    · intro hle hlt
      obtain hcut | hcut := hle.eq_or_lt
      · rw [hcut] at hlt
        exact List.lt_irrefl _ hlt
      · exact List.lt_asymm hlt (hdoc.order _ _ hstmt hcreated hcut)

end StateStmt

/-- What `consume_state` makes of the row it has deleted. -/
def stateFresh (clock : StateClock) (row : OAuthStateRow) (now : Int) : Bool :=
  match clock.parse row.createdAt with
  | some created => decide ((now - created).tdiv second ≤ oauthStateTtlSecs)
  | none => false

/-- The answer of `consume_state` where the row is looked up and deleted in the table. -/
def stateAccepted (clock : StateClock) (table : KeyedMap (List Char) OAuthStateRow)
    (state provider : List Char) (now : Int) : Bool :=
  match table.lookup state with
  | some row => stateFresh clock row now && eqIgnoreAsciiCase row.provider provider
  | none => false

/-- `consume_state`, when no other statement comes between its own. -/
def consumeState (clock : StateClock) (table : KeyedMap (List Char) OAuthStateRow)
    (state provider : List Char) (sweepNow now : Int) :
    KeyedMap (List Char) OAuthStateRow × Bool :=
  let swept := StateStmt.exec clock table (.sweep sweepNow)
  (StateStmt.exec clock swept (.take state), stateAccepted clock swept state provider now)

theorem tdiv_second_le_iff (elapsed secs : Int) (hsecs : 0 ≤ secs) :
    elapsed.tdiv second ≤ secs ↔ elapsed < (secs + 1) * second := by
  have hpos : (0 : Int) < (second : Nat) := by decide
  obtain hneg | hnonneg := lt_or_ge elapsed 0
  · have hback : 0 ≤ (-elapsed).tdiv second := Int.tdiv_nonneg (by omega) hpos.le
    rw [Int.neg_tdiv] at hback
    have hprod : 0 < (secs + 1) * (second : Nat) := Int.mul_pos (by omega) hpos
    exact iff_of_true (by omega) (hneg.trans hprod)
  · rw [Int.tdiv_eq_ediv_of_nonneg hnonneg, ← Int.lt_add_one_iff, Int.ediv_lt_iff_lt_mul hpos]

theorem lookup_stmts (clock : StateClock) (stmts : List StateStmt) (state : List Char)
    (row : OAuthStateRow) :
    (stmts.foldl (StateStmt.exec clock) ∅).lookup state = some row ↔
      SetSince (fun stmt => ∃ now, stmt = .save state row.provider now ∧
          clock.toRfc3339 now = row.createdAt)
        (fun stmt => stmt.SparesText clock state row.createdAt) stmts := by
  apply foldl_since (P := fun table : KeyedMap _ _ => table.lookup state = some row)
  · intro table stmt
    exact stmt.lookup_exec table
  · intro h
    rw [AList.lookup_empty] at h
    cases h

theorem stateAccepted_iff {clock : StateClock} {table : KeyedMap (List Char) OAuthStateRow} :
    stateAccepted clock table state provider now = true ↔
      ∃ row, table.lookup state = some row ∧ stateFresh clock row now = true ∧
        eqIgnoreAsciiCase row.provider provider = true := by
  rw [stateAccepted]
  cases table.lookup state with
  | none =>
    constructor
    · intro h
      cases h
    · intro h
      obtain ⟨row, hrow, -⟩ := h
      cases hrow
  | some row =>
    rw [Bool.and_eq_true]
    constructor
    · intro h
      exact ⟨row, rfl, h⟩
    · intro h
      obtain ⟨row', heq, h⟩ := h
      cases heq
      exact h

theorem stateFresh_iff {clock : StateClock} (hread : clock.parse row.createdAt = some created) :
    stateFresh clock row now = true ↔ now - created < (oauthStateTtlSecs + 1) * second := by
  rw [stateFresh, hread, decide_eq_true_eq]
  exact tdiv_second_le_iff _ _ (by decide)

/-- However the statements of the calls come together, a callback passes the check of its state
exactly if the state was saved for its provider less than 601 seconds before, no other callback has
taken it, no authorize call has saved it again, and no sweep has found it older than 600 seconds. -/
theorem state_accepted_iff (clock : StateClock) (hdoc : clock.Documented) (stmts : List StateStmt)
    (hyears : ∀ stmt ∈ stmts, stmt.InYears clock) (state provider : List Char) (now : Int) :
    stateAccepted clock (stmts.foldl (StateStmt.exec clock) ∅) state provider now = true ↔
      ∃ before saved created after, stmts = before ++ .save state saved created :: after ∧
        eqIgnoreAsciiCase saved provider = true ∧
        now - created < (oauthStateTtlSecs + 1) * second ∧
        ∀ stmt ∈ after, stmt.Spares state created := by
  rw [stateAccepted_iff]
  constructor
  · intro h
    obtain ⟨row, hrow, hfresh, hprovider⟩ := h
    obtain ⟨before, _, after, rfl, ⟨created, rfl, htext⟩, hafter⟩ :=
      (lookup_stmts clock stmts state row).mp hrow
    have hcreated : clock.InYears created :=
      hyears _ (List.mem_append_right before List.mem_cons_self)
    rw [← htext] at hafter
    have hread : clock.parse row.createdAt = some created := htext ▸ hdoc.read created hcreated
    refine ⟨before, row.provider, created, after, rfl, hprovider,
      (stateFresh_iff hread).mp hfresh, ?_⟩
    intro stmt hstmt
    have hin := hyears stmt (List.mem_append_right before (List.mem_cons_of_mem _ hstmt))
    exact (StateStmt.sparesText_iff hdoc hin hcreated).mp (hafter stmt hstmt)
  · intro h
    obtain ⟨before, saved, created, after, rfl, hprovider, hnow, hafter⟩ := h
    have hcreated : clock.InYears created :=
      hyears _ (List.mem_append_right before List.mem_cons_self)
    refine ⟨⟨saved, clock.toRfc3339 created⟩, (lookup_stmts clock _ state _).mpr ?_,
      (stateFresh_iff (hdoc.read created hcreated)).mpr hnow, hprovider⟩
    refine ⟨before, _, after, rfl, ⟨created, rfl, rfl⟩, ?_⟩
    intro stmt hstmt
    have hin := hyears stmt (List.mem_append_right before (List.mem_cons_of_mem _ hstmt))
    exact (StateStmt.sparesText_iff hdoc hin hcreated).mpr (hafter stmt hstmt)

/-- No state that is saved once passes the check twice. -/
theorem state_accepted_once (clock : StateClock) (past later : List StateStmt)
    (state provider provider' : List Char) (now now' : Int)
    (honce : (past ++ .take state :: later).Pairwise fun stmt stmt' =>
      stmt.Saves state → ¬stmt'.Saves state)
    (h : stateAccepted clock (past.foldl (StateStmt.exec clock) ∅) state provider now = true) :
    stateAccepted clock ((past ++ .take state :: later).foldl (StateStmt.exec clock) ∅)
      state provider' now' = false := by
  have hsaves {row : OAuthStateRow} (stmt : StateStmt)
      (hset : ∃ now, stmt = .save state row.provider now ∧
        clock.toRfc3339 now = row.createdAt) : stmt.Saves state := by
    obtain ⟨created, rfl, -⟩ := hset
    exact rfl
  have hspares {createdAt : List Char} (stmt : StateStmt)
      (hspare : stmt.SparesText clock state createdAt) : stmt ≠ .take state := by
    intro heq
    rw [heq] at hspare
    exact hspare rfl
  apply Bool.eq_false_iff.mpr
  intro h'
  obtain ⟨row, hrow, -⟩ := stateAccepted_iff.mp h
  obtain ⟨row', hrow', -⟩ := stateAccepted_iff.mp h'
  have hpast : SetSince (StateStmt.Saves state) (fun stmt => stmt ≠ .take state) past :=
    ((lookup_stmts clock past state row).mp hrow).mono hsaves hspares
  have hno : ¬(StateStmt.take state).Saves state := fun hsave => hsave
  apply hpast.once (fun hne => hne rfl) hno honce
  exact ((lookup_stmts clock _ state row').mp hrow').mono hsaves hspares

/-- Saved at 2023-11-14T22:13:20.005Z. -/
def savedAt : Int := 1700000000 * second + 5000000

/-- A sweep seven seconds later deletes what is older than this. -/
def sweptBefore : Int := savedAt - 593 * second

def twoInstants : StateClock where
  toRfc3339 t := rfc3339Text t.toNat
  parse text := [savedAt, sweptBefore].find? fun t => rfc3339Text t.toNat = text
  InYears t := t ∈ [savedAt, sweptBefore]

theorem twoInstants_documented : twoInstants.Documented := by
  have hlt : rfc3339Text sweptBefore.toNat < rfc3339Text savedAt.toNat := by decide +kernel
  have hmem (t : Int) (ht : twoInstants.InYears t) : t = savedAt ∨ t = sweptBefore :=
    List.mem_pair.mp ht
  constructor
  case read =>
    intro t ht
    obtain rfl | rfl := hmem t ht
    · decide +kernel
    · decide +kernel
  case order =>
    intro t t' ht ht' hless
    obtain rfl | rfl := hmem t ht
    · obtain rfl | rfl := hmem t' ht'
      · exact absurd hless (lt_irrefl _)
      · exact absurd hless (by decide)
    · obtain rfl | rfl := hmem t' ht'
      · exact hlt
      · exact absurd hless (lt_irrefl _)

def oneState : List StateStmt :=
  [.save "nonce".toList "Google".toList savedAt, .sweep (savedAt + 7 * second)]

theorem state_accepted_iff_google :
    stateAccepted twoInstants (oneState.foldl (StateStmt.exec twoInstants) ∅) "nonce".toList
        "google".toList (savedAt + 7 * second) = true ↔
      ∃ before saved created after,
        oneState = before ++ .save "nonce".toList saved created :: after ∧
        eqIgnoreAsciiCase saved "google".toList = true ∧
        savedAt + 7 * second - created < (oauthStateTtlSecs + 1) * second ∧
        ∀ stmt ∈ after, stmt.Spares "nonce".toList created :=
  state_accepted_iff twoInstants twoInstants_documented oneState
    (by
      intro stmt hstmt
      rw [oneState, List.mem_pair] at hstmt
      obtain rfl | rfl := hstmt
      · exact List.mem_cons_self
      · exact List.mem_cons_of_mem _ List.mem_cons_self)
    "nonce".toList "google".toList (savedAt + 7 * second)

theorem state_accepted_once_google :
    stateAccepted twoInstants ((oneState ++ [StateStmt.take "nonce".toList]).foldl
      (StateStmt.exec twoInstants) ∅) "nonce".toList "google".toList (savedAt + 8 * second) =
        false :=
  state_accepted_once twoInstants oneState [] "nonce".toList "google".toList "google".toList
    (savedAt + 7 * second) (savedAt + 8 * second)
    (by
      rw [oneState]
      simp [StateStmt.Saves])
    (by decide +kernel)

end AiFw.Auth
