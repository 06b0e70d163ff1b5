import AiFw.Auth.RecoveryCodes
import AiFw.Auth.Totp

namespace AiFw.Auth
open AiFw.Lib
set_option autoImplicit true

def hex4 (n : Nat) : List Char :=
  let ds := (Nat.toDigits 16 n).map Char.toUpper
  List.replicate (4 - ds.length) '0' ++ ds

/-- A recovery code, from the first six bytes of a random id. -/
def recoveryCode (u : Uuid) : List Char :=
  hex4 (u.toNat / 2 ^ 112 % 2 ^ 16) ++ '-' :: hex4 (u.toNat / 2 ^ 96 % 2 ^ 16) ++
    '-' :: hex4 (u.toNat / 2 ^ 80 % 2 ^ 16)

example : recoveryCode 0x0F1E2D3C4B5A00000000000000000000 = "0F1E-2D3C-4B5A".toList := by
  decide +kernel

/-- The columns of the user's row that the second factor is kept in, and the recovery codes. -/
structure TotpStore where
  totpSecret : Option (List Char)
  totpEnabled : Bool
  recoveryCodes : List RecoveryRow
deriving DecidableEq

/-- The statements of the handlers, all for one user. -/
inductive TotpStmt where
  | saveSecret (secret : List Char)
  | enable
  | disable
  | deleteCodes
  | insertCode (id : Uuid) (code : List Char)

def TotpStmt.run (userId : List Char) (s : TotpStore) : TotpStmt → TotpStore
  | .saveSecret secret => { s with totpSecret := some secret }
  | .enable => { s with totpEnabled := true }
  | .disable => { s with totpEnabled := false, totpSecret := none }
  | .deleteCodes => { s with recoveryCodes := dropKey RecoveryRow.userId userId s.recoveryCodes }
  | .insertCode id code => { s with recoveryCodes := s.recoveryCodes ++ [⟨id, userId, code, false⟩] }

/-- A request of the user, with the random bytes of the secret, the ids of the new rows and those
their codes are made from, or with the time a code is verified at. -/
inductive TotpRequest where
  | setup (bytes : List UInt8) (codes : List (Uuid × Uuid))
  | verify (now : Nat) (code : List Char)
  | disable (now : Nat) (code : List Char)

def saveRecoveryCodes (codes : List (Uuid × Uuid)) : List TotpStmt :=
  .deleteCodes :: codes.map fun c => .insertCode c.1 (recoveryCode c.2)

/-- The statements that a code for the stored secret lets through. -/
def withCode (s : TotpStore) (now : Nat) (code : List Char) (stmts : List TotpStmt) :
    Except StatusCode (List TotpStmt) :=
  match s.totpSecret with
  | none => .error .badRequest
  | some secret => if verify now secret code then .ok stmts else .error .unauthorized

def TotpRequest.statements (s : TotpStore) : TotpRequest → Except StatusCode (List TotpStmt)
  | .setup bytes codes => .ok (.saveSecret (base32Encode bytes) :: saveRecoveryCodes codes)
  | .verify now code => withCode s now code [.enable]
  | .disable now code => withCode s now code [.disable, .deleteCodes]

/-- The first statements go through, and the next one fails if there is one. -/
def TotpRequest.handle (userId : List Char) (s : TotpStore) (req : TotpRequest) (through : Nat) :
    TotpStore × Except StatusCode Unit :=
  match req.statements s with
  | .error status => (s, .error status)
  | .ok stmts =>
    ((stmts.take through).foldl (TotpStmt.run userId) s,
      if stmts.length ≤ through then .ok () else .error .internalServerError)

/-- The store, and the secrets that a `totp_verify` has succeeded for. -/
structure TotpRun where
  store : TotpStore
  proven : List (List Char)

namespace TotpRun

def step (userId : List Char) (t : TotpRun) (e : TotpRequest × Nat) : TotpRun where
  store := (e.1.handle userId t.store e.2).1
  proven :=
    match e.1, (e.1.handle userId t.store e.2).2 with
    | .verify _ _, .ok () => t.store.totpSecret.toList ++ t.proven
    | _, _ => t.proven

/-- A user with no second factor, among the recovery codes of others. -/
def start (rows : List RecoveryRow) : TotpRun := ⟨⟨none, false, rows⟩, []⟩

end TotpRun

/-- The request carries a code for the secret that is stored. -/
def TotpRequest.Presents (s : TotpStore) : TotpRequest → Prop
  | .setup _ _ => False
  | .verify now code | .disable now code =>
    ∃ secret, s.totpSecret = some secret ∧ Auth.verify now secret code = true

def TotpStore.Proven (s : TotpStore) (proven : List (List Char)) : Prop :=
  s.totpEnabled = true → ∃ secret ∈ proven, s.totpSecret = some secret

/-- The second factor of the user: the secret, whether it is enabled and the recovery codes. -/
def TotpStore.factor (userId : List Char) (s : TotpStore) :
    Option (List Char) × Bool × List RecoveryRow :=
  (s.totpSecret, s.totpEnabled, s.recoveryCodes.filter fun r => r.userId = userId)

/-- After the request an enabled secret is a proven one, and where one was enabled before, it has
changed only for a code. -/
def FactorHeld (userId : List Char) (t : TotpRun) (e : TotpRequest × Nat) : Prop :=
  (t.step userId e).store.Proven (t.step userId e).proven ∧
    (t.store.totpEnabled = true →
      (t.step userId e).store.factor userId ≠ t.store.factor userId → e.1.Presents t.store)

/-- No new secret is set up while one is enabled. -/
def SetsUpDisabled (t : TotpRun) (e : TotpRequest × Nat) : Prop :=
  match e.1 with
  | .setup _ _ => e.2 = 0 ∨ t.store.totpEnabled = false
  | .verify _ _ | .disable _ _ => True

theorem withCode_cases (s : TotpStore) (now : Nat) (code : List Char) (stmts : List TotpStmt) :
    (∃ secret, s.totpSecret = some secret ∧ verify now secret code = true ∧
        withCode s now code stmts = .ok stmts) ∨
      ∃ status, withCode s now code stmts = .error status := by
  unfold withCode
  cases s.totpSecret with
  | none => exact .inr ⟨_, rfl⟩
  | some secret =>
    by_cases hv : verify now secret code = true
    · exact .inl ⟨secret, rfl, hv, if_pos hv⟩
    · exact .inr ⟨_, if_neg hv⟩

theorem foldl_keeps_enabled {userId : List Char} {stmts : List TotpStmt}
    (h : ∀ stmt ∈ stmts, ∀ s, (stmt.run userId s).totpEnabled = s.totpEnabled) (s : TotpStore) :
    (stmts.foldl (TotpStmt.run userId) s).totpEnabled = s.totpEnabled := by
  induction stmts generalizing s with
  | nil => rfl
  | cons stmt stmts ih =>
    rw [List.foldl_cons, ih fun stmt' hs => h stmt' (List.mem_cons_of_mem stmt hs)]
    exact h stmt List.mem_cons_self s

/-- However far a setup gets, it does not touch the flag. -/
theorem setup_keeps_enabled (userId : List Char) (bytes : List UInt8) (codes : List (Uuid × Uuid))
    (through : Nat) (s : TotpStore) :
    ((TotpRequest.setup bytes codes).handle userId s through).1.totpEnabled = s.totpEnabled := by
  apply foldl_keeps_enabled
  intro stmt hstmt s
  obtain rfl | hstmt := List.mem_cons.mp (List.mem_of_mem_take hstmt)
  · rfl
  obtain rfl | hstmt := List.mem_cons.mp hstmt
  · rfl
  obtain ⟨c, -, rfl⟩ := List.mem_map.mp hstmt
  rfl

theorem FactorHeld.of_same {userId : List Char} {t : TotpRun} (h : t.store.Proven t.proven)
    (hstep : t.step userId e = t) : FactorHeld userId t e := by
  unfold FactorHeld
  rw [hstep]
  exact ⟨h, fun _ hne => absurd rfl hne⟩

theorem step_of_none_through (userId : List Char) (t : TotpRun) (bytes : List UInt8)
    (codes : List (Uuid × Uuid)) : t.step userId (.setup bytes codes, 0) = t := rfl

theorem FactorHeld.verify {userId : List Char} {t : TotpRun} (h : t.store.Proven t.proven)
    (now : Nat) (code : List Char) (through : Nat) :
    FactorHeld userId t (.verify now code, through) := by
  obtain ⟨secret, hsecret, hcode, hstmts⟩ | ⟨status, hstmts⟩ :=
    withCode_cases t.store now code [.enable]
  · cases through with
    | zero =>
      apply FactorHeld.of_same h
      rw [TotpRun.step, TotpRequest.handle, TotpRequest.statements, hstmts]
      rfl
    | succ through =>
      have hstep : t.step userId (.verify now code, through + 1) =
          ⟨{ t.store with totpEnabled := true }, secret :: t.proven⟩ := by
        rw [TotpRun.step, TotpRequest.handle, TotpRequest.statements, hstmts, hsecret]
        simp only [List.length_singleton, Nat.le_add_left, if_true, List.take_succ_cons,
          List.take_nil, List.foldl_cons, List.foldl_nil, Option.toList_some, List.singleton_append]
        rfl
      constructor
      · rw [hstep]
        exact fun _ => ⟨secret, List.mem_cons_self, hsecret⟩
      · exact fun _ _ => ⟨secret, hsecret, hcode⟩
  · apply FactorHeld.of_same h
    rw [TotpRun.step, TotpRequest.handle, TotpRequest.statements, hstmts]

theorem FactorHeld.disable {userId : List Char} {t : TotpRun} (h : t.store.Proven t.proven)
    (now : Nat) (code : List Char) (through : Nat) :
    FactorHeld userId t (.disable now code, through) := by
  obtain ⟨secret, hsecret, hcode, hstmts⟩ | ⟨status, hstmts⟩ :=
    withCode_cases t.store now code [.disable, .deleteCodes]
  · cases through with
    | zero =>
      apply FactorHeld.of_same h
      rw [TotpRun.step, TotpRequest.handle, TotpRequest.statements, hstmts]
      rfl
    | succ through =>
      have hoff : (t.step userId (.disable now code, through + 1)).store.totpEnabled = false := by
        rw [TotpRun.step, TotpRequest.handle, TotpRequest.statements, hstmts]
        apply foldl_keeps_enabled (s := TotpStmt.run userId t.store .disable)
        intro stmt hstmt s
        rw [List.mem_singleton.mp (List.mem_of_mem_take hstmt)]
        rfl
      constructor
      · intro hon
        rw [hoff] at hon
        cases hon
      · exact fun _ _ => ⟨secret, hsecret, hcode⟩
  · apply FactorHeld.of_same h
    rw [TotpRun.step, TotpRequest.handle, TotpRequest.statements, hstmts]

theorem FactorHeld.of_setsUpDisabled {userId : List Char} {t : TotpRun}
    (h : t.store.Proven t.proven) (hc : SetsUpDisabled t e) : FactorHeld userId t e := by
  obtain ⟨req, through⟩ := e
  cases req with
  | setup bytes codes =>
    obtain hzero | hoff := hc
    · cases hzero
      exact .of_same h (step_of_none_through userId t bytes codes)
    · have hoff' := (setup_keeps_enabled userId bytes codes through t.store).trans hoff
      constructor
      · intro hon
        exact absurd (hoff'.symm.trans hon) Bool.false_ne_true
      · intro hon
        exact absurd (hoff.symm.trans hon) Bool.false_ne_true
  | verify now code => exact .verify h now code through
  | disable now code => exact .disable h now code through

/-- In every run of requests that sets up no secret while one is enabled, the enabled secret is a
proven one and is changed only for a code. -/
theorem factor_held_of_setsUpDisabled (userId : List Char) (rows : List RecoveryRow)
    (requests : List (TotpRequest × Nat))
    (h : Along (TotpRun.step userId) SetsUpDisabled (.start rows) requests) :
    Along (TotpRun.step userId) (FactorHeld userId) (.start rows) requests := by
  apply Along.imp (fun t => t.store.Proven t.proven) ?_ ?_ ?_ h
  · intro t e ht hc
    have hheld : FactorHeld userId t e := .of_setsUpDisabled ht hc
    exact hheld.1
  · intro t e ht hc
    exact .of_setsUpDisabled ht hc
  · intro hon
    cases hon

def firstSecret : List UInt8 := "12345678901234567890".toList.map fun c => UInt8.ofNat c.toNat

def secondSecret : List UInt8 := List.replicate 20 0x0b

/-- A secret is set up, verified and disabled, and another one set up. -/
def inOrder : List (TotpRequest × Nat) :=
  [(.setup firstSecret [(1, 2)], 9), (.verify 59 "287082".toList, 9),
    (.disable 59 "287082".toList, 9), (.setup secondSecret [(3, 4)], 9)]

theorem factor_held_inOrder :
    Along (TotpRun.step "7".toList) SetsUpDisabled (.start []) inOrder ∧
      Along (TotpRun.step "7".toList) (FactorHeld "7".toList) (.start []) inOrder := by
  have hcareful : Along (TotpRun.step "7".toList) SetsUpDisabled (.start []) inOrder := by
    refine ⟨.inr rfl, trivial, trivial, .inr ?_, trivial⟩
    decide +kernel
  exact ⟨hcareful, factor_held_of_setsUpDisabled "7".toList [] inOrder hcareful⟩

/-- A second secret is set up while the first is enabled. -/
def replaced : List (TotpRequest × Nat) :=
  [(.setup firstSecret [(1, 2)], 9), (.verify 59 "287082".toList, 9),
    (.setup secondSecret [(3, 4)], 9)]

/-- The enabled secret is then one that no code was ever given for. -/
theorem setup_replaces_factor :
    ¬∀ (userId : List Char) (rows : List RecoveryRow) (requests : List (TotpRequest × Nat)),
      Along (TotpRun.step userId) (FactorHeld userId) (.start rows) requests := by
  intro h
  obtain ⟨-, -, hheld, -⟩ := h "7".toList [] replaced
  have hon : (replaced.foldl (TotpRun.step "7".toList) (.start [])).store.totpEnabled = true := by
    decide +kernel
  have hsecret : (replaced.foldl (TotpRun.step "7".toList) (.start [])).store.totpSecret =
      some (base32Encode secondSecret) := by decide +kernel
  have hproven : base32Encode secondSecret ∉
      (replaced.foldl (TotpRun.step "7".toList) (.start [])).proven := by decide +kernel
  obtain ⟨secret, hmem, hstored⟩ := hheld.1 hon
  have heq := hsecret.symm.trans hstored
  cases heq
  exact hproven hmem

end AiFw.Auth
