import AiFw.Acme.CertPem
import AiFw.Lib.Results
import AiFw.Lib.Table
import AiFw.Pf.NatOrder
import AiFw.Pf.Types

namespace AiFw.Acme
open AiFw.Lib
open AiFw.Pf (Rfc3339 byteLen)
set_option autoImplicit true

inductive ChallengeType where
  | dns01
  | http01
deriving DecidableEq

namespace ChallengeType

def asStr : ChallengeType → List Char
  | dns01 => "dns-01".toList
  | http01 => "http-01".toList

def fromStr (s : List Char) : ChallengeType := if s = "http-01".toList then http01 else dns01

end ChallengeType

inductive CertStatus where
  | pending
  | active
  | failed
  | renewing
  | expired
deriving DecidableEq

namespace CertStatus

def asStr : CertStatus → List Char
  | pending => "pending".toList
  | active => "active".toList
  | failed => "failed".toList
  | renewing => "renewing".toList
  | expired => "expired".toList

def fromStr (s : List Char) : CertStatus :=
  if s = "active".toList then active
  else if s = "failed".toList then failed
  else if s = "renewing".toList then renewing
  else if s = "expired".toList then expired
  else pending

end CertStatus

/-- A row of `acme_cert`. -/
structure CertRow where
  id : Int
  commonName : List Char
  sans : List Char
  challengeType : List Char
  dnsProviderId : Option Int
  autoRenew : Int
  renewDaysBeforeExpiry : Int
  status : List Char
  issuedAt : Option (List Char)
  expiresAt : Option (List Char)
  lastRenewAttempt : Option (List Char)
  lastRenewError : Option (List Char)
  certPem : Option (List Char)
  chainPem : Option (List Char)
  keyPem : Option (List Char)
deriving DecidableEq

structure AcmeCert (DateTime : Type) where
  id : Int
  commonName : List Char
  sans : List (List Char)
  challengeType : ChallengeType
  dnsProviderId : Option Int
  autoRenew : Bool
  renewDaysBeforeExpiry : Int
  status : CertStatus
  issuedAt : Option DateTime
  expiresAt : Option DateTime
  lastRenewAttempt : Option DateTime
  lastRenewError : Option (List Char)
  certPem : Option (List Char)
  chainPem : Option (List Char)
  keyPem : Option (List Char)

/-- Times, the reading of a time by a format, and lists of texts in JSON. -/
structure AcmeLibs (DateTime : Type) where
  chrono : Rfc3339 DateTime
  parseFromStr : List Char → Option DateTime
  numDays : DateTime → DateTime → Int
  toJson : List (List Char) → List Char
  fromJson : List Char → Option (List (List Char))

/-- The table, with the last id that it gave out. -/
structure CertTable where
  rows : List CertRow
  seq : Int
deriving DecidableEq

/-- What is outside: the account at the CA, the solver of a DNS provider, and the order for some
names, from its placing up to the download of the bundle, with the key it is for. -/
structure CertAuthority where
  account : Except (List Char) Unit
  solver : Int → Except (List Char) Unit
  order : List (List Char) → Except (List Char) (List Char × List Char)

structure IssueOutcome (DateTime : Type) where
  ok : Bool
  message : List Char
  expiresAt : Option DateTime

section
variable {DateTime : Type} (libs : AcmeLibs DateTime)

def rowToCert (row : CertRow) : AcmeCert DateTime where
  id := row.id
  commonName := row.commonName
  sans := (libs.fromJson row.sans).getD []
  challengeType := .fromStr row.challengeType
  dnsProviderId := row.dnsProviderId
  autoRenew := row.autoRenew ≠ 0
  renewDaysBeforeExpiry := row.renewDaysBeforeExpiry
  status := .fromStr row.status
  issuedAt := row.issuedAt.bind libs.chrono.parse
  expiresAt := row.expiresAt.bind libs.chrono.parse
  lastRenewAttempt := row.lastRenewAttempt.bind libs.chrono.parse
  lastRenewError := row.lastRenewError
  certPem := row.certPem
  chainPem := row.chainPem
  keyPem := row.keyPem

def AcmeCert.needsRenewal (now : DateTime) (c : AcmeCert DateTime) : Bool :=
  if !c.autoRenew then false
  else match c.expiresAt with
    | none => false
    | some t => decide (libs.numDays t now ≤ c.renewDaysBeforeExpiry)

def loadCert (t : CertTable) (id : Int) : Option (AcmeCert DateTime) :=
  (t.rows.find? fun row => row.id = id).map (rowToCert libs)

def loadAllCerts (t : CertTable) : List (AcmeCert DateTime) :=
  (t.rows.mergeSort fun a b => decide (a.commonName ≤ b.commonName)).map (rowToCert libs)

def certsDueForRenewal (t : CertTable) (now : DateTime) : List (AcmeCert DateTime) :=
  (loadAllCerts libs t).filter (AcmeCert.needsRenewal libs now)

end

def validateLabel (label : List Char) : Except (List Char) Unit :=
  if label = [] ∨ byteLen label > 63 then
    .error ("invalid label '".toList ++ label ++ "'".toList)
  else if ¬label.all fun c => c.isAlphanum || c = '-' then
    .error ("label '".toList ++ label ++ "' has invalid characters".toList)
  else if label.head? = some '-' ∨ label.getLast? = some '-' then
    .error ("label '".toList ++ label ++ "' must not start or end with '-'".toList)
  else .ok ()

def validateDnsName (name : List Char) : Except (List Char) Unit := do
  let n := trim name
  if n = [] ∨ byteLen n > 253 then .error "name length out of range".toList
  else
    let body := match n with
      | '*' :: '.' :: rest => rest
      | n => n
    (splitOn '.' body).forM validateLabel
    if '.' ∈ body then .ok () else .error "name must be a fully-qualified domain".toList

/-- The names of an order: each once, in lower case, and checked. -/
def orderNames (seen : List (List Char)) : List (List Char) → Except (List Char) (List (List Char))
  | [] => .ok []
  | n :: later => do
    let n := (trim n).map Char.toLower
    if n = [] ∨ n ∈ seen then orderNames seen later
    else
      validateDnsName n
      let names ← orderNames (n :: seen) later
      return n :: names

/-- How an issue ends: a panic leaves the row as it is then. -/
inductive IssueEnd (α : Type) where
  | done (value : α)
  | err (message : List Char)
  | panicked

section
variable {DateTime : Type} (libs : AcmeLibs DateTime)

def updateRow (t : CertTable) (id : Int) (change : CertRow → CertRow) : CertTable :=
  { t with rows := amend CertRow.id id change t.rows }

def markStatus (t : CertTable) (id : Int) (status : CertStatus) (now : DateTime)
    (err : Option (List Char)) : CertTable :=
  updateRow t id fun row => { row with
    status := status.asStr
    lastRenewAttempt := some (libs.chrono.toRfc3339 now)
    lastRenewError := err }

/-- The update that stores a certificate. -/
def storeCert (t : CertTable) (id : Int) (leaf chain key : List Char) (expiresAt : Option DateTime)
    (now : DateTime) : CertTable :=
  updateRow t id fun row => { row with
    status := CertStatus.active.asStr
    certPem := some leaf
    chainPem := some chain
    keyPem := some key
    issuedAt := some (libs.chrono.toRfc3339 now)
    expiresAt := expiresAt.map libs.chrono.toRfc3339
    lastRenewAttempt := some (libs.chrono.toRfc3339 now)
    lastRenewError := none }

/-- The bundle and the key of the order for a certificate. -/
def orderCert (ca : CertAuthority) (cert : AcmeCert DateTime) :
    Except (List Char) (List Char × List Char) := do
  if cert.challengeType ≠ .dns01 then
    .error ("challenge type ".toList ++ cert.challengeType.asStr ++
      " not implemented yet — only DNS-01 in v1".toList)
  else
    ca.account
    let identifiers ← orderNames [] (cert.commonName :: cert.sans)
    if identifiers = [] then .error "no valid identifiers (CN + SANs all empty)".toList
    else match cert.dnsProviderId with
      | none => .error "DNS-01 cert has no dns_provider_id set".toList
      | some providerId =>
        ca.solver providerId
        ca.order identifiers

def issueInner (ca : CertAuthority) (now : DateTime) (t : CertTable) (cert : AcmeCert DateTime) :
    IssueEnd (DateTime × CertTable) :=
  match orderCert ca cert with
  | .error message => .err message
  | .ok (bundle, key) =>
    let (leaf, chain) := splitPemBundle bundle
    match parseCertExpiry libs.parseFromStr leaf with
    | .error .none => .err "could not parse expiry from issued cert".toList
    | .error .panic => .panicked
    | .ok expiresAt => .done (expiresAt, storeCert libs t cert.id leaf chain key (some expiresAt) now)

/-- No outcome comes of a panic. The targets and the tunnels that a new certificate goes to are
left out: they change no row of the table. -/
def issue (ca : CertAuthority) (now : DateTime) (t : CertTable) (id : Int) :
    Option (IssueOutcome DateTime) × CertTable :=
  match loadCert libs t id with
  | none => (some ⟨false, "cert ".toList ++ (toString id).toList ++ " not found".toList, none⟩, t)
  | some cert =>
    let t := markStatus libs t id .renewing now none
    match issueInner libs ca now t cert with
    | .done (expiresAt, t) =>
      (some ⟨true, "issued, expires ".toList ++ libs.chrono.toRfc3339 expiresAt, some expiresAt⟩, t)
    | .err e => (some ⟨false, e, none⟩, markStatus libs t id .failed now (some e))
    | .panicked => (none, t)

def importExternalCert (t : CertTable) (id : Int) (fullchain key : List Char) (now : DateTime) :
    Option CertTable :=
  let (leaf, chain) := splitPemBundle fullchain
  match parseCertExpiry libs.parseFromStr leaf with
  | .error .panic => none
  | .error .none => some (storeCert libs t id leaf chain key none now)
  | .ok expiresAt => some (storeCert libs t id leaf chain key (some expiresAt) now)

/-- A certificate on its way to a peer. -/
structure CertPush where
  certId : Int
  fullchain : List Char
  key : List Char
deriving DecidableEq

def buildFullchain (cert : AcmeCert DateTime) : List Char :=
  let leaf := cert.certPem.getD []
  let chain := cert.chainPem.getD []
  if chain = [] then leaf else leaf ++ '\n' :: chain

/-- What is pushed after the renewal of a certificate. -/
def pushesOf (t : CertTable) (id : Int) : List CertPush :=
  match loadCert libs t id with
  | none => []
  | some cert =>
    let fullchain := buildFullchain cert
    let key := cert.keyPem.getD []
    if fullchain ≠ [] ∧ key ≠ [] then [⟨id, fullchain, key⟩] else []

/-- The certificates that are due, one after the other: the outcomes and what is pushed to the
peers of a cluster. A panic ends the sweep. -/
def renewEach (ca : Int → CertAuthority) (clustered : Bool) (now : DateTime) (t : CertTable) :
    List Int → List (Int × IssueOutcome DateTime) × List CertPush × CertTable
  | [] => ([], [], t)
  | id :: later =>
    match issue libs (ca id) now t id with
    | (none, t) => ([], [], t)
    | (some outcome, t) =>
      let pushes := if outcome.ok && clustered then pushesOf libs t id else []
      let (outcomes, morePushes, t) := renewEach ca clustered now t later
      ((id, outcome) :: outcomes, pushes ++ morePushes, t)

def renewDue (ca : Int → CertAuthority) (clustered isMaster : Bool) (now : DateTime)
    (t : CertTable) : List (Int × IssueOutcome DateTime) × List CertPush × CertTable :=
  if clustered && !isMaster then ([], [], t)
  else renewEach libs ca clustered now t ((certsDueForRenewal libs t now).map AcmeCert.id)

structure NewCertRequest where
  commonName : List Char
  sans : List (List Char)
  challengeType : List Char
  dnsProviderId : Option Int
  autoRenew : Bool
  renewDaysBeforeExpiry : Int

/-- The message of a refused request is that of the check; the database may refuse the row too. -/
def createCert (t : CertTable) (req : NewCertRequest) (inserted : Except (List Char) Unit) :
    Except (List Char) CertTable := do
  validateDnsName req.commonName
  req.sans.forM validateDnsName
  let challenge := ChallengeType.fromStr req.challengeType
  if challenge = .dns01 ∧ req.dnsProviderId = none then
    .error "dns_provider_id required for DNS-01 certs".toList
  else
    inserted
    return {
      seq := t.seq + 1
      rows := t.rows ++ [{
        id := t.seq + 1
        commonName := req.commonName
        sans := libs.toJson req.sans
        challengeType := challenge.asStr
        dnsProviderId := req.dnsProviderId
        autoRenew := if req.autoRenew then 1 else 0
        renewDaysBeforeExpiry := req.renewDaysBeforeExpiry
        status := "pending".toList
        issuedAt := none
        expiresAt := none
        lastRenewAttempt := none
        lastRenewError := none
        certPem := none
        chainPem := none
        keyPem := none }] }

def deleteCert (t : CertTable) (id : Int) : CertTable :=
  { t with rows := dropKey CertRow.id id t.rows }

end

/-- The tables of the nodes, and the pushes that were sent. -/
structure AcmeCluster where
  tables : Nat → CertTable
  pushes : List CertPush

inductive AcmeOp (DateTime : Type) where
  | create (node : Nat) (req : NewCertRequest) (inserted : Except (List Char) Unit)
  | delete (node : Nat) (id : Int)
  | renewNow (node : Nat) (id : Int) (ca : CertAuthority) (now : DateTime)
  | sweep (node : Nat) (ca : Int → CertAuthority) (clustered isMaster : Bool) (now : DateTime)
  | certPush (node : Nat) (push : CertPush) (isMaster : Bool) (now : DateTime)

namespace AcmeCluster
variable {DateTime : Type} (libs : AcmeLibs DateTime)

def setTable (s : AcmeCluster) (node : Nat) (t : CertTable) : AcmeCluster :=
  { s with tables := Function.update s.tables node t }

/-- A push arrives late, more than once or never, but only if it was sent. A master refuses it. -/
def exec (s : AcmeCluster) : AcmeOp DateTime → AcmeCluster × List (IssueOutcome DateTime)
  | .create node req inserted =>
    match createCert libs (s.tables node) req inserted with
    | .ok t => (s.setTable node t, [])
    | .error _ => (s, [])
  | .delete node id => (s.setTable node (deleteCert (s.tables node) id), [])
  | .renewNow node id ca now =>
    let (outcome, t) := issue libs ca now (s.tables node) id
    (s.setTable node t, outcome.toList)
  | .sweep node ca clustered isMaster now =>
    let (outcomes, pushes, t) := renewDue libs ca clustered isMaster now (s.tables node)
    ({ s.setTable node t with pushes := s.pushes ++ pushes }, outcomes.map Prod.snd)
  | .certPush node push isMaster now =>
    if isMaster ∨ push ∉ s.pushes then (s, [])
    else match importExternalCert libs (s.tables node) push.certId push.fullchain push.key now with
      | some t => (s.setTable node t, [])
      | none => (s, [])

def run (s : AcmeCluster) : List (AcmeOp DateTime) → AcmeCluster × List (IssueOutcome DateTime)
  | [] => (s, [])
  | op :: later =>
    let (s, outcomes) := s.exec libs op
    let (s, more) := s.run later
    (s, outcomes ++ more)

def fresh : AcmeCluster := ⟨fun _ => ⟨[], 0⟩, []⟩

end AcmeCluster

/-- Whatever the authority delivers begins with a certificate in PEM, whose DER is one sequence. -/
def CertAuthority.Serves (ca : CertAuthority) : Prop :=
  ∀ names bundle key, ca.order names = .ok (bundle, key) →
    ∃ b : PemBlock, ∃ value rest, bundle = b.text ++ rest ∧ Element 0x30 value b.der

def AcmeOp.Served : AcmeOp DateTime → Prop
  | .renewNow _ _ ca _ => ca.Serves
  | .sweep _ ca _ _ _ => ∀ id, (ca id).Serves
  | .create .. | .delete .. | .certPush .. => True

/-- Nothing was ever stored in the row. -/
structure CertRow.Unissued (row : CertRow) : Prop where
  status : row.status ≠ CertStatus.active.asStr
  issuedAt : row.issuedAt = none
  expiresAt : row.expiresAt = none
  certPem : row.certPem = none
  chainPem : row.chainPem = none
  keyPem : row.keyPem = none

def CertTable.Unissued (t : CertTable) : Prop := ∀ row ∈ t.rows, row.Unissued

section
variable {DateTime : Type} {libs : AcmeLibs DateTime} {t : CertTable} {ca : CertAuthority}

theorem orderCert_ok (h : orderCert ca cert = .ok (bundle, key)) :
    ∃ names, ca.order names = .ok (bundle, key) := by
  rw [orderCert] at h
  split at h
  · cases h
  · obtain ⟨-, -, h⟩ := bind_ok.mp h
    obtain ⟨names, -, h⟩ := bind_ok.mp h
    split at h
    · cases h
    · cases hid : cert.dnsProviderId with
      | none =>
        rw [hid] at h
        cases h
      | some providerId =>
        rw [hid] at h
        obtain ⟨-, -, h⟩ := bind_ok.mp h
        exact ⟨names, h⟩

/-- The expiry of what the authority delivers is not found. -/
theorem issueInner_err (hserves : ca.Serves) (now : DateTime) (cert : AcmeCert DateTime) :
    ∃ e, issueInner libs ca now t cert = .err e := by
  rw [issueInner]
  cases horder : orderCert ca cert with
  | error e => exact ⟨e, rfl⟩
  | ok delivered =>
    obtain ⟨bundle, key⟩ := delivered
    obtain ⟨names, hnames⟩ := orderCert_ok horder
    obtain ⟨b, value, rest, rfl, helement⟩ := hserves names bundle key hnames
    have hexpiry := parseCertExpiry_leaf libs.parseFromStr b helement rest
    refine ⟨"could not parse expiry from issued cert".toList, ?_⟩
    dsimp only
    rw [hexpiry]

theorem CertTable.Unissued.markStatus (h : t.Unissued) (hstatus : status ≠ .active) (id : Int)
    (now : DateTime) (err : Option (List Char)) :
    (markStatus libs t id status now err).Unissued := by
  intro row hrow
  obtain ⟨old, hold, rfl⟩ := List.mem_map.mp hrow
  have hrowOld := h old hold
  split
  · refine ⟨?_, hrowOld.issuedAt, hrowOld.expiresAt, hrowOld.certPem, hrowOld.chainPem,
      hrowOld.keyPem⟩
    cases status with
    | active => exact absurd rfl hstatus
    | pending | failed | renewing | expired =>
      dsimp only
      decide
  · exact hrowOld

theorem CertTable.Unissued.issue (h : t.Unissued) (hserves : ca.Serves) (now : DateTime) (id : Int) :
    (issue libs ca now t id).2.Unissued ∧
      ∀ outcome ∈ (issue libs ca now t id).1, outcome.ok = false := by
  rw [Acme.issue]
  cases hload : loadCert libs t id with
  | none =>
    refine ⟨h, fun outcome houtcome => ?_⟩
    cases houtcome
    rfl
  | some cert =>
    obtain ⟨e, he⟩ : ∃ e, issueInner libs ca now
        (Acme.markStatus libs t id .renewing now none) cert = .err e :=
      issueInner_err hserves now cert
    dsimp only
    rw [he]
    have hmarked : (Acme.markStatus libs t id .renewing now none).Unissued :=
      h.markStatus (by decide) id now none
    refine ⟨hmarked.markStatus (by decide) id now (some e), fun outcome houtcome => ?_⟩
    cases houtcome
    rfl

/-- A row without an expiry is not due. -/
theorem CertTable.Unissued.due (h : t.Unissued) (now : DateTime) :
    certsDueForRenewal libs t now = [] := by
  rw [certsDueForRenewal, List.filter_eq_nil_iff]
  intro cert hcert
  obtain ⟨row, hrow, rfl⟩ := List.mem_map.mp hcert
  have hexpiry := (h row (List.mem_mergeSort.mp hrow)).expiresAt
  rw [AcmeCert.needsRenewal, rowToCert]
  dsimp only
  rw [hexpiry]
  split <;> exact Bool.false_ne_true

theorem CertTable.Unissued.renewDue (h : t.Unissued) (ca : Int → CertAuthority)
    (clustered isMaster : Bool) (now : DateTime) :
    renewDue libs ca clustered isMaster now t = ([], [], t) := by
  rw [Acme.renewDue, h.due]
  split <;> rfl

theorem CertTable.Unissued.createCert (h : t.Unissued)
    (hcreate : createCert libs t req inserted = .ok t') : t'.Unissued := by
  rw [Acme.createCert] at hcreate
  obtain ⟨-, -, hcreate⟩ := bind_ok.mp hcreate
  obtain ⟨-, -, hcreate⟩ := bind_ok.mp hcreate
  dsimp only at hcreate
  by_cases hmissing : ChallengeType.fromStr req.challengeType = .dns01 ∧ req.dnsProviderId = none
  · rw [if_pos hmissing] at hcreate
    cases hcreate
  · rw [if_neg hmissing] at hcreate
    obtain ⟨-, -, hcreate⟩ := bind_ok.mp hcreate
    cases hcreate
    intro row hrow
    cases List.mem_append.mp hrow with
    | inl hold => exact h row hold
    | inr hnew =>
      rw [List.mem_singleton.mp hnew]
      refine ⟨?_, rfl, rfl, rfl, rfl, rfl⟩
      dsimp only
      decide

theorem CertTable.Unissued.deleteCert (h : t.Unissued) (id : Int) : (deleteCert t id).Unissued :=
  fun row hrow => h row (mem_dropKey.mp hrow).1

end

/-- Nothing was issued at any node, and nothing was pushed. -/
structure AcmeCluster.Unissued (s : AcmeCluster) : Prop where
  tables : ∀ node, (s.tables node).Unissued
  pushes : s.pushes = []

namespace AcmeCluster
variable {DateTime : Type} {libs : AcmeLibs DateTime} {s : AcmeCluster}

theorem Unissued.setTable (h : s.Unissued) (ht : t.Unissued) (node : Nat) :
    (s.setTable node t).Unissued := by
  refine ⟨fun node' => ?_, h.pushes⟩
  rw [AcmeCluster.setTable]
  dsimp only
  by_cases hnode : node' = node
  · subst hnode
    rwa [Function.update_self]
  · rw [Function.update_of_ne hnode]
    exact h.tables node'

theorem Unissued.exec (h : s.Unissued) {op : AcmeOp DateTime} (hserved : op.Served) :
    (s.exec libs op).1.Unissued ∧ ∀ outcome ∈ (s.exec libs op).2, outcome.ok = false := by
  cases op with
  | create node req inserted =>
    rw [AcmeCluster.exec]
    cases hcreate : createCert libs (s.tables node) req inserted with
    | ok t => exact ⟨h.setTable ((h.tables node).createCert hcreate) node, List.forall_mem_nil _⟩
    | error e => exact ⟨h, List.forall_mem_nil _⟩
  | delete node id => exact ⟨h.setTable ((h.tables node).deleteCert id) node, List.forall_mem_nil _⟩
  | renewNow node id ca now =>
    obtain ⟨htable, houtcome⟩ : (Acme.issue libs ca now (s.tables node) id).2.Unissued ∧
        ∀ outcome ∈ (Acme.issue libs ca now (s.tables node) id).1, outcome.ok = false :=
      (h.tables node).issue hserved now id
    refine ⟨h.setTable htable node, fun outcome hmem => houtcome outcome ?_⟩
    exact Option.mem_toList.mp hmem
  | sweep node ca clustered isMaster now =>
    rw [AcmeCluster.exec, (h.tables node).renewDue]
    have hset := h.setTable (h.tables node) node
    refine ⟨⟨hset.tables, ?_⟩, List.forall_mem_nil _⟩
    dsimp only
    rw [h.pushes, List.append_nil]
  | certPush node push isMaster now =>
    have hnone : isMaster ∨ push ∉ s.pushes := by
      rw [h.pushes]
      exact .inr List.not_mem_nil
    rw [AcmeCluster.exec, if_pos hnone]
    exact ⟨h, List.forall_mem_nil _⟩

theorem Unissued.run (h : s.Unissued) {ops : List (AcmeOp DateTime)}
    (hserved : ∀ op ∈ ops, op.Served) :
    (s.run libs ops).1.Unissued ∧ ∀ outcome ∈ (s.run libs ops).2, outcome.ok = false := by
  induction ops generalizing s with
  | nil => exact ⟨h, List.forall_mem_nil _⟩
  | cons op ops ih =>
    obtain ⟨hop, hserved⟩ := List.forall_mem_cons.mp hserved
    have hexec : (s.exec libs op).1.Unissued ∧ ∀ outcome ∈ (s.exec libs op).2, outcome.ok = false :=
      h.exec hop
    obtain ⟨hnext, houtcomes⟩ := hexec
    obtain ⟨hlast, hmore⟩ := ih hnext hserved
    refine ⟨hlast, fun outcome hmem => ?_⟩
    cases List.mem_append.mp hmem with
    | inl hnow => exact houtcomes outcome hnow
    | inr hlater => exact hmore outcome hlater

theorem fresh_unissued : fresh.Unissued := ⟨fun _ => List.forall_mem_nil _, rfl⟩

/-- However the authorities answer, no certificate is issued at any node, renewed in a sweep or
pushed to a peer: the walk looks for the content of a certificate after its end. -/
theorem never_issued (libs : AcmeLibs DateTime) {ops : List (AcmeOp DateTime)}
    (hserved : ∀ op ∈ ops, op.Served) :
    (fresh.run libs ops).1.pushes = [] ∧ (∀ outcome ∈ (fresh.run libs ops).2, outcome.ok = false) ∧
      ∀ node, ((fresh.run libs ops).1.tables node).Unissued ∧
        ∀ now, certsDueForRenewal libs ((fresh.run libs ops).1.tables node) now = [] := by
  have hrun : (fresh.run libs ops).1.Unissued ∧
      ∀ outcome ∈ (fresh.run libs ops).2, outcome.ok = false := fresh_unissued.run hserved
  obtain ⟨hlast, houtcomes⟩ := hrun
  exact ⟨hlast.pushes, houtcomes, fun node => ⟨hlast.tables node, (hlast.tables node).due⟩⟩

def plainLibs : AcmeLibs (Fin 60) where
  chrono := Pf.NatRuleRow.minute
  parseFromStr := fun _ => none
  numDays := fun _ _ => 0
  toJson := fun _ => "[]".toList
  fromJson := fun _ => some []

def servingAuthority : CertAuthority where
  account := .ok ()
  solver := fun _ => .ok ()
  order := fun _ => .ok (smallBlock.text, "key".toList)

theorem servingAuthority_serves : servingAuthority.Serves := by
  intro names bundle key h
  cases h
  exact ⟨smallBlock, [0x02, 0x01, 0x05], [], (List.append_nil _).symm,
    ⟨⟨[0x03], .short (by decide), rfl⟩, by decide⟩⟩

def homeOps : List (AcmeOp (Fin 60)) :=
  [.create 0 ⟨"a.de".toList, [], "dns-01".toList, some 1, true, 30⟩ (.ok ()),
    .renewNow 0 1 servingAuthority ⟨3, by decide⟩,
    .sweep 0 (fun _ => servingAuthority) true true ⟨5, by decide⟩]

/-- A certificate is ordered and delivered. -/
theorem never_issued_home :
    (fresh.run plainLibs homeOps).2.map IssueOutcome.message =
        ["could not parse expiry from issued cert".toList] ∧
      (fresh.run plainLibs homeOps).1.pushes = [] ∧
      (∀ outcome ∈ (fresh.run plainLibs homeOps).2, outcome.ok = false) ∧
      ∀ node, ((fresh.run plainLibs homeOps).1.tables node).Unissued ∧
        ∀ now, certsDueForRenewal plainLibs ((fresh.run plainLibs homeOps).1.tables node) now = [] := by
  refine ⟨by decide +kernel, never_issued plainLibs ?_⟩
  intro op hop
  simp only [homeOps, List.mem_cons, List.not_mem_nil, or_false] at hop
  obtain rfl | rfl | rfl := hop
  · trivial
  · exact servingAuthority_serves
  · exact fun _ => servingAuthority_serves

end AcmeCluster

end AiFw.Acme
