import AiFw.Lib.Binary64
import AiFw.Lib.Buckets
import AiFw.Net.Network
import Mathlib.Logic.Function.Basic

namespace AiFw.Ai
open AiFw.Lib AiFw.Net
set_option autoImplicit true

abbrev Uuid := BitVec 128

inductive ThreatType where
  | portScan
  | ddos
  | bruteForce
  | c2Beacon
  | dnsTunnel
  | anomaly
  | signatureMatch
deriving DecidableEq, Repr

/-- A threat as the responder reads it. -/
structure Threat where
  id : Uuid
  threatType : ThreatType
  score : F64
  sourceIp : IpAddr
  description : List Char

inductive ResponseAction where
  | alert
  | rateLimit
  | tempBlock
  | permBlock
deriving DecidableEq, Repr

/-- The settings a response is taken by. -/
structure ResponseConfig where
  rateLimitThreshold : F64
  tempBlockThreshold : F64
  permBlockThreshold : F64
  tempBlockDurationSecs : UInt64
  blockTable : List Char
  ratelimitTable : List Char

structure TempBlock where
  ip : IpAddr
  threatId : Uuid
  expiresAt : Int
  reason : List Char

structure ResponseRecord where
  threatId : Uuid
  threatType : ThreatType
  sourceIp : IpAddr
  score : F64
  action : ResponseAction
  timestamp : Int

/-- The tables of pf by their names. -/
abbrev PfTables := List Char → List IpAddr

def addTableEntry (tables : PfTables) (table : List Char) (ip : IpAddr) : PfTables :=
  Function.update tables table (pushNew (tables table) ip)

def removeTableEntry (tables : PfTables) (table : List Char) (ip : IpAddr) : PfTables :=
  Function.update tables table ((tables table).filter fun a => a ≠ ip)

structure AutoResponder where
  tables : PfTables
  tempBlocks : List TempBlock
  history : List ResponseRecord

def nanosPerSec : Int := 10 ^ 9

/-- `Duration::seconds` of the cast duration, in nanoseconds; it panics outside of its range. -/
def durationSeconds (secs : UInt64) : Option Int :=
  let s := secs.toInt64.toInt
  if -9223372036854775 ≤ s ∧ s ≤ 9223372036854775 then some (s * nanosPerSec) else none

/-- The first and the last instant a date can name. -/
def minInstant : Int := -8334601228800 * nanosPerSec
def maxInstant : Int := 8210266876799 * nanosPerSec + 999999999

/-- The end of a temporary block that starts now; the sum panics past the last date. -/
def expiryFrom (config : ResponseConfig) (now : Int) : Option Int :=
  (durationSeconds config.tempBlockDurationSecs).bind fun d =>
    if minInstant ≤ now + d ∧ now + d ≤ maxInstant then some (now + d) else none

def determineAction (config : ResponseConfig) (threat : Threat) : ResponseAction :=
  if config.permBlockThreshold.le threat.score then .permBlock
  else if config.tempBlockThreshold.le threat.score then .tempBlock
  else if config.rateLimitThreshold.le threat.score then .rateLimit
  else .alert

namespace AutoResponder

/-- A responder before its first call; the other tables hold what others put there. -/
def fresh (tables : PfTables) : AutoResponder := { tables, tempBlocks := [], history := [] }

def record (s : AutoResponder) (threat : Threat) (action : ResponseAction) (timestamp : Int) :
    AutoResponder :=
  let entry : ResponseRecord := {
    threatId := threat.id
    threatType := threat.threatType
    sourceIp := threat.sourceIp
    score := threat.score
    action
    timestamp }
  { s with history := s.history ++ [entry] }

def block (config : ResponseConfig) (s : AutoResponder) (ip : IpAddr) : AutoResponder :=
  { s with tables := addTableEntry s.tables config.blockTable ip }

/-- The clock is read once for the end of a block and once for the record. A call that panics
answers nothing and has changed nothing. -/
def respond (config : ResponseConfig) (s : AutoResponder) (threat : Threat)
    (now recordedAt : Int) : Option ResponseAction × AutoResponder :=
  match determineAction config threat with
  | .alert => (some .alert, s.record threat .alert recordedAt)
  | .rateLimit =>
    let s := { s with tables := addTableEntry s.tables config.ratelimitTable threat.sourceIp }
    (some .rateLimit, s.record threat .rateLimit recordedAt)
  | .tempBlock =>
    match expiryFrom config now with
    | none => (none, s)
    | some expires =>
      let s := s.block config threat.sourceIp
      let entry : TempBlock := {
        ip := threat.sourceIp
        threatId := threat.id
        expiresAt := expires
        reason := threat.description }
      let s := { s with tempBlocks := s.tempBlocks ++ [entry] }
      (some .tempBlock, s.record threat .tempBlock recordedAt)
  | .permBlock =>
    (some .permBlock, (s.block config threat.sourceIp).record threat .permBlock recordedAt)

def expired (s : AutoResponder) (now : Int) : List TempBlock :=
  s.tempBlocks.filter fun b => b.expiresAt ≤ now

def expireTempBlocks (config : ResponseConfig) (s : AutoResponder) (now : Int) :
    Nat × AutoResponder :=
  ((s.expired now).length,
    { s with
      tempBlocks := s.tempBlocks.filter fun b => ¬ b.expiresAt ≤ now
      tables := (s.expired now).foldl
        (fun tables b => removeTableEntry tables config.blockTable b.ip) s.tables })

/-- A call, with the readings of the clock it takes. -/
inductive Op where
  | respond (threat : Threat) (now recordedAt : Int)
  | expire (now : Int)

def Op.now : Op → Int
  | .respond _ now _ => now
  | .expire now => now

def step (config : ResponseConfig) (s : AutoResponder) : Op → AutoResponder
  | .respond threat now recordedAt => (s.respond config threat now recordedAt).2
  | .expire now => (s.expireTempBlocks config now).2

def run (config : ResponseConfig) (tables : PfTables) (ops : List Op) : AutoResponder :=
  ops.foldl (step config) (fresh tables)

/-- What a call answers does not depend on the calls before it. -/
def answer (config : ResponseConfig) (threat : Threat) (now : Int) : Option ResponseAction :=
  match determineAction config threat with
  | .tempBlock => (expiryFrom config now).map fun _ => .tempBlock
  | action => some action

theorem respond_answer (config : ResponseConfig) (s : AutoResponder) (threat : Threat)
    (now recordedAt : Int) :
    (s.respond config threat now recordedAt).1 = answer config threat now := by
  unfold respond answer
  cases determineAction config threat with
  | alert | rateLimit | permBlock => rfl
  | tempBlock => cases expiryFrom config now <;> rfl

def blocked (config : ResponseConfig) (s : AutoResponder) : List IpAddr :=
  s.tables config.blockTable

theorem mem_addTableEntry {tables : PfTables} :
    a ∈ addTableEntry tables table ip table' ↔ a ∈ tables table' ∨ table' = table ∧ a = ip := by
  unfold addTableEntry
  by_cases h : table' = table
  · rw [h, Function.update_self, mem_pushNew]
    simp only [true_and]
  · rw [Function.update_of_ne h]
    exact ⟨.inl, fun ha => ha.elim id fun ha => absurd ha.1 h⟩

theorem mem_removeTableEntries {tables : PfTables} (blocks : List TempBlock) :
    a ∈ blocks.foldl (fun tables b => removeTableEntry tables table b.ip) tables table ↔
      a ∈ tables table ∧ ∀ b ∈ blocks, b.ip ≠ a := by
  induction blocks generalizing tables with
  | nil => simp
  | cons b blocks ih =>
    rw [List.foldl_cons, ih, removeTableEntry, Function.update_self, List.mem_filter,
      decide_eq_true_iff, List.forall_mem_cons, and_assoc, ne_comm]

theorem mem_expired {s : AutoResponder} : b ∈ s.expired now ↔ b ∈ s.tempBlocks ∧ b.expiresAt ≤ now := by
  rw [expired, List.mem_filter, decide_eq_true_iff]

section
variable {config : ResponseConfig} {s : AutoResponder} {threat : Threat} {now recordedAt : Int}

/-- An address is blocked after a call if it was before, or the call blocks it, or the call rate
limits it and both tables have one name. -/
theorem mem_blocked_respond : a ∈ (s.respond config threat now recordedAt).2.blocked config ↔
    a ∈ s.blocked config ∨ a = threat.sourceIp ∧
      (answer config threat now = some .permBlock ∨ answer config threat now = some .tempBlock ∨
        answer config threat now = some .rateLimit ∧ config.blockTable = config.ratelimitTable) := by
  unfold respond answer blocked
  cases determineAction config threat with
  | alert => simp [record]
  | rateLimit =>
    simp only [record, mem_addTableEntry]
    simp [and_comm]
  | permBlock =>
    simp only [record, block, mem_addTableEntry]
    simp
  | tempBlock =>
    cases expiryFrom config now with
    | none => simp
    | some expires =>
      simp only [record, block, mem_addTableEntry]
      simp

theorem mem_tempBlocks_respond :
    b ∈ (s.respond config threat now recordedAt).2.tempBlocks ↔
      b ∈ s.tempBlocks ∨ answer config threat now = some .tempBlock ∧
        b.ip = threat.sourceIp ∧ b.threatId = threat.id ∧
        expiryFrom config now = some b.expiresAt ∧ b.reason = threat.description := by
  unfold respond answer
  cases determineAction config threat with
  | alert | rateLimit | permBlock => simp [record, block]
  | tempBlock =>
    cases expiryFrom config now with
    | none => simp
    | some expires =>
      simp only [record, block, List.mem_append, List.mem_singleton, Option.map_some, true_and]
      apply or_congr_right
      constructor
      · rintro rfl
        exact ⟨rfl, rfl, rfl, rfl⟩
      · rintro ⟨hip, hid, hat, hreason⟩
        cases b
        cases hip
        cases hid
        cases hat
        cases hreason
        rfl

theorem mem_blocked_expire : a ∈ (s.expireTempBlocks config now).2.blocked config ↔
    a ∈ s.blocked config ∧ ∀ b ∈ s.tempBlocks, b.expiresAt ≤ now → b.ip ≠ a := by
  unfold blocked expireTempBlocks
  rw [mem_removeTableEntries]
  apply and_congr_right
  intro _
  constructor
  · intro h b hb hnow
    exact h b (mem_expired.mpr ⟨hb, hnow⟩)
  · intro h b hb
    obtain ⟨hb, hnow⟩ := mem_expired.mp hb
    exact h b hb hnow

theorem mem_tempBlocks_expire :
    b ∈ (s.expireTempBlocks config now).2.tempBlocks ↔ b ∈ s.tempBlocks ∧ now < b.expiresAt := by
  unfold expireTempBlocks
  rw [List.mem_filter, decide_eq_true_iff, not_le]

end

end AutoResponder

end AiFw.Ai
