import AiFw.Backup.Replica
import AiFw.Lib.Runs

namespace AiFw.Backup
open AiFw.Lib AiFw.Pf
set_option autoImplicit true

variable {Db Part Json : Type}

/-- A call of the API; a request that changes something comes with the writes of its handler. -/
inductive ApiCall (Db : Type) where
  | mutating (writes : List (Db → Db))
  | clusterSnapshotData

/-- Where a call stands between two of its steps. -/
inductive CallPhase (Db Part Json : Type) where
  | handler (writes : List (Db → Db))
  | counted
  | refused
  | load
  | lock (generation : Nat)
  | check (generation : Nat)
  | build (generation : Nat) (reads : List (Db → Option Part)) (parts : List Part)
  | returned (json : Json) (hash : List Char)
  | failed

def ApiCall.first : ApiCall Db → CallPhase Db Part Json
  | .mutating writes => .handler writes
  | .clusterSnapshotData => .load

/-- An export reads the database one table after another, and writes what it has read as JSON. -/
structure ClusterExport (Db Part Json : Type) where
  reads : List (Db → Option Part)
  serialize : List Part → Option Json
  sha256Hex : Json → List Char

/-- `ClusterSnapshotCache` with a generation that never wraps. -/
structure CachedSnapshot (Json : Type) where
  generation : Nat
  builtAt : Nat
  json : Json
  hash : List Char

/-- The counter does not wrap either. A run of fewer than `2 ^ 64` calls never brings it so far, and
below that `SnapshotState.alone` leads back to the counter of 64 bits. -/
structure SnapshotState (Db Json : Type) where
  db : Db
  configGeneration : Nat
  locked : Bool
  cache : Option (CachedSnapshot Json)

/-- What a step finds outside: the clock, whether the response of a handler is a success, and
whether the future of the call is dropped. -/
structure StepInput where
  now : Nat
  success : Bool
  dropped : Bool

namespace CallPhase

def holdsLock : CallPhase Db Part Json → Bool
  | .check _ | .build .. => true
  | _ => false

def isCounted : CallPhase Db Part Json → Bool
  | .counted => true
  | _ => false

def drop : CallPhase Db Part Json → CallPhase Db Part Json
  | .handler _ => .refused
  | .load | .lock _ | .check _ | .build .. => .failed
  | p => p

end CallPhase

namespace SnapshotState

/-- The guard of the lock goes with the call that holds it. -/
def release (s : SnapshotState Db Json) (p : CallPhase Db Part Json) : SnapshotState Db Json :=
  if p.holdsLock then { s with locked := false } else s

variable (x : ClusterExport Db Part Json)

/-- `auto_snapshot_middleware` and `cluster_snapshot_data`, step by step. -/
def callStep (o : StepInput) (s : SnapshotState Db Json) (p : CallPhase Db Part Json) :
    SnapshotState Db Json × CallPhase Db Part Json :=
  if o.dropped then (s.release p, p.drop) else
  match p with
  | .handler (write :: writes) => ({ s with db := write s.db }, .handler writes)
  | .handler [] =>
    if o.success then ({ s with configGeneration := s.configGeneration + 1 }, .counted)
    else (s, .refused)
  | .load => (s, .lock s.configGeneration)
  | .lock generation =>
    if s.locked then (s, .lock generation) else ({ s with locked := true }, .check generation)
  | .check generation =>
    match s.cache.filter fun c =>
      c.generation == generation && decide (o.now - c.builtAt < maxAge) with
    | some c => ({ s with locked := false }, .returned c.json c.hash)
    | none => (s, .build generation x.reads [])
  | .build generation (read :: reads) parts =>
    match read s.db with
    | some part => (s, .build generation reads (parts ++ [part]))
    | none => ({ s with locked := false }, .failed)
  | .build generation [] parts =>
    match x.serialize parts with
    | none => ({ s with locked := false }, .failed)
    | some json =>
      let hash := x.sha256Hex json
      ({ s with locked := false, cache := some ⟨generation, o.now, json, hash⟩ },
        .returned json hash)
  | .counted | .refused | .returned .. | .failed => (s, p)

theorem callStep_counted (o : StepInput) (s : SnapshotState Db Json) :
    s.callStep x o .counted = (s, .counted) := by
  unfold callStep
  split
  · rfl
  · rfl

/-- What a step of a call can do; who holds the lock makes no difference for it. -/
inductive Moves (now : Nat) (s : SnapshotState Db Json) :
    CallPhase Db Part Json → SnapshotState Db Json → CallPhase Db Part Json → Prop where
  | waits (locked : Bool) : Moves now s p { s with locked := locked } p
  | ends (locked : Bool) (h : p' = .refused ∨ p' = .failed) :
      Moves now s p { s with locked := locked } p'
  | writes : Moves now s (.handler (write :: writes)) { s with db := write s.db } (.handler writes)
  | counts :
      Moves now s (.handler []) { s with configGeneration := s.configGeneration + 1 } .counted
  | loads : Moves now s .load s (.lock s.configGeneration)
  | locks : Moves now s (.lock generation) { s with locked := true } (.check generation)
  | hits (h : s.cache = some c) :
      Moves now s (.check c.generation) { s with locked := false } (.returned c.json c.hash)
  | misses : Moves now s (.check generation) s (.build generation x.reads [])
  | reads {read : Db → Option Part} (h : read s.db = some part) :
      Moves now s (.build generation (read :: reads) parts) s
        (.build generation reads (parts ++ [part]))
  | stores (h : x.serialize parts = some json) :
      Moves now s (.build generation [] parts)
        { s with
            locked := false
            cache := some ⟨generation, now, json, x.sha256Hex json⟩ }
        (.returned json (x.sha256Hex json))

/-- Only a call that is counted raises the counter, by one. -/
theorem Moves.counter_le (h : Moves x now s p s' p') :
    s'.configGeneration ≤ s.configGeneration + if p'.isCounted then 1 else 0 := by
  cases h with
  | counts => exact le_rfl
  | waits | ends | writes | loads | locks | hits | misses | reads | stores =>
    exact Nat.le_add_right _ _

theorem drop_cases (p : CallPhase Db Part Json) :
    p.drop = p ∨ p.drop = .refused ∨ p.drop = .failed := by
  cases p with
  | handler writes => exact .inr (.inl rfl)
  | load | lock | check | build => exact .inr (.inr rfl)
  | counted | refused | returned | failed => exact .inl rfl

theorem callStep_moves (o : StepInput) (s : SnapshotState Db Json) (p : CallPhase Db Part Json) :
    Moves x o.now s p (s.callStep x o p).1 (s.callStep x o p).2 := by
  have hwaits : Moves x o.now s p s p := .waits s.locked
  unfold callStep
  split
  · have hrelease : s.release p = { s with locked := (s.release p).locked } := by
      unfold release
      split
      · rfl
      · rfl
    rw [hrelease]
    obtain hp | hp := drop_cases p
    · rw [hp]
      exact .waits _
    · exact .ends _ hp
  · cases p with
    | handler writes =>
      cases writes with
      | nil =>
        dsimp only
        split
        · exact .counts
        · exact .ends s.locked (.inl rfl)
      | cons write writes => exact .writes
    | load => exact .loads
    | lock generation =>
      dsimp only
      split
      · exact hwaits
      · exact .locks
    | check generation =>
      dsimp only
      split
      · rename_i c hfilter
        obtain ⟨hcache, hfresh⟩ := Option.filter_eq_some_iff.mp hfilter
        have hgeneration : c.generation = generation :=
          beq_iff_eq.mp (Bool.and_eq_true_iff.mp hfresh).1
        subst hgeneration
        exact .hits hcache
      · exact .misses
    | build generation reads parts =>
      cases reads with
      | nil =>
        dsimp only
        split
        · exact .ends false (.inr rfl)
        · exact .stores ‹_›
      | cons read reads =>
        dsimp only
        split
        · exact .reads ‹_›
        · exact .ends false (.inr rfl)
    | counted | refused | returned | failed => exact hwaits

end SnapshotState

/-- What `cluster_export_payload` reads, one after another. -/
inductive ExportPart (F DateTime : Type) where
  | firewall (config : FirewallConfig F DateTime)
  | idsRuleOverrides (overrides : List IdsRuleOverride)
  | idsSuppressions (suppressions : List IdsSuppressionRecord)

namespace AppState
variable (fl : FloatText F) (chrono : Rfc3339 DateTime) (txt : SnapshotText (Payload F DateTime) Json)

def clusterExport : ClusterExport AppState (ExportPart F DateTime) Json where
  reads := [
    fun s => (s.buildCurrentConfig fl chrono).map .firewall,
    fun s => some (.idsRuleOverrides s.ids.ruleOverrides),
    fun s => some (.idsSuppressions s.ids.suppressionRecords)]
  serialize
    | [.firewall config, .idsRuleOverrides overrides, .idsSuppressions suppressions] =>
      some (txt.toJson ⟨config, overrides, suppressions⟩)
    | _ => none
  sha256Hex := txt.sha256Hex

end AppState

def CachedSnapshot.entry (c : CachedSnapshot Json) : ClusterSnapshotCache Json where
  generation := UInt64.ofNat c.generation
  builtAt := c.builtAt
  json := c.json
  hash := c.hash

def CallPhase.answer : CallPhase Db Part Json → Option (Json × List Char)
  | .returned json hash => some (json, hash)
  | _ => none

theorem entry_generation {c : CachedSnapshot Json} {g : Nat} (hc : c.generation < 2 ^ 64)
    (hg : g < 2 ^ 64) : (c.entry.generation == UInt64.ofNat g) = (c.generation == g) := by
  rw [Bool.eq_iff_iff, beq_iff_eq, beq_iff_eq]
  constructor
  · intro h
    have hnat := congrArg UInt64.toNat h
    rwa [CachedSnapshot.entry, UInt64.toNat_ofNat_of_lt' hc, UInt64.toNat_ofNat_of_lt' hg] at hnat
  · intro h
    rw [CachedSnapshot.entry, h]

/-- Where nothing comes between its steps, and the counter has not wrapped, a call that holds the
lock returns and stores what the whole function does. -/
theorem SnapshotState.alone (fl : FloatText F) (chrono : Rfc3339 DateTime)
    (txt : SnapshotText (AppState.Payload F DateTime) Json) (s : SnapshotState AppState Json)
    (now g : Nat) (hg : g < 2 ^ 64) (hcache : ∀ c, s.cache = some c → c.generation < 2 ^ 64) :
    ∃ n t p, (List.replicate n ⟨now, true, false⟩).foldl
        (fun q o => q.1.callStep (AppState.clusterExport fl chrono txt) o q.2) (s, .check g) =
          (t, p) ∧ t.db = s.db ∧ t.locked = false ∧
      AppState.clusterSnapshotData fl chrono txt now (UInt64.ofNat g)
        (s.cache.map CachedSnapshot.entry) s.db = (p.answer, t.cache.map CachedSnapshot.entry) := by
  have hfilter : (s.cache.map CachedSnapshot.entry).filter (fun c =>
      c.generation == UInt64.ofNat g && decide (now - c.builtAt < maxAge)) =
      (s.cache.filter fun c => c.generation == g && decide (now - c.builtAt < maxAge)).map
        CachedSnapshot.entry := by
    cases h : s.cache with
    | none => rfl
    | some c =>
      rw [Option.map_some, Option.filter_some, Option.filter_some, entry_generation (hcache c h) hg,
        apply_ite (Option.map CachedSnapshot.entry)]
      rfl
  unfold AppState.clusterSnapshotData
  rw [hfilter]
  cases hhit : s.cache.filter fun c => c.generation == g && decide (now - c.builtAt < maxAge) with
  | some c =>
    refine ⟨1, { s with locked := false }, .returned c.json c.hash, ?_, rfl, rfl, rfl⟩
    simp only [List.replicate, List.foldl_cons, List.foldl_nil, callStep, hhit]
    rfl
  | none =>
    have hmiss : s.callStep (AppState.clusterExport fl chrono txt) ⟨now, true, false⟩ (.check g) =
        (s, .build g (AppState.clusterExport fl chrono txt).reads []) := by
      simp only [callStep, hhit]
      rfl
    cases hbuild : s.db.buildCurrentConfig fl chrono with
    | none =>
      refine ⟨2, { s with locked := false }, .failed, ?_, rfl, rfl, ?_⟩
      · rw [List.replicate_succ, List.foldl_cons, hmiss]
        simp only [List.replicate, List.foldl_cons, List.foldl_nil, callStep,
          AppState.clusterExport, hbuild]
        rfl
      · rw [AppState.clusterExportPayload, hbuild]
        rfl
    | some config =>
      let json := txt.toJson ⟨config, s.db.ids.ruleOverrides, s.db.ids.suppressionRecords⟩
      let hash := txt.sha256Hex json
      refine ⟨5, { s with locked := false, cache := some ⟨g, now, json, hash⟩ },
        .returned json hash, ?_, rfl, rfl, ?_⟩
      · rw [List.replicate_succ, List.foldl_cons, hmiss]
        simp only [List.replicate, List.foldl_cons, List.foldl_nil, callStep,
          AppState.clusterExport, hbuild]
        rfl
      · rw [AppState.clusterExportPayload, hbuild]
        rfl

end AiFw.Backup
