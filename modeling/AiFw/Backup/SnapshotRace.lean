import AiFw.Backup.SnapshotCache
import Mathlib.Data.List.Infix

namespace AiFw.Backup
open AiFw.Lib
set_option autoImplicit true

variable {Db Part Json : Type}

/-- Calls of the API over one database, one counter and one cache. -/
abbrev SnapshotRace (Db Part Json : Type) :=
  Interleaved (SnapshotState Db Json) (CallPhase Db Part Json)

namespace SnapshotRace
variable (x : ClusterExport Db Part Json)

def step (s : SnapshotRace Db Part Json) (e : Nat × StepInput) : SnapshotRace Db Part Json :=
  Interleaved.step (fun o s p => s.callStep x o p) s e

/-- The server has just started, and every call has its first step ahead. -/
def start (db : Db) (calls : List (ApiCall Db)) : SnapshotRace Db Part Json where
  shared := ⟨db, 0, false, none⟩
  calls := calls.map ApiCall.first

def after (db : Db) (calls : List (ApiCall Db)) (events : List (Nat × StepInput)) :
    SnapshotRace Db Part Json :=
  events.foldl (step x) (start db calls)

variable (db : Db) (calls : List (ApiCall Db))

def generation (events : List (Nat × StepInput)) : Nat :=
  (after x db calls events).shared.configGeneration

/-- Each part was read at a moment of the run at which the counter had the generation. -/
def ReadSince (events : List (Nat × StepInput)) (g : Nat) (reads : List (Db → Option Part))
    (parts : List Part) : Prop :=
  List.Forall₂ (fun read part => ∃ past, List.IsPrefix past events ∧
    g ≤ generation x db calls past ∧ read (after x db calls past).shared.db = some part) reads parts

def ExportedSince (events : List (Nat × StepInput)) (g : Nat) (json : Json) (hash : List Char) :
    Prop :=
  ∃ parts, ReadSince x db calls events g x.reads parts ∧ x.serialize parts = some json ∧
    hash = x.sha256Hex json

/-- What a call knows was true at a moment since it loaded its generation. -/
def CallTraced (events : List (Nat × StepInput)) : CallPhase Db Part Json → Prop
  | .lock g | .check g => g ≤ generation x db calls events
  | .build g reads parts => g ≤ generation x db calls events ∧
      ∃ done, x.reads = done ++ reads ∧ ReadSince x db calls events g done parts
  | _ => True

/-- The invariant of the runs. -/
structure Traced (events : List (Nat × StepInput)) : Prop where
  traced : ∀ i p, (after x db calls events).At i p → CallTraced x db calls events p
  cached : ∀ c, (after x db calls events).shared.cache = some c →
    ExportedSince x db calls events c.generation c.json c.hash

/-- The call has loaded its generation at or after the given one, if it has loaded one. -/
def CallSince (events : List (Nat × StepInput)) (g : Nat) : CallPhase Db Part Json → Prop
  | .lock g' | .check g' | .build g' _ _ => g ≤ g'
  | .returned json hash => ExportedSince x db calls events g json hash
  | _ => True

theorem after_concat (events : List (Nat × StepInput)) (e : Nat × StepInput) :
    after x db calls (events ++ [e]) = step x (after x db calls events) e := List.foldl_concat ..

theorem step_moves (s : SnapshotRace Db Part Json) (e : Nat × StepInput) :
    s.step x e = s ∨ ∃ p p', s.At e.1 p ∧
      SnapshotState.Moves x e.2.now s.shared p (s.step x e).shared p' ∧
      ∀ j q, (s.step x e).At j q ↔ e.1 = j ∧ q = p' ∨ e.1 ≠ j ∧ s.At j q := by
  obtain hsame | ⟨p, hp, hshared, hat⟩ :=
    Interleaved.step_cases (fun o s p => s.callStep x o p) s e
  · exact .inl hsame
  · refine .inr ⟨p, _, hp, ?_, hat⟩
    rw [step, hshared]
    exact SnapshotState.callStep_moves x e.2 s.shared p

theorem generation_le_concat (events : List (Nat × StepInput)) (e : Nat × StepInput) :
    generation x db calls events ≤ generation x db calls (events ++ [e]) := by
  unfold generation
  rw [after_concat]
  obtain hsame | ⟨p, p', -, hmove, -⟩ := step_moves x (after x db calls events) e
  · rw [hsame]
  · revert hmove
    generalize (step x (after x db calls events) e).shared = t
    intro hmove
    cases hmove with
    | counts => exact Nat.le_succ _
    | waits | ends | writes | loads | locks | hits | misses | reads | stores => exact le_rfl

theorem generation_mono {past events : List (Nat × StepInput)} (h : List.IsPrefix past events) :
    generation x db calls past ≤ generation x db calls events := by
  obtain ⟨rest, rfl⟩ := h
  induction rest using List.reverseRecOn with
  | nil => rw [List.append_nil]
  | append_singleton rest e ih =>
    rw [← List.append_assoc]
    exact ih.trans (generation_le_concat x db calls _ e)

section
variable {x : ClusterExport Db Part Json} {db : Db} {calls : List (ApiCall Db)}
  {events : List (Nat × StepInput)} {read : Db → Option Part} {hash : List Char}

theorem ReadSince.mono (h : ReadSince x db calls events g reads parts)
    (hp : List.IsPrefix events events') : ReadSince x db calls events' g reads parts :=
  h.imp fun _ _ ⟨past, hpast, hread⟩ => ⟨past, hpast.trans hp, hread⟩

theorem ReadSince.of_le (h : ReadSince x db calls events g reads parts) (hle : g' ≤ g) :
    ReadSince x db calls events g' reads parts :=
  h.imp fun _ _ ⟨past, hpast, hg, hread⟩ => ⟨past, hpast, hle.trans hg, hread⟩

theorem ReadSince.concat (h : ReadSince x db calls events g reads parts)
    (hg : g ≤ generation x db calls events)
    (hread : read (after x db calls events).shared.db = some part) :
    ReadSince x db calls events g (reads ++ [read]) (parts ++ [part]) :=
  List.rel_append h (.cons ⟨events, List.prefix_refl events, hg, hread⟩ .nil)

theorem ExportedSince.mono (h : ExportedSince x db calls events g json hash)
    (hp : List.IsPrefix events events') : ExportedSince x db calls events' g json hash := by
  obtain ⟨parts, hparts, hjson⟩ := h
  exact ⟨parts, hparts.mono hp, hjson⟩

theorem ExportedSince.of_le (h : ExportedSince x db calls events g json hash) (hle : g' ≤ g) :
    ExportedSince x db calls events g' json hash := by
  obtain ⟨parts, hparts, hjson⟩ := h
  exact ⟨parts, hparts.of_le hle, hjson⟩

theorem CallTraced.concat (h : CallTraced x db calls events p) (e : Nat × StepInput) :
    CallTraced x db calls (events ++ [e]) p := by
  have hle := generation_le_concat x db calls events e
  cases p with
  | lock g | check g => exact le_trans h hle
  | build g reads parts =>
    obtain ⟨hg, done, hreads, hdone⟩ := h
    exact ⟨hg.trans hle, done, hreads, hdone.mono (List.prefix_append events [e])⟩
  | handler | counted | refused | load | returned | failed => trivial

/-- A step of a call keeps what the call knows, and what is known of the cache. -/
theorem Traced.moves (h : Traced x db calls events) (hp : (after x db calls events).At i p)
    (hmove : SnapshotState.Moves x now (after x db calls events).shared p s' p') :
    CallTraced x db calls events p' ∧ ∀ c, s'.cache = some c →
      ExportedSince x db calls events c.generation c.json c.hash := by
  have hcall := h.traced i p hp
  cases hmove with
  | waits locked => exact ⟨hcall, h.cached⟩
  | ends locked hend =>
    obtain rfl | rfl := hend
    · exact ⟨trivial, h.cached⟩
    · exact ⟨trivial, h.cached⟩
  | writes | counts => exact ⟨trivial, h.cached⟩
  | loads => exact ⟨le_rfl, h.cached⟩
  | locks => exact ⟨hcall, h.cached⟩
  | hits hcache => exact ⟨trivial, h.cached⟩
  | misses => exact ⟨⟨hcall, [], rfl, .nil⟩, h.cached⟩
  | reads hread =>
    obtain ⟨hg, done, hreads, hdone⟩ := hcall
    refine ⟨⟨hg, done ++ [_], ?_, hdone.concat hg hread⟩, h.cached⟩
    rw [hreads, List.append_assoc, List.singleton_append]
  | stores hjson =>
    obtain ⟨hg, done, hreads, hdone⟩ := hcall
    rw [List.append_nil] at hreads
    refine ⟨trivial, ?_⟩
    rintro c hc
    cases hc
    exact ⟨_, hreads ▸ hdone, hjson, rfl⟩

theorem Traced.concat (h : Traced x db calls events) (e : Nat × StepInput) :
    Traced x db calls (events ++ [e]) := by
  have hprefix := List.prefix_append events [e]
  constructor
  case traced =>
    intro j q hq
    rw [after_concat] at hq
    obtain hsame | ⟨p, p', hp, hmove, hat⟩ := step_moves x (after x db calls events) e
    · rw [hsame] at hq
      exact (h.traced j q hq).concat e
    · obtain ⟨-, rfl⟩ | ⟨-, hq⟩ := (hat j q).mp hq
      · exact (h.moves hp hmove).1.concat e
      · exact (h.traced j q hq).concat e
  case cached =>
    intro c hc
    rw [after_concat] at hc
    obtain hsame | ⟨p, p', hp, hmove, -⟩ := step_moves x (after x db calls events) e
    · rw [hsame] at hc
      exact (h.cached c hc).mono hprefix
    · exact ((h.moves hp hmove).2 c hc).mono hprefix

theorem traced_start : Traced x db calls [] where
  traced := by
    intro i p hp
    obtain ⟨call, -, rfl⟩ := List.mem_map.mp (List.mem_of_getElem? hp)
    cases call with
    | mutating writes => trivial
    | clusterSnapshotData => trivial
  cached := fun _ hc => nomatch hc

theorem traced_run (events : List (Nat × StepInput)) : Traced x db calls events := by
  induction events using List.reverseRecOn with
  | nil => exact traced_start
  | append_singleton events e ih => exact ih.concat e

/-- The counter is never ahead of the calls that are counted. -/
theorem counter_le_step {s : SnapshotRace Db Part Json} (e : Nat × StepInput)
    (h : s.shared.configGeneration ≤ s.calls.countP CallPhase.isCounted) :
    (s.step x e).shared.configGeneration ≤ (s.step x e).calls.countP CallPhase.isCounted := by
  unfold step Interleaved.step
  cases hp : s.calls[e.1]? with
  | none => exact h
  | some p =>
    obtain ⟨hlt, hget⟩ := List.getElem?_eq_some_iff.mp hp
    have hmove := (SnapshotState.callStep_moves x e.2 s.shared p).counter_le
    have hone : (if p.isCounted then 1 else 0) ≤ s.calls.countP CallPhase.isCounted := by
      split
      · next hcounted => exact List.countP_pos_iff.mpr ⟨p, List.mem_of_getElem? hp, hcounted⟩
      · exact Nat.zero_le _
    dsimp only
    rw [List.countP_set hlt, hget]
    cases p with
    | counted =>
      rw [SnapshotState.callStep_counted]
      exact h.trans (Nat.sub_add_cancel hone).ge
    | handler | refused | load | lock | check | build | returned | failed =>
      exact hmove.trans (Nat.add_le_add_right h _)

theorem generation_le_calls (events : List (Nat × StepInput)) :
    generation x db calls events ≤ calls.length := by
  have hrun : generation x db calls events ≤
      (after x db calls events).calls.countP CallPhase.isCounted ∧
        (after x db calls events).calls.length = calls.length := by
    induction events using List.reverseRecOn with
    | nil => exact ⟨Nat.zero_le _, List.length_map _⟩
    | append_singleton events e ih =>
      unfold generation
      rw [after_concat]
      exact ⟨counter_le_step e ih.1, (Interleaved.length_step _ _ e).trans ih.2⟩
  exact hrun.2 ▸ hrun.1.trans List.countP_le_length

theorem cached_le (events : List (Nat × StepInput)) :
    ∀ c, (after x db calls events).shared.cache = some c →
      c.generation ≤ generation x db calls events := by
  induction events using List.reverseRecOn with
  | nil => exact fun _ hc => nomatch hc
  | append_singleton events e ih =>
    intro c hc
    have hle := generation_le_concat x db calls events e
    rw [after_concat] at hc
    obtain hsame | ⟨p, p', hp, hmove, -⟩ := step_moves x (after x db calls events) e
    · rw [hsame] at hc
      exact (ih c hc).trans hle
    · revert hc hmove
      generalize (step x (after x db calls events) e).shared = t
      intro hc hmove
      cases hmove with
      | stores =>
        cases hc
        exact ((traced_run events).traced _ _ hp).1.trans hle
      | waits | ends | writes | counts | loads | locks | hits | misses | reads =>
        exact (ih c hc).trans hle

/-- In a run of fewer than `2 ^ 64` calls a counter of 64 bits does not wrap. -/
theorem generations_fit (hcalls : calls.length < 2 ^ 64) (events : List (Nat × StepInput)) :
    generation x db calls events < 2 ^ 64 ∧
      ∀ c, (after x db calls events).shared.cache = some c → c.generation < 2 ^ 64 := by
  have hlt : generation x db calls events < 2 ^ 64 := (generation_le_calls events).trans_lt hcalls
  exact ⟨hlt, fun c hc => (cached_le events c hc).trans_lt hlt⟩

theorem CallSince.concat (h : CallSince x db calls events g p) (e : Nat × StepInput) :
    CallSince x db calls (events ++ [e]) g p := by
  cases p with
  | lock | check | build => exact h
  | returned json hash => exact h.mono (List.prefix_append events [e])
  | handler | counted | refused | load | failed => trivial

/-- A call that has loaded no generation before goes on with one that is as new as the counter. -/
theorem CallSince.moves (h : CallSince x db calls events g p) (htraced : Traced x db calls events)
    (hp : (after x db calls events).At i p) (hg : g ≤ generation x db calls events)
    (hmove : SnapshotState.Moves x now (after x db calls events).shared p s' p') :
    CallSince x db calls events g p' := by
  cases hmove with
  | waits locked => exact h
  | ends locked hend =>
    obtain rfl | rfl := hend
    · trivial
    · trivial
  | writes | counts => trivial
  | loads => exact hg
  | locks => exact h
  | hits hcache => exact (htraced.cached _ hcache).of_le h
  | misses | reads => exact h
  | stores hjson =>
    obtain ⟨-, done, hreads, hdone⟩ := htraced.traced i _ hp
    rw [List.append_nil] at hreads
    exact ⟨_, (hreads ▸ hdone).of_le h, hjson, rfl⟩

theorem callSince_run (later : List (Nat × StepInput)) (hload : (after x db calls past).At j .load)
    (hp : (after x db calls (past ++ later)).At j p) :
    CallSince x db calls (past ++ later) (generation x db calls past) p := by
  induction later using List.reverseRecOn generalizing p with
  | nil =>
    rw [List.append_nil] at hp
    rw [hp.unique hload]
    trivial
  | append_singleton later e ih =>
    rw [← List.append_assoc, after_concat] at hp
    rw [← List.append_assoc]
    have hg := generation_mono x db calls (List.prefix_append past later)
    obtain hsame | ⟨q, q', hq, hmove, hat⟩ :=
      step_moves x (after x db calls (past ++ later)) e
    · rw [hsame] at hp
      exact (ih hp).concat e
    · obtain ⟨rfl, rfl⟩ | ⟨-, hp⟩ := (hat j p).mp hp
      · exact ((ih hq).moves (traced_run _) hq hg hmove).concat e
      · exact (ih hp).concat e

/-- A request that is counted was so already where the counter has not moved since. -/
theorem counted_concat (hcounted : (after x db calls (events ++ [e])).At i .counted)
    (hsame : generation x db calls (events ++ [e]) = generation x db calls events) :
    (after x db calls events).At i .counted := by
  unfold generation at hsame
  rw [after_concat] at hcounted hsame
  obtain heq | ⟨p, p', hp, hmove, hat⟩ := step_moves x (after x db calls events) e
  · rwa [heq] at hcounted
  · obtain ⟨rfl, rfl⟩ | ⟨-, hcounted⟩ := (hat i _).mp hcounted
    · revert hmove hsame
      generalize (step x (after x db calls events) e).shared = t
      intro hsame hmove
      cases hmove with
      | waits => exact hp
      | ends locked hend =>
        obtain hend | hend := hend
        · cases hend
        · cases hend
      | counts => exact absurd hsame (Nat.succ_ne_self _)
    · exact hcounted

theorem counted_stays (hcounted : (after x db calls events).At i .counted) (e : Nat × StepInput) :
    (after x db calls (events ++ [e])).At i .counted := by
  rw [after_concat]
  apply Interleaved.At.step_of_stays hcounted
  intro o s
  rw [SnapshotState.callStep_counted]

theorem counted_of_prefix (hcounted : (after x db calls past).At i .counted)
    (h : List.IsPrefix past events) : (after x db calls events).At i .counted := by
  obtain ⟨rest, rfl⟩ := h
  induction rest using List.reverseRecOn with
  | nil => rwa [List.append_nil]
  | append_singleton rest e ih =>
    rw [← List.append_assoc]
    exact counted_stays ih e

theorem counted_of_generation (hcounted : (after x db calls events).At i .counted)
    (h : List.IsPrefix past events)
    (hg : generation x db calls events ≤ generation x db calls past) :
    (after x db calls past).At i .counted := by
  obtain ⟨rest, rfl⟩ := h
  induction rest using List.reverseRecOn with
  | nil => rwa [List.append_nil] at hcounted
  | append_singleton rest e ih =>
    rw [← List.append_assoc] at hcounted hg
    have hpast := generation_mono x db calls
      (List.prefix_append past rest)
    have hlast := generation_le_concat x db calls (past ++ rest) e
    have hsame := le_antisymm (hg.trans hpast) hlast
    exact ih (counted_concat hcounted hsame) (hlast.trans hg)

end

/-- In every interleaving, a call that loads the generation once a request is counted returns what
was read from the database after the last write of that request. -/
theorem export_follows_writes (past later : List (Nat × StepInput)) (i j : Nat)
    (hcounted : (after x db calls past).At i .counted)
    (hload : (after x db calls past).At j .load) (json : Json) (sha256 : List Char)
    (hreturned : (after x db calls (past ++ later)).At j (.returned json sha256)) :
    ∃ parts, x.serialize parts = some json ∧ sha256 = x.sha256Hex json ∧
      List.Forall₂ (fun read part => ∃ seen, List.IsPrefix seen (past ++ later) ∧
        (after x db calls seen).At i .counted ∧
        read (after x db calls seen).shared.db = some part) x.reads parts := by
  obtain ⟨parts, hparts, hjson, hhash⟩ := callSince_run later hload hreturned
  refine ⟨parts, hjson, hhash, hparts.imp ?_⟩
  rintro read part ⟨seen, hseen, hg, hread⟩
  refine ⟨seen, hseen, ?_, hread⟩
  -- either the counter was loaded after the read, or the read came first and the counter stood
  obtain hle | hle := List.prefix_or_prefix_of_prefix (List.prefix_append past later) hseen
  · exact counted_of_prefix hcounted hle
  · exact counted_of_generation hcounted hle hg

/-- The database is a number, and the export reads it. -/
def numberExport : ClusterExport Nat Nat (List Nat) := ⟨[some], some, fun _ => []⟩

/-- A request that adds one, between two snapshots. -/
def threeCalls : List (ApiCall Nat) :=
  [.clusterSnapshotData, .mutating [Nat.succ], .clusterSnapshotData]

def schedule (calls : List Nat) : List (Nat × StepInput) := calls.map fun i => (i, ⟨0, true, false⟩)

/-- The first snapshot stores what it has read after the change under the generation before it,
and the second one reads the database again. -/
theorem export_follows_increment :
    ∃ parts, numberExport.serialize parts = some [1] ∧ [] = numberExport.sha256Hex [1] ∧
      List.Forall₂ (fun read part => ∃ seen,
        List.IsPrefix seen (schedule [0, 0, 0, 1, 1, 0, 0] ++ schedule [2, 2, 2, 2, 2]) ∧
          (after numberExport 0 threeCalls seen).At 1 .counted ∧
          read (after numberExport 0 threeCalls seen).shared.db = some part)
        numberExport.reads parts :=
  export_follows_writes numberExport 0 threeCalls (schedule [0, 0, 0, 1, 1, 0, 0])
    (schedule [2, 2, 2, 2, 2]) 1 2 rfl rfl [1] [] rfl

end SnapshotRace

end AiFw.Backup
