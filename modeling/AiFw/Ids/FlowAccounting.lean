import AiFw.Ids.FlowTable

namespace AiFw.Ids
open AiFw.Net AiFw.Lib
set_option autoImplicit true

theorem AtomicUsize.release_of_le {c : AtomicUsize} (h : n ≤ c.value) :
    c.release n = { c with value := c.value - n } := by
  unfold AtomicUsize.release
  split
  · exact if_pos h
  · rename_i hn
    have he : n = 0 := by omega
    subst n; rfl

namespace FlowTable

variable {t t' : FlowTable}

structure SameConfig (t t' : FlowTable) : Prop where
  maxFlows : t'.maxFlows = t.maxFlows
  depth : t'.maxStreamDepth = t.maxStreamDepth
  budget : t'.reassemblyBudgetBytes = t.reassemblyBudgetBytes

theorem SameConfig.refl (t : FlowTable) : SameConfig t t := ⟨rfl, rfl, rfl⟩

theorem SameConfig.trans (h : SameConfig t u) (h' : SameConfig u v) : SameConfig t v :=
  ⟨h'.maxFlows.trans h.maxFlows, h'.depth.trans h.depth, h'.budget.trans h.budget⟩

def lastTs (e : FlowEntry) : Int := e.2.lastTs

def bytes (l : List FlowEntry) : Nat := (l.map fun e => e.2.bufLen).sum

structure Evicted (n : Nat) (t t' : FlowTable) (batch rest : List FlowEntry) : Prop where
  split : OldestSplit lastTs n t.table.entries batch rest
  kept : t'.table.entries.Perm rest
  total : t'.reassemblyTotal = t.reassemblyTotal.release (bytes batch)
  config : SameConfig t t'

theorem stampTs_le {s s' : Int ×ₗ FlowKey} (h : s ≤ s') : stampTs s ≤ stampTs s' :=
  Prod.Lex.monotone_fst _ _ h

theorem removeBatch {t : FlowTable} (hs : OldestSplit lastTs n t.table.entries batch rest)
    (he : keys = batch.map Sigma.fst) :
    Evicted n t
      { t with
        table := (t.table.removeAll Flow.bufLen keys 0).1
        reassemblyTotal := t.reassemblyTotal.release (t.table.removeAll Flow.bufLen keys 0).2 }
      batch rest := by
  obtain ⟨hk, hf⟩ := KeyedMap.removeAll_spec Flow.bufLen hs.perm 0
  subst he
  refine ⟨hs, hk, ?_, rfl, rfl, rfl⟩
  rw [hf, Nat.zero_add]
  rfl

theorem stamp_snd (l : List FlowEntry) :
    ((l.map stamp).map fun s => (ofLex s).2) = l.map Sigma.fst := by
  rw [List.map_map]
  rfl

/-- Whatever the iteration order, an eviction removes an oldest batch. -/
theorem evictOldestBatch_spec (iter : IterOrder FlowKey Flow) (t : FlowTable) (n : Nat) :
    ∃ batch rest, Evicted n t (t.evictOldestBatch iter n) batch rest := by
  obtain ⟨stamps, hs⟩ := keepOldest_split (fun _ _ => stampTs_le) n
    ((iter.order t.table.entries).map stamp)
  obtain ⟨batch, rest, hb, -, hs'⟩ := hs.of_map
  refine ⟨batch, rest, removeBatch (hs'.of_perm (iter.perm t.table.entries)) ?_⟩
  rw [oldestStamps, ← hb, stamp_snd]

theorem exists_order_evicting {t : FlowTable}
    (hs : OldestSplit lastTs n t.table.entries batch rest) :
    ∃ iter, Evicted n t (t.evictOldestBatch iter n) batch.reverse rest := by
  have hperm : (batch.reverse ++ rest).Perm t.table.entries :=
    ((List.reverse_perm batch).append_right rest).trans hs.perm
  have hs' : OldestSplit lastTs n t.table.entries batch.reverse rest :=
    ⟨hperm, by rw [List.length_reverse, hs.length], fun x hx =>
      hs.le x (List.mem_reverse.mp hx)⟩
  let iter : IterOrder FlowKey Flow :=
    { order := fun l => if l = t.table.entries then batch ++ rest else l
      perm := by
        intro l
        split
        · rename_i he
          rw [he]
          exact hs.perm
        · exact .refl l }
  have hstamps : OldestSplit stampTs n (t.table.entries.map stamp) (batch.map stamp)
      (rest.map stamp) := OldestSplit.map hs
  refine ⟨iter, removeBatch hs' ?_⟩
  have ho : iter.order t.table.entries = batch ++ rest := if_pos rfl
  rw [oldestStamps, ho, List.map_append, keepOldest_batch hstamps, ← List.map_reverse, stamp_snd]

theorem Evicted.subset (h : Evicted n t t' batch rest) : t'.table.entries ⊆ t.table.entries := by
  intro e he
  exact h.split.perm.subset (List.mem_append_right _ (h.kept.subset he))

theorem Evicted.len (h : Evicted n t t' batch rest) : t'.len = t.len - n := by
  have hp := h.split.perm.length_eq
  have hl := h.split.length
  have hk := h.kept.length_eq
  rw [List.length_append] at hp
  change t'.table.entries.length = t.table.entries.length - n
  omega

theorem Evicted.weight (h : Evicted n t t' batch rest) :
    t.table.weight Flow.bufLen = bytes batch + bytes rest := by
  rw [KeyedMap.weight_of_perm Flow.bufLen h.split.perm.symm, List.map_append, List.sum_append]
  rfl

/-- The byte counter agrees with the buffers and has never gone below zero. -/
structure Accounted (t : FlowTable) : Prop where
  total : t.reassemblyTotal.value = t.table.weight Flow.bufLen
  sound : t.reassemblyTotal.underflowed = false

theorem Evicted.counter (h : Evicted n t t' batch rest) (ha : t.Accounted) :
    t'.reassemblyTotal = ⟨bytes rest, false⟩ := by
  have hw := h.weight
  have ht := ha.total
  rw [h.total, AtomicUsize.release_of_le (by omega), ha.sound]
  congr 1
  omega

theorem Evicted.accounted (h : Evicted n t t' batch rest) (ha : t.Accounted) : t'.Accounted := by
  have hc := h.counter ha
  refine ⟨?_, by rw [hc]⟩
  rw [hc, KeyedMap.weight_of_perm Flow.bufLen h.kept]
  rfl

def recordedFlow (choices : Choices) (t : FlowTable) (packet : DecodedPacket) (key : FlowKey)
    (direction : FlowDirection) : Flow :=
  match t.table.lookup key with
  | some flow => flow.update packet direction
  | none => Flow.new choices.flowId key packet t.maxStreamDepth

theorem recordEntry_table (choices : Choices) (t : FlowTable) (packet : DecodedPacket)
    (key : FlowKey) (direction : FlowDirection) :
    (t.recordEntry choices packet key direction).table =
      t.table.insert key (t.recordedFlow choices packet key direction) := by
  unfold recordEntry recordedFlow
  cases t.table.lookup key <;> rfl

theorem recordEntry_config (choices : Choices) (t : FlowTable) (packet : DecodedPacket)
    (key : FlowKey) (direction : FlowDirection) :
    SameConfig t (t.recordEntry choices packet key direction) := ⟨rfl, rfl, rfl⟩

theorem applySignedDelta_nonneg (c : AtomicUsize) (n : Nat) :
    (if (n : Int) ≠ 0 then applySignedDelta c n else c) = { c with value := c.value + n } := by
  split
  · rw [applySignedDelta, if_pos (Int.natCast_nonneg n)]
    rfl
  · rename_i hn
    have he : n = 0 := by omega
    subst n; rfl

theorem recordEntry_accounted {t : FlowTable} (ha : t.Accounted) (choices : Choices)
    (packet : DecodedPacket) (key : FlowKey) (direction : FlowDirection) :
    (t.recordEntry choices packet key direction).Accounted := by
  have hw := KeyedMap.weight_insert Flow.bufLen t.table key
    (t.recordedFlow choices packet key direction)
  rw [← recordEntry_table] at hw
  have ht := ha.total
  unfold recordEntry recordedFlow at *
  cases hl : t.table.lookup key with
  | some flow =>
    simp only [hl] at hw ⊢
    have hb : flow.bufLen ≤ (flow.update packet direction).bufLen := by
      rw [flow.bufLen_update]
      exact Nat.le_add_right _ _
    have he := KeyedMap.weight_erase Flow.bufLen hl
    rw [← Int.ofNat_sub hb, applySignedDelta_nonneg]
    refine ⟨?_, ha.sound⟩
    rw [hw]
    simp only
    omega
  | none =>
    simp only [hl] at hw ⊢
    rw [applySignedDelta_nonneg]
    refine ⟨?_, ha.sound⟩
    rw [hw, KeyedMap.erase_of_none hl]
    simp only
    omega

theorem Evicted.lookup (h : Evicted n t t' batch rest) (hl : t'.table.lookup k = some f) :
    t.table.lookup k = some f :=
  KeyedMap.mem_entries.mp (h.subset (KeyedMap.mem_entries (e := ⟨k, f⟩).mpr hl))

theorem evictAtCap_cases (choices : Choices) (t : FlowTable) (key : FlowKey) :
    (t.evictAtCap choices key = t ∧ (t.table.lookup key = none → t.len < t.maxFlows)) ∨
      (t.table.lookup key = none ∧ ∃ n batch rest, t.len - t.maxFlows + 1 ≤ n ∧
        Evicted n t (t.evictAtCap choices key) batch rest) := by
  unfold evictAtCap
  split
  · rename_i hc
    obtain ⟨batch, rest, he⟩ := t.evictOldestBatch_spec choices.capOrder
      (max (t.len - t.maxFlows + 1) (min (t.len / 10) evictBatch))
    exact .inr ⟨hc.1, _, batch, rest, Nat.le_max_left _ _, he⟩
  · rename_i hc
    exact .inl ⟨rfl, fun hk => Nat.lt_of_not_le fun hle => hc ⟨hk, hle⟩⟩

theorem evictAtCap_config (choices : Choices) (t : FlowTable) (key : FlowKey) :
    SameConfig t (t.evictAtCap choices key) := by
  rcases t.evictAtCap_cases choices key with ⟨he, -⟩ | ⟨-, n, batch, rest, -, he⟩
  · rw [he]
    exact .refl t
  · exact he.config

theorem evictAtCap_lookup (choices : Choices) (t : FlowTable) (key : FlowKey) :
    (t.evictAtCap choices key).table.lookup key = t.table.lookup key := by
  rcases t.evictAtCap_cases choices key with ⟨he, -⟩ | ⟨hk, n, batch, rest, -, he⟩
  · rw [he]
  · rw [hk]
    cases hl : (t.evictAtCap choices key).table.lookup key with
    | none => rfl
    | some f => rw [he.lookup hl] at hk; cases hk

theorem recordedFlow_evictAtCap (choices : Choices) (t : FlowTable) (packet : DecodedPacket)
    (key : FlowKey) (direction : FlowDirection) :
    (t.evictAtCap choices key).recordedFlow choices packet key direction =
      t.recordedFlow choices packet key direction := by
  unfold recordedFlow
  rw [evictAtCap_lookup, (t.evictAtCap_config choices key).depth]

theorem recordPacket_table (choices : Choices) (t : FlowTable) (packet : DecodedPacket)
    (key : FlowKey) (direction : FlowDirection) :
    (t.recordPacket choices packet key direction).table =
      (t.evictAtCap choices key).table.insert key
        (t.recordedFlow choices packet key direction) := by
  rw [recordPacket, recordEntry_table, recordedFlow_evictAtCap]

theorem recordPacket_config (choices : Choices) (t : FlowTable) (packet : DecodedPacket)
    (key : FlowKey) (direction : FlowDirection) :
    SameConfig t (t.recordPacket choices packet key direction) :=
  (t.evictAtCap_config choices key).trans (recordEntry_config _ _ _ _ _)

theorem enforceBudget_cases (choices : Choices) (t : FlowTable) :
    (t.enforceBudget choices = t ∧
      (t.reassemblyTotal.value ≤ t.reassemblyBudgetBytes ∨ t.len = 0)) ∨
      (t.reassemblyBudgetBytes < t.reassemblyTotal.value ∧
        t.enforceBudget choices = t.evictOldestBatch choices.budgetOrder evictBatch) := by
  unfold enforceBudget
  split
  · rename_i hc
    exact .inr ⟨hc.1, rfl⟩
  · rename_i hc
    refine .inl ⟨rfl, ?_⟩
    omega

/-- The facts about a flow table that hold from its creation on. -/
structure Inv (t : FlowTable) : Prop where
  accounted : t.Accounted
  depth : KeyedMap.Forall (fun _ flow => flow.WithinDepth t.maxStreamDepth) t.table
  len : 1 ≤ t.maxFlows → t.len ≤ t.maxFlows

theorem fresh_inv (maxFlows depth budget : Nat) : (fresh maxFlows depth budget).Inv :=
  ⟨⟨rfl, rfl⟩, .empty _, fun _ => Nat.zero_le _⟩

theorem Inv.evicted (hi : t.Inv) (h : Evicted n t t' batch rest) : t'.Inv := by
  refine ⟨h.accounted hi.accounted, ?_, ?_⟩
  · rw [h.config.depth]
    exact hi.depth.of_subset h.subset
  · intro hm
    rw [h.config.maxFlows] at hm ⊢
    have hl := h.len
    have hle := hi.len hm
    omega

theorem Inv.recordedFlow_withinDepth (hi : t.Inv) (choices : Choices) (packet : DecodedPacket)
    (key : FlowKey) (direction : FlowDirection) :
    (t.recordedFlow choices packet key direction).WithinDepth t.maxStreamDepth := by
  unfold recordedFlow
  cases hl : t.table.lookup key with
  | none => exact Flow.new_withinDepth _ _ _ _
  | some flow => exact (hi.depth key flow hl).update packet direction

theorem Inv.evictAtCap_room (hi : t.Inv) (choices : Choices) (hm : 1 ≤ t.maxFlows)
    (hk : t.table.lookup key = none) : (t.evictAtCap choices key).len < t.maxFlows := by
  have hle := hi.len hm
  rcases t.evictAtCap_cases choices key with ⟨he, hroom⟩ | ⟨-, n, batch, rest, hn, he⟩
  · rw [he]
    exact hroom hk
  · have hl := he.len
    omega

theorem Inv.evictAtCap (hi : t.Inv) (choices : Choices) (key : FlowKey) :
    (t.evictAtCap choices key).Inv := by
  rcases t.evictAtCap_cases choices key with ⟨he, -⟩ | ⟨-, n, batch, rest, -, he⟩
  · rw [he]
    exact hi
  · exact hi.evicted he

theorem Inv.recordPacket (hi : t.Inv) (choices : Choices) (packet : DecodedPacket)
    (key : FlowKey) (direction : FlowDirection) :
    (t.recordPacket choices packet key direction).Inv := by
  have hcap := hi.evictAtCap choices key
  have hc := t.recordPacket_config choices packet key direction
  refine ⟨recordEntry_accounted hcap.accounted choices packet key direction, ?_, ?_⟩
  · rw [hc.depth, recordPacket_table, ← (t.evictAtCap_config choices key).depth]
    apply hcap.depth.insert
    rw [← recordedFlow_evictAtCap]
    exact hcap.recordedFlow_withinDepth choices packet key direction
  · intro hm
    rw [hc.maxFlows] at hm ⊢
    rw [FlowTable.len, recordPacket_table, KeyedMap.size_insert]
    cases hl : t.table.lookup key with
    | none =>
      have hroom := hi.evictAtCap_room choices hm hl
      rw [← evictAtCap_lookup choices] at hl
      rw [KeyedMap.erase_of_none hl]
      exact hroom
    | some flow =>
      rw [← evictAtCap_lookup choices] at hl
      rw [← KeyedMap.size_erase hl]
      have hle := hcap.len
      rw [(t.evictAtCap_config choices key).maxFlows] at hle
      exact hle hm

theorem Inv.enforceBudget (hi : t.Inv) (choices : Choices) : (t.enforceBudget choices).Inv := by
  rcases t.enforceBudget_cases choices with ⟨he, -⟩ | ⟨-, he⟩
  · rw [he]
    exact hi
  · obtain ⟨batch, rest, hev⟩ := t.evictOldestBatch_spec choices.budgetOrder evictBatch
    rw [he]
    exact hi.evicted hev

theorem trackPacket_none (choices : Choices) (t : FlowTable) (h : packet.flowKey = none) :
    t.trackPacket choices packet = (t, none) := by
  rw [trackPacket, h]

theorem trackPacket_some (choices : Choices) (t : FlowTable)
    (h : packet.flowKey = some (key, direction)) :
    t.trackPacket choices packet =
      ((t.recordPacket choices packet key direction).enforceBudget choices,
        some (key, direction)) := by
  rw [trackPacket, h]

theorem Inv.trackPacket (hi : t.Inv) (choices : Choices) (packet : DecodedPacket) :
    (t.trackPacket choices packet).1.Inv := by
  cases h : packet.flowKey with
  | none =>
    rw [trackPacket_none choices t h]
    exact hi
  | some kd =>
    rw [trackPacket_some choices t h]
    exact (hi.recordPacket choices packet kd.1 kd.2).enforceBudget choices

theorem Inv.expire (hi : t.Inv) (nowUs timeoutUs : Int) : (t.expire nowUs timeoutUs).1.Inv := by
  have hw := KeyedMap.weight_retain Flow.bufLen
    (fun _ flow => decide (flow.lastTs > nowUs - timeoutUs)) t.table
  have ht := hi.accounted.total
  refine ⟨?_, hi.depth.retain _, fun hm => (KeyedMap.size_retain_le _ _).trans (hi.len hm)⟩
  simp only [FlowTable.expire]
  rw [AtomicUsize.release_of_le (by omega)]
  refine ⟨?_, hi.accounted.sound⟩
  simp only
  omega

theorem Inv.clear (hi : t.Inv) : t.clear.Inv :=
  ⟨⟨rfl, hi.accounted.sound⟩, .empty _, fun _ => Nat.zero_le _⟩

theorem Inv.step (hi : t.Inv) (op : Op) : (t.step op).Inv := by
  cases op with
  | track choices packet => exact hi.trackPacket choices packet
  | expire nowUs timeoutUs => exact hi.expire nowUs timeoutUs
  | clear => exact hi.clear

theorem Inv.run (hi : t.Inv) (ops : List Op) : (t.run ops).Inv := by
  induction ops generalizing t with
  | nil => exact hi
  | cons op ops ih => exact ih (hi.step op)

theorem enforceBudget_config (choices : Choices) (t : FlowTable) :
    SameConfig t (t.enforceBudget choices) := by
  rcases t.enforceBudget_cases choices with ⟨he, -⟩ | ⟨-, he⟩
  · rw [he]
    exact .refl t
  · rw [he]
    exact ⟨rfl, rfl, rfl⟩

theorem step_config (t : FlowTable) (op : Op) : SameConfig t (t.step op) := by
  cases op with
  | track choices packet =>
    change SameConfig t (t.trackPacket choices packet).1
    cases h : packet.flowKey with
    | none =>
      rw [trackPacket_none choices t h]
      exact .refl t
    | some kd =>
      rw [trackPacket_some choices t h]
      exact (t.recordPacket_config choices packet kd.1 kd.2).trans (enforceBudget_config _ _)
  | expire nowUs timeoutUs => exact ⟨rfl, rfl, rfl⟩
  | clear => exact ⟨rfl, rfl, rfl⟩

theorem run_config (t : FlowTable) (ops : List Op) : SameConfig t (t.run ops) := by
  induction ops generalizing t with
  | nil => exact .refl t
  | cons op ops ih => exact (t.step_config op).trans (ih _)

/-- Along every run of a fresh table the counter is the sum of the live buffers, each buffer
keeps to the stream depth, no subtraction goes below zero and the cap holds. -/
theorem accounting_along_runs (maxFlows depth budget : Nat) (ops : List Op) :
    ((fresh maxFlows depth budget).run ops).reassemblyBytes =
        (((fresh maxFlows depth budget).run ops).table.entries.map fun e =>
          e.2.toserverBuf.length + e.2.toclientBuf.length).sum ∧
      (∀ key flow, ((fresh maxFlows depth budget).run ops).get key = some flow →
        flow.toserverBuf.length ≤ depth ∧ flow.toclientBuf.length ≤ depth) ∧
      ((fresh maxFlows depth budget).run ops).reassemblyTotal.underflowed = false ∧
      (1 ≤ maxFlows → ((fresh maxFlows depth budget).run ops).len ≤ maxFlows) := by
  have hi := (fresh_inv maxFlows depth budget).run ops
  have hc := run_config (fresh maxFlows depth budget) ops
  refine ⟨hi.accounted.total, ?_, hi.accounted.sound, ?_⟩
  · intro key flow hl
    have hd := hi.depth key flow hl
    rw [hc.depth] at hd
    exact ⟨hd.toserver, hd.toclient⟩
  · intro hm
    have hl := hi.len
    rw [hc.maxFlows] at hl
    exact hl hm

/-- The flows of a table that are not in the table after it. -/
def gone (t t' : FlowTable) : List FlowEntry := t.table.entries.filter fun e => (t'.get e.1).isNone

theorem mem_entries_iff {key : FlowKey} {flow : Flow} :
    (⟨key, flow⟩ : FlowEntry) ∈ t.table.entries ↔ t.get key = some flow :=
  KeyedMap.mem_entries

theorem Evicted.get_isNone (h : Evicted n t t' batch rest) {e : FlowEntry} (he : e ∈ batch) :
    t'.get e.1 = none := by
  have hnodup : ((batch ++ rest).map Sigma.fst).Nodup :=
    (h.split.perm.map _).nodup_iff.mpr t.table.keys_nodup
  rw [List.map_append, List.nodup_append] at hnodup
  cases hget : t'.get e.1 with
  | none => rfl
  | some flow =>
    have hrest := h.kept.subset (mem_entries_iff.mpr hget)
    have hkey : e.1 ∈ rest.map Sigma.fst := List.mem_map.mpr ⟨_, hrest, rfl⟩
    exact absurd rfl (hnodup.2.2 e.1 (List.mem_map_of_mem he) e.1 hkey)

theorem Evicted.get_isSome (h : Evicted n t t' batch rest) {e : FlowEntry} (he : e ∈ rest) :
    t'.get e.1 = some e.2 :=
  mem_entries_iff.mp (h.kept.symm.subset he)

/-- The batch is what is gone. -/
theorem Evicted.gone (h : Evicted n t t' batch rest) : (t.gone t').Perm batch := by
  have hbatch : batch.filter (fun e => (t'.get e.1).isNone) = batch := by
    apply List.filter_eq_self.mpr
    intro e he
    rw [h.get_isNone he]
    rfl
  have hrest : rest.filter (fun e => (t'.get e.1).isNone) = [] := by
    apply List.filter_eq_nil_iff.mpr
    intro e he
    rw [h.get_isSome he]
    exact Bool.false_ne_true
  have hperm := h.split.perm.symm.filter fun e => (t'.get e.1).isNone
  rwa [List.filter_append, hbatch, hrest, List.append_nil] at hperm

/-- Whatever the order in which the map is passed through, as many flows go as were asked for or
are there, none of them newer than one that stays, and what stays is as it was. -/
theorem evictOldestBatch_oldest (iter : IterOrder FlowKey Flow) (t : FlowTable) (n : Nat) :
    (t.gone (t.evictOldestBatch iter n)).length = min n t.len ∧
      (∀ e ∈ t.gone (t.evictOldestBatch iter n), ∀ key flow,
        (t.evictOldestBatch iter n).get key = some flow → e.2.lastTs ≤ flow.lastTs) ∧
      ∀ key flow, (t.evictOldestBatch iter n).get key = some flow → t.get key = some flow := by
  obtain ⟨batch, rest, h⟩ := t.evictOldestBatch_spec iter n
  refine ⟨?_, ?_, ?_⟩
  · rw [h.gone.length_eq]
    exact h.split.length
  · intro e he key flow hget
    exact h.split.le e (h.gone.subset he) ⟨key, flow⟩ (h.kept.subset (mem_entries_iff.mpr hget))
  · exact fun key flow hget => h.lookup hget

end FlowTable

end AiFw.Ids
