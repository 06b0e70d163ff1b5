import AiFw.Ids.FlowSides
import AiFw.Lib.Runs

namespace AiFw.Ids
open AiFw.Net AiFw.Lib
set_option autoImplicit true

def Choices.reorder (choices : Choices) (iter : IterOrder FlowKey Flow) : Choices :=
  { choices with budgetOrder := iter }

namespace FlowTable

variable {t t' : FlowTable}

theorem bytes_append (l l' : List FlowEntry) : bytes (l ++ l') = bytes l + bytes l' := by
  rw [bytes, List.map_append, List.sum_append]
  rfl

theorem bytes_perm {l l' : List FlowEntry} (h : l.Perm l') : bytes l = bytes l' :=
  (h.map _).sum_nat

theorem bytes_rest_le {l batch rest : List FlowEntry}
    (h : OldestSplit lastTs n l batch rest) : bytes rest ≤ bytes l := by
  have hb := bytes_perm h.perm
  rw [bytes_append] at hb
  omega

theorem Inv.bytes_eq (hi : t.Inv) : t.reassemblyBytes = bytes t.table.entries := hi.accounted.total

theorem trackPacket_reorder (choices : Choices) (iter : IterOrder FlowKey Flow) (t : FlowTable)
    (hk : packet.flowKey = some (key, direction)) :
    (t.trackPacket (choices.reorder iter) packet).1 =
      (t.recordPacket choices packet key direction).enforceBudget (choices.reorder iter) := by
  rw [trackPacket_some _ t hk]
  rfl

/-- Above the budget some oldest batch goes, and every oldest batch may be the one that goes. -/
theorem enforceBudget_over (choices : Choices) (hi : t.Inv)
    (ho : t.reassemblyBudgetBytes < t.reassemblyBytes) :
    (∀ iter, ∃ batch rest,
        Evicted evictBatch t (t.enforceBudget (choices.reorder iter)) batch rest) ∧
      ∀ batch rest, OldestSplit lastTs evictBatch t.table.entries batch rest →
        ∃ iter,
          Evicted evictBatch t (t.enforceBudget (choices.reorder iter)) batch.reverse rest := by
  have hne : t.len ≠ 0 := by
    intro hl
    have he : t.table.entries = [] := List.eq_nil_of_length_eq_zero hl
    have hb := hi.bytes_eq
    rw [he] at hb
    change t.reassemblyBytes = 0 at hb
    omega
  have hev (iter : IterOrder FlowKey Flow) :
      t.enforceBudget (choices.reorder iter) = t.evictOldestBatch iter evictBatch :=
    if_pos ⟨ho, hne⟩
  simp only [hev]
  exact ⟨fun iter => t.evictOldestBatch_spec iter evictBatch, fun _ _ => exists_order_evicting⟩

theorem enforceBudget_within (choices : Choices)
    (hw : t.reassemblyBytes ≤ t.reassemblyBudgetBytes) : t.enforceBudget choices = t :=
  if_neg fun hc => Nat.not_lt_of_le hw hc.1

def load (e : FlowEntry) : Int × Nat := (lastTs e, e.2.bufLen)

/-- Whichever way ties are broken, what lies outside an oldest batch fits the budget. The pairs
are times and bytes. -/
def RestFits (budget : Nat) (loads : List (Int × Nat)) : Prop :=
  ∀ batch rest, OldestSplit Prod.fst evictBatch loads batch rest →
    (rest.map Prod.snd).sum ≤ budget

theorem sum_load (l : List FlowEntry) : ((l.map load).map Prod.snd).sum = bytes l := by
  rw [List.map_map]
  rfl

theorem RestFits.of_perm (h : RestFits budget l) (hp : l.Perm l') : RestFits budget l' := by
  intro batch rest hs
  exact h batch rest (hs.of_perm hp.symm)

theorem restFits_load_iff {l : List FlowEntry} :
    RestFits budget (l.map load) ↔
      ∀ batch rest, OldestSplit lastTs evictBatch l batch rest → bytes rest ≤ budget := by
  constructor
  · intro h batch rest hs
    rw [← sum_load]
    exact h _ _ (OldestSplit.map hs)
  · intro h batch rest hs
    obtain ⟨batch', rest', -, rfl, hs'⟩ := hs.of_map
    rw [sum_load]
    exact h batch' rest' hs'

theorem enforceBudget_kept_iff (choices : Choices) (hi : t.Inv) :
    (∀ iter, (t.enforceBudget (choices.reorder iter)).reassemblyBytes ≤
        t.reassemblyBudgetBytes) ↔
      RestFits t.reassemblyBudgetBytes (t.table.entries.map load) := by
  rw [restFits_load_iff]
  by_cases hw : t.reassemblyBytes ≤ t.reassemblyBudgetBytes
  · apply iff_of_true
    · intro iter
      rw [enforceBudget_within _ hw]
      exact hw
    · intro batch rest hs
      rw [hi.bytes_eq] at hw
      exact (bytes_rest_le hs).trans hw
  · obtain ⟨hspec, hreach⟩ := enforceBudget_over choices hi (Nat.lt_of_not_le hw)
    constructor
    · intro h batch rest hs
      obtain ⟨iter, hev⟩ := hreach batch rest hs
      have hle := h iter
      rw [reassemblyBytes, hev.counter hi.accounted] at hle
      exact hle
    · intro h iter
      obtain ⟨batch, rest, hev⟩ := hspec iter
      rw [reassemblyBytes, hev.counter hi.accounted]
      exact h batch rest hev.split

/-- How many flows have to make room at the cap for a packet of this flow. -/
def capEvictions (t : FlowTable) (key : FlowKey) : Nat :=
  if t.table.lookup key = none ∧ t.maxFlows ≤ t.len then
    max (t.len - t.maxFlows + 1) (min (t.len / 10) evictBatch)
  else 0

def others (t : FlowTable) (key : FlowKey) : List FlowEntry := (t.table.erase key).entries

theorem others_of_none (h : t.table.lookup key = none) : t.others key = t.table.entries := by
  rw [others, KeyedMap.erase_of_none h]

/-- What may be left of the other flows when the packet is recorded: all of them, unless a new
flow has to get below the cap. -/
def LeftAtCap (t : FlowTable) (key : FlowKey) (left : List FlowEntry) : Prop :=
  ∃ gone, OldestSplit lastTs (t.capEvictions key) (t.others key) gone left

theorem evictAtCap_full (h : t.table.lookup key = none ∧ t.maxFlows ≤ t.len) (choices : Choices) :
    t.evictAtCap choices key = t.evictOldestBatch choices.capOrder (t.capEvictions key) := by
  rw [evictAtCap, if_pos h, capEvictions, if_pos h]

theorem others_evictOldestBatch (h : t.table.lookup key = none)
    (he : Evicted n t t' batch rest) : (t'.others key).Perm rest := by
  have hl : t'.table.lookup key = none := by
    cases hf : t'.table.lookup key with
    | none => rfl
    | some flow =>
      rw [he.lookup hf] at h
      cases h
  rw [others_of_none hl]
  exact he.kept

theorem leftAtCap_evictAtCap (choices : Choices) (t : FlowTable) (key : FlowKey) :
    t.LeftAtCap key ((t.evictAtCap choices key).others key) := by
  by_cases hc : t.table.lookup key = none ∧ t.maxFlows ≤ t.len
  · rw [evictAtCap_full hc]
    obtain ⟨batch, rest, he⟩ := t.evictOldestBatch_spec choices.capOrder (t.capEvictions key)
    have hp := others_evictOldestBatch hc.1 he
    rw [LeftAtCap, others_of_none hc.1]
    exact ⟨batch, (hp.append_left batch).trans he.split.perm, he.split.length,
      fun x hx y hy => he.split.le x hx y (hp.subset hy)⟩
  · rw [LeftAtCap, capEvictions, if_neg hc, evictAtCap, if_neg hc]
    exact ⟨[], OldestSplit.zero_iff.mpr ⟨rfl, .refl _⟩⟩

theorem LeftAtCap.exists_choices (h : t.LeftAtCap key left) (choices : Choices) :
    ∃ iter, ((t.evictAtCap { choices with capOrder := iter } key).others key).Perm left := by
  obtain ⟨gone, hs⟩ := h
  by_cases hc : t.table.lookup key = none ∧ t.maxFlows ≤ t.len
  · rw [others_of_none hc.1] at hs
    obtain ⟨iter, he⟩ := exists_order_evicting hs
    refine ⟨iter, ?_⟩
    rw [evictAtCap_full hc]
    exact others_evictOldestBatch hc.1 he
  · rw [capEvictions, if_neg hc] at hs
    refine ⟨choices.capOrder, ?_⟩
    rw [evictAtCap, if_neg hc]
    exact (OldestSplit.zero_iff.mp hs).2.symm

/-- The bytes the packet's flow holds with the packet: those it held, and as much of the payload
as its side still takes. -/
def ownBytes (t : FlowTable) (packet : DecodedPacket) (key : FlowKey) (direction : FlowDirection) :
    Nat :=
  match t.table.lookup key with
  | some flow => flow.bufLen + min packet.payload.length (flow.room direction)
  | none => min packet.payload.length t.maxStreamDepth

theorem recordedFlow_load (choices : Choices) (t : FlowTable) (packet : DecodedPacket)
    (key : FlowKey) (direction : FlowDirection) :
    load ⟨key, t.recordedFlow choices packet key direction⟩ =
      (packet.timestampUs, t.ownBytes packet key direction) := by
  unfold load lastTs recordedFlow ownBytes
  cases t.table.lookup key with
  | some flow => simp only [(flow.update_updated packet direction).lastTs, flow.bufLen_update]
  | none =>
    simp only [Flow.bufLen_new]
    rfl

theorem recordPacket_entries (choices : Choices) (t : FlowTable) (packet : DecodedPacket)
    (key : FlowKey) (direction : FlowDirection) :
    (t.recordPacket choices packet key direction).table.entries =
      ⟨key, t.recordedFlow choices packet key direction⟩ ::
        (t.evictAtCap choices key).others key := by
  rw [recordPacket_table]
  rfl

theorem recordPacket_loads (choices : Choices) (t : FlowTable) (packet : DecodedPacket)
    (key : FlowKey) (direction : FlowDirection) :
    (t.recordPacket choices packet key direction).table.entries.map load =
      (packet.timestampUs, t.ownBytes packet key direction) ::
        ((t.evictAtCap choices key).others key).map load := by
  rw [recordPacket_entries, List.map_cons, recordedFlow_load]

/-- After a `track_packet` call, whatever the runtime chooses, the counter is within the
budget. -/
def BudgetKept (t : FlowTable) : Op → Prop
  | .track _ packet => ∀ choices,
      (t.trackPacket choices packet).1.reassemblyBytes ≤ t.reassemblyBudgetBytes
  | _ => True

/-- The packet's flow with its new bytes and time, beside the other flows left at the cap, leaves
at most the budget outside an oldest batch. -/
def BatchSuffices (t : FlowTable) : Op → Prop
  | .track _ packet => ∀ key direction, packet.flowKey = some (key, direction) →
      ∀ left, t.LeftAtCap key left → RestFits t.reassemblyBudgetBytes
        ((packet.timestampUs, t.ownBytes packet key direction) :: left.map load)
  | _ => True

theorem recordPacket_kept_iff (hi : t.Inv) (choices : Choices) (packet : DecodedPacket)
    (key : FlowKey) (direction : FlowDirection) :
    (∀ iter, ((t.recordPacket choices packet key direction).enforceBudget
        (choices.reorder iter)).reassemblyBytes ≤ t.reassemblyBudgetBytes) ↔
      RestFits t.reassemblyBudgetBytes ((packet.timestampUs, t.ownBytes packet key direction) ::
        ((t.evictAtCap choices key).others key).map load) := by
  have h := enforceBudget_kept_iff choices (hi.recordPacket choices packet key direction)
  rw [(t.recordPacket_config choices packet key direction).budget, recordPacket_loads] at h
  exact h

theorem budgetKept_iff (hi : t.Inv) (hw : t.reassemblyBytes ≤ t.reassemblyBudgetBytes) (op : Op) :
    t.BudgetKept op ↔ t.BatchSuffices op := by
  cases op with
  | expire nowUs timeoutUs => exact Iff.rfl
  | clear => exact Iff.rfl
  | track choices packet =>
    unfold BudgetKept BatchSuffices
    cases hk : packet.flowKey with
    | none =>
      apply iff_of_true
      · intro choices
        rw [trackPacket_none _ t hk]
        exact hw
      · intro key direction he
        rw [hk] at he
        cases he
    | some kd =>
      obtain ⟨key, direction⟩ := kd
      constructor
      · intro h key' direction' he left hleft
        rw [hk] at he
        cases he
        obtain ⟨iter, hp⟩ := hleft.exists_choices choices
        have hfits := (recordPacket_kept_iff hi { choices with capOrder := iter } packet key
          direction).mp fun iter' => by
            rw [← trackPacket_reorder _ iter' t hk]
            exact h _
        exact hfits.of_perm ((hp.map load).cons _)
      · intro h choices
        have hfits := h key direction hk _ (leftAtCap_evictAtCap choices t key)
        rw [trackPacket_some choices t hk]
        exact (recordPacket_kept_iff hi choices packet key direction).mpr hfits choices.budgetOrder

theorem BudgetKept.step (hi : t.Inv) (hw : t.reassemblyBytes ≤ t.reassemblyBudgetBytes)
    (h : t.BudgetKept op) : (t.step op).reassemblyBytes ≤ (t.step op).reassemblyBudgetBytes := by
  rw [(t.step_config op).budget]
  cases op with
  | track choices packet => exact h choices
  | expire nowUs timeoutUs =>
    have hr := KeyedMap.weight_retain Flow.bufLen
      (fun _ flow => decide (flow.lastTs > nowUs - timeoutUs)) t.table
    have ht : t.reassemblyBytes = t.table.weight Flow.bufLen := hi.accounted.total
    have he : (t.step (.expire nowUs timeoutUs)).reassemblyBytes = KeyedMap.weight Flow.bufLen
        (t.table.retain fun _ flow => decide (flow.lastTs > nowUs - timeoutUs)) :=
      (hi.expire nowUs timeoutUs).accounted.total
    omega
  | clear => exact Nat.zero_le _

/-- A run keeps to the reassembly budget after every packet exactly when, at every packet, the
flows outside the oldest batch fit the budget. -/
theorem budget_kept_along_runs_iff (maxFlows depth budget : Nat) (ops : List Op) :
    Along step BudgetKept (fresh maxFlows depth budget) ops ↔
      Along step BatchSuffices (fresh maxFlows depth budget) ops := by
  refine Along.congr (fun t => t.Inv ∧ t.reassemblyBytes ≤ t.reassemblyBudgetBytes)
    ?_ ?_ ⟨fresh_inv _ _ _, Nat.zero_le _⟩ ops
  · intro t op hs h
    exact ⟨hs.1.step op, h.step hs.1 hs.2⟩
  · intro t op hs
    exact budgetKept_iff hs.1 hs.2 op

def hostPacket (host : Nat) (timestampUs : Int) (payload : Bytes) : DecodedPacket where
  timestampUs := timestampUs
  srcIp := some (.v4 (0x0A000000 + BitVec.ofNat 32 host))
  dstIp := some (.v4 0x0A010001)
  srcPort := some 1000
  dstPort := some 80
  protocol := .tcp
  tcpFlags := none
  payload := payload
  packetLen := 40 + payload.length

def silentThenLoud : List Op :=
  (List.range evictBatch).map (fun i => .track anyChoices (hostPacket i i [])) ++
    [.track anyChoices (hostPacket 200 200 (List.replicate 11 0))]

/-- One batch eviction of the oldest flows frees nothing here, and the run ends with eleven bytes
on a budget of ten. -/
theorem budget_exceeded_after_batch :
    ¬ ((fresh 1024 65536 10).run silentThenLoud).reassemblyBytes ≤ 10 := by decide +kernel

structure PacketCounted (before : Option Flow) (after : Flow) (packet : DecodedPacket) : Prop where
  pkts : after.pktsToserver + after.pktsToclient =
    (before.map fun f => f.pktsToserver + f.pktsToclient).getD 0 + 1
  bytes : after.bytesToserver + after.bytesToclient =
    (before.map fun f => f.bytesToserver + f.bytesToclient).getD 0 + packet.packetLen
  lastTs : after.lastTs = packet.timestampUs

theorem recordedFlow_counted (choices : Choices) (t : FlowTable) (packet : DecodedPacket)
    (key : FlowKey) (direction : FlowDirection) :
    PacketCounted (t.get key) (t.recordedFlow choices packet key direction) packet := by
  unfold recordedFlow get
  cases t.table.lookup key with
  | none => exact ⟨rfl, by simp only [Flow.new, Option.map_none, Option.getD_none]; omega, rfl⟩
  | some flow =>
    have hts := (flow.update_updated packet direction).lastTs
    cases direction with
    | toServer =>
      have hu := flow.update_toServer packet
      refine ⟨?_, ?_, hts⟩
      · rw [hu.pkts, hu.otherPkts, Option.map_some, Option.getD_some]
        omega
      · rw [hu.bytes, hu.otherBytes, Option.map_some, Option.getD_some]
        omega
    | toClient =>
      have hu := flow.update_toClient packet
      refine ⟨?_, ?_, hts⟩
      · rw [hu.pkts, hu.otherPkts, Option.map_some, Option.getD_some]
        omega
      · rw [hu.bytes, hu.otherBytes, Option.map_some, Option.getD_some]
        omega

def Survives (t : FlowTable) (choices : Choices) (packet : DecodedPacket) (key : FlowKey) : Prop :=
  ∃ flow, (t.trackPacket choices packet).1.get key = some flow ∧
    PacketCounted (t.get key) flow packet

def older (l : List FlowEntry) (ts : Int) : Nat := (l.filter fun e => lastTs e < ts).length

theorem enforceBudget_lookup_iff (choices : Choices) (hi : t.Inv)
    (hl : t.table.lookup key = some flow) :
    (∀ iter, (t.enforceBudget (choices.reorder iter)).table.lookup key = some flow) ↔
      t.reassemblyBytes ≤ t.reassemblyBudgetBytes ∨
        evictBatch ≤ older t.table.entries flow.lastTs := by
  by_cases hw : t.reassemblyBytes ≤ t.reassemblyBudgetBytes
  · apply iff_of_true
    · intro iter
      rw [enforceBudget_within _ hw]
      exact hl
    · exact .inl hw
  · obtain ⟨hspec, hreach⟩ := enforceBudget_over choices hi (Nat.lt_of_not_le hw)
    have hmem : (⟨key, flow⟩ : FlowEntry) ∈ t.table.entries := KeyedMap.mem_entries.mpr hl
    rw [or_iff_right hw]
    constructor
    · intro h
      apply Nat.le_of_not_lt
      intro hlt
      obtain ⟨batch, rest, hs, hb⟩ := exists_oldestSplit_mem hmem hlt
      obtain ⟨iter, hev⟩ := hreach batch rest hs
      have hr : (⟨key, flow⟩ : FlowEntry) ∈ rest :=
        hev.kept.subset (KeyedMap.mem_entries.mpr (h iter))
      have hnd : ((batch ++ rest).map Sigma.fst).Nodup :=
        (hs.perm.map _).nodup_iff.mpr t.table.keys_nodup
      rw [List.map_append, List.nodup_append] at hnd
      exact hnd.2.2 key (List.mem_map_of_mem hb) key (List.mem_map_of_mem hr) rfl
    · intro h iter
      obtain ⟨batch, rest, hev⟩ := hspec iter
      have hr : (⟨key, flow⟩ : FlowEntry) ∈ rest := by
        rcases List.mem_append.mp (hev.split.perm.symm.subset hmem) with hb | hr
        · exact absurd (hev.split.older_lt hb) (Nat.not_lt_of_le h)
        · exact hr
      exact KeyedMap.mem_entries.mp (hev.kept.symm.subset hr)

/-- Recording the packet keeps to the budget, or there are enough flows older than the packet to
fill both evictions. -/
def OwnFlowSafe (t : FlowTable) (packet : DecodedPacket) (key : FlowKey)
    (direction : FlowDirection) : Prop :=
  (∀ left, t.LeftAtCap key left →
      bytes left + t.ownBytes packet key direction ≤ t.reassemblyBudgetBytes) ∨
    t.capEvictions key + evictBatch ≤ older (t.others key) packet.timestampUs

theorem LeftAtCap.older (h : t.LeftAtCap key left) (ts : Int) :
    older left ts = older (t.others key) ts - t.capEvictions key := by
  obtain ⟨gone, hs⟩ := h
  exact hs.length_filter_rest ts

theorem bytes_recordPacket (choices : Choices) (t : FlowTable) (packet : DecodedPacket)
    (key : FlowKey) (direction : FlowDirection) :
    bytes (t.recordPacket choices packet key direction).table.entries =
      bytes ((t.evictAtCap choices key).others key) + t.ownBytes packet key direction := by
  rw [← sum_load, recordPacket_loads, List.map_cons, List.sum_cons, sum_load, Nat.add_comm]

theorem older_recordPacket (choices : Choices) (t : FlowTable) (packet : DecodedPacket)
    (key : FlowKey) (direction : FlowDirection) :
    older (t.recordPacket choices packet key direction).table.entries packet.timestampUs =
      older (t.others key) packet.timestampUs - t.capEvictions key := by
  have hts := (t.recordedFlow_counted choices packet key direction).lastTs
  rw [← (leftAtCap_evictAtCap choices t key).older, recordPacket_entries]
  unfold older
  -- the packet's own flow is as new as the packet
  rw [List.filter_cons_of_neg]
  rw [lastTs, hts, decide_eq_true_eq]
  exact lt_irrefl _

theorem recordPacket_lookup_iff (hi : t.Inv) (choices : Choices) (packet : DecodedPacket)
    (key : FlowKey) (direction : FlowDirection) :
    (∀ iter, ((t.recordPacket choices packet key direction).enforceBudget
        (choices.reorder iter)).table.lookup key =
          some (t.recordedFlow choices packet key direction)) ↔
      bytes ((t.evictAtCap choices key).others key) + t.ownBytes packet key direction ≤
          t.reassemblyBudgetBytes ∨
        t.capEvictions key + evictBatch ≤ older (t.others key) packet.timestampUs := by
  have hi' := hi.recordPacket choices packet key direction
  rw [enforceBudget_lookup_iff choices hi' (t.recordPacket_lookup choices packet key direction),
    (t.recordPacket_config choices packet key direction).budget, hi'.bytes_eq, bytes_recordPacket,
    (t.recordedFlow_counted choices packet key direction).lastTs, older_recordPacket]
  unfold evictBatch
  omega

theorem survives_iff (choices : Choices) (hk : packet.flowKey = some (key, direction)) :
    t.Survives choices packet key ↔
      ((t.recordPacket choices packet key direction).enforceBudget choices).table.lookup key =
        some (t.recordedFlow choices packet key direction) := by
  unfold Survives get
  rw [trackPacket_some choices t hk]
  constructor
  · intro h
    obtain ⟨flow, hl, -⟩ := h
    rw [hl, ← enforceBudget_lookup _ hl, recordPacket_lookup]
  · intro h
    exact ⟨_, h, t.recordedFlow_counted choices packet key direction⟩

theorem ownFlowSafe_iff (hi : t.Inv) (hk : packet.flowKey = some (key, direction)) :
    (∀ choices, t.Survives choices packet key) ↔ t.OwnFlowSafe packet key direction := by
  simp only [survives_iff _ hk]
  constructor
  · intro h
    by_cases ho : t.capEvictions key + evictBatch ≤ older (t.others key) packet.timestampUs
    · exact .inr ho
    · apply Or.inl
      intro left hleft
      -- a scan order at the cap that leaves exactly these flows
      obtain ⟨iter, hp⟩ := hleft.exists_choices anyChoices
      have hor := (recordPacket_lookup_iff hi { anyChoices with capOrder := iter } packet key
        direction).mp fun iter' => h _
      have hb := hor.resolve_right ho
      rwa [bytes_perm hp] at hb
  · intro h choices
    apply (recordPacket_lookup_iff hi choices packet key direction).mpr _ choices.budgetOrder
    obtain hb | ho := h
    · exact .inl (hb _ (leftAtCap_evictAtCap choices t key))
    · exact .inr ho

/-- In every reachable state the flow of a packet survives its own tracking, whatever the runtime
chooses, exactly when recording the packet keeps the bytes within the budget or enough other
flows were last seen before the packet. -/
theorem survives_tracking_iff (maxFlows depth budget : Nat) (ops : List Op)
    (hk : packet.flowKey = some (key, direction)) :
    (∀ choices, (((fresh maxFlows depth budget).run ops).trackPacket choices packet).2 =
        some (key, direction)) ∧
      ((∀ choices, ((fresh maxFlows depth budget).run ops).Survives choices packet key) ↔
        ((fresh maxFlows depth budget).run ops).OwnFlowSafe packet key direction) := by
  constructor
  · intro choices
    rw [trackPacket_some choices _ hk]
  · exact ownFlowSafe_iff ((fresh_inv maxFlows depth budget).run ops) hk

theorem hostPacket_flowKey :
    (hostPacket 200 200 (List.replicate 11 0)).flowKey =
      some (FlowKey.fromPacket (.v4 0x0A0000C8) (.v4 0x0A010001) 1000 80 6, .toServer) := by
  decide

theorem survives_tracking_iff_loud :
    (∀ choices, (((fresh 1024 65536 10).run []).trackPacket choices
        (hostPacket 200 200 (List.replicate 11 0))).2 =
        some (FlowKey.fromPacket (.v4 0x0A0000C8) (.v4 0x0A010001) 1000 80 6, .toServer)) ∧
      ((∀ choices, ((fresh 1024 65536 10).run []).Survives choices
          (hostPacket 200 200 (List.replicate 11 0))
          (FlowKey.fromPacket (.v4 0x0A0000C8) (.v4 0x0A010001) 1000 80 6)) ↔
        ((fresh 1024 65536 10).run []).OwnFlowSafe (hostPacket 200 200 (List.replicate 11 0))
          (FlowKey.fromPacket (.v4 0x0A0000C8) (.v4 0x0A010001) 1000 80 6) .toServer) :=
  survives_tracking_iff 1024 65536 10 [] hostPacket_flowKey

/-- The first packet of an empty table is over the budget, and the batch that is evicted for it
is its own flow. -/
theorem own_flow_evicted :
    ¬ ((fresh 1024 65536 10).run []).Survives anyChoices
      (hostPacket 200 200 (List.replicate 11 0))
      (FlowKey.fromPacket (.v4 0x0A0000C8) (.v4 0x0A010001) 1000 80 6) := by
  rintro ⟨flow, hl, -⟩
  have hn : (((fresh 1024 65536 10).run []).trackPacket anyChoices
      (hostPacket 200 200 (List.replicate 11 0))).1.get
      (FlowKey.fromPacket (.v4 0x0A0000C8) (.v4 0x0A010001) 1000 80 6) = none := by decide
  rw [hn] at hl
  cases hl

end FlowTable

end AiFw.Ids
