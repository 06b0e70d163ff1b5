import AiFw.Ai.Response
import Mathlib.Data.List.Infix

namespace AiFw.Ai.AutoResponder
open AiFw.Lib AiFw.Net
set_option autoImplicit true

variable {config : ResponseConfig} {tables : PfTables}

/-- The end that an answer at this time promises, in the seconds of the settings. -/
def promisedEnd (config : ResponseConfig) (now : Int) : Int :=
  now + config.tempBlockDurationSecs.toNat * nanosPerSec

def BlockedForever (config : ResponseConfig) (past : List Op) (a : IpAddr) : Prop :=
  ∃ threat now recordedAt, Op.respond threat now recordedAt ∈ past ∧ threat.sourceIp = a ∧
    answer config threat now = some .permBlock

/-- The block of an address that should still stand at this time. -/
def Promised (config : ResponseConfig) (past : List Op) (t : Int) (a : IpAddr) : Prop :=
  BlockedForever config past a ∨
    ∃ threat now recordedAt, Op.respond threat now recordedAt ∈ past ∧ threat.sourceIp = a ∧
      answer config threat now = some .tempBlock ∧ t < promisedEnd config now

/-- After every expiry the block table holds the addresses whose blocks should stand. -/
def LastsAsPromised (config : ResponseConfig) (tables : PfTables) (ops : List Op) : Prop :=
  ∀ past t, List.IsPrefix (past ++ [.expire t]) ops → ∀ a,
    a ∈ (run config tables (past ++ [.expire t])).blocked config ↔ Promised config past t a

/-- No block expires of an address that another answer still promises to block, or the same
answer for longer; and no address is in the block table for the sake of the rate limit alone. -/
structure Spared (config : ResponseConfig) (tables : PfTables) (past : List Op) (t : Int) : Prop where
  shared : ∀ b ∈ (run config tables past).tempBlocks, b.expiresAt ≤ t →
    ¬ Promised config past t b.ip
  owned : ∀ a ∈ (run config tables past).blocked config,
    BlockedForever config past a ∨ ∃ b ∈ (run config tables past).tempBlocks, b.ip = a

theorem run_concat (ops : List Op) (op : Op) :
    run config tables (ops ++ [op]) = step config (run config tables ops) op := List.foldl_concat ..

theorem nanosPerSec_pos : 0 < nanosPerSec := by unfold nanosPerSec; norm_num

/-- The cast of the duration can only shorten a block. -/
theorem expiryFrom_le (h : expiryFrom config now = some e) : e ≤ promisedEnd config now := by
  obtain ⟨d, hd, he⟩ := Option.bind_eq_some_iff.mp h
  obtain ⟨-, he⟩ := Option.ite_none_right_eq_some.mp he
  unfold durationSeconds at hd
  obtain ⟨-, hd⟩ := Option.ite_none_right_eq_some.mp hd
  have hcast : config.tempBlockDurationSecs.toInt64.toInt ≤ config.tempBlockDurationSecs.toNat := by
    change config.tempBlockDurationSecs.toBitVec.toInt ≤ config.tempBlockDurationSecs.toBitVec.toNat
    rw [BitVec.toInt_eq_toNat_cond]
    split
    · exact le_refl _
    · omega
  have hpos := Int.mul_le_mul_of_nonneg_right hcast nanosPerSec_pos.le
  rw [← Option.some.inj he, ← Option.some.inj hd]
  unfold promisedEnd
  omega

theorem exists_expiry (h : answer config threat now = some .tempBlock) :
    ∃ e, expiryFrom config now = some e := by
  unfold answer at h
  split at h
  · obtain ⟨e, he, -⟩ := Option.map_eq_some_iff.mp h
    exact ⟨e, he⟩
  · next hact => exact absurd (Option.some.inj h) hact

/-- What the history of the calls says of the table and the records. -/
structure Kept (config : ResponseConfig) (past : List Op) (s : AutoResponder) : Prop where
  recorded : ∀ b ∈ s.tempBlocks, ∃ threat now recordedAt,
    Op.respond threat now recordedAt ∈ past ∧ threat.sourceIp = b.ip ∧
      answer config threat now = some .tempBlock ∧ expiryFrom config now = some b.expiresAt
  forever : ∀ a, BlockedForever config past a → a ∈ s.blocked config
  temporary : ∀ b ∈ s.tempBlocks, b.ip ∈ s.blocked config
  accounted : ∀ threat now recordedAt, Op.respond threat now recordedAt ∈ past →
    answer config threat now = some .tempBlock →
      (∃ b ∈ s.tempBlocks, b.ip = threat.sourceIp ∧ expiryFrom config now = some b.expiresAt) ∨
        ∃ t, Op.expire t ∈ past ∧ promisedEnd config now ≤ t

theorem Kept.fresh (tables : PfTables) : Kept config [] (fresh tables) where
  recorded := fun _ hb => nomatch hb
  forever := fun _ ⟨_, _, _, h, _⟩ => nomatch h
  temporary := fun _ hb => nomatch hb
  accounted := fun _ _ _ h => nomatch h

theorem mem_respond_concat {threat' : Threat} :
    Op.respond threat' now' recordedAt' ∈ past ++ [.respond threat now recordedAt] ↔
      Op.respond threat' now' recordedAt' ∈ past ∨
        threat' = threat ∧ now' = now ∧ recordedAt' = recordedAt := by
  rw [List.mem_append, List.mem_singleton, Op.respond.injEq]

theorem mem_respond_expire {threat : Threat} :
    Op.respond threat now recordedAt ∈ past ++ [.expire t] ↔
      Op.respond threat now recordedAt ∈ past := by
  rw [List.mem_append, List.mem_singleton]
  exact or_iff_left nofun

theorem blockedForever_concat_respond {threat : Threat} :
    BlockedForever config (past ++ [.respond threat now recordedAt]) a ↔
      BlockedForever config past a ∨
        threat.sourceIp = a ∧ answer config threat now = some .permBlock := by
  constructor
  · intro ⟨threat', now', recordedAt', hmem, hip, hans⟩
    rcases mem_respond_concat.mp hmem with hmem | ⟨rfl, rfl, rfl⟩
    · exact .inl ⟨threat', now', recordedAt', hmem, hip, hans⟩
    · exact .inr ⟨hip, hans⟩
  · intro h
    rcases h with ⟨threat', now', recordedAt', hmem, hip, hans⟩ | ⟨hip, hans⟩
    · exact ⟨threat', now', recordedAt', List.mem_append_left _ hmem, hip, hans⟩
    · exact ⟨threat, now, recordedAt, List.mem_concat_self, hip, hans⟩

theorem blockedForever_concat_expire :
    BlockedForever config (past ++ [.expire t]) a ↔ BlockedForever config past a := by
  unfold BlockedForever
  simp only [mem_respond_expire]

theorem Kept.respond (h : Kept config past s) (threat : Threat) (now recordedAt : Int) :
    Kept config (past ++ [.respond threat now recordedAt])
      (s.respond config threat now recordedAt).2 where
  recorded := by
    intro b hb
    rcases mem_tempBlocks_respond.mp hb with hb | ⟨hans, hip, -, hat, -⟩
    · obtain ⟨threat', now', recordedAt', hmem, hrest⟩ := h.recorded b hb
      exact ⟨threat', now', recordedAt', List.mem_append_left _ hmem, hrest⟩
    · exact ⟨threat, now, recordedAt, List.mem_concat_self, hip.symm, hans, hat⟩
  forever := by
    intro a ha
    apply mem_blocked_respond.mpr
    rcases blockedForever_concat_respond.mp ha with ha | ⟨hip, hans⟩
    · exact .inl (h.forever a ha)
    · exact .inr ⟨hip.symm, .inl hans⟩
  temporary := by
    intro b hb
    apply mem_blocked_respond.mpr
    rcases mem_tempBlocks_respond.mp hb with hb | ⟨hans, hip, -⟩
    · exact .inl (h.temporary b hb)
    · exact .inr ⟨hip, .inr (.inl hans)⟩
  accounted := by
    intro threat' now' recordedAt' hmem hans
    rcases mem_respond_concat.mp hmem with hmem | ⟨rfl, rfl, rfl⟩
    · rcases h.accounted threat' now' recordedAt' hmem hans with ⟨b, hb, hrest⟩ | ⟨t, ht, hle⟩
      · exact .inl ⟨b, mem_tempBlocks_respond.mpr (.inl hb), hrest⟩
      · exact .inr ⟨t, List.mem_append_left _ ht, hle⟩
    · obtain ⟨e, he⟩ := exists_expiry hans
      refine .inl ⟨⟨threat'.sourceIp, threat'.id, e, threat'.description⟩, ?_, rfl, he⟩
      exact mem_tempBlocks_respond.mpr (.inr ⟨hans, rfl, rfl, he, rfl⟩)

/-- An expiry that lifts no block still promised. -/
theorem Kept.expire (h : Kept config past s)
    (hshared : ∀ b ∈ s.tempBlocks, b.expiresAt ≤ t → ¬ Promised config past t b.ip) :
    Kept config (past ++ [.expire t]) (s.expireTempBlocks config t).2 where
  recorded := by
    intro b hb
    obtain ⟨hb, -⟩ := mem_tempBlocks_expire.mp hb
    obtain ⟨threat, now, recordedAt, hmem, hrest⟩ := h.recorded b hb
    exact ⟨threat, now, recordedAt, List.mem_append_left _ hmem, hrest⟩
  forever := by
    intro a ha
    have ha := blockedForever_concat_expire.mp ha
    refine mem_blocked_expire.mpr ⟨h.forever a ha, ?_⟩
    rintro b hb hat rfl
    exact hshared b hb hat (.inl ha)
  temporary := by
    intro b hb
    obtain ⟨hb, hlater⟩ := mem_tempBlocks_expire.mp hb
    refine mem_blocked_expire.mpr ⟨h.temporary b hb, ?_⟩
    intro b' hb' hat hip
    obtain ⟨threat, now, recordedAt, hmem, hsource, hans, hexpiry⟩ := h.recorded b hb
    apply hshared b' hb' hat
    rw [hip]
    exact .inr ⟨threat, now, recordedAt, hmem, hsource, hans, hlater.trans_le (expiryFrom_le hexpiry)⟩
  accounted := by
    intro threat now recordedAt hmem hans
    have hmem := mem_respond_expire.mp hmem
    rcases h.accounted threat now recordedAt hmem hans with ⟨b, hb, hip, hexpiry⟩ | ⟨t', ht', hle⟩
    · by_cases hat : b.expiresAt ≤ t
      · refine .inr ⟨t, List.mem_concat_self, not_lt.mp ?_⟩
        intro hlt
        exact hshared b hb hat (.inr ⟨threat, now, recordedAt, hmem, hip.symm, hans, hlt⟩)
      · exact .inl ⟨b, mem_tempBlocks_expire.mpr ⟨hb, not_le.mp hat⟩, hip, hexpiry⟩
    · exact .inr ⟨t', List.mem_append_left _ ht', hle⟩

/-- One expiry, on a history that was kept so far. -/
theorem Kept.expiry_iff (h : Kept config past (run config tables past))
    (hclock : ∀ t', Op.expire t' ∈ past → t' ≤ t) :
    (∀ a, a ∈ (run config tables (past ++ [.expire t])).blocked config ↔
      Promised config past t a) ↔ Spared config tables past t := by
  have hblocked (a : IpAddr) : a ∈ (run config tables (past ++ [.expire t])).blocked config ↔
      a ∈ (run config tables past).blocked config ∧
        ∀ b ∈ (run config tables past).tempBlocks, b.expiresAt ≤ t → b.ip ≠ a := by
    rw [run_concat]
    exact mem_blocked_expire
  -- a temporary block that should stand has its record still
  have hrecord {threat now recordedAt} (hmem : Op.respond threat now recordedAt ∈ past)
      (hans : answer config threat now = some .tempBlock) (hlt : t < promisedEnd config now) :
      ∃ b ∈ (run config tables past).tempBlocks, b.ip = threat.sourceIp := by
    rcases h.accounted threat now recordedAt hmem hans with ⟨b, hb, hip, -⟩ | ⟨t', ht', hle⟩
    · exact ⟨b, hb, hip⟩
    · exact absurd (hle.trans (hclock t' ht')) (not_le.mpr hlt)
  constructor
  · intro hall
    constructor
    · intro b hb hat hpromised
      exact ((hblocked b.ip).mp ((hall b.ip).mpr hpromised)).2 b hb hat rfl
    · intro a ha
      by_contra hno
      obtain ⟨hforever, hnone⟩ := not_or.mp hno
      have hstays : a ∈ (run config tables (past ++ [.expire t])).blocked config :=
        (hblocked a).mpr ⟨ha, fun b hb _ hip => hnone ⟨b, hb, hip⟩⟩
      rcases (hall a).mp hstays with hperm | ⟨threat, now, recordedAt, hmem, rfl, hans, hlt⟩
      · exact hforever hperm
      · exact hnone (hrecord hmem hans hlt)
  · intro hspared a
    rw [hblocked]
    constructor
    · intro ⟨ha, hstays⟩
      rcases hspared.owned a ha with hperm | ⟨b, hb, rfl⟩
      · exact .inl hperm
      · obtain ⟨threat, now, recordedAt, hmem, hip, hans, hexpiry⟩ := h.recorded b hb
        have hlater : t < b.expiresAt := not_le.mp fun hat => hstays b hb hat rfl
        exact .inr ⟨threat, now, recordedAt, hmem, hip, hans,
          hlater.trans_le (expiryFrom_le hexpiry)⟩
    · intro hpromised
      constructor
      · rcases hpromised with hperm | ⟨threat, now, recordedAt, hmem, rfl, hans, hlt⟩
        · exact h.forever a hperm
        · obtain ⟨b, hb, hip⟩ := hrecord hmem hans hlt
          rw [← hip]
          exact h.temporary b hb
      · rintro b hb hat rfl
        exact hspared.shared b hb hat hpromised

theorem Kept.run (ops : List Op)
    (h : ∀ past t, List.IsPrefix (past ++ [.expire t]) ops → Spared config tables past t) :
    Kept config ops (run config tables ops) := by
  induction ops using List.reverseRecOn with
  | nil => exact .fresh tables
  | append_singleton ops op ih =>
    have hbefore := ih fun past t hp => h past t (hp.trans (List.prefix_append ops [op]))
    rw [run_concat]
    cases op with
    | respond threat now recordedAt => exact hbefore.respond threat now recordedAt
    | expire t => exact hbefore.expire (h ops t (List.prefix_refl _)).shared

/-- The table is right after every expiry exactly if every expiry spares the blocks that should
stand: two blocks of one address share one entry of the table, and the first to end removes it. -/
theorem lastsAsPromised_iff (config : ResponseConfig) (tables : PfTables) (ops : List Op)
    (hclock : (ops.map Op.now).Pairwise (· ≤ ·)) :
    LastsAsPromised config tables ops ↔
      ∀ past t, List.IsPrefix (past ++ [.expire t]) ops → Spared config tables past t := by
  have hiff := forall_prefix_congr (l := ops)
    (P := fun past op => ∀ t, op = .expire t → ∀ a,
      a ∈ (run config tables (past ++ [.expire t])).blocked config ↔ Promised config past t a)
    (Q := fun past op => ∀ t, op = .expire t → Spared config tables past t) (by
      intro past op hp hspared
      have hkept : Kept config past (run config tables past) :=
        Kept.run past fun p t hpt => hspared p _ hpt t rfl
      apply forall_congr'
      intro t
      apply imp_congr_right
      rintro rfl
      apply hkept.expiry_iff
      intro t' ht'
      have hordered := hclock.sublist (hp.sublist.map Op.now)
      rw [List.map_append, List.pairwise_append] at hordered
      exact hordered.2.2 t' (List.mem_map_of_mem ht') t (List.mem_singleton.mpr rfl))
  constructor
  · intro h past t hp
    exact hiff.mp (fun p op hop t' ht' => h p t' (ht' ▸ hop)) past _ hp t rfl
  · intro h past t hp
    exact hiff.mpr (fun p op hop t' ht' => h p t' (ht' ▸ hop)) past _ hp t rfl

def hourBlocks : ResponseConfig where
  rateLimitThreshold := .fin (1 / 2)
  tempBlockThreshold := .fin (3 / 4)
  permBlockThreshold := .fin (15 / 16)
  tempBlockDurationSecs := 3600
  blockTable := "ai_blocked".toList
  ratelimitTable := "ai_ratelimit".toList

def scan (score : ℚ) : Threat where
  id := 1
  threatType := .portScan
  score := .fin score
  sourceIp := .v4 0x0A000063
  description := "scan".toList

theorem answer_scan : answer hourBlocks (scan (7 / 8)) 0 = some .tempBlock ∧
    answer hourBlocks (scan 1) (10 * nanosPerSec) = some .permBlock := by
  decide +kernel

def hour : Int := 3600 * nanosPerSec

theorem blocked_for_an_hour :
    LastsAsPromised hourBlocks (fun _ => []) [.respond (scan (7 / 8)) 0 0, .expire hour] := by
  have hclock : ([.respond (scan (7 / 8)) 0 0, .expire hour].map Op.now).Pairwise (· ≤ ·) := by
    decide +kernel
  apply (lastsAsPromised_iff hourBlocks (fun _ => []) _ hclock).mpr
  intro past t ⟨rest, hrest⟩
  cases past with
  | nil => cases hrest
  | cons op past =>
    cases past with
    | cons op' past => simp at hrest
    | nil =>
      cases hrest
      have hblocked : (run hourBlocks (fun _ => []) [.respond (scan (7 / 8)) 0 0]).blocked hourBlocks =
          (run hourBlocks (fun _ => []) [.respond (scan (7 / 8)) 0 0]).tempBlocks.map
            TempBlock.ip := by
        decide +kernel
      constructor
      · intro b hb hat hpromised
        rcases hpromised with ⟨threat, now, recordedAt, hmem, -, hans⟩ |
          ⟨threat, now, recordedAt, hmem, -, hans, hlt⟩
        · cases List.mem_singleton.mp hmem
          rw [answer_scan.1] at hans
          cases hans
        · cases List.mem_singleton.mp hmem
          exact absurd hlt (by decide +kernel)
      · intro a ha
        rw [hblocked] at ha
        obtain ⟨b, hb, hip⟩ := List.mem_map.mp ha
        exact .inr ⟨b, hb, hip⟩

/-- A temporary block, and ten seconds later a permanent one of the same address: the end of the
first lifts both. -/
theorem permanent_block_lifted :
    ¬ ∀ config tables ops, tables config.blockTable = [] →
      (ops.map Op.now).Pairwise (· ≤ ·) → LastsAsPromised config tables ops := by
  intro h
  have hlasts := h hourBlocks (fun _ => []) [.respond (scan (7 / 8)) 0 0,
    .respond (scan 1) (10 * nanosPerSec) (10 * nanosPerSec), .expire hour] rfl (by decide +kernel)
  have hstands := (hlasts [.respond (scan (7 / 8)) 0 0,
    .respond (scan 1) (10 * nanosPerSec) (10 * nanosPerSec)] hour (List.prefix_refl _)
    (scan 1).sourceIp).mpr (.inl ⟨scan 1, _, _, List.mem_cons_of_mem _ List.mem_cons_self, rfl,
      answer_scan.2⟩)
  revert hstands
  decide +kernel

/-- With a table of its own for the rate limit, the block table starts and stays owned. -/
theorem spared_iff_of_apart (ops : List Op) (hempty : tables config.blockTable = [])
    (hapart : config.blockTable ≠ config.ratelimitTable) :
    (∀ past t, List.IsPrefix (past ++ [.expire t]) ops → Spared config tables past t) ↔
      ∀ past t, List.IsPrefix (past ++ [.expire t]) ops →
        ∀ b ∈ (run config tables past).tempBlocks, b.expiresAt ≤ t →
          ¬ Promised config past t b.ip := by
  constructor
  · intro h past t hp
    exact (h past t hp).shared
  · intro h past t hp
    refine ⟨h past t hp, ?_⟩
    have howned (past : List Op) : ∀ a ∈ (run config tables past).blocked config,
        BlockedForever config past a ∨ ∃ b ∈ (run config tables past).tempBlocks, b.ip = a := by
      induction past using List.reverseRecOn with
      | nil =>
        intro a ha
        have hnone : a ∈ tables config.blockTable := ha
        rw [hempty] at hnone
        cases hnone
      | append_singleton past op ih =>
        intro a ha
        rw [run_concat] at ha ⊢
        cases op with
        | respond threat now recordedAt =>
          rcases mem_blocked_respond.mp ha with ha | ⟨rfl, hans | hans | ⟨-, hsame⟩⟩
          · rcases ih a ha with hperm | ⟨b, hb, hip⟩
            · exact .inl (blockedForever_concat_respond.mpr (.inl hperm))
            · exact .inr ⟨b, mem_tempBlocks_respond.mpr (.inl hb), hip⟩
          · exact .inl (blockedForever_concat_respond.mpr (.inr ⟨rfl, hans⟩))
          · obtain ⟨e, he⟩ := exists_expiry hans
            refine .inr ⟨⟨threat.sourceIp, threat.id, e, threat.description⟩, ?_, rfl⟩
            exact mem_tempBlocks_respond.mpr (.inr ⟨hans, rfl, rfl, he, rfl⟩)
          · exact absurd hsame hapart
        | expire t =>
          obtain ⟨ha, hstays⟩ := mem_blocked_expire.mp ha
          rcases ih a ha with hperm | ⟨b, hb, hip⟩
          · exact .inl (blockedForever_concat_expire.mpr hperm)
          · refine .inr ⟨b, mem_tempBlocks_expire.mpr ⟨hb, not_le.mp ?_⟩, hip⟩
            intro hat
            exact hstays b hb hat hip
    exact howned past

end AiFw.Ai.AutoResponder
