import AiFw.Pf.MatchLoss
import AiFw.Pf.RateLimit

namespace AiFw.Pf
open AiFw.Net
set_option autoImplicit true

/-- The address of one family that an expression stands for. -/
def Address.host : Address → Option IpAddr
  | .single ip => some ip
  | .network ip _ => some ip
  | _ => none

def Address.inTables (names : List (List Char)) : Address → Bool
  | .table name => names.contains name
  | _ => false

def portsReversed : Option PortRange → Bool
  | some p => p.end_ < p.start
  | none => false

def familiesApart (a b : Address) : Bool :=
  match a.host, b.host with
  | some x, some y => !x.sameFamily y
  | _, _ => false

/-- An address of the expression, which is not of any table. -/
theorem Address.accepts_host {a : Address} (h : a.host = some ip) :
    a.accepts tables false ip = true := by
  cases a with
  | any => cases h
  | table name => cases h
  | single host =>
    cases h
    rw [accepts, IpAddr.sameFamily_self, beq_self_eq_true]
    rfl
  | network net len =>
    cases h
    rw [accepts, IpAddr.sameFamily_self, IpAddr.inNet_self]
    rfl

theorem sameFamily_iff {a b : IpAddr} : a.sameFamily b = true ↔ a.isIpv4 = b.isIpv4 := by
  cases a <;> cases b <;> simp only [IpAddr.sameFamily, IpAddr.isIpv4, reduceCtorEq]

theorem Address.isIpv4_of_accepts {a : Address} (h : a.host = some x)
    (ha : a.accepts tables false ip = true) : x.isIpv4 = ip.isIpv4 := by
  apply sameFamily_iff.mp
  cases a with
  | any => cases h
  | table name => cases h
  | single host =>
    cases h
    rw [accepts, Bool.and_eq_true] at ha
    exact ha.1
  | network net len =>
    cases h
    rw [accepts, Bool.and_eq_true] at ha
    exact ha.1

theorem Packet.isIpv4_dst (pkt : Packet) : pkt.dst.isIpv4 = pkt.src.isIpv4 := by
  unfold Packet.dst Packet.src
  cases pkt.endpoints <;> rfl

def Endpoints.between : IpAddr → IpAddr → Endpoints
  | .v6 src, .v6 dst => .v6 src dst
  | .v4 src, .v4 dst => .v4 src dst
  | _, _ => .v4 0 0

namespace RateLimitRule

/-- No packet from outside the tables seen matches the pass rule. -/
def passesNone (seen : List (List Char)) (rule : RateLimitRule) : Bool :=
  rule.srcAddr.inTables seen || familiesApart rule.srcAddr rule.dstAddr ||
    portsReversed rule.dstPort

/-- A pass rule matches nothing from outside the tables up to its own, or no later table is
another one. -/
def unshadowed : List (List Char) → List RateLimitRule → Bool
  | _, [] => true
  | seen, rule :: rest =>
    let seen := rule.overloadTable :: seen
    (rule.passesNone seen || rest.all fun later => seen.contains later.overloadTable) &&
      unshadowed seen rest

/-- The source is in the table of one of the rules. -/
def Overloaded (rules : List RateLimitRule) (tables : Tables) (pkt : Packet) : Prop :=
  ∃ rule ∈ rules, tables rule.overloadTable pkt.src = true

def Blocked (rules : List RateLimitRule) (tables : Tables) (pkt : Packet) : Prop :=
  ∃ r, evaluate tables pkt none (rules.flatMap statements) = some r ∧ r.block = true

/-- Whatever the tables hold, except for sources in the tables seen. -/
def BlocksBeyond (seen : List (List Char)) (rules : List RateLimitRule) : Prop :=
  ∀ tables pkt, pkt.inbound = true → (∀ name ∈ seen, tables name pkt.src = false) →
    Overloaded rules tables pkt → Blocked rules tables pkt

def Blocks (rules : List RateLimitRule) : Prop :=
  ∀ tables pkt, pkt.inbound = true → Overloaded rules tables pkt → Blocked rules tables pkt

variable {rule : RateLimitRule} {tables : Tables} {pkt : Packet}

theorem blockRule_accepts (rule : RateLimitRule) (tables : Tables) (h : pkt.inbound = true) :
    rule.blockRule.pattern.accepts tables pkt = tables rule.overloadTable pkt.src := by
  have hfrom : Address.accepts tables false pkt.src (.table rule.overloadTable) =
      tables rule.overloadTable pkt.src := Bool.xor_false _
  have hany : Address.accepts tables false pkt.dst .any = true := rfl
  simp only [blockRule, fromTable, FilterMatch.accepts, HostMatch.accepts, Direction.accepts, h,
    interfaceAccepts, IpVersion.accepts, protocolAccepts, hfrom, hany, portAccepts, HostMatch.any,
    true_or, decide_true, Bool.true_and, Bool.and_true]

theorem evaluate_statements (rest : List Statement) (h : pkt.inbound = true) :
    evaluate tables pkt none (rule.statements ++ rest) =
      if tables rule.overloadTable pkt.src then some rule.blockRule
      else if rule.pattern.accepts tables pkt then some rule.passRule
      else evaluate tables pkt none rest := by
  change (if rule.blockRule.pattern.accepts tables pkt then some rule.blockRule
    else if rule.pattern.accepts tables pkt then some rule.passRule
    else evaluate tables pkt none rest) = _
  rw [blockRule_accepts rule tables h]

theorem pattern_accepts (h : pkt.inbound = true) :
    rule.pattern.accepts tables pkt = true ↔
      interfaceAccepts pkt.interface rule.interface = true ∧
        protocolAccepts pkt.protocol rule.protocol.numbers = true ∧
        rule.srcAddr.accepts tables false pkt.src = true ∧
        rule.dstAddr.accepts tables false pkt.dst = true ∧
        portAccepts pkt.dstPort rule.dstPort = true := by
  simp only [pattern, FilterMatch.accepts, HostMatch.accepts, Direction.accepts, h,
    IpVersion.accepts, portAccepts, Bool.and_eq_true, Bool.true_and, Bool.and_true, and_assoc]

theorem not_accepts_of_passesNone (h : rule.passesNone seen = true) (hin : pkt.inbound = true)
    (hseen : ∀ name ∈ seen, tables name pkt.src = false) :
    rule.pattern.accepts tables pkt = false := by
  rw [← Bool.not_eq_true, pattern_accepts hin]
  rintro ⟨-, -, hsrc, hdst, hport⟩
  rw [passesNone, Bool.or_eq_true, Bool.or_eq_true] at h
  obtain (h | h) | h := h
  · unfold Address.inTables at h
    split at h
    · next name he =>
      have hfalse := hseen name (List.contains_iff_mem.mp h)
      rw [he, Address.accepts, hfalse] at hsrc
      cases hsrc
    · cases h
  · unfold familiesApart at h
    split at h
    · next x y hx hy =>
      have hsame : x.isIpv4 = y.isIpv4 :=
        (Address.isIpv4_of_accepts hx hsrc).trans
          (pkt.isIpv4_dst.symm.trans (Address.isIpv4_of_accepts hy hdst).symm)
      rw [sameFamily_iff.mpr hsame] at h
      cases h
    · cases h
  · unfold portsReversed at h
    split at h
    · next p hp =>
      rw [hp, portAccepts, Bool.and_eq_true, decide_eq_true_eq, decide_eq_true_eq] at hport
      exact absurd (UInt16.le_trans hport.1 hport.2) (UInt16.not_le.mpr (of_decide_eq_true h))
    · cases h

/-- Ends of one family that both sides of the rule are for. A side that names no address is for
any of them, the other end apart. -/
theorem exists_ends (h : familiesApart rule.srcAddr rule.dstAddr = false) :
    ∃ src dst : IpAddr, src.isIpv4 = dst.isIpv4 ∧ (rule.srcAddr.host = none ∨
      rule.srcAddr.host = some src) ∧ (rule.dstAddr.host = none ∧ dst ≠ src ∨
        rule.dstAddr.host = some dst) := by
  cases hs : rule.srcAddr.host with
  | none =>
    cases hd : rule.dstAddr.host with
    | none =>
      exact ⟨.v4 0, .v4 1, rfl, .inl rfl, .inl ⟨rfl, by decide⟩⟩
    | some y => exact ⟨y, y, rfl, .inl rfl, .inr rfl⟩
  | some x =>
    cases hd : rule.dstAddr.host with
    | none => exact ⟨x, x.flipTop, sameFamily_iff.mp x.sameFamily_flipTop, .inr rfl,
        .inl ⟨rfl, x.flipTop_ne⟩⟩
    | some y =>
      rw [familiesApart, hs, hd] at h
      exact ⟨x, y, sameFamily_iff.mp (Bool.not_eq_false' .. ▸ h), .inr rfl, .inr rfl⟩

theorem between_src {src dst : IpAddr} (h : src.isIpv4 = dst.isIpv4) (pkt : Packet) :
    ({ pkt with endpoints := .between src dst } : Packet).src = src ∧
      ({ pkt with endpoints := .between src dst } : Packet).dst = dst := by
  cases src <;> cases dst <;> first | exact ⟨rfl, rfl⟩ | cases h

/-- Every other pass rule matches a packet whose source is in exactly the tables not seen. -/
theorem exists_passed (h : rule.passesNone seen = false) :
    ∃ tables pkt, pkt.inbound = true ∧ rule.pattern.accepts tables pkt = true ∧
      ∀ name, tables name pkt.src = !seen.contains name := by
  rw [passesNone, Bool.or_eq_false_iff, Bool.or_eq_false_iff] at h
  obtain ⟨⟨htable, hfamilies⟩, hports⟩ := h
  obtain ⟨src, dst, hfamily, hsrc, hdst⟩ := exists_ends hfamilies
  have hordered : ∀ p ∈ rule.dstPort, p.start ≤ p.end_ := by
    intro p hp
    rw [Option.mem_def.mp hp, portsReversed, decide_eq_false_iff_not] at hports
    exact UInt16.not_lt.mp hports
  obtain ⟨port, hport⟩ := exists_port_accepted hordered
  have hproto : protocolAccepts (rule.protocol.numbers.headD 0) rule.protocol.numbers = true := by
    cases rule.protocol <;> decide
  have hiface : interfaceAccepts (rule.interface.getD []) rule.interface = true := by
    cases rule.interface with
    | none => rfl
    | some iface => exact beq_self_eq_true iface
  let tables : Tables := fun name ip => !seen.contains name || ip ≠ src
  let pkt : Packet :=
    ⟨true, rule.interface.getD [], .between src dst, rule.protocol.numbers.headD 0, 0, port⟩
  obtain ⟨hpsrc, hpdst⟩ := between_src hfamily pkt
  have htables (name : List Char) : tables name src = !seen.contains name := by
    simp only [tables, ne_eq, not_true_eq_false, decide_false, Bool.or_false]
  refine ⟨tables, pkt, rfl, (pattern_accepts rfl).mpr ⟨hiface, hproto, ?_, ?_, hport⟩, ?_⟩
  · rw [hpsrc]
    obtain hnone | hsome := hsrc
    · cases ha : rule.srcAddr with
      | any => rfl
      | table name =>
        rw [ha, Address.inTables] at htable
        rw [Address.accepts, htables, htable]
        rfl
      | single ip =>
        rw [ha] at hnone
        cases hnone
      | network ip len =>
        rw [ha] at hnone
        cases hnone
    · exact Address.accepts_host hsome
  · rw [hpdst]
    obtain ⟨hnone, hne⟩ | hsome := hdst
    · cases ha : rule.dstAddr with
      | any => rfl
      | table name =>
        simp only [Address.accepts, tables, ne_eq, hne, not_false_eq_true, decide_true,
          Bool.or_true, Bool.bne_false]
      | single ip =>
        rw [ha] at hnone
        cases hnone
      | network ip len =>
        rw [ha] at hnone
        cases hnone
    · exact Address.accepts_host hsome
  · intro name
    rw [hpsrc, htables]

theorem blocked_cons (h : pkt.inbound = true) :
    Blocked (rule :: rest) tables pkt ↔ tables rule.overloadTable pkt.src = true ∨
      rule.pattern.accepts tables pkt = false ∧ Blocked rest tables pkt := by
  rw [Blocked, List.flatMap_cons, evaluate_statements _ h]
  by_cases htable : tables rule.overloadTable pkt.src = true
  · rw [if_pos htable]
    exact iff_of_true ⟨_, rfl, rfl⟩ (.inl htable)
  · rw [if_neg htable]
    by_cases hpass : rule.pattern.accepts tables pkt = true
    · rw [if_pos hpass, hpass]
      constructor
      · rintro ⟨r, hr, hblock⟩
        cases hr
        cases hblock
      · rintro (h | ⟨h, -⟩)
        · exact absurd h htable
        · cases h
    · rw [if_neg hpass]
      rw [Bool.not_eq_true] at hpass
      exact ⟨fun h => .inr ⟨hpass, h⟩, fun h => h.elim (absurd · htable) And.right⟩

theorem blocksBeyond_cons : BlocksBeyond seen (rule :: rest) ↔
    (rule.passesNone (rule.overloadTable :: seen) ||
      rest.all fun later => (rule.overloadTable :: seen).contains later.overloadTable) = true ∧
    BlocksBeyond (rule.overloadTable :: seen) rest := by
  constructor
  · intro h
    refine ⟨?_, ?_⟩
    · by_contra hnot
      rw [Bool.not_eq_true, Bool.or_eq_false_iff] at hnot
      obtain ⟨hpass, hlater⟩ := hnot
      obtain ⟨tables, pkt, hin, haccepts, htables⟩ := exists_passed hpass
      obtain ⟨later, hmem, hnew⟩ := List.all_eq_false.mp hlater
      have hblocked := h tables pkt hin (by
        intro name hname
        rw [htables, Bool.not_eq_false', List.contains_iff_mem]
        exact List.mem_cons_of_mem _ hname) ⟨later, List.mem_cons_of_mem _ hmem, by
          rw [htables, Bool.not_eq_true', ← Bool.not_eq_true]
          exact hnew⟩
      obtain htable | ⟨hno, -⟩ := (blocked_cons hin).mp hblocked
      · rw [htables, Bool.not_eq_true', ← Bool.not_eq_true, List.contains_iff_mem] at htable
        exact htable List.mem_cons_self
      · rw [haccepts] at hno
        cases hno
    · intro tables pkt hin hseen hover
      obtain ⟨later, hmem, htable⟩ := hover
      have hblocked := h tables pkt hin (fun name hname => hseen name (List.mem_cons_of_mem _ hname))
        ⟨later, List.mem_cons_of_mem _ hmem, htable⟩
      obtain hown | ⟨-, hrest⟩ := (blocked_cons hin).mp hblocked
      · rw [hseen _ List.mem_cons_self] at hown
        cases hown
      · exact hrest
  · rintro ⟨hhead, hrest⟩ tables pkt hin hseen ⟨later, hmem, htable⟩
    apply (blocked_cons hin).mpr
    by_cases hown : tables rule.overloadTable pkt.src = true
    · exact .inl hown
    · right
      rw [Bool.not_eq_true] at hown
      have hseen' : ∀ name ∈ rule.overloadTable :: seen, tables name pkt.src = false :=
        List.forall_mem_cons.mpr ⟨hown, hseen⟩
      obtain rfl | hmem := List.mem_cons.mp hmem
      · rw [hown] at htable
        cases htable
      · rw [Bool.or_eq_true, List.all_eq_true] at hhead
        obtain hpass | hold := hhead
        · exact ⟨not_accepts_of_passesNone hpass hin hseen',
            hrest tables pkt hin hseen' ⟨later, hmem, htable⟩⟩
        · rw [hseen' _ (List.contains_iff_mem.mp (hold later hmem))] at htable
          cases htable

theorem blocksBeyond_iff (seen : List (List Char)) (rules : List RateLimitRule) :
    BlocksBeyond seen rules ↔ unshadowed seen rules = true := by
  induction rules generalizing seen with
  | nil =>
    apply iff_of_true _ rfl
    rintro tables pkt - - ⟨_, hmem, -⟩
    cases hmem
  | cons rule rest ih => rw [blocksBeyond_cons, unshadowed, Bool.and_eq_true, ih]

def active (listed : List RateLimitRule) : List RateLimitRule :=
  listed.filter fun r => r.status = .active

theorem read_applyRateLimits {rules : List RateLimitRule} (h : ∀ rule ∈ rules, rule.Named) :
    (rules.flatMap pfLines).mapM readStatement = some (rules.flatMap statements) := by
  induction rules with
  | nil => rfl
  | cons rule rest ih =>
    rw [List.forall_mem_cons] at h
    simp only [List.flatMap_cons, List.mapM_append, read_pfLines h.1, ih h.2, Option.bind_eq_bind,
      Option.bind_some, Option.pure_def]

/-- The lines that are loaded, which pf reads as these statements where it can read the names,
block every source of an overload table exactly if no pass rule shadows a later table. -/
theorem overloaded_blocked_iff (listed : List RateLimitRule) :
    (Blocks (active listed) ↔ unshadowed [] (active listed) = true) ∧
      ((∀ rule ∈ active listed, rule.Named) →
        (applyRateLimits listed).mapM readStatement = some ((active listed).flatMap statements)) := by
  refine ⟨?_, read_applyRateLimits⟩
  rw [← blocksBeyond_iff]
  constructor
  · intro h tables pkt hin _ hover
    exact h tables pkt hin hover
  · intro h tables pkt hin hover
    exact h tables pkt hin (fun _ hname => nomatch hname) hover

/-- A limit on TCP connections from anywhere. -/
def sampleLimit (name table : List Char) : RateLimitRule where
  id := 1
  name := name
  interface := none
  protocol := .tcp
  srcAddr := .any
  dstAddr := .any
  dstPort := none
  maxConnections := 5
  windowSecs := 60
  overloadTable := table
  flushStates := true
  status := .active
  createdAt := "2026-01-01T00:00:00+00:00".toList
  updatedAt := "2026-01-01T00:00:00+00:00".toList

example : unshadowed [] [sampleLimit "ssh".toList "bruteforce".toList,
    sampleLimit "web".toList "bruteforce".toList] = true := by decide

def sampleLimits : List RateLimitRule :=
  [sampleLimit "ssh".toList "bruteforce".toList, sampleLimit "web".toList "scanners".toList]

/-- A source that only the table of the second rule holds is passed by the first one. -/
theorem shadowed_source_passes :
    (∃ pkt : Packet, pkt.inbound = true ∧
      Overloaded sampleLimits (fun name _ => name = "scanners".toList) pkt ∧
      evaluate (fun name _ => name = "scanners".toList) pkt none (sampleLimits.flatMap statements) =
        some (sampleLimit "ssh".toList "bruteforce".toList).passRule) ∧ ¬Blocks sampleLimits := by
  have hin : (Packet.mk true [] (.v4 0xCB007109 0xC0000201) 6 40000 80).inbound = true := rfl
  have hover : Overloaded sampleLimits (fun name _ => name = "scanners".toList)
      ⟨true, [], .v4 0xCB007109 0xC0000201, 6, 40000, 80⟩ :=
    ⟨sampleLimit "web".toList "scanners".toList, List.mem_cons_of_mem _ List.mem_cons_self, rfl⟩
  have hpassed : evaluate (fun name _ => name = "scanners".toList)
      ⟨true, [], .v4 0xCB007109 0xC0000201, 6, 40000, 80⟩ none (sampleLimits.flatMap statements) =
        some (sampleLimit "ssh".toList "bruteforce".toList).passRule := by decide
  refine ⟨⟨_, hin, hover, hpassed⟩, ?_⟩
  intro h
  obtain ⟨r, hr, hblock⟩ := h _ _ hin hover
  rw [hpassed] at hr
  cases hr
  cases hblock

end RateLimitRule

end AiFw.Pf
