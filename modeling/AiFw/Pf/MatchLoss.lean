import AiFw.Pf.Match

namespace AiFw.Pf
open AiFw.Lib AiFw.Net
set_option autoImplicit true

/-- No packet of the address family is on that side of the rule. -/
def Address.Impossible (family : IpVersion) (invert : Bool) : Address → Prop
  | .any => False
  | .single ip => family.accepts ip = false
  | .network ip len => family.accepts ip = false ∨ (invert ∧ len = 0)
  | .table _ => False

/-- The range of a port clause that constrains nothing. -/
def PortRange.full : PortRange := ⟨0, 65535⟩

/-- The source clause is left out although it constrains the source. -/
def Rule.losesSource (rule : Rule) : Prop :=
  rule.ruleMatch.srcAddr = .any ∧
    (rule.srcInvert ∨ ∃ p, rule.ruleMatch.srcPort = some p ∧ p ≠ .full)

/-- The inversion of the destination is left out. -/
def Rule.losesDestination (rule : Rule) : Prop :=
  rule.ruleMatch.dstAddr = .any ∧ rule.dstInvert

theorem IpVersion.accepts_sameFamily {v : IpVersion} (h : IpAddr.sameFamily a b = true) :
    v.accepts a = v.accepts b := by
  cases a <;> cases b <;> first | rfl | cases h

theorem Address.not_impossible {a : Address} (hf : family.accepts ip = true)
    (h : a.accepts tables invert ip = true) : ¬a.Impossible family invert := by
  intro hi
  cases a with
  | any => exact hi
  | table name => exact hi
  | single host =>
    rw [accepts, Bool.and_eq_true] at h
    rw [Impossible, IpVersion.accepts_sameFamily h.1, hf] at hi
    cases hi
  | network net len =>
    rw [accepts, Bool.and_eq_true] at h
    rcases hi with hi | ⟨hinv, hlen⟩
    · rw [IpVersion.accepts_sameFamily h.1, hf] at hi
      cases hi
    · rw [hlen, hinv] at h
      have hz : net.inNet 0 ip = true := by rw [IpAddr.inNet_zero, h.1]
      rw [show (0 : UInt8).toNat = 0 from rfl, hz] at h
      exact absurd h.2 (by decide)

def IpVersion.someAddr : IpVersion → IpAddr
  | .inet6 => .v6 0
  | _ => .v4 0

theorem IpVersion.accepts_someAddr (v : IpVersion) : v.accepts v.someAddr = true := by
  cases v <;> rfl

/-- Every other side of a rule is met by some address under some tables. -/
theorem Address.exists_accepted {a : Address} (hr : a.InRange) (hany : a = .any → invert = false)
    (h : ¬a.Impossible family invert) :
    ∃ tables ip, family.accepts ip = true ∧ a.accepts tables invert ip = true := by
  cases a with
  | any =>
    refine ⟨fun _ _ => true, family.someAddr, family.accepts_someAddr, ?_⟩
    rw [accepts, hany rfl]
    rfl
  | table name =>
    refine ⟨fun _ _ => !invert, family.someAddr, family.accepts_someAddr, ?_⟩
    cases invert <;> rfl
  | single host =>
    rw [Impossible, Bool.not_eq_false] at h
    cases invert with
    | false =>
      refine ⟨fun _ _ => true, host, h, ?_⟩
      rw [accepts, IpAddr.sameFamily_self, beq_self_eq_true]
      rfl
    | true =>
      have hne : (host == host.flipTop) = false := beq_eq_false_iff_ne.mpr host.flipTop_ne.symm
      refine ⟨fun _ _ => true, host.flipTop, ?_, ?_⟩
      · rw [← IpVersion.accepts_sameFamily host.sameFamily_flipTop]
        exact h
      · rw [accepts, IpAddr.sameFamily_flipTop, hne]
        rfl
  | network net len =>
    rw [Impossible, not_or, Bool.not_eq_false, not_and] at h
    cases invert with
    | false =>
      refine ⟨fun _ _ => true, net, h.1, ?_⟩
      rw [accepts, IpAddr.sameFamily_self, IpAddr.inNet_self]
      rfl
    | true =>
      have hpos : 0 < len.toNat := by
        apply Nat.pos_of_ne_zero
        intro hz
        exact h.2 rfl (UInt8.toNat_inj.mp hz)
      refine ⟨fun _ _ => true, net.flipTop, ?_, ?_⟩
      · rw [← IpVersion.accepts_sameFamily net.sameFamily_flipTop]
        exact h.1
      · rw [accepts, IpAddr.sameFamily_flipTop, net.inNet_flipTop hpos hr]
        rfl

theorem PortRange.exists_outside {p : PortRange} (h : p ≠ .full) :
    ∃ port, portAccepts port (some p) = false := by
  by_cases hs : p.start = 0
  · refine ⟨65535, ?_⟩
    rw [portAccepts, Bool.and_eq_false_iff]
    right
    rw [decide_eq_false_iff_not]
    intro hle
    apply h
    have hend : p.end_ = 65535 := by
      apply UInt16.le_antisymm _ hle
      exact UInt16.le_iff_toNat_le.mpr (Nat.le_of_lt_succ p.end_.toNat_lt)
    obtain ⟨start, end_⟩ := p
    rw [PortRange.full, PortRange.mk.injEq]
    exact ⟨hs, hend⟩
  · refine ⟨0, ?_⟩
    rw [portAccepts, Bool.and_eq_false_iff]
    left
    rw [decide_eq_false_iff_not]
    intro hle
    apply hs
    have hz : p.start.toNat = 0 := Nat.le_zero.mp (UInt16.le_iff_toNat_le.mp hle)
    exact UInt16.toNat_inj.mp hz

theorem exists_port_accepted {port : Option PortRange} (h : ∀ p ∈ port, p.start ≤ p.end_) :
    ∃ q, portAccepts q port = true := by
  cases port with
  | none => exact ⟨0, rfl⟩
  | some p =>
    refine ⟨p.start, ?_⟩
    rw [portAccepts, Bool.and_eq_true, decide_eq_true_eq, decide_eq_true_eq]
    exact ⟨UInt16.le_refl _, h p rfl⟩

theorem portAccepts_full (q : UInt16) : portAccepts q (some .full) = true := by
  rw [portAccepts, Bool.and_eq_true, decide_eq_true_eq, decide_eq_true_eq]
  exact ⟨UInt16.le_iff_toNat_le.mpr (Nat.zero_le _),
    UInt16.le_iff_toNat_le.mpr (Nat.le_of_lt_succ q.toNat_lt)⟩

/-- A packet the rule is for, from an address to itself. -/
def Rule.packetAt (rule : Rule) (ip : IpAddr) (srcPort dstPort : UInt16) : Packet where
  inbound := rule.direction ≠ .out
  interface := rule.interface.getD []
  endpoints := match ip with
    | .v4 a => .v4 a a
    | .v6 a => .v6 a a
  protocol := rule.protocol.numbers.headD 0
  srcPort := srcPort
  dstPort := dstPort

/-- The part of the match that is written as it is. -/
def Rule.commonAccepts (rule : Rule) (pkt : Packet) : Bool :=
  rule.direction.accepts pkt.inbound && interfaceAccepts pkt.interface rule.interface &&
    rule.ipVersion.accepts pkt.src && protocolAccepts pkt.protocol rule.protocol.numbers

theorem Rule.commonAccepts_packetAt (rule : Rule) (hf : rule.ipVersion.accepts ip = true)
    (p q : UInt16) : rule.commonAccepts (rule.packetAt ip p q) = true := by
  have hdir : rule.direction.accepts (decide (rule.direction ≠ .out)) = true := by
    cases rule.direction <;> rfl
  have hiface : interfaceAccepts (rule.interface.getD []) rule.interface = true := by
    cases rule.interface with
    | none => rfl
    | some iface => exact beq_self_eq_true iface
  have hproto : protocolAccepts (rule.protocol.numbers.headD 0) rule.protocol.numbers = true := by
    cases rule.protocol <;> decide
  have hsrc : (rule.packetAt ip p q).src = ip := by
    cases ip <;> rfl
  rw [Rule.commonAccepts, hsrc]
  simp only [Rule.packetAt, hdir, hiface, hf, hproto, Bool.and_self]

theorem Rule.packetAt_src (rule : Rule) (ip : IpAddr) (p q : UInt16) :
    (rule.packetAt ip p q).src = ip := by
  cases ip <;> rfl

theorem Rule.packetAt_dst (rule : Rule) (ip : IpAddr) (p q : UInt16) :
    (rule.packetAt ip p q).dst = ip := by
  cases ip <;> rfl

theorem Rule.written_accepts (rule : Rule) (tables : Tables) (pkt : Packet) :
    rule.written.accepts tables pkt = (rule.commonAccepts pkt &&
      rule.written.src.accepts tables pkt.src pkt.srcPort &&
      rule.written.dst.accepts tables pkt.dst pkt.dstPort) := rfl

theorem Rule.described_accepts (rule : Rule) (tables : Tables) (pkt : Packet) :
    rule.described.accepts tables pkt = (rule.commonAccepts pkt &&
      rule.described.src.accepts tables pkt.src pkt.srcPort &&
      rule.described.dst.accepts tables pkt.dst pkt.dstPort) := rfl

theorem Rule.written_src_any (rule : Rule) :
    rule.written.src.addr = .any → rule.written.src.invert = false := by
  simp only [Rule.written]
  split
  · intro _
    rfl
  · rename_i h
    intro ha
    exact absurd ha h

theorem Rule.written_dst_any (rule : Rule) :
    rule.written.dst.addr = .any → rule.written.dst.invert = false := by
  simp only [Rule.written]
  split
  · intro _
    rfl
  · rename_i h
    intro ha
    exact absurd ha h

theorem Rule.written_src_impossible (rule : Rule) :
    rule.written.src.addr.Impossible rule.ipVersion rule.written.src.invert ↔
      rule.ruleMatch.srcAddr.Impossible rule.ipVersion rule.srcInvert := by
  simp only [Rule.written]
  split
  · rename_i h
    rw [h]
    exact Iff.rfl
  · exact Iff.rfl

theorem Rule.written_dst_impossible (rule : Rule) :
    rule.written.dst.addr.Impossible rule.ipVersion rule.written.dst.invert ↔
      rule.ruleMatch.dstAddr.Impossible rule.ipVersion rule.dstInvert := by
  simp only [Rule.written]
  split
  · rename_i h
    rw [h]
    exact Iff.rfl
  · exact Iff.rfl

section
variable {rule : Rule} (hv : rule.Valid)
include hv

theorem Rule.written_src_range : rule.written.src.addr.InRange := by
  simp only [Rule.written]
  split
  · trivial
  · exact hv.srcRange

theorem Rule.written_dst_range : rule.written.dst.addr.InRange := by
  simp only [Rule.written]
  split
  · trivial
  · exact hv.dstRange

theorem Rule.written_src_port : ∃ p, portAccepts p rule.written.src.port = true := by
  simp only [Rule.written]
  split
  · exact ⟨0, rfl⟩
  · exact exists_port_accepted hv.srcPort

theorem Rule.written_dst_port : ∃ p, portAccepts p rule.written.dst.port = true := by
  simp only [Rule.written]
  split
  · exact exists_port_accepted hv.dstPort
  · exact exists_port_accepted hv.dstPort

/-- A lost source clause widens the rule, unless its destination matches nothing. -/
theorem Rule.losesSource_widens (hl : rule.losesSource)
    (hp : ¬rule.ruleMatch.dstAddr.Impossible rule.ipVersion rule.dstInvert) :
    ∃ tables pkt, rule.written.accepts tables pkt = true ∧
      rule.described.accepts tables pkt = false := by
  obtain ⟨hany, hl⟩ := hl
  obtain ⟨tables, ip, hf, hip⟩ := Address.exists_accepted (Rule.written_dst_range hv)
    rule.written_dst_any (rule.written_dst_impossible.not.mpr hp)
  obtain ⟨q, hq⟩ := Rule.written_dst_port hv
  have hout : ∃ p, rule.described.src.accepts tables ip p = false := by
    rcases hl with hinv | ⟨range, hr, hne⟩
    · refine ⟨0, ?_⟩
      simp only [Rule.described, HostMatch.accepts, hany, hinv, Address.accepts, Bool.not_true,
        Bool.false_and]
    · obtain ⟨p, hp⟩ := PortRange.exists_outside hne
      refine ⟨p, ?_⟩
      simp only [Rule.described, HostMatch.accepts, hr, hp, Bool.and_false]
  obtain ⟨p, hout⟩ := hout
  refine ⟨tables, rule.packetAt ip p q, ?_, ?_⟩
  · have hsrc : rule.written.src = .any := by
      simp only [Rule.written, hany, if_true]
    rw [Rule.written_accepts, rule.commonAccepts_packetAt hf, hsrc, rule.packetAt_dst,
      HostMatch.accepts, HostMatch.accepts, hip]
    exact hq
  · rw [Rule.described_accepts, rule.packetAt_src]
    have hport : (rule.packetAt ip p q).srcPort = p := rfl
    rw [hport, hout, Bool.and_false, Bool.false_and]

theorem Rule.losesDestination_widens (hl : rule.losesDestination)
    (hp : ¬rule.ruleMatch.srcAddr.Impossible rule.ipVersion rule.srcInvert) :
    ∃ tables pkt, rule.written.accepts tables pkt = true ∧
      rule.described.accepts tables pkt = false := by
  obtain ⟨hany, hinv⟩ := hl
  obtain ⟨tables, ip, hf, hip⟩ := Address.exists_accepted (Rule.written_src_range hv)
    rule.written_src_any (rule.written_src_impossible.not.mpr hp)
  obtain ⟨p, hp⟩ := Rule.written_src_port hv
  obtain ⟨q, hq⟩ := Rule.written_dst_port hv
  refine ⟨tables, rule.packetAt ip p q, ?_, ?_⟩
  · have hdst : rule.written.dst.addr.accepts tables rule.written.dst.invert ip = true := by
      simp only [Rule.written, hany, if_true]
      rfl
    have hsport : portAccepts (rule.packetAt ip p q).srcPort rule.written.src.port = true := hp
    have hdport : portAccepts (rule.packetAt ip p q).dstPort rule.written.dst.port = true := hq
    rw [Rule.written_accepts, rule.commonAccepts_packetAt hf, rule.packetAt_src,
      rule.packetAt_dst, HostMatch.accepts, HostMatch.accepts, hip, hsport, hdst, hdport]
    rfl
  · have hdst : rule.described.dst.accepts tables (rule.packetAt ip p q).dst q = false := by
      simp only [Rule.described, HostMatch.accepts, hany, hinv, Address.accepts, Bool.not_true,
        Bool.false_and]
    have hport : (rule.packetAt ip p q).dstPort = q := rfl
    rw [Rule.described_accepts, hport, hdst, Bool.and_false]

end

theorem Rule.written_src_eq (rule : Rule) (h : ¬rule.losesSource) (tables : Tables) (ip : IpAddr)
    (p : UInt16) : rule.written.src.accepts tables ip p = rule.described.src.accepts tables ip p := by
  simp only [Rule.written, Rule.described]
  split
  · rename_i hany
    rw [Rule.losesSource, not_and, not_or] at h
    obtain ⟨hinv, hport⟩ := h hany
    have hpa : portAccepts p rule.ruleMatch.srcPort = true := by
      cases hs : rule.ruleMatch.srcPort with
      | none => rfl
      | some range =>
        have hfull : range = .full := by
          by_contra hne
          exact hport ⟨range, hs, hne⟩
        rw [hfull]
        exact portAccepts_full p
    simp only [HostMatch.accepts, HostMatch.any, hany, Address.accepts, hpa,
      Bool.eq_false_iff.mpr hinv]
    rfl
  · rfl

theorem Rule.written_dst_eq (rule : Rule) (h : ¬rule.losesDestination) :
    rule.written.dst = rule.described.dst := by
  simp only [Rule.written, Rule.described]
  split
  · rename_i hany
    rw [Rule.losesDestination, not_and] at h
    rw [hany, Bool.eq_false_iff.mpr (h hany)]
  · rfl

theorem Rule.sameFamily_ends (pkt : Packet) (v : IpVersion) :
    v.accepts pkt.src = v.accepts pkt.dst := by
  apply IpVersion.accepts_sameFamily
  unfold Packet.src Packet.dst
  cases pkt.endpoints <;> rfl

/-- The condition under which the line says what the rule says: at most one list of state options
is written, and a constraint on one side is left out only where the other side matches nothing. -/
def Rule.Expressible (rule : Rule) : Prop :=
  rule.twoStateLists = false ∧
    ((¬rule.losesSource ∧ ¬rule.losesDestination) ∨
      (rule.losesSource ∧ rule.ruleMatch.dstAddr.Impossible rule.ipVersion rule.dstInvert) ∨
      (rule.losesDestination ∧ rule.ruleMatch.srcAddr.Impossible rule.ipVersion rule.srcInvert))

/-- The line is read back as a match of exactly the packets the rule describes. -/
def Rule.MatchPreserved (rule : Rule) (gateways : GatewayRoutes) : Prop :=
  ∃ m, readFilter (rule.toPfRuleRouted (resolveRuleRoute rule gateways)) = some m ∧
    ∀ tables pkt, m.accepts tables pkt = rule.described.accepts tables pkt

theorem Rule.dst_impossible_accepts {m : FilterMatch}
    (hd : m.dst.addr.Impossible m.family m.dst.invert) (tables : Tables) (pkt : Packet) : m.accepts tables pkt = false := by
  rw [Bool.eq_false_iff]
  intro h
  simp only [FilterMatch.accepts, HostMatch.accepts, Bool.and_eq_true] at h
  have hf : m.family.accepts pkt.dst = true := by
    rw [← Rule.sameFamily_ends]
    exact h.1.1.1.2
  exact Address.not_impossible hf h.2.1 hd

theorem Rule.src_impossible_accepts {m : FilterMatch}
    (hs : m.src.addr.Impossible m.family m.src.invert) (tables : Tables) (pkt : Packet) : m.accepts tables pkt = false := by
  rw [Bool.eq_false_iff]
  intro h
  simp only [FilterMatch.accepts, HostMatch.accepts, Bool.and_eq_true] at h
  exact Address.not_impossible h.1.1.1.2 h.1.2.1 hs

theorem Rule.matchPreserved_iff (rule : Rule) (gateways : GatewayRoutes)
    (h : validateRule rule = .ok ()) : rule.MatchPreserved gateways ↔ rule.Expressible := by
  have hv := Rule.valid_of_validateRule h
  have hr : ∀ p ∈ resolveRuleRoute rule gateways, IsWord p.1 ∧ IsWord p.2 :=
    fun p hp => resolveRuleRoute_words hp
  rw [Rule.MatchPreserved, Rule.readFilter_line hv hr]
  constructor
  · rintro ⟨m, hm, heq⟩
    have htwo : rule.twoStateLists = false := by
      rw [Bool.eq_false_iff]
      intro htwo
      rw [if_pos htwo] at hm
      cases hm
    rw [htwo] at hm
    cases hm
    refine ⟨htwo, ?_⟩
    by_cases hs : rule.losesSource
    · right; left
      refine ⟨hs, ?_⟩
      by_contra hp
      obtain ⟨tables, pkt, hw, hd⟩ := Rule.losesSource_widens hv hs hp
      rw [heq, hd] at hw
      cases hw
    · by_cases hd : rule.losesDestination
      · right; right
        refine ⟨hd, ?_⟩
        by_contra hp
        obtain ⟨tables, pkt, hw, hd⟩ := Rule.losesDestination_widens hv hd hp
        rw [heq, hd] at hw
        cases hw
      · exact .inl ⟨hs, hd⟩
  · rintro ⟨htwo, hcond⟩
    refine ⟨rule.written, by rw [htwo]; rfl, ?_⟩
    intro tables pkt
    rcases hcond with ⟨hs, hd⟩ | ⟨-, hd⟩ | ⟨-, hs⟩
    · rw [Rule.written_accepts, Rule.described_accepts, rule.written_src_eq hs,
        rule.written_dst_eq hd]
    · rw [Rule.dst_impossible_accepts (m := rule.written) (rule.written_dst_impossible.mpr hd),
        Rule.dst_impossible_accepts (m := rule.described) hd]
    · rw [Rule.src_impossible_accepts (m := rule.written) (rule.written_src_impossible.mpr hs),
        Rule.src_impossible_accepts (m := rule.described) hs]

theorem Rule.matchPreserved_sample :
    validateRule sampleRule = .ok () ∧ sampleRule.MatchPreserved sampleGateways := by
  refine ⟨rfl, (Rule.matchPreserved_iff sampleRule sampleGateways rfl).mpr ⟨rfl, .inl ⟨?_, ?_⟩⟩⟩
  · rintro ⟨h, -⟩
    cases h
  · rintro ⟨h, -⟩
    cases h

/-- A block of one source port, from any address. -/
def sourcePortRule : Rule :=
  { sampleRule with
    action := .block
    ruleMatch := ⟨.any, some ⟨22, 22⟩, .any, none⟩
    srcInvert := false
    gateway := none }

/-- It is written as a block of every source port. -/
theorem Rule.matchPreserved_source_port_false :
    validateRule sourcePortRule = .ok () ∧
      ¬sourcePortRule.MatchPreserved fun _ => none := by
  refine ⟨rfl, ?_⟩
  rintro ⟨m, hm, heq⟩
  have hread : readFilter (sourcePortRule.toPfRuleRouted (resolveRuleRoute sourcePortRule
      fun _ => none)) = some ⟨.in, some "em0".toList, .inet, [6], .any, .any⟩ := by
    decide +kernel
  rw [hread] at hm
  cases hm
  have hpkt := heq (fun _ _ => false)
    ⟨true, "em0".toList, .v4 0x0A000001 0x0A000002, 6, 40000, 80⟩
  exact absurd hpkt (by decide +kernel)

end AiFw.Pf
