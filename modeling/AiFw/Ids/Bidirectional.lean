import AiFw.Ids.ContentWindow
import Mathlib.Data.Set.Prod

namespace AiFw.Ids
open AiFw.Lib AiFw.Net
set_option autoImplicit true

/-- The packet on its way back: addresses and ports exchanged. -/
def DecodedPacket.mirror (packet : DecodedPacket) : DecodedPacket :=
  { packet with
    srcIp := packet.dstIp
    dstIp := packet.srcIp
    srcPort := packet.dstPort
    dstPort := packet.srcPort }

/-- The parts of `evaluate_rule` before the expressions. -/
def headerAndContents (rule : CompiledRule) (packet : DecodedPacket) (flow : Option Flow)
    (direction : FlowDirection) (stickyBuffers : StickyBuffers) : Bool :=
  rule.protocol.all (fun proto => matchProtocol proto packet flow) &&
  rule.flow.all (fun c => matchFlowConstraint c flow direction) &&
  rule.srcAddr.all (fun src => matchAddress src packet.srcIp) &&
  rule.dstAddr.all (fun dst => matchAddress dst packet.dstIp) &&
  rule.srcPort.all (fun port => matchPort port packet.srcPort) &&
  rule.dstPort.all (fun port => matchPort port packet.dstPort) &&
  contentStage rule packet flow direction stickyBuffers

theorem evaluateRule_eq (m : Matchers) (ruleset : Option CompiledRuleset) (rule : CompiledRule)
    (packet : DecodedPacket) (flow : Option Flow) (direction : FlowDirection)
    (stickyBuffers : StickyBuffers) :
    evaluateRule m ruleset rule packet flow direction stickyBuffers =
      (headerAndContents rule packet flow direction stickyBuffers &&
        rule.pcrePatterns.all fun pcre =>
          pcreMatch m ruleset pcre.pattern (pcreData packet stickyBuffers pcre.buffer)
            != pcre.negated) :=
  rfl

/-- An end of a packet. -/
abbrev Endpoint := Option IpAddr × Option UInt16

namespace CompiledRule
variable (rule : CompiledRule)

/-- The ends that the left side of a header is for. -/
def leftSide : Set Endpoint :=
  {e | rule.srcAddr.all (fun src => matchAddress src e.1) = true ∧
    rule.srcPort.all (fun port => matchPort port e.2) = true}

/-- The ends that the right side of a header is for. -/
def rightSide : Set Endpoint :=
  {e | rule.dstAddr.all (fun dst => matchAddress dst e.1) = true ∧
    rule.dstPort.all (fun port => matchPort port e.2) = true}

/-- What is asked of a packet besides its ends. -/
def Besides (packet : DecodedPacket) (flow : Option Flow) (direction : FlowDirection)
    (stickyBuffers : StickyBuffers) : Prop :=
  rule.protocol.all (fun proto => matchProtocol proto packet flow) = true ∧
    rule.flow.all (fun c => matchFlowConstraint c flow direction) = true ∧
    contentStage rule packet flow direction stickyBuffers = true

/-- A packet passes exactly if its mirror image does. -/
def Symmetric : Prop :=
  ∀ (packet : DecodedPacket) (flow : Option Flow) (direction : FlowDirection)
    (stickyBuffers : StickyBuffers),
    headerAndContents rule packet flow direction stickyBuffers = true ↔
      headerAndContents rule packet.mirror flow direction stickyBuffers = true

end CompiledRule

namespace DecodedPacket

def source (packet : DecodedPacket) : Endpoint := (packet.srcIp, packet.srcPort)

def destination (packet : DecodedPacket) : Endpoint := (packet.dstIp, packet.dstPort)

/-- The packet between other ends. -/
def between (packet : DecodedPacket) (a b : Endpoint) : DecodedPacket :=
  { packet with srcIp := a.1, srcPort := a.2, dstIp := b.1, dstPort := b.2 }

theorem mirror_between (packet : DecodedPacket) (a b : Endpoint) :
    (packet.between a b).mirror = packet.between b a := rfl

end DecodedPacket

section
variable (rule : CompiledRule) (packet : DecodedPacket) (flow : Option Flow)
  (direction : FlowDirection) (stickyBuffers : StickyBuffers)

theorem headerAndContents_iff :
    headerAndContents rule packet flow direction stickyBuffers = true ↔
      rule.Besides packet flow direction stickyBuffers ∧
        (packet.source, packet.destination) ∈ rule.leftSide ×ˢ rule.rightSide := by
  unfold headerAndContents CompiledRule.Besides CompiledRule.leftSide CompiledRule.rightSide
  simp only [Bool.and_eq_true, Set.mem_prod, Set.mem_ofPred_eq, DecodedPacket.source,
    DecodedPacket.destination]
  tauto

theorem headerAndContents_between (a b : Endpoint) :
    headerAndContents rule (packet.between a b) flow direction stickyBuffers = true ↔
      rule.Besides packet flow direction stickyBuffers ∧ (a, b) ∈ rule.leftSide ×ˢ rule.rightSide :=
  headerAndContents_iff rule (packet.between a b) flow direction stickyBuffers

end

/-- Whatever the direction of a rule, packets pass like their mirror images exactly if the two sides
of the header are for the same ends, or one of them is for none, or nothing passes anyway. -/
theorem symmetric_iff (rule : CompiledRule) : rule.Symmetric ↔
    (rule.leftSide = rule.rightSide ∨ rule.leftSide = ∅ ∨ rule.rightSide = ∅) ∨
      ∀ packet flow direction stickyBuffers,
        ¬rule.Besides packet flow direction stickyBuffers := by
  have hsides : rule.leftSide ×ˢ rule.rightSide = rule.rightSide ×ˢ rule.leftSide ↔
      rule.leftSide = rule.rightSide ∨ rule.leftSide = ∅ ∨ rule.rightSide = ∅ := by
    rw [Set.prod_eq_prod_iff, or_comm (a := rule.rightSide = ∅), and_self,
      eq_comm (a := rule.rightSide), and_self]
  have hswap (a b : Endpoint) : (a, b) ∈ rule.rightSide ×ˢ rule.leftSide ↔
      (b, a) ∈ rule.leftSide ×ˢ rule.rightSide := and_comm
  rw [← hsides]
  constructor
  · intro h
    by_contra hneither
    rw [not_or] at hneither
    obtain ⟨hdiffer, hsome⟩ := hneither
    simp only [not_forall, not_not] at hsome
    obtain ⟨packet, flow, direction, stickyBuffers, hbesides⟩ := hsome
    apply hdiffer
    ext ⟨a, b⟩
    have hpair := h (packet.between a b) flow direction stickyBuffers
    rw [DecodedPacket.mirror_between, headerAndContents_between, headerAndContents_between,
      and_iff_right hbesides, and_iff_right hbesides] at hpair
    rw [hpair, hswap]
  · rintro (hequal | hnothing) packet flow direction stickyBuffers
    · have hmirror : packet.mirror = packet.between packet.destination packet.source := rfl
      rw [headerAndContents_iff, hmirror, headerAndContents_between, ← hswap, hequal]
    · have hmirror : packet.mirror = packet.between packet.destination packet.source := rfl
      rw [headerAndContents_iff, hmirror, headerAndContents_between]
      exact iff_of_false (fun h => hnothing _ _ _ _ h.1) fun h => hnothing _ _ _ _ h.1

def twoWayText : List Char := "alert tcp 10.0.0.1 any <> any 80 (msg:\"x\"; sid:1;)".toList

theorem one_way_only : ¬∀ (line : List Char) (source : RuleSource) (rule : SuricataRule),
    parseRule line source = some (.ok rule) → rule.bidirectional = true → rule.flow = none →
    rule.toCompiledRule.Symmetric := by
  intro h
  have hparse : (parseRule twoWayText .custom).map (fun read => read.toOption.map fun rule =>
      (rule.bidirectional, rule.flow, headerAndContents rule.toCompiledRule (tcpPacket []) none
        .toServer ∅, headerAndContents rule.toCompiledRule (tcpPacket []).mirror none .toServer ∅)) =
      some (some (true, none, true, false)) := by decide +kernel
  obtain ⟨rule, hline, hfacts⟩ := exists_of_parsed hparse
  simp only [Prod.mk.injEq] at hfacts
  obtain ⟨hboth, hflow, hthere, hback⟩ := hfacts
  have hpair := h twoWayText .custom rule hline hboth hflow (tcpPacket []) none .toServer ∅
  rw [hthere, hback] at hpair
  exact Bool.false_ne_true (hpair.mp rfl)

end AiFw.Ids
