import AiFw.Wan.PolicyText

namespace AiFw.Wan
open AiFw.Lib AiFw.Pf
set_option autoImplicit true

section
variable {p : PolicyRule} {t : Tables}

/-- The match clauses of the policy with a port of the destination only. -/
def PolicyRule.written (p : PolicyRule) (s d : RawHost) (port : Option (List Char)) : RawMatch where
  family := p.ipVersion.raw
  protos := p.protocol.names
  src := some { s with port := none }
  dst := some { d with port := port }

variable {s d : RawHost} {sp dp : Option (List Char)}

end

/-- The line is read back as the match fields of the policy. -/
structure PolicyRule.ReadAs (p : PolicyRule) (f : RawFilter) : Prop where
  family : f.clauses.family = p.ipVersion.raw
  protos : f.clauses.protos = p.protocol.names
  src : ∃ h ∈ f.clauses.src, h.Spells p.srcAddr p.srcPort
  dst : ∃ h ∈ f.clauses.dst, h.Spells p.dstAddr p.dstPort

def PolicyRule.MatchPreserved (p : PolicyRule) (line : List Char) : Prop :=
  ∃ f, parseFilter line = some f ∧ p.ReadAs f

namespace PolicyRule
variable {p : PolicyRule} {t : Tables}

/-- HTTPS of the LAN through another table. -/
def sample : PolicyRule where
  id := 1
  status := .active
  ipVersion := .v4
  ifaceIn := some "em0".toList
  srcAddr := "10.0.0.0/8".toList
  dstAddr := "any".toList
  srcPort := none
  dstPort := some "443".toList
  protocol := .tcp
  actionKind := .setInstance
  targetId := 2
  fallbackTargetId := none

end PolicyRule

end AiFw.Wan
