import AiFw.Opnsense.Importer
import AiFw.Pf.NatLines

namespace AiFw.Opnsense
open AiFw.Lib AiFw.Net AiFw.Pf
set_option autoImplicit true

inductive StatusCode where
  | badRequest
  | internal

structure CreateNatRuleRequest where
  natType : List Char
  interface : List Char
  protocol : List Char
  srcAddr : Option (List Char)
  srcPortStart : Option UInt16
  srcPortEnd : Option UInt16
  dstAddr : Option (List Char)
  dstPortStart : Option UInt16
  dstPortEnd : Option UInt16
  redirectAddr : List Char
  redirectPortStart : Option UInt16
  redirectPortEnd : Option UInt16
  label : Option (List Char)
  status : Option (List Char)

def portRange : Option UInt16 → Option UInt16 → Option PortRange
  | some s, some e => some ⟨s, e⟩
  | some s, none => some ⟨s, s⟩
  | _, _ => none

/-- An error of a check as the status code of the answer. -/
def orStatus (code : StatusCode) : Except String α → Except StatusCode α
  | .ok a => .ok a
  | .error _ => .error code

def parseOptional : Option (List Char) → Except String Address
  | some text => Address.parse text
  | none => .ok .any

/-- The rule that `create_nat_rule` hands to the engine. -/
def createNatRule (req : CreateNatRuleRequest) : Except StatusCode NatRule := do
  let natType ← orStatus .badRequest (NatType.parse req.natType)
  let protocol ← orStatus .badRequest (Protocol.parse req.protocol)
  let srcAddr ← orStatus .badRequest (parseOptional req.srcAddr)
  let dstAddr ← orStatus .badRequest (parseOptional req.dstAddr)
  let redirectAddr ← orStatus .badRequest (Address.parse req.redirectAddr)
  orStatus .badRequest (validateInterfaceName req.interface)
  orStatus .badRequest (validateSome validateLabel req.label)
  let rule : NatRule := {
    natType
    interface := req.interface
    protocol
    srcAddr
    srcPort := portRange req.srcPortStart req.srcPortEnd
    dstAddr
    dstPort := portRange req.dstPortStart req.dstPortEnd
    redirect := ⟨redirectAddr, portRange req.redirectPortStart req.redirectPortEnd⟩ }
  orStatus .badRequest (validateNatRule rule)
  return rule

def parseStatus : Option (List Char) → Except StatusCode Unit
  | some s => if s = "active".toList ∨ s = "disabled".toList then .ok () else .error .badRequest
  | none => .ok ()

/-- The rule that `update_nat_rule` hands to the engine; nothing of the match of the stored one is
left in it. -/
def updateNatRule (req : CreateNatRuleRequest) : Except StatusCode NatRule := do
  let natType ← orStatus .badRequest (NatType.parse req.natType)
  orStatus .badRequest (validateInterfaceName req.interface)
  orStatus .badRequest (validateSome validateLabel req.label)
  let protocol ← orStatus .badRequest (Protocol.parse req.protocol)
  let srcAddr ← orStatus .badRequest (parseOptional req.srcAddr)
  let dstAddr ← orStatus .badRequest (parseOptional req.dstAddr)
  let redirectAddr ← orStatus .badRequest (Address.parse req.redirectAddr)
  parseStatus req.status
  let rule : NatRule := {
    natType
    interface := req.interface
    protocol
    srcAddr
    srcPort := portRange req.srcPortStart req.srcPortEnd
    dstAddr
    dstPort := portRange req.dstPortStart req.dstPortEnd
    redirect := ⟨redirectAddr, portRange req.redirectPortStart req.redirectPortEnd⟩ }
  orStatus .internal (validateNatRule rule)
  return rule

/-- What brings a NAT rule to the engine. The importer gives the builders no alias names. -/
inductive NatCall where
  | create (req : CreateNatRuleRequest)
  | update (req : CreateNatRuleRequest)
  | portForward (n : OpnNatPortForward) (ifaceMap : IfaceMap)
  | outbound (n : OpnNatOutbound) (ifaceMap : IfaceMap)
  | oneToOne (n : OpnNatOneToOne) (ifaceMap : IfaceMap)

/-- The engine accepts the rule from the call. -/
def NatCall.Accepts : NatCall → NatRule → Prop
  | .create req, rule => createNatRule req = .ok rule
  | .update req, rule => updateNatRule req = .ok rule
  | .portForward n ifaceMap, rule => validateNatRule rule = .ok () ∧
      ∃ r advisories, buildPortForward n ifaceMap [] = .ok (r, advisories) ∧ r.toNatRule = rule
  | .outbound n ifaceMap, rule => validateNatRule rule = .ok () ∧
      ∃ r, buildOutbound n ifaceMap [] = .ok r ∧ r.toNatRule = rule
  | .oneToOne n ifaceMap, rule => validateNatRule rule = .ok () ∧
      ∃ r, buildOneToOne n ifaceMap [] = .ok r ∧ r.toNatRule = rule

/-- The interface an import names is a word of pf; the handlers check it. -/
def NatCall.InterfaceWord : NatCall → Prop
  | .create _ | .update _ => True
  | .portForward n ifaceMap => IsWord (mapIface n.interface ifaceMap)
  | .outbound n ifaceMap => IsWord (mapIface n.interface ifaceMap)
  | .oneToOne n ifaceMap => IsWord (mapIface n.interface ifaceMap)

theorem orStatus_ok {x : Except String α} (h : orStatus code x = .ok a) : x = .ok a := by
  cases x with
  | error e => cases h
  | ok b =>
    cases h
    rfl

/-- The tables a rule names are words. -/
structure TablesWords (rule : NatRule) : Prop where
  src : ∀ name, rule.srcAddr = .table name → IsWord name
  dst : ∀ name, rule.dstAddr = .table name → IsWord name
  redirect : ∀ name, rule.redirect.address = .table name → IsWord name

theorem isWord_of_parsed (h : Address.parse s = .ok a) : ∀ name, a = .table name → IsWord name := by
  rintro name rfl
  exact isWord_tableName (Address.parse_table_valid h)

theorem isWord_of_parseOptional (h : parseOptional s = .ok a) :
    ∀ name, a = .table name → IsWord name := by
  cases s with
  | none =>
    rintro name rfl
    cases h
  | some s => exact isWord_of_parsed h

/-- Without alias names the table of an endpoint has been read from its text. -/
theorem isWord_of_orAny (ep : OpnEndpoint) :
    ∀ name, (translateAddressOrAny ep []).1 = .table name → IsWord name := by
  have hnetwork (name : List Char) : (translateNetwork ep []).1 ≠ .table name := by
    unfold translateNetwork
    cases ep.network with
    | none => exact nofun
    | some net => exact nofun
  intro name h
  unfold translateAddressOrAny at h
  split at h
  · cases h
  split at h
  · split at h
    · next hparse => exact isWord_of_parsed hparse name h
    · exact absurd h (hnetwork name)
  · exact absurd h (hnetwork name)

/-- The handlers let only words through. -/
theorem createNatRule_words (h : createNatRule req = .ok rule) :
    TablesWords rule ∧ IsWord rule.interface := by
  obtain ⟨natType, -, h⟩ := bind_ok.mp h
  obtain ⟨protocol, -, h⟩ := bind_ok.mp h
  obtain ⟨srcAddr, hsrc, h⟩ := bind_ok.mp h
  obtain ⟨dstAddr, hdst, h⟩ := bind_ok.mp h
  obtain ⟨redirectAddr, hredirect, h⟩ := bind_ok.mp h
  obtain ⟨_, hiface, h⟩ := bind_ok.mp h
  obtain ⟨_, -, h⟩ := bind_ok.mp h
  obtain ⟨_, -, h⟩ := bind_ok.mp h
  cases h
  exact ⟨⟨isWord_of_parseOptional (orStatus_ok hsrc), isWord_of_parseOptional (orStatus_ok hdst),
    isWord_of_parsed (orStatus_ok hredirect)⟩, isWord_of_validateInterfaceName (orStatus_ok hiface)⟩

theorem updateNatRule_words (h : updateNatRule req = .ok rule) :
    TablesWords rule ∧ IsWord rule.interface := by
  obtain ⟨natType, -, h⟩ := bind_ok.mp h
  obtain ⟨_, hiface, h⟩ := bind_ok.mp h
  obtain ⟨_, -, h⟩ := bind_ok.mp h
  obtain ⟨protocol, -, h⟩ := bind_ok.mp h
  obtain ⟨srcAddr, hsrc, h⟩ := bind_ok.mp h
  obtain ⟨dstAddr, hdst, h⟩ := bind_ok.mp h
  obtain ⟨redirectAddr, hredirect, h⟩ := bind_ok.mp h
  obtain ⟨_, -, h⟩ := bind_ok.mp h
  obtain ⟨_, -, h⟩ := bind_ok.mp h
  cases h
  exact ⟨⟨isWord_of_parseOptional (orStatus_ok hsrc), isWord_of_parseOptional (orStatus_ok hdst),
    isWord_of_parsed (orStatus_ok hredirect)⟩, isWord_of_validateInterfaceName (orStatus_ok hiface)⟩

theorem outboundTarget_words (h : outboundTarget target = .ok t) :
    ∀ name, t.2 = .table name → IsWord name := by
  match target, h with
  | none, h | some [], h =>
    cases h
    exact nofun
  | some (c :: cs), h =>
    obtain ⟨a, ha, rfl⟩ := map_ok.mp h
    exact isWord_of_parsed (parseField_ok.mp ha)

/-- On every path the tables are words, so that it is the interface that decides. -/
theorem NatCall.tablesWords {call : NatCall} (h : call.Accepts rule) :
    TablesWords rule ∧ (IsWord rule.interface ↔ call.InterfaceWord) := by
  cases call with
  | create req =>
    obtain ⟨htables, hiface⟩ := createNatRule_words h
    exact ⟨htables, iff_of_true hiface trivial⟩
  | update req =>
    obtain ⟨htables, hiface⟩ := updateNatRule_words h
    exact ⟨htables, iff_of_true hiface trivial⟩
  | portForward n ifaceMap =>
    obtain ⟨-, r, advisories, hbuild, rfl⟩ := h
    obtain ⟨protocol, target, port, -, htarget, -, -, rfl, -⟩ := buildPortForward_ok.mp hbuild
    exact ⟨⟨isWord_of_orAny _, isWord_of_orAny _, isWord_of_parsed (parseField_ok.mp htarget)⟩,
      Iff.rfl⟩
  | outbound n ifaceMap =>
    obtain ⟨-, r, hbuild, rfl⟩ := h
    obtain ⟨-, -, protocol, target, -, htarget, rfl⟩ := buildOutbound_ok.mp hbuild
    exact ⟨⟨isWord_of_orAny _, isWord_of_orAny _, outboundTarget_words htarget⟩, Iff.rfl⟩
  | oneToOne n ifaceMap =>
    obtain ⟨-, r, hbuild, rfl⟩ := h
    obtain ⟨external, inside, hexternal, hinside, rfl⟩ := buildOneToOne_ok.mp hbuild
    exact ⟨⟨isWord_of_parsed (parseField_ok.mp hinside), isWord_of_orAny _,
      isWord_of_parsed (parseField_ok.mp hexternal)⟩, Iff.rfl⟩

/-- The lines of an accepted rule are contained exactly if the interface is a word, which only the
handlers check. -/
theorem natRule_contained_iff (call : NatCall) (rule : NatRule) (h : call.Accepts rule) :
    rule.Contained ↔ call.InterfaceWord := by
  obtain ⟨htables, hiface⟩ := NatCall.tablesWords h
  rw [← hiface]
  exact NatRule.contained_iff htables.src htables.dst htables.redirect

def anywhere : OpnEndpoint := ⟨none, none, true, false, none⟩

/-- An outbound entry that masquerades what leaves the interface. -/
def masqueradeOn (interface : String) : OpnNatOutbound where
  interface := interface.toList
  protocol := "any".toList
  source := anywhere
  destination := anywhere
  target := none
  disabled := false
  descr := none
  nonat := false
  staticnatport := false

def masqueradeRule (interface : String) : NatRule where
  natType := .masquerade
  interface := interface.toList
  protocol := .any
  srcAddr := .any
  srcPort := none
  dstAddr := .any
  dstPort := none
  redirect := ⟨.any, none⟩

theorem accepts_masquerade (interface : String) (hne : interface.toList ≠ []) :
    (NatCall.outbound (masqueradeOn interface) fun _ => none).Accepts
      (masqueradeRule interface) := by
  refine ⟨?_, _, rfl, rfl⟩
  have hrule : (masqueradeRule interface).interface ≠ [] := hne
  rw [validateNatRule, if_neg hrule, if_neg (by rintro ⟨h, -⟩; cases h)]

theorem contained_em0 :
    (NatCall.outbound (masqueradeOn "em0") fun _ => none).Accepts (masqueradeRule "em0") ∧
      (masqueradeRule "em0").Contained := by
  have haccepts := accepts_masquerade "em0" (by decide)
  have hword : IsWord "em0".toList := ⟨by decide, forall_mem_of_all (by decide)⟩
  exact ⟨haccepts, (natRule_contained_iff _ _ haccepts).mpr hword⟩

/-- An interface with a line break puts a filter rule among the translations. -/
theorem interface_injects :
    ¬∀ (call : NatCall) (rule : NatRule), call.Accepts rule → rule.Contained := by
  intro h
  have hcontained := h _ _ (accepts_masquerade "em0\npass quick all" (by decide))
  have hline : '\n' ∉ (masqueradeRule "em0\npass quick all").toPfMasquerade := by
    cases hcontained with
    | cons hfirst _ => exact hfirst.1
  exact hline (by decide)

end AiFw.Opnsense
