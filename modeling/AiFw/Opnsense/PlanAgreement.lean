import AiFw.Opnsense.NatInjection
import AiFw.Opnsense.Plan

namespace AiFw.Opnsense
open AiFw.Lib AiFw.Net AiFw.Pf
open AiFw.Aliases (Alias AliasType Fetch reservedNames validateName)
open AiFw.Wan (Uuid AifwError)
set_option autoImplicit true

/-- An item has no reason to be skipped exactly if it is inserted. -/
def Foretold (skipReason : Option String) (outcome : Except String α) : Prop :=
  skipReason = none ↔ ∃ x, outcome = .ok x

/-- The plan foretells the import, item by item. -/
structure Predicts (plan : PreviewPlan) (outcome : ImportOutcome) : Prop where
  aliases : List.Forall₂ (fun p o => Foretold p.skipReason o) plan.aliases outcome.aliases
  rules : List.Forall₂ (fun p o => Foretold p.skipReason o) plan.rules outcome.rules
  nat : List.Forall₂ (fun p o => Foretold p.skipReason o) plan.nat outcome.nat

/-- The ids that are drawn are new, each of them once. -/
def FreshIds (draw : Nat → Uuid) (rows : List Alias) (count : Nat) : Prop :=
  ∀ i < count, hasKey Alias.id (draw i) rows = false ∧ ∀ j < i, draw j ≠ draw i

/-- The aliases of the plan have names that are not reserved, each another one. -/
structure AliasesForeseen (existing : List (List Char)) (aliases : List OpnAlias) : Prop where
  free : ∀ name ∈ availableAliases existing aliases, reservedNames.contains name = false
  distinct : (availableAliases existing aliases).Nodup

/-- The endpoint can be written: it names an address or an alias that is known, if it names one. -/
def OpnEndpoint.Resolves (ep : OpnEndpoint) (names : List (List Char)) : Prop :=
  ep.any = true ∨
    match ep.address with
    | some addr => (∃ a, Address.parse addr = .ok a) ∨ names.contains addr = true
    | none => ∀ net, ep.network = some net → names.contains net = true

def PortParses (names : List (List Char)) (port : Option (List Char)) : Prop :=
  ∀ spec, port = some spec → ∃ range, parsePortSpec spec names = .ok range

/-- What the plan looks at in a rule, but for the protocol. -/
structure OpnRule.Resolves (r : OpnRule) (names : List (List Char)) : Prop where
  source : r.source.Resolves names
  destination : r.destination.Resolves names
  sourcePort : PortParses names r.source.port
  destinationPort : PortParses names r.destination.port

/-- What only the import looks at in an endpoint. -/
structure OpnEndpoint.Sound (ep : OpnEndpoint) (names : List (List Char)) : Prop where
  named : ep.any = true ∨ ep.address.isSome = true ∨ ep.network.isSome = true
  inRange : ep.any = false → ∀ addr a, ep.address = some addr → Address.parse addr = .ok a →
    a.InRange
  ascends : ∀ spec range, ep.port = some spec → parsePortSpec spec names = .ok range →
    range.start ≤ range.end_

/-- What only the import looks at in a rule. -/
structure OpnRule.Sound (r : OpnRule) (iface : Option (List Char)) (names : List (List Char)) :
    Prop where
  action : ∃ a, parseAction r.action = .ok a
  direction : ∃ d, parseDirection r.direction = .ok d
  protocol : ∃ p, parseProtocol r.protocol = .ok p
  source : r.source.Sound names
  destination : r.destination.Sound names
  interface : validateSome validateInterfaceName iface = .ok ()
  label : validateSome validateLabel r.descr = .ok ()

/-- The two spellings of both protocols that the plan does not know. -/
def isBraced (protocol : List Char) : Bool :=
  ["\x7b tcp udp \x7d", "\x7btcp udp\x7d"].any fun w => w.toList = lower protocol

/-- A rule that the plan can resolve passes the checks of the import; with a port under a braced
protocol, where the plan skips it, it fails one. -/
structure RuleForeseen (names : List (List Char)) (item : OpnRule × Option (List Char)) : Prop where
  planned : item.1.Resolves names → (item.1.ports ≠ [] → isPortProtocol item.1.protocol = true) →
    item.1.Sound item.2 names
  braced : item.1.Resolves names → item.1.ports ≠ [] → isBraced item.1.protocol = true →
    ¬item.1.Sound item.2 names

/-- What only the import looks at in a port forward. -/
structure OpnNatPortForward.Sound (n : OpnNatPortForward) (ifaceMap : IfaceMap) : Prop where
  protocol : ∃ p, Protocol.parse n.protocol = .ok p
  port : ∃ spec range, (n.localPort <|> n.destination.port) = some spec ∧
    parsePortSpec spec [] = .ok range
  interface : mapIface n.interface ifaceMap ≠ []

/-- A port forward to an address, from or to some port, passes the checks of the import; one to a
target that is no single address does not. -/
structure PortForwardForeseen (ifaceMap : IfaceMap) (n : OpnNatPortForward) : Prop where
  planned : n.disabled = false → (IpAddr.parse n.target).isSome = true →
    (n.localPort <|> n.destination.port).isSome = true → n.Sound ifaceMap
  elsewhere : n.disabled = false → IpAddr.parse n.target = none →
    (∃ a, Address.parse n.target = .ok a) → ¬n.Sound ifaceMap

/-- What the import asks of an outbound rule. -/
structure OpnNatOutbound.Sound (n : OpnNatOutbound) (ifaceMap : IfaceMap) : Prop where
  rewrites : n.nonat = false
  dynamicPort : n.staticnatport = false
  protocol : ∃ p, Protocol.parse n.protocol = .ok p
  target : ∀ text, n.target = some text → text ≠ [] → ∃ a, Address.parse text = .ok a
  interface : mapIface n.interface ifaceMap ≠ []

structure OpnNatOneToOne.Sound (n : OpnNatOneToOne) (ifaceMap : IfaceMap) : Prop where
  external : ∃ a, Address.parse n.external = .ok a
  inside : ∃ a, Address.parse n.internal = .ok a
  interface : mapIface n.interface ifaceMap ≠ []

structure NatForeseen (nat : OpnNat) (ifaceMap : IfaceMap) : Prop where
  portForwards : ∀ n ∈ nat.portForwards, PortForwardForeseen ifaceMap n
  outbound : ∀ n ∈ nat.outbound, n.disabled = false → nat.outboundDisabled = false ∧
    n.Sound ifaceMap
  onetoone : ∀ n ∈ nat.onetoone, n.disabled = false → n.Sound ifaceMap

/-- The configuration has no item that the plan misjudges. -/
structure Foreseen (existing : List (List Char)) (ifaceMap : IfaceMap) (cfg : OpnConfig) :
    Prop where
  aliases : AliasesForeseen existing cfg.aliases
  rules : ∀ item ∈ ruleItems cfg.rules ifaceMap,
    RuleForeseen (availableAliases existing cfg.aliases) item
  nat : NatForeseen cfg.nat ifaceMap

variable {ep : OpnEndpoint} {names : List (List Char)}

theorem render_iff : (renderEndpoint ep names).2 = none ↔ ep.Resolves names := by
  unfold renderEndpoint OpnEndpoint.Resolves
  split
  · next hany => exact iff_of_true rfl (.inl hany)
  · next hany =>
    rw [or_iff_right hany]
    cases ep.address with
    | some addr =>
      dsimp only
      cases Address.parse addr with
      | ok a => exact iff_of_true rfl (.inl ⟨a, rfl⟩)
      | error e =>
        rw [or_iff_right (by rintro ⟨a, h⟩; cases h)]
        dsimp only
        split
        · next hin => exact iff_of_true rfl hin
        · next hin => exact iff_of_false (fun h => nomatch h) hin
    | none =>
      dsimp only
      cases ep.network with
      | some net =>
        simp only [Option.some.injEq, forall_eq']
        split
        · next hin => exact iff_of_true rfl hin
        · next hin => exact iff_of_false (fun h => nomatch h) hin
      | none => exact iff_of_true rfl nofun

theorem ports_parse_iff {r : OpnRule} :
    portsSkip r names = none ↔
      PortParses names r.source.port ∧ PortParses names r.destination.port := by
  have hport (port : Option (List Char)) :
      (∀ p ∈ port.toList, ¬(parsePortSpec p names).toOption.isNone = true) ↔
        PortParses names port := by
    cases port with
    | none => exact iff_of_true (List.forall_mem_nil _) nofun
    | some spec =>
      unfold PortParses
      rw [Option.toList_some, List.forall_mem_singleton]
      constructor
      · rintro h _ ⟨⟩
        cases hparse : parsePortSpec spec names with
        | ok range => exact ⟨range, rfl⟩
        | error e =>
          rw [hparse] at h
          exact absurd rfl h
      · intro h
        obtain ⟨range, hparse⟩ := h spec rfl
        rw [hparse]
        exact Bool.false_ne_true
  unfold portsSkip
  rw [← hport, ← hport, ← List.forall_mem_append]
  split
  · next p hfind =>
    refine iff_of_false (fun h => nomatch h) ?_
    intro h
    apply h p (List.mem_of_find?_eq_some hfind)
    simpa only using List.find?_some hfind
  · next hfind => exact iff_of_true rfl (List.find?_eq_none.mp hfind)

theorem ruleSkip_iff {r : OpnRule} :
    ruleSkip r names = none ↔
      r.Resolves names ∧ (r.ports ≠ [] → isPortProtocol r.protocol = true) := by
  have hresolves : r.Resolves names ↔
      (renderEndpoint r.source names).2 = none ∧ (renderEndpoint r.destination names).2 = none ∧
        portsSkip r names = none := by
    rw [render_iff, render_iff, ports_parse_iff]
    exact ⟨fun h => ⟨h.source, h.destination, h.sourcePort, h.destinationPort⟩,
      fun h => ⟨h.1, h.2.1, h.2.2.1, h.2.2.2⟩⟩
  rw [hresolves]
  unfold ruleSkip
  split
  · next reason hsome =>
    refine iff_of_false (fun h => nomatch h) ?_
    rintro ⟨⟨hsrc, hdst, -⟩, -⟩
    rw [hsrc, hdst] at hsome
    cases hsome
  · next hnone =>
    rw [Option.orElse_eq_orElse, Option.orElse_eq_or, Option.or_eq_none_iff] at hnone
    obtain ⟨hsrc, hdst⟩ := hnone
    split
    · next hskip =>
      refine iff_of_false (fun h => nomatch h) ?_
      rintro ⟨-, hword⟩
      rw [hword hskip.1] at hskip
      cases hskip.2
    · next hskip =>
      rw [not_and, Bool.not_eq_false] at hskip
      exact ⟨fun h => ⟨⟨hsrc, hdst, h⟩, hskip⟩, fun h => h.1.2.2⟩

theorem buildRule_ok {r : OpnRule} :
    buildRule newId r iface names priority = .ok rule ↔
      ∃ action direction protocol src dst, parseAction r.action = .ok action ∧
        parseDirection r.direction = .ok direction ∧ parseProtocol r.protocol = .ok protocol ∧
        translateEndpoint r.source names = .ok src ∧
        translateEndpoint r.destination names = .ok dst ∧
        rule = {
          id := newId
          priority
          action
          direction
          ipVersion := r.ipprotocol.ipVersion
          interface := iface
          protocol
          ruleMatch := ⟨src.1, src.2, dst.1, dst.2⟩
          srcInvert := r.source.not
          dstInvert := r.destination.not
          log := r.log
          quick := r.quick
          label := r.descr
          gateway := none
          stateOptions := ⟨.keepState, none, none⟩
          status := if r.disabled then .disabled else .active
          scheduleId := none } := by
  unfold buildRule
  constructor
  · intro h
    obtain ⟨action, haction, h⟩ := bind_ok.mp h
    obtain ⟨direction, hdirection, h⟩ := bind_ok.mp h
    obtain ⟨protocol, hprotocol, h⟩ := bind_ok.mp h
    obtain ⟨src, hsrc, h⟩ := bind_ok.mp h
    obtain ⟨dst, hdst, h⟩ := bind_ok.mp h
    cases h
    exact ⟨action, direction, protocol, src, dst, haction, hdirection, hprotocol, hsrc, hdst, rfl⟩
  · rintro ⟨action, direction, protocol, src, dst, haction, hdirection, hprotocol, hsrc, hdst, rfl⟩
    rw [haction, hdirection, hprotocol, hsrc, hdst]
    rfl

theorem validateRule_ok {rule : Rule} :
    validateRule rule = .ok () ↔
      validateAddress rule.ruleMatch.srcAddr = .ok () ∧
      validateAddress rule.ruleMatch.dstAddr = .ok () ∧
      validatePort "source" rule.protocol rule.ruleMatch.srcPort = .ok () ∧
      validatePort "destination" rule.protocol rule.ruleMatch.dstPort = .ok () ∧
      validatePriority rule.priority = .ok () ∧
      validateSome validateInterfaceName rule.interface = .ok () ∧
      validateSome validateLabel rule.label = .ok () := by
  unfold validateRule
  rw [andThen_ok, andThen_ok, andThen_ok, andThen_ok, andThen_ok, andThen_ok]

/-- An address that is read passes its check if its prefix is one of its family. -/
theorem validateAddress_parsed (h : Address.parse s = .ok a) :
    validateAddress a = .ok () ↔ a.InRange := by
  refine ⟨inRange_of_validateAddress, ?_⟩
  intro hrange
  cases a with
  | any => rfl
  | single ip => rfl
  | network ip len =>
    cases ip with
    | v4 ip => exact if_neg (Nat.not_lt.mpr hrange)
    | v6 ip => exact if_neg (Nat.not_lt.mpr hrange)
  | table name => exact Address.parse_table_valid h

/-- The address of an endpoint is let through if the plan can write it, it names something and its
prefix is one of its family. -/
theorem address_iff (hnames : ∀ name ∈ names, validateTableName name = .ok ()) :
    (∃ a, translateAddress ep names = .ok a ∧ validateAddress a = .ok ()) ↔
      ep.Resolves names ∧
        (ep.any = true ∨ ep.address.isSome = true ∨ ep.network.isSome = true) ∧
        (ep.any = false → ∀ addr a, ep.address = some addr → Address.parse addr = .ok a →
          a.InRange) := by
  have htable (name : List Char) (e : String) :
      (∃ a, (if names.contains name then (.ok (.table name) : Except String Address)
        else .error e) = .ok a ∧ validateAddress a = .ok ()) ↔ names.contains name = true := by
    split
    · next hin => exact iff_of_true ⟨_, rfl, hnames name (List.contains_iff_mem.mp hin)⟩ hin
    · next hin => exact iff_of_false (by rintro ⟨a, h, -⟩; cases h) hin
  unfold translateAddress OpnEndpoint.Resolves
  cases ep.any with
  | true =>
    rw [if_pos rfl]
    exact iff_of_true ⟨_, rfl, rfl⟩ ⟨.inl rfl, .inl rfl, nofun⟩
  | false =>
    rw [if_neg Bool.false_ne_true, or_iff_right Bool.false_ne_true,
      or_iff_right Bool.false_ne_true, forall_prop_of_true rfl]
    cases ep.address with
    | some addr =>
      dsimp only
      cases hparse : Address.parse addr with
      | ok a =>
        constructor
        · rintro ⟨_, ⟨⟩, hvalid⟩
          refine ⟨.inl ⟨a, rfl⟩, .inl rfl, ?_⟩
          rintro _ a' ⟨⟩ ha'
          rw [hparse] at ha'
          cases ha'
          exact (validateAddress_parsed hparse).mp hvalid
        · rintro ⟨-, -, hrange⟩
          exact ⟨a, rfl, (validateAddress_parsed hparse).mpr (hrange addr a rfl hparse)⟩
      | error e =>
        rw [htable, or_iff_right (by rintro ⟨a, h⟩; cases h)]
        refine (and_iff_left ⟨.inl rfl, ?_⟩).symm
        rintro _ a ⟨⟩ ha
        rw [hparse] at ha
        cases ha
    | none =>
      cases ep.network with
      | some net =>
        simp only [Option.some.injEq, forall_eq']
        rw [htable]
        exact (and_iff_left ⟨.inr rfl, nofun⟩).symm
      | none =>
        refine iff_of_false (by rintro ⟨a, h, -⟩; cases h) ?_
        rintro ⟨-, h | h, -⟩
        · cases h
        · cases h

theorem port_iff {port : Option (List Char)} {protocol : Protocol} {side : String} :
    (∃ p, parsePort names port = .ok p ∧ validatePort side protocol p = .ok ()) ↔
      PortParses names port ∧
        (∀ spec range, port = some spec → parsePortSpec spec names = .ok range →
          range.start ≤ range.end_) ∧
        (port ≠ none → validatePortProtocol protocol = .ok ()) := by
  cases port with
  | none => exact iff_of_true ⟨none, rfl, rfl⟩ ⟨nofun, nofun, fun h => absurd rfl h⟩
  | some spec =>
    rw [parsePort]
    unfold PortParses
    constructor
    · rintro ⟨p, hp, hvalid⟩
      obtain ⟨range, hparse, rfl⟩ := map_ok.mp hp
      have hle := start_le_of_validatePort hvalid range rfl
      rw [validatePort, if_neg (UInt16.not_lt.mpr hle)] at hvalid
      refine ⟨?_, ?_, fun _ => hvalid⟩
      · rintro _ ⟨⟩
        exact ⟨range, hparse⟩
      · rintro _ range' ⟨⟩ hparse'
        rw [hparse] at hparse'
        cases hparse'
        exact hle
    · rintro ⟨hparses, hascends, hprotocol⟩
      obtain ⟨range, hparse⟩ := hparses spec rfl
      have hle := hascends spec range rfl hparse
      refine ⟨some range, by rw [hparse]; rfl, ?_⟩
      rw [validatePort, if_neg (UInt16.not_lt.mpr hle)]
      exact hprotocol (Option.some_ne_none spec)

theorem translateEndpoint_ok :
    translateEndpoint ep names = .ok e ↔
      parsePort names ep.port = .ok e.2 ∧ translateAddress ep names = .ok e.1 := by
  unfold translateEndpoint
  constructor
  · intro h
    obtain ⟨port, hport, h⟩ := bind_ok.mp h
    obtain ⟨addr, haddr, h⟩ := bind_ok.mp h
    cases h
    exact ⟨hport, haddr⟩
  · rintro ⟨hport, haddr⟩
    rw [hport, haddr]
    rfl

theorem endpoint_iff (hnames : ∀ name ∈ names, validateTableName name = .ok ())
    {protocol : Protocol} {side : String} :
    (∃ e, translateEndpoint ep names = .ok e ∧ validateAddress e.1 = .ok () ∧
        validatePort side protocol e.2 = .ok ()) ↔
      ep.Resolves names ∧ PortParses names ep.port ∧ ep.Sound names ∧
        (ep.port ≠ none → validatePortProtocol protocol = .ok ()) := by
  constructor
  · rintro ⟨e, he, haddr, hport⟩
    obtain ⟨hparse, htranslate⟩ := translateEndpoint_ok.mp he
    obtain ⟨hresolves, hnamed, hrange⟩ := (address_iff hnames).mp ⟨_, htranslate, haddr⟩
    obtain ⟨hparses, hascends, hprotocol⟩ := port_iff.mp ⟨_, hparse, hport⟩
    exact ⟨hresolves, hparses, ⟨hnamed, hrange, hascends⟩, hprotocol⟩
  · rintro ⟨hresolves, hparses, hsound, hprotocol⟩
    obtain ⟨a, htranslate, haddr⟩ :=
      (address_iff hnames).mpr ⟨hresolves, hsound.named, hsound.inRange⟩
    obtain ⟨p, hparse, hport⟩ := port_iff.mpr ⟨hparses, hsound.ascends, hprotocol⟩
    exact ⟨(a, p), translateEndpoint_ok.mpr ⟨hparse, htranslate⟩, haddr, hport⟩

/-- The protocols that take ports are those the plan knows, and the two braced spellings. -/
theorem takesPorts_iff (h : parseProtocol protocol = .ok p) :
    validatePortProtocol p = .ok () ↔
      isPortProtocol protocol = true ∨ isBraced protocol = true := by
  have hwords : ∀ e ∈ protocolWords, validatePortProtocol e.2 = .ok () ↔
      portProtocols.any (fun w => w.toList = e.1.toList) = true ∨
        ["\x7b tcp udp \x7d", "\x7btcp udp\x7d"].any (fun w => w.toList = e.1.toList) = true := by
    decide
  unfold parseProtocol at h
  split at h
  · next hnil =>
    cases h
    rw [hnil]
    decide
  · unfold Protocol.parse parseKeyword at h
    split at h
    · next q hq =>
      cases h
      obtain ⟨e, he, rfl⟩ := Option.map_eq_some_iff.mp hq
      have hspelled : e.1.toList = lower protocol := by
        simpa only [decide_eq_true_eq] using List.find?_some he
      rw [hwords e (List.mem_of_find?_eq_some he), hspelled]
      exact Iff.rfl
    · cases h

theorem not_braced (h : isPortProtocol protocol = true) : isBraced protocol = false := by
  have hwords : ∀ w ∈ portProtocols,
      ["\x7b tcp udp \x7d", "\x7btcp udp\x7d"].any (fun v => v.toList = w.toList) = false := by
    decide
  obtain ⟨w, hw, hspelled⟩ := List.any_eq_true.mp h
  rw [isBraced, ← of_decide_eq_true hspelled]
  exact hwords w hw

theorem ports_ne_nil {r : OpnRule} :
    r.ports ≠ [] ↔ r.source.port ≠ none ∨ r.destination.port ≠ none := by
  unfold OpnRule.ports
  cases r.source.port with
  | some p => exact iff_of_true (List.cons_ne_nil _ _) (.inl (Option.some_ne_none p))
  | none =>
    cases r.destination.port with
    | some p => exact iff_of_true (List.cons_ne_nil _ _) (.inr (Option.some_ne_none p))
    | none => exact iff_of_false (fun h => h rfl) fun h => h.elim (fun h => h rfl) fun h => h rfl

/-- A rule is inserted if the plan can resolve it, it passes the other checks and its ports, if any,
are under a protocol that takes them. -/
theorem inserted_iff {r : OpnRule} (hnames : ∀ name ∈ names, validateTableName name = .ok ())
    (hpriority : validatePriority priority = .ok ()) :
    (∃ rule, buildRule newId r iface names priority = .ok rule ∧ validateRule rule = .ok ()) ↔
      r.Resolves names ∧ r.Sound iface names ∧
        (r.ports ≠ [] → isPortProtocol r.protocol = true ∨ isBraced r.protocol = true) := by
  rw [ports_ne_nil]
  constructor
  · rintro ⟨rule, hbuild, hvalid⟩
    obtain ⟨action, direction, protocol, src, dst, haction, hdirection, hprotocol, hsrc, hdst, rfl⟩ :=
      buildRule_ok.mp hbuild
    obtain ⟨hsrcAddr, hdstAddr, hsrcPort, hdstPort, -, hiface, hlabel⟩ := validateRule_ok.mp hvalid
    obtain ⟨hsrcResolves, hsrcParses, hsrcSound, hsrcTakes⟩ :=
      (endpoint_iff hnames).mp ⟨src, hsrc, hsrcAddr, hsrcPort⟩
    obtain ⟨hdstResolves, hdstParses, hdstSound, hdstTakes⟩ :=
      (endpoint_iff hnames).mp ⟨dst, hdst, hdstAddr, hdstPort⟩
    refine ⟨⟨hsrcResolves, hdstResolves, hsrcParses, hdstParses⟩,
      ⟨⟨action, haction⟩, ⟨direction, hdirection⟩, ⟨protocol, hprotocol⟩, hsrcSound, hdstSound,
        hiface, hlabel⟩, ?_⟩
    rw [← takesPorts_iff hprotocol]
    exact fun h => h.elim hsrcTakes hdstTakes
  · rintro ⟨hresolves, hsound, htakes⟩
    obtain ⟨action, haction⟩ := hsound.action
    obtain ⟨direction, hdirection⟩ := hsound.direction
    obtain ⟨protocol, hprotocol⟩ := hsound.protocol
    rw [← takesPorts_iff hprotocol] at htakes
    obtain ⟨src, hsrc, hsrcAddr, hsrcPort⟩ := (endpoint_iff hnames).mpr
      ⟨hresolves.source, hresolves.sourcePort, hsound.source, fun h => htakes (.inl h)⟩
    obtain ⟨dst, hdst, hdstAddr, hdstPort⟩ := (endpoint_iff hnames).mpr
      ⟨hresolves.destination, hresolves.destinationPort, hsound.destination,
        fun h => htakes (.inr h)⟩
    refine ⟨_, buildRule_ok.mpr ⟨action, direction, protocol, src, dst, haction, hdirection, hprotocol,
      hsrc, hdst, rfl⟩, ?_⟩
    exact validateRule_ok.mpr ⟨hsrcAddr, hdstAddr, hsrcPort, hdstPort, hpriority, hsound.interface,
      hsound.label⟩

/-- The plan and the import differ on a rule only by what `RuleForeseen` speaks of. -/
theorem rule_iff (hnames : ∀ name ∈ names, validateTableName name = .ok ())
    (hpriority : validatePriority priority = .ok ()) (newId : Uuid) (r : OpnRule)
    (iface : Option (List Char)) :
    (ruleSkip r names = none ↔
        ∃ rule, buildRule newId r iface names priority = .ok rule ∧ validateRule rule = .ok ()) ↔
      RuleForeseen names (r, iface) := by
  rw [ruleSkip_iff, inserted_iff hnames hpriority]
  constructor
  · intro h
    refine ⟨fun hresolves hword => (h.mp ⟨hresolves, hword⟩).2.1, ?_⟩
    intro hresolves hports hbraced hsound
    have hword := (h.mpr ⟨hresolves, hsound, fun _ => .inr hbraced⟩).2 hports
    rw [not_braced hword] at hbraced
    cases hbraced
  · intro h
    constructor
    · rintro ⟨hresolves, hword⟩
      exact ⟨hresolves, h.planned hresolves hword, fun hports => .inl (hword hports)⟩
    · rintro ⟨hresolves, hsound, htakes⟩
      refine ⟨hresolves, fun hports => (htakes hports).resolve_right ?_⟩
      exact fun hbraced => h.braced hresolves hports hbraced hsound

theorem validatePriority_next (h : validatePriority priority = .ok ()) :
    validatePriority (min (priority + 1) 10000) = .ok () := by
  unfold validatePriority at h ⊢
  split at h
  · cases h
  · exact if_neg (by omega)

theorem rules_iff (hnames : ∀ name ∈ names, validateTableName name = .ok ())
    (items : List (OpnRule × Option (List Char))) {draw : Nat → Uuid}
    (hpriority : validatePriority priority = .ok ()) :
    List.Forall₂ (fun p o => Foretold p.skipReason o) (items.map (planRule names))
        (applyRules names draw priority items) ↔
      ∀ item ∈ items, RuleForeseen names item := by
  induction items generalizing draw priority with
  | nil => exact iff_of_true .nil (List.forall_mem_nil _)
  | cons item items ih =>
    obtain ⟨r, iface⟩ := item
    have hitem := rule_iff hnames hpriority (draw 0) r iface
    rw [List.forall_mem_cons, ← hitem, List.map_cons, applyRules]
    cases hbuild : buildRule (draw 0) r iface names priority with
    | error reason =>
      dsimp only
      rw [List.forall₂_cons, ih hpriority]
      apply and_congr_left'
      apply iff_congr Iff.rfl
      exact iff_of_false (by rintro ⟨rule, h⟩; cases h) (by rintro ⟨rule, h, -⟩; cases h)
    | ok rule =>
      dsimp only
      rw [List.forall₂_cons, ih (validatePriority_next hpriority)]
      apply and_congr_left'
      apply iff_congr Iff.rfl
      unfold insertRule
      cases hvalid : validateRule rule with
      | ok => exact iff_of_true ⟨rule, rfl⟩ ⟨rule, rfl, hvalid⟩
      | error e =>
        refine iff_of_false (by rintro ⟨rule, h⟩; cases h) ?_
        rintro ⟨_, ⟨⟩, h⟩
        rw [hvalid] at h
        cases h

theorem validateName_iff (h : validAliasName name = true) :
    validateName name = .ok () ↔ reservedNames.contains name = false := by
  simp only [validAliasName, Bool.and_eq_true, decide_eq_true_eq] at h
  obtain ⟨⟨hne, hlen⟩, hall⟩ := h
  have hshort : ¬(name = [] ∨ byteLen name > 31) := by
    rintro (hnil | hlong)
    · exact hne hnil
    · omega
  unfold validateName
  rw [if_neg hshort, hall, Bool.not_true, if_neg Bool.false_ne_true]
  split
  · next hin => exact iff_of_false (fun h => nomatch h) fun h => Bool.false_ne_true (h.symm.trans hin)
  · next hin => exact iff_of_true rfl (Bool.not_eq_true _ ▸ hin)

theorem aliasKind_ok : (∃ kind, aliasKind s = .ok kind) ↔ isPlannedKind s = true := by
  unfold aliasKind isPlannedKind plannedKinds
  simp only [List.any_cons, List.any_nil, Bool.or_false, Bool.or_eq_true, decide_eq_true_eq]
  generalize toLowercase s = kind
  split
  · next h => exact iff_of_true ⟨_, rfl⟩ (.inl h.symm)
  split
  · next h => exact iff_of_true ⟨_, rfl⟩ (.inr (.inl h.symm))
  split
  · next h => exact iff_of_true ⟨_, rfl⟩ (.inr (.inr (.inl h.symm)))
  split
  · next h =>
    refine iff_of_true ⟨_, rfl⟩ (.inr (.inr (.inr ?_)))
    exact h.elim (fun h => .inl h.symm) fun h => .inr h.symm
  · next hhost hnetwork hport hurl =>
    refine iff_of_false ?_ ?_
    · rintro ⟨k, h⟩
      split at h
      · cases h
      · cases h
    · rintro (h | h | h | h | h)
      · exact hhost h.symm
      · exact hnetwork h.symm
      · exact hport h.symm
      · exact hurl (.inl h.symm)
      · exact hurl (.inr h.symm)

/-- An alias is inserted if the plan keeps it and its name is neither reserved nor taken by then. -/
theorem applyAlias_cases (fetch : Fetch) (now : List Char) (existing : List (List Char))
    (a : OpnAlias) {rows : List Alias} (hid : hasKey Alias.id newId rows = false) :
    (aliasSkip existing a = none ∧ reservedNames.contains a.name = false ∧
        hasKey Alias.name a.name rows = false) ∧
        (∃ added, added.name = a.name ∧ added.id = newId ∧
          applyAlias fetch now existing newId rows a = (rows ++ [added], .ok added)) ∨
      ¬(aliasSkip existing a = none ∧ reservedNames.contains a.name = false ∧
        hasKey Alias.name a.name rows = false) ∧
        ∃ e, applyAlias fetch now existing newId rows a = (rows, .error e) := by
  unfold aliasSkip applyAlias
  cases a.disabled with
  | true => exact .inr ⟨fun h => Option.some_ne_none _ h.1, _, rfl⟩
  | false =>
    simp only [Bool.false_eq_true, if_false]
    cases hname : validAliasName a.name with
    | false => exact .inr ⟨fun h => Option.some_ne_none _ h.1, _, rfl⟩
    | true =>
      cases existing.contains a.name with
      | true => exact .inr ⟨fun h => Option.some_ne_none _ h.1, _, rfl⟩
      | false =>
        simp only [Bool.not_true, Bool.false_eq_true, if_false]
        cases hkind : aliasKind a.kind with
        | error reason =>
          have hunplanned : isPlannedKind a.kind = false := by
            rw [← Bool.not_eq_true, ← aliasKind_ok, hkind]
            rintro ⟨k, h⟩
            cases h
          rw [hunplanned]
          exact .inr ⟨fun h => Option.some_ne_none _ h.1, _, rfl⟩
        | ok kind =>
          rw [aliasKind_ok.mp ⟨kind, hkind⟩, Bool.not_true, if_neg Bool.false_ne_true,
            ← validateName_iff hname]
          obtain ⟨hinserts, hadd⟩ | ⟨hrefused, e, hadd⟩ :=
            Aliases.add_cases fetch rows (aliasFor a newId kind now)
          · refine .inl ⟨⟨rfl, hinserts.1, hinserts.2.2⟩, aliasFor a newId kind now, rfl, rfl, ?_⟩
            dsimp only
            rw [hadd]
          · refine .inr ⟨fun h => hrefused ⟨h.2.1, hid, h.2.2⟩, aliasSkipped a (errorText e), ?_⟩
            dsimp only
            rw [hadd]

theorem FreshIds.next (h : FreshIds draw rows (count + 1)) :
    FreshIds (fun n => draw (n + 1)) rows count := by
  intro i hi
  obtain ⟨hrows, hothers⟩ := h (i + 1) (Nat.succ_lt_succ hi)
  exact ⟨hrows, fun j hj => hothers (j + 1) (Nat.succ_lt_succ hj)⟩

theorem hasKey_append {key : α → κ} [DecidableEq κ] {rows : List α} :
    hasKey key k (rows ++ [row]) = false ↔ hasKey key k rows = false ∧ key row ≠ k := by
  rw [hasKey_eq_false, hasKey_eq_false, List.forall_mem_append, List.forall_mem_singleton]

theorem FreshIds.insert (h : FreshIds draw rows (count + 1)) (hid : added.id = draw 0) :
    FreshIds (fun n => draw (n + 1)) (rows ++ [added]) count := by
  intro i hi
  obtain ⟨hrows, hothers⟩ := h (i + 1) (Nat.succ_lt_succ hi)
  refine ⟨hasKey_append.mpr ⟨hrows, ?_⟩, fun j hj => hothers (j + 1) (Nat.succ_lt_succ hj)⟩
  rw [hid]
  exact hothers 0 (Nat.succ_pos i)

theorem availableAliases_cons :
    availableAliases existing (a :: as) =
      if aliasSkip existing a = none then a.name :: availableAliases existing as
      else availableAliases existing as := by
  unfold availableAliases
  rw [List.filter_cons]
  cases aliasSkip existing a with
  | none => rfl
  | some reason => rfl

/-- The aliases are foretold exactly if the names of those the plan keeps are neither reserved nor
taken, by the rows or by one another. -/
theorem aliases_iff (fetch : Fetch) (now : List Char) (as : List OpnAlias) {draw : Nat → Uuid}
    {rows : List Alias} (hdraw : FreshIds draw rows as.length) :
    List.Forall₂ (fun p o => Foretold p.skipReason o) (as.map (planAlias existing))
        (applyAliases fetch now existing draw rows as).2 ↔
      (∀ name ∈ availableAliases existing as, reservedNames.contains name = false ∧
        hasKey Alias.name name rows = false) ∧ (availableAliases existing as).Nodup := by
  induction as generalizing draw rows with
  | nil => exact iff_of_true .nil ⟨List.forall_mem_nil _, .nil⟩
  | cons a as ih =>
    rw [List.map_cons, applyAliases, availableAliases_cons]
    dsimp only
    rw [List.forall₂_cons]
    obtain ⟨⟨hkept, hfree⟩, added, hname, hid, happly⟩ | ⟨hrefused, e, happly⟩ :=
      applyAlias_cases fetch now existing a (hdraw 0 (Nat.succ_pos _)).1
    · rw [happly, if_pos hkept, ih (hdraw.insert hid), List.forall_mem_cons, List.nodup_cons,
        and_iff_right hfree]
      apply (and_iff_right (iff_of_true hkept ⟨added, rfl⟩)).trans
      constructor
      · rintro ⟨hall, hnodup⟩
        have hnew (name : List Char) (hin : name ∈ availableAliases existing as) :=
          hasKey_append.mp (hall name hin).2
        refine ⟨fun name hin => ⟨(hall name hin).1, (hnew name hin).1⟩, ?_, hnodup⟩
        exact fun hin => (hnew a.name hin).2 hname
      · rintro ⟨hall, hother, hnodup⟩
        refine ⟨fun name hin => ⟨(hall name hin).1, hasKey_append.mpr ⟨(hall name hin).2, ?_⟩⟩, hnodup⟩
        rw [hname]
        rintro rfl
        exact hother hin
    · rw [happly, ih hdraw.next]
      by_cases hkept : aliasSkip existing a = none
      · refine iff_of_false ?_ ?_
        · rintro ⟨hhead, -⟩
          obtain ⟨x, hx⟩ := hhead.mp hkept
          cases hx
        · rintro ⟨hall, -⟩
          rw [if_pos hkept] at hall
          exact hrefused ⟨hkept, hall a.name List.mem_cons_self⟩
      · rw [if_neg hkept]
        apply and_iff_right
        exact iff_of_false hkept (by rintro ⟨x, hx⟩; cases hx)

/-- Where the aliases are foretold, those that are available are those that are imported. -/
theorem importedNames_eq (fetch : Fetch) (now : List Char) (as : List OpnAlias) {draw : Nat → Uuid}
    {rows : List Alias} (hdraw : FreshIds draw rows as.length)
    (h : List.Forall₂ (fun p o => Foretold p.skipReason o) (as.map (planAlias existing))
      (applyAliases fetch now existing draw rows as).2) :
    importedNames (applyAliases fetch now existing draw rows as).2 = availableAliases existing as := by
  induction as generalizing draw rows with
  | nil => rfl
  | cons a as ih =>
    rw [List.map_cons, applyAliases] at h
    rw [applyAliases, availableAliases_cons]
    dsimp only at h ⊢
    obtain ⟨hhead, htail⟩ := List.forall₂_cons.mp h
    obtain ⟨⟨hkept, -⟩, added, hname, hid, happly⟩ | ⟨-, e, happly⟩ :=
      applyAlias_cases fetch now existing a (hdraw 0 (Nat.succ_pos _)).1
    · rw [happly] at htail ⊢
      rw [if_pos hkept, ← ih (hdraw.insert hid) htail, ← hname]
      rfl
    · rw [happly] at htail hhead ⊢
      have hskipped : aliasSkip existing a ≠ none := by
        intro hkept
        obtain ⟨x, hx⟩ := hhead.mp hkept
        cases hx
      rw [if_neg hskipped, ← ih hdraw.next htail]
      rfl

theorem mem_availableAliases :
    name ∈ availableAliases existing as ↔ ∃ a ∈ as, aliasSkip existing a = none ∧ a.name = name := by
  unfold availableAliases
  simp only [List.mem_map, List.mem_filter, Option.isNone_iff_eq_none, and_assoc]

theorem aliasSkip_none (h : aliasSkip existing a = none) :
    validAliasName a.name = true ∧ existing.contains a.name = false := by
  unfold aliasSkip at h
  split at h
  · cases h
  split at h
  · cases h
  · next hname =>
    split at h
    · cases h
    · next hnew =>
      rw [Bool.not_eq_true, Bool.not_eq_false'] at hname
      exact ⟨hname, Bool.not_eq_true _ ▸ hnew⟩

/-- The name of an alias that is available can be that of a table. -/
theorem validateTableName_available (h : name ∈ availableAliases existing as) :
    validateTableName name = .ok () := by
  obtain ⟨a, -, hkept, rfl⟩ := mem_availableAliases.mp h
  have hname := (aliasSkip_none hkept).1
  simp only [validAliasName, Bool.and_eq_true, decide_eq_true_eq] at hname
  obtain ⟨⟨hne, hlen⟩, hall⟩ := hname
  have hshort : ¬(a.name = [] ∨ byteLen a.name > 31) := by
    rintro (hnil | hlong)
    · exact hne hnil
    · omega
  rw [validateTableName, if_neg hshort, hall, Bool.not_true, if_neg Bool.false_ne_true]

theorem aliases_foreseen_iff (fetch : Fetch) (now : List Char) (as : List OpnAlias)
    {draw : Nat → Uuid} {rows : List Alias} (hdraw : FreshIds draw rows as.length) :
    List.Forall₂ (fun p o => Foretold p.skipReason o) (as.map (planAlias (rows.map Alias.name)))
        (applyAliases fetch now (rows.map Alias.name) draw rows as).2 ↔
      AliasesForeseen (rows.map Alias.name) as := by
  have hnew (name : List Char) (h : name ∈ availableAliases (rows.map Alias.name) as) :
      hasKey Alias.name name rows = false := by
    obtain ⟨a, -, hkept, rfl⟩ := mem_availableAliases.mp h
    have habsent := (aliasSkip_none hkept).2
    rw [hasKey_eq_false]
    intro r hr hname
    rw [← hname, List.contains_iff_mem.mpr (List.mem_map_of_mem hr)] at habsent
    cases habsent
  rw [aliases_iff fetch now as hdraw]
  constructor
  · rintro ⟨hall, hnodup⟩
    exact ⟨fun name h => (hall name h).1, hnodup⟩
  · intro h
    exact ⟨fun name hin => ⟨h.free name hin, hnew name hin⟩, h.distinct⟩

theorem Address.parse_of_ip (h : IpAddr.parse s = some ip) : Address.parse s = .ok (.single ip) := by
  have hchars := IpAddr.parse_chars h
  have hslash : '/' ∉ s := fun hmem => absurd (hchars _ hmem) (by decide)
  rw [parse_of_netChars fun c hc => decide_eq_true (.inr (hchars c hc)), Address.parseIp,
    splitOnce_none hslash, h]

theorem insertNat_ok : (∃ x, insertNat kind descr r = .ok x) ↔ validateNatRule r.toNatRule = .ok () := by
  unfold insertNat
  cases validateNatRule r.toNatRule with
  | ok => exact iff_of_true ⟨r, rfl⟩ rfl
  | error e => exact iff_of_false (by rintro ⟨x, h⟩; cases h) fun h => nomatch h

theorem validateNatRule_ok {rule : NatRule}
    (h : ¬(rule.natType = .dnat ∧ rule.dstPort = none ∧ rule.redirect.port = none)) :
    validateNatRule rule = .ok () ↔ rule.interface ≠ [] := by
  unfold validateNatRule
  by_cases hempty : rule.interface = []
  · rw [if_pos hempty]
    exact iff_of_false (fun h => nomatch h) fun hne => hne hempty
  · rw [if_neg hempty, if_neg h]
    exact iff_of_true rfl hempty

theorem redirectPort_iff {n : OpnNatPortForward} :
    (∃ port, redirectPort n [] = .ok port ∧ (portOrNone n.destination [] <|> port).isSome = true) ↔
      ∃ spec range, (n.localPort <|> n.destination.port) = some spec ∧
        parsePortSpec spec [] = .ok range := by
  unfold redirectPort
  cases n.localPort with
  | some p =>
    constructor
    · rintro ⟨port, h, -⟩
      obtain ⟨range, hrange, -⟩ := map_ok.mp h
      exact ⟨p, range, rfl, hrange⟩
    · rintro ⟨spec, range, hspec, hrange⟩
      cases hspec
      refine ⟨some range, map_ok.mpr ⟨range, hrange, rfl⟩, ?_⟩
      cases portOrNone n.destination [] with
      | none => rfl
      | some own => rfl
  | none =>
    unfold portOrNone parsePort
    cases n.destination.port with
    | none =>
      refine iff_of_false ?_ ?_
      · rintro ⟨port, h, hsome⟩
        cases h
        cases hsome
      · rintro ⟨spec, range, hspec, -⟩
        cases hspec
    | some spec =>
      dsimp only
      cases hparse : parsePortSpec spec [] with
      | ok range => exact iff_of_true ⟨_, rfl, rfl⟩ ⟨spec, range, rfl, hparse⟩
      | error e =>
        refine iff_of_false ?_ ?_
        · rintro ⟨port, h, hsome⟩
          cases h
          cases hsome
        · rintro ⟨spec', range, hspec, hrange⟩
          cases hspec
          rw [hparse] at hrange
          cases hrange

/-- The port forward that is built has a port, so that only the interface is left to check. -/
theorem builtPortForward_iff (h : buildPortForward n ifaceMap [] = .ok (r, advisories)) :
    (∃ x, insertNat kind descr r = .ok x) ↔ mapIface n.interface ifaceMap ≠ [] := by
  obtain ⟨protocol, target, port, -, -, -, hsome, rfl, -⟩ := buildPortForward_ok.mp h
  rw [insertNat_ok]
  apply validateNatRule_ok
  rintro ⟨-, hnone, -⟩
  dsimp only at hnone
  rw [hnone] at hsome
  cases hsome

theorem applyPortForward_ok {n : OpnNatPortForward} :
    (∃ x, applyPortForward ifaceMap n = .ok x) ↔
      n.disabled = false ∧ (∃ a, Address.parse n.target = .ok a) ∧ n.Sound ifaceMap := by
  unfold applyPortForward
  cases n.disabled with
  | true => exact iff_of_false (by rintro ⟨x, h⟩; cases h) fun h => nomatch h.1
  | false =>
    rw [if_neg Bool.false_ne_true, and_iff_right rfl]
    constructor
    · rintro ⟨x, h⟩
      split at h
      · next r advisories hbuild =>
        obtain ⟨y, hinsert, -⟩ := map_ok.mp h
        have hiface := (builtPortForward_iff hbuild).mp ⟨y, hinsert⟩
        obtain ⟨protocol, target, port, hprotocol, htarget, hport, hsome, -, -⟩ :=
          buildPortForward_ok.mp hbuild
        exact ⟨⟨target, parseField_ok.mp htarget⟩, ⟨protocol, hprotocol⟩,
          redirectPort_iff.mp ⟨port, hport, hsome⟩, hiface⟩
      · cases h
    · rintro ⟨⟨target, htarget⟩, hsound⟩
      obtain ⟨protocol, hprotocol⟩ := hsound.protocol
      obtain ⟨port, hport, hsome⟩ := redirectPort_iff.mpr hsound.port
      obtain ⟨r, advisories, hbuild⟩ : ∃ r advisories,
          buildPortForward n ifaceMap [] = .ok (r, advisories) :=
        ⟨_, _, buildPortForward_ok.mpr ⟨protocol, target, port, hprotocol,
          parseField_ok.mpr htarget, hport, hsome, rfl, rfl⟩⟩
      obtain ⟨x, hx⟩ : ∃ x, insertNat "port-forward" n.descr r = .ok x :=
        (builtPortForward_iff hbuild).mpr hsound.interface
      rw [hbuild]
      exact ⟨_, map_ok.mpr ⟨x, hx, rfl⟩⟩

theorem portForwardSkip_iff {n : OpnNatPortForward} :
    portForwardSkip n = none ↔ n.disabled = false ∧ (IpAddr.parse n.target).isSome = true ∧
      (n.localPort <|> n.destination.port).isSome = true := by
  unfold portForwardSkip
  cases n.disabled with
  | true => exact iff_of_false (fun h => nomatch h) fun h => nomatch h.1
  | false =>
    cases IpAddr.parse n.target with
    | none => exact iff_of_false (fun h => nomatch h) fun h => nomatch h.2.1
    | some ip =>
      cases n.localPort with
      | some p => exact iff_of_true rfl ⟨rfl, rfl, rfl⟩
      | none =>
        cases n.destination.port with
        | some p => exact iff_of_true rfl ⟨rfl, rfl, rfl⟩
        | none => exact iff_of_false (fun h => nomatch h) fun h => nomatch h.2.2

theorem portForward_iff {n : OpnNatPortForward} :
    Foretold (planPortForward ifaceMap n).skipReason (applyPortForward ifaceMap n) ↔
      PortForwardForeseen ifaceMap n := by
  have hported (h : n.Sound ifaceMap) : (n.localPort <|> n.destination.port).isSome = true := by
    obtain ⟨spec, range, hspec, -⟩ := h.port
    rw [hspec]
    rfl
  unfold Foretold planPortForward
  rw [portForwardSkip_iff, applyPortForward_ok]
  constructor
  · intro h
    refine ⟨fun hon hip hport => (h.mp ⟨hon, hip, hport⟩).2.2, ?_⟩
    intro hon hnot hparses hsound
    have hip := (h.mpr ⟨hon, hparses, hsound⟩).2.1
    rw [hnot] at hip
    cases hip
  · intro h
    constructor
    · rintro ⟨hon, hip, hport⟩
      obtain ⟨ip, hparse⟩ := Option.isSome_iff_exists.mp hip
      exact ⟨hon, ⟨_, Address.parse_of_ip hparse⟩, h.planned hon hip hport⟩
    · rintro ⟨hon, hparses, hsound⟩
      refine ⟨hon, ?_, hported hsound⟩
      rw [Option.isSome_iff_ne_none]
      exact fun hnot => h.elsewhere hon hnot hparses hsound

theorem outboundTarget_iff :
    (∃ t, outboundTarget target = .ok t) ↔
      ∀ s, target = some s → s ≠ [] → ∃ a, Address.parse s = .ok a := by
  match target with
  | none => exact iff_of_true ⟨_, rfl⟩ nofun
  | some [] =>
    refine iff_of_true ⟨_, rfl⟩ ?_
    rintro _ ⟨⟩ h
    exact absurd rfl h
  | some (c :: cs) =>
    constructor
    · rintro ⟨t, h⟩ _ ⟨⟩ -
      obtain ⟨a, ha, -⟩ := map_ok.mp h
      exact ⟨a, parseField_ok.mp ha⟩
    · intro h
      obtain ⟨a, ha⟩ := h _ rfl (List.cons_ne_nil c cs)
      exact ⟨_, map_ok.mpr ⟨a, parseField_ok.mpr ha, rfl⟩⟩

theorem outboundTarget_ne_dnat (h : outboundTarget target = .ok t) : t.1 ≠ .dnat := by
  match target, h with
  | none, h | some [], h =>
    cases h
    exact nofun
  | some (c :: cs), h =>
    obtain ⟨a, -, rfl⟩ := map_ok.mp h
    exact nofun

theorem applyOutbound_ok {n : OpnNatOutbound} :
    (∃ x, applyOutbound ifaceMap n = .ok x) ↔ n.disabled = false ∧ n.Sound ifaceMap := by
  unfold applyOutbound
  cases n.disabled with
  | true => exact iff_of_false (by rintro ⟨x, h⟩; cases h) fun h => nomatch h.1
  | false =>
    rw [if_neg Bool.false_ne_true, and_iff_right rfl]
    constructor
    · rintro ⟨x, h⟩
      split at h
      · next r hbuild =>
        obtain ⟨hnonat, hstatic, protocol, target, hprotocol, htarget, rfl⟩ :=
          buildOutbound_ok.mp hbuild
        have hiface := (validateNatRule_ok fun hdnat => outboundTarget_ne_dnat htarget hdnat.1).mp
          (insertNat_ok.mp ⟨x, h⟩)
        exact ⟨hnonat, hstatic, ⟨protocol, hprotocol⟩, outboundTarget_iff.mp ⟨target, htarget⟩, hiface⟩
      · cases h
    · intro hsound
      obtain ⟨protocol, hprotocol⟩ := hsound.protocol
      obtain ⟨target, htarget⟩ := outboundTarget_iff.mpr hsound.target
      rw [buildOutbound_ok.mpr ⟨hsound.rewrites, hsound.dynamicPort, protocol, target, hprotocol,
        htarget, rfl⟩]
      dsimp only
      rw [insertNat_ok, validateNatRule_ok fun hdnat => outboundTarget_ne_dnat htarget hdnat.1]
      exact hsound.interface

theorem applyOneToOne_ok {n : OpnNatOneToOne} :
    (∃ x, applyOneToOne ifaceMap n = .ok x) ↔ n.disabled = false ∧ n.Sound ifaceMap := by
  unfold applyOneToOne
  cases n.disabled with
  | true => exact iff_of_false (by rintro ⟨x, h⟩; cases h) fun h => nomatch h.1
  | false =>
    rw [if_neg Bool.false_ne_true, and_iff_right rfl]
    constructor
    · rintro ⟨x, h⟩
      split at h
      · next r hbuild =>
        obtain ⟨external, inside, hexternal, hinside, rfl⟩ := buildOneToOne_ok.mp hbuild
        have hiface := (validateNatRule_ok (by rintro ⟨h, -⟩; cases h)).mp (insertNat_ok.mp ⟨x, h⟩)
        exact ⟨⟨external, parseField_ok.mp hexternal⟩, ⟨inside, parseField_ok.mp hinside⟩, hiface⟩
      · cases h
    · intro hsound
      obtain ⟨external, hexternal⟩ := hsound.external
      obtain ⟨inside, hinside⟩ := hsound.inside
      rw [buildOneToOne_ok.mpr ⟨external, inside, parseField_ok.mpr hexternal,
        parseField_ok.mpr hinside, rfl⟩]
      dsimp only
      rw [insertNat_ok, validateNatRule_ok (by rintro ⟨h, -⟩; cases h)]
      exact hsound.interface

theorem disabledSkip_iff : disabledSkip disabled = none ↔ disabled = false := by
  cases disabled with
  | true => exact iff_of_false (fun h => nomatch h) fun h => nomatch h
  | false => exact iff_of_true rfl rfl

theorem exists_map_ok {x : Except ε α} {f : α → β} : (∃ y, x.map f = .ok y) ↔ ∃ a, x = .ok a := by
  cases x with
  | error e => exact iff_of_false (by rintro ⟨y, h⟩; cases h) (by rintro ⟨a, h⟩; cases h)
  | ok a => exact iff_of_true ⟨f a, rfl⟩ ⟨a, rfl⟩

theorem nat_iff (nat : OpnNat) :
    List.Forall₂ (fun p o => Foretold p.skipReason o) (planNat nat ifaceMap) (applyNat nat ifaceMap) ↔
      NatForeseen nat ifaceMap := by
  have houtbound (n : OpnNatOutbound) :
      Foretold (planOutbound ifaceMap n).skipReason
          (if nat.outboundDisabled then .error (outboundReport nat)
            else (applyOutbound ifaceMap n).map fun r => (r, ([] : List String))) ↔
        (n.disabled = false → nat.outboundDisabled = false ∧ n.Sound ifaceMap) := by
    unfold Foretold planOutbound
    rw [disabledSkip_iff]
    cases nat.outboundDisabled with
    | true =>
      rw [if_pos rfl]
      constructor
      · intro h hon
        obtain ⟨x, hx⟩ := h.mp hon
        cases hx
      · intro h
        constructor
        · intro hon
          cases (h hon).1
        · rintro ⟨x, hx⟩
          cases hx
    | false =>
      rw [if_neg Bool.false_ne_true, exists_map_ok, applyOutbound_ok]
      exact ⟨fun h hon => ⟨rfl, (h.mp hon).2⟩, fun h => ⟨fun hon => ⟨hon, (h hon).2⟩, And.left⟩⟩
  have honetoone (n : OpnNatOneToOne) :
      Foretold (planOneToOne ifaceMap n).skipReason
          ((applyOneToOne ifaceMap n).map fun r => (r, ([] : List String))) ↔
        (n.disabled = false → n.Sound ifaceMap) := by
    unfold Foretold planOneToOne
    rw [disabledSkip_iff, exists_map_ok, applyOneToOne_ok]
    exact ⟨fun h hon => (h.mp hon).2, fun h => ⟨fun hon => ⟨hon, h hon⟩, And.left⟩⟩
  unfold planNat applyNat
  rw [forall₂_append_iff (by simp only [List.length_append, List.length_map]),
    forall₂_append_iff (by simp only [List.length_map]), forall₂_map_map_iff, forall₂_map_map_iff,
    forall₂_map_map_iff]
  simp only [portForward_iff, houtbound, honetoone]
  exact ⟨fun h => ⟨h.1.1, h.1.2, h.2⟩, fun h => ⟨⟨h.portForwards, h.outbound⟩, h.onetoone⟩⟩

/-- The plan of a configuration foretells its import exactly if none of its items is one that the plan
misjudges. -/
theorem plan_predicts_iff (fetch : Fetch) (now : List Char) (draw : Nat → Uuid) (cfg : OpnConfig)
    (ifaceMap : IfaceMap) (rows : List Alias) (hdraw : FreshIds draw rows cfg.aliases.length) :
    Predicts (buildPlan cfg ifaceMap (rows.map Alias.name))
        (applyConfig fetch now draw cfg ifaceMap rows) ↔
      Foreseen (rows.map Alias.name) ifaceMap cfg := by
  have haliases := aliases_foreseen_iff fetch now cfg.aliases hdraw
  have hrules (h : AliasesForeseen (rows.map Alias.name) cfg.aliases) :
      List.Forall₂ (fun p o => Foretold p.skipReason o)
          (buildPlan cfg ifaceMap (rows.map Alias.name)).rules
          (applyConfig fetch now draw cfg ifaceMap rows).rules ↔
        ∀ item ∈ ruleItems cfg.rules ifaceMap,
          RuleForeseen (availableAliases (rows.map Alias.name) cfg.aliases) item := by
    unfold buildPlan applyConfig
    dsimp only
    rw [importedNames_eq fetch now cfg.aliases hdraw (haliases.mpr h)]
    exact rules_iff (fun name hname => validateTableName_available hname) _ rfl
  constructor
  · intro h
    have hforeseen := haliases.mp h.aliases
    exact ⟨hforeseen, (hrules hforeseen).mp h.rules, (nat_iff cfg.nat).mp h.nat⟩
  · intro h
    exact ⟨haliases.mpr h.aliases, (hrules h.aliases).mpr h.rules, (nat_iff cfg.nat).mpr h.nat⟩

def hostAlias (name : String) : OpnAlias :=
  ⟨name.toList, "host".toList, ["10.0.0.2".toList], none, false⟩

/-- Any host may reach the port of the alias. -/
def passTo (name port : String) : OpnRule where
  action := "pass".toList
  direction := "in".toList
  interface := ["em0".toList]
  ipprotocol := .inet
  protocol := "tcp".toList
  source := anywhere
  destination := ⟨some name.toList, none, false, false, some port.toList⟩
  disabled := false
  log := false
  quick := true
  descr := none

def webConfig (mode : Option String) : OpnConfig :=
  ⟨[hostAlias "web"], [passTo "web" "80"], ⟨mode.map String.toList, [], [masqueradeOn "em0"], []⟩⟩

theorem plan_predicts_web :
    Predicts (buildPlan (webConfig none) (fun _ => none) [])
      (applyConfig (fun _ => none) [] (BitVec.ofNat 128) (webConfig none) (fun _ => none) []) := by
  have hfresh : FreshIds (BitVec.ofNat 128) [] (webConfig none).aliases.length :=
    fun i hi => ⟨rfl, fun j hj => absurd hj (by rw [Nat.lt_one_iff.mp hi]; exact Nat.not_lt_zero j)⟩
  apply (plan_predicts_iff (fun _ => none) [] (BitVec.ofNat 128) (webConfig none) (fun _ => none) []
    hfresh).mpr
  have hsource : (passTo "web" "80").source.Sound ["web".toList] := ⟨.inl rfl, nofun, nofun⟩
  have hdestination : (passTo "web" "80").destination.Sound ["web".toList] := by
    refine ⟨.inr (.inl rfl), ?_, ?_⟩
    · rintro - _ a ⟨⟩ hparse
      have herror : Address.parse "web".toList = .error "invalid address" := by decide
      rw [herror] at hparse
      cases hparse
    · rintro _ range ⟨⟩ hparse
      have hport : parsePortSpec "80".toList ["web".toList] = .ok ⟨80, 80⟩ := by decide
      rw [hport] at hparse
      cases hparse
      exact UInt16.le_refl 80
  have hrule : RuleForeseen ["web".toList] (passTo "web" "80", some "em0".toList) :=
    ⟨fun _ _ => ⟨⟨.pass, rfl⟩, ⟨.in, rfl⟩, ⟨.tcp, rfl⟩, hsource, hdestination, by decide, rfl⟩,
      fun _ _ h => absurd h (by decide)⟩
  have hmasquerade : (masqueradeOn "em0").Sound fun _ => none :=
    ⟨rfl, rfl, ⟨.any, rfl⟩, nofun, by decide⟩
  refine ⟨⟨by decide, by decide⟩, List.forall_mem_singleton.mpr hrule, ?_⟩
  exact ⟨List.forall_mem_nil _, List.forall_mem_singleton.mpr fun _ => ⟨rfl, hmasquerade⟩,
    List.forall_mem_nil _⟩

/-- The plan does not look at the mode of the outbound rules. -/
theorem disabled_mode_planned :
    ¬∀ (cfg : OpnConfig) (ifaceMap : IfaceMap) (rows : List Alias) (fetch : Fetch)
      (now : List Char) (draw : Nat → Uuid), FreshIds draw rows cfg.aliases.length →
      Predicts (buildPlan cfg ifaceMap (rows.map Alias.name))
        (applyConfig fetch now draw cfg ifaceMap rows) := by
  intro h
  have hplan := h ⟨[], [], ⟨some "disabled".toList, [], [masqueradeOn "em0"], []⟩⟩ (fun _ => none) []
    (fun _ => none) [] (BitVec.ofNat 128) nofun
  have hnat : List.Forall₂ (fun p o => Foretold p.skipReason o)
    [planOutbound (fun _ => none) (masqueradeOn "em0")] [.error _] := hplan.nat
  obtain ⟨hhead, -⟩ := List.forall₂_cons.mp hnat
  obtain ⟨x, hx⟩ := hhead.mp rfl
  cases hx

end AiFw.Opnsense
