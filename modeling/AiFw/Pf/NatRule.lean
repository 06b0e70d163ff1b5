import AiFw.Pf.Match

namespace AiFw.Pf
open AiFw.Lib AiFw.Net
set_option autoImplicit true

inductive NatType where
  | snat
  | dnat
  | masquerade
  | binat
  | nat64
  | nat46
deriving DecidableEq, Repr

structure NatRedirect where
  address : Address
  port : Option PortRange
deriving DecidableEq, Repr

def NatRedirect.display (r : NatRedirect) : List Char :=
  r.address.display ++ match r.port with
    | some port => " port ".toList ++ port.display
    | none => []

structure NatRule where
  natType : NatType
  interface : List Char
  protocol : Protocol
  srcAddr : Address
  srcPort : Option PortRange
  dstAddr : Address
  dstPort : Option PortRange
  redirect : NatRedirect
deriving DecidableEq, Repr

def NatRule.pushProto (rule : NatRule) : List (List Char) :=
  if rule.protocol ≠ .any then ["proto ".toList ++ rule.protocol.display] else []

/-- An address with its port in one part. -/
def hostPart (k : String) (addr : Address) (port : Option PortRange) : List Char :=
  k.toList ++ ' ' :: addr.display ++ match port with
    | some port => " port ".toList ++ port.display
    | none => []

def NatRule.pushFromTo (rule : NatRule) : List (List Char) :=
  [hostPart "from" rule.srcAddr rule.srcPort, hostPart "to" rule.dstAddr rule.dstPort]

def portPart : Option PortRange → List (List Char)
  | some port => ["port ".toList ++ port.display]
  | none => []

/-- The hosts of a redirection: no source clause for a source of any address. -/
def NatRule.rdrHosts (rule : NatRule) : List (List Char) :=
  (if rule.srcAddr ≠ .any then
    ("from ".toList ++ rule.srcAddr.display) :: portPart rule.srcPort
  else []) ++
  ("to ".toList ++ rule.dstAddr.display) :: portPart rule.dstPort

def NatRule.line (rule : NatRule) (head : List Char) (hosts : List (List Char))
    (target : List Char) : List Char :=
  List.intercalate [' '] ([head] ++ rule.pushProto ++ hosts ++ ["-> ".toList ++ target])

def NatRule.ownAddress (rule : NatRule) : List Char := '(' :: rule.interface ++ [')']

def NatRule.toPfNat (rule : NatRule) : List Char :=
  rule.line ("nat on ".toList ++ rule.interface) rule.pushFromTo rule.redirect.display

def NatRule.toPfRdr (rule : NatRule) : List Char :=
  rule.line ("rdr on ".toList ++ rule.interface) rule.rdrHosts rule.redirect.display

def NatRule.toPfMasquerade (rule : NatRule) : List Char :=
  rule.line ("nat on ".toList ++ rule.interface) rule.pushFromTo rule.ownAddress

def NatRule.toPfBinat (rule : NatRule) : List Char :=
  rule.line ("binat on ".toList ++ rule.interface) rule.pushFromTo rule.redirect.display

def NatRule.toPfNat64 (rule : NatRule) : List Char :=
  rule.line ("nat on ".toList ++ rule.interface ++ " inet6".toList) rule.pushFromTo
    rule.redirect.display

def NatRule.toPfNat46 (rule : NatRule) : List Char :=
  rule.line ("nat on ".toList ++ rule.interface ++ " inet".toList) rule.pushFromTo
    rule.redirect.display

def NatRule.toPfRdrReflection (rule : NatRule) : List Char :=
  rule.line ("nat on ".toList ++ rule.interface)
    ["from any to ".toList ++ rule.redirect.display] rule.ownAddress

def NatRule.toPfRules (rule : NatRule) : List (List Char) :=
  match rule.natType with
  | .snat => [rule.toPfNat]
  | .dnat => [rule.toPfRdr, rule.toPfRdrReflection]
  | .masquerade => [rule.toPfMasquerade]
  | .binat => [rule.toPfBinat]
  | .nat64 => [rule.toPfNat64]
  | .nat46 => [rule.toPfNat46]

/-- The names are ones that the constructors of addresses and the request handlers let through. -/
structure NatRule.Named (rule : NatRule) : Prop where
  interface : validateInterfaceName rule.interface = .ok ()
  srcTable : ∀ name, rule.srcAddr = .table name → validateTableName name = .ok ()
  dstTable : ∀ name, rule.dstAddr = .table name → validateTableName name = .ok ()
  redirectTable : ∀ name, rule.redirect.address = .table name → validateTableName name = .ok ()

/-- The interface and the names of the tables are words of pf. -/
structure NatRule.Worded (rule : NatRule) : Prop where
  interface : IsWord rule.interface
  srcTable : ∀ name, rule.srcAddr = .table name → IsWord name
  dstTable : ∀ name, rule.dstAddr = .table name → IsWord name
  redirectTable : ∀ name, rule.redirect.address = .table name → IsWord name

theorem NatRule.Named.worded {rule : NatRule} (hn : rule.Named) : rule.Worded where
  interface := isWord_of_validateInterfaceName hn.interface
  srcTable name h := isWord_tableName (hn.srcTable name h)
  dstTable name h := isWord_tableName (hn.dstTable name h)
  redirectTable name h := isWord_tableName (hn.redirectTable name h)

theorem optPort_renders (h : Renders s ts) (port : Option PortRange) :
    Renders (s ++ match port with
      | some port => " port ".toList ++ port.display
      | none => []) (ts ++ clauseToks "port" (fun w => [.word w])
        (port.map PortRange.display)) := by
  cases port with
  | none =>
    rw [List.append_nil, Option.map_none, clauseToks, List.append_nil]
    exact h
  | some p => exact h.space ((renders_kw "port" (by decide)).space (isWord_port p).renders)

theorem hostPart_renders (k : String) (hk : k.toList ≠ [] ∧ k.toList.all isWordChar)
    (ht : ∀ name, addr = .table name → IsWord name) (port : Option PortRange) :
    Renders (hostPart k addr port) (kw k :: hostToks (rawHost false addr port)) :=
  optPort_renders ((renders_kw k hk).space (Address.renders ht)) port

theorem portPart_renders (port : Option PortRange) :
    PartsRender (portPart port)
      (clauseToks "port" (fun w => [.word w]) (port.map PortRange.display)) := by
  cases port with
  | none => exact .nil
  | some p => exact .single ((renders_kw "port" (by decide)).space (isWord_port p).renders)

theorem hostParts_renders (k : String) (hk : k.toList ≠ [] ∧ k.toList.all isWordChar)
    (ht : ∀ name, addr = .table name → IsWord name) (port : Option PortRange) :
    PartsRender ((k.toList ++ ' ' :: addr.display) :: portPart port)
      (kw k :: hostToks (rawHost false addr port)) :=
  (PartsRender.single ((renders_kw k hk).space (Address.renders ht))).append (portPart_renders port)

/-- The match clauses of the translation line of each kind of rule. -/
def NatRule.rawClauses (rule : NatRule) : RawMatch where
  family := match rule.natType with
    | .nat64 => some "inet6".toList
    | .nat46 => some "inet".toList
    | _ => none
  protos := rule.protocol.names
  src :=
    if rule.natType = .dnat ∧ rule.srcAddr = .any then none
    else some (rawHost false rule.srcAddr rule.srcPort)
  dst := some (rawHost false rule.dstAddr rule.dstPort)

def NatRule.kind (rule : NatRule) : String :=
  match rule.natType with
  | .dnat => "rdr"
  | .binat => "binat"
  | _ => "nat"

def targetToks (r : NatRedirect) : List Token :=
  addrToks r.address.raw ++ clauseToks "port" (fun w => [.word w]) (r.port.map PortRange.display)

def NatRule.targetTokens (rule : NatRule) : List Token :=
  if rule.natType = .masquerade then [.sym '(', .word rule.interface, .sym ')']
  else targetToks rule.redirect

theorem NatRule.pushProto_renders (rule : NatRule) :
    PartsRender rule.pushProto (clauseToks "proto" protocolToks rule.protocol.names) := by
  unfold NatRule.pushProto
  split
  · rename_i h
    exact .single (rule.protocol.renders h)
  · rename_i h
    rw [not_not.mp h]
    exact .nil

theorem NatRule.line_renders (rule : NatRule) (hh : Renders head hts)
    (hhosts : PartsRender hosts ts) (ht : Renders target tts) :
    Renders (rule.line head hosts target) (hts ++ (clauseToks "proto" protocolToks
      rule.protocol.names ++ (ts ++ kw "-" :: .sym '>' :: tts))) := by
  have harrow : Renders ("-> ".toList ++ target) (kw "-" :: .sym '>' :: tts) :=
    ((renders_kw "-" (by decide)).glue (.sym (c := '>') (by decide)) (by decide)).space ht
  have hall := (((PartsRender.single hh).append rule.pushProto_renders).append hhosts).append
    (.single harrow)
  have hj := hall.join
  rw [NatRule.line]
  simp only [List.append_assoc] at hj ⊢
  exact hj

def NatRule.raw (rule : NatRule) : RawTranslation :=
  ⟨rule.kind.toList, some rule.interface, rule.rawClauses, rule.targetTokens⟩

def NatRule.headToks (rule : NatRule) : List Token :=
  [kw rule.kind, kw "on", .word rule.interface] ++ pickToks rule.rawClauses.family

theorem NatRule.translationToks_raw (rule : NatRule) :
    translationToks rule.raw = rule.headToks ++ (clauseToks "proto" protocolToks
      rule.protocol.names ++ ((clauseToks "from" hostToks rule.rawClauses.src ++
        clauseToks "to" hostToks rule.rawClauses.dst) ++
          kw "-" :: .sym '>' :: rule.targetTokens)) := by
  simp only [translationToks, NatRule.raw, matchToks, NatRule.headToks, clauseToks,
    List.append_assoc, List.cons_append, List.nil_append]
  rfl

section
variable {rule : NatRule} (hn : rule.Worded)
include hn

theorem NatRule.head_renders (k : String) (hk : k.toList ≠ [] ∧ k.toList.all isWordChar) :
    Renders (k.toList ++ ' ' :: ("on".toList ++ ' ' :: rule.interface))
      [kw k, kw "on", .word rule.interface] :=
  (renders_kw k hk).space ((renders_kw "on" (by decide)).space hn.interface.renders)

theorem NatRule.fromTo_renders : PartsRender rule.pushFromTo
    (clauseToks "from" hostToks (some (rawHost false rule.srcAddr rule.srcPort)) ++
      clauseToks "to" hostToks (some (rawHost false rule.dstAddr rule.dstPort))) :=
  (PartsRender.single (hostPart_renders "from" (by decide)
    hn.srcTable rule.srcPort)).append
    (.single (hostPart_renders "to" (by decide)
      hn.dstTable rule.dstPort))

theorem NatRule.rdrHosts_renders : PartsRender rule.rdrHosts
    (clauseToks "from" hostToks
      (if rule.srcAddr = .any then none else some (rawHost false rule.srcAddr rule.srcPort)) ++
      clauseToks "to" hostToks (some (rawHost false rule.dstAddr rule.dstPort))) := by
  have hdst := hostParts_renders "to" (by decide)
    hn.dstTable rule.dstPort
  unfold NatRule.rdrHosts
  by_cases h : rule.srcAddr = .any
  · simp only [h, ne_eq, not_true_eq_false, if_false, if_true]
    exact PartsRender.nil.append hdst
  · simp only [h, ne_eq, not_false_eq_true, if_false, if_true]
    exact (hostParts_renders "from" (by decide)
      hn.srcTable rule.srcPort).append hdst

theorem NatRule.redirect_renders : Renders rule.redirect.display (targetToks rule.redirect) :=
  optPort_renders (Address.renders hn.redirectTable) _

theorem NatRule.ownAddress_renders :
    Renders rule.ownAddress [.sym '(', .word rule.interface, .sym ')'] :=
  .sym_append (by decide) (hn.interface.renders.glue (.sym (c := ')') (by decide)) (by decide))

/-- Each renderer writes the clauses of `raw`. -/
theorem NatRule.first_renders :
    ∃ line rest, rule.toPfRules = line :: rest ∧ Renders line (translationToks rule.raw) := by
  have hft := NatRule.fromTo_renders hn
  have htarget := NatRule.redirect_renders hn
  have hnat := NatRule.head_renders hn "nat" (by decide)
  rw [rule.translationToks_raw]
  unfold NatRule.toPfRules NatRule.headToks NatRule.kind NatRule.rawClauses NatRule.targetTokens
  cases rule.natType with
  | snat => exact ⟨_, _, rfl, rule.line_renders hnat hft htarget⟩
  | dnat =>
    simp only [true_and]
    exact ⟨_, _, rfl, rule.line_renders (NatRule.head_renders hn "rdr" (by decide))
      (NatRule.rdrHosts_renders hn) htarget⟩
  | masquerade => exact ⟨_, _, rfl, rule.line_renders hnat hft (NatRule.ownAddress_renders hn)⟩
  | binat =>
    exact ⟨_, _, rfl, rule.line_renders (NatRule.head_renders hn "binat" (by decide)) hft htarget⟩
  | nat64 =>
    exact ⟨_, _, rfl, rule.line_renders (hnat.space (renders_kw "inet6" (by decide))) hft htarget⟩
  | nat46 =>
    exact ⟨_, _, rfl, rule.line_renders (hnat.space (renders_kw "inet" (by decide))) hft htarget⟩

end

/-- An address or a network of hosts. -/
def Address.isHosts : Address → Bool
  | .single _ => true
  | .network _ _ => true
  | _ => false

theorem Address.isAddress_raw (a : Address) : a.raw.isAddress = a.isHosts := by
  cases a with
  | any => rfl
  | single ip => exact decide_eq_true (any_ne_display ip)
  | network ip len => rfl
  | table name => rfl

/-- A binat rule asks for what its line has room for: one protocol at most, an address or a network
on both sides of the arrow, and no ports. -/
def NatRule.Sayable (rule : NatRule) : Prop :=
  rule.natType = .binat → rule.protocol ≠ .tcpUdp ∧ rule.srcAddr.isHosts ∧ rule.srcPort = none ∧
    rule.dstPort = none ∧ rule.redirect.address.isHosts ∧ rule.redirect.port = none

instance (rule : NatRule) : Decidable rule.Sayable :=
  inferInstanceAs (Decidable (_ → _))

theorem Protocol.names_length (p : Protocol) : (∀ ws ∈ p.names, ws.length = 1) ↔ p ≠ .tcpUdp := by
  cases p <;> simp [names]

theorem NatRule.oneToOne_iff {rule : NatRule} :
    OneToOne rule.protocol.names rule.srcAddr.raw (rule.srcPort.map PortRange.display)
      (rawHost false rule.dstAddr rule.dstPort) rule.redirect.address.raw
      (rule.redirect.port.map PortRange.display) ↔
        rule.protocol ≠ .tcpUdp ∧ rule.srcAddr.isHosts ∧ rule.srcPort = none ∧
          rule.dstPort = none ∧ rule.redirect.address.isHosts ∧ rule.redirect.port = none := by
  simp only [OneToOne, rule.protocol.names_length, Address.isAddress_raw, rawHost,
    Option.map_eq_none_iff]

theorem NatRule.translationRule_raw (rule : NatRule) :
    translationRule (translationToks rule.raw) = if rule.Sayable then some rule.raw else none := by
  by_cases hb : rule.natType = .binat
  · have hfamily : ∀ w ∈ (none : Option (List Char)), w ∈ ["inet", "inet6"].map String.toList := by
      rintro w ⟨⟩
    have hbinat := binat_toks (some rule.interface) rule.protocol.names rule.srcAddr.raw
      (rule.srcPort.map PortRange.display) (rawHost false rule.dstAddr rule.dstPort)
      rule.redirect.address.raw (rule.redirect.port.map PortRange.display) hfamily
    have hraw : rule.raw = ⟨"binat".toList, some rule.interface, ⟨none, rule.protocol.names,
        some (rawHost false rule.srcAddr rule.srcPort),
        some (rawHost false rule.dstAddr rule.dstPort)⟩, targetToks rule.redirect⟩ := by
      simp only [raw, kind, rawClauses, targetTokens, hb, reduceCtorEq, false_and, if_false]
    have hother : natOrRdr (translationToks rule.raw) = none := by
      rw [hraw]
      rfl
    have hsay : rule.Sayable ↔ OneToOne rule.protocol.names rule.srcAddr.raw
        (rule.srcPort.map PortRange.display) (rawHost false rule.dstAddr rule.dstPort)
        rule.redirect.address.raw (rule.redirect.port.map PortRange.display) := by
      rw [oneToOne_iff]
      exact ⟨fun h => h hb, fun h _ => h⟩
    rw [translationRule, hother, Option.none_or, hraw]
    simp only [hsay]
    exact hbinat
  · have hsay : rule.Sayable := fun h => absurd h hb
    rw [if_pos hsay]
    apply translationRule_toks
    · simp only [NatRule.raw, NatRule.kind]
      cases h : rule.natType with
      | binat => exact absurd h hb
      | _ => decide
    · simp only [NatRule.raw, NatRule.rawClauses]
      cases rule.natType <;> decide
    · simp only [NatRule.raw, NatRule.targetTokens, targetToks]
      split
      · exact List.cons_ne_nil _ _
      · cases rule.redirect.address <;> exact List.cons_ne_nil _ _

theorem NatRule.parse_first {rule : NatRule} (hn : rule.Named) :
    ∃ line rest, rule.toPfRules = line :: rest ∧
      parseTranslation line = if rule.Sayable then some rule.raw else none := by
  obtain ⟨line, rest, he, hr⟩ := NatRule.first_renders hn.worded
  refine ⟨line, rest, he, ?_⟩
  rw [parseTranslation, hr.lexes.lex_eq, Option.bind_some, rule.translationRule_raw]

/-- The protocol a `proto` clause names. -/
def protocolOf (names : Option (List (List Char))) : Option Protocol :=
  [Protocol.tcp, .udp, .icmp, .icmp6, .tcpUdp, .esp, .ah, .gre, .any].find? fun p =>
    p.names = names

theorem Protocol.protocolOf_names (p : Protocol) : protocolOf p.names = some p := by
  cases p <;> decide

/-- The translation line is read back as the match fields of the rule. -/
def NatRule.MatchPreserved (rule : NatRule) : Prop :=
  ∃ line rest raw, rule.toPfRules = line :: rest ∧ parseTranslation line = some raw ∧
    protocolOf raw.clauses.protos = some rule.protocol ∧
    resolveHost raw.clauses.src = some ⟨false, rule.srcAddr, rule.srcPort⟩ ∧
    resolveHost raw.clauses.dst = some ⟨false, rule.dstAddr, rule.dstPort⟩

theorem resolveHost_raw_iff {addr : Address} {port : Option PortRange} :
    resolveHost (some (rawHost false addr port)) = some ⟨false, addr, port⟩ ↔ addr.InRange := by
  constructor
  · intro h
    simp only [resolveHost, rawHost, resolvePort_display, Option.bind_eq_bind,
      Option.bind_eq_some_iff, Option.some.injEq, Option.pure_def, HostMatch.mk.injEq] at h
    obtain ⟨a, ha, p, -, -, rfl, -⟩ := h
    exact Address.resolve_raw.mp ha
  · intro h
    exact resolveHost_raw false h port

theorem NatRule.resolve_src_iff (rule : NatRule) :
    resolveHost rule.rawClauses.src = some ⟨false, rule.srcAddr, rule.srcPort⟩ ↔
      rule.srcAddr.InRange ∧
        ¬(rule.natType = .dnat ∧ rule.srcAddr = .any ∧ rule.srcPort.isSome) := by
  unfold NatRule.rawClauses
  dsimp only
  split
  · rename_i h
    rw [h.2]
    simp only [resolveHost, HostMatch.any, Option.some.injEq, HostMatch.mk.injEq, true_and, h.1,
      Address.InRange, Bool.not_eq_true, Option.isSome_eq_false_iff, Option.isNone_iff_eq_none]
    exact eq_comm
  · rename_i h
    rw [resolveHost_raw_iff]
    constructor
    · intro hr
      refine ⟨hr, ?_⟩
      rintro ⟨hd, ha, -⟩
      exact h ⟨hd, ha⟩
    · exact And.left

/-- A redirection from any address loses the source port, a binat line is refused when there is no
room in it for the rule, and every other line keeps the match; prefix lengths are not checked on
this path. -/
theorem NatRule.matchPreserved_iff_of_named (rule : NatRule) (hn : rule.Named) :
    rule.MatchPreserved ↔ rule.Sayable ∧ rule.srcAddr.InRange ∧ rule.dstAddr.InRange ∧
      ¬(rule.natType = .dnat ∧ rule.srcAddr = .any ∧ rule.srcPort.isSome) := by
  obtain ⟨line, rest, he, hp⟩ := NatRule.parse_first hn
  have hsrc := rule.resolve_src_iff
  have hdst : resolveHost rule.rawClauses.dst = some ⟨false, rule.dstAddr, rule.dstPort⟩ ↔
      rule.dstAddr.InRange := resolveHost_raw_iff
  constructor
  · rintro ⟨line', rest', raw, he', hp', -, hs, hd⟩
    rw [he] at he'
    cases he'
    rw [hp] at hp'
    split at hp'
    · next hsay =>
      cases hp'
      obtain ⟨hr, hl⟩ := hsrc.mp hs
      exact ⟨hsay, hr, hdst.mp hd, hl⟩
    · cases hp'
  · rintro ⟨hsay, hs, hd, hl⟩
    rw [if_pos hsay] at hp
    exact ⟨line, rest, rule.raw, he, hp, rule.protocol.protocolOf_names, hsrc.mpr ⟨hs, hl⟩,
      hdst.mpr hd⟩

/-- A server with a public address of its own. -/
def sampleOneToOne : NatRule where
  natType := .binat
  interface := "em0".toList
  protocol := .any
  srcAddr := .single (.v4 0xC0A8010A)
  srcPort := none
  dstAddr := .any
  dstPort := none
  redirect := ⟨.single (.v4 0xCB00710A), none⟩

theorem NatRule.matchPreserved_sampleOneToOne : sampleOneToOne.MatchPreserved := by
  have hnamed : sampleOneToOne.Named := by
    refine ⟨rfl, ?_, ?_, ?_⟩
    · intro name h
      cases h
    · intro name h
      cases h
    · intro name h
      cases h
  have hsay : sampleOneToOne.Sayable := by decide
  refine (NatRule.matchPreserved_iff_of_named _ hnamed).mpr ⟨hsay, trivial, trivial, ?_⟩
  rintro ⟨h, -⟩
  cases h

/-- A port forward for one source port. -/
def sampleForward : NatRule where
  natType := .dnat
  interface := "em0".toList
  protocol := .tcp
  srcAddr := .any
  srcPort := some ⟨5000, 5000⟩
  dstAddr := .any
  dstPort := some ⟨80, 80⟩
  redirect := ⟨.single (.v4 0x0A000002), some ⟨8080, 8080⟩⟩

example : sampleForward.toPfRdr =
    "rdr on em0 proto tcp to any port 80 -> 10.0.0.2 port 8080".toList := by decide +kernel

theorem NatRule.matchPreserved_source_port_lost : ¬sampleForward.MatchPreserved := by
  rintro ⟨line, rest, raw, he, hp, -, hs, -⟩
  cases he
  have hread : parseTranslation sampleForward.toPfRdr = some ⟨"rdr".toList, some "em0".toList,
      ⟨none, some ["tcp".toList], none, some ⟨false, .name "any".toList, some "80".toList⟩⟩,
      [.word "10.0.0.2".toList, .word "port".toList, .word "8080".toList]⟩ := by
    decide +kernel
  rw [hread] at hp
  cases hp
  revert hs
  decide

end AiFw.Pf
