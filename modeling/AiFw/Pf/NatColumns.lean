import AiFw.Pf.NatRule
import Mathlib.Data.Char
import Mathlib.Data.List.Lex

namespace AiFw.Pf
open AiFw.Lib AiFw.Net
set_option autoImplicit true

/-- `str::to_lowercase`, as far as a keyword can tell. -/
def lower (s : List Char) : List Char := s.map lowerChar

def NatType.display : NatType → List Char
  | .snat => "snat".toList
  | .dnat => "dnat".toList
  | .masquerade => "masquerade".toList
  | .binat => "binat".toList
  | .nat64 => "nat64".toList
  | .nat46 => "nat46".toList

/-- The value of the first keyword that is the text. -/
def parseKeyword (table : List (String × α)) (s : List Char) : Option α :=
  (table.find? fun e => e.1.toList = lower s).map Prod.snd

def natTypeWords : List (String × NatType) :=
  [("snat", .snat), ("dnat", .dnat), ("rdr", .dnat), ("masquerade", .masquerade),
    ("masq", .masquerade), ("binat", .binat), ("nat64", .nat64), ("nat46", .nat46)]

def NatType.parse (s : List Char) : Except String NatType :=
  match parseKeyword natTypeWords s with
  | some t => .ok t
  | none => .error ("unknown NAT type: " ++ String.ofList s)

def protocolWords : List (String × Protocol) :=
  [("tcp", .tcp), ("udp", .udp), ("icmp", .icmp), ("icmp6", .icmp6), ("tcp/udp", .tcpUdp),
    ("tcpudp", .tcpUdp), ("tcp+udp", .tcpUdp), ("\x7b tcp udp \x7d", .tcpUdp),
    ("\x7btcp udp\x7d", .tcpUdp), ("esp", .esp), ("ah", .ah), ("gre", .gre), ("any", .any),
    ("*", .any)]

def Protocol.parse (s : List Char) : Except String Protocol :=
  match parseKeyword protocolWords s with
  | some p => .ok p
  | none => .error ("unknown protocol: " ++ String.ofList s)

def anyWords : List String := ["any", "interface", "interface address"]

def isAnyWord (s : List Char) : Bool := anyWords.any fun w => w.toList = s

/-- What the standard library says about a text that is no address or number is left out. -/
def Address.parseIp (s : List Char) : Except String Address :=
  match splitOnce '/' s with
  | some (ip, len) =>
    match IpAddr.parse ip with
    | none => .error "invalid IP"
    | some ip =>
      match parseUnsigned 256 len with
      | none => .error "invalid prefix"
      | some n => .ok (.network ip (UInt8.ofNat n))
  | none =>
    match IpAddr.parse s with
    | none => .error "invalid address"
    | some ip => .ok (.single ip)

def Address.parse (text : List Char) : Except String Address :=
  let s := trim text
  if isAnyWord (lower s) then .ok .any
  else if s.head? = some '<' ∧ s.getLast? = some '>' then do
    let name := s.tail.dropLast
    validateTableName name
    return .table name
  else parseIp s

theorem NatType.parse_display (t : NatType) : NatType.parse t.display = .ok t := by
  cases t <;> rfl

theorem Protocol.parse_display (p : Protocol) : Protocol.parse p.display = .ok p := by
  cases p <;> rfl

/-- The signs of a written address and its length. -/
def isNetChar (c : Char) : Bool := c = '/' ∨ isAddrChar c = true

theorem isNetChar_facts (h : isNetChar c = true) :
    isWhitespace c = false ∧ lowerChar c ≠ 'n' ∧ c ≠ '<' := by
  have hlt : c.toNat < 128 := by
    rw [isNetChar, decide_eq_true_eq] at h
    rcases h with rfl | h
    · decide
    · have hw := isWordChar_of_addrChar h
      simp only [isWordChar, Bool.and_eq_true, decide_eq_true_eq] at hw
      omega
  exact forall_ascii (P := fun c => isNetChar c = true →
    isWhitespace c = false ∧ lowerChar c ≠ 'n' ∧ c ≠ '<') (by decide) hlt h

theorem mem_anyWords (h : isAnyWord s = true) : s ∈ anyWords.map String.toList := by
  obtain ⟨w, hw, hs⟩ := List.any_eq_true.mp h
  exact List.mem_map.mpr ⟨w, hw, of_decide_eq_true hs⟩

theorem notMem_anyWords (h : ∀ c ∈ s, lowerChar c ≠ 'n') : lower s ∉ anyWords.map String.toList := by
  have hwords : ∀ w ∈ anyWords.map String.toList, 'n' ∈ w := by decide
  intro hm
  obtain ⟨c, hc, hn⟩ := List.mem_map.mp (hwords _ hm)
  exact h c hc hn

/-- A text of the signs of addresses is neither a keyword nor a table. -/
theorem parse_of_netChars (h : ∀ c ∈ s, isNetChar c = true) : Address.parse s = Address.parseIp s := by
  have hhead : ¬(s.head? = some '<' ∧ s.getLast? = some '>') := by
    rintro ⟨hh, -⟩
    exact (isNetChar_facts (h _ (List.mem_of_head? hh))).2.2 rfl
  unfold Address.parse
  rw [trim_of_graphic fun c hc => (isNetChar_facts (h c hc)).1]
  dsimp only
  rw [if_neg (mt mem_anyWords (notMem_anyWords fun c hc => (isNetChar_facts (h c hc)).2.1)),
    if_neg hhead]

theorem isNetChar_display (ip : IpAddr) : ∀ c ∈ ip.display, isNetChar c = true :=
  fun c hc => decide_eq_true (.inr (ip.display_chars c hc))

theorem isNetChar_toDigits (n : Nat) : ∀ c ∈ Nat.toDigits 10 n, isNetChar c = true := by
  intro c hc
  have hdigit := isSome_toDigit_of_mem (b := 10) (by decide) (by decide) n hc
  exact decide_eq_true (.inr (isAddrChar_of_digit (by decide) hdigit))

theorem slash_notMem_display (ip : IpAddr) : '/' ∉ ip.display := by
  intro h
  have hslash := ip.display_chars _ h
  revert hslash
  decide

theorem parseIp_single (ip : IpAddr) : Address.parseIp ip.display = .ok (.single ip) := by
  unfold Address.parseIp
  rw [splitOnce_none (slash_notMem_display ip), ip.parse_display]

theorem parseIp_network (ip : IpAddr) (len : UInt8) :
    Address.parseIp (ip.display ++ '/' :: Nat.toDigits 10 len.toNat) = .ok (.network ip len) := by
  unfold Address.parseIp
  rw [splitOnce_append (slash_notMem_display ip)]
  dsimp only
  rw [ip.parse_display]
  dsimp only
  rw [parseUnsigned_toDigits len.toNat_lt]
  dsimp only
  rw [UInt8.ofNat_toNat]

theorem tableName_graphic (h : validateTableName name = .ok ()) :
    ∀ c ∈ name, isWhitespace c = false := by
  intro c hc
  have hword := (isWord_tableName h).2 c hc
  have hlt : c.toNat < 128 := by
    simp only [isWordChar, Bool.and_eq_true, decide_eq_true_eq] at hword
    omega
  exact forall_ascii (P := fun c => isWordChar c = true → isWhitespace c = false) (by decide) hlt
    hword

theorem parse_table (h : validateTableName name = .ok ()) :
    Address.parse ('<' :: name ++ ['>']) = .ok (.table name) := by
  have hgraphic : ∀ c ∈ '<' :: name ++ ['>'], isWhitespace c = false := by
    intro c hc
    simp only [List.cons_append, List.mem_cons, List.mem_append, List.not_mem_nil, or_false] at hc
    rcases hc with rfl | hc | rfl
    · decide
    · exact tableName_graphic h c hc
    · decide
  have hword : lower ('<' :: name ++ ['>']) ∉ anyWords.map String.toList := by
    have hwords : ∀ w ∈ anyWords.map String.toList, w.head? ≠ some '<' := by decide
    intro hm
    exact hwords _ hm rfl
  unfold Address.parse
  rw [trim_of_graphic hgraphic]
  dsimp only
  rw [if_neg (mt mem_anyWords hword), if_pos ⟨rfl, List.getLast?_concat⟩]
  simp only [List.cons_append, List.tail_cons, List.dropLast_concat, h]
  rfl

/-- A stored address is read back, where the name of a table is a valid one. -/
theorem Address.parse_display (a : Address)
    (h : ∀ name, a = .table name → validateTableName name = .ok ()) :
    Address.parse a.display = .ok a := by
  cases a with
  | any => rfl
  | single ip =>
    rw [Address.display, parse_of_netChars (isNetChar_display ip)]
    exact parseIp_single ip
  | network ip len =>
    have hchars : ∀ c ∈ ip.display ++ '/' :: Nat.toDigits 10 len.toNat, isNetChar c = true := by
      intro c hc
      rcases List.mem_append.mp hc with hc | hc
      · exact isNetChar_display ip c hc
      · rcases List.mem_cons.mp hc with rfl | hc
        · decide
        · exact isNetChar_toDigits _ c hc
    rw [Address.display, parse_of_netChars hchars]
    exact parseIp_network ip len
  | table name => exact parse_table (h name rfl)

theorem parseIp_no_table (h : Address.parseIp s = .ok a) (name : List Char) : a ≠ .table name := by
  unfold Address.parseIp at h
  split at h
  · split at h
    · cases h
    · split at h
      · cases h
      · cases h
        exact nofun
  · split at h
    · cases h
    · cases h
      exact nofun

/-- A table that is read has a valid name. -/
theorem Address.parse_table_valid (h : Address.parse s = .ok (.table name)) :
    validateTableName name = .ok () := by
  unfold Address.parse at h
  dsimp only at h
  split at h
  · cases h
  · split at h
    · obtain ⟨_, hvalid, h⟩ := except_bind_ok h
      cases h
      exact hvalid
    · exact absurd rfl (parseIp_no_table h name)

end AiFw.Pf
