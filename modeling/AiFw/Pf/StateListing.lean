import AiFw.Pf.NatColumns
import AiFw.Pf.StateParse

namespace AiFw.Pf
open AiFw.Lib AiFw.Net
set_option autoImplicit true

/-- A word of the listing has none of the signs that set hosts and arrows apart. -/
def ListingWord (w : List Char) : Prop :=
  w ≠ [] ∧ ∀ c ∈ w, isWhitespace c = false ∧ c ≠ '(' ∧ c ≠ '<' ∧ c ≠ '>'

/-- An endpoint of a state, with the text of its address. -/
structure StateHost where
  addr : IpAddr
  text : List Char
  port : UInt16
  written : IpAddr.parse text = some addr

def StateHost.print (h : StateHost) : List Char :=
  match h.addr with
  | .v4 _ => h.text ++ ':' :: decimal h.port.toNat
  | .v6 _ => h.text ++ '[' :: decimal h.port.toNat ++ [']']

/-- A detail line that says nothing of age, packets or bytes. -/
structure Silent (line : List Char) : Prop where
  indented : isIndented line = true
  oneLine : '\n' ∉ line ∧ '\r' ∉ line
  packets : ¬" pkts,".toList <:+: line
  bytes : ¬" bytes".toList <:+: line
  age : ∀ a b, line = a ++ "age ".toList ++ b → ',' ∉ b

/-- A state as pfctl lists it. A translated address may follow either host, and other detail lines
may stand above and below the line of the counters. -/
structure ListedState where
  iface : List Char
  proto : List Char
  left : StateHost
  leftNat : Option StateHost
  outward : Bool
  right : StateHost
  rightNat : Option StateHost
  gap : Nat
  state : List Char
  above : List (List Char)
  indent : List Char
  age : UInt64
  expires : UInt64
  packets : UInt64 × UInt64
  bytes : UInt64 × UInt64
  more : List Char
  below : List (List Char)
  ifaceWord : ListingWord iface
  protoWord : ListingWord proto
  stateWord : ListingWord state
  aboveSilent : ∀ line ∈ above, Silent line
  indented : isIndented indent = true ∧ ∀ c ∈ indent, c = ' ' ∨ c = '\t'
  moreLine : '\n' ∉ more ∧ '\r' ∉ more
  belowSilent : ∀ line ∈ below, Silent line

/-- `%.2u`. -/
def twoDigits (n : Nat) : List Char := if n < 10 then '0' :: decimal n else decimal n

def clock (secs : Nat) : List Char :=
  twoDigits (secs / 3600) ++ ':' :: twoDigits (secs / 60 % 60) ++ ':' :: twoDigits (secs % 60)

def pairText (p : UInt64 × UInt64) : List Char := decimal p.1.toNat ++ ':' :: decimal p.2.toNat

def natWord (h : Option StateHost) : List (List Char) :=
  h.toList.map fun h => '(' :: h.print ++ [')']

namespace ListedState

def arrow (s : ListedState) : List Char := if s.outward then "->".toList else "<-".toList

/-- The words of the header before the state. -/
def words (s : ListedState) : List (List Char) :=
  [s.iface, s.proto, s.left.print] ++ natWord s.leftNat ++ [s.arrow, s.right.print] ++
    natWord s.rightNat

def header (s : ListedState) : List Char :=
  (s.words.flatMap fun w => w ++ [' ']) ++ List.replicate s.gap ' ' ++ s.state

def counters (s : ListedState) : List Char :=
  "age ".toList ++ clock s.age.toNat ++ ", expires in ".toList ++ clock s.expires.toNat ++
    ", ".toList ++ pairText s.packets ++ " pkts, ".toList ++ pairText s.bytes ++ " bytes".toList

def lines (s : ListedState) : List (List Char) :=
  s.header :: s.above ++ (s.indent ++ s.counters ++ s.more) :: s.below

end ListedState

/-- The output of `pfctl -ss -vv`. -/
def printStates (listing : List ListedState) : List Char :=
  (listing.flatMap ListedState.lines).flatMap fun line => line ++ ['\n']

/-- What a state says of a connection. -/
structure Connection where
  protocol : List Char
  src : IpAddr × UInt16
  dst : IpAddr × UInt16
  state : List Char
  packets : UInt64 × UInt64
  bytes : UInt64 × UInt64
  ageSecs : UInt64

def PfState.connection (s : PfState) : Connection where
  protocol := s.protocol
  src := (s.srcAddr, s.srcPort)
  dst := (s.dstAddr, s.dstPort)
  state := s.state
  packets := (s.packetsIn, s.packetsOut)
  bytes := (s.bytesIn, s.bytesOut)
  ageSecs := s.ageSecs

/-- The host that has opened the connection stands where the arrow comes from. -/
def ListedState.connection (s : ListedState) : Connection where
  protocol := s.proto
  src := if s.outward then (s.left.addr, s.left.port) else (s.right.addr, s.right.port)
  dst := if s.outward then (s.right.addr, s.right.port) else (s.left.addr, s.left.port)
  state := s.state
  packets := s.packets
  bytes := s.bytes
  ageSecs := s.age

/-- The endpoint is one of IPv4, or one of IPv6 with port 0 whose text says the same without its
last group. -/
def StateHost.Readable (h : StateHost) : Prop :=
  match h.addr with
  | .v4 _ => True
  | .v6 _ => h.port = 0 ∧ ∃ front group, h.text = front ++ ':' :: group ∧ ':' ∉ group ∧
      IpAddr.parse front = some h.addr

/-- No translated address stands between the right host and the state, and the interface is not one
whose name begins what pfctl says of an empty table. -/
structure ListedState.Readable (s : ListedState) : Prop where
  iface : s.iface ≠ "No".toList
  rightNat : s.rightNat = none
  left : s.left.Readable
  right : s.right.Readable

/-- The signs of a numeral. -/
theorem decimal_chars (n : Nat) : ∀ c ∈ decimal n, (toDigit 10 c).isSome = true :=
  fun _ hc => isSome_toDigit_of_mem (by decide) (by decide) n hc

theorem decimal_graphic (n : Nat) : ∀ c ∈ decimal n, isWhitespace c = false := by
  intro c hc
  exact (isNetChar_facts (isNetChar_toDigits n c hc)).1

theorem listingWord_of_addrChars {w : List Char} (hne : w ≠ [])
    (h : ∀ c ∈ w, isAddrChar c = true ∨ c = '[' ∨ c = ']') : ListingWord w := by
  refine ⟨hne, ?_⟩
  intro c hc
  obtain hchar | rfl | rfl := h c hc
  · have hfacts := isNetChar_facts (decide_eq_true (.inr hchar))
    refine ⟨hfacts.1, ?_, hfacts.2.2, ?_⟩
    · rintro rfl
      exact absurd hchar (by decide)
    · rintro rfl
      exact absurd hchar (by decide)
  · decide
  · decide

theorem StateHost.print_word (h : StateHost) : ListingWord h.print := by
  have htext : ∀ c ∈ h.text, isAddrChar c = true := IpAddr.parse_chars h.written
  have hport (c : Char) (hc : c ∈ decimal h.port.toNat) : isAddrChar c = true :=
    isAddrChar_of_digit (by decide) (decimal_chars _ c hc)
  have hne := IpAddr.parse_ne_nil h.written
  unfold StateHost.print
  cases h.addr with
  | v4 a =>
    apply listingWord_of_addrChars (List.append_ne_nil_of_left_ne_nil hne _)
    intro c hc
    obtain hc | hc := List.mem_append.mp hc
    · exact .inl (htext c hc)
    · obtain rfl | hc := List.mem_cons.mp hc
      · exact .inl (by decide)
      · exact .inl (hport c hc)
  | v6 a =>
    apply listingWord_of_addrChars
    · rw [List.append_assoc]
      exact List.append_ne_nil_of_left_ne_nil hne _
    · intro c hc
      simp only [List.mem_append, List.mem_cons, List.not_mem_nil, or_false] at hc
      obtain (hc | rfl | hc) | rfl := hc
      · exact .inl (htext c hc)
      · exact .inr (.inl rfl)
      · exact .inl (hport c hc)
      · exact .inr (.inr rfl)

theorem exists_last {sep : Char} {s : List Char} (h : sep ∈ s) :
    ∃ front group, s = front ++ sep :: group ∧ sep ∉ group := by
  obtain ⟨a, b, hs, ha⟩ := List.eq_append_cons_of_mem (List.mem_reverse.mpr h)
  refine ⟨b.reverse, a.reverse, ?_, mt List.mem_reverse.mp ha⟩
  have hreverse := congrArg List.reverse hs
  rw [List.reverse_reverse] at hreverse
  rw [hreverse, List.reverse_append, List.reverse_cons, List.append_assoc]
  rfl

theorem trimMatches_addr {s : List Char} (h : ∀ c ∈ s, isAddrChar c = true) :
    trimMatches (fun c => c == '[' || c == ']') s = s := by
  apply trimMatches_of_none
  intro c hc
  rw [Bool.or_eq_false_iff, beq_eq_false_iff_ne, beq_eq_false_iff_ne]
  constructor
  · rintro rfl
    exact absurd (h _ hc) (by decide)
  · rintro rfl
    exact absurd (h _ hc) (by decide)

theorem decimal_notMem {c : Char} (h : toDigit 10 c = none) (n : Nat) : c ∉ decimal n := by
  intro hc
  have hdigit := decimal_chars n c hc
  rw [h] at hdigit
  cases hdigit

/-- No colon stands in what a port in brackets adds. -/
theorem colon_notMem_bracketed {s : List Char} (h : ':' ∉ s) (port : UInt16) :
    ':' ∉ s ++ '[' :: decimal port.toNat ++ [']'] := by
  simp only [List.mem_append, List.mem_cons, List.not_mem_nil, or_false]
  rintro ((hs | hs | hs) | hs)
  · exact h hs
  · cases hs
  · exact decimal_notMem (by decide) _ hs
  · cases hs

/-- A port in brackets is no numeral, whatever stands before it. -/
theorem parseUnsigned_bracketed (s : List Char) (port : UInt16) :
    parseUnsigned 65536 (s ++ '[' :: decimal port.toNat ++ [']']) = none := by
  cases hparse : parseUnsigned 65536 (s ++ '[' :: decimal port.toNat ++ [']']) with
  | none => rfl
  | some n =>
    have hchars := parseUnsigned_chars (c := '[') hparse
      (List.mem_append_left _ (List.mem_append_right _ List.mem_cons_self))
    exact absurd hchars (by decide)

/-- An endpoint is read as it is exactly if it is readable. -/
theorem parseAddrPort_print (h : StateHost) :
    parseAddrPort h.print = (h.addr, h.port) ↔ h.Readable := by
  have htext : ∀ c ∈ h.text, isAddrChar c = true := IpAddr.parse_chars h.written
  obtain ⟨addr, text, port, written⟩ := h
  unfold StateHost.print StateHost.Readable parseAddrPort
  dsimp only at htext ⊢
  cases addr with
  | v4 a =>
    refine iff_of_true ?_ trivial
    dsimp only
    rw [rsplitOnce_append (decimal_notMem (by decide) _)]
    dsimp only
    rw [trimMatches_addr htext, written, decimal, parseUnsigned_toDigits port.toNat_lt]
    simp only [Option.getD_some, UInt16.ofNat_toNat]
  | v6 a =>
    dsimp only
    by_cases hcolon : ':' ∈ text
    · obtain ⟨front, group, rfl, hgroup⟩ := exists_last hcolon
      have hfront : ∀ c ∈ front, isAddrChar c = true :=
        fun c hc => htext c (List.mem_append_left _ hc)
      rw [List.append_assoc front, List.cons_append, List.append_assoc front, List.cons_append,
        rsplitOnce_append (colon_notMem_bracketed hgroup port)]
      dsimp only
      rw [trimMatches_addr hfront, parseUnsigned_bracketed]
      constructor
      · intro hread
        obtain ⟨haddr, hport⟩ := Prod.mk.inj hread
        refine ⟨hport.symm, front, group, rfl, hgroup, ?_⟩
        cases hparse : IpAddr.parse front with
        | none =>
          rw [hparse] at haddr
          cases haddr
        | some ip =>
          rw [hparse] at haddr
          exact congrArg some haddr
      · rintro ⟨rfl, front', group', htext', hgroup', hparse⟩
        have hsplit := congrArg (rsplitOnce ':') htext'
        rw [rsplitOnce_append hgroup, rsplitOnce_append hgroup'] at hsplit
        cases hsplit
        rw [hparse]
        rfl
    · rw [rsplitOnce_none (colon_notMem_bracketed hcolon port)]
      refine iff_of_false (fun h => ?_) ?_
      · have haddr := (Prod.mk.inj h).1
        cases haddr
      · rintro ⟨-, front, group, rfl, -, -⟩
        exact hcolon (List.mem_append_right _ List.mem_cons_self)

/-- A word that is no arrow. -/
structure HeaderWord (w : List Char) : Prop where
  nonempty : w ≠ []
  graphic : ∀ c ∈ w, isWhitespace c = false
  noArrow : isArrow w = false

theorem ListingWord.header (h : ListingWord w) : HeaderWord w := by
  refine ⟨h.1, fun c hc => (h.2 c hc).1, ?_⟩
  rw [isArrow, Bool.or_eq_false_iff, decide_eq_false_iff_not, decide_eq_false_iff_not]
  constructor
  · rintro rfl
    exact (h.2 '>' (by decide)).2.2.2 rfl
  · rintro rfl
    exact (h.2 '<' (by decide)).2.2.1 rfl

theorem natWord_header {nat : Option StateHost} : ∀ w ∈ natWord nat, HeaderWord w := by
  intro w hw
  obtain ⟨h, -, rfl⟩ := List.mem_map.mp hw
  have hword := h.print_word
  refine ⟨List.cons_ne_nil _ _, ?_, ?_⟩
  · intro c hc
    simp only [List.cons_append, List.mem_cons, List.mem_append, List.not_mem_nil, or_false] at hc
    obtain rfl | hc | rfl := hc
    · decide
    · exact (hword.2 c hc).1
    · decide
  · rw [isArrow, Bool.or_eq_false_iff, decide_eq_false_iff_not, decide_eq_false_iff_not]
    exact ⟨fun h => absurd (List.cons.inj h).1 (by decide),
      fun h => absurd (List.cons.inj h).1 (by decide)⟩

namespace ListedState

/-- The words before the arrow. -/
def front (s : ListedState) : List (List Char) :=
  [s.iface, s.proto, s.left.print] ++ natWord s.leftNat

theorem front_header (s : ListedState) : ∀ w ∈ s.front, HeaderWord w := by
  intro w hw
  obtain hw | hw := List.mem_append.mp hw
  · simp only [List.mem_cons, List.not_mem_nil, or_false] at hw
    obtain rfl | rfl | rfl := hw
    · exact s.ifaceWord.header
    · exact s.protoWord.header
    · exact s.left.print_word.header
  · exact natWord_header w hw

theorem words_eq (s : ListedState) :
    s.words = s.front ++ s.arrow :: s.right.print :: natWord s.rightNat := by
  unfold words front
  rw [List.append_assoc]
  rfl

theorem isArrow_arrow (s : ListedState) : isArrow s.arrow = true := by
  unfold arrow
  cases s.outward with
  | true => rfl
  | false => rfl

theorem arrow_graphic (s : ListedState) : s.arrow ≠ [] ∧ ∀ c ∈ s.arrow, isWhitespace c = false := by
  unfold arrow
  cases s.outward with
  | true => exact ⟨by decide, forall_mem_of_all (by decide)⟩
  | false => exact ⟨by decide, forall_mem_of_all (by decide)⟩

theorem words_graphic (s : ListedState) :
    ∀ w ∈ s.words, w ≠ [] ∧ ∀ c ∈ w, isWhitespace c = false := by
  intro w hw
  rw [words_eq] at hw
  obtain hw | hw := List.mem_append.mp hw
  · exact ⟨(s.front_header w hw).nonempty, (s.front_header w hw).graphic⟩
  · obtain rfl | hw := List.mem_cons.mp hw
    · exact s.arrow_graphic
    · obtain rfl | hw := List.mem_cons.mp hw
      · exact ⟨s.right.print_word.1, s.right.print_word.header.graphic⟩
      · exact ⟨(natWord_header w hw).nonempty, (natWord_header w hw).graphic⟩

theorem split_header (s : ListedState) : splitWhitespace s.header = s.words ++ [s.state] := by
  unfold header
  rw [List.append_assoc, splitWhitespace_words s.words_graphic, splitWhitespace_blanks,
    splitWhitespace_word s.stateWord.header.graphic s.stateWord.1]

/-- The state that the header begins. What follows the right host is taken for the state. -/
def begun (s : ListedState) : PfState where
  id := 0
  protocol := s.proto
  srcAddr := (parseAddrPort (if s.outward then s.left.print else s.right.print)).1
  srcPort := (parseAddrPort (if s.outward then s.left.print else s.right.print)).2
  dstAddr := (parseAddrPort (if s.outward then s.right.print else s.left.print)).1
  dstPort := (parseAddrPort (if s.outward then s.right.print else s.left.print)).2
  state := (natWord s.rightNat ++ [s.state]).headD []
  packetsIn := 0
  packetsOut := 0
  bytesIn := 0
  bytesOut := 0
  ageSecs := 0
  iface := some s.iface |>.filter ifaceTag
  rtable := none

theorem headerState_eq (s : ListedState) : headerState (s.words ++ [s.state]) = some s.begun := by
  obtain ⟨after, tail, htail⟩ : ∃ after tail, natWord s.rightNat ++ [s.state] = after :: tail :=
    List.exists_cons_of_ne_nil (List.append_ne_nil_of_right_ne_nil _ (List.cons_ne_nil _ _))
  have hparts : s.words ++ [s.state] = s.front ++ s.arrow :: s.right.print :: after :: tail := by
    rw [words_eq, List.append_assoc, List.cons_append, List.cons_append, htail]
  have hfront : s.front = s.iface :: s.proto :: s.left.print :: natWord s.leftNat := rfl
  have hindex : (s.front ++ s.arrow :: s.right.print :: after :: tail).findIdx? isArrow =
      some s.front.length :=
    findIdx?_append_cons (fun w hw => (s.front_header w hw).noArrow) s.isArrow_arrow
  have hlength : (s.front ++ s.arrow :: s.right.print :: after :: tail).length =
      s.front.length + (tail.length + 3) := by
    rw [List.length_append]
    rfl
  have hfrontLength : 3 ≤ s.front.length := by
    rw [hfront]
    simp only [List.length_cons]
    omega
  have hat (k : Nat) (d : List Char) :
      (s.front ++ s.arrow :: s.right.print :: after :: tail).getD (s.front.length + k) d =
        (s.arrow :: s.right.print :: after :: tail).getD k d := by
    rw [List.getD_append_right _ _ _ _ (Nat.le_add_right _ _), Nat.add_sub_cancel_left]
  have harrow : s.arrow = "->".toList ↔ s.outward = true := by
    unfold arrow
    cases s.outward with
    | true => exact iff_of_true rfl rfl
    | false => exact iff_of_false (by decide) Bool.false_ne_true
  have hsrc : (if s.arrow = "->".toList then (s.left.print, s.right.print)
      else (s.right.print, s.left.print)) =
      (if s.outward then s.left.print else s.right.print,
        if s.outward then s.right.print else s.left.print) := by
    simp only [harrow]
    cases s.outward with
    | true => rfl
    | false => rfl
  unfold headerState begun
  rw [hparts, hindex, hlength, if_neg (by omega)]
  dsimp only
  rw [if_neg (by omega), hat 1, hat 2, ← Nat.add_zero s.front.length, hat 0, htail, hfront]
  simp only [List.cons_append, List.getD_cons_succ, List.getD_cons_zero, List.head?_cons,
    List.headD_cons, hsrc]

end ListedState

theorem readDetail_silent (h : Silent line) (p : PfState) : readDetail line p = p := by
  obtain ⟨x, y, hline⟩ := infix_of_trim line
  have hpackets : ¬" pkts,".toList <:+: trim line := fun hin => h.packets (hin.trans (infix_of_trim line))
  have hbytes : ¬" bytes".toList <:+: trim line := fun hin => h.bytes (hin.trans (infix_of_trim line))
  have hkeepPackets : readPackets (trim line) p = p := by rw [readPackets, splitAround_none hpackets]
  have hkeepBytes : readBytes (trim line) p = p := by rw [readBytes, splitAround_none hbytes]
  unfold readDetail
  dsimp only
  rw [hkeepPackets, hkeepBytes, readAge]
  cases hage : splitAround "age ".toList (trim line) with
  | none => rfl
  | some parts =>
    obtain ⟨a, b⟩ := parts
    have hcomma : ',' ∉ b := by
      intro hin
      apply h.age (x ++ a) (b ++ y) _ (List.mem_append_left y hin)
      rw [← hline, splitAround_eq hage]
      simp only [List.append_assoc]
    dsimp only
    rw [splitOnce_none hcomma]

theorem not_no_of_indented (h : isIndented line = true) :
    line ≠ [] ∧ "No ".toList.isPrefixOf line = false := by
  cases line with
  | nil => cases h
  | cons c cs =>
    refine ⟨List.cons_ne_nil c cs, ?_⟩
    rw [← Bool.not_eq_true, List.isPrefixOf_iff_prefix]
    rintro ⟨rest, hrest⟩
    rw [← (List.cons.inj hrest).1] at h
    exact Bool.false_ne_true h

theorem readLine_detail (h : isIndented line = true) (acc : Reading) :
    readLine acc line = (acc.1, acc.2.map (readDetail line)) := by
  obtain ⟨hne, hno⟩ := not_no_of_indented h
  unfold readLine
  rw [hno, if_neg (by rintro (h | h); exacts [hne h, Bool.false_ne_true h]), if_pos h]

theorem readLine_silent (h : Silent line) (acc : Reading) : readLine acc line = acc := by
  rw [readLine_detail h.indented]
  have hmap : acc.2.map (readDetail line) = acc.2 := by
    cases acc.2 with
    | none => rfl
    | some p => exact congrArg some (readDetail_silent h p)
  rw [hmap]

theorem foldl_silent {ls : List (List Char)} (h : ∀ l ∈ ls, Silent l) (acc : Reading) :
    ls.foldl readLine acc = acc := by
  induction ls with
  | nil => rfl
  | cons l ls ih =>
    rw [List.forall_mem_cons] at h
    rw [List.foldl_cons, readLine_silent h.1, ih h.2]

theorem parseU64_decimal (n : UInt64) : parseU64 (decimal n.toNat) = n := by
  unfold parseU64 decimal
  rw [parseUnsigned_toDigits n.toNat_lt, Option.getD_some, UInt64.ofNat_toNat]

theorem parseUnsigned_unsigned {s : List Char} (h : s.head? ≠ some '+') :
    parseUnsigned bound s =
      if s = [] then none
      else
        match s.mapM (toDigit 10) with
        | none => none
        | some ds => if digitsValue 10 ds < bound then some (digitsValue 10 ds) else none := by
  unfold parseUnsigned
  split
  · exact absurd rfl h
  · rfl

/-- A zero before a numeral changes nothing. -/
theorem parseUnsigned_zero {s : List Char} (h : parseUnsigned bound s = some n)
    (hplus : s.head? ≠ some '+') : parseUnsigned bound ('0' :: s) = some n := by
  have hzero : ('0' :: s).head? ≠ some '+' := by
    rw [List.head?_cons]
    decide
  rw [parseUnsigned_unsigned hplus] at h
  rw [parseUnsigned_unsigned hzero, if_neg (List.cons_ne_nil _ _)]
  split at h
  · cases h
  · cases hds : s.mapM (toDigit 10) with
    | none =>
      rw [hds] at h
      cases h
    | some ds =>
      rw [hds] at h
      have hmap : ('0' :: s).mapM (toDigit 10) = some (0 :: ds) := by
        rw [List.mapM_cons, hds]
        rfl
      rw [hmap]
      exact h

theorem parseU64_twoDigits {n : Nat} (h : n < 2 ^ 64) :
    parseU64 (twoDigits n) = UInt64.ofNat n := by
  have hparse : parseUnsigned (2 ^ 64) (decimal n) = some n := parseUnsigned_toDigits h
  unfold parseU64 twoDigits
  split
  · have hplus : (decimal n).head? ≠ some '+' := by
      intro hhead
      exact absurd (decimal_chars n '+' (List.mem_of_head? hhead)) (by decide)
    rw [parseUnsigned_zero hparse hplus, Option.getD_some]
  · rw [hparse, Option.getD_some]

theorem notMem_twoDigits {c : Char} (h : toDigit 10 c = none) (n : Nat) : c ∉ twoDigits n := by
  unfold twoDigits
  split
  · rw [List.mem_cons, not_or]
    refine ⟨?_, decimal_notMem h n⟩
    rintro rfl
    exact absurd h (by decide)
  · exact decimal_notMem h n

theorem notMem_clock {c : Char} (h : toDigit 10 c = none) (hcolon : c ≠ ':') (n : Nat) :
    c ∉ clock n := by
  unfold clock
  simp only [List.mem_append, List.mem_cons]
  rintro ((hc | hc | hc) | hc | hc)
  · exact notMem_twoDigits h _ hc
  · exact hcolon hc
  · exact notMem_twoDigits h _ hc
  · exact hcolon hc
  · exact notMem_twoDigits h _ hc

theorem notMem_pairText {c : Char} (h : toDigit 10 c = none) (hcolon : c ≠ ':')
    (p : UInt64 × UInt64) : c ∉ pairText p := by
  unfold pairText
  rw [List.mem_append, List.mem_cons]
  rintro (hc | hc | hc)
  · exact decimal_notMem h _ hc
  · exact hcolon hc
  · exact decimal_notMem h _ hc

theorem splitOnce_pairText (p : UInt64 × UInt64) :
    splitOnce ':' (pairText p) = some (decimal p.1.toNat, decimal p.2.toNat) :=
  splitOnce_append (decimal_notMem (by decide) _)

theorem trim_decimal (n : Nat) : trim (decimal n) = decimal n := trim_of_graphic (decimal_graphic n)

theorem trimCommas_pairText (p : UInt64 × UInt64) :
    trimCommas (trim (pairText p)) = pairText p := by
  have hgraphic : ∀ c ∈ pairText p, isWhitespace c = false := by
    intro c hc
    unfold pairText at hc
    obtain hc | hc := List.mem_append.mp hc
    · exact decimal_graphic _ c hc
    · obtain rfl | hc := List.mem_cons.mp hc
      · decide
      · exact decimal_graphic _ c hc
  rw [trim_of_graphic hgraphic]
  cases htext : pairText p with
  | nil => rfl
  | cons c cs =>
    have hcomma : c ≠ ',' := by
      rintro rfl
      exact notMem_pairText (by decide) (by decide) p (htext ▸ List.mem_cons_self)
    unfold trimCommas
    split
    · next heq => exact absurd (List.cons.inj heq).1 hcomma
    · rfl

theorem splitOn_clock (n : Nat) :
    splitOn ':' (clock n) =
      [twoDigits (n / 3600), twoDigits (n / 60 % 60), twoDigits (n % 60)] := by
  have hcolon (k : Nat) : ':' ∉ twoDigits k := notMem_twoDigits (by decide) k
  have hclock : clock n = [':'].intercalate
      [twoDigits (n / 3600), twoDigits (n / 60 % 60), twoDigits (n % 60)] := by
    simp only [clock, List.intercalate, List.intersperse, List.flatten_cons, List.flatten_nil,
      List.append_nil, List.append_assoc, List.nil_append, List.cons_append]
  rw [hclock]
  apply splitOn_intercalate _ (List.cons_ne_nil _ _)
  intro p hp
  simp only [List.mem_cons, List.not_mem_nil, or_false] at hp
  obtain rfl | rfl | rfl := hp
  · exact hcolon _
  · exact hcolon _
  · exact hcolon _

theorem seconds_eq (n : UInt64) :
    UInt64.ofNat (n.toNat / 3600) * 3600 + UInt64.ofNat (n.toNat / 60 % 60) * 60 +
      UInt64.ofNat (n.toNat % 60) = n := by
  have hsum : n.toNat / 3600 * 3600 + n.toNat / 60 % 60 * 60 + n.toNat % 60 = n.toNat := by omega
  have hcast := congrArg UInt64.ofNat hsum
  rwa [UInt64.ofNat_add, UInt64.ofNat_add, UInt64.ofNat_mul, UInt64.ofNat_mul,
    UInt64.ofNat_toNat] at hcast

namespace ListedState

/-- What stands before the packets. -/
def lead (s : ListedState) : List Char :=
  "age ".toList ++ clock s.age.toNat ++ ", expires in ".toList ++ clock s.expires.toNat

theorem counters_eq (s : ListedState) (rest : List Char) :
    s.counters ++ rest = s.lead ++ (", ".toList ++ (pairText s.packets ++ (" pkts,".toList ++
      (" ".toList ++ (pairText s.bytes ++ (" bytes".toList ++ rest)))))) := by
  have hkey : " pkts, ".toList = " pkts,".toList ++ " ".toList := by decide
  unfold counters lead
  rw [hkey]
  simp only [List.append_assoc]

theorem notMem_lead (s : ListedState) (h : toDigit 10 c = none) (hcolon : c ≠ ':')
    (hage : c ∉ "age ".toList) (hexpires : c ∉ ", expires in ".toList) : c ∉ s.lead := by
  unfold lead
  simp only [List.mem_append, not_or]
  exact ⟨⟨⟨hage, notMem_clock h hcolon _⟩, hexpires⟩, notMem_clock h hcolon _⟩

theorem afterLast_pair (front : List Char) (p : UInt64 × UInt64) :
    afterLast ", ".toList (front ++ (", ".toList ++ pairText p)) = pairText p := by
  have hcomma : ',' ∉ pairText p := notMem_pairText (by decide) (by decide) p
  rw [← List.append_assoc]
  exact afterLast_append [] [' '] hcomma (by decide)

theorem readPackets_counters (s : ListedState) (rest : List Char) (p : PfState) :
    readPackets (s.counters ++ rest) p =
      { p with packetsIn := s.packets.1, packetsOut := s.packets.2 } := by
  have hmark : 'k' ∉ s.lead ++ (", ".toList ++ pairText s.packets) := by
    simp only [List.mem_append, not_or]
    exact ⟨s.notMem_lead (by decide) (by decide) (by decide) (by decide), by decide,
      notMem_pairText (by decide) (by decide) _⟩
  have hsplit : splitAround " pkts,".toList (s.counters ++ rest) =
      some (s.lead ++ (", ".toList ++ pairText s.packets),
        " ".toList ++ (pairText s.bytes ++ (" bytes".toList ++ rest))) := by
    rw [counters_eq, ← splitAround_append [' ', 'p'] ['t', 's', ','] (by decide) hmark]
    simp only [List.append_assoc]
    rfl
  unfold readPackets
  rw [hsplit]
  dsimp only
  rw [afterLast_pair, trimCommas_pairText, splitOnce_pairText]
  dsimp only
  rw [trim_decimal, trim_decimal, parseU64_decimal, parseU64_decimal]

theorem readBytes_counters (s : ListedState) (rest : List Char) (p : PfState) :
    readBytes (s.counters ++ rest) p =
      { p with bytesIn := s.bytes.1, bytesOut := s.bytes.2 } := by
  have hmark : 'b' ∉ s.lead ++ (", ".toList ++ (pairText s.packets ++ (" pkts,".toList ++
      (" ".toList ++ pairText s.bytes)))) := by
    simp only [List.mem_append, not_or]
    exact ⟨s.notMem_lead (by decide) (by decide) (by decide) (by decide), by decide,
      notMem_pairText (by decide) (by decide) _, by decide, by decide,
      notMem_pairText (by decide) (by decide) _⟩
  have hsplit : splitAround " bytes".toList (s.counters ++ rest) =
      some (s.lead ++ (", ".toList ++ (pairText s.packets ++ (" pkts,".toList ++
        (" ".toList ++ pairText s.bytes)))), rest) := by
    rw [counters_eq, ← splitAround_append [' '] "ytes".toList (by decide) hmark]
    simp only [List.append_assoc]
    rfl
  have hpair : afterLast ", ".toList (s.lead ++ (", ".toList ++ (pairText s.packets ++
      (" pkts,".toList ++ (" ".toList ++ pairText s.bytes))))) = pairText s.bytes := by
    have hlast := afterLast_pair (s.lead ++ (", ".toList ++ (pairText s.packets ++ " pkts".toList)))
      s.bytes
    simp only [List.append_assoc] at hlast
    exact hlast
  unfold readBytes
  rw [hsplit]
  dsimp only
  rw [hpair, splitOnce_pairText]
  dsimp only
  rw [trim_decimal, trim_decimal, parseU64_decimal, parseU64_decimal]

theorem readAge_counters (s : ListedState) (rest : List Char) (p : PfState) :
    readAge (s.counters ++ rest) p = { p with ageSecs := s.age } := by
  obtain ⟨more, hmore⟩ : ∃ more, s.counters ++ rest =
      "age ".toList ++ (clock s.age.toNat ++ ',' :: more) := by
    rw [counters_eq, lead]
    simp only [List.append_assoc]
    exact ⟨_, rfl⟩
  have hsplit : splitAround "age ".toList (s.counters ++ rest) =
      some ([], clock s.age.toNat ++ ',' :: more) := by
    rw [hmore, ← splitAround_append (a := []) (d := 'a') [] "ge ".toList List.not_mem_nil
      List.not_mem_nil]
    rfl
  have hlt := s.age.toNat_lt
  unfold readAge
  rw [hsplit]
  dsimp only
  rw [splitOnce_append (notMem_clock (by decide) (by decide) _)]
  dsimp only
  rw [splitOn_clock]
  dsimp only
  rw [parseU64_twoDigits (by omega), parseU64_twoDigits (by omega), parseU64_twoDigits (by omega),
    seconds_eq]

/-- The state with its counters. -/
def entry (s : ListedState) : PfState :=
  { s.begun with
    packetsIn := s.packets.1
    packetsOut := s.packets.2
    bytesIn := s.bytes.1
    bytesOut := s.bytes.2
    ageSecs := s.age }

theorem readDetail_counters (s : ListedState) :
    readDetail (s.indent ++ s.counters ++ s.more) s.begun = s.entry := by
  have hindent : ∀ c ∈ s.indent, isWhitespace c = true := by
    intro c hc
    obtain rfl | rfl := s.indented.2 c hc
    · decide
    · decide
  have hlast : s.counters.getLast? = some 's' := by
    unfold counters
    rw [List.getLast?_append]
    rfl
  have hne : s.counters ≠ [] := List.ne_nil_of_mem (List.mem_of_getLast? hlast)
  have hfirst : s.counters.head? = some 'a' := by
    have heq := congrArg List.head? (s.counters_eq [])
    rw [List.append_nil] at heq
    exact heq
  obtain ⟨rest, htrim⟩ : ∃ rest, trim (s.indent ++ s.counters ++ s.more) = s.counters ++ rest :=
    trim_around hindent (hfirst ▸ forall_mem_option_of_all (by decide))
      (hlast ▸ forall_mem_option_of_all (by decide)) hne
  unfold readDetail
  rw [htrim]
  dsimp only
  rw [readPackets_counters, readBytes_counters, readAge_counters]
  rfl

theorem header_eq (s : ListedState) : ∃ rest, s.header = s.iface ++ ' ' :: rest := by
  unfold header words
  simp only [List.cons_append, List.flatMap_cons, List.append_assoc, List.nil_append]
  exact ⟨_, rfl⟩

theorem noPrefix_iff (s : ListedState) :
    "No ".toList.isPrefixOf s.header = true ↔ s.iface = "No".toList := by
  obtain ⟨rest, hrest⟩ := s.header_eq
  have hspace : ' ' ∉ s.iface := fun hin => absurd (s.ifaceWord.2 _ hin).1 (by decide)
  rw [List.isPrefixOf_iff_prefix, hrest]
  constructor
  · rintro ⟨more, hmore⟩
    have hsplit := congrArg (splitOnce ' ') hmore
    rw [splitOnce_append hspace] at hsplit
    exact (Prod.mk.inj (Option.some.inj hsplit)).1.symm
  · intro hno
    rw [hno]
    exact ⟨rest, rfl⟩

theorem header_start (s : ListedState) : s.header ≠ [] ∧ isIndented s.header = false := by
  obtain ⟨rest, hrest⟩ := s.header_eq
  rw [hrest]
  obtain ⟨c, cs, hiface⟩ := List.exists_cons_of_ne_nil s.ifaceWord.1
  have hc := (s.ifaceWord.2 c (hiface ▸ List.mem_cons_self)).1
  rw [hiface]
  refine ⟨List.cons_ne_nil _ _, ?_⟩
  rw [List.cons_append, isIndented, List.head?_cons, Bool.or_eq_false_iff,
    decide_eq_false_iff_not, decide_eq_false_iff_not]
  constructor
  · rintro ⟨⟩
    exact absurd hc (by decide)
  · rintro ⟨⟩
    exact absurd hc (by decide)

theorem indented_counters (s : ListedState) :
    isIndented (s.indent ++ s.counters ++ s.more) = true := by
  have hindented := s.indented.1
  cases hindent : s.indent with
  | nil =>
    rw [hindent] at hindented
    cases hindented
  | cons c cs =>
    rw [hindent] at hindented
    exact hindented

/-- The lines of a state begin it and give it its counters. -/
theorem foldl_lines_of_named (s : ListedState) (h : s.iface ≠ "No".toList) (acc : Reading) :
    s.lines.foldl readLine acc = (acc.states, some s.entry) := by
  have hheader : readLine acc s.header = (acc.states, some s.begun) := by
    have hskip : ¬(s.header = [] ∨ "No ".toList.isPrefixOf s.header = true) := by
      rintro (hempty | hno)
      · exact s.header_start.1 hempty
      · exact h (s.noPrefix_iff.mp hno)
    unfold readLine
    rw [if_neg hskip, s.header_start.2, if_neg Bool.false_ne_true, s.split_header, s.headerState_eq]
    rfl
  unfold lines
  rw [List.cons_append, List.foldl_cons, List.foldl_append, List.foldl_cons, hheader,
    foldl_silent s.aboveSilent, readLine_detail s.indented_counters, foldl_silent s.belowSilent]
  dsimp only
  rw [Option.map_some, s.readDetail_counters]

/-- What pfctl says of an empty table is not the header of a state, but the lines below are read. -/
theorem foldl_lines_of_no (s : ListedState) (h : s.iface = "No".toList) (acc : Reading) :
    s.lines.foldl readLine acc =
      (acc.1, acc.2.map (readDetail (s.indent ++ s.counters ++ s.more))) := by
  have hheader : readLine acc s.header = acc := if_pos (.inr (s.noPrefix_iff.mpr h))
  unfold lines
  rw [List.cons_append, List.foldl_cons, List.foldl_append, List.foldl_cons, hheader,
    foldl_silent s.aboveSilent, readLine_detail s.indented_counters, foldl_silent s.belowSilent]

theorem notMem_header (s : ListedState) (hc : isWhitespace c = true) (hspace : c ≠ ' ') :
    c ∉ s.header := by
  unfold header
  simp only [List.mem_append, List.mem_flatMap, List.mem_singleton, List.mem_replicate]
  rintro ((⟨w, hw, hin | rfl⟩ | hin) | hin)
  · rw [(s.words_graphic w hw).2 c hin] at hc
    cases hc
  · exact hspace rfl
  · exact hspace hin.2
  · rw [s.stateWord.header.graphic c hin] at hc
    cases hc

theorem notMem_counters (s : ListedState) (hdigit : toDigit 10 c = none) (hcolon : c ≠ ':')
    (hletters : ∀ t ∈ ["age ", ", expires in ", ", ", " pkts, ", " bytes"], c ∉ t.toList) :
    c ∉ s.counters := by
  simp only [List.forall_mem_cons] at hletters
  obtain ⟨hage, hexpires, hcomma, hpkts, hbytes, -⟩ := hletters
  unfold counters
  simp only [List.mem_append, not_or]
  exact ⟨⟨⟨⟨⟨⟨⟨⟨hage, notMem_clock hdigit hcolon _⟩, hexpires⟩, notMem_clock hdigit hcolon _⟩,
    hcomma⟩, notMem_pairText hdigit hcolon _⟩, hpkts⟩, notMem_pairText hdigit hcolon _⟩, hbytes⟩

theorem lines_single (s : ListedState) : ∀ l ∈ s.lines, '\n' ∉ l ∧ '\r' ∉ l := by
  have hindent (c : Char) (hc : c ∉ [' ', '\t']) : c ∉ s.indent := by
    intro hin
    rw [List.mem_cons, List.mem_singleton] at hc
    exact hc (s.indented.2 c hin)
  intro l hl
  rw [lines, List.cons_append, List.mem_cons, List.mem_append, List.mem_cons] at hl
  obtain rfl | hl | rfl | hl := hl
  · exact ⟨s.notMem_header (by decide) (by decide), s.notMem_header (by decide) (by decide)⟩
  · exact (s.aboveSilent l hl).oneLine
  · simp only [List.mem_append, not_or]
    exact ⟨⟨⟨hindent _ (by decide), s.notMem_counters (by decide) (by decide) (by decide)⟩,
      s.moreLine.1⟩, ⟨hindent _ (by decide), s.notMem_counters (by decide) (by decide) (by decide)⟩,
      s.moreLine.2⟩
  · exact (s.belowSilent l hl).oneLine

/-- The name of the interface is not taken for what pfctl says of an empty table. -/
def isNamed (s : ListedState) : Bool := s.iface ≠ "No".toList

theorem states_lines (s : ListedState) (acc : Reading) :
    (s.lines.foldl readLine acc).states.length =
      acc.states.length + if s.isNamed then 1 else 0 := by
  by_cases hno : s.iface = "No".toList
  · have hunnamed : s.isNamed = false := decide_eq_false (not_not.mpr hno)
    rw [s.foldl_lines_of_no hno, hunnamed, Reading.states, Reading.states, List.length_append,
      List.length_append]
    cases acc.2 with
    | none => rfl
    | some p => rfl
  · have hnamed : s.isNamed = true := decide_eq_true hno
    rw [s.foldl_lines_of_named hno, hnamed, Reading.states, List.length_append]
    rfl

end ListedState

def readState (acc : Reading) (s : ListedState) : Reading := s.lines.foldl readLine acc

theorem getStates_print (listing : List ListedState) :
    getStates (printStates listing) = Reading.states (listing.foldl readState ([], none)) := by
  have hlines : ∀ l ∈ listing.flatMap ListedState.lines, '\n' ∉ l ∧ '\r' ∉ l := by
    intro l hl
    obtain ⟨s, -, hs⟩ := List.mem_flatMap.mp hl
    exact s.lines_single l hs
  unfold getStates printStates
  rw [Geo.lines_ended hlines, List.foldl_flatMap]
  rfl

/-- As many states are read as have an interface whose name is not `No`. -/
theorem length_states (listing : List ListedState) (acc : Reading) :
    (listing.foldl readState acc).states.length =
      acc.states.length + (listing.filter ListedState.isNamed).length := by
  induction listing generalizing acc with
  | nil => rfl
  | cons s listing ih =>
    rw [List.foldl_cons, ih, readState, s.states_lines, List.filter_cons]
    cases s.isNamed with
    | true =>
      simp only [if_true, List.length_cons]
      omega
    | false => rfl

/-- If all have another name, each state is read, in order. -/
theorem states_of_named {listing : List ListedState} (h : ∀ s ∈ listing, s.iface ≠ "No".toList)
    (acc : Reading) :
    (listing.foldl readState acc).states = acc.states ++ listing.map ListedState.entry := by
  induction listing generalizing acc with
  | nil => exact (List.append_nil _).symm
  | cons s listing ih =>
    rw [List.forall_mem_cons] at h
    rw [List.foldl_cons, readState, s.foldl_lines_of_named h.1, ih h.2, Reading.states, List.map_cons,
      Option.toList_some, List.append_assoc, List.singleton_append]

theorem natWord_state_iff (s : ListedState) :
    (natWord s.rightNat ++ [s.state]).headD [] = s.state ↔ s.rightNat = none := by
  cases s.rightNat with
  | none => exact iff_of_true rfl rfl
  | some h =>
    refine iff_of_false ?_ (Option.some_ne_none h)
    intro heq
    have hparen : '(' ∈ s.state := by
      rw [← heq]
      exact List.mem_cons_self
    exact (s.stateWord.2 _ hparen).2.1 rfl

theorem entry_connection_iff (s : ListedState) :
    s.entry.connection = s.connection ↔
      s.rightNat = none ∧ s.left.Readable ∧ s.right.Readable := by
  rw [← natWord_state_iff, ← parseAddrPort_print, ← parseAddrPort_print]
  unfold ListedState.entry ListedState.begun PfState.connection ListedState.connection
  rw [Connection.mk.injEq]
  dsimp only
  cases s.outward with
  | true =>
    simp only [if_true]
    constructor
    · rintro ⟨-, hsrc, hdst, hstate, -⟩
      exact ⟨hstate, hsrc, hdst⟩
    · rintro ⟨hstate, hleft, hright⟩
      exact ⟨trivial, hleft, hright, hstate, trivial, trivial, trivial⟩
  | false =>
    simp only [Bool.false_eq_true, if_false]
    constructor
    · rintro ⟨-, hsrc, hdst, hstate, -⟩
      exact ⟨hstate, hdst, hsrc⟩
    · rintro ⟨hstate, hleft, hright⟩
      exact ⟨trivial, hright, hleft, hstate, trivial, trivial, trivial⟩

theorem readable_of_decoded {listing : List ListedState}
    (h : (getStates (printStates listing)).map PfState.connection =
      listing.map ListedState.connection) : ∀ s ∈ listing, s.Readable := by
  rw [getStates_print] at h
  have hlength := congrArg List.length h
  rw [List.length_map, List.length_map, length_states] at hlength
  have hall : ∀ s ∈ listing, s.isNamed = true :=
    List.length_filter_eq_length_iff.mp ((Nat.zero_add _).symm.trans hlength)
  have hnamed : ∀ s ∈ listing, s.iface ≠ "No".toList := fun s hs => of_decide_eq_true (hall s hs)
  rw [states_of_named hnamed, Reading.states, List.map_append, List.map_map] at h
  intro s hs
  obtain ⟨hright, hhosts⟩ := (entry_connection_iff s).mp (List.map_inj_left.mp h s hs)
  exact ⟨hnamed s hs, hright, hhosts.1, hhosts.2⟩

/-- A listing is decoded to the connections it shows exactly if each of its states is readable. -/
theorem states_decoded_iff (listing : List ListedState) :
    (getStates (printStates listing)).map PfState.connection =
        listing.map ListedState.connection ↔
      ∀ s ∈ listing, s.Readable := by
  refine ⟨readable_of_decoded, ?_⟩
  intro h
  rw [getStates_print, states_of_named fun s hs => (h s hs).iface, Reading.states, List.map_append,
    List.map_map]
  apply List.map_inj_left.mpr
  intro s hs
  exact (entry_connection_iff s).mpr ⟨(h s hs).rightNat, (h s hs).left, (h s hs).right⟩

/-- A host of the documentation prefix. -/
def hostV6 (port : UInt16) : StateHost :=
  ⟨.v6 0x20010db8000000000000000000000001, "2001:db8::1".toList, port, by decide⟩

def stateV6 : ListedState where
  iface := "all".toList
  proto := "tcp".toList
  left := hostV6 50000
  leftNat := none
  outward := true
  right := hostV6 443
  rightNat := none
  gap := 0
  state := "ESTABLISHED:ESTABLISHED".toList
  above := []
  indent := "   ".toList
  age := 1253
  expires := 18000
  packets := (950, 2935)
  bytes := (65306, 3890325)
  more := ", rule 12".toList
  below := []
  ifaceWord := ⟨by decide, forall_mem_of_all (by decide)⟩
  protoWord := ⟨by decide, forall_mem_of_all (by decide)⟩
  stateWord := ⟨by decide, forall_mem_of_all (by decide)⟩
  aboveSilent := List.forall_mem_nil _
  indented := ⟨by decide, forall_mem_of_all (by decide)⟩
  moreLine := by decide
  belowSilent := List.forall_mem_nil _

/-- The endpoints of IPv6 are not decoded. -/
theorem v6_not_decoded :
    ¬∀ listing : List ListedState, (getStates (printStates listing)).map PfState.connection =
      listing.map ListedState.connection := by
  intro h
  have hreadable := readable_of_decoded (h [stateV6]) stateV6 List.mem_cons_self
  have hport : (443 : UInt16) = 0 := hreadable.right.1
  exact absurd hport (by decide)

end AiFw.Pf
