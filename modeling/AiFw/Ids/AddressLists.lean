import AiFw.Ids.Matching
import AiFw.Lib.SetExpr
import AiFw.Net.IpText
import AiFw.Net.Network

namespace AiFw.Ids
open AiFw.Lib AiFw.Net
open AiFw.Lib.SetExpr (Opening Piece readPiece)
set_option autoImplicit true

theorem matchConstraint_not (atom : List Char → Bool) (t : List Char) :
    matchConstraint atom ('!' :: t) = !matchConstraint atom t := by
  rw [matchConstraint]

theorem matchConstraint_group (atom : List Char → Bool) (t : List Char) :
    matchConstraint atom ('[' :: (t ++ [']'])) =
      (splitOn ',' t).any fun piece => matchConstraint atom (trim piece) := by
  have hgroup : ('[' :: (t ++ [']'])).head? = some '[' ∧
      ('[' :: (t ++ [']'])).getLast? = some ']' :=
    ⟨rfl, by rw [← List.cons_append, List.getLast?_concat]⟩
  rw [matchConstraint]
  · rw [dif_pos hgroup, List.tail_cons, List.dropLast_concat]
    simp only [List.any_subtype, List.unattach_attach]
  · rintro _ ⟨⟩
  · rintro _ ⟨⟩

theorem matchConstraint_atom {atom : List Char → Bool} {t : List Char}
    (hvariable : t.head? ≠ some '$') (hnot : t.head? ≠ some '!')
    (hgroup : ¬(t.head? = some '[' ∧ t.getLast? = some ']')) :
    matchConstraint atom t = atom t := by
  rw [matchConstraint.eq_def]
  split
  · exact absurd rfl hvariable
  · exact absurd rfl hnot
  · rw [dif_neg hgroup]

/-- A sign that an atom may have. -/
def isAtomSign (c : Char) : Bool :=
  !(['!', '[', ']', ',', '$'].contains c) && !isWhitespace c

theorem atomSign_facts (h : isAtomSign c = true) :
    c ≠ '!' ∧ c ≠ '[' ∧ c ≠ ']' ∧ c ≠ ',' ∧ c ≠ '$' ∧ isWhitespace c = false := by
  simpa [isAtomSign, and_assoc] using h

/-- How atoms and what torn lists leave of them are read: with brackets open before them, or closed
after them. -/
structure Reads (atom : List Char → Bool) (atomText : α → List Char)
    (whole left right : α → Bool) : Prop where
  nonempty : ∀ a, atomText a ≠ []
  signs : ∀ a, (atomText a).all isAtomSign = true
  whole : ∀ core : Option α, atom (core.elim [] atomText) = core.all whole
  left : ∀ (openings : List Opening) (core : Option α),
    atom ('[' :: (openings.map Opening.sign ++ core.elim [] atomText)) = core.all left
  right : ∀ (core : Option α) (n : Nat),
    atom (core.elim [] atomText ++ List.replicate (n + 1) ']') = core.all right

namespace Reads
variable {atom : List Char → Bool} {atomText : α → List Char} {whole left right : α → Bool}

theorem coreSigns (h : Reads atom atomText whole left right) (core : Option α) :
    ∀ c ∈ core.elim [] atomText, isAtomSign c = true := by
  cases core with
  | none => exact List.forall_mem_nil _
  | some a => exact List.all_eq_true.mp (h.signs a)

theorem textSigns (h : Reads atom atomText whole left right) (core : Option α) (n : Nat) :
    ∀ c ∈ core.elim [] atomText ++ List.replicate n ']', isAtomSign c = true ∨ c = ']' := by
  rw [List.forall_mem_append]
  exact ⟨fun c hc => .inl (h.coreSigns core c hc), fun c hc => .inr (List.eq_of_mem_replicate hc)⟩

/-- What is left when all the openings are read. -/
theorem closed (h : Reads atom atomText whole left right) (core : Option α) (n : Nat) :
    matchConstraint atom (core.elim [] atomText ++ List.replicate n ']') =
      readPiece whole left right [] core n := by
  have hhead (c : Char) (hsign : isAtomSign c = false) (hc : c ≠ ']') :
      (core.elim [] atomText ++ List.replicate n ']').head? ≠ some c := by
    intro he
    obtain hatom | hclose := h.textSigns core n c (List.mem_of_head? he)
    · rw [hsign] at hatom
      cases hatom
    · exact hc hclose
  rw [matchConstraint_atom (hhead '$' rfl (by decide)) (hhead '!' rfl (by decide))
    fun hgroup => hhead '[' rfl (by decide) hgroup.1]
  cases n with
  | zero =>
    rw [List.replicate_zero, List.append_nil]
    exact h.whole core
  | succ n => exact h.right core n

/-- What is left where a bracket is open and none is closed. -/
theorem opened (h : Reads atom atomText whole left right) (openings : List Opening)
    (core : Option α) :
    matchConstraint atom ('[' :: (openings.map Opening.sign ++ core.elim [] atomText)) =
      core.all left := by
  have hlast : ('[' :: (openings.map Opening.sign ++ core.elim [] atomText)).getLast? ≠
      some ']' := by
    intro he
    obtain hbracket | hrest := List.mem_cons.mp (List.mem_of_getLast? he)
    · exact absurd hbracket (by decide)
    obtain hopening | hcore := List.mem_append.mp hrest
    · obtain ⟨o, -, ho⟩ := List.mem_map.mp hopening
      cases o with
      | not => exact absurd ho (by decide)
      | bracket => exact absurd ho (by decide)
    · exact absurd (h.coreSigns core _ hcore) (by decide)
  have hhead (c : Char) (hc : c ≠ '[') :
      ('[' :: (openings.map Opening.sign ++ core.elim [] atomText)).head? ≠ some c :=
    fun he => hc (Option.some.inj he).symm
  rw [matchConstraint_atom (hhead '$' (by decide)) (hhead '!' (by decide))
    fun hgroup => hlast hgroup.2]
  exact h.left openings core

theorem inner_facts (h : Reads atom atomText whole left right) (openings : List Opening)
    (core : Option α) (n : Nat) :
    ∀ c ∈ openings.map Opening.sign ++ (core.elim [] atomText ++ List.replicate n ']'),
      isWhitespace c = false ∧ c ≠ ',' := by
  rw [List.forall_mem_append]
  constructor
  · intro c hc
    obtain ⟨o, -, rfl⟩ := List.mem_map.mp hc
    cases o with
    | not => decide
    | bracket => decide
  · intro c hc
    obtain hatom | rfl := h.textSigns core n c hc
    · obtain ⟨-, -, -, hcomma, -, hblank⟩ := atomSign_facts hatom
      exact ⟨hblank, hcomma⟩
    · decide

/-- A piece by itself. -/
theorem piece (h : Reads atom atomText whole left right) (openings : List Opening)
    (core : Option α) (closings : Nat) :
    matchConstraint atom (openings.map Opening.sign ++
        (core.elim [] atomText ++ List.replicate closings ']')) =
      readPiece whole left right openings core closings := by
  induction openings generalizing closings with
  | nil => exact h.closed core closings
  | cons o openings ih =>
    rw [List.map_cons, List.cons_append]
    cases o with
    | not =>
      rw [Opening.sign, matchConstraint_not, ih]
      rfl
    | bracket =>
      cases closings with
      | zero =>
        rw [List.replicate_zero, List.append_nil]
        exact h.opened openings core
      | succ n =>
        have hfacts := h.inner_facts openings core n
        have hcomma : ',' ∉ openings.map Opening.sign ++
            (core.elim [] atomText ++ List.replicate n ']') :=
          fun hc => (hfacts ',' hc).2 rfl
        rw [List.replicate_succ', ← List.append_assoc, ← List.append_assoc,
          List.append_assoc (openings.map Opening.sign), Opening.sign, matchConstraint_group,
          splitOn_of_notMem hcomma, List.any_cons, List.any_nil, Bool.or_false,
          trim_of_graphic fun c hc => (hfacts c hc).1, ih]
        rfl

theorem pieceText (h : Reads atom atomText whole left right) (p : Piece α) :
    matchConstraint atom (trim (p.text atomText)) = p.reads whole left right := by
  have hfacts := h.inner_facts p.openings p.core p.closings
  have htrim : trim (p.text atomText) = p.text atomText :=
    trim_of_graphic fun c hc => (hfacts c hc).1
  rw [htrim]
  exact h.piece p.openings p.core p.closings

/-- The text of an expression is read piece by piece. -/
theorem expression (h : Reads atom atomText whole left right) (e : SetExpr α) :
    matchConstraint atom (e.text atomText) = e.reads whole left right := by
  induction e using SetExpr.neg_induction with
  | atom a =>
    have hatom := h.closed (some a) 0
    rw [List.replicate_zero, List.append_nil] at hatom
    exact hatom
  | neg e ih => rw [SetExpr.text, matchConstraint_not, ih, SetExpr.reads]
  | list members =>
    have hcomma (a : α) : ',' ∉ atomText a := by
      intro hc
      exact absurd (h.coreSigns (some a) ',' hc) (by decide)
    have hsplit := SetExpr.splitOn_membersText hcomma [] 0 members
    rw [List.map_nil, List.nil_append, List.replicate_zero, List.append_nil] at hsplit
    rw [SetExpr.text, matchConstraint_group, hsplit, List.any_map, SetExpr.reads]
    exact congrArg (List.any _) (funext fun p => h.pieceText p)

end Reads

theorem and_mask_eq_iff {k w : Nat} (a b : BitVec w) :
    a &&& BitVec.allOnes w <<< k = b &&& BitVec.allOnes w <<< k ↔
      a.toNat / 2 ^ k = b.toNat / 2 ^ k := by
  have hbit (a : BitVec w) (i : Nat) : (a &&& BitVec.allOnes w <<< k).getLsbD i =
      (decide (k ≤ i) && a.getLsbD i) := by
    rw [BitVec.getLsbD_and, BitVec.getLsbD_shiftLeft, BitVec.getLsbD_allOnes]
    by_cases hi : i < w
    · by_cases hk : k ≤ i
      · simp [hi, hk, Nat.not_lt.mpr hk, Nat.lt_of_le_of_lt (Nat.sub_le i k) hi]
      · simp [hk, Nat.lt_of_not_le hk]
    · rw [BitVec.getLsbD_of_ge a i (Nat.le_of_not_lt hi), Bool.false_and, Bool.and_false]
  have hshift : a.toNat / 2 ^ k = b.toNat / 2 ^ k ↔ a >>> k = b >>> k := by
    rw [← BitVec.toNat_inj, BitVec.toNat_ushiftRight, BitVec.toNat_ushiftRight,
      Nat.shiftRight_eq_div_pow, Nat.shiftRight_eq_div_pow]
  rw [hshift]
  constructor
  · intro h
    apply BitVec.eq_of_getLsbD_eq
    intro i hi
    have hi' := congrArg (fun v => v.getLsbD (k + i)) h
    rw [hbit, hbit, decide_eq_true (Nat.le_add_right k i), Bool.true_and, Bool.true_and] at hi'
    rw [BitVec.getLsbD_ushiftRight, BitVec.getLsbD_ushiftRight]
    exact hi'
  · intro h
    apply BitVec.eq_of_getLsbD_eq
    intro i hi
    rw [hbit, hbit]
    by_cases hk : k ≤ i
    · have hi' := congrArg (fun v => v.getLsbD (i - k)) h
      rw [BitVec.getLsbD_ushiftRight, BitVec.getLsbD_ushiftRight, Nat.add_sub_cancel' hk] at hi'
      rw [hi']
    · rw [decide_eq_false hk]
      rfl

theorem cidrMask_eq {w len : Nat} (hpos : len ≠ 0) :
    cidrMask w len = BitVec.allOnes w <<< (w - len) := by
  unfold cidrMask
  by_cases hfull : len ≥ w
  · rw [if_pos hfull, Nat.sub_eq_zero_of_le hfull, BitVec.shiftLeft_zero]
  · rw [if_neg hfull, Nat.mod_eq_of_lt (by omega)]

theorem cidrMask_zero {w : Nat} (hw : 0 < w) : cidrMask w 0 = BitVec.allOnes w := by
  rw [cidrMask, if_neg (by omega), Nat.sub_zero, Nat.mod_self, BitVec.shiftLeft_zero]

/-- A network of no bits is read as its own address alone. -/
theorem ipInCidr_eq (ip net : IpAddr) (len : Nat) :
    ipInCidr ip net len = if len = 0 then ip == net else net.inNet len ip := by
  have hmask {w : Nat} (hw : 0 < w) (a b : BitVec w) :
      (a &&& cidrMask w len == b &&& cidrMask w len) =
        if len = 0 then a == b
        else b.toNat / 2 ^ (w - len) == a.toNat / 2 ^ (w - len) := by
    by_cases hzero : len = 0
    · rw [if_pos hzero, hzero, cidrMask_zero hw, BitVec.and_allOnes, BitVec.and_allOnes]
    · rw [if_neg hzero, Bool.eq_iff_iff, beq_iff_eq, beq_iff_eq, cidrMask_eq hzero,
        and_mask_eq_iff]
      exact eq_comm
  have hother (hne : ip ≠ net) (hfamily : net.sameFamily ip = false) :
      false = if len = 0 then ip == net else net.inNet len ip := by
    rw [beq_eq_false_iff_ne.mpr hne, IpAddr.inNet, hfamily, Bool.false_and, ite_self]
  cases ip with
  | v4 a =>
    cases net with
    | v4 b =>
      have hsame : (IpAddr.v4 a == IpAddr.v4 b) = (a == b) := by
        rw [Bool.eq_iff_iff, beq_iff_eq, beq_iff_eq, IpAddr.v4.injEq]
      rw [hsame]
      exact hmask (by decide : 0 < 32) a b
    | v6 b => exact hother (by rintro ⟨⟩) rfl
  | v6 a =>
    cases net with
    | v4 b => exact hother (by rintro ⟨⟩) rfl
    | v6 b =>
      have hsame : (IpAddr.v6 a == IpAddr.v6 b) = (a == b) := by
        rw [Bool.eq_iff_iff, beq_iff_eq, beq_iff_eq, IpAddr.v6.injEq]
      rw [hsame]
      exact hmask (by decide : 0 < 128) a b

/-- An address or a network, in any text that stands for it. -/
inductive AddressAtom where
  | host (ip : IpAddr) (hostText : List Char) (reads : IpAddr.parse hostText = some ip)
  | net (ip : IpAddr) (len : Nat) (ipText lenText : List Char)
      (reads : IpAddr.parse ipText = some ip) (readsLen : parseUnsigned 256 lenText = some len)

namespace AddressAtom

def text : AddressAtom → List Char
  | .host _ hostText _ => hostText
  | .net _ _ ipText lenText _ _ => ipText ++ '/' :: lenText

/-- Whether an address is in it. -/
def has (ip : IpAddr) : AddressAtom → Bool
  | .host addr _ _ => ip == addr
  | .net addr len _ _ _ _ => addr.inNet len ip

/-- Whether it is read as having the address. -/
def readHas (ip : IpAddr) : AddressAtom → Bool
  | .host addr _ _ => ip == addr
  | .net addr len _ _ _ _ => if len = 0 then ip == addr else addr.inNet len ip

/-- It is not a network of no bits that another address of the family is in. -/
def ReadsRight (ip : IpAddr) : AddressAtom → Prop
  | .host _ _ _ => True
  | .net addr len _ _ _ _ => len = 0 → addr.sameFamily ip = true → ip = addr

theorem readHas_iff (ip : IpAddr) (a : AddressAtom) : a.readHas ip = a.has ip ↔ a.ReadsRight ip := by
  cases a with
  | host addr hostText reads => exact iff_of_true rfl trivial
  | net addr len ipText lenText reads readsLen =>
    rw [readHas, has, ReadsRight]
    by_cases hzero : len = 0
    · rw [if_pos hzero, hzero, IpAddr.inNet_zero, Bool.eq_iff_iff, beq_iff_eq]
      constructor
      · exact fun h _ hfamily => h.mpr hfamily
      · intro h
        constructor
        · rintro rfl
          exact IpAddr.sameFamily_self ip
        · exact h rfl
    · rw [if_neg hzero]
      exact iff_of_true rfl fun h => absurd h hzero

end AddressAtom

theorem atomSign_of_addrChar (h : isAddrChar c = true) : isAtomSign c = true := by
  rw [isAddrChar, decide_eq_true_eq] at h
  obtain rfl | rfl | hdigit := h
  · decide
  · decide
  · obtain ⟨d, hd⟩ := Option.isSome_iff_exists.mp hdigit
    exact forall_ascii (P := fun c => (toDigit 16 c).isSome = true → isAtomSign c = true)
      (by decide) (toNat_of_toDigit hd) hdigit

theorem atomSigns_of_number (h : parseUnsigned bound s = some n) :
    ∀ c ∈ s, isAtomSign c = true := by
  intro c hc
  obtain rfl | hdigit := parseUnsigned_chars h hc
  · decide
  · obtain ⟨d, hd⟩ := Option.isSome_iff_exists.mp hdigit
    exact forall_ascii (P := fun c => (toDigit 10 c).isSome = true → isAtomSign c = true)
      (by decide) (toNat_of_toDigit hd) hdigit

theorem parse_none_of_sign (hc : c ∈ s) (hsign : isAddrChar c = false) : IpAddr.parse s = none := by
  cases hip : IpAddr.parse s with
  | none => rfl
  | some ip =>
    have hchar := IpAddr.parse_chars hip c hc
    rw [hsign] at hchar
    cases hchar

namespace AddressAtom

theorem text_signs (a : AddressAtom) : a.text ≠ [] ∧ ∀ c ∈ a.text, isAtomSign c = true := by
  cases a with
  | host ip hostText reads =>
    exact ⟨IpAddr.parse_ne_nil reads,
      fun c hc => atomSign_of_addrChar (IpAddr.parse_chars reads c hc)⟩
  | net ip len ipText lenText reads readsLen =>
    refine ⟨List.append_ne_nil_of_left_ne_nil (IpAddr.parse_ne_nil reads) _, ?_⟩
    rw [text, List.forall_mem_append, List.forall_mem_cons]
    exact ⟨fun c hc => atomSign_of_addrChar (IpAddr.parse_chars reads c hc), by decide,
      atomSigns_of_number readsLen⟩

theorem read_whole (ip : IpAddr) (a : AddressAtom) :
    matchAddressAtom ip a.text = a.readHas ip := by
  unfold matchAddressAtom
  cases a with
  | host addr hostText reads =>
    have hslash : '/' ∉ hostText := fun hc => by
      have hchar := IpAddr.parse_chars reads _ hc
      revert hchar
      decide
    rw [text, splitOnce_none hslash, reads]
    rfl
  | net addr len ipText lenText reads readsLen =>
    have hslash : '/' ∉ ipText := fun hc => by
      have hchar := IpAddr.parse_chars reads _ hc
      revert hchar
      decide
    rw [text, splitOnce_append hslash]
    dsimp only [Option.bind_eq_bind, Option.bind_some]
    rw [reads, readsLen]
    exact ipInCidr_eq ip addr len

end AddressAtom

/-- A text that no address and no network is, is read as every address. -/
theorem matchAddressAtom_torn (ip : IpAddr) {t : List Char}
    (hsplit : ∀ net len, splitOnce '/' t = some (net, len) →
      IpAddr.parse net = none ∨ parseUnsigned 256 len = none)
    (hwhole : IpAddr.parse t = none) : matchAddressAtom ip t = true := by
  unfold matchAddressAtom
  rw [hwhole]
  cases hs : splitOnce '/' t with
  | none => rfl
  | some parts =>
    dsimp only [Option.bind_eq_bind, Option.bind_some]
    obtain hnone | hnone := hsplit parts.1 parts.2 hs
    · rw [hnone]
      rfl
    · rw [hnone]
      cases IpAddr.parse parts.1 <;> rfl

theorem matchAddressAtom_opened (ip : IpAddr) (t : List Char) :
    matchAddressAtom ip ('[' :: t) = true := by
  apply matchAddressAtom_torn
  · intro net len hs
    have ht := splitOnce_eq hs
    cases net with
    | nil => exact absurd (List.cons.inj ht).1 (by decide)
    | cons c net =>
      obtain rfl := (List.cons.inj ht).1
      exact .inl (parse_none_of_sign List.mem_cons_self rfl)
  · exact parse_none_of_sign List.mem_cons_self rfl

theorem matchAddressAtom_closed (ip : IpAddr) (t : List Char) :
    matchAddressAtom ip (t ++ [']']) = true := by
  apply matchAddressAtom_torn
  · intro net len hs
    have ht := congrArg List.getLast? (splitOnce_eq hs)
    rw [List.getLast?_concat, List.getLast?_append_of_ne_nil _ (List.cons_ne_nil _ _)] at ht
    obtain hc | hc := List.mem_cons.mp (List.mem_of_getLast? ht.symm)
    · exact absurd hc (by decide)
    · exact .inr (parseUnsigned_none hc (by decide) rfl)
  · exact parse_none_of_sign (List.mem_append_right t (List.mem_singleton_self _)) rfl

theorem addressReads (ip : IpAddr) : Reads (matchAddressAtom ip) AddressAtom.text
    (AddressAtom.readHas ip) (fun _ => true) fun _ => true where
  nonempty := fun a => a.text_signs.1
  signs := fun a => List.all_eq_true.mpr a.text_signs.2
  whole := fun core => by
    cases core with
    | none => rfl
    | some a => exact a.read_whole ip
  left := fun openings core => by
    rw [matchAddressAtom_opened]
    cases core <;> rfl
  right := fun core n => by
    rw [List.replicate_succ', ← List.append_assoc, matchAddressAtom_closed]
    cases core <;> rfl

/-- Where an expression of addresses is read as the set that it stands for. -/
def AddressesAgree (ip : IpAddr) (e : SetExpr AddressAtom) : Prop :=
  e.Agrees (AddressAtom.ReadsRight ip) (AddressAtom.has ip) (AddressAtom.readHas ip)
    (fun _ => true) fun _ => true

theorem matchAddress_iff (e : SetExpr AddressAtom) (ip : IpAddr) :
    matchAddress (String.ofList (e.text AddressAtom.text)) (some ip) =
      e.contains (AddressAtom.has ip) ↔ AddressesAgree ip e := by
  rw [matchAddress, String.toList_ofList, (addressReads ip).expression]
  exact SetExpr.reads_eq_contains_iff (AddressAtom.readHas_iff ip) e

/-- A list whose members are not cut is matched as it stands, if its negated members can count as
alternatives. -/
theorem matchAddress_uncut {members : List (SetExpr AddressAtom)} {ip : IpAddr}
    (huncut : ∀ e ∈ members, e.Uncut (AddressAtom.ReadsRight ip))
    (h : SetExpr.MembersAgree (AddressAtom.has ip) members) :
    matchAddress (String.ofList ((SetExpr.list members).text AddressAtom.text)) (some ip) =
      (SetExpr.list members).contains (AddressAtom.has ip) :=
  (matchAddress_iff _ ip).mpr (.inl ⟨huncut, h⟩)

/-- A list of addresses and networks is matched as their union. -/
theorem matchAddress_atoms (atoms : List AddressAtom) (ip : IpAddr)
    (h : ∀ a ∈ atoms, a.ReadsRight ip) :
    matchAddress (String.ofList ((SetExpr.list (atoms.map .atom)).text AddressAtom.text)) (some ip) =
      (SetExpr.list (atoms.map .atom)).contains (AddressAtom.has ip) :=
  (matchAddress_iff _ ip).mpr (SetExpr.agrees_atoms atoms h)

/-- A port or a range of ports, in any text that stands for it. -/
inductive PortAtom where
  | single (port : UInt16) (portText : List Char)
      (reads : parseUnsigned 65536 portText = some port.toNat)
  | range (low high : UInt16) (lowText highText : List Char)
      (readsLow : parseUnsigned 65536 lowText = some low.toNat)
      (readsHigh : parseUnsigned 65536 highText = some high.toNat)

namespace PortAtom

def text : PortAtom → List Char
  | .single _ portText _ => portText
  | .range _ _ lowText highText _ _ => lowText ++ ':' :: highText

def has (port : UInt16) : PortAtom → Bool
  | .single p _ _ => port == p
  | .range low high _ _ _ _ => decide (low ≤ port ∧ port ≤ high)

/-- With a bracket before it, a range has no lower end. -/
def readLeft (port : UInt16) : PortAtom → Bool
  | .single _ _ _ => true
  | .range _ high _ _ _ _ => decide (port ≤ high)

/-- With a bracket after it, a range has no upper end. -/
def readRight (port : UInt16) : PortAtom → Bool
  | .single _ _ _ => true
  | .range low _ _ _ _ _ => decide (low ≤ port)

end PortAtom

theorem colon_notMem_number (h : parseUnsigned bound s = some n) : ':' ∉ s := by
  intro hc
  obtain h | h := parseUnsigned_chars h hc
  · exact absurd h (by decide)
  · exact absurd h (by decide)

theorem matchPortAtom_range (port : UInt16) {low : List Char} (h : ':' ∉ low) (high : List Char) :
    matchPortAtom port (low ++ ':' :: high) =
      decide (port.toNat ≥ (parseUnsigned 65536 low).getD 0 ∧
        port.toNat ≤ (parseUnsigned 65536 high).getD 65535) := by
  rw [matchPortAtom, splitOnce_append h]

theorem matchPortAtom_none (port : UInt16) {t : List Char} (h : ':' ∉ t)
    (hnone : parseUnsigned 65536 t = none) : matchPortAtom port t = true := by
  rw [matchPortAtom, splitOnce_none h]
  dsimp only
  rw [hnone]

theorem colon_notMem_opened (openings : List Opening) : ':' ∉ '[' :: openings.map Opening.sign := by
  intro hc
  obtain h | h := List.mem_cons.mp hc
  · exact absurd h (by decide)
  · obtain ⟨o, -, ho⟩ := List.mem_map.mp h
    cases o with
    | not => exact absurd ho (by decide)
    | bracket => exact absurd ho (by decide)

theorem closings_facts (n : Nat) :
    ':' ∉ List.replicate n ']' ∧ ']' ∈ List.replicate (n + 1) ']' := by
  constructor
  · intro hc
    exact absurd (List.eq_of_mem_replicate hc) (by decide)
  · exact List.mem_cons_self

namespace PortAtom

theorem text_signs (a : PortAtom) : a.text ≠ [] ∧ ∀ c ∈ a.text, isAtomSign c = true := by
  cases a with
  | single p portText reads =>
    refine ⟨?_, atomSigns_of_number reads⟩
    rintro rfl
    cases reads
  | range low high lowText highText readsLow readsHigh =>
    refine ⟨List.append_ne_nil_of_right_ne_nil _ (List.cons_ne_nil _ _), ?_⟩
    rw [text, List.forall_mem_append, List.forall_mem_cons]
    exact ⟨atomSigns_of_number readsLow, by decide, atomSigns_of_number readsHigh⟩

theorem read_whole (port : UInt16) (a : PortAtom) : matchPortAtom port a.text = a.has port := by
  cases a with
  | single p portText reads =>
    rw [matchPortAtom, text, splitOnce_none (colon_notMem_number reads)]
    dsimp only
    rw [reads, has, Bool.eq_iff_iff, beq_iff_eq, beq_iff_eq, UInt16.toNat_inj]
  | range low high lowText highText readsLow readsHigh =>
    rw [text, matchPortAtom_range port (colon_notMem_number readsLow), readsLow, readsHigh, has]
    simp only [Option.getD_some, UInt16.le_iff_toNat_le, ge_iff_le]

theorem read_left (port : UInt16) (openings : List Opening) (a : PortAtom) :
    matchPortAtom port ('[' :: (openings.map Opening.sign ++ a.text)) = a.readLeft port := by
  have hopened := colon_notMem_opened openings
  cases a with
  | single p portText reads =>
    have hcolon := List.not_mem_append hopened (colon_notMem_number reads)
    exact matchPortAtom_none port hcolon (parseUnsigned_none List.mem_cons_self (by decide) rfl)
  | range low high lowText highText readsLow readsHigh =>
    have hcolon := List.not_mem_append hopened (colon_notMem_number readsLow)
    have hnone : parseUnsigned 65536 ('[' :: openings.map Opening.sign ++ lowText) = none :=
      parseUnsigned_none List.mem_cons_self (by decide) rfl
    have hread := matchPortAtom_range port hcolon highText
    rw [hnone, readsHigh] at hread
    rw [text, ← List.append_assoc, readLeft]
    refine hread.trans (Bool.eq_iff_iff.mpr ?_)
    rw [decide_eq_true_eq, decide_eq_true_eq, UInt16.le_iff_toNat_le]
    exact and_iff_right (Nat.zero_le _)

theorem read_right (port : UInt16) (n : Nat) (a : PortAtom) :
    matchPortAtom port (a.text ++ List.replicate (n + 1) ']') = a.readRight port := by
  obtain ⟨hclosed, hmem⟩ := closings_facts (n + 1)
  cases a with
  | single p portText reads =>
    have hcolon := List.not_mem_append (colon_notMem_number reads) hclosed
    exact matchPortAtom_none port hcolon
      (parseUnsigned_none (List.mem_append_right portText (closings_facts n).2) (by decide) rfl)
  | range low high lowText highText readsLow readsHigh =>
    have hnone : parseUnsigned 65536 (highText ++ List.replicate (n + 1) ']') = none :=
      parseUnsigned_none (List.mem_append_right highText (closings_facts n).2) (by decide) rfl
    rw [text, List.append_assoc, List.cons_append,
      matchPortAtom_range port (colon_notMem_number readsLow), readsLow, hnone, readRight,
      Bool.eq_iff_iff, decide_eq_true_eq, decide_eq_true_eq, UInt16.le_iff_toNat_le]
    exact and_iff_left (Nat.le_of_lt_succ port.toNat_lt)

end PortAtom

theorem portReads (port : UInt16) : Reads (matchPortAtom port) PortAtom.text
    (PortAtom.has port) (PortAtom.readLeft port) (PortAtom.readRight port) where
  nonempty := fun a => a.text_signs.1
  signs := fun a => List.all_eq_true.mpr a.text_signs.2
  whole := fun core => by
    cases core with
    | none => rfl
    | some a => exact a.read_whole port
  left := fun openings core => by
    cases core with
    | none =>
      have hopened :=
        List.not_mem_append (colon_notMem_opened openings) (List.not_mem_nil (a := ':'))
      exact matchPortAtom_none port hopened (parseUnsigned_none List.mem_cons_self (by decide) rfl)
    | some a => exact a.read_left port openings
  right := fun core n => by
    cases core with
    | none =>
      obtain ⟨hclosed, -⟩ := closings_facts (n + 1)
      exact matchPortAtom_none port hclosed (parseUnsigned_none (closings_facts n).2 (by decide) rfl)
    | some a => exact a.read_right port n

/-- Where an expression of ports is read as the set that it stands for. -/
def PortsAgree (port : UInt16) (e : SetExpr PortAtom) : Prop :=
  e.Agrees (fun _ => True) (PortAtom.has port) (PortAtom.has port) (PortAtom.readLeft port)
    (PortAtom.readRight port)

theorem matchPort_iff (e : SetExpr PortAtom) (port : UInt16) :
    matchPort (String.ofList (e.text PortAtom.text)) (some port) =
      e.contains (PortAtom.has port) ↔ PortsAgree port e := by
  rw [matchPort, String.toList_ofList, (portReads port).expression]
  exact SetExpr.reads_eq_contains_iff (fun _ => iff_of_true rfl trivial) e

theorem matchPort_uncut {members : List (SetExpr PortAtom)} {port : UInt16}
    (huncut : ∀ e ∈ members, e.Uncut fun _ => True)
    (h : SetExpr.MembersAgree (PortAtom.has port) members) :
    matchPort (String.ofList ((SetExpr.list members).text PortAtom.text)) (some port) =
      (SetExpr.list members).contains (PortAtom.has port) :=
  (matchPort_iff _ port).mpr (.inl ⟨huncut, h⟩)

/-- A list of ports and ranges is matched as their union. -/
theorem matchPort_atoms (atoms : List PortAtom) (port : UInt16) :
    matchPort (String.ofList ((SetExpr.list (atoms.map .atom)).text PortAtom.text)) (some port) =
      (SetExpr.list (atoms.map .atom)).contains (PortAtom.has port) :=
  (matchPort_iff _ port).mpr (SetExpr.agrees_atoms atoms fun _ _ => trivial)

/-- What addresses and ports are matched as, and where it is the set that an expression stands for. -/
theorem lists_denote_iff (addresses : SetExpr AddressAtom) (ip : IpAddr) (ports : SetExpr PortAtom)
    (port : UInt16) :
    (matchAddress (String.ofList (addresses.text AddressAtom.text)) (some ip) =
      addresses.contains (AddressAtom.has ip) ↔ AddressesAgree ip addresses) ∧
    (matchPort (String.ofList (ports.text PortAtom.text)) (some port) =
      ports.contains (PortAtom.has port) ↔ PortsAgree port ports) :=
  ⟨matchAddress_iff addresses ip, matchPort_iff ports port⟩

def loopback : AddressAtom := .host (.v4 0x7F000001) "127.0.0.1".toList (by decide +kernel)

def gateway : AddressAtom := .host (.v4 0x0A000001) "10.0.0.1".toList (by decide +kernel)

/-- Everything but two addresses, as it is written: `[!127.0.0.1,!10.0.0.1]`. -/
def exceptTwo : SetExpr AddressAtom := .list [.neg (.atom loopback), .neg (.atom gateway)]

example : exceptTwo.text AddressAtom.text = "[!127.0.0.1,!10.0.0.1]".toList := by decide

theorem excluded_address_matches : ¬((∀ (e : SetExpr AddressAtom) (ip : IpAddr),
      matchAddress (String.ofList (e.text AddressAtom.text)) (some ip) =
        e.contains (AddressAtom.has ip)) ∧
    ∀ (e : SetExpr PortAtom) (port : UInt16),
      matchPort (String.ofList (e.text PortAtom.text)) (some port) =
        e.contains (PortAtom.has port)) := by
  rintro ⟨h, -⟩
  have hmatch := h exceptTwo (.v4 0x0A000001)
  rw [matchAddress, String.toList_ofList, (addressReads _).expression] at hmatch
  exact absurd hmatch (by decide)

end AiFw.Ids
