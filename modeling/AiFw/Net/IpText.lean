import AiFw.Lib.Numerals
import AiFw.Net.Network
import Mathlib.Data.List.TakeWhile

namespace AiFw.Net
open AiFw.Lib
set_option autoImplicit true

def groupsOf (base : Nat) : Nat → Nat → List Nat
  | 0, _ => []
  | n + 1, a => groupsOf base n (a / base) ++ [a % base]

theorem groupsOf_length (base n a : Nat) : (groupsOf base n a).length = n := by
  induction n generalizing a with
  | zero => rfl
  | succ n ih => rw [groupsOf, List.length_append, ih, List.length_singleton]

theorem groupsOf_lt (hb : 0 < base) (h : g ∈ groupsOf base n a) : g < base := by
  induction n generalizing a with
  | zero => cases h
  | succ n ih =>
    rcases List.mem_append.mp h with h | h
    · exact ih h
    · rw [List.mem_singleton.mp h]
      exact Nat.mod_lt _ hb

theorem foldl_groupsOf (base n a : Nat) :
    (groupsOf base n a).foldl (fun acc g => acc * base + g) 0 = a % base ^ n := by
  induction n generalizing a with
  | zero => rw [Nat.pow_zero, Nat.mod_one]; rfl
  | succ n ih =>
    rw [groupsOf, List.foldl_append, ih, Nat.pow_succ', Nat.mod_mul, Nat.mul_comm base,
      Nat.add_comm]
    rfl

/-- `Ipv4Addr` as text: four decimal octets. -/
def displayV4 (a : BitVec 32) : List Char :=
  List.intercalate ['.'] ((groupsOf 256 4 a.toNat).map (Nat.toDigits 10))

def displayGroups (groups : List Nat) : List Char :=
  List.intercalate [':'] (groups.map (Nat.toDigits 16))

/-- The first of the longest runs of zero groups, as its start and length. -/
def longestZeroRun (longest current : Nat × Nat) (i : Nat) : List Nat → Nat × Nat
  | [] => longest
  | g :: gs =>
    if g = 0 then
      let current := (if current.2 = 0 then i else current.1, current.2 + 1)
      longestZeroRun (if longest.2 < current.2 then current else longest) current (i + 1) gs
    else longestZeroRun longest (0, 0) (i + 1) gs

/-- `Ipv6Addr` as text: an IPv4-mapped address shows its IPv4 part, and otherwise the longest run
of at least two zero groups is left out. -/
def displayV6 (a : BitVec 128) : List Char :=
  let groups := groupsOf 65536 8 a.toNat
  if groups.take 6 = [0, 0, 0, 0, 0, 0xFFFF] then
    "::ffff:".toList ++ displayV4 (BitVec.ofNat 32 a.toNat)
  else
    let (start, len) := longestZeroRun (0, 0) (0, 0) 0 groups
    if 1 < len then
      displayGroups (groups.take start) ++ ':' :: ':' :: displayGroups (groups.drop (start + len))
    else displayGroups groups

def IpAddr.display : IpAddr → List Char
  | .v4 a => displayV4 a
  | .v6 a => displayV6 a

example : IpAddr.display (.v6 0x20010DB8000000000000000000000001) = "2001:db8::1".toList := by
  decide +kernel

example : IpAddr.display (.v6 0xFFFF0A000001) = "::ffff:10.0.0.1".toList := by decide +kernel

def ZeroRun (groups : List Nat) (run : Nat × Nat) : Prop :=
  ∀ k, run.1 ≤ k → k < run.1 + run.2 → groups[k]? = some 0

theorem ZeroRun.empty (groups : List Nat) : ZeroRun groups (start, 0) := by
  intro k hk hlt
  omega

theorem ZeroRun.extend (h : ZeroRun groups (start, len)) (hz : groups[start + len]? = some 0) :
    ZeroRun groups (start, len + 1) := by
  intro k hk hlt
  by_cases he : k = start + len
  · rw [he]
    exact hz
  · exact h k hk (by simp only at hlt ⊢; omega)

theorem longestZeroRun_spec {before : List Nat} (rest : List Nat) (hi : before.length = i)
    (hl : ZeroRun (before ++ rest) longest) (hc : ZeroRun (before ++ rest) current)
    (he : current.2 = 0 ∨ current.1 + current.2 = i) :
    ZeroRun (before ++ rest) (longestZeroRun longest current i rest) := by
  induction rest generalizing before i longest current with
  | nil => exact hl
  | cons g gs ih =>
    have hnext : before ++ g :: gs = (before ++ [g]) ++ gs := by
      rw [List.append_assoc]
      rfl
    have hlen : (before ++ [g]).length = i + 1 := by
      rw [List.length_append, hi, List.length_singleton]
    have hat : (before ++ g :: gs)[i]? = some g := by
      rw [List.getElem?_append_right (by omega), hi, Nat.sub_self, List.getElem?_cons_zero]
    rw [longestZeroRun]
    split
    case isTrue hg =>
      have hzero : (before ++ g :: gs)[i]? = some 0 := by
        rw [hat, hg]
      have hcur : ZeroRun (before ++ g :: gs)
          (if current.2 = 0 then i else current.1, current.2 + 1) := by
        apply ZeroRun.extend
        · split
          · rename_i hz
            rw [hz]
            exact .empty _
          · exact hc
        · split
          · rename_i hz
            rw [hz]
            exact hzero
          · rename_i hz
            rw [he.resolve_left hz]
            exact hzero
      simp only [hnext] at hl hcur ⊢
      apply ih hlen _ hcur
      · right
        split <;> simp only <;> omega
      · split
        · exact hcur
        · exact hl
    case isFalse hg =>
      rw [hnext] at hl ⊢
      exact ih hlen hl (.empty _) (.inl rfl)

theorem ZeroRun.split (h : ZeroRun groups (start, len)) (hl : start + len ≤ groups.length) :
    groups.take start ++ List.replicate len 0 ++ groups.drop (start + len) = groups := by
  apply List.ext_getElem?
  intro k
  have hts : (groups.take start).length = start := by
    rw [List.length_take]
    omega
  rcases Nat.lt_or_ge k start with hk | hk
  · rw [List.append_assoc, List.getElem?_append_left (by omega), List.getElem?_take_of_lt hk]
  · rcases Nat.lt_or_ge k (start + len) with hk' | hk'
    · rw [List.append_assoc, List.getElem?_append_right (by omega), hts,
        List.getElem?_append_left (by rw [List.length_replicate]; omega),
        List.getElem?_replicate_of_lt (by omega)]
      exact (h k hk hk').symm
    · rw [List.getElem?_append_right (by rw [List.length_append, List.length_replicate]; omega),
        List.length_append, List.length_replicate, hts, List.getElem?_drop]
      congr 1
      omega

theorem ZeroRun.le_length (h : ZeroRun groups (start, len)) (hl : 0 < len) :
    start + len ≤ groups.length := by
  have hz := h (start + len - 1) (by simp only; omega) (by simp only; omega)
  obtain ⟨hlt, -⟩ := List.getElem?_eq_some_iff.mp hz
  omega

section
variable {b : Nat} (hb : 1 < b) (hb' : b ≤ 16)
include hb hb'

theorem takeWhile_toDigits (n : Nat) (hr : ∀ c ∈ rest.head?, toDigit b c = none) :
    (Nat.toDigits b n ++ rest).takeWhile (fun c => (toDigit b c).isSome) = Nat.toDigits b n := by
  rw [List.takeWhile_append_of_pos]
  · cases rest with
    | nil => rw [List.takeWhile_nil, List.append_nil]
    | cons c cs =>
      rw [List.takeWhile_cons, hr c rfl]
      simp only [Option.isSome_none, Bool.false_eq_true, if_false, List.append_nil]
  · intro c hc
    exact isSome_toDigit_of_mem hb hb' n hc

theorem dropWhile_toDigits (n : Nat) (hr : ∀ c ∈ rest.head?, toDigit b c = none) :
    (Nat.toDigits b n ++ rest).dropWhile (fun c => (toDigit b c).isSome) = rest := by
  rw [List.dropWhile_append_of_pos]
  · cases rest with
    | nil => rfl
    | cons c cs =>
      rw [List.dropWhile_cons, hr c rfl]
      rfl
  · intro c hc
    exact isSome_toDigit_of_mem hb hb' n hc

theorem readNumber_toDigits (hm : 0 < maxDigits) (hn : n < b ^ maxDigits) (hlt : n < bound)
    (hr : ∀ c ∈ rest.head?, toDigit b c = none) :
    readNumber b maxDigits bound zeroPrefix (Nat.toDigits b n ++ rest) = some (n, rest) := by
  obtain ⟨ds, hds, hv⟩ := mapM_toDigits hb hb' n
  have hlen : (Nat.toDigits b n).length ≤ maxDigits := (Nat.length_toDigits_le_iff hb hm).mpr hn
  have hpos : 0 < (Nat.toDigits b n).length := Nat.length_toDigits_pos
  have hdl := mapM_length hds
  unfold readNumber
  simp only [takeWhile_toDigits hb hb' n hr, dropWhile_toDigits hb hb' n hr,
    mapM_eq_some_filterMap hds, hv, hdl]
  rw [if_neg (by omega), if_neg (by omega), if_neg, if_pos hlt]
  -- a leading zero is the whole number
  intro hz
  simp only [Bool.and_eq_true, Bool.not_eq_true', beq_iff_eq, decide_eq_true_eq] at hz
  rw [List.head?_append_of_ne_nil _ Nat.toDigits_ne_nil] at hz
  by_cases h0 : n = 0
  · rw [h0, Nat.toDigits_zero] at hz
    exact absurd hz.2 (by decide)
  · exact head_toDigits_ne_zero hb hb' h0 hz.1.2

end

theorem readNumber_none (hr : ∀ c ∈ s.head?, toDigit radix c = none) :
    readNumber radix maxDigits bound zeroPrefix s = none := by
  have ht : s.takeWhile (fun c => (toDigit radix c).isSome) = [] := by
    cases s with
    | nil => rfl
    | cons c cs =>
      rw [List.takeWhile_cons, hr c rfl]
      rfl
  unfold readNumber
  simp only [ht, List.filterMap_nil, List.length_nil, gt_iff_lt, Nat.not_lt_zero, if_false,
    if_true]

theorem readNumber_rest (h : readNumber radix maxDigits bound zeroPrefix s = some (n, rest)) :
    rest = s.dropWhile fun c => (toDigit radix c).isSome := by
  unfold readNumber at h
  simp only [] at h
  split at h
  · cases h
  split at h
  · cases h
  split at h
  · cases h
  split at h
  · cases h
    rfl
  · cases h

theorem readGivenChar_none (h : c ∉ s) : readGivenChar c s = none := by
  cases s with
  | nil => rfl
  | cons d ds =>
    rw [readGivenChar, if_neg]
    intro he
    exact h (he ▸ List.mem_cons_self)

theorem readIpv4Addr_none (h : '.' ∉ s) : readIpv4Addr s = none := by
  unfold readIpv4Addr
  cases hn : readNumber 10 3 256 false s with
  | none => rfl
  | some p =>
    obtain ⟨n, rest⟩ := p
    have hd : '.' ∉ rest := by
      rw [readNumber_rest hn]
      intro hm
      exact h ((List.dropWhile_sublist _).mem hm)
    simp only [Option.bind_eq_bind, Option.bind_some, readGivenChar_none hd, Option.bind_none]

theorem readIpv4Addr_none_of_head (h : ∀ c ∈ s.head?, toDigit 10 c = none) :
    readIpv4Addr s = none := by
  unfold readIpv4Addr
  rw [readNumber_none h]
  rfl

theorem readOctet (n : Nat) (hn : n < 256) (hr : ∀ c ∈ rest.head?, toDigit 10 c = none) :
    readNumber 10 3 256 false (Nat.toDigits 10 n ++ rest) = some (n, rest) := by
  apply readNumber_toDigits (by decide) (by decide) (by decide) (Nat.lt_trans hn (by decide)) hn hr

theorem groupsOf_four (base a : Nat) : groupsOf base 4 a =
    [a / base / base / base % base, a / base / base % base, a / base % base, a % base] := rfl

theorem readIpv4Addr_displayV4 (a : BitVec 32) (hr : ∀ c ∈ rest.head?, toDigit 10 c = none) :
    readIpv4Addr (displayV4 a ++ rest) = some (a, rest) := by
  have hlt (n : Nat) : n % 256 < 256 := Nat.mod_lt _ (by decide)
  have hdot (cs : List Char) : ∀ c ∈ ('.' :: cs).head?, toDigit 10 c = none := by
    intro c hc
    cases hc
    rfl
  have hv := foldl_groupsOf 256 4 a.toNat
  rw [groupsOf_four] at hv
  simp only [List.foldl_cons, List.foldl_nil, Nat.zero_mul, Nat.zero_add] at hv
  unfold displayV4 readIpv4Addr
  simp only [groupsOf_four, List.map_cons, List.map_nil, List.intercalate, List.intersperse,
    List.flatten_cons, List.flatten_nil, List.append_assoc, List.append_nil, List.cons_append,
    List.nil_append, readOctet _ (hlt _) (hdot _), readOctet _ (hlt _) hr, Option.bind_eq_bind,
    Option.bind_some, readGivenChar, if_true, Option.pure_def, hv]
  rw [show 256 ^ 4 = 2 ^ 32 from rfl, Nat.mod_eq_of_lt a.isLt, BitVec.ofNat_toNat,
    BitVec.setWidth_eq]

theorem readIpv4Addr_displayV4_nil (a : BitVec 32) :
    readIpv4Addr (displayV4 a) = some (a, []) := by
  have h : readIpv4Addr (displayV4 a ++ []) = some (a, []) := by
    apply readIpv4Addr_displayV4
    intro c hc
    cases hc
  rw [List.append_nil] at h
  exact h

/-- Groups after the first, each with its colon. -/
def colonGroups (groups : List Nat) : List Char :=
  groups.flatMap fun g => ':' :: Nat.toDigits 16 g

theorem displayGroups_cons (g : Nat) (gs : List Nat) :
    displayGroups (g :: gs) = Nat.toDigits 16 g ++ colonGroups gs := by
  induction gs generalizing g with
  | nil => simp only [displayGroups, colonGroups, List.map_cons, List.map_nil, List.intercalate,
      List.intersperse, List.flatten_cons, List.flatten_nil, List.flatMap_nil]
  | cons g' gs ih =>
    have hi := ih g'
    unfold displayGroups at hi ⊢
    rw [List.map_cons, List.map_cons, List.intercalate_cons_cons, ← List.map_cons, hi]
    simp only [colonGroups, List.flatMap_cons, List.append_assoc, List.cons_append,
      List.nil_append]

/-- What may follow a run of groups: nothing, or the two colons of the left-out run. -/
def GroupsEnd (rest : List Char) : Prop :=
  rest = [] ∨ ∃ cs, rest = ':' :: ':' :: cs

theorem GroupsEnd.head (h : GroupsEnd rest) : ∀ c ∈ rest.head?, c = ':' := by
  rintro c hc
  rcases h with rfl | ⟨cs, rfl⟩
  · cases hc
  · cases hc
    rfl

theorem head_colonGroups (gs : List Nat) (h : GroupsEnd rest) :
    ∀ c ∈ (colonGroups gs ++ rest).head?, toDigit 16 c = none := by
  intro c hc
  cases gs with
  | nil =>
    rw [h.head c hc]
    rfl
  | cons g gs =>
    cases hc
    rfl

theorem readGroups_end (first : Bool) (limit : Nat) (h : GroupsEnd rest) :
    readGroups first limit rest = ([], false, rest) := by
  cases limit with
  | zero => rfl
  | succ limit =>
    have hhead (c : Char) (hc : c = ':') : toDigit 16 c = none ∧ toDigit 10 c = none := by
      rw [hc]
      exact ⟨rfl, rfl⟩
    rcases h with rfl | ⟨cs, rfl⟩
    · have hnum : readNumber 16 4 65536 true [] = none := rfl
      cases first
      · simp only [readGroups, readGivenChar, Bool.false_eq_true, if_false, Option.bind_none,
          ite_self]
      · simp only [readGroups, if_true, Option.bind_some, readIpv4Addr_none (List.not_mem_nil),
          ite_self, hnum]
    · have hcolon (ds : List Char) : ∀ c ∈ (':' :: ds).head?, c = ':' := by
        intro c hc
        cases hc
        rfl
      have h4 (ds : List Char) : readIpv4Addr (':' :: ds) = none :=
        readIpv4Addr_none_of_head fun c hc => (hhead c (hcolon ds c hc)).2
      have h6 (ds : List Char) : readNumber 16 4 65536 true (':' :: ds) = none :=
        readNumber_none fun c hc => (hhead c (hcolon ds c hc)).1
      cases first
      · simp only [readGroups, readGivenChar, Bool.false_eq_true, if_false, if_true,
          Option.bind_some, h4, h6, ite_self]
      · simp only [readGroups, if_true, Option.bind_some, h4, h6, ite_self]

theorem dot_notMem_toDigits : '.' ∉ Nat.toDigits 16 n := by
  intro h
  have hd := isSome_toDigit_of_mem (b := 16) (by decide) (by decide) n h
  cases hd

theorem dot_notMem_colonGroups : '.' ∉ colonGroups gs := by
  intro h
  obtain ⟨g, -, hg⟩ := List.mem_flatMap.mp h
  rcases List.mem_cons.mp hg with hc | hc
  · cases hc
  · exact dot_notMem_toDigits hc

theorem dot_notMem_displayGroups : '.' ∉ displayGroups gs := by
  cases gs with
  | nil => exact List.not_mem_nil
  | cons g gs =>
    rw [displayGroups_cons]
    intro h
    rcases List.mem_append.mp h with h | h
    · exact dot_notMem_toDigits h
    · exact dot_notMem_colonGroups h

theorem readGroup (hg : g < 65536) (hr : ∀ c ∈ rest.head?, toDigit 16 c = none) :
    readNumber 16 4 65536 true (Nat.toDigits 16 g ++ rest) = some (g, rest) :=
  readNumber_toDigits (by decide) (by decide) (by decide) hg hg hr

theorem readGroups_colonGroups (hgs : ∀ g ∈ gs, g < 65536) (hlen : gs.length ≤ limit)
    (hend : GroupsEnd rest) (hdot : '.' ∉ rest) :
    readGroups false limit (colonGroups gs ++ rest) = (gs, false, rest) := by
  induction gs generalizing limit with
  | nil => exact readGroups_end false limit hend
  | cons g gs ih =>
    obtain ⟨limit, rfl⟩ : ∃ n, limit = n + 1 := Nat.exists_eq_succ_of_ne_zero (by
      rw [List.length_cons] at hlen
      omega)
    have h4 : readIpv4Addr (Nat.toDigits 16 g ++ (colonGroups gs ++ rest)) = none := by
      apply readIpv4Addr_none
      intro h
      rcases List.mem_append.mp h with h | h
      · exact dot_notMem_toDigits h
      · rcases List.mem_append.mp h with h | h
        · exact dot_notMem_colonGroups h
        · exact hdot h
    have hn := readGroup (hgs g List.mem_cons_self) (head_colonGroups gs hend)
    have hi := ih (fun g' hg' => hgs g' (List.mem_cons_of_mem _ hg'))
      (Nat.le_of_succ_le_succ hlen)
    have htext : colonGroups (g :: gs) ++ rest =
        ':' :: (Nat.toDigits 16 g ++ (colonGroups gs ++ rest)) := by
      simp only [colonGroups, List.flatMap_cons, List.cons_append, List.append_assoc]
    rw [htext]
    simp only [readGroups, readGivenChar, Bool.false_eq_true, if_false, if_true,
      Option.bind_some, h4, ite_self, hn, hi]

theorem readGroups_displayGroups (limit : Nat) (hgs : ∀ g ∈ gs, g < 65536)
    (hlen : gs.length ≤ limit) (hend : GroupsEnd rest) (hdot : '.' ∉ rest) :
    readGroups true limit (displayGroups gs ++ rest) = (gs, false, rest) := by
  cases gs with
  | nil => exact readGroups_end true limit hend
  | cons g gs =>
    obtain ⟨limit, rfl⟩ : ∃ n, limit = n + 1 := Nat.exists_eq_succ_of_ne_zero (by
      rw [List.length_cons] at hlen
      omega)
    have h4 : readIpv4Addr (displayGroups (g :: gs) ++ rest) = none := by
      apply readIpv4Addr_none
      intro h
      rcases List.mem_append.mp h with h | h
      · exact dot_notMem_displayGroups h
      · exact hdot h
    have hn := readGroup (hgs g List.mem_cons_self) (head_colonGroups gs hend)
    have hi := readGroups_colonGroups (fun g' hg' => hgs g' (List.mem_cons_of_mem _ hg'))
      (Nat.le_of_succ_le_succ hlen) hend hdot
    rw [displayGroups_cons, List.append_assoc] at h4 ⊢
    simp only [readGroups, if_true, Option.bind_some, h4, ite_self, hn, hi]

theorem ipv6OfGroups_groupsOf (a : BitVec 128) : ipv6OfGroups (groupsOf 65536 8 a.toNat) = a := by
  rw [ipv6OfGroups, foldl_groupsOf, show 65536 ^ 8 = 2 ^ 128 from rfl, Nat.mod_eq_of_lt a.isLt,
    BitVec.ofNat_toNat, BitVec.setWidth_eq]

theorem readIpv6Addr_groups (hlen : gs.length = 8) (hgs : ∀ g ∈ gs, g < 65536) :
    readIpv6Addr (displayGroups gs) = some (ipv6OfGroups gs, []) := by
  have hr := readGroups_displayGroups 8 hgs (Nat.le_of_eq hlen) (.inl rfl) List.not_mem_nil
  rw [List.append_nil] at hr
  simp only [readIpv6Addr, hr, hlen, if_true]

theorem readIpv6Addr_elided (hhead : readGroups true 8 s = (head, false, ':' :: ':' :: mid))
    (hne : head.length ≠ 8)
    (htail : readGroups true (8 - (head.length + 1)) mid = (tail, v4, rest)) :
    readIpv6Addr s = some (ipv6OfGroups
      (head ++ List.replicate (8 - head.length - tail.length) 0 ++ tail), rest) := by
  simp only [readIpv6Addr, hhead, hne, if_false, Bool.false_eq_true, readGivenChar, if_true,
    htail, Option.bind_eq_bind, Option.bind_some, Option.pure_def]

theorem readIpv6Addr_run (hlen : head.length + len + tail.length = 8) (hl : 1 < len)
    (hh : ∀ g ∈ head, g < 65536) (ht : ∀ g ∈ tail, g < 65536) :
    readIpv6Addr (displayGroups head ++ ':' :: ':' :: displayGroups tail) =
      some (ipv6OfGroups (head ++ List.replicate len 0 ++ tail), []) := by
  have hdot : '.' ∉ ':' :: ':' :: displayGroups tail := by
    simp only [List.mem_cons, dot_notMem_displayGroups, or_false, not_or]
    decide
  have hhead := readGroups_displayGroups 8 hh (by omega) (.inr ⟨_, rfl⟩) hdot
  have htail := readGroups_displayGroups (8 - (head.length + 1)) ht (by omega) (.inl rfl)
    List.not_mem_nil
  rw [List.append_nil] at htail
  have hrun : 8 - head.length - tail.length = len := by omega
  rw [readIpv6Addr_elided hhead (by omega) htail, hrun]

theorem readIpv6Addr_mapped (a : BitVec 32) :
    readIpv6Addr ("::ffff:".toList ++ displayV4 a) =
      some (ipv6OfGroups [0, 0, 0, 0, 0, 0xFFFF, a.toNat / 65536, a.toNat % 65536], []) := by
  have h4 := readIpv4Addr_displayV4_nil a
  have hfirst : readGroups true 8 ("::ffff:".toList ++ displayV4 a) =
      ([], false, "::ffff:".toList ++ displayV4 a) := readGroups_end true 8 (.inr ⟨_, rfl⟩)
  have hhex : readIpv4Addr ("ffff:".toList ++ displayV4 a) = none := by
    apply readIpv4Addr_none_of_head
    intro c hc
    cases hc
    rfl
  have hcolon : ∀ c ∈ (':' :: displayV4 a).head?, toDigit 16 c = none := by
    intro c hc
    cases hc
    rfl
  have hffff : 0xFFFF < 65536 := by decide
  have hg : readNumber 16 4 65536 true ("ffff:".toList ++ displayV4 a) =
      some (0xFFFF, ':' :: displayV4 a) := readGroup hffff hcolon
  have htail : readGroups true 7 ("ffff:".toList ++ displayV4 a) =
      ([0xFFFF, a.toNat / 65536, a.toNat % 65536], true, []) := by
    simp only [readGroups, if_true, Option.bind_some, hhex, ite_self, hg, readGivenChar,
      Bool.false_eq_true, if_false, h4, Nat.succ_ne_zero]
  exact readIpv6Addr_elided hfirst (by decide) htail

/-- The last two of the eight groups of an IPv6 address are its low 32 bits. -/
theorem groupsOf_mapped (n : Nat) (h : (groupsOf 65536 8 n).take 6 = [0, 0, 0, 0, 0, 0xFFFF]) :
    groupsOf 65536 8 n =
      [0, 0, 0, 0, 0, 0xFFFF, n % 2 ^ 32 / 65536, n % 2 ^ 32 % 65536] := by
  have hlast : (groupsOf 65536 8 n).drop 6 = [n % 2 ^ 32 / 65536, n % 2 ^ 32 % 65536] := by
    have hhi : n / 65536 % 65536 = n % 2 ^ 32 / 65536 := by omega
    have hlo : n % 65536 = n % 2 ^ 32 % 65536 := by omega
    rw [← hhi, ← hlo]
    rfl
  rw [← List.take_append_drop 6 (groupsOf 65536 8 n), h, hlast]
  rfl

theorem readIpv6Addr_displayV6 (a : BitVec 128) : readIpv6Addr (displayV6 a) = some (a, []) := by
  have hlen := groupsOf_length 65536 8 a.toNat
  have hlt : ∀ g ∈ groupsOf 65536 8 a.toNat, g < 65536 := fun g hg =>
    groupsOf_lt (by decide) hg
  unfold displayV6
  simp only []
  split
  · rename_i hmapped
    rw [readIpv6Addr_mapped, BitVec.toNat_ofNat, ← groupsOf_mapped _ hmapped,
      ipv6OfGroups_groupsOf]
  · have hrun : ZeroRun (groupsOf 65536 8 a.toNat)
        (longestZeroRun (0, 0) (0, 0) 0 (groupsOf 65536 8 a.toNat)) :=
      longestZeroRun_spec _ List.length_nil (.empty _) (.empty _) (.inl rfl)
    generalize hs : longestZeroRun (0, 0) (0, 0) 0 (groupsOf 65536 8 a.toNat) = run at hrun
    obtain ⟨start, len⟩ := run
    simp only []
    split
    · rename_i hl
      have hle := hrun.le_length (by omega)
      rw [readIpv6Addr_run _ hl _ _, hrun.split hle, ipv6OfGroups_groupsOf]
      · rw [List.length_take, List.length_drop]
        omega
      · intro g hg
        exact hlt g (List.mem_of_mem_take hg)
      · intro g hg
        exact hlt g (List.mem_of_mem_drop hg)
    · rw [readIpv6Addr_groups hlen hlt, ipv6OfGroups_groupsOf]

theorem readIpv4Addr_displayV6 (a : BitVec 128) : readIpv4Addr (displayV6 a) = none := by
  have hcolon (cs : List Char) : readIpv4Addr (':' :: cs) = none := by
    apply readIpv4Addr_none_of_head
    intro c hc
    cases hc
    rfl
  unfold displayV6
  simp only []
  split
  · exact hcolon _
  · split
    · apply readIpv4Addr_none
      intro h
      rcases List.mem_append.mp h with h | h
      · exact dot_notMem_displayGroups h
      · simp only [List.mem_cons, dot_notMem_displayGroups, or_false] at h
        revert h
        decide
    · exact readIpv4Addr_none dot_notMem_displayGroups

/-- The text of an address is read back as the address. -/
theorem IpAddr.parse_display (ip : IpAddr) : IpAddr.parse ip.display = some ip := by
  cases ip with
  | v4 a =>
    simp only [IpAddr.parse, IpAddr.display, readIpv4Addr_displayV4_nil]
  | v6 a =>
    simp only [IpAddr.parse, IpAddr.display, readIpv4Addr_displayV6, readIpv6Addr_displayV6,
      Option.map_some]

def isAddrChar (c : Char) : Bool := c = '.' ∨ c = ':' ∨ (toDigit 16 c).isSome

/-- A reader went from `s` to `rest` over address characters only. -/
def ReadsAddr (s rest : List Char) : Prop :=
  ∃ text, s = text ++ rest ∧ ∀ c ∈ text, isAddrChar c

theorem ReadsAddr.refl (s : List Char) : ReadsAddr s s :=
  ⟨[], rfl, fun _ h => absurd h List.not_mem_nil⟩

theorem ReadsAddr.trans (h : ReadsAddr s mid) (h' : ReadsAddr mid rest) : ReadsAddr s rest := by
  obtain ⟨t, rfl, ht⟩ := h
  obtain ⟨t', rfl, ht'⟩ := h'
  refine ⟨t ++ t', by rw [List.append_assoc], ?_⟩
  intro c hc
  rcases List.mem_append.mp hc with hc | hc
  · exact ht c hc
  · exact ht' c hc

theorem isAddrChar_of_digit (hr : radix ≤ 16) (h : (toDigit radix c).isSome) : isAddrChar c := by
  have h16 : (toDigit 16 c).isSome := by
    obtain ⟨d, hd⟩ := Option.isSome_iff_exists.mp h
    unfold toDigit at hd ⊢
    rw [Option.filter_eq_some_iff, decide_eq_true_eq] at hd
    rw [Option.isSome_iff_exists]
    refine ⟨d, Option.filter_eq_some_iff.mpr ⟨hd.1, decide_eq_true ?_⟩⟩
    exact Nat.lt_of_lt_of_le hd.2 hr
  rw [isAddrChar, decide_eq_true_eq]
  exact .inr (.inr h16)

theorem readNumber_reads (hr : radix ≤ 16)
    (h : readNumber radix maxDigits bound zeroPrefix s = some (n, rest)) : ReadsAddr s rest := by
  rw [readNumber_rest h]
  refine ⟨_, List.takeWhile_append_dropWhile.symm, ?_⟩
  intro c hc
  have hd := List.mem_takeWhile_imp hc
  exact isAddrChar_of_digit hr hd

theorem readGivenChar_reads (hc : isAddrChar c) (h : readGivenChar c s = some rest) :
    ReadsAddr s rest := by
  cases s with
  | nil => cases h
  | cons d ds =>
    rw [readGivenChar] at h
    split at h
    · rename_i hd
      cases h
      refine ⟨[d], rfl, ?_⟩
      intro c' hc'
      rw [List.mem_singleton.mp hc', hd]
      exact hc
    · cases h

theorem readIpv4Addr_reads (h : readIpv4Addr s = some (a, rest)) : ReadsAddr s rest := by
  simp only [readIpv4Addr, Option.bind_eq_bind, Option.bind_eq_some_iff, Option.pure_def,
    Option.some.injEq, Prod.mk.injEq, Prod.exists] at h
  obtain ⟨_, s₁, h₁, s₂, h₂, _, s₃, h₃, s₄, h₄, _, s₅, h₅, s₆, h₆, _, s₇, h₇, -, rfl⟩ := h
  have hten : 10 ≤ 16 := by decide
  have hdot : isAddrChar '.' := by decide
  apply (readNumber_reads hten h₁).trans
  apply (readGivenChar_reads hdot h₂).trans
  apply (readNumber_reads hten h₃).trans
  apply (readGivenChar_reads hdot h₄).trans
  apply (readNumber_reads hten h₅).trans
  apply (readGivenChar_reads hdot h₆).trans
  exact readNumber_reads hten h₇

theorem readGroups_reads (first : Bool) (limit : Nat) (s : List Char) :
    ReadsAddr s (readGroups first limit s).2.2 := by
  induction limit generalizing first s with
  | zero => exact .refl s
  | succ limit ih =>
    have hstart : ∀ s', (if first then some s else readGivenChar ':' s) = some s' →
        ReadsAddr s s' := by
      intro s' h
      split at h
      · cases h
        exact .refl s
      · exact readGivenChar_reads (by decide) h
    rw [readGroups]
    split
    · rename_i a rest h
      split at h
      · cases h
      · obtain ⟨s', hs', h4⟩ := Option.bind_eq_some_iff.mp h
        exact (hstart s' hs').trans (readIpv4Addr_reads h4)
    · split
      · rename_i g rest h
        obtain ⟨s', hs', hn⟩ := Option.bind_eq_some_iff.mp h
        exact (hstart s' hs').trans ((readNumber_reads (by decide) hn).trans (ih false rest))
      · exact .refl s

theorem readIpv6Addr_reads (h : readIpv6Addr s = some (a, rest)) : ReadsAddr s rest := by
  have hhead := readGroups_reads true 8 s
  unfold readIpv6Addr at h
  generalize readGroups true 8 s = groups at h hhead
  obtain ⟨head, headIpv4, mid⟩ := groups
  simp only [] at h hhead
  split at h
  · cases h
    exact hhead
  split at h
  · cases h
  · simp only [Option.bind_eq_bind, Option.bind_eq_some_iff, Option.pure_def, Option.some.injEq,
      Prod.mk.injEq] at h
    obtain ⟨s₁, h₁, s₂, h₂, -, rfl⟩ := h
    apply hhead.trans
    apply (readGivenChar_reads (by decide) h₁).trans
    apply (readGivenChar_reads (by decide) h₂).trans
    exact readGroups_reads true _ s₂

/-- An accepted address text has digits, dots and colons only. -/
theorem IpAddr.parse_chars (h : IpAddr.parse s = some ip) : ∀ c ∈ s, isAddrChar c := by
  have hreads : ReadsAddr s [] := by
    unfold IpAddr.parse at h
    simp only [] at h
    split at h
    · rename_i a hres
      split at hres
      · rename_i b rest h4
        cases hres
        exact readIpv4Addr_reads h4
      · obtain ⟨⟨b, rest⟩, h6, he⟩ := Option.map_eq_some_iff.mp hres
        cases he
        exact readIpv6Addr_reads h6
    · cases h
  obtain ⟨text, rfl, ht⟩ := hreads
  intro c hc
  rw [List.append_nil] at hc
  exact ht c hc

theorem IpAddr.parse_ne_nil (h : IpAddr.parse s = some ip) : s ≠ [] := by
  rintro rfl
  cases h

theorem IpAddr.display_chars (ip : IpAddr) : ∀ c ∈ ip.display, isAddrChar c :=
  IpAddr.parse_chars ip.parse_display

end AiFw.Net
