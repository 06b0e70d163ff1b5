import AiFw.Vpn.WgPeers

namespace AiFw.Vpn
open AiFw.Lib AiFw.Net AiFw.Pf
open AiFw.Backup (WgPeer)
open AiFw.Backup.VpnEngine (addressHost)
set_option autoImplicit true

def octets (s : List Char) : List Nat := (splitOn '.' s).filterMap (parseUnsigned 256)

/-- `{base[0]}.{base[1]}.{base[2]}.{last}`. -/
def candidateText (a b c last : Nat) : List Char :=
  List.intercalate ['.'] ([a, b, c, last].map (Nat.toDigits 10))

/-- The address of the tunnel and its peers are those that the two queries return. -/
def nextPeerIp (address : Address) (peers : List WgPeer) : Except AifwError (List Char) :=
  let ip := addressHost address
  match octets ip with
  | [a, b, c, _] =>
    let used := peers.flatMap fun p => p.allowedIps.map addressHost
    match (List.range' 2 253).find? fun last =>
        candidateText a b c last ≠ ip && !used.contains (candidateText a b c last) with
    | some last => .ok (candidateText a b c last ++ "/32".toList)
    | none => .error (.validation "No free IPs in tunnel subnet".toList)
  | _ => .error (.validation "Invalid tunnel address".toList)

/-- The first and the last address of the subnet. -/
def networkAddr (a : BitVec 32) (p : Nat) : BitVec 32 := (a >>> (32 - p)) <<< (32 - p)

def broadcastAddr (a : BitVec 32) (p : Nat) : BitVec 32 :=
  networkAddr a p ||| ~~~(BitVec.allOnes 32 <<< (32 - p))

example : networkAddr 0x0A00000A 28 = 0x0A000000 ∧ broadcastAddr 0x0A00000A 28 = 0x0A00000F := by
  decide

/-- An address that a new peer of the tunnel can have. -/
structure Assignable (a : BitVec 32) (p : UInt8) (peers : List WgPeer) (x : BitVec 32) : Prop where
  inSubnet : (IpAddr.v4 a).inNet p.toNat (.v4 x) = true
  notNetwork : x ≠ networkAddr a p.toNat
  notBroadcast : x ≠ broadcastAddr a p.toNat
  notTunnel : x ≠ a
  uncovered : ∀ peer ∈ peers, ∀ allowed ∈ peer.allowedIps, allowed.covers (.v4 x) = false

/-- A returned address is assignable, and there is none where none is returned. -/
structure AssignsWell (a : BitVec 32) (p : UInt8) (peers : List WgPeer) : Prop where
  ok : ∀ text, nextPeerIp (.network (.v4 a) p) peers = .ok text →
    ∃ x, text = (IpAddr.v4 x).display ++ "/32".toList ∧ Assignable a p peers x
  error : ∀ e, nextPeerIp (.network (.v4 a) p) peers = .error e → ¬∃ x, Assignable a p peers x

/-- The address with another last octet. -/
def withLast (a : BitVec 32) (last : Nat) : BitVec 32 := BitVec.ofNat 32 (a.toNat / 256 * 256 + last)

/-- Some peer's list has the address, with whatever length. -/
def Listed (peers : List WgPeer) (x : BitVec 32) : Prop :=
  ∃ peer ∈ peers, .single (.v4 x) ∈ peer.allowedIps ∨
    ∃ len, .network (.v4 x) len ∈ peer.allowedIps

/-- What the search needs of the addresses it looks at, the ones from `.2` to `.254` around the
tunnel's own: those it cannot skip and that come first are assignable, and they are not used up
before the subnet is. -/
structure CandidatesSuffice (a : BitVec 32) (p : UInt8) (peers : List WgPeer) : Prop where
  lowest : ∀ k, 2 ≤ k → k ≤ 254 → ¬Assignable a p peers (withLast a k) →
    withLast a k = a ∨ Listed peers (withLast a k) ∨
      ∃ j, 2 ≤ j ∧ j < k ∧ Assignable a p peers (withLast a j)
  reached : (∃ x, Assignable a p peers x) →
    ∃ k, 2 ≤ k ∧ k ≤ 254 ∧ Assignable a p peers (withLast a k)

theorem display_injective {x y : IpAddr} (h : x.display = y.display) : x = y := by
  have hx := x.parse_display
  rw [h, y.parse_display] at hx
  exact (Option.some.inj hx).symm

theorem octets_display (a : BitVec 32) : octets (IpAddr.v4 a).display = groupsOf 256 4 a.toNat := by
  have hlt : ∀ g ∈ groupsOf 256 4 a.toNat, g < 256 := by
    intro g hg
    exact groupsOf_lt (by decide) hg
  have hparts : ∀ part ∈ (groupsOf 256 4 a.toNat).map (Nat.toDigits 10), '.' ∉ part := by
    intro part hpart hdot
    obtain ⟨g, -, rfl⟩ := List.mem_map.mp hpart
    have hdigit := isSome_toDigit_of_mem (b := 10) (by decide) (by decide) g hdot
    revert hdigit
    decide
  unfold octets IpAddr.display displayV4
  rw [splitOn_intercalate hparts (by rw [groupsOf_four]; exact List.cons_ne_nil _ _),
    List.filterMap_map]
  have hread : ∀ l : List Nat, (∀ g ∈ l, g < 256) →
      l.filterMap (parseUnsigned 256 ∘ Nat.toDigits 10) = l := by
    intro l hl
    induction l with
    | nil => rfl
    | cons g l ih =>
      have hg : (parseUnsigned 256 ∘ Nat.toDigits 10) g = some g :=
        parseUnsigned_toDigits (hl g List.mem_cons_self)
      rw [List.filterMap_cons_some hg, ih fun g hg => hl g (List.mem_cons_of_mem _ hg)]
  exact hread _ hlt

theorem candidateText_eq (a : BitVec 32) (hk : k < 256) :
    candidateText (a.toNat / 256 / 256 / 256 % 256) (a.toNat / 256 / 256 % 256)
      (a.toNat / 256 % 256) k = (IpAddr.v4 (withLast a k)).display := by
  have hnat : (withLast a k).toNat = a.toNat / 256 * 256 + k := by
    have hlt := a.isLt
    rw [withLast, BitVec.toNat_ofNat, Nat.mod_eq_of_lt]
    omega
  have hhigh : (a.toNat / 256 * 256 + k) / 256 = a.toNat / 256 := by omega
  have hlow : (a.toNat / 256 * 256 + k) % 256 = k := by omega
  rw [IpAddr.display, displayV4, groupsOf_four, hnat, hhigh, hlow]
  rfl

theorem takeWhile_display (ip : IpAddr) : ip.display.takeWhile (· ≠ '/') = ip.display := by
  apply List.takeWhile_eq_self_iff.mpr
  intro c hc
  rw [decide_eq_true_eq]
  rintro rfl
  exact slash_notMem_display ip hc

theorem addressHost_network (ip : IpAddr) (len : UInt8) :
    addressHost (.network ip len) = ip.display := by
  have hall : ∀ c ∈ ip.display, decide (c ≠ '/') = true :=
    List.takeWhile_eq_self_iff.mp (takeWhile_display ip)
  rw [addressHost, Address.display, List.takeWhile_append_of_pos hall, List.takeWhile_cons,
    if_neg (by decide), List.append_nil]

/-- The text of an entry up to the length is an address's if the entry is written with it. -/
theorem addressHost_eq_display {allowed : Address} {x : BitVec 32} :
    addressHost allowed = (IpAddr.v4 x).display ↔
      allowed = .single (.v4 x) ∨ ∃ len, allowed = .network (.v4 x) len := by
  cases allowed with
  | any =>
    refine iff_of_false ?_ (by rintro (h | ⟨len, h⟩) <;> cases h)
    intro h
    have hparse := (IpAddr.v4 x).parse_display
    rw [← h] at hparse
    revert hparse
    have hany : IpAddr.parse (addressHost .any) = none := by decide +kernel
    rw [hany]
    exact nofun
  | single ip =>
    rw [addressHost, Address.display, takeWhile_display]
    constructor
    · intro h
      rw [display_injective h]
      exact .inl rfl
    · rintro (h | ⟨len, h⟩)
      · injection h with h
        rw [h]
      · cases h
  | network ip len =>
    rw [addressHost_network]
    constructor
    · intro h
      rw [display_injective h]
      exact .inr ⟨len, rfl⟩
    · rintro (h | ⟨len, h⟩)
      · cases h
      · injection h with h
        rw [h]
  | table name =>
    refine iff_of_false ?_ (by rintro (h | ⟨len, h⟩) <;> cases h)
    intro h
    have hmem : '<' ∈ (IpAddr.v4 x).display := by
      rw [← h, addressHost, Address.display, List.cons_append, List.takeWhile_cons,
        if_pos (by decide)]
      exact List.mem_cons_self
    have haddr := (IpAddr.v4 x).display_chars '<' hmem
    revert haddr
    decide

theorem mem_used_iff {peers : List WgPeer} {x : BitVec 32} :
    (IpAddr.v4 x).display ∈ (peers.flatMap fun p => p.allowedIps.map addressHost) ↔
      Listed peers x := by
  simp only [List.mem_flatMap, List.mem_map, addressHost_eq_display]
  constructor
  · rintro ⟨peer, hpeer, allowed, hallowed, rfl | ⟨len, rfl⟩⟩
    · exact ⟨peer, hpeer, .inl hallowed⟩
    · exact ⟨peer, hpeer, .inr ⟨len, hallowed⟩⟩
  · rintro ⟨peer, hpeer, hallowed | ⟨len, hallowed⟩⟩
    · exact ⟨peer, hpeer, _, hallowed, .inl rfl⟩
    · exact ⟨peer, hpeer, _, hallowed, .inr ⟨len, rfl⟩⟩

/-- The search does not skip the candidate. -/
def Untaken (a : BitVec 32) (peers : List WgPeer) (k : Nat) : Prop :=
  withLast a k ≠ a ∧ ¬Listed peers (withLast a k)

/-- A candidate that is skipped is the tunnel's own address, or written in an entry. -/
theorem own_or_listed (h : ¬Untaken a peers k) :
    withLast a k = a ∨ Listed peers (withLast a k) := by
  rwa [Untaken, not_and_or, not_not, not_not] at h

/-- The search returns the first candidate that it does not skip. -/
theorem nextPeerIp_cases (a : BitVec 32) (p : UInt8) (peers : List WgPeer) :
    (∃ k, 2 ≤ k ∧ k ≤ 254 ∧ Untaken a peers k ∧ (∀ j, 2 ≤ j → j < k → ¬Untaken a peers j) ∧
      nextPeerIp (.network (.v4 a) p) peers =
        .ok ((IpAddr.v4 (withLast a k)).display ++ "/32".toList)) ∨
    (∀ k, 2 ≤ k → k ≤ 254 → ¬Untaken a peers k) ∧
      ∃ e, nextPeerIp (.network (.v4 a) p) peers = .error e := by
  unfold nextPeerIp
  rw [addressHost_network]
  dsimp only
  rw [octets_display, groupsOf_four]
  dsimp only
  have htest (k : Nat) (hk : k < 256) : (decide (candidateText (a.toNat / 256 / 256 / 256 % 256)
      (a.toNat / 256 / 256 % 256) (a.toNat / 256 % 256) k ≠ (IpAddr.v4 a).display) &&
      !(peers.flatMap fun p => p.allowedIps.map addressHost).contains
        (candidateText (a.toNat / 256 / 256 / 256 % 256) (a.toNat / 256 / 256 % 256)
          (a.toNat / 256 % 256) k)) = true ↔ Untaken a peers k := by
    have htext : (IpAddr.v4 (withLast a k)).display = (IpAddr.v4 a).display ↔ withLast a k = a := by
      constructor
      · intro h
        injection display_injective h
      · intro h
        rw [h]
    rw [candidateText_eq a hk, Bool.and_eq_true, decide_eq_true_eq, Bool.not_eq_true',
      ← Bool.not_eq_true, List.contains_iff_mem, mem_used_iff, ne_eq, htext]
    exact Iff.rfl
  split
  · next k hfound =>
    obtain ⟨hk, hrange, hbefore⟩ := List.find?_range'_eq_some.mp hfound
    rw [List.mem_range'_1] at hrange
    refine .inl ⟨k, hrange.1, by omega, (htest k (by omega)).mp hk, ?_, ?_⟩
    · intro j hj hjk hfree
      have hskip := hbefore j hj hjk
      rw [(htest j (by omega)).mpr hfree] at hskip
      cases hskip
    · rw [candidateText_eq a (by omega)]
  · next hnone =>
    refine .inr ⟨?_, _, rfl⟩
    intro k hk hk' hfree
    have hskip := List.find?_eq_none.mp hnone k (List.mem_range'_1.mpr (by omega))
    exact hskip ((htest k (by omega)).mpr hfree)

/-- An address that an entry is written with is covered by it. -/
theorem Assignable.unlisted {p : UInt8} (h : Assignable a p peers x) : ¬Listed peers x := by
  rintro ⟨peer, hpeer, hlisted | ⟨len, hlisted⟩⟩
  · have hcover := h.uncovered peer hpeer _ hlisted
    rw [Address.covers, decide_eq_false_iff_not] at hcover
    exact hcover rfl
  · have hcover := h.uncovered peer hpeer _ hlisted
    rw [Address.covers, IpAddr.inNet_self] at hcover
    cases hcover

theorem Assignable.untaken {p : UInt8} (h : Assignable a p peers (withLast a k)) :
    Untaken a peers k :=
  ⟨h.notTunnel, h.unlisted⟩

/-- The answers are right exactly if the candidates around the tunnel's address suffice. -/
theorem assignsWell_iff (a : BitVec 32) (p : UInt8) (peers : List WgPeer) :
    AssignsWell a p peers ↔ CandidatesSuffice a p peers := by
  obtain ⟨k, hk, hk', hfree, hfirst, hok⟩ | ⟨hnone, e, herror⟩ := nextPeerIp_cases a p peers
  · constructor
    · intro hwell
      obtain ⟨x, hx, hgood⟩ := hwell.ok _ hok
      have hxk : withLast a k = x := by
        injection display_injective (List.append_cancel_right hx)
      rw [← hxk] at hgood
      constructor
      · intro j hj hj' hbad
        rcases Nat.lt_trichotomy j k with hlt | rfl | hlt
        · exact (own_or_listed (hfirst j hj hlt)).imp_right .inl
        · exact absurd hgood hbad
        · exact .inr (.inr ⟨k, hk, hlt, hgood⟩)
      · intro _
        exact ⟨k, hk, hk', hgood⟩
    · intro hsuffice
      have hgood : Assignable a p peers (withLast a k) := by
        by_contra hbad
        obtain htunnel | hlisted | ⟨j, hj, hjk, hgood⟩ := hsuffice.lowest k hk hk' hbad
        · exact hfree.1 htunnel
        · exact hfree.2 hlisted
        · exact hfirst j hj hjk hgood.untaken
      constructor
      · intro text htext
        rw [hok] at htext
        injection htext with htext
        exact ⟨_, htext.symm, hgood⟩
      · intro e herror
        rw [hok] at herror
        cases herror
  · have hbad : ∀ j, 2 ≤ j → j ≤ 254 → ¬Assignable a p peers (withLast a j) := by
      intro j hj hj' hgood
      exact hnone j hj hj' hgood.untaken
    constructor
    · intro hwell
      constructor
      · intro j hj hj' _
        exact (own_or_listed (hnone j hj hj')).imp_right .inl
      · intro hexists
        exact absurd hexists (hwell.error e herror)
    · intro hsuffice
      constructor
      · intro text hok
        rw [herror] at hok
        cases hok
      · intro _ _ hexists
        obtain ⟨j, hj, hj', hgood⟩ := hsuffice.reached hexists
        exact hbad j hj hj' hgood

/-- The upper half of a `/24` is searched from below. -/
theorem half_assigned_outside :
    ¬∀ (a : BitVec 32) (p : UInt8) (peers : List WgPeer), p.toNat ≤ 30 → AssignsWell a p peers := by
  intro h
  have hok : nextPeerIp (.network (.v4 0x0A000081) 25) [] = .ok "10.0.0.2/32".toList := by
    decide +kernel
  obtain ⟨x, hx, hgood⟩ := (h 0x0A000081 25 [] (by decide)).ok _ hok
  have hdisplay : "10.0.0.2/32".toList = (IpAddr.v4 0x0A000002).display ++ "/32".toList := by
    decide +kernel
  rw [hdisplay] at hx
  injection display_injective (List.append_cancel_right hx) with hx
  have hin := hgood.inSubnet
  rw [← hx] at hin
  revert hin
  decide

end AiFw.Vpn
