import AiFw.Pf.Match

namespace AiFw.Pf
open AiFw.Lib AiFw.Net
set_option autoImplicit true

/-- Both sides match the same addresses and ports, whatever the tables hold. -/
def HostMatch.Same (h h' : HostMatch) : Prop :=
  ∀ tables ip port, h.accepts tables ip port = h'.accepts tables ip port

/-- Every address of a family, so that none of it is left by the inversion. -/
def Address.Whole : Address → Prop
  | .any => True
  | .network _ len => len = 0
  | _ => False

/-- An inverted address leaves out what the address takes in. -/
theorem Address.exists_accepts (a : Address) :
    ∃ tables ip, a.accepts tables false ip = true ∧ a.accepts tables true ip = false := by
  cases a with
  | any => exact ⟨fun _ _ => false, .unspecifiedV4, rfl, rfl⟩
  | single host =>
    refine ⟨fun _ _ => false, host, ?_, ?_⟩
    · rw [accepts, host.sameFamily_self, beq_self_eq_true]
      rfl
    · rw [accepts, host.sameFamily_self, beq_self_eq_true]
      rfl
  | network net len =>
    refine ⟨fun _ _ => false, net, ?_, ?_⟩
    · rw [accepts, net.sameFamily_self, net.inNet_self]
      rfl
    · rw [accepts, net.sameFamily_self, net.inNet_self]
      rfl
  | table name => exact ⟨fun _ _ => true, .unspecifiedV4, rfl, rfl⟩

/-- The inversion leaves nothing exactly of a whole family. -/
theorem Address.inverted_empty_iff (a : Address) :
    (∀ tables ip, a.accepts tables true ip = false) ↔ a.Whole := by
  cases a with
  | any => exact iff_of_true (fun _ _ => rfl) trivial
  | single host =>
    refine iff_of_false ?_ id
    intro h
    have hflip := h (fun _ _ => false) host.flipTop
    have hne : (host == host.flipTop) = false := beq_eq_false_iff_ne.mpr host.flipTop_ne.symm
    rw [accepts, host.sameFamily_flipTop, hne] at hflip
    cases hflip
  | network net len =>
    constructor
    · intro h
      by_contra hlen
      change ¬len = 0 at hlen
      have hpos : 0 < len.toNat := by
        rw [Nat.pos_iff_ne_zero]
        intro hzero
        exact hlen (UInt8.toNat_inj.mp hzero)
      have hout : net.inNet len.toNat net.flipTop = false := by
        rcases Nat.le_total len.toNat net.width with hle | hle
        · exact net.inNet_flipTop hpos hle
        · rw [← Bool.not_eq_true, IpAddr.inNet_iff_div, Nat.sub_eq_zero_of_le hle]
          rintro ⟨-, hdiv⟩
          have hin : net.inNet net.width net.flipTop = true := by
            rw [IpAddr.inNet_iff_div, Nat.sub_self]
            exact ⟨net.sameFamily_flipTop, hdiv⟩
          rw [net.inNet_flipTop net.width_pos (Nat.le_refl _)] at hin
          cases hin
      have hflip := h (fun _ _ => false) net.flipTop
      rw [accepts, net.sameFamily_flipTop, hout] at hflip
      cases hflip
    · intro hlen tables ip
      change len = 0 at hlen
      rw [accepts, hlen]
      change (net.sameFamily ip && (net.inNet 0 ip != true)) = false
      rw [net.inNet_zero]
      cases net.sameFamily ip <;> rfl
  | table name =>
    refine iff_of_false ?_ id
    intro h
    have hempty := h (fun _ _ => false) .unspecifiedV4
    cases hempty

/-- A rule without inversion matches what the address asks for if the ports are the same; where the
address is inverted only if both match nothing. -/
theorem HostMatch.same_iff (invert : Bool) (a : Address) (p q : Option PortRange) :
    HostMatch.Same ⟨false, a, q⟩ ⟨invert, a, p⟩ ↔
      if invert then (∀ n, portAccepts n q = false) ∧ ((∀ n, portAccepts n p = false) ∨ a.Whole)
      else ∀ n, portAccepts n q = portAccepts n p := by
  obtain ⟨tables, ip, hin, hout⟩ := a.exists_accepts
  unfold HostMatch.Same HostMatch.accepts
  cases invert with
  | false =>
    rw [if_neg Bool.false_ne_true]
    constructor
    · intro h n
      have hn := h tables ip n
      rwa [hin, Bool.true_and, Bool.true_and] at hn
    · intro h tables ip n
      rw [h n]
  | true =>
    rw [if_pos rfl, ← a.inverted_empty_iff]
    constructor
    · intro h
      have hq : ∀ n, portAccepts n q = false := by
        intro n
        have hn := h tables ip n
        rwa [hin, hout, Bool.true_and, Bool.false_and] at hn
      refine ⟨hq, ?_⟩
      by_cases hp : ∀ n, portAccepts n p = false
      · exact .inl hp
      · obtain ⟨n, hn⟩ := not_forall.mp hp
        rw [Bool.not_eq_false] at hn
        refine .inr ?_
        intro tables ip
        have hboth := h tables ip n
        rw [hq n, hn, Bool.and_false, Bool.and_true] at hboth
        exact hboth.symm
    · rintro ⟨hq, hp | hwhole⟩ tables ip n
      · rw [hq n, hp n, Bool.and_false, Bool.and_false]
      · rw [hq n, hwhole tables ip, Bool.and_false, Bool.false_and]

theorem portAccepts_start {range : PortRange} (h : range.start ≤ range.end_) :
    portAccepts range.start (some range) = true := by
  rw [portAccepts, Bool.and_eq_true, decide_eq_true_eq, decide_eq_true_eq]
  exact ⟨UInt16.le_refl _, h⟩

/-- The range of all ports. -/
def allPorts : PortRange := ⟨0, 65535⟩

theorem portAccepts_all_iff {range : PortRange} :
    (∀ n, portAccepts n (some range) = true) ↔ range = allPorts := by
  obtain ⟨start, stop⟩ := range
  simp only [portAccepts, Bool.and_eq_true, decide_eq_true_eq, UInt16.le_iff_toNat_le]
  constructor
  · intro h
    have hstart := (h 0).1
    have hstop := (h 65535).2
    have hlt := stop.toNat_lt
    have hzero : (0 : UInt16).toNat = 0 := rfl
    have hmax : (65535 : UInt16).toNat = 65535 := rfl
    have hstart' : start = 0 := UInt16.toNat_inj.mp (by omega)
    have hstop' : stop = 65535 := UInt16.toNat_inj.mp (by omega)
    rw [hstart', hstop', allPorts]
  · intro h n
    cases h
    have hlt := n.toNat_lt
    have hmax : (65535 : UInt16).toNat = 65535 := rfl
    exact ⟨Nat.zero_le _, by omega⟩

theorem portAccepts_none_iff {range : PortRange} :
    (∀ n, portAccepts n (some range) = false) ↔ range.end_ < range.start := by
  rw [← not_iff_not, UInt16.not_lt]
  constructor
  · intro h
    obtain ⟨n, hn⟩ := not_forall.mp h
    rw [Bool.not_eq_false, portAccepts, Bool.and_eq_true, decide_eq_true_eq,
      decide_eq_true_eq] at hn
    exact UInt16.le_trans hn.1 hn.2
  · intro h hnone
    have hstart := portAccepts_start h
    rw [hnone] at hstart
    cases hstart

end AiFw.Pf
