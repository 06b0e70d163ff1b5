import AiFw.Ids.FlowTable
import AiFw.Ids.Ruleset
import AiFw.Lib.ByteSearch

namespace AiFw.Ids
open AiFw.Net AiFw.Lib
set_option autoImplicit true

/-- The search itself: a byte search for one byte, block by block for more; an empty pattern is
always found. -/
def containsPattern (pattern searchRange : Bytes) : Bool :=
  match pattern with
  | [] => true
  | [b] => searchRange.contains b
  | _ => (windows pattern.length searchRange).any (· == pattern)

theorem infix_of_containsPattern (h : containsPattern pattern searchRange = true) :
    pattern <:+: searchRange := by
  cases pattern with
  | nil => exact List.nil_infix
  | cons b rest =>
    cases rest with
    | nil =>
      simp only [containsPattern, List.contains_iff_mem] at h
      obtain ⟨pre, post, he⟩ := List.append_of_mem h
      exact ⟨pre, post, by rw [he, List.append_assoc, List.singleton_append]⟩
    | cons c rest =>
      simp only [containsPattern, List.any_eq_true, beq_iff_eq] at h
      obtain ⟨w, hm, he⟩ := h
      exact he ▸ infix_of_mem_windows hm

/-- The sum of offset and depth wraps at the word size. -/
def contentMatch (content : ContentMatch) (data : Bytes) : Bool :=
  let pattern := if content.nocase then toAsciiLowercase content.pattern else content.pattern
  let searchData := if content.nocase then toAsciiLowercase data else data
  let start := content.offset.getD 0
  let stop := match content.depth with
    | some d => min (start + d).toNat searchData.length
    | none => searchData.length
  if start.toNat ≥ searchData.length ∨ stop ≤ start.toNat then false
  else containsPattern pattern (slice start.toNat stop searchData)

/-- Whatever the position constraints, a match is an occurrence up to ASCII case. -/
theorem occursNocase_of_contentMatch (h : contentMatch content data = true) :
    OccursNocase content.pattern data := by
  cases hn : content.nocase with
  | true =>
    simp only [contentMatch, hn, if_true] at h
    rw [ite_eq_iff] at h
    rcases h with ⟨-, h⟩ | ⟨-, h⟩
    · cases h
    · exact (infix_of_containsPattern h).trans (slice_isInfix _ _ _)
  | false =>
    simp only [contentMatch, hn, Bool.false_eq_true, if_false] at h
    rw [ite_eq_iff] at h
    rcases h with ⟨-, h⟩ | ⟨-, h⟩
    · cases h
    · exact .ofInfix ((infix_of_containsPattern h).trans (slice_isInfix _ _ _))

/-- A shift by the full width leaves the mask alone, since the amount is taken modulo the
width. -/
def cidrMask (width : Nat) (pfx : Nat) : BitVec width :=
  if pfx ≥ width then BitVec.allOnes width
  else BitVec.allOnes width <<< ((width - pfx) % width)

def ipInCidr (ip network : IpAddr) (pfx : Nat) : Bool :=
  match ip, network with
  | .v4 ip, .v4 net => ip &&& cidrMask 32 pfx == net &&& cidrMask 32 pfx
  | .v6 ip, .v6 net => ip &&& cidrMask 128 pfx == net &&& cidrMask 128 pfx
  | _, _ => false

theorem group_piece_length {text piece : List Char}
    (hg : text.head? = some '[' ∧ text.getLast? = some ']')
    (h : piece ∈ splitOn ',' text.tail.dropLast) : (trim piece).length < text.length := by
  have hp := Nat.le_trans (trim_length piece) (splitOn_length h)
  cases text with
  | nil => cases hg.1
  | cons c cs =>
    rw [List.tail_cons, List.length_dropLast] at hp
    rw [List.length_cons]
    omega

/-- What address and port constraints have in common: variables are not expanded and match
anything, `!` negates, a bracketed group matches when one of its members does. -/
def matchConstraint (atom : List Char → Bool) (text : List Char) : Bool :=
  match text with
  | '$' :: _ => true
  | '!' :: inner => !matchConstraint atom inner
  | text =>
    if _hg : text.head? = some '[' ∧ text.getLast? = some ']' then
      (splitOn ',' text.tail.dropLast).attach.any fun piece =>
        matchConstraint atom (trim piece.1)
    else atom text
termination_by text.length
decreasing_by
  · rw [List.length_cons]
    omega
  · exact group_piece_length _hg piece.2

def matchAddressAtom (ip : IpAddr) (text : List Char) : Bool :=
  let cidr := do
    let (net, pfx) ← splitOnce '/' text
    return (← IpAddr.parse net, ← parseUnsigned 256 pfx)
  match cidr with
  | some (net, pfx) => ipInCidr ip net pfx
  | none =>
    match IpAddr.parse text with
    | some addr => ip == addr
    | none => true

def matchAddress (constraint : String) (ip : Option IpAddr) : Bool :=
  match ip with
  | none => false
  | some ip => matchConstraint (matchAddressAtom ip) constraint.toList

def matchPortAtom (port : UInt16) (text : List Char) : Bool :=
  match splitOnce ':' text with
  | some (low, high) =>
    let low := (parseUnsigned 65536 low).getD 0
    let high := (parseUnsigned 65536 high).getD 65535
    decide (port.toNat ≥ low ∧ port.toNat ≤ high)
  | none =>
    match parseUnsigned 65536 text with
    | some p => port.toNat == p
    | none => true

def matchPort (constraint : String) (port : Option UInt16) : Bool :=
  match port with
  | none => false
  | some port => matchConstraint (matchPortAtom port) constraint.toList

def matchProtocol (proto : String) (packet : DecodedPacket) (flow : Option Flow) : Bool :=
  let appIs (app : AppProto) : Bool := flow.any fun f => f.appProto == some app
  match proto with
  | "tcp" => packet.protocol == .tcp
  | "udp" => packet.protocol == .udp
  | "icmp" => packet.protocol == .icmpv4
  | "ip" => true
  | "http" => appIs .http
  | "tls" => appIs .tls
  | "dns" => appIs .dns
  | "ssh" => appIs .ssh
  | "smtp" => appIs .smtp
  | _ => true

def matchFlowConstraint (c : FlowConstraint) (flow : Option Flow) (direction : FlowDirection) :
    Bool :=
  if c.stateless then true
  else
    match flow with
    | some flow =>
      if c.established && !flow.isEstablished then false
      else
        match c.toServer with
        | some true => direction == .toServer
        | some false => direction == .toClient
        | none => true
    | none => !c.established

end AiFw.Ids
