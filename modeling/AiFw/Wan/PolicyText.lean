import AiFw.Wan.Policy

namespace AiFw.Wan
open AiFw.Lib AiFw.Pf
set_option autoImplicit true

/-- A text pushed after a line adds the tokens to those of the line. -/
def Pushes (s : List Char) (toks : List Token) : Prop :=
  ∀ line ts, Lexes line ts → Lexes (line ++ s) (ts ++ toks)

theorem Pushes.nil : Pushes [] [] := by
  intro line ts h
  rw [List.append_nil, List.append_nil]
  exact h

theorem Pushes.append (hs : Pushes s ts) (ht : Pushes t us) : Pushes (s ++ t) (ts ++ us) := by
  intro line toks h
  rw [← List.append_assoc, ← List.append_assoc]
  exact ht _ _ (hs _ _ h)

theorem Pushes.append_nil (hs : Pushes s ts) : Pushes s (ts ++ []) := by
  rw [List.append_nil]
  exact hs

theorem IsWord.lexes (h : IsWord w) : Lexes w [.word w] := h.renders.lexes

def MwIpVersion.raw : MwIpVersion → Option (List Char)
  | .v4 => some "inet".toList
  | .v6 => some "inet6".toList
  | .both => none

def MwProtocol.names (p : MwProtocol) : Option (List (List Char)) :=
  if p ≠ .any then some [p.asStr.toList] else none

def ifBound : List Char × List Token := ("keep".toList, [kw "if-bound"])

/-- The names of the interfaces and the next hops are single words. -/
structure PolicyRule.Named (p : PolicyRule) (t : Tables) : Prop where
  ifaceIn : ∀ iface ∈ p.ifaceIn, IsWord iface
  interface : ∀ gw ∈ t.gateways, IsWord gw.interface
  nextHop : ∀ gw ∈ t.gateways, IsWord gw.nextHop

section
variable {p : PolicyRule} {t : Tables} {label : List Char}

end

end AiFw.Wan
