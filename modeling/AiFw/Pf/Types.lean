import AiFw.Net.IpText
import AiFw.Pf.Grammar

namespace AiFw.Pf
open AiFw.Lib AiFw.Net
set_option autoImplicit true

/-- An address expression of a rule. -/
inductive Address where
  | any
  | single (ip : IpAddr)
  | network (ip : IpAddr) (len : UInt8)
  | table (name : List Char)
deriving DecidableEq, Repr

structure PortRange where
  start : UInt16
  end_ : UInt16
deriving DecidableEq, Repr

def Address.display : Address → List Char
  | .any => "any".toList
  | .single ip => ip.display
  | .network ip len => ip.display ++ '/' :: Nat.toDigits 10 len.toNat
  | .table name => '<' :: name ++ ['>']

def PortRange.display (p : PortRange) : List Char :=
  if p.start = p.end_ then Nat.toDigits 10 p.start.toNat
  else Nat.toDigits 10 p.start.toNat ++ ':' :: Nat.toDigits 10 p.end_.toNat

/-- `str::len` counts the bytes of the UTF-8 text. -/
def byteLen (s : List Char) : Nat := (s.map fun c => c.utf8Size).sum

def validateTableName (name : List Char) : Except String Unit :=
  if name = [] ∨ byteLen name > 31 then
    .error "pf table name must be 1-31 characters"
  else if !name.all fun c => c.isAlphanum || c == '_' || c == '-' then
    .error "pf table name contains invalid characters (allowed: alphanumeric, _, -)"
  else .ok ()

def Address.raw : Address → RawAddr
  | .any => .name "any".toList
  | .single ip => .name ip.display
  | .network ip len => .net ip.display (Nat.toDigits 10 len.toNat)
  | .table name => .table name

/-- What a written address stands for; names other than `any` are not resolved. -/
def RawAddr.resolve : RawAddr → Option Address
  | .name w => if w = "any".toList then some .any else (IpAddr.parse w).map .single
  | .net w len => do
    let ip ← IpAddr.parse w
    let n ← parseUnsigned 256 len
    if n ≤ ip.width then some (.network ip (UInt8.ofNat n)) else none
  | .table t => some (.table t)

def readPort (w : List Char) : Option PortRange :=
  match splitOnce ':' w with
  | none => do
    let p ← parseUnsigned 65536 w
    return ⟨UInt16.ofNat p, UInt16.ofNat p⟩
  | some (a, b) => do
    let start ← parseUnsigned 65536 a
    let end_ ← parseUnsigned 65536 b
    return ⟨UInt16.ofNat start, UInt16.ofNat end_⟩

theorem isWordChar_of_alphanum (h : c.isAlphanum) : isWordChar c :=
  forall_ascii (P := fun c => c.isAlphanum → isWordChar c) (by decide) (toNat_of_isAlphanum h) h

theorem isWordChar_of_addrChar (h : isAddrChar c) : isWordChar c := by
  have hlt : c.toNat < 128 := by
    rw [isAddrChar, decide_eq_true_eq] at h
    rcases h with rfl | rfl | h
    · decide
    · decide
    · by_contra hge
      have hnone : toDigit 16 c = none := by
        unfold toDigit
        dsimp only
        rw [if_neg (by omega), if_neg (by omega), if_neg (by omega)]
        rfl
      rw [hnone] at h
      cases h
  exact forall_ascii (P := fun c => isAddrChar c → isWordChar c) (by decide) hlt h

theorem isWordChar_of_digit (h : c ∈ Nat.toDigits 10 n) : isWordChar c :=
  isWordChar_of_addrChar (isAddrChar_of_digit (by decide)
    (isSome_toDigit_of_mem (by decide) (by decide) n h))

/-- A text that is read as one word. -/
def IsWord (w : List Char) : Prop := w ≠ [] ∧ ∀ c ∈ w, isWordChar c

/-- The text is read as the tokens, and has neither line breaks nor quotes. -/
structure Renders (s : List Char) (toks : List Token) : Prop where
  lexes : Lexes s toks
  clean : ∀ c ∈ s, c ≠ '\n' ∧ c ≠ '\r' ∧ c ≠ '"'

theorem IsWord.renders (h : IsWord w) : Renders w [.word w] := by
  refine ⟨lexes_word h.1 h.2, ?_⟩
  intro c hc
  have hw := h.2 c hc
  refine ⟨?_, ?_, ?_⟩ <;>
    · rintro rfl
      exact absurd hw (by decide)

theorem Renders.space (ha : Renders a ta) (hb : Renders b tb) :
    Renders (a ++ ' ' :: b) (ta ++ tb) := by
  refine ⟨ha.lexes.space hb.lexes, ?_⟩
  intro c hc
  rcases List.mem_append.mp hc with hc | hc
  · exact ha.clean c hc
  · rcases List.mem_cons.mp hc with rfl | hc
    · decide
    · exact hb.clean c hc

theorem Renders.sym (h : lexOpen c = ([.sym c], .start) ∧ c ≠ '\n' ∧ c ≠ '\r' ∧ c ≠ '"') :
    Renders [c] [.sym c] := by
  refine ⟨lexes_sym h.1, ?_⟩
  intro d hd
  rw [List.mem_singleton.mp hd]
  exact h.2

theorem Renders.sym_append (h : lexOpen c = ([.sym c], .start) ∧ c ≠ '\n' ∧ c ≠ '\r' ∧ c ≠ '"')
    (hb : Renders b tb) : Renders (c :: b) (.sym c :: tb) := by
  refine ⟨hb.lexes.sym_append h.1, ?_⟩
  intro d hd
  rcases List.mem_cons.mp hd with rfl | hd
  · exact h.2
  · exact hb.clean d hd

theorem Renders.glue (ha : Renders a ta) (hb : Renders (c :: cs) tb) (hc : isWordChar c = false) :
    Renders (a ++ c :: cs) (ta ++ tb) := by
  refine ⟨ha.lexes.glue hb.lexes hc, ?_⟩
  intro d hd
  rcases List.mem_append.mp hd with hd | hd
  · exact ha.clean d hd
  · exact hb.clean d hd

/-- Parts of a line and the tokens they contribute together. -/
def PartsRender (parts : List (List Char)) (toks : List Token) : Prop :=
  ∃ tss, List.Forall₂ Renders parts tss ∧ tss.flatten = toks

theorem PartsRender.nil : PartsRender [] [] := ⟨[], .nil, rfl⟩

theorem PartsRender.single (h : Renders p ts) : PartsRender [p] ts :=
  ⟨[ts], .cons h .nil, by rw [List.flatten_cons, List.flatten_nil, List.append_nil]⟩

theorem PartsRender.append (ha : PartsRender ps ts) (hb : PartsRender qs us) :
    PartsRender (ps ++ qs) (ts ++ us) := by
  obtain ⟨tss, hps, rfl⟩ := ha
  obtain ⟨uss, hqs, rfl⟩ := hb
  exact ⟨tss ++ uss, List.rel_append hps hqs, List.flatten_append⟩

theorem PartsRender.join (h : PartsRender parts toks) :
    Renders (List.intercalate [' '] parts) toks := by
  obtain ⟨tss, hp, rfl⟩ := h
  refine ⟨.join (hp.imp fun _ _ h => h.lexes), ?_⟩
  induction hp with
  | nil =>
    intro c hc
    cases hc
  | @cons p ts ps tss hp hps ih =>
    cases hps with
    | nil =>
      rw [List.intercalate_singleton]
      exact hp.clean
    | cons =>
      rw [List.intercalate_cons_cons]
      intro c hc
      rcases List.mem_append.mp hc with hc | hc
      · rcases List.mem_append.mp hc with hc | hc
        · exact hp.clean c hc
        · rw [List.mem_singleton.mp hc]
          decide
      · exact ih c hc

theorem isWord_keyword {k : String} (h : k.toList ≠ [] ∧ k.toList.all isWordChar) :
    IsWord k.toList :=
  ⟨h.1, List.all_eq_true.mp h.2⟩

theorem isWord_toDigits (n : Nat) : IsWord (Nat.toDigits 10 n) :=
  ⟨Nat.toDigits_ne_nil, fun _ hc => isWordChar_of_digit hc⟩

theorem isWord_addr (ip : IpAddr) : IsWord ip.display :=
  ⟨IpAddr.parse_ne_nil ip.parse_display, fun c hc => isWordChar_of_addrChar (ip.display_chars c hc)⟩

theorem isWord_port (p : PortRange) : IsWord p.display := by
  unfold PortRange.display
  split
  · exact isWord_toDigits _
  · constructor
    · exact List.append_ne_nil_of_left_ne_nil Nat.toDigits_ne_nil _
    · intro c hc
      rcases List.mem_append.mp hc with hc | hc
      · exact isWordChar_of_digit hc
      · rcases List.mem_cons.mp hc with rfl | hc
        · decide
        · exact isWordChar_of_digit hc

theorem isWord_tableName (h : validateTableName name = .ok ()) : IsWord name := by
  unfold validateTableName at h
  split at h
  · cases h
  · rename_i hne
    split at h
    · cases h
    · rename_i hall
      rw [not_or] at hne
      refine ⟨hne.1, ?_⟩
      intro c hc
      rw [Bool.not_eq_true', Bool.not_eq_false, List.all_eq_true] at hall
      have hcc := hall c hc
      simp only [Bool.or_eq_true, beq_iff_eq] at hcc
      rcases hcc with (hcc | rfl) | rfl
      · exact isWordChar_of_alphanum hcc
      · decide
      · decide

/-- The address is the one the text writes. -/
def RawAddr.Spells : RawAddr → List Char → Prop
  | .name w, s => IsWord w ∧ s = w
  | .net w len, s => IsWord w ∧ IsWord len ∧ s = w ++ '/' :: len
  | .table w, s => IsWord w ∧ s = '<' :: w ++ ['>']

theorem RawAddr.Spells.renders {a : RawAddr} (h : a.Spells s) : Renders s (addrToks a) := by
  cases a with
  | name w =>
    obtain ⟨hw, rfl⟩ := h
    exact hw.renders
  | net w len =>
    obtain ⟨hw, hl, rfl⟩ := h
    exact hw.renders.glue (.sym_append (by decide) hl.renders) (by decide)
  | table w =>
    obtain ⟨hw, rfl⟩ := h
    exact .sym_append (by decide) (hw.renders.glue (.sym (by decide)) (by decide))

/-- The host is the one an address text, possibly negated, and a port text write. -/
def RawHost.Spells (h : RawHost) (side : List Char) (port : Option (List Char)) : Prop :=
  (∃ s, h.addr.Spells s ∧ side = if h.neg then '!' :: s else s) ∧ h.port = port ∧
    ∀ w ∈ port, IsWord w

def sideToks (h : RawHost) : List Token :=
  (if h.neg then [.sym '!'] else []) ++ addrToks h.addr

theorem RawHost.Spells.lexes {h : RawHost} (hs : h.Spells side o) : Lexes side (sideToks h) := by
  obtain ⟨⟨s, hs, rfl⟩, -⟩ := hs
  unfold sideToks
  cases h.neg with
  | false => exact hs.renders.lexes
  | true => exact .sym_append (by decide) hs.renders.lexes

theorem Address.spells {a : Address} (ht : ∀ name, a = .table name → IsWord name) :
    a.raw.Spells a.display := by
  cases a with
  | any => exact ⟨isWord_keyword (by decide), rfl⟩
  | single ip => exact ⟨isWord_addr ip, rfl⟩
  | network ip len => exact ⟨isWord_addr ip, isWord_toDigits _, rfl⟩
  | table name => exact ⟨ht name rfl, rfl⟩

theorem Address.renders {a : Address} (ht : ∀ name, a = .table name → IsWord name) :
    Renders a.display (addrToks a.raw) := (Address.spells ht).renders

def Address.InRange : Address → Prop
  | .network ip len => len.toNat ≤ ip.width
  | _ => True

theorem any_ne_display (ip : IpAddr) : ip.display ≠ "any".toList := by
  intro h
  have hc := ip.display_chars 'n' (by rw [h]; decide)
  revert hc
  decide

theorem Address.resolve_raw {a : Address} : a.raw.resolve = some a ↔ a.InRange := by
  cases a with
  | any => exact ⟨fun _ => trivial, fun _ => rfl⟩
  | single ip =>
    simp only [raw, RawAddr.resolve, any_ne_display, if_false, IpAddr.parse_display,
      Option.map_some, InRange]
  | network ip len =>
    have hlen : parseUnsigned 256 (Nat.toDigits 10 len.toNat) = some len.toNat :=
      parseUnsigned_toDigits len.toNat_lt
    simp only [raw, RawAddr.resolve, IpAddr.parse_display, hlen, Option.bind_eq_bind,
      Option.bind_some, UInt8.ofNat_toNat, InRange]
    split
    · rename_i h
      simp only [h]
    · rename_i h
      simp only [h, reduceCtorEq]
  | table name => exact ⟨fun _ => trivial, fun _ => rfl⟩

theorem colon_notMem_toDigits : ':' ∉ Nat.toDigits 10 n := by
  intro h
  have hd := isSome_toDigit_of_mem (b := 10) (by decide) (by decide) n h
  cases hd

theorem readPort_display (p : PortRange) : readPort p.display = some p := by
  have hp (q : UInt16) : parseUnsigned 65536 (Nat.toDigits 10 q.toNat) = some q.toNat :=
    parseUnsigned_toDigits q.toNat_lt
  obtain ⟨start, end_⟩ := p
  by_cases h : start = end_
  · subst h
    simp only [PortRange.display, if_true, readPort, splitOnce_none colon_notMem_toDigits, hp,
      Option.bind_eq_bind, Option.bind_some, Option.pure_def, UInt16.ofNat_toNat]
  · simp only [PortRange.display, h, if_false, readPort, splitOnce_append colon_notMem_toDigits, hp,
      Option.bind_eq_bind, Option.bind_some, Option.pure_def, UInt16.ofNat_toNat]

end AiFw.Pf
