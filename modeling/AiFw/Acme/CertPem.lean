import AiFw.Geo.Index
import AiFw.Ids.ContentWindow
import AiFw.Ids.Suricata
import AiFw.Lib.BitGroups
import AiFw.Lib.Checked

namespace AiFw.Acme
open AiFw.Lib
open AiFw.Geo (lines stripCr)
set_option autoImplicit true

abbrev Bytes := List UInt8

/-- The value of a sign, where it is one of the alphabet. -/
def base64Value (c : Char) : Option UInt32 :=
  let n := c.toNat
  if 0x41 ≤ n ∧ n ≤ 0x5A then some (UInt32.ofNat (n - 0x41))
  else if 0x61 ≤ n ∧ n ≤ 0x7A then some (UInt32.ofNat (n - 0x61 + 26))
  else if 0x30 ≤ n ∧ n ≤ 0x39 then some (UInt32.ofNat (n - 0x30 + 52))
  else if c = '+' then some 62
  else if c = '/' then some 63
  else none

def base64Skipped (c : Char) : Bool :=
  c = '=' || c = '\n' || c = '\r' || c = ' ' || c = '\t'

/-- The source goes through the bytes of the text: those of a sign outside of ASCII are refused
like the sign. -/
def base64DecodeAux (buf : UInt32) (bits : Nat) : List Char → Option Bytes
  | [] => some []
  | c :: cs =>
    if base64Skipped c then base64DecodeAux buf bits cs
    else do
      let v ← base64Value c
      let buf := (buf <<< 6) ||| v
      let bits := bits + 6
      if bits ≥ 8 then
        let rest ← base64DecodeAux buf (bits - 8) cs
        return ((buf >>> UInt32.ofNat (bits - 8)) &&& 0xFF).toUInt8 :: rest
      else base64DecodeAux buf bits cs

def base64DecodeNoPad (s : List Char) : Option Bytes := base64DecodeAux 0 0 s

def base64Alphabet : List Char :=
  "ABCDEFGHIJKLMNOPQRSTUVWXYZabcdefghijklmnopqrstuvwxyz0123456789+/".toList

def base64Letter (group : List Bool) : Char := base64Alphabet.getD (ofBits group) 'A'

/-- The standard encoding: a letter for every six bits, the last ones filled up with zeros, and
padding to a multiple of four. -/
def base64Encode (data : Bytes) : List Char :=
  let bits := bitsOf data
  let letters := (wholeGroups 6 (bits ++ List.replicate ((6 - bits.length % 6) % 6) false)).map
    base64Letter
  letters ++ List.replicate ((4 - letters.length % 4) % 4) '='

/-- The bits of the values of signs, six of each. -/
def sextets (vals : List UInt32) : List Bool := vals.flatMap fun v => toBits 6 v.toNat

theorem base64Value_lt (h : base64Value c = some v) : v.toNat < 64 := by
  rw [base64Value] at h
  split at h
  · cases h
    rw [UInt32.toNat_ofNat', Nat.mod_eq_of_lt (by omega)]
    omega
  · split at h
    · cases h
      rw [UInt32.toNat_ofNat', Nat.mod_eq_of_lt (by omega)]
      omega
    · split at h
      · cases h
        rw [UInt32.toNat_ofNat', Nat.mod_eq_of_lt (by omega)]
        omega
      · split at h
        · cases h
          decide
        · split at h
          · cases h
            decide
          · cases h

theorem toNat_shiftRight32 (n : UInt32) (h : k < 32) :
    (n >>> UInt32.ofNat k).toNat = n.toNat >>> k := by
  rw [UInt32.toNat_shiftRight, UInt32.toNat_ofNat', Nat.mod_eq_of_lt (by omega : k < 2 ^ 32),
    Nat.mod_eq_of_lt h]

theorem base64DecodeAux_eq (buf : UInt32) (hbits : bits < 8) (s : List Char) :
    base64DecodeAux buf bits s =
      ((s.filter fun c => !base64Skipped c).mapM base64Value).map fun vals =>
        bytesOf (toBits bits buf.toNat ++ sextets vals) := by
  induction s generalizing buf bits with
  | nil =>
    have hshort : bytesOf (toBits bits buf.toNat) = [] := by
      rw [bytesOf, wholeGroups_short (by rwa [length_toBits])]
      rfl
    simp [base64DecodeAux, sextets, hshort]
  | cons c s ih =>
    rw [base64DecodeAux]
    by_cases hskip : base64Skipped c = true
    · rw [if_pos hskip, List.filter_cons_of_neg (by rw [hskip]; decide), ih _ hbits]
    · rw [if_neg hskip, List.filter_cons_of_pos (by simpa using hskip),
        List.mapM_cons]
      cases hv : base64Value c with
      | none => rfl
      | some v =>
        have hpending : toBits (bits + 6) ((buf <<< 6) ||| v).toNat =
            toBits bits buf.toNat ++ toBits 6 v.toNat := by
          have hshift : ((buf <<< 6) ||| v).toNat = buf.toNat <<< 6 % 2 ^ 32 ||| v.toNat := by
            rw [UInt32.toNat_or, UInt32.toNat_shiftLeft]
            rfl
          rw [hshift, toBits_shift_or (by omega) (base64Value_lt hv)]
        have hmore (vals : List UInt32) : toBits bits buf.toNat ++ sextets (v :: vals) =
            toBits (bits + 6) ((buf <<< 6) ||| v).toNat ++ sextets vals := by
          rw [sextets, List.flatMap_cons, ← List.append_assoc, hpending]
          rfl
        simp only [Option.bind_eq_bind, Option.bind_some]
        split
        · next hfull =>
          have hsplit (n : Nat) : toBits (bits + 6) n =
              toBits 8 (n >>> (bits + 6 - 8)) ++ toBits (bits + 6 - 8) n := by
            rw [← toBits_append]
            congr 1
            omega
          have hbyte (n : UInt32) : UInt8.ofNat (ofBits (toBits 8 (n.toNat >>> (bits + 6 - 8)))) =
              ((n >>> UInt32.ofNat (bits + 6 - 8)) &&& 0xFF).toUInt8 := by
            apply UInt8.toNat_inj.mp
            have hmask : (255 : UInt32).toNat = 2 ^ 8 - 1 := rfl
            rw [ofBits_toBits, UInt32.toNat_toUInt8, UInt32.toNat_and, hmask,
              Nat.and_two_pow_sub_one_eq_mod, toNat_shiftRight32 _ (by omega),
              UInt8.toNat_ofNat', Nat.mod_mod]
          rw [ih _ (by omega)]
          cases (s.filter fun c => !base64Skipped c).mapM base64Value with
          | none => rfl
          | some vals =>
            simp only [Option.map_some, Option.bind_some, Option.pure_def, hmore, hsplit,
              List.append_assoc, bytesOf_append (length_toBits 8 _), hbyte]
        · next hfew =>
          rw [ih _ (by omega)]
          cases (s.filter fun c => !base64Skipped c).mapM base64Value with
          | none => rfl
          | some vals => simp [hmore]

/-- The bytes of the bits of the signs that are not skipped, up to a rest of less than a byte. -/
theorem base64DecodeNoPad_eq (s : List Char) : base64DecodeNoPad s =
    ((s.filter fun c => !base64Skipped c).mapM base64Value).map fun vals =>
      bytesOf (sextets vals) :=
  base64DecodeAux_eq 0 (by decide) s

theorem ofBits_lt_64 {group : List Bool} (h : group.length = 6) : ofBits group < 64 := by
  have hlt := ofBits_lt group
  rwa [h] at hlt

/-- A letter has its group as its value, and is no sign that is skipped or starts a marker. -/
theorem base64Letter_spec {group : List Bool} (h : group.length = 6) :
    base64Value (base64Letter group) = some (UInt32.ofNat (ofBits group)) ∧
      base64Skipped (base64Letter group) = false ∧ base64Letter group ≠ '-' ∧
      isWhitespace (base64Letter group) = false := by
  have hlt := ofBits_lt_64 h
  have hall : ∀ i : Fin 64,
      base64Value (base64Alphabet.getD i 'A') = some (UInt32.ofNat i) ∧
        base64Skipped (base64Alphabet.getD i 'A') = false ∧ base64Alphabet.getD i 'A' ≠ '-' ∧
        isWhitespace (base64Alphabet.getD i 'A') = false := by
    decide +kernel
  exact hall ⟨ofBits group, hlt⟩

theorem mapM_base64Letters {groups : List (List Bool)} (h : ∀ g ∈ groups, g.length = 6) :
    (groups.map base64Letter).mapM base64Value =
      some (groups.map fun g => UInt32.ofNat (ofBits g)) := by
  induction groups with
  | nil => rfl
  | cons g groups ih =>
    obtain ⟨hg, hrest⟩ := List.forall_mem_cons.mp h
    rw [List.map_cons, List.mapM_cons, (base64Letter_spec hg).1, ih hrest]
    rfl

theorem sextets_groups {groups : List (List Bool)} (h : ∀ g ∈ groups, g.length = 6) :
    sextets (groups.map fun g => UInt32.ofNat (ofBits g)) = groups.flatten := by
  induction groups with
  | nil => rfl
  | cons g groups ih =>
    obtain ⟨hg, hrest⟩ := List.forall_mem_cons.mp h
    have hlt : ofBits g < 2 ^ 32 := (ofBits_lt_64 hg).trans (by decide)
    have hbits : toBits 6 (UInt32.ofNat (ofBits g)).toNat = g := by
      rw [UInt32.toNat_ofNat', Nat.mod_eq_of_lt hlt, ← hg, toBits_ofBits]
    rw [List.map_cons, List.flatten_cons, ← ih hrest, sextets, List.flatMap_cons, hbits]
    rfl

/-- The signs of an encoding are letters of whole groups, and padding. -/
theorem base64Encode_parts (data : Bytes) : ∃ (groups : List (List Bool)) (n : Nat),
    base64Encode data = groups.map base64Letter ++ List.replicate n '=' ∧
      (∀ g ∈ groups, g.length = 6) ∧
      groups.flatten = bitsOf data ++
        List.replicate ((6 - (bitsOf data).length % 6) % 6) false := by
  refine ⟨_, _, rfl, fun g hg => length_of_mem_wholeGroups hg, ?_⟩
  apply flatten_wholeGroups (by decide) (n := ((bitsOf data).length + 5) / 6)
  rw [List.length_append, List.length_replicate]
  omega

theorem mem_base64Encode (h : c ∈ base64Encode data) :
    c = '=' ∨ ∃ g : List Bool, g.length = 6 ∧ c = base64Letter g := by
  obtain ⟨groups, n, heq, hgroups, -⟩ := base64Encode_parts data
  rw [heq, List.mem_append] at h
  cases h with
  | inl hletter =>
    obtain ⟨g, hg, rfl⟩ := List.mem_map.mp hletter
    exact .inr ⟨g, hgroups g hg, rfl⟩
  | inr hpad => exact .inl (List.eq_of_mem_replicate hpad)

theorem base64Encode_plain (h : c ∈ base64Encode data) : c ≠ '-' ∧ isWhitespace c = false := by
  cases mem_base64Encode h with
  | inl hpad =>
    subst hpad
    decide
  | inr hletter =>
    obtain ⟨g, hg, rfl⟩ := hletter
    exact (base64Letter_spec hg).2.2

theorem base64DecodeNoPad_encode (data : Bytes) :
    base64DecodeNoPad (base64Encode data) = some data := by
  obtain ⟨groups, n, heq, hgroups, hflatten⟩ := base64Encode_parts data
  have hletters : (groups.map base64Letter).filter (fun c => !base64Skipped c) =
      groups.map base64Letter := by
    apply List.filter_eq_self.mpr
    intro c hc
    obtain ⟨g, hg, rfl⟩ := List.mem_map.mp hc
    rw [(base64Letter_spec (hgroups g hg)).2.1]
    rfl
  have hpad : (List.replicate n '=').filter (fun c => !base64Skipped c) = [] := by
    apply List.filter_eq_nil_iff.mpr
    intro c hc
    rw [List.eq_of_mem_replicate hc]
    decide
  rw [base64DecodeNoPad_eq, heq, List.filter_append, hletters, hpad, List.append_nil,
    mapM_base64Letters hgroups, Option.map_some, sextets_groups hgroups, hflatten,
    bytesOf_bitsOf_append]
  rw [List.length_replicate]
  omega

def beginCertificate : List Char := "-----BEGIN CERTIFICATE-----".toList
def endCertificate : List Char := "-----END CERTIFICATE-----".toList

/-- Of the places where a block begins, the first two count. -/
def splitPemBundle (bundle : List Char) : List Char × List Char :=
  match splitAround beginCertificate bundle with
  | none => ([], [])
  | some (_, afterFirst) =>
    match splitAround beginCertificate afterFirst with
    | none => (trim bundle, [])
    | some (between, afterSecond) =>
      (trimEnd (beginCertificate ++ between), trim (beginCertificate ++ afterSecond))

/-- The loop over the lines. -/
def pemLines (inBlock : Bool) (acc : List Char) : List (List Char) → List Char
  | [] => acc
  | line :: later =>
    let l := trim line
    if l = beginCertificate then pemLines true acc later
    else if l = endCertificate then acc
    else pemLines inBlock (if inBlock then acc ++ l else acc) later

def pemToDer (pem : List Char) : Option Bytes :=
  let acc := pemLines false [] (lines pem)
  if acc.isEmpty then none else base64DecodeNoPad acc

/-- A certificate in PEM, with its base64 broken into lines. -/
structure PemBlock where
  der : Bytes
  lines : List (List Char)
  encoded : lines.flatten = base64Encode der

namespace PemBlock
variable (b : PemBlock)

def body : List Char := b.lines.flatMap fun l => l ++ ['\n']

def text : List Char := beginCertificate ++ '\n' :: (b.body ++ (endCertificate ++ ['\n']))

variable {b : PemBlock}

theorem mem_line (h : l ∈ b.lines) : ∀ c ∈ l, c ≠ '-' ∧ isWhitespace c = false := by
  intro c hc
  have hencoded : c ∈ base64Encode b.der := by
    rw [← b.encoded]
    exact List.mem_flatten_of_mem h hc
  exact base64Encode_plain hencoded

theorem trim_line (h : l ∈ b.lines) : trim l = l := trim_of_graphic fun c hc => (mem_line h c hc).2

theorem line_ne_mark (h : l ∈ b.lines) : l ≠ beginCertificate ∧ l ≠ endCertificate := by
  have hmark : '-' ∉ l := fun hmem => (mem_line h '-' hmem).1 rfl
  constructor
  · intro heq
    subst heq
    exact hmark (by decide)
  · intro heq
    subst heq
    exact hmark (by decide)

theorem line_plain (h : l ∈ b.lines) : '\n' ∉ l ∧ '\r' ∉ l := by
  constructor
  · intro hmem
    cases (mem_line h _ hmem).2
  · intro hmem
    cases (mem_line h _ hmem).2

/-- The text without its last line feed. -/
def front (b : PemBlock) : List Char := beginCertificate ++ '\n' :: (b.body ++ endCertificate)

theorem text_eq (b : PemBlock) : b.text = b.front ++ ['\n'] := by
  simp only [text, front, List.append_assoc, List.cons_append]

theorem splitOn_front (b : PemBlock) :
    splitOn '\n' b.front = beginCertificate :: b.lines ++ [endCertificate] := by
  have hbody : ∀ ls : List (List Char), (∀ l ∈ ls, '\n' ∉ l) →
      splitOn '\n' ((ls.flatMap fun l => l ++ ['\n']) ++ endCertificate) =
        ls ++ [endCertificate] := by
    intro ls hls
    induction ls with
    | nil => exact splitOn_of_notMem (by decide)
    | cons l ls ih =>
      rw [List.forall_mem_cons] at hls
      rw [List.flatMap_cons, List.append_assoc, List.append_assoc, List.singleton_append,
        splitOn_append_cons, splitOn_of_notMem hls.1, ih hls.2]
      rfl
  rw [front, splitOn_append_cons, splitOn_of_notMem (by decide), body,
    hbody b.lines fun l hl => (line_plain hl).1]
  rfl

/-- The lines of the block, where nothing or another line follows it. -/
theorem lines_front (b : PemBlock) (h : tail = [] ∨ ∃ more, tail = '\n' :: more) :
    ∃ later, Geo.lines (b.front ++ tail) =
      beginCertificate :: b.lines ++ endCertificate :: later := by
  have hplain : (beginCertificate :: b.lines).map stripCr = beginCertificate :: b.lines := by
    have hlines : b.lines.map stripCr = b.lines.map id :=
      List.map_congr_left fun l hl => Geo.stripCr_of_notMem (line_plain hl).2
    rw [List.map_cons, hlines, List.map_id]
    rfl
  cases h with
  | inl hnil =>
    refine ⟨[], ?_⟩
    unfold Geo.lines
    rw [hnil, List.append_nil, splitOn_front]
    dsimp only
    rw [List.dropLast_concat, hplain, List.getLast?_concat]
    rfl
  | inr hmore =>
    obtain ⟨more, rfl⟩ := hmore
    refine ⟨Geo.lines more, ?_⟩
    rw [Geo.lines_append_cons, splitOn_front, List.map_append, hplain, List.append_assoc]
    rfl

theorem pemLines_body {ls : List (List Char)} (h : ∀ l ∈ ls, l ∈ b.lines) (acc : List Char)
    (later : List (List Char)) :
    pemLines true acc (ls ++ endCertificate :: later) = acc ++ ls.flatten := by
  induction ls generalizing acc with
  | nil =>
    rw [List.nil_append, List.flatten_nil, List.append_nil]
    rfl
  | cons l ls ih =>
    obtain ⟨hl, hls⟩ := List.forall_mem_cons.mp h
    rw [List.cons_append, pemLines]
    rw [trim_line hl, if_neg (line_ne_mark hl).1, if_neg (line_ne_mark hl).2, if_pos rfl, ih hls,
      List.flatten_cons, List.append_assoc]

theorem pemToDer_front (b : PemBlock) (hne : b.der ≠ [])
    (h : tail = [] ∨ ∃ more, tail = '\n' :: more) : pemToDer (b.front ++ tail) = some b.der := by
  obtain ⟨later, hlines⟩ := lines_front b h
  have hacc : pemLines false [] (Geo.lines (b.front ++ tail)) = base64Encode b.der := by
    rw [hlines, ← b.encoded]
    exact pemLines_body (fun l hl => hl) [] later
  have henc : base64Encode b.der ≠ [] := by
    intro hnil
    have hback := base64DecodeNoPad_encode b.der
    rw [hnil] at hback
    exact hne (Option.some.inj hback).symm
  rw [pemToDer, hacc]
  rw [if_neg (by rwa [List.isEmpty_iff]), base64DecodeNoPad_encode]

theorem front_head (b : PemBlock) : ∀ c ∈ b.front.head?, isWhitespace c = false := by
  intro c hc
  cases hc
  rfl

theorem front_last (b : PemBlock) : ∀ c ∈ b.front.getLast?, isWhitespace c = false := by
  intro c hc
  rw [front, ← List.cons_append, ← List.append_assoc, List.getLast?_append] at hc
  cases hc
  rfl

/-- Blanks after the block go, and a line feed after it stays with what is not blank. -/
theorem trim_text (b : PemBlock) (more : List Char) :
    ∃ tail, trim (b.text ++ more) = b.front ++ tail ∧ (tail = [] ∨ ∃ more', tail = '\n' :: more') := by
  have hne : b.front ≠ [] := List.cons_ne_nil _ _
  obtain ⟨tail, htail⟩ : ∃ tail, trim ([] ++ b.front ++ '\n' :: more) = b.front ++ tail :=
    trim_around (List.forall_mem_nil _) (front_head b) (front_last b) hne
  have htext : b.text ++ more = [] ++ b.front ++ '\n' :: more := by
    rw [text_eq, List.append_assoc]
    rfl
  rw [htext]
  refine ⟨tail, htail, ?_⟩
  obtain ⟨blanks, after, hparts, hblanks, -⟩ := trim_parts ([] ++ b.front ++ '\n' :: more)
  rw [htail] at hparts
  cases blanks with
  | nil =>
    rw [List.nil_append, List.nil_append, List.append_assoc, List.append_cancel_left_eq] at hparts
    cases tail with
    | nil => exact .inl rfl
    | cons c tail =>
      cases hparts
      exact .inr ⟨tail, rfl⟩
  | cons c blanks =>
    have hc := List.head_eq_of_cons_eq hparts
    have hblank := hblanks c List.mem_cons_self
    rw [← hc] at hblank
    cases hblank

/-- A text that is in none of the lines is found after all of them. -/
theorem lines_before {ls : List (List Char)} {key : List Char} (hkey : '\n' ∉ key)
    (hls : ∀ l ∈ ls, ¬key <:+: l)
    (h : (ls.flatMap fun l => l ++ ['\n']) ++ rest = between ++ (key ++ later)) :
    ∃ more, between = (ls.flatMap fun l => l ++ ['\n']) ++ more := by
  induction ls generalizing between with
  | nil => exact ⟨between, rfl⟩
  | cons l ls ih =>
    obtain ⟨hl, hls⟩ := List.forall_mem_cons.mp hls
    rw [List.flatMap_cons, List.append_assoc] at h
    cases List.append_eq_append_iff.mp h with
    | inl hlong =>
      obtain ⟨x, rfl, hx⟩ := hlong
      obtain ⟨more, rfl⟩ := ih hls hx
      refine ⟨more, ?_⟩
      rw [List.flatMap_cons]
      exact (List.append_assoc _ _ _).symm
    | inr hshort =>
      obtain ⟨y, hy, hkeyed⟩ := hshort
      cases y using List.reverseRecOn with
      | nil =>
        rw [List.append_nil] at hy
        obtain ⟨more, hmore⟩ : ∃ more, [] = (ls.flatMap fun l => l ++ ['\n']) ++ more :=
          ih hls hkeyed.symm
        obtain ⟨hnil, rfl⟩ := List.append_eq_nil_iff.mp hmore.symm
        refine ⟨[], ?_⟩
        rw [List.append_nil, List.flatMap_cons, hnil, List.append_nil, hy]
      | append_singleton y c =>
        rw [← List.append_assoc] at hy
        obtain ⟨hline, hc⟩ := List.append_inj' hy rfl
        cases List.singleton_inj.mp hc
        rw [List.append_assoc, List.singleton_append] at hkeyed
        cases List.append_eq_append_iff.mp hkeyed with
        | inl hin =>
          obtain ⟨x, hx, -⟩ := hin
          exact absurd ⟨between, x, by rw [hline, hx, List.append_assoc]⟩ hl
        | inr hout =>
          obtain ⟨x, hx, hfeed⟩ := hout
          cases x with
          | nil =>
            rw [List.append_nil] at hx
            exact absurd ⟨between, [], by rw [hline, hx, List.append_nil]⟩ hl
          | cons d x =>
            obtain ⟨rfl, -⟩ := List.cons_eq_cons.mp hfeed
            exact absurd (hx ▸ List.mem_append_right y List.mem_cons_self) hkey

theorem begin_notIn_line (h : l ∈ [] :: b.lines ++ [endCertificate]) : ¬beginCertificate <:+: l := by
  intro hin
  cases List.mem_append.mp h with
  | inl hline =>
    cases List.mem_cons.mp hline with
    | inl hnil =>
      subst hnil
      cases List.eq_nil_of_infix_nil hin
    | inr hline =>
      have hmark : '-' ∈ beginCertificate := by decide
      exact (mem_line hline '-' (hin.subset hmark)).1 rfl
  | inr hend =>
    rw [List.mem_singleton.mp hend] at hin
    exact absurd hin.length_le (by decide)

/-- The leaf of a bundle is its first block, whatever comes after it. -/
theorem splitPemBundle_leaf (b : PemBlock) (rest : List Char) :
    ∃ tail, (splitPemBundle (b.text ++ rest)).1 = b.front ++ tail ∧
      (tail = [] ∨ ∃ more, tail = '\n' :: more) := by
  have hhead : splitAround beginCertificate (b.text ++ rest) =
      some ([], '\n' :: (b.body ++ (endCertificate ++ ['\n'])) ++ rest) := by
    have hprefix : beginCertificate.isPrefixOf (b.text ++ rest) = true := by
      rw [List.isPrefixOf_iff_prefix, text, List.append_assoc]
      exact List.prefix_append _ _
    cases hs : b.text ++ rest with
    | nil => cases hs
    | cons c cs =>
      rw [hs] at hprefix
      rw [splitAround, if_pos hprefix, ← hs, text, List.append_assoc, List.drop_left]
  rw [splitPemBundle, hhead]
  dsimp only
  cases hsecond : splitAround beginCertificate
      ('\n' :: (b.body ++ (endCertificate ++ ['\n'])) ++ rest) with
  | none => exact trim_text b rest
  | some parts =>
    obtain ⟨between, later⟩ := parts
    have hparts := splitAround_eq hsecond
    have hlines : '\n' :: (b.body ++ (endCertificate ++ ['\n'])) =
        ([] :: b.lines ++ [endCertificate]).flatMap fun l => l ++ ['\n'] := by
      rw [List.flatMap_append, List.flatMap_cons, List.flatMap_singleton]
      rfl
    rw [hlines, List.append_assoc between] at hparts
    obtain ⟨more, hmore⟩ := lines_before (by decide) (fun l hl => begin_notIn_line hl) hparts
    rw [← hlines] at hmore
    have htext : beginCertificate ++ between = b.text ++ more := by
      rw [hmore, ← List.append_assoc]
      rfl
    have htrim : trimEnd (b.text ++ more) = trim (b.text ++ more) := rfl
    dsimp only
    rw [htext, htrim]
    exact trim_text b more

end PemBlock

/-- How a walk ends without a value: with `None`, or by a panic. -/
inductive Stop where
  | none
  | panic
deriving DecidableEq

/-- The length that the bytes of a length field give. -/
def asn1Length (field : Bytes) : UInt64 := field.foldl (fun l b => (l <<< 8) ||| b.toUInt64) 0

/-- Where the value begins, and how long it is. -/
def asn1ValueAt (buf : Bytes) (lenByte : UInt8) : Except Stop (Nat × Nat) :=
  let n := (lenByte &&& 0x7F).toNat
  if lenByte &&& 0x80 = 0 then .ok (2, lenByte.toNat)
  else if 2 + n > buf.length then .error .none
  else .ok (2 + n, (asn1Length (slice 2 (2 + n) buf)).toNat)

/-- Where the end of the value does not fit into a machine word, its slice is out of order. -/
def asn1TakeTlv (buf : Bytes) : Except Stop (Bytes × Bytes) :=
  match buf with
  | _ :: lenByte :: _ => do
    let (idx, len) ← asn1ValueAt buf lenByte
    if idx + len ≥ 2 ^ 64 then .error .panic
    else if idx + len > buf.length then .error .none
    else .ok (slice idx (idx + len) buf, buf.drop (idx + len))
  | _ => .error .none

def asn1TakeSeq (buf : Bytes) : Except Stop (Bytes × Bytes) :=
  if buf.head? = some 0x30 then asn1TakeTlv buf else .error .none

section
variable {DateTime : Type} (parseFromStr : List Char → Option DateTime)

/-- `NaiveDateTime::parse_from_str` reads the text by `%Y%m%d%H%M%SZ`. -/
def parseAsn1Time (tag : UInt8) (value : Bytes) : Option DateTime := do
  let s ← fromUtf8 value
  if tag = 0x17 then
    if s.length < 2 then none
    else do
      let yy ← Ids.parseInt32 (s.take 2)
      let yyyy := if yy ≥ 50 then 1900 + yy else 2000 + yy
      parseFromStr (Nat.toDigits 10 yyyy.toInt.toNat ++ s.drop 2)
  else if tag = 0x18 then parseFromStr s
  else none

def orStop (o : Option α) (stop : Stop) : Except Stop α :=
  match o with
  | some a => .ok a
  | none => .error stop

def asn1ExtractNotAfter (der : Bytes) : Except Stop DateTime := do
  let (_, rest) ← asn1TakeSeq der
  let (tbs, _) ← asn1TakeSeq rest
  let p ← if tbs.head? = some 0xA0 then (asn1TakeTlv tbs).map Prod.snd else .ok tbs
  let (_, p2) ← asn1TakeTlv p
  let (_, p3) ← asn1TakeTlv p2
  let (_, p4) ← asn1TakeTlv p3
  let (validity, _) ← asn1TakeSeq p4
  let (_, afterNb) ← asn1TakeTlv validity
  let (notAfterV, _) ← asn1TakeTlv afterNb
  let _ ← orStop validity.head? .panic
  let (_, afterNb2) ← asn1TakeTlv validity
  let tag ← orStop afterNb2.head? .none
  orStop (parseAsn1Time parseFromStr tag notAfterV) .none

def parseCertExpiry (pem : List Char) : Except Stop DateTime := do
  let der ← orStop (pemToDer pem) .none
  asn1ExtractNotAfter parseFromStr der

end

/-- A length field of DER, or one with zeros in front of the number. -/
inductive LengthField (n : Nat) : Bytes → Prop
  | short (h : n < 128) : LengthField n [UInt8.ofNat n]
  | long (field : Bytes) (h : field.length ≤ 8) (hvalue : leNat field.reverse = n) :
      LengthField n (UInt8.ofNat (0x80 + field.length) :: field)

/-- The bytes are one element of the tag with this value, and no more. -/
structure Element (tag : UInt8) (value bytes : Bytes) : Prop where
  parts : ∃ field, LengthField value.length field ∧ bytes = tag :: field ++ value
  fits : bytes.length < 2 ^ 64

theorem asn1Length_toNat (h : field.length ≤ 8) :
    (asn1Length field).toNat = leNat field.reverse := by
  induction field using List.reverseRecOn with
  | nil => rfl
  | append_singleton field b ih =>
    rw [List.length_append, List.length_singleton] at h
    have hfront := ih (by omega)
    have hlt : leNat field.reverse < 2 ^ 56 := by
      have hpow := leNat_lt field.reverse
      rw [List.length_reverse] at hpow
      exact Nat.lt_of_lt_of_le hpow (Nat.pow_le_pow_right (n := 256) (by decide) (Nat.le_of_lt_succ h))
    have hstep : asn1Length (field ++ [b]) = (asn1Length field <<< 8) ||| b.toUInt64 := by
      rw [asn1Length, List.foldl_append, List.foldl_cons, List.foldl_nil, asn1Length]
    have hshift : ((8 : UInt64).toNat % 64) = 8 := rfl
    rw [hstep, UInt64.toNat_or, UInt64.toNat_shiftLeft, hshift, hfront, UInt8.toNat_toUInt64,
      Nat.mod_eq_of_lt (by rw [Nat.shiftLeft_eq]; omega), shifted_or b.toNat_lt,
      List.reverse_append, List.reverse_singleton, List.singleton_append, leNat_cons]
    ring

/-- The field says where the value begins and how long it is. -/
theorem LengthField.read (h : LengthField n field) (tag : UInt8) (value : Bytes) :
    ∃ lenByte more, field ++ value = lenByte :: more ∧
      asn1ValueAt (tag :: lenByte :: more) lenByte = .ok (1 + field.length, n) := by
  cases h with
  | short h =>
    have hbits : ∀ i : Fin 128, UInt8.ofNat i &&& 0x80 = 0 ∧ (UInt8.ofNat i).toNat = i := by
      decide +kernel
    obtain ⟨hmask, hvalue⟩ := hbits ⟨n, h⟩
    refine ⟨_, value, rfl, ?_⟩
    rw [asn1ValueAt, if_pos hmask, hvalue]
    rfl
  | long field h hvalue =>
    have hbits : ∀ i : Fin 9, UInt8.ofNat (0x80 + i) &&& 0x80 ≠ 0 ∧
        (UInt8.ofNat (0x80 + i) &&& 0x7F).toNat = i := by
      decide +kernel
    obtain ⟨hmask, hcount⟩ := hbits ⟨field.length, Nat.lt_succ_of_le h⟩
    refine ⟨_, field ++ value, rfl, ?_⟩
    have hslice : slice 2 (2 + field.length)
        (tag :: UInt8.ofNat (0x80 + field.length) :: (field ++ value)) = field := by
      rw [slice, Nat.add_comm 2]
      exact List.take_left
    have hlength : ¬2 + field.length >
        (tag :: UInt8.ofNat (0x80 + field.length) :: (field ++ value)).length := by
      simp only [List.length_cons, List.length_append]
      omega
    dsimp only at hmask hcount
    rw [asn1ValueAt, if_neg hmask, hcount, if_neg hlength, hslice, asn1Length_toNat h, hvalue, List.length_cons,
      Nat.add_comm field.length 1, ← Nat.add_assoc]

/-- The whole of an element is taken. -/
theorem asn1TakeTlv_element (h : Element tag value bytes) :
    asn1TakeTlv bytes = .ok (value, []) := by
  obtain ⟨⟨field, hfield, hbytes⟩, hfits⟩ := h
  obtain ⟨lenByte, more, hmore, hread⟩ := hfield.read tag value
  rw [List.cons_append, hmore] at hbytes
  have hlength : bytes.length = 1 + field.length + value.length := by
    rw [hbytes, ← hmore, List.length_cons, List.length_append]
    omega
  have hslice : slice (1 + field.length) (1 + field.length + value.length) bytes = value := by
    rw [← hlength, slice, List.take_length, hbytes, ← hmore, Nat.add_comm 1]
    exact List.drop_left
  subst hbytes
  have hfull : asn1TakeTlv (tag :: lenByte :: more) = (do
      let (idx, len) ← asn1ValueAt (tag :: lenByte :: more) lenByte
      if idx + len ≥ 2 ^ 64 then .error .panic
      else if idx + len > (tag :: lenByte :: more).length then .error .none
      else .ok (slice idx (idx + len) (tag :: lenByte :: more),
        (tag :: lenByte :: more).drop (idx + len))) := rfl
  have hend : (tag :: lenByte :: more).drop (1 + field.length + value.length) = [] :=
    List.drop_of_length_le (Nat.le_of_eq hlength)
  rw [hfull, hread]
  show (if 1 + field.length + value.length ≥ 2 ^ 64 then _ else _) = _
  rw [if_neg (by omega), if_neg (by omega), hslice, hend]

/-- A certificate is one sequence with nothing after it, and what comes after it is where its
content is looked for. -/
theorem asn1ExtractNotAfter_certificate {DateTime : Type} (parseFromStr : List Char → Option DateTime)
    (h : Element 0x30 value der) : asn1ExtractNotAfter parseFromStr der = .error .none := by
  have hseq : asn1TakeSeq der = .ok (value, []) := by
    obtain ⟨field, -, hbytes⟩ := h.parts
    rw [asn1TakeSeq, if_pos (by rw [hbytes]; rfl), asn1TakeTlv_element h]
  rw [asn1ExtractNotAfter, hseq]
  rfl

/-- What is split from a bundle as its leaf has the bytes of the first certificate again. -/
theorem leaf_der (b : PemBlock) (hne : b.der ≠ []) (rest : List Char) :
    pemToDer (splitPemBundle (b.text ++ rest)).1 = some b.der := by
  obtain ⟨tail, hleaf, htail⟩ := b.splitPemBundle_leaf rest
  rw [hleaf, b.pemToDer_front hne htail]

/-- A sequence of one number in place of a certificate. -/
def smallBlock : PemBlock where
  der := [0x30, 0x03, 0x02, 0x01, 0x05]
  lines := ["MAMC".toList, "AQU=".toList]
  encoded := by decide +kernel

/-- Another certificate may come behind the first one. -/
theorem leaf_der_small :
    pemToDer (splitPemBundle (smallBlock.text ++ smallBlock.text)).1 =
      some [0x30, 0x03, 0x02, 0x01, 0x05] :=
  leaf_der smallBlock (List.cons_ne_nil _ _) smallBlock.text

theorem parseCertExpiry_leaf {DateTime : Type} (parseFromStr : List Char → Option DateTime)
    (b : PemBlock) (h : Element 0x30 value b.der) (rest : List Char) :
    parseCertExpiry parseFromStr (splitPemBundle (b.text ++ rest)).1 = .error .none := by
  have hne : b.der ≠ [] := by
    obtain ⟨field, -, hbytes⟩ := h.parts
    rw [hbytes]
    exact List.cons_ne_nil _ _
  obtain ⟨tail, hleaf, htail⟩ := b.splitPemBundle_leaf rest
  rw [parseCertExpiry, hleaf, b.pemToDer_front hne htail]
  exact asn1ExtractNotAfter_certificate parseFromStr h

end AiFw.Acme
