import AiFw.Auth.Totp
import AiFw.Lib.BitGroups

namespace AiFw.Auth
open AiFw.Lib
set_option autoImplicit true

/-- The letter of five bits. -/
def letter (group : List Bool) : Char := base32Alphabet.getD (ofBits group) 'A'

/-- The letters of groups of five bits, the last one filled up with zeros. -/
def base32Letters (bits : List Bool) : List Char :=
  (wholeGroups 5 (bits ++ List.replicate ((5 - bits.length % 5) % 5) false)).map letter

theorem uint64_and_31 (n : UInt64) : (n &&& 0x1f).toNat = n.toNat % 32 := by
  rw [UInt64.toNat_and]
  exact Nat.and_two_pow_sub_one_eq_mod n.toNat 5

theorem base32Char_eq (n : UInt64) : base32Char n = letter (toBits 5 n.toNat) := by
  rw [base32Char, letter, uint64_and_31, ofBits_toBits]
  rfl

theorem toNat_shiftRight (n : UInt64) (h : k < 64) :
    (n >>> UInt64.ofNat k).toNat = n.toNat >>> k := by
  rw [UInt64.toNat_shiftRight, UInt64.toNat_ofNat', Nat.mod_eq_of_lt (by omega : k < 2 ^ 64),
    Nat.mod_eq_of_lt h]

theorem base32Emit_short (buffer : UInt64) (h : bits < 5) :
    base32Emit buffer bits = ([], bits) := by
  interval_cases bits <;> rfl

/-- Whole groups of the pending bits are written, and the rest is left. -/
theorem base32Emit_eq (buffer : UInt64) (hbits : bits < 64) :
    base32Emit buffer bits =
      ((wholeGroups 5 (toBits bits buffer.toNat)).map letter, bits % 5) := by
  induction bits using Nat.strongRecOn with
  | ind bits ih =>
    by_cases hshort : bits < 5
    · rw [base32Emit_short buffer hshort, wholeGroups_short (by rwa [length_toBits]),
        Nat.mod_eq_of_lt hshort]
      rfl
    · obtain ⟨rest, rfl⟩ : ∃ rest, bits = rest + 5 := ⟨bits - 5, by omega⟩
      have hgroup : toBits (rest + 5) buffer.toNat =
          toBits 5 (buffer.toNat >>> rest) ++ toBits rest buffer.toNat := by
        rw [Nat.add_comm, toBits_append]
      rw [base32Emit, ih rest (by omega) (by omega), hgroup,
        wholeGroups_append (by decide) (length_toBits 5 _), List.map_cons, base32Char_eq,
        toNat_shiftRight _ (by omega), Nat.add_mod_right]

/-- The first whole groups are written as they come. -/
theorem base32Letters_append (bits bs : List Bool) :
    base32Letters (bits ++ bs) = (wholeGroups 5 bits).map letter ++
      base32Letters (bits.drop (bits.length / 5 * 5) ++ bs) := by
  have hpad : (5 - (bits ++ bs).length % 5) % 5 =
      (5 - (bits.drop (bits.length / 5 * 5) ++ bs).length % 5) % 5 := by
    simp only [List.length_append, List.length_drop]
    omega
  rw [base32Letters, base32Letters, ← hpad, List.append_assoc, List.append_assoc,
    wholeGroups_append_rest (by decide), List.map_append]

theorem base32EncodeAux_eq (buffer : UInt64) (hbits : bits < 5) (data : List UInt8) :
    base32EncodeAux buffer bits data =
      base32Letters (toBits bits buffer.toNat ++ bitsOf data) := by
  induction data generalizing buffer bits with
  | nil =>
    rw [base32EncodeAux, bitsOf, List.flatMap_nil, List.append_nil, base32Letters, length_toBits,
      Nat.mod_eq_of_lt hbits]
    split
    · next hpos =>
      have hgroup : toBits 5 (buffer <<< UInt64.ofNat (5 - bits)).toNat =
          toBits bits buffer.toNat ++ List.replicate ((5 - bits) % 5) false := by
        have hshift : (buffer <<< UInt64.ofNat (5 - bits)).toNat =
            buffer.toNat <<< (5 - bits) % 2 ^ 64 ||| 0 := by
          rw [UInt64.toNat_shiftLeft, UInt64.toNat_ofNat',
            Nat.mod_eq_of_lt (by omega : 5 - bits < 2 ^ 64),
            Nat.mod_eq_of_lt (by omega : 5 - bits < 64), Nat.or_zero]
        have hwidth (n : Nat) : toBits 5 n = toBits (bits + (5 - bits)) n := by
          congr 1
          omega
        rw [hshift, hwidth, Nat.mod_eq_of_lt (by omega : 5 - bits < 5), ← toBits_zero]
        exact toBits_shift_or (by omega) (Nat.two_pow_pos _)
      have hlength : (toBits 5 (buffer <<< UInt64.ofNat (5 - bits)).toNat).length = 5 :=
        length_toBits 5 _
      rw [base32Char_eq, ← hgroup, ← List.append_nil (toBits 5 _),
        wholeGroups_append (by decide) hlength]
      rfl
    · next hzero =>
      obtain rfl : bits = 0 := by omega
      rw [wholeGroups_short (by simp [toBits])]
      rfl
  | cons byte data ih =>
    have hpending : toBits (bits + 8) ((buffer <<< 8) ||| byte.toUInt64).toNat =
        toBits bits buffer.toNat ++ toBits 8 byte.toNat := by
      have hshift : ((buffer <<< 8) ||| byte.toUInt64).toNat =
          buffer.toNat <<< 8 % 2 ^ 64 ||| byte.toNat := by
        rw [UInt64.toNat_or, UInt64.toNat_shiftLeft, UInt8.toNat_toUInt64]
        rfl
      rw [hshift, toBits_shift_or (by omega) byte.toNat_lt]
    have hrest : (toBits (bits + 8) ((buffer <<< 8) ||| byte.toUInt64).toNat).drop
        ((bits + 8) / 5 * 5) = toBits ((bits + 8) % 5) ((buffer <<< 8) ||| byte.toUInt64).toNat := by
      have hwidth : bits + 8 = (bits + 8) / 5 * 5 + (bits + 8) % 5 := by omega
      conv_lhs => enter [2, 1]; rw [hwidth]
      exact drop_toBits _ _ _
    rw [base32EncodeAux, base32Emit_eq _ (by omega)]
    dsimp only
    rw [ih _ (Nat.mod_lt _ (by decide)), bitsOf_cons, ← List.append_assoc, ← hpending,
      base32Letters_append (toBits (bits + 8) _), length_toBits, hrest]

/-- The letters of the bits of the bytes. -/
theorem base32Encode_eq (data : List UInt8) : base32Encode data = base32Letters (bitsOf data) :=
  base32EncodeAux_eq 0 (by decide) data

/-- The bits of letters' values, five of each. -/
def valueBits (vals : List UInt64) : List Bool := vals.flatMap fun v => toBits 5 v.toNat

theorem base32Value_lt (h : base32Value c = some v) : v.toNat < 32 := by
  simp only [base32Value] at h
  split at h
  · next hc =>
    cases h
    rw [UInt64.toNat_ofNat', Nat.mod_eq_of_lt (by omega)]
    omega
  · split at h
    · next hc =>
      cases h
      rw [UInt64.toNat_ofNat', Nat.mod_eq_of_lt (by omega)]
      omega
    · cases h

theorem base32DecodeAux_eq (buffer : UInt64) (hbits : bits < 8) (cs : List Char) :
    base32DecodeAux buffer bits cs =
      (cs.mapM base32Value).map fun vals =>
        bytesOf (toBits bits buffer.toNat ++ valueBits vals) := by
  induction cs generalizing buffer bits with
  | nil =>
    have hshort : bytesOf (toBits bits buffer.toNat) = [] := by
      rw [bytesOf, wholeGroups_short (by rwa [length_toBits])]
      rfl
    simp [base32DecodeAux, valueBits, hshort]
  | cons c cs ih =>
    rw [base32DecodeAux, List.mapM_cons]
    cases hv : base32Value c with
    | none => rfl
    | some v =>
      have hpending : toBits (bits + 5) ((buffer <<< 5) ||| v).toNat =
          toBits bits buffer.toNat ++ toBits 5 v.toNat := by
        have hshift : ((buffer <<< 5) ||| v).toNat = buffer.toNat <<< 5 % 2 ^ 64 ||| v.toNat := by
          rw [UInt64.toNat_or, UInt64.toNat_shiftLeft]
          rfl
        rw [hshift, toBits_shift_or (by omega) (base32Value_lt hv)]
      have hmore (vals : List UInt64) : toBits bits buffer.toNat ++ valueBits (v :: vals) =
          toBits (bits + 5) ((buffer <<< 5) ||| v).toNat ++ valueBits vals := by
        rw [valueBits, List.flatMap_cons, ← List.append_assoc, hpending]
        rfl
      simp only [Option.bind_eq_bind, Option.bind_some]
      split
      · next hfull =>
        have hsplit (n : Nat) : toBits (bits + 5) n =
            toBits 8 (n >>> (bits + 5 - 8)) ++ toBits (bits + 5 - 8) n := by
          rw [← toBits_append]
          congr 1
          omega
        have hbyte (n : UInt64) : UInt8.ofNat (ofBits (toBits 8 (n.toNat >>> (bits + 5 - 8)))) =
            (n >>> UInt64.ofNat (bits + 5 - 8)).toUInt8 := by
          apply UInt8.toNat_inj.mp
          rw [ofBits_toBits, UInt64.toNat_toUInt8, toNat_shiftRight _ (by omega),
            UInt8.toNat_ofNat', Nat.mod_mod]
        rw [ih _ (by omega)]
        cases cs.mapM base32Value with
        | none => rfl
        | some vals =>
          simp only [Option.map_some, Option.bind_some, Option.pure_def, hmore, hsplit,
            List.append_assoc, bytesOf_append (length_toBits 8 _), hbyte]
      · next hfew =>
        rw [ih _ (by omega)]
        cases cs.mapM base32Value with
        | none => rfl
        | some vals => simp [hmore]

/-- The bytes of the bits of the letters' values, up to a rest of less than a byte. -/
theorem base32Decode_eq (encoded : List Char) : base32Decode encoded =
    (((encoded.reverse.dropWhile fun c => c = '=').reverse.flatMap upperChar).mapM
      base32Value).map fun vals => bytesOf (valueBits vals) :=
  base32DecodeAux_eq 0 (by decide) _

theorem ofBits_lt_32 {group : List Bool} (h : group.length = 5) : ofBits group < 32 := by
  have hlt := ofBits_lt group
  rwa [h] at hlt

/-- The letters of groups have the groups as their values. -/
theorem base32Value_letter (h : group.length = 5) :
    base32Value (letter group) = some (UInt64.ofNat (ofBits group)) := by
  have hlt := ofBits_lt_32 h
  have hall : ∀ i : Fin 32, base32Value (base32Alphabet.getD i 'A') = some (UInt64.ofNat i) := by
    decide +kernel
  exact hall ⟨ofBits group, hlt⟩

theorem upperChar_letter (h : group.length = 5) :
    upperChar (letter group) = [letter group] ∧ letter group ≠ '=' := by
  have hlt := ofBits_lt_32 h
  have hall : ∀ i : Fin 32, upperChar (base32Alphabet.getD i 'A') = [base32Alphabet.getD i 'A'] ∧
      base32Alphabet.getD i 'A' ≠ '=' := by
    decide +kernel
  exact hall ⟨ofBits group, hlt⟩

theorem mapM_letters {groups : List (List Bool)} (h : ∀ g ∈ groups, g.length = 5) :
    (groups.map letter).mapM base32Value =
      some (groups.map fun g => UInt64.ofNat (ofBits g)) := by
  induction groups with
  | nil => rfl
  | cons g groups ih =>
    obtain ⟨hg, hrest⟩ := List.forall_mem_cons.mp h
    rw [List.map_cons, List.mapM_cons, base32Value_letter hg, ih hrest]
    rfl

theorem valueBits_groups {groups : List (List Bool)} (h : ∀ g ∈ groups, g.length = 5) :
    valueBits (groups.map fun g => UInt64.ofNat (ofBits g)) = groups.flatten := by
  induction groups with
  | nil => rfl
  | cons g groups ih =>
    obtain ⟨hg, hrest⟩ := List.forall_mem_cons.mp h
    have hlt : ofBits g < 2 ^ 64 := (ofBits_lt g).trans (by rw [hg]; decide)
    have hbits : toBits 5 (UInt64.ofNat (ofBits g)).toNat = g := by
      rw [UInt64.toNat_ofNat', Nat.mod_eq_of_lt hlt, ← hg, toBits_ofBits]
    rw [List.map_cons, List.flatten_cons, ← ih hrest, valueBits, List.flatMap_cons, hbits]
    rfl

/-- Bytes are read back from their letters. -/
theorem base32Decode_encode (data : List UInt8) : base32Decode (base32Encode data) = some data := by
  rw [base32Encode_eq, base32Letters]
  generalize hpad : List.replicate ((5 - (bitsOf data).length % 5) % 5) false = pad
  have hlength : pad.length = (5 - (bitsOf data).length % 5) % 5 := by
    rw [← hpad, List.length_replicate]
  have hgroups : ∀ g ∈ wholeGroups 5 (bitsOf data ++ pad), g.length = 5 :=
    fun g hg => length_of_mem_wholeGroups hg
  have hflatten : (wholeGroups 5 (bitsOf data ++ pad)).flatten = bitsOf data ++ pad := by
    apply flatten_wholeGroups (n := (bitsOf data ++ pad).length / 5) (by decide)
    rw [List.length_append, hlength]
    omega
  generalize wholeGroups 5 (bitsOf data ++ pad) = groups at hgroups hflatten
  have htrim : ((groups.map letter).reverse.dropWhile fun c => c = '=') =
      (groups.map letter).reverse := by
    rw [List.dropWhile_eq_self_iff]
    intro hl
    obtain ⟨g, hg, he⟩ := List.mem_map.mp (List.mem_reverse.mp (List.getElem_mem hl))
    rw [← he, decide_eq_true_eq]
    exact (upperChar_letter (hgroups g hg)).2
  have hupper : (groups.map letter).flatMap upperChar = groups.map letter := by
    rw [List.flatMap_map, List.map_eq_flatMap]
    exact List.flatMap_congr fun g hg => (upperChar_letter (hgroups g hg)).1
  rw [base32Decode_eq, htrim, List.reverse_reverse, hupper, mapM_letters hgroups, Option.map_some, valueBits_groups hgroups, hflatten]
  exact congrArg some (bytesOf_bitsOf_append data (by rw [hlength]; omega))

end AiFw.Auth
