import AiFw.Auth.Base32
import AiFw.Lib.OneTimeCode

namespace AiFw.Auth
open AiFw.Lib
set_option autoImplicit true

/-- A word in bytes, the highest first. -/
theorem bitsOf_beBytes32 (n : UInt32) : bitsOf (beBytes32 n) = toBits 32 n.toNat := by
  have h24 : (n >>> 24).toNat = n.toNat >>> 24 := rfl
  have h16 : (n >>> 16).toNat = n.toNat >>> 16 := rfl
  have h8 : (n >>> 8).toNat = n.toNat >>> 8 := rfl
  have hsplit : toBits 32 n.toNat = toBits 8 (n.toNat >>> 24) ++ (toBits 8 (n.toNat >>> 16) ++
      (toBits 8 (n.toNat >>> 8) ++ toBits 8 n.toNat)) := by
    rw [← toBits_append 8 8, ← toBits_append 8 16, ← toBits_append 8 24]
  simp only [beBytes32, bitsOf, List.flatMap_cons, List.flatMap_nil, List.append_nil,
    UInt32.toNat_toUInt8, h24, h16, h8, hsplit]
  simp only [show 2 ^ 8 = 256 from rfl, toBits_byte]

theorem bitsOf_beBytes64 (n : UInt64) : bitsOf (beBytes64 n) = toBits 64 n.toNat := by
  have h32 : (n >>> 32).toNat = n.toNat >>> 32 := rfl
  rw [beBytes64, bitsOf_append, bitsOf_beBytes32, bitsOf_beBytes32, UInt64.toNat_toUInt32,
    UInt64.toNat_toUInt32, h32, toBits_mod (le_refl 32), toBits_mod (le_refl 32), ← toBits_append]

theorem bitsOf_sha1Padded (data : List UInt8) :
    bitsOf (sha1Padded data) = Sha1Standard.padded (bitsOf data) := by
  have hone : toBits 8 (0x80 : UInt8).toNat = true :: List.replicate 7 false := rfl
  have hzeros : Sha1Standard.zeros (data.length * 8) = 7 + (119 - data.length % 64) % 64 * 8 := by
    unfold Sha1Standard.zeros
    omega
  have hlength : toBits 64 (UInt64.ofNat (data.length * 8)).toNat = toBits 64 (data.length * 8) := by
    rw [UInt64.toNat_ofNat', toBits_mod (le_refl 64)]
  rw [sha1Padded, Sha1Standard.padded, bitsOf_append, bitsOf_append, bitsOf_cons,
    bitsOf_replicate_zero, bitsOf_beBytes64, hlength, hone, length_bitsOf, hzeros,
    List.replicate_add]
  simp

theorem length_sha1Padded (data : List UInt8) : (sha1Padded data).length % 64 = 0 := by
  have hlength : ∀ n, (beBytes64 n).length = 8 := fun _ => rfl
  simp only [sha1Padded, List.length_append, List.length_cons, List.length_replicate, hlength]
  omega

/-- The word of four bytes. -/
theorem fromBeBytes_toNat (a b c d : UInt8) :
    (fromBeBytes a b c d).toNat = ofBits (bitsOf [a, b, c, d]) := joined_toNat a b c d

theorem sha1Words_append {a : List UInt8} (h : a.length = 4 * n) (b : List UInt8) :
    sha1Words (a ++ b) = sha1Words a ++ sha1Words b := by
  induction n generalizing a with
  | zero =>
    obtain rfl := List.length_eq_zero_iff.mp h
    rfl
  | succ n ih =>
    match a, h with
    | x :: y :: z :: t :: a, h =>
      have hrest : a.length = 4 * n := by
        simp only [List.length_cons] at h
        omega
      simp only [List.cons_append, sha1Words, ih hrest]

theorem length_sha1Words (h : a.length = 4 * n) : (sha1Words a).length = n := by
  induction n generalizing a with
  | zero =>
    obtain rfl := List.length_eq_zero_iff.mp h
    rfl
  | succ n ih =>
    match a, h with
    | x :: y :: z :: t :: a, h =>
      have hrest : a.length = 4 * n := by
        simp only [List.length_cons] at h
        omega
      rw [sha1Words, List.length_cons, ih hrest]

/-- The words of bytes are the words of their bits. -/
theorem words_bitsOf (h : a.length = 4 * n) :
    Sha1Standard.words (bitsOf a) = (sha1Words a).map UInt32.toBitVec := by
  induction n generalizing a with
  | zero =>
    obtain rfl := List.length_eq_zero_iff.mp h
    rfl
  | succ n ih =>
    match a, h with
    | x :: y :: z :: t :: a, h =>
      have hrest : a.length = 4 * n := by
        simp only [List.length_cons] at h
        omega
      have hbits : bitsOf (x :: y :: z :: t :: a) = bitsOf [x, y, z, t] ++ bitsOf a :=
        bitsOf_append [x, y, z, t] a
      have hword : BitVec.ofNat 32 (ofBits (bitsOf [x, y, z, t])) =
          (fromBeBytes x y z t).toBitVec := by
        rw [← fromBeBytes_toNat]
        exact BitVec.ofNat_toNat _ _
      have hlength : (bitsOf [x, y, z, t]).length = 32 := length_bitsOf [x, y, z, t]
      rw [hbits, Sha1Standard.words, wholeGroups_append (by decide) hlength,
        List.map_cons, hword, sha1Words, List.map_cons, ← ih hrest]
      rfl

/-- The chunks of padded bytes are the blocks of their bits. -/
theorem chunks_bitsOf (h : a.length = 64 * n) :
    (wholeGroups 512 (bitsOf a)).map Sha1Standard.words =
      (sha1Chunks (sha1Words a)).map fun chunk => chunk.map UInt32.toBitVec := by
  induction n generalizing a with
  | zero =>
    obtain rfl := List.length_eq_zero_iff.mp h
    rfl
  | succ n ih =>
    have htake : (a.take 64).length = 4 * 16 := by
      rw [List.length_take]
      omega
    have hdrop : (a.drop 64).length = 64 * n := by
      rw [List.length_drop]
      omega
    have hbits : (bitsOf (a.take 64)).length = 512 := by
      rw [length_bitsOf, htake]
    have hchunks (words : List UInt32) : sha1Chunks words = wholeGroups 16 words := rfl
    rw [← List.take_append_drop 64 a, bitsOf_append, wholeGroups_append (by decide) hbits,
      List.map_cons, ih hdrop, words_bitsOf htake, sha1Words_append htake, hchunks, hchunks,
      wholeGroups_append (by decide) (length_sha1Words htake), List.map_cons]

theorem rotateLeft_toBitVec (n : UInt32) : (rotateLeft n 1).toBitVec = n.toBitVec.rotateLeft 1 ∧
    (rotateLeft n 5).toBitVec = n.toBitVec.rotateLeft 5 ∧
      (rotateLeft n 30).toBitVec = n.toBitVec.rotateLeft 30 :=
  ⟨rfl, rfl, rfl⟩

theorem toBitVec_getD (words : List UInt32) (i : Nat) :
    (words.getD i 0).toBitVec = (words.map UInt32.toBitVec).getD i 0 := by
  rw [List.getD_eq_getElem?_getD, List.getD_eq_getElem?_getD, List.getElem?_map]
  cases words[i]? <;> rfl

/-- The words so far, from the last one back, give the next one. -/
theorem scheduleWord_eq {block : List Sha1Standard.Word} {words : List UInt32} (ht : 16 ≤ t)
    (h : words.map UInt32.toBitVec = ((List.range t).map (Sha1Standard.w block)).reverse) :
    (scheduleWord words).toBitVec = Sha1Standard.w block t := by
  have hback (i : Nat) (hi : i < t) :
      (words.getD i 0).toBitVec = Sha1Standard.w block (t - (i + 1)) := by
    rw [toBitVec_getD, h, List.getD_eq_getElem?_getD, List.getElem?_reverse (by simpa using hi)]
    simp only [List.length_map, List.length_range, List.getElem?_map]
    rw [List.getElem?_range (by omega), Nat.sub_sub, Nat.add_comm 1 i]
    rfl
  have hnext : Sha1Standard.w block t = (Sha1Standard.w block (t - (2 + 1)) ^^^
      Sha1Standard.w block (t - (7 + 1)) ^^^ Sha1Standard.w block (t - (13 + 1)) ^^^
        Sha1Standard.w block (t - (15 + 1))).rotateLeft 1 := by
    rw [Sha1Standard.w, if_neg (by omega)]
  rw [hnext, scheduleWord, (rotateLeft_toBitVec _).1, UInt32.toBitVec_xor, UInt32.toBitVec_xor,
    UInt32.toBitVec_xor, hback 2 (by omega), hback 7 (by omega), hback 13 (by omega),
    hback 15 (by omega)]

theorem schedule_iterate {chunk : List UInt32} (h : chunk.length = 16) (j : Nat) :
    (Nat.iterate (fun w => scheduleWord w :: w) j chunk.reverse).map UInt32.toBitVec =
      ((List.range (16 + j)).map (Sha1Standard.w (chunk.map UInt32.toBitVec))).reverse := by
  induction j with
  | zero =>
    rw [Function.iterate_zero, id_eq, List.map_reverse, Nat.add_zero]
    congr 1
    apply List.ext_getElem (by simp [h])
    intro i hi _
    have hlt : i < 16 := by
      rwa [List.length_map, h] at hi
    rw [List.getElem_map, List.getElem_map, List.getElem_range, Sha1Standard.w, if_pos hlt,
      ← toBitVec_getD, List.getD_eq_getElem?_getD, List.getElem?_eq_getElem (h ▸ hlt)]
    rfl
  | succ j ih =>
    have hnext :
        (scheduleWord (Nat.iterate (fun w => scheduleWord w :: w) j chunk.reverse)).toBitVec =
          Sha1Standard.w (chunk.map UInt32.toBitVec) (16 + j) :=
      scheduleWord_eq (Nat.le_add_right 16 j) ih
    rw [Function.iterate_succ_apply', List.map_cons, hnext, ih, ← Nat.add_assoc,
      List.range_succ, List.map_append, List.reverse_append]
    rfl

theorem sha1Schedule_eq {chunk : List UInt32} (h : chunk.length = 16) :
    (sha1Schedule chunk).map UInt32.toBitVec =
      (List.range 80).map (Sha1Standard.w (chunk.map UInt32.toBitVec)) := by
  rw [sha1Schedule, List.map_reverse, schedule_iterate h 64, List.reverse_reverse]

def Sha1State.standard (s : Sha1State) : Sha1Standard.State :=
  ⟨s.h0.toBitVec, s.h1.toBitVec, s.h2.toBitVec, s.h3.toBitVec, s.h4.toBitVec⟩

/-- Bits of which at most one is set may be joined either way. -/
theorem ch_eq (x y z : BitVec 32) : (x &&& y) ||| (~~~x &&& z) = Sha1Standard.ch x y z := by
  ext i hi
  simp only [Sha1Standard.ch, BitVec.getElem_or, BitVec.getElem_and, BitVec.getElem_not,
    BitVec.getElem_xor]
  cases x[i] <;> cases y[i] <;> cases z[i] <;> rfl

theorem maj_eq (x y z : BitVec 32) :
    (x &&& y) ||| (x &&& z) ||| (y &&& z) = Sha1Standard.maj x y z := by
  ext i hi
  simp only [Sha1Standard.maj, BitVec.getElem_or, BitVec.getElem_and, BitVec.getElem_xor]
  cases x[i] <;> cases y[i] <;> cases z[i] <;> rfl

theorem mix_eq (s : Sha1State) (i : Nat) :
    (s.mix i).1.toBitVec = Sha1Standard.f i s.h1.toBitVec s.h2.toBitVec s.h3.toBitVec ∧
      (s.mix i).2.toBitVec = Sha1Standard.k i := by
  unfold Sha1State.mix Sha1Standard.f Sha1Standard.k
  by_cases h20 : i < 20
  · rw [if_pos (by omega), if_pos h20, if_pos h20, ← ch_eq]
    exact ⟨rfl, rfl⟩
  · rw [if_neg (by omega), if_neg h20, if_neg h20]
    by_cases h40 : i < 40
    · rw [if_pos (by omega), if_pos h40, if_pos h40]
      exact ⟨rfl, rfl⟩
    · rw [if_neg (by omega), if_neg h40, if_neg h40]
      by_cases h60 : i < 60
      · rw [if_pos (by omega), if_pos h60, if_pos h60, ← maj_eq]
        exact ⟨rfl, rfl⟩
      · rw [if_neg (by omega), if_neg h60, if_neg h60]
        exact ⟨rfl, rfl⟩

theorem round_eq {block : List Sha1Standard.Word} (s : Sha1State) {word : UInt32} {i : Nat}
    (h : word.toBitVec = Sha1Standard.w block i) :
    (s.round (word, i)).standard = Sha1Standard.step block s.standard i := by
  obtain ⟨hf, hk⟩ := mix_eq s i
  obtain ⟨-, h5, h30⟩ := rotateLeft_toBitVec s.h0
  have h30' := (rotateLeft_toBitVec s.h1).2.2
  simp only [Sha1State.round, Sha1State.standard, Sha1Standard.step, UInt32.toBitVec_add, hf, hk,
    h5, h30', h]

/-- The rounds of a chunk, from a round on. -/
theorem rounds_eq (block : List Sha1Standard.Word) (s : Sha1State) (words : List UInt32) (i : Nat)
    (h : words.map UInt32.toBitVec = (List.range' i words.length).map (Sha1Standard.w block)) :
    ((words.zipIdx i).foldl Sha1State.round s).standard =
      (List.range' i words.length).foldl (Sha1Standard.step block) s.standard := by
  induction words generalizing s i with
  | nil => rfl
  | cons word words ih =>
    rw [List.map_cons, List.length_cons, List.range'_succ, List.map_cons, List.cons.injEq] at h
    obtain ⟨hword, hrest⟩ := h
    rw [List.zipIdx_cons, List.foldl_cons, List.length_cons, List.range'_succ, List.foldl_cons,
      ih _ (i + 1) hrest, round_eq s hword]

theorem chunk_eq {chunk : List UInt32} (s : Sha1State) (h : chunk.length = 16) :
    (s.chunk chunk).standard =
      Sha1Standard.compress s.standard (chunk.map UInt32.toBitVec) := by
  have hlength : (sha1Schedule chunk).length = 80 := by
    have hmap := congrArg List.length (sha1Schedule_eq h)
    rwa [List.length_map, List.length_map, List.length_range] at hmap
  have hrounds := rounds_eq (chunk.map UInt32.toBitVec) s (sha1Schedule chunk) 0
    (by rw [hlength, ← List.range_eq_range', sha1Schedule_eq h])
  rw [hlength, ← List.range_eq_range'] at hrounds
  simp only [Sha1State.chunk, Sha1Standard.compress, ← hrounds]
  simp only [Sha1State.standard, UInt32.toBitVec_add, Sha1Standard.State.mk.injEq]
  exact ⟨BitVec.add_comm _ _, BitVec.add_comm _ _, BitVec.add_comm _ _, BitVec.add_comm _ _,
    BitVec.add_comm _ _⟩

theorem chunks_eq (s : Sha1State) (chunks : List (List UInt32))
    (h : ∀ chunk ∈ chunks, chunk.length = 16) :
    (chunks.foldl Sha1State.chunk s).standard =
      (chunks.map fun chunk => chunk.map UInt32.toBitVec).foldl Sha1Standard.compress
        s.standard := by
  induction chunks generalizing s with
  | nil => rfl
  | cons chunk chunks ih =>
    obtain ⟨hchunk, hrest⟩ := List.forall_mem_cons.mp h
    rw [List.foldl_cons, List.map_cons, List.foldl_cons, ih _ hrest, chunk_eq s hchunk]

/-- `sha1` is the standard's hash, for every message. -/
theorem sha1_eq (data : List UInt8) : sha1 data = Sha1Standard.hash data := by
  obtain ⟨n, hlength⟩ : ∃ n, (sha1Padded data).length = 64 * n :=
    ⟨(sha1Padded data).length / 64, by have := length_sha1Padded data; omega⟩
  have hblocks : Sha1Standard.blocks (bitsOf data) =
      (sha1Chunks (sha1Words (sha1Padded data))).map fun chunk => chunk.map UInt32.toBitVec := by
    rw [Sha1Standard.blocks, ← bitsOf_sha1Padded, chunks_bitsOf hlength]
  have hstate := chunks_eq ⟨0x67452301, 0xEFCDAB89, 0x98BADCFE, 0x10325476, 0xC3D2E1F0⟩
    (sha1Chunks (sha1Words (sha1Padded data))) fun chunk hchunk =>
      length_of_mem_wholeGroups hchunk
  rw [← hblocks] at hstate
  have hdigest : Sha1Standard.digest (bitsOf data) = bitsOf (sha1 data) := by
    have hinitial : Sha1Standard.initial = Sha1State.standard
        ⟨0x67452301, 0xEFCDAB89, 0x98BADCFE, 0x10325476, 0xC3D2E1F0⟩ := rfl
    rw [Sha1Standard.digest, hinitial, ← hstate]
    simp only [sha1, bitsOf_append, bitsOf_beBytes32, List.append_assoc, List.flatMap_cons,
      List.flatMap_nil, List.append_nil]
    rfl
  rw [Sha1Standard.hash, hdigest, bytesOf_bitsOf]

/-- `hmac_sha1` is keyed hashing with that hash, for every key and message. -/
theorem hmacSha1_eq (key message : List UInt8) :
    hmacSha1 key message = hmac Sha1Standard.hash 64 key message := by
  have hkey : keyPadded key = hmacKey Sha1Standard.hash 64 key := by
    unfold keyPadded hmacKey
    by_cases hlong : key.length > 64
    · rw [if_pos hlong, if_neg (by omega), sha1_eq]
    · rw [if_neg hlong, if_pos (by omega)]
  have hpad (pad : UInt8) : (keyPadded key).map (pad ^^^ ·) =
      (hmacKey Sha1Standard.hash 64 key).map (· ^^^ pad) := by
    rw [hkey]
    exact List.map_congr_left fun b _ => UInt8.xor_comm pad b
  rw [hmacSha1, hmac, hpad, hpad, sha1_eq, sha1_eq]

end AiFw.Auth
