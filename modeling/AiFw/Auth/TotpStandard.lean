import AiFw.Auth.HashStandard
import AiFw.Lib.Separated

namespace AiFw.Auth
open AiFw.Lib
set_option autoImplicit true

/-- The one-time code of a counter as a number of six digits. -/
def hotpSha1 (key : List UInt8) (counter : Nat) : Nat :=
  hotp (hmac Sha1Standard.hash 64) digits key counter

/-- What a code must be: six decimal digits, those of the value of a near time step. -/
def StandardAccepts (now : Nat) (secret code : List Char) : Prop :=
  ∃ key, base32Decode secret = some key ∧
    ∃ s, NearStep (now / period) s ∧ code = zeroPadded digits (hotpSha1 key s)

theorem uint8_and_15 (b : UInt8) : (b &&& 0x0f).toNat = b.toNat % 16 := by
  rw [UInt8.toNat_and]
  exact Nat.and_two_pow_sub_one_eq_mod b.toNat 4

theorem uint8_and_127 (b : UInt8) : (b &&& 0x7f).toNat = b.toNat % 128 := by
  rw [UInt8.toNat_and]
  exact Nat.and_two_pow_sub_one_eq_mod b.toNat 7

/-- The four bytes at a place of a list that has them. -/
theorem take_four {l : List UInt8} (h : o + 4 ≤ l.length) :
    (l.drop o).take 4 = [l.getD o 0, l.getD (o + 1) 0, l.getD (o + 2) 0, l.getD (o + 3) 0] := by
  apply List.ext_getElem
  · rw [List.length_take, List.length_drop]
    simp only [List.length_cons, List.length_nil]
    omega
  · intro i hi hi'
    rw [List.getElem_take, List.getElem_drop]
    simp only [List.length_cons, List.length_nil] at hi'
    obtain rfl | rfl | rfl | rfl : i = 0 ∨ i = 1 ∨ i = 2 ∨ i = 3 := by omega
    all_goals
      simp only [List.getElem_cons_zero, List.getElem_cons_succ, List.getD_eq_getElem?_getD]
      rw [List.getElem?_eq_getElem (by omega)]
      rfl

/-- Dynamic truncation of a hash of twenty bytes. -/
theorem truncate_eq (mac : List UInt8) (h : mac.length = 20) :
    let o := (mac.getD 19 0 &&& 0x0f).toNat
    (fromBeBytes (mac.getD o 0 &&& 0x7f) (mac.getD (o + 1) 0) (mac.getD (o + 2) 0)
      (mac.getD (o + 3) 0)).toNat = truncate mac := by
  have hplace : (mac.getD 19 0 &&& 0x0f).toNat = ofBits (toBits 4 (mac.getD 19 0).toNat) := by
    rw [uint8_and_15, ofBits_toBits]
    rfl
  dsimp only
  rw [truncate, ← hplace]
  generalize ho : (mac.getD 19 0 &&& 0x0f).toNat = o
  have hle : o + 4 ≤ mac.length := by
    rw [uint8_and_15] at ho
    omega
  rw [take_four hle, fromBeBytes_toNat, ofBits_four, ofBits_four, uint8_and_127]
  have hb := (mac.getD (o + 1) 0).toNat_lt
  have hc := (mac.getD (o + 2) 0).toNat_lt
  have hd := (mac.getD (o + 3) 0).toNat_lt
  omega

theorem generateCodeAtStep_eq (secret : List UInt8) (step : UInt64) :
    generateCodeAtStep secret step = hotpSha1 secret step.toNat := by
  have hcounter : beBytes64 step = bytesOf (toBits 64 step.toNat) := by
    rw [← bitsOf_beBytes64, bytesOf_bitsOf]
  have htruncate := truncate_eq (hmacSha1 secret (beBytes64 step)) rfl
  rw [hotpSha1, hotp, ← hmacSha1_eq, ← hcounter, ← htruncate]
  rfl

theorem hotpSha1_lt (key : List UInt8) (counter : Nat) : hotpSha1 key counter < 10 ^ digits :=
  Nat.mod_lt _ (by decide)

/-- The loop over the tolerance tries the near steps. -/
theorem codeNear_iff (now : UInt64) (secret : List UInt8) (code : Nat) :
    ((List.range (tolerance + 1)).any fun offset =>
        codeNear secret (UInt64.ofNat (now.toNat / period)) (UInt64.ofNat offset) code) = true ↔
      ∃ s, NearStep (now.toNat / period) s ∧ hotpSha1 secret s = code := by
  have hstep : (UInt64.ofNat (now.toNat / period)).toNat = now.toNat / period := by
    have hlt := now.toNat_lt
    rw [UInt64.toNat_ofNat', Nat.mod_eq_of_lt]
    exact (Nat.div_le_self _ _).trans_lt hlt
  have hnext : (UInt64.ofNat (now.toNat / period) + 1).toNat = now.toNat / period + 1 := by
    have hlt := now.toNat_lt
    rw [UInt64.toNat_add, hstep]
    simp only [period]
    apply Nat.mod_eq_of_lt
    change now.toNat / 30 + 1 < 2 ^ 64
    omega
  have hback : 1 ≤ now.toNat / period →
      (UInt64.ofNat (now.toNat / period) - 1).toNat = now.toNat / period - 1 := by
    intro hle
    rw [UInt64.toNat_sub_of_le _ _ (UInt64.le_iff_toNat_le.mpr (by rwa [hstep])), hstep]
    rfl
  have hle : UInt64.ofNat (now.toNat / period) ≥ 1 ↔ 1 ≤ now.toNat / period := by
    rw [ge_iff_le, UInt64.le_iff_toNat_le, hstep]
    rfl
  have hrange : List.range (tolerance + 1) = [0, 1] := rfl
  have hzero : UInt64.ofNat 0 = 0 := rfl
  have hone : UInt64.ofNat 1 = 1 := rfl
  simp only [hrange, List.any_cons, List.any_nil, Bool.or_false, Bool.or_eq_true, codeNear, hzero,
    hone, Bool.and_eq_true, decide_eq_true_eq, generateCodeAtStep_eq, UInt64.add_zero, hstep,
    hnext, gt_iff_lt, UInt64.lt_irrefl, false_and, or_false, hle]
  constructor
  · rintro (h | h | ⟨⟨-, hpos⟩, h⟩)
    · exact ⟨_, .inl rfl, h⟩
    · exact ⟨_, .inr (.inl rfl), h⟩
    · rw [hback hpos] at h
      exact ⟨_, .inr (.inr ⟨hpos, rfl⟩), h⟩
  · rintro ⟨s, rfl | rfl | ⟨hpos, rfl⟩, h⟩
    · exact .inl h
    · exact .inr (.inl h)
    · rw [← hback hpos] at h
      exact .inr (.inr ⟨⟨by decide, hpos⟩, h⟩)

theorem verify_eq_true_iff (now : UInt64) (secret code : List Char) :
    verify now.toNat secret code = true ↔ ∃ key, base32Decode secret = some key ∧
      ∃ n, parseUnsigned (2 ^ 32) code = some n ∧ Pf.byteLen code = digits ∧
        ∃ s, NearStep (now.toNat / period) s ∧ hotpSha1 key s = n := by
  unfold verify
  cases base32Decode secret with
  | none => simp
  | some key =>
    cases parseUnsigned (2 ^ 32) code with
    | none => simp
    | some n =>
      by_cases hlen : Pf.byteLen code = digits
      · have hloop := codeNear_iff now key n
        simp only [ne_eq, hlen, not_true_eq_false, if_false, hloop, Option.some.injEq,
          exists_eq_left', true_and]
      · simp [hlen]

/-- Digits and a plus sign take a byte each. -/
theorem byteLen_eq_length (h : ∀ c ∈ code, c = '+' ∨ (toDigit 10 c).isSome = true) :
    Pf.byteLen code = code.length := by
  induction code with
  | nil => rfl
  | cons c code ih =>
    obtain ⟨hc, hrest⟩ := List.forall_mem_cons.mp h
    have hsize : c.utf8Size = 1 := by
      obtain rfl | hc := hc
      · rfl
      · obtain ⟨d, hd⟩ := Option.isSome_iff_exists.mp hc
        obtain ⟨hlt, rfl⟩ := digitChar_of_toDigit hd
        interval_cases d <;> rfl
    have ih := ih hrest
    simp only [Pf.byteLen] at ih ⊢
    rw [List.map_cons, List.sum_cons, hsize, ih, List.length_cons, Nat.add_comm]

theorem length_of_parse (h : Pf.byteLen code = digits)
    (hchars : ∀ c ∈ code, c = '+' ∨ (toDigit 10 c).isSome = true) : code.length = 6 := by
  rwa [byteLen_eq_length hchars] at h

/-- A text of six bytes that is read as a number is its six digits, or a plus sign and its five. -/
theorem parse_six_iff (code : List Char) (n : Nat) :
    parseUnsigned (2 ^ 32) code = some n ∧ Pf.byteLen code = digits ↔
      n < 10 ^ 6 ∧ code = zeroPadded 6 n ∨ n < 10 ^ 5 ∧ code = '+' :: zeroPadded 5 n := by
  constructor
  · rintro ⟨hparse, hlen⟩
    have hlength := length_of_parse hlen fun c hc => parseUnsigned_chars hparse hc
    obtain ⟨body, ds, hcode, -, hds, rfl, -⟩ := parseUnsigned_eq_some_iff.mp hparse
    obtain ⟨hlt, hbody⟩ := zeroPadded_digitsValue hds
    obtain rfl | rfl := hcode
    · have hfive : body.length = 5 := Nat.succ.inj hlength
      rw [hfive] at hlt hbody
      exact .inr ⟨hlt, by rw [hbody]⟩
    · rw [hlength] at hlt hbody
      exact .inl ⟨hlt, hbody.symm⟩
  · rintro (⟨hlt, rfl⟩ | ⟨hlt, rfl⟩)
    · obtain ⟨ds, hds, hvalue⟩ := mapM_zeroPadded 6 n
      rw [Nat.mod_eq_of_lt hlt] at hvalue
      have hparse : parseUnsigned (2 ^ 32) (zeroPadded 6 n) = some n := by
        refine parseUnsigned_eq_some_iff.mpr ⟨_, ds, .inr rfl, ?_, hds, hvalue, by omega⟩
        intro hnil
        have hlength := length_zeroPadded 6 n
        rw [hnil] at hlength
        cases hlength
      refine ⟨hparse, ?_⟩
      rw [byteLen_eq_length fun c hc => parseUnsigned_chars hparse hc, length_zeroPadded]
      rfl
    · obtain ⟨ds, hds, hvalue⟩ := mapM_zeroPadded 5 n
      rw [Nat.mod_eq_of_lt hlt] at hvalue
      have hparse : parseUnsigned (2 ^ 32) ('+' :: zeroPadded 5 n) = some n := by
        refine parseUnsigned_eq_some_iff.mpr ⟨_, ds, .inl rfl, ?_, hds, hvalue, by omega⟩
        intro hnil
        have hlength := length_zeroPadded 5 n
        rw [hnil] at hlength
        cases hlength
      refine ⟨hparse, ?_⟩
      rw [byteLen_eq_length fun c hc => parseUnsigned_chars hparse hc, List.length_cons,
        length_zeroPadded]
      rfl

theorem plus_ne_zeroPadded (rest : List Char) (width n : Nat) :
    '+' :: rest ≠ zeroPadded width n := by
  intro h
  obtain ⟨ds, hds, -⟩ := mapM_zeroPadded width n
  rw [← h, List.mapM_cons] at hds
  cases hds

/-- A secret as it is written, in capital or small letters, perhaps with padding. -/
structure Base32Secret where
  text : List Char
  chars : ∀ c ∈ text, c.toUpper ∈ base32Alphabet ∨ c = '='

/-- The code is not a plus sign in the place of the zero that a near value begins with. -/
def NoPlusSign (now : Nat) (secret code : List Char) : Prop :=
  ∀ key s, base32Decode secret = some key → NearStep (now / period) s →
    hotpSha1 key s < 10 ^ 5 → code ≠ '+' :: zeroPadded 5 (hotpSha1 key s)

theorem verify_iff_standard (now : UInt64) (secret code : List Char) :
    (verify now.toNat secret code = true ↔ StandardAccepts now.toNat secret code) ↔
      NoPlusSign now.toNat secret code := by
  rw [verify_eq_true_iff]
  constructor
  · intro h key s hkey hnear hlt hcode
    have hparse := (parse_six_iff code (hotpSha1 key s)).mpr (.inr ⟨hlt, hcode⟩)
    obtain ⟨key', -, s', -, hcode'⟩ :=
      h.mp ⟨key, hkey, _, hparse.1, hparse.2, s, hnear, rfl⟩
    exact plus_ne_zeroPadded _ _ _ (hcode.symm.trans hcode')
  · intro h
    constructor
    · rintro ⟨key, hkey, n, hparse, hlen, s, hnear, rfl⟩
      obtain ⟨-, hcode⟩ | ⟨hlt, hcode⟩ := (parse_six_iff code _).mp ⟨hparse, hlen⟩
      · exact ⟨key, hkey, s, hnear, hcode⟩
      · exact absurd hcode (h key s hkey hnear hlt)
    · rintro ⟨key, hkey, s, hnear, hcode⟩
      have hparse := (parse_six_iff code (hotpSha1 key s)).mpr
        (.inl ⟨hotpSha1_lt key s, hcode⟩)
      exact ⟨key, hkey, _, hparse.1, hparse.2, s, hnear, rfl⟩

/-- The hash, the keyed hash and the spelling of secrets are the standards' own, and `verify` accepts
the codes the standard does, if and only if there is no plus sign for a zero. -/
theorem totp_standard_iff (now : UInt64) (secret : Base32Secret) (code : List Char) :
    ((verify now.toNat secret.text code = true ↔
        StandardAccepts now.toNat secret.text code) ∧
      (∀ data, sha1 data = Sha1Standard.hash data) ∧
      (∀ key message, hmacSha1 key message = hmac Sha1Standard.hash 64 key message) ∧
      ∀ data, base32Decode (base32Encode data) = some data) ↔
      NoPlusSign now.toNat secret.text code := by
  rw [verify_iff_standard]
  exact and_iff_left ⟨sha1_eq, hmacSha1_eq, base32Decode_encode⟩

/-- A secret in small letters, with padding. -/
def paddedSecret : Base32Secret where
  text := "gezdgnbvgy3tqojqgezdgnbvgy3tqojq====".toList
  chars := forall_mem_of_all (by decide +kernel)

theorem totp_standard_padded :
    verify 59 paddedSecret.text "287082".toList = true ∧
      StandardAccepts 59 paddedSecret.text "287082".toList := by
  have hverify : verify 59 paddedSecret.text "287082".toList = true := by decide +kernel
  have hplain : NoPlusSign (59 : UInt64).toNat paddedSecret.text "287082".toList :=
    fun _ _ _ _ _ hcode => nomatch hcode
  exact ⟨hverify, ((totp_standard_iff 59 paddedSecret _).mpr hplain).1.mp hverify⟩

/-- At 1111111109 the code is 081804. -/
theorem plus_sign_accepted :
    verify 1111111109 "GEZDGNBVGY3TQOJQGEZDGNBVGY3TQOJQ".toList "+81804".toList = true ∧
      ¬ StandardAccepts 1111111109 "GEZDGNBVGY3TQOJQGEZDGNBVGY3TQOJQ".toList
        "+81804".toList := by
  constructor
  · decide +kernel
  · rintro ⟨key, -, s, -, hcode⟩
    exact plus_ne_zeroPadded "81804".toList _ _ hcode

end AiFw.Auth
