import Mathlib.Tactic.IntervalCases
import Mathlib.Tactic.Linarith
import DioptaseOS.Basm.Encode
import DioptaseOS.Lib.BitField

/-!
# basm: what the immediate fields decode to

Each encoder's diagnostic states the rule of its field: a signed value of some width, a
signed 12-bit value shifted by 0 to 3, a word offset, the bits above the bottom ten. This
module writes each rule as the value its field decodes to, and proves that an encoder that
succeeds gives a field of its width that decodes to the immediate, that it succeeds exactly on
the immediates its rule can represent, and that every field is the encoding of some
immediate, so that the encoders and the rules are inverse bijections. The absolute memory
encoder picks the least scale that fits. `movi` of any 32-bit literal, assembled as the pair
`movu`, `movl`, never fails and rebuilds the literal.

## Main definitions

* `signedField`, `absoluteMemoryValue`, `branchOffset`, `luiValue` — the decoding rules
* `ScaledFits` — an immediate is a signed 12-bit value shifted by `s`

## Main results

* `signed_immediate_roundtrip` — the six encoders of a signed field
* `absolute_memory_immediate_exact` — `encode_absolute_memory_immediate`
* `branch_immediate_roundtrip` — `encode_branch_immediate`
* `movi_literal_rebuilds` — `consume_mov_hack` on the two halves of `movi`
-/

namespace DioptaseOS.Basm

open TwosComplement BitField

/-! ### The rules of the fields -/

/-- A signed field of `width` bits. -/
def signedField (width : ℕ) (e : BitVec 32) : ℤ := toSigned width e.toNat

/-- The immediate of an absolute memory instruction: a signed 12-bit value, shifted left by the
scale in the two bits above it. -/
def absoluteMemoryValue (e : BitVec 32) : ℤ :=
  toSigned 12 (e.toNat % 2 ^ 12) * 2 ^ (e.toNat / 2 ^ 12)

/-- A branch offset: a signed 22-bit count of words. -/
def branchOffset (e : BitVec 32) : ℤ := toSigned 22 e.toNat * 4

/-- The word `lui` writes: its field above the bottom ten bits. -/
def luiValue (e : BitVec 32) : ℕ := e.toNat * 2 ^ 10

/-- `imm` is a signed 12-bit value shifted left by `s`. -/
def ScaledFits (imm : BitVec 32) (s : ℕ) : Prop :=
  2 ^ s ∣ imm.toInt ∧ -2 ^ (11 + s) ≤ imm.toInt ∧ imm.toInt < 2 ^ (11 + s)

/-! ### Signed fields -/

section Signed

variable {width : ℕ} (msg : String)

theorem encodeSignedImmediate_eq_ok {imm e : BitVec 32}
    (h : encodeSignedImmediate width msg imm = .ok e) :
    (-2 ^ (width - 1) ≤ imm.toInt ∧ imm.toInt < 2 ^ (width - 1)) ∧
      e = imm &&& BitVec.ofNat 32 (2 ^ width - 1) := by
  unfold encodeSignedImmediate at h
  split_ifs at h with hr
  exact ⟨hr, (Except.ok.inj h).symm⟩

/-- A field of `width` bits from 1 to 32: an encoding that succeeds fits the width and reads
back as the immediate, and every field is the encoding of the immediate it reads as. -/
theorem signed_immediate_roundtrip (h1 : 1 ≤ width) (h32 : width ≤ 32) :
    (∀ imm e, encodeSignedImmediate width msg imm = .ok e →
      e.toNat < 2 ^ width ∧ signedField width e = imm.toInt) ∧
    ∀ e : BitVec 32, e.toNat < 2 ^ width →
      encodeSignedImmediate width msg (BitVec.ofInt 32 (signedField width e)) = .ok e := by
  obtain ⟨b, rfl⟩ : ∃ b, width = b + 1 := ⟨width - 1, by omega⟩
  refine ⟨fun imm e h => ?_, fun e he => ?_⟩
  · obtain ⟨hr, rfl⟩ := encodeSignedImmediate_eq_ok msg h
    rw [Nat.add_sub_cancel] at hr
    refine ⟨?_, ?_⟩
    · rw [toNat_and_mask imm h32]
      exact Nat.mod_lt _ (Nat.two_pow_pos _)
    · rw [signedField, toSigned_and_mask imm h32]
      exact bmod_eq_self_iff.mpr hr
  · -- the field's value lies in the signed range of `width` bits, inside that of 32 bits
    obtain ⟨hlo, hhi⟩ := toSigned_mem_range b e.toNat
    have hle : (2 : ℤ) ^ b ≤ 2 ^ 31 := pow_le_pow_right₀ (by norm_num) (by omega)
    have hval : (BitVec.ofInt 32 (signedField (b + 1) e)).toInt = signedField (b + 1) e :=
      toInt_ofInt_of_range (by rw [signedField]; linarith) (by rw [signedField]; linarith)
    unfold encodeSignedImmediate
    rw [hval, Nat.add_sub_cancel, if_pos ⟨hlo, hhi⟩]
    refine congrArg Except.ok (BitVec.eq_of_toNat_eq ?_)
    rw [toNat_and_mask _ h32, toNat_mod_eq_toWord _ h32, hval, signedField, toWord_toSigned,
      Nat.mod_eq_of_lt he]

/-- The arithmetic immediate is the signed field of 12 bits. -/
theorem arithmetic_immediate_roundtrip :
    1 ≤ 12 ∧ 12 ≤ 32 ∧
    (∀ imm e, encodeArithmeticImmediate imm = .ok e →
      e.toNat < 2 ^ 12 ∧ signedField 12 e = imm.toInt) ∧
    ∀ e : BitVec 32, e.toNat < 2 ^ 12 →
      encodeArithmeticImmediate (BitVec.ofInt 32 (signedField 12 e)) = .ok e :=
  ⟨by decide, by decide, signed_immediate_roundtrip _ (by decide) (by decide)⟩

end Signed

/-! ### Absolute memory immediates -/

instance (imm : BitVec 32) (s : ℕ) : Decidable (ScaledFits imm s) :=
  inferInstanceAs (Decidable (_ ∧ _ ∧ _))

/-- The field of scale `s`: the shifted value under the 12-bit mask, and the scale above it. -/
def scaledField (imm : BitVec 32) (s : ℕ) : BitVec 32 :=
  imm.sshiftRight s &&& BitVec.ofNat 32 (2 ^ 12 - 1) ||| BitVec.ofNat 32 s <<< 12

/-- The test of scale 0: the word or its complement under `0x7FF`. -/
theorem fits_scale_zero_iff (imm : BitVec 32) :
    (imm = imm &&& 0x7FF ∨ ~~~imm = ~~~imm &&& 0x7FF) ↔ ScaledFits imm 0 := by
  rw [ScaledFits, pow_zero, Nat.add_zero]
  exact (@fits_iff 32 11 imm (by decide)).trans ⟨fun h => ⟨one_dvd _, h⟩, fun h => h.2⟩

/-- The test of scale `s`: the word or its complement under `2 ^ (11 + s) - 1`, and its low `s`
bits clear. -/
theorem fits_scale_iff (imm : BitVec 32) (s : ℕ) (hs : s ≤ 3) :
    ((imm = imm &&& BitVec.ofNat 32 (2 ^ (11 + s) - 1) ∨
        ~~~imm = ~~~imm &&& BitVec.ofNat 32 (2 ^ (11 + s) - 1)) ∧
      imm &&& BitVec.ofNat 32 (2 ^ s - 1) = 0) ↔ ScaledFits imm s := by
  rw [fits_iff imm (by omega), and_mask_eq_zero_iff imm (by omega),
    ← dvd_toInt_iff imm (by omega), ScaledFits, and_comm]

theorem scaledField_zero (imm : BitVec 32) : scaledField imm 0 = imm &&& 0xFFF := by
  simp [scaledField, BitVec.sshiftRight_zero]

/-- The field of the scale that fits has 14 bits, its scale above bit 12, and decodes to the
immediate. -/
theorem scaledField_spec {imm : BitVec 32} {s : ℕ} (hs : s ≤ 3) (h : ScaledFits imm s) :
    (scaledField imm s).toNat < 2 ^ 14 ∧ (scaledField imm s).toNat / 2 ^ 12 = s ∧
      absoluteMemoryValue (scaledField imm s) = imm.toInt := by
  obtain ⟨hdvd, hlo, hhi⟩ := h
  -- the value over the scale is a signed 12-bit integer
  have hp : (0 : ℤ) < 2 ^ s := by positivity
  have hq : imm.toInt / 2 ^ s * 2 ^ s = imm.toInt := Int.ediv_mul_cancel hdvd
  rw [pow_add] at hlo hhi
  have hqlo : -2 ^ 11 ≤ imm.toInt / 2 ^ s := by nlinarith
  have hqhi : imm.toInt / 2 ^ s < 2 ^ 11 := by nlinarith
  have hfield := @toNat_sshiftRight_and_mask 32 12 imm s (by decide)
  have hflt : toWord 12 (imm.toInt / 2 ^ s) < 2 ^ 12 := toWord_lt 12 _
  have hsel : (BitVec.ofNat 32 s <<< 12).toNat = s * 2 ^ 12 := by
    have hs32 : s < 2 ^ 32 := by omega
    have hsel32 : s * 2 ^ 12 < 2 ^ 32 := by omega
    rw [BitVec.toNat_shiftLeft, BitVec.toNat_ofNat, Nat.shiftLeft_eq, Nat.mod_eq_of_lt hs32,
      Nat.mod_eq_of_lt hsel32]
  have he : (scaledField imm s).toNat = toWord 12 (imm.toInt / 2 ^ s) + s * 2 ^ 12 := by
    rw [scaledField, toNat_or_of_lt _ _ (hfield ▸ hflt) (hsel ▸ Dvd.intro_left s rfl), hfield,
      hsel]
  have hmod : (scaledField imm s).toNat % 2 ^ 12 = toWord 12 (imm.toInt / 2 ^ s) := by omega
  have hdiv : (scaledField imm s).toNat / 2 ^ 12 = s := by omega
  refine ⟨by omega, hdiv, ?_⟩
  rw [absoluteMemoryValue, hmod, hdiv, toSigned_toWord, bmod_eq_self_iff.mpr ⟨hqlo, hqhi⟩, hq]

/-- What `encode_absolute_memory_immediate` does: the field of the least scale that fits, or
its diagnostic when none does. -/
theorem encodeAbsoluteMemoryImmediate_cases (imm : BitVec 32) :
    (∃ s ≤ 3, ScaledFits imm s ∧ (∀ s' < s, ¬ScaledFits imm s') ∧
      encodeAbsoluteMemoryImmediate imm = .ok (scaledField imm s)) ∨
    ((∀ s ≤ 3, ¬ScaledFits imm s) ∧
      encodeAbsoluteMemoryImmediate imm =
        .error (msgMemory ++ "Immediate must be a 12 bit number shifted by 0, 1, 2, or 3\n")) := by
  have h0 := fits_scale_zero_iff imm
  have h1 := fits_scale_iff imm 1 (by decide)
  have h2 := fits_scale_iff imm 2 (by decide)
  have h3 := fits_scale_iff imm 3 (by decide)
  unfold encodeAbsoluteMemoryImmediate
  split_ifs with c0 c1 c2 c3
  · exact .inl ⟨0, by decide, h0.mp c0, fun _ h => absurd h (Nat.not_lt_zero _),
      congrArg Except.ok (scaledField_zero imm).symm⟩
  · refine .inl ⟨1, by decide, h1.mp c1, fun s' hs' => ?_, rfl⟩
    obtain rfl : s' = 0 := by omega
    exact fun h => c0 (h0.mpr h)
  · refine .inl ⟨2, by decide, h2.mp c2, fun s' hs' => ?_, rfl⟩
    -- the scales below are the ones whose tests failed
    interval_cases s'
    · exact fun h => c0 (h0.mpr h)
    · exact fun h => c1 (h1.mpr h)
  · refine .inl ⟨3, by decide, h3.mp c3, fun s' hs' => ?_, rfl⟩
    interval_cases s'
    · exact fun h => c0 (h0.mpr h)
    · exact fun h => c1 (h1.mpr h)
    · exact fun h => c2 (h2.mpr h)
  · refine .inr ⟨fun s hs => ?_, rfl⟩
    interval_cases s
    · exact fun h => c0 (h0.mpr h)
    · exact fun h => c1 (h1.mpr h)
    · exact fun h => c2 (h2.mpr h)
    · exact fun h => c3 (h3.mpr h)

/-- `encode_absolute_memory_immediate` succeeds exactly on the signed 12-bit values shifted by
0 to 3; its field has 14 bits, decodes to the immediate, and carries the least scale that
fits. -/
theorem absolute_memory_immediate_exact (imm : BitVec 32) :
    (∀ e, encodeAbsoluteMemoryImmediate imm = .ok e →
      e.toNat < 2 ^ 14 ∧ absoluteMemoryValue e = imm.toInt ∧
        ∀ s < e.toNat / 2 ^ 12, ¬ScaledFits imm s) ∧
    ((∃ e, encodeAbsoluteMemoryImmediate imm = .ok e) ↔ ∃ s ≤ 3, ScaledFits imm s) := by
  rcases encodeAbsoluteMemoryImmediate_cases imm with ⟨s, hs, hfit, hleast, henc⟩ | ⟨hnone, henc⟩
  · obtain ⟨hlt, hscale, hvalue⟩ := scaledField_spec hs hfit
    rw [henc]
    refine ⟨fun e he => ?_, ⟨fun _ => ⟨s, hs, hfit⟩, fun _ => ⟨_, rfl⟩⟩⟩
    obtain rfl := Except.ok.inj he
    refine ⟨hlt, hvalue, ?_⟩
    rw [hscale]
    exact hleast
  · rw [henc]
    refine ⟨fun _ he => (nomatch he), ⟨fun ⟨_, he⟩ => (nomatch he), fun ⟨s, hs, hfit⟩ => ?_⟩⟩
    exact absurd hfit (hnone s hs)

/-! ### Branch offsets -/

/-- `encode_branch_immediate` succeeds exactly on the multiples of 4 in 24 signed bits; its
field has 22 bits and decodes to the offset, and every field is the encoding of its offset. -/
theorem branch_immediate_roundtrip :
    (∀ imm e, encodeBranchImmediate imm = .ok e → e.toNat < 2 ^ 22 ∧ branchOffset e = imm.toInt) ∧
    (∀ imm, (∃ e, encodeBranchImmediate imm = .ok e) ↔
      4 ∣ imm.toInt ∧ -2 ^ 23 ≤ imm.toInt ∧ imm.toInt < 2 ^ 23) ∧
    ∀ e : BitVec 32, e.toNat < 2 ^ 22 →
      encodeBranchImmediate (BitVec.ofInt 32 (branchOffset e)) = .ok e := by
  -- the test of the low bits is divisibility of the value by 4
  have hdvd4 : ∀ imm : BitVec 32, imm &&& 3 = 0 ↔ 4 ∣ imm.toInt := fun imm =>
    (@and_mask_eq_zero_iff 32 2 imm (by decide)).trans (dvd_toInt_iff imm (by decide)).symm
  have hfield : ∀ imm : BitVec 32,
      (imm.sshiftRight 2 &&& 0x3FFFFF).toNat = toWord 22 (imm.toInt / 4) := fun imm =>
    @toNat_sshiftRight_and_mask 32 22 imm 2 (by decide)
  refine ⟨fun imm e h => ?_, fun imm => ?_, fun e he => ?_⟩
  · unfold encodeBranchImmediate at h
    split_ifs at h with hr
    obtain rfl := (Except.ok.inj h).symm
    obtain ⟨hlo, hhi, h3⟩ := hr
    obtain ⟨q, hq⟩ := (hdvd4 imm).mp h3
    have hqdiv : imm.toInt / 4 = q := by omega
    refine ⟨hfield imm ▸ toWord_lt 22 _, ?_⟩
    rw [branchOffset, hfield, toSigned_toWord, hqdiv,
      bmod_eq_self_iff.mpr ⟨by omega, by omega⟩]
    omega
  · unfold encodeBranchImmediate
    split_ifs with hr
    · exact ⟨fun _ => ⟨(hdvd4 imm).mp hr.2.2, hr.1, hr.2.1⟩, fun _ => ⟨_, rfl⟩⟩
    · refine ⟨fun ⟨_, he⟩ => (nomatch he), fun ⟨h4, hlo, hhi⟩ => ?_⟩
      exact absurd ⟨hlo, hhi, (hdvd4 imm).mpr h4⟩ hr
  · -- the offset is four times a signed 22-bit value
    obtain ⟨hlo, hhi⟩ : -2 ^ 21 ≤ toSigned 22 e.toNat ∧ toSigned 22 e.toNat < 2 ^ 21 :=
      toSigned_mem_range 21 e.toNat
    have hval : (BitVec.ofInt 32 (branchOffset e)).toInt = branchOffset e :=
      toInt_ofInt_of_range (by rw [branchOffset]; omega) (by rw [branchOffset]; omega)
    unfold encodeBranchImmediate
    rw [hval, if_pos ⟨by rw [branchOffset]; omega, by rw [branchOffset]; omega,
      (hdvd4 _).mpr (by rw [hval, branchOffset]; exact Dvd.intro_left _ rfl)⟩]
    refine congrArg Except.ok (BitVec.eq_of_toNat_eq ?_)
    rw [hfield, hval, branchOffset, Int.mul_ediv_cancel _ (by decide), toWord_toSigned,
      Nat.mod_eq_of_lt he]

/-! ### `movi` -/

/-- `movi rA, imm` of any literal: the preprocessor writes `movu rA, imm; movl rA, imm`, and
`consume_mov_hack` assembles the two into a `lui` and an `addi` that never fail or panic and
whose fields rebuild the literal: the `lui` word plus the signed `addi` field is `imm`. -/
theorem movi_literal_rebuilds (ra : ℕ) (imm : BitVec 32) :
    ∃ e f : BitVec 32,
      consumeMovHack 0 ra false imm = .word (2 <<< 27 ||| BitVec.ofNat 32 ra <<< 22 ||| e) ∧
      consumeMovHack 1 ra false imm = .word (1 <<< 27 ||| BitVec.ofNat 32 ra <<< 22 |||
        BitVec.ofNat 32 ra <<< 17 ||| 14 <<< 12 ||| f) ∧
      e.toNat < 2 ^ 22 ∧ f.toNat < 2 ^ 12 ∧ (luiValue e : ℤ) + signedField 12 f = imm.toNat := by
  -- the two halves of the literal: its bits from 10 up, and its bottom ten bits
  set hi := imm &&& 0xFFFFFC00 with hhi
  set lo := imm &&& 0x3FF with hlo
  have hlo_lt : lo.toNat < 2 ^ 10 := by
    rw [hlo, show (0x3FF : BitVec 32) = BitVec.ofNat 32 (2 ^ 10 - 1) from rfl,
      toNat_and_mask imm (by decide)]
    exact Nat.mod_lt _ (by decide)
  have hhi_low : hi &&& 0x3FF = 0 := by
    rw [hhi, BitVec.and_assoc]
    simp
  have hhi_dvd : 2 ^ 10 ∣ hi.toNat := (@and_mask_eq_zero_iff 32 10 hi (by decide)).mp hhi_low
  have hsplit : imm.toNat = hi.toNat + lo.toNat := by
    have hor : imm = hi ||| lo := by
      rw [hhi, hlo, ← BitVec.and_or_distrib_left,
        show (0xFFFFFC00 ||| 0x3FF : BitVec 32) = BitVec.allOnes 32 by decide, BitVec.and_allOnes]
    rw [hor, BitVec.or_comm, toNat_or_of_lt lo hi hlo_lt hhi_dvd, Nat.add_comm]
  -- the `lui` field is the upper half over `2 ^ 10`
  set e := hi.sshiftRight 10 &&& 0x3FFFFF with he
  have he_toNat : e.toNat = toWord 22 (hi.toInt / 2 ^ 10) :=
    @toNat_sshiftRight_and_mask 32 22 hi 10 (by decide)
  have hlui : luiValue e = hi.toNat := by
    rw [luiValue, he_toNat, toWord, BitVec.toInt_eq_toNat_cond]
    obtain ⟨q, hq⟩ := hhi_dvd
    have hlt := hi.isLt
    split_ifs <;> omega
  -- the `addi` field is the lower half, a small non-negative value
  have hlo_int : lo.toInt = lo.toNat := by
    rw [BitVec.toInt_eq_toNat_cond, if_pos (by omega)]
  have harith : encodeArithmeticImmediate lo = .ok lo := by
    rw [encodeArithmeticImmediate, encodeSignedImmediate, if_pos (by rw [hlo_int]; omega)]
    congr 1
    apply BitVec.eq_of_toNat_eq
    rw [toNat_and_mask lo (by decide), Nat.mod_eq_of_lt (by omega)]
  refine ⟨e, lo, ?_, ?_, by rw [he_toNat]; exact toWord_lt 22 _, by omega, ?_⟩
  · -- `mov_type` 0, no label: the `lui` branch, whose test of the low bits passes
    simp only [consumeMovHack, encodeLuiImmediate, Bool.false_eq_true, ↓reduceIte,
      Nat.reduceLeDiff, ne_eq, Nat.reduceEqDiff]
    rw [if_pos hhi_low]
    simp [he, hhi, BitVec.and_assoc]
  · simp only [consumeMovHack, Bool.false_eq_true, ↓reduceIte, Nat.reduceLeDiff, ne_eq,
      Nat.reduceEqDiff]
    rw [harith]
    simp [lo, BitVec.and_assoc]
  · rw [hlui, signedField, toSigned, Int.bmod_eq_of_le (by omega) (by omega), hsplit,
      Nat.cast_add]

end DioptaseOS.Basm
