import Mathlib.Data.BitVec
import DioptaseOS.Lib.TwosComplement

/-!
# Fields of a machine word

An instruction encoder cuts an integer into a field of `k` bits with a mask `2 ^ k - 1`,
shifts it with an arithmetic shift, and puts a selector above it with `|||`. These lemmas read
each of these operations on a word `x : BitVec n` as arithmetic on `x.toNat` and `x.toInt`, so
that what a field decodes to can be computed: a masked field is the word of the integer modulo
`2 ^ k` (`toNat_and_mask`), read signed it is the integer itself when it lies in the field's
range (`toSigned_and_mask`), a mask test is a bound, and the test of a word or its complement
against a mask is the signed range (`fits_iff`).

## Main results

* `toNat_and_mask`, `eq_and_mask_iff`, `and_mask_eq_zero_iff` — masks as `% 2 ^ k`
* `fits_iff` — `x` or `~~~x` under the mask exactly when `x.toInt` lies in `[-2 ^ k, 2 ^ k)`
* `toSigned_and_mask`, `toNat_sshiftRight_and_mask` — the signed reading of a masked field
* `toNat_or_of_lt` — a field and a selector above it are added
-/

namespace BitField

open TwosComplement

variable {n k : ℕ}

theorem two_pow_sub_one_lt (hk : k ≤ n) : 2 ^ k - 1 < 2 ^ n := by
  have hpos : 0 < 2 ^ k := Nat.two_pow_pos k
  have hle : 2 ^ k ≤ 2 ^ n := Nat.pow_le_pow_right (by decide) hk
  omega

/-- A mask of `k` low bits takes the word modulo `2 ^ k`. -/
theorem toNat_and_mask (x : BitVec n) (hk : k ≤ n) :
    (x &&& BitVec.ofNat n (2 ^ k - 1)).toNat = x.toNat % 2 ^ k := by
  rw [BitVec.toNat_and, BitVec.toNat_ofNat, Nat.mod_eq_of_lt (two_pow_sub_one_lt hk),
    Nat.and_two_pow_sub_one_eq_mod]

theorem eq_and_mask_iff (x : BitVec n) (hk : k ≤ n) :
    x = x &&& BitVec.ofNat n (2 ^ k - 1) ↔ x.toNat < 2 ^ k := by
  rw [← BitVec.toNat_inj, toNat_and_mask x hk]
  constructor
  · intro h
    rw [h]
    exact Nat.mod_lt _ (Nat.two_pow_pos k)
  · intro h
    exact (Nat.mod_eq_of_lt h).symm

theorem and_mask_eq_zero_iff (x : BitVec n) (hk : k ≤ n) :
    x &&& BitVec.ofNat n (2 ^ k - 1) = 0 ↔ 2 ^ k ∣ x.toNat := by
  rw [← BitVec.toNat_inj, toNat_and_mask x hk]
  exact Nat.dvd_iff_mod_eq_zero.symm

/-- A word, or its complement, fits under a mask of `k` bits exactly when it is a signed
integer of `k + 1` bits. -/
theorem fits_iff (x : BitVec n) (hk : k < n) :
    (x = x &&& BitVec.ofNat n (2 ^ k - 1) ∨ ~~~x = ~~~x &&& BitVec.ofNat n (2 ^ k - 1)) ↔
      -2 ^ k ≤ x.toInt ∧ x.toInt < 2 ^ k := by
  rw [eq_and_mask_iff x hk.le, eq_and_mask_iff (~~~x) hk.le, BitVec.toNat_not,
    BitVec.toInt_eq_toNat_cond]
  -- the two ranges of `x.toNat` against `2 ^ k` and `2 ^ n`, with `2 * 2 ^ k ≤ 2 ^ n`
  have hle : 2 * 2 ^ k ≤ 2 ^ n := by
    rw [← Nat.pow_succ']
    exact Nat.pow_le_pow_right (by decide) hk
  have hx := x.isLt
  have hcast : ((2 : ℤ) ^ k) = ((2 ^ k : ℕ) : ℤ) := by push_cast; rfl
  rw [hcast]
  split_ifs <;> omega

/-- The low `k` bits of a word are the `k`-bit word of its signed value. -/
theorem toNat_mod_eq_toWord (x : BitVec n) (hk : k ≤ n) : x.toNat % 2 ^ k = toWord k x.toInt := by
  have hword : toWord n x.toInt = x.toNat := by
    rw [BitVec.toInt_eq_toNat_bmod, toWord_bmod, toWord_natCast, Nat.mod_eq_of_lt x.isLt]
  rw [← hword, toWord_mod_of_le hk]

/-- A masked field read as a signed integer of `k` bits: the value modulo `2 ^ k`, in the
signed range. -/
theorem toSigned_and_mask (x : BitVec n) (hk : k ≤ n) :
    toSigned k (x &&& BitVec.ofNat n (2 ^ k - 1)).toNat = x.toInt.bmod (2 ^ k) := by
  rw [toNat_and_mask x hk, toNat_mod_eq_toWord x hk, toSigned_toWord]

/-- An arithmetic shift by `s` under a mask of `k` bits: the `k`-bit word of the floor of the
signed value over `2 ^ s`. -/
theorem toNat_sshiftRight_and_mask (x : BitVec n) (s : ℕ) (hk : k ≤ n) :
    (x.sshiftRight s &&& BitVec.ofNat n (2 ^ k - 1)).toNat = toWord k (x.toInt / 2 ^ s) := by
  rw [toNat_and_mask _ hk, toNat_mod_eq_toWord _ hk, BitVec.toInt_sshiftRight,
    Int.shiftRight_eq_div_pow]
  push_cast
  rfl

/-- A signed reading lies in the signed range of its width. -/
theorem toSigned_mem_range (b a : ℕ) :
    -2 ^ b ≤ toSigned (b + 1) a ∧ toSigned (b + 1) a < 2 ^ b :=
  bmod_eq_self_iff.mp Int.bmod_bmod

/-- A word built from an integer of the signed range has that integer as its value. -/
theorem toInt_ofInt_of_range {v : ℤ} (hlo : -2 ^ n ≤ v) (hhi : v < 2 ^ n) :
    (BitVec.ofInt (n + 1) v).toInt = v := by
  rw [BitVec.toInt_ofInt]
  exact bmod_eq_self_iff.mpr ⟨hlo, hhi⟩

/-- Divisibility by a power of two below the width reads the same on the word and on its
signed value. -/
theorem dvd_toInt_iff (x : BitVec n) {s : ℕ} (hs : s ≤ n) :
    (2 : ℤ) ^ s ∣ x.toInt ↔ 2 ^ s ∣ x.toNat := by
  have hdvd : (2 : ℤ) ^ s ∣ 2 ^ n := pow_dvd_pow 2 hs
  rw [BitVec.toInt_eq_toNat_cond]
  have hcast : ((2 ^ s : ℕ) : ℤ) = (2 : ℤ) ^ s := by push_cast; rfl
  rw [← Int.natCast_dvd_natCast, hcast]
  split_ifs
  · rfl
  · -- `x.toNat - 2 ^ n` differs from `x.toNat` by a multiple of `2 ^ s`
    push_cast
    exact (dvd_sub_left hdvd).trans Iff.rfl

/-- A field below bit `k` and a value of bits from `k` up share no bit: `|||` adds them. -/
theorem toNat_or_of_lt (x y : BitVec n) (hx : x.toNat < 2 ^ k) (hy : 2 ^ k ∣ y.toNat) :
    (x ||| y).toNat = x.toNat + y.toNat := by
  obtain ⟨q, hq⟩ := hy
  rw [BitVec.toNat_or, hq, Nat.or_comm, Nat.mul_comm, ← Nat.shiftLeft_eq,
    ← Nat.shiftLeft_add_eq_or_of_lt hx, Nat.add_comm]

end BitField
