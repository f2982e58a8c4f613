import Mathlib.Tactic.Positivity
import Mathlib.Algebra.Order.Ring.Int

/-!
# Two's complement words

A `w`-bit machine word is a natural number below `2 ^ w`. `toWord w` maps an integer to the
word that represents it, and `toSigned w` reads a word as a signed integer. A machine computes
on words what the integers compute exactly, followed by `toWord`; the lemmas here say that
taking the word commutes with the operations, so that a machine computation can be compared
with an exact one operator by operator.

## Main definitions

* `toWord`, `toSigned` — the word of an integer and the signed reading of a word
-/

namespace TwosComplement

/-- The `w`-bit word of an integer. -/
def toWord (w : Nat) (n : Int) : Nat := (n % 2 ^ w).toNat

/-- The signed reading of a `w`-bit word. -/
def toSigned (w : Nat) (a : Nat) : Int := Int.bmod a (2 ^ w)

variable {w : Nat}

theorem two_pow_pos (w : Nat) : (0 : Int) < 2 ^ w := by positivity

theorem natCast_two_pow (w : Nat) : ((2 ^ w : Nat) : Int) = 2 ^ w := by
  push_cast
  rfl

theorem toWord_lt (w : Nat) (n : Int) : toWord w n < 2 ^ w := by
  have h1 := Int.emod_nonneg n (two_pow_pos w).ne'
  have h2 := Int.emod_lt_of_pos n (two_pow_pos w)
  have h3 := natCast_two_pow w
  unfold toWord
  omega

@[simp] theorem toWord_natCast (w a : Nat) : toWord w a = a % 2 ^ w := by
  unfold toWord
  norm_cast

/-- The word of an integer as an integer: its remainder. -/
theorem toWord_cast (w : Nat) (n : Int) : (toWord w n : Int) = n % 2 ^ w := by
  have h1 := Int.emod_nonneg n (two_pow_pos w).ne'
  unfold toWord
  omega

theorem toWord_eq_iff {m n : Int} : toWord w m = toWord w n ↔ m % 2 ^ w = n % 2 ^ w := by
  rw [← toWord_cast, ← toWord_cast]
  omega

/-- Two integers congruent modulo `2 ^ w` have the same word. -/
theorem toWord_congr {m n : Int} (h : m % 2 ^ w = n % 2 ^ w) : toWord w m = toWord w n :=
  toWord_eq_iff.mpr h

@[simp] theorem toWord_emod (w : Nat) (n : Int) : toWord w (n % 2 ^ w) = toWord w n :=
  toWord_congr (Int.emod_emod_of_dvd n dvd_rfl)

@[simp] theorem toWord_bmod (w : Nat) (n : Int) : toWord w (n.bmod (2 ^ w)) = toWord w n :=
  toWord_congr (by exact_mod_cast Int.bmod_emod)

@[simp] theorem toWord_toWord (w : Nat) (n : Int) : toWord w (toWord w n) = toWord w n := by
  rw [toWord_cast, toWord_emod]

theorem toWord_add (w : Nat) (m n : Int) :
    toWord w (m + n) = toWord w (toWord w m + toWord w n) := by
  apply toWord_congr
  rw [toWord_cast, toWord_cast, Int.add_emod]

theorem toWord_sub (w : Nat) (m n : Int) :
    toWord w (m - n) = toWord w ((toWord w m : Int) - toWord w n) := by
  apply toWord_congr
  rw [toWord_cast, toWord_cast, Int.sub_emod]

theorem toWord_mul (w : Nat) (m n : Int) :
    toWord w (m * n) = toWord w (toWord w m * toWord w n) := by
  apply toWord_congr
  rw [toWord_cast, toWord_cast, Int.mul_emod]

theorem toWord_toWord_mul (w : Nat) (m n : Int) :
    toWord w (toWord w m * n) = toWord w (m * n) := by
  apply toWord_congr
  rw [toWord_cast, Int.mul_emod, Int.emod_emod, ← Int.mul_emod]

theorem toWord_neg (w : Nat) (n : Int) : toWord w (-n) = toWord w (-(toWord w n : Int)) := by
  have h0 : toWord w 0 = 0 := by simp [toWord]
  have := toWord_sub w 0 n
  rwa [h0, Nat.cast_zero, zero_sub, zero_sub] at this

/-! ### Congruence

Integers with the same word give words equal under the ring operations. -/

section Congr

variable {a b c d : Int}

theorem toWord_neg_congr (h : toWord w a = toWord w b) : toWord w (-a) = toWord w (-b) := by
  rw [toWord_neg, h, ← toWord_neg]

theorem toWord_add_congr (h1 : toWord w a = toWord w b) (h2 : toWord w c = toWord w d) :
    toWord w (a + c) = toWord w (b + d) := by
  rw [toWord_add, h1, h2, ← toWord_add]

theorem toWord_sub_congr (h1 : toWord w a = toWord w b) (h2 : toWord w c = toWord w d) :
    toWord w (a - c) = toWord w (b - d) := by
  rw [toWord_sub, h1, h2, ← toWord_sub]

theorem toWord_mul_congr (h1 : toWord w a = toWord w b) (h2 : toWord w c = toWord w d) :
    toWord w (a * c) = toWord w (b * d) := by
  rw [toWord_mul, h1, h2, ← toWord_mul]

end Congr

/-- The signed reading of a word represents the same integer. -/
@[simp] theorem toWord_toSigned (w a : Nat) : toWord w (toSigned w a) = a % 2 ^ w := by
  rw [toSigned, toWord_bmod, toWord_natCast]

theorem toSigned_toWord (w : Nat) (n : Int) : toSigned w (toWord w n) = n.bmod (2 ^ w) := by
  rw [toSigned, toWord_cast, ← natCast_two_pow, Int.emod_bmod]

/-- An integer is its own signed reading exactly when it lies in the signed range. -/
theorem bmod_eq_self_iff {b : Nat} {v : Int} :
    v.bmod (2 ^ (b + 1)) = v ↔ -2 ^ b ≤ v ∧ v < 2 ^ b := by
  have hpos : 0 < 2 ^ (b + 1) := by positivity
  constructor
  · intro h
    have h1 := Int.le_bmod (x := v) hpos
    have h2 := Int.bmod_lt (x := v) hpos
    rw [h, Nat.pow_succ] at h1 h2
    push_cast at h1 h2
    omega
  · rintro ⟨h1, h2⟩
    apply Int.bmod_eq_of_le <;> rw [Nat.pow_succ] <;> push_cast <;> omega

/-- An integer is its own remainder exactly when it lies in the unsigned range. -/
theorem emod_eq_self_iff {b : Nat} {v : Int} : v % 2 ^ b = v ↔ 0 ≤ v ∧ v < 2 ^ b := by
  constructor
  · intro h
    have h1 := Int.emod_nonneg v (two_pow_pos b).ne'
    have h2 := Int.emod_lt_of_pos v (two_pow_pos b)
    omega
  · rintro ⟨h1, h2⟩
    exact Int.emod_eq_of_lt h1 h2

/-- The low `v` bits of a `w`-bit word are the `v`-bit word. -/
theorem toWord_mod_of_le {v : Nat} (h : v ≤ w) (n : Int) : toWord w n % 2 ^ v = toWord v n := by
  have hdvd : (2 : Int) ^ v ∣ 2 ^ w := pow_dvd_pow 2 h
  have := toWord_cast w n
  rw [← toWord_natCast, toWord_congr (n := n)]
  rw [this, Int.emod_emod_of_dvd n hdvd]

/-- The low `v` bits of a `w`-bit word read signed are its low `v` bits. -/
theorem toWord_toSigned_of_le {v : Nat} (h : v ≤ w) (a : Nat) :
    toWord v (toSigned w a) = a % 2 ^ v := by
  rw [← toWord_mod_of_le h, toWord_toSigned, Nat.mod_mod_of_dvd _ (Nat.pow_dvd_pow 2 h)]

end TwosComplement
