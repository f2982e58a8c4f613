import DioptaseOS.Bcc.Typecheck
import DioptaseOS.Lib.TwosComplement

/-!
# The C meaning of integer expressions

What the C standard (C11 6.3.1 and 6.5) gives an integer expression on a target with 8-bit
`char`, 16-bit `short`, 32-bit `int` and 64-bit `long`, all two's complement: its type
(`cType`, by integer promotion and the usual arithmetic conversions) and its value (`cEval`),
or no value where the behaviour is undefined: signed overflow, division by zero, a shift by a
negative count or by the width or more, a left shift of a negative value. The
implementation-defined cases, the conversion of an out-of-range value to a signed type and
the right shift of a negative value, are those of two's complement compilers: the value wraps
modulo `2 ^ width`, and the shift is arithmetic.

This is the reference that the compiler's typing, its compile-time evaluation and its lowered
code are compared with.

## Main definitions

* `TypeType.promote`, `usualArithType` — the C typing rules
* `TypeType.convert` — conversion of a value to a type
* `cType`, `cEval` — the type and the value of an expression

## Main results

* `getCommonType_eq_usualArithType` — `get_common_type` follows C except on `short` and
  `unsigned short`
* `cEval_convert` — every value `cEval` gives lies in the range of the expression's type
-/

namespace DioptaseOS.Bcc

open TwosComplement TypeType

/-! ### Types -/

namespace TypeType

/-- The integer conversion rank (C11 6.3.1.1). -/
def rank : TypeType → Nat
  | charType | scharType | ucharType => 1
  | shortType | ushortType => 2
  | intType | uintType => 3
  | longType | ulongType => 4

/-- The width in bits. -/
def bits (t : TypeType) : Nat := 8 * t.getTypeSize

/-- Integer promotion (C11 6.3.1.1): a type of lower rank than `int` becomes `int`, which
holds all of its values here. -/
def promote (t : TypeType) : TypeType := if t.rank < intType.rank then intType else t

/-- The unsigned type of the same rank. -/
def toUnsigned : TypeType → TypeType
  | charType | scharType | ucharType => ucharType
  | shortType | ushortType => ushortType
  | intType | uintType => uintType
  | longType | ulongType => ulongType

/-- Conversion of an integer to the type (C11 6.3.1.3): modulo `2 ^ width`, into the signed
or the unsigned range. -/
def convert (t : TypeType) (v : Int) : Int :=
  if t.isSignedType then v.bmod (2 ^ t.bits) else v % 2 ^ t.bits

end TypeType

/-- The least value of the type. -/
def TypeType.minValue (t : TypeType) : Int := if t.isSignedType then -2 ^ (t.bits - 1) else 0

/-- The greatest value of the type. -/
def TypeType.maxValue (t : TypeType) : Int :=
  if t.isSignedType then 2 ^ (t.bits - 1) - 1 else 2 ^ t.bits - 1

/-- The usual arithmetic conversions (C11 6.3.1.8) on two integer types. -/
def usualArithType (t1 t2 : TypeType) : TypeType :=
  let t1 := t1.promote
  let t2 := t2.promote
  if t1 = t2 then t1
  else if t1.isSignedType = t2.isSignedType then (if t1.rank ≥ t2.rank then t1 else t2)
  else
    let s := if t1.isSignedType then t1 else t2
    let u := if t1.isSignedType then t2 else t1
    if u.rank ≥ s.rank then u
    else if s.getTypeSize > u.getTypeSize then s
    else s.toUnsigned

/-- Off `short` and `unsigned short`, the compiler's common type is C's. -/
theorem getCommonType_eq_usualArithType {t1 t2 : TypeType} (h1 : t1.rank ≠ 2)
    (h2 : t2.rank ≠ 2) : getCommonType t1 t2 = usualArithType t1 t2 := by
  cases t1 <;> cases t2 <;> first | rfl | simp [rank] at h1 h2

/-! ### Values -/

/-- C's `1` or `0` for a truth value. -/
def ofBool (b : Bool) : Int := if b then 1 else 0

/-- The result of an arithmetic operator in type `t` from the exact one: reduced modulo
`2 ^ width` for an unsigned type, undefined where a signed type cannot hold it
(C11 6.5p5). -/
def arithResult (t : TypeType) (r : Int) : Option Int :=
  if t.isSignedType then (if t.convert r = r then some r else none) else some (t.convert r)

/-- The type of a binary operator's result. -/
def binaryType (op : BinOp) (tl tr : TypeType) : TypeType :=
  match op with
  | .bitShl | .bitShr => tl.promote
  | .boolAnd | .boolOr | .boolEq | .boolNeq | .boolLe | .boolGe | .boolLeq | .boolGeq => intType
  | .commaOp => tr
  | _ => usualArithType tl tr

/-- The type of an expression. -/
def cType : Expr → TypeType
  | .lit l => l.valueType
  | .cast target _ => target
  | .unary op e => if op = .boolNot then intType else (cType e).promote
  | .binary op left right => binaryType op (cType left) (cType right)
  | .conditional _ left right => usualArithType (cType left) (cType right)
  | .sizeofT _ => uintType

/-- A unary operator on a value of type `t`. -/
def cUnary (op : UnOp) (t : TypeType) (v : Int) : Option Int :=
  let t := t.promote
  match op with
  | .negate => arithResult t (-v)
  -- `~v` is `-v - 1` in two's complement
  | .complement => some (t.convert (-v - 1))
  | .unaryPlus => some v
  | .boolNot => some (ofBool (v = 0))

/-- A shift of `vl`, of type `tl`, by `vr` (C11 6.5.7). -/
def cShift (op : BinOp) (tl : TypeType) (vl vr : Int) : Option Int :=
  let t := tl.promote
  if vr < 0 ∨ t.bits ≤ vr then none
  else if op = .bitShl then
    if t.isSignedType then (if vl < 0 then none else arithResult t (vl * 2 ^ vr.toNat))
    else some (t.convert (vl * 2 ^ vr.toNat))
  else some (vl >>> vr.toNat)

/-- A binary operator other than a shift, `&&`, `||` and `,` on two values of type `t`. -/
def cArithOn (op : BinOp) (t : TypeType) (a b : Int) : Option Int :=
  match op with
  | .addOp => arithResult t (a + b)
  | .subOp => arithResult t (a - b)
  | .mulOp => arithResult t (a * b)
  | .divOp => if b = 0 then none else arithResult t (a.tdiv b)
  -- `a % b` is undefined exactly where `a / b` is
  | .modOp => if b = 0 then none else (arithResult t (a.tdiv b)).map fun _ => a.tmod b
  | .bitAnd => some (t.convert (toWord t.bits a &&& toWord t.bits b))
  | .bitOr => some (t.convert (toWord t.bits a ||| toWord t.bits b))
  | .bitXor => some (t.convert (toWord t.bits a ^^^ toWord t.bits b))
  | .boolEq => some (ofBool (a = b))
  | .boolNeq => some (ofBool (a ≠ b))
  | .boolLe => some (ofBool (a < b))
  | .boolGe => some (ofBool (b < a))
  | .boolLeq => some (ofBool (a ≤ b))
  | .boolGeq => some (ofBool (b ≤ a))
  | _ => none

/-- The same on operands of types `tl` and `tr`, both converted to the usual arithmetic type
first. -/
def cArith (op : BinOp) (tl : TypeType) (vl : Int) (tr : TypeType) (vr : Int) : Option Int :=
  let t := usualArithType tl tr
  cArithOn op t (t.convert vl) (t.convert vr)

/-- A binary operator on the values of its operands, `none` where an operand has none; `&&`
and `||` look at the right operand only when the left one does not decide. -/
def cBinary (op : BinOp) (tl tr : TypeType) (ol or : Option Int) : Option Int :=
  match op with
  | .boolAnd => ol.bind fun vl => if vl = 0 then some 0 else or.map fun vr => ofBool (vr ≠ 0)
  | .boolOr => ol.bind fun vl => if vl ≠ 0 then some 1 else or.map fun vr => ofBool (vr ≠ 0)
  | .commaOp => ol.bind fun _ => or
  | .bitShl | .bitShr => ol.bind fun vl => or.bind fun vr => cShift op tl vl vr
  | _ => ol.bind fun vl => or.bind fun vr => cArith op tl vl tr vr

/-- The value of an expression, `none` where its behaviour is undefined. -/
def cEval : Expr → Option Int
  | .lit (.intConst v) => some v.toInt
  | .lit (.uintConst v) => some v.toNat
  | .cast target e => (cEval e).map target.convert
  | .unary op e => (cEval e).bind (cUnary op (cType e))
  | .binary op left right => cBinary op (cType left) (cType right) (cEval left) (cEval right)
  | .conditional condition left right =>
    let t := usualArithType (cType left) (cType right)
    (cEval condition).bind fun c =>
      if c ≠ 0 then (cEval left).map t.convert else (cEval right).map t.convert
  | .sizeofT t => some t.getTypeSize

/-! ### Ranges -/

namespace TypeType

variable {t : TypeType} {v : Int}

theorem bits_eq_succ (t : TypeType) : t.bits = (t.bits - 1) + 1 := by
  cases t <;> rfl

/-- A value is unchanged by the conversion to a type exactly when it lies in the type's
range. -/
theorem convert_eq_self_iff : t.convert v = v ↔ t.minValue ≤ v ∧ v ≤ t.maxValue := by
  unfold convert minValue maxValue
  cases hs : t.isSignedType
  · simp only [Bool.false_eq_true, if_false, emod_eq_self_iff]
    omega
  · simp only [if_true]
    rw [bits_eq_succ t, bmod_eq_self_iff, Nat.add_sub_cancel]
    omega

theorem convert_convert (t : TypeType) (v : Int) : t.convert (t.convert v) = t.convert v := by
  unfold convert
  split
  · exact Int.bmod_bmod
  · exact Int.emod_emod_of_dvd v dvd_rfl

theorem minValue_le_convert (t : TypeType) (v : Int) : t.minValue ≤ t.convert v :=
  (convert_eq_self_iff.mp (convert_convert t v)).1

theorem convert_le_maxValue (t : TypeType) (v : Int) : t.convert v ≤ t.maxValue :=
  (convert_eq_self_iff.mp (convert_convert t v)).2

/-- Promotion only widens the range. -/
theorem promote_minValue_le (t : TypeType) : t.promote.minValue ≤ t.minValue := by
  cases t <;> decide

theorem maxValue_le_promote (t : TypeType) : t.maxValue ≤ t.promote.maxValue := by
  cases t <;> decide

theorem convert_promote (h : t.convert v = v) : t.promote.convert v = v := by
  rw [convert_eq_self_iff] at h ⊢
  have h1 := promote_minValue_le t
  have h2 := maxValue_le_promote t
  omega

end TypeType

open TypeType

theorem arithResult_convert {t : TypeType} {r v : Int} (h : arithResult t r = some v) :
    t.convert v = v := by
  unfold arithResult at h
  split at h
  · split at h
    · cases h
      assumption
    · cases h
  · cases h
    exact convert_convert t r

theorem convert_ofBool (b : Bool) : intType.convert (ofBool b) = ofBool b := by
  cases b <;> decide

theorem minValue_nonpos (t : TypeType) : t.minValue ≤ 0 := by
  cases t <;> decide

theorem maxValue_pos (t : TypeType) : 0 < t.maxValue := by
  cases t <;> decide

/-! ### Every value lies in its type -/

theorem cUnary_convert {op : UnOp} {t : TypeType} {v r : Int} (hv : t.convert v = v)
    (h : cUnary op t v = some r) :
    (if op = .boolNot then intType else t.promote).convert r = r := by
  cases op <;> simp only [cUnary, Option.some.injEq] at h <;> subst_vars <;>
    simp only [reduceCtorEq, if_false, if_true]
  case complement => exact convert_convert _ _
  case negate => exact arithResult_convert h
  case boolNot => exact convert_ofBool _
  case unaryPlus => exact convert_promote hv

/-- An arithmetic right shift stays between its operand and `0`. -/
theorem convert_shiftRight {t : TypeType} {v : Int} (hv : t.convert v = v) (k : Nat) :
    t.convert (v >>> k) = v >>> k := by
  rw [convert_eq_self_iff] at hv ⊢
  have h1 := minValue_nonpos t
  have h2 := maxValue_pos t
  rcases Int.le_total 0 v with hpos | hneg
  · have := Int.shiftRight_le_of_nonneg (s := k) hpos
    have := Int.le_shiftRight_of_nonneg (s := k) hpos
    omega
  · have := Int.le_shiftRight_of_nonpos (s := k) hneg
    have := Int.shiftRight_le_of_nonpos (s := k) hneg
    omega

theorem cShift_convert {op : BinOp} {tl : TypeType} {vl vr r : Int} (hv : tl.convert vl = vl)
    (h : cShift op tl vl vr = some r) : tl.promote.convert r = r := by
  unfold cShift at h
  dsimp only at h
  split_ifs at h with hcount hshl hsigned hneg
  · exact arithResult_convert h
  · cases h
    exact convert_convert _ _
  · cases h
    exact convert_shiftRight (convert_promote hv) _

/-- A type with negative values is signed, and its range is `[-(max + 1), max]`. -/
theorem minValue_eq_of_neg {t : TypeType} (h : t.minValue < 0) :
    t.minValue = -t.maxValue - 1 := by
  cases t <;> first | decide | (revert h; decide)

/-- The remainder has the sign of the dividend. -/
theorem tmod_nonpos {a : Int} (b : Int) (ha : a ≤ 0) : a.tmod b ≤ 0 := by
  have := Int.tmod_nonneg b (a := -a) (by omega)
  rw [Int.neg_tmod] at this
  omega

/-- A remainder is smaller than the divisor in magnitude and has the sign of the dividend, so
it lies in any range that holds both. -/
theorem convert_tmod {t : TypeType} {a b : Int} (ha : t.convert a = a) (hb : t.convert b = b)
    (hb0 : b ≠ 0) : t.convert (a.tmod b) = a.tmod b := by
  rw [convert_eq_self_iff] at ha hb ⊢
  have hmin := minValue_nonpos t
  have hmax := maxValue_pos t
  -- the bounds `|a % b| < |b|`, whatever the sign of `b`
  have hlt : a.tmod b < b ∨ a.tmod b < -b := by
    rcases Int.lt_or_gt_of_ne hb0 with hneg | hpos
    · have := Int.tmod_lt_of_pos a (b := -b) (by omega)
      rw [Int.tmod_neg] at this
      exact Or.inr this
    · exact Or.inl (Int.tmod_lt_of_pos a hpos)
  have hgt : b < a.tmod b ∨ -b < a.tmod b := by
    rcases Int.lt_or_gt_of_ne hb0 with hneg | hpos
    · have := Int.lt_tmod_of_pos a (b := -b) (by omega)
      rw [Int.tmod_neg] at this
      exact Or.inl (by omega)
    · exact Or.inr (Int.lt_tmod_of_pos a hpos)
  rcases Int.lt_or_le a 0 with ha0 | ha0
  · -- a negative dividend: a signed type, and a remainder in `(-|b|, 0]`
    have hsym := minValue_eq_of_neg (by omega : t.minValue < 0)
    have := tmod_nonpos b ha0.le
    omega
  · have := Int.tmod_nonneg b ha0
    rcases Int.lt_or_le b 0 with hb1 | hb1
    · have hsym := minValue_eq_of_neg (by omega : t.minValue < 0)
      omega
    · omega

theorem cArith_convert {op : BinOp} {tl tr : TypeType} {vl vr r : Int}
    (h : cArith op tl vl tr vr = some r) : (binaryType op tl tr).convert r = r := by
  cases op <;> simp only [cArith, cArithOn] at h <;> simp only [binaryType]
  all_goals first
    | (cases h; first | exact convert_ofBool _ | exact convert_convert _ _)
    | exact arithResult_convert h
    | skip
  case divOp =>
    split_ifs at h
    exact arithResult_convert h
  case modOp =>
    split_ifs at h with hb
    obtain ⟨_, -, rfl⟩ := Option.map_eq_some_iff.mp h
    exact convert_tmod (convert_convert _ _) (convert_convert _ _) hb
  all_goals cases h

theorem cBinary_convert {op : BinOp} {tl tr : TypeType} {ol or : Option Int} {r : Int}
    (hl : ∀ v, ol = some v → tl.convert v = v) (hr : ∀ v, or = some v → tr.convert v = v)
    (h : cBinary op tl tr ol or = some r) : (binaryType op tl tr).convert r = r := by
  cases op
  case boolAnd | boolOr =>
    simp only [cBinary, Option.bind_eq_some_iff] at h
    obtain ⟨vl, -, h⟩ := h
    simp only [binaryType]
    split_ifs at h
    · cases h
      decide
    · obtain ⟨vr, -, rfl⟩ := Option.map_eq_some_iff.mp h
      exact convert_ofBool _
  case commaOp =>
    simp only [cBinary, Option.bind_eq_some_iff] at h
    obtain ⟨vl, -, h⟩ := h
    exact hr r h
  case bitShl | bitShr =>
    simp only [cBinary, Option.bind_eq_some_iff] at h
    obtain ⟨vl, hvl, vr, -, h⟩ := h
    exact cShift_convert (hl vl hvl) h
  all_goals
    simp only [cBinary, Option.bind_eq_some_iff] at h
    obtain ⟨vl, -, vr, -, h⟩ := h
    exact cArith_convert h

/-- A literal's value lies in its type. -/
theorem convert_lit {l : Lit} {v : Int} (h : cEval (.lit l) = some v) :
    l.valueType.convert v = v := by
  rw [convert_eq_self_iff]
  cases l with
  | intConst x =>
    cases h
    have h1 := BitVec.le_toInt (x := x)
    have h2 := BitVec.toInt_lt (x := x)
    rw [Lit.valueType, show intType.minValue = -2147483648 by rfl,
      show intType.maxValue = 2147483647 by rfl]
    simp only [Nat.add_one_sub_one, Int.reducePow] at h1 h2
    omega
  | uintConst x =>
    cases h
    have := x.isLt
    rw [Lit.valueType, show uintType.minValue = 0 by rfl,
      show uintType.maxValue = 4294967295 by rfl]
    omega

/-- Type soundness of the reference: every value `cEval` gives lies in the range of the
expression's type. The induction follows the expression. -/
theorem cEval_convert {e : Expr} {v : Int} (h : cEval e = some v) : (cType e).convert v = v := by
  induction e generalizing v with
  | lit l => exact convert_lit h
  | cast target e ih =>
    obtain ⟨v', -, rfl⟩ := Option.map_eq_some_iff.mp h
    exact convert_convert _ _
  | unary op e ih =>
    obtain ⟨v', hv', h⟩ := Option.bind_eq_some_iff.mp h
    exact cUnary_convert (ih hv') h
  | binary op left right ihl ihr =>
    exact cBinary_convert (fun _ => ihl) (fun _ => ihr) h
  | conditional c left right ihc ihl ihr =>
    simp only [cEval, Option.bind_eq_some_iff] at h
    obtain ⟨vc, -, h⟩ := h
    split_ifs at h
    · obtain ⟨v', -, rfl⟩ := Option.map_eq_some_iff.mp h
      exact convert_convert _ _
    · obtain ⟨v', -, rfl⟩ := Option.map_eq_some_iff.mp h
      exact convert_convert _ _
  | sizeofT t =>
    cases h
    cases t <;> decide

end DioptaseOS.Bcc
