import DioptaseOS.Bcc.TacArith

/-!
# Folding constant expressions

`eval_const` in `typechecking.c` folds a typed constant expression to the value that
`is_init_const` stores as a static initializer. It computes on `uint64_t` and `int64_t`, which
the compiler's own `crt/stdint.h` defines as `unsigned` and `int`: on 32-bit words. Every cast
(the explicit ones and those `convert_expr_type` inserted) is the identity, and an operator
looks at the node's `value_type` only for its signedness.

On literals, casts to `int` and `unsigned int`, `sizeof`, `-`, `~`, `+`, `-`, `*`, `&`, `|`,
`^` and `,` the words come out as C's. A comparison reads its operands signed whenever its node
is, and `typecheck_binary` gives every comparison the type `int`: two `unsigned int` operands
at or above `2 ^ 31` are compared as negative numbers.

## Main definitions

* `constUnary`, `constBinary` — one operator of `eval_const` on 32-bit words
* `evalConst` — `eval_const` on a typed expression
* `Expr.lowBitsConst` — the expressions built from the operators that keep the words

## Main results

* `evalConst_lt` — every folded value is a 32-bit word
* `evalConst_mod_eq_cEval` — on those expressions `eval_const` folds, and its word is C's
* `evalConst_unsigned_compare_eq_zero` — `0xFFFFFFFFu > 0u` folds to `0`, where C gives `1`
-/

namespace DioptaseOS.Bcc

open TwosComplement TypeType

/-! ### The folding -/

/-- The unary case of `eval_const` on the word `v` of the operand of a node of type `ty`;
`none` is its `false` on unary `+`. -/
def constUnary (op : UnOp) (ty : TypeType) (v : Nat) : Option Nat :=
  match op with
  | .negate =>
    if ty.isSignedType then some (toWord 32 (-toSigned 32 v))
    -- `~inner_value + 1`
    else some ((2 ^ 32 - 1 - v + 1) % 2 ^ 32)
  | .complement => some (2 ^ 32 - 1 - v)
  | .boolNot => some (if v = 0 then 1 else 0)
  | .unaryPlus => none

/-- A comparison of `eval_const`: of the words read signed for a signed node, of the words
otherwise. -/
def constCompare (isSigned : Bool) (rel : Int → Int → Prop) [DecidableRel rel] (l r : Nat) :
    Nat :=
  if (if isSigned then rel (toSigned 32 l) (toSigned 32 r) else rel l r) then 1 else 0

/-- The binary case of `eval_const` on the words `l` and `r` of the operands of a node of type
`ty`; `none` is its `false` on a zero divisor. A shift by 32 or more, undefined in the C the
compiler is written in, is the shift of the number cut to 32 bits here. -/
def constBinary (op : BinOp) (ty : TypeType) (l r : Nat) : Option Nat :=
  let isSigned := ty.isSignedType
  match op with
  | .addOp => some ((l + r) % 2 ^ 32)
  | .subOp => some (toWord 32 ((l : Int) - r))
  | .mulOp =>
    some (if isSigned then toWord 32 (toSigned 32 l * toSigned 32 r) else l * r % 2 ^ 32)
  | .divOp =>
    if r = 0 then none
    else some (if isSigned then toWord 32 ((toSigned 32 l).tdiv (toSigned 32 r)) else l / r)
  | .modOp =>
    if r = 0 then none
    else some (if isSigned then toWord 32 ((toSigned 32 l).tmod (toSigned 32 r)) else l % r)
  | .bitAnd => some (l &&& r)
  | .bitOr => some (l ||| r)
  | .bitXor => some (l ^^^ r)
  | .bitShl => some ((l <<< r) % 2 ^ 32)
  | .bitShr => some (if isSigned then toWord 32 (toSigned 32 l >>> r) else l >>> r)
  | .boolAnd => some (if l ≠ 0 ∧ r ≠ 0 then 1 else 0)
  | .boolOr => some (if l ≠ 0 ∨ r ≠ 0 then 1 else 0)
  | .boolEq => some (if l = r then 1 else 0)
  | .boolNeq => some (if l ≠ r then 1 else 0)
  | .boolLe => some (constCompare isSigned (· < ·) l r)
  | .boolGe => some (constCompare isSigned (· > ·) l r)
  | .boolLeq => some (constCompare isSigned (· ≤ ·) l r)
  | .boolGeq => some (constCompare isSigned (· ≥ ·) l r)
  | .commaOp => some r

/-- `eval_const(expr, &out)` on a typed integer expression: the word it writes to `out`, `none`
where it returns `false`. Both operands of a binary operator are folded first. -/
def evalConst : TExpr → Option Nat
  | .lit (.intConst v) => some (toWord 32 v.toInt)
  | .lit (.uintConst v) => some v.toNat
  -- "we assume casts do not change the value in this context"
  | .cast _ e => evalConst e
  | .unary op ty e => (evalConst e).bind (constUnary op ty)
  | .binary op ty left right =>
    (evalConst left).bind fun l => (evalConst right).bind fun r => constBinary op ty l r
  | .conditional _ condition left right =>
    (evalConst condition).bind fun c => if c ≠ 0 then evalConst left else evalConst right
  | .sizeofT t => some t.getTypeSize

/-! ### An unsigned comparison -/

/-- `0xFFFFFFFFu > 0u`. -/
def unsignedMaxIsPositive : Expr :=
  .binary .boolGe (.lit (.uintConst 0xFFFFFFFF)) (.lit (.uintConst 0))

/-- C compares the two `unsigned int` operands as they are and gives `1`. `typecheck_binary`
gives the comparison the type `int`, so `eval_const` reads both words signed, compares `-1`
with `0` and folds the `int` initializer to `0`. -/
theorem evalConst_unsigned_compare_eq_zero :
    evalConst (typecheckExpr unsignedMaxIsPositive) = some 0 ∧
      cEval unsignedMaxIsPositive = some 1 := by
  decide

/-! ### Words -/

theorem constUnary_lt {op : UnOp} {ty : TypeType} {v x : Nat}
    (h : constUnary op ty v = some x) : x < 2 ^ 32 := by
  cases op <;> simp only [constUnary, reduceCtorEq, Option.some.injEq] at h
  case negate =>
    split at h <;> rw [← Option.some.inj h]
    · exact toWord_lt 32 _
    · exact Nat.mod_lt _ (by decide)
  case complement => omega
  case boolNot => split at h <;> omega

theorem constCompare_le (isSigned : Bool) (rel : Int → Int → Prop) [DecidableRel rel]
    (l r : Nat) : constCompare isSigned rel l r ≤ 1 := by
  unfold constCompare
  split_ifs <;> omega

theorem constBinary_lt {op : BinOp} {ty : TypeType} {l r x : Nat} (hl : l < 2 ^ 32)
    (hr : r < 2 ^ 32) (h : constBinary op ty l r = some x) : x < 2 ^ 32 := by
  have hw : ∀ n, toWord 32 n < 2 ^ 32 := toWord_lt 32
  have hm : ∀ n, n % 2 ^ 32 < 2 ^ 32 := fun n => Nat.mod_lt n (by decide)
  have hb : ∀ (p : Prop) [Decidable p], (if p then 1 else 0) < 2 ^ 32 := fun p _ => by
    split <;> decide
  cases op <;> simp only [constBinary] at h
  case addOp | bitShl =>
    cases h
    exact hm _
  case subOp =>
    cases h
    exact hw _
  case mulOp =>
    cases h
    split
    exacts [hw _, hm _]
  case divOp =>
    split at h
    · cases h
    · cases h
      split
      exacts [hw _, lt_of_le_of_lt (Nat.div_le_self l r) hl]
  case modOp =>
    split at h
    · cases h
    · cases h
      split
      exacts [hw _, lt_of_le_of_lt (Nat.mod_le l r) hl]
  case bitAnd =>
    cases h
    exact Nat.and_lt_two_pow l hr
  case bitOr =>
    cases h
    exact Nat.or_lt_two_pow hl hr
  case bitXor =>
    cases h
    exact Nat.xor_lt_two_pow hl hr
  case bitShr =>
    cases h
    split
    exacts [hw _, lt_of_le_of_lt (Nat.shiftRight_le l r) hl]
  case boolAnd | boolOr | boolEq | boolNeq =>
    cases h
    exact hb _
  case boolLe | boolGe | boolLeq | boolGeq =>
    cases h
    exact lt_of_le_of_lt (constCompare_le _ _ l r) (by decide)
  case commaOp =>
    cases h
    exact hr

/-- Every value `eval_const` folds to is a 32-bit word. -/
theorem evalConst_lt {e : TExpr} {x : Nat} (h : evalConst e = some x) : x < 2 ^ 32 := by
  induction e generalizing x with
  | lit l =>
    cases l <;> cases h
    · exact toWord_lt 32 _
    · exact lt_of_lt_of_le (BitVec.isLt _) (by decide)
  | cast target e ih => exact ih h
  | unary op ty e ih =>
    obtain ⟨v, -, h⟩ := Option.bind_eq_some_iff.mp h
    exact constUnary_lt h
  | binary op ty left right ihl ihr =>
    obtain ⟨l, hl, h⟩ := Option.bind_eq_some_iff.mp h
    obtain ⟨r, hr, h⟩ := Option.bind_eq_some_iff.mp h
    exact constBinary_lt (ihl hl) (ihr hr) h
  | conditional ty condition left right ihc ihl ihr =>
    obtain ⟨c, -, h⟩ := Option.bind_eq_some_iff.mp h
    split at h
    · exact ihl h
    · exact ihr h
  | sizeofT t =>
    cases h
    cases t <;> decide

/-! ### Low bits -/

/-- The operators whose low 32 bits depend only on the low 32 bits of their operands. -/
def BinOp.keepsLowBits : BinOp → Bool
  | .addOp | .subOp | .mulOp | .bitAnd | .bitOr | .bitXor | .commaOp => true
  | _ => false

/-- Expressions of 32-bit types built from literals, `sizeof`, casts, `-`, `~` and the
operators that keep the low bits. -/
def Expr.lowBitsConst : Expr → Bool
  | .lit _ => true
  | .cast target e => decide target.IsWord && e.lowBitsConst
  | .unary op e => (op == .negate || op == .complement) && e.lowBitsConst
  | .binary op left right => op.keepsLowBits && left.lowBitsConst && right.lowBitsConst
  | .conditional _ _ _ => false
  | .sizeofT _ => true

theorem Expr.wordTyped_of_lowBitsConst {e : Expr} (h : e.lowBitsConst) : e.wordTyped := by
  induction e with
  | lit l => rfl
  | cast target e ih =>
    simp only [lowBitsConst, Bool.and_eq_true] at h
    simp only [wordTyped, h.1, ih h.2, Bool.and_self]
  | unary op e ih =>
    simp only [lowBitsConst, Bool.and_eq_true] at h
    exact ih h.2
  | binary op left right ihl ihr =>
    simp only [lowBitsConst, Bool.and_eq_true] at h
    simp only [wordTyped, ihl h.1.2, ihr h.2, Bool.and_self]
  | conditional condition left right ihc ihl ihr => cases h
  | sizeofT t => rfl

theorem evalConst_convertExprType (e : TExpr) (t : TypeType) :
    evalConst (convertExprType e t) = evalConst e := by
  unfold convertExprType
  split
  · rfl
  · rfl

/-- The low 32 bits of a natural number that is `z` plus `2 ^ 32` are the word of `z`. -/
theorem mod_two_pow_of_cast_eq {n : Nat} {z : Int} (h : (n : Int) = z + 2 ^ 32) :
    n % 2 ^ 32 = toWord 32 z := by
  rw [← toWord_natCast]
  apply toWord_congr
  rw [h, Int.add_emod_right]

/-- `-` and `~` fold an operand with C's low bits to C's low bits. -/
theorem constUnary_of_cUnary {op : UnOp} {t : TypeType} {x : Nat} {v r : Int} (ht : t.IsWord)
    (hop : op = .negate ∨ op = .complement) (hx : x < 2 ^ 32)
    (hxv : toWord 32 x = toWord 32 v) (h : cUnary op t v = some r) :
    (constUnary op t x).map (· % 2 ^ 32) = some (toWord 32 r) := by
  simp only [cUnary, ht.promote_eq] at h
  rcases hop with rfl | rfl
  · rw [ht.toWord_of_arithResult h, ← toWord_neg_congr hxv]
    rcases ht with rfl | rfl
    · -- `int`: the negation of the word read signed
      have hs : toWord 32 (toSigned 32 x) = toWord 32 x := by
        rw [toWord_toSigned_of_le (by decide), toWord_natCast]
      simp only [constUnary, isSignedType, if_true, Option.map_some,
        toWord_mod_of_le le_rfl, toWord_neg_congr hs]
    · -- `unsigned int`: `~x + 1`, which is `2 ^ 32 - x`
      simp only [constUnary, isSignedType, Bool.false_eq_true, if_false, Option.map_some,
        Nat.mod_mod]
      congr 1
      exact mod_two_pow_of_cast_eq (by push_cast [Nat.cast_sub (le_of_lt hx)]; omega)
  · cases h
    simp only [constUnary, Option.map_some, ht.toWord_convert]
    congr 1
    rw [← toWord_sub_congr (toWord_neg_congr hxv) rfl]
    exact mod_two_pow_of_cast_eq (by push_cast [Nat.cast_sub (le_of_lt hx)]; omega)

/-- An operator that keeps the low bits folds operands with C's low bits to C's low bits. -/
theorem constBinary_of_cArithOn {op : BinOp} {t : TypeType} {xl xr : Nat} {a b r : Int}
    (ht : t.IsWord) (hop : op.keepsLowBits) (hl : toWord 32 xl = toWord 32 a)
    (hr : toWord 32 xr = toWord 32 b) (h : cArithOn op t a b = some r) :
    (constBinary op t xl xr).map (· % 2 ^ 32) = some (toWord 32 r) := by
  have hword : ∀ n : Int, toWord 32 n % 2 ^ 32 = toWord 32 n :=
    toWord_mod_of_le le_rfl
  have hmod : ∀ n : Nat, n % 2 ^ 32 % 2 ^ 32 = toWord 32 n := fun n => by
    rw [Nat.mod_mod, toWord_natCast]
  cases op <;> simp only [BinOp.keepsLowBits, Bool.false_eq_true] at hop <;>
    simp only [cArithOn, reduceCtorEq] at h <;> simp only [constBinary, Option.map_some]
  case addOp =>
    rw [ht.toWord_of_arithResult h, hmod, Nat.cast_add, toWord_add_congr hl hr]
  case subOp =>
    rw [ht.toWord_of_arithResult h, hword, toWord_sub_congr hl hr]
  case mulOp =>
    rw [ht.toWord_of_arithResult h]
    rcases ht with rfl | rfl
    · -- `int`: the product of the words read signed
      have hs : ∀ n : Nat, toWord 32 (toSigned 32 n) = toWord 32 n := fun n => by
        rw [toWord_toSigned_of_le (by decide), toWord_natCast]
      simp only [isSignedType, if_true]
      rw [hword, toWord_mul_congr ((hs xl).trans hl) ((hs xr).trans hr)]
    · simp only [isSignedType, Bool.false_eq_true, if_false]
      rw [hmod, Nat.cast_mul, toWord_mul_congr hl hr]
  -- C takes the bitwise operators on the words of the operands, which are the low bits
  case bitAnd | bitOr | bitXor =>
    cases h
    rw [toWord_natCast] at hl hr
    rw [ht.toWord_convert, ht.bits_eq, toWord_natCast, ← hl, ← hr]
    simp only [Nat.and_mod_two_pow, Nat.or_mod_two_pow, Nat.xor_mod_two_pow, Nat.mod_mod]

section Binary

/- The operands of a binary operator: typed trees of 32-bit types that fold to words with C's
low bits, wherever C has a value for them. -/
variable {left right : TExpr} {cl cr : Option Int}
  (hl : left.valueType.IsWord) (hr : right.valueType.IsWord)
  (hL : ∀ vl, cl = some vl → (evalConst left).map (· % 2 ^ 32) = some (toWord 32 vl))
  (hR : ∀ vr, cr = some vr → (evalConst right).map (· % 2 ^ 32) = some (toWord 32 vr))
include hl hr hL hR

/-- The folding of a typed binary operator that keeps the low bits has C's low bits. -/
theorem evalConst_typecheckBinary {op : BinOp} {v : Int} (hop : op.keepsLowBits)
    (h : cBinary op left.valueType right.valueType cl cr = some v) :
    (evalConst (typecheckBinary op left right)).map (· % 2 ^ 32) = some (toWord 32 v) := by
  cases op <;> simp only [BinOp.keepsLowBits, Bool.false_eq_true] at hop
  case commaOp =>
    obtain ⟨vl, hvl, h⟩ := Option.bind_eq_some_iff.mp h
    obtain ⟨xl, hxl, -⟩ := Option.map_eq_some_iff.mp (hL vl hvl)
    obtain ⟨xr, hxr, hxv⟩ := Option.map_eq_some_iff.mp (hR v h)
    simp only [typecheckBinary, reduceCtorEq, or_self, if_false, if_true, evalConst, hxl, hxr,
      Option.bind_some, constBinary, Option.map_some, hxv]
  case addOp | subOp | mulOp | bitAnd | bitOr | bitXor =>
    have hct := hl.usualArithType hr
    simp only [cBinary, cArith] at h
    obtain ⟨vl, hvl, h⟩ := Option.bind_eq_some_iff.mp h
    obtain ⟨vr, hvr, h⟩ := Option.bind_eq_some_iff.mp h
    obtain ⟨xl, hxl, hxlv⟩ := Option.map_eq_some_iff.mp (hL vl hvl)
    obtain ⟨xr, hxr, hxrv⟩ := Option.map_eq_some_iff.mp (hR vr hvr)
    simp only [typecheckBinary, reduceCtorEq, or_self, if_false, hl.getCommonType_eq hr,
      evalConst, evalConst_convertExprType, hxl, hxr, Option.bind_some]
    refine constBinary_of_cArithOn hct rfl ?_ ?_ h
    · rw [toWord_natCast, hxlv, hct.toWord_convert]
    · rw [toWord_natCast, hxrv, hct.toWord_convert]

end Binary

/-- On expressions of 32-bit types built from literals, `sizeof`, casts, `-`, `~`, `+`, `-`, `*`,
`&`, `|`, `^` and `,`, `eval_const` folds the typed tree wherever C defines its value, and the
low 32 bits of the word it folds to are C's value. -/
theorem evalConst_mod_eq_cEval {e : Expr} {v : Int} (he : e.lowBitsConst) (h : cEval e = some v) :
    (evalConst (typecheckExpr e)).map (· % 2 ^ 32) = some (toWord 32 v) := by
  induction e generalizing v with
  | lit l =>
    cases l <;> cases h
    · exact congrArg some (toWord_mod_of_le le_rfl _)
    · exact congrArg some (toWord_natCast 32 _).symm
  | cast target e ih =>
    simp only [Expr.lowBitsConst, Bool.and_eq_true, decide_eq_true_eq] at he
    obtain ⟨v', hv', rfl⟩ := Option.map_eq_some_iff.mp h
    rw [typecheckExpr, evalConst, ih he.2 hv', he.1.toWord_convert]
  | unary op e ih =>
    simp only [Expr.lowBitsConst, Bool.and_eq_true, Bool.or_eq_true, beq_iff_eq] at he
    obtain ⟨hop, he⟩ := he
    have hwt := Expr.wordTyped_of_lowBitsConst he
    have hw := cType_isWord hwt
    obtain ⟨v', hv', h⟩ := Option.bind_eq_some_iff.mp h
    obtain ⟨x, hx, hxv⟩ := Option.map_eq_some_iff.mp (ih he hv')
    have hnot : op ≠ .boolNot := by rcases hop with rfl | rfl <;> decide
    rw [typecheckExpr_unary (valueType_typecheckExpr hwt ▸ hw), evalConst, hx, Option.bind_some,
      if_neg hnot, valueType_typecheckExpr hwt]
    exact constUnary_of_cUnary hw hop (evalConst_lt hx) ((toWord_natCast 32 x).trans hxv) h
  | binary op left right ihl ihr =>
    simp only [Expr.lowBitsConst, Bool.and_eq_true] at he
    obtain ⟨⟨hop, hel⟩, her⟩ := he
    have hwl := Expr.wordTyped_of_lowBitsConst hel
    have hwr := Expr.wordTyped_of_lowBitsConst her
    rw [cEval, ← valueType_typecheckExpr hwl, ← valueType_typecheckExpr hwr] at h
    rw [typecheckExpr]
    exact evalConst_typecheckBinary ((valueType_typecheckExpr hwl).symm ▸ cType_isWord hwl)
      ((valueType_typecheckExpr hwr).symm ▸ cType_isWord hwr) (fun _ hvl => ihl hel hvl)
      (fun _ hvr => ihr her hvr) hop h
  | conditional condition left right ihc ihl ihr => cases he
  | sizeofT t =>
    cases h
    cases t <;> rfl

end DioptaseOS.Bcc
