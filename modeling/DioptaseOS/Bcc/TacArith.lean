import DioptaseOS.Bcc.CSemantics

/-!
# Lowered integer expressions

What the three-address code that `expr_to_TAC` emits for a typed integer expression computes
on a 32-bit two's complement machine on which every temporary holds its value truncated to its
declared type and extended again by the type's signedness. Each node of the typed tree is one
piece of the lowering: a literal is a constant, a cast is nothing, a `Trunc` or an `Extend`
into a temporary of the target type, an operator is a `TACBINARY` or `TACUNARY` into a
temporary of the node's type with the ALU operation `binop_to_aluop` picks, a comparison is a
`TACCMP` with the condition `relation_to_cond` picks from the left operand's type, and `&&`,
`||` and `?:` jump over the operand they do not need.

Compared with C (`cEval`), the lowering is exact on expressions whose types are all `int` and
`unsigned int`; it goes wrong where `get_common_type` does, on `short` and `unsigned short`.

## Main definitions

* `AluOp`, `TACCondition`, `binopToAluop`, `relationToCond` — the choices of the lowering
* `storeAs`, `applyBinary`, `applyUnary`, `conditionTrue` — the machine
* `tacEval` — the value of the lowered code of a typed expression
* `Expr.wordTyped` — the expressions whose types are all `int` and `unsigned int`

## Main results

* `tacAlu_of_cArithOn`, `tacRelational_of_cArithOn`, `tacAlu_of_cShift`, `tacUnary_of_cUnary` —
  each operator's code computes the word of C's result on 32-bit operands
* `tacEval_eq_cEval` — on such expressions the lowered code computes the word of C's value
* `tacEval_short_ushort_less` — `(short)-1 < (unsigned short)1` is `0` in the lowered code and
  `1` in C
-/

namespace DioptaseOS.Bcc

open TwosComplement TypeType

/-! ### The choices of the lowering -/

/-- `enum ALUOp`. -/
inductive AluOp
  | aluAdd | aluSub | aluSmul | aluSdiv | aluSmod | aluUmul | aluUdiv | aluUmod | aluAnd | aluOr
  | aluXor | aluLsl | aluLsr | aluAsl | aluAsr | aluMov
  deriving DecidableEq, Repr

/-- `enum TACCondition`. -/
inductive TACCondition
  | condE | condNE | condG | condGE | condL | condLE | condA | condAE | condB | condBE
  deriving DecidableEq, Repr

/-- `relation_to_cond(op, type)`; `none` is its error on another operator. -/
def relationToCond (op : BinOp) (t : TypeType) : Option TACCondition :=
  let isSigned := t.isSignedType
  match op with
  | .boolEq => some .condE
  | .boolNeq => some .condNE
  | .boolGe => some (if isSigned then .condG else .condA)
  | .boolGeq => some (if isSigned then .condGE else .condAE)
  | .boolLe => some (if isSigned then .condL else .condB)
  | .boolLeq => some (if isSigned then .condLE else .condBE)
  | _ => none

/-- `binop_to_aluop(op, type)`; `none` is its error on another operator. -/
def binopToAluop (op : BinOp) (t : TypeType) : Option AluOp :=
  let isSigned := t.isSignedType
  match op with
  | .addOp => some .aluAdd
  | .subOp => some .aluSub
  | .mulOp => some (if isSigned then .aluSmul else .aluUmul)
  | .divOp => some (if isSigned then .aluSdiv else .aluUdiv)
  | .modOp => some (if isSigned then .aluSmod else .aluUmod)
  | .bitAnd => some .aluAnd
  | .bitOr => some .aluOr
  | .bitXor => some .aluXor
  | .bitShl => some (if isSigned then .aluAsl else .aluLsl)
  | .bitShr => some (if isSigned then .aluAsr else .aluLsr)
  | .commaOp => some .aluMov
  | _ => none

/-- `is_relational_op(op)`: the operators lowered to a compare and a conditional jump. -/
def BinOp.isRelationalOp : BinOp → Bool
  | .boolEq | .boolNeq | .boolLe | .boolLeq | .boolGe | .boolGeq => true
  | _ => false

/-! ### The machine -/

/-- The word a temporary of type `t` holds once the word `w` is stored in it: cut to the
type's width and extended again by its signedness. -/
def storeAs (t : TypeType) (w : Nat) : Nat := toWord 32 (t.convert w)

/-- `tac_condition_true(cond, left, right)` on two words. -/
def conditionTrue (cond : TACCondition) (a b : Nat) : Bool :=
  match cond with
  | .condE => a == b
  | .condNE => a != b
  | .condG => decide (toSigned 32 a > toSigned 32 b)
  | .condGE => decide (toSigned 32 a ≥ toSigned 32 b)
  | .condL => decide (toSigned 32 a < toSigned 32 b)
  | .condLE => decide (toSigned 32 a ≤ toSigned 32 b)
  | .condA => decide (a > b)
  | .condAE => decide (a ≥ b)
  | .condB => decide (a < b)
  | .condBE => decide (a ≤ b)

/-- `tac_apply_binary(op, left, right)` on two words; `none` is its error on a zero divisor. -/
def applyBinary (op : AluOp) (a b : Nat) : Option Nat :=
  match op with
  | .aluAdd => some ((a + b) % 2 ^ 32)
  | .aluSub => some (toWord 32 ((a : Int) - b))
  | .aluSmul => some (toWord 32 (toSigned 32 a * toSigned 32 b))
  | .aluUmul => some (a * b % 2 ^ 32)
  | .aluSdiv =>
    if toSigned 32 b = 0 then none else some (toWord 32 ((toSigned 32 a).tdiv (toSigned 32 b)))
  | .aluUdiv => if b = 0 then none else some (a / b)
  | .aluSmod =>
    if toSigned 32 b = 0 then none else some (toWord 32 ((toSigned 32 a).tmod (toSigned 32 b)))
  | .aluUmod => if b = 0 then none else some (a % b)
  | .aluAnd => some (a &&& b)
  | .aluOr => some (a ||| b)
  | .aluXor => some (a ^^^ b)
  | .aluLsr => some (a >>> b)
  | .aluLsl | .aluAsl => some ((a <<< b) % 2 ^ 32)
  | .aluAsr => some (toWord 32 (toSigned 32 a >>> b))
  | .aluMov => some b

/-- `tac_apply_unary(op, value, type)` on a word. -/
def applyUnary (op : UnOp) (t : TypeType) (a : Nat) : Nat :=
  match op with
  | .complement => toWord 32 (-(a : Int) - 1)
  | .negate => if t.isSignedType then toWord 32 (-toSigned 32 a) else toWord 32 (0 - (a : Int))
  | .boolNot => if a = 0 then 1 else 0
  | .unaryPlus => a

/-! ### The lowering -/

/-- The code of a cast from `src` to `target`: nothing between types of one size or to a
larger type from an unsigned one, a `Trunc` to a smaller type, and an `Extend`, which extends
the sign, to a larger type from a signed one; the last two write a temporary of the target
type. -/
def castWord (target src : TypeType) (w : Nat) : Nat :=
  let targetSize := target.getTypeSize
  let srcSize := src.getTypeSize
  if targetSize = srcSize ∨ (targetSize > srcSize ∧ src.isUnsignedType) then w
  else if targetSize < srcSize then storeAs target (w % 2 ^ (8 * targetSize))
  else storeAs target (toWord 32 (toSigned (8 * srcSize) w))

/-- The code of a unary operator into a temporary of type `ty`: `!` compares with `0` and
jumps, the others are one `TACUNARY`. -/
def tacUnary (op : UnOp) (ty : TypeType) (w : Nat) : Nat :=
  if op = .boolNot then storeAs ty (if w = 0 then 1 else 0) else storeAs ty (applyUnary op ty w)

/-- One `TACBINARY` into a temporary of type `ty`, with the ALU operation of `op` at `ty`. -/
def tacAlu (op : BinOp) (ty : TypeType) (wl wr : Nat) : Option Nat :=
  (binopToAluop op ty).bind fun alu => (applyBinary alu wl wr).map (storeAs ty)

/-- A `TACCMP` and a conditional jump over the clearing of a temporary of type `ty` set to
`1`, with the condition of `op` at the left operand's type. -/
def tacRelational (op : BinOp) (ty leftType : TypeType) (wl wr : Nat) : Option Nat :=
  (relationToCond op leftType).map fun cond =>
    storeAs ty (if conditionTrue cond wl wr then 1 else 0)

/-- The code of a binary operator into a temporary of type `ty`, from the words of its
operands; `&&` and `||` run the right operand's code only when the left one does not
decide. -/
def tacBinary (op : BinOp) (ty leftType : TypeType) (ol or : Option Nat) : Option Nat :=
  if op = .boolAnd then
    ol.bind fun wl => if wl = 0 then some (storeAs ty 0)
      else or.map fun wr => storeAs ty (if wr = 0 then 0 else 1)
  else if op = .boolOr then
    ol.bind fun wl => if wl ≠ 0 then some (storeAs ty 1)
      else or.map fun wr => storeAs ty (if wr = 0 then 0 else 1)
  else if op.isRelationalOp then ol.bind fun wl => or.bind (tacRelational op ty leftType wl)
  else ol.bind fun wl => or.bind (tacAlu op ty wl)

/-- The word the lowered code of a typed expression leaves in its result, `none` where the
lowering or the machine stops with an error. -/
def tacEval : TExpr → Option Nat
  | .lit (.intConst v) => some v.toNat
  | .lit (.uintConst v) => some v.toNat
  | .cast target e => (tacEval e).map (castWord target e.valueType)
  | .unary op ty e => (tacEval e).map (tacUnary op ty)
  | .binary op ty left right => tacBinary op ty left.valueType (tacEval left) (tacEval right)
  | .conditional ty condition left right =>
    (tacEval condition).bind fun c =>
      if c = 0 then (tacEval right).map (storeAs ty) else (tacEval left).map (storeAs ty)
  | .sizeofT t => some t.getTypeSize

/-! ### `short` against `unsigned short` -/

/-- `(short)-1 < (unsigned short)1`. -/
def shortUshortLess : Expr :=
  .binary .boolLe (.cast shortType (.unary .negate (.lit (.intConst 1))))
    (.cast ushortType (.lit (.intConst 1)))

/-- C promotes both operands of `(short)-1 < (unsigned short)1` to `int` and compares `-1`
with `1`; `get_common_type` makes the comparison one of `unsigned short`, and the lowered
code compares the words unsigned and yields `0`. -/
theorem tacEval_short_ushort_less :
    tacEval (typecheckExpr shortUshortLess) = some 0 ∧ cEval shortUshortLess = some 1 := by
  decide

/-! ### Values of the 32-bit types -/

/-- `int` and `unsigned int`, the types of the machine's width. -/
def TypeType.IsWord (t : TypeType) : Prop := t = intType ∨ t = uintType

namespace TypeType.IsWord

variable {t : TypeType} (ht : t.IsWord)
include ht

theorem bits_eq : t.bits = 32 := by
  rcases ht with rfl | rfl <;> rfl

theorem toWord_convert (v : Int) : toWord 32 (t.convert v) = toWord 32 v := by
  rcases ht with rfl | rfl
  · exact toWord_bmod 32 v
  · exact toWord_emod 32 v

theorem promote_eq : t.promote = t := by
  rcases ht with rfl | rfl <;> rfl

theorem storeAs_toWord (x : Int) : storeAs t (toWord 32 x) = toWord 32 x := by
  rw [storeAs, ht.toWord_convert, toWord_toWord]

theorem storeAs_of_lt {w : Nat} (hw : w < 2 ^ 32) : storeAs t w = w := by
  rw [storeAs, ht.toWord_convert, toWord_natCast, Nat.mod_eq_of_lt hw]

/-- A value of the type is determined by its word: read signed for `int`, as it is for
`unsigned int`. -/
theorem eq_of_toWord_eq {a b : Int} (ha : t.convert a = a) (hb : t.convert b = b)
    (h : toWord 32 a = toWord 32 b) : a = b := by
  rcases ht with rfl | rfl
  · have ha' : toSigned 32 (toWord 32 a) = a := by rw [toSigned_toWord]; exact ha
    have hb' : toSigned 32 (toWord 32 b) = b := by rw [toSigned_toWord]; exact hb
    rw [← ha', ← hb', h]
  · have ha' : (toWord 32 a : Int) = a := by rw [toWord_cast]; exact ha
    have hb' : (toWord 32 b : Int) = b := by rw [toWord_cast]; exact hb
    rw [← ha', ← hb', h]

theorem toWord_inj {a b : Int} (ha : t.convert a = a) (hb : t.convert b = b) :
    toWord 32 a = toWord 32 b ↔ a = b :=
  ⟨ht.eq_of_toWord_eq ha hb, congrArg _⟩

theorem toWord_eq_zero_iff {v : Int} (hv : t.convert v = v) : toWord 32 v = 0 ↔ v = 0 := by
  constructor
  · intro h
    exact ht.eq_of_toWord_eq hv (by rcases ht with rfl | rfl <;> rfl) (h.trans (by decide))
  · rintro rfl
    decide

theorem toWord_of_arithResult {r v : Int} (h : arithResult t r = some v) :
    toWord 32 v = toWord 32 r := by
  unfold arithResult at h
  split at h
  · split at h
    · cases h
      rfl
    · cases h
  · cases h
    exact ht.toWord_convert r

end TypeType.IsWord

theorem toSigned_toWord_int {a : Int} (ha : intType.convert a = a) :
    toSigned 32 (toWord 32 a) = a := by
  rw [toSigned_toWord]
  exact ha

theorem cast_toWord_uint {a : Int} (ha : uintType.convert a = a) : (toWord 32 a : Int) = a := by
  rw [toWord_cast]
  exact ha

theorem uint_nonneg {a : Int} (ha : uintType.convert a = a) : 0 ≤ a := by
  rw [← cast_toWord_uint ha]
  exact Int.natCast_nonneg _

theorem uint_toWord_ne_zero {b : Int} (hb : uintType.convert b = b) (hb0 : b ≠ 0) :
    toWord 32 b ≠ 0 := fun h0 => hb0 (by rw [← cast_toWord_uint hb, h0]; rfl)

/-- Unsigned division on words is the division of the values. -/
theorem uint_toWord_tdiv {a b : Int} (ha : uintType.convert a = a)
    (hb : uintType.convert b = b) : toWord 32 (a.tdiv b) = toWord 32 a / toWord 32 b := by
  have hq : ((toWord 32 a / toWord 32 b : Nat) : Int) = a.tdiv b := by
    rw [Int.natCast_ediv, cast_toWord_uint ha, cast_toWord_uint hb,
      Int.tdiv_eq_ediv_of_nonneg (uint_nonneg ha)]
  rw [← hq, toWord_natCast, Nat.mod_eq_of_lt (lt_of_le_of_lt (Nat.div_le_self _ _)
    (toWord_lt 32 a))]

theorem uint_toWord_tmod {a b : Int} (ha : uintType.convert a = a)
    (hb : uintType.convert b = b) : toWord 32 (a.tmod b) = toWord 32 a % toWord 32 b := by
  have hr : ((toWord 32 a % toWord 32 b : Nat) : Int) = a.tmod b := by
    rw [Int.natCast_emod, cast_toWord_uint ha, cast_toWord_uint hb,
      Int.tmod_eq_emod_of_nonneg (uint_nonneg ha)]
  rw [← hr, toWord_natCast, Nat.mod_eq_of_lt (lt_of_le_of_lt (Nat.mod_le _ _)
    (toWord_lt 32 a))]

/-! ### One operator -/

/-- The word sum of two words. -/
theorem add_mod_eq_toWord (a b : Int) :
    (toWord 32 a + toWord 32 b) % 2 ^ 32 = toWord 32 (a + b) := by
  rw [toWord_add, ← toWord_natCast]
  push_cast
  rfl

theorem mul_mod_eq_toWord (a b : Int) :
    toWord 32 a * toWord 32 b % 2 ^ 32 = toWord 32 (a * b) := by
  rw [toWord_mul, ← toWord_natCast]
  push_cast
  rfl

/-- The ALU operation of an arithmetic or bitwise operator computes the word of C's result,
whenever C gives one. -/
theorem tacAlu_of_cArithOn {op : BinOp} {t : TypeType} {a b v : Int} (ht : t.IsWord)
    (ha : t.convert a = a) (hb : t.convert b = b) (hop : op.isRelationalOp = false)
    (h : cArithOn op t a b = some v) :
    tacAlu op t (toWord 32 a) (toWord 32 b) = some (toWord 32 v) := by
  have hlt : ∀ x : Int, toWord 32 x < 2 ^ 32 := toWord_lt 32
  cases op <;> simp only [BinOp.isRelationalOp, Bool.true_eq_false] at hop <;>
    simp only [cArithOn, reduceCtorEq] at h
  case addOp =>
    simp only [tacAlu, binopToAluop, applyBinary, Option.bind_some, Option.map_some]
    rw [ht.storeAs_of_lt (Nat.mod_lt _ (by decide)), ht.toWord_of_arithResult h,
      add_mod_eq_toWord]
  case subOp =>
    simp only [tacAlu, binopToAluop, applyBinary, Option.bind_some, Option.map_some]
    rw [ht.storeAs_toWord, ht.toWord_of_arithResult h, ← toWord_sub]
  case mulOp =>
    rw [ht.toWord_of_arithResult h]
    rcases ht with rfl | rfl
    · simp only [tacAlu, binopToAluop, applyBinary, isSignedType, if_true, Option.bind_some,
        Option.map_some, toSigned_toWord_int ha, toSigned_toWord_int hb]
      rw [IsWord.storeAs_toWord (Or.inl rfl)]
    · simp only [tacAlu, binopToAluop, applyBinary, isSignedType, Bool.false_eq_true, if_false,
        Option.bind_some, Option.map_some]
      rw [IsWord.storeAs_of_lt (Or.inr rfl) (Nat.mod_lt _ (by decide)), mul_mod_eq_toWord]
  case divOp =>
    split_ifs at h with hb0
    rw [ht.toWord_of_arithResult h]
    rcases ht with rfl | rfl
    · simp only [tacAlu, binopToAluop, applyBinary, isSignedType, if_true, Option.bind_some,
        toSigned_toWord_int ha, toSigned_toWord_int hb, hb0, if_false, Option.map_some]
      rw [IsWord.storeAs_toWord (Or.inl rfl)]
    · rw [uint_toWord_tdiv ha hb]
      simp only [tacAlu, binopToAluop, applyBinary, isSignedType, Bool.false_eq_true, if_false,
        uint_toWord_ne_zero hb hb0, Option.bind_some, Option.map_some]
      rw [IsWord.storeAs_of_lt (Or.inr rfl) (lt_of_le_of_lt (Nat.div_le_self _ _) (hlt a))]
  case modOp =>
    split_ifs at h with hb0
    obtain ⟨_, -, rfl⟩ := Option.map_eq_some_iff.mp h
    rcases ht with rfl | rfl
    · simp only [tacAlu, binopToAluop, applyBinary, isSignedType, if_true, Option.bind_some,
        toSigned_toWord_int ha, toSigned_toWord_int hb, hb0, if_false, Option.map_some]
      rw [IsWord.storeAs_toWord (Or.inl rfl)]
    · rw [uint_toWord_tmod ha hb]
      simp only [tacAlu, binopToAluop, applyBinary, isSignedType, Bool.false_eq_true, if_false,
        uint_toWord_ne_zero hb hb0, Option.bind_some, Option.map_some]
      rw [IsWord.storeAs_of_lt (Or.inr rfl) (lt_of_le_of_lt (Nat.mod_le _ _) (hlt a))]
  -- C takes the bitwise operators on the words too, and `storeAs` reads the word back
  case bitAnd | bitOr | bitXor =>
    cases h
    simp only [tacAlu, binopToAluop, applyBinary, Option.bind_some, Option.map_some, ht.bits_eq,
      storeAs]

/-! ### Comparisons -/

theorem uint_toWord_lt_iff {a b : Int} (ha : uintType.convert a = a)
    (hb : uintType.convert b = b) : toWord 32 a < toWord 32 b ↔ a < b := by
  rw [← Int.ofNat_lt, cast_toWord_uint ha, cast_toWord_uint hb]

theorem uint_toWord_le_iff {a b : Int} (ha : uintType.convert a = a)
    (hb : uintType.convert b = b) : toWord 32 a ≤ toWord 32 b ↔ a ≤ b := by
  rw [← Int.ofNat_le, cast_toWord_uint ha, cast_toWord_uint hb]

/-- The `int` temporary a comparison sets holds the word of C's truth value. -/
theorem storeAs_int_ofBool (c : Bool) :
    storeAs intType (if c then 1 else 0) = toWord 32 (ofBool c) := by
  cases c <;> rfl

/-- The compare of a comparison operator, with the condition `relation_to_cond` picks at the
operands' type, decides what C's comparison of the values does. -/
theorem tacRelational_of_cArithOn {op : BinOp} {t : TypeType} {a b v : Int} (ht : t.IsWord)
    (ha : t.convert a = a) (hb : t.convert b = b) (hop : op.isRelationalOp = true)
    (h : cArithOn op t a b = some v) :
    tacRelational op intType t (toWord 32 a) (toWord 32 b) = some (toWord 32 v) := by
  have heq := ht.toWord_inj ha hb
  rcases ht with rfl | rfl
  -- `int`: the compare is signed and reads the words back as the values
  · cases op <;> simp only [BinOp.isRelationalOp, Bool.false_eq_true] at hop <;>
      simp only [cArithOn, Option.some.injEq] at h <;> subst h <;>
      simp only [tacRelational, relationToCond, isSignedType, if_true, Option.map_some,
        storeAs_int_ofBool, conditionTrue, Bool.beq_eq_decide_eq, bne, ← decide_not, heq,
        gt_iff_lt, ge_iff_le, toSigned_toWord_int ha, toSigned_toWord_int hb]
  -- `unsigned int`: the compare is unsigned, and the words compare as the values do
  · cases op <;> simp only [BinOp.isRelationalOp, Bool.false_eq_true] at hop <;>
      simp only [cArithOn, Option.some.injEq] at h <;> subst h <;>
      simp only [tacRelational, relationToCond, isSignedType, Bool.false_eq_true, if_false,
        Option.map_some, storeAs_int_ofBool, conditionTrue, Bool.beq_eq_decide_eq, bne,
        ← decide_not, heq, gt_iff_lt, ge_iff_le, uint_toWord_lt_iff ha hb,
        uint_toWord_le_iff ha hb, uint_toWord_lt_iff hb ha, uint_toWord_le_iff hb ha]

/-! ### Unary operators -/

theorem toWord_complement (v : Int) :
    toWord 32 (-(toWord 32 v : Int) - 1) = toWord 32 (-v - 1) := by
  calc toWord 32 (-(toWord 32 v : Int) - 1)
      = toWord 32 ((toWord 32 (-(toWord 32 v : Int)) : Int) - toWord 32 1) := toWord_sub _ _ _
    _ = toWord 32 ((toWord 32 (-v) : Int) - toWord 32 1) := by rw [← toWord_neg]
    _ = toWord 32 (-v - 1) := (toWord_sub _ _ _).symm

/-- The `TACUNARY` of an operator, or the compare and jump of `!`, into a temporary of the
node's type computes the word of C's result. -/
theorem tacUnary_of_cUnary {op : UnOp} {t : TypeType} {v r : Int} (ht : t.IsWord)
    (hv : t.convert v = v) (h : cUnary op t v = some r) :
    tacUnary op (if op = .boolNot then intType else t) (toWord 32 v) = toWord 32 r := by
  simp only [cUnary, ht.promote_eq] at h
  cases op
  case complement =>
    cases h
    simp only [tacUnary, reduceCtorEq, if_false, applyUnary]
    rw [ht.storeAs_toWord, toWord_complement, ht.toWord_convert]
  case negate =>
    simp only [tacUnary, reduceCtorEq, if_false, applyUnary]
    rw [ht.toWord_of_arithResult h]
    rcases ht with rfl | rfl
    · simp only [isSignedType, if_true, toSigned_toWord_int hv]
      rw [IsWord.storeAs_toWord (Or.inl rfl)]
    · simp only [isSignedType, Bool.false_eq_true, if_false, zero_sub]
      rw [IsWord.storeAs_toWord (Or.inr rfl), ← toWord_neg]
  case boolNot =>
    cases h
    simp only [tacUnary, if_true]
    by_cases hz : v = 0
    · subst hz
      rfl
    · simp only [mt (ht.toWord_eq_zero_iff hv).mp hz, hz, if_false]
      rfl
  case unaryPlus =>
    cases h
    simp only [tacUnary, reduceCtorEq, if_false, applyUnary]
    exact ht.storeAs_toWord v

/-! ### Shifts -/

theorem shiftLeft_mod_eq_toWord (a : Int) (n : Nat) :
    (toWord 32 a <<< n) % 2 ^ 32 = toWord 32 (a * 2 ^ n) := by
  rw [Nat.shiftLeft_eq, ← toWord_natCast, Nat.cast_mul, Nat.cast_pow, toWord_toWord_mul]
  rfl

theorem uint_toWord_shiftRight {a : Int} (ha : uintType.convert a = a) (n : Nat) :
    toWord 32 (a >>> n) = toWord 32 a >>> n := by
  have hlt : toWord 32 a >>> n < 2 ^ 32 :=
    lt_of_le_of_lt (Nat.shiftRight_le _ _) (toWord_lt 32 a)
  rw [← cast_toWord_uint ha, ← Int.natCast_shiftRight, toWord_natCast, toWord_natCast,
    Nat.mod_eq_of_lt (toWord_lt 32 _), Nat.mod_eq_of_lt hlt]

/-- The shift the ALU does, by the word of a count C allows, computes the word of C's
result: both signednesses shift left the same way, and `>>` is arithmetic exactly for
`int`. -/
theorem tacAlu_of_cShift {op : BinOp} {t : TypeType} {a b v : Int} (ht : t.IsWord)
    (ha : t.convert a = a) (hop : op = .bitShl ∨ op = .bitShr)
    (h : cShift op t a b = some v) :
    tacAlu op t (toWord 32 a) (toWord 32 b) = some (toWord 32 v) := by
  simp only [cShift, ht.promote_eq, ht.bits_eq] at h
  split at h
  · cases h
  rename_i hb
  -- the count is in range, so its word is the count
  have hcount : toWord 32 b = b.toNat := by
    rw [toWord]
    congr 1
    exact Int.emod_eq_of_lt (by omega) (by omega)
  rw [hcount]
  rcases hop with rfl | rfl <;> simp only [if_true, reduceCtorEq, if_false] at h
  case inl =>
    rcases ht with rfl | rfl
    · simp only [isSignedType, if_true] at h
      split at h
      · cases h
      simp only [tacAlu, binopToAluop, isSignedType, if_true, applyBinary, Option.bind_some,
        Option.map_some]
      rw [IsWord.storeAs_of_lt (Or.inl rfl) (Nat.mod_lt _ (by decide)), shiftLeft_mod_eq_toWord,
        IsWord.toWord_of_arithResult (Or.inl rfl) h]
    · simp only [isSignedType, Bool.false_eq_true, if_false, Option.some.injEq] at h
      subst h
      simp only [tacAlu, binopToAluop, isSignedType, Bool.false_eq_true, if_false, applyBinary,
        Option.bind_some, Option.map_some]
      rw [IsWord.storeAs_of_lt (Or.inr rfl) (Nat.mod_lt _ (by decide)), shiftLeft_mod_eq_toWord,
        IsWord.toWord_convert (Or.inr rfl)]
  case inr =>
    cases h
    rcases ht with rfl | rfl
    · simp only [tacAlu, binopToAluop, isSignedType, if_true, applyBinary, Option.bind_some,
        Option.map_some, toSigned_toWord_int ha]
      rw [IsWord.storeAs_toWord (Or.inl rfl)]
    · simp only [tacAlu, binopToAluop, isSignedType, Bool.false_eq_true, if_false, applyBinary,
        Option.bind_some, Option.map_some]
      rw [uint_toWord_shiftRight ha, IsWord.storeAs_of_lt (Or.inr rfl)
        (lt_of_le_of_lt (Nat.shiftRight_le _ _) (toWord_lt 32 a))]

/-! ### The 32-bit fragment -/

instance : DecidablePred TypeType.IsWord := fun t =>
  inferInstanceAs (Decidable (t = intType ∨ t = uintType))

/-- Every cast in the expression is to `int` or `unsigned int`; its literals have one of the
two types already, so every value in it has a type of the machine's width. -/
def Expr.wordTyped : Expr → Bool
  | .lit _ => true
  | .cast target e => decide target.IsWord && e.wordTyped
  | .unary _ e => e.wordTyped
  | .binary _ left right => left.wordTyped && right.wordTyped
  | .conditional condition left right =>
    condition.wordTyped && left.wordTyped && right.wordTyped
  | .sizeofT _ => true

namespace TypeType.IsWord

variable {t : TypeType} (ht : t.IsWord)
include ht

theorem isCharType_eq_false : t.isCharType = false := by
  rcases ht with rfl | rfl <;> rfl

theorem usualArithType {t' : TypeType} (ht' : t'.IsWord) : (usualArithType t t').IsWord := by
  rcases ht with rfl | rfl <;> rcases ht' with rfl | rfl <;> decide

/-- `get_common_type` is right on the 32-bit types. -/
theorem getCommonType_eq {t' : TypeType} (ht' : t'.IsWord) :
    getCommonType t t' = DioptaseOS.Bcc.usualArithType t t' := by
  rcases ht with rfl | rfl <;> rcases ht' with rfl | rfl <;> rfl

/-- A cast between 32-bit types is no code. -/
theorem castWord_eq {src : TypeType} (hs : src.IsWord) : castWord t src = id := by
  funext w
  rcases ht with rfl | rfl <;> rcases hs with rfl | rfl <;> rfl

theorem binaryType {op : BinOp} {t' : TypeType} (ht' : t'.IsWord) :
    (binaryType op t t').IsWord := by
  cases op <;> simp only [DioptaseOS.Bcc.binaryType, ht.promote_eq]
  all_goals first | exact ht | exact ht' | exact Or.inl rfl | exact ht.usualArithType ht'

end TypeType.IsWord

@[simp] theorem valueType_binary (op : BinOp) (ty : TypeType) (left right : TExpr) :
    (TExpr.binary op ty left right).valueType = ty := rfl

@[simp] theorem valueType_convertExprType (e : TExpr) (t : TypeType) :
    (convertExprType e t).valueType = t := by
  unfold convertExprType
  split
  · assumption
  · rfl

theorem tacEval_convertExprType {e : TExpr} {t : TypeType} (he : e.valueType.IsWord)
    (ht : t.IsWord) : tacEval (convertExprType e t) = tacEval e := by
  unfold convertExprType
  split
  · rfl
  · rw [tacEval, ht.castWord_eq he, Option.map_id, id]

theorem cType_isWord {e : Expr} (he : e.wordTyped) : (cType e).IsWord := by
  induction e with
  | lit l => cases l
    <;> [exact Or.inl rfl; exact Or.inr rfl]
  | cast target e ih =>
    simp only [Expr.wordTyped, Bool.and_eq_true, decide_eq_true_eq] at he
    exact he.1
  | unary op e ih =>
    simp only [cType]
    split
    · exact Or.inl rfl
    · rw [(ih he).promote_eq]
      exact ih he
  | binary op left right ihl ihr =>
    simp only [Expr.wordTyped, Bool.and_eq_true] at he
    exact (ihl he.1).binaryType (ihr he.2)
  | conditional condition left right ihc ihl ihr =>
    simp only [Expr.wordTyped, Bool.and_eq_true] at he
    exact (ihl he.1.2).usualArithType (ihr he.2)
  | sizeofT t => exact Or.inr rfl

/-- The typing of a binary operator on 32-bit operands gives C's type. -/
theorem valueType_typecheckBinary {op : BinOp} {left right : TExpr}
    (hl : left.valueType.IsWord) (hr : right.valueType.IsWord) :
    (typecheckBinary op left right).valueType = binaryType op left.valueType right.valueType := by
  cases op <;> simp only [typecheckBinary, binaryType, reduceCtorEq, or_self, or_true, true_or,
    if_true, if_false, valueType_binary, hl.promote_eq, hl.getCommonType_eq hr]

/-- The typing of a unary operator on a 32-bit operand adds no conversion. -/
theorem typecheckExpr_unary {op : UnOp} {e : Expr}
    (he : (typecheckExpr e).valueType.IsWord) :
    typecheckExpr (.unary op e) =
      .unary op (if op = .boolNot then intType else (typecheckExpr e).valueType)
        (typecheckExpr e) := by
  simp only [typecheckExpr, he.isCharType_eq_false, Bool.false_eq_true, false_and, if_false]

theorem valueType_typecheckExpr {e : Expr} (he : e.wordTyped) :
    (typecheckExpr e).valueType = cType e := by
  induction e with
  | lit l => rfl
  | cast target e ih => rfl
  | unary op e ih =>
    have he : e.wordTyped := he
    have hw : (typecheckExpr e).valueType.IsWord := (ih he).symm ▸ cType_isWord he
    rw [typecheckExpr_unary hw, TExpr.valueType, cType, ih he, (cType_isWord he).promote_eq]
  | binary op left right ihl ihr =>
    simp only [Expr.wordTyped, Bool.and_eq_true] at he
    have hl : (typecheckExpr left).valueType.IsWord := (ihl he.1).symm ▸ cType_isWord he.1
    have hr : (typecheckExpr right).valueType.IsWord := (ihr he.2).symm ▸ cType_isWord he.2
    rw [typecheckExpr, valueType_typecheckBinary hl hr, ihl he.1, ihr he.2, cType]
  | conditional condition left right ihc ihl ihr =>
    simp only [Expr.wordTyped, Bool.and_eq_true] at he
    have hl : (typecheckExpr left).valueType.IsWord := (ihl he.1.2).symm ▸ cType_isWord he.1.2
    have hr : (typecheckExpr right).valueType.IsWord := (ihr he.2).symm ▸ cType_isWord he.2
    rw [typecheckExpr, TExpr.valueType, hl.getCommonType_eq hr, ihl he.1.2, ihr he.2, cType]
  | sizeofT t => rfl

/-! ### The lowering computes C's value -/

theorem toWord_toInt (v : BitVec 32) : toWord 32 v.toInt = v.toNat := by
  rw [BitVec.toInt_eq_toNat_bmod, toWord_bmod, toWord_natCast, Nat.mod_eq_of_lt v.isLt]

/-- The `int` temporary `&&` and `||` set from their right operand holds the word of C's truth
value. -/
theorem storeAs_int_ne_zero {t : TypeType} {v : Int} (ht : t.IsWord) (hv : t.convert v = v) :
    storeAs intType (if toWord 32 v = 0 then 0 else 1) = toWord 32 (ofBool (v ≠ 0)) := by
  by_cases hz : v = 0
  · subst hz
    rfl
  · simp only [mt (ht.toWord_eq_zero_iff hv).mp hz, hz, if_false, ne_eq, not_false_eq_true,
      decide_true]
    rfl

section Binary

/- The operands of a binary operator: typed trees of 32-bit types whose lowered code computes
the word of C's value of the operand, wherever C has one. -/
variable {left right : TExpr} {cl cr : Option Int}
  (hl : left.valueType.IsWord) (hr : right.valueType.IsWord)
  (hcl : ∀ vl, cl = some vl → left.valueType.convert vl = vl)
  (hcr : ∀ vr, cr = some vr → right.valueType.convert vr = vr)
  (hL : ∀ vl, cl = some vl → tacEval left = some (toWord 32 vl))
  (hR : ∀ vr, cr = some vr → tacEval right = some (toWord 32 vr))
include hl hr hcl hcr hL hR

/-- The lowered code of a binary operator computes the word of C's result, one case for each
way `typecheck_expr` types the operator. -/
theorem tacEval_typecheckBinary {op : BinOp} {v : Int}
    (h : cBinary op left.valueType right.valueType cl cr = some v) :
    tacEval (typecheckBinary op left right) = some (toWord 32 v) := by
  have hct := hl.usualArithType hr
  cases op
  case boolAnd =>
    obtain ⟨vl, hvl, h⟩ := Option.bind_eq_some_iff.mp h
    simp only [typecheckBinary, reduceCtorEq, or_self, or_false, if_false, if_true, tacEval,
      tacBinary, hL vl hvl, Option.bind_some]
    by_cases hz : vl = 0
    · subst hz
      cases h
      rfl
    · simp only [hz, if_false] at h
      obtain ⟨vr, hvr, rfl⟩ := Option.map_eq_some_iff.mp h
      rw [if_neg (mt (hl.toWord_eq_zero_iff (hcl vl hvl)).mp hz), hR vr hvr, Option.map_some,
        storeAs_int_ne_zero hr (hcr vr hvr)]
  case boolOr =>
    obtain ⟨vl, hvl, h⟩ := Option.bind_eq_some_iff.mp h
    simp only [typecheckBinary, reduceCtorEq, or_self, if_false, or_true, if_true, tacEval,
      tacBinary, hL vl hvl, Option.bind_some]
    by_cases hz : vl = 0
    · subst hz
      simp only [ne_eq, not_true_eq_false, if_false] at h
      obtain ⟨vr, hvr, rfl⟩ := Option.map_eq_some_iff.mp h
      rw [hR vr hvr]
      exact congrArg some (storeAs_int_ne_zero hr (hcr vr hvr))
    · simp only [ne_eq, hz, not_false_eq_true, if_true, Option.some.injEq] at h
      subst h
      rw [if_pos (mt (hl.toWord_eq_zero_iff (hcl vl hvl)).mp hz)]
      rfl
  -- `,` is a `Mov` of the right operand into a temporary of its own type
  case commaOp =>
    obtain ⟨vl, hvl, h⟩ := Option.bind_eq_some_iff.mp h
    simp only [typecheckBinary, reduceCtorEq, or_self, if_false, if_true, tacEval, tacBinary,
      BinOp.isRelationalOp, Bool.false_eq_true, hL vl hvl, hR v h, Option.bind_some, tacAlu,
      binopToAluop, applyBinary, Option.map_some, hr.storeAs_toWord]
  -- the count is converted to the left operand's type, which a 32-bit count keeps
  case bitShl | bitShr =>
    obtain ⟨vl, hvl, h⟩ := Option.bind_eq_some_iff.mp h
    obtain ⟨vr, hvr, h⟩ := Option.bind_eq_some_iff.mp h
    simp only [typecheckBinary, reduceCtorEq, or_self, or_false, or_true, if_false, if_true,
      tacEval, tacBinary, BinOp.isRelationalOp, Bool.false_eq_true, tacEval_convertExprType hr hl,
      hL vl hvl, hR vr hvr, Option.bind_some]
    exact tacAlu_of_cShift hl (hcl vl hvl) (by decide) h
  case boolEq | boolNeq | boolLe | boolGe | boolLeq | boolGeq =>
    simp only [cBinary, cArith] at h
    obtain ⟨vl, hvl, h⟩ := Option.bind_eq_some_iff.mp h
    obtain ⟨vr, hvr, h⟩ := Option.bind_eq_some_iff.mp h
    simp only [typecheckBinary, reduceCtorEq, or_self, or_false, or_true, if_false, if_true,
      hl.getCommonType_eq hr, tacEval, tacBinary, BinOp.isRelationalOp,
      valueType_convertExprType, tacEval_convertExprType hl hct, tacEval_convertExprType hr hct,
      hL vl hvl, hR vr hvr, Option.bind_some]
    rw [← hct.toWord_convert vl, ← hct.toWord_convert vr]
    exact tacRelational_of_cArithOn hct (convert_convert _ _) (convert_convert _ _) rfl h
  case addOp | subOp | mulOp | divOp | modOp | bitAnd | bitOr | bitXor =>
    simp only [cBinary, cArith] at h
    obtain ⟨vl, hvl, h⟩ := Option.bind_eq_some_iff.mp h
    obtain ⟨vr, hvr, h⟩ := Option.bind_eq_some_iff.mp h
    simp only [typecheckBinary, reduceCtorEq, or_self, if_false, hl.getCommonType_eq hr, tacEval,
      tacBinary, BinOp.isRelationalOp, Bool.false_eq_true, tacEval_convertExprType hl hct,
      tacEval_convertExprType hr hct, hL vl hvl, hR vr hvr, Option.bind_some]
    rw [← hct.toWord_convert vl, ← hct.toWord_convert vr]
    exact tacAlu_of_cArithOn hct (convert_convert _ _) (convert_convert _ _) rfl h

end Binary

/-- On expressions whose types are all `int` and `unsigned int`, the code `expr_to_TAC` emits
for the typed tree computes the word of C's value, wherever C defines one. -/
theorem tacEval_eq_cEval {e : Expr} {v : Int} (he : e.wordTyped) (h : cEval e = some v) :
    tacEval (typecheckExpr e) = some (toWord 32 v) := by
  induction e generalizing v with
  | lit l =>
    cases l <;> cases h
    · exact congrArg some (toWord_toInt _).symm
    · exact congrArg some (by rw [toWord_natCast, Nat.mod_eq_of_lt (BitVec.isLt _)])
  | cast target e ih =>
    simp only [Expr.wordTyped, Bool.and_eq_true, decide_eq_true_eq] at he
    obtain ⟨v', hv', rfl⟩ := Option.map_eq_some_iff.mp h
    rw [typecheckExpr, tacEval, ih he.2 hv', valueType_typecheckExpr he.2,
      he.1.castWord_eq (cType_isWord he.2), Option.map_some, id, he.1.toWord_convert]
  | unary op e ih =>
    have he : e.wordTyped := he
    obtain ⟨v', hv', h⟩ := Option.bind_eq_some_iff.mp h
    have hw := cType_isWord he
    rw [typecheckExpr_unary (valueType_typecheckExpr he ▸ hw), tacEval, ih he hv',
      Option.map_some, valueType_typecheckExpr he, tacUnary_of_cUnary hw (cEval_convert hv') h]
  | binary op left right ihl ihr =>
    simp only [Expr.wordTyped, Bool.and_eq_true] at he
    obtain ⟨hel, her⟩ := he
    rw [cEval, ← valueType_typecheckExpr hel, ← valueType_typecheckExpr her] at h
    rw [typecheckExpr]
    refine tacEval_typecheckBinary ?_ ?_ ?_ ?_ (fun _ hvl => ihl hel hvl)
      (fun _ hvr => ihr her hvr) h
    · exact (valueType_typecheckExpr hel).symm ▸ cType_isWord hel
    · exact (valueType_typecheckExpr her).symm ▸ cType_isWord her
    · intro vl hvl
      rw [valueType_typecheckExpr hel]
      exact cEval_convert hvl
    · intro vr hvr
      rw [valueType_typecheckExpr her]
      exact cEval_convert hvr
  | conditional condition left right ihc ihl ihr =>
    simp only [Expr.wordTyped, Bool.and_eq_true] at he
    obtain ⟨⟨hec, hel⟩, her⟩ := he
    have hl := cType_isWord hel
    have hr := cType_isWord her
    have hct := hl.usualArithType hr
    simp only [cEval] at h
    obtain ⟨c, hc, h⟩ := Option.bind_eq_some_iff.mp h
    simp only [typecheckExpr, tacEval, ihc hec hc, Option.bind_some, valueType_typecheckExpr hel,
      valueType_typecheckExpr her, hl.getCommonType_eq hr,
      tacEval_convertExprType ((valueType_typecheckExpr hel).symm ▸ hl) hct,
      tacEval_convertExprType ((valueType_typecheckExpr her).symm ▸ hr) hct]
    -- the jump tests the condition's word against `0`, which C's test of the value matches
    by_cases hz : c = 0
    · rw [if_neg (not_not.mpr hz)] at h
      obtain ⟨vr, hvr, rfl⟩ := Option.map_eq_some_iff.mp h
      rw [if_pos (((cType_isWord hec).toWord_eq_zero_iff (cEval_convert hc)).mpr hz),
        ihr her hvr, Option.map_some, hct.storeAs_toWord, hct.toWord_convert]
    · rw [if_pos hz] at h
      obtain ⟨vl, hvl, rfl⟩ := Option.map_eq_some_iff.mp h
      rw [if_neg (mt ((cType_isWord hec).toWord_eq_zero_iff (cEval_convert hc)).mp hz),
        ihl hel hvl, Option.map_some, hct.storeAs_toWord, hct.toWord_convert]
  | sizeofT t =>
    cases h
    cases t <;> rfl

end DioptaseOS.Bcc
