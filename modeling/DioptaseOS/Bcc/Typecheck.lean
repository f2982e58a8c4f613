import Mathlib.Data.List.Basic

/-!
# Typing integer expressions

The integer part of `typecheck_expr` in `typechecking.c`: the integer type tags of
`struct Type`, `get_common_type`, and the typing of literals, casts, unary, binary and
conditional expressions and `sizeof(type)`. Where an operand must change type,
`convert_expr_type` wraps it in a cast; the typed tree records each node's `value_type`.

`get_common_type` promotes only the character types to `int`: two operands of type `short` or
`unsigned short` are combined at their own width, and a `short` with an `unsigned short` gives
`unsigned short`.

## Main definitions

* `TypeType`, `getTypeSize`, `isSignedType` — the integer types
* `getCommonType` — the common type of two operands
* `Expr`, `TExpr`, `typecheckExpr` — expressions before and after typing
-/

namespace DioptaseOS.Bcc

/-! ### Types -/

/-- The integer tags of `enum TypeType`. -/
inductive TypeType
  | charType | scharType | ucharType | intType | longType | shortType | uintType | ulongType
  | ushortType
  deriving DecidableEq, Repr

namespace TypeType

/-- `is_char_type`. -/
def isCharType : TypeType → Bool
  | charType | ucharType | scharType => true
  | _ => false

/-- `is_signed_type`. -/
def isSignedType : TypeType → Bool
  | intType | longType | shortType | scharType | charType => true
  | _ => false

/-- `is_unsigned_type`. -/
def isUnsignedType : TypeType → Bool
  | uintType | ulongType | ushortType | ucharType => true
  | _ => false

/-- `get_type_size`. -/
def getTypeSize : TypeType → Nat
  | charType | ucharType | scharType => 1
  | shortType | ushortType => 2
  | intType | uintType => 4
  | longType | ulongType => 8

end TypeType

open TypeType

/-- `get_common_type(t1, t2)`. -/
def getCommonType (t1 t2 : TypeType) : TypeType :=
  -- promote char types to int
  let t1 := if t1.isCharType then intType else t1
  let t2 := if t2.isCharType then intType else t2
  if t1 = t2 then t1
  else
    let size1 := t1.getTypeSize
    let size2 := t2.getTypeSize
    if size1 = size2 then (if t1.isSignedType then t2 else t1)
    else if size1 > size2 then t1
    else t2

/-! ### Expressions -/

/-- The literals of the bootstrap compiler: `INT_CONST` with an `int` and `UINT_CONST` with an
`unsigned`. -/
inductive Lit
  | intConst (v : BitVec 32)
  | uintConst (v : BitVec 32)
  deriving DecidableEq, Repr

/-- `enum UnOp`. -/
inductive UnOp
  | complement | negate | boolNot | unaryPlus
  deriving DecidableEq, Repr

/-- The operators of `enum BinOp` that a binary expression other than an assignment carries;
`boolLe` is `<` and `boolGe` is `>`. -/
inductive BinOp
  | addOp | subOp | mulOp | divOp | modOp | bitAnd | bitOr | bitXor | bitShr | bitShl
  | boolAnd | boolOr | boolEq | boolNeq | boolLe | boolGe | boolLeq | boolGeq | commaOp
  deriving DecidableEq, Repr

/-- Integer expressions as the parser builds them: literals, casts, unary and binary
operators, `?:` and `sizeof(type)`. -/
inductive Expr
  | lit (l : Lit)
  | cast (target : TypeType) (e : Expr)
  | unary (op : UnOp) (e : Expr)
  | binary (op : BinOp) (left right : Expr)
  | conditional (condition left right : Expr)
  | sizeofT (t : TypeType)
  deriving DecidableEq, Repr

/-- Expressions after typing: every node carries its `value_type`, and the conversions are
explicit casts. -/
inductive TExpr
  | lit (l : Lit)
  | cast (target : TypeType) (e : TExpr)
  | unary (op : UnOp) (ty : TypeType) (e : TExpr)
  | binary (op : BinOp) (ty : TypeType) (left right : TExpr)
  | conditional (ty : TypeType) (condition left right : TExpr)
  | sizeofT (t : TypeType)
  deriving DecidableEq, Repr

/-- The type a literal is given. -/
def Lit.valueType : Lit → TypeType
  | intConst _ => intType
  | uintConst _ => uintType

/-- A typed node's `value_type`; `sizeof` has type `unsigned int`. -/
def TExpr.valueType : TExpr → TypeType
  | lit l => l.valueType
  | cast target _ => target
  | unary _ ty _ => ty
  | binary _ ty _ _ => ty
  | conditional ty _ _ _ => ty
  | sizeofT _ => uintType

/-! ### Typing -/

/-- `convert_expr_type(&e, target)`: a cast unless the type is already `target`. -/
def convertExprType (e : TExpr) (target : TypeType) : TExpr :=
  if e.valueType = target then e else .cast target e

/-- The `BINARY` case of `typecheck_expr` on typed integer operands. -/
def typecheckBinary (op : BinOp) (left right : TExpr) : TExpr :=
  let leftType := left.valueType
  let rightType := right.valueType
  if op = .boolEq ∨ op = .boolNeq then
    let commonType := getCommonType leftType rightType
    .binary op intType (convertExprType left commonType) (convertExprType right commonType)
  else if op = .boolLe ∨ op = .boolLeq ∨ op = .boolGe ∨ op = .boolGeq then
    let commonType := getCommonType leftType rightType
    .binary op intType (convertExprType left commonType) (convertExprType right commonType)
  else if op = .boolAnd ∨ op = .boolOr then .binary op intType left right
  else if op = .bitShl ∨ op = .bitShr then
    -- the right operand takes the left one's type, and so does the result
    .binary op leftType left (convertExprType right leftType)
  else if op = .commaOp then .binary op rightType left right
  else
    -- `+`, `-` and the other arithmetic and bitwise operators
    let commonType := getCommonType leftType rightType
    .binary op commonType (convertExprType left commonType) (convertExprType right commonType)

/-- `typecheck_expr` on an integer expression. -/
def typecheckExpr : Expr → TExpr
  | .lit l => .lit l
  | .cast target e => .cast target (typecheckExpr e)
  | .unary op e =>
    let e := typecheckExpr e
    -- promote char to int for `-`, `~` and `+`
    let e := if e.valueType.isCharType ∧ (op = .negate ∨ op = .complement ∨ op = .unaryPlus) then
      convertExprType e intType else e
    .unary op (if op = .boolNot then intType else e.valueType) e
  | .binary op left right => typecheckBinary op (typecheckExpr left) (typecheckExpr right)
  | .conditional condition left right =>
    let left := typecheckExpr left
    let right := typecheckExpr right
    let commonType := getCommonType left.valueType right.valueType
    .conditional commonType (typecheckExpr condition) (convertExprType left commonType)
      (convertExprType right commonType)
  | .sizeofT t => .sizeofT t

end DioptaseOS.Bcc
