import Mathlib.Data.BitVec

/-!
# basm: immediate encoders

The encoders of `assembler.c` turn the immediate of an instruction, a C `int`, into the field
of the instruction word, or print a diagnostic and set `*success = false`. Six of them encode a
signed field of some width (`encodeSignedImmediate`); the others have their own rules: a byte
in one of four lanes for the bitwise operations, a shift amount, the top 22 bits for `lui`, a
12-bit value scaled by 0 to 3 for absolute memory, and a word offset for branches.

The `int` is a `BitVec 32`; its signed comparisons are on `toInt`, `>>` on an `int` is the
arithmetic shift `sshiftRight`, and the masks are `&&&` with the word of the constant. The
consumers check the field's width with `assert`, which panics.

## Main definitions

* `encodeBitwiseImmediate`, `encodeShiftImmediate`, `encodeLuiImmediate`,
  `encodeAbsoluteMemoryImmediate`, `encodeBranchImmediate` — the encoders with a rule of
  their own
* `encodeSignedImmediate` — the six encoders of a signed field
* `Assembled`, `consumeAluImmediate` — the immediate form of `consume_alu_op`
* `consumeMovHack` — the `movu` and `movl` halves of `movi`

## Main results

* `and_immediate_top_lane_panics` — the top byte lane of a bitwise immediate with its sign bit
  set gives a field wider than ten bits, and the assembler panics on `and r1, r2, 0x80000000`
-/

namespace DioptaseOS.Basm

/-! ### The encoders -/

def msgBitwise : String :=
  "Bitwise instruction immediate must be an 8 bit value, shifted by 0, 8, 16, or 24 bits\n"

/-- `encode_bitwise_immediate(imm, success)`: an 8-bit value in one of the four byte lanes,
with the lane above the byte. -/
def encodeBitwiseImmediate (imm : BitVec 32) : Except String (BitVec 32) :=
  if imm = imm &&& 0xFF then .ok imm
  else if imm = imm &&& 0xFF00 then .ok (imm.sshiftRight 8 ||| 1 <<< 8)
  else if imm = imm &&& 0xFF0000 then .ok (imm.sshiftRight 16 ||| 2 <<< 8)
  else if imm = imm &&& 0xFF000000 then .ok (imm.sshiftRight 24 ||| 3 <<< 8)
  else .error msgBitwise

/-- `encode_shift_immediate(imm, success)`. -/
def encodeShiftImmediate (imm : BitVec 32) : Except String (BitVec 32) :=
  if 0 ≤ imm.toInt ∧ imm.toInt < 32 then .ok imm
  else .error "Shift instruction immediate must be in range 0 to 31\n"

/-- The encoders of a signed field of `width` bits: `-(1 << (width - 1)) <= imm` and
`imm < 1 << (width - 1)`, then `imm & (2 ^ width - 1)`. -/
def encodeSignedImmediate (width : Nat) (msg : String) (imm : BitVec 32) :
    Except String (BitVec 32) :=
  if -2 ^ (width - 1) ≤ imm.toInt ∧ imm.toInt < 2 ^ (width - 1) then
    .ok (imm &&& BitVec.ofNat 32 (2 ^ width - 1))
  else .error msg

/-- `encode_arithmetic_immediate(imm, success)`. -/
def encodeArithmeticImmediate : BitVec 32 → Except String (BitVec 32) :=
  encodeSignedImmediate 12 "Arithmetic instruction immediate must be in range -2048 to 2047\n"

/-- `encode_lui_immediate(imm, success)`: the bits above the bottom ten, which must be zero. -/
def encodeLuiImmediate (imm : BitVec 32) : Except String (BitVec 32) :=
  if imm &&& 0x3FF = 0 then .ok (imm.sshiftRight 10 &&& 0x3FFFFF)
  else .error "lui immediate must be a 32 bit integer with zero for bottom 10 bits\n"

def msgMemory : String := "Invalid immediate for memory instruction\n"

/-- `encode_absolute_memory_immediate(imm, success)`: a 12-bit signed value shifted by 0, 1, 2
or 3, with the shift above it. -/
def encodeAbsoluteMemoryImmediate (imm : BitVec 32) : Except String (BitVec 32) :=
  if imm = imm &&& 0x7FF ∨ ~~~imm = ~~~imm &&& 0x7FF then .ok (imm &&& 0xFFF)
  else if (imm = imm &&& 0xFFF ∨ ~~~imm = ~~~imm &&& 0xFFF) ∧ imm &&& 1 = 0 then
    .ok (imm.sshiftRight 1 &&& 0xFFF ||| 1 <<< 12)
  else if (imm = imm &&& 0x1FFF ∨ ~~~imm = ~~~imm &&& 0x1FFF) ∧ imm &&& 3 = 0 then
    .ok (imm.sshiftRight 2 &&& 0xFFF ||| 2 <<< 12)
  else if (imm = imm &&& 0x3FFF ∨ ~~~imm = ~~~imm &&& 0x3FFF) ∧ imm &&& 7 = 0 then
    .ok (imm.sshiftRight 3 &&& 0xFFF ||| 3 <<< 12)
  else .error (msgMemory ++ "Immediate must be a 12 bit number shifted by 0, 1, 2, or 3\n")

/-- `encode_relative_memory_immediate(imm, success)`. -/
def encodeRelativeMemoryImmediate : BitVec 32 → Except String (BitVec 32) :=
  encodeSignedImmediate 16
    (msgMemory ++ "Immediate must fit in signed 16 bits (-32768 to 32767)\n")

/-- `encode_long_relative_memory_immediate(imm, success)`. -/
def encodeLongRelativeMemoryImmediate : BitVec 32 → Except String (BitVec 32) :=
  encodeSignedImmediate 21
    (msgMemory ++ "Immediate must fit in signed 21 bits (-1048576 to 1048575)\n")

/-- `encode_branch_immediate(imm, success)`: a word offset in 22 signed bits. -/
def encodeBranchImmediate (imm : BitVec 32) : Except String (BitVec 32) :=
  if -2 ^ 23 ≤ imm.toInt ∧ imm.toInt < 2 ^ 23 ∧ imm &&& 3 = 0 then
    .ok (imm.sshiftRight 2 &&& 0x3FFFFF)
  else .error "branch immediate must be divisible by 4 and in range -8388608 to 8388607\n"

/-- `encode_adpc_immediate(imm, success)`. -/
def encodeAdpcImmediate : BitVec 32 → Except String (BitVec 32) :=
  encodeSignedImmediate 22 "adpc immediate must fit in signed 22 bits (-2097152 to 2097151)\n"

/-- `encode_short_atomic_immediate(imm, success)`. -/
def encodeShortAtomicImmediate : BitVec 32 → Except String (BitVec 32) :=
  encodeSignedImmediate 12 (msgMemory ++ "Immediate must fit in signed 12 bits (-2048 to 2047)\n")

/-- `encode_long_atomic_immediate(imm, success)`. -/
def encodeLongAtomicImmediate : BitVec 32 → Except String (BitVec 32) :=
  encodeSignedImmediate 17
    (msgMemory ++ "Immediate must fit in signed 17 bits (-65536 to 65535)\n")

/-! ### The ALU instructions -/

/-- What assembling an instruction gives: its word, a diagnostic after which `*success` is
false, or an `assert` that stops the assembler. -/
inductive Assembled
  | word (w : BitVec 32)
  | rejected (msg : String)
  | panicked (msg : String)
  deriving DecidableEq, Repr

/-- `consume_alu_op(alu_op, success)` after its registers `ra`, `rb` and an immediate: the
encoder of its class of operation, and the assertion that the field fits in 12 bits. An
encoder that fails returns `0`, which passes the assertion. -/
def consumeAluImmediate (aluOp ra rb : Nat) (imm : BitVec 32) : Assembled :=
  if 32 ≤ aluOp then .panicked "consume_alu_op: alu_op out of range\n"
  else
    let instruction : BitVec 32 := 1 <<< 27 ||| BitVec.ofNat 32 ra <<< 22 |||
      BitVec.ofNat 32 rb <<< 17 ||| BitVec.ofNat 32 aluOp <<< 12
    let encoding :=
      if aluOp < 7 then encodeBitwiseImmediate imm
      else if aluOp < 14 then encodeShiftImmediate imm
      else if aluOp < 19 then encodeArithmeticImmediate imm
      else .error ("ALU operation " ++ toString aluOp ++ " does not support immediate values\n")
    match encoding with
    | .error msg => .rejected msg
    | .ok e =>
      if e = e &&& 0xFFF then .word (instruction ||| e)
      else .panicked "consume_alu_op: immediate encoding overflowed 12 bits\n"

/-- `consume_mov_hack(mov_type, success)` after its register `ra` and immediate `imm`, the two
halves of `movi`: `movu` (type 0) is `lui rA, imm & 0xFFFFFC00` and `movl` (type 1) is
`addi rA, rA, imm & 0x3FF`. A label that is not a `.define` (`isLabel`) sets bit 1 of the type,
and `movu8`, `movl4` take `imm - 8` and `imm - 4`. -/
def consumeMovHack (movType ra : Nat) (isLabel : Bool) (imm : BitVec 32) : Assembled :=
  if 4 ≤ movType then .panicked "consume_movi: mov_type out of range\n"
  else
    let movType := if isLabel then movType ||| 2 else movType
    let imm := if movType = 2 then imm - 8 else if movType = 3 then imm - 4 else imm
    if movType &&& 1 ≠ 0 then
      -- `addi rA, rA, imm & 0x3FF`: opcode 1, `add` is ALU operation 14
      let instruction : BitVec 32 := 1 <<< 27 ||| BitVec.ofNat 32 ra <<< 22 |||
        BitVec.ofNat 32 ra <<< 17 ||| 14 <<< 12
      match encodeArithmeticImmediate (imm &&& 0x3FF) with
      | .error msg => .rejected msg
      | .ok e =>
        if e = e &&& 0xFFF then .word (instruction ||| e)
        else .panicked "consume_movi: low immediate overflowed 12 bits\n"
    else
      match encodeLuiImmediate (imm &&& 0xFFFFFC00) with
      | .error msg => .rejected msg
      | .ok e =>
        if e = e &&& 0x3FFFFF then .word (2 <<< 27 ||| BitVec.ofNat 32 ra <<< 22 ||| e)
        else .panicked "consume_movi: adpc immediate overflowed 22 bits\n"

/-- `and r1, r2, 0x80000000`: the immediate is the byte `0x80` in the top lane, the field
`0x380`, but `imm >> 24` of the negative `int` is `0xFFFFFF80`, which the lane bits do not
change; the field is wider than ten bits and `consume_alu_op` panics. -/
theorem and_immediate_top_lane_panics :
    encodeBitwiseImmediate 0x80000000#32 = .ok 0xFFFFFF80#32 ∧
      ¬(0xFFFFFF80#32).toNat < 0x400 ∧
      ((0x380#32).toNat < 0x400 ∧
        (0x380#32 &&& 0xFF) <<< (8 * (0x380#32 >>> 8).toNat) = 0x80000000#32) ∧
      consumeAluImmediate 0 1 2 0x80000000#32 =
        .panicked "consume_alu_op: immediate encoding overflowed 12 bits\n" := by
  decide

end DioptaseOS.Basm
