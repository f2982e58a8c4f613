import Mathlib
import DioptaseOS.Lib.ChainedHash
import DioptaseOS.Lib.TwosComplement

/-!
# Stack slots of a function's pseudo registers

`create_maps` in `asm_gen.c` scans the operands of a function's assembly, those `get_ops`
returns for each instruction, and maps each pseudo register the first time it meets it: a
static or function symbol to a data operand, any other name to a stack slot below `BP`.
`allocate_stack_slot` pads the running byte count to the alignment of the name's type, adds
its size, and places the slot so that it ends at the new count: its operand is
`[BP - count]`. The frame is the count padded to four bytes. `replace_pseudo` then replaces
every pseudo operand of the `dst`, `src1` and `src2` fields by its mapping, with the offset of a
`PSEUDO_MEM` use added to the slot's.

The pseudo map is the chained hash table of `ChainedHash`, keyed by the name and hashed by
`hash_slice`. Offsets are the `int` of the running count, exact for frames below `2 ^ 31`
bytes. The types of the asm symbol table have a positive alignment dividing their size, as
`typecheck_struct` and `typecheck_union` round sizes (`AsmType.Wf`).

## Main definitions

* `AsmType`, `Operand`, `AsmInstr`, `getOps`
* `pseudoMapGet`, `allocateStackSlot`, `mapOperand`, `createMaps` — `create_maps`
* `replaceOperand`, `replacePseudo` — `replace_pseudo`
* `SlotInv` — what the scan keeps of the map and the count

## Main results

* `SlotInv.mapOperand` — one operand of the scan keeps the invariant
* `create_maps_slots` — the slots are disjoint, aligned, of their type's size, between the
  reserved bytes and the frame, and `replace_pseudo` rewrites every use to its slot
-/

namespace DioptaseOS.Bcc

/-! ### Types, operands and instructions -/

/-- `struct AsmType`: `enum AsmTypeType` with the `struct ByteArray` of a byte array. -/
inductive AsmType
  | byte
  | double
  | word
  | longWord
  | byteArray (size alignment : Nat)
  deriving DecidableEq, Repr

/-- `asm_type_size(type)`. -/
def asmTypeSize : AsmType → Nat
  | .byte => 1
  | .double => 2
  | .word => 4
  | .longWord => 8
  | .byteArray size _ => size

/-- `asm_type_alignment(type)`. -/
def asmTypeAlignment : AsmType → Nat
  | .byte => 1
  | .double => 2
  | .word => 4
  | .longWord => 4
  | .byteArray _ alignment => alignment

/-- A type whose alignment is positive and divides its size. -/
def AsmType.Wf (ty : AsmType) : Prop := 0 < asmTypeAlignment ty ∧ asmTypeAlignment ty ∣ asmTypeSize ty

/-- `enum OperandType`. -/
inductive OperandType
  | lit
  | reg
  | pseudo
  | pseudoMem
  | memory
  | data
  deriving DecidableEq, Repr

/-- `struct Operand`. -/
structure Operand where
  type : OperandType
  asmType : Option AsmType
  reg : Nat
  litValue : Int
  pseudo : Option String
  deriving DecidableEq, Repr

/-- `enum AsmInstrType`. -/
inductive AsmInstrType
  | mov | unary | binary | cmp | push | call | indirectCall | jump | condJump | label | ret
  | getAddress | load | store | boundary | trunc | extend
  deriving DecidableEq, Repr

/-- The operand fields of `struct AsmInstr`. -/
structure AsmInstr where
  type : AsmInstrType
  dst : Option Operand
  src1 : Option Operand
  src2 : Option Operand
  deriving DecidableEq, Repr

/-- `BP`, the base pointer `R30`. -/
def bp : Nat := 30

/-- `get_srcs(asm_instr, &count)`. -/
def getSrcs (instr : AsmInstr) : List (Option Operand) :=
  match instr.type with
  | .mov | .unary | .push | .getAddress | .load | .trunc | .extend | .indirectCall => [instr.src1]
  | .binary | .cmp => [instr.src1, instr.src2]
  -- a store uses `dst` as its address
  | .store => [instr.src1, instr.dst]
  | _ => []

/-- `get_dst(asm_instr)`. -/
def getDst (instr : AsmInstr) : Option Operand :=
  match instr.type with
  | .mov | .unary | .binary | .getAddress | .load | .trunc | .extend => instr.dst
  | _ => none

/-- `get_ops(asm_instr, &count)`: the destination, if any, then the sources. -/
def getOps (instr : AsmInstr) : List (Option Operand) :=
  (getDst instr).toList.map some ++ getSrcs instr

/-- `hash_slice(key)`, djb2 in a 32-bit `size_t` over the key's `char`s, which are signed: each
character is read as the signed byte of its low 8 bits (pseudo register names are ASCII). -/
def hashSlice (key : String) : Nat :=
  key.toList.foldl
    (fun out c => TwosComplement.toWord 32 (out * 33 + TwosComplement.toSigned 8 c.toNat)) 5381

/-- The pseudo map, keyed by the name of the pseudo register. -/
abbrev PseudoMap := ChainedHash.Table String Operand

/-- What the symbol tables say of a name: `asm_symbol_table_get` gives its entry, whose
`type` is `NULL` for a function, and `is_static_symbol_operand` says whether it is a static,
constant or function symbol. -/
structure AsmSymbolEntry where
  type : Option AsmType

structure StackEnv where
  asmSymbols : String → Option AsmSymbolEntry
  isStatic : String → Bool

/-- Every type of the asm symbol table is well formed. -/
def StackEnv.TypesWf (env : StackEnv) : Prop :=
  ∀ name entry ty, env.asmSymbols name = some entry → entry.type = some ty → ty.Wf

/-! ### `create_maps` -/

/-- A pseudo register, plain or with an offset. -/
def Operand.IsPseudo (o : Operand) : Prop := o.type = .pseudo ∨ o.type = .pseudoMem

instance (o : Operand) : Decidable o.IsPseudo := inferInstanceAs (Decidable (_ ∨ _))

/-- `pseudo_map_get(pseudo_map, key)`: the mapping of a pseudo register, with the offset of a
`PSEUDO_MEM` use added and its own type. -/
def pseudoMapGet (map : PseudoMap) (key : Operand) : Except String (Option Operand) :=
  if ¬key.IsPseudo then .ok none
  else
    match key.pseudo with
    | none => .error "pseudo operand missing identifier"
    | some name =>
      match map.get name with
      | none => .ok none
      | some mapped =>
        if key.type = .pseudoMem then
          .ok (some { mapped with litValue := mapped.litValue + key.litValue, asmType := key.asmType })
        else .ok (some mapped)

/-- The padding `allocate_stack_slot` adds to the running count. -/
def slotPadding (alignment stackBytes : Nat) : Nat := (alignment - stackBytes % alignment) % alignment

/-- `allocate_stack_slot(opr, &stack_bytes)` for a pseudo register named `name`: the slot's
offset `-(int)next_size` and the new count `next_size`. -/
def allocateStackSlot (env : StackEnv) (name : String) (stackBytes : Nat) :
    Except String (Int × Nat) :=
  match env.asmSymbols name with
  | none => .error ("missing symbol table entry for pseudo " ++ name)
  | some ⟨none⟩ => .error "NULL asm type"
  | some ⟨some ty⟩ =>
    let stackBytes := stackBytes + slotPadding (asmTypeAlignment ty) stackBytes
    let nextSize := stackBytes + asmTypeSize ty
    .ok (-(nextSize : Int), nextSize)

/-- The data operand of a static or function symbol. -/
def dataOperand (name : String) (ty : Option AsmType) : Operand := ⟨.data, ty, 0, 0, some name⟩

/-- The operand of a stack slot that ends `e` bytes below `BP`. -/
def slotOperand (ty : Option AsmType) (e : Nat) : Operand := ⟨.memory, ty, bp, -(e : Int), none⟩

/-- One operand of the scan of `create_maps`: the map and the running count. A pseudo register
is mapped the first time it is met; `pseudo_map_get` finds it exactly when its name has an
entry. -/
def mapOperand (env : StackEnv) (state : PseudoMap × Nat) (opr : Option Operand) :
    Except String (PseudoMap × Nat) :=
  match opr with
  | none => .ok state
  | some opr =>
    if ¬opr.IsPseudo then .ok state
    else
      match opr.pseudo with
      | none => .error "pseudo operand missing identifier"
      | some name =>
        if (state.1.get name).isSome then .ok state
        else
          match env.asmSymbols name with
          | none => .error ("missing symbol table entry for pseudo " ++ name)
          | some entry =>
            if env.isStatic name then .ok (state.1.insert name (dataOperand name entry.type), state.2)
            else
              match allocateStackSlot env name state.2 with
              | .error e => .error e
              | .ok (_, nextSize) =>
                .ok (state.1.insert name (slotOperand entry.type nextSize), nextSize)

/-- `create_maps(asm_instr, reserved_bytes)`: the map and the frame size. -/
def createMaps (env : StackEnv) (code : List AsmInstr) (reservedBytes : Nat) :
    Except String (PseudoMap × Nat) :=
  match (code.flatMap getOps).foldlM (mapOperand env) (ChainedHash.Table.empty 128 hashSlice, reservedBytes) with
  | .error e => .error e
  | .ok (map, stackBytes) => .ok (map, stackBytes + (4 - stackBytes % 4) % 4)

/-! ### `replace_pseudo` -/

/-- `replace_operand_if_pseudo(&field)`. -/
def replaceOperand (map : PseudoMap) : Option Operand → Except String (Option Operand)
  | none => .ok none
  | some opr =>
    match pseudoMapGet map opr with
    | .error e => .error e
    | .ok (some mapped) => .ok (some mapped)
    | .ok none =>
      if opr.IsPseudo then .error ("missing mapping for pseudo " ++ opr.pseudo.getD "<unknown>")
      else .ok (some opr)

/-- `replace_pseudo(asm_instr)`: the three operand fields of every instruction. -/
def replacePseudo (map : PseudoMap) : List AsmInstr → Except String (List AsmInstr)
  | [] => .ok []
  | instr :: code =>
    match replaceOperand map instr.dst, replaceOperand map instr.src1,
        replaceOperand map instr.src2, replacePseudo map code with
    | .ok dst, .ok src1, .ok src2, .ok code' => .ok ({ instr with dst, src1, src2 } :: code')
    | .error e, _, _, _ => .error e
    | _, .error e, _, _ => .error e
    | _, _, .error e, _ => .error e
    | _, _, _, .error e => .error e

/-! ### What one operand of the scan does -/

theorem slotPadding_spec {alignment : Nat} (ha : 0 < alignment) (stackBytes : Nat) :
    alignment ∣ stackBytes + slotPadding alignment stackBytes := by
  unfold slotPadding
  have hdiv := Nat.mod_add_div stackBytes alignment
  have hlt := Nat.mod_lt stackBytes ha
  by_cases h0 : stackBytes % alignment = 0
  · rw [h0, Nat.sub_zero, Nat.mod_self, Nat.add_zero]
    exact Nat.dvd_of_mod_eq_zero h0
  · -- the count is padded up to the next multiple, `alignment * (stackBytes / alignment + 1)`
    rw [Nat.mod_eq_of_lt (by omega : alignment - stackBytes % alignment < alignment)]
    exact ⟨stackBytes / alignment + 1, by rw [Nat.mul_add, Nat.mul_one]; omega⟩

@[simp] theorem slotOperand_inj {ty ty' : Option AsmType} {e e' : Nat} :
    slotOperand ty e = slotOperand ty' e' ↔ ty = ty' ∧ e = e' := by
  simp [slotOperand]

@[simp] theorem dataOperand_ne_slotOperand (name : String) (ty ty' : Option AsmType) (e : Nat) :
    dataOperand name ty ≠ slotOperand ty' e := by
  simp [dataOperand, slotOperand]

/-- The two things an operand of the scan can do: leave the map and the count, because it is
not a pseudo register or is mapped already, or map a new name, to a data operand or to a
slot that ends at the padded count plus its size. -/
theorem mapOperand_cases {env : StackEnv} {map map' : PseudoMap} {sb sb' : Nat}
    {opr : Option Operand} (h : mapOperand env (map, sb) opr = .ok (map', sb')) :
    (map' = map ∧ sb' = sb ∧
        ∀ o, opr = some o → o.IsPseudo → ∃ name, o.pseudo = some name ∧ (map.get name).isSome) ∨
      ∃ o name entry, opr = some o ∧ o.IsPseudo ∧ o.pseudo = some name ∧ map.get name = none ∧
        env.asmSymbols name = some entry ∧
        ((env.isStatic name = true ∧ map' = map.insert name (dataOperand name entry.type) ∧
            sb' = sb) ∨
          (env.isStatic name = false ∧ ∃ ty, entry = ⟨some ty⟩ ∧
            sb' = sb + slotPadding (asmTypeAlignment ty) sb + asmTypeSize ty ∧
            map' = map.insert name (slotOperand (some ty) sb'))) := by
  unfold mapOperand at h
  rcases opr with _ | o
  · cases h
    exact .inl ⟨rfl, rfl, fun _ h => by cases h⟩
  · dsimp only at h
    by_cases hp : o.IsPseudo
    · rw [if_neg (not_not_intro hp)] at h
      rcases hn : o.pseudo with _ | name
      · rw [hn] at h; cases h
      · rw [hn] at h
        dsimp only at h
        by_cases hmapped : (map.get name).isSome
        · -- met before: nothing changes
          rw [if_pos hmapped] at h
          cases h
          exact .inl ⟨rfl, rfl, fun o' ho' _ => ⟨name, by cases ho'; exact hn, hmapped⟩⟩
        · rw [if_neg hmapped] at h
          have hnone : map.get name = none := Option.not_isSome_iff_eq_none.mp hmapped
          rcases hs : env.asmSymbols name with _ | entry
          · rw [hs] at h; cases h
          · rw [hs] at h
            dsimp only at h
            refine .inr ⟨o, name, entry, rfl, hp, hn, hnone, hs, ?_⟩
            by_cases hst : env.isStatic name = true
            · rw [if_pos hst] at h
              cases h
              exact .inl ⟨hst, rfl, rfl⟩
            · rw [if_neg hst] at h
              unfold allocateStackSlot at h
              rw [hs] at h
              rcases entry with ⟨_ | ty⟩
              · cases h
              · dsimp only at h
                cases h
                exact .inr ⟨by simpa using hst, ty, rfl, rfl, rfl⟩
    · rw [if_pos hp] at h
      cases h
      exact .inl ⟨rfl, rfl, fun o' ho' hp' => absurd (by cases ho'; exact hp') hp⟩

/-! ### The invariant of the scan -/

/-- What the scan keeps: every mapped name is a static symbol with its data operand, or a
local with a slot of its type's size, above the reserved bytes, ending at a multiple of its
alignment no further than the count; and the slots of two names do not overlap. -/
structure SlotInv (env : StackEnv) (reserved : Nat) (map : PseudoMap) (stackBytes : Nat) :
    Prop where
  reserved_le : reserved ≤ stackBytes
  mapped : ∀ name m, map.get name = some m →
    (env.isStatic name = true ∧ ∃ entry, env.asmSymbols name = some entry ∧
        m = dataOperand name entry.type) ∨
      (env.isStatic name = false ∧ ∃ ty e, env.asmSymbols name = some ⟨some ty⟩ ∧
        m = slotOperand (some ty) e ∧ reserved + asmTypeSize ty ≤ e ∧ e ≤ stackBytes ∧
        asmTypeAlignment ty ∣ e)
  disjoint : ∀ n₁ n₂ ty₁ ty₂ e₁ e₂, n₁ ≠ n₂ →
    map.get n₁ = some (slotOperand (some ty₁) e₁) →
    map.get n₂ = some (slotOperand (some ty₂) e₂) →
    e₁ + asmTypeSize ty₂ ≤ e₂ ∨ e₂ + asmTypeSize ty₁ ≤ e₁

theorem slotInv_empty (env : StackEnv) (reserved : Nat) :
    SlotInv env reserved (ChainedHash.Table.empty 128 hashSlice) reserved := by
  refine ⟨Nat.le_refl _, fun _ _ h => ?_, fun _ _ _ _ _ _ _ h _ => ?_⟩
  · simp at h
  · simp at h

/-- The slot of a name that the scan has mapped ends no further than the count. -/
theorem SlotInv.slot_le {env : StackEnv} {reserved sb : Nat} {map : PseudoMap}
    (h : SlotInv env reserved map sb) {name : String} {ty : AsmType} {e : Nat}
    (hget : map.get name = some (slotOperand (some ty) e)) : e ≤ sb := by
  rcases h.mapped name _ hget with ⟨-, entry, -, heq⟩ | ⟨-, ty', e', -, heq, -, hle, -⟩
  · exact absurd heq.symm (dataOperand_ne_slotOperand _ _ _ _)
  · rw [slotOperand_inj] at heq
    rw [heq.2]
    exact hle

/-- Mapping a static symbol keeps the invariant. -/
theorem SlotInv.insert_data {env : StackEnv} {reserved sb : Nat} {map : PseudoMap}
    (h : SlotInv env reserved map sb) {name : String} {entry : AsmSymbolEntry}
    (hst : env.isStatic name = true) (hs : env.asmSymbols name = some entry) :
    SlotInv env reserved (map.insert name (dataOperand name entry.type)) sb := by
  refine ⟨h.reserved_le, fun n m hget => ?_, fun n₁ n₂ ty₁ ty₂ e₁ e₂ hne h₁ h₂ => ?_⟩
  · rw [ChainedHash.get_insert] at hget
    split_ifs at hget with hn
    · subst hn
      cases hget
      exact .inl ⟨hst, entry, hs, rfl⟩
    · exact h.mapped n m hget
  · rw [ChainedHash.get_insert] at h₁ h₂
    split_ifs at h₁ h₂ with hn₁ hn₂ hn₂
    · exact absurd (hn₁.symm.trans hn₂) hne
    · exact absurd (Option.some.inj h₁) (dataOperand_ne_slotOperand _ _ _ _)
    · exact absurd (Option.some.inj h₂) (dataOperand_ne_slotOperand _ _ _ _)
    · exact h.disjoint n₁ n₂ ty₁ ty₂ e₁ e₂ hne h₁ h₂

/-- Mapping a local to a new slot past the count keeps the invariant. -/
theorem SlotInv.insert_slot {env : StackEnv} {reserved sb : Nat} {map : PseudoMap}
    (h : SlotInv env reserved map sb) {name : String} {ty : AsmType} (hwf : ty.Wf)
    (hst : env.isStatic name = false) (hs : env.asmSymbols name = some ⟨some ty⟩) :
    SlotInv env reserved
      (map.insert name (slotOperand (some ty) (sb + slotPadding (asmTypeAlignment ty) sb +
        asmTypeSize ty)))
      (sb + slotPadding (asmTypeAlignment ty) sb + asmTypeSize ty) := by
  have hres := h.reserved_le
  refine ⟨by omega, fun n m hget => ?_, fun n₁ n₂ ty₁ ty₂ e₁ e₂ hne h₁ h₂ => ?_⟩
  · rw [ChainedHash.get_insert] at hget
    split_ifs at hget with hn
    · -- the new slot ends at a multiple of the alignment: the padded count and the size are
      subst hn
      cases hget
      refine .inr ⟨hst, ty, _, hs, rfl, by omega, Nat.le_refl _, ?_⟩
      exact Nat.dvd_add (slotPadding_spec hwf.1 sb) hwf.2
    · rcases h.mapped n m hget with hdata | ⟨hst', ty', e, hs', hm, hlo, hhi, hdvd⟩
      · exact .inl hdata
      · exact .inr ⟨hst', ty', e, hs', hm, hlo, by omega, hdvd⟩
  · rw [ChainedHash.get_insert] at h₁ h₂
    split_ifs at h₁ h₂ with hn₁ hn₂ hn₂
    · exact absurd (hn₁.symm.trans hn₂) hne
    · -- the new slot lies past every slot so far
      obtain ⟨⟨⟩, rfl⟩ := slotOperand_inj.mp (Option.some.inj h₁).symm
      have := h.slot_le h₂
      exact .inr (by omega)
    · obtain ⟨⟨⟩, rfl⟩ := slotOperand_inj.mp (Option.some.inj h₂).symm
      have := h.slot_le h₁
      exact .inl (by omega)
    · exact h.disjoint n₁ n₂ ty₁ ty₂ e₁ e₂ hne h₁ h₂

/-- One operand of the scan keeps the invariant and the names mapped so far, and maps the
operand's name if it is a pseudo register. -/
theorem SlotInv.mapOperand {env : StackEnv} (hwf : env.TypesWf) {reserved sb sb' : Nat}
    {map map' : PseudoMap} {opr : Option Operand} (h : SlotInv env reserved map sb)
    (hstep : Bcc.mapOperand env (map, sb) opr = .ok (map', sb')) :
    SlotInv env reserved map' sb' ∧
      (∀ name, (map.get name).isSome → (map'.get name).isSome) ∧
      ∀ o, opr = some o → o.IsPseudo → ∃ name, o.pseudo = some name ∧ (map'.get name).isSome := by
  rcases mapOperand_cases hstep with ⟨rfl, rfl, hseen⟩ | ⟨o, name, entry, rfl, hp, hn, hnone, hs, hnew⟩
  · exact ⟨h, fun _ => id, hseen⟩
  · -- a new name: every other lookup is the old one
    have hkeep : ∀ (m : Operand) n, (map.get n).isSome → ((map.insert name m).get n).isSome :=
      fun m n hn' => by
        rw [ChainedHash.get_insert]
        split_ifs <;> simp_all
    have hfound : ∀ (m : Operand), ∃ n, o.pseudo = some n ∧ ((map.insert name m).get n).isSome :=
      fun m => ⟨name, hn, by rw [ChainedHash.get_insert, if_pos rfl]; rfl⟩
    rcases hnew with ⟨hst, rfl, rfl⟩ | ⟨hst, ty, rfl, rfl, rfl⟩
    · exact ⟨h.insert_data hst hs, hkeep _, fun o' ho' _ => by cases ho'; exact hfound _⟩
    · exact ⟨h.insert_slot (hwf name _ ty hs rfl) hst hs, hkeep _,
        fun o' ho' _ => by cases ho'; exact hfound _⟩


/-- The invariant over the whole scan: names mapped stay mapped, and every pseudo register
met is mapped. -/
theorem SlotInv.scan {env : StackEnv} (hwf : env.TypesWf) {reserved : Nat} :
    ∀ (ops : List (Option Operand)) {map map' : PseudoMap} {sb sb' : Nat},
      SlotInv env reserved map sb →
      ops.foldlM (Bcc.mapOperand env) (map, sb) = .ok (map', sb') →
      SlotInv env reserved map' sb' ∧
        (∀ name, (map.get name).isSome → (map'.get name).isSome) ∧
        ∀ o, some o ∈ ops → o.IsPseudo → ∃ name, o.pseudo = some name ∧ (map'.get name).isSome
  | [], map, map', sb, sb', h, hrun => by
    simp only [List.foldlM_nil, pure, Except.pure, Except.ok.injEq, Prod.mk.injEq] at hrun
    obtain ⟨rfl, rfl⟩ := hrun
    exact ⟨h, fun _ => id, fun _ ho => by cases ho⟩
  | opr :: ops, map, map', sb, sb', h, hrun => by
    rw [List.foldlM_cons] at hrun
    rcases hstep : Bcc.mapOperand env (map, sb) opr with e | ⟨map₁, sb₁⟩
    · rw [hstep] at hrun
      cases hrun
    · rw [hstep] at hrun
      obtain ⟨h₁, hkeep₁, hmet₁⟩ := h.mapOperand hwf hstep
      obtain ⟨h', hkeep, hmet⟩ := SlotInv.scan hwf ops h₁ hrun
      refine ⟨h', fun name hn => hkeep name (hkeep₁ name hn), fun o ho hp => ?_⟩
      rcases List.mem_cons.mp ho with ho | ho
      · -- the operand of this step, mapped by it or before it
        obtain ⟨name, hn, hsome⟩ := hmet₁ o ho.symm hp
        exact ⟨name, hn, hkeep name hsome⟩
      · exact hmet o ho hp

/-- `create_maps` is the scan from the reserved bytes, then the padding to four bytes. -/
theorem createMaps_eq {env : StackEnv} {code : List AsmInstr} {reserved : Nat}
    {map : PseudoMap} {frame : Nat} (h : createMaps env code reserved = .ok (map, frame)) :
    ∃ sb, (code.flatMap getOps).foldlM (mapOperand env)
        (ChainedHash.Table.empty 128 hashSlice, reserved) = .ok (map, sb) ∧
      frame = sb + (4 - sb % 4) % 4 := by
  unfold createMaps at h
  rcases hrun : (code.flatMap getOps).foldlM (mapOperand env)
      (ChainedHash.Table.empty 128 hashSlice, reserved) with e | ⟨map₀, sb⟩
  · rw [hrun] at h
    cases h
  · rw [hrun] at h
    simp only [Except.ok.injEq, Prod.mk.injEq] at h
    obtain ⟨rfl, rfl⟩ := h
    exact ⟨sb, rfl, rfl⟩

/-! ### `replace_pseudo` -/

/-- A use of a mapped local: a `PSEUDO_MEM` use with its offset added to the slot's and its
own type, a plain use as the slot. -/
theorem pseudoMapGet_slot {map : PseudoMap} {o : Operand} {name : String} {ty : AsmType}
    {e : Nat} (hp : o.IsPseudo) (hn : o.pseudo = some name)
    (hget : map.get name = some (slotOperand (some ty) e)) :
    pseudoMapGet map o = .ok (some (if o.type = .pseudoMem then
      ⟨.memory, o.asmType, bp, -(e : Int) + o.litValue, none⟩ else slotOperand (some ty) e)) := by
  unfold pseudoMapGet
  rw [if_neg (not_not_intro hp), hn]
  dsimp only
  rw [hget]
  dsimp only
  split_ifs <;> rfl

/-- A use of a static symbol: its data operand, with the offset of a `PSEUDO_MEM` use. -/
theorem pseudoMapGet_data {map : PseudoMap} {o : Operand} {name : String} {ty : Option AsmType}
    (hp : o.IsPseudo) (hn : o.pseudo = some name)
    (hget : map.get name = some (dataOperand name ty)) :
    pseudoMapGet map o = .ok (some (if o.type = .pseudoMem then
      ⟨.data, o.asmType, 0, o.litValue, some name⟩ else dataOperand name ty)) := by
  unfold pseudoMapGet
  rw [if_neg (not_not_intro hp), hn]
  dsimp only
  rw [hget]
  dsimp only
  split_ifs
  · simp [dataOperand]
  · rfl

theorem replaceOperand_of_pseudoMapGet {map : PseudoMap} {o m : Operand}
    (h : pseudoMapGet map o = .ok (some m)) : replaceOperand map (some o) = .ok (some m) := by
  simp only [replaceOperand, h]

/-- What `replace_pseudo` does to each instruction: its three fields replaced one by one. -/
theorem replacePseudo_getElem? {map : PseudoMap} :
    ∀ {code code' : List AsmInstr}, replacePseudo map code = .ok code' →
      ∀ (i : Nat) (instr : AsmInstr), code[i]? = some instr → ∃ dst src1 src2,
        replaceOperand map instr.dst = .ok dst ∧ replaceOperand map instr.src1 = .ok src1 ∧
        replaceOperand map instr.src2 = .ok src2 ∧ code'[i]? = some { instr with dst, src1, src2 }
  | [], _, _, i, instr, hi => by cases hi
  | instr :: code, code', h, i, instr', hi => by
    unfold replacePseudo at h
    rcases hd : replaceOperand map instr.dst with _ | dst <;>
      rcases hs1 : replaceOperand map instr.src1 with _ | src1 <;>
      rcases hs2 : replaceOperand map instr.src2 with _ | src2 <;>
      rcases hc : replacePseudo map code with _ | rest <;>
      simp only [hd, hs1, hs2, hc, reduceCtorEq] at h
    -- only the case where every part succeeds is left
    simp only [Except.ok.injEq] at h
    subst h
    cases i with
    | zero =>
      cases hi
      exact ⟨dst, src1, src2, hd, hs1, hs2, rfl⟩
    | succ i => exact replacePseudo_getElem? hc i instr' hi


/-! ### The stack frame -/

/-- `create_maps` lays out a frame of `reserved` bytes and then one slot per local pseudo
register: the frame is word aligned and holds the reserved bytes; every pseudo operand is mapped
to its static symbol or to a slot of its type, aligned, past the reserved bytes and inside the
frame; two slots never overlap; and `replace_pseudo` puts each mapped operand, with the byte
offset of a `PSEUDO_MEM` use, in place. `stack_bytes` is a `size_t` and the slot a negated `int`:
for a frame below `2 ^ 31` neither wraps, so every slot ends below `2 ^ 31` and
`-((int)next_size)` is the slot's offset. -/
theorem create_maps_slots {env : StackEnv} (hwf : env.TypesWf) {code : List AsmInstr}
    {reserved : Nat} {map : PseudoMap} {frame : Nat}
    (hmaps : createMaps env code reserved = .ok (map, frame)) (hframe : frame < 2 ^ 31) :
    frame % 4 = 0 ∧ reserved ≤ frame ∧
      (∀ instr ∈ code, ∀ o, some o ∈ getOps instr → o.IsPseudo → ∃ name, o.pseudo = some name ∧
        ((env.isStatic name = true ∧ ∃ entry, env.asmSymbols name = some entry ∧
            map.get name = some (dataOperand name entry.type)) ∨
          (env.isStatic name = false ∧ ∃ ty e, env.asmSymbols name = some ⟨some ty⟩ ∧
            map.get name = some (slotOperand (some ty) e) ∧ reserved + asmTypeSize ty ≤ e ∧
            e ≤ frame ∧ asmTypeAlignment ty ∣ e))) ∧
      (∀ n₁ n₂ ty₁ ty₂ e₁ e₂, n₁ ≠ n₂ → map.get n₁ = some (slotOperand (some ty₁) e₁) →
        map.get n₂ = some (slotOperand (some ty₂) e₂) →
        e₁ + asmTypeSize ty₂ ≤ e₂ ∨ e₂ + asmTypeSize ty₁ ≤ e₁) ∧
      (∀ name ty e, map.get name = some (slotOperand (some ty) e) → e < 2 ^ 31) ∧
      ∀ code', replacePseudo map code = .ok code' →
        ∀ (i : Nat) (instr : AsmInstr), code[i]? = some instr → ∃ instr', code'[i]? = some instr' ∧
          ∀ field ∈ [AsmInstr.dst, AsmInstr.src1, AsmInstr.src2], ∀ o name, field instr = some o →
            o.IsPseudo → o.pseudo = some name →
            (∀ ty e, map.get name = some (slotOperand (some ty) e) →
              field instr' = some (if o.type = .pseudoMem then
                ⟨.memory, o.asmType, bp, -(e : Int) + o.litValue, none⟩ else slotOperand (some ty) e)) ∧
            (∀ ty, map.get name = some (dataOperand name ty) →
              field instr' = some (if o.type = .pseudoMem then
                ⟨.data, o.asmType, 0, o.litValue, some name⟩ else dataOperand name ty)) := by
  obtain ⟨sb, hrun, rfl⟩ := createMaps_eq hmaps
  obtain ⟨hinv, -, hmet⟩ := SlotInv.scan hwf _ (slotInv_empty env reserved) hrun
  have hsb : sb ≤ sb + (4 - sb % 4) % 4 := Nat.le_add_right _ _
  refine ⟨by omega, Nat.le_trans hinv.reserved_le hsb, fun instr hinstr o ho hp => ?_, hinv.disjoint,
    fun name ty e hget => lt_of_le_of_lt ((hinv.slot_le hget).trans hsb) hframe,
    fun code' hrep i instr hi => ?_⟩
  · -- every pseudo register the scan met is mapped, and the invariant says to what
    obtain ⟨name, hn, hsome⟩ := hmet o (List.mem_flatMap.mpr ⟨instr, hinstr, ho⟩) hp
    obtain ⟨m, hm⟩ := Option.isSome_iff_exists.mp hsome
    refine ⟨name, hn, ?_⟩
    rcases hinv.mapped name m hm with ⟨hst, entry, hs, rfl⟩ | ⟨hst, ty, e, hs, rfl, hlo, hhi, hdvd⟩
    · exact .inl ⟨hst, entry, hs, hm⟩
    · exact .inr ⟨hst, ty, e, hs, hm, hlo, Nat.le_trans hhi hsb, hdvd⟩
  · obtain ⟨dst, src1, src2, hd, hs1, hs2, hi'⟩ := replacePseudo_getElem? hrep i instr hi
    refine ⟨_, hi', fun field hfield o name ho hp hn => ?_⟩
    have hrepl : replaceOperand map (field instr) =
        .ok (field { instr with dst, src1, src2 }) := by
      simp only [List.mem_cons, List.not_mem_nil, or_false] at hfield
      rcases hfield with rfl | rfl | rfl
      · exact hd
      · exact hs1
      · exact hs2
    rw [ho] at hrepl
    refine ⟨fun ty e hget => ?_, fun ty hget => ?_⟩
    · rw [replaceOperand_of_pseudoMapGet (pseudoMapGet_slot hp hn hget)] at hrepl
      exact (Except.ok.inj hrepl).symm
    · rw [replaceOperand_of_pseudoMapGet (pseudoMapGet_data hp hn hget)] at hrepl
      exact (Except.ok.inj hrepl).symm


/-- A function whose locals are all words. -/
def wordLocals : StackEnv := ⟨fun _ => some ⟨some .word⟩, fun _ => false⟩

/-- `mov a, b + 2`, with `b + 2` a `PSEUDO_MEM` use of a byte. -/
def movAB : List AsmInstr :=
  [⟨.mov, some ⟨.pseudo, some .word, 0, 0, some "a"⟩, some ⟨.pseudoMem, some .byte, 0, 2, some "b"⟩,
    none⟩]

/-- The map of `movAB`: `a` in the slot ending at `BP - 4`, `b` in the one ending at `BP - 8`. -/
def movABMap : PseudoMap :=
  ((ChainedHash.Table.empty 128 hashSlice).insert "a" (slotOperand (some .word) 4)).insert "b"
    (slotOperand (some .word) 8)

theorem create_maps_slots_mov :
    wordLocals.TypesWf ∧ createMaps wordLocals movAB 0 = .ok (movABMap, 8) ∧ 8 < 2 ^ 31 ∧
    (8 % 4 = 0 ∧ 0 ≤ 8 ∧
      (∀ instr ∈ movAB, ∀ o, some o ∈ getOps instr → o.IsPseudo → ∃ name, o.pseudo = some name ∧
        ((wordLocals.isStatic name = true ∧ ∃ entry, wordLocals.asmSymbols name = some entry ∧
            movABMap.get name = some (dataOperand name entry.type)) ∨
          (wordLocals.isStatic name = false ∧ ∃ ty e, wordLocals.asmSymbols name = some ⟨some ty⟩ ∧
            movABMap.get name = some (slotOperand (some ty) e) ∧ 0 + asmTypeSize ty ≤ e ∧
            e ≤ 8 ∧ asmTypeAlignment ty ∣ e))) ∧
      (∀ n₁ n₂ ty₁ ty₂ e₁ e₂, n₁ ≠ n₂ → movABMap.get n₁ = some (slotOperand (some ty₁) e₁) →
        movABMap.get n₂ = some (slotOperand (some ty₂) e₂) →
        e₁ + asmTypeSize ty₂ ≤ e₂ ∨ e₂ + asmTypeSize ty₁ ≤ e₁) ∧
      (∀ name ty e, movABMap.get name = some (slotOperand (some ty) e) → e < 2 ^ 31) ∧
      ∀ code', replacePseudo movABMap movAB = .ok code' →
        ∀ (i : Nat) (instr : AsmInstr), movAB[i]? = some instr → ∃ instr', code'[i]? = some instr' ∧
          ∀ field ∈ [AsmInstr.dst, AsmInstr.src1, AsmInstr.src2], ∀ o name, field instr = some o →
            o.IsPseudo → o.pseudo = some name →
            (∀ ty e, movABMap.get name = some (slotOperand (some ty) e) →
              field instr' = some (if o.type = .pseudoMem then
                ⟨.memory, o.asmType, bp, -(e : Int) + o.litValue, none⟩ else slotOperand (some ty) e)) ∧
            (∀ ty, movABMap.get name = some (dataOperand name ty) →
              field instr' = some (if o.type = .pseudoMem then
                ⟨.data, o.asmType, 0, o.litValue, some name⟩ else dataOperand name ty))) :=
  have hwf : wordLocals.TypesWf := fun _ _ _ h₁ h₂ => by
    cases h₁
    cases h₂
    exact ⟨by decide, by decide⟩
  have hmaps : createMaps wordLocals movAB 0 = .ok (movABMap, 8) := rfl
  ⟨hwf, hmaps, by decide, create_maps_slots hwf hmaps (by decide)⟩

end DioptaseOS.Bcc
