import DioptaseOS.Bcc.ConstEval

/-!
# Static initializers

A static object is emitted as data: `is_init_const` in `typechecking.c` flattens its
initializer into an `InitList`, and `make_data` in `codegen.c` emits each node as `FILB`,
`FILD`, `FILL` or `SPACE` lines. At file scope `is_init_const` runs on the initializer as
parsed, before `typecheck_init` has padded it, so it pads a short array or struct itself: with
one `ZERO_INIT` node after the elements, before each struct member that its running offset has
not reached, and at the end of a struct or union.

Structs and unions are laid out by `typecheck_struct` and `typecheck_union`, which the type
table records. A struct member's offset is the running offset rounded up to the member's
alignment; a struct's size is the end of its last member rounded up to the largest alignment.
A union puts every member at offset `0`.

The constant value of a scalar initializer is what `eval_const` folds; a string literal is
taken whole, and for a `char *` it becomes a pointer to a new constant, whose label is left
out here.

## Main definitions

* `ObjType`, `ObjType.getTypeSize`, `ObjType.getTypeAlignment` — object types and their layout
* `structLayout`, `unionLayout` — the entries `typecheck_struct` and `typecheck_union` build
* `Initializer`, `StaticInit`, `isInitConst`, `typecheckInit` — initializers, the flattening
  and the check
* `StaticInit.size`, `placed` — the bytes `make_data` emits for each node and where they go
* `subobjectInits` — the offset of the sub-object each explicit initializer belongs to
* `TypeTableOk`, `LayoutOk` — a type table laid out by the typechecker, and the layout an
  initializer should have

## Main results

* `structLayout_membersFrom` — the members of a struct lie in order within its size
* `isInitConst_layoutOk` — the flattening lays out every accepted initializer, by induction on
  it through the element and member loops
* `static_init_layout_exact` — the layout of static data
-/

namespace DioptaseOS.Bcc

/-! ### Object types -/

/-- The object types of `struct Type`: the integer types, `enum`, `void`, pointers, arrays,
and structs and unions by their tag. -/
inductive ObjType
  | scalar (t : TypeType)
  | enumType
  | voidType
  | pointer (referenced : ObjType)
  | array (size : Nat) (element : ObjType)
  | structType (name : String)
  | unionType (name : String)
  deriving DecidableEq, Repr

/-- A `struct MemberEntry`: a member of a struct or union with its offset. -/
structure MemberEntry where
  key : String
  type : ObjType
  offset : Nat
  deriving DecidableEq, Repr

/-- A `struct StructEntry`, for a struct or a union. -/
structure StructEntry where
  alignment : Nat
  size : Nat
  members : List MemberEntry
  deriving DecidableEq, Repr

/-- Whether a tag names a struct or a union. -/
inductive TypeEntryType
  | structEntry
  | unionEntry
  deriving DecidableEq, Repr

/-- An entry of `global_type_table`. -/
structure TypeEntry where
  type : TypeEntryType
  data : StructEntry
  deriving DecidableEq, Repr

namespace ObjType

/-- `is_char_type`. -/
def isCharType : ObjType → Bool
  | scalar t => t.isCharType
  | _ => false

/-- `is_arithmetic_type`. -/
def isArithmeticType : ObjType → Bool
  | scalar _ | enumType => true
  | _ => false

/-- `is_pointer_type`. -/
def isPointerType : ObjType → Bool
  | pointer _ => true
  | _ => false

/-- `is_void_pointer_type`. -/
def isVoidPointerType : ObjType → Bool
  | pointer voidType => true
  | _ => false

variable (table : String → Option TypeEntry)

/-- `get_type_size(type)`, with `none` for its `-1` on `void` and on a tag with no entry. -/
def getTypeSize : ObjType → Option Nat
  | scalar t => some t.getTypeSize
  | enumType => some 4
  | voidType => none
  -- 32-bit pointers
  | pointer _ => some 4
  | array size element => (getTypeSize element).map (size * ·)
  | structType name => (table name).map (·.data.size)
  | unionType name => (table name).map (·.data.size)

/-- The `default` case of `get_type_alignment`: the size, capped at `4`, and `-1` for a size of
`0` or `3`. -/
def alignmentOfSize (size : Nat) : Option Nat :=
  if 4 ≤ size then some 4 else if size = 3 ∨ size = 0 then none else some size

/-- `get_type_alignment(type)`, with `none` for its `-1`. -/
def getTypeAlignment : ObjType → Option Nat
  | array _ element => getTypeAlignment element
  | structType name => (table name).map (·.data.alignment)
  | unionType name => (table name).map (·.data.alignment)
  | enumType => some 4
  | voidType => none
  | scalar t => alignmentOfSize t.getTypeSize
  | pointer _ => alignmentOfSize 4

end ObjType

/-- `is_null_pointer_constant`: the `int` literal `0`. -/
def Expr.isNullPointerConstant : Expr → Bool
  | .lit (.intConst v) => v == 0
  | _ => false

/-! ### Struct and union layout -/

/-- A `struct MemberDclr`: a declared member. -/
structure MemberDclr where
  name : String
  type : ObjType
  deriving DecidableEq, Repr

/-- `offset` rounded up to a multiple of `alignment`, as `typecheck_struct` and
`typecheck_union` write it: `offset += alignment - (offset % alignment)` unless it divides. -/
def alignUp (offset alignment : Nat) : Nat :=
  if offset % alignment ≠ 0 then offset + (alignment - offset % alignment) else offset

section Layout

variable (table : String → Option TypeEntry)

/-- The loop of `typecheck_struct` from the running `offset` and `alignment`: the member entries,
the offset past the last member and the largest alignment. `none` is its `false` on a member
of incomplete type. -/
def structLayoutLoop : List MemberDclr → Nat → Nat → Option (List MemberEntry × Nat × Nat)
  | [], offset, alignment => some ([], offset, alignment)
  | member :: members, offset, alignment => do
    let memberAlignment ← member.type.getTypeAlignment table
    let offset := alignUp offset memberAlignment
    let size ← member.type.getTypeSize table
    let (entries, offset', alignment') ←
      structLayoutLoop members (offset + size) (max memberAlignment alignment)
    some (⟨member.name, member.type, offset⟩ :: entries, offset', alignment')

/-- The entry `typecheck_struct` inserts for a struct with these members. -/
def structLayout (members : List MemberDclr) : Option StructEntry := do
  let (entries, offset, alignment) ← structLayoutLoop table members 0 1
  some ⟨alignment, alignUp offset alignment, entries⟩

/-- The loop of `typecheck_union` from the running `size` and `alignment`. -/
def unionLayoutLoop : List MemberDclr → Nat → Nat → Option (List MemberEntry × Nat × Nat)
  | [], size, alignment => some ([], size, alignment)
  | member :: members, size, alignment => do
    let memberAlignment ← member.type.getTypeAlignment table
    -- every member at offset 0
    let memberSize ← member.type.getTypeSize table
    let (entries, size', alignment') ←
      unionLayoutLoop members (max memberSize size) (max memberAlignment alignment)
    some (⟨member.name, member.type, 0⟩ :: entries, size', alignment')

/-- The entry `typecheck_union` inserts for a union with these members. -/
def unionLayout (members : List MemberDclr) : Option StructEntry := do
  let (entries, size, alignment) ← unionLayoutLoop table members 0 1
  some ⟨alignment, alignUp size alignment, entries⟩

end Layout

/-! ### Initializers -/

/-- A `struct Initializer` as the parser builds it: an expression, a string literal, or a
braced list. -/
inductive Initializer
  | single (e : Expr)
  | string (s : List Nat)
  | compound (inits : List Initializer)
  deriving Repr

/-- A node of an `InitList`: a `StaticInitType` with its value. `unsupportedInit` is the `-1`
that `get_var_init` gives a type it has no kind for. -/
inductive StaticInit
  | charInit (v : Nat)
  | ucharInit (v : Nat)
  | shortInit (v : Nat)
  | ushortInit (v : Nat)
  | intInit (v : Nat)
  | uintInit (v : Nat)
  | longInit (v : Nat)
  | ulongInit (v : Nat)
  | stringInit (s : List Nat)
  -- a pointer to a new constant that holds the string
  | pointerInit (target : List Nat)
  | zeroInit (n : Nat)
  | unsupportedInit (v : Nat)
  deriving DecidableEq, Repr

/-- `get_var_init(type)` with the folded value `v`. -/
def getVarInit : ObjType → Nat → StaticInit
  | .scalar .charType, v | .scalar .scharType, v => .charInit v
  | .scalar .ucharType, v => .ucharInit v
  | .scalar .shortType, v => .shortInit v
  | .scalar .ushortType, v => .ushortInit v
  | .scalar .intType, v => .intInit v
  | .scalar .uintType, v | .pointer _, v | .enumType, v => .uintInit v
  | .scalar .longType, v => .longInit v
  | .scalar .ulongType, v => .ulongInit v
  | _, v => .unsupportedInit v

namespace StaticInit

/-- The bytes `make_data` emits for a node: a `FILB` for a character, a `FILD` for a short, a
`FILL` for an int or a pointer, two `FILL`s for a long, `SPACE n` for `n` zero bytes and a
`FILB` per character of a string. It stops with an error on `unsupportedInit`. -/
def size : StaticInit → Nat
  | charInit _ | ucharInit _ => 1
  | shortInit _ | ushortInit _ => 2
  | intInit _ | uintInit _ | pointerInit _ => 4
  | longInit _ | ulongInit _ => 8
  | stringInit s => s.length
  | zeroInit n => n
  | unsupportedInit _ => 0

/-- The nodes `make_data` emits. -/
def isSupported : StaticInit → Bool
  | unsupportedInit _ => false
  | _ => true

/-- The padding nodes. -/
def isZeroInit : StaticInit → Bool
  | zeroInit _ => true
  | _ => false

end StaticInit

/-- The bytes `make_data` emits for an `InitList`. -/
def initListSize (l : List StaticInit) : Nat := (l.map StaticInit.size).sum

/-- Each node of an `InitList` emitted from byte `offset` on, with the offset it starts at. -/
def placed : Nat → List StaticInit → List (Nat × StaticInit)
  | _, [] => []
  | offset, n :: ns => (offset, n) :: placed (offset + n.size) ns

/-- The nodes that are not padding, with their offsets. -/
def explicitPlaced (offset : Nat) (l : List StaticInit) : List (Nat × StaticInit) :=
  (placed offset l).filter fun p => !p.2.isZeroInit

section Flatten

variable (table : String → Option TypeEntry)

mutual

/-- `is_init_const(type, init)` on the initializer as parsed: the `InitList`, or `none` where it
returns `NULL` or exits. -/
def isInitConst : ObjType → Initializer → Option (List StaticInit)
  | type, .string s =>
    match type with
    | .pointer (.scalar .charType) => some [.pointerInit s]
    | .array size element =>
      if !element.isCharType then none
      -- "string literal initializer too large for array"
      else if s.length > size then none
      else (element.getTypeSize table).map fun elementSize =>
        .stringInit s :: if s.length < size then [.zeroInit ((size - s.length) * elementSize)]
          else []
    | _ => none
  | type, .single e => (evalConst (typecheckExpr e)).map fun v => [getVarInit type v]
  | .array size element, .compound inits => do
    let (flattened, outerCount) ← isInitConstArray element inits
    let elementSize ← element.getTypeSize table
    some (flattened ++
      if outerCount < size then [.zeroInit ((size - outerCount) * elementSize)] else [])
  | .structType name, .compound inits => do
    let entry ← table name
    let (initList, offset) ← isInitConstStruct entry.data.members inits 0
    let structSize ← (ObjType.structType name).getTypeSize table
    some (initList ++ if offset < structSize then [.zeroInit (structSize - offset)] else [])
  | .unionType name, .compound inits => do
    let entry ← table name
    -- "empty initializer" and "too many initializers for union type"
    match inits with
    | [init] => do
      let first ← entry.data.members.head?
      let unionInit ← isInitConst first.type init
      let unionSize ← (ObjType.unionType name).getTypeSize table
      let initSize ← first.type.getTypeSize table
      some (unionInit ++ if initSize < unionSize then [.zeroInit (unionSize - initSize)] else [])
    | _ => none
  | _, .compound _ => none

/-- The element loop of `is_init_const` on an array: the flattened elements and their count. -/
def isInitConstArray (element : ObjType) : List Initializer → Option (List StaticInit × Nat)
  | [] => some ([], 0)
  | init :: inits => do
    let innerInit ← isInitConst element init
    let (rest, outerCount) ← isInitConstArray element inits
    some (innerInit ++ rest, outerCount + 1)

/-- The member loop of `is_init_const` on a struct from the running `offset`: the nodes and the
offset past the last initialized member. -/
def isInitConstStruct : List MemberEntry → List Initializer → Nat →
    Option (List StaticInit × Nat)
  | member :: members, init :: inits, offset => do
    -- the code flattens each member twice and keeps the second list
    let _memberInit ← isInitConst member.type init
    let pad := if member.offset > offset then [StaticInit.zeroInit (member.offset - offset)]
      else []
    let offset := if member.offset > offset then member.offset else offset
    let moreInits ← isInitConst member.type init
    let size ← member.type.getTypeSize table
    let (rest, offset') ← isInitConstStruct members inits (offset + size)
    some (pad ++ moreInits ++ rest, offset')
  | _, [], offset => some ([], offset)
  -- "too many initializers for struct type"
  | [], _ :: _, _ => none

end

mutual

/-- `typecheck_init(init, type)`: a string literal fills a character array no shorter than it,
or is assigned as a `char *`; an expression is assigned by `convert_by_assignment`; a braced
list has no more elements than an array or members than a struct, and one for a union. -/
def typecheckInit : ObjType → Initializer → Bool
  | .array size element, .string s => element.isCharType && decide (s.length ≤ size)
  | type, .string _ => type == .pointer (.scalar .charType) || type.isVoidPointerType
  | type, .single e => type.isArithmeticType || (type.isPointerType && e.isNullPointerConstant)
  | .array size element, .compound inits =>
    typecheckArrayInit element inits && decide (inits.length ≤ size)
  | .structType name, .compound inits =>
    match table name with
    | some entry => typecheckStructInit entry.data.members inits
    | none => false
  | .unionType name, .compound inits =>
    match inits, table name with
    | init :: rest, some entry =>
      match entry.data.members with
      | first :: _ => typecheckInit first.type init && rest.isEmpty
      | [] => false
    | _, _ => false
  | _, .compound _ => false

/-- The element loop of `typecheck_array_init`. -/
def typecheckArrayInit (element : ObjType) : List Initializer → Bool
  | [] => true
  | init :: inits => typecheckInit element init && typecheckArrayInit element inits

/-- The member loop of `typecheck_struct_init`. -/
def typecheckStructInit : List MemberEntry → List Initializer → Bool
  | member :: members, init :: inits =>
    typecheckInit member.type init && typecheckStructInit members inits
  | _, [] => true
  | [], _ :: _ => false

end

end Flatten

/-! ### The layout an initializer should have -/

/-- The node of one explicit initializer: a scalar as `eval_const` folds it, or a string
literal, stored in place in an array and pointed to otherwise. -/
def leafInit (type : ObjType) : Initializer → Option StaticInit
  | .single e => (evalConst (typecheckExpr e)).map (getVarInit type)
  | .string s => some (if type.isPointerType then .pointerInit s else .stringInit s)
  | .compound _ => none

section Subobjects

variable (table : String → Option TypeEntry)

mutual

/-- The explicit initializers in `init` for an object of type `type` at byte `base`, each at the
offset of the sub-object it initializes: element `i` of an array at `i` times the element size,
a struct member at its offset in the entry, and the first member of a union at `0`. -/
def subobjectInits : ObjType → Initializer → Nat → List (Nat × StaticInit)
  | type, .single e, base => ((leafInit type (.single e)).map (base, ·)).toList
  | type, .string s, base => ((leafInit type (.string s)).map (base, ·)).toList
  | .array _ element, .compound inits, base =>
    subobjectInitsArray element ((element.getTypeSize table).getD 0) inits base 0
  | .structType name, .compound inits, base =>
    match table name with
    | some entry => subobjectInitsStruct entry.data.members inits base
    | none => []
  | .unionType name, .compound inits, base =>
    match inits, table name with
    | init :: _, some entry =>
      match entry.data.members with
      | first :: _ => subobjectInits first.type init base
      | [] => []
    | _, _ => []
  | _, .compound _, _ => []

/-- The elements from index `index` on, of `elementSize` bytes each. -/
def subobjectInitsArray (element : ObjType) (elementSize : Nat) :
    List Initializer → Nat → Nat → List (Nat × StaticInit)
  | [], _, _ => []
  | init :: inits, base, index =>
    subobjectInits element init (base + index * elementSize) ++
      subobjectInitsArray element elementSize inits base (index + 1)

/-- The members, each at its offset from `base`. -/
def subobjectInitsStruct : List MemberEntry → List Initializer → Nat → List (Nat × StaticInit)
  | member :: members, init :: inits, base =>
    subobjectInits member.type init (base + member.offset) ++
      subobjectInitsStruct members inits base
  | _, _, _ => []

end

/-- A complete object type: `is_complete_type`, with each struct tag naming a struct entry and
each union tag a union entry, as identifier resolution ensures. -/
def ObjType.complete : ObjType → Bool
  | .voidType => false
  | .array _ element => element.complete
  | .structType name => (table name).any (·.type == .structEntry)
  | .unionType name => (table name).any (·.type == .unionEntry)
  | _ => true

/-- An entry is what `typecheck_struct` or `typecheck_union` builds from members of complete
type. -/
def TypeEntry.LaidOut (e : TypeEntry) : Prop :=
  ∃ members : List MemberDclr, (∀ m ∈ members, m.type.complete table) ∧
    match e.type with
    | .structEntry => structLayout table members = some e.data
    | .unionEntry => unionLayout table members = some e.data

/-- Every entry of the type table is laid out by the typechecker. -/
def TypeTableOk : Prop := ∀ name e, table name = some e → e.LaidOut table

end Subobjects

/-! ### Struct layout -/

theorem le_alignUp (offset alignment : Nat) : offset ≤ alignUp offset alignment := by
  unfold alignUp
  split <;> omega

theorem dvd_alignUp {alignment : Nat} (h : 0 < alignment) (offset : Nat) :
    alignment ∣ alignUp offset alignment := by
  unfold alignUp
  split
  · -- the next multiple up is `alignment * (offset / alignment + 1)`
    have h1 := Nat.mod_add_div offset alignment
    have h2 := Nat.mod_lt offset h
    exact ⟨offset / alignment + 1, by rw [Nat.mul_add, Nat.mul_one]; omega⟩
  · exact Nat.dvd_of_mod_eq_zero (by omega)

section LayoutFacts

variable {table : String → Option TypeEntry}

/-- Where a member ends. -/
def MemberEntry.endOffset (table : String → Option TypeEntry) (m : MemberEntry) : Nat :=
  m.offset + (m.type.getTypeSize table).getD 0

variable (table) in
/-- The members lie in order from byte `offset` on: each starts no earlier than the one before
it ends and has a size, and the last ends by `limit`. -/
def MembersFrom : Nat → List MemberEntry → Nat → Prop
  | offset, [], limit => offset ≤ limit
  | offset, member :: members, limit => offset ≤ member.offset ∧
    ∃ size, member.type.getTypeSize table = some size ∧
      MembersFrom (member.offset + size) members limit

theorem MembersFrom.le {offset limit : Nat} {members : List MemberEntry}
    (h : MembersFrom table offset members limit) : offset ≤ limit := by
  induction members generalizing offset with
  | nil => exact h
  | cons m ms ih =>
    obtain ⟨hle, size, -, hrest⟩ := h
    have := ih hrest
    omega

/-- Every member starts after `offset` and ends by `limit`. -/
theorem MembersFrom.bounds {offset limit : Nat} {members : List MemberEntry}
    (h : MembersFrom table offset members limit) :
    ∀ m ∈ members, offset ≤ m.offset ∧ m.endOffset table ≤ limit ∧
      (m.type.getTypeSize table).isSome := by
  induction members generalizing offset with
  | nil => simp
  | cons m ms ih =>
    obtain ⟨hle, size, hsize, hrest⟩ := h
    intro x hx
    rcases List.mem_cons.mp hx with rfl | hx
    · have := hrest.le
      simp only [MemberEntry.endOffset, hsize, Option.getD_some, Option.isSome_some, and_true]
      omega
    · obtain ⟨h1, h2, h3⟩ := ih hrest x hx
      exact ⟨by omega, h2, h3⟩

/-- The members do not overlap: each ends before the next one starts. -/
theorem MembersFrom.pairwise {offset limit : Nat} {members : List MemberEntry}
    (h : MembersFrom table offset members limit) :
    members.Pairwise fun m m' => m.endOffset table ≤ m'.offset := by
  induction members generalizing offset with
  | nil => exact List.Pairwise.nil
  | cons m ms ih =>
    obtain ⟨-, size, hsize, hrest⟩ := h
    refine List.Pairwise.cons (fun x hx => ?_) (ih hrest)
    have := (hrest.bounds x hx).1
    simpa [MemberEntry.endOffset, hsize] using this

theorem MembersFrom.mono {offset limit limit' : Nat} {members : List MemberEntry}
    (h : MembersFrom table offset members limit) (hl : limit ≤ limit') :
    MembersFrom table offset members limit' := by
  induction members generalizing offset with
  | nil => exact le_trans h hl
  | cons m ms ih =>
    obtain ⟨hle, size, hsize, hrest⟩ := h
    exact ⟨hle, size, hsize, ih hrest⟩

section Loops

variable {members : List MemberDclr} {entries : List MemberEntry} {offset alignment offset'
  alignment' : Nat}

theorem structLayoutLoop_types
    (h : structLayoutLoop table members offset alignment = some (entries, offset', alignment')) :
    entries.map MemberEntry.type = members.map MemberDclr.type := by
  induction members generalizing offset alignment entries with
  | nil =>
    simp only [structLayoutLoop, Option.some.injEq, Prod.mk.injEq] at h
    rw [← h.1]
    rfl
  | cons m ms ih =>
    simp only [structLayoutLoop, Option.bind_eq_bind, Option.bind_eq_some_iff,
      Option.some.injEq] at h
    obtain ⟨a, -, size, -, ⟨entries', offset'', alignment''⟩, hrest, heq⟩ := h
    simp only [Prod.mk.injEq] at heq
    obtain ⟨rfl, rfl, rfl⟩ := heq
    rw [List.map_cons, List.map_cons, ih hrest]

theorem structLayoutLoop_alignment_le
    (h : structLayoutLoop table members offset alignment = some (entries, offset', alignment')) :
    alignment ≤ alignment' := by
  induction members generalizing offset alignment entries with
  | nil =>
    simp only [structLayoutLoop, Option.some.injEq, Prod.mk.injEq] at h
    omega
  | cons m ms ih =>
    simp only [structLayoutLoop, Option.bind_eq_bind, Option.bind_eq_some_iff,
      Option.some.injEq] at h
    obtain ⟨a, -, size, -, ⟨entries', offset'', alignment''⟩, hrest, heq⟩ := h
    simp only [Prod.mk.injEq] at heq
    obtain ⟨-, rfl, rfl⟩ := heq
    have := ih hrest
    omega

/-- The loop of `typecheck_union` puts every member at `0`, within the final size. -/
theorem unionLayoutLoop_spec
    (h : unionLayoutLoop table members offset alignment = some (entries, offset', alignment')) :
    entries.map MemberEntry.type = members.map MemberDclr.type ∧ offset ≤ offset' ∧
      alignment ≤ alignment' ∧ ∀ m ∈ entries, m.offset = 0 ∧
        ∃ size, m.type.getTypeSize table = some size ∧ size ≤ offset' := by
  induction members generalizing offset alignment entries with
  | nil =>
    simp only [unionLayoutLoop, Option.some.injEq, Prod.mk.injEq] at h
    obtain ⟨rfl, rfl, rfl⟩ := h
    simp
  | cons m ms ih =>
    simp only [unionLayoutLoop, Option.bind_eq_bind, Option.bind_eq_some_iff,
      Option.some.injEq] at h
    obtain ⟨a, -, size, hsize, ⟨entries', offset'', alignment''⟩, hrest, heq⟩ := h
    simp only [Prod.mk.injEq] at heq
    obtain ⟨rfl, rfl, rfl⟩ := heq
    obtain ⟨htypes, hsize_le, halign_le, hall⟩ := ih hrest
    refine ⟨by rw [List.map_cons, List.map_cons, htypes], by omega, by omega, ?_⟩
    intro x hx
    rcases List.mem_cons.mp hx with rfl | hx
    · exact ⟨rfl, size, hsize, by omega⟩
    · exact hall x hx

end Loops

/-- The loop of `typecheck_struct` lays its entries out in order from `offset`, each at a
multiple of its alignment, which the final alignment bounds. -/
theorem structLayoutLoop_spec {members : List MemberDclr} {offset alignment offset' alignment' : Nat}
    {entries : List MemberEntry}
    (halign : ∀ m ∈ members, ∀ a, m.type.getTypeAlignment table = some a → 0 < a)
    (h : structLayoutLoop table members offset alignment = some (entries, offset', alignment')) :
    MembersFrom table offset entries offset' ∧ alignment ≤ alignment' ∧
      ∀ m ∈ entries, ∃ a, m.type.getTypeAlignment table = some a ∧ a ∣ m.offset ∧
        a ≤ alignment' := by
  induction members generalizing offset alignment entries with
  | nil =>
    simp only [structLayoutLoop, Option.some.injEq, Prod.mk.injEq] at h
    obtain ⟨rfl, rfl, rfl⟩ := h
    exact ⟨le_refl _, le_refl _, by simp⟩
  | cons m ms ih =>
    simp only [structLayoutLoop, Option.bind_eq_bind, Option.bind_eq_some_iff,
      Option.some.injEq] at h
    obtain ⟨a, ha, size, hsize, ⟨entries', offset'', alignment''⟩, hrest, heq⟩ := h
    simp only [Prod.mk.injEq] at heq
    obtain ⟨rfl, rfl, rfl⟩ := heq
    have hpos := halign m List.mem_cons_self a ha
    obtain ⟨hfrom, hle, hall⟩ := ih (fun x hx => halign x (List.mem_cons_of_mem m hx)) hrest
    refine ⟨⟨le_alignUp offset a, size, hsize, hfrom⟩, by omega, ?_⟩
    intro x hx
    rcases List.mem_cons.mp hx with rfl | hx
    · exact ⟨a, ha, dvd_alignUp hpos offset, by omega⟩
    · exact hall x hx

theorem alignmentOfSize_pos {size a : Nat} (h : ObjType.alignmentOfSize size = some a) : 0 < a := by
  unfold ObjType.alignmentOfSize at h
  split_ifs at h with h4 h30
  · cases h
    decide
  · cases h
    omega

/-- A struct entry: its members lie in order within its size, which its alignment divides. -/
theorem structLayout_membersFrom {members : List MemberDclr} {e : StructEntry}
    (halign : ∀ m ∈ members, ∀ a, m.type.getTypeAlignment table = some a → 0 < a)
    (h : structLayout table members = some e) :
    MembersFrom table 0 e.members e.size ∧ e.alignment ∣ e.size ∧
      e.members.map MemberEntry.type = members.map MemberDclr.type ∧
      ∀ m ∈ e.members, ∃ a, m.type.getTypeAlignment table = some a ∧ a ∣ m.offset := by
  simp only [structLayout, Option.bind_eq_bind, Option.bind_eq_some_iff] at h
  obtain ⟨⟨entries, offset, alignment⟩, hloop, heq⟩ := h
  rw [← Option.some.inj heq]
  obtain ⟨hfrom, hle, hall⟩ := structLayoutLoop_spec halign hloop
  have hpos : 0 < alignment := by omega
  refine ⟨hfrom.mono (le_alignUp offset alignment), dvd_alignUp hpos offset,
    structLayoutLoop_types hloop, fun m hm => ?_⟩
  obtain ⟨a, ha, hdvd, -⟩ := hall m hm
  exact ⟨a, ha, hdvd⟩

/-- A union entry: every member at `0`, within its size. -/
theorem unionLayout_spec {members : List MemberDclr} {e : StructEntry}
    (h : unionLayout table members = some e) :
    0 < e.alignment ∧ e.members.map MemberEntry.type = members.map MemberDclr.type ∧
      ∀ m ∈ e.members, m.offset = 0 ∧ ∃ size, m.type.getTypeSize table = some size ∧
        size ≤ e.size := by
  simp only [unionLayout, Option.bind_eq_bind, Option.bind_eq_some_iff] at h
  obtain ⟨⟨entries, size, alignment⟩, hloop, heq⟩ := h
  rw [← Option.some.inj heq]
  obtain ⟨htypes, -, hle, hall⟩ := unionLayoutLoop_spec hloop
  refine ⟨by dsimp only; omega, htypes, fun m hm => ?_⟩
  obtain ⟨h0, s, hs, hsle⟩ := hall m hm
  exact ⟨h0, s, hs, le_trans hsle (le_alignUp size alignment)⟩

theorem TypeEntry.LaidOut.alignment_pos {e : TypeEntry} (h : e.LaidOut table) :
    0 < e.data.alignment := by
  obtain ⟨members, -, hlay⟩ := h
  cases ht : e.type <;> rw [ht] at hlay
  · simp only [structLayout, Option.bind_eq_bind, Option.bind_eq_some_iff] at hlay
    obtain ⟨⟨entries, offset, alignment⟩, hloop, heq⟩ := hlay
    rw [← Option.some.inj heq]
    have := structLayoutLoop_alignment_le hloop
    dsimp only
    omega
  · exact (unionLayout_spec hlay).1

/-- In a laid-out table every alignment is positive. -/
theorem getTypeAlignment_pos (htable : TypeTableOk table) :
    ∀ (type : ObjType) {a : Nat}, type.getTypeAlignment table = some a → 0 < a
  | .scalar _, _, h => alignmentOfSize_pos h
  | .pointer _, _, h => alignmentOfSize_pos h
  | .enumType, _, h => by
    cases h
    decide
  | .voidType, _, h => by cases h
  | .array _ element, _, h => getTypeAlignment_pos htable element h
  | .structType name, _, h => by
    obtain ⟨e, he, rfl⟩ := Option.map_eq_some_iff.mp h
    exact (htable name e he).alignment_pos
  | .unionType name, _, h => by
    obtain ⟨e, he, rfl⟩ := Option.map_eq_some_iff.mp h
    exact (htable name e he).alignment_pos

end LayoutFacts

/-! ### Emitted bytes -/

section Emitted

variable {offset : Nat} {n : StaticInit} {l l₁ l₂ : List StaticInit}

@[simp] theorem initListSize_nil : initListSize [] = 0 := rfl

@[simp] theorem initListSize_cons : initListSize (n :: l) = n.size + initListSize l := by
  simp [initListSize]

@[simp] theorem initListSize_append :
    initListSize (l₁ ++ l₂) = initListSize l₁ + initListSize l₂ := by
  simp [initListSize]

/-- A node of a list takes no more bytes than the whole list. -/
theorem size_le_initListSize (h : n ∈ l) : n.size ≤ initListSize l :=
  List.le_sum_of_mem (List.mem_map_of_mem h)

theorem placed_append (offset : Nat) (l₁ l₂ : List StaticInit) :
    placed offset (l₁ ++ l₂) = placed offset l₁ ++ placed (offset + initListSize l₁) l₂ := by
  induction l₁ generalizing offset with
  | nil => rfl
  | cons n ns ih =>
    rw [List.cons_append, placed, placed, ih, initListSize_cons, Nat.add_assoc]
    rfl

@[simp] theorem explicitPlaced_nil : explicitPlaced offset [] = [] := rfl

@[simp] theorem explicitPlaced_cons :
    explicitPlaced offset (n :: l) =
      (if n.isZeroInit then [] else [(offset, n)]) ++ explicitPlaced (offset + n.size) l := by
  cases h : n.isZeroInit <;> simp [explicitPlaced, placed, h]

@[simp] theorem explicitPlaced_append :
    explicitPlaced offset (l₁ ++ l₂) =
      explicitPlaced offset l₁ ++ explicitPlaced (offset + initListSize l₁) l₂ := by
  simp [explicitPlaced, placed_append]

/-- Padding holds no explicit initializer. -/
@[simp] theorem explicitPlaced_pad (c : Prop) [Decidable c] (k : Nat) :
    explicitPlaced offset (if c then [.zeroInit k] else []) = [] := by
  split <;> simp [StaticInit.isZeroInit]

end Emitted

/-! ### The flattening lays an initializer out -/

/-- What `is_init_const` should give for an object of type `type`: nodes that `make_data`
emits, covering the object exactly, with the explicit initializers at the sub-objects they
initialize and zero bytes everywhere else. -/
structure LayoutOk (table : String → Option TypeEntry) (type : ObjType) (init : Initializer)
    (l : List StaticInit) : Prop where
  supported : ∀ n ∈ l, n.isSupported
  size_eq : type.getTypeSize table = some (initListSize l)
  placed_eq : ∀ base, explicitPlaced base l = subobjectInits table type init base

section Leaves

variable {table : String → Option TypeEntry}

/-- A scalar initializer of an arithmetic or pointer type is one node of the type's size. -/
theorem getVarInit_spec {type : ObjType} (h : (type.isArithmeticType || type.isPointerType) = true)
    (v : Nat) :
    (getVarInit type v).isSupported ∧ (getVarInit type v).isZeroInit = false ∧
      type.getTypeSize table = some (getVarInit type v).size := by
  cases type with
  | scalar t => cases t <;> exact ⟨rfl, rfl, rfl⟩
  | enumType => exact ⟨rfl, rfl, rfl⟩
  | pointer _ => exact ⟨rfl, rfl, rfl⟩
  | _ => simp [ObjType.isArithmeticType, ObjType.isPointerType] at h

theorem getTypeSize_of_isCharType {type : ObjType} (h : type.isCharType = true) :
    type.getTypeSize table = some 1 := by
  cases type with
  | scalar t => cases t <;> first | rfl | simp [ObjType.isCharType, TypeType.isCharType] at h
  | _ => simp [ObjType.isCharType] at h

theorem layoutOk_single {type : ObjType} {e : Expr} {l : List StaticInit}
    (ht : typecheckInit table type (.single e) = true)
    (h : isInitConst table type (.single e) = some l) : LayoutOk table type (.single e) l := by
  have htype : (type.isArithmeticType || type.isPointerType) = true := by
    simp only [typecheckInit, Bool.or_eq_true, Bool.and_eq_true] at ht
    rcases ht with ht | ⟨ht, -⟩ <;> simp [ht]
  simp only [isInitConst] at h
  obtain ⟨v, hv, rfl⟩ := Option.map_eq_some_iff.mp h
  obtain ⟨hsup, hzero, hsize⟩ : _ ∧ _ ∧ type.getTypeSize table = some (getVarInit type v).size :=
    getVarInit_spec htype v
  refine ⟨by simpa using hsup, by simpa using hsize, fun base => ?_⟩
  simp [subobjectInits, leafInit, hv, hzero]

theorem layoutOk_string {type : ObjType} {s : List Nat} {l : List StaticInit}
    (ht : typecheckInit table type (.string s) = true)
    (h : isInitConst table type (.string s) = some l) : LayoutOk table type (.string s) l := by
  simp only [isInitConst] at h
  split at h
  · -- a `char *`: four bytes that point to a new constant
    cases h
    exact ⟨by simp [StaticInit.isSupported], rfl, fun base => rfl⟩
  · -- a character array no shorter than the literal, padded with zeros
    rename_i size element
    simp only [typecheckInit, Bool.and_eq_true, decide_eq_true_eq] at ht
    obtain ⟨hchar, hlen⟩ := ht
    simp only [hchar, Bool.not_true, Bool.false_eq_true, if_false, gt_iff_lt,
      Nat.not_lt.mpr hlen, getTypeSize_of_isCharType hchar, Option.map_some,
      Option.some.injEq] at h
    subst h
    refine ⟨?_, ?_, fun base => ?_⟩
    · intro n hn
      simp only [List.mem_cons] at hn
      rcases hn with rfl | hn
      · rfl
      · split at hn <;> simp_all [StaticInit.isSupported]
    · simp only [ObjType.getTypeSize, getTypeSize_of_isCharType hchar, Option.map_some,
        initListSize_cons, StaticInit.size, Option.some.injEq]
      split <;> simp [StaticInit.size] <;> omega
    · simp [subobjectInits, leafInit, ObjType.isPointerType, StaticInit.isZeroInit]
  · cases h

end Leaves

/-- What the element loop should give from index `index` on: `count` elements of `elementSize`
bytes each, every explicit initializer at its element. -/
structure ArrayInitsOk (table : String → Option TypeEntry) (element : ObjType)
    (elementSize : Nat) (inits : List Initializer) (l : List StaticInit) (count : Nat) : Prop where
  count_eq : count = inits.length
  supported : ∀ n ∈ l, n.isSupported
  size_eq : initListSize l = count * elementSize
  placed_eq : ∀ base index, explicitPlaced (base + index * elementSize) l =
    subobjectInitsArray table element elementSize inits base index

/-- What the member loop should give from the running `offset`, for members that lie in order
within `limit`: the bytes up to the end of the last initialized member, every explicit
initializer at its member. -/
structure StructInitsOk (table : String → Option TypeEntry) (members : List MemberEntry)
    (inits : List Initializer) (offset limit : Nat) (l : List StaticInit) (offset' : Nat) :
    Prop where
  supported : ∀ n ∈ l, n.isSupported
  size_eq : offset + initListSize l = offset'
  le_limit : offset' ≤ limit
  placed_eq : ∀ base, explicitPlaced (base + offset) l = subobjectInitsStruct table members inits base

section Aggregates

variable {table : String → Option TypeEntry}

/-! #### What each case of the flattening computes -/

theorem isInitConst_array_eq_some {size : Nat} {element : ObjType} {inits : List Initializer}
    {l : List StaticInit} (h : isInitConst table (.array size element) (.compound inits) = some l) :
    ∃ flattened outerCount elementSize,
      isInitConstArray table element inits = some (flattened, outerCount) ∧
      element.getTypeSize table = some elementSize ∧
      l = flattened ++ if outerCount < size then [.zeroInit ((size - outerCount) * elementSize)]
        else [] := by
  simp only [isInitConst, Option.bind_eq_bind, Option.bind_eq_some_iff, Option.some.injEq] at h
  obtain ⟨⟨flattened, outerCount⟩, hflat, elementSize, hsize, rfl⟩ := h
  exact ⟨flattened, outerCount, elementSize, hflat, hsize, rfl⟩

theorem isInitConst_struct_eq_some {name : String} {inits : List Initializer}
    {l : List StaticInit} (h : isInitConst table (.structType name) (.compound inits) = some l) :
    ∃ entry initList offset, table name = some entry ∧
      isInitConstStruct table entry.data.members inits 0 = some (initList, offset) ∧
      l = initList ++ if offset < entry.data.size then [.zeroInit (entry.data.size - offset)]
        else [] := by
  simp only [isInitConst, ObjType.getTypeSize, Option.bind_eq_bind, Option.bind_eq_some_iff,
    Option.map_eq_some_iff, Option.some.injEq] at h
  obtain ⟨entry, hentry, ⟨initList, offset⟩, hloop, structSize, ⟨entry', hentry', rfl⟩, rfl⟩ := h
  rw [hentry, Option.some.injEq] at hentry'
  subst hentry'
  exact ⟨entry, initList, offset, hentry, hloop, rfl⟩

theorem isInitConst_union_eq_some {name : String} {init : Initializer} {l : List StaticInit}
    (h : isInitConst table (.unionType name) (.compound [init]) = some l) :
    ∃ entry first unionInit initSize, table name = some entry ∧
      entry.data.members.head? = some first ∧ isInitConst table first.type init = some unionInit ∧
      first.type.getTypeSize table = some initSize ∧
      l = unionInit ++ if initSize < entry.data.size then [.zeroInit (entry.data.size - initSize)]
        else [] := by
  simp only [isInitConst, ObjType.getTypeSize, Option.bind_eq_bind, Option.bind_eq_some_iff,
    Option.map_eq_some_iff, Option.some.injEq] at h
  obtain ⟨entry, hentry, first, hfirst, unionInit, hinit, unionSize, ⟨entry', hentry', rfl⟩,
    initSize, hsize, rfl⟩ := h
  rw [hentry, Option.some.injEq] at hentry'
  subst hentry'
  exact ⟨entry, first, unionInit, initSize, hentry, hfirst, hinit, hsize, rfl⟩

theorem isInitConstArray_cons_eq_some {element : ObjType} {init : Initializer}
    {inits : List Initializer} {l : List StaticInit} {count : Nat}
    (h : isInitConstArray table element (init :: inits) = some (l, count)) :
    ∃ innerInit rest outerCount, isInitConst table element init = some innerInit ∧
      isInitConstArray table element inits = some (rest, outerCount) ∧
      l = innerInit ++ rest ∧ count = outerCount + 1 := by
  simp only [isInitConstArray, Option.bind_eq_bind, Option.bind_eq_some_iff,
    Option.some.injEq, Prod.mk.injEq] at h
  obtain ⟨innerInit, hinner, ⟨rest, outerCount⟩, hrest, rfl, rfl⟩ := h
  exact ⟨innerInit, rest, outerCount, hinner, hrest, rfl, rfl⟩

theorem isInitConstStruct_cons_eq_some {member : MemberEntry} {members : List MemberEntry}
    {init : Initializer} {inits : List Initializer} {offset offset' : Nat} {l : List StaticInit}
    (h : isInitConstStruct table (member :: members) (init :: inits) offset = some (l, offset')) :
    ∃ moreInits size rest, isInitConst table member.type init = some moreInits ∧
      member.type.getTypeSize table = some size ∧
      isInitConstStruct table members inits
        ((if member.offset > offset then member.offset else offset) + size) = some (rest, offset') ∧
      l = (if member.offset > offset then [.zeroInit (member.offset - offset)] else []) ++
        moreInits ++ rest := by
  simp only [isInitConstStruct, Option.bind_eq_bind, Option.bind_eq_some_iff,
    Option.some.injEq, Prod.mk.injEq] at h
  obtain ⟨-, -, moreInits, hmore, size, hsize, ⟨rest, offset''⟩, hrest, rfl, rfl⟩ := h
  exact ⟨moreInits, size, rest, hmore, hsize, hrest, rfl⟩

/-! #### What the table says about a complete struct or union type -/

theorem complete_of_types_eq {members : List MemberEntry} {dclrs : List MemberDclr}
    (hc : ∀ d ∈ dclrs, d.type.complete table)
    (htypes : members.map MemberEntry.type = dclrs.map MemberDclr.type) :
    ∀ m ∈ members, m.type.complete table := by
  intro m hm
  have : m.type ∈ dclrs.map MemberDclr.type := htypes ▸ List.mem_map_of_mem hm
  obtain ⟨d, hd, hdm⟩ := List.mem_map.mp this
  exact hdm ▸ hc d hd

theorem TypeTableOk.struct_entry (htable : TypeTableOk table) {name : String}
    (hc : (ObjType.structType name).complete table) {entry : TypeEntry}
    (hentry : table name = some entry) :
    MembersFrom table 0 entry.data.members entry.data.size ∧
      ∀ m ∈ entry.data.members, m.type.complete table := by
  simp only [ObjType.complete, hentry, Option.any_some, beq_iff_eq] at hc
  obtain ⟨dclrs, hdclrs, hlay⟩ := htable name entry hentry
  rw [hc] at hlay
  obtain ⟨hfrom, -, htypes, -⟩ := structLayout_membersFrom
    (fun m _ _ ha => getTypeAlignment_pos htable m.type ha) hlay
  exact ⟨hfrom, complete_of_types_eq hdclrs htypes⟩

theorem TypeTableOk.union_entry (htable : TypeTableOk table) {name : String}
    (hc : (ObjType.unionType name).complete table) {entry : TypeEntry}
    (hentry : table name = some entry) :
    ∀ m ∈ entry.data.members, m.offset = 0 ∧ m.type.complete table ∧
      ∃ size, m.type.getTypeSize table = some size ∧ size ≤ entry.data.size := by
  simp only [ObjType.complete, hentry, Option.any_some, beq_iff_eq] at hc
  obtain ⟨dclrs, hdclrs, hlay⟩ := htable name entry hentry
  rw [hc] at hlay
  obtain ⟨-, htypes, hall⟩ := unionLayout_spec hlay
  intro m hm
  obtain ⟨h0, hsize⟩ := hall m hm
  exact ⟨h0, complete_of_types_eq hdclrs htypes m hm, hsize⟩

/-! #### Padding -/

section Padding

variable {l : List StaticInit} {c : Prop} [Decidable c] {k : Nat}

theorem supported_append_pad (h : ∀ n ∈ l, n.isSupported) :
    ∀ n ∈ l ++ (if c then [.zeroInit k] else []), n.isSupported := by
  intro n hn
  rcases List.mem_append.mp hn with hn | hn
  · exact h n hn
  · split at hn
    · rw [List.mem_singleton.mp hn]
      rfl
    · cases hn

/-- Padding from the end of `l` up to `size`. -/
theorem initListSize_padTo (l : List StaticInit) (size : Nat) (hle : initListSize l ≤ size) :
    initListSize (l ++ if initListSize l < size then [.zeroInit (size - initListSize l)] else []) =
      size := by
  split <;> simp [StaticInit.size] <;> omega

end Padding

/-! #### One case of the flattening at a time -/

theorem layoutOk_array {size : Nat} {element : ObjType} {inits : List Initializer}
    {l : List StaticInit} (ht : typecheckInit table (.array size element) (.compound inits) = true)
    (h : isInitConst table (.array size element) (.compound inits) = some l)
    (ih : ∀ {elementSize l count}, element.getTypeSize table = some elementSize →
      typecheckArrayInit table element inits = true →
      isInitConstArray table element inits = some (l, count) →
      ArrayInitsOk table element elementSize inits l count) :
    LayoutOk table (.array size element) (.compound inits) l := by
  simp only [typecheckInit, Bool.and_eq_true, decide_eq_true_eq] at ht
  obtain ⟨htc, hlen⟩ := ht
  obtain ⟨flattened, outerCount, elementSize, hflat, hsize, rfl⟩ := isInitConst_array_eq_some h
  have hok := ih hsize htc hflat
  have hcount : outerCount ≤ size := hok.count_eq ▸ hlen
  refine ⟨supported_append_pad hok.supported, ?_, fun base => ?_⟩
  · -- the elements and the padding after them fill `size` elements
    simp only [ObjType.getTypeSize, hsize, Option.map_some, initListSize_append, hok.size_eq,
      Option.some.injEq]
    split
    · simp only [initListSize_cons, initListSize_nil, StaticInit.size, Nat.add_zero]
      rw [← Nat.add_mul, Nat.add_sub_cancel' hcount, Nat.mul_comm]
    · rw [initListSize_nil, Nat.add_zero, Nat.le_antisymm hcount (by omega)]
  · rw [explicitPlaced_append, explicitPlaced_pad, List.append_nil]
    simpa [subobjectInits, hsize] using hok.placed_eq base 0

theorem layoutOk_struct (htable : TypeTableOk table) {name : String} {inits : List Initializer}
    {l : List StaticInit} (hc : (ObjType.structType name).complete table)
    (ht : typecheckInit table (.structType name) (.compound inits) = true)
    (h : isInitConst table (.structType name) (.compound inits) = some l)
    (ih : ∀ {members limit l offset'}, MembersFrom table 0 members limit →
      (∀ m ∈ members, m.type.complete table) → typecheckStructInit table members inits = true →
      isInitConstStruct table members inits 0 = some (l, offset') →
      StructInitsOk table members inits 0 limit l offset') :
    LayoutOk table (.structType name) (.compound inits) l := by
  obtain ⟨entry, initList, offset, hentry, hloop, rfl⟩ := isInitConst_struct_eq_some h
  obtain ⟨hfrom, hcomplete⟩ := htable.struct_entry hc hentry
  have htc : typecheckStructInit table entry.data.members inits = true := by
    simpa [typecheckInit, hentry] using ht
  have hok := ih hfrom hcomplete htc hloop
  have hsize : initListSize initList = offset := by simpa using hok.size_eq
  refine ⟨supported_append_pad hok.supported, ?_, fun base => ?_⟩
  · -- the members up to the last initialized one, then padding to the struct's size
    have := initListSize_padTo initList entry.data.size (hsize ▸ hok.le_limit)
    rw [hsize] at this
    simp [ObjType.getTypeSize, hentry, this]
  · rw [explicitPlaced_append, explicitPlaced_pad, List.append_nil]
    simpa [subobjectInits, hentry] using hok.placed_eq base

theorem layoutOk_union (htable : TypeTableOk table) {name : String} {init : Initializer}
    {l : List StaticInit} (hc : (ObjType.unionType name).complete table)
    (ht : typecheckInit table (.unionType name) (.compound [init]) = true)
    (h : isInitConst table (.unionType name) (.compound [init]) = some l)
    (ih : ∀ {type l}, type.complete table → typecheckInit table type init = true →
      isInitConst table type init = some l → LayoutOk table type init l) :
    LayoutOk table (.unionType name) (.compound [init]) l := by
  obtain ⟨entry, first, unionInit, initSize, hentry, hfirst, hinit, hsize, rfl⟩ :=
    isInitConst_union_eq_some h
  obtain ⟨rest, hmembers⟩ : ∃ rest, entry.data.members = first :: rest := by
    cases hm : entry.data.members with
    | nil => rw [hm] at hfirst; cases hfirst
    | cons f r => rw [hm, List.head?_cons, Option.some.injEq] at hfirst; exact ⟨r, by rw [hfirst]⟩
  obtain ⟨-, hfc, size, hsz, hle⟩ :=
    htable.union_entry hc hentry first (hmembers ▸ List.mem_cons_self)
  have htf : typecheckInit table first.type init = true := by
    simpa [typecheckInit, hentry, hmembers] using ht
  have hok := ih hfc htf hinit
  -- the first member fills `initSize` bytes from offset 0
  have hinitSize : initListSize unionInit = initSize := by
    rw [hok.size_eq, Option.some.injEq] at hsize
    exact hsize
  refine ⟨supported_append_pad hok.supported, ?_, fun base => ?_⟩
  · have hle' : initListSize unionInit ≤ entry.data.size := by
      rw [hsz, Option.some.injEq] at hsize
      omega
    have := initListSize_padTo _ entry.data.size hle'
    rw [hinitSize] at this
    simp [ObjType.getTypeSize, hentry, this]
  · rw [explicitPlaced_append, explicitPlaced_pad, List.append_nil, hok.placed_eq base]
    simp [subobjectInits, hentry, hmembers]

/-! #### The loops, one element or member at a time -/

theorem arrayInitsOk_nil {element : ObjType} {elementSize : Nat} {l : List StaticInit}
    {count : Nat} (h : isInitConstArray table element [] = some (l, count)) :
    ArrayInitsOk table element elementSize [] l count := by
  simp only [isInitConstArray, Option.some.injEq, Prod.mk.injEq] at h
  obtain ⟨rfl, rfl⟩ := h
  exact ⟨rfl, by simp, by simp, fun _ _ => rfl⟩

theorem arrayInitsOk_cons {element : ObjType} {elementSize : Nat} {init : Initializer}
    {inits : List Initializer} {l : List StaticInit} {count : Nat}
    (hsize : element.getTypeSize table = some elementSize)
    (h : isInitConstArray table element (init :: inits) = some (l, count))
    (ihead : ∀ {l}, isInitConst table element init = some l → LayoutOk table element init l)
    (irest : ∀ {l count}, isInitConstArray table element inits = some (l, count) →
      ArrayInitsOk table element elementSize inits l count) :
    ArrayInitsOk table element elementSize (init :: inits) l count := by
  obtain ⟨innerInit, rest, outerCount, hinner, hrest, rfl, rfl⟩ := isInitConstArray_cons_eq_some h
  have hhead := ihead hinner
  have hok := irest hrest
  -- the element fills `elementSize` bytes
  have hinnerSize : initListSize innerInit = elementSize := by
    rw [hhead.size_eq, Option.some.injEq] at hsize
    exact hsize
  refine ⟨by rw [hok.count_eq, List.length_cons], fun n hn => ?_, ?_, fun base index => ?_⟩
  · rcases List.mem_append.mp hn with hn | hn
    · exact hhead.supported n hn
    · exact hok.supported n hn
  · rw [initListSize_append, hinnerSize, hok.size_eq, Nat.succ_mul, Nat.add_comm]
  · have hnext : base + index * elementSize + elementSize = base + (index + 1) * elementSize := by
      rw [Nat.succ_mul, Nat.add_assoc]
    rw [explicitPlaced_append, hhead.placed_eq, hinnerSize, hnext, hok.placed_eq,
      subobjectInitsArray]

theorem structInitsOk_nil {members : List MemberEntry} {offset limit offset' : Nat}
    {l : List StaticInit} (hfrom : MembersFrom table offset members limit)
    (h : isInitConstStruct table members [] offset = some (l, offset')) :
    StructInitsOk table members [] offset limit l offset' := by
  have : l = [] ∧ offset = offset' := by
    cases members <;> simpa [isInitConstStruct] using h
  obtain ⟨rfl, rfl⟩ := this
  refine ⟨by simp, by simp, hfrom.le, fun _ => ?_⟩
  cases members <;> rfl

theorem structInitsOk_cons {member : MemberEntry} {members : List MemberEntry}
    {init : Initializer} {inits : List Initializer} {offset limit offset' : Nat}
    {l : List StaticInit} (hfrom : MembersFrom table offset (member :: members) limit)
    (h : isInitConstStruct table (member :: members) (init :: inits) offset = some (l, offset'))
    (ihead : ∀ {l}, isInitConst table member.type init = some l →
      LayoutOk table member.type init l)
    (irest : ∀ {offset l offset'}, MembersFrom table offset members limit →
      isInitConstStruct table members inits offset = some (l, offset') →
      StructInitsOk table members inits offset limit l offset') :
    StructInitsOk table (member :: members) (init :: inits) offset limit l offset' := by
  obtain ⟨hle, size, hsize, hrest⟩ := hfrom
  obtain ⟨moreInits, size', rest, hmore, hsize', hloop, rfl⟩ := isInitConstStruct_cons_eq_some h
  have hsame : size = size' := by
    rw [hsize] at hsize'
    exact Option.some.inj hsize'
  subst hsame
  -- the running offset has not passed the member, so the padding takes it to the member
  have hstart : (if member.offset > offset then member.offset else offset) = member.offset := by
    split <;> omega
  have hpad : initListSize (if member.offset > offset then [.zeroInit (member.offset - offset)]
      else []) = member.offset - offset := by
    split
    · simp [StaticInit.size]
    · simp only [initListSize_nil]
      omega
  rw [hstart] at hloop
  have hhead := ihead hmore
  have hok := irest hrest hloop
  have hmoreSize : initListSize moreInits = size := by
    rw [hhead.size_eq, Option.some.injEq] at hsize
    exact hsize
  refine ⟨fun n hn => ?_, ?_, hok.le_limit, fun base => ?_⟩
  · rcases List.mem_append.mp hn with hn | hn
    · rcases List.mem_append.mp hn with hn | hn
      · split at hn
        · rw [List.mem_singleton.mp hn]
          rfl
        · cases hn
      · exact hhead.supported n hn
    · exact hok.supported n hn
  · rw [initListSize_append, initListSize_append, hpad, hmoreSize, ← hok.size_eq]
    omega
  · have hat : base + offset + (member.offset - offset) = base + member.offset := by omega
    have hafter : base + offset + (member.offset - offset + size) =
        base + (member.offset + size) := by omega
    rw [explicitPlaced_append, initListSize_append, hpad, hmoreSize, hafter, hok.placed_eq,
      explicitPlaced_append, explicitPlaced_pad, List.nil_append, hpad, hat, hhead.placed_eq,
      subobjectInitsStruct]

end Aggregates

/-! #### The whole flattening -/

section Flattening

variable {table : String → Option TypeEntry}

mutual

/-- `is_init_const` lays out every initializer that `typecheck_init` accepts for a complete
type: by induction on the initializer, through the element and member loops. -/
theorem isInitConst_layoutOk (htable : TypeTableOk table) :
    ∀ (init : Initializer) {type : ObjType} {l : List StaticInit},
    type.complete table = true → typecheckInit table type init = true →
    isInitConst table type init = some l → LayoutOk table type init l
  | .single _, _, _, _, ht, h => layoutOk_single ht h
  | .string _, _, _, _, ht, h => layoutOk_string ht h
  | .compound inits, type, l, hc, ht, h => by
    cases type with
    | array size element =>
      refine layoutOk_array ht h fun hsize htc hflat => ?_
      exact isInitConstArray_layoutOk htable inits hc hsize htc hflat
    | structType name =>
      refine layoutOk_struct htable hc ht h fun hfrom hcomplete htc hloop => ?_
      exact isInitConstStruct_layoutOk htable inits hfrom hcomplete htc hloop
    | unionType name =>
      match inits with
      | [init] =>
        exact layoutOk_union htable hc ht h fun hc' ht' h' =>
          isInitConst_layoutOk htable init hc' ht' h'
      | [] => simp [typecheckInit] at ht
      | _ :: _ :: _ => simp [isInitConst] at h
    | _ => simp [typecheckInit] at ht

/-- The element loop, one element at a time. -/
theorem isInitConstArray_layoutOk (htable : TypeTableOk table) :
    ∀ (inits : List Initializer) {element : ObjType} {elementSize : Nat} {l : List StaticInit}
    {count : Nat}, element.complete table = true →
    element.getTypeSize table = some elementSize → typecheckArrayInit table element inits = true →
    isInitConstArray table element inits = some (l, count) →
    ArrayInitsOk table element elementSize inits l count
  | [], _, _, _, _, _, _, _, h => arrayInitsOk_nil h
  | init :: inits, _, _, _, _, hc, hsize, ht, h => by
    simp only [typecheckArrayInit, Bool.and_eq_true] at ht
    exact arrayInitsOk_cons hsize h (fun h' => isInitConst_layoutOk htable init hc ht.1 h')
      (fun h' => isInitConstArray_layoutOk htable inits hc hsize ht.2 h')

/-- The member loop, one member at a time. -/
theorem isInitConstStruct_layoutOk (htable : TypeTableOk table) :
    ∀ (inits : List Initializer) {members : List MemberEntry} {offset limit : Nat}
    {l : List StaticInit} {offset' : Nat},
    MembersFrom table offset members limit → (∀ m ∈ members, m.type.complete table) →
    typecheckStructInit table members inits = true →
    isInitConstStruct table members inits offset = some (l, offset') →
    StructInitsOk table members inits offset limit l offset'
  | [], _, _, _, _, _, hfrom, _, _, h => structInitsOk_nil hfrom h
  | _ :: _, [], _, _, _, _, _, _, ht, _ => by simp [typecheckStructInit] at ht
  | init :: inits, member :: members, _, _, _, _, hfrom, hc, ht, h => by
    simp only [typecheckStructInit, Bool.and_eq_true] at ht
    have hcm := hc member List.mem_cons_self
    have hcs : ∀ m ∈ members, m.type.complete table := fun m hm =>
      hc m (List.mem_cons_of_mem _ hm)
    exact structInitsOk_cons hfrom h (fun h' => isInitConst_layoutOk htable init hcm ht.1 h')
      (fun hfrom' h' => isInitConstStruct_layoutOk htable inits hfrom' hcs ht.2 h')

end

end Flattening

/-! ### Static objects -/

/-- The layout of static data: `typecheck_struct` puts each member at a multiple of its
alignment, in order and without overlap, inside a size that its alignment divides; and on every
initializer that `typecheck_init` accepts for a complete type, the `InitList` that
`is_init_const` returns is emitted by `make_data` as exactly the object's bytes, with each
explicit initializer at the sub-object it initializes and zeros everywhere else.

Sizes and offsets are a 32-bit `size_t` in the code (`crt/stddef.h`) and numbers here, so the
statement is for a structure, or a type, whose size is below `2 ^ 32`: every member's end, and
the byte count of every node of the list, is then below `2 ^ 32` too. -/
theorem static_init_layout_exact {table : String → Option TypeEntry} (htable : TypeTableOk table) :
    (∀ (members : List MemberDclr) (e : StructEntry), structLayout table members = some e →
      e.size < 2 ^ 32 →
      (∀ m ∈ e.members, ∃ a, m.type.getTypeAlignment table = some a ∧ a ∣ m.offset) ∧
      e.members.Pairwise (fun m m' => m.endOffset table ≤ m'.offset) ∧
      e.alignment ∣ e.size ∧
      ∀ m ∈ e.members, (m.type.getTypeSize table).isSome ∧ m.endOffset table ≤ e.size ∧
        m.endOffset table < 2 ^ 32) ∧
    ∀ (type : ObjType) (init : Initializer) (l : List StaticInit), type.complete table = true →
      typecheckInit table type init = true →
      (∀ size, type.getTypeSize table = some size → size < 2 ^ 32) →
      isInitConst table type init = some l →
      LayoutOk table type init l ∧ ∀ n ∈ l, n.size < 2 ^ 32 := by
  refine ⟨fun members e h hfit => ?_, fun type init l hc ht hfit h => ?_⟩
  · obtain ⟨hfrom, hdvd, -, haligned⟩ :=
      structLayout_membersFrom (fun m _ _ ha => getTypeAlignment_pos htable m.type ha) h
    refine ⟨haligned, hfrom.pairwise, hdvd, fun m hm => ?_⟩
    obtain ⟨-, hend, hsome⟩ := hfrom.bounds m hm
    exact ⟨hsome, hend, lt_of_le_of_lt hend hfit⟩
  · -- the list covers the object's bytes, so each node fits where the object does
    have hl := isInitConst_layoutOk htable init hc ht h
    have hsize := hfit _ hl.size_eq
    exact ⟨hl, fun n hn => lt_of_le_of_lt (size_le_initListSize hn) hsize⟩

/-- The table after `struct S { char c; int x; };`. -/
def charIntTable : String → Option TypeEntry := fun name =>
  if name = "S" then
    some ⟨.structEntry, ⟨4, 8, [⟨"c", .scalar .charType, 0⟩, ⟨"x", .scalar .intType, 4⟩]⟩⟩
  else none

theorem charIntTable_ok : TypeTableOk charIntTable := by
  intro name e h
  unfold charIntTable at h
  split at h
  · cases h
    exact ⟨[⟨"c", .scalar .charType⟩, ⟨"x", .scalar .intType⟩], by decide, by decide⟩
  · cases h

/-- `struct S s = {1};`: the `char`, then seven zero bytes. -/
theorem static_init_layout_char_int :
    TypeTableOk charIntTable ∧
      (∀ size, (ObjType.structType "S").getTypeSize charIntTable = some size → size < 2 ^ 32) ∧
      LayoutOk charIntTable (.structType "S") (.compound [.single (.lit (.intConst 1))])
        [.charInit 1, .zeroInit 7] ∧ ∀ n ∈ [StaticInit.charInit 1, .zeroInit 7], n.size < 2 ^ 32 :=
  have hfit : ∀ size, (ObjType.structType "S").getTypeSize charIntTable = some size →
      size < 2 ^ 32 := fun size h => by
    cases h
    decide
  ⟨charIntTable_ok, hfit, (static_init_layout_exact charIntTable_ok).2 _ _ _ (by decide)
    (by decide) hfit (by decide)⟩

end DioptaseOS.Bcc
