import DioptaseOS.Sys.UserCopy

/-!
# The exec argument vector on the new user stack

`exec_argv_stack_bytes` and `build_exec_argv_on_stack` of `sys.c`. The kernel keeps a
snapshot of the argument strings across `exec`; the second function copies them, the last
first, down from the top of the new stack, each at a word boundary with its NUL, and below
them the array of their addresses, through `copy_to_user`. Each string is the list of its
bytes before the NUL.

The function's contract promises an array "with a trailing NULL entry", and
`exec_argv_stack_bytes` reserves a word for it, but only `argc` pointers are copied: the word
after the array is the first word of the first string.

## Main definitions

* `alignDown`, `alignUp` — `x & ~3` and `(x + 3) & ~3`
* `execArgvStackBytes`, `pushStrings`, `buildExecArgvOnStack` — the functions
* `readWord` — a little-endian word of user memory

## Main results

* `pushStrings_ok` — the last string copied sits at the final cursor
* `buildExecArgv_word_after_array` — on success, the word after the `argc` pointers is the
  first word of the copy of `argv[0]`, not `NULL` when that string is not empty
-/

namespace DioptaseOS.Sys

open DioptaseOS.Vmem

def execMaxArgc : Nat := 64
def execMaxArgBytes : Nat := 256
def initialUserStackSize : Nat := 0x4000

/-! ### Word alignment -/

/-- `x & ~3` on 32 bits: `x` rounded down to a word. -/
def alignDown (x : Nat) : Nat := x % 2 ^ 32 &&& 0xFFFFFFFC

/-- `(x + 3) & ~3` on 32 bits: `x` rounded up to a word. -/
def alignUp (x : Nat) : Nat := alignDown (x + 3)

theorem alignDown_eq {x : Nat} (hx : x < 2 ^ 32) : alignDown x = x / 4 * 4 := by
  unfold alignDown
  rw [Nat.mod_eq_of_lt hx, show (0xFFFFFFFC : Nat) = (2 ^ 30 - 1) <<< 2 by rfl,
    show x / 4 * 4 = (x >>> 2) <<< 2 by simp [Nat.shiftLeft_eq, Nat.shiftRight_eq_div_pow]]
  apply Nat.eq_of_testBit_eq
  intro i
  simp only [Nat.testBit_and, Nat.testBit_shiftLeft, Nat.testBit_shiftRight,
    Nat.testBit_two_pow_sub_one]
  -- the mask keeps bits 2 to 31, and `x` has no bit above 31
  by_cases hi : 2 ≤ i
  · rw [show 2 + (i - 2) = i by omega]
    by_cases hi' : i < 32
    · simp [hi, show i - 2 < 30 by omega]
    · simp [Nat.testBit_lt_two_pow (lt_of_lt_of_le hx (Nat.pow_le_pow_right (by omega) (by omega : 32 ≤ i)))]
  · simp [hi]

theorem alignDown_mod_four (x : Nat) : alignDown x % 4 = 0 := by
  rw [show alignDown x = alignDown (x % 2 ^ 32) by simp [alignDown],
    alignDown_eq (Nat.mod_lt _ (by omega))]
  omega

theorem alignDown_lt (x : Nat) : alignDown x < 2 ^ 32 := by
  rw [show alignDown x = alignDown (x % 2 ^ 32) by simp [alignDown],
    alignDown_eq (Nat.mod_lt _ (by omega))]
  have := Nat.mod_lt x (show 0 < 2 ^ 32 by omega)
  omega

theorem alignDown_of_mod_four {x : Nat} (hx : x < 2 ^ 32) (h : x % 4 = 0) : alignDown x = x := by
  rw [alignDown_eq hx]
  omega

/-! ### The functions -/

/-- The stack bytes of the strings in `exec_argv_stack_bytes`, each with its NUL rounded up
to a word, or `none` for a string of `EXEC_MAX_ARG_BYTES` bytes or more. -/
def argvStringBytes : List (List Nat) → Option Nat
  | [] => some 0
  | s :: rest =>
    if s.length ≥ execMaxArgBytes then none
    else (argvStringBytes rest).map (alignUp (s.length + 1) + ·)

/-- `exec_argv_stack_bytes(argc, kargv, &required_bytes)`: a word, the strings and the
pointer array, or `none` for its `-1`. -/
def execArgvStackBytes (kargv : List (List Nat)) : Option Nat :=
  if kargv.length > execMaxArgc then none
  else (argvStringBytes kargv).bind fun strings =>
    let total := 4 + strings + alignUp (kargv.length * 4)
    if total > initialUserStackSize then none else some total

/-- The loop of `build_exec_argv_on_stack` that copies the strings, the last first, down from
`cursor`: the final cursor, user memory and the address of each copy, or the memory as the
loop leaves it for its `-1`. -/
def pushStrings (l : List Vme) (bottom : Nat) :
    List (List Nat) → Nat → (Nat → Nat) → Except (Nat → Nat) (Nat × (Nat → Nat) × List Nat)
  | [], cursor, mem => .ok (cursor, mem, [])
  | s :: rest, cursor, mem =>
    -- the strings after `s` are copied first, above it
    match pushStrings l bottom rest cursor mem with
    | .error mem => .error mem
    | .ok (cursor, mem, addrs) =>
      let len := s.length + 1
      if cursor - bottom < alignUp len then .error mem
      else
        let cursor := alignDown (cursor - len)
        match copyToUser l mem cursor (s ++ [0]) with
        | none => .error mem
        | some mem => .ok (cursor, mem, cursor :: addrs)

/-- The four bytes of a word, least significant first. -/
def wordBytes (w : Nat) : List Nat := [w % 256, w / 256 % 256, w / 2 ^ 16 % 256, w / 2 ^ 24 % 256]

/-- The little-endian word of user memory at `a`. -/
def readWord (mem : Nat → Nat) (a : Nat) : Nat :=
  mem a + 2 ^ 8 * mem (a + 1) + 2 ^ 16 * mem (a + 2) + 2 ^ 24 * mem (a + 3)

/-- What `build_exec_argv_on_stack` returns and leaves behind: its return value,
`*initial_sp`, `*user_argv` and user memory. -/
structure ExecStack where
  ret : Int
  initialSp : Nat
  userArgv : Nat
  mem : Nat → Nat

/-- `build_exec_argv_on_stack(stack_bottom, stack_top, kargv, argc, ...)`. -/
def buildExecArgvOnStack (l : List Vme) (mem : Nat → Nat) (bottom top : Nat)
    (kargv : List (List Nat)) : ExecStack :=
  let initialSp := (top + 2 ^ 32 - 4) % 2 ^ 32
  if kargv.length = 0 then ⟨0, initialSp, 0, mem⟩
  else match execArgvStackBytes kargv with
  | none => ⟨-1, initialSp, 0, mem⟩
  | some required =>
    if top < bottom ∨ top - bottom < required then ⟨-1, initialSp, 0, mem⟩
    else match pushStrings l bottom kargv top mem with
    | .error mem => ⟨-1, initialSp, 0, mem⟩
    | .ok (cursor, mem, addrs) =>
      let argvBytes := kargv.length * 4
      if cursor - bottom < alignUp argvBytes then ⟨-1, initialSp, 0, mem⟩
      else
        -- the array holds the `argc` pointers, and nothing after them
        let cursor := alignDown (cursor - argvBytes)
        match copyToUser l mem cursor (addrs.flatMap wordBytes) with
        | none => ⟨-1, initialSp, 0, mem⟩
        | some mem => ⟨0, (cursor + 2 ^ 32 - 4) % 2 ^ 32, cursor, mem⟩

/-! ### The layout -/

section Layout

variable {l : List Vme} {bottom : Nat}

theorem length_flatMap_wordBytes (addrs : List Nat) :
    (addrs.flatMap wordBytes).length = 4 * addrs.length := by
  induction addrs with
  | nil => rfl
  | cons a addrs ih => simp [List.flatMap_cons, wordBytes, ih]; omega

theorem writeBytes_of_lt {mem : Nat → Nat} {dest a : Nat} {bytes : List Nat} (h : a < dest) :
    writeBytes mem dest bytes a = mem a := by
  simp [writeBytes, show ¬ dest ≤ a by omega]

theorem writeBytes_of_ge {mem : Nat → Nat} {dest a : Nat} {bytes : List Nat}
    (h : dest + bytes.length ≤ a) : writeBytes mem dest bytes a = mem a := by
  simp [writeBytes, show ¬ a < dest + bytes.length by omega]

/-- A successful copy of the strings ends with the first of them, written at the final
cursor, which is a word of 32 bits. -/
theorem pushStrings_ok {s : List Nat} {rest : List (List Nat)} {cursor cursor' : Nat}
    {mem mem' : Nat → Nat} {addrs : List Nat}
    (h : pushStrings l bottom (s :: rest) cursor mem = .ok (cursor', mem', addrs)) :
    ∃ mem₀, copyToUser l mem₀ cursor' (s ++ [0]) = some mem' ∧ cursor' % 4 = 0 ∧
      cursor' < 2 ^ 32 := by
  simp only [pushStrings] at h
  split at h
  · cases h
  · split at h
    · cases h
    · split at h
      · cases h
      · rename_i m' hcopy
        cases h
        exact ⟨_, hcopy, alignDown_mod_four _, alignDown_lt _⟩

/-- The number of addresses a successful copy of the strings returns. -/
theorem pushStrings_length {kargv : List (List Nat)} {cursor cursor' : Nat}
    {mem mem' : Nat → Nat} {addrs : List Nat}
    (h : pushStrings l bottom kargv cursor mem = .ok (cursor', mem', addrs)) :
    addrs.length = kargv.length := by
  induction kargv generalizing cursor' mem' addrs with
  | nil =>
    simp only [pushStrings, Except.ok.injEq, Prod.mk.injEq] at h
    simp [h.2.2]
  | cons s rest ih =>
    simp only [pushStrings] at h
    split at h
    · cases h
    · rename_i c m a hrest
      split at h
      · cases h
      · split at h
        · cases h
        · cases h
          simp [ih hrest]

theorem execArgvStackBytes_length {kargv : List (List Nat)} {required : Nat}
    (h : execArgvStackBytes kargv = some required) : kargv.length ≤ execMaxArgc := by
  unfold execArgvStackBytes at h
  split at h
  · cases h
  · omega

theorem alignUp_mul_four {n : Nat} (hn : n * 4 + 3 < 2 ^ 32) : alignUp (n * 4) = n * 4 := by
  rw [alignUp, alignDown_eq hn]
  omega

/-- On success with `argc ≥ 1`, the word after the array of `argc` pointers is the first word
of the copy of `argv[0]`, which is not the `NULL` entry the contract promises when the string
does not start with a NUL. The array is written right below that copy, and does not reach
it. -/
theorem buildExecArgv_word_after_array {mem : Nat → Nat} {top : Nat} {s : List Nat}
    {rest : List (List Nat)} {c : Nat} (hs : s.head? = some c) (hc : c ≠ 0)
    (hret : (buildExecArgvOnStack l mem bottom top (s :: rest)).ret = 0) :
    readWord (buildExecArgvOnStack l mem bottom top (s :: rest)).mem
      ((buildExecArgvOnStack l mem bottom top (s :: rest)).userArgv + 4 * (rest.length + 1)) ≠ 0 := by
  unfold buildExecArgvOnStack at hret ⊢
  simp only [List.length_cons, Nat.add_one_ne_zero, if_false] at hret ⊢
  cases hbytes : execArgvStackBytes (s :: rest) with
  | none => simp [hbytes] at hret
  | some required =>
    simp only [hbytes] at hret ⊢
    by_cases hroom : top < bottom ∨ top - bottom < required
    · simp [hroom] at hret
    simp only [hroom, if_false] at hret ⊢
    cases hpush : pushStrings l bottom (s :: rest) top mem with
    | error m => simp [hpush] at hret
    | ok r =>
      obtain ⟨c0, mem1, addrs⟩ := r
      simp only [hpush] at hret ⊢
      have hn : (rest.length + 1) * 4 + 3 < 2 ^ 32 := by
        have := execArgvStackBytes_length hbytes
        simp only [List.length_cons, execMaxArgc] at this
        omega
      rw [alignUp_mul_four hn] at hret ⊢
      by_cases harr : c0 - bottom < (rest.length + 1) * 4
      · simp [harr] at hret
      simp only [harr, if_false] at hret ⊢
      obtain ⟨mem0, hcopy0, hmod, hlt⟩ := pushStrings_ok hpush
      -- the array starts `4 * argc` bytes below the copy of `argv[0]`
      have hc2 : alignDown (c0 - (rest.length + 1) * 4) = c0 - (rest.length + 1) * 4 :=
        alignDown_of_mod_four (by omega) (by omega)
      rw [hc2] at hret ⊢
      cases hcopy : copyToUser l mem1 (c0 - (rest.length + 1) * 4) (addrs.flatMap wordBytes) with
      | none => simp [hcopy] at hret
      | some mem2 =>
        dsimp only
        have hlen : (addrs.flatMap wordBytes).length = 4 * (rest.length + 1) := by
          rw [length_flatMap_wordBytes, pushStrings_length hpush, List.length_cons]
        have hat : c0 - (rest.length + 1) * 4 + 4 * (rest.length + 1) = c0 := by omega
        rw [hat]
        -- the byte at the copy of `argv[0]` is its first byte, untouched by the array
        have h1 : mem1 c0 = c := by
          rw [copyToUser_eq_some hcopy0]
          obtain ⟨t, rfl⟩ : ∃ t, s = c :: t := by
            cases s with
            | nil => simp at hs
            | cons a t => simp at hs; exact ⟨t, by rw [hs]⟩
          simp [writeBytes]
        have h2 : mem2 c0 = c := by
          rw [copyToUser_eq_some hcopy, writeBytes_of_ge (by omega), h1]
        unfold readWord
        omega

end Layout

/-- A 16 KiB user stack at the bottom of the user half, readable and writable. -/
def stackVme : Vme :=
  ⟨0x80000000, 0x80004000, 0x4000, mmapRead ||| mmapWrite ||| mmapUser, none, 0, 0⟩

/-- `exec` of a program with the one argument `"ab"` onto that stack: the call returns `0`,
the array of one pointer sits at `0x80003FF8`, and the word after it, which the contract
promises to be `NULL`, is the first word of the copy of `"ab"` at `0x80003FFC`. -/
theorem buildExecArgv_missing_null :
    (buildExecArgvOnStack [stackVme] (fun _ => 0) 0x80000000 0x80004000 [[97, 98]]).ret = 0 ∧
    (buildExecArgvOnStack [stackVme] (fun _ => 0) 0x80000000 0x80004000 [[97, 98]]).userArgv =
      0x80003FF8 ∧
    readWord (buildExecArgvOnStack [stackVme] (fun _ => 0) 0x80000000 0x80004000 [[97, 98]]).mem
      (0x80003FF8 + 4) ≠ 0 := by
  have hl : SortedDisjoint [stackVme] := List.pairwise_singleton _ _
  have huser : hasFlag stackVme.flags mmapUser = true := by decide
  have hwrite : HasFlags stackVme.flags mmapWrite := by unfold HasFlags; decide
  have hstr : copyToUser [stackVme] (fun _ => 0) 0x80003FFC [97, 98, 0] =
      some (writeBytes (fun _ => 0) 0x80003FFC [97, 98, 0]) :=
    copyToUser_of_within hl (List.mem_singleton_self _) huser hwrite (by decide) (by decide)
      (by decide) (by decide) (by decide)
  have harr : copyToUser [stackVme] (writeBytes (fun _ => 0) 0x80003FFC [97, 98, 0]) 0x80003FF8
      (wordBytes 0x80003FFC) =
      some (writeBytes (writeBytes (fun _ => 0) 0x80003FFC [97, 98, 0]) 0x80003FF8
        (wordBytes 0x80003FFC)) :=
    copyToUser_of_within hl (List.mem_singleton_self _) huser hwrite (by decide) (by decide)
      (by decide) (by decide) (by decide)
  have hbytes : execArgvStackBytes [[97, 98]] = some 12 := by decide
  have hpush : pushStrings [stackVme] 0x80000000 [[97, 98]] 0x80004000 (fun _ => 0) =
      .ok (0x80003FFC, writeBytes (fun _ => 0) 0x80003FFC [97, 98, 0], [0x80003FFC]) := by
    simp only [pushStrings]
    rw [show alignDown (0x80004000 - ([97, 98].length + 1)) = 0x80003FFC by decide]
    simp [hstr, show alignUp 3 = 4 by decide]
  have hcall : (buildExecArgvOnStack [stackVme] (fun _ => 0) 0x80000000 0x80004000
      [[97, 98]]).ret = 0 ∧ (buildExecArgvOnStack [stackVme] (fun _ => 0) 0x80000000 0x80004000
      [[97, 98]]).userArgv = 0x80003FF8 := by
    simp only [buildExecArgvOnStack, List.length_cons, List.length_nil, hbytes, hpush]
    rw [show alignDown (0x80003FFC - (0 + 1) * 4) = 0x80003FF8 by decide]
    simp only [List.flatMap_cons, List.flatMap_nil, List.append_nil] at harr ⊢
    simp [harr, show alignUp ((0 + 1) * 4) = 4 by decide]
  refine ⟨hcall.1, hcall.2, ?_⟩
  -- the general fact: `"ab"` starts with a non-NUL byte, and the call returned `0`
  have hword := buildExecArgv_word_after_array (rfl : [97, 98].head? = some 97) (by decide) hcall.1
  rw [hcall.2] at hword
  exact hword

end DioptaseOS.Sys
