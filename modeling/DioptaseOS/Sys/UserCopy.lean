import DioptaseOS.Vmem.Basic
import Mathlib.Data.Nat.Bitwise

/-!
# Copying between kernel and user memory

`user_range_ok` of `sys.c` and the copies built on it. `user_range_ok(tcb, user_ptr, n,
required_flags)` checks that `[user_ptr, user_ptr + n)` lies in the user half and walks it
VME by VME: for the current byte it searches the thread's VME list from its head for the
first VME that ends above it, which must start at or below it and carry `MMAP_USER` and the
required flags, and continues from that VME's end. `copy_from_user` and `copy_to_user` call
`copy_user` only on a range it accepts; `copy_cstr_from_user` copies a string byte by byte.

User memory is a function from addresses to bytes, and so is the kernel buffer of
`copy_cstr_from_user`, by index. `copy_user` copies its bytes and returns `0`: a page of a
VME that is not mapped yet is mapped by the TLB miss handler during the copy.

## Main definitions

* `vmeAfter`, `userRangeLoop`, `userRangeOk` — the check
* `UserCovered`, `UserRangeSpec` — the bytes it should accept
* `copyFromUser`, `copyToUser`, `copyCstrFromUser` — the copies

## Main results

* `userRangeLoop_eq_true_iff` — the walk from `cur` accepts exactly when every byte up to
  `last` is covered by a user VME with the flags
* `userRangeOk_eq_true_iff` — `user_range_ok` accepts exactly the ranges of the spec
* `copyCstrFromUser_spec` — what `copy_cstr_from_user` returns and leaves in `dest`
-/

namespace DioptaseOS.Sys

open DioptaseOS.Vmem

/-! ### The VME list -/

/-- The inner loop of `user_range_ok`: the first VME of the list that ends above `cur`. -/
def vmeAfter (cur : Nat) : List Vme → Option Vme
  | [] => none
  | v :: l => if v.endAddr ≤ cur then vmeAfter cur l else some v

/-- The flag checks of `user_range_ok`: `MMAP_READ` and `MMAP_WRITE`, where required. -/
def flagsOk (flags requiredFlags : Nat) : Bool :=
  !(hasFlag requiredFlags mmapRead && !hasFlag flags mmapRead) &&
    !(hasFlag requiredFlags mmapWrite && !hasFlag flags mmapWrite)

theorem vmeAfter_endAddr {cur : Nat} {l : List Vme} {v : Vme} (h : vmeAfter cur l = some v) :
    cur < v.endAddr := by
  induction l with
  | nil => simp [vmeAfter] at h
  | cons w l ih =>
    simp only [vmeAfter] at h
    split at h
    · exact ih h
    · cases h
      omega

-- the name of the match's equation is read by the termination proof only
set_option linter.unusedVariables false in
/-- The outer loop of `user_range_ok` from the byte `cur` to the byte `last`. -/
def userRangeLoop (l : List Vme) (requiredFlags last cur : Nat) : Bool :=
  match h : vmeAfter cur l with
  | none => false
  | some v =>
    if v.start > cur ∨ !hasFlag v.flags mmapUser then false
    else if !flagsOk v.flags requiredFlags then false
    -- the VME covers the last byte of the range
    else if v.endAddr - 1 ≥ last then true
    else userRangeLoop l requiredFlags last v.endAddr
termination_by last + 1 - cur
decreasing_by
  have := vmeAfter_endAddr h
  omega

/-- `user_range_ok(tcb, user_ptr, n, required_flags)` on the thread's VME list. -/
def userRangeOk (l : List Vme) (userPtr n requiredFlags : Nat) : Bool :=
  if n = 0 then true
  else if userPtr < userVmemStart then false
  -- the end is in the user half, written so as not to overflow
  else if n - 1 > userVmemEnd - userPtr then false
  else userRangeLoop l requiredFlags (userPtr + n - 1) userPtr

/-! ### What the check should accept -/

/-- `v.flags` has every flag of `requiredFlags`. -/
def HasFlags (flags requiredFlags : Nat) : Prop := flags &&& requiredFlags = requiredFlags

/-- The required flags a caller may pass: a subset of `MMAP_READ | MMAP_WRITE`. -/
def ReadWriteFlags (requiredFlags : Nat) : Prop :=
  requiredFlags ∈ [0, mmapRead, mmapWrite, mmapRead ||| mmapWrite]

/-- Byte `a` lies in some VME of the list that has `MMAP_USER` and every required flag. -/
def UserCovered (l : List Vme) (requiredFlags a : Nat) : Prop :=
  ∃ v ∈ l, v.Covers a ∧ hasFlag v.flags mmapUser ∧ HasFlags v.flags requiredFlags

/-- The ranges `user_range_ok` should accept: the empty one, and those of the user half,
without wrapping, whose every byte is user-covered with the required flags. -/
def UserRangeSpec (l : List Vme) (userPtr n requiredFlags : Nat) : Prop :=
  n = 0 ∨ (userVmemStart ≤ userPtr ∧ userPtr + n - 1 ≤ 0xFFFFFFFF ∧
    ∀ a, userPtr ≤ a → a < userPtr + n → UserCovered l requiredFlags a)

/-! ### The search -/

section Search

variable {l : List Vme} {cur : Nat} {v : Vme}

theorem vmeAfter_eq_none_iff : vmeAfter cur l = none ↔ ∀ w ∈ l, w.endAddr ≤ cur := by
  induction l with
  | nil => simp [vmeAfter]
  | cons w l ih =>
    simp only [vmeAfter, List.mem_cons, forall_eq_or_imp]
    split <;> simp_all

/-- The VME found, with the VMEs before it. -/
theorem vmeAfter_eq_some (h : vmeAfter cur l = some v) :
    ∃ pre post, l = pre ++ v :: post ∧ ∀ w ∈ pre, w.endAddr ≤ cur := by
  induction l with
  | nil => simp [vmeAfter] at h
  | cons w l ih =>
    simp only [vmeAfter] at h
    split at h
    · obtain ⟨pre, post, rfl, hpre⟩ := ih h
      exact ⟨w :: pre, post, rfl, by simpa [*] using hpre⟩
    · cases h
      exact ⟨[], l, rfl, by simp⟩

theorem not_covers_of_vmeAfter_eq_none (h : vmeAfter cur l = none) :
    ∀ w ∈ l, ¬ w.Covers cur := by
  intro w hw hcov
  have := vmeAfter_eq_none_iff.mp h w hw
  exact absurd hcov.2 (by omega)

variable (hl : SortedDisjoint l)
include hl

/-- In a sorted list, no VME covers `cur` when the first VME that ends above it starts above
it. -/
theorem not_covers_of_vmeAfter_start (h : vmeAfter cur l = some v) (hstart : cur < v.start) :
    ∀ w ∈ l, ¬ w.Covers cur := by
  obtain ⟨pre, post, rfl, hpre⟩ := vmeAfter_eq_some h
  intro w hw hcov
  have hsorted := List.pairwise_append.mp hl
  rcases List.mem_append.mp hw with hw | hw
  · exact absurd hcov.2 (by have := hpre w hw; omega)
  rcases List.mem_cons.mp hw with rfl | hw
  · exact absurd hcov.1 (by omega)
  · have hvw : v.endAddr ≤ w.start := (List.pairwise_cons.mp hsorted.2.1).1 w hw
    have hend := vmeAfter_endAddr h
    exact absurd hcov.1 (by omega)

/-- In a sorted list, the first VME that ends above `cur` is the only one that can cover
it. -/
theorem eq_of_covers_of_vmeAfter (h : vmeAfter cur l = some v) {w : Vme} (hw : w ∈ l)
    (hcov : w.Covers cur) : w = v := by
  obtain ⟨pre, post, rfl, hpre⟩ := vmeAfter_eq_some h
  have hsorted := List.pairwise_append.mp hl
  rcases List.mem_append.mp hw with hw | hw
  · exact absurd hcov.2 (by have := hpre w hw; omega)
  rcases List.mem_cons.mp hw with rfl | hw
  · rfl
  · have hvw : v.endAddr ≤ w.start := (List.pairwise_cons.mp hsorted.2.1).1 w hw
    have hend := vmeAfter_endAddr h
    exact absurd hcov.1 (by omega)

end Search

/-! ### The flags -/

theorem hasFlag_iff_testBit {flags : Nat} {k : Nat} :
    hasFlag flags (2 ^ k) = true ↔ flags.testBit k = true := by
  cases h : flags.testBit k <;> simp [hasFlag, Nat.and_two_pow, h]

/-- Every flag of `requiredFlags` is a bit of `flags`. -/
theorem hasFlags_iff {flags requiredFlags : Nat} :
    HasFlags flags requiredFlags ↔
      ∀ i, requiredFlags.testBit i = true → flags.testBit i = true := by
  unfold HasFlags
  constructor
  · intro h i hi
    have hbit := congrArg (Nat.testBit · i) h
    simpa [Nat.testBit_and, hi] using hbit
  · intro h
    apply Nat.eq_of_testBit_eq
    intro i
    rw [Nat.testBit_and]
    cases hi : requiredFlags.testBit i
    · simp
    · simp [h i hi]

/-- For the flags a caller may pass, the two checks of `user_range_ok` are "every required
flag". -/
theorem flagsOk_iff {flags requiredFlags : Nat} (hreq : ReadWriteFlags requiredFlags) :
    flagsOk flags requiredFlags = true ↔ HasFlags flags requiredFlags := by
  have hr : hasFlag flags mmapRead = true ↔ flags.testBit 2 = true := by
    rw [show mmapRead = 2 ^ 2 by rfl]
    exact hasFlag_iff_testBit
  have hw : hasFlag flags mmapWrite = true ↔ flags.testBit 3 = true := by
    rw [show mmapWrite = 2 ^ 3 by rfl]
    exact hasFlag_iff_testBit
  rw [hasFlags_iff]
  simp only [ReadWriteFlags, List.mem_cons, List.not_mem_nil, or_false] at hreq
  -- the four subsets of `MMAP_READ | MMAP_WRITE`, by their bits
  rcases hreq with rfl | rfl | rfl | rfl
  · simp [flagsOk, hasFlag]
  · have hbits : ∀ i, mmapRead.testBit i = decide (2 = i) := fun i => by
      rw [show mmapRead = 2 ^ 2 by rfl, Nat.testBit_two_pow]
    simp [flagsOk, hbits, hr, show hasFlag mmapRead mmapRead = true by decide,
      show hasFlag mmapRead mmapWrite = false by decide]
  · have hbits : ∀ i, mmapWrite.testBit i = decide (3 = i) := fun i => by
      rw [show mmapWrite = 2 ^ 3 by rfl, Nat.testBit_two_pow]
    simp [flagsOk, hbits, hw, show hasFlag mmapWrite mmapRead = false by decide,
      show hasFlag mmapWrite mmapWrite = true by decide]
  · have hbits : ∀ i, (mmapRead ||| mmapWrite).testBit i = (decide (2 = i) || decide (3 = i)) :=
      fun i => by rw [Nat.testBit_or, show mmapRead = 2 ^ 2 by rfl, show mmapWrite = 2 ^ 3 by rfl,
        Nat.testBit_two_pow, Nat.testBit_two_pow]
    simp [flagsOk, hbits, hr, hw, show hasFlag (mmapRead ||| mmapWrite) mmapRead = true by decide,
      show hasFlag (mmapRead ||| mmapWrite) mmapWrite = true by decide, or_imp, forall_and]

/-! ### The walk -/

section Walk

variable {l : List Vme} {requiredFlags last : Nat}

/-- One step of the walk, at the VME the search finds. -/
theorem userRangeLoop_of_vmeAfter {cur : Nat} {v : Vme} (h : vmeAfter cur l = some v) :
    userRangeLoop l requiredFlags last cur =
      if v.start > cur ∨ !hasFlag v.flags mmapUser then false
      else if !flagsOk v.flags requiredFlags then false
      else if v.endAddr - 1 ≥ last then true
      else userRangeLoop l requiredFlags last v.endAddr := by
  rw [userRangeLoop]
  split <;> simp_all

/-- A VME that passes the checks user-covers every byte from `cur` to its end. -/
theorem userCovered_of_vmeAfter {cur a : Nat} {v : Vme} (h : vmeAfter cur l = some v)
    (hreq : ReadWriteFlags requiredFlags) (hstart : v.start ≤ cur)
    (huser : hasFlag v.flags mmapUser = true) (hflags : flagsOk v.flags requiredFlags = true)
    (hca : cur ≤ a) (hav : a < v.endAddr) : UserCovered l requiredFlags a := by
  obtain ⟨pre, post, rfl, -⟩ := vmeAfter_eq_some h
  exact ⟨v, by simp, ⟨by omega, hav⟩, huser, (flagsOk_iff hreq).mp hflags⟩

/-- The walk of `user_range_ok` from byte `cur` to byte `last` accepts exactly when every
byte between them is user-covered with the required flags. The induction follows the walk:
each VME it passes covers the bytes from `cur` to its end. -/
theorem userRangeLoop_eq_true_iff (hl : SortedDisjoint l) (hreq : ReadWriteFlags requiredFlags)
    (cur : Nat) (hcur : cur ≤ last) :
    userRangeLoop l requiredFlags last cur = true ↔
      ∀ a, cur ≤ a → a ≤ last → UserCovered l requiredFlags a := by
  induction cur using userRangeLoop.induct l requiredFlags last with
  | case1 cur hnone =>
    -- no VME ends above `cur`
    rw [userRangeLoop, hnone]
    simp only [Bool.false_eq_true, false_iff, not_forall]
    refine ⟨cur, le_rfl, hcur, ?_⟩
    rintro ⟨w, hw, hcov, -⟩
    exact not_covers_of_vmeAfter_eq_none hnone w hw hcov
  | case2 cur v hv hbad =>
    -- the VME found does not cover `cur`, or is not a user VME
    rw [userRangeLoop_of_vmeAfter hv]
    simp only [hbad, if_true, Bool.false_eq_true, false_iff, not_forall]
    refine ⟨cur, le_rfl, hcur, ?_⟩
    rintro ⟨w, hw, hcov, huser, -⟩
    rcases hbad with hstart | huser'
    · exact not_covers_of_vmeAfter_start hl hv hstart w hw hcov
    · rw [eq_of_covers_of_vmeAfter hl hv hw hcov] at huser
      simp [huser] at huser'
  | case3 cur v hv hgood hflags =>
    -- the VME found covers `cur` but lacks a required flag
    rw [userRangeLoop_of_vmeAfter hv]
    simp only [hgood, hflags, if_false, if_true, Bool.false_eq_true, false_iff, not_forall]
    refine ⟨cur, le_rfl, hcur, ?_⟩
    rintro ⟨w, hw, hcov, -, hhas⟩
    rw [eq_of_covers_of_vmeAfter hl hv hw hcov, ← flagsOk_iff hreq] at hhas
    simp [hhas] at hflags
  | case4 cur v hv hgood hflags hlast =>
    -- the VME found covers `cur` up to `last`
    have hend := vmeAfter_endAddr hv
    simp only [gt_iff_lt, not_or, not_lt, Bool.not_eq_true', Bool.not_eq_false] at hgood hflags
    rw [userRangeLoop_of_vmeAfter hv]
    simp only [gt_iff_lt, not_lt.mpr hgood.1, hgood.2, hflags, hlast, Bool.not_true,
      Bool.false_eq_true, or_self, if_false, if_true, true_iff]
    intro a hca hal
    exact userCovered_of_vmeAfter hv hreq hgood.1 hgood.2 hflags hca (by omega)
  | case5 cur v hv hgood hflags hlast ih =>
    -- the VME found covers `cur` up to its end; the walk goes on from there
    have hend := vmeAfter_endAddr hv
    simp only [gt_iff_lt, not_or, not_lt, Bool.not_eq_true', Bool.not_eq_false] at hgood hflags
    rw [userRangeLoop_of_vmeAfter hv]
    simp only [gt_iff_lt, not_lt.mpr hgood.1, hgood.2, hflags, hlast, Bool.not_true,
      Bool.false_eq_true, or_self, if_false]
    rw [ih (by omega)]
    constructor
    · intro hrest a hca hal
      by_cases hav : a < v.endAddr
      · exact userCovered_of_vmeAfter hv hreq hgood.1 hgood.2 hflags hca hav
      · exact hrest a (by omega) hal
    · intro hall a hva hal
      exact hall a (by omega) hal

end Walk

/-- `user_range_ok` accepts exactly the ranges of `UserRangeSpec`, for every pointer and size
of 32 bits and every required flags within `MMAP_READ | MMAP_WRITE`. -/
theorem userRangeOk_eq_true_iff {l : List Vme} (hl : SortedDisjoint l) {userPtr n requiredFlags : Nat}
    (hptr : userPtr < 2 ^ 32) (hreq : ReadWriteFlags requiredFlags) :
    userRangeOk l userPtr n requiredFlags = true ↔ UserRangeSpec l userPtr n requiredFlags := by
  unfold userRangeOk UserRangeSpec
  by_cases hn : n = 0
  · simp [hn]
  by_cases hlow : userPtr < userVmemStart
  · simp only [hn, hlow, if_false, if_true, Bool.false_eq_true, false_or, false_iff, not_and]
    intro h
    exact absurd h (by omega)
  by_cases hhigh : n - 1 > userVmemEnd - userPtr
  · simp only [hn, hlow, hhigh, if_false, if_true, Bool.false_eq_true, false_or, false_iff,
      not_and]
    intro _ h
    exact absurd h (by simp only [userVmemEnd, userVmemStart] at *; omega)
  simp only [hn, hlow, hhigh, if_false, false_or]
  rw [userRangeLoop_eq_true_iff hl hreq userPtr (by omega)]
  simp only [userVmemEnd, userVmemStart] at *
  constructor
  · intro h
    exact ⟨by omega, by omega, fun a h1 h2 => h a h1 (by omega)⟩
  · rintro ⟨-, -, h⟩ a h1 h2
    exact h a h1 (by omega)

/-! ### The copies -/

/-- The bytes `copy_user` reads from user memory: `n` of them from `src`. -/
def userBytes (mem : Nat → Nat) (src n : Nat) : List Nat :=
  (List.range n).map fun i => mem (src + i)

/-- User memory after `copy_user` writes `bytes` at `dest`. -/
def writeBytes (mem : Nat → Nat) (dest : Nat) (bytes : List Nat) : Nat → Nat :=
  fun a => if dest ≤ a ∧ a < dest + bytes.length then bytes.getD (a - dest) 0 else mem a

/-- `copy_from_user(dest, src, n, tcb)`: the bytes copied, or `none` for its `-1`. -/
def copyFromUser (l : List Vme) (mem : Nat → Nat) (src n : Nat) : Option (List Nat) :=
  if !userRangeOk l src n mmapRead then none else some (userBytes mem src n)

/-- `copy_to_user(dest, src, n, tcb)` of the bytes `bytes`: user memory after the copy, or
`none` for its `-1`. -/
def copyToUser (l : List Vme) (mem : Nat → Nat) (dest : Nat) (bytes : List Nat) :
    Option (Nat → Nat) :=
  if !userRangeOk l dest bytes.length mmapWrite then none else some (writeBytes mem dest bytes)

/-- The loop of `copy_cstr_from_user(dest, src, max)` at index `i` with `k` iterations left:
the return value and the kernel buffer. -/
def copyCstrLoop (l : List Vme) (mem : Nat → Nat) (src max : Nat) :
    Nat → Nat → (Nat → Nat) → Int × (Nat → Nat)
  -- no NUL in `max` bytes: the buffer is cut at its last byte
  | _, 0, dest => (-1, Function.update dest (max - 1) 0)
  | i, k + 1, dest =>
    if src > uintMax - i then (-1, Function.update dest 0 0)
    else match copyFromUser l mem (src + i) 1 with
      | some [c] =>
        let dest := Function.update dest i c
        if c = 0 then (0, dest) else copyCstrLoop l mem src max (i + 1) k dest
      | _ => (-1, Function.update dest 0 0)

/-- `copy_cstr_from_user(dest, src, max)`: the return value and the kernel buffer. -/
def copyCstrFromUser (l : List Vme) (mem : Nat → Nat) (dest : Nat → Nat) (src max : Nat) :
    Int × (Nat → Nat) :=
  if max = 0 then (-1, dest) else copyCstrLoop l mem src max 0 max dest

/-- A readable user byte: in the user half and user-covered with `MMAP_READ`. -/
def Readable (l : List Vme) (a : Nat) : Prop :=
  userVmemStart ≤ a ∧ a ≤ 0xFFFFFFFF ∧ UserCovered l mmapRead a

/-- The string at `src` ends at `k < max`: its bytes up to `k` are readable, byte `k` is `0`
and no byte before it is. -/
def CstrEndsAt (l : List Vme) (mem : Nat → Nat) (src max k : Nat) : Prop :=
  k < max ∧ (∀ j ≤ k, Readable l (src + j)) ∧ mem (src + k) = 0 ∧ ∀ j < k, mem (src + j) ≠ 0

section Copies

variable {l : List Vme} {mem : Nat → Nat}

/-- `copy_from_user` copies only from a range of the spec, with `MMAP_READ`. -/
theorem copyFromUser_eq_some_iff (hl : SortedDisjoint l) {src n : Nat} (hsrc : src < 2 ^ 32)
    {bytes : List Nat} :
    copyFromUser l mem src n = some bytes ↔
      UserRangeSpec l src n mmapRead ∧ bytes = userBytes mem src n := by
  rw [← userRangeOk_eq_true_iff hl hsrc (by simp [ReadWriteFlags])]
  unfold copyFromUser
  cases userRangeOk l src n mmapRead <;> simp [eq_comm]

theorem copyToUser_eq_some {dest : Nat} {bytes : List Nat} {mem' : Nat → Nat}
    (h : copyToUser l mem dest bytes = some mem') : mem' = writeBytes mem dest bytes := by
  unfold copyToUser at h
  split at h
  · cases h
  · exact (Option.some.inj h).symm

/-- `copy_to_user` writes only to a range of the spec, with `MMAP_WRITE`. -/
theorem copyToUser_eq_some_iff (hl : SortedDisjoint l) {dest : Nat} (hdest : dest < 2 ^ 32)
    {bytes : List Nat} {mem' : Nat → Nat} :
    copyToUser l mem dest bytes = some mem' ↔
      UserRangeSpec l dest bytes.length mmapWrite ∧ mem' = writeBytes mem dest bytes := by
  rw [← userRangeOk_eq_true_iff hl hdest (by simp [ReadWriteFlags])]
  unfold copyToUser
  cases userRangeOk l dest bytes.length mmapWrite <;> simp [eq_comm]

/-- A copy into a user VME with `MMAP_WRITE` succeeds and writes its bytes. -/
theorem copyToUser_of_within (hl : SortedDisjoint l) {v : Vme} (hv : v ∈ l)
    (huser : hasFlag v.flags mmapUser = true) (hwrite : HasFlags v.flags mmapWrite)
    {dest : Nat} {bytes : List Nat} (hstart : v.start ≤ dest)
    (hend : dest + bytes.length ≤ v.endAddr) (hlow : userVmemStart ≤ dest)
    (hdest : dest < 2 ^ 32) (htop : dest + bytes.length ≤ 2 ^ 32) :
    copyToUser l mem dest bytes = some (writeBytes mem dest bytes) :=
  (copyToUser_eq_some_iff hl hdest).mpr
    ⟨Or.inr ⟨hlow, by omega, fun _ h1 h2 => ⟨v, hv, ⟨by omega, by omega⟩, huser, hwrite⟩⟩, rfl⟩

/-- The range of one byte is the spec's exactly when the byte is readable. -/
theorem userRangeSpec_one_iff {a : Nat} : UserRangeSpec l a 1 mmapRead ↔ Readable l a := by
  simp only [UserRangeSpec, Readable, one_ne_zero, false_or, Nat.add_sub_cancel]
  constructor
  · rintro ⟨h1, h2, h3⟩
    exact ⟨h1, h2, h3 a le_rfl (by omega)⟩
  · rintro ⟨h1, h2, h3⟩
    exact ⟨h1, h2, fun b hb hb' => by rwa [show b = a by omega]⟩

theorem copyFromUser_one_of_readable (hl : SortedDisjoint l) {a : Nat} (ha : a < 2 ^ 32)
    (hr : Readable l a) : copyFromUser l mem a 1 = some [mem a] :=
  (copyFromUser_eq_some_iff hl ha).mpr ⟨userRangeSpec_one_iff.mpr hr, by simp [userBytes]⟩

theorem copyFromUser_one_of_not_readable (hl : SortedDisjoint l) {a : Nat} (ha : a < 2 ^ 32)
    (hr : ¬ Readable l a) : copyFromUser l mem a 1 = none := by
  cases h : copyFromUser l mem a 1 with
  | none => rfl
  | some bytes => exact absurd (userRangeSpec_one_iff.mp ((copyFromUser_eq_some_iff hl ha).mp h).1) hr

/-- A byte past `0xFFFFFFFF` is not readable. -/
theorem not_readable_of_gt {a : Nat} (ha : 0xFFFFFFFF < a) : ¬ Readable l a := fun h => by
  have := h.2.1
  omega

section Loop

variable (hl : SortedDisjoint l) {src max i k : Nat} {dest : Nat → Nat} (hi : i ≤ uintMax)
include hl hi

/-- `copy_cstr_from_user` stops with `-1` at an unreadable byte, cutting the buffer at its
first byte. -/
theorem copyCstrLoop_unreadable (hr : ¬ Readable l (src + i)) :
    copyCstrLoop l mem src max i (k + 1) dest = (-1, Function.update dest 0 0) := by
  rw [copyCstrLoop]
  by_cases hw : src > uintMax - i
  · simp [hw]
  · rw [if_neg hw, copyFromUser_one_of_not_readable hl (by simp only [uintMax] at hw hi; omega) hr]

/-- `copy_cstr_from_user` stops with `0` at a readable NUL, which it copies. -/
theorem copyCstrLoop_nul (hr : Readable l (src + i)) (hz : mem (src + i) = 0) :
    copyCstrLoop l mem src max i (k + 1) dest = (0, Function.update dest i 0) := by
  have hw : ¬ src > uintMax - i := by
    have := hr.2.1
    simp only [uintMax]
    omega
  rw [copyCstrLoop, if_neg hw, copyFromUser_one_of_readable hl (by simp only [uintMax] at hw hi; omega) hr]
  simp [hz]

/-- `copy_cstr_from_user` copies a readable byte other than NUL and goes on. -/
theorem copyCstrLoop_byte (hr : Readable l (src + i)) (hz : mem (src + i) ≠ 0) :
    copyCstrLoop l mem src max i (k + 1) dest =
      copyCstrLoop l mem src max (i + 1) k (Function.update dest i (mem (src + i))) := by
  have hw : ¬ src > uintMax - i := by
    have := hr.2.1
    simp only [uintMax]
    omega
  rw [copyCstrLoop, if_neg hw, copyFromUser_one_of_readable hl (by simp only [uintMax] at hw hi; omega) hr]
  simp [hz]

end Loop

/-- The NUL that ends a string is its first one. -/
theorem CstrEndsAt.unique {src max k k' : Nat} (h : CstrEndsAt l mem src max k)
    (h' : CstrEndsAt l mem src max k') : k = k' := by
  by_contra hne
  rcases Nat.lt_or_gt_of_ne hne with hlt | hlt
  · exact h'.2.2.2 k hlt h.2.2.1
  · exact h.2.2.2 k' hlt h'.2.2.1

/-- The loop invariant of `copy_cstr_from_user` at index `i`: the bytes before it were
readable, not NUL, and copied. -/
def CopiedPrefix (l : List Vme) (mem : Nat → Nat) (src : Nat) (dest : Nat → Nat) (i : Nat) :
    Prop :=
  ∀ j < i, Readable l (src + j) ∧ mem (src + j) ≠ 0 ∧ dest j = mem (src + j)

theorem CopiedPrefix.update {src i : Nat} {dest : Nat → Nat} (h : CopiedPrefix l mem src dest i)
    (hr : Readable l (src + i)) (hz : mem (src + i) ≠ 0) :
    CopiedPrefix l mem src (Function.update dest i (mem (src + i))) (i + 1) := by
  intro j hj
  rcases Nat.lt_succ_iff_lt_or_eq.mp hj with hj | rfl
  · obtain ⟨h1, h2, h3⟩ := h j hj
    exact ⟨h1, h2, by rw [Function.update_of_ne (by omega)]; exact h3⟩
  · exact ⟨hr, hz, by simp⟩

section LoopSpec

variable (hl : SortedDisjoint l) {src max : Nat} (hmax : max ≤ uintMax + 1)
include hl hmax

/-- A return of `0` is a string that ends within `max` bytes, copied with its NUL. The
induction is on the iterations left, from the invariant `CopiedPrefix`. -/
theorem copyCstrLoop_eq_zero (k : Nat) : ∀ i dest, i + k = max → CopiedPrefix l mem src dest i →
    (copyCstrLoop l mem src max i k dest).1 = 0 →
      ∃ e, CstrEndsAt l mem src max e ∧
        ∀ j ≤ e, (copyCstrLoop l mem src max i k dest).2 j = mem (src + j) := by
  induction k with
  | zero => intro i dest _ _ h; simp [copyCstrLoop] at h
  | succ k ih =>
    intro i dest hik hpre h
    have hi : i ≤ uintMax := by omega
    by_cases hr : Readable l (src + i)
    · by_cases hz : mem (src + i) = 0
      · -- the NUL at `i` ends the string
        rw [copyCstrLoop_nul hl hi hr hz]
        refine ⟨i, ⟨by omega, fun j hj => ?_, hz, fun j hj => (hpre j hj).2.1⟩, fun j hj => ?_⟩
        · rcases Nat.lt_or_eq_of_le hj with hj | rfl
          · exact (hpre j hj).1
          · exact hr
        · rcases Nat.lt_or_eq_of_le hj with hj | rfl
          · show Function.update dest i 0 j = mem (src + j)
            rw [Function.update_of_ne (Nat.ne_of_lt hj)]
            exact (hpre j hj).2.2
          · simp [hz]
      · rw [copyCstrLoop_byte hl hi hr hz] at h ⊢
        exact ih (i + 1) _ (by omega) (hpre.update hr hz) h
    · rw [copyCstrLoop_unreadable hl hi hr] at h
      simp at h

/-- A string that ends within `max` bytes gives a return of `0`. -/
theorem copyCstrLoop_of_endsAt {e : Nat} (he : CstrEndsAt l mem src max e) (k : Nat) :
    ∀ i dest, i + k = max → CopiedPrefix l mem src dest i →
      (copyCstrLoop l mem src max i k dest).1 = 0 := by
  induction k with
  | zero =>
    intro i dest hik hpre
    -- every byte before `max` is not NUL, but byte `e < max` is
    exact absurd (hpre e (by have := he.1; omega)).2.1 (by simp [he.2.2.1])
  | succ k ih =>
    intro i dest hik hpre
    have hi : i ≤ uintMax := by omega
    have hie : i ≤ e := by
      by_contra hlt
      exact (hpre e (by omega)).2.1 he.2.2.1
    have hr : Readable l (src + i) := he.2.1 i hie
    by_cases hz : mem (src + i) = 0
    · rw [copyCstrLoop_nul hl hi hr hz]
    · rw [copyCstrLoop_byte hl hi hr hz]
      exact ih (i + 1) _ (by omega) (hpre.update hr hz)

/-- Every other return is `-1`, with a NUL in the first `max` bytes of the buffer. -/
theorem copyCstrLoop_ne_zero (hpos : 0 < max) (k : Nat) :
    ∀ i dest, i + k = max → (copyCstrLoop l mem src max i k dest).1 ≠ 0 →
      (copyCstrLoop l mem src max i k dest).1 = -1 ∧
        ∃ j < max, (copyCstrLoop l mem src max i k dest).2 j = 0 := by
  induction k with
  | zero => intro i dest _ _; exact ⟨rfl, max - 1, by omega, by simp [copyCstrLoop]⟩
  | succ k ih =>
    intro i dest hik h
    have hi : i ≤ uintMax := by omega
    by_cases hr : Readable l (src + i)
    · by_cases hz : mem (src + i) = 0
      · rw [copyCstrLoop_nul hl hi hr hz] at h ⊢
        simp at h
      · rw [copyCstrLoop_byte hl hi hr hz] at h ⊢
        exact ih (i + 1) _ (by omega) h
    · rw [copyCstrLoop_unreadable hl hi hr]
      exact ⟨rfl, 0, hpos, by simp⟩

end LoopSpec

/-- `copy_cstr_from_user(dest, src, max)` for a positive `max` of 32 bits: it returns `0`
exactly when the string at `src` ends within `max` readable bytes, and then holds it, NUL
included, at the start of `dest`; otherwise it returns `-1` with a NUL in the first `max`
bytes of `dest`. -/
theorem copyCstrFromUser_spec (hl : SortedDisjoint l) {dest : Nat → Nat} {src max : Nat}
    (hpos : 0 < max) (hmax : max < 2 ^ 32) :
    ((copyCstrFromUser l mem dest src max).1 = 0 ↔ ∃ e, CstrEndsAt l mem src max e) ∧
    (∀ e, CstrEndsAt l mem src max e →
      ∀ j ≤ e, (copyCstrFromUser l mem dest src max).2 j = mem (src + j)) ∧
    ((copyCstrFromUser l mem dest src max).1 ≠ 0 →
      (copyCstrFromUser l mem dest src max).1 = -1 ∧
        ∃ j < max, (copyCstrFromUser l mem dest src max).2 j = 0) := by
  have hmax' : max ≤ uintMax + 1 := by simp only [uintMax]; omega
  have hpre : CopiedPrefix l mem src dest 0 := fun j hj => absurd hj (Nat.not_lt_zero j)
  unfold copyCstrFromUser
  simp only [Nat.pos_iff_ne_zero.mp hpos, if_false]
  refine ⟨⟨fun h => ?_, fun ⟨e, he⟩ => ?_⟩, fun e he => ?_, ?_⟩
  · obtain ⟨e, he, -⟩ := copyCstrLoop_eq_zero hl hmax' max 0 dest (by omega) hpre h
    exact ⟨e, he⟩
  · exact copyCstrLoop_of_endsAt hl hmax' he max 0 dest (by omega) hpre
  · obtain ⟨e', he', hcopy⟩ := copyCstrLoop_eq_zero hl hmax' max 0 dest (by omega) hpre
      (copyCstrLoop_of_endsAt hl hmax' he max 0 dest (by omega) hpre)
    rw [he.unique he']
    exact hcopy
  · exact copyCstrLoop_ne_zero hl hmax' hpos max 0 dest (by omega)

end Copies

/-! ### User pointers -/

/-- User-pointer validation is exact on a sorted VME list: `user_range_ok` accepts exactly
the ranges of `UserRangeSpec` for 32-bit pointers and flags within `MMAP_READ | MMAP_WRITE`,
the copies reach `copy_user` only on such ranges, and `copy_cstr_from_user` with a positive
`max` returns `0` exactly for a string that ends in readable bytes within `max`, copied with
its NUL, and `-1` otherwise with a NUL in the first `max` bytes of `dest`. -/
theorem user_pointer_validation_exact {l : List Vme} (hl : SortedDisjoint l) :
    (∀ userPtr n requiredFlags, userPtr < 2 ^ 32 → ReadWriteFlags requiredFlags →
      (userRangeOk l userPtr n requiredFlags = true ↔
        UserRangeSpec l userPtr n requiredFlags)) ∧
    (∀ mem src n bytes, src < 2 ^ 32 → copyFromUser l mem src n = some bytes →
      UserRangeSpec l src n mmapRead) ∧
    (∀ mem dest bytes mem', dest < 2 ^ 32 → copyToUser l mem dest bytes = some mem' →
      UserRangeSpec l dest bytes.length mmapWrite) ∧
    (∀ mem (dest : Nat → Nat) src max, 0 < max → max < 2 ^ 32 →
      ((copyCstrFromUser l mem dest src max).1 = 0 ↔ ∃ e, CstrEndsAt l mem src max e) ∧
      (∀ e, CstrEndsAt l mem src max e →
        ∀ j ≤ e, (copyCstrFromUser l mem dest src max).2 j = mem (src + j)) ∧
      ((copyCstrFromUser l mem dest src max).1 ≠ 0 →
        (copyCstrFromUser l mem dest src max).1 = -1 ∧
          ∃ j < max, (copyCstrFromUser l mem dest src max).2 j = 0)) :=
  ⟨fun _ _ _ hptr hreq => userRangeOk_eq_true_iff hl hptr hreq,
    fun _ _ _ _ hsrc h => ((copyFromUser_eq_some_iff hl hsrc).mp h).1,
    fun _ _ _ _ hdest h => ((copyToUser_eq_some_iff hl hdest).mp h).1,
    fun _ _ _ _ hpos hmax => copyCstrFromUser_spec hl hpos hmax⟩

/-- Two adjacent user VMEs, the first readable and the second readable and writable: a read of
32 bytes across their boundary is accepted, and a write of the same bytes refused, their first
half being in the read-only VME. -/
theorem user_pointer_validation_exact_two_vmes :
    let l : List Vme := [⟨0x80000000, 0x80001000, 0x1000, mmapUser ||| mmapRead, none, 0, 0⟩,
      ⟨0x80001000, 0x80002000, 0x1000, mmapUser ||| mmapRead ||| mmapWrite, none, 0, 0⟩]
    SortedDisjoint l ∧ userRangeOk l 0x80000ff0 0x20 mmapRead = true ∧
      userRangeOk l 0x80000ff0 0x20 mmapWrite = false := by
  intro l
  have hl : SortedDisjoint l := by simp [l, SortedDisjoint]
  have hexact := (user_pointer_validation_exact hl).1
  refine ⟨hl, (hexact _ _ _ (by decide) (by simp [ReadWriteFlags])).mpr ?_, ?_⟩
  · -- every byte of the range is in one of the two VMEs, both readable
    refine .inr ⟨by decide, by decide, fun a ha₁ ha₂ => ?_⟩
    by_cases ha : a < 0x80001000
    · exact ⟨_, List.mem_cons_self, by dsimp only [Vme.Covers]; omega, by decide,
        by unfold HasFlags; decide⟩
    · exact ⟨_, List.mem_cons_of_mem _ List.mem_cons_self, by dsimp only [Vme.Covers]; omega,
        by decide, by unfold HasFlags; decide⟩
  · -- the first byte is only in the read-only VME
    rw [Bool.eq_false_iff]
    intro hok
    obtain hz | ⟨-, -, hcov⟩ := (hexact _ _ _ (by decide) (by simp [ReadWriteFlags])).mp hok
    · exact absurd hz (by decide)
    · obtain ⟨v, hv, hcv, -, hw⟩ := hcov 0x80000ff0 le_rfl (by decide)
      simp only [l, List.mem_cons, List.not_mem_nil, or_false] at hv
      rcases hv with rfl | rfl
      · exact absurd hw (by unfold HasFlags; decide)
      · exact absurd hcv.1 (by decide)

/-- With `max = 0`, `copy_cstr_from_user` returns `-1` and writes nothing: a `dest` with no
NUL keeps none, and no byte among its first `max` is a NUL. -/
theorem copyCstrFromUser_max_zero :
    copyCstrFromUser [] (fun _ => 0) (fun _ => 1) 0x1000 0 = (-1, fun _ => 1) ∧
      ¬ ∃ j < 0, (copyCstrFromUser [] (fun _ => 0) (fun _ => 1) 0x1000 0).2 j = 0 :=
  ⟨rfl, fun ⟨_, hj, _⟩ => Nat.not_lt_zero _ hj⟩

end DioptaseOS.Sys
