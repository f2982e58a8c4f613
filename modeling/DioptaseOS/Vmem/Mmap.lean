import DioptaseOS.Vmem.Basic

/-!
# Virtual memory: placing VMEs

The searches of `mmap`, `mmap_physmem`, `mmap_stack` and `mmap_at` over a thread's VME list,
which is kept sorted by start. Each walks the list with `prev` and `curr`: it first skips the
VMEs that end at or below the start of its half of the address space, then looks for a gap.
`mmap` and `mmap_physmem` take the first gap that fits, `mmap_stack` the last one below the
top-down limit, and `mmap_at` checks the one gap at its fixed address. The new VME is inserted
after `prev`; here `prev` is the number of VMEs before the insertion point.

`mmap` and `mmap_physmem` differ only in the VME they create, so both are `firstFitMap`.

## Main definitions

* `skipBelow`, `firstFit`, `topDownFit` — the loops of the searches
* `mmap`, `mmapPhysmem`, `mmapStack`, `mmapAt` — the calls, on a VME list

## Main results

* `mmapAt_eq_none_of_canHold_eq_false` — `mmap_at` panics at an address its half cannot hold
* `mmapAt_eq_some` — the VME `mmap_at` returns is in the new list, at the address and with
  the flags asked for
* `roundUp_eq_zero_or_le` — page rounding of a 32-bit size wraps to `0` or covers it
-/

namespace DioptaseOS.Vmem

open Physmem (frameSize)

/-- The first loop of every search, `while (curr && curr->end <= bound)`: the number of VMEs
at the head of the list that end at or below `bound`. -/
def skipBelow (bound : Nat) : List Vme → Nat
  | [] => 0
  | v :: l => if v.endAddr ≤ bound then skipBelow bound l + 1 else 0

/-- The first-fit loop of `mmap` from `lastEnd`: the start of the gap it stops at and the
number of VMEs it passed. It stops at the first VME past `rangeEnd` or at the first gap of
`roundedSize` bytes; `none` is its assert that the list is sorted. -/
def firstFit (roundedSize rangeEnd : Nat) : Nat → List Vme → Option (Nat × Nat)
  | lastEnd, [] => some (lastEnd, 0)
  | lastEnd, v :: l =>
    if v.start < lastEnd then none
    else if v.start > rangeEnd then some (lastEnd, 0)
    else if v.start - lastEnd ≥ roundedSize then some (lastEnd, 0)
    else (firstFit roundedSize rangeEnd v.endAddr l).map fun (e, n) => (e, n + 1)

/-- The body shared by `mmap` and `mmap_physmem`: a VME of `round_up(size)` bytes at the
first gap of the half of `flags`, with the given backing; it panics if the gap found cannot
hold it. The result is the new list and the start, or `0` for a size of `0`. -/
def firstFitMap (l : List Vme) (size : Nat) (file : Option Nat) (fileOffset flags paddr : Nat) :
    Option (List Vme × Nat) :=
  if size = 0 then some (l, 0)
  else
    let roundedSize := roundUp size
    let rangeStart := vmemRangeStart flags
    let rangeEnd := vmemRangeEnd flags
    let k := skipBelow rangeStart l
    (firstFit roundedSize rangeEnd rangeStart (l.drop k)).bind fun (start, n) =>
      if !vmemRangeCanHold start roundedSize rangeStart rangeEnd then none
      else (vmeCreate start (start + roundedSize) size file fileOffset flags paddr).map
        fun vme => (vmeInsert l (k + n) vme, start)

/-- `mmap(size, file, file_offset, flags)` on a VME list. -/
def mmap (l : List Vme) (size : Nat) (file : Option Nat) (fileOffset flags : Nat) :
    Option (List Vme × Nat) :=
  firstFitMap l size file fileOffset flags 0

/-- `mmap_physmem(size, paddr, flags)` on a VME list. -/
def mmapPhysmem (l : List Vme) (size paddr flags : Nat) : Option (List Vme × Nat) :=
  firstFitMap l size none 0 flags paddr

/-- The top-down loop of `mmap_stack` from the gap starting at `gapStart`, with `k` VMEs
before it and the candidate found so far (start and insertion point): the gap start and
count it ends with and the last candidate. Each gap is clipped at `rangeLimit`, and the loop
stops at the first VME at or above it; `none` is its assert that the list is sorted. -/
def topDownFit (roundedSize rangeLimit : Nat) :
    Nat → Nat → Option (Nat × Nat) → List Vme → Option (Nat × Nat × Option (Nat × Nat))
  | gapStart, k, found, [] => some (gapStart, k, found)
  | gapStart, k, found, v :: l =>
    if v.start < gapStart then none
    else
      let gapEnd := if v.start > rangeLimit then rangeLimit else v.start
      let found := if gapEnd ≥ gapStart ∧ gapEnd - gapStart ≥ roundedSize then
        some (gapEnd - roundedSize, k) else found
      if v.start ≥ rangeLimit then some (gapStart, k, found)
      else topDownFit roundedSize rangeLimit v.endAddr (k + 1) found l

/-- `mmap_stack(size, flags)` on a VME list: a user, non-shared VME of `round_up(size)` bytes
at the top of the last gap that holds it. -/
def mmapStack (l : List Vme) (size flags : Nat) : Option (List Vme × Nat) :=
  if size = 0 then some (l, 0)
  else if !hasFlag flags mmapUser then none
  else if hasFlag flags mmapShared then none
  else
    let roundedSize := roundUp size
    let rangeStart := vmemRangeStart flags
    let rangeEnd := vmemRangeEnd flags
    let rangeLimit := vmemRangeTopdownLimit flags
    let k := skipBelow rangeStart l
    (topDownFit roundedSize rangeLimit rangeStart k none (l.drop k)).bind
      fun (gapStart, k, found) =>
        -- the gap after the last VME passed, up to the limit
        let found := if gapStart ≤ rangeLimit ∧ rangeLimit - gapStart ≥ roundedSize then
          some (rangeLimit - roundedSize, k) else found
        match found with
        | none => none
        | some (stackStart, j) =>
          if !vmemRangeCanHold stackStart roundedSize rangeStart rangeEnd then none
          else (vmeCreate stackStart (stackStart + roundedSize) size none 0 flags 0).map
            fun vme => (vmeInsert l j vme, stackStart)

/-- `mmap_at(size, file, file_offset, flags, vaddr)` on a VME list: a VME at `vaddr`, which
must lie in the half of `flags` and overlap no VME. The result is the new list and the VME,
or `NULL` for a size of `0`. -/
def mmapAt (l : List Vme) (size : Nat) (file : Option Nat) (fileOffset flags vaddr : Nat) :
    Option (List Vme × Option Vme) :=
  if size = 0 then some (l, none)
  else
    let roundedSize := roundUp size
    let rangeStart := vmemRangeStart flags
    let rangeEnd := vmemRangeEnd flags
    if !vmemRangeCanHold vaddr roundedSize rangeStart rangeEnd then none
    else
      let start := vaddr
      let endAddr := start + roundedSize
      let k := skipBelow start l
      let overlaps := match l[k]? with
        | some curr => decide (curr.start < endAddr)
        | none => false
      if overlaps then none
      else (vmeCreate start endAddr size file fileOffset flags 0).map fun vme =>
        (vmeInsert l k vme, some vme)

/-! ### Fixed-address requests -/

theorem skipBelow_le_length (bound : Nat) (l : List Vme) : skipBelow bound l ≤ l.length := by
  induction l with
  | nil => simp [skipBelow]
  | cons v l ih =>
    simp only [skipBelow, List.length_cons]
    split <;> omega

theorem and_frameMask {x : Nat} (hx : x < 2 ^ 32) : x &&& frameMask = x / 2 ^ 12 * 2 ^ 12 := by
  apply Nat.eq_of_testBit_eq
  intro i
  rw [Nat.testBit_and, show frameMask = (2 ^ 20 - 1) * 2 ^ 12 by rfl, Nat.testBit_mul_two_pow,
    Nat.testBit_mul_two_pow, Nat.testBit_div_two_pow, Nat.testBit_two_pow_sub_one]
  -- the mask keeps bits 12 to 31, and `x` has none above
  by_cases h12 : 12 ≤ i
  · rw [Nat.sub_add_cancel h12]
    by_cases h32 : i < 32
    · simp [h12, show i - 12 < 20 by omega]
    · have : x.testBit i = false :=
        Nat.testBit_lt_two_pow (lt_of_lt_of_le hx (Nat.pow_le_pow_right (by norm_num) (by omega)))
      simp [this]
  · simp [h12]

/-- The page rounding of a 32-bit size either wraps to `0` or covers the size. -/
theorem roundUp_eq_zero_or_le {size : Nat} (hs : size < 2 ^ 32) :
    roundUp size = 0 ∨ size ≤ roundUp size := by
  rw [roundUp, and_frameMask (Nat.mod_lt _ (by norm_num))]
  simp only [frameSize]
  omega

variable {l l' : List Vme} {size : Nat} {file : Option Nat} {fileOffset flags vaddr : Nat}

@[simp] theorem mmapAt_zero : mmapAt l 0 file fileOffset flags vaddr = some (l, none) := by
  simp [mmapAt]

/-- A request of some bytes at an address that the half of `flags` cannot hold panics. -/
theorem mmapAt_eq_none_of_canHold_eq_false (hsize : size ≠ 0)
    (h : vmemRangeCanHold vaddr (roundUp size) (vmemRangeStart flags) (vmemRangeEnd flags) =
      false) :
    mmapAt l size file fileOffset flags vaddr = none := by
  simp [mmapAt, hsize, h]

/-- A VME returned by `mmap_at` starts at `vaddr`, spans the rounded size, which did not
wrap, with the flags asked for, and is in the new list. -/
theorem mmapAt_eq_some {vme : Vme}
    (h : mmapAt l size file fileOffset flags vaddr = some (l', some vme)) :
    vme ∈ l' ∧ vme.start = vaddr ∧ vme.endAddr = vaddr + roundUp size ∧ 0 < roundUp size ∧
      vme.flags = flags := by
  unfold mmapAt at h
  dsimp only at h
  -- only the branch that creates the VME returns one
  split_ifs at h with hsize hhold hover
  · simp at h
  obtain ⟨v, hv, heq⟩ := Option.map_eq_some_iff.mp h
  simp only [Prod.mk.injEq, Option.some.injEq] at heq
  obtain ⟨rfl, rfl⟩ := heq
  simp only [vmeCreate] at hv
  split at hv
  · rename_i hcreate
    cases hv
    exact ⟨(List.mem_insertIdx (skipBelow_le_length _ _)).mpr (Or.inl rfl), rfl, rfl,
      by omega, rfl⟩
  · cases hv

end DioptaseOS.Vmem
