import DioptaseOS.Heap.Basic

/-!
# The kernel heap: `malloc` and `free`

Above the slab layer every core keeps, for each size class, a free list of objects threaded
through their first words like a slab's free list. `malloc` takes the head of its core's list,
refilling an empty list with objects from `slab_alloc` until it holds more than
`PER_CORE_FREE_LIST_REFILL`; `free` pushes the object on its core's list, first draining a list
that holds `MAX_PER_CORE_FREE_LIST` objects back to the slabs down to
`PER_CORE_FREE_LIST_REFILL`. Requests of more than 1024 bytes bypass the slabs: they get a
block of `2 ^ order` frames from `physmem_alloc_order`, whose order a table records at the
block's first frame so that `free` can give the block back with `physmem_free_order`.

The loops of the source are recursions on a fuel argument that bounds the iterations; running
out of fuel is `none`, like a panic. A `NULL` result of `malloc` is `some (s, none)`.

## Main definitions

* `pushFreeList`, `popFreeList` — the per-core list operations
* `refillFreeList`, `drainFreeList` — the loops that move objects between a per-core list
  and the slabs
* `largeAllocationOrderForSize`, `largeAlloc`, `largeFreeIfTracked` — large allocations
* `malloc`, `free`

## Main results

* `largeAllocationOrderForSize_spec` — the order found is the least whose block holds the
  request, and a live order
* `heapIsFrameAlignedPhysAddr_iff` — the heap's test of a frame address is the frame
  allocator's
-/

namespace DioptaseOS.Heap

open Physmem (frameSize maxCores framesAddrStart framesAddrEnd physFrameMaxOrder
  frameIndexFromAddress physmemIsFrameAddress physmemAllocOrder physmemFreeOrder)

/-! ### The per-core free lists -/

section PerCore

variable {β : Type} {f : Fin maxCores → Fin numObjectSizes → β} {c c' : Fin maxCores}
  {i i' : Fin numObjectSizes} {v : β}

/-- The write `per_core_data[c].field[i] = v` of a per-core array. -/
def perCoreSet (f : Fin maxCores → Fin numObjectSizes → β) (c : Fin maxCores)
    (i : Fin numObjectSizes) (v : β) : Fin maxCores → Fin numObjectSizes → β :=
  Function.update f c (Function.update (f c) i v)

@[simp] theorem perCoreSet_self : perCoreSet f c i v c i = v := by
  simp [perCoreSet]

theorem perCoreSet_of_ne (h : (c', i') ≠ (c, i)) : perCoreSet f c i v c' i' = f c' i' := by
  by_cases hc : c' = c
  · subst hc
    have hi : i' ≠ i := fun e => h (by rw [e])
    simp [perCoreSet, Function.update_of_ne hi]
  · simp [perCoreSet, Function.update_of_ne hc]

end PerCore

/-- Push `obj` on the free list `i` of core `c`: `obj->next = core->free_lists[i];
core->free_lists[i] = obj; core->free_list_sizes[i]++`. -/
def pushFreeList (s : State) (c : Fin maxCores) (i : Fin numObjectSizes) (obj : Nat) : State :=
  { s with
    objNext := Function.update s.objNext obj (s.freeLists c i)
    freeLists := perCoreSet s.freeLists c i (some obj)
    freeListSizes := perCoreSet s.freeListSizes c i (s.freeListSizes c i + 1) }

/-- Pop the head of the free list `i` of core `c`: `obj = core->free_lists[i];
core->free_lists[i] = obj->next; core->free_list_sizes[i]--`; `none` when the list is
`NULL`. -/
def popFreeList (s : State) (c : Fin maxCores) (i : Fin numObjectSizes) : Option (State × Nat) :=
  (s.freeLists c i).map fun obj =>
    ({ s with
        freeLists := perCoreSet s.freeLists c i (s.objNext obj)
        freeListSizes := perCoreSet s.freeListSizes c i (s.freeListSizes c i - 1) }, obj)

theorem popFreeList_eq_some {s s' : State} {c : Fin maxCores} {i : Fin numObjectSizes}
    {obj : Nat} :
    popFreeList s c i = some (s', obj) ↔
      s.freeLists c i = some obj ∧
        s' = { s with
          freeLists := perCoreSet s.freeLists c i (s.objNext obj)
          freeListSizes := perCoreSet s.freeListSizes c i (s.freeListSizes c i - 1) } := by
  unfold popFreeList
  cases s.freeLists c i with
  | none => simp
  | some a =>
    simp only [Option.map_some, Option.some.injEq, Prod.mk.injEq]
    constructor
    · rintro ⟨rfl, rfl⟩
      exact ⟨rfl, rfl⟩
    · rintro ⟨rfl, rfl⟩
      exact ⟨rfl, rfl⟩

/-- The refill loop of `alloc`: `while (core->free_list_sizes[i] <= PER_CORE_FREE_LIST_REFILL)`
push an object from `slab_alloc(OBJECT_SIZES[i])`, for at most `fuel` iterations.
`slab_alloc` panics rather than return `NULL`, so the loop's `NULL` check is dead. -/
def refillFreeList (c : Fin maxCores) (i : Fin numObjectSizes) : Nat → State → Option State
  | 0, s => if s.freeListSizes c i ≤ perCoreFreeListRefill then none else some s
  | fuel + 1, s =>
    if s.freeListSizes c i ≤ perCoreFreeListRefill then
      (slabAlloc s c (objectSizes i)).bind fun (s, obj) =>
        refillFreeList c i fuel (pushFreeList s c i obj)
    else some s

/-- The small-object path of `alloc(size)` on core `c` for class `i`: an empty list is refilled
first, then its head is taken, or `NULL` if it is still empty. -/
def allocSmall (s : State) (c : Fin maxCores) (i : Fin numObjectSizes) :
    Option (State × Option Nat) :=
  (if s.freeListSizes c i ≤ minPerCoreFreeList then
      refillFreeList c i (perCoreFreeListRefill + 1) s
    else some s).map fun s =>
    match popFreeList s c i with
    | some (s, obj) => (s, some obj)
    | none => (s, none)

/-- The drain loop of `free`: `while (core->free_list_sizes[i] > PER_CORE_FREE_LIST_REFILL)`
pop the head of the list and `slab_free` it, for at most `fuel` iterations. -/
def drainFreeList (c : Fin maxCores) (i : Fin numObjectSizes) : Nat → State → Option State
  | 0, s => if perCoreFreeListRefill < s.freeListSizes c i then none else some s
  | fuel + 1, s =>
    if perCoreFreeListRefill < s.freeListSizes c i then
      (popFreeList s c i).bind fun (s, freeObj) =>
        (slabFree s c freeObj).bind (drainFreeList c i fuel)
    else some s

/-! ### Large allocations -/

/-- The loop of `large_allocation_order_for_size`: while `block_size < size`,
`assert(order < PHYS_FRAME_MAX_ORDER)`, then double the block. -/
def largeAllocationOrderLoop (size order blockSize : Nat) : Option Nat :=
  if blockSize < size then
    if order < physFrameMaxOrder then largeAllocationOrderLoop size (order + 1) (blockSize * 2)
    else none
  else some order
termination_by physFrameMaxOrder - order

/-- `large_allocation_order_for_size(size)`. -/
def largeAllocationOrderForSize (size : Nat) : Option Nat :=
  largeAllocationOrderLoop size 0 frameSize

/-- `large_allocation_mark(page, order)`: record the order at the block's first frame,
asserting that nothing is recorded there. -/
def largeAllocationMark (s : State) (page order : Nat) : Option State :=
  let frameIndex := frameIndexFromAddress page
  if s.largeAllocationOrders frameIndex = heapLargeAllocNone then
    some { s with
      largeAllocationOrders := Function.update s.largeAllocationOrders frameIndex order }
  else none

/-- `large_alloc(size, false)`: a block from `physmem_alloc_order`, recorded in the table. -/
def largeAlloc (s : State) (size : Nat) : Option (State × Nat) :=
  (largeAllocationOrderForSize size).bind fun order =>
    (physmemAllocOrder s.phys order).bind fun (phys, page) =>
      (largeAllocationMark { s with phys } page order).map (·, page)

/-- `malloc(size)` on core `c`, which is `alloc(size, false)`: `assert(size > 0)`, then the
first size class that holds `size`, or else a large allocation. -/
def malloc (s : State) (c : Fin maxCores) (size : Nat) : Option (State × Option Nat) :=
  if size = 0 then none
  else
    match sizeClass size with
    | some i => allocSmall s c i
    | none => (largeAlloc s size).map fun (s, page) => (s, some page)

/-- `heap_is_frame_aligned_phys_addr(addr)`. -/
def heapIsFrameAlignedPhysAddr (addr : Nat) : Bool :=
  if addr < framesAddrStart ∨ framesAddrEnd ≤ addr then false
  else addr &&& (frameSize - 1) == 0

/-- `large_free_if_tracked(obj)`: a frame-aligned pointer must be a live large allocation, or
the kernel panics; its entry is cleared and its block goes back to `physmem_free_order`.
The flag says whether `obj` was a large allocation. -/
def largeFreeIfTracked (s : State) (obj : Nat) : Option (State × Bool) :=
  if heapIsFrameAlignedPhysAddr obj then
    let frameIndex := frameIndexFromAddress obj
    let order := s.largeAllocationOrders frameIndex
    if order = heapLargeAllocNone then none
    else
      (physmemFreeOrder s.phys obj order).map fun phys =>
        ({ s with
            largeAllocationOrders :=
              Function.update s.largeAllocationOrders frameIndex heapLargeAllocNone
            phys }, true)
  else some (s, false)

/-- `slab_free_sanity(obj)`: inside the frame range and aligned to the smallest object. -/
def slabFreeSanity (obj : Nat) : Bool :=
  if obj < framesAddrStart ∨ framesAddrEnd ≤ obj then false
  else obj % objectSizes ⟨0, by decide⟩ == 0

/-- `free(obj)` on core `c`. With `HEAP_DEBUG` the pointer is checked first, and for a slab
object also its slab's object size, which must be a class that divides the pointer. -/
def free (heapDebug : Bool) (s : State) (c : Fin maxCores) (obj : Nat) : Option State :=
  if heapDebug && !slabFreeSanity obj then none
  else
    (largeFreeIfTracked s obj).bind fun (s, tracked) =>
      if tracked then some s
      else
        let objectSize := (s.slabs (slabOf obj)).objectSize
        if heapDebug && ((cacheOfObjectSize objectSize).isNone || obj % objectSize != 0) then none
        else
          (cacheOfObjectSize objectSize).bind fun i =>
            (if maxPerCoreFreeList ≤ s.freeListSizes c i then
                drainFreeList c i (s.freeListSizes c i) s
              else some s).map fun s => pushFreeList s c i obj

/-! ### Specifications -/

/-- The order loop ends at the least order from `order` on whose block holds `size`, as long
as that order is live. -/
theorem largeAllocationOrderLoop_spec {size : Nat} :
    ∀ {order blockSize result : Nat}, order ≤ physFrameMaxOrder →
      largeAllocationOrderLoop size order blockSize = some result →
      order ≤ result ∧ result ≤ physFrameMaxOrder ∧ size ≤ blockSize * 2 ^ (result - order) ∧
        ∀ o, order ≤ o → o < result → blockSize * 2 ^ (o - order) < size := by
  intro order blockSize result hle h
  induction order, blockSize using largeAllocationOrderLoop.induct size with
  | case1 order blockSize hlt hord ih =>
    rw [largeAllocationOrderLoop, if_pos hlt, if_pos hord] at h
    obtain ⟨h₁, h₂, h₃, h₄⟩ := ih (by omega) h
    -- one doubling is one more order
    have hpow : blockSize * 2 * 2 ^ (result - (order + 1)) = blockSize * 2 ^ (result - order) := by
      rw [Nat.mul_assoc, ← Nat.pow_succ']
      congr 2
      omega
    refine ⟨by omega, h₂, hpow ▸ h₃, fun o ho hor => ?_⟩
    rcases Nat.eq_or_lt_of_le ho with rfl | ho
    · simpa using hlt
    · have := h₄ o ho hor
      rwa [show o - order = o - (order + 1) + 1 by omega, Nat.pow_succ, Nat.mul_comm _ 2,
        ← Nat.mul_assoc]
  | case2 order blockSize hlt hord =>
    rw [largeAllocationOrderLoop, if_pos hlt, if_neg hord] at h
    cases h
  | case3 order blockSize hlt =>
    rw [largeAllocationOrderLoop, if_neg hlt] at h
    cases h
    exact ⟨le_rfl, hle, by simpa using hlt, fun o h₁ h₂ => absurd h₂ (by omega)⟩

/-- `large_allocation_order_for_size` finds the least order whose block holds `size`, and it
is a live order. -/
theorem largeAllocationOrderForSize_spec {size order : Nat}
    (h : largeAllocationOrderForSize size = some order) :
    order ≤ physFrameMaxOrder ∧ size ≤ 2 ^ order * frameSize ∧
      ∀ o < order, 2 ^ o * frameSize < size := by
  obtain ⟨-, hle, hfit, hmin⟩ := largeAllocationOrderLoop_spec (Nat.zero_le _) h
  refine ⟨hle, by simpa [Nat.mul_comm] using hfit, fun o ho => ?_⟩
  simpa [Nat.mul_comm] using hmin o (Nat.zero_le o) ho

theorem heapIsFrameAlignedPhysAddr_iff (addr : Nat) :
    heapIsFrameAlignedPhysAddr addr = true ↔ physmemIsFrameAddress addr = true := by
  rw [Physmem.physmemIsFrameAddress_iff, heapIsFrameAlignedPhysAddr,
    Physmem.and_frameSize_sub_one]
  split_ifs with h
  · simp only [false_iff]
    omega
  · simp only [beq_iff_eq]
    omega

/-- A pointer that is not a frame address is left to the slabs. -/
theorem largeFreeIfTracked_of_not_frame {s : State} {obj : Nat}
    (h : physmemIsFrameAddress obj = false) : largeFreeIfTracked s obj = some (s, false) := by
  have hn : heapIsFrameAlignedPhysAddr obj = false := by
    cases ht : heapIsFrameAlignedPhysAddr obj
    · rfl
    · rw [(heapIsFrameAlignedPhysAddr_iff obj).mp ht] at h
      cases h
  rw [largeFreeIfTracked, if_neg (by simp [hn])]

theorem slabFreeSanity_iff (x : Nat) :
    slabFreeSanity x = true ↔ framesAddrStart ≤ x ∧ x < framesAddrEnd ∧ x % 4 = 0 := by
  rw [slabFreeSanity, show objectSizes ⟨0, by decide⟩ = 4 from rfl]
  split_ifs with h
  · simp only [false_iff]
    omega
  · simp only [beq_iff_eq]
    omega

/-- A frame address passes the sanity check of `free`. -/
theorem slabFreeSanity_of_frame {x : Nat} (h : physmemIsFrameAddress x = true) :
    slabFreeSanity x = true := by
  rw [Physmem.physmemIsFrameAddress_iff] at h
  rw [slabFreeSanity_iff]
  simp only [frameSize] at h
  omega

section Free

variable {heapDebug : Bool} {s : State} {c : Fin maxCores} {p : Nat}

/-- `free` of a large allocation whose order the table records: the entry is cleared and the
block goes back to `physmem_free_order`. -/
theorem free_of_tracked {order : Nat} (hpage : physmemIsFrameAddress p = true)
    (hentry : s.largeAllocationOrders (frameIndexFromAddress p) = order)
    (hne : order ≠ heapLargeAllocNone) :
    free heapDebug s c p = (physmemFreeOrder s.phys p order).map fun phys =>
      { s with
        largeAllocationOrders :=
          Function.update s.largeAllocationOrders (frameIndexFromAddress p) heapLargeAllocNone
        phys } := by
  have hal := (heapIsFrameAlignedPhysAddr_iff p).mpr hpage
  simp only [free, slabFreeSanity_of_frame hpage, Bool.not_true, Bool.and_false,
    Bool.false_eq_true, if_false, largeFreeIfTracked, hal, if_true, hentry, hne]
  cases physmemFreeOrder s.phys p order <;> rfl

/-- `free` of a slab object of class `i`: a full list is drained first, then the object is
pushed. -/
theorem free_of_slab {i : Fin numObjectSizes} (hframe : physmemIsFrameAddress p = false)
    (hsan : slabFreeSanity p = true) (hobj : (s.slabs (slabOf p)).objectSize = objectSizes i)
    (hmod : p % objectSizes i = 0) :
    free heapDebug s c p =
      (if maxPerCoreFreeList ≤ s.freeListSizes c i then drainFreeList c i (s.freeListSizes c i) s
        else some s).map fun s => pushFreeList s c i p := by
  simp only [free, hsan, Bool.not_true, Bool.and_false, Bool.false_eq_true, if_false,
    largeFreeIfTracked_of_not_frame hframe, Option.bind_some, hobj, cacheOfObjectSize_objectSizes,
    Option.isNone_some, hmod, bne_self_eq_false, Bool.or_self]

end Free

end DioptaseOS.Heap
