import Mathlib.Data.Fin.VecNotation
import DioptaseOS.Physmem.Allocator

/-!
# The kernel heap: slabs

`heap.c` serves requests of up to 1024 bytes from slabs: a slab is one frame from
`physmem_alloc()` whose first bytes hold a `struct Slab` header and whose remaining space is
cut into objects of one of the `NUM_OBJECT_SIZES` sizes. The slabs of a size class sit on one
of three doubly linked lists of its `struct SlabCache`: full, partial or empty. A free object
keeps the next free object of its slab, or of its core's free list, in its first word.

The header of the slab at address `p` is modelled by `slabs p` and its list links by
`slabLinks`, the first word of a free object at address `x` by `objNext x`: the three never
overlap, since the objects of a slab start past its header (`slabSize_le_metadata`). A `NULL`
pointer is `none`, an `assert` or a `panic` of the source, or a dereference of `NULL`, makes
the model return `none`.

## Main definitions

* `objectSizes`, `sizeClass`, `cacheOfObjectSize` — the size classes and the two searches
* `objectsPerSlab`, `metadataObjects`, `slots` — the layout of a slab as `heap_init` fixes it
* `Heap.State` — the slab caches, the slab headers and links, the free objects' `next` words,
  the per-core free lists, the large-allocation table and the frame allocator
* `slabCreate`, `slabAlloc`, `slabFree` — the slab layer of the heap

## Main results

* `three_le_objectsPerSlab` — every slab holds at least three objects
* `slots_fit` — the object slots lie past the header and inside the slab's frame
* `slabOf_slot` — the frame of an object slot is its slab
-/

namespace DioptaseOS.Heap

open PtrList
open Physmem (frameSize maxCores physmemAlloc physmemFree)

def numObjectSizes : Nat := 9

/-- `OBJECT_SIZES`. -/
def objectSizes : Fin numObjectSizes → Nat := ![4, 8, 16, 32, 64, 128, 256, 512, 1024]

def minPerCoreFreeList : Nat := 0
def maxPerCoreFreeList : Nat := 64
def perCoreFreeListRefill : Nat := 32
def heapLargeAllocNone : Nat := 0xFF

/-! ### Size classes -/

/-- The first size class whose size satisfies `p`: the loops
`for (i = 0; i < NUM_OBJECT_SIZES; i++)` that stop at the first match. -/
def findClass (p : Nat → Bool) : Option (Fin numObjectSizes) :=
  (List.finRange numObjectSizes).find? fun i => p (objectSizes i)

/-- The class of a request of `size` bytes: the first with `size <= OBJECT_SIZES[i]`. -/
def sizeClass (size : Nat) : Option (Fin numObjectSizes) := findClass fun s => decide (size ≤ s)

/-- The cache of a slab of `objectSize`-byte objects: `slab->object_size == OBJECT_SIZES[i]`. -/
def cacheOfObjectSize (objectSize : Nat) : Option (Fin numObjectSizes) :=
  findClass fun s => objectSize == s

theorem objectSizes_pos (i : Fin numObjectSizes) : 0 < objectSizes i := by
  revert i; decide

theorem sizeClass_objectSizes (i : Fin numObjectSizes) : sizeClass (objectSizes i) = some i := by
  revert i; decide

theorem cacheOfObjectSize_objectSizes (i : Fin numObjectSizes) :
    cacheOfObjectSize (objectSizes i) = some i := by
  revert i; decide

/-- A request fits the class it is served from. -/
theorem le_of_sizeClass {size : Nat} {i : Fin numObjectSizes} (h : sizeClass size = some i) :
    size ≤ objectSizes i := by
  simpa using List.find?_some h

/-- `sizeof(struct Slab)`: five 32-bit words, and a four-byte bitmap under `HEAP_DEBUG`. -/
def sizeofSlab (heapDebug : Bool) : Nat := if heapDebug then 24 else 20

/-- The bytes of slab metadata that `heap_init` reserves for objects of `objectSize` bytes:
the header, and under `HEAP_DEBUG` its allocation bitmap sized for the objects that fit. -/
def slabSize (heapDebug : Bool) (objectSize : Nat) : Nat :=
  if heapDebug then
    sizeofSlab heapDebug - 4 +
      (frameSize - (sizeofSlab heapDebug - 4) + 8 * objectSize) / (8 * objectSize + 1)
  else sizeofSlab heapDebug

/-- The objects at the start of a slab that its metadata takes, rounded up. -/
def metadataObjects (heapDebug : Bool) (objectSize : Nat) : Nat :=
  (slabSize heapDebug objectSize + objectSize - 1) / objectSize

/-- `objects_per_slab` as `heap_init` computes it. -/
def objectsPerSlab (heapDebug : Bool) (i : Fin numObjectSizes) : Nat :=
  frameSize / objectSizes i - metadataObjects heapDebug (objectSizes i)

/-- The first byte past the metadata of the slab at `p`: its first object slot. -/
def slotStart (heapDebug : Bool) (i : Fin numObjectSizes) (p : Nat) : Nat :=
  p + metadataObjects heapDebug (objectSizes i) * objectSizes i

/-- The object slots of the slab at `p`, `m * s + j * s` bytes into it for `j < objects_per_slab`. -/
def slots (heapDebug : Bool) (i : Fin numObjectSizes) (p : Nat) : List Nat :=
  List.range' (slotStart heapDebug i p) (objectsPerSlab heapDebug i) (objectSizes i)

theorem three_le_objectsPerSlab (heapDebug : Bool) (i : Fin numObjectSizes) :
    3 ≤ objectsPerSlab heapDebug i := by
  revert heapDebug i; decide

/-- The metadata ends before the first slot: the whole `struct Slab`, and the bytes
`heap_init` counts for it, where under `HEAP_DEBUG` the four bytes of the declared bitmap give
way to the bitmap's real size. -/
theorem slabSize_le_metadata (heapDebug : Bool) (i : Fin numObjectSizes) :
    sizeofSlab heapDebug ≤ metadataObjects heapDebug (objectSizes i) * objectSizes i ∧
      slabSize heapDebug (objectSizes i) ≤
        metadataObjects heapDebug (objectSizes i) * objectSizes i := by
  revert heapDebug i; decide

/-- The metadata and the slots together fill at most one frame. -/
theorem slots_fit (heapDebug : Bool) (i : Fin numObjectSizes) :
    (metadataObjects heapDebug (objectSizes i) + objectsPerSlab heapDebug i) * objectSizes i ≤
      frameSize := by
  revert heapDebug i; decide

theorem metadataObjects_le (heapDebug : Bool) (i : Fin numObjectSizes) :
    metadataObjects heapDebug (objectSizes i) ≤ frameSize / objectSizes i := by
  revert heapDebug i; decide

theorem nodup_slots (heapDebug : Bool) (i : Fin numObjectSizes) (p : Nat) :
    (slots heapDebug i p).Nodup :=
  List.nodup_range' _ (objectSizes_pos i)

theorem mem_slots {heapDebug : Bool} {i : Fin numObjectSizes} {p x : Nat} :
    x ∈ slots heapDebug i p ↔
      ∃ j < objectsPerSlab heapDebug i, x = slotStart heapDebug i p + j * objectSizes i := by
  rw [slots, List.mem_range']
  simp only [Nat.mul_comm (objectSizes i)]

/-! ### The slab of an object -/

/-- The slab holding an object: `(unsigned)obj & ~(FRAME_SIZE - 1)`. -/
def slabOf (obj : Nat) : Nat := obj &&& 0xFFFFF000

/-- On a 32-bit address, clearing the low twelve bits rounds down to the frame. -/
theorem slabOf_eq {x : Nat} (hx : x < 2 ^ 32) : slabOf x = x / frameSize * frameSize := by
  have hm : (0xFFFFF000 : Nat) = (2 ^ 20 - 1) * 2 ^ 12 := by norm_num
  apply Nat.eq_of_testBit_eq
  intro i
  rw [slabOf, Nat.testBit_and, hm, show frameSize = 2 ^ 12 from rfl, Nat.testBit_mul_two_pow,
    Nat.testBit_mul_two_pow, Nat.testBit_two_pow_sub_one, Nat.testBit_div_two_pow]
  by_cases h12 : 12 ≤ i
  · rw [Nat.sub_add_cancel h12]
    by_cases h32 : i < 32
    · simp [h12]
      omega
    · -- the bits from 32 up are clear in both
      have hi : x.testBit i = false :=
        Nat.testBit_eq_false_of_lt (lt_of_lt_of_le hx (Nat.pow_le_pow_right (by norm_num) (by omega)))
      simp [hi]
  · simp [h12]

/-- An address inside the frame at `p` belongs to the slab at `p`. -/
theorem slabOf_add {p off : Nat} (hp : p % frameSize = 0) (hlt : p + frameSize ≤ 2 ^ 32)
    (hoff : off < frameSize) : slabOf (p + off) = p := by
  rw [slabOf_eq (by omega)]
  simp only [frameSize] at *
  omega

theorem slotStart_le_slot {heapDebug : Bool} {i : Fin numObjectSizes} {p x : Nat}
    (hx : x ∈ slots heapDebug i p) :
    slotStart heapDebug i p ≤ x ∧ x + objectSizes i ≤ p + frameSize := by
  obtain ⟨j, hj, rfl⟩ := mem_slots.mp hx
  have hfit := slots_fit heapDebug i
  have hj' : (j + 1) * objectSizes i ≤ objectsPerSlab heapDebug i * objectSizes i :=
    Nat.mul_le_mul_right _ hj
  rw [Nat.add_mul] at hfit
  rw [slotStart]
  constructor <;> nlinarith

/-- An object slot of a slab in a frame below 4 GiB lies in that frame, past its header, and
is not frame aligned. -/
theorem slabOf_slot {heapDebug : Bool} {i : Fin numObjectSizes} {p x : Nat}
    (hp : p % frameSize = 0) (hlt : p + frameSize ≤ 2 ^ 32) (hx : x ∈ slots heapDebug i p) :
    slabOf x = p ∧ p + sizeofSlab heapDebug ≤ x ∧ x % frameSize ≠ 0 := by
  obtain ⟨h1, h2⟩ := slotStart_le_slot hx
  have hmeta := (slabSize_le_metadata heapDebug i).1
  have hpos := objectSizes_pos i
  have hsz : 0 < sizeofSlab heapDebug := by cases heapDebug <;> decide
  rw [slotStart] at h1
  refine ⟨?_, by omega, ?_⟩
  · have := slabOf_add hp hlt (show x - p < frameSize by omega)
    rwa [Nat.add_sub_cancel' (by omega)] at this
  · simp only [frameSize] at *
    omega

/-! ### State -/

/-- `struct Slab` without its list links, which `slabLinks` holds. -/
structure Slab where
  freeList : Option Nat
  objectSize : Nat
  freeObjects : Nat

/-- `struct SlabCache` without its lock. -/
structure SlabCache where
  objectsPerSlab : Nat
  fullSlabs : Option Nat
  partialSlabs : Option Nat
  emptySlabs : Option Nat
  numEmptySlabs : Nat

/-- The three slab lists of a cache. -/
inductive SlabKind
  | fullSlabs
  | partialSlabs
  | emptySlabs
  deriving DecidableEq, Repr

/-- The head of one of a cache's lists. -/
def SlabCache.head (cache : SlabCache) : SlabKind → Option Nat
  | .fullSlabs => cache.fullSlabs
  | .partialSlabs => cache.partialSlabs
  | .emptySlabs => cache.emptySlabs

@[simp] theorem SlabCache.head_fullSlabs (cache : SlabCache) :
    cache.head .fullSlabs = cache.fullSlabs := rfl

@[simp] theorem SlabCache.head_partialSlabs (cache : SlabCache) :
    cache.head .partialSlabs = cache.partialSlabs := rfl

@[simp] theorem SlabCache.head_emptySlabs (cache : SlabCache) :
    cache.head .emptySlabs = cache.emptySlabs := rfl

/-- The heap's memory: the slab caches, the slab headers and their `next`/`prev` links (by
slab address), the `next` word of every free object (by object address), the per-core free
lists, the large-allocation table (by frame index) and the frame allocator below. -/
structure State where
  slabCaches : Fin numObjectSizes → SlabCache
  slabs : Nat → Slab
  slabLinks : Links Nat
  objNext : Nat → Option Nat
  freeLists : Fin maxCores → Fin numObjectSizes → Option Nat
  freeListSizes : Fin maxCores → Fin numObjectSizes → Nat
  largeAllocationOrders : Nat → Nat
  phys : Physmem.State

/-- The heads of all slab lists, by class and kind. -/
def slabHeads (s : State) (k : Fin numObjectSizes × SlabKind) : Option Nat :=
  (s.slabCaches k.1).head k.2

/-- `heap_init()`. -/
def heapInit (heapDebug : Bool) (s : State) : State :=
  { s with
    largeAllocationOrders := fun _ => heapLargeAllocNone
    slabCaches := fun i => ⟨objectsPerSlab heapDebug i, none, none, none, 0⟩
    freeLists := fun _ _ => none
    freeListSizes := fun _ _ => 0 }

/-! ### The slab layer -/

/-- The loop of `slab_create` that threads the free objects of a new slab: `n` times
`current->next = current + object_size; current = current->next`, then
`current->next = NULL`. -/
def initFreeList (objectSize : Nat) : (Nat → Option Nat) → Nat → Nat → Nat → Option Nat
  | objNext, current, 0 => Function.update objNext current none
  | objNext, current, n + 1 =>
    initFreeList objectSize (Function.update objNext current (some (current + objectSize)))
      (current + objectSize) n

/-- `slab_create(object_size)` on core `c`: a frame from `physmem_alloc()` with all objects
past the metadata on its free list. -/
def slabCreate (s : State) (c : Fin maxCores) (objectSize : Nat) : Option (State × Nat) :=
  (physmemAlloc s.phys c).bind fun (phys, slab) =>
    (sizeClass objectSize).map fun i =>
      let metadataObjects := frameSize / objectSize - (s.slabCaches i).objectsPerSlab
      let freeObjects := frameSize / objectSize - metadataObjects
      let start := slab + metadataObjects * objectSize
      ({ s with
          phys
          slabs := Function.update s.slabs slab ⟨some start, objectSize, freeObjects⟩
          slabLinks := ⟨Function.update s.slabLinks.next slab none,
            Function.update s.slabLinks.prev slab none⟩
          objNext := initFreeList objectSize s.objNext start (freeObjects - 1) }, slab)

/-- Take the first free object of `slab`: `obj = slab->free_list;
slab->free_list = obj->next; slab->free_objects--`. -/
def takeObject (s : State) (slab : Nat) : Option (State × Nat) :=
  (s.slabs slab).freeList.map fun obj =>
    ({ s with
        slabs := Function.update s.slabs slab
          { s.slabs slab with
            freeList := s.objNext obj
            freeObjects := (s.slabs slab).freeObjects - 1 } }, obj)

/-- `slab_alloc(size)` on core `c`: an object from a partial slab, else from an empty slab
moved to the partial list, else from a new slab. -/
def slabAlloc (s : State) (c : Fin maxCores) (size : Nat) : Option (State × Nat) :=
  (sizeClass size).bind fun i =>
    let cache := s.slabCaches i
    match cache.partialSlabs with
    | some slab =>
      -- a slab that runs out moves from the partial list to the full list
      (takeObject s slab).map fun (s, obj) =>
        if (s.slabs slab).freeObjects = 0 then
          ({ s with
              slabLinks := (s.slabLinks.dropHead slab).link cache.fullSlabs slab
              slabCaches := Function.update s.slabCaches i
                { cache with partialSlabs := s.slabLinks.next slab, fullSlabs := some slab } },
            obj)
        else (s, obj)
    | none =>
      match cache.emptySlabs with
      | some slab =>
        takeObject { s with
          slabLinks := (s.slabLinks.dropHead slab).link cache.partialSlabs slab
          slabCaches := Function.update s.slabCaches i
            { cache with
              emptySlabs := s.slabLinks.next slab
              partialSlabs := some slab
              numEmptySlabs := cache.numEmptySlabs - 1 } } slab
      | none =>
        (slabCreate s c (objectSizes i)).bind fun (s, slab) =>
          takeObject { s with
            slabLinks := s.slabLinks.link cache.partialSlabs slab
            slabCaches := Function.update s.slabCaches i { cache with partialSlabs := some slab } }
            slab

/-- `slab_free(obj)` on core `c`: the object goes back on its slab's free list; a slab that
becomes empty leaves the partial list for the empty list, or for `physmem_free` when two
empty slabs are kept already; a slab that was full moves to the partial list. -/
def slabFree (s : State) (c : Fin maxCores) (obj : Nat) : Option State :=
  let slab := slabOf obj
  (cacheOfObjectSize (s.slabs slab).objectSize).bind fun i =>
    let cache := s.slabCaches i
    let header := s.slabs slab
    let s := { s with
      objNext := Function.update s.objNext obj header.freeList
      slabs := Function.update s.slabs slab
        { header with freeList := some obj, freeObjects := header.freeObjects + 1 } }
    if header.freeObjects + 1 = cache.objectsPerSlab then
      let cache := { cache with partialSlabs := s.slabLinks.unlinkHead cache.partialSlabs slab }
      let s := { s with slabLinks := s.slabLinks.detach slab }
      if 2 ≤ cache.numEmptySlabs then
        (physmemFree s.phys c slab).map fun phys =>
          { s with phys, slabCaches := Function.update s.slabCaches i cache }
      else
        some { s with
          slabLinks := s.slabLinks.link cache.emptySlabs slab
          slabCaches := Function.update s.slabCaches i
            { cache with emptySlabs := some slab, numEmptySlabs := cache.numEmptySlabs + 1 } }
    else if header.freeObjects + 1 = 1 then
      some { s with
        slabLinks := (s.slabLinks.detach slab).link cache.partialSlabs slab
        slabCaches := Function.update s.slabCaches i
          { cache with
            fullSlabs := s.slabLinks.unlinkHead cache.fullSlabs slab
            partialSlabs := some slab } }
    else some s

end DioptaseOS.Heap
