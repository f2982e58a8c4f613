import DioptaseOS.Heap.Malloc
import DioptaseOS.Heap.Slab
import Mathlib.Data.List.Flatten

/-!
# The kernel heap: the invariant of `malloc` and `free`

An object that the slab layer has handed out is on a per-core free list or live, handed out by
`malloc`; a block the frame allocator has handed out is a slab or a live large allocation.
This file states what every call of `malloc` and `free` keeps: the slab invariant, with the
objects on the per-core lists and the live small objects as the objects handed out and the
live large blocks as the frame allocator's other blocks; every per-core list a chain of
`free_list_sizes[i]` objects of its class; every live small allocation in a slab of its class
and every live large one inside its block; and the large-allocation table recording exactly
the live large blocks.

The per-core lists `F`, by core and class, and the live allocations `live`, by pointer and
requested size, are ghost state.

## Main definitions

* `cached`, `smallLive`, `largeBlocks` — the objects on the per-core lists, the live small
  objects, and the live large blocks by address and order
* `PerCoreOk`, `LiveOk`, `TableOk` — one per-core list, one live allocation, the table
* `MallocInv` — the invariant

## Main results

* `MallocInv.refill`, `MallocInv.drain` — the loops that move objects between a per-core list
  and the slabs keep the invariant
* `MallocInv.malloc`, `MallocInv.free` — each call keeps the invariant
-/

namespace DioptaseOS.Heap

open PtrList
open Physmem (frameSize maxCores framesAddrStart framesAddrEnd physFrameMaxOrder
  frameIndexFromAddress physmemIsFrameAddress physmemAllocOrder physmemFreeOrder PhysInv)
open scoped List

/-! ### The ghost state -/

/-- Every per-core free list, by core and class. -/
def perCoreKeys : List (Fin maxCores × Fin numObjectSizes) :=
  (List.finRange maxCores).flatMap fun c => (List.finRange numObjectSizes).map fun i => (c, i)

theorem nodup_perCoreKeys : perCoreKeys.Nodup := by decide

theorem mem_perCoreKeys (k : Fin maxCores × Fin numObjectSizes) : k ∈ perCoreKeys := by
  simp [perCoreKeys]

/-- The objects on the per-core free lists. -/
def cached (F : Fin maxCores × Fin numObjectSizes → List Nat) : List Nat := perCoreKeys.flatMap F

theorem mem_cached {F : Fin maxCores × Fin numObjectSizes → List Nat} {k : Fin maxCores × Fin numObjectSizes}
    {x : Nat} (hx : x ∈ F k) : x ∈ cached F :=
  List.mem_flatMap.mpr ⟨k, mem_perCoreKeys k, hx⟩

/-- Whether a request of `size` bytes goes to the slabs. -/
def isSmall (size : Nat) : Bool := (sizeClass size).isSome

/-- The pointers of the live small allocations. -/
def smallLive (live : List (Nat × Nat)) : List Nat :=
  (live.filter fun a => isSmall a.2).map Prod.fst

/-- The order of the block that serves a large request. -/
def largeOrder (size : Nat) : Nat := (largeAllocationOrderForSize size).getD 0

/-- The blocks of the live large allocations, by address and order. -/
def largeBlocks (live : List (Nat × Nat)) : List (Nat × Nat) :=
  (live.filter fun a => !isSmall a.2).map fun a => (a.1, largeOrder a.2)

section Ghost

variable {live live' : List (Nat × Nat)} {a : Nat × Nat}

theorem isSmall_of_sizeClass {size : Nat} {i : Fin numObjectSizes} (h : sizeClass size = some i) :
    isSmall size = true := by
  simp [isSmall, h]

theorem isSmall_of_sizeClass_none {size : Nat} (h : sizeClass size = none) :
    isSmall size = false := by
  simp [isSmall, h]

theorem smallLive_cons_of_small (h : isSmall a.2 = true) :
    smallLive (a :: live) = a.1 :: smallLive live := by
  simp [smallLive, h]

theorem smallLive_cons_of_large (h : isSmall a.2 = false) :
    smallLive (a :: live) = smallLive live := by
  simp [smallLive, h]

theorem largeBlocks_cons_of_small (h : isSmall a.2 = true) :
    largeBlocks (a :: live) = largeBlocks live := by
  simp [largeBlocks, h]

theorem largeBlocks_cons_of_large (h : isSmall a.2 = false) :
    largeBlocks (a :: live) = (a.1, largeOrder a.2) :: largeBlocks live := by
  simp [largeBlocks, h]

theorem smallLive_perm (h : live ~ live') : smallLive live ~ smallLive live' :=
  (h.filter _).map _

theorem largeBlocks_perm (h : live ~ live') : largeBlocks live ~ largeBlocks live' :=
  (h.filter _).map _

theorem mem_smallLive (ha : a ∈ live) (h : isSmall a.2 = true) : a.1 ∈ smallLive live :=
  List.mem_map_of_mem (List.mem_filter.mpr ⟨ha, h⟩)

theorem mem_largeBlocks (ha : a ∈ live) (h : isSmall a.2 = false) :
    (a.1, largeOrder a.2) ∈ largeBlocks live :=
  List.mem_map_of_mem (f := fun a => (a.1, largeOrder a.2)) (List.mem_filter.mpr ⟨ha, by simp [h]⟩)

end Ghost

/-! ### One per-core list -/

/-- The free list `i` of core `c` holds the objects `l`: a `NULL`-terminated chain of
`free_list_sizes[i]` objects, at most `MAX_PER_CORE_FREE_LIST`, all in slabs of class `i`. -/
structure PerCoreOk (s : State) (c : Fin maxCores) (i : Fin numObjectSizes) (l : List Nat) :
    Prop where
  chain : Singly s.objNext (s.freeLists c i) l
  size : l.length = s.freeListSizes c i
  size_le : s.freeListSizes c i ≤ maxPerCoreFreeList
  objectSize : ∀ x ∈ l, (s.slabs (slabOf x)).objectSize = objectSizes i

namespace PerCoreOk

variable {s s' : State} {c c' : Fin maxCores} {i i' : Fin numObjectSizes} {l t : List Nat}
  {obj x : Nat}

/-- A list reads its head and size, the `next` words of its objects and their slabs' object
sizes. -/
theorem congr (h : PerCoreOk s c i l) (hfl : s'.freeLists c i = s.freeLists c i)
    (hsz : s'.freeListSizes c i = s.freeListSizes c i)
    (hnext : ∀ x ∈ l, s'.objNext x = s.objNext x)
    (hobj : ∀ x ∈ l, (s'.slabs (slabOf x)).objectSize = (s.slabs (slabOf x)).objectSize) :
    PerCoreOk s' c i l where
  chain := by rw [hfl]; exact h.chain.congr hnext
  size := by rw [hsz]; exact h.size
  size_le := by rw [hsz]; exact h.size_le
  objectSize x hx := by rw [hobj x hx]; exact h.objectSize x hx

/-- Pushing an object of class `i` on a list that is not full. -/
theorem push (h : PerCoreOk s c i l) (hobj : obj ∉ l)
    (hlt : s.freeListSizes c i < maxPerCoreFreeList)
    (hcls : (s.slabs (slabOf obj)).objectSize = objectSizes i) :
    PerCoreOk (pushFreeList s c i obj) c i (obj :: l) where
  chain := by
    simp only [pushFreeList, perCoreSet_self]
    exact h.chain.push hobj
  size := by simp [pushFreeList, h.size]
  size_le := by
    simp only [pushFreeList, perCoreSet_self]
    omega
  objectSize x hx := by
    rcases List.mem_cons.mp hx with rfl | hx
    · exact hcls
    · exact h.objectSize x hx

/-- A push on another list. -/
theorem push_of_ne (h : PerCoreOk s c' i' l) (hne : (c', i') ≠ (c, i)) (hobj : obj ∉ l) :
    PerCoreOk (pushFreeList s c i obj) c' i' l :=
  h.congr (perCoreSet_of_ne hne) (perCoreSet_of_ne hne)
    (fun x hx => Function.update_of_ne (fun (e : x = obj) => hobj (e ▸ hx)) ..) fun _ _ => rfl

/-- A list with objects on it: its head pointer is its first object. -/
theorem exists_cons (h : PerCoreOk s c i l) (hpos : 0 < s.freeListSizes c i) :
    ∃ obj t, l = obj :: t ∧ s.freeLists c i = some obj := by
  cases l with
  | nil => exact absurd h.size (by simp; omega)
  | cons obj t => exact ⟨obj, t, rfl, h.chain.head⟩

/-- Popping the list's head. -/
theorem pop (h : PerCoreOk s c i (obj :: t)) (hs : popFreeList s c i = some (s', x)) :
    x = obj ∧ PerCoreOk s' c i t := by
  obtain ⟨hfl, rfl⟩ := popFreeList_eq_some.mp hs
  have hc := h.chain
  rw [hfl] at hc
  obtain rfl : x = obj := Option.some.inj (hc.head)
  refine ⟨rfl, ⟨?_, ?_, ?_, fun y hy => h.objectSize y (List.mem_cons_of_mem _ hy)⟩⟩
  · simp only [perCoreSet_self]
    exact hc.pop
  · have := h.size
    simp only [perCoreSet_self, List.length_cons] at this ⊢
    omega
  · have := h.size_le
    simp only [perCoreSet_self]
    omega

/-- A pop of another list. -/
theorem pop_of_ne (h : PerCoreOk s c' i' l) (hne : (c', i') ≠ (c, i))
    (hs : popFreeList s c i = some (s', x)) : PerCoreOk s' c' i' l := by
  obtain ⟨-, rfl⟩ := popFreeList_eq_some.mp hs
  exact h.congr (perCoreSet_of_ne hne) (perCoreSet_of_ne hne) (fun _ _ => rfl) fun _ _ => rfl

/-- `slab_alloc` keeps a list of objects handed out by the slab layer. -/
theorem of_slabAlloc {out : List Nat} {i₀ : Fin numObjectSizes} (h : PerCoreOk s c i l)
    (hl : ∀ x ∈ l, x ∈ out) (hup : SlabFrame s s') (hframe : AllocFrame s s' out i₀ obj) :
    PerCoreOk s' c i l :=
  h.congr (by rw [hup.freeLists]) (by rw [hup.freeListSizes])
    (fun x hx => hframe.objNext x (hl x hx)) fun x hx => hframe.slabObjectSize x (hl x hx)

/-- `slab_free` of an object not on the list keeps it. -/
theorem of_slabFree (h : PerCoreOk s c i l) (hobj : obj ∉ l)
    (hs : slabFree s c' obj = some s') : PerCoreOk s' c i l := by
  obtain ⟨hup, hnext, hsize⟩ := slabFree_frame hs
  exact h.congr (by rw [hup.freeLists]) (by rw [hup.freeListSizes])
    (fun x hx => hnext x fun e => hobj (e ▸ hx)) fun x _ => hsize _

end PerCoreOk

/-! ### One live allocation -/

/-- A live allocation of `a.2` bytes at `a.1`: a small one in a slab of the class of its size,
a large one no larger than the block of its order. -/
structure LiveOk (s : State) (a : Nat × Nat) : Prop where
  pos : 0 < a.2
  objectSize : ∀ i, sizeClass a.2 = some i → (s.slabs (slabOf a.1)).objectSize = objectSizes i
  fit : sizeClass a.2 = none → a.2 ≤ 2 ^ largeOrder a.2 * frameSize

/-- A live allocation reads only the object size of a small allocation's slab. -/
theorem LiveOk.congr {s s' : State} {a : Nat × Nat} (h : LiveOk s a)
    (hobj : ∀ i, sizeClass a.2 = some i →
      (s'.slabs (slabOf a.1)).objectSize = (s.slabs (slabOf a.1)).objectSize) : LiveOk s' a where
  pos := h.pos
  objectSize i hi := (hobj i hi).trans (h.objectSize i hi)
  fit := h.fit

/-! ### The large-allocation table -/

/-- The large-allocation table records exactly the blocks `blocks`: each lies at a frame
address and has a live order, recorded at its first frame, and every frame that starts none of
them holds `HEAP_LARGE_ALLOC_NONE`. -/
structure TableOk (table : Nat → Nat) (blocks : List (Nat × Nat)) : Prop where
  page : ∀ b ∈ blocks, physmemIsFrameAddress b.1 = true
  order_le : ∀ b ∈ blocks, b.2 ≤ physFrameMaxOrder
  entry : ∀ b ∈ blocks, table (frameIndexFromAddress b.1) = b.2
  none_of : ∀ f, table f ≠ heapLargeAllocNone → ∃ b ∈ blocks, frameIndexFromAddress b.1 = f

namespace TableOk

variable {table : Nat → Nat} {blocks blocks' : List (Nat × Nat)} {page order : Nat}

theorem perm (h : TableOk table blocks) (hp : blocks ~ blocks') : TableOk table blocks' where
  page b hb := h.page b (hp.symm.subset hb)
  order_le b hb := h.order_le b (hp.symm.subset hb)
  entry b hb := h.entry b (hp.symm.subset hb)
  none_of f hf := by
    obtain ⟨b, hb, e⟩ := h.none_of f hf
    exact ⟨b, hp.subset hb, e⟩

/-- `large_allocation_mark` of a block whose first frame starts no recorded block. -/
theorem mark (h : TableOk table blocks) (hpage : physmemIsFrameAddress page = true)
    (horder : order ≤ physFrameMaxOrder)
    (hfresh : ∀ b ∈ blocks, frameIndexFromAddress b.1 ≠ frameIndexFromAddress page) :
    TableOk (Function.update table (frameIndexFromAddress page) order) ((page, order) :: blocks) where
  page b hb := by
    rcases List.mem_cons.mp hb with rfl | hb
    · exact hpage
    · exact h.page b hb
  order_le b hb := by
    rcases List.mem_cons.mp hb with rfl | hb
    · exact horder
    · exact h.order_le b hb
  entry b hb := by
    rcases List.mem_cons.mp hb with rfl | hb
    · exact Function.update_self ..
    · rw [Function.update_of_ne (hfresh b hb)]
      exact h.entry b hb
  none_of f hf := by
    by_cases hfp : f = frameIndexFromAddress page
    · exact ⟨(page, order), List.mem_cons_self, hfp.symm⟩
    · rw [Function.update_of_ne hfp] at hf
      obtain ⟨b, hb, e⟩ := h.none_of f hf
      exact ⟨b, List.mem_cons_of_mem _ hb, e⟩

/-- Clearing the entry of the first block, whose first frame starts no other block. -/
theorem clear (h : TableOk table ((page, order) :: blocks))
    (hfresh : ∀ b ∈ blocks, frameIndexFromAddress b.1 ≠ frameIndexFromAddress page) :
    TableOk (Function.update table (frameIndexFromAddress page) heapLargeAllocNone) blocks where
  page b hb := h.page b (List.mem_cons_of_mem _ hb)
  order_le b hb := h.order_le b (List.mem_cons_of_mem _ hb)
  entry b hb := by
    rw [Function.update_of_ne (hfresh b hb)]
    exact h.entry b (List.mem_cons_of_mem _ hb)
  none_of f hf := by
    by_cases hfp : f = frameIndexFromAddress page
    · rw [hfp, Function.update_self] at hf
      exact absurd rfl hf
    · rw [Function.update_of_ne hfp] at hf
      obtain ⟨b, hb, e⟩ := h.none_of f hf
      rcases List.mem_cons.mp hb with rfl | hb
      · exact absurd e.symm hfp
      · exact ⟨b, hb, e⟩

/-- A frame that starts no recorded block holds `HEAP_LARGE_ALLOC_NONE`. -/
theorem eq_none (h : TableOk table blocks) {f : Nat}
    (hfresh : ∀ b ∈ blocks, frameIndexFromAddress b.1 ≠ f) : table f = heapLargeAllocNone := by
  by_contra hf
  obtain ⟨b, hb, e⟩ := h.none_of f hf
  exact hfresh b hb e

/-- A recorded order is never `HEAP_LARGE_ALLOC_NONE`. -/
theorem order_ne_none (h : TableOk table blocks) {b : Nat × Nat} (hb : b ∈ blocks) :
    b.2 ≠ heapLargeAllocNone := by
  have := h.order_le b hb
  simp only [heapLargeAllocNone, physFrameMaxOrder] at *
  omega

end TableOk

/-! ### The invariant -/

/-- The invariant of the heap `s` with per-core lists `F` and live allocations `live`: the
slab invariant with the objects on the per-core lists and the live small objects handed out
and the live large blocks as the frame allocator's other blocks; every per-core list, every
live allocation and the large-allocation table as above. -/
structure MallocInv (heapDebug : Bool) (s : State) (L : Fin numObjectSizes × SlabKind → List Nat)
    (O : Nat → List Nat) (F : Fin maxCores × Fin numObjectSizes → List Nat)
    (live : List (Nat × Nat)) : Prop where
  slab : SlabInv heapDebug s L O (cached F ++ smallLive live) (largeBlocks live)
  perCore : ∀ c i, PerCoreOk s c i (F (c, i))
  liveOk : ∀ a ∈ live, LiveOk s a
  table : TableOk s.largeAllocationOrders (largeBlocks live)

/-! ### Geometry of the objects -/

theorem objectSizes_inj {i j : Fin numObjectSizes} (h : objectSizes i = objectSizes j) : i = j := by
  have hj := cacheOfObjectSize_objectSizes j
  rw [← h, cacheOfObjectSize_objectSizes] at hj
  exact Option.some.inj hj

theorem objectSizes_dvd_frameSize (i : Fin numObjectSizes) : objectSizes i ∣ frameSize := by
  revert i; decide

theorem four_dvd_objectSizes (i : Fin numObjectSizes) : 4 ∣ objectSizes i := by
  revert i; decide

/-- An object slot of a slab at a frame address is no frame address, passes the sanity check of
`free`, and is aligned to its object size. -/
theorem slot_facts {heapDebug : Bool} {i : Fin numObjectSizes} {q x : Nat}
    (hq : physmemIsFrameAddress q = true) (hx : x ∈ slots heapDebug i q) :
    physmemIsFrameAddress x = false ∧ slabFreeSanity x = true ∧ x % objectSizes i = 0 := by
  obtain ⟨hq₁, hq₂⟩ := frame_bounds hq
  obtain ⟨-, -, hxf⟩ := slabOf_slot hq₁ hq₂ hx
  obtain ⟨h₁, h₂⟩ := slotStart_le_slot hx
  -- the object size divides the frame address, and so every slot
  have hdvd : objectSizes i ∣ x := by
    obtain ⟨j, -, rfl⟩ := mem_slots.mp hx
    exact Nat.dvd_add (Nat.dvd_add ((objectSizes_dvd_frameSize i).trans (Nat.dvd_of_mod_eq_zero hq₁))
      (Nat.dvd_mul_left _ _)) (Nat.dvd_mul_left _ _)
  have h4 : x % 4 = 0 := Nat.mod_eq_zero_of_dvd ((four_dvd_objectSizes i).trans hdvd)
  rw [Physmem.physmemIsFrameAddress_iff] at hq
  have hpos := objectSizes_pos i
  rw [slotStart] at h₁
  refine ⟨Bool.eq_false_iff.mpr fun h => hxf ((Physmem.physmemIsFrameAddress_iff x).mp h).2.2,
    (slabFreeSanity_iff x).mpr ⟨by omega, ?_, h4⟩, Nat.mod_eq_zero_of_dvd hdvd⟩
  simp only [frameSize, Physmem.framesAddrEnd] at *
  omega

/-! ### Blocks of the frame allocator above the slabs -/

section Blocks

variable {heapDebug : Bool} {s : State} {L : Fin numObjectSizes × SlabKind → List Nat}
  {O : Nat → List Nat} {out : List Nat} {other : List (Nat × Nat)} {phys : Physmem.State}
  {page order : Nat}

/-- `physmem_alloc_order` hands a block to the layers above the slabs. -/
theorem SlabInv.allocOrder (hI : SlabInv heapDebug s L O out other)
    (hs : physmemAllocOrder s.phys order = some (phys, page)) :
    SlabInv heapDebug { s with phys } L O out ((page, order) :: other) :=
  hI.frame rfl rfl rfl (fun _ _ => rfl) ((hI.phys.allocOrder hs).perm List.perm_middle.symm)

/-- `physmem_free_order` takes back a block of the layers above the slabs. -/
theorem SlabInv.freeOrder (hI : SlabInv heapDebug s L O out ((page, order) :: other))
    (hs : physmemFreeOrder s.phys page order = some phys) :
    SlabInv heapDebug { s with phys } L O out other := by
  have h := (hI.phys.perm List.perm_middle).freeOrder List.mem_cons_self hs
  rw [List.erase_cons_head] at h
  exact hI.frame rfl rfl rfl (fun _ _ => rfl) h

/-- The first frame of a block above the slabs starts no other block above the slabs. -/
theorem SlabInv.frameIndex_ne (hI : SlabInv heapDebug s L O out ((page, order) :: other))
    {b : Nat × Nat} (hb : b ∈ other) :
    frameIndexFromAddress b.1 ≠ frameIndexFromAddress page :=
  (hI.phys.perm List.perm_middle).frameIndex_ne (List.mem_append_right _ hb)

end Blocks

/-! ### The steps -/

namespace MallocInv

variable {heapDebug : Bool} {s : State} {L : Fin numObjectSizes × SlabKind → List Nat}
  {O : Nat → List Nat} {F : Fin maxCores × Fin numObjectSizes → List Nat}
  {live : List (Nat × Nat)} {c : Fin maxCores} {i : Fin numObjectSizes}

/-- The objects on the per-core lists are handed out by the slab layer. -/
theorem mem_out {k : Fin maxCores × Fin numObjectSizes} {x : Nat} (hx : x ∈ F k) :
    x ∈ cached F ++ smallLive live :=
  List.mem_append_left _ (mem_cached hx)

/-- One iteration of the refill loop: an object from `slab_alloc` pushed on the list. -/
theorem refillStep (hI : MallocInv heapDebug s L O F live)
    (hle : s.freeListSizes c i ≤ perCoreFreeListRefill) {s₁ : State} {obj : Nat}
    (hs : slabAlloc s c (objectSizes i) = some (s₁, obj)) :
    ∃ L' O', MallocInv heapDebug (pushFreeList s₁ c i obj) L' O'
      (Function.update F (c, i) (obj :: F (c, i))) live := by
  obtain ⟨i', hi', ⟨L', O', hslab⟩, hframe⟩ := hI.slab.slabAlloc hs
  rw [sizeClass_objectSizes, Option.some.injEq] at hi'
  subst hi'
  have hup := slabAlloc_slabFrame hs
  -- the new object was not handed out before, so it is on no list
  have hobj : obj ∉ cached F ++ smallLive live := (List.nodup_cons.mp hslab.outNodup).1
  have hperm : obj :: (cached F ++ smallLive live) ~
      cached (Function.update F (c, i) (obj :: F (c, i))) ++ smallLive live :=
    ((Ledger.flatMap_update_cons F obj nodup_perCoreKeys (mem_perCoreKeys _)).append_right _).symm
  refine ⟨L', O', ⟨(hslab.perm_out hperm).frame rfl rfl rfl (fun x hx => ?_) hslab.phys,
    fun c' i' => ?_, fun a ha => ?_, ?_⟩⟩
  · -- the push writes the `next` word of the object it pushes, which is handed out
    exact Function.update_of_ne (fun (e : x = obj) => hx (e ▸ hperm.subset List.mem_cons_self)) ..
  · by_cases hk : (c', i') = (c, i)
    · obtain ⟨rfl, rfl⟩ := Prod.mk.inj hk
      rw [Function.update_self]
      refine ((hI.perCore _ _).of_slabAlloc (fun _ => mem_out) hup hframe).push
        (fun h => hobj (mem_out h)) ?_ hframe.objectSize
      rw [hup.freeListSizes]
      exact Nat.lt_of_le_of_lt hle (by decide)
    · rw [Function.update_of_ne hk]
      exact ((hI.perCore c' i').of_slabAlloc (fun _ => mem_out) hup hframe).push_of_ne hk
        fun h => hobj (mem_out h)
  · exact (hI.liveOk a ha).congr fun i' hi' => hframe.slabObjectSize _
      (List.mem_append_right _ (mem_smallLive ha (isSmall_of_sizeClass hi')))
  · have ht : (pushFreeList s₁ c i obj).largeAllocationOrders = s.largeAllocationOrders :=
      hup.largeAllocationOrders
    rw [ht]
    exact hI.table

/-- The refill loop of `alloc` keeps the invariant and leaves more than
`PER_CORE_FREE_LIST_REFILL` objects on the list. -/
theorem refill (hI : MallocInv heapDebug s L O F live) {fuel : Nat} {s' : State}
    (hs : refillFreeList c i fuel s = some s') :
    (∃ L' O' F', MallocInv heapDebug s' L' O' F' live) ∧
      perCoreFreeListRefill < s'.freeListSizes c i := by
  induction fuel generalizing s L O F with
  | zero =>
    rw [refillFreeList] at hs
    split_ifs at hs with hle
    cases hs
    exact ⟨⟨L, O, F, hI⟩, by omega⟩
  | succ fuel ih =>
    rw [refillFreeList] at hs
    split_ifs at hs with hle
    · obtain ⟨⟨s₁, obj⟩, halloc, hs⟩ := Option.bind_eq_some_iff.mp hs
      obtain ⟨L', O', hI'⟩ := hI.refillStep hle halloc
      exact ih hI' hs
    · cases hs
      exact ⟨⟨L, O, F, hI⟩, by omega⟩

/-- One iteration of the drain loop: the head of the list goes back to its slab. -/
theorem drainStep (hI : MallocInv heapDebug s L O F live) {s₁ s₂ : State} {x : Nat}
    (hpop : popFreeList s c i = some (s₁, x)) (hfree : slabFree s₁ c x = some s₂) :
    ∃ L' O' t, F (c, i) = x :: t ∧
      MallocInv heapDebug s₂ L' O' (Function.update F (c, i) t) live := by
  obtain ⟨hfl, hs₁⟩ := popFreeList_eq_some.mp hpop
  have hc := (hI.perCore c i).chain
  rw [hfl] at hc
  obtain ⟨t, ht⟩ := hc.eq_cons_of_some
  -- the object leaves the per-core lists; it stays handed out until `slab_free`
  have hperm : cached F ++ smallLive live ~
      x :: (cached (Function.update F (c, i) t) ++ smallLive live) :=
    (Ledger.flatMap_of_perm_cons nodup_perCoreKeys (mem_perCoreKeys _)
      (List.Perm.of_eq ht)).append_right _
  have hx : x ∉ cached (Function.update F (c, i) t) := fun h =>
    (List.nodup_cons.mp (hperm.nodup_iff.mp hI.slab.outNodup)).1 (List.mem_append_left _ h)
  have hslab₁ : SlabInv heapDebug s₁ L O (cached F ++ smallLive live) (largeBlocks live) := by
    subst hs₁
    exact hI.slab.frame rfl rfl rfl (fun _ _ => rfl) hI.slab.phys
  obtain ⟨L', O', hslab⟩ := (hslab₁.perm_out hperm).slabFree List.mem_cons_self hfree
  rw [List.erase_cons_head] at hslab
  obtain ⟨hup, -, hsize⟩ := slabFree_frame hfree
  refine ⟨L', O', t, ht, ⟨hslab, fun c' i' => ?_,
    fun a ha => (hI.liveOk a ha).congr fun _ _ => by rw [hsize, hs₁], ?_⟩⟩
  · by_cases hk : (c', i') = (c, i)
    · obtain ⟨rfl, rfl⟩ := Prod.mk.inj hk
      rw [Function.update_self]
      have hp := hI.perCore c' i'
      rw [ht] at hp
      exact (hp.pop hpop).2.of_slabFree (List.nodup_cons.mp hp.chain.nodup).1 hfree
    · rw [Function.update_of_ne hk]
      have hxk : x ∉ F (c', i') := fun h =>
        hx (mem_cached (k := (c', i')) (by rwa [Function.update_of_ne hk]))
      exact ((hI.perCore c' i').pop_of_ne hk hpop).of_slabFree hxk hfree
  · rw [hup.largeAllocationOrders, hs₁]
    exact hI.table

/-- The drain loop of `free` keeps the invariant and leaves at most
`PER_CORE_FREE_LIST_REFILL` objects on the list. -/
theorem drain (hI : MallocInv heapDebug s L O F live) {fuel : Nat} {s' : State}
    (hs : drainFreeList c i fuel s = some s') :
    (∃ L' O' F', MallocInv heapDebug s' L' O' F' live) ∧
      s'.freeListSizes c i ≤ perCoreFreeListRefill := by
  induction fuel generalizing s L O F with
  | zero =>
    rw [drainFreeList] at hs
    split_ifs at hs with hlt
    cases hs
    exact ⟨⟨L, O, F, hI⟩, by omega⟩
  | succ fuel ih =>
    rw [drainFreeList] at hs
    split_ifs at hs with hlt
    · obtain ⟨⟨s₁, x⟩, hpop, hs⟩ := Option.bind_eq_some_iff.mp hs
      obtain ⟨s₂, hfree, hs⟩ := Option.bind_eq_some_iff.mp hs
      obtain ⟨L', O', t, -, hI'⟩ := hI.drainStep hpop hfree
      exact ih hI' hs
    · cases hs
      exact ⟨⟨L, O, F, hI⟩, by omega⟩

/-! #### `malloc` -/

/-- `alloc` takes the head of the list of class `i` for a request of that class. -/
theorem allocPop (hI : MallocInv heapDebug s L O F live) {s' : State} {x size : Nat}
    (hpop : popFreeList s c i = some (s', x)) (hsize : sizeClass size = some i) (hpos : 0 < size) :
    MallocInv heapDebug s' L O (Function.update F (c, i) ((F (c, i)).tail)) ((x, size) :: live) := by
  have hp := hI.perCore c i
  obtain ⟨hfl, hs'⟩ := popFreeList_eq_some.mp hpop
  have hc := hp.chain
  rw [hfl] at hc
  obtain ⟨t, ht⟩ := hc.eq_cons_of_some
  have hsmall := isSmall_of_sizeClass hsize
  -- the object moves from the per-core list to the live objects
  have hperm : cached F ++ smallLive live ~
      cached (Function.update F (c, i) t) ++ smallLive ((x, size) :: live) := by
    rw [smallLive_cons_of_small hsmall]
    exact ((Ledger.flatMap_of_perm_cons nodup_perCoreKeys (mem_perCoreKeys _)
      (List.Perm.of_eq ht)).append_right _).trans List.perm_middle.symm
  rw [ht, List.tail_cons]
  subst hs'
  refine ⟨?_, fun c' i' => ?_, fun a ha => ?_, ?_⟩
  · rw [largeBlocks_cons_of_small hsmall]
    exact (hI.slab.perm_out hperm).frame rfl rfl rfl (fun _ _ => rfl) hI.slab.phys
  · by_cases hk : (c', i') = (c, i)
    · obtain ⟨rfl, rfl⟩ := Prod.mk.inj hk
      rw [Function.update_self]
      rw [ht] at hp
      exact (hp.pop hpop).2
    · rw [Function.update_of_ne hk]
      exact (hI.perCore c' i').pop_of_ne hk hpop
  · rcases List.mem_cons.mp ha with rfl | ha
    · refine ⟨hpos, fun i' hi' => ?_, fun h => absurd (hsize.symm.trans h) (by simp)⟩
      obtain rfl : i = i' := Option.some.inj (hsize.symm.trans hi')
      exact hp.objectSize x (ht ▸ List.mem_cons_self)
    · exact (hI.liveOk a ha).congr fun _ _ => rfl
  · rw [largeBlocks_cons_of_small hsmall]
    exact hI.table

/-- The small-object path of `alloc`: after the refill the list holds an object, which is
handed out. -/
theorem allocSmall (hI : MallocInv heapDebug s L O F live) {s' : State} {r : Option Nat}
    {size : Nat} (hs : Heap.allocSmall s c i = some (s', r)) (hsize : sizeClass size = some i)
    (hpos : 0 < size) :
    ∃ x, r = some x ∧ ∃ L' O' F', MallocInv heapDebug s' L' O' F' ((x, size) :: live) := by
  unfold Heap.allocSmall at hs
  obtain ⟨s₁, hs₁, hfin⟩ := Option.map_eq_some_iff.mp hs
  have h₁ : (∃ L₁ O₁ F₁, MallocInv heapDebug s₁ L₁ O₁ F₁ live) ∧ 0 < s₁.freeListSizes c i := by
    split_ifs at hs₁ with hmin
    · obtain ⟨hI₁, hlt⟩ := hI.refill hs₁
      exact ⟨hI₁, by omega⟩
    · cases hs₁
      exact ⟨⟨L, O, F, hI⟩, by simp only [minPerCoreFreeList] at hmin; omega⟩
  obtain ⟨⟨L₁, O₁, F₁, hI₁⟩, hpos₁⟩ := h₁
  obtain ⟨x, t, -, hfl⟩ := (hI₁.perCore c i).exists_cons hpos₁
  obtain ⟨s₂, hpop⟩ : ∃ s₂, popFreeList s₁ c i = some (s₂, x) :=
    ⟨_, popFreeList_eq_some.mpr ⟨hfl, rfl⟩⟩
  rw [hpop] at hfin
  obtain ⟨rfl, rfl⟩ := Prod.mk.inj hfin
  exact ⟨x, rfl, L₁, O₁, _, hI₁.allocPop hpop hsize hpos⟩

/-- `large_alloc`: the new block is live and recorded in the table. -/
theorem largeAlloc (hI : MallocInv heapDebug s L O F live) {s' : State} {size page : Nat}
    (hs : Heap.largeAlloc s size = some (s', page)) (hsize : sizeClass size = none)
    (hpos : 0 < size) : MallocInv heapDebug s' L O F ((page, size) :: live) := by
  unfold Heap.largeAlloc at hs
  obtain ⟨order, horder, hs⟩ := Option.bind_eq_some_iff.mp hs
  obtain ⟨⟨phys, page'⟩, halloc, hs⟩ := Option.bind_eq_some_iff.mp hs
  obtain ⟨s₁, hmark, heq⟩ := Option.map_eq_some_iff.mp hs
  obtain ⟨rfl, rfl⟩ := Prod.mk.inj heq
  unfold largeAllocationMark at hmark
  dsimp only at hmark
  split_ifs at hmark
  cases hmark
  have hlarge := isSmall_of_sizeClass_none hsize
  have hord : largeOrder size = order := by simp [largeOrder, horder]
  obtain ⟨hle, hfit, -⟩ := largeAllocationOrderForSize_spec horder
  have hslab := hI.slab.allocOrder halloc
  refine ⟨?_, fun c' i' => (hI.perCore c' i').congr rfl rfl (fun _ _ => rfl) fun _ _ => rfl,
    fun a ha => ?_, ?_⟩
  · rw [smallLive_cons_of_large hlarge, largeBlocks_cons_of_large hlarge, hord]
    exact hslab.frame rfl rfl rfl (fun _ _ => rfl) hslab.phys
  · rcases List.mem_cons.mp ha with rfl | ha
    · exact ⟨hpos, fun i hi => absurd (hsize.symm.trans hi) (by simp), fun _ => hord ▸ hfit⟩
    · exact (hI.liveOk a ha).congr fun _ _ => rfl
  · rw [largeBlocks_cons_of_large hlarge, hord]
    exact hI.table.mark (hI.slab.phys.allocOrder_frameAddress halloc) hle
      fun b hb => hslab.frameIndex_ne hb

/-- `malloc` keeps the invariant, and never returns `NULL`: the new allocation is live. -/
theorem malloc (hI : MallocInv heapDebug s L O F live) {size : Nat} {s' : State} {r : Option Nat}
    (hs : Heap.malloc s c size = some (s', r)) :
    ∃ p, r = some p ∧ ∃ L' O' F', MallocInv heapDebug s' L' O' F' ((p, size) :: live) := by
  unfold Heap.malloc at hs
  split_ifs at hs with h0
  have hpos : 0 < size := Nat.pos_of_ne_zero h0
  split at hs
  next i hsize => exact hI.allocSmall hs hsize hpos
  next hsize =>
    obtain ⟨⟨s₁, page⟩, hlarge, heq⟩ := Option.map_eq_some_iff.mp hs
    cases heq
    exact ⟨page, rfl, L, O, F, hI.largeAlloc hlarge hsize hpos⟩

/-! #### `free` -/

/-- A live small allocation lies in a slot of a listed slab of its class. -/
theorem small_slot (hI : MallocInv heapDebug s L O F live) {a : Nat × Nat} (ha : a ∈ live)
    (hsize : sizeClass a.2 = some i) :
    ∃ kind, slabOf a.1 ∈ L (i, kind) ∧ a.1 ∈ slots heapDebug i (slabOf a.1) := by
  obtain ⟨⟨j, kind⟩, hk, hslot⟩ := hI.slab.slabOk_of_out
    (List.mem_append_right _ (mem_smallLive ha (isSmall_of_sizeClass hsize)))
  -- the slab's header names the class of the request
  obtain rfl : j = i := objectSizes_inj
    ((hI.slab.slab _ _ hk).objectSize.symm.trans ((hI.liveOk a ha).objectSize i hsize))
  exact ⟨kind, hk, hslot⟩

/-- `free` of a live small allocation, on a list with room: the object is pushed on it. -/
theorem freeSmall (hI : MallocInv heapDebug s L O F live) {p size : Nat} (ha : (p, size) ∈ live)
    (hsize : sizeClass size = some i) (hlt : s.freeListSizes c i < maxPerCoreFreeList) :
    MallocInv heapDebug (pushFreeList s c i p) L O
      (Function.update F (c, i) (p :: F (c, i))) (live.erase (p, size)) := by
  have hsmall := isSmall_of_sizeClass hsize
  have hlive : smallLive live ~ p :: smallLive (live.erase (p, size)) := by
    have := smallLive_perm (List.perm_cons_erase ha)
    rwa [smallLive_cons_of_small hsmall] at this
  have hlarge : largeBlocks live ~ largeBlocks (live.erase (p, size)) := by
    have := largeBlocks_perm (List.perm_cons_erase ha)
    rwa [largeBlocks_cons_of_small hsmall] at this
  -- the object moves from the live objects to the per-core list
  have hperm : cached F ++ smallLive live ~
      cached (Function.update F (c, i) (p :: F (c, i))) ++ smallLive (live.erase (p, size)) :=
    calc cached F ++ smallLive live
        _ ~ cached F ++ p :: smallLive (live.erase (p, size)) := hlive.append_left _
        _ ~ p :: (cached F ++ smallLive (live.erase (p, size))) := List.perm_middle
        _ ~ cached (Function.update F (c, i) (p :: F (c, i))) ++ smallLive (live.erase (p, size)) :=
          ((Ledger.flatMap_update_cons F p nodup_perCoreKeys (mem_perCoreKeys _)).append_right _).symm
  have hp : p ∈ cached F ++ smallLive live := List.mem_append_right _ (mem_smallLive ha hsmall)
  have hpk : ∀ k, p ∉ F k := fun k h =>
    List.disjoint_of_nodup_append hI.slab.outNodup (mem_cached h) (mem_smallLive ha hsmall)
  refine ⟨((hI.slab.perm_out hperm).perm_other hlarge).frame rfl rfl rfl (fun x hx => ?_)
      ((hI.slab.perm_out hperm).perm_other hlarge).phys, fun c' i' => ?_,
    fun a ha' => (hI.liveOk a (List.mem_of_mem_erase ha')).congr fun _ _ => rfl,
    hI.table.perm hlarge⟩
  · exact Function.update_of_ne (fun (e : x = p) => hx (e ▸ hperm.subset hp)) ..
  · by_cases hk : (c', i') = (c, i)
    · obtain ⟨rfl, rfl⟩ := Prod.mk.inj hk
      rw [Function.update_self]
      exact (hI.perCore _ _).push (hpk _) hlt ((hI.liveOk _ ha).objectSize _ hsize)
    · rw [Function.update_of_ne hk]
      exact (hI.perCore c' i').push_of_ne hk (hpk _)

/-- `free` of a live large allocation: its block goes back to the frame allocator and its
entry is cleared. -/
theorem freeLarge (hI : MallocInv heapDebug s L O F live) {p size : Nat} {phys : Physmem.State}
    (ha : (p, size) ∈ live) (hsize : sizeClass size = none)
    (hfree : physmemFreeOrder s.phys p (largeOrder size) = some phys) :
    MallocInv heapDebug
      { s with
        largeAllocationOrders :=
          Function.update s.largeAllocationOrders (frameIndexFromAddress p) heapLargeAllocNone
        phys } L O F (live.erase (p, size)) := by
  have hlarge := isSmall_of_sizeClass_none hsize
  have hlive : smallLive live ~ smallLive (live.erase (p, size)) := by
    have := smallLive_perm (List.perm_cons_erase ha)
    rwa [smallLive_cons_of_large hlarge] at this
  have hblocks : largeBlocks live ~ (p, largeOrder size) :: largeBlocks (live.erase (p, size)) := by
    have := largeBlocks_perm (List.perm_cons_erase ha)
    rwa [largeBlocks_cons_of_large hlarge] at this
  have hslab := (hI.slab.perm_out (hlive.append_left _)).perm_other hblocks
  have hslab' := hslab.freeOrder hfree
  exact ⟨hslab'.frame rfl rfl rfl (fun _ _ => rfl) hslab'.phys,
    fun c' i' => (hI.perCore c' i').congr rfl rfl (fun _ _ => rfl) fun _ _ => rfl,
    fun a ha' => (hI.liveOk a (List.mem_of_mem_erase ha')).congr fun _ _ => rfl,
    (hI.table.perm hblocks).clear fun b hb => hslab.frameIndex_ne hb⟩

/-- `free` of a live allocation keeps the invariant, with the allocation no longer live. -/
theorem free (hI : MallocInv heapDebug s L O F live) {p size : Nat} (ha : (p, size) ∈ live)
    {s' : State} (hs : Heap.free heapDebug s c p = some s') :
    ∃ L' O' F', MallocInv heapDebug s' L' O' F' (live.erase (p, size)) := by
  cases hsize : sizeClass size with
  | none =>
    -- a large allocation: the table records its block
    have hb := mem_largeBlocks ha (isSmall_of_sizeClass_none hsize)
    rw [free_of_tracked (hI.table.page _ hb) (hI.table.entry _ hb) (hI.table.order_ne_none hb)] at hs
    obtain ⟨phys, hfree, rfl⟩ := Option.map_eq_some_iff.mp hs
    exact ⟨L, O, F, hI.freeLarge ha hsize hfree⟩
  | some i =>
    -- a small allocation: a slot of a slab of its class
    obtain ⟨kind, hq, hslot⟩ := hI.small_slot ha hsize
    obtain ⟨hframe, hsan, hmod⟩ := slot_facts (hI.slab.slab _ _ hq).page hslot
    rw [free_of_slab hframe hsan ((hI.liveOk _ ha).objectSize i hsize) hmod] at hs
    obtain ⟨s₁, hs₁, rfl⟩ := Option.map_eq_some_iff.mp hs
    split_ifs at hs₁ with hfull
    · obtain ⟨⟨L₁, O₁, F₁, hI₁⟩, hle⟩ := hI.drain hs₁
      exact ⟨L₁, O₁, _, hI₁.freeSmall ha hsize (Nat.lt_of_le_of_lt hle (by decide))⟩
    · cases hs₁
      exact ⟨L, O, _, hI.freeSmall ha hsize (Nat.lt_of_not_le hfull)⟩

end MallocInv

/-! ### The footprints of the live allocations -/

section Footprints

open Footprint (bytes)

/-- An object slot lies inside its slab's frame. -/
theorem slot_subset_frame {heapDebug : Bool} {i : Fin numObjectSizes} {q x : Nat}
    (hx : x ∈ slots heapDebug i q) : bytes (x, objectSizes i) ⊆ bytes (q, frameSize) := by
  obtain ⟨h₁, h₂⟩ := slotStart_le_slot hx
  rw [slotStart] at h₁
  intro b hb
  rw [Footprint.mem_bytes] at hb ⊢
  dsimp only at hb ⊢
  omega

/-- Distinct slots of one slab share no address. -/
theorem disjoint_slots {heapDebug : Bool} {i : Fin numObjectSizes} {q x y : Nat}
    (hx : x ∈ slots heapDebug i q) (hy : y ∈ slots heapDebug i q) (hxy : x ≠ y) :
    (bytes (x, objectSizes i)).Disjoint (bytes (y, objectSizes i)) := by
  obtain ⟨j, -, rfl⟩ := mem_slots.mp hx
  obtain ⟨j', -, rfl⟩ := mem_slots.mp hy
  exact Footprint.disjoint_cells fun e => hxy (by rw [e])

/-- Distinct frames share no address. -/
theorem disjoint_frames {q q' : Nat} (hq : physmemIsFrameAddress q = true)
    (hq' : physmemIsFrameAddress q' = true) (hne : q ≠ q') :
    (bytes (q, frameSize)).Disjoint (bytes (q', frameSize)) := by
  rw [← Physmem.address_frameIndex hq, ← Physmem.address_frameIndex hq']
  exact Footprint.disjoint_cells fun e => hne (by
    rw [← Physmem.address_frameIndex hq, ← Physmem.address_frameIndex hq', e])

namespace MallocInv

variable {heapDebug : Bool} {s : State} {L : Fin numObjectSizes × SlabKind → List Nat}
  {O : Nat → List Nat} {F : Fin maxCores × Fin numObjectSizes → List Nat}
  {live : List (Nat × Nat)}

/-- The objects handed out by the slab layer, each with its slab's object size, share no
address. -/
theorem nodup_out_bytes (hI : MallocInv heapDebug s L O F live) :
    ((cached F ++ smallLive live).flatMap
      fun x => bytes (x, (s.slabs (slabOf x)).objectSize)).Nodup := by
  refine List.nodup_flatMap.mpr ⟨fun _ _ => Footprint.nodup_bytes _,
    hI.slab.outNodup.pairwise_of_forall_ne fun x hx y hy hxy => ?_⟩
  obtain ⟨k, hk, hxs⟩ := hI.slab.slabOk_of_out hx
  obtain ⟨k', hk', hys⟩ := hI.slab.slabOk_of_out hy
  have hox := (hI.slab.slab _ _ hk).objectSize
  have hoy := (hI.slab.slab _ _ hk').objectSize
  show (bytes (x, _)).Disjoint (bytes (y, _))
  rw [hox, hoy]
  by_cases hq : slabOf x = slabOf y
  · -- one slab: its header names one class, and the two objects are distinct slots
    rw [← hq] at hoy hys
    obtain ⟨j, kind⟩ := k
    obtain ⟨j', kind'⟩ := k'
    obtain rfl : j = j' := objectSizes_inj (hox.symm.trans hoy)
    exact disjoint_slots hxs hys hxy
  · -- two slabs: two frames
    exact List.disjoint_of_subset_right (slot_subset_frame hys)
      (List.disjoint_of_subset_left (slot_subset_frame hxs)
        (disjoint_frames (hI.slab.slab _ _ hk).page (hI.slab.slab _ _ hk').page hq))

/-- The blocks of the frame allocator, the slabs and the live large blocks, share no
address. -/
theorem nodup_blockBytes (hI : MallocInv heapDebug s L O F live) :
    (((slabPages L).map (·, 0) ++ largeBlocks live).flatMap Physmem.blockBytes).Nodup :=
  hI.slab.phys.nodup_blockBytes fun b hb => by
    rcases List.mem_append.mp hb with hb | hb
    · obtain ⟨q, hq, rfl⟩ := List.mem_map.mp hb
      obtain ⟨k, hk⟩ := mem_slabPages.mp hq
      exact (hI.slab.slab k q hk).page
    · exact hI.table.page b hb

/-- No address is in two live allocations: a small one lies in its slot, a large one in its
block, and the slots of the slabs and the blocks share no address. -/
theorem nodup_bytes (hI : MallocInv heapDebug s L O F live) : (live.flatMap bytes).Nodup := by
  have hsplit : live.flatMap bytes ~ (live.filter fun a => isSmall a.2).flatMap bytes ++
      (live.filter fun a => !isSmall a.2).flatMap bytes := by
    rw [← List.flatMap_append]
    exact ((List.filter_append_perm _ live).flatMap_right _).symm
  -- a small allocation lies in its slot
  have hsmall : (live.filter fun a => isSmall a.2).flatMap bytes <+
      (smallLive live).flatMap fun x => bytes (x, (s.slabs (slabOf x)).objectSize) := by
    rw [smallLive, List.flatMap_map]
    refine List.Sublist.flatMap_right _ fun a ha => ?_
    obtain ⟨ha, hs⟩ := List.mem_filter.mp ha
    obtain ⟨i, hi⟩ := Option.isSome_iff_exists.mp hs
    rw [(hI.liveOk a ha).objectSize i hi]
    exact Footprint.bytes_sublist (le_of_sizeClass hi)
  -- a large allocation lies in its block
  have hlarge : (live.filter fun a => !isSmall a.2).flatMap bytes <+
      (largeBlocks live).flatMap Physmem.blockBytes := by
    rw [largeBlocks, List.flatMap_map]
    refine List.Sublist.flatMap_right _ fun a ha => ?_
    obtain ⟨ha, hs⟩ := List.mem_filter.mp ha
    have hn : sizeClass a.2 = none := by simpa [isSmall] using hs
    exact Footprint.bytes_sublist ((hI.liveOk a ha).fit hn)
  -- the slots lie in the slabs' frames
  have hslot : ((smallLive live).flatMap fun x => bytes (x, (s.slabs (slabOf x)).objectSize)) ⊆
      ((slabPages L).map (·, 0)).flatMap Physmem.blockBytes := by
    intro b hb
    obtain ⟨x, hx, hb⟩ := List.mem_flatMap.mp hb
    obtain ⟨k, hk, hxs⟩ :=
      hI.slab.slabOk_of_out (List.mem_append_right (cached F) hx)
    rw [(hI.slab.slab _ _ hk).objectSize] at hb
    refine List.mem_flatMap.mpr ⟨(slabOf x, 0), List.mem_map_of_mem ?_, ?_⟩
    · exact mem_slabPages.mpr ⟨k, hk⟩
    · simpa [Physmem.blockBytes] using slot_subset_frame hxs hb
  have hsmallNd := hI.nodup_out_bytes.sublist
    ((List.sublist_append_right (cached F) (smallLive live)).flatMap _)
  have hblocks := hI.nodup_blockBytes
  rw [List.flatMap_append, List.nodup_append'] at hblocks
  obtain ⟨-, hlargeNd, hdis⟩ := hblocks
  refine hsplit.nodup_iff.mpr (List.Nodup.sublist (hsmall.append hlarge) ?_)
  exact hsmallNd.append hlargeNd (List.disjoint_of_subset_left hslot hdis)

end MallocInv

end Footprints

end DioptaseOS.Heap
