import DioptaseOS.Heap.Basic
import DioptaseOS.Physmem.System

/-!
# The kernel heap: the slab invariant

The slab layer keeps, for each size class, three disjoint doubly linked lists of slabs, and
in each slab a `NULL`-terminated chain of its free objects. This file states what every run
of `slab_alloc` and `slab_free` from `heap_init()` keeps: the lists are well formed, a slab's
list matches its free count, and the free chain of a slab together with the objects handed
out from it are exactly the slab's object slots. The frames of the slabs are accounted for
by the frame allocator's invariant, which is how a new slab is known to be fresh.

The abstract lists `L` (by class and kind) and chains `O` (by slab) are ghost state: the
invariant says the memory represents them, and the runs theorem then reads them back by
walking the `next` pointers as the source does.

## Main definitions

* `SlabOk` — one slab: its header, its free chain and the objects handed out from it
* `SlabLayout` — the slab lists, every slab on them, the objects handed out, and the frames
* `SlabInv` — `SlabLayout` and the free count each list requires
* `SlabStep`, `SlabReachable` — runs of `slab_alloc` and `slab_free`

## Main results

* `SlabInv.slabAlloc`, `SlabInv.slabFree` — each call keeps the invariant
* `slab_invariant` — the slab cache invariant along every run
-/

namespace DioptaseOS.Heap

open PtrList
open Physmem (frameSize maxCores physmemAlloc physmemFree physmemIsFrameAddress PhysInv)
open scoped List

/-! ### Specifications of the slab functions -/

/-- The free-list loop of `slab_create` writes only the objects it threads. -/
theorem initFreeList_of_not_mem (size : Nat) :
    ∀ (n : Nat) {next : Nat → Option Nat} {current x : Nat},
      x ∉ List.range' current (n + 1) size → initFreeList size next current n x = next x
  | 0, next, current, x, hx => by
    rw [initFreeList, Function.update_of_ne (by simpa using hx)]
  | n + 1, next, current, x, hx => by
    rw [List.range'_succ, List.mem_cons, not_or] at hx
    rw [initFreeList, initFreeList_of_not_mem size n hx.2, Function.update_of_ne hx.1]

/-- The free-list loop of `slab_create` threads `n + 1` objects of `size` bytes from
`current` on. -/
theorem singly_initFreeList {size : Nat} (hsize : 0 < size) :
    ∀ (n : Nat) (next : Nat → Option Nat) (current : Nat),
      Singly (initFreeList size next current n) (some current) (List.range' current (n + 1) size)
  | 0, next, current => Singly.nil.push List.not_mem_nil
  | n + 1, next, current => by
    have hcur : current ∉ List.range' (current + size) (n + 1) size := by
      rw [List.mem_range']
      omega
    have ih := singly_initFreeList hsize n (Function.update next current (some (current + size)))
      (current + size)
    rw [List.range'_succ, initFreeList]
    -- the first object points at the second, which heads the rest of the chain
    refine (ih.push hcur).congr fun x _ => ?_
    by_cases hx : x = current
    · subst hx
      rw [Function.update_self, initFreeList_of_not_mem size n hcur, Function.update_self]
    · rw [Function.update_of_ne hx]

theorem takeObject_eq_some {s s' : State} {slab obj : Nat} :
    takeObject s slab = some (s', obj) ↔
      (s.slabs slab).freeList = some obj ∧
        s' = { s with
          slabs := Function.update s.slabs slab
            { s.slabs slab with
              freeList := s.objNext obj
              freeObjects := (s.slabs slab).freeObjects - 1 } } := by
  unfold takeObject
  cases (s.slabs slab).freeList with
  | none => simp
  | some a =>
    simp only [Option.map_some, Option.some.injEq, Prod.mk.injEq]
    constructor
    · rintro ⟨rfl, rfl⟩
      exact ⟨rfl, rfl⟩
    · rintro ⟨rfl, rfl⟩
      exact ⟨rfl, rfl⟩

/-- A write of a slab header's free list and free count keeps every header's object size. -/
@[simp] theorem objectSize_update {slabs : Nat → Slab} {p q : Nat} {fl : Option Nat} {n : Nat} :
    (Function.update slabs p { slabs p with freeList := fl, freeObjects := n } q).objectSize =
      (slabs q).objectSize := by
  by_cases h : q = p
  · subst h
    rw [Function.update_self]
  · rw [Function.update_of_ne h]

/-- The slab layer leaves the fields above it alone: the per-core free lists and the
large-allocation table. -/
structure SlabFrame (s s' : State) : Prop where
  freeLists : s'.freeLists = s.freeLists
  freeListSizes : s'.freeListSizes = s.freeListSizes
  largeAllocationOrders : s'.largeAllocationOrders = s.largeAllocationOrders

theorem SlabFrame.trans {s₁ s₂ s₃ : State} (h₁ : SlabFrame s₁ s₂) (h₂ : SlabFrame s₂ s₃) :
    SlabFrame s₁ s₃ :=
  ⟨h₂.freeLists.trans h₁.freeLists, h₂.freeListSizes.trans h₁.freeListSizes,
    h₂.largeAllocationOrders.trans h₁.largeAllocationOrders⟩

theorem slabCreate_slabFrame {s s' : State} {c : Fin maxCores} {size slab : Nat}
    (h : slabCreate s c size = some (s', slab)) : SlabFrame s s' := by
  unfold slabCreate at h
  obtain ⟨⟨phys, slab'⟩, -, h⟩ := Option.bind_eq_some_iff.mp h
  obtain ⟨i, -, h⟩ := Option.map_eq_some_iff.mp h
  cases h
  exact ⟨rfl, rfl, rfl⟩

theorem slabAlloc_slabFrame {s s' : State} {c : Fin maxCores} {size obj : Nat}
    (hs : slabAlloc s c size = some (s', obj)) : SlabFrame s s' := by
  unfold slabAlloc at hs
  obtain ⟨i, -, hs⟩ := Option.bind_eq_some_iff.mp hs
  dsimp only at hs
  split at hs
  · obtain ⟨⟨s₁, obj₁⟩, htake, hfin⟩ := Option.map_eq_some_iff.mp hs
    obtain ⟨-, rfl⟩ := takeObject_eq_some.mp htake
    split_ifs at hfin <;> cases hfin <;> exact ⟨rfl, rfl, rfl⟩
  · split at hs
    · obtain ⟨-, rfl⟩ := takeObject_eq_some.mp hs
      exact ⟨rfl, rfl, rfl⟩
    · obtain ⟨⟨s₁, slab⟩, hcreate, hs⟩ := Option.bind_eq_some_iff.mp hs
      obtain ⟨-, rfl⟩ := takeObject_eq_some.mp hs
      have h₁ := slabCreate_slabFrame hcreate
      exact ⟨h₁.freeLists, h₁.freeListSizes, h₁.largeAllocationOrders⟩

section Create

variable {heapDebug : Bool}

/-- `slab_create` for a cache whose `objects_per_slab` is the one `heap_init` computes:
`metadata_objects` and `free_objects` come out as the layout of `heap_init`, and the free
list threads every slot. -/
theorem slabCreate_eq_some {s s' : State} {c : Fin maxCores} {i : Fin numObjectSizes}
    {slab : Nat} (hops : (s.slabCaches i).objectsPerSlab = objectsPerSlab heapDebug i)
    (h : slabCreate s c (objectSizes i) = some (s', slab)) :
    ∃ phys, physmemAlloc s.phys c = some (phys, slab) ∧
      s' = { s with
        phys
        slabs := Function.update s.slabs slab
          ⟨some (slotStart heapDebug i slab), objectSizes i, objectsPerSlab heapDebug i⟩
        slabLinks := ⟨Function.update s.slabLinks.next slab none,
          Function.update s.slabLinks.prev slab none⟩
        objNext := initFreeList (objectSizes i) s.objNext (slotStart heapDebug i slab)
          (objectsPerSlab heapDebug i - 1) } := by
  unfold slabCreate at h
  obtain ⟨⟨phys, slab'⟩, hphys, h⟩ := Option.bind_eq_some_iff.mp h
  simp only [sizeClass_objectSizes, Option.map_some, Option.some.injEq] at h
  obtain ⟨rfl, rfl⟩ := Prod.mk.inj h
  -- `FRAME_SIZE / s - objects_per_slab` is the metadata count of `heap_init`
  have hmeta : frameSize / objectSizes i - (s.slabCaches i).objectsPerSlab =
      metadataObjects heapDebug (objectSizes i) := by
    rw [hops, objectsPerSlab, Nat.sub_sub_self (metadataObjects_le heapDebug i)]
  refine ⟨phys, hphys, ?_⟩
  simp only [hmeta, slotStart]
  rfl

end Create

/-! ### The slab lists -/

/-- Every slab list, by class and kind. -/
def slabKeys : List (Fin numObjectSizes × SlabKind) :=
  (List.finRange numObjectSizes).flatMap fun i =>
    [(i, .fullSlabs), (i, .partialSlabs), (i, .emptySlabs)]

theorem nodup_slabKeys : slabKeys.Nodup := by decide

theorem mem_slabKeys (k : Fin numObjectSizes × SlabKind) : k ∈ slabKeys := by
  obtain ⟨i, k⟩ := k
  cases k <;> simp [slabKeys]

/-- The slabs on all lists. -/
def slabPages (L : Fin numObjectSizes × SlabKind → List Nat) : List Nat := slabKeys.flatMap L

theorem mem_slabPages {L : Fin numObjectSizes × SlabKind → List Nat} {p : Nat} :
    p ∈ slabPages L ↔ ∃ k, p ∈ L k := by
  simp [slabPages, mem_slabKeys]

/-- The free count of a slab on each list: none free on the full list, some but not all on
the partial list, all on the empty list. -/
def FreeCount (objectsPerSlab : Nat) : SlabKind → Nat → Prop
  | .fullSlabs, n => n = 0
  | .partialSlabs, n => 0 < n ∧ n < objectsPerSlab
  | .emptySlabs, n => n = objectsPerSlab

instance (objectsPerSlab : Nat) (k : SlabKind) (n : Nat) : Decidable (FreeCount objectsPerSlab k n) :=
  match k with
  | .fullSlabs => inferInstanceAs (Decidable (n = 0))
  | .partialSlabs => inferInstanceAs (Decidable (0 < n ∧ n < objectsPerSlab))
  | .emptySlabs => inferInstanceAs (Decidable (n = objectsPerSlab))

/-- The list heads after a write of one cache. -/
theorem slabHeads_eq {s s' : State} {i : Fin numObjectSizes} {cache : SlabCache}
    (h : s'.slabCaches = Function.update s.slabCaches i cache)
    {heads : Fin numObjectSizes × SlabKind → Option Nat} (hi : ∀ k, heads (i, k) = cache.head k)
    (hj : ∀ j, j ≠ i → ∀ k, heads (j, k) = slabHeads s (j, k)) : slabHeads s' = heads := by
  funext ⟨j, k⟩
  by_cases hji : j = i
  · subst hji
    rw [slabHeads, h, Function.update_self, hi]
  · rw [slabHeads, h, Function.update_of_ne hji, hj j hji]
    rfl

/-! ### One slab -/

/-- A frame address is page aligned, and its frame lies below 4 GiB. -/
theorem frame_bounds {p : Nat} (h : physmemIsFrameAddress p = true) :
    p % frameSize = 0 ∧ p + frameSize ≤ 2 ^ 32 := by
  rw [Physmem.physmemIsFrameAddress_iff] at h
  simp only [Physmem.framesAddrStart, Physmem.framesAddrEnd, frameSize] at *
  omega

section Slabs

variable (heapDebug : Bool)

/-- The slab at `p`, of class `i`, with free chain `O`, while `out` are the objects handed
out: it is a frame, its header names the class's object size, its free list is the chain `O`
of `free_objects` objects, and the chain and the objects of `out` in this slab are exactly
its slots. -/
structure SlabOk (s : State) (out : List Nat) (i : Fin numObjectSizes) (p : Nat) (O : List Nat) :
    Prop where
  page : physmemIsFrameAddress p = true
  objectSize : (s.slabs p).objectSize = objectSizes i
  chain : Singly s.objNext (s.slabs p).freeList O
  count : O.length = (s.slabs p).freeObjects
  partition : O ++ out.filter (fun x => slabOf x == p) ~ slots heapDebug i p

variable {heapDebug} {s s' : State} {out out' : List Nat} {i : Fin numObjectSizes} {p obj : Nat}
  {O t : List Nat}

namespace SlabOk

theorem mem_slots_of_mem (h : SlabOk heapDebug s out i p O) {x : Nat} (hx : x ∈ O) :
    x ∈ slots heapDebug i p :=
  h.partition.subset (List.mem_append_left _ hx)

theorem mem_slots_of_out (h : SlabOk heapDebug s out i p O) {x : Nat} (hx : x ∈ out)
    (hxp : slabOf x = p) : x ∈ slots heapDebug i p :=
  h.partition.subset (List.mem_append_right _ (List.mem_filter.mpr ⟨hx, by simpa using hxp⟩))

theorem slabOf_of_mem (h : SlabOk heapDebug s out i p O) {x : Nat} (hx : x ∈ O) : slabOf x = p :=
  (slabOf_slot (frame_bounds h.page).1 (frame_bounds h.page).2 (h.mem_slots_of_mem hx)).1

/-- A free object of the slab is not handed out. -/
theorem not_mem_out (h : SlabOk heapDebug s out i p O) {x : Nat} (hx : x ∈ O) : x ∉ out := by
  have hnd := h.partition.nodup_iff.mpr (nodup_slots heapDebug i p)
  exact fun hout => List.disjoint_of_nodup_append hnd hx
    (List.mem_filter.mpr ⟨hout, by simpa using h.slabOf_of_mem hx⟩)

/-- The free count plus the objects handed out from the slab fill its slots. -/
theorem count_add (h : SlabOk heapDebug s out i p O) :
    (s.slabs p).freeObjects + (out.filter fun x => slabOf x == p).length =
      objectsPerSlab heapDebug i := by
  have := h.partition.length_eq
  rw [List.length_append, h.count, slots, List.length_range'] at this
  exact this

/-- A slab whose objects are all free has handed none out. -/
theorem not_out_of_full (h : SlabOk heapDebug s out i p O)
    (hc : (s.slabs p).freeObjects = objectsPerSlab heapDebug i) {x : Nat} (hx : x ∈ out) :
    slabOf x ≠ p := by
  have hnil : (out.filter fun x => slabOf x == p) = [] :=
    List.eq_nil_of_length_eq_zero (by have := h.count_add; omega)
  exact fun hxp => List.filter_eq_nil_iff.mp hnil x hx (by simpa using hxp)

/-- A slab with an object handed out has fewer free objects than slots. -/
theorem count_lt (h : SlabOk heapDebug s out i p O) {x : Nat} (hx : x ∈ out) (hxp : slabOf x = p) :
    (s.slabs p).freeObjects < objectsPerSlab heapDebug i := by
  have hpos : 0 < (out.filter fun x => slabOf x == p).length :=
    List.length_pos_of_mem (List.mem_filter.mpr ⟨hx, by simpa using hxp⟩)
  have := h.count_add
  omega

/-- The slab only reads its header, the `next` words of its free objects and the objects
handed out from it. -/
theorem congr (h : SlabOk heapDebug s out i p O) (hslab : s'.slabs p = s.slabs p)
    (hnext : ∀ x ∈ O, s'.objNext x = s.objNext x)
    (hout : (out'.filter fun x => slabOf x == p) = out.filter fun x => slabOf x == p) :
    SlabOk heapDebug s' out' i p O where
  page := h.page
  objectSize := by rw [hslab, h.objectSize]
  chain := by rw [hslab]; exact h.chain.congr hnext
  count := by rw [hslab, h.count]
  partition := by rw [hout]; exact h.partition

/-- Taking the first free object: `obj = slab->free_list; slab->free_list = obj->next;
slab->free_objects--`, and `obj` is handed out. -/
theorem take (h : SlabOk heapDebug s out i p (obj :: t))
    (hs : s'.slabs p = { s.slabs p with
      freeList := s.objNext obj, freeObjects := (s.slabs p).freeObjects - 1 })
    (hnext : ∀ x ∈ t, s'.objNext x = s.objNext x) : SlabOk heapDebug s' (obj :: out) i p t where
  page := h.page
  objectSize := by rw [hs]; exact h.objectSize
  chain := by
    have hc := h.chain
    rw [show (s.slabs p).freeList = some obj from h.chain.head] at hc
    rw [hs]
    exact hc.pop.congr hnext
  count := by
    rw [hs]
    have := h.count
    simp only [List.length_cons] at this ⊢
    omega
  partition := by
    have hobj : slabOf obj = p := h.slabOf_of_mem List.mem_cons_self
    rw [List.filter_cons_of_pos (by simpa using hobj)]
    exact List.perm_middle.trans h.partition

/-- Giving an object back: `obj->next = slab->free_list; slab->free_list = obj;
slab->free_objects++`. -/
theorem give (h : SlabOk heapDebug s out i p O) (hx : obj ∈ out) (hxp : slabOf obj = p)
    (hs : s'.slabs p = { s.slabs p with
      freeList := some obj, freeObjects := (s.slabs p).freeObjects + 1 })
    (hnext : ∀ x ∈ obj :: O, s'.objNext x = Function.update s.objNext obj (s.slabs p).freeList x) :
    SlabOk heapDebug s' (out.erase obj) i p (obj :: O) where
  page := h.page
  objectSize := by rw [hs]; exact h.objectSize
  chain := by
    rw [hs]
    exact (h.chain.push fun hO => h.not_mem_out hO hx).congr hnext
  count := by rw [hs, List.length_cons, h.count]
  partition := by
    -- `obj` moves from the objects handed out to the front of the chain
    have hf : out.filter (fun x => slabOf x == p) ~
        obj :: (out.erase obj).filter fun x => slabOf x == p := by
      have := (List.perm_cons_erase hx).filter fun x => slabOf x == p
      rwa [List.filter_cons_of_pos (by simpa using hxp)] at this
    exact List.perm_middle.symm.trans ((hf.symm.append_left O).trans h.partition)

/-- A slab fresh from `slab_create`: every slot is on its free chain. -/
theorem create {next : Nat → Option Nat} (hp : physmemIsFrameAddress p = true)
    (hs : s'.slabs p = ⟨some (slotStart heapDebug i p), objectSizes i, objectsPerSlab heapDebug i⟩)
    (hnext : ∀ x ∈ slots heapDebug i p, s'.objNext x =
      initFreeList (objectSizes i) next (slotStart heapDebug i p) (objectsPerSlab heapDebug i - 1) x)
    (hout : ∀ x ∈ out, slabOf x ≠ p) : SlabOk heapDebug s' out i p (slots heapDebug i p) where
  page := hp
  objectSize := by rw [hs]
  chain := by
    have h3 := three_le_objectsPerSlab heapDebug i
    have hc := singly_initFreeList (objectSizes_pos i) (objectsPerSlab heapDebug i - 1) next
      (slotStart heapDebug i p)
    rw [Nat.sub_add_cancel (by omega)] at hc
    rw [hs]
    exact hc.congr hnext
  count := by rw [hs, slots, List.length_range']
  partition := by
    rw [List.filter_eq_nil_iff.mpr fun x hx => by simpa using hout x hx, List.append_nil]

end SlabOk

/-- A slab reads the objects handed out only as a multiset. -/
theorem SlabOk.perm_out (h : SlabOk heapDebug s out i p O) (hout : out ~ out') :
    SlabOk heapDebug s out' i p O :=
  { h with partition := ((hout.filter _).symm.append_left O).trans h.partition }

/-- Objects of another slab do not pass a slab's filter. -/
theorem filter_erase_of_ne {l : List Nat} {a p : Nat} (h : slabOf a ≠ p) :
    ((l.erase a).filter fun x => slabOf x == p) = l.filter fun x => slabOf x == p := by
  rw [← List.erase_filter, List.erase_of_not_mem]
  simpa using fun _ => h

end Slabs

/-! ### The slab layer -/

section Layout

variable (heapDebug : Bool)

/-- The slab layer of the heap `s`, whose slab lists are `L` (by class and kind) and whose
slabs have the free chains `O`, while `out` are the objects handed out and `other` the blocks
the frame allocator has handed out besides the slabs: every cache has the `objects_per_slab`
of `heap_init`; the lists are disjoint well-formed doubly linked lists from the heads of the
caches; `num_empty_slabs` counts the empty list, which holds at most two slabs; every slab on
a list of class `i` satisfies `SlabOk`; every object handed out is in a slab on the lists, and
none twice; and the frame allocator's invariant holds with the slabs as pages handed out. -/
structure SlabLayout (s : State) (L : Fin numObjectSizes × SlabKind → List Nat)
    (O : Nat → List Nat) (out : List Nat) (other : List (Nat × Nat)) : Prop where
  objectsPerSlab_eq : ∀ i, (s.slabCaches i).objectsPerSlab = objectsPerSlab heapDebug i
  family : Family s.slabLinks (slabHeads s) L
  numEmpty : ∀ i, (s.slabCaches i).numEmptySlabs = (L (i, .emptySlabs)).length
  numEmpty_le : ∀ i, (L (i, .emptySlabs)).length ≤ 2
  slab : ∀ k, ∀ p ∈ L k, SlabOk heapDebug s out k.1 p (O p)
  inSlab : ∀ x ∈ out, slabOf x ∈ slabPages L
  outNodup : out.Nodup
  phys : PhysInv ⟨s.phys, (slabPages L).map (·, 0) ++ other⟩

/-- The slab invariant: `SlabLayout`, and every slab is on the list its free count calls for. -/
structure SlabInv (s : State) (L : Fin numObjectSizes × SlabKind → List Nat)
    (O : Nat → List Nat) (out : List Nat) (other : List (Nat × Nat)) : Prop
    extends SlabLayout heapDebug s L O out other where
  freeCount : ∀ k, ∀ p ∈ L k,
    FreeCount (objectsPerSlab heapDebug k.1) k.2 (s.slabs p).freeObjects

variable {heapDebug} {s s' : State} {L L' : Fin numObjectSizes × SlabKind → List Nat}
  {O : Nat → List Nat} {out : List Nat} {other : List (Nat × Nat)} {p obj : Nat}
  {k : Fin numObjectSizes × SlabKind}

namespace SlabLayout

/-- An object handed out lies in a slot of a slab on the lists. -/
theorem slabOk_of_out (hL : SlabLayout heapDebug s L O out other) {x : Nat} (hx : x ∈ out) :
    ∃ k, slabOf x ∈ L k ∧ x ∈ slots heapDebug k.1 (slabOf x) := by
  obtain ⟨k, hk⟩ := mem_slabPages.mp (hL.inSlab x hx)
  exact ⟨k, hk, (hL.slab k _ hk).mem_slots_of_out hx rfl⟩

/-- Taking the first free object of the slab `p`. -/
theorem take (hL : SlabLayout heapDebug s L O out other) (hp : p ∈ L k) {t : List Nat}
    (hO : O p = obj :: t) :
    SlabLayout heapDebug
      { s with
        slabs := Function.update s.slabs p
          { s.slabs p with
            freeList := s.objNext obj, freeObjects := (s.slabs p).freeObjects - 1 } }
      L (Function.update O p t) (obj :: out) other where
  objectsPerSlab_eq := hL.objectsPerSlab_eq
  family := hL.family
  numEmpty := hL.numEmpty
  numEmpty_le := hL.numEmpty_le
  slab k' q hq := by
    have hpk := hL.slab k p hp
    rw [hO] at hpk
    have hobj : slabOf obj = p := hpk.slabOf_of_mem List.mem_cons_self
    by_cases hqp : q = p
    · subst hqp
      rw [Function.update_self]
      have hqk := hL.slab k' q hq
      rw [hO] at hqk
      exact hqk.take (Function.update_self ..) fun _ _ => rfl
    · rw [Function.update_of_ne hqp]
      refine (hL.slab k' q hq).congr (Function.update_of_ne hqp ..) (fun _ _ => rfl) ?_
      rw [List.filter_cons_of_neg (by simpa [hobj] using Ne.symm hqp)]
  inSlab x hx := by
    have hpk := hL.slab k p hp
    rw [hO] at hpk
    rcases List.mem_cons.mp hx with rfl | hx
    · rw [hpk.slabOf_of_mem List.mem_cons_self]
      exact mem_slabPages.mpr ⟨k, hp⟩
    · exact hL.inSlab x hx
  outNodup := by
    have hpk := hL.slab k p hp
    rw [hO] at hpk
    exact List.nodup_cons.mpr ⟨hpk.not_mem_out List.mem_cons_self, hL.outNodup⟩
  phys := hL.phys

/-- Giving the object `obj` back to its slab. -/
theorem give (hL : SlabLayout heapDebug s L O out other) (hx : obj ∈ out) :
    SlabLayout heapDebug
      { s with
        objNext := Function.update s.objNext obj (s.slabs (slabOf obj)).freeList
        slabs := Function.update s.slabs (slabOf obj)
          { s.slabs (slabOf obj) with
            freeList := some obj, freeObjects := (s.slabs (slabOf obj)).freeObjects + 1 } }
      L (Function.update O (slabOf obj) (obj :: O (slabOf obj))) (out.erase obj) other where
  objectsPerSlab_eq := hL.objectsPerSlab_eq
  family := hL.family
  numEmpty := hL.numEmpty
  numEmpty_le := hL.numEmpty_le
  slab k' q hq := by
    by_cases hqp : q = slabOf obj
    · subst hqp
      rw [Function.update_self]
      exact (hL.slab k' _ hq).give hx rfl (Function.update_self ..) fun _ _ => rfl
    · rw [Function.update_of_ne hqp]
      have hq' := hL.slab k' q hq
      -- the free objects of another slab are not `obj`
      refine hq'.congr (Function.update_of_ne hqp ..) (fun x hxq => ?_)
        (filter_erase_of_ne (Ne.symm hqp))
      refine Function.update_of_ne (fun e => hqp ?_) ..
      rw [← hq'.slabOf_of_mem hxq, e]
  inSlab x hx := hL.inSlab x (List.mem_of_mem_erase hx)
  outNodup := hL.outNodup.erase obj
  phys := hL.phys

/-- Changing the slab lists, the list heads and the frame allocator, with every slab's header
and free chain left alone. -/
theorem relist (hL : SlabLayout heapDebug s L O out other)
    (hops : ∀ i, (s'.slabCaches i).objectsPerSlab = (s.slabCaches i).objectsPerSlab)
    (hslabs : s'.slabs = s.slabs) (hnext : s'.objNext = s.objNext)
    (hfam : Family s'.slabLinks (slabHeads s') L')
    (hnum : ∀ i, (s'.slabCaches i).numEmptySlabs = (L' (i, .emptySlabs)).length)
    (hle : ∀ i, (L' (i, .emptySlabs)).length ≤ 2)
    (hmem : ∀ k', ∀ q ∈ L' k', ∃ k, k.1 = k'.1 ∧ q ∈ L k)
    (hout : ∀ x ∈ out, slabOf x ∈ slabPages L')
    (hphys : PhysInv ⟨s'.phys, (slabPages L').map (·, 0) ++ other⟩) :
    SlabLayout heapDebug s' L' O out other where
  objectsPerSlab_eq i := (hops i).trans (hL.objectsPerSlab_eq i)
  family := hfam
  numEmpty := hnum
  numEmpty_le := hle
  slab k' q hq := by
    obtain ⟨k, hk, hqk⟩ := hmem k' q hq
    rw [← hk]
    exact (hL.slab k q hqk).congr (by rw [hslabs]) (fun _ _ => by rw [hnext]) rfl
  inSlab := hout
  outNodup := hL.outNodup
  phys := hphys

/-- A slab whose free list starts with `obj` has a free chain starting with `obj`. -/
theorem chain_cons (hL : SlabLayout heapDebug s L O out other) (hp : p ∈ L k)
    (hfl : (s.slabs p).freeList = some obj) : ∃ t, O p = obj :: t := by
  have hc := (hL.slab k p hp).chain
  rw [hfl] at hc
  exact hc.eq_cons_of_some

end SlabLayout

namespace SlabInv

/-- The slab invariant reads neither the per-core free lists nor the large-allocation table,
of the `next` words only those of free objects, and of the frame allocator only its
invariant, with the other blocks it has handed out. -/
theorem frame {other' : List (Nat × Nat)} (hI : SlabInv heapDebug s L O out other)
    (hcaches : s'.slabCaches = s.slabCaches) (hslabs : s'.slabs = s.slabs)
    (hlinks : s'.slabLinks = s.slabLinks) (hnext : ∀ x, x ∉ out → s'.objNext x = s.objNext x)
    (hphys : PhysInv ⟨s'.phys, (slabPages L).map (·, 0) ++ other'⟩) :
    SlabInv heapDebug s' L O out other' where
  objectsPerSlab_eq i := by rw [hcaches]; exact hI.objectsPerSlab_eq i
  family := by
    have hheads : slabHeads s' = slabHeads s := funext fun k => by rw [slabHeads, hcaches]; rfl
    rw [hlinks, hheads]
    exact hI.family
  numEmpty i := by rw [hcaches]; exact hI.numEmpty i
  numEmpty_le := hI.numEmpty_le
  slab k p hp :=
    (hI.slab k p hp).congr (by rw [hslabs])
      (fun x hx => hnext x ((hI.slab k p hp).not_mem_out hx)) rfl
  inSlab := hI.inSlab
  outNodup := hI.outNodup
  phys := hphys
  freeCount k p hp := by rw [hslabs]; exact hI.freeCount k p hp

/-- The slab invariant reads the objects handed out only as a multiset. -/
theorem perm_out (hI : SlabInv heapDebug s L O out other) {out' : List Nat} (h : out ~ out') :
    SlabInv heapDebug s L O out' other :=
  { hI with
    slab := fun k p hp => (hI.slab k p hp).perm_out h
    inSlab := fun x hx => hI.inSlab x (h.symm.subset hx)
    outNodup := h.nodup_iff.mp hI.outNodup }

/-- The slab invariant reads the other blocks of the frame allocator only as a multiset. -/
theorem perm_other (hI : SlabInv heapDebug s L O out other) {other' : List (Nat × Nat)}
    (h : other ~ other') : SlabInv heapDebug s L O out other' :=
  hI.frame rfl rfl rfl (fun _ _ => rfl) (hI.phys.perm (h.append_left _))

end SlabInv

/-! ### Moving slabs between lists -/

/-- The slab lists after slab `a` moves from list `k₁` to the front of list `k₂`. -/
def moveSlab (L : Fin numObjectSizes × SlabKind → List Nat) (a : Nat)
    (k₁ k₂ : Fin numObjectSizes × SlabKind) : Fin numObjectSizes × SlabKind → List Nat :=
  Function.update (Function.update L k₁ ((L k₁).erase a)) k₂ (a :: L k₂)

theorem moveSlab_of_cons {a : Nat} {k₁ k₂ : Fin numObjectSizes × SlabKind} {t : List Nat}
    (hk : L k₁ = a :: t) :
    moveSlab L a k₁ k₂ = Function.update (Function.update L k₁ t) k₂ (a :: L k₂) := by
  rw [moveSlab, hk, List.erase_cons_head]

theorem slabPages_moveSlab {a : Nat} {k₁ k₂ : Fin numObjectSizes × SlabKind} (ha : a ∈ L k₁)
    (hne : k₁ ≠ k₂) : slabPages (moveSlab L a k₁ k₂) ~ slabPages L :=
  Ledger.flatMap_move nodup_slabKeys (mem_slabKeys _) (mem_slabKeys _) hne (List.perm_cons_erase ha)

theorem moveSlab_apply_of_ne {a : Nat} {k₁ k₂ k : Fin numObjectSizes × SlabKind} (h₁ : k ≠ k₁)
    (h₂ : k ≠ k₂) : moveSlab L a k₁ k₂ k = L k := by
  rw [moveSlab, Function.update_of_ne h₂, Function.update_of_ne h₁]

/-- Moving slab `a` between two lists of its class, with heads and links to match. -/
theorem SlabLayout.move (hL : SlabLayout heapDebug s L O out other) {a : Nat}
    {k₁ k₂ : Fin numObjectSizes × SlabKind} (ha : a ∈ L k₁) (hne : k₁ ≠ k₂) (hk : k₁.1 = k₂.1)
    (hops : ∀ i, (s'.slabCaches i).objectsPerSlab = (s.slabCaches i).objectsPerSlab)
    (hslabs : s'.slabs = s.slabs) (hnext : s'.objNext = s.objNext) (hphys : s'.phys = s.phys)
    (hfam : Family s'.slabLinks (slabHeads s') (moveSlab L a k₁ k₂))
    (hnum : ∀ i, (s'.slabCaches i).numEmptySlabs = (moveSlab L a k₁ k₂ (i, .emptySlabs)).length)
    (hle : ∀ i, (moveSlab L a k₁ k₂ (i, .emptySlabs)).length ≤ 2) :
    SlabLayout heapDebug s' (moveSlab L a k₁ k₂) O out other := by
  have hperm := slabPages_moveSlab ha hne
  refine hL.relist hops hslabs hnext hfam hnum hle (fun k' q hq => ?_)
    (fun x hx => hperm.symm.subset (hL.inSlab x hx)) ?_
  · rcases hL.family.mem_move ha hne hq with ⟨rfl, rfl⟩ | ⟨hq, -⟩
    · exact ⟨k₁, hk, ha⟩
    · exact ⟨k', rfl, hq⟩
  · rw [hphys]
    exact hL.phys.perm ((hperm.symm.map _).append_right _)

/-- After slab `a` changed its header, and perhaps its list to `k₂`, every other slab keeps
the free count of its list. -/
theorem freeCount_of_mem {a : Nat} {k₂ : Fin numObjectSizes × SlabKind}
    (hc : ∀ k, ∀ q ∈ L k,
      FreeCount (objectsPerSlab heapDebug k.1) k.2 (s.slabs q).freeObjects)
    (hslabs : ∀ q, q ≠ a → s'.slabs q = s.slabs q)
    (hmem : ∀ k', ∀ q ∈ L' k', (k' = k₂ ∧ q = a) ∨ (q ∈ L k' ∧ q ≠ a))
    (ha : FreeCount (objectsPerSlab heapDebug k₂.1) k₂.2 (s'.slabs a).freeObjects) :
    ∀ k', ∀ q ∈ L' k',
      FreeCount (objectsPerSlab heapDebug k'.1) k'.2 (s'.slabs q).freeObjects := by
  intro k' q hq
  rcases hmem k' q hq with ⟨rfl, rfl⟩ | ⟨hq, hqa⟩
  · exact ha
  · rw [hslabs q hqa]
    exact hc k' q hq

/-- A field of the caches that a write of cache `i` keeps. -/
theorem cache_update_eq {caches : Fin numObjectSizes → SlabCache} {i j : Fin numObjectSizes}
    {cache : SlabCache} (f : SlabCache → Nat) (h : f cache = f (caches i)) :
    f (Function.update caches i cache j) = f (caches j) := by
  by_cases hji : j = i
  · subst hji
    rw [Function.update_self, h]
  · rw [Function.update_of_ne hji]

/-- The list heads after a write of cache `i` that sets the head of list `k₁` to `v`. -/
theorem slabHeads_update {i : Fin numObjectSizes} {cache : SlabCache} (k₁ : SlabKind)
    {v : Option Nat} (h : s'.slabCaches = Function.update s.slabCaches i cache)
    (h₁ : cache.head k₁ = v) (hk : ∀ k, k ≠ k₁ → cache.head k = (s.slabCaches i).head k) :
    slabHeads s' = Function.update (slabHeads s) (i, k₁) v := by
  refine slabHeads_eq h (fun k => ?_) fun j hj k => ?_
  · by_cases hk₁ : k = k₁
    · subst hk₁
      rw [Function.update_self, h₁]
    · rw [Function.update_of_ne (by simpa using hk₁), hk k hk₁]
      rfl
  · rw [Function.update_of_ne (by simp [hj])]

/-- The list heads after a write of cache `i` that moves a slab `a` from list `k₁`, whose head
becomes `v`, to the head of list `k₂`. -/
theorem slabHeads_move {i : Fin numObjectSizes} {cache : SlabCache} (k₁ k₂ : SlabKind)
    {v : Option Nat} {a : Nat} (hne : k₁ ≠ k₂)
    (h : s'.slabCaches = Function.update s.slabCaches i cache) (h₁ : cache.head k₁ = v)
    (h₂ : cache.head k₂ = some a)
    (hk : ∀ k, k ≠ k₁ → k ≠ k₂ → cache.head k = (s.slabCaches i).head k) :
    slabHeads s' = Function.update (Function.update (slabHeads s) (i, k₁) v) (i, k₂) (some a) := by
  refine slabHeads_eq h (fun k => ?_) fun j hj k => ?_
  · by_cases hk₂ : k = k₂
    · subst hk₂
      rw [Function.update_self, h₂]
    · rw [Function.update_of_ne (by simpa using hk₂)]
      by_cases hk₁ : k = k₁
      · subst hk₁
        rw [Function.update_self, h₁]
      · rw [Function.update_of_ne (by simpa using hk₁), hk k hk₁ hk₂]
        rfl
  · rw [Function.update_of_ne (by simp [hj]), Function.update_of_ne (by simp [hj])]

end Layout

/-! ### New slabs -/

section Create

variable {heapDebug : Bool} {s : State} {L : Fin numObjectSizes × SlabKind → List Nat}
  {O : Nat → List Nat} {out : List Nat} {other : List (Nat × Nat)} {i : Fin numObjectSizes}
  {p : Nat}

/-- A cell on the lists after `a`, on no list, was linked in front of list `k` is `a`, on
list `k`, or another cell on its old list. -/
theorem mem_update_cons {a : Nat} {k k' : Fin numObjectSizes × SlabKind} (ha : ∀ k, a ∉ L k)
    {q : Nat} (hq : q ∈ Function.update L k (a :: L k) k') :
    (k' = k ∧ q = a) ∨ (q ∈ L k' ∧ q ≠ a) := by
  by_cases hk : k' = k
  · subst hk
    rw [Function.update_self] at hq
    rcases List.mem_cons.mp hq with rfl | hq
    · exact .inl ⟨rfl, rfl⟩
    · exact .inr ⟨hq, fun e => ha k' (e ▸ hq)⟩
  · rw [Function.update_of_ne hk] at hq
    exact .inr ⟨hq, fun e => ha k' (e ▸ hq)⟩

/-- `slab_create` and the link of the new slab in front of the partial list: the frame from
`physmem_alloc` is on no list, and it joins the partial list with every slot free. -/
theorem SlabLayout.create (hL : SlabLayout heapDebug s L O out other) {c : Fin maxCores}
    {s₁ : State} (hcreate : slabCreate s c (objectSizes i) = some (s₁, p)) :
    SlabLayout heapDebug
      { s₁ with
        slabLinks := s₁.slabLinks.link (s.slabCaches i).partialSlabs p
        slabCaches := Function.update s₁.slabCaches i { s.slabCaches i with partialSlabs := some p } }
      (Function.update L (i, .partialSlabs) (p :: L (i, .partialSlabs)))
      (Function.update O p (slots heapDebug i p)) out other ∧
    (∀ k, p ∉ L k) ∧ (∀ q, q ≠ p → s₁.slabs q = s.slabs q) ∧
      s₁.slabs p = ⟨some (slotStart heapDebug i p), objectSizes i, objectsPerSlab heapDebug i⟩ ∧
      ∀ x ∈ out, slabOf x ≠ p ∧ s₁.objNext x = s.objNext x := by
  obtain ⟨phys, halloc, rfl⟩ := slabCreate_eq_some (hL.objectsPerSlab_eq i) hcreate
  have hphys := hL.phys.alloc halloc
  have hpage := hL.phys.alloc_frameAddress halloc
  -- the new slab's free list writes only its own slots
  have hkeep : ∀ x, slabOf x ≠ p → initFreeList (objectSizes i) s.objNext
      (slotStart heapDebug i p) (objectsPerSlab heapDebug i - 1) x = s.objNext x := by
    refine fun x hxp => initFreeList_of_not_mem _ _ fun hxs => hxp ?_
    have hxs' : x ∈ slots heapDebug i p := by
      rwa [Nat.sub_add_cancel (by have := three_le_objectsPerSlab heapDebug i; omega)] at hxs
    exact (slabOf_slot (frame_bounds hpage).1 (frame_bounds hpage).2 hxs').1
  -- the frame is fresh: its index is not among the frames of the pages handed out
  have hfresh : ∀ k, p ∉ L k := by
    intro k hp
    refine hphys.not_mem_liveFrames (x := Physmem.frameIndexFromAddress p) (by simp) ?_
    refine List.mem_flatMap.mpr ⟨(p, 0), List.mem_append_left _ ?_, by simp⟩
    exact List.mem_map_of_mem (mem_slabPages.mpr ⟨k, hp⟩)
  have hout : ∀ x ∈ out, slabOf x ≠ p := fun x hx e => by
    obtain ⟨k, hk⟩ := mem_slabPages.mp (hL.inSlab x hx)
    exact hfresh k (e ▸ hk)
  have hperm : slabPages (Function.update L (i, .partialSlabs) (p :: L (i, .partialSlabs))) ~
      p :: slabPages L :=
    Ledger.flatMap_update_cons L p nodup_slabKeys (mem_slabKeys _)
  refine ⟨⟨fun j => ?_, ?_, fun j => ?_, fun j => ?_, fun k' q hq => ?_,
    fun x hx => hperm.symm.subset (List.mem_cons_of_mem _ (hL.inSlab x hx)), hL.outNodup, ?_⟩,
    hfresh, fun q hq => Function.update_of_ne hq .., Function.update_self .., fun x hx =>
      ⟨hout x hx, hkeep x (hout x hx)⟩⟩
  · rw [← hL.objectsPerSlab_eq j]
    exact cache_update_eq SlabCache.objectsPerSlab rfl
  · -- the cleared links of the new slab touch no list; then it is linked in
    have h₀ : Family ⟨Function.update s.slabLinks.next p none,
        Function.update s.slabLinks.prev p none⟩ (slabHeads s) L :=
      hL.family.congr fun k x hx =>
        ⟨Function.update_of_ne (fun (e : x = p) => hfresh k (e ▸ hx)) ..,
          Function.update_of_ne (fun (e : x = p) => hfresh k (e ▸ hx)) ..⟩
    rw [slabHeads_update .partialSlabs rfl rfl (by intro k hk; cases k <;> simp_all)]
    exact h₀.link hfresh (i, .partialSlabs)
  · rw [Function.update_of_ne (by simp), ← hL.numEmpty j]
    exact cache_update_eq SlabCache.numEmptySlabs rfl
  · rw [Function.update_of_ne (by simp)]
    exact hL.numEmpty_le j
  · rcases mem_update_cons hfresh hq with ⟨rfl, rfl⟩ | ⟨hq, hqp⟩
    · rw [Function.update_self]
      exact SlabOk.create hpage (Function.update_self ..) (fun _ _ => rfl) hout
    · rw [Function.update_of_ne hqp]
      have hqk := hL.slab k' q hq
      refine hqk.congr (Function.update_of_ne hqp ..) (fun x hx => hkeep x ?_) rfl
      rwa [hqk.slabOf_of_mem hx]
  · exact hphys.perm ((hperm.symm.map fun x => (x, 0)).append_right other)

end Create

/-! ### `slab_alloc` -/

section Alloc

variable {heapDebug : Bool} {s s' : State} {L : Fin numObjectSizes × SlabKind → List Nat}
  {O : Nat → List Nat} {out : List Nat} {other : List (Nat × Nat)} {i : Fin numObjectSizes}
  {slab obj : Nat}

/-- What `slab_alloc` leaves to the layers above: the object it returns lies in a slab of
class `i`, and every object handed out before keeps its `next` word and its slab's object
size. -/
structure AllocFrame (s s' : State) (out : List Nat) (i : Fin numObjectSizes) (obj : Nat) :
    Prop where
  objectSize : (s'.slabs (slabOf obj)).objectSize = objectSizes i
  objNext : ∀ x ∈ out, s'.objNext x = s.objNext x
  slabObjectSize : ∀ x ∈ out, (s'.slabs (slabOf x)).objectSize = (s.slabs (slabOf x)).objectSize

/-- Taking the first free object of a slab of class `i`. -/
theorem AllocFrame.of_take {t : List Nat} (hok : SlabOk heapDebug s out i slab (obj :: t))
    (hslabs : s'.slabs = Function.update s.slabs slab
      { s.slabs slab with
        freeList := s.objNext obj, freeObjects := (s.slabs slab).freeObjects - 1 })
    (hnext : s'.objNext = s.objNext) : AllocFrame s s' out i obj where
  objectSize := by
    rw [hslabs, hok.slabOf_of_mem List.mem_cons_self, objectSize_update]
    exact hok.objectSize
  objNext _ _ := by rw [hnext]
  slabObjectSize _ _ := by rw [hslabs, objectSize_update]

/-- The head of a list of the caches is on that list. -/
theorem SlabLayout.eq_cons_of_head (hL : SlabLayout heapDebug s L O out other)
    {k : Fin numObjectSizes × SlabKind} (h : slabHeads s k = some slab) :
    ∃ rest, L k = slab :: rest := by
  have hd := Singly.of_doubly (hL.family.doubly k)
  rw [h] at hd
  exact hd.eq_cons_of_some

/-- `slab_alloc` from the partial slab at the head of the list, which then runs out and
moves to the full list. -/
theorem SlabInv.allocPartialFull (hI : SlabInv heapDebug s L O out other)
    (hpart : (s.slabCaches i).partialSlabs = some slab)
    (hfl : (s.slabs slab).freeList = some obj) (hzero : (s.slabs slab).freeObjects - 1 = 0)
    (hs' : s' = { s with
      slabs := Function.update s.slabs slab
        { s.slabs slab with
          freeList := s.objNext obj, freeObjects := (s.slabs slab).freeObjects - 1 }
      slabLinks := (s.slabLinks.dropHead slab).link (s.slabCaches i).fullSlabs slab
      slabCaches := Function.update s.slabCaches i
        { s.slabCaches i with
          partialSlabs := s.slabLinks.next slab, fullSlabs := some slab } }) :
    (∃ L' O', SlabInv heapDebug s' L' O' (obj :: out) other) ∧ AllocFrame s s' out i obj := by
  subst hs'
  have hL := hI.toSlabLayout
  obtain ⟨rest, hrest⟩ := hL.eq_cons_of_head (k := (i, .partialSlabs)) hpart
  have hslab : slab ∈ L (i, .partialSlabs) := hrest ▸ List.mem_cons_self
  obtain ⟨t, hO⟩ := hL.chain_cons hslab hfl
  have hne : (i, SlabKind.partialSlabs) ≠ (i, .fullSlabs) := by simp
  have hfam := hL.family.dropHead_link hrest hne
  rw [← moveSlab_of_cons hrest] at hfam
  refine ⟨⟨_, _, ⟨(hL.take hslab hO).move hslab hne rfl
    (fun j => cache_update_eq SlabCache.objectsPerSlab rfl) rfl rfl rfl ?_
    (fun j => ?_) (fun j => ?_), ?_⟩⟩, AllocFrame.of_take (hO ▸ hL.slab _ slab hslab) rfl rfl⟩
  · rwa [slabHeads_move .partialSlabs .fullSlabs (by simp) rfl rfl rfl
      (by intro k; cases k <;> simp)]
  · rw [moveSlab_apply_of_ne (by simp) (by simp), ← hL.numEmpty j]
    exact cache_update_eq SlabCache.numEmptySlabs rfl
  · rw [moveSlab_apply_of_ne (by simp) (by simp)]
    exact hL.numEmpty_le j
  · refine freeCount_of_mem hI.freeCount (fun q hq => Function.update_of_ne hq ..)
      (fun k' q hq => hL.family.mem_move hslab hne hq) ?_
    simp only [Function.update_self]
    exact hzero

/-- `slab_alloc` from the partial slab at the head of the list, which keeps free objects. -/
theorem SlabInv.allocPartialStay (hI : SlabInv heapDebug s L O out other)
    (hpart : (s.slabCaches i).partialSlabs = some slab)
    (hfl : (s.slabs slab).freeList = some obj) (hzero : ¬(s.slabs slab).freeObjects - 1 = 0)
    (hs' : s' = { s with
      slabs := Function.update s.slabs slab
        { s.slabs slab with
          freeList := s.objNext obj, freeObjects := (s.slabs slab).freeObjects - 1 } }) :
    (∃ L' O', SlabInv heapDebug s' L' O' (obj :: out) other) ∧ AllocFrame s s' out i obj := by
  subst hs'
  have hL := hI.toSlabLayout
  obtain ⟨rest, hrest⟩ := hL.eq_cons_of_head (k := (i, .partialSlabs)) hpart
  have hslab : slab ∈ L (i, .partialSlabs) := hrest ▸ List.mem_cons_self
  obtain ⟨t, hO⟩ := hL.chain_cons hslab hfl
  refine ⟨⟨_, _, ⟨hL.take hslab hO, freeCount_of_mem hI.freeCount
    (fun q hq => Function.update_of_ne hq ..) (fun k' q hq => hL.family.mem_stay hslab hq) ?_⟩⟩,
    AllocFrame.of_take (hO ▸ hL.slab _ slab hslab) rfl rfl⟩
  have hc : 0 < (s.slabs slab).freeObjects ∧
      (s.slabs slab).freeObjects < objectsPerSlab heapDebug i := hI.freeCount _ slab hslab
  simp only [Function.update_self]
  exact ⟨by omega, by omega⟩

/-- `slab_alloc` from the empty slab at the head of the list, moved to the partial list
first. -/
theorem SlabInv.allocEmpty (hI : SlabInv heapDebug s L O out other) {s₁ : State}
    (hempty : (s.slabCaches i).emptySlabs = some slab)
    (hs₁ : s₁ = { s with
      slabLinks := (s.slabLinks.dropHead slab).link (s.slabCaches i).partialSlabs slab
      slabCaches := Function.update s.slabCaches i
        { s.slabCaches i with
          emptySlabs := s.slabLinks.next slab, partialSlabs := some slab
          numEmptySlabs := (s.slabCaches i).numEmptySlabs - 1 } })
    (htake : takeObject s₁ slab = some (s', obj)) :
    (∃ L' O', SlabInv heapDebug s' L' O' (obj :: out) other) ∧ AllocFrame s s' out i obj := by
  have hL := hI.toSlabLayout
  obtain ⟨rest, hrest⟩ := hL.eq_cons_of_head (k := (i, .emptySlabs)) hempty
  have hslab : slab ∈ L (i, .emptySlabs) := hrest ▸ List.mem_cons_self
  have hne : (i, SlabKind.emptySlabs) ≠ (i, .partialSlabs) := by simp
  have hfam := hL.family.dropHead_link hrest hne
  rw [← moveSlab_of_cons hrest] at hfam
  -- the empty list keeps the rest of its slabs, one fewer than it counted
  have hrestE : moveSlab L slab (i, .emptySlabs) (i, .partialSlabs) (i, .emptySlabs) = rest := by
    rw [moveSlab_of_cons hrest, Function.update_of_ne hne, Function.update_self]
  have hlen : (L (i, .emptySlabs)).length = rest.length + 1 := by rw [hrest, List.length_cons]
  have hnum : ∀ j, (s₁.slabCaches j).numEmptySlabs =
      (moveSlab L slab (i, .emptySlabs) (i, .partialSlabs) (j, .emptySlabs)).length := by
    intro j
    subst hs₁
    by_cases hj : j = i
    · subst hj
      simp only [hrestE, Function.update_self, hL.numEmpty j, hlen, Nat.add_sub_cancel]
    · rw [moveSlab_apply_of_ne (by simp [hj]) (by simp [hj]), ← hL.numEmpty j]
      simp only [Function.update_of_ne hj]
  have hle : ∀ j,
      (moveSlab L slab (i, .emptySlabs) (i, .partialSlabs) (j, .emptySlabs)).length ≤ 2 := by
    intro j
    by_cases hj : j = i
    · subst hj
      have := hL.numEmpty_le j
      rw [hrestE]
      omega
    · rw [moveSlab_apply_of_ne (by simp [hj]) (by simp [hj])]
      exact hL.numEmpty_le j
  have hL₁ : SlabLayout heapDebug s₁ (moveSlab L slab (i, .emptySlabs) (i, .partialSlabs)) O out
      other := by
    subst hs₁
    refine hL.move hslab hne rfl (fun j => cache_update_eq SlabCache.objectsPerSlab rfl) rfl rfl
      rfl ?_ hnum hle
    rwa [slabHeads_move .emptySlabs .partialSlabs (by simp) rfl rfl rfl
      (by intro k; cases k <;> simp)]
  obtain ⟨hfl, rfl⟩ := takeObject_eq_some.mp htake
  have hslab' : slab ∈ moveSlab L slab (i, .emptySlabs) (i, .partialSlabs) (i, .partialSlabs) := by
    rw [moveSlab, Function.update_self]
    exact List.mem_cons_self
  obtain ⟨t, hO⟩ := hL₁.chain_cons hslab' hfl
  subst hs₁
  refine ⟨⟨_, _, ⟨hL₁.take hslab' hO, freeCount_of_mem hI.freeCount
    (fun q hq => Function.update_of_ne hq ..) (fun k' q hq => hL.family.mem_move hslab hne hq) ?_⟩⟩,
    AllocFrame.of_take (hO ▸ hL.slab _ slab hslab) rfl rfl⟩
  -- the slab was empty: all `objects_per_slab ≥ 3` objects free, one is now taken
  have hc : (s.slabs slab).freeObjects = objectsPerSlab heapDebug i := hI.freeCount _ slab hslab
  have h3 := three_le_objectsPerSlab heapDebug i
  simp only [Function.update_self]
  exact ⟨by omega, by omega⟩

/-- `slab_alloc` from a new slab, linked in front of the partial list first. -/
theorem SlabInv.allocNew (hI : SlabInv heapDebug s L O out other) {c : Fin maxCores}
    {s₁ s₂ : State} (hcreate : slabCreate s c (objectSizes i) = some (s₁, slab))
    (hs₂ : s₂ = { s₁ with
      slabLinks := s₁.slabLinks.link (s.slabCaches i).partialSlabs slab
      slabCaches := Function.update s₁.slabCaches i { s.slabCaches i with partialSlabs := some slab } })
    (htake : takeObject s₂ slab = some (s', obj)) :
    (∃ L' O', SlabInv heapDebug s' L' O' (obj :: out) other) ∧ AllocFrame s s' out i obj := by
  obtain ⟨hL₁, hfresh, hslabs, hhdr, hout⟩ := hI.toSlabLayout.create hcreate
  rw [← hs₂] at hL₁
  obtain ⟨hfl, rfl⟩ := takeObject_eq_some.mp htake
  have hslab : slab ∈ Function.update L (i, .partialSlabs) (slab :: L (i, .partialSlabs))
      (i, .partialSlabs) := by
    rw [Function.update_self]
    exact List.mem_cons_self
  obtain ⟨t, hO⟩ := hL₁.chain_cons hslab hfl
  have hobj : slabOf obj = slab := (hO ▸ hL₁.slab _ slab hslab).slabOf_of_mem List.mem_cons_self
  subst hs₂
  refine ⟨⟨_, _, ⟨hL₁.take hslab hO, freeCount_of_mem hI.freeCount (fun q hq => ?_)
    (fun k' q hq => mem_update_cons hfresh hq) ?_⟩⟩, ⟨?_, fun x hx => (hout x hx).2, fun x hx => ?_⟩⟩
  · exact (Function.update_of_ne hq ..).trans (hslabs q hq)
  · -- a new slab has all `objects_per_slab ≥ 3` objects free, one is now taken
    have h3 := three_le_objectsPerSlab heapDebug i
    simp only [Function.update_self, hhdr]
    exact ⟨by omega, by omega⟩
  · rw [hobj, objectSize_update, hhdr]
  · rw [objectSize_update, hslabs _ (hout x hx).1]

/-- `slab_alloc` keeps the slab invariant, with the object it returns handed out, from a slab
of the class of the request. -/
theorem SlabInv.slabAlloc (hI : SlabInv heapDebug s L O out other) {c : Fin maxCores}
    {size : Nat} (hs : slabAlloc s c size = some (s', obj)) :
    ∃ i, sizeClass size = some i ∧
      (∃ L' O', SlabInv heapDebug s' L' O' (obj :: out) other) ∧ AllocFrame s s' out i obj := by
  unfold Heap.slabAlloc at hs
  obtain ⟨i, hi, hs⟩ := Option.bind_eq_some_iff.mp hs
  refine ⟨i, hi, ?_⟩
  dsimp only at hs
  split at hs
  next slab hpart =>
    obtain ⟨⟨s₁, obj₁⟩, htake, hfin⟩ := Option.map_eq_some_iff.mp hs
    obtain ⟨hfl, rfl⟩ := takeObject_eq_some.mp htake
    simp only [Function.update_self] at hfin
    split_ifs at hfin with hzero
    · obtain ⟨rfl, rfl⟩ := Prod.mk.inj hfin
      exact hI.allocPartialFull hpart hfl hzero rfl
    · obtain ⟨rfl, rfl⟩ := Prod.mk.inj hfin
      exact hI.allocPartialStay hpart hfl hzero rfl
  next hpart =>
    split at hs
    next slab hempty => exact hI.allocEmpty hempty rfl hs
    next hempty =>
      obtain ⟨⟨s₁, slab⟩, hcreate, hs⟩ := Option.bind_eq_some_iff.mp hs
      exact hI.allocNew hcreate rfl hs

end Alloc

/-! ### `slab_free` -/

section Free

variable {heapDebug : Bool} {s : State} {L : Fin numObjectSizes × SlabKind → List Nat}
  {O : Nat → List Nat} {out : List Nat} {other : List (Nat × Nat)} {i : Fin numObjectSizes}
  {obj : Nat}

/-- The first part of `slab_free(obj)`: `obj` back on the free list of its slab. -/
def giveBack (s : State) (obj : Nat) : State :=
  { s with
    objNext := Function.update s.objNext obj (s.slabs (slabOf obj)).freeList
    slabs := Function.update s.slabs (slabOf obj)
      { s.slabs (slabOf obj) with
        freeList := some obj, freeObjects := (s.slabs (slabOf obj)).freeObjects + 1 } }

theorem giveBack_slabs_of_ne {q : Nat} (hq : q ≠ slabOf obj) :
    (giveBack s obj).slabs q = s.slabs q :=
  Function.update_of_ne hq ..

@[simp] theorem giveBack_freeObjects :
    ((giveBack s obj).slabs (slabOf obj)).freeObjects = (s.slabs (slabOf obj)).freeObjects + 1 := by
  simp [giveBack]

/-- A slab that was neither full nor about to become empty stays on the partial list. -/
theorem SlabInv.freeStay (hI : SlabInv heapDebug s L O out other) (hx : obj ∈ out)
    {kind : SlabKind} (hp : slabOf obj ∈ L (i, kind))
    (hfull : ¬(s.slabs (slabOf obj)).freeObjects + 1 = objectsPerSlab heapDebug i)
    (hone : ¬(s.slabs (slabOf obj)).freeObjects + 1 = 1) :
    ∃ L' O', SlabInv heapDebug (giveBack s obj) L' O' (out.erase obj) other := by
  have hlt : (s.slabs (slabOf obj)).freeObjects < objectsPerSlab heapDebug i :=
    (hI.slab _ _ hp).count_lt hx rfl
  refine ⟨_, _, ⟨hI.toSlabLayout.give hx, freeCount_of_mem hI.freeCount
    (fun q hq => giveBack_slabs_of_ne hq) (fun k' q hq => hI.family.mem_stay hp hq) ?_⟩⟩
  -- with some but not all objects free the slab was and stays partial
  have hc : FreeCount (objectsPerSlab heapDebug i) kind (s.slabs (slabOf obj)).freeObjects :=
    hI.freeCount _ _ hp
  show FreeCount (objectsPerSlab heapDebug i) kind _
  rw [giveBack_freeObjects]
  cases kind with
  | fullSlabs => exact absurd (show (s.slabs (slabOf obj)).freeObjects = 0 from hc) (by omega)
  | partialSlabs => exact ⟨by omega, by omega⟩
  | emptySlabs =>
    exact absurd (show (s.slabs (slabOf obj)).freeObjects = objectsPerSlab heapDebug i from hc)
      (by omega)

/-- A full slab that gets an object back moves to the partial list. -/
theorem SlabInv.freeToPartial (hI : SlabInv heapDebug s L O out other) (hx : obj ∈ out)
    (hp : slabOf obj ∈ L (i, .fullSlabs)) (hzero : (s.slabs (slabOf obj)).freeObjects = 0) :
    ∃ L' O', SlabInv heapDebug
      { giveBack s obj with
        slabLinks := (s.slabLinks.detach (slabOf obj)).link (s.slabCaches i).partialSlabs (slabOf obj)
        slabCaches := Function.update s.slabCaches i
          { s.slabCaches i with
            fullSlabs := s.slabLinks.unlinkHead (s.slabCaches i).fullSlabs (slabOf obj)
            partialSlabs := some (slabOf obj) } }
      L' O' (out.erase obj) other := by
  have hne : (i, SlabKind.fullSlabs) ≠ (i, .partialSlabs) := by simp
  have hfam := hI.family.detach_link hp hne
  refine ⟨_, _, ⟨(hI.toSlabLayout.give hx).move hp hne rfl
    (fun j => cache_update_eq SlabCache.objectsPerSlab rfl) rfl rfl rfl ?_ (fun j => ?_)
    (fun j => ?_), freeCount_of_mem hI.freeCount (fun q hq => giveBack_slabs_of_ne hq)
    (fun k' q hq => hI.family.mem_move hp hne hq) ?_⟩⟩
  · rwa [slabHeads_move .fullSlabs .partialSlabs (by simp) rfl rfl rfl
      (by intro k; cases k <;> simp)]
  · rw [moveSlab_apply_of_ne (by simp) (by simp), ← hI.numEmpty j]
    exact cache_update_eq SlabCache.numEmptySlabs rfl
  · rw [moveSlab_apply_of_ne (by simp) (by simp)]
    exact hI.numEmpty_le j
  · -- one object free of at least three
    have h3 := three_le_objectsPerSlab heapDebug i
    show FreeCount (objectsPerSlab heapDebug i) .partialSlabs
      ((giveBack s obj).slabs (slabOf obj)).freeObjects
    rw [giveBack_freeObjects, hzero]
    exact ⟨by omega, by omega⟩

/-- A partial slab whose objects are all free again moves to the empty list, when fewer than
two slabs are there. -/
theorem SlabInv.freeToEmpty (hI : SlabInv heapDebug s L O out other) (hx : obj ∈ out)
    (hp : slabOf obj ∈ L (i, .partialSlabs))
    (hfull : (s.slabs (slabOf obj)).freeObjects + 1 = objectsPerSlab heapDebug i)
    (hnum : ¬2 ≤ (s.slabCaches i).numEmptySlabs) :
    ∃ L' O', SlabInv heapDebug
      { giveBack s obj with
        slabLinks := (s.slabLinks.detach (slabOf obj)).link (s.slabCaches i).emptySlabs (slabOf obj)
        slabCaches := Function.update s.slabCaches i
          { s.slabCaches i with
            partialSlabs := s.slabLinks.unlinkHead (s.slabCaches i).partialSlabs (slabOf obj)
            emptySlabs := some (slabOf obj)
            numEmptySlabs := (s.slabCaches i).numEmptySlabs + 1 } }
      L' O' (out.erase obj) other := by
  have hne : (i, SlabKind.partialSlabs) ≠ (i, .emptySlabs) := by simp
  have hfam := hI.family.detach_link hp hne
  -- the empty list gains the slab in front
  have hE : moveSlab L (slabOf obj) (i, .partialSlabs) (i, .emptySlabs) (i, .emptySlabs) =
      slabOf obj :: L (i, .emptySlabs) := by
    rw [moveSlab, Function.update_self]
  refine ⟨_, _, ⟨(hI.toSlabLayout.give hx).move hp hne rfl
    (fun j => cache_update_eq SlabCache.objectsPerSlab rfl) rfl rfl rfl ?_ (fun j => ?_)
    (fun j => ?_), freeCount_of_mem hI.freeCount (fun q hq => giveBack_slabs_of_ne hq)
    (fun k' q hq => hI.family.mem_move hp hne hq) ?_⟩⟩
  · rwa [slabHeads_move .partialSlabs .emptySlabs (by simp) rfl rfl rfl
      (by intro k; cases k <;> simp)]
  · by_cases hj : j = i
    · subst hj
      simp only [hE, Function.update_self, List.length_cons, hI.numEmpty j]
    · rw [moveSlab_apply_of_ne (by simp [hj]) (by simp [hj]), ← hI.numEmpty j]
      simp only [Function.update_of_ne hj]
  · by_cases hj : j = i
    · subst hj
      rw [hE, List.length_cons, ← hI.numEmpty j]
      omega
    · rw [moveSlab_apply_of_ne (by simp [hj]) (by simp [hj])]
      exact hI.numEmpty_le j
  · show FreeCount (objectsPerSlab heapDebug i) .emptySlabs
      ((giveBack s obj).slabs (slabOf obj)).freeObjects
    rw [giveBack_freeObjects]
    exact hfull

/-- A partial slab whose objects are all free again goes back to the frame allocator, when
two slabs are on the empty list already. -/
theorem SlabInv.freeRelease (hI : SlabInv heapDebug s L O out other) (hx : obj ∈ out)
    (hp : slabOf obj ∈ L (i, .partialSlabs))
    (hfull : (s.slabs (slabOf obj)).freeObjects + 1 = objectsPerSlab heapDebug i)
    {c : Fin maxCores} {phys : Physmem.State} (hfree : physmemFree s.phys c (slabOf obj) = some phys) :
    ∃ L' O', SlabInv heapDebug
      { giveBack s obj with
        slabLinks := s.slabLinks.detach (slabOf obj)
        phys
        slabCaches := Function.update s.slabCaches i
          { s.slabCaches i with
            partialSlabs := s.slabLinks.unlinkHead (s.slabCaches i).partialSlabs (slabOf obj) } }
      L' O' (out.erase obj) other := by
  have hL₁ := hI.toSlabLayout.give hx
  -- the slab has handed out no other object
  have hnone : ∀ x ∈ out.erase obj, slabOf x ≠ slabOf obj :=
    fun x hx' => (hL₁.slab _ _ hp).not_out_of_full (by simpa using hfull) hx'
  have hperm : slabPages L ~ slabOf obj :: slabPages
      (Function.update L (i, .partialSlabs) ((L (i, .partialSlabs)).erase (slabOf obj))) :=
    Ledger.flatMap_of_perm_cons nodup_slabKeys (mem_slabKeys _) (List.perm_cons_erase hp)
  refine ⟨_, _, ⟨hL₁.relist (fun j => cache_update_eq SlabCache.objectsPerSlab rfl) rfl rfl ?_
    (fun j => ?_) (fun j => ?_) (fun k' q hq => ⟨k', rfl, (hI.family.mem_remove hp hq).1⟩)
    (fun x hx' => ?_) ?_, fun k' q hq => ?_⟩⟩
  · rw [slabHeads_update .partialSlabs rfl rfl (by intro k hk; cases k <;> simp_all)]
    exact hI.family.detach hp
  · rw [Function.update_of_ne (by simp), ← hI.numEmpty j]
    exact cache_update_eq SlabCache.numEmptySlabs rfl
  · rw [Function.update_of_ne (by simp)]
    exact hI.numEmpty_le j
  · obtain ⟨k, hk⟩ := mem_slabPages.mp (hL₁.inSlab x hx')
    refine mem_slabPages.mpr ⟨k, ?_⟩
    by_cases hki : k = (i, .partialSlabs)
    · subst hki
      rw [Function.update_self]
      exact (List.mem_erase_of_ne (hnone x hx')).mpr hk
    · rwa [Function.update_of_ne hki]
  · -- `physmem_free` takes the slab's frame back
    have hmem : (slabOf obj, 0) ∈ (slabPages L).map (·, 0) ++ other :=
      List.mem_append_left _ (List.mem_map_of_mem (mem_slabPages.mpr ⟨_, hp⟩))
    have hphys := hL₁.phys.free hmem hfree
    refine hphys.perm ?_
    have := ((hperm.map fun x => (x, 0)).append_right other).erase (slabOf obj, 0)
    rwa [List.map_cons, List.cons_append, List.erase_cons_head] at this
  · obtain ⟨hq, hqp⟩ := hI.family.mem_remove hp hq
    rw [show ((giveBack s obj).slabs q) = s.slabs q from giveBack_slabs_of_ne hqp]
    exact hI.freeCount k' q hq

/-- The free count of a slab that gets an object back tells its list: all free again comes
from the partial list, one free from the full list. -/
theorem FreeCount.eq_partialSlabs {ops n : Nat} {kind : SlabKind} (h : FreeCount ops kind n)
    (h3 : 3 ≤ ops) (hn : n + 1 = ops) : kind = .partialSlabs := by
  cases kind with
  | fullSlabs => exact absurd (show n = 0 from h) (by omega)
  | partialSlabs => rfl
  | emptySlabs => exact absurd (show n = ops from h) (by omega)

theorem FreeCount.eq_fullSlabs {ops : Nat} {kind : SlabKind} (h : FreeCount ops kind 0)
    (h3 : 3 ≤ ops) : kind = .fullSlabs := by
  cases kind with
  | fullSlabs => rfl
  | partialSlabs => exact absurd (show 0 < 0 ∧ 0 < ops from h).1 (by omega)
  | emptySlabs => exact absurd (show 0 = ops from h) (by omega)

/-- `slab_free` of an object handed out keeps the slab invariant, with the object back. -/
theorem SlabInv.slabFree (hI : SlabInv heapDebug s L O out other) (hx : obj ∈ out)
    {c : Fin maxCores} {s' : State} (hs : slabFree s c obj = some s') :
    ∃ L' O', SlabInv heapDebug s' L' O' (out.erase obj) other := by
  obtain ⟨⟨i, kind⟩, hp⟩ := mem_slabPages.mp (hI.inSlab obj hx)
  have hok := hI.slab _ _ hp
  have hc : FreeCount (objectsPerSlab heapDebug i) kind (s.slabs (slabOf obj)).freeObjects :=
    hI.freeCount _ _ hp
  have h3 := three_le_objectsPerSlab heapDebug i
  unfold Heap.slabFree at hs
  obtain ⟨i', hi', hs⟩ := Option.bind_eq_some_iff.mp hs
  rw [hok.objectSize, cacheOfObjectSize_objectSizes, Option.some.injEq] at hi'
  subst hi'
  dsimp only at hs
  split_ifs at hs with hfull hnum hone <;> rw [hI.objectsPerSlab_eq] at hfull
  · obtain rfl := hc.eq_partialSlabs h3 hfull
    obtain ⟨phys, hfree, rfl⟩ := Option.map_eq_some_iff.mp hs
    exact hI.freeRelease hx hp hfull hfree
  · obtain rfl := hc.eq_partialSlabs h3 hfull
    cases hs
    exact hI.freeToEmpty hx hp hfull hnum
  · have hzero : (s.slabs (slabOf obj)).freeObjects = 0 := by omega
    rw [hzero] at hc
    obtain rfl := hc.eq_fullSlabs h3
    cases hs
    exact hI.freeToPartial hx hp hzero
  · cases hs
    exact hI.freeStay hx hp hfull hone

/-- What `slab_free(obj)` leaves to the layers above: of the `next` words only `obj`'s
changes, and no slab header's object size. -/
theorem slabFree_frame {c : Fin maxCores} {s' : State} (hs : slabFree s c obj = some s') :
    SlabFrame s s' ∧ (∀ x, x ≠ obj → s'.objNext x = s.objNext x) ∧
      ∀ q, (s'.slabs q).objectSize = (s.slabs q).objectSize := by
  -- every branch gives `obj` back as `giveBack` does and then relinks its slab
  have hgive : ∀ t : State, t.objNext = (giveBack s obj).objNext →
      t.slabs = (giveBack s obj).slabs → SlabFrame s t →
      SlabFrame s t ∧ (∀ x, x ≠ obj → t.objNext x = s.objNext x) ∧
        ∀ q, (t.slabs q).objectSize = (s.slabs q).objectSize :=
    fun t hn hsl hf => ⟨hf, fun x hx => by rw [hn]; exact Function.update_of_ne hx ..,
      fun q => by rw [hsl]; exact objectSize_update⟩
  unfold Heap.slabFree at hs
  obtain ⟨i, -, hs⟩ := Option.bind_eq_some_iff.mp hs
  dsimp only at hs
  split_ifs at hs
  · obtain ⟨phys, -, rfl⟩ := Option.map_eq_some_iff.mp hs
    exact hgive _ rfl rfl ⟨rfl, rfl, rfl⟩
  all_goals
    cases hs
    exact hgive _ rfl rfl ⟨rfl, rfl, rfl⟩

end Free

end DioptaseOS.Heap
