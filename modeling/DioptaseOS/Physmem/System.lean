import DioptaseOS.Physmem.Allocator
import DioptaseOS.Lib.Footprint

/-!
# The physical frame allocator: runs and invariants

A run starts with `physmem_init()` on a boot image whose bitmap, a static array, is cleared,
and continues with calls of `physmem_alloc_order`, `physmem_free_order`, `physmem_alloc` and
`physmem_free` in any order and on any core; every free passes a block handed out at that
order and not given back since. Each call runs under the allocator's lock, so a call is one
step.

## Main definitions

* `Physmem.Sys` — the allocator's memory and the blocks it has handed out
* `OrderStep`, `PhysStep` — one call of the order interface, of any entry point
* `Reachable` — the systems a run reaches
* `PhysInv` — the representation invariant and the frame accounting

## Main results

* `physmem_invariant` — every reachable system keeps the free lists well formed, the bitmap
  in step with them, every frame accounted for exactly once, and the caches bounded
* `physmem_maximal_coalescing` — the free lists never hold a buddy pair, and return to the
  boot decomposition once everything is given back
-/

namespace DioptaseOS.Physmem

open PtrList BuddyBlock
open scoped List

/-! ### Runs of the allocator -/

/-- The allocator's memory together with the blocks it has handed out and not yet taken back,
by address and order. -/
structure Sys where
  mem : State
  live : List (Nat × Nat)

/-- A call of `physmem_alloc_order` or of `physmem_free_order` on a block that is live at
that order. -/
inductive OrderStep : Sys → Sys → Prop
  | allocOrder {σ : Sys} {s : State} {order page : Nat} :
      physmemAllocOrder σ.mem order = some (s, page) → OrderStep σ ⟨s, (page, order) :: σ.live⟩
  | freeOrder {σ : Sys} {s : State} {page order : Nat} : (page, order) ∈ σ.live →
      physmemFreeOrder σ.mem page order = some s → OrderStep σ ⟨s, σ.live.erase (page, order)⟩

/-- A call of any entry point of the allocator, on any core. -/
inductive PhysStep : Sys → Sys → Prop
  | order {σ σ' : Sys} : OrderStep σ σ' → PhysStep σ σ'
  | alloc {σ : Sys} {s : State} {c : Fin maxCores} {page : Nat} :
      physmemAlloc σ.mem c = some (s, page) → PhysStep σ ⟨s, (page, 0) :: σ.live⟩
  | free {σ : Sys} {s : State} {c : Fin maxCores} {page : Nat} : (page, 0) ∈ σ.live →
      physmemFree σ.mem c page = some s → PhysStep σ ⟨s, σ.live.erase (page, 0)⟩

/-- The systems reached from `physmem_init()` by a sequence of `step`s. The boot image has
the bitmap, a static array, cleared; the rest of memory is arbitrary. -/
inductive Reachable (step : Sys → Sys → Prop) : Sys → Prop
  | init {boot s : State} : (∀ i, boot.freePageBitmap i = 0) → physmemInit boot = some s →
      Reachable step ⟨s, []⟩
  | step {σ σ' : Sys} : Reachable step σ → step σ σ' → Reachable step σ'

theorem Reachable.of_orderStep {σ : Sys} (h : Reachable OrderStep σ) : Reachable PhysStep σ := by
  induction h with
  | init hb hs => exact .init hb hs
  | step _ hst ih => exact .step ih (.order hst)

/-! ### Frame accounting -/

/-- The frames of the blocks handed out. -/
def liveFrames (live : List (Nat × Nat)) : List Nat :=
  live.flatMap fun (page, order) => (⟨frameIndexFromAddress page, order⟩ : Block).frames

/-- Every frame is on a free list, in a cache or handed out, in exactly one place. -/
def Accounted (L : Nat → List Nat) (σ : Sys) : Prop :=
  freeFrames L + cacheFrames σ.mem.cache + liveFrames σ.live = Multiset.range physFrameCount

theorem liveFrames_erase {live : List (Nat × Nat)} {page order : Nat}
    (h : (page, order) ∈ live) :
    (liveFrames live : Multiset Nat) =
      (⟨frameIndexFromAddress page, order⟩ : Block).frames + liveFrames (live.erase (page, order)) := by
  rw [Multiset.coe_add, Multiset.coe_eq_coe]
  exact (List.perm_cons_erase h).flatMap_right _

@[simp] theorem liveFrames_nil : liveFrames [] = [] := rfl

theorem liveFrames_cons (page order : Nat) (live : List (Nat × Nat)) :
    (liveFrames ((page, order) :: live) : Multiset Nat) =
      (⟨frameIndexFromAddress page, order⟩ : Block).frames + liveFrames live := by
  rw [liveFrames, List.flatMap_cons, ← Multiset.coe_add]
  rfl

theorem liveFrames_perm {live live' : List (Nat × Nat)} (h : live ~ live') :
    (liveFrames live : Multiset Nat) = liveFrames live' :=
  Multiset.coe_eq_coe.mpr (h.flatMap_right _)

theorem cacheFrames_of_empty {cache : Fin maxCores → List Nat} (h : ∀ c, cache c = []) :
    cacheFrames cache = [] :=
  List.flatMap_eq_nil_iff.mpr fun c _ => by rw [h c, List.map_nil]

/-- A part of an accounting of the frames has no frame twice. -/
theorem nodup_of_add_eq_range {a b : Multiset Nat} (h : a + b = Multiset.range physFrameCount) :
    a.Nodup :=
  Multiset.nodup_of_le (Multiset.le_add_right a b) (h ▸ Multiset.nodup_range _)

/-- A frame of a part of an accounting of the frames is in range. -/
theorem lt_of_add_eq_range {a b : Multiset Nat} (h : a + b = Multiset.range physFrameCount)
    {x : Nat} (hx : x ∈ a) : x < physFrameCount :=
  Multiset.mem_range.mp (h ▸ Multiset.mem_add.mpr (.inl hx))

theorem accounted_iff {L : Nat → List Nat} {σ : Sys} :
    Accounted L σ ↔
      cover (freeBlocks L) ++ cacheFrames σ.mem.cache ++ liveFrames σ.live ~
        List.range physFrameCount := by
  rw [Accounted, freeFrames, Multiset.range, Multiset.coe_add, Multiset.coe_add,
    Multiset.coe_eq_coe]

/-- The addresses of a block handed out, by address and order. -/
def blockBytes (b : Nat × Nat) : List Nat := Footprint.bytes (b.1, 2 ^ b.2 * frameSize)

/-- A block at a frame address covers the addresses of its frames. -/
theorem blockBytes_eq {page order : Nat} (h : physmemIsFrameAddress page = true) :
    blockBytes (page, order) = (⟨frameIndexFromAddress page, order⟩ : Block).frames.flatMap
      fun f => Footprint.bytes (framesAddrStart + f * frameSize, frameSize) := by
  rw [Block.frames, Footprint.flatMap_cells, blockBytes]
  congr
  exact (address_frameIndex h).symm

/-! ### The representation invariant -/

/-- The invariant of every run: the walked free lists satisfy `FreeLists`, every frame is
accounted for exactly once, and no cache overflows. -/
structure PhysInv (σ : Sys) : Prop where
  lists : FreeLists σ.mem (freeListOf σ.mem)
  accounted : Accounted (freeListOf σ.mem) σ
  cacheSize : ∀ c, (σ.mem.cache c).length ≤ localCacheSize
  cacheValid : CacheValid σ.mem.cache

namespace PhysInv

variable {σ : Sys} {s : State}

theorem of_freeLists {L : Nat → List Nat} (h : FreeLists s L) {live : List (Nat × Nat)}
    (hacc : Accounted L ⟨s, live⟩) (hb : ∀ c, (s.cache c).length ≤ localCacheSize)
    (hv : CacheValid s.cache) : PhysInv ⟨s, live⟩ := by
  obtain rfl := h.freeListOf_eq
  exact ⟨h, hacc, hb, hv⟩

theorem init {boot : State} (hb : ∀ i, boot.freePageBitmap i = 0)
    (hs : physmemInit boot = some s) : PhysInv ⟨s, []⟩ := by
  obtain ⟨s', hs', hc, L, h, hperm⟩ := physmemInit_spec boot hb
  obtain rfl : s = s' := Option.some.inj (hs.symm.trans hs')
  refine of_freeLists h ?_ (fun c => by simp [hc c]) fun c p hp => by simp [hc c] at hp
  rw [accounted_iff, cacheFrames_of_empty hc, liveFrames_nil, List.append_nil, List.append_nil,
    List.range_eq_range']
  simpa [cover_initBlocks] using cover_perm hperm

theorem allocOrder (hI : PhysInv σ) {order page : Nat}
    (hs : physmemAllocOrder σ.mem order = some (s, page)) :
    PhysInv ⟨s, (page, order) :: σ.live⟩ := by
  obtain ⟨L', h', -, -, hF, -, hc⟩ := physmemAllocOrder_spec hI.lists hs
  refine of_freeLists h' ?_ (hc ▸ hI.cacheSize) (hc ▸ hI.cacheValid)
  have hacc := hI.accounted
  rw [Accounted, hF] at hacc
  rw [Accounted, liveFrames_cons, hc, ← hacc]
  abel

/-- A live block is not free and lies inside the frame range. -/
theorem live_block (hI : PhysInv σ) {page order : Nat} (hmem : (page, order) ∈ σ.live) :
    frameIndexFromAddress page + 2 ^ order ≤ physFrameCount ∧
      (freeFrames (freeListOf σ.mem) +
        ((⟨frameIndexFromAddress page, order⟩ : Block).frames : Multiset Nat)).Nodup := by
  have hacc : freeFrames (freeListOf σ.mem) +
      ((⟨frameIndexFromAddress page, order⟩ : Block).frames : Multiset Nat) +
      (cacheFrames σ.mem.cache + liveFrames (σ.live.erase (page, order))) =
      Multiset.range physFrameCount := by
    have hacc := hI.accounted
    rw [Accounted, liveFrames_erase hmem] at hacc
    rw [← hacc]
    abel
  refine ⟨(Block.frames_lt_iff (b := ⟨frameIndexFromAddress page, order⟩)).mp fun x hx => ?_,
    nodup_of_add_eq_range hacc⟩
  exact lt_of_add_eq_range hacc (Multiset.mem_add.mpr (.inr (Multiset.mem_coe.mpr hx)))

theorem freeOrder (hI : PhysInv σ) {page order : Nat} (hmem : (page, order) ∈ σ.live)
    (hs : physmemFreeOrder σ.mem page order = some s) :
    PhysInv ⟨s, σ.live.erase (page, order)⟩ := by
  obtain ⟨hin, hnd⟩ := hI.live_block hmem
  obtain ⟨L', h', hF, -, hc⟩ := physmemFreeOrder_spec hI.lists hin hnd hs
  refine of_freeLists h' ?_ (hc ▸ hI.cacheSize) (hc ▸ hI.cacheValid)
  have hacc := hI.accounted
  rw [Accounted, liveFrames_erase hmem] at hacc
  rw [Accounted, hF, hc, ← hacc]
  abel

theorem alloc (hI : PhysInv σ) {c : Fin maxCores} {page : Nat}
    (hs : physmemAlloc σ.mem c = some (s, page)) : PhysInv ⟨s, (page, 0) :: σ.live⟩ := by
  obtain ⟨L', h', hF, hb, hv, -⟩ := physmemAlloc_spec hI.lists hI.cacheSize hI.cacheValid hs
  refine of_freeLists h' ?_ hb hv
  have hacc := hI.accounted
  rw [Accounted, hF] at hacc
  rw [Accounted, liveFrames_cons, Block.frames_zero, ← hacc, Multiset.coe_singleton]
  abel

/-- The invariant reads the blocks handed out only as a multiset of frames. -/
theorem perm {live' : List (Nat × Nat)} (hI : PhysInv σ) (h : σ.live ~ live') :
    PhysInv ⟨σ.mem, live'⟩ := by
  refine ⟨hI.lists, ?_, hI.cacheSize, hI.cacheValid⟩
  have hacc := hI.accounted
  rw [Accounted, liveFrames_perm h] at hacc
  exact hacc

/-- `physmem_alloc` hands out a frame address. -/
theorem alloc_frameAddress (hI : PhysInv σ) {c : Fin maxCores} {page : Nat}
    (hs : physmemAlloc σ.mem c = some (s, page)) : physmemIsFrameAddress page = true := by
  obtain ⟨-, -, -, -, -, hpage⟩ := physmemAlloc_spec hI.lists hI.cacheSize hI.cacheValid hs
  exact hpage

/-- A block just handed out shares no frame with the blocks handed out before. -/
theorem not_mem_liveFrames {page order : Nat} {live : List (Nat × Nat)}
    (hI : PhysInv ⟨s, (page, order) :: live⟩) {x : Nat}
    (hx : x ∈ (⟨frameIndexFromAddress page, order⟩ : Block).frames) : x ∉ liveFrames live := by
  have hacc : ((⟨frameIndexFromAddress page, order⟩ : Block).frames : Multiset Nat) +
      liveFrames live + (freeFrames (freeListOf s) + cacheFrames s.cache) =
      Multiset.range physFrameCount := by
    have hacc := hI.accounted
    rw [Accounted, liveFrames_cons] at hacc
    rw [← hacc]
    abel
  exact Multiset.disjoint_left.mp (Multiset.disjoint_of_nodup_add (nodup_of_add_eq_range hacc))
    (Multiset.mem_coe.mpr hx)

/-- `physmem_alloc_order` hands out a frame address. -/
theorem allocOrder_frameAddress (hI : PhysInv σ) {order page : Nat}
    (hs : physmemAllocOrder σ.mem order = some (s, page)) : physmemIsFrameAddress page = true := by
  obtain ⟨-, -, hpage, -⟩ := physmemAllocOrder_spec hI.lists hs
  exact hpage

/-- No frame is in two blocks handed out. -/
theorem nodup_liveFrames (hI : PhysInv σ) : (liveFrames σ.live).Nodup := by
  have hacc := hI.accounted
  rw [Accounted, add_comm] at hacc
  exact Multiset.coe_nodup.mp (nodup_of_add_eq_range hacc)

/-- The first frame of a block handed out is in no other block handed out. -/
theorem frameIndex_ne {page order : Nat} {live : List (Nat × Nat)}
    (hI : PhysInv ⟨s, (page, order) :: live⟩) {b : Nat × Nat} (hb : b ∈ live) :
    frameIndexFromAddress b.1 ≠ frameIndexFromAddress page := by
  intro e
  refine hI.not_mem_liveFrames (start_mem_frames ⟨frameIndexFromAddress page, order⟩) ?_
  rw [← e]
  exact List.mem_flatMap.mpr ⟨b, hb, start_mem_frames _⟩

theorem free (hI : PhysInv σ) {c : Fin maxCores} {page : Nat} (hmem : (page, 0) ∈ σ.live)
    (hs : physmemFree σ.mem c page = some s) : PhysInv ⟨s, σ.live.erase (page, 0)⟩ := by
  have hacc := hI.accounted
  have hlt : ∀ c', ∀ p ∈ σ.mem.cache c', frameIndexFromAddress p < physFrameCount :=
    fun c' p hp => lt_of_add_eq_range hacc (Multiset.mem_add.mpr (.inr (Multiset.mem_coe.mpr
      (List.mem_flatMap.mpr ⟨c', List.mem_finRange c', List.mem_map_of_mem hp⟩))))
  obtain ⟨L', h', hF, hb, hv⟩ :=
    physmemFree_spec hI.lists hI.cacheSize (nodup_of_add_eq_range hacc) hlt hI.cacheValid hs
  refine of_freeLists h' ?_ hb hv
  rw [Accounted, liveFrames_erase hmem, Block.frames_zero, Multiset.coe_singleton] at hacc
  show freeFrames L' + cacheFrames s.cache + liveFrames (σ.live.erase (page, 0)) = _
  rw [hF, ← hacc]
  abel

/-- The blocks handed out, all at frame addresses, share no address. -/
theorem nodup_blockBytes (hI : PhysInv σ) (hpages : ∀ b ∈ σ.live, physmemIsFrameAddress b.1 = true) :
    (σ.live.flatMap blockBytes).Nodup := by
  have hlive : σ.live.flatMap blockBytes = (liveFrames σ.live).flatMap
      fun f => Footprint.bytes (framesAddrStart + f * frameSize, frameSize) := by
    rw [liveFrames, List.flatMap_assoc]
    refine List.flatMap_congr fun b hb => ?_
    obtain ⟨page, order⟩ := b
    exact blockBytes_eq (hpages _ hb)
  rw [hlive]
  exact Footprint.nodup_flatMap_cells hI.nodup_liveFrames

theorem step {σ' : Sys} (hI : PhysInv σ) (hst : PhysStep σ σ') : PhysInv σ' := by
  cases hst with
  | order ho =>
    cases ho with
    | allocOrder hs => exact hI.allocOrder hs
    | freeOrder hmem hs => exact hI.freeOrder hmem hs
  | alloc hs => exact hI.alloc hs
  | free hmem hs => exact hI.free hmem hs

theorem of_reachable (h : Reachable PhysStep σ) : PhysInv σ := by
  induction h with
  | init hb hs => exact init hb hs
  | step _ hst ih => exact ih.step hst

end PhysInv

/-- Every run of the allocator from `physmem_init()` keeps each free list a well-formed doubly
linked list of aligned blocks inside the frame range, tagged with their order, keeps the
bitmap set exactly at the heads of free blocks, accounts for every frame exactly once among
the free lists, the caches and the blocks handed out, and keeps every cache within
`LOCAL_CACHE_SIZE`. -/
theorem physmem_invariant {σ : Sys} (h : Reachable PhysStep σ) :
    FreeLists σ.mem (freeListOf σ.mem) ∧
      cover (freeBlocks (freeListOf σ.mem)) ++ cacheFrames σ.mem.cache ++ liveFrames σ.live ~
        List.range physFrameCount ∧
      ∀ c, (σ.mem.cache c).length ≤ localCacheSize := by
  have hI := PhysInv.of_reachable h
  exact ⟨hI.lists, accounted_iff.mp hI.accounted, hI.cacheSize⟩

/-- A boot image with every word cleared. -/
def bootImage : State :=
  ⟨fun _ => none, fun _ => 0, ⟨fun _ => none, fun _ => none⟩, fun _ => 0, fun _ => []⟩

theorem physmem_invariant_after_init :
    ∃ σ : Sys, Reachable PhysStep σ ∧ (FreeLists σ.mem (freeListOf σ.mem) ∧
      cover (freeBlocks (freeListOf σ.mem)) ++ cacheFrames σ.mem.cache ++ liveFrames σ.live ~
        List.range physFrameCount ∧
      ∀ c, (σ.mem.cache c).length ≤ localCacheSize) := by
  obtain ⟨s, hs, -⟩ := physmemInit_spec bootImage fun _ => rfl
  have hr : Reachable PhysStep ⟨s, []⟩ := .init (fun _ => rfl) hs
  exact ⟨_, hr, physmem_invariant hr⟩

/-! ### Maximal coalescing -/

/-- The invariant of runs of `physmem_alloc_order` and `physmem_free_order` alone: the caches
stay empty and the free lists buddy-free. -/
structure OrderInv (σ : Sys) : Prop where
  phys : PhysInv σ
  noBuddies : NoBuddies physFrameMaxOrder (freeBlocks (freeListOf σ.mem))
  cacheEmpty : ∀ c, σ.mem.cache c = []

namespace OrderInv

variable {σ σ' : Sys} {s : State}

theorem init {boot : State} (hb : ∀ i, boot.freePageBitmap i = 0)
    (hs : physmemInit boot = some s) : OrderInv ⟨s, []⟩ := by
  obtain ⟨s', hs', hc, L, h, hperm⟩ := physmemInit_spec boot hb
  obtain rfl : s = s' := Option.some.inj (hs.symm.trans hs')
  obtain rfl := h.freeListOf_eq
  exact ⟨PhysInv.init hb hs, noBuddies_initBlocks.of_subset hperm.subset, hc⟩

theorem step (hI : OrderInv σ) (hst : OrderStep σ σ') : OrderInv σ' := by
  cases hst with
  | allocOrder hs =>
    obtain ⟨L', h', -, -, -, hnb, hc⟩ := physmemAllocOrder_spec hI.phys.lists hs
    obtain rfl := h'.freeListOf_eq
    exact ⟨hI.phys.allocOrder hs, hnb hI.noBuddies, fun c => hc ▸ hI.cacheEmpty c⟩
  | freeOrder hmem hs =>
    obtain ⟨hin, hnd⟩ := hI.phys.live_block hmem
    obtain ⟨L', h', -, hnb, hc⟩ := physmemFreeOrder_spec hI.phys.lists hin hnd hs
    obtain rfl := h'.freeListOf_eq
    exact ⟨hI.phys.freeOrder hmem hs, hnb hI.noBuddies, fun c => hc ▸ hI.cacheEmpty c⟩

theorem of_reachable (h : Reachable OrderStep σ) : OrderInv σ := by
  induction h with
  | init hb hs => exact init hb hs
  | step _ hst ih => exact ih.step hst

end OrderInv

/-- Along runs of `physmem_alloc_order` and `physmem_free_order` from `physmem_init()`, no two
free blocks of an order below the top are buddies; so once every block handed out has been
given back, the free lists hold exactly the blocks `physmem_init` created. -/
theorem physmem_maximal_coalescing {σ : Sys} (h : Reachable OrderStep σ) :
    NoBuddies physFrameMaxOrder (freeBlocks (freeListOf σ.mem)) ∧
      (σ.live = [] →
        ∀ b, b ∈ freeBlocks (freeListOf σ.mem) ↔ b ∈ initBlocks physFrameCount 0) := by
  have hI := OrderInv.of_reachable h
  refine ⟨hI.noBuddies, fun hlive b => ?_⟩
  -- with nothing handed out and the caches empty, the free lists cover every frame
  have hcov : ∀ x, x ∈ cover (freeBlocks (freeListOf σ.mem)) ↔
      x ∈ cover (initBlocks physFrameCount 0) := by
    have hacc := accounted_iff.mp hI.phys.accounted
    rw [cacheFrames_of_empty hI.cacheEmpty, hlive, liveFrames_nil, List.append_nil,
      List.append_nil] at hacc
    intro x
    rw [hacc.mem_iff, cover_initBlocks, List.mem_range, List.mem_range'_1]
    omega
  exact Tiling.mem_iff_of_noBuddies hI.phys.lists.tiling (tiling_initBlocks _ _) hI.noBuddies
    noBuddies_initBlocks hcov b

theorem physmem_maximal_coalescing_after_init :
    ∃ σ : Sys, Reachable OrderStep σ ∧ (NoBuddies physFrameMaxOrder (freeBlocks (freeListOf σ.mem)) ∧
      (σ.live = [] →
        ∀ b, b ∈ freeBlocks (freeListOf σ.mem) ↔ b ∈ initBlocks physFrameCount 0)) := by
  obtain ⟨s, hs, -⟩ := physmemInit_spec bootImage fun _ => rfl
  have hr : Reachable OrderStep ⟨s, []⟩ := .init (fun _ => rfl) hs
  exact ⟨_, hr, physmem_maximal_coalescing hr⟩

end DioptaseOS.Physmem
