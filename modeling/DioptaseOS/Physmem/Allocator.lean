import Mathlib.Data.Multiset.OrderedMonoid
import Mathlib.Tactic.Abel
import DioptaseOS.Physmem.Basic

/-!
# The physical frame allocator: operations

The allocator's entry points as `physmem.c` writes them, each loop a recursive function of
its own: the search and split loops of `physmem_alloc_order`, the coalescing loop of
`physmem_free_order`, the refill and drain loops of the per-core caches in `physmem_alloc`
and `physmem_free`, and the decomposition loop of `physmem_init`.

Each operation has one specification against the free-list invariant `FreeLists`: the new
state satisfies it for new abstract lists, and the frames on the free lists (and in the
caches) change by exactly the frames handed out or given back. The operations that only
split or only coalesce are also shown to keep the free lists buddy-free.

## Main definitions

* `physmemAllocOrder`, `physmemFreeOrder`, `physmemAlloc`, `physmemFree`, `physmemInit`
* `freeFrames` — the frames on the free lists; `cacheFrames` — the frames in the caches
* `initBlocks` — the blocks `physmem_init` creates

## Main results

* `physmemAllocOrder_spec`, `physmemFreeOrder_spec`, `physmemAlloc_spec`, `physmemFree_spec`,
  `physmemInit_spec`
* `coalesce_spec` — the block the coalescing loop stops at has no free buddy
* `initBlocks_physFrameCount`, `noBuddies_initBlocks` — the boot decomposition and its lack of
  buddy pairs
-/

namespace DioptaseOS.Physmem

open PtrList BuddyBlock
open scoped List

/-! ### `physmem_alloc_order` -/

/-- The search loop of `physmem_alloc_order`: the smallest order from `current` up with a
nonempty list; `none` is the out-of-memory panic. -/
def findOrder (s : State) (current : Nat) : Option Nat :=
  if s.freePageList current = none then
    if physFrameMaxOrder ≤ current then none else findOrder s (current + 1)
  else some current
termination_by physFrameMaxOrder - current

/-- The split loop of `physmem_alloc_order`: while the block at `node` is larger than
`order`, halve it and push the upper half on the list of the smaller order. -/
def splitBlock (node order : Nat) : State → Nat → Option State
  | s, 0 => some s
  | s, current + 1 =>
    if order < current + 1 then
      (freeListPush s (node + (1 <<< current)) current).bind fun s =>
        splitBlock node order s current
    else some s

/-- `physmem_alloc_order(order)`: the address of a free block of `2 ^ order` frames. -/
def physmemAllocOrder (s : State) (order : Nat) : Option (State × Nat) :=
  if order ≤ physFrameMaxOrder then do
    let current ← findOrder s order
    let (s, node) ← freeListPop s current
    let node ← node
    let s ← splitBlock node order s current
    if physmemIsFrameAddress (addressFromFrameIndex node) then
      some (s, addressFromFrameIndex node)
    else none
  else none

/-! ### `physmem_free_order` -/

/-- The coalescing loop of `physmem_free_order`: while the buddy of the block is in range,
free and of the same order, take it off its list and continue with the merged block.
Returns the final block's index and order. -/
def coalesce (s : State) (blockIndex order : Nat) : Option (State × Nat × Nat) :=
  if order < physFrameMaxOrder then
    let buddyIndex := blockIndex ^^^ (1 <<< order)
    if physFrameCount ≤ buddyIndex then some (s, blockIndex, order)
    else if !isBlockFree s.freePageBitmap buddyIndex then some (s, blockIndex, order)
    else if s.freeOrder buddyIndex ≠ order then some (s, blockIndex, order)
    else (freeListRemove s buddyIndex).bind fun s =>
      coalesce s (if buddyIndex < blockIndex then buddyIndex else blockIndex) (order + 1)
  else some (s, blockIndex, order)
termination_by physFrameMaxOrder - order

/-- `physmem_free_order(page, order)`. -/
def physmemFreeOrder (s : State) (page order : Nat) : Option State :=
  if page ≠ 0 ∧ physmemIsFrameAddress page = true ∧ order ≤ physFrameMaxOrder ∧
      frameIndexFromAddress page &&& ((1 <<< order) - 1) = 0 then do
    let (s, blockIndex, order) ← coalesce s (frameIndexFromAddress page) order
    freeListPush s blockIndex order
  else none

/-! ### The per-core caches -/

/-- The refill loop of `physmem_alloc`: `n` more pages from `physmem_alloc_order(0)` on top of
the cache of core `c`. -/
def refillCache (c : Fin maxCores) : Nat → State → Option State
  | 0, s => some s
  | n + 1, s => do
    let (s, page) ← physmemAllocOrder s 0
    refillCache c n { s with cache := Function.update s.cache c (page :: s.cache c) }

/-- `physmem_alloc()` on core `c`: refill an empty cache, then pop its top page. -/
def physmemAlloc (s : State) (c : Fin maxCores) : Option (State × Nat) :=
  (if s.cache c = [] then refillCache c localCacheRefill s else some s).bind fun s =>
    match s.cache c with
    | [] => none
    | page :: rest => some ({ s with cache := Function.update s.cache c rest }, page)

/-- The drain loop of `physmem_free`: while the cache holds at least `LOCAL_CACHE_REFILL`
pages, give its top page back with `physmem_free_order(page, 0)`. -/
def drainCache (s : State) : List Nat → Option (State × List Nat)
  | [] => some (s, [])
  | page :: rest =>
    if localCacheRefill ≤ rest.length + 1 then
      (physmemFreeOrder s page 0).bind fun s => drainCache s rest
    else some (s, page :: rest)

/-- `physmem_free(page)` on core `c`: drain a full cache, then push the page on it. -/
def physmemFree (s : State) (c : Fin maxCores) (page : Nat) : Option State :=
  if page ≠ 0 ∧ physmemIsFrameAddress page = true then
    (if (s.cache c).length = localCacheSize then drainCache s (s.cache c)
      else some (s, s.cache c)).map fun (s, pages) =>
        { s with cache := Function.update s.cache c (page :: pages) }
  else none

/-! ### `physmem_init` -/

/-- The first inner loop of `physmem_init`: the largest order not above `order` whose block
fits in the remaining frames. -/
def fitOrder (framesRemaining : Nat) : Nat → Nat
  | 0 => 0
  | order + 1 =>
    if framesRemaining < 1 <<< (order + 1) then fitOrder framesRemaining order else order + 1

/-- The second inner loop of `physmem_init`: the largest order not above `order` to which the
next frame index is aligned. -/
def alignOrder (nextFrameIndex : Nat) : Nat → Nat
  | 0 => 0
  | order + 1 =>
    if nextFrameIndex &&& ((1 <<< (order + 1)) - 1) ≠ 0 then alignOrder nextFrameIndex order
    else order + 1

/-- The order of the block `physmem_init` pushes next. -/
def initOrder (framesRemaining nextFrameIndex : Nat) : Nat :=
  alignOrder nextFrameIndex (fitOrder framesRemaining physFrameMaxOrder)

theorem one_shiftLeft_pos (k : Nat) : 0 < 1 <<< k := by
  rw [Nat.one_shiftLeft]; exact Nat.two_pow_pos k

/-- The main loop of `physmem_init`: push the largest aligned block that fits. -/
def initLoop (s : State) (framesRemaining nextFrameIndex : Nat) : Option State :=
  if 0 < framesRemaining then
    (freeListPush s nextFrameIndex (initOrder framesRemaining nextFrameIndex)).bind fun s =>
      initLoop s (framesRemaining - (1 <<< initOrder framesRemaining nextFrameIndex))
        (nextFrameIndex + (1 <<< initOrder framesRemaining nextFrameIndex))
  else some s
termination_by framesRemaining
decreasing_by
  have := one_shiftLeft_pos (initOrder framesRemaining nextFrameIndex)
  omega

/-- `physmem_init()`: empty the free lists, push the frames as maximal aligned blocks and
empty the caches. -/
def physmemInit (s : State) : Option State :=
  if (framesAddrEnd - framesAddrStart) / frameSize = physFrameCount ∧
      (physFrameCount + 7) / 8 = freePageBitmapSize then
    (initLoop { s with freePageList := fun _ => none } physFrameCount 0).map
      fun s => { s with cache := fun _ => [] }
  else none

/-! ### Frames on the free lists -/

/-- The frames held by the free lists `L`, counted with multiplicity. -/
def freeFrames (L : Nat → List Nat) : Multiset Nat := cover (freeBlocks L)

theorem freeFrames_push {L : Nat → List Nat} {k : Nat} (hk : k ≤ physFrameMaxOrder) (i : Nat) :
    freeFrames (Function.update L k (i :: L k)) = (⟨i, k⟩ : Block).frames + freeFrames L := by
  rw [freeFrames, Multiset.coe_eq_coe.mpr (cover_freeBlocks_push hk i), ← Multiset.coe_add]
  rfl

theorem freeFrames_of_perm {L : Nat → List Nat} {k a : Nat} {l : List Nat}
    (hk : k ≤ physFrameMaxOrder) (hl : L k ~ a :: l) :
    freeFrames L = (⟨a, k⟩ : Block).frames + freeFrames (Function.update L k l) := by
  rw [freeFrames, Multiset.coe_eq_coe.mpr (cover_freeBlocks_of_perm hk hl), ← Multiset.coe_add]
  rfl

theorem FreeLists.nodup_freeFrames {s : State} {L : Nat → List Nat} (h : FreeLists s L) :
    (freeFrames L).Nodup :=
  Multiset.coe_nodup.mpr h.nodup

/-- A block whose frames are disjoint from the free frames starts no free block. -/
theorem not_mem_of_nodup {L : Nat → List Nat} {b d : Block}
    (hnd : (freeFrames L + (b.frames : Multiset Nat)).Nodup) (hd : d ∈ freeBlocks L) {x : Nat}
    (hxb : x ∈ b.frames) (hxd : x ∈ d.frames) : False :=
  Multiset.disjoint_left.mp (Multiset.nodup_add.mp hnd).2.2
    (Multiset.mem_coe.mpr (mem_cover.mpr ⟨d, hd, hxd⟩)) (Multiset.mem_coe.mpr hxb)

theorem fresh_of_nodup {L : Nat → List Nat} {b : Block}
    (hnd : (freeFrames L + (b.frames : Multiset Nat)).Nodup) :
    ∀ x ∈ b.frames, x ∉ cover (freeBlocks L) := fun _ hx hc =>
  let ⟨_, hd, hxd⟩ := mem_cover.mp hc
  not_mem_of_nodup hnd hd hx hxd

/-! ### Specification of `physmem_alloc_order` -/

theorem le_of_freeListPush {s s' : State} {i k : Nat} (hs : freeListPush s i k = some s') :
    k ≤ physFrameMaxOrder := by
  unfold freeListPush at hs
  split_ifs at hs with hg
  exact hg.1

theorem freeListPush_cache {s s' : State} {i k : Nat} (hs : freeListPush s i k = some s') :
    s'.cache = s.cache := by
  unfold freeListPush at hs
  split_ifs at hs
  cases hs
  rfl

theorem freeListPop_cache {s s' : State} {k : Nat} {a : Option Nat}
    (hs : freeListPop s k = some (s', a)) : s'.cache = s.cache := by
  unfold freeListPop at hs
  split_ifs at hs
  split at hs <;> cases hs <;> rfl

theorem freeListRemove_cache {s s' : State} {a : Nat} (hs : freeListRemove s a = some s') :
    s'.cache = s.cache := by
  unfold freeListRemove at hs
  split_ifs at hs
  cases hs
  rfl

theorem findOrder_ge {s : State} {current found : Nat} (h : findOrder s current = some found) :
    current ≤ found := by
  unfold findOrder at h
  split_ifs at h with hnone hmax
  · have := findOrder_ge h
    omega
  · cases h; exact le_rfl
termination_by physFrameMaxOrder - current

variable {s s' : State} {L : Nat → List Nat}

/-- The split loop returns the lower block of the requested order and puts the upper halves
on the free lists. -/
theorem splitBlock_spec {node order : Nat} :
    ∀ {current : Nat} {s s' : State} {L : Nat → List Nat}, FreeLists s L → order ≤ current →
      (⟨node, current⟩ : Block).Aligned → node + 2 ^ current ≤ physFrameCount →
      (freeFrames L + ((⟨node, current⟩ : Block).frames : Multiset Nat)).Nodup →
      splitBlock node order s current = some s' →
      ∃ L', FreeLists s' L' ∧
        freeFrames L' + ((⟨node, order⟩ : Block).frames : Multiset Nat) =
          freeFrames L + ((⟨node, current⟩ : Block).frames : Multiset Nat) ∧
        (NoBuddies physFrameMaxOrder (freeBlocks L) →
          NoBuddies physFrameMaxOrder (freeBlocks L')) ∧ s'.cache = s.cache
  | 0, s, s', L, h, hle, _, _, _, hs => by
    obtain rfl : order = 0 := by omega
    cases hs
    exact ⟨L, h, rfl, id, rfl⟩
  | current + 1, s, s', L, h, hle, hal, hin, hnd, hs => by
    rw [splitBlock] at hs
    split_ifs at hs with hlt
    · obtain ⟨s₁, hs₁, hs'⟩ := Option.bind_eq_some_iff.mp hs
      rw [Nat.one_shiftLeft] at hs₁
      have hk := le_of_freeListPush hs₁
      -- the block splits into its lower half, split further, and its upper half, freed
      have hhalves : ((⟨node, current + 1⟩ : Block).frames : Multiset Nat) =
          (⟨node, current⟩ : Block).frames + (⟨node + 2 ^ current, current⟩ : Block).frames := by
        rw [Block.frames_succ, ← Multiset.coe_add]
      have hnd_up : (freeFrames L + ((⟨node + 2 ^ current, current⟩ : Block).frames : Multiset Nat)).Nodup :=
        Multiset.nodup_of_le (by rw [hhalves, add_left_comm]; exact le_add_self) hnd
      have h₁ := h.push (by rw [pow_succ] at hin; omega) (fresh_of_nodup hnd_up) hs₁
      have hF₁ := freeFrames_push (L := L) hk (node + 2 ^ current)
      obtain ⟨L', h', hF', hnb, hc⟩ := splitBlock_spec h₁ (by omega) hal.of_succ
        (by rw [pow_succ] at hin; omega) (by rw [hF₁]; convert hnd using 1; rw [hhalves]; abel) hs'
      refine ⟨L', h', by rw [hF', hF₁, hhalves]; abel, fun hn => hnb ?_,
        hc.trans (freeListPush_cache hs₁)⟩
      -- the upper half's buddy is the lower half, which is not free
      refine (hn.cons fun _ hbud => ?_).of_subset (freeBlocks_push hk _).subset
      have hb : (⟨node + 2 ^ current, current⟩ : Block).buddy = ⟨node, current⟩ := by
        rw [← (Block.merge_of_even hal.of_succ (even_of_aligned_succ hal)).2.1, Block.buddy_buddy]
      rw [hb] at hbud
      exact not_mem_of_nodup hnd hbud (start_mem_frames _) (start_mem_frames _)
    · obtain rfl : order = current + 1 := by omega
      cases hs
      exact ⟨L, h, rfl, id, rfl⟩


/-- Taking a block off the list of its order leaves a subset of the free blocks. -/
theorem freeBlocks_update_subset {t : List Nat} {k a : Nat} (hk : k ≤ physFrameMaxOrder)
    (hL : L k = a :: t) : freeBlocks (Function.update L k t) ⊆ freeBlocks L := fun _ hb =>
  (freeBlocks_of_perm hk (List.Perm.of_eq hL)).symm.subset (List.mem_cons_of_mem _ hb)

/-- `physmem_alloc_order` hands out an aligned block that was free and keeps the free-list
invariant; it never coalesces, so it keeps the free lists buddy-free. -/
theorem physmemAllocOrder_spec (h : FreeLists s L) {order page : Nat}
    (hs : physmemAllocOrder s order = some (s', page)) :
    ∃ L', FreeLists s' L' ∧ physmemIsFrameAddress page = true ∧
      (⟨frameIndexFromAddress page, order⟩ : Block).Aligned ∧
      freeFrames L =
        freeFrames L' + ((⟨frameIndexFromAddress page, order⟩ : Block).frames : Multiset Nat) ∧
      (NoBuddies physFrameMaxOrder (freeBlocks L) →
        NoBuddies physFrameMaxOrder (freeBlocks L')) ∧ s'.cache = s.cache := by
  unfold physmemAllocOrder at hs
  split_ifs at hs with hk
  simp only [Option.bind_eq_bind, Option.bind_eq_some_iff] at hs
  obtain ⟨current, hfind, ⟨s₁, node?⟩, hpop, node, hnode, s₂, hsplit, hfin⟩ := hs
  simp only at hnode hsplit
  subst hnode
  split_ifs at hfin with hv
  cases hfin
  have hle := findOrder_ge hfind
  obtain ⟨t, hL, hcur, h₁⟩ := h.pop hpop
  have hmem : node ∈ L current := by simp [hL]
  have hal := h.aligned current node hmem
  have hF := freeFrames_of_perm hcur (List.Perm.of_eq hL)
  obtain ⟨L', h', hF', hnb, hc⟩ := splitBlock_spec h₁ hle hal (h.inside current node hmem)
    (by rw [add_comm, ← hF]; exact h.nodup_freeFrames) hsplit
  rw [frameIndex_address]
  refine ⟨L', h', hv, hal.of_le hle, by rw [hF', hF]; abel, fun hn => hnb ?_,
    hc.trans (freeListPop_cache hpop)⟩
  exact hn.of_subset (freeBlocks_update_subset hcur hL)

/-! ### Specification of `physmem_free_order` -/

/-- The coalescing loop merges the block with free buddies of its own order. It stops at the
first buddy that is out of range, not free, or free at another order, so the block it returns
has no free buddy. -/
theorem coalesce_spec {s s' : State} {L : Nat → List Nat} {blockIndex order j m : Nat}
    (h : FreeLists s L) (hal : (⟨blockIndex, order⟩ : Block).Aligned)
    (hin : blockIndex + 2 ^ order ≤ physFrameCount) (hk : order ≤ physFrameMaxOrder)
    (hnd : (freeFrames L + ((⟨blockIndex, order⟩ : Block).frames : Multiset Nat)).Nodup)
    (hs : coalesce s blockIndex order = some (s', j, m)) :
    ∃ L', FreeLists s' L' ∧ (⟨j, m⟩ : Block).Aligned ∧ j + 2 ^ m ≤ physFrameCount ∧
      m ≤ physFrameMaxOrder ∧
      freeFrames L' + ((⟨j, m⟩ : Block).frames : Multiset Nat) =
        freeFrames L + ((⟨blockIndex, order⟩ : Block).frames : Multiset Nat) ∧
      (NoBuddies physFrameMaxOrder (freeBlocks L) →
        NoBuddies physFrameMaxOrder (freeBlocks L') ∧
        (m < physFrameMaxOrder → (⟨j, m⟩ : Block).buddy ∉ freeBlocks L')) ∧
      s'.cache = s.cache := by
  rw [coalesce] at hs
  dsimp only at hs
  generalize hbi : blockIndex ^^^ (1 <<< order) = bi at hs
  have hbud : (⟨blockIndex, order⟩ : Block).buddy = ⟨bi, order⟩ := by
    rw [← hbi, Block.buddy, Nat.one_shiftLeft]
  have hstart : (if bi < blockIndex then bi else blockIndex) =
      (⟨blockIndex, order⟩ : Block).merge.start := by
    simp only [Block.merge, hbud]
    split <;> omega
  rw [hstart] at hs
  split_ifs at hs with hlt hout hfree hord
  · -- the buddy is out of range
    cases hs
    refine ⟨L, h, hal, hin, hk, rfl, fun hn => ⟨hn, fun _ hmem => ?_⟩, rfl⟩
    rw [hbud] at hmem
    have := h.inside order bi (mem_freeBlocks.mp hmem).2
    have := Nat.two_pow_pos order
    omega
  · -- the buddy is not free
    cases hs
    refine ⟨L, h, hal, hin, hk, rfl, fun hn => ⟨hn, fun _ hmem => ?_⟩, rfl⟩
    rw [hbud] at hmem
    have := (h.bitmap bi).mpr ⟨order, (mem_freeBlocks.mp hmem).2⟩
    simp [this] at hfree
  · -- the buddy is free at another order
    cases hs
    refine ⟨L, h, hal, hin, hk, rfl, fun hn => ⟨hn, fun _ hmem => ?_⟩, rfl⟩
    rw [hbud] at hmem
    exact hord (h.freeOrder _ _ (mem_freeBlocks.mp hmem).2)
  · -- the buddy is free at this order: take it off its list and merge
    obtain ⟨s₁, hs₁, hs'⟩ := Option.bind_eq_some_iff.mp hs
    have hbi_mem : bi ∈ L order := by
      obtain ⟨k', hk'⟩ := (h.bitmap bi).mp (by simpa using hfree)
      obtain rfl : k' = order := (h.freeOrder k' bi hk').symm.trans (not_not.mp hord)
      exact hk'
    have h₁ := h.remove hbi_mem hs₁
    have hF₁ := freeFrames_of_perm hk (List.perm_cons_erase hbi_mem)
    have hmerge : ((⟨(⟨blockIndex, order⟩ : Block).merge.start, order + 1⟩ : Block).frames :
        Multiset Nat) = (⟨blockIndex, order⟩ : Block).frames + (⟨bi, order⟩ : Block).frames := by
      show ((⟨blockIndex, order⟩ : Block).merge.frames : Multiset Nat) = _
      rw [Multiset.coe_eq_coe.mpr (Block.frames_merge hal), Multiset.coe_add, hbud]
    have hmin : (⟨blockIndex, order⟩ : Block).merge.start + 2 ^ (order + 1) ≤ physFrameCount := by
      refine (Block.frames_lt_iff (b := (⟨blockIndex, order⟩ : Block).merge)).mp fun x hx => ?_
      have hx' := (Block.frames_merge hal).subset hx
      rw [hbud, List.mem_append] at hx'
      rcases hx' with hx' | hx'
      · exact Block.frames_lt_iff.mpr hin x hx'
      · exact Block.frames_lt_iff.mpr (h.inside order bi hbi_mem) x hx'
    obtain ⟨L', h', hal', hin', hk', hF', hnb, hc⟩ := @coalesce_spec _ _ _
      (⟨blockIndex, order⟩ : Block).merge.start (order + 1) _ _ h₁ hal.merge hmin hlt
      (by rw [hmerge]; rw [hF₁] at hnd; convert hnd using 1; abel) hs'
    refine ⟨L', h', hal', hin', hk', by rw [hF', hmerge, hF₁]; abel, fun hn => hnb ?_,
      hc.trans (freeListRemove_cache hs₁)⟩
    exact hn.of_subset fun _ hb =>
      (freeBlocks_of_perm hk (List.perm_cons_erase hbi_mem)).symm.subset (List.mem_cons_of_mem _ hb)
  · -- the loop has reached the top order
    cases hs
    exact ⟨L, h, hal, hin, hk, rfl, fun hn => ⟨hn, fun hm => absurd hm hlt⟩, rfl⟩
termination_by physFrameMaxOrder - order

/-- `physmem_free_order` puts the frames of a block that was not free back on the free lists,
coalesced, and keeps them buddy-free. -/
theorem physmemFreeOrder_spec (h : FreeLists s L) {page order : Nat}
    (hin : frameIndexFromAddress page + 2 ^ order ≤ physFrameCount)
    (hnd : (freeFrames L +
      ((⟨frameIndexFromAddress page, order⟩ : Block).frames : Multiset Nat)).Nodup)
    (hs : physmemFreeOrder s page order = some s') :
    ∃ L', FreeLists s' L' ∧
      freeFrames L' =
        freeFrames L + ((⟨frameIndexFromAddress page, order⟩ : Block).frames : Multiset Nat) ∧
      (NoBuddies physFrameMaxOrder (freeBlocks L) →
        NoBuddies physFrameMaxOrder (freeBlocks L')) ∧ s'.cache = s.cache := by
  unfold physmemFreeOrder at hs
  split_ifs at hs with hg
  obtain ⟨-, -, hk, hal⟩ := hg
  simp only [Option.bind_eq_bind, Option.bind_eq_some_iff] at hs
  obtain ⟨⟨s₁, j, m⟩, hco, hpush⟩ := hs
  obtain ⟨L₁, h₁, -, hin₁, hk₁, hF₁, hnb, hc⟩ :=
    coalesce_spec h ((and_mask_eq_zero_iff _ _).mp hal) hin hk hnd hco
  have hnd₁ : (freeFrames L₁ + ((⟨j, m⟩ : Block).frames : Multiset Nat)).Nodup := hF₁ ▸ hnd
  refine ⟨_, h₁.push hin₁ (fresh_of_nodup hnd₁) hpush, by rw [freeFrames_push hk₁, add_comm, hF₁],
    fun hn => ?_, (freeListPush_cache hpush).trans hc⟩
  -- the pushed block's buddy is not free, by the loop's stop conditions
  obtain ⟨hn₁, hb⟩ := hnb hn
  exact (hn₁.cons hb).of_subset (freeBlocks_push hk₁ j).subset

/-! ### The per-core caches -/

/-- The frames of the pages in the per-core caches. -/
def cacheFrames (cache : Fin maxCores → List Nat) : List Nat :=
  (List.finRange maxCores).flatMap fun c => (cache c).map frameIndexFromAddress

/-- Writing the cache of one core trades its old pages for the new ones. -/
theorem cacheFrames_update (cache : Fin maxCores → List Nat) (c : Fin maxCores) (l : List Nat) :
    (cacheFrames (Function.update cache c l) : Multiset Nat) +
        ((cache c).map frameIndexFromAddress : Multiset Nat) =
      (cacheFrames cache : Multiset Nat) + (l.map frameIndexFromAddress : Multiset Nat) := by
  have hfun : (fun c' => (Function.update cache c l c').map frameIndexFromAddress) =
      Function.update (fun c' => (cache c').map frameIndexFromAddress) c
        (l.map frameIndexFromAddress) := by
    funext c'
    exact Function.apply_update (fun _ l => l.map frameIndexFromAddress) cache c l c'
  rw [cacheFrames, cacheFrames, hfun, Multiset.coe_add, Multiset.coe_add, Multiset.coe_eq_coe]
  exact Ledger.flatMap_update_perm _ _ (List.nodup_finRange _) (List.mem_finRange c)

theorem cacheFrames_update_append (cache : Fin maxCores → List Nat) (c : Fin maxCores)
    (l : List Nat) :
    (cacheFrames (Function.update cache c (l ++ cache c)) : Multiset Nat) =
      cacheFrames cache + (l.map frameIndexFromAddress : Multiset Nat) := by
  have h := cacheFrames_update cache c (l ++ cache c)
  rw [List.map_append, ← Multiset.coe_add, ← add_assoc] at h
  exact add_right_cancel h

theorem cacheFrames_pop {cache : Fin maxCores → List Nat} {c : Fin maxCores} {p : Nat}
    {rest : List Nat} (hc : cache c = p :: rest) :
    (cacheFrames cache : Multiset Nat) =
      cacheFrames (Function.update cache c rest) + {frameIndexFromAddress p} := by
  have h := cacheFrames_update_append (Function.update cache c rest) c [p]
  rwa [Function.update_self, Function.update_idem, List.singleton_append, ← hc,
    Function.update_eq_self] at h

/-- A cache write within `LOCAL_CACHE_SIZE` keeps every cache within it. -/
theorem length_update_le {cache : Fin maxCores → List Nat} {c : Fin maxCores} {l : List Nat}
    (hb : ∀ c', (cache c').length ≤ localCacheSize) (hl : l.length ≤ localCacheSize)
    (c' : Fin maxCores) : (Function.update cache c l c').length ≤ localCacheSize := by
  by_cases hc : c' = c
  · subst hc; rwa [Function.update_self]
  · rw [Function.update_of_ne hc]; exact hb c'

/-- Every cached page is a frame address: a cache only takes pages that
`physmem_alloc_order` handed out or that `physmem_free` checked. -/
def CacheValid (cache : Fin maxCores → List Nat) : Prop :=
  ∀ c, ∀ page ∈ cache c, physmemIsFrameAddress page = true

theorem CacheValid.update {cache : Fin maxCores → List Nat} (h : CacheValid cache)
    {c : Fin maxCores} {l : List Nat} (hl : ∀ page ∈ l, physmemIsFrameAddress page = true) :
    CacheValid (Function.update cache c l) := by
  intro c' page hp
  by_cases hc : c' = c
  · subst hc
    rw [Function.update_self] at hp
    exact hl page hp
  · rw [Function.update_of_ne hc] at hp
    exact h c' page hp

theorem FreeLists.setCache (h : FreeLists s L) (cache : Fin maxCores → List Nat) :
    FreeLists { s with cache := cache } L :=
  ⟨h.doubly, h.above, h.aligned, h.inside, h.freeOrder, h.bitmap, h.nodup⟩

/-- The refill loop moves `n` free frames, handed out by `physmem_alloc_order(0)`, onto the
cache of core `c`. -/
theorem refillCache_spec (c : Fin maxCores) :
    ∀ (n : Nat) {s s' : State} {L : Nat → List Nat}, FreeLists s L → refillCache c n s = some s' →
      ∃ L' pages, FreeLists s' L' ∧ s'.cache = Function.update s.cache c (pages ++ s.cache c) ∧
        pages.length = n ∧ (∀ page ∈ pages, physmemIsFrameAddress page = true) ∧
        freeFrames L = freeFrames L' + ((pages.map frameIndexFromAddress : List Nat) : Multiset Nat)
  | 0, s, s', L, h, hs => by
    cases hs
    exact ⟨L, [], h, by simp, rfl, fun _ h => absurd h List.not_mem_nil, by simp⟩
  | n + 1, s, s', L, h, hs => by
    simp only [refillCache, Option.bind_eq_bind, Option.bind_eq_some_iff] at hs
    obtain ⟨⟨s₁, page⟩, halloc, hs'⟩ := hs
    obtain ⟨L₁, h₁, hpage, -, hF₁, -, hc₁⟩ := physmemAllocOrder_spec h halloc
    obtain ⟨L', pages, h', hc', hlen, hv, hF'⟩ := refillCache_spec c n (h₁.setCache _) hs'
    refine ⟨L', pages ++ [page], h', ?_, by simp [hlen], ?_, ?_⟩
    · rw [hc', hc₁]
      simp
    · intro p hp
      rcases List.mem_append.mp hp with hp | hp
      · exact hv p hp
      · rwa [List.mem_singleton.mp hp]
    · rw [hF₁, hF']
      simp only [Block.frames_zero, List.map_append, List.map_cons, List.map_nil, ← Multiset.coe_add]
      abel

/-- `physmem_alloc` hands out a page that was on a free list or in the cache of core `c`. -/
theorem physmemAlloc_spec (h : FreeLists s L) {c : Fin maxCores} {page : Nat}
    (hb : ∀ c', (s.cache c').length ≤ localCacheSize) (hv : CacheValid s.cache)
    (hs : physmemAlloc s c = some (s', page)) :
    ∃ L', FreeLists s' L' ∧
      freeFrames L + cacheFrames s.cache =
        freeFrames L' + cacheFrames s'.cache + {frameIndexFromAddress page} ∧
      (∀ c', (s'.cache c').length ≤ localCacheSize) ∧ CacheValid s'.cache ∧
      physmemIsFrameAddress page = true := by
  unfold physmemAlloc at hs
  obtain ⟨s₁, hs₁, hs'⟩ := Option.bind_eq_some_iff.mp hs
  -- an empty cache is refilled from the free lists first
  obtain ⟨L₁, h₁, hF₁, hb₁, hv₁⟩ : ∃ L₁, FreeLists s₁ L₁ ∧
      freeFrames L + cacheFrames s.cache = freeFrames L₁ + cacheFrames s₁.cache ∧
      (∀ c', (s₁.cache c').length ≤ localCacheSize) ∧ CacheValid s₁.cache := by
    split_ifs at hs₁ with hempty
    · obtain ⟨L₁, pages, h₁, hc, hlen, hpages, hF⟩ := refillCache_spec c _ h hs₁
      refine ⟨L₁, h₁, ?_, ?_, ?_⟩
      · rw [hF, hc, cacheFrames_update_append]
        abel
      · rw [hc]
        refine length_update_le hb ?_
        simp [hempty, hlen, localCacheRefill, localCacheSize]
      · rw [hc, hempty, List.append_nil]
        exact hv.update hpages
    · cases hs₁
      exact ⟨L, h, rfl, hb, hv⟩
  split at hs'
  · simp at hs'
  next page' rest hcache =>
    simp only [Option.some.injEq, Prod.mk.injEq] at hs'
    obtain ⟨rfl, rfl⟩ := hs'
    refine ⟨L₁, h₁.setCache _, ?_, length_update_le hb₁ ?_, ?_, ?_⟩
    · rw [hF₁, cacheFrames_pop hcache, add_assoc]
    · have := hb₁ c
      rw [hcache, List.length_cons] at this
      omega
    · exact hv₁.update fun p hp => hv₁ c p (hcache ▸ List.mem_cons_of_mem _ hp)
    · exact hv₁ c page' (hcache ▸ List.mem_cons_self)

private theorem coe_map_cons (p : Nat) (l : List Nat) :
    (((p :: l).map frameIndexFromAddress : List Nat) : Multiset Nat) =
      {frameIndexFromAddress p} + (l.map frameIndexFromAddress : Multiset Nat) := by
  rw [List.map_cons, ← Multiset.cons_coe, ← Multiset.singleton_add]

/-- The drain loop gives pages back with `physmem_free_order(page, 0)` until fewer than
`LOCAL_CACHE_REFILL` remain. -/
theorem drainCache_spec :
    ∀ (pages : List Nat) {s s' : State} {L : Nat → List Nat} {rest : List Nat}, FreeLists s L →
      (freeFrames L + (pages.map frameIndexFromAddress : Multiset Nat)).Nodup →
      (∀ p ∈ pages, frameIndexFromAddress p < physFrameCount) →
      drainCache s pages = some (s', rest) →
      ∃ L', FreeLists s' L' ∧
        freeFrames L' + (rest.map frameIndexFromAddress : Multiset Nat) =
          freeFrames L + (pages.map frameIndexFromAddress : Multiset Nat) ∧
        rest.length < localCacheRefill ∧ rest <:+ pages ∧ s'.cache = s.cache
  | [], s, s', L, rest, h, _, _, hs => by
    cases hs
    exact ⟨L, h, rfl, by decide, List.suffix_refl _, rfl⟩
  | page :: more, s, s', L, rest, h, hnd, hlt, hs => by
    rw [drainCache] at hs
    split_ifs at hs with hlen
    · obtain ⟨s₁, hs₁, hs'⟩ := Option.bind_eq_some_iff.mp hs
      rw [coe_map_cons] at hnd
      have hpage : ((⟨frameIndexFromAddress page, 0⟩ : Block).frames : Multiset Nat) =
          {frameIndexFromAddress page} := rfl
      obtain ⟨L₁, h₁, hF₁, -, hc₁⟩ := physmemFreeOrder_spec h
        (by rw [pow_zero]; exact hlt page List.mem_cons_self)
        (by rw [hpage]; exact Multiset.nodup_of_le (by rw [← add_assoc]; exact le_self_add) hnd) hs₁
      obtain ⟨L', h', hF', hrest, hsuf, hc'⟩ := drainCache_spec more h₁
        (by rw [hF₁, hpage, add_assoc]; exact hnd) (fun p hp => hlt p (List.mem_cons_of_mem _ hp)) hs'
      exact ⟨L', h', by rw [hF', hF₁, hpage, coe_map_cons, add_assoc], hrest,
        hsuf.trans (List.suffix_cons _ _), hc'.trans hc₁⟩
    · cases hs
      refine ⟨L, h, rfl, ?_, List.suffix_refl _, rfl⟩
      simp only [List.length_cons]
      omega

theorem map_le_cacheFrames (cache : Fin maxCores → List Nat) (c : Fin maxCores) :
    ((cache c).map frameIndexFromAddress : Multiset Nat) ≤ cacheFrames cache := by
  have h := cacheFrames_update cache c []
  rw [List.map_nil, Multiset.coe_nil, add_zero] at h
  rw [← h]
  exact le_add_self

/-- `physmem_free` puts the page on the cache of core `c`, after giving pages of a full cache
back to the free lists. -/
theorem physmemFree_spec (h : FreeLists s L) {c : Fin maxCores} {page : Nat}
    (hb : ∀ c', (s.cache c').length ≤ localCacheSize)
    (hnd : (freeFrames L + cacheFrames s.cache).Nodup)
    (hlt : ∀ c', ∀ p ∈ s.cache c', frameIndexFromAddress p < physFrameCount)
    (hv : CacheValid s.cache) (hs : physmemFree s c page = some s') :
    ∃ L', FreeLists s' L' ∧
      freeFrames L' + cacheFrames s'.cache =
        freeFrames L + cacheFrames s.cache + {frameIndexFromAddress page} ∧
      (∀ c', (s'.cache c').length ≤ localCacheSize) ∧ CacheValid s'.cache := by
  unfold physmemFree at hs
  split at hs
  case isFalse => cases hs
  next hpage =>
    obtain ⟨⟨s₁, pages⟩, hdrain, rfl⟩ := Option.map_eq_some_iff.mp hs
    -- a full cache is drained first; either way fewer than `LOCAL_CACHE_SIZE` pages remain,
    -- all of them from the cache
    obtain ⟨L₁, h₁, hF₁, hlen, hsuf, hc₁⟩ : ∃ L₁, FreeLists s₁ L₁ ∧
        freeFrames L₁ + (pages.map frameIndexFromAddress : Multiset Nat) =
          freeFrames L + ((s.cache c).map frameIndexFromAddress : Multiset Nat) ∧
        pages.length < localCacheSize ∧ pages <:+ s.cache c ∧ s₁.cache = s.cache := by
      split_ifs at hdrain with hfull
      · obtain ⟨L₁, h₁, hF₁, hlen, hsuf, hc₁⟩ := drainCache_spec (s.cache c) h
          (Multiset.nodup_of_le (add_le_add_right (map_le_cacheFrames _ c) _) hnd) (hlt c) hdrain
        exact ⟨L₁, h₁, hF₁, by simp only [localCacheRefill] at hlen; simp only [localCacheSize]; omega,
          hsuf, hc₁⟩
      · cases hdrain
        exact ⟨L, h, rfl, lt_of_le_of_ne (hb c) hfull, List.suffix_refl _, rfl⟩
    refine ⟨L₁, h₁.setCache _, ?_, length_update_le (hc₁ ▸ hb) (by simp only [List.length_cons]; omega),
      ?_⟩
    swap
    · show CacheValid (Function.update s₁.cache c (page :: pages))
      rw [hc₁]
      refine hv.update fun p hp => ?_
      rcases List.mem_cons.mp hp with rfl | hp
      · exact hpage.2
      · exact hv c p (hsuf.subset hp)
    have hcache := cacheFrames_update s.cache c (page :: pages)
    rw [coe_map_cons] at hcache
    simp only [hc₁]
    apply add_right_cancel (b := ((s.cache c).map frameIndexFromAddress : Multiset Nat))
    calc freeFrames L₁ + ↑(cacheFrames (Function.update s.cache c (page :: pages))) +
            ↑((s.cache c).map frameIndexFromAddress)
        = freeFrames L₁ + ↑(pages.map frameIndexFromAddress) + ↑(cacheFrames s.cache) +
            {frameIndexFromAddress page} := by rw [add_assoc, hcache]; abel
      _ = freeFrames L + ↑(cacheFrames s.cache) + {frameIndexFromAddress page} +
            ↑((s.cache c).map frameIndexFromAddress) := by rw [hF₁]; abel

/-! ### Specification of `physmem_init` -/

theorem fitOrder_le (framesRemaining : Nat) : ∀ order, fitOrder framesRemaining order ≤ order
  | 0 => le_rfl
  | order + 1 => by
    rw [fitOrder]
    split_ifs
    · exact (fitOrder_le framesRemaining order).trans (Nat.le_succ order)
    · exact le_rfl

theorem pow_fitOrder_le {framesRemaining : Nat} (hpos : 0 < framesRemaining) :
    ∀ order, 2 ^ fitOrder framesRemaining order ≤ framesRemaining
  | 0 => hpos
  | order + 1 => by
    rw [fitOrder]
    split_ifs with hlt
    · exact pow_fitOrder_le hpos order
    · rw [Nat.one_shiftLeft] at hlt
      omega

theorem alignOrder_le (nextFrameIndex : Nat) : ∀ order, alignOrder nextFrameIndex order ≤ order
  | 0 => le_rfl
  | order + 1 => by
    rw [alignOrder]
    split_ifs
    · exact (alignOrder_le nextFrameIndex order).trans (Nat.le_succ order)
    · exact le_rfl

theorem aligned_alignOrder (nextFrameIndex : Nat) :
    ∀ order, (⟨nextFrameIndex, alignOrder nextFrameIndex order⟩ : Block).Aligned
  | 0 => Nat.mod_one _
  | order + 1 => by
    rw [alignOrder]
    split_ifs with hne
    · exact aligned_alignOrder nextFrameIndex order
    · exact (and_mask_eq_zero_iff _ _).mp (not_not.mp hne)

theorem initOrder_le (framesRemaining nextFrameIndex : Nat) :
    initOrder framesRemaining nextFrameIndex ≤ physFrameMaxOrder :=
  (alignOrder_le _ _).trans (fitOrder_le _ _)

theorem aligned_initOrder (framesRemaining nextFrameIndex : Nat) :
    (⟨nextFrameIndex, initOrder framesRemaining nextFrameIndex⟩ : Block).Aligned :=
  aligned_alignOrder _ _

theorem pow_initOrder_le {framesRemaining : Nat} (hpos : 0 < framesRemaining)
    (nextFrameIndex : Nat) : 2 ^ initOrder framesRemaining nextFrameIndex ≤ framesRemaining :=
  (Nat.pow_le_pow_right (by norm_num) (alignOrder_le _ _)).trans (pow_fitOrder_le hpos _)

/-- The blocks `physmem_init` pushes, in order: from frame `nextFrameIndex` on, the largest
aligned block that fits in the `framesRemaining` frames left. -/
def initBlocks (framesRemaining nextFrameIndex : Nat) : List Block :=
  if 0 < framesRemaining then
    ⟨nextFrameIndex, initOrder framesRemaining nextFrameIndex⟩ ::
      initBlocks (framesRemaining - 2 ^ initOrder framesRemaining nextFrameIndex)
        (nextFrameIndex + 2 ^ initOrder framesRemaining nextFrameIndex)
  else []
termination_by framesRemaining
decreasing_by
  have := Nat.two_pow_pos (initOrder framesRemaining nextFrameIndex)
  omega

theorem aligned_initBlocks (framesRemaining nextFrameIndex : Nat) :
    ∀ b ∈ initBlocks framesRemaining nextFrameIndex, b.Aligned := by
  rw [initBlocks]
  split_ifs
  · rintro b (_ | ⟨_, hb⟩)
    · exact aligned_initOrder framesRemaining nextFrameIndex
    · exact aligned_initBlocks _ _ b hb
  · simp
termination_by framesRemaining
decreasing_by
  have := Nat.two_pow_pos (initOrder framesRemaining nextFrameIndex)
  omega

theorem order_le_initBlocks (framesRemaining nextFrameIndex : Nat) :
    ∀ b ∈ initBlocks framesRemaining nextFrameIndex, b.order ≤ physFrameMaxOrder := by
  rw [initBlocks]
  split_ifs
  · rintro b (_ | ⟨_, hb⟩)
    · exact initOrder_le framesRemaining nextFrameIndex
    · exact order_le_initBlocks _ _ b hb
  · simp
termination_by framesRemaining
decreasing_by
  have := Nat.two_pow_pos (initOrder framesRemaining nextFrameIndex)
  omega

/-- The blocks of `physmem_init` tile the frames it was given. -/
theorem cover_initBlocks (framesRemaining nextFrameIndex : Nat) :
    cover (initBlocks framesRemaining nextFrameIndex) =
      List.range' nextFrameIndex framesRemaining := by
  rw [initBlocks]
  split_ifs with hpos
  · have hle := pow_initOrder_le hpos nextFrameIndex
    rw [cover_cons, cover_initBlocks, Block.frames, List.range'_append_1, Nat.add_sub_cancel' hle]
  · rw [Nat.eq_zero_of_not_pos hpos]
    rfl
termination_by framesRemaining
decreasing_by
  have := Nat.two_pow_pos (initOrder framesRemaining nextFrameIndex)
  omega

/-- The blocks of `physmem_init` are aligned blocks of at most the top order with disjoint
frames. -/
theorem tiling_initBlocks (framesRemaining nextFrameIndex : Nat) :
    Tiling physFrameMaxOrder (initBlocks framesRemaining nextFrameIndex) where
  aligned := aligned_initBlocks framesRemaining nextFrameIndex
  order_le := order_le_initBlocks framesRemaining nextFrameIndex
  nodup := by rw [cover_initBlocks]; exact List.nodup_range'

/-- The main loop of `physmem_init` pushes the blocks of `initBlocks` onto the free lists; none
of its asserts fails. -/
theorem initLoop_spec {s : State} {L : Nat → List Nat} {framesRemaining nextFrameIndex : Nat}
    (h : FreeLists s L) (hend : nextFrameIndex + framesRemaining ≤ physFrameCount)
    (hbelow : ∀ x ∈ cover (freeBlocks L), x < nextFrameIndex) :
    ∃ s' L', initLoop s framesRemaining nextFrameIndex = some s' ∧ FreeLists s' L' ∧
      freeBlocks L' ~ initBlocks framesRemaining nextFrameIndex ++ freeBlocks L ∧
      s'.cache = s.cache := by
  rw [initLoop, initBlocks]
  split_ifs with hpos
  · obtain ⟨order, horder⟩ : ∃ order, order = initOrder framesRemaining nextFrameIndex := ⟨_, rfl⟩
    have hle := pow_initOrder_le hpos nextFrameIndex
    have hk := initOrder_le framesRemaining nextFrameIndex
    have hal := aligned_initOrder framesRemaining nextFrameIndex
    rw [← horder] at hle hk hal ⊢
    -- the pushed block passes every assert of `free_list_push`
    obtain ⟨s₁, hpush⟩ : ∃ s₁, freeListPush s nextFrameIndex order = some s₁ :=
      ⟨_, by rw [freeListPush, if_pos ⟨hk, by omega, (and_mask_eq_zero_iff _ _).mpr hal⟩]⟩
    have hpow := Nat.two_pow_pos order
    have h₁ := h.push (by omega) (fun x hx hc => by
      have := hbelow x hc
      have : nextFrameIndex ≤ x := (Block.mem_frames.mp hx).1
      omega) hpush
    have hbelow₁ : ∀ x ∈ cover (freeBlocks (Function.update L order (nextFrameIndex :: L order))),
        x < nextFrameIndex + 2 ^ order := by
      intro x hx
      rcases List.mem_append.mp ((cover_freeBlocks_push hk nextFrameIndex).subset hx) with hx | hx
      · exact (Block.mem_frames.mp hx).2
      · have := hbelow x hx
        omega
    obtain ⟨s', L', hloop, h', hperm, hc⟩ := @initLoop_spec _ _ (framesRemaining - 2 ^ order)
      (nextFrameIndex + 2 ^ order) h₁ (by omega) hbelow₁
    refine ⟨s', L', ?_, h', ?_, hc.trans (freeListPush_cache hpush)⟩
    · rw [Option.bind_eq_some_iff, Nat.one_shiftLeft]
      exact ⟨s₁, hpush, hloop⟩
    · exact hperm.trans ((List.Perm.append_left _ (freeBlocks_push hk nextFrameIndex)).trans
        List.perm_middle)
  · exact ⟨s, L, rfl, h, List.Perm.refl _, rfl⟩
termination_by framesRemaining
decreasing_by
  all_goals omega

/-- `physmem_init` does not panic on a boot image with a clear bitmap; it leaves the blocks of
`initBlocks` on the free lists and the caches empty. -/
theorem physmemInit_spec (s : State) (hb : ∀ i, s.freePageBitmap i = 0) :
    ∃ s', physmemInit s = some s' ∧ (∀ c, s'.cache c = []) ∧
      ∃ L, FreeLists s' L ∧ freeBlocks L ~ initBlocks physFrameCount 0 := by
  obtain ⟨s', L, hloop, h, hperm, -⟩ := @initLoop_spec _ _ physFrameCount 0
    (FreeLists.empty (s := { s with freePageList := fun _ => none }) (fun _ => rfl) hb)
    (Nat.zero_add _).le (by simp)
  refine ⟨_, by rw [physmemInit, if_pos (by decide), hloop, Option.map_some], fun _ => rfl, L,
    h.setCache _, ?_⟩
  simpa using hperm

/-- The boot decomposition of the frame range: one block per set bit of `PHYS_FRAME_COUNT`. -/
theorem initBlocks_physFrameCount :
    initBlocks physFrameCount 0 = [⟨0, 14⟩, ⟨16384, 13⟩, ⟨24576, 12⟩, ⟨28672, 11⟩, ⟨30720, 10⟩,
      ⟨31744, 9⟩, ⟨32256, 7⟩, ⟨32384, 5⟩, ⟨32416, 4⟩, ⟨32432, 3⟩] := by
  decide +kernel

theorem noBuddies_initBlocks : NoBuddies physFrameMaxOrder (initBlocks physFrameCount 0) := by
  rw [initBlocks_physFrameCount]
  decide

end DioptaseOS.Physmem
