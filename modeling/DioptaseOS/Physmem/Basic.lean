import Mathlib.Data.UInt
import Mathlib.Data.Nat.Bitwise
import DioptaseOS.Lib.PtrList
import DioptaseOS.Lib.BuddyBlock
import DioptaseOS.Lib.Ledger

/-!
# The physical frame allocator: state and free lists

`physmem.c` manages the `PHYS_FRAME_COUNT` frames between `FRAMES_ADDR_START` and
`FRAMES_ADDR_END` as a buddy allocator. Free blocks of order `k` sit on the intrusive list
`free_page_list[k]`, whose node lives in the first frame of the block and also records the
block's order (`free_order`); a bitmap has the bit of a frame set when that frame heads a
free block. Each core keeps a stack of single frames in its `physmem_cache`.

A pointer to a `FreePageNode` is modelled by the index of the frame it points at; the
address conversions of the source are kept for the allocator's interface. An `assert` or a
`panic` of the source makes the model return `none`.

## Main definitions

* `Physmem.State` — the free lists, the bitmap, the node fields and the per-core caches
* `freeListPush`, `freeListPop`, `freeListRemove` — the three list primitives
* `Physmem.FreeLists` — the lists of the state are the abstract per-order lists `L`, whose
  blocks are aligned, inside the frame range, tagged with their order, marked in the bitmap
  and pairwise disjoint

## Main results

* `isBlockFree_markBlockFree`, `isBlockFree_markBlockAllocated` — the bitmap writes
* `FreeLists.push`, `FreeLists.pop`, `FreeLists.remove` — each primitive keeps the invariant,
  with the abstract lists changed at one order
* `cover_freeBlocks_push`, `cover_freeBlocks_of_perm` — the frames held by the free lists
  change by exactly the frames of the block pushed or taken
-/

namespace DioptaseOS.Physmem

open PtrList BuddyBlock
open scoped List

def frameSize : Nat := 4096
def framesAddrStart : Nat := 0x100000
def framesAddrEnd : Nat := 0x7FB8000
def physFrameCount : Nat := 32440
def physFrameMaxOrder : Nat := 14
def freePageBitmapSize : Nat := 4055
def localCacheSize : Nat := 64
def localCacheRefill : Nat := 32
def maxCores : Nat := 4

/-! ### The free-page bitmap -/

def bitMask (i : Nat) : UInt8 := (1 : UInt8) <<< (i % 8).toUInt8

def isBlockFree (bitmap : Nat → UInt8) (blockIndex : Nat) : Bool :=
  bitmap (blockIndex / 8) &&& bitMask blockIndex != 0

def markBlockAllocated (bitmap : Nat → UInt8) (blockIndex : Nat) : Nat → UInt8 :=
  Function.update bitmap (blockIndex / 8) (bitmap (blockIndex / 8) &&& ~~~(bitMask blockIndex))

def markBlockFree (bitmap : Nat → UInt8) (blockIndex : Nat) : Nat → UInt8 :=
  Function.update bitmap (blockIndex / 8) (bitmap (blockIndex / 8) ||| bitMask blockIndex)

private theorem bitMask_toNat (i : Nat) : (bitMask i).toNat = 2 ^ (i % 8) := by
  have hi : i % 8 < 8 := Nat.mod_lt _ (by norm_num)
  rw [bitMask, UInt8.toNat_shiftLeft]
  have h1 : ((i % 8).toUInt8).toNat = i % 8 := by simp; omega
  rw [h1, Nat.mod_eq_of_lt hi]
  simp only [UInt8.toNat_one, Nat.one_shiftLeft]
  exact Nat.mod_eq_of_lt (Nat.pow_lt_pow_right (by norm_num) hi)

private theorem and_bitMask_ne_zero (y : UInt8) (i : Nat) :
    y &&& bitMask i ≠ 0 ↔ y.toNat.testBit (i % 8) = true := by
  rw [ne_eq, ← UInt8.toNat_inj, UInt8.toNat_and, bitMask_toNat, Nat.and_two_pow]
  cases y.toNat.testBit (i % 8) <;> simp

theorem isBlockFree_iff (bitmap : Nat → UInt8) (i : Nat) :
    isBlockFree bitmap i = true ↔ (bitmap (i / 8)).toNat.testBit (i % 8) = true := by
  rw [isBlockFree, bne_iff_ne, and_bitMask_ne_zero]

private theorem eq_of_div_mod {i j : Nat} (hd : j / 8 = i / 8) (hm : j % 8 = i % 8) : j = i := by
  omega

theorem isBlockFree_markBlockFree (bitmap : Nat → UInt8) (i j : Nat) :
    isBlockFree (markBlockFree bitmap i) j = true ↔ j = i ∨ isBlockFree bitmap j = true := by
  rw [isBlockFree_iff, isBlockFree_iff, markBlockFree]
  by_cases hd : j / 8 = i / 8
  · rw [hd, Function.update_self, UInt8.toNat_or, Nat.testBit_or, bitMask_toNat,
      Nat.testBit_two_pow, Bool.or_eq_true, decide_eq_true_eq]
    constructor
    · rintro (h | h)
      · exact .inr h
      · exact .inl (eq_of_div_mod hd h.symm)
    · rintro (h | h)
      · exact .inr (by rw [h])
      · exact .inl h
  · rw [Function.update_of_ne hd]
    exact ⟨.inr, fun h => h.resolve_left (fun e => hd (by rw [e]))⟩

theorem isBlockFree_markBlockAllocated (bitmap : Nat → UInt8) (i j : Nat) :
    isBlockFree (markBlockAllocated bitmap i) j = true ↔ j ≠ i ∧ isBlockFree bitmap j = true := by
  rw [isBlockFree_iff, isBlockFree_iff, markBlockAllocated]
  by_cases hd : j / 8 = i / 8
  · have hlt : 2 ^ (i % 8) < 2 ^ 8 := Nat.pow_lt_pow_right (by norm_num) (Nat.mod_lt _ (by norm_num))
    have hnot : (~~~(bitMask i)).toNat = 2 ^ 8 - (2 ^ (i % 8) + 1) := by
      rw [UInt8.toNat_not, bitMask_toNat]
      simp only [UInt8.size]
      omega
    rw [hd, Function.update_self, UInt8.toNat_and, hnot, Nat.testBit_and,
      Nat.testBit_two_pow_sub_succ hlt, Nat.testBit_two_pow, Bool.and_eq_true, Bool.and_eq_true,
      Bool.not_eq_true', decide_eq_false_iff_not, decide_eq_true_eq]
    have hm : j % 8 < 8 := Nat.mod_lt _ (by norm_num)
    constructor
    · rintro ⟨h, -, hne⟩
      exact ⟨fun e => hne (by rw [e]), h⟩
    · rintro ⟨hne, h⟩
      exact ⟨h, hm, fun e => hne (eq_of_div_mod hd e.symm)⟩
  · rw [Function.update_of_ne hd]
    exact ⟨fun h => ⟨fun e => hd (by rw [e]), h⟩, fun h => h.2⟩

/-! ### Frame addresses -/

def physmemIsFrameAddress (physAddr : Nat) : Bool :=
  framesAddrStart ≤ physAddr && physAddr < framesAddrEnd && physAddr &&& (frameSize - 1) == 0

def frameIndexFromAddress (physAddr : Nat) : Nat := (physAddr - framesAddrStart) / frameSize

def addressFromFrameIndex (frameIndex : Nat) : Nat := framesAddrStart + frameIndex * frameSize

theorem and_frameSize_sub_one (a : Nat) : a &&& (frameSize - 1) = a % frameSize := by
  rw [show frameSize - 1 = 2 ^ 12 - 1 from rfl, Nat.and_two_pow_sub_one_eq_mod]; rfl

theorem physmemIsFrameAddress_iff (a : Nat) :
    physmemIsFrameAddress a = true ↔
      framesAddrStart ≤ a ∧ a < framesAddrEnd ∧ a % frameSize = 0 := by
  simp [physmemIsFrameAddress, and_frameSize_sub_one, and_assoc]

theorem frameIndex_lt {a : Nat} (h : physmemIsFrameAddress a = true) :
    frameIndexFromAddress a < physFrameCount := by
  rw [physmemIsFrameAddress_iff] at h
  simp only [frameIndexFromAddress, framesAddrStart, framesAddrEnd, frameSize, physFrameCount] at *
  omega

theorem address_frameIndex {a : Nat} (h : physmemIsFrameAddress a = true) :
    addressFromFrameIndex (frameIndexFromAddress a) = a := by
  rw [physmemIsFrameAddress_iff] at h
  simp only [frameIndexFromAddress, addressFromFrameIndex, framesAddrStart, framesAddrEnd,
    frameSize] at *
  omega

theorem frameIndex_address (i : Nat) : frameIndexFromAddress (addressFromFrameIndex i) = i := by
  simp only [frameIndexFromAddress, addressFromFrameIndex, framesAddrStart, frameSize]
  omega

theorem physmemIsFrameAddress_address {i : Nat} (hi : i < physFrameCount) :
    physmemIsFrameAddress (addressFromFrameIndex i) = true := by
  rw [physmemIsFrameAddress_iff]
  simp only [addressFromFrameIndex, framesAddrStart, framesAddrEnd, frameSize, physFrameCount] at *
  omega

/-! ### Allocator state -/

/-- The allocator's memory: `free_page_list`, `free_page_bitmap`, the `next`/`prev` and
`free_order` fields of the nodes in free blocks, and the page stacks of the per-core caches
(top first). -/
structure State where
  freePageList : Nat → Option Nat
  freePageBitmap : Nat → UInt8
  links : Links Nat
  freeOrder : Nat → Nat
  cache : Fin maxCores → List Nat

theorem and_mask_eq_zero_iff (i k : Nat) : i &&& ((1 <<< k) - 1) = 0 ↔ (⟨i, k⟩ : Block).Aligned := by
  rw [Nat.one_shiftLeft, Nat.and_two_pow_sub_one_eq_mod]; rfl

def freeListPush (s : State) (blockIndex order : Nat) : Option State :=
  if order ≤ physFrameMaxOrder ∧ blockIndex < physFrameCount ∧
      blockIndex &&& ((1 <<< order) - 1) = 0 then
    some { s with
      links := s.links.push (s.freePageList order) blockIndex
      freePageList := Function.update s.freePageList order (some blockIndex)
      freePageBitmap := markBlockFree s.freePageBitmap blockIndex
      freeOrder := Function.update s.freeOrder blockIndex order }
  else none

def freeListPop (s : State) (order : Nat) : Option (State × Option Nat) :=
  if order ≤ physFrameMaxOrder then
    match s.freePageList order with
    | none => some (s, none)
    | some node => some ({ s with
        freePageList := Function.update s.freePageList order (s.links.next node)
        links := s.links.pop node
        freePageBitmap := markBlockAllocated s.freePageBitmap node }, some node)
  else none

def freeListRemove (s : State) (node : Nat) : Option State :=
  if s.freeOrder node ≤ physFrameMaxOrder then
    some { s with
      freePageList := Function.update s.freePageList (s.freeOrder node)
        (s.links.unlinkHead (s.freePageList (s.freeOrder node)) node)
      links := s.links.unlink node
      freePageBitmap := markBlockAllocated s.freePageBitmap node }
  else none

/-! ### Abstract free lists -/

/-- The blocks of order `k` starting at the frames of `l`. -/
def blocksAt (l : List Nat) (k : Nat) : List Block := l.map fun i => ⟨i, k⟩

/-- The free blocks recorded in per-order lists `L`. -/
def freeBlocks (L : Nat → List Nat) : List Block :=
  (List.range (physFrameMaxOrder + 1)).flatMap fun k => blocksAt (L k) k

theorem mem_blocksAt {l : List Nat} {k : Nat} {b : Block} :
    b ∈ blocksAt l k ↔ b.order = k ∧ b.start ∈ l := by
  obtain ⟨i, j⟩ := b
  simp only [blocksAt, List.mem_map, Block.mk.injEq]
  constructor
  · rintro ⟨x, hx, rfl, rfl⟩
    exact ⟨rfl, hx⟩
  · rintro ⟨rfl, hi⟩
    exact ⟨i, hi, rfl, rfl⟩

@[simp] theorem freeBlocks_nil : freeBlocks (fun _ => []) = [] :=
  List.flatMap_eq_nil_iff.mpr fun _ _ => rfl

theorem mem_freeBlocks {L : Nat → List Nat} {b : Block} :
    b ∈ freeBlocks L ↔ b.order ≤ physFrameMaxOrder ∧ b.start ∈ L b.order := by
  simp only [freeBlocks, List.mem_flatMap, List.mem_range, mem_blocksAt]
  constructor
  · rintro ⟨k, hk, rfl, hi⟩
    exact ⟨Nat.lt_succ_iff.mp hk, hi⟩
  · rintro ⟨hk, hi⟩
    exact ⟨b.order, Nat.lt_succ_iff.mpr hk, rfl, hi⟩

private theorem freeBlocks_eq_update (L : Nat → List Nat) (k : Nat) (l : List Nat) :
    freeBlocks (Function.update L k l) = (List.range (physFrameMaxOrder + 1)).flatMap
      (Function.update (fun j => blocksAt (L j) j) k (blocksAt l k)) := by
  unfold freeBlocks
  congr 1
  funext j
  exact Function.apply_update (fun j l => blocksAt l j) L k l j

private theorem mem_range_order {k : Nat} (hk : k ≤ physFrameMaxOrder) :
    k ∈ List.range (physFrameMaxOrder + 1) :=
  List.mem_range.mpr (Nat.lt_succ_of_le hk)

theorem freeBlocks_push {L : Nat → List Nat} {k : Nat} (hk : k ≤ physFrameMaxOrder) (i : Nat) :
    freeBlocks (Function.update L k (i :: L k)) ~ ⟨i, k⟩ :: freeBlocks L := by
  rw [freeBlocks_eq_update]
  exact Ledger.flatMap_update_cons _ _ List.nodup_range (mem_range_order hk)

theorem freeBlocks_of_perm {L : Nat → List Nat} {k a : Nat} {l : List Nat}
    (hk : k ≤ physFrameMaxOrder) (hl : L k ~ a :: l) :
    freeBlocks L ~ ⟨a, k⟩ :: freeBlocks (Function.update L k l) := by
  rw [freeBlocks_eq_update]
  exact Ledger.flatMap_of_perm_cons List.nodup_range (mem_range_order hk) (hl.map _)

theorem cover_freeBlocks_push {L : Nat → List Nat} {k : Nat} (hk : k ≤ physFrameMaxOrder)
    (i : Nat) :
    cover (freeBlocks (Function.update L k (i :: L k))) ~
      (⟨i, k⟩ : Block).frames ++ cover (freeBlocks L) := by
  simpa using cover_perm (freeBlocks_push hk i)

theorem cover_freeBlocks_of_perm {L : Nat → List Nat} {k a : Nat} {l : List Nat}
    (hk : k ≤ physFrameMaxOrder) (hl : L k ~ a :: l) :
    cover (freeBlocks L) ~
      (⟨a, k⟩ : Block).frames ++ cover (freeBlocks (Function.update L k l)) := by
  simpa using cover_perm (freeBlocks_of_perm hk hl)

private theorem mem_update_cons {L : Nat → List Nat} {k i j x : Nat} :
    x ∈ Function.update L k (i :: L k) j ↔ (j = k ∧ x = i) ∨ x ∈ L j := by
  by_cases hj : j = k
  · subst hj; simp
  · simp [hj]

private theorem mem_of_mem_update {L : Nat → List Nat} {k j x : Nat} {l : List Nat}
    (hl : l ⊆ L k) (hx : x ∈ Function.update L k l j) : x ∈ L j := by
  by_cases hj : j = k
  · subst hj; rw [Function.update_self] at hx; exact hl hx
  · rwa [Function.update_of_ne hj] at hx

/-- The list of order `k` as the allocator sees it, walking `next` from `free_page_list[k]`. -/
def freeListOf (s : State) (k : Nat) : List Nat :=
  if k ≤ physFrameMaxOrder then walk s.links.next physFrameCount (s.freePageList k) else []

/-- The free-list invariant: the pointer lists of `s` are the lists `L k`, and the blocks
they hold are aligned, inside the frame range, tagged with their order, marked in the bitmap
and pairwise disjoint. -/
structure FreeLists (s : State) (L : Nat → List Nat) : Prop where
  doubly : ∀ k ≤ physFrameMaxOrder, Doubly s.links (s.freePageList k) (L k)
  above : ∀ k, physFrameMaxOrder < k → L k = []
  aligned : ∀ k, ∀ i ∈ L k, (⟨i, k⟩ : Block).Aligned
  inside : ∀ k, ∀ i ∈ L k, i + 2 ^ k ≤ physFrameCount
  freeOrder : ∀ k, ∀ i ∈ L k, s.freeOrder i = k
  bitmap : ∀ i, isBlockFree s.freePageBitmap i = true ↔ ∃ k, i ∈ L k
  nodup : (cover (freeBlocks L)).Nodup

namespace FreeLists

variable {s s' : State} {L : Nat → List Nat}

theorem order_le (h : FreeLists s L) {k i : Nat} (hi : i ∈ L k) : k ≤ physFrameMaxOrder := by
  by_contra hk
  rw [h.above k (by omega)] at hi
  exact List.not_mem_nil hi

theorem mem_freeBlocks (h : FreeLists s L) {k i : Nat} (hi : i ∈ L k) :
    (⟨i, k⟩ : Block) ∈ freeBlocks L :=
  Physmem.mem_freeBlocks.mpr ⟨h.order_le hi, hi⟩

theorem tiling (h : FreeLists s L) : Tiling physFrameMaxOrder (freeBlocks L) where
  aligned _ hb := h.aligned _ _ (Physmem.mem_freeBlocks.mp hb).2
  order_le _ hb := (Physmem.mem_freeBlocks.mp hb).1
  nodup := h.nodup

/-- Empty lists and a clear bitmap: the state `physmem_init` starts from. -/
theorem empty (hl : ∀ k, s.freePageList k = none) (hb : ∀ i, s.freePageBitmap i = 0) :
    FreeLists s fun _ => [] where
  doubly k _ := ⟨List.nodup_nil, hl k, fun _ h => absurd h List.not_mem_nil,
    fun _ h => absurd h List.not_mem_nil⟩
  above _ _ := rfl
  aligned _ _ h := absurd h List.not_mem_nil
  inside _ _ h := absurd h List.not_mem_nil
  freeOrder _ _ h := absurd h List.not_mem_nil
  bitmap i := by simp [isBlockFree, hb]
  nodup := by rw [freeBlocks_nil]; exact List.nodup_nil

/-- The abstract lists are the lists the allocator walks from `free_page_list`. -/
theorem freeListOf_eq (h : FreeLists s L) : freeListOf s = L := by
  funext k
  unfold freeListOf
  split_ifs with hk
  · have hd := h.doubly k hk
    refine hd.walk_eq_of_le ?_
    -- a list without repeats of frames below `PHYS_FRAME_COUNT` is not longer than that
    have hsub : L k ⊆ List.range physFrameCount := fun i hi => by
      have := h.inside k i hi
      have := Nat.two_pow_pos k
      exact List.mem_range.mpr (by omega)
    simpa using (hd.nodup.subperm hsub).length_le
  · exact (h.above k (by omega)).symm

/-- A frame heads a free block of at most one order. -/
theorem order_unique (h : FreeLists s L) {i k k' : Nat} (hk : i ∈ L k) (hk' : i ∈ L k') :
    k = k' := by
  by_contra hne
  have hb : (⟨i, k⟩ : Block) ≠ ⟨i, k'⟩ := fun e => hne (congrArg Block.order e)
  exact h.tiling.disjoint (h.mem_freeBlocks hk) (h.mem_freeBlocks hk') hb
    (start_mem_frames _) (start_mem_frames _)

theorem not_mem_of_fresh (h : FreeLists s L) {b : Block}
    (hfresh : ∀ x ∈ b.frames, x ∉ cover (freeBlocks L)) (j : Nat) : b.start ∉ L j := fun hj =>
  hfresh _ (start_mem_frames b) (mem_cover.mpr ⟨_, h.mem_freeBlocks hj, start_mem_frames _⟩)

/-- Taking `a` off the list of order `k` clears exactly its bit. -/
theorem mem_update_of_remove (h : FreeLists s L) {k a x : Nat} {l : List Nat} (hsub : l ⊆ L k)
    (ha : a ∈ L k) (hl : ∀ y ∈ L k, y ≠ a → y ∈ l) (hna : a ∉ l) :
    (x ≠ a ∧ ∃ j, x ∈ L j) ↔ ∃ j, x ∈ Function.update L k l j := by
  constructor
  · rintro ⟨hne, j, hj⟩
    by_cases hjk : j = k
    · subst hjk
      exact ⟨j, by rw [Function.update_self]; exact hl x hj hne⟩
    · exact ⟨j, by rwa [Function.update_of_ne hjk]⟩
  · rintro ⟨j, hj⟩
    refine ⟨?_, j, mem_of_mem_update hsub hj⟩
    rintro rfl
    by_cases hjk : j = k
    · subst hjk
      rw [Function.update_self] at hj
      exact hna hj
    · rw [Function.update_of_ne hjk] at hj
      exact hjk (h.order_unique hj ha)

/-- `free_list_push` adds a fresh aligned block to the list of its order. -/
theorem push (h : FreeLists s L) {i k : Nat} (hin : i + 2 ^ k ≤ physFrameCount)
    (hfresh : ∀ x ∈ (⟨i, k⟩ : Block).frames, x ∉ cover (freeBlocks L))
    (hs : freeListPush s i k = some s') :
    FreeLists s' (Function.update L k (i :: L k)) := by
  unfold freeListPush at hs
  split_ifs at hs with hg
  obtain ⟨hk, -, hal⟩ := hg
  cases hs
  have hnot : ∀ j, i ∉ L j := h.not_mem_of_fresh hfresh
  constructor
  · intro j hj
    by_cases hjk : j = k
    · subst hjk
      simp only [Function.update_self]
      exact (h.doubly j hj).push (hnot j)
    · simp only [Function.update_of_ne hjk]
      refine (h.doubly j hj).congr fun x hx => Links.push_frame (fun e => hnot j (e ▸ hx)) ?_
      -- the old head of order `k` lies on another list than `x`
      rw [(h.doubly k hk).head]
      exact fun e => hjk (h.order_unique hx (List.mem_of_mem_head? e))
  · intro j hj
    rw [Function.update_of_ne (by omega)]
    exact h.above j hj
  · intro j x hx
    rcases mem_update_cons.mp hx with ⟨rfl, rfl⟩ | hx
    · exact (and_mask_eq_zero_iff _ _).mp hal
    · exact h.aligned j x hx
  · intro j x hx
    rcases mem_update_cons.mp hx with ⟨rfl, rfl⟩ | hx
    · exact hin
    · exact h.inside j x hx
  · intro j x hx
    rcases mem_update_cons.mp hx with ⟨rfl, rfl⟩ | hx
    · exact Function.update_self ..
    · show Function.update s.freeOrder i k x = j
      rw [Function.update_of_ne (fun (e : x = i) => hnot j (e ▸ hx))]
      exact h.freeOrder j x hx
  · intro x
    simp only [isBlockFree_markBlockFree, h.bitmap, mem_update_cons]
    constructor
    · rintro (rfl | ⟨j, hj⟩)
      · exact ⟨k, .inl ⟨rfl, rfl⟩⟩
      · exact ⟨j, .inr hj⟩
    · rintro ⟨j, ⟨-, rfl⟩ | hj⟩
      · exact .inl rfl
      · exact .inr ⟨j, hj⟩
  · refine (cover_freeBlocks_push hk i).nodup_iff.mpr (List.nodup_append.mpr ⟨Block.frames_nodup _, h.nodup, ?_⟩)
    exact fun x hx y hy hxy => hfresh x hx (hxy ▸ hy)

/-- `free_list_pop` takes the head block off the list of its order. -/
theorem pop (h : FreeLists s L) {k a : Nat} (hs : freeListPop s k = some (s', some a)) :
    ∃ t, L k = a :: t ∧ k ≤ physFrameMaxOrder ∧ FreeLists s' (Function.update L k t) := by
  unfold freeListPop at hs
  split_ifs at hs with hk
  split at hs
  · simp at hs
  next node hnode =>
    simp only [Option.some.injEq, Prod.mk.injEq] at hs
    obtain ⟨rfl, rfl⟩ := hs
    have hd := h.doubly k hk
    obtain ⟨t, hL⟩ : ∃ t, L k = node :: t := by
      rw [hd.head] at hnode
      cases hLk : L k with
      | nil => simp [hLk] at hnode
      | cons b t => exact ⟨t, by simp_all⟩
    rw [hL, hnode] at hd
    have hnext : s.links.next node = t.head? := by rw [hd.next node (by simp), after_cons_self]
    have hsub : t ⊆ L k := hL ▸ List.subset_cons_self _ _
    refine ⟨t, hL, hk, ⟨?_, ?_, ?_, ?_, ?_, ?_, ?_⟩⟩
    · intro j hj
      by_cases hjk : j = k
      · subst hjk
        simp only [Function.update_self]
        exact hd.pop
      · simp only [Function.update_of_ne hjk]
        have hnk : node ∈ L k := by simp [hL]
        refine (h.doubly j hj).congr fun x hx =>
          Links.pop_frame (fun e => hjk (h.order_unique hx (e ▸ hnk))) ?_
        rw [hnext]
        exact fun e => hjk (h.order_unique hx (hsub (List.mem_of_mem_head? e)))
    · intro j hj
      rw [Function.update_of_ne (by omega)]
      exact h.above j hj
    · exact fun j x hx => h.aligned j x (mem_of_mem_update hsub hx)
    · exact fun j x hx => h.inside j x (mem_of_mem_update hsub hx)
    · exact fun j x hx => h.freeOrder j x (mem_of_mem_update hsub hx)
    · intro x
      rw [isBlockFree_markBlockAllocated, h.bitmap]
      refine h.mem_update_of_remove hsub (by simp [hL]) (fun y hy hne => ?_) (List.nodup_cons.mp hd.nodup).1
      simpa [hL, hne] using hy
    · exact ((cover_freeBlocks_of_perm hk (List.Perm.of_eq hL)).nodup_iff.mp h.nodup).of_append_right

/-- `free_list_remove` unlinks a block from the list of its recorded order. -/
theorem remove (h : FreeLists s L) {k a : Nat} (ha : a ∈ L k)
    (hs : freeListRemove s a = some s') : FreeLists s' (Function.update L k ((L k).erase a)) := by
  have hk := h.order_le ha
  unfold freeListRemove at hs
  rw [h.freeOrder k a ha, if_pos hk] at hs
  cases hs
  have hd := h.doubly k hk
  have hsub : (L k).erase a ⊆ L k := List.erase_subset
  refine ⟨?_, ?_, ?_, ?_, ?_, ?_, ?_⟩
  · intro j hj
    by_cases hjk : j = k
    · subst hjk
      simp only [Function.update_self]
      exact hd.unlink ha
    · simp only [Function.update_of_ne hjk]
      -- the neighbours of `a` lie on its own list, not on the list of `x`
      refine (h.doubly j hj).congr fun x hx =>
        Links.unlink_frame (fun e => hjk (h.order_unique hx (e ▸ ha))) ?_ ?_
      · rw [hd.prev a ha]
        exact fun e => hjk (h.order_unique hx (List.mem_reverse.mp (mem_of_after_eq_some e)))
      · rw [hd.next a ha]
        exact fun e => hjk (h.order_unique hx (mem_of_after_eq_some e))
  · intro j hj
    rw [Function.update_of_ne (by omega)]
    exact h.above j hj
  · exact fun j x hx => h.aligned j x (mem_of_mem_update hsub hx)
  · exact fun j x hx => h.inside j x (mem_of_mem_update hsub hx)
  · exact fun j x hx => h.freeOrder j x (mem_of_mem_update hsub hx)
  · intro x
    rw [isBlockFree_markBlockAllocated, h.bitmap]
    exact h.mem_update_of_remove hsub ha (fun y hy hne => (List.mem_erase_of_ne hne).mpr hy)
      (hd.nodup.not_mem_erase)
  · exact ((cover_freeBlocks_of_perm hk (List.perm_cons_erase ha)).nodup_iff.mp h.nodup).of_append_right

end FreeLists

end DioptaseOS.Physmem
