import DioptaseOS.Physmem.System

/-!
# The frame allocator: allocation by order

`physmem_alloc_order(order)` looks for the first free list from `order` up that is not empty,
pops its head block and halves it down to `order`, pushing each upper half on the list of its
order. This file says when it panics and what it hands out, on every state the allocator
reaches: the search fails exactly when every list from `order` up is empty, and otherwise the
split always completes, so the call panics only for lack of memory.

## Main results

* `findOrder_eq_none_iff` — the search fails exactly when every list from `order` up is empty
* `splitBlock_step`, `splitBlock_isSome`, `splitBlock_freeBlocks` — one halving, the whole
  split loop completes, and it only adds free blocks
* `physmemAllocOrder_inv`, `physmemAllocOrder_eq_none_iff` — what a call did, and when it
  panics
* `physmem_alloc_order_contract` — the contract of `physmem_alloc_order` on every reachable
  state
-/

namespace DioptaseOS.Physmem

open PtrList BuddyBlock
open scoped List

/-! ### The search loop -/

/-- The search loop fails exactly when every list from `current` up is empty. -/
theorem findOrder_eq_none_iff {s : State} {current : Nat} (hc : current ≤ physFrameMaxOrder) :
    findOrder s current = none ↔
      ∀ j, current ≤ j → j ≤ physFrameMaxOrder → s.freePageList j = none := by
  unfold findOrder
  split_ifs with hnone hmax
  · -- the largest order is empty too: nothing is left to search
    simp only [true_iff]
    intro j hj hj'
    obtain rfl : j = current := by omega
    exact hnone
  · rw [findOrder_eq_none_iff (by omega)]
    constructor
    · intro h j hj hj'
      rcases Nat.eq_or_lt_of_le hj with rfl | hlt
      · exact hnone
      · exact h j hlt hj'
    · exact fun h j hj hj' => h j (by omega) hj'
  · simp only [false_iff]
    exact fun h => hnone (h current le_rfl hc)
termination_by physFrameMaxOrder - current

/-- The search stops at a list that is not empty, at an order no larger than the largest. -/
theorem findOrder_some {s : State} {current found : Nat} (hc : current ≤ physFrameMaxOrder)
    (h : findOrder s current = some found) :
    found ≤ physFrameMaxOrder ∧ s.freePageList found ≠ none := by
  unfold findOrder at h
  split_ifs at h with hnone hmax
  · exact findOrder_some (by omega) h
  · cases h
    exact ⟨hc, hnone⟩
termination_by physFrameMaxOrder - current

/-! ### The split loop -/

variable {s s' : State} {L : Nat → List Nat}

/-- One halving of a free-standing block of order `current + 1`: the push of its upper half
succeeds and adds it to the lists, and the lower half is still apart from every free block. -/
theorem splitBlock_step (h : FreeLists s L) {node current : Nat}
    (hal : (⟨node, current + 1⟩ : Block).Aligned) (hin : node + 2 ^ (current + 1) ≤ physFrameCount)
    (hnd : (freeFrames L + ((⟨node, current + 1⟩ : Block).frames : Multiset Nat)).Nodup) :
    ∃ s₁, freeListPush s (node + 2 ^ current) current = some s₁ ∧
      FreeLists s₁ (Function.update L current ((node + 2 ^ current) :: L current)) ∧
      (freeFrames (Function.update L current ((node + 2 ^ current) :: L current)) +
        ((⟨node, current⟩ : Block).frames : Multiset Nat)).Nodup := by
  have hpow : 2 ^ (current + 1) = 2 ^ current + 2 ^ current := by rw [pow_succ]; omega
  -- a block of order `current + 1` fits in the frame range, so `current` is a valid order
  have hk : current ≤ physFrameMaxOrder := by
    by_contra hlt
    have h15 : 2 ^ 15 ≤ 2 ^ (current + 1) := Nat.pow_le_pow_right (by decide) (by
      simp only [physFrameMaxOrder] at hlt; omega)
    have hcount : physFrameCount < 2 ^ 15 := by decide
    omega
  have hup : (⟨node + 2 ^ current, current⟩ : Block).Aligned := by
    have := hal.of_succ
    simp only [Block.Aligned] at this ⊢
    rw [Nat.add_mod_right]
    exact this
  have hhalves : ((⟨node, current + 1⟩ : Block).frames : Multiset Nat) =
      (⟨node, current⟩ : Block).frames + (⟨node + 2 ^ current, current⟩ : Block).frames := by
    rw [Block.frames_succ, ← Multiset.coe_add]
  have hnd_up : (freeFrames L +
      ((⟨node + 2 ^ current, current⟩ : Block).frames : Multiset Nat)).Nodup :=
    Multiset.nodup_of_le (by rw [hhalves, add_left_comm]; exact le_add_self) hnd
  have hpos := Nat.two_pow_pos current
  have hpush : freeListPush s (node + 2 ^ current) current =
      some { s with
        links := s.links.push (s.freePageList current) (node + 2 ^ current)
        freePageList := Function.update s.freePageList current (some (node + 2 ^ current))
        freePageBitmap := markBlockFree s.freePageBitmap (node + 2 ^ current)
        freeOrder := Function.update s.freeOrder (node + 2 ^ current) current } := by
    rw [freeListPush, if_pos ⟨hk, by omega, (and_mask_eq_zero_iff _ _).mpr hup⟩]
  refine ⟨_, hpush, h.push (by omega) (fresh_of_nodup hnd_up) hpush, ?_⟩
  rw [freeFrames_push hk]
  convert hnd using 1
  rw [hhalves]
  abel

/-- The split loop always completes on a free-standing block. -/
theorem splitBlock_isSome {node order : Nat} :
    ∀ {current : Nat} {s : State} {L : Nat → List Nat}, FreeLists s L → order ≤ current →
      (⟨node, current⟩ : Block).Aligned → node + 2 ^ current ≤ physFrameCount →
      (freeFrames L + ((⟨node, current⟩ : Block).frames : Multiset Nat)).Nodup →
      (splitBlock node order s current).isSome
  | 0, _, _, _, _, _, _, _ => rfl
  | current + 1, s, L, h, hle, hal, hin, hnd => by
    rw [splitBlock]
    split_ifs with hlt
    · obtain ⟨s₁, hs₁, h₁, hnd₁⟩ := splitBlock_step h hal hin hnd
      rw [Nat.one_shiftLeft, hs₁, Option.bind_some]
      exact splitBlock_isSome h₁ (by omega) hal.of_succ (by rw [pow_succ] at hin; omega) hnd₁
    · rfl

/-- The split loop only adds free blocks: every block free before is free after. -/
theorem splitBlock_freeBlocks {node order : Nat} :
    ∀ {current : Nat} {s s' : State} {L : Nat → List Nat}, FreeLists s L →
      (⟨node, current⟩ : Block).Aligned → node + 2 ^ current ≤ physFrameCount →
      (freeFrames L + ((⟨node, current⟩ : Block).frames : Multiset Nat)).Nodup →
      splitBlock node order s current = some s' → freeBlocks L ⊆ freeBlocks (freeListOf s')
  | 0, s, s', L, h, _, _, _, hs => by
    cases hs
    rw [h.freeListOf_eq]
    exact List.Subset.refl _
  | current + 1, s, s', L, h, hal, hin, hnd, hs => by
    rw [splitBlock] at hs
    split_ifs at hs with hlt
    · obtain ⟨s₁, hs₁, h₁, hnd₁⟩ := splitBlock_step h hal hin hnd
      rw [Nat.one_shiftLeft, hs₁, Option.bind_some] at hs
      have hk := le_of_freeListPush hs₁
      -- the pushed upper half comes on top of the blocks that were free
      refine fun b hb => splitBlock_freeBlocks h₁ hal.of_succ (by rw [pow_succ] at hin; omega)
        hnd₁ hs ((freeBlocks_push hk _).symm.subset (List.mem_cons_of_mem _ hb))
    · cases hs
      rw [h.freeListOf_eq]
      exact List.Subset.refl _

/-! ### The whole call -/

/-- What a call of `physmem_alloc_order` did: it found the list of order `current` from
`order` up, popped its head block `node`, and split it down to `order`. -/
theorem physmemAllocOrder_inv (h : FreeLists s L) {order page : Nat}
    (hs : physmemAllocOrder s order = some (s', page)) :
    ∃ current node t s₁, order ≤ current ∧ current ≤ physFrameMaxOrder ∧
      L current = node :: t ∧ FreeLists s₁ (Function.update L current t) ∧
      splitBlock node order s₁ current = some s' ∧ page = addressFromFrameIndex node := by
  unfold physmemAllocOrder at hs
  split_ifs at hs with hk
  simp only [Option.bind_eq_bind, Option.bind_eq_some_iff] at hs
  obtain ⟨current, hfind, ⟨s₁, node?⟩, hpop, node, hnode, s₂, hsplit, hfin⟩ := hs
  simp only at hnode hsplit
  subst hnode
  split_ifs at hfin with hv
  cases hfin
  obtain ⟨t, hL, hcur, h₁⟩ := h.pop hpop
  exact ⟨current, node, t, s₁, findOrder_ge hfind, hcur, hL, h₁, hsplit, rfl⟩

/-- `physmem_alloc_order` panics exactly when every free list from `order` up is empty. -/
theorem physmemAllocOrder_eq_none_iff (h : FreeLists s L) {order : Nat}
    (hk : order ≤ physFrameMaxOrder) :
    physmemAllocOrder s order = none ↔ ∀ j, order ≤ j → j ≤ physFrameMaxOrder → L j = [] := by
  -- a list is empty exactly when its head pointer is `NULL`
  have hempty : ∀ j ≤ physFrameMaxOrder, s.freePageList j = none ↔ L j = [] := fun j hj => by
    rw [(h.doubly j hj).head, List.head?_eq_none_iff]
  constructor
  · intro hnone
    by_contra hne
    push Not at hne
    obtain ⟨j, hj, hj', hLj⟩ := hne
    obtain ⟨current, hfind⟩ := Option.ne_none_iff_exists'.mp fun hfind =>
      hLj ((hempty j hj').mp (((findOrder_eq_none_iff hk).mp hfind) j hj hj'))
    obtain ⟨hcur, hne⟩ := findOrder_some hk hfind
    obtain ⟨node, hnode⟩ := Option.ne_none_iff_exists'.mp hne
    -- the popped block is free-standing once off its list, so the split completes
    obtain ⟨s₁, hpop⟩ : ∃ s₁, freeListPop s current = some (s₁, some node) := by
      simp only [freeListPop, if_pos hcur, hnode]
      exact ⟨_, rfl⟩
    obtain ⟨t, hL, -, h₁⟩ := h.pop hpop
    have hmem : node ∈ L current := by simp [hL]
    have hF := freeFrames_of_perm hcur (List.Perm.of_eq hL)
    obtain ⟨s₂, hsplit⟩ := Option.isSome_iff_exists.mp (@splitBlock_isSome node order _ _ _ h₁
      (findOrder_ge hfind) (h.aligned current node hmem) (h.inside current node hmem)
      (by rw [add_comm, ← hF]; exact h.nodup_freeFrames))
    have hframe : physmemIsFrameAddress (addressFromFrameIndex node) = true :=
      physmemIsFrameAddress_address (by have := h.inside current node hmem; have := Nat.two_pow_pos current; omega)
    rw [physmemAllocOrder, if_pos hk] at hnone
    simp [hfind, hpop, hsplit, hframe] at hnone
  · intro hall
    have hfind : findOrder s order = none :=
      (findOrder_eq_none_iff hk).mpr fun j hj hj' => (hempty j hj').mpr (hall j hj hj')
    rw [physmemAllocOrder, if_pos hk]
    simp [hfind]

/-- With a free block of order `j` at least `order`, `physmem_alloc_order(order)` hands out a
page. -/
theorem physmemAllocOrder_isSome (h : FreeLists s L) {order j : Nat} (hj : order ≤ j)
    (hjm : j ≤ physFrameMaxOrder) (hL : L j ≠ []) : (physmemAllocOrder s order).isSome := by
  rw [Option.isSome_iff_ne_none, Ne, physmemAllocOrder_eq_none_iff h (hj.trans hjm)]
  exact fun hall => hL (hall j hj hjm)

/-- A free frame lies in a block on one of the lists. -/
theorem exists_ne_nil_of_card_pos (h : 0 < Multiset.card (freeFrames L)) :
    ∃ j ≤ physFrameMaxOrder, L j ≠ [] := by
  obtain ⟨x, hx⟩ := Multiset.card_pos_iff_exists_mem.mp h
  obtain ⟨b, hb, -⟩ := mem_cover.mp (Multiset.mem_coe.mp hx)
  obtain ⟨hord, hstart⟩ := mem_freeBlocks.mp hb
  exact ⟨b.order, hord, List.ne_nil_of_mem hstart⟩

/-- The refill loop of `physmem_alloc` completes while the lists hold as many free frames as it
takes. -/
theorem refillCache_isSome (c : Fin maxCores) :
    ∀ (n : Nat) {s : State} {L : Nat → List Nat}, FreeLists s L →
      n ≤ Multiset.card (freeFrames L) → (refillCache c n s).isSome
  | 0, _, _, _, _ => rfl
  | n + 1, s, L, h, hn => by
    obtain ⟨j, hjm, hj⟩ := exists_ne_nil_of_card_pos (L := L) (by omega)
    obtain ⟨⟨s₁, page⟩, halloc⟩ :=
      Option.isSome_iff_exists.mp (physmemAllocOrder_isSome h (Nat.zero_le j) hjm hj)
    -- the page taken is one frame
    obtain ⟨L₁, h₁, -, -, hF₁, -, -⟩ := physmemAllocOrder_spec h halloc
    have hcard : n ≤ Multiset.card (freeFrames L₁) := by
      rw [hF₁, Multiset.card_add, Block.frames_zero] at hn
      simpa using hn
    simp only [refillCache, Option.bind_eq_bind, halloc, Option.bind_some]
    exact refillCache_isSome c n (h₁.setCache _) hcard

/-- The block handed out lies inside the block popped, and every other free block is still
free after the call. -/
theorem physmemAllocOrder_taken (h : FreeLists s L) {order page : Nat}
    (hs : physmemAllocOrder s order = some (s', page)) :
    ∃ b ∈ freeBlocks L, (⟨frameIndexFromAddress page, order⟩ : Block).frames ⊆ b.frames ∧
      ∀ b' ∈ freeBlocks L, b' ≠ b → b' ∈ freeBlocks (freeListOf s') := by
  obtain ⟨current, node, t, s₁, hle, hcur, hL, h₁, hsplit, rfl⟩ := physmemAllocOrder_inv h hs
  have hmem : node ∈ L current := by simp [hL]
  have hF := freeFrames_of_perm hcur (List.Perm.of_eq hL)
  refine ⟨⟨node, current⟩, h.mem_freeBlocks hmem, fun x hx => ?_, fun b' hb' hne => ?_⟩
  · -- the lower `2 ^ order` frames of the popped block
    have hpow := Nat.pow_le_pow_right (show 0 < 2 by decide) hle
    rw [frameIndex_address, Block.mem_frames] at hx
    rw [Block.mem_frames]
    dsimp only at hx ⊢
    omega
  · -- off its list the popped block leaves every other block where it was
    have hb₁ : b' ∈ freeBlocks (Function.update L current t) := by
      rcases List.mem_cons.mp ((freeBlocks_of_perm hcur (List.Perm.of_eq hL)).subset hb') with
        rfl | hb₁
      · exact absurd rfl hne
      · exact hb₁
    exact splitBlock_freeBlocks h₁ (h.aligned current node hmem) (h.inside current node hmem)
      (by rw [add_comm, ← hF]; exact h.nodup_freeFrames) hsplit hb₁

/-! ### On every reachable state -/

/-- On every state that a run of the allocator reaches, and for every order up to
`PHYS_FRAME_MAX_ORDER`: `physmem_alloc_order(order)` panics exactly when every free list from
`order` up is empty; otherwise it returns the address of a frame whose index is aligned to
`2 ^ order`, whose `2 ^ order` frames lay inside one block of a free list before the call and
on no free list after it, every other free block is still free, and the free lists hold
exactly `2 ^ order` frames fewer. -/
theorem physmem_alloc_order_contract {σ : Sys} (hσ : Reachable PhysStep σ) {order : Nat}
    (hk : order ≤ physFrameMaxOrder) :
    (physmemAllocOrder σ.mem order = none ↔
      ∀ j, order ≤ j → j ≤ physFrameMaxOrder → freeListOf σ.mem j = []) ∧
    ∀ s page, physmemAllocOrder σ.mem order = some (s, page) →
      physmemIsFrameAddress page = true ∧
      (⟨frameIndexFromAddress page, order⟩ : Block).Aligned ∧
      (∃ b ∈ freeBlocks (freeListOf σ.mem),
        (⟨frameIndexFromAddress page, order⟩ : Block).frames ⊆ b.frames ∧
        ∀ b' ∈ freeBlocks (freeListOf σ.mem), b' ≠ b → b' ∈ freeBlocks (freeListOf s)) ∧
      (∀ x ∈ (⟨frameIndexFromAddress page, order⟩ : Block).frames,
        x ∉ cover (freeBlocks (freeListOf s))) ∧
      (cover (freeBlocks (freeListOf s))).length + 2 ^ order =
        (cover (freeBlocks (freeListOf σ.mem))).length := by
  have h := (PhysInv.of_reachable hσ).lists
  refine ⟨physmemAllocOrder_eq_none_iff h hk, fun s page hs => ?_⟩
  obtain ⟨L', h', hframe, hal, hF, -, -⟩ := physmemAllocOrder_spec h hs
  have htaken := physmemAllocOrder_taken h hs
  rw [h'.freeListOf_eq] at htaken ⊢
  -- the frames handed out and the frames still free make up the frames free before
  have hnd : (freeFrames L' +
      ((⟨frameIndexFromAddress page, order⟩ : Block).frames : Multiset Nat)).Nodup :=
    hF ▸ h.nodup_freeFrames
  have hcard := congrArg Multiset.card hF
  simp only [freeFrames, Multiset.card_add, Multiset.coe_card, Block.length_frames] at hcard
  exact ⟨hframe, hal, htaken, fresh_of_nodup hnd, hcard.symm⟩

/-- The allocator right after `physmem_init()` on the boot image. -/
theorem physmem_alloc_order_contract_after_init :
    ∃ σ : Sys, Reachable PhysStep σ ∧ 0 ≤ physFrameMaxOrder ∧
      ((physmemAllocOrder σ.mem 0 = none ↔
        ∀ j, 0 ≤ j → j ≤ physFrameMaxOrder → freeListOf σ.mem j = []) ∧
      ∀ s page, physmemAllocOrder σ.mem 0 = some (s, page) →
        physmemIsFrameAddress page = true ∧
        (⟨frameIndexFromAddress page, 0⟩ : Block).Aligned ∧
        (∃ b ∈ freeBlocks (freeListOf σ.mem),
          (⟨frameIndexFromAddress page, 0⟩ : Block).frames ⊆ b.frames ∧
          ∀ b' ∈ freeBlocks (freeListOf σ.mem), b' ≠ b → b' ∈ freeBlocks (freeListOf s)) ∧
        (∀ x ∈ (⟨frameIndexFromAddress page, 0⟩ : Block).frames,
          x ∉ cover (freeBlocks (freeListOf s))) ∧
        (cover (freeBlocks (freeListOf s))).length + 2 ^ 0 =
          (cover (freeBlocks (freeListOf σ.mem))).length) := by
  obtain ⟨s, hs, -⟩ := physmemInit_spec bootImage fun _ => rfl
  have hr : Reachable PhysStep ⟨s, []⟩ := .init (fun _ => rfl) hs
  exact ⟨_, hr, Nat.zero_le _, physmem_alloc_order_contract hr (Nat.zero_le _)⟩

end DioptaseOS.Physmem
