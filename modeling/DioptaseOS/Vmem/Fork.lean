import DioptaseOS.Vmem.Paging
import DioptaseOS.Vmem.Mmap

/-!
# Virtual memory: forking a physical window

`vmem_fork` gives the child of a thread the parent's user pages: a shared page is mapped to
the same page-cache frame, and every other page is copied into a fresh frame from
`physmem_alloc()`. A physical window (a VME with `paddr ≠ 0`, as `mmap_physmem` makes for the
tile framebuffer) falls in the second case. The child's page then maps a private copy instead
of the window, and `unmap_vme`, which leaves the frame behind a window page alone because the
window is borrowed, never gives the copy back: once the child's address space is destroyed, no
table refers to the copy and the allocator never gets it back.

This file runs the calls that show it on a parent with one mapped framebuffer page.

## Main definitions

* `pteAt` — the valid PTE that maps an address through a page directory
* `heldFrames` — the page directory, page tables and mapped frames of an address space
* `windowForkRun` — `mmap_physmem`, a miss, `vmem_fork` and the child's
  `vmem_destroy_address_space`

## Main results

* `fork_window_copy_leaks` — after the fork the child maps the window's page to a fresh
  frame; after the child is destroyed that frame is neither free nor held by the parent
-/

namespace DioptaseOS.Vmem

open Physmem (frameSize maxCores)

/-- The valid PTE that maps `va` through the page directory `pd`, if any. -/
def pteAt (s : State) (pd va : Nat) : Option Nat :=
  let pde := s.entry pd (pageDirIndexOf va)
  if isValid pde then
    let pte := s.entry (pde &&& frameMask) (pageTableIndexOf va)
    if isValid pte then some pte else none
  else none

/-- The frames that the address space of the page directory `pd` refers to: the directory,
the page table of every valid PDE, and the frame of every valid PTE in them. -/
def heldFrames (s : State) (pd : Nat) : List Nat :=
  pd :: (List.range 1024).flatMap fun i =>
    let pde := s.entry pd i
    if isValid pde then
      let pt := pde &&& frameMask
      pt :: (List.range 1024).filterMap fun j =>
        let pte := s.entry pt j
        if isValid pte then some (pte &&& frameMask) else none
    else []

/-! ### What unmapping a window gives back -/

/-- The calls `physmem_free(f)` on core `c` that lead from the allocator state `p` to `q` are
all of frames `f` with `P f`. -/
inductive Frees (c : Fin maxCores) (P : Nat → Prop) (p : Physmem.State) :
    Physmem.State → Prop
  | refl : Frees c P p p
  | free {q q' : Physmem.State} {f : Nat} :
      Frees c P p q → P f → Physmem.physmemFree q c f = some q' → Frees c P p q'

/-- A page table that the page directory `pd` enters with a valid PDE. -/
def IsTableOf (s : State) (pd f : Nat) : Prop :=
  ∃ i, isValid (s.entry pd i) = true ∧ s.entry pd i &&& frameMask = f

/-- Every word of `s` is the word of `s₀` or zero. -/
def Cleared (s₀ s : State) : Prop := ∀ a, s.mem a = s₀.mem a ∨ s.mem a = 0

theorem Cleared.setEntry_zero {s₀ s : State} (h : Cleared s₀ s) (p i : Nat) :
    Cleared s₀ (s.setEntry p i 0) := fun a => by
  by_cases ha : a = p + 4 * i
  · subst ha
    exact .inr (Function.update_self ..)
  · simp only [State.setEntry, Function.update_of_ne ha]
    exact h a

/-- A valid entry of a cleared state is the entry it was. -/
theorem Cleared.entry_of_valid {s₀ s : State} (h : Cleared s₀ s) {p i : Nat}
    (hv : isValid (s.entry p i) = true) : s.entry p i = s₀.entry p i := by
  rcases h (p + 4 * i) with h | h
  · exact h
  · rw [State.entry, h] at hv
    exact absurd hv (by decide)

theorem physmemFree_eq_some {s s' : State} {c : Fin maxCores} {f : Nat}
    (h : physmemFree s c f = some s') :
    ∃ phys, Physmem.physmemFree s.phys c f = some phys ∧ s' = { s with phys } := by
  obtain ⟨phys, hphys, rfl⟩ := Option.map_eq_some_iff.mp h
  exact ⟨phys, hphys, rfl⟩

section Window

variable {c : Fin maxCores} {s₀ : State} {pd : Nat} {vme : Vme}

/-- What the loop of `unmap_vme` keeps while it unmaps a window: it has only cleared words,
given back only page tables of the directory, and its last page table is one of them. -/
structure UnmapInv (c : Fin maxCores) (s₀ : State) (pd : Nat) (s : State)
    (prevPt : Option Nat) : Prop where
  cleared : Cleared s₀ s
  frees : Frees c (IsTableOf s₀ pd) s₀.phys s.phys
  prev : ∀ pt, prevPt = some pt → IsTableOf s₀ pd pt

theorem UnmapInv.setEntry_zero {s : State} {prevPt : Option Nat}
    (h : UnmapInv c s₀ pd s prevPt) (p i : Nat) : UnmapInv c s₀ pd (s.setEntry p i 0) prevPt :=
  ⟨h.cleared.setEntry_zero p i, h.frees, h.prev⟩

theorem UnmapInv.freeTableIfEmpty {s s' : State} {idx : Nat} {prevPt : Option Nat}
    (h : UnmapInv c s₀ pd s prevPt) (hs : freeTableIfEmpty s c pd idx prevPt = some s') :
    Cleared s₀ s' ∧ Frees c (IsTableOf s₀ pd) s₀.phys s'.phys := by
  cases prevPt with
  | none =>
    cases hs
    exact ⟨h.cleared, h.frees⟩
  | some pt =>
    simp only [Vmem.freeTableIfEmpty] at hs
    split_ifs at hs
    · obtain ⟨s₁, hfree, rfl⟩ := Option.map_eq_some_iff.mp hs
      obtain ⟨phys, hphys, rfl⟩ := physmemFree_eq_some hfree
      -- the table freed is the last one the loop left
      exact ⟨(h.cleared : Cleared s₀ { s with phys }).setEntry_zero pd idx,
        h.frees.free (h.prev pt rfl) hphys⟩
    · cases hs
      exact ⟨h.cleared, h.frees⟩

/-- `unmap_vme` keeps the frame behind a PTE of a physical window. -/
theorem releasePage_window (hsh : hasFlag vme.flags mmapShared = false) (hpa : vme.paddr ≠ 0)
    (s : State) (va pte : Nat) : releasePage s c vme va pte = some s := by
  simp [releasePage, hsh, hpa]

/-- One iteration of the loop of `unmap_vme` over a window keeps `UnmapInv`. -/
theorem UnmapInv.unmapPage (hsh : hasFlag vme.flags mmapShared = false) (hpa : vme.paddr ≠ 0)
    {s s' : State} {va prevIdx idx' : Nat} {prevPt prevPt' : Option Nat}
    (h : UnmapInv c s₀ pd s prevPt)
    (hs : unmapPage s c pd vme va prevIdx prevPt = some (s', idx', prevPt')) :
    UnmapInv c s₀ pd s' prevPt' := by
  unfold Vmem.unmapPage at hs
  dsimp only at hs
  rw [releasePage_window hsh hpa] at hs
  split_ifs at hs with hpde hpte hidx
  · cases hs
    exact h
  · cases hs
    exact h
  all_goals
    -- the table of this page is entered by a PDE that the loop has not cleared
    have htable : IsTableOf s₀ pd (s.entry pd (pageDirIndexOf va) &&& frameMask) := by
      have hv : isValid (s.entry pd (pageDirIndexOf va)) = true := by simpa using hpde
      exact ⟨_, h.cleared.entry_of_valid hv ▸ hv, by rw [h.cleared.entry_of_valid hv]⟩
    have h₁ := h.setEntry_zero (s.entry pd (pageDirIndexOf va) &&& frameMask)
      (pageTableIndexOf va)
    simp only [Option.bind_some, Option.map_eq_some_iff, Prod.mk.injEq] at hs
    obtain ⟨s₂, hs₂, rfl, -, rfl⟩ := hs
  · obtain ⟨hc, hf⟩ := h₁.freeTableIfEmpty hs₂
    exact ⟨hc, hf, fun pt hpt => Option.some_inj.mp hpt ▸ htable⟩
  · cases hs₂
    exact ⟨h₁.cleared, h₁.frees, fun pt hpt => Option.some_inj.mp hpt ▸ htable⟩

theorem UnmapInv.unmapLoop (hsh : hasFlag vme.flags mmapShared = false) (hpa : vme.paddr ≠ 0) :
    ∀ {n va prevIdx : Nat} {prevPt : Option Nat} {s : State} {r : State × Nat × Option Nat},
      UnmapInv c s₀ pd s prevPt → Vmem.unmapLoop c pd vme n va prevIdx prevPt s = some r →
      UnmapInv c s₀ pd r.1 r.2.2
  | 0, _, _, _, _, _, h, hs => by
    cases hs
    exact h
  | n + 1, va, prevIdx, prevPt, s, r, h, hs => by
    obtain ⟨⟨s₁, idx₁, pt₁⟩, h₁, hs⟩ := Option.bind_eq_some_iff.mp hs
    exact UnmapInv.unmapLoop hsh hpa (h.unmapPage hsh hpa h₁) hs

/-- Unmapping a physical window gives `physmem_free` only page tables of the directory, never
a frame that one of its PTEs maps. -/
theorem unmapVme_window_frees_tables (hsh : hasFlag vme.flags mmapShared = false)
    (hpa : vme.paddr ≠ 0) {s' : State} (hs : unmapVme s₀ c pd vme = some s') :
    Frees c (IsTableOf s₀ pd) s₀.phys s'.phys := by
  obtain ⟨⟨s₁, idx, pt⟩, hloop, hlast⟩ := Option.bind_eq_some_iff.mp hs
  have h₀ : UnmapInv c s₀ pd s₀ none := ⟨fun _ => .inl rfl, .refl, fun _ h => by cases h⟩
  exact ((UnmapInv.unmapLoop hsh hpa h₀ hloop).freeTableIfEmpty hlast).2

end Window

/-! ### The run -/

/-- The core that makes the calls. -/
def core0 : Fin maxCores := ⟨0, by decide⟩

/-- `TILE_FB`, the tile framebuffer of `vga.c`, just above the frame range. -/
def tileFb : Nat := 0x7FBD000

/-- `TILE_FB_SIZE`. -/
def tileFbSize : Nat := 9600

/-- A parent thread `1` with an empty page directory at the first frame and no VME, and a
core `0` whose frame cache holds the next four frames; every other frame is in use. -/
def windowForkStart : State where
  tcbs t := if t = 1 then ⟨0x100000, []⟩ else ⟨0, []⟩
  mem _ := 0
  hashMap _ := []
  fileSize _ := 0
  writeBacks := []
  phys := ⟨fun _ => none, fun _ => 0, ⟨fun _ => none, fun _ => none⟩, fun _ => 0,
    fun c => if c = core0 then [0x101000, 0x102000, 0x103000, 0x104000] else []⟩

/-- On core `0`: thread `1` calls `mmap_physmem(TILE_FB_SIZE, TILE_FB, MMAP_READ |
MMAP_WRITE | MMAP_USER)`, as the `TRAP_GET_TILE_FB` system call does, and touches the first
page of the window; it forks into thread `2`, and thread `2` exits, destroying its address
space. The states after the fork and after the destruction. -/
def windowForkRun : Option (State × State) :=
  let s := windowForkStart
  (mmapPhysmem (s.tcbs 1).vmeList tileFbSize tileFb (mmapRead ||| mmapWrite ||| mmapUser)).bind
    fun (l, start) =>
      (tlbMissHandler (s.setVmeList 1 l) core0 1 (start >>> 12) 0 true false).bind fun (s, _) =>
        (vmemFork s core0 1 2).bind fun s₁ =>
          (vmemDestroyAddressSpace s₁ core0 2).map fun s₂ => (s₁, s₂)

set_option maxRecDepth 20000 in
/-- After the fork the parent maps the first page of the window to `TILE_FB`, but the child
maps it to the fresh frame `0x104000`; after the child's address space is destroyed, that
frame is in no frame cache and no free list, and the parent does not refer to it. -/
theorem fork_window_copy_leaks :
    ∃ s₁ s₂, windowForkRun = some (s₁, s₂) ∧
      (pteAt s₁ (s₁.tcbs 1).pid userVmemStart).map (· &&& frameMask) = some tileFb ∧
      (pteAt s₁ (s₁.tcbs 2).pid userVmemStart).map (· &&& frameMask) = some 0x104000 ∧
      (∀ c, 0x104000 ∉ s₂.phys.cache c) ∧
      (∀ k < 15, s₂.phys.freePageList k = none) ∧
      0x104000 ∉ heldFrames s₂ (s₂.tcbs 1).pid :=
  ⟨_, _, rfl, by decide, by decide, by decide, by decide, by decide⟩

end DioptaseOS.Vmem
