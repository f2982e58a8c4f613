import DioptaseOS.Vmem.PageCache

/-!
# Virtual memory: mapping and unmapping pages

The paths of `vmem.c` that read and write page tables: the TLB miss handler, which maps a page
of a VME on first touch; `unmap_vme`, which drops the pages of a VME and frees the page tables
it empties; `vmem_fork`, which copies a thread's VMEs and the user pages mapped in its page
tables; `vmem_destroy_address_space` and `munmap`.

Each `for (va = start; va < end; va += FRAME_SIZE)` loop is a recursion over the number of
pages of the VME (its range is page aligned: `vme_create` asserts it), and each loop over the
VME list a recursion over the list. The TLB (`tlb_write`, `tlb_invalidate_range`) is not
modelled.

## Main definitions

* `tlbMissHandler` — a TLB miss, with `faultPage` choosing the frame of the page
* `unmapVme`, `releasePage`, `freeTableIfEmpty` — `unmap_vme`
* `vmemFork`, `forkPage` — `vmem_fork`
* `vmemDestroyAddressSpace`, `munmap`
-/

namespace DioptaseOS.Vmem

open Physmem (frameSize maxCores)

/-! ### Looking up VMEs -/

/-- The loop of `tlb_miss_handler` that finds the VME covering an address. -/
def findVme (addr : Nat) : List Vme → Option Vme
  | [] => none
  | v :: l => if v.start ≤ addr ∧ addr < v.endAddr then some v else findVme addr l

/-- `shared_vme_page_bytes(vme, va)`: the bytes of file data that the cached page at `va`
stands for, the rounded tail of the last page included. -/
def sharedVmePageBytes (vme : Vme) (va : Nat) : Option Nat :=
  if vme.file.isSome ∧ vme.start ≤ va ∧ va < vme.endAddr then
    let vmeOffset := va - vme.start
    some (if vme.size > vmeOffset ∧ vme.size - vmeOffset < frameSize then vme.size - vmeOffset
      else frameSize)
  else none

/-! ### The TLB miss handler -/

/-- The PTE that maps `physPage` for a VME with `flags`. -/
def pteOf (flags physPage : Nat) : Nat :=
  physPage ||| vmemValid ||| (if hasFlag flags mmapRead then vmemRead else 0) |||
    (if hasFlag flags mmapWrite then vmemWrite else 0) |||
    (if hasFlag flags mmapExec then vmemExec else 0) |||
    (if hasFlag flags mmapUser then vmemUser else 0)

/-- The page table of directory entry `idx` for a miss: the one the PDE holds, or a new one
from `create_page_table()` entered with `VMEM_VALID | VMEM_READ | VMEM_WRITE`. -/
def faultTable (s : State) (c : Fin maxCores) (pd idx : Nat) : Option (State × Nat) :=
  let pde := s.entry pd idx
  if isValid pde then some (s, pde &&& frameMask)
  else (createPageTable s c).map fun (s, ptAddr) =>
    let entry := ptAddr ||| vmemValid ||| vmemRead ||| vmemWrite
    (s.setEntry pd idx entry, entry &&& frameMask)

/-- The frame that a miss maps at `faultAddr` of a VME: the cached page of a shared file
mapping (marked dirty if the mapping is writable), a private copy of the cached page of a
private file mapping (the cache entry is acquired and released around the copy), the page of a
physical window, or a new zeroed page. -/
def faultPage (s : State) (c : Fin maxCores) (vme : Vme) (faultAddr : Nat) :
    Option (State × Nat) :=
  match vme.file with
  | some inode =>
    let offset := vme.fileOffset + (faultAddr - vme.start)
    if hasFlag vme.flags mmapShared then
      (sharedVmePageBytes vme faultAddr).bind fun bytesInPage =>
        (pageCacheAcquire s c inode offset bytesInPage).bind fun (s, page) =>
          (if hasFlag vme.flags mmapWrite then pageCacheMarkDirty s inode offset
            else some s).map fun s => (s, page.pageData)
    else
      let currentSize := s.fileSize inode
      let bytesRemaining := if currentSize > offset then currentSize - offset else 0
      let bytesInVme := if vme.size - (faultAddr - vme.start) > frameSize then frameSize
        else vme.size - (faultAddr - vme.start)
      let bytesInPage := if bytesRemaining < bytesInVme then bytesRemaining else bytesInVme
      (pageCacheAcquire s c inode offset bytesInPage).bind fun (s, _) =>
        (physmemAlloc s c).bind fun (s, physPage) =>
          (pageCacheRelease s c inode offset).map fun s => (s, physPage)
  | none =>
    if hasFlag vme.flags mmapShared then none
    else if vme.paddr ≠ 0 then some (s, vme.paddr + (faultAddr - vme.start))
    else createZeroedPage s c

/-- The mapping part of `tlb_miss_handler` for page `vpn` of a VME in the page directory
`pd`: the page table first, then, if the PTE is not valid, a frame and its PTE. -/
def faultMap (s : State) (c : Fin maxCores) (pd : Nat) (vme : Vme) (vpn : Nat) :
    Option State :=
  let faultAddr := (vpn <<< 12) % 2 ^ 32
  (faultTable s c pd ((vpn >>> 10) &&& 0x3FF)).bind fun (s, pt) =>
    let pageTableIndex := vpn &&& 0x3FF
    if isValid (s.entry pt pageTableIndex) then some s
    else (faultPage s c vme faultAddr).map fun (s, physPage) =>
      s.setEntry pt pageTableIndex (pteOf vme.flags physPage)

/-- `tlb_miss_handler(vpn, flags, ...)` on thread `t`, returning its result: a miss with
insufficient privileges or outside every VME kills a user program (`-1`), is redirected to
the error path of a kernel user-access helper (`0`), or panics; a miss in a shared anonymous
VME panics; any other miss maps the page. -/
def tlbMissHandler (s : State) (c : Fin maxCores) (t vpn flags : Nat)
    (wasUser uaccessActive : Bool) : Option (State × Int) :=
  if flags ≠ 0 then
    if wasUser then some (s, -1) else if uaccessActive then some (s, 0) else none
  else
    match findVme ((vpn <<< 12) % 2 ^ 32) (s.tcbs t).vmeList with
    | none => if wasUser then some (s, -1) else if uaccessActive then some (s, 0) else none
    | some vme =>
      if hasFlag vme.flags mmapShared ∧ vme.file = none then none
      else (faultMap s c (s.tcbs t).pid vme vpn).map fun s => (s, 0)

/-! ### `unmap_vme` -/

/-- What `unmap_vme` does with the frame behind a valid PTE at `va`: a shared page is
released to the page cache, the page of a physical window is left alone, and a private page
goes back to `physmem_free`. -/
def releasePage (s : State) (c : Fin maxCores) (vme : Vme) (va pte : Nat) : Option State :=
  if hasFlag vme.flags mmapShared then
    match vme.file with
    | none => none
    | some inode => pageCacheRelease s c inode (vme.fileOffset + (va - vme.start))
  else if vme.paddr ≠ 0 then some s
  else physmemFree s c (pte &&& frameMask)

/-- The loop that checks whether a page table has no valid entry. -/
def tableEmpty (s : State) (pt : Nat) : Bool :=
  (List.range 1024).all fun i => !isValid (s.entry pt i)

/-- The check of `unmap_vme` on a page table it leaves: an empty one is freed and its PDE
`idx` cleared; `none` is the `NULL` of `prev_pt`. -/
def freeTableIfEmpty (s : State) (c : Fin maxCores) (pd idx : Nat) : Option Nat → Option State
  | none => some s
  | some pt =>
    if tableEmpty s pt then (physmemFree s c pt).map fun s => s.setEntry pd idx 0 else some s

/-- One iteration of the loop of `unmap_vme` at `va`, with the directory index and page table
of the last page it unmapped. -/
def unmapPage (s : State) (c : Fin maxCores) (pd : Nat) (vme : Vme) (va prevIdx : Nat)
    (prevPt : Option Nat) : Option (State × Nat × Option Nat) :=
  let pageDirIndex := pageDirIndexOf va
  let pageTableIndex := pageTableIndexOf va
  let pde := s.entry pd pageDirIndex
  if !isValid pde then some (s, prevIdx, prevPt)
  else
    let pt := pde &&& frameMask
    let pte := s.entry pt pageTableIndex
    if !isValid pte then some (s, prevIdx, prevPt)
    else (releasePage s c vme va pte).bind fun s =>
      let s := s.setEntry pt pageTableIndex 0
      -- the table left behind is checked only when the directory index changes
      (if pageDirIndex ≠ prevIdx then freeTableIfEmpty s c pd prevIdx prevPt
        else some s).map fun s => (s, pageDirIndex, some pt)

/-- The loop of `unmap_vme` over `n` pages from `va`. -/
def unmapLoop (c : Fin maxCores) (pd : Nat) (vme : Vme) :
    Nat → Nat → Nat → Option Nat → State → Option (State × Nat × Option Nat)
  | 0, _, prevIdx, prevPt, s => some (s, prevIdx, prevPt)
  | n + 1, va, prevIdx, prevPt, s =>
    (unmapPage s c pd vme va prevIdx prevPt).bind fun (s, prevIdx, prevPt) =>
      unmapLoop c pd vme n (va + frameSize) prevIdx prevPt s

/-- `unmap_vme(pd, vme)`: the loop over the pages, then the check of the last page table. -/
def unmapVme (s : State) (c : Fin maxCores) (pd : Nat) (vme : Vme) : Option State :=
  (unmapLoop c pd vme vme.pageCount vme.start uintMax none s).bind fun (s, prevIdx, prevPt) =>
    freeTableIfEmpty s c pd prevIdx prevPt

/-! ### `vmem_fork` -/

/-- The page table of directory entry `idx` in the child: the one it has, or a new one from
`create_page_table()` entered with the flags of the parent's PDE. -/
def forkTable (s : State) (c : Fin maxCores) (dstPd idx pde : Nat) : Option (State × Nat) :=
  if isValid (s.entry dstPd idx) then some (s, s.entry dstPd idx &&& frameMask)
  else (createPageTable s c).map fun (s, dstPt) =>
    (s.setEntry dstPd idx (dstPt ||| (pde &&& 0xFFF)), dstPt)

/-- One page `va` of a user VME in `vmem_fork`: a page mapped in the parent is mapped in the
child, to the same cached page (with a new page-cache reference) for a shared mapping, and to
a fresh frame from `physmem_alloc()` holding a copy for any other. -/
def forkPage (s : State) (c : Fin maxCores) (srcPd dstPd : Nat) (vme : Vme) (va : Nat) :
    Option State :=
  let pageDirIndex := pageDirIndexOf va
  let pageTableIndex := pageTableIndexOf va
  let pde := s.entry srcPd pageDirIndex
  if !isValid pde then some s
  else
    let pte := s.entry (pde &&& frameMask) pageTableIndex
    if !isValid pte then some s
    else (forkTable s c dstPd pageDirIndex pde).bind fun (s, dstPt) =>
      let paddr := pte &&& frameMask
      if hasFlag vme.flags mmapShared then
        match vme.file with
        | none => none
        | some inode =>
          (sharedVmePageBytes vme va).bind fun pageBytes =>
            (pageCacheAcquire s c inode (vme.fileOffset + (va - vme.start)) pageBytes).bind
              fun (s, page) =>
                if page.pageData = paddr then some (s.setEntry dstPt pageTableIndex pte)
                else none
      else
        (physmemAlloc s c).map fun (s, dstPage) =>
          s.setEntry dstPt pageTableIndex (dstPage ||| (pte &&& 0xFFF))

/-- The page loop of `vmem_fork` over `n` pages of a VME from `va`. -/
def forkPages (c : Fin maxCores) (srcPd dstPd : Nat) (vme : Vme) : Nat → Nat → State → Option State
  | 0, _, s => some s
  | n + 1, va, s =>
    (forkPage s c srcPd dstPd vme va).bind (forkPages c srcPd dstPd vme n (va + frameSize))

/-- The VME loop of `vmem_fork`: the pages of each user VME. -/
def forkVmes (c : Fin maxCores) (srcPd dstPd : Nat) : List Vme → State → Option State
  | [], s => some s
  | v :: l, s =>
    (if hasFlag v.flags mmapUser then forkPages c srcPd dstPd v v.pageCount v.start s
      else some s).bind (forkVmes c srcPd dstPd l)

/-- The first loop of `vmem_fork`: a copy of each VME by `vme_create`, in order. -/
def copyVmes : List Vme → Option (List Vme)
  | [] => some []
  | v :: l =>
    (vmeCreate v.start v.endAddr v.size v.file v.fileOffset v.flags v.paddr).bind fun v' =>
      (copyVmes l).map (v' :: ·)

/-- `vmem_fork(src, dst)`: the child gets copies of the VMEs, a new page directory, and the
user pages of the parent. -/
def vmemFork (s : State) (c : Fin maxCores) (src dst : Nat) : Option State :=
  (copyVmes (s.tcbs src).vmeList).bind fun vmes =>
    (createPageDirectory (s.setVmeList dst vmes) c).bind fun (s, pd) =>
      forkVmes c (s.tcbs src).pid pd vmes (s.setPid dst pd)

/-! ### Destroying an address space and `munmap` -/

/-- The loop of `vmem_destroy_address_space` over the VMEs. -/
def unmapVmes (c : Fin maxCores) (pd : Nat) : List Vme → State → Option State
  | [], s => some s
  | v :: l, s => (unmapVme s c pd v).bind (unmapVmes c pd l)

/-- The loop of `vmem_destroy_address_space` over `n` directory entries from `i`: every page
table still entered is freed and its PDE cleared. -/
def freeTables (c : Fin maxCores) (pd : Nat) : Nat → Nat → State → Option State
  | 0, _, s => some s
  | n + 1, i, s =>
    (if isValid (s.entry pd i) then
      (physmemFree s c (s.entry pd i &&& frameMask)).map fun s => s.setEntry pd i 0
    else some s).bind (freeTables c pd n (i + 1))

/-- `vmem_destroy_address_space(tcb)`: unmap every VME, free the page tables left, then the
page directory. -/
def vmemDestroyAddressSpace (s : State) (c : Fin maxCores) (t : Nat) : Option State :=
  let pd := (s.tcbs t).pid
  (unmapVmes c pd (s.tcbs t).vmeList s).bind fun s =>
    (freeTables c pd 1024 0 s).bind fun s => physmemFree s c pd

/-- The loop of `munmap` that finds the first VME starting at `p`, with its index. -/
def findStart (p : Nat) : List Vme → Option (Nat × Vme)
  | [] => none
  | v :: l => if v.start = p then some (0, v) else (findStart p l).map fun (k, w) => (k + 1, w)

/-- `munmap(p)` on thread `t`: the VME that starts at `p` is unlinked and unmapped; there must
be one, and it must not be shared anonymous memory. -/
def munmap (s : State) (c : Fin maxCores) (t p : Nat) : Option State :=
  let l := (s.tcbs t).vmeList
  match findStart p l with
  | none => none
  | some (k, vme) =>
    if hasFlag vme.flags mmapShared ∧ vme.file = none then none
    else unmapVme (s.setVmeList t (l.eraseIdx k)) c (s.tcbs t).pid vme

end DioptaseOS.Vmem
