import DioptaseOS.Physmem.Allocator

/-!
# Virtual memory: address spaces, page tables and the page cache

The state of the virtual-memory layer of `vmem.c` and `page_cache.c`. Each thread has a list
of virtual memory entries (VMEs), sorted by start, and a page directory `pid`; page directories
and page tables are frames of 1024 words taken from `physmem_alloc()`, and a valid entry holds
the frame of the next level in its upper 20 bits and the `VMEM_*` flags in the lower 12. The
page cache holds one entry per file page (cached inode and page offset) with a reference
count, in the buckets of a hash map.

Memory is modelled as a map from byte addresses to 32-bit words, of which the model reads and
writes only the words of page directories and page tables: the contents of data pages (the
zero fill of anonymous pages, the copies of private and forked pages, the file data read into
page-cache pages) are left out. Frames come from, and go back to, the frame allocator of
`Physmem`, on the core that makes the call.

## Main definitions

* `Vme`, `Tcb`, `PageCacheEntry`, `State` — the data of the layer
* `State.entry`, `State.setEntry`, `State.clearTable` — the words of a table
* `vmeCreate`, `vmemRangeCanHold` — a new VME, and the range check of the searches
* `createPageDirectory`, `createPageTable`, `createZeroedPage` — fresh frames
-/

namespace DioptaseOS.Vmem

open Physmem (frameSize maxCores)

/-! ### Flags and address ranges -/

def mmapShared : Nat := 0x01
def mmapRead : Nat := 0x04
def mmapWrite : Nat := 0x08
def mmapExec : Nat := 0x10
def mmapUser : Nat := 0x20

def vmemRead : Nat := 0x01
def vmemWrite : Nat := 0x02
def vmemExec : Nat := 0x04
def vmemUser : Nat := 0x08
def vmemValid : Nat := 0x20

def kernelVmemStart : Nat := 0x10000000
def kernelVmemEnd : Nat := 0x7FFFFFFF
def userVmemStart : Nat := 0x80000000
def userVmemEnd : Nat := 0xFFFFFFFF

def uintMax : Nat := 0xFFFFFFFF

/-- `~(FRAME_SIZE - 1)` on 32 bits: the frame part of an address or a table entry. -/
def frameMask : Nat := 0xFFFFF000

/-- The test `flags & flag` of a flag bit. -/
def hasFlag (flags flag : Nat) : Bool := flags &&& flag != 0

/-! ### The data -/

/-- A virtual memory entry: the pages `[start, end)` of an address space, backed by the file
page cache of a cached inode, by the physical window at `paddr`, or by anonymous pages. -/
structure Vme where
  start : Nat
  endAddr : Nat
  size : Nat
  flags : Nat
  file : Option Nat
  fileOffset : Nat
  paddr : Nat
  deriving DecidableEq, Repr

/-- The part of a thread's control block that the layer uses: its page directory and its
VMEs. -/
structure Tcb where
  pid : Nat
  vmeList : List Vme
  deriving DecidableEq, Repr

/-- A page-cache entry: a file page by cached inode and byte offset, its frame, references and
flags, and how many bytes of the file it holds. -/
structure PageCacheEntry where
  inode : Nat
  offset : Nat
  pageData : Nat
  refcount : Nat
  flags : Nat
  fileBytes : Nat
  deriving DecidableEq, Repr

/-- The layer's state: the threads, the words of memory, the page-cache buckets, the file
sizes `node_size_in_bytes` reads, the write-backs `node_write_all` was asked for (cached
inode, offset and byte count, in order) and the frame allocator. -/
structure State where
  tcbs : Nat → Tcb
  mem : Nat → Nat
  hashMap : Nat → List PageCacheEntry
  fileSize : Nat → Nat
  writeBacks : List (Nat × Nat × Nat)
  phys : Physmem.State

/-! ### Words of tables -/

/-- The word `p[i]` of the table at `p`. -/
def State.entry (s : State) (p i : Nat) : Nat := s.mem (p + 4 * i)

/-- `p[i] = v`. -/
def State.setEntry (s : State) (p i v : Nat) : State :=
  { s with mem := Function.update s.mem (p + 4 * i) v }

/-- The loop `for (i = 0; i < 1024; i++) p[i] = 0` that clears a new table. -/
def State.clearTable (s : State) (p : Nat) : State :=
  { s with mem := fun a => if p ≤ a ∧ a < p + 4 * 1024 ∧ (a - p) % 4 = 0 then 0 else s.mem a }

/-- `tcb->vme_list = l`. -/
def State.setVmeList (s : State) (t : Nat) (l : List Vme) : State :=
  { s with tcbs := Function.update s.tcbs t { s.tcbs t with vmeList := l } }

/-- `tcb->pid = pd`. -/
def State.setPid (s : State) (t pd : Nat) : State :=
  { s with tcbs := Function.update s.tcbs t { s.tcbs t with pid := pd } }

@[simp] theorem entry_setEntry_self (s : State) (p i v : Nat) : (s.setEntry p i v).entry p i = v := by
  simp [State.entry, State.setEntry]

theorem entry_setEntry_of_ne (s : State) {p i q j v : Nat} (h : q + 4 * j ≠ p + 4 * i) :
    (s.setEntry p i v).entry q j = s.entry q j := by
  simp [State.entry, State.setEntry, Function.update_of_ne h]

theorem entry_clearTable {s : State} {p i : Nat} (hi : i < 1024) : (s.clearTable p).entry p i = 0 := by
  simp only [State.entry, State.clearTable]
  rw [if_pos ⟨Nat.le_add_right _ _, by omega, by simp⟩]

theorem entry_clearTable_of_lt {s : State} {p q j : Nat} (h : q + 4 * j < p ∨ p + 4 * 1024 ≤ q + 4 * j) :
    (s.clearTable p).entry q j = s.entry q j := by
  simp only [State.entry, State.clearTable]
  rw [if_neg (by omega)]

@[simp] theorem tcbs_setEntry (s : State) (p i v : Nat) : (s.setEntry p i v).tcbs = s.tcbs := rfl
@[simp] theorem phys_setEntry (s : State) (p i v : Nat) : (s.setEntry p i v).phys = s.phys := rfl
@[simp] theorem hashMap_setEntry (s : State) (p i v : Nat) : (s.setEntry p i v).hashMap = s.hashMap := rfl
@[simp] theorem tcbs_clearTable (s : State) (p : Nat) : (s.clearTable p).tcbs = s.tcbs := rfl
@[simp] theorem phys_clearTable (s : State) (p : Nat) : (s.clearTable p).phys = s.phys := rfl

/-! ### Frames -/

/-- `physmem_alloc()` on core `c`. -/
def physmemAlloc (s : State) (c : Fin maxCores) : Option (State × Nat) :=
  (Physmem.physmemAlloc s.phys c).map fun (phys, page) => ({ s with phys }, page)

/-- `physmem_free(page)` on core `c`. -/
def physmemFree (s : State) (c : Fin maxCores) (page : Nat) : Option State :=
  (Physmem.physmemFree s.phys c page).map fun phys => { s with phys }

/-- A frame from `physmem_alloc()` with its 1024 words cleared: the body shared by
`create_page_directory()` and `create_page_table()`. -/
def createClearedTable (s : State) (c : Fin maxCores) : Option (State × Nat) :=
  (physmemAlloc s c).map fun (s, p) => (s.clearTable p, p)

/-- `create_page_directory()`. -/
def createPageDirectory (s : State) (c : Fin maxCores) : Option (State × Nat) :=
  createClearedTable s c

/-- `create_page_table()`. -/
def createPageTable (s : State) (c : Fin maxCores) : Option (State × Nat) :=
  createClearedTable s c

/-- `create_zeroed_page()`: a data page, whose contents are not modelled. -/
def createZeroedPage (s : State) (c : Fin maxCores) : Option (State × Nat) :=
  physmemAlloc s c

/-! ### VMEs and ranges -/

/-- `vme_create(start, end, size, file, file_offset, flags, paddr)`, with its four asserts. -/
def vmeCreate (start endAddr size : Nat) (file : Option Nat) (fileOffset flags paddr : Nat) :
    Option Vme :=
  if start % frameSize = 0 ∧ endAddr % frameSize = 0 ∧ start < endAddr ∧
      (file = none ∨ fileOffset % frameSize = 0) ∧ (paddr ≠ 0 → file = none) then
    some ⟨start, endAddr, size, flags, file, fileOffset, paddr⟩
  else none

/-- Byte `a` lies in the VME `v`. -/
def Vme.Covers (v : Vme) (a : Nat) : Prop := v.start ≤ a ∧ a < v.endAddr

/-- A sorted list of non-overlapping VMEs: each VME ends at or below the start of every later
one. -/
def SortedDisjoint (l : List Vme) : Prop := l.Pairwise fun a b => a.endAddr ≤ b.start

/-- `vme_insert(tcb, prev, vme)`, with `prev` the `k`-th VME of the list (`k = 0` for
`NULL`): the new VME goes right after it. -/
def vmeInsert (l : List Vme) (k : Nat) (vme : Vme) : List Vme := l.insertIdx k vme

def vmemRangeStart (flags : Nat) : Nat :=
  if hasFlag flags mmapUser then userVmemStart else kernelVmemStart

def vmemRangeEnd (flags : Nat) : Nat :=
  if hasFlag flags mmapUser then userVmemEnd else kernelVmemEnd

/-- `vmem_range_topdown_limit(flags)`: the highest exclusive end a VME can have. -/
def vmemRangeTopdownLimit (flags : Nat) : Nat :=
  let rangeEnd := vmemRangeEnd flags
  if rangeEnd = uintMax then uintMax - (frameSize - 1) else rangeEnd + 1

/-- `vmem_range_can_hold(start, rounded_size, range_start, range_end)`. -/
def vmemRangeCanHold (start roundedSize rangeStart rangeEnd : Nat) : Bool :=
  if start < rangeStart ∨ start > rangeEnd then false
  else if start > uintMax - roundedSize then false
  else start + roundedSize - 1 ≤ rangeEnd

/-- `(size + FRAME_SIZE - 1) & ~(FRAME_SIZE - 1)` on 32 bits. -/
def roundUp (size : Nat) : Nat := (size + frameSize - 1) % 2 ^ 32 &&& frameMask

/-- The number of pages of a VME: the iterations of `for (va = start; va < end;
va += FRAME_SIZE)` over its page-aligned range. -/
def Vme.pageCount (vme : Vme) : Nat := (vme.endAddr - vme.start) / frameSize

/-- The page directory index `(va >> 22) & 0x3FF` of an address. -/
def pageDirIndexOf (va : Nat) : Nat := (va >>> 22) &&& 0x3FF

/-- The page table index `(va >> 12) & 0x3FF` of an address. -/
def pageTableIndexOf (va : Nat) : Nat := (va >>> 12) &&& 0x3FF

/-- Whether an entry has `VMEM_VALID` set. -/
def isValid (e : Nat) : Bool := e &&& vmemValid != 0

end DioptaseOS.Vmem
