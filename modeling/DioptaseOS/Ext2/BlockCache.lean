import Mathlib

/-!
# ext2: the block cache

`bcache_get` and `bcache_set` keep copies of disk blocks in `BCACHE_SIZE` lines, each with a
tag (the block number, `-1` when empty) and an age; a hit takes the last line tagged with
the block, and a miss replaces the oldest line. The cache is write-through: `bcache_set`
patches the cached copy (read from the disk first for a partial write of an uncached block)
and writes the whole block back, all under the cache lock. `bcache_get` drops the lock on a
miss to read the SD card, then takes it again and installs what it read in the oldest line,
without looking at the tags again.

Run one call at a time, the cache agrees with the disk (`Coherent`): a get returns the disk
block and a set changes only its block (`bcacheGet_coherent`, `bcacheSet_coherent`,
`cacheRun_coherent`). With a get's miss split into its three steps, a set of the same block
that runs between the read and the install leaves two lines with the block's tag, one of them
with the bytes from before the set (`CacheSys`).

## Main definitions

* `BlockCache`, `bcacheInit`, `bcacheLookup`, `victim`
* `bcacheGet`, `bcacheSet` — the calls, each as one step
* `Coherent` — no tag on two lines, and a tagged line holds its disk block
* `CacheSys`, `CacheSys.step`, `CacheSys.run` — threads in the middle of calls, a get's miss
  taking three steps

## Main results

* `bcacheGet_coherent`, `bcacheSet_coherent` — one call keeps the cache coherent
* `cacheRun_coherent` — so does every sequence of calls, and each get returns its block
* `Coherent.installBlock` — a miss's install keeps it when the block is uncached and the
  bytes are the disk's
-/

namespace DioptaseOS.Ext2

def bcacheSize : Nat := 32

instance : NeZero bcacheSize := ⟨by decide⟩

/-- The tag of an empty line, `-1` as an `unsigned`. -/
def bcacheNoTag : Nat := 0xFFFFFFFF

/-- `struct BlockCache`: the tag, age and bytes of each line, and the block size. -/
structure BlockCache where
  tags : Fin bcacheSize → Nat
  ages : Fin bcacheSize → Nat
  lines : Fin bcacheSize → List UInt8
  blockSize : Nat

/-- `bcache_init(cache, block_size)`; `buffer` is what `malloc` returned for the lines. -/
def bcacheInit (blockSize : Nat) (buffer : Fin bcacheSize → List UInt8) : BlockCache :=
  ⟨fun _ => bcacheNoTag, fun i => i, buffer, blockSize⟩

/-- The lookup loop of both calls, `found` and `result`: the last line tagged with the block. -/
def bcacheLookup (c : BlockCache) (blockNum : Nat) : Option (Fin bcacheSize) :=
  (List.finRange bcacheSize).foldl (fun r i => if blockNum = c.tags i then some i else r) none

/-- The aging of a hit: the lines more recent than `result` get one older, and `result`
becomes the most recent. -/
def BlockCache.touch (c : BlockCache) (result : Fin bcacheSize) : BlockCache :=
  let aged := fun i => if c.ages i < c.ages result then c.ages i + 1 else c.ages i
  { c with ages := Function.update aged result 0 }

/-- The aging loop of a miss picks as `result` the last line whose age reaches
`BCACHE_SIZE`, or keeps line `0` from the lookup if none does. -/
def victim (ages : Fin bcacheSize → Nat) : Fin bcacheSize :=
  (List.finRange bcacheSize).foldl (fun r i => if ages i + 1 = bcacheSize then i else r) 0

/-- A miss: every line gets one older, and the victim takes the block, with age `0`. -/
def BlockCache.installBlock (c : BlockCache) (blockNum : Nat) (data : List UInt8) :
    BlockCache :=
  let v := victim c.ages
  { c with
    ages := Function.update (fun i => c.ages i + 1) v 0
    tags := Function.update c.tags v blockNum
    lines := Function.update c.lines v data }

/-- `memcpy(buf + offset, src, n)`. -/
def patch (buf : List UInt8) (offset : Nat) (src : List UInt8) (n : Nat) : List UInt8 :=
  buf.take offset ++ src.take n ++ buf.drop (offset + n)

/-- `bcache_get(cache, block_num, dest)` run as one step: the cache and the bytes copied to
`dest`. -/
def bcacheGet (c : BlockCache) (disk : Nat → List UInt8) (blockNum : Nat) :
    BlockCache × List UInt8 :=
  match bcacheLookup c blockNum with
  | some result => (c.touch result, c.lines result)
  | none => (c.installBlock blockNum (disk blockNum), disk blockNum)

/-- `write_size` of `bcache_set`. -/
def bcacheWriteSize (blockSize offset size : Nat) : Nat :=
  if size ≥ blockSize - offset then blockSize - offset else size

/-- `bcache_set(cache, block_num, src, offset, size)`: the cache and the disk. A hit patches
its line (whose tag is already the block); an uncached full-block write patches the victim's
line; an uncached partial write patches the block read from the disk. The block is then
written back from the line. -/
def bcacheSet (c : BlockCache) (disk : Nat → List UInt8) (blockNum : Nat) (src : List UInt8)
    (offset size : Nat) : BlockCache × (Nat → List UInt8) :=
  let writeSize := bcacheWriteSize c.blockSize offset size
  match bcacheLookup c blockNum with
  | some result =>
    let line := patch (c.lines result) offset src writeSize
    ({ c.touch result with lines := Function.update c.lines result line },
      Function.update disk blockNum line)
  | none =>
    if size ≥ c.blockSize ∧ offset = 0 then
      let line := patch (c.lines (victim c.ages)) offset src writeSize
      (c.installBlock blockNum line, Function.update disk blockNum line)
    else
      let line := patch (disk blockNum) offset src writeSize
      (c.installBlock blockNum line, Function.update disk blockNum line)

/-! ### The lookup -/

section Lookup

variable {α : Type*} {p : α → Prop} [DecidablePred p]

/-- The loop that keeps the last element passing a test returns one that passes, or its
start. -/
theorem foldl_last_some {l : List α} {init : Option α} {r : α} :
    l.foldl (fun r i => if p i then some i else r) init = some r →
      (r ∈ l ∧ p r) ∨ init = some r := by
  induction l generalizing init with
  | nil => intro h; exact .inr h
  | cons a l ih =>
    intro h
    rcases ih h with h' | h'
    · exact .inl ⟨List.mem_cons_of_mem _ h'.1, h'.2⟩
    · by_cases ha : p a
      · simp only [ha, if_true, Option.some.injEq] at h'
        exact .inl ⟨h' ▸ List.mem_cons_self .., h' ▸ ha⟩
      · simp only [ha, if_false] at h'
        exact .inr h'

theorem foldl_last_isSome {l : List α} {init : Option α} (h : init.isSome) :
    (l.foldl (fun r i => if p i then some i else r) init).isSome := by
  induction l generalizing init with
  | nil => exact h
  | cons b l ih => apply ih; by_cases hb : p b <;> simp [hb, h]

theorem foldl_last_none {l : List α} {init : Option α} :
    l.foldl (fun r i => if p i then some i else r) init = none → ∀ i ∈ l, ¬p i := by
  induction l generalizing init with
  | nil => simp
  | cons a l ih =>
    intro h i hi
    rcases List.mem_cons.mp hi with rfl | hi
    · -- once the loop has found an element it keeps one
      intro ha
      simp only [List.foldl_cons, ha, if_true] at h
      have := foldl_last_isSome (p := p) (l := l) (show (some i).isSome from rfl)
      rw [h] at this
      exact absurd this (by simp)
    · exact ih h i hi

end Lookup

theorem bcacheLookup_some {c : BlockCache} {blockNum : Nat} {r : Fin bcacheSize}
    (h : bcacheLookup c blockNum = some r) : c.tags r = blockNum := by
  rcases foldl_last_some h with h' | h'
  · exact h'.2.symm
  · cases h'

theorem bcacheLookup_none {c : BlockCache} {blockNum : Nat}
    (h : bcacheLookup c blockNum = none) (i : Fin bcacheSize) : c.tags i ≠ blockNum :=
  fun e => foldl_last_none h i (List.mem_finRange i) e.symm

/-! ### Coherence of calls run one at a time -/

/-- The cache agrees with the disk: every line holds a block of the block size, no two lines
carry one tag, and a tagged line holds the disk block of its tag. -/
structure Coherent (disk : Nat → List UInt8) (c : BlockCache) : Prop where
  length_lines : ∀ i, (c.lines i).length = c.blockSize
  tags_inj : ∀ i j, c.tags i = c.tags j → c.tags i ≠ bcacheNoTag → i = j
  lines_eq : ∀ i, c.tags i ≠ bcacheNoTag → c.lines i = disk (c.tags i)

@[simp] theorem tags_touch (c : BlockCache) (r : Fin bcacheSize) : (c.touch r).tags = c.tags := rfl
@[simp] theorem lines_touch (c : BlockCache) (r : Fin bcacheSize) : (c.touch r).lines = c.lines := rfl
@[simp] theorem blockSize_touch (c : BlockCache) (r : Fin bcacheSize) :
    (c.touch r).blockSize = c.blockSize := rfl
@[simp] theorem blockSize_installBlock (c : BlockCache) (b : Nat) (data : List UInt8) :
    (c.installBlock b data).blockSize = c.blockSize := rfl

theorem Coherent.touch {disk : Nat → List UInt8} {c : BlockCache} (h : Coherent disk c)
    (r : Fin bcacheSize) : Coherent disk (c.touch r) :=
  ⟨h.length_lines, h.tags_inj, h.lines_eq⟩

theorem coherent_init (blockSize : Nat) {buffer : Fin bcacheSize → List UInt8}
    (hbuf : ∀ i, (buffer i).length = blockSize) (disk : Nat → List UInt8) :
    Coherent disk (bcacheInit blockSize buffer) :=
  ⟨hbuf, fun _ _ _ h => absurd rfl h, fun _ h => absurd rfl h⟩

@[simp] theorem tags_installBlock (c : BlockCache) (b : Nat) (data : List UInt8) :
    (c.installBlock b data).tags = Function.update c.tags (victim c.ages) b := rfl
@[simp] theorem lines_installBlock (c : BlockCache) (b : Nat) (data : List UInt8) :
    (c.installBlock b data).lines = Function.update c.lines (victim c.ages) data := rfl

/-- Installing an uncached block with bytes the disk then holds keeps the cache coherent. -/
theorem Coherent.installBlock {disk : Nat → List UInt8} {c : BlockCache} (h : Coherent disk c)
    {b : Nat} {data : List UInt8} (hb : ∀ i, c.tags i ≠ b) (hlen : data.length = c.blockSize) :
    Coherent (Function.update disk b data) (c.installBlock b data) := by
  refine ⟨fun i => ?_, fun i j hij hi => ?_, fun i hi => ?_⟩
  · rw [lines_installBlock, Function.update_apply]
    split_ifs
    · exact hlen
    · exact h.length_lines i
  · simp only [tags_installBlock, Function.update_apply] at hij hi
    -- the victim is the only line tagged with the block
    split_ifs at hij hi with hiv hjv hjv
    · rw [hiv, hjv]
    · exact absurd hij.symm (hb j)
    · exact absurd hij (hb i)
    · exact h.tags_inj i j hij hi
  · rw [tags_installBlock] at hi ⊢
    rw [lines_installBlock]
    by_cases hiv : i = victim c.ages
    · subst hiv; simp
    · rw [Function.update_of_ne hiv] at hi ⊢
      rw [Function.update_of_ne hiv, Function.update_of_ne (hb i), h.lines_eq i hi]

/-- Run alone, a get returns the disk block and keeps the cache coherent. -/
theorem bcacheGet_coherent {disk : Nat → List UInt8} {c : BlockCache} {b : Nat}
    (h : Coherent disk c) (hb : b ≠ bcacheNoTag) (hdisk : (disk b).length = c.blockSize) :
    (bcacheGet c disk b).2 = disk b ∧ Coherent disk (bcacheGet c disk b).1 := by
  unfold bcacheGet
  cases hl : bcacheLookup c b with
  | some r =>
    have hr := bcacheLookup_some hl
    dsimp only
    exact ⟨by rw [h.lines_eq r (hr ▸ hb), hr], h.touch r⟩
  | none =>
    dsimp only
    refine ⟨rfl, ?_⟩
    have := h.installBlock (bcacheLookup_none hl) hdisk
    rwa [Function.update_eq_self] at this

theorem length_patch {buf src : List UInt8} {offset n : Nat} (ho : offset + n ≤ buf.length)
    (hn : n ≤ src.length) : (patch buf offset src n).length = buf.length := by
  simp only [patch, List.length_append, List.length_take, List.length_drop]
  omega

theorem bcacheWriteSize_le (blockSize offset size : Nat) :
    offset + bcacheWriteSize blockSize offset size ≤ max blockSize offset := by
  unfold bcacheWriteSize
  split <;> omega

theorem patch_zero_of_length_le {buf src : List UInt8} {n : Nat} (h : buf.length ≤ n) :
    patch buf 0 src n = src.take n := by
  simp [patch, List.drop_eq_nil_of_le h]

/-- Run alone, a set keeps the cache coherent and writes its bytes into the disk block. -/
theorem bcacheSet_coherent {disk : Nat → List UInt8} {c : BlockCache} {b : Nat}
    {src : List UInt8} {offset size : Nat}
    (h : Coherent disk c) (hb : b ≠ bcacheNoTag) (hdisk : (disk b).length = c.blockSize)
    (hoff : offset ≤ c.blockSize) (hsrc : bcacheWriteSize c.blockSize offset size ≤ src.length) :
    Coherent (bcacheSet c disk b src offset size).2 (bcacheSet c disk b src offset size).1 ∧
      (bcacheSet c disk b src offset size).2 = Function.update disk b
        (patch (disk b) offset src (bcacheWriteSize c.blockSize offset size)) := by
  have hw := bcacheWriteSize_le c.blockSize offset size
  have hlen : (patch (disk b) offset src (bcacheWriteSize c.blockSize offset size)).length =
      c.blockSize := by
    rw [length_patch (by omega) hsrc, hdisk]
  unfold bcacheSet
  cases hl : bcacheLookup c b with
  | some r =>
    -- a hit patches the line of the block, which holds the disk block
    have hr := bcacheLookup_some hl
    have hline : c.lines r = disk b := hr ▸ h.lines_eq r (hr ▸ hb)
    dsimp only
    rw [hline]
    refine ⟨⟨fun i => ?_, h.tags_inj, fun i hi => ?_⟩, rfl⟩
    · by_cases hir : i = r
      · subst hir; simpa using hlen
      · simp [Function.update_of_ne hir, h.length_lines i]
    · simp only [tags_touch] at hi ⊢
      by_cases hir : i = r
      · subst hir; simp [hr]
      · have hne : c.tags i ≠ b := fun e => hir (h.tags_inj i r (e.trans hr.symm) hi)
        simp [Function.update_of_ne hir, Function.update_of_ne hne, h.lines_eq i hi]
  | none =>
    have hnone := bcacheLookup_none hl
    dsimp only
    split_ifs with hfull
    · -- an uncached full-block write overwrites the whole victim line
      have hn : bcacheWriteSize c.blockSize offset size = c.blockSize := by
        simp only [bcacheWriteSize]; rw [if_pos (by omega), hfull.2, Nat.sub_zero]
      have heq : patch (c.lines (victim c.ages)) offset src (bcacheWriteSize c.blockSize offset size) =
          patch (disk b) offset src (bcacheWriteSize c.blockSize offset size) := by
        rw [hn, hfull.2, patch_zero_of_length_le (h.length_lines _).le,
          patch_zero_of_length_le hdisk.le]
      rw [heq]
      exact ⟨h.installBlock hnone hlen, rfl⟩
    · exact ⟨h.installBlock hnone hlen, rfl⟩

/-! ### Runs of calls, one at a time -/

/-- A call of the block cache. -/
inductive CacheOp
  | get (blockNum : Nat)
  | set (blockNum : Nat) (src : List UInt8) (offset size : Nat)
  deriving DecidableEq, Repr

/-- The calls the driver makes: a block number that is not the empty tag, an offset inside
the block, and a source with the bytes to copy. -/
def CacheOp.WellFormed (blockSize : Nat) : CacheOp → Prop
  | .get b => b ≠ bcacheNoTag
  | .set b src offset size =>
    b ≠ bcacheNoTag ∧ offset ≤ blockSize ∧ bcacheWriteSize blockSize offset size ≤ src.length

/-- One call as one step: the cache, the disk, and the bytes a get returns. -/
def cacheCall (c : BlockCache) (disk : Nat → List UInt8) :
    CacheOp → BlockCache × (Nat → List UInt8) × Option (List UInt8)
  | .get b => ((bcacheGet c disk b).1, disk, some (bcacheGet c disk b).2)
  | .set b src offset size =>
    ((bcacheSet c disk b src offset size).1, (bcacheSet c disk b src offset size).2, none)

/-- The same call on the disk alone: a get reads its block, a set patches it. -/
def diskCall (blockSize : Nat) (disk : Nat → List UInt8) :
    CacheOp → (Nat → List UInt8) × Option (List UInt8)
  | .get b => (disk, some (disk b))
  | .set b src offset size =>
    (Function.update disk b (patch (disk b) offset src (bcacheWriteSize blockSize offset size)),
      none)

/-- Calls run one after the other: the cache, the disk and what each call returned. -/
def cacheRun (c : BlockCache) (disk : Nat → List UInt8) :
    List CacheOp → BlockCache × (Nat → List UInt8) × List (Option (List UInt8))
  | [] => (c, disk, [])
  | op :: ops =>
    let r := cacheCall c disk op
    let rest := cacheRun r.1 r.2.1 ops
    (rest.1, rest.2.1, r.2.2 :: rest.2.2)

/-- The same calls on the disk alone. -/
def diskRun (blockSize : Nat) (disk : Nat → List UInt8) :
    List CacheOp → (Nat → List UInt8) × List (Option (List UInt8))
  | [] => (disk, [])
  | op :: ops =>
    let r := diskCall blockSize disk op
    let rest := diskRun blockSize r.1 ops
    (rest.1, r.2 :: rest.2)

theorem blockSize_bcacheSet (c : BlockCache) (disk : Nat → List UInt8) (b : Nat)
    (src : List UInt8) (offset size : Nat) :
    (bcacheSet c disk b src offset size).1.blockSize = c.blockSize := by
  unfold bcacheSet
  split
  · rfl
  · split <;> rfl

theorem blockSize_bcacheGet (c : BlockCache) (disk : Nat → List UInt8) (b : Nat) :
    (bcacheGet c disk b).1.blockSize = c.blockSize := by
  unfold bcacheGet
  split <;> rfl

/-- One call keeps the cache coherent, answers as the disk alone would, and leaves every disk
block of the block size. -/
theorem cacheCall_coherent {disk : Nat → List UInt8} {c : BlockCache} {op : CacheOp}
    (h : Coherent disk c) (hdisk : ∀ b, (disk b).length = c.blockSize)
    (hop : op.WellFormed c.blockSize) :
    Coherent (cacheCall c disk op).2.1 (cacheCall c disk op).1 ∧
      (cacheCall c disk op).2 = diskCall c.blockSize disk op ∧
      (cacheCall c disk op).1.blockSize = c.blockSize ∧
      ∀ b, ((cacheCall c disk op).2.1 b).length = c.blockSize := by
  cases op with
  | get b =>
    obtain ⟨hget, hcoh⟩ := bcacheGet_coherent h hop (hdisk b)
    exact ⟨hcoh, by simp [cacheCall, diskCall, hget], blockSize_bcacheGet c disk b, hdisk⟩
  | set b src offset size =>
    obtain ⟨hb, hoff, hsrc⟩ := hop
    obtain ⟨hcoh, hset⟩ := bcacheSet_coherent h hb (hdisk b) hoff hsrc
    refine ⟨hcoh, by simp [cacheCall, diskCall, hset], blockSize_bcacheSet .., fun b' => ?_⟩
    simp only [cacheCall, hset, Function.update_apply]
    split_ifs with hb'
    · subst hb'
      have := bcacheWriteSize_le c.blockSize offset size
      rw [length_patch (by rw [hdisk]; omega) hsrc, hdisk]
    · exact hdisk b'

/-- Calls run one at a time through the cache answer as the disk alone would, and leave the
cache coherent with the disk. -/
theorem cacheRun_coherent {disk : Nat → List UInt8} {c : BlockCache} {ops : List CacheOp}
    (h : Coherent disk c) (hdisk : ∀ b, (disk b).length = c.blockSize)
    (hops : ∀ op ∈ ops, op.WellFormed c.blockSize) :
    Coherent (cacheRun c disk ops).2.1 (cacheRun c disk ops).1 ∧
      (cacheRun c disk ops).2 = diskRun c.blockSize disk ops := by
  induction ops generalizing c disk with
  | nil => exact ⟨h, rfl⟩
  | cons op ops ih =>
    obtain ⟨hcoh, hcall, hsize, hdisk'⟩ := cacheCall_coherent h hdisk (hops op (List.mem_cons_self ..))
    have hrest := ih hcoh (hsize ▸ hdisk') fun op' hop' => hsize ▸ hops op' (List.mem_cons_of_mem _ hop')
    rw [hsize] at hrest
    refine ⟨hrest.1, ?_⟩
    simp only [cacheRun, diskRun, hrest.2, ← hcall]

/-! ### Calls that interleave

Each region between the acquire and the release of `cache->lock` is one atomic step, and so
is the SD read of a get's miss, which runs with the lock released. A set holds the lock for
the whole call and is one step; a get that hits is one step, and a get that misses is three:
the lookup, the read, and the install. -/

/-- Where a thread is in its call. -/
inductive CachePc
  | start
  | read
  | install (data : List UInt8)
  | done (result : Option (List UInt8))
  deriving DecidableEq, Repr

structure CacheThread where
  op : CacheOp
  pc : CachePc
  deriving DecidableEq, Repr

/-- The cache, the disk, and the threads in their calls. -/
structure CacheSys where
  cache : BlockCache
  disk : Nat → List UInt8
  threads : List CacheThread

/-- One atomic step of a thread: the cache, the disk and where the thread is after it. -/
def threadStep (c : BlockCache) (disk : Nat → List UInt8) :
    CacheThread → Option (BlockCache × (Nat → List UInt8) × CachePc)
  | ⟨.get b, .start⟩ =>
    match bcacheLookup c b with
    | some r => some (c.touch r, disk, .done (some (c.lines r)))
    | none => some (c, disk, .read)
  | ⟨.get b, .read⟩ => some (c, disk, .install (disk b))
  -- the install does not look at the tags again
  | ⟨.get b, .install data⟩ => some (c.installBlock b data, disk, .done (some data))
  | ⟨.set b src offset size, .start⟩ =>
    some ((bcacheSet c disk b src offset size).1, (bcacheSet c disk b src offset size).2,
      .done none)
  | _ => none

/-- Thread `t` takes one step. -/
def CacheSys.step (s : CacheSys) (t : Nat) : Option CacheSys :=
  (s.threads[t]?).bind fun th =>
    (threadStep s.cache s.disk th).map fun r => ⟨r.1, r.2.1, s.threads.set t ⟨th.op, r.2.2⟩⟩

/-- The threads take steps in the order of the schedule. -/
def CacheSys.run (s : CacheSys) : List Nat → Option CacheSys
  | [] => some s
  | t :: ts => (s.step t).bind fun s' => s'.run ts

/-- With nothing in between, the steps of a get are the call run as one step. -/
theorem threadStep_get_alone (c : BlockCache) (disk : Nat → List UInt8) (b : Nat) :
    ∃ c' pc, threadStep c disk ⟨.get b, .start⟩ = some (c', disk, pc) ∧
      (pc = .done (some (bcacheGet c disk b).2) ∧ c' = (bcacheGet c disk b).1 ∨
        pc = .read ∧ c' = c ∧
        threadStep c' disk ⟨.get b, .read⟩ = some (c, disk, .install (disk b)) ∧
        threadStep c disk ⟨.get b, .install (disk b)⟩ =
          some ((bcacheGet c disk b).1, disk, .done (some (bcacheGet c disk b).2))) := by
  unfold bcacheGet
  cases hl : bcacheLookup c b with
  | some r => exact ⟨_, _, by simp [threadStep, hl], .inl ⟨rfl, rfl⟩⟩
  | none => exact ⟨_, _, by simp [threadStep, hl], .inr ⟨rfl, rfl, rfl, rfl⟩⟩

/-- An install for a block that a line other than the victim already holds leaves the block
on two lines. -/
theorem installBlock_tags_twice {c : BlockCache} {b : Nat} {r : Fin bcacheSize}
    (hr : c.tags r = b) (hv : r ≠ victim c.ages) (data : List UInt8) :
    (c.installBlock b data).tags r = b ∧ (c.installBlock b data).tags (victim c.ages) = b := by
  simp [Function.update_of_ne hv, hr]

/-- From a fresh cache over a disk of zero blocks: a get of block 5 misses and reads it, a
full write of ones to block 5 installs them in line 31 and on the disk, and the get then
installs the zeros it read in line 30. Block 5 is on two lines, and line 30 differs from the
disk with no set in progress. After 31 writes of other blocks evict line 31, a get of block 5
that starts after the write returned hits line 30 and returns the zeros. -/
theorem bcache_install_races_set :
    let s : CacheSys := ⟨bcacheInit 1024 (fun _ => List.replicate 1024 0),
      fun _ => List.replicate 1024 0,
      [⟨.get 5, .start⟩, ⟨.set 5 (List.replicate 1024 1) 0 1024, .start⟩] ++
        (List.range' 100 31).map (fun b => ⟨.set b (List.replicate 1024 1) 0 1024, .start⟩) ++
        [⟨.get 5, .start⟩]⟩
    (s.run [0, 0, 1, 0]).map (fun s' => (s'.cache.tags 30, s'.cache.tags 31,
        decide (s'.cache.lines 30 = s'.disk 5), (s'.threads.take 2).map CacheThread.pc)) =
      some (5, 5, false, [.done (some (List.replicate 1024 0)), .done none]) ∧
    (s.run ([0, 0, 1, 0] ++ List.range' 2 31 ++ [33])).map (fun s' =>
        (decide (s'.disk 5 = List.replicate 1024 1), (s'.threads.map CacheThread.pc)[33]?)) =
      some (true, some (.done (some (List.replicate 1024 0)))) := by
  decide +kernel

end DioptaseOS.Ext2
