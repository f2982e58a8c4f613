import DioptaseOS.Ext2.BlockTree
import DioptaseOS.Ext2.Namespace
import DioptaseOS.Lib.RefCount

/-!
# ext2: the inode cache

`icache_get`, `icache_insert` and `icache_release`, the `Node` wrappers that hold their
references (`node_clone`, `node_free`, `node_destroy`), and the three callers that take and
drop references while they change the inodes: `alloc_inode`, `dir_find_entry` and
`node_delete`. Every operation runs whole, one after another.

The cache is a hash map from inode numbers to cached inodes, and the cached inodes are objects
on the heap, each with a reference count. Next to the code's state the model keeps two ghost
lists: the wrappers and lookups that hold a reference, one element for each, and the
references that were taken and then lost with the wrapper that held them. `dealloc_inode`
leaves a record of each run.

`node_delete` takes a reference on the entry through `dir_find_entry_locked` and gives it back
with `node_free` at the end, but its two late `return -1` (a directory that is not empty, a
record that `dir_remove_entry_locked` does not find) return without it: the wrapper is lost
and the cached inode keeps one reference that nobody can drop.

## Main definitions

* `CachedInode`, `Node`, `Fs` — the cached inodes, the wrappers, the state
* `Fs.icacheGet`, `Fs.icacheInsert`, `Fs.icacheRelease`, `Fs.deallocInode`
* `Fs.nodeClone`, `Fs.nodeDestroy`, `Fs.nodeFree`, `Fs.allocInode`, `Fs.nodeDelete`
* `IcacheOp`, `Fs.step`, `Fs.run` — the operations, one after another

What the operations keep, and the run of the lost reference, are in `Ext2.InodeCacheInv`.
-/

namespace DioptaseOS.Ext2

open Function RefCount

/-! ### The state -/

/-- `EXT2_ROOT_INO`. -/
def ext2RootIno : ℕ := 2

/-- A `struct CachedInode`: its inode number, the count of references to it, `delete_pending`
and its copy of the inode. -/
structure CachedInode where
  inumber : ℕ
  refcount : ℕ
  deletePending : Bool
  inode : Inode

/-- A `struct Node` wrapper, or a lookup that holds a reference: the address of its cached
inode, and whether it is `fs.root`. -/
structure Node where
  cached : ℕ
  root : Bool
  deriving DecidableEq, Repr

/-- One run of `dealloc_inode`: the cached inode it ran on, the inode number `dealloc_inumber`
freed and the blocks `node_dealloc_blocks` passed to `dealloc_block`. -/
structure Reclaim where
  cached : ℕ
  inumber : ℕ
  blocks : List ℕ
  deriving DecidableEq, Repr

/-- The file system as the inode cache sees it: the block size and number of inodes, the
pointer blocks `node_dealloc_blocks` walks, the inode table, the records of each directory,
the inode bitmap, the hash map of the cache, the cached inodes by address and the least
address `malloc` has not handed out; and the ghost lists of the wrappers, the lost
references and the runs of `dealloc_inode`. -/
structure Fs where
  blockSize : ℕ
  inodesCount : ℕ
  store : ℕ → List ℕ
  table : ℕ → Inode
  records : ℕ → List (List DirEntry)
  used : ℕ → Bool
  cache : ℕ → Option ℕ
  heap : ℕ → Option CachedInode
  next : ℕ
  nodes : List Node
  leaked : List ℕ
  reclaimed : List Reclaim

namespace Fs

/-! ### Writes to the state -/

/-- The cached inode at `p`, changed by `f`. -/
def mapCached (s : Fs) (p : ℕ) (f : CachedInode → CachedInode) : Fs :=
  { s with heap := update s.heap p ((s.heap p).map f) }

/-- The links of the inode cached at `p`. -/
def links (s : Fs) (p : ℕ) : ℕ := ((s.heap p).map (·.inode.linksCount)).getD 0

/-- `node_sync_inode`, which is `icache_set`: the inode cached at `p` goes to its slot of the
inode table. -/
def nodeSyncInode (s : Fs) (p : ℕ) : Fs :=
  match s.heap p with
  | some c => { s with table := update s.table c.inumber c.inode }
  | none => s

/-- A new wrapper, or a lookup, holds the reference on the cached inode at `p`. -/
def hold (s : Fs) (p : ℕ) (root : Bool) : Fs := { s with nodes := s.nodes ++ [⟨p, root⟩] }

/-- The last wrapper is lost with its reference. -/
def lose (s : Fs) : Fs :=
  { s with nodes := s.nodes.dropLast, leaked := s.leaked ++ (s.nodes.getLast?.map Node.cached).toList }

/-- The wrapper `nodes[k]` and its cached inode; `none` when there is no wrapper `k`. -/
def wrapper (s : Fs) (k : ℕ) : Option (Node × CachedInode) :=
  s.nodes[k]?.bind fun n => (s.heap n.cached).map (n, ·)

/-! ### The cache -/

/-- `icache_get(cache, inumber)`: on a hit one more reference on the cached inode; on a miss a
new cached inode with one reference, read from the inode table and published in the map. The
address of the cached inode comes back. -/
def icacheGet (s : Fs) (inumber : ℕ) : Fs × ℕ :=
  match s.cache inumber with
  | some p =>
    match s.heap p with
    | some c => ({ s with heap := update s.heap p (some { c with refcount := c.refcount + 1 }) }, p)
    -- the map only holds live cached inodes (`CacheOk.indexed`)
    | none => (s, p)
  | none =>
    ({ s with
        cache := update s.cache inumber (some s.next)
        heap := update s.heap s.next (some ⟨inumber, 1, false, s.table inumber⟩)
        next := s.next + 1 }, s.next)

/-- `make_inode(mode, inumber)`: one reference, not delete-pending, no blocks, and two links for
a directory (its `.` and its entry) and one for anything else. -/
def makeInode (mode inumber : ℕ) : CachedInode :=
  ⟨inumber, 1, false, ⟨mode, 0, if isDirMode mode then 2 else 1, 0, fun _ => 0⟩⟩

/-- `icache_insert(cache, cached)` for the cached inode `c` that `make_inode` put at the next
address. -/
def icacheInsert (s : Fs) (c : CachedInode) : Except String (Fs × ℕ) :=
  if (s.cache c.inumber).isSome then
    .error "icache_insert: attempted to insert duplicate cache entry.\n"
  else
    .ok ({ s with
        cache := update s.cache c.inumber (some s.next)
        heap := update s.heap s.next (some c)
        next := s.next + 1 }, s.next)

/-- `dealloc_inode` on the cached inode `c` at `p`: `node_dealloc_blocks` frees its blocks and
`dealloc_inumber` its inode number. The cleared inode is not written back; it goes with the
cached inode, which is freed next. -/
def deallocInode (s : Fs) (p : ℕ) (c : CachedInode) : Except String Fs :=
  if !c.deletePending then
    .error "dealloc_inode: inode must be pending delete before reclamation.\n"
  else if c.inode.linksCount ≠ 0 then
    .error "dealloc_inode: inode still has live directory links.\n"
  else
    (nodeDeallocBlocks (⟨(), s.store, c.inode, 0⟩ : TreeState Unit)).map fun r =>
      { s with
        used := update s.used c.inumber false
        reclaimed := s.reclaimed ++ [⟨p, c.inumber, r.1⟩] }

/-- `icache_release(cache, cached)` on the cached inode at `p`: one reference fewer. With the
last one the cached inode leaves the map, a delete-pending inode is reclaimed, and the cached
inode is freed. -/
def icacheRelease (s : Fs) (p : ℕ) : Except String Fs :=
  match s.heap p with
  -- a reference always points to a live cached inode (`CacheOk.counted`)
  | none => .ok s
  | some c =>
    if c.refcount = 0 then
      .error "icache_release: attempted to release an inode cache entry with refcount 0.\n"
    else if c.refcount - 1 = 0 then
      let s' := { s with cache := update s.cache c.inumber none }
      (if c.deletePending then s'.deallocInode p c else .ok s').map fun s =>
        { s with heap := update s.heap p none }
    else .ok { s with heap := update s.heap p (some { c with refcount := c.refcount - 1 }) }

/-! ### Wrappers -/

/-- `node_clone(nodes[k])`: a copy of the wrapper, never `fs.root`, and one more reference on
its cached inode; `NULL` gives `NULL`. -/
def nodeClone (s : Fs) (k : ℕ) : Fs :=
  match s.wrapper k with
  | none => s
  | some (n, c) =>
    { s with
      heap := update s.heap n.cached (some { c with refcount := c.refcount + 1 })
      nodes := s.nodes ++ [⟨n.cached, false⟩] }

/-- `node_destroy(nodes[k])`: the wrapper's reference is released. -/
def nodeDestroy (s : Fs) (k : ℕ) : Except String Fs :=
  match s.nodes[k]? with
  | none => .ok s
  | some n => icacheRelease { s with nodes := s.nodes.eraseIdx k } n.cached

/-- `node_free(nodes[k])`: `node_destroy` and `free`, except for `NULL` and `fs.root`. -/
def nodeFree (s : Fs) (k : ℕ) : Except String Fs :=
  match s.nodes[k]? with
  | none => .ok s
  | some n => if n.root then .ok s else s.nodeDestroy k

/-- `ext2_init` once the superblock is read: `icache_get` of the root inode into `fs.root`. -/
def ext2Init (s : Fs) : Except String Fs :=
  match s.icacheGet ext2RootIno with
  | (s, p) =>
    match s.heap p with
    | none => .ok s
    | some c =>
      if isDirMode c.inode.mode then .ok (s.hold p true)
      else .error "ext2_init: root inode is not a directory.\n"

/-! ### Directories -/

/-- The directory cached as `d` as `dir_add_entry_locked` and `dir_remove_entry_locked` see
it. -/
def dirView (s : Fs) (d : CachedInode) : NsInode :=
  ⟨d.inode.mode, d.inode.linksCount, d.deletePending, s.records d.inumber⟩

/-- The records of the directory with inode number `i` are `blocks`. -/
def setRecords (s : Fs) (i : ℕ) (blocks : List (List DirEntry)) : Fs :=
  { s with records := update s.records i blocks }

/-- `dir_find_entry_locked(dir, name)` on the directory cached as `d`: `icache_get` on the inode
of the first live record with the name, held by a new wrapper; `none` for `NULL`. -/
def dirFindEntryLocked (s : Fs) (d : CachedInode) (name : String) :
    Except String (Option Fs) :=
  if !isDirMode d.inode.mode then .error "dir_find_entry: target node is not a directory.\n"
  else (Ext2.dirFindEntryLocked (s.records d.inumber) name).map fun r =>
    r.map fun i => match s.icacheGet i with
      | (s, p) => s.hold p false

/-- `alloc_inumber(fs, mode)`: the least free inode number, now used (as `allocInumber`). -/
def allocInumber (s : Fs) : Except String (Fs × ℕ) :=
  match (List.range' 1 s.inodesCount).find? (fun i => !s.used i) with
  | some i => .ok ({ s with used := update s.used i true }, i)
  | none => .error "alloc_inumber: no free inodes available.\n"

/-- `alloc_inode(fs, nodes[k], name, mode)`: the index of the new inode's wrapper, or `none` for
`NULL` when the directory is delete-pending or has the name. The new cached inode is
published with `icache_insert` before its record goes into the directory; a new directory
adds a link to the parent for its `..`. -/
def allocInode (s : Fs) (k : ℕ) (name : String) (mode : ℕ) : Except String (Fs × Option ℕ) :=
  match s.wrapper k with
  | none => .ok (s, none)
  | some (dn, d) =>
    (checkNewName "alloc_inode" name).bind fun _ =>
      if d.deletePending then .ok (s, none)
      else (dirHasEntryName (s.records d.inumber) name).bind fun has =>
        if has then .ok (s, none)
        else s.allocInumber.bind fun (s, i) =>
          (s.icacheInsert (makeInode mode i)).bind fun (s, p) =>
            let s := (s.hold p false).setRecords i []
            (dirAddEntryLocked s.blockSize (s.dirView d) name i).map fun d' =>
              let s := s.setRecords d.inumber d'.blocks
              let s := if isDirMode mode then
                  (s.mapCached dn.cached fun c =>
                    { c with inode := { c.inode with linksCount := c.inode.linksCount + 1 } }).nodeSyncInode
                    dn.cached
                else s
              (s.nodeSyncInode p, some (s.nodes.length - 1))

/-- The link counts `node_delete` writes once the record is out of the directory at `pd`, for
the entry at `pn` (which may be the same cached inode): a directory loses its record and its
`.` at once and the parent the link of its `..`, written back at once; an entry left with no
links is delete-pending, and it is written back. -/
def unlinkCounts (s : Fs) (pd pn : ℕ) (isDir : Bool) : Except String Fs :=
  let unlinked : Except String Fs := if isDir then
    let s := (s.mapCached pd fun c =>
      { c with inode := { c.inode with linksCount := c.inode.linksCount - 1 } }).nodeSyncInode pd
    if s.links pn ≠ 2 then
      .error "node_delete: empty directory should only have '.' and its parent link before final unlink.\n"
    else .ok (s.mapCached pn fun c => { c with inode := { c.inode with linksCount := 0 } })
  else if s.links pn = 0 then .error "node_delete: file link count underflowed during delete.\n"
  else .ok (s.mapCached pn fun c =>
    { c with inode := { c.inode with linksCount := c.inode.linksCount - 1 } })
  unlinked.map fun s =>
    (if s.links pn = 0 then s.mapCached pn fun c => { c with deletePending := true } else s).nodeSyncInode
      pn

/-- `node_delete` once `dir_find_entry_locked` has put the entry's wrapper last: a directory
must be empty and the record must be removed, or the call returns `-1` without the wrapper's
`node_free`; otherwise the link counts change and the wrapper is freed. -/
def deleteFound (s : Fs) (pd : ℕ) (d : CachedInode) (name : String) :
    Except String (Fs × Bool) :=
  match s.wrapper (s.nodes.length - 1) with
  -- `dir_find_entry_locked` has just put a wrapper there
  | none => .ok (s, false)
  | some (nn, n) =>
    (if isDirMode n.inode.mode then dirIsEmptyLocked (s.records n.inumber) else .ok true).bind
      fun empty =>
        if !empty then .ok (s.lose, false)
        else (dirRemoveEntryLocked s.blockSize (s.dirView d) name).bind fun removed =>
          match removed with
          | none => .ok (s.lose, false)
          | some d' =>
            ((s.setRecords d.inumber d'.blocks).unlinkCounts pd nn.cached
              (isDirMode n.inode.mode)).bind fun s =>
              (s.nodeFree (s.nodes.length - 1)).map (·, true)

/-- `node_delete(nodes[k], name)`: `false` for `-1`. -/
def nodeDelete (s : Fs) (k : ℕ) (name : String) : Except String (Fs × Bool) :=
  match s.wrapper k with
  | none => .ok (s, false)
  | some (dn, d) =>
    if !isDirMode d.inode.mode then .error "node_delete: parent node is not a directory.\n"
    else if name.length = 0 ∨ ext2NameHasSeparator name ∨ ext2NameIsDot name ∨
        ext2NameIsDotDot name then .ok (s, false)
    else if d.deletePending then .ok (s, false)
    else (s.dirFindEntryLocked d name).bind fun found =>
      match found with
      | none => .ok (s, false)
      | some s => s.deleteFound dn.cached d name

end Fs

/-! ### Operations -/

/-- An operation on the cache. `get` is an `icache_get` whose caller keeps the reference (a
lookup such as `write_dirent`'s, or a wrapper it makes); the others name a wrapper by its
index in `nodes`. -/
inductive IcacheOp
  | mount
  | get (inumber : ℕ)
  | find (dir : ℕ) (name : String)
  | create (dir : ℕ) (name : String) (mode : ℕ)
  | clone (node : ℕ)
  | free (node : ℕ)
  | destroy (node : ℕ)
  | delete (dir : ℕ) (name : String)
  deriving DecidableEq, Repr

namespace Fs

/-- One operation, or the message of a failed assert. -/
def step (s : Fs) : IcacheOp → Except String Fs
  | .mount => s.ext2Init
  | .get i => match s.icacheGet i with
    | (s, p) => .ok (s.hold p false)
  | .find k name => match s.wrapper k with
    | none => .ok s
    | some (_, d) => (s.dirFindEntryLocked d name).map (·.getD s)
  | .create k name mode => (s.allocInode k name mode).map (·.1)
  | .clone k => .ok (s.nodeClone k)
  | .free k => s.nodeFree k
  | .destroy k => s.nodeDestroy k
  | .delete k name => (s.nodeDelete k name).map (·.1)

/-- The operations one after another, until an assert fails. -/
def run (s : Fs) : List IcacheOp → Except String Fs
  | [] => .ok s
  | op :: ops => (s.step op).bind fun s => s.run ops

end Fs

end DioptaseOS.Ext2
