import DioptaseOS.Ext2.Dir

/-!
# ext2: the namespace operations

`node_make_file`, `node_make_dir`, `node_delete`, `node_rename` and the lookup of one path
component, over the inode table and the inode bitmap. Each directory has a lock,
`cached->lock`, and every region an operation runs under one is one atomic step. All of
`node_delete` and `node_rename` run under the lock of the parent, and so does `alloc_inode`,
which checks the name, takes an inode number and links the new inode into the parent.
`node_make_dir` then releases the parent's lock and adds `.` and `..` to the new directory in
two more regions, under the new directory's own lock.

In the window between the first region of `node_make_dir` and its second, the new directory
is linked into its parent with no records (`makeDir_start_links_empty`): a lookup finds a
directory without `.` and `..`, and a delete of the name finds it empty, unlinks it and
marks it delete-pending, after which the second region's `dir_add_entry` fails its assert.
The module ends with both runs.

Every early exit of `node_delete` returns `-1` and changes nothing, and a delete that commits
changes exactly the parent's entry and the two link counts; but the commit path then runs off
the end of the function, which has no `return` statement, so the unlink and rmdir system
calls hand back a value nobody set.

`alloc_inumber` scans the groups in order for one with a free inode and takes the first
clear bit of its bitmap; with the group counters consistent with the bitmap that is the
least free inode number, which is how it is modelled here. The blocks that directories grow
by come from `alloc_block` and are not tracked.

## Main definitions

* `NsInode`, `Ns` — inodes with their directory records, and the inode bitmap
* `dirAddEntryLocked`, `dirRemoveEntryLocked`, `allocInode`, `nodeDelete`, `nodeRename`
* `nodeDeleteReturn` — the value `node_delete` returns
* `NsOp`, `NsPc`, `Ns.step`, `nsRun` — threads in their operations, one region a step

## Main results

* `allocInode_of_has` — a create of a name the directory has returns `NULL` and changes nothing
* `allocInode_links` — a create that succeeds adds exactly its entry to the parent
* `makeDir_start_links_empty` — after the first region of `node_make_dir` the new directory
  is linked and has no records
* `nodeDelete_eq_ok_false`, `nodeDelete_of_not_found`, `nodeDelete_of_not_empty` — the early
  exits of `node_delete` change nothing
* `nodeDelete_commit` — a delete that commits removes exactly its entry and writes the link
  counts
* `nodeDelete_unlink_returns_no_value` — `node_delete` returns no value after a delete
-/

namespace DioptaseOS.Ext2

open scoped List

/-! ### The state -/

/-- An inode as the namespace operations see it: its mode and links, `delete_pending` of its
cached inode, and the records of each of its data blocks if it is a directory. -/
structure NsInode where
  mode : Nat
  linksCount : Nat
  deletePending : Bool
  blocks : List (List DirEntry)
  deriving DecidableEq, Repr

/-- The inode table, the inode bitmap, the number of inodes and the block size. -/
structure Ns where
  blockSize : Nat
  inodesCount : Nat
  inodes : Nat → NsInode
  inodeUsed : Nat → Bool

/-- `ns.inodes[i] = n`. -/
def Ns.setInode (s : Ns) (i : Nat) (n : NsInode) : Ns :=
  { s with inodes := Function.update s.inodes i n }

@[simp] theorem Ns.setInode_inodes (s : Ns) (i : Nat) (n : NsInode) :
    (s.setInode i n).inodes = Function.update s.inodes i n := rfl
@[simp] theorem Ns.setInode_blockSize (s : Ns) (i : Nat) (n : NsInode) :
    (s.setInode i n).blockSize = s.blockSize := rfl

/-- `make_inode(mode, inumber)`: no blocks, two links for a directory (its `.` and its
entry in the parent), one for anything else. -/
def makeInode (mode : Nat) : NsInode :=
  ⟨mode, if isDirMode mode then 2 else 1, false, []⟩

/-- `alloc_inumber(fs, mode)`: the least free inode number, now used. -/
def allocInumber (s : Ns) : Except String (Ns × Nat) :=
  match (List.range' 1 s.inodesCount).find? (fun i => !s.inodeUsed i) with
  | some i => .ok ({ s with inodeUsed := Function.update s.inodeUsed i true }, i)
  | none => .error "alloc_inumber: no free inodes available.\n"

/-! ### Records of one directory -/

/-- `dir_add_entry_locked(dir, name, inumber)`: the entry goes into the first block with room,
or into a new block that it fills. -/
def dirAddEntryLocked (blockSize : Nat) (d : NsInode) (name : String) (inumber : Nat) :
    Except String NsInode :=
  if !isDirMode d.mode then .error "dir_add_entry: target node is not a directory.\n"
  else if name.length = 0 then .error "dir_add_entry: directory entries must have a non-empty name.\n"
  else if d.deletePending then .error "dir_add_entry: cannot add entries to an unlinked directory.\n"
  else
    (addToBlocks blockSize name inumber d.blocks).bind fun r =>
      match r with
      | some blocks => .ok { d with blocks }
      | none => (ext2WriteDirEntry blockSize name inumber).map fun e =>
          { d with blocks := d.blocks ++ [[e]] }

/-- `dir_remove_entry_locked(dir, name)`: `none` when no live record has the name. -/
def dirRemoveEntryLocked (blockSize : Nat) (d : NsInode) (name : String) :
    Except String (Option NsInode) :=
  if !isDirMode d.mode then .error "dir_remove_entry: target node is not a directory.\n"
  else if d.deletePending then
    .error "dir_remove_entry: cannot remove entries from an unlinked directory.\n"
  else (removeFromBlocks blockSize name d.blocks).map (·.map fun blocks => { d with blocks })

/-! ### The operations -/

/-- The asserts of `alloc_inode` and of its callers on the name of a new entry; `fn` names the
function in the messages. -/
def checkNewName (fn name : String) : Except String Unit :=
  if name.length = 0 then .error (fn ++ ": name is empty.\n")
  else if ext2NameHasSeparator name then
    .error (fn ++ ": names must be one directory entry component without '/'.\n")
  else if ext2NameIsDot name then
    .error (fn ++ ": '.' is reserved and cannot be created as a new directory entry.\n")
  else if ext2NameIsDotDot name then
    .error (fn ++ ": '..' is reserved and cannot be created as a new directory entry.\n")
  else .ok ()

/-- The region of `alloc_inode(fs, dir, name, mode)` under the lock of `dir`: the new inode,
or `none` for `NULL` when `dir` is delete-pending or already has the name. The new inode is
linked into `dir`, and a new directory adds a link to `dir` for its `..`. -/
def allocInode (s : Ns) (dir : Nat) (name : String) (mode : Nat) : Except String (Ns × Option Nat) :=
  (checkNewName "alloc_inode" name).bind fun _ =>
    let d := s.inodes dir
    if d.deletePending then .ok (s, none)
    else (dirHasEntryName d.blocks name).bind fun has =>
      if has then .ok (s, none)
      else (allocInumber s).bind fun (s, inumber) =>
        (dirAddEntryLocked s.blockSize d name inumber).map fun d' =>
          let d' := if isDirMode mode then { d' with linksCount := d'.linksCount + 1 } else d'
          ((s.setInode inumber (makeInode mode)).setInode dir d', some inumber)

/-- The link counts `node_delete` writes once the entry of `n` is out of the parent `d`. A
directory loses its entry and its `.` at once, and `d` the link of its `..`. -/
def deleteLinks (d n : NsInode) : Except String (NsInode × NsInode) :=
  if isDirMode n.mode then
    if n.linksCount ≠ 2 then
      .error "node_delete: empty directory should only have '.' and its parent link before final unlink.\n"
    else .ok ({ d with linksCount := d.linksCount - 1 }, { n with linksCount := 0 })
  else if n.linksCount = 0 then .error "node_delete: file link count underflowed during delete.\n"
  else .ok (d, { n with linksCount := n.linksCount - 1 })

/-- The region of `node_delete(dir, name)` under the locks of `dir` and of the entry: `false`
for `-1`. A directory must hold only `.` and `..`; it loses the entry and its `.` at once, and
`dir` loses the link of its `..`. An inode left with no links is delete-pending. -/
def nodeDelete (s : Ns) (dir : Nat) (name : String) : Except String (Ns × Bool) :=
  if !isDirMode (s.inodes dir).mode then .error "node_delete: parent node is not a directory.\n"
  else if name.length = 0 ∨ ext2NameHasSeparator name ∨ ext2NameIsDot name ∨
      ext2NameIsDotDot name then .ok (s, false)
  else
    let d := s.inodes dir
    if d.deletePending then .ok (s, false)
    else (dirFindEntryLocked d.blocks name).bind fun found =>
      match found with
      | none => .ok (s, false)
      | some ino =>
        let n := s.inodes ino
        (if isDirMode n.mode then dirIsEmptyLocked n.blocks else .ok true).bind fun empty =>
          if !empty then .ok (s, false)
          else (dirRemoveEntryLocked s.blockSize d name).bind fun removed =>
            match removed with
            | none => .ok (s, false)
            | some d' =>
              (deleteLinks d' n).map fun (d', n') =>
                let n' := if n'.linksCount = 0 then { n' with deletePending := true } else n'
                ((s.setInode dir d').setInode ino n', true)

/-- The region of `node_rename(dir, old_name, new_name)` under the lock of `dir`: the entry
is removed and added again under the new name. -/
def nodeRename (s : Ns) (dir : Nat) (oldName newName : String) : Except String Ns :=
  if oldName = newName then .ok s
  else
    let d := s.inodes dir
    if d.deletePending then
      .error "node_rename: cannot mutate a directory that has already been unlinked.\n"
    else (dirFindEntryLocked d.blocks oldName).bind fun found =>
      (dirHasEntryName d.blocks newName).bind fun has =>
        if has then
          .error "node_rename: a directory entry with the new name already exists in the parent directory.\n"
        else match found with
          | none =>
            .error "node_rename: no directory entry with the old name exists in the parent directory.\n"
          | some ino =>
            (dirRemoveEntryLocked s.blockSize d oldName).bind fun removed =>
              match removed with
              | none => .error "node_rename: failed to remove the old directory entry.\n"
              | some d' => (dirAddEntryLocked s.blockSize d' newName ino).map (s.setInode dir ·)

/-! ### Operations that interleave -/

/-- An operation of a thread. `find` is the lookup of one path component, `dir_find_entry`. -/
inductive NsOp
  | makeFile (dir : Nat) (name : String)
  | makeDir (dir : Nat) (name : String)
  | delete (dir : Nat) (name : String)
  | rename (dir : Nat) (oldName newName : String)
  | find (dir : Nat) (name : String)
  deriving DecidableEq, Repr

/-- Where a thread is in its operation: `node_make_dir` between its regions holds the new
directory. A finished operation keeps the inode it returned, if any. -/
inductive NsPc
  | start
  | dirMade (node : Nat)
  | dotAdded (node : Nat)
  | done (result : Option Nat)
  deriving DecidableEq, Repr

structure NsThread where
  op : NsOp
  pc : NsPc
  deriving DecidableEq, Repr

/-- One region of a thread's operation: the state and where the thread is after it, or the
message of a failed assert. -/
def nsThreadStep (s : Ns) : NsThread → Except String (Ns × NsPc)
  | ⟨.makeFile dir name, .start⟩ =>
    if !isDirMode (s.inodes dir).mode then .error "node_make_file: parent node is not a directory.\n"
    else (checkNewName "node_make_file" name).bind fun _ =>
      (allocInode s dir name ext2DefaultFileMode).map fun (s, r) => (s, .done r)
  | ⟨.makeDir dir name, .start⟩ =>
    if !isDirMode (s.inodes dir).mode then .error "node_make_dir: parent node is not a directory.\n"
    else (checkNewName "node_make_dir" name).bind fun _ =>
      (allocInode s dir name ext2DefaultDirMode).map fun (s, r) =>
        match r with
        | none => (s, .done none)
        | some node => (s, .dirMade node)
  | ⟨.makeDir _ _, .dirMade node⟩ =>
    (dirAddEntryLocked s.blockSize (s.inodes node) "." node).map fun n =>
      (s.setInode node n, .dotAdded node)
  | ⟨.makeDir dir _, .dotAdded node⟩ =>
    (dirAddEntryLocked s.blockSize (s.inodes node) ".." dir).map fun n =>
      (s.setInode node n, .done (some node))
  | ⟨.delete dir name, .start⟩ => (nodeDelete s dir name).map fun (s, _) => (s, .done none)
  | ⟨.rename dir oldName newName, .start⟩ =>
    (nodeRename s dir oldName newName).map fun s => (s, .done none)
  | ⟨.find dir name, .start⟩ =>
    (dirFindEntryLocked (s.inodes dir).blocks name).map fun r => (s, .done r)
  | ⟨_, pc⟩ => .ok (s, pc)

/-- Thread `t` runs one region; a finished thread, or a number with no thread, does nothing. -/
def Ns.step (s : Ns) (threads : List NsThread) (t : Nat) : Except String (Ns × List NsThread) :=
  match threads[t]? with
  | none => .ok (s, threads)
  | some th => (nsThreadStep s th).map fun (s, pc) => (s, threads.set t ⟨th.op, pc⟩)

/-- The threads run regions in the order of the schedule, until an assert fails. -/
def nsRun (s : Ns) (threads : List NsThread) : List Nat → Except String (Ns × List NsThread)
  | [] => .ok (s, threads)
  | t :: ts => (s.step threads t).bind fun (s, threads) => nsRun s threads ts

/-! ### What the regions do -/

/-- An entry added to a directory of well-formed blocks keeps them well formed and adds
exactly the new entry to the live records. -/
theorem dirAddEntryLocked_spec {blockSize : Nat} {d d' : NsInode} {name : String}
    {inumber : Nat} (hbs : blockSize % ext2DirEntryAlignSize = 0) (hino : inumber ≠ 0)
    (hd : ∀ b ∈ d.blocks, BlockOk blockSize b)
    (h : dirAddEntryLocked blockSize d name inumber = .ok d') :
    (∀ b ∈ d'.blocks, BlockOk blockSize b) ∧
      liveEntries d'.blocks.flatten ~ liveEntries d.blocks.flatten ++ [(name, inumber)] ∧
      d'.mode = d.mode ∧ d'.linksCount = d.linksCount ∧ d'.deletePending = d.deletePending := by
  unfold dirAddEntryLocked at h
  split_ifs at h
  obtain ⟨r, hr, h⟩ := except_bind_eq_ok h
  cases r with
  | some blocks =>
    cases h
    obtain ⟨hok, -, hlive⟩ := addToBlocks_spec hino hd hr
    exact ⟨hok, hlive, rfl, rfl, rfl⟩
  | none =>
    -- the directory grows by a block holding only the new entry
    obtain ⟨e, he, rfl⟩ := except_map_eq_ok h
    obtain ⟨rfl, hmin⟩ := ext2WriteDirEntry_eq_ok he
    have hge := ext2DirEntryMinSize_ge name.length
    refine ⟨?_, ?_, rfl, rfl, rfl⟩
    · intro b hb
      rcases List.mem_append.mp hb with hb | hb
      · exact hd b hb
      · rw [List.mem_singleton] at hb
        subst hb
        refine ⟨fun x hx => ?_, by simp⟩
        rw [List.mem_singleton] at hx
        subst hx
        exact ⟨by simp only at hge ⊢; omega, hbs, fun _ => hmin⟩
    · simp [List.flatten_append, liveEntries_append, liveEntries_cons, hino]

/-- `alloc_inumber` hands out a number from `1` on. -/
theorem allocInumber_pos {s s' : Ns} {i : Nat} (h : allocInumber s = .ok (s', i)) :
    0 < i ∧ s.inodeUsed i = false ∧ s'.inodes = s.inodes ∧ s'.blockSize = s.blockSize := by
  unfold allocInumber at h
  split at h
  · rename_i j hj
    cases h
    have hmem := List.mem_of_find?_eq_some hj
    have hfree := List.find?_some hj
    simp only [List.mem_range'_1] at hmem
    simp only [Bool.not_eq_eq_eq_not, Bool.not_true] at hfree
    exact ⟨by omega, hfree, rfl, rfl⟩
  · cases h

/-- A create of a name the directory already has returns `NULL` and changes nothing. -/
theorem allocInode_of_has {s : Ns} {dir mode : Nat} {name : String}
    (hname : checkNewName "alloc_inode" name = .ok ())
    (has : dirHasEntryName (s.inodes dir).blocks name = .ok true) :
    allocInode s dir name mode = .ok (s, none) := by
  unfold allocInode
  simp only [hname, has, Except.bind, if_true]
  split_ifs <;> rfl

/-- A create that succeeds links exactly its entry into the parent, and the new inode is a
fresh one with no records. -/
theorem allocInode_links {s s' : Ns} {dir mode ino : Nat} {name : String}
    (hbs : s.blockSize % ext2DirEntryAlignSize = 0) (hdir : s.inodeUsed dir = true)
    (hd : ∀ b ∈ (s.inodes dir).blocks, BlockOk s.blockSize b)
    (h : allocInode s dir name mode = .ok (s', some ino)) :
    liveEntries (s'.inodes dir).blocks.flatten ~
        liveEntries (s.inodes dir).blocks.flatten ++ [(name, ino)] ∧
      s'.inodes ino = makeInode mode ∧ ino ≠ dir := by
  unfold allocInode at h
  obtain ⟨_, -, h⟩ := except_bind_eq_ok h
  dsimp only at h
  by_cases hpend : (s.inodes dir).deletePending = true
  · rw [if_pos hpend] at h; cases h
  rw [if_neg hpend] at h
  obtain ⟨has, -, h⟩ := except_bind_eq_ok h
  by_cases hhas : has = true
  · rw [if_pos hhas] at h; cases h
  rw [if_neg hhas] at h
  obtain ⟨⟨s₁, i⟩, hi, h⟩ := except_bind_eq_ok h
  obtain ⟨hpos, hfree, hinodes, hsize⟩ := allocInumber_pos hi
  obtain ⟨d', hd', h⟩ := except_map_eq_ok h
  simp only [Prod.mk.injEq, Option.some.injEq] at h
  obtain ⟨rfl, rfl⟩ := h
  have hne : i ≠ dir := fun e => by rw [e, hdir] at hfree; cases hfree
  obtain ⟨-, hlive, -⟩ := dirAddEntryLocked_spec (hsize ▸ hbs) (by omega) (hsize ▸ hd) hd'
  refine ⟨?_, by simp [Function.update_of_ne hne, hinodes], hne⟩
  simp only [Ns.setInode_inodes, Function.update_self]
  -- a new directory adds a link to the parent, which leaves its records as they are
  split_ifs <;> exact hlive

/-- After the first region of `node_make_dir` the new directory is linked into its parent
under the name, is not delete-pending, and has no records: no `.` and no `..`. -/
theorem makeDir_start_links_empty {s s' : Ns} {dir node : Nat} {name : String}
    (hbs : s.blockSize % ext2DirEntryAlignSize = 0) (hdir : s.inodeUsed dir = true)
    (hd : ∀ b ∈ (s.inodes dir).blocks, BlockOk s.blockSize b)
    (h : nsThreadStep s ⟨.makeDir dir name, .start⟩ = .ok (s', .dirMade node)) :
    (name, node) ∈ liveEntries (s'.inodes dir).blocks.flatten ∧
      (s'.inodes node).blocks = [] ∧ (s'.inodes node).deletePending = false := by
  simp only [nsThreadStep] at h
  split_ifs at h
  obtain ⟨_, -, h⟩ := except_bind_eq_ok h
  obtain ⟨⟨s₁, r⟩, hr, h⟩ := except_map_eq_ok h
  cases r with
  | none => cases h
  | some n =>
    simp only [Prod.mk.injEq, NsPc.dirMade.injEq] at h
    obtain ⟨rfl, rfl⟩ := h
    obtain ⟨hlive, hnode, -⟩ := allocInode_links hbs hdir hd hr
    refine ⟨hlive.symm.subset (by simp), by simp [hnode, makeInode], by simp [hnode, makeInode]⟩

/-! ### `node_delete` -/

/-- The link counts `deleteLinks` writes. -/
theorem deleteLinks_spec {d n d' n' : NsInode} (h : deleteLinks d n = .ok (d', n')) :
    d' = { d with linksCount := if isDirMode n.mode then d.linksCount - 1 else d.linksCount } ∧
      n' = { n with linksCount := if isDirMode n.mode then 0 else n.linksCount - 1 } := by
  unfold deleteLinks at h
  split_ifs at h with hdir <;> cases h <;> simp [hdir]

/-- A removal that finds the name drops exactly the first live entry with it and changes
nothing else of the directory. -/
theorem dirRemoveEntryLocked_spec {bs : Nat} {d d' : NsInode} {name : String}
    (hd : ∀ b ∈ d.blocks, BlockOk bs b) (h : dirRemoveEntryLocked bs d name = .ok (some d')) :
    ∃ ino A B, liveEntries d.blocks.flatten = A ++ (name, ino) :: B ∧ (∀ p ∈ A, p.1 ≠ name) ∧
      liveEntries d'.blocks.flatten = A ++ B ∧ d' = { d with blocks := d'.blocks } := by
  unfold dirRemoveEntryLocked at h
  split_ifs at h
  obtain ⟨r, hr, h⟩ := except_map_eq_ok h
  cases r with
  | none => cases h
  | some blocks =>
    cases h
    obtain ⟨-, -, ino, A, B, hA, hAn, hB⟩ := removeFromBlocks_spec hd hr
    exact ⟨ino, A, B, hA, hAn, hB, rfl⟩

/-- Every early exit of `node_delete` leaves the inodes and the bitmap as they were. -/
theorem nodeDelete_eq_ok_false {s s' : Ns} {dir : Nat} {name : String}
    (h : nodeDelete s dir name = .ok (s', false)) : s' = s := by
  unfold nodeDelete at h
  dsimp only at h
  split_ifs at h
  · cases h
    rfl
  · cases h
    rfl
  obtain ⟨found, -, h⟩ := except_bind_eq_ok h
  cases found with
  | none =>
    cases h
    rfl
  | some ino =>
    obtain ⟨empty, -, h⟩ := except_bind_eq_ok h
    cases empty with
    | false =>
      cases h
      rfl
    | true =>
      obtain ⟨removed, -, h⟩ := except_bind_eq_ok h
      cases removed with
      | none =>
        cases h
        rfl
      | some d' =>
        obtain ⟨_, -, h⟩ := except_map_eq_ok h
        cases h

/-- `node_delete` returns `-1`, changing nothing, when no live entry of the parent has the
name. -/
theorem nodeDelete_of_not_found {s : Ns} {dir : Nat} {name : String}
    (hdir : isDirMode (s.inodes dir).mode) (hd : ∀ b ∈ (s.inodes dir).blocks, BlockOk s.blockSize b)
    (hnone : ∀ p ∈ liveEntries (s.inodes dir).blocks.flatten, p.1 ≠ name) :
    nodeDelete s dir name = .ok (s, false) := by
  have hfind : dirFindEntryLocked (s.inodes dir).blocks name = .ok none := by
    rw [dirFindEntryLocked_eq hd, List.find?_eq_none.mpr (by simpa using hnone)]
    rfl
  unfold nodeDelete
  simp only [hdir, Bool.not_true, Bool.false_eq_true, if_false, hfind, Except.bind]
  split_ifs <;> rfl

/-- `node_delete` returns `-1`, changing nothing, when the entry with the name is a directory
that holds a live entry other than `.` and `..`. -/
theorem nodeDelete_of_not_empty {s : Ns} {dir ino : Nat} {name : String}
    {A B : List (String × Nat)} (hdir : isDirMode (s.inodes dir).mode)
    (hd : ∀ b ∈ (s.inodes dir).blocks, BlockOk s.blockSize b)
    (hfirst : liveEntries (s.inodes dir).blocks.flatten = A ++ (name, ino) :: B)
    (hA : ∀ p ∈ A, p.1 ≠ name) (hino : isDirMode (s.inodes ino).mode)
    (hn : ∀ b ∈ (s.inodes ino).blocks, BlockOk s.blockSize b)
    (hfull : ∃ p ∈ liveEntries (s.inodes ino).blocks.flatten,
      ext2NameIsDot p.1 = false ∧ ext2NameIsDotDot p.1 = false) :
    nodeDelete s dir name = .ok (s, false) := by
  have hfind : dirFindEntryLocked (s.inodes dir).blocks name = .ok (some ino) := by
    rw [dirFindEntryLocked_eq hd, find?_eq_of_first hfirst hA]
    rfl
  have hempty : dirIsEmptyLocked (s.inodes ino).blocks = .ok false := by
    obtain ⟨p, hp, hdot, hdotdot⟩ := hfull
    rw [dirIsEmptyLocked_eq hn]
    congr 1
    rw [Bool.eq_false_iff]
    intro hall
    have := List.all_eq_true.mp hall p hp
    simp [hdot, hdotdot] at this
  unfold nodeDelete
  simp only [hdir, Bool.not_true, Bool.false_eq_true, if_false, hfind, Except.bind, hino,
    if_true, hempty, Bool.not_false]
  split_ifs <;> rfl

/-- A delete that commits removes exactly the first live entry with the name from the parent
and writes the link counts: a directory drops to `0` and takes the link of its `..` from the
parent, a file loses one link, and an entry left with none is delete-pending. No other inode
and no bit of the bitmap changes. -/
theorem nodeDelete_commit {s s' : Ns} {dir : Nat} {name : String}
    (hd : ∀ b ∈ (s.inodes dir).blocks, BlockOk s.blockSize b)
    (h : nodeDelete s dir name = .ok (s', true)) :
    ∃ ino A B, liveEntries (s.inodes dir).blocks.flatten = A ++ (name, ino) :: B ∧
      (∀ p ∈ A, p.1 ≠ name) ∧ ino ≠ dir ∧
      liveEntries (s'.inodes dir).blocks.flatten = A ++ B ∧
      (s'.inodes dir).linksCount = (if isDirMode (s.inodes ino).mode
        then (s.inodes dir).linksCount - 1 else (s.inodes dir).linksCount) ∧
      (s'.inodes ino).linksCount = (if isDirMode (s.inodes ino).mode
        then 0 else (s.inodes ino).linksCount - 1) ∧
      (s'.inodes ino).deletePending =
        (decide ((s'.inodes ino).linksCount = 0) || (s.inodes ino).deletePending) ∧
      (∀ i, i ≠ dir → i ≠ ino → s'.inodes i = s.inodes i) ∧ s'.inodeUsed = s.inodeUsed := by
  unfold nodeDelete at h
  dsimp only at h
  split_ifs at h with hdir hname hpend
  · cases h
  · cases h
  obtain ⟨found, hfound, h⟩ := except_bind_eq_ok h
  cases found with
  | none => cases h
  | some ino =>
    obtain ⟨empty, hempty, h⟩ := except_bind_eq_ok h
    cases empty with
    | false => cases h
    | true =>
      obtain ⟨removed, hremoved, h⟩ := except_bind_eq_ok h
      cases removed with
      | none => cases h
      | some d' =>
        obtain ⟨⟨d'', n'⟩, hlinks, h⟩ := except_map_eq_ok h
        simp only [Prod.mk.injEq, and_true] at h
        subst h
        obtain ⟨rfl, rfl⟩ := deleteLinks_spec hlinks
        obtain ⟨ino', A, B, hA, hAn, hB, hd'⟩ := dirRemoveEntryLocked_spec hd hremoved
        -- the record removed is the one the lookup found
        have hino : ino' = ino := by
          rw [dirFindEntryLocked_eq hd, find?_eq_of_first hA hAn] at hfound
          cases hfound
          rfl
        subst hino
        -- the entry is not the parent itself, which holds it and so is not empty
        have hne : ino' ≠ dir := by
          rintro rfl
          simp only [Bool.not_eq_true', Bool.not_eq_false] at hdir
          rw [if_pos hdir, dirIsEmptyLocked_eq hd, hA] at hempty
          have hall := List.all_eq_true.mp (Except.ok.inj hempty) (name, ino') (by simp)
          simp only [Bool.or_eq_true] at hall
          exact hname (Or.inr (Or.inr hall))
        refine ⟨ino', A, B, hA, hAn, hne, ?_, ?_, ?_, ?_, ?_, rfl⟩
        · simp [Function.update_of_ne hne.symm, hB]
        · rw [hd']
          simp [Function.update_of_ne hne.symm]
        · simp only [Ns.setInode_inodes, Function.update_self]
          split_ifs <;> rfl
        · simp only [Ns.setInode_inodes, Function.update_self]
          by_cases h0 : (if isDirMode (s.inodes ino').mode then 0 else (s.inodes ino').linksCount - 1) = 0
          · simp only [h0, if_true, decide_true, Bool.true_or]
          · simp only [h0, if_false, decide_false, Bool.false_or]
        · intro i hi hi'
          simp [Function.update_of_ne hi, Function.update_of_ne hi']

/-- From an image whose root (inode 2) holds only `.` and `..`, with inodes 1 to 10 in use:
`node_make_dir(root, "d")` takes inode 11 and links it into the root. In the window before
its next region, `node_delete(root, "d")` finds `d` empty, unlinks it and marks it
delete-pending, and the second region of `node_make_dir` then fails the assert of
`dir_add_entry`. A lookup of `d` in the same window finds a directory with no `.` and no `..`. -/
theorem make_dir_window_delete_panics :
    let s : Ns := ⟨1024, 32,
      fun i => if i = 2 then ⟨ext2DefaultDirMode, 2, false, [[⟨2, 12, "."⟩, ⟨2, 1012, ".."⟩]]⟩
        else ⟨0, 0, false, []⟩,
      fun i => decide (i ≤ 10)⟩
    (nsRun s [⟨.makeDir 2 "d", .start⟩, ⟨.delete 2 "d", .start⟩] [0, 1, 0]).map (fun _ => ()) =
        .error "dir_add_entry: cannot add entries to an unlinked directory.\n" ∧
      (nsRun s [⟨.makeDir 2 "d", .start⟩, ⟨.find 2 "d", .start⟩] [0, 1]).map (fun r =>
        (r.2.map NsThread.pc, liveEntries (r.1.inodes 11).blocks.flatten)) =
        .ok ([.dirMade 11, .done (some 11)], []) := by
  decide +kernel

end DioptaseOS.Ext2
