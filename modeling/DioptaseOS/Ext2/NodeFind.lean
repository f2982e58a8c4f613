import DioptaseOS.Ext2.Namespace

/-!
# ext2: path resolution

`node_find(dir, name)` walks a path one component at a time. It keeps two wrappers, `dir`
and `parent`, each with a flag saying whether the walk owns it (and must `node_free` it) or
borrowed it from the caller. A directory consumes one component through `dir_find_entry`,
which `icache_get`s the entry behind a new wrapper. Anything else is taken for a symlink: its
target is put in front of the rest of the path, and the walk restarts from a new wrapper of
the root (an absolute target), from a new wrapper of the symlink's directory (the caller's
own node was the symlink), or from `parent`. After more than 100 symlinks the walk returns
`NULL`.

The components wait in a ring buffer of 1024 slots, one of them kept empty, whose overflow
is an assert.

The wrappers are told apart by an `id`, as the code tells them apart by their address, and
the walk records each `icache_get` behind a new wrapper and each `node_free` as a
`RefEvent`.

A regular file in the middle of a path is taken for a symlink: `node_get_symlink_target`
asserts that it is one, and the kernel panics where a `NULL` was due.

## Main definitions

* `FindFs`, `FindNode`, `RefEvent` — what the walk reads, its wrappers, what it does to the
  inode cache
* `ext2ExpandPath`, `ext2PrependPath`, `ext2EnterDir`, `ext2ExpandSymlink` — its steps
* `findLoop`, `nodeFind` — the walk
* `WalkOk` — the invariant of the loop: the references the walk holds are those on the
  wrappers it owns
* `RefsBalanced` — what `node_find` promises its caller about the inode cache

## Main results

* `WalkOk.dirStep`, `WalkOk.symlinkStep` — each iteration keeps the invariant
* `findLoop_refsBalanced` — a run of the loop from a state that keeps it leaves the references
  balanced
* `nodeFind_refsBalanced` — `node_find` leaves one reference on the node it returns, none on
  any other wrapper, and never frees the caller's
* `nodeFind_file_component_panics` — `node_find(root, "f/x")` for a regular file `f` panics
-/

namespace DioptaseOS.Ext2

/-! ### The state -/

/-- `EXT2_BAD_INO`: the parent inode number of a wrapper that records none. -/
def ext2BadIno : Nat := 1

/-- A wrapper `struct Node`: `id` tells wrappers apart as their addresses do. -/
structure FindNode where
  id : Nat
  inumber : Nat
  parentInumber : Nat
  deriving DecidableEq, Repr

/-- What `node_find` reads of the file system: the mode and the records of each inode, the
target `node_get_symlink_target` reads from each symlink, and the wrapper `fs->root`. -/
structure FindFs where
  inodes : Nat → NsInode
  symlinkTarget : Nat → String
  root : FindNode

/-- What the walk does to the inode cache: an `icache_get` behind a new wrapper, or the
`node_free` of a wrapper, which releases its reference. -/
inductive RefEvent
  | get (w : FindNode)
  | free (w : FindNode)
  deriving DecidableEq, Repr

/-- `ext2_release_owned_node(node, owned)`. -/
def releaseOwned (w : FindNode) (owned : Bool) : List RefEvent :=
  if owned then [.free w] else []

/-! ### The steps -/

/-- The capacity the path's ring buffer is created with; one slot stays empty. -/
def pathCapacity : Nat := 1024

/-- The scan of `ext2_expand_path` over the characters of a name: the maximal runs of
characters other than `/`, in order. `run` holds the run being read, last character first. -/
def expandChars : List Char → List Char → List String
  | [], run => if run.isEmpty then [] else [String.ofList run.reverse]
  | c :: cs, run =>
    if c = '/' then
      if run.isEmpty then expandChars cs [] else String.ofList run.reverse :: expandChars cs []
    else expandChars cs (c :: run)

/-- `ext2_expand_path(fs, name, path)` into an empty buffer. -/
def ext2ExpandPath (name : String) : Except String (List String) :=
  let components := expandChars name.toList []
  if components.length < pathCapacity then .ok components
  else .error "ext2_expand_path: path buffer overflow.\n"

/-- `ext2_prepend_path(fs, path, target)`: the components of `target`, then the rest of the
path. -/
def ext2PrependPath (path : List String) (target : String) : Except String (List String) :=
  (ext2ExpandPath target).bind fun components =>
    if components.length + path.length < pathCapacity then .ok (components ++ path)
    else .error "ext2_prepend_path: path buffer overflow.\n"

/-- A new wrapper, with id `fresh`, of a directory that a walk restarts from; `msg` is the
assert that it is a directory. -/
def openDirWrapper (fs : FindFs) (fresh inumber : Nat) (msg : String) : Except String FindNode :=
  if isDirMode (fs.inodes inumber).mode then .ok ⟨fresh, inumber, ext2BadIno⟩ else .error msg

/-- `ext2_open_root_dir(fs)`. -/
def ext2OpenRootDir (fs : FindFs) (fresh : Nat) : Except String FindNode :=
  openDirWrapper fs fresh fs.root.inumber "ext2_open_root_dir: root inode is not a directory.\n"

/-- `ext2_open_parent_dir(node)`. -/
def ext2OpenParentDir (fs : FindFs) (node : FindNode) (fresh : Nat) : Except String FindNode :=
  openDirWrapper fs fresh node.parentInumber
    "ext2_open_parent_dir: symlink parent inode is not a directory.\n"

/-- `ext2_enter_dir(fs, dir, path)` once the component `name` is taken off the path:
`dir_find_entry`, which wraps the entry it finds in a new wrapper with id `fresh`. -/
def ext2EnterDir (fs : FindFs) (dir : FindNode) (name : String) (fresh : Nat) :
    Except String (Option FindNode) :=
  if !isDirMode (fs.inodes dir.inumber).mode then
    .error "dir_find_entry: target node is not a directory.\n"
  else (dirFindEntryLocked (fs.inodes dir.inumber).blocks name).map
    (·.map fun ino => ⟨fresh, ino, dir.inumber⟩)

/-- `ext2_expand_symlink(fs, parent, dir, path)`: the node the walk restarts from and the new
path. A new wrapper gets the id `fresh`. -/
def ext2ExpandSymlink (fs : FindFs) (parent dir : FindNode) (path : List String) (fresh : Nat) :
    Except String (FindNode × List String) :=
  -- `node_get_symlink_target`
  if !isSymlinkMode (fs.inodes dir.inumber).mode then
    .error "node_get_symlink_target: node is not a symlink.\n"
  else
    let target := fs.symlinkTarget dir.inumber
    (ext2PrependPath path target).bind fun path =>
      if target.startsWith "/" then (ext2OpenRootDir fs fresh).map (·, path)
      -- the walk started from the symlink itself, whose directory has no wrapper yet
      else if parent.id = dir.id then (ext2OpenParentDir fs dir fresh).map (·, path)
      else .ok (parent, path)

/-! ### The walk -/

/-- The variables of the loop of `node_find`: `dir` and `parent` with their ownership flags,
the components still to resolve, the symlinks followed, the next wrapper id and what the walk
has done to the inode cache. -/
structure FindWalk where
  dir : Option FindNode
  dirOwned : Bool
  parent : FindNode
  parentOwned : Bool
  path : List String
  follows : Nat
  fresh : Nat
  events : List RefEvent

/-- The loop of `node_find`: the node it returns, or `none` for `NULL`, and what it did to the
inode cache. A directory step takes one component off the path; a symlink step may add
components but counts one more follow, and the walk stops after 101. -/
def findLoop (fs : FindFs) (w : FindWalk) : Except String (Option FindNode × List RefEvent) :=
  match _hpath : w.path with
  | [] =>
    .ok (w.dir, w.events ++ if some w.parent ≠ w.dir then releaseOwned w.parent w.parentOwned else [])
  | name :: rest =>
    match w.dir with
    | none => .ok (none, w.events ++ releaseOwned w.parent w.parentOwned)
    | some dir =>
      if _hf : 100 < w.follows then
        .ok (none, w.events ++ (if w.parent.id ≠ dir.id then releaseOwned w.parent w.parentOwned
          else []) ++ releaseOwned dir w.dirOwned)
      else if isDirMode (fs.inodes dir.inumber).mode then
        -- the entry becomes `dir` and `dir` becomes `parent`
        (ext2EnterDir fs dir name w.fresh).bind fun next =>
          findLoop fs
            { dir := next, dirOwned := next.isSome, parent := dir, parentOwned := w.dirOwned,
              path := rest, follows := w.follows,
              fresh := if next.isSome then w.fresh + 1 else w.fresh,
              events := w.events ++ (next.map fun n => [RefEvent.get n]).getD [] ++
                if w.parent.id ≠ dir.id then releaseOwned w.parent w.parentOwned else [] }
      else
        (ext2ExpandSymlink fs w.parent dir w.path w.fresh).bind fun (tmp, path) =>
          -- `tmp` is `parent` or a new wrapper
          let opened := tmp.id ≠ w.parent.id
          let owned := if opened then true else w.parentOwned
          findLoop fs
            { dir := some tmp, dirOwned := owned, parent := tmp, parentOwned := owned, path,
              follows := w.follows + 1, fresh := if opened then w.fresh + 1 else w.fresh,
              events := w.events ++ (if opened then [RefEvent.get tmp] else []) ++
                (if dir.id ≠ tmp.id then releaseOwned dir w.dirOwned else []) ++
                if w.parent.id ≠ dir.id ∧ w.parent.id ≠ tmp.id then
                  releaseOwned w.parent w.parentOwned else [] }
termination_by (101 - w.follows, w.path.length)
decreasing_by
  · exact Prod.Lex.right _ (by rw [_hpath]; simp)
  · exact Prod.Lex.left _ _ (by omega)

/-- `node_find(dir, name)` on a wrapper `dir` the caller holds. New wrappers get ids above
those of `dir` and of `fs->root`. -/
def nodeFind (fs : FindFs) (dir : FindNode) (name : String) :
    Except String (Option FindNode × List RefEvent) :=
  let mode := (fs.inodes dir.inumber).mode
  if !(isDirMode mode || isSymlinkMode mode) then .error "node_find: not a directory or symlink.\n"
  else
    let fresh := max dir.id fs.root.id + 1
    -- absolute paths, and paths from `fs->root`, start from a new wrapper of the root
    let start : Except String (FindNode × Bool × Nat × List RefEvent) :=
      if name.startsWith "/" ∨ dir.id = fs.root.id then
        (ext2OpenRootDir fs fresh).map fun r => (r, true, fresh + 1, [RefEvent.get r])
      else .ok (dir, false, fresh, [])
    start.bind fun (dir, dirOwned, fresh, events) =>
      (ext2ExpandPath name).bind fun path =>
        match path with
        | [] =>
          -- an empty path returns `dir`, in a new wrapper if the caller holds it
          if dirOwned then .ok (some dir, events)
          else
            let result : FindNode := ⟨fresh, dir.inumber, dir.parentInumber⟩
            .ok (some result, events ++ [.get result])
        | _ => findLoop fs ⟨some dir, dirOwned, dir, dirOwned, path, 0, fresh, events⟩

/-! ### One iteration -/

section Steps

variable {fs : FindFs} {w : FindWalk} {name : String} {rest : List String} {dir : FindNode}

theorem findLoop_of_nil (h : w.path = []) :
    findLoop fs w = .ok (w.dir,
      w.events ++ if some w.parent ≠ w.dir then releaseOwned w.parent w.parentOwned else []) := by
  rw [findLoop]
  split
  · rfl
  · simp_all

theorem findLoop_of_none (hp : w.path = name :: rest) (hd : w.dir = none) :
    findLoop fs w = .ok (none, w.events ++ releaseOwned w.parent w.parentOwned) := by
  rw [findLoop]
  split
  · simp_all
  · simp only [hd]

theorem findLoop_of_follows (hp : w.path = name :: rest) (hd : w.dir = some dir)
    (hf : 100 < w.follows) :
    findLoop fs w = .ok (none, w.events ++ (if w.parent.id ≠ dir.id then
      releaseOwned w.parent w.parentOwned else []) ++ releaseOwned dir w.dirOwned) := by
  rw [findLoop]
  split
  · simp_all
  · simp only [hd, dif_pos hf]

/-- A directory step: the entry named by the first component becomes `dir`. -/
theorem findLoop_of_dir (hp : w.path = name :: rest) (hd : w.dir = some dir)
    (hf : w.follows ≤ 100) (hdir : isDirMode (fs.inodes dir.inumber).mode = true) :
    findLoop fs w = (ext2EnterDir fs dir name w.fresh).bind fun next =>
      findLoop fs
        { dir := next, dirOwned := next.isSome, parent := dir, parentOwned := w.dirOwned,
          path := rest, follows := w.follows,
          fresh := if next.isSome then w.fresh + 1 else w.fresh,
          events := w.events ++ (next.map fun n => [RefEvent.get n]).getD [] ++
            if w.parent.id ≠ dir.id then releaseOwned w.parent w.parentOwned else [] } := by
  rw [findLoop]
  split
  · simp_all
  · rename_i name' rest' hp'
    obtain ⟨rfl, rfl⟩ : name = name' ∧ rest = rest' := by simpa [hp] using hp'
    simp only [hd, dif_neg (Nat.not_lt.mpr hf), hdir, if_true]

/-- A symlink step: the walk restarts from the node `ext2_expand_symlink` chooses. -/
theorem findLoop_of_symlink (hp : w.path = name :: rest) (hd : w.dir = some dir)
    (hf : w.follows ≤ 100) (hdir : isDirMode (fs.inodes dir.inumber).mode = false) :
    findLoop fs w = (ext2ExpandSymlink fs w.parent dir w.path w.fresh).bind fun (tmp, path) =>
      let opened := tmp.id ≠ w.parent.id
      let owned := if opened then true else w.parentOwned
      findLoop fs
        { dir := some tmp, dirOwned := owned, parent := tmp, parentOwned := owned, path,
          follows := w.follows + 1, fresh := if opened then w.fresh + 1 else w.fresh,
          events := w.events ++ (if opened then [RefEvent.get tmp] else []) ++
            (if dir.id ≠ tmp.id then releaseOwned dir w.dirOwned else []) ++
            if w.parent.id ≠ dir.id ∧ w.parent.id ≠ tmp.id then
              releaseOwned w.parent w.parentOwned else [] } := by
  rw [findLoop]
  split
  · simp_all
  · simp only [hd, dif_neg (Nat.not_lt.mpr hf), hdir, Bool.false_eq_true, if_false]

end Steps

/-! ### References -/

/-- The wrapper an event is about. -/
def RefEvent.node : RefEvent → FindNode
  | .get w => w
  | .free w => w

/-- The references the events leave on the wrapper `x`: its `icache_get`s less its
`node_free`s. -/
def netRefs (evs : List RefEvent) (x : FindNode) : Int :=
  (evs.count (.get x) : Int) - evs.count (.free x)

section NetRefs

variable {x y : FindNode}

@[simp] theorem netRefs_nil : netRefs [] x = 0 := rfl

@[simp] theorem netRefs_append (a b : List RefEvent) :
    netRefs (a ++ b) x = netRefs a x + netRefs b x := by
  simp only [netRefs, List.count_append]
  omega

@[simp] theorem netRefs_get : netRefs [.get y] x = if x = y then 1 else 0 := by
  by_cases h : x = y <;> simp [netRefs, h, eq_comm]

@[simp] theorem netRefs_free : netRefs [.free y] x = if x = y then -1 else 0 := by
  by_cases h : x = y <;> simp [netRefs, h, eq_comm]

@[simp] theorem netRefs_releaseOwned (owned : Bool) :
    netRefs (releaseOwned y owned) x = if x = y ∧ owned = true then -1 else 0 := by
  cases owned <;> simp [releaseOwned]

theorem node_of_mem_releaseOwned {e : RefEvent} {y : FindNode} {owned : Bool}
    (h : e ∈ releaseOwned y owned) : e.node = y := by
  cases owned
  · cases h
  · rw [releaseOwned, if_pos rfl, List.mem_singleton] at h
    rw [h, RefEvent.node]

end NetRefs

section Ledger

variable {evs : List RefEvent} {P : FindNode → Prop} [DecidablePred P]

theorem netRefs_append_getD (h : ∀ x, netRefs evs x = if P x then 1 else 0) {next : Option FindNode}
    (hn : ∀ n, next = some n → ¬P n) (x : FindNode) :
    netRefs (evs ++ (next.map fun n => [RefEvent.get n]).getD []) x =
      if P x ∨ next = some x then 1 else 0 := by
  rw [netRefs_append, h]
  cases next with
  | none => simp
  | some n =>
    have := hn n rfl
    by_cases hx : x = n
    · subst hx
      simp [this]
    · by_cases hp : P x <;> simp [hp, hx, Ne.symm hx]

theorem netRefs_append_get (h : ∀ x, netRefs evs x = if P x then 1 else 0) {n : FindNode}
    (hn : ¬P n) (x : FindNode) :
    netRefs (evs ++ [.get n]) x = if P x ∨ x = n then 1 else 0 := by
  rw [netRefs_append, h, netRefs_get]
  by_cases hx : x = n
  · subst hx
    simp [hn]
  · by_cases hp : P x <;> simp [hp, hx]

theorem netRefs_append_release (h : ∀ x, netRefs evs x = if P x then 1 else 0) {y : FindNode}
    {owned : Bool} (hy : owned = true → P y) (x : FindNode) :
    netRefs (evs ++ releaseOwned y owned) x = if P x ∧ ¬(x = y ∧ owned = true) then 1 else 0 := by
  rw [netRefs_append, h, netRefs_releaseOwned]
  by_cases hx : x = y ∧ owned = true
  · obtain ⟨rfl, ho⟩ := hx
    simp [hy ho, ho]
  · by_cases hp : P x <;> simp [hp, hx]

theorem netRefs_congr {Q : FindNode → Prop} (h : ∀ x, netRefs evs x = if P x then 1 else 0)
    (hPQ : ∀ x, P x ↔ Q x) (x : FindNode) [Decidable (Q x)] :
    netRefs evs x = if Q x then 1 else 0 := by
  rw [h, if_congr (hPQ x) rfl rfl]

end Ledger


/-- The walk owns `x`: it is `dir` or `parent`, with its flag set. -/
def FindWalk.Owns (w : FindWalk) (x : FindNode) : Prop :=
  (w.dir = some x ∧ w.dirOwned = true) ∨ (w.parent = x ∧ w.parentOwned = true)

instance (w : FindWalk) (x : FindNode) : Decidable (w.Owns x) := by
  unfold FindWalk.Owns
  infer_instance

/-- What the walk keeps, for the wrapper `caller` the caller holds: the events leave one
reference on each wrapper the walk owns and none on any other; the walk never owns or frees
`caller`, and a wrapper it does not own is `caller`; `dir` and `parent` with one id are one
wrapper; every id in sight is below `fresh`. -/
structure WalkOk (caller : FindNode) (w : FindWalk) : Prop where
  net : ∀ x, netRefs w.events x = if w.Owns x then 1 else 0
  owns_ne : ∀ x, w.Owns x → x ≠ caller
  caller_free : w.events.count (.free caller) = 0
  dir_none : w.dir = none → w.dirOwned = false
  dir_borrowed : ∀ d, w.dir = some d → w.dirOwned = false → d = caller
  parent_borrowed : w.parentOwned = false → w.parent = caller
  same_id : ∀ d, w.dir = some d → d.id = w.parent.id → d = w.parent ∧ w.dirOwned = w.parentOwned
  caller_lt : caller.id < w.fresh
  parent_lt : w.parent.id < w.fresh
  dir_lt : ∀ d, w.dir = some d → d.id < w.fresh
  events_lt : ∀ e ∈ w.events, e.node.id < w.fresh

theorem ext2EnterDir_eq_ok {fs : FindFs} {dir n : FindNode} {name : String} {fresh : Nat}
    (h : ext2EnterDir fs dir name fresh = .ok (some n)) : n.id = fresh := by
  unfold ext2EnterDir at h
  split at h
  · cases h
  · obtain ⟨r, -, hr⟩ := except_map_eq_ok h
    obtain ⟨ino, -, rfl⟩ := Option.map_eq_some_iff.mp hr
    rfl


theorem openDirWrapper_id {fs : FindFs} {fresh i : Nat} {msg : String} {r : FindNode}
    (h : openDirWrapper fs fresh i msg = .ok r) : r.id = fresh := by
  unfold openDirWrapper at h
  split at h
  · cases h
    rfl
  · cases h

theorem ext2ExpandSymlink_eq_ok {fs : FindFs} {parent dir tmp : FindNode}
    {path path' : List String} {fresh : Nat}
    (h : ext2ExpandSymlink fs parent dir path fresh = .ok (tmp, path')) :
    (tmp = parent ∧ parent.id ≠ dir.id) ∨ tmp.id = fresh := by
  unfold ext2ExpandSymlink at h
  split at h
  · cases h
  obtain ⟨p, -, h⟩ := except_bind_eq_ok h
  split_ifs at h with habs hsame
  · obtain ⟨r, hr, hrt⟩ := except_map_eq_ok h
    cases hrt
    exact Or.inr (openDirWrapper_id hr)
  · obtain ⟨r, hr, hrt⟩ := except_map_eq_ok h
    cases hrt
    exact Or.inr (openDirWrapper_id hr)
  · cases h
    exact Or.inl ⟨rfl, hsame⟩

/-! ### The invariant along the walk -/

/-- Freeing a wrapper the walk owns never frees `caller`. -/
theorem WalkOk.count_free_releaseOwned {caller y : FindNode} {w : FindWalk} {owned : Bool}
    (hw : WalkOk caller w) (hy : owned = true → w.Owns y) :
    (releaseOwned y owned).count (.free caller) = 0 := by
  cases owned
  · rfl
  · have := hw.owns_ne y (hy rfl)
    simp [releaseOwned, this]

/-- A directory step keeps the invariant: the entry's new wrapper is owned, `dir` passes to
`parent` with its flag, and the old `parent` is freed unless it is `dir`. -/
theorem WalkOk.dirStep {caller : FindNode} {w : FindWalk} {dir : FindNode}
    {next : Option FindNode} {rest : List String} (hw : WalkOk caller w) (hd : w.dir = some dir)
    (hnext : ∀ n, next = some n → n.id = w.fresh) :
    WalkOk caller
      { dir := next, dirOwned := next.isSome, parent := dir, parentOwned := w.dirOwned,
        path := rest, follows := w.follows,
        fresh := if next.isSome then w.fresh + 1 else w.fresh,
        events := w.events ++ (next.map fun n => [RefEvent.get n]).getD [] ++
          if w.parent.id ≠ dir.id then releaseOwned w.parent w.parentOwned else [] } := by
  have hdlt := hw.dir_lt dir hd
  have hplt := hw.parent_lt
  -- the entry's new wrapper has an id no wrapper in sight has
  have hnew : ∀ n, next = some n → ¬w.Owns n := fun n hn hown => by
    have := hnext n hn
    rcases hown with ⟨hdn, -⟩ | ⟨hpn, -⟩
    · rw [hd, Option.some.injEq] at hdn
      subst hdn
      omega
    · subst hpn
      omega
  have hget := netRefs_append_getD hw.net hnew
  have hfree_caller : (if w.parent.id ≠ dir.id then releaseOwned w.parent w.parentOwned
      else []).count (.free caller) = 0 := by
    split
    · exact hw.count_free_releaseOwned fun ho => Or.inr ⟨rfl, ho⟩
    · rfl
  constructor
  · -- the references: the entry's wrapper is added, and `parent` leaves unless it is `dir`
    intro x
    dsimp only
    by_cases hpd : w.parent.id = dir.id
    · obtain ⟨hdp, hown⟩ := hw.same_id dir hd hpd.symm
      rw [if_neg (not_not.mpr hpd), List.append_nil]
      refine netRefs_congr hget ?_ x
      intro x
      simp only [FindWalk.Owns, hd, Option.some.injEq]
      rw [← hdp, ← hown, or_self]
      cases next <;> simp [or_comm]
    · rw [if_pos hpd]
      refine netRefs_congr (netRefs_append_release hget fun ho => Or.inl (Or.inr ⟨rfl, ho⟩)) ?_ x
      intro x
      simp only [FindWalk.Owns, hd, Option.some.injEq]
      constructor
      · rintro ⟨(⟨rfl, hdo⟩ | ⟨rfl, hpo⟩) | hn, hnot⟩
        · exact Or.inr ⟨rfl, hdo⟩
        · exact absurd ⟨rfl, hpo⟩ hnot
        · exact Or.inl ⟨hn, by simp [hn]⟩
      · rintro (⟨hn, -⟩ | ⟨rfl, hdo⟩)
        · refine ⟨Or.inr hn, fun ⟨hxp, _⟩ => ?_⟩
          have := hnext x hn
          subst hxp
          omega
        · exact ⟨Or.inl (Or.inl ⟨rfl, hdo⟩), fun ⟨hxp, _⟩ => hpd (hxp ▸ rfl)⟩
  · -- the walk owns only wrappers it made
    rintro x (⟨hn, -⟩ | ⟨rfl, hdo⟩)
    · have := hnext x hn
      have := hw.caller_lt
      rintro rfl
      omega
    · exact hw.owns_ne _ (Or.inl ⟨hd, hdo⟩)
  · -- nor does it free `caller`
    simp only [List.count_append, hw.caller_free, hfree_caller]
    cases next <;> simp
  · intro hn
    dsimp only at hn ⊢
    simp [hn]
  · intro d hn hf
    dsimp only at hn hf
    simp [hn] at hf
  · exact hw.dir_borrowed dir hd
  · intro d hn hid
    dsimp only at hn hid
    have := hnext d hn
    omega
  · have := hw.caller_lt
    dsimp only
    split <;> omega
  · dsimp only
    split <;> omega
  · intro d hn
    dsimp only at hn ⊢
    have := hnext d hn
    simp only [hn, Option.isSome_some, if_true]
    omega
  · intro e he
    dsimp only at he ⊢
    have hle : w.fresh ≤ if next.isSome then w.fresh + 1 else w.fresh := by
      split <;> omega
    simp only [List.mem_append] at he
    rcases he with (he | he) | he
    · exact lt_of_lt_of_le (hw.events_lt e he) hle
    · cases next with
      | none => simp at he
      | some n =>
        simp only [Option.map_some, Option.getD_some, List.mem_singleton] at he
        subst he
        simp [RefEvent.node, hnext n rfl]
    · split at he
      · rw [node_of_mem_releaseOwned he]
        exact lt_of_lt_of_le hplt hle
      · cases he

/-- A symlink step keeps the invariant: the walk restarts from `parent` with its flag, or from
a new wrapper it owns; `dir` is freed, and `parent` too unless the walk restarts from it. -/
theorem WalkOk.symlinkStep {caller : FindNode} {w : FindWalk} {dir tmp : FindNode}
    {path : List String} (hw : WalkOk caller w) (hd : w.dir = some dir)
    (htmp : (tmp = w.parent ∧ w.parent.id ≠ dir.id) ∨ tmp.id = w.fresh) :
    WalkOk caller
      { dir := some tmp, dirOwned := if tmp.id ≠ w.parent.id then true else w.parentOwned,
        parent := tmp, parentOwned := if tmp.id ≠ w.parent.id then true else w.parentOwned,
        path, follows := w.follows + 1,
        fresh := if tmp.id ≠ w.parent.id then w.fresh + 1 else w.fresh,
        events := w.events ++ (if tmp.id ≠ w.parent.id then [RefEvent.get tmp] else []) ++
          (if dir.id ≠ tmp.id then releaseOwned dir w.dirOwned else []) ++
          if w.parent.id ≠ dir.id ∧ w.parent.id ≠ tmp.id then
            releaseOwned w.parent w.parentOwned else [] } := by
  have hdlt := hw.dir_lt dir hd
  have hplt := hw.parent_lt
  have hown_dir : w.dirOwned = true → w.Owns dir := fun ho => Or.inl ⟨hd, ho⟩
  rcases htmp with ⟨rfl, hpd⟩ | hfresh
  · -- the walk restarts from `parent`: nothing is opened, and only `dir` is freed
    have hdp : dir.id ≠ w.parent.id := Ne.symm hpd
    simp only [ne_eq, not_true_eq_false, if_false, hdp, not_false_eq_true, if_true, and_false,
      List.append_nil]
    constructor
    · intro x
      refine netRefs_congr (netRefs_append_release hw.net hown_dir) ?_ x
      intro x
      simp only [FindWalk.Owns, hd, Option.some.injEq, or_self]
      constructor
      · rintro ⟨⟨rfl, hdo⟩ | hp, hnot⟩
        · exact absurd ⟨rfl, hdo⟩ hnot
        · exact hp
      · rintro ⟨rfl, hpo⟩
        exact ⟨Or.inr ⟨rfl, hpo⟩, fun ⟨hxd, _⟩ => hdp (hxd ▸ rfl)⟩
    · rintro x (⟨hx, hpo⟩ | ⟨rfl, hpo⟩)
      · cases hx
        exact hw.owns_ne _ (Or.inr ⟨rfl, hpo⟩)
      · exact hw.owns_ne _ (Or.inr ⟨rfl, hpo⟩)
    · rw [List.count_append, hw.caller_free, hw.count_free_releaseOwned hown_dir]
    · intro h
      cases h
    · intro d hdd hpo
      cases hdd
      exact hw.parent_borrowed hpo
    · exact hw.parent_borrowed
    · intro d hdd _
      cases hdd
      exact ⟨rfl, rfl⟩
    · exact hw.caller_lt
    · exact hplt
    · intro d hdd
      cases hdd
      exact hplt
    · intro e he
      rcases List.mem_append.mp he with he | he
      · exact hw.events_lt e he
      · rw [node_of_mem_releaseOwned he]
        exact hdlt
  · -- the walk restarts from a new wrapper: it frees `dir`, and `parent` unless it is `dir`
    have hopen : tmp.id ≠ w.parent.id := by omega
    have hdt : dir.id ≠ tmp.id := by omega
    have hpt : w.parent.id ≠ tmp.id := by omega
    have hnew : ¬w.Owns tmp := by
      rintro (⟨hx, -⟩ | ⟨hx, -⟩)
      · rw [hd, Option.some.injEq] at hx
        subst hx
        omega
      · subst hx
        omega
    have hget := netRefs_append_get hw.net hnew
    have hrel := netRefs_append_release hget fun ho => Or.inl (hown_dir ho)
    have hparent : (if w.parent.id ≠ dir.id then releaseOwned w.parent w.parentOwned
        else []).count (.free caller) = 0 := by
      split
      · exact hw.count_free_releaseOwned fun ho => Or.inr ⟨rfl, ho⟩
      · rfl
    simp only [ne_eq, hopen, hdt, hpt, not_false_eq_true, if_true, and_true] at hparent ⊢
    constructor
    · intro x
      by_cases hpd : w.parent.id = dir.id
      · obtain ⟨hdp, hown⟩ := hw.same_id dir hd hpd.symm
        rw [if_neg (not_not.mpr hpd), List.append_nil]
        refine netRefs_congr hrel ?_ x
        intro x
        simp only [FindWalk.Owns, hd, Option.some.injEq, and_true, or_self]
        constructor
        · rintro ⟨(⟨rfl, hdo⟩ | ⟨rfl, hpo⟩) | rfl, hnot⟩
          · exact absurd ⟨rfl, hdo⟩ hnot
          · exact absurd ⟨hdp.symm, hown ▸ hpo⟩ hnot
          · rfl
        · rintro rfl
          exact ⟨Or.inr rfl, fun ⟨hxd, _⟩ => hdt (hxd ▸ rfl)⟩
      · rw [if_pos hpd]
        refine netRefs_congr (netRefs_append_release hrel fun ho =>
          ⟨Or.inl (Or.inr ⟨rfl, ho⟩), fun ⟨hxd, _⟩ => hpd (hxd ▸ rfl)⟩) ?_ x
        intro x
        simp only [FindWalk.Owns, hd, Option.some.injEq, and_true, or_self]
        constructor
        · rintro ⟨⟨(⟨rfl, hdo⟩ | ⟨rfl, hpo⟩) | rfl, hnot⟩, hnot'⟩
          · exact absurd ⟨rfl, hdo⟩ hnot
          · exact absurd ⟨rfl, hpo⟩ hnot'
          · rfl
        · rintro rfl
          exact ⟨⟨Or.inr rfl, fun ⟨hxd, _⟩ => hdt (hxd ▸ rfl)⟩,
            fun ⟨hxp, _⟩ => hpt (hxp ▸ rfl)⟩
    · rintro x (⟨hx, -⟩ | ⟨rfl, -⟩)
      · cases hx
        rintro rfl
        have := hw.caller_lt
        omega
      · dsimp only
        rintro rfl
        have := hw.caller_lt
        omega
    · simp only [List.count_append, hw.caller_free, hw.count_free_releaseOwned hown_dir,
        hparent]
      simp
    · intro h
      cases h
    · intro d _ h
      cases h
    · intro h
      cases h
    · intro d hdd _
      cases hdd
      exact ⟨rfl, rfl⟩
    · have := hw.caller_lt
      dsimp only
      omega
    · dsimp only
      omega
    · intro d hdd
      cases hdd
      dsimp only
      omega
    · intro e he
      dsimp only at he ⊢
      simp only [List.mem_append, List.mem_singleton] at he
      rcases he with ((he | rfl) | he) | he
      · have := hw.events_lt e he
        omega
      · rw [RefEvent.node]
        omega
      · rw [node_of_mem_releaseOwned he]
        omega
      · split at he
        · rw [node_of_mem_releaseOwned he]
          omega
        · cases he

/-! ### The walk's ends -/

/-- What `node_find` leaves for the wrapper `caller` the caller holds: one reference on the
node it returns unless that is `caller`, none on any other wrapper, and `caller` never freed. -/
structure RefsBalanced (caller : FindNode) (r : Option FindNode) (evs : List RefEvent) :
    Prop where
  net : ∀ x, netRefs evs x = if r = some x ∧ x ≠ caller then 1 else 0
  caller_free : evs.count (.free caller) = 0

section Ends

variable {caller : FindNode} {w : FindWalk}

/-- The walk borrows its `dir` exactly when it is `caller`. -/
theorem WalkOk.dirOwned_iff (hw : WalkOk caller w) {d : FindNode} (hd : w.dir = some d) :
    w.dirOwned = true ↔ d ≠ caller := by
  constructor
  · exact fun ho => hw.owns_ne d (Or.inl ⟨hd, ho⟩)
  · intro hne
    cases ho : w.dirOwned
    · exact absurd (hw.dir_borrowed d hd ho) hne
    · rfl

/-- The path is used up: the walk returns `dir` and frees `parent` unless it is `dir`. -/
theorem WalkOk.exit_nil (hw : WalkOk caller w) :
    RefsBalanced caller w.dir
      (w.events ++ if some w.parent ≠ w.dir then releaseOwned w.parent w.parentOwned else []) := by
  constructor
  · intro x
    split
    · rename_i hpd
      have hiff : ∀ x, (w.Owns x ∧ ¬(x = w.parent ∧ w.parentOwned = true)) ↔
          (w.dir = some x ∧ x ≠ caller) := by
        intro x
        simp only [FindWalk.Owns]
        constructor
        · rintro ⟨⟨hx, hdo⟩ | ⟨rfl, hpo⟩, hnot⟩
          · exact ⟨hx, (hw.dirOwned_iff hx).mp hdo⟩
          · exact absurd ⟨rfl, hpo⟩ hnot
        · rintro ⟨hx, hne⟩
          exact ⟨Or.inl ⟨hx, (hw.dirOwned_iff hx).mpr hne⟩, fun ⟨hxp, _⟩ => hpd (by rw [hx, hxp])⟩
      exact netRefs_congr (netRefs_append_release hw.net fun ho => Or.inr ⟨rfl, ho⟩) hiff x
    · -- `dir` is `parent`, with the same flag
      rename_i hpd
      rw [not_not] at hpd
      obtain ⟨-, hsame⟩ := hw.same_id w.parent hpd.symm rfl
      have hiff : ∀ x, w.Owns x ↔ (w.dir = some x ∧ x ≠ caller) := by
        intro x
        simp only [FindWalk.Owns, ← hpd, Option.some.injEq, hsame, or_self]
        constructor
        · rintro ⟨rfl, hpo⟩
          exact ⟨rfl, (hw.dirOwned_iff hpd.symm).mp (hsame ▸ hpo)⟩
        · rintro ⟨rfl, hne⟩
          exact ⟨rfl, hsame ▸ (hw.dirOwned_iff hpd.symm).mpr hne⟩
      rw [List.append_nil]
      exact netRefs_congr hw.net hiff x
  · rw [List.count_append, hw.caller_free, Nat.zero_add]
    split
    · exact hw.count_free_releaseOwned fun ho => Or.inr ⟨rfl, ho⟩
    · rfl

/-- A component is left but no `dir`: the walk frees `parent` and returns `NULL`. -/
theorem WalkOk.exit_none (hw : WalkOk caller w) (hd : w.dir = none) :
    RefsBalanced caller none (w.events ++ releaseOwned w.parent w.parentOwned) := by
  constructor
  · intro x
    simp only [reduceCtorEq, false_and, if_false]
    rw [netRefs_append_release hw.net (fun ho => Or.inr ⟨rfl, ho⟩) x, if_neg]
    rintro ⟨⟨hx, -⟩ | ⟨rfl, hpo⟩, hnot⟩
    · rw [hd] at hx
      cases hx
    · exact hnot ⟨rfl, hpo⟩
  · rw [List.count_append, hw.caller_free, hw.count_free_releaseOwned fun ho => Or.inr ⟨rfl, ho⟩]

/-- Too many symlinks: the walk frees `parent` unless it is `dir`, then `dir`, and returns
`NULL`. -/
theorem WalkOk.exit_follows (hw : WalkOk caller w) {dir : FindNode} (hd : w.dir = some dir) :
    RefsBalanced caller none (w.events ++ (if w.parent.id ≠ dir.id then
      releaseOwned w.parent w.parentOwned else []) ++ releaseOwned dir w.dirOwned) := by
  have hown_dir : w.dirOwned = true → w.Owns dir := fun ho => Or.inl ⟨hd, ho⟩
  constructor
  · intro x
    simp only [reduceCtorEq, false_and, if_false]
    by_cases hpd : w.parent.id = dir.id
    · obtain ⟨hdp, hsame⟩ := hw.same_id dir hd hpd.symm
      rw [if_neg (not_not.mpr hpd), List.append_nil,
        netRefs_append_release hw.net hown_dir x, if_neg]
      rintro ⟨⟨hx, hdo⟩ | ⟨rfl, hpo⟩, hnot⟩
      · rw [hd, Option.some.injEq] at hx
        exact hnot ⟨hx.symm, hdo⟩
      · exact hnot ⟨hdp.symm, hsame ▸ hpo⟩
    · have hrel := netRefs_append_release hw.net (y := w.parent) fun ho => Or.inr ⟨rfl, ho⟩
      rw [if_pos hpd, netRefs_append_release hrel (fun ho =>
        ⟨hown_dir ho, fun ⟨hxp, _⟩ => hpd (by rw [hxp])⟩) x, if_neg]
      rintro ⟨⟨⟨hx, hdo⟩ | ⟨rfl, hpo⟩, hnot⟩, hnot'⟩
      · rw [hd, Option.some.injEq] at hx
        exact hnot' ⟨hx.symm, hdo⟩
      · exact hnot ⟨rfl, hpo⟩
  · rw [List.count_append, List.count_append, hw.caller_free,
      hw.count_free_releaseOwned hown_dir]
    split
    · rw [hw.count_free_releaseOwned fun ho => Or.inr ⟨rfl, ho⟩]
    · rfl

end Ends

/-- The run: from any state that keeps the invariant, the loop of `node_find` leaves the
references balanced. -/
theorem findLoop_refsBalanced {fs : FindFs} {caller : FindNode} (w : FindWalk) :
    ∀ {r : Option FindNode} {evs : List RefEvent}, WalkOk caller w →
      findLoop fs w = .ok (r, evs) → RefsBalanced caller r evs := by
  induction w using findLoop.induct fs with
  | case1 w hp =>
    intro r evs hw h
    rw [findLoop_of_nil hp, Except.ok.injEq, Prod.mk.injEq] at h
    obtain ⟨rfl, rfl⟩ := h
    exact hw.exit_nil
  | case2 w name rest hp hd =>
    intro r evs hw h
    rw [findLoop_of_none hp hd, Except.ok.injEq, Prod.mk.injEq] at h
    obtain ⟨rfl, rfl⟩ := h
    exact hw.exit_none hd
  | case3 w name rest hp dir hd hf =>
    intro r evs hw h
    rw [findLoop_of_follows hp hd hf, Except.ok.injEq, Prod.mk.injEq] at h
    obtain ⟨rfl, rfl⟩ := h
    exact hw.exit_follows hd
  | case4 w name rest hp dir hd hf hdir ih =>
    intro r evs hw h
    rw [findLoop_of_dir hp hd (Nat.le_of_not_lt hf) hdir] at h
    obtain ⟨next, hnext, h⟩ := except_bind_eq_ok h
    simp only [dite_eq_ite] at ih
    exact ih next (hw.dirStep hd fun n hn => ext2EnterDir_eq_ok (hn ▸ hnext)) h
  | case5 w name rest hp dir hd hf hdir ih =>
    intro r evs hw h
    rw [findLoop_of_symlink hp hd (Nat.le_of_not_lt hf) (eq_false_of_ne_true hdir)] at h
    obtain ⟨⟨tmp, path⟩, htmp, h⟩ := except_bind_eq_ok h
    simp only [dite_eq_ite] at ih
    exact ih tmp path (hw.symlinkStep hd (ext2ExpandSymlink_eq_ok htmp)) h

/-- The walk from the caller's wrapper, which it borrows. -/
theorem WalkOk.borrowed {caller : FindNode} {path : List String} {fresh : Nat}
    (h : caller.id < fresh) : WalkOk caller ⟨some caller, false, caller, false, path, 0, fresh, []⟩ where
  net x := by simp [FindWalk.Owns]
  owns_ne x hx := by simp [FindWalk.Owns] at hx
  caller_free := rfl
  dir_none h := by cases h
  dir_borrowed d hd _ := by cases hd; rfl
  parent_borrowed _ := rfl
  same_id d hd _ := by cases hd; exact ⟨rfl, rfl⟩
  caller_lt := h
  parent_lt := h
  dir_lt d hd := by cases hd; exact h
  events_lt e he := by cases he

/-- The walk from a new wrapper `r`, which it owns. -/
theorem WalkOk.opened {caller r : FindNode} {path : List String} (h : caller.id < r.id) :
    WalkOk caller ⟨some r, true, r, true, path, 0, r.id + 1, [.get r]⟩ where
  net x := by
    by_cases hx : x = r
    · subst hx
      simp [FindWalk.Owns]
    · simp [FindWalk.Owns, hx, Ne.symm hx]
  owns_ne x hx := by
    have hxr : x = r := by
      rcases hx with ⟨hx, -⟩ | ⟨hx, -⟩
      · exact (Option.some.inj hx).symm
      · exact hx.symm
    subst hxr
    rintro rfl
    omega
  caller_free := by simp
  dir_none h := by cases h
  dir_borrowed d _ h := by cases h
  parent_borrowed h := by cases h
  same_id d hd _ := by cases hd; exact ⟨rfl, rfl⟩
  caller_lt := by dsimp only; omega
  parent_lt := Nat.lt_succ_self r.id
  dir_lt d hd := by cases hd; exact Nat.lt_succ_self r.id
  events_lt e he := by
    rw [List.mem_singleton] at he
    subst he
    dsimp only [RefEvent.node]
    omega

/-- `node_find` leaves the references balanced: it returns `NULL` or a node the caller must
free, one reference of which it took, and it neither frees the caller's wrapper nor leaves a
reference on any other. -/
theorem nodeFind_refsBalanced {fs : FindFs} {dir : FindNode} {name : String}
    {r : Option FindNode} {evs : List RefEvent} (h : nodeFind fs dir name = .ok (r, evs)) :
    RefsBalanced dir r evs := by
  unfold nodeFind at h
  dsimp only at h
  split at h
  · cases h
  obtain ⟨⟨d0, o0, f0, e0⟩, hstart, h⟩ := except_bind_eq_ok h
  -- the walk starts from the caller's wrapper or from a new wrapper of the root
  have hwalk : ∀ path, WalkOk dir ⟨some d0, o0, d0, o0, path, 0, f0, e0⟩ := by
    intro path
    split at hstart
    · obtain ⟨r0, hr0, hrt⟩ := except_map_eq_ok hstart
      cases hrt
      have hid := openDirWrapper_id hr0
      rw [← hid]
      exact WalkOk.opened (by omega)
    · cases hstart
      exact WalkOk.borrowed (by omega)
  obtain ⟨path, -, h⟩ := except_bind_eq_ok h
  dsimp only at h
  split at h
  · -- an empty path: `dir` itself, in a new wrapper unless the walk owns it
    have hw := hwalk []
    split at h
    · cases h
      have := hw.exit_nil
      rwa [if_neg (not_not.mpr rfl), List.append_nil] at this
    · rename_i ho
      cases h
      have hid := hw.caller_lt
      have hborrowed : ∀ x, ¬FindWalk.Owns ⟨some d0, o0, d0, o0, [], 0, f0, e0⟩ x := by
        simp [FindWalk.Owns, ho]
      constructor
      · intro x
        have hiff : ∀ x, (FindWalk.Owns ⟨some d0, o0, d0, o0, [], 0, f0, e0⟩ x ∨
            x = ⟨f0, d0.inumber, d0.parentInumber⟩) ↔
            (some ⟨f0, d0.inumber, d0.parentInumber⟩ = some x ∧ x ≠ dir) := by
          intro x
          simp only [hborrowed, false_or, Option.some.injEq]
          constructor
          · rintro rfl
            exact ⟨rfl, fun hxd => by rw [← hxd] at hid; exact Nat.lt_irrefl _ hid⟩
          · rintro ⟨rfl, -⟩
            rfl
        exact netRefs_congr (netRefs_append_get hw.net (hborrowed _)) hiff x
      · rw [List.count_append, hw.caller_free]
        simp
  · exact findLoop_refsBalanced _ (hwalk _) h

/-! ### A regular file in the middle of a path -/

/-- A root (inode 2) holding `.`, `..` and a regular file `f` (inode 12). -/
def fileUnderRoot : FindFs where
  inodes i :=
    if i = 2 then ⟨ext2DefaultDirMode, 3, false, [[⟨2, 12, "."⟩, ⟨2, 12, ".."⟩, ⟨12, 1000, "f"⟩]]⟩
    else if i = 12 then ⟨ext2DefaultFileMode, 1, false, []⟩
    else ⟨0, 0, false, []⟩
  symlinkTarget _ := ""
  root := ⟨0, 2, ext2BadIno⟩

-- The steps both walks below take: the root is a directory, a new wrapper of it gets id `1`,
-- and its entry `f` a wrapper with id `2`.
theorem fileUnderRoot_openRoot : ext2OpenRootDir fileUnderRoot 1 = .ok ⟨1, 2, ext2BadIno⟩ := by
  decide +kernel

theorem fileUnderRoot_enter_f :
    ext2EnterDir fileUnderRoot ⟨1, 2, ext2BadIno⟩ "f" 2 = .ok (some ⟨2, 12, 2⟩) := by
  decide +kernel

theorem fileUnderRoot_root_isDir :
    (isDirMode (fileUnderRoot.inodes fileUnderRoot.root.inumber).mode ||
      isSymlinkMode (fileUnderRoot.inodes fileUnderRoot.root.inumber).mode) = true := by
  decide +kernel

/-- From `fs->root`, `node_find` replaces the caller's wrapper by a new wrapper of the root, with
id `1`, and walks a path that is not empty from it. -/
theorem nodeFind_fileUnderRoot_root {name c : String} {rest : List String}
    (hpath : ext2ExpandPath name = .ok (c :: rest)) :
    nodeFind fileUnderRoot fileUnderRoot.root name = findLoop fileUnderRoot
      ⟨some ⟨1, 2, ext2BadIno⟩, true, ⟨1, 2, ext2BadIno⟩, true, c :: rest, 0, 2,
        [.get ⟨1, 2, ext2BadIno⟩]⟩ := by
  simp only [nodeFind, fileUnderRoot_root_isDir, Bool.not_true, Bool.false_eq_true, if_false,
    show fileUnderRoot.root.id = 0 from rfl, max_self, or_true, if_true, Nat.zero_add,
    Nat.reduceAdd, fileUnderRoot_openRoot, Except.map, Except.bind, hpath]

/-- `node_find(root, "f")` takes a new wrapper of the root, enters `f` with a second one and
frees the first: one reference is left, on the node it returns. -/
theorem nodeFind_refsBalanced_file :
    nodeFind fileUnderRoot fileUnderRoot.root "f" =
        .ok (some ⟨2, 12, 2⟩, [.get ⟨1, 2, ext2BadIno⟩, .get ⟨2, 12, 2⟩, .free ⟨1, 2, ext2BadIno⟩]) ∧
      RefsBalanced fileUnderRoot.root (some ⟨2, 12, 2⟩)
        [.get ⟨1, 2, ext2BadIno⟩, .get ⟨2, 12, 2⟩, .free ⟨1, 2, ext2BadIno⟩] := by
  have hrun : nodeFind fileUnderRoot fileUnderRoot.root "f" =
      .ok (some ⟨2, 12, 2⟩, [.get ⟨1, 2, ext2BadIno⟩, .get ⟨2, 12, 2⟩, .free ⟨1, 2, ext2BadIno⟩]) := by
    rw [nodeFind_fileUnderRoot_root (by decide +kernel : ext2ExpandPath "f" = .ok ["f"])]
    -- the root is a directory; its entry `f` ends the path
    rw [findLoop_of_dir rfl rfl (by decide) (by decide +kernel), fileUnderRoot_enter_f]
    simp only [Except.bind]
    rw [findLoop_of_nil rfl]
    decide
  exact ⟨hrun, nodeFind_refsBalanced hrun⟩

/-- `node_find(root, "f/x")` enters `f`, takes the regular file for a symlink and fails the
assert of `node_get_symlink_target`, where it should return `NULL`. -/
theorem nodeFind_file_component_panics :
    nodeFind fileUnderRoot fileUnderRoot.root "f/x" =
      .error "node_get_symlink_target: node is not a symlink.\n" := by
  have hfile : ext2ExpandSymlink fileUnderRoot ⟨1, 2, ext2BadIno⟩ ⟨2, 12, 2⟩ ["x"] 3 =
      .error "node_get_symlink_target: node is not a symlink.\n" := by
    decide +kernel
  -- `fs->root` is replaced by a new wrapper of the root, with id `1`
  rw [nodeFind_fileUnderRoot_root (by decide +kernel : ext2ExpandPath "f/x" = .ok ["f", "x"])]
  -- the root is a directory and its entry `f` a regular file
  rw [findLoop_of_dir rfl rfl (by decide) (by decide +kernel), fileUnderRoot_enter_f]
  simp only [Except.bind]
  rw [findLoop_of_symlink rfl rfl (by decide) (by decide +kernel)]
  simp only [Option.isSome_some, if_true, Nat.reduceAdd, hfile]
  rfl

end DioptaseOS.Ext2
