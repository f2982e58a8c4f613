import DioptaseOS.Ext2.Basic

/-!
# ext2: reading a directory with getdents

`node_getdents` fills a buffer with `struct linux_dirent` records for the live records of a
directory, starting at a byte offset, and returns in `new_offset` where the next call should
resume; `handle_getdents` stores that offset in the file descriptor. The loop walks every
record from the start of the directory with `current_offset`, skips free records and records
that end at or before the offset, and stops at the first record that `write_dirent` cannot
fit in what is left of the buffer.

`current_offset` is moved past a record before the test for a full buffer, so the offset a
call returns lies past the record that did not fit: the next call skips it.
`nodeGetdents_stops_past` states this for every call that stops early; the module ends with
two calls on a three-record directory, with buffers that hold its largest dirent, that never
list `..`.

## Main definitions

* `writeDirent` — one `linux_dirent`, or nothing where it does not fit
* `nodeGetdents` — one call: the dirents written and `new_offset`
* `getdentsCalls` — a sequence of calls, each from the offset of the one before
* `listedFrom` — the live records that end after an offset

## Main results

* `nodeGetdents_of_fits` — with room for every record, one call lists all the live records
  after the offset, in order, and returns the directory size
* `nodeGetdents_stops_past` — a call lists a prefix of them, in order, and one that stops early
  returns the end of the first record it did not list, so that record is listed neither by it
  nor by a call from its offset
-/

namespace DioptaseOS.Ext2

/-! ### `write_dirent` -/

def ext2DtUnknown : Nat := 0
def ext2DtFifo : Nat := 1
def ext2DtChr : Nat := 2
def ext2DtDir : Nat := 4
def ext2DtBlk : Nat := 6
def ext2DtReg : Nat := 8
def ext2DtLnk : Nat := 10
def ext2DtSock : Nat := 12

/-- `sizeof(struct linux_dirent)`: `d_ino`, `d_off`, `d_reclen` and the first byte of
`d_name`, padded to the alignment of `unsigned`. -/
def linuxDirentSize : Nat := 12

/-- The `switch` of `write_dirent` from the mode of an inode to `d_type`. -/
def direntType (mode : Nat) : Nat :=
  let t := mode &&& ext2SMask
  if t = ext2SIfifo then ext2DtFifo
  else if t = ext2SIfchr then ext2DtChr
  else if t = ext2SIfdir then ext2DtDir
  else if t = ext2SIfblk then ext2DtBlk
  else if t = ext2SIfreg then ext2DtReg
  else if t = ext2SIflnk then ext2DtLnk
  else if t = ext2SIfsock then ext2DtSock
  else ext2DtUnknown

/-- A `struct linux_dirent` as `write_dirent` fills it: the inode, `d_off = 0`, the record
length, the name (followed by a zero byte) and the type, in the last byte of the record. -/
structure LinuxDirent where
  dIno : Nat
  dOff : Nat
  dReclen : Nat
  dName : String
  dType : Nat
  deriving DecidableEq, Repr

/-- The record length of `write_dirent` for a name of `nameLen` bytes: the header, the name,
its zero byte and the type byte, rounded up by `(reclen + 3) & ~3`. -/
def direntReclen (nameLen : Nat) : Nat :=
  let reclen := linuxDirentSize + nameLen + 1
  (reclen + 3) - (reclen + 3) % 4

/-- The dirent `write_dirent` writes for a record; `modeOf` is the mode `icache_get` reads
for an inode. -/
def direntOf (modeOf : Nat → Nat) (entry : DirEntry) : LinuxDirent :=
  ⟨entry.inode, 0, direntReclen entry.name.length, entry.name, direntType (modeOf entry.inode)⟩

/-- `write_dirent(fs, entry, buffer_start, remaining_size)`: `none` where it returns `0`
because the record does not fit. -/
def writeDirent (modeOf : Nat → Nat) (entry : DirEntry) (remainingSize : Nat) :
    Option LinuxDirent :=
  if direntReclen entry.name.length > remainingSize then none else some (direntOf modeOf entry)

/-! ### `node_getdents` -/

/-- The loop of `node_getdents` from the record at `currentOffset`, with `total` bytes in the
buffer: the dirents it writes and the `current_offset` it ends with. `none` is its assert
`entry.rec_len >= 8`. -/
def getdentsLoop (modeOf : Nat → Nat) (offset bufferSize : Nat) :
    List DirEntry → Nat → Nat → Option (List LinuxDirent × Nat)
  | [], currentOffset, _ => some ([], currentOffset)
  | entry :: rest, currentOffset, total =>
    if entry.recLen < 8 then none
    else if entry.inode = 0 ∨ currentOffset + entry.recLen ≤ offset then
      getdentsLoop modeOf offset bufferSize rest (currentOffset + entry.recLen) total
    else
      match writeDirent modeOf entry (bufferSize - total) with
      -- the buffer is full: `current_offset` has already moved past this record
      | none => some ([], currentOffset + entry.recLen)
      | some d =>
        (getdentsLoop modeOf offset bufferSize rest (currentOffset + entry.recLen)
          (total + d.dReclen)).map fun r => (d :: r.1, r.2)

/-- `node_getdents(dir, offset, buffer, buffer_size, &new_offset)` on a directory with records
`entries`: the dirents written, in order, and `new_offset`. The call returns the sum of their
lengths. -/
def nodeGetdents (modeOf : Nat → Nat) (entries : List DirEntry) (offset bufferSize : Nat) :
    Option (List LinuxDirent × Nat) :=
  getdentsLoop modeOf offset bufferSize entries 0 0

/-- Calls of `node_getdents` with buffers of the given sizes, each from the `new_offset` of the
call before: all the dirents written and the last offset. -/
def getdentsCalls (modeOf : Nat → Nat) (entries : List DirEntry) :
    List Nat → Nat → Option (List LinuxDirent × Nat)
  | [], offset => some ([], offset)
  | size :: sizes, offset =>
    (nodeGetdents modeOf entries offset size).bind fun r =>
      (getdentsCalls modeOf entries sizes r.2).map fun s => (r.1 ++ s.1, s.2)

/-! ### What a read lists -/

/-- The records of a directory with the offset each starts at, the first at `start`. -/
def withOffsets : List DirEntry → Nat → List (DirEntry × Nat)
  | [], _ => []
  | e :: rest, start => (e, start) :: withOffsets rest (start + e.recLen)

/-- Whether a read from `offset` lists a record starting at `start`: it is live and ends after
`offset`. -/
def listedAt (offset : Nat) (p : DirEntry × Nat) : Bool :=
  p.1.inode != 0 && decide (offset < p.2 + p.1.recLen)

/-- The records, with their offsets, that a read from `offset` lists. -/
def listedFrom (offset : Nat) (entries : List DirEntry) (start : Nat) : List (DirEntry × Nat) :=
  (withOffsets entries start).filter (listedAt offset)

/-- The size of a directory: the sum of the lengths of its records. -/
def dirSize (entries : List DirEntry) : Nat := (entries.map DirEntry.recLen).sum

@[simp] theorem listedFrom_nil (offset start : Nat) : listedFrom offset [] start = [] := rfl

theorem listedFrom_cons (offset start : Nat) (e : DirEntry) (rest : List DirEntry) :
    listedFrom offset (e :: rest) start =
      if listedAt offset (e, start) then (e, start) :: listedFrom offset rest (start + e.recLen)
      else listedFrom offset rest (start + e.recLen) := by
  simp only [listedFrom, withOffsets, List.filter_cons]

theorem listedAt_iff (offset start : Nat) (e : DirEntry) :
    listedAt offset (e, start) = true ↔ ¬(e.inode = 0 ∨ start + e.recLen ≤ offset) := by
  simp [listedAt]

theorem withOffsets_start_ge {entries : List DirEntry} {start : Nat} :
    ∀ p ∈ withOffsets entries start, start ≤ p.2 := by
  induction entries generalizing start with
  | nil => simp [withOffsets]
  | cons e rest ih =>
    intro p hp
    simp only [withOffsets, List.mem_cons] at hp
    rcases hp with rfl | hp
    · exact le_refl _
    · have := ih p hp
      omega

theorem mem_withOffsets {entries : List DirEntry} {start : Nat} {p : DirEntry × Nat}
    (h : p ∈ withOffsets entries start) : p.1 ∈ entries := by
  induction entries generalizing start with
  | nil => simp [withOffsets] at h
  | cons e rest ih =>
    simp only [withOffsets, List.mem_cons] at h
    rcases h with rfl | h
    · exact List.mem_cons_self ..
    · exact List.mem_cons_of_mem _ (ih h)

/-- Records of length at least 8 end after every offset at which a later one starts. -/
theorem listedFrom_of_le {offset start : Nat} {entries : List DirEntry}
    (hlen : ∀ e ∈ entries, 8 ≤ e.recLen) (h : offset ≤ start) :
    listedFrom offset entries start = listedFrom 0 entries start := by
  induction entries generalizing start with
  | nil => rfl
  | cons e rest ih =>
    have he := hlen e (List.mem_cons_self ..)
    have hrest := ih (fun e' he' => hlen e' (List.mem_cons_of_mem _ he')) (by omega : offset ≤ start + e.recLen)
    rw [listedFrom_cons, listedFrom_cons, hrest]
    have : listedAt offset (e, start) = listedAt 0 (e, start) := by
      simp only [listedAt]
      congr 1
      simp only [decide_eq_decide]
      omega
    rw [this]

/-! ### One call -/

/-- The bytes of a list of dirents. -/
def direntBytes (ds : List LinuxDirent) : Nat := (ds.map LinuxDirent.dReclen).sum

/-- With room for every record it lists, the loop lists all of them and ends at the end of
the directory. -/
theorem getdentsLoop_of_fits (modeOf : Nat → Nat) (offset bufferSize : Nat) :
    ∀ (entries : List DirEntry) (currentOffset total : Nat),
      (∀ e ∈ entries, 8 ≤ e.recLen) →
      total + direntBytes ((listedFrom offset entries currentOffset).map
        fun p => direntOf modeOf p.1) ≤ bufferSize →
      getdentsLoop modeOf offset bufferSize entries currentOffset total =
        some ((listedFrom offset entries currentOffset).map (fun p => direntOf modeOf p.1),
          currentOffset + dirSize entries)
  | [], currentOffset, _, _, _ => by simp [getdentsLoop, dirSize]
  | e :: rest, currentOffset, total, hlen, hfit => by
    have he : ¬e.recLen < 8 := by have := hlen e (List.mem_cons_self ..); omega
    have hrest : ∀ e' ∈ rest, 8 ≤ e'.recLen := fun e' h => hlen e' (List.mem_cons_of_mem _ h)
    have hsize : currentOffset + dirSize (e :: rest) = currentOffset + e.recLen + dirSize rest := by
      simp [dirSize]; omega
    rw [listedFrom_cons] at hfit ⊢
    by_cases hl : listedAt offset (e, currentOffset)
    · -- a listed record: it fits, and the rest of the buffer holds the others
      have hskip := (listedAt_iff _ _ _).mp hl
      simp only [hl, if_true, List.map_cons, direntBytes, List.sum_cons] at hfit ⊢
      have hw : writeDirent modeOf e (bufferSize - total) = some (direntOf modeOf e) := by
        simp only [writeDirent, direntOf] at hfit ⊢
        rw [if_neg (by omega)]
      rw [getdentsLoop, if_neg he, if_neg hskip, hw]
      simp only
      rw [getdentsLoop_of_fits modeOf offset bufferSize rest _ _ hrest
        (by simp only [direntBytes, direntOf] at hfit ⊢; omega), hsize]
      rfl
    · have hskip : e.inode = 0 ∨ currentOffset + e.recLen ≤ offset := by
        by_contra hc; exact hl ((listedAt_iff _ _ _).mpr hc)
      simp only [hl] at hfit ⊢
      rw [getdentsLoop, if_neg he, if_pos hskip, hsize]
      exact getdentsLoop_of_fits modeOf offset bufferSize rest _ _ hrest hfit

/-- The loop lists a prefix of the records it should list, in order; if it lists fewer, it
ends at the end of the first one it leaves out. -/
theorem getdentsLoop_prefix (modeOf : Nat → Nat) (offset bufferSize : Nat) :
    ∀ (entries : List DirEntry) (currentOffset total : Nat) (ds : List LinuxDirent) (o : Nat),
      getdentsLoop modeOf offset bufferSize entries currentOffset total = some (ds, o) →
      ∃ pre post, listedFrom offset entries currentOffset = pre ++ post ∧
        ds = pre.map (fun p => direntOf modeOf p.1) ∧
        ∀ p ∈ post.head?, o = p.2 + p.1.recLen
  | [], currentOffset, _, ds, o, h => by
    simp only [getdentsLoop, Option.some.injEq, Prod.mk.injEq] at h
    obtain ⟨rfl, rfl⟩ := h
    exact ⟨[], [], by simp⟩
  | e :: rest, currentOffset, total, ds, o, h => by
    rw [getdentsLoop] at h
    split_ifs at h with he hskip
    · -- a skipped record is not listed
      obtain ⟨pre, post, hl, hds, ho⟩ := getdentsLoop_prefix modeOf offset bufferSize rest _ _ ds o h
      have hn : listedAt offset (e, currentOffset) = false :=
        Bool.eq_false_iff.mpr fun ht => (listedAt_iff _ _ _).mp ht hskip
      exact ⟨pre, post, by rw [listedFrom_cons, if_neg (by simp [hn]), hl], hds, ho⟩
    · have hl : listedAt offset (e, currentOffset) = true := (listedAt_iff _ _ _).mpr hskip
      cases hw : writeDirent modeOf e (bufferSize - total) with
      | none =>
        -- the buffer is full at this record: it heads what is left out
        simp only [hw, Option.some.injEq, Prod.mk.injEq] at h
        obtain ⟨rfl, rfl⟩ := h
        refine ⟨[], listedFrom offset (e :: rest) currentOffset, by simp, by simp, ?_⟩
        rw [listedFrom_cons, if_pos hl]
        simp
      | some d =>
        simp only [hw, Option.map_eq_some_iff] at h
        obtain ⟨⟨ds', o'⟩, h', hr⟩ := h
        simp only [Prod.mk.injEq] at hr
        obtain ⟨rfl, rfl⟩ := hr
        obtain ⟨pre, post, hlr, hds, ho⟩ :=
          getdentsLoop_prefix modeOf offset bufferSize rest _ _ ds' o' h'
        have hd : d = direntOf modeOf e := by
          simp only [writeDirent] at hw
          split_ifs at hw
          exact (Option.some.inj hw).symm
        refine ⟨(e, currentOffset) :: pre, post, ?_, by simp [hd, hds], ho⟩
        rw [listedFrom_cons, if_pos hl, hlr, List.cons_append]

/-- With room for every record it lists, `node_getdents` lists all the live records that end
after the offset, in order, and returns the size of the directory. -/
theorem nodeGetdents_of_fits (modeOf : Nat → Nat) {entries : List DirEntry} {offset bufferSize : Nat}
    (hlen : ∀ e ∈ entries, 8 ≤ e.recLen)
    (hfit : direntBytes ((listedFrom offset entries 0).map fun p => direntOf modeOf p.1) ≤
      bufferSize) :
    nodeGetdents modeOf entries offset bufferSize =
      some ((listedFrom offset entries 0).map (fun p => direntOf modeOf p.1), dirSize entries) := by
  rw [nodeGetdents, getdentsLoop_of_fits modeOf offset bufferSize entries 0 0 hlen (by omega),
    Nat.zero_add]

/-- A records' end is past every record before it. -/
theorem withOffsets_end_le {entries : List DirEntry} {start : Nat}
    (hlen : ∀ e ∈ entries, 8 ≤ e.recLen) :
    ∀ {pre : List (DirEntry × Nat)} {p : DirEntry × Nat} {post},
      withOffsets entries start = pre ++ p :: post →
      ∀ q ∈ post, p.2 + p.1.recLen ≤ q.2 := by
  induction entries generalizing start with
  | nil => intro pre p post h; cases pre <;> simp [withOffsets] at h
  | cons e rest ih =>
    intro pre p post h q hq
    cases pre with
    | nil =>
      simp only [withOffsets, List.nil_append, List.cons.injEq] at h
      obtain ⟨rfl, rfl⟩ := h
      exact withOffsets_start_ge q hq
    | cons a pre =>
      simp only [withOffsets, List.cons_append, List.cons.injEq] at h
      exact ih (fun e' he' => hlen e' (List.mem_cons_of_mem _ he')) h.2 q hq

/-- A call of `node_getdents` that stops before the end returns the end of the first live
record it did not list: a call from that offset lists only the records after it, so that
record is listed by neither. -/
theorem nodeGetdents_stops_past {modeOf : Nat → Nat} {entries : List DirEntry}
    {offset bufferSize o : Nat} {ds : List LinuxDirent}
    (hlen : ∀ e ∈ entries, 8 ≤ e.recLen)
    (h : nodeGetdents modeOf entries offset bufferSize = some (ds, o)) :
    ∃ pre post, listedFrom offset entries 0 = pre ++ post ∧
      ds = pre.map (fun p => direntOf modeOf p.1) ∧
      ∀ p ∈ post.head?, post = p :: listedFrom o entries 0 := by
  obtain ⟨pre, post, hl, hds, ho⟩ := getdentsLoop_prefix modeOf offset bufferSize entries 0 0 ds o h
  refine ⟨pre, post, hl, hds, fun p hp => ?_⟩
  have hpo := ho p hp
  obtain ⟨post', rfl⟩ : ∃ post', post = p :: post' := by
    cases post with
    | nil => simp at hp
    | cons a t => simp only [List.head?_cons, Option.mem_def, Option.some.injEq] at hp; exact ⟨t, by rw [hp]⟩
  -- split the records at `p`: those before it end where it starts, those after start at `o`
  rw [listedFrom, List.filter_eq_append_iff] at hl
  obtain ⟨l₁, l₂, hW, -, hl₂⟩ := hl
  rw [List.filter_eq_cons_iff] at hl₂
  obtain ⟨m₁, m₂, rfl, -, hp_listed, hm₂⟩ := hl₂
  have hW' : withOffsets entries 0 = (l₁ ++ m₁) ++ p :: m₂ := by rw [hW, List.append_assoc]
  have hbefore : ∀ x ∈ l₁ ++ m₁, x.2 + x.1.recLen ≤ p.2 := by
    intro x hx
    obtain ⟨A₁, A₂, hA⟩ := List.append_of_mem hx
    have hsplit : withOffsets entries 0 = A₁ ++ x :: (A₂ ++ p :: m₂) := by rw [hW', hA]; simp
    exact withOffsets_end_le hlen hsplit p (by simp)
  have hafter : ∀ q ∈ m₂, p.2 + p.1.recLen ≤ q.2 := withOffsets_end_le hlen hW'
  have hoff : offset < p.2 + p.1.recLen := by simp [listedAt] at hp_listed; exact hp_listed.2
  have hq8 : ∀ q ∈ m₂, 8 ≤ q.1.recLen := fun q hq =>
    hlen q.1 (mem_withOffsets (by rw [hW']; simp [hq]))
  rw [listedFrom, hW', List.filter_append, List.filter_cons]
  have h₁ : (l₁ ++ m₁).filter (listedAt o) = [] := by
    rw [List.filter_eq_nil_iff]
    intro x hx
    have := hbefore x hx
    simp only [listedAt, Bool.and_eq_true, bne_iff_ne, ne_eq, decide_eq_true_eq, not_and, not_lt]
    intro _
    omega
  have h₂ : listedAt o p = false := by simp [listedAt, hpo]
  have h₃ : m₂.filter (listedAt o) = post' := by
    rw [← hm₂]
    apply List.filter_congr
    intro q hq
    have := hafter q hq
    have := hq8 q hq
    simp only [listedAt]
    congr 1
    simp only [decide_eq_decide]
    omega
  rw [h₁, h₂, h₃]
  rfl

/-- A buffer of 16 bytes on `.`, `..` and `a`: the call lists `.` and returns `24`, the end of
`..`, the record it could not fit. -/
theorem nodeGetdents_stops_past_dotdot :
    let entries : List DirEntry := [⟨2, 12, "."⟩, ⟨2, 12, ".."⟩, ⟨12, 1000, "a"⟩]
    let modeOf : Nat → Nat := fun i => if i = 2 then ext2DefaultDirMode else ext2DefaultFileMode
    (∀ e ∈ entries, 8 ≤ e.recLen) ∧
      nodeGetdents modeOf entries 0 16 = some ([direntOf modeOf ⟨2, 12, "."⟩], 24) ∧
      ∃ pre post, listedFrom 0 entries 0 = pre ++ post ∧
        [direntOf modeOf ⟨2, 12, "."⟩] = pre.map (fun p => direntOf modeOf p.1) ∧
        ∀ p ∈ post.head?, post = p :: listedFrom 24 entries 0 := by
  intro entries modeOf
  refine ⟨?len, ?run, nodeGetdents_stops_past ?len ?run⟩
  case len => decide
  case run => decide

/-- A block of `.`, `..` and `a`, read by two calls with buffers of 16 bytes, the length of
each of its dirents: the first call writes `.` and stops at `..`, returning the end of `..`,
and the second starts past it, so `..` is never listed. -/
theorem getdents_skips_unfitted_entry :
    let entries : List DirEntry := [⟨2, 12, "."⟩, ⟨2, 12, ".."⟩, ⟨12, 1000, "a"⟩]
    let modeOf : Nat → Nat := fun i => if i = 2 then ext2DefaultDirMode else ext2DefaultFileMode
    (∀ e ∈ entries, direntReclen e.name.length ≤ 16) ∧ ⟨2, 12, ".."⟩ ∈ entries ∧
      (getdentsCalls modeOf entries [16, 16] 0).map (fun r => (r.1.map LinuxDirent.dName, r.2)) =
        some ([".", "a"], dirSize entries) := by
  decide

end DioptaseOS.Ext2
