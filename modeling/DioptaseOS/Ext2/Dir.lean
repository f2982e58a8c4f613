import DioptaseOS.Ext2.Basic
import Mathlib.Data.List.Perm.Basic

/-!
# ext2: the records of a directory

The loops of `ext.c` over the records of a directory. A directory is the list of its data
blocks, and a block the chain of its records (see `Ext2.Basic`): `dir_add_entry_locked` puts a
new entry in the first block with room, reusing a free record or splitting the slack off a
live one, and otherwise appends a block holding only the new entry; `dir_remove_entry_locked`
frees the first live record with the name, merging it into the record before it in its block;
`dir_find_entry_locked`, `dir_has_entry_name` and `dir_is_empty_locked` walk the records of
the whole directory. Every loop asserts that the records it walks are well formed; a failed
assert is `Except.error` with the message of the source.

A record that `dir_remove_entry_locked` merges into the one before it stays in the bytes of
the block, but the chain of records passes over it, and so does the model.

## Main definitions

* `insertInBlock`, `addToBlocks` — the loops of `dir_add_entry_locked`
* `removeInBlock` — the loop of `dir_remove_entry_locked` over one block
* `findNamed`, `dirFindEntryLocked`, `dirHasEntryName`, `dirIsEmptyLocked` — the lookups
* `RecordOk`, `BlockOk` — a well-formed record and block
* `liveEntries` — what a directory maps: its live `(name, inode)` records

## Main results

* `insertInBlock_spec` — an insertion keeps the block well formed and adds exactly the new
  entry to its live records
* `removeInBlock_spec` — a removal keeps it well formed and drops exactly the first live
  record with the name
* `findNamed_eq` — on well-formed records the lookups find the first live record with the name
-/

namespace DioptaseOS.Ext2

open scoped List

/-! ### The records' asserts -/

/-- The asserts of the loops over a block on the record at `offset`; `fn` is the name of the
function in the messages. -/
def checkRecord (fn : String) (blockSize offset : Nat) (e : DirEntry) : Except String Unit :=
  if e.recLen < ext2DirEntryHeaderSize then .error (fn ++ ": invalid directory record length.\n")
  else if e.recLen % ext2DirEntryAlignSize ≠ 0 then
    .error (fn ++ ": directory record is not 4-byte aligned.\n")
  else if offset + e.recLen > blockSize then
    .error (fn ++ ": directory record crosses the block boundary.\n")
  else .ok ()

/-- The assert at the end of the loops over a block. -/
def checkBlockEnd (fn : String) (blockSize offset : Nat) : Except String Unit :=
  if offset = blockSize then .ok ()
  else .error (fn ++ ": directory block did not terminate at the block boundary.\n")

/-- `ext2_write_dir_entry(dest, rec_len, name, inumber)`: the record it writes. -/
def ext2WriteDirEntry (recLen : Nat) (name : String) (inumber : Nat) : Except String DirEntry :=
  if name.length > 256 then .error "ext2_write_dir_entry: name is too long for ext2.\n"
  else if recLen < ext2DirEntryMinSize name.length then
    .error "ext2_write_dir_entry: rec_len is too small for the directory entry.\n"
  else .ok ⟨inumber, recLen, name⟩

/-! ### Adding an entry -/

/-- The loop of `dir_insert_entry_in_existing_block` from the record at `offset`: the block
with the entry in the first record with room for `newEntrySize` bytes, or `none`. A free
record large enough takes the entry; a live one with enough slack is cut to its ideal length
and the entry takes the rest. -/
def insertInBlock (blockSize newEntrySize : Nat) (name : String) (inumber : Nat) :
    Nat → List DirEntry → Except String (Option (List DirEntry))
  | offset, [] =>
    (checkBlockEnd "dir_insert_entry_in_existing_block" blockSize offset).map fun _ => none
  | offset, e :: rest =>
    (checkRecord "dir_insert_entry_in_existing_block" blockSize offset e).bind fun _ =>
      if e.inode = 0 ∧ e.recLen ≥ newEntrySize then
        (ext2WriteDirEntry e.recLen name inumber).map fun e' => some (e' :: rest)
      else if e.inode ≠ 0 ∧ e.recLen ≥ ext2DirEntryMinSize e.name.length + newEntrySize then
        (ext2WriteDirEntry (e.recLen - ext2DirEntryMinSize e.name.length) name inumber).map
          fun e' => some ({ e with recLen := ext2DirEntryMinSize e.name.length } :: e' :: rest)
      else
        (insertInBlock blockSize newEntrySize name inumber (offset + e.recLen) rest).map
          (·.map (e :: ·))

/-- The loop of `dir_add_entry_locked` over the blocks of a directory: the blocks with the
entry in the first one with room, or `none` when the directory must grow. -/
def addToBlocks (blockSize : Nat) (name : String) (inumber : Nat) :
    List (List DirEntry) → Except String (Option (List (List DirEntry)))
  | [] => .ok none
  | b :: bs =>
    (insertInBlock blockSize (ext2DirEntryMinSize name.length) name inumber 0 b).bind fun r =>
      match r with
      | some b' => .ok (some (b' :: bs))
      | none => (addToBlocks blockSize name inumber bs).map (·.map (b :: ·))

/-! ### Removing an entry -/

/-- The loop of `dir_remove_entry_locked` over a block after its first record: `prev` is the
record before the one at `offset`. The first live record with the name is merged into
`prev`. -/
def removeAfter (blockSize : Nat) (name : String) :
    Nat → DirEntry → List DirEntry → Except String (Option (List DirEntry))
  | offset, _, [] =>
    (checkBlockEnd "dir_remove_entry" blockSize offset).map fun _ => none
  | offset, prev, e :: rest =>
    (checkRecord "dir_remove_entry" blockSize offset e).bind fun _ =>
      if e.isNamed name then .ok (some ({ prev with recLen := prev.recLen + e.recLen } :: rest))
      else (removeAfter blockSize name (offset + e.recLen) e rest).map (·.map (prev :: ·))

/-- The loop of `dir_remove_entry_locked` over one block: the block without the first live
record with the name, or `none`. The first record of a block has no record before it and is
only freed. -/
def removeInBlock (blockSize : Nat) (name : String) :
    List DirEntry → Except String (Option (List DirEntry))
  | [] => (checkBlockEnd "dir_remove_entry" blockSize 0).map fun _ => none
  | e :: rest =>
    (checkRecord "dir_remove_entry" blockSize 0 e).bind fun _ =>
      if e.isNamed name then .ok (some ({ e with inode := 0 } :: rest))
      else removeAfter blockSize name e.recLen e rest

/-- The loop of `dir_remove_entry_locked` over the blocks of a directory. -/
def removeFromBlocks (blockSize : Nat) (name : String) :
    List (List DirEntry) → Except String (Option (List (List DirEntry)))
  | [] => .ok none
  | b :: bs =>
    (removeInBlock blockSize name b).bind fun r =>
      match r with
      | some b' => .ok (some (b' :: bs))
      | none => (removeFromBlocks blockSize name bs).map (·.map (b :: ·))

/-! ### Lookups -/

/-- The loop of `dir_find_entry_locked` and `dir_has_entry_name` over the records of a
directory: the first live record with the name. `fn` names the function in the message of
the assert `rec_len >= 8`. -/
def findNamed (fn name : String) : List DirEntry → Except String (Option DirEntry)
  | [] => .ok none
  | e :: rest =>
    if e.recLen < ext2DirEntryHeaderSize then .error (fn ++ ": invalid directory record length.\n")
    else if e.isNamed name then .ok (some e)
    else findNamed fn name rest

/-- `dir_find_entry_locked(dir, name)`: the inode of the entry. -/
def dirFindEntryLocked (blocks : List (List DirEntry)) (name : String) : Except String (Option Nat) :=
  (findNamed "dir_find_entry" name blocks.flatten).map (·.map DirEntry.inode)

/-- `dir_has_entry_name(dir, name)`. -/
def dirHasEntryName (blocks : List (List DirEntry)) (name : String) : Except String Bool :=
  (findNamed "dir_has_entry_name" name blocks.flatten).map Option.isSome

/-- The loop of `dir_is_empty_locked`: whether every live record is `.` or `..`. -/
def dirIsEmptyRecords : List DirEntry → Except String Bool
  | [] => .ok true
  | e :: rest =>
    if e.recLen < ext2DirEntryHeaderSize then .error "dir_is_empty: invalid directory record length.\n"
    else if e.recLen % ext2DirEntryAlignSize ≠ 0 then
      .error "dir_is_empty: directory record is not 4-byte aligned.\n"
    else if e.inode ≠ 0 ∧ ¬(ext2NameIsDot e.name ∨ ext2NameIsDotDot e.name) then .ok false
    else dirIsEmptyRecords rest

/-- `dir_is_empty_locked(dir)`. -/
def dirIsEmptyLocked (blocks : List (List DirEntry)) : Except String Bool :=
  dirIsEmptyRecords blocks.flatten

/-! ### Steps of `Except` -/

section ExceptSteps

variable {α β : Type}

/-- Results of the model compare by their message or their value, so that runs on given
inputs can be decided. -/
instance instDecidableEqExcept [DecidableEq α] : DecidableEq (Except String α)
  | .error a, .error b =>
    if h : a = b then isTrue (h ▸ rfl) else isFalse fun e => h (by injection e)
  | .ok a, .ok b => if h : a = b then isTrue (h ▸ rfl) else isFalse fun e => h (by injection e)
  | .error _, .ok _ => isFalse fun e => by cases e
  | .ok _, .error _ => isFalse fun e => by cases e

theorem except_bind_eq_ok {x : Except String α} {f : α → Except String β} {b : β}
    (h : x.bind f = .ok b) : ∃ a, x = .ok a ∧ f a = .ok b := by
  cases x with
  | error e => cases h
  | ok a => exact ⟨a, rfl, h⟩

theorem except_map_eq_ok {x : Except String α} {f : α → β} {b : β}
    (h : x.map f = .ok b) : ∃ a, x = .ok a ∧ f a = b := by
  cases x with
  | error e => cases h
  | ok a => exact ⟨a, rfl, by simpa [Except.map] using h⟩

end ExceptSteps

/-! ### Well-formed records -/

/-- A well-formed record: at least a header long, a multiple of 4, and, if live, long enough
for its name. -/
structure RecordOk (e : DirEntry) : Prop where
  header_le : ext2DirEntryHeaderSize ≤ e.recLen
  aligned : e.recLen % ext2DirEntryAlignSize = 0
  fits : e.inode ≠ 0 → ext2DirEntryMinSize e.name.length ≤ e.recLen

/-- A well-formed block: well-formed records whose lengths sum to the block size. -/
structure BlockOk (blockSize : Nat) (b : List DirEntry) : Prop where
  records : ∀ e ∈ b, RecordOk e
  sum_recLen : (b.map DirEntry.recLen).sum = blockSize

/-- The live records, as `(name, inode)`: what a directory maps. -/
def liveEntries (records : List DirEntry) : List (String × Nat) :=
  records.filterMap fun e => if e.inode = 0 then none else some (e.name, e.inode)

@[simp] theorem liveEntries_nil : liveEntries [] = [] := rfl

theorem liveEntries_cons (e : DirEntry) (rest : List DirEntry) :
    liveEntries (e :: rest) =
      if e.inode = 0 then liveEntries rest else (e.name, e.inode) :: liveEntries rest := by
  by_cases h : e.inode = 0 <;> simp [liveEntries, h]

theorem liveEntries_append (l₁ l₂ : List DirEntry) :
    liveEntries (l₁ ++ l₂) = liveEntries l₁ ++ liveEntries l₂ := List.filterMap_append

theorem isNamed_iff (e : DirEntry) (name : String) :
    e.isNamed name = true ↔ e.inode ≠ 0 ∧ e.name = name := by
  simp [DirEntry.isNamed]

theorem ext2DirEntryMinSize_ge (n : Nat) : ext2DirEntryHeaderSize + n ≤ ext2DirEntryMinSize n := by
  unfold ext2DirEntryMinSize
  dsimp only
  split <;> omega

theorem ext2DirEntryMinSize_aligned (n : Nat) :
    ext2DirEntryMinSize n % ext2DirEntryAlignSize = 0 := by
  unfold ext2DirEntryMinSize ext2DirEntryAlignSize ext2DirEntryHeaderSize
  dsimp only
  split <;> omega

theorem checkRecord_eq_ok {fn : String} {blockSize offset : Nat} {e : DirEntry}
    (h : RecordOk e) (hin : offset + e.recLen ≤ blockSize) :
    checkRecord fn blockSize offset e = .ok () := by
  have := h.header_le
  have := h.aligned
  simp only [checkRecord]
  rw [if_neg (by omega), if_neg (by omega), if_neg (by omega)]

theorem ext2WriteDirEntry_eq_ok {recLen : Nat} {name : String} {inumber : Nat} {e : DirEntry}
    (h : ext2WriteDirEntry recLen name inumber = .ok e) :
    e = ⟨inumber, recLen, name⟩ ∧ ext2DirEntryMinSize name.length ≤ recLen := by
  unfold ext2WriteDirEntry at h
  split_ifs at h with h₁ h₂
  cases h
  exact ⟨rfl, by omega⟩

/-! ### What an insertion does -/

/-- An insertion that succeeds keeps the records well formed and their lengths, and adds
exactly the new entry to the live ones. -/
theorem insertInBlock_spec {blockSize : Nat} {name : String} {inumber : Nat}
    (hino : inumber ≠ 0) :
    ∀ {offset : Nat} {rest rest' : List DirEntry}, (∀ e ∈ rest, RecordOk e) →
      insertInBlock blockSize (ext2DirEntryMinSize name.length) name inumber offset rest =
        .ok (some rest') →
      (∀ e ∈ rest', RecordOk e) ∧
        (rest'.map DirEntry.recLen).sum = (rest.map DirEntry.recLen).sum ∧
        liveEntries rest' ~ liveEntries rest ++ [(name, inumber)]
  | offset, [], rest', _, h => by
    obtain ⟨_, -, h⟩ := except_map_eq_ok h
    cases h
  | offset, e :: rest, rest', hok, h => by
    have he := hok e (List.mem_cons_self ..)
    have hrest : ∀ e' ∈ rest, RecordOk e' := fun e' h' => hok e' (List.mem_cons_of_mem _ h')
    have hmin := ext2DirEntryMinSize_ge name.length
    have hal := ext2DirEntryMinSize_aligned name.length
    obtain ⟨_, -, h⟩ := except_bind_eq_ok h
    split_ifs at h with hfree hslack
    · -- a free record takes the entry whole
      obtain ⟨e', he', hr⟩ := except_map_eq_ok h
      obtain ⟨rfl, -⟩ := ext2WriteDirEntry_eq_ok he'
      cases hr
      refine ⟨?_, by simp, ?_⟩
      · intro x hx
        rcases List.mem_cons.mp hx with rfl | hx
        · exact ⟨by have := he.header_le; omega, he.aligned, fun _ => hfree.2⟩
        · exact hrest x hx
      · rw [liveEntries_cons, liveEntries_cons, if_pos hfree.1, if_neg hino]
        exact (List.perm_append_singleton _ _).symm
    · -- a live record gives its slack to the entry
      obtain ⟨e', he', hr⟩ := except_map_eq_ok h
      obtain ⟨rfl, -⟩ := ext2WriteDirEntry_eq_ok he'
      cases hr
      have hideal := ext2DirEntryMinSize_ge e.name.length
      have hial := ext2DirEntryMinSize_aligned e.name.length
      have hea := he.aligned
      refine ⟨?_, ?_, ?_⟩
      · intro x hx
        simp only [List.mem_cons] at hx
        rcases hx with rfl | rfl | hx
        · exact ⟨by simp only at hideal ⊢; omega, hial, fun _ => le_refl _⟩
        · refine ⟨?_, ?_, fun _ => ?_⟩ <;> simp only at hslack hmin hal hea hideal hial ⊢ <;>
            simp only [ext2DirEntryAlignSize, ext2DirEntryHeaderSize] at * <;> omega
        · exact hrest x hx
      · simp only [List.map_cons, List.sum_cons]
        omega
      · rw [liveEntries_cons, liveEntries_cons, liveEntries_cons, if_neg hslack.1, if_neg hslack.1,
          if_neg hino]
        exact List.Perm.cons _ (List.perm_append_singleton _ _).symm
    · -- no room here: the loop goes on
      obtain ⟨r, hr, hr'⟩ := except_map_eq_ok h
      cases r with
      | none => cases hr'
      | some r =>
        cases hr'
        obtain ⟨hrok, hsum, hlive⟩ := insertInBlock_spec hino hrest hr
        refine ⟨?_, by simp [hsum], ?_⟩
        · intro x hx
          rcases List.mem_cons.mp hx with rfl | hx
          · exact he
          · exact hrok x hx
        · rw [liveEntries_cons, liveEntries_cons]
          split
          · exact hlive
          · exact List.Perm.cons _ hlive

/-- On well-formed records that fill the block from `offset`, an insertion of a name of at
most 256 bytes fails no assert. -/
theorem insertInBlock_isOk {blockSize : Nat} {name : String} {inumber : Nat}
    (hname : name.length ≤ 256) :
    ∀ {offset : Nat} {rest : List DirEntry}, (∀ e ∈ rest, RecordOk e) →
      offset + (rest.map DirEntry.recLen).sum = blockSize →
      ∃ r, insertInBlock blockSize (ext2DirEntryMinSize name.length) name inumber offset rest =
        .ok r
  | offset, [], _, hsum => ⟨none, by simp_all [insertInBlock, checkBlockEnd, Except.map]⟩
  | offset, e :: rest, hok, hsum => by
    have he := hok e (List.mem_cons_self ..)
    simp only [List.map_cons, List.sum_cons] at hsum
    simp only [insertInBlock, checkRecord_eq_ok he (by omega : offset + e.recLen ≤ blockSize),
      Except.bind]
    have hw : ∀ n, ext2DirEntryMinSize name.length ≤ n →
        ext2WriteDirEntry n name inumber = .ok ⟨inumber, n, name⟩ := by
      intro n hn
      simp only [ext2WriteDirEntry]
      rw [if_neg (by omega), if_neg (by omega)]
    split_ifs with hfree hslack
    · exact ⟨_, by rw [hw _ hfree.2]; rfl⟩
    · exact ⟨_, by rw [hw _ (by omega)]; rfl⟩
    · obtain ⟨r, hr⟩ := insertInBlock_isOk hname (fun e' h' => hok e' (List.mem_cons_of_mem _ h'))
        (by omega : offset + e.recLen + (rest.map DirEntry.recLen).sum = blockSize)
      exact ⟨_, by rw [hr]; rfl⟩

/-! ### What a removal does -/

/-- The loop after the first record: a removal that succeeds keeps the records well formed
and the lengths of `prev` and the records after it, and drops exactly the first live record
with the name after `prev`. -/
theorem removeAfter_spec {blockSize : Nat} {name : String} :
    ∀ {offset : Nat} {prev : DirEntry} {rest rest' : List DirEntry}, RecordOk prev →
      (∀ e ∈ rest, RecordOk e) →
      removeAfter blockSize name offset prev rest = .ok (some rest') →
      (∀ e ∈ rest', RecordOk e) ∧
        (rest'.map DirEntry.recLen).sum = prev.recLen + (rest.map DirEntry.recLen).sum ∧
        ∃ ino A B, liveEntries rest = A ++ (name, ino) :: B ∧ (∀ p ∈ A, p.1 ≠ name) ∧
          liveEntries rest' = liveEntries [prev] ++ A ++ B
  | offset, prev, [], rest', _, _, h => by
    obtain ⟨_, -, h⟩ := except_map_eq_ok h
    cases h
  | offset, prev, e :: rest, rest', hprev, hok, h => by
    have he := hok e (List.mem_cons_self ..)
    have hrest : ∀ e' ∈ rest, RecordOk e' := fun e' h' => hok e' (List.mem_cons_of_mem _ h')
    obtain ⟨_, -, h⟩ := except_bind_eq_ok h
    split_ifs at h with hnamed
    · -- the record is merged into `prev`
      cases h
      obtain ⟨hlive, rfl⟩ := (isNamed_iff e name).mp hnamed
      have := hprev.aligned
      have := he.aligned
      refine ⟨?_, by simp; omega, e.inode, [], liveEntries rest, ?_, by simp, ?_⟩
      · intro x hx
        rcases List.mem_cons.mp hx with rfl | hx
        · refine ⟨?_, ?_, fun h => ?_⟩
          · have := hprev.header_le; show _ ≤ prev.recLen + e.recLen; omega
          · show (prev.recLen + e.recLen) % _ = 0
            simp only [ext2DirEntryAlignSize] at *
            omega
          · have := hprev.fits h
            show ext2DirEntryMinSize prev.name.length ≤ prev.recLen + e.recLen
            omega
        · exact hrest x hx
      · rw [liveEntries_cons, if_neg hlive]; rfl
      · rw [List.append_nil, show ∀ x : DirEntry, x :: rest = [x] ++ rest from fun _ => rfl,
          liveEntries_append]
        rfl
    · -- the loop goes on with this record as `prev`
      obtain ⟨r, hr, hr'⟩ := except_map_eq_ok h
      cases r with
      | none => cases hr'
      | some r =>
        cases hr'
        obtain ⟨hrok, hsum, ino, A, B, hA, hAn, hB⟩ := removeAfter_spec he hrest hr
        refine ⟨?_, by simp [hsum], ino, liveEntries [e] ++ A, B, ?_, ?_, ?_⟩
        · intro x hx
          rcases List.mem_cons.mp hx with rfl | hx
          · exact hprev
          · exact hrok x hx
        · rw [show e :: rest = [e] ++ rest from rfl, liveEntries_append, hA, List.append_assoc]
        · intro p hp
          rcases List.mem_append.mp hp with hp | hp
          · -- the record the loop passed over does not carry the name
            rw [liveEntries_cons, liveEntries_nil] at hp
            split_ifs at hp with h0
            · simp at hp
            · rw [List.mem_singleton] at hp
              subst hp
              exact fun hn => hnamed ((isNamed_iff e name).mpr ⟨h0, hn⟩)
          · exact hAn p hp
        · show liveEntries (prev :: r) = _
          rw [show prev :: r = [prev] ++ r from rfl, liveEntries_append, hB]
          simp only [List.append_assoc]

/-- A removal from a block that succeeds keeps it well formed with the same length, and
drops exactly the first live record with the name. -/
theorem removeInBlock_spec {blockSize : Nat} {name : String} {b b' : List DirEntry}
    (hok : ∀ e ∈ b, RecordOk e) (h : removeInBlock blockSize name b = .ok (some b')) :
    (∀ e ∈ b', RecordOk e) ∧
      (b'.map DirEntry.recLen).sum = (b.map DirEntry.recLen).sum ∧
      ∃ ino A B, liveEntries b = A ++ (name, ino) :: B ∧ (∀ p ∈ A, p.1 ≠ name) ∧
        liveEntries b' = A ++ B := by
  cases b with
  | nil =>
    obtain ⟨_, -, h⟩ := except_map_eq_ok h
    cases h
  | cons e rest =>
    have he := hok e (List.mem_cons_self ..)
    have hrest : ∀ e' ∈ rest, RecordOk e' := fun e' h' => hok e' (List.mem_cons_of_mem _ h')
    obtain ⟨_, -, h⟩ := except_bind_eq_ok h
    split_ifs at h with hnamed
    · -- the first record of the block is only freed
      cases h
      obtain ⟨hlive, rfl⟩ := (isNamed_iff e name).mp hnamed
      refine ⟨?_, by simp, e.inode, [], liveEntries rest, ?_, by simp, ?_⟩
      · intro x hx
        rcases List.mem_cons.mp hx with rfl | hx
        · exact ⟨he.header_le, he.aligned, fun h => absurd rfl h⟩
        · exact hrest x hx
      · rw [liveEntries_cons, if_neg hlive]; rfl
      · simp [liveEntries_cons]
    · obtain ⟨hrok, hsum, ino, A, B, hA, hAn, hB⟩ := removeAfter_spec he hrest h
      refine ⟨hrok, by simp [hsum], ino, liveEntries [e] ++ A, B, ?_, ?_, hB⟩
      · rw [show e :: rest = [e] ++ rest from rfl, liveEntries_append, hA, List.append_assoc]
      · intro p hp
        rcases List.mem_append.mp hp with hp | hp
        · rw [liveEntries_cons, liveEntries_nil] at hp
          split_ifs at hp with h0
          · simp at hp
          · rw [List.mem_singleton] at hp
            subst hp
            exact fun hn => hnamed ((isNamed_iff e name).mpr ⟨h0, hn⟩)
        · exact hAn p hp

/-! ### Over the blocks of a directory -/

/-- An insertion into a directory that succeeds in one of its blocks keeps every block well
formed and adds exactly the new entry to the live records. -/
theorem addToBlocks_spec {blockSize : Nat} {name : String} {inumber : Nat} (hino : inumber ≠ 0) :
    ∀ {blocks blocks' : List (List DirEntry)}, (∀ b ∈ blocks, BlockOk blockSize b) →
      addToBlocks blockSize name inumber blocks = .ok (some blocks') →
      (∀ b ∈ blocks', BlockOk blockSize b) ∧ blocks'.length = blocks.length ∧
        liveEntries blocks'.flatten ~ liveEntries blocks.flatten ++ [(name, inumber)]
  | [], _, _, h => by cases h
  | b :: bs, blocks', hok, h => by
    have hb := hok b (List.mem_cons_self ..)
    obtain ⟨r, hr, h⟩ := except_bind_eq_ok h
    cases r with
    | some b' =>
      -- the entry went into the first block
      cases h
      obtain ⟨hrec, hsum, hlive⟩ := insertInBlock_spec hino hb.records hr
      refine ⟨?_, rfl, ?_⟩
      · intro x hx
        rcases List.mem_cons.mp hx with rfl | hx
        · exact ⟨hrec, hsum.trans hb.sum_recLen⟩
        · exact hok x (List.mem_cons_of_mem _ hx)
      · simp only [List.flatten_cons, liveEntries_append]
        calc liveEntries b' ++ liveEntries bs.flatten
            ~ (liveEntries b ++ [(name, inumber)]) ++ liveEntries bs.flatten := hlive.append_right _
          _ ~ liveEntries b ++ liveEntries bs.flatten ++ [(name, inumber)] := by
            rw [List.append_assoc, List.append_assoc]
            exact List.Perm.append_left _ List.perm_append_comm
    | none =>
      obtain ⟨r, hr', hr''⟩ := except_map_eq_ok h
      cases r with
      | none => cases hr''
      | some r =>
        cases hr''
        obtain ⟨hok', hlen, hlive⟩ :=
          addToBlocks_spec hino (fun x hx => hok x (List.mem_cons_of_mem _ hx)) hr'
        refine ⟨?_, by simp [hlen], ?_⟩
        · intro x hx
          rcases List.mem_cons.mp hx with rfl | hx
          · exact hb
          · exact hok' x hx
        · simp only [List.flatten_cons, liveEntries_append, List.append_assoc]
          exact hlive.append_left _

/-- The loop after the first record finds nothing only when no live record after `prev`
carries the name. -/
theorem removeAfter_none {blockSize : Nat} {name : String} :
    ∀ {offset : Nat} {prev : DirEntry} {rest : List DirEntry},
      removeAfter blockSize name offset prev rest = .ok none →
      ∀ p ∈ liveEntries rest, p.1 ≠ name
  | _, _, [], _ => by simp
  | offset, prev, e :: rest, h => by
    obtain ⟨_, -, h⟩ := except_bind_eq_ok h
    split_ifs at h with hnamed
    · cases h
    obtain ⟨r, hr, hr'⟩ := except_map_eq_ok h
    cases r with
    | some r => cases hr'
    | none =>
      intro p hp
      rw [liveEntries_cons] at hp
      split_ifs at hp with h0
      · exact removeAfter_none hr p hp
      · rcases List.mem_cons.mp hp with rfl | hp
        · exact fun hn => hnamed ((isNamed_iff e name).mpr ⟨h0, hn⟩)
        · exact removeAfter_none hr p hp

theorem removeInBlock_none {blockSize : Nat} {name : String} {b : List DirEntry}
    (h : removeInBlock blockSize name b = .ok none) : ∀ p ∈ liveEntries b, p.1 ≠ name := by
  cases b with
  | nil => simp
  | cons e rest =>
    obtain ⟨_, -, h⟩ := except_bind_eq_ok h
    split_ifs at h with hnamed
    · cases h
    intro p hp
    rw [liveEntries_cons] at hp
    split_ifs at hp with h0
    · exact removeAfter_none h p hp
    · rcases List.mem_cons.mp hp with rfl | hp
      · exact fun hn => hnamed ((isNamed_iff e name).mpr ⟨h0, hn⟩)
      · exact removeAfter_none h p hp

/-- A removal from a directory that succeeds keeps every block well formed and drops exactly
the first live record with the name. -/
theorem removeFromBlocks_spec {blockSize : Nat} {name : String} :
    ∀ {blocks blocks' : List (List DirEntry)}, (∀ b ∈ blocks, BlockOk blockSize b) →
      removeFromBlocks blockSize name blocks = .ok (some blocks') →
      (∀ b ∈ blocks', BlockOk blockSize b) ∧ blocks'.length = blocks.length ∧
        ∃ ino A B, liveEntries blocks.flatten = A ++ (name, ino) :: B ∧ (∀ p ∈ A, p.1 ≠ name) ∧
          liveEntries blocks'.flatten = A ++ B
  | [], _, _, h => by cases h
  | b :: bs, blocks', hok, h => by
    have hb := hok b (List.mem_cons_self ..)
    obtain ⟨r, hr, h⟩ := except_bind_eq_ok h
    cases r with
    | some b' =>
      -- the record was in the first block
      cases h
      obtain ⟨hrec, hsum, ino, A, B, hA, hAn, hB⟩ := removeInBlock_spec hb.records hr
      refine ⟨?_, rfl, ino, A, B ++ liveEntries bs.flatten, ?_, hAn, ?_⟩
      · intro x hx
        rcases List.mem_cons.mp hx with rfl | hx
        · exact ⟨hrec, hsum.trans hb.sum_recLen⟩
        · exact hok x (List.mem_cons_of_mem _ hx)
      · simp [List.flatten_cons, liveEntries_append, hA]
      · simp [List.flatten_cons, liveEntries_append, hB]
    | none =>
      obtain ⟨r, hr', hr''⟩ := except_map_eq_ok h
      cases r with
      | none => cases hr''
      | some r =>
        cases hr''
        obtain ⟨hok', hlen, ino, A, B, hA, hAn, hB⟩ :=
          removeFromBlocks_spec (fun x hx => hok x (List.mem_cons_of_mem _ hx)) hr'
        refine ⟨?_, by simp [hlen], ino, liveEntries b ++ A, B, ?_, ?_, ?_⟩
        · intro x hx
          rcases List.mem_cons.mp hx with rfl | hx
          · exact hb
          · exact hok' x hx
        · simp [List.flatten_cons, liveEntries_append, hA]
        · intro p hp
          rcases List.mem_append.mp hp with hp | hp
          · exact removeInBlock_none hr p hp
          · exact hAn p hp
        · simp [List.flatten_cons, liveEntries_append, hB]

/-! ### What the lookups find -/

/-- On records at least a header long, the lookup loop is `find?` of its test. -/
theorem findNamed_eq {fn name : String} :
    ∀ {records : List DirEntry}, (∀ e ∈ records, ext2DirEntryHeaderSize ≤ e.recLen) →
      findNamed fn name records = .ok (records.find? (·.isNamed name))
  | [], _ => rfl
  | e :: rest, h => by
    have he := h e (List.mem_cons_self ..)
    rw [findNamed, if_neg (by omega)]
    by_cases hn : e.isNamed name
    · rw [if_pos hn, List.find?_cons_of_pos (p := fun x : DirEntry => x.isNamed name) hn]
    · rw [if_neg hn, List.find?_cons_of_neg (p := fun x : DirEntry => x.isNamed name) hn]
      exact findNamed_eq fun x hx => h x (List.mem_cons_of_mem _ hx)

/-- The record a lookup finds carries the inode of the first live entry with the name. -/
theorem find?_isNamed_inode (name : String) :
    ∀ records : List DirEntry, (records.find? (·.isNamed name)).map DirEntry.inode =
      ((liveEntries records).find? (·.1 == name)).map Prod.snd
  | [] => rfl
  | e :: rest => by
    rw [liveEntries_cons]
    by_cases h0 : e.inode = 0
    · rw [List.find?_cons_of_neg (p := fun x : DirEntry => x.isNamed name) (by simp [DirEntry.isNamed, h0]),
        if_pos h0]
      exact find?_isNamed_inode name rest
    · rw [if_neg h0]
      by_cases hn : e.name = name
      · rw [List.find?_cons_of_pos (p := fun x : DirEntry => x.isNamed name) ((isNamed_iff e name).mpr ⟨h0, hn⟩),
          List.find?_cons_of_pos (p := fun x : String × Nat => x.1 == name) (by simp [hn])]
        rfl
      · rw [List.find?_cons_of_neg (p := fun x : DirEntry => x.isNamed name) (by simp [DirEntry.isNamed, hn]),
          List.find?_cons_of_neg (p := fun x : String × Nat => x.1 == name) (by simp [hn])]
        exact find?_isNamed_inode name rest

/-- On well-formed records, the loop of `dir_is_empty_locked` answers whether every live
entry is `.` or `..`. -/
theorem dirIsEmptyRecords_eq :
    ∀ {records : List DirEntry}, (∀ e ∈ records, RecordOk e) →
      dirIsEmptyRecords records =
        .ok ((liveEntries records).all fun p => ext2NameIsDot p.1 || ext2NameIsDotDot p.1)
  | [], _ => rfl
  | e :: rest, h => by
    have he := h e (List.mem_cons_self ..)
    have := he.header_le
    have := he.aligned
    rw [dirIsEmptyRecords, if_neg (by omega), if_neg (by omega), liveEntries_cons]
    have ih := dirIsEmptyRecords_eq fun x hx => h x (List.mem_cons_of_mem _ hx)
    by_cases h0 : e.inode = 0
    · rw [if_neg (by simp [h0]), if_pos h0, ih]
    · rw [if_neg h0, List.all_cons]
      by_cases hd : ext2NameIsDot e.name || ext2NameIsDotDot e.name
      · rw [if_neg (by simp_all), ih, hd, Bool.true_and]
      · rw [if_pos ⟨h0, by simpa using hd⟩]
        simp only [Bool.not_eq_true] at hd
        rw [hd, Bool.false_and]

/-- The records of well-formed blocks are well formed. -/
theorem records_of_blocks {bs : Nat} {blocks : List (List DirEntry)}
    (hd : ∀ b ∈ blocks, BlockOk bs b) : ∀ e ∈ blocks.flatten, RecordOk e := by
  intro e he
  obtain ⟨b, hb, he⟩ := List.mem_flatten.mp he
  exact (hd b hb).records e he

/-- On well-formed blocks, `dir_find_entry_locked` finds the inode of the first live entry
with the name. -/
theorem dirFindEntryLocked_eq {bs : Nat} {blocks : List (List DirEntry)} {name : String}
    (hd : ∀ b ∈ blocks, BlockOk bs b) :
    dirFindEntryLocked blocks name =
      .ok (((liveEntries blocks.flatten).find? (·.1 == name)).map Prod.snd) := by
  rw [dirFindEntryLocked, findNamed_eq fun e he => (records_of_blocks hd e he).header_le]
  simp only [Except.map, find?_isNamed_inode]

/-- On well-formed blocks, `dir_is_empty_locked` answers whether every live entry is `.` or
`..`. -/
theorem dirIsEmptyLocked_eq {bs : Nat} {blocks : List (List DirEntry)}
    (hd : ∀ b ∈ blocks, BlockOk bs b) :
    dirIsEmptyLocked blocks =
      .ok ((liveEntries blocks.flatten).all fun p => ext2NameIsDot p.1 || ext2NameIsDotDot p.1) :=
  dirIsEmptyRecords_eq (records_of_blocks hd)

/-- The first entry with the name in a list of live entries. -/
theorem find?_eq_of_first {l A B : List (String × Nat)} {name : String} {ino : Nat}
    (hl : l = A ++ (name, ino) :: B) (hA : ∀ p ∈ A, p.1 ≠ name) :
    l.find? (·.1 == name) = some (name, ino) := by
  subst hl
  rw [List.find?_append, List.find?_eq_none.mpr (by simpa using hA)]
  simp

end DioptaseOS.Ext2
