import Mathlib.Data.Nat.Bitwise

/-!
# ext2: inodes and directory records

The data that the ext2 driver of `ext.c` reads and writes: the part of an on-disk inode it
uses, its modes, and the records of a directory. A directory is a file whose data blocks are
chains of records; each record holds an inode number (`0` for a free record), its length
`rec_len` and a name. The loops of the driver walk a directory with an index that starts at
`0` and moves by `rec_len`, and read the record at the index; the model gives a directory as
the list of the records that walk reads, in file order. Names are byte strings, modelled as
strings of one-byte characters, so that `name_len` is the length of the string.

## Main definitions

* `Inode` — mode, size, links, sectors and the fifteen block pointers
* `DirEntry`, `DirEntry.isNamed` — a directory record, and the test every lookup makes
* `ext2DirEntryMinSize` — the length of the smallest record for a name
-/

namespace DioptaseOS.Ext2

/-! ### Modes -/

def ext2SMask : Nat := 0xF000
def ext2SIfsock : Nat := 0xC000
def ext2SIflnk : Nat := 0xA000
def ext2SIfreg : Nat := 0x8000
def ext2SIfblk : Nat := 0x6000
def ext2SIfdir : Nat := 0x4000
def ext2SIfchr : Nat := 0x2000
def ext2SIfifo : Nat := 0x1000

def ext2DefaultFileMode : Nat := 0x81A4
def ext2DefaultDirMode : Nat := 0x41ED
def ext2DefaultSymlinkMode : Nat := 0xA1FF

/-- `(mode & EXT2_S_MASK) == EXT2_S_IFDIR`. -/
def isDirMode (mode : Nat) : Bool := mode &&& ext2SMask == ext2SIfdir

/-- `(mode & EXT2_S_MASK) == EXT2_S_IFLNK`. -/
def isSymlinkMode (mode : Nat) : Bool := mode &&& ext2SMask == ext2SIflnk

@[simp] theorem isDirMode_defaultDir : isDirMode ext2DefaultDirMode = true := by decide
@[simp] theorem isDirMode_defaultFile : isDirMode ext2DefaultFileMode = false := by decide
@[simp] theorem isDirMode_defaultSymlink : isDirMode ext2DefaultSymlinkMode = false := by decide

/-! ### Inodes -/

/-- The fields of `struct Inode` that the driver uses. `block` holds the twelve direct
pointers and the single, double and triple indirect ones at `12`, `13` and `14`; `blocks`
counts 512-byte sectors. -/
structure Inode where
  mode : Nat
  size : Nat
  linksCount : Nat
  blocks : Nat
  block : Nat → Nat

/-! ### Directory records -/

def ext2DirEntryHeaderSize : Nat := 8
def ext2DirEntryAlignSize : Nat := 4

/-- A directory record: `inode` (`0` for a free record), `rec_len` and the name. -/
structure DirEntry where
  inode : Nat
  recLen : Nat
  name : String
  deriving DecidableEq, Repr

/-- The test of every lookup: `entry.inode != 0 && entry.name_len == name_len &&
strneq(entry.name, name, name_len)`. -/
def DirEntry.isNamed (e : DirEntry) (name : String) : Bool :=
  e.inode != 0 && e.name == name

/-- `ext2_dir_entry_min_size(name_len)`: the header and the name, rounded up to a multiple of
`EXT2_DIR_ENTRY_ALIGN_SIZE`. -/
def ext2DirEntryMinSize (nameLen : Nat) : Nat :=
  let size := ext2DirEntryHeaderSize + nameLen
  let remainder := size % ext2DirEntryAlignSize
  if remainder ≠ 0 then size + (ext2DirEntryAlignSize - remainder) else size

/-- `ext2_name_is_dot(name)`. -/
def ext2NameIsDot (name : String) : Bool := name == "."

/-- `ext2_name_is_dot_dot(name)`. -/
def ext2NameIsDotDot (name : String) : Bool := name == ".."

/-- `ext2_name_has_separator(name)`. -/
def ext2NameHasSeparator (name : String) : Bool := name.toList.contains '/'

end DioptaseOS.Ext2
