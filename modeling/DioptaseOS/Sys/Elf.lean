import DioptaseOS.Vmem.Mmap
import DioptaseOS.Sys.UserCopy

/-!
# Loading ELF images

`elf_validate_image` and `elf_load` of `elf.c`. The validator reads the file header and the
program header table of an image of `image_size` bytes; the loader maps every program header
with `mmap_at` at its `p_vaddr`, copies its `p_filesz` bytes there and sets the VME's flags
from `p_flags`.

The validator never looks at `p_vaddr` or `p_memsz` beyond `p_filesz ≤ p_memsz`, while
`mmap_at` panics on an address outside the user half and returns `NULL` for an empty segment,
which `vme_change_perms` then dereferences. A result of `none` is such a panic or crash.

The image is a list of bytes; the fields of its headers are read little-endian.

## Main definitions

* `readLe`, `ElfHeader.read`, `ProgramHeader.read` — the fields of the two headers
* `elfHeaderBytesInRange`, `elfValidateImage` — the validator
* `segmentFlags`, `vmeChangePerms`, `programHeaderLoad`, `elfLoad` — the loader

## Main results

* `elfValidateImage_phdr_in_range` — a valid image holds its whole program header table
* `programHeaderLoad_eq_some` — a loaded segment has a VME of its flags at its address, and
  its file bytes there
* `elfLoad_eq_none_of_first` — the loader stops at the first segment it cannot map
* `elfLoad_kernel_half_segment_panics` — a valid image with a segment below the user half
  panics the loader
-/

namespace DioptaseOS.Sys

open DioptaseOS.Vmem

/-! ### The image -/

def eiClass : Nat := 4
def eiData : Nat := 5
def elfClass32 : Nat := 1
def elfData2Lsb : Nat := 1
def emDioptase : Nat := 0xD105

def pfX : Nat := 0x1
def pfW : Nat := 0x2
def pfR : Nat := 0x4

/-- `sizeof(struct ElfHeader)`. -/
def elfHeaderSize : Nat := 52

/-- `sizeof(struct ElfProgramHeader)`. -/
def programHeaderSize : Nat := 32

/-- The byte at `off` of the image. -/
def byteAt (img : List UInt8) (off : Nat) : Nat := (img.getD off 0).toNat

/-- The little-endian value of the `w` bytes of the image from `off`. -/
def readLe (img : List UInt8) (off : Nat) : Nat → Nat
  | 0 => 0
  | w + 1 => byteAt img off + 256 * readLe img (off + 1) w

theorem byteAt_lt (img : List UInt8) (off : Nat) : byteAt img off < 256 :=
  (img.getD off 0).toNat_lt

theorem readLe_lt (img : List UInt8) (off w : Nat) : readLe img off w < 256 ^ w := by
  induction w generalizing off with
  | zero => simp [readLe]
  | succ w ih =>
    have hb := byteAt_lt img off
    have hr := ih (off + 1)
    rw [readLe, pow_succ]
    omega

/-- The fields of `struct ElfHeader` that the validator and the loader read, at their
offsets: `e_machine` at 18, `e_entry` at 24, `e_phoff` at 28, `e_ehsize` at 40, `e_phentsize`
at 42 and `e_phnum` at 44. -/
structure ElfHeader where
  machine : Nat
  entry : Nat
  phoff : Nat
  ehsize : Nat
  phentsize : Nat
  phnum : Nat
  deriving DecidableEq, Repr

/-- The file header at the start of the image. -/
def ElfHeader.read (img : List UInt8) : ElfHeader where
  machine := readLe img 18 2
  entry := readLe img 24 4
  phoff := readLe img 28 4
  ehsize := readLe img 40 2
  phentsize := readLe img 42 2
  phnum := readLe img 44 2

/-- The fields of `struct ElfProgramHeader` that the validator and the loader read:
`p_offset` at 4, `p_vaddr` at 8, `p_filesz` at 16, `p_memsz` at 20 and `p_flags` at 24. -/
structure ProgramHeader where
  offset : Nat
  vaddr : Nat
  filesz : Nat
  memsz : Nat
  flags : Nat
  deriving DecidableEq, Repr

/-- The program header at byte `off` of the image. -/
def ProgramHeader.read (img : List UInt8) (off : Nat) : ProgramHeader where
  offset := readLe img (off + 4) 4
  vaddr := readLe img (off + 8) 4
  filesz := readLe img (off + 16) 4
  memsz := readLe img (off + 20) 4
  flags := readLe img (off + 24) 4

/-- `e_phoff + i * e_phentsize` on 32 bits: where both loops find the `i`-th program
header. -/
def phdrOffset (h : ElfHeader) (i : Nat) : Nat := (h.phoff + i * h.phentsize) % 2 ^ 32

theorem ElfHeader.read_phoff_lt (img : List UInt8) : (ElfHeader.read img).phoff < 2 ^ 32 :=
  readLe_lt img 28 4

theorem ElfHeader.read_phnum_lt (img : List UInt8) : (ElfHeader.read img).phnum < 2 ^ 16 :=
  readLe_lt img 44 2

theorem phdrOffset_read_zero (img : List UInt8) :
    phdrOffset (ElfHeader.read img) 0 = (ElfHeader.read img).phoff := by
  rw [phdrOffset, Nat.zero_mul, Nat.add_zero]
  exact Nat.mod_eq_of_lt (ElfHeader.read_phoff_lt img)

/-! ### Validation -/

/-- `elf_header_bytes_in_range(image_size, offset, size)`: the `size` bytes at `offset` lie in
the image, checked without overflow. -/
def elfHeaderBytesInRange (imageSize offset size : Nat) : Bool :=
  if offset > imageSize then false
  else if size > imageSize - offset then false
  else true

theorem elfHeaderBytesInRange_iff {imageSize offset size : Nat} :
    elfHeaderBytesInRange imageSize offset size = true ↔ offset + size ≤ imageSize := by
  unfold elfHeaderBytesInRange
  split_ifs with hoff hsize
  · simp only [false_iff]
    omega
  · simp only [false_iff]
    omega
  · simp only [true_iff]
    omega

/-- The checks of the validator's loop on one program header. -/
def programHeaderOk (imageSize : Nat) (ph : ProgramHeader) : Bool :=
  !(ph.memsz < ph.filesz) &&
    !(ph.filesz != 0 && !elfHeaderBytesInRange imageSize ph.offset ph.filesz)

/-- `elf_validate_image(elf_image, image_size)`. -/
def elfValidateImage (img : List UInt8) (imageSize : Nat) : Bool :=
  if imageSize < elfHeaderSize then false
  else
    let h := ElfHeader.read img
    if byteAt img 0 ≠ 0x7F ∨ byteAt img 1 ≠ 'E'.toNat ∨ byteAt img 2 ≠ 'L'.toNat ∨
        byteAt img 3 ≠ 'F'.toNat then false
    else if byteAt img eiClass ≠ elfClass32 then false
    else if byteAt img eiData ≠ elfData2Lsb then false
    else if h.ehsize ≠ elfHeaderSize then false
    else if h.machine ≠ emDioptase then false
    else if h.phnum = 0 ∨ h.phentsize ≠ programHeaderSize then false
    else
      let phTableBytes := h.phnum * h.phentsize % 2 ^ 32
      if h.phnum ≠ 0 ∧ phTableBytes / h.phentsize ≠ h.phnum then false
      else if !elfHeaderBytesInRange imageSize h.phoff phTableBytes then false
      else (List.range h.phnum).all fun i =>
        programHeaderOk imageSize (ProgramHeader.read img (phdrOffset h i))

/-- What a valid image gives the loader: program headers of the expected size, a table that
lies in the image, and every header passing the loop's checks. -/
theorem elfValidateImage_spec {img : List UInt8} {imageSize : Nat}
    (h : elfValidateImage img imageSize = true) :
    (ElfHeader.read img).phentsize = programHeaderSize ∧ 0 < (ElfHeader.read img).phnum ∧
      (ElfHeader.read img).phoff + (ElfHeader.read img).phnum * programHeaderSize ≤ imageSize ∧
      ∀ i < (ElfHeader.read img).phnum,
        programHeaderOk imageSize (ProgramHeader.read img (phdrOffset (ElfHeader.read img) i)) =
          true := by
  have hlt := ElfHeader.read_phnum_lt img
  -- each check that passed is one conjunct
  simp only [elfValidateImage, Bool.if_false_left, Bool.and_eq_true, Bool.not_eq_true',
    decide_eq_false_iff_not] at h
  obtain ⟨-, -, -, -, -, -, h6, -, h8, h⟩ := h
  simp only [not_or, not_not] at h6
  obtain ⟨hnum, hent⟩ := h6
  -- the table of fewer than `2 ^ 16` entries of 32 bytes does not wrap
  have hbytes : (ElfHeader.read img).phnum * (ElfHeader.read img).phentsize % 2 ^ 32 =
      (ElfHeader.read img).phnum * programHeaderSize := by
    rw [hent, Nat.mod_eq_of_lt (by simp only [programHeaderSize]; omega)]
  simp only [Bool.not_eq_false, hbytes, elfHeaderBytesInRange_iff] at h8
  simp only [List.all_eq_true, List.mem_range] at h
  exact ⟨hent, Nat.pos_of_ne_zero hnum, h8, h⟩

/-- The loops read every program header inside a valid image of a 32-bit size: the `i`-th
lies at `e_phoff + 32 i`, and its 32 bytes end within the image. -/
theorem elfValidateImage_phdr_in_range {img : List UInt8} {imageSize : Nat}
    (h : elfValidateImage img imageSize = true) (hsize : imageSize < 2 ^ 32) {i : Nat}
    (hi : i < (ElfHeader.read img).phnum) :
    phdrOffset (ElfHeader.read img) i = (ElfHeader.read img).phoff + i * programHeaderSize ∧
      phdrOffset (ElfHeader.read img) i + programHeaderSize ≤ imageSize := by
  obtain ⟨hent, -, htable, -⟩ := elfValidateImage_spec h
  have hle : (ElfHeader.read img).phoff + i * programHeaderSize + programHeaderSize ≤
      imageSize :=
    calc (ElfHeader.read img).phoff + i * programHeaderSize + programHeaderSize
        = (ElfHeader.read img).phoff + (i + 1) * programHeaderSize := by ring
      _ ≤ (ElfHeader.read img).phoff + (ElfHeader.read img).phnum * programHeaderSize := by
        gcongr; omega
      _ ≤ imageSize := htable
  have hoff : phdrOffset (ElfHeader.read img) i =
      (ElfHeader.read img).phoff + i * programHeaderSize := by
    rw [phdrOffset, hent, Nat.mod_eq_of_lt (by simp only [programHeaderSize] at hle ⊢; omega)]
  exact ⟨hoff, hoff ▸ hle⟩

/-! ### Loading -/

/-- The VME flags `program_header_load` gives a segment: `MMAP_USER` and the permissions of
its `p_flags`. -/
def segmentFlags (flags : Nat) : Nat :=
  let f := mmapUser
  let f := if hasFlag flags pfR then f ||| mmapRead else f
  let f := if hasFlag flags pfW then f ||| mmapWrite else f
  if hasFlag flags pfX then f ||| mmapExec else f

/-- A segment's VME is a user VME whose read, write and execute flags are those of
`p_flags`. -/
theorem hasFlag_segmentFlags (flags : Nat) :
    hasFlag (segmentFlags flags) mmapUser = true ∧
      hasFlag (segmentFlags flags) mmapRead = hasFlag flags pfR ∧
      hasFlag (segmentFlags flags) mmapWrite = hasFlag flags pfW ∧
      hasFlag (segmentFlags flags) mmapExec = hasFlag flags pfX := by
  cases hR : hasFlag flags pfR <;> cases hW : hasFlag flags pfW <;>
    cases hX : hasFlag flags pfX <;> simp only [segmentFlags, hR, hW, hX] <;> decide

/-- `vme_change_perms(vme, new_flags)` on the VME list; the page-table entries it rewrites
are not part of this model. -/
def vmeChangePerms (l : List Vme) (vme : Vme) (newFlags : Nat) : List Vme :=
  l.map fun v => if v = vme then { v with flags := newFlags } else v

/-- `program_header_load(elf_image, phoff)` on the VME list and user memory. The segment is
mapped readable and writable for the copy, then given its own flags. -/
def programHeaderLoad (l : List Vme) (mem : Nat → Nat) (img : List UInt8) (phoff : Nat) :
    Option (List Vme × (Nat → Nat)) :=
  let ph := ProgramHeader.read img phoff
  match mmapAt l ph.memsz none ph.offset (mmapRead ||| mmapWrite ||| mmapUser) ph.vaddr with
  | none => none
  | some (l, vme) =>
    let mem := writeBytes mem ph.vaddr
      ((List.range ph.filesz).map fun i => byteAt img (ph.offset + i))
    -- `vme_change_perms` dereferences the VME, `NULL` for an empty segment
    vme.map fun vme => (vmeChangePerms l vme (segmentFlags ph.flags), mem)

/-- `elf_load(elf_image)`: the program headers loaded in order, and `e_entry`. -/
def elfLoad (l : List Vme) (mem : Nat → Nat) (img : List UInt8) :
    Option (List Vme × (Nat → Nat) × Nat) :=
  let h := ElfHeader.read img
  ((List.range h.phnum).foldlM
      (fun (s : List Vme × (Nat → Nat)) i => programHeaderLoad s.1 s.2 img (phdrOffset h i))
      (l, mem)).map
    fun (l, mem) => (l, mem, h.entry)

variable {l l' : List Vme} {mem mem' : Nat → Nat} {img : List UInt8} {off : Nat}

/-- The flags of the copy are those of a user VME. -/
theorem hasFlag_copyFlags : hasFlag (mmapRead ||| mmapWrite ||| mmapUser) mmapUser = true := by
  decide

/-- A segment of some bytes below the user half panics `mmap_at`. -/
theorem programHeaderLoad_eq_none_of_lt (hmemsz : (ProgramHeader.read img off).memsz ≠ 0)
    (hvaddr : (ProgramHeader.read img off).vaddr < userVmemStart) :
    programHeaderLoad l mem img off = none := by
  have hhold : vmemRangeCanHold (ProgramHeader.read img off).vaddr
      (roundUp (ProgramHeader.read img off).memsz)
      (vmemRangeStart (mmapRead ||| mmapWrite ||| mmapUser))
      (vmemRangeEnd (mmapRead ||| mmapWrite ||| mmapUser)) = false := by
    simp [vmemRangeCanHold, vmemRangeStart, hasFlag_copyFlags, hvaddr]
  simp only [programHeaderLoad, mmapAt_eq_none_of_canHold_eq_false hmemsz hhold]

/-- An empty segment gets no VME, and `vme_change_perms(NULL, ...)` crashes. -/
theorem programHeaderLoad_eq_none_of_empty (hmemsz : (ProgramHeader.read img off).memsz = 0) :
    programHeaderLoad l mem img off = none := by
  simp only [programHeaderLoad, hmemsz, mmapAt_zero, Option.map_none]

/-- A loaded segment: a VME at `p_vaddr` spanning `p_memsz` bytes with the segment's flags,
and the `p_filesz` bytes of the image at `p_offset` copied to `p_vaddr`. -/
theorem programHeaderLoad_eq_some (h : programHeaderLoad l mem img off = some (l', mem')) :
    let ph := ProgramHeader.read img off
    (∃ vme ∈ l', vme.start = ph.vaddr ∧ ph.vaddr + ph.memsz ≤ vme.endAddr ∧
        vme.flags = segmentFlags ph.flags) ∧
      ∀ j < ph.filesz, mem' (ph.vaddr + j) = byteAt img (ph.offset + j) := by
  dsimp only
  simp only [programHeaderLoad] at h
  set ph := ProgramHeader.read img off
  split at h
  · cases h
  rename_i l₀ vme? hmap
  obtain ⟨vme, rfl, hpair⟩ := Option.map_eq_some_iff.mp h
  simp only [Prod.mk.injEq] at hpair
  obtain ⟨rfl, rfl⟩ := hpair
  obtain ⟨hmem, hstart, hend, hpos, -⟩ := mmapAt_eq_some hmap
  -- the rounding did not wrap, so the VME covers the segment
  have hlt : ph.memsz < 2 ^ 32 := readLe_lt img (off + 20) 4
  have hround : ph.memsz ≤ roundUp ph.memsz :=
    (roundUp_eq_zero_or_le hlt).resolve_left (by omega)
  have hcover : ph.vaddr + ph.memsz ≤ vme.endAddr := by omega
  refine ⟨⟨{ vme with flags := segmentFlags ph.flags }, List.mem_map.mpr ⟨vme, hmem, by simp⟩,
    hstart, hcover, rfl⟩, fun j hj => ?_⟩
  simp [writeBytes, hj]

/-- The loader's loop stops at the first program header it cannot load. -/
theorem elfLoad_eq_none_of_first (hphnum : 0 < (ElfHeader.read img).phnum)
    (h : programHeaderLoad l mem img (ElfHeader.read img).phoff = none) :
    elfLoad l mem img = none := by
  obtain ⟨n, hn⟩ := Nat.exists_eq_add_of_lt hphnum
  simp only [elfLoad, hn, Nat.zero_add, List.range_succ_eq_map, List.foldlM_cons,
    phdrOffset_read_zero, h]
  rfl

/-- The `w` little-endian bytes of `n`. -/
def leBytes : Nat → Nat → List UInt8
  | 0, _ => []
  | w + 1, n => UInt8.ofNat (n % 256) :: leBytes w (n / 256)

/-- A valid image of one loadable segment: a page at `0x1000`, below the user half, readable
and executable, with no file bytes. The program header follows the file header. -/
def kernelHalfImage : List UInt8 :=
  [0x7F, 0x45, 0x4C, 0x46, 1, 1, 1] ++ List.replicate 9 0 ++
    leBytes 2 2 ++ leBytes 2 emDioptase ++ leBytes 4 1 ++ leBytes 4 0x80000000 ++
    leBytes 4 elfHeaderSize ++ leBytes 4 0 ++ leBytes 4 0 ++ leBytes 2 elfHeaderSize ++
    leBytes 2 programHeaderSize ++ leBytes 2 1 ++ leBytes 2 0 ++ leBytes 2 0 ++ leBytes 2 0 ++
    -- the program header: `PT_LOAD`, offset 0, vaddr, paddr, filesz, memsz, flags, align
    leBytes 4 1 ++ leBytes 4 0 ++ leBytes 4 0x1000 ++ leBytes 4 0 ++ leBytes 4 0 ++
    leBytes 4 0x1000 ++ leBytes 4 (pfR ||| pfX) ++ leBytes 4 0x1000

/-- The validator accepts `kernelHalfImage`, and the loader, run on the empty VME list of a
fresh address space, panics in `mmap_at` on its segment, where the image should have been
rejected. -/
theorem elfLoad_kernel_half_segment_panics (mem : Nat → Nat) :
    elfValidateImage kernelHalfImage kernelHalfImage.length = true ∧
      elfLoad [] mem kernelHalfImage = none :=
  ⟨by decide, elfLoad_eq_none_of_first (by decide)
    (programHeaderLoad_eq_none_of_lt (by decide) (by decide))⟩

end DioptaseOS.Sys
