import Mathlib.Data.List.Nodup
import DioptaseOS.Ext2.Basic
import DioptaseOS.Lib.RadixTree

/-!
# ext2: the block tree of an inode

`node_add_block` appends a data block to an inode: through `block[0..11]` directly, then
through the single, double and triple indirect trees rooted at `block[12]`, `block[13]` and
`block[14]`, allocating the pointer blocks a new slot needs on the way. `node_dealloc_blocks`
frees the whole tree through `ext2_free_indirect_tree`. Pointer blocks are read and written
whole through the block cache; the model reads a block as the list of its `block_size / 4`
words, and takes the store of those lists for the cache, which `BlockCache` shows coherent for
one thread at a time. The tier limits are computed in the driver's 32-bit `unsigned`.

## Main definitions

* `nodeAddBlock` — `node_add_block`, tier by tier, over any allocator
* `ext2FreeIndirectTree`, `nodeDeallocBlocks` — the blocks the free walk passes to
  `dealloc_block`, in order
* `TreeOk` — the tree of an inode holds its data blocks, packed from the front, with the
  pointer blocks it was given

## Main results

* `nodeAddBlock_treeOk` — one append keeps `TreeOk`, with the blocks it allocated
* `nodeDeallocBlocks_frees_attached` — the free walk frees the data blocks and the pointer
  blocks that the appends attached, each once, and nothing else
-/

namespace DioptaseOS.Ext2

open RadixTree

open scoped List

/-! ### Geometry -/

/-- `ext2_get_block_size`: `1024 << log_block_size`, an `unsigned`. -/
def ext2GetBlockSize (logBlockSize : ℕ) : ℕ := (1024 <<< logBlockSize) % 2 ^ 32

/-- `block_size / 4`: the block numbers a pointer block holds. -/
def entriesPerBlock (blockSize : ℕ) : ℕ := blockSize / 4

/-- `ext2_sectors_per_block`: `block_size / SD_SECTOR_SIZE_BYTES`. -/
def ext2SectorsPerBlock (blockSize : ℕ) : ℕ := blockSize / 512

/-- `single_limit = 12 + entries_per_block`. -/
def singleLimit (blockSize : ℕ) : ℕ := (12 + entriesPerBlock blockSize) % 2 ^ 32

/-- `double_span = entries_per_block * entries_per_block`. -/
def doubleSpan (blockSize : ℕ) : ℕ :=
  (entriesPerBlock blockSize * entriesPerBlock blockSize) % 2 ^ 32

/-- `double_limit = single_limit + double_span`. -/
def doubleLimit (blockSize : ℕ) : ℕ := (singleLimit blockSize + doubleSpan blockSize) % 2 ^ 32

/-- `triple_span = double_span * entries_per_block`. -/
def tripleSpan (blockSize : ℕ) : ℕ := (doubleSpan blockSize * entriesPerBlock blockSize) % 2 ^ 32

/-- `triple_limit = double_limit + triple_span`. -/
def tripleLimit (blockSize : ℕ) : ℕ := (doubleLimit blockSize + tripleSpan blockSize) % 2 ^ 32

/-- A pointer block after `ext2_zero_pointer_block`, or a block after `alloc_block` zeroed it. -/
def zeroRow (blockSize : ℕ) : List ℕ := List.replicate (entriesPerBlock blockSize) 0

/-- What the proofs use of the tier limits of a block size: the sums do not wrap, the spans fit
the trees below them, and a triple tier that is not empty sits on a double span that did not
wrap. -/
structure Geometry (blockSize : ℕ) : Prop where
  single : singleLimit blockSize = 12 + entriesPerBlock blockSize
  double : doubleLimit blockSize = singleLimit blockSize + doubleSpan blockSize
  triple : tripleLimit blockSize = doubleLimit blockSize + tripleSpan blockSize
  doubleSpan_eq : tripleSpan blockSize ≠ 0 →
    doubleSpan blockSize = entriesPerBlock blockSize * entriesPerBlock blockSize

theorem doubleSpan_le (blockSize : ℕ) :
    doubleSpan blockSize ≤ entriesPerBlock blockSize * entriesPerBlock blockSize :=
  Nat.mod_le _ _

theorem tripleSpan_le (blockSize : ℕ) : tripleSpan blockSize ≤
    entriesPerBlock blockSize * entriesPerBlock blockSize * entriesPerBlock blockSize :=
  (Nat.mod_le _ _).trans (Nat.mul_le_mul_right _ (doubleSpan_le blockSize))

theorem two_pow_mod_two_pow_32 (k : ℕ) : 2 ^ k % 2 ^ 32 = if k < 32 then 2 ^ k else 0 := by
  split_ifs with hk
  · exact Nat.mod_eq_of_lt (Nat.pow_lt_pow_right (by decide) hk)
  · exact Nat.mod_eq_zero_of_dvd (Nat.pow_dvd_pow 2 (by omega))

/-- A block size of the driver has `2 ^ (8 + log_block_size)` entries per pointer block, or
none when `1024 << log_block_size` leaves the 32 bits. -/
theorem entriesPerBlock_ext2GetBlockSize (logBlockSize : ℕ) :
    entriesPerBlock (ext2GetBlockSize logBlockSize) =
      if logBlockSize < 22 then 2 ^ (8 + logBlockSize) else 0 := by
  have h : 1024 <<< logBlockSize = 2 ^ (10 + logBlockSize) := by
    rw [Nat.shiftLeft_eq, Nat.pow_add]
  unfold entriesPerBlock ext2GetBlockSize
  rw [h, two_pow_mod_two_pow_32]
  by_cases hlog : logBlockSize < 22
  · rw [if_pos (by omega), if_pos hlog, show 10 + logBlockSize = 2 + (8 + logBlockSize) by omega,
      Nat.pow_add, Nat.mul_div_cancel_left _ (by decide)]
  · rw [if_neg (by omega), if_neg hlog]

/-- The limits of a tree whose pointer blocks hold `2 ^ a` entries, `a < 30`. -/
theorem geometry_of_pow {blockSize a : ℕ} (ha : a < 30)
    (hE : entriesPerBlock blockSize = 2 ^ a) : Geometry blockSize := by
  have hsq : doubleSpan blockSize = if a + a < 32 then 2 ^ (a + a) else 0 := by
    rw [doubleSpan, hE, ← Nat.pow_add, two_pow_mod_two_pow_32]
  have hcube : tripleSpan blockSize = if a + a + a < 32 then 2 ^ (a + a + a) else 0 := by
    rw [tripleSpan, hsq, hE]
    split_ifs with h₁ h₂ h₂
    · rw [← Nat.pow_add, Nat.mod_eq_of_lt (Nat.pow_lt_pow_right (by decide) h₂)]
    · rw [← Nat.pow_add, Nat.mod_eq_zero_of_dvd (Nat.pow_dvd_pow 2 (by omega))]
    · omega
    · simp
  have hsingle : singleLimit blockSize = 12 + 2 ^ a := by
    have : 2 ^ a ≤ 2 ^ 29 := Nat.pow_le_pow_right (by decide) (by omega)
    rw [singleLimit, hE, Nat.mod_eq_of_lt (by omega)]
  have hdouble : doubleLimit blockSize = singleLimit blockSize + doubleSpan blockSize := by
    rw [doubleLimit, hsingle, hsq]
    split_ifs with h
    · have : 2 ^ a ≤ 2 ^ 15 := Nat.pow_le_pow_right (by decide) (by omega)
      have : 2 ^ (a + a) ≤ 2 ^ 30 := Nat.pow_le_pow_right (by decide) (by omega)
      rw [Nat.mod_eq_of_lt (by omega)]
    · have : 2 ^ a ≤ 2 ^ 29 := Nat.pow_le_pow_right (by decide) (by omega)
      rw [Nat.mod_eq_of_lt (by omega)]
  refine ⟨by rw [hsingle, hE], hdouble, ?_, ?_⟩
  · rw [tripleLimit, hdouble, hsingle, hsq, hcube]
    split_ifs with h₁ h₂ h₂
    · have : 2 ^ a ≤ 2 ^ 10 := Nat.pow_le_pow_right (by decide) (by omega)
      have : 2 ^ (a + a) ≤ 2 ^ 20 := Nat.pow_le_pow_right (by decide) (by omega)
      have : 2 ^ (a + a + a) ≤ 2 ^ 30 := Nat.pow_le_pow_right (by decide) (by omega)
      rw [Nat.mod_eq_of_lt (by omega)]
    · have : 2 ^ a ≤ 2 ^ 15 := Nat.pow_le_pow_right (by decide) (by omega)
      have : 2 ^ (a + a) ≤ 2 ^ 30 := Nat.pow_le_pow_right (by decide) (by omega)
      rw [Nat.mod_eq_of_lt (by omega)]
    · omega
    · have : 2 ^ a ≤ 2 ^ 29 := Nat.pow_le_pow_right (by decide) (by omega)
      rw [Nat.mod_eq_of_lt (by omega)]
  · intro hne
    rw [hcube] at hne
    have h₂ : a + a < 32 := by split_ifs at hne with h; omega; simp at hne
    rw [hsq, if_pos h₂, hE, Nat.pow_add]

/-- The limits of a tree whose pointer blocks hold nothing: every indirect tier is empty. -/
theorem geometry_of_zero {blockSize : ℕ} (hE : entriesPerBlock blockSize = 0) :
    Geometry blockSize := by
  have hd : doubleSpan blockSize = 0 := by simp [doubleSpan, hE]
  have ht : tripleSpan blockSize = 0 := by simp [tripleSpan, hd]
  refine ⟨by simp [singleLimit, hE], ?_, ?_, by simp [ht]⟩
  · simp [doubleLimit, singleLimit, hE, hd]
  · simp [tripleLimit, doubleLimit, singleLimit, hE, hd, ht]

/-- Every block size of the driver has the geometry the proofs use. -/
theorem geometry_ext2GetBlockSize (logBlockSize : ℕ) :
    Geometry (ext2GetBlockSize logBlockSize) := by
  have hE := entriesPerBlock_ext2GetBlockSize logBlockSize
  split_ifs at hE with hlog
  · exact geometry_of_pow (by omega) hE
  · exact geometry_of_zero hE

/-! ### State -/

/-- What `node_add_block` and `node_dealloc_blocks` read and write: the allocator's state, every
block as the list of its words, the inode and `data_block_count`. -/
structure TreeState (σ : Type) where
  alloc : σ
  store : ℕ → List ℕ
  inode : Inode
  dataBlockCount : ℕ

namespace TreeState

variable {σ : Type}

/-- `inode.block[i] = v`. -/
def setBlock (st : TreeState σ) (i v : ℕ) : TreeState σ :=
  { st with inode := { st.inode with block := Function.update st.inode.block i v } }

/-- `bcache_set(&fs->bcache, p, row, 0, block_size)`: a whole pointer block written back. -/
def writeRow (st : TreeState σ) (p : ℕ) (row : List ℕ) : TreeState σ :=
  { st with store := Function.update st.store p row }

/-- The end of every branch of `node_add_block`: `inode.blocks += reserved_blocks *
sectors_per_block` and `data_block_count += 1`. -/
def account (st : TreeState σ) (blockSize reserved : ℕ) : TreeState σ :=
  { st with
    inode := { st.inode with
      blocks := (st.inode.blocks + reserved * ext2SectorsPerBlock blockSize) % 2 ^ 32 }
    dataBlockCount := st.dataBlockCount + 1 }

/-- The last step of every indirect tier: `single[slot] = block_num`, the leaf written back to
its block, and the counters moved. -/
def publish (st : TreeState σ) (blockSize leaf : ℕ) (single : List ℕ)
    (slot blockNum reserved : ℕ) : TreeState σ :=
  (st.writeRow leaf (single.set slot blockNum)).account blockSize reserved

@[simp] theorem setBlock_store (st : TreeState σ) (i v : ℕ) : (st.setBlock i v).store = st.store :=
  rfl
@[simp] theorem setBlock_alloc (st : TreeState σ) (i v : ℕ) : (st.setBlock i v).alloc = st.alloc :=
  rfl
@[simp] theorem setBlock_dataBlockCount (st : TreeState σ) (i v : ℕ) :
    (st.setBlock i v).dataBlockCount = st.dataBlockCount := rfl
@[simp] theorem setBlock_block (st : TreeState σ) (i v : ℕ) :
    (st.setBlock i v).inode.block = Function.update st.inode.block i v := rfl
@[simp] theorem writeRow_store (st : TreeState σ) (p : ℕ) (row : List ℕ) :
    (st.writeRow p row).store = Function.update st.store p row := rfl
@[simp] theorem writeRow_alloc (st : TreeState σ) (p : ℕ) (row : List ℕ) :
    (st.writeRow p row).alloc = st.alloc := rfl
@[simp] theorem writeRow_inode (st : TreeState σ) (p : ℕ) (row : List ℕ) :
    (st.writeRow p row).inode = st.inode := rfl
@[simp] theorem writeRow_dataBlockCount (st : TreeState σ) (p : ℕ) (row : List ℕ) :
    (st.writeRow p row).dataBlockCount = st.dataBlockCount := rfl
@[simp] theorem account_store (st : TreeState σ) (bs r : ℕ) : (st.account bs r).store = st.store :=
  rfl
@[simp] theorem account_alloc (st : TreeState σ) (bs r : ℕ) : (st.account bs r).alloc = st.alloc :=
  rfl
@[simp] theorem account_block (st : TreeState σ) (bs r : ℕ) :
    (st.account bs r).inode.block = st.inode.block := rfl
@[simp] theorem account_dataBlockCount (st : TreeState σ) (bs r : ℕ) :
    (st.account bs r).dataBlockCount = st.dataBlockCount + 1 := rfl

end TreeState

/-! ### The tree invariant -/

/-- The data blocks of the tier between the logical blocks `lo` and `hi`. -/
def tierSlice (lo hi : ℕ) (data : List ℕ) : List ℕ := (data.drop lo).take (hi - lo)

/-- The first logical block of tier `t`: `0` the single, `1` the double, `2` the triple
indirect tier. -/
def tierLo (blockSize : ℕ) : ℕ → ℕ
  | 0 => 12
  | 1 => singleLimit blockSize
  | _ => doubleLimit blockSize

/-- The logical block past the end of tier `t`. -/
def tierHi (blockSize : ℕ) : ℕ → ℕ
  | 0 => singleLimit blockSize
  | 1 => doubleLimit blockSize
  | _ => tripleLimit blockSize

/-- The tree of a tier holds `leaves` with the pointer blocks `nodes`; an empty tier has the
root pointer `0` and no pointer block. -/
def TierHolds (w : ℕ) (store : ℕ → List ℕ) (root h : ℕ) (leaves nodes : List ℕ) : Prop :=
  (leaves = [] ∧ root = 0 ∧ nodes = []) ∨ (leaves ≠ [] ∧ Holds w store h root leaves nodes)

/-- The block tree of an inode holds the data blocks `data`, in file order, with the pointer
blocks `nodes`: the direct pointers hold the first twelve, and the tree of each indirect tier
holds the data blocks of that tier, packed from the front. -/
structure TreeOk {σ : Type} (blockSize : ℕ) (st : TreeState σ) (data nodes : List ℕ) : Prop where
  count : st.dataBlockCount = data.length
  le_limit : data.length ≤ tripleLimit blockSize
  data_ne_zero : ∀ b ∈ data, b ≠ 0
  nodup : nodes.Nodup
  nodes_ne_zero : ∀ q ∈ nodes, q ≠ 0
  direct : ∀ i < 12, st.inode.block i = data.getD i 0
  tiers : ∃ ns : Fin 3 → List ℕ, nodes ~ ns 0 ++ ns 1 ++ ns 2 ∧ ∀ t : Fin 3,
    TierHolds (entriesPerBlock blockSize) st.store (st.inode.block (12 + t)) t
      (tierSlice (tierLo blockSize t) (tierHi blockSize t) data) (ns t)

section Slices

variable {lo hi b : ℕ} {data : List ℕ}

theorem tierSlice_eq_nil (h : data.length ≤ lo) : tierSlice lo hi data = [] := by
  simp [tierSlice, List.drop_eq_nil_of_le h]

theorem tierSlice_length : (tierSlice lo hi data).length = min (hi - lo) (data.length - lo) := by
  simp [tierSlice]

theorem tierSlice_snoc_of_lt (h₁ : lo ≤ data.length) (h₂ : data.length < hi) :
    tierSlice lo hi (data ++ [b]) = tierSlice lo hi data ++ [b] := by
  unfold tierSlice
  rw [List.drop_append_of_le_length h₁, List.take_append, List.take_of_length_le (by simp; omega),
    List.take_of_length_le (by simp; omega)]

theorem tierSlice_snoc_of_le (h : hi ≤ data.length) :
    tierSlice lo hi (data ++ [b]) = tierSlice lo hi data := by
  unfold tierSlice
  by_cases hlo : lo ≤ data.length
  · rw [List.drop_append_of_le_length hlo, List.take_append, List.length_drop,
      show hi - lo - (data.length - lo) = 0 by omega, List.take_zero, List.append_nil]
  · simp [show hi - lo = 0 by omega]

theorem tierSlice_length_of_lt (h₁ : lo ≤ data.length) (h₂ : data.length < hi) :
    (tierSlice lo hi data).length = data.length - lo := by
  rw [tierSlice_length]; omega

theorem tierSlice_eq_nil_iff (h₁ : lo ≤ data.length) (h₂ : data.length < hi) :
    tierSlice lo hi data = [] ↔ data.length = lo := by
  rw [← List.length_eq_zero_iff, tierSlice_length_of_lt h₁ h₂]; omega

/-- A file is its direct blocks followed by the data blocks of its three tiers. -/
theorem take_append_tierSlices {s d t : ℕ} (h₁ : 12 ≤ s) (h₂ : s ≤ d) (h₃ : d ≤ t)
    (hlen : data.length ≤ t) :
    data = data.take 12 ++ tierSlice 12 s data ++ tierSlice s d data ++ tierSlice d t data := by
  unfold tierSlice
  rw [← List.take_add, Nat.add_sub_cancel' h₁, ← List.take_add, Nat.add_sub_cancel' h₂,
    ← List.take_add, Nat.add_sub_cancel' h₃, List.take_of_length_le hlen]

/-- The non-zero direct pointers of a file are its first twelve data blocks. -/
theorem filter_range_getD (hne : ∀ b ∈ data, b ≠ 0) (n : ℕ) :
    ((List.range n).map fun i => data.getD i 0).filter (· != 0) = data.take n := by
  induction n with
  | zero => simp
  | succ n ih =>
    rw [List.range_succ, List.map_append, List.filter_append, ih, List.take_add_one]
    by_cases hn : n < data.length
    · have hx := hne _ (List.getElem_mem hn)
      simp [List.getElem?_eq_getElem hn, hx]
    · simp [List.getElem?_eq_none (show data.length ≤ n by omega)]

end Slices

section Limits

variable {blockSize : ℕ}

theorem Geometry.tierLo_le_tierHi (hg : Geometry blockSize) {t : ℕ} (ht : t < 3) :
    tierLo blockSize t ≤ tierHi blockSize t := by
  obtain rfl | rfl | rfl : t = 0 ∨ t = 1 ∨ t = 2 := by omega
  · simp [tierLo, tierHi, hg.single]
  · simp [tierLo, tierHi, hg.double]
  · simp [tierLo, tierHi, hg.triple]

/-- The tiers follow each other: a tier ends where every later tier starts. -/
theorem Geometry.tierHi_le_tierLo (hg : Geometry blockSize) {t t' : ℕ} (h : t < t')
    (ht' : t' < 3) : tierHi blockSize t ≤ tierLo blockSize t' := by
  obtain rfl | rfl : t' = 1 ∨ t' = 2 := by omega
  · obtain rfl : t = 0 := by omega
    simp [tierLo, tierHi]
  · obtain rfl | rfl : t = 0 ∨ t = 1 := by omega
    · simp [tierLo, tierHi, hg.double]
    · simp [tierLo, tierHi]

theorem Geometry.twelve_le_tierLo (hg : Geometry blockSize) (t : ℕ) : 12 ≤ tierLo blockSize t := by
  match t with
  | 0 => simp [tierLo]
  | 1 => rw [tierLo, hg.single]; omega
  | _ + 2 =>
    show 12 ≤ doubleLimit blockSize
    rw [hg.double, hg.single]; omega

theorem Geometry.tierHi_le_tripleLimit (hg : Geometry blockSize) {t : ℕ} (ht : t < 3) :
    tierHi blockSize t ≤ tripleLimit blockSize := by
  obtain rfl | rfl | rfl : t = 0 ∨ t = 1 ∨ t = 2 := by omega
  · show singleLimit blockSize ≤ tripleLimit blockSize
    rw [hg.triple, hg.double]; omega
  · simp [tierHi, hg.triple]
  · simp [tierHi]

end Limits

/-! ### Appending a block -/

section Append

variable {σ : Type} (allocBlock : σ → Option (σ × ℕ)) (blockSize : ℕ)

/-- One metadata allocation of `node_add_block`: `alloc_block`, which zeroes the block through
the cache (`none` is its panic when no block is free), then the test `new_block == -1`, on
which the call returns false with what it has done so far. -/
def withNewBlock (st : TreeState σ) (k : TreeState σ → ℕ → Option (Bool × TreeState σ)) :
    Option (Bool × TreeState σ) :=
  match allocBlock st.alloc with
  | none => none
  | some (a, q) =>
    let st := { st with alloc := a, store := Function.update st.store q (zeroRow blockSize) }
    if q = 0xFFFFFFFF then some (false, st) else k st q

/-- The root of a tier: on the tier's first append a new pointer block in `block[i]` and a
zeroed buffer, two blocks reserved; otherwise the root read back, one block reserved. -/
def rootStage (st : TreeState σ) (i : ℕ) (fresh : Bool)
    (k : TreeState σ → List ℕ → ℕ → Option (Bool × TreeState σ)) : Option (Bool × TreeState σ) :=
  if fresh then
    withNewBlock allocBlock blockSize st fun st q => k (st.setBlock i q) (zeroRow blockSize) 2
  else k st (st.store (st.inode.block i)) 1

/-- The child at `slot` of the pointer block `parent`, whose buffer is `row`: on a fresh slot a
new pointer block, linked into the row and the row written back, and a zeroed buffer for it;
otherwise the child the row names, read back. -/
def childStage (st : TreeState σ) (parent : ℕ) (row : List ℕ) (slot : ℕ) (fresh : Bool)
    (reserved : ℕ) (k : TreeState σ → ℕ → List ℕ → ℕ → Option (Bool × TreeState σ)) :
    Option (Bool × TreeState σ) :=
  if fresh then
    withNewBlock allocBlock blockSize st fun st q =>
      k (st.writeRow parent (row.set slot q)) q (zeroRow blockSize) (reserved + 1)
  else k st (row.getD slot 0) (st.store (row.getD slot 0)) reserved

/-- The single indirect tier: the leaf is `block[12]`. -/
def addSingle (st : TreeState σ) (blockNum : ℕ) : Option (Bool × TreeState σ) :=
  let logicalBlock := st.dataBlockCount
  rootStage allocBlock blockSize st 12 (logicalBlock = 12) fun st single reserved =>
    some (true, st.publish blockSize (st.inode.block 12) single (logicalBlock - 12) blockNum
      reserved)

/-- The double indirect tier: the root `block[13]` holds a leaf for each
`entries_per_block` data blocks. -/
def addDouble (st : TreeState σ) (blockNum : ℕ) : Option (Bool × TreeState σ) :=
  let logicalBlock := st.dataBlockCount
  let doubleIndex := logicalBlock - singleLimit blockSize
  let indirectIndex := doubleIndex / entriesPerBlock blockSize
  let directIndex := doubleIndex % entriesPerBlock blockSize
  rootStage allocBlock blockSize st 13 (logicalBlock = singleLimit blockSize)
    fun st double reserved =>
  childStage allocBlock blockSize st (st.inode.block 13) double indirectIndex (directIndex = 0)
    reserved fun st leaf single reserved =>
  some (true, st.publish blockSize leaf single directIndex blockNum reserved)

/-- The triple indirect tier: the root `block[14]` holds a double indirect node for each
`double_span` data blocks. -/
def addTriple (st : TreeState σ) (blockNum : ℕ) : Option (Bool × TreeState σ) :=
  let logicalBlock := st.dataBlockCount
  let tripleIndex := logicalBlock - doubleLimit blockSize
  let outerIndex := tripleIndex / doubleSpan blockSize
  let middleIndex := tripleIndex / entriesPerBlock blockSize % entriesPerBlock blockSize
  let directIndex := tripleIndex % entriesPerBlock blockSize
  rootStage allocBlock blockSize st 14 (logicalBlock = doubleLimit blockSize)
    fun st triple reserved =>
  childStage allocBlock blockSize st (st.inode.block 14) triple outerIndex
    (tripleIndex % doubleSpan blockSize = 0) reserved fun st middle double reserved =>
  childStage allocBlock blockSize st middle double middleIndex (directIndex = 0)
    reserved fun st leaf single reserved =>
  some (true, st.publish blockSize leaf single directIndex blockNum reserved)

/-- `node_add_block(node, block_num)`: `some (true, _)` when the block was appended,
`some (false, _)` when it was refused, `none` when `alloc_block` panicked. -/
def nodeAddBlock (st : TreeState σ) (blockNum : ℕ) : Option (Bool × TreeState σ) :=
  let logicalBlock := st.dataBlockCount
  if logicalBlock < 12 then
    some (true, (st.setBlock logicalBlock blockNum).account blockSize 1)
  else if logicalBlock < singleLimit blockSize then addSingle allocBlock blockSize st blockNum
  else if logicalBlock < doubleLimit blockSize then addDouble allocBlock blockSize st blockNum
  else if logicalBlock < tripleLimit blockSize then addTriple allocBlock blockSize st blockNum
  else some (false, st)

/-- `node_add_block` over a list of blocks, one call after the other, stopping at the first
call that does not return true. -/
def addBlocks (st : TreeState σ) : List ℕ → Option (Bool × TreeState σ)
  | [] => some (true, st)
  | b :: bs =>
    match nodeAddBlock allocBlock blockSize st b with
    | some (true, st) => addBlocks st bs
    | r => r

end Append

/-! ### Freeing the tree -/

/-- `ext2_free_indirect_tree(fs, pointer_block_num, levels)`: the blocks it passes to
`dealloc_block`, in order; for each non-zero entry of the block, the entry itself at level `1`
and the walk one level down otherwise, then the block. -/
def ext2FreeIndirectTree (store : ℕ → List ℕ) : ℕ → ℕ → Except String (List ℕ)
  | _, 0 => .error "ext2_free_indirect_tree: invalid indirect level.\n"
  | p, levels + 1 =>
    if 3 < levels + 1 then .error "ext2_free_indirect_tree: invalid indirect level.\n"
    else if p = 0 then .error "ext2_free_indirect_tree: pointer block number is zero.\n"
    else
      let pointers := (store p).filter (· != 0)
      match levels with
      | 0 => .ok (pointers ++ [p])
      | levels + 1 =>
        (pointers.flatMapM fun q => ext2FreeIndirectTree store q (levels + 1)).map (· ++ [p])

/-- The test of `node_dealloc_blocks` for a symlink whose target is stored in `block[]`:
`size <= sizeof(inode.block)`, sixty bytes. -/
def isFastSymlink (inode : Inode) : Bool :=
  isSymlinkMode inode.mode && decide (inode.size ≤ 60)

/-- The free walk of one indirect tier, when its root is not `0`. -/
def freeTier (store : ℕ → List ℕ) (root levels : ℕ) : Except String (List ℕ) :=
  if root ≠ 0 then ext2FreeIndirectTree store root levels else .ok []

/-- `node_dealloc_blocks(node)`: the blocks it passes to `dealloc_block`, in order, and the
state afterwards, with `block[]`, `blocks`, `size` and `data_block_count` zero. -/
def nodeDeallocBlocks {σ : Type} (st : TreeState σ) : Except String (List ℕ × TreeState σ) := do
  let freed ← if isFastSymlink st.inode then pure [] else do
    let direct := ((List.range 12).map st.inode.block).filter (· != 0)
    let single ← freeTier st.store (st.inode.block 12) 1
    let double ← freeTier st.store (st.inode.block 13) 2
    let triple ← freeTier st.store (st.inode.block 14) 3
    pure (direct ++ single ++ double ++ triple)
  pure (freed, { st with
    inode := { st.inode with block := fun _ => 0, blocks := 0, size := 0 }
    dataBlockCount := 0 })

/-! ### Freeing a tree that holds its blocks -/

section Free

variable {w : ℕ} {store : ℕ → List ℕ}

theorem flatMapM_ok {α β : Type} {f : α → Except String (List β)} {g : α → List β} :
    ∀ {l : List α}, (∀ x ∈ l, f x = .ok (g x)) → l.flatMapM f = .ok (l.flatMap g)
  | [], _ => rfl
  | x :: l, h => by
    rw [List.flatMapM_cons, h x List.mem_cons_self,
      flatMapM_ok fun y hy => h y (List.mem_cons_of_mem _ hy)]
    rfl

/-- On a tree that holds its blocks, `ext2_free_indirect_tree` passes its asserts and frees what
the walk of the tree visits. -/
theorem ext2FreeIndirectTree_eq_collect {h p : ℕ} {leaves nodes : List ℕ}
    (hp : Holds w store h p leaves nodes) (hne : ∀ q ∈ nodes, q ≠ 0) (hh : h < 3) :
    ext2FreeIndirectTree store p (h + 1) = .ok (collect store h p) := by
  induction h generalizing p leaves nodes with
  | zero =>
    have hp0 : p ≠ 0 := hne p hp.mem_nodes
    simp [ext2FreeIndirectTree, hp0, collect]
  | succ h ih =>
    have hp0 : p ≠ 0 := hne p hp.mem_nodes
    obtain ⟨kids, hrow, hkids, -, -, rfl⟩ := hp
    -- every entry of the row is a child, and the walk below each child passes its asserts
    have hrec : ∀ q ∈ (store p).filter (· != 0),
        ext2FreeIndirectTree store q (h + 1) = .ok (collect store h q) := by
      rw [hrow.filter]
      intro q hq
      obtain ⟨k, hk, rfl⟩ := List.mem_map.mp hq
      refine ih (hkids k hk) (fun x hx => hne x ?_) (by omega)
      exact List.mem_append_left _ (List.mem_flatMap.mpr ⟨k, hk, hx⟩)
    rw [ext2FreeIndirectTree, if_neg (by omega), if_neg hp0]
    dsimp only
    rw [flatMapM_ok hrec]
    rfl

theorem TierHolds.freeTier_perm {root h : ℕ} {leaves nodes : List ℕ}
    (ht : TierHolds w store root h leaves nodes) (hne : ∀ q ∈ nodes, q ≠ 0) (hh : h < 3) :
    ∃ l, freeTier store root (h + 1) = .ok l ∧ l ~ leaves ++ nodes := by
  rcases ht with ⟨rfl, rfl, rfl⟩ | ⟨-, hp⟩
  · exact ⟨[], by simp [freeTier], by simp⟩
  · have hr : root ≠ 0 := hne root hp.mem_nodes
    refine ⟨_, ?_, hp.collect_perm⟩
    rw [freeTier, if_pos hr, ext2FreeIndirectTree_eq_collect hp hne hh]

end Free

/-- `node_dealloc_blocks` on a tree that holds its blocks: unless the inode is a fast symlink, it
frees every data block and every pointer block of the tree once, and nothing else. -/
theorem TreeOk.nodeDeallocBlocks_eq {σ : Type} {blockSize : ℕ} {st : TreeState σ}
    {data nodes : List ℕ} (hg : Geometry blockSize) (hok : TreeOk blockSize st data nodes) :
    ∃ freed, nodeDeallocBlocks st = .ok (freed, { st with
        inode := { st.inode with block := fun _ => 0, blocks := 0, size := 0 }
        dataBlockCount := 0 }) ∧
      if isFastSymlink st.inode then freed = [] else freed ~ data ++ nodes := by
  obtain ⟨ns, hperm, htiers⟩ := hok.tiers
  have hns : ∀ t : Fin 3, ∀ q ∈ ns t, q ≠ 0 := by
    intro t q hq
    refine hok.nodes_ne_zero q (hperm.symm.subset ?_)
    match t, hq with
    | 0, hq => simp [hq]
    | 1, hq => simp [hq]
    | 2, hq => simp [hq]
  obtain ⟨l₀, hf₀, hp₀⟩ := (htiers 0).freeTier_perm (hns 0) (by decide)
  obtain ⟨l₁, hf₁, hp₁⟩ := (htiers 1).freeTier_perm (hns 1) (by decide)
  obtain ⟨l₂, hf₂, hp₂⟩ := (htiers 2).freeTier_perm (hns 2) (by decide)
  have hdirect : ((List.range 12).map st.inode.block).filter (· != 0) = data.take 12 := by
    rw [List.map_congr_left fun i hi => hok.direct i (List.mem_range.mp hi)]
    exact filter_range_getD hok.data_ne_zero 12
  by_cases hfast : isFastSymlink st.inode
  · exact ⟨[], by simp [nodeDeallocBlocks, hfast]; rfl, by simp [hfast]⟩
  refine ⟨data.take 12 ++ l₀ ++ l₁ ++ l₂, ?_, ?_⟩
  · simp only [nodeDeallocBlocks, hfast, hdirect]
    simp only [Fin.isValue, Fin.val_zero, Fin.val_one, Fin.val_two] at hf₀ hf₁ hf₂
    simp [hf₀, hf₁, hf₂]
    rfl
  · rw [if_neg hfast]
    -- the file is its direct blocks and the data blocks of its three tiers
    have hdata : data = data.take 12 ++ tierSlice 12 (singleLimit blockSize) data ++
        tierSlice (singleLimit blockSize) (doubleLimit blockSize) data ++
        tierSlice (doubleLimit blockSize) (tripleLimit blockSize) data :=
      take_append_tierSlices (hg.twelve_le_tierLo 1) (hg.tierLo_le_tierHi (t := 1) (by decide))
        (hg.tierLo_le_tierHi (t := 2) (by decide)) hok.le_limit
    have hp₀' : l₀ ~ tierSlice 12 (singleLimit blockSize) data ++ ns 0 := hp₀
    have hp₁' : l₁ ~ tierSlice (singleLimit blockSize) (doubleLimit blockSize) data ++ ns 1 := hp₁
    have hp₂' : l₂ ~ tierSlice (doubleLimit blockSize) (tripleLimit blockSize) data ++ ns 2 := hp₂
    rw [List.perm_iff_count]
    intro a
    have c₀ := hp₀'.count_eq a
    have c₁ := hp₁'.count_eq a
    have c₂ := hp₂'.count_eq a
    have cn := hperm.count_eq a
    have cd := congrArg (List.count a) hdata
    simp only [List.count_append] at c₀ c₁ c₂ cn cd ⊢
    omega

/-! ### Appending with an allocator that keeps its log -/

/-- An allocator that keeps beside its state the blocks it has handed out. -/
def logged {σ : Type} (allocBlock : σ → Option (σ × ℕ)) (s : σ × List ℕ) :
    Option ((σ × List ℕ) × ℕ) :=
  (allocBlock s.1).map fun r => ((r.1, s.2 ++ [r.2]), r.2)

/-- The state after `alloc_block` handed out the block `q`, zeroed in the store and logged. -/
def TreeState.granted {σ : Type} (st : TreeState (σ × List ℕ)) (blockSize : ℕ) (a : σ) (q : ℕ) :
    TreeState (σ × List ℕ) :=
  { st with alloc := (a, st.alloc.2 ++ [q]), store := Function.update st.store q (zeroRow blockSize) }

section Stages

variable {σ : Type} {allocBlock : σ → Option (σ × ℕ)} {bs : ℕ}

@[simp] theorem TreeState.granted_store (st : TreeState (σ × List ℕ)) (a : σ) (q : ℕ) :
    (st.granted bs a q).store = Function.update st.store q (zeroRow bs) := rfl
@[simp] theorem TreeState.granted_log (st : TreeState (σ × List ℕ)) (a : σ) (q : ℕ) :
    (st.granted bs a q).alloc.2 = st.alloc.2 ++ [q] := rfl
@[simp] theorem TreeState.granted_inode (st : TreeState (σ × List ℕ)) (a : σ) (q : ℕ) :
    (st.granted bs a q).inode = st.inode := rfl
@[simp] theorem TreeState.granted_dataBlockCount (st : TreeState (σ × List ℕ)) (a : σ) (q : ℕ) :
    (st.granted bs a q).dataBlockCount = st.dataBlockCount := rfl

theorem withNewBlock_true {st st' : TreeState (σ × List ℕ)}
    {k : TreeState (σ × List ℕ) → ℕ → Option (Bool × TreeState (σ × List ℕ))}
    (h : withNewBlock (logged allocBlock) bs st k = some (true, st')) :
    ∃ a q, allocBlock st.alloc.1 = some (a, q) ∧ k (st.granted bs a q) q = some (true, st') := by
  unfold withNewBlock logged at h
  cases ha : allocBlock st.alloc.1 with
  | none => simp [ha] at h
  | some r =>
    obtain ⟨a, q⟩ := r
    simp only [ha, Option.map_some] at h
    split_ifs at h with hq
    · cases h
    · exact ⟨a, q, rfl, h⟩

theorem rootStage_true {st st' : TreeState (σ × List ℕ)} {i : ℕ} {fresh : Bool}
    {k : TreeState (σ × List ℕ) → List ℕ → ℕ → Option (Bool × TreeState (σ × List ℕ))}
    (h : rootStage (logged allocBlock) bs st i fresh k = some (true, st')) :
    (fresh = true ∧ ∃ a q, allocBlock st.alloc.1 = some (a, q) ∧
      k ((st.granted bs a q).setBlock i q) (zeroRow bs) 2 = some (true, st')) ∨
    (fresh = false ∧ k st (st.store (st.inode.block i)) 1 = some (true, st')) := by
  unfold rootStage at h
  cases fresh with
  | true => rw [if_pos rfl] at h; exact .inl ⟨rfl, withNewBlock_true h⟩
  | false => rw [if_neg Bool.false_ne_true] at h; exact .inr ⟨rfl, h⟩

theorem childStage_true {st st' : TreeState (σ × List ℕ)} {parent slot reserved : ℕ}
    {row : List ℕ} {fresh : Bool}
    {k : TreeState (σ × List ℕ) → ℕ → List ℕ → ℕ → Option (Bool × TreeState (σ × List ℕ))}
    (h : childStage (logged allocBlock) bs st parent row slot fresh reserved k = some (true, st')) :
    (fresh = true ∧ ∃ a q, allocBlock st.alloc.1 = some (a, q) ∧
      k ((st.granted bs a q).writeRow parent (row.set slot q)) q (zeroRow bs) (reserved + 1) =
        some (true, st')) ∨
    (fresh = false ∧ k st (row.getD slot 0) (st.store (row.getD slot 0)) reserved = some (true, st')) := by
  unfold childStage at h
  cases fresh with
  | true => rw [if_pos rfl] at h; exact .inl ⟨rfl, withNewBlock_true h⟩
  | false => rw [if_neg Bool.false_ne_true] at h; exact .inr ⟨rfl, h⟩

end Stages

/-- An append of `b` below the node `r` of height `h`, which held `L` with the pointer blocks
`N`, from `st` to `st'`: the blocks `new` the allocator handed out on the way are logged, the
node holds `L ++ [b]` with the pointer blocks `N'`, which are `N` and `new`, no block outside
these was written, no pointer of the inode moved and the count of data blocks grew by one. -/
structure Appended {σ : Type} (bs : ℕ) (st st' : TreeState (σ × List ℕ)) (h r : ℕ)
    (L N : List ℕ) (b : ℕ) (new N' : List ℕ) : Prop where
  log : st'.alloc.2 = st.alloc.2 ++ new
  perm : N' ~ new ++ N
  holds : Holds (entriesPerBlock bs) st'.store h r (L ++ [b]) N'
  frame : ∀ x, x ∉ N → x ∉ new → st'.store x = st.store x
  block : st'.inode.block = st.inode.block
  count : st'.dataBlockCount = st.dataBlockCount + 1

section Below

variable {σ : Type} {allocBlock : σ → Option (σ × ℕ)} {bs : ℕ}

/-- The last step of every indirect tier: the leaf `k` takes the block in its first free slot. -/
theorem publish_appended {st : TreeState (σ × List ℕ)} {k b : ℕ} {lk nk : List ℕ} (reserved : ℕ)
    (hk : Holds (entriesPerBlock bs) st.store 0 k lk nk) (hlt : lk.length < entriesPerBlock bs)
    (hb : b ≠ 0) :
    Appended bs st (st.publish bs k (st.store k) lk.length b reserved) 0 k lk nk b [] nk := by
  obtain ⟨hrow, rfl⟩ := hk
  refine ⟨by simp [TreeState.publish], by simp, ⟨hrow.snoc hlt hb (by simp [TreeState.publish]), rfl⟩,
    ?_, by simp [TreeState.publish], by simp [TreeState.publish]⟩
  intro x hx _
  simp only [List.mem_singleton] at hx
  simp [TreeState.publish, Function.update_of_ne hx]

/-- The blocks a step hands out are fresh: not in the log before it. -/
theorem not_mem_log_of_nodup {log new : List ℕ} (hnd : (log ++ new).Nodup) {q : ℕ} (hq : q ∈ new) :
    q ∉ log := fun hl => (List.nodup_append.mp hnd).2.2 q hl q hq rfl

/-- The leaf stage below a node of height one: a new leaf on a slot that starts a leaf, the last
leaf otherwise, then the block published in it. -/
theorem childStage_appended_one {st st' : TreeState (σ × List ℕ)} {r slot direct reserved b : ℕ}
    {row L N : List ℕ} (hp : Holds (entriesPerBlock bs) st.store 1 r L N) (hrow : row = st.store r)
    (hlt : L.length < entriesPerBlock bs * entriesPerBlock bs)
    (hslot : slot = L.length / entriesPerBlock bs) (hdirect : direct = L.length % entriesPerBlock bs)
    (hb : b ≠ 0) (hN : N.Nodup) (hlog : ∀ x ∈ N, x ∈ st.alloc.2)
    (h : childStage (logged allocBlock) bs st r row slot (decide (direct = 0)) reserved
      (fun st leaf single reserved => some (true, st.publish bs leaf single direct b reserved)) =
        some (true, st'))
    (hfin : st'.alloc.2.Nodup) (hfin0 : ∀ q ∈ st'.alloc.2, q ≠ 0) :
    ∃ new N', Appended bs st st' 1 r L N b new N' := by
  have hE : 0 < entriesPerBlock bs := Nat.pos_of_ne_zero fun h0 => by simp [h0] at hlt
  have hrN : r ∈ N := hp.mem_nodes
  rcases childStage_true h with ⟨hfr, a, q, -, h⟩ | ⟨hfr, h⟩
  · -- the slot starts a new leaf `q`, zeroed, linked into the row of `r`
    have hd : direct = 0 := of_decide_eq_true hfr
    subst hd
    set st₂ := (st.granted bs a q).writeRow r (row.set slot q) with hst₂
    have hlog' : st'.alloc.2 = st.alloc.2 ++ [q] := by
      simp only [Option.some.injEq, Prod.mk.injEq, true_and] at h
      simp [← h, hst₂, TreeState.publish]
    have hq : q ∉ st.alloc.2 := not_mem_log_of_nodup (hlog' ▸ hfin) (List.mem_singleton_self q)
    have hq0 : q ≠ 0 := hfin0 q (by simp [hlog'])
    have hqr : q ≠ r := fun hqr => hq (by rw [hqr]; exact hlog r hrN)
    have hzero : st₂.store q = zeroRow bs := by
      simp [hst₂, Function.update_of_ne hqr]
    have A₁ := publish_appended reserved.succ (holds_empty hzero : Holds _ st₂.store 0 q [] [q]) hE hb
    rw [hzero, List.length_nil] at A₁
    simp only [Option.some.injEq, Prod.mk.injEq, true_and] at h
    rw [h] at A₁
    have hr' : st'.store r = (st.store r).set (L.length / entriesPerBlock bs ^ (0 + 1)) q := by
      rw [A₁.frame r (by simpa using hqr.symm) (by simp), hst₂]
      simp [hrow, hslot]
    have hsame : ∀ x ∈ N, x ≠ r → st'.store x = st.store x := by
      intro x hx hxr
      have hxq : x ≠ q := fun hxq => hq (hxq ▸ hlog x hx)
      rw [A₁.frame x (by simpa using hxq) (by simp), hst₂]
      simp [Function.update_of_ne hxr, Function.update_of_ne hxq]
    obtain ⟨N', hperm, hholds⟩ := hp.snoc_new hN (by simpa using hdirect.symm)
      (by simpa [Nat.pow_two] using hlt) hq0 hr' (by simpa using A₁.holds) hsame
    refine ⟨[q], N', hlog', hperm, hholds, ?_, ?_, ?_⟩
    · intro x hxN hxq
      have hxr : x ≠ r := fun hxr => hxN (hxr ▸ hrN)
      rw [A₁.frame x hxq (by simp), hst₂]
      simp [Function.update_of_ne hxr, Function.update_of_ne (by simpa using hxq)]
    · rw [A₁.block]; rfl
    · rw [A₁.count]; rfl
  · -- the block goes in the last leaf, which is not full
    have hmod : L.length % entriesPerBlock bs ≠ 0 := by
      rw [← hdirect]; exact of_decide_eq_false hfr
    obtain ⟨lk, nk, hk, hlen, hsub, -⟩ := hp.last_child hN (by simpa using hmod)
    have hleaf : row.getD slot 0 = (st.store r).getD (L.length / entriesPerBlock bs ^ (0 + 1)) 0 := by
      simp [hrow, hslot]
    have A₁ := publish_appended reserved hk (by rw [hlen]; simpa using Nat.mod_lt L.length hE) hb
    rw [← hleaf, hlen, show L.length % entriesPerBlock bs ^ (0 + 1) = direct by simp [hdirect]] at A₁
    simp only [Option.some.injEq, Prod.mk.injEq, true_and] at h
    rw [h] at A₁
    obtain ⟨N', hperm, hholds⟩ := hp.snoc_last hN (by simpa using hmod) hk (hleaf ▸ A₁.holds)
      A₁.perm fun x _ hx => A₁.frame x hx (by simp)
    exact ⟨[], N', by simpa using A₁.log, hperm, hholds,
      fun x hx _ => A₁.frame x (fun h => hx (hsub x h)) (by simp), A₁.block, A₁.count⟩

/-- The leaf stage hands out at most the leaf it starts; what it hands out is logged. -/
theorem childStage_publish_log {st st' : TreeState (σ × List ℕ)} {r slot direct reserved b : ℕ}
    {row : List ℕ} {fresh : Bool}
    (h : childStage (logged allocBlock) bs st r row slot fresh reserved
      (fun st leaf single reserved => some (true, st.publish bs leaf single direct b reserved)) =
        some (true, st')) :
    ∃ new, st'.alloc.2 = st.alloc.2 ++ new := by
  rcases childStage_true h with ⟨-, a, q, -, h⟩ | ⟨-, h⟩
  · simp only [Option.some.injEq, Prod.mk.injEq, true_and] at h
    exact ⟨[q], by simp [← h, TreeState.publish]⟩
  · simp only [Option.some.injEq, Prod.mk.injEq, true_and] at h
    exact ⟨[], by simp [← h, TreeState.publish]⟩

/-- The middle and leaf stages below a node of height two: a new middle node on a slot that
starts one, the last middle node otherwise, then the leaf stage below it. -/
theorem childStage_appended_two {st st' : TreeState (σ × List ℕ)}
    {t outer middle direct reserved b : ℕ} {row L N : List ℕ}
    (hp : Holds (entriesPerBlock bs) st.store 2 t L N) (hrow : row = st.store t)
    (hds : doubleSpan bs = entriesPerBlock bs * entriesPerBlock bs)
    (hlt : L.length < entriesPerBlock bs * entriesPerBlock bs * entriesPerBlock bs)
    (houter : outer = L.length / doubleSpan bs)
    (hmiddle : middle = L.length / entriesPerBlock bs % entriesPerBlock bs)
    (hdirect : direct = L.length % entriesPerBlock bs)
    (hb : b ≠ 0) (hN : N.Nodup) (hlog : ∀ x ∈ N, x ∈ st.alloc.2)
    (h : childStage (logged allocBlock) bs st t row outer (decide (L.length % doubleSpan bs = 0))
      reserved (fun st mid double reserved =>
        childStage (logged allocBlock) bs st mid double middle (decide (direct = 0)) reserved
          (fun st leaf single reserved =>
            some (true, st.publish bs leaf single direct b reserved))) = some (true, st'))
    (hfin : st'.alloc.2.Nodup) (hfin0 : ∀ q ∈ st'.alloc.2, q ≠ 0) :
    ∃ new N', Appended bs st st' 2 t L N b new N' := by
  set E := entriesPerBlock bs with hE_def
  have hE : 0 < E := Nat.pos_of_ne_zero fun h0 => by simp [h0] at hlt
  have htN : t ∈ N := hp.mem_nodes
  rcases childStage_true h with ⟨hfr, a, r, -, h⟩ | ⟨hfr, h⟩
  · -- the slot starts a new middle node `r`, zeroed, linked into the row of `t`
    have hmod : L.length % (E * E) = 0 := by rw [← hds]; exact of_decide_eq_true hfr
    set st₂ := (st.granted bs a r).writeRow t (row.set outer r) with hst₂
    obtain ⟨new₁, hlog₁⟩ := childStage_publish_log h
    have hlog' : st'.alloc.2 = st.alloc.2 ++ ([r] ++ new₁) := by simp [hlog₁, hst₂]
    have hr : r ∉ st.alloc.2 := not_mem_log_of_nodup (hlog' ▸ hfin) (by simp)
    have hr0 : r ≠ 0 := hfin0 r (by simp [hlog'])
    have hrt : r ≠ t := fun hrt => hr (by rw [hrt]; exact hlog t htN)
    have hzero : st₂.store r = zeroRow bs := by simp [hst₂, Function.update_of_ne hrt]
    have hmid0 : middle = ([] : List ℕ).length / E := by
      obtain ⟨k, hk⟩ := Nat.dvd_of_mod_eq_zero hmod
      rw [hmiddle, hk, Nat.mul_assoc, Nat.mul_div_cancel_left _ hE, Nat.mul_mod_right]
      simp
    have hdir0 : direct = ([] : List ℕ).length % E := by
      obtain ⟨k, hk⟩ := Nat.dvd_of_mod_eq_zero hmod
      rw [hdirect, hk, Nat.mul_assoc, Nat.mul_mod_right]
      simp
    obtain ⟨new₁', N₁, A₁⟩ := childStage_appended_one (holds_empty hzero) hzero.symm
      (Nat.mul_pos hE hE) hmid0 hdir0 hb (by simp) (by simp [hst₂]) h hfin hfin0
    have hnew : new₁' = new₁ := by
      have := A₁.log
      rw [hlog₁] at this
      exact (List.append_cancel_left this).symm
    subst hnew
    have hfresh : ∀ x ∈ st.alloc.2, x ∉ new₁' := fun x hx hxn =>
      not_mem_log_of_nodup (hlog' ▸ hfin) (List.mem_append_right _ hxn) hx
    have ht' : st'.store t = (st.store t).set (L.length / E ^ (1 + 1)) r := by
      rw [A₁.frame t (by simpa using hrt.symm) (hfresh t (hlog t htN)), hst₂]
      simp [hrow, houter, hds, Nat.pow_two]
    have hsame : ∀ x ∈ N, x ≠ t → st'.store x = st.store x := by
      intro x hx hxt
      have hxr : x ≠ r := fun hxr => hr (hxr ▸ hlog x hx)
      rw [A₁.frame x (by simpa using hxr) (hfresh x (hlog x hx)), hst₂]
      simp [Function.update_of_ne hxt, Function.update_of_ne hxr]
    obtain ⟨N', hperm, hholds⟩ := hp.snoc_new hN (by simpa [Nat.pow_two] using hmod)
      (by simpa [Nat.pow_succ, Nat.mul_assoc] using hlt) hr0 ht' (by simpa using A₁.holds) hsame
    refine ⟨[r] ++ new₁', N', hlog', ?_, hholds, ?_, ?_, ?_⟩
    · refine hperm.trans ?_
      rw [List.perm_iff_count]
      intro x
      simp only [List.count_append, A₁.perm.count_eq]
      omega
    · intro x hxN hxn
      have hxt : x ≠ t := fun hxt => hxN (hxt ▸ htN)
      have hxr : x ≠ r := fun hxr => hxn (by simp [hxr])
      rw [A₁.frame x (by simpa using hxr) (fun h => hxn (by simp [h])), hst₂]
      simp [Function.update_of_ne hxt, Function.update_of_ne hxr]
    · rw [A₁.block]; rfl
    · rw [A₁.count]; rfl
  · -- the block goes below the last middle node, which is not full
    have hmod : L.length % (E * E) ≠ 0 := by rw [← hds]; exact of_decide_eq_false hfr
    obtain ⟨lr, nr, hr, hlen, hsub, hnr⟩ := hp.last_child hN (by simpa [Nat.pow_two] using hmod)
    have hmid : row.getD outer 0 = (st.store t).getD (L.length / E ^ (1 + 1)) 0 := by
      simp [hrow, houter, hds, Nat.pow_two]
    rw [hmid] at h
    have hlen' : lr.length = L.length % (E * E) := by simpa [Nat.pow_two] using hlen
    obtain ⟨new₁, N₁, A₁⟩ := childStage_appended_one hr rfl
      (by rw [hlen']; exact Nat.mod_lt _ (Nat.mul_pos hE hE))
      (by rw [hmiddle, hlen', Nat.mod_mul_right_div_self])
      (by rw [hdirect, hlen', Nat.mod_mul_right_mod]) hb hnr
      (fun x hx => hlog x (hsub x hx)) h hfin hfin0
    have hfresh : ∀ x ∈ st.alloc.2, x ∉ new₁ := fun x hx hxn =>
      not_mem_log_of_nodup (A₁.log ▸ hfin) hxn hx
    obtain ⟨N', hperm, hholds⟩ := hp.snoc_last hN (by simpa [Nat.pow_two] using hmod) hr A₁.holds
      A₁.perm fun x hx hxr => A₁.frame x hxr (hfresh x (hlog x hx))
    exact ⟨new₁, N', A₁.log, hperm, hholds,
      fun x hx hxn => A₁.frame x (fun h => hx (hsub x h)) hxn, A₁.block, A₁.count⟩

end Below

/-- One append in the tree of a tier whose root is `block[i]`, from `st` to `st'`: the blocks
`new` the allocator handed out are logged, the tier holds `L ++ [b]` with the pointer blocks
`nt'`, which are `nt` and `new`, no block outside these was written, no other pointer of the
inode moved and the count of data blocks grew by one. -/
structure TierAppended {σ : Type} (bs : ℕ) (st st' : TreeState (σ × List ℕ)) (i h : ℕ)
    (L nt : List ℕ) (b : ℕ) (new nt' : List ℕ) : Prop where
  log : st'.alloc.2 = st.alloc.2 ++ new
  perm : nt' ~ new ++ nt
  holds : TierHolds (entriesPerBlock bs) st'.store (st'.inode.block i) h (L ++ [b]) nt'
  frame : ∀ x, x ∉ nt → x ∉ new → st'.store x = st.store x
  block : ∀ j, j ≠ i → st'.inode.block j = st.inode.block j
  count : st'.dataBlockCount = st.dataBlockCount + 1

section Tiers

variable {σ : Type} {allocBlock : σ → Option (σ × ℕ)} {bs : ℕ}

/-- The root stage of a tier: on the tier's first block a new root in `block[i]`, holding
nothing; otherwise the root the invariant describes. Either way the stages below append. -/
theorem rootStage_appended {st st' : TreeState (σ × List ℕ)} {i h b : ℕ} {fresh : Bool}
    {L nt : List ℕ}
    {k : TreeState (σ × List ℕ) → List ℕ → ℕ → Option (Bool × TreeState (σ × List ℕ))}
    (htier : TierHolds (entriesPerBlock bs) st.store (st.inode.block i) h L nt)
    (hfresh : fresh = true ↔ L = []) (hnt : nt.Nodup) (hlog : ∀ x ∈ nt, x ∈ st.alloc.2)
    (hk : ∀ st₁ row reserved N, Holds (entriesPerBlock bs) st₁.store h (st₁.inode.block i) L N →
      row = st₁.store (st₁.inode.block i) → N.Nodup → (∀ x ∈ N, x ∈ st₁.alloc.2) →
      k st₁ row reserved = some (true, st') →
      ∃ new N', Appended bs st₁ st' h (st₁.inode.block i) L N b new N')
    (hst : rootStage (logged allocBlock) bs st i fresh k = some (true, st')) :
    ∃ new nt', TierAppended bs st st' i h L nt b new nt' := by
  rcases rootStage_true hst with ⟨hfr, a, q, -, hst⟩ | ⟨hfr, hst⟩
  · -- the tier's first block: a new root `q`
    have hL : L = [] := hfresh.mp hfr
    subst hL
    obtain ⟨-, -, rfl⟩ : ([] : List ℕ) = [] ∧ st.inode.block i = 0 ∧ nt = [] := by
      rcases htier with h₀ | ⟨hne, -⟩
      · exact h₀
      · exact absurd rfl hne
    set st₁ := (st.granted bs a q).setBlock i q with hst₁
    have hroot : st₁.inode.block i = q := by simp [hst₁]
    have hzero : st₁.store q = zeroRow bs := by simp [hst₁]
    obtain ⟨new₁, N', A⟩ := hk st₁ (zeroRow bs) 2 [q] (by rw [hroot]; exact holds_empty hzero)
      (by rw [hroot, hzero]) (by simp) (by simp [hst₁]) hst
    refine ⟨[q] ++ new₁, N', by simp [A.log, hst₁], ?_, .inr ⟨by simp, ?_⟩, ?_, ?_, ?_⟩
    · refine A.perm.trans ?_
      rw [List.perm_iff_count]
      intro x
      simp only [List.count_append, List.count_nil]
      omega
    · rw [A.block]; exact A.holds
    · intro x _ hxn
      have hxq : x ≠ q := fun hxq => hxn (by simp [hxq])
      rw [A.frame x (by simpa using hxq) (fun h => hxn (by simp [h])), hst₁]
      simp [Function.update_of_ne hxq]
    · intro j hj
      rw [A.block, hst₁]
      simp [Function.update_of_ne hj]
    · rw [A.count]; rfl
  · -- the tier already has its root
    have hL : L ≠ [] := fun hL => by simp [hfresh.mpr hL] at hfr
    obtain ⟨-, hp⟩ := htier.resolve_left fun h₀ => hL h₀.1
    obtain ⟨new, N', A⟩ := hk st _ 1 nt hp rfl hnt hlog hst
    exact ⟨new, N', A.log, A.perm, .inr ⟨by simp, A.block ▸ A.holds⟩, A.frame,
      fun j _ => by rw [A.block], A.count⟩

end Tiers

section ThreeTiers

variable {ns : Fin 3 → List ℕ}

theorem mem_tiers {t : Fin 3} {x : ℕ} (hx : x ∈ ns t) : x ∈ ns 0 ++ ns 1 ++ ns 2 := by
  match t, hx with
  | 0, hx => simp [hx]
  | 1, hx => simp [hx]
  | 2, hx => simp [hx]

theorem tiers_nodup (hnd : (ns 0 ++ ns 1 ++ ns 2).Nodup) (t : Fin 3) : (ns t).Nodup := by
  match t with
  | 0 => exact (List.nodup_append.mp (List.nodup_append.mp hnd).1).1
  | 1 => exact (List.nodup_append.mp (List.nodup_append.mp hnd).1).2.1
  | 2 => exact (List.nodup_append.mp hnd).2.1

/-- The pointer blocks of two tiers are apart. -/
theorem tiers_disjoint (hnd : (ns 0 ++ ns 1 ++ ns 2).Nodup) {t t' : Fin 3} (htt : t ≠ t')
    {x : ℕ} (hx : x ∈ ns t) (hx' : x ∈ ns t') : False := by
  have h₁ := List.count_pos_iff.mpr hx
  have h₂ := List.count_pos_iff.mpr hx'
  have h := List.nodup_iff_count_le_one.mp hnd x
  simp only [List.count_append] at h
  match t, t', htt with
  | 0, 1, _ | 0, 2, _ | 1, 0, _ | 1, 2, _ | 2, 0, _ | 2, 1, _ => omega
  | 0, 0, h | 1, 1, h | 2, 2, h => exact absurd rfl h

theorem tiers_update_perm {t : Fin 3} {nt' new : List ℕ} (h : nt' ~ new ++ ns t) :
    ns 0 ++ ns 1 ++ ns 2 ++ new ~ Function.update ns t nt' 0 ++ Function.update ns t nt' 1 ++
      Function.update ns t nt' 2 := by
  rw [List.perm_iff_count]
  intro a
  have hc := h.count_eq a
  simp only [List.count_append] at hc ⊢
  match t with
  | 0 => simp [hc]; omega
  | 1 => simp [hc]; omega
  | 2 => simp [hc]; omega

end ThreeTiers

section Step

variable {σ : Type} {allocBlock : σ → Option (σ × ℕ)} {bs : ℕ}

/-- An append in tier `t` keeps the invariant of the whole tree: the other tiers are framed, the
direct pointers do not move, and the pointer blocks grow by what the allocator handed out. -/
theorem TreeOk.snoc_tier {st st' : TreeState (σ × List ℕ)} {data : List ℕ} {b : ℕ} {t : Fin 3}
    (hg : Geometry bs) (hok : TreeOk bs st data st.alloc.2)
    (hlo : tierLo bs t ≤ data.length) (hhi : data.length < tierHi bs t) (hb : b ≠ 0)
    (hfin : st'.alloc.2.Nodup) (hfin0 : ∀ q ∈ st'.alloc.2, q ≠ 0)
    (htier : ∀ nt, TierHolds (entriesPerBlock bs) st.store (st.inode.block (12 + t)) t
        (tierSlice (tierLo bs t) (tierHi bs t) data) nt → nt.Nodup → (∀ x ∈ nt, x ∈ st.alloc.2) →
      ∃ new nt', TierAppended bs st st' (12 + t) t (tierSlice (tierLo bs t) (tierHi bs t) data)
        nt b new nt') :
    TreeOk bs st' (data ++ [b]) st'.alloc.2 := by
  obtain ⟨ns, hperm, htiers⟩ := hok.tiers
  have hnd₀ : (ns 0 ++ ns 1 ++ ns 2).Nodup := hperm.nodup_iff.mp hok.nodup
  have hsub : ∀ t' : Fin 3, ∀ x ∈ ns t', x ∈ st.alloc.2 := fun t' x hx =>
    hperm.symm.subset (mem_tiers hx)
  obtain ⟨new, nt', A⟩ := htier (ns t) (htiers t) (tiers_nodup hnd₀ t) (hsub t)
  have hfresh : ∀ x ∈ st.alloc.2, x ∉ new := fun x hx hxn =>
    not_mem_log_of_nodup (A.log ▸ hfin) hxn hx
  have h12 := hg.twelve_le_tierLo t
  refine ⟨by simp [A.count, hok.count], ?_, ?_, hfin, hfin0, ?_, Function.update ns t nt', ?_, ?_⟩
  · simpa using (hg.tierHi_le_tripleLimit t.isLt).trans' hhi
  · intro x hx
    rcases List.mem_append.mp hx with hx | hx
    · exact hok.data_ne_zero x hx
    · simp only [List.mem_singleton] at hx; exact hx ▸ hb
  · intro i hi
    rw [A.block i (by omega), hok.direct i hi, List.getD_append _ _ _ _ (by omega)]
  · rw [A.log]
    exact ((hperm.append_right new).trans (tiers_update_perm A.perm))
  · intro t'
    by_cases htt : t' = t
    · subst htt
      rw [Function.update_self, tierSlice_snoc_of_lt hlo hhi]
      exact A.holds
    · rw [Function.update_of_ne htt]
      have hval : (t' : ℕ) ≠ t := fun h => htt (Fin.ext h)
      -- the data blocks of another tier do not change
      have hslice : tierSlice (tierLo bs t') (tierHi bs t') (data ++ [b]) =
          tierSlice (tierLo bs t') (tierHi bs t') data := by
        rcases Nat.lt_or_gt_of_ne hval with hlt | hgt
        · exact tierSlice_snoc_of_le ((hg.tierHi_le_tierLo hlt t.isLt).trans hlo)
        · have := hg.tierHi_le_tierLo hgt t'.isLt
          rw [tierSlice_eq_nil (by simp; omega), tierSlice_eq_nil (by omega)]
      rw [hslice, A.block _ (by omega)]
      rcases htiers t' with ⟨hL, hr, hn⟩ | ⟨hL, hp⟩
      · exact .inl ⟨hL, hr, hn⟩
      · refine .inr ⟨hL, hp.frame fun x hx => A.frame x ?_ (hfresh x (hsub t' x hx))⟩
        exact fun hxt => tiers_disjoint hnd₀ htt hx hxt

end Step

section Appends

variable {σ : Type} {allocBlock : σ → Option (σ × ℕ)} {bs : ℕ}

/-- An append in the direct region writes `block[n]` and nothing of the indirect tiers. -/
theorem TreeOk.snoc_direct {st : TreeState (σ × List ℕ)} {data : List ℕ} {b : ℕ}
    (hg : Geometry bs) (hok : TreeOk bs st data st.alloc.2) (hn : data.length < 12) (hb : b ≠ 0) :
    TreeOk bs ((st.setBlock st.dataBlockCount b).account bs 1) (data ++ [b]) st.alloc.2 := by
  obtain ⟨ns, hperm, htiers⟩ := hok.tiers
  have hc := hok.count
  refine ⟨by simp [hc], ?_, ?_, hok.nodup, hok.nodes_ne_zero, ?_, ns, hperm, ?_⟩
  · have := hg.tierHi_le_tripleLimit (t := 0) (by decide)
    have := hg.tierLo_le_tierHi (t := 0) (by decide)
    simp only [tierLo, tierHi] at *
    simp; omega
  · intro x hx
    rcases List.mem_append.mp hx with hx | hx
    · exact hok.data_ne_zero x hx
    · simp only [List.mem_singleton] at hx; exact hx ▸ hb
  · intro i hi
    simp only [TreeState.account_block, TreeState.setBlock_block, hc]
    rcases Nat.lt_trichotomy i data.length with hlt | rfl | hgt
    · rw [Function.update_of_ne (by omega), hok.direct i hi, List.getD_append _ _ _ _ hlt]
    · simp
    · rw [Function.update_of_ne (by omega), hok.direct i hi, List.getD_eq_default _ _ (by omega),
        List.getD_eq_default _ _ (by simp; omega)]
  · intro t
    have h12 := hg.twelve_le_tierLo t
    have hslice : tierSlice (tierLo bs t) (tierHi bs t) (data ++ [b]) =
        tierSlice (tierLo bs t) (tierHi bs t) data := by
      rw [tierSlice_eq_nil (by simp; omega), tierSlice_eq_nil (by omega)]
    simp only [TreeState.account_block, TreeState.setBlock_block, TreeState.account_store,
      TreeState.setBlock_store, hslice]
    rw [Function.update_of_ne (by omega)]
    exact htiers t

/-- An append in the single indirect tier. -/
theorem TreeOk.snoc_single {st st' : TreeState (σ × List ℕ)} {data : List ℕ} {b : ℕ}
    (hg : Geometry bs) (hok : TreeOk bs st data st.alloc.2) (hlo : 12 ≤ data.length)
    (hhi : data.length < singleLimit bs) (hb : b ≠ 0)
    (h : addSingle (logged allocBlock) bs st b = some (true, st'))
    (hfin : st'.alloc.2.Nodup) (hfin0 : ∀ q ∈ st'.alloc.2, q ≠ 0) :
    TreeOk bs st' (data ++ [b]) st'.alloc.2 := by
  refine hok.snoc_tier (t := 0) hg hlo hhi hb hfin hfin0 fun nt hnt hntnd hntlog => ?_
  change TierHolds _ _ (st.inode.block 12) 0 (tierSlice 12 (singleLimit bs) data) nt at hnt
  change ∃ new nt', TierAppended bs st st' 12 0 (tierSlice 12 (singleLimit bs) data) nt b new nt'
  have hlen : (tierSlice 12 (singleLimit bs) data).length = data.length - 12 :=
    tierSlice_length_of_lt hlo hhi
  unfold addSingle at h
  refine rootStage_appended hnt ?_ hntnd hntlog ?_ h
  · rw [hok.count, decide_eq_true_iff]
    exact (tierSlice_eq_nil_iff hlo hhi).symm
  · intro st₁ row reserved N hp hrow _ _ hstep
    simp only [Option.some.injEq, Prod.mk.injEq, true_and] at hstep
    have A := publish_appended reserved hp (by rw [hlen]; rw [hg.single] at hhi; omega) hb
    rw [← hrow, hlen, ← hok.count, hstep] at A
    exact ⟨[], N, A⟩

/-- An append in the double indirect tier. -/
theorem TreeOk.snoc_double {st st' : TreeState (σ × List ℕ)} {data : List ℕ} {b : ℕ}
    (hg : Geometry bs) (hok : TreeOk bs st data st.alloc.2) (hlo : singleLimit bs ≤ data.length)
    (hhi : data.length < doubleLimit bs) (hb : b ≠ 0)
    (h : addDouble (logged allocBlock) bs st b = some (true, st'))
    (hfin : st'.alloc.2.Nodup) (hfin0 : ∀ q ∈ st'.alloc.2, q ≠ 0) :
    TreeOk bs st' (data ++ [b]) st'.alloc.2 := by
  refine hok.snoc_tier (t := 1) hg hlo hhi hb hfin hfin0 fun nt hnt hntnd hntlog => ?_
  change TierHolds _ _ (st.inode.block 13) 1
    (tierSlice (singleLimit bs) (doubleLimit bs) data) nt at hnt
  change ∃ new nt', TierAppended bs st st' 13 1
    (tierSlice (singleLimit bs) (doubleLimit bs) data) nt b new nt'
  have hlen : (tierSlice (singleLimit bs) (doubleLimit bs) data).length =
      st.dataBlockCount - singleLimit bs := by
    rw [tierSlice_length_of_lt hlo hhi, hok.count]
  unfold addDouble at h
  refine rootStage_appended hnt ?_ hntnd hntlog ?_ h
  · rw [hok.count, decide_eq_true_iff]
    exact (tierSlice_eq_nil_iff hlo hhi).symm
  · intro st₁ row reserved N hp hrow hN hNlog hstep
    -- the double span holds the tier: at most `E * E` data blocks
    have hlt : (tierSlice (singleLimit bs) (doubleLimit bs) data).length <
        entriesPerBlock bs * entriesPerBlock bs := by
      have := doubleSpan_le bs
      rw [tierSlice_length_of_lt hlo hhi, hg.double] at *
      omega
    exact childStage_appended_one hp hrow hlt (by rw [hlen]) (by rw [hlen]) hb hN hNlog hstep
      hfin hfin0

/-- An append in the triple indirect tier. -/
theorem TreeOk.snoc_triple {st st' : TreeState (σ × List ℕ)} {data : List ℕ} {b : ℕ}
    (hg : Geometry bs) (hok : TreeOk bs st data st.alloc.2) (hlo : doubleLimit bs ≤ data.length)
    (hhi : data.length < tripleLimit bs) (hb : b ≠ 0)
    (h : addTriple (logged allocBlock) bs st b = some (true, st'))
    (hfin : st'.alloc.2.Nodup) (hfin0 : ∀ q ∈ st'.alloc.2, q ≠ 0) :
    TreeOk bs st' (data ++ [b]) st'.alloc.2 := by
  refine hok.snoc_tier (t := 2) hg hlo hhi hb hfin hfin0 fun nt hnt hntnd hntlog => ?_
  change TierHolds _ _ (st.inode.block 14) 2
    (tierSlice (doubleLimit bs) (tripleLimit bs) data) nt at hnt
  change ∃ new nt', TierAppended bs st st' 14 2
    (tierSlice (doubleLimit bs) (tripleLimit bs) data) nt b new nt'
  have hlen : (tierSlice (doubleLimit bs) (tripleLimit bs) data).length =
      st.dataBlockCount - doubleLimit bs := by
    rw [tierSlice_length_of_lt hlo hhi, hok.count]
  -- a triple tier that holds a block sits on a double span that did not wrap
  have hspan : tripleSpan bs ≠ 0 := by rw [hg.triple] at hhi; omega
  have hds := hg.doubleSpan_eq hspan
  unfold addTriple at h
  refine rootStage_appended hnt ?_ hntnd hntlog ?_ h
  · rw [hok.count, decide_eq_true_iff]
    exact (tierSlice_eq_nil_iff hlo hhi).symm
  · intro st₁ row reserved N hp hrow hN hNlog hstep
    have hlt : (tierSlice (doubleLimit bs) (tripleLimit bs) data).length <
        entriesPerBlock bs * entriesPerBlock bs * entriesPerBlock bs := by
      have := tripleSpan_le bs
      rw [tierSlice_length_of_lt hlo hhi, hg.triple] at *
      omega
    rw [← hlen] at hstep
    exact childStage_appended_two hp hrow hds hlt rfl rfl rfl hb hN hNlog hstep hfin hfin0

/-- One `node_add_block` that returns true keeps the invariant, with the blocks it allocated. -/
theorem nodeAddBlock_treeOk {st st' : TreeState (σ × List ℕ)} {data : List ℕ} {b : ℕ}
    (hg : Geometry bs) (hok : TreeOk bs st data st.alloc.2) (hb : b ≠ 0)
    (h : nodeAddBlock (logged allocBlock) bs st b = some (true, st'))
    (hfin : st'.alloc.2.Nodup) (hfin0 : ∀ q ∈ st'.alloc.2, q ≠ 0) :
    TreeOk bs st' (data ++ [b]) st'.alloc.2 := by
  have hc := hok.count
  unfold nodeAddBlock at h
  dsimp only at h
  split_ifs at h with h₁ h₂ h₃ h₄
  · simp only [Option.some.injEq, Prod.mk.injEq, true_and] at h
    subst h
    exact hok.snoc_direct hg (by omega) hb
  · exact hok.snoc_single hg (by omega) (by omega) hb h hfin hfin0
  · exact hok.snoc_double hg (by omega) (by omega) hb h hfin hfin0
  · exact hok.snoc_triple hg (by omega) (by omega) hb h hfin hfin0
  · simp at h

end Appends

/-! ### Runs of appends -/

section Runs

variable {σ : Type} {allocBlock : σ → Option (σ × ℕ)} {bs : ℕ}

/-- The tree of an inode with no blocks. -/
theorem treeOk_empty {σ' : Type} {st : TreeState σ'} (hblock : ∀ i < 15, st.inode.block i = 0)
    (hcount : st.dataBlockCount = 0) : TreeOk bs st [] [] := by
  refine ⟨by simp [hcount], Nat.zero_le _, by simp, List.nodup_nil, by simp, ?_, fun _ => [],
    by simp, ?_⟩
  · intro i hi
    simp [hblock i (by omega)]
  · intro t
    exact .inl ⟨by simp [tierSlice], hblock _ (by omega), rfl⟩

/-- A `node_add_block` that returns true only adds to the allocator's log. -/
theorem nodeAddBlock_log {st st' : TreeState (σ × List ℕ)} {b : ℕ}
    (h : nodeAddBlock (logged allocBlock) bs st b = some (true, st')) :
    ∃ new, st'.alloc.2 = st.alloc.2 ++ new := by
  unfold nodeAddBlock at h
  dsimp only at h
  split_ifs at h
  · simp only [Option.some.injEq, Prod.mk.injEq, true_and] at h
    exact ⟨[], by simp [← h]⟩
  · unfold addSingle at h
    rcases rootStage_true h with ⟨-, a, q, -, h⟩ | ⟨-, h⟩ <;>
      simp only [Option.some.injEq, Prod.mk.injEq, true_and] at h
    · exact ⟨[q], by simp [← h, TreeState.publish]⟩
    · exact ⟨[], by simp [← h, TreeState.publish]⟩
  · unfold addDouble at h
    rcases rootStage_true h with ⟨-, a, q, -, h⟩ | ⟨-, h⟩
    · obtain ⟨new, hnew⟩ := childStage_publish_log h
      exact ⟨[q] ++ new, by simp [hnew]⟩
    · exact childStage_publish_log h
  · unfold addTriple at h
    rcases rootStage_true h with ⟨-, a, q, -, h⟩ | ⟨-, h⟩
    · rcases childStage_true h with ⟨-, a', r, -, h⟩ | ⟨-, h⟩
      · obtain ⟨new, hnew⟩ := childStage_publish_log h
        exact ⟨[q, r] ++ new, by simp [hnew]⟩
      · obtain ⟨new, hnew⟩ := childStage_publish_log h
        exact ⟨[q] ++ new, by simp [hnew]⟩
    · rcases childStage_true h with ⟨-, a', r, -, h⟩ | ⟨-, h⟩
      · obtain ⟨new, hnew⟩ := childStage_publish_log h
        exact ⟨[r] ++ new, by simp [hnew]⟩
      · exact childStage_publish_log h
  · simp at h

/-- Appends that all return true only add to the allocator's log. -/
theorem addBlocks_log : ∀ {st st' : TreeState (σ × List ℕ)} (blocks : List ℕ),
    addBlocks (logged allocBlock) bs st blocks = some (true, st') →
      ∃ new, st'.alloc.2 = st.alloc.2 ++ new
  | st, st', [], h => by
    simp only [addBlocks, Option.some.injEq, Prod.mk.injEq, true_and] at h
    exact ⟨[], by simp [h]⟩
  | st, st', b :: blocks, h => by
    unfold addBlocks at h
    split at h
    · rename_i st₁ hstep
      obtain ⟨new₁, h₁⟩ := nodeAddBlock_log hstep
      obtain ⟨new₂, h₂⟩ := addBlocks_log blocks h
      exact ⟨new₁ ++ new₂, by simp [h₂, h₁]⟩
    · rename_i hnot
      exact (hnot st' h).elim

/-- Every run of appends that return true keeps the invariant, with the blocks the allocator
handed out as the pointer blocks, as long as those are distinct and non-zero. -/
theorem addBlocks_treeOk (hg : Geometry bs) : ∀ {st st' : TreeState (σ × List ℕ)} {data : List ℕ}
    (blocks : List ℕ), TreeOk bs st data st.alloc.2 → (∀ b ∈ blocks, b ≠ 0) →
    addBlocks (logged allocBlock) bs st blocks = some (true, st') →
    st'.alloc.2.Nodup → (∀ q ∈ st'.alloc.2, q ≠ 0) → TreeOk bs st' (data ++ blocks) st'.alloc.2
  | st, st', data, [], hok, _, h, _, _ => by
    simp only [addBlocks, Option.some.injEq, Prod.mk.injEq, true_and] at h
    subst h
    simpa using hok
  | st, st', data, b :: blocks, hok, hb, h, hfin, hfin0 => by
    unfold addBlocks at h
    split at h
    · rename_i st₁ hstep
      -- the log after the first append is a prefix of the final one
      obtain ⟨new, hnew⟩ := addBlocks_log blocks h
      have hfin₁ : st₁.alloc.2.Nodup := (List.nodup_append.mp (hnew ▸ hfin)).1
      have hfin0₁ : ∀ q ∈ st₁.alloc.2, q ≠ 0 := fun q hq => hfin0 q (by simp [hnew, hq])
      have hok₁ := nodeAddBlock_treeOk hg hok (hb b List.mem_cons_self) hstep hfin₁ hfin0₁
      simpa using addBlocks_treeOk hg blocks hok₁ (fun b' hb' => hb b' (List.mem_cons_of_mem _ hb'))
        h hfin hfin0
    · rename_i hnot
      exact (hnot st' h).elim

end Runs

/-! ### Reclamation -/

/-- Reclaiming an inode frees exactly the blocks its appends attached: after `node_add_block`
has appended the data blocks `data` to an inode with no blocks, every call returning true and
the pointer blocks the allocator handed out distinct and non-zero, `node_dealloc_blocks` passes
each data block and each pointer block to `dealloc_block` once and no other block (none at all
for a fast symlink), and leaves `block[]`, `blocks`, `size` and `data_block_count` zero. -/
theorem nodeDeallocBlocks_frees_attached {σ : Type} (allocBlock : σ → Option (σ × ℕ))
    (logBlockSize : ℕ) (st₀ st : TreeState (σ × List ℕ)) (data : List ℕ)
    (hblock : ∀ i < 15, st₀.inode.block i = 0) (hcount : st₀.dataBlockCount = 0)
    (hlog : st₀.alloc.2 = [])
    (hrun : addBlocks (logged allocBlock) (ext2GetBlockSize logBlockSize) st₀ data =
      some (true, st))
    (hdata : ∀ b ∈ data, b ≠ 0) (hnd : st.alloc.2.Nodup) (hne : ∀ q ∈ st.alloc.2, q ≠ 0) :
    ∃ freed, nodeDeallocBlocks st = .ok (freed, { st with
        inode := { st.inode with block := fun _ => 0, blocks := 0, size := 0 }
        dataBlockCount := 0 }) ∧
      if isFastSymlink st.inode then freed = [] else freed ~ data ++ st.alloc.2 := by
  have hg := geometry_ext2GetBlockSize logBlockSize
  have hok₀ : TreeOk (ext2GetBlockSize logBlockSize) st₀ [] st₀.alloc.2 := by
    rw [hlog]; exact treeOk_empty hblock hcount
  have hok := addBlocks_treeOk hg data hok₀ hdata hrun hnd hne
  simpa using hok.nodeDeallocBlocks_eq hg

/-- Thirteen blocks appended to an empty file of 1024-byte blocks: twelve direct ones and one
in the single indirect tier, whose pointer block the allocator hands out as block `1000`. -/
theorem nodeDeallocBlocks_frees_thirteen :
    let st₀ : TreeState (ℕ × List ℕ) :=
      ⟨(1000, []), fun _ => [], ⟨ext2DefaultFileMode, 0, 1, 0, fun _ => 0⟩, 0⟩
    let st := ((addBlocks (logged fun n => some (n + 1, n)) (ext2GetBlockSize 0) st₀
      (List.range' 1 13)).getD (false, st₀)).2
    ∃ freed, nodeDeallocBlocks st = .ok (freed, { st with
        inode := { st.inode with block := fun _ => 0, blocks := 0, size := 0 }
        dataBlockCount := 0 }) ∧
      if isFastSymlink st.inode then freed = [] else freed ~ List.range' 1 13 ++ st.alloc.2 := by
  intro st₀ st
  exact nodeDeallocBlocks_frees_attached (fun n => some (n + 1, n)) 0 st₀ st _ (fun _ _ => rfl)
    rfl rfl rfl (by decide) (by decide +kernel) (by decide +kernel)

end DioptaseOS.Ext2
