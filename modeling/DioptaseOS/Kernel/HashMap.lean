import DioptaseOS.Lib.ChainedHash

/-!
# The kernel hash map

`hashmap.c` keys a table of `size` bucket chains by an `unsigned`, the bucket of a key being
`key % size`. `hash_map_insert` replaces the value of the key's entry, or appends an entry at
the end of its chain, and returns the old value; `hash_map_try_insert` appends only for a new
key and returns the value already there; `hash_map_remove` unlinks the key's entry and returns
its value; `hash_map_get` and `hash_map_contains` walk the chain; `hash_map_destroy` frees every
chain. A returned `NULL` is `none`; the kernel never stores `NULL` (the inode cache stores
cached inodes).

A chain is a list, and each walk is the loop of its function from the chain the function is
given. The model is the chained table of `ChainedHash` with the identity hash
(`HashMap.toTable`), and through it a finite map `ℕ → Option ν` (`HashMap.toMap`): from
`hash_map_init(n)` with `n > 0`, along any sequence of operations, each chain holds distinct
keys of its own bucket, each operation returns and changes what the finite map does, and
`hash_map_destroy` frees each entry of the map once. This is the map the inode cache of
`Ext2.InodeCache` reads and updates as a function.

## Main definitions

* `HashMap`, `hashMapInit`
* `hashEntryInsert`, `hashEntryTryInsert`, `hashEntryGet`, `hashEntryContains`,
  `hashEntryRemove` — the walks of a chain
* `hashMapInsert`, `hashMapTryInsert`, `hashMapGet`, `hashMapContains`, `hashMapRemove`,
  `hashMapDestroy`
* `HashMapOp`, `hashMapStep`, `HashMap.Reachable` — the operations one after another
* `mapStep` — what an operation does to a finite map

## Main results

* `hashEntryInsert_eq`, `hashEntryTryInsert_eq`, `hashEntryGet_eq`, `hashEntryContains_eq`,
  `hashEntryRemove_eq` — each walk is the chain operation of `ChainedHash`
* `hashMapStep_refines` — one operation on a well-formed map is the finite map's operation
* `hashmap_refines_map` — every reachable hash map is the finite map its operations built
-/

namespace DioptaseOS.Kernel

open ChainedHash

variable {ν : Type*}

/-! ### The code -/

/-- `struct HashMap`: `size` buckets and the chain `arr[i]` of each. -/
structure HashMap (ν : Type*) where
  size : ℕ
  arr : ℕ → List (ℕ × ν)

/-- `hash_map_init(hmap, num_buckets)`: every bucket `NULL`. -/
def hashMapInit (numBuckets : ℕ) : HashMap ν := ⟨numBuckets, fun _ => []⟩

/-- `hmap->arr[hash] = chain`. -/
def HashMap.setBucket (hmap : HashMap ν) (hash : ℕ) (chain : List (ℕ × ν)) : HashMap ν :=
  { hmap with arr := Function.update hmap.arr hash chain }

/-- `hash_entry_insert(entry, key, value)` on the chain `entry :: rest`: the chain after the
walk, and the old value. -/
def hashEntryInsert (entry : ℕ × ν) (rest : List (ℕ × ν)) (key : ℕ) (value : ν) :
    List (ℕ × ν) × Option ν :=
  if entry.1 = key then ((entry.1, value) :: rest, some entry.2)
  else
    match rest with
    | [] => ([entry, (key, value)], none)
    | next :: rest =>
      let r := hashEntryInsert next rest key value
      (entry :: r.1, r.2)

/-- `hash_map_insert(hmap, key, value)`: the map, and the old value. -/
def hashMapInsert (hmap : HashMap ν) (key : ℕ) (value : ν) : HashMap ν × Option ν :=
  let hash := key % hmap.size
  match hmap.arr hash with
  | [] => (hmap.setBucket hash [(key, value)], none)
  | entry :: rest =>
    let r := hashEntryInsert entry rest key value
    (hmap.setBucket hash r.1, r.2)

/-- `hash_entry_try_insert(entry, key, value)` on the chain `entry :: rest`. -/
def hashEntryTryInsert (entry : ℕ × ν) (rest : List (ℕ × ν)) (key : ℕ) (value : ν) :
    List (ℕ × ν) × Option ν :=
  if entry.1 = key then (entry :: rest, some entry.2)
  else
    match rest with
    | [] => ([entry, (key, value)], none)
    | next :: rest =>
      let r := hashEntryTryInsert next rest key value
      (entry :: r.1, r.2)

/-- `hash_map_try_insert(hmap, key, value)`: the map, and the value already there. -/
def hashMapTryInsert (hmap : HashMap ν) (key : ℕ) (value : ν) : HashMap ν × Option ν :=
  let hash := key % hmap.size
  match hmap.arr hash with
  | [] => (hmap.setBucket hash [(key, value)], none)
  | entry :: rest =>
    let r := hashEntryTryInsert entry rest key value
    (hmap.setBucket hash r.1, r.2)

/-- `hash_entry_get(entry, key)`. -/
def hashEntryGet : List (ℕ × ν) → ℕ → Option ν
  | [], _ => none
  | entry :: rest, key => if entry.1 = key then some entry.2 else hashEntryGet rest key

/-- `hash_map_get(hmap, key)`. -/
def hashMapGet (hmap : HashMap ν) (key : ℕ) : Option ν :=
  match hmap.arr (key % hmap.size) with
  | [] => none
  | entry :: rest => hashEntryGet (entry :: rest) key

/-- `hash_entry_contains(entry, key)`. -/
def hashEntryContains : List (ℕ × ν) → ℕ → Bool
  | [], _ => false
  | entry :: rest, key => if entry.1 = key then true else hashEntryContains rest key

/-- `hash_map_contains(hmap, key)`. -/
def hashMapContains (hmap : HashMap ν) (key : ℕ) : Bool :=
  match hmap.arr (key % hmap.size) with
  | [] => false
  | entry :: rest => hashEntryContains (entry :: rest) key

/-- `hash_entry_remove(head, key)`: the chain after the key's entry is unlinked through the
previous `next` pointer, and its value. -/
def hashEntryRemove : List (ℕ × ν) → ℕ → List (ℕ × ν) × Option ν
  | [], _ => ([], none)
  | entry :: rest, key =>
    if entry.1 = key then (rest, some entry.2)
    else
      let r := hashEntryRemove rest key
      (entry :: r.1, r.2)

/-- `hash_map_remove(hmap, key)`: the map, and the removed value. -/
def hashMapRemove (hmap : HashMap ν) (key : ℕ) : HashMap ν × Option ν :=
  let hash := key % hmap.size
  match hmap.arr hash with
  | [] => (hmap, none)
  | entry :: rest =>
    let r := hashEntryRemove (entry :: rest) key
    (hmap.setBucket hash r.1, r.2)

/-- `hash_map_destroy(hmap)`: the entries `hash_entry_free` frees, bucket by bucket. -/
def hashMapDestroy (hmap : HashMap ν) : List (ℕ × ν) :=
  (List.range hmap.size).flatMap hmap.arr

/-- The calls of the map's interface. -/
inductive HashMapOp (ν : Type*) where
  | insert (key : ℕ) (value : ν)
  | tryInsert (key : ℕ) (value : ν)
  | get (key : ℕ)
  | contains (key : ℕ)
  | remove (key : ℕ)

/-- What a call returns: a value (`NULL` as `none`), or the answer of `hash_map_contains`. -/
inductive HashMapResult (ν : Type*) where
  | value (v : Option ν)
  | found (b : Bool)

/-- One call: its result and the map after it. -/
def hashMapStep (hmap : HashMap ν) : HashMapOp ν → HashMapResult ν × HashMap ν
  | .insert key value => let r := hashMapInsert hmap key value; (.value r.2, r.1)
  | .tryInsert key value => let r := hashMapTryInsert hmap key value; (.value r.2, r.1)
  | .get key => (.value (hashMapGet hmap key), hmap)
  | .contains key => (.found (hashMapContains hmap key), hmap)
  | .remove key => let r := hashMapRemove hmap key; (.value r.2, r.1)

/-- The maps of `num_buckets` buckets that calls made one after another reach. -/
inductive HashMap.Reachable (numBuckets : ℕ) : HashMap ν → Prop
  | init : HashMap.Reachable numBuckets (hashMapInit numBuckets)
  | step {hmap : HashMap ν} (op : HashMapOp ν) :
      HashMap.Reachable numBuckets hmap → HashMap.Reachable numBuckets (hashMapStep hmap op).2

/-! ### The finite map -/

/-- What a call does to a finite map: `insert` sets the key, `try_insert` sets it only when it
has no value, `remove` clears it, and each returns the value the key had. -/
def mapStep (m : ℕ → Option ν) : HashMapOp ν → HashMapResult ν × (ℕ → Option ν)
  | .insert key value => (.value (m key), Function.update m key (some value))
  | .tryInsert key value => (.value (m key), Function.update m key ((m key).or (some value)))
  | .get key => (.value (m key), m)
  | .contains key => (.found (m key).isSome, m)
  | .remove key => (.value (m key), Function.update m key none)

/-- The chained table of the map: the hash of a key is the key. -/
def HashMap.toTable (hmap : HashMap ν) : Table ℕ ν := ⟨hmap.size, id, hmap.arr⟩

/-- The finite map the hash map stands for. -/
def HashMap.toMap (hmap : HashMap ν) : ℕ → Option ν := hmap.toTable.get

theorem toTable_setBucket (hmap : HashMap ν) (key : ℕ) (chain : List (ℕ × ν)) :
    (hmap.setBucket (key % hmap.size) chain).toTable = hmap.toTable.setChain key chain := rfl

theorem toMap_apply (hmap : HashMap ν) (key : ℕ) :
    hmap.toMap key = chainGet (hmap.arr (key % hmap.size)) key := rfl

/-! ### The walks are the chain operations -/

theorem hashEntryInsert_eq (entry : ℕ × ν) (rest : List (ℕ × ν)) (key : ℕ) (value : ν) :
    hashEntryInsert entry rest key value =
      (chainInsert (entry :: rest) key value, chainGet (entry :: rest) key) := by
  induction rest generalizing entry with
  | nil =>
    obtain ⟨k, v⟩ := entry
    by_cases h : k = key <;> simp [hashEntryInsert, chainInsert, chainGet, h]
  | cons next rest ih =>
    obtain ⟨k, v⟩ := entry
    by_cases h : k = key
    · simp [hashEntryInsert, chainInsert, chainGet, h]
    · -- the walk moves on to `next`, where `ih` takes over
      rw [hashEntryInsert, if_neg h, ih, chainInsert_cons_of_ne v value _ h,
        chainGet_cons_of_ne v _ h]

theorem hashEntryTryInsert_eq (entry : ℕ × ν) (rest : List (ℕ × ν)) (key : ℕ) (value : ν) :
    hashEntryTryInsert entry rest key value =
      (chainTryInsert (entry :: rest) key value, chainGet (entry :: rest) key) := by
  induction rest generalizing entry with
  | nil =>
    obtain ⟨k, v⟩ := entry
    by_cases h : k = key <;> simp [hashEntryTryInsert, chainTryInsert, chainGet, h]
  | cons next rest ih =>
    obtain ⟨k, v⟩ := entry
    by_cases h : k = key
    · simp [hashEntryTryInsert, chainTryInsert, chainGet, h]
    · rw [hashEntryTryInsert, if_neg h, ih, chainTryInsert_cons_of_ne v value _ h,
        chainGet_cons_of_ne v _ h]

theorem hashEntryGet_eq (chain : List (ℕ × ν)) (key : ℕ) :
    hashEntryGet chain key = chainGet chain key := by
  induction chain with
  | nil => rfl
  | cons entry rest ih =>
    obtain ⟨k, v⟩ := entry
    rw [hashEntryGet, chainGet, ih]

theorem hashEntryContains_eq (chain : List (ℕ × ν)) (key : ℕ) :
    hashEntryContains chain key = (chainGet chain key).isSome := by
  induction chain with
  | nil => rfl
  | cons entry rest ih =>
    obtain ⟨k, v⟩ := entry
    by_cases h : k = key <;> simp [hashEntryContains, chainGet, h, ih]

theorem hashEntryRemove_eq (chain : List (ℕ × ν)) (key : ℕ) :
    hashEntryRemove chain key = (chainRemove chain key, chainGet chain key) := by
  induction chain with
  | nil => rfl
  | cons entry rest ih =>
    obtain ⟨k, v⟩ := entry
    by_cases h : k = key
    · simp [hashEntryRemove, chainRemove, chainGet, h]
    · rw [hashEntryRemove, if_neg h, ih, chainRemove_cons_of_ne v _ h, chainGet_cons_of_ne v _ h]

/-! ### The calls are the table operations -/

section Calls

variable (hmap : HashMap ν) (key : ℕ) (value : ν)

theorem hashMapInsert_eq :
    hashMapInsert hmap key value =
      (hmap.setBucket (key % hmap.size) (chainInsert (hmap.arr (key % hmap.size)) key value),
        hmap.toMap key) := by
  dsimp only [hashMapInsert]
  split
  · rename_i hnil
    rw [toMap_apply, hnil]
    rfl
  · rename_i entry rest hcons
    rw [hashEntryInsert_eq, toMap_apply, hcons]

theorem hashMapTryInsert_eq :
    hashMapTryInsert hmap key value =
      (hmap.setBucket (key % hmap.size) (chainTryInsert (hmap.arr (key % hmap.size)) key value),
        hmap.toMap key) := by
  dsimp only [hashMapTryInsert]
  split
  · rename_i hnil
    rw [toMap_apply, hnil]
    rfl
  · rename_i entry rest hcons
    rw [hashEntryTryInsert_eq, toMap_apply, hcons]

theorem hashMapGet_eq : hashMapGet hmap key = hmap.toMap key := by
  dsimp only [hashMapGet]
  split
  · rename_i hnil
    rw [toMap_apply, hnil]
    rfl
  · rename_i entry rest hcons
    rw [hashEntryGet_eq, toMap_apply, hcons]

theorem hashMapContains_eq : hashMapContains hmap key = (hmap.toMap key).isSome := by
  dsimp only [hashMapContains]
  split
  · rename_i hnil
    rw [toMap_apply, hnil]
    rfl
  · rename_i entry rest hcons
    rw [hashEntryContains_eq, toMap_apply, hcons]

theorem hashMapRemove_eq :
    ((hashMapRemove hmap key).1.toTable, (hashMapRemove hmap key).2) =
      (hmap.toTable.remove key, hmap.toMap key) := by
  dsimp only [hashMapRemove]
  split
  · -- an empty bucket is left as it is, which is the empty chain written back
    rename_i hnil
    have hkeep : hmap.toTable.remove key = hmap.toTable := by
      rw [Table.remove, Table.setChain]
      change (⟨hmap.size, id, Function.update hmap.arr (key % hmap.size)
        (chainRemove (hmap.arr (key % hmap.size)) key)⟩ : Table ℕ ν) = ⟨hmap.size, id, hmap.arr⟩
      have hchain : chainRemove (hmap.arr (key % hmap.size)) key = hmap.arr (key % hmap.size) := by
        rw [hnil]
        rfl
      rw [hchain, Function.update_eq_self]
    rw [hkeep, toMap_apply, hnil]
    rfl
  · rename_i entry rest hcons
    rw [hashEntryRemove_eq, toTable_setBucket, toMap_apply, ← hcons]
    rfl

theorem hashMapDestroy_eq : hashMapDestroy hmap = hmap.toTable.entries := rfl

end Calls

/-! ### One call, and every run -/

/-- A finite map that agrees with `m` away from `key` and has `b` at `key`. -/
theorem eq_update_of_apply {m m' : ℕ → Option ν} {key : ℕ} {b : Option ν}
    (h : ∀ k, m' k = if key = k then b else m k) : m' = Function.update m key b := by
  funext k
  rw [h, Function.update_apply]
  by_cases hk : key = k
  · rw [if_pos hk, if_pos hk.symm]
  · rw [if_neg hk, if_neg (Ne.symm hk)]

/-- A call on a well-formed map returns what the finite map's call returns, leaves the map the
finite map's call leaves, and keeps the map well formed and its size. -/
theorem hashMapStep_refines {hmap : HashMap ν} (hw : hmap.toTable.Wf) (op : HashMapOp ν) :
    ((hashMapStep hmap op).1, (hashMapStep hmap op).2.toMap) = mapStep hmap.toMap op ∧
      (hashMapStep hmap op).2.toTable.Wf ∧ (hashMapStep hmap op).2.size = hmap.size := by
  cases op with
  | insert key value =>
    simp only [hashMapStep, mapStep]
    have htable : (hashMapInsert hmap key value).1.toTable = hmap.toTable.insert key value := by
      rw [hashMapInsert_eq, toTable_setBucket, insert_eq_setChain]
      rfl
    have hmap' : (hashMapInsert hmap key value).1.toMap =
        Function.update hmap.toMap key (some value) :=
      eq_update_of_apply fun k => by rw [HashMap.toMap, htable, get_insert]; rfl
    refine ⟨?_, htable ▸ hw.insert key value, congrArg Table.size htable⟩
    rw [hmap', hashMapInsert_eq]
  | tryInsert key value =>
    simp only [hashMapStep, mapStep]
    have htable : (hashMapTryInsert hmap key value).1.toTable =
        hmap.toTable.tryInsert key value := by
      rw [hashMapTryInsert_eq, toTable_setBucket]
      rfl
    have hmap' : (hashMapTryInsert hmap key value).1.toMap =
        Function.update hmap.toMap key ((hmap.toMap key).or (some value)) :=
      eq_update_of_apply fun k => by rw [HashMap.toMap, htable, get_tryInsert]; rfl
    refine ⟨?_, htable ▸ hw.tryInsert key value, congrArg Table.size htable⟩
    rw [hmap', hashMapTryInsert_eq]
  | get key => exact ⟨by simp only [hashMapStep, mapStep, hashMapGet_eq], hw, rfl⟩
  | contains key => exact ⟨by simp only [hashMapStep, mapStep, hashMapContains_eq], hw, rfl⟩
  | remove key =>
    simp only [hashMapStep, mapStep]
    obtain ⟨htable, hvalue⟩ := Prod.mk.inj (hashMapRemove_eq hmap key)
    have hmap' : (hashMapRemove hmap key).1.toMap = Function.update hmap.toMap key none :=
      eq_update_of_apply fun k => by rw [HashMap.toMap, htable, get_remove hw]; rfl
    refine ⟨?_, htable ▸ hw.remove key, congrArg Table.size htable⟩
    rw [hmap', hvalue]

/-- Every reachable map is well formed and keeps its number of buckets. -/
theorem HashMap.Reachable.wf {numBuckets : ℕ} {hmap : HashMap ν}
    (hreach : hmap.Reachable numBuckets) : hmap.toTable.Wf ∧ hmap.size = numBuckets := by
  induction hreach with
  | init => exact ⟨wf_empty numBuckets id, rfl⟩
  | step op _ ih =>
    obtain ⟨-, hw, hsize⟩ := hashMapStep_refines ih.1 op
    exact ⟨hw, hsize.trans ih.2⟩

/-- Along every run from `hash_map_init(num_buckets)` with `num_buckets > 0`, the hash map is
a finite map: each call returns and leaves what the finite map's call does, each chain holds
distinct keys, all of its own bucket, and `hash_map_destroy` frees every entry of the map once
and nothing else. -/
theorem hashmap_refines_map {numBuckets : ℕ} (hpos : 0 < numBuckets) {hmap : HashMap ν}
    (hreach : hmap.Reachable numBuckets) (op : HashMapOp ν) :
    ((hashMapStep hmap op).1, (hashMapStep hmap op).2.toMap) = mapStep hmap.toMap op ∧
      (∀ b, ((hmap.arr b).map Prod.fst).Nodup ∧ ∀ e ∈ hmap.arr b, e.1 % numBuckets = b) ∧
      (∀ e, e ∈ hashMapDestroy hmap ↔ hmap.toMap e.1 = some e.2) ∧
      ((hashMapDestroy hmap).map Prod.fst).Nodup := by
  obtain ⟨hw, hsize⟩ := hreach.wf
  refine ⟨(hashMapStep_refines hw op).1, fun b => ⟨hw.nodupKeys b, fun e he => ?_⟩,
    fun e => ?_, ?_⟩
  · rw [← hsize]
    exact hw.placed b e he
  · rw [hashMapDestroy_eq]
    exact hw.mem_entries_iff (show 0 < hmap.size by rw [hsize]; exact hpos) e
  · exact hw.nodupKeys_entries

/-- After `7` and `1031`, which share bucket `7` of 1024, an `insert` of `7` updates the head
of that chain. -/
theorem hashmap_refines_map_collision :
    let hmap := (hashMapStep (hashMapStep (hashMapInit 1024 : HashMap ℕ) (.insert 7 3)).2
      (.insert 1031 4)).2
    ((hashMapStep hmap (.insert 7 5)).1, (hashMapStep hmap (.insert 7 5)).2.toMap) =
        mapStep hmap.toMap (.insert 7 5) ∧
      (∀ b, ((hmap.arr b).map Prod.fst).Nodup ∧ ∀ e ∈ hmap.arr b, e.1 % 1024 = b) ∧
      (∀ e, e ∈ hashMapDestroy hmap ↔ hmap.toMap e.1 = some e.2) ∧
      ((hashMapDestroy hmap).map Prod.fst).Nodup :=
  hashmap_refines_map (by decide) (.step (.insert 1031 4) (.step (.insert 7 3) .init)) (.insert 7 5)

end DioptaseOS.Kernel
