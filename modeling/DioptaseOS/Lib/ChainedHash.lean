import Mathlib.Logic.Function.Basic
import Mathlib.Data.List.Nodup

/-!
# Chained hash tables

A table of `size` buckets, the bucket of a key being its hash modulo `size`; each bucket is a
chain of entries in insertion order. A lookup walks the key's chain to its first entry with the
key; an insertion replaces the value of that entry, or appends a new entry at the end of the
chain; a conditional insertion appends only when the chain has no entry with the key; a removal
unlinks the first entry with the key. Whatever the hash, the table is the finite map its
operations build: the hash decides which chain is searched, never what is found (`get_insert`).

That a removal forgets the key needs each chain to hold a key at most once, and that the
buckets hold exactly the entries of the map needs each entry to sit in its key's bucket:
`Table.Wf` is the two together, and every operation keeps it.

## Main definitions

* `ChainedHash.chainGet`, `chainInsert`, `chainTryInsert`, `chainRemove` — one chain
* `ChainedHash.Table`, `Table.get`, `Table.insert`, `Table.tryInsert`, `Table.remove`
* `Table.Wf` — distinct keys in each chain, each entry in its key's bucket
* `Table.entries` — the entries of the buckets below `size`, bucket by bucket

## Main results

* `get_insert`, `get_tryInsert`, `get_remove`, `get_empty` — a lookup after an operation
* `Table.Wf.insert`, `Wf.tryInsert`, `Wf.remove`, `wf_empty` — the operations keep `Wf`
* `Table.Wf.mem_entries_iff`, `Wf.nodupKeys_entries` — the buckets hold each key of the map
  once, with its value, and nothing else
-/

namespace ChainedHash

variable {κ ν : Type*} [DecidableEq κ]

/-! ### Chains -/

/-- The value of the first entry with the key. -/
def chainGet : List (κ × ν) → κ → Option ν
  | [], _ => none
  | (k', v) :: rest, k => if k' = k then some v else chainGet rest k

/-- Replace the value of the first entry with the key, or append an entry at the end. -/
def chainInsert : List (κ × ν) → κ → ν → List (κ × ν)
  | [], k, v => [(k, v)]
  | (k', v') :: rest, k, v =>
    if k' = k then (k', v) :: rest else (k', v') :: chainInsert rest k v

/-- Append an entry at the end unless the chain has one with the key. -/
def chainTryInsert (c : List (κ × ν)) (k : κ) (v : ν) : List (κ × ν) :=
  if (chainGet c k).isSome then c else c ++ [(k, v)]

/-- Unlink the first entry with the key. -/
def chainRemove : List (κ × ν) → κ → List (κ × ν)
  | [], _ => []
  | (k', v') :: rest, k => if k' = k then rest else (k', v') :: chainRemove rest k

/-- No two entries of the chain have the same key. -/
def NodupKeys (c : List (κ × ν)) : Prop := (c.map Prod.fst).Nodup

theorem chainGet_chainInsert (c : List (κ × ν)) (k k' : κ) (v : ν) :
    chainGet (chainInsert c k v) k' = if k = k' then some v else chainGet c k' := by
  induction c with
  | nil => simp [chainInsert, chainGet]
  | cons e rest ih =>
    obtain ⟨k₀, v₀⟩ := e
    by_cases h₀ : k₀ = k
    · -- the head is the key's entry, whose value is replaced
      subst h₀
      by_cases hk : k₀ = k' <;> simp [chainInsert, chainGet, hk]
    · by_cases hk : k₀ = k'
      · subst hk
        simp [chainInsert, chainGet, h₀, Ne.symm h₀]
      · simp [chainInsert, chainGet, h₀, hk, ih]

theorem chainGet_cons_of_ne {k' k : κ} (v' : ν) (c : List (κ × ν)) (h : k' ≠ k) :
    chainGet ((k', v') :: c) k = chainGet c k := by
  rw [chainGet, if_neg h]

theorem chainInsert_cons_of_ne {k' k : κ} (v' v : ν) (c : List (κ × ν)) (h : k' ≠ k) :
    chainInsert ((k', v') :: c) k v = (k', v') :: chainInsert c k v := by
  rw [chainInsert, if_neg h]

theorem chainRemove_cons_of_ne {k' k : κ} (v' : ν) (c : List (κ × ν)) (h : k' ≠ k) :
    chainRemove ((k', v') :: c) k = (k', v') :: chainRemove c k := by
  rw [chainRemove, if_neg h]

theorem chainGet_eq_none_iff {c : List (κ × ν)} {k : κ} :
    chainGet c k = none ↔ k ∉ c.map Prod.fst := by
  induction c with
  | nil => simp [chainGet]
  | cons e rest ih =>
    obtain ⟨k₀, v₀⟩ := e
    by_cases h₀ : k₀ = k
    · simp [chainGet, h₀]
    · simp [chainGet, h₀, ih, Ne.symm h₀]

theorem mem_of_chainGet_eq_some {c : List (κ × ν)} {k : κ} {v : ν}
    (h : chainGet c k = some v) : (k, v) ∈ c := by
  induction c with
  | nil => simp [chainGet] at h
  | cons e rest ih =>
    obtain ⟨k₀, v₀⟩ := e
    by_cases h₀ : k₀ = k
    · subst h₀
      rw [chainGet, if_pos rfl, Option.some.injEq] at h
      rw [h]
      exact List.mem_cons_self
    · rw [chainGet, if_neg h₀] at h
      exact List.mem_cons_of_mem _ (ih h)

/-- In a chain of distinct keys an entry is what a lookup of its key finds. -/
theorem chainGet_of_mem {c : List (κ × ν)} (hc : NodupKeys c) {k : κ} {v : ν}
    (h : (k, v) ∈ c) : chainGet c k = some v := by
  induction c with
  | nil => simp at h
  | cons e rest ih =>
    obtain ⟨k₀, v₀⟩ := e
    rw [NodupKeys, List.map_cons, List.nodup_cons] at hc
    rcases List.mem_cons.mp h with he | he
    · rw [Prod.mk.injEq] at he
      rw [chainGet, if_pos he.1.symm, he.2]
    · have hk : k₀ ≠ k := by
        rintro rfl
        exact hc.1 (List.mem_map.mpr ⟨_, he, rfl⟩)
      rw [chainGet, if_neg hk]
      exact ih hc.2 he

theorem chainGet_append (c d : List (κ × ν)) (k : κ) :
    chainGet (c ++ d) k = (chainGet c k).or (chainGet d k) := by
  induction c with
  | nil => simp [chainGet]
  | cons e rest ih =>
    obtain ⟨k₀, v₀⟩ := e
    by_cases h₀ : k₀ = k <;> simp [chainGet, h₀, ih]

theorem map_fst_chainInsert (c : List (κ × ν)) (k : κ) (v : ν) :
    (chainInsert c k v).map Prod.fst =
      if k ∈ c.map Prod.fst then c.map Prod.fst else c.map Prod.fst ++ [k] := by
  induction c with
  | nil => simp [chainInsert]
  | cons e rest ih =>
    obtain ⟨k₀, v₀⟩ := e
    by_cases h₀ : k₀ = k
    · simp [chainInsert, h₀]
    · have hk : k ≠ k₀ := Ne.symm h₀
      simp only [chainInsert, if_neg h₀, List.map_cons, ih, List.mem_cons, hk, false_or]
      split_ifs <;> rfl

theorem nodupKeys_chainInsert {c : List (κ × ν)} (hc : NodupKeys c) (k : κ) (v : ν) :
    NodupKeys (chainInsert c k v) := by
  rw [NodupKeys, map_fst_chainInsert]
  split_ifs with hk
  · exact hc
  · exact hc.append (List.nodup_singleton k) (by simpa using hk)

theorem mem_chainInsert {c : List (κ × ν)} {k : κ} {v : ν} {e : κ × ν}
    (he : e ∈ chainInsert c k v) : e = (k, v) ∨ e ∈ c := by
  induction c with
  | nil => simpa [chainInsert] using he
  | cons e₀ rest ih =>
    obtain ⟨k₀, v₀⟩ := e₀
    by_cases h₀ : k₀ = k
    · subst h₀
      rw [chainInsert, if_pos rfl, List.mem_cons] at he
      rcases he with rfl | he
      · exact .inl rfl
      · exact .inr (List.mem_cons_of_mem _ he)
    · rw [chainInsert, if_neg h₀, List.mem_cons] at he
      rcases he with rfl | he
      · exact .inr List.mem_cons_self
      · exact (ih he).imp_right (List.mem_cons_of_mem _)

theorem chainGet_chainTryInsert (c : List (κ × ν)) (k k' : κ) (v : ν) :
    chainGet (chainTryInsert c k v) k' =
      if k = k' then (chainGet c k).or (some v) else chainGet c k' := by
  unfold chainTryInsert
  cases hget : chainGet c k with
  | some w =>
    -- the key is there: the chain is kept
    by_cases hk : k = k'
    · subst hk; simp [hget]
    · simp [hk]
  | none =>
    by_cases hk : k = k'
    · subst hk; simp [chainGet_append, hget, chainGet]
    · simp [chainGet_append, chainGet, hk]

theorem chainTryInsert_cons_of_ne {k' k : κ} (v' v : ν) (c : List (κ × ν)) (h : k' ≠ k) :
    chainTryInsert ((k', v') :: c) k v = (k', v') :: chainTryInsert c k v := by
  unfold chainTryInsert
  rw [chainGet, if_neg h]
  split_ifs <;> rfl

theorem nodupKeys_chainTryInsert {c : List (κ × ν)} (hc : NodupKeys c) (k : κ) (v : ν) :
    NodupKeys (chainTryInsert c k v) := by
  unfold chainTryInsert
  split_ifs with hk
  · exact hc
  · have hnot : k ∉ c.map Prod.fst := chainGet_eq_none_iff.mp (by simpa using hk)
    rw [NodupKeys, List.map_append]
    exact hc.append (List.nodup_singleton k) (by simpa using hnot)

theorem mem_chainTryInsert {c : List (κ × ν)} {k : κ} {v : ν} {e : κ × ν}
    (he : e ∈ chainTryInsert c k v) : e = (k, v) ∨ e ∈ c := by
  unfold chainTryInsert at he
  split_ifs at he
  · exact .inr he
  · rcases List.mem_append.mp he with he | he
    · exact .inr he
    · exact .inl (List.mem_singleton.mp he)

theorem chainRemove_sublist (c : List (κ × ν)) (k : κ) : (chainRemove c k).Sublist c := by
  induction c with
  | nil => exact List.Sublist.slnil
  | cons e rest ih =>
    obtain ⟨k₀, v₀⟩ := e
    by_cases h₀ : k₀ = k
    · rw [chainRemove, if_pos h₀]
      exact List.sublist_cons_self _ _
    · rw [chainRemove, if_neg h₀]
      exact ih.cons_cons _

theorem nodupKeys_chainRemove {c : List (κ × ν)} (hc : NodupKeys c) (k : κ) :
    NodupKeys (chainRemove c k) :=
  ((chainRemove_sublist c k).map Prod.fst).nodup hc

/-- Removing the first entry of a key forgets the key when it has no other entry. -/
theorem chainGet_chainRemove {c : List (κ × ν)} (hc : NodupKeys c) (k k' : κ) :
    chainGet (chainRemove c k) k' = if k = k' then none else chainGet c k' := by
  induction c with
  | nil => simp [chainRemove, chainGet]
  | cons e rest ih =>
    obtain ⟨k₀, v₀⟩ := e
    rw [NodupKeys, List.map_cons, List.nodup_cons] at hc
    by_cases h₀ : k₀ = k
    · subst h₀
      rw [chainRemove, if_pos rfl]
      by_cases hk : k₀ = k'
      · -- the removed head was the key's only entry
        subst hk
        rw [if_pos rfl]
        exact chainGet_eq_none_iff.mpr hc.1
      · simp [chainGet, hk]
    · rw [chainRemove, if_neg h₀, chainGet, chainGet, ih hc.2]
      by_cases hk : k = k'
      · subst hk; simp [h₀]
      · simp [hk]

/-! ### Tables -/

/-- A table of `size` buckets, with the hash of its keys. -/
structure Table (κ ν : Type*) where
  size : Nat
  hash : κ → Nat
  buckets : Nat → List (κ × ν)

/-- A table of empty buckets. -/
def Table.empty (size : Nat) (hash : κ → Nat) : Table κ ν := ⟨size, hash, fun _ => []⟩

/-- The bucket of a key: its hash modulo the number of buckets. -/
def Table.bucket (t : Table κ ν) (k : κ) : Nat := t.hash k % t.size

def Table.get (t : Table κ ν) (k : κ) : Option ν := chainGet (t.buckets (t.bucket k)) k

def Table.insert (t : Table κ ν) (k : κ) (v : ν) : Table κ ν :=
  { t with buckets := Function.update t.buckets (t.bucket k) (chainInsert (t.buckets (t.bucket k)) k v) }

/-- The chain of `k`'s bucket replaced by `c`. -/
def Table.setChain (t : Table κ ν) (k : κ) (c : List (κ × ν)) : Table κ ν :=
  { t with buckets := Function.update t.buckets (t.bucket k) c }

def Table.tryInsert (t : Table κ ν) (k : κ) (v : ν) : Table κ ν :=
  t.setChain k (chainTryInsert (t.buckets (t.bucket k)) k v)

def Table.remove (t : Table κ ν) (k : κ) : Table κ ν :=
  t.setChain k (chainRemove (t.buckets (t.bucket k)) k)

/-- The entries of the buckets `0, …, size - 1`, bucket by bucket. -/
def Table.entries (t : Table κ ν) : List (κ × ν) := (List.range t.size).flatMap t.buckets

@[simp] theorem get_empty (size : Nat) (hash : κ → Nat) (k : κ) :
    (Table.empty size hash : Table κ ν).get k = none := rfl

@[simp] theorem bucket_insert (t : Table κ ν) (k k' : κ) (v : ν) :
    (t.insert k v).bucket k' = t.bucket k' := rfl

omit [DecidableEq κ] in
@[simp] theorem bucket_setChain (t : Table κ ν) (k k' : κ) (c : List (κ × ν)) :
    (t.setChain k c).bucket k' = t.bucket k' := rfl

omit [DecidableEq κ] in
@[simp] theorem size_setChain (t : Table κ ν) (k : κ) (c : List (κ × ν)) :
    (t.setChain k c).size = t.size := rfl

theorem insert_eq_setChain (t : Table κ ν) (k : κ) (v : ν) :
    t.insert k v = t.setChain k (chainInsert (t.buckets (t.bucket k)) k v) := rfl

/-- A lookup after an insertion: the inserted value for its key, the old lookup for the
others. -/
theorem get_insert (t : Table κ ν) (k k' : κ) (v : ν) :
    (t.insert k v).get k' = if k = k' then some v else t.get k' := by
  unfold Table.get
  rw [bucket_insert]
  by_cases hb : t.bucket k' = t.bucket k
  · -- the two keys share a chain
    simp only [Table.insert, hb, Function.update_self]
    rw [chainGet_chainInsert]
  · have hk : k ≠ k' := fun e => hb (e ▸ rfl)
    simp only [Table.insert, Function.update_of_ne hb, if_neg hk]

/-- A lookup after `k`'s chain is replaced: the new chain is searched for the keys of `k`'s
bucket, the old table for the others. -/
theorem get_setChain (t : Table κ ν) (k k' : κ) (c : List (κ × ν)) :
    (t.setChain k c).get k' = if t.bucket k' = t.bucket k then chainGet c k' else t.get k' := by
  unfold Table.get
  rw [bucket_setChain]
  by_cases hb : t.bucket k' = t.bucket k
  · simp only [Table.setChain, hb, Function.update_self, if_true]
  · simp only [Table.setChain, Function.update_of_ne hb, if_neg hb]

theorem get_tryInsert (t : Table κ ν) (k k' : κ) (v : ν) :
    (t.tryInsert k v).get k' = if k = k' then (t.get k).or (some v) else t.get k' := by
  rw [Table.tryInsert, get_setChain]
  by_cases hb : t.bucket k' = t.bucket k
  · rw [if_pos hb, chainGet_chainTryInsert, Table.get, Table.get, hb]
  · have hk : k ≠ k' := fun e => hb (e ▸ rfl)
    rw [if_neg hb, if_neg hk]

/-! ### The invariant -/

/-- The chains hold distinct keys, and each entry sits in its key's bucket. -/
structure Table.Wf (t : Table κ ν) : Prop where
  nodupKeys : ∀ b, NodupKeys (t.buckets b)
  placed : ∀ b, ∀ e ∈ t.buckets b, t.bucket e.1 = b

omit [DecidableEq κ] in
theorem wf_empty (size : Nat) (hash : κ → Nat) : (Table.empty size hash : Table κ ν).Wf where
  nodupKeys _ := List.nodup_nil
  placed _ _ he := absurd he List.not_mem_nil

namespace Table.Wf

variable {t : Table κ ν}

omit [DecidableEq κ] in
/-- Replacing `k`'s chain by one of distinct keys, all of `k`'s bucket, keeps `Wf`. -/
theorem setChain (hw : t.Wf) {k : κ} {c : List (κ × ν)} (hc : NodupKeys c)
    (hp : ∀ e ∈ c, t.bucket e.1 = t.bucket k) : (t.setChain k c).Wf where
  nodupKeys b := by
    by_cases hb : b = t.bucket k
    · subst hb
      simpa [Table.setChain] using hc
    · simpa [Table.setChain, Function.update_of_ne hb] using hw.nodupKeys b
  placed b e he := by
    rw [bucket_setChain]
    by_cases hb : b = t.bucket k
    · subst hb
      simp only [Table.setChain, Function.update_self] at he
      exact hp e he
    · simp only [Table.setChain, Function.update_of_ne hb] at he
      exact hw.placed b e he

theorem insert (hw : t.Wf) (k : κ) (v : ν) : (t.insert k v).Wf := by
  rw [insert_eq_setChain]
  refine hw.setChain (nodupKeys_chainInsert (hw.nodupKeys _) k v) fun e he => ?_
  rcases mem_chainInsert he with rfl | he
  · rfl
  · exact hw.placed _ e he

theorem tryInsert (hw : t.Wf) (k : κ) (v : ν) : (t.tryInsert k v).Wf := by
  refine hw.setChain (nodupKeys_chainTryInsert (hw.nodupKeys _) k v) fun e he => ?_
  rcases mem_chainTryInsert he with rfl | he
  · rfl
  · exact hw.placed _ e he

theorem remove (hw : t.Wf) (k : κ) : (t.remove k).Wf :=
  hw.setChain (nodupKeys_chainRemove (hw.nodupKeys _) k) fun e he =>
    hw.placed _ e ((chainRemove_sublist _ k).subset he)

/-- The entries of the buckets are the graph of the lookup. -/
theorem mem_entries_iff (hw : t.Wf) (hpos : 0 < t.size) (e : κ × ν) :
    e ∈ t.entries ↔ t.get e.1 = some e.2 := by
  rw [Table.entries, List.mem_flatMap]
  constructor
  · rintro ⟨b, -, he⟩
    rw [Table.get, hw.placed b e he]
    exact chainGet_of_mem (hw.nodupKeys b) he
  · intro hget
    -- a key's bucket is below `size`
    have hlt : t.bucket e.1 < t.size := Nat.mod_lt _ hpos
    exact ⟨t.bucket e.1, List.mem_range.mpr hlt, mem_of_chainGet_eq_some hget⟩

omit [DecidableEq κ] in
/-- No key has two entries in the whole table: the chains of two buckets share no key. -/
theorem nodupKeys_entries (hw : t.Wf) : NodupKeys t.entries := by
  rw [NodupKeys, Table.entries, List.map_flatMap, List.nodup_flatMap]
  refine ⟨fun b _ => hw.nodupKeys b, List.nodup_range.pairwise_of_forall_ne ?_⟩
  intro b₁ _ b₂ _ hne
  rw [Function.onFun_apply, List.disjoint_left]
  intro k hk₁ hk₂
  obtain ⟨e₁, he₁, rfl⟩ := List.mem_map.mp hk₁
  obtain ⟨e₂, he₂, hk⟩ := List.mem_map.mp hk₂
  apply hne
  rw [← hw.placed b₁ e₁ he₁, ← hw.placed b₂ e₂ he₂, hk]

end Table.Wf

/-- A lookup after a removal forgets the key. -/
theorem get_remove {t : Table κ ν} (hw : t.Wf) (k k' : κ) :
    (t.remove k).get k' = if k = k' then none else t.get k' := by
  rw [Table.remove, get_setChain]
  by_cases hb : t.bucket k' = t.bucket k
  · rw [if_pos hb, chainGet_chainRemove (hw.nodupKeys _), Table.get, hb]
  · have hk : k ≠ k' := fun e => hb (e ▸ rfl)
    rw [if_neg hb, if_neg hk]

end ChainedHash
