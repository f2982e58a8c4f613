import DioptaseOS.Ext2.InodeCache
import Mathlib.Algebra.Order.Group.Multiset
import Mathlib.Data.Multiset.MapFold

/-!
# ext2: what the inode cache keeps

The references the cache counts are those of the wrappers and lookups that hold one and
those that were lost (`Fs.refs`). `CacheOk` says that the count of each live cached inode is
the number of these references to it, that the hash map holds exactly the live cached inodes
under their inode numbers, and that `dealloc_inode` ran on cached inodes that are gone. It is
stated with the references a function has taken and not yet handed to a wrapper
(`inflight`): `icache_get` returns one, a wrapper takes it, `icache_release` drops one.

`Later` is what a run can do between two of its states: lose references and reclaim inodes,
but never bring a freed cached inode back, change the inode number of one, reclaim an inode
number that a cached inode kept through the run has, or free an inode number without
reclaiming it.

## Main definitions

* `Fs.refs`, `Fs.CacheOk` — the counted references and the invariant
* `Fs.Later` — what a run can do to the cache
* `Fs.Frame` — a change that leaves the cache as it is

## Main results

* `Fs.step_cacheOk`, `Fs.run_cacheOk` — every operation keeps `CacheOk` and is `Later`
* `Fs.cached_of_leaked` — a cached inode with a lost reference is never reclaimed
* `nodeDelete_leaks_reference` — a run in which it happens
-/

namespace DioptaseOS.Ext2

open Function RefCount

namespace Fs

variable {s s' s'' : Fs} {m : Multiset ℕ} {p : ℕ}

/-! ### The invariant -/

/-- The references the cache counts: one for each wrapper or lookup that holds one, and one for
each that was lost. -/
def refs (s : Fs) : Multiset ℕ := ↑(s.nodes.map Node.cached) + ↑s.leaked

/-- The reference counts are right, counting the references in flight: the count of each live
cached inode is the number of references to it; the hash map holds each live cached inode
under its inode number and nothing else; addresses from `next` on are free; and every run of
`dealloc_inode` was on a different cached inode, which is gone. -/
structure CacheOk (s : Fs) (inflight : Multiset ℕ) : Prop where
  counted : Counted CachedInode.refcount s.heap (s.refs + inflight)
  indexed : Indexed CachedInode.inumber s.cache s.heap
  fresh : ∀ p, s.next ≤ p → s.heap p = none
  reclaimed : ∀ r ∈ s.reclaimed, s.heap r.cached = none ∧ r.cached < s.next
  reclaimed_nodup : (s.reclaimed.map Reclaim.cached).Nodup

/-- What a run can do between `s` and `s'`: hand out new addresses, lose references and reclaim
inodes; a cached inode of `s` that is still live in `s'` keeps its inode number, no inode
number such a cached inode has is reclaimed, and an inode number is only freed by a
reclaim. -/
structure Later (s s' : Fs) : Prop where
  fresh : ∀ p, s.next ≤ p → s.heap p = none
  next_le : s.next ≤ s'.next
  leaked : s.leaked <+: s'.leaked
  reclaimed : s.reclaimed <+: s'.reclaimed
  kept : ∀ p c', s'.heap p = some c' → p < s.next →
    ∃ c, s.heap p = some c ∧ c.inumber = c'.inumber
  reclaim_fresh : ∀ r ∈ s'.reclaimed.drop s.reclaimed.length, ∀ p c c',
    s.heap p = some c → s'.heap p = some c' → c.inumber ≠ r.inumber
  used : ∀ i, s.used i = true →
    s'.used i = true ∨ ∃ r ∈ s'.reclaimed.drop s.reclaimed.length, r.inumber = i

/-- `s'` has the cache of `s`: it differs at most in the inode table, the records, bits set in
the bitmap, and what the cached inodes hold beside their numbers and counts. -/
structure Frame (s s' : Fs) : Prop where
  cache : s'.cache = s.cache
  next : s'.next = s.next
  nodes : s'.nodes = s.nodes
  leaked : s'.leaked = s.leaked
  reclaimed : s'.reclaimed = s.reclaimed
  heap : ∀ p, (s'.heap p).map (fun c => (c.inumber, c.refcount)) =
    (s.heap p).map (fun c => (c.inumber, c.refcount))
  used : ∀ i, s.used i = true → s'.used i = true

/-! ### Counted references -/

@[simp] theorem refs_hold (s : Fs) (p : ℕ) (root : Bool) : (s.hold p root).refs = s.refs + {p} := by
  simp only [refs, hold, List.map_append, List.map_cons, List.map_nil, ← Multiset.coe_add]
  rw [add_right_comm]
  rfl

theorem refs_eraseIdx {k : ℕ} {n : Node} (hk : s.nodes[k]? = some n) :
    s.refs = ({ s with nodes := s.nodes.eraseIdx k } : Fs).refs + {n.cached} := by
  obtain ⟨hlt, rfl⟩ := List.getElem?_eq_some_iff.mp hk
  have hmem : s.nodes[k] ∈ (s.nodes : Multiset Node) := Multiset.mem_coe.mpr (List.getElem_mem hlt)
  have herase : ((s.nodes.eraseIdx k : List Node) : Multiset Node) =
      (s.nodes : Multiset Node).erase s.nodes[k] := by
    rw [Multiset.coe_erase]
    exact Multiset.coe_eq_coe.mpr (List.erase_getElem hlt).symm
  simp only [refs, ← Multiset.map_coe, herase, Multiset.map_erase_of_mem _ _ hmem]
  rw [add_right_comm, add_comm _ {_}, Multiset.singleton_add,
    Multiset.cons_erase (Multiset.mem_map_of_mem _ hmem)]

@[simp] theorem refs_lose (s : Fs) : s.lose.refs = s.refs := by
  rcases List.eq_nil_or_concat s.nodes with h | ⟨init, x, h⟩
  · simp [lose, refs, h]
  · simp only [lose, refs, h, List.concat_eq_append, List.dropLast_concat, List.getLast?_concat,
      Option.map_some, Option.toList_some, List.map_append, List.map_cons, List.map_nil,
      ← Multiset.coe_add]
    rw [add_assoc, add_comm (↑s.leaked : Multiset ℕ)]

theorem add_add_singleton (A m : Multiset ℕ) (n : ℕ) : A + (m + {n}) = n ::ₘ (A + m) := by
  rw [← add_assoc, add_comm, Multiset.singleton_add]

theorem drop_length_trans {α : Type} {l₁ l₂ l₃ : List α} (h₁ : l₁ <+: l₂) (h₂ : l₂ <+: l₃) :
    l₃.drop l₁.length = l₂.drop l₁.length ++ l₃.drop l₂.length := by
  obtain ⟨t, rfl⟩ := h₁
  obtain ⟨u, rfl⟩ := h₂
  simp

/-! ### Runs -/

theorem CacheOk.lt_next (hs : CacheOk s m) {c : CachedInode} (hp : s.heap p = some c) :
    p < s.next := by
  by_contra hle
  rw [hs.fresh p (Nat.le_of_not_lt hle)] at hp
  cases hp

theorem Later.refl (hfresh : ∀ p, s.next ≤ p → s.heap p = none) : Later s s where
  fresh := hfresh
  next_le := le_rfl
  leaked := List.prefix_refl _
  reclaimed := List.prefix_refl _
  kept p c hp _ := ⟨c, hp, rfl⟩
  reclaim_fresh r hr := by simp at hr
  used _ hi := Or.inl hi

theorem Later.trans (h₁ : Later s s') (h₂ : Later s' s'') : Later s s'' where
  fresh := h₁.fresh
  next_le := h₁.next_le.trans h₂.next_le
  leaked := h₁.leaked.trans h₂.leaked
  reclaimed := h₁.reclaimed.trans h₂.reclaimed
  kept p c'' hp hlt := by
    obtain ⟨c', hc', he'⟩ := h₂.kept p c'' hp (lt_of_lt_of_le hlt h₁.next_le)
    obtain ⟨c, hc, he⟩ := h₁.kept p c' hc' hlt
    exact ⟨c, hc, he.trans he'⟩
  reclaim_fresh r hr p c c'' hc hc'' := by
    rw [drop_length_trans h₁.reclaimed h₂.reclaimed] at hr
    have hlt : p < s.next := by
      by_contra hle
      rw [h₁.fresh p (Nat.le_of_not_lt hle)] at hc
      cases hc
    -- the cached inode at `p` is live in `s'` too, with the same number
    obtain ⟨c', hc', he'⟩ := h₂.kept p c'' hc'' (lt_of_lt_of_le hlt h₁.next_le)
    obtain ⟨c₀, hc₀, he₀⟩ := h₁.kept p c' hc' hlt
    rw [hc] at hc₀
    cases hc₀
    rcases List.mem_append.mp hr with hr | hr
    · exact h₁.reclaim_fresh r hr p c c' hc hc'
    · rw [he₀]
      exact h₂.reclaim_fresh r hr p c' c'' hc' hc''
  used i hi := by
    rw [drop_length_trans h₁.reclaimed h₂.reclaimed]
    rcases h₁.used i hi with hi' | ⟨r, hr, hri⟩
    · rcases h₂.used i hi' with h | ⟨r, hr, hri⟩
      · exact Or.inl h
      · exact Or.inr ⟨r, List.mem_append_right _ hr, hri⟩
    · exact Or.inr ⟨r, List.mem_append_left _ hr, hri⟩

/-- A change that reclaims nothing is `Later` when it keeps the live cached inodes of `s` apart
from freeing them. -/
theorem later_of_kept (hfresh : ∀ p, s.next ≤ p → s.heap p = none) (hnext : s.next ≤ s'.next)
    (hl : s.leaked <+: s'.leaked) (hr : s'.reclaimed = s.reclaimed)
    (hu : ∀ i, s.used i = true → s'.used i = true)
    (hk : ∀ p c', s'.heap p = some c' → p < s.next → ∃ c, s.heap p = some c ∧ c.inumber = c'.inumber) :
    Later s s' where
  fresh := hfresh
  next_le := hnext
  leaked := hl
  reclaimed := hr ▸ List.prefix_refl _
  kept := hk
  reclaim_fresh r hrm := by simp [hr] at hrm
  used i hi := Or.inl (hu i hi)

/-! ### Frames -/

theorem Frame.refl (s : Fs) : Frame s s := ⟨rfl, rfl, rfl, rfl, rfl, fun _ => rfl, fun _ h => h⟩

theorem Frame.trans (h₁ : Frame s s') (h₂ : Frame s' s'') : Frame s s'' where
  cache := h₂.cache.trans h₁.cache
  next := h₂.next.trans h₁.next
  nodes := h₂.nodes.trans h₁.nodes
  leaked := h₂.leaked.trans h₁.leaked
  reclaimed := h₂.reclaimed.trans h₁.reclaimed
  heap p := (h₂.heap p).trans (h₁.heap p)
  used i hi := h₂.used i (h₁.used i hi)

theorem Frame.refs_eq (h : Frame s s') : s'.refs = s.refs := by
  simp only [refs, h.nodes, h.leaked]

theorem Frame.heap_refcount (h : Frame s s') (p : ℕ) :
    (s'.heap p).map CachedInode.refcount = (s.heap p).map CachedInode.refcount := by
  have := congrArg (Option.map Prod.snd) (h.heap p)
  rw [Option.map_map, Option.map_map] at this
  exact this

theorem Frame.heap_inumber (h : Frame s s') (p : ℕ) :
    (s'.heap p).map CachedInode.inumber = (s.heap p).map CachedInode.inumber := by
  have := congrArg (Option.map Prod.fst) (h.heap p)
  rw [Option.map_map, Option.map_map] at this
  exact this

theorem Frame.heap_none (h : Frame s s') (hp : s.heap p = none) : s'.heap p = none := by
  have := h.heap_inumber p
  rw [hp, Option.map_none, Option.map_eq_none_iff] at this
  exact this

theorem Frame.kept (h : Frame s s') {c' : CachedInode} (hp : s'.heap p = some c') :
    ∃ c, s.heap p = some c ∧ c.inumber = c'.inumber := by
  have := h.heap_inumber p
  rw [hp, Option.map_some] at this
  exact Option.map_eq_some_iff.mp this.symm

theorem Frame.cacheOk (h : Frame s s') (hs : CacheOk s m) : CacheOk s' m where
  counted := h.refs_eq ▸ hs.counted.of_map_eq h.heap_refcount
  indexed := h.cache ▸ hs.indexed.of_map_eq h.heap_inumber
  fresh p hp := h.heap_none (hs.fresh p (h.next ▸ hp))
  reclaimed r hr := by
    rw [h.reclaimed] at hr
    exact ⟨h.heap_none (hs.reclaimed r hr).1, h.next ▸ (hs.reclaimed r hr).2⟩
  reclaimed_nodup := h.reclaimed ▸ hs.reclaimed_nodup

theorem Frame.later (h : Frame s s') (hs : CacheOk s m) : Later s s' :=
  later_of_kept hs.fresh h.next.ge (h.leaked ▸ List.prefix_refl _) h.reclaimed h.used
    fun _ _ hp _ => h.kept hp

theorem frame_mapCached (s : Fs) (p : ℕ) {f : CachedInode → CachedInode}
    (hf : ∀ c, (f c).inumber = c.inumber ∧ (f c).refcount = c.refcount) :
    Frame s (s.mapCached p f) where
  cache := rfl
  next := rfl
  nodes := rfl
  leaked := rfl
  reclaimed := rfl
  heap q := by
    by_cases hqp : q = p
    · subst hqp
      cases hq : s.heap q <;> simp [mapCached, hq, hf]
    · simp [mapCached, update_of_ne hqp]
  used _ hi := hi

theorem frame_nodeSyncInode (s : Fs) (p : ℕ) : Frame s (s.nodeSyncInode p) := by
  unfold nodeSyncInode
  split
  · exact ⟨rfl, rfl, rfl, rfl, rfl, fun _ => rfl, fun _ hi => hi⟩
  · exact Frame.refl s

theorem frame_setRecords (s : Fs) (i : ℕ) (blocks : List (List DirEntry)) :
    Frame s (s.setRecords i blocks) :=
  ⟨rfl, rfl, rfl, rfl, rfl, fun _ => rfl, fun _ hi => hi⟩

theorem allocInumber_frame {i : ℕ} (h : s.allocInumber = .ok (s', i)) : Frame s s' := by
  unfold allocInumber at h
  split at h
  · cases h
    refine ⟨rfl, rfl, rfl, rfl, rfl, fun _ => rfl, fun j hj => ?_⟩
    by_cases hji : j = i
    · subst hji
      simp
    · simpa [update_of_ne hji] using hj
  · cases h

/-! ### Writes to the cache -/

section Writes

variable {c w : CachedInode} {m' : Multiset ℕ}

/-- The live cached inode at `p` is written with its number kept, and its count is right
afterwards. -/
theorem CacheOk.write (hs : CacheOk s m) (hp : s.heap p = some c) (hk : w.inumber = c.inumber)
    (hc : Counted CachedInode.refcount (update s.heap p (some w)) (s.refs + m')) :
    CacheOk { s with heap := update s.heap p (some w) } m' where
  counted := hc
  indexed := hs.indexed.modify hp hk
  fresh q hq := by
    have hqp : q ≠ p := by
      rintro rfl
      rw [hs.fresh q hq] at hp
      cases hp
    show update s.heap p _ q = none
    rw [update_of_ne hqp]
    exact hs.fresh q hq
  reclaimed r hr := by
    have hrp : r.cached ≠ p := by
      intro e
      rw [← e, (hs.reclaimed r hr).1] at hp
      cases hp
    exact ⟨by show update s.heap p _ r.cached = none; rw [update_of_ne hrp]; exact (hs.reclaimed r hr).1,
      (hs.reclaimed r hr).2⟩
  reclaimed_nodup := hs.reclaimed_nodup

theorem later_write (hs : CacheOk s m) (hp : s.heap p = some c) (hk : w.inumber = c.inumber) :
    Later s { s with heap := update s.heap p (some w) } := by
  refine later_of_kept hs.fresh le_rfl (List.prefix_refl _) rfl (fun _ hi => hi) ?_
  intro q d hq _
  change update s.heap p _ q = some d at hq
  by_cases hqp : q = p
  · subst hqp
    simp only [update_self, Option.some.injEq] at hq
    exact ⟨c, hp, hq ▸ hk.symm⟩
  · rw [update_of_ne hqp] at hq
    exact ⟨d, hq, rfl⟩

/-- A new cached inode with one reference, published at the next address under a number the
map does not have. -/
theorem CacheOk.publish (hs : CacheOk s m) (hi : s.cache c.inumber = none) (hc : c.refcount = 1) :
    CacheOk { s with
      cache := update s.cache c.inumber (some s.next)
      heap := update s.heap s.next (some c)
      next := s.next + 1 } (m + {s.next}) where
  counted := (hs.counted.publish (hs.fresh _ le_rfl) hc).congr (add_add_singleton _ _ _)
  indexed := hs.indexed.insert hi (hs.fresh _ le_rfl)
  fresh q hq := by
    show update s.heap s.next _ q = none
    rw [update_of_ne (by change s.next + 1 ≤ q at hq; omega)]
    exact hs.fresh q (by change s.next + 1 ≤ q at hq; omega)
  reclaimed r hr := by
    have hlt := (hs.reclaimed r hr).2
    refine ⟨?_, by show r.cached < s.next + 1; omega⟩
    show update s.heap s.next _ r.cached = none
    rw [update_of_ne (by omega)]
    exact (hs.reclaimed r hr).1
  reclaimed_nodup := hs.reclaimed_nodup

theorem later_publish (hs : CacheOk s m) :
    Later s { s with
      cache := update s.cache c.inumber (some s.next)
      heap := update s.heap s.next (some c)
      next := s.next + 1 } := by
  refine later_of_kept hs.fresh (Nat.le_succ _) (List.prefix_refl _) rfl (fun _ hi => hi) ?_
  intro q d hq hlt
  change update s.heap s.next _ q = some d at hq
  rw [update_of_ne (by omega)] at hq
  exact ⟨d, hq, rfl⟩

/-- A wrapper takes a reference in flight. -/
theorem CacheOk.hold (hs : CacheOk s (m + {p})) (root : Bool) : CacheOk (s.hold p root) m :=
  { hs with counted := hs.counted.congr (by rw [refs_hold, add_right_comm, add_assoc]) }

/-- A change of the wrappers alone. -/
theorem later_setNodes (hs : CacheOk s m) (nodes : List Node) : Later s { s with nodes := nodes } :=
  later_of_kept hs.fresh le_rfl (List.prefix_refl _) rfl (fun _ hi => hi) fun _ c hp _ => ⟨c, hp, rfl⟩

theorem CacheOk.lose (hs : CacheOk s m) : CacheOk s.lose m :=
  { hs with counted := hs.counted.congr (by rw [refs_lose]) }

theorem later_lose (hs : CacheOk s m) : Later s s.lose :=
  later_of_kept hs.fresh le_rfl (List.prefix_append _ _) rfl (fun _ hi => hi)
    fun _ c hp _ => ⟨c, hp, rfl⟩

end Writes

/-! ### `icache_get`, `icache_insert` and `icache_release` -/

/-- `icache_get` hands out a reference in flight. -/
theorem CacheOk.icacheGet (hs : CacheOk s m) (i : ℕ) :
    CacheOk (s.icacheGet i).1 (m + {(s.icacheGet i).2}) ∧ Later s (s.icacheGet i).1 := by
  unfold Fs.icacheGet
  cases hc : s.cache i with
  | some p =>
    -- a hit: the map points at a live cached inode with the number
    obtain ⟨c, hp, rfl⟩ := (hs.indexed.index_iff _ p).mp hc
    simp only [hp]
    exact ⟨hs.write hp rfl ((hs.counted.acquire hp rfl).congr (add_add_singleton _ _ _)),
      later_write hs hp rfl⟩
  | none => exact ⟨hs.publish (c := ⟨i, 1, false, s.table i⟩) hc rfl,
    later_publish (c := ⟨i, 1, false, s.table i⟩) hs⟩

theorem CacheOk.icacheInsert (hs : CacheOk s m) {c : CachedInode} (hc : c.refcount = 1)
    (h : s.icacheInsert c = .ok (s', p)) : CacheOk s' (m + {p}) ∧ Later s s' := by
  unfold Fs.icacheInsert at h
  split at h
  · cases h
  · rename_i hnone
    cases h
    exact ⟨hs.publish (Option.not_isSome_iff_eq_none.mp hnone) hc, later_publish hs⟩

theorem deallocInode_eq_ok {c : CachedInode} (h : s.deallocInode p c = .ok s') :
    c.deletePending = true ∧ c.inode.linksCount = 0 ∧ ∃ blocks : List ℕ,
      s' = { s with
        used := update s.used c.inumber false
        reclaimed := s.reclaimed ++ [⟨p, c.inumber, blocks⟩] } := by
  unfold deallocInode at h
  split at h
  · cases h
  · split at h
    · cases h
    · rename_i hpend hlinks
      obtain ⟨r, -, rfl⟩ := except_map_eq_ok h
      exact ⟨by simpa using hpend, by simpa using hlinks, r.1, rfl⟩

/-- What `icache_release` can do to the cached inode `c` at `p`: drop one of several references,
or with the last one take `c` out of the map and the heap, reclaiming it if it is
delete-pending. -/
theorem icacheRelease_eq_ok (h : s.icacheRelease p = .ok s') :
    s.heap p = none ∧ s' = s ∨ ∃ c, s.heap p = some c ∧
      (1 < c.refcount ∧
          s' = { s with heap := update s.heap p (some { c with refcount := c.refcount - 1 }) } ∨
        c.refcount = 1 ∧ c.deletePending = false ∧
          s' = { s with cache := update s.cache c.inumber none, heap := update s.heap p none } ∨
        c.refcount = 1 ∧ c.deletePending = true ∧ c.inode.linksCount = 0 ∧ ∃ blocks : List ℕ,
          s' = { s with
            cache := update s.cache c.inumber none
            heap := update s.heap p none
            used := update s.used c.inumber false
            reclaimed := s.reclaimed ++ [⟨p, c.inumber, blocks⟩] }) := by
  unfold icacheRelease at h
  cases hp : s.heap p with
  | none =>
    rw [hp] at h
    cases h
    exact Or.inl ⟨rfl, rfl⟩
  | some c =>
    rw [hp] at h
    dsimp only at h
    refine Or.inr ⟨c, rfl, ?_⟩
    split at h
    · cases h
    · rename_i h0
      split at h
      · rename_i h1
        have hone : c.refcount = 1 := by omega
        obtain ⟨s₁, hs₁, rfl⟩ := except_map_eq_ok h
        cases hpend : c.deletePending
        · rw [hpend] at hs₁
          cases hs₁
          exact Or.inr (Or.inl ⟨hone, rfl, rfl⟩)
        · rw [hpend] at hs₁
          obtain ⟨-, hlinks, blocks, rfl⟩ := deallocInode_eq_ok hs₁
          exact Or.inr (Or.inr ⟨hone, rfl, hlinks, blocks, rfl⟩)
      · cases h
        exact Or.inl ⟨by omega, rfl⟩

/-- The last reference on the cached inode at `p` is dropped: it leaves the map and the heap. -/
theorem CacheOk.release_last {c : CachedInode} (hs : CacheOk s (m + {p})) (hp : s.heap p = some c)
    (h1 : c.refcount = 1) :
    CacheOk { s with cache := update s.cache c.inumber none, heap := update s.heap p none } m where
  counted := ((hs.counted.congr (add_add_singleton _ _ _).symm).drop_last hp h1).congr
    (Multiset.erase_cons_head _ _).symm
  indexed := hs.indexed.erase hp
  fresh q hq := by
    show update s.heap p none q = none
    by_cases hqp : q = p
    · rw [hqp, update_self]
    · rw [update_of_ne hqp]
      exact hs.fresh q hq
  reclaimed r hr := by
    refine ⟨?_, (hs.reclaimed r hr).2⟩
    show update s.heap p none r.cached = none
    by_cases hrp : r.cached = p
    · rw [hrp, update_self]
    · rw [update_of_ne hrp]
      exact (hs.reclaimed r hr).1
  reclaimed_nodup := hs.reclaimed_nodup

/-- A reclaim of the freed cached inode at `p`, which no earlier reclaim was of. -/
theorem CacheOk.reclaim (hs : CacheOk s m) (hp : s.heap p = none) (hlt : p < s.next)
    (hnot : p ∉ s.reclaimed.map Reclaim.cached) (used : ℕ → Bool) (i : ℕ) (blocks : List ℕ) :
    CacheOk { s with used := used, reclaimed := s.reclaimed ++ [⟨p, i, blocks⟩] } m :=
  { hs with
    reclaimed := by
      intro r hr
      rcases List.mem_append.mp hr with hr | hr
      · exact hs.reclaimed r hr
      · rw [List.mem_singleton.mp hr]
        exact ⟨hp, hlt⟩
    reclaimed_nodup := by
      simp only [List.map_append, List.map_cons, List.map_nil]
      refine List.nodup_append.mpr ⟨hs.reclaimed_nodup, List.nodup_singleton _, ?_⟩
      intro a ha b hb
      rw [List.mem_singleton] at hb
      rintro rfl
      exact hnot (hb ▸ ha) }

theorem not_mem_reclaimed_of_live (hs : CacheOk s m) {c : CachedInode} (hp : s.heap p = some c) :
    p ∉ s.reclaimed.map Reclaim.cached := by
  intro hmem
  obtain ⟨r, hr, rfl⟩ := List.mem_map.mp hmem
  rw [(hs.reclaimed r hr).1] at hp
  cases hp

theorem later_release_last {c : CachedInode} (hs : CacheOk s m) :
    Later s { s with cache := update s.cache c.inumber none, heap := update s.heap p none } := by
  refine later_of_kept hs.fresh le_rfl (List.prefix_refl _) rfl (fun _ hi => hi) ?_
  intro q d hq _
  change update s.heap p none q = some d at hq
  have hqp : q ≠ p := by
    rintro rfl
    simp at hq
  rw [update_of_ne hqp] at hq
  exact ⟨d, hq, rfl⟩

/-- A reclaim is of an inode number that no other cached inode has. -/
theorem later_reclaim {c : CachedInode} (hs : CacheOk s m) (hp : s.heap p = some c)
    (blocks : List ℕ) :
    Later s { s with
      cache := update s.cache c.inumber none
      heap := update s.heap p none
      used := update s.used c.inumber false
      reclaimed := s.reclaimed ++ [⟨p, c.inumber, blocks⟩] } where
  fresh := hs.fresh
  next_le := le_rfl
  leaked := List.prefix_refl _
  reclaimed := List.prefix_append _ _
  kept q d hq _ := (later_release_last (c := c) (p := p) hs).kept q d hq ‹_›
  reclaim_fresh r hr q d d' hq hq' := by
    simp only [List.drop_left, List.mem_singleton] at hr
    subst hr
    change update s.heap p none q = some d' at hq'
    have hqp : q ≠ p := by
      rintro rfl
      simp at hq'
    exact fun e => hqp (hs.indexed.unique hq hp e)
  used i hi := by
    by_cases hic : i = c.inumber
    · exact Or.inr ⟨⟨p, c.inumber, blocks⟩, by simp, hic.symm⟩
    · left
      change update s.used c.inumber false i = true
      rw [update_of_ne hic]
      exact hi

theorem CacheOk.icacheRelease (hs : CacheOk s (m + {p})) (h : s.icacheRelease p = .ok s') :
    CacheOk s' m ∧ Later s s' := by
  rcases icacheRelease_eq_ok h with ⟨hp, -⟩ | ⟨c, hp, hcase⟩
  · -- the released reference points to a live cached inode
    obtain ⟨a, ha⟩ := hs.counted.live p (by simp)
    rw [hp] at ha
    cases ha
  have hcounted := hs.counted.congr (add_add_singleton _ _ _).symm
  rcases hcase with ⟨hgt, rfl⟩ | ⟨h1, -, rfl⟩ | ⟨h1, -, -, blocks, rfl⟩
  · refine ⟨hs.write hp rfl ((hcounted.drop hp ?_ ?_).congr (Multiset.erase_cons_head _ _).symm),
      later_write hs hp rfl⟩
    · show c.refcount - 1 + 1 = c.refcount
      omega
    · show 0 < c.refcount - 1
      omega
  · exact ⟨hs.release_last hp h1, later_release_last hs⟩
  · exact ⟨(hs.release_last hp h1).reclaim (by simp) (hs.lt_next hp)
      (show p ∉ s.reclaimed.map Reclaim.cached from not_mem_reclaimed_of_live hs hp) _ _ _,
      later_reclaim hs hp blocks⟩

/-! ### Wrappers -/

theorem wrapper_eq_some {k : ℕ} {n : Node} {c : CachedInode} :
    s.wrapper k = some (n, c) ↔ s.nodes[k]? = some n ∧ s.heap n.cached = some c := by
  unfold Fs.wrapper
  constructor
  · intro h
    obtain ⟨n', hn', h'⟩ := Option.bind_eq_some_iff.mp h
    obtain ⟨c', hc', he⟩ := Option.map_eq_some_iff.mp h'
    cases he
    exact ⟨hn', hc'⟩
  · rintro ⟨hn, hc⟩
    rw [hn]
    simp [hc]

theorem CacheOk.nodeDestroy (hs : CacheOk s m) {k : ℕ} (h : s.nodeDestroy k = .ok s') :
    CacheOk s' m ∧ Later s s' := by
  unfold Fs.nodeDestroy at h
  cases hk : s.nodes[k]? with
  | none =>
    rw [hk] at h
    cases h
    exact ⟨hs, Later.refl hs.fresh⟩
  | some n =>
    rw [hk] at h
    -- the wrapper's reference goes in flight, and is released
    have hs' : CacheOk { s with nodes := s.nodes.eraseIdx k } (m + {n.cached}) :=
      { hs with
        counted := hs.counted.congr (by rw [refs_eraseIdx hk, add_assoc, add_comm {n.cached} m]) }
    obtain ⟨hok, hlater⟩ := hs'.icacheRelease h
    exact ⟨hok, (later_setNodes hs _).trans hlater⟩

theorem CacheOk.nodeFree (hs : CacheOk s m) {k : ℕ} (h : s.nodeFree k = .ok s') :
    CacheOk s' m ∧ Later s s' := by
  unfold Fs.nodeFree at h
  split at h
  · cases h
    exact ⟨hs, Later.refl hs.fresh⟩
  · split at h
    · cases h
      exact ⟨hs, Later.refl hs.fresh⟩
    · exact hs.nodeDestroy h

theorem CacheOk.nodeClone (hs : CacheOk s m) (k : ℕ) :
    CacheOk (s.nodeClone k) m ∧ Later s (s.nodeClone k) := by
  unfold Fs.nodeClone
  split
  · exact ⟨hs, Later.refl hs.fresh⟩
  · rename_i n c hw
    have hp := (wrapper_eq_some.mp hw).2
    -- one more reference in flight, which the copy holds
    have hs' := hs.write (w := { c with refcount := c.refcount + 1 }) hp rfl
      ((hs.counted.acquire hp rfl).congr (add_add_singleton _ _ _))
    exact ⟨hs'.hold false,
      (later_write (w := { c with refcount := c.refcount + 1 }) hs hp rfl).trans
        (later_setNodes hs' _)⟩

/-! ### The operations -/

theorem CacheOk.ext2Init (hs : CacheOk s 0) (h : s.ext2Init = .ok s') :
    CacheOk s' 0 ∧ Later s s' := by
  unfold Fs.ext2Init at h
  obtain ⟨hg, hl⟩ := hs.icacheGet ext2RootIno
  rcases hgp : s.icacheGet ext2RootIno with ⟨s₁, p⟩
  rw [hgp] at h hg hl
  dsimp only at h hg hl
  -- the reference `icache_get` hands out points to a live cached inode
  obtain ⟨c, hc⟩ := hg.counted.live p (by simp)
  rw [hc] at h
  dsimp only at h
  split at h
  · cases h
    exact ⟨hg.hold true, hl.trans (later_setNodes hg _)⟩
  · cases h

theorem CacheOk.dirFindEntryLocked (hs : CacheOk s m) {d : CachedInode} {name : String}
    {r : Option Fs} (h : s.dirFindEntryLocked d name = .ok r) :
    ∀ s', r = some s' → CacheOk s' m ∧ Later s s' := by
  unfold Fs.dirFindEntryLocked at h
  split at h
  · cases h
  · obtain ⟨found, -, rfl⟩ := except_map_eq_ok h
    intro s' hr
    cases found with
    | none => cases hr
    | some i =>
      obtain ⟨hg, hl⟩ := hs.icacheGet i
      rcases hgp : s.icacheGet i with ⟨s₁, p⟩
      rw [hgp] at hg hl
      simp only [Option.map_some, hgp, Option.some.injEq] at hr
      subst hr
      exact ⟨hg.hold false, hl.trans (later_setNodes hg _)⟩

theorem unlinkCounts_frame {pd pn : ℕ} {isDir : Bool} (h : s.unlinkCounts pd pn isDir = .ok s') :
    Frame s s' := by
  unfold Fs.unlinkCounts at h
  obtain ⟨s₁, h₁, rfl⟩ := except_map_eq_ok h
  have hf₁ : Frame s s₁ := by
    split at h₁
    · dsimp only at h₁
      split at h₁
      · cases h₁
      · cases h₁
        exact ((frame_mapCached _ _ (by intro _; exact ⟨rfl, rfl⟩)).trans (frame_nodeSyncInode _ _)).trans
          (frame_mapCached _ _ (by intro _; exact ⟨rfl, rfl⟩))
    · split at h₁
      · cases h₁
      · cases h₁
        exact frame_mapCached _ _ (by intro _; exact ⟨rfl, rfl⟩)
  refine hf₁.trans (Frame.trans ?_ (frame_nodeSyncInode _ _))
  split
  · exact frame_mapCached _ _ (by intro _; exact ⟨rfl, rfl⟩)
  · exact Frame.refl _

theorem CacheOk.allocInode (hs : CacheOk s m) {k : ℕ} {name : String} {mode : ℕ}
    {r : Option ℕ} (h : s.allocInode k name mode = .ok (s', r)) : CacheOk s' m ∧ Later s s' := by
  unfold Fs.allocInode at h
  split at h
  · cases h
    exact ⟨hs, Later.refl hs.fresh⟩
  rename_i dn d _
  obtain ⟨_, -, h⟩ := except_bind_eq_ok h
  split at h
  · cases h
    exact ⟨hs, Later.refl hs.fresh⟩
  obtain ⟨has, -, h⟩ := except_bind_eq_ok h
  split at h
  · cases h
    exact ⟨hs, Later.refl hs.fresh⟩
  obtain ⟨⟨s₁, i⟩, h₁, h⟩ := except_bind_eq_ok h
  obtain ⟨⟨s₂, p⟩, h₂, h⟩ := except_bind_eq_ok h
  obtain ⟨d', -, h⟩ := except_map_eq_ok h
  simp only [Prod.mk.injEq] at h
  obtain ⟨hs', -⟩ := h
  -- `alloc_inumber` only sets a bit; `icache_insert` publishes the new cached inode, whose
  -- reference the new wrapper takes; the rest writes records and inodes
  have hf₁ := allocInumber_frame h₁
  obtain ⟨hc₂, hl₂⟩ := (hf₁.cacheOk hs).icacheInsert rfl h₂
  have hc₃ := hc₂.hold false
  have hf : Frame (s₂.hold p false) s' := by
    rw [← hs']
    refine Frame.trans ?_ (frame_nodeSyncInode _ p)
    split
    · exact ((frame_setRecords _ _ _).trans (frame_setRecords _ _ _)).trans
        ((frame_mapCached _ _ (by intro _; exact ⟨rfl, rfl⟩)).trans (frame_nodeSyncInode _ _))
    · exact (frame_setRecords _ _ _).trans (frame_setRecords _ _ _)
  exact ⟨hf.cacheOk hc₃,
    (((hf₁.later hs).trans hl₂).trans (later_setNodes hc₂ _)).trans (hf.later hc₃)⟩

theorem CacheOk.deleteFound (hs : CacheOk s m) {pd : ℕ} {d : CachedInode} {name : String}
    {b : Bool} (h : s.deleteFound pd d name = .ok (s', b)) : CacheOk s' m ∧ Later s s' := by
  unfold Fs.deleteFound at h
  split at h
  · cases h
    exact ⟨hs, Later.refl hs.fresh⟩
  obtain ⟨empty, -, h⟩ := except_bind_eq_ok h
  split at h
  · -- a directory that is not empty: the wrapper is lost with its reference
    cases h
    exact ⟨hs.lose, later_lose hs⟩
  obtain ⟨removed, -, h⟩ := except_bind_eq_ok h
  split at h
  · cases h
    exact ⟨hs.lose, later_lose hs⟩
  obtain ⟨s₁, h₁, h⟩ := except_bind_eq_ok h
  obtain ⟨s₂, h₂, h⟩ := except_map_eq_ok h
  cases h
  have hf := (frame_setRecords _ _ _).trans (unlinkCounts_frame h₁)
  obtain ⟨hc, hl⟩ := (hf.cacheOk hs).nodeFree h₂
  exact ⟨hc, (hf.later hs).trans hl⟩

theorem CacheOk.nodeDelete (hs : CacheOk s m) {k : ℕ} {name : String} {b : Bool}
    (h : s.nodeDelete k name = .ok (s', b)) : CacheOk s' m ∧ Later s s' := by
  unfold Fs.nodeDelete at h
  split at h
  · cases h
    exact ⟨hs, Later.refl hs.fresh⟩
  split at h
  · cases h
  split at h
  · cases h
    exact ⟨hs, Later.refl hs.fresh⟩
  split at h
  · cases h
    exact ⟨hs, Later.refl hs.fresh⟩
  obtain ⟨found, hfound, h⟩ := except_bind_eq_ok h
  split at h
  · cases h
    exact ⟨hs, Later.refl hs.fresh⟩
  rename_i s₁
  obtain ⟨hc₁, hl₁⟩ := hs.dirFindEntryLocked hfound s₁ rfl
  obtain ⟨hc₂, hl₂⟩ := hc₁.deleteFound h
  exact ⟨hc₂, hl₁.trans hl₂⟩

/-- Every operation keeps the counts right and the map an index of the live cached inodes. -/
theorem step_cacheOk (hs : CacheOk s 0) {op : IcacheOp} (h : s.step op = .ok s') :
    CacheOk s' 0 ∧ Later s s' := by
  cases op with
  | mount => exact hs.ext2Init h
  | get i =>
    obtain ⟨hg, hl⟩ := hs.icacheGet i
    rcases hgp : s.icacheGet i with ⟨s₁, p⟩
    simp only [Fs.step, hgp, Except.ok.injEq] at h
    rw [hgp] at hg hl
    subst h
    exact ⟨hg.hold false, hl.trans (later_setNodes hg _)⟩
  | find k name =>
    simp only [Fs.step] at h
    split at h
    · cases h
      exact ⟨hs, Later.refl hs.fresh⟩
    · obtain ⟨r, hr, rfl⟩ := except_map_eq_ok h
      cases r with
      | none => exact ⟨hs, Later.refl hs.fresh⟩
      | some s₁ => exact hs.dirFindEntryLocked hr s₁ rfl
  | create k name mode =>
    obtain ⟨⟨s₁, r⟩, h₁, rfl⟩ := except_map_eq_ok h
    exact hs.allocInode h₁
  | clone k =>
    cases h
    exact hs.nodeClone k
  | free k => exact hs.nodeFree h
  | destroy k => exact hs.nodeDestroy h
  | delete k name =>
    obtain ⟨⟨s₁, b⟩, h₁, rfl⟩ := except_map_eq_ok h
    exact hs.nodeDelete h₁

theorem run_cacheOk : ∀ {ops : List IcacheOp} {s s' : Fs}, CacheOk s 0 → s.run ops = .ok s' →
    CacheOk s' 0 ∧ Later s s'
  | [], s, _, hs, h => by
    cases h
    exact ⟨hs, Later.refl hs.fresh⟩
  | _ :: _, _, _, hs, h => by
    obtain ⟨s₁, h₁, h⟩ := except_bind_eq_ok h
    obtain ⟨hc₁, hl₁⟩ := step_cacheOk hs h₁
    obtain ⟨hc, hl⟩ := run_cacheOk hc₁ h
    exact ⟨hc, hl₁.trans hl⟩

/-- An empty cache: no cached inodes, wrappers, lost references or reclaims. -/
theorem cacheOk_empty (hc : ∀ i, s.cache i = none) (hh : ∀ p, s.heap p = none)
    (hn : s.nodes = []) (hl : s.leaked = []) (hr : s.reclaimed = []) : CacheOk s 0 where
  counted :=
    ⟨fun p _ hp => absurd hp (by simp [hh]), fun p _ hp => absurd hp (by simp [hh]),
      fun p hp => by simp [refs, hn, hl] at hp⟩
  indexed := ⟨fun k p => by simp [hc, hh]⟩
  fresh p _ := hh p
  reclaimed r hmem := by simp [hr] at hmem
  reclaimed_nodup := by simp [hr]

/-- A cached inode with a lost reference stays cached under its number in every run that
follows, no run reclaims its inode number, and the number stays in use. -/
theorem cached_of_leaked {ops : List IcacheOp} (hs : CacheOk s 0) {c : CachedInode}
    (hleak : p ∈ s.leaked) (hc : s.heap p = some c) (h : s.run ops = .ok s') :
    (∃ c', s'.heap p = some c' ∧ c'.inumber = c.inumber) ∧
      (∀ r ∈ s'.reclaimed, r ∈ s.reclaimed ∨ r.inumber ≠ c.inumber) ∧
      (s.used c.inumber = true → s'.used c.inumber = true) := by
  obtain ⟨hs', hl⟩ := run_cacheOk hs h
  -- the lost reference is still counted, so the cached inode is still live
  obtain ⟨c', hc'⟩ := hs'.counted.live p (by simp [refs, hl.leaked.subset hleak])
  obtain ⟨c₀, hc₀, he⟩ := hl.kept p c' hc' (hs.lt_next hc)
  rw [hc] at hc₀
  cases hc₀
  have hnew : ∀ r ∈ s'.reclaimed.drop s.reclaimed.length, r.inumber ≠ c.inumber :=
    fun r hr => (hl.reclaim_fresh r hr p c c' hc hc').symm
  refine ⟨⟨c', hc', he.symm⟩, ?_, ?_⟩
  · intro r hr
    obtain ⟨t, ht⟩ := hl.reclaimed
    rw [← ht] at hr
    rcases List.mem_append.mp hr with hr | hr
    · exact Or.inl hr
    · exact Or.inr (hnew r (by rw [← ht]; simpa using hr))
  · intro hu
    rcases hl.used _ hu with h' | ⟨r, hr, hri⟩
    · exact h'
    · exact absurd hri (hnew r hr)

end Fs

/-! ### A delete that loses its reference -/

/-- A file system of 16 inodes with the root directory, inode 2, empty and inodes 1 and 2 in
use; cached inodes go from address 100 on. -/
def leakFs : Fs where
  blockSize := 1024
  inodesCount := 16
  store := fun _ => []
  table := fun i =>
    if i = ext2RootIno then ⟨ext2DefaultDirMode, 0, 2, 0, fun _ => 0⟩ else ⟨0, 0, 0, 0, fun _ => 0⟩
  records := fun _ => []
  used := fun i => decide (i ≤ 2)
  cache := fun _ => none
  heap := fun _ => none
  next := 100
  nodes := []
  leaked := []
  reclaimed := []

/-- Mount; make the directory `a` (inode 3) with the file `b` (inode 4) in it and close both;
delete `a`, which is not empty; open `a`, delete `b` and close `a`; delete `a`. -/
def leakOps : List IcacheOp :=
  [.mount, .create 0 "a" ext2DefaultDirMode, .create 1 "b" ext2DefaultFileMode, .free 2, .free 1,
    .delete 0 "a", .find 0 "a", .delete 1 "b", .free 1, .delete 0 "a"]

/-- After `leakOps` the directory `a` is unlinked and delete-pending, and its cached inode has
one reference that no wrapper holds: the one the failed delete took. No run from there
reclaims it: the cached inode stays, inode number 3 stays in use, and `dealloc_inode` never
runs on it. -/
theorem nodeDelete_leaks_reference :
    ∃ s, leakFs.run leakOps = .ok s ∧
      (s.heap 103).map (fun c => (c.inumber, c.refcount, c.deletePending, c.inode.linksCount)) =
        some (3, 1, true, 0) ∧
      103 ∉ s.nodes.map Node.cached ∧ s.used 3 = true ∧
      ∀ ops s', s.run ops = .ok s' →
        (s'.heap 103).isSome ∧ s'.used 3 = true ∧ ∀ r ∈ s'.reclaimed, r.inumber ≠ 3 := by
  set s := (leakFs.run leakOps).toOption.getD leakFs
  have hrun : leakFs.run leakOps = .ok s := rfl
  have hobs : (s.heap 103).map (fun c => (c.inumber, c.refcount, c.deletePending,
      c.inode.linksCount)) = some (3, 1, true, 0) := by decide
  refine ⟨s, hrun, hobs, by decide, rfl, ?_⟩
  intro ops s' h
  obtain ⟨c, hc, hce⟩ := Option.map_eq_some_iff.mp hobs
  have hci : c.inumber = 3 := congrArg Prod.fst hce
  have hs := (Fs.run_cacheOk (Fs.cacheOk_empty (fun _ => rfl) (fun _ => rfl) rfl rfl rfl) hrun).1
  obtain ⟨⟨c', hc', -⟩, hrec, hused⟩ := Fs.cached_of_leaked hs (by decide) hc h
  rw [hci] at hrec hused
  refine ⟨by simp [hc'], hused rfl, fun r hr => ?_⟩
  rcases hrec r hr with hold | hne
  · exact (by decide : ∀ r ∈ s.reclaimed, r.inumber ≠ 3) r hold
  · exact hne

end DioptaseOS.Ext2
