import DioptaseOS.Ext2.BlockCache
import DioptaseOS.Lib.Recency

/-!
# ext2: the ages of the block cache

`bcache_init` gives line `i` the age `i`, and every call of `bcache_get` and `bcache_set`
touches one line: the line of a hit, or on a miss the line whose age reaches `BCACHE_SIZE`.
Run one at a time from `bcache_init`, the calls keep the ages the ranks of the lines in a
recency list, most recent first (`AgesRank`): the aging loop of a hit and that of a miss both
move the used line to the front of the list (`AgesRank.touch`, `installBlock_ages_eq`). So the
ages stay a permutation, a miss finds exactly one line to evict, the last of the list, and that
line is the one touched least recently.

## Main definitions

* `BlockCache.usedLine` — the line a call touches
* `AgesRank` — the ages are the ranks of the lines in a list of all of them
* `LruReachable` — the caches reached from `bcache_init` by calls, with the lines they used

## Main results

* `victim_eq_getLast` — the victim of a miss is the last line of the list
* `AgesRank.step` — a call moves the line it uses to the front of the list
* `LruReachable.agesRank` — the ages of a reached cache are the ranks of its history's
  recency list
* `bcache_ages_lru` — the ages are a permutation, the victim is unique and least recently
  touched, and a call makes its line the youngest and keeps the order of the others
-/

namespace DioptaseOS.Ext2

open Recency

/-- The line a call uses: the last line tagged with the block, or the victim of a miss. -/
def BlockCache.usedLine (c : BlockCache) (blockNum : Nat) : Fin bcacheSize :=
  (bcacheLookup c blockNum).getD (victim c.ages)

/-- The block a call reads or writes. -/
def CacheOp.blockNum : CacheOp → Nat
  | .get b => b
  | .set b _ _ _ => b

/-- The ages are the ranks of the lines in `order`, which holds every line once. -/
structure AgesRank (ages : Fin bcacheSize → Nat) (order : List (Fin bcacheSize)) : Prop where
  perm : order.Perm (List.finRange bcacheSize)
  ages_eq : ∀ i, ages i = order.idxOf i

@[simp] theorem ages_touch (c : BlockCache) (r : Fin bcacheSize) :
    (c.touch r).ages =
      Function.update (fun i => if c.ages i < c.ages r then c.ages i + 1 else c.ages i) r 0 :=
  rfl

@[simp] theorem ages_installBlock (c : BlockCache) (b : Nat) (data : List UInt8) :
    (c.installBlock b data).ages = Function.update (fun i => c.ages i + 1) (victim c.ages) 0 :=
  rfl

theorem idxOf_finRange {n : Nat} (i : Fin n) : (List.finRange n).idxOf i = i := by
  simp

/-! ### The victim of a miss -/

section Pick

variable {α : Type*} {p : α → Prop} [DecidablePred p]

/-- The aging loop of a miss keeps its start when no element passes. -/
theorem foldl_pick_of_forall_not {l : List α} (hl : ∀ i ∈ l, ¬p i) (init : α) :
    l.foldl (fun r i => if p i then i else r) init = init := by
  induction l generalizing init with
  | nil => rfl
  | cons a l ih =>
    rw [List.foldl_cons, if_neg (hl a List.mem_cons_self)]
    exact ih (fun i hi => hl i (List.mem_cons_of_mem _ hi)) init

/-- The aging loop of a miss finds the one element that passes. -/
theorem foldl_pick_eq {l : List α} {v : α} (hv : v ∈ l) (hp : ∀ i ∈ l, p i ↔ i = v)
    (init : α) : l.foldl (fun r i => if p i then i else r) init = v := by
  induction l generalizing init with
  | nil => simp at hv
  | cons a l ih =>
    rw [List.foldl_cons]
    by_cases hvl : v ∈ l
    · exact ih hvl (fun i hi => hp i (List.mem_cons_of_mem _ hi)) _
    · -- `v` is the head, and nothing after it passes
      have hav : a = v := ((List.mem_cons.mp hv).resolve_right hvl).symm
      have hrest : ∀ i ∈ l, ¬p i := fun i hi hpi =>
        hvl ((hp i (List.mem_cons_of_mem _ hi)).mp hpi ▸ hi)
      rw [foldl_pick_of_forall_not hrest, if_pos ((hp a List.mem_cons_self).mpr hav), hav]

end Pick

namespace AgesRank

variable {ages : Fin bcacheSize → Nat} {order : List (Fin bcacheSize)}

theorem nodup (h : AgesRank ages order) : order.Nodup :=
  h.perm.nodup_iff.mpr (List.nodup_finRange _)

theorem length_eq (h : AgesRank ages order) : order.length = bcacheSize := by
  simpa using h.perm.length_eq

theorem mem (h : AgesRank ages order) (i : Fin bcacheSize) : i ∈ order :=
  h.perm.mem_iff.mpr (List.mem_finRange i)

theorem ne_nil (h : AgesRank ages order) : order ≠ [] := List.ne_nil_of_mem (h.mem 0)

theorem ages_lt (h : AgesRank ages order) (i : Fin bcacheSize) : ages i < bcacheSize := by
  have hlt := List.idxOf_lt_length_of_mem (h.mem i)
  rw [h.length_eq] at hlt
  rw [h.ages_eq]
  exact hlt

theorem injective (h : AgesRank ages order) : Function.Injective ages := fun i j hij =>
  (List.idxOf_inj (h.mem i)).mp (by rw [← h.ages_eq, ← h.ages_eq, hij])

/-- The ages are a permutation of `0, …, BCACHE_SIZE - 1`. -/
theorem perm_range (h : AgesRank ages order) :
    ((List.finRange bcacheSize).map ages).Perm (List.range bcacheSize) := by
  have hages : ages = order.idxOf := funext h.ages_eq
  calc ((List.finRange bcacheSize).map ages).Perm (order.map order.idxOf) :=
        hages ▸ h.perm.symm.map _
    _ = List.range bcacheSize := by rw [map_idxOf_eq_range h.nodup, h.length_eq]

/-- A line's age reaches `BCACHE_SIZE` after a miss's increment iff it is the last line. -/
theorem age_succ_eq_iff (h : AgesRank ages order) (i : Fin bcacheSize) :
    ages i + 1 = bcacheSize ↔ i = order.getLast h.ne_nil := by
  have hlast := idxOf_getLast h.nodup h.ne_nil
  rw [h.length_eq] at hlast
  constructor
  · intro hi
    have : order.idxOf i = order.idxOf (order.getLast h.ne_nil) := by
      rw [hlast, ← h.ages_eq]; unfold bcacheSize at hi ⊢; omega
    exact (List.idxOf_inj (h.mem i)).mp this
  · rintro rfl
    rw [h.ages_eq, hlast]
    rfl

/-- The victim of a miss is the last line of the list. -/
theorem victim_eq_getLast (h : AgesRank ages order) : victim ages = order.getLast h.ne_nil :=
  foldl_pick_eq (List.mem_finRange _) (fun i _ => h.age_succ_eq_iff i) 0

theorem victim_age (h : AgesRank ages order) : ages (victim ages) + 1 = bcacheSize :=
  (h.age_succ_eq_iff _).mpr h.victim_eq_getLast

/-- A hit's aging loop moves its line to the front. -/
theorem touch {c : BlockCache} (h : AgesRank c.ages order) (r : Fin bcacheSize) :
    AgesRank (c.touch r).ages (moveToFront order r) := by
  refine ⟨(perm_moveToFront (h.mem r)).trans h.perm, fun i => ?_⟩
  by_cases hi : i = r
  · subst hi
    simp
  · rw [idxOf_moveToFront_of_ne (h.mem r) hi, ages_touch, Function.update_of_ne hi,
      h.ages_eq, h.ages_eq]

end AgesRank

/-- A miss's aging loop is a hit's at the victim: every other line is younger than it. -/
theorem installBlock_ages_eq {c : BlockCache} {order : List (Fin bcacheSize)}
    (h : AgesRank c.ages order) (b : Nat) (data : List UInt8) :
    (c.installBlock b data).ages = (c.touch (victim c.ages)).ages := by
  funext i
  rw [ages_installBlock, ages_touch]
  by_cases hi : i = victim c.ages
  · rw [hi, Function.update_self, Function.update_self]
  · have hne : c.ages i ≠ c.ages (victim c.ages) := fun e => hi (h.injective e)
    have hlt := h.ages_lt i
    have hv := h.victim_age
    rw [Function.update_of_ne hi, Function.update_of_ne hi, if_pos (by omega)]

/-- A call ages the cache as a hit at the line it uses. -/
theorem ages_cacheCall {c : BlockCache} {order : List (Fin bcacheSize)}
    (h : AgesRank c.ages order) (disk : Nat → List UInt8) (op : CacheOp) :
    (cacheCall c disk op).1.ages = (c.touch (c.usedLine op.blockNum)).ages := by
  cases op with
  | get b =>
    simp only [cacheCall, CacheOp.blockNum, bcacheGet, BlockCache.usedLine]
    cases bcacheLookup c b with
    | some r => rfl
    | none => exact installBlock_ages_eq h b _
  | set b src offset size =>
    simp only [cacheCall, CacheOp.blockNum, bcacheSet, BlockCache.usedLine]
    cases bcacheLookup c b with
    | some r => rfl
    | none =>
      dsimp only
      split_ifs <;> exact installBlock_ages_eq h b _

/-- After a call, the line it used holds its block. -/
theorem tags_cacheCall_usedLine (c : BlockCache) (disk : Nat → List UInt8) (op : CacheOp) :
    (cacheCall c disk op).1.tags (c.usedLine op.blockNum) = op.blockNum := by
  cases op with
  | get b =>
    simp only [cacheCall, CacheOp.blockNum, bcacheGet, BlockCache.usedLine]
    cases hl : bcacheLookup c b with
    | some r => exact bcacheLookup_some hl
    | none => simp
  | set b src offset size =>
    simp only [cacheCall, CacheOp.blockNum, bcacheSet, BlockCache.usedLine]
    cases hl : bcacheLookup c b with
    | some r => exact bcacheLookup_some hl
    | none =>
      dsimp only
      split_ifs <;> simp

/-- A call moves the line it uses to the front of the list. -/
theorem AgesRank.step {c : BlockCache} {order : List (Fin bcacheSize)}
    (h : AgesRank c.ages order) (disk : Nat → List UInt8) (op : CacheOp) :
    AgesRank (cacheCall c disk op).1.ages (moveToFront order (c.usedLine op.blockNum)) := by
  rw [ages_cacheCall h]
  exact h.touch _

/-! ### Runs from `bcache_init` -/

/-- The caches that calls run one at a time reach from `bcache_init`, with the lines the calls
used, oldest first; `bcache_init` counts as touches of the lines from the last to the first. -/
inductive LruReachable : BlockCache → List (Fin bcacheSize) → Prop
  | init (blockSize : Nat) (buffer : Fin bcacheSize → List UInt8) :
      LruReachable (bcacheInit blockSize buffer) (List.finRange bcacheSize).reverse
  | step {c : BlockCache} {hist : List (Fin bcacheSize)} (disk : Nat → List UInt8)
      (op : CacheOp) :
      LruReachable c hist → LruReachable (cacheCall c disk op).1 (hist ++ [c.usedLine op.blockNum])

theorem agesRank_init (blockSize : Nat) (buffer : Fin bcacheSize → List UInt8) :
    AgesRank (bcacheInit blockSize buffer).ages (recency (List.finRange bcacheSize).reverse) := by
  rw [recency_of_nodup (List.nodup_reverse.mpr (List.nodup_finRange _)), List.reverse_reverse]
  exact ⟨List.Perm.refl _, fun i => (idxOf_finRange i).symm⟩

/-- The ages of a reached cache are the ranks of its history's recency list. -/
theorem LruReachable.agesRank {c : BlockCache} {hist : List (Fin bcacheSize)}
    (h : LruReachable c hist) : AgesRank c.ages (recency hist) := by
  induction h with
  | init blockSize buffer => exact agesRank_init blockSize buffer
  | step disk op _ ih =>
    rw [recency_append_singleton]
    exact ih.step disk op

theorem LruReachable.mem_hist {c : BlockCache} {hist : List (Fin bcacheSize)}
    (h : LruReachable c hist) (i : Fin bcacheSize) : i ∈ hist := by
  induction h with
  | init => simp
  | step _ _ _ ih => exact List.mem_append_left _ ih

/-- Every sequence of calls from a reached cache reaches a cache. -/
theorem LruReachable.cacheRun {c : BlockCache} {hist : List (Fin bcacheSize)}
    (h : LruReachable c hist) (disk : Nat → List UInt8) (ops : List CacheOp) :
    ∃ hist', LruReachable (cacheRun c disk ops).1 hist' := by
  induction ops generalizing c hist disk with
  | nil => exact ⟨hist, h⟩
  | cons op ops ih => exact ih (h.step disk op) _

/-- A miss of a fresh cache evicts the line of age `BCACHE_SIZE - 1`. -/
example : (cacheCall (bcacheInit 1 fun _ => [0]) (fun _ => [7]) (.get 3)).1.tags 31 = 3 := by
  decide

theorem bcache_ages_lru {c : BlockCache} {hist : List (Fin bcacheSize)}
    (hreach : LruReachable c hist) :
    ((List.finRange bcacheSize).map c.ages).Perm (List.range bcacheSize) ∧
      (∃! i, c.ages i + 1 = bcacheSize) ∧ c.ages (victim c.ages) + 1 = bcacheSize ∧
      (∀ pre post, hist = pre ++ victim c.ages :: post → ∀ j, j ≠ victim c.ages → j ∈ post) ∧
      ∀ disk op,
        (bcacheLookup c (CacheOp.blockNum op) = none →
          (cacheCall c disk op).1.tags (victim c.ages) = CacheOp.blockNum op) ∧
        (cacheCall c disk op).1.ages (c.usedLine (CacheOp.blockNum op)) = 0 ∧
        ∀ i j, i ≠ c.usedLine (CacheOp.blockNum op) → j ≠ c.usedLine (CacheOp.blockNum op) →
          ((cacheCall c disk op).1.ages i < (cacheCall c disk op).1.ages j ↔
            c.ages i < c.ages j) := by
  have h := hreach.agesRank
  have hlast : (recency hist).getLast? = some (victim c.ages) := by
    rw [h.victim_eq_getLast, List.getLast?_eq_some_getLast]
  refine ⟨h.perm_range, ⟨victim c.ages, h.victim_age, fun i hi => ?_⟩, h.victim_age,
    fun pre post ht j hj => mem_of_getLast?_recency hlast (hreach.mem_hist j) hj ht,
    fun disk op => ⟨fun hmiss => ?_, ?_, fun i j hi hj => ?_⟩⟩
  · rw [h.victim_eq_getLast]
    exact (h.age_succ_eq_iff i).mp hi
  · have := tags_cacheCall_usedLine c disk op
    rwa [BlockCache.usedLine, hmiss, Option.getD_none] at this
  · rw [ages_cacheCall h]
    simp
  · -- both the old and the new ages are ranks, and the move keeps the others' order
    have h' := h.step disk op
    rw [h'.ages_eq, h'.ages_eq, h.ages_eq, h.ages_eq]
    exact idxOf_moveToFront_lt_iff hi hj

/-- From a fresh cache, misses on blocks `5` and `9`: line `31`, then line `30`, takes the
block, and line `29` is the next victim. -/
theorem bcache_ages_lru_two_misses :
    let c₀ := bcacheInit 1024 fun _ => []
    let c₁ := (cacheCall c₀ (fun _ => []) (.get 5)).1
    let c := (cacheCall c₁ (fun _ => []) (.get 9)).1
    let hist := (List.finRange bcacheSize).reverse ++ [c₀.usedLine 5, c₁.usedLine 9]
    victim c.ages = 29 ∧
      ((List.finRange bcacheSize).map c.ages).Perm (List.range bcacheSize) ∧
      (∃! i, c.ages i + 1 = bcacheSize) ∧ c.ages (victim c.ages) + 1 = bcacheSize ∧
      (∀ pre post, hist = pre ++ victim c.ages :: post → ∀ j, j ≠ victim c.ages → j ∈ post) ∧
      ∀ disk op,
        (bcacheLookup c (CacheOp.blockNum op) = none →
          (cacheCall c disk op).1.tags (victim c.ages) = CacheOp.blockNum op) ∧
        (cacheCall c disk op).1.ages (c.usedLine (CacheOp.blockNum op)) = 0 ∧
        ∀ i j, i ≠ c.usedLine (CacheOp.blockNum op) → j ≠ c.usedLine (CacheOp.blockNum op) →
          ((cacheCall c disk op).1.ages i < (cacheCall c disk op).1.ages j ↔
            c.ages i < c.ages j) :=
  ⟨by decide, bcache_ages_lru (.step _ (.get 9) (.step _ (.get 5) (.init 1024 fun _ => [])))⟩

end DioptaseOS.Ext2
