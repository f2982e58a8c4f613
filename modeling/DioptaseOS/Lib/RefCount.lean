import Mathlib.Data.Multiset.AddSub
import Mathlib.Data.Multiset.Count
import Mathlib.Logic.Function.Basic

/-!
# Reference counts

A heap of objects by address, each carrying a count of the references to it, and the
references themselves as a multiset of addresses, one element for each reference that someone
holds. `Counted` says that the counts are right: each live object's count is the number of
references to it, every live object is referenced, and every reference points to a live
object. `Indexed` says that an index from keys to addresses finds exactly the live objects by
their keys, so that no two live objects share a key.

The lemmas say how the four things a reference-counted cache does keep both: take one more
reference on a live object, publish a new object with one reference, drop a reference and
free the object with its last, and change an object without touching its count or key.

## Main definitions

* `RefCount.Counted` — the counts of the live objects are the numbers of their references
* `RefCount.Indexed` — the index maps each key to the one live object with that key

## Main results

* `Counted.acquire`, `Counted.publish`, `Counted.drop`, `Counted.drop_last`, `Counted.modify`
* `Indexed.insert`, `Indexed.erase`, `Indexed.modify`, `Indexed.unique`
-/

namespace RefCount

open Function

variable {α κ : Type} {rc : α → ℕ} {heap : ℕ → Option α} {refs : Multiset ℕ}
  {p : ℕ} {a a' : α}

/-! ### Counts -/

/-- The objects of `heap` are counted by `refs`: each live object's count `rc` is the number
of references to it and is positive, and every reference points to a live object. -/
structure Counted (rc : α → ℕ) (heap : ℕ → Option α) (refs : Multiset ℕ) : Prop where
  count_eq : ∀ p a, heap p = some a → rc a = refs.count p
  pos : ∀ p a, heap p = some a → 0 < rc a
  live : ∀ p ∈ refs, ∃ a, heap p = some a

theorem Counted.mem_of_live (h : Counted rc heap refs) (hp : heap p = some a) : p ∈ refs := by
  have := h.pos p a hp
  rw [h.count_eq p a hp] at this
  exact Multiset.count_pos.mp this

theorem Counted.not_mem_of_none (h : Counted rc heap refs) (hp : heap p = none) : p ∉ refs := by
  intro hmem
  obtain ⟨a, ha⟩ := h.live p hmem
  rw [hp] at ha
  cases ha

/-- Counts only depend on which references are held. -/
theorem Counted.congr {refs' : Multiset ℕ} (h : Counted rc heap refs) (he : refs' = refs) :
    Counted rc heap refs' := he ▸ h

/-- Counts only read the count and the liveness of each object. -/
theorem Counted.of_map_eq {heap' : ℕ → Option α} (h : Counted rc heap refs)
    (he : ∀ p, (heap' p).map rc = (heap p).map rc) : Counted rc heap' refs where
  count_eq p a hp := by
    obtain ⟨b, hb, hab⟩ := Option.map_eq_some_iff.mp ((he p).symm.trans (by rw [hp]; rfl))
    rw [← hab]
    exact h.count_eq p b hb
  pos p a hp := by
    obtain ⟨b, hb, hab⟩ := Option.map_eq_some_iff.mp ((he p).symm.trans (by rw [hp]; rfl))
    rw [← hab]
    exact h.pos p b hb
  live p hp := by
    obtain ⟨b, hb⟩ := h.live p hp
    have hmap := he p
    rw [hb] at hmap
    obtain ⟨a, ha, -⟩ := Option.map_eq_some_iff.mp hmap
    exact ⟨a, ha⟩

/-- One more reference on the live object at `p`. -/
theorem Counted.acquire (h : Counted rc heap refs) (hp : heap p = some a)
    (ha : rc a' = rc a + 1) : Counted rc (update heap p (some a')) (p ::ₘ refs) where
  count_eq q b hq := by
    by_cases hqp : q = p
    · subst hqp
      simp only [update_self, Option.some.injEq] at hq
      rw [← hq, ha, h.count_eq q a hp, Multiset.count_cons_self]
    · rw [update_of_ne hqp] at hq
      rw [h.count_eq q b hq, Multiset.count_cons_of_ne hqp]
  pos q b hq := by
    by_cases hqp : q = p
    · subst hqp
      simp only [update_self, Option.some.injEq] at hq
      rw [← hq, ha]
      exact Nat.succ_pos _
    · rw [update_of_ne hqp] at hq
      exact h.pos q b hq
  live q hq := by
    by_cases hqp : q = p
    · exact ⟨a', hqp ▸ update_self ..⟩
    · rw [update_of_ne hqp]
      exact h.live q ((Multiset.mem_cons.mp hq).resolve_left hqp)

/-- A new object at the free address `p`, published with one reference. -/
theorem Counted.publish (h : Counted rc heap refs) (hp : heap p = none) (ha : rc a = 1) :
    Counted rc (update heap p (some a)) (p ::ₘ refs) where
  count_eq q b hq := by
    by_cases hqp : q = p
    · subst hqp
      simp only [update_self, Option.some.injEq] at hq
      rw [← hq, ha, Multiset.count_cons_self,
        Multiset.count_eq_zero_of_notMem (h.not_mem_of_none hp)]
    · rw [update_of_ne hqp] at hq
      rw [h.count_eq q b hq, Multiset.count_cons_of_ne hqp]
  pos q b hq := by
    by_cases hqp : q = p
    · subst hqp
      simp only [update_self, Option.some.injEq] at hq
      rw [← hq, ha]
      exact Nat.one_pos
    · rw [update_of_ne hqp] at hq
      exact h.pos q b hq
  live q hq := by
    by_cases hqp : q = p
    · exact ⟨a, hqp ▸ update_self ..⟩
    · rw [update_of_ne hqp]
      exact h.live q ((Multiset.mem_cons.mp hq).resolve_left hqp)

/-- The object at `p` changes without its count changing. -/
theorem Counted.modify (h : Counted rc heap refs) (hp : heap p = some a) (ha : rc a' = rc a) :
    Counted rc (update heap p (some a')) refs where
  count_eq q b hq := by
    by_cases hqp : q = p
    · subst hqp
      simp only [update_self, Option.some.injEq] at hq
      rw [← hq, ha, h.count_eq q a hp]
    · rw [update_of_ne hqp] at hq
      exact h.count_eq q b hq
  pos q b hq := by
    by_cases hqp : q = p
    · subst hqp
      simp only [update_self, Option.some.injEq] at hq
      rw [← hq, ha]
      exact h.pos q a hp
    · rw [update_of_ne hqp] at hq
      exact h.pos q b hq
  live q hq := by
    by_cases hqp : q = p
    · exact ⟨a', hqp ▸ update_self ..⟩
    · rw [update_of_ne hqp]
      exact h.live q hq

/-- A reference on `p` is dropped and others remain: the count goes down by one. -/
theorem Counted.drop (h : Counted rc heap refs) (hp : heap p = some a) (ha : rc a' + 1 = rc a)
    (hpos : 0 < rc a') : Counted rc (update heap p (some a')) (refs.erase p) where
  count_eq q b hq := by
    by_cases hqp : q = p
    · subst hqp
      simp only [update_self, Option.some.injEq] at hq
      rw [← hq, Multiset.count_erase_self, ← h.count_eq q a hp, ← ha, Nat.add_sub_cancel]
    · rw [update_of_ne hqp] at hq
      rw [h.count_eq q b hq, Multiset.count_erase_of_ne hqp]
  pos q b hq := by
    by_cases hqp : q = p
    · subst hqp
      simp only [update_self, Option.some.injEq] at hq
      exact hq ▸ hpos
    · rw [update_of_ne hqp] at hq
      exact h.pos q b hq
  live q hq := by
    by_cases hqp : q = p
    · exact ⟨a', hqp ▸ update_self ..⟩
    · rw [update_of_ne hqp]
      exact h.live q (Multiset.mem_of_mem_erase hq)

/-- The last reference on `p` is dropped and the object is freed. -/
theorem Counted.drop_last (h : Counted rc heap refs) (hp : heap p = some a) (ha : rc a = 1) :
    Counted rc (update heap p none) (refs.erase p) where
  count_eq q b hq := by
    by_cases hqp : q = p
    · subst hqp
      simp at hq
    · rw [update_of_ne hqp] at hq
      rw [h.count_eq q b hq, Multiset.count_erase_of_ne hqp]
  pos q b hq := by
    by_cases hqp : q = p
    · subst hqp
      simp at hq
    · rw [update_of_ne hqp] at hq
      exact h.pos q b hq
  live q hq := by
    by_cases hqp : q = p
    · subst hqp
      -- the erased reference was the only one on `p`
      have hone : refs.count q = 1 := (h.count_eq q a hp).symm.trans ha
      have : (refs.erase q).count q = 0 := by rw [Multiset.count_erase_self, hone]
      exact absurd (Multiset.count_pos.mpr hq) (by omega)
    · rw [update_of_ne hqp]
      exact h.live q (Multiset.mem_of_mem_erase hq)

/-! ### The index -/

/-- `index` finds exactly the live objects of `heap` by their keys. -/
structure Indexed (key : α → κ) (index : κ → Option ℕ) (heap : ℕ → Option α) : Prop where
  index_iff : ∀ k p, index k = some p ↔ ∃ a, heap p = some a ∧ key a = k

variable {key : α → κ} {index : κ → Option ℕ}

theorem Indexed.index_of_live (h : Indexed key index heap) (hp : heap p = some a) :
    index (key a) = some p :=
  (h.index_iff _ p).mpr ⟨a, hp, rfl⟩

/-- The index only reads the key and the liveness of each object. -/
theorem Indexed.of_map_eq {heap' : ℕ → Option α} (h : Indexed key index heap)
    (he : ∀ p, (heap' p).map key = (heap p).map key) : Indexed key index heap' where
  index_iff k p := by
    rw [h.index_iff]
    have hmap := he p
    constructor
    · rintro ⟨a, ha, rfl⟩
      rw [ha, Option.map_some] at hmap
      exact Option.map_eq_some_iff.mp hmap
    · rintro ⟨a, ha, rfl⟩
      rw [ha, Option.map_some] at hmap
      exact Option.map_eq_some_iff.mp hmap.symm

/-- No two live objects share a key. -/
theorem Indexed.unique (h : Indexed key index heap) {q : ℕ} {b : α} (hp : heap p = some a)
    (hq : heap q = some b) (hk : key a = key b) : p = q := by
  have e₁ := h.index_of_live hp
  rw [hk, h.index_of_live hq] at e₁
  exact (Option.some.inj e₁).symm

/-- The object at `p` changes and keeps its key. -/
theorem Indexed.modify (h : Indexed key index heap) (hp : heap p = some a) (hk : key a' = key a) :
    Indexed key index (update heap p (some a')) where
  index_iff k q := by
    rw [h.index_iff]
    by_cases hqp : q = p
    · subst hqp
      simp only [update_self, Option.some.injEq, exists_eq_left', hk]
      exact ⟨fun ⟨b, hb, hbk⟩ => by rw [hp] at hb; cases hb; exact hbk, fun hk' => ⟨a, hp, hk'⟩⟩
    · rw [update_of_ne hqp]

variable [DecidableEq κ]

/-- A new object at a free address, under a key the index does not have. -/
theorem Indexed.insert (h : Indexed key index heap) (hk : index (key a) = none)
    (hp : heap p = none) :
    Indexed key (update index (key a) (some p)) (update heap p (some a)) where
  index_iff k q := by
    by_cases hkk : k = key a
    · subst hkk
      simp only [update_self, Option.some.injEq]
      constructor
      · rintro rfl
        exact ⟨a, update_self .., rfl⟩
      · rintro ⟨b, hb, hbk⟩
        by_contra hqp
        rw [update_of_ne (Ne.symm hqp)] at hb
        rw [← hbk, h.index_of_live hb] at hk
        cases hk
    · rw [update_of_ne hkk, h.index_iff]
      constructor
      · rintro ⟨b, hb, rfl⟩
        have hqp : q ≠ p := by
          rintro rfl
          rw [hp] at hb
          cases hb
        exact ⟨b, by rw [update_of_ne hqp]; exact hb, rfl⟩
      · rintro ⟨b, hb, rfl⟩
        by_cases hqp : q = p
        · subst hqp
          simp only [update_self, Option.some.injEq] at hb
          exact absurd (by rw [hb]) hkk
        · exact ⟨b, by rwa [update_of_ne hqp] at hb, rfl⟩

/-- The live object at `p` is taken out of the index and freed. -/
theorem Indexed.erase (h : Indexed key index heap) (hp : heap p = some a) :
    Indexed key (update index (key a) none) (update heap p none) where
  index_iff k q := by
    by_cases hkk : k = key a
    · subst hkk
      simp only [update_self, reduceCtorEq, false_iff, not_exists, not_and]
      intro b hb hbk
      have hqp : q ≠ p := by
        rintro rfl
        simp at hb
      rw [update_of_ne hqp] at hb
      exact hqp (h.unique hb hp hbk)
    · rw [update_of_ne hkk, h.index_iff]
      constructor
      · rintro ⟨b, hb, rfl⟩
        have hqp : q ≠ p := by
          rintro rfl
          rw [hp] at hb
          cases hb
          exact hkk rfl
        exact ⟨b, by rw [update_of_ne hqp]; exact hb, rfl⟩
      · rintro ⟨b, hb, rfl⟩
        have hqp : q ≠ p := by
          rintro rfl
          simp at hb
        exact ⟨b, by rwa [update_of_ne hqp] at hb, rfl⟩

end RefCount
