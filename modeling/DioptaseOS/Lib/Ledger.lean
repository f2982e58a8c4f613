import Mathlib.Data.List.Perm.Basic
import Mathlib.Logic.Function.Basic

/-!
# Resources kept in indexed pools

An allocator keeps what it has not handed out in pools indexed by a key: a free list per
block order, a cache per core. Taken together the pools are the concatenation of the pools
over a list of distinct keys. Writing one pool changes that concatenation by exactly the
difference between the old and the new contents of that pool, up to order; this is what the
accounting of an allocator is checked against, one write at a time.

## Main results

* `Ledger.flatMap_update_perm` — replacing pool `k` by `x` trades `g k` for `x`
* `Ledger.flatMap_update_cons` — pushing onto a pool adds the element
* `Ledger.flatMap_of_perm_cons` — taking an element out of a pool removes it
* `Ledger.flatMap_move` — moving an element between pools keeps the contents
-/

namespace Ledger

open scoped List

variable {ι β : Type*} [DecidableEq ι]

/-- Replacing one pool trades its old contents for the new ones. -/
theorem flatMap_update_perm (g : ι → List β) (x : List β) {k : ι} :
    ∀ {R : List ι}, R.Nodup → k ∈ R →
      R.flatMap (Function.update g k x) ++ g k ~ R.flatMap g ++ x
  | [], _, hk => absurd hk List.not_mem_nil
  | j :: R, hnd, hk => by
    have hjR := (List.nodup_cons.mp hnd).1
    simp only [List.flatMap_cons, List.append_assoc]
    by_cases hjk : j = k
    · subst hjk
      -- the other keys do not see the write
      have hrest : R.flatMap (Function.update g j x) = R.flatMap g :=
        List.flatMap_congr fun m hm => Function.update_of_ne (fun (e : m = j) => hjR (e ▸ hm)) _ _
      rw [Function.update_self, hrest]
      calc x ++ (R.flatMap g ++ g j) ~ x ++ (g j ++ R.flatMap g) :=
            List.Perm.append_left _ List.perm_append_comm
        _ = (x ++ g j) ++ R.flatMap g := by rw [List.append_assoc]
        _ ~ (g j ++ x) ++ R.flatMap g := List.Perm.append_right _ List.perm_append_comm
        _ ~ g j ++ (R.flatMap g ++ x) := by
            rw [List.append_assoc]; exact List.Perm.append_left _ List.perm_append_comm
    · rw [Function.update_of_ne hjk]
      have hkR : k ∈ R := by simpa [Ne.symm hjk] using hk
      exact List.Perm.append_left _ (flatMap_update_perm g x (List.nodup_cons.mp hnd).2 hkR)

variable {R : List ι} {k : ι}

theorem flatMap_update_cons (g : ι → List β) (a : β) (hR : R.Nodup) (hk : k ∈ R) :
    R.flatMap (Function.update g k (a :: g k)) ~ a :: R.flatMap g := by
  have h := flatMap_update_perm g (a :: g k) hR hk
  exact (List.perm_append_right_iff _).mp (h.trans List.perm_middle)

theorem flatMap_of_perm_cons {g : ι → List β} {a : β} {x : List β} (hR : R.Nodup) (hk : k ∈ R)
    (hg : g k ~ a :: x) : R.flatMap g ~ a :: R.flatMap (Function.update g k x) := by
  have h := flatMap_update_perm g x hR hk
  have h' : R.flatMap (Function.update g k x) ++ g k ~
      (a :: R.flatMap (Function.update g k x)) ++ x :=
    (List.Perm.append_left _ hg).trans List.perm_middle
  exact (List.perm_append_right_iff _).mp (h.symm.trans h')

/-- Moving an element from one pool to the front of another keeps the pools' contents. -/
theorem flatMap_move {g : ι → List β} {a : β} {x : List β} {k₁ k₂ : ι} (hR : R.Nodup)
    (hk₁ : k₁ ∈ R) (hk₂ : k₂ ∈ R) (hne : k₁ ≠ k₂) (hg : g k₁ ~ a :: x) :
    R.flatMap (Function.update (Function.update g k₁ x) k₂ (a :: g k₂)) ~ R.flatMap g := by
  have h := flatMap_update_cons (Function.update g k₁ x) a hR hk₂
  rw [Function.update_of_ne hne.symm] at h
  exact h.trans (flatMap_of_perm_cons hR hk₁ hg).symm

end Ledger
