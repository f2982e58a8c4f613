import Mathlib.Data.List.Induction
import Mathlib.Data.List.Nodup

/-!
# Recency lists

A recency list holds each element once, the most recently touched first: touching an element
moves it to the front (`moveToFront`), and the list of a history of touches is what the
touches make of the empty list, one after the other (`recency`). The rank of an element is its
index in the list, so that the least recently touched element is the last one.

## Main definitions

* `Recency.moveToFront` — one touch
* `Recency.recency` — the list after a history of touches, oldest touch first

## Main results

* `idxOf_moveToFront_of_ne` — a touch moves the elements before the touched one one place
  back and leaves the others where they were
* `idxOf_moveToFront_lt_iff` — it keeps the order of every two other elements
* `recency_of_nodup` — a history without repeats is its own recency list, reversed
* `idxOf_recency_lt` — an element touched after the last touch of another comes before it
* `mem_of_getLast?_recency` — every other element of the history has been touched since the
  last touch of the last one
-/

namespace Recency

variable {α : Type*} [DecidableEq α] {l t pre post : List α} {a b c : α}

/-! ### One touch -/

/-- Touching `a` moves it to the front. -/
def moveToFront (l : List α) (a : α) : List α := a :: l.erase a

@[simp] theorem mem_moveToFront : b ∈ moveToFront l a ↔ b = a ∨ b ∈ l := by
  by_cases h : b = a
  · simp [moveToFront, h]
  · simp [moveToFront, h, List.mem_erase_of_ne h]

theorem nodup_moveToFront (h : l.Nodup) : (moveToFront l a).Nodup :=
  List.nodup_cons.mpr ⟨h.not_mem_erase, h.erase a⟩

theorem perm_moveToFront (ha : a ∈ l) : (moveToFront l a).Perm l :=
  (List.perm_cons_erase ha).symm

@[simp] theorem idxOf_moveToFront_self : (moveToFront l a).idxOf a = 0 :=
  List.idxOf_cons_self

/-- An element other than `a` is not at the index of `a`. -/
theorem idxOf_ne_idxOf (ha : a ∈ l) (hb : b ≠ a) : l.idxOf b ≠ l.idxOf a := fun e =>
  hb ((List.idxOf_inj (List.idxOf_lt_length_iff.mp (e ▸ List.idxOf_lt_length_of_mem ha))).mp e)

/-- Erasing `a` moves the elements after it one place forward. -/
theorem idxOf_erase (ha : a ∈ l) (hb : b ≠ a) :
    (l.erase a).idxOf b = if l.idxOf b < l.idxOf a then l.idxOf b else l.idxOf b - 1 := by
  induction l with
  | nil => simp at ha
  | cons x l ih =>
    by_cases hxa : x = a
    · -- the head is the element erased
      subst hxa
      simp [List.idxOf_cons_ne l (Ne.symm hb)]
    · have ha' : a ∈ l := (List.mem_cons.mp ha).resolve_left (Ne.symm hxa)
      have hne := idxOf_ne_idxOf ha' hb
      rw [List.erase_cons_tail (by simpa using hxa), List.idxOf_cons_ne l hxa]
      by_cases hxb : x = b
      · subst hxb
        simp
      · rw [List.idxOf_cons_ne _ hxb, List.idxOf_cons_ne _ hxb, ih ha']
        split_ifs <;> omega

/-- Two other elements keep their order when `a` is erased. -/
theorem idxOf_erase_lt_iff (hb : b ≠ a) (hc : c ≠ a) :
    (l.erase a).idxOf b < (l.erase a).idxOf c ↔ l.idxOf b < l.idxOf c := by
  by_cases ha : a ∈ l
  · have := idxOf_ne_idxOf ha hb
    have := idxOf_ne_idxOf ha hc
    rw [idxOf_erase ha hb, idxOf_erase ha hc]
    split_ifs <;> omega
  · rw [List.erase_of_not_mem ha]

/-- A touch of `a` moves the elements before it one place back. -/
theorem idxOf_moveToFront_of_ne (ha : a ∈ l) (hb : b ≠ a) :
    (moveToFront l a).idxOf b = if l.idxOf b < l.idxOf a then l.idxOf b + 1 else l.idxOf b := by
  have hne := idxOf_ne_idxOf ha hb
  rw [moveToFront, List.idxOf_cons_ne _ (Ne.symm hb), idxOf_erase ha hb]
  split_ifs <;> omega

theorem idxOf_moveToFront_lt_iff (hb : b ≠ a) (hc : c ≠ a) :
    (moveToFront l a).idxOf b < (moveToFront l a).idxOf c ↔ l.idxOf b < l.idxOf c := by
  rw [moveToFront, List.idxOf_cons_ne _ (Ne.symm hb), List.idxOf_cons_ne _ (Ne.symm hc),
    Nat.succ_lt_succ_iff, idxOf_erase_lt_iff hb hc]

/-! ### A history of touches -/

/-- The recency list of a history, oldest touch first. -/
def recency (t : List α) : List α := t.foldl moveToFront []

@[simp] theorem recency_nil : recency ([] : List α) = [] := rfl

@[simp] theorem recency_append_singleton :
    recency (t ++ [a]) = moveToFront (recency t) a := by
  simp [recency]

/-- What a run of touches makes of any list, one after the other. -/
theorem foldl_moveToFront_append (l : List α) :
    (pre ++ post).foldl moveToFront l = post.foldl moveToFront (pre.foldl moveToFront l) :=
  List.foldl_append

theorem mem_foldl_moveToFront : b ∈ t.foldl moveToFront l ↔ b ∈ t ∨ b ∈ l := by
  induction t generalizing l with
  | nil => simp
  | cons x t ih =>
    simp only [List.foldl_cons, ih, mem_moveToFront, List.mem_cons]
    rw [or_assoc]
    exact or_left_comm

@[simp] theorem mem_recency : b ∈ recency t ↔ b ∈ t := by
  simp [recency, mem_foldl_moveToFront]

theorem nodup_recency (t : List α) : (recency t).Nodup := by
  induction t using List.reverseRecOn with
  | nil => exact List.nodup_nil
  | append_singleton t x ih => rw [recency_append_singleton]; exact nodup_moveToFront ih

/-- A history that touches every element once leaves them in the reverse order. -/
theorem recency_of_nodup (h : t.Nodup) : recency t = t.reverse := by
  induction t using List.reverseRecOn with
  | nil => rfl
  | append_singleton t x ih =>
    obtain ⟨hx, ht⟩ := List.nodup_cons.mp (List.nodup_append_comm.mp h)
    rw [recency_append_singleton, ih ht, moveToFront,
      List.erase_of_not_mem (by simpa using hx)]
    simp

/-- After a touch of `b`, touches of other elements than `c` keep `b` before `c`. -/
theorem idxOf_foldl_lt (hbc : b ≠ c) (hpost : c ∉ post) :
    (post.foldl moveToFront (moveToFront l b)).idxOf b <
      (post.foldl moveToFront (moveToFront l b)).idxOf c := by
  induction post using List.reverseRecOn with
  | nil => simp [moveToFront, List.idxOf_cons_ne _ hbc]
  | append_singleton post x ih =>
    have hxc : c ≠ x := fun e => hpost (by simp [e])
    rw [List.foldl_append, List.foldl_cons, List.foldl_nil]
    by_cases hxb : b = x
    · -- `b` is touched again and goes back to the front
      subst hxb
      simp [moveToFront, List.idxOf_cons_ne _ (Ne.symm hxc)]
    · exact (idxOf_moveToFront_lt_iff hxb hxc).mpr (ih (fun h => hpost (by simp [h])))

/-- An element touched after the last touch of another comes before it. -/
theorem idxOf_recency_lt (ht : t = pre ++ b :: post) (hbc : b ≠ c) (hpost : c ∉ post) :
    (recency t).idxOf b < (recency t).idxOf c := by
  subst ht
  rw [recency, foldl_moveToFront_append, List.foldl_cons]
  exact idxOf_foldl_lt hbc hpost

/-- In a list without repeats, the last element has the last index. -/
theorem idxOf_getLast (h : l.Nodup) (hl : l ≠ []) : l.idxOf (l.getLast hl) = l.length - 1 := by
  rw [List.getLast_eq_getElem]
  exact h.idxOf_getElem _ _

/-- The least recently touched element: every other element of the history has been touched
since its last touch. -/
theorem mem_of_getLast?_recency (hlast : (recency t).getLast? = some a) (hc : c ∈ t)
    (hca : c ≠ a) (ht : t = pre ++ a :: post) : c ∈ post := by
  by_contra hpost
  have hne : recency t ≠ [] := fun h => by simp [h] at hlast
  have ha : a = (recency t).getLast hne := by
    rw [List.getLast?_eq_some_getLast hne] at hlast
    exact (Option.some.inj hlast).symm
  have hlt := idxOf_recency_lt ht (Ne.symm hca) hpost
  have hcmem : (recency t).idxOf c < (recency t).length :=
    List.idxOf_lt_length_of_mem (mem_recency.mpr hc)
  rw [ha, idxOf_getLast (nodup_recency t) hne] at hlt
  omega

/-- On a list without repeats, the ranks are the indices. -/
theorem map_idxOf_eq_range (h : l.Nodup) : l.map l.idxOf = List.range l.length := by
  apply List.ext_getElem (by simp)
  intro i h₁ h₂
  simp [h.idxOf_getElem]

end Recency
