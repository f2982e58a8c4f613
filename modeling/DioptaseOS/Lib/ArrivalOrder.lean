import Mathlib.Data.List.Pairwise
import Mathlib.Logic.Function.Basic

/-!
# Arrival order

A queue is first in, first out when it holds its elements in the order they arrived. To state
that of a queue whose code keeps no time, a run carries a ghost clock, bumped at each arrival,
and a ghost stamp per element, set to the clock when the element arrives. `ArrivalOrder` says
that a list holds its elements in increasing stamp order, every stamp below the clock: a newcomer
appended at the end keeps it, and so does taking elements off the front. A newcomer put in front
of an element that arrived before it breaks it.

## Main definitions

* `ArrivalOrder` — a list sorted by arrival stamp, every stamp below the clock

## Main results

* `ArrivalOrder.stamp` — stamping an element off the list keeps the order of the list
* `ArrivalOrder.arrive` — stamping a newcomer and appending it keeps the order
* `ArrivalOrder.of_cons`, `ArrivalOrder.nil` — taking the front off, and the empty list
-/

variable {τ : Type*}

/-- `l` holds its elements in the order of their stamps `arrival`, all below `clock`. -/
structure ArrivalOrder (clock : ℕ) (arrival : τ → ℕ) (l : List τ) : Prop where
  sorted : l.Pairwise fun a b => arrival a < arrival b
  lt_clock : ∀ u ∈ l, arrival u < clock

namespace ArrivalOrder

variable {clock : ℕ} {arrival : τ → ℕ} {l : List τ}

theorem nil (clock : ℕ) (arrival : τ → ℕ) : ArrivalOrder clock arrival [] :=
  ⟨List.Pairwise.nil, fun _ h => absurd h List.not_mem_nil⟩

/-- The front of the list is taken off. -/
theorem of_cons {x : τ} (h : ArrivalOrder clock arrival (x :: l)) : ArrivalOrder clock arrival l :=
  ⟨(List.pairwise_cons.mp h.sorted).2, fun u hu => h.lt_clock u (List.mem_cons_of_mem x hu)⟩

variable [DecidableEq τ] {t : τ}

/-- An element off the list arrives: its stamp is the clock, which moves on, and the list keeps
its stamps. -/
theorem stamp (h : ArrivalOrder clock arrival l) (ht : t ∉ l) :
    ArrivalOrder (clock + 1) (Function.update arrival t clock) l := by
  have hkeep : ∀ u ∈ l, Function.update arrival t clock u = arrival u := fun u hu =>
    Function.update_of_ne (fun e : u = t => ht (e ▸ hu)) _ _
  refine ⟨h.sorted.imp_of_mem fun {a b} ha hb hab => ?_, fun u hu => ?_⟩
  · rw [hkeep a ha, hkeep b hb]
    exact hab
  · rw [hkeep u hu]
    exact Nat.lt_succ_of_lt (h.lt_clock u hu)

/-- A newcomer is stamped with the clock and joins the end: it arrived after everyone on the
list. -/
theorem arrive (h : ArrivalOrder clock arrival l) (ht : t ∉ l) :
    ArrivalOrder (clock + 1) (Function.update arrival t clock) (l ++ [t]) := by
  have hl := h.stamp ht
  refine ⟨List.pairwise_append.mpr ⟨hl.sorted, List.pairwise_singleton _ _, ?_⟩, fun u hu => ?_⟩
  · intro a ha b hb
    rw [List.mem_singleton.mp hb, Function.update_self, Function.update_of_ne
      (fun e : a = t => ht (e ▸ ha))]
    exact h.lt_clock a ha
  · rcases List.mem_append.mp hu with hu | hu
    · exact hl.lt_clock u hu
    · rw [List.mem_singleton.mp hu, Function.update_self]
      exact Nat.lt_succ_self clock

end ArrivalOrder
