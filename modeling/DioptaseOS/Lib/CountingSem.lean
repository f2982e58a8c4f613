import Mathlib.Data.List.Basic

/-!
# Counting semaphores

A counting semaphore hands out permits. A taker takes a free permit, or waits behind the
earlier takers when none is free; a giver hands its permit to the first waiter, or frees it
when no one waits. `CountingSem` is that state, free permits and the FIFO list of waiters,
with the invariant that no one waits while a permit is free carried as a field: every state
the operations build keeps it.

## Main definitions

* `CountingSem` — free permits and the waiters, no waiter while a permit is free
* `CountingSem.take`, `CountingSem.wait`, `CountingSem.give` — the three moves of a permit

## Main results

* `give_fst`, `give_waiters`, `give_permits` — a give serves the first waiter, or frees the
  permit when no one waits
* `permits_give_add` — a give puts exactly one permit back: in the free pool or in the hands of
  the waiter it returns
* `permits_eq_zero_of_mem` — a waiter is only ever behind an empty pool
-/

/-- Free permits and the waiters in arrival order; no one waits while a permit is free. -/
@[ext]
structure CountingSem (τ : Type*) where
  permits : ℕ
  waiters : List τ
  waiters_eq_nil : 0 < permits → waiters = []

namespace CountingSem

variable {τ : Type*} (S : CountingSem τ)

/-- `n` free permits and no waiter. -/
def init (n : ℕ) : CountingSem τ := ⟨n, [], fun _ => rfl⟩

/-- Take one free permit. -/
def take : CountingSem τ :=
  ⟨S.permits - 1, S.waiters, fun h => S.waiters_eq_nil (by omega)⟩

/-- Wait behind the earlier waiters, when no permit is free. -/
def wait (t : τ) (h : S.permits = 0) : CountingSem τ :=
  ⟨S.permits, S.waiters ++ [t], fun hp => absurd h (Nat.pos_iff_ne_zero.mp hp)⟩

/-- Give a permit back: to the first waiter, who is returned, or to the free pool. -/
def give : Option τ × CountingSem τ :=
  match h : S.waiters with
  | [] => (none, ⟨S.permits + 1, [], fun _ => rfl⟩)
  | w :: ws => (some w, ⟨S.permits, ws, fun hp => by simp [S.waiters_eq_nil hp] at h⟩)

@[simp] theorem init_permits (n : ℕ) : (init n : CountingSem τ).permits = n := rfl

@[simp] theorem init_waiters (n : ℕ) : (init n : CountingSem τ).waiters = [] := rfl

@[simp] theorem take_permits : S.take.permits = S.permits - 1 := rfl

@[simp] theorem take_waiters : S.take.waiters = S.waiters := rfl

@[simp] theorem wait_permits (t : τ) (h : S.permits = 0) : (S.wait t h).permits = S.permits := rfl

@[simp] theorem wait_waiters (t : τ) (h : S.permits = 0) :
    (S.wait t h).waiters = S.waiters ++ [t] := rfl

/-- The waiter a give serves is the first one. -/
theorem give_fst : S.give.1 = S.waiters.head? := by
  rw [give]
  split <;> simp_all

theorem give_waiters : S.give.2.waiters = S.waiters.tail := by
  rw [give]
  split <;> simp_all

theorem give_permits : S.give.2.permits = if S.waiters = [] then S.permits + 1 else S.permits := by
  rw [give]
  split <;> simp_all

/-- A give puts exactly one permit back, in the pool or in the hands of the waiter served. -/
theorem permits_give_add :
    S.give.2.permits + (if S.give.1.isSome then 1 else 0) = S.permits + 1 := by
  rw [give_permits, give_fst]
  cases S.waiters <;> simp

/-- A waiter is only ever behind an empty pool. -/
theorem permits_eq_zero_of_mem {t : τ} (ht : t ∈ S.waiters) : S.permits = 0 := by
  by_contra hne
  rw [S.waiters_eq_nil (Nat.pos_of_ne_zero hne)] at ht
  exact List.not_mem_nil ht

end CountingSem
