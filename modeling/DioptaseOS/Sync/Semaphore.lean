import Mathlib
import DioptaseOS.Queue.LinkedQueue
import DioptaseOS.Lib.CountingSem
import DioptaseOS.Lib.ArrivalOrder
import DioptaseOS.Lib.TwosComplement

/-!
# The kernel's semaphores

`semaphore.c` keeps a count and a wait queue of threads under a CLH lock. `sem_down` takes a
permit when the count is positive; otherwise it drops the lock and calls `block`, which switches
the thread away and runs the callback `sem_add` on the idle thread: `sem_add` takes the lock
again and checks the count once more, so a `sem_up` that ran between the two finds its permit
taken by the thread instead of lost. `sem_up` hands its permit to the first waiter, which it
wakes, or raises the count.

Each section between `clh_lock_acquire` and `clh_lock_release` is one step here. The functions
of the code act on `Semaphore`, the C struct, and refine the abstract `CountingSem`
(`SemRep.down_pos`, `SemRep.add_zero`, `SemRep.up` and their siblings). A system of threads
runs the calls interleaved in any order, each thread at its place in `sem_down`. The count is a
C `int`, which `sem_up` wraps past `INT_MAX`; from every reachable state of a run with fewer
calls of `sem_up` than `2 ^ 31` less the initial count, the wait queue holds exactly the waiting
threads in the order they queued, the count is never negative, is zero while a thread waits and
fits in an `int`, no `queue_add` follows a `NULL` tail, and the count plus the permits handed out
is the initial count plus the calls of `sem_up`.

## Main definitions

* `Semaphore`, `semInit`, `semDown`, `semAdd`, `semTryDown`, `semUp`, `semDestroy`
* `SemRep` — a semaphore stores a `CountingSem`
* `SemPc`, `SemSys`, `SemOp`, `semSysStep`, `SemSys.Reachable` — threads calling the semaphore

## Main results

* `SemRep.down_pos`, `SemRep.down_zero`, `SemRep.add_pos`, `SemRep.add_zero`, `SemRep.up`,
  `SemRep.tryDown` — each call is the matching move of the abstract semaphore
* `semDestroy_rep` — `sem_destroy` moves the waiters to the reaper queue, in order
* `SemSys.Inv.step`, `SemSys.Inv.of_reachable` — the invariant of the threads and the semaphore
* `semaphore_safety` — every reachable state
-/

namespace DioptaseOS.Sync

open PtrList Queue

variable {τ : Type*} [DecidableEq τ]

/-! ### The code -/

/-- `struct Semaphore`: the count and the wait queue. Its CLH lock is the atomicity of each
step. -/
structure Semaphore (τ : Type*) where
  count : ℤ
  waitQueue : LinkedQueue τ

/-- `sem_init(sem, initial_count)`. -/
def semInit (initialCount : ℤ) : Semaphore τ := ⟨initialCount, queueInit⟩

/-- The section of `sem_down` under the lock: a permit taken, or `none` when the count is not
positive and the caller goes on to `block`. -/
def semDown (sem : Semaphore τ) : Option (Semaphore τ) :=
  if sem.count > 0 then some { sem with count := sem.count - 1 } else none

/-- `sem_add(args)`, the callback `block` runs once the caller has switched away: a permit
taken and the thread woken (`true`), or the thread on the wait queue (`false`). `none` when
`queue_add` would follow a `NULL` tail. -/
def semAdd (sem : Semaphore τ) (next : τ → Option τ) (tcb : τ) :
    Option (Semaphore τ × (τ → Option τ) × Bool) :=
  if sem.count > 0 then some ({ sem with count := sem.count - 1 }, next, true)
  else (queueAdd sem.waitQueue next tcb).map fun r => ({ sem with waitQueue := r.1 }, r.2, false)

/-- `sem_try_down(sem)`. -/
def semTryDown (sem : Semaphore τ) : Semaphore τ × Bool :=
  if sem.count > 0 then ({ sem with count := sem.count - 1 }, true) else (sem, false)

/-- The section of `sem_up` under the lock: the first waiter, off the queue and to be woken, or
the count up by one when no one waits, as a 32-bit `int`. -/
def semUp (sem : Semaphore τ) (next : τ → Option τ) : Option τ × Semaphore τ × (τ → Option τ) :=
  let r := queueRemove sem.waitQueue next
  match r.1 with
  | none => (none, ⟨(sem.count + 1).bmod (2 ^ 32), r.2.1⟩, r.2.2)
  | some w => (some w, ⟨sem.count, r.2.1⟩, r.2.2)

/-- The loop of `sem_destroy`: each thread of the chain from `dead`, its `next` cleared, added
to the reaper queue. The fuel is the number of nodes the loop may visit. -/
def reapLoop : ℕ → Option τ → LinkedQueue τ → (τ → Option τ) →
    Option (LinkedQueue τ × (τ → Option τ))
  | 0, _, reaper, next => some (reaper, next)
  | _ + 1, none, reaper, next => some (reaper, next)
  | fuel + 1, some dead, reaper, next =>
    (spinQueueAdd reaper (Function.update next dead none) dead).bind fun r =>
      reapLoop fuel (next dead) r.1 r.2

/-- `sem_destroy(sem)`: the whole wait queue, taken off under the lock and walked to the reaper
queue, with the queue's count as the bound of the walk. -/
def semDestroy (sem : Semaphore τ) (next : τ → Option τ) (reaper : LinkedQueue τ) :
    Option (LinkedQueue τ × (τ → Option τ)) :=
  reapLoop sem.waitQueue.size.toNat (queueRemoveAll sem.waitQueue).1 reaper next

/-! ### The abstract semaphore -/

/-- The semaphore stores `S`: its count is the free permits, its queue the waiters. -/
structure SemRep (sem : Semaphore τ) (next : τ → Option τ) (S : CountingSem τ) : Prop where
  count : sem.count = S.permits
  queue : QueueRep sem.waitQueue next S.waiters

namespace SemRep

variable {sem : Semaphore τ} {next : τ → Option τ} {S : CountingSem τ}

theorem init (n : ℕ) (next : τ → Option τ) :
    SemRep (semInit n : Semaphore τ) next (CountingSem.init n) :=
  ⟨rfl, QueueRep.init next⟩

/-- The representation reads the `next` fields of the waiters only. -/
theorem congr (h : SemRep sem next S) {next' : τ → Option τ}
    (heq : ∀ x ∈ S.waiters, next' x = next x) : SemRep sem next' S :=
  ⟨h.count, h.queue.congr heq⟩

/-- A positive count is a free permit: the fast path of `sem_down` takes it. -/
theorem down_pos (h : SemRep sem next S) (hp : 0 < S.permits) :
    semDown sem = some { sem with count := sem.count - 1 } ∧
      SemRep { sem with count := sem.count - 1 } next S.take := by
  have hc : sem.count > 0 := by rw [h.count]; exact_mod_cast hp
  refine ⟨if_pos hc, ⟨?_, h.queue⟩⟩
  show sem.count - 1 = ((S.permits - 1 : ℕ) : ℤ)
  rw [h.count]
  omega

theorem down_zero (h : SemRep sem next S) (hp : S.permits = 0) : semDown sem = none := by
  have hc : ¬sem.count > 0 := by rw [h.count, hp]; decide
  exact if_neg hc

/-- `sem_add` with a free permit takes it and wakes the thread. -/
theorem add_pos (h : SemRep sem next S) (hp : 0 < S.permits) (tcb : τ) :
    semAdd sem next tcb = some ({ sem with count := sem.count - 1 }, next, true) ∧
      SemRep { sem with count := sem.count - 1 } next S.take := by
  have hc : sem.count > 0 := by rw [h.count]; exact_mod_cast hp
  exact ⟨if_pos hc, (h.down_pos hp).2⟩

/-- `sem_add` with no free permit queues the thread behind the waiters, writing the `next`
fields of the thread and of the old last waiter only. -/
theorem add_zero (h : SemRep sem next S) (hp : S.permits = 0) {tcb : τ} (ht : tcb ∉ S.waiters) :
    ∃ sem' next', semAdd sem next tcb = some (sem', next', false) ∧
      SemRep sem' next' (S.wait tcb hp) ∧ ∀ x, x ≠ tcb → x ∉ S.waiters → next' x = next x := by
  have hc : ¬sem.count > 0 := by rw [h.count, hp]; decide
  obtain ⟨queue', next', hadd, hrep, hframe⟩ := h.queue.add ht
  refine ⟨{ sem with waitQueue := queue' }, next', ?_, ⟨h.count, hrep⟩, hframe⟩
  rw [semAdd, if_neg hc, hadd, Option.map_some]

/-- `sem_up` serves the first waiter. -/
theorem up_fst (h : SemRep sem next S) : (semUp sem next).1 = S.waiters.head? := by
  obtain ⟨hnode, -, -⟩ := h.queue.remove
  simp only [semUp]
  split <;> simp_all

/-- `sem_up` is a give: it serves the first waiter, or frees the permit, when the count stays
below `INT_MAX`; it writes the `next` field of the waiter it removes only. -/
theorem up (h : SemRep sem next S) (hb : S.permits + 1 < 2 ^ 31) :
    (semUp sem next).1 = S.give.1 ∧ SemRep (semUp sem next).2.1 (semUp sem next).2.2 S.give.2 ∧
      ∀ x, x ∉ S.waiters → (semUp sem next).2.2 x = next x := by
  obtain ⟨hnode, hrep, hframe⟩ := h.queue.remove
  rw [CountingSem.give_fst]
  -- the two outcomes of `queue_remove`: no waiter, or the first one
  cases hw : S.waiters with
  | nil =>
    have hr : (queueRemove sem.waitQueue next).1 = none := by rw [hnode, hw]; rfl
    have hgive : S.give.2.permits = S.permits + 1 := by rw [CountingSem.give_permits, if_pos hw]
    simp only [semUp, hr]
    refine ⟨rfl, ⟨?_, ?_⟩, fun x hx => hframe x (hw ▸ hx)⟩
    · -- the count does not wrap
      rw [hgive, h.count, TwosComplement.bmod_eq_self_iff.mpr (by push_cast; omega)]
      push_cast
      rfl
    · rw [CountingSem.give_waiters, hw]
      exact hw ▸ hrep
  | cons w ws =>
    have hr : (queueRemove sem.waitQueue next).1 = some w := by rw [hnode, hw]; rfl
    have hgive : S.give.2.permits = S.permits := by
      rw [CountingSem.give_permits, if_neg (by simp [hw])]
    simp only [semUp, hr]
    refine ⟨rfl, ⟨?_, ?_⟩, fun x hx => hframe x (hw ▸ hx)⟩
    · rw [hgive, h.count]
    · rw [CountingSem.give_waiters, hw]
      exact hw ▸ hrep

/-- `sem_try_down` takes a permit exactly when one is free. -/
theorem tryDown (h : SemRep sem next S) :
    (semTryDown sem).2 = decide (0 < S.permits) ∧
      SemRep (semTryDown sem).1 next (if 0 < S.permits then S.take else S) := by
  by_cases hp : 0 < S.permits
  · have hc : sem.count > 0 := by rw [h.count]; exact_mod_cast hp
    rw [semTryDown, if_pos hc, if_pos hp, decide_eq_true hp]
    exact ⟨rfl, (h.down_pos hp).2⟩
  · have hc : ¬sem.count > 0 := by rw [h.count]; exact_mod_cast hp
    rw [semTryDown, if_neg hc, if_neg hp, decide_eq_false hp]
    exact ⟨rfl, h⟩

end SemRep

/-! ### `sem_destroy` -/

/-- The reaper loop adds the chain of `l` to the reaper queue in order, for any fuel at least
the length of `l`, and writes the `next` fields of the two lists' nodes only. The chain and the
reaper queue share no node. -/
theorem reapLoop_rep {l r : List τ} {dead : Option τ} {reaper : LinkedQueue τ}
    {next : τ → Option τ} (hl : Singly next dead l) (hr : QueueRep reaper next r)
    (hdisj : l.Disjoint r) {fuel : ℕ} (hfuel : l.length ≤ fuel) :
    ∃ reaper' next', reapLoop fuel dead reaper next = some (reaper', next') ∧
      QueueRep reaper' next' (r ++ l) ∧ ∀ x, x ∉ l → x ∉ r → next' x = next x := by
  -- induction on the chain, with the reaper's list and the `next` fields generalised
  induction l generalizing dead reaper next r fuel with
  | nil =>
    have hdead : dead = none := hl.head
    refine ⟨reaper, next, ?_, by rw [List.append_nil]; exact hr, fun _ _ _ => rfl⟩
    subst hdead
    cases fuel <;> rfl
  | cons a t ih =>
    obtain ⟨n, rfl⟩ : ∃ n, fuel = n + 1 := ⟨fuel - 1, by simp at hfuel; omega⟩
    have hhead : dead = some a := hl.head
    have hat : a ∉ t := (List.nodup_cons.mp hl.nodup).1
    have har : a ∉ r := fun ha => hdisj List.mem_cons_self ha
    -- clearing `a->next` keeps the reaper's chain, which does not hold `a`
    have hr' : QueueRep reaper (Function.update next a none) r :=
      hr.congr fun x hx => Function.update_of_ne (fun e : x = a => har (e ▸ hx)) _ _
    obtain ⟨reaper₁, next₁, hadd, hrep₁, hframe⟩ := hr'.add har
    have hpop : Singly next (next a) t := (hhead ▸ hl).pop
    -- the rest of the chain keeps its links: `queue_add` wrote `a` and the old tail only
    have ht : Singly next₁ (next a) t := hpop.congr fun x hx => by
      have hxa : x ≠ a := fun e => hat (e ▸ hx)
      rw [hframe x hxa fun hxr => hdisj (List.mem_cons_of_mem a hx) hxr,
        Function.update_of_ne hxa]
    obtain ⟨reaper', next', hloop, hrep', hframe'⟩ := ih ht hrep₁
      (fun x hx₁ hx₂ => by
        rcases List.mem_append.mp hx₂ with hxr | hxa
        · exact hdisj (List.mem_cons_of_mem a hx₁) hxr
        · exact hat (List.mem_singleton.mp hxa ▸ hx₁))
      (by simp at hfuel; omega)
    refine ⟨reaper', next', ?_, by simpa using hrep', fun x hxl hxr => ?_⟩
    · rw [hhead, reapLoop, spinQueueAdd, hadd, Option.bind_some, hloop]
    · -- a node of neither list: the loop's writes went to `a` and the reaper's nodes
      have hxa : x ≠ a := fun e => hxl (e ▸ List.mem_cons_self)
      rw [hframe' x (fun hx => hxl (List.mem_cons_of_mem a hx)) (by simp [hxa, hxr]),
        hframe x hxa hxr, Function.update_of_ne hxa]

/-- `sem_destroy` appends the waiters, in the order they queued, to a reaper queue that holds
none of them. -/
theorem semDestroy_rep {sem : Semaphore τ} {next : τ → Option τ} {S : CountingSem τ}
    (h : SemRep sem next S) {reaper : LinkedQueue τ} {r : List τ} (hr : QueueRep reaper next r)
    (hdisj : S.waiters.Disjoint r) :
    ∃ reaper' next', semDestroy sem next reaper = some (reaper', next') ∧
      QueueRep reaper' next' (r ++ S.waiters) := by
  have hfuel : S.waiters.length ≤ sem.waitQueue.size.toNat := by
    rw [h.queue.size]
    omega
  obtain ⟨reaper', next', hloop, hrep', -⟩ := reapLoop_rep (h.queue.removeAll).2.2 hr hdisj hfuel
  exact ⟨reaper', next', hloop, hrep'⟩

/-! ### Threads calling the semaphore -/

/-- Where a thread is in `sem_down`: outside it (`running`), between the failed check and
`sem_add` (`blocking`), on the wait queue (`waiting`), or given a permit and not yet back from
`block` (`woken`). -/
inductive SemPc
  | running
  | blocking
  | waiting
  | woken
  deriving DecidableEq

/-- The semaphore, the threads' `next` fields, and where each thread is. `downs` counts the
permits handed to takers and `ups` the calls of `sem_up`, `clock` the calls of `sem_add`, and
`arrival` says when each thread last called it: all are ghost state. -/
structure SemSys (τ : Type*) where
  sem : Semaphore τ
  next : τ → Option τ
  pc : τ → SemPc
  downs : ℕ
  ups : ℕ
  clock : ℕ
  arrival : τ → ℕ

/-- The steps: a thread's section of `sem_down`, its `sem_add`, its return from `block` once
woken, and the sections of `sem_try_down` and `sem_up` that a running thread calls. -/
inductive SemOp (τ : Type*)
  | down (t : τ)
  | add (t : τ)
  | resume (t : τ)
  | tryDown (t : τ)
  | up (t : τ)

/-- Where the thread must be for the step. -/
def SemOp.Enabled (s : SemSys τ) : SemOp τ → Prop
  | .down t => s.pc t = .running
  | .add t => s.pc t = .blocking
  | .resume t => s.pc t = .woken
  | .tryDown t => s.pc t = .running
  | .up t => s.pc t = .running

instance SemOp.instDecidableEnabled (s : SemSys τ) : (op : SemOp τ) → Decidable (op.Enabled s)
  | .down t => inferInstanceAs (Decidable (s.pc t = .running))
  | .add t => inferInstanceAs (Decidable (s.pc t = .blocking))
  | .resume t => inferInstanceAs (Decidable (s.pc t = .woken))
  | .tryDown t => inferInstanceAs (Decidable (s.pc t = .running))
  | .up t => inferInstanceAs (Decidable (s.pc t = .running))

/-- One step; `none` when `queue_add` would follow a `NULL` tail. The waiter `sem_up` removes
is woken in the same step: `scheduler_wake_thread` after the lock touches no state of the
semaphore. -/
def semSysStep (s : SemSys τ) : SemOp τ → Option (SemSys τ)
  | .down t =>
    match semDown s.sem with
    | some sem => some { s with sem, downs := s.downs + 1 }
    | none => some { s with pc := Function.update s.pc t .blocking }
  | .add t =>
    (semAdd s.sem s.next t).map fun r =>
      { s with sem := r.1, next := r.2.1,
               pc := Function.update s.pc t (if r.2.2 then .woken else .waiting),
               downs := if r.2.2 then s.downs + 1 else s.downs, clock := s.clock + 1,
               arrival := Function.update s.arrival t s.clock }
  | .resume t => some { s with pc := Function.update s.pc t .running }
  | .tryDown _ =>
    let r := semTryDown s.sem
    some { s with sem := r.1, downs := if r.2 then s.downs + 1 else s.downs }
  | .up _ =>
    let r := semUp s.sem s.next
    match r.1 with
    | none => some { s with sem := r.2.1, next := r.2.2, ups := s.ups + 1 }
    | some w =>
      some { s with sem := r.2.1, next := r.2.2, pc := Function.update s.pc w .woken,
                    downs := s.downs + 1, ups := s.ups + 1 }

/-- The states of the runs from `sem_init(sem, n)` with every thread running, over any `next`
fields. -/
inductive SemSys.Reachable (n : ℕ) : SemSys τ → Prop
  | init (next : τ → Option τ) :
      SemSys.Reachable n ⟨semInit n, next, fun _ => .running, 0, 0, 0, fun _ => 0⟩
  | step {s s' : SemSys τ} (op : SemOp τ) : SemSys.Reachable n s → op.Enabled s →
      semSysStep s op = some s' → SemSys.Reachable n s'

/-- The system stores the abstract semaphore `S`: the waiting threads are its waiters, in the
order they called `sem_add`, and the free permits and those handed out are the initial ones and
those given back. -/
structure SemSys.Abs (n : ℕ) (s : SemSys τ) (S : CountingSem τ) : Prop where
  rep : SemRep s.sem s.next S
  waiting_iff : ∀ t, s.pc t = .waiting ↔ t ∈ S.waiters
  permits_add : S.permits + s.downs = n + s.ups
  order : ArrivalOrder s.clock s.arrival S.waiters

/-- The invariant of the threads and the semaphore. -/
def SemSys.Inv (n : ℕ) (s : SemSys τ) : Prop := ∃ S : CountingSem τ, s.Abs n S

/-! ### The invariant -/

section Waiting

variable {pc : τ → SemPc} {l : List τ} {t : τ}

/-- A thread that does not wait moves to a place other than the queue: the waiting threads stay
the same. -/
theorem waiting_iff_update (h : ∀ u, pc u = .waiting ↔ u ∈ l) (ht : t ∉ l) {p : SemPc}
    (hp : p ≠ .waiting) (u : τ) : Function.update pc t p u = .waiting ↔ u ∈ l := by
  by_cases hu : u = t
  · subst hu
    rw [Function.update_self]
    exact ⟨fun e => absurd e hp, fun hu => absurd hu ht⟩
  · rw [Function.update_of_ne hu]
    exact h u

/-- A thread that does not wait joins the end of the queue. -/
theorem waiting_iff_update_waiting (h : ∀ u, pc u = .waiting ↔ u ∈ l) (u : τ) :
    Function.update pc t .waiting u = .waiting ↔ u ∈ l ++ [t] := by
  by_cases hu : u = t
  · subst hu
    simp
  · rw [Function.update_of_ne hu, List.mem_append, List.mem_singleton, h u]
    exact ⟨Or.inl, fun h' => h'.resolve_right hu⟩

/-- The first waiter leaves the queue to be woken. -/
theorem waiting_iff_update_woken {w : τ} (h : ∀ u, pc u = .waiting ↔ u ∈ w :: l) (hw : w ∉ l)
    (u : τ) : Function.update pc w .woken u = .waiting ↔ u ∈ l := by
  by_cases hu : u = w
  · subst hu
    simp [hw]
  · rw [Function.update_of_ne hu, h u, List.mem_cons]
    exact ⟨fun h' => h'.resolve_left hu, Or.inr⟩

end Waiting

namespace SemSys.Abs

variable {n : ℕ} {s : SemSys τ} {S : CountingSem τ}

theorem init (n : ℕ) (next : τ → Option τ) :
    SemSys.Abs n (⟨semInit n, next, fun _ => .running, 0, 0, 0, fun _ => 0⟩ : SemSys τ)
      (CountingSem.init n) :=
  ⟨SemRep.init n next, fun _ => by simp, by simp, .nil 0 _⟩

theorem not_mem_of_ne (h : s.Abs n S) {t : τ} (ht : s.pc t ≠ .waiting) : t ∉ S.waiters :=
  fun hm => ht ((h.waiting_iff t).mpr hm)

/-- `sem_down`'s section: with a free permit the thread takes it; without, it goes to
`block`. -/
theorem down (h : s.Abs n S) {t : τ} (ht : s.pc t = .running) :
    ∃ s' S', semSysStep s (.down t) = some s' ∧ s'.Abs n S' := by
  by_cases hp : 0 < S.permits
  · obtain ⟨hdown, hrep⟩ := h.rep.down_pos hp
    refine ⟨{ s with sem := { s.sem with count := s.sem.count - 1 }, downs := s.downs + 1 },
      S.take, by rw [semSysStep, hdown], ⟨hrep, h.waiting_iff, ?_, h.order⟩⟩
    have := h.permits_add
    show S.permits - 1 + (s.downs + 1) = n + s.ups
    omega
  · have hdown := h.rep.down_zero (Nat.eq_zero_of_not_pos hp)
    refine ⟨{ s with pc := Function.update s.pc t .blocking }, S, by rw [semSysStep, hdown],
      ⟨h.rep, ?_, h.permits_add, h.order⟩⟩
    exact waiting_iff_update h.waiting_iff (h.not_mem_of_ne (by rw [ht]; decide))
      (show SemPc.blocking ≠ .waiting by decide)

/-- `sem_add`: with a free permit the thread takes it and is woken; without, it queues. -/
theorem add (h : s.Abs n S) {t : τ} (ht : s.pc t = .blocking) :
    ∃ s' S', semSysStep s (.add t) = some s' ∧ s'.Abs n S' := by
  have htw : t ∉ S.waiters := h.not_mem_of_ne (by rw [ht]; decide)
  by_cases hp : 0 < S.permits
  · obtain ⟨hadd, hrep⟩ := h.rep.add_pos hp t
    refine ⟨{ s with sem := { s.sem with count := s.sem.count - 1 },
                     pc := Function.update s.pc t .woken, downs := s.downs + 1,
                     clock := s.clock + 1, arrival := Function.update s.arrival t s.clock },
      S.take, by rw [semSysStep, hadd, Option.map_some]; rfl, ⟨hrep, ?_, ?_, h.order.stamp htw⟩⟩
    · exact waiting_iff_update h.waiting_iff htw (show SemPc.woken ≠ .waiting by decide)
    · have := h.permits_add
      show S.permits - 1 + (s.downs + 1) = n + s.ups
      omega
  · have hz := Nat.eq_zero_of_not_pos hp
    obtain ⟨sem', next', hadd, hrep, -⟩ := h.rep.add_zero hz htw
    refine ⟨{ s with sem := sem', next := next', pc := Function.update s.pc t .waiting,
                     clock := s.clock + 1, arrival := Function.update s.arrival t s.clock },
      S.wait t hz, by rw [semSysStep, hadd, Option.map_some]; rfl,
      ⟨hrep, waiting_iff_update_waiting h.waiting_iff, h.permits_add, h.order.arrive htw⟩⟩

theorem resume (h : s.Abs n S) {t : τ} (ht : s.pc t = .woken) :
    ∃ s' S', semSysStep s (.resume t) = some s' ∧ s'.Abs n S' :=
  ⟨_, S, rfl, ⟨h.rep, waiting_iff_update h.waiting_iff (h.not_mem_of_ne (by rw [ht]; decide))
    (show SemPc.running ≠ .waiting by decide), h.permits_add, h.order⟩⟩

theorem tryDown (h : s.Abs n S) (t : τ) :
    ∃ s' S', semSysStep s (.tryDown t) = some s' ∧ s'.Abs n S' := by
  obtain ⟨hres, hrep⟩ := h.rep.tryDown
  have hpa := h.permits_add
  refine ⟨_, if 0 < S.permits then S.take else S, rfl, ⟨hrep, ?_, ?_, ?_⟩⟩
  · show ∀ u, s.pc u = .waiting ↔ u ∈ (if 0 < S.permits then S.take else S).waiters
    split <;> exact h.waiting_iff
  · show (if 0 < S.permits then S.take else S).permits +
      (if (semTryDown s.sem).2 then s.downs + 1 else s.downs) = n + s.ups
    rw [hres]
    by_cases hp : 0 < S.permits
    · rw [if_pos hp, decide_eq_true hp, if_pos rfl, CountingSem.take_permits]
      omega
    · rw [if_neg hp, decide_eq_false hp]
      exact hpa
  · show ArrivalOrder s.clock s.arrival (if 0 < S.permits then S.take else S).waiters
    split <;> exact h.order

/-- `sem_up`: the first waiter is woken with the permit, or the permit is freed, when the calls
of `sem_up` keep the count below `INT_MAX`. -/
theorem up (h : s.Abs n S) (t : τ) (hb : n + s.ups + 1 < 2 ^ 31) :
    ∃ s' S', semSysStep s (.up t) = some s' ∧ s'.Abs n S' := by
  have hpa := h.permits_add
  obtain ⟨hnode, hrep, -⟩ := h.rep.up (by omega)
  rw [CountingSem.give_fst] at hnode
  -- no waiter: the count goes up; a first waiter `w`: it is woken with the permit
  cases hw : S.waiters with
  | nil =>
    have hr : (semUp s.sem s.next).1 = none := by rw [hnode, hw]; rfl
    have hgive : S.give.2.permits = S.permits + 1 := by
      rw [CountingSem.give_permits, if_pos hw]
    refine ⟨{ s with sem := (semUp s.sem s.next).2.1, next := (semUp s.sem s.next).2.2,
                     ups := s.ups + 1 },
      S.give.2, by simp only [semSysStep, hr], ⟨hrep, ?_, ?_, ?_⟩⟩
    · intro u
      rw [CountingSem.give_waiters, hw, List.tail_nil, ← hw]
      exact h.waiting_iff u
    · show S.give.2.permits + s.downs = n + (s.ups + 1)
      omega
    · rw [CountingSem.give_waiters, hw]
      exact .nil _ _
  | cons w ws =>
    have hr : (semUp s.sem s.next).1 = some w := by rw [hnode, hw]; rfl
    have hgive : S.give.2.permits = S.permits := by
      rw [CountingSem.give_permits, if_neg (by simp [hw])]
    have hwn : w ∉ ws := (List.nodup_cons.mp (hw ▸ h.rep.queue.chain.nodup)).1
    refine ⟨{ s with sem := (semUp s.sem s.next).2.1, next := (semUp s.sem s.next).2.2,
                     pc := Function.update s.pc w .woken, downs := s.downs + 1,
                     ups := s.ups + 1 },
      S.give.2, by simp only [semSysStep, hr], ⟨hrep, ?_, ?_, ?_⟩⟩
    · rw [CountingSem.give_waiters, hw]
      exact waiting_iff_update_woken (hw ▸ h.waiting_iff) hwn
    · show S.give.2.permits + (s.downs + 1) = n + (s.ups + 1)
      omega
    · -- the first waiter leaves the front of the queue
      have ho : ArrivalOrder s.clock s.arrival (w :: ws) := hw ▸ h.order
      rw [CountingSem.give_waiters, hw]
      exact ho.of_cons

/-- Every enabled step succeeds and keeps the invariant, a `sem_up` while the count stays below
`INT_MAX`. -/
theorem step (h : s.Abs n S) {op : SemOp τ} (hen : op.Enabled s)
    (hb : ∀ t, op = .up t → n + s.ups + 1 < 2 ^ 31) :
    ∃ s' S', semSysStep s op = some s' ∧ s'.Abs n S' := by
  cases op with
  | down t => exact h.down hen
  | add t => exact h.add hen
  | resume t => exact h.resume hen
  | tryDown t => exact h.tryDown t
  | up t => exact h.up t (hb t rfl)

end SemSys.Abs

/-- A `sem_up` always completes. -/
theorem semSysStep_up (s : SemSys τ) (t : τ) : ∃ s', semSysStep s (.up t) = some s' := by
  simp only [semSysStep]
  split <;> exact ⟨_, rfl⟩

/-- Only `sem_up` counts in `ups`: a step raises it by one on a `sem_up` and keeps it
otherwise. -/
theorem semSysStep_ups {s s' : SemSys τ} {op : SemOp τ} (h : semSysStep s op = some s') :
    s.ups ≤ s'.ups ∧ ∀ t, op = .up t → s'.ups = s.ups + 1 := by
  cases op with
  | up t =>
    simp only [semSysStep] at h
    split at h <;> (cases h; exact ⟨Nat.le_succ _, fun _ _ => rfl⟩)
  | down t =>
    simp only [semSysStep] at h
    split at h <;> (cases h; exact ⟨le_rfl, fun _ e => nomatch e⟩)
  | add t =>
    obtain ⟨r, -, rfl⟩ := Option.map_eq_some_iff.mp h
    exact ⟨le_rfl, fun _ e => nomatch e⟩
  | resume t =>
    cases h
    exact ⟨le_rfl, fun _ e => nomatch e⟩
  | tryDown t =>
    cases h
    exact ⟨le_rfl, fun _ e => nomatch e⟩

theorem SemSys.Inv.of_reachable {n : ℕ} {s : SemSys τ} (hs : s.Reachable n)
    (hups : n + s.ups < 2 ^ 31) : s.Inv n := by
  induction hs with
  | init next => exact ⟨_, SemSys.Abs.init n next⟩
  | step op _ hen hstep ih =>
    -- `ups` never goes down, so the bound holds before the step, and one more for a `sem_up`
    obtain ⟨hle, hup⟩ := semSysStep_ups hstep
    obtain ⟨S, hS⟩ := ih (by omega)
    obtain ⟨s', S', hstep', hS'⟩ := hS.step hen fun t ht => by have := hup t ht; omega
    rw [hstep] at hstep'
    exact ⟨S', Option.some.inj hstep' ▸ hS'⟩

/-- From every state a run from `sem_init(sem, n)` reaches with fewer calls of `sem_up` than
`2 ^ 31 - n`: the wait queue is a chain of exactly the waiting threads, in the order they called
`sem_add` (the ghost time `arrival`), and `sem_up` would wake the first; the count is never
negative, fits in an `int` and is zero while a thread waits; the count plus the permits handed
out is `n` plus the calls of `sem_up`; and no enabled step follows a `NULL` tail. -/
theorem semaphore_safety {n : ℕ} {s : SemSys τ} (hs : s.Reachable n) (hups : n + s.ups < 2 ^ 31) :
    (∃ waiters : List τ, QueueRep s.sem.waitQueue s.next waiters ∧
      ArrivalOrder s.clock s.arrival waiters ∧
      (∀ t, s.pc t = .waiting ↔ t ∈ waiters) ∧ (semUp s.sem s.next).1 = waiters.head? ∧
      (0 < s.sem.count → waiters = [])) ∧
    0 ≤ s.sem.count ∧ s.sem.count < 2 ^ 31 ∧ s.sem.count + s.downs = n + s.ups ∧
    ∀ op : SemOp τ, op.Enabled s → ∃ s', semSysStep s op = some s' := by
  obtain ⟨S, hS⟩ := SemSys.Inv.of_reachable hs hups
  have hcount := hS.rep.count
  have hpa := hS.permits_add
  refine ⟨⟨S.waiters, hS.rep.queue, hS.order, hS.waiting_iff, hS.rep.up_fst,
    fun hp => S.waiters_eq_nil ?_⟩, ?_, ?_, ?_, fun op hen => ?_⟩
  · rw [hcount] at hp
    exact_mod_cast hp
  · rw [hcount]
    exact Int.natCast_nonneg _
  · have hlt : S.permits < 2 ^ 31 := by omega
    rw [hcount]
    exact_mod_cast hlt
  · rw [hcount]
    exact_mod_cast hpa
  · -- a `sem_up` always completes; every other step by the invariant
    by_cases hup : ∃ t, op = .up t
    · obtain ⟨t, rfl⟩ := hup
      exact semSysStep_up s t
    · obtain ⟨s', -, hstep, -⟩ := hS.step hen fun t ht => absurd ⟨t, ht⟩ hup
      exact ⟨s', hstep⟩

/-- On a semaphore of no permit, two threads queue in `sem_down` and a `sem_up` wakes the first,
leaving the second on the queue. -/
theorem semaphore_safety_two_waiters :
    ∃ s : SemSys (Fin 3), s.Reachable 0 ∧ s.pc 0 = .woken ∧ s.pc 1 = .waiting ∧
    0 + s.ups < 2 ^ 31 ∧
    (∃ waiters : List (Fin 3), QueueRep s.sem.waitQueue s.next waiters ∧
      ArrivalOrder s.clock s.arrival waiters ∧
      (∀ t, s.pc t = .waiting ↔ t ∈ waiters) ∧ (semUp s.sem s.next).1 = waiters.head? ∧
      (0 < s.sem.count → waiters = [])) ∧
    0 ≤ s.sem.count ∧ s.sem.count < 2 ^ 31 ∧ s.sem.count + s.downs = 0 + s.ups ∧
    ∀ op : SemOp (Fin 3), op.Enabled s → ∃ s', semSysStep s op = some s' := by
  have hs : @SemSys.Reachable (Fin 3) _ 0 _ :=
    .step (.up 2) (.step (.add 1) (.step (.down 1) (.step (.add 0) (.step (.down 0)
      (.init fun _ => none) (by decide) rfl) (by decide) rfl) (by decide) rfl) (by decide) rfl)
      (by decide) rfl
  exact ⟨_, hs, rfl, rfl, by decide, semaphore_safety hs (by decide)⟩

/-- `sem_destroy`, in a state a run from `sem_init(sem, n)` reaches with fewer calls of `sem_up`
than `2 ^ 31 - n`, hands exactly the waiting threads, in the order they called `sem_add`, to a
reaper queue that holds none of them. -/
theorem semaphore_destroy_reaps_waiters {n : ℕ} {s : SemSys τ} (hs : s.Reachable n)
    (hups : n + s.ups < 2 ^ 31) {reaper : LinkedQueue τ} {r : List τ}
    (hr : QueueRep reaper s.next r) (hwait : ∀ t ∈ r, s.pc t ≠ .waiting) :
    ∃ waiters : List τ, (∀ t, s.pc t = .waiting ↔ t ∈ waiters) ∧
      ArrivalOrder s.clock s.arrival waiters ∧
      ∃ reaper' next', semDestroy s.sem s.next reaper = some (reaper', next') ∧
        QueueRep reaper' next' (r ++ waiters) := by
  obtain ⟨S, hS⟩ := SemSys.Inv.of_reachable hs hups
  -- a thread on the reaper queue is not waiting, so not on the wait queue
  have hdisj : S.waiters.Disjoint r := fun t hw htr => hwait t htr ((hS.waiting_iff t).mpr hw)
  exact ⟨S.waiters, hS.waiting_iff, hS.order, semDestroy_rep hS.rep hr hdisj⟩

/-- Two threads queue on a semaphore of no permit; `sem_destroy` hands both, first to last, to
an empty reaper queue. -/
theorem semaphore_destroy_reaps_two_waiters :
    ∃ s : SemSys (Fin 3), s.Reachable 0 ∧ s.pc 0 = .waiting ∧ s.pc 1 = .waiting ∧
    s.arrival 0 < s.arrival 1 ∧ 0 + s.ups < 2 ^ 31 ∧
    QueueRep (queueInit : LinkedQueue (Fin 3)) s.next [] ∧
    (∀ t ∈ ([] : List (Fin 3)), s.pc t ≠ .waiting) ∧
    ∃ waiters : List (Fin 3), (∀ t, s.pc t = .waiting ↔ t ∈ waiters) ∧
      ArrivalOrder s.clock s.arrival waiters ∧
      ∃ reaper' next', semDestroy s.sem s.next queueInit = some (reaper', next') ∧
        QueueRep reaper' next' ([] ++ waiters) := by
  have hs : @SemSys.Reachable (Fin 3) _ 0 _ :=
    .step (.add 1) (.step (.down 1) (.step (.add 0) (.step (.down 0) (.init fun _ => none)
      (by decide) rfl) (by decide) rfl) (by decide) rfl) (by decide) rfl
  exact ⟨_, hs, rfl, rfl, by decide, by decide, QueueRep.init _,
    (fun _ h => absurd h List.not_mem_nil),
    semaphore_destroy_reaps_waiters hs (by decide) (QueueRep.init _)
      (fun _ h => absurd h List.not_mem_nil)⟩

end DioptaseOS.Sync
