import DioptaseOS.Sync.Semaphore

/-!
# The kernel's blocking locks

`blocking_lock.c` builds a mutex from a semaphore of one permit. `blocking_lock_acquire` saves
the caller's preemption state, takes the permit with `sem_down`, and only then stores the saved
state in `lock->preempt` and sets `is_held`: a thread still waiting must not overwrite the
holder's state. `blocking_lock_release` checks `is_held`, reads `lock->preempt` before
`sem_up`, since the next holder may overwrite it at once, clears `is_held`, gives the permit
back and restores the state it read.

Every statement of the two functions that reads or writes shared state is one step here, and
the steps of `sem_down` and `sem_up` are those of `Semaphore.lean`, so the threads interleave
at each of them. From every reachable state: at most one thread has the permit, from its grant
to its `sem_up`; `is_held` is set exactly while a holder is between its write of the flag and
its clear; the preemption state each release restores is the one its caller had before
`blocking_lock_acquire`; and no step fails, so the assert of `blocking_lock_release` never
fires for a releasing holder and `queue_add` never follows a `NULL` tail.

## Main definitions

* `BlockingLock`, `blockingLockInit`, `preemptionDisable`, `preemptionRestore`
* `LockPc`, `LockSys`, `LockOp`, `lockSysStep`, `LockSys.Reachable` — threads calling the lock

## Main results

* `LockSys.Abs.step` — every enabled step succeeds and keeps the invariant
* `blocking_lock_safety` — every reachable state
-/

namespace DioptaseOS.Sync

open PtrList Queue

variable {τ : Type*} [DecidableEq τ]

/-! ### The code -/

/-- `struct BlockingLock`: the semaphore, the holder's saved preemption state, and the flag
`is_held`. -/
structure BlockingLock (τ : Type*) where
  semaphore : Semaphore τ
  preempt : Bool
  isHeld : Bool

/-- `blocking_lock_init(lock)`. -/
def blockingLockInit : BlockingLock τ := ⟨semInit 1, false, false⟩

/-- `preemption_disable()` on thread `t`: its `can_preempt` flag, which it clears. -/
def preemptionDisable (canPreempt : τ → Bool) (t : τ) : Bool × (τ → Bool) :=
  (canPreempt t, Function.update canPreempt t false)

/-- `preemption_restore(was)` on thread `t`. -/
def preemptionRestore (canPreempt : τ → Bool) (t : τ) (was : Bool) : τ → Bool :=
  Function.update canPreempt t was

/-! ### Threads calling the lock -/

/-- Where a thread is in the lock's code, with its local `was_preempt`:
* `acquiring p was` — in `sem_down` of the acquire, at `p`
* `granted was`, `saved`, `holding` — back from `sem_down`; past the write of `lock->preempt`;
  past the write of `is_held`, out of `blocking_lock_acquire`
* `checked`, `read was`, `cleared was`, `restoring was` — in `blocking_lock_release`, past the
  assert, the read of `lock->preempt`, the clear of `is_held`, and `sem_up` -/
inductive LockPc
  | outside
  | acquiring (p : SemPc) (was : Bool)
  | granted (was : Bool)
  | saved
  | holding
  | checked
  | read (was : Bool)
  | cleared (was : Bool)
  | restoring (was : Bool)
  deriving DecidableEq

namespace LockPc

/-- On the semaphore's wait queue. -/
def IsWaiting : LockPc → Prop
  | .acquiring .waiting _ => True
  | _ => False

/-- Holding the permit: granted by `sem_add` or `sem_up`, until its own `sem_up`. -/
def Owns : LockPc → Prop
  | .acquiring .woken _ | .granted _ | .saved | .holding | .checked | .read _ | .cleared _ => True
  | _ => False

/-- Past the write of `is_held` and before its clear. -/
def Published : LockPc → Prop
  | .holding | .checked | .read _ => True
  | _ => False

/-- Past the write of `lock->preempt` and before its read. -/
def Saved : LockPc → Prop
  | .saved | .holding | .checked => True
  | _ => False

/-- The local `was_preempt` of the acquire, or the snapshot of the release. -/
def was : LockPc → Option Bool
  | .acquiring _ w | .granted w | .read w | .cleared w | .restoring w => some w
  | _ => none

/-- Woken by `sem_up`: out of the wait queue with the permit. -/
def wake : LockPc → LockPc
  | .acquiring _ w => .acquiring .woken w
  | p => p

@[simp] theorem wake_acquiring (p : SemPc) (w : Bool) :
    (LockPc.acquiring p w).wake = .acquiring .woken w := rfl

theorem owns_of_published {p : LockPc} (h : p.Published) : p.Owns := by
  cases p <;> simp_all [Published, Owns]

theorem owns_of_saved {p : LockPc} (h : p.Saved) : p.Owns := by
  cases p <;> simp_all [Saved, Owns]

theorem not_isWaiting_of_owns {p : LockPc} (h : p.Owns) : ¬p.IsWaiting := by
  rcases p with _ | ⟨_ | _ | _ | _, _⟩ | _ | _ | _ | _ | _ | _ | _ <;> simp_all [Owns, IsWaiting]

end LockPc

/-- The lock, the threads' `next` fields, where each thread is, and each thread's
`can_preempt` flag. `saved t`, a ghost, is the flag `t` had when it called
`blocking_lock_acquire`. -/
structure LockSys (τ : Type*) where
  lock : BlockingLock τ
  next : τ → Option τ
  pc : τ → LockPc
  canPreempt : τ → Bool
  saved : τ → Bool

/-- The steps of a thread, one per statement of the code that reads or writes shared state. -/
inductive LockOp (τ : Type*)
  | disable (t : τ)
  | down (t : τ)
  | add (t : τ)
  | resume (t : τ)
  | savePreempt (t : τ)
  | setHeld (t : τ)
  | check (t : τ)
  | readPreempt (t : τ)
  | clearHeld (t : τ)
  | up (t : τ)
  | restore (t : τ)

/-- Where the thread must be for the step. -/
def LockOp.Enabled (s : LockSys τ) : LockOp τ → Prop
  | .disable t => s.pc t = .outside
  | .down t => ∃ was, s.pc t = .acquiring .running was
  | .add t => ∃ was, s.pc t = .acquiring .blocking was
  | .resume t => ∃ was, s.pc t = .acquiring .woken was
  | .savePreempt t => ∃ was, s.pc t = .granted was
  | .setHeld t => s.pc t = .saved
  | .check t => s.pc t = .holding
  | .readPreempt t => s.pc t = .checked
  | .clearHeld t => ∃ was, s.pc t = .read was
  | .up t => ∃ was, s.pc t = .cleared was
  | .restore t => ∃ was, s.pc t = .restoring was

/-- One step of thread `t`; `none` when the assert of `blocking_lock_release` fires or
`queue_add` follows a `NULL` tail, and when the thread is not at the step. -/
def lockSysStep (s : LockSys τ) : LockOp τ → Option (LockSys τ)
  | .disable t =>
    let r := preemptionDisable s.canPreempt t
    some { s with pc := Function.update s.pc t (.acquiring .running r.1), canPreempt := r.2,
                  saved := Function.update s.saved t r.1 }
  | .down t =>
    match s.pc t with
    | .acquiring .running was =>
      match semDown s.lock.semaphore with
      | some sem => some { s with lock := { s.lock with semaphore := sem },
                                  pc := Function.update s.pc t (.granted was) }
      | none => some { s with pc := Function.update s.pc t (.acquiring .blocking was) }
    | _ => none
  | .add t =>
    match s.pc t with
    | .acquiring .blocking was =>
      (semAdd s.lock.semaphore s.next t).map fun r =>
        { s with lock := { s.lock with semaphore := r.1 }, next := r.2.1,
                 pc := Function.update s.pc t (.acquiring (if r.2.2 then .woken else .waiting) was) }
    | _ => none
  | .resume t =>
    match s.pc t with
    | .acquiring .woken was => some { s with pc := Function.update s.pc t (.granted was) }
    | _ => none
  | .savePreempt t =>
    match s.pc t with
    | .granted was => some { s with lock := { s.lock with preempt := was },
                                     pc := Function.update s.pc t .saved }
    | _ => none
  | .setHeld t =>
    some { s with lock := { s.lock with isHeld := true }, pc := Function.update s.pc t .holding }
  | .check t =>
    if s.lock.isHeld then some { s with pc := Function.update s.pc t .checked } else none
  | .readPreempt t => some { s with pc := Function.update s.pc t (.read s.lock.preempt) }
  | .clearHeld t =>
    match s.pc t with
    | .read was => some { s with lock := { s.lock with isHeld := false },
                                  pc := Function.update s.pc t (.cleared was) }
    | _ => none
  | .up t =>
    match s.pc t with
    | .cleared was =>
      let r := semUp s.lock.semaphore s.next
      let pc := Function.update s.pc t (.restoring was)
      some { s with lock := { s.lock with semaphore := r.2.1 }, next := r.2.2,
                    pc := match r.1 with
                      | none => pc
                      | some w => Function.update pc w (pc w).wake }
    | _ => none
  | .restore t =>
    match s.pc t with
    | .restoring was => some { s with pc := Function.update s.pc t .outside,
                                       canPreempt := preemptionRestore s.canPreempt t was }
    | _ => none

/-- The states of the runs from `blocking_lock_init(lock)` with every thread outside the lock,
over any `next` and `can_preempt` fields. -/
inductive LockSys.Reachable : LockSys τ → Prop
  | init (next : τ → Option τ) (canPreempt saved : τ → Bool) :
      LockSys.Reachable ⟨blockingLockInit, next, fun _ => .outside, canPreempt, saved⟩
  | step {s s' : LockSys τ} (op : LockOp τ) : LockSys.Reachable s → op.Enabled s →
      lockSysStep s op = some s' → LockSys.Reachable s'

/-! ### The invariant -/

/-- The lock's semaphore stores `S`, its waiters the waiting threads; the permit is free, or
held by exactly one thread; `is_held` is set exactly while a holder has published it;
`lock->preempt` is the holder's saved flag while it is stored; and every local copy of the flag
is its thread's saved one. -/
structure LockSys.Abs (s : LockSys τ) (S : CountingSem τ) : Prop where
  rep : SemRep s.lock.semaphore s.next S
  waiting_iff : ∀ t, (s.pc t).IsWaiting ↔ t ∈ S.waiters
  permits_le : S.permits ≤ 1
  owner : ∀ t, (s.pc t).Owns → S.permits = 0 ∧ ∀ u, (s.pc u).Owns → u = t
  owned : S.permits = 0 → ∃ t, (s.pc t).Owns
  held_iff : s.lock.isHeld = true ↔ ∃ t, (s.pc t).Published
  preempt_eq : ∀ t, (s.pc t).Saved → s.lock.preempt = s.saved t
  was_eq : ∀ t w, (s.pc t).was = some w → w = s.saved t

section Update

variable {pc : τ → LockPc} {t : τ} {p : LockPc}

/-- A predicate of the place of one thread, after that thread moves. -/
theorem update_iff (P : LockPc → Prop) (u : τ) :
    P (Function.update pc t p u) ↔ (u = t ∧ P p) ∨ (u ≠ t ∧ P (pc u)) := by
  by_cases hu : u = t
  · subst hu
    simp
  · simp [hu]

end Update

namespace LockSys.Abs

variable {s : LockSys τ} {S : CountingSem τ} {t : τ}

theorem init (next : τ → Option τ) (canPreempt saved : τ → Bool) :
    LockSys.Abs (⟨blockingLockInit, next, fun _ => .outside, canPreempt, saved⟩ : LockSys τ)
      (CountingSem.init 1) where
  rep := SemRep.init 1 next
  waiting_iff _ := by simp [LockPc.IsWaiting]
  permits_le := le_refl 1
  owner _ h := absurd h (by simp [LockPc.Owns])
  owned h := absurd h one_ne_zero
  held_iff := by simp [blockingLockInit, LockPc.Published]
  preempt_eq _ h := absurd h (by simp [LockPc.Saved])
  was_eq _ _ h := by simp [LockPc.was] at h

/-- The thread that owns the permit is the only one. -/
theorem eq_of_owns (h : s.Abs S) {u : τ} (ht : (s.pc t).Owns) (hu : (s.pc u).Owns) : u = t :=
  (h.owner t ht).2 u hu

theorem not_mem_of_not_isWaiting (h : s.Abs S) (ht : ¬(s.pc t).IsWaiting) : t ∉ S.waiters :=
  fun hm => ht ((h.waiting_iff t).mpr hm)

/-- A thread that neither owns the permit nor has it published or saved moves to another
such place, writing only the semaphore's queue, its own saved flag and its local copy: the
invariant holds of the new abstract semaphore with the same permits, once its waiters are the
waiting threads. -/
theorem move_plain (h : s.Abs S) (hp₀ : ¬(s.pc t).Owns ∧ ¬(s.pc t).Published ∧ ¬(s.pc t).Saved)
    {p : LockPc} (hp : ¬p.Owns ∧ ¬p.Published ∧ ¬p.Saved) {S' : CountingSem τ}
    (hperm : S'.permits = S.permits) {sem : Semaphore τ} {next : τ → Option τ}
    (hrep : SemRep sem next S')
    (hwait : ∀ u, (Function.update s.pc t p u).IsWaiting ↔ u ∈ S'.waiters) {saved : τ → Bool}
    (hsaved : ∀ u, u ≠ t → saved u = s.saved u) (hwas : ∀ w, p.was = some w → w = saved t)
    (canPreempt : τ → Bool) :
    LockSys.Abs { s with lock := { s.lock with semaphore := sem }, next,
                         pc := Function.update s.pc t p, canPreempt, saved } S' where
  rep := hrep
  waiting_iff := hwait
  permits_le := hperm ▸ h.permits_le
  owner u hu := by
    rw [update_iff LockPc.Owns] at hu
    rcases hu with ⟨-, hu⟩ | ⟨hut, hu⟩
    · exact absurd hu hp.1
    · refine ⟨hperm ▸ (h.owner u hu).1, fun v hv => ?_⟩
      rw [update_iff LockPc.Owns] at hv
      rcases hv with ⟨-, hv⟩ | ⟨-, hv⟩
      · exact absurd hv hp.1
      · exact h.eq_of_owns hu hv
  owned hz := by
    obtain ⟨u, hu⟩ := h.owned (hperm ▸ hz)
    have hut : u ≠ t := fun e => hp₀.1 (e ▸ hu)
    exact ⟨u, by rw [update_iff LockPc.Owns]; exact .inr ⟨hut, hu⟩⟩
  held_iff := by
    show s.lock.isHeld = true ↔ _
    rw [h.held_iff]
    constructor
    · rintro ⟨u, hu⟩
      have hut : u ≠ t := fun e => hp₀.2.1 (e ▸ hu)
      exact ⟨u, by rw [update_iff LockPc.Published]; exact .inr ⟨hut, hu⟩⟩
    · rintro ⟨u, hu⟩
      rw [update_iff LockPc.Published] at hu
      rcases hu with ⟨-, hu⟩ | ⟨-, hu⟩
      · exact absurd hu hp.2.1
      · exact ⟨u, hu⟩
  preempt_eq u hu := by
    rw [update_iff LockPc.Saved] at hu
    rcases hu with ⟨-, hu⟩ | ⟨hut, hu⟩
    · exact absurd hu hp.2.2
    · exact (h.preempt_eq u hu).trans (hsaved u hut).symm
  was_eq u w hw := by
    rw [update_iff (fun q => LockPc.was q = some w)] at hw
    rcases hw with ⟨rfl, hw⟩ | ⟨hut, hw⟩
    · exact hwas w hw
    · exact (h.was_eq u w hw).trans (hsaved u hut).symm

/-- A thread that is not waiting moves to a place that is not: the waiting threads stay. -/
theorem waiting_update_of_not (h : s.Abs S) (ht : ¬(s.pc t).IsWaiting) {p : LockPc}
    (hp : ¬p.IsWaiting) (u : τ) : (Function.update s.pc t p u).IsWaiting ↔ u ∈ S.waiters := by
  rw [update_iff LockPc.IsWaiting, ← h.waiting_iff u]
  by_cases hut : u = t
  · subst hut
    simp only [true_and, ne_eq, not_true_eq_false, false_and, or_false]
    exact ⟨fun e => absurd e hp, fun e => absurd e ht⟩
  · simp [hut]

/-- The owner moves to another place of an owner, writing only the lock's flags: the invariant
holds when the flags fit its new place. -/
theorem move_owner (h : s.Abs S) (ht₀ : (s.pc t).Owns) (p : LockPc) (hp : p.Owns)
    {lock : BlockingLock τ} (hsem : lock.semaphore = s.lock.semaphore)
    (hheld : lock.isHeld = true ↔ p.Published) (hpre : p.Saved → lock.preempt = s.saved t)
    (hwas : ∀ w, p.was = some w → w = s.saved t) :
    LockSys.Abs { s with lock, pc := Function.update s.pc t p } S := by
  -- another thread has none of the owner's properties
  have hother : ∀ u, u ≠ t → ¬(s.pc u).Owns := fun u hut hu => hut (h.eq_of_owns ht₀ hu)
  have howns : ∀ u, (Function.update s.pc t p u).Owns ↔ u = t := fun u => by
    rw [update_iff LockPc.Owns]
    exact ⟨fun h' => h'.elim And.left fun h'' => absurd h''.2 (hother u h''.1),
      fun hu => .inl ⟨hu, hp⟩⟩
  refine ⟨hsem ▸ h.rep, fun u => ?_, h.permits_le, fun u hu => ?_, fun _ => ⟨t, ?_⟩, ?_,
    fun u hu => ?_, fun u w hw => ?_⟩
  · rw [update_iff LockPc.IsWaiting, ← h.waiting_iff u]
    by_cases hut : u = t
    · subst hut
      simp only [true_and, ne_eq, not_true_eq_false, false_and, or_false]
      exact ⟨fun e => absurd e (LockPc.not_isWaiting_of_owns hp),
        fun e => absurd e (LockPc.not_isWaiting_of_owns ht₀)⟩
    · simp [hut]
  · obtain rfl := (howns u).mp hu
    exact ⟨(h.owner u ht₀).1, fun v hv => (howns v).mp hv⟩
  · exact (howns t).mpr rfl
  · rw [hheld]
    constructor
    · exact fun hpub => ⟨t, by simpa only [Function.update_self] using hpub⟩
    · rintro ⟨u, hu⟩
      obtain rfl := (howns u).mp (LockPc.owns_of_published hu)
      simpa only [Function.update_self] using hu
  · obtain rfl := (howns u).mp (LockPc.owns_of_saved hu)
    simp only [Function.update_self] at hu
    exact hpre hu
  · rw [update_iff (fun q => LockPc.was q = some w)] at hw
    rcases hw with ⟨rfl, hw⟩ | ⟨hut, hw⟩
    · exact hwas w hw
    · exact h.was_eq u w hw

/-- A thread with none of the four properties takes the free permit, into a place of an owner
that has not published the lock. -/
theorem take_permit (h : s.Abs S) (hp₀ : ¬(s.pc t).IsWaiting ∧ ¬(s.pc t).Owns ∧
      ¬(s.pc t).Published ∧ ¬(s.pc t).Saved)
    {p : LockPc} (hp : p.Owns ∧ ¬p.Published ∧ ¬p.Saved) (hpos : 0 < S.permits)
    {sem : Semaphore τ} {next : τ → Option τ} (hrep : SemRep sem next S.take)
    (hwas : ∀ w, p.was = some w → w = s.saved t) :
    LockSys.Abs { s with lock := { s.lock with semaphore := sem }, next,
                         pc := Function.update s.pc t p } S.take := by
  have hle := h.permits_le
  -- the permit was free: no thread owned it, so none had published the lock
  have hnone : ∀ u, ¬(s.pc u).Owns := fun u hu => by
    have := (h.owner u hu).1
    omega
  have howns : ∀ u, (Function.update s.pc t p u).Owns ↔ u = t := fun u => by
    rw [update_iff LockPc.Owns]
    exact ⟨fun h' => h'.elim And.left fun h'' => absurd h''.2 (hnone u),
      fun hu => .inl ⟨hu, hp.1⟩⟩
  have hheld : s.lock.isHeld = false := by
    rw [← Bool.not_eq_true, h.held_iff]
    exact fun ⟨u, hu⟩ => hnone u (LockPc.owns_of_published hu)
  refine ⟨hrep, fun u => ?_, by simp only [CountingSem.take_permits]; omega, fun u hu => ?_,
    fun _ => ⟨t, (howns t).mpr rfl⟩, ?_,
    fun u hu => ?_, fun u w hw => ?_⟩
  · rw [update_iff LockPc.IsWaiting, CountingSem.take_waiters, ← h.waiting_iff u]
    by_cases hut : u = t
    · subst hut
      simp only [true_and, ne_eq, not_true_eq_false, false_and, or_false]
      exact ⟨fun e => absurd e (LockPc.not_isWaiting_of_owns hp.1), fun e => absurd e hp₀.1⟩
    · simp [hut]
  · obtain rfl := (howns u).mp hu
    exact ⟨by simp only [CountingSem.take_permits]; omega, fun v hv => (howns v).mp hv⟩
  · show s.lock.isHeld = true ↔ _
    rw [hheld]
    refine ⟨fun e => absurd e Bool.false_ne_true, fun ⟨u, hu⟩ => ?_⟩
    obtain rfl := (howns u).mp (LockPc.owns_of_published hu)
    simp only [Function.update_self] at hu
    exact absurd hu hp.2.1
  · obtain rfl := (howns u).mp (LockPc.owns_of_saved hu)
    simp only [Function.update_self] at hu
    exact absurd hu hp.2.2
  · rw [update_iff (fun q => LockPc.was q = some w)] at hw
    rcases hw with ⟨rfl, hw⟩ | ⟨hut, hw⟩
    · exact hwas w hw
    · exact h.was_eq u w hw

/-- `sem_add` with no free permit: the thread joins the wait queue. -/
theorem queue_waiter (h : s.Abs S) {was : Bool} (ht : s.pc t = .acquiring .blocking was)
    (hz : S.permits = 0) {sem : Semaphore τ} {next : τ → Option τ}
    (hrep : SemRep sem next (S.wait t hz)) :
    LockSys.Abs { s with lock := { s.lock with semaphore := sem }, next,
                         pc := Function.update s.pc t (.acquiring .waiting was) } (S.wait t hz) := by
  have hwait : ∀ u, (Function.update s.pc t (.acquiring .waiting was) u).IsWaiting ↔
      u ∈ (S.wait t hz).waiters := fun u => by
    rw [CountingSem.wait_waiters, List.mem_append, List.mem_singleton, ← h.waiting_iff u,
      update_iff LockPc.IsWaiting]
    by_cases hut : u = t
    · subst hut
      simp [ht, LockPc.IsWaiting]
    · simp [hut]
  refine h.move_plain ?_ ?_ (S.wait_permits t hz) hrep hwait (fun _ _ => rfl)
    (fun w hw => h.was_eq t w (by rw [ht]; exact hw)) s.canPreempt
  · rw [ht]
    simp [LockPc.Owns, LockPc.Published, LockPc.Saved]
  · simp [LockPc.Owns, LockPc.Published, LockPc.Saved]

/-- The owner in `sem_up` of its release: no other thread owns the permit, and none has the lock
published, so `is_held` is clear. -/
theorem releasing (h : s.Abs S) {was : Bool} (ht : s.pc t = .cleared was) :
    (∀ u, ¬(Function.update s.pc t (.restoring was) u).Owns) ∧ s.lock.isHeld = false ∧
      S.permits = 0 ∧ t ∉ S.waiters := by
  have ht₀ : (s.pc t).Owns := by rw [ht]; trivial
  refine ⟨fun u hu => ?_, ?_, (h.owner t ht₀).1,
    h.not_mem_of_not_isWaiting (LockPc.not_isWaiting_of_owns ht₀)⟩
  · rw [update_iff LockPc.Owns] at hu
    rcases hu with ⟨-, hu⟩ | ⟨hut, hu⟩
    · exact hu
    · exact hut (h.eq_of_owns ht₀ hu)
  · rw [← Bool.not_eq_true, h.held_iff]
    rintro ⟨u, hu⟩
    obtain rfl := h.eq_of_owns ht₀ (LockPc.owns_of_published hu)
    rw [ht] at hu
    exact hu

/-- `sem_up` of the owner with no waiter frees the permit. -/
theorem release_free (h : s.Abs S) {was : Bool} (ht : s.pc t = .cleared was)
    (hw : S.waiters = []) {sem : Semaphore τ} {next : τ → Option τ}
    (hrep : SemRep sem next S.give.2) :
    LockSys.Abs { s with lock := { s.lock with semaphore := sem }, next,
                         pc := Function.update s.pc t (.restoring was) } S.give.2 := by
  obtain ⟨hnone, hheld, hz, -⟩ := h.releasing ht
  have hperm : S.give.2.permits = 1 := by rw [CountingSem.give_permits, if_pos hw, hz]
  refine ⟨hrep, fun u => ?_, hperm.le, fun u hu => absurd hu (hnone u),
    fun hz' => absurd (hperm ▸ hz') one_ne_zero, ?_, fun u hu => absurd
      (LockPc.owns_of_saved hu) (hnone u), fun u w hw' => ?_⟩
  · rw [CountingSem.give_waiters, hw, List.tail_nil, ← hw]
    exact h.waiting_update_of_not (by rw [ht]; exact id) id u
  · show s.lock.isHeld = true ↔ _
    rw [hheld]
    exact ⟨fun e => absurd e Bool.false_ne_true,
      fun ⟨u, hu⟩ => absurd (LockPc.owns_of_published hu) (hnone u)⟩
  · rw [update_iff (fun q => LockPc.was q = some w)] at hw'
    rcases hw' with ⟨rfl, hw'⟩ | ⟨-, hw'⟩
    · exact h.was_eq u w (by rw [ht]; exact hw')
    · exact h.was_eq u w hw'

/-- `sem_up` of the owner hands the permit to the first waiter, which it wakes. -/
theorem release_handoff (h : s.Abs S) {was : Bool} (ht : s.pc t = .cleared was) {w : τ}
    {ws : List τ} (hw : S.waiters = w :: ws) {sem : Semaphore τ} {next : τ → Option τ}
    (hrep : SemRep sem next S.give.2) :
    LockSys.Abs { s with lock := { s.lock with semaphore := sem }, next,
                         pc := Function.update (Function.update s.pc t (.restoring was)) w
                           (Function.update s.pc t (.restoring was) w).wake } S.give.2 := by
  obtain ⟨hnone, hheld, hz, htw⟩ := h.releasing ht
  have hwt : w ≠ t := fun e => htw (e ▸ hw ▸ List.mem_cons_self)
  -- the waiter is in `sem_down` with its own copy `x` of its flag
  obtain ⟨x, hx⟩ : ∃ x, s.pc w = .acquiring .waiting x := by
    have hwait := (h.waiting_iff w).mpr (hw ▸ List.mem_cons_self)
    revert hwait
    rcases s.pc w with _ | ⟨_ | _ | _ | _, x⟩ | _ | _ | _ | _ | _ | _ | _ <;>
      simp [LockPc.IsWaiting]
  have hpw : Function.update s.pc t (.restoring was) w = .acquiring .waiting x := by
    rw [Function.update_of_ne hwt, hx]
  rw [hpw, LockPc.wake_acquiring]
  have hwn : w ∉ ws := (List.nodup_cons.mp (hw ▸ h.rep.queue.chain.nodup)).1
  have hperm : S.give.2.permits = 0 := by rw [CountingSem.give_permits, if_neg (by simp [hw]), hz]
  -- the waiter is the new owner, and the only one
  have howns : ∀ u, (Function.update (Function.update s.pc t (.restoring was)) w
      (.acquiring .woken x) u).Owns ↔ u = w := fun u => by
    rw [update_iff LockPc.Owns]
    exact ⟨fun h' => h'.elim And.left fun h'' => absurd h''.2 (hnone u),
      fun hu => .inl ⟨hu, trivial⟩⟩
  refine ⟨hrep, fun u => ?_, hperm.le.trans zero_le_one, fun u hu => ⟨hperm, fun v hv => ?_⟩,
    fun _ => ⟨w, (howns w).mpr rfl⟩, ?_, fun u hu => ?_, fun u y hy => ?_⟩
  · rw [CountingSem.give_waiters, hw, List.tail_cons, update_iff LockPc.IsWaiting]
    by_cases huw : u = w
    · subst huw
      simp [LockPc.IsWaiting, hwn]
    · have := h.waiting_update_of_not (t := t) (by rw [ht]; exact id)
        (show ¬(LockPc.restoring was).IsWaiting from id) u
      rw [hw, List.mem_cons] at this
      simp only [huw, false_and, ne_eq, not_false_eq_true, true_and, false_or, this]
  · rw [(howns v).mp hv, (howns u).mp hu]
  · show s.lock.isHeld = true ↔ _
    rw [hheld]
    refine ⟨fun e => absurd e Bool.false_ne_true, fun ⟨u, hu⟩ => ?_⟩
    obtain rfl := (howns u).mp (LockPc.owns_of_published hu)
    simp only [Function.update_self] at hu
    exact absurd hu id
  · obtain rfl := (howns u).mp (LockPc.owns_of_saved hu)
    simp only [Function.update_self] at hu
    exact absurd hu id
  · rw [update_iff (fun q => LockPc.was q = some y),
      update_iff (fun q => LockPc.was q = some y)] at hy
    rcases hy with ⟨rfl, hy⟩ | ⟨-, ⟨rfl, hy⟩ | ⟨-, hy⟩⟩
    · exact h.was_eq u y (by rw [hx]; exact hy)
    · exact h.was_eq u y (by rw [ht]; exact hy)
    · exact h.was_eq u y hy

section Step

open LockPc

/-- The places of a thread outside the permit. -/
theorem plain_outside : ¬outside.Owns ∧ ¬outside.Published ∧ ¬outside.Saved := by
  simp [Owns, Published, Saved]

theorem plain_acquiring (p : SemPc) (hp : p ≠ .woken) (w : Bool) :
    ¬(acquiring p w).Owns ∧ ¬(acquiring p w).Published ∧ ¬(acquiring p w).Saved := by
  cases p <;> simp_all [Owns, Published, Saved]

theorem plain_restoring (w : Bool) :
    ¬(restoring w).Owns ∧ ¬(restoring w).Published ∧ ¬(restoring w).Saved := by
  simp [Owns, Published, Saved]

theorem disable (h : s.Abs S) (ht : s.pc t = .outside) :
    ∃ s' S', lockSysStep s (.disable t) = some s' ∧ s'.Abs S' := by
  refine ⟨_, S, rfl, h.move_plain (ht ▸ plain_outside) (plain_acquiring .running (by decide) _)
    rfl h.rep (h.waiting_update_of_not (by rw [ht]; exact id) id) (fun u hu => ?_) (fun w hw => ?_)
    _⟩
  · exact Function.update_of_ne hu _ _
  · rw [Function.update_self]
    exact (Option.some.inj hw).symm

theorem down (h : s.Abs S) {was : Bool} (ht : s.pc t = .acquiring .running was) :
    ∃ s' S', lockSysStep s (.down t) = some s' ∧ s'.Abs S' := by
  by_cases hp : 0 < S.permits
  · -- the fast path takes the free permit
    obtain ⟨hdown, hrep⟩ := h.rep.down_pos hp
    refine ⟨{ s with lock := { s.lock with semaphore := { s.lock.semaphore with
                count := s.lock.semaphore.count - 1 } },
                     pc := Function.update s.pc t (.granted was) }, S.take,
      by simp only [lockSysStep, ht, hdown], h.take_permit ?_ ?_ hp hrep ?_⟩
    · rw [ht]
      exact ⟨id, plain_acquiring .running (by decide) was⟩
    · simp [Owns, Published, Saved]
    · exact fun w hw => h.was_eq t w (by rw [ht]; exact hw)
  · have hdown := h.rep.down_zero (Nat.eq_zero_of_not_pos hp)
    refine ⟨{ s with pc := Function.update s.pc t (.acquiring .blocking was) }, S,
      by simp only [lockSysStep, ht, hdown], ?_⟩
    exact h.move_plain (ht ▸ plain_acquiring .running (by decide) was)
      (plain_acquiring .blocking (by decide) was) rfl h.rep
      (h.waiting_update_of_not (by rw [ht]; exact id) id) (fun _ _ => rfl)
      (fun w hw => h.was_eq t w (by rw [ht]; exact hw)) s.canPreempt

theorem add (h : s.Abs S) {was : Bool} (ht : s.pc t = .acquiring .blocking was) :
    ∃ s' S', lockSysStep s (.add t) = some s' ∧ s'.Abs S' := by
  have htw : t ∉ S.waiters := h.not_mem_of_not_isWaiting (by rw [ht]; exact id)
  by_cases hp : 0 < S.permits
  · -- a permit freed since the check: `sem_add` takes it
    obtain ⟨hadd, hrep⟩ := h.rep.add_pos hp t
    refine ⟨{ s with lock := { s.lock with semaphore := { s.lock.semaphore with
                count := s.lock.semaphore.count - 1 } },
                     pc := Function.update s.pc t (.acquiring .woken was) }, S.take,
      by simp only [lockSysStep, ht, hadd, Option.map_some, if_true], h.take_permit ?_ ?_ hp hrep ?_⟩
    · rw [ht]
      exact ⟨id, plain_acquiring .blocking (by decide) was⟩
    · simp [Owns, Published, Saved]
    · exact fun w hw => h.was_eq t w (by rw [ht]; exact hw)
  · have hz := Nat.eq_zero_of_not_pos hp
    obtain ⟨sem', next', hadd, hrep, -⟩ := h.rep.add_zero hz htw
    exact ⟨_, S.wait t hz, by simp only [lockSysStep, ht, hadd, Option.map_some]; rfl,
      h.queue_waiter ht hz hrep⟩

/-- An owner that has not published the lock: `is_held` is clear. -/
theorem held_false (h : s.Abs S) (ht₀ : (s.pc t).Owns) (hnp : ¬(s.pc t).Published) :
    s.lock.isHeld = false := by
  rw [← Bool.not_eq_true, h.held_iff]
  rintro ⟨u, hu⟩
  obtain rfl := h.eq_of_owns ht₀ (owns_of_published hu)
  exact hnp hu

theorem resume (h : s.Abs S) {was : Bool} (ht : s.pc t = .acquiring .woken was) :
    ∃ s' S', lockSysStep s (.resume t) = some s' ∧ s'.Abs S' := by
  have ht₀ : (s.pc t).Owns := by rw [ht]; trivial
  refine ⟨{ s with pc := Function.update s.pc t (.granted was) }, S,
    by simp only [lockSysStep, ht], h.move_owner ht₀ (.granted was) trivial rfl ?_ (fun e => absurd e id)
      (fun w hw => h.was_eq t w (by rw [ht]; exact hw))⟩
  rw [h.held_false ht₀ (by rw [ht]; exact id)]
  exact ⟨fun e => absurd e Bool.false_ne_true, fun e => absurd e id⟩

/-- `lock->preempt = was_preempt`, once the thread owns the permit. -/
theorem savePreempt (h : s.Abs S) {was : Bool} (ht : s.pc t = .granted was) :
    ∃ s' S', lockSysStep s (.savePreempt t) = some s' ∧ s'.Abs S' := by
  have ht₀ : (s.pc t).Owns := by rw [ht]; trivial
  refine ⟨{ s with lock := { s.lock with preempt := was }, pc := Function.update s.pc t .saved },
    S, by simp only [lockSysStep, ht], h.move_owner ht₀ .saved trivial rfl ?_
      (fun _ => h.was_eq t was (by rw [ht]; rfl)) (fun w hw => absurd hw (by simp [LockPc.was]))⟩
  show s.lock.isHeld = true ↔ _
  rw [h.held_false ht₀ (by rw [ht]; exact id)]
  exact ⟨fun e => absurd e Bool.false_ne_true, fun e => absurd e id⟩

theorem setHeld (h : s.Abs S) (ht : s.pc t = .saved) :
    ∃ s' S', lockSysStep s (.setHeld t) = some s' ∧ s'.Abs S' :=
  ⟨_, S, rfl, h.move_owner (by rw [ht]; trivial) .holding trivial rfl ⟨fun _ => trivial, fun _ => rfl⟩
    (fun _ => h.preempt_eq t (by rw [ht]; trivial)) (fun w hw => absurd hw (by simp [LockPc.was]))⟩

/-- The assert of `blocking_lock_release` holds for the holder. -/
theorem check (h : s.Abs S) (ht : s.pc t = .holding) :
    ∃ s' S', lockSysStep s (.check t) = some s' ∧ s'.Abs S' := by
  have hheld : s.lock.isHeld = true := h.held_iff.mpr ⟨t, by rw [ht]; trivial⟩
  refine ⟨{ s with pc := Function.update s.pc t .checked }, S,
    by simp only [lockSysStep, hheld, if_true], h.move_owner (by rw [ht]; trivial) .checked trivial rfl
      ⟨fun _ => trivial, fun _ => hheld⟩ (fun _ => h.preempt_eq t (by rw [ht]; trivial))
      (fun w hw => absurd hw (by simp [LockPc.was]))⟩

/-- The snapshot of `lock->preempt` is the holder's own saved flag. -/
theorem readPreempt (h : s.Abs S) (ht : s.pc t = .checked) :
    ∃ s' S', lockSysStep s (.readPreempt t) = some s' ∧ s'.Abs S' := by
  have hheld : s.lock.isHeld = true := h.held_iff.mpr ⟨t, by rw [ht]; trivial⟩
  have hpre : s.lock.preempt = s.saved t := h.preempt_eq t (by rw [ht]; trivial)
  exact ⟨_, S, rfl, h.move_owner (by rw [ht]; trivial) (.read s.lock.preempt) trivial rfl
    ⟨fun _ => trivial, fun _ => hheld⟩ (fun e => absurd e id)
    (fun w hw => (Option.some.inj hw).symm.trans hpre)⟩

theorem clearHeld (h : s.Abs S) {was : Bool} (ht : s.pc t = .read was) :
    ∃ s' S', lockSysStep s (.clearHeld t) = some s' ∧ s'.Abs S' :=
  ⟨{ s with lock := { s.lock with isHeld := false }, pc := Function.update s.pc t (.cleared was) },
    S, by simp only [lockSysStep, ht], h.move_owner (by rw [ht]; trivial) (.cleared was) trivial rfl
      ⟨fun e => absurd e Bool.false_ne_true, fun e => absurd e id⟩ (fun e => absurd e id)
      (fun w hw => h.was_eq t w (by rw [ht]; exact hw))⟩

/-- `sem_up` of the release. -/
theorem up (h : s.Abs S) {was : Bool} (ht : s.pc t = .cleared was) :
    ∃ s' S', lockSysStep s (.up t) = some s' ∧ s'.Abs S' := by
  -- the lock's count is one at most, far from `INT_MAX`
  obtain ⟨hnode, hrep, -⟩ := h.rep.up (by have := h.permits_le; omega)
  rw [CountingSem.give_fst] at hnode
  cases hw : S.waiters with
  | nil =>
    have hr : (semUp s.lock.semaphore s.next).1 = none := by rw [hnode, hw]; rfl
    exact ⟨_, S.give.2, by simp only [lockSysStep, ht, hr], h.release_free ht hw hrep⟩
  | cons w ws =>
    have hr : (semUp s.lock.semaphore s.next).1 = some w := by rw [hnode, hw]; rfl
    exact ⟨_, S.give.2, by simp only [lockSysStep, ht, hr], h.release_handoff ht hw hrep⟩

/-- `preemption_restore(was_preempt)`. -/
theorem restore (h : s.Abs S) {was : Bool} (ht : s.pc t = .restoring was) :
    ∃ s' S', lockSysStep s (.restore t) = some s' ∧ s'.Abs S' :=
  ⟨_, S, by simp only [lockSysStep, ht], h.move_plain (ht ▸ plain_restoring was) plain_outside rfl
    h.rep (h.waiting_update_of_not (by rw [ht]; exact id) id) (fun _ _ => rfl)
    (fun w hw => absurd hw (by simp [LockPc.was])) (preemptionRestore s.canPreempt t was)⟩

/-- Every enabled step succeeds and keeps the invariant. -/
theorem step (h : s.Abs S) {op : LockOp τ} (hen : op.Enabled s) :
    ∃ s' S', lockSysStep s op = some s' ∧ s'.Abs S' := by
  cases op with
  | disable t => exact h.disable hen
  | down t => obtain ⟨_, ht⟩ := hen; exact h.down ht
  | add t => obtain ⟨_, ht⟩ := hen; exact h.add ht
  | resume t => obtain ⟨_, ht⟩ := hen; exact h.resume ht
  | savePreempt t => obtain ⟨_, ht⟩ := hen; exact h.savePreempt ht
  | setHeld t => exact h.setHeld hen
  | check t => exact h.check hen
  | readPreempt t => exact h.readPreempt hen
  | clearHeld t => obtain ⟨_, ht⟩ := hen; exact h.clearHeld ht
  | up t => obtain ⟨_, ht⟩ := hen; exact h.up ht
  | restore t => obtain ⟨_, ht⟩ := hen; exact h.restore ht

end Step

end LockSys.Abs

theorem LockSys.Abs.of_reachable {s : LockSys τ} (hs : s.Reachable) : ∃ S, s.Abs S := by
  induction hs with
  | init next canPreempt saved => exact ⟨_, LockSys.Abs.init next canPreempt saved⟩
  | step op _ hen hstep ih =>
    obtain ⟨S, hS⟩ := ih
    obtain ⟨s', S', hstep', hS'⟩ := hS.step hen
    rw [hstep] at hstep'
    exact ⟨S', Option.some.inj hstep' ▸ hS'⟩

/-- From every state a run from `blocking_lock_init(lock)` reaches: at most one thread has the
permit, from its grant to its `sem_up`, and the count is zero exactly while one has it; `is_held`
is set exactly while a holder is between its write of the flag and its clear; `lock->preempt`
is the holder's saved flag while stored, and every release restores the flag its thread had
when it called `blocking_lock_acquire`; and no enabled step fails: the assert of
`blocking_lock_release` holds for the holder and `queue_add` never follows a `NULL` tail. -/
theorem blocking_lock_safety {s : LockSys τ} (hs : s.Reachable) :
    (∀ t u, (s.pc t).Owns → (s.pc u).Owns → t = u) ∧
    (s.lock.semaphore.count = 0 ↔ ∃ t, (s.pc t).Owns) ∧
    (s.lock.isHeld = true ↔ ∃ t, (s.pc t).Published) ∧
    (∀ t, (s.pc t).Saved → s.lock.preempt = s.saved t) ∧
    (∀ t was, s.pc t = .restoring was → was = s.saved t) ∧
    ∀ op : LockOp τ, op.Enabled s → ∃ s', lockSysStep s op = some s' := by
  obtain ⟨S, hS⟩ := LockSys.Abs.of_reachable hs
  refine ⟨fun t u ht hu => (hS.eq_of_owns ht hu).symm, ⟨fun hz => hS.owned ?_,
    fun ⟨t, ht⟩ => ?_⟩, hS.held_iff, hS.preempt_eq, fun t was ht => hS.was_eq t was ?_,
    fun op hen => ?_⟩
  · rw [hS.rep.count] at hz
    exact_mod_cast hz
  · rw [hS.rep.count, (hS.owner t ht).1]
    rfl
  · rw [ht]
    rfl
  · obtain ⟨s', -, hstep, -⟩ := hS.step hen
    exact ⟨s', hstep⟩

/-- Thread `0` takes a fresh lock and publishes `is_held`; thread `1` then finds no permit and
queues on the semaphore behind it. -/
theorem blocking_lock_safety_holder_and_waiter :
    ∃ s : LockSys (Fin 2), s.Reachable ∧ s.pc 0 = .holding ∧ s.pc 1 = .acquiring .waiting true ∧
    (∀ t u, (s.pc t).Owns → (s.pc u).Owns → t = u) ∧
    (s.lock.semaphore.count = 0 ↔ ∃ t, (s.pc t).Owns) ∧
    (s.lock.isHeld = true ↔ ∃ t, (s.pc t).Published) ∧
    (∀ t, (s.pc t).Saved → s.lock.preempt = s.saved t) ∧
    (∀ t was, s.pc t = .restoring was → was = s.saved t) ∧
    ∀ op : LockOp (Fin 2), op.Enabled s → ∃ s', lockSysStep s op = some s' := by
  have hs : @LockSys.Reachable (Fin 2) _ _ :=
    .step (.add 1) (.step (.down 1) (.step (.disable 1) (.step (.setHeld 0) (.step (.savePreempt 0)
      (.step (.down 0) (.step (.disable 0) (.init (fun _ => none) (fun _ => true) (fun _ => true))
      rfl rfl) (.intro true rfl) rfl) (.intro true rfl) rfl) rfl rfl) rfl rfl) (.intro true rfl) rfl)
      (.intro true rfl) rfl
  exact ⟨_, hs, rfl, rfl, blocking_lock_safety hs⟩

end DioptaseOS.Sync
