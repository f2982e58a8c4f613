import Mathlib
import DioptaseOS.Sync.Semaphore
import DioptaseOS.Lib.ArrivalOrder

/-!
# The kernel's reader-writer locks

`rw_lock.c` keeps a count of readers, a writer flag and two wait queues, of readers and of
writers, under a CLH lock, and prefers writers. A reader enters while no writer is active or
queued, a writer while no writer is active and no reader holds the lock; otherwise the thread
drops the lock and calls `block`, whose callback `rw_add_reader` or `rw_add_writer` checks once
more under the lock and queues the thread only if it still may not enter. The last reader out
hands the lock to the first queued writer. A writer out hands it to the next queued writer, or,
with none queued, claims a read slot for every queued reader, takes the whole reader queue off,
and wakes its threads one by one after it has dropped the lock.

Each section between `clh_lock_acquire` and `clh_lock_release` is one step here, and so is each
round of the wake loop of `rw_lock_release_write`, which runs outside the lock. The readers it
has claimed are off the queue but not yet woken: the invariant follows them as the rest of the
chain the loop walks. From every reachable state, with fewer threads than an `unsigned` counts,
at most one thread writes and none reads meanwhile; `readers` counts the threads reading and the
claimed readers not yet woken; a queued writer waits only while the lock is held and a queued
reader only behind a writer; and no step fires an assert or follows a `NULL` pointer.

## Main definitions

* `RwLock`, `rwLockInit`, `rwLockAcquireRead`, `rwAddReader`, `rwLockReleaseRead`,
  `rwLockAcquireWrite`, `rwAddWriter`, `rwLockReleaseWrite`, `wakeReader`, `rwLockDestroy`
* `RwPc`, `RwSys`, `RwOp`, `rwSysStep`, `RwSys.Reachable` — threads calling the lock
* `RwAbs`, `QueuesOk`, `PlacesOk`, `RwSys.Abs` — the lists the lock and its threads store

## Main results

* `rwLockDestroy_rep` — `rw_lock_destroy` moves the queued readers, then the queued writers, to
  the reaper queue
* `RwSys.Abs.step`, `RwSys.Abs.of_reachable` — the invariant of the threads and the lock
* `rw_lock_safety` — every reachable state
-/

namespace DioptaseOS.Sync

open PtrList Queue

variable {τ : Type*} [DecidableEq τ]

/-! ### The code -/

/-- `struct RwLock`: the queues of waiting readers and writers, the `unsigned` count of readers
and the writer flag. Its CLH lock is the atomicity of each step. -/
structure RwLock (τ : Type*) where
  waitingReaders : LinkedQueue τ
  waitingWriters : LinkedQueue τ
  readers : ℕ
  writerActive : Bool

/-- `rw_lock_init(rwlock)`. -/
def rwLockInit : RwLock τ := ⟨queueInit, queueInit, 0, false⟩

/-- The section of `rw_lock_acquire_read` under the lock: a read slot taken, or `none` when the
thread must `block`. -/
def rwLockAcquireRead (rw : RwLock τ) : Option (RwLock τ) :=
  if rw.writerActive = false ∧ rw.waitingWriters.size = 0 then
    some { rw with readers := (rw.readers + 1) % 2 ^ 32 }
  else none

/-- `rw_add_reader(args)`, the callback of `block`: a read slot taken and the thread woken
(`true`), or the thread queued (`false`). `none` when `queue_add` would follow a `NULL` tail. -/
def rwAddReader (rw : RwLock τ) (next : τ → Option τ) (tcb : τ) :
    Option (RwLock τ × (τ → Option τ) × Bool) :=
  if rw.writerActive = false ∧ rw.waitingWriters.size = 0 then
    some ({ rw with readers := (rw.readers + 1) % 2 ^ 32 }, next, true)
  else
    (queueAdd rw.waitingReaders next tcb).map fun r => ({ rw with waitingReaders := r.1 }, r.2, false)

/-- `rw_lock_release_read(rwlock)`: the last reader out wakes the first queued writer, which is
returned. `none` when the assert on `readers` fires, or `scheduler_wake_thread` is given
`NULL`. -/
def rwLockReleaseRead (rw : RwLock τ) (next : τ → Option τ) :
    Option (RwLock τ × (τ → Option τ) × Option τ) :=
  if 0 < rw.readers then
    let readers := rw.readers - 1
    if readers = 0 ∧ 0 < rw.waitingWriters.size then
      let r := queueRemove rw.waitingWriters next
      r.1.map fun writer =>
        ({ rw with readers, waitingWriters := r.2.1, writerActive := true }, r.2.2, some writer)
    else some ({ rw with readers }, next, none)
  else none

/-- `rw_add_writer(args)`, the callback of `block`: the lock taken and the thread woken
(`true`), or the thread queued (`false`). -/
def rwAddWriter (rw : RwLock τ) (next : τ → Option τ) (tcb : τ) :
    Option (RwLock τ × (τ → Option τ) × Bool) :=
  if rw.writerActive = false ∧ rw.readers = 0 then
    some ({ rw with writerActive := true }, next, true)
  else
    (queueAdd rw.waitingWriters next tcb).map fun r => ({ rw with waitingWriters := r.1 }, r.2, false)

/-- The section of `rw_lock_acquire_write` under the lock. -/
def rwLockAcquireWrite (rw : RwLock τ) : Option (RwLock τ) :=
  if rw.writerActive = false ∧ rw.readers = 0 then some { rw with writerActive := true } else none

/-- Whom `rw_lock_release_write` wakes: the next writer, or the chain of the readers it took
off the queue, woken after the lock is dropped. -/
inductive RwWake (τ : Type*)
  | writer (w : τ)
  | readers (chain : Option τ)

/-- `rw_lock_release_write(rwlock)` up to its wake loop: the next writer takes the lock, or
every queued reader gets a read slot and the queue is taken off whole. `none` when the assert on
`writer_active` fires, or `scheduler_wake_thread` is given `NULL`. -/
def rwLockReleaseWrite (rw : RwLock τ) (next : τ → Option τ) :
    Option (RwLock τ × (τ → Option τ) × RwWake τ) :=
  if rw.writerActive then
    let rw := { rw with writerActive := false }
    if 0 < rw.waitingWriters.size then
      let r := queueRemove rw.waitingWriters next
      r.1.map fun writer =>
        ({ rw with waitingWriters := r.2.1, writerActive := true }, r.2.2, .writer writer)
    else
      let wakeCount := queueSize rw.waitingReaders
      let r := queueRemoveAll rw.waitingReaders
      some ({ rw with waitingReaders := r.2, readers := (rw.readers + wakeCount) % 2 ^ 32 }, next,
        .readers r.1)
  else none

/-- One round of the wake loop of `rw_lock_release_write` at `reader`: its `next` field read,
then cleared. The reader is woken next, and the loop goes on at the field read. -/
def wakeReader (next : τ → Option τ) (reader : τ) : (τ → Option τ) × Option τ :=
  (Function.update next reader none, next reader)

/-- `rw_lock_destroy(rwlock)`: both queues taken off under the lock and walked to the reaper
queue, the readers first. Each queue's count bounds its walk. -/
def rwLockDestroy (rw : RwLock τ) (next : τ → Option τ) (reaper : LinkedQueue τ) :
    Option (LinkedQueue τ × (τ → Option τ)) :=
  (reapLoop rw.waitingReaders.size.toNat (queueRemoveAll rw.waitingReaders).1 reaper next).bind
    fun r => reapLoop rw.waitingWriters.size.toNat (queueRemoveAll rw.waitingWriters).1 r.1 r.2

/-! ### The lists a lock stores -/

/-- The lists of a lock and its threads: the queued readers and writers, the readers a writer's
wake loop has claimed a slot for and not yet woken, and the threads reading. -/
structure RwAbs (τ : Type*) where
  readersQueue : List τ
  writersQueue : List τ
  claimed : List τ
  active : List τ

/-- The two queues store the lists `R` and `W`, and the claimed readers `C` are the chain from
their head; no thread is on two of the lists. -/
structure QueuesOk (readersQ writersQ : LinkedQueue τ) (next : τ → Option τ) (R W C : List τ) :
    Prop where
  readers : QueueRep readersQ next R
  writers : QueueRep writersQ next W
  claimed : Singly next C.head? C
  disjoint_rw : R.Disjoint W
  disjoint_rc : R.Disjoint C
  disjoint_wc : W.Disjoint C

/-- `rw_lock_destroy` appends the queued readers, then the queued writers, each in the order
they queued, to a reaper queue that holds none of them. -/
theorem rwLockDestroy_rep {rw : RwLock τ} {next : τ → Option τ} {R W C : List τ}
    (h : QueuesOk rw.waitingReaders rw.waitingWriters next R W C) {reaper : LinkedQueue τ}
    {r : List τ} (hr : QueueRep reaper next r) (hdR : R.Disjoint r) (hdW : W.Disjoint r) :
    ∃ reaper' next', rwLockDestroy rw next reaper = some (reaper', next') ∧
      QueueRep reaper' next' (r ++ R ++ W) := by
  have hfR : R.length ≤ rw.waitingReaders.size.toNat := by
    rw [h.readers.size]
    omega
  have hfW : W.length ≤ rw.waitingWriters.size.toNat := by
    rw [h.writers.size]
    omega
  obtain ⟨reaper₁, next₁, hloop₁, hrep₁, hframe₁⟩ :=
    reapLoop_rep h.readers.removeAll.2.2 hr hdR hfR
  -- the writers' chain keeps its links: the first loop wrote the readers' and reaper's nodes
  have hW : Singly next₁ (queueRemoveAll rw.waitingWriters).1 W :=
    h.writers.removeAll.2.2.congr fun x hx =>
      hframe₁ x (fun hxR => h.disjoint_rw hxR hx) (fun hxr => hdW hx hxr)
  obtain ⟨reaper', next', hloop, hrep', -⟩ := reapLoop_rep hW hrep₁
    (fun x hxW hxr => (List.mem_append.mp hxr).elim (hdW hxW) (fun hxR => h.disjoint_rw hxR hxW))
    hfW
  exact ⟨reaper', next', by rw [rwLockDestroy, hloop₁, Option.bind_some, hloop], hrep'⟩

/-! ### Threads calling the lock -/

/-- Where a thread is: outside the lock (`idle`); between a failed check and the callback of
`block` (`readBlocking`, `writeBlocking`); blocked, on a queue or on the chain a wake loop still
walks (`readWaiting`, `writeWaiting`); holding the lock, woken or not yet back from `block`
(`reading`, `writing`); or in the wake loop of `rw_lock_release_write` at the reader `cur`
(`waking`). -/
inductive RwPc (τ : Type*)
  | idle
  | readBlocking
  | readWaiting
  | reading
  | writeBlocking
  | writeWaiting
  | writing
  | waking (cur : Option τ)
  deriving DecidableEq

/-- A thread in the wake loop. -/
def RwPc.isWaking : RwPc τ → Bool
  | .waking _ => true
  | _ => false

/-- A place no list of the lock holds: outside, before a callback, or past the end of the wake
loop's chain. -/
def RwPc.Quiet : RwPc τ → Prop
  | .idle | .readBlocking | .writeBlocking | .waking none => True
  | _ => False

/-- The lock, the threads' `next` fields, and where each thread is. `clock` counts the callbacks
of `block` run so far and `arrival` says when each thread last ran one: both are ghost state,
the time a thread queued. -/
structure RwSys (τ : Type*) where
  rw : RwLock τ
  next : τ → Option τ
  pc : τ → RwPc τ
  clock : ℕ
  arrival : τ → ℕ

/-- The steps: the sections of `rw_lock_acquire_read`, `rw_add_reader`, `rw_lock_release_read`
and their writer siblings, and one round of the wake loop of `rw_lock_release_write`. -/
inductive RwOp (τ : Type*)
  | acquireRead (t : τ)
  | addReader (t : τ)
  | releaseRead (t : τ)
  | acquireWrite (t : τ)
  | addWriter (t : τ)
  | releaseWrite (t : τ)
  | wake (t : τ)

/-- Where the thread must be for the step. -/
def RwOp.Enabled (s : RwSys τ) : RwOp τ → Prop
  | .acquireRead t => s.pc t = .idle
  | .addReader t => s.pc t = .readBlocking
  | .releaseRead t => s.pc t = .reading
  | .acquireWrite t => s.pc t = .idle
  | .addWriter t => s.pc t = .writeBlocking
  | .releaseWrite t => s.pc t = .writing
  | .wake t => (s.pc t).isWaking

instance RwOp.instDecidableEnabled (s : RwSys τ) : (op : RwOp τ) → Decidable (op.Enabled s)
  | .acquireRead t => inferInstanceAs (Decidable (s.pc t = .idle))
  | .addReader t => inferInstanceAs (Decidable (s.pc t = .readBlocking))
  | .releaseRead t => inferInstanceAs (Decidable (s.pc t = .reading))
  | .acquireWrite t => inferInstanceAs (Decidable (s.pc t = .idle))
  | .addWriter t => inferInstanceAs (Decidable (s.pc t = .writeBlocking))
  | .releaseWrite t => inferInstanceAs (Decidable (s.pc t = .writing))
  | .wake t => inferInstanceAs (Decidable ((s.pc t).isWaking = true))

/-- One step. The thread a section wakes is woken in the same step: `scheduler_wake_thread`
after the lock touches no state of the lock. `none` when an assert fires or a `NULL` pointer is
followed. -/
def rwSysStep (s : RwSys τ) : RwOp τ → Option (RwSys τ)
  | .acquireRead t =>
    match rwLockAcquireRead s.rw with
    | some rw => some { s with rw, pc := Function.update s.pc t .reading }
    | none => some { s with pc := Function.update s.pc t .readBlocking }
  | .addReader t =>
    (rwAddReader s.rw s.next t).map fun r =>
      { s with rw := r.1, next := r.2.1,
               pc := Function.update s.pc t (if r.2.2 then .reading else .readWaiting),
               clock := s.clock + 1, arrival := Function.update s.arrival t s.clock }
  | .releaseRead t =>
    (rwLockReleaseRead s.rw s.next).map fun r =>
      let pc := Function.update s.pc t .idle
      { s with rw := r.1, next := r.2.1,
               pc := match r.2.2 with
                 | some w => Function.update pc w .writing
                 | none => pc }
  | .acquireWrite t =>
    match rwLockAcquireWrite s.rw with
    | some rw => some { s with rw, pc := Function.update s.pc t .writing }
    | none => some { s with pc := Function.update s.pc t .writeBlocking }
  | .addWriter t =>
    (rwAddWriter s.rw s.next t).map fun r =>
      { s with rw := r.1, next := r.2.1,
               pc := Function.update s.pc t (if r.2.2 then .writing else .writeWaiting),
               clock := s.clock + 1, arrival := Function.update s.arrival t s.clock }
  | .releaseWrite t =>
    (rwLockReleaseWrite s.rw s.next).map fun r =>
      { s with rw := r.1, next := r.2.1,
               pc := match r.2.2 with
                 | .writer w => Function.update (Function.update s.pc t .idle) w .writing
                 | .readers chain => Function.update s.pc t (.waking chain) }
  | .wake t =>
    match s.pc t with
    | .waking (some r) =>
      let w := wakeReader s.next r
      some { s with next := w.1,
                    pc := Function.update (Function.update s.pc r .reading) t (.waking w.2) }
    | .waking none => some { s with pc := Function.update s.pc t .idle }
    | _ => none

/-- The states of the runs from `rw_lock_init` with every thread outside, over any `next`
fields. -/
inductive RwSys.Reachable : RwSys τ → Prop
  | init (next : τ → Option τ) : RwSys.Reachable ⟨rwLockInit, next, fun _ => .idle, 0, fun _ => 0⟩
  | step {s s' : RwSys τ} (op : RwOp τ) : RwSys.Reachable s → op.Enabled s →
      rwSysStep s op = some s' → RwSys.Reachable s'

/-! ### Where the threads are -/

/-- The chain of claimed readers is walked by one thread, standing at its head; any other thread
in the wake loop is past the end of its own chain. -/
structure WalkerOk (pc : τ → RwPc τ) (claimed : List τ) : Prop where
  at_head : ∀ u c, pc u = .waking (some c) → claimed.head? = some c
  unique : ∀ u v c c', pc u = .waking (some c) → pc v = .waking (some c') → u = v
  exists_of_ne_nil : claimed ≠ [] → ∃ u, pc u = .waking claimed.head?

/-- The places of the threads match the lists: the threads waiting to read are the queued and
the claimed readers, the threads waiting to write the queued writers, the readers the active
list; at most one thread writes, and the wake loop is as `WalkerOk` says. -/
structure PlacesOk (pc : τ → RwPc τ) (A : RwAbs τ) : Prop where
  readWaiting_iff : ∀ u, pc u = .readWaiting ↔ u ∈ A.readersQueue ∨ u ∈ A.claimed
  writeWaiting_iff : ∀ u, pc u = .writeWaiting ↔ u ∈ A.writersQueue
  reading_iff : ∀ u, pc u = .reading ↔ u ∈ A.active
  active_nodup : A.active.Nodup
  writer_unique : ∀ u v, pc u = .writing → pc v = .writing → u = v
  walker : WalkerOk pc A.claimed

/-- The threads and the lock store `A`: the queues and places hold its lists, `readers` counts
the readers active or claimed, the writer flag says whether a thread writes, a writer excludes
every reader, a queued writer waits only while the lock is held, and a queued reader only behind
a writer; the queues and the claimed chain hold their threads in the order they queued. -/
structure RwSys.Abs (s : RwSys τ) (A : RwAbs τ) : Prop where
  queues : QueuesOk s.rw.waitingReaders s.rw.waitingWriters s.next A.readersQueue
    A.writersQueue A.claimed
  places : PlacesOk s.pc A
  readers_eq : s.rw.readers = A.active.length + A.claimed.length
  writer_iff : s.rw.writerActive = true ↔ ∃ u, s.pc u = .writing
  exclusive : s.rw.writerActive = true → s.rw.readers = 0
  writers_wait : A.writersQueue ≠ [] → s.rw.writerActive = true ∨ 0 < s.rw.readers
  readers_wait : A.readersQueue ≠ [] → s.rw.writerActive = true ∨ A.writersQueue ≠ []
  readers_order : ArrivalOrder s.clock s.arrival A.readersQueue
  writers_order : ArrivalOrder s.clock s.arrival A.writersQueue
  claimed_order : ArrivalOrder s.clock s.arrival A.claimed

/-! ### Moves of one thread -/

section Update

variable {β : Type*} {pc : τ → β} {t : τ} {p : β}

/-- After one thread moves, a place holds the threads of a membership `M'` that agrees with the
old one `M` away from the moving thread. -/
theorem eq_iff_update {q : β} {M M' : τ → Prop} (h : ∀ u, pc u = q ↔ M u)
    (hM : ∀ u, u ≠ t → (M' u ↔ M u)) (ht : p = q ↔ M' t) (u : τ) :
    Function.update pc t p u = q ↔ M' u := by
  by_cases hu : u = t
  · subst hu
    rw [Function.update_self, ht]
  · rw [Function.update_of_ne hu, h u, hM u hu]

/-- A move that neither leaves nor enters a place keeps whether someone is there. -/
theorem exists_update_eq_iff {q : β} (ht : pc t ≠ q) (hp : p ≠ q) :
    (∃ u, Function.update pc t p u = q) ↔ ∃ u, pc u = q := by
  have hkeep : ∀ u, Function.update pc t p u = q ↔ pc u = q :=
    eq_iff_update (fun _ => Iff.rfl) (fun _ _ => Iff.rfl) (iff_of_false hp ht)
  simp only [hkeep]

/-- A move to another place leaves a place empty when no other thread is there. -/
theorem update_ne {q : β} (hp : p ≠ q) (h : ∀ u, u ≠ t → pc u ≠ q) (u : τ) :
    Function.update pc t p u ≠ q := by
  by_cases hut : u = t
  · rw [hut, Function.update_self]
    exact hp
  · rw [Function.update_of_ne hut]
    exact h u hut

/-- A place of one thread at most keeps that after a move into it only when it is empty. -/
theorem unique_update {q : β} (h : ∀ u v, pc u = q → pc v = q → u = v)
    (hp : p = q → ∀ u, u ≠ t → pc u ≠ q) (u v : τ) :
    Function.update pc t p u = q → Function.update pc t p v = q → u = v := by
  intro hu hv
  by_cases hut : u = t
  · by_cases hvt : v = t
    · exact hut.trans hvt.symm
    · rw [hut, Function.update_self] at hu
      rw [Function.update_of_ne hvt] at hv
      exact absurd hv (hp hu v hvt)
  · rw [Function.update_of_ne hut] at hu
    by_cases hvt : v = t
    · rw [hvt, Function.update_self] at hv
      exact absurd hu (hp hv u hut)
    · rw [Function.update_of_ne hvt] at hv
      exact h u v hu hv

end Update

namespace RwPc

omit [DecidableEq τ] in
theorem Quiet.ne {p : RwPc τ} (hp : p.Quiet) :
    p ≠ .readWaiting ∧ p ≠ .writeWaiting ∧ p ≠ .reading ∧ p ≠ .writing ∧
      ∀ c, p ≠ .waking (some c) := by
  cases p with
  | waking cur => cases cur <;> simp_all [Quiet]
  | _ => simp_all [Quiet]

omit [DecidableEq τ] in
theorem isWaking_iff {p : RwPc τ} : p.isWaking = true ↔ ∃ cur, p = .waking cur := by
  cases p <;> simp [isWaking]

end RwPc

namespace WalkerOk

variable {pc : τ → RwPc τ} {C : List τ} {t r : τ} {p : RwPc τ}

/-- A move of a thread outside the wake loop, to a place outside it. -/
theorem update (h : WalkerOk pc C) (ht : ∀ c, pc t ≠ .waking (some c))
    (hp : ∀ c, p ≠ .waking (some c)) : WalkerOk (Function.update pc t p) C := by
  have hw : ∀ u c, Function.update pc t p u = .waking (some c) → u ≠ t ∧
      pc u = .waking (some c) := by
    intro u c hu
    by_cases hut : u = t
    · rw [hut, Function.update_self] at hu
      exact absurd hu (hp c)
    · rw [Function.update_of_ne hut] at hu
      exact ⟨hut, hu⟩
  refine ⟨fun u c hu => h.at_head u c (hw u c hu).2, fun u v c c' hu hv =>
    h.unique u v c c' (hw u c hu).2 (hw v c' hv).2, fun hC => ?_⟩
  obtain ⟨u, hu⟩ := h.exists_of_ne_nil hC
  obtain ⟨c, hc⟩ := Option.ne_none_iff_exists'.mp (mt List.head?_eq_none_iff.mp hC)
  have hut : u ≠ t := fun e => ht c (e ▸ hc ▸ hu)
  exact ⟨u, by rw [Function.update_of_ne hut]; exact hu⟩

/-- A writer enters the wake loop at the head of the readers it took off the queue, with no
chain being walked. -/
theorem start (h : WalkerOk pc []) (l : List τ) :
    WalkerOk (Function.update pc t (.waking l.head?)) l := by
  have hw : ∀ u c, Function.update pc t (.waking l.head?) u = .waking (some c) →
      u = t ∧ l.head? = some c := by
    intro u c hu
    by_cases hut : u = t
    · rw [hut, Function.update_self] at hu
      exact ⟨hut, RwPc.waking.inj hu⟩
    · rw [Function.update_of_ne hut] at hu
      exact absurd (h.at_head u c hu) (by simp)
  exact ⟨fun u c hu => (hw u c hu).2, fun u v c c' hu hv => (hw u c hu).1.trans (hw v c' hv).1.symm,
    fun _ => ⟨t, Function.update_self ..⟩⟩

/-- The walker wakes the reader at its place and goes on to the next one. -/
theorem advance (h : WalkerOk pc (r :: C)) (ht : pc t = .waking (some r)) :
    WalkerOk (Function.update (Function.update pc r .reading) t (.waking C.head?)) C := by
  have hw : ∀ u c, Function.update (Function.update pc r .reading) t (.waking C.head?) u =
      .waking (some c) → u = t ∧ C.head? = some c := by
    intro u c hu
    by_cases hut : u = t
    · rw [hut, Function.update_self] at hu
      exact ⟨hut, RwPc.waking.inj hu⟩
    · rw [Function.update_of_ne hut] at hu
      by_cases hur : u = r
      · rw [hur, Function.update_self] at hu
        exact nomatch hu
      · rw [Function.update_of_ne hur] at hu
        exact absurd (h.unique u t c r hu ht) hut
  exact ⟨fun u c hu => (hw u c hu).2, fun u v c c' hu hv => (hw u c hu).1.trans (hw v c' hv).1.symm,
    fun _ => ⟨t, Function.update_self ..⟩⟩

end WalkerOk

namespace PlacesOk

variable {pc : τ → RwPc τ} {A : RwAbs τ} {t w r : τ}

omit [DecidableEq τ] in
theorem not_mem_readers (h : PlacesOk pc A) (t : τ) (ht : pc t ≠ .readWaiting) :
    t ∉ A.readersQueue ∧ t ∉ A.claimed :=
  ⟨fun hm => ht ((h.readWaiting_iff t).mpr (.inl hm)),
    fun hm => ht ((h.readWaiting_iff t).mpr (.inr hm))⟩

omit [DecidableEq τ] in
theorem not_mem_writers (h : PlacesOk pc A) (t : τ) (ht : pc t ≠ .writeWaiting) :
    t ∉ A.writersQueue :=
  fun hm => ht ((h.writeWaiting_iff t).mpr hm)

omit [DecidableEq τ] in
theorem not_mem_active (h : PlacesOk pc A) (t : τ) (ht : pc t ≠ .reading) : t ∉ A.active :=
  fun hm => ht ((h.reading_iff t).mpr hm)

omit [DecidableEq τ] in
/-- The readers active and claimed are different threads. -/
theorem holders_nodup (h : PlacesOk pc A) (hC : A.claimed.Nodup) :
    (A.active ++ A.claimed).Nodup := by
  refine h.active_nodup.append hC fun u hua huc => ?_
  have h₁ : pc u = .reading := (h.reading_iff u).mpr hua
  have h₂ : pc u = .readWaiting := (h.readWaiting_iff u).mpr (.inr huc)
  exact nomatch h₁.symm.trans h₂

omit [DecidableEq τ] in
/-- With fewer threads than an `unsigned` counts, so are the readers active and claimed. -/
theorem holders_lt [Fintype τ] (hτ : Fintype.card τ < 2 ^ 32) (h : PlacesOk pc A)
    (hC : A.claimed.Nodup) : A.active.length + A.claimed.length < 2 ^ 32 := by
  have := (h.holders_nodup hC).length_le_card
  rw [List.length_append] at this
  omega

/-- A quiet thread moves to another quiet place. -/
theorem quiet (h : PlacesOk pc A) (ht : (pc t).Quiet) (p : RwPc τ) (hp : p.Quiet) :
    PlacesOk (Function.update pc t p) A := by
  obtain ⟨htr, htc⟩ := h.not_mem_readers t ht.ne.1
  obtain ⟨hp₁, hp₂, hp₃, hp₄, hp₅⟩ := hp.ne
  refine ⟨eq_iff_update h.readWaiting_iff (fun _ _ => Iff.rfl) (by simp [hp₁, htr, htc]),
    eq_iff_update h.writeWaiting_iff (fun _ _ => Iff.rfl)
      (by simp [hp₂, h.not_mem_writers t ht.ne.2.1]),
    eq_iff_update h.reading_iff (fun _ _ => Iff.rfl) (by simp [hp₃, h.not_mem_active t ht.ne.2.2.1]),
    h.active_nodup, unique_update h.writer_unique (fun e => absurd e hp₄),
    h.walker.update ht.ne.2.2.2.2 hp₅⟩

/-- A quiet thread starts reading. -/
theorem enterRead (h : PlacesOk pc A) (ht : (pc t).Quiet) :
    PlacesOk (Function.update pc t .reading) { A with active := t :: A.active } := by
  obtain ⟨htr, htc⟩ := h.not_mem_readers t ht.ne.1
  refine ⟨eq_iff_update h.readWaiting_iff (fun _ _ => Iff.rfl) (by simp [htr, htc]),
    eq_iff_update h.writeWaiting_iff (fun _ _ => Iff.rfl) (by simp [h.not_mem_writers t ht.ne.2.1]),
    eq_iff_update h.reading_iff (fun u hu => by simp [hu]) (by simp),
    List.nodup_cons.mpr ⟨h.not_mem_active t ht.ne.2.2.1, h.active_nodup⟩,
    unique_update h.writer_unique nofun, h.walker.update ht.ne.2.2.2.2 fun _ => nofun⟩

/-- A quiet thread joins the end of the readers' queue. -/
theorem queueReader (h : PlacesOk pc A) (ht : (pc t).Quiet) :
    PlacesOk (Function.update pc t .readWaiting)
      { A with readersQueue := A.readersQueue ++ [t] } := by
  refine ⟨eq_iff_update h.readWaiting_iff (fun u hu => by simp [hu]) (by simp),
    eq_iff_update h.writeWaiting_iff (fun _ _ => Iff.rfl) (by simp [h.not_mem_writers t ht.ne.2.1]),
    eq_iff_update h.reading_iff (fun _ _ => Iff.rfl) (by simp [h.not_mem_active t ht.ne.2.2.1]),
    h.active_nodup, unique_update h.writer_unique nofun,
    h.walker.update ht.ne.2.2.2.2 fun _ => nofun⟩

/-- A quiet thread joins the end of the writers' queue. -/
theorem queueWriter (h : PlacesOk pc A) (ht : (pc t).Quiet) :
    PlacesOk (Function.update pc t .writeWaiting)
      { A with writersQueue := A.writersQueue ++ [t] } := by
  obtain ⟨htr, htc⟩ := h.not_mem_readers t ht.ne.1
  refine ⟨eq_iff_update h.readWaiting_iff (fun _ _ => Iff.rfl) (by simp [htr, htc]),
    eq_iff_update h.writeWaiting_iff (fun u hu => by simp [hu]) (by simp),
    eq_iff_update h.reading_iff (fun _ _ => Iff.rfl) (by simp [h.not_mem_active t ht.ne.2.2.1]),
    h.active_nodup, unique_update h.writer_unique nofun,
    h.walker.update ht.ne.2.2.2.2 fun _ => nofun⟩

/-- A quiet thread starts writing, when no one writes. -/
theorem enterWrite (h : PlacesOk pc A) (ht : (pc t).Quiet) (hfree : ∀ u, pc u ≠ .writing) :
    PlacesOk (Function.update pc t .writing) A := by
  obtain ⟨htr, htc⟩ := h.not_mem_readers t ht.ne.1
  refine ⟨eq_iff_update h.readWaiting_iff (fun _ _ => Iff.rfl) (by simp [htr, htc]),
    eq_iff_update h.writeWaiting_iff (fun _ _ => Iff.rfl) (by simp [h.not_mem_writers t ht.ne.2.1]),
    eq_iff_update h.reading_iff (fun _ _ => Iff.rfl) (by simp [h.not_mem_active t ht.ne.2.2.1]),
    h.active_nodup, unique_update h.writer_unique fun _ u _ => hfree u,
    h.walker.update ht.ne.2.2.2.2 fun _ => nofun⟩

/-- A reader leaves. -/
theorem leaveRead (h : PlacesOk pc A) (ht : pc t = .reading) :
    PlacesOk (Function.update pc t .idle) { A with active := A.active.erase t } := by
  obtain ⟨htr, htc⟩ := h.not_mem_readers t (by simp [ht])
  have hnd := h.active_nodup
  refine ⟨eq_iff_update h.readWaiting_iff (fun _ _ => Iff.rfl) (by simp [htr, htc]),
    eq_iff_update h.writeWaiting_iff (fun _ _ => Iff.rfl)
      (by simp [h.not_mem_writers t (by simp [ht])]),
    eq_iff_update h.reading_iff (fun u hu => by simp [hnd.mem_erase_iff, hu])
      (by simp [hnd.not_mem_erase]),
    hnd.erase t, unique_update h.writer_unique nofun,
    h.walker.update (by simp [ht]) fun _ => nofun⟩

/-- The writer leaves. -/
theorem leaveWrite (h : PlacesOk pc A) (ht : pc t = .writing) :
    PlacesOk (Function.update pc t .idle) A := by
  obtain ⟨htr, htc⟩ := h.not_mem_readers t (by simp [ht])
  refine ⟨eq_iff_update h.readWaiting_iff (fun _ _ => Iff.rfl) (by simp [htr, htc]),
    eq_iff_update h.writeWaiting_iff (fun _ _ => Iff.rfl)
      (by simp [h.not_mem_writers t (by simp [ht])]),
    eq_iff_update h.reading_iff (fun _ _ => Iff.rfl) (by simp [h.not_mem_active t (by simp [ht])]),
    h.active_nodup, unique_update h.writer_unique nofun,
    h.walker.update (by simp [ht]) fun _ => nofun⟩

/-- The first queued writer starts writing, when no one writes. -/
theorem dequeueWriter (h : PlacesOk pc A) {W : List τ} (hW : A.writersQueue = w :: W)
    (hw : w ∉ W) (hfree : ∀ u, pc u ≠ .writing) :
    PlacesOk (Function.update pc w .writing) { A with writersQueue := W } := by
  have hww : pc w = .writeWaiting := (h.writeWaiting_iff w).mpr (hW ▸ List.mem_cons_self)
  obtain ⟨hwr, hwc⟩ := h.not_mem_readers w (by simp [hww])
  refine ⟨eq_iff_update h.readWaiting_iff (fun _ _ => Iff.rfl) (by simp [hwr, hwc]),
    eq_iff_update h.writeWaiting_iff (fun u hu => by simp [hW, hu]) (by simp [hw]),
    eq_iff_update h.reading_iff (fun _ _ => Iff.rfl) (by simp [h.not_mem_active w (by simp [hww])]),
    h.active_nodup, unique_update h.writer_unique fun _ u _ => hfree u,
    h.walker.update (by simp [hww]) fun _ => nofun⟩

/-- The writer takes the readers' queue off whole and enters the wake loop at its head, with no
chain being walked. -/
theorem startWake (h : PlacesOk pc A) (ht : pc t = .writing) (hC : A.claimed = []) :
    PlacesOk (Function.update pc t (.waking A.readersQueue.head?))
      { A with readersQueue := [], claimed := A.readersQueue } := by
  obtain ⟨htr, -⟩ := h.not_mem_readers t (by simp [ht])
  refine ⟨eq_iff_update h.readWaiting_iff (fun u _ => by simp [hC]) (by simp [htr]),
    eq_iff_update h.writeWaiting_iff (fun _ _ => Iff.rfl)
      (by simp [h.not_mem_writers t (by simp [ht])]),
    eq_iff_update h.reading_iff (fun _ _ => Iff.rfl) (by simp [h.not_mem_active t (by simp [ht])]),
    h.active_nodup, unique_update h.writer_unique nofun, (hC ▸ h.walker).start _⟩

/-- The walker wakes the claimed reader at its place, which starts reading. -/
theorem wakeOne (h : PlacesOk pc A) (ht : pc t = .waking (some r)) {C : List τ}
    (hC : A.claimed = r :: C) (hr : r ∉ C) (hrR : r ∉ A.readersQueue) :
    PlacesOk (Function.update (Function.update pc r .reading) t (.waking C.head?))
      { A with claimed := C, active := r :: A.active } := by
  have hrw : pc r = .readWaiting := (h.readWaiting_iff r).mpr (.inr (hC ▸ List.mem_cons_self))
  have hrt : r ≠ t := by
    rintro rfl
    exact nomatch hrw.symm.trans ht
  obtain ⟨htR, htC⟩ := h.not_mem_readers t (by simp [ht])
  have htC' : t ∉ C := fun hm => htC (hC ▸ List.mem_cons_of_mem r hm)
  have hta : t ∉ r :: A.active := by
    simp [Ne.symm hrt, h.not_mem_active t (by simp [ht])]
  -- each field moves the reader first, then the walker
  have hwaiting : ∀ u, Function.update pc r .reading u = .readWaiting ↔
      u ∈ A.readersQueue ∨ u ∈ C :=
    eq_iff_update h.readWaiting_iff (fun u hu => by simp [hC, hu]) (by simp [hrR, hr])
  have hreading : ∀ u, Function.update pc r .reading u = .reading ↔ u ∈ r :: A.active :=
    eq_iff_update h.reading_iff (fun u hu => by simp [hu]) (by simp)
  refine ⟨eq_iff_update hwaiting (fun _ _ => Iff.rfl) (by simp [htR, htC']),
    eq_iff_update (eq_iff_update h.writeWaiting_iff (fun _ _ => Iff.rfl)
      (by simp [h.not_mem_writers r (by simp [hrw])])) (fun _ _ => Iff.rfl)
      (by simp [h.not_mem_writers t (by simp [ht])]),
    eq_iff_update hreading (fun _ _ => Iff.rfl) (by simp [hta]),
    List.nodup_cons.mpr ⟨h.not_mem_active r (by simp [hrw]), h.active_nodup⟩,
    unique_update (unique_update h.writer_unique nofun) nofun,
    (hC ▸ h.walker).advance ht⟩

end PlacesOk

/-! ### The queues -/

namespace QueuesOk

variable {rq wq : LinkedQueue τ} {next : τ → Option τ} {R W C : List τ} {t r w : τ}

/-- `queue_add` of a reader on no list appends it to the readers' queue and keeps the writers'
queue and the claimed chain. -/
theorem addReader (h : QueuesOk rq wq next R W C) (htR : t ∉ R) (htW : t ∉ W) (htC : t ∉ C) :
    ∃ rq' next', queueAdd rq next t = some (rq', next') ∧ QueuesOk rq' wq next' (R ++ [t]) W C := by
  obtain ⟨rq', next', hadd, hrep, hframe⟩ := h.readers.add htR
  refine ⟨rq', next', hadd, hrep,
    h.writers.congr fun x hx => hframe x (fun e => htW (e ▸ hx)) fun hxR => h.disjoint_rw hxR hx,
    h.claimed.congr fun x hx => hframe x (fun e => htC (e ▸ hx)) fun hxR => h.disjoint_rc hxR hx,
    List.disjoint_append_left.mpr ⟨h.disjoint_rw, List.singleton_disjoint.mpr htW⟩,
    List.disjoint_append_left.mpr ⟨h.disjoint_rc, List.singleton_disjoint.mpr htC⟩,
    h.disjoint_wc⟩

/-- `queue_add` of a writer on no list. -/
theorem addWriter (h : QueuesOk rq wq next R W C) (htR : t ∉ R) (htW : t ∉ W) (htC : t ∉ C) :
    ∃ wq' next', queueAdd wq next t = some (wq', next') ∧ QueuesOk rq wq' next' R (W ++ [t]) C := by
  obtain ⟨wq', next', hadd, hrep, hframe⟩ := h.writers.add htW
  refine ⟨wq', next', hadd,
    h.readers.congr fun x hx => hframe x (fun e => htR (e ▸ hx)) fun hxW => h.disjoint_rw hx hxW,
    hrep,
    h.claimed.congr fun x hx => hframe x (fun e => htC (e ▸ hx)) fun hxW => h.disjoint_wc hxW hx,
    List.disjoint_comm.mp
      (List.disjoint_append_left.mpr ⟨h.disjoint_rw.symm, List.singleton_disjoint.mpr htR⟩),
    h.disjoint_rc,
    List.disjoint_append_left.mpr ⟨h.disjoint_wc, List.singleton_disjoint.mpr htC⟩⟩

/-- `queue_remove` on the writers' queue returns its first writer and keeps the rest. -/
theorem removeWriter (h : QueuesOk rq wq next R (w :: W) C) :
    (queueRemove wq next).1 = some w ∧
      QueuesOk rq (queueRemove wq next).2.1 (queueRemove wq next).2.2 R W C := by
  obtain ⟨hnode, hrep, hframe⟩ := h.writers.remove
  refine ⟨hnode, h.readers.congr fun x hx => hframe x fun hxW => h.disjoint_rw hx hxW,
    hrep, h.claimed.congr fun x hx => hframe x fun hxW => h.disjoint_wc hxW hx,
    fun x hxR hxW => h.disjoint_rw hxR (List.mem_cons_of_mem w hxW), h.disjoint_rc,
    fun x hxW hxC => h.disjoint_wc (List.mem_cons_of_mem w hxW) hxC⟩

/-- `queue_remove_all` on the readers' queue makes its readers the claimed chain. -/
theorem removeAllReaders (h : QueuesOk rq wq next R W C) :
    QueuesOk (queueRemoveAll rq).2 wq next [] W R := by
  obtain ⟨-, hempty, hchain⟩ := h.readers.removeAll
  exact ⟨hempty, h.writers, ⟨hchain.nodup, rfl, hchain.next⟩, List.disjoint_nil_left _,
    List.disjoint_nil_left _, h.disjoint_rw.symm⟩

/-- Clearing the `next` field of the first claimed reader leaves the chain of the others. -/
theorem wakeClaimed (h : QueuesOk rq wq next R W (r :: C)) :
    next r = C.head? ∧ QueuesOk rq wq (Function.update next r none) R W C := by
  have hchain : Singly next (some r) (r :: C) := h.claimed
  have hrC : r ∉ C := (List.nodup_cons.mp hchain.nodup).1
  have hrR : r ∉ R := fun hm => h.disjoint_rc hm List.mem_cons_self
  have hrW : r ∉ W := fun hm => h.disjoint_wc hm List.mem_cons_self
  -- the cleared field is of a node on none of the remaining lists
  have hkeep : ∀ l : List τ, r ∉ l → ∀ x ∈ l, Function.update next r none x = next x := by
    intro l hr x hx
    exact Function.update_of_ne (by rintro rfl; exact hr hx) _ _
  have hrest := hchain.pop.congr (hkeep _ hrC)
  exact ⟨hchain.pop.head, h.readers.congr (hkeep _ hrR), h.writers.congr (hkeep _ hrW),
    ⟨hrest.nodup, rfl, hrest.next⟩, h.disjoint_rw,
    fun x hxR hxC => h.disjoint_rc hxR (List.mem_cons_of_mem r hxC),
    fun x hxW hxC => h.disjoint_wc hxW (List.mem_cons_of_mem r hxC)⟩

end QueuesOk

/-! ### The invariant -/

namespace RwSys.Abs

variable {s : RwSys τ} {A : RwAbs τ} {t : τ}

theorem init (next : τ → Option τ) :
    RwSys.Abs (⟨rwLockInit, next, fun _ => .idle, 0, fun _ => 0⟩ : RwSys τ) ⟨[], [], [], []⟩ where
  queues := ⟨QueueRep.init next, QueueRep.init next, Singly.nil, List.disjoint_nil_left _,
    List.disjoint_nil_left _, List.disjoint_nil_left _⟩
  places := ⟨fun _ => by simp, fun _ => by simp, fun _ => by simp, List.nodup_nil,
    (fun _ _ h => nomatch h), ⟨(fun _ _ h => nomatch h), (fun _ _ _ _ h => nomatch h),
      fun h => absurd rfl h⟩⟩
  readers_eq := rfl
  writer_iff := by simp [rwLockInit]
  exclusive h := nomatch h
  writers_wait h := absurd rfl h
  readers_wait h := absurd rfl h
  readers_order := .nil 0 _
  writers_order := .nil 0 _
  claimed_order := .nil 0 _

/-- Someone is on the writers' queue exactly when its `int` count is positive. -/
theorem writers_size_pos_iff (h : s.Abs A) :
    0 < s.rw.waitingWriters.size ↔ A.writersQueue ≠ [] := by
  rw [h.queues.writers.size, Nat.cast_pos, List.length_pos_iff]

theorem no_writer (h : s.Abs A) (hwa : s.rw.writerActive = false) (u : τ) :
    s.pc u ≠ .writing :=
  fun hu => absurd (h.writer_iff.mpr ⟨u, hu⟩) (by simp [hwa])

/-- While a thread writes, no reader is active or claimed. -/
theorem holders_eq_nil (h : s.Abs A) (hwa : s.rw.writerActive = true) :
    A.active = [] ∧ A.claimed = [] := by
  have hz := h.exclusive hwa
  rw [h.readers_eq] at hz
  exact ⟨List.eq_nil_of_length_eq_zero (by omega), List.eq_nil_of_length_eq_zero (by omega)⟩

/-- A quiet thread moves to another quiet place: the failed checks of `rw_lock_acquire_read`
and `rw_lock_acquire_write`, and the end of the wake loop. -/
theorem quiet (h : s.Abs A) (ht : (s.pc t).Quiet) (p : RwPc τ) (hp : p.Quiet) :
    RwSys.Abs { s with pc := Function.update s.pc t p } A :=
  ⟨h.queues, h.places.quiet ht p hp, h.readers_eq,
    h.writer_iff.trans (exists_update_eq_iff ht.ne.2.2.2.1 hp.ne.2.2.2.1).symm,
    h.exclusive, h.writers_wait, h.readers_wait, h.readers_order, h.writers_order, h.claimed_order⟩

/-- A quiet thread runs the callback of `block`: it is stamped with the clock, and no list holds
it yet. -/
theorem stamp (h : s.Abs A) (ht : (s.pc t).Quiet) :
    RwSys.Abs { s with clock := s.clock + 1, arrival := Function.update s.arrival t s.clock } A :=
  have hR := h.places.not_mem_readers t ht.ne.1
  ⟨h.queues, h.places, h.readers_eq, h.writer_iff, h.exclusive, h.writers_wait, h.readers_wait,
    h.readers_order.stamp hR.1, h.writers_order.stamp (h.places.not_mem_writers t ht.ne.2.1),
    h.claimed_order.stamp hR.2⟩

/-- A quiet thread joins the readers' queue: a writer is active or queued. -/
theorem queueReader (h : s.Abs A) (ht : (s.pc t).Quiet)
    (hno : ¬(s.rw.writerActive = false ∧ s.rw.waitingWriters.size = 0)) :
    ∃ rq next', queueAdd s.rw.waitingReaders s.next t = some (rq, next') ∧
      RwSys.Abs { s with rw := { s.rw with waitingReaders := rq }, next := next',
                         pc := Function.update s.pc t .readWaiting, clock := s.clock + 1,
                         arrival := Function.update s.arrival t s.clock }
        { A with readersQueue := A.readersQueue ++ [t] } := by
  obtain ⟨htR, htC⟩ := h.places.not_mem_readers t ht.ne.1
  obtain ⟨rq, next', hadd, hq⟩ :=
    h.queues.addReader htR (h.places.not_mem_writers t ht.ne.2.1) htC
  refine ⟨rq, next', hadd, hq, h.places.queueReader ht, h.readers_eq,
    h.writer_iff.trans (exists_update_eq_iff ht.ne.2.2.2.1 (by simp)).symm, h.exclusive,
    h.writers_wait, fun _ => ?_, h.readers_order.arrive htR,
    h.writers_order.stamp (h.places.not_mem_writers t ht.ne.2.1), h.claimed_order.stamp htC⟩
  by_cases hwa : s.rw.writerActive = true
  · exact .inl hwa
  · refine .inr fun hW => hno ⟨by simpa using hwa, ?_⟩
    have hsize := h.queues.writers.size
    rw [hW] at hsize
    exact hsize

/-- A quiet thread takes the lock to write, with no writer active and no reader. -/
theorem enterWrite (h : s.Abs A) (ht : (s.pc t).Quiet)
    (hok : s.rw.writerActive = false ∧ s.rw.readers = 0) :
    RwSys.Abs { s with rw := { s.rw with writerActive := true },
                       pc := Function.update s.pc t .writing } A :=
  ⟨h.queues, h.places.enterWrite ht (h.no_writer hok.1), h.readers_eq,
    iff_of_true rfl ⟨t, Function.update_self ..⟩, fun _ => hok.2, fun _ => .inl rfl,
    fun _ => .inl rfl, h.readers_order, h.writers_order, h.claimed_order⟩

/-- A quiet thread joins the writers' queue: a writer is active or a reader holds the lock. -/
theorem queueWriter (h : s.Abs A) (ht : (s.pc t).Quiet)
    (hno : ¬(s.rw.writerActive = false ∧ s.rw.readers = 0)) :
    ∃ wq next', queueAdd s.rw.waitingWriters s.next t = some (wq, next') ∧
      RwSys.Abs { s with rw := { s.rw with waitingWriters := wq }, next := next',
                         pc := Function.update s.pc t .writeWaiting, clock := s.clock + 1,
                         arrival := Function.update s.arrival t s.clock }
        { A with writersQueue := A.writersQueue ++ [t] } := by
  obtain ⟨htR, htC⟩ := h.places.not_mem_readers t ht.ne.1
  obtain ⟨wq, next', hadd, hq⟩ :=
    h.queues.addWriter htR (h.places.not_mem_writers t ht.ne.2.1) htC
  refine ⟨wq, next', hadd, hq, h.places.queueWriter ht, h.readers_eq,
    h.writer_iff.trans (exists_update_eq_iff ht.ne.2.2.2.1 (by simp)).symm, h.exclusive,
    fun _ => ?_, fun _ => .inr (by simp), h.readers_order.stamp htR,
    h.writers_order.arrive (h.places.not_mem_writers t ht.ne.2.1), h.claimed_order.stamp htC⟩
  by_cases hwa : s.rw.writerActive = true
  · exact .inl hwa
  · exact .inr (Nat.pos_of_ne_zero fun hz => hno ⟨by simpa using hwa, hz⟩)

/-- A reader leaves, and no writer is handed the lock: readers remain, or none is queued. -/
theorem leaveRead (h : s.Abs A) (ht : s.pc t = .reading)
    (hno : ¬(s.rw.readers - 1 = 0 ∧ 0 < s.rw.waitingWriters.size)) :
    RwSys.Abs { s with rw := { s.rw with readers := s.rw.readers - 1 },
                       pc := Function.update s.pc t .idle }
      { A with active := A.active.erase t } := by
  have hta : t ∈ A.active := (h.places.reading_iff t).mp ht
  refine ⟨h.queues, h.places.leaveRead ht, ?_,
    h.writer_iff.trans (exists_update_eq_iff (by simp [ht]) (by simp)).symm, fun hwa => ?_,
    fun hne => ?_, h.readers_wait, h.readers_order, h.writers_order, h.claimed_order⟩
  · show s.rw.readers - 1 = (A.active.erase t).length + A.claimed.length
    have := List.length_pos_of_mem hta
    rw [h.readers_eq, List.length_erase_of_mem hta]
    omega
  · show s.rw.readers - 1 = 0
    rw [h.exclusive hwa]
  · -- a writer is queued, so readers remain
    refine (h.writers_wait hne).imp id fun _ => ?_
    show 0 < s.rw.readers - 1
    have := h.writers_size_pos_iff.mpr hne
    by_contra hz
    exact hno ⟨by omega, this⟩

/-- The lock handed to the first queued writer, with no reader left: the last reader out, or
the writer out with writers queued. -/
theorem handoff {rq wq : LinkedQueue τ} {next : τ → Option τ} {pc : τ → RwPc τ} {w : τ}
    {W : List τ} {clock : ℕ} {arrival : τ → ℕ} (hp : PlacesOk pc A)
    (hq : QueuesOk rq wq next A.readersQueue (w :: W) A.claimed)
    (hR : ArrivalOrder clock arrival A.readersQueue) (hWo : ArrivalOrder clock arrival (w :: W))
    (hCo : ArrivalOrder clock arrival A.claimed)
    (hW : A.writersQueue = w :: W) (hfree : ∀ u, pc u ≠ .writing)
    (hA : A.active = []) (hC : A.claimed = []) {k : ℕ} (hk : k = 0) :
    RwSys.Abs ⟨⟨rq, (queueRemove wq next).2.1, k, true⟩, (queueRemove wq next).2.2,
        Function.update pc w .writing, clock, arrival⟩ { A with writersQueue := W } := by
  have hw : w ∉ W := (List.nodup_cons.mp hq.writers.chain.nodup).1
  refine ⟨hq.removeWriter.2, hp.dequeueWriter hW hw hfree, ?_,
    iff_of_true rfl ⟨w, Function.update_self ..⟩, fun _ => hk, fun _ => .inl rfl,
    fun _ => .inl rfl, hR, hWo.of_cons, hCo⟩
  show k = A.active.length + A.claimed.length
  rw [hk, hA, hC]
  rfl

/-- The walker wakes the claimed reader at its place and goes on along the chain. -/
theorem wakeOne (h : s.Abs A) {r : τ} (ht : s.pc t = .waking (some r)) :
    ∃ C, RwSys.Abs
      { s with next := (wakeReader s.next r).1,
               pc := Function.update (Function.update s.pc r .reading) t
                 (.waking (wakeReader s.next r).2) }
      { A with claimed := C, active := r :: A.active } := by
  obtain ⟨C, hC⟩ : ∃ C, A.claimed = r :: C :=
    List.head?_eq_some_iff.mp (h.places.walker.at_head t r ht)
  have hq : QueuesOk s.rw.waitingReaders s.rw.waitingWriters s.next A.readersQueue
      A.writersQueue (r :: C) := hC ▸ h.queues
  obtain ⟨hnext, hq'⟩ := hq.wakeClaimed
  have hrC : r ∉ C := (List.nodup_cons.mp hq.claimed.nodup).1
  have hrR : r ∉ A.readersQueue := fun hm => hq.disjoint_rc hm List.mem_cons_self
  have hrw : s.pc r = .readWaiting := (h.places.readWaiting_iff r).mpr (.inr (hC ▸ List.mem_cons_self))
  have hrt : r ≠ t := by
    rintro rfl
    exact nomatch hrw.symm.trans ht
  have hCo : ArrivalOrder s.clock s.arrival (r :: C) := hC ▸ h.claimed_order
  refine ⟨C, hq', ?_, ?_, ?_, h.exclusive, h.writers_wait, h.readers_wait, h.readers_order,
    h.writers_order, hCo.of_cons⟩
  · show PlacesOk (Function.update (Function.update s.pc r .reading) t (.waking (s.next r))) _
    rw [hnext]
    exact h.places.wakeOne ht hC hrC hrR
  · show s.rw.readers = (r :: A.active).length + C.length
    rw [h.readers_eq, hC, List.length_cons, List.length_cons]
    omega
  · refine h.writer_iff.trans ((exists_update_eq_iff (by simp [hrw]) (by simp)).symm.trans
      (exists_update_eq_iff ?_ (by simp)).symm)
    rw [Function.update_of_ne (Ne.symm hrt), ht]
    simp

section Threads

variable [Fintype τ] (hτ : Fintype.card τ < 2 ^ 32)
include hτ

/-- A quiet thread takes a read slot, with no writer active or queued. -/
theorem enterRead (h : s.Abs A) (ht : (s.pc t).Quiet)
    (hok : s.rw.writerActive = false ∧ s.rw.waitingWriters.size = 0) :
    RwSys.Abs { s with rw := { s.rw with readers := (s.rw.readers + 1) % 2 ^ 32 },
                       pc := Function.update s.pc t .reading }
      { A with active := t :: A.active } := by
  have hp := h.places.enterRead ht
  -- the count does not wrap: the holders are different threads
  have hlt : (t :: A.active).length + A.claimed.length < 2 ^ 32 :=
    hp.holders_lt hτ h.queues.claimed.nodup
  refine ⟨h.queues, hp, ?_, h.writer_iff.trans (exists_update_eq_iff ht.ne.2.2.2.1 (by simp)).symm,
    fun hwa => absurd (hok.1.symm.trans hwa) (by simp),
    fun hne => absurd (h.writers_size_pos_iff.mpr hne) (by omega), h.readers_wait, h.readers_order,
    h.writers_order, h.claimed_order⟩
  show (s.rw.readers + 1) % 2 ^ 32 = (t :: A.active).length + A.claimed.length
  rw [List.length_cons] at hlt ⊢
  rw [h.readers_eq, Nat.mod_eq_of_lt (by omega)]
  omega

/-- The writer out, with no writer queued: every queued reader gets a read slot, the queue is
taken off whole, and the writer enters the wake loop at its head. -/
theorem startWake (h : s.Abs A) (ht : s.pc t = .writing)
    (hW : ¬0 < s.rw.waitingWriters.size) :
    RwSys.Abs
      { s with rw := { s.rw with waitingReaders := (queueRemoveAll s.rw.waitingReaders).2,
                                 readers := (s.rw.readers + queueSize s.rw.waitingReaders) % 2 ^ 32,
                                 writerActive := false },
               pc := Function.update s.pc t (.waking (queueRemoveAll s.rw.waitingReaders).1) }
      { A with readersQueue := [], claimed := A.readersQueue } := by
  have hwa : s.rw.writerActive = true := h.writer_iff.mpr ⟨t, ht⟩
  obtain ⟨hA, hC⟩ := h.holders_eq_nil hwa
  have hR := h.queues.readers
  have hlen : A.readersQueue.length < 2 ^ 32 := lt_of_le_of_lt hR.chain.nodup.length_le_card hτ
  refine ⟨h.queues.removeAllReaders, ?_, ?_, iff_of_false (by simp) ?_, (fun hf => nomatch hf),
    fun hne => absurd (h.writers_size_pos_iff.mpr hne) hW, (fun hne => absurd rfl hne),
    .nil _ _, h.writers_order, h.readers_order⟩
  · rw [hR.removeAll.1]
    exact h.places.startWake ht hC
  · show (s.rw.readers + queueSize s.rw.waitingReaders) % 2 ^ 32 =
      A.active.length + A.readersQueue.length
    rw [h.exclusive hwa, hR.queueSize_eq, Nat.mod_eq_of_lt hlen, Nat.zero_add,
      Nat.mod_eq_of_lt hlen, hA, List.length_nil, Nat.zero_add]
  · -- the writer was the only one, and it now walks the chain
    rintro ⟨u, hu⟩
    exact update_ne (by simp) (fun u hut hu => hut (h.places.writer_unique u t hu ht)) u hu

end Threads

/-! #### The steps -/

theorem releaseRead (h : s.Abs A) (ht : s.pc t = .reading) :
    ∃ s' A', rwSysStep s (.releaseRead t) = some s' ∧ s'.Abs A' := by
  have hta : t ∈ A.active := (h.places.reading_iff t).mp ht
  have hlen := List.length_pos_of_mem hta
  have hreaders := h.readers_eq
  have hpos : 0 < s.rw.readers := by omega
  by_cases hhand : s.rw.readers - 1 = 0 ∧ 0 < s.rw.waitingWriters.size
  · -- the last reader out hands the lock to the first queued writer
    obtain ⟨w, W, hW⟩ := List.exists_cons_of_ne_nil (h.writers_size_pos_iff.mp hhand.2)
    have hwa : s.rw.writerActive = false := by
      by_contra hwa
      have := h.exclusive (by simpa using hwa)
      omega
    have herase := List.length_erase_of_mem hta
    have hq : QueuesOk s.rw.waitingReaders s.rw.waitingWriters s.next A.readersQueue (w :: W)
        A.claimed := hW ▸ h.queues
    refine ⟨_, _, ?_, handoff (h.places.leaveRead ht) hq h.readers_order (hW ▸ h.writers_order)
      h.claimed_order hW (update_ne (by simp) fun u _ => h.no_writer hwa u)
      (List.eq_nil_of_length_eq_zero (by dsimp only; omega))
      (List.eq_nil_of_length_eq_zero (by dsimp only; omega)) hhand.1⟩
    simp only [rwSysStep, rwLockReleaseRead, if_pos hpos, if_pos hhand, hq.removeWriter.1,
      Option.map_some]
  · exact ⟨_, _, by simp only [rwSysStep, rwLockReleaseRead, if_pos hpos, if_neg hhand,
      Option.map_some], h.leaveRead ht hhand⟩

theorem acquireWrite (h : s.Abs A) (ht : s.pc t = .idle) :
    ∃ s' A', rwSysStep s (.acquireWrite t) = some s' ∧ s'.Abs A' := by
  have hq : (s.pc t).Quiet := by rw [ht]; trivial
  by_cases hok : s.rw.writerActive = false ∧ s.rw.readers = 0
  · exact ⟨_, _, by simp only [rwSysStep, rwLockAcquireWrite, if_pos hok], h.enterWrite hq hok⟩
  · exact ⟨_, _, by simp only [rwSysStep, rwLockAcquireWrite, if_neg hok],
      h.quiet hq .writeBlocking trivial⟩

theorem addWriter (h : s.Abs A) (ht : s.pc t = .writeBlocking) :
    ∃ s' A', rwSysStep s (.addWriter t) = some s' ∧ s'.Abs A' := by
  have hq : (s.pc t).Quiet := by rw [ht]; trivial
  by_cases hok : s.rw.writerActive = false ∧ s.rw.readers = 0
  · refine ⟨_, _, ?_, (h.stamp hq).enterWrite hq hok⟩
    simp only [rwSysStep, rwAddWriter, if_pos hok, Option.map_some, if_true]
  · obtain ⟨wq, next', hadd, hA⟩ := h.queueWriter hq hok
    refine ⟨_, _, ?_, hA⟩
    simp only [rwSysStep, rwAddWriter, if_neg hok, hadd, Option.map_some, Bool.false_eq_true,
      if_false]

theorem wake (h : s.Abs A) (ht : (s.pc t).isWaking) :
    ∃ s' A', rwSysStep s (.wake t) = some s' ∧ s'.Abs A' := by
  obtain ⟨cur, hcur⟩ := RwPc.isWaking_iff.mp ht
  cases cur with
  | none =>
    -- past the end of the chain: the loop exits
    have hq : (s.pc t).Quiet := by rw [hcur]; trivial
    exact ⟨_, _, by simp only [rwSysStep, hcur], h.quiet hq .idle trivial⟩
  | some r =>
    obtain ⟨C, hA⟩ := h.wakeOne hcur
    exact ⟨_, _, by simp only [rwSysStep, hcur], hA⟩

section Counted

variable [Fintype τ] (hτ : Fintype.card τ < 2 ^ 32)
include hτ

theorem acquireRead (h : s.Abs A) (ht : s.pc t = .idle) :
    ∃ s' A', rwSysStep s (.acquireRead t) = some s' ∧ s'.Abs A' := by
  have hq : (s.pc t).Quiet := by rw [ht]; trivial
  by_cases hok : s.rw.writerActive = false ∧ s.rw.waitingWriters.size = 0
  · exact ⟨_, _, by simp only [rwSysStep, rwLockAcquireRead, if_pos hok], h.enterRead hτ hq hok⟩
  · exact ⟨_, _, by simp only [rwSysStep, rwLockAcquireRead, if_neg hok],
      h.quiet hq .readBlocking trivial⟩

theorem addReader (h : s.Abs A) (ht : s.pc t = .readBlocking) :
    ∃ s' A', rwSysStep s (.addReader t) = some s' ∧ s'.Abs A' := by
  have hq : (s.pc t).Quiet := by rw [ht]; trivial
  by_cases hok : s.rw.writerActive = false ∧ s.rw.waitingWriters.size = 0
  · refine ⟨_, _, ?_, (h.stamp hq).enterRead hτ hq hok⟩
    simp only [rwSysStep, rwAddReader, if_pos hok, Option.map_some, if_true]
  · obtain ⟨rq, next', hadd, hA⟩ := h.queueReader hq hok
    refine ⟨_, _, ?_, hA⟩
    simp only [rwSysStep, rwAddReader, if_neg hok, hadd, Option.map_some, Bool.false_eq_true,
      if_false]

theorem releaseWrite (h : s.Abs A) (ht : s.pc t = .writing) :
    ∃ s' A', rwSysStep s (.releaseWrite t) = some s' ∧ s'.Abs A' := by
  have hwa : s.rw.writerActive = true := h.writer_iff.mpr ⟨t, ht⟩
  by_cases hW : 0 < s.rw.waitingWriters.size
  · -- hand the lock to the next writer
    obtain ⟨w, W, hWl⟩ := List.exists_cons_of_ne_nil (h.writers_size_pos_iff.mp hW)
    obtain ⟨hA, hC⟩ := h.holders_eq_nil hwa
    have hq : QueuesOk s.rw.waitingReaders s.rw.waitingWriters s.next A.readersQueue (w :: W)
        A.claimed := hWl ▸ h.queues
    refine ⟨_, _, ?_, handoff (h.places.leaveWrite ht) hq h.readers_order
      (hWl ▸ h.writers_order) h.claimed_order hWl
      -- the writer out was the only one
      (update_ne (by simp) fun u hut hu => hut (h.places.writer_unique u t hu ht)) hA hC
      (h.exclusive hwa)⟩
    simp only [rwSysStep, rwLockReleaseWrite, if_pos hwa, if_pos hW, hq.removeWriter.1,
      Option.map_some]
  · exact ⟨_, _, by simp only [rwSysStep, rwLockReleaseWrite, if_pos hwa, if_neg hW,
      Option.map_some], h.startWake hτ ht hW⟩

/-- Every enabled step succeeds and keeps the invariant. -/
theorem step (h : s.Abs A) {op : RwOp τ} (hen : op.Enabled s) :
    ∃ s' A', rwSysStep s op = some s' ∧ s'.Abs A' := by
  cases op with
  | acquireRead t => exact h.acquireRead hτ hen
  | addReader t => exact h.addReader hτ hen
  | releaseRead t => exact h.releaseRead hen
  | acquireWrite t => exact h.acquireWrite hen
  | addWriter t => exact h.addWriter hen
  | releaseWrite t => exact h.releaseWrite hτ hen
  | wake t => exact h.wake hen

end Counted

end RwSys.Abs

theorem RwSys.Abs.of_reachable [Fintype τ] (hτ : Fintype.card τ < 2 ^ 32) {s : RwSys τ}
    (hs : s.Reachable) : ∃ A, s.Abs A := by
  induction hs with
  | init next => exact ⟨_, RwSys.Abs.init next⟩
  | step op _ hen hstep ih =>
    obtain ⟨A, hA⟩ := ih
    obtain ⟨s', A', hstep', hA'⟩ := hA.step hτ hen
    rw [hstep] at hstep'
    exact ⟨A', Option.some.inj hstep' ▸ hA'⟩

/-- From every state a run from `rw_lock_init` reaches, with fewer threads than an `unsigned`
counts: at most one thread writes, and none reads meanwhile; `writer_active` says whether one
writes; the queues hold the queued threads in the order they queued, by the ghost time
`arrival` each ran the callback of `block`, and so does the chain of claimed readers; `readers`
counts the threads reading and the readers the wake loop of `rw_lock_release_write` has claimed and not yet
woken, which are the chain it walks from its place; a queued writer waits only while the lock
is held, a queued reader only behind a writer, active or queued; and every enabled step
succeeds: no assert fires, no `queue_add` follows a `NULL` tail, and no `scheduler_wake_thread`
is given `NULL`. -/
theorem rw_lock_safety [Fintype τ] (hτ : Fintype.card τ < 2 ^ 32) {s : RwSys τ}
    (hs : s.Reachable) :
    (∀ t u, s.pc t = .writing → s.pc u = .writing → t = u) ∧
    (∀ t u, s.pc t = .writing → s.pc u ≠ .reading) ∧
    (s.rw.writerActive = true ↔ ∃ t, s.pc t = .writing) ∧
    (∃ R W C H : List τ, QueueRep s.rw.waitingReaders s.next R ∧
      QueueRep s.rw.waitingWriters s.next W ∧ Singly s.next C.head? C ∧
      ArrivalOrder s.clock s.arrival R ∧ ArrivalOrder s.clock s.arrival W ∧
      ArrivalOrder s.clock s.arrival C ∧
      (∀ t, s.pc t = .readWaiting ↔ t ∈ R ∨ t ∈ C) ∧ (∀ t, s.pc t = .writeWaiting ↔ t ∈ W) ∧
      (∀ t, s.pc t = .reading ↔ t ∈ H) ∧ H.Nodup ∧ s.rw.readers = H.length + C.length ∧
      (∀ t c, s.pc t = .waking (some c) → C.head? = some c) ∧
      (W ≠ [] → s.rw.writerActive = true ∨ 0 < s.rw.readers) ∧
      (R ≠ [] → s.rw.writerActive = true ∨ W ≠ [])) ∧
    ∀ op : RwOp τ, op.Enabled s → ∃ s', rwSysStep s op = some s' := by
  obtain ⟨A, hA⟩ := RwSys.Abs.of_reachable hτ hs
  refine ⟨hA.places.writer_unique, fun t u ht hu => ?_, hA.writer_iff,
    ⟨A.readersQueue, A.writersQueue, A.claimed, A.active, hA.queues.readers, hA.queues.writers,
      hA.queues.claimed, hA.readers_order, hA.writers_order, hA.claimed_order,
      hA.places.readWaiting_iff, hA.places.writeWaiting_iff,
      hA.places.reading_iff, hA.places.active_nodup, hA.readers_eq, hA.places.walker.at_head,
      hA.writers_wait, hA.readers_wait⟩, fun op hen => ?_⟩
  · -- a writer leaves no reader active
    have hnil := (hA.holders_eq_nil (hA.writer_iff.mpr ⟨t, ht⟩)).1
    have hmem := (hA.places.reading_iff u).mp hu
    rw [hnil] at hmem
    exact List.not_mem_nil hmem
  · obtain ⟨s', -, hstep, -⟩ := hA.step hτ hen
    exact ⟨s', hstep⟩

/-- A writer holds the lock, and two readers queue behind it, the one that ran its callback
first at the head. -/
theorem rw_lock_safety_readers_behind_writer :
    ∃ s : RwSys (Fin 3), s.Reachable ∧ s.pc 0 = .writing ∧ s.pc 1 = .readWaiting ∧
    s.pc 2 = .readWaiting ∧ s.arrival 1 < s.arrival 2 ∧
    (∀ t u, s.pc t = .writing → s.pc u = .writing → t = u) ∧
    (∀ t u, s.pc t = .writing → s.pc u ≠ .reading) ∧
    (s.rw.writerActive = true ↔ ∃ t, s.pc t = .writing) ∧
    (∃ R W C H : List (Fin 3), QueueRep s.rw.waitingReaders s.next R ∧
      QueueRep s.rw.waitingWriters s.next W ∧ Singly s.next C.head? C ∧
      ArrivalOrder s.clock s.arrival R ∧ ArrivalOrder s.clock s.arrival W ∧
      ArrivalOrder s.clock s.arrival C ∧
      (∀ t, s.pc t = .readWaiting ↔ t ∈ R ∨ t ∈ C) ∧ (∀ t, s.pc t = .writeWaiting ↔ t ∈ W) ∧
      (∀ t, s.pc t = .reading ↔ t ∈ H) ∧ H.Nodup ∧ s.rw.readers = H.length + C.length ∧
      (∀ t c, s.pc t = .waking (some c) → C.head? = some c) ∧
      (W ≠ [] → s.rw.writerActive = true ∨ 0 < s.rw.readers) ∧
      (R ≠ [] → s.rw.writerActive = true ∨ W ≠ [])) ∧
    ∀ op : RwOp (Fin 3), op.Enabled s → ∃ s', rwSysStep s op = some s' := by
  have hs : @RwSys.Reachable (Fin 3) _ _ :=
    .step (.addReader 2) (.step (.acquireRead 2) (.step (.addReader 1) (.step (.acquireRead 1)
      (.step (.acquireWrite 0) (.init fun _ => none) rfl rfl) (by decide) rfl) (by decide) rfl)
      (by decide) rfl) (by decide) rfl
  exact ⟨_, hs, rfl, rfl, rfl, by decide, rw_lock_safety (by simp) hs⟩

/-- `rw_lock_destroy`, in a state some run reaches, hands the threads queued to read, then those
queued to write, each in the order they queued, to a reaper queue that holds none of them. -/
theorem rw_lock_destroy_reaps_waiters [Fintype τ] (hτ : Fintype.card τ < 2 ^ 32) {s : RwSys τ}
    (hs : s.Reachable) {reaper : LinkedQueue τ} {r : List τ} (hr : QueueRep reaper s.next r)
    (hwait : ∀ t ∈ r, s.pc t ≠ .readWaiting ∧ s.pc t ≠ .writeWaiting) :
    ∃ R W : List τ, QueueRep s.rw.waitingReaders s.next R ∧
      QueueRep s.rw.waitingWriters s.next W ∧
      (∀ t ∈ R, s.pc t = .readWaiting) ∧ (∀ t, s.pc t = .writeWaiting ↔ t ∈ W) ∧
      ArrivalOrder s.clock s.arrival R ∧ ArrivalOrder s.clock s.arrival W ∧
      ∃ reaper' next', rwLockDestroy s.rw s.next reaper = some (reaper', next') ∧
        QueueRep reaper' next' (r ++ R ++ W) := by
  obtain ⟨A, hA⟩ := RwSys.Abs.of_reachable hτ hs
  have hR : ∀ t ∈ A.readersQueue, s.pc t = .readWaiting := fun t ht =>
    (hA.places.readWaiting_iff t).mpr (Or.inl ht)
  -- a thread on the reaper queue waits on neither queue
  have hdR : A.readersQueue.Disjoint r := fun t ht htr => (hwait t htr).1 (hR t ht)
  have hdW : A.writersQueue.Disjoint r := fun t ht htr =>
    (hwait t htr).2 ((hA.places.writeWaiting_iff t).mpr ht)
  exact ⟨A.readersQueue, A.writersQueue, hA.queues.readers, hA.queues.writers, hR,
    hA.places.writeWaiting_iff, hA.readers_order, hA.writers_order,
    rwLockDestroy_rep hA.queues hr hdR hdW⟩

/-- Two readers queue behind a writer; `rw_lock_destroy` hands both, first to last, to an empty
reaper queue. -/
theorem rw_lock_destroy_reaps_readers_behind_writer :
    ∃ s : RwSys (Fin 3), s.Reachable ∧ s.pc 1 = .readWaiting ∧ s.pc 2 = .readWaiting ∧
    s.arrival 1 < s.arrival 2 ∧ QueueRep (queueInit : LinkedQueue (Fin 3)) s.next [] ∧
    (∀ t ∈ ([] : List (Fin 3)), s.pc t ≠ .readWaiting ∧ s.pc t ≠ .writeWaiting) ∧
    ∃ R W : List (Fin 3), QueueRep s.rw.waitingReaders s.next R ∧
      QueueRep s.rw.waitingWriters s.next W ∧
      (∀ t ∈ R, s.pc t = .readWaiting) ∧ (∀ t, s.pc t = .writeWaiting ↔ t ∈ W) ∧
      ArrivalOrder s.clock s.arrival R ∧ ArrivalOrder s.clock s.arrival W ∧
      ∃ reaper' next', rwLockDestroy s.rw s.next queueInit = some (reaper', next') ∧
        QueueRep reaper' next' ([] ++ R ++ W) := by
  have hs : @RwSys.Reachable (Fin 3) _ _ :=
    .step (.addReader 2) (.step (.acquireRead 2) (.step (.addReader 1) (.step (.acquireRead 1)
      (.step (.acquireWrite 0) (.init fun _ => none) rfl rfl) (by decide) rfl) (by decide) rfl)
      (by decide) rfl) (by decide) rfl
  exact ⟨_, hs, rfl, rfl, by decide, QueueRep.init _,
    (fun _ h => absurd h List.not_mem_nil),
    rw_lock_destroy_reaps_waiters (by simp) hs (QueueRep.init _)
      (fun _ h => absurd h List.not_mem_nil)⟩

end DioptaseOS.Sync
