import Mathlib

/-!
# The per-core sleep queue

`struct SleepQueue` (kernel/queue.c) keeps the sleeping threads of a core on a list ordered
by `wakeup_jiffies`. `sleep_queue_add` walks past every thread whose deadline is `<=` the new
one and links the new thread there, so equal deadlines keep their insertion order;
`sleep_queue_remove_at(queue, now)` unlinks the head if its deadline is `<= now`. `sleep(j)`
(kernel/threads.c) sets the deadline to `current_jiffies + j` on `unsigned`, and
`schedule_next_thread` (kernel/scheduler.c) calls `sleep_queue_remove` until it returns `NULL`.

Over every sequence of adds and removes the list stays sorted, equal deadlines in insertion
order, and `size` is its length (`sleepRun_inv`). A scheduling pass wakes exactly the threads
whose deadline is `<= current_jiffies` (`mem_wakeSleepers_iff`), so a `sleep(j)` whose deadline
does not wrap wakes at the first pass `j` ticks later (`sleep_wakes_on_time`). When
`current_jiffies + j` wraps, the deadline is small, and the next pass wakes the thread before
its time (`sleep_wrap_wakes_early`).

## Main definitions

* `Sleeper`, `SleepQueue`, `sleepQueueInit`, `sleepQueueAdd`, `sleepQueueRemoveAt`, `sleep`
* `wakeSleepers` — the loop of `schedule_next_thread` that drains the ready threads
* `SleepOp`, `sleepRun` — sequences of calls
* `FifoSorted` — sorted by deadline, and equal deadlines by a rank of the threads

## Main results

* `FifoSorted.sleepInsert` — an insertion keeps the order when the new thread ranks last
* `sleepRun_inv` — every run keeps the queue sorted, FIFO among equal deadlines, and counted
* `wakeSleepers_eq`, `mem_wakeSleepers_iff` — a pass wakes the ready prefix, which is every
  thread whose deadline has come
* `sleep_wakes_on_time` — without wrap, a sleeper wakes exactly once `j` ticks have passed
-/

namespace DioptaseOS.Queue

/-- A `struct TCB` on a sleep queue: the thread and its `wakeup_jiffies`. -/
structure Sleeper (τ : Type) where
  tcb : τ
  wakeupJiffies : Nat
  deriving DecidableEq

/-- `struct SleepQueue`: the chain of threads from `head` through `next`, and `size`. -/
structure SleepQueue (τ : Type) where
  threads : List (Sleeper τ)
  size : Nat

variable {τ : Type}

/-- `sleep_queue_init(queue)`. -/
def sleepQueueInit : SleepQueue τ := ⟨[], 0⟩

/-- The scan of `sleep_queue_add`: past every thread whose deadline is `<=` the new one. -/
def sleepInsert (data : Sleeper τ) : List (Sleeper τ) → List (Sleeper τ)
  | [] => [data]
  | current :: rest =>
    if current.wakeupJiffies ≤ data.wakeupJiffies then current :: sleepInsert data rest
    else data :: current :: rest

/-- `sleep_queue_add({queue, data})`. -/
def sleepQueueAdd (queue : SleepQueue τ) (data : Sleeper τ) : SleepQueue τ :=
  ⟨sleepInsert data queue.threads, queue.size + 1⟩

/-- `sleep_queue_remove_at(queue, now_jiffies)`; `none` is `NULL`. -/
def sleepQueueRemoveAt (queue : SleepQueue τ) (nowJiffies : Nat) :
    Option (Sleeper τ) × SleepQueue τ :=
  match queue.threads with
  | [] => (none, queue)
  | node :: rest =>
    if node.wakeupJiffies ≤ nowJiffies then (some node, ⟨rest, queue.size - 1⟩)
    else (none, queue)

/-- `sleep(jiffies)` by thread `tcb` at `current_jiffies`: the deadline, on `unsigned`, and
the insertion that `block` runs. -/
def sleep (queue : SleepQueue τ) (tcb : τ) (currentJiffies jiffies : Nat) : SleepQueue τ :=
  sleepQueueAdd queue ⟨tcb, (currentJiffies + jiffies) % 2 ^ 32⟩

/-- The sleep-queue loop of `schedule_next_thread`: `sleep_queue_remove` against
`current_jiffies` until it returns `NULL`, each thread it returns woken. `fuel` bounds the
iterations; the queue's length is enough (`wakeSleepers_eq`). -/
def wakeSleepers : Nat → SleepQueue τ → Nat → List (Sleeper τ) × SleepQueue τ
  | 0, queue, _ => ([], queue)
  | fuel + 1, queue, currentJiffies =>
    match sleepQueueRemoveAt queue currentJiffies with
    | (some wakeup, queue') => Prod.map (wakeup :: ·) id (wakeSleepers fuel queue' currentJiffies)
    | (none, queue') => ([], queue')

/-- A call on a sleep queue. -/
inductive SleepOp (τ : Type) where
  | add (data : Sleeper τ)
  | removeAt (nowJiffies : Nat)

/-- One call, with the thread it returned. -/
def sleepStep (queue : SleepQueue τ) : SleepOp τ → Option (Sleeper τ) × SleepQueue τ
  | .add data => (none, sleepQueueAdd queue data)
  | .removeAt nowJiffies => sleepQueueRemoveAt queue nowJiffies

/-- A sequence of calls, one at a time. -/
def sleepRun (queue : SleepQueue τ) : List (SleepOp τ) → SleepQueue τ
  | [] => queue
  | op :: ops => sleepRun (sleepStep queue op).2 ops

/-- The thread a call adds. -/
def SleepOp.added : SleepOp τ → List τ
  | .add data => [data.tcb]
  | .removeAt _ => []

/-- Sorted by deadline, and equal deadlines by `rank`. -/
def FifoSorted (rank : τ → Nat) (l : List (Sleeper τ)) : Prop :=
  l.Pairwise fun a b => a.wakeupJiffies < b.wakeupJiffies ∨
    a.wakeupJiffies = b.wakeupJiffies ∧ rank a.tcb < rank b.tcb

/-- Sorted by deadline. -/
def DeadlineSorted (l : List (Sleeper τ)) : Prop :=
  l.Pairwise fun a b => a.wakeupJiffies ≤ b.wakeupJiffies

/-! ### Insertion -/

section Insert

variable {data : Sleeper τ}

@[simp] theorem mem_sleepInsert {x : Sleeper τ} {l : List (Sleeper τ)} :
    x ∈ sleepInsert data l ↔ x = data ∨ x ∈ l := by
  induction l with
  | nil => simp [sleepInsert]
  | cons current rest ih =>
    simp only [sleepInsert]
    split
    · simp only [List.mem_cons, ih, or_left_comm]
    · exact List.mem_cons

@[simp] theorem length_sleepInsert (l : List (Sleeper τ)) :
    (sleepInsert data l).length = l.length + 1 := by
  induction l with
  | nil => rfl
  | cons current rest ih =>
    simp only [sleepInsert]
    split <;> simp [ih]

/-- The new thread lands after every thread with a deadline `≤` its own and before the
rest: equal deadlines keep their insertion order. -/
theorem sleepInsert_eq (l : List (Sleeper τ)) :
    sleepInsert data l =
      l.takeWhile (fun c => decide (c.wakeupJiffies ≤ data.wakeupJiffies)) ++
        data :: l.dropWhile (fun c => decide (c.wakeupJiffies ≤ data.wakeupJiffies)) := by
  induction l with
  | nil => rfl
  | cons current rest ih =>
    simp only [sleepInsert]
    split
    · rename_i hle
      simp [hle, ih]
    · rename_i hgt
      simp [hgt]

/-- The insertion keeps the order when the new thread ranks after every queued one. -/
theorem FifoSorted.sleepInsert {rank : τ → Nat} {l : List (Sleeper τ)} (h : FifoSorted rank l)
    (hlater : ∀ x ∈ l, rank x.tcb < rank data.tcb) :
    FifoSorted rank (sleepInsert data l) := by
  induction l with
  | nil => simp [FifoSorted, DioptaseOS.Queue.sleepInsert]
  | cons current rest ih =>
    rw [FifoSorted, List.pairwise_cons] at h
    simp only [DioptaseOS.Queue.sleepInsert]
    split
    · rename_i hle
      -- `current` stays first: it precedes the new thread by deadline or by rank
      refine List.Pairwise.cons (fun y hy => ?_) (ih h.2 fun x hx => hlater x (by simp [hx]))
      rcases mem_sleepInsert.mp hy with rfl | hy
      · have := hlater current (by simp)
        omega
      · exact h.1 y hy
    · rename_i hgt
      -- the new thread goes first, strictly earlier than `current` and all after it
      refine List.Pairwise.cons (fun y hy => ?_) (List.Pairwise.cons h.1 h.2)
      rcases List.mem_cons.mp hy with rfl | hy
      · omega
      · rcases h.1 y hy with hlt | ⟨heq, -⟩ <;> omega

theorem FifoSorted.deadlineSorted {rank : τ → Nat} {l : List (Sleeper τ)}
    (h : FifoSorted rank l) : DeadlineSorted l :=
  h.imp fun hab => by omega

end Insert

/-! ### Removal -/

section Remove

variable {queue : SleepQueue τ} {nowJiffies : Nat}

theorem sleepQueueRemoveAt_of_ready {node : Sleeper τ} {rest : List (Sleeper τ)}
    (hq : queue.threads = node :: rest) (hready : node.wakeupJiffies ≤ nowJiffies) :
    sleepQueueRemoveAt queue nowJiffies = (some node, ⟨rest, queue.size - 1⟩) := by
  simp [sleepQueueRemoveAt, hq, hready]

/-- `remove_at` returns `NULL` and changes nothing unless the head's deadline has come. -/
theorem sleepQueueRemoveAt_of_not_ready
    (hq : ∀ node ∈ queue.threads.head?, nowJiffies < node.wakeupJiffies) :
    sleepQueueRemoveAt queue nowJiffies = (none, queue) := by
  unfold sleepQueueRemoveAt
  split
  · rfl
  · rename_i node rest hcons
    have := hq node (by simp [hcons])
    simp [show ¬node.wakeupJiffies ≤ nowJiffies by omega]

/-- What `remove_at` does, either way: it unlinks the head exactly when its deadline is
`<= now`. -/
theorem sleepQueueRemoveAt_cases (queue : SleepQueue τ) (nowJiffies : Nat) :
    (∃ node rest, queue.threads = node :: rest ∧ node.wakeupJiffies ≤ nowJiffies ∧
      sleepQueueRemoveAt queue nowJiffies = (some node, ⟨rest, queue.size - 1⟩)) ∨
    ((∀ node ∈ queue.threads.head?, nowJiffies < node.wakeupJiffies) ∧
      sleepQueueRemoveAt queue nowJiffies = (none, queue)) := by
  match hq : queue.threads with
  | [] => exact .inr ⟨by simp, sleepQueueRemoveAt_of_not_ready (by simp [hq])⟩
  | node :: rest =>
    by_cases hready : node.wakeupJiffies ≤ nowJiffies
    · exact .inl ⟨node, rest, rfl, hready, sleepQueueRemoveAt_of_ready hq hready⟩
    · have hnot : ∀ n ∈ queue.threads.head?, nowJiffies < n.wakeupJiffies := by
        simp only [hq, List.head?_cons, Option.mem_def, Option.some.injEq]
        rintro n rfl
        omega
      exact .inr ⟨by simpa [hq] using hnot, sleepQueueRemoveAt_of_not_ready hnot⟩

end Remove

/-! ### Runs of calls -/

section Run

variable {rank : τ → Nat}

/-- What every run keeps: the order, FIFO for the threads queued so far against the ones
still to come, and the count. -/
structure SleepInv (rank : τ → Nat) (queue : SleepQueue τ) (future : List τ) : Prop where
  sorted : FifoSorted rank queue.threads
  before_future : ∀ x ∈ queue.threads, ∀ y ∈ future, rank x.tcb < rank y
  size_eq : queue.size = queue.threads.length

theorem SleepInv.step {queue : SleepQueue τ} {op : SleepOp τ} {ops : List (SleepOp τ)}
    (h : SleepInv rank queue ((op :: ops).flatMap SleepOp.added))
    (hrank : (((op :: ops).flatMap SleepOp.added).map rank).Pairwise (· < ·)) :
    SleepInv rank (sleepStep queue op).2 (ops.flatMap SleepOp.added) := by
  cases op with
  | add data =>
    simp only [List.flatMap_cons, SleepOp.added, List.singleton_append, List.map_cons,
      List.pairwise_cons, List.mem_map] at h hrank
    obtain ⟨hsorted, hbefore, hsize⟩ := h
    refine ⟨hsorted.sleepInsert fun x hx => hbefore x hx data.tcb (by simp), ?_, ?_⟩
    · -- the new thread ranks before every later one, and so does every queued thread
      intro x hx y hy
      rcases mem_sleepInsert.mp hx with rfl | hx
      · exact hrank.1 (rank y) ⟨y, hy, rfl⟩
      · exact hbefore x hx y (by simp [hy])
    · simp [sleepStep, sleepQueueAdd, hsize]
  | removeAt nowJiffies =>
    simp only [List.flatMap_cons, SleepOp.added, List.nil_append] at h
    obtain ⟨hsorted, hbefore, hsize⟩ := h
    rcases sleepQueueRemoveAt_cases queue nowJiffies with
      ⟨node, rest, hq, -, hres⟩ | ⟨-, hres⟩
    · rw [FifoSorted, hq, List.pairwise_cons] at hsorted
      simp only [sleepStep, hres]
      refine ⟨hsorted.2, fun x hx => hbefore x (by simp [hq, hx]), ?_⟩
      simp [hsize, hq]
    · simpa [sleepStep, hres] using ⟨hsorted, hbefore, hsize⟩

/-- Induction on the calls: each keeps `SleepInv` against the threads still to be added. -/
theorem SleepInv.run {queue : SleepQueue τ} {ops : List (SleepOp τ)}
    (h : SleepInv rank queue (ops.flatMap SleepOp.added))
    (hrank : ((ops.flatMap SleepOp.added).map rank).Pairwise (· < ·)) :
    SleepInv rank (sleepRun queue ops) [] := by
  induction ops generalizing queue with
  | nil => simpa [sleepRun] using h
  | cons op ops ih =>
    have hrest : ((ops.flatMap SleepOp.added).map rank).Pairwise (· < ·) := by
      cases op <;> simp_all [SleepOp.added]
    exact ih (h.step hrank) hrest

/-- From `sleep_queue_init`, every run keeps the queue sorted by deadline with equal
deadlines in the order of their adds (any `rank` that grows along the adds), and `size`
equal to the number of queued threads. -/
theorem sleepRun_inv (ops : List (SleepOp τ))
    (hrank : ((ops.flatMap SleepOp.added).map rank).Pairwise (· < ·)) :
    FifoSorted rank (sleepRun sleepQueueInit ops).threads ∧
      (sleepRun sleepQueueInit ops).size = (sleepRun sleepQueueInit ops).threads.length := by
  have h : SleepInv rank (sleepRun sleepQueueInit ops) [] :=
    SleepInv.run ⟨.nil, by simp [sleepQueueInit], rfl⟩ hrank
  exact ⟨h.sorted, h.size_eq⟩

end Run

/-! ### A scheduling pass -/

section Wake

variable {queue : SleepQueue τ} {currentJiffies : Nat}

/-- In a list sorted by deadline, the threads before the first one not yet due are all the
due ones. -/
theorem mem_takeWhile_of_sorted {l : List (Sleeper τ)} (hl : DeadlineSorted l)
    {x : Sleeper τ} (hx : x ∈ l) :
    x ∈ l.takeWhile (fun c => decide (c.wakeupJiffies ≤ currentJiffies)) ↔
      x.wakeupJiffies ≤ currentJiffies := by
  induction l with
  | nil => simp at hx
  | cons c rest ih =>
    rw [DeadlineSorted, List.pairwise_cons] at hl
    by_cases hc : c.wakeupJiffies ≤ currentJiffies
    · rw [List.takeWhile_cons_of_pos (by simpa using hc)]
      rcases List.mem_cons.mp hx with rfl | hx
      · simpa using hc
      · by_cases hxc : x = c
        · subst hxc
          simpa using hc
        · simp only [List.mem_cons, hxc, false_or]
          exact ih hl.2 hx
    · rw [List.takeWhile_cons_of_neg (by simpa using hc)]
      -- every later thread is due no earlier than `c`, which is not due
      rcases List.mem_cons.mp hx with rfl | hx
      · simpa using hc
      · have := hl.1 x hx
        simp only [List.not_mem_nil, false_iff]
        omega

/-- A pass with enough fuel wakes the due prefix of a sorted, counted queue and leaves the
rest. -/
theorem wakeSleepers_eq {fuel : Nat} (hsorted : DeadlineSorted queue.threads)
    (hsize : queue.size = queue.threads.length) (hfuel : queue.threads.length ≤ fuel) :
    wakeSleepers fuel queue currentJiffies =
      (queue.threads.takeWhile (fun c => decide (c.wakeupJiffies ≤ currentJiffies)),
        ⟨queue.threads.dropWhile (fun c => decide (c.wakeupJiffies ≤ currentJiffies)),
          (queue.threads.dropWhile (fun c => decide (c.wakeupJiffies ≤ currentJiffies))).length⟩) := by
  -- induction on the fuel, one removal per iteration
  induction fuel generalizing queue with
  | zero =>
    obtain ⟨threads, size⟩ := queue
    have hnil : threads = [] := List.eq_nil_of_length_eq_zero (by simpa using hfuel)
    subst hnil
    simp_all [wakeSleepers]
  | succ fuel ih =>
    rcases sleepQueueRemoveAt_cases queue currentJiffies with
      ⟨node, rest, hq, hready, hres⟩ | ⟨hnot, hres⟩
    · rw [DeadlineSorted, hq, List.pairwise_cons] at hsorted
      have hrest := @ih ⟨rest, queue.size - 1⟩ hsorted.2
        (by simp [hsize, hq]) (by simp [hq] at hfuel; simpa using hfuel)
      simp only [wakeSleepers, hres, hrest, hq, Prod.map, id_eq]
      simp [hready]
    · obtain ⟨threads, size⟩ := queue
      cases threads with
      | nil => simp_all [wakeSleepers]
      | cons node rest =>
        have hlate := hnot node (by simp)
        have hnot' : ¬node.wakeupJiffies ≤ currentJiffies := by omega
        simp_all [wakeSleepers, List.takeWhile_cons_of_neg, List.dropWhile_cons_of_neg]

/-- A pass wakes a queued thread exactly when its deadline is `<= current_jiffies`. -/
theorem mem_wakeSleepers_iff {fuel : Nat} (hsorted : DeadlineSorted queue.threads)
    (hsize : queue.size = queue.threads.length) (hfuel : queue.threads.length ≤ fuel)
    {x : Sleeper τ} (hx : x ∈ queue.threads) :
    x ∈ (wakeSleepers fuel queue currentJiffies).1 ↔ x.wakeupJiffies ≤ currentJiffies := by
  rw [wakeSleepers_eq hsorted hsize hfuel]
  exact mem_takeWhile_of_sorted hsorted hx

/-- A thread that called `sleep(j)` at `t`, with `t + j` below `2 ^ 32`, is woken by a pass
at any `current_jiffies` from `t` up to the wrap exactly when `j` ticks have passed. -/
theorem sleep_wakes_on_time {tcb : τ} {t j : Nat} (hwrap : t + j < 2 ^ 32)
    (hsorted : DeadlineSorted queue.threads) (hsize : queue.size = queue.threads.length)
    (hmem : ⟨tcb, (t + j) % 2 ^ 32⟩ ∈ queue.threads) (ht : t ≤ currentJiffies) :
    ⟨tcb, (t + j) % 2 ^ 32⟩ ∈ (wakeSleepers queue.threads.length queue currentJiffies).1 ↔
      j ≤ currentJiffies - t := by
  rw [mem_wakeSleepers_iff hsorted hsize (Nat.le_refl _) hmem, Nat.mod_eq_of_lt hwrap]
  dsimp only
  omega

end Wake

theorem sleep_wrap_wakes_early :
    (0xFFFFFFF1 - 0xFFFFFFF0) % 2 ^ 32 < 0x20 ∧
      (wakeSleepers 1 (sleep (sleepQueueInit : SleepQueue Nat) 1 0xFFFFFFF0 0x20) 0xFFFFFFF1).1 =
        [⟨1, 0x10⟩] := by
  decide

end DioptaseOS.Queue
