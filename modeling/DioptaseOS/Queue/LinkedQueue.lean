import Mathlib
import DioptaseOS.Lib.PtrList

/-!
# The linked FIFO queues of the kernel

`struct Queue`, `struct SpinQueue`, `struct GenericQueue` and `struct GenericSpinQueue` in
`queue.c` are one design: a head and a tail pointer and a count over the intrusive `next` field
of their nodes (a `TCB`, or a `GenericQueueElement`). `queue_add` clears the node's `next` and
links it after the tail, `queue_remove` unlinks the head, and `queue_remove_all` hands the
whole chain to the caller. The spin variants run the same bodies under the queue's CLH lock,
one step each here.

Several queues share the nodes' `next` fields: a thread goes from a ready queue to the waiters
of a semaphore and back. The model runs a family of queues `ι → LinkedQueue α` over one field
`next : α → Option α`, under the precondition the code states, that an added node is detached
(on no queue of the family). Against a family of FIFO lists, every run of such calls from empty
queues succeeds, so no `NULL` tail is followed, returns what the lists return, and keeps each
queue a `NULL`-terminated chain of its list, with the tail at its last node and the count at
its length.

## Main definitions

* `LinkedQueue`, `queueInit`, `queueAdd`, `queueRemove`, `queueRemoveAll`, `queuePeek`,
  `queueSize`, and the spin and generic variants
* `QueueOp`, `QueueResult`, `queuesStep`, `queuesRun` — calls on a family of queues
* `fifoStep`, `QueueOp.Allowed`, `FifoRun` — the same calls on a family of lists
* `QueueRep`, `QueuesRep` — a queue, and a family of queues, store lists

## Main results

* `QueueRep.add`, `QueueRep.remove`, `QueueRep.removeAll` — one call on one queue, with the
  `next` fields it writes
* `QueuesRep.step` — one call on the family: the other queues are untouched
* `linked_queues_refine_fifo` — every run of allowed calls from empty queues
-/

namespace DioptaseOS.Queue

open PtrList

variable {α ι : Type*} [DecidableEq α] [DecidableEq ι]

/-! ### The code -/

/-- `struct Queue`: the first and last node, and the count `size`. -/
structure LinkedQueue (α : Type*) where
  head : Option α
  tail : Option α
  size : ℤ

/-- `queue_init(queue)`. -/
def queueInit : LinkedQueue α := ⟨none, none, 0⟩

/-- `queue_add(queue, data)`: `data->next = NULL`, then `data` after the tail, or as the only
node of an empty queue. `none` when the code would follow a `NULL` tail. -/
def queueAdd (queue : LinkedQueue α) (next : α → Option α) (data : α) :
    Option (LinkedQueue α × (α → Option α)) :=
  let next := Function.update next data none
  match queue.head with
  | none => some (⟨some data, some data, queue.size + 1⟩, next)
  | some _ =>
    match queue.tail with
    | none => none
    | some tail =>
      some (⟨queue.head, some data, queue.size + 1⟩, Function.update next tail (some data))

/-- `queue_remove(queue)`: the head node, unlinked with its `next` cleared; `NULL` on an empty
queue, which is left as it is. -/
def queueRemove (queue : LinkedQueue α) (next : α → Option α) :
    Option α × LinkedQueue α × (α → Option α) :=
  match queue.head with
  | none => (none, queue, next)
  | some node =>
    let head := next node
    (some node, ⟨head, if head.isNone then none else queue.tail, queue.size - 1⟩,
      Function.update next node none)

/-- `queue_remove_all(queue)`: the old head, and an empty queue. The chain keeps its links. -/
def queueRemoveAll (queue : LinkedQueue α) : Option α × LinkedQueue α :=
  (queue.head, ⟨none, none, 0⟩)

/-- `queue_peek(queue)`. -/
def queuePeek (queue : LinkedQueue α) : Option α := queue.head

/-- `queue_size(queue)`: the `int` count read as an `unsigned`. -/
def queueSize (queue : LinkedQueue α) : ℕ := (queue.size % 2 ^ 32).toNat

/-- `spin_queue_add`: the body of `queue_add` between `clh_lock_acquire` and
`clh_lock_release`. -/
def spinQueueAdd : LinkedQueue α → (α → Option α) → α → Option (LinkedQueue α × (α → Option α)) :=
  queueAdd

/-- `spin_queue_remove`: `queue_remove` under the lock. -/
def spinQueueRemove : LinkedQueue α → (α → Option α) → Option α × LinkedQueue α × (α → Option α) :=
  queueRemove

/-- `spin_queue_remove_all`: `queue_remove_all` under the lock. -/
def spinQueueRemoveAll : LinkedQueue α → Option α × LinkedQueue α := queueRemoveAll

/-- `generic_queue_add`: `queue_add` over the `next` field of a `GenericQueueElement`. -/
def genericQueueAdd :
    LinkedQueue α → (α → Option α) → α → Option (LinkedQueue α × (α → Option α)) :=
  queueAdd

/-- `generic_queue_remove`. -/
def genericQueueRemove :
    LinkedQueue α → (α → Option α) → Option α × LinkedQueue α × (α → Option α) :=
  queueRemove

/-- `generic_queue_remove_all`. -/
def genericQueueRemoveAll : LinkedQueue α → Option α × LinkedQueue α := queueRemoveAll

/-- `generic_spin_queue_add`: `generic_queue_add` under the lock. -/
def genericSpinQueueAdd :
    LinkedQueue α → (α → Option α) → α → Option (LinkedQueue α × (α → Option α)) :=
  queueAdd

/-- `generic_spin_queue_remove`. -/
def genericSpinQueueRemove :
    LinkedQueue α → (α → Option α) → Option α × LinkedQueue α × (α → Option α) :=
  queueRemove

/-- `generic_spin_queue_remove_all`. -/
def genericSpinQueueRemoveAll : LinkedQueue α → Option α × LinkedQueue α := queueRemoveAll

/-! ### A family of queues over one `next` field -/

/-- The calls, each on queue `i` of the family. -/
inductive QueueOp (ι α : Type*) where
  | add (i : ι) (data : α)
  | remove (i : ι)
  | removeAll (i : ι)
  | peek (i : ι)
  | size (i : ι)

/-- What a call returns: nothing, a node (`NULL` as `none`), or a count. -/
inductive QueueResult (α : Type*) where
  | done
  | node (n : Option α)
  | count (n : ℕ)
  deriving DecidableEq

/-- One call; `none` when it follows a `NULL` pointer. -/
def queuesStep (queues : ι → LinkedQueue α) (next : α → Option α) :
    QueueOp ι α → Option (QueueResult α × (ι → LinkedQueue α) × (α → Option α))
  | .add i data =>
    (queueAdd (queues i) next data).map fun r => (.done, Function.update queues i r.1, r.2)
  | .remove i =>
    let r := queueRemove (queues i) next
    some (.node r.1, Function.update queues i r.2.1, r.2.2)
  | .removeAll i =>
    let r := queueRemoveAll (queues i)
    some (.node r.1, Function.update queues i r.2, next)
  | .peek i => some (.node (queuePeek (queues i)), queues, next)
  | .size i => some (.count (queueSize (queues i)), queues, next)

/-- Calls one after another, with their results. -/
def queuesRun (queues : ι → LinkedQueue α) (next : α → Option α) :
    List (QueueOp ι α) → Option (List (QueueResult α) × (ι → LinkedQueue α) × (α → Option α))
  | [] => some ([], queues, next)
  | op :: ops =>
    (queuesStep queues next op).bind fun r =>
      (queuesRun r.2.1 r.2.2 ops).map fun s => (r.1 :: s.1, s.2)

/-! ### A family of FIFO lists -/

/-- What a call does to the lists: `add` appends, `remove` takes the first, `remove_all`
takes them all, and the result is the first node or the length. -/
def fifoStep (lists : ι → List α) : QueueOp ι α → QueueResult α × (ι → List α)
  | .add i data => (.done, Function.update lists i (lists i ++ [data]))
  | .remove i => (.node (lists i).head?, Function.update lists i (lists i).tail)
  | .removeAll i => (.node (lists i).head?, Function.update lists i [])
  | .peek i => (.node (lists i).head?, lists)
  | .size i => (.count ((lists i).length % 2 ^ 32), lists)

/-- The precondition of `queue_add`: the node is detached, on no list of the family. -/
def QueueOp.Allowed (lists : ι → List α) : QueueOp ι α → Prop
  | .add _ data => ∀ j, data ∉ lists j
  | _ => True

/-- A run of allowed calls on the lists, with its results and the lists it ends with. -/
inductive FifoRun : (ι → List α) → List (QueueOp ι α) → List (QueueResult α) → (ι → List α) →
    Prop
  | nil (lists : ι → List α) : FifoRun lists [] [] lists
  | cons {lists : ι → List α} {op : QueueOp ι α} {ops rs lists'} :
      op.Allowed lists → FifoRun (fifoStep lists op).2 ops rs lists' →
        FifoRun lists (op :: ops) ((fifoStep lists op).1 :: rs) lists'

/-- The queue stores `l`: a `NULL`-terminated chain from its head, its tail the last node, its
count the length. -/
structure QueueRep (queue : LinkedQueue α) (next : α → Option α) (l : List α) : Prop where
  chain : Singly next queue.head l
  tail : queue.tail = l.getLast?
  size : queue.size = l.length

/-- Each queue stores its list, and no node is on two lists. -/
structure QueuesRep (queues : ι → LinkedQueue α) (next : α → Option α) (lists : ι → List α) :
    Prop where
  rep : ∀ i, QueueRep (queues i) next (lists i)
  disjoint : ∀ i j, i ≠ j → (lists i).Disjoint (lists j)

/-! ### One queue -/

namespace QueueRep

variable {queue : LinkedQueue α} {next next' : α → Option α} {l : List α} {a : α}

theorem init (next : α → Option α) : QueueRep (queueInit : LinkedQueue α) next [] :=
  ⟨Singly.nil, rfl, rfl⟩

/-- A queue is read through the `next` fields of its own nodes only. -/
theorem congr (h : QueueRep queue next l) (heq : ∀ x ∈ l, next' x = next x) :
    QueueRep queue next' l :=
  ⟨h.chain.congr heq, h.tail, h.size⟩

/-- `queue_add` of a node not on the queue succeeds, appends it, and writes the `next` fields
of that node and of the old tail only. -/
theorem add (h : QueueRep queue next l) (ha : a ∉ l) :
    ∃ queue' next', queueAdd queue next a = some (queue', next') ∧
      QueueRep queue' next' (l ++ [a]) ∧ ∀ x, x ≠ a → x ∉ l → next' x = next x := by
  cases hlast : l.getLast? with
  | none =>
    -- the empty queue: the node becomes head and tail
    obtain rfl : l = [] := List.getLast?_eq_none_iff.mp hlast
    have hhead : queue.head = none := h.chain.head
    refine ⟨⟨some a, some a, queue.size + 1⟩, Function.update next a none,
      by simp only [queueAdd, hhead], ⟨Singly.singleton next a, rfl, ?_⟩,
      fun x hxa _ => Function.update_of_ne hxa _ _⟩
    rw [h.size]
    rfl
  | some t =>
    have hne : l ≠ [] := fun e => by simp [e] at hlast
    obtain ⟨b, hhead⟩ : ∃ b, queue.head = some b := by
      cases l with
      | nil => exact absurd rfl hne
      | cons b _ => exact ⟨b, h.chain.head⟩
    have htail : queue.tail = some t := h.tail.trans hlast
    refine ⟨⟨queue.head, some a, queue.size + 1⟩,
      Function.update (Function.update next a none) t (some a),
      by simp only [queueAdd, hhead, htail], ⟨h.chain.snoc ha hlast, by simp, ?_⟩,
      fun x hxa hxl => ?_⟩
    · show queue.size + 1 = ((l ++ [a]).length : ℤ)
      rw [h.size, List.length_append, List.length_singleton]
      omega
    · have hxt : x ≠ t := fun e => hxl (e ▸ List.mem_of_getLast? hlast)
      rw [Function.update_of_ne hxt, Function.update_of_ne hxa]

/-- `queue_remove` returns the first node and leaves the rest, writing the `next` field of the
removed node only. -/
theorem remove (h : QueueRep queue next l) :
    (queueRemove queue next).1 = l.head? ∧
      QueueRep (queueRemove queue next).2.1 (queueRemove queue next).2.2 l.tail ∧
      ∀ x, x ∉ l → (queueRemove queue next).2.2 x = next x := by
  cases l with
  | nil =>
    have hhead : queue.head = none := h.chain.head
    have hrem : queueRemove queue next = (none, queue, next) := by rw [queueRemove, hhead]
    rw [hrem]
    exact ⟨rfl, h, fun _ _ => rfl⟩
  | cons b t =>
    have hhead : queue.head = some b := h.chain.head
    have hb : b ∉ t := (List.nodup_cons.mp h.chain.nodup).1
    have hpop : Singly next (next b) t := (hhead ▸ h.chain).pop
    have hrem : queueRemove queue next = (some b,
        ⟨next b, if (next b).isNone then none else queue.tail, queue.size - 1⟩,
        Function.update next b none) := by
      rw [queueRemove, hhead]
    rw [hrem]
    refine ⟨rfl, ⟨?_, ?_, ?_⟩, fun x hx => Function.update_of_ne ?_ _ _⟩
    · exact hpop.congr fun x hx => Function.update_of_ne (by rintro rfl; exact hb hx) _ _
    · -- the tail is cleared exactly when the removed node was the last one
      rw [hpop.head, h.tail]
      cases t with
      | nil => rfl
      | cons c t => simp [List.getLast?_cons_cons]
    · show queue.size - 1 = (t.length : ℤ)
      rw [h.size, List.length_cons]
      omega
    · rintro rfl
      exact hx List.mem_cons_self

/-- `queue_remove_all` empties the queue and returns the chain of its list. -/
theorem removeAll (h : QueueRep queue next l) :
    (queueRemoveAll queue).1 = l.head? ∧ QueueRep (queueRemoveAll queue).2 next [] ∧
      Singly next (queueRemoveAll queue).1 l :=
  ⟨h.chain.head, init next, h.chain⟩

theorem queueSize_eq (h : QueueRep queue next l) : queueSize queue = l.length % 2 ^ 32 := by
  rw [queueSize, h.size]
  omega

end QueueRep

/-! ### The family -/

namespace QueuesRep

variable {queues : ι → LinkedQueue α} {next : α → Option α} {lists : ι → List α}

omit [DecidableEq ι] in
theorem init (next : α → Option α) :
    QueuesRep (fun _ : ι => (queueInit : LinkedQueue α)) next fun _ => [] :=
  ⟨fun _ => QueueRep.init next, fun _ _ _ => List.disjoint_nil_left _⟩

/-- Queue `i` replaced by one that stores `l` over `next'`, while the other queues' nodes
keep their `next` fields and stay off `l`. -/
theorem replace (h : QueuesRep queues next lists) {i : ι} {queue : LinkedQueue α}
    {next' : α → Option α} {l : List α} (hi : QueueRep queue next' l)
    (hframe : ∀ j, j ≠ i → ∀ x ∈ lists j, next' x = next x)
    (hdisj : ∀ j, j ≠ i → l.Disjoint (lists j)) :
    QueuesRep (Function.update queues i queue) next' (Function.update lists i l) where
  rep j := by
    by_cases hj : j = i
    · subst hj
      rw [Function.update_self, Function.update_self]
      exact hi
    · rw [Function.update_of_ne hj, Function.update_of_ne hj]
      exact (h.rep j).congr (hframe j hj)
  disjoint j k hjk := by
    by_cases hj : j = i
    · subst hj
      rw [Function.update_self, Function.update_of_ne (Ne.symm hjk)]
      exact hdisj k (Ne.symm hjk)
    · by_cases hk : k = i
      · subst hk
        rw [Function.update_of_ne hj, Function.update_self]
        exact fun x hx₁ hx₂ => hdisj j hj hx₂ hx₁
      · rw [Function.update_of_ne hj, Function.update_of_ne hk]
        exact h.disjoint j k hjk

/-- One allowed call on the family succeeds, returns what the lists return, and keeps the
family storing the lists. -/
theorem step (h : QueuesRep queues next lists) (op : QueueOp ι α) (hok : op.Allowed lists) :
    ∃ queues' next', queuesStep queues next op = some ((fifoStep lists op).1, queues', next') ∧
      QueuesRep queues' next' (fifoStep lists op).2 := by
  cases op with
  | add i a =>
    obtain ⟨queue', next', hadd, hrep, hframe⟩ := (h.rep i).add (hok i)
    refine ⟨Function.update queues i queue', next',
      by simp only [queuesStep, fifoStep, hadd, Option.map_some], h.replace hrep ?_ ?_⟩
    · -- the written fields are the new node's, which is on no list, and the tail's, on list `i`
      intro j hj x hx
      exact hframe x (fun e => hok j (e ▸ hx)) fun hxi => h.disjoint i j (Ne.symm hj) hxi hx
    · intro j hj
      exact List.disjoint_append_left.mpr ⟨h.disjoint i j (Ne.symm hj),
        fun x hx₁ hx₂ => hok j (List.mem_singleton.mp hx₁ ▸ hx₂)⟩
  | remove i =>
    obtain ⟨hnode, hrep, hframe⟩ := (h.rep i).remove
    refine ⟨Function.update queues i (queueRemove (queues i) next).2.1,
      (queueRemove (queues i) next).2.2, by simp only [queuesStep, fifoStep, hnode],
      h.replace hrep ?_ ?_⟩
    · intro j hj x hx
      exact hframe x fun hxi => h.disjoint i j (Ne.symm hj) hxi hx
    · intro j hj
      exact fun x hx₁ hx₂ => h.disjoint i j (Ne.symm hj) (List.mem_of_mem_tail hx₁) hx₂
  | removeAll i =>
    obtain ⟨hnode, hrep, -⟩ := (h.rep i).removeAll
    refine ⟨Function.update queues i (queueRemoveAll (queues i)).2, next,
      by simp only [queuesStep, fifoStep, hnode],
      h.replace hrep (fun _ _ _ _ => rfl) fun _ _ => List.disjoint_nil_left _⟩
  | peek i => exact ⟨_, _, by rw [queuesStep, fifoStep, queuePeek, (h.rep i).chain.head], h⟩
  | size i => exact ⟨_, _, by rw [queuesStep, fifoStep, (h.rep i).queueSize_eq], h⟩

/-- A run of allowed calls on queues that store the lists. -/
theorem run {ops : List (QueueOp ι α)} {rs : List (QueueResult α)} {lists' : ι → List α}
    (hrun : FifoRun lists ops rs lists') (h : QueuesRep queues next lists) :
    ∃ queues' next', queuesRun queues next ops = some (rs, queues', next') ∧
      QueuesRep queues' next' lists' := by
  induction hrun generalizing queues next with
  | nil => exact ⟨_, _, rfl, h⟩
  | cons hok _ ih =>
    obtain ⟨queues₁, next₁, hstep, h₁⟩ := h.step _ hok
    obtain ⟨queues', next', hrun', h'⟩ := ih h₁
    exact ⟨queues', next', by rw [queuesRun, hstep, Option.bind_some, hrun', Option.map_some], h'⟩

end QueuesRep

/-- Every run of allowed calls on a family of empty queues succeeds with the results of the
FIFO lists, and leaves each queue a `NULL`-terminated chain of its list, its tail at the last
node and its count at the length, with no node on two queues. -/
theorem linked_queues_refine_fifo (next : α → Option α) {ops : List (QueueOp ι α)}
    {rs : List (QueueResult α)} {lists : ι → List α} (hrun : FifoRun (fun _ => []) ops rs lists) :
    ∃ queues next', queuesRun (fun _ => queueInit) next ops = some (rs, queues, next') ∧
      (∀ i, Singly next' (queues i).head (lists i) ∧ (queues i).tail = (lists i).getLast? ∧
        (queues i).size = (lists i).length) ∧
      ∀ i j, i ≠ j → (lists i).Disjoint (lists j) := by
  obtain ⟨queues, next', hqueues, h⟩ := (QueuesRep.init next).run hrun
  exact ⟨queues, next', hqueues, fun i => ⟨(h.rep i).chain, (h.rep i).tail, (h.rep i).size⟩,
    h.disjoint⟩

/-- Two nodes queued on queue `0` and one on queue `1`, then the first of queue `0` taken
off: queue `0` holds the second node, queue `1` its one. -/
theorem linked_queues_refine_fifo_run :
    ∃ queues next', queuesRun (fun _ : Fin 2 => queueInit) (fun _ : ℕ => none)
        [.add 0 5, .add 0 6, .add 1 7, .remove 0] =
        some ([.done, .done, .done, .node (some 5)], queues, next') ∧
      (∀ i, Singly next' (queues i).head (![[6], [7]] i) ∧
        (queues i).tail = (![[6], [7]] i).getLast? ∧ (queues i).size = (![[6], [7]] i).length) ∧
      ∀ i j : Fin 2, i ≠ j → (![[6], [7]] i).Disjoint (![[6], [7]] j) := by
  -- the lists the four calls end with
  have hend : FifoRun (Function.update (Function.update (Function.update (fun _ : Fin 2 => [])
      0 [5]) 0 [5, 6]) 1 [7]) [.remove 0] [.node (some 5)] ![[6], [7]] := by
    have hlists : Function.update (Function.update (Function.update (Function.update
        (fun _ : Fin 2 => ([] : List ℕ)) 0 [5]) 0 [5, 6]) 1 [7]) 0 [6] = ![[6], [7]] :=
      funext (Fin.forall_fin_two.mpr ⟨rfl, rfl⟩)
    exact .cons trivial (hlists ▸ .nil _)
  have hrun : FifoRun (fun _ : Fin 2 => ([] : List ℕ)) [.add 0 5, .add 0 6, .add 1 7, .remove 0]
      [.done, .done, .done, .node (some 5)] ![[6], [7]] :=
    .cons (fun _ => List.not_mem_nil) (.cons (Fin.forall_fin_two.mpr ⟨by decide, by decide⟩)
      (.cons (Fin.forall_fin_two.mpr ⟨by decide, by decide⟩) hend))
  exact linked_queues_refine_fifo _ hrun

end DioptaseOS.Queue
