import Mathlib.Data.Nat.ModEq
import Mathlib.Logic.Function.Basic

/-!
# The kernel's ring buffer

`struct RingBuf` (kernel/queue.c) is a circular array of `capacity` pointers with two
indices: `ringbuf_add_front` writes at `head` and moves it forward, `ringbuf_add_back` moves
`tail` back and writes there, `ringbuf_remove_front` moves `head` back and reads there, and
`ringbuf_remove_back` reads at `tail` and moves it forward. One slot is always left free, so
`head == tail` means empty and `(head + 1) % capacity == tail` means full. All index
arithmetic is on `unsigned`.

Read from `tail` up to `head`, the array holds a deque (`RingBuf.contents`), and each call
does to it what a deque bounded by `capacity - 1` elements does (`dequeStep`): `add_front`
appends, `add_back` prepends, `remove_front` takes the last element, `remove_back` the first,
and `ringbuf_size` returns the length. This holds for every capacity up to `2 ^ 31`, past
which `tail - 1 + capacity` wraps.

## Main definitions

* `RingBuf`, `ringbufInit`, `ringbufAddFront`, `ringbufAddBack`, `ringbufRemoveFront`,
  `ringbufRemoveBack`, `ringbufSize` — the calls
* `RingBuf.contents` — the deque the array holds, from `tail` to `head`
* `dequeStep`, `dequeRun` — the bounded deque, the abstract model
* `RingBuf.Reachable` — the buffers that calls made after `ringbuf_init`

## Main results

* `RingBuf.Wf` — both indices below the capacity; every call keeps it (`ringbufStep_wf`)
* `ringbufStep_refines` — on a well-formed buffer a call is the deque's step on its contents
* `ringbufStep_of_failed` — a call that reports failure changes nothing
* `ringbufRun_refines` — a whole sequence of calls returns what the deque returns
* `ringbuf_refines_deque` — the same for every buffer calls can reach
-/

namespace DioptaseOS.Queue

/-- `struct RingBuf`; the pointer array is a function from slots to elements. -/
structure RingBuf (α : Type) where
  buf : Nat → α
  capacity : Nat
  head : Nat
  tail : Nat

variable {α : Type}

/-- `(x + 1) % capacity` on `unsigned`: the slot after `x`. -/
def ringNext (capacity x : Nat) : Nat := (x + 1) % 2 ^ 32 % capacity

/-- `(x - 1 + capacity) % capacity` on `unsigned`: the slot before `x`. The constant stands
first in `2 ^ 32 - 1 + x`, so that reducing it with `x` unknown stops at once. -/
def ringPrev (capacity x : Nat) : Nat :=
  ((2 ^ 32 - 1 + x) % 2 ^ 32 + capacity) % 2 ^ 32 % capacity

/-- `ringbuf_init(rb, capacity)`; `junk` is what `malloc` returned. -/
def ringbufInit (capacity : Nat) (junk : Nat → α) : RingBuf α :=
  { buf := junk, capacity, head := 0, tail := 0 }

/-- `ringbuf_add_front(rb, p)`. -/
def ringbufAddFront (rb : RingBuf α) (p : α) : Bool × RingBuf α :=
  if ringNext rb.capacity rb.head = rb.tail then (false, rb)
  else
    (true, { rb with buf := Function.update rb.buf rb.head p,
                     head := ringNext rb.capacity rb.head })

/-- `ringbuf_add_back(rb, p)`. -/
def ringbufAddBack (rb : RingBuf α) (p : α) : Bool × RingBuf α :=
  if ringNext rb.capacity rb.head = rb.tail then (false, rb)
  else
    let tail := ringPrev rb.capacity rb.tail
    (true, { rb with buf := Function.update rb.buf tail p, tail })

/-- `ringbuf_remove_front(rb)`; `none` is the `NULL` of an empty buffer. -/
def ringbufRemoveFront (rb : RingBuf α) : Option α × RingBuf α :=
  if rb.head = rb.tail then (none, rb)
  else
    let head := ringPrev rb.capacity rb.head
    (some (rb.buf head), { rb with head })

/-- `ringbuf_remove_back(rb)`. -/
def ringbufRemoveBack (rb : RingBuf α) : Option α × RingBuf α :=
  if rb.head = rb.tail then (none, rb)
  else (some (rb.buf rb.tail), { rb with tail := ringNext rb.capacity rb.tail })

/-- `ringbuf_size(rb)`. -/
def ringbufSize (rb : RingBuf α) : Nat :=
  if rb.head ≥ rb.tail then rb.head - rb.tail
  else (2 ^ 32 + rb.capacity - (rb.tail - rb.head)) % 2 ^ 32

/-- A call on a ring buffer. -/
inductive RingOp (α : Type) where
  | addFront (p : α)
  | addBack (p : α)
  | removeFront
  | removeBack
  | size

/-- What a call returns. -/
inductive RingResult (α : Type) where
  | added (ok : Bool)
  | removed (p : Option α)
  | size (n : Nat)
  deriving DecidableEq

/-- The call reported that it could do nothing: `false` from an add, `NULL` from a remove. -/
def RingResult.failed : RingResult α → Bool
  | .added ok => !ok
  | .removed p => p.isNone
  | .size _ => false

/-- One call. -/
def ringbufStep (rb : RingBuf α) : RingOp α → RingResult α × RingBuf α
  | .addFront p => Prod.map .added id (ringbufAddFront rb p)
  | .addBack p => Prod.map .added id (ringbufAddBack rb p)
  | .removeFront => Prod.map .removed id (ringbufRemoveFront rb)
  | .removeBack => Prod.map .removed id (ringbufRemoveBack rb)
  | .size => (.size (ringbufSize rb), rb)

/-- A sequence of calls, one at a time, with what each returned. -/
def ringbufRun (rb : RingBuf α) : List (RingOp α) → List (RingResult α) × RingBuf α
  | [] => ([], rb)
  | op :: ops =>
    let (r, rb') := ringbufStep rb op
    Prod.map (r :: ·) id (ringbufRun rb' ops)

/-- The buffers that some sequence of calls makes after `ringbuf_init(rb, capacity)`. -/
inductive RingBuf.Reachable (capacity : Nat) : RingBuf α → Prop
  | init (junk : Nat → α) : Reachable capacity (ringbufInit capacity junk)
  | step {rb : RingBuf α} (op : RingOp α) :
      Reachable capacity rb → Reachable capacity (ringbufStep rb op).2

/-! ### The deque a buffer holds -/

/-- The number of slots from `tail` up to `head`. -/
def ringCount (capacity head tail : Nat) : Nat := (head + capacity - tail) % capacity

/-- The number of elements a buffer holds. -/
def RingBuf.count (rb : RingBuf α) : Nat := ringCount rb.capacity rb.head rb.tail

/-- `buf[tail], buf[tail + 1], …, buf[head - 1]`, indices modulo the capacity. -/
def RingBuf.contents (rb : RingBuf α) : List α :=
  (List.range rb.count).map fun i => rb.buf ((rb.tail + i) % rb.capacity)

/-- A deque of at most `capacity - 1` elements, its head end last: the abstract model. -/
def dequeStep (capacity : Nat) (l : List α) : RingOp α → RingResult α × List α
  | .addFront p => if l.length = capacity - 1 then (.added false, l) else (.added true, l ++ [p])
  | .addBack p => if l.length = capacity - 1 then (.added false, l) else (.added true, p :: l)
  | .removeFront =>
    match l.getLast? with
    | none => (.removed none, l)
    | some x => (.removed (some x), l.dropLast)
  | .removeBack =>
    match l with
    | [] => (.removed none, [])
    | x :: rest => (.removed (some x), rest)
  | .size => (.size l.length, l)

/-- The deque's results over a sequence of calls. -/
def dequeRun (capacity : Nat) (l : List α) : List (RingOp α) → List (RingResult α) × List α
  | [] => ([], l)
  | op :: ops =>
    let (r, l') := dequeStep capacity l op
    Prod.map (r :: ·) id (dequeRun capacity l' ops)

/-! ### Index arithmetic -/

section Index

variable {capacity x : Nat}

theorem ringNext_eq (hx : x < capacity) (hc : capacity ≤ 2 ^ 31) :
    ringNext capacity x = if x + 1 = capacity then 0 else x + 1 := by
  have h32 : (x + 1) % 2 ^ 32 = x + 1 := Nat.mod_eq_of_lt (by omega)
  unfold ringNext
  rw [h32]
  split
  · rename_i hlast
    rw [hlast, Nat.mod_self]
  · exact Nat.mod_eq_of_lt (by omega)

theorem ringPrev_eq (hx : x < capacity) (hc : capacity ≤ 2 ^ 31) :
    ringPrev capacity x = if x = 0 then capacity - 1 else x - 1 := by
  -- `x - 1` wraps at `x = 0`, and adding the capacity brings it back below `2 ^ 32`
  have h32 : ((2 ^ 32 - 1 + x) % 2 ^ 32 + capacity) % 2 ^ 32 = x + capacity - 1 := by omega
  unfold ringPrev
  rw [h32]
  split
  · rename_i hzero
    rw [hzero, Nat.zero_add]
    exact Nat.mod_eq_of_lt (by omega)
  · rw [show x + capacity - 1 = x - 1 + capacity by omega, Nat.add_mod_right]
    exact Nat.mod_eq_of_lt (by omega)

theorem ringNext_lt (hpos : 0 < capacity) : ringNext capacity x < capacity :=
  Nat.mod_lt _ hpos

theorem ringPrev_lt (hpos : 0 < capacity) : ringPrev capacity x < capacity :=
  Nat.mod_lt _ hpos

/-- The slot `i + 1` places after `ringPrev x` is the slot `i` places after `x`. -/
theorem ringPrev_add_succ (hx : x < capacity) (hc : capacity ≤ 2 ^ 31) (i : Nat) :
    (ringPrev capacity x + (i + 1)) % capacity = (x + i) % capacity := by
  rw [ringPrev_eq hx hc]
  split
  · rename_i hzero
    rw [hzero, show capacity - 1 + (i + 1) = capacity + i by omega, Nat.add_mod_left,
      Nat.zero_add]
  · rw [show x - 1 + (i + 1) = x + i by omega]

/-- The slot `i` places after `ringNext x` is the slot `i + 1` places after `x`. -/
theorem ringNext_add (hx : x < capacity) (hc : capacity ≤ 2 ^ 31) (i : Nat) :
    (ringNext capacity x + i) % capacity = (x + (i + 1)) % capacity := by
  rw [ringNext_eq hx hc]
  split
  · rename_i hlast
    rw [show x + (i + 1) = capacity + i by omega, Nat.add_mod_left, Nat.zero_add]
  · rw [show x + 1 + i = x + (i + 1) by omega]

/-- Fewer than `capacity` steps from one slot never come back to it. -/
theorem add_mod_injective {t i j : Nat} (hi : i < capacity) (hj : j < capacity)
    (h : (t + i) % capacity = (t + j) % capacity) : i = j :=
  Nat.ModEq.eq_of_lt_of_lt (Nat.ModEq.add_left_cancel' t h) hi hj

variable {head tail : Nat}

theorem ringCount_lt (hpos : 0 < capacity) : ringCount capacity head tail < capacity :=
  Nat.mod_lt _ hpos

section Bounds

variable (hh : head < capacity) (ht : tail < capacity)
include hh ht

theorem ringCount_eq :
    ringCount capacity head tail =
      if tail ≤ head then head - tail else head + capacity - tail := by
  unfold ringCount
  split
  · rw [show head + capacity - tail = head - tail + capacity by omega, Nat.add_mod_right]
    exact Nat.mod_eq_of_lt (by omega)
  · exact Nat.mod_eq_of_lt (by omega)

/-- Counting `ringCount` slots from `tail` ends at `head`. -/
theorem tail_add_ringCount : (tail + ringCount capacity head tail) % capacity = head := by
  rw [ringCount_eq hh ht]
  split
  · rw [show tail + (head - tail) = head by omega]
    exact Nat.mod_eq_of_lt hh
  · rw [show tail + (head + capacity - tail) = head + capacity by omega, Nat.add_mod_right]
    exact Nat.mod_eq_of_lt hh

theorem ringCount_eq_zero_iff : ringCount capacity head tail = 0 ↔ head = tail := by
  rw [ringCount_eq hh ht]
  split <;> omega

variable (hc : capacity ≤ 2 ^ 31)
include hc

/-- The full test of both adds: the slot after `head` is `tail` exactly when all but one
slot are taken. -/
theorem ringNext_eq_tail_iff :
    ringNext capacity head = tail ↔ ringCount capacity head tail = capacity - 1 := by
  rw [ringCount_eq hh ht, ringNext_eq hh hc]
  split <;> split <;> omega

theorem ringCount_ringNext_head (hfull : ringNext capacity head ≠ tail) :
    ringCount capacity (ringNext capacity head) tail = ringCount capacity head tail + 1 := by
  have hnext := ringNext_lt (x := head) (by omega : 0 < capacity)
  rw [ringCount_eq hnext ht, ringCount_eq hh ht]
  rw [ringNext_eq hh hc] at hfull ⊢
  split_ifs at hfull ⊢ <;> omega

theorem ringCount_ringPrev_tail (hfull : ringNext capacity head ≠ tail) :
    ringCount capacity head (ringPrev capacity tail) = ringCount capacity head tail + 1 := by
  have hprev := ringPrev_lt (x := tail) (by omega : 0 < capacity)
  rw [ringCount_eq hh hprev, ringCount_eq hh ht, ringPrev_eq ht hc]
  rw [ringNext_eq hh hc] at hfull
  split_ifs at hfull ⊢ <;> omega

theorem ringCount_ringPrev_head (hempty : head ≠ tail) :
    ringCount capacity head tail = ringCount capacity (ringPrev capacity head) tail + 1 := by
  have hprev := ringPrev_lt (x := head) (by omega : 0 < capacity)
  rw [ringCount_eq hprev ht, ringCount_eq hh ht, ringPrev_eq hh hc]
  split_ifs <;> omega

theorem ringCount_ringNext_tail (hempty : head ≠ tail) :
    ringCount capacity head tail = ringCount capacity head (ringNext capacity tail) + 1 := by
  have hnext := ringNext_lt (x := tail) (by omega : 0 < capacity)
  rw [ringCount_eq hh hnext, ringCount_eq hh ht, ringNext_eq ht hc]
  split_ifs <;> omega

end Bounds

end Index

/-! ### Well-formed buffers -/

/-- Both indices inside the array, whose capacity keeps the index arithmetic from
wrapping. -/
structure RingBuf.Wf (rb : RingBuf α) : Prop where
  capacity_pos : 0 < rb.capacity
  capacity_le : rb.capacity ≤ 2 ^ 31
  head_lt : rb.head < rb.capacity
  tail_lt : rb.tail < rb.capacity

namespace RingBuf

variable {rb : RingBuf α}

theorem count_lt (h : rb.Wf) : rb.count < rb.capacity :=
  ringCount_lt h.capacity_pos

@[simp] theorem length_contents : rb.contents.length = rb.count := by
  simp [contents]

theorem Wf.contents_eq_nil_iff (h : rb.Wf) : rb.contents = [] ↔ rb.head = rb.tail := by
  rw [← List.length_eq_zero_iff, length_contents]
  exact ringCount_eq_zero_iff h.head_lt h.tail_lt

/-- The contents of a buffer holding `n + 1` elements, its last one split off. -/
theorem contents_of_count_succ {n : Nat} (hn : rb.count = n + 1) :
    rb.contents = (List.range n).map (fun i => rb.buf ((rb.tail + i) % rb.capacity)) ++
      [rb.buf ((rb.tail + n) % rb.capacity)] := by
  rw [contents, hn, List.range_succ, List.map_append, List.map_singleton]

/-- The contents of a buffer holding `n + 1` elements, its first one split off. -/
theorem contents_of_count_succ' {n : Nat} (hn : rb.count = n + 1) :
    rb.contents = rb.buf (rb.tail % rb.capacity) ::
      (List.range n).map (fun i => rb.buf ((rb.tail + (i + 1)) % rb.capacity)) := by
  rw [contents, hn, List.range_succ_eq_map, List.map_cons, List.map_map, Nat.add_zero]
  rfl

end RingBuf

/-- Writing a slot that none of the listed indices names leaves their reads alone. -/
theorem map_update_of_ne {f : Nat → α} {idx : Nat → Nat} {k n : Nat} {v : α}
    (h : ∀ i < n, idx i ≠ k) :
    (List.range n).map (fun i => Function.update f k v (idx i)) =
      (List.range n).map (fun i => f (idx i)) := by
  apply List.map_congr_left
  intro i hi
  exact Function.update_of_ne (h i (List.mem_range.mp hi)) v f

/-! ### Each call on the deque -/

section Calls

variable {rb : RingBuf α}

theorem ringbufAddFront_of_full (hfull : ringNext rb.capacity rb.head = rb.tail) (p : α) :
    ringbufAddFront rb p = (false, rb) := by
  simp [ringbufAddFront, hfull]

theorem ringbufAddBack_of_full (hfull : ringNext rb.capacity rb.head = rb.tail) (p : α) :
    ringbufAddBack rb p = (false, rb) := by
  simp [ringbufAddBack, hfull]

theorem ringbufRemoveFront_of_empty (hempty : rb.head = rb.tail) :
    ringbufRemoveFront rb = (none, rb) := by
  simp [ringbufRemoveFront, hempty]

theorem ringbufRemoveBack_of_empty (hempty : rb.head = rb.tail) :
    ringbufRemoveBack rb = (none, rb) := by
  simp [ringbufRemoveBack, hempty]

theorem ringbufAddFront_of_not_full_eq (hfull : ringNext rb.capacity rb.head ≠ rb.tail) (p : α) :
    ringbufAddFront rb p = (true, { rb with
      buf := Function.update rb.buf rb.head p
      head := ringNext rb.capacity rb.head }) := by
  simp [ringbufAddFront, hfull]

theorem ringbufAddBack_of_not_full_eq (hfull : ringNext rb.capacity rb.head ≠ rb.tail) (p : α) :
    ringbufAddBack rb p = (true, { rb with
      buf := Function.update rb.buf (ringPrev rb.capacity rb.tail) p
      tail := ringPrev rb.capacity rb.tail }) := by
  simp [ringbufAddBack, hfull]

theorem ringbufRemoveFront_of_not_empty_eq (hempty : rb.head ≠ rb.tail) :
    ringbufRemoveFront rb = (some (rb.buf (ringPrev rb.capacity rb.head)),
      { rb with head := ringPrev rb.capacity rb.head }) := by
  simp [ringbufRemoveFront, hempty]

theorem ringbufRemoveBack_of_not_empty_eq (hempty : rb.head ≠ rb.tail) :
    ringbufRemoveBack rb =
      (some (rb.buf rb.tail), { rb with tail := ringNext rb.capacity rb.tail }) := by
  simp [ringbufRemoveBack, hempty]

/-- `add_front` below the bound writes the new element just past the last one. -/
theorem ringbufAddFront_of_not_full (h : rb.Wf) (hfull : ringNext rb.capacity rb.head ≠ rb.tail)
    (p : α) :
    (ringbufAddFront rb p).1 = true ∧ (ringbufAddFront rb p).2.Wf ∧
      (ringbufAddFront rb p).2.contents = rb.contents ++ [p] := by
  rw [ringbufAddFront_of_not_full_eq hfull]
  dsimp only
  refine ⟨rfl, ⟨h.capacity_pos, h.capacity_le, ringNext_lt h.capacity_pos, h.tail_lt⟩, ?_⟩
  have hcount : ({ rb with
      buf := Function.update rb.buf rb.head p
      head := ringNext rb.capacity rb.head } : RingBuf α).count = rb.count + 1 :=
    ringCount_ringNext_head h.head_lt h.tail_lt h.capacity_le hfull
  have hend : (rb.tail + rb.count) % rb.capacity = rb.head :=
    tail_add_ringCount h.head_lt h.tail_lt
  have hlt := RingBuf.count_lt h
  rw [RingBuf.contents_of_count_succ hcount]
  dsimp only
  rw [hend, Function.update_self, map_update_of_ne, RingBuf.contents]
  -- every earlier slot differs from `head`, the slot `count` places after `tail`
  intro i hi heq
  rw [← hend] at heq
  exact absurd (add_mod_injective (by omega) hlt heq) (by omega)

/-- `add_back` below the bound writes the new element just before the first one. -/
theorem ringbufAddBack_of_not_full (h : rb.Wf) (hfull : ringNext rb.capacity rb.head ≠ rb.tail)
    (p : α) :
    (ringbufAddBack rb p).1 = true ∧ (ringbufAddBack rb p).2.Wf ∧
      (ringbufAddBack rb p).2.contents = p :: rb.contents := by
  rw [ringbufAddBack_of_not_full_eq hfull]
  dsimp only
  refine ⟨rfl, ⟨h.capacity_pos, h.capacity_le, h.head_lt, ringPrev_lt h.capacity_pos⟩, ?_⟩
  have hcount : ({ rb with
      buf := Function.update rb.buf (ringPrev rb.capacity rb.tail) p
      tail := ringPrev rb.capacity rb.tail } : RingBuf α).count = rb.count + 1 :=
    ringCount_ringPrev_tail h.head_lt h.tail_lt h.capacity_le hfull
  -- below the bound there is room for one more element besides the free slot
  have hlt : rb.count + 1 < rb.capacity := by
    have hcountlt := RingBuf.count_lt h
    have hne : rb.count ≠ rb.capacity - 1 :=
      (ringNext_eq_tail_iff h.head_lt h.tail_lt h.capacity_le).not.mp hfull
    omega
  rw [RingBuf.contents_of_count_succ' hcount]
  dsimp only
  rw [Nat.mod_eq_of_lt (ringPrev_lt h.capacity_pos), Function.update_self,
    map_update_of_ne, RingBuf.contents]
  · congr 1
    apply List.map_congr_left
    intro i _
    rw [ringPrev_add_succ h.tail_lt h.capacity_le]
  -- the new first slot is not one of the `count` slots after it
  · intro i hi heq
    have hsame : (ringPrev rb.capacity rb.tail + (i + 1)) % rb.capacity =
        (ringPrev rb.capacity rb.tail + 0) % rb.capacity := by
      rw [heq, Nat.add_zero, Nat.mod_eq_of_lt (ringPrev_lt h.capacity_pos)]
    exact absurd (add_mod_injective (by omega) h.capacity_pos hsame) (by omega)

/-- `remove_front` on a non-empty buffer takes the last element. -/
theorem ringbufRemoveFront_of_not_empty (h : rb.Wf) (hempty : rb.head ≠ rb.tail) :
    ∃ x, (ringbufRemoveFront rb).1 = some x ∧ (ringbufRemoveFront rb).2.Wf ∧
      rb.contents = (ringbufRemoveFront rb).2.contents ++ [x] := by
  have hlt := ringPrev_lt (x := rb.head) h.capacity_pos
  have hcount := ringCount_ringPrev_head h.head_lt h.tail_lt h.capacity_le hempty
  -- the last slot is `count - 1` places after `tail`, where the new head is
  have hlast := tail_add_ringCount hlt h.tail_lt
  rw [ringbufRemoveFront_of_not_empty_eq hempty]
  dsimp only
  refine ⟨_, rfl, ⟨h.capacity_pos, h.capacity_le, hlt, h.tail_lt⟩, ?_⟩
  rw [RingBuf.contents_of_count_succ hcount, hlast]
  rfl

/-- `remove_back` on a non-empty buffer takes the first element. -/
theorem ringbufRemoveBack_of_not_empty (h : rb.Wf) (hempty : rb.head ≠ rb.tail) :
    ∃ x, (ringbufRemoveBack rb).1 = some x ∧ (ringbufRemoveBack rb).2.Wf ∧
      rb.contents = x :: (ringbufRemoveBack rb).2.contents := by
  have hlt := ringNext_lt (x := rb.tail) h.capacity_pos
  have hcount := ringCount_ringNext_tail h.head_lt h.tail_lt h.capacity_le hempty
  have hslots := ringNext_add h.tail_lt h.capacity_le
  rw [ringbufRemoveBack_of_not_empty_eq hempty]
  dsimp only
  refine ⟨_, rfl, ⟨h.capacity_pos, h.capacity_le, h.head_lt, hlt⟩, ?_⟩
  rw [RingBuf.contents_of_count_succ' hcount, Nat.mod_eq_of_lt h.tail_lt, RingBuf.contents]
  congr 1
  apply List.map_congr_left
  intro i _
  exact congrArg rb.buf (hslots i).symm

/-- `ringbuf_size` is the number of elements, by either of its branches. -/
theorem ringbufSize_eq (h : rb.Wf) : ringbufSize rb = rb.contents.length := by
  have := h.head_lt
  have := h.tail_lt
  have := h.capacity_le
  rw [RingBuf.length_contents, RingBuf.count, ringCount_eq h.head_lt h.tail_lt, ringbufSize]
  split_ifs <;> omega

end Calls

/-! ### Refinement -/

section Refinement

variable {rb : RingBuf α}

theorem ringbufStep_capacity (rb : RingBuf α) (op : RingOp α) :
    (ringbufStep rb op).2.capacity = rb.capacity := by
  cases op <;>
    simp only [ringbufStep, ringbufAddFront, ringbufAddBack, ringbufRemoveFront,
      ringbufRemoveBack, Prod.map, id_eq] <;>
    split_ifs <;> dsimp only

/-- A call that reports failure returns before touching the buffer. -/
theorem ringbufStep_of_failed (rb : RingBuf α) (op : RingOp α)
    (h : (ringbufStep rb op).1.failed = true) : (ringbufStep rb op).2 = rb := by
  cases op with
  | addFront p | addBack p =>
    simp only [ringbufStep, ringbufAddFront, ringbufAddBack, Prod.map] at h ⊢
    split_ifs at h ⊢ <;> simp_all [RingResult.failed]
  | removeFront | removeBack =>
    simp only [ringbufStep, ringbufRemoveFront, ringbufRemoveBack, Prod.map] at h ⊢
    split_ifs at h ⊢ <;> simp_all [RingResult.failed]
  | size => rfl

theorem ringbufStep_wf (h : rb.Wf) (op : RingOp α) : (ringbufStep rb op).2.Wf := by
  cases op with
  | addFront p =>
    by_cases hfull : ringNext rb.capacity rb.head = rb.tail
    · simpa [ringbufStep, ringbufAddFront_of_full hfull] using h
    · exact (ringbufAddFront_of_not_full h hfull p).2.1
  | addBack p =>
    by_cases hfull : ringNext rb.capacity rb.head = rb.tail
    · simpa [ringbufStep, ringbufAddBack_of_full hfull] using h
    · exact (ringbufAddBack_of_not_full h hfull p).2.1
  | removeFront =>
    by_cases hempty : rb.head = rb.tail
    · simpa [ringbufStep, ringbufRemoveFront_of_empty hempty] using h
    · obtain ⟨_, _, hwf, _⟩ := ringbufRemoveFront_of_not_empty h hempty
      exact hwf
  | removeBack =>
    by_cases hempty : rb.head = rb.tail
    · simpa [ringbufStep, ringbufRemoveBack_of_empty hempty] using h
    · obtain ⟨_, _, hwf, _⟩ := ringbufRemoveBack_of_not_empty h hempty
      exact hwf
  | size => exact h

/-- On a well-formed buffer a call does to the contents what the deque does, and returns
what the deque returns. -/
theorem ringbufStep_refines (h : rb.Wf) (op : RingOp α) :
    ((ringbufStep rb op).1, (ringbufStep rb op).2.contents) =
      dequeStep rb.capacity rb.contents op := by
  have hfullIff : ringNext rb.capacity rb.head = rb.tail ↔ rb.count = rb.capacity - 1 :=
    ringNext_eq_tail_iff h.head_lt h.tail_lt h.capacity_le
  have hemptyIff := h.contents_eq_nil_iff
  cases op with
  | addFront p =>
    by_cases hfull : ringNext rb.capacity rb.head = rb.tail
    · simp [ringbufStep, dequeStep, ringbufAddFront_of_full hfull, hfullIff.mp hfull]
    · obtain ⟨hok, -, hcontents⟩ := ringbufAddFront_of_not_full h hfull p
      simp [ringbufStep, dequeStep, hok, hcontents, hfullIff.not.mp hfull]
  | addBack p =>
    by_cases hfull : ringNext rb.capacity rb.head = rb.tail
    · simp [ringbufStep, dequeStep, ringbufAddBack_of_full hfull, hfullIff.mp hfull]
    · obtain ⟨hok, -, hcontents⟩ := ringbufAddBack_of_not_full h hfull p
      simp [ringbufStep, dequeStep, hok, hcontents, hfullIff.not.mp hfull]
  | removeFront =>
    by_cases hempty : rb.head = rb.tail
    · simp [ringbufStep, dequeStep, ringbufRemoveFront_of_empty hempty, hemptyIff.mpr hempty]
    · obtain ⟨x, hx, -, hcontents⟩ := ringbufRemoveFront_of_not_empty h hempty
      simp [ringbufStep, dequeStep, hx, hcontents]
  | removeBack =>
    by_cases hempty : rb.head = rb.tail
    · simp [ringbufStep, dequeStep, ringbufRemoveBack_of_empty hempty, hemptyIff.mpr hempty]
    · obtain ⟨x, hx, -, hcontents⟩ := ringbufRemoveBack_of_not_empty h hempty
      simp [ringbufStep, dequeStep, hx, hcontents]
  | size => simp [ringbufStep, dequeStep, ringbufSize_eq h]

/-- A whole sequence of calls on a well-formed buffer returns what the deque returns, and
leaves the deque's final contents. -/
theorem ringbufRun_refines (h : rb.Wf) (ops : List (RingOp α)) :
    ((ringbufRun rb ops).1, (ringbufRun rb ops).2.contents) =
      dequeRun rb.capacity rb.contents ops := by
  -- induction on the calls, with the buffer generalized: each call keeps it well formed
  induction ops generalizing rb with
  | nil => rfl
  | cons op ops ih =>
    have hstep := ringbufStep_refines h op
    have hrest := ih (ringbufStep_wf h op)
    rw [ringbufStep_capacity] at hrest
    simp only [ringbufRun, dequeRun, ← hstep, ← hrest, Prod.map, id_eq]

/-- With room for two elements, a third add is refused, and the two ends come off in
deque order, as the deque answers them. -/
theorem ringbufRun_refines_full :
    let ops : List (RingOp Nat) :=
      [.addFront 1, .addBack 2, .addFront 3, .removeFront, .removeBack, .size]
    (ringbufRun (ringbufInit 3 fun _ => 0) ops).1 =
        [.added true, .added true, .added false, .removed (some 1), .removed (some 2), .size 0] ∧
      ((ringbufRun (ringbufInit 3 fun _ => 0) ops).1,
          (ringbufRun (ringbufInit 3 fun _ => 0) ops).2.contents) =
        dequeRun 3 [] ops := by
  intro ops
  have hwf : (ringbufInit 3 fun _ => 0).Wf := ⟨by decide, by decide, by decide, by decide⟩
  exact ⟨by decide, ringbufRun_refines hwf ops⟩

theorem RingBuf.Reachable.wf {capacity : Nat} (hpos : 1 ≤ capacity)
    (hsmall : capacity ≤ 2 ^ 31) (hreach : rb.Reachable capacity) :
    rb.Wf ∧ rb.capacity = capacity := by
  induction hreach with
  | init junk => exact ⟨⟨hpos, hsmall, hpos, hpos⟩, rfl⟩
  | step op _ ih =>
    exact ⟨ringbufStep_wf ih.1 op, (ringbufStep_capacity _ op).trans ih.2⟩

end Refinement

theorem ringbuf_refines_deque {capacity : Nat} (hpos : 1 ≤ capacity)
    (hsmall : capacity ≤ 2 ^ 31) {rb : RingBuf α} (hreach : rb.Reachable capacity)
    (op : RingOp α) :
    ((ringbufStep rb op).1, (ringbufStep rb op).2.contents) =
        dequeStep capacity rb.contents op ∧
      ((ringbufStep rb op).1.failed = true → (ringbufStep rb op).2 = rb) := by
  obtain ⟨hwf, hcap⟩ := hreach.wf hpos hsmall
  rw [← hcap]
  exact ⟨ringbufStep_refines hwf op, ringbufStep_of_failed rb op⟩

theorem ringbuf_refines_deque_after_add_back :
    let rb := (ringbufStep (ringbufInit 3 fun _ => (0 : Nat)) (.addBack 1)).2
    ((ringbufStep rb .removeFront).1, (ringbufStep rb .removeFront).2.contents) =
        dequeStep 3 rb.contents .removeFront ∧
      ((ringbufStep rb .removeFront).1.failed = true → (ringbufStep rb .removeFront).2 = rb) :=
  ringbuf_refines_deque (by decide) (by decide) (.step _ (.init _)) .removeFront

end DioptaseOS.Queue
