import Mathlib.Data.List.Basic
import Mathlib.Data.List.Infix
import Mathlib.Data.List.Nodup

/-!
# Pointer-linked lists in a heap of cells

An intrusive list keeps its links inside the cells it strings together: every
cell has a `next` and a `prev` field, and the list itself is only a head
pointer. This file gives the pointer writes of the three classic operations
(push at the head, pop the head, unlink an arbitrary cell) and the
representation predicate that says which abstract list a head pointer and a
heap of links stand for.

The predicate is stated pointwise, through the neighbours of a cell in the
abstract list, so that each operation is checked one cell at a time and the
cells an operation does not write are seen to be untouched.

## Main definitions

* `PtrList.after`, `PtrList.before` — the neighbours of an element in a list
* `PtrList.Links` — the `next`/`prev` fields of all cells
* `Links.push`, `Links.pop`, `Links.unlink` — the pointer writes of the operations
* `PtrList.Doubly` — a head pointer and the links represent a list, `NULL`-terminated
  in both directions
* `PtrList.Singly` — the same for a list linked through `next` only

## Main results

* `Doubly.push`, `Doubly.pop`, `Doubly.unlink` — each operation turns a representation of
  `l` into one of `a :: l`, of `l`'s tail, of `l.erase a`
* `Links.push_frame`, `Links.pop_frame`, `Links.unlink_frame` — cells other than the
  written ones keep their links, so lists sharing the heap are unaffected
* `Singly.push`, `Singly.pop`, `Singly.snoc` — the same for a singly linked list, with
  `snoc` appending after the last cell
* `Doubly.walk_eq_of_le` — following `next` from the head visits exactly the list
-/

namespace PtrList

variable {α : Type*} [DecidableEq α]

/-! ### Neighbours in a list -/

/-- The element right after the first occurrence of `a` in `l`. -/
def after : List α → α → Option α
  | [], _ => none
  | b :: l, a => if b = a then l.head? else after l a

/-- The element right before `a` in `l`: its successor in the reversed list. -/
def before (l : List α) (a : α) : Option α := after l.reverse a

@[simp] theorem after_nil (a : α) : after [] a = none := rfl

@[simp] theorem before_nil (a : α) : before [] a = none := rfl

@[simp] theorem after_cons_self (a : α) (l : List α) : after (a :: l) a = l.head? := by
  simp [after]

theorem after_cons_of_ne {a b : α} (l : List α) (h : b ≠ a) : after (b :: l) a = after l a := by
  simp [after, h]

theorem after_of_not_mem {a : α} {l : List α} (h : a ∉ l) : after l a = none := by
  induction l with
  | nil => rfl
  | cons b l ih =>
    rw [List.mem_cons, not_or] at h
    rw [after_cons_of_ne l (Ne.symm h.1), ih h.2]

theorem mem_of_after_eq_some {a b : α} {l : List α} (h : after l a = some b) : b ∈ l := by
  induction l with
  | nil => simp at h
  | cons c l ih =>
    by_cases hc : c = a
    · subst hc
      rw [after_cons_self] at h
      exact List.mem_cons_of_mem _ (List.mem_of_mem_head? h)
    · rw [after_cons_of_ne l hc] at h
      exact List.mem_cons_of_mem _ (ih h)

theorem after_append_cons {p s : List α} {x : α} (hnd : (p ++ x :: s).Nodup) :
    after (p ++ x :: s) x = s.head? := by
  induction p with
  | nil => simp
  | cons b p ih =>
    have hbx : b ≠ x := fun e => (List.nodup_cons.mp hnd).1 (by simp [e])
    rw [List.cons_append, after_cons_of_ne _ hbx, ih (List.nodup_cons.mp hnd).2]

/-- In a list without repetitions, `y` follows `x` exactly when `[x, y]` occurs in it. -/
theorem after_eq_some_iff {x y : α} {l : List α} (hnd : l.Nodup) :
    after l x = some y ↔ [x, y] <:+: l := by
  induction l with
  | nil => simp
  | cons b t ih =>
    rw [List.infix_cons_iff]
    by_cases hb : b = x
    · subst hb
      have hbt : [b, y] <:+: t → False := fun h =>
        (List.nodup_cons.mp hnd).1 (h.subset (by simp))
      cases t with
      | nil => simp
      | cons c t =>
        simp only [after_cons_self, List.head?_cons, Option.some.injEq, List.cons_prefix_cons,
          true_and, List.nil_prefix, and_true]
        exact ⟨fun h => .inl h.symm, fun h => h.elim Eq.symm (fun h' => (hbt h').elim)⟩
    · rw [after_cons_of_ne t hb, ih (List.nodup_cons.mp hnd).2]
      simp [List.cons_prefix_cons, Ne.symm hb]

theorem before_eq_some_iff {x y : α} {l : List α} (hnd : l.Nodup) :
    before l y = some x ↔ after l x = some y := by
  rw [before, after_eq_some_iff (List.nodup_reverse.mpr hnd), after_eq_some_iff hnd,
    ← List.reverse_infix]
  simp

theorem after_append_singleton_self {a : α} {l : List α} (h : a ∉ l) :
    after (l ++ [a]) a = none := by
  induction l with
  | nil => simp
  | cons b t ih =>
    rw [List.mem_cons, not_or] at h
    rw [List.cons_append, after_cons_of_ne _ (Ne.symm h.1), ih h.2]

/-- Appending an element only gives the old last element a successor. -/
theorem after_append_singleton {x : α} (a : α) {l : List α} (hnd : (l ++ [a]).Nodup)
    (hx : x ∈ l) : after (l ++ [a]) x = if l.getLast? = some x then some a else after l x := by
  induction l with
  | nil => simp at hx
  | cons b t ih =>
    by_cases hb : b = x
    · subst hb
      have hxt : b ∉ t ++ [a] := (List.nodup_cons.mp hnd).1
      cases t with
      | nil => simp
      | cons c t =>
        have hlast : (c :: t).getLast? ≠ some b := fun h =>
          hxt (List.mem_append_left _ (List.mem_of_getLast? h))
        simp [List.getLast?_cons_cons, hlast]
    · have hxt : x ∈ t := by simpa [Ne.symm hb] using hx
      rw [List.cons_append, after_cons_of_ne _ hb, after_cons_of_ne _ hb,
        ih (List.nodup_cons.mp hnd).2 hxt]
      cases t with
      | nil => simp at hxt
      | cons c t => simp [List.getLast?_cons_cons]

theorem after_eq_none_iff {a : α} {l : List α} (hnd : l.Nodup) (ha : a ∈ l) :
    after l a = none ↔ l.getLast? = some a := by
  induction l with
  | nil => simp at ha
  | cons b t ih =>
    by_cases hb : b = a
    · subst hb
      cases t with
      | nil => simp
      | cons c t =>
        have hlast : (c :: t).getLast? ≠ some b := fun h =>
          (List.nodup_cons.mp hnd).1 (List.mem_of_getLast? h)
        simp [List.getLast?_cons_cons, hlast]
    · have hat : a ∈ t := by simpa [Ne.symm hb] using ha
      rw [after_cons_of_ne _ hb, ih (List.nodup_cons.mp hnd).2 hat]
      cases t with
      | nil => simp at hat
      | cons c t => simp [List.getLast?_cons_cons]

theorem before_cons_self {a : α} {l : List α} (h : a ∉ l) : before (a :: l) a = none := by
  rw [before, List.reverse_cons]
  exact after_append_singleton_self (by simpa using h)

/-- Pushing `a` in front of `l` makes `a` the predecessor of `l`'s old head. -/
theorem before_cons {a x : α} {l : List α} (hnd : (a :: l).Nodup) (hx : x ∈ l) :
    before (a :: l) x = if l.head? = some x then some a else before l x := by
  have hnd' : (l.reverse ++ [a]).Nodup := by
    rw [← List.reverse_cons]
    exact List.nodup_reverse.mpr hnd
  rw [before, List.reverse_cons, after_append_singleton a hnd' (List.mem_reverse.mpr hx),
    List.getLast?_reverse, before]

theorem before_eq_none_iff {a : α} {l : List α} (hnd : l.Nodup) (ha : a ∈ l) :
    before l a = none ↔ l.head? = some a := by
  rw [before, after_eq_none_iff (List.nodup_reverse.mpr hnd) (List.mem_reverse.mpr ha),
    List.getLast?_reverse]

/-- Erasing `a` links the element before it directly to the one after it. -/
theorem after_erase {a x : α} {l : List α} (hnd : l.Nodup) (hx : x ∈ l) (hxa : x ≠ a) :
    after (l.erase a) x = if after l x = some a then after l a else after l x := by
  induction l with
  | nil => simp at hx
  | cons b t ih =>
    have hbt := (List.nodup_cons.mp hnd).1
    by_cases hba : b = a
    · subst hba
      have hnot : after t x ≠ some b := fun h => hbt (mem_of_after_eq_some h)
      simp [after_cons_of_ne t (Ne.symm hxa), hnot]
    · rw [List.erase_cons_tail (by simpa using hba), after_cons_of_ne t hba]
      by_cases hbx : b = x
      · subst hbx
        rw [after_cons_self, after_cons_self]
        cases t with
        | nil => simp
        | cons c t =>
          by_cases hca : c = a
          · subst hca
            simp
          · rw [List.erase_cons_tail (by simpa using hca)]
            simp [hca]
      · have hxt : x ∈ t := by simpa [Ne.symm hbx] using hx
        rw [after_cons_of_ne _ hbx, after_cons_of_ne _ hbx, ih (List.nodup_cons.mp hnd).2 hxt]

theorem reverse_erase {a : α} {l : List α} (hnd : l.Nodup) :
    (l.erase a).reverse = l.reverse.erase a := by
  rw [hnd.erase_eq_filter, (List.nodup_reverse.mpr hnd).erase_eq_filter, List.filter_reverse]

theorem before_erase {a x : α} {l : List α} (hnd : l.Nodup) (hx : x ∈ l) (hxa : x ≠ a) :
    before (l.erase a) x = if before l x = some a then before l a else before l x := by
  simp only [before]
  rw [reverse_erase hnd]
  exact after_erase (List.nodup_reverse.mpr hnd) (List.mem_reverse.mpr hx) hxa

/-! ### Links and the pointer writes of the list operations -/

/-- The `next` and `prev` fields of every cell of a heap. -/
structure Links (α : Type*) where
  next : α → Option α
  prev : α → Option α

namespace Links

/-- Push `a` in front of the list headed by `hd`: `a->prev = NULL; a->next = hd;
hd->prev = a`. The list's head becomes `a`. -/
def push (c : Links α) (hd : Option α) (a : α) : Links α :=
  let c : Links α := ⟨Function.update c.next a hd, Function.update c.prev a none⟩
  match hd with
  | some b => ⟨c.next, Function.update c.prev b (some a)⟩
  | none => c

/-- Pop the head `a`: `a->next->prev = NULL; a->next = a->prev = NULL`. The list's
head becomes the old `a->next`. -/
def pop (c : Links α) (a : α) : Links α :=
  let prev := match c.next a with
    | some b => Function.update c.prev b none
    | none => c.prev
  ⟨Function.update c.next a none, Function.update prev a none⟩

/-- Unlink the cell `a` from wherever it stands: its neighbours are joined and its own
links are cleared. -/
def unlink (c : Links α) (a : α) : Links α :=
  let next := match c.prev a with
    | some p => Function.update c.next p (c.next a)
    | none => c.next
  let prev := match c.next a with
    | some n => Function.update c.prev n (c.prev a)
    | none => c.prev
  ⟨Function.update next a none, Function.update prev a none⟩

/-- The head after unlinking `a` from the list headed by `hd`: unchanged unless `a` had
no predecessor, in which case `a`'s successor. -/
def unlinkHead (c : Links α) (hd : Option α) (a : α) : Option α :=
  match c.prev a with
  | some _ => hd
  | none => c.next a

/-- Push `a` in front of the list headed by `hd` in the order the slab lists use:
`a->next = hd; hd->prev = a; a->prev = NULL`. -/
def link (c : Links α) (hd : Option α) (a : α) : Links α :=
  let prev := match hd with
    | some b => Function.update c.prev b (some a)
    | none => c.prev
  ⟨Function.update c.next a hd, Function.update prev a none⟩

/-- Drop the head `a` by writing only its successor: `a->next->prev = NULL`. The cell `a`
keeps its links. -/
def dropHead (c : Links α) (a : α) : Links α :=
  match c.next a with
  | some n => ⟨c.next, Function.update c.prev n none⟩
  | none => c

/-- Join the neighbours of `a` around it: `a->prev->next = a->next;
a->next->prev = a->prev`. The cell `a` keeps its links. -/
def detach (c : Links α) (a : α) : Links α :=
  let next := match c.prev a with
    | some p => Function.update c.next p (c.next a)
    | none => c.next
  let prev := match c.next a with
    | some n => Function.update c.prev n (c.prev a)
    | none => c.prev
  ⟨next, prev⟩

variable (c : Links α) (hd : Option α) (a x : α)

theorem push_next : (c.push hd a).next x = if x = a then hd else c.next x := by
  cases hd <;> simp [push, Function.update_apply]

theorem push_prev :
    (c.push hd a).prev x = if hd = some x then some a else if x = a then none else c.prev x := by
  cases hd with
  | none => simp [push, Function.update_apply]
  | some b =>
    by_cases hb : b = x
    · simp [push, hb]
    · simp [push, Function.update_apply, hb, Ne.symm hb]

theorem pop_next : (c.pop a).next x = if x = a then none else c.next x := by
  simp [pop, Function.update_apply]

theorem pop_prev :
    (c.pop a).prev x = if x = a then none else if c.next a = some x then none else c.prev x := by
  rcases h : c.next a with _ | b
  · simp [pop, h, Function.update_apply]
  · by_cases hb : b = x
    · subst hb; simp [pop, h, Function.update_apply]
    · simp [pop, h, Function.update_apply, hb, Ne.symm hb]

theorem unlink_next : (c.unlink a).next x =
    if x = a then none else if c.prev a = some x then c.next a else c.next x := by
  rcases h : c.prev a with _ | p
  · simp [unlink, h, Function.update_apply]
  · by_cases hp : p = x
    · subst hp; simp [unlink, h, Function.update_apply]
    · simp [unlink, h, Function.update_apply, hp, Ne.symm hp]

theorem unlink_prev : (c.unlink a).prev x =
    if x = a then none else if c.next a = some x then c.prev a else c.prev x := by
  rcases h : c.next a with _ | n
  · simp [unlink, h, Function.update_apply]
  · by_cases hn : n = x
    · subst hn; simp [unlink, h, Function.update_apply]
    · simp [unlink, h, Function.update_apply, hn, Ne.symm hn]

theorem link_next : (c.link hd a).next x = if x = a then hd else c.next x := by
  cases hd <;> simp [link, Function.update_apply]

theorem link_prev :
    (c.link hd a).prev x = if x = a then none else if hd = some x then some a else c.prev x := by
  cases hd with
  | none => simp [link, Function.update_apply]
  | some b =>
    by_cases hb : b = x
    · subst hb; simp [link, Function.update_apply]
    · simp [link, Function.update_apply, hb, Ne.symm hb]

theorem dropHead_next : (c.dropHead a).next x = c.next x := by
  unfold dropHead
  split <;> rfl

theorem dropHead_prev :
    (c.dropHead a).prev x = if c.next a = some x then none else c.prev x := by
  rcases h : c.next a with _ | n
  · simp [dropHead, h]
  · by_cases hn : n = x
    · subst hn; simp [dropHead, h]
    · simp [dropHead, h, hn, Ne.symm hn]

theorem detach_next :
    (c.detach a).next x = if c.prev a = some x then c.next a else c.next x := by
  rcases h : c.prev a with _ | p
  · simp [detach, h]
  · by_cases hp : p = x
    · subst hp; simp [detach, h]
    · simp [detach, h, hp, Ne.symm hp]

theorem detach_prev :
    (c.detach a).prev x = if c.next a = some x then c.prev a else c.prev x := by
  rcases h : c.next a with _ | n
  · simp [detach, h]
  · by_cases hn : n = x
    · subst hn; simp [detach, h]
    · simp [detach, h, hn, Ne.symm hn]

variable {c hd a x}

/-- `link` and `push` write the same links, unless the list already starts with `a`. -/
theorem link_eq_push (hx : hd ≠ some a) :
    (c.link hd a).next x = (c.push hd a).next x ∧ (c.link hd a).prev x = (c.push hd a).prev x := by
  rw [link_next, push_next, link_prev, push_prev]
  refine ⟨rfl, ?_⟩
  by_cases hxa : x = a
  · subst hxa; rw [if_pos rfl, if_neg hx, if_pos rfl]
  · rw [if_neg hxa, if_neg hxa]

/-- `dropHead` and `pop` differ only on the dropped cell. -/
theorem dropHead_eq_pop (hxa : x ≠ a) :
    (c.dropHead a).next x = (c.pop a).next x ∧ (c.dropHead a).prev x = (c.pop a).prev x := by
  rw [dropHead_next, pop_next, dropHead_prev, pop_prev, if_neg hxa, if_neg hxa]
  exact ⟨rfl, rfl⟩

/-- `detach` and `unlink` differ only on the detached cell. -/
theorem detach_eq_unlink (hxa : x ≠ a) :
    (c.detach a).next x = (c.unlink a).next x ∧ (c.detach a).prev x = (c.unlink a).prev x := by
  rw [detach_next, unlink_next, detach_prev, unlink_prev, if_neg hxa, if_neg hxa]
  exact ⟨rfl, rfl⟩

/-- A push writes only the pushed cell and the old head. -/
theorem push_frame (hxa : x ≠ a) (hx : hd ≠ some x) :
    (c.push hd a).next x = c.next x ∧ (c.push hd a).prev x = c.prev x := by
  rw [push_next, push_prev, if_neg hxa, if_neg hx, if_neg hxa]
  exact ⟨rfl, rfl⟩

/-- A pop writes only the popped cell and its successor. -/
theorem pop_frame (hxa : x ≠ a) (hx : c.next a ≠ some x) :
    (c.pop a).next x = c.next x ∧ (c.pop a).prev x = c.prev x := by
  rw [pop_next, pop_prev, if_neg hxa, if_neg hxa, if_neg hx]
  exact ⟨rfl, rfl⟩

/-- An unlink writes only the unlinked cell and its two neighbours. -/
theorem unlink_frame (hxa : x ≠ a) (hp : c.prev a ≠ some x) (hn : c.next a ≠ some x) :
    (c.unlink a).next x = c.next x ∧ (c.unlink a).prev x = c.prev x := by
  rw [unlink_next, unlink_prev, if_neg hxa, if_neg hp, if_neg hxa, if_neg hn]
  exact ⟨rfl, rfl⟩

theorem link_frame (hxa : x ≠ a) (hx : hd ≠ some x) :
    (c.link hd a).next x = c.next x ∧ (c.link hd a).prev x = c.prev x := by
  rw [link_next, link_prev, if_neg hxa, if_neg hxa, if_neg hx]
  exact ⟨rfl, rfl⟩

theorem dropHead_frame (hx : c.next a ≠ some x) :
    (c.dropHead a).next x = c.next x ∧ (c.dropHead a).prev x = c.prev x := by
  rw [dropHead_next, dropHead_prev, if_neg hx]
  exact ⟨rfl, rfl⟩

theorem detach_frame (hp : c.prev a ≠ some x) (hn : c.next a ≠ some x) :
    (c.detach a).next x = c.next x ∧ (c.detach a).prev x = c.prev x := by
  rw [detach_next, detach_prev, if_neg hp, if_neg hn]
  exact ⟨rfl, rfl⟩

end Links

/-! ### Representation of a list -/

/-- The head pointer `hd` and the links `c` store the list `l`: `hd` is its first cell,
every cell's `next` is its successor and its `prev` its predecessor, with `none` (`NULL`)
at both ends, and no cell occurs twice. -/
structure Doubly (c : Links α) (hd : Option α) (l : List α) : Prop where
  nodup : l.Nodup
  head : hd = l.head?
  next : ∀ a ∈ l, c.next a = after l a
  prev : ∀ a ∈ l, c.prev a = before l a

/-- The cells visited by following `next` from `p`, at most `n` of them. -/
def walk (next : α → Option α) : Nat → Option α → List α
  | 0, _ => []
  | _ + 1, none => []
  | n + 1, some a => a :: walk next n (next a)

namespace Doubly

variable {c c' : Links α} {hd : Option α} {l : List α} {a : α}

theorem nil : Doubly c none [] :=
  ⟨List.nodup_nil, rfl, fun _ h => absurd h List.not_mem_nil, fun _ h => absurd h List.not_mem_nil⟩

/-- The representation only reads the links of the list's own cells. -/
theorem congr (h : Doubly c hd l) (heq : ∀ x ∈ l, c'.next x = c.next x ∧ c'.prev x = c.prev x) :
    Doubly c' hd l where
  nodup := h.nodup
  head := h.head
  next x hx := (heq x hx).1.trans (h.next x hx)
  prev x hx := (heq x hx).2.trans (h.prev x hx)

theorem push (h : Doubly c hd l) (ha : a ∉ l) : Doubly (c.push hd a) (some a) (a :: l) where
  nodup := List.nodup_cons.mpr ⟨ha, h.nodup⟩
  head := rfl
  next x hx := by
    rw [Links.push_next]
    by_cases hxa : x = a
    · subst hxa
      rw [if_pos rfl, after_cons_self, h.head]
    · have hxl : x ∈ l := by simpa [hxa] using hx
      rw [if_neg hxa, after_cons_of_ne l (Ne.symm hxa), h.next x hxl]
  prev x hx := by
    rw [Links.push_prev]
    by_cases hxa : x = a
    · subst hxa
      have hhd : hd ≠ some x := fun e => ha (List.mem_of_mem_head? (h.head ▸ e))
      rw [if_neg hhd, if_pos rfl, before_cons_self ha]
    · have hxl : x ∈ l := by simpa [hxa] using hx
      rw [if_neg hxa, before_cons (List.nodup_cons.mpr ⟨ha, h.nodup⟩) hxl, ← h.head,
        h.prev x hxl]

theorem pop {t : List α} (h : Doubly c (some a) (a :: t)) : Doubly (c.pop a) (c.next a) t := by
  have hat : a ∉ t := (List.nodup_cons.mp h.nodup).1
  have hnext : c.next a = t.head? := by rw [h.next a (by simp), after_cons_self]
  refine ⟨(List.nodup_cons.mp h.nodup).2, hnext, fun x hx => ?_, fun x hx => ?_⟩
  · have hxa : x ≠ a := fun e => hat (e ▸ hx)
    rw [Links.pop_next, if_neg hxa, h.next x (List.mem_cons_of_mem a hx),
      after_cons_of_ne t (Ne.symm hxa)]
  · have hxa : x ≠ a := fun e => hat (e ▸ hx)
    rw [Links.pop_prev, if_neg hxa, hnext, h.prev x (List.mem_cons_of_mem a hx),
      before_cons h.nodup hx]
    -- the new head loses its predecessor; every other cell keeps its own
    by_cases hx0 : t.head? = some x
    · obtain ⟨t', rfl⟩ : ∃ t', t = x :: t' := by
        cases t with
        | nil => simp at hx0
        | cons b t' => exact ⟨t', by simpa using hx0⟩
      rw [if_pos hx0, before_cons_self (List.nodup_cons.mp (List.nodup_cons.mp h.nodup).2).1]
    · rw [if_neg hx0, if_neg hx0]

theorem unlink (h : Doubly c hd l) (ha : a ∈ l) :
    Doubly (c.unlink a) (c.unlinkHead hd a) (l.erase a) := by
  have hprev := h.prev a ha
  have hnext := h.next a ha
  refine ⟨h.nodup.erase a, ?_, fun x hx => ?_, fun x hx => ?_⟩
  · -- the head moves only when `a` was the head, which is when it has no predecessor
    unfold Links.unlinkHead
    rw [hprev]
    rcases hb : before l a with _ | p
    · have hl : l.head? = some a := (before_eq_none_iff h.nodup ha).mp hb
      obtain ⟨t, rfl⟩ : ∃ t, l = a :: t := by
        cases l with
        | nil => simp at hl
        | cons b t => exact ⟨t, by simpa using hl⟩
      simp [hnext]
    · have hl : l.head? ≠ some a := fun e => by
        rw [(before_eq_none_iff h.nodup ha).mpr e] at hb
        cases hb
      rw [h.head]
      cases l with
      | nil => simp at ha
      | cons b t =>
        have hba : b ≠ a := fun e => hl (by simp [e])
        rw [List.erase_cons_tail (by simpa using hba)]
        rfl
  · have hxa : x ≠ a := fun e => (h.nodup.not_mem_erase (e ▸ hx))
    have hxl : x ∈ l := List.mem_of_mem_erase hx
    rw [Links.unlink_next, if_neg hxa, hprev, after_erase h.nodup hxl hxa, h.next x hxl, hnext]
    by_cases hc : after l x = some a
    · rw [if_pos ((before_eq_some_iff h.nodup).mpr hc), if_pos hc]
    · rw [if_neg (mt (before_eq_some_iff h.nodup).mp hc), if_neg hc]
  · have hxa : x ≠ a := fun e => (h.nodup.not_mem_erase (e ▸ hx))
    have hxl : x ∈ l := List.mem_of_mem_erase hx
    rw [Links.unlink_prev, if_neg hxa, hnext, before_erase h.nodup hxl hxa, h.prev x hxl, hprev]
    by_cases hc : before l x = some a
    · rw [if_pos ((before_eq_some_iff h.nodup).mp hc), if_pos hc]
    · rw [if_neg (mt (before_eq_some_iff h.nodup).mpr hc), if_neg hc]

theorem link (h : Doubly c hd l) (ha : a ∉ l) : Doubly (c.link hd a) (some a) (a :: l) := by
  have hx : hd ≠ some a := fun e => ha (List.mem_of_mem_head? (h.head ▸ e))
  exact (h.push ha).congr fun _ _ => Links.link_eq_push hx

theorem dropHead {t : List α} (h : Doubly c (some a) (a :: t)) :
    Doubly (c.dropHead a) (c.next a) t := by
  have hat : a ∉ t := (List.nodup_cons.mp h.nodup).1
  exact h.pop.congr fun x hx => Links.dropHead_eq_pop fun e => hat (e ▸ hx)

theorem detach (h : Doubly c hd l) (ha : a ∈ l) :
    Doubly (c.detach a) (c.unlinkHead hd a) (l.erase a) :=
  (h.unlink ha).congr fun _ hx =>
    Links.detach_eq_unlink fun e => h.nodup.not_mem_erase (e ▸ hx)

end Doubly

/-! ### Families of lists sharing one heap of links -/

/-- Lists indexed by `ι`, threaded through one heap of links, no cell on two of them. -/
structure Family {ι : Type*} (c : Links α) (heads : ι → Option α) (L : ι → List α) : Prop where
  doubly : ∀ i, Doubly c (heads i) (L i)
  disjoint : ∀ i j, i ≠ j → ∀ x ∈ L i, x ∉ L j

namespace Family

variable {ι : Type*} [DecidableEq ι] {c : Links α} {heads : ι → Option α} {L : ι → List α}
  {a : α}

omit [DecidableEq ι] in
/-- The head of a list is none of the cells of another list. -/
theorem head_ne (h : Family c heads L) {i k : ι} {x : α} (hx : x ∈ L i) (hik : i ≠ k) :
    heads k ≠ some x := fun e =>
  h.disjoint i k hik x hx (List.mem_of_mem_head? ((h.doubly k).head ▸ e))

omit [DecidableEq ι] in
/-- No lists, all heads `NULL`. -/
theorem nil : Family c (fun _ : ι => none) (fun _ => []) :=
  ⟨fun _ => Doubly.nil, fun _ _ _ _ h => absurd h List.not_mem_nil⟩

omit [DecidableEq ι] in
/-- The family only reads the links of its own cells. -/
theorem congr {c' : Links α} (h : Family c heads L)
    (heq : ∀ i, ∀ x ∈ L i, c'.next x = c.next x ∧ c'.prev x = c.prev x) : Family c' heads L :=
  ⟨fun i => (h.doubly i).congr (heq i), h.disjoint⟩

omit [DecidableEq α] in
private theorem mem_update_cons_iff {k i : ι} {x : α} :
    x ∈ Function.update L k (a :: L k) i ↔ (i = k ∧ x = a) ∨ x ∈ L i := by
  by_cases hik : i = k
  · subst hik; simp
  · simp [hik]

/-- Link a cell that is on no list in front of list `k`. -/
theorem link (h : Family c heads L) (ha : ∀ i, a ∉ L i) (k : ι) :
    Family (c.link (heads k) a) (Function.update heads k (some a))
      (Function.update L k (a :: L k)) where
  doubly i := by
    by_cases hik : i = k
    · subst hik
      simp only [Function.update_self]
      exact (h.doubly i).link (ha i)
    · simp only [Function.update_of_ne hik]
      exact (h.doubly i).congr fun x hx =>
        Links.link_frame (fun e => ha i (e ▸ hx)) (h.head_ne hx hik)
  disjoint i j hij x hi hj := by
    rcases mem_update_cons_iff.mp hi with ⟨hik, hxa⟩ | hi
    · rcases mem_update_cons_iff.mp hj with ⟨hjk, -⟩ | hj
      · exact hij (hik.trans hjk.symm)
      · exact ha j (hxa ▸ hj)
    · rcases mem_update_cons_iff.mp hj with ⟨-, hxa⟩ | hj
      · exact ha i (hxa ▸ hi)
      · exact h.disjoint i j hij x hi hj

omit [DecidableEq α] in
private theorem mem_of_mem_update {k i : ι} {l : List α} (hl : l ⊆ L k) {x : α}
    (hx : x ∈ Function.update L k l i) : x ∈ L i := by
  by_cases hik : i = k
  · subst hik; rw [Function.update_self] at hx; exact hl hx
  · rwa [Function.update_of_ne hik] at hx

/-- Replacing a list by a sublist of it keeps the lists disjoint. -/
private theorem disjoint_update {k : ι} {l : List α} (h : Family c heads L) (hl : l ⊆ L k) :
    ∀ i j, i ≠ j → ∀ x ∈ Function.update L k l i, x ∉ Function.update L k l j :=
  fun i j hij x hi hj => h.disjoint i j hij x (mem_of_mem_update hl hi) (mem_of_mem_update hl hj)

/-- Unlink a cell from its list `k`. -/
theorem detach (h : Family c heads L) {k : ι} (ha : a ∈ L k) :
    Family (c.detach a) (Function.update heads k (c.unlinkHead (heads k) a))
      (Function.update L k ((L k).erase a)) where
  doubly i := by
    by_cases hik : i = k
    · subst hik
      simp only [Function.update_self]
      exact (h.doubly i).detach ha
    · simp only [Function.update_of_ne hik]
      -- the neighbours of `a` are on its own list
      refine (h.doubly i).congr fun x hx => Links.detach_frame ?_ ?_
      · rw [(h.doubly k).prev a ha]
        exact fun e => h.disjoint i k hik x hx (List.mem_reverse.mp (mem_of_after_eq_some e))
      · rw [(h.doubly k).next a ha]
        exact fun e => h.disjoint i k hik x hx (mem_of_after_eq_some e)
  disjoint := h.disjoint_update List.erase_subset

/-- Drop the head `a` of list `k`. -/
theorem dropHead (h : Family c heads L) {k : ι} {t : List α} (hk : L k = a :: t) :
    Family (c.dropHead a) (Function.update heads k (c.next a)) (Function.update L k t) where
  doubly i := by
    have hd := h.doubly k
    rw [hk] at hd
    have hnext : c.next a = t.head? := by rw [hd.next a List.mem_cons_self, after_cons_self]
    by_cases hik : i = k
    · subst hik
      simp only [Function.update_self]
      rw [(h.doubly i).head, hk] at hd
      exact hd.dropHead
    · simp only [Function.update_of_ne hik]
      refine (h.doubly i).congr fun x hx => Links.dropHead_frame ?_
      rw [hnext]
      exact fun e => h.disjoint i k hik x hx (hk ▸ List.mem_cons_of_mem a (List.mem_of_mem_head? e))
  disjoint := h.disjoint_update (hk ▸ List.subset_cons_self a t)

omit [DecidableEq ι] in
/-- A cell on the lists is `a`, on the list that holds `a`, or another cell. -/
theorem mem_stay (h : Family c heads L) {k : ι} (ha : a ∈ L k) {i : ι} {x : α} (hx : x ∈ L i) :
    (i = k ∧ x = a) ∨ (x ∈ L i ∧ x ≠ a) := by
  by_cases hxa : x = a
  · subst hxa
    by_cases hik : i = k
    · exact .inl ⟨hik, rfl⟩
    · exact absurd ha (h.disjoint i k hik x hx)
  · exact .inr ⟨hx, hxa⟩

/-- A cell on the lists after `a` moved from list `k₁` to list `k₂` is `a`, on list `k₂`,
or another cell on its old list. -/
theorem mem_move (h : Family c heads L) {k₁ k₂ : ι} (ha : a ∈ L k₁) (hne : k₁ ≠ k₂) {i : ι}
    {x : α} (hx : x ∈ Function.update (Function.update L k₁ ((L k₁).erase a)) k₂ (a :: L k₂) i) :
    (i = k₂ ∧ x = a) ∨ (x ∈ L i ∧ x ≠ a) := by
  by_cases hi₂ : i = k₂
  · subst hi₂
    rw [Function.update_self] at hx
    rcases List.mem_cons.mp hx with rfl | hx
    · exact .inl ⟨rfl, rfl⟩
    · exact .inr ⟨hx, fun e => h.disjoint k₁ i hne a ha (e ▸ hx)⟩
  · rw [Function.update_of_ne hi₂] at hx
    refine .inr ?_
    by_cases hi₁ : i = k₁
    · subst hi₁
      rw [Function.update_self] at hx
      exact ⟨List.mem_of_mem_erase hx, fun e => (h.doubly i).nodup.not_mem_erase (e ▸ hx)⟩
    · rw [Function.update_of_ne hi₁] at hx
      exact ⟨hx, fun e => h.disjoint k₁ i (Ne.symm hi₁) a ha (e ▸ hx)⟩

/-- A cell on the lists after `a` left list `k` is another cell on its old list. -/
theorem mem_remove (h : Family c heads L) {k : ι} (ha : a ∈ L k) {i : ι} {x : α}
    (hx : x ∈ Function.update L k ((L k).erase a) i) : x ∈ L i ∧ x ≠ a := by
  by_cases hik : i = k
  · subst hik
    rw [Function.update_self] at hx
    exact ⟨List.mem_of_mem_erase hx, fun e => (h.doubly i).nodup.not_mem_erase (e ▸ hx)⟩
  · rw [Function.update_of_ne hik] at hx
    exact ⟨hx, fun e => h.disjoint k i (Ne.symm hik) a ha (e ▸ hx)⟩

/-- Move the head `a` of list `k₁` to the front of list `k₂`: drop it, then link it. -/
theorem dropHead_link (h : Family c heads L) {k₁ k₂ : ι} {t : List α} (hk : L k₁ = a :: t)
    (hne : k₁ ≠ k₂) :
    Family ((c.dropHead a).link (heads k₂) a)
      (Function.update (Function.update heads k₁ (c.next a)) k₂ (some a))
      (Function.update (Function.update L k₁ t) k₂ (a :: L k₂)) := by
  have h₁ := h.dropHead hk
  have ha : ∀ i, a ∉ Function.update L k₁ t i := by
    intro i
    by_cases hik : i = k₁
    · subst hik
      rw [Function.update_self]
      exact (List.nodup_cons.mp (hk ▸ (h.doubly i).nodup)).1
    · rw [Function.update_of_ne hik]
      exact h.disjoint k₁ i (Ne.symm hik) a (hk ▸ List.mem_cons_self)
  have h₂ := h₁.link ha k₂
  rwa [Function.update_of_ne hne.symm, Function.update_of_ne hne.symm] at h₂

/-- Move a cell `a` of list `k₁` to the front of list `k₂`: unlink it, then link it. -/
theorem detach_link (h : Family c heads L) {k₁ k₂ : ι} (hk : a ∈ L k₁) (hne : k₁ ≠ k₂) :
    Family ((c.detach a).link (heads k₂) a)
      (Function.update (Function.update heads k₁ (c.unlinkHead (heads k₁) a)) k₂ (some a))
      (Function.update (Function.update L k₁ ((L k₁).erase a)) k₂ (a :: L k₂)) := by
  have h₁ := h.detach hk
  have ha : ∀ i, a ∉ Function.update L k₁ ((L k₁).erase a) i := by
    intro i
    by_cases hik : i = k₁
    · subst hik
      rw [Function.update_self]
      exact (h.doubly i).nodup.not_mem_erase
    · rw [Function.update_of_ne hik]
      exact h.disjoint k₁ i (Ne.symm hik) a hk
  have h₂ := h₁.link ha k₂
  rwa [Function.update_of_ne hne.symm, Function.update_of_ne hne.symm] at h₂

end Family

/-! ### Singly linked lists -/

/-- The head pointer `hd` and the `next` fields store the list `l`, `NULL`-terminated, with
no cell twice. -/
structure Singly (next : α → Option α) (hd : Option α) (l : List α) : Prop where
  nodup : l.Nodup
  head : hd = l.head?
  next : ∀ a ∈ l, next a = after l a

namespace Singly

variable {next next' : α → Option α} {hd : Option α} {l : List α} {a : α}

theorem nil : Singly next none [] := ⟨List.nodup_nil, rfl, fun _ h => absurd h List.not_mem_nil⟩

theorem of_doubly {c : Links α} (h : Doubly c hd l) : Singly c.next hd l :=
  ⟨h.nodup, h.head, h.next⟩

/-- The representation only reads the `next` fields of the list's own cells. -/
theorem congr (h : Singly next hd l) (heq : ∀ x ∈ l, next' x = next x) : Singly next' hd l :=
  ⟨h.nodup, h.head, fun x hx => (heq x hx).trans (h.next x hx)⟩

/-- Push: `a->next = hd; hd = a`. -/
theorem push (h : Singly next hd l) (ha : a ∉ l) :
    Singly (Function.update next a hd) (some a) (a :: l) where
  nodup := List.nodup_cons.mpr ⟨ha, h.nodup⟩
  head := rfl
  next x hx := by
    by_cases hxa : x = a
    · subst hxa
      rw [Function.update_self, after_cons_self, h.head]
    · have hxl : x ∈ l := by simpa [hxa] using hx
      rw [Function.update_of_ne hxa, after_cons_of_ne l (Ne.symm hxa), h.next x hxl]

/-- Pop: `hd = a->next`. -/
theorem pop {t : List α} (h : Singly next (some a) (a :: t)) : Singly next (next a) t where
  nodup := (List.nodup_cons.mp h.nodup).2
  head := by rw [h.next a List.mem_cons_self, after_cons_self]
  next x hx := by
    have hxa : x ≠ a := fun e => (List.nodup_cons.mp h.nodup).1 (e ▸ hx)
    rw [h.next x (List.mem_cons_of_mem a hx), after_cons_of_ne t (Ne.symm hxa)]

/-- The one-cell list of a detached cell: `a->next = NULL; hd = a`. -/
theorem singleton (next : α → Option α) (a : α) :
    Singly (Function.update next a none) (some a) [a] where
  nodup := List.nodup_singleton a
  head := rfl
  next x hx := by
    rw [List.mem_singleton] at hx
    subst hx
    rw [Function.update_self, after_cons_self, List.head?_nil]

/-- Append after the last cell `t`: `a->next = NULL; t->next = a`. -/
theorem snoc {t : α} (h : Singly next hd l) (ha : a ∉ l) (ht : l.getLast? = some t) :
    Singly (Function.update (Function.update next a none) t (some a)) hd (l ++ [a]) := by
  have htl : t ∈ l := List.mem_of_getLast? ht
  have hta : t ≠ a := fun e => ha (e ▸ htl)
  have hnd : (l ++ [a]).Nodup := h.nodup.append (List.nodup_singleton a) (by simpa using ha)
  refine ⟨hnd, ?_, fun x hx => ?_⟩
  · cases l with
    | nil => simp at ht
    | cons b l => rw [h.head]; rfl
  · rcases List.mem_append.mp hx with hx | hx
    · -- an old cell: only the last one gets a successor
      have hxa : x ≠ a := fun e => ha (e ▸ hx)
      rw [after_append_singleton a hnd hx]
      by_cases hxt : x = t
      · subst hxt
        rw [Function.update_self, if_pos ht]
      · rw [Function.update_of_ne hxt, Function.update_of_ne hxa, h.next x hx,
          if_neg fun e => hxt (Option.some.inj (ht.symm.trans e)).symm]
    · rw [List.mem_singleton] at hx
      subst hx
      rw [Function.update_of_ne (Ne.symm hta), Function.update_self,
        after_append_singleton_self ha]

/-- Following `next` from the head walks the list and stops at `NULL`, given at least as
many steps as the list is long. -/
theorem walk_eq_of_le (h : Singly next hd l) {n : Nat} (hn : l.length ≤ n) : walk next n hd = l := by
  suffices key : ∀ p s m, l = p ++ s → walk next (s.length + m) s.head? = s by
    have := key [] l (n - l.length) rfl
    rwa [Nat.add_sub_cancel' hn, ← h.head] at this
  intro p s
  -- induction on the suffix still to be walked, carrying the prefix already visited
  induction s generalizing p with
  | nil => intro m _; cases m <;> rfl
  | cons x s ih =>
    intro m hl
    have hx : x ∈ l := by simp [hl]
    have hnx : next x = s.head? := by rw [h.next x hx, hl, after_append_cons (hl ▸ h.nodup)]
    rw [List.length_cons, Nat.add_right_comm, List.head?_cons, walk, hnx,
      ih (p ++ [x]) m (by simp [hl])]

theorem eq_nil_of_none (h : Singly next none l) : l = [] :=
  List.head?_eq_none_iff.mp h.head.symm

theorem eq_cons_of_some (h : Singly next (some a) l) : ∃ t, l = a :: t := by
  cases l with
  | nil => cases h.head
  | cons b t =>
    obtain rfl : a = b := Option.some.inj h.head
    exact ⟨t, rfl⟩

end Singly

theorem Doubly.walk_eq_of_le {c : Links α} {hd : Option α} {l : List α} (h : Doubly c hd l) {n : Nat}
    (hn : l.length ≤ n) : walk c.next n hd = l :=
  (Singly.of_doubly h).walk_eq_of_le hn

end PtrList
