import Mathlib

/-!
# Packed radix trees in a block store

A store maps a block number to a row of entries, `0` for an empty one. A node of height `0`
holds its leaves as its entries; a node of height `h + 1` holds as its entries the nodes of
height `h` below it. A tree that only ever grows at its end is packed from the left: every
row holds its used entries first and zeros after them, and every child but the last is full.

## Main definitions

* `RadixTree.Row` — a row that holds a list of non-zero entries, then zeros
* `RadixTree.Packed` — the leaf lists of a node's children: non-empty, all but the last full
* `RadixTree.Holds` — a node holds a list of leaves, with a list of nodes
* `RadixTree.collect` — the walk that visits every non-zero entry below a node, then the node

## Main results

* `RadixTree.Holds.collect_perm` — the walk visits every leaf and every node, once each
* `RadixTree.Holds.frame` — a tree is kept by every write outside its nodes
* `RadixTree.Holds.snoc_new`, `RadixTree.Holds.snoc_last` — appending a leaf in a new child
  or in the last child keeps the tree packed
-/

namespace RadixTree

open scoped List

/-! ### Rows -/

section Rows

variable {w : ℕ} {store store' : ℕ → List ℕ} {p x : ℕ} {xs : List ℕ}

/-- Row `p` of the store holds the non-zero entries `xs`, then zeros, `w` entries in all. -/
structure Row (w : ℕ) (store : ℕ → List ℕ) (p : ℕ) (xs : List ℕ) : Prop where
  eq : store p = xs ++ List.replicate (w - xs.length) 0
  length_le : xs.length ≤ w
  ne_zero : ∀ x ∈ xs, x ≠ 0

theorem row_nil (h : store p = List.replicate w 0) : Row w store p [] :=
  ⟨by simpa using h, Nat.zero_le _, by simp⟩

theorem Row.filter (h : Row w store p xs) : (store p).filter (· != 0) = xs := by
  rw [h.eq, List.filter_append, List.filter_replicate_of_neg (by simp), List.append_nil,
    List.filter_eq_self]
  intro y hy
  simpa using h.ne_zero y hy

theorem Row.getD (h : Row w store p xs) {i : ℕ} (hi : i < xs.length) :
    (store p).getD i 0 = xs[i] := by
  rw [h.eq, List.getD_eq_getElem?_getD, List.getElem?_append_left hi, List.getElem?_eq_getElem hi,
    Option.getD_some]

/-- Writing a non-zero entry at the first free slot of a row that is not full. -/
theorem Row.snoc (h : Row w store p xs) (hlt : xs.length < w) (hx : x ≠ 0)
    (h' : store' p = (store p).set xs.length x) : Row w store' p (xs ++ [x]) := by
  obtain ⟨k, hk⟩ : ∃ k, w - xs.length = k + 1 := ⟨w - xs.length - 1, by omega⟩
  refine ⟨?_, by simp; omega, ?_⟩
  · have hk' : w - (xs ++ [x]).length = k := by simp; omega
    rw [h', h.eq, hk, List.set_append_right _ _ (Nat.le_refl _), Nat.sub_self, hk',
      List.replicate_succ, List.set_cons_zero, List.append_assoc, List.singleton_append]
  · intro y hy
    rcases List.mem_append.mp hy with hy | hy
    · exact h.ne_zero y hy
    · simp only [List.mem_singleton] at hy
      exact hy ▸ hx

theorem Row.frame (h : Row w store p xs) (hp : store' p = store p) : Row w store' p xs :=
  ⟨hp.trans h.eq, h.length_le, h.ne_zero⟩

end Rows

/-! ### Packed leaf lists -/

section Packing

variable {cap : ℕ} {ls : List (List ℕ)}

/-- The leaf lists of the children of a node whose children hold `cap` leaves each: each list
is non-empty and at most `cap` long, and all but the last are full. -/
structure Packed (cap : ℕ) (ls : List (List ℕ)) : Prop where
  ne_nil : ∀ l ∈ ls, l ≠ []
  length_le : ∀ l ∈ ls, l.length ≤ cap
  full : ∀ l ∈ ls.dropLast, l.length = cap

theorem length_flatten_of_full {ls : List (List ℕ)} (h : ∀ l ∈ ls, l.length = cap) :
    ls.flatten.length = ls.length * cap := by
  induction ls with
  | nil => simp
  | cons l ls ih =>
    simp only [List.flatten_cons, List.length_append, List.length_cons,
      h l List.mem_cons_self, ih fun l' hl' => h l' (List.mem_cons_of_mem _ hl'), Nat.succ_mul]
    omega

theorem length_flatten_le_mul {ls : List (List ℕ)} (h : ∀ l ∈ ls, l.length ≤ cap) :
    ls.flatten.length ≤ ls.length * cap := by
  induction ls with
  | nil => simp
  | cons l ls ih =>
    have hl := h l List.mem_cons_self
    have hs := ih fun l' hl' => h l' (List.mem_cons_of_mem _ hl')
    simp only [List.flatten_cons, List.length_append, List.length_cons, Nat.succ_mul]
    omega

theorem Packed.length_flatten_le (h : Packed cap ls) : ls.flatten.length ≤ ls.length * cap :=
  length_flatten_le_mul h.length_le

/-- A packed list is full lists and a last one. -/
theorem Packed.length_flatten_concat {init : List (List ℕ)} {l : List ℕ}
    (h : Packed cap (init ++ [l])) : (init ++ [l]).flatten.length = init.length * cap + l.length := by
  have hfull : ∀ l' ∈ init, l'.length = cap := fun l' hl' => h.full l' (by simpa using hl')
  rw [List.flatten_append, List.length_append, List.flatten_singleton, length_flatten_of_full hfull]

theorem Packed.last_pos {init : List (List ℕ)} {l : List ℕ} (h : Packed cap (init ++ [l])) :
    0 < l.length :=
  List.length_pos_iff.mpr (h.ne_nil l (by simp))

/-- When the leaves fill whole children, every child is full. -/
theorem Packed.length_flatten_of_mod (h : Packed cap ls) (hmod : ls.flatten.length % cap = 0) :
    ls.flatten.length = ls.length * cap := by
  rcases List.eq_nil_or_concat' ls with rfl | ⟨init, l, rfl⟩
  · simp
  · have hlen := h.length_flatten_concat
    have hl := h.length_le l (by simp)
    have hl0 := h.last_pos
    rw [hlen, Nat.mul_comm, Nat.mul_add_mod] at hmod
    have hcap : l.length = cap := by
      rcases Nat.lt_or_ge l.length cap with hlt | hge
      · rw [Nat.mod_eq_of_lt hlt] at hmod; omega
      · omega
    rw [hlen, hcap, List.length_append, List.length_singleton, Nat.succ_mul]

/-- When the leaves do not fill whole children, they end in the last child, which is not
full. -/
theorem Packed.div_of_mod {init : List (List ℕ)} {l : List ℕ} (h : Packed cap (init ++ [l]))
    (hmod : (init ++ [l]).flatten.length % cap ≠ 0) :
    (init ++ [l]).flatten.length / cap = init.length ∧
      l.length = (init ++ [l]).flatten.length % cap ∧ l.length < cap := by
  have hlen := h.length_flatten_concat
  have hl := h.length_le l (by simp)
  have hlt : l.length < cap := by
    rcases Nat.lt_or_ge l.length cap with hlt | hge
    · exact hlt
    · rw [hlen, show l.length = cap by omega, ← Nat.succ_mul] at hmod
      simp at hmod
  refine ⟨?_, ?_, hlt⟩
  · rw [hlen, Nat.mul_comm, Nat.mul_add_div (by omega), Nat.div_eq_of_lt hlt, Nat.add_zero]
  · rw [hlen, Nat.mul_comm, Nat.mul_add_mod, Nat.mod_eq_of_lt hlt]

theorem Packed.snoc_new (h : Packed cap ls) (hcap : 0 < cap) (hmod : ls.flatten.length % cap = 0)
    (b : ℕ) : Packed cap (ls ++ [[b]]) := by
  refine ⟨?_, ?_, ?_⟩
  · intro l hl
    rcases List.mem_append.mp hl with hl | hl
    · exact h.ne_nil l hl
    · simp only [List.mem_singleton] at hl; simp [hl]
  · intro l hl
    rcases List.mem_append.mp hl with hl | hl
    · exact h.length_le l hl
    · simp only [List.mem_singleton] at hl; simp [hl]; omega
  · intro l hl
    rw [List.dropLast_concat] at hl
    rcases List.eq_nil_or_concat' ls with rfl | ⟨init, last, rfl⟩
    · simp at hl
    · rcases List.mem_append.mp hl with hl | hl
      · exact h.full l (by simpa using hl)
      · -- the old last child is full, since the leaves fill whole children
        have hall := h.length_flatten_of_mod hmod
        have hlen := h.length_flatten_concat
        simp only [List.mem_singleton] at hl
        rw [List.length_append, List.length_singleton, Nat.succ_mul] at hall
        subst hl
        omega

theorem Packed.snoc_last {init : List (List ℕ)} {l : List ℕ} (h : Packed cap (init ++ [l]))
    (hlt : l.length < cap) (b : ℕ) : Packed cap (init ++ [l ++ [b]]) := by
  refine ⟨?_, ?_, ?_⟩
  · intro l' hl'
    rcases List.mem_append.mp hl' with hl' | hl'
    · exact h.ne_nil l' (by simp [hl'])
    · simp only [List.mem_singleton] at hl'; simp [hl']
  · intro l' hl'
    rcases List.mem_append.mp hl' with hl' | hl'
    · exact h.length_le l' (by simp [hl'])
    · simp only [List.mem_singleton] at hl'; simp [hl']; omega
  · intro l' hl'
    rw [List.dropLast_concat] at hl'
    exact h.full l' (by simpa using hl')

end Packing

/-! ### Trees -/

/-- A child of a node: its block, the leaves below it and the nodes of its subtree. -/
structure Child where
  node : ℕ
  leaves : List ℕ
  nodes : List ℕ

/-- `Holds w store h p leaves nodes`: the node `p` of height `h` holds `leaves`, packed from the
left, and the nodes of its subtree are `nodes`, its own block last. -/
def Holds (w : ℕ) (store : ℕ → List ℕ) : ℕ → ℕ → List ℕ → List ℕ → Prop
  | 0, p, leaves, nodes => Row w store p leaves ∧ nodes = [p]
  | h + 1, p, leaves, nodes => ∃ kids : List Child,
      Row w store p (kids.map Child.node) ∧ (∀ k ∈ kids, Holds w store h k.node k.leaves k.nodes) ∧
      Packed (w ^ (h + 1)) (kids.map Child.leaves) ∧
      leaves = kids.flatMap Child.leaves ∧ nodes = kids.flatMap Child.nodes ++ [p]

/-- The walk below a node of height `h`: every non-zero entry of its row, each a leaf or the
walk below it, and the node itself last. -/
def collect (store : ℕ → List ℕ) : ℕ → ℕ → List ℕ
  | 0, p => (store p).filter (· != 0) ++ [p]
  | h + 1, p => ((store p).filter (· != 0)).flatMap (collect store h) ++ [p]

section Trees

variable {w : ℕ} {store store' : ℕ → List ℕ} {h p : ℕ} {leaves nodes : List ℕ}

theorem holds_zero : Holds w store 0 p leaves nodes ↔ Row w store p leaves ∧ nodes = [p] :=
  Iff.rfl

theorem holds_succ : Holds w store (h + 1) p leaves nodes ↔ ∃ kids : List Child,
    Row w store p (kids.map Child.node) ∧ (∀ k ∈ kids, Holds w store h k.node k.leaves k.nodes) ∧
    Packed (w ^ (h + 1)) (kids.map Child.leaves) ∧
    leaves = kids.flatMap Child.leaves ∧ nodes = kids.flatMap Child.nodes ++ [p] :=
  Iff.rfl

theorem Holds.mem_nodes (hp : Holds w store h p leaves nodes) : p ∈ nodes := by
  cases h with
  | zero => simp [hp.2]
  | succ h =>
    obtain ⟨kids, -, -, -, -, rfl⟩ := hp
    simp

/-- A node of height `h` holds at most `w ^ (h + 1)` leaves. -/
theorem Holds.length_le (hp : Holds w store h p leaves nodes) : leaves.length ≤ w ^ (h + 1) := by
  induction h generalizing p leaves nodes with
  | zero => simpa using hp.1.length_le
  | succ h ih =>
    obtain ⟨kids, hrow, -, hpack, rfl, -⟩ := hp
    have hkids : kids.length ≤ w := by simpa using hrow.length_le
    calc (kids.flatMap Child.leaves).length
        = ((kids.map Child.leaves).flatten).length := by rw [List.flatMap_def]
      _ ≤ kids.length * w ^ (h + 1) := by simpa using hpack.length_flatten_le
      _ ≤ w * w ^ (h + 1) := Nat.mul_le_mul_right _ hkids
      _ = w ^ (h + 1 + 1) := Nat.pow_succ'.symm

/-- A zeroed block is a node of any height that holds nothing. -/
theorem holds_empty (hz : store p = List.replicate w 0) : Holds w store h p [] [p] := by
  cases h with
  | zero => exact ⟨row_nil hz, rfl⟩
  | succ h => exact ⟨[], by simpa using row_nil hz, by simp, ⟨by simp, by simp, by simp⟩, rfl, rfl⟩

/-- Every leaf of a tree is non-zero. -/
theorem Holds.leaves_ne_zero (hp : Holds w store h p leaves nodes) : ∀ x ∈ leaves, x ≠ 0 := by
  induction h generalizing p leaves nodes with
  | zero => exact hp.1.ne_zero
  | succ h ih =>
    obtain ⟨kids, -, hkids, -, rfl, -⟩ := hp
    intro x hx
    obtain ⟨k, hk, hxk⟩ := List.mem_flatMap.mp hx
    exact ih (hkids k hk) x hxk

/-- The walk below a node visits exactly its leaves and its nodes. -/
theorem Holds.collect_perm (hp : Holds w store h p leaves nodes) :
    collect store h p ~ leaves ++ nodes := by
  induction h generalizing p leaves nodes with
  | zero =>
    obtain ⟨hrow, rfl⟩ := hp
    rw [collect, hrow.filter]
  | succ h ih =>
    obtain ⟨kids, hrow, hkids, -, rfl, rfl⟩ := hp
    rw [collect, hrow.filter, List.flatMap_map, ← List.append_assoc]
    refine List.Perm.append_right _ ?_
    calc kids.flatMap (collect store h ∘ Child.node)
        ~ kids.flatMap (fun k => k.leaves ++ k.nodes) :=
          List.Perm.flatMap_left _ fun k hk => ih (hkids k hk)
      _ ~ kids.flatMap Child.leaves ++ kids.flatMap Child.nodes :=
          (List.flatMap_append_perm _ _ _).symm

/-- A tree is kept by every write outside its nodes. -/
theorem Holds.frame (hp : Holds w store h p leaves nodes)
    (hsame : ∀ q ∈ nodes, store' q = store q) : Holds w store' h p leaves nodes := by
  induction h generalizing p leaves nodes with
  | zero =>
    obtain ⟨hrow, rfl⟩ := hp
    exact ⟨hrow.frame (hsame p (by simp)), rfl⟩
  | succ h ih =>
    obtain ⟨kids, hrow, hkids, hpack, rfl, rfl⟩ := hp
    refine ⟨kids, hrow.frame (hsame p (by simp)), ?_, hpack, rfl, rfl⟩
    intro k hk
    exact ih (hkids k hk) fun q hq =>
      hsame q (List.mem_append_left _ (List.mem_flatMap.mpr ⟨k, hk, hq⟩))

/-- A new node of height `h + 1` whose one child holds one leaf. -/
theorem Holds.single {q b : ℕ} {nq : List ℕ} (hw : 0 < w) (hrow : Row w store p [q])
    (hq : Holds w store h q [b] nq) : Holds w store (h + 1) p [b] (nq ++ [p]) := by
  refine ⟨[⟨q, [b], nq⟩], by simpa using hrow, by simpa using hq, ⟨?_, ?_, ?_⟩, by simp, by simp⟩
  · simp
  · simp only [List.map_cons, List.map_nil, List.mem_singleton, forall_eq, List.length_singleton]
    exact Nat.pow_pos hw
  · simp

/-- The nodes of the children of a node with nodup nodes are not the node itself. -/
theorem child_nodes_ne {kids : List Child} (hnd : (kids.flatMap Child.nodes ++ [p]).Nodup)
    {k : Child} (hk : k ∈ kids) {q : ℕ} (hq : q ∈ k.nodes) : q ≠ p := by
  rintro rfl
  exact (List.nodup_append.mp hnd).2.2 q (List.mem_flatMap.mpr ⟨k, hk, hq⟩) q (by simp) rfl

/-- Appending a leaf in a new child: the node's row gets the child in its first free slot,
and nothing else of the tree is written. -/
theorem Holds.snoc_new {q b : ℕ} {nq : List ℕ} (hp : Holds w store (h + 1) p leaves nodes)
    (hnd : nodes.Nodup) (hmod : leaves.length % w ^ (h + 1) = 0)
    (hlt : leaves.length < w ^ (h + 2)) (hq : q ≠ 0)
    (hrow : store' p = (store p).set (leaves.length / w ^ (h + 1)) q)
    (hkid : Holds w store' h q [b] nq) (hsame : ∀ x ∈ nodes, x ≠ p → store' x = store x) :
    ∃ nodes', nodes' ~ nq ++ nodes ∧ Holds w store' (h + 1) p (leaves ++ [b]) nodes' := by
  obtain ⟨kids, hrow₀, hkids, hpack, rfl, rfl⟩ := hp
  have hcap : 0 < w ^ (h + 1) := by
    rcases Nat.eq_zero_or_pos w with rfl | hw
    · simp at hlt
    · exact Nat.pow_pos hw
  have hlen : (kids.flatMap Child.leaves).length = kids.length * w ^ (h + 1) := by
    rw [List.flatMap_def] at hmod ⊢
    simpa using hpack.length_flatten_of_mod hmod
  have hslot : (kids.flatMap Child.leaves).length / w ^ (h + 1) = (kids.map Child.node).length := by
    rw [hlen, Nat.mul_div_cancel _ hcap, List.length_map]
  have hroom : (kids.map Child.node).length < w := by
    rw [hlen, show w ^ (h + 2) = w * w ^ (h + 1) from Nat.pow_succ'] at hlt
    simpa using Nat.lt_of_mul_lt_mul_right hlt
  refine ⟨kids.flatMap Child.nodes ++ nq ++ [p], ?_, kids ++ [⟨q, [b], nq⟩], ?_, ?_, ?_, ?_, ?_⟩
  · rw [← List.append_assoc]
    exact (List.perm_append_comm.append_right _).trans (by simp)
  · simpa using hrow₀.snoc hroom hq (by rw [hrow, hslot])
  · intro k hk
    rcases List.mem_append.mp hk with hk | hk
    · exact (hkids k hk).frame fun x hx =>
        hsame x (List.mem_append_left _ (List.mem_flatMap.mpr ⟨k, hk, hx⟩))
          (child_nodes_ne hnd hk hx)
    · simp only [List.mem_singleton] at hk
      subst hk
      exact hkid
  · simpa using hpack.snoc_new hcap (by simpa [List.flatMap_def] using hmod) b
  · simp
  · simp

/-- Two children lists with the same blocks, each child holding what a functional predicate
says, are equal. -/
theorem children_eq {P : ℕ → List ℕ → List ℕ → Prop}
    (hP : ∀ q l₁ n₁ l₂ n₂, P q l₁ n₁ → P q l₂ n₂ → l₁ = l₂ ∧ n₁ = n₂) :
    ∀ {k₁ k₂ : List Child}, k₁.map Child.node = k₂.map Child.node →
      (∀ k ∈ k₁, P k.node k.leaves k.nodes) → (∀ k ∈ k₂, P k.node k.leaves k.nodes) → k₁ = k₂
  | [], [], _, _, _ => rfl
  | [], _ :: _, h, _, _ => by simp at h
  | _ :: _, [], h, _, _ => by simp at h
  | ⟨q₁, l₁, n₁⟩ :: k₁, ⟨q₂, l₂, n₂⟩ :: k₂, h, h₁, h₂ => by
    simp only [List.map_cons, List.cons.injEq] at h
    obtain ⟨rfl, h⟩ := h
    obtain ⟨rfl, rfl⟩ := hP q₁ l₁ n₁ l₂ n₂ (h₁ _ List.mem_cons_self) (h₂ _ List.mem_cons_self)
    rw [children_eq hP h (fun k hk => h₁ k (List.mem_cons_of_mem _ hk))
      (fun k hk => h₂ k (List.mem_cons_of_mem _ hk))]

/-- The store determines what a node holds. -/
theorem Holds.unique {l₁ n₁ l₂ n₂ : List ℕ} (h₁ : Holds w store h p l₁ n₁)
    (h₂ : Holds w store h p l₂ n₂) : l₁ = l₂ ∧ n₁ = n₂ := by
  induction h generalizing p l₁ n₁ l₂ n₂ with
  | zero =>
    obtain ⟨r₁, rfl⟩ := h₁
    obtain ⟨r₂, rfl⟩ := h₂
    exact ⟨r₁.filter.symm.trans r₂.filter, rfl⟩
  | succ h ih =>
    obtain ⟨k₁, r₁, hk₁, -, rfl, rfl⟩ := h₁
    obtain ⟨k₂, r₂, hk₂, -, rfl, rfl⟩ := h₂
    obtain rfl := children_eq (P := Holds w store h) (fun q l₁ n₁ l₂ n₂ => ih)
      (r₁.filter.symm.trans r₂.filter) hk₁ hk₂
    exact ⟨rfl, rfl⟩

/-- A node whose leaves do not fill whole children ends in a last child that is not full, and
the row names that child at the slot of the next leaf. -/
theorem Holds.exists_last (hp : Holds w store (h + 1) p leaves nodes)
    (hmod : leaves.length % w ^ (h + 1) ≠ 0) :
    ∃ init : List Child, ∃ k : Child,
      Row w store p (init.map Child.node ++ [k.node]) ∧
      (∀ k' ∈ init ++ [k], Holds w store h k'.node k'.leaves k'.nodes) ∧
      Packed (w ^ (h + 1)) (init.map Child.leaves ++ [k.leaves]) ∧
      leaves = init.flatMap Child.leaves ++ k.leaves ∧
      nodes = init.flatMap Child.nodes ++ k.nodes ++ [p] ∧
      (store p).getD (leaves.length / w ^ (h + 1)) 0 = k.node ∧
      k.leaves.length = leaves.length % w ^ (h + 1) ∧ k.leaves.length < w ^ (h + 1) := by
  obtain ⟨kids, hrow, hkids, hpack, rfl, rfl⟩ := hp
  have hne : kids ≠ [] := by rintro rfl; simp at hmod
  obtain ⟨init, k, rfl⟩ := (List.eq_nil_or_concat' kids).resolve_left hne
  have hflat : (init ++ [k]).flatMap Child.leaves =
      (init.map Child.leaves ++ [k.leaves]).flatten := by
    simp [List.flatMap_def]
  rw [List.map_append, List.map_singleton] at hrow hpack
  obtain ⟨hdiv, hlast, hlt⟩ := hpack.div_of_mod (by rwa [← hflat])
  refine ⟨init, k, hrow, hkids, hpack, by simp, by simp, ?_, by rw [hlast, hflat], hlt⟩
  rw [hflat, hdiv, List.length_map, hrow.getD (by simp)]
  simp

/-- The last child of a node whose leaves do not fill whole children: the tree below it, which
is part of the node's tree. -/
theorem Holds.last_child (hp : Holds w store (h + 1) p leaves nodes) (hnd : nodes.Nodup)
    (hmod : leaves.length % w ^ (h + 1) ≠ 0) :
    ∃ lk nk, Holds w store h ((store p).getD (leaves.length / w ^ (h + 1)) 0) lk nk ∧
      lk.length = leaves.length % w ^ (h + 1) ∧ (∀ x ∈ nk, x ∈ nodes) ∧ nk.Nodup := by
  obtain ⟨init, k, -, hkids, -, -, rfl, hslot, hlen, -⟩ := hp.exists_last hmod
  refine ⟨k.leaves, k.nodes, hslot ▸ hkids k (by simp), hlen, fun x hx => by simp [hx], ?_⟩
  exact (hnd.sublist (List.sublist_append_left _ _)).sublist (List.sublist_append_right _ _)

/-- Appending a leaf in the last child, which is not full: the child takes the leaf, and what is
written below it is the only write to the tree. -/
theorem Holds.snoc_last {lk nk nk' new : List ℕ} {b : ℕ}
    (hp : Holds w store (h + 1) p leaves nodes) (hnd : nodes.Nodup)
    (hmod : leaves.length % w ^ (h + 1) ≠ 0)
    (hk : Holds w store h ((store p).getD (leaves.length / w ^ (h + 1)) 0) lk nk)
    (hk' : Holds w store' h ((store p).getD (leaves.length / w ^ (h + 1)) 0) (lk ++ [b]) nk')
    (hperm : nk' ~ new ++ nk) (hsame : ∀ x ∈ nodes, x ∉ nk → store' x = store x) :
    ∃ nodes', nodes' ~ new ++ nodes ∧ Holds w store' (h + 1) p (leaves ++ [b]) nodes' := by
  obtain ⟨init, k, hrow, hkids, hpack, rfl, rfl, hslot, -, hlt⟩ := hp.exists_last hmod
  rw [hslot] at hk hk'
  -- the child named by the row is the last child
  obtain ⟨rfl, rfl⟩ := hk.unique (hkids k (by simp))
  have hnd' : (init.flatMap Child.nodes ++ k.nodes ++ [p]).Nodup := hnd
  have hdisj : ∀ x ∈ init.flatMap Child.nodes, x ∉ k.nodes := fun x hx hxk =>
    ((List.nodup_append.mp hnd').1 |> List.nodup_append.mp).2.2 x hx x hxk rfl
  have hpk : p ∉ k.nodes := fun hpk =>
    (List.nodup_append.mp hnd').2.2 p (List.mem_append_right _ hpk) p (by simp) rfl
  refine ⟨init.flatMap Child.nodes ++ nk' ++ [p], ?_, init ++ [⟨k.node, k.leaves ++ [b], nk'⟩],
    ?_, ?_, ?_, ?_, by simp⟩
  · rw [List.perm_iff_count]
    intro a
    simp only [List.count_append, hperm.count_eq]
    omega
  · simpa using hrow.frame (hsame p (by simp) hpk)
  · intro k' hk''
    rcases List.mem_append.mp hk'' with hk'' | hk''
    · exact (hkids k' (List.mem_append_left _ hk'')).frame fun x hx =>
        hsame x (by simp [List.mem_flatMap.mpr ⟨k', hk'', hx⟩])
          (hdisj x (List.mem_flatMap.mpr ⟨k', hk'', hx⟩))
    · simp only [List.mem_singleton] at hk''
      subst hk''
      exact hk'
  · simpa using hpack.snoc_last hlt b
  · simp

end Trees

end RadixTree
