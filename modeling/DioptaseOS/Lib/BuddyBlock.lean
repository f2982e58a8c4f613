import Mathlib.Data.List.Nodup
import Mathlib.Data.List.Pairwise
import Mathlib.Data.Nat.Bitwise
import Mathlib.Tactic.Ring
import Mathlib.Tactic.Linarith

/-!
# Buddy blocks

A buddy allocator hands out blocks of `2 ^ k` consecutive frames whose first frame is a
multiple of `2 ^ k`. Two blocks of order `k` are buddies when together they form a block of
order `k + 1`; the buddy of the block at `i` starts at `i ^^^ 2 ^ k`.

This file develops the arithmetic of such blocks and one structural fact: a set of
aligned blocks with pairwise disjoint frames in which no two blocks are buddies is
determined by the frames it covers. It is the set of maximal blocks of those frames.
This is why a buddy allocator that always coalesces returns, once everything is freed,
to the decomposition it started from.

## Main definitions

* `BuddyBlock.Block` — a block, by its first frame and its order
* `Block.frames`, `Block.Aligned`, `Block.buddy`, `Block.merge`
* `BuddyBlock.Tiling` — aligned blocks of bounded order with disjoint frames
* `BuddyBlock.NoBuddies` — no two blocks below the top order are buddies

## Main results

* `Block.le_of_overlap` — aligned blocks are nested or disjoint
* `Block.frames_merge` — a block and its buddy make up their merge
* `Tiling.mem_iff_of_noBuddies` — two buddy-free tilings of the same frames have the same
  blocks
-/

namespace BuddyBlock

/-- A block of `2 ^ order` consecutive frames starting at frame `start`. -/
structure Block where
  start : Nat
  order : Nat
  deriving DecidableEq, Repr

namespace Block

/-- The frames of a block, in increasing order. -/
def frames (b : Block) : List Nat := List.range' b.start (2 ^ b.order)

/-- A block starts at a multiple of its size. -/
def Aligned (b : Block) : Prop := b.start % 2 ^ b.order = 0

instance (b : Block) : Decidable b.Aligned := inferInstanceAs (Decidable (_ = _))

/-- The block of the same order that completes `b` to a block of the next order. -/
def buddy (b : Block) : Block := ⟨b.start ^^^ 2 ^ b.order, b.order⟩

/-- The block of the next order made of `b` and its buddy. -/
def merge (b : Block) : Block := ⟨min b.start b.buddy.start, b.order + 1⟩

theorem mem_frames {b : Block} {x : Nat} : x ∈ b.frames ↔ b.start ≤ x ∧ x < b.start + 2 ^ b.order := by
  simp [frames, List.mem_range'_1]

theorem frames_nodup (b : Block) : b.frames.Nodup := List.nodup_range' ..

@[simp] theorem frames_zero (i : Nat) : (⟨i, 0⟩ : Block).frames = [i] := rfl

/-- A block lies below `n` exactly when all its frames do. -/
theorem frames_lt_iff {b : Block} {n : Nat} : (∀ x ∈ b.frames, x < n) ↔ b.start + 2 ^ b.order ≤ n := by
  constructor
  · intro h
    have hpos := Nat.two_pow_pos b.order
    have hlast : b.start + 2 ^ b.order - 1 ∈ b.frames := mem_frames.mpr ⟨by omega, by omega⟩
    have := h _ hlast
    omega
  · intro h x hx
    have := mem_frames.mp hx
    omega

@[simp] theorem length_frames (b : Block) : b.frames.length = 2 ^ b.order := List.length_range' ..

/-- A block of order `k + 1` is its lower half followed by its upper half. -/
theorem frames_succ (i k : Nat) :
    (⟨i, k + 1⟩ : Block).frames = (⟨i, k⟩ : Block).frames ++ (⟨i + 2 ^ k, k⟩ : Block).frames := by
  simp only [frames, pow_succ, mul_two]
  rw [List.range'_append_1]

theorem aligned_iff {b : Block} : b.Aligned ↔ b.start = b.start / 2 ^ b.order * 2 ^ b.order := by
  unfold Aligned
  constructor
  · intro h; exact (Nat.div_mul_cancel (Nat.dvd_of_mod_eq_zero h)).symm
  · intro h; rw [h, Nat.mul_mod_left]

theorem Aligned.of_succ {i k : Nat} (h : (⟨i, k + 1⟩ : Block).Aligned) : (⟨i, k⟩ : Block).Aligned := by
  unfold Aligned at *
  exact Nat.mod_eq_zero_of_dvd (Nat.dvd_trans (pow_dvd_pow 2 (Nat.le_succ k)) (Nat.dvd_of_mod_eq_zero h))

theorem Aligned.of_le {i j k : Nat} (h : (⟨i, k⟩ : Block).Aligned) (hjk : j ≤ k) :
    (⟨i, j⟩ : Block).Aligned := by
  unfold Aligned at *
  exact Nat.mod_eq_zero_of_dvd (Nat.dvd_trans (pow_dvd_pow 2 hjk) (Nat.dvd_of_mod_eq_zero h))

theorem Aligned.upper {i k : Nat} (h : (⟨i, k + 1⟩ : Block).Aligned) :
    (⟨i + 2 ^ k, k⟩ : Block).Aligned := by
  unfold Aligned at *
  simp only at *
  rw [Nat.add_mod_right]
  exact Nat.mod_eq_zero_of_dvd (Nat.dvd_trans (pow_dvd_pow 2 (Nat.le_succ k)) (Nat.dvd_of_mod_eq_zero h))

/-- On an aligned block, `^^^ 2 ^ k` flips the block number's lowest bit. -/
theorem buddy_start {b : Block} (h : b.Aligned) :
    b.buddy.start = (b.start / 2 ^ b.order ^^^ 1) * 2 ^ b.order := by
  rw [buddy]
  simp only
  conv_lhs => rw [aligned_iff.mp h]
  rw [← Nat.shiftLeft_eq, ← Nat.shiftLeft_eq, ← Nat.one_shiftLeft, Nat.shiftLeft_xor_distrib]


/-- Two aligned blocks that share a frame are nested: the smaller lies inside the larger. -/
theorem le_of_overlap {b d : Block} (hb : b.Aligned) (hd : d.Aligned) (hle : b.order ≤ d.order)
    {x : Nat} (hxb : x ∈ b.frames) (hxd : x ∈ d.frames) :
    d.start ≤ b.start ∧ b.start + 2 ^ b.order ≤ d.start + 2 ^ d.order := by
  rw [mem_frames] at hxb hxd
  obtain ⟨a, ha⟩ : 2 ^ b.order ∣ b.start := Nat.dvd_of_mod_eq_zero hb
  obtain ⟨e, he⟩ : 2 ^ d.order ∣ d.start := Nat.dvd_of_mod_eq_zero hd
  have hpow : 2 ^ d.order = 2 ^ b.order * 2 ^ (d.order - b.order) := by
    rw [← pow_add]; congr 1; omega
  set q := 2 ^ b.order
  set r := 2 ^ (d.order - b.order)
  rw [hpow] at he hxd ⊢
  -- in units of `q`, `b` is the single slot `a` and `d` the slots `[r * e, r * e + r)`
  have hlo : r * e ≤ a := by
    by_contra hlt
    have : q * (a + 1) ≤ q * (r * e) := Nat.mul_le_mul_left q (by omega)
    rw [he] at hxd
    nlinarith
  have hhi : a + 1 ≤ r * e + r := by
    by_contra hlt
    have : q * (r * e + r) ≤ q * a := Nat.mul_le_mul_left q (by omega)
    rw [he] at hxd
    nlinarith
  constructor
  · rw [ha, he, mul_assoc]
    exact Nat.mul_le_mul_left q hlo
  · rw [ha, he, mul_assoc, ← mul_add_one, ← mul_add]
    exact Nat.mul_le_mul_left q hhi

theorem frames_subset_of_overlap {b d : Block} (hb : b.Aligned) (hd : d.Aligned)
    (hle : b.order ≤ d.order) {x : Nat} (hxb : x ∈ b.frames) (hxd : x ∈ d.frames) :
    b.frames ⊆ d.frames := by
  obtain ⟨h1, h2⟩ := le_of_overlap hb hd hle hxb hxd
  intro y hy
  rw [mem_frames] at hy ⊢
  omega

theorem eq_of_overlap {b d : Block} (hb : b.Aligned) (hd : d.Aligned) (hord : b.order = d.order)
    {x : Nat} (hxb : x ∈ b.frames) (hxd : x ∈ d.frames) : b = d := by
  obtain ⟨h1, h2⟩ := le_of_overlap hb hd hord.le hxb hxd
  cases b; cases d
  simp only at hord h1 h2 ⊢
  subst hord
  simp only [Block.mk.injEq, and_true]
  omega

@[simp] theorem buddy_order (b : Block) : b.buddy.order = b.order := rfl

theorem buddy_start_of_even {b : Block} (h : b.Aligned) (he : b.start / 2 ^ b.order % 2 = 0) :
    b.buddy.start = b.start + 2 ^ b.order := by
  rw [buddy_start h, Nat.xor_one_of_even (Nat.even_iff.mpr he), add_one_mul,
    ← aligned_iff.mp h]

theorem buddy_start_of_odd {b : Block} (h : b.Aligned) (ho : b.start / 2 ^ b.order % 2 = 1) :
    b.buddy.start + 2 ^ b.order = b.start := by
  have hpos : b.start / 2 ^ b.order ≠ 0 := fun h0 => by simp [h0] at ho
  rw [buddy_start h, Nat.xor_one_of_odd (Nat.odd_iff.mpr ho), ← add_one_mul,
    Nat.sub_add_cancel (Nat.one_le_iff_ne_zero.mpr hpos), ← aligned_iff.mp h]

theorem buddy_buddy (b : Block) : b.buddy.buddy = b := by
  simp [buddy]

theorem Aligned.buddy {b : Block} (h : b.Aligned) : b.buddy.Aligned := by
  rw [aligned_iff, buddy_order, buddy_start h, Nat.mul_div_cancel _ (Nat.two_pow_pos _)]

theorem buddy_ne (b : Block) : b.buddy ≠ b := by
  intro h
  have hs : b.start ^^^ 2 ^ b.order = b.start := congrArg Block.start h
  have h0 : 2 ^ b.order = 0 := calc
    2 ^ b.order = b.start ^^^ (b.start ^^^ 2 ^ b.order) := by
      rw [← Nat.xor_assoc, Nat.xor_self, Nat.zero_xor]
    _ = 0 := by rw [hs, Nat.xor_self]
  exact absurd h0 (Nat.two_pow_pos _).ne'

/-- A block whose number at its order is even is the lower half of its merge. -/
theorem merge_of_even {b : Block} (h : b.Aligned) (he : b.start / 2 ^ b.order % 2 = 0) :
    b.merge = ⟨b.start, b.order + 1⟩ ∧ b.buddy = ⟨b.start + 2 ^ b.order, b.order⟩ ∧
      (⟨b.start, b.order + 1⟩ : Block).Aligned := by
  have hbs := buddy_start_of_even h he
  refine ⟨?_, ?_, ?_⟩
  · rw [merge, hbs, min_eq_left (Nat.le_add_right _ _)]
  · rw [← hbs]; rfl
  · obtain ⟨c, hc⟩ : 2 ∣ b.start / 2 ^ b.order := Nat.dvd_of_mod_eq_zero he
    unfold Aligned
    rw [aligned_iff.mp h, hc]
    exact Nat.mod_eq_zero_of_dvd ⟨c, by ring⟩

/-- A block whose number at its order is odd is the upper half of its merge. -/
theorem merge_of_odd {b : Block} (h : b.Aligned) (ho : b.start / 2 ^ b.order % 2 = 1) :
    b.merge = ⟨b.buddy.start, b.order + 1⟩ ∧ b = ⟨b.buddy.start + 2 ^ b.order, b.order⟩ ∧
      (⟨b.buddy.start, b.order + 1⟩ : Block).Aligned := by
  have hbs := buddy_start_of_odd h ho
  refine ⟨?_, ?_, ?_⟩
  · rw [merge, min_eq_right (by rw [← hbs]; exact Nat.le_add_right _ _)]
  · rw [hbs]
  · have hb' := h.buddy
    have heven : b.buddy.start / 2 ^ b.order % 2 = 0 := by
      rw [buddy_start h, Nat.mul_div_cancel _ (Nat.two_pow_pos _),
        Nat.xor_one_of_odd (Nat.odd_iff.mpr ho)]
      omega
    exact (merge_of_even hb' heven).2.2

theorem Aligned.merge {b : Block} (h : b.Aligned) : b.merge.Aligned := by
  rcases Nat.mod_two_eq_zero_or_one (b.start / 2 ^ b.order) with he | ho
  · rw [(merge_of_even h he).1]; exact (merge_of_even h he).2.2
  · rw [(merge_of_odd h ho).1]; exact (merge_of_odd h ho).2.2

/-- The merge of a block is made of the block and its buddy. -/
theorem frames_merge {b : Block} (h : b.Aligned) :
    b.merge.frames.Perm (b.frames ++ b.buddy.frames) := by
  rcases Nat.mod_two_eq_zero_or_one (b.start / 2 ^ b.order) with he | ho
  · obtain ⟨hm, hbd, -⟩ := merge_of_even h he
    rw [hm, hbd, frames_succ]
  · obtain ⟨hm, hb, -⟩ := merge_of_odd h ho
    rw [hm, frames_succ, ← hb]
    exact List.perm_append_comm

@[simp] theorem merge_order (b : Block) : b.merge.order = b.order + 1 := rfl

end Block

/-! ### Tilings without buddy pairs -/

open Block

/-- All frames of a list of blocks. -/
def cover (D : List Block) : List Nat := D.flatMap Block.frames

theorem mem_cover {D : List Block} {x : Nat} : x ∈ cover D ↔ ∃ b ∈ D, x ∈ b.frames := by
  simp [cover]

@[simp] theorem cover_nil : cover [] = [] := rfl

@[simp] theorem cover_cons (b : Block) (D : List Block) : cover (b :: D) = b.frames ++ cover D :=
  List.flatMap_cons

theorem cover_perm {D D' : List Block} (h : D.Perm D') : (cover D).Perm (cover D') :=
  h.flatMap_right _

/-- Aligned blocks of order at most `M`, no two of which share a frame. -/
structure Tiling (M : Nat) (D : List Block) : Prop where
  aligned : ∀ b ∈ D, b.Aligned
  order_le : ∀ b ∈ D, b.order ≤ M
  nodup : (cover D).Nodup

/-- No block of order below `M` has its buddy in `D`. -/
def NoBuddies (M : Nat) (D : List Block) : Prop := ∀ b ∈ D, b.order < M → b.buddy ∉ D

instance (M : Nat) (D : List Block) : Decidable (NoBuddies M D) :=
  inferInstanceAs (Decidable (∀ b ∈ D, b.order < M → b.buddy ∉ D))

namespace NoBuddies

variable {M : Nat} {D D' : List Block}

theorem of_subset (h : NoBuddies M D) (hsub : D' ⊆ D) : NoBuddies M D' :=
  fun b hb hlt hbud => h b (hsub hb) hlt (hsub hbud)

/-- Adding a block keeps a set buddy-free when the block's own buddy is absent. -/
theorem cons (h : NoBuddies M D) {b : Block} (hb : b.order < M → b.buddy ∉ D) :
    NoBuddies M (b :: D) := by
  intro d hd hlt hmem
  rcases List.mem_cons.mp hd with rfl | hd
  · rcases List.mem_cons.mp hmem with he | hmem
    · exact buddy_ne d he
    · exact hb hlt hmem
  · rcases List.mem_cons.mp hmem with he | hmem
    · -- `d` is the buddy of `b`, so `b`'s buddy `d` would be present
      have hbd : b.buddy = d := by rw [← he, buddy_buddy]
      exact hb (by rw [← he]; exact hlt) (hbd ▸ hd)
    · exact h d hd hlt hmem

end NoBuddies

theorem start_mem_frames (b : Block) : b.start ∈ b.frames :=
  mem_frames.mpr ⟨le_rfl, Nat.lt_add_of_pos_right (Nat.two_pow_pos _)⟩

theorem even_of_aligned_succ {j m : Nat} (h : (⟨j, m + 1⟩ : Block).Aligned) : j / 2 ^ m % 2 = 0 := by
  obtain ⟨c, hc⟩ : 2 ^ (m + 1) ∣ j := Nat.dvd_of_mod_eq_zero h
  rw [hc, pow_succ, mul_assoc, Nat.mul_div_cancel_left _ (Nat.two_pow_pos m), Nat.mul_mod_right]

namespace Tiling

variable {M : Nat} {D : List Block}

theorem disjoint (h : Tiling M D) {b d : Block} (hb : b ∈ D) (hd : d ∈ D) (hne : b ≠ d) {x : Nat}
    (hxb : x ∈ b.frames) (hxd : x ∈ d.frames) : False := by
  have : Std.Symm (Function.onFun List.Disjoint Block.frames) :=
    ⟨fun _ _ h => List.disjoint_comm.mp h⟩
  exact (List.nodup_flatMap.mp h.nodup).2.forall hb hd hne hxb hxd

/-- A covered aligned block that no larger block of a buddy-free tiling overlaps is one of
its blocks: were it not, it would be split into smaller blocks, and the smallest of
them would sit next to its buddy. -/
theorem mem_of_covered (h : Tiling M D) (hn : NoBuddies M D) :
    ∀ m (B : Block), B.order = m → B.Aligned → B.order ≤ M → B.frames ⊆ cover D →
      (∀ d ∈ D, B.order < d.order → ∀ x ∈ B.frames, x ∉ d.frames) → B ∈ D := by
  intro m
  induction m with
  | zero =>
    intro B hm hB _ hcov hbig
    obtain ⟨d, hd, hxd⟩ := mem_cover.mp (hcov (start_mem_frames B))
    have hord : B.order = d.order := by
      by_contra hne
      exact hbig d hd (by omega) _ (start_mem_frames B) hxd
    rwa [eq_of_overlap hB (h.aligned d hd) hord (start_mem_frames B) hxd]
  | succ m ih =>
    intro B hm hB hM hcov hbig
    -- a block of `D` of the same order overlapping `B` is `B` itself
    by_cases hsame : ∃ d ∈ D, d.order = m + 1 ∧ ∃ x ∈ B.frames, x ∈ d.frames
    · obtain ⟨d, hd, hdo, x, hxB, hxd⟩ := hsame
      rwa [eq_of_overlap hB (h.aligned d hd) (hm.trans hdo.symm) hxB hxd]
    push Not at hsame
    obtain ⟨j, k⟩ := B
    simp only at hm hM
    subst hm
    have hsplit := frames_succ j m
    -- both halves are blocks of `D`, by induction
    have hhalf : ∀ H : Block, H.order = m → H.Aligned → H.frames ⊆ (⟨j, m + 1⟩ : Block).frames →
        H ∈ D := by
      intro H hHo hH hsub
      refine ih H hHo hH (by omega) (fun y hy => hcov (hsub hy)) ?_
      intro d hd hlt x hxH hxd
      rcases Nat.lt_or_ge (m + 1) d.order with hgt | hle
      · exact hbig d hd hgt x (hsub hxH) hxd
      · exact hsame d hd (by omega) x (hsub hxH) hxd
    have h0 : (⟨j, m⟩ : Block) ∈ D :=
      hhalf _ rfl hB.of_succ (by rw [hsplit]; exact List.subset_append_left _ _)
    have h1 : (⟨j + 2 ^ m, m⟩ : Block) ∈ D :=
      hhalf _ rfl hB.upper (by rw [hsplit]; exact List.subset_append_right _ _)
    have hbud : (⟨j, m⟩ : Block).buddy = ⟨j + 2 ^ m, m⟩ :=
      (merge_of_even hB.of_succ (even_of_aligned_succ hB)).2.1
    exact absurd (hbud ▸ h1) (hn _ h0 (by simp only; omega))

/-- In a buddy-free tiling no block can be merged with its buddy inside the covered
frames. -/
theorem not_merge_subset (h : Tiling M D) (hn : NoBuddies M D) {b : Block} (hb : b ∈ D)
    (hlt : b.order < M) : ¬ b.merge.frames ⊆ cover D := by
  intro hsub
  have hal := h.aligned b hb
  have hmerge := frames_merge hal
  have hbud : b.buddy ∈ D := by
    refine mem_of_covered h hn _ b.buddy rfl hal.buddy (by simp; omega)
      (fun y hy => hsub (hmerge.symm.subset (List.mem_append_right _ hy))) ?_
    intro d hd hgt x hx hxd
    have hmd : b.merge.frames ⊆ d.frames :=
      frames_subset_of_overlap hal.merge (h.aligned d hd)
        (by rw [merge_order]; rw [buddy_order] at hgt; omega)
        (hmerge.symm.subset (List.mem_append_right _ hx)) hxd
    have hbd : b.start ∈ d.frames :=
      hmd (hmerge.symm.subset (List.mem_append_left _ (start_mem_frames b)))
    have hne : b ≠ d := fun e => by simp [e] at hgt
    exact h.disjoint hb hd hne (start_mem_frames b) hbd
  exact hn b hb hlt hbud

/-- A block of a buddy-free tiling is never strictly inside a block of another tiling whose
frames it covers. -/
theorem not_order_lt (h : Tiling M D) (hn : NoBuddies M D) {D' : List Block} (h' : Tiling M D')
    (hsub : cover D' ⊆ cover D) {b d : Block} (hb : b ∈ D) (hd : d ∈ D') {x : Nat}
    (hxb : x ∈ b.frames) (hxd : x ∈ d.frames) : ¬ b.order < d.order := by
  intro hlt
  have hal := h.aligned b hb
  have hxm : x ∈ b.merge.frames := (frames_merge hal).symm.subset (List.mem_append_left _ hxb)
  have hmd : b.merge.frames ⊆ d.frames :=
    frames_subset_of_overlap hal.merge (h'.aligned d hd) (by rw [merge_order]; omega) hxm hxd
  refine not_merge_subset h hn hb (lt_of_lt_of_le hlt (h'.order_le d hd)) ?_
  exact fun y hy => hsub (mem_cover.mpr ⟨d, hd, hmd hy⟩)

/-- Two buddy-free tilings of the same frames consist of the same blocks. -/
theorem mem_iff_of_noBuddies {D₁ D₂ : List Block} (h₁ : Tiling M D₁) (h₂ : Tiling M D₂)
    (n₁ : NoBuddies M D₁) (n₂ : NoBuddies M D₂) (hcov : ∀ x, x ∈ cover D₁ ↔ x ∈ cover D₂)
    (b : Block) : b ∈ D₁ ↔ b ∈ D₂ := by
  -- a block of one tiling meets a block of the other at its first frame; neither can be
  -- strictly larger, so they are the same block
  have key : ∀ {E E' : List Block}, Tiling M E → Tiling M E' → NoBuddies M E → NoBuddies M E' →
      (∀ x, x ∈ cover E ↔ x ∈ cover E') → b ∈ E → b ∈ E' := by
    intro E E' hE hE' nE nE' hc hb
    obtain ⟨d, hd, hxd⟩ := mem_cover.mp ((hc _).mp (mem_cover.mpr ⟨b, hb, start_mem_frames b⟩))
    have hle : ¬ b.order < d.order :=
      not_order_lt hE nE hE' (fun y hy => (hc y).mpr hy) hb hd (start_mem_frames b) hxd
    have hge : ¬ d.order < b.order :=
      not_order_lt hE' nE' hE (fun y hy => (hc y).mp hy) hd hb hxd (start_mem_frames b)
    rwa [eq_of_overlap (hE.aligned b hb) (hE'.aligned d hd) (by omega) (start_mem_frames b) hxd]
  exact ⟨key h₁ h₂ n₁ n₂ hcov, key h₂ h₁ n₂ n₁ fun x => (hcov x).symm⟩

end Tiling

end BuddyBlock
