import Mathlib
/-!
# Relative deviation

Two positive quantities are apart by a share when their difference is more
than that share of the lower one. The relation does not depend on the
unit. Whole numbers can be compared by their rounded-down
share, which misses exactly the deviations that are less than one step past
the bound (`lt_tdiv_iff`).
-/

namespace HoodSentry

section Field

variable {K : Type*} [Field K] [LinearOrder K] [IsStrictOrderedRing K]

/-- **Apart by more than a share** of the lower one. -/
def Apart (share p q : K) : Prop := 0 < p ∧ 0 < q ∧ share * min p q < |p - q|

variable {share p q c : K}

/-- In another unit the two are as far apart. -/
theorem apart_div (hc : 0 < c) : Apart share (p / c) (q / c) ↔ Apart share p q := by
  have hmin : share * min (p / c) (q / c) = share * min p q / c := by
    rw [min_div_div_right hc.le, mul_div_assoc]
  have habs : |p / c - q / c| = |p - q| / c := by
    rw [← sub_div, abs_div, abs_of_pos hc]
  unfold Apart
  rw [hmin, habs, div_lt_div_iff_of_pos_right hc, div_pos_iff_of_pos_right hc,
    div_pos_iff_of_pos_right hc]

end Field

/-! ## Whole numbers -/

/-- **A rounded-down share** is past a bound where the share itself is past
it by a whole step. -/
theorem lt_tdiv_iff {bound unit difference lower : ℤ} (hlower : 0 < lower)
    (hdifference : 0 ≤ difference * unit) :
    bound < (difference * unit).tdiv lower ↔ (bound + 1) * lower ≤ difference * unit := by
  rw [Int.tdiv_eq_ediv_of_nonneg hdifference, ← Int.add_one_le_iff, Int.le_ediv_iff_mul_le hlower]

end HoodSentry

/-!
## Sums weighted by rank

A list's elements weighted by their places. In a sorted list the later, so
greater, elements weigh more: twice the weighted sum is at least what it were
if every element weighed as much as the middle one, and it is that if all
elements are equal. Last come the sums of a list's first elements.
-/

namespace HoodSentry

variable {l : List ℤ} {x c : ℤ}

/-- The sum of the elements, each times its place from 1 on. -/
def rankSum (l : List ℤ) : ℤ := (l.zipIdx.map fun p => ((p.2 : ℤ) + 1) * p.1).sum

theorem rankSum_concat (l : List ℤ) (x : ℤ) :
    rankSum (l ++ [x]) = rankSum l + (l.length + 1) * x := by
  simp [rankSum, List.zipIdx_append]

theorem sum_le_length_mul (h : ∀ y ∈ l, y ≤ x) : l.sum ≤ l.length * x := by
  induction l with
  | nil => simp
  | cons y l ih =>
    obtain ⟨hy, hl⟩ := List.forall_mem_cons.mp h
    have hrest := ih hl
    rw [List.sum_cons, List.length_cons]
    push_cast
    linarith

/-- **The later elements of a sorted list weigh more.** -/
theorem le_two_rankSum (h : l.Pairwise (· ≤ ·)) : ((l.length : ℤ) + 1) * l.sum ≤ 2 * rankSum l := by
  induction l using List.reverseRecOn with
  | nil => simp [rankSum]
  | append_singleton l x ih =>
    obtain ⟨hl, -, hx⟩ := List.pairwise_append.mp h
    have hbefore := ih hl
    have hlast := sum_le_length_mul fun y hy => hx y hy x (List.mem_singleton_self x)
    rw [rankSum_concat, List.sum_append, List.sum_singleton, List.length_append,
      List.length_singleton]
    push_cast
    linarith

/-- No element weighs more than the number of them. -/
theorem rankSum_le (h : ∀ y ∈ l, 0 ≤ y) : rankSum l ≤ l.length * l.sum := by
  induction l using List.reverseRecOn with
  | nil => simp [rankSum]
  | append_singleton l x ih =>
    obtain ⟨hl, hx⟩ := List.forall_mem_append.mp h
    have hbefore := ih hl
    have hsum := List.sum_nonneg hl
    rw [rankSum_concat, List.sum_append, List.sum_singleton, List.length_append,
      List.length_singleton]
    push_cast
    linarith

/-- **Equal elements weigh as the middle one does.** -/
theorem two_rankSum_of_equal (h : ∀ y ∈ l, y = c) :
    2 * rankSum l = ((l.length : ℤ) + 1) * l.sum := by
  have hsum : ∀ m : List ℤ, (∀ y ∈ m, y = c) → m.sum = m.length * c := by
    intro m hm
    rw [List.eq_replicate_of_mem hm, List.sum_replicate, List.length_replicate, nsmul_eq_mul]
  induction l using List.reverseRecOn with
  | nil => simp [rankSum]
  | append_singleton l x ih =>
    obtain ⟨hl, hx⟩ := List.forall_mem_append.mp h
    obtain rfl : x = c := hx x (List.mem_singleton_self x)
    have hbefore := ih hl
    rw [hsum l hl] at hbefore
    rw [rankSum_concat, List.sum_append, List.sum_singleton, List.length_append,
      List.length_singleton, hsum l hl]
    push_cast
    linarith

/-! ## The first elements -/

theorem sum_take_mono {m n : ℕ} (h : ∀ y ∈ l, 0 ≤ y) (hmn : m ≤ n) :
    (l.take m).sum ≤ (l.take n).sum := by
  have hsplit : l.take n = l.take m ++ (l.take n).drop m := by
    conv_lhs => rw [← List.take_append_drop m (l.take n), List.take_take, min_eq_left hmn]
  have hrest : 0 ≤ ((l.take n).drop m).sum :=
    List.sum_nonneg fun y hy => h y (List.mem_of_mem_take (List.mem_of_mem_drop hy))
  rw [hsplit, List.sum_append]
  linarith

theorem sum_take_le {n : ℕ} (h : ∀ y ∈ l, 0 ≤ y) : (l.take n).sum ≤ l.sum := by
  have hall := sum_take_mono h (Nat.le_max_left n l.length)
  rwa [List.take_of_length_le (Nat.le_max_right n l.length)] at hall

end HoodSentry
