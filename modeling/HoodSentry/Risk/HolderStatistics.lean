import HoodSentry.Common.Sorting
import HoodSentry.Risk.Model.Holders
/-!
# What holder statistics say

The statistics are computed from the positive balances sorted, so that they
do not depend on the order the balances come in. Shares of prefixes grow with
the prefix, and the Gini coefficient is between zero and one because in a
sorted list the greater balances have the greater ranks.
-/

namespace HoodSentry

variable {values other positive : List ℤ} {m n : ℕ}
variable {classifications : List HolderClassification} {balances balances' : List HolderBalance}

/-! ## Concentration -/

theorem shareOf_nonneg (h : ∀ v ∈ positive, 0 ≤ v) (n : ℕ) : 0 ≤ shareOf positive n := by
  rw [shareOf]
  split
  · exact le_refl 0
  · have hpart : 0 ≤ (positive.take n).sum :=
      List.sum_nonneg fun v hv => h v (List.mem_of_mem_take hv)
    exact Int.tdiv_nonneg (by omega) (List.sum_nonneg h)

/-- **A longer prefix has no smaller share.** -/
theorem shareOf_mono (h : ∀ v ∈ positive, 0 ≤ v) (hmn : m ≤ n) :
    shareOf positive m ≤ shareOf positive n := by
  have hsum := List.sum_nonneg h
  have hprefix := sum_take_mono h hmn
  have hpart : ∀ k, 0 ≤ (positive.take k).sum * 10000 := fun k => by
    have hnonneg : 0 ≤ (positive.take k).sum :=
      List.sum_nonneg fun v hv => h v (List.mem_of_mem_take hv)
    omega
  rw [shareOf, shareOf]
  split
  · exact le_refl 0
  · rw [Int.tdiv_eq_ediv_of_nonneg (hpart m), Int.tdiv_eq_ediv_of_nonneg (hpart n)]
    exact Int.ediv_le_ediv (by omega) (by omega)

theorem shareOf_le (h : ∀ v ∈ positive, 0 ≤ v) (n : ℕ) : shareOf positive n ≤ 10000 := by
  have hsum := List.sum_nonneg h
  have hprefix := @sum_take_le positive n h
  have hpart : 0 ≤ (positive.take n).sum :=
    List.sum_nonneg fun v hv => h v (List.mem_of_mem_take hv)
  rw [shareOf]
  split
  · omega
  · rw [Int.tdiv_eq_ediv_of_nonneg (by omega)]
    refine Int.ediv_le_of_le_mul (by omega) ?_
    rw [mul_comm]
    exact Int.mul_le_mul_of_nonneg_left hprefix (by omega)

/-- Concentrations in their order, as basis points. -/
structure Concentration.Ordered (c : Concentration) : Prop where
  nonneg : 0 ≤ c.top1
  top5 : c.top1 ≤ c.top5
  top10 : c.top5 ≤ c.top10
  top20 : c.top10 ≤ c.top20
  le : c.top20 ≤ 10000

/-- The values that count, in either order. -/
theorem sorted_pos {r : ℤ → ℤ → Prop} [DecidableRel r] {v : ℤ}
    (h : v ∈ (values.filter (0 < ·)).insertionSort r) : 0 < v := by
  have hmem := (List.mem_insertionSort r).mp h
  simpa using (List.mem_filter.mp hmem).2

theorem concentrations_ordered (values : List ℤ) : (concentrations values).Ordered := by
  have hnonneg : ∀ v ∈ (values.filter (0 < ·)).insertionSort (· ≥ ·), 0 ≤ v :=
    fun v hv => (sorted_pos hv).le
  rw [concentrations]
  exact ⟨shareOf_nonneg hnonneg 1, shareOf_mono hnonneg (by omega), shareOf_mono hnonneg (by omega),
    shareOf_mono hnonneg (by omega), shareOf_le hnonneg 20⟩

theorem concentrations_perm (h : values.Perm other) : concentrations values = concentrations other := by
  have hsorted : (values.filter (0 < ·)).insertionSort (· ≥ ·) =
      (other.filter (0 < ·)).insertionSort (· ≥ ·) :=
    insertionSort_eq_of_perm (h.filter _) fun a _ b _ hab hba => le_antisymm hba hab
  rw [concentrations, concentrations, hsorted]

/-! ## The Gini coefficient -/

theorem gini_perm (h : values.Perm other) : gini values = gini other := by
  have hsorted : (values.filter (0 < ·)).insertionSort (· ≤ ·) =
      (other.filter (0 < ·)).insertionSort (· ≤ ·) :=
    insertionSort_eq_of_perm (h.filter _) fun a _ b _ hab hba => le_antisymm hab hba
  rw [gini, gini, hsorted]

/-- What the coefficient is computed from, if a value is positive. -/
theorem gini_of_pos (h : ∃ v ∈ values, 0 < v) :
    ∃ sorted : List ℤ, sorted.Pairwise (· ≤ ·) ∧ (∀ v, v ∈ sorted ↔ v ∈ values ∧ 0 < v) ∧
      0 < sorted.sum ∧ 0 < sorted.length ∧
      gini values = some (((2 * rankSum sorted - (sorted.length + 1) * sorted.sum) * 10000).tdiv
        (sorted.length * sorted.sum)) := by
  have hmem : ∀ v, v ∈ (values.filter (0 < ·)).insertionSort (· ≤ ·) ↔ v ∈ values ∧ 0 < v := by
    intro v
    rw [List.mem_insertionSort, List.mem_filter, decide_eq_true_eq]
  obtain ⟨v, hv, hpos⟩ := h
  have hin := (hmem v).mpr ⟨hv, hpos⟩
  have hlength := List.length_pos_of_mem hin
  have hsum : 0 < ((values.filter (0 < ·)).insertionSort (· ≤ ·)).sum :=
    List.sum_pos _ (fun w hw => sorted_pos hw) (List.ne_nil_of_mem hin)
  refine ⟨_, List.pairwise_insertionSort _ _, hmem, hsum, hlength, ?_⟩
  rw [gini, if_neg]
  rintro (hzero | hzero)
  · omega
  · omega

/-- **No coefficient without a positive value.** -/
theorem gini_eq_none_iff : gini values = none ↔ ∀ v ∈ values, v ≤ 0 := by
  constructor
  · intro h v hv
    by_contra hpos
    obtain ⟨sorted, -, -, -, -, hgini⟩ := gini_of_pos ⟨v, hv, not_le.mp hpos⟩
    rw [hgini] at h
    cases h
  · intro h
    have hnil : values.filter (0 < ·) = [] := by
      refine List.filter_eq_nil_iff.mpr fun v hv => ?_
      have hle := h v hv
      rw [decide_eq_true_eq]
      omega
    rw [gini, hnil]
    rfl

/-- **It is between zero and one.** -/
theorem gini_bounds {g : ℤ} (h : gini values = some g) : 0 ≤ g ∧ g < 10000 := by
  have hpos : ∃ v ∈ values, 0 < v := by
    by_contra hnone
    push Not at hnone
    rw [gini_eq_none_iff.mpr hnone] at h
    cases h
  obtain ⟨sorted, hsorted, hmem, hsum, hlength, hgini⟩ := gini_of_pos hpos
  rw [hgini] at h
  obtain rfl := Option.some.inj h
  have hlower := le_two_rankSum hsorted
  have hupper := rankSum_le fun v hv => ((hmem v).mp hv).2.le
  have htotal : 0 < (sorted.length : ℤ) * sorted.sum := mul_pos (by omega) hsum
  have hnumerator : 0 ≤ (2 * rankSum sorted - (sorted.length + 1) * sorted.sum) * 10000 := by
    linarith
  rw [Int.tdiv_eq_ediv_of_nonneg hnumerator]
  refine ⟨Int.ediv_nonneg hnumerator htotal.le, Int.ediv_lt_of_lt_mul htotal ?_⟩
  have hsplit : ((sorted.length : ℤ) + 1) * sorted.sum = sorted.length * sorted.sum + sorted.sum := by
    ring
  linarith

/-- **Equal balances have the coefficient zero.** -/
theorem gini_of_equal {c : ℤ} (hpos : ∃ v ∈ values, 0 < v) (h : ∀ v ∈ values, 0 < v → v = c) :
    gini values = some 0 := by
  obtain ⟨sorted, -, hmem, -, -, hgini⟩ := gini_of_pos hpos
  have hequal := two_rankSum_of_equal fun v hv => h v ((hmem v).mp hv).1 ((hmem v).mp hv).2
  rw [hgini, hequal, sub_self, zero_mul, Int.zero_tdiv]

/-! ## Allocations -/

/-- What a class is allocated: the balances of its addresses. -/
theorem foldl_allocate (init : HolderAddressClass → ℤ) (c : HolderAddressClass) :
    balances.foldl (allocate classifications) init c = init c +
      (balances.map fun b => if holderClassOf classifications b = c then b.balanceRaw else 0).sum := by
  induction balances generalizing init with
  | nil => simp
  | cons b balances ih =>
    rw [List.foldl_cons, ih, List.map_cons, List.sum_cons, allocate]
    by_cases hclass : holderClassOf classifications b = c
    · rw [hclass, Function.update_self, if_pos rfl, add_assoc]
    · rw [Function.update_of_ne (Ne.symm hclass), if_neg hclass, zero_add]

/-- **The classes share out the whole.** -/
theorem sum_allocations : (holderClasses.map
      (balances.foldl (allocate classifications) fun _ => 0)).sum =
    (balances.map (·.balanceRaw)).sum := by
  have hone : ∀ (c : HolderAddressClass) (v : ℤ),
      (holderClasses.map fun c' => if c = c' then v else 0).sum = v := by
    intro c v
    cases c with
    | _ => simp [holderClasses]
  have hsum : ∀ l : List HolderBalance, (holderClasses.map fun c =>
      (l.map fun b => if holderClassOf classifications b = c then b.balanceRaw else 0).sum).sum =
        (l.map (·.balanceRaw)).sum := by
    intro l
    induction l with
    | nil => simp
    | cons b l ih =>
      simp only [List.map_cons, List.sum_cons]
      rw [List.sum_map_add, ih, hone]
  rw [← hsum balances]
  refine congrArg List.sum (List.map_congr_left fun c _ => ?_)
  rw [foldl_allocate, zero_add]

theorem foldl_allocate_perm (h : balances.Perm balances') :
    balances.foldl (allocate classifications) (fun _ => 0) =
      balances'.foldl (allocate classifications) fun _ => 0 := by
  funext c
  rw [foldl_allocate, foldl_allocate, (h.map _).sum_eq]

/-! ## The snapshot -/

/-- The balances that count. -/
def positiveBalances (balances : List HolderBalance) : List HolderBalance :=
  balances.filter fun b => 0 < b.balanceRaw

theorem analyzeHolders_perm (input : HolderAnalysisInput) (h : input.balances.Perm balances') :
    analyzeHolders { input with balances := balances' } = analyzeHolders input := by
  have hvalid : (input.balances.filter fun b => 0 < b.balanceRaw).Perm
      (balances'.filter fun b => 0 < b.balanceRaw) := h.filter _
  simp only [analyzeHolders, HolderSnapshot.mk.injEq, true_and, and_true]
  refine ⟨hvalid.length_eq.symm, ?_, ?_, ?_, ?_, ?_⟩
  · rw [((hvalid.filter _).map _).sum_eq]
  · exact (concentrations_perm (hvalid.map _)).symm
  · exact (concentrations_perm ((hvalid.filter _).map _)).symm
  · exact (gini_perm (hvalid.map _)).symm
  · exact (foldl_allocate_perm hvalid).symm

/-- **Holder statistics are bounded**, share out the positive balances, and
do not depend on the order of the balances. -/
theorem analyzeHolders_spec (input : HolderAnalysisInput) :
    (analyzeHolders input).rawConcentrationBps.Ordered ∧
      (analyzeHolders input).adjustedConcentrationBps.Ordered ∧
      ((analyzeHolders input).giniScaled = none ↔ positiveBalances input.balances = []) ∧
      (∀ g, (analyzeHolders input).giniScaled = some g → 0 ≤ g ∧ g < 10000) ∧
      (∀ c, positiveBalances input.balances ≠ [] →
        (∀ b ∈ positiveBalances input.balances, b.balanceRaw = c) →
          (analyzeHolders input).giniScaled = some 0) ∧
      (holderClasses.map (analyzeHolders input).allocations).sum =
        ((positiveBalances input.balances).map (·.balanceRaw)).sum ∧
      ∀ balances', input.balances.Perm balances' →
        analyzeHolders { input with balances := balances' } = analyzeHolders input := by
  have hpositive : ∀ v ∈ (positiveBalances input.balances).map (·.balanceRaw), 0 < v := by
    intro v hv
    obtain ⟨b, hb, rfl⟩ := List.mem_map.mp hv
    simpa using (List.mem_filter.mp hb).2
  refine ⟨concentrations_ordered _, concentrations_ordered _, ?_, fun g => gini_bounds, ?_,
    sum_allocations, fun balances' => analyzeHolders_perm input⟩
  · refine gini_eq_none_iff.trans ⟨fun h => ?_, fun h v hv => ?_⟩
    · refine List.eq_nil_iff_forall_not_mem.mpr fun b hb => ?_
      have hv := List.mem_map_of_mem (f := HolderBalance.balanceRaw) hb
      have hle := h _ hv
      have hlt := hpositive _ hv
      omega
    · change v ∈ (positiveBalances input.balances).map (·.balanceRaw) at hv
      rw [h] at hv
      cases hv
  · intro c hne hequal
    obtain ⟨b, hb⟩ := List.exists_mem_of_ne_nil _ hne
    have hv := List.mem_map_of_mem (f := HolderBalance.balanceRaw) hb
    refine @gini_of_equal _ c ⟨_, hv, hpositive _ hv⟩ fun v hv _ => ?_
    obtain ⟨b, hb, rfl⟩ := List.mem_map.mp hv
    exact hequal b hb

end HoodSentry
