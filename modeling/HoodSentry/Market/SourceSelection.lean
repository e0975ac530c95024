import HoodSentry.Common.Sorting
import HoodSentry.Market.Authority
import HoodSentry.Market.Model.Selection
/-!
# What the selection of a source keeps

The usable observations are sorted by priority and confidence, so their order
does not count where these tell them apart. The first one is selected, less
a penalty for each of the others that disagrees: with penalties that have no
sign the confidence only falls, and falls further with every source that
disagrees.
-/

namespace HoodSentry

variable {configs : List PriceSource} {observations : List PriceObservationRow} {observedAt : ℕ}
variable {result : SourceSelectionResult}

/-- The rules of a source as its registry parses them: digits alone. -/
structure ConfidenceRules.Unsigned (rules : ConfidenceRules) : Prop where
  baseConfidenceBps : 0 ≤ rules.baseConfidenceBps
  thinLiquidityPenaltyBps : 0 ≤ rules.thinLiquidityPenaltyBps
  stalePenaltyBps : 0 ≤ rules.stalePenaltyBps
  disagreementThresholdBps : 0 ≤ rules.disagreementThresholdBps
  disagreementPenaltyBps : 0 ≤ rules.disagreementPenaltyBps
  maximumPriceImpactBps : 0 ≤ rules.maximumPriceImpactBps
  maximumSingleTransactionVolumeBps : 0 ≤ rules.maximumSingleTransactionVolumeBps
  maximumPriceJumpBps : 0 ≤ rules.maximumPriceJumpBps
  stablecoinDepegThresholdBps : 0 ≤ rules.stablecoinDepegThresholdBps
  minimumAuthoritativeConfidenceBps : 0 ≤ rules.minimumAuthoritativeConfidenceBps

/-- What an observation is sorted by. -/
def sortKey (configs : List PriceSource) (observation : PriceObservationRow) : ℕ × ℤ :=
  (sourcePriority configs observation, observation.confidenceBps)

/-- **The usable observations differ** in priority or confidence. -/
def UsableApart (configs : List PriceSource) (observations : List PriceObservationRow) : Prop :=
  (observations.filter (·.selectable)).Pairwise fun a b => sortKey configs a ≠ sortKey configs b

/-! ## Confidence -/

theorem clampBps_nonneg (value : ℤ) : 0 ≤ clampBps value := by
  unfold clampBps
  split_ifs <;> omega

theorem clampBps_mono {a b : ℤ} (h : a ≤ b) : clampBps a ≤ clampBps b := by
  unfold clampBps
  split_ifs <;> omega

theorem clampBps_sub_le {a b : ℤ} (ha : 0 ≤ a) (hb : 0 ≤ b) : clampBps (a - b) ≤ a := by
  unfold clampBps
  split_ifs <;> omega

/-- The confidence of an evaluated observation has no sign. -/
theorem confidenceBps_nonneg_of_evaluate {config : PriceSource} {evidence : PriceEvidence}
    {previous : Option ℤ} {value : PriceObservation}
    (h : evaluateObservation config evidence previous = some value) : 0 ≤ value.confidenceBps := by
  obtain ⟨reasons, -, rfl⟩ := Option.map_eq_some_iff.mp h
  dsimp only
  unfold observationConfidence
  split
  · exact le_rfl
  · exact clampBps_nonneg _

/-- Nor has what the outlier job stores. -/
theorem confidenceBps_nonneg_of_outlier (input : OutlierInput) :
    0 ≤ (afterOutlierDetection input).confidenceBps := by
  dsimp only [afterOutlierDetection, detectOutliers]
  split
  · exact le_rfl
  · exact clampBps_nonneg _

/-! ## The order of the observations -/

instance (configs : List PriceSource) : IsTrans PriceObservationRow (sortsBefore configs) where
  trans a b c hab hbc := by
    unfold sortsBefore at *
    omega

instance (configs : List PriceSource) : Std.Total (sortsBefore configs) where
  total a b := by
    unfold sortsBefore
    omega

theorem sortKey_eq_of_sortsBefore {a b : PriceObservationRow} (hab : sortsBefore configs a b)
    (hba : sortsBefore configs b a) : sortKey configs a = sortKey configs b := by
  unfold sortsBefore at hab hba
  rw [sortKey, sortKey, Prod.mk.injEq]
  omega

/-- **The order of the observations does not count.** -/
theorem sortObservations_eq_of_perm {l : List PriceObservationRow} (hperm : l.Perm observations)
    (hapart : UsableApart configs observations) :
    sortObservations configs l = sortObservations configs observations := by
  refine insertionSort_eq_of_perm (hperm.filter _) fun a ha b hb hab hba => ?_
  have hsymm : Std.Symm fun a b => sortKey configs a ≠ sortKey configs b := ⟨fun _ _ => Ne.symm⟩
  by_contra hne
  exact hapart.forall ha hb hne (sortKey_eq_of_sortsBefore hab hba)

theorem selectPriceSource_eq_of_perm {l : List PriceObservationRow} (hperm : l.Perm observations)
    (hapart : UsableApart configs observations) :
    selectPriceSource configs l observedAt = selectPriceSource configs observations observedAt := by
  unfold selectPriceSource
  rw [sortObservations_eq_of_perm hperm hapart]

/-! ## What is selected -/

/-- **What a selection returns**: nothing usable, or the first of the sorted
observations with its penalty. -/
inductive Selects (configs : List PriceSource) (observations : List PriceObservationRow)
    (observedAt : ℕ) : SourceSelectionResult → Prop
  | none {fallback : PriceSource} (hsorted : sortObservations configs observations = []) :
      Selects configs observations observedAt ⟨unavailableObservation fallback observedAt, [], []⟩
  | some {fallback config : PriceSource} {primary : PriceObservationRow}
      {others : List PriceObservationRow}
      (hsorted : sortObservations configs observations = primary :: others)
      (hconfig : configOf configs primary = some config) :
      Selects configs observations observedAt
        { selected :=
            if primary.priceRaw.isNone then unavailableObservation fallback observedAt
            else penalised primary config (disagreementWarnings primary others config)
          evaluated := primary :: others
          disagreementWarnings := disagreementWarnings primary others config }

theorem selects_of_eq_some
    (h : selectPriceSource configs observations observedAt = some result) :
    Selects configs observations observedAt result := by
  obtain ⟨fallback, -, h⟩ := Option.bind_eq_some_iff.mp h
  cases hsorted : sortObservations configs observations with
  | nil =>
    rw [hsorted] at h
    cases Option.some.inj h
    exact .none hsorted
  | cons primary others =>
    rw [hsorted] at h
    obtain ⟨config, hconfig, rfl⟩ := Option.map_eq_some_iff.mp h
    exact .some hsorted hconfig

theorem mem_of_mem_sortObservations {o : PriceObservationRow}
    (h : o ∈ sortObservations configs observations) : o ∈ observations :=
  List.mem_of_mem_filter ((List.mem_insertionSort _).mp h)

theorem mem_of_configOf {config : PriceSource} {o : PriceObservationRow}
    (h : configOf configs o = some config) : config ∈ configs :=
  List.mem_of_find?_eq_some h

/-- The confidence selected is the primary's, less the penalty, or none. -/
theorem penalised_confidence_le {primary : PriceObservationRow} {config : PriceSource}
    {warnings : List String} (hconfig : config.confidenceRules.Unsigned)
    (hprimary : 0 ≤ primary.confidenceBps) :
    0 ≤ (penalised primary config warnings).confidenceBps ∧
      (penalised primary config warnings).confidenceBps ≤ 10000 ∧
        (penalised primary config warnings).confidenceBps ≤ primary.confidenceBps :=
  ⟨clampBps_nonneg _, clampBps_le _,
    clampBps_sub_le hprimary (mul_nonneg (Int.natCast_nonneg _) hconfig.disagreementPenaltyBps)⟩

/-! ## One source more -/

/-- More candidates, more warnings. -/
theorem disagreementWarnings_length_le {primary : PriceObservationRow} {config : PriceSource}
    {others others' : List PriceObservationRow} (h : others.Subperm others') :
    (disagreementWarnings primary others config).length ≤
      (disagreementWarnings primary others' config).length := by
  unfold disagreementWarnings
  cases primary.priceRaw with
  | none => exact le_rfl
  | some raw =>
    obtain ⟨l, hperm, hsublist⟩ := h
    dsimp only
    rw [← (hperm.filterMap _).length_eq]
    exact (hsublist.filterMap _).length_le

theorem subperm_sortObservations {extra : PriceObservationRow} {l : List PriceObservationRow}
    (hperm : l.Perm (extra :: observations)) :
    (sortObservations configs observations).Subperm (sortObservations configs l) := by
  have hsub : (observations.filter (·.selectable)).Subperm (l.filter (·.selectable)) := by
    refine List.Subperm.trans (List.Sublist.subperm ?_) (hperm.symm.filter _).subperm
    exact (List.sublist_cons_self extra observations).filter _
  exact (List.perm_insertionSort _ _).subperm.trans
    (hsub.trans (List.perm_insertionSort _ _).symm.subperm)

/-- **One source more** does not raise the confidence of what is selected. -/
theorem confidenceBps_le_of_cons (hrules : ∀ c ∈ configs, c.confidenceRules.Unsigned)
    {extra : PriceObservationRow} {l : List PriceObservationRow} {result' : SourceSelectionResult}
    (hperm : l.Perm (extra :: observations))
    (h : selectPriceSource configs observations observedAt = some result)
    (h' : selectPriceSource configs l observedAt = some result')
    (hprimary : result'.evaluated.head? = result.evaluated.head?) :
    result'.selected.confidenceBps ≤ result.selected.confidenceBps := by
  have hsub := @subperm_sortObservations configs observations extra l hperm
  cases selects_of_eq_some h with
  | none hsorted =>
    cases selects_of_eq_some h' with
    | none hsorted' => exact le_rfl
    | some hsorted' hconfig' => cases hprimary
  | @some _ config primary others hsorted hconfig =>
    cases selects_of_eq_some h' with
    | none hsorted' => cases hprimary
    | @some _ _ _ others' hsorted' hconfig' =>
      cases Option.some.inj hprimary
      cases Option.some.inj (hconfig.symm.trans hconfig')
      rw [hsorted, hsorted', List.subperm_cons] at hsub
      have hlength : ((disagreementWarnings primary others config).length : ℤ) ≤
          (disagreementWarnings primary others' config).length :=
        Int.ofNat_le.mpr (disagreementWarnings_length_le hsub)
      have hpenalty := (hrules _ (mem_of_configOf hconfig)).disagreementPenaltyBps
      dsimp only
      split
      · exact le_rfl
      · refine clampBps_mono (Int.sub_le_sub_left ?_ _)
        exact mul_le_mul_of_nonneg_right hlength hpenalty

/-! ## The laws -/

/-- **What a result says of the observation it selects.** -/
structure LowersConfidence (configs : List PriceSource) (result : SourceSelectionResult) : Prop where
  nonneg : 0 ≤ result.selected.confidenceBps
  le_full : result.selected.confidenceBps ≤ 10000
  le_primary : ∀ primary, result.evaluated.head? = some primary →
    result.selected.confidenceBps ≤ primary.confidenceBps
  authoritative : result.selected.authoritative = true → ∃ primary config,
    result.evaluated.head? = some primary ∧ configOf configs primary = some config ∧
      primary.authoritative = true ∧
        config.confidenceRules.minimumAuthoritativeConfidenceBps ≤ result.selected.confidenceBps

theorem lowersConfidence (hrules : ∀ c ∈ configs, c.confidenceRules.Unsigned)
    (hconfidence : ∀ o ∈ observations, 0 ≤ o.confidenceBps)
    (h : selectPriceSource configs observations observedAt = some result) :
    LowersConfidence configs result := by
  cases selects_of_eq_some h with
  | none hsorted => exact ⟨le_rfl, by simp [unavailableObservation], by simp, by
      simp [unavailableObservation]⟩
  | @some fallback config primary others hsorted hconfig =>
    have hprimary : 0 ≤ primary.confidenceBps := by
      refine hconfidence primary (@mem_of_mem_sortObservations configs observations primary ?_)
      rw [hsorted]
      exact List.mem_cons_self
    have hle := @penalised_confidence_le primary config
      (disagreementWarnings primary others config) (hrules _ (mem_of_configOf hconfig)) hprimary
    by_cases hprice : primary.priceRaw.isNone
    · simp only [hprice, if_true]
      refine ⟨le_rfl, by simp [unavailableObservation], ?_, by simp [unavailableObservation]⟩
      rintro primary' hhead
      cases Option.some.inj hhead
      exact hprimary
    · simp only [hprice, Bool.false_eq_true, if_false]
      refine ⟨hle.1, hle.2.1, ?_, fun hauthoritative => ?_⟩
      · rintro primary' hhead
        cases Option.some.inj hhead
        exact hle.2.2
      · dsimp only [penalised] at hauthoritative
        rw [Bool.and_eq_true, decide_eq_true_iff] at hauthoritative
        exact ⟨primary, config, rfl, hconfig, hauthoritative⟩

def PriceSource.second : PriceSource :=
  { PriceSource.sampleOracle with sourceKey := .named "second", priority := 2 }

def PriceObservationRow.of (config : PriceSource) (price : ℤ) : PriceObservationRow :=
  { unavailableObservation config 0 with
    sourceKey := config.sourceKey
    priceRaw := some price
    confidenceBps := 9000
    status := .available
    authoritative := true
    reasons := [] }

/-- Two sources that disagree. -/
def twoObservations : List PriceObservationRow := [.of .sampleOracle 100, .of .second 300]

theorem unsigned_sampleOracle : PriceSource.sampleOracle.confidenceRules.Unsigned := by
  constructor <;> decide

end HoodSentry
