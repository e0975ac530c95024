import HoodSentry.Discovery.FeedRankings
import HoodSentry.Discovery.Model.Scoring
/-!
# Laws of the trending score

Every component is cut to its weight, so what is bounded is bounded, and the
score lies in its range. Nothing on the way from a figure of the candidate to
the score turns the order around: not the clamps, nor the divisions toward
zero, nor the loop of the logarithm, which counts as `Nat.log` does. A change
that only helps (`Improves`) lowers no component that counts for a candidate
and raises none that counts against it.
-/

namespace HoodSentry

namespace Discovery

/-! ## The logarithm -/

theorem integerLog2Loop_eq {current : ℤ} (h : 0 < current) (result : ℤ) :
    integerLog2Loop current result = result + Nat.log 2 current.toNat + 1 := by
  induction hn : current.toNat using Nat.strong_induction_on generalizing current result with
  | _ n ih =>
    have hhalf : current >>> (1 : ℕ) = current / 2 := Int.shiftRight_eq_div_pow current 1
    rw [integerLog2Loop, if_pos h, hhalf]
    by_cases hone : current = 1
    · subst hone
      obtain rfl : 1 = n := hn
      rw [integerLog2Loop, if_neg (by omega)]
      simp
    · have hlt : (current / 2).toNat < n := by omega
      have hdiv : (current / 2).toNat = n / 2 := by omega
      have hlog : Nat.log 2 n = Nat.log 2 (n / 2) + 1 :=
        Nat.log_of_one_lt_of_le (by omega) (by omega)
      rw [ih _ hlt (by omega) (result + 1) rfl, hdiv, hlog]
      push_cast
      ring

/-- **The loop counts the logarithm.** -/
theorem integerLog2_eq (value : ℤ) : integerLog2 value = Nat.log 2 value.toNat := by
  unfold integerLog2
  split_ifs with h
  · rw [Nat.log_of_lt (by omega)]
    rfl
  · rw [integerLog2Loop_eq (by omega)]
    ring

theorem integerLog2_mono {a b : ℤ} (h : a ≤ b) : integerLog2 a ≤ integerLog2 b := by
  rw [integerLog2_eq, integerLog2_eq]
  have hnat : a.toNat ≤ b.toNat := by omega
  exact_mod_cast Nat.log_mono_right hnat

/-! ## Nullable figures -/

/-- **A figure rises**: it is known where it was, and no smaller. -/
def Rises (a b : Option ℤ) : Prop := ∀ x ∈ a, ∃ y ∈ b, x ≤ y

/-- An age falls: both are known, or nothing changes. -/
def Younger (a b : Option ℤ) : Prop := a = b ∨ ∃ x ∈ a, ∃ y ∈ b, y ≤ x

section Figures

variable {a b : Option ℤ}

theorem Rises.refl (a : Option ℤ) : Rises a a := fun x hx => ⟨x, hx, le_rfl⟩

theorem rises_some {x y : ℤ} (h : x ≤ y) : Rises (some x) (some y) := by
  intro z hz
  obtain rfl := Option.some.inj hz
  exact ⟨y, rfl, h⟩

/-- What is worth nothing where it is unknown, and no less than nothing where
it is known, is worth no less where it rises. -/
theorem Rises.map_le {f : Option ℤ → ℤ} (h : Rises a b) (hnone : ∀ b, f none ≤ f b)
    (hmono : ∀ x y, x ≤ y → f (some x) ≤ f (some y)) : f a ≤ f b := by
  cases a with
  | none => exact hnone b
  | some x =>
    obtain ⟨y, rfl, hxy⟩ := h x rfl
    exact hmono x y hxy

theorem signedGrowthScore_mono {full : ℤ} (h : Rises a b) :
    signedGrowthScore a full ≤ signedGrowthScore b full := by
  have hnonneg : ∀ c, 0 ≤ signedGrowthScore c full := by
    intro c
    unfold signedGrowthScore
    split
    · exact le_rfl
    · split_ifs
      · exact le_rfl
      · exact clampBps_nonneg _
  refine h.map_le (f := fun v => signedGrowthScore v full) hnonneg fun x y hxy => ?_
  by_cases hx : x ≤ 0 ∨ full ≤ 0
  · exact (if_pos hx).trans_le (hnonneg (some y))
  · have hy : ¬(y ≤ 0 ∨ full ≤ 0) := by omega
    rw [signedGrowthScore, if_neg hx, signedGrowthScore, if_neg hy]
    exact clampBps_mono (Int.tdiv_le_tdiv (by omega) (by omega))

theorem logScaledBps_mono {decimals : Option ℤ} (h : Rises a b) :
    logScaledBps a decimals ≤ logScaledBps b decimals := by
  have hnonneg : ∀ c, 0 ≤ logScaledBps c decimals := by
    intro c
    unfold logScaledBps
    split
    · split_ifs
      · exact le_rfl
      · exact clampBps_nonneg _
    · exact le_rfl
  refine h.map_le (f := fun v => logScaledBps v decimals) hnonneg fun x y hxy => ?_
  cases decimals with
  | none => exact le_rfl
  | some decimals =>
    by_cases hx : x ≤ 0 ∨ decimals < 0
    · exact (if_pos hx).trans_le (hnonneg (some y))
    · have hy : ¬(y ≤ 0 ∨ decimals < 0) := by omega
      have hunits : x.tdiv (10 ^ decimals.toNat) ≤ y.tdiv (10 ^ decimals.toNat) :=
        Int.tdiv_le_tdiv (by positivity) hxy
      have hlog := integerLog2_mono (add_le_add_left hunits 1)
      rw [logScaledBps, if_neg hx, logScaledBps, if_neg hy]
      exact clampBps_mono (Int.tdiv_le_tdiv (by omega) (by omega))

theorem ratioBps_getD_mono {denominator : ℤ} (h : Rises a b) :
    ratioBps (a.getD 0) denominator ≤ ratioBps (b.getD 0) denominator := by
  have hzero : ratioBps 0 denominator = 0 := by
    unfold ratioBps
    split_ifs
    · rfl
    · rw [zero_mul, Int.zero_tdiv]
      rfl
  exact h.map_le (f := fun v => ratioBps (v.getD 0) denominator)
    (fun b => hzero.trans_le (ratioBps_nonneg _ _)) fun _ _ => ratioBps_mono denominator

theorem clampBps_getD_mono (h : Rises a b) : clampBps (a.getD 0) ≤ clampBps (b.getD 0) :=
  h.map_le (f := fun v => clampBps (v.getD 0)) (fun b => clampBps_nonneg (b.getD 0))
    fun _ _ => clampBps_mono

/-- **The older, the less an age is worth.** -/
theorem ageWorth_mono (h : Younger a b) : ageWorth a ≤ ageWorth b := by
  rcases h with rfl | ⟨x, rfl, y, rfl, hyx⟩
  · exact le_rfl
  · have hworth : ∀ z : ℤ, ageWorth (some z) =
        if z ≤ 86400 then 10000
        else if z ≥ 2592000 then 1000 else 10000 - (z - 86400) * 9000 / 2505600 := by
      intro z
      unfold ageWorth DAY_SECONDS
      dsimp only
      split_ifs <;> try omega
      rw [Int.tdiv_eq_ediv_of_nonneg (by omega)]
      rfl
    rw [hworth, hworth]
    split_ifs <;> omega

end Figures

/-! ## Components -/

section Components

variable {key : TrendingComponentKey} {kind : ComponentKind} {raw raw' : Option ℤ} {bps bps' : ℤ}
variable {available available' : Bool} {reasons reasons' : List String}

theorem weight_bounds (key : TrendingComponentKey) :
    0 ≤ POSITIVE_WEIGHTS key ∧ POSITIVE_WEIGHTS key ≤ 10000 := by
  cases key <;> decide

/-- A component that is built as one. -/
def IsComponent (item : TrendingComponent) : Prop :=
  ∃ key kind raw bps available reasons, item = component key kind raw bps available reasons

theorem isComponent : IsComponent (component key kind raw bps available reasons) :=
  ⟨key, kind, raw, bps, available, reasons, rfl⟩

/-- **A component is cut to its weight.** -/
theorem IsComponent.contribution_bounds {item : TrendingComponent} (h : IsComponent item) :
    0 ≤ item.contributionBps ∧ item.contributionBps ≤ item.weightBps := by
  obtain ⟨key, kind, raw, bps, available, reasons, rfl⟩ := h
  have hweight := (weight_bounds key).1
  have hlow := clampBps_nonneg bps
  have hhigh := clampBps_le bps
  have hproduct : 0 ≤ clampBps bps * POSITIVE_WEIGHTS key := mul_nonneg hlow hweight
  have hcut : clampBps bps * POSITIVE_WEIGHTS key ≤ 10000 * POSITIVE_WEIGHTS key :=
    mul_le_mul_of_nonneg_right hhigh hweight
  show 0 ≤ (clampBps bps * POSITIVE_WEIGHTS key).tdiv 10000 ∧
    (clampBps bps * POSITIVE_WEIGHTS key).tdiv 10000 ≤ POSITIVE_WEIGHTS key
  rw [Int.tdiv_eq_ediv_of_nonneg hproduct]
  constructor <;> omega

theorem IsComponent.weight_bounds {item : TrendingComponent} (h : IsComponent item) :
    0 ≤ item.weightBps ∧ item.weightBps ≤ 10000 := by
  obtain ⟨key, kind, raw, bps, available, reasons, rfl⟩ := h
  exact Discovery.weight_bounds key

/-- **What is worth more contributes more.** -/
theorem contribution_mono (h : clampBps bps ≤ clampBps bps') :
    (component key kind raw bps available reasons).contributionBps ≤
      (component key kind raw' bps' available' reasons').contributionBps :=
  Int.tdiv_le_tdiv (by omega) (mul_le_mul_of_nonneg_right h (weight_bounds key).1)

theorem sumOf_eq (f : TrendingComponent → ℤ) (items : List TrendingComponent) :
    sumOf f items = (items.map f).sum := by
  rw [sumOf, List.sum_eq_foldl, List.foldl_map]

end Components

section Candidate

variable {p : Platform} {c c' : DiscoveryCandidate} {m : ManipulationAssessment}

theorem isComponent_of_mem_positive : ∀ item ∈ positiveComponents p c,
    IsComponent item ∧ item.kind = .positive := by
  simp only [positiveComponents, List.forall_mem_cons]
  refine ⟨?_, ?_, ?_, ?_, ?_, ?_, ?_, ?_, ?_, ?_, ?_, ?_, ?_, fun _ h => absurd h List.not_mem_nil⟩
  all_goals exact ⟨isComponent, rfl⟩

theorem isComponent_of_mem_penalty : ∀ item ∈ penaltyComponents c m,
    IsComponent item ∧ item.kind = .penalty := by
  simp only [penaltyComponents, List.forall_mem_cons]
  refine ⟨?_, ?_, ?_, ?_, ?_, ?_, fun _ h => absurd h List.not_mem_nil⟩
  all_goals exact ⟨isComponent, rfl⟩

/-- The components by their kinds. -/
theorem filter_components :
    (positiveComponents p c ++ penaltyComponents c m).filter (fun item => item.kind = .positive) =
        positiveComponents p c ∧
      (positiveComponents p c ++ penaltyComponents c m).filter (fun item => item.kind = .penalty) =
        penaltyComponents c m := by
  have hpositive := @isComponent_of_mem_positive p c
  have hpenalty := @isComponent_of_mem_penalty c m
  constructor
  · rw [List.filter_append, List.filter_eq_self.mpr, List.filter_eq_nil_iff.mpr, List.append_nil]
    · intro item hitem
      simp [(hpenalty item hitem).2]
    · intro item hitem
      simp [(hpositive item hitem).2]
  · rw [List.filter_append, List.filter_eq_nil_iff.mpr, List.filter_eq_self.mpr, List.nil_append]
    · intro item hitem
      simp [(hpenalty item hitem).2]
    · intro item hitem
      simp [(hpositive item hitem).2]

/-- **The score** is what counts for a candidate less what counts against it. -/
theorem scoreBps_eq : (calculateTrendingScore p c).scoreBps =
    clampBps (((positiveComponents p c).map (·.contributionBps)).sum -
      ((penaltyComponents c (analyzeManipulation p c.recentTrades c.manipulationContext)).map
        (·.contributionBps)).sum) := by
  obtain ⟨hpositive, hpenalty⟩ := @filter_components p c
    (analyzeManipulation p c.recentTrades c.manipulationContext)
  simp only [calculateTrendingScore]
  rw [hpositive, hpenalty, sumOf_eq, sumOf_eq]

/-! ## Bounds -/

theorem length_manipulationSignals (trades : List DiscoveryTrade) (context : ManipulationContext) :
    (manipulationSignals p trades context).length = 9 := rfl

theorem manipulation_confidence_bounds (trades : List DiscoveryTrade)
    (context : ManipulationContext) :
    0 ≤ (analyzeManipulation p trades context).confidenceBps ∧
      (analyzeManipulation p trades context).confidenceBps ≤ 10000 := by
  have hlength := List.length_filter_le
    (fun item => decide (item.status ≠ SignalStatus.insufficientData))
    (manipulationSignals p (canonicalTrades trades) context)
  simp only [analyzeManipulation]
  rw [length_manipulationSignals] at hlength ⊢
  rw [Int.tdiv_eq_ediv_of_nonneg (by positivity)]
  constructor <;> omega

/-- The weights of the available components are some of all. -/
theorem available_bounds :
    0 ≤ sumOf (·.weightBps) ((positiveComponents p c).filter (·.available)) ∧
      sumOf (·.weightBps) ((positiveComponents p c).filter (·.available)) ≤ 9000 := by
  have hnonneg : ∀ item ∈ positiveComponents p c, 0 ≤ item.weightBps := fun item hitem =>
    (isComponent_of_mem_positive item hitem).1.weight_bounds.1
  have hsub : (((positiveComponents p c).filter (·.available)).map (·.weightBps)).Sublist
      ((positiveComponents p c).map (·.weightBps)) := List.filter_sublist.map _
  have htotal : ((positiveComponents p c).map (·.weightBps)).sum = 9000 := rfl
  rw [sumOf_eq]
  constructor
  · refine List.sum_nonneg fun weight hweight => ?_
    obtain ⟨item, hitem, rfl⟩ := List.mem_map.mp hweight
    exact hnonneg item (List.mem_of_mem_filter hitem)
  · rw [← htotal]
    refine hsub.sum_le_sum fun weight hweight => ?_
    obtain ⟨item, hitem, rfl⟩ := List.mem_map.mp hweight
    exact hnonneg item hitem

/-- **Every number of a score is in range.** -/
structure TrendingScore.Bounded (score : TrendingScore) : Prop where
  total : 0 ≤ score.scoreBps ∧ score.scoreBps ≤ 10000
  contributions : ∀ item ∈ score.components,
    0 ≤ item.contributionBps ∧ item.contributionBps ≤ 10000
  confidence : 0 ≤ score.confidenceBps ∧ score.confidenceBps ≤ 10000

theorem confidenceBps_eq : (calculateTrendingScore p c).confidenceBps =
    (sumOf (·.weightBps) ((positiveComponents p c).filter (·.available)) *
      (analyzeManipulation p c.recentTrades c.manipulationContext).confidenceBps).tdiv 9000 := by
  obtain ⟨hpositive, -⟩ := @filter_components p c
    (analyzeManipulation p c.recentTrades c.manipulationContext)
  have hboth : ∀ items : List TrendingComponent,
      items.filter (fun item => item.kind = .positive && item.available) =
        (items.filter fun item => item.kind = .positive).filter (·.available) := by
    intro items
    rw [List.filter_filter]
    exact List.filter_congr fun item _ => Bool.and_comm _ _
  have htotal : sumOf (·.weightBps) (positiveComponents p c) = 9000 := rfl
  simp only [calculateTrendingScore]
  rw [hboth, hpositive, htotal, if_neg (by decide)]

theorem bounded : (calculateTrendingScore p c).Bounded where
  total := by
    rw [scoreBps_eq]
    exact ⟨clampBps_nonneg _, clampBps_le _⟩
  contributions := by
    intro item hitem
    have hcomponent : IsComponent item := by
      rcases List.mem_append.mp hitem with hitem | hitem
      · exact (isComponent_of_mem_positive item hitem).1
      · exact (isComponent_of_mem_penalty item hitem).1
    have hcut := hcomponent.contribution_bounds
    have hweight := hcomponent.weight_bounds
    omega
  confidence := by
    obtain ⟨hlow, hhigh⟩ := @manipulation_confidence_bounds p c.recentTrades c.manipulationContext
    obtain ⟨hnonneg, htotal⟩ := @available_bounds p c
    rw [confidenceBps_eq]
    have hproduct := mul_nonneg hnonneg hlow
    have hcut := mul_le_mul htotal hhigh hlow (by omega)
    rw [Int.tdiv_eq_ediv_of_nonneg hproduct]
    constructor <;> omega

/-! ## Monotonicity -/

/-- **A change that only helps**: the figures that count for a candidate rise
or stay, those that count against it fall or stay, and so do its ages. -/
structure Improves (parse : DateParse) (c c' : DiscoveryCandidate) : Prop where
  recentTrades : c'.recentTrades = c.recentTrades
  manipulationContext : c'.manipulationContext = c.manipulationContext
  volumeDecimals : c'.volumeDecimals = c.volumeDecimals
  liquidityDecimals : c'.liquidityDecimals = c.liquidityDecimals
  launchpadState : c'.launchpadState = c.launchpadState
  volume : Rises c.volumeRaw c'.volumeRaw
  uniqueTraders : Rises c.uniqueTraders c'.uniqueTraders
  transactionGrowth : Rises c.transactionGrowthBps c'.transactionGrowthBps
  holderGrowth : Rises c.holderGrowth c'.holderGrowth
  liquidity : Rises c.liquidityRaw c'.liquidityRaw
  liquidityGrowth : Rises c.liquidityChangeBps c'.liquidityChangeBps
  watchlistGrowth : Rises c.watchlistGrowth c'.watchlistGrowth
  alertGrowth : Rises c.alertCreationGrowth c'.alertCreationGrowth
  curveProgress : Rises c.launchpadCurveProgressBps c'.launchpadCurveProgressBps
  riskCompleteness : Rises c.riskCompletenessBps c'.riskCompletenessBps
  poolAge : Younger (secondsBetween parse c.poolCreatedAt c.observedAt)
    (secondsBetween parse c'.poolCreatedAt c'.observedAt)
  tokenAge : Younger (secondsBetween parse c.firstSeenAt c.observedAt)
    (secondsBetween parse c'.firstSeenAt c'.observedAt)
  holderConcentration : Rises c'.holderConcentrationBps c.holderConcentrationBps
  duplicateSymbols : c'.duplicateSymbolAddresses.length ≤ c.duplicateSymbolAddresses.length
  dataWarnings : c'.dataQualityWarnings.length ≤ c.dataQualityWarnings.length
  deployerEvidence : c'.suspiciousDeployerEvidence.length ≤ c.suspiciousDeployerEvidence.length

/-- What counts for a candidate does not fall. -/
theorem positive_mono (h : Improves p.parse c c') :
    List.Forall₂ (fun item item' => item.contributionBps ≤ item'.contributionBps)
      (positiveComponents p c) (positiveComponents p c') := by
  have hgraduated : graduated c' = graduated c := by rw [graduated, graduated, h.launchpadState]
  refine .cons (contribution_mono (clampBps_mono ?_)) <|
    .cons (contribution_mono (clampBps_mono (ratioBps_getD_mono h.uniqueTraders))) <|
    .cons (contribution_mono (clampBps_mono (signedGrowthScore_mono h.transactionGrowth))) <|
    .cons (contribution_mono (clampBps_mono (ratioBps_getD_mono h.holderGrowth))) <|
    .cons (contribution_mono (clampBps_mono ?_)) <|
    .cons (contribution_mono (clampBps_mono (signedGrowthScore_mono h.liquidityGrowth))) <|
    .cons (contribution_mono (clampBps_mono (ageWorth_mono h.poolAge))) <|
    .cons (contribution_mono (clampBps_mono (ageWorth_mono h.tokenAge))) <|
    .cons (contribution_mono (clampBps_mono (ratioBps_getD_mono h.watchlistGrowth))) <|
    .cons (contribution_mono (clampBps_mono (ratioBps_getD_mono h.alertGrowth))) <|
    .cons (contribution_mono (clampBps_getD_mono h.curveProgress)) <|
    .cons (contribution_mono (clampBps_mono ?_)) <|
    .cons (contribution_mono (clampBps_getD_mono h.riskCompleteness)) .nil
  · rw [h.volumeDecimals]
    exact logScaledBps_mono h.volume
  · rw [h.liquidityDecimals]
    exact logScaledBps_mono h.liquidity
  · rw [hgraduated]

theorem lowLiquidityPenalty_mono (h : Improves p.parse c c') :
    lowLiquidityPenalty c' ≤ lowLiquidityPenalty c := by
  have hbound : lowLiquidityPenalty c' ≤ 10000 := by
    unfold lowLiquidityPenalty
    split
    · exact le_rfl
    · have hratio := ratioBps_nonneg
      dsimp only
      split_ifs
      · omega
      · exact sub_le_self _ (hratio _ _)
  cases hc : c.liquidityRaw with
  | none =>
    have hnone : lowLiquidityPenalty c = 10000 := by rw [lowLiquidityPenalty, hc]
    rw [hnone]
    exact hbound
  | some x =>
    obtain ⟨y, hy, hxy⟩ := h.liquidity x hc
    have hmono := ratioBps_mono c.manipulationContext.minimumHealthyLiquidityRaw hxy
    have hle := ratioBps_le x c.manipulationContext.minimumHealthyLiquidityRaw
    rw [lowLiquidityPenalty, lowLiquidityPenalty, hc, hy, h.manipulationContext]
    dsimp only
    split_ifs <;> omega

theorem holderConcentrationPenalty_eq_elim (c : DiscoveryCandidate) :
    holderConcentrationPenalty c = c.holderConcentrationBps.elim 0 fun x =>
      if x ≤ 5000 then 0 else clampBps ((x - 5000) * 2) := by
  cases hc : c.holderConcentrationBps <;> simp [holderConcentrationPenalty, hc]

theorem holderConcentrationPenalty_mono (h : Improves p.parse c c') :
    holderConcentrationPenalty c' ≤ holderConcentrationPenalty c := by
  have hnonneg := clampBps_nonneg
  rw [holderConcentrationPenalty_eq_elim, holderConcentrationPenalty_eq_elim]
  refine h.holderConcentration.map_le (f := fun v =>
    v.elim 0 fun x => if x ≤ 5000 then 0 else clampBps ((x - 5000) * 2)) ?_ ?_
  · intro b
    cases b with
    | none => exact le_rfl
    | some y =>
      simp only [Option.elim_none, Option.elim_some]
      split_ifs
      · exact le_rfl
      · exact hnonneg _
  · intro x y hxy
    simp only [Option.elim_some]
    have hmono : clampBps ((x - 5000) * 2) ≤ clampBps ((y - 5000) * 2) :=
      clampBps_mono (by omega)
    have hy := hnonneg ((y - 5000) * 2)
    split_ifs <;> omega

/-- What counts against it does not rise. -/
theorem penalty_mono (h : Improves p.parse c c') :
    List.Forall₂ (fun item item' => item.contributionBps ≤ item'.contributionBps)
      (penaltyComponents c' m) (penaltyComponents c m) := by
  have hduplicates := h.duplicateSymbols
  have hwarnings := h.dataWarnings
  have hdeployer := h.deployerEvidence
  refine .cons (contribution_mono le_rfl) <|
    .cons (contribution_mono (clampBps_mono (holderConcentrationPenalty_mono h))) <|
    .cons (contribution_mono (clampBps_mono (lowLiquidityPenalty_mono h))) <|
    .cons (contribution_mono (clampBps_mono ?_)) <|
    .cons (contribution_mono (clampBps_mono (clampBps_mono (by omega)))) <|
    .cons (contribution_mono (clampBps_mono (clampBps_mono (by omega)))) .nil
  split_ifs <;> omega

theorem sum_contributions_le {items items' : List TrendingComponent}
    (h : List.Forall₂ (fun item item' => item.contributionBps ≤ item'.contributionBps)
      items items') :
    (items.map (·.contributionBps)).sum ≤ (items'.map (·.contributionBps)).sum := by
  induction h with
  | nil => exact le_rfl
  | cons hitem _ ih => exact add_le_add hitem ih

/-- **The score is bounded, and a change that only helps does not lower it.** -/
theorem trending_lawful (p : Platform) (c : DiscoveryCandidate) :
    (calculateTrendingScore p c).Bounded ∧
      ∀ c', Improves p.parse c c' →
        (calculateTrendingScore p c).scoreBps ≤ (calculateTrendingScore p c').scoreBps := by
  refine ⟨bounded, fun c' h => ?_⟩
  rw [scoreBps_eq, scoreBps_eq, h.recentTrades, h.manipulationContext]
  have hpositive := sum_contributions_le (positive_mono h)
  have hpenalty := sum_contributions_le
    (@penalty_mono p c c' (analyzeManipulation p c.recentTrades c.manipulationContext) h)
  exact clampBps_mono (by omega)

end Candidate

/-! ## A sample candidate -/

/-- The address that the lower-cased digits of one spell; all digits, it has no
other spelling. -/
def spelled (key : List Char) : AddressText :=
  if h : (∀ c ∈ key, isHexDigit c = true) ∧ key.length = 40 then ⟨key, h.1, h.2⟩
  else repeatedAddress '0' rfl

/-- Two times, addresses without letters, and code points for the collation. -/
def samplePlatform : Platform where
  parse text :=
    if text = "2026-07-14T12:00:00.000Z" then some 1784030400000
    else if text = "2026-07-13T12:00:00.000Z" then some 1783944000000
    else none
  getAddress := spelled
  collation := Feeds.codePoints

def sampleToken : AddressText := repeatedAddress '1' rfl

/-- A token that is a day old, with liquidity and no trades. -/
def sampleCandidate (volume : ℤ) (trades : List DiscoveryTrade) : DiscoveryCandidate where
  chainId := 46630
  address := sampleToken
  name := some "Alpha"
  symbol := some "ALPHA"
  decimals := some 18
  tokenType := .erc20
  canonicalState := .unknown
  canonicalTicker := none
  projectName := none
  projectSlug := none
  projectVerified := false
  projectVerifiedAt := none
  deployerAddress := none
  primaryPoolAddress := none
  poolAddresses := []
  protocolKey := none
  launchpadKey := none
  quoteAssetAddress := none
  firstSeenBlockNumber := 80
  firstSeenAt := some "2026-07-13T12:00:00.000Z"
  poolCreatedBlockNumber := none
  poolCreatedAt := none
  priceRaw := none
  priceDecimals := none
  priceStatus := .unavailable
  priceObservedAt := none
  liquidityRaw := some 2000000000000
  liquidityDecimals := some 6
  volumeRaw := some volume
  volumeDecimals := some 6
  volumeChangeBps := none
  liquidityChangeBps := none
  holderCount := some 2000
  holderGrowth := none
  holderConcentrationBps := some 2500
  transactionCount := none
  transactionGrowthBps := none
  uniqueTraders := some 500
  watchlistCount := 0
  watchlistGrowth := none
  alertCount := 0
  alertCreationGrowth := none
  launchpadState := .none
  launchpadCurveProgressBps := none
  graduatedAt := none
  migratedAt := none
  riskGrade := .B
  riskCompletenessBps := some 9000
  suspiciousDeployerEvidence := []
  duplicateSymbolAddresses := []
  dataQualityWarnings := []
  lastScannedAt := none
  latestCriticalFindingAt := none
  sourceBlockNumber := 100
  sourceBlockHash := "0x11"
  sourceTimestamp := "2026-07-14T12:00:00.000Z"
  observedAt := "2026-07-14T12:00:00.000Z"
  canonical := true
  recentTrades := trades
  manipulationContext := {
    liquidityRaw := some 2000000000000
    minimumHealthyLiquidityRaw := 100000000000
    tinyTradeThresholdRaw := 1000
    priceImpactBps := some 100
    sybilClusterWallets := []
    launchpad := false }

theorem improves_volume {volume volume' : ℤ} (h : volume ≤ volume') :
    Improves samplePlatform.parse (sampleCandidate volume []) (sampleCandidate volume' []) where
  recentTrades := rfl
  manipulationContext := rfl
  volumeDecimals := rfl
  liquidityDecimals := rfl
  launchpadState := rfl
  volume := rises_some h
  uniqueTraders := .refl _
  transactionGrowth := .refl _
  holderGrowth := .refl _
  liquidity := .refl _
  liquidityGrowth := .refl _
  watchlistGrowth := .refl _
  alertGrowth := .refl _
  curveProgress := .refl _
  riskCompleteness := .refl _
  poolAge := .inl rfl
  tokenAge := .inl rfl
  holderConcentration := .refl _
  duplicateSymbols := le_rfl
  dataWarnings := le_rfl
  deployerEvidence := le_rfl

/-- A token does not lose by a higher volume. -/
theorem trending_lawful_volume :
    (calculateTrendingScore samplePlatform (sampleCandidate 1000000 [])).scoreBps ≤
      (calculateTrendingScore samplePlatform (sampleCandidate 5000000000000 [])).scoreBps :=
  (trending_lawful samplePlatform (sampleCandidate 1000000 [])).2 _ (improves_volume (by decide))

end Discovery

end HoodSentry
