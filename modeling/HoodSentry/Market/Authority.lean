import HoodSentry.Market.Observations
/-!
# What authority says of a price

An authoritative observation passed the checks of its source
(`authoritative_iff_passesChecks`), and those give all that is asked of it
but two things: that the price is positive, which no check compares, and
that the source timestamp lies within the staleness limit, of which the
check compares one side only, in whole seconds. So authority implies
soundness exactly where the inputs have these two of themselves
(`sound_iff`).
-/

namespace HoodSentry

variable (config : PriceSource) (evidence : PriceEvidence) (previous : Option ℤ)

/-- The known measures of the evidence are within the limits of its
source. -/
structure WithinLimits : Prop where
  depth : ∀ v, evidence.liquidityDepthRaw = some v → config.minimumLiquidityRaw ≤ v
  impact : ∀ v, evidence.priceImpactBps = some v → v ≤ config.confidenceRules.maximumPriceImpactBps
  volume : ∀ v, evidence.singleTransactionVolumeBps = some v →
    v ≤ config.confidenceRules.maximumSingleTransactionVolumeBps
  jump : ∀ p price bps, previous = some p → evidence.priceRaw = some price →
    absoluteDifferenceBps p price = some bps → bps ≤ config.confidenceRules.maximumPriceJumpBps
  depeg : config.assetClass = .stablecoin → ∀ one price bps, pow10 evidence.priceDecimals = some one →
    evidence.priceRaw = some price → absoluteDifferenceBps one price = some bps →
    bps ≤ config.confidenceRules.stablecoinDepegThresholdBps

/-- **The checks of the engine**, on its inputs. -/
structure PassesChecks : Prop where
  enabled : config.enabled = true
  priced : evidence.priceRaw.isSome
  evaluated : (stablecoinReason config evidence).isSome
  no_reason : evidence.reasons = []
  fresh : stale config evidence = false
  limits : WithinLimits config evidence previous
  confident : config.confidenceRules.minimumAuthoritativeConfidenceBps ≤
    clampBps config.confidenceRules.baseConfidenceBps

/-- **A timely, positive price**: observed after its source's timestamp,
by at most the staleness limit, to the millisecond. -/
def TimelyPositive : Prop :=
  (∃ price, evidence.priceRaw = some price ∧ 0 < price) ∧
    evidence.sourceTimestamp ≤ evidence.observedAt ∧
    evidence.observedAt ≤ evidence.sourceTimestamp + 1000 * config.maximumStalenessSeconds

/-- **What authority should say** of an observation. -/
def Sound (value : PriceObservation) : Prop :=
  config.enabled = true ∧ TimelyPositive config evidence ∧ WithinLimits config evidence previous ∧
    value.reasons = [] ∧
    config.confidenceRules.minimumAuthoritativeConfidenceBps ≤ value.confidenceBps ∧
    value.confidenceBps ≤ 10000

variable {config evidence previous}

theorem clampBps_le (value : ℤ) : clampBps value ≤ 10000 := by
  unfold clampBps
  split_ifs <;> omega

theorem any_eq_false {o : Option ℤ} {p : ℤ → Bool} :
    o.any p = false ↔ ∀ v, o = some v → p v = false := by
  cases o <;> simp

theorem priceJumpReason_eq_nil_iff :
    priceJumpReason config evidence previous = [] ↔
      ∀ p price bps, previous = some p → evidence.priceRaw = some price →
        absoluteDifferenceBps p price = some bps →
        bps ≤ config.confidenceRules.maximumPriceJumpBps := by
  cases hp : previous with
  | none => simp [priceJumpReason]
  | some p =>
    cases hprice : evidence.priceRaw with
    | none => simp [priceJumpReason, hprice]
    | some price =>
      simp only [priceJumpReason, hprice, ite_eq_right_iff, List.cons_ne_nil, imp_false,
        Bool.not_eq_true, any_eq_false, decide_eq_false_iff_not, not_lt]
      exact ⟨fun h p' price' bps hp' hprice' => by cases hp'; cases hprice'; exact h bps,
        fun h bps => h p price bps rfl rfl⟩

theorem stablecoinReason_eq_nil_iff :
    stablecoinReason config evidence = some [] ↔
      (stablecoinReason config evidence).isSome ∧ (config.assetClass = .stablecoin →
        ∀ one price bps, pow10 evidence.priceDecimals = some one →
          evidence.priceRaw = some price → absoluteDifferenceBps one price = some bps →
          bps ≤ config.confidenceRules.stablecoinDepegThresholdBps) := by
  cases hprice : evidence.priceRaw with
  | none => simp [stablecoinReason, hprice]
  | some price =>
    by_cases hclass : config.assetClass = .stablecoin
    · cases hone : pow10 evidence.priceDecimals with
      | none => simp [stablecoinReason, hprice, hclass, hone]
      | some one =>
        simp only [stablecoinReason, hprice, hclass, hone, ne_eq, not_true_eq_false, if_false,
          Option.map_some, Option.some.injEq, ite_eq_right_iff, List.cons_ne_nil, imp_false,
          Bool.not_eq_true, any_eq_false, decide_eq_false_iff_not, not_lt, Option.isSome_some, true_and,
          forall_const]
        exact ⟨fun h one' price' bps hone' hprice' => by cases hone'; cases hprice'; exact h bps,
          fun h bps => h one price bps rfl rfl⟩
    · simp [stablecoinReason, hprice, hclass]

/-- **No reason is recorded** exactly where the checks find none. -/
theorem observationReasons_eq_nil_iff :
    observationReasons config evidence previous (stale config evidence) = some [] ↔
      config.enabled = true ∧ (stablecoinReason config evidence).isSome ∧ evidence.reasons = [] ∧
        stale config evidence = false ∧ WithinLimits config evidence previous := by
  have hlist : observationReasons config evidence previous (stale config evidence) = some [] ↔
      stablecoinReason config evidence = some [] ∧ evidence.reasons = [] ∧ config.enabled = true ∧
        stale config evidence = false ∧
        (∀ v, evidence.liquidityDepthRaw = some v → config.minimumLiquidityRaw ≤ v) ∧
        (∀ v, evidence.priceImpactBps = some v →
          v ≤ config.confidenceRules.maximumPriceImpactBps) ∧
        (∀ v, evidence.singleTransactionVolumeBps = some v →
          v ≤ config.confidenceRules.maximumSingleTransactionVolumeBps) ∧
        priceJumpReason config evidence previous = [] := by
    rw [observationReasons, Option.map_eq_some_iff]
    simp only [List.append_eq_nil_iff, ite_eq_left_iff, ite_eq_right_iff, imp_false,
      List.cons_ne_nil, Bool.not_eq_true, Bool.not_eq_false, any_eq_false,
      decide_eq_false_iff_not, not_lt]
    constructor
    · rintro ⟨depeg, hdepeg,
        ⟨⟨⟨⟨⟨⟨hevidence, henabled⟩, hstale⟩, hthin⟩, himpact⟩, hvolume⟩, hjump⟩, rfl⟩
      exact ⟨hdepeg, hevidence, henabled, hstale, hthin, himpact, hvolume, hjump⟩
    · rintro ⟨hdepeg, hevidence, henabled, hstale, hthin, himpact, hvolume, hjump⟩
      exact ⟨[], hdepeg,
        ⟨⟨⟨⟨⟨⟨hevidence, henabled⟩, hstale⟩, hthin⟩, himpact⟩, hvolume⟩, hjump⟩, rfl⟩
  rw [hlist, stablecoinReason_eq_nil_iff, priceJumpReason_eq_nil_iff]
  constructor
  · rintro ⟨⟨hsome, hdepeg⟩, hevidence, henabled, hstale, hthin, himpact, hvolume, hjump⟩
    exact ⟨henabled, hsome, hevidence, hstale, hthin, himpact, hvolume, hjump, hdepeg⟩
  · rintro ⟨henabled, hsome, hevidence, hstale, hthin, himpact, hvolume, hjump, hdepeg⟩
    exact ⟨⟨hsome, hdepeg⟩, hevidence, henabled, hstale, hthin, himpact, hvolume, hjump⟩

/-- **An observation is authoritative** exactly where the checks pass; its
confidence is then the base of its source. -/
theorem authoritative_iff_passesChecks {value : PriceObservation}
    (h : evaluateObservation config evidence previous = some value) :
    value.authoritative = true ↔ PassesChecks config evidence previous := by
  have hevaluates := evaluates_of_eq_some h
  obtain ⟨reasons, hreasons, hvalue⟩ := Option.map_eq_some_iff.mp h
  have hconfidence : value.confidenceBps = observationConfidence config reasons
      (stale config evidence) (isFatalObservation config evidence reasons) := by
    rw [← hvalue]
  have hsame : value.reasons = reasons := by
    rw [← hvalue]
  have hbase : stale config evidence = false → observationConfidence config []
      (stale config evidence) false = clampBps config.confidenceRules.baseConfidenceBps := by
    intro hstale
    simp [observationConfidence, hstale]
  have hfatal : isFatalObservation config evidence [] = false ↔
      config.enabled = true ∧ evidence.priceRaw.isSome := by
    simp [isFatalObservation, Option.isSome_iff_ne_none]
  rw [hevaluates.authoritative_iff, hconfidence, hsame]
  constructor
  · rintro ⟨hnotfatal, rfl, hconfident⟩
    rw [hnotfatal] at hconfident
    obtain ⟨-, hpriced⟩ := hfatal.mp hnotfatal
    obtain ⟨henabled, hsome, hevidence, hstale, hlimits⟩ :=
      observationReasons_eq_nil_iff.mp hreasons
    rw [hbase hstale] at hconfident
    exact ⟨henabled, hpriced, hsome, hevidence, hstale, hlimits, hconfident⟩
  · rintro ⟨henabled, hpriced, hsome, hevidence, hstale, hlimits, hconfident⟩
    have hnil := observationReasons_eq_nil_iff.mpr ⟨henabled, hsome, hevidence, hstale, hlimits⟩
    obtain rfl := Option.some.inj (hreasons.symm.trans hnil)
    have hnotfatal := hfatal.mpr ⟨henabled, hpriced⟩
    rw [hnotfatal, hbase hstale]
    exact ⟨rfl, rfl, hconfident⟩

/-- **Authority implies soundness** exactly where evidence that passes the
checks is timely and positive of itself. -/
theorem sound_iff :
    (∀ value, evaluateObservation config evidence previous = some value →
        value.authoritative = true → Sound config evidence previous value) ↔
      (PassesChecks config evidence previous → TimelyPositive config evidence) := by
  constructor
  · intro hall hpasses
    have hnil := observationReasons_eq_nil_iff.mpr
      ⟨hpasses.enabled, hpasses.evaluated, hpasses.no_reason, hpasses.fresh, hpasses.limits⟩
    obtain ⟨value, hvalue⟩ : ∃ value, evaluateObservation config evidence previous = some value := by
      rw [evaluateObservation, hnil]
      exact ⟨_, rfl⟩
    obtain ⟨-, htimely, -⟩ := hall value hvalue ((authoritative_iff_passesChecks hvalue).mpr hpasses)
    exact htimely
  · intro htimely value hvalue hauthoritative
    have hpasses := (authoritative_iff_passesChecks hvalue).mp hauthoritative
    obtain ⟨-, hreasons, hconfident⟩ :=
      (evaluates_of_eq_some hvalue).authoritative_iff.mp hauthoritative
    refine ⟨hpasses.enabled, htimely hpasses, hpasses.limits, hreasons, hconfident, ?_⟩
    obtain ⟨reasons, -, rfl⟩ := Option.map_eq_some_iff.mp hvalue
    dsimp only
    unfold observationConfidence
    split
    · exact Int.zero_le_ofNat 10000
    · exact clampBps_le _

/-! ## A price from the future -/

def PriceSource.sampleOracle : PriceSource where
  sourceKey := .named "oracle"
  sourceType := .chainlink
  assetClass := .erc20
  chainId := MAINNET_CHAIN_ID
  sourceContractAddress := some ⟨31⟩
  sourceAssetAddress := ⟨7⟩
  quoteAssetAddress := USDG
  verificationSourceUrl := "registry"
  verifiedAt := 0
  minimumLiquidityRaw := 0
  liquidityDecimals := 0
  maximumStalenessSeconds := 3600
  enabled := true
  priority := 1
  confidenceRules := ⟨9000, 0, 0, 0, 0, 10000, 10000, 10000, 10000, 5000⟩
  route := []
  methodologyVersion := "1"
  oracleHeartbeatSeconds := none
  sequencerFeedAddress := none

/-- Observed at the tenth second, of a source a day ahead. -/
def PriceEvidence.ahead : PriceEvidence where
  priceRaw := some 100
  priceDecimals := 8
  sourceBlockNumber := none
  sourceBlockHash := none
  sourceTimestamp := 86410000
  observedAt := 10000
  liquidityDepthRaw := none
  liquidityDepthDecimals := none
  priceImpactBps := none
  singleTransactionVolumeBps := none
  providerName := none
  poolAddress := none
  route := []
  canonical := true
  reasons := []

theorem not_sound :
    ¬∀ (config : PriceSource) (evidence : PriceEvidence) (previous : Option ℤ) value,
      evaluateObservation config evidence previous = some value → value.authoritative = true →
        Sound config evidence previous value := by
  intro h
  have hauthoritative : (evaluateObservation .sampleOracle .ahead none).any
      (·.authoritative) = true := by
    decide +kernel
  obtain ⟨value, hvalue, hvalue'⟩ := (Option.any_eq_true _ _).mp hauthoritative
  obtain ⟨-, ⟨-, hbefore, -⟩, -⟩ := h .sampleOracle .ahead none value hvalue hvalue'
  exact absurd hbefore (by decide)

end HoodSentry
