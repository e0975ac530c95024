import HoodSentry.Market.Model.Observations
/-!
# What an observation says

An observation keeps its evidence and its source. It is authoritative
exactly when nothing speaks against it: every check of the source's rules
passed, and the base confidence is enough.
-/

namespace HoodSentry

variable {config : PriceSource} {evidence : PriceEvidence} {previous : Option ℤ}
variable {value : PriceObservation}

/-- **An evaluated observation**, field by field. -/
structure Evaluates (config : PriceSource) (evidence : PriceEvidence) (previous : Option ℤ)
    (value : PriceObservation) : Prop where
  evidence_eq : value.evidence = evidence
  observationKey_eq : value.observationKey =
    (config.sourceKey, evidence.sourceBlockHash.elim (.time evidence.sourceTimestamp) .block)
  chainId_eq : value.chainId = config.chainId
  tokenAddress_eq : value.tokenAddress = config.sourceAssetAddress
  quoteAssetAddress_eq : value.quoteAssetAddress = config.quoteAssetAddress
  sourceType_eq : value.sourceType = config.sourceType
  reasons_eq : observationReasons config evidence previous (stale config evidence) =
    some value.reasons
  authoritative_iff : value.authoritative = true ↔
    isFatalObservation config evidence value.reasons = false ∧ value.reasons = [] ∧
      config.confidenceRules.minimumAuthoritativeConfidenceBps ≤ value.confidenceBps

theorem evaluates_of_eq_some (h : evaluateObservation config evidence previous = some value) :
    Evaluates config evidence previous value := by
  obtain ⟨reasons, hreasons, rfl⟩ := Option.map_eq_some_iff.mp h
  refine ⟨rfl, rfl, rfl, rfl, rfl, rfl, hreasons, ?_⟩
  dsimp only
  rw [Bool.and_eq_true, decide_eq_true_iff, decide_eq_true_iff]
  cases hfatal : isFatalObservation config evidence reasons with
  | true => simp
  | false =>
    cases reasons with
    | cons r rs => simp
    | nil => simp

/-- **An authoritative observation passed every check of its source**, as
far as the evidence has what the check reads. -/
theorem checks_of_authoritative (h : Evaluates config evidence previous value)
    (hauth : value.authoritative = true) :
    config.enabled = true ∧ evidence.priceRaw.isSome ∧ evidence.reasons = [] ∧
    stale config evidence = false ∧
    (∀ v, evidence.liquidityDepthRaw = some v → config.minimumLiquidityRaw ≤ v) ∧
    (∀ v, evidence.priceImpactBps = some v → v ≤ config.confidenceRules.maximumPriceImpactBps) ∧
    (∀ v, evidence.singleTransactionVolumeBps = some v →
      v ≤ config.confidenceRules.maximumSingleTransactionVolumeBps) := by
  obtain ⟨hfatal, hnil, -⟩ := h.authoritative_iff.mp hauth
  have hreasons := h.reasons_eq
  obtain ⟨depeg, -, hlist⟩ := Option.map_eq_some_iff.mp hreasons
  rw [hnil] at hlist
  simp only [List.append_eq_nil_iff, ite_eq_left_iff, ite_eq_right_iff, imp_false, List.cons_ne_nil,
    Bool.not_eq_true, Bool.not_eq_false] at hlist
  obtain ⟨⟨⟨⟨⟨⟨⟨hevidence, henabled⟩, hstale⟩, hthin⟩, himpact⟩, hvolume⟩, -⟩, -⟩ := hlist
  have hprice : evidence.priceRaw.isSome := by
    simp only [isFatalObservation, Bool.or_eq_false_iff] at hfatal
    simpa using hfatal.1.2
  refine ⟨henabled, hprice, hevidence, hstale, fun v hv => ?_, fun v hv => ?_, fun v hv => ?_⟩
  · rw [hv] at hthin
    simpa using hthin
  · rw [hv] at himpact
    simpa using himpact
  · rw [hv] at hvolume
    simpa using hvolume

/-- Only a price in unsupported decimals makes the engine throw. -/
theorem evaluateObservation_isSome
    (h : evidence.priceRaw.isSome → (pow10 evidence.priceDecimals).isSome) :
    (evaluateObservation config evidence previous).isSome := by
  rw [evaluateObservation, Option.isSome_map, observationReasons, Option.isSome_map,
    stablecoinReason]
  cases hprice : evidence.priceRaw with
  | none => rfl
  | some price =>
    dsimp only
    split
    · rfl
    · rw [Option.isSome_map]
      exact h (by rw [hprice]; rfl)

section Pools

variable {input : PoolPriceInput} {outputDecimals : ℕ}

/-- A pool's price is in supported decimals. -/
theorem isSome_pow10_of_poolPriceRaw (h : (poolPriceRaw input outputDecimals).isSome) :
    (pow10 outputDecimals).isSome := by
  unfold poolPriceRaw at h
  split at h
  · exact absurd h (by simp)
  · cases houtput : pow10 outputDecimals with
    | some _ => rfl
    | none => simp [houtput] at h

/-- A pool's evidence has the pool's price or none. -/
theorem poolPriceRaw_of_poolEvidence {price : ℤ}
    (h : (poolEvidence input outputDecimals evidence).priceRaw = some price) :
    poolPriceRaw input outputDecimals = some price :=
  (Option.ite_none_left_eq_some.mp h).2

/-- Evidence of a pool is always evaluated. -/
theorem evaluateObservation_poolEvidence_isSome :
    (evaluateObservation config (poolEvidence input outputDecimals evidence) previous).isSome := by
  refine evaluateObservation_isSome fun hprice => ?_
  obtain ⟨price, hprice⟩ := Option.isSome_iff_exists.mp hprice
  have hpool : (poolPriceRaw input outputDecimals).isSome := by
    rw [poolPriceRaw_of_poolEvidence hprice]
    rfl
  exact isSome_pow10_of_poolPriceRaw hpool

end Pools

end HoodSentry
