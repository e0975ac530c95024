import HoodSentry.Market.Authority
/-!
# Prices of bonding curves

The evidence of a curve names its formula and its parameters among the
reasons, and the engine takes every reason for a defect. So no observation of
a curve is available, however sound the curve is
(`not_available_of_liveCurve`).
-/

namespace HoodSentry

/-- **A live curve with nothing against it**: its state is verified, it has a
positive price, and the evidence passes the checks of its source. -/
structure LiveCurve (config : PriceSource) (curve : BondingCurvePriceInput)
    (evidence : PriceEvidence) (previous : Option ℤ) : Prop where
  contractVerified : curve.contractVerified = true
  supplyStateVerified : curve.supplyStateVerified = true
  graduated : curve.graduated = false
  migrated : curve.migrated = false
  numerator : 0 < curve.numeratorRaw
  denominator : 0 < curve.denominatorRaw
  decimals : curve.priceDecimals ≤ 255
  price : curve.denominatorRaw ≤ curve.numeratorRaw * 10 ^ curve.priceDecimals
  enabled : config.enabled = true
  fresh : stale config evidence = false
  limits : ∀ observed, bondingCurveEvidence curve evidence = some observed →
    WithinLimits config observed previous
  confident : config.confidenceRules.minimumAuthoritativeConfidenceBps ≤
    config.confidenceRules.baseConfidenceBps

variable {config : PriceSource} {curve : BondingCurvePriceInput} {evidence observed : PriceEvidence}
variable {previous : Option ℤ} {value : PriceObservation}

/-- Whatever the curve, its evidence has a reason. -/
theorem reasons_ne_nil_of_bondingCurveEvidence
    (h : bondingCurveEvidence curve evidence = some observed) : observed.reasons ≠ [] := by
  unfold bondingCurveEvidence at h
  dsimp only at h
  split at h
  · cases Option.some.inj h
    exact List.append_ne_nil_of_right_ne_nil _ (List.cons_ne_nil _ _)
  · obtain ⟨one, -, h⟩ := Option.bind_eq_some_iff.mp h
    obtain ⟨price, -, rfl⟩ := Option.map_eq_some_iff.mp h
    exact List.append_ne_nil_of_right_ne_nil _ (List.cons_ne_nil _ _)

/-- An available observation has no reason. -/
theorem reasons_eq_nil_of_available (h : evaluateObservation config evidence previous = some value)
    (havailable : value.status = .available) : value.reasons = [] := by
  obtain ⟨reasons, -, rfl⟩ := Option.map_eq_some_iff.mp h
  dsimp only at havailable ⊢
  split at havailable
  · cases havailable
  · split at havailable
    · cases havailable
    · rename_i hlow
      rw [Bool.or_eq_true, not_or, Bool.not_eq_true, Bool.not_eq_false'] at hlow
      exact List.isEmpty_iff.mp hlow.1

/-- **Evidence with a reason** is never available. -/
theorem not_available_of_reasons (h : evaluateObservation config evidence previous = some value)
    (hreasons : evidence.reasons ≠ []) :
    value.status ≠ .available ∧ value.authoritative = false := by
  have hevaluates := evaluates_of_eq_some h
  have hsome : value.reasons ≠ [] := by
    obtain ⟨depeg, -, hlist⟩ := Option.map_eq_some_iff.mp hevaluates.reasons_eq
    rw [← hlist]
    simp [hreasons]
  refine ⟨fun havailable => hsome (reasons_eq_nil_of_available h havailable), ?_⟩
  rw [← Bool.not_eq_true, hevaluates.authoritative_iff]
  exact fun hauthoritative => hsome hauthoritative.2.1

/-- The evidence of a live curve has its price. -/
theorem exists_bondingCurveEvidence (h : LiveCurve config curve evidence previous) :
    ∃ observed price, bondingCurveEvidence curve evidence = some observed ∧
      observed.priceRaw = some price ∧ 0 < price ∧
        observed.priceDecimals = curve.priceDecimals := by
  have hreasons : curveReasons curve = [] := by
    have hnumerator := h.numerator
    have hdenominator := h.denominator
    have hvalid : ¬(curve.numeratorRaw ≤ 0 ∨ curve.denominatorRaw ≤ 0) := by omega
    simp [curveReasons, h.contractVerified, h.supplyStateVerified, h.graduated, h.migrated, hvalid]
  have hpow : pow10 curve.priceDecimals = some (10 ^ curve.priceDecimals) :=
    if_neg (Nat.not_lt.mpr h.decimals)
  have hdiv : mulDivFloor curve.numeratorRaw (10 ^ curve.priceDecimals) curve.denominatorRaw =
      some ((curve.numeratorRaw * 10 ^ curve.priceDecimals).tdiv curve.denominatorRaw) :=
    if_neg (not_le.mpr h.denominator)
  have hpositive : 0 < (curve.numeratorRaw * 10 ^ curve.priceDecimals).tdiv curve.denominatorRaw := by
    rw [Int.tdiv_eq_ediv_of_nonneg (mul_nonneg h.numerator.le (by positivity))]
    have hone : 1 ≤ curve.numeratorRaw * 10 ^ curve.priceDecimals / curve.denominatorRaw := by
      rw [Int.le_ediv_iff_mul_le h.denominator, one_mul]
      exact h.price
    omega
  simp only [bondingCurveEvidence, hreasons, hpow, List.any_nil, Bool.false_eq_true, if_false,
    Option.bind_some, hdiv, Option.map_some]
  exact ⟨_, _, rfl, rfl, hpositive, rfl⟩

/-- **A live curve is not available.** It is observed, and the observation is
neither available nor authoritative. -/
theorem not_available_of_liveCurve (h : LiveCurve config curve evidence previous) :
    ∃ observed value, bondingCurveEvidence curve evidence = some observed ∧
      evaluateObservation config observed previous = some value ∧
        value.status ≠ .available ∧ value.authoritative = false := by
  obtain ⟨observed, price, hobserved, hprice, -, hdecimals⟩ := exists_bondingCurveEvidence h
  have hpow : (pow10 observed.priceDecimals).isSome := by
    rw [hdecimals, pow10, if_neg (Nat.not_lt.mpr h.decimals)]
    rfl
  obtain ⟨value, hvalue⟩ := Option.isSome_iff_exists.mp
    (@evaluateObservation_isSome config observed previous fun _ => hpow)
  exact ⟨observed, value, hobserved, hvalue,
    not_available_of_reasons hvalue (reasons_ne_nil_of_bondingCurveEvidence hobserved)⟩

/-! ## A linear curve -/

def BondingCurvePriceInput.linear : BondingCurvePriceInput :=
  ⟨3, 2, 6, "fixture-linear-v1", ⟨17⟩, true, true, false, false⟩

/-- Observed a second after its source. -/
def PriceEvidence.fresh : PriceEvidence := { PriceEvidence.ahead with sourceTimestamp := 9000 }

theorem liveCurve_linear : LiveCurve .sampleOracle .linear .fresh none where
  contractVerified := rfl
  supplyStateVerified := rfl
  graduated := rfl
  migrated := rfl
  numerator := by decide
  denominator := by decide
  decimals := by decide
  price := by decide
  enabled := rfl
  fresh := by decide
  limits := by
    intro observed h
    have hlinear : (bondingCurveEvidence .linear .fresh).all (fun observed =>
        observed.liquidityDepthRaw.isNone && observed.priceImpactBps.isNone &&
          observed.singleTransactionVolumeBps.isNone) = true := by
      decide +kernel
    rw [h, Option.all_some, Bool.and_eq_true, Bool.and_eq_true, Option.isNone_iff_eq_none,
      Option.isNone_iff_eq_none, Option.isNone_iff_eq_none] at hlinear
    obtain ⟨⟨hdepth, himpact⟩, hvolume⟩ := hlinear
    constructor
    · simp [hdepth]
    · simp [himpact]
    · simp [hvolume]
    · simp
    · exact fun hstable => absurd hstable (by decide)
  confident := by decide

/-- Here the price is 1.5, and nothing speaks against it. -/
theorem not_available_linear :
    ∃ observed value, bondingCurveEvidence .linear .fresh = some observed ∧
      evaluateObservation .sampleOracle observed none = some value ∧
        value.status ≠ .available ∧ value.authoritative = false :=
  not_available_of_liveCurve liveCurve_linear

theorem not_authoritative_linear :
    ¬∀ (config : PriceSource) (curve : BondingCurvePriceInput) (evidence : PriceEvidence)
      (previous : Option ℤ), LiveCurve config curve evidence previous →
        ∃ observed value, bondingCurveEvidence curve evidence = some observed ∧
          evaluateObservation config observed previous = some value ∧
            value.status = .available ∧ value.authoritative = true := by
  intro h
  obtain ⟨observed, value, hobserved, hvalue, -, hauthoritative⟩ :=
    h .sampleOracle .linear .fresh none liveCurve_linear
  have hnone : ((bondingCurveEvidence .linear .fresh).bind fun observed =>
      evaluateObservation .sampleOracle observed none).all (!·.authoritative) = true := by
    decide +kernel
  rw [hobserved, Option.bind_some, hvalue, Option.all_some, hauthoritative] at hnone
  cases hnone

end HoodSentry
