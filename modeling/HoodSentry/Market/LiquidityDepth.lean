import HoodSentry.Market.Model.LiquidityDepth
import HoodSentry.Chain.Model.UniswapV2
import HoodSentry.Common.Rounding
/-!
# The laws of a constant-product quote

A quote that is returned obeys the pool's product: less than the reserve
comes out, the product does not fall, more in gives no less out, and swapping
back gains nothing.
-/

namespace HoodSentry

namespace LiquidityDepth

variable {input input' : ConstantProductQuoteInput} {result result' : ConstantProductQuoteResult}

/-- **What a quote was checked for** before it is returned. -/
structure Quoted (input : ConstantProductQuoteInput) (result : ConstantProductQuoteResult) :
    Prop where
  amountIn_pos : 0 < input.amountInRaw
  reserveIn_pos : 0 < input.reserveInRaw
  reserveOut_pos : 0 < input.reserveOutRaw
  denominator_pos : 0 < input.feeDenominator
  fee_nonneg : 0 ≤ input.feeRaw
  fee_lt : input.feeRaw < input.feeDenominator
  amountOut_pos : 0 < result.amountOutRaw
  amountOut_eq : result.amountOutRaw = input.amountOut
  impact_eq : UniswapV2.calculatePriceImpact input.amountInRaw result.amountOutRaw
    input.reserveInRaw input.reserveOutRaw = .ok result.priceImpactBps

theorem quoted_of_ok (h : quoteConstantProductSwap input = .ok result) : Quoted input result := by
  unfold quoteConstantProductSwap at h
  split_ifs at h with hamounts hfee hzero
  simp only [not_or, not_le, not_lt] at hamounts hfee hzero
  obtain rfl := Except.ok.inj h
  obtain ⟨ha, hx, hy⟩ := hamounts
  obtain ⟨hd, hf, hfd⟩ := hfee
  refine ⟨ha, hx, hy, hd, hf, hfd, hzero, rfl, ?_⟩
  have hpositive : ¬ (input.amountInRaw ≤ 0 ∨ input.amountOut ≤ 0 ∨ input.reserveInRaw ≤ 0 ∨
      input.reserveOutRaw ≤ 0) := by
    omega
  exact if_neg hpositive

theorem ok_of_amountOut_pos (h : Quoted input result) (ha : 0 < input'.amountInRaw)
    (hx : input'.reserveInRaw = input.reserveInRaw)
    (hy : input'.reserveOutRaw = input.reserveOutRaw) (hf : input'.feeRaw = input.feeRaw)
    (hd : input'.feeDenominator = input.feeDenominator) (hout : 0 < input'.amountOut) :
    ∃ result', quoteConstantProductSwap input' = .ok result' := by
  obtain ⟨-, hx', hy', hd', hf', hfd', -, -, -⟩ := h
  unfold quoteConstantProductSwap
  rw [if_neg (by omega), if_neg (by omega), if_neg (by omega)]
  exact ⟨_, rfl⟩

namespace Quoted

/-- The part of the input that counts is positive, and so is what the output
is divided by. -/
theorem count_pos (h : Quoted input result) : 0 < input.feeDenominator - input.feeRaw := by
  have hlt := h.fee_lt
  omega

theorem divisor_pos (h : Quoted input result) : 0 < input.reserveInRaw * input.feeDenominator +
    input.amountInRaw * (input.feeDenominator - input.feeRaw) :=
  add_pos (mul_pos h.reserveIn_pos h.denominator_pos) (mul_pos h.amountIn_pos h.count_pos)

/-- **A quoted output is fair.** -/
theorem fair (h : Quoted input result) : Fair input.reserveInRaw input.reserveOutRaw
    input.amountInRaw (input.feeDenominator - input.feeRaw) input.feeDenominator
      result.amountOutRaw :=
  (fair_iff_le_ediv h.divisor_pos).mpr h.amountOut_eq.le

theorem amountOut_lt (h : Quoted input result) : result.amountOutRaw < input.reserveOutRaw :=
  h.fair.lt_reserve h.reserveIn_pos h.reserveOut_pos h.amountIn_pos h.count_pos h.denominator_pos

theorem count_le (h : Quoted input result) :
    input.feeDenominator - input.feeRaw ≤ input.feeDenominator := by
  have hfee := h.fee_nonneg
  omega

theorem product_le (h : Quoted input result) : input.reserveInRaw * input.reserveOutRaw ≤
    (input.reserveInRaw + input.amountInRaw) * (input.reserveOutRaw - result.amountOutRaw) :=
  h.fair.product_le h.amountOut_lt.le h.amountIn_pos.le h.denominator_pos h.count_le

/-- The price impact is a share in basis points. -/
theorem impact_bounds (h : Quoted input result) :
    0 ≤ result.priceImpactBps ∧ result.priceImpactBps ≤ 10000 := by
  have himpact := h.impact_eq
  unfold UniswapV2.calculatePriceImpact at himpact
  split_ifs at himpact with hnot
  dsimp only at himpact
  have hnonneg : 0 ≤ result.amountOutRaw * input.reserveInRaw * 10000 /
      (input.amountInRaw * input.reserveOutRaw) := by
    refine Int.ediv_nonneg ?_ (mul_pos h.amountIn_pos h.reserveOut_pos).le
    exact mul_nonneg (mul_pos h.amountOut_pos h.reserveIn_pos).le (by omega)
  obtain himpact := Except.ok.inj himpact
  split_ifs at himpact with hspot
  · omega
  · omega

/-- **More in is quoted no less out**, and is quoted. -/
theorem mono (h : Quoted input result) (hx : input'.reserveInRaw = input.reserveInRaw)
    (hy : input'.reserveOutRaw = input.reserveOutRaw) (hf : input'.feeRaw = input.feeRaw)
    (hd : input'.feeDenominator = input.feeDenominator)
    (ha : input.amountInRaw ≤ input'.amountInRaw) :
    ∃ result', quoteConstantProductSwap input' = .ok result' ∧
      result.amountOutRaw ≤ result'.amountOutRaw := by
  have hpos : 0 < input'.amountInRaw := lt_of_lt_of_le h.amountIn_pos ha
  have hfair := h.fair.mono_input h.amountOut_lt.le h.count_pos.le ha
  have hdivisor := add_pos (mul_pos h.reserveIn_pos h.denominator_pos) (mul_pos hpos h.count_pos)
  have hle : result.amountOutRaw ≤ input'.amountOut := by
    unfold ConstantProductQuoteInput.amountOut ConstantProductQuoteInput.amountInAfterFee
    rw [hx, hy, hf, hd]
    exact (fair_iff_le_ediv hdivisor).mp hfair
  obtain ⟨result', hok⟩ :=
    ok_of_amountOut_pos h hpos hx hy hf hd (lt_of_lt_of_le h.amountOut_pos hle)
  exact ⟨result', hok, (quoted_of_ok hok).amountOut_eq ▸ hle⟩

end Quoted

/-- The swap back: the output against the reserves the swap left. -/
def swapBack (input : ConstantProductQuoteInput) (result : ConstantProductQuoteResult) :
    ConstantProductQuoteInput where
  amountInRaw := result.amountOutRaw
  reserveInRaw := input.reserveOutRaw - result.amountOutRaw
  reserveOutRaw := input.reserveInRaw + input.amountInRaw
  feeRaw := input.feeRaw
  feeDenominator := input.feeDenominator

/-- **Swapping back gains nothing.** -/
theorem Quoted.back_le (h : Quoted input result) (hback : Quoted (swapBack input result) result') :
    result'.amountOutRaw ≤ input.amountInRaw :=
  h.fair.back_le hback.fair h.reserveOut_pos h.amountOut_lt.le h.amountOut_pos.le
    hback.amountOut_lt.le h.amountIn_pos.le h.denominator_pos h.count_le

/-- **The laws of a constant-product quote.** -/
theorem quoteConstantProductSwap_laws (h : quoteConstantProductSwap input = .ok result) :
    result.amountOutRaw < input.reserveOutRaw ∧
      input.reserveInRaw * input.reserveOutRaw ≤
        (input.reserveInRaw + input.amountInRaw) * (input.reserveOutRaw - result.amountOutRaw) ∧
      (∀ amountInRaw, input.amountInRaw ≤ amountInRaw →
        ∃ result', quoteConstantProductSwap { input with amountInRaw } = .ok result' ∧
          result.amountOutRaw ≤ result'.amountOutRaw) ∧
      (0 ≤ result.priceImpactBps ∧ result.priceImpactBps ≤ 10000) ∧
      UniswapV2.calculatePriceImpact input.amountInRaw result.amountOutRaw input.reserveInRaw
        input.reserveOutRaw = .ok result.priceImpactBps ∧
      ∀ back, quoteConstantProductSwap (swapBack input result) = .ok back →
        back.amountOutRaw ≤ input.amountInRaw := by
  have hquoted := quoted_of_ok h
  refine ⟨hquoted.amountOut_lt, hquoted.product_le, fun amountInRaw ha => ?_,
    hquoted.impact_bounds, hquoted.impact_eq, fun back hback => ?_⟩
  · exact hquoted.mono rfl rfl rfl rfl ha
  · exact hquoted.back_le (quoted_of_ok hback)

/-- A swap of 1000 against reserves of a million at a fee of 0.3 %. -/
theorem quoteConstantProductSwap_laws_thousand :
    ∃ result, quoteConstantProductSwap ⟨1000, 1000000, 1000000, 3, 1000⟩ = .ok result ∧
      result.amountOutRaw < 1000000 := by
  have hok : quoteConstantProductSwap ⟨1000, 1000000, 1000000, 3, 1000⟩ = .ok ⟨996, 40⟩ := by
    decide
  exact ⟨_, hok, (quoteConstantProductSwap_laws hok).1⟩

/-! ## Amounts of another quote asset -/

section Normalization

variable {rate : QuoteNormalizationRate}

theorem priceRaw_pos (h : validateRate rate = .ok ()) : 0 < rate.priceRaw := by
  by_contra hprice
  unfold validateRate pow10OrThrow at h
  cases hsource : pow10 rate.sourceDecimals <;>
    cases hnormalized : pow10 rate.normalizedDecimals <;>
    cases hdecimals : pow10 rate.priceDecimals <;>
    rw [hsource, hnormalized, hdecimals] at h
  case some.some.some =>
    have hthrows : (if rate.priceRaw ≤ 0 then
        Except.error "Quote normalization price must be positive"
      else .ok () : Except String Unit) = .ok () := h
    rw [if_pos (by omega)] at hthrows
    cases hthrows
  all_goals cases h

theorem normalizeQuoteAmount_eq (h : validateRate rate = .ok ()) {a : ℤ} (ha : 0 ≤ a) :
    normalizeQuoteAmount a rate = .ok (atRate (rate.priceRaw * 10 ^ rate.normalizedDecimals)
      (10 ^ rate.sourceDecimals * 10 ^ rate.priceDecimals) a) := by
  rw [normalizeQuoteAmount, if_neg (by omega), h, atRate, ← mul_assoc]
  rfl

theorem denormalizeQuoteAmount_eq (h : validateRate rate = .ok ()) {a : ℤ} (ha : 0 ≤ a) :
    denormalizeQuoteAmount a rate = .ok (atRate (10 ^ rate.sourceDecimals * 10 ^ rate.priceDecimals)
      (rate.priceRaw * 10 ^ rate.normalizedDecimals) a) := by
  rw [denormalizeQuoteAmount, if_neg (by omega), h, atRate, ← mul_assoc]
  rfl

/-- **Normalizing and denormalizing are a pair of conversions.** -/
theorem exists_conversionPair (h : validateRate rate = .ok ()) :
    ∃ normalize denormalize : ℤ → ℤ, ConversionPair normalize denormalize ∧
      ∀ a, 0 ≤ a → normalizeQuoteAmount a rate = .ok (normalize a) ∧
        denormalizeQuoteAmount a rate = .ok (denormalize a) := by
  have hnumerator : 0 < rate.priceRaw * 10 ^ rate.normalizedDecimals :=
    mul_pos (priceRaw_pos h) (by positivity)
  have hdenominator : (0 : ℤ) < 10 ^ rate.sourceDecimals * 10 ^ rate.priceDecimals := by
    positivity
  exact ⟨_, _, conversionPair_atRate hnumerator hdenominator,
    fun a ha => ⟨normalizeQuoteAmount_eq h ha, denormalizeQuoteAmount_eq h ha⟩⟩

/-- Amounts of six decimals at a price of 1.5, in amounts of eighteen. -/
theorem exists_conversionPair_stablecoin :
    ∃ normalize denormalize : ℤ → ℤ, ConversionPair normalize denormalize ∧
      ∀ a, 0 ≤ a → normalizeQuoteAmount a ⟨6, 18, 150, 2⟩ = .ok (normalize a) ∧
        denormalizeQuoteAmount a ⟨6, 18, 150, 2⟩ = .ok (denormalize a) :=
  exists_conversionPair (by rfl)

end Normalization

end LiquidityDepth

end HoodSentry
