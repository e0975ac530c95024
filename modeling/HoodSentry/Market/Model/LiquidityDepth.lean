import HoodSentry.Common.ConstantProduct
import HoodSentry.Market.Model.Observations
/-!
# Constant-product quotes

`packages/market-engine/src/liquidity-depth.ts`: a quote of a swap against a
constant product, and the conversion of an amount of one quote asset into
another. The operands of the divisions are not negative, so they round down.
-/

namespace HoodSentry

namespace LiquidityDepth

structure ConstantProductQuoteInput where
  amountInRaw : ℤ
  reserveInRaw : ℤ
  reserveOutRaw : ℤ
  feeRaw : ℤ
  feeDenominator : ℤ
deriving DecidableEq

structure ConstantProductQuoteResult where
  amountOutRaw : ℤ
  priceImpactBps : ℤ
deriving DecidableEq

namespace ConstantProductQuoteInput

variable (input : ConstantProductQuoteInput)

def amountInAfterFee : ℤ := input.amountInRaw * (input.feeDenominator - input.feeRaw)

/-- The output before it is checked. -/
def amountOut : ℤ :=
  input.amountInAfterFee * input.reserveOutRaw /
    (input.reserveInRaw * input.feeDenominator + input.amountInAfterFee)

end ConstantProductQuoteInput

def quoteConstantProductSwap (input : ConstantProductQuoteInput) :
    Except String ConstantProductQuoteResult :=
  if input.amountInRaw ≤ 0 ∨ input.reserveInRaw ≤ 0 ∨ input.reserveOutRaw ≤ 0 then
    .error "Constant-product quote amounts and reserves must be positive"
  else if input.feeDenominator ≤ 0 ∨ input.feeRaw < 0 ∨ input.feeDenominator ≤ input.feeRaw then
    .error "Constant-product fee configuration is invalid"
  else if input.amountOut ≤ 0 then .error "Constant-product quote output rounds to zero"
  else
    let executionToSpotBps :=
      input.amountOut * input.reserveInRaw * 10000 / (input.amountInRaw * input.reserveOutRaw)
    .ok
      { amountOutRaw := input.amountOut
        priceImpactBps :=
          if 10000 ≤ executionToSpotBps then 0 else 10000 - executionToSpotBps }

/-! ## Amounts of another quote asset -/

structure QuoteNormalizationRate where
  sourceDecimals : ℕ
  normalizedDecimals : ℕ
  priceRaw : ℤ
  priceDecimals : ℕ
deriving DecidableEq

/-- `pow10`, with the text it throws. -/
def pow10OrThrow (decimals : ℕ) : Except String ℤ :=
  (pow10 decimals).elim (.error "Decimal configuration is outside the supported range") .ok

def validateRate (rate : QuoteNormalizationRate) : Except String Unit := do
  let _ ← pow10OrThrow rate.sourceDecimals
  let _ ← pow10OrThrow rate.normalizedDecimals
  let _ ← pow10OrThrow rate.priceDecimals
  if rate.priceRaw ≤ 0 then .error "Quote normalization price must be positive" else .ok ()

def normalizeQuoteAmount (amountRaw : ℤ) (rate : QuoteNormalizationRate) : Except String ℤ :=
  if amountRaw < 0 then .error "Quote amount must be unsigned"
  else do
    validateRate rate
    .ok (amountRaw * rate.priceRaw * 10 ^ rate.normalizedDecimals /
      (10 ^ rate.sourceDecimals * 10 ^ rate.priceDecimals))

def denormalizeQuoteAmount (normalizedAmountRaw : ℤ) (rate : QuoteNormalizationRate) :
    Except String ℤ :=
  if normalizedAmountRaw < 0 then .error "Normalized quote amount must be unsigned"
  else do
    validateRate rate
    .ok (normalizedAmountRaw * 10 ^ rate.sourceDecimals * 10 ^ rate.priceDecimals /
      (rate.priceRaw * 10 ^ rate.normalizedDecimals))

end LiquidityDepth

end HoodSentry
