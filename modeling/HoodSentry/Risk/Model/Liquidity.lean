import HoodSentry.Model.Chain
/-!
# Liquidity analysis

`packages/risk-engine/src/liquidity-risk.ts`: what is known of the liquidity of
a token, the checks the analysis begins with, and what it makes of it. A check
that fails throws its text.
-/

namespace HoodSentry

/-! ## What is analysed -/

structure LiquidityProvider where
  address : Address
  liquidityRaw : ℤ
deriving DecidableEq

structure RemovalEvent where
  amountRaw : ℕ
  blockNumber : ℕ
  blockHash : Hash
  transactionHash : Hash
  logIndex : ℕ
deriving DecidableEq

inductive LiquidityOwnershipKind
  | locked
  | burned
  | creator
  | unknown
deriving DecidableEq

structure LiquidityOwnership where
  kind : LiquidityOwnershipKind
  owner : Option Address
  verified : Bool
deriving DecidableEq

structure StandardTradeImpact where
  amountQuoteRaw : ℤ
  amountPoolQuoteRaw : ℤ
  expectedTokenOutRaw : ℤ
  priceImpactBps : ℤ
  poolAddress : Address
deriving DecidableEq

inductive NormalizationKind
  | identity
  | priceObservation
deriving DecidableEq

/-- The rate a pool's quote amounts are converted at; what is optional says
where an observed price comes from. -/
structure QuoteNormalization where
  kind : NormalizationKind
  quoteDecimals : ℕ
  normalizationQuoteAsset : Address
  normalizationQuoteDecimals : ℕ
  priceRaw : ℤ
  priceDecimals : ℕ
  observationKey : Option String
  sourceKey : Option String
  sourceBlock : Option ℕ
  sourceBlockHash : Option Hash
  sourceTimestamp : Option ℕ
  observedAt : Option ℕ
  maximumStalenessSeconds : Option ℕ
  verificationSourceUrl : Option String
  verifiedAt : Option ℕ
deriving DecidableEq

structure LiquidityPoolEvidence where
  poolAddress : Address
  protocolKey : String
  protocolVersion : String
  poolType : String
  quoteAsset : Address
  poolAgeBlocks : ℤ
  tokenLiquidityRaw : ℤ
  quoteLiquidityRaw : ℤ
  currentLiquidityRaw : ℤ
  burnedLiquidityRaw : ℤ
  burnedProviders : List LiquidityProvider
  providers : List LiquidityProvider
  ownership : LiquidityOwnership
  removalsRaw : ℤ
  additionsRaw : ℤ
  removalEvents : List RemovalEvent
  normalizedQuoteLiquidityRaw : ℤ
  normalization : QuoteNormalization
  standardTradeImpacts : List StandardTradeImpact
deriving DecidableEq

structure LiquidityRiskInput where
  chainId : ℕ
  poolAddress : Address
  protocolKey : String
  poolType : String
  quoteAsset : Address
  verifiedProtocol : Bool
  sourceBlock : ℕ
  sourceBlockHash : Hash
  poolAgeBlocks : ℤ
  tokenLiquidityRaw : ℤ
  quoteLiquidityRaw : ℤ
  currentLiquidityRaw : ℤ
  burnedLiquidityRaw : ℤ
  burnedProviders : List LiquidityProvider
  feeTier : Option ℕ
  priceImpactBps : Option ℤ
  providers : List LiquidityProvider
  ownership : LiquidityOwnership
  removalsRaw : ℤ
  additionsRaw : ℤ
  removalEvents : List RemovalEvent
  normalizationQuoteAsset : Option Address
  normalizationQuoteDecimals : Option ℕ
  normalizedQuoteLiquidityRaw : Option ℤ
  standardTradeSizeQuoteRaw : Option ℤ
  standardTradeImpacts : Option (List StandardTradeImpact)
  poolCount : Option ℕ
  poolConcentrationBps : Option ℤ
  pools : Option (List LiquidityPoolEvidence)
  creatorAddress : Option Address
  migrationDestination : Option Address
  expectedMigrationDestination : Option Address
deriving DecidableEq

/-! ## The checks -/

/-- `require` throws the text unless the condition holds. -/
def require (condition : Prop) [Decidable condition] (text : String) : Except String Unit :=
  if condition then .ok () else .error text

def totalLiquidity (holders : List LiquidityProvider) : ℤ := (holders.map (·.liquidityRaw)).sum

def validateOwnershipTotals (input : LiquidityRiskInput) : Except String Unit := do
  require (0 ≤ input.currentLiquidityRaw ∧ 0 ≤ input.burnedLiquidityRaw)
    "Liquidity totals must be unsigned"
  require (totalLiquidity input.burnedProviders = input.burnedLiquidityRaw)
    "Burned LP evidence does not match the burned total"
  require (∀ provider ∈ input.providers, 0 < provider.liquidityRaw)
    "Liquidity providers must hold a positive balance"
  require (totalLiquidity input.providers + input.burnedLiquidityRaw ≤ input.currentLiquidityRaw)
    "LP ownership exceeds total supply"

def isBasisPoints (value : ℤ) : Prop := 0 ≤ value ∧ value ≤ 10000

instance : DecidablePred isBasisPoints := fun value =>
  inferInstanceAs (Decidable (0 ≤ value ∧ value ≤ 10000))

def validateAggregateBounds (input : LiquidityRiskInput) : Except String Unit := do
  require (∀ impact ∈ input.priceImpactBps, isBasisPoints impact)
    "Price impact must use basis points"
  require (∀ count ∈ input.poolCount, 0 < count) "Pool count must be a positive integer"
  require (∀ concentration ∈ input.poolConcentrationBps, isBasisPoints concentration)
    "Pool concentration must use basis points"

namespace QuoteNormalization

def isValid (normalization : QuoteNormalization) : Prop :=
  normalization.quoteDecimals ≤ 255 ∧ normalization.normalizationQuoteDecimals ≤ 255 ∧
    normalization.priceDecimals ≤ 255 ∧ 0 < normalization.priceRaw

/-- An observed price says where it comes from. -/
def hasProvenance (normalization : QuoteNormalization) : Prop :=
  normalization.observationKey.isSome = true ∧ normalization.sourceKey.isSome = true ∧
    normalization.sourceBlock.isSome = true ∧ normalization.sourceBlockHash.isSome = true ∧
    normalization.sourceTimestamp.isSome = true ∧ normalization.observedAt.isSome = true ∧
    normalization.maximumStalenessSeconds.isSome = true ∧
    normalization.verificationSourceUrl.isSome = true ∧ normalization.verifiedAt.isSome = true

instance : DecidablePred isValid := fun normalization =>
  inferInstanceAs (Decidable (normalization.quoteDecimals ≤ 255 ∧
    normalization.normalizationQuoteDecimals ≤ 255 ∧ normalization.priceDecimals ≤ 255 ∧
    0 < normalization.priceRaw))

instance : DecidablePred hasProvenance := fun normalization =>
  inferInstanceAs (Decidable (normalization.observationKey.isSome = true ∧
    normalization.sourceKey.isSome = true ∧ normalization.sourceBlock.isSome = true ∧
    normalization.sourceBlockHash.isSome = true ∧
    normalization.sourceTimestamp.isSome = true ∧ normalization.observedAt.isSome = true ∧
    normalization.maximumStalenessSeconds.isSome = true ∧
    normalization.verificationSourceUrl.isSome = true ∧ normalization.verifiedAt.isSome = true))

end QuoteNormalization

def validateSinglePoolEvidence (pool : LiquidityPoolEvidence) : Except String Unit := do
  require (0 ≤ pool.currentLiquidityRaw ∧ 0 ≤ pool.burnedLiquidityRaw)
    "Pool LP totals must be unsigned"
  require (totalLiquidity pool.burnedProviders = pool.burnedLiquidityRaw)
    "Pool burned LP evidence does not match its total"
  require (∀ provider ∈ pool.providers, 0 < provider.liquidityRaw)
    "Pool liquidity providers must hold a positive balance"
  require (totalLiquidity pool.providers + pool.burnedLiquidityRaw ≤ pool.currentLiquidityRaw)
    "Pool LP ownership exceeds total supply"
  require pool.normalization.isValid "Pool quote normalization is invalid"
  require (pool.normalization.kind = .priceObservation → pool.normalization.hasProvenance)
    "Pool quote observation provenance is incomplete"

def normalizedTotal (pools : List LiquidityPoolEvidence) : ℤ :=
  (pools.map (·.normalizedQuoteLiquidityRaw)).sum

def validatePoolEvidence (input : LiquidityRiskInput) : Except String Unit :=
  match input.pools with
  | none => .ok ()
  | some pools => do
    require (pools ≠ []) "Pool evidence must not be empty"
    require (pools.map (·.poolAddress)).Nodup "Pool evidence contains duplicates"
    require (∀ count ∈ input.poolCount, count = pools.length)
      "Pool evidence does not match the pool count"
    require (∀ pool ∈ pools, 0 ≤ pool.normalizedQuoteLiquidityRaw)
      "Normalized pool liquidity must be unsigned"
    pools.forM validateSinglePoolEvidence
    require (∀ total ∈ input.normalizedQuoteLiquidityRaw, normalizedTotal pools = total)
      "Normalized pool liquidity does not match the aggregate"

def invalidTradeImpact (impact : StandardTradeImpact) : Prop :=
  impact.amountQuoteRaw ≤ 0 ∨ impact.amountPoolQuoteRaw ≤ 0 ∨ impact.expectedTokenOutRaw ≤ 0 ∨
    impact.priceImpactBps < 0 ∨ impact.priceImpactBps > 10000

instance : DecidablePred invalidTradeImpact := fun impact =>
  inferInstanceAs (Decidable (impact.amountQuoteRaw ≤ 0 ∨ impact.amountPoolQuoteRaw ≤ 0 ∨
    impact.expectedTokenOutRaw ≤ 0 ∨ impact.priceImpactBps < 0 ∨ impact.priceImpactBps > 10000))

def validateTradeImpacts (input : LiquidityRiskInput) : Except String Unit :=
  let impacts := input.standardTradeImpacts.getD [] ++
    (input.pools.getD []).flatMap (·.standardTradeImpacts)
  require (∀ impact ∈ impacts, ¬invalidTradeImpact impact)
    "Standard trade impact evidence is invalid"

def validateLiquidityInput (input : LiquidityRiskInput) : Except String Unit := do
  validateOwnershipTotals input
  validateAggregateBounds input
  validatePoolEvidence input
  validateTradeImpacts input

/-! ## What is found -/

/-- `values.push(text)` where the condition holds. -/
def pushed (condition : Prop) [Decidable condition] (text : String) : List String :=
  if condition then [text] else []

def LiquidityOwnership.unproven (ownership : LiquidityOwnership) : Prop :=
  ownership.verified = false ∨ ownership.kind = .unknown

instance : DecidablePred LiquidityOwnership.unproven := fun ownership =>
  inferInstanceAs (Decidable (ownership.verified = false ∨ ownership.kind = .unknown))

def liquidityWarnings (input : LiquidityRiskInput) : List String :=
  pushed (input.verifiedProtocol = false) "Protocol is not verified" ++
    pushed input.ownership.unproven "LP ownership and lock conditions are not verified" ++
    pushed (input.priceImpactBps = none) "Standard-size price impact is unavailable" ++
    pushed (∃ impact ∈ input.priceImpactBps, impact ≥ 1000) "Standard-size price impact is high"

def liquidityFindings (input : LiquidityRiskInput) : List String :=
  pushed (input.verifiedProtocol = false) "UNKNOWN_PROTOCOL" ++
    pushed input.ownership.unproven "LIQUIDITY_NOT_VERIFIABLY_LOCKED" ++
    pushed (input.ownership.kind = .creator) "REMOVABLE_CREATOR_LIQUIDITY" ++
    pushed (input.removalsRaw > input.currentLiquidityRaw.tdiv 2 ∨
        ∃ pool ∈ input.pools.getD [], pool.removalsRaw > pool.currentLiquidityRaw.tdiv 2)
      "ABRUPT_LIQUIDITY_REMOVAL" ++
    pushed (input.providers.length = 1) "SINGLE_POOL_DEPENDENCY" ++
    pushed (input.expectedMigrationDestination ≠ none ∧
        input.migrationDestination ≠ input.expectedMigrationDestination)
      "UNEXPECTED_MIGRATION_VENUE" ++
    pushed (input.priceImpactBps = none) "STANDARD_TRADE_PRICE_IMPACT_UNAVAILABLE" ++
    pushed (∃ impact ∈ input.priceImpactBps, impact ≥ 1000) "HIGH_STANDARD_TRADE_PRICE_IMPACT" ++
    pushed (input.poolCount = some 1) "SINGLE_MARKET_POOL" ++
    pushed ((∃ count ∈ input.poolCount, count > 1) ∧
        ∃ concentration ∈ input.poolConcentrationBps, concentration ≥ 9000)
      "POOL_LIQUIDITY_CONCENTRATION"

inductive LiquidityStatus
  | verified
  | warning
  | unknown
deriving DecidableEq

/-- What the analysis adds to its input. -/
structure LiquidityRiskResult where
  input : LiquidityRiskInput
  providerConcentrationBps : ℤ
  poolCount : ℕ
  poolConcentrationBps : Option ℤ
  status : LiquidityStatus
  warnings : List String
  findings : List String
deriving DecidableEq

def analyzeLiquidityRisk (input : LiquidityRiskInput) : Except String LiquidityRiskResult := do
  validateLiquidityInput input
  let top := (input.providers.map (·.liquidityRaw)).foldl max 0
  let detectedFindings := liquidityFindings input
  .ok {
    input := input
    providerConcentrationBps :=
      if input.currentLiquidityRaw = 0 then 0 else (top * 10000).tdiv input.currentLiquidityRaw
    poolCount := input.poolCount.getD ((input.pools.map List.length).getD 0)
    poolConcentrationBps := input.poolConcentrationBps
    status :=
      if input.verifiedProtocol = false ∨ input.ownership.verified = false ∨
          input.priceImpactBps = none then .unknown
      else if detectedFindings.length > 0 then .warning
      else .verified
    warnings := liquidityWarnings input
    findings := detectedFindings }

end HoodSentry
