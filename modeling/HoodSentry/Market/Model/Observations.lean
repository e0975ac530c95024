import HoodSentry.Model.Schema
/-!
# Price observations

The market engine's evaluation of the evidence for a price: the reasons
against it, its confidence, and whether it is authoritative. Integers of
any size are `ℤ`, and their division truncates. `none` throws.
-/

namespace HoodSentry

inductive AssetClass
  | erc20 | wrappedEth | stablecoin | launchpad | migratedLaunchpad
deriving DecidableEq

structure ConfidenceRules where
  baseConfidenceBps : ℤ
  thinLiquidityPenaltyBps : ℤ
  stalePenaltyBps : ℤ
  disagreementThresholdBps : ℤ
  disagreementPenaltyBps : ℤ
  maximumPriceImpactBps : ℤ
  maximumSingleTransactionVolumeBps : ℤ
  maximumPriceJumpBps : ℤ
  stablecoinDepegThresholdBps : ℤ
  minimumAuthoritativeConfidenceBps : ℤ
deriving DecidableEq

/-- `PriceSourceConfig`, all of it. -/
structure PriceSource where
  sourceKey : SourceKey
  sourceType : PriceSourceType
  assetClass : AssetClass
  chainId : ℕ
  sourceContractAddress : Option Address
  sourceAssetAddress : Address
  quoteAssetAddress : Address
  verificationSourceUrl : String
  verifiedAt : ℕ
  minimumLiquidityRaw : ℤ
  liquidityDecimals : ℕ
  maximumStalenessSeconds : ℕ
  enabled : Bool
  priority : ℕ
  confidenceRules : ConfidenceRules
  route : List PriceRouteStep
  methodologyVersion : String
  oracleHeartbeatSeconds : Option ℕ
  sequencerFeedAddress : Option Address
deriving DecidableEq

structure PriceEvidence where
  priceRaw : Option ℤ
  priceDecimals : ℕ
  sourceBlockNumber : Option ℕ
  sourceBlockHash : Option Hash
  sourceTimestamp : ℕ
  observedAt : ℕ
  liquidityDepthRaw : Option ℤ
  liquidityDepthDecimals : Option ℕ
  priceImpactBps : Option ℤ
  singleTransactionVolumeBps : Option ℤ
  providerName : Option String
  poolAddress : Option Address
  route : List PriceRouteStep
  canonical : Bool
  reasons : List PriceReason
deriving DecidableEq

/-- An observation: its evidence, its source, and what the engine makes of
it. -/
structure PriceObservation where
  evidence : PriceEvidence
  observationKey : SourceKey × ObservationPoint
  chainId : ℕ
  tokenAddress : Address
  quoteAssetAddress : Address
  sourceKey : SourceKey
  sourceType : PriceSourceType
  sourceContractAddress : Option Address
  confidenceBps : ℤ
  stale : Bool
  status : PriceStatus
  authoritative : Bool
  methodologyVersion : String
  /-- The reasons of the evidence and those the engine adds. -/
  reasons : List PriceReason
  roundId : Option ℕ
  answeredInRound : Option ℕ
  oraclePaused : Option Bool
  sequencerUp : Option Bool
  sequencerRecoveredAt : Option ℕ
deriving DecidableEq

/-! ## Arithmetic -/

def pow10 (decimals : ℕ) : Option ℤ := if decimals > 255 then none else some (10 ^ decimals)

def absoluteDifferenceBps (left right : ℤ) : Option ℤ :=
  if left ≤ 0 ∨ right ≤ 0 then none
  else
    let difference := if left ≥ right then left - right else right - left
    let denominator := if left < right then left else right
    some ((difference * 10000).tdiv denominator)

def clampBps (value : ℤ) : ℤ := if value < 0 then 0 else if value > 10000 then 10000 else value

def timestampSeconds (milliseconds : ℕ) : ℤ := (milliseconds / 1000 : ℕ)

/-! ## Pools -/

structure PoolPriceInput where
  tokenAddress : Address
  quoteAssetAddress : Address
  tokenDecimals : ℕ
  quoteDecimals : ℕ
  reserveTokenRaw : ℤ
  reserveQuoteRaw : ℤ
  protocolVerified : Bool
  tokenAddressesVerified : Bool
  poolStateFresh : Bool
  priceImpactBps : Option ℤ
  singleTransactionVolumeBps : Option ℤ
deriving DecidableEq

def poolPriceRaw (input : PoolPriceInput) (outputDecimals : ℕ) : Option ℤ :=
  if input.reserveTokenRaw ≤ 0 ∨ input.reserveQuoteRaw ≤ 0 then none
  else
    (pow10 input.tokenDecimals).bind fun token =>
      (pow10 outputDecimals).bind fun output =>
        (pow10 input.quoteDecimals).map fun quote =>
          (input.reserveQuoteRaw * token * output).tdiv (input.reserveTokenRaw * quote)

/-- The evidence a pool gives; `evidence` is what it is filled in from. -/
def poolEvidence (input : PoolPriceInput) (outputDecimals : ℕ) (evidence : PriceEvidence) :
    PriceEvidence :=
  let price := poolPriceRaw input outputDecimals
  let reasons :=
    (if input.protocolVerified then [] else [.unverifiedProtocol]) ++
    (if input.tokenAddressesVerified then [] else [.poolTokenMismatch]) ++
    (if input.poolStateFresh then [] else [.stalePoolState]) ++
    match price with
    | none => [PriceReason.invalidPoolReserves]
    | some p => if p ≤ 0 then [.zeroPrice] else []
  { evidence with
    priceRaw :=
      if reasons.any fun r =>
        r = .unverifiedProtocol || r = .poolTokenMismatch || r = .invalidPoolReserves then none
      else price
    priceDecimals := outputDecimals
    priceImpactBps := input.priceImpactBps
    singleTransactionVolumeBps := input.singleTransactionVolumeBps
    reasons := reasons }

/-! ## Bonding curves -/

structure BondingCurvePriceInput where
  numeratorRaw : ℤ
  denominatorRaw : ℤ
  priceDecimals : ℕ
  formulaKey : String
  formulaParametersHash : Hash
  contractVerified : Bool
  supplyStateVerified : Bool
  graduated : Bool
  migrated : Bool
deriving DecidableEq

/-- The division throws where the denominator is not positive. -/
def mulDivFloor (left right denominator : ℤ) : Option ℤ :=
  if denominator ≤ 0 then none else some ((left * right).tdiv denominator)

/-- A hash, in lower case. -/
def hashText (hash : Hash) : String :=
  let digits := Nat.toDigits 16 hash.value
  "0x" ++ String.ofList (List.replicate (64 - digits.length) '0' ++ digits)

/-- What is wrong with a curve. -/
def curveReasons (input : BondingCurvePriceInput) : List PriceReason :=
  (if input.contractVerified then [] else [.unverifiedLaunchpad]) ++
  (if input.supplyStateVerified then [] else [.other "UNVERIFIED_SUPPLY_STATE"]) ++
  (if input.migrated then [.curveDisabledAfterMigration]
    else if input.graduated then [.other "GRADUATED_AWAITING_MIGRATION"] else []) ++
  if input.numeratorRaw ≤ 0 ∨ input.denominatorRaw ≤ 0 then [.other "INVALID_CURVE_PRICE"] else []

/-- The reasons for which a curve has no price. -/
def invalidCurveReasons : List PriceReason :=
  [.unverifiedLaunchpad, .other "UNVERIFIED_SUPPLY_STATE", .curveDisabledAfterMigration,
    .other "INVALID_CURVE_PRICE"]

/-- The evidence a bonding curve gives, with its formula among the reasons;
`evidence` is what it is filled in from. -/
def bondingCurveEvidence (input : BondingCurvePriceInput) (evidence : PriceEvidence) :
    Option PriceEvidence :=
  let reasons := curveReasons input
  let filled (priceRaw : Option ℤ) : PriceEvidence :=
    { evidence with
      priceRaw := priceRaw
      priceDecimals := input.priceDecimals
      reasons := reasons ++ [.other ("CURVE_FORMULA:" ++ input.formulaKey),
        .other ("CURVE_PARAMETERS:" ++ hashText input.formulaParametersHash)] }
  if reasons.any (· ∈ invalidCurveReasons) then some (filled none)
  else
    (pow10 input.priceDecimals).bind fun one =>
      (mulDivFloor input.numeratorRaw one input.denominatorRaw).map fun price => filled (some price)

/-! ## Evaluation -/

section Evaluation

variable (config : PriceSource) (evidence : PriceEvidence)

def stale : Bool :=
  timestampSeconds evidence.observedAt - timestampSeconds evidence.sourceTimestamp >
    config.maximumStalenessSeconds

def priceJumpReason (previousPriceRaw : Option ℤ) : List PriceReason :=
  match previousPriceRaw, evidence.priceRaw with
  | some previous, some price =>
    if (absoluteDifferenceBps previous price).any
        (config.confidenceRules.maximumPriceJumpBps < ·) then [.abnormalPriceJump]
    else []
  | _, _ => []

def stablecoinReason : Option (List PriceReason) :=
  match evidence.priceRaw with
  | some price =>
    if config.assetClass ≠ .stablecoin then some []
    else (pow10 evidence.priceDecimals).map fun one =>
      if (absoluteDifferenceBps one price).any
          (config.confidenceRules.stablecoinDepegThresholdBps < ·) then [.stablecoinDepeg]
      else []
  | none => some []

def observationReasons (previousPriceRaw : Option ℤ) (isStale : Bool) : Option (List PriceReason) :=
  (stablecoinReason config evidence).map fun depeg =>
    evidence.reasons ++
    (if config.enabled then [] else [.sourceDisabled]) ++
    (if isStale then [.staleObservation] else []) ++
    (if evidence.liquidityDepthRaw.any (· < config.minimumLiquidityRaw) then [.thinLiquidity]
      else []) ++
    (if evidence.priceImpactBps.any (config.confidenceRules.maximumPriceImpactBps < ·) then
      [.extremePriceImpact] else []) ++
    (if evidence.singleTransactionVolumeBps.any
        (config.confidenceRules.maximumSingleTransactionVolumeBps < ·) then
      [.oneTransactionManipulation] else []) ++
    priceJumpReason config evidence previousPriceRaw ++ depeg

def fatalReasons : List PriceReason :=
  [.unverifiedProtocol, .poolTokenMismatch, .unverifiedLaunchpad, .curveDisabledAfterMigration,
    .negativePrice, .zeroPrice]

def isFatalObservation (reasons : List PriceReason) : Bool :=
  !config.enabled || evidence.priceRaw.isNone || reasons.any (· ∈ fatalReasons)

def observationConfidence (reasons : List PriceReason) (isStale fatal : Bool) : ℤ :=
  if fatal then 0
  else clampBps (config.confidenceRules.baseConfidenceBps -
    (if isStale then config.confidenceRules.stalePenaltyBps else 0) -
    if .thinLiquidity ∈ reasons then config.confidenceRules.thinLiquidityPenaltyBps else 0)

/-- **The observation of a source's evidence.** -/
def evaluateObservation (previousPriceRaw : Option ℤ) : Option PriceObservation :=
  let isStale := stale config evidence
  (observationReasons config evidence previousPriceRaw isStale).map fun reasons =>
    let fatal := isFatalObservation config evidence reasons
    let confidence := observationConfidence config reasons isStale fatal
    let lowConfidence := !reasons.isEmpty ||
      decide (confidence < config.confidenceRules.minimumAuthoritativeConfidenceBps)
    let status := if fatal then PriceStatus.unavailable
      else if lowConfidence then .lowConfidence else .available
    { evidence := evidence
      observationKey := (config.sourceKey,
        evidence.sourceBlockHash.elim (.time evidence.sourceTimestamp) .block)
      chainId := config.chainId
      tokenAddress := config.sourceAssetAddress
      quoteAssetAddress := config.quoteAssetAddress
      sourceKey := config.sourceKey
      sourceType := config.sourceType
      sourceContractAddress := config.sourceContractAddress
      confidenceBps := confidence
      stale := isStale
      status := status
      authoritative := status = .available &&
        decide (config.confidenceRules.minimumAuthoritativeConfidenceBps ≤ confidence)
      methodologyVersion := config.methodologyVersion
      reasons := reasons
      roundId := none
      answeredInRound := none
      oraclePaused := none
      sequencerUp := none
      sequencerRecoveredAt := none }

end Evaluation

end HoodSentry

/-!
## Stored prices

The pricing repository: the price sources and the observations made of
them.
-/

namespace HoodSentry

/-! ## Sources -/

/-- `price_source_configs`. -/
abbrev SourceTable : Type := Table PriceSource.sourceKey

/-- The sources of an asset, in order of priority. -/
def SourceTable.listSourceConfigs (t : SourceTable) (chainId : ℕ) (tokenAddress : Address) :
    List PriceSource :=
  (t.rows.filter fun c => c.chainId = chainId && c.sourceAssetAddress = tokenAddress).insertionSort
    fun left right => left.priority ≤ right.priority

/-! ## Observations -/

/-- `deterministic_price_observations`. -/
abbrev PriceTable : Type := Table PriceObservationRow.observationKey

/-- The row an observation is inserted as. -/
def PriceObservation.row (value : PriceObservation) : PriceObservationRow where
  observationKey := value.observationKey
  chainId := value.chainId
  tokenAddress := value.tokenAddress
  quoteAssetAddress := value.quoteAssetAddress
  sourceKey := value.sourceKey
  sourceType := value.sourceType
  sourceContractAddress := value.sourceContractAddress
  providerName := value.evidence.providerName
  poolAddress := value.evidence.poolAddress
  route := value.evidence.route
  priceRaw := value.evidence.priceRaw
  priceDecimals := value.evidence.priceDecimals
  sourceBlockNumber := value.evidence.sourceBlockNumber
  sourceBlockHash := value.evidence.sourceBlockHash
  sourceTimestamp := value.evidence.sourceTimestamp
  observedAt := value.evidence.observedAt
  liquidityDepthRaw := value.evidence.liquidityDepthRaw
  liquidityDepthDecimals := value.evidence.liquidityDepthDecimals
  priceImpactBps := value.evidence.priceImpactBps
  singleTransactionVolumeBps := value.evidence.singleTransactionVolumeBps
  confidenceBps := value.confidenceBps
  stale := value.stale
  status := value.status
  authoritative := value.authoritative
  reasons := value.reasons
  canonical := value.evidence.canonical
  methodologyVersion := value.methodologyVersion
  roundId := value.roundId
  answeredInRound := value.answeredInRound
  oraclePaused := value.oraclePaused.getD false
  sequencerUp := value.sequencerUp
  sequencerRecoveredAt := value.sequencerRecoveredAt

/-- What a stored row becomes under a second observation of its key: the
columns the conflict clause sets. -/
def PriceObservation.refresh (value : PriceObservation) (old : PriceObservationRow) :
    PriceObservationRow :=
  { old with
    priceRaw := value.evidence.priceRaw
    confidenceBps := value.confidenceBps
    stale := value.stale
    status := value.status
    authoritative := value.authoritative
    reasons := value.reasons
    canonical := value.evidence.canonical
    roundId := value.roundId
    answeredInRound := value.answeredInRound
    oraclePaused := value.oraclePaused.getD false
    sequencerUp := value.sequencerUp
    sequencerRecoveredAt := value.sequencerRecoveredAt }

def PriceTable.saveObservation (t : PriceTable) (value : PriceObservation) : PriceTable :=
  t.upsert value.row value.refresh fun _ => rfl

/-- The price of a pair at the latest block before a block. -/
def PriceTable.priceBefore (t : PriceTable) (chainId : ℕ) (token quote : Address)
    (blockNumber : ℕ) : Option ℤ :=
  let earlier := t.rows.filter fun r =>
    r.chainId = chainId && r.tokenAddress = token && r.quoteAssetAddress = quote && r.canonical &&
      r.sourceBlockNumber.any (· < blockNumber)
  (earlier.insertionSort fun left right =>
    right.sourceBlockNumber.getD 0 ≤ left.sourceBlockNumber.getD 0).head?.bind (·.priceRaw)

/-- The sweep of what was observed before a time. -/
def PriceTable.markStaleSources (t : PriceTable) (observedBefore : ℕ) : PriceTable :=
  t.updateWhere (fun r => r.observedAt ≤ observedBefore && !r.stale)
    (fun r => { r with stale := true, authoritative := false, status := .lowConfidence })
    fun _ => rfl

/-- The latest canonical observation of a pair's oracles. -/
def PriceTable.findLatestOracleStatus (t : PriceTable) (chainId : ℕ) (token quote : Address) :
    Option PriceObservationRow :=
  let oracle := t.rows.filter fun r =>
    r.chainId = chainId && r.tokenAddress = token && r.quoteAssetAddress = quote &&
      r.sourceType = .chainlink && r.canonical
  (oracle.insertionSort fun left right => right.observedAt ≤ left.observedAt).head?

end HoodSentry
