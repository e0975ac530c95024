import HoodSentry.Worker.Model.LiquidityContext
import HoodSentry.Market.Model.LiquidityDepth
import HoodSentry.Market.Model.PoolRepository
import HoodSentry.Chain.Model.UniswapV2
import HoodSentry.Risk.Model.Types
/-!
# The liquidity of several pools

`DrizzleLiquidityContextSource` of `apps/worker/src/jobs/liquidity-context.ts`.
Each pool is read at one block, and what is read of it is a `PoolReads`. The
quote assets of the pools are converted into one; a position in a pool counts
for its part of the converted depth, rounded down, and the positions of an
address in several pools are added up. A thrown error is its text.
-/

namespace HoodSentry

open LiquidityDepth

/-! ## What is read and loaded -/

structure NormalizationAsset where
  address : Address
  decimals : ℕ
deriving DecidableEq

/-- A stored price of the quote asset. A route that does not parse is `none`;
of one that does its pools are kept. -/
structure NormalizationRow where
  observationKey : String
  sourceKey : String
  priceRaw : Option ℤ
  priceDecimals : ℕ
  sourceBlock : Option ℕ
  sourceBlockHash : Option Hash
  sourceTimestamp : ℕ
  observedAt : ℕ
  poolAddress : Option Address
  route : Option (List Address)
  maximumStalenessSeconds : ℕ
  verificationSourceUrl : String
  verifiedAt : ℕ
deriving DecidableEq

structure LiquidityLoadInput where
  target : RiskTarget
  sourceBlock : ℕ
  sourceBlockHash : Hash

/-- What the chain and the database answer for one pool. -/
structure PoolReads where
  pool : NormalizedPool
  state : Option NormalizedPoolState
  transfers : List IndexedTransfer
  creators : List Address
  lock : Option LiquidityOwnership
  canonicalDecimals : Option ℕ
  storedDecimals : Option ℕ
  rows : List NormalizationRow
  isCanonicalBlock : ℕ → Hash → Bool

structure ConstantProductPoolState where
  reserve0Raw : ℕ
  reserve1Raw : ℕ
  lpTotalSupplyRaw : ℕ
deriving DecidableEq

structure TrackedToken where
  address : Address
  tokenIs0 : Bool
deriving DecidableEq

structure LoadedPool where
  pool : NormalizedPool
  state : ConstantProductPoolState
  tracked : TrackedToken
  ownership : OwnershipSnapshot
  resolvedOwnership : LiquidityOwnership
  creator : Option LiquidityProvider
  normalization : Option QuoteNormalization
  standardTradeImpacts : List StandardTradeImpact

inductive PoolLoadResult
  | loaded (pool : LoadedPool)
  | failed (reason : String)

inductive LiquidityContextSourceResult
  | unavailable (reason : String)
  | available (input : LiquidityRiskInput)
deriving DecidableEq

/-! ## Who controls a pool -/

def creatorPosition (ownership : OwnershipSnapshot) (creators : List Address) :
    Option LiquidityProvider :=
  ((ownership.providers.filter fun provider => provider.address ∈ creators).insertionSort
    compareProviders).head?

def lpOwnership (ownership : OwnershipSnapshot) (totalSupplyRaw : ℕ)
    (creator : Option LiquidityProvider) (lock : Option LiquidityOwnership) :
    LiquidityOwnership :=
  match creator with
  | some creator => ⟨.creator, some creator.address, true⟩
  | none =>
    if ownership.burnedLiquidityRaw = totalSupplyRaw ∧ totalSupplyRaw > 0 then
      ⟨.burned, none, true⟩
    else lock.getD ⟨.unknown, none, false⟩

def trackedPoolToken (pool : NormalizedPool) (target : RiskTarget) : Option TrackedToken :=
  let address := if target.type = .pool then pool.token0Address else target.address
  if address = pool.token0Address then some ⟨address, true⟩
  else if address = pool.token1Address then some ⟨address, false⟩
  else none

/-! ## The rate of a quote asset -/

def assetDecimals (canonicalDecimals storedDecimals : Option ℕ) : Except String (Option ℕ) :=
  match canonicalDecimals with
  | some decimals => .ok (some decimals)
  | none =>
    match storedDecimals with
    | none => .ok none
    | some decimals => do
      let _ ← pow10OrThrow decimals
      .ok (some decimals)

/-- A price that is old, or of a pool that is being read, is not taken. -/
def normalizationFromRow (row : NormalizationRow) (quoteDecimals : ℕ)
    (normalizationAsset : NormalizationAsset) (blockTimestamp : ℕ) (excludedPools : List Address)
    (isCanonicalBlock : ℕ → Hash → Bool) : Option QuoteNormalization :=
  match row.priceRaw, row.sourceBlock, row.sourceBlockHash, row.route with
  | some priceRaw, some sourceBlock, some sourceBlockHash, some route =>
    if priceRaw ≤ 0 then none
    else if blockTimestamp < row.sourceTimestamp ∨
        blockTimestamp - row.sourceTimestamp > row.maximumStalenessSeconds * 1000 then none
    else if (∃ pool ∈ row.poolAddress, pool ∈ excludedPools) ∨
        ∃ pool ∈ route, pool ∈ excludedPools then none
    else if isCanonicalBlock sourceBlock sourceBlockHash = false then none
    else some {
      kind := .priceObservation
      quoteDecimals := quoteDecimals
      normalizationQuoteAsset := normalizationAsset.address
      normalizationQuoteDecimals := normalizationAsset.decimals
      priceRaw := priceRaw
      priceDecimals := row.priceDecimals
      observationKey := some row.observationKey
      sourceKey := some row.sourceKey
      sourceBlock := some sourceBlock
      sourceBlockHash := some sourceBlockHash
      sourceTimestamp := some row.sourceTimestamp
      observedAt := some row.observedAt
      maximumStalenessSeconds := some row.maximumStalenessSeconds
      verificationSourceUrl := some row.verificationSourceUrl
      verifiedAt := some row.verifiedAt }
  | _, _, _, _ => none

/-- The rate of the normalization asset itself. -/
def identityNormalization (quoteDecimals : ℕ) (normalizationAsset : NormalizationAsset) :
    QuoteNormalization where
  kind := .identity
  quoteDecimals := quoteDecimals
  normalizationQuoteAsset := normalizationAsset.address
  normalizationQuoteDecimals := normalizationAsset.decimals
  priceRaw := 1
  priceDecimals := 0
  observationKey := none
  sourceKey := none
  sourceBlock := none
  sourceBlockHash := none
  sourceTimestamp := none
  observedAt := none
  maximumStalenessSeconds := none
  verificationSourceUrl := none
  verifiedAt := none

def quoteNormalization (reads : PoolReads) (quoteAsset : Address)
    (normalizationAsset : NormalizationAsset) (blockTimestamp : ℕ)
    (excludedPools : List Address) : Except String (Option QuoteNormalization) := do
  match ← assetDecimals reads.canonicalDecimals reads.storedDecimals with
  | none => .ok none
  | some quoteDecimals =>
    if quoteAsset = normalizationAsset.address then
      .ok (some (identityNormalization quoteDecimals normalizationAsset))
    else
      .ok (reads.rows.findSome? fun row => normalizationFromRow row quoteDecimals
        normalizationAsset blockTimestamp excludedPools reads.isCanonicalBlock)

def QuoteNormalization.rate (normalization : QuoteNormalization) : QuoteNormalizationRate where
  sourceDecimals := normalization.quoteDecimals
  normalizedDecimals := normalization.normalizationQuoteDecimals
  priceRaw := normalization.priceRaw
  priceDecimals := normalization.priceDecimals

/-! ## Trades of a standard size -/

def STANDARD_TRADE_SIZE_UNITS : List ℤ := [100, 1000, 10000]

def PRIMARY_STANDARD_TRADE_SIZE_UNITS : ℤ := 1000

/-- One size; none where too little goes in or comes out. -/
def poolTradeImpact (pool : NormalizedPool) (feeTier : ℤ) (reserveInRaw reserveOutRaw : ℤ)
    (normalization : QuoteNormalization) (units : ℤ) :
    Except String (Option StandardTradeImpact) := do
  let one ← pow10OrThrow normalization.normalizationQuoteDecimals
  let amountQuoteRaw := units * one
  let amountPoolQuoteRaw ← denormalizeQuoteAmount amountQuoteRaw normalization.rate
  let amountInAfterFee := amountPoolQuoteRaw * (UniswapV2.FEE_DENOMINATOR - feeTier)
  if amountPoolQuoteRaw ≤ 0 then .ok none
  else if amountInAfterFee * reserveOutRaw <
      reserveInRaw * UniswapV2.FEE_DENOMINATOR + amountInAfterFee then .ok none
  else do
    let quote ← quoteConstantProductSwap
      ⟨amountPoolQuoteRaw, reserveInRaw, reserveOutRaw, feeTier, UniswapV2.FEE_DENOMINATOR⟩
    .ok (some ⟨amountQuoteRaw, amountPoolQuoteRaw, quote.amountOutRaw, quote.priceImpactBps,
      pool.poolAddress⟩)

def poolTradeImpacts (pool : NormalizedPool) (state : ConstantProductPoolState) (tokenIs0 : Bool)
    (normalization : QuoteNormalization) : Except String (List StandardTradeImpact) :=
  let reserveInRaw := if tokenIs0 then state.reserve1Raw else state.reserve0Raw
  let reserveOutRaw := if tokenIs0 then state.reserve0Raw else state.reserve1Raw
  match pool.feeTier with
  | none => .ok []
  | some feeTier =>
    if (feeTier : ℤ) ≥ UniswapV2.FEE_DENOMINATOR ∨ reserveInRaw = 0 ∨ reserveOutRaw = 0 then .ok []
    else do
      let results ← STANDARD_TRADE_SIZE_UNITS.mapM
        (poolTradeImpact pool feeTier reserveInRaw reserveOutRaw normalization)
      .ok (results.filterMap id)

/-! ## One pool -/

/-- No rate where there is nothing to convert to. -/
def loadNormalization (reads : PoolReads) (quoteAsset : Address)
    (normalizationAsset : Option NormalizationAsset) (blockTimestamp : ℕ)
    (excludedPools : List Address) : Except String (Option QuoteNormalization) :=
  match normalizationAsset with
  | none => .ok none
  | some asset => quoteNormalization reads quoteAsset asset blockTimestamp excludedPools

/-- No trades without a rate. -/
def loadTradeImpacts (pool : NormalizedPool) (state : ConstantProductPoolState) (tokenIs0 : Bool)
    (normalization : Option QuoteNormalization) : Except String (List StandardTradeImpact) :=
  match normalization with
  | none => .ok []
  | some normalization => poolTradeImpacts pool state tokenIs0 normalization

def loadPinnedPool (reads : PoolReads) (input : LiquidityLoadInput) (blockTimestamp : ℕ)
    (normalizationAsset : Option NormalizationAsset) (excludedPools : List Address) :
    Except String PoolLoadResult :=
  match reads.state with
  | none => .ok (.failed "LIQUIDITY_PROTOCOL_NOT_VERIFIED")
  | some (.constantProduct reserve0Raw reserve1Raw lpTotalSupplyRaw) =>
    match ownershipSnapshot reads.transfers lpTotalSupplyRaw input.sourceBlock with
    | none => .ok (.failed "LIQUIDITY_LP_SUPPLY_MISMATCH")
    | some ownership =>
      match trackedPoolToken reads.pool input.target with
      | none => .ok (.failed "LIQUIDITY_TARGET_NOT_IN_POOL")
      | some tracked => do
        let state : ConstantProductPoolState := ⟨reserve0Raw, reserve1Raw, lpTotalSupplyRaw⟩
        let creator := creatorPosition ownership reads.creators
        let quoteAsset :=
          if tracked.tokenIs0 then reads.pool.token1Address else reads.pool.token0Address
        let normalization ←
          loadNormalization reads quoteAsset normalizationAsset blockTimestamp excludedPools
        let standardTradeImpacts ←
          loadTradeImpacts reads.pool state tracked.tokenIs0 normalization
        .ok (.loaded {
          pool := reads.pool
          state := state
          tracked := tracked
          ownership := ownership
          resolvedOwnership := lpOwnership ownership lpTotalSupplyRaw creator reads.lock
          creator := creator
          normalization := normalization
          standardTradeImpacts := standardTradeImpacts })
  | some _ => .ok (.failed "LIQUIDITY_OWNERSHIP_MODEL_UNSUPPORTED")

namespace LoadedPool

def tokenLiquidityRaw (loaded : LoadedPool) : ℕ :=
  if loaded.tracked.tokenIs0 then loaded.state.reserve0Raw else loaded.state.reserve1Raw

def quoteLiquidityRaw (loaded : LoadedPool) : ℕ :=
  if loaded.tracked.tokenIs0 then loaded.state.reserve1Raw else loaded.state.reserve0Raw

def quoteAsset (loaded : LoadedPool) : Address :=
  if loaded.tracked.tokenIs0 then loaded.pool.token1Address else loaded.pool.token0Address

end LoadedPool

def loadedPoolEvidence (loaded : LoadedPool) (sourceBlock : ℕ) :
    Except String LiquidityPoolEvidence :=
  match loaded.normalization with
  | none => .error "LIQUIDITY_POOL_NORMALIZATION_MISSING"
  | some normalization => do
    let normalizedQuoteLiquidityRaw ←
      normalizeQuoteAmount loaded.quoteLiquidityRaw normalization.rate
    .ok {
      poolAddress := loaded.pool.poolAddress
      protocolKey := loaded.pool.protocolKey
      protocolVersion := loaded.pool.protocolVersion
      poolType := loaded.pool.poolType
      quoteAsset := loaded.quoteAsset
      poolAgeBlocks := sourceBlock - loaded.pool.createdBlockNumber
      tokenLiquidityRaw := loaded.tokenLiquidityRaw
      quoteLiquidityRaw := loaded.quoteLiquidityRaw
      currentLiquidityRaw := loaded.state.lpTotalSupplyRaw
      burnedLiquidityRaw := loaded.ownership.burnedLiquidityRaw
      burnedProviders := loaded.ownership.burnedProviders
      providers := loaded.ownership.providers
      ownership := loaded.resolvedOwnership
      removalsRaw := loaded.ownership.removalsRaw
      additionsRaw := loaded.ownership.additionsRaw
      removalEvents := loaded.ownership.removalEvents
      normalizedQuoteLiquidityRaw := normalizedQuoteLiquidityRaw
      normalization := normalization
      standardTradeImpacts := loaded.standardTradeImpacts }

/-! ## All of them -/

/-- The deeper pool first, and the lower address of two as deep. -/
def comparePoolDepth (left right : LiquidityPoolEvidence) : Prop :=
  if left.normalizedQuoteLiquidityRaw = right.normalizedQuoteLiquidityRaw then
    left.poolAddress.value ≤ right.poolAddress.value
  else left.normalizedQuoteLiquidityRaw > right.normalizedQuoteLiquidityRaw

instance : DecidableRel comparePoolDepth := fun left right =>
  inferInstanceAs (Decidable (if left.normalizedQuoteLiquidityRaw =
      right.normalizedQuoteLiquidityRaw then left.poolAddress.value ≤ right.poolAddress.value
    else left.normalizedQuoteLiquidityRaw > right.normalizedQuoteLiquidityRaw))

/-- More out first, then less impact, then the lower address. -/
def compareTradeImpact (left right : StandardTradeImpact) : Prop :=
  if left.expectedTokenOutRaw ≠ right.expectedTokenOutRaw then
    left.expectedTokenOutRaw > right.expectedTokenOutRaw
  else if left.priceImpactBps ≠ right.priceImpactBps then
    left.priceImpactBps < right.priceImpactBps
  else left.poolAddress.value ≤ right.poolAddress.value

instance : DecidableRel compareTradeImpact := fun left right =>
  inferInstanceAs (Decidable (if left.expectedTokenOutRaw ≠ right.expectedTokenOutRaw then
      left.expectedTokenOutRaw > right.expectedTokenOutRaw
    else if left.priceImpactBps ≠ right.priceImpactBps then
      left.priceImpactBps < right.priceImpactBps
    else left.poolAddress.value ≤ right.poolAddress.value))

def normalizedLpAmount (normalizedQuoteLiquidityRaw lpAmountRaw lpTotalSupplyRaw : ℤ) : ℤ :=
  if lpTotalSupplyRaw ≤ 0 then 0
  else (normalizedQuoteLiquidityRaw * lpAmountRaw).tdiv lpTotalSupplyRaw

/-- What a position of the pool counts for. -/
def LiquidityPoolEvidence.normalized (pool : LiquidityPoolEvidence) (lpAmountRaw : ℤ) : ℤ :=
  normalizedLpAmount pool.normalizedQuoteLiquidityRaw lpAmountRaw pool.currentLiquidityRaw

/-- Count one position; one that rounds to nothing is left out. -/
def addNormalized (pool : LiquidityPoolEvidence) (balances : Tally Address)
    (provider : LiquidityProvider) : Tally Address :=
  if pool.normalized provider.liquidityRaw ≤ 0 then balances
  else balances.add provider.address (pool.normalized provider.liquidityRaw)

def aggregateNormalizedProviders (pools : List LiquidityPoolEvidence)
    (select : LiquidityPoolEvidence → List LiquidityProvider) : List LiquidityProvider :=
  let balances : Tally Address :=
    pools.foldl (fun balances pool => (select pool).foldl (addNormalized pool) balances) ∅
  (balances.rows.map fun entry => ⟨entry.1, entry.2⟩).insertionSort compareProviders

def aggregateNormalizedLpAmounts (pools : List LiquidityPoolEvidence)
    (select : LiquidityPoolEvidence → ℤ) : ℤ :=
  (pools.map fun pool => pool.normalized (select pool)).sum

def aggregateOwnership (pools : List LiquidityPoolEvidence) : LiquidityOwnership :=
  let firstOf (kind : LiquidityOwnershipKind) : Option LiquidityPoolEvidence :=
    ((pools.filter fun pool => pool.ownership.kind = kind).insertionSort comparePoolDepth).head?
  match firstOf .creator with
  | some pool => pool.ownership
  | none =>
    if ∃ pool ∈ pools, pool.ownership.unproven then ⟨.unknown, none, false⟩
    else if ∀ pool ∈ pools, pool.ownership.kind = .burned then ⟨.burned, none, true⟩
    else ((firstOf .locked).map (·.ownership)).getD ⟨.unknown, none, false⟩

/-- The best trade of each size, where `one` is the unit of the normalization
asset. -/
def bestTradeImpacts (pools : List LiquidityPoolEvidence) (one : ℤ) : List StandardTradeImpact :=
  STANDARD_TRADE_SIZE_UNITS.flatMap fun units =>
    (((pools.flatMap (·.standardTradeImpacts)).filter fun impact =>
      impact.amountQuoteRaw = units * one).insertionSort compareTradeImpact).head?.toList

/-- **What is given to the analysis** of several pools. `getMigration` is the
pool a token has moved to. -/
def normalizedResult (loadedPools : List LoadedPool) (normalizationAsset : NormalizationAsset)
    (input : LiquidityLoadInput) (getMigration : ℕ → Address → Option Address) :
    Except String LiquidityContextSourceResult := do
  let poolEvidence ← loadedPools.mapM fun loaded => loadedPoolEvidence loaded input.sourceBlock
  let normalizedQuoteLiquidityRaw := normalizedTotal poolEvidence
  if normalizedQuoteLiquidityRaw ≤ 0 then .ok (.unavailable "LIQUIDITY_NORMALIZED_DEPTH_ZERO")
  else
    match (poolEvidence.insertionSort comparePoolDepth).head? with
    | none => .ok (.unavailable "LIQUIDITY_POOL_NOT_INDEXED")
    | some primaryEvidence =>
      match loadedPools.find? fun loaded =>
          loaded.pool.poolAddress = primaryEvidence.poolAddress with
      | none => .error "LIQUIDITY_PRIMARY_POOL_MISSING"
      | some primary => do
        let one ← pow10OrThrow normalizationAsset.decimals
        let standardTradeImpacts := bestTradeImpacts poolEvidence one
        let primaryTradeAmount := PRIMARY_STANDARD_TRADE_SIZE_UNITS * one
        let primaryTradeImpact := standardTradeImpacts.find? fun impact =>
          impact.amountQuoteRaw = primaryTradeAmount
        let burnedProviders := aggregateNormalizedProviders poolEvidence (·.burnedProviders)
        let resolvedOwnership := aggregateOwnership poolEvidence
        .ok (.available {
          chainId := primary.pool.chainId
          poolAddress := primary.pool.poolAddress
          protocolKey := primary.pool.protocolKey
          poolType := primary.pool.poolType
          quoteAsset := normalizationAsset.address
          verifiedProtocol := true
          sourceBlock := input.sourceBlock
          sourceBlockHash := input.sourceBlockHash
          poolAgeBlocks := input.sourceBlock - primary.pool.createdBlockNumber
          tokenLiquidityRaw := primaryEvidence.tokenLiquidityRaw
          quoteLiquidityRaw := primaryEvidence.quoteLiquidityRaw
          currentLiquidityRaw := normalizedQuoteLiquidityRaw
          burnedLiquidityRaw := totalLiquidity burnedProviders
          burnedProviders := burnedProviders
          feeTier := primary.pool.feeTier
          priceImpactBps := primaryTradeImpact.map (·.priceImpactBps)
          providers := aggregateNormalizedProviders poolEvidence (·.providers)
          ownership := resolvedOwnership
          removalsRaw := aggregateNormalizedLpAmounts poolEvidence (·.removalsRaw)
          additionsRaw := aggregateNormalizedLpAmounts poolEvidence (·.additionsRaw)
          removalEvents := poolEvidence.flatMap (·.removalEvents)
          normalizationQuoteAsset := some normalizationAsset.address
          normalizationQuoteDecimals := some normalizationAsset.decimals
          normalizedQuoteLiquidityRaw := some normalizedQuoteLiquidityRaw
          standardTradeSizeQuoteRaw := some primaryTradeAmount
          standardTradeImpacts := some standardTradeImpacts
          poolCount := some poolEvidence.length
          poolConcentrationBps := some ((primaryEvidence.normalizedQuoteLiquidityRaw * 10000).tdiv
            normalizedQuoteLiquidityRaw)
          pools := some poolEvidence
          creatorAddress :=
            if resolvedOwnership.kind = .creator then resolvedOwnership.owner else none
          migrationDestination :=
            if input.target.type = .pool then none
            else getMigration primary.pool.chainId primary.tracked.address
          expectedMigrationDestination := none })

/-- One pool whose quote asset has no rate. -/
def singlePoolResult (loaded : LoadedPool) (input : LiquidityLoadInput)
    (getMigration : ℕ → Address → Option Address) : LiquidityContextSourceResult :=
  .available {
    chainId := loaded.pool.chainId
    poolAddress := loaded.pool.poolAddress
    protocolKey := loaded.pool.protocolKey
    poolType := loaded.pool.poolType
    quoteAsset := loaded.quoteAsset
    verifiedProtocol := true
    sourceBlock := input.sourceBlock
    sourceBlockHash := input.sourceBlockHash
    poolAgeBlocks := input.sourceBlock - loaded.pool.createdBlockNumber
    tokenLiquidityRaw := loaded.tokenLiquidityRaw
    quoteLiquidityRaw := loaded.quoteLiquidityRaw
    currentLiquidityRaw := loaded.state.lpTotalSupplyRaw
    burnedLiquidityRaw := loaded.ownership.burnedLiquidityRaw
    burnedProviders := loaded.ownership.burnedProviders
    feeTier := loaded.pool.feeTier
    priceImpactBps := none
    providers := loaded.ownership.providers
    ownership := loaded.resolvedOwnership
    removalsRaw := loaded.ownership.removalsRaw
    additionsRaw := loaded.ownership.additionsRaw
    removalEvents := loaded.ownership.removalEvents
    normalizationQuoteAsset := none
    normalizationQuoteDecimals := none
    normalizedQuoteLiquidityRaw := none
    standardTradeSizeQuoteRaw := none
    standardTradeImpacts := none
    poolCount := some 1
    poolConcentrationBps := none
    pools := none
    creatorAddress := loaded.creator.map (·.address)
    migrationDestination :=
      if input.target.type = .pool then none
      else getMigration loaded.pool.chainId loaded.tracked.address
    expectedMigrationDestination := none }

/-- Load the pools in turn; the first that fails says why. -/
def loadPools (input : LiquidityLoadInput) (blockTimestamp : ℕ)
    (normalizationAsset : Option NormalizationAsset) (excludedPools : List Address) :
    List PoolReads → Except String (Except String (List LoadedPool))
  | [] => .ok (.ok [])
  | reads :: rest => do
    match ← loadPinnedPool reads input blockTimestamp normalizationAsset excludedPools with
    | .failed reason => .ok (.error reason)
    | .loaded loaded =>
      match ← loadPools input blockTimestamp normalizationAsset excludedPools rest with
      | .error reason => .ok (.error reason)
      | .ok loadedPools => .ok (.ok (loaded :: loadedPools))

/-- **The liquidity of a target.** -/
def loadLiquidity (reads : List PoolReads) (input : LiquidityLoadInput) (blockTimestamp : ℕ)
    (normalizationAsset : Option NormalizationAsset) (getMigration : ℕ → Address → Option Address) :
    Except String LiquidityContextSourceResult := do
  if reads = [] then .ok (.unavailable "LIQUIDITY_POOL_NOT_INDEXED")
  else
    match ← loadPools input blockTimestamp normalizationAsset
        (reads.map (·.pool.poolAddress)) reads with
    | .error reason => .ok (.unavailable reason)
    | .ok loadedPools =>
      if ∃ loaded ∈ loadedPools, loaded.normalization = none then
        match loadedPools with
        | [only] => .ok (singlePoolResult only input getMigration)
        | [] => .ok (.unavailable "LIQUIDITY_POOL_NOT_INDEXED")
        | _ => .ok (.unavailable "LIQUIDITY_QUOTE_NORMALIZATION_UNAVAILABLE")
      else
        match normalizationAsset with
        | none => .ok (.unavailable "LIQUIDITY_NORMALIZATION_ASSET_UNAVAILABLE")
        | some asset => normalizedResult loadedPools asset input getMigration

end HoodSentry
