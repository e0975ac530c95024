import HoodSentry.Market.Model.Observations
/-!
# Pool prices

The price jobs of a pool's events: the verified context of the pool at
the event's block, the observation made of it, and the row it is stored
in. A swap's `new-price-observation` job and a liquidity event's
`source-reconciliation` job run the same processor. Payloads are the
parsed ones; the source's configuration, stored on the way, is left out.
-/

namespace HoodSentry

/-! ## Jobs -/

inductive PoolEventType
  | swap | liquidityAdded | liquidityRemoved | lpMinted | lpBurned | positionIncreased
  | positionDecreased | launchpadMigration
deriving DecidableEq

/-- A pool at a block. -/
structure PoolBlock where
  chainId : ℕ
  blockNumber : ℕ
  blockHash : Hash
  poolAddress : Address
deriving DecidableEq

structure PoolMarketJob extends PoolBlock where
  protocolKey : Option String
  protocolVersion : Option String
  transactionHash : Hash
  logIndex : ℕ
  eventType : PoolEventType
deriving DecidableEq

/-- A job's identity, with the protocol of the stored pool. -/
structure PoolMarketIdentity extends PoolBlock where
  protocolKey : String
  protocolVersion : String
  transactionHash : Hash
  logIndex : ℕ
deriving DecidableEq

inductive PricingError
  | contextNotReady
  | validationExpired
  | protocolIdentityMismatch
  | reservesUnavailable
  | tokenDecimalsUnavailable
  | quoteDecimalsUnavailable
  | swapContextNotReady
  | unsupportedDecimals
deriving DecidableEq

/-! ## The pair and its source -/

/-- The registry's entry for an address, enabled or not. -/
def registryAsset (chainId : ℕ) (address : Address) : Option CanonicalAssetEntry :=
  canonicalAssetRegistry.find? fun e => e.chainId = chainId && e.address = address

/-- The token and the quote asset of a pool. -/
def selectPair (chainId : ℕ) (token0 token1 : Address) : Option (Address × Address) :=
  let assets := canonicalAssetRegistry.filter fun e => e.chainId = chainId && e.enabled
  match assets.find? (·.address = token0), assets.find? (·.address = token1) with
  | none, none => none
  | some _, none => some (token1, token0)
  | none, some _ => some (token0, token1)
  | some asset0, some asset1 =>
    if asset0.key = "usdg" then some (token1, token0)
    else if asset1.key = "usdg" then some (token0, token1)
    else none

def assetClass (chainId : ℕ) (address : Address) : AssetClass :=
  match (registryAsset chainId address).map (·.key) with
  | some "weth" => .wrappedEth
  | some "usdg" => .stablecoin
  | _ => .erc20

/-- Whether the registry calls an address USDG. -/
def isUsdg (chainId : ℕ) (address : Address) : Bool :=
  (registryAsset chainId address).any (·.key = "usdg")

def minimumLiquidity (chainId : ℕ) (quoteAddress : Address) (decimals : ℕ) : ℤ :=
  if isUsdg chainId quoteAddress then 1000 * 10 ^ decimals else 10 ^ decimals

def verifiedPoolRules : ConfidenceRules where
  baseConfidenceBps := 9000
  thinLiquidityPenaltyBps := 3000
  stalePenaltyBps := 4000
  disagreementThresholdBps := 1000
  disagreementPenaltyBps := 2500
  maximumPriceImpactBps := 1000
  maximumSingleTransactionVolumeBps := 2000
  maximumPriceJumpBps := 5000
  stablecoinDepegThresholdBps := 500
  minimumAuthoritativeConfidenceBps := 7000

def buildConfig (identity : PoolMarketIdentity) (tokenAddress quoteAddress : Address)
    (quoteDecimals : ℕ) (verificationSource : String) (verifiedAt : ℕ) : PriceSource where
  sourceKey := .verifiedPool identity.chainId identity.poolAddress tokenAddress quoteAddress
  sourceType := if isUsdg identity.chainId quoteAddress then .stablecoinPool else .wethRoute
  assetClass := assetClass identity.chainId tokenAddress
  chainId := identity.chainId
  sourceContractAddress := some identity.poolAddress
  sourceAssetAddress := tokenAddress
  quoteAssetAddress := quoteAddress
  verificationSourceUrl := verificationSource
  verifiedAt := verifiedAt
  minimumLiquidityRaw := minimumLiquidity identity.chainId quoteAddress quoteDecimals
  liquidityDecimals := quoteDecimals
  maximumStalenessSeconds := 120
  enabled := true
  priority := if isUsdg identity.chainId quoteAddress then 30 else 40
  confidenceRules := verifiedPoolRules
  route := [⟨identity.protocolKey, identity.protocolVersion, identity.poolAddress, tokenAddress,
    quoteAddress⟩]
  methodologyVersion := "verified-constant-product-spot-v1"
  oracleHeartbeatSeconds := none
  sequencerFeedAddress := none

/-! ## The context of a job -/

/-- The tables the context is read from. -/
structure PricingFacts where
  pools : Table PoolRow.key
  dexProtocols : Table DexProtocolRow.id
  poolStateSnapshots : Table PoolStateSnapshotRow.key
  swaps : Table SwapRow.key
  blocks : Table BlockRow.key
  tokens : Table TokenRow.key

/-- A row of the inner joins. -/
structure PricingRow where
  pool : PoolRow
  protocol : DexProtocolRow
  snapshot : PoolStateSnapshotRow
  block : BlockRow
deriving DecidableEq

structure VerifiedPoolPricingContext where
  identity : PoolMarketIdentity
  /-- In milliseconds. -/
  sourceTimestamp : ℕ
  tokenAddress : Address
  quoteAddress : Address
  tokenDecimals : ℕ
  quoteDecimals : ℕ
  reserveTokenRaw : ℕ
  reserveQuoteRaw : ℕ
  quoteTradeAmountRaw : ℕ
  config : PriceSource
deriving DecidableEq

/-- What a trade moved of the quote asset; an event without a trade moved
none. -/
def quoteTradeAmount (swap : Option SwapRow) (quote : Address) : ℕ :=
  match swap with
  | none => 0
  | some s =>
    if s.tokenInAddress = quote then s.amountInRaw
    else if s.tokenOutAddress = quote then s.amountOutRaw
    else 0

/-- The context of a job, once its parts are found. -/
def PricingRow.context (row : PricingRow) (job : PoolMarketJob) (swap : Option SwapRow)
    (reserve0 reserve1 : ℕ) (token quote : Address) (tokenDecimals quoteDecimals : ℕ) :
    VerifiedPoolPricingContext :=
  let identity : PoolMarketIdentity :=
    { job.toPoolBlock with
      protocolKey := row.pool.protocolKey
      protocolVersion := row.pool.protocolVersion
      transactionHash := job.transactionHash
      logIndex := job.logIndex }
  { identity := identity
    sourceTimestamp := row.block.timestamp * 1000
    tokenAddress := token
    quoteAddress := quote
    tokenDecimals := tokenDecimals
    quoteDecimals := quoteDecimals
    reserveTokenRaw := if token = row.pool.token0Address then reserve0 else reserve1
    reserveQuoteRaw := if token = row.pool.token0Address then reserve1 else reserve0
    quoteTradeAmountRaw := quoteTradeAmount swap quote
    config := buildConfig identity token quote quoteDecimals row.protocol.verificationSource
      row.protocol.verificationDate }

namespace PricingFacts

variable (f : PricingFacts)

/-- The canonical, active constant-product pool with its active protocol
and its canonical state at the canonical block. -/
def pricingRow (b : PoolBlock) : Option PricingRow :=
  let pools := f.pools.rows.filter fun p =>
    p.chainId = b.chainId && p.address = b.poolAddress && p.poolType = "constantProduct" &&
      p.canonical && p.active
  let protocols := f.dexProtocols.rows.filter fun d => d.enabled && d.validationStatus = .active
  let snapshots := f.poolStateSnapshots.rows.filter fun s =>
    s.chainId = b.chainId && s.poolAddress = b.poolAddress &&
      s.sourceBlockNumber = b.blockNumber && s.sourceBlockHash = b.blockHash && s.canonical
  let blocks := f.blocks.rows.filter fun r =>
    r.chainId = b.chainId && r.number = b.blockNumber && r.hash = b.blockHash && r.canonical
  (pools.flatMap fun pool =>
    (protocols.filter fun d => d.id = pool.protocolId).flatMap fun protocol =>
      snapshots.flatMap fun snapshot => blocks.map fun block =>
        ⟨pool, protocol, snapshot, block⟩).head?

/-- The canonical swap of a job's event: the left join. -/
def swapOf (job : PoolMarketJob) : Option SwapRow :=
  f.swaps.rows.find? fun s =>
    s.chainId = job.chainId && s.poolAddress = job.poolAddress && s.blockHash = job.blockHash &&
      s.transactionHash = job.transactionHash && s.logIndex = job.logIndex && s.canonical

def tokenDecimals (chainId : ℕ) (token : Address) : Option ℕ :=
  (f.tokens.rows.find? fun t => t.chainId = chainId && t.address = token).bind (·.decimals)

/-- **The verified context of a job**, `none` where the pool is unknown or
has no quote asset. -/
def loadVerifiedPoolPricingContext (job : PoolMarketJob) :
    Except PricingError (Option VerifiedPoolPricingContext) :=
  match f.pricingRow job.toPoolBlock with
  | none =>
    if f.pools.rows.any fun p => p.chainId = job.chainId && p.address = job.poolAddress then
      .error .contextNotReady
    else .ok none
  | some row =>
    if row.protocol.validationExpiresAt.any (· ≤ row.block.timestamp * 1000) then
      .error .validationExpired
    else if job.eventType ≠ .launchpadMigration ∧
        (job.protocolKey ≠ some row.pool.protocolKey ∨
          job.protocolVersion ≠ some row.pool.protocolVersion) then
      .error .protocolIdentityMismatch
    else match row.snapshot.reserve0Raw, row.snapshot.reserve1Raw with
    | some reserve0, some reserve1 =>
      match selectPair job.chainId row.pool.token0Address row.pool.token1Address with
      | none => .ok none
      | some (token, quote) =>
        match f.tokenDecimals job.chainId token with
        | none => .error .tokenDecimalsUnavailable
        | some tokenDecimals =>
          match f.tokenDecimals job.chainId quote with
          | none => .error .quoteDecimalsUnavailable
          | some quoteDecimals =>
            if job.eventType = .swap ∧ (f.swapOf job).isNone then .error .swapContextNotReady
            else .ok (some (row.context job (f.swapOf job) reserve0 reserve1 token quote
              tokenDecimals quoteDecimals))
    | _, _ => .error .reservesUnavailable

end PricingFacts

/-! ## The processor -/

namespace VerifiedPoolPricingContext

variable (loaded : VerifiedPoolPricingContext)

def previousPriceRaw (t : PriceTable) : Option ℤ :=
  t.priceBefore loaded.identity.chainId loaded.tokenAddress loaded.quoteAddress
    loaded.identity.blockNumber

def singleTransactionVolumeBps : Option ℤ :=
  if loaded.reserveQuoteRaw = 0 then none
  else some (loaded.quoteTradeAmountRaw * 10000 / loaded.reserveQuoteRaw : ℕ)

def evidence : PriceEvidence :=
  poolEvidence
    { tokenAddress := loaded.tokenAddress
      quoteAssetAddress := loaded.quoteAddress
      tokenDecimals := loaded.tokenDecimals
      quoteDecimals := loaded.quoteDecimals
      reserveTokenRaw := loaded.reserveTokenRaw
      reserveQuoteRaw := loaded.reserveQuoteRaw
      protocolVerified := true
      tokenAddressesVerified := true
      poolStateFresh := true
      priceImpactBps := none
      singleTransactionVolumeBps := loaded.singleTransactionVolumeBps }
    loaded.quoteDecimals
    { priceRaw := none
      priceDecimals := loaded.quoteDecimals
      sourceBlockNumber := some loaded.identity.blockNumber
      sourceBlockHash := some loaded.identity.blockHash
      sourceTimestamp := loaded.sourceTimestamp
      observedAt := loaded.sourceTimestamp
      liquidityDepthRaw := some loaded.reserveQuoteRaw
      liquidityDepthDecimals := some loaded.quoteDecimals
      priceImpactBps := none
      singleTransactionVolumeBps := loaded.singleTransactionVolumeBps
      providerName := none
      poolAddress := some loaded.identity.poolAddress
      route := loaded.config.route
      canonical := true
      reasons := [] }

def observation (t : PriceTable) : Option PriceObservation :=
  evaluateObservation loaded.config loaded.evidence (loaded.previousPriceRaw t)

end VerifiedPoolPricingContext

namespace PricingFacts

variable (f : PricingFacts)

/-- **One price job.** -/
def processPoolPriceObservation (t : PriceTable) (job : PoolMarketJob) :
    Except PricingError PriceTable :=
  (f.loadVerifiedPoolPricingContext job).bind fun loaded =>
    match loaded with
    | none => .ok t
    | some loaded =>
      match loaded.observation t with
      | none => .error .unsupportedDecimals
      | some value => .ok (t.saveObservation value)

/-- A delivery: a job that throws leaves the rows as they are. -/
def deliver (t : PriceTable) (job : PoolMarketJob) : PriceTable :=
  (f.processPoolPriceObservation t job).toOption.getD t

/-- Deliveries, one after the other. -/
def deliverAll (t : PriceTable) (jobs : List PoolMarketJob) : PriceTable :=
  jobs.foldl f.deliver t

end PricingFacts

end HoodSentry
