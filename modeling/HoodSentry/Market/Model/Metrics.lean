import HoodSentry.Market.Model.Observations
/-!
# Candles and metrics

The market engine's aggregates of a bucket of time, and the tables they
are stored in. Times are in milliseconds; a stored observation is read
back as the row it is.
-/

namespace HoodSentry

/-! ## Windows -/

inductive MarketWindow
  | m1 | m5 | m15 | h1 | h6 | h24 | d7 | d30
deriving DecidableEq

/-- How long a window is, in seconds. -/
def MARKET_WINDOWS : MarketWindow → ℕ
  | .m1 => 60
  | .m5 => 300
  | .m15 => 900
  | .h1 => 3600
  | .h6 => 21600
  | .h24 => 86400
  | .d7 => 604800
  | .d30 => 2592000

/-- The windows in their order. -/
def WINDOWS : List MarketWindow := [.m1, .m5, .m15, .h1, .h6, .h24, .d7, .d30]

def epochSeconds (milliseconds : ℕ) : ℕ := milliseconds / 1000

/-- The start of the bucket a time lies in. -/
def bucketStart (value : ℕ) (window : MarketWindow) : ℕ :=
  epochSeconds value / MARKET_WINDOWS window * MARKET_WINDOWS window * 1000

/-! ## Arithmetic -/

def ratioBps (value reference : ℤ) : Option ℤ :=
  if reference = 0 then none else some (((value - reference) * 10000).tdiv reference)

def median (values : List ℤ) : Option ℤ :=
  let sorted := values.insertionSort (· ≤ ·)
  let middle := sorted.length / 2
  match sorted[middle]? with
  | none => none
  | some middleValue =>
    if sorted.length % 2 = 1 then some middleValue
    else sorted[middle - 1]?.map fun lower => (lower + middleValue).tdiv 2

/-! ## Candles -/

structure MarketCandle where
  chainId : ℕ
  tokenAddress : Address
  quoteAssetAddress : Address
  window : MarketWindow
  bucketStart : ℕ
  priceDecimals : ℕ
  openPriceRaw : ℤ
  highPriceRaw : ℤ
  lowPriceRaw : ℤ
  closePriceRaw : ℤ
  sourceObservationCount : ℕ
  canonical : Bool
  methodologyVersion : String
deriving DecidableEq

/-- An observation a candle counts. -/
def PriceObservationRow.usable (item : PriceObservationRow) : Bool :=
  item.canonical && item.priceRaw.isSome && item.status ≠ .unavailable

/-- **The candle of some observations**, `none` in two decimal scales:
that throws. There is no candle without a usable observation. -/
def aggregateCandle (observations : List PriceObservationRow) (window : MarketWindow)
    (methodologyVersion : String) : Option (Option MarketCandle) :=
  let usable := (observations.filter (·.usable)).insertionSort fun left right =>
    epochSeconds left.sourceTimestamp ≤ epochSeconds right.sourceTimestamp
  match usable.head?, usable.getLast? with
  | some first, some last =>
    match first.priceRaw, last.priceRaw with
    | some openPriceRaw, some closePriceRaw =>
      if usable.any fun item => item.priceDecimals ≠ first.priceDecimals then none
      else
        let prices := usable.filterMap (·.priceRaw)
        some (some {
          chainId := first.chainId
          tokenAddress := first.tokenAddress
          quoteAssetAddress := first.quoteAssetAddress
          window := window
          bucketStart := bucketStart first.sourceTimestamp window
          priceDecimals := first.priceDecimals
          openPriceRaw := openPriceRaw
          highPriceRaw := prices.foldl (fun high price => if price > high then price else high)
            openPriceRaw
          lowPriceRaw := prices.foldl (fun low price => if price < low then price else low)
            openPriceRaw
          closePriceRaw := closePriceRaw
          sourceObservationCount := usable.length
          canonical := true
          methodologyVersion := methodologyVersion })
    | _, _ => some none
  | _, _ => some none

/-! ## Metrics -/

inductive TradeSide
  | buy | sell
deriving DecidableEq

structure TradeMetricInput where
  transactionHash : Hash
  traderAddress : Address
  side : TradeSide
  tokenAmountRaw : ℤ
  quoteAmountRaw : ℤ
  timestamp : ℕ
  canonical : Bool
  whale : Bool
deriving DecidableEq

structure SupplyInput where
  totalSupplyRaw : Option ℤ
  circulatingSupplyRaw : Option ℤ
  supplyDecimals : ℕ
  circulatingSupplyReliable : Bool
  circulatingSupplyMethodology : Option String
  circulatingSupplyExclusions : List Address
deriving DecidableEq

structure MetricContext where
  liquidityRaw : Option ℤ
  liquidityDecimals : Option ℕ
  previousClosePriceRaw : Option ℤ
  previousVolumeRaw : Option ℤ
  previousLiquidityRaw : Option ℤ
  holderCount : Option ℤ
  previousHolderCount : Option ℤ
  previousTransactionCount : Option ℤ
  priceImpactByOrderSize : List (String × Option ℤ)
deriving DecidableEq

/-- What `aggregateMarketMetrics` is called with. -/
structure MarketMetricsInput where
  chainId : ℕ
  tokenAddress : Address
  quoteAssetAddress : Address
  window : MarketWindow
  asOf : ℕ
  quoteDecimals : ℕ
  observation : Option PriceObservationRow
  trades : List TradeMetricInput
  supply : SupplyInput
  context : MetricContext
  methodologyVersion : String

structure MarketMetrics where
  chainId : ℕ
  tokenAddress : Address
  quoteAssetAddress : Address
  window : MarketWindow
  bucketStart : ℕ
  quoteDecimals : ℕ
  spotPriceRaw : Option ℤ
  spotPriceDecimals : Option ℕ
  volumeRaw : ℤ
  buyVolumeRaw : ℤ
  sellVolumeRaw : ℤ
  buyCount : ℕ
  sellCount : ℕ
  uniqueTraders : ℕ
  liquidityRaw : Option ℤ
  liquidityDecimals : Option ℕ
  marketCapitalizationRaw : Option ℤ
  fullyDilutedValuationRaw : Option ℤ
  valuationDecimals : Option ℕ
  circulatingSupplyRaw : Option ℤ
  circulatingSupplyMethodology : Option String
  circulatingSupplyExclusions : List Address
  priceChangeBps : Option ℤ
  volumeChangeBps : Option ℤ
  liquidityChangeBps : Option ℤ
  holderChange : Option ℤ
  transactionGrowthBps : Option ℤ
  averageTradeSizeRaw : Option ℤ
  medianTradeSizeRaw : Option ℤ
  whaleVolumeRaw : ℤ
  priceImpactByOrderSize : List (String × Option ℤ)
  canonical : Bool
  methodologyVersion : String
deriving DecidableEq

/-- The value of a supply; a power of ten is never a denominator that
throws. -/
def valuation (priceRaw : Option ℤ) (priceDecimals : Option ℕ) (supplyRaw : Option ℤ)
    (supplyDecimals : ℕ) : Option ℤ :=
  match priceRaw, priceDecimals, supplyRaw with
  | some price, some _, some supply => some ((price * supply).tdiv (10 ^ supplyDecimals))
  | _, _, _ => none

/-- **The metrics of a bucket.** -/
def aggregateMarketMetrics (input : MarketMetricsInput) : MarketMetrics :=
  let trades := input.trades.filter (·.canonical)
  let buyTrades := trades.filter (·.side = .buy)
  let sellTrades := trades.filter (·.side = .sell)
  let sizes := trades.map (·.quoteAmountRaw)
  let volumeRaw := sizes.sum
  let transactionCount : ℤ := trades.length
  let spotPriceRaw := input.observation.bind (·.priceRaw)
  let spotPriceDecimals := input.observation.map (·.priceDecimals)
  let reliableCirculating :=
    if input.supply.circulatingSupplyReliable then input.supply.circulatingSupplyRaw else none
  { chainId := input.chainId
    tokenAddress := input.tokenAddress
    quoteAssetAddress := input.quoteAssetAddress
    window := input.window
    bucketStart := bucketStart input.asOf input.window
    quoteDecimals := input.quoteDecimals
    spotPriceRaw := spotPriceRaw
    spotPriceDecimals := spotPriceDecimals
    volumeRaw := volumeRaw
    buyVolumeRaw := (buyTrades.map (·.quoteAmountRaw)).sum
    sellVolumeRaw := (sellTrades.map (·.quoteAmountRaw)).sum
    buyCount := buyTrades.length
    sellCount := sellTrades.length
    uniqueTraders := (trades.map (·.traderAddress)).dedup.length
    liquidityRaw := input.context.liquidityRaw
    liquidityDecimals := input.context.liquidityDecimals
    marketCapitalizationRaw :=
      valuation spotPriceRaw spotPriceDecimals reliableCirculating input.supply.supplyDecimals
    fullyDilutedValuationRaw :=
      valuation spotPriceRaw spotPriceDecimals input.supply.totalSupplyRaw
        input.supply.supplyDecimals
    valuationDecimals := spotPriceDecimals
    circulatingSupplyRaw := reliableCirculating
    circulatingSupplyMethodology :=
      if reliableCirculating.isNone then none else input.supply.circulatingSupplyMethodology
    circulatingSupplyExclusions :=
      if reliableCirculating.isNone then [] else input.supply.circulatingSupplyExclusions
    priceChangeBps :=
      spotPriceRaw.bind fun spot => input.context.previousClosePriceRaw.bind (ratioBps spot)
    volumeChangeBps := input.context.previousVolumeRaw.bind (ratioBps volumeRaw)
    liquidityChangeBps :=
      input.context.liquidityRaw.bind fun liquidity =>
        input.context.previousLiquidityRaw.bind (ratioBps liquidity)
    holderChange :=
      input.context.holderCount.bind fun holders =>
        input.context.previousHolderCount.map (holders - ·)
    transactionGrowthBps := input.context.previousTransactionCount.bind (ratioBps transactionCount)
    averageTradeSizeRaw :=
      if transactionCount = 0 then none else some (volumeRaw.tdiv transactionCount)
    medianTradeSizeRaw := median sizes
    whaleVolumeRaw := ((trades.filter (·.whale)).map (·.quoteAmountRaw)).sum
    priceImpactByOrderSize := input.context.priceImpactByOrderSize
    canonical := true
    methodologyVersion := input.methodologyVersion }

/-! ## Stored aggregates -/

/-- What a row of an aggregate is stored under. -/
structure BucketKey where
  chainId : ℕ
  tokenAddress : Address
  quoteAssetAddress : Address
  window : MarketWindow
  bucketStart : ℕ
  methodologyVersion : String
deriving DecidableEq

def MarketCandle.key (c : MarketCandle) : BucketKey :=
  ⟨c.chainId, c.tokenAddress, c.quoteAssetAddress, c.window, c.bucketStart, c.methodologyVersion⟩

def MarketMetrics.key (m : MarketMetrics) : BucketKey :=
  ⟨m.chainId, m.tokenAddress, m.quoteAssetAddress, m.window, m.bucketStart, m.methodologyVersion⟩

/-- `market_candles`. -/
abbrev CandleTable : Type := Table MarketCandle.key

/-- `market_metrics`. -/
abbrev MetricsTable : Type := Table MarketMetrics.key

/-- A stored row is overwritten whole. -/
def CandleTable.saveCandle (t : CandleTable) (value : MarketCandle) : CandleTable := t.put value

def MetricsTable.saveMetrics (t : MetricsTable) (value : MarketMetrics) : MetricsTable :=
  t.put value

/-- The canonical observations of a pair observed between two times, in
that order. -/
def PriceTable.getPriceHistory (t : PriceTable) (chainId : ℕ) (token quote : Address)
    (fromTime toTime : ℕ) : List PriceObservationRow :=
  (t.rows.filter fun r =>
    r.chainId = chainId && r.tokenAddress = token && r.quoteAssetAddress = quote &&
      fromTime ≤ r.observedAt && r.observedAt ≤ toTime && r.canonical).insertionSort
    fun left right => left.observedAt ≤ right.observedAt

/-- The tables of the pricing repository. -/
structure PricingStore where
  observations : PriceTable
  candles : CandleTable
  metrics : MetricsTable

/-- **A reorg of a range.** Observations are marked by their block, and
all candles and metrics of the chain. -/
def PricingStore.markPricingNonCanonical (s : PricingStore) (chainId fromBlock toBlock : ℕ) :
    PricingStore where
  observations := s.observations.updateWhere
    (fun r => r.chainId = chainId && r.sourceBlockNumber.any fun n =>
      fromBlock ≤ n && n ≤ toBlock)
    (fun r => { r with canonical := false, authoritative := false }) fun _ => rfl
  candles := s.candles.updateWhere (fun r => r.chainId = chainId)
    (fun r => { r with canonical := false }) fun _ => rfl
  metrics := s.metrics.updateWhere (fun r => r.chainId = chainId)
    (fun r => { r with canonical := false }) fun _ => rfl

end HoodSentry
