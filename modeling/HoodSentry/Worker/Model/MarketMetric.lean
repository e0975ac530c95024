import HoodSentry.Common.Machine
import HoodSentry.Market.Model.Metrics
import HoodSentry.Worker.Model.Pricing
/-!
# Market metrics

The `market-metric` job of a pool's event: in every window, the candle
and the metrics of the event's bucket as of the event. The alerts a job
delivers on the way are left out. Payloads are the parsed ones.
-/

namespace HoodSentry

def METRICS_METHODOLOGY : String := "market-metrics-v1"

/-- The tables a metric job reads. -/
structure MetricFacts extends PricingFacts where
  observations : PriceTable
  /-- The column of `tokens` only the metrics read. -/
  totalSupplyRaw : ℕ → Address → Option ℤ

/-- The tables it writes. -/
@[ext] structure MarketTables where
  candles : CandleTable
  metrics : MetricsTable

/-- **What the metrics read of a job's context**: the pair, and the block
the event is in. -/
structure MetricEvent where
  chainId : ℕ
  tokenAddress : Address
  quoteAddress : Address
  quoteDecimals : ℕ
  blockNumber : ℕ
  blockHash : Hash
  /-- In milliseconds. -/
  sourceTimestamp : ℕ
deriving DecidableEq

def VerifiedPoolPricingContext.metricEvent (loaded : VerifiedPoolPricingContext) : MetricEvent where
  chainId := loaded.identity.chainId
  tokenAddress := loaded.tokenAddress
  quoteAddress := loaded.quoteAddress
  quoteDecimals := loaded.quoteDecimals
  blockNumber := loaded.identity.blockNumber
  blockHash := loaded.identity.blockHash
  sourceTimestamp := loaded.sourceTimestamp

inductive MetricError
  | pricing (e : PricingError)
  | observationNotReady
  | tokenSupplyContextUnavailable
  | mixedPriceDecimals
deriving DecidableEq

/-! ## Reads -/

/-- What a job has read before its first window. -/
structure MetricReads where
  observation : PriceObservationRow
  decimals : ℕ
  totalSupplyRaw : Option ℤ
  liquidityRaw : Option ℤ
deriving DecidableEq

/-- A trade as the metrics count it; one without a trader is dropped. -/
def tradeOf (quote : Address) (quoteDecimals : ℕ) (row : SwapRow) (block : BlockRow) :
    Option TradeMetricInput :=
  (row.senderAddress.or row.recipientAddress).map fun trader =>
    let isBuy : Bool := row.tokenInAddress = quote
    let quoteAmountRaw : ℤ := if isBuy then row.amountInRaw else row.amountOutRaw
    { transactionHash := row.transactionHash
      traderAddress := trader
      side := if isBuy then .buy else .sell
      tokenAmountRaw := if isBuy then row.amountOutRaw else row.amountInRaw
      quoteAmountRaw := quoteAmountRaw
      timestamp := block.timestamp * 1000
      canonical := row.canonical
      whale := 10000 * 10 ^ quoteDecimals ≤ quoteAmountRaw }

namespace MetricFacts

variable (f : MetricFacts) (e : MetricEvent)

/-- The canonical trades of the pair in canonical blocks from a time up to
the event's. -/
def loadTrades (fromTime : ℕ) : List TradeMetricInput :=
  (f.swaps.rows.filter fun s =>
    s.chainId = e.chainId && s.canonical &&
      (s.tokenInAddress = e.quoteAddress && s.tokenOutAddress = e.tokenAddress ||
        s.tokenInAddress = e.tokenAddress && s.tokenOutAddress = e.quoteAddress)).flatMap fun s =>
    (f.blocks.rows.filter fun b =>
      b.chainId = e.chainId && b.number = s.blockNumber && b.hash = s.blockHash && b.canonical &&
        fromTime ≤ b.timestamp * 1000 && b.timestamp * 1000 ≤ e.sourceTimestamp).filterMap
      (tradeOf e.quoteAddress e.quoteDecimals s)

/-- The quote reserve of a pool in its latest canonical state up to the
event's block. -/
def poolLiquidity (pool : PoolRow) : Option ℕ :=
  let states := f.poolStateSnapshots.rows.filter fun s =>
    s.chainId = pool.chainId && s.poolAddress = pool.address && s.canonical &&
      s.sourceBlockNumber ≤ e.blockNumber
  (states.insertionSort fun left right =>
    right.sourceBlockNumber ≤ left.sourceBlockNumber).head?.bind fun row =>
      if pool.token0Address = e.quoteAddress then row.reserve0Raw else row.reserve1Raw

/-- The quote reserves of the pair's pools, added up. -/
def loadLiquidity : Option ℤ :=
  let pools := f.pools.rows.filter fun p =>
    p.chainId = e.chainId && p.canonical && p.active &&
      (p.token0Address = e.tokenAddress && p.token1Address = e.quoteAddress ||
        p.token0Address = e.quoteAddress && p.token1Address = e.tokenAddress)
  let reserves := pools.filterMap (f.poolLiquidity e)
  if reserves.isEmpty then none else some (reserves.map (fun r => (r : ℤ))).sum

/-- The observations of the pair from a time up to the event's. -/
def history (fromTime : ℕ) : List PriceObservationRow :=
  f.observations.getPriceHistory e.chainId e.tokenAddress e.quoteAddress fromTime e.sourceTimestamp

def readMetricContext : Except MetricError MetricReads :=
  match (f.history e e.sourceTimestamp).find? fun o => o.sourceBlockHash = some e.blockHash with
  | none => .error .observationNotReady
  | some observation =>
    match f.tokenDecimals e.chainId e.tokenAddress with
    | none => .error .tokenSupplyContextUnavailable
    | some decimals => .ok {
        observation := observation
        decimals := decimals
        totalSupplyRaw := f.totalSupplyRaw e.chainId e.tokenAddress
        liquidityRaw := f.loadLiquidity e }

end MetricFacts

/-- The latest canonical metrics of the pair before a bucket. -/
def MetricsTable.previousMetrics (t : MetricsTable) (e : MetricEvent) (window : MarketWindow)
    (bucket : ℕ) : Option MarketMetrics :=
  ((t.rows.filter fun m =>
    m.chainId = e.chainId && m.tokenAddress = e.tokenAddress &&
      m.quoteAssetAddress = e.quoteAddress && m.window = window && m.canonical &&
      m.bucketStart < bucket).insertionSort
    fun left right => right.bucketStart ≤ left.bucketStart).head?

/-! ## The job -/

namespace MetricFacts

variable (f : MetricFacts)

/-- **The metrics a job computes** for a window. -/
def metricsOf (e : MetricEvent) (reads : MetricReads) (t : MetricsTable) (window : MarketWindow) :
    MarketMetrics :=
  let bucket := bucketStart e.sourceTimestamp window
  let previous := t.previousMetrics e window bucket
  aggregateMarketMetrics
    { chainId := e.chainId
      tokenAddress := e.tokenAddress
      quoteAssetAddress := e.quoteAddress
      window := window
      asOf := e.sourceTimestamp
      quoteDecimals := e.quoteDecimals
      observation := some reads.observation
      trades := f.loadTrades e bucket
      supply :=
        { totalSupplyRaw := reads.totalSupplyRaw
          circulatingSupplyRaw := none
          supplyDecimals := reads.decimals
          circulatingSupplyReliable := false
          circulatingSupplyMethodology := none
          circulatingSupplyExclusions := [] }
      context :=
        { liquidityRaw := reads.liquidityRaw
          liquidityDecimals := reads.liquidityRaw.map fun _ => e.quoteDecimals
          previousClosePriceRaw := previous.bind (·.spotPriceRaw)
          previousVolumeRaw := previous.map (·.volumeRaw)
          previousLiquidityRaw := previous.bind (·.liquidityRaw)
          holderCount := none
          previousHolderCount := none
          previousTransactionCount := previous.map fun m => (m.buyCount + m.sellCount : ℕ)
          priceImpactByOrderSize := [] }
      methodologyVersion := METRICS_METHODOLOGY }

/-- The candle a job computes for a window; `none` throws. -/
def candleOf (e : MetricEvent) (window : MarketWindow) : Option (Option MarketCandle) :=
  aggregateCandle (f.history e (bucketStart e.sourceTimestamp window)) window METRICS_METHODOLOGY

/-- One window: the candle is stored, then the metrics. -/
def processWindow (e : MetricEvent) (reads : MetricReads) (t : MarketTables)
    (window : MarketWindow) : Option MarketTables :=
  (f.candleOf e window).map fun candle =>
    { candles := candle.elim t.candles t.candles.saveCandle
      metrics := t.metrics.saveMetrics (f.metricsOf e reads t.metrics window) }

/-- The windows in turn. One that throws keeps what those before it
stored. -/
def processWindows (e : MetricEvent) (reads : MetricReads) :
    List MarketWindow → MarketTables → MarketTables × Option MetricError
  | [], t => (t, none)
  | window :: windows, t =>
    match f.processWindow e reads t window with
    | none => (t, some .mixedPriceDecimals)
    | some t' => processWindows e reads windows t'

/-- **A job**: the tables it leaves, and the event it was done for. -/
def processMarketMetric (t : MarketTables) (job : PoolMarketJob) :
    MarketTables × Except MetricError (Option MetricEvent) :=
  match f.loadVerifiedPoolPricingContext job with
  | .error err => (t, .error (.pricing err))
  | .ok none => (t, .ok none)
  | .ok (some loaded) =>
    match f.readMetricContext loaded.metricEvent with
    | .error err => (t, .error err)
    | .ok reads =>
      let done := f.processWindows loaded.metricEvent reads WINDOWS t
      (done.1, done.2.elim (.ok (some loaded.metricEvent)) .error)

end MetricFacts

/-! ## Runs -/

/-- The tables, and the events done so far. -/
structure MarketState where
  tables : MarketTables
  events : List MetricEvent

/-- **Deliveries of metric jobs** over given facts, from given tables. -/
def marketMachine (f : MetricFacts) (t : MarketTables) : Machine MarketState PoolMarketJob where
  Init s := s = ⟨t, []⟩
  step s job :=
    let done := f.processMarketMetric s.tables job
    some
      { tables := done.1
        events :=
          match done.2 with
          | .ok (some e) => s.events ++ [e]
          | _ => s.events }

end HoodSentry
