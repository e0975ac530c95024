import HoodSentry.Alert.Model.Evaluation
import HoodSentry.Common.Loops
import HoodSentry.Worker.Model.AlertDelivery
import HoodSentry.Worker.Model.MarketMetric
/-!
# Alert evaluation

The jobs that raise alerts: `processAlertEvaluation`, for a chain event,
and `deliverMarketAlerts`, which a metric job calls in each of its
windows. Both go through the rules in the order they are returned, store
an event for each rule that matches, and have it delivered. Payloads are
the parsed ones. An event's row is never rewritten and its key is unique,
so the key stands for its id.
-/

namespace HoodSentry

/-! ## Rules and events -/

structure AlertRule where
  id : ℕ
  userId : ℕ
  chainId : ℕ
  targetAddress : Address
  ruleType : AlertRuleType
  condition : AlertCondition
  /-- `none` does not parse. -/
  channels : Option (List RequestedChannel)
  enabled : Bool
  deleted : Bool
deriving DecidableEq

namespace AlertRule

variable (rule : AlertRule)

/-- What the alert engine reads of a rule. -/
def input : AlertRuleInput := ⟨rule.ruleType, rule.targetAddress, rule.condition⟩

/-- What the delivery service reads of it. -/
def delivery : RuleDelivery := ⟨rule.userId, rule.channels⟩

end AlertRule

/-- The columns `alert_events_source_log_idx` is unique on, for an event
that has a transaction. -/
structure AlertEventKey where
  alertRuleId : ℕ
  chainId : ℕ
  blockHash : Hash
  transactionHash : Hash
  logIndex : ℕ
deriving DecidableEq

inductive AlertMetadata
  | chain (evidence : AlertEvidence) (tokenAddress poolAddress : Option Address)
      (protocolKey protocolVersion : Option String)
  | market (evidence : MarketAlertEvidence) (metricWindow : MarketWindow)
      (metricBucketStart : ℕ) (quoteAssetAddress : Address)
deriving DecidableEq

/-- A row of `alert_events`. -/
structure AlertEventRow where
  key : AlertEventKey
  blockNumber : ℕ
  triggeredAt : ℕ
  severity : AlertSeverity
  metadata : AlertMetadata
deriving DecidableEq

/-- The tables the jobs read. -/
structure AlertFacts extends MetricFacts where
  rules : Table AlertRule.id

/-! ## Raising alerts -/

inductive AlertError
  | metric (e : MetricError)
  | deliveryServiceNotConfigured
  | delivery (message : String)
deriving DecidableEq

/-- What `deliver` throws for an event and its rule, if anything. -/
abbrev Deliver := AlertEventKey → AlertRule → Option AlertError

/-- The stored events, and the deliveries a job has attempted. -/
structure AlertState where
  events : Table AlertEventRow.key
  attempted : List AlertEventKey

/-- A rule that matched, and the event to store for it. -/
structure RaisedAlert where
  rule : AlertRule
  event : AlertEventRow
deriving DecidableEq

/-- **One alert**: its event is stored, unless it was before, read back,
and delivered. Without a delivery service that throws. -/
def AlertState.raise (deliver : Option Deliver) (s : AlertState) (a : RaisedAlert) :
    AlertState × Option AlertError :=
  let events := s.events.insertNew a.event
  match events.find a.event.key with
  | none => ({ s with events := events }, none)
  | some event =>
    match deliver with
    | none => ({ s with events := events }, some .deliveryServiceNotConfigured)
    | some deliver =>
      ({ events := events, attempted := s.attempted ++ [event.key] }, deliver event.key a.rule)

/-- One rule: a condition that does not parse is skipped, and so is one
that does not match. -/
def AlertState.evaluateRule (deliver : Option Deliver)
    (evaluate : AlertRule → Except ConditionError (Option AlertEventRow)) (s : AlertState)
    (rule : AlertRule) : AlertState × Option AlertError :=
  match evaluate rule with
  | .error .invalidCondition => (s, none)
  | .ok none => (s, none)
  | .ok (some event) => s.raise deliver ⟨rule, event⟩

/-! ## Chain events -/

/-- The data of an `alert-evaluation` job. -/
structure AlertEventData where
  eventType : String
  transactionHash : Hash
  logIndex : ℕ
  tokenAddress : Option Address
  token0Address : Option Address
  token1Address : Option Address
  poolAddress : Option Address
  fromAddress : Option Address
  toAddress : Option Address
  ownerAddress : Option Address
  spenderAddress : Option Address
  valueRaw : Option ℕ
  protocolKey : Option String
  protocolVersion : Option String
deriving DecidableEq

structure AlertEvaluationJob where
  chainId : ℕ
  blockNumber : ℕ
  blockHash : Hash
  data : AlertEventData
deriving DecidableEq

def AlertEventData.targetAddresses (data : AlertEventData) : List Address :=
  [data.tokenAddress, data.token0Address, data.token1Address, data.poolAddress,
    data.fromAddress, data.toAddress, data.ownerAddress, data.spenderAddress].reduceOption

namespace AlertEvaluationJob

variable (job : AlertEvaluationJob)

def targets : List Address := job.data.targetAddresses.eraseDups

/-- The event a rule raises for the job. -/
def evaluate (timestamp : ℕ) (rule : AlertRule) : Except ConditionError (Option AlertEventRow) :=
  (evaluateChainAlertRule rule.input
    { eventType := job.data.eventType
      targetAddresses := job.targets
      fromAddress := job.data.fromAddress
      toAddress := job.data.toAddress
      valueRaw := job.data.valueRaw }).map fun decision => decision.map fun decision =>
    { key := ⟨rule.id, job.chainId, job.blockHash, job.data.transactionHash, job.data.logIndex⟩
      blockNumber := job.blockNumber
      triggeredAt := timestamp
      severity := decision.severity
      metadata := .chain decision.evidence job.data.tokenAddress job.data.poolAddress
        job.data.protocolKey job.data.protocolVersion }

end AlertEvaluationJob

namespace AlertFacts

variable (f : AlertFacts)

/-- The canonical block a job names. -/
def sourceBlock (job : AlertEvaluationJob) : Option BlockRow :=
  f.blocks.rows.find? fun b =>
    b.chainId = job.chainId && b.number = job.blockNumber && b.hash = job.blockHash && b.canonical

/-- The rules in force on any of some targets. -/
def chainRules (chainId : ℕ) (targets : List Address) : List AlertRule :=
  f.rules.rows.filter fun r =>
    r.chainId = chainId && targets.contains r.targetAddress && r.enabled && !r.deleted

/-- **An `alert-evaluation` job**, from the events stored before it. -/
def processAlertEvaluation (deliver : Option Deliver) (events : Table AlertEventRow.key)
    (job : AlertEvaluationJob) : AlertState × Option AlertError :=
  let s : AlertState := ⟨events, []⟩
  if job.targets = [] then (s, none)
  else match f.sourceBlock job with
    | none => (s, none)
    | some block =>
      forEach (AlertState.evaluateRule deliver (job.evaluate block.timestamp))
        (f.chainRules job.chainId job.targets) s

/-! ## Market metrics -/

/-- The rules in force on a token's metrics. -/
def marketRules (chainId : ℕ) (token : Address) : List AlertRule :=
  f.rules.rows.filter fun r =>
    r.chainId = chainId && r.targetAddress = token &&
      [AlertRuleType.priceChange, .volumeSpike].contains r.ruleType && r.enabled && !r.deleted

end AlertFacts

/-- What a metric job passes on of its context. -/
structure MarketSource where
  blockNumber : ℕ
  blockHash : Hash
  transactionHash : Hash
  logIndex : ℕ
  triggeredAt : ℕ
deriving DecidableEq

def VerifiedPoolPricingContext.marketSource (loaded : VerifiedPoolPricingContext) :
    MarketSource where
  blockNumber := loaded.identity.blockNumber
  blockHash := loaded.identity.blockHash
  transactionHash := loaded.identity.transactionHash
  logIndex := loaded.identity.logIndex
  triggeredAt := loaded.sourceTimestamp

/-- The event a rule raises for the metrics of a window. -/
def MarketMetrics.evaluate (metrics : MarketMetrics) (previousVolumeRaw : Option ℤ)
    (source : MarketSource) (rule : AlertRule) : Except ConditionError (Option AlertEventRow) :=
  (evaluateMarketAlertRule rule.input
    { tokenAddress := metrics.tokenAddress
      windowSeconds := MARKET_WINDOWS metrics.window
      priceChangeBps := metrics.priceChangeBps
      volumeRaw := metrics.volumeRaw
      previousVolumeRaw := previousVolumeRaw }).map fun decision => decision.map fun decision =>
    { key := ⟨rule.id, metrics.chainId, source.blockHash, source.transactionHash, source.logIndex⟩
      blockNumber := source.blockNumber
      triggeredAt := source.triggeredAt
      severity := decision.severity
      metadata :=
        .market decision.evidence metrics.window metrics.bucketStart metrics.quoteAssetAddress }

namespace AlertFacts

variable (f : AlertFacts)

def deliverMarketAlerts (deliver : Option Deliver) (metrics : MarketMetrics)
    (previousVolumeRaw : Option ℤ) (source : MarketSource) (s : AlertState) :
    AlertState × Option AlertError :=
  forEach (AlertState.evaluateRule deliver (metrics.evaluate previousVolumeRaw source))
    (f.marketRules metrics.chainId metrics.tokenAddress) s

/-- The volume of the bucket before an event's, as a window's job reads
it. -/
def previousVolumeRaw (e : MetricEvent) (t : MetricsTable) (window : MarketWindow) : Option ℤ :=
  (t.previousMetrics e window (bucketStart e.sourceTimestamp window)).map (·.volumeRaw)

/-- One window of a metric job: what it stores, then its alerts. -/
def alertWindow (deliver : Option Deliver) (e : MetricEvent) (source : MarketSource)
    (reads : MetricReads) (s : MarketTables × AlertState) (window : MarketWindow) :
    (MarketTables × AlertState) × Option AlertError :=
  match f.processWindow e reads s.1 window with
  | none => (s, some (.metric .mixedPriceDecimals))
  | some t =>
    let alerted := f.deliverMarketAlerts deliver (f.metricsOf e reads s.1.metrics window)
      (previousVolumeRaw e s.1.metrics window) source s.2
    ((t, alerted.1), alerted.2)

/-- **A metric job with its alerts**, from the events stored before it. -/
def processMarketMetricAlerts (deliver : Option Deliver) (t : MarketTables)
    (events : Table AlertEventRow.key) (job : PoolMarketJob) :
    (MarketTables × AlertState) × Option AlertError :=
  let s : MarketTables × AlertState := (t, ⟨events, []⟩)
  match f.loadVerifiedPoolPricingContext job with
  | .error err => (s, some (.metric (.pricing err)))
  | .ok none => (s, none)
  | .ok (some loaded) =>
    match f.readMetricContext loaded.metricEvent with
    | .error err => (s, some (.metric err))
    | .ok reads =>
      forEach (f.alertWindow deliver loaded.metricEvent loaded.marketSource reads) WINDOWS s

end AlertFacts

end HoodSentry
