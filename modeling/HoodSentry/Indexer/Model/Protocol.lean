import HoodSentry.Indexer.Model.Jobs
/-!
# Protocol events

`ProtocolAdapterManager.routeLog` and `ProtocolEventsHandler.handle`. The
adapters are a parameter: what they answer for a log is theirs to decide.
The manager and the handler are the source's, the set of processed event
keys included.
-/

namespace HoodSentry

/-! ## Logs and adapters -/

/-- A log that passed `parseRawChainLog`. -/
structure RawChainLog where
  chainId : ℕ
  blockNumber : ℕ
  blockHash : Hash
  transactionHash : Hash
  transactionIndex : ℕ
  logIndex : ℕ
  address : Address
  topics : List Hex
  data : Hex
  removed : Bool
  canonical : Bool
deriving DecidableEq

/-- What `collectDerivedJobs` hands the handler for a log, parsed. The
schema asks for the transaction provenance, a positive chain and one to
four topics. -/
def parseRawChainLog (cfg : IndexerConfig) (blockNumber : ℕ) (blockHash : Hash) (log : Log) :
    Option RawChainLog := do
  let transactionHash ← log.transactionHash
  let transactionIndex ← log.transactionIndex
  let logIndex ← log.logIndex
  guard (0 < cfg.chainId ∧ 1 ≤ log.topics.length ∧ log.topics.length ≤ 4)
  return {
    chainId := cfg.chainId
    blockNumber := blockNumber
    blockHash := blockHash
    transactionHash := transactionHash
    transactionIndex := transactionIndex
    logIndex := logIndex
    address := log.address
    topics := log.topics
    data := log.data
    removed := log.removed
    canonical := !log.removed }

inductive ProtocolEventKind
  | poolCreated | swap | liquidityAdded | liquidityRemoved | lpMinted | lpBurned
  | positionCreated | positionIncreased | positionDecreased | feesCollected
  | launchpadTokenCreated | bondingCurveBuy | bondingCurveSell | launchpadGraduated
  | launchpadMigrated
deriving DecidableEq

/-- The fields of a decoded event the manager reads: its kind and the key
of its provenance. -/
structure DecodedProtocolEvent where
  kind : ProtocolEventKind
  chainId : ℕ
  blockHash : Hash
  transactionHash : Hash
  logIndex : ℕ
deriving DecidableEq

/-- The fields every normalized event carries. -/
structure EventOrigin where
  chainId : ℕ
  protocolKey : String
  protocolVersion : String
  blockNumber : ℕ
  blockHash : Hash
  transactionHash : Hash
  logIndex : ℕ
  canonical : Bool
deriving DecidableEq

/-- **A normalized event.** `graduationThresholdRaw` is optional in the
source, and whether the property is there at all is what tells a
graduation from the rest: `none` is an event without it. -/
inductive NormalizedProtocolEvent
  | pool (origin : EventOrigin) (poolAddress token0Address token1Address : Address)
  | swap (origin : EventOrigin) (poolAddress tokenInAddress tokenOutAddress : Address)
      (amountInRaw amountOutRaw : ℕ)
  | liquidity (origin : EventOrigin) (eventType : LiquidityEventType)
      (poolAddress token0Address token1Address : Address) (amount0Raw amount1Raw : ℕ)
  | launchpadToken (origin : EventOrigin) (tokenAddress : Address) (initialSupplyRaw : ℕ)
  | launchpadTrade (origin : EventOrigin) (tokenAddress : Address) (isBuy : Bool)
      (tokenAmountRaw paymentAmountRaw : ℕ) (creatorFeeRaw : Option ℕ)
  | graduation (origin : EventOrigin) (tokenAddress : Address)
      (graduationThresholdRaw : Option ℕ)
  | migration (origin : EventOrigin) (tokenAddress : Address)
      (destinationProtocolKey : String) (destinationPoolAddress : Address)
deriving DecidableEq

/-- The decoders of an adapter, by its kind. `none` is a decoder that
throws, `some none` its `null`. -/
inductive AdapterDecoders
  | dex
      (discoverPool : DecodedProtocolEvent → Option (Option NormalizedProtocolEvent))
      (decodeSwap decodeLiquidityEvent : RawChainLog → Option (Option NormalizedProtocolEvent))
  | launchpad
      (decodeTokenCreation decodeBondingCurveTrade decodeGraduation decodeMigration :
        RawChainLog → Option (Option NormalizedProtocolEvent))

/-- An active protocol adapter. -/
structure ProtocolAdapter where
  chainId : ℕ
  supportsAddress : Address → Bool
  decodeLog : RawChainLog → Option (Option DecodedProtocolEvent)
  decoders : AdapterDecoders

/-! ## The manager -/

def normalize (adapter : ProtocolAdapter) (decoded : DecodedProtocolEvent) (log : RawChainLog) :
    Option (Option NormalizedProtocolEvent) :=
  match adapter.decoders with
  | .dex discoverPool decodeSwap decodeLiquidityEvent =>
    match decoded.kind with
    | .poolCreated => discoverPool decoded
    | .swap => decodeSwap log
    | _ => decodeLiquidityEvent log
  | .launchpad decodeTokenCreation decodeBondingCurveTrade decodeGraduation decodeMigration =>
    match decoded.kind with
    | .launchpadTokenCreated => decodeTokenCreation log
    | .bondingCurveBuy | .bondingCurveSell => decodeBondingCurveTrade log
    | .launchpadGraduated => decodeGraduation log
    | .launchpadMigrated => decodeMigration log
    | _ => some none

/-- The key `assertUnique` files an event under. -/
abbrev EventKey := ℕ × Hash × Hash × ℕ

def DecodedProtocolEvent.key (e : DecodedProtocolEvent) : EventKey :=
  (e.chainId, e.blockHash, e.transactionHash, e.logIndex)

/-- `routeLog` up to `assertUnique`: the event of the first adapter that
supports the log's address, with its key. -/
def decodeAndNormalize (adapters : List ProtocolAdapter) (log : RawChainLog) :
    Option (Option (EventKey × NormalizedProtocolEvent)) :=
  match adapters.find? fun a => a.chainId = log.chainId && a.supportsAddress log.address with
  | none => some none
  | some adapter => do
    match ← adapter.decodeLog log with
    | none => some none
    | some decoded =>
      let normalized ← normalize adapter decoded log
      return normalized.map fun event => (decoded.key, event)

/-- `routeLog`. The key is recorded before the event is returned; a key
already recorded throws. -/
def routeLog (adapters : List ProtocolAdapter) (processedEventKeys : List EventKey)
    (log : RawChainLog) : Option (Option NormalizedProtocolEvent × List EventKey) := do
  match ← decodeAndNormalize adapters log with
  | none => return (none, processedEventKeys)
  | some (key, event) =>
    if key ∈ processedEventKeys then none
    else return (some event, key :: processedEventKeys)

/-! ## The handler -/

/-- A write of the protocol repository. -/
inductive RepositoryCall
  | upsertPool (event : NormalizedProtocolEvent)
  | insertSwap (event : NormalizedProtocolEvent)
  | insertLiquidityEvent (event : NormalizedProtocolEvent)
  | insertLaunchpadToken (event : NormalizedProtocolEvent)
  | insertLaunchpadTrade (event : NormalizedProtocolEvent)
  | insertCreatorFeeEvent (event : NormalizedProtocolEvent)
  | insertGraduation (event : NormalizedProtocolEvent)
  | insertMigration (event : NormalizedProtocolEvent)
deriving DecidableEq

/-- `persist`: the repository writes of an event, in order. -/
def persistCalls (event : NormalizedProtocolEvent) : List RepositoryCall :=
  match event with
  | .pool .. => [.upsertPool event]
  | .swap .. => [.insertSwap event]
  | .liquidity .. => [.insertLiquidityEvent event]
  | .launchpadToken .. => [.insertLaunchpadToken event]
  | .launchpadTrade .. => [.insertLaunchpadTrade event, .insertCreatorFeeEvent event]
  | .graduation _ _ (some _) => [.insertGraduation event]
  -- without the property `isGraduation` is false, and no other guard holds
  | .graduation _ _ none => []
  | .migration .. => [.insertMigration event]

def EventOrigin.data (o : EventOrigin) : ProtocolEventData :=
  ⟨o.protocolKey, o.protocolVersion, o.transactionHash, o.logIndex⟩

/-- A job about an event, at the event's block. -/
def EventOrigin.job (o : EventOrigin) (type : DerivedJobType) (data : JobData) : DerivedJob where
  type := type
  chainId := o.chainId
  blockNumber := o.blockNumber
  blockHash := o.blockHash
  data := data

def poolInitializationJobs (o : EventOrigin) (pool token0 token1 : Address) : List DerivedJob :=
  let identity (token : Option Address) : JobData := .pool o.data pool token0 token1 token none
  [o.job .poolRefresh (identity none), o.job .tokenMetadata (identity (some token0)),
    o.job .tokenMetadata (identity (some token1)), o.job .riskAnalysis (identity none)]

def swapDerivedJobs (o : EventOrigin) (pool : Address) : List DerivedJob :=
  [.poolRefresh, .newPriceObservation, .marketMetric, .walletActivity, .alertEvaluation].map
    fun type => o.job type (.swap o.data pool .swap)

def liquidityDerivedJobs (o : EventOrigin) (eventType : LiquidityEventType)
    (pool token0 token1 : Address) : List DerivedJob :=
  let data : JobData := .pool o.data pool token0 token1 none (some (.liquidity eventType))
  [.poolRefresh, .sourceReconciliation, .liquidityMetric, .alertEvaluation].map
      (fun type => o.job type data) ++
    if eventType ∈ [.liquidityRemoved, .lpBurned, .positionDecreased] then
      [o.job .riskAnalysis data]
    else []

/-- `jobs`, with `launchpadDerivedJobs` in its place. -/
def protocolJobs : NormalizedProtocolEvent → List DerivedJob
  | .pool o pool token0 token1 => poolInitializationJobs o pool token0 token1
  | .swap o pool _ _ _ _ => swapDerivedJobs o pool
  | .liquidity o eventType pool token0 token1 _ _ =>
    liquidityDerivedJobs o eventType pool token0 token1
  | .launchpadToken o token _ =>
    [.tokenMetadata, .protocolEnrichment, .riskAnalysis].map fun type =>
      o.job type (.launchpad o.data token none)
  | .launchpadTrade o token _ _ _ _ =>
    [o.job .alertEvaluation (.launchpad o.data token (some .launchpadTrade))]
  | .graduation o token (some _) =>
    [o.job .alertEvaluation (.launchpad o.data token (some .launchpadTrade))]
  | .graduation _ _ none => []
  | .migration o token destinationKey destinationPool =>
    [.bondingCurveMigrationTransition, .sourceReconciliation, .marketMetric,
      .alertEvaluation].map fun type =>
        o.job type (.launchpadMigration o.data token destinationKey destinationPool
          destinationPool .launchpadMigration)

/-- One awaited call of `handle` after the event is routed. -/
inductive HandlerCall
  | persist (call : RepositoryCall)
  | publish (job : DerivedJob)
deriving DecidableEq

/-- The repository write of a call. -/
def HandlerCall.repositoryCall : HandlerCall → Option RepositoryCall
  | persist call => some call
  | publish _ => none

/-- The job a call publishes. -/
def HandlerCall.job : HandlerCall → Option DerivedJob
  | persist _ => none
  | publish job => some job

@[simp] theorem HandlerCall.repositoryCall_persist (call : RepositoryCall) :
    (HandlerCall.persist call).repositoryCall = some call := rfl

@[simp] theorem HandlerCall.repositoryCall_publish (job : DerivedJob) :
    (HandlerCall.publish job).repositoryCall = none := rfl

@[simp] theorem HandlerCall.job_persist (call : RepositoryCall) :
    (HandlerCall.persist call).job = none := rfl

@[simp] theorem HandlerCall.job_publish (job : DerivedJob) :
    (HandlerCall.publish job).job = some job := rfl

/-- `handle` once the event is routed: persist, then publish job by
job. -/
def handlerCalls (event : NormalizedProtocolEvent) : List HandlerCall :=
  (persistCalls event).map .persist ++ (protocolJobs event).map .publish

/-- The calls made when the one numbered `failAt` throws. -/
def callsMade (event : NormalizedProtocolEvent) : Option ℕ → List HandlerCall
  | none => handlerCalls event
  | some k => (handlerCalls event).take k

/-- **What `handle` does with a log**: the processed keys it leaves and
the calls it makes. `failAt` is the call that throws, if one does. Every
error ends the handling and is swallowed, a duplicate key included. -/
def handle (adapters : List ProtocolAdapter) (processedEventKeys : List EventKey)
    (log : Option RawChainLog) (failAt : Option ℕ) : List EventKey × List HandlerCall :=
  match log.bind (routeLog adapters processedEventKeys) with
  | none => (processedEventKeys, [])
  | some (none, keys) => (keys, [])
  | some (some event, keys) => (keys, callsMade event failAt)

end HoodSentry
