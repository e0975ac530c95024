import HoodSentry.Market.Model.Observations
/-!
# Chainlink prices

The `new-price-observation` job of a Chainlink source: what the oracle
client reads at the job's block, the evidence made of it, and the
observation stored. What the chain answers is given. Payloads are the
parsed ones.
-/

namespace HoodSentry

/-! ## Reads -/

/-- What `latestRoundData` answers. Times are in seconds. -/
structure ChainlinkRoundData where
  roundId : ℕ
  answer : ℤ
  startedAt : ℕ
  updatedAt : ℕ
  answeredInRound : ℕ
deriving DecidableEq

/-- What the chain answers at a block: the feed, the sequencer feed, and
`paused`, which is `false` where the feed has no such function. -/
structure OracleAnswers where
  decimals : ℕ
  round : ChainlinkRoundData
  sequencerRound : ChainlinkRoundData
  paused : Bool
deriving DecidableEq

/-- The largest time a `Date` holds, in milliseconds. -/
def MAX_DATE : ℕ := 8640000000000000

/-- The time as milliseconds; past the last date it throws. -/
def timestampStringFromBigInt (seconds : ℕ) : Option ℕ :=
  if seconds * 1000 ≤ MAX_DATE then some (seconds * 1000) else none

structure SequencerUptimeResult where
  up : Bool
  recoveredAt : Option ℕ
deriving DecidableEq

def readSequencerFeed (roundData : ChainlinkRoundData) : SequencerUptimeResult :=
  let up : Bool := roundData.answer = 0
  { up := up
    recoveredAt := if up && roundData.startedAt > 0 then some roundData.startedAt else none }

/-! ## Evidence -/

structure ChainlinkPriceInput where
  answer : ℤ
  decimals : ℕ
  roundId : ℕ
  answeredInRound : ℕ
  /-- In milliseconds. -/
  updatedAt : ℕ
  sequencerUp : Bool
  sequencerGracePeriodElapsed : Bool
  oraclePaused : Bool
deriving DecidableEq

/-- The evidence of a reading; `evidence` is what it is filled in from. -/
def chainlinkEvidence (input : ChainlinkPriceInput) (evidence : PriceEvidence) : PriceEvidence :=
  let reasons :=
    (if input.answer ≤ 0 then [if input.answer = 0 then .zeroPrice else .negativePrice] else []) ++
    (if input.updatedAt = 0 then [.missingSourceTimestamp] else []) ++
    (if input.answeredInRound < input.roundId then [.incompleteOracleRound] else []) ++
    (if input.sequencerUp then [] else [.sequencerDown]) ++
    (if input.sequencerGracePeriodElapsed then [] else [.sequencerGracePeriod]) ++
    if input.oraclePaused then [PriceReason.oraclePaused] else []
  { evidence with
    priceRaw := if reasons.isEmpty then some input.answer else none
    priceDecimals := input.decimals
    sourceTimestamp := input.updatedAt
    reasons := reasons }

/-! ## The job -/

structure ChainlinkPricingIdentity where
  chainId : ℕ
  blockNumber : ℕ
  blockHash : Hash
  sourceKey : SourceKey
  sourceContractAddress : Address
  sourceAssetAddress : Address
  quoteAssetAddress : Address
  oracleHeartbeatSeconds : ℕ
  sequencerFeedAddress : Option Address
deriving DecidableEq

inductive ChainlinkError
  | sourceDisabled
  | sourceTypeMismatch
  | blockNotIndexed
  | invalidTime
  | unsupportedDecimals
deriving DecidableEq

/-- The source of a job and the time of its block in milliseconds, `none`
where there is no such source. -/
def loadVerifiedChainlinkPricingContext (sources : SourceTable) (blocks : Table BlockRow.key)
    (identity : ChainlinkPricingIdentity) : Except ChainlinkError (Option (PriceSource × ℕ)) :=
  match (sources.listSourceConfigs identity.chainId identity.sourceAssetAddress).find? fun c =>
    c.sourceKey = identity.sourceKey with
  | none => .ok none
  | some config =>
    if !config.enabled then .error .sourceDisabled
    else if config.sourceType ≠ .chainlink then .error .sourceTypeMismatch
    else match blocks.rows.find? fun b => b.hash = identity.blockHash with
    | none => .error .blockNotIndexed
    | some block => .ok (some (config, block.timestamp * 1000))

section Build

variable (config : PriceSource) (sourceTimestamp : ℕ) (identity : ChainlinkPricingIdentity)
variable (answers : OracleAnswers)

/-- The sequencer as the job sees it; without a feed it is up. -/
def sequencerResult : SequencerUptimeResult :=
  match identity.sequencerFeedAddress with
  | none => { up := true, recoveredAt := none }
  | some _ => readSequencerFeed answers.sequencerRound

def chainlinkInput (updatedAt : ℕ) : ChainlinkPriceInput :=
  let sequencer := sequencerResult identity answers
  { answer := answers.round.answer
    decimals := answers.decimals
    roundId := answers.round.roundId
    answeredInRound := answers.round.answeredInRound
    updatedAt := updatedAt
    sequencerUp := sequencer.up
    sequencerGracePeriodElapsed :=
      sequencer.recoveredAt.all fun recoveredAt =>
        (config.oracleHeartbeatSeconds.getD identity.oracleHeartbeatSeconds : ℤ) ≤
          timestampSeconds sourceTimestamp - recoveredAt
    oraclePaused := answers.paused }

/-- **The observation of a reading**, made at `now`. -/
def buildChainlinkObservation (t : PriceTable) (now : ℕ) :
    Except ChainlinkError PriceObservation :=
  match timestampStringFromBigInt answers.round.updatedAt with
  | none => .error .invalidTime
  | some updatedAt =>
    let evidence := chainlinkEvidence
      (chainlinkInput config sourceTimestamp identity answers updatedAt)
      { priceRaw := none
        priceDecimals := answers.decimals
        sourceBlockNumber := some identity.blockNumber
        sourceBlockHash := some identity.blockHash
        sourceTimestamp := sourceTimestamp
        observedAt := now
        liquidityDepthRaw := none
        liquidityDepthDecimals := none
        priceImpactBps := none
        singleTransactionVolumeBps := none
        providerName := none
        poolAddress := none
        route := []
        canonical := true
        reasons := [] }
    match evaluateObservation config evidence (t.priceBefore config.chainId
      config.sourceAssetAddress config.quoteAssetAddress identity.blockNumber) with
    | none => .error .unsupportedDecimals
    | some observation => .ok { observation with
        roundId := some answers.round.roundId
        answeredInRound := some answers.round.answeredInRound
        oraclePaused := some answers.paused
        sequencerUp := some (sequencerResult identity answers).up
        sequencerRecoveredAt := (sequencerResult identity answers).recoveredAt }

end Build

/-- **A job.** A recovery time that is no date throws in the insert. -/
def processChainlinkPriceObservation (sources : SourceTable) (blocks : Table BlockRow.key)
    (answers : OracleAnswers) (now : ℕ) (t : PriceTable) (identity : ChainlinkPricingIdentity) :
    Except ChainlinkError PriceTable :=
  (loadVerifiedChainlinkPricingContext sources blocks identity).bind fun loaded =>
    match loaded with
    | none => .ok t
    | some (config, sourceTimestamp) =>
      (buildChainlinkObservation config sourceTimestamp identity answers t now).bind fun value =>
        if value.sequencerRecoveredAt.all fun s => (timestampStringFromBigInt s).isSome then
          .ok (t.saveObservation value)
        else .error .invalidTime

end HoodSentry
