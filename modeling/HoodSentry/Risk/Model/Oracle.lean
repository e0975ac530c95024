import HoodSentry.Market.Model.Observations
import HoodSentry.Risk.Model.Types
/-!
# Oracle rules

What a risk scan reads of a token's oracle, and the rules it holds it
against. The result passes through JSON on its way to the rules, which is
the identity on it and left out.
-/

namespace HoodSentry

/-! ## The oracle as a scan sees it -/

def ORACLE_OBSERVATION_SOURCE : String := "oracle_observation_state"

structure OracleBehaviorResult where
  applicable : Bool
  sourceKey : Option SourceKey
  answerRaw : Option ℤ
  decimals : Option ℕ
  roundId : Option ℕ
  answeredInRound : Option ℕ
  updatedAtSeconds : Option ℤ
  scanTimeSeconds : Option ℤ
  heartbeatSeconds : Option ℕ
  oraclePaused : Bool
  sequencerConfigured : Bool
  sequencerUp : Option Bool
  sequencerRecoveredAtSeconds : Option ℕ
  sourceBlock : ℕ
deriving DecidableEq

structure OracleObservationLoadInput where
  chainId : ℕ
  tokenAddress : Address
  sourceBlock : ℕ
  scanTimeSeconds : ℤ
deriving DecidableEq

def baseResult (input : OracleObservationLoadInput) : OracleBehaviorResult where
  applicable := false
  sourceKey := none
  answerRaw := none
  decimals := none
  roundId := none
  answeredInRound := none
  updatedAtSeconds := none
  scanTimeSeconds := some input.scanTimeSeconds
  heartbeatSeconds := none
  oraclePaused := false
  sequencerConfigured := false
  sequencerUp := none
  sequencerRecoveredAtSeconds := none
  sourceBlock := input.sourceBlock

/-- The Chainlink source of a token: the first enabled one with a feed. -/
def SourceTable.oracleConfig (sources : SourceTable) (chainId : ℕ) (tokenAddress : Address) :
    Option PriceSource :=
  (sources.listSourceConfigs chainId tokenAddress).find? fun config =>
    config.sourceType = .chainlink && config.enabled && config.sourceContractAddress.isSome

/-- `DrizzleOracleObservationSource.load`. -/
def loadOracleObservation (sources : SourceTable) (t : PriceTable)
    (input : OracleObservationLoadInput) : OracleBehaviorResult :=
  let base := baseResult input
  match sources.oracleConfig input.chainId input.tokenAddress with
  | none => base
  | some oracleConfig =>
    let configured :=
      { base with
        applicable := true
        sourceKey := some oracleConfig.sourceKey
        heartbeatSeconds := oracleConfig.oracleHeartbeatSeconds
        sequencerConfigured := oracleConfig.sequencerFeedAddress.isSome }
    match t.findLatestOracleStatus input.chainId input.tokenAddress
      oracleConfig.quoteAssetAddress with
    | none => configured
    | some observation =>
      if observation.sourceBlockNumber.any (input.sourceBlock < ·) then configured
      else
        { configured with
          answerRaw := observation.priceRaw
          decimals := some observation.priceDecimals
          roundId := observation.roundId
          answeredInRound := observation.answeredInRound
          updatedAtSeconds := some (timestampSeconds observation.sourceTimestamp)
          oraclePaused := observation.oraclePaused
          sequencerUp := observation.sequencerUp
          sequencerRecoveredAtSeconds := observation.sequencerRecoveredAt }

/-! ## The rules -/

def SEQUENCER_GRACE_SECONDS : ℤ := 3600

inductive OracleRuleCode
  | oracleStale | oracleAnswerInvalid | oracleIncompleteRound | oraclePaused | sequencerDown
  | sequencerGracePeriod
deriving DecidableEq

def OracleRuleCode.code : OracleRuleCode → String
  | .oracleStale => "oracle_stale"
  | .oracleAnswerInvalid => "oracle_answer_invalid"
  | .oracleIncompleteRound => "oracle_incomplete_round"
  | .oraclePaused => "oracle_paused"
  | .sequencerDown => "sequencer_down"
  | .sequencerGracePeriod => "sequencer_grace_period"

structure OracleRuleSpec where
  severity : RiskSeverity
  status : RiskFindingStatus
  title : String
  description : String
  whenPresent : String
  whenAbsent : String
  remediation : String
  sequencerRule : Bool
deriving DecidableEq

/-- `SPECS`. -/
def OracleRuleCode.spec : OracleRuleCode → OracleRuleSpec
  | .oracleStale =>
    { severity := .high
      status := .fail
      title := "Oracle price is stale"
      description := "The feed has not updated within its configured heartbeat."
      whenPresent :=
        "The oracle last updated longer ago than its heartbeat allows, so its price is stale."
      whenAbsent := "The oracle updated within its heartbeat window."
      remediation := "Do not rely on this price until the feed updates within its heartbeat."
      sequencerRule := false }
  | .oracleAnswerInvalid =>
    { severity := .high
      status := .fail
      title := "Oracle answer is invalid"
      description := "The feed reported a non-positive answer."
      whenPresent :=
        "The oracle reported a zero or negative answer, which cannot be a valid price."
      whenAbsent := "The oracle reported a positive answer."
      remediation := "Treat the price as unavailable while the answer is non-positive."
      sequencerRule := false }
  | .oracleIncompleteRound =>
    { severity := .medium
      status := .warning
      title := "Oracle round is incomplete"
      description := "answeredInRound is behind the latest roundId."
      whenPresent :=
        "The latest round has no fresh answer yet; the price is carried from an earlier round."
      whenAbsent := "The latest round carries its own answer."
      remediation := "Prefer a source whose latest round is complete."
      sequencerRule := false }
  | .oraclePaused =>
    { severity := .high
      status := .fail
      title := "Oracle is paused"
      description := "The aggregator reports a paused state."
      whenPresent := "The oracle aggregator is paused, so it is not producing fresh prices."
      whenAbsent := "The oracle aggregator is not paused."
      remediation := "Do not rely on this price while the aggregator is paused."
      sequencerRule := false }
  | .sequencerDown =>
    { severity := .critical
      status := .fail
      title := "Sequencer is down"
      description := "The L2 sequencer uptime feed reports the sequencer as down."
      whenPresent :=
        "The sequencer uptime feed reports the sequencer down, so on-chain prices are unreliable."
      whenAbsent := "The sequencer uptime feed reports the sequencer up."
      remediation := "Do not rely on on-chain prices while the sequencer is down."
      sequencerRule := true }
  | .sequencerGracePeriod =>
    { severity := .medium
      status := .warning
      title := "Sequencer recently recovered"
      description := "The sequencer recovered within the grace period."
      whenPresent :=
        "The sequencer recovered recently and is still inside its grace period, so prices may lag."
      whenAbsent := "The sequencer has been up beyond its grace period."
      remediation := "Wait for the grace period to elapse before relying on fresh prices."
      sequencerRule := true }

namespace OracleBehaviorResult

variable (r : OracleBehaviorResult)

/-- A price rule lacks a field it needs. -/
def requiredReadingMissing : OracleRuleCode → Bool
  | .oracleStale => r.answerRaw.isNone || r.updatedAtSeconds.isNone || r.scanTimeSeconds.isNone ||
      r.heartbeatSeconds.isNone
  | .oracleAnswerInvalid => r.answerRaw.isNone
  | .oracleIncompleteRound => r.roundId.isNone || r.answeredInRound.isNone
  | .oraclePaused => false
  | .sequencerDown => false
  | .sequencerGracePeriod => false

def triggered : OracleRuleCode → Bool
  | .oracleStale =>
    match r.updatedAtSeconds, r.scanTimeSeconds, r.heartbeatSeconds with
    | some updatedAt, some scanTime, some heartbeat => (heartbeat : ℤ) < scanTime - updatedAt
    | _, _, _ => false
  | .oracleAnswerInvalid => r.answerRaw.any (· ≤ 0)
  | .oracleIncompleteRound =>
    match r.roundId, r.answeredInRound with
    | some roundId, some answeredInRound => answeredInRound < roundId
    | _, _ => false
  | .oraclePaused => r.oraclePaused
  | .sequencerDown => r.sequencerUp = some false
  | .sequencerGracePeriod =>
    match r.sequencerUp, r.sequencerRecoveredAtSeconds, r.scanTimeSeconds with
    | some true, some recoveredAt, some scanTime => scanTime - recoveredAt < SEQUENCER_GRACE_SECONDS
    | _, _, _ => false

def statusFor (code : OracleRuleCode) : RiskFindingStatus :=
  if !r.applicable then .notApplicable
  else if code.spec.sequencerRule && !r.sequencerConfigured then .notApplicable
  else if !code.spec.sequencerRule && r.requiredReadingMissing code then .unknown
  else if code.spec.sequencerRule && r.sequencerUp.isNone then .unknown
  else if r.triggered code then code.spec.status
  else .pass

/-- A number as the evidence shows it. -/
def shown (value : Option ℤ) : EvidenceValue := value.elim .null fun n => .text (toString n)

/-- **What a rule makes of the oracle.** -/
def evaluationFor (code : OracleRuleCode) : RiskRuleEvaluation :=
  let spec := code.spec
  let status := r.statusFor code
  let fired : Bool := status.Fired
  { status := status
    severity := if fired then spec.severity else .info
    confidence :=
      { level := if status = .unknown then .unknown else .high
        basisPoints := if status = .unknown then 0 else 9000
        rationale :=
          if status = .unknown then "No readable oracle observation at the pinned block."
          else "Derived from the pinned oracle observation state." }
    title := if fired then spec.title else spec.title ++ " not found"
    explanation :=
      if status = .notApplicable then
        "No oracle price source applies to this token, so this check does not apply."
      else if status = .unknown then
        "The configured oracle source had no readable observation at the pinned block."
      else if fired then spec.whenPresent
      else spec.whenAbsent
    evidence :=
      [{ evidenceType := "oracle_observation"
         summary := if fired then spec.whenPresent else spec.whenAbsent
         data :=
          [("sourceKey", r.sourceKey.elim .null .source),
            ("answerRaw", shown r.answerRaw),
            ("roundId", shown (r.roundId.map (↑))),
            ("answeredInRound", shown (r.answeredInRound.map (↑))),
            ("updatedAtSeconds", shown r.updatedAtSeconds),
            ("heartbeatSeconds", r.heartbeatSeconds.elim .null fun n => .number n),
            ("oraclePaused", .flag r.oraclePaused),
            ("sequencerUp", r.sequencerUp.elim .null .flag),
            ("sequencerRecoveredAtSeconds", shown (r.sequencerRecoveredAtSeconds.map (↑)))]
         provenanceKeys := [ORACLE_OBSERVATION_SOURCE] }]
    remediation := if fired then some spec.remediation else none
    fingerprintSeed := code.code }

end OracleBehaviorResult

end HoodSentry
