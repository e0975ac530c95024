import HoodSentry.Common.Machine
import HoodSentry.Market.Model.Metrics
import HoodSentry.Market.Model.Observations
/-!
# Selecting a price

The market engine's choice among the observations of a token's sources, its
warnings about those that disagree, and its search for outliers. An
observation is read back as the row it is stored in. `none` throws.
-/

namespace HoodSentry

/-! ## Source keys as text -/

/-- An address in lower case. -/
def addressText (address : Address) : String :=
  let digits := Nat.toDigits 16 address.value
  "0x" ++ String.ofList (List.replicate (40 - digits.length) '0' ++ digits)

/-- A source's key, with its parts joined by colons. -/
def SourceKey.text : SourceKey → String
  | .verifiedPool chainId poolAddress tokenAddress quoteAddress =>
    "verified-pool-v1:" ++ toString chainId ++ ":" ++ addressText poolAddress ++ ":" ++
      addressText tokenAddress ++ ":" ++ addressText quoteAddress
  | .named name => name

/-! ## Selection -/

/-- The observation that stands for no price. -/
def unavailableObservation (config : PriceSource) (observedAt : ℕ) : PriceObservationRow where
  observationKey := (.named "unavailable", .time observedAt)
  chainId := config.chainId
  tokenAddress := config.sourceAssetAddress
  quoteAssetAddress := config.quoteAssetAddress
  sourceKey := .named "unavailable"
  sourceType := .unavailable
  sourceContractAddress := none
  providerName := none
  poolAddress := none
  route := []
  priceRaw := none
  priceDecimals := 0
  sourceBlockNumber := none
  sourceBlockHash := none
  sourceTimestamp := observedAt
  observedAt := observedAt
  liquidityDepthRaw := none
  liquidityDepthDecimals := none
  priceImpactBps := none
  singleTransactionVolumeBps := none
  confidenceBps := 0
  stale := false
  status := .unavailable
  authoritative := false
  reasons := [.other "NO_VALID_PRICE_SOURCE"]
  canonical := true
  methodologyVersion := config.methodologyVersion
  roundId := none
  answeredInRound := none
  oraclePaused := false
  sequencerUp := none
  sequencerRecoveredAt := none

def configOf (configs : List PriceSource) (observation : PriceObservationRow) :
    Option PriceSource :=
  configs.find? (·.sourceKey = observation.sourceKey)

def sourcePriority (configs : List PriceSource) (observation : PriceObservationRow) : ℕ :=
  ((configOf configs observation).map (·.priority)).getD 9999

/-- By priority, and then by confidence, the highest first. -/
def sortsBefore (configs : List PriceSource) (left right : PriceObservationRow) : Prop :=
  sourcePriority configs left < sourcePriority configs right ∨
    sourcePriority configs left = sourcePriority configs right ∧
      right.confidenceBps ≤ left.confidenceBps

instance (configs : List PriceSource) : DecidableRel (sortsBefore configs) :=
  fun _ _ => inferInstanceAs (Decidable (_ ∨ _))

/-- An observation that may be selected. -/
def PriceObservationRow.selectable (observation : PriceObservationRow) : Bool :=
  observation.canonical && observation.status ≠ .unavailable

def sortObservations (configs : List PriceSource) (observations : List PriceObservationRow) :
    List PriceObservationRow :=
  (observations.filter (·.selectable)).insertionSort (sortsBefore configs)

/-- A candidate's price in other decimals; a division truncates. -/
def alignedPrice (candidate : PriceObservationRow) (decimals : ℕ) : Option ℤ :=
  candidate.priceRaw.map fun raw =>
    if candidate.priceDecimals = decimals then raw
    else if candidate.priceDecimals < decimals then raw * 10 ^ (decimals - candidate.priceDecimals)
    else raw.tdiv (10 ^ (candidate.priceDecimals - decimals))

/-- By how much a candidate disagrees, if by more than the source accepts. -/
def disagreement (primaryRaw : ℤ) (primary candidate : PriceObservationRow)
    (config : PriceSource) : Option ℤ :=
  (alignedPrice candidate primary.priceDecimals).bind fun price =>
    (absoluteDifferenceBps primaryRaw price).filter
      (config.confidenceRules.disagreementThresholdBps < ·)

def disagreementWarning (sourceKey : SourceKey) (disagreement : ℤ) : String :=
  "SOURCE_DISAGREEMENT:" ++ sourceKey.text ++ ":" ++ toString disagreement

def disagreementWarnings (primary : PriceObservationRow) (candidates : List PriceObservationRow)
    (config : PriceSource) : List String :=
  match primary.priceRaw with
  | none => []
  | some raw => candidates.filterMap fun candidate =>
      (disagreement raw primary candidate config).map (disagreementWarning candidate.sourceKey)

structure SourceSelectionResult where
  selected : PriceObservationRow
  evaluated : List PriceObservationRow
  disagreementWarnings : List String
deriving DecidableEq

/-- The primary observation, less its penalty for the sources that
disagree. -/
def penalised (primary : PriceObservationRow) (config : PriceSource) (warnings : List String) :
    PriceObservationRow :=
  let confidenceBps := clampBps (primary.confidenceBps -
    warnings.length * config.confidenceRules.disagreementPenaltyBps)
  { primary with
    confidenceBps := confidenceBps
    status :=
      if confidenceBps < config.confidenceRules.minimumAuthoritativeConfidenceBps then .lowConfidence
      else primary.status
    authoritative := primary.authoritative &&
      decide (config.confidenceRules.minimumAuthoritativeConfidenceBps ≤ confidenceBps)
    reasons := primary.reasons ++ warnings.map .other }

/-- **The selection among a token's observations.** -/
def selectPriceSource (configs : List PriceSource) (observations : List PriceObservationRow)
    (observedAt : ℕ) : Option SourceSelectionResult :=
  let sorted := sortObservations configs observations
  configs.head?.bind fun fallbackConfig =>
    match sorted with
    | [] => some ⟨unavailableObservation fallbackConfig observedAt, [], []⟩
    | primary :: others =>
      (configOf configs primary).map fun primaryConfig =>
        let warnings := disagreementWarnings primary others primaryConfig
        { selected :=
            if primary.priceRaw.isNone then unavailableObservation fallbackConfig observedAt
            else penalised primary primaryConfig warnings
          evaluated := sorted
          disagreementWarnings := warnings }

/-! ## Outliers -/

structure OutlierInput where
  observation : PriceObservationRow
  previousPriceRaw : Option ℤ
  stablecoinTargetRaw : Option ℤ
  windowVolumeRaw : Option ℤ
  previousWindowVolumeRaw : Option ℤ
  walletVolumeRaw : Option ℤ
  postGraduationDexPriceRaw : Option ℤ
deriving DecidableEq

structure OutlierResult where
  available : Bool
  confidenceBps : ℤ
  reasons : List PriceReason
deriving DecidableEq

/-- A reason, where two prices are known and differ by more than a
threshold. -/
def comparePrices (left right : Option ℤ) (threshold : ℤ) (reason : PriceReason) :
    List PriceReason :=
  match left, right with
  | some l, some r => if (absoluteDifferenceBps l r).any (threshold < ·) then [reason] else []
  | _, _ => []

def flashVolumeSpike (windowVolumeRaw previousWindowVolumeRaw : Option ℤ) : Bool :=
  match windowVolumeRaw, previousWindowVolumeRaw with
  | some volume, some previous =>
    previous > 0 && ((volume - previous) * 10000).tdiv previous > 10000
  | _, _ => false

def oneWalletWashVolume (windowVolumeRaw walletVolumeRaw : Option ℤ) : Bool :=
  match windowVolumeRaw, walletVolumeRaw with
  | some volume, some wallet => volume > 0 && (wallet * 10000).tdiv volume > 8000
  | _, _ => false

/-- The reasons that make an outlier's price unavailable. -/
def outlierFatalReasons : List PriceReason :=
  [.negativePrice, .zeroPrice, .unverifiedProtocol, .curveDisabledAfterMigration]

/-- What is found besides the reasons that the observation has. -/
def OutlierInput.found (input : OutlierInput) : List PriceReason :=
  comparePrices input.observation.priceRaw input.previousPriceRaw 5000 .abnormalPriceJump ++
  comparePrices input.observation.priceRaw input.stablecoinTargetRaw 300 .stablecoinDepeg ++
  comparePrices input.observation.priceRaw input.postGraduationDexPriceRaw 1000
    (.other "POST_GRADUATION_SOURCE_MISMATCH") ++
  (if flashVolumeSpike input.windowVolumeRaw input.previousWindowVolumeRaw then
    [.other "FLASH_VOLUME_SPIKE"] else []) ++
  if oneWalletWashVolume input.windowVolumeRaw input.walletVolumeRaw then
    [.other "ONE_WALLET_WASH_VOLUME"] else []

def detectOutliers (input : OutlierInput) : OutlierResult :=
  let unique := (input.observation.reasons ++ input.found).eraseDups
  let unavailable := unique.any (· ∈ outlierFatalReasons)
  { available := !unavailable
    confidenceBps :=
      if unavailable then 0 else clampBps (input.observation.confidenceBps - unique.length * 500)
    reasons := unique }

/-- **The outlier job's** observation, which it stores. -/
def afterOutlierDetection (input : OutlierInput) : PriceObservationRow :=
  let result := detectOutliers input
  { input.observation with
    confidenceBps := result.confidenceBps
    status :=
      if result.available && result.reasons.isEmpty then .available
      else if result.available then .lowConfidence else .unavailable
    authoritative := input.observation.authoritative && result.reasons.isEmpty
    reasons := result.reasons }

end HoodSentry

/-!
## What is done with stored observations

The sweep of stale sources, the outlier job, the selection of a source and
the aggregation of candles, as steps over the stored observations. A step
that reads observations is given those it has read, which are stored ones.
-/

namespace HoodSentry

/-- What the outlier job stores; its row is there. -/
def PriceTable.storeOutlier (t : PriceTable) (input : OutlierInput) : PriceTable :=
  t.updateWhere (·.observationKey = input.observation.observationKey)
    (fun r => afterOutlierDetection { input with observation := r }) fun _ => rfl

inductive ObservationStep
  | markStaleSources (observedBefore : ℕ)
  | detectOutliers (input : OutlierInput)
  | selectPriceSource (configs : List PriceSource) (observations : List PriceObservationRow)
      (observedAt : ℕ)
  | aggregateCandle (observations : List PriceObservationRow) (window : MarketWindow)
      (methodologyVersion : String)

/-- The stored observations. `used` is not the program's: a step has reported
the watched observation as available, or its result is another one than
without it. -/
structure ObservationStore where
  rows : PriceTable
  used : Bool

section Lifecycle

variable (watched : SourceKey × ObservationPoint)

/-- The other observations. -/
def others (observations : List PriceObservationRow) : List PriceObservationRow :=
  observations.filter (·.observationKey ≠ watched)

/-- **The machine of the stored observations**, one of which is watched. -/
def lifecycle : Machine ObservationStore ObservationStep where
  Init s := s.used = false
  step s
    | .markStaleSources observedBefore =>
      some { s with rows := s.rows.markStaleSources observedBefore }
    | .detectOutliers input =>
      if input.observation ∈ s.rows then
        some
          { rows := s.rows.storeOutlier input
            used := s.used || (input.observation.observationKey = watched &&
              (detectOutliers input).available) }
      else none
    | .selectPriceSource configs observations observedAt =>
      if ∀ o ∈ observations, o ∈ s.rows then
        some { s with
          used := s.used || decide (selectPriceSource configs observations observedAt ≠
            selectPriceSource configs (others watched observations) observedAt) }
      else none
    | .aggregateCandle observations window methodologyVersion =>
      if ∀ o ∈ observations, o ∈ s.rows then
        some { s with
          used := s.used || decide (aggregateCandle observations window methodologyVersion ≠
            aggregateCandle (others watched observations) window methodologyVersion) }
      else none

end Lifecycle

end HoodSentry
