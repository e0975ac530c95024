import HoodSentry.Discovery.Model.Manipulation
/-!
# The trending score

`packages/discovery-engine/src/scoring.ts`: nineteen weighted components, of
which the penalties are taken from the rest.
-/

namespace HoodSentry

namespace Discovery

def TRENDING_METHODOLOGY_VERSION : String := "trending-v1"

def DAY_SECONDS : ℤ := 86400

/-! ## Candidates -/

inductive DiscoveryTokenType
  | erc20
  | unknown
deriving DecidableEq

inductive CanonicalState
  | canonical
  | nonCanonical
  | unknown
deriving DecidableEq

inductive PriceStatus
  | available
  | lowConfidence
  | unavailable
deriving DecidableEq

inductive RiskGrade
  | A
  | B
  | C
  | D
  | F
  | unavailable
deriving DecidableEq

/-- A candidate without its trades and its manipulation context. -/
structure PublicCandidate where
  chainId : ℕ
  address : AddressText
  name : Option String
  symbol : Option String
  decimals : Option ℤ
  tokenType : DiscoveryTokenType
  canonicalState : CanonicalState
  canonicalTicker : Option String
  projectName : Option String
  projectSlug : Option String
  projectVerified : Bool
  projectVerifiedAt : Option String
  deployerAddress : Option AddressText
  primaryPoolAddress : Option AddressText
  poolAddresses : List AddressText
  protocolKey : Option String
  launchpadKey : Option String
  quoteAssetAddress : Option AddressText
  firstSeenBlockNumber : ℤ
  firstSeenAt : Option String
  poolCreatedBlockNumber : Option ℤ
  poolCreatedAt : Option String
  priceRaw : Option ℤ
  priceDecimals : Option ℤ
  priceStatus : PriceStatus
  priceObservedAt : Option String
  liquidityRaw : Option ℤ
  liquidityDecimals : Option ℤ
  volumeRaw : Option ℤ
  volumeDecimals : Option ℤ
  volumeChangeBps : Option ℤ
  liquidityChangeBps : Option ℤ
  holderCount : Option ℤ
  holderGrowth : Option ℤ
  holderConcentrationBps : Option ℤ
  transactionCount : Option ℤ
  transactionGrowthBps : Option ℤ
  uniqueTraders : Option ℤ
  watchlistCount : ℤ
  watchlistGrowth : Option ℤ
  alertCount : ℤ
  alertCreationGrowth : Option ℤ
  launchpadState : Feeds.LaunchpadState
  launchpadCurveProgressBps : Option ℤ
  graduatedAt : Option String
  migratedAt : Option String
  riskGrade : RiskGrade
  riskCompletenessBps : Option ℤ
  suspiciousDeployerEvidence : List String
  duplicateSymbolAddresses : List AddressText
  dataQualityWarnings : List String
  lastScannedAt : Option String
  latestCriticalFindingAt : Option String
  sourceBlockNumber : ℤ
  sourceBlockHash : String
  sourceTimestamp : String
  observedAt : String
  canonical : Bool
deriving DecidableEq

structure DiscoveryCandidate extends PublicCandidate where
  recentTrades : List DiscoveryTrade
  manipulationContext : ManipulationContext
deriving DecidableEq

/-! ## Components -/

inductive TrendingComponentKey
  | logScaledVolume
  | uniqueTraders
  | transactionAcceleration
  | holderGrowth
  | liquidity
  | liquidityGrowth
  | poolAge
  | tokenAge
  | watchlistGrowth
  | alertCreationGrowth
  | launchpadCurveProgress
  | graduationStatus
  | riskCompleteness
  | washTradingPenalty
  | holderConcentrationPenalty
  | lowLiquidityPenalty
  | suspiciousDeployerPenalty
  | duplicateSymbolPenalty
  | dataQualityPenalty
deriving DecidableEq

def POSITIVE_WEIGHTS : TrendingComponentKey → ℤ
  | .logScaledVolume => 1400
  | .uniqueTraders => 900
  | .transactionAcceleration => 900
  | .holderGrowth => 700
  | .liquidity => 1200
  | .liquidityGrowth => 700
  | .poolAge => 400
  | .tokenAge => 400
  | .watchlistGrowth => 500
  | .alertCreationGrowth => 300
  | .launchpadCurveProgress => 500
  | .graduationStatus => 400
  | .riskCompleteness => 700
  | .washTradingPenalty => 1000
  | .holderConcentrationPenalty => 600
  | .lowLiquidityPenalty => 800
  | .suspiciousDeployerPenalty => 800
  | .duplicateSymbolPenalty => 400
  | .dataQualityPenalty => 800

inductive ComponentKind
  | positive
  | penalty
deriving DecidableEq

structure TrendingComponent where
  key : TrendingComponentKey
  kind : ComponentKind
  rawValue : Option ℤ
  normalizedBps : ℤ
  weightBps : ℤ
  contributionBps : ℤ
  available : Bool
  reasons : List String
deriving DecidableEq

structure TrendingScore where
  methodologyVersion : String
  scoreBps : ℤ
  confidenceBps : ℤ
  components : List TrendingComponent
  manipulation : ManipulationAssessment
deriving DecidableEq

def component (key : TrendingComponentKey) (kind : ComponentKind) (rawValue : Option ℤ)
    (normalizedBps : ℤ) (available : Bool) (reasons : List String) : TrendingComponent where
  key := key
  kind := kind
  rawValue := rawValue
  normalizedBps := clampBps normalizedBps
  weightBps := POSITIVE_WEIGHTS key
  contributionBps := (clampBps normalizedBps * POSITIVE_WEIGHTS key).tdiv 10000
  available := available
  reasons := reasons

/-- What an age in seconds is worth. -/
def ageWorth (age : Option ℤ) : ℤ :=
  match age with
  | none => 0
  | some age =>
    if age ≤ DAY_SECONDS then 10000
    else if age ≥ 30 * DAY_SECONDS then 1000
    else 10000 - ((age - DAY_SECONDS) * 9000).tdiv (29 * DAY_SECONDS)

def ageScore (parse : DateParse) (createdAt : Option String) (observedAt : String) : ℤ :=
  ageWorth (secondsBetween parse createdAt observedAt)

section Candidate

variable (p : Platform) (candidate : DiscoveryCandidate)

def lowLiquidityPenalty : ℤ :=
  match candidate.liquidityRaw with
  | none => 10000
  | some liquidity =>
    let minimum := candidate.manipulationContext.minimumHealthyLiquidityRaw
    if liquidity ≥ minimum then 0 else 10000 - ratioBps liquidity minimum

def holderConcentrationPenalty : ℤ :=
  match candidate.holderConcentrationBps with
  | none => 0
  | some concentration => if concentration ≤ 5000 then 0 else clampBps ((concentration - 5000) * 2)

def graduated : Bool :=
  candidate.launchpadState = .graduated || candidate.launchpadState = .migrated

/-- The components that count for a candidate. -/
def positiveComponents : List TrendingComponent :=
  [component .logScaledVolume .positive candidate.volumeRaw
      (logScaledBps candidate.volumeRaw candidate.volumeDecimals) candidate.volumeRaw.isSome [],
    component .uniqueTraders .positive candidate.uniqueTraders
      (ratioBps (candidate.uniqueTraders.getD 0) 500) candidate.uniqueTraders.isSome [],
    component .transactionAcceleration .positive candidate.transactionGrowthBps
      (signedGrowthScore candidate.transactionGrowthBps 20000)
      candidate.transactionGrowthBps.isSome [],
    component .holderGrowth .positive candidate.holderGrowth
      (ratioBps (candidate.holderGrowth.getD 0) 1000) candidate.holderGrowth.isSome [],
    component .liquidity .positive candidate.liquidityRaw
      (logScaledBps candidate.liquidityRaw candidate.liquidityDecimals)
      candidate.liquidityRaw.isSome [],
    component .liquidityGrowth .positive candidate.liquidityChangeBps
      (signedGrowthScore candidate.liquidityChangeBps 10000)
      candidate.liquidityChangeBps.isSome [],
    component .poolAge .positive
      (secondsBetween p.parse candidate.poolCreatedAt candidate.observedAt)
      (ageScore p.parse candidate.poolCreatedAt candidate.observedAt)
      candidate.poolCreatedAt.isSome [],
    component .tokenAge .positive
      (secondsBetween p.parse candidate.firstSeenAt candidate.observedAt)
      (ageScore p.parse candidate.firstSeenAt candidate.observedAt)
      candidate.firstSeenAt.isSome [],
    component .watchlistGrowth .positive candidate.watchlistGrowth
      (ratioBps (candidate.watchlistGrowth.getD 0) 100) candidate.watchlistGrowth.isSome [],
    component .alertCreationGrowth .positive candidate.alertCreationGrowth
      (ratioBps (candidate.alertCreationGrowth.getD 0) 50) candidate.alertCreationGrowth.isSome [],
    component .launchpadCurveProgress .positive candidate.launchpadCurveProgressBps
      (candidate.launchpadCurveProgressBps.getD 0) candidate.launchpadCurveProgressBps.isSome [],
    component .graduationStatus .positive (some (if graduated candidate then 1 else 0))
      (if graduated candidate then 10000 else 0) (candidate.launchpadState ≠ .none) [],
    component .riskCompleteness .positive candidate.riskCompletenessBps
      (candidate.riskCompletenessBps.getD 0) candidate.riskCompletenessBps.isSome []]

/-- The components that count against it. -/
def penaltyComponents (manipulation : ManipulationAssessment) : List TrendingComponent :=
  [component .washTradingPenalty .penalty (some manipulation.totalPenaltyBps)
      manipulation.totalPenaltyBps true
      ((manipulation.signals.filter fun item => item.status = .observed).map fun item =>
        reprStr item.code),
    component .holderConcentrationPenalty .penalty candidate.holderConcentrationBps
      (holderConcentrationPenalty candidate) candidate.holderConcentrationBps.isSome [],
    component .lowLiquidityPenalty .penalty candidate.liquidityRaw
      (lowLiquidityPenalty candidate) candidate.liquidityRaw.isSome
      (if candidate.liquidityRaw.isNone then ["LIQUIDITY_UNAVAILABLE"] else []),
    component .suspiciousDeployerPenalty .penalty
      (some candidate.suspiciousDeployerEvidence.length)
      (if 0 < candidate.suspiciousDeployerEvidence.length then 10000 else 0) true
      candidate.suspiciousDeployerEvidence,
    component .duplicateSymbolPenalty .penalty (some candidate.duplicateSymbolAddresses.length)
      (clampBps (candidate.duplicateSymbolAddresses.length * 2500)) true [],
    component .dataQualityPenalty .penalty (some candidate.dataQualityWarnings.length)
      (clampBps (candidate.dataQualityWarnings.length * 2000)) true candidate.dataQualityWarnings]

/-- `reduce((sum, item) => sum + f(item), 0n)`. -/
def sumOf (f : TrendingComponent → ℤ) (items : List TrendingComponent) : ℤ :=
  items.foldl (fun sum item => sum + f item) 0

def calculateTrendingScore : TrendingScore :=
  let manipulation := analyzeManipulation p candidate.recentTrades candidate.manipulationContext
  let components := positiveComponents p candidate ++ penaltyComponents candidate manipulation
  let positive := sumOf (·.contributionBps) (components.filter fun item => item.kind = .positive)
  let penalties := sumOf (·.contributionBps) (components.filter fun item => item.kind = .penalty)
  let availableWeight := sumOf (·.weightBps)
    (components.filter fun item => item.kind = .positive && item.available)
  let totalPositiveWeight := sumOf (·.weightBps)
    (components.filter fun item => item.kind = .positive)
  { methodologyVersion := TRENDING_METHODOLOGY_VERSION
    scoreBps := clampBps (positive - penalties)
    confidenceBps :=
      if totalPositiveWeight = 0 then 0
      else (availableWeight * manipulation.confidenceBps).tdiv totalPositiveWeight
    components := components
    manipulation := manipulation }

end Candidate

/-! ## Items -/

structure DiscoveryItem extends PublicCandidate where
  relatedWalletAddresses : List AddressText
  trending : TrendingScore
  dataFreshnessSeconds : ℤ
  warnings : List String
deriving DecidableEq

/-- The wallets that traded, each as its last trade in the list spells it. -/
def relatedWallets (p : Platform) (trades : List DiscoveryTrade) : List AddressText :=
  sortWallets p (OrderedMap.ofEntries (trades.map fun trade =>
    (trade.traderAddress.lower, trade.traderAddress))).values

def materializeDiscoveryItem (p : Platform) (candidate : DiscoveryCandidate) :
    Except String DiscoveryItem :=
  match p.parse candidate.sourceTimestamp, p.parse candidate.observedAt with
  | some sourceMs, some observedMs => .ok {
      toPublicCandidate := candidate.toPublicCandidate
      relatedWalletAddresses := relatedWallets p candidate.recentTrades
      trending := calculateTrendingScore p candidate
      dataFreshnessSeconds := max 0 ((observedMs - sourceMs) / 1000)
      warnings := candidate.dataQualityWarnings ++
        (if 0 < candidate.duplicateSymbolAddresses.length then ["DUPLICATE_SYMBOL"] else []) ++
        (if candidate.priceStatus = .unavailable then ["PRICE_UNAVAILABLE"] else []) ++
        (if candidate.holderCount = none then ["HOLDER_DATA_UNAVAILABLE"] else []) }
  | _, _ => .error "Discovery timestamps are invalid"

end Discovery

end HoodSentry
