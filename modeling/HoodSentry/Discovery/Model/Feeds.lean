import HoodSentry.Common.Sorting
import HoodSentry.Model.Chain
/-!
# Discovery feeds

`packages/discovery-engine/src/feeds.ts`: which items a feed has, and in what
order. Of an item are kept the fields the feeds read. Dates are compared as
texts by `localeCompare`; an address is kept by its value, whose order is that
of the lower-cased texts.
-/

namespace HoodSentry

namespace Feeds

/-- **`localeCompare`** of the platform: a consistent comparison of texts. -/
structure Collation where
  localeCompare : Comparator String
  lawful : localeCompare.Lawful

inductive DiscoveryFeed
  | newTokens
  | newPools
  | trending
  | volumeGainers
  | liquidityGainers
  | holderGainers
  | transactionActivityGainers
  | newlyGraduated
  | recentlyMigrated
  | recentlyVerifiedProjects
  | recentlyScanned
  | recentCriticalRisk
  | mostWatched
  | mostAlerted
deriving DecidableEq

inductive LaunchpadState
  | none
  | bondingCurve
  | graduated
  | migrated
deriving DecidableEq

structure TrendingScore where
  scoreBps : ℤ
  confidenceBps : ℤ
deriving DecidableEq

structure DiscoveryItem where
  address : Address
  canonical : Bool
  primaryPoolAddress : Option Address
  launchpadState : LaunchpadState
  projectVerified : Bool
  projectVerifiedAt : Option String
  firstSeenAt : Option String
  firstSeenBlockNumber : ℤ
  poolCreatedAt : Option String
  poolCreatedBlockNumber : Option ℤ
  trending : TrendingScore
  volumeChangeBps : Option ℤ
  liquidityChangeBps : Option ℤ
  holderGrowth : Option ℤ
  transactionGrowthBps : Option ℤ
  graduatedAt : Option String
  migratedAt : Option String
  lastScannedAt : Option String
  latestCriticalFindingAt : Option String
  watchlistCount : ℤ
  alertCount : ℤ
deriving DecidableEq

/-! ## Comparing -/

/-- The later date first. -/
def compareDate (collation : Collation) (left right : Option String) : ℤ :=
  if left = right then 0
  else
    match left, right with
    | none, _ => 1
    | _, none => -1
    | some left, some right => collation.localeCompare right left

/-- The larger number first. -/
def compareBigint (left right : Option ℤ) : ℤ :=
  if left = right then 0
  else
    match left, right with
    | none, _ => 1
    | _, none => -1
    | some left, some right => if left > right then -1 else 1

def tieBreak (left right : DiscoveryItem) : ℤ :=
  if left.address.value = right.address.value then 0
  else if left.address.value < right.address.value then -1 else 1

/-- `left || right` of two numbers. -/
def orNumber (left right : ℤ) : ℤ := if left ≠ 0 then left else right

def isEligibleForFeed (item : DiscoveryItem) (feed : DiscoveryFeed) : Bool :=
  if !item.canonical then false
  else
    match feed with
    | .newPools => item.primaryPoolAddress ≠ none
    | .newlyGraduated => item.launchpadState = .graduated ∨ item.launchpadState = .migrated
    | .recentlyMigrated => item.launchpadState = .migrated
    | .recentlyVerifiedProjects => item.projectVerified
    | .recentlyScanned => item.lastScannedAt ≠ none
    | .recentCriticalRisk => item.latestCriticalFindingAt ≠ none
    | _ => true

def compareForFeed (collation : Collation) (feed : DiscoveryFeed) (left right : DiscoveryItem) :
    ℤ :=
  let result :=
    match feed with
    | .newTokens =>
      orNumber (compareDate collation left.firstSeenAt right.firstSeenAt)
        (compareBigint (some left.firstSeenBlockNumber) (some right.firstSeenBlockNumber))
    | .newPools =>
      orNumber (compareDate collation left.poolCreatedAt right.poolCreatedAt)
        (compareBigint left.poolCreatedBlockNumber right.poolCreatedBlockNumber)
    | .trending =>
      orNumber (compareBigint (some left.trending.scoreBps) (some right.trending.scoreBps))
        (compareBigint (some left.trending.confidenceBps) (some right.trending.confidenceBps))
    | .volumeGainers => compareBigint left.volumeChangeBps right.volumeChangeBps
    | .liquidityGainers => compareBigint left.liquidityChangeBps right.liquidityChangeBps
    | .holderGainers => compareBigint left.holderGrowth right.holderGrowth
    | .transactionActivityGainers =>
      compareBigint left.transactionGrowthBps right.transactionGrowthBps
    | .newlyGraduated => compareDate collation left.graduatedAt right.graduatedAt
    | .recentlyMigrated => compareDate collation left.migratedAt right.migratedAt
    | .recentlyVerifiedProjects =>
      compareDate collation left.projectVerifiedAt right.projectVerifiedAt
    | .recentlyScanned => compareDate collation left.lastScannedAt right.lastScannedAt
    | .recentCriticalRisk =>
      compareDate collation left.latestCriticalFindingAt right.latestCriticalFindingAt
    | .mostWatched => compareBigint (some left.watchlistCount) (some right.watchlistCount)
    | .mostAlerted => compareBigint (some left.alertCount) (some right.alertCount)
  orNumber result (tieBreak left right)

/-- The items of a feed, sorted. -/
def rankFeed (collation : Collation) (feed : DiscoveryFeed) (items : List DiscoveryItem) :
    List DiscoveryItem :=
  (items.filter fun item => isEligibleForFeed item feed).insertionSort
    fun left right => compareForFeed collation feed left right ≤ 0

end Feeds

end HoodSentry
