import Mathlib.Data.Int.Order.Basic
import Mathlib.Data.Nat.Log
import HoodSentry.Chain.Model.Quotes
import HoodSentry.Common.OrderedMap
import HoodSentry.Common.Text
import HoodSentry.Discovery.Model.Feeds
/-!
# Arithmetic of the scores

`packages/discovery-engine/src/arithmetic.ts`. A bigint is an integer, whose
division goes toward zero; the decimals of an amount are an integral number.
`Date.parse` is a parameter: the milliseconds of a text that has a time.
-/

namespace HoodSentry

namespace Discovery

def clampBps (value : ℤ) : ℤ :=
  if value < 0 then 0 else if value > 10000 then 10000 else value

def ratioBps (value denominator : ℤ) : ℤ :=
  if denominator ≤ 0 then 0 else clampBps ((value * 10000).tdiv denominator)

def signedGrowthScore (value : Option ℤ) (fullScoreAtBps : ℤ) : ℤ :=
  match value with
  | none => 0
  | some value =>
    if value ≤ 0 ∨ fullScoreAtBps ≤ 0 then 0 else clampBps ((value * 10000).tdiv fullScoreAtBps)

/-- The loop of `integerLog2`: one bit of `current` a turn. -/
def integerLog2Loop (current result : ℤ) : ℤ :=
  if current > 0 then integerLog2Loop (current >>> (1 : ℕ)) (result + 1) else result
termination_by current.toNat
decreasing_by
  rw [Int.shiftRight_eq_div_pow]
  omega

def integerLog2 (value : ℤ) : ℤ := if value ≤ 1 then 0 else integerLog2Loop value (-1)

def logScaledBps (value decimals : Option ℤ) : ℤ :=
  match value, decimals with
  | some value, some decimals =>
    if value ≤ 0 ∨ decimals < 0 then 0
    else
      let wholeUnits := value.tdiv (10 ^ decimals.toNat)
      clampBps ((integerLog2 (wholeUnits + 1) * 10000).tdiv 32)
  | _, _ => 0

/-- **`Date.parse`**: none for a text that it reads as `NaN`. -/
abbrev DateParse := String → Option ℤ

/-- Whole seconds, and none before the earlier time. -/
def secondsBetween (parse : DateParse) (earlier : Option String) (later : String) : Option ℤ :=
  match earlier.bind parse, parse later with
  | some earlierMs, some laterMs => some (max 0 ((laterMs - earlierMs) / 1000))
  | _, _ => none

/-! ## Bounds -/

theorem clampBps_nonneg (value : ℤ) : 0 ≤ clampBps value := by
  unfold clampBps
  split_ifs <;> omega

theorem clampBps_le (value : ℤ) : clampBps value ≤ 10000 := by
  unfold clampBps
  split_ifs <;> omega

theorem clampBps_mono {a b : ℤ} (h : a ≤ b) : clampBps a ≤ clampBps b := by
  unfold clampBps
  split_ifs <;> omega

theorem ratioBps_nonneg (value denominator : ℤ) : 0 ≤ ratioBps value denominator := by
  unfold ratioBps
  split_ifs
  · exact le_rfl
  · exact clampBps_nonneg _

theorem ratioBps_le (value denominator : ℤ) : ratioBps value denominator ≤ 10000 := by
  unfold ratioBps
  split_ifs
  · omega
  · exact clampBps_le _

/-! ## Monotonicity -/

theorem ratioBps_mono {a b : ℤ} (denominator : ℤ) (h : a ≤ b) :
    ratioBps a denominator ≤ ratioBps b denominator := by
  unfold ratioBps
  split_ifs with hden
  · exact le_rfl
  · exact clampBps_mono (Int.tdiv_le_tdiv (not_le.mp hden) (by omega))

end Discovery

end HoodSentry

/-!
## Manipulation signals

`packages/discovery-engine/src/manipulation.ts`: nine detectors over the
canonical trades of a token. An address keeps its spelling, since a set of
wallets tells two spellings apart; its lower-cased digits are what wallets are
compared by. `getAddress`, `Date.parse` and `localeCompare` are parameters.
-/

namespace HoodSentry

namespace Discovery

/-! ## Trades -/

inductive TradeSide
  | buy
  | sell
deriving DecidableEq

structure DiscoveryTrade where
  transactionHash : String
  blockNumber : ℤ
  blockHash : String
  logIndex : ℤ
  timestamp : String
  senderAddress : Option AddressText
  recipientAddress : Option AddressText
  traderAddress : AddressText
  counterpartyAddress : Option AddressText
  side : TradeSide
  quoteAmountRaw : ℤ
  canonical : Bool
deriving DecidableEq

structure ManipulationContext where
  liquidityRaw : Option ℤ
  minimumHealthyLiquidityRaw : ℤ
  tinyTradeThresholdRaw : ℤ
  priceImpactBps : Option ℤ
  sybilClusterWallets : List (List AddressText)
  launchpad : Bool
deriving DecidableEq

inductive ManipulationSignalCode
  | SELF_TRADING
  | REPEATED_WALLET_PAIR
  | ONE_WALLET_VOLUME_CONCENTRATION
  | CIRCULAR_WALLET_VOLUME
  | RAPID_BUY_SELL_LOOP
  | TINY_TRADE_COUNT_INFLATION
  | THIN_POOL_PRICE_MANIPULATION
  | SYBIL_LIKE_WALLET_CLUSTER
  | LAUNCHPAD_BOT_ACTIVITY
deriving DecidableEq, Repr

inductive SignalStatus
  | observed
  | notObserved
  | insufficientData
deriving DecidableEq

structure ManipulationEvidence where
  code : ManipulationSignalCode
  status : SignalStatus
  confidenceBps : ℤ
  penaltyBps : ℤ
  transactionHashes : List String
  walletAddresses : List AddressText
  facts : List (String × String)
deriving DecidableEq

structure ManipulationAssessment where
  methodologyVersion : String
  confidenceBps : ℤ
  totalPenaltyBps : ℤ
  signals : List ManipulationEvidence
deriving DecidableEq

/-- **What the engine takes from outside**: viem and the platform. -/
structure Platform where
  parse : DateParse
  getAddress : List Char → AddressText
  collation : Feeds.Collation

/-! ## Evidence -/

structure MutableEvidence where
  transactions : OrderedSet String
  wallets : OrderedSet AddressText
  facts : List (String × String)

def emptyEvidence : MutableEvidence := ⟨∅, ∅, []⟩

namespace MutableEvidence

def addTransaction (evidence : MutableEvidence) (hash : String) : MutableEvidence :=
  { evidence with transactions := evidence.transactions.add hash }

def addWallet (evidence : MutableEvidence) (wallet : AddressText) : MutableEvidence :=
  { evidence with wallets := evidence.wallets.add wallet }

def setFact (evidence : MutableEvidence) (name value : String) : MutableEvidence :=
  { evidence with facts := evidence.facts ++ [(name, value)] }

end MutableEvidence

/-- `sort()` of texts: by their units. -/
def sortTexts (texts : List String) : List String :=
  texts.insertionSort fun left right => utf16 left ≤ utf16 right

/-- `sort` by `localeCompare`. -/
def sortWallets (p : Platform) (wallets : List AddressText) : List AddressText :=
  wallets.insertionSort fun left right => p.collation.localeCompare left.text right.text ≤ 0

def signal (p : Platform) (code : ManipulationSignalCode) (observed sufficient : Bool)
    (confidenceBps penaltyBps : ℤ) (evidence : MutableEvidence) : ManipulationEvidence where
  code := code
  status := if sufficient then if observed then .observed else .notObserved else .insufficientData
  confidenceBps := if sufficient then clampBps confidenceBps else 0
  penaltyBps := if observed && sufficient then clampBps penaltyBps else 0
  transactionHashes := sortTexts evidence.transactions.rows
  walletAddresses := sortWallets p evidence.wallets.rows
  facts := evidence.facts

/-- By block, and by log within a block. -/
def compareTrades (left right : DiscoveryTrade) : ℤ :=
  if left.blockNumber ≠ right.blockNumber then
    if left.blockNumber < right.blockNumber then -1 else 1
  else left.logIndex - right.logIndex

def canonicalTrades (input : List DiscoveryTrade) : List DiscoveryTrade :=
  (input.filter (·.canonical)).insertionSort fun left right => compareTrades left right ≤ 0

abbrev WalletTradeMap := OrderedMap (List Char) (List DiscoveryTrade)

/-- `group.push(trade)` on the group of a key, which may be a new one. -/
def pushTrade {κ : Type} [DecidableEq κ] (groups : OrderedMap κ (List DiscoveryTrade)) (key : κ)
    (trade : DiscoveryTrade) : OrderedMap κ (List DiscoveryTrade) :=
  groups.set key ((groups.get? key).getD [] ++ [trade])

def groupTradesByWallet (trades : List DiscoveryTrade) : WalletTradeMap :=
  trades.foldl (fun groups trade => pushTrade groups trade.traderAddress.lower trade) ∅

/-! ## Detectors -/

section Detectors

variable (p : Platform) (trades : List DiscoveryTrade)

def detectSelfTrading : ManipulationEvidence :=
  let evidence := trades.foldl (fun evidence trade =>
    match trade.senderAddress, trade.recipientAddress with
    | some sender, some recipient =>
      if sender.lower ≠ recipient.lower then evidence
      else (evidence.addTransaction trade.transactionHash).addWallet sender
    | _, _ => evidence) emptyEvidence
  signal p .SELF_TRADING (0 < evidence.transactions.size) (0 < trades.length) 9500 1800
    (evidence.setFact "count" (toString evidence.transactions.size))

/-- The two wallets of a trade in the order of their texts. -/
def pairOf (trader counterparty : AddressText) : List String :=
  sortTexts [String.ofList trader.lower, String.ofList counterparty.lower]

def pairCounts : OrderedMap (List String) (List DiscoveryTrade) :=
  trades.foldl (fun counts trade =>
    match trade.counterpartyAddress with
    | none => counts
    | some counterparty => pushTrade counts (pairOf trade.traderAddress counterparty) trade) ∅

def detectRepeatedPairs : ManipulationEvidence :=
  let evidence := (pairCounts trades).values.foldl (fun evidence group =>
    if group.length < 4 then evidence
    else group.foldl (fun evidence trade =>
      let evidence := (evidence.addTransaction trade.transactionHash).addWallet trade.traderAddress
      match trade.counterpartyAddress with
      | none => evidence
      | some counterparty => evidence.addWallet counterparty) evidence) emptyEvidence
  signal p .REPEATED_WALLET_PAIR (0 < evidence.transactions.size) (4 ≤ trades.length) 8000 900
    (evidence.setFact "repeatedTransactionCount" (toString evidence.transactions.size))

structure WalletVolume where
  address : AddressText
  volume : ℤ
  hashes : List String

def walletVolumes : OrderedMap (List Char) WalletVolume :=
  trades.foldl (fun volumes trade =>
    let key := trade.traderAddress.lower
    let current := (volumes.get? key).getD ⟨trade.traderAddress, 0, []⟩
    volumes.set key { current with
      volume := current.volume + trade.quoteAmountRaw
      hashes := current.hashes ++ [trade.transactionHash] }) ∅

def detectVolumeConcentration (totalVolume : ℤ) : ManipulationEvidence :=
  let top := ((walletVolumes trades).values.insertionSort fun left right =>
    left.volume ≥ right.volume).head?
  let concentrationBps := (top.map fun top => ratioBps top.volume totalVolume).getD 0
  let evidence :=
    match top with
    | some top =>
      if 7500 ≤ concentrationBps then
        top.hashes.foldl MutableEvidence.addTransaction (emptyEvidence.addWallet top.address)
      else emptyEvidence
    | none => emptyEvidence
  signal p .ONE_WALLET_VOLUME_CONCENTRATION (7500 ≤ concentrationBps)
    (3 ≤ trades.length && 0 < totalVolume) 9000 ((concentrationBps * 2000).tdiv 10000)
    (evidence.setFact "topWalletVolumeBps" (toString concentrationBps))

/-- Milliseconds from one time to another, where both are read. -/
def timeDifference (earlier later : String) : Option ℤ :=
  match p.parse earlier, p.parse later with
  | some earlierMs, some laterMs => some (laterMs - earlierMs)
  | _, _ => none

def isWithin (limit : ℤ) (difference : Option ℤ) : Bool :=
  difference.any fun difference => 0 ≤ difference && difference ≤ limit

def detectRapidLoops (groups : WalletTradeMap) : ManipulationEvidence :=
  let evidence := groups.values.foldl (fun evidence walletTrades =>
    (walletTrades.zip walletTrades.tail).foldl (fun evidence pair =>
      let (previous, current) := pair
      if previous.side = current.side then evidence
      else if !isWithin 120000 (timeDifference p previous.timestamp current.timestamp) then evidence
      else ((evidence.addTransaction previous.transactionHash).addTransaction
        current.transactionHash).addWallet current.traderAddress) evidence) emptyEvidence
  signal p .RAPID_BUY_SELL_LOOP (2 ≤ evidence.transactions.size) (2 ≤ trades.length) 8500 1200
    (evidence.setFact "loopTransactionCount" (toString evidence.transactions.size))

def detectTinyTrades (threshold : ℤ) : ManipulationEvidence :=
  let evidence := trades.foldl (fun evidence trade =>
    if trade.quoteAmountRaw > threshold then evidence
    else (evidence.addTransaction trade.transactionHash).addWallet trade.traderAddress)
    emptyEvidence
  let shareBps := ratioBps evidence.transactions.size trades.length
  signal p .TINY_TRADE_COUNT_INFLATION (6000 ≤ shareBps) (5 ≤ trades.length) 8000
    ((shareBps * 1500).tdiv 10000) (evidence.setFact "tradeShareBps" (toString shareBps))

/-- The digits of a bigint that there is. -/
def amountFact (amount : Option ℤ) : String := (amount.map toString).getD "unavailable"

def detectThinPool (context : ManipulationContext) : ManipulationEvidence :=
  let liquidityThin := context.liquidityRaw.any (· < context.minimumHealthyLiquidityRaw)
  let impactHigh := context.priceImpactBps.any (1000 ≤ ·)
  signal p .THIN_POOL_PRICE_MANIPULATION (liquidityThin && impactHigh)
    (context.liquidityRaw.isSome && context.priceImpactBps.isSome) 9000 1800
    ((emptyEvidence.setFact "liquidityRaw" (amountFact context.liquidityRaw)).setFact
      "priceImpactBps" (amountFact context.priceImpactBps))

def detectSybilClusters (clusters : List (List AddressText)) : ManipulationEvidence :=
  let activeWallets : OrderedSet (List Char) :=
    (trades.map fun trade => trade.traderAddress.lower).foldl OrderedSet.add ∅
  let evidence := clusters.foldl (fun (evidence : MutableEvidence) (cluster : List AddressText) =>
    let activeCluster := cluster.filter fun wallet => activeWallets.has wallet.lower
    if activeCluster.length < 3 then evidence
    else activeCluster.foldl MutableEvidence.addWallet evidence) emptyEvidence
  signal p .SYBIL_LIKE_WALLET_CLUSTER (3 ≤ evidence.wallets.size) (0 < clusters.length) 7500 1000
    (evidence.setFact "clusteredWalletCount" (toString evidence.wallets.size))

abbrev TradeEdges := OrderedMap (List Char) (OrderedSet (List Char))

/-- The wallets each wallet traded with. -/
def tradeEdges : TradeEdges :=
  trades.foldl (fun edges trade =>
    match trade.counterpartyAddress with
    | none => edges
    | some counterparty =>
      let source := trade.traderAddress.lower
      edges.set source (((edges.get? source).getD ∅).add counterparty.lower)) ∅

def circularEvidence : MutableEvidence :=
  let edges := tradeEdges trades
  edges.rows.foldl (fun evidence entry =>
    entry.2.rows.foldl (fun evidence second =>
      ((edges.get? second).getD ∅).rows.foldl (fun evidence third =>
        if (edges.get? third).any (·.has entry.1) then
          ((evidence.addWallet (p.getAddress entry.1)).addWallet (p.getAddress second)).addWallet
            (p.getAddress third)
        else evidence) evidence) evidence) emptyEvidence

def detectCircularVolume : ManipulationEvidence :=
  let evidence := circularEvidence p trades
  signal p .CIRCULAR_WALLET_VOLUME (3 ≤ evidence.wallets.size) (3 ≤ trades.length) 7500 1000
    (evidence.setFact "cycleWalletCount" (toString evidence.wallets.size))

def isLaunchpadBurst (walletTrades : List DiscoveryTrade) : Bool :=
  if walletTrades.length < 5 then false
  else
    match walletTrades.head?, walletTrades.getLast? with
    | some first, some last => isWithin 60000 (timeDifference p first.timestamp last.timestamp)
    | _, _ => false

def detectLaunchpadBots (groups : WalletTradeMap) (launchpad : Bool) : ManipulationEvidence :=
  let evidence :=
    if launchpad then
      groups.values.foldl (fun evidence walletTrades =>
        if !isLaunchpadBurst p walletTrades then evidence
        else walletTrades.foldl (fun evidence trade =>
          (evidence.addTransaction trade.transactionHash).addWallet trade.traderAddress) evidence)
        emptyEvidence
    else emptyEvidence
  signal p .LAUNCHPAD_BOT_ACTIVITY (5 ≤ evidence.transactions.size)
    (launchpad && 5 ≤ trades.length) 7500 900
    (evidence.setFact "burstTransactionCount" (toString evidence.transactions.size))

end Detectors

/-! ## The assessment -/

def MANIPULATION_METHODOLOGY_VERSION : String := "manipulation-v1"

/-- The signals of trades that are canonical and sorted. -/
def manipulationSignals (p : Platform) (trades : List DiscoveryTrade)
    (context : ManipulationContext) : List ManipulationEvidence :=
  let totalVolume := trades.foldl (fun sum trade => sum + trade.quoteAmountRaw) 0
  let groups := groupTradesByWallet trades
  [detectSelfTrading p trades, detectRepeatedPairs p trades,
    detectVolumeConcentration p trades totalVolume, detectRapidLoops p trades groups,
    detectTinyTrades p trades context.tinyTradeThresholdRaw, detectThinPool p context,
    detectSybilClusters p trades context.sybilClusterWallets, detectCircularVolume p trades,
    detectLaunchpadBots p trades groups context.launchpad]

def analyzeManipulation (p : Platform) (inputTrades : List DiscoveryTrade)
    (context : ManipulationContext) : ManipulationAssessment :=
  let signals := manipulationSignals p (canonicalTrades inputTrades) context
  let observed := signals.filter fun item => item.status = .observed
  let assessed := signals.filter fun item => item.status ≠ .insufficientData
  { methodologyVersion := MANIPULATION_METHODOLOGY_VERSION
    confidenceBps := ((assessed.length : ℤ) * 10000).tdiv signals.length
    totalPenaltyBps := clampBps (observed.foldl (fun sum item => sum + item.penaltyBps) 0)
    signals := signals }

end Discovery

end HoodSentry
