import HoodSentry.Model.Schema
import HoodSentry.Worker.Model.Transfer
/-!
# Wallet activity

The `wallet-activity` processor: a job names the wallets, token and quote
asset its event concerns, and for each the whole projection is rebuilt
from the stored swaps and transfers. Lots are first in, first out; a swap
against another quote is seen only as its transfer. Payloads are the
parsed ones. Row ids are random and left out.
-/

namespace HoodSentry

/-! ## The facts read -/

/-- **The facts a projection is rebuilt from.** -/
structure WalletFacts where
  swaps : Table SwapRow.key
  tokenTransfers : Table TransferRow.key
  blocks : Table BlockRow.key
  pools : Table PoolRow.key
  dexProtocols : Table DexProtocolRow.id
  tokens : Table TokenRow.key
  priceObservations : Table PriceObservationRow.observationKey

/-! ## Jobs and targets -/

inductive WalletEventData
  | swap (transactionHash : Hash) (logIndex : ℕ) (poolAddress : Address)
  | tokenTransfer (transactionHash : Hash) (logIndex : ℕ)
      (tokenAddress fromAddress toAddress : Address)
deriving DecidableEq

structure WalletActivityJob where
  chainId : ℕ
  blockNumber : ℕ
  blockHash : Hash
  data : WalletEventData
deriving DecidableEq

@[ext] structure ProjectionTarget where
  walletAddress : Address
  tokenAddress : Address
  quoteAddress : Address
deriving DecidableEq

/-- The errors a job throws; the last is the unique index of the cash
flows. -/
inductive WalletError
  | canonicalSwapNotReady
  | canonicalTransferNotReady
  | sourceBlockNotReady
  | tokenMetadataNotReady
  | cashFlowConflict
deriving DecidableEq

def quoteRank (key : String) : ℕ :=
  if key = "usdg" then 0 else if key = "weth" then 1 else 2

/-- The quote assets of a chain, in order of preference. -/
def canonicalQuoteAddresses (chainId : ℕ) : List Address :=
  ((canonicalAssetRegistry.filter fun e => e.chainId = chainId && e.enabled).insertionSort
    fun left right => quoteRank left.key ≤ quoteRank right.key).map (·.address)

/-- The token and the quote asset of a swap, where exactly one side is a
quote asset. -/
def pairForSwap (chainId : ℕ) (tokenIn tokenOut : Address) : Option (Address × Address) :=
  let inputIsQuote := (canonicalQuoteAddresses chainId).contains tokenIn
  let outputIsQuote := (canonicalQuoteAddresses chainId).contains tokenOut
  if inputIsQuote = outputIsQuote then none
  else if inputIsQuote then some (tokenOut, tokenIn)
  else some (tokenIn, tokenOut)

/-- The wallet a trade is attributed to. -/
def walletForTrade (trade : SwapRow) (quote : Address) : Option Address :=
  if trade.tokenInAddress = quote then trade.recipientAddress.or trade.senderAddress
  else trade.senderAddress.or trade.recipientAddress

namespace WalletFacts

variable (f : WalletFacts)

/-- A pool that counts, of a protocol that counts. -/
def activePool (p : PoolRow) : Bool :=
  p.canonical && p.active && f.dexProtocols.rows.any fun d =>
    d.id = p.protocolId && d.enabled && d.validationStatus = .active

def quoteForToken (chainId : ℕ) (token : Address) : Option Address :=
  (canonicalQuoteAddresses chainId).find? fun quote => f.pools.rows.any fun p =>
    p.chainId = chainId && f.activePool p &&
      (p.token0Address = token && p.token1Address = quote ||
        p.token0Address = quote && p.token1Address = token)

/-- **The projections a job's event asks for.** -/
def targetsForEvent (job : WalletActivityJob) : Except WalletError (List ProjectionTarget) :=
  match job.data with
  | .swap transactionHash logIndex poolAddress =>
    match f.swaps.rows.find? fun s =>
      s.chainId = job.chainId && s.blockNumber = job.blockNumber && s.blockHash = job.blockHash &&
        s.transactionHash = transactionHash && s.logIndex = logIndex &&
        s.poolAddress = poolAddress && s.canonical with
    | none => .error .canonicalSwapNotReady
    | some trade =>
      match pairForSwap job.chainId trade.tokenInAddress trade.tokenOutAddress with
      | none => .ok []
      | some (token, quote) =>
        match walletForTrade trade quote with
        | none => .ok []
        | some wallet => .ok [⟨wallet, token, quote⟩]
  | .tokenTransfer transactionHash logIndex token fromAddress toAddress =>
    match f.tokenTransfers.rows.find? fun t =>
      t.chainId = job.chainId && t.blockNumber = job.blockNumber && t.blockHash = job.blockHash &&
        t.transactionHash = transactionHash && t.logIndex = logIndex &&
        t.tokenAddress = token && t.canonical with
    | none => .error .canonicalTransferNotReady
    | some _ =>
      match f.quoteForToken job.chainId token with
      | none => .ok []
      | some quote => .ok ((holders [fromAddress, toAddress]).map fun wallet => ⟨wallet, token, quote⟩)

end WalletFacts

/-! ## Selection of events -/

/-- An event of the projection, in the order of the chain. -/
inductive WalletEvent
  | buy (row : SwapRow)
  | sell (row : SwapRow)
  | transferIn (row : TransferRow)
  | transferOut (row : TransferRow)
deriving DecidableEq

namespace WalletEvent

def blockNumber : WalletEvent → ℕ
  | .buy row | .sell row => row.blockNumber
  | .transferIn row | .transferOut row => row.blockNumber

def logIndex : WalletEvent → ℕ
  | .buy row | .sell row => row.logIndex
  | .transferIn row | .transferOut row => row.logIndex

/-- A trade, bought where the quote asset went in. -/
def ofTrade (target : ProjectionTarget) (trade : SwapRow) : WalletEvent :=
  if trade.tokenInAddress = target.quoteAddress then .buy trade else .sell trade

def ofTransfer (target : ProjectionTarget) (t : TransferRow) : WalletEvent :=
  if t.toAddress = target.walletAddress then .transferIn t else .transferOut t

end WalletEvent

/-- The order of blocks, and of logs in a block. -/
def inChainOrder (left right : ℕ × ℕ) : Prop :=
  left.1 < right.1 ∨ left.1 = right.1 ∧ left.2 ≤ right.2

instance (left right : ℕ × ℕ) : Decidable (inChainOrder left right) :=
  inferInstanceAs (Decidable (_ ∨ _))

namespace WalletFacts

variable (f : WalletFacts) (chainId : ℕ) (target : ProjectionTarget)

/-- The wallet's trades of the token against the target's quote asset, in
pools that count. -/
def walletTrades : List SwapRow :=
  ((f.swaps.rows.filter fun s =>
    s.chainId = chainId && s.canonical &&
      (f.pools.rows.any fun p =>
        p.chainId = s.chainId && p.address = s.poolAddress && f.activePool p) &&
      (s.tokenInAddress = target.quoteAddress && s.tokenOutAddress = target.tokenAddress ||
        s.tokenInAddress = target.tokenAddress && s.tokenOutAddress = target.quoteAddress)).insertionSort
    fun left right =>
      inChainOrder (left.blockNumber, left.logIndex) (right.blockNumber, right.logIndex)).filter
    fun trade => walletForTrade trade target.quoteAddress = some target.walletAddress

/-- The wallet's transfers of the token. -/
def walletTransfers : List TransferRow :=
  (f.tokenTransfers.rows.filter fun t =>
    t.chainId = chainId && t.tokenAddress = target.tokenAddress && t.canonical &&
      (t.fromAddress = target.walletAddress || t.toAddress = target.walletAddress)).insertionSort
    fun left right =>
      inChainOrder (left.blockNumber, left.logIndex) (right.blockNumber, right.logIndex)

/-- The highest block of the selected events, or the job's own. -/
def projectionBlock (requestedBlock : ℕ) : ℕ :=
  ((f.walletTrades chainId target).map (·.blockNumber) ++
    (f.walletTransfers chainId target).map (·.blockNumber)).foldl max requestedBlock

/-- **The events of a projection**: the trades, and the transfers that are
not a trade's own. -/
def walletEvents : List WalletEvent :=
  let trades := f.walletTrades chainId target
  let transfers := (f.walletTransfers chainId target).filter fun t =>
    t.transactionHash ∉ trades.map (·.transactionHash) && t.fromAddress ≠ t.toAddress
  (trades.map (WalletEvent.ofTrade target) ++ transfers.map (WalletEvent.ofTransfer target)).insertionSort
    fun left right =>
      inChainOrder (left.blockNumber, left.logIndex) (right.blockNumber, right.logIndex)

end WalletFacts

/-! ## Lots -/

structure Lot where
  acquisitionTxHash : Hash
  acquisitionBlock : ℕ
  acquisitionBlockHash : Hash
  acquisitionLogIndex : ℕ
  amountRaw : ℕ
  remainingAmountRaw : ℕ
  /-- `none` where the lot was transferred in. -/
  totalCostRaw : Option ℕ
deriving DecidableEq

inductive FlowType
  | inflow | outflow
deriving DecidableEq

structure CashFlow where
  transactionHash : Hash
  logIndex : ℕ
  blockNumber : ℕ
  blockHash : Hash
  flowType : FlowType
  amountRaw : ℕ
deriving DecidableEq

/-- What `consumeLots` has done: the lots, their cost, what is left to
consume, and whether every cost was known. -/
structure Consumed where
  lots : List Lot
  costRaw : ℕ
  remaining : ℕ
  complete : Bool
deriving DecidableEq

/-- The loop of `consumeLots`, oldest lot first. -/
def consumeLoop (remaining : ℕ) : List Lot → Consumed
  | [] => ⟨[], 0, remaining, true⟩
  | lot :: lots =>
    if remaining = 0 then ⟨lot :: lots, 0, remaining, true⟩
    else if lot.remainingAmountRaw = 0 then
      let rest := consumeLoop remaining lots
      { rest with lots := lot :: rest.lots }
    else
      let used := if remaining < lot.remainingAmountRaw then remaining else lot.remainingAmountRaw
      let rest := consumeLoop (remaining - used) lots
      { lots := { lot with remainingAmountRaw := lot.remainingAmountRaw - used } :: rest.lots
        costRaw := (lot.totalCostRaw.map fun cost => cost * used / lot.amountRaw).getD 0 + rest.costRaw
        remaining := rest.remaining
        complete := lot.totalCostRaw.isSome && rest.complete }

/-- `consumeLots`: complete where the costs were known and nothing is
left to consume. -/
def consumeLots (lots : List Lot) (amountRaw : ℕ) : Consumed :=
  let consumed := consumeLoop amountRaw lots
  { consumed with complete := consumed.complete && consumed.remaining = 0 }

inductive WalletWarning
  | currentAuthoritativePriceUnavailable
  | incompleteAcquisitionHistory
  | openLotCostBasisUnknown
  | transferInCostBasisUnknown
deriving DecidableEq

/-- What the loop over the events carries. -/
structure WalletLedger where
  lots : List Lot
  cashFlows : List CashFlow
  warnings : List WalletWarning
  /-- `none` once a history was incomplete. -/
  realizedPnlRaw : Option ℤ
deriving DecidableEq

namespace WalletLedger

def empty : WalletLedger := ⟨[], [], [], some 0⟩

/-- The lots after a disposal, and what an incomplete one leaves. -/
def consume (s : WalletLedger) (consumed : Consumed) : WalletLedger :=
  if consumed.complete then { s with lots := consumed.lots }
  else { s with
    lots := consumed.lots
    warnings := .incompleteAcquisitionHistory :: s.warnings
    realizedPnlRaw := none }

/-- **One event.** -/
def apply (s : WalletLedger) : WalletEvent → WalletLedger
  | .buy row =>
    { s with
      lots := s.lots ++ [⟨row.transactionHash, row.blockNumber, row.blockHash, row.logIndex,
        row.amountOutRaw, row.amountOutRaw, some row.amountInRaw⟩]
      cashFlows := s.cashFlows ++ [⟨row.transactionHash, row.logIndex, row.blockNumber,
        row.blockHash, .outflow, row.amountInRaw⟩] }
  | .transferIn row =>
    { s with
      lots := s.lots ++ [⟨row.transactionHash, row.blockNumber, row.blockHash, row.logIndex,
        row.amountRaw, row.amountRaw, none⟩]
      warnings := .transferInCostBasisUnknown :: s.warnings }
  | .sell row =>
    let consumed := consumeLots s.lots row.amountInRaw
    let s := s.consume consumed
    { s with
      realizedPnlRaw := s.realizedPnlRaw.map fun pnl =>
        pnl + ((row.amountOutRaw : ℤ) - consumed.costRaw)
      cashFlows := s.cashFlows ++ [⟨row.transactionHash, row.logIndex, row.blockNumber,
        row.blockHash, .inflow, row.amountOutRaw⟩] }
  | .transferOut row => s.consume (consumeLots s.lots row.amountRaw)

end WalletLedger

/-! ## Rows -/

structure LotRow where
  chainId : ℕ
  walletAddress : Address
  tokenAddress : Address
  acquisitionTxHash : Hash
  acquisitionBlock : ℕ
  acquisitionBlockHash : Hash
  acquisitionLogIndex : ℕ
  amountRaw : ℕ
  unitCostRaw : Option ℕ
  unitCostDecimals : ℕ
  totalCostRaw : Option ℕ
  quoteAssetAddress : Address
  remainingAmountRaw : ℕ
  sourceBlock : ℕ
  sourceBlockHash : Hash
  canonical : Bool
deriving DecidableEq

structure CashFlowRow where
  chainId : ℕ
  walletAddress : Address
  tokenAddress : Address
  txHash : Hash
  logIndex : ℕ
  blockHash : Hash
  quoteAssetAddress : Address
  flowType : FlowType
  amountRaw : ℕ
  blockNumber : ℕ
  canonical : Bool
deriving DecidableEq

/-- `wallet_cash_flows` is unique on chain, wallet, transaction, log
index, token and flow. -/
def CashFlowRow.key (r : CashFlowRow) : ℕ × Address × Hash × ℕ × Address × FlowType :=
  (r.chainId, r.walletAddress, r.txHash, r.logIndex, r.tokenAddress, r.flowType)

structure PnlSnapshotRow where
  chainId : ℕ
  walletAddress : Address
  tokenAddress : Address
  snapshotBlock : ℕ
  balanceRaw : ℕ
  costBasisRaw : Option ℕ
  realizedPnlRaw : Option ℤ
  unrealizedPnlRaw : Option ℤ
  quoteAssetAddress : Address
  quoteDecimals : ℕ
  /-- In hundredths. -/
  confidence : ℕ
  incompleteHistory : Bool
  warnings : List WalletWarning
  sourceBlockHash : Hash
  canonical : Bool
deriving DecidableEq

/-- `wallet_pnl_snapshots` is unique on chain, wallet, token and block. -/
def PnlSnapshotRow.key (r : PnlSnapshotRow) : ℕ × Address × Address × ℕ :=
  (r.chainId, r.walletAddress, r.tokenAddress, r.snapshotBlock)

/-- **What a projection writes**: the rows that replace the wallet's lots
and cash flows of the token, and a snapshot. -/
structure Projection where
  chainId : ℕ
  requestedBlock : ℕ
  target : ProjectionTarget
  lots : List LotRow
  cashFlows : List CashFlowRow
  snapshot : PnlSnapshotRow
deriving DecidableEq

/-- The warnings of a snapshot, each once and sorted. -/
def sortedWarnings (warnings : List WalletWarning) : List WalletWarning :=
  [.currentAuthoritativePriceUnavailable, .incompleteAcquisitionHistory, .openLotCostBasisUnknown,
    .transferInCostBasisUnknown].filter (· ∈ warnings)

namespace WalletFacts

variable (f : WalletFacts) (chainId : ℕ) (target : ProjectionTarget)

def decimals (address : Address) : Option ℕ :=
  (f.tokens.rows.find? fun t => t.chainId = chainId && t.address = address).bind (·.decimals)

/-- The latest authoritative price up to a block. -/
def currentPrice (block : ℕ) : Option PriceObservationRow :=
  ((f.priceObservations.rows.filter fun p =>
    p.chainId = chainId && p.tokenAddress = target.tokenAddress &&
      p.quoteAssetAddress = target.quoteAddress && p.canonical && p.authoritative && !p.stale &&
      p.sourceBlockNumber.any (· ≤ block)).insertionSort
    fun left right => right.sourceBlockNumber.getD 0 ≤ left.sourceBlockNumber.getD 0).head?

/-- The ledger after the selected events. -/
def walletLedger : WalletLedger :=
  (f.walletEvents chainId target).foldl WalletLedger.apply .empty

end WalletFacts

namespace WalletLedger

variable (s : WalletLedger)

def remainingLots : List Lot := s.lots.filter fun lot => 0 < lot.remainingAmountRaw

def hasUnknownCost : Bool := s.remainingLots.any fun lot => lot.totalCostRaw.isNone

def costBasisRaw : Option ℕ :=
  if s.hasUnknownCost then none
  else some ((s.remainingLots.map fun lot =>
    lot.totalCostRaw.getD 0 * lot.remainingAmountRaw / lot.amountRaw).sum)

def balanceRaw : ℕ := (s.remainingLots.map (·.remainingAmountRaw)).sum

end WalletLedger

section Rows

variable (chainId : ℕ) (target : ProjectionTarget)

def Lot.row (lot : Lot) (tokenDecimals quoteDecimals sourceBlock : ℕ) (sourceBlockHash : Hash) :
    LotRow where
  chainId := chainId
  walletAddress := target.walletAddress
  tokenAddress := target.tokenAddress
  acquisitionTxHash := lot.acquisitionTxHash
  acquisitionBlock := lot.acquisitionBlock
  acquisitionBlockHash := lot.acquisitionBlockHash
  acquisitionLogIndex := lot.acquisitionLogIndex
  amountRaw := lot.amountRaw
  unitCostRaw := lot.totalCostRaw.map fun cost => cost * 10 ^ tokenDecimals / lot.amountRaw
  unitCostDecimals := quoteDecimals
  totalCostRaw := lot.totalCostRaw
  quoteAssetAddress := target.quoteAddress
  remainingAmountRaw := lot.remainingAmountRaw
  sourceBlock := sourceBlock
  sourceBlockHash := sourceBlockHash
  canonical := true

def CashFlow.row (flow : CashFlow) : CashFlowRow where
  chainId := chainId
  walletAddress := target.walletAddress
  tokenAddress := target.tokenAddress
  txHash := flow.transactionHash
  logIndex := flow.logIndex
  blockHash := flow.blockHash
  quoteAssetAddress := target.quoteAddress
  flowType := flow.flowType
  amountRaw := flow.amountRaw
  blockNumber := flow.blockNumber
  canonical := true

/-- The snapshot of a ledger at a price. -/
def WalletLedger.snapshot (s : WalletLedger) (price : Option PriceObservationRow)
    (tokenDecimals quoteDecimals sourceBlock : ℕ) (sourceBlockHash : Hash) : PnlSnapshotRow :=
  let priceRaw := price.bind fun p => if p.priceDecimals = quoteDecimals then p.priceRaw else none
  let currentValueRaw := priceRaw.map fun p => ((s.balanceRaw : ℤ) * p).tdiv (10 ^ tokenDecimals)
  let warnings := s.warnings ++
    (if s.hasUnknownCost then [.openLotCostBasisUnknown] else []) ++
    if priceRaw.isNone then [.currentAuthoritativePriceUnavailable] else []
  let incompleteHistory :=
    decide (WalletWarning.incompleteAcquisitionHistory ∈ warnings) || s.hasUnknownCost
  { chainId := chainId
    walletAddress := target.walletAddress
    tokenAddress := target.tokenAddress
    snapshotBlock := sourceBlock
    balanceRaw := s.balanceRaw
    costBasisRaw := s.costBasisRaw
    realizedPnlRaw := s.realizedPnlRaw
    unrealizedPnlRaw := currentValueRaw.bind fun value =>
      s.costBasisRaw.map fun cost => value - cost
    quoteAssetAddress := target.quoteAddress
    quoteDecimals := quoteDecimals
    confidence := if incompleteHistory then 50 else if currentValueRaw.isNone then 75 else 100
    incompleteHistory := incompleteHistory
    warnings := sortedWarnings warnings
    sourceBlockHash := sourceBlockHash
    canonical := true }

/-- **`projectTarget` up to its transaction.** -/
def WalletFacts.projectTarget (f : WalletFacts) (requestedBlock : ℕ) :
    Except WalletError Projection :=
  let projectionBlock := f.projectionBlock chainId target requestedBlock
  match f.blocks.rows.find? fun b =>
    b.chainId = chainId && b.number = projectionBlock && b.canonical with
  | none => .error .sourceBlockNotReady
  | some block =>
    match f.decimals chainId target.tokenAddress, f.decimals chainId target.quoteAddress with
    | some tokenDecimals, some quoteDecimals =>
      let ledger := f.walletLedger chainId target
      let cashFlows := ledger.cashFlows.map (·.row chainId target)
      if ¬(cashFlows.map CashFlowRow.key).Nodup then .error .cashFlowConflict
      else .ok
        { chainId := chainId
          requestedBlock := requestedBlock
          target := target
          lots := ledger.remainingLots.map
            (·.row chainId target tokenDecimals quoteDecimals projectionBlock block.hash)
          cashFlows := cashFlows
          snapshot := ledger.snapshot chainId target
            (f.currentPrice chainId target projectionBlock) tokenDecimals quoteDecimals
            projectionBlock block.hash }
    | _, _ => .error .tokenMetadataNotReady

end Rows

/-! ## Jobs -/

/-- The tables a job writes. -/
structure WalletTables where
  lots : List LotRow
  cashFlows : Table CashFlowRow.key
  snapshots : Table PnlSnapshotRow.key

/-- The transaction of a projection. -/
def WalletTables.write (s : WalletTables) (p : Projection) : WalletTables where
  lots := (s.lots.filter fun r => !(r.chainId = p.chainId &&
    r.walletAddress = p.target.walletAddress && r.tokenAddress = p.target.tokenAddress)) ++ p.lots
  cashFlows := (s.cashFlows.deleteWhere fun r => r.chainId = p.chainId &&
    r.walletAddress = p.target.walletAddress &&
      r.tokenAddress = p.target.tokenAddress).insertAll p.cashFlows
  snapshots := s.snapshots.upsert p.snapshot
    (fun old => { p.snapshot with
      chainId := old.chainId
      walletAddress := old.walletAddress
      tokenAddress := old.tokenAddress
      snapshotBlock := old.snapshotBlock }) fun _ => rfl

namespace WalletFacts

variable (f : WalletFacts)

/-- The projections of a list of targets, up to the first that throws, and
what it throws. -/
def projectTargets (chainId requestedBlock : ℕ) :
    List ProjectionTarget → List Projection × Option WalletError
  | [] => ([], none)
  | target :: targets =>
    match f.projectTarget chainId target requestedBlock with
    | .error e => ([], some e)
    | .ok p =>
      let rest := projectTargets chainId requestedBlock targets
      (p :: rest.1, rest.2)

/-- The projections a job writes, and what it throws. -/
def jobProjections (job : WalletActivityJob) : List Projection × Option WalletError :=
  match f.targetsForEvent job with
  | .error e => ([], some e)
  | .ok targets => f.projectTargets job.chainId job.blockNumber targets

/-- **A job**: each projection is written before the next is made. -/
def processWalletActivity (s : WalletTables) (job : WalletActivityJob) : WalletTables :=
  (f.jobProjections job).1.foldl WalletTables.write s

end WalletFacts

end HoodSentry
