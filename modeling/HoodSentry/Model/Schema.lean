import HoodSentry.Common.Table
import HoodSentry.Model.Chain
/-!
# The tables

One row type for each table the modelled statements touch, and the key
its primary or unique index declares. Columns the database fills in by
itself (identity ids, `created_at`, `updated_at`) are left out.
-/

namespace HoodSentry

structure BlockRow where
  chainId : ℕ
  number : ℕ
  hash : Hash
  parentHash : Hash
  timestamp : ℕ
  finalityState : FinalityState
  canonical : Bool
deriving DecidableEq

/-- `blocks` is keyed by chain, number and hash. -/
def BlockRow.key (r : BlockRow) : ℕ × ℕ × Hash := (r.chainId, r.number, r.hash)

structure TransactionRow where
  chainId : ℕ
  hash : Hash
  transactionIndex : ℕ
  blockNumber : ℕ
  blockHash : Hash
  fromAddress : Address
  toAddress : Option Address
  nonce : ℕ
  valueRaw : ℕ
  input : Hex
  status : ℕ
  gasUsed : ℕ
  effectiveGasPrice : ℕ
  contractCreated : Option Address
  canonical : Bool
deriving DecidableEq

/-- `transactions` is keyed by chain and hash: the block is not part of
the key. -/
def TransactionRow.key (r : TransactionRow) : ℕ × Hash := (r.chainId, r.hash)

structure ReceiptRow where
  chainId : ℕ
  transactionHash : Hash
  blockNumber : ℕ
  blockHash : Hash
  status : ℕ
  gasUsed : ℕ
  cumulativeGasUsed : ℕ
  logsCount : ℕ
deriving DecidableEq

/-- `transaction_receipts` is keyed by chain and transaction hash. -/
def ReceiptRow.key (r : ReceiptRow) : ℕ × Hash := (r.chainId, r.transactionHash)

structure LogRow where
  chainId : ℕ
  transactionHash : Hash
  transactionIndex : ℕ
  logIndex : ℕ
  blockHash : Hash
  blockNumber : ℕ
  address : Address
  topic0 : Option Hex
  topic1 : Option Hex
  topic2 : Option Hex
  topic3 : Option Hex
  data : Hex
  removed : Bool
  canonical : Bool
deriving DecidableEq

/-- `logs` is keyed by chain, transaction, log index and block. -/
def LogRow.key (r : LogRow) : ℕ × Hash × ℕ × Hash :=
  (r.chainId, r.transactionHash, r.logIndex, r.blockHash)

structure TransferRow where
  chainId : ℕ
  blockNumber : ℕ
  blockHash : Hash
  transactionHash : Hash
  logIndex : ℕ
  tokenAddress : Address
  fromAddress : Address
  toAddress : Address
  amountRaw : ℕ
  canonical : Bool
deriving DecidableEq

/-- `token_transfers` is unique on chain, block, transaction and log
index. -/
def TransferRow.key (r : TransferRow) : ℕ × Hash × Hash × ℕ :=
  (r.chainId, r.blockHash, r.transactionHash, r.logIndex)

structure BalanceRow where
  chainId : ℕ
  tokenAddress : Address
  walletAddress : Address
  balanceRaw : ℤ
  asOfBlock : ℕ
deriving DecidableEq

/-- `token_balances` is keyed by chain, token and wallet. -/
def BalanceRow.key (r : BalanceRow) : ℕ × Address × Address :=
  (r.chainId, r.tokenAddress, r.walletAddress)

structure Checkpoint where
  nextBlock : ℕ
  lastBlockHash : Option Hash
deriving DecidableEq

/-- A row of `reorg_events`; `resolved` says whether `resolved_at` is
set, which is all that is ever read of it. -/
structure ReorgEvent where
  id : ℕ
  chainId : ℕ
  fromBlock : ℕ
  toBlock : ℕ
  commonAncestorBlock : ℕ
  blocksOrphaned : ℕ
  resolved : Bool
deriving DecidableEq

/-- The tables derived from the facts that a reorg invalidates. -/
inductive DerivedTable
  | walletTokenLots | walletPnlSnapshots | walletCashFlows
  | swaps | liquidityEvents | launchpadTokens | launchpadTrades | launchpadCreatorFeeEvents
  | launchpadGraduations | launchpadMigrations | poolStateSnapshots | liquidityLockEvidence
  | pools | deterministicPriceObservations | marketCandles | marketMetrics
deriving DecidableEq

/-- What a derived row names and what invalidation writes of it: the block
it is filed under, the block its stored pool state came from, and the
flags. `active` is the `active` of a pool and the `authoritative` of a
price observation. -/
structure DerivedRow where
  chainId : ℕ
  sourceBlock : Option ℕ
  sourceBlockHash : Option Hash
  stateBlock : Option ℕ
  canonical : Bool
  active : Bool
deriving DecidableEq

/-- **The indexer's database.** -/
structure Db where
  blocks : Table BlockRow.key
  transactions : Table TransactionRow.key
  transactionReceipts : Table ReceiptRow.key
  logs : Table LogRow.key
  tokenTransfers : Table TransferRow.key
  derived : DerivedTable → List DerivedRow
  reorgEvents : List ReorgEvent
  checkpoint : Option Checkpoint

/-- The database before anything is indexed. -/
def Db.empty : Db := ⟨∅, ∅, ∅, ∅, ∅, fun _ => [], [], none⟩

end HoodSentry

/-!
## Market tables

The pools, swaps and prices the worker's processors read, and the
registry of quote assets. Times are in milliseconds.
-/

namespace HoodSentry

/-! ## Protocols and pools -/

inductive ProtocolValidationStatus
  | active | disabled | failed
deriving DecidableEq

structure DexProtocolRow where
  id : ℕ
  enabled : Bool
  validationStatus : ProtocolValidationStatus
  verificationSource : String
  verificationDate : ℕ
  validationExpiresAt : Option ℕ
deriving DecidableEq

structure PoolRow where
  chainId : ℕ
  address : Address
  protocolId : ℕ
  protocolKey : String
  protocolVersion : String
  token0Address : Address
  token1Address : Address
  poolType : String
  canonical : Bool
  active : Bool
deriving DecidableEq

/-- `pools` is keyed by chain and address. -/
def PoolRow.key (r : PoolRow) : ℕ × Address := (r.chainId, r.address)

structure PoolStateSnapshotRow where
  chainId : ℕ
  poolAddress : Address
  sourceBlockNumber : ℕ
  sourceBlockHash : Hash
  reserve0Raw : Option ℕ
  reserve1Raw : Option ℕ
  canonical : Bool
deriving DecidableEq

/-- `pool_state_snapshots` is keyed by chain, pool and block. -/
def PoolStateSnapshotRow.key (r : PoolStateSnapshotRow) : ℕ × Address × Hash :=
  (r.chainId, r.poolAddress, r.sourceBlockHash)

structure SwapRow where
  chainId : ℕ
  blockNumber : ℕ
  blockHash : Hash
  transactionHash : Hash
  logIndex : ℕ
  poolAddress : Address
  senderAddress : Option Address
  recipientAddress : Option Address
  tokenInAddress : Address
  tokenOutAddress : Address
  amountInRaw : ℕ
  amountOutRaw : ℕ
  canonical : Bool
deriving DecidableEq

/-- `swaps` is unique on chain, block, transaction and log index. -/
def SwapRow.key (r : SwapRow) : ℕ × Hash × Hash × ℕ :=
  (r.chainId, r.blockHash, r.transactionHash, r.logIndex)

structure TokenRow where
  chainId : ℕ
  address : Address
  decimals : Option ℕ
deriving DecidableEq

/-- `tokens` is keyed by chain and address. -/
def TokenRow.key (r : TokenRow) : ℕ × Address := (r.chainId, r.address)

/-! ## Quote assets -/

def MAINNET_CHAIN_ID : ℕ := 4663

structure CanonicalAssetEntry where
  key : String
  chainId : ℕ
  address : Address
  enabled : Bool
deriving DecidableEq

def USDG : Address := ⟨0x5fc5360D0400a0Fd4f2af552ADD042D716F1d168⟩

def WETH : Address := ⟨0x0Bd7D308f8E1639FAb988df18A8011f41EAcAD73⟩

def canonicalAssetRegistry : List CanonicalAssetEntry :=
  [⟨"weth", MAINNET_CHAIN_ID, WETH, true⟩, ⟨"usdg", MAINNET_CHAIN_ID, USDG, true⟩]

/-! ## Price observations -/

inductive PriceSourceType
  | chainlink | launchpadBondingCurve | stablecoinPool | wethRoute | directDex | multihop
  | externalProvider | unavailable
deriving DecidableEq

inductive PriceStatus
  | available | lowConfidence | unavailable
deriving DecidableEq

structure PriceRouteStep where
  protocolKey : String
  protocolVersion : String
  poolAddress : Address
  inputTokenAddress : Address
  outputTokenAddress : Address
deriving DecidableEq

/-- The key of a price source, with the parts the source joins by colons
kept apart. -/
inductive SourceKey
  | verifiedPool (chainId : ℕ) (poolAddress tokenAddress quoteAddress : Address)
  | named (name : String)
deriving DecidableEq

/-- What an observation's key names beside its source: the block, or the
time where there is none. -/
inductive ObservationPoint
  | block (hash : Hash)
  | time (timestamp : ℕ)
deriving DecidableEq

/-- Why an observation is not trusted in full. -/
inductive PriceReason
  | unverifiedProtocol | poolTokenMismatch | stalePoolState | invalidPoolReserves
  | unverifiedLaunchpad | curveDisabledAfterMigration | negativePrice | zeroPrice
  | sourceDisabled | staleObservation | thinLiquidity | extremePriceImpact
  | oneTransactionManipulation | abnormalPriceJump | stablecoinDepeg
  | missingSourceTimestamp | incompleteOracleRound | sequencerDown | sequencerGracePeriod
  | oraclePaused
  | other (text : String)
deriving DecidableEq

structure PriceObservationRow where
  observationKey : SourceKey × ObservationPoint
  chainId : ℕ
  tokenAddress : Address
  quoteAssetAddress : Address
  sourceKey : SourceKey
  sourceType : PriceSourceType
  sourceContractAddress : Option Address
  providerName : Option String
  poolAddress : Option Address
  route : List PriceRouteStep
  priceRaw : Option ℤ
  priceDecimals : ℕ
  sourceBlockNumber : Option ℕ
  sourceBlockHash : Option Hash
  sourceTimestamp : ℕ
  observedAt : ℕ
  liquidityDepthRaw : Option ℤ
  liquidityDepthDecimals : Option ℕ
  priceImpactBps : Option ℤ
  singleTransactionVolumeBps : Option ℤ
  confidenceBps : ℤ
  stale : Bool
  status : PriceStatus
  authoritative : Bool
  reasons : List PriceReason
  canonical : Bool
  methodologyVersion : String
  roundId : Option ℕ
  answeredInRound : Option ℕ
  oraclePaused : Bool
  sequencerUp : Option Bool
  sequencerRecoveredAt : Option ℕ
deriving DecidableEq

end HoodSentry
