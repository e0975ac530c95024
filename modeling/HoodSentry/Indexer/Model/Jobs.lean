import HoodSentry.Model.Chain
/-!
# Derived jobs

The work a block gives rise to: the discovery jobs read off its bodies
(`TokenDiscoveryHandler`) and the oracle jobs of the enabled Chainlink
sources (`ChainlinkJobProducer`).
-/

namespace HoodSentry

/-- `DERIVED_JOB_TYPES`. -/
inductive DerivedJobType
  | contractCreation | tokenTransfer | tokenApproval
  | poolRefresh | tokenMetadata | riskAnalysis
  | newPriceObservation | marketMetric | walletActivity | alertEvaluation
  | sourceReconciliation | liquidityMetric | protocolEnrichment
  | bondingCurveMigrationTransition
  | discoveryRefresh
deriving DecidableEq

inductive LiquidityEventType
  | liquidityAdded | liquidityRemoved | lpMinted | lpBurned | positionCreated
  | positionIncreased | positionDecreased | feesCollected | bondingCurveLiquidity
  | migrationLiquidity
deriving DecidableEq

/-- `eventType` where a job's data carries one. -/
inductive JobEventType
  | tokenTransfer | tokenApproval | swap | liquidity (type : LiquidityEventType)
  | launchpadTrade | launchpadMigration
deriving DecidableEq

/-- The data common to the two ERC-20 events. -/
structure TokenEventData where
  transactionHash : Hash
  logIndex : ℕ
  tokenAddress : Address
  valueRaw : ℕ
deriving DecidableEq

/-- The fields a job about a protocol event is identified by. -/
structure ProtocolEventData where
  protocolKey : String
  protocolVersion : String
  transactionHash : Hash
  logIndex : ℕ
deriving DecidableEq

/-- The `data` of a job, one constructor for each shape it takes. -/
inductive JobData
  | contractCreation (transactionHash : Hash) (contractAddress creatorAddress : Address)
      (nonce : ℕ)
  | tokenTransfer (shared : TokenEventData) (fromAddress toAddress : Address)
      (eventType : Option JobEventType)
  | tokenApproval (shared : TokenEventData) (ownerAddress spenderAddress : Address)
      (eventType : Option JobEventType)
  | token (tokenAddress : Address)
  | chainlinkSource (sourceKey : String) (sourceContractAddress sourceAssetAddress
      quoteAssetAddress : Address) (oracleHeartbeatSeconds : ℕ)
      (sequencerFeedAddress : Option Address)
  | pool (event : ProtocolEventData) (poolAddress token0Address token1Address : Address)
      (tokenAddress : Option Address) (eventType : Option JobEventType)
  | swap (event : ProtocolEventData) (poolAddress : Address) (eventType : JobEventType)
  | launchpad (event : ProtocolEventData) (tokenAddress : Address)
      (eventType : Option JobEventType)
  | launchpadMigration (event : ProtocolEventData) (tokenAddress : Address)
      (destinationProtocolKey : String) (destinationPoolAddress poolAddress : Address)
      (eventType : JobEventType)
deriving DecidableEq

structure DerivedJob where
  type : DerivedJobType
  chainId : ℕ
  blockNumber : ℕ
  blockHash : Hash
  data : JobData
deriving DecidableEq

/-! ## Discovery -/

def ERC20_TRANSFER_TOPIC : Hex :=
  ⟨64, 0xddf252ad1be2c89b69c2b068fc378daa952ba7f163c4a11628f55a4df523b3ef⟩

def ERC20_APPROVAL_TOPIC : Hex :=
  ⟨64, 0x8c5be1e5ebec7d5bd14f70ef71315f9003819d0370313b11d1b585155b528b34⟩

/-- The last 20 bytes of a topic, when it is a word. -/
def addressFromTopic (topic : Option Hex) : Option Address :=
  match topic with
  | none => none
  | some topic => if topic.isWord then some ⟨topic.value % 16 ^ 40⟩ else none

/-- Successful creations: a transaction to nobody whose receipt names the
contract. -/
def createContractDiscoveryJobs (cfg : IndexerConfig) (b : BlockData) (blockNumber : ℕ)
    (blockHash : Hash) : List DerivedJob :=
  b.transactions.filterMap fun transaction =>
    if transaction.toAddress.isSome then none
    else
      match b.receipts.reverse.find? fun r => r.transactionHash = transaction.hash with
      | none => none
      | some receipt =>
        if receipt.success then
          receipt.contractAddress.map fun contractAddress =>
            { type := .contractCreation
              chainId := cfg.chainId
              blockNumber := blockNumber
              blockHash := blockHash
              data := .contractCreation transaction.hash contractAddress
                transaction.fromAddress transaction.nonce }
        else none

/-- The jobs of one log. A log that is not a well-formed ERC-20 transfer
or approval has none. -/
def createTokenEventJobs (cfg : IndexerConfig) (log : Log) (blockNumber : ℕ)
    (blockHash : Hash) : List DerivedJob :=
  let topic0 := log.topics[0]?
  let job (type : DerivedJobType) (data : JobData) : DerivedJob :=
    { type := type
      chainId := cfg.chainId
      blockNumber := blockNumber
      blockHash := blockHash
      data := data }
  if topic0 ≠ some ERC20_TRANSFER_TOPIC ∧ topic0 ≠ some ERC20_APPROVAL_TOPIC then []
  else
    match log.transactionHash, log.logIndex with
    | some transactionHash, some logIndex =>
      if log.topics.length ≠ 3 ∨ !log.data.isWord then []
      else
        match addressFromTopic log.topics[1]?, addressFromTopic log.topics[2]? with
        | some first, some second =>
          let shared : TokenEventData := ⟨transactionHash, logIndex, log.address, log.data.value⟩
          if topic0 = some ERC20_TRANSFER_TOPIC then
            [job .tokenTransfer (.tokenTransfer shared first second none),
              job .alertEvaluation (.tokenTransfer shared first second (some .tokenTransfer)),
              job .walletActivity (.tokenTransfer shared first second (some .tokenTransfer))]
          else
            [job .tokenApproval (.tokenApproval shared first second none),
              job .alertEvaluation (.tokenApproval shared first second (some .tokenApproval))]
        | _, _ => []
    | _, _ => []

/-- The token a `token-transfer` job moves. -/
def DerivedJob.transferredToken (job : DerivedJob) : Option Address :=
  match job.type, job.data with
  | .tokenTransfer, .tokenTransfer shared _ _ _ => some shared.tokenAddress
  | _, _ => none

/-- Metadata and a discovery refresh for each token the block's transfers
move, once a token. -/
def createTokenFollowUpJobs (cfg : IndexerConfig) (jobs : List DerivedJob) (blockNumber : ℕ)
    (blockHash : Hash) : List DerivedJob :=
  (jobs.filterMap DerivedJob.transferredToken).eraseDups.flatMap fun tokenAddress =>
    [{ type := .tokenMetadata
       chainId := cfg.chainId
       blockNumber := blockNumber
       blockHash := blockHash
       data := .token tokenAddress },
     { type := .discoveryRefresh
       chainId := cfg.chainId
       blockNumber := blockNumber
       blockHash := blockHash
       data := .token tokenAddress }]

/-- `detectNewContractsAndTokens`. -/
def detectNewContractsAndTokens (cfg : IndexerConfig) (b : BlockData) : List DerivedJob :=
  match b.block.number, b.block.hash with
  | some blockNumber, some blockHash =>
    let jobs := createContractDiscoveryJobs cfg b blockNumber blockHash ++
      b.logs.flatMap fun log => createTokenEventJobs cfg log blockNumber blockHash
    jobs ++ createTokenFollowUpJobs cfg jobs blockNumber blockHash
  | _, _ => []

/-! ## Oracle jobs -/

/-- The fields of a price source the producer reads. -/
structure PriceSourceConfig where
  sourceKey : String
  /-- `sourceType` is `chainlink`. -/
  isChainlink : Bool
  enabled : Bool
  sourceContractAddress : Option Address
  sourceAssetAddress : Address
  quoteAssetAddress : Address
  oracleHeartbeatSeconds : Option ℕ
  sequencerFeedAddress : Option Address
deriving DecidableEq

/-- `publishJobsForBlock`: one job for each enabled Chainlink source that
names its contract and heartbeat. -/
def chainlinkJobs (cfg : IndexerConfig) (sources : List PriceSourceConfig) (blockNumber : ℕ)
    (blockHash : Hash) : List DerivedJob :=
  sources.filterMap fun source =>
    if source.enabled && source.isChainlink then
      match source.sourceContractAddress, source.oracleHeartbeatSeconds with
      | some contract, some heartbeat => some {
          type := .newPriceObservation
          chainId := cfg.chainId
          blockNumber := blockNumber
          blockHash := blockHash
          data := .chainlinkSource source.sourceKey contract source.sourceAssetAddress
            source.quoteAssetAddress heartbeat source.sequencerFeedAddress }
      | _, _ => none
    else none

end HoodSentry
