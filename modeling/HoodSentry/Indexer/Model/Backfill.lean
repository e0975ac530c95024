import HoodSentry.Common.Workers
import HoodSentry.Indexer.Model.Live
/-!
# The block fetcher

`BlockFetcher` over the calls of its RPC client. A call that throws is
`none`; a fetch is `none` where it throws in turn. The catch-up windows of
the live loop are the ones here, once everything the client answers is
read.
-/

namespace HoodSentry

/-! ## The client -/

/-- A block as the client answers it. -/
structure RpcBlock where
  header : Block
  transactions : List Transaction
deriving DecidableEq

/-- **The client's calls**, as one fetch finds them answered. -/
structure RpcClient where
  getBlock : (blockNumber : ℕ) → (includeTransactions : Bool) → Option (Option RpcBlock)
  getBlockReceipts : (blockHash : Hash) → Option (List TransactionReceipt)
  getTransactionReceipt : (hash : Hash) → Option (Option TransactionReceipt)
  getLogs : (fromBlock toBlock : ℕ) → (topics : Option (List Hex)) → Option (List Log)

/-- The fields of the configuration the fetcher reads. -/
structure FetcherConfig where
  indexableTopics : Option (List Hex)
deriving DecidableEq

/-! ## Topics -/

/-- A log without topics is never one. -/
def isIndexableLog (topics : List Hex) (log : Log) : Bool :=
  match log.topics.head? with
  | none => false
  | some topic0 => topics.any fun candidate => candidate = topic0

namespace FetcherConfig

variable (cfg : FetcherConfig)

/-- The topics to filter by; none is no filter. -/
def topicFilter : Option (List Hex) :=
  match cfg.indexableTopics with
  | none | some [] => none
  | some (topic :: topics) => some (topic :: topics)

def retainIndexable (logs : List Log) : List Log :=
  match cfg.topicFilter with
  | none => logs
  | some topics => logs.filter (isIndexableLog topics)

/-! ## One block -/

variable (rpc : RpcClient)

/-- A receipt that does not load fails the whole fetch. -/
def fetchBlockBodiesPerTransaction (transactions : List Transaction) :
    Option (List TransactionReceipt × List Log) := do
  let receipts ← transactions.mapM fun tx => (rpc.getTransactionReceipt tx.hash).join
  return (receipts, cfg.retainIndexable (receipts.flatMap (·.logs)))

/-- The receipts by one call, where it answers one for each transaction,
and one by one otherwise. -/
def fetchBlockBodies (block : RpcBlock) : Option (List TransactionReceipt × List Log) :=
  if block.transactions = [] then some ([], [])
  else
    match block.header.hash.bind rpc.getBlockReceipts with
    | some receipts =>
      if receipts.length = block.transactions.length then
        some (receipts, cfg.retainIndexable (receipts.flatMap (·.logs)))
      else cfg.fetchBlockBodiesPerTransaction rpc block.transactions
    | none => cfg.fetchBlockBodiesPerTransaction rpc block.transactions

/-- A response without number or hash throws. -/
def assertWellFormed (block : Block) : Option Unit :=
  if block.number.isSome && block.hash.isSome then some () else none

/-- `fetchBlock`; `some none` is a block not found. -/
def fetchBlockData (blockNumber : ℕ) : Option (Option BlockData) :=
  match rpc.getBlock blockNumber true with
  | none => none
  | some none => some none
  | some (some block) => do
    assertWellFormed block.header
    let (receipts, logs) ← cfg.fetchBlockBodies rpc block
    return some ⟨block.header, block.transactions, receipts, logs⟩

/-! ## Windows -/

/-- The heights of a range. -/
def heights (fromBlock toBlock : ℕ) : List ℕ :=
  List.range' fromBlock (toBlock + 1 - fromBlock)

/-- **The workers of a full window**: at least one, and no more than there
are heights. -/
def windowPool (fromBlock toBlock concurrency : ℕ) : Machine (Pool BlockData) ℕ :=
  let count := (heights fromBlock toBlock).length
  Pool.machine (fun index => cfg.fetchBlockData rpc (fromBlock + index)) count
    (max 1 (min concurrency count))

/-- What `fetchBlockWindow` returns once its workers are done: the slots up
to the first hole. -/
def windowBlocks (p : Pool BlockData) : Option (List BlockData) :=
  if p.rejected then none else some (untilHole p.slots)

/-- The blocks of a log window: the headers up to the first hole, each with
the logs of its height. -/
def logWindowBlocks (logs : List Log) : List (ℕ × Option RpcBlock) → Option (List BlockData)
  | [] | (_, none) :: _ => some []
  | (blockNumber, some block) :: rest => do
    assertWellFormed block.header
    let blocks ← logWindowBlocks logs rest
    return ⟨block.header, [], [], logs.filter fun l => l.blockNumber = some blockNumber⟩ :: blocks

/-- `fetchLogWindow`: the logs by one call, and a header for each height. -/
def fetchLogWindow (fromBlock toBlock : ℕ) : Option (List BlockData) := do
  let logs ← rpc.getLogs fromBlock toBlock cfg.topicFilter
  let headers ← (heights fromBlock toBlock).mapM (rpc.getBlock · false)
  logWindowBlocks logs ((heights fromBlock toBlock).zip headers)

/-- `fetchBlockRange`: block after block, without those not found. Its
batches order nothing. -/
def fetchBlockRange (fromBlock toBlock : ℕ) : Option (List BlockData) :=
  ((heights fromBlock toBlock).mapM (cfg.fetchBlockData rpc)).map fun blocks =>
    blocks.filterMap id

end FetcherConfig

end HoodSentry

/-!
## Backfills

`runHistoricalMode` and `runGapRepairMode`. The backfill is a machine of
attempts: an attempt fetches the next batch, writes its blocks and hands
their jobs on, and moves past the batch once nothing threw; whatever
throws ends the attempt, and the loop tries the same batch again. A gap
repair has no such loop, so what throws ends it.

`fetched` is not the program's: it lists the blocks served so far.
-/

namespace HoodSentry

/-- What an attempt is answered beside the blocks. -/
structure BackfillAnswers where
  client : RpcClient
  /-- The head `determineFinalityState` reads at a block. -/
  head : ℕ → ℕ
  /-- The call of a log's handling that throws, if one does. -/
  failAt : RawChainLog → Option ℕ

/-- The answers a block's logs are handled with. -/
def BackfillAnswers.handling (a : BackfillAnswers) : Answers where
  latestBlock := 0
  serve _ := none
  getLogs := []
  latestBlockAgain := 0
  failAt := a.failAt

/-- An indexer with its fetcher's configuration and the range of its run. -/
structure BackfillIndexer extends Indexer where
  fetcher : FetcherConfig
  startBlock : ℕ
  endBlock : ℕ

/-- The loop's locals over the world. -/
structure Backfill where
  world : World
  currentBlock : ℕ
  fetched : List BlockData

/-- One turn of the loop: what it is answered, whether the lease's renewal
throws, and how many writes are awaited before one that throws. -/
structure BackfillAttempt extends BackfillAnswers where
  renewThrows : Bool
  throwsAfter : Option ℕ

namespace BackfillIndexer

variable (ix : BackfillIndexer)

/-- The effects of a block's turn: it is written, and its jobs handed on. -/
def blockEffects (a : BackfillAnswers) (b : BlockData) : List Effect :=
  let blockNumber := b.block.number.getD 0
  .persistBlockData b (determineFinalityState ix.config (a.head blockNumber) blockNumber) ::
    (ix.collectEffects a.handling b ++
      ix.publishEffects (detectNewContractsAndTokens ix.config b))

/-! ## The historical mode -/

/-- The last block of the batch at a block. -/
def actualEnd (currentBlock : ℕ) : ℕ :=
  min (currentBlock + ix.config.batchSize - 1) ix.endBlock

/-- One attempt at the batch. -/
def attempt (s : Backfill) (a : BackfillAttempt) : Backfill :=
  if a.renewThrows then s
  else
    match ix.fetcher.fetchBlockRange a.client s.currentBlock (ix.actualEnd s.currentBlock) with
    | none => s
    | some blocks =>
      let effects := blocks.flatMap (ix.blockEffects a.toBackfillAnswers)
      let fetched := blocks ++ s.fetched
      match a.throwsAfter with
      | some calls =>
        { s with
          world := (ix.performAll s.world (effects.take calls)).1
          fetched := fetched }
      | none =>
        match ix.performAll s.world effects with
        | (w, true) => ⟨w, ix.actualEnd s.currentBlock + 1, fetched⟩
        | (w, false) => { s with world := w, fetched := fetched }

/-- **The backfill**, neither stopped nor paused: attempts until the range
is behind it. -/
def historical : Machine Backfill BackfillAttempt where
  Init s := s.currentBlock = ix.startBlock ∧ s.fetched = []
  step s a := if s.currentBlock ≤ ix.endBlock then some (ix.attempt s a) else none

/-- The loop has ended. -/
def Returned (s : Backfill) : Prop := ix.endBlock < s.currentBlock

instance (s : Backfill) : Decidable (ix.Returned s) := inferInstanceAs (Decidable (_ < _))

end BackfillIndexer

/-! ## Gap repair -/

structure GapRange where
  fromBlock : ℕ
  toBlock : ℕ
deriving DecidableEq

/-- The scan's loop: the gaps closed so far, in reverse, and the start of
the one that is open. -/
def scanHeights (indexed : ℕ → Bool) :
    List ℕ → List GapRange → Option ℕ → List GapRange × Option ℕ
  | [], gaps, gapStart => (gaps, gapStart)
  | n :: rest, gaps, gapStart =>
    if indexed n then
      match gapStart with
      | none => scanHeights indexed rest gaps none
      | some start => scanHeights indexed rest (⟨start, n - 1⟩ :: gaps) none
    else scanHeights indexed rest gaps (some (gapStart.getD n))

/-- `scanForGaps`: the ranges without a canonical block. -/
def scanForGaps (cfg : IndexerConfig) (db : Db) (fromBlock toBlock : ℕ) : List GapRange :=
  let indexedBlocks := db.blocks.rows.filter fun r =>
    r.chainId = cfg.chainId && fromBlock ≤ r.number && r.number ≤ toBlock && r.canonical
  if indexedBlocks = [] then [⟨fromBlock, toBlock⟩]
  else
    let indexed := fun n => indexedBlocks.any fun r => r.number = n
    match scanHeights indexed (FetcherConfig.heights fromBlock toBlock) [] none with
    | (gaps, none) => gaps.reverse
    | (gaps, some start) => (⟨start, toBlock⟩ :: gaps).reverse

namespace BackfillIndexer

variable (ix : BackfillIndexer)

/-- One gap after the other; whether nothing threw. -/
def repairGaps (a : BackfillAnswers) : List GapRange → World → World × Bool
  | [], w => (w, true)
  | gap :: gaps, w =>
    match ix.fetcher.fetchBlockRange a.client gap.fromBlock gap.toBlock with
    | none => (w, false)
    | some blocks =>
      match ix.performAll w (blocks.flatMap (ix.blockEffects a)) with
      | (w', true) => repairGaps a gaps w'
      | (w', false) => (w', false)

/-- `runGapRepairMode` over the configured range. -/
def runGapRepair (a : BackfillAnswers) (w : World) : World × Bool :=
  ix.repairGaps a (scanForGaps ix.config w.db ix.startBlock ix.endBlock) w

end BackfillIndexer

end HoodSentry
