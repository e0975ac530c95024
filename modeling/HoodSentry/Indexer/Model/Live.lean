import HoodSentry.Common.Machine
import HoodSentry.Indexer.Model.Persister
import HoodSentry.Indexer.Model.Protocol
import HoodSentry.Indexer.Model.Reorg
/-!
# The live loop

`runLiveMode` as a machine. One pass of the loop body reads the provider
and the database, and what it then does is a list of effects, the awaited
writes in their order. A pass can be cut after any prefix of them, by an
error the loop catches or by a crash; the loop's locals are assigned only
at its end. A crash leaves the tables and the queue, and the next start
reads the checkpoint.

`indexed` is not the program's: it lists the blocks a checkpoint write
has moved past.
-/

namespace HoodSentry

/-- What a `BlockIndexer` is built with. -/
structure Indexer where
  config : IndexerConfig
  adapters : List ProtocolAdapter
  sources : List PriceSourceConfig
  /-- The publisher has `publishMany`. -/
  publishesMany : Bool

/-- The loop's locals. -/
structure Locals where
  currentBlock : ℕ
  lastBlockHash : Option Hash
deriving DecidableEq

structure World where
  db : Db
  /-- The protocol repository's successful writes. -/
  repository : List RepositoryCall
  /-- The jobs handed to the publisher. -/
  queue : List DerivedJob
  /-- The running process, if there is one. -/
  locals : Option Locals
  processedEventKeys : List EventKey
  indexed : List BlockData

/-- Nothing indexed and no process. -/
def World.empty : World := ⟨Db.empty, [], [], none, [], []⟩

/-- What a pass is answered by the provider, the repository and the
publisher. A pass asks for each height at most once, so one function
answers its fetches, however often the provider changes its mind. -/
structure Answers where
  latestBlock : ℕ
  serve : ℕ → Option BlockData
  /-- `getLogs` of the log-only window. -/
  getLogs : List Log
  /-- The head `determineFinalityState` reads. -/
  latestBlockAgain : ℕ
  /-- The call of a log's handling that throws, if one does. -/
  failAt : RawChainLog → Option ℕ

/-! ## The catch-up window -/

/-- Up to the first hole. -/
def untilHole : List (Option BlockData) → List BlockData
  | some b :: rest => b :: untilHole rest
  | _ => []

/-- `fetchBlockWindow`: every height is fetched, and one that throws
rejects the whole window. -/
def fetchBlockWindow (serve : ℕ → Option BlockData) (heights : List ℕ) :
    Option (List BlockData) :=
  (heights.mapM (fetchBlock serve)).map untilHole

/-- `fetchLogWindow`: headers and logs only. -/
def fetchLogWindow (serve : ℕ → Option BlockData) (logs : List Log) :
    List ℕ → Option (List BlockData)
  | [] => some []
  | height :: heights =>
    match fetchBlock serve height with
    | none => none
    | some none => some []
    | some (some b) => do
      let rest ← fetchLogWindow serve logs heights
      return {
        block := b.block
        transactions := []
        receipts := []
        logs := logs.filter fun l => l.blockNumber = some height } :: rest

/-- The heights of a window: at most a batch, and none above the safe
ceiling. -/
def windowHeights (cfg : IndexerConfig) (latestBlock currentBlock : ℕ) : List ℕ :=
  List.range' currentBlock
    (min cfg.batchSize (latestBlock - cfg.finalityConfirmations + 1 - currentBlock))

def fetchWindow (cfg : IndexerConfig) (a : Answers) (currentBlock : ℕ) :
    Option (List BlockData) :=
  let heights := windowHeights cfg a.latestBlock currentBlock
  if cfg.logWindowEnabled then fetchLogWindow a.serve a.getLogs heights
  else fetchBlockWindow a.serve heights

/-! ## One pass -/

/-- `determineFinalityState`. -/
def determineFinalityState (cfg : IndexerConfig) (latestBlock blockNumber : ℕ) : FinalityState :=
  let confirmations : ℤ := latestBlock - blockNumber
  if confirmations ≥ cfg.finalityConfirmations then .finalized
  else if confirmations ≥ cfg.safeConfirmations then .safe
  else if confirmations > 0 then .softConfirmed
  else .pending

/-- What a pass does once everything is read. -/
inductive Decision
  /-- Nothing to write: the head is behind, nothing was served, or a read
  threw. -/
  | wait
  | reorg (event : DetectedReorg)
  | tail (b : BlockData) (finalityState : FinalityState)
  | window (blocks : List BlockData)

/-- The tail step: the next block, and whether it extends the last. A
mismatch without a common ancestor is indexed all the same. -/
def decideTail (cfg : IndexerConfig) (db : Db) (l : Locals) (a : Answers) : Decision :=
  match fetchBlock a.serve l.currentBlock with
  | none | some none => .wait
  | some (some b) =>
    let tail := Decision.tail b (determineFinalityState cfg a.latestBlockAgain l.currentBlock)
    if validateParentHash b.block l.lastBlockHash then tail
    else
      match detectReorg cfg db a.serve l.currentBlock l.lastBlockHash b.block.parentHash with
      | none => .wait
      | some none => tail
      | some (some event) => .reorg event

/-- Whether a finalized backlog is waiting, `currentBlock ≤ safeCeiling`. -/
def Backlog (cfg : IndexerConfig) (l : Locals) (a : Answers) : Prop :=
  l.currentBlock + cfg.finalityConfirmations ≤ a.latestBlock

instance (cfg : IndexerConfig) (l : Locals) (a : Answers) : Decidable (Backlog cfg l a) :=
  inferInstanceAs (Decidable (_ ≤ _))

def decidePass (cfg : IndexerConfig) (db : Db) (l : Locals) (a : Answers) : Decision :=
  if a.latestBlock < l.currentBlock then .wait
  else if Backlog cfg l a then
    match fetchWindow cfg a l.currentBlock with
    | none | some [] => .wait
    | some (b :: bs) => .window (b :: bs)
  else decideTail cfg db l a

/-- One awaited write. -/
inductive Effect
  | persistBlockData (b : BlockData) (finalityState : FinalityState)
  | persistBlockWindow (blocks : List BlockData)
  /-- `passed` are the blocks this write moves the checkpoint past. -/
  | createOrUpdateCheckpoint (checkpoint : Checkpoint) (passed : List BlockData)
  | handleLog (log : Option RawChainLog) (failAt : Option ℕ)
  | publish (job : DerivedJob)
  | publishMany (jobs : List DerivedJob)
  | recordReorgEvent (event : DetectedReorg)
  | markOrphaned (statement : ReorgStatement) (fromBlock toBlock : ℕ)
  | resolveReorgEvent (id : ℕ)

namespace Indexer

variable (ix : Indexer)

/-- The awaited calls of `collectDerivedJobs`: the block's logs go to the
protocol handler, then the oracle jobs to the publisher. -/
def collectEffects (a : Answers) (b : BlockData) : List Effect :=
  match b.block.number, b.block.hash with
  | some number, some hash =>
    (b.logs.map fun log =>
      let raw := parseRawChainLog ix.config number hash log
      Effect.handleLog raw (raw.bind a.failAt)) ++
    (chainlinkJobs ix.config ix.sources number hash).map .publish
  | _, _ => []

/-- `publishJobs`: one call where the publisher takes many. -/
def publishEffects (jobs : List DerivedJob) : List Effect :=
  if jobs.isEmpty then []
  else if ix.publishesMany then [.publishMany jobs]
  else jobs.map .publish

/-- The effects of a pass, in order. The tail moves the checkpoint before
it publishes, the window after. -/
def effects (db : Db) (l : Locals) (a : Answers) : Decision → List Effect
  | .wait => []
  | .reorg e =>
    .recordReorgEvent e ::
      reorgStatements.map (fun s => .markOrphaned s e.fromBlock e.toBlock) ++
      [.resolveReorgEvent db.reorgEvents.length]
  | .tail b finalityState =>
    [.persistBlockData b finalityState,
      .createOrUpdateCheckpoint ⟨l.currentBlock + 1, b.block.hash⟩ [b]] ++
    ix.collectEffects a b ++
    ix.publishEffects (detectNewContractsAndTokens ix.config b)
  | .window bs =>
    [.persistBlockWindow bs] ++
    bs.flatMap (ix.collectEffects a) ++
    ix.publishEffects (bs.flatMap (detectNewContractsAndTokens ix.config)) ++
    [.createOrUpdateCheckpoint
      ⟨l.currentBlock + bs.length, bs.getLast?.bind (·.block.hash)⟩ bs]

end Indexer

/-- The locals a pass that completes ends with. -/
def Decision.next (l : Locals) : Decision → Locals
  | .wait => l
  | .reorg e => ⟨e.commonAncestorBlock + 1, none⟩
  | .tail b _ => ⟨l.currentBlock + 1, b.block.hash⟩
  | .window bs => ⟨l.currentBlock + bs.length, bs.getLast?.bind (·.block.hash)⟩

namespace Indexer

variable (ix : Indexer)

/-- One effect; `none` throws. -/
def perform (w : World) : Effect → Option World
  | .persistBlockData b finalityState =>
    (persistBlockData ix.config w.db b finalityState true).map fun db => { w with db := db }
  | .persistBlockWindow bs =>
    (persistBlockWindow ix.config w.db bs .finalized true).map fun db => { w with db := db }
  | .createOrUpdateCheckpoint checkpoint passed =>
    some { w with
      db := { w.db with checkpoint := some checkpoint }
      indexed := passed ++ w.indexed }
  | .handleLog log failAt =>
    let (keys, calls) := handle ix.adapters w.processedEventKeys log failAt
    some { w with
      processedEventKeys := keys
      repository := w.repository ++ calls.filterMap HandlerCall.repositoryCall
      queue := w.queue ++ calls.filterMap HandlerCall.job }
  | .publish job => some { w with queue := w.queue ++ [job] }
  | .publishMany jobs => some { w with queue := w.queue ++ jobs }
  | .recordReorgEvent e => some { w with db := HoodSentry.recordReorgEvent ix.config w.db e }
  | .markOrphaned s fromBlock toBlock =>
    some { w with db := s.apply ix.config fromBlock toBlock w.db }
  | .resolveReorgEvent id => some { w with db := HoodSentry.resolveReorgEvent w.db id }

/-- Effects in order, up to one that throws; whether all were done. -/
def performAll (w : World) : List Effect → World × Bool
  | [] => (w, true)
  | e :: es =>
    match ix.perform w e with
    | none => (w, false)
    | some w' => performAll w' es

end Indexer

/-! ## The machine -/

/-- How a pass ends: it runs to its end, or it stops after so many
effects, with an error the loop catches or with the process. -/
inductive Cut
  | completes
  | throws (after : ℕ)
  | crashes (after : ℕ)
deriving DecidableEq

/-- A transfer as a `token-transfer` job records it. -/
structure TransferRecord where
  blockNumber : ℕ
  blockHash : Hash
  transactionHash : Hash
  logIndex : ℕ
  tokenAddress : Address
  fromAddress : Address
  toAddress : Address
  amountRaw : ℕ
deriving DecidableEq

/-- The worker's `INSERT` of a transfer: canonical exactly when its block
is stored as canonical. -/
def Db.insertTransfer (db : Db) (cfg : IndexerConfig) (t : TransferRecord) : Db :=
  { db with
    tokenTransfers := db.tokenTransfers.insertNew
      { chainId := cfg.chainId
        blockNumber := t.blockNumber
        blockHash := t.blockHash
        transactionHash := t.transactionHash
        logIndex := t.logIndex
        tokenAddress := t.tokenAddress
        fromAddress := t.fromAddress
        toAddress := t.toAddress
        amountRaw := t.amountRaw
        canonical := db.blocks.rows.any fun r =>
          r.chainId = cfg.chainId && r.hash = t.blockHash && r.canonical } }

inductive Label
  /-- The process starts from the stored checkpoint. -/
  | start
  | pass (a : Answers) (cut : Cut)
  /-- A worker records a transfer. -/
  | transfer (t : TransferRecord)
  /-- `runReorgReconciliationMode`, on its own stream. -/
  | reconcile

namespace Indexer

variable (ix : Indexer)

/-- The checkpoint a start resumes from, created where there is none. -/
def startCheckpoint (db : Db) : Checkpoint :=
  db.checkpoint.getD ⟨ix.config.startBlock.getD 0, none⟩

def startProcess (w : World) : World :=
  let checkpoint := ix.startCheckpoint w.db
  { w with
    db := { w.db with checkpoint := some checkpoint }
    locals := some ⟨checkpoint.nextBlock, checkpoint.lastBlockHash⟩
    processedEventKeys := [] }

/-- A pass from the given locals. -/
def runPass (w : World) (l : Locals) (a : Answers) (cut : Cut) : World :=
  let decision := decidePass ix.config w.db l a
  let effects := ix.effects w.db l a decision
  match cut with
  | .completes =>
    match ix.performAll w effects with
    | (w', true) => { w' with locals := some (decision.next l) }
    | (w', false) => w'
  | .throws k => (ix.performAll w (effects.take k)).1
  | .crashes k =>
    { (ix.performAll w (effects.take k)).1 with locals := none, processedEventKeys := [] }

def step (w : World) : Label → Option World
  | .start => if w.locals.isNone then some (ix.startProcess w) else none
  | .pass a cut => w.locals.map fun l => ix.runPass w l a cut
  | .transfer t => some { w with db := w.db.insertTransfer ix.config t }
  | .reconcile => some { w with db := runReorgReconciliation ix.config w.db }

/-- **The live indexer.** -/
def live : Machine World Label where
  Init w := w = World.empty
  step := ix.step

end Indexer

end HoodSentry
