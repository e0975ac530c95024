import HoodSentry.Model.Schema
/-!
# Reorgs

`ReorgDetector`: the search for the common ancestor, the record of a
reorg, and the statements that mark the orphaned range. The marking is a
list of statements issued one after another outside any transaction, so
it can stop after any prefix of them.
-/

namespace HoodSentry

/-- `fetchBlock`: a block served without number or hash throws (`none`);
a height nothing is served at is `some none`. -/
def fetchBlock (serve : ℕ → Option BlockData) (height : ℕ) : Option (Option BlockData) :=
  match serve height with
  | none => some none
  | some b => if b.block.number.isSome && b.block.hash.isSome then some (some b) else none

/-- `validateParentHash`: no expectation is met by every parent. -/
def validateParentHash (block : Block) (expectedParentHash : Option Hash) : Bool :=
  match expectedParentHash with
  | none => true
  | some expected => block.parentHash = expected

/-- `blocks.findFirst`: the first canonical row at a height. -/
def Db.canonicalBlockAt (db : Db) (cfg : IndexerConfig) (height : ℕ) : Option BlockRow :=
  db.blocks.rows.find? fun r => r.chainId = cfg.chainId && r.number = height && r.canonical

/-- Downward from a height, the first canonical row whose hash the
provider serves at its height. Heights with no canonical row or no block
served are passed over, and height 0 is never tried. -/
def findCommonAncestor (cfg : IndexerConfig) (db : Db) (serve : ℕ → Option BlockData) :
    ℕ → Option (Option (ℕ × Hash))
  | 0 => some none
  | height + 1 =>
    match db.canonicalBlockAt cfg (height + 1) with
    | none => findCommonAncestor cfg db serve height
    | some dbBlock =>
      match fetchBlock serve (height + 1) with
      | none => none
      | some none => findCommonAncestor cfg db serve height
      | some (some chainBlock) =>
        if chainBlock.block.hash = some dbBlock.hash then some (some (height + 1, dbBlock.hash))
        else findCommonAncestor cfg db serve height

/-- What `recordReorgEvent` is called with. -/
structure DetectedReorg where
  fromBlock : ℕ
  toBlock : ℕ
  commonAncestorBlock : ℕ
  blocksOrphaned : ℕ
deriving DecidableEq

/-- `detectReorg`, up to the record it writes. `some none` is its `null`:
no expectation, no mismatch, or no common ancestor. -/
def detectReorg (cfg : IndexerConfig) (db : Db) (serve : ℕ → Option BlockData)
    (blockNumber : ℕ) (expectedParentHash : Option Hash) (actualParentHash : Hash) :
    Option (Option DetectedReorg) :=
  match expectedParentHash with
  | none => some none
  | some expected =>
    if expected = actualParentHash then some none
    else
      match findCommonAncestor cfg db serve (blockNumber - 1) with
      | none => none
      | some none => some none
      | some (some (ancestor, _)) => some (some {
          fromBlock := ancestor + 1
          toBlock := blockNumber - 1
          commonAncestorBlock := ancestor
          blocksOrphaned := blockNumber - ancestor - 1 })

/-! ## Marking the orphaned range -/

/-- Whether a row filed under a block lies in the marked range. -/
def inRange (cfg : IndexerConfig) (fromBlock toBlock chainId number : ℕ) : Bool :=
  chainId = cfg.chainId && fromBlock ≤ number && number ≤ toBlock

/-- One `UPDATE` of `handleReorg`. -/
inductive ReorgStatement
  | markBlocksOrphaned
  | markTransactionsOrphaned
  | markLogsOrphaned
  | markTokenTransfersOrphaned
  | markDerived (table : DerivedTable)
  | resetPoolState
deriving DecidableEq

/-- The condition and assignment of an invalidated derived table. Candles
and metrics are invalidated for the whole chain; the other tables where
their source block lies in the range. -/
def markDerivedRow (cfg : IndexerConfig) (table : DerivedTable) (fromBlock toBlock : ℕ)
    (r : DerivedRow) : DerivedRow :=
  let hit := r.sourceBlock.any fun n => inRange cfg fromBlock toBlock r.chainId n
  match table with
  | .marketCandles | .marketMetrics =>
    if r.chainId = cfg.chainId then { r with canonical := false } else r
  | .deterministicPriceObservations =>
    if hit then { r with canonical := false, active := false } else r
  | .pools => if hit && r.canonical then { r with canonical := false, active := false } else r
  | _ => if hit && r.canonical then { r with canonical := false } else r

/-- The stored state of a pool is dropped where it came from the range. -/
def resetPoolStateRow (cfg : IndexerConfig) (fromBlock toBlock : ℕ) (r : DerivedRow) :
    DerivedRow :=
  if r.stateBlock.any fun n => inRange cfg fromBlock toBlock r.chainId n then
    { r with stateBlock := none }
  else r

def ReorgStatement.apply (cfg : IndexerConfig) (fromBlock toBlock : ℕ) (db : Db) :
    ReorgStatement → Db
  | markBlocksOrphaned =>
    { db with
      blocks := db.blocks.updateWhere
        (fun r => inRange cfg fromBlock toBlock r.chainId r.number && r.canonical)
        (fun r => { r with canonical := false, finalityState := .orphaned }) fun _ => rfl }
  | markTransactionsOrphaned =>
    { db with
      transactions := db.transactions.updateWhere
        (fun r => inRange cfg fromBlock toBlock r.chainId r.blockNumber && r.canonical)
        (fun r => { r with canonical := false }) fun _ => rfl }
  | markLogsOrphaned =>
    { db with
      logs := db.logs.updateWhere
        (fun r => inRange cfg fromBlock toBlock r.chainId r.blockNumber && r.canonical)
        (fun r => { r with canonical := false, removed := true }) fun _ => rfl }
  | markTokenTransfersOrphaned =>
    { db with
      tokenTransfers := db.tokenTransfers.updateWhere
        (fun r => inRange cfg fromBlock toBlock r.chainId r.blockNumber && r.canonical)
        (fun r => { r with canonical := false }) fun _ => rfl }
  | markDerived table =>
    { db with
      derived := fun t =>
        if t = table then (db.derived t).map (markDerivedRow cfg table fromBlock toBlock)
        else db.derived t }
  | resetPoolState =>
    { db with
      derived := fun t =>
        if t = .pools then (db.derived t).map (resetPoolStateRow cfg fromBlock toBlock)
        else db.derived t }

/-- The statements of `handleReorg` in the order it issues them, with
those of `markWalletProjectionsOrphaned`, `markDerivedNonCanonical` and
`markPricingNonCanonical` in their places. -/
def reorgStatements : List ReorgStatement :=
  [.markBlocksOrphaned, .markTransactionsOrphaned, .markLogsOrphaned,
    .markTokenTransfersOrphaned,
    .markDerived .walletTokenLots, .markDerived .walletPnlSnapshots,
    .markDerived .walletCashFlows,
    .markDerived .swaps, .markDerived .liquidityEvents, .markDerived .launchpadTokens,
    .markDerived .launchpadTrades, .markDerived .launchpadCreatorFeeEvents,
    .markDerived .launchpadGraduations, .markDerived .launchpadMigrations,
    .markDerived .poolStateSnapshots, .markDerived .liquidityLockEvidence,
    .resetPoolState, .markDerived .pools,
    .markDerived .deterministicPriceObservations, .markDerived .marketCandles,
    .markDerived .marketMetrics]

/-! ## The record of reorgs -/

/-- `recordReorgEvent`: the new row takes the next identity. -/
def recordReorgEvent (cfg : IndexerConfig) (db : Db) (e : DetectedReorg) : Db :=
  { db with
    reorgEvents := db.reorgEvents ++ [{
      id := db.reorgEvents.length
      chainId := cfg.chainId
      fromBlock := e.fromBlock
      toBlock := e.toBlock
      commonAncestorBlock := e.commonAncestorBlock
      blocksOrphaned := e.blocksOrphaned
      resolved := false }] }

def resolveReorgEvent (db : Db) (id : ℕ) : Db :=
  { db with
    reorgEvents := db.reorgEvents.map fun e =>
      if e.id = id then { e with resolved := true } else e }

def getUnresolvedReorgs (cfg : IndexerConfig) (db : Db) : List ReorgEvent :=
  db.reorgEvents.filter fun e => e.chainId = cfg.chainId && !e.resolved

/-- `handleReorg` run to its end. -/
def handleReorg (cfg : IndexerConfig) (e : ReorgEvent) (db : Db) : Db :=
  resolveReorgEvent
    (reorgStatements.foldl (fun db s => s.apply cfg e.fromBlock e.toBlock db) db) e.id

/-- `runReorgReconciliationMode`: every reorg read as unresolved at the
start is handled, in the order read. -/
def runReorgReconciliation (cfg : IndexerConfig) (db : Db) : Db :=
  (getUnresolvedReorgs cfg db).foldl (fun db e => handleReorg cfg e db) db

end HoodSentry
