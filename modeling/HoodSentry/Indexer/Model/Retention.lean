import HoodSentry.Common.Batches
import HoodSentry.Discovery.Model.Repository
import HoodSentry.Worker.Model.RiskScan
import HoodSentry.Worker.Model.Transfer
/-!
# The retention pruner

`RetentionPruner.prune` over the statements of `DrizzleRetentionStore`.
A table's deletes run in windows of blocks until one comes back empty; a
statement that throws ends its table's deletes and the pruner goes on with
the next. Vacuuming changes no row. `discovery_snapshots` and
`risk_findings` are with `PrunableDb`.
-/

namespace HoodSentry

structure RetentionOptions where
  retentionBlocks : ℕ
  deleteBatchSize : ℕ
deriving DecidableEq

/-- The indexer's tables beside the balances the worker projects. -/
structure RetentionDb where
  db : Db
  balances : Table BalanceRow.key

/-- The tables with deletes of their own, in the pruner's order. -/
inductive PrunableTable
  | transactionReceipts | transactions | logs | tokenTransfers | blocks | tokenBalances
deriving DecidableEq

/-! ## The store -/

section Store

universe u v

variable {ρ : Type u} {κ : Type v} {key : ρ → κ}

/-- The highest indexed block. -/
def maxIndexedBlock (chainId : ℕ) (db : Db) : Option ℕ :=
  ((db.blocks.rows.filter fun r => r.chainId = chainId).map (·.number)).max?

/-- A row of the chain below a block. -/
def olderThan (chainOf numberOf : ρ → ℕ) (chainId beforeBlock : ℕ) (r : ρ) : Bool :=
  chainOf r = chainId && numberOf r < beforeBlock

/-- One window, from the oldest row left; `chainOf` and `numberOf` are the
table's columns. -/
def deleteOlderThan (chainOf numberOf : ρ → ℕ) (chainId beforeBlock batchSize : ℕ)
    (t : Table key) : Table key × ℕ :=
  match ((t.rows.filter (olderThan chainOf numberOf chainId beforeBlock)).map numberOf).min? with
  | none => (t, 0)
  | some start =>
    let stop := if start + batchSize < beforeBlock then start + batchSize else beforeBlock
    let hit := fun r => chainOf r = chainId && start ≤ numberOf r && numberOf r < stop
    (t.deleteWhere hit, (t.rows.filter hit).length)

/-- One batch of the balances of zero. -/
def deleteZeroBalances (chainId batchSize : ℕ) (balances : Table BalanceRow.key) :
    Table BalanceRow.key × ℕ :=
  let batch := (balances.rows.filter fun r => r.chainId = chainId && r.balanceRaw = 0).take batchSize
  (balances.deleteWhere fun r => r ∈ batch, (balances.rows.filter fun r => r ∈ batch).length)

end Store

/-! ## The pruner -/

section Pruner

universe u v

variable {ρ : Type u} {κ : Type v} {key : ρ → κ}

/-- The loop over a table's windows. Each pass but the last deletes a row,
so one pass more than there are rows is enough. -/
def pruneWindows (o : RetentionOptions) (chainOf numberOf : ρ → ℕ) (chainId beforeBlock : ℕ)
    (throwsAt : Option ℕ) (t : Table key) : Table key :=
  deleteLoop (deleteOlderThan chainOf numberOf chainId beforeBlock o.deleteBatchSize) 1 throwsAt
    (t.rows.length + 1) t

/-- The loop over the balances of zero, which ends with a batch that is
not full. -/
def pruneRowsWithoutMeaning (o : RetentionOptions) (chainId : ℕ) (throwsAt : Option ℕ)
    (balances : Table BalanceRow.key) : Table BalanceRow.key :=
  deleteLoop (deleteZeroBalances chainId o.deleteBatchSize) o.deleteBatchSize throwsAt
    (balances.rows.length + 1) balances

/-- The block below which rows are deleted, where the pruner deletes any. -/
def pruneBoundary (o : RetentionOptions) (chainId : ℕ) (db : Db) : Option ℕ :=
  if o.retentionBlocks ≤ 0 then none
  else (maxIndexedBlock chainId db).bind fun head =>
    if head ≤ o.retentionBlocks then none else some (head - o.retentionBlocks)

/-- **A prune.** `throwsAt` says which of a table's statements throws, if
one does. -/
def prune (o : RetentionOptions) (chainId : ℕ) (throwsAt : PrunableTable → Option ℕ)
    (s : RetentionDb) : RetentionDb :=
  match pruneBoundary o chainId s.db with
  | none => s
  | some beforeBlock =>
    { db := { s.db with
        transactionReceipts := pruneWindows o (·.chainId) (·.blockNumber) chainId beforeBlock
          (throwsAt .transactionReceipts) s.db.transactionReceipts
        transactions := pruneWindows o (·.chainId) (·.blockNumber) chainId beforeBlock
          (throwsAt .transactions) s.db.transactions
        logs := pruneWindows o (·.chainId) (·.blockNumber) chainId beforeBlock
          (throwsAt .logs) s.db.logs
        tokenTransfers := pruneWindows o (·.chainId) (·.blockNumber) chainId beforeBlock
          (throwsAt .tokenTransfers) s.db.tokenTransfers
        blocks := pruneWindows o (·.chainId) (·.number) chainId beforeBlock
          (throwsAt .blocks) s.db.blocks }
      balances := pruneRowsWithoutMeaning o chainId (throwsAt .tokenBalances) s.balances }

end Pruner

/-- A `token-transfer` job over the whole database. -/
def RetentionDb.processTokenTransfer (s : RetentionDb) (job : TransferJob) : RetentionDb :=
  let tables :=
    HoodSentry.processTokenTransfer s.db.blocks ⟨s.db.tokenTransfers, s.balances⟩ job
  { db := { s.db with tokenTransfers := tables.transfers }, balances := tables.balances }

/-- The balance stored for a holder of a token. -/
def RetentionDb.balance (s : RetentionDb) (k : ℕ × Address × Address) : Option ℤ :=
  (s.balances.rows.find? fun r => r.key = k).map (·.balanceRaw)

end HoodSentry

/-!
## Everything a prune deletes from

The tables of `RetentionPruner.prune` in full: the facts and balances of
`RetentionDb`, the discovery snapshots, and the risk findings with the runs
they are attached to. A run's address is kept as the text it is stored as.
-/

namespace HoodSentry

/-- A row of `risk_scan_runs`, with the columns the cleanup picks by.
`createdAt` is in microseconds. -/
structure ScanRunRow where
  id : ℕ
  chainId : ℕ
  targetType : RiskTargetType
  targetAddress : String
  canonical : Bool
  status : ScanRunStatus
  createdAt : ℕ
deriving DecidableEq

/-- A row of `risk_findings`, with the run it is attached to. -/
structure StoredFinding where
  id : ℕ
  scanRunId : ℕ
  fingerprint : String
deriving DecidableEq

/-- **The tables a prune deletes from**, and the runs its cleanup reads. -/
structure PrunableDb extends RetentionDb where
  discoverySnapshots : Table DiscoveryRow.snapshotKey
  riskScanRuns : Table ScanRunRow.id
  riskFindings : Table StoredFinding.id

/-- `PRUNABLE_TABLES` in their order, and the two tables of
`pruneRowsWithoutMeaning`. -/
inductive RetentionTable
  | transactionReceipts | transactions | logs | tokenTransfers | discoverySnapshots | blocks
  | tokenBalances | riskFindings
deriving DecidableEq

/-! ## Superseded findings -/

/-- The order `distinct on` picks the first of. -/
def ScanRunRow.createdBefore (r r' : ScanRunRow) : Bool :=
  r.createdAt < r'.createdAt || (r.createdAt = r'.createdAt && r.id < r'.id)

/-- The canonical runs of a chain no later one of which is at the same
address. -/
def latestRuns (chainId : ℕ) (runs : Table ScanRunRow.id) : List ScanRunRow :=
  let canonical := runs.rows.filter fun r => r.chainId = chainId && r.canonical
  canonical.filter fun r => canonical.all fun r' =>
    !(r'.targetAddress = r.targetAddress && r.createdBefore r')

/-- A finding attached to none of the latest runs. -/
def superseded (chainId : ℕ) (runs : Table ScanRunRow.id) (f : StoredFinding) : Bool :=
  (latestRuns chainId runs).all fun r => r.id ≠ f.scanRunId

/-- One batch of the superseded findings. -/
def deleteSupersededFindings (chainId : ℕ) (runs : Table ScanRunRow.id) (batchSize : ℕ)
    (findings : Table StoredFinding.id) : Table StoredFinding.id × ℕ :=
  let batch := (findings.rows.filter (superseded chainId runs)).take batchSize
  (findings.deleteWhere fun f => f ∈ batch, (findings.rows.filter fun f => f ∈ batch).length)

/-- The loop over the superseded findings, which ends with a batch that is
not full. -/
def pruneSupersededFindings (o : RetentionOptions) (chainId : ℕ) (runs : Table ScanRunRow.id)
    (throwsAt : Option ℕ) (findings : Table StoredFinding.id) : Table StoredFinding.id :=
  deleteLoop (deleteSupersededFindings chainId runs o.deleteBatchSize) o.deleteBatchSize throwsAt
    (findings.rows.length + 1) findings

/-! ## A prune of everything -/

/-- The tables the facts' prune knows. -/
def PrunableTable.retentionTable : PrunableTable → RetentionTable
  | .transactionReceipts => .transactionReceipts
  | .transactions => .transactions
  | .logs => .logs
  | .tokenTransfers => .tokenTransfers
  | .blocks => .blocks
  | .tokenBalances => .tokenBalances

/-- **A prune of everything.** `throwsAt` says which of a table's statements
throws, if one does; `headFails` that the head could not be read, which
ends the prune. -/
def pruneAll (o : RetentionOptions) (chainId : ℕ) (headFails : Bool)
    (throwsAt : RetentionTable → Option ℕ) (s : PrunableDb) : PrunableDb :=
  if headFails then s
  else
    match pruneBoundary o chainId s.db with
    | none => s
    | some beforeBlock =>
      { toRetentionDb := prune o chainId (fun t => throwsAt t.retentionTable) s.toRetentionDb
        discoverySnapshots := pruneWindows o (·.chainId) (·.sourceBlockNumber) chainId beforeBlock
          (throwsAt .discoverySnapshots) s.discoverySnapshots
        riskScanRuns := s.riskScanRuns
        riskFindings := pruneSupersededFindings o chainId s.riskScanRuns (throwsAt .riskFindings)
          s.riskFindings }

end HoodSentry
