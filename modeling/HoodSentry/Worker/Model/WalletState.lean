import HoodSentry.Common.Machine
import HoodSentry.Indexer.Model.Jobs
import HoodSentry.Indexer.Model.Persister
import HoodSentry.Indexer.Model.Reorg
import HoodSentry.Indexer.Model.Retention
/-!
# Approvals, and wallet state across reorgs

`processTokenApproval`, and the machine of the jobs that keep a wallet's
state beside the reorgs that move the chain under it. Jobs run one at a
time. Addresses are values, so the lowercasing of the source is the
identity here.
-/

namespace HoodSentry

/-! ## Approvals -/

/-- The payload of a `token-approval` job. -/
structure ApprovalJob where
  chainId : ℕ
  blockNumber : ℕ
  blockHash : Hash
  tokenAddress : Address
  ownerAddress : Address
  spenderAddress : Address
  transactionHash : Hash
  logIndex : ℕ
  valueRaw : ℕ
deriving DecidableEq

structure ApprovalRow where
  chainId : ℕ
  ownerAddress : Address
  tokenAddress : Address
  spenderAddress : Address
  allowanceRaw : ℕ
  lastUpdatedBlock : ℕ
  lastUpdatedLogIndex : ℕ
deriving DecidableEq

/-- `token_approvals` is keyed by chain, owner, token and spender. -/
def ApprovalRow.key (r : ApprovalRow) : ℕ × Address × Address × Address :=
  (r.chainId, r.ownerAddress, r.tokenAddress, r.spenderAddress)

/-- Where a row's approval was emitted. -/
def ApprovalRow.place (r : ApprovalRow) : ℕ ×ₗ ℕ := toLex (r.lastUpdatedBlock, r.lastUpdatedLogIndex)

def ApprovalJob.row (job : ApprovalJob) : ApprovalRow where
  chainId := job.chainId
  ownerAddress := job.ownerAddress
  tokenAddress := job.tokenAddress
  spenderAddress := job.spenderAddress
  allowanceRaw := job.valueRaw
  lastUpdatedBlock := job.blockNumber
  lastUpdatedLogIndex := job.logIndex

/-- The stored row under a later approval of its key; an earlier one, or
one at the same place, leaves it alone. -/
def ApprovalJob.update (job : ApprovalJob) (old : ApprovalRow) : ApprovalRow :=
  if old.lastUpdatedBlock < job.blockNumber ∨
      old.lastUpdatedBlock = job.blockNumber ∧ old.lastUpdatedLogIndex < job.logIndex then
    { old with
      allowanceRaw := job.valueRaw
      lastUpdatedBlock := job.blockNumber
      lastUpdatedLogIndex := job.logIndex }
  else old

theorem ApprovalJob.key_update (job : ApprovalJob) (old : ApprovalRow) :
    (job.update old).key = old.key := by
  unfold update
  split <;> rfl

def processTokenApproval (approvals : Table ApprovalRow.key) (job : ApprovalJob) :
    Table ApprovalRow.key :=
  approvals.upsert job.row job.update job.key_update

/-! ## Jobs and reorgs -/

/-- What a published job hands `processTokenTransfer`. -/
def DerivedJob.transferJob (job : DerivedJob) : Option TransferJob :=
  match job.type, job.data with
  | .tokenTransfer, .tokenTransfer shared fromAddress toAddress _ => some {
      chainId := job.chainId
      blockNumber := job.blockNumber
      blockHash := job.blockHash
      tokenAddress := shared.tokenAddress
      fromAddress := fromAddress
      toAddress := toAddress
      transactionHash := shared.transactionHash
      logIndex := shared.logIndex
      valueRaw := shared.valueRaw }
  | _, _ => none

/-- What a published job hands `processTokenApproval`. -/
def DerivedJob.approvalJob (job : DerivedJob) : Option ApprovalJob :=
  match job.type, job.data with
  | .tokenApproval, .tokenApproval shared ownerAddress spenderAddress _ => some {
      chainId := job.chainId
      blockNumber := job.blockNumber
      blockHash := job.blockHash
      tokenAddress := shared.tokenAddress
      ownerAddress := ownerAddress
      spenderAddress := spenderAddress
      transactionHash := shared.transactionHash
      logIndex := shared.logIndex
      valueRaw := shared.valueRaw }
  | _, _ => none

/-- What moved a balance: a job, or a reorg with the canonical transfers
it cleared. -/
inductive BalanceEvent
  | transfer (job : TransferJob)
  | reorg (cleared : List TransferRow)
deriving DecidableEq

/-- The tables of a wallet's state, with the blocks stored and what has
been processed so far: `history` latest first, `approved` in order. -/
structure WalletWorld extends RetentionDb where
  approvals : Table ApprovalRow.key
  stored : List BlockData
  history : List BalanceEvent
  approved : List ApprovalJob

inductive WalletLabel
  /-- A canonical block is stored. -/
  | block (b : BlockData) (finalityState : FinalityState)
  | transfer (job : TransferJob)
  | approval (job : ApprovalJob)
  | reorg (e : ReorgEvent)

/-- The canonical transfers a reorg clears. -/
def clearedTransfers (cfg : IndexerConfig) (e : ReorgEvent) (db : Db) : List TransferRow :=
  db.tokenTransfers.rows.filter fun t =>
    inRange cfg e.fromBlock e.toBlock t.chainId t.blockNumber && t.canonical

def WalletWorld.step (cfg : IndexerConfig) (w : WalletWorld) : WalletLabel → Option WalletWorld
  | .block b finalityState =>
    (persistBlockData cfg w.db b finalityState true).map fun db =>
      { w with
        db := db
        stored := b :: w.stored }
  | .transfer job =>
    some { w with
      toRetentionDb := w.toRetentionDb.processTokenTransfer job
      history := .transfer job :: w.history }
  | .approval job =>
    some { w with
      approvals := processTokenApproval w.approvals job
      approved := w.approved ++ [job] }
  | .reorg e =>
    some { w with
      db := handleReorg cfg e w.db
      history := .reorg (clearedTransfers cfg e w.db) :: w.history }

/-- **Blocks, jobs and reorgs in any order**, from nothing stored. -/
def walletMachine (cfg : IndexerConfig) : Machine WalletWorld WalletLabel where
  Init w := w = {
    db := .empty
    balances := ∅
    approvals := ∅
    stored := []
    history := []
    approved := [] }
  step := WalletWorld.step cfg

end HoodSentry
