import HoodSentry.Common.Machine
import HoodSentry.Model.Schema
/-!
# Token transfers and the balances projected from them

`processTokenTransfer` as the worker runs it: one database transaction
that inserts the transfer and then recomputes the balance of both sides
from the transfers it sees. Addresses are values, so the lowercasing of
the source is the identity here.

The worker runs several jobs at once, so the transaction is also cut at
its statements. A statement reads what is committed when it begins and
what its own transaction wrote. A write waits for the transaction that
has an uncommitted row under the same key, and is then made with the
values the statement computed before it waited.
-/

namespace HoodSentry

/-- The payload of a `token-transfer` job. -/
structure TransferJob where
  chainId : ℕ
  blockNumber : ℕ
  blockHash : Hash
  tokenAddress : Address
  fromAddress : Address
  toAddress : Address
  transactionHash : Hash
  logIndex : ℕ
  valueRaw : ℕ
deriving DecidableEq

/-- The row inserted: canonical exactly when the emitting block is stored
as canonical. -/
def TransferJob.row (job : TransferJob) (blocks : Table BlockRow.key) : TransferRow where
  chainId := job.chainId
  blockNumber := job.blockNumber
  blockHash := job.blockHash
  transactionHash := job.transactionHash
  logIndex := job.logIndex
  tokenAddress := job.tokenAddress
  fromAddress := job.fromAddress
  toAddress := job.toAddress
  amountRaw := job.valueRaw
  canonical := blocks.rows.any fun b =>
    b.chainId = job.chainId && b.hash = job.blockHash && b.canonical

/-! ## The projection -/

/-- The join condition between a holder of a token and a transfer. -/
def TransferRow.joins (t : TransferRow) (chainId : ℕ) (token holder : Address) : Bool :=
  t.chainId = chainId && t.tokenAddress = token && t.canonical &&
    (t.fromAddress = holder || t.toAddress = holder)

/-- The row the projection computes for a holder. -/
def projectedBalance (transfers : List TransferRow) (chainId : ℕ) (token holder : Address) :
    BalanceRow :=
  let joined := transfers.filter fun t => t.joins chainId token holder
  { chainId := chainId
    tokenAddress := token
    walletAddress := holder
    balanceRaw :=
      (joined.map fun t => if t.toAddress = holder then (t.amountRaw : ℤ) else 0).sum -
        (joined.map fun t => if t.fromAddress = holder then (t.amountRaw : ℤ) else 0).sum
    asOfBlock := (joined.map (·.blockNumber)).foldr max 0 }

/-- The addresses whose balances are projected: each once, and the zero
address never. -/
def holders (addresses : List Address) : List Address :=
  (addresses.filter fun a => a ≠ ZERO_ADDRESS).eraseDups

abbrev TransferJob.holders (job : TransferJob) : List Address :=
  HoodSentry.holders [job.fromAddress, job.toAddress]

/-- The upsert of one holder's row. -/
def upsertBalance (balances : Table BalanceRow.key) (row : BalanceRow) : Table BalanceRow.key :=
  balances.upsert row
    (fun old => { old with balanceRaw := row.balanceRaw, asOfBlock := row.asOfBlock }) fun _ => rfl

def projectTokenBalances (transfers : List TransferRow) (balances : Table BalanceRow.key)
    (chainId : ℕ) (token : Address) (addresses : List Address) : Table BalanceRow.key :=
  ((holders addresses).map (projectedBalance transfers chainId token)).foldl upsertBalance balances

/-- The two tables a job writes. -/
structure TokenTables where
  transfers : Table TransferRow.key
  balances : Table BalanceRow.key

/-- **A job with nothing beside it.** -/
def processTokenTransfer (blocks : Table BlockRow.key) (s : TokenTables) (job : TransferJob) :
    TokenTables :=
  let transfers := s.transfers.insertNew (job.row blocks)
  { transfers := transfers
    balances := projectTokenBalances transfers.rows s.balances job.chainId job.tokenAddress
      [job.fromAddress, job.toAddress] }

/-! ## Transactions in flight -/

/-- The statement a transaction stands before. The upsert has the
transfers its snapshot holds and the holders it has still to write. -/
inductive TransferPhase
  | insert
  | project
  | upsert (seen : List TransferRow) (remaining : List Address)
deriving DecidableEq

/-- **One delivery of a job**: its transaction, with the rows it wrote and
has not committed. -/
structure Attempt where
  id : ℕ
  job : TransferJob
  phase : TransferPhase
  inserted : Option TransferRow
  written : List BalanceRow
deriving DecidableEq

/-- The stored blocks, the committed tables, the transactions in flight,
and the jobs with a committed transaction. -/
structure TransferWorld where
  blocks : Table BlockRow.key
  tables : TokenTables
  attempts : Table Attempt.id
  done : List TransferJob

/-- The statements of the transaction; the upsert writes one holder's row
at a time, in any order. -/
inductive TransferStatement
  | insert
  | project
  | upsert (holder : Address)
deriving DecidableEq

inductive TransferLabel
  /-- A job is delivered, or delivered again. -/
  | deliver (id : ℕ) (job : TransferJob)
  | statement (id : ℕ) (s : TransferStatement)
  | commit (id : ℕ)
  | rollback (id : ℕ)
deriving DecidableEq

/-- The snapshot a transaction's statement reads. -/
def TokenTables.snapshot (tables : TokenTables) (a : Attempt) : List TransferRow :=
  tables.transfers.rows ++ a.inserted.toList

namespace TransferWorld

variable (w : TransferWorld)

/-- Another transaction has an uncommitted transfer under the key. -/
def insertWaits (a : Attempt) (k : ℕ × Hash × Hash × ℕ) : Bool :=
  w.attempts.rows.any fun b => b.id ≠ a.id && b.inserted.any fun r => r.key = k

/-- Another transaction has an uncommitted balance under the key. -/
def upsertWaits (a : Attempt) (k : ℕ × Address × Address) : Bool :=
  w.attempts.rows.any fun b => b.id ≠ a.id && b.written.any fun r => r.key = k

/-- The transaction after a statement; `none` where it waits, or stands
before another. -/
def runStatement (a : Attempt) : TransferStatement → Option Attempt
  | .insert =>
    let row := a.job.row w.blocks
    if a.phase ≠ .insert ∨ w.insertWaits a row.key = true then none
    else if row.key ∈ w.tables.transfers.keys then some { a with phase := .project }
    else some { a with phase := .project, inserted := some row }
  | .project =>
    if a.phase ≠ .project then none
    else some { a with phase := .upsert (w.tables.snapshot a) a.job.holders }
  | .upsert holder =>
    match a.phase with
    | .upsert seen remaining =>
      let row := projectedBalance seen a.job.chainId a.job.tokenAddress holder
      if holder ∉ remaining ∨ w.upsertWaits a row.key = true then none
      else some { a with
        phase := .upsert seen (remaining.erase holder)
        written := a.written ++ [row] }
    | _ => none

def commitAttempt (a : Attempt) : TransferWorld where
  blocks := w.blocks
  tables :=
    { transfers := w.tables.transfers.insertAll a.inserted.toList
      balances := a.written.foldl upsertBalance w.tables.balances }
  attempts := w.attempts.deleteWhere fun b => b.id = a.id
  done := a.job :: w.done

/-- The transaction with an id. -/
def attempt (id : ℕ) : Option Attempt := w.attempts.rows.find? fun a => a.id = id

def step : TransferLabel → Option TransferWorld
  | .deliver id job =>
    if id ∈ w.attempts.keys then none
    else some { w with attempts := w.attempts.insertNew ⟨id, job, .insert, none, []⟩ }
  | .statement id s => (w.attempt id).bind fun a =>
      (w.runStatement a s).map fun a' => { w with attempts := w.attempts.put a' }
  | .commit id => (w.attempt id).bind fun a =>
      match a.phase with
      | .upsert _ [] => some (w.commitAttempt a)
      | _ => none
  | .rollback id => (w.attempt id).map fun a =>
      { w with attempts := w.attempts.deleteWhere fun b => b.id = a.id }

end TransferWorld

/-- **The worker's transactions**, over any stored blocks and empty
tables. -/
def transferMachine : Machine TransferWorld TransferLabel where
  Init w := w.tables = ⟨∅, ∅⟩ ∧ w.attempts = ∅ ∧ w.done = []
  step := TransferWorld.step

end HoodSentry
