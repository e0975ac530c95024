import HoodSentry.Model.Schema
/-!
# Writing blocks

`BlockPersister`: the rows a block turns into and the inserts that store
them. A builder that throws is `none`; it throws inside the database
transaction, so nothing of the block or window is then stored. Every
insert is `ON CONFLICT DO NOTHING`, the source's replay guard.
-/

namespace HoodSentry

/-- `new Map(receipts.map …).get(hash)`: of two receipts for one
transaction the later is kept. -/
def receiptByTxHash (receipts : List TransactionReceipt) (hash : Hash) :
    Option TransactionReceipt :=
  receipts.reverse.find? fun receipt => receipt.transactionHash = hash

/-- A block without number or hash throws. -/
def buildBlockRow (cfg : IndexerConfig) (b : BlockData) (finalityState : FinalityState)
    (canonical : Bool) : Option BlockRow := do
  let number ← b.block.number
  let hash ← b.block.hash
  return {
    chainId := cfg.chainId
    number := number
    hash := hash
    parentHash := b.block.parentHash
    timestamp := b.block.timestamp
    finalityState := finalityState
    canonical := canonical }

/-- A mined transaction without its index throws. Without a receipt the
row falls back on the transaction's own gas fields and on success. -/
def buildTransactionRow (cfg : IndexerConfig) (transaction : Transaction)
    (receipt : Option TransactionReceipt) (blockNumber : ℕ) (blockHash : Hash)
    (canonical : Bool) : Option TransactionRow := do
  let transactionIndex ← transaction.transactionIndex
  return {
    chainId := cfg.chainId
    hash := transaction.hash
    transactionIndex := transactionIndex
    blockNumber := blockNumber
    blockHash := blockHash
    fromAddress := transaction.fromAddress
    toAddress := transaction.toAddress
    nonce := transaction.nonce
    valueRaw := transaction.value
    input := transaction.input
    status := match receipt with
      | some receipt => if receipt.success then 1 else 0
      | none => 1
    gasUsed := ((receipt.map (·.gasUsed)).or transaction.gas).getD 0
    effectiveGasPrice := ((receipt.map (·.effectiveGasPrice)).or transaction.gasPrice).getD 0
    contractCreated := receipt.bind (·.contractAddress)
    canonical := canonical }

def buildReceiptRow (cfg : IndexerConfig) (receipt : TransactionReceipt) (blockNumber : ℕ)
    (blockHash : Hash) : ReceiptRow where
  chainId := cfg.chainId
  transactionHash := receipt.transactionHash
  blockNumber := blockNumber
  blockHash := blockHash
  status := if receipt.success then 1 else 0
  gasUsed := receipt.gasUsed
  cumulativeGasUsed := receipt.cumulativeGasUsed
  logsCount := receipt.logs.length

/-- A log without its transaction provenance throws. -/
def buildLogRow (cfg : IndexerConfig) (log : Log) (blockNumber : ℕ) (blockHash : Hash)
    (canonical : Bool) : Option LogRow := do
  let transactionHash ← log.transactionHash
  let transactionIndex ← log.transactionIndex
  let logIndex ← log.logIndex
  return {
    chainId := cfg.chainId
    transactionHash := transactionHash
    transactionIndex := transactionIndex
    logIndex := logIndex
    blockHash := blockHash
    blockNumber := blockNumber
    address := log.address
    topic0 := log.topics[0]?
    topic1 := log.topics[1]?
    topic2 := log.topics[2]?
    topic3 := log.topics[3]?
    data := log.data
    removed := log.removed
    canonical := canonical }

/-- The log rows of a block, when raw logs are kept at all. -/
def buildLogRows (cfg : IndexerConfig) (logs : List Log) (blockNumber : ℕ) (blockHash : Hash)
    (canonical : Bool) : Option (List LogRow) :=
  if cfg.persistRawLogs then
    logs.mapM fun log => buildLogRow cfg log blockNumber blockHash canonical
  else some []

/-- The rows of one batch of inserts. -/
structure FactRows where
  blocks : List BlockRow
  transactions : List TransactionRow
  receipts : List ReceiptRow
  logs : List LogRow

/-- The rows of a numbered, hashed block. -/
def buildFactRows (cfg : IndexerConfig) (b : BlockData) (number : ℕ) (hash : Hash)
    (finalityState : FinalityState) (canonical : Bool) : Option FactRows := do
  let block ← buildBlockRow cfg b finalityState canonical
  let transactions ← b.transactions.mapM fun t =>
    buildTransactionRow cfg t (receiptByTxHash b.receipts t.hash) number hash canonical
  let logs ← buildLogRows cfg b.logs number hash canonical
  return {
    blocks := [block]
    transactions := transactions
    receipts := b.receipts.map fun r => buildReceiptRow cfg r number hash
    logs := logs }

/-- The inserts of one database transaction. -/
def Db.insertFacts (db : Db) (rows : FactRows) : Db :=
  { db with
    blocks := db.blocks.insertAll rows.blocks
    transactions := db.transactions.insertAll rows.transactions
    transactionReceipts := db.transactionReceipts.insertAll rows.receipts
    logs := db.logs.insertAll rows.logs }

/-- `persistBlockData`, with `writeBlockData` inlined: a block without
number or hash is skipped. -/
def persistBlockData (cfg : IndexerConfig) (db : Db) (b : BlockData)
    (finalityState : FinalityState) (canonical : Bool) : Option Db :=
  match b.block.number, b.block.hash with
  | some number, some hash => do
    let rows ← buildFactRows cfg b number hash finalityState canonical
    return db.insertFacts rows
  | _, _ => some db

/-- The window's rows are built before its transaction opens. -/
def buildWindowRows (cfg : IndexerConfig) (finalityState : FinalityState) (canonical : Bool) :
    List BlockData → Option FactRows
  | [] => some ⟨[], [], [], []⟩
  | b :: bs =>
    match b.block.number, b.block.hash with
    | some number, some hash => do
      let rows ← buildFactRows cfg b number hash finalityState canonical
      let rest ← buildWindowRows cfg finalityState canonical bs
      return {
        blocks := rows.blocks ++ rest.blocks
        transactions := rows.transactions ++ rest.transactions
        receipts := rows.receipts ++ rest.receipts
        logs := rows.logs ++ rest.logs }
    | _, _ => buildWindowRows cfg finalityState canonical bs

/-- `persistBlockWindow`: the whole window in one transaction. -/
def persistBlockWindow (cfg : IndexerConfig) (db : Db) (bs : List BlockData)
    (finalityState : FinalityState) (canonical : Bool) : Option Db := do
  let rows ← buildWindowRows cfg finalityState canonical bs
  return db.insertFacts rows

end HoodSentry
