import HoodSentry.Common.Table
import HoodSentry.Model.Chain
/-!
# The backfill of pools

`apps/indexer/src/pool-backfill.ts` with the provenance its rows take and the
store they go to: a pass walks the pairs of a factory's registry from a
stored cursor on, in batches. What the providers and the store answer a pass
is a parameter; each of their calls may throw.
-/

namespace HoodSentry

namespace PoolBackfill

/-! ## Provenance -/

/-- `PAIR_CREATED_TOPIC`. -/
def PAIR_CREATED_TOPIC : Hash :=
  ⟨0x0d3648bd0f6ba80134a33ba9275ac585d9d315f0ad8355cddefde31afa28d0e9⟩

def ADDRESSES_PER_REQUEST : ℕ := 10

/-- What the explorer says of a contract; a block number that is no number
is absent. -/
structure CreationRecord where
  contractAddress : Address
  blockNumber : Option ℕ
  txHash : Hash
  contractFactory : Option Address
deriving DecidableEq

structure ReceiptLog where
  address : Address
  topics : List Hash
  logIndex : ℕ
deriving DecidableEq

structure ReceiptRecord where
  blockHash : Hash
  logs : List ReceiptLog
deriving DecidableEq

/-- Where a pair comes from; an unknown factory is absent. -/
structure PairProvenance where
  address : Address
  createdBlock : ℕ
  createdTxHash : Hash
  createdBlockHash : Hash
  creationLogIndex : ℕ
  factoryAddress : Option Address
deriving DecidableEq

/-! ## What a pass is answered -/

structure PairTokens where
  token0 : Address
  token1 : Address
deriving DecidableEq

/-- A registered protocol. -/
structure Protocol where
  id : ℕ
  protocolKey : String
  version : String
deriving DecidableEq

/-- **The answers of one pass.** A call that throws has its message; a
receipt that cannot be read is none. `insertRow` and `writeCursor` are what
these calls throw, and `protocols` the factories of the `dex_protocols`
rows. -/
structure PassAnswers where
  totalPairs : Except String ℕ
  readCursor : Option String
  knownPoolAddresses : Option String
  pairAtIndex : ℕ → Except String Address
  pairTokens : Address → Except String PairTokens
  explorer : List Address → Except String (List CreationRecord)
  receipt : Hash → Except String (Option ReceiptRecord)
  protocols : Address → Option Protocol
  insertRow : Address → Option String
  writeCursor : ℕ → Option String

section Provenance

variable (answers : PassAnswers)

/-- `resolve`: a creation as the chain confirms it. -/
def resolve (creation : CreationRecord) : Option PairProvenance :=
  match answers.receipt creation.txHash with
  | .error _ => none
  | .ok none => none
  | .ok (some receipt) => do
    let event ← receipt.logs.find? fun log => log.topics.head? = some PAIR_CREATED_TOPIC &&
      (creation.contractFactory.isNone || creation.contractFactory = some log.address)
    let createdBlock ← creation.blockNumber
    return {
      address := creation.contractAddress
      createdBlock := createdBlock
      createdTxHash := creation.txHash
      createdBlockHash := receipt.blockHash
      creationLogIndex := event.logIndex
      factoryAddress := creation.contractFactory }

/-- A list in pieces of a size. -/
def slices {α : Type} (size : ℕ) (l : List α) : List (List α) :=
  (List.range ((l.length + size - 1) / size)).map fun k => (l.drop (k * size)).take size

/-- What the requests to the explorer find. -/
def provenances (addresses : List Address) : List PairProvenance :=
  (slices ADDRESSES_PER_REQUEST addresses).flatMap fun chunk =>
    match answers.explorer chunk with
    | .error _ => []
    | .ok creations => creations.filterMap (resolve answers)

/-- **`BlockscoutPairProvenance.lookup`**: the map it answers, read at an
address; a later entry replaces an earlier one. -/
def lookup (addresses : List Address) (address : Address) : Option PairProvenance :=
  ((provenances answers addresses).filter (·.address = address)).getLast?

end Provenance

/-! ## The store -/

structure PoolRow where
  address : Address
  protocolId : ℕ
  protocolKey : String
  protocolVersion : String
  token0Address : Address
  token1Address : Address
  createdBlock : ℕ
  createdTxHash : Hash
  createdBlockHash : Hash
  creationLogIndex : ℕ
  factoryAddress : Address
deriving DecidableEq

/-- The pools of the chain, and the stored cursor. -/
structure PoolStore where
  pools : Table PoolRow.address
  cursor : ℕ

structure BackfilledPool where
  address : Address
  tokens : PairTokens
  origin : PairProvenance
deriving DecidableEq

/-- The row a pool is inserted as, if its factory is a protocol's. -/
def BackfilledPool.row (pool : BackfilledPool) (answers : PassAnswers) : Option PoolRow := do
  let factory ← pool.origin.factoryAddress
  let protocol ← answers.protocols factory
  return {
    address := pool.address
    protocolId := protocol.id
    protocolKey := protocol.protocolKey
    protocolVersion := protocol.version
    token0Address := pool.tokens.token0
    token1Address := pool.tokens.token1
    createdBlock := pool.origin.createdBlock
    createdTxHash := pool.origin.createdTxHash
    createdBlockHash := pool.origin.createdBlockHash
    creationLogIndex := pool.origin.creationLogIndex
    factoryAddress := factory }

/-- **`insertPools`**: row after row, until one throws, and how many were
new; a row whose address is taken is left out. -/
def insertPools (answers : PassAnswers) : List BackfilledPool → Table PoolRow.address → ℕ →
    Table PoolRow.address × Except String ℕ
  | [], pools, inserted => (pools, .ok inserted)
  | pool :: rest, pools, inserted =>
    match answers.insertRow pool.address with
    | some message => (pools, .error message)
    | none =>
      let after := pools.insertAll (pool.row answers).toList
      insertPools answers rest after (inserted + (after.rows.length - pools.rows.length))

/-! ## The pass -/

section Pass

variable (answers : PassAnswers) (known : List Address)

/-- A pair that is read, where it is not known. -/
def candidate (index : ℕ) : Option (Address × PairTokens) :=
  match answers.pairAtIndex index with
  | .error _ => none
  | .ok address =>
    if address ∈ known then none
    else
      match answers.pairTokens address with
      | .error _ => none
      | .ok tokens => some (address, tokens)

def candidates (cursor stop : ℕ) : List (Address × PairTokens) :=
  (List.range' cursor (stop - cursor)).filterMap (candidate answers known)

/-- The candidates whose provenance is established. -/
def batchRows (cursor stop : ℕ) : List BackfilledPool :=
  let found := candidates answers known cursor stop
  found.filterMap fun pair =>
    (lookup answers (found.map (·.1)) pair.1).map fun origin => ⟨pair.1, pair.2, origin⟩

/-- **What one batch does**: its rows, and the cursor behind it; how many of
the rows were new. -/
def batch (cursor stop : ℕ) (store : PoolStore) : PoolStore × Except String ℕ :=
  match insertPools answers (batchRows answers known cursor stop) store.pools 0 with
  | (pools, .error message) => ({ store with pools := pools }, .error message)
  | (pools, .ok inserted) =>
    match answers.writeCursor stop with
    | some message => ({ store with pools := pools }, .error message)
    | none => (⟨pools, stop⟩, .ok inserted)

structure PassResult where
  scanned : ℕ
  inserted : ℕ
deriving DecidableEq

/-- The loop over the batches; `fuel` bounds their number. -/
def walk (batchSize total : ℕ) : (fuel cursor : ℕ) → PassResult → PoolStore →
    PoolStore × Except String PassResult
  | 0, _, result, store => (store, .ok result)
  | fuel + 1, cursor, result, store =>
    if cursor < total then
      let stop := min (cursor + batchSize) total
      match batch answers known cursor stop store with
      | (store, .error message) => (store, .error message)
      | (store, .ok inserted) =>
        walk batchSize total fuel stop
          ⟨result.scanned + (stop - cursor), result.inserted + inserted⟩ store
    else (store, .ok result)

end Pass

/-- Batches are not empty. -/
structure Options where
  batchSize : ℕ
  positive : 0 < batchSize

/-- **`PoolBackfill.run`**: the store a pass leaves, and its counts or what
it throws. A batch moves the cursor on, so there are no more of them than
pairs. -/
def run (options : Options) (answers : PassAnswers) (store : PoolStore) :
    PoolStore × Except String PassResult :=
  match answers.totalPairs with
  | .error message => (store, .error message)
  | .ok total =>
    match answers.readCursor with
    | some message => (store, .error message)
    | none =>
      if total ≤ store.cursor then (store, .ok ⟨0, 0⟩)
      else
        match answers.knownPoolAddresses with
        | some message => (store, .error message)
        | none =>
          walk answers store.pools.keys options.batchSize total total store.cursor ⟨0, 0⟩ store

end PoolBackfill

end HoodSentry
