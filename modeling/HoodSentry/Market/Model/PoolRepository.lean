import HoodSentry.Model.Schema
import HoodSentry.Indexer.Model.Reorg
import HoodSentry.Common.Machine
/-!
# The stored state of a pool

`ProtocolRepository` keeps what was read of a pool in three tables: a
snapshot for each block it was read at, the latest state on the pool's own
row, and a reserve on the row of each of its tokens. A read is written by
`updatePoolState`, one database transaction; a reorg is undone by
`markDerivedNonCanonical`, after the blocks of the range are marked
orphaned. The other tables it marks are with the indexer's statements.
-/

namespace HoodSentry

/-! ## Rows -/

/-- A value of a stored state: a bigint is stored in decimal. -/
inductive StateValue
  | text (value : String)
  | bigint (value : ℕ)
  | number (value : ℤ)
deriving DecidableEq

/-- The JSON record of a stored state, in the order of its keys. -/
abbrev StateRecord := List (String × StateValue)

/-- The `pools` columns the market's reads leave out. -/
structure StoredPoolRow extends PoolRow where
  factoryAddress : Address
  feeTier : Option ℕ
  tickSpacing : Option ℤ
  createdBlock : ℕ
  createdBlockHash : Hash
  createdTxHash : Hash
  creationLogIndex : ℕ
  state : Option StateRecord
  stateBlockNumber : Option ℕ
  stateBlockHash : Option Hash
deriving DecidableEq

/-- `pools` is keyed by chain and address. -/
def StoredPoolRow.key (r : StoredPoolRow) : ℕ × Address := (r.chainId, r.address)

structure PoolTokenRow where
  chainId : ℕ
  poolAddress : Address
  tokenAddress : Address
  reserveRaw : ℕ
deriving DecidableEq

/-- `pool_tokens` is keyed by chain, pool and token. -/
def PoolTokenRow.key (r : PoolTokenRow) : ℕ × Address × Address :=
  (r.chainId, r.poolAddress, r.tokenAddress)

/-- The `pool_state_snapshots` columns the market's reads leave out. -/
structure StoredSnapshotRow extends PoolStateSnapshotRow where
  protocolKey : String
  protocolVersion : String
  poolType : String
  lpTotalSupplyRaw : Option ℕ
  state : StateRecord
deriving DecidableEq

/-- `pool_state_snapshots` is keyed by chain, pool and block. -/
def StoredSnapshotRow.key (r : StoredSnapshotRow) : ℕ × Address × Hash :=
  (r.chainId, r.poolAddress, r.sourceBlockHash)

/-- The tables the state of a pool is kept in, with the blocks it is
checked against. -/
structure PoolDb where
  blocks : Table BlockRow.key
  pools : Table StoredPoolRow.key
  poolTokens : Table PoolTokenRow.key
  poolStateSnapshots : Table StoredSnapshotRow.key

/-- The tables before anything is stored. -/
def PoolDb.empty : PoolDb := ⟨∅, ∅, ∅, ∅⟩

/-! ## What is read of a pool -/

structure NormalizedPool where
  chainId : ℕ
  protocolKey : String
  protocolVersion : String
  poolAddress : Address
  factoryAddress : Address
  token0Address : Address
  token1Address : Address
  feeTier : Option ℕ
  tickSpacing : Option ℤ
  poolType : String
  createdBlockNumber : ℕ
  createdBlockHash : Hash
  creationTransactionHash : Hash
  creationLogIndex : ℕ
  canonical : Bool
deriving DecidableEq

inductive NormalizedPoolState
  | constantProduct (reserve0Raw reserve1Raw lpTotalSupplyRaw : ℕ)
  | concentratedLiquidity (sqrtPriceX96 : ℕ) (currentTick : ℤ) (activeLiquidityRaw : ℕ)
  | generic (poolType : String) (liquidityRaw : ℕ) (state : List (String × String))
deriving DecidableEq

namespace NormalizedPoolState

def poolType : NormalizedPoolState → String
  | constantProduct .. => "constantProduct"
  | concentratedLiquidity .. => "concentratedLiquidity"
  | generic poolType .. => poolType

/-- The reserves of a constant-product pool; other states have none. -/
def reserves : NormalizedPoolState → Option (ℕ × ℕ)
  | constantProduct reserve0Raw reserve1Raw _ => some (reserve0Raw, reserve1Raw)
  | _ => none

def lpTotalSupply : NormalizedPoolState → Option ℕ
  | constantProduct _ _ lpTotalSupplyRaw => some lpTotalSupplyRaw
  | _ => none

end NormalizedPoolState

/-- A property spread over a record: under a key it has, in its place. -/
def StateRecord.assign (record : StateRecord) (entry : String × String) : StateRecord :=
  if record.any fun e => e.1 = entry.1 then
    record.map fun e => if e.1 = entry.1 then (e.1, .text entry.2) else e
  else record ++ [(entry.1, .text entry.2)]

/-- `stateRecord`: of a generic state its own properties come last, and
overwrite. -/
def stateRecord : NormalizedPoolState → StateRecord
  | .constantProduct reserve0Raw reserve1Raw lpTotalSupplyRaw =>
    [("poolType", .text "constantProduct"), ("reserve0Raw", .bigint reserve0Raw),
      ("reserve1Raw", .bigint reserve1Raw), ("lpTotalSupplyRaw", .bigint lpTotalSupplyRaw)]
  | .concentratedLiquidity sqrtPriceX96 currentTick activeLiquidityRaw =>
    [("poolType", .text "concentratedLiquidity"), ("sqrtPriceX96", .bigint sqrtPriceX96),
      ("currentTick", .number currentTick), ("activeLiquidityRaw", .bigint activeLiquidityRaw)]
  | .generic poolType liquidityRaw state =>
    state.foldl StateRecord.assign
      [("poolType", .text poolType), ("liquidityRaw", .bigint liquidityRaw)]

namespace PoolDb

variable (db : PoolDb)

/-! ## Writing a pool -/

/-- `upsertPoolTokens`: a token that has its row keeps it. -/
def upsertPoolTokens (pool : NormalizedPool) : PoolDb :=
  { db with
    poolTokens := db.poolTokens.insertAll
      ([pool.token0Address, pool.token1Address].map fun tokenAddress =>
        ⟨pool.chainId, pool.poolAddress, tokenAddress, 0⟩) }

/-- The row `upsertPool` inserts, with the identity `findProtocol` answered. -/
def poolRow (protocolId : ℕ) (pool : NormalizedPool) : StoredPoolRow where
  chainId := pool.chainId
  address := pool.poolAddress
  protocolId := protocolId
  protocolKey := pool.protocolKey
  protocolVersion := pool.protocolVersion
  factoryAddress := pool.factoryAddress
  token0Address := pool.token0Address
  token1Address := pool.token1Address
  feeTier := pool.feeTier
  tickSpacing := pool.tickSpacing
  poolType := pool.poolType
  createdBlock := pool.createdBlockNumber
  createdBlockHash := pool.createdBlockHash
  createdTxHash := pool.creationTransactionHash
  creationLogIndex := pool.creationLogIndex
  canonical := pool.canonical
  active := pool.canonical
  state := none
  stateBlockNumber := none
  stateBlockHash := none

/-- `upsertPool`: a pool stored before keeps its state and takes everything
else. -/
def upsertPool (protocolId : ℕ) (pool : NormalizedPool) : PoolDb :=
  let row := poolRow protocolId pool
  let merge (old : StoredPoolRow) : StoredPoolRow :=
    { row with
      chainId := old.chainId
      address := old.address
      state := old.state
      stateBlockNumber := old.stateBlockNumber
      stateBlockHash := old.stateBlockHash }
  upsertPoolTokens { db with pools := db.pools.upsert row merge fun _ => rfl } pool

/-! ## Writing a state -/

/-- Whether a block is stored, and canonical. -/
def isCanonicalBlock (chainId blockNumber : ℕ) (blockHash : Hash) : Bool :=
  db.blocks.rows.any fun r =>
    r.chainId = chainId && r.number = blockNumber && r.hash = blockHash && r.canonical

/-- The snapshot of a read, in its block's row or a new one. -/
def saveSnapshot (pool : StoredPoolRow) (state : NormalizedPoolState) (blockNumber : ℕ)
    (blockHash : Hash) (canonical : Bool) : PoolDb :=
  let record := stateRecord state
  let row : StoredSnapshotRow :=
    { chainId := pool.chainId
      poolAddress := pool.address
      protocolKey := pool.protocolKey
      protocolVersion := pool.protocolVersion
      poolType := state.poolType
      sourceBlockNumber := blockNumber
      sourceBlockHash := blockHash
      reserve0Raw := state.reserves.map Prod.fst
      reserve1Raw := state.reserves.map Prod.snd
      lpTotalSupplyRaw := state.lpTotalSupply
      state := record
      canonical := canonical }
  let merge (old : StoredSnapshotRow) : StoredSnapshotRow :=
    { old with
      state := record
      reserve0Raw := state.reserves.map Prod.fst
      reserve1Raw := state.reserves.map Prod.snd
      lpTotalSupplyRaw := state.lpTotalSupply
      canonical := canonical }
  { db with poolStateSnapshots := db.poolStateSnapshots.upsert row merge fun _ => rfl }

/-- The state on the pool's row, unless a later block's is there. -/
def setPoolState (chainId : ℕ) (address : Address) (record : StateRecord) (blockNumber : ℕ)
    (blockHash : Hash) : PoolDb :=
  { db with
    pools := db.pools.updateWhere
      (fun r => r.chainId = chainId && r.address = address &&
        r.stateBlockNumber.all fun stored => stored ≤ blockNumber)
      (fun r => { r with
        state := some record
        stateBlockNumber := some blockNumber
        stateBlockHash := some blockHash }) fun _ => rfl }

/-- The reserve of one token of a pool. -/
def setReserve (chainId : ℕ) (address token : Address) (reserveRaw : ℕ) : PoolDb :=
  { db with
    poolTokens := db.poolTokens.updateWhere
      (fun r => r.chainId = chainId && r.poolAddress = address && r.tokenAddress = token)
      (fun r => { r with reserveRaw := reserveRaw }) fun _ => rfl }

/-- **`updatePoolState`.** A pool that is not indexed throws before
anything is written, and a block that is not canonical leaves a snapshot
only. The reserves are written where the state was. -/
def updatePoolState (chainId : ℕ) (address : Address) (state : NormalizedPoolState)
    (blockNumber : ℕ) (blockHash : Hash) : PoolDb :=
  match db.pools.find (chainId, address) with
  | none => db
  | some pool =>
    let canonical := db.isCanonicalBlock chainId blockNumber blockHash
    let saved := db.saveSnapshot pool state blockNumber blockHash canonical
    if !canonical then saved
    else
      let updated := pool.stateBlockNumber.all fun stored => stored ≤ blockNumber
      let written := saved.setPoolState chainId address (stateRecord state) blockNumber blockHash
      match state.reserves with
      | some (reserve0Raw, reserve1Raw) =>
        if !updated then written
        else
          (written.setReserve chainId address pool.token0Address reserve0Raw).setReserve chainId
            address pool.token1Address reserve1Raw
      | none => written

/-! ## Undoing a reorg -/

/-- A block orphaned is the block it was. -/
theorem key_orphaned (r : BlockRow) :
    ({ r with canonical := false, finalityState := .orphaned } : BlockRow).key = r.key := rfl

/-- `markBlocksOrphaned`. -/
def markBlocksOrphaned (cfg : IndexerConfig) (fromBlock toBlock : ℕ) : PoolDb :=
  { db with
    blocks := db.blocks.updateWhere
      (fun r => inRange cfg fromBlock toBlock r.chainId r.number && r.canonical)
      (fun r => { r with canonical := false, finalityState := .orphaned }) key_orphaned }

/-- **`markDerivedNonCanonical`**, of a pool's state: the snapshots of the
range lose their flag, a state read in it is dropped, and so are the flags
of a pool created in it. -/
def markDerivedNonCanonical (cfg : IndexerConfig) (fromBlock toBlock : ℕ) : PoolDb :=
  { db with
    poolStateSnapshots := db.poolStateSnapshots.updateWhere
      (fun r => inRange cfg fromBlock toBlock r.chainId r.sourceBlockNumber && r.canonical)
      (fun r => { r with canonical := false }) fun _ => rfl
    pools := (db.pools.updateWhere
      (fun r => r.stateBlockNumber.any fun n => inRange cfg fromBlock toBlock r.chainId n)
      (fun r => { r with state := none, stateBlockNumber := none, stateBlockHash := none })
      fun _ => rfl).updateWhere
      (fun r => inRange cfg fromBlock toBlock r.chainId r.createdBlock && r.canonical)
      (fun r => { r with canonical := false, active := false }) fun _ => rfl }

end PoolDb

/-! ## Runs -/

/-- A call on the tables. Blocks are stored by the indexer as it passes
them, and a reorg is handled as a whole. -/
inductive PoolCall
  | upsertPool (protocolId : ℕ) (pool : NormalizedPool)
  | persistBlock (row : BlockRow)
  | updatePoolState (chainId : ℕ) (address : Address) (state : NormalizedPoolState)
      (blockHash : Hash)
  | handleReorg (cfg : IndexerConfig) (fromBlock toBlock : ℕ)

/-- The tables after a call. A block hash settles the number of its block,
which `height` tells. -/
def PoolDb.call (height : Hash → ℕ) (db : PoolDb) : PoolCall → PoolDb
  | .upsertPool protocolId pool => db.upsertPool protocolId pool
  | .persistBlock row =>
    { db with blocks := db.blocks.insertNew { row with number := height row.hash } }
  | .updatePoolState chainId address state blockHash =>
    db.updatePoolState chainId address state (height blockHash) blockHash
  | .handleReorg cfg fromBlock toBlock =>
    (db.markBlocksOrphaned cfg fromBlock toBlock).markDerivedNonCanonical cfg fromBlock toBlock

/-- **The tables under any calls in any order.** -/
def poolMachine (height : Hash → ℕ) : Machine PoolDb PoolCall where
  Init db := db = .empty
  step db call := some (db.call height call)

/-! ## Following the chain -/

namespace PoolDb

variable (db : PoolDb)

/-- The snapshots of a pool whose block is canonical. -/
def canonicalSnapshots (pool : StoredPoolRow) : List StoredSnapshotRow :=
  db.poolStateSnapshots.rows.filter fun s =>
    s.chainId = pool.chainId && s.poolAddress = pool.address &&
      db.isCanonicalBlock s.chainId s.sourceBlockNumber s.sourceBlockHash

/-- The stored reserve of a token of a pool: nothing where it has no row. -/
def reserveRaw (chainId : ℕ) (address token : Address) : ℕ :=
  (db.poolTokens.find (chainId, address, token)).elim 0 (·.reserveRaw)

/-- The stored reserves of a pool's two tokens. -/
def reserves (pool : StoredPoolRow) : ℕ × ℕ :=
  (db.reserveRaw pool.chainId pool.address pool.token0Address,
    db.reserveRaw pool.chainId pool.address pool.token1Address)

/-- What the tables show of a pool is what a snapshot says. -/
def Shows (pool : StoredPoolRow) (s : StoredSnapshotRow) : Prop :=
  pool.state = some s.state ∧ pool.stateBlockNumber = some s.sourceBlockNumber ∧
    db.reserves pool = (s.reserve0Raw.getD 0, s.reserve1Raw.getD 0)
deriving Decidable

/-- The tables show nothing of a pool. -/
def ShowsNothing (pool : StoredPoolRow) : Prop :=
  pool.state = none ∧ pool.stateBlockNumber = none ∧ db.reserves pool = (0, 0)
deriving Decidable

/-- **Pool state follows the canonical chain**: the tables show of every
pool its highest snapshot whose block is canonical, and nothing where there
is none. -/
def FollowsChain : Prop :=
  ∀ pool ∈ db.pools,
    (db.canonicalSnapshots pool = [] ∧ db.ShowsNothing pool) ∨
      ∃ s ∈ db.canonicalSnapshots pool,
        (∀ s' ∈ db.canonicalSnapshots pool, s'.sourceBlockNumber ≤ s.sourceBlockNumber) ∧
          db.Shows pool s
deriving Decidable

end PoolDb

end HoodSentry
