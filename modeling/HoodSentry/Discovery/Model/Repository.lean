import HoodSentry.Common.Table
import HoodSentry.Model.Chain
/-!
# The discovery tables

`DrizzleDiscoveryRepository`: a snapshot for each block a token was
scored at, and the current row of each token. An item is kept with the
fields its row repeats; the payload is the item itself.
-/

namespace HoodSentry

structure DiscoveryItem where
  chainId : ℕ
  address : Address
  methodologyVersion : String
  scoreBps : ℤ
  confidenceBps : ℤ
  sourceBlockNumber : ℕ
  sourceBlockHash : Hash
  canonical : Bool
  observedAt : ℕ
deriving DecidableEq

/-- A row of `discovery_snapshots`, and of `discovery_current`. -/
structure DiscoveryRow where
  chainId : ℕ
  tokenAddress : Address
  methodologyVersion : String
  sourceBlockNumber : ℕ
  sourceBlockHash : Hash
  scoreBps : ℤ
  confidenceBps : ℤ
  payload : DiscoveryItem
  canonical : Bool
  observedAt : ℕ
deriving DecidableEq

/-- `discovery_current` is keyed by chain, token and methodology. -/
def DiscoveryRow.currentKey (r : DiscoveryRow) : ℕ × Address × String :=
  (r.chainId, r.tokenAddress, r.methodologyVersion)

/-- `discovery_snapshots` is keyed by the block number as well. -/
def DiscoveryRow.snapshotKey (r : DiscoveryRow) : (ℕ × Address × String) × ℕ :=
  (r.currentKey, r.sourceBlockNumber)

structure DiscoveryTables where
  snapshots : Table DiscoveryRow.snapshotKey
  current : Table DiscoveryRow.currentKey

namespace DiscoveryTables

/-- The values both inserts of `saveSnapshot` are given. -/
def values (item : DiscoveryItem) : DiscoveryRow where
  chainId := item.chainId
  tokenAddress := item.address
  methodologyVersion := item.methodologyVersion
  sourceBlockNumber := item.sourceBlockNumber
  sourceBlockHash := item.sourceBlockHash
  scoreBps := item.scoreBps
  confidenceBps := item.confidenceBps
  payload := item
  canonical := item.canonical
  observedAt := item.observedAt

/-- A snapshot is kept where one is stored; the current row is replaced
by an item of its own block or a later one. -/
def saveSnapshot (t : DiscoveryTables) (item : DiscoveryItem) : DiscoveryTables where
  snapshots := t.snapshots.insertNew (values item)
  current := t.current.upsert (values item)
    (fun old =>
      if old.sourceBlockNumber ≤ item.sourceBlockNumber then
        { old with
          sourceBlockNumber := item.sourceBlockNumber
          sourceBlockHash := item.sourceBlockHash
          scoreBps := item.scoreBps
          confidenceBps := item.confidenceBps
          payload := item
          canonical := item.canonical
          observedAt := item.observedAt }
      else old)
    fun old => by split <;> rfl

def listCurrent (t : DiscoveryTables) (chainId : ℕ) (methodologyVersion : String) :
    List DiscoveryItem :=
  (t.current.rows.filter fun r => r.chainId = chainId &&
    r.methodologyVersion = methodologyVersion && r.canonical).map (·.payload)

/-- A row names a block of a range. -/
def affected (chainId fromBlock toBlock : ℕ) (r : DiscoveryRow) : Bool :=
  r.chainId = chainId && fromBlock ≤ r.sourceBlockNumber && r.sourceBlockNumber ≤ toBlock

/-- Snapshots of the range are marked, current rows deleted. -/
def markNonCanonical (t : DiscoveryTables) (chainId fromBlock toBlock : ℕ) : DiscoveryTables where
  snapshots := t.snapshots.updateWhere (affected chainId fromBlock toBlock)
    (fun r => { r with canonical := false }) fun _ => rfl
  current := t.current.deleteWhere (affected chainId fromBlock toBlock)

end DiscoveryTables

end HoodSentry
