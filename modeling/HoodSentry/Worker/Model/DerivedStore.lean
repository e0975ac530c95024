import HoodSentry.Discovery.Model.Repository
import HoodSentry.Indexer.Model.Reorg
import HoodSentry.Worker.Model.RiskScan
/-!
# Every table that names a source block

The indexer's database beside the tables the risk and discovery jobs and
the provider clients keep, what a handled reorg does to them, and the two
jobs that invalidate what it leaves.
-/

namespace HoodSentry

/-! ## The other tables -/

/-- What `createRescanRequestIdempotencyKey` is the hash of. -/
structure RescanRequestKey where
  target : RiskTarget
  trigger : RescanTrigger
  sourceBlock : ℕ
  sourceBlockHash : Hash
  eventId : String
  rulesetVersion : String
deriving DecidableEq

inductive RescanStatus
  | queued | running | completed | failed | cancelled | orphaned
deriving DecidableEq

/-- A row of `risk_rescan_requests`; the columns its key repeats are left
to the key. -/
structure RescanRequestRow where
  idempotencyKey : RescanRequestKey
  methodologyVersion : String
  requestedBy : String
  status : RescanStatus
  scanRunId : Option ScanRunKey
  canonical : Bool
deriving DecidableEq

/-- What a row of `provider_evidence` is unique on. -/
structure ProviderEvidenceKey where
  providerId : String
  capability : String
  requestFingerprint : String
  responseHash : Hash
deriving DecidableEq

/-- A row of `provider_evidence`, with what it says of its source. -/
structure ProviderEvidenceRow where
  identity : ProviderEvidenceKey
  chainId : Option ℕ
  sourceBlockNumber : Option ℕ
  sourceBlockHash : Option Hash
  canonical : Bool
deriving DecidableEq

/-- **Every table with a canonical flag and a source block.** -/
structure DerivedStore where
  db : Db
  risk : RiskTables
  rescanRequests : Table RescanRequestRow.idempotencyKey
  discovery : DiscoveryTables
  evidence : Table ProviderEvidenceRow.identity

namespace DerivedStore

/-! ## What a reorg does -/

/-- `handleReorg` has statements for the indexer's tables alone. -/
def handleReorg (cfg : IndexerConfig) (e : ReorgEvent) (s : DerivedStore) : DerivedStore :=
  { s with db := HoodSentry.handleReorg cfg e s.db }

/-- `invalidateScansFromBlock`: everything from a block up. -/
def invalidateScansFromBlock (s : DerivedStore) (chainId fromBlock : ℕ) : DerivedStore :=
  { s with
    risk := s.risk.updateRun
      (fun r => r.idempotencyKey.target.chainId = chainId &&
        fromBlock ≤ r.idempotencyKey.sourceBlock && r.canonical)
      (fun r => { r with canonical := false }) fun _ => rfl
    rescanRequests := s.rescanRequests.updateWhere
      (fun r => r.idempotencyKey.target.chainId = chainId &&
        fromBlock ≤ r.idempotencyKey.sourceBlock && r.canonical)
      (fun r => { r with canonical := false, status := .orphaned }) fun _ => rfl }

/-- `RiskReorgJob.run`; it throws on a chain id that is not positive. -/
def riskReorgJob (s : DerivedStore) (chainId fromBlock : ℕ) : Option DerivedStore :=
  if 0 < chainId then some (s.invalidateScansFromBlock chainId fromBlock) else none

/-- `DiscoveryReorgJob.run`; it throws on an invalid range as well. -/
def discoveryReorgJob (s : DerivedStore) (chainId fromBlock toBlock : ℕ) : Option DerivedStore :=
  if 0 < chainId ∧ fromBlock ≤ toBlock then
    some { s with discovery := s.discovery.markNonCanonical chainId fromBlock toBlock }
  else none

end DerivedStore

end HoodSentry
