import HoodSentry.Common.Paging
import HoodSentry.Common.Table
import HoodSentry.Indexer.Model.Retention
/-!
# Pages by a timestamp

`core/pagination.ts` and the repositories that page by a timestamp. The
tables keep microseconds; a row that is read carries its timestamp as a
date, in milliseconds, and so does a cursor. An encoded cursor is kept as
what it encodes, and an id by its place in the order of ids.
-/

namespace HoodSentry

/-! ## Pagination -/

inductive OrderBy
  | asc | desc
deriving DecidableEq

structure CursorPaginationOptions where
  limit : ℕ
  cursor : Option ℕ
  orderBy : OrderBy
deriving DecidableEq

structure PaginatedResult (α : Type) where
  data : List α
  nextCursor : Option ℕ
  hasMore : Bool
deriving DecidableEq

/-- A date: the milliseconds of a timestamp. -/
def toDate (timestamp : ℕ) : ℕ := timestamp / 1000

/-- `decodeCursorAsDate`, as the timestamp it is compared as. -/
def decodeCursorAsDate (cursor : ℕ) : ℕ := cursor * 1000

def buildPaginatedResult {α : Type} (data : List α) (limit : ℕ) (getCursorValue : α → ℕ) :
    PaginatedResult α :=
  let hasMore : Bool := limit < data.length
  let trimmedData := if hasMore then data.take limit else data
  { data := trimmedData
    nextCursor := if hasMore then trimmedData.getLast?.map getCursorValue else none
    hasMore := hasMore }

/-! ## Paged reads -/

/-- Strictly before in a direction. -/
def OrderBy.Lt : OrderBy → ℕ → ℕ → Prop
  | .asc, a, b => a < b
  | .desc, a, b => b < a

instance (o : OrderBy) (a b : ℕ) : Decidable (o.Lt a b) :=
  match o with
  | .asc => Nat.decLt a b
  | .desc => Nat.decLt b a

def OrderBy.Le (o : OrderBy) (a b : ℕ) : Prop := o.Lt a b ∨ a = b
deriving Decidable

/-- **A read that pages by a timestamp**: its rows, the column it pages by,
and the column that breaks ties with its own direction. -/
structure PagedQuery (ρ : Type) where
  matching : ρ → Bool
  timestamp : ρ → ℕ
  tie : ρ → ℕ
  tieOrder : OrderBy → OrderBy

namespace PagedQuery

variable {ρ κ : Type} {key : ρ → κ} (q : PagedQuery ρ)

/-- The query's `ORDER BY`. -/
def Before (o : OrderBy) (r r' : ρ) : Prop :=
  o.Lt (q.timestamp r) (q.timestamp r') ∨
    (q.timestamp r = q.timestamp r' ∧ (q.tieOrder o).Le (q.tie r) (q.tie r'))

instance (o : OrderBy) : DecidableRel (q.Before o) := fun _ _ =>
  inferInstanceAs (Decidable (_ ∨ _))

/-- Past a cursor: `gt` or `lt`, by the direction. -/
def past (o : OrderBy) (cursor : ℕ) (r : ρ) : Bool :=
  o.Lt (decodeCursorAsDate cursor) (q.timestamp r)

/-- The query's conditions, with the cursor's where there is one. -/
def conditions (o : OrderBy) (cursor : Option ℕ) (r : ρ) : Bool :=
  match cursor with
  | none => q.matching r
  | some cursor => q.matching r && q.past o cursor r

/-- One page. -/
def page (t : Table key) (options : CursorPaginationOptions) : PaginatedResult ρ :=
  let rows := ((t.rows.filter (q.conditions options.orderBy options.cursor)).insertionSort
    (q.Before options.orderBy)).take (options.limit + 1)
  buildPaginatedResult rows options.limit fun r => toDate (q.timestamp r)

end PagedQuery

/-! ## The repositories -/

/-- A row of `logs` with its `created_at`. -/
structure LogEntry extends LogRow where
  createdAt : ℕ
deriving DecidableEq

/-- `logs` is keyed by chain, transaction, log index and block hash. -/
def LogEntry.entryKey (r : LogEntry) : ℕ × Hash × ℕ × Hash :=
  (r.chainId, r.transactionHash, r.logIndex, r.blockHash)

/-- A row of `risk_findings` with its `created_at`. -/
structure FindingEntry where
  id : ℕ
  scanRunId : ℕ
  createdAt : ℕ
deriving DecidableEq

structure AlertRuleEntry where
  id : ℕ
  userId : ℕ
  deletedAt : Option ℕ
  createdAt : ℕ
deriving DecidableEq

structure AlertEventEntry where
  id : ℕ
  alertRuleId : ℕ
  triggeredAt : ℕ
deriving DecidableEq

structure UserEntry where
  id : ℕ
  deletedAt : Option ℕ
  createdAt : ℕ
deriving DecidableEq

structure AdminAuditLog where
  id : ℕ
  adminUserId : ℕ
  targetType : String
  targetId : String
  performedAt : ℕ
deriving DecidableEq

/-- Newest or oldest first, and within a timestamp by id in the same
direction. -/
def byId {ρ : Type} (matching : ρ → Bool) (timestamp id : ρ → ℕ) : PagedQuery ρ :=
  ⟨matching, timestamp, id, fun o => o⟩

/-- `getLogsByAddress`; the tie-breaker rises in both directions. -/
def logsByAddress (chainId : ℕ) (address : Address) : PagedQuery LogEntry :=
  ⟨fun r => r.chainId = chainId && r.address = address, (·.createdAt), (·.logIndex), fun _ => .asc⟩

/-- `getLogsByTopic`. -/
def logsByTopic (chainId : ℕ) (topic0 : Hex) : PagedQuery LogEntry :=
  ⟨fun r => r.chainId = chainId && r.topic0 = some topic0, (·.createdAt), (·.logIndex),
    fun _ => .asc⟩

/-- `getScansByTarget`. -/
def scansByTarget (chainId : ℕ) (targetAddress : String) : PagedQuery ScanRunRow :=
  byId (fun r => r.chainId = chainId && r.targetAddress = targetAddress) (·.createdAt) (·.id)

/-- `getFindingsByTarget`: the findings joined to their runs. -/
def findingsByTarget (runs : Table ScanRunRow.id) (chainId : ℕ) (targetAddress : String) :
    PagedQuery FindingEntry :=
  byId (fun f => runs.rows.any fun r =>
    r.id = f.scanRunId && r.chainId = chainId && r.targetAddress = targetAddress) (·.createdAt) (·.id)

/-- `getAlertRulesByUser`. -/
def alertRulesByUser (userId : ℕ) : PagedQuery AlertRuleEntry :=
  byId (fun r => r.userId = userId && r.deletedAt.isNone) (·.createdAt) (·.id)

/-- `getAlertEventsByRule`. -/
def alertEventsByRule (alertRuleId : ℕ) : PagedQuery AlertEventEntry :=
  byId (fun r => r.alertRuleId = alertRuleId) (·.triggeredAt) (·.id)

/-- `getUsers`. -/
def users : PagedQuery UserEntry := byId (fun r => r.deletedAt.isNone) (·.createdAt) (·.id)

/-- `getAuditLogs`. -/
def auditLogs : PagedQuery AdminAuditLog := byId (fun _ => true) (·.performedAt) (·.id)

/-- `getAuditLogsByAdmin`. -/
def auditLogsByAdmin (adminUserId : ℕ) : PagedQuery AdminAuditLog :=
  byId (fun r => r.adminUserId = adminUserId) (·.performedAt) (·.id)

/-- `getAuditLogsByTarget`. -/
def auditLogsByTarget (targetType targetId : String) : PagedQuery AdminAuditLog :=
  byId (fun r => r.targetType = targetType && r.targetId = targetId) (·.performedAt) (·.id)

end HoodSentry
