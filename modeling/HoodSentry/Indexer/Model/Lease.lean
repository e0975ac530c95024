import HoodSentry.Common.Machine
import HoodSentry.Common.Table
/-!
# Leases

The checkpoint manager's lease calls, cut at their database statements. A
call in flight stands before its next statement; any number of calls, of
any workers, are in flight at once, and a step performs the next
statement of one of them. What a statement reads or writes it does
atomically. A call returns with its last statement.
-/

namespace HoodSentry

/-- The configuration a checkpoint manager's lease calls read. -/
structure CheckpointManager where
  chainId : ℕ
  workerId : String
  leaseDurationMs : ℕ
deriving DecidableEq

/-- **A lease**, as a row of `indexer_leases` and as a call returns it.
Times are milliseconds. -/
structure Lease where
  chainId : ℕ
  stream : String
  workerId : String
  expiresAt : ℕ
  createdAt : ℕ
deriving DecidableEq

/-- The primary key, which leaves the worker out. -/
def Lease.key (l : Lease) : ℕ × String := (l.chainId, l.stream)

/-- The takeover test. -/
def Lease.ExpiredAt (l : Lease) (now : ℕ) : Prop := l.expiresAt < now

instance (l : Lease) (now : ℕ) : Decidable (l.ExpiredAt now) :=
  inferInstanceAs (Decidable (l.expiresAt < now))

/-- **Where a call stands**: what it does next, with the clock it read
when it, or the call it recurses into, began. `acquiring` marks a renewal
`acquireLease` returns the result of. -/
inductive Stage
  | acquireLease
  | insertLease (now : ℕ)
  | findOwn (now : ℕ)
  | findOther (now : ℕ)
  | deleteOther (now : ℕ)
  | renewLease (acquiring : Bool)
  | updateLease (now : ℕ) (acquiring : Bool)
  | releaseLease
deriving DecidableEq

structure Call where
  manager : CheckpointManager
  stream : String
  stage : Stage
deriving DecidableEq

namespace Call

variable (c : Call)

/-- The key the call's statements are about. -/
def key : ℕ × String := (c.manager.chainId, c.stream)

/-- The `WHERE` clause of the statements about the worker's own lease. -/
def owns (l : Lease) : Bool := l.key = c.key && l.workerId = c.manager.workerId

/-- The row `acquireLease` inserts. -/
def lease (now : ℕ) : Lease :=
  ⟨c.manager.chainId, c.stream, c.manager.workerId, now + c.manager.leaseDurationMs, now⟩

end Call

/-! ## Statements -/

/-- What is seen of the calls: a lease returned, by `acquireLease` or by a
renewal, or released. -/
inductive LeaseEvent
  | granted (lease : Lease) (now : ℕ) (acquired : Bool)
  | released (key : ℕ × String) (workerId : String)
deriving DecidableEq

/-- A statement's effect: the table after it, where the call stands then
(`none` where it returns), and what is seen. -/
structure Outcome where
  leases : Table Lease.key
  next : Option Stage
  event : Option LeaseEvent

/-- **The next statement of a call.** The clock is read where a call of
`acquireLease` or `renewLease` begins, the recursive ones included. -/
def Call.perform (c : Call) (clock : ℕ) (leases : Table Lease.key) : Outcome :=
  match c.stage with
  | .acquireLease => ⟨leases, some (.insertLease clock), none⟩
  | .insertLease now =>
    if c.key ∈ leases.keys then ⟨leases, some (.findOwn now), none⟩
    else ⟨leases.insertNew (c.lease now), none, some (.granted (c.lease now) clock true)⟩
  | .findOwn now =>
    match leases.rows.find? c.owns with
    | some _ => ⟨leases, some (.renewLease true), none⟩
    | none => ⟨leases, some (.findOther now), none⟩
  | .findOther now =>
    match leases.rows.find? fun l => l.key = c.key with
    | some otherLease =>
      if otherLease.ExpiredAt now then ⟨leases, some (.deleteOther now), none⟩
      else ⟨leases, none, none⟩
    | none => ⟨leases, none, none⟩
  | .deleteOther _ => ⟨leases.deleteWhere fun l => l.key = c.key, some .acquireLease, none⟩
  | .renewLease acquiring => ⟨leases, some (.updateLease clock acquiring), none⟩
  | .updateLease now acquiring =>
    let leases' := leases.updateWhere c.owns
      (fun l => { l with expiresAt := now + c.manager.leaseDurationMs }) fun _ => rfl
    ⟨leases', none, (leases'.rows.find? c.owns).map (.granted · clock acquiring)⟩
  | .releaseLease => ⟨leases.deleteWhere c.owns, none, some (.released c.key c.manager.workerId)⟩

/-- The table after a renewal. -/
def Call.renewed (c : Call) (leases : Table Lease.key) (now : ℕ) : Table Lease.key :=
  leases.updateWhere c.owns
    (fun l => { l with expiresAt := now + c.manager.leaseDurationMs }) fun _ => rfl

/-! ## The machine -/

/-- The clock all workers read, the table, the calls in flight, and what
has been seen of them, latest first. -/
structure LeaseWorld where
  clock : ℕ
  leases : Table Lease.key
  calls : List Call
  history : List LeaseEvent

/-- The calls a worker makes. -/
inductive LeaseMethod
  | acquireLease | renewLease | releaseLease
deriving DecidableEq

def LeaseMethod.stage : LeaseMethod → Stage
  | .acquireLease => .acquireLease
  | .renewLease => .renewLease false
  | .releaseLease => .releaseLease

inductive LeaseLabel
  | begin (manager : CheckpointManager) (stream : String) (method : LeaseMethod)
  /-- A call's next statement. -/
  | statement (i : ℕ)
  /-- A call's next statement throws and writes nothing. -/
  | throw (i : ℕ)
  | tick (ms : ℕ)
deriving DecidableEq

namespace LeaseWorld

variable (w : LeaseWorld)

/-- Where a call stands after a statement. -/
def advance (i : ℕ) (c : Call) : Option Stage → List Call
  | some stage => w.calls.set i { c with stage := stage }
  | none => w.calls.eraseIdx i

def performCall (i : ℕ) (c : Call) : LeaseWorld :=
  let o := c.perform w.clock w.leases
  { clock := w.clock
    leases := o.leases
    calls := w.advance i c o.next
    history := o.event.toList ++ w.history }

/-- The `catch` of `acquireLease` is around its `INSERT` alone; any other
error ends the call. -/
def throwCall (i : ℕ) (c : Call) : LeaseWorld :=
  { w with
    calls := w.advance i c (match c.stage with
      | .insertLease now => some (.findOwn now)
      | _ => none) }

def step : LeaseLabel → Option LeaseWorld
  | .begin manager stream method =>
    some { w with calls := w.calls ++ [⟨manager, stream, method.stage⟩] }
  | .statement i => w.calls[i]?.map fun c => w.performCall i c
  | .throw i => w.calls[i]?.map fun c => w.throwCall i c
  | .tick ms => some { w with clock := w.clock + ms }

end LeaseWorld

/-- **The lease protocol**, from any stored leases and no calls yet. -/
def leaseMachine : Machine LeaseWorld LeaseLabel where
  Init w := w.calls = [] ∧ w.history = []
  step := LeaseWorld.step

end HoodSentry
