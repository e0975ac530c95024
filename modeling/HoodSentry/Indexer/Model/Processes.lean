import HoodSentry.Common.Workers
import HoodSentry.Indexer.Model.Lease
import HoodSentry.Indexer.Model.Live
/-!
# Several indexers on one stream

`runLiveMode` of any number of processes that share a stream's lease and
checkpoint, cut at their awaits. A worker id is made of the process and
its start, so it names the process. Of a pass, the reads are answered at
once, by any tables, and the awaited writes follow one by one; the lease
and the checkpoint are what they share here, so a write of anything else
only takes its time, or throws.
-/

namespace HoodSentry

structure Stream where
  chainId : ℕ
  name : String
deriving DecidableEq

/-- **The await a process stands before.** `looping` is the condition of
the `while`; `rest` is what a pass does after the write it is at. -/
inductive IndexerPhase
  | acquiring (stage : Stage)
  | getCheckpoint
  | createCheckpoint
  | looping
  | renewLease
  | updateLease (now : ℕ)
  | reading
  | performing (effect : Effect) (rest : List Effect) (decision : Decision)
  | releasing
  | ended

/-- A process. `rewound` is not the program's: a reorg was handled since
its last checkpoint write. -/
structure IndexerProcess where
  indexer : Indexer
  leaseDurationMs : ℕ
  running : Bool
  locals : Locals
  rewound : Bool
  phase : IndexerPhase

namespace IndexerProcess

variable (p : IndexerProcess)

/-- On to the next write of a pass, or to the end of the pass. -/
def proceed (decision : Decision) : List Effect → IndexerProcess
  | effect :: rest => { p with phase := .performing effect rest decision }
  | [] =>
    { p with
      locals := decision.next p.locals
      rewound := p.rewound || (match decision with
        | .reorg _ => true
        | _ => false)
      phase := .looping }

/-- The locals a loop begins with. -/
def enter (checkpoint : Checkpoint) : IndexerProcess :=
  { p with
    locals := ⟨checkpoint.nextBlock, checkpoint.lastBlockHash⟩
    phase := .looping }

/-- The checkpoint of a stream without one. -/
def initialCheckpoint : Checkpoint := ⟨p.indexer.config.startBlock.getD 0, none⟩

/-- The checkpoint the next await writes, if it writes one. -/
def writes : Option Checkpoint :=
  match p.phase with
  | .createCheckpoint => some p.initialCheckpoint
  | .performing (.createOrUpdateCheckpoint checkpoint _) _ _ => some checkpoint
  | _ => none

end IndexerProcess

/-- What an await leaves: the lease and the checkpoint, and the process
when it returns, when it fails, and when it throws after its effect. -/
structure AwaitOutcome where
  leases : Table Lease.key
  checkpoint : Option Checkpoint
  returned : IndexerProcess
  failed : IndexerProcess
  unacknowledged : IndexerProcess

/-- The clock, the stream's lease and checkpoint, and the processes by
their worker ids. -/
structure StreamWorld where
  clock : ℕ
  leases : Table Lease.key
  checkpoint : Option Checkpoint
  processes : String → Option IndexerProcess

inductive ProcessLabel
  | start (workerId : String) (indexer : Indexer) (leaseDurationMs : ℕ)
  /-- The next await of a process. -/
  | await (workerId : String) (answer : Answer)
  /-- The reads of a pass, answered. -/
  | read (workerId : String) (db : Db) (a : Answers)
  /-- `stop` is called, -/
  | stop (workerId : String)
  /-- and releases the lease beside the loop. -/
  | release (workerId : String)
  | crash (workerId : String)
  | tick (ms : ℕ)

namespace Stream

variable (stream : Stream)

/-- A lease call of a process. -/
def leaseCall (workerId : String) (p : IndexerProcess) (stage : Stage) : Call :=
  ⟨⟨stream.chainId, workerId, p.leaseDurationMs⟩, stream.name, stage⟩

/-- **One await of a process.** An error in the loop is caught there, but
for a lost lease; before the loop it ends the process. -/
def perform (w : StreamWorld) (workerId : String) (p : IndexerProcess) : Option AwaitOutcome :=
  match p.phase with
  | .acquiring stage =>
    let o := (stream.leaseCall workerId p stage).perform w.clock w.leases
    -- only the `INSERT` is tried with a `catch`
    let caught := match stage with
      | .insertLease now => { p with phase := .acquiring (.findOwn now) }
      | _ => { p with phase := .ended }
    some
      { leases := o.leases
        checkpoint := w.checkpoint
        returned := match o.next with
          | some next => { p with phase := .acquiring next }
          | none => { p with phase := if o.event.isSome then .getCheckpoint else .ended }
        failed := caught
        unacknowledged := caught }
  | .getCheckpoint =>
    some
      { leases := w.leases
        checkpoint := w.checkpoint
        returned := match w.checkpoint with
          | some checkpoint => p.enter checkpoint
          | none => { p with phase := .createCheckpoint }
        failed := { p with phase := .ended }
        unacknowledged := { p with phase := .ended } }
  | .createCheckpoint =>
    some
      { leases := w.leases
        checkpoint := some p.initialCheckpoint
        returned := p.enter p.initialCheckpoint
        failed := { p with phase := .ended }
        unacknowledged := { p with phase := .ended } }
  | .looping =>
    let next := { p with phase := if p.running then .renewLease else .releasing }
    some ⟨w.leases, w.checkpoint, next, next, next⟩
  | .renewLease =>
    let next := { p with phase := .updateLease w.clock }
    some ⟨w.leases, w.checkpoint, next, next, next⟩
  | .updateLease now =>
    let o := (stream.leaseCall workerId p (.updateLease now false)).perform w.clock w.leases
    some
      { leases := o.leases
        checkpoint := w.checkpoint
        returned := { p with phase := if o.event.isSome then .reading else .ended }
        failed := { p with phase := .looping }
        unacknowledged := { p with phase := .looping } }
  | .reading =>
    -- a read that throws
    some ⟨w.leases, w.checkpoint, p, { p with phase := .looping }, { p with phase := .looping }⟩
  | .performing effect rest decision =>
    let done := match effect with
      | .createOrUpdateCheckpoint _ _ => { p with rewound := false }
      | _ => p
    some
      { leases := w.leases
        checkpoint := match effect with
          | .createOrUpdateCheckpoint checkpoint _ => some checkpoint
          | _ => w.checkpoint
        returned := done.proceed decision rest
        failed := { p with phase := .looping }
        unacknowledged := { done with phase := .looping } }
  | .releasing =>
    let leases := ((stream.leaseCall workerId p .releaseLease).perform w.clock w.leases).leases
    let ended := { p with phase := .ended }
    some ⟨leases, w.checkpoint, ended, ended, ended⟩
  | .ended => none

end Stream

/-- A process moved on, with the lease and the checkpoint it leaves. -/
def StreamWorld.put (w : StreamWorld) (workerId : String) (p : IndexerProcess)
    (leases : Table Lease.key) (checkpoint : Option Checkpoint) : StreamWorld where
  clock := w.clock
  leases := leases
  checkpoint := checkpoint
  processes := Function.update w.processes workerId (some p)

namespace Stream

variable (stream : Stream)

def step (w : StreamWorld) : ProcessLabel → Option StreamWorld
  | .start workerId indexer leaseDurationMs =>
    match w.processes workerId with
    | none =>
      let p := ⟨indexer, leaseDurationMs, true, ⟨0, none⟩, false, .acquiring .acquireLease⟩
      some (w.put workerId p w.leases w.checkpoint)
    | some _ => none
  | .await workerId answer =>
    (w.processes workerId).bind fun p =>
      (stream.perform w workerId p).map fun o =>
        match answer with
        | .returned => w.put workerId o.returned o.leases o.checkpoint
        | .failed => w.put workerId o.failed w.leases w.checkpoint
        | .unacknowledged => w.put workerId o.unacknowledged o.leases o.checkpoint
  | .read workerId db a =>
    (w.processes workerId).bind fun p =>
      match p.phase with
      | .reading =>
        let decision := decidePass p.indexer.config db p.locals a
        let effects := p.indexer.effects db p.locals a decision
        some (w.put workerId (p.proceed decision effects) w.leases w.checkpoint)
      | _ => none
  | .stop workerId =>
    (w.processes workerId).map fun p =>
      w.put workerId { p with running := false } w.leases w.checkpoint
  | .release workerId =>
    (w.processes workerId).bind fun p =>
      if p.running then none
      else
        let o := (stream.leaseCall workerId p .releaseLease).perform w.clock w.leases
        some (w.put workerId p o.leases w.checkpoint)
  | .crash workerId =>
    (w.processes workerId).map fun p =>
      w.put workerId { p with phase := .ended } w.leases w.checkpoint
  | .tick ms => some { w with clock := w.clock + ms }

/-- **The processes of a stream**, from any stored lease and checkpoint and
none started. -/
def machine : Machine StreamWorld ProcessLabel where
  Init w := ∀ workerId, w.processes workerId = none
  step := stream.step

end Stream

end HoodSentry
