import HoodSentry.Common.Table
import HoodSentry.Common.Workers
import HoodSentry.Risk.Model.Scan
/-!
# The risk scan job

`RiskScanJob.run` cut at its awaits, with the repository statements it
makes. A run row is never deleted and its key is unique, so its random
id is left out and the key stands for it; timestamps are left out too,
and a cancellation request is a flag.
-/

namespace HoodSentry

/-! ## Runs, findings and scores -/

inductive ScanRunStatus
  | pending | running | completed | incomplete | failed | cancelled
deriving DecidableEq

inductive RescanTrigger
  | newToken | sourceVerification | proxyImplementationChange | ownershipChange | roleChange
  | mint | supplyChange | poolCreation | liquidityRemoval | holderConcentrationChange
  | launchpadGraduation | launchpadMigration | tokenCodeChange | manualAnalystRequest
  | methodologyVersionChange
deriving DecidableEq

/-- What `riskScanIdempotencyKey` is the hash of. -/
structure ScanRunKey where
  target : RiskTarget
  engineVersion : String
  sourceBlock : ℕ
  sourceBlockHash : Hash
  rulesetVersion : String
  methodologyVersion : String
deriving DecidableEq

/-- A row of `risk_scan_runs`; the columns its key repeats are left to
the key. -/
structure RiskScanRun where
  idempotencyKey : ScanRunKey
  triggerType : RescanTrigger
  canonical : Bool
  isPartial : Bool
  status : ScanRunStatus
  errorCode : Option String
  cancellationRequested : Bool
deriving DecidableEq

/-- A row of `risk_findings`: the finding under its run, and its
confidence in hundredths. -/
structure FindingRow where
  scanRunId : ScanRunKey
  finding : RiskFinding
  confidence : ℕ
deriving DecidableEq

/-- Findings are unique on run and fingerprint. -/
def FindingRow.key (r : FindingRow) : ScanRunKey × FindingFingerprint :=
  (r.scanRunId, r.finding.fingerprint)

/-- A row of `risk_scores`; the percentages are in hundredths. -/
structure ScoreRow where
  scanRunId : ScanRunKey
  score : ℕ
  grade : RiskGrade
  categoryScores : List (RiskCategory × ℕ)
  methodologyVersion : String
  completenessPercent : ℕ
  unresolvedDataWarnings : List String
  completenessDetail : RiskCompleteness
deriving DecidableEq

def findingRecord (scanRunId : ScanRunKey) (finding : RiskFinding) : FindingRow :=
  ⟨scanRunId, finding, finding.confidence.basisPoints / 100⟩

def scoreRecord (scanRunId : ScanRunKey) (result : RiskScanResult) : ScoreRow where
  scanRunId := scanRunId
  score := result.score.scoreBps
  grade := result.score.grade
  categoryScores := result.score.categoryScoresBps
  methodologyVersion := result.score.methodologyVersion
  completenessPercent := result.completeness.basisPoints
  unresolvedDataWarnings := result.score.warnings
  completenessDetail := result.completeness

def RiskScanStatus.runStatus : RiskScanStatus → ScanRunStatus
  | completed => .completed
  | incomplete => .incomplete
  | cancelled => .cancelled

/-- The tables, and for each run the result whose status it was last
given. -/
structure RiskTables where
  runs : Table RiskScanRun.idempotencyKey
  findings : Table FindingRow.key
  scores : Table ScoreRow.scanRunId
  settledBy : ScanRunKey → Option RiskScanResult

/-- A run stands at a status. -/
def RiskTables.Stands (t : RiskTables) (key : ScanRunKey) (status : ScanRunStatus) : Prop :=
  ∃ r ∈ t.runs.rows, r.idempotencyKey = key ∧ r.status = status

instance (t : RiskTables) (key : ScanRunKey) (status : ScanRunStatus) :
    Decidable (t.Stands key status) :=
  inferInstanceAs (Decidable (∃ _ ∈ _, _))

/-- An `UPDATE` of one run. -/
def RiskTables.updateRun (t : RiskTables) (p : RiskScanRun → Bool) (f : RiskScanRun → RiskScanRun)
    (hf : ∀ r, (f r).idempotencyKey = r.idempotencyKey) : RiskTables :=
  { t with runs := t.runs.updateWhere p f hf }

/-- The `UPDATE` of a run whose scan has been stored. -/
def RiskTables.settle (t : RiskTables) (key : ScanRunKey) (result : RiskScanResult) : RiskTables :=
  let settled := t.updateRun (fun r => r.idempotencyKey = key)
    (fun r =>
      { r with
        status := result.status.runStatus
        isPartial := result.status ≠ .completed
        errorCode := if result.failureCodes = [] then none
          else some (",".intercalate result.failureCodes) })
    fun _ => rfl
  { settled with settledBy := Function.update t.settledBy key (some result) }

/-! ## The job -/

structure RiskScanJobInput where
  target : RiskTarget
  sourceBlock : ℕ
  sourceBlockHash : Hash
  trigger : RescanTrigger
deriving DecidableEq

/-- What a `RiskScanJob` is constructed with. The orchestrator has an
engine version of its own. -/
structure RiskScanJob where
  resolved : ResolvedRuleset
  engineVersion : String
  orchestratorVersion : String

def contextMatches (input : RiskScanJobInput) (context : RiskScanContext) : Bool :=
  input.target = context.target && input.sourceBlock = context.sourceBlock &&
    input.sourceBlockHash = context.sourceBlockHash

def RiskScanJob.idempotencyKey (job : RiskScanJob) (context : RiskScanContext) : ScanRunKey where
  target := context.target
  engineVersion := job.engineVersion
  sourceBlock := context.sourceBlock
  sourceBlockHash := context.sourceBlockHash
  rulesetVersion := job.resolved.ruleset.version
  methodologyVersion := job.resolved.ruleset.methodologyVersion

/-- The row a claim inserts. -/
def RiskScanJob.claim (job : RiskScanJob) (input : RiskScanJobInput) (context : RiskScanContext) :
    RiskScanRun where
  idempotencyKey := job.idempotencyKey context
  triggerType := input.trigger
  canonical := true
  isPartial := false
  status := .running
  errorCode := none
  cancellationRequested := false

/-- The await a job stands before, with what it holds there. `reportFailure`
is the one in its `catch`. -/
inductive ScanPhase
  | loadContext
  | insertRulesetVersion (context : RiskScanContext)
  | claimInsert (context : RiskScanContext)
  | claimUpdate (context : RiskScanContext)
  | claimSelect (context : RiskScanContext)
  | isScanCancellationRequested (context : RiskScanContext)
  | getActiveSuppressions (context : RiskScanContext) (aborted : Bool)
  | scan (context : RiskScanContext) (aborted : Bool) (suppressions : List RiskSuppression)
  | insertFindings (context : RiskScanContext) (result : RiskScanResult)
  | insertScore (context : RiskScanContext) (result : RiskScanResult)
  | updateScanRun (context : RiskScanContext) (result : RiskScanResult)
  | reportFailure (context : RiskScanContext)

/-- A delivery: its payload, and the await it stands before. -/
structure ScanAttempt where
  input : RiskScanJobInput
  phase : ScanPhase

/-- What an await is answered with. -/
inductive ScanCall
  | loadContext (context : RiskScanContext)
  | insertRulesetVersion
  | claimInsert
  | claimUpdate
  | claimSelect
  | isScanCancellationRequested (aborted : Bool)
  | getActiveSuppressions (suppressions : List RiskSuppression)
  | scan (execute : RiskRule → RuleExecution) (aborted : Bool)
  | insertFindings
  | insertScore
  | updateScanRun
  | reportFailure

/-- What `run` answers. -/
structure ScanReturn where
  scanRunId : ScanRunKey
  duplicate : Bool
  result : Option RiskScanResult

/-- Beside the jobs: a cancellation is requested. -/
inductive ScanEvent
  | requestScanCancellation (key : ScanRunKey)

namespace RiskScanJob

variable (job : RiskScanJob)

/-- The key of the run an await is about, once it is claimed. -/
def claimed : ScanPhase → Option ScanRunKey
  | .isScanCancellationRequested context | .getActiveSuppressions context _
  | .scan context _ _ | .insertFindings context _ | .insertScore context _
  | .updateScanRun context _ | .reportFailure context => some (job.idempotencyKey context)
  | _ => none

/-- After the scan: a throw, or a result of another engine version, leads
into the `catch`. -/
def scanned (context : RiskScanContext) : Option RiskScanResult → ScanPhase
  | none => .reportFailure context
  | some result =>
    if result.engineVersion ≠ job.engineVersion then .reportFailure context
    else .insertFindings context result

/-- **One await of `run`**: its effect, and the await it leads to. -/
def call (t : RiskTables) (a : ScanAttempt) :
    ScanCall → Option (RiskTables × Progress ScanAttempt ScanReturn)
  | .loadContext context =>
    match a.phase with
    | .loadContext =>
      if contextMatches a.input context then
        some (t, .running { a with phase := .insertRulesetVersion context })
      else some (t, .threw)
    | _ => none
  | .insertRulesetVersion =>
    match a.phase with
    | .insertRulesetVersion context => some (t, .running { a with phase := .claimInsert context })
    | _ => none
  | .claimInsert =>
    match a.phase with
    | .claimInsert context =>
      if job.idempotencyKey context ∈ t.runs.keys then
        some (t, .running { a with phase := .claimUpdate context })
      else some ({ t with runs := t.runs.insertNew (job.claim a.input context) },
        .running { a with phase := .isScanCancellationRequested context })
    | _ => none
  | .claimUpdate =>
    match a.phase with
    | .claimUpdate context =>
      if t.Stands (job.idempotencyKey context) .failed then
        some (t.updateRun
          (fun r => r.idempotencyKey = job.idempotencyKey context && r.status = .failed)
          (fun r =>
            { r with
              status := .running
              isPartial := false
              errorCode := none
              cancellationRequested := false })
          fun _ => rfl, .running { a with phase := .isScanCancellationRequested context })
      else some (t, .running { a with phase := .claimSelect context })
    | _ => none
  | .claimSelect =>
    match a.phase with
    | .claimSelect context =>
      if job.idempotencyKey context ∈ t.runs.keys then
        some (t, .returned ⟨job.idempotencyKey context, true, none⟩)
      else some (t, .threw)
    | _ => none
  | .isScanCancellationRequested aborted =>
    match a.phase with
    | .isScanCancellationRequested context =>
      let requested := t.runs.rows.any fun r =>
        r.idempotencyKey = job.idempotencyKey context && r.cancellationRequested
      some (t, .running { a with phase := .getActiveSuppressions context (aborted || requested) })
    | _ => none
  | .getActiveSuppressions suppressions =>
    match a.phase with
    | .getActiveSuppressions context aborted =>
      some (t, .running { a with phase := .scan context aborted suppressions })
    | _ => none
  | .scan execute aborted' =>
    match a.phase with
    | .scan context aborted suppressions =>
      let result := context.scan job.resolved job.orchestratorVersion suppressions execute
        (aborted || aborted')
      some (t, .running { a with phase := job.scanned context result })
    | _ => none
  | .insertFindings =>
    match a.phase with
    | .insertFindings context result =>
      let records := result.findings.map (findingRecord (job.idempotencyKey context))
      some ({ t with findings := t.findings.insertAll records },
        .running { a with phase := .insertScore context result })
    | _ => none
  | .insertScore =>
    match a.phase with
    | .insertScore context result =>
      some ({ t with scores := t.scores.put (scoreRecord (job.idempotencyKey context) result) },
        .running { a with phase := .updateScanRun context result })
    | _ => none
  | .updateScanRun =>
    match a.phase with
    | .updateScanRun context result =>
      some (t.settle (job.idempotencyKey context) result,
        .returned ⟨job.idempotencyKey context, false, some result⟩)
    | _ => none
  | .reportFailure =>
    match a.phase with
    | .reportFailure context =>
      some (t.updateRun (fun r => r.idempotencyKey = job.idempotencyKey context)
        (fun r =>
          { r with
            status := .failed
            isPartial := true
            errorCode := some "SCAN_JOB_FAILURE" })
        fun _ => rfl, .threw)
    | _ => none

/-- Where a throw leads: out of the job before its `try`, into the `catch`
inside it, and out again from there. -/
def thrown (a : ScanAttempt) : Progress ScanAttempt ScanReturn :=
  match a.phase with
  | .getActiveSuppressions context _ | .scan context _ _ | .insertFindings context _
  | .insertScore context _ | .updateScanRun context _ =>
    .running { a with phase := .reportFailure context }
  | _ => .threw

/-- **The risk scan job**, any number of deliveries at a time. -/
def procedure : Procedure RiskTables ScanAttempt ScanCall ScanReturn RiskScanJobInput
    ScanEvent where
  start input := ⟨input, .loadContext⟩
  call := job.call
  thrown := thrown
  env
    | t, .requestScanCancellation key => some (t.updateRun (fun r => r.idempotencyKey = key)
        (fun r => { r with cancellationRequested := true }) fun _ => rfl)

/-- No run, finding or score. -/
def noRuns : RiskTables := ⟨∅, ∅, ∅, fun _ => none⟩

def machine : Machine (Workers RiskTables ScanAttempt ScanReturn)
    (WorkerLabel ScanCall RiskScanJobInput ScanEvent) :=
  job.procedure.machine (· = noRuns)

end RiskScanJob

end HoodSentry
