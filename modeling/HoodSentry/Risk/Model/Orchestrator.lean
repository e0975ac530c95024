import HoodSentry.Risk.Model.Registry
/-!
# The orchestrator of risk scans

`packages/risk-engine/src/orchestrator.ts`: what executing a rule comes to,
from what the rule does and how the scan's signals stand, and the scan of a
ruleset's rules. A rule does what it likes (`RuleBehaviour`); the clock
enters only as who wins the race with the rule's timer and as the signals.
-/

namespace HoodSentry

/-! ## What a rule does -/

/-- What a rule's promise is fulfilled with: an object of the shape of
`riskRuleEvaluationSchema`, or any other value. -/
inductive Returned
  | evaluation (evaluation : RiskRuleEvaluation)
  | malformed
deriving DecidableEq

/-- **What a rule does**: it settles, before its timer fires or not, or
never. It throws or rejects with an `Error`'s message, or with another
value. -/
inductive RuleBehaviour
  | settles (inTime : Bool) (outcome : Except (Option String) Returned)
  | never

/-- How the scan's signal and the caller's stand. -/
structure Signals where
  scan : Bool
  external : Bool
deriving DecidableEq

/-- A rule's turn: the signals when it comes, what the rule does, and the
signals when it is over. -/
structure RuleRun where
  before : Signals
  behaviour : RuleBehaviour
  after : Signals

/-! ## Evaluations -/

def parseConfidence (confidence : RiskConfidence) : Option RiskConfidence := do
  let rationale ← parseText confidence.rationale
  if confidence.basisPoints ≤ 10000 then
    some ⟨confidence.level, confidence.basisPoints, rationale⟩
  else none

def parseEvidence (evidence : RiskEvidence) : Option RiskEvidence := do
  let evidenceType ← parseText evidence.evidenceType
  let summary ← parseText evidence.summary
  let provenanceKeys ← evidence.provenanceKeys.mapM parseText
  return ⟨evidenceType, summary, evidence.data, provenanceKeys⟩

/-- A nullable text. -/
def parseNullable : Option String → Option (Option String)
  | none => some none
  | some s => (parseText s).map some

/-- **`riskRuleEvaluationSchema`.** -/
def parseEvaluation : Returned → Option RiskRuleEvaluation
  | .malformed => none
  | .evaluation e => do
    let confidence ← parseConfidence e.confidence
    let title ← parseText e.title
    let explanation ← parseText e.explanation
    let evidence ← e.evidence.mapM parseEvidence
    let remediation ← parseNullable e.remediation
    let fingerprintSeed ← parseText e.fingerprintSeed
    return ⟨e.status, e.severity, confidence, title, explanation, evidence, remediation,
      fingerprintSeed⟩

def failureEvaluation (rule : RiskRule) (code : RuleFailureCode) (details : String) :
    RiskRuleEvaluation where
  status := .unknown
  severity := .info
  confidence := {
    level := .unknown
    basisPoints := 0
    rationale := "The rule did not receive enough verified data to reach a conclusion." }
  title := rule.title ++ " unavailable"
  explanation := details
  evidence := [{
    evidenceType := "rule_execution_state"
    summary := details
    data := [("code", .text code.text)]
    provenanceKeys := [] }]
  remediation := some "Run the rule again after the required data and services are available."
  fingerprintSeed := "rule-unavailable"

def failure (rule : RiskRule) (code : RuleFailureCode) (details : String) : RuleExecution where
  evaluation := failureEvaluation rule code details
  failureCode := some code

def abortedEvaluation (rule : RiskRule) (externalAborted : Bool) : RuleExecution :=
  if externalAborted then failure rule .scanCancelled "The risk scan was cancelled."
  else failure rule .scanTimeout "The scan exceeded its time limit."

/-! ## Executing a rule -/

section Execute

-- the message of the error that the schema refuses a value with
variable (issues : Returned → String)

/-- The race: what the rule settles with, or the timer's `RULE_TIMEOUT`. -/
def RuleBehaviour.race : RuleBehaviour → Except (Option String) Returned
  | settles true outcome => outcome
  | settles false _ => .error (some "RULE_TIMEOUT")
  | never => .error (some "RULE_TIMEOUT")

def evaluateWithTimeout (rule : RiskRule) (behaviour : RuleBehaviour) (parentAborted : Bool) :
    RuleExecution :=
  let evaluated : Except (Option String) RiskRuleEvaluation :=
    match behaviour.race with
    | .error error => .error error
    | .ok returned =>
      match parseEvaluation returned with
      | some evaluation => .ok evaluation
      | none => .error (some (issues returned))
  match evaluated with
  | .ok evaluation => ⟨evaluation, none⟩
  | .error error =>
    if parentAborted then failure rule .scanCancelled "The risk scan was cancelled."
    else if error = some "RULE_TIMEOUT" then
      failure rule .ruleTimeout "The rule exceeded its time limit."
    else
      failure rule .ruleException
        ("The rule failed without affecting other rules. Error: " ++
          error.getD "Unknown rule error")

/-- The required sources that are not available. -/
def unavailable (sources : List RiskDataSource) (rule : RiskRule) : List String :=
  rule.requiredDataSources.filter fun key =>
    (sources.find? fun source => source.key = key).map (·.status) ≠ some .available

def executeRule (sources : List RiskDataSource) (rule : RiskRule) (run : RuleRun) :
    RuleExecution :=
  if run.before.scan then abortedEvaluation rule run.before.external
  else if unavailable sources rule ≠ [] then
    failure rule .dataDependencyUnavailable
      ("Required data unavailable: " ++ ", ".intercalate
        ((unavailable sources rule).mergeSort fun left right => !textLt right left))
  else
    let outcome := evaluateWithTimeout issues rule run.behaviour run.after.scan
    if outcome.failureCode = some .scanCancelled ∧ run.after.external = false then
      abortedEvaluation rule run.after.external
    else outcome

end Execute

/-! ## The scan -/

structure RiskScanOptions where
  scanTimeoutMs : ℤ
  perRuleTimeoutMs : ℤ
  suppressions : List RiskSuppression

def validateTimeout (value : ℤ) : Option Unit := if 0 < value then some () else none

/-- `riskScanContextSchema`, of the fields a scan reads. -/
def parseContext (context : RiskScanContext) : Option RiskScanContext := do
  let methodologyVersion ← parseVersion context.methodologyVersion
  let dataSources ← context.dataSources.mapM fun source =>
    (parseText source.key).map fun key => { source with key := key }
  if 0 < context.target.chainId then
    some { context with
      methodologyVersion := methodologyVersion
      dataSources := dataSources }
  else none

/-- `riskSuppressionSchema`. -/
def parseSuppression (suppression : RiskSuppression) : Option RiskSuppression := do
  let ruleId ← parseNullable suppression.ruleId
  let ruleVersion ← match suppression.ruleVersion with
    | none => some none
    | some version => (parseVersion version).map some
  let reason ← parseText suppression.reason
  if suppression.fingerprint.isSome ∨ ruleId.isSome then
    some ⟨ruleId, ruleVersion, suppression.fingerprint, reason⟩
  else none

/-- An orchestrator is of some version. -/
structure RiskScanOrchestrator where
  registry : RiskRuleRegistry
  engineVersion : String
  named : trim engineVersion ≠ ""

/-- What a scan is about, once it is accepted. -/
structure Accepted where
  context : RiskScanContext
  resolved : ResolvedRuleset
  suppressions : List RiskSuppression

/-- The checks before the first rule. -/
def RiskScanOrchestrator.accept (orchestrator : RiskScanOrchestrator) (rawContext : RiskScanContext)
    (rawRuleset : RawRuleset) (options : RiskScanOptions) : Option Accepted := do
  validateTimeout options.scanTimeoutMs
  validateTimeout options.perRuleTimeoutMs
  let context ← parseContext rawContext
  if context.methodologyVersion ≠ rawRuleset.methodologyVersion then none
  else do
    let resolved ← (orchestrator.registry.resolveRuleset rawRuleset).toOption
    let _ ← sourceMap context
    let suppressions ← options.suppressions.mapM parseSuppression
    return ⟨context, resolved, suppressions⟩

/-- **`RiskScanOrchestrator.scan`**, where its registry's rules take their
turns so; `cancelled` is whether the caller's signal is aborted at the end. -/
def RiskScanOrchestrator.scan (orchestrator : RiskScanOrchestrator) (issues : Returned → String)
    (rawContext : RiskScanContext) (rawRuleset : RawRuleset) (options : RiskScanOptions)
    (runs : RiskRule → RuleRun) (cancelled : Bool) : Option RiskScanResult := do
  let accepted ← orchestrator.accept rawContext rawRuleset options
  accepted.context.scan accepted.resolved orchestrator.engineVersion accepted.suppressions
    (fun rule => executeRule issues accepted.context.dataSources rule (runs rule)) cancelled

end HoodSentry
