import HoodSentry.Common.Lists
import HoodSentry.Risk.Model.Types
/-!
# Risk scans

`RiskScanOrchestrator.scan` and `calculateRiskScore`: the findings of a
ruleset's rules on a context, how complete they are, and their score.
What each rule comes to, a timeout or an exception included, is a
parameter of the scan.
-/

namespace HoodSentry

/-! ## Contexts and rules -/

inductive DataSourceStatus
  | available | unavailable | stale | error
deriving DecidableEq

structure RiskDataSource where
  key : String
  status : DataSourceStatus
  sourceBlock : ℕ
  sourceBlockHash : Hash
deriving DecidableEq

structure RiskScanContext where
  target : RiskTarget
  sourceBlock : ℕ
  sourceBlockHash : Hash
  methodologyVersion : String
  dataSources : List RiskDataSource
deriving DecidableEq

structure RiskRule where
  ruleId : String
  version : String
  category : RiskCategory
  title : String
  requiredDataSources : List String
  maxPenaltyBps : ℕ
deriving DecidableEq

/-- A registry and a ruleset name a rule by its id and version. -/
def RiskRule.key (rule : RiskRule) : String × String := (rule.ruleId, rule.version)

/-- The text a map of rules has as its key. -/
def ruleKey (ruleId version : String) : String := ruleId ++ "@" ++ version

structure RiskRuleset where
  version : String
  methodologyVersion : String
  categoryPenaltyCapsBps : RiskCategory → Option ℕ

/-- **A ruleset as `resolveRuleset` answers it**: no rule is named twice,
and every rule's category has a cap; it throws otherwise. -/
structure ResolvedRuleset where
  ruleset : RiskRuleset
  rules : List RiskRule
  distinct : (rules.map RiskRule.key).Nodup
  capped : ∀ rule ∈ rules, (ruleset.categoryPenaltyCapsBps rule.category).isSome = true

/-- What a fingerprint is the hash of. -/
structure FindingFingerprint where
  target : RiskTarget
  ruleId : String
  ruleVersion : String
  fingerprintSeed : String
deriving DecidableEq

structure RiskFinding where
  ruleId : String
  ruleVersion : String
  status : RiskFindingStatus
  category : RiskCategory
  severity : RiskSeverity
  confidence : RiskConfidence
  title : String
  explanation : String
  evidence : List RiskEvidence
  sourceBlock : ℕ
  sourceBlockHash : Hash
  dataProvenance : List RiskDataSource
  remediation : Option String
  fingerprint : FindingFingerprint
  suppressed : Bool
  suppressionReason : Option String
deriving DecidableEq

structure RiskSuppression where
  ruleId : Option String
  ruleVersion : Option String
  fingerprint : Option FindingFingerprint
  reason : String
deriving DecidableEq

/-! ## Findings -/

inductive RuleFailureCode
  | ruleTimeout | ruleException | dataDependencyUnavailable | scanTimeout | scanCancelled
deriving DecidableEq

def RuleFailureCode.text : RuleFailureCode → String
  | ruleTimeout => "RULE_TIMEOUT"
  | ruleException => "RULE_EXCEPTION"
  | dataDependencyUnavailable => "DATA_DEPENDENCY_UNAVAILABLE"
  | scanTimeout => "SCAN_TIMEOUT"
  | scanCancelled => "SCAN_CANCELLED"

/-- What executing a rule comes to. -/
structure RuleExecution where
  evaluation : RiskRuleEvaluation
  failureCode : Option RuleFailureCode
deriving DecidableEq

/-- `[...new Set(values)].sort()`. -/
def sortedSet (values : List String) : List String := values.eraseDups.insertionSort (· ≤ ·)

/-- `sourceMap`: a repeated key, or a source of another block, throws. -/
def sourceMap (context : RiskScanContext) : Option (List RiskDataSource) :=
  if (context.dataSources.map (·.key)).Nodup ∧
      ∀ source ∈ context.dataSources, source.sourceBlock = context.sourceBlock ∧
        source.sourceBlockHash = context.sourceBlockHash then
    some context.dataSources
  else none

def findSuppression (suppressions : List RiskSuppression) (fingerprint : FindingFingerprint)
    (rule : RiskRule) : Option RiskSuppression :=
  suppressions.find? fun suppression =>
    match suppression.fingerprint with
    | some suppressed => suppressed = fingerprint
    | none => suppression.ruleId = some rule.ruleId &&
        (suppression.ruleVersion.isNone || suppression.ruleVersion = some rule.version)

def materializeFinding (context : RiskScanContext) (sources : List RiskDataSource)
    (suppressions : List RiskSuppression) (rule : RiskRule) (evaluation : RiskRuleEvaluation) :
    RiskFinding :=
  let provenanceKeys :=
    sortedSet (evaluation.evidence.flatMap (·.provenanceKeys) ++ rule.requiredDataSources)
  let fingerprint : FindingFingerprint :=
    ⟨context.target, rule.ruleId, rule.version, evaluation.fingerprintSeed⟩
  let suppression := findSuppression suppressions fingerprint rule
  { ruleId := rule.ruleId
    ruleVersion := rule.version
    status := evaluation.status
    category := rule.category
    severity := evaluation.severity
    confidence := evaluation.confidence
    title := evaluation.title
    explanation := evaluation.explanation
    evidence := evaluation.evidence
    sourceBlock := context.sourceBlock
    sourceBlockHash := context.sourceBlockHash
    dataProvenance := provenanceKeys.filterMap fun key => sources.find? fun s => s.key = key
    remediation := evaluation.remediation
    fingerprint := fingerprint
    suppressed := suppression.isSome
    suppressionReason := suppression.map (·.reason) }

/-! ## Completeness -/

inductive CompletenessStatus
  | complete | incomplete | insufficient
deriving DecidableEq

structure RiskCompleteness where
  basisPoints : ℕ
  status : CompletenessStatus
  totalRules : ℕ
  evaluatedRules : ℕ
  unknownRules : ℕ
  failedRules : ℕ
  unavailableDataSources : List String
  reasons : List String
deriving DecidableEq

/-- The source's `partial` is `incomplete` here. -/
def completeness (findings : List RiskFinding) (failureCodes : List (Option RuleFailureCode)) :
    RiskCompleteness :=
  let unknownRules := findings.countP fun finding => finding.status = .unknown
  let unavailableDataSources := sortedSet (findings.flatMap fun finding =>
    (finding.dataProvenance.filter fun source => source.status ≠ .available).map (·.key))
  let totalRules := findings.length
  let completeRules := totalRules - unknownRules
  let basisPoints := if totalRules = 0 then 0 else completeRules * 10000 / totalRules
  let failures := sortedSet (failureCodes.reduceOption.map (·.text))
  let reasons := failures ++
    (if 0 < unknownRules ∧ failures = [] then ["UNKNOWN_RULE_RESULTS"] else []) ++
    (if unavailableDataSources ≠ [] then ["DATA_SOURCES_UNAVAILABLE"] else [])
  { basisPoints := basisPoints
    status := if basisPoints = 10000 then .complete
      else if 5000 ≤ basisPoints then .incomplete else .insufficient
    totalRules := totalRules
    evaluatedRules := completeRules
    unknownRules := unknownRules
    failedRules := failureCodes.reduceOption.length
    unavailableDataSources := unavailableDataSources
    reasons := sortedSet reasons }

/-! ## The score -/

inductive RiskGrade
  | A | B | C | D | F
deriving DecidableEq

structure RiskScore where
  scoreBps : ℕ
  grade : RiskGrade
  categoryScoresBps : List (RiskCategory × ℕ)
  methodologyVersion : String
  completeness : RiskCompleteness
  warnings : List String
deriving DecidableEq

def findingPenalty (finding : RiskFinding) (rule : RiskRule) : ℕ :=
  match finding.status with
  | .fail => rule.maxPenaltyBps
  | .warning => rule.maxPenaltyBps / 2
  | _ => 0

def grade (scoreBps : ℕ) : RiskGrade :=
  if 9000 ≤ scoreBps then .A
  else if 8000 ≤ scoreBps then .B
  else if 7000 ≤ scoreBps then .C
  else if 6000 ≤ scoreBps then .D
  else .F

/-- `rules.get`: the map has the last rule of a key. -/
def scoringRule (rules : List RiskRule) (finding : RiskFinding) : Option RiskRule :=
  rules.reverse.find? fun rule =>
    ruleKey rule.ruleId rule.version = ruleKey finding.ruleId finding.ruleVersion

/-- `calculateRiskScore`; a finding of a rule it is not given throws. -/
def calculateRiskScore (findings : List RiskFinding) (rules : List RiskRule)
    (ruleset : RiskRuleset) (completeness : RiskCompleteness) : Option RiskScore := do
  let penalties ← findings.mapM fun finding =>
    (scoringRule rules finding).map fun rule => (finding.category, findingPenalty finding rule)
  let capped := RISK_CATEGORIES.filterMap fun category =>
    (ruleset.categoryPenaltyCapsBps category).map fun cap =>
      (category, min ((penalties.filter fun p => p.1 = category).map (·.2)).sum cap)
  let scoreBps := 10000 - min 10000 (capped.map (·.2)).sum
  return {
    scoreBps := scoreBps
    grade := grade scoreBps
    categoryScoresBps := capped.map fun p => (p.1, 10000 - p.2)
    methodologyVersion := ruleset.methodologyVersion
    completeness := completeness
    warnings := sortedSet (completeness.reasons ++
      if completeness.basisPoints < 10000 then ["RISK_DATA_INCOMPLETE"] else []) }

/-! ## The scan -/

inductive RiskScanStatus
  | completed | incomplete | cancelled
deriving DecidableEq

structure RiskScanResult where
  target : RiskTarget
  engineVersion : String
  rulesetVersion : String
  methodologyVersion : String
  sourceBlock : ℕ
  sourceBlockHash : Hash
  status : RiskScanStatus
  findings : List RiskFinding
  score : RiskScore
  completeness : RiskCompleteness
  failureCodes : List String
deriving DecidableEq

/-- `RiskScanOrchestrator.scan` with its registry's rules resolved:
`execute` is what each rule comes to, `cancelled` whether the caller's
signal is aborted at the end. -/
def RiskScanContext.scan (context : RiskScanContext) (resolved : ResolvedRuleset)
    (engineVersion : String) (suppressions : List RiskSuppression)
    (execute : RiskRule → RuleExecution) (cancelled : Bool) : Option RiskScanResult :=
  if context.methodologyVersion ≠ resolved.ruleset.methodologyVersion then none
  else do
    let sources ← sourceMap context
    let findings := resolved.rules.map fun rule =>
      materializeFinding context sources suppressions rule (execute rule).evaluation
    let codes := resolved.rules.map fun rule => (execute rule).failureCode
    let scanCompleteness := completeness findings codes
    let failureCodes := sortedSet (codes.reduceOption.map (·.text))
    let score ← calculateRiskScore findings resolved.rules resolved.ruleset scanCompleteness
    return {
      target := context.target
      engineVersion := engineVersion
      rulesetVersion := resolved.ruleset.version
      methodologyVersion := resolved.ruleset.methodologyVersion
      sourceBlock := context.sourceBlock
      sourceBlockHash := context.sourceBlockHash
      status := if cancelled then .cancelled
        else if failureCodes ≠ [] ∨ scanCompleteness.basisPoints < 10000 then .incomplete
        else .completed
      findings := findings
      score := score
      completeness := scanCompleteness
      failureCodes := failureCodes }

section Scan

variable {context : RiskScanContext} {resolved : ResolvedRuleset} {engineVersion : String}
variable {suppressions : List RiskSuppression} {execute : RiskRule → RuleExecution}
variable {cancelled : Bool} {result : RiskScanResult}

/-- **A scan that answers**: a finding for each rule, and their score. -/
theorem RiskScanContext.findings_scan
    (h : context.scan resolved engineVersion suppressions execute cancelled = some result) :
    (∃ sources, result.findings = resolved.rules.map fun rule =>
      materializeFinding context sources suppressions rule (execute rule).evaluation) ∧
    calculateRiskScore result.findings resolved.rules resolved.ruleset result.completeness =
      some result.score ∧
    result.engineVersion = engineVersion := by
  unfold scan at h
  split at h
  · exact absurd h (by simp)
  · obtain ⟨sources, -, h⟩ := Option.bind_eq_some_iff.mp h
    obtain ⟨score, hscore, h⟩ := Option.bind_eq_some_iff.mp h
    obtain rfl := Option.some.inj h
    exact ⟨⟨sources, rfl⟩, hscore, rfl⟩

/-- **No two findings of a scan share a fingerprint.** -/
theorem RiskScanContext.fingerprints_scan
    (h : context.scan resolved engineVersion suppressions execute cancelled = some result) :
    (result.findings.map (·.fingerprint)).Nodup := by
  obtain ⟨⟨sources, hfindings⟩, -⟩ := findings_scan h
  rw [hfindings, List.map_map]
  refine List.Nodup.of_map (fun f : FindingFingerprint => (f.ruleId, f.ruleVersion)) ?_
  rw [List.map_map]
  exact resolved.distinct

/-- **A scan throws only for its context**: its own findings can be
scored. -/
theorem RiskScanContext.exists_scan
    (hversion : context.methodologyVersion = resolved.ruleset.methodologyVersion)
    (hsources : (sourceMap context).isSome = true) :
    ∃ result, context.scan resolved engineVersion suppressions execute cancelled = some result := by
  obtain ⟨sources, hmap⟩ := Option.isSome_iff_exists.mp hsources
  let findings := resolved.rules.map fun rule =>
    materializeFinding context sources suppressions rule (execute rule).evaluation
  have hscore : ∀ c, ∃ score,
      calculateRiskScore findings resolved.rules resolved.ruleset c = some score := by
    intro c
    obtain ⟨penalties, hpenalties⟩ : ∃ penalties, findings.mapM (fun finding =>
        (scoringRule resolved.rules finding).map fun rule =>
          (finding.category, findingPenalty finding rule)) = some penalties := by
      refine exists_mapM fun finding hfinding => ?_
      obtain ⟨rule, hrule, rfl⟩ := List.mem_map.mp hfinding
      rw [Option.isSome_map, scoringRule, List.find?_isSome]
      exact ⟨rule, List.mem_reverse.mpr hrule, decide_eq_true rfl⟩
    rw [calculateRiskScore, hpenalties]
    exact ⟨_, rfl⟩
  obtain ⟨score, hscore⟩ := hscore (completeness findings
    (resolved.rules.map fun rule => (execute rule).failureCode))
  rw [scan, if_neg (not_not.mpr hversion), hmap]
  simp only [Option.bind_eq_bind, Option.bind_some]
  rw [hscore]
  exact ⟨_, rfl⟩

end Scan

end HoodSentry
