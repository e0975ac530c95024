import HoodSentry.Model.Schema
/-!
# Risk findings

The types of the risk engine: what a rule evaluates to, the finding made
of it, and the score of a scan's findings. A fingerprint is a hash and is
kept as what it is the hash of.
-/

namespace HoodSentry

inductive RiskFindingStatus
  | pass | warning | fail | unknown | notApplicable
deriving DecidableEq

inductive RiskSeverity
  | info | low | medium | high | critical
deriving DecidableEq

inductive ConfidenceLevel
  | unknown | low | medium | high | confirmed
deriving DecidableEq

structure RiskConfidence where
  level : ConfidenceLevel
  basisPoints : ℕ
  rationale : String
deriving DecidableEq

inductive RiskCategory
  | contractControl | transferBehavior | supply | upgradeability | liquidity
  | holderDistribution | deployerHistory | identityAndImpersonation | marketIntegrity
  | oracleBehavior | metadataQuality | launchpadBehavior
deriving DecidableEq

/-- `RISK_CATEGORIES`, in their order. -/
def RISK_CATEGORIES : List RiskCategory :=
  [.contractControl, .transferBehavior, .supply, .upgradeability, .liquidity,
    .holderDistribution, .deployerHistory, .identityAndImpersonation, .marketIntegrity,
    .oracleBehavior, .metadataQuality, .launchpadBehavior]

inductive RiskTargetType
  | token | pool | wallet | project | launchpadToken
deriving DecidableEq

structure RiskTarget where
  type : RiskTargetType
  chainId : ℕ
  address : Address
deriving DecidableEq

/-- A value of an evidence's data. -/
inductive EvidenceValue
  | text (value : String)
  | number (value : ℤ)
  | flag (value : Bool)
  | source (key : SourceKey)
  | null
deriving DecidableEq

structure RiskEvidence where
  evidenceType : String
  summary : String
  data : List (String × EvidenceValue)
  provenanceKeys : List String
deriving DecidableEq

/-- What a rule makes of a context. -/
structure RiskRuleEvaluation where
  status : RiskFindingStatus
  severity : RiskSeverity
  confidence : RiskConfidence
  title : String
  explanation : String
  evidence : List RiskEvidence
  remediation : Option String
  fingerprintSeed : String
deriving DecidableEq

/-- A finding that speaks against its target. -/
def RiskFindingStatus.Fired (s : RiskFindingStatus) : Prop := s = .fail ∨ s = .warning

instance (s : RiskFindingStatus) : Decidable s.Fired := inferInstanceAs (Decidable (_ ∨ _))

end HoodSentry
