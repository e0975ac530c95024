import HoodSentry.Model.Chain
/-!
# Token gating

The tiers a wallet's token balance is eligible for, and the state machine
that grants them: down at once, up after a holding time. Times are in
milliseconds.
-/

namespace HoodSentry

inductive Tier
  | free | scout | analyst | sentinel
deriving DecidableEq

structure GateConfig where
  tokenAddress : Address
  chainId : ℕ
  enabled : Bool
  minimums : Tier → ℕ
  cacheSeconds : ℕ
  minimumHoldingSeconds : ℕ
  version : String

def calculateTier (balance : ℕ) (c : GateConfig) : Tier :=
  if balance ≥ c.minimums .sentinel then .sentinel
  else if balance ≥ c.minimums .analyst then .analyst
  else if balance ≥ c.minimums .scout then .scout
  else .free

def tierRank : Tier → ℕ
  | .free => 0
  | .scout => 1
  | .analyst => 2
  | .sentinel => 3

structure EntitlementState where
  grantedTier : Tier
  candidateTier : Option Tier
  candidateSince : Option ℕ
deriving DecidableEq

structure AdvanceInput where
  current : Option EntitlementState
  eligibleTier : Tier
  observedAt : ℕ
  minimumHoldingSeconds : ℕ
  resetCandidate : Bool
deriving DecidableEq

/-- The state of a wallet without one. -/
def EntitlementState.initial : EntitlementState := ⟨.free, none, none⟩

namespace AdvanceInput

variable (input : AdvanceInput)

/-- Since when the eligible tier is the candidate. -/
def candidateSince (current : EntitlementState) : ℕ :=
  if current.candidateTier ≠ some input.eligibleTier ∨ input.resetCandidate = true then
    input.observedAt
  else current.candidateSince.getD input.observedAt

/-- The candidate is old enough. -/
def Matured (current : EntitlementState) : Prop :=
  (input.observedAt : ℤ) - input.candidateSince current ≥ input.minimumHoldingSeconds * 1000

instance (current : EntitlementState) : Decidable (input.Matured current) :=
  inferInstanceAs (Decidable (_ ≥ _))

end AdvanceInput

/-- **One observation of a wallet.** -/
def advanceEntitlementState (input : AdvanceInput) : EntitlementState :=
  let current := input.current.getD .initial
  if tierRank input.eligibleTier < tierRank current.grantedTier then ⟨input.eligibleTier, none, none⟩
  else if input.eligibleTier = current.grantedTier then ⟨current.grantedTier, none, none⟩
  else if input.Matured current then ⟨input.eligibleTier, none, none⟩
  else ⟨current.grantedTier, some input.eligibleTier, some (input.candidateSince current)⟩

/-- An observation of a wallet, and the tier it left granted. -/
structure Reconciliation where
  eligibleTier : Tier
  observedAt : ℕ
  resetCandidate : Bool
  grantedTier : Tier
deriving DecidableEq

end HoodSentry
