import HoodSentry.Model.Chain
/-!
# Alert rules

The rules of the alert engine, evaluated on a chain event or on the
metrics of a window. A rule's condition is stored as JSON and parsed at
each evaluation; it is kept here as each schema parses it. Unsigned
integers are kept as numbers.
-/

namespace HoodSentry

inductive AlertRuleType
  | priceChange | volumeSpike | largeTransfer | contractEvent | riskScoreChange
  | governanceProposal
deriving DecidableEq

inductive AlertSeverity
  | low | medium | high | critical
deriving DecidableEq

/-- `conditionSchema`. -/
structure ChainCondition where
  eventTypes : Option (List String)
  minimumAmountRaw : Option ℕ
  fromAddresses : Option (List Address)
  toAddresses : Option (List Address)
  severity : Option AlertSeverity
deriving DecidableEq

inductive PriceDirection
  | up | down | either
deriving DecidableEq

structure PriceChangeCondition where
  changeBps : ℕ
  windowSeconds : ℕ
  direction : PriceDirection
  severity : Option AlertSeverity
deriving DecidableEq

structure VolumeSpikeCondition where
  minimumVolumeRaw : ℕ
  multiplierBps : ℕ
  windowSeconds : ℕ
  severity : Option AlertSeverity
deriving DecidableEq

/-- A stored condition, as each schema parses it; `none` throws. -/
structure AlertCondition where
  chain : Option ChainCondition
  priceChange : Option PriceChangeCondition
  volumeSpike : Option VolumeSpikeCondition
deriving DecidableEq

/-- What an evaluation reads of a rule. -/
structure AlertRuleInput where
  ruleType : AlertRuleType
  targetAddress : Address
  condition : AlertCondition
deriving DecidableEq

/-- The condition does not parse. -/
inductive ConditionError
  | invalidCondition
deriving DecidableEq

def parsed {α : Type} (condition : Option α) : Except ConditionError α :=
  match condition with
  | some condition => .ok condition
  | none => .error .invalidCondition

/-! ## Chain events -/

structure ChainAlertEventInput where
  eventType : String
  targetAddresses : List Address
  fromAddress : Option Address
  toAddress : Option Address
  valueRaw : Option ℕ
deriving DecidableEq

structure AlertEvidence where
  eventType : String
  thresholdRaw : Option ℕ
  observedRaw : Option ℕ
deriving DecidableEq

structure AlertDecision where
  severity : AlertSeverity
  evidence : AlertEvidence
deriving DecidableEq

/-- Without an allowlist every address is allowed, an absent one too. -/
def addressAllowed (address : Option Address) (allowlist : Option (List Address)) : Bool :=
  match allowlist, address with
  | none, _ => true
  | some _, none => false
  | some allowlist, some address => allowlist.contains address

/-- **A chain event against a rule.** -/
def evaluateChainAlertRule (rule : AlertRuleInput) (event : ChainAlertEventInput) :
    Except ConditionError (Option AlertDecision) :=
  if ¬event.targetAddresses.contains rule.targetAddress then .ok none
  else (parsed rule.condition.chain).map fun condition =>
    if rule.ruleType = .contractEvent ∨ rule.ruleType = .governanceProposal then
      if ¬condition.eventTypes.any (·.contains event.eventType) then none
      else some {
        severity := condition.severity.getD
          (if rule.ruleType = .governanceProposal then .medium else .high)
        evidence := ⟨event.eventType, none, none⟩ }
    else if rule.ruleType ≠ .largeTransfer ∨ event.eventType ≠ "tokenTransfer" then none
    else match condition.minimumAmountRaw, event.valueRaw with
      | some threshold, some observed =>
        if ¬addressAllowed event.fromAddress condition.fromAddresses then none
        else if ¬addressAllowed event.toAddress condition.toAddresses then none
        else if observed < threshold then none
        else some {
          severity := condition.severity.getD .high
          evidence := ⟨event.eventType, some threshold, some observed⟩ }
      | _, _ => none

/-! ## Market metrics -/

structure MarketAlertInput where
  tokenAddress : Address
  windowSeconds : ℕ
  priceChangeBps : Option ℤ
  volumeRaw : ℤ
  previousVolumeRaw : Option ℤ
deriving DecidableEq

inductive MarketAlertMetric
  | priceChangeBps | volumeMultiplierBps
deriving DecidableEq

structure MarketAlertEvidence where
  metric : MarketAlertMetric
  windowSeconds : ℕ
  thresholdRaw : ℕ
  observedRaw : ℤ
  currentVolumeRaw : Option ℤ
  previousVolumeRaw : Option ℤ
deriving DecidableEq

structure MarketAlertDecision where
  severity : AlertSeverity
  evidence : MarketAlertEvidence
deriving DecidableEq

/-- A change by a threshold in a direction. -/
def PriceDirection.matched (direction : PriceDirection) (change : ℤ) (threshold : ℕ) : Bool :=
  match direction with
  | .up => (threshold : ℤ) ≤ change
  | .down => change ≤ -(threshold : ℤ)
  | .either => (threshold : ℤ) ≤ |change|

def evaluatePriceChange (input : MarketAlertInput) (condition : PriceChangeCondition) :
    Option MarketAlertDecision :=
  if condition.windowSeconds ≠ input.windowSeconds then none
  else match input.priceChangeBps with
    | none => none
    | some change =>
      if ¬condition.direction.matched change condition.changeBps then none
      else some {
        severity := condition.severity.getD .medium
        evidence :=
          ⟨.priceChangeBps, condition.windowSeconds, condition.changeBps, change, none, none⟩ }

def evaluateVolumeSpike (input : MarketAlertInput) (condition : VolumeSpikeCondition) :
    Option MarketAlertDecision :=
  if condition.windowSeconds ≠ input.windowSeconds then none
  else match input.previousVolumeRaw with
    | none => none
    | some previous =>
      if previous ≤ 0 then none
      else if input.volumeRaw < condition.minimumVolumeRaw then none
      else if input.volumeRaw * 10000 < previous * condition.multiplierBps then none
      else some {
        severity := condition.severity.getD .high
        evidence :=
          ⟨.volumeMultiplierBps, condition.windowSeconds, condition.multiplierBps,
            (input.volumeRaw * 10000).tdiv previous, some input.volumeRaw, some previous⟩ }

/-- **The metrics of a window against a rule.** -/
def evaluateMarketAlertRule (rule : AlertRuleInput) (input : MarketAlertInput) :
    Except ConditionError (Option MarketAlertDecision) :=
  if rule.targetAddress ≠ input.tokenAddress then .ok none
  else match rule.ruleType with
    | .priceChange => (parsed rule.condition.priceChange).map (evaluatePriceChange input)
    | .volumeSpike => (parsed rule.condition.volumeSpike).map (evaluateVolumeSpike input)
    | _ => .ok none

end HoodSentry
