import HoodSentry.Common.Statistics
import HoodSentry.Model.Chain
/-!
# Holder statistics

`analyzeHolders` of `packages/risk-engine/src/holder-analysis.ts`: how
concentrated the positive balances are, with and without the addresses that
are verified to be no holders, and what each class of addresses holds.
-/

namespace HoodSentry

inductive HolderAddressClass
  | zeroBurn
  | pool
  | bridge
  | treasury
  | exchange
  | deployer
  | team
  | contract
  | launchpad
  | bondingCurve
  | unknown
deriving DecidableEq

structure HolderBalance where
  address : Address
  balanceRaw : ℤ
deriving DecidableEq

structure HolderClassification where
  address : Address
  addressClass : HolderAddressClass
  verified : Bool
  reason : String
  provenance : String
deriving DecidableEq

inductive RebaseState
  | known
  | uncertain
  | notApplicable
deriving DecidableEq

structure HolderAnalysisInput where
  chainId : ℕ
  tokenAddress : Address
  sourceBlock : ℕ
  sourceBlockHash : Hash
  totalSupplyRaw : Option ℤ
  balances : List HolderBalance
  classifications : Option (List HolderClassification)
  methodologyVersion : String
  rebaseState : Option RebaseState
  incompleteHistory : Bool
deriving DecidableEq

structure Concentration where
  top1 : ℤ
  top5 : ℤ
  top10 : ℤ
  top20 : ℤ
deriving DecidableEq

structure HolderSnapshot where
  chainId : ℕ
  tokenAddress : Address
  sourceBlock : ℕ
  sourceBlockHash : Hash
  methodologyVersion : String
  holderCount : ℕ
  totalSupplyRaw : Option ℤ
  circulatingSupplyRaw : Option ℤ
  rawConcentrationBps : Concentration
  adjustedConcentrationBps : Concentration
  giniScaled : Option ℤ
  allocations : HolderAddressClass → ℤ
  exclusions : List HolderClassification
  warnings : List String

/-- `classes`. -/
def holderClasses : List HolderAddressClass :=
  [.zeroBurn, .pool, .bridge, .treasury, .exchange, .deployer, .team, .contract, .launchpad,
    .bondingCurve, .unknown]

/-- What the first of the sorted values have of their total. -/
def shareOf (positive : List ℤ) (n : ℕ) : ℤ :=
  if positive.sum = 0 then 0 else ((positive.take n).sum * 10000).tdiv positive.sum

def concentrations (values : List ℤ) : Concentration :=
  let positive := (values.filter (0 < ·)).insertionSort (· ≥ ·)
  ⟨shareOf positive 1, shareOf positive 5, shareOf positive 10, shareOf positive 20⟩

def gini (values : List ℤ) : Option ℤ :=
  let sorted := (values.filter (0 < ·)).insertionSort (· ≤ ·)
  let total := sorted.sum
  let n : ℤ := sorted.length
  if total = 0 ∨ n = 0 then none
  else some (((2 * rankSum sorted - (n + 1) * total) * 10000).tdiv (n * total))

/-- `byAddress.get`: the last classification of an address. -/
def classificationOf (classifications : List HolderClassification) (address : Address) :
    Option HolderClassification :=
  classifications.reverse.find? fun c => c.address = address

/-- `byAddress.values()`: each address's, where it came first. -/
def classificationValues (classifications : List HolderClassification) :
    List HolderClassification :=
  (classifications.map (·.address)).eraseDups.filterMap (classificationOf classifications)

def holderClassOf (classifications : List HolderClassification) (balance : HolderBalance) :
    HolderAddressClass :=
  ((classificationOf classifications balance.address).map (·.addressClass)).getD .unknown

/-- One round of the loop over the balances. -/
def allocate (classifications : List HolderClassification) (allocations : HolderAddressClass → ℤ)
    (balance : HolderBalance) : HolderAddressClass → ℤ :=
  Function.update allocations (holderClassOf classifications balance)
    (allocations (holderClassOf classifications balance) + balance.balanceRaw)

def analyzeHolders (input : HolderAnalysisInput) : HolderSnapshot :=
  let classifications := input.classifications.getD []
  let valid := input.balances.filter fun b => 0 < b.balanceRaw
  let exclusions := (classificationValues classifications).filter fun c =>
    c.verified && c.addressClass ≠ .unknown
  let excluded := exclusions.map (·.address)
  let adjusted := (valid.filter fun b => !excluded.contains b.address).map (·.balanceRaw)
  let excludedTotal := ((valid.filter fun b => excluded.contains b.address).map (·.balanceRaw)).sum
  { chainId := input.chainId
    tokenAddress := input.tokenAddress
    sourceBlock := input.sourceBlock
    sourceBlockHash := input.sourceBlockHash
    methodologyVersion := input.methodologyVersion
    holderCount := valid.length
    totalSupplyRaw := input.totalSupplyRaw
    circulatingSupplyRaw := if input.rebaseState = some .uncertain then none
      else input.totalSupplyRaw.map (· - excludedTotal)
    rawConcentrationBps := concentrations (valid.map (·.balanceRaw))
    adjustedConcentrationBps := concentrations adjusted
    giniScaled := gini (valid.map (·.balanceRaw))
    allocations := valid.foldl (allocate classifications) fun _ => 0
    exclusions := exclusions
    warnings := (if input.incompleteHistory then ["Holder history is incomplete"] else []) ++
      if input.rebaseState = some .uncertain then ["Rebase state is uncertain"] else [] }

end HoodSentry
