import HoodSentry.Common.Text
import HoodSentry.Model.Chain
/-!
# Dynamic simulation

`packages/risk-engine/src/simulation.ts`: a batch of requests run one after
another on an Anvil fork, and the findings derived from their results. What
the fork computes is a parameter, and so is the fate of every JSON-RPC call:
it may be lost before the node acts on it, or left without a good answer
after. Beside what the service keeps, a run keeps for every request on which
state it was mined, if it was.

A request that loses the race against `timeoutMs` is not recorded; its
calls still come before those of the next request.
-/

namespace HoodSentry

namespace Simulation

inductive SimulationAction
  | name
  | symbol
  | decimals
  | totalSupply
  | transfer
  | approve
  | transferFrom
  | zeroValueTransfer
  | buy
  | sell
  | transferAfterBuy
  | sellAfterTransfer
  | repeatedTrade
  | permit
  | bondingCurveBuy
  | bondingCurveSell
  | postGraduationSwap
deriving DecidableEq

def SimulationAction.text : SimulationAction → String
  | name => "name"
  | symbol => "symbol"
  | decimals => "decimals"
  | totalSupply => "totalSupply"
  | transfer => "transfer"
  | approve => "approve"
  | transferFrom => "transferFrom"
  | zeroValueTransfer => "zeroValueTransfer"
  | buy => "buy"
  | sell => "sell"
  | transferAfterBuy => "transferAfterBuy"
  | sellAfterTransfer => "sellAfterTransfer"
  | repeatedTrade => "repeatedTrade"
  | permit => "permit"
  | bondingCurveBuy => "bondingCurveBuy"
  | bondingCurveSell => "bondingCurveSell"
  | postGraduationSwap => "postGraduationSwap"

structure ForkConfiguration where
  chainId : ℕ
  blockNumber : ℕ
deriving DecidableEq

structure AllowanceProbe where
  owner : Address
  spender : Address
  asset : Address
deriving DecidableEq

/-- `routeVerified` is the route's flag, where there is a route. -/
structure SimulationRequest where
  chainId : ℕ
  tokenAddress : Address
  sourceBlock : ℕ
  sender : Address
  action : SimulationAction
  amountOutExpectedRaw : Option ℤ
  routeVerified : Option Bool
  target : Address
  calldata : Hex
  valueRaw : Option ℕ
  hypotheticalStateOverride : Bool
  balanceProbes : List Address
  allowanceProbe : Option AllowanceProbe
deriving DecidableEq

structure BalanceChange where
  address : Address
  asset : Address
  beforeRaw : Option ℤ
  afterRaw : Option ℤ
  deltaRaw : Option ℤ
  hypothetical : Bool
deriving DecidableEq

structure AllowanceChange where
  owner : Address
  spender : Address
  asset : Address
  beforeRaw : Option ℤ
  afterRaw : Option ℤ
  deltaRaw : Option ℤ
  hypothetical : Bool
deriving DecidableEq

structure SimulationResult where
  success : Bool
  decodedError : Option String
  gasUsed : Option ℕ
  actualOutputRaw : Option ℤ
  balanceChanges : List BalanceChange
  allowanceChanges : List AllowanceChange
deriving DecidableEq

/-! ## The fork and its endpoint -/

/-- What `eth_sendTransaction` is given. -/
structure SentTransaction where
  sender : Address
  target : Address
  data : Hex
  value : ℕ
deriving DecidableEq

inductive ReadCall
  | balanceOf (asset owner : Address)
  | allowance (asset owner spender : Address)
deriving DecidableEq

/-- **What the fork computes**: the state a mined transaction leaves and
whether it succeeded, and the quantity a call reads, where it is one. -/
structure Fork (S : Type) where
  transact : S → SentTransaction → S × Bool
  read : S → ReadCall → Except String ℕ

/-- How a transaction was mined: on which state, and with which status. -/
structure Mined (S : Type) where
  state : S
  success : Bool
deriving DecidableEq

/-- Why a call has no good answer: it never reached the node, or the node
acted and its answer was lost or malformed. -/
inductive Fault
  | lost (message : String)
  | unanswered (message : String)
deriving DecidableEq

/-- The answer to a poll for the receipt; `malformed` is a receipt without
a readable status. -/
inductive PollReply
  | pending
  | failed (message : String)
  | malformed
  | found
deriving DecidableEq

/-- **The fate of the calls of one request**, in their order. Reads change
nothing, so for them a fault is only its message. -/
structure Faults where
  snapshot : Option Fault
  before : ℕ → Option String
  send : Option Fault
  poll : ℕ → PollReply
  after : ℕ → Option String
  gasUsed : Except String (Option ℕ)
  revert : Option Fault

def Fault.message : Fault → String
  | lost message | unanswered message => message

/-! ## `AnvilJsonRpcSimulationProvider` -/

section Provider

variable {S : Type} (fork : Fork S)

/-- The calls of `readProbe`. -/
def SimulationRequest.probes (request : SimulationRequest) : List ReadCall :=
  request.balanceProbes.map (.balanceOf · request.sender) ++
    request.allowanceProbe.toList.map fun probe => .allowance probe.asset probe.owner probe.spender

/-- Reading in order, until a call fails. -/
def readAll (state : S) (faults : ℕ → Option String) : ℕ → List ReadCall → Except String (List ℕ)
  | _, [] => .ok []
  | i, call :: calls =>
    match faults i with
    | some message => .error message
    | none =>
      match fork.read state call with
      | .error message => .error message
      | .ok value =>
        match readAll state faults (i + 1) calls with
        | .error message => .error message
        | .ok values => .ok (value :: values)

def readProbe (state : S) (faults : ℕ → Option String) (request : SimulationRequest) :
    Except String (List ℕ) :=
  readAll fork state faults 0 request.probes

def SimulationRequest.transaction (request : SimulationRequest) : SentTransaction :=
  ⟨request.sender, request.target, request.calldata, request.valueRaw.getD 0⟩

/-- **What an execution comes to**: the fork's state after it, how its
transaction was mined, if it was, and its result or what it throws. -/
structure Executed (S R : Type) where
  state : S
  mined : Option (Mined S)
  outcome : Except String R

/-- The transaction is mined. -/
def mine {R : Type} (request : SimulationRequest) (state : S) (outcome : Except String R) :
    Executed S R where
  state := (fork.transact state request.transaction).1
  mined := some ⟨state, (fork.transact state request.transaction).2⟩
  outcome := outcome

/-- The polls for the receipt: whether its status is `0x1`. -/
def pollReceipt (replies : ℕ → PollReply) (success : Bool) : (attempts : ℕ) → ℕ → Except String Bool
  | 0, _ => .error "Anvil receipt timeout"
  | attempts + 1, attempt =>
    match replies attempt with
    | .pending => pollReceipt replies success attempts (attempt + 1)
    | .failed message => .error message
    | .malformed => .ok false
    | .found => .ok success

def changesOf (request : SimulationRequest) (before after : List ℕ) : List BalanceChange :=
  request.balanceProbes.zipIdx.map fun (asset, index) =>
    { address := request.sender
      asset := asset
      beforeRaw := before[index]?.map Int.ofNat
      afterRaw := after[index]?.map Int.ofNat
      deltaRaw := none
      hypothetical := request.hypotheticalStateOverride }

def allowanceChangesOf (request : SimulationRequest) (before after : List ℕ) :
    List AllowanceChange :=
  request.allowanceProbe.toList.map fun probe =>
    { owner := probe.owner
      spender := probe.spender
      asset := probe.asset
      beforeRaw := before[request.balanceProbes.length]?.map Int.ofNat
      afterRaw := after[request.balanceProbes.length]?.map Int.ofNat
      deltaRaw := none
      hypothetical := request.hypotheticalStateOverride }

/-- Once the transaction is sent: the polls, the probes after it, and the
result. -/
def receive (request : SimulationRequest) (faults : Faults) (before : List ℕ) (state : S)
    (success : Bool) : Except String SimulationResult :=
  match pollReceipt faults.poll success 40 0 with
  | .error message => .error message
  | .ok status =>
    match readProbe fork state faults.after request with
    | .error message => .error message
    | .ok after =>
      match faults.gasUsed with
      | .error message => .error message
      | .ok gasUsed => .ok
          { success := status
            decodedError := if status then none else some "Transaction reverted on Anvil fork"
            gasUsed := gasUsed
            actualOutputRaw := none
            balanceChanges := changesOf request before after
            allowanceChanges := allowanceChangesOf request before after }

/-- The `try` block. -/
def attempt (request : SimulationRequest) (faults : Faults) (state : S) :
    Executed S SimulationResult :=
  match readProbe fork state faults.before request with
  | .error message => ⟨state, none, .error message⟩
  | .ok before =>
    match faults.send with
    | some (.lost message) => ⟨state, none, .error message⟩
    | some (.unanswered message) => mine fork request state (.error message)
    | none =>
      mine fork request state
        (receive fork request faults before (fork.transact state request.transaction).1
          (fork.transact state request.transaction).2)

/-- What the `catch` block answers. -/
def failedResult (message : String) : SimulationResult where
  success := false
  decodedError := some message
  gasUsed := none
  actualOutputRaw := none
  balanceChanges := []
  allowanceChanges := []

def caught : Except String SimulationResult → SimulationResult
  | .ok result => result
  | .error message => failedResult message

/-- **`execute`**: a snapshot, the attempt, and the revert whatever came of
it. -/
def execute (request : SimulationRequest) (faults : Faults) (state : S) :
    Executed S SimulationResult :=
  match faults.snapshot with
  | some fault => ⟨state, none, .error fault.message⟩
  | none =>
    let tried := attempt fork request faults state
    match faults.revert with
    | none => ⟨state, tried.mined, .ok (caught tried.outcome)⟩
    | some (.unanswered message) => ⟨state, tried.mined, .error message⟩
    | some (.lost message) => ⟨tried.state, tried.mined, .error message⟩

end Provider

/-! ## Findings -/

inductive FindingCode
  | buySucceedsSellFails
  | ordinaryTransferFails
  | extremeBuyTax
  | extremeSellTax
  | addressDependentTax
  | quoteOutputDivergence
  | unexpectedBalanceChange
deriving DecidableEq

inductive Severity
  | low | medium | high | critical
deriving DecidableEq

inductive FindingConfidence
  | high | confirmed
deriving DecidableEq

structure SimulationExecution where
  tokenAddress : Address
  action : SimulationAction
  result : SimulationResult
  expectedOutputRaw : Option ℤ
  warnings : List String
  hypothetical : Bool
deriving DecidableEq

structure SimulationFinding where
  code : FindingCode
  fails : Bool
  severity : Severity
  explanation : String
  evidence : List SimulationExecution
  confidence : FindingConfidence
deriving DecidableEq

def finding (code : FindingCode) (severity : Severity) (explanation : String)
    (evidence : List SimulationExecution) (confidence : FindingConfidence) : SimulationFinding where
  code := code
  fails := severity = .critical || severity = .high
  severity := severity
  explanation := explanation
  evidence := evidence
  confidence := confidence

section Findings

variable (executions : List SimulationExecution)

/-- The map of the executions by their action keeps the last of each. -/
def lastOf (action : SimulationAction) : Option SimulationExecution :=
  (executions.filter (·.action = action)).getLast?

def honeypotFindings : List SimulationFinding :=
  match lastOf executions .buy, lastOf executions .sell with
  | some buy, some sell =>
    if buy.result.success = true ∧ sell.result.success = false then
      [finding .buySucceedsSellFails .critical "Buy succeeded while sell failed." [buy, sell]
        .confirmed]
    else []
  | _, _ => []

def transferFindings : List SimulationFinding :=
  [SimulationAction.transfer, .transferAfterBuy, .sellAfterTransfer].flatMap fun action =>
    match lastOf executions action with
    | some execution =>
      if execution.result.success = false then
        [finding .ordinaryTransferFails .high
          ("The " ++ action.text ++ " path reverted for the disposable account.") [execution]
          .confirmed]
      else []
    | none => []

/-- The share of the expected output that was lost, in basis points. -/
def tax (execution : SimulationExecution) : Option ℤ :=
  match execution.expectedOutputRaw, execution.result.actualOutputRaw with
  | some expected, some actual =>
    if expected = 0 then none else some (((expected - actual) * 10000).tdiv expected)
  | _, _ => none

def fees : List SimulationExecution :=
  executions.filter fun execution => execution.result.success &&
    execution.expectedOutputRaw.isSome && execution.result.actualOutputRaw.isSome

def taxFindings (action : SimulationAction) (code : FindingCode) (explanation : String) :
    List SimulationFinding :=
  let paid := (fees executions).filter (·.action = action)
  if paid.any fun execution => 1000 ≤ (tax execution).getD 0 then
    [finding code .high explanation paid .confirmed]
  else []

def dependentTaxFindings : List SimulationFinding :=
  let outputs := (fees executions).filterMap tax
  if 1 < outputs.length && 1 < outputs.dedup.length then
    [finding .addressDependentTax .medium "Effective fee differs across simulated paths."
      (fees executions) .high]
  else []

def executionFindings (execution : SimulationExecution) : List SimulationFinding :=
  (if execution.result.balanceChanges.any fun change =>
      change.asset ≠ execution.tokenAddress && change.deltaRaw ≠ some 0 then
    [finding .unexpectedBalanceChange .high "Simulation changed an unrequested asset balance."
      [execution] .confirmed]
  else []) ++
  match execution.expectedOutputRaw, execution.result.actualOutputRaw with
  | some expected, some actual =>
    if expected - actual < 0 ∨ expected < (expected - actual) * 100 then
      [finding .quoteOutputDivergence .high
        "Actual output diverged materially from the expected output." [execution] .confirmed]
    else []
  | _, _ => []

/-- **`deriveFindings`.** -/
def deriveFindings : List SimulationFinding :=
  honeypotFindings executions ++ transferFindings executions ++
    taxFindings executions .buy .extremeBuyTax
      "Buy output lost at least 10 percent versus expected output." ++
    taxFindings executions .sell .extremeSellTax
      "Sell output lost at least 10 percent versus expected output." ++
    dependentTaxFindings executions ++ executions.flatMap executionFindings

end Findings

/-! ## `DynamicSimulationService` -/

def validateRequest (request : SimulationRequest) (configuration : ForkConfiguration) :
    Except String Unit :=
  if request.chainId ≠ configuration.chainId then
    .error ("Simulation chain " ++ toString request.chainId ++ " does not match fork " ++
      toString configuration.chainId)
  else if request.sourceBlock ≠ configuration.blockNumber then
    .error "Simulation request is not pinned to the fork block"
  else if request.target = ZERO_ADDRESS then .error "Simulation target is invalid"
  else if request.sender = ZERO_ADDRESS then
    .error "Simulation sender must be a disposable non-zero account"
  else if request.routeVerified = some false then .error "Simulation route is not verified"
  else .ok ()

def delta (before after : Option ℤ) : Option ℤ :=
  match before, after with
  | some before, some after => some (after - before)
  | _, _ => none

def withDeltas (result : SimulationResult) : SimulationResult :=
  { result with
    balanceChanges := result.balanceChanges.map fun change =>
      { change with deltaRaw := delta change.beforeRaw change.afterRaw }
    allowanceChanges := result.allowanceChanges.map fun change =>
      { change with deltaRaw := delta change.beforeRaw change.afterRaw } }

def executionWarnings (request : SimulationRequest) : List String :=
  ["Simulation result is hypothetical and never broadcast"] ++
  (if request.hypotheticalStateOverride then ["Hypothetical state overrides were applied"] else []) ++
  if request.routeVerified ≠ some true ∧
      [SimulationAction.buy, .sell, .postGraduationSwap].contains request.action then
    ["No verified route was supplied"]
  else []

def executionOf (request : SimulationRequest) (result : SimulationResult) :
    SimulationExecution where
  tokenAddress := request.tokenAddress
  action := request.action
  result := withDeltas result
  expectedOutputRaw := request.amountOutExpectedRaw
  warnings := executionWarnings request
  hypothetical := request.hypotheticalStateOverride

/-- What befalls one request: the batch may be aborted before it, its race
may be lost, and its calls have their fates. -/
structure Circumstances where
  aborted : Bool
  timedOut : Bool
  faults : Faults

inductive BatchStatus
  | complete | partiallyDone | cancelled | quarantined
deriving DecidableEq

/-- What became of one request: how it was mined, and the execution that
was recorded for it. -/
structure Settled (S : Type) where
  request : SimulationRequest
  mined : Option (Mined S)
  recorded : Option SimulationExecution

/-- What the loop over the requests has gathered. -/
structure Gathered (S : Type) where
  state : S
  history : List (Settled S)
  warnings : List String
  cancelled : Bool

def Gathered.executions {S : Type} (g : Gathered S) : List SimulationExecution :=
  g.history.filterMap (·.recorded)

section Service

variable {S : Type} (fork : Fork S) (configuration : ForkConfiguration)

/-- **One request that is not aborted**: what is recorded for it, or the
message it is warned of with. -/
def simulate (request : SimulationRequest) (circumstances : Circumstances) (state : S) :
    Executed S SimulationExecution :=
  match validateRequest request configuration with
  | .error message => ⟨state, none, .error message⟩
  | .ok () =>
    let executed := execute fork request circumstances.faults state
    ⟨executed.state, executed.mined,
      if circumstances.timedOut then .error "SIMULATION_TIMEOUT"
      else executed.outcome.map (executionOf request)⟩

def Gathered.add (g : Gathered S) (request : SimulationRequest)
    (executed : Executed S SimulationExecution) : Gathered S where
  state := executed.state
  history := g.history ++ [⟨request, executed.mined, executed.outcome.toOption⟩]
  warnings := g.warnings ++ match executed.outcome with
    | .ok _ => []
    | .error message => [request.action.text ++ ": " ++ message]
  cancelled := g.cancelled

/-- The loop over the requests. -/
def simulateAll : Gathered S → List (SimulationRequest × Circumstances) → Gathered S
  | g, [] => g
  | g, (request, circumstances) :: rest =>
    if circumstances.aborted then
      { g with
        warnings := g.warnings ++ ["Simulation cancelled"]
        cancelled := true }
    else
      simulateAll (g.add request (simulate fork configuration request circumstances g.state)) rest

structure SimulationBatchResult where
  executions : List SimulationExecution
  findings : List SimulationFinding
  status : BatchStatus
  warnings : List String
deriving DecidableEq

def batchStatus (warnings : List String) : BatchStatus :=
  if warnings.any fun warning => includes warning "TIMEOUT" then .quarantined
  else if warnings ≠ [] then .partiallyDone
  else .complete

/-- **`run`**, with the fate of `getBlockHash`: the batch, and what became
of its requests. -/
def run (base : S) (blockHash : Option String)
    (requests : List (SimulationRequest × Circumstances)) :
    Except String (SimulationBatchResult × List (Settled S)) :=
  if requests = [] then .error "Simulation requires at least one request"
  else
    match blockHash with
    | some message => .error message
    | none =>
      let g := simulateAll fork configuration ⟨base, [], [], false⟩ requests
      .ok
        ({ executions := g.executions
           findings := deriveFindings g.executions
           status := if g.cancelled then .cancelled else batchStatus g.warnings
           warnings := g.warnings }, g.history)

end Service

end Simulation

end HoodSentry
