import HoodSentry.Common.Machine
import HoodSentry.Entitlement.Model.TokenGating
import HoodSentry.Worker.Model.Transfer
/-!
# Token entitlements

`TokenEntitlementService.reconcile`: a wallet's indexed balance, checked
against the chain at the balance's own block, moves the wallet's
entitlement on. The call's clock is that block's timestamp. Times are in
milliseconds.
-/

namespace HoodSentry

/-- The runtime configuration of the gate. -/
structure TokenGateConfig extends GateConfig where
  runtimeBytecodeHash : Hash

/-- What a call reads of the tables and of the chain. -/
structure EntitlementFacts where
  tokenBalances : Table BalanceRow.key
  blocks : Table BlockRow.key
  tokenTransfers : Table TransferRow.key
  /-- `bytecode_hash` of the contract of a stored token. -/
  contractBytecodeHash : ℕ → Address → Option Hash
  /-- The provider's chain id. -/
  chainId : ℕ
  /-- The hash of the code at a block, where there is any. -/
  bytecodeHash : Address → ℕ → Option Hash
  balanceOf : Address → Address → ℕ → ℕ

inductive EntitlementStatus
  | available | pending
deriving DecidableEq

/-- A row of `token_entitlement_states`. -/
structure TokenEntitlementRow where
  chainId : ℕ
  tokenAddress : Address
  walletAddress : Address
  eligibleTier : Tier
  grantedTier : Tier
  candidateTier : Option Tier
  candidateSince : Option ℕ
  candidateStartBlock : Option ℕ
  balanceRaw : ℕ
  indexedBalanceRaw : ℤ
  observedBlock : ℕ
  observedBlockHash : Hash
  status : EntitlementStatus
  reasons : List String
  methodologyVersion : String
  observedAt : ℕ
  expiresAt : ℕ
deriving DecidableEq

def TokenEntitlementRow.key (r : TokenEntitlementRow) : ℕ × Address × Address :=
  (r.chainId, r.tokenAddress, r.walletAddress)

/-- The state a row stores. -/
def TokenEntitlementRow.state (r : TokenEntitlementRow) : EntitlementState :=
  ⟨r.grantedTier, r.candidateTier, r.candidateSince⟩

/-- **What a call has found out** before its transaction. -/
structure EntitlementObservation where
  directBalance : ℕ
  indexedBalanceRaw : ℤ
  asOfBlock : ℕ
  blockHash : Hash
  observedAt : ℕ
deriving DecidableEq

abbrev EntitlementTable : Type := Table TokenEntitlementRow.key

namespace TokenGateConfig

variable (config : TokenGateConfig)

def key (wallet : Address) : ℕ × Address × Address := (config.chainId, config.tokenAddress, wallet)

/-- The canonical block at a height. -/
def sourceBlock (f : EntitlementFacts) (number : ℕ) : Option BlockRow :=
  f.blocks.rows.find? fun b => b.chainId = config.chainId && b.number = number && b.canonical

/-- **The reads of a call**, or why the entitlement is unavailable. -/
def observe (f : EntitlementFacts) (wallet : Address) : Except String EntitlementObservation :=
  if ¬config.enabled then .error "TOKEN_GATE_DISABLED"
  else if f.chainId ≠ config.chainId then .error "CHAIN_ID_MISMATCH"
  else match f.tokenBalances.find (config.key wallet) with
  | none => .error "INDEXED_TOKEN_BALANCE_UNAVAILABLE"
  | some indexed =>
    match config.sourceBlock f indexed.asOfBlock with
    | none => .error "ENTITLEMENT_SOURCE_BLOCK_UNAVAILABLE"
    | some block =>
      if f.bytecodeHash config.tokenAddress indexed.asOfBlock ≠ some config.runtimeBytecodeHash then
        .error "SENTRY_TOKEN_BYTECODE_MISMATCH"
      else if f.contractBytecodeHash config.chainId config.tokenAddress ≠
          some config.runtimeBytecodeHash then
        .error "INDEXED_SENTRY_IDENTITY_UNVERIFIED"
      else
        let directBalance := f.balanceOf config.tokenAddress wallet indexed.asOfBlock
        if (directBalance : ℤ) ≠ indexed.balanceRaw then
          .error "SENTRY_BALANCE_RECONCILIATION_MISMATCH"
        else .ok ⟨directBalance, indexed.balanceRaw, indexed.asOfBlock, block.hash,
          block.timestamp * 1000⟩

/-- The wallet had a transfer since the block its candidate started at. -/
def resetCandidate (f : EntitlementFacts) (wallet : Address)
    (existing : Option TokenEntitlementRow) : Bool :=
  match existing.bind (·.candidateStartBlock) with
  | none => false
  | some start => f.tokenTransfers.rows.any fun t =>
    t.joins config.chainId config.tokenAddress wallet && start < t.blockNumber

/-- What the state machine is given. -/
def advanceInput (f : EntitlementFacts) (wallet : Address) (existing : Option TokenEntitlementRow)
    (o : EntitlementObservation) : AdvanceInput where
  current := existing.map (·.state)
  eligibleTier := calculateTier o.directBalance config.toGateConfig
  observedAt := o.observedAt
  minimumHoldingSeconds := config.minimumHoldingSeconds
  resetCandidate := config.resetCandidate f wallet existing

/-- The row the transaction writes. -/
def nextRow (f : EntitlementFacts) (wallet : Address) (now : ℕ)
    (existing : Option TokenEntitlementRow) (o : EntitlementObservation) : TokenEntitlementRow :=
  let input := config.advanceInput f wallet existing o
  let next := advanceEntitlementState input
  let candidateChanged : Bool :=
    match input.current with
    | none => true
    | some current =>
      next.candidateTier ≠ current.candidateTier || next.candidateSince ≠ current.candidateSince ||
        input.resetCandidate
  let status : EntitlementStatus :=
    if next.grantedTier = input.eligibleTier then .available else .pending
  { chainId := config.chainId
    tokenAddress := config.tokenAddress
    walletAddress := wallet
    eligibleTier := input.eligibleTier
    grantedTier := next.grantedTier
    candidateTier := if next.candidateTier = some .free then none else next.candidateTier
    candidateSince := next.candidateSince
    candidateStartBlock :=
      if next.candidateTier = none then none
      else if candidateChanged then some o.asOfBlock
      else some ((existing.bind (·.candidateStartBlock)).getD o.asOfBlock)
    balanceRaw := o.directBalance
    indexedBalanceRaw := o.indexedBalanceRaw
    observedBlock := o.asOfBlock
    observedBlockHash := o.blockHash
    status := status
    reasons := if status = .pending then ["MINIMUM_HOLDING_DURATION_PENDING"] else []
    methodologyVersion := config.version
    observedAt := o.observedAt
    expiresAt := now + config.cacheSeconds * 1000 }

/-- **One call**: the rows it leaves, and the row it returns or why there
is none. -/
def reconcile (f : EntitlementFacts) (states : EntitlementTable) (wallet : Address) (now : ℕ) :
    EntitlementTable × Except String TokenEntitlementRow :=
  match config.observe f wallet with
  | .error reason => (states, .error reason)
  | .ok o =>
    let row := config.nextRow f wallet now (states.find (config.key wallet)) o
    (states.put row, .ok row)

end TokenGateConfig

/-! ## Runs -/

/-- The rows, and the calls that went through for each wallet, latest
first. -/
structure EntitlementWorld where
  states : EntitlementTable
  reconciled : Address → List Reconciliation

structure EntitlementCall where
  facts : EntitlementFacts
  wallet : Address
  now : ℕ

namespace TokenGateConfig

variable (config : TokenGateConfig)

/-- **Calls one after the other**, from no state. -/
def machine : Machine EntitlementWorld EntitlementCall where
  Init w := w.states = ∅ ∧ ∀ wallet, w.reconciled wallet = []
  step w call :=
    let done := config.reconcile call.facts w.states call.wallet call.now
    match done.2 with
    | .error _ => some { w with states := done.1 }
    | .ok row =>
      let reset := config.resetCandidate call.facts call.wallet
        (w.states.find (config.key call.wallet))
      some
        { states := done.1
          reconciled := Function.update w.reconciled call.wallet
            (⟨row.eligibleTier, row.observedAt, reset, row.grantedTier⟩ ::
              w.reconciled call.wallet) }

end TokenGateConfig

end HoodSentry
