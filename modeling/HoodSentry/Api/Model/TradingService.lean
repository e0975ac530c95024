import HoodSentry.Common.Table
import HoodSentry.Common.Workers
import HoodSentry.Model.Chain
/-!
# Transaction intents

`TradingService.recordBroadcast` and `recordConfirmation` cut at their
awaits, over the stored intents and their events. An intent's hash is
unique and its row is never deleted, so its random id is left out and the
hash stands for it; timestamps that are only written are left out too.
-/

namespace HoodSentry

/-! ## Intents and their events -/

inductive TxStatus
  | draft | simulated | signed | broadcast | confirmed | failed
deriving DecidableEq

/-- A row of `transaction_intents`, with the columns the service reads
back. -/
structure TransactionIntent where
  intentHash : Hash
  userId : ℕ
  walletAddress : Option Address
  targetAddress : Address
  calldata : Option Hex
  valueRaw : Option ℕ
  deadline : Option ℕ
  status : TxStatus
  txHash : Option Hash
deriving DecidableEq

/-- The `action` of an event, with its metadata. -/
inductive IntentAction
  | created
  | broadcast (transactionHash : Hash)
  | confirmed (transactionHash : Hash) (blockNumber : ℕ) (blockHash : Hash)
deriving DecidableEq

/-- A row of `transaction_intent_events`. -/
structure IntentEvent where
  intent : Hash
  action : IntentAction
deriving DecidableEq

structure IntentTables where
  intents : Table TransactionIntent.intentHash
  events : List IntentEvent

/-- What a request names; a string that is no transaction hash is `none`. -/
structure IntentInput where
  intentId : Hash
  transactionHash : Option Hash
  userId : ℕ
  walletAddress : Address
deriving DecidableEq

namespace IntentTables

/-- `ownedIntent`. -/
def ownedIntent (t : IntentTables) (input : IntentInput) : Option TransactionIntent :=
  t.intents.rows.find? fun r => r.intentHash = input.intentId && r.userId = input.userId &&
    r.walletAddress = some input.walletAddress

/-- The status an intent stands at. -/
def status (t : IntentTables) (intent : Hash) : Option TxStatus :=
  (t.intents.rows.find? fun r => r.intentHash = intent).map (·.status)

/-- The database transaction of `recordBroadcast`: the `UPDATE` asks for a
simulated intent, the event is inserted in any case. -/
def storeBroadcast (t : IntentTables) (intent transactionHash : Hash) : IntentTables where
  intents := t.intents.updateWhere
    (fun r => r.intentHash = intent && r.status = .simulated)
    (fun r => { r with status := .broadcast, txHash := some transactionHash }) fun _ => rfl
  events := t.events ++ [⟨intent, .broadcast transactionHash⟩]

/-- The `UPDATE` on a reverted receipt. -/
def storeFailure (t : IntentTables) (intent : Hash) : IntentTables :=
  { t with
    intents := t.intents.updateWhere (fun r => r.intentHash = intent)
      (fun r => { r with status := .failed }) fun _ => rfl }

/-- The database transaction of `recordConfirmation`. -/
def storeConfirmation (t : IntentTables) (intent transactionHash : Hash) (blockNumber : ℕ)
    (blockHash : Hash) : IntentTables where
  intents := t.intents.updateWhere
    (fun r => r.intentHash = intent && r.status = .broadcast)
    (fun r => { r with status := .confirmed }) fun _ => rfl
  events := t.events ++ [⟨intent, .confirmed transactionHash blockNumber blockHash⟩]

/-- A new intent is stored simulated, and its creation logged; a hash in
use fails the transaction. -/
def persistIntent (t : IntentTables) (intent : TransactionIntent) : Option IntentTables :=
  if intent.intentHash ∈ t.intents.keys then none
  else some {
    intents := t.intents.insertNew { intent with status := .simulated, txHash := none }
    events := t.events ++ [⟨intent.intentHash, .created⟩] }

end IntentTables

/-! ## The two operations -/

/-- What the provider says of a transaction. -/
structure TransactionView where
  fromAddress : Address
  toAddress : Option Address
  input : Hex
  value : ℕ
deriving DecidableEq

/-- What the provider says of a receipt. -/
structure ReceiptView where
  transactionHash : Hash
  success : Bool
  blockNumber : ℕ
  blockHash : Hash
deriving DecidableEq

/-- The transaction is the one that was simulated. -/
def transactionMatches (transaction : TransactionView) (row : TransactionIntent) : Bool :=
  some transaction.fromAddress = row.walletAddress &&
    transaction.toAddress = some row.targetAddress && some transaction.input = row.calldata &&
    transaction.value = row.valueRaw.getD 0

inductive IntentRequest
  | recordBroadcast (input : IntentInput)
  | recordConfirmation (input : IntentInput)

/-- The await an operation stands before, with the row it has read and
the hash it was asked about. -/
inductive IntentPhase
  | readForBroadcast (input : IntentInput)
  | getTransaction (input : IntentInput) (row : TransactionIntent) (transactionHash : Hash)
  | storeBroadcast (input : IntentInput) (row : TransactionIntent) (transactionHash : Hash)
  | readForConfirmation (input : IntentInput)
  | getTransactionReceipt (input : IntentInput) (row : TransactionIntent)
  | storeFailure (row : TransactionIntent)
  | storeConfirmation (input : IntentInput) (row : TransactionIntent) (receipt : ReceiptView)
deriving DecidableEq

/-- What an await is answered with. -/
inductive IntentCall
  | ownedIntent (now : ℕ)
  | getTransaction (transaction : TransactionView)
  | storeBroadcast
  | getTransactionReceipt (receipt : ReceiptView)
  | storeFailure
  | storeConfirmation

/-- What an operation answers. The block is that of a fresh
confirmation. -/
structure IntentReturn where
  intentId : Hash
  transactionHash : Hash
  status : TxStatus
  block : Option (ℕ × Hash)
deriving DecidableEq

/-- Beside the operations: an intent is created. -/
inductive IntentCreation
  | persistIntent (intent : TransactionIntent)

/-- A service, with or without a transaction reader. -/
structure TradingService where
  tracking : Bool

namespace TradingService

variable (service : TradingService)

/-- `recordBroadcast` from the row it has read to its next await. -/
def acceptBroadcast (now : ℕ) (input : IntentInput) (row : TransactionIntent) :
    Progress IntentPhase IntentReturn :=
  if row.status = .broadcast ∨ row.status = .confirmed then
    match row.txHash, input.transactionHash with
    | some stored, some requested =>
      if stored = requested then .returned ⟨input.intentId, stored, row.status, none⟩ else .threw
    | _, _ => .threw
  else if row.status ≠ .simulated ∨ row.deadline.all (· ≤ now) then .threw
  else
    match input.transactionHash with
    | none => .threw
    | some requested =>
      if service.tracking then .running (.getTransaction input row requested) else .threw

/-- `recordConfirmation` from the row it has read to its next await. -/
def acceptConfirmation (input : IntentInput) (row : TransactionIntent) :
    Progress IntentPhase IntentReturn :=
  match input.transactionHash with
  | none => .threw
  | some requested =>
    if row.txHash ≠ some requested then .threw
    else if row.status = .confirmed then .returned ⟨input.intentId, requested, .confirmed, none⟩
    else if row.status ≠ .broadcast then .threw
    else if service.tracking then .running (.getTransactionReceipt input row) else .threw

/-- **One await**: its effect, and the await it leads to. -/
def call (t : IntentTables) (p : IntentPhase) :
    IntentCall → Option (IntentTables × Progress IntentPhase IntentReturn)
  | .ownedIntent now =>
    match p with
    | .readForBroadcast input =>
      match t.ownedIntent input with
      | none => some (t, .threw)
      | some row => some (t, service.acceptBroadcast now input row)
    | .readForConfirmation input =>
      match t.ownedIntent input with
      | none => some (t, .threw)
      | some row => some (t, service.acceptConfirmation input row)
    | _ => none
  | .getTransaction transaction =>
    match p with
    | .getTransaction input row requested =>
      if transactionMatches transaction row then
        some (t, .running (.storeBroadcast input row requested))
      else some (t, .threw)
    | _ => none
  | .storeBroadcast =>
    match p with
    | .storeBroadcast input row requested =>
      some (t.storeBroadcast row.intentHash requested,
        .returned ⟨input.intentId, requested, .broadcast, none⟩)
    | _ => none
  | .getTransactionReceipt receipt =>
    match p with
    | .getTransactionReceipt input row =>
      if receipt.success then some (t, .running (.storeConfirmation input row receipt))
      else some (t, .running (.storeFailure row))
    | _ => none
  | .storeFailure =>
    match p with
    | .storeFailure row => some (t.storeFailure row.intentHash, .threw)
    | _ => none
  | .storeConfirmation =>
    match p with
    | .storeConfirmation input row receipt =>
      some (t.storeConfirmation row.intentHash receipt.transactionHash receipt.blockNumber
          receipt.blockHash,
        .returned ⟨input.intentId, receipt.transactionHash, .confirmed,
          some (receipt.blockNumber, receipt.blockHash)⟩)
    | _ => none

/-- **Both operations**, any number of them at a time, with new intents
between their awaits. No throw is caught. -/
def procedure : Procedure IntentTables IntentPhase IntentCall IntentReturn IntentRequest
    IntentCreation where
  start
    | .recordBroadcast input => .readForBroadcast input
    | .recordConfirmation input => .readForConfirmation input
  call := service.call
  thrown _ := .threw
  env
    | t, .persistIntent intent => t.persistIntent intent

/-- No intent and no event. -/
def noIntents : IntentTables := ⟨∅, []⟩

def machine : Machine (Workers IntentTables IntentPhase IntentReturn)
    (WorkerLabel IntentCall IntentRequest IntentCreation) :=
  service.procedure.machine (· = noIntents)

end TradingService

end HoodSentry
