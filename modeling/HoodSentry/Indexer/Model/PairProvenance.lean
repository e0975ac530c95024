import HoodSentry.Common.JsonText
import HoodSentry.Common.OrderedMap
import HoodSentry.Common.Text
/-!
# Where a pair came from

`apps/indexer/src/pair-provenance.ts`: the explorer names the transaction that
created a pair, and its receipt the block and the log of the creation. What the
explorer and the node answer is kept by what the readers tell of it: a field is
a text or is none, an entry an object or none.
-/

namespace HoodSentry

namespace BlockscoutPairProvenance

/-- `keccak256("PairCreated(address,address,address,uint256)")`. -/
def PAIR_CREATED_TOPIC : String :=
  "0x0d3648bd0f6ba80134a33ba9275ac585d9d315f0ad8355cddefde31afa28d0e9"

def ADDRESSES_PER_REQUEST : ℕ := 10

structure PairProvenance where
  address : String
  createdBlock : ℤ
  createdTxHash : String
  createdBlockHash : String
  creationLogIndex : ℤ
  factoryAddress : String
deriving DecidableEq

structure CreationRecord where
  contractAddress : String
  blockNumber : String
  txHash : String
  contractFactory : Option String
deriving DecidableEq

/-- A log of a receipt; its data is what no reader looks at. -/
structure ReceiptLog where
  address : String
  topics : List String
  logIndex : ℤ
  data : String
deriving DecidableEq

structure ReceiptRecord where
  blockHash : String
  logs : List ReceiptLog
deriving DecidableEq

/-! ## Payloads -/

/-- An entry of the explorer's result. -/
structure RawCreation where
  contractAddress : Option String
  blockNumber : Option String
  txHash : Option String
  contractFactory : Option String
deriving DecidableEq

/-- A log as the node gives it: `logIndex` is what `Number` makes of it, none
where that is not finite. -/
structure RawLog where
  address : Option String
  topics : Option (List (Option String))
  logIndex : Option ℤ
  data : String
deriving DecidableEq

structure RawReceipt where
  blockHash : Option String
  logs : Option (List (Option RawLog))
deriving DecidableEq

def readCreation (row : RawCreation) : Option CreationRecord :=
  match row.contractAddress, row.blockNumber, row.txHash with
  | some contractAddress, some blockNumber, some txHash =>
    some ⟨contractAddress, blockNumber, txHash, row.contractFactory⟩
  | _, _, _ => none

/-- None of an answer whose result is no list. -/
def readCreations (result : Option (List (Option RawCreation))) : List CreationRecord :=
  (result.getD []).filterMap fun entry => entry.bind readCreation

def readLog (log : RawLog) : Option ReceiptLog :=
  match log.address, log.topics, log.logIndex with
  | some address, some topics, some logIndex =>
    some ⟨address, topics.filterMap id, logIndex, log.data⟩
  | _, _, _ => none

def readReceipt (payload : Option RawReceipt) : Option ReceiptRecord :=
  match payload with
  | none => none
  | some row =>
    match row.blockHash, row.logs with
    | some blockHash, some logs =>
      some ⟨blockHash, logs.filterMap fun entry => entry.bind readLog⟩
    | _, _ => none

/-! ## Looking up -/

/-- `toLowerCase`. -/
def lower (text : String) : String := String.ofList (text.toList.map Char.toLower)

/-- A log that announces a pair. -/
def isPairCreated (log : ReceiptLog) : Bool :=
  log.topics.head?.any fun topic => lower topic = PAIR_CREATED_TOPIC

/-- **The node and the explorer**: none where a request fails. The explorer
answers with the `result` of its body. -/
structure Sources where
  getTransactionReceipt : String → Option (Option RawReceipt)
  getContractCreation : List String → Option (Option (List (Option RawCreation)))

/-- The factory the explorer names, or no text. -/
def factoryOf (creation : CreationRecord) : String := lower (creation.contractFactory.getD "")

/-- The event of a receipt. -/
def eventOf (factory : String) (receipt : ReceiptRecord) : Option ReceiptLog :=
  receipt.logs.find? fun log => isPairCreated log && (factory = "" || lower log.address = factory)

/-- `BigInt(text)`. -/
def bigInt (text : String) : Option ℤ := bigIntOf ((utf16 text).map (Fin.ofNat 0x10000))

def resolve (sources : Sources) (creation : CreationRecord) : Option PairProvenance := do
  let payload ← sources.getTransactionReceipt creation.txHash
  let receipt ← readReceipt payload
  let event ← eventOf (factoryOf creation) receipt
  let createdBlock ← bigInt creation.blockNumber
  return {
    address := creation.contractAddress
    createdBlock := createdBlock
    createdTxHash := creation.txHash
    createdBlockHash := receipt.blockHash
    creationLogIndex := event.logIndex
    factoryAddress := factoryOf creation }

/-- The addresses of each request. -/
def chunks (addresses : List String) : List (List String) :=
  if addresses = [] then []
  else addresses.take ADDRESSES_PER_REQUEST :: chunks (addresses.drop ADDRESSES_PER_REQUEST)
termination_by addresses.length
decreasing_by
  rename_i hne
  have hpos := List.length_pos_iff.mpr hne
  rw [List.length_drop, ADDRESSES_PER_REQUEST]
  omega

/-- What the explorer names for a request: nothing where it fails. -/
def creationsOf (sources : Sources) (chunk : List String) : List CreationRecord :=
  match sources.getContractCreation chunk with
  | none => []
  | some result => readCreations result

abbrev Found := OrderedMap String PairProvenance

/-- `found.set` where the creation is resolved. -/
def record (sources : Sources) (found : Found) (creation : CreationRecord) : Found :=
  match resolve sources creation with
  | none => found
  | some resolved => found.set (lower resolved.address) resolved

def lookup (sources : Sources) (addresses : List String) : Found :=
  (chunks addresses).foldl (fun found chunk =>
    (creationsOf sources chunk).foldl (record sources) found) ∅

end BlockscoutPairProvenance

end HoodSentry
