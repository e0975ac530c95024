import Mathlib
/-!
# Chain data

What the provider serves: blocks, their transactions and receipts, and
the logs the receipts carry. A nullable field of the source is an
`Option`. Hashes, addresses and hex strings are kept by value, so the
source's lower-casing and checksumming of addresses are the identity
here.
-/

namespace HoodSentry

/-- A 32-byte hash. -/
structure Hash where
  value : ℕ
deriving DecidableEq

/-- A 20-byte address. -/
structure Address where
  value : ℕ
deriving DecidableEq

/-- The address mints come from. -/
def ZERO_ADDRESS : Address := ⟨0⟩

/-- A hex string: how many digits it has and the number they spell. -/
structure Hex where
  digits : ℕ
  value : ℕ
deriving DecidableEq

/-- `WORD_HEX_PATTERN`: a 32-byte word. -/
def Hex.isWord (h : Hex) : Bool := h.digits == 64

structure Block where
  number : Option ℕ
  hash : Option Hash
  parentHash : Hash
  timestamp : ℕ
deriving DecidableEq

structure Transaction where
  hash : Hash
  transactionIndex : Option ℕ
  fromAddress : Address
  toAddress : Option Address
  nonce : ℕ
  value : ℕ
  input : Hex
  gas : Option ℕ
  gasPrice : Option ℕ
deriving DecidableEq

structure Log where
  transactionHash : Option Hash
  transactionIndex : Option ℕ
  logIndex : Option ℕ
  blockNumber : Option ℕ
  address : Address
  topics : List Hex
  data : Hex
  removed : Bool
deriving DecidableEq

structure TransactionReceipt where
  transactionHash : Hash
  /-- The receipt's `status` is `success` rather than `reverted`. -/
  success : Bool
  gasUsed : ℕ
  effectiveGasPrice : ℕ
  cumulativeGasUsed : ℕ
  contractAddress : Option Address
  logs : List Log
deriving DecidableEq

/-- **A block as the fetcher hands it on**: the header, its bodies, and
the logs worth keeping. -/
structure BlockData where
  block : Block
  transactions : List Transaction
  receipts : List TransactionReceipt
  logs : List Log
deriving DecidableEq

inductive FinalityState
  | pending | softConfirmed | safe | finalized | orphaned
deriving DecidableEq

/-- The fields of the indexer's configuration the modelled code reads. -/
structure IndexerConfig where
  chainId : ℕ
  batchSize : ℕ
  logWindowEnabled : Bool
  persistRawLogs : Bool
  startBlock : Option ℕ
  finalityConfirmations : ℕ
  safeConfirmations : ℕ
deriving DecidableEq

end HoodSentry
