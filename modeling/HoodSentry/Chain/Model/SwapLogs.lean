import HoodSentry.Chain.Model.Quotes
/-!
# Swap logs

`decodeSwap` of `packages/chain/src/protocol-adapters/uniswap-v2.ts`, with
the structural validation of `log.ts`: from a raw log of a registered pool
to a normalized swap. The ABI decoding of the four amounts is a parameter;
the letter case that `getAddress` gives an address is left out.
-/

namespace HoodSentry

namespace UniswapV2

/-- `0x` and hexadecimal digits. -/
def isHex (text : String) : Bool :=
  match text.toList with
  | '0' :: 'x' :: digits => digits.all isHexDigit
  | _ => false

/-- A hash is 32 bytes. -/
def isHash (text : String) : Bool := isHex text && text.length = 66

structure RawChainLog where
  chainId : ℤ
  blockNumber : ℤ
  blockHash : String
  transactionHash : String
  transactionIndex : ℤ
  logIndex : ℤ
  address : AddressText
  topics : List String
  data : String
  removed : Bool
  canonical : Bool
deriving DecidableEq

/-- The errors of decoding a log. -/
inductive LogError
  | malformedProtocolLog (message : String)
  | unknownPool (message : String)
  | invalidAddress (message : String)
deriving DecidableEq

/-- The largest safe integer of the source's numbers. -/
def maxSafeInteger : ℤ := 9007199254740991

/-- What `rawChainLogSchema` asks of a log. -/
def RawChainLog.Valid (log : RawChainLog) : Prop :=
  0 < log.chainId ∧ log.chainId ≤ maxSafeInteger ∧ 0 ≤ log.blockNumber ∧
    isHash log.blockHash = true ∧ isHash log.transactionHash = true ∧ 0 ≤ log.transactionIndex ∧
    0 ≤ log.logIndex ∧ (1 ≤ log.topics.length ∧ log.topics.length ≤ 4) ∧
    log.topics.all isHex = true ∧ isHex log.data = true
deriving Decidable

def parseRawChainLog (log : RawChainLog) : Except LogError RawChainLog :=
  if log.Valid then .ok log
  else .error (.malformedProtocolLog "Protocol log failed structural validation")

structure NormalizedSwap where
  chainId : ℤ
  protocolKey : String
  protocolVersion : String
  poolAddress : AddressText
  transactionHash : String
  blockNumber : ℤ
  blockHash : String
  logIndex : ℤ
  senderAddress : AddressText
  recipientAddress : AddressText
  tokenInAddress : AddressText
  tokenOutAddress : AddressText
  amountInRaw : ℕ
  amountOutRaw : ℕ
  canonical : Bool
deriving DecidableEq

/-- The four amounts of a `Swap` event. -/
structure SwapAmounts where
  amount0In : ℕ
  amount1In : ℕ
  amount0Out : ℕ
  amount1Out : ℕ
deriving DecidableEq

/-- What decoding reads of the adapter: who it is, its pools, and the ABI
decoding of `swapData`. -/
structure SwapDecoder where
  protocolKey : String
  version : String
  chainId : ℤ
  pools : List Char → Option NormalizedPool
  decodeSwapData : String → Option SwapAmounts

/-- The selector of `Swap(address,uint256,uint256,uint256,uint256,address)`. -/
def swapTopic : String := "0xd78ad95fa46c994b6551d0da85fc275fe613ce37657fb8d5e3d130840159d822"

def lowerCase (text : String) : List Char := text.toList.map Char.toLower

def assertTopics (log : RawChainLog) (count : ℕ) : Except LogError Unit :=
  if log.topics.length = count then .ok ()
  else .error (.malformedProtocolLog "Protocol event topic count is invalid")

/-- The address in the last forty digits of a topic. -/
def indexedAddress (topic : Option String) (name : String) : Except LogError AddressText :=
  match topic.map String.toList with
  | none => .error (.malformedProtocolLog ("Missing indexed " ++ name ++ " address"))
  | some digits =>
    if digits.length ≠ 66 then
      .error (.malformedProtocolLog ("Missing indexed " ++ name ++ " address"))
    else
      let last := digits.drop (digits.length - 40)
      if h : (∀ c ∈ last, isHexDigit c = true) ∧ last.length = 40 then .ok ⟨last, h.1, h.2⟩
      else .error (.invalidAddress (String.ofList ('0' :: 'x' :: last)))

namespace SwapAmounts

def zeroToOne (a : SwapAmounts) : Bool :=
  0 < a.amount0In && a.amount1In = 0 && a.amount0Out = 0 && 0 < a.amount1Out

def oneToZero (a : SwapAmounts) : Bool :=
  0 < a.amount1In && a.amount0In = 0 && a.amount1Out = 0 && 0 < a.amount0Out

end SwapAmounts

namespace SwapDecoder

variable (d : SwapDecoder)

def requirePool (address : AddressText) : Except LogError NormalizedPool :=
  match d.pools address.lower with
  | some pool => .ok pool
  | none => .error (.unknownPool ("No active protocol adapter owns pool " ++ address.text))

def decodeAmounts (log : RawChainLog) : Except LogError SwapAmounts :=
  match d.decodeSwapData log.data with
  | some amounts => .ok amounts
  | none => .error (.malformedProtocolLog "Protocol event data failed ABI decoding")

/-- The swap a log stands for, once its pool, amounts and parties are
known. -/
def swapOf (log : RawChainLog) (pool : NormalizedPool) (a : SwapAmounts)
    (sender recipient : AddressText) : NormalizedSwap where
  chainId := d.chainId
  protocolKey := d.protocolKey
  protocolVersion := d.version
  poolAddress := pool.poolAddress
  transactionHash := log.transactionHash
  blockNumber := log.blockNumber
  blockHash := log.blockHash
  logIndex := log.logIndex
  senderAddress := sender
  recipientAddress := recipient
  tokenInAddress := if a.zeroToOne then pool.token0Address else pool.token1Address
  tokenOutAddress := if a.zeroToOne then pool.token1Address else pool.token0Address
  amountInRaw := if a.zeroToOne then a.amount0In else a.amount1In
  amountOutRaw := if a.zeroToOne then a.amount1Out else a.amount0Out
  canonical := log.canonical && !log.removed

/-- **`decodeSwap`**: `none` for the log of another event. -/
def decodeSwap (value : RawChainLog) : Except LogError (Option NormalizedSwap) := do
  let log ← parseRawChainLog value
  if log.topics.head?.map lowerCase ≠ some (lowerCase swapTopic) then return none
  let pool ← d.requirePool log.address
  assertTopics log 3
  let amounts ← d.decodeAmounts log
  if amounts.zeroToOne || amounts.oneToZero then
    let sender ← indexedAddress log.topics[1]? "sender"
    let recipient ← indexedAddress log.topics[2]? "recipient"
    return some (d.swapOf log pool amounts sender recipient)
  else .error (.malformedProtocolLog "Swap amounts do not define one direction")

end SwapDecoder

end UniswapV2

end HoodSentry
