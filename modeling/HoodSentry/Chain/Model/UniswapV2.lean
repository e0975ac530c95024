import HoodSentry.Common.Async
import HoodSentry.Chain.Model.Quotes
/-!
# The Uniswap v2 adapter

`UniswapV2Adapter` of `packages/chain/src/protocol-adapters/uniswap-v2.ts`:
the pools registered with it, the quotes it issues and the transactions it
prepares from them. Its methods await the chain between synchronous
sections, so each is a call of the interleaving machine. Hashing, the ABI
codec and the parsing of dates are parameters.
-/

namespace HoodSentry

namespace UniswapV2

def UNISWAP_V2_FEE_TIER : ℤ := 3000

def FEE_DENOMINATOR : ℤ := 1000000

def UNISWAP_V2_SWAP_SELECTOR : String := "0x38ed1739"

/-! ## The adapter's definition -/

inductive ProtocolContractRole
  | factory
  | router
  | quoter
  | positionManager
  | permit2
  | bondingCurve
  | tokenFactory
  | migration
  | feeCollector
deriving DecidableEq

inductive ProtocolKind
  | dex
  | launchpad
deriving DecidableEq

structure ProtocolContractConfig where
  contractRole : ProtocolContractRole
  address : AddressText
  enabled : Bool
deriving DecidableEq

structure ProtocolDefinition where
  protocolKey : ProtocolName
  protocolVersion : ProtocolName
  chainId : ℤ
  kind : ProtocolKind
  contracts : List ProtocolContractConfig

structure UniswapV2AdapterOptions where
  defaultQuoteTtlSeconds : Option ℚ
  maximumQuoteTtlSeconds : Option ℚ

/-- What the constructor keeps. -/
structure UniswapV2Adapter where
  protocolKey : ProtocolName
  version : ProtocolName
  chainId : ℤ
  factory : AddressText
  router : AddressText
  defaultQuoteTtlSeconds : ℚ
  maximumQuoteTtlSeconds : ℚ

def getProtocolContract (definition : ProtocolDefinition) (role : ProtocolContractRole) :
    Option ProtocolContractConfig :=
  definition.contracts.find? fun contract => contract.contractRole = role

def ProtocolContractRole.text : ProtocolContractRole → String
  | factory => "factory"
  | router => "router"
  | quoter => "quoter"
  | positionManager => "positionManager"
  | permit2 => "permit2"
  | bondingCurve => "bondingCurve"
  | tokenFactory => "tokenFactory"
  | migration => "migration"
  | feeCollector => "feeCollector"

def requireContract (definition : ProtocolDefinition) (role : ProtocolContractRole) :
    Except AdapterError AddressText :=
  match getProtocolContract definition role with
  | some contract =>
    if contract.enabled then .ok contract.address
    else .error (.unverifiedProtocolContract ("Uniswap v2 lacks an enabled " ++ role.text))
  | none => .error (.unverifiedProtocolContract ("Uniswap v2 lacks an enabled " ++ role.text))

/-- The constructor. -/
def UniswapV2Adapter.create (definition : ProtocolDefinition) (options : UniswapV2AdapterOptions) :
    Except AdapterError UniswapV2Adapter :=
  if definition.kind ≠ .dex then .error (.other "Uniswap v2 requires a DEX definition")
  else do
    let factory ← requireContract definition .factory
    let router ← requireContract definition .router
    .ok
      { protocolKey := definition.protocolKey
        version := definition.protocolVersion
        chainId := definition.chainId
        factory
        router
        defaultQuoteTtlSeconds := options.defaultQuoteTtlSeconds.getD 30
        maximumQuoteTtlSeconds := options.maximumQuoteTtlSeconds.getD 120 }

/-! ## What the adapter calls -/

/-- The arguments of `swapExactTokensForTokens`. -/
structure SwapArguments where
  amountIn : ℤ
  amountOutMin : ℤ
  path : List AddressText
  recipient : AddressText
  deadline : ℤ
deriving DecidableEq

/-- The libraries the adapter rests on: `keccak256` over a text, the ABI
codec of the router's swap, and `Date` reading a text. -/
structure Libraries (H : Type) where
  keccak256 : String → H
  encodeFunctionData : SwapArguments → Except String String
  decodeFunctionResult : String → Except String (List ℕ)
  dateTime : String → Option ℤ

/-- What is asked of the validation service, the feature policy and the
chain. -/
inductive Query
  | assertActive
  | assertTradingEnabled
  | getChainId
  | getPair (tokenA tokenB : AddressText)
  | getAmountsOut (amountIn : ℤ) (path : List AddressText)
  | getBlockNumber
  | getReserves (pool : AddressText)
  | getBlockTimestamp
  | simulateTransaction (account recipient : AddressText) (data : String) (value : ℤ)

/-- What it is answered with. The reserves come with the total supply, read
beside them. -/
def Answer : Query → Type
  | .assertActive | .assertTradingEnabled => Unit
  | .getChainId => ℤ
  | .getPair _ _ => AddressText
  | .getAmountsOut _ _ => List ℕ
  | .getBlockNumber | .getBlockTimestamp => ℕ
  | .getReserves _ => ℕ × ℕ × ℕ
  | .simulateTransaction _ _ _ _ => ProtocolSimulationResult

/-- **The adapter's own state**, beside the server's clock in milliseconds.
`issued` are the quotes issued so far, which the source keeps no list of. -/
structure AdapterState (H : Type) where
  pools : List Char → Option NormalizedPool
  issuedQuotes : String → Option H
  now : ℤ
  issued : List NormalizedQuote

/-- A method's call. -/
abbrev Call (H α : Type) : Type := Async Query Answer (AdapterState H) AdapterError α

section Methods

variable {H : Type} (A : UniswapV2Adapter)

def assertActive : Call H Unit := Async.ask Query.assertActive

def assertTradingEnabled : Call H Unit := Async.ask Query.assertTradingEnabled

def getChainId : Call H ℤ := Async.ask Query.getChainId

def getPair (tokenA tokenB : AddressText) : Call H AddressText :=
  Async.ask (Query.getPair tokenA tokenB)

def getAmountsOut (amountIn : ℤ) (path : List AddressText) : Call H (List ℕ) :=
  Async.ask (Query.getAmountsOut amountIn path)

def getBlockNumber : Call H ℕ := Async.ask Query.getBlockNumber

def getReserves (pool : AddressText) : Call H (ℕ × ℕ × ℕ) := Async.ask (Query.getReserves pool)

def getBlockTimestamp : Call H ℕ := Async.ask Query.getBlockTimestamp

def simulateTransaction (account recipient : AddressText) (data : String) (value : ℤ) :
    Call H ProtocolSimulationResult :=
  Async.ask (Query.simulateTransaction account recipient data value)

/-! ## Routes -/

def requirePool (address : AddressText) : Call H NormalizedPool := do
  let s ← Async.read
  match s.pools address.lower with
  | some pool => pure pool
  | none => Async.fail (UnknownPoolError address)

def assertFeeTier (feeTier : Option ℤ) : Call H Unit :=
  Async.require (feeTier = some UNISWAP_V2_FEE_TIER)
    (UnsupportedFeeTierError A.protocolKey.text A.version.text (feeTier.getD (-1)))

def assertCanonicalPair (poolAddress token0Address token1Address : AddressText) : Call H Unit := do
  let pair ← getPair token0Address token1Address
  Async.require (AddressText.Same pair poolAddress)
    (.unverifiedProtocolContract "Pool is absent from the verified factory mapping")

/-- The step's tokens are the pool's two. -/
def TokenPairMatches (pool : NormalizedPool) (step : NormalizedRouteStep) : Prop :=
  (pool.token0Address.Same step.inputTokenAddress ∧
      pool.token1Address.Same step.outputTokenAddress) ∨
    (pool.token1Address.Same step.inputTokenAddress ∧
      pool.token0Address.Same step.outputTokenAddress)
deriving Decidable

/-- `validateRoute`, from the step that is to take `expectedInput`. -/
def validateSteps (expectedInput : Option AddressText) : List NormalizedRouteStep → Call H Unit
  | [] => pure ()
  | step :: rest => do
    let pool ← requirePool step.poolAddress
    assertFeeTier A step.feeTier
    Async.require (step.protocolKey = A.protocolKey.text ∧ step.protocolVersion = A.version.text)
      (.quoteValidation "Route contains another protocol")
    Async.require (∀ input ∈ expectedInput, step.inputTokenAddress.Same input)
      (.quoteValidation "Route token continuity is invalid")
    Async.require (TokenPairMatches pool step)
      (.quoteValidation "Route token pair does not match the pool")
    assertCanonicalPair pool.poolAddress pool.token0Address pool.token1Address
    validateSteps (some step.outputTokenAddress) rest

def validateRoute (route : List NormalizedRouteStep) : Call H Unit := validateSteps A none route

def routePath : List NormalizedRouteStep → Call H (List AddressText)
  | [] => Async.fail (.quoteValidation "Route is empty")
  | first :: rest =>
    pure (first.inputTokenAddress :: (first :: rest).map NormalizedRouteStep.outputTokenAddress)

/-! ## Fingerprints -/

/-- `feeTier?.toString() ?? ''`. -/
def feeText : Option ℤ → String
  | some fee => fee.repr
  | none => ""

def stepParts (step : NormalizedRouteStep) : List String :=
  [step.protocolKey, step.protocolVersion, step.poolAddress.text, step.inputTokenAddress.text,
    step.outputTokenAddress.text, feeText step.feeTier]

def stepText (step : NormalizedRouteStep) : String := joinTexts ':' (stepParts step)

def routeText (route : List NormalizedRouteStep) : String := joinTexts '>' (route.map stepText)

/-- The parts a fingerprint is made of. -/
def fingerprintParts (quote : NormalizedQuote) : List String :=
  [quote.quoteId, quote.chainId.repr, quote.protocolKey, quote.protocolVersion,
    quote.inputTokenAddress.text, quote.outputTokenAddress.text, quote.amountInRaw.repr,
    quote.expectedAmountOutRaw.repr, quote.minimumAmountOutRaw.repr,
    (quote.spenderAddress.map AddressText.text).getD "", quote.transactionTarget.text,
    quote.transactionSelector, quote.sourceBlockNumber.repr, quote.createdAt, quote.expiresAt,
    routeText quote.route]

def fingerprintText (quote : NormalizedQuote) : String := joinTexts '|' (fingerprintParts quote)

variable (L : Libraries H)

def quoteFingerprint (quote : NormalizedQuote) : H := L.keccak256 (fingerprintText quote)

/-! ## Quoting -/

def registerPool (pool : NormalizedPool) : Call H Unit := do
  Async.require
    (pool.chainId = A.chainId ∧ pool.protocolKey = A.protocolKey.text ∧
      pool.protocolVersion = A.version.text ∧ pool.factoryAddress.Same A.factory)
    (.unverifiedProtocolContract "Pool identity does not match this adapter")
  assertFeeTier A pool.feeTier
  let s ← Async.read
  Async.write { s with pools := Function.update s.pools pool.poolAddress.lower (some pool) }

def validateQuoteRequest (request : QuoteRequest) : Call H Unit := do
  Async.require
    (request.chainId = A.chainId ∧ request.protocolKey = A.protocolKey.text ∧ request.route ≠ [])
    (.quoteValidation "Quote protocol, chain, or route is invalid")
  Async.require (0 < request.amountInRaw ∧ 0 < request.minimumAmountOutRaw)
    (.quoteValidation "Quote amounts must be positive integers")
  Async.require
    ((∀ step ∈ request.route.head?,
        step.inputTokenAddress.Same request.inputTokenAddress) ∧
      ∀ step ∈ request.route.getLast?, step.outputTokenAddress.Same request.outputTokenAddress)
    (.quoteValidation "Quote route endpoints are invalid")
  Async.require (∀ ttlSeconds ∈ request.ttlSeconds, 0 < ttlSeconds)
    (.quoteValidation "Quote TTL must be positive")

/-- `amountsSchema`, over what the codec decoded. -/
def parseAmounts (amounts : List ℕ) : Except String (List ℕ) :=
  if 2 ≤ amounts.length then .ok amounts
  else .error "Array must contain at least 2 element(s)"

/-- `calculatePriceImpact`. -/
def calculatePriceImpact (amountInRaw amountOutRaw reserveInRaw reserveOutRaw : ℤ) :
    Except AdapterError ℤ :=
  if amountInRaw ≤ 0 ∨ amountOutRaw ≤ 0 ∨ reserveInRaw ≤ 0 ∨ reserveOutRaw ≤ 0 then
    .error (.quoteValidation "Price impact inputs must be positive integers")
  else
    let executionToSpotBps :=
      amountOutRaw * reserveInRaw * 10000 / (amountInRaw * reserveOutRaw)
    .ok (if 10000 ≤ executionToSpotBps then 0 else 10000 - executionToSpotBps)

/-- `readPoolState`, of the latest block: both reserves. -/
def readPoolState (poolAddress : AddressText) : Call H (ℕ × ℕ) := do
  assertActive
  let _ ← requirePool poolAddress
  let (reserve0Raw, reserve1Raw, _) ← getReserves poolAddress
  pure (reserve0Raw, reserve1Raw)

/-- `quotePriceImpact`: of a single hop only. -/
def quotePriceImpact (route : List NormalizedRouteStep) (amountInRaw amountOutRaw : ℤ) :
    Call H (Option ℤ) :=
  match route with
  | [step] => do
    let pool ← requirePool step.poolAddress
    let (reserve0Raw, reserve1Raw) ← readPoolState pool.poolAddress
    let zeroToOne := decide (pool.token0Address.Same step.inputTokenAddress)
    let priceImpactBps ← Async.ofExcept <|
      calculatePriceImpact amountInRaw amountOutRaw (if zeroToOne then reserve0Raw else reserve1Raw)
        (if zeroToOne then reserve1Raw else reserve0Raw)
    pure (some priceImpactBps)
  | _ => pure none

def multiHopWarnings (route : List NormalizedRouteStep) : List QuoteWarning :=
  if 1 < route.length then
    [{ code := "MULTI_HOP_PRICE_IMPACT_UNAVAILABLE"
       message := "Aggregate multi-hop price impact is unavailable."
       severity := .warning }]
  else []

/-- `toISOString`, which an invalid date refuses. -/
def toISOString (ms : ℤ) : Call H String := do
  Async.require (ValidTime ms) (.other "Invalid time value")
  pure (isoText ms)

def getQuote (request : QuoteRequest) (random : RandomText) : Call H NormalizedQuote := do
  assertActive
  validateQuoteRequest A request
  validateRoute A request.route
  let path ← routePath request.route
  let amountsValue ← getAmountsOut request.amountInRaw path
  let amounts ← Async.ofExcept ((parseAmounts amountsValue).mapError AdapterError.other)
  Async.require (amounts.length = request.route.length + 1)
    (.quoteValidation "Router returned an unexpected route length")
  let expectedAmountOutRaw : ℤ := (amounts.getLast?.getD 0 : ℕ)
  Async.require (request.minimumAmountOutRaw ≤ expectedAmountOutRaw)
    (.quoteValidation "Expected output is below minimum received")
  let sourceBlockNumber ← getBlockNumber
  let createdAt := (← Async.read).now
  let ttlSeconds :=
    min (request.ttlSeconds.getD A.defaultQuoteTtlSeconds) A.maximumQuoteTtlSeconds
  let priceImpactBps ← quotePriceImpact request.route request.amountInRaw expectedAmountOutRaw
  let createdAtText ← toISOString createdAt
  let expiresAtText ← toISOString (truncateTime (createdAt + ttlSeconds * 1000))
  let quote : NormalizedQuote :=
    { quoteId := generateId "quote" random
      chainId := A.chainId
      protocolKey := A.protocolKey.text
      protocolVersion := A.version.text
      inputTokenAddress := request.inputTokenAddress
      outputTokenAddress := request.outputTokenAddress
      amountInRaw := request.amountInRaw
      expectedAmountOutRaw
      minimumAmountOutRaw := request.minimumAmountOutRaw
      priceImpactBps
      protocolFeeRaw := some (request.amountInRaw * UNISWAP_V2_FEE_TIER / FEE_DENOMINATOR)
      route := request.route
      spenderAddress := some A.router
      transactionTarget := A.router
      transactionSelector := UNISWAP_V2_SWAP_SELECTOR
      sourceBlockNumber
      createdAt := createdAtText
      expiresAt := expiresAtText
      warnings := multiHopWarnings request.route }
  let s ← Async.read
  Async.write
    { s with
      issuedQuotes := Function.update s.issuedQuotes quote.quoteId (some (quoteFingerprint L quote))
      issued := s.issued ++ [quote] }
  pure quote

/-! ## Preparing -/

/-- `toLowerCase` of a selector. -/
def lowerText (text : String) : List Char := text.toList.map Char.toLower

/-- `validatePreparedQuote`, with the reading of the server's clock it
compared the expiry with. -/
def validatePreparedQuote [DecidableEq H] (quote : NormalizedQuote) : Call H ℤ := do
  Async.require (quote.chainId = A.chainId ∧ quote.protocolKey = A.protocolKey.text)
    (.transactionPreparation "Quote protocol or chain is invalid")
  Async.require (quote.transactionTarget.Same A.router)
    (.transactionPreparation "Quote transaction target is not allowlisted")
  Async.require (∃ spender ∈ quote.spenderAddress, spender.Same A.router)
    (.transactionPreparation "Quote spender is not allowlisted")
  Async.require (lowerText quote.transactionSelector = lowerText UNISWAP_V2_SWAP_SELECTOR)
    (.transactionPreparation "Quote transaction selector is not allowlisted")
  let s ← Async.read
  -- An invalid date compares as not expired.
  Async.require (∀ expiry ∈ L.dateTime quote.expiresAt, s.now < expiry)
    (.transactionPreparation "Quote has expired")
  Async.require
    (0 < quote.minimumAmountOutRaw ∧ quote.minimumAmountOutRaw ≤ quote.expectedAmountOutRaw)
    (.transactionPreparation "Quote minimum output is invalid")
  Async.require (s.issuedQuotes quote.quoteId = some (quoteFingerprint L quote))
    (.transactionPreparation "Quote does not match a server-issued route")
  pure s.now

/-- `BigInt(Math.floor(new Date(expiresAt).getTime() / 1000))`. -/
def deadlineOf (expiresAt : String) : Call H ℤ :=
  match L.dateTime expiresAt with
  | some expiry => pure (expiry / 1000)
  | none => Async.fail (.other "The number NaN cannot be converted to a BigInt because it is not an integer")

/-- What `validateSimulationReturn` checks before it wraps the error. -/
def simulationOutput (returnValue : String) (quote : NormalizedQuote) : Except String Unit := do
  let decoded ← L.decodeFunctionResult returnValue
  let amounts ← parseAmounts decoded
  if ((amounts.getLast?.getD 0 : ℕ) : ℤ) < quote.minimumAmountOutRaw then
    .error "Simulation output is below minimum received"
  else .ok ()

def validateSimulationReturn (returnValue : String) (quote : NormalizedQuote) : Call H Unit :=
  Async.ofExcept <| (simulationOutput L returnValue quote).mapError fun message =>
    .transactionPreparation ("Simulation result failed local decoding: " ++ message)

/-- A transaction, with the two clock readings it was checked against: the
server's in milliseconds and the chain's in seconds. -/
structure Prepared where
  transaction : PreparedProtocolTransaction
  serverTime : ℤ
  chainTime : ℕ
deriving DecidableEq

def prepareSwapTransaction [DecidableEq H] (quote : NormalizedQuote) (userAddress : AddressText) :
    Call H Prepared := do
  assertActive
  assertTradingEnabled
  let chainId ← getChainId
  Async.require (chainId = A.chainId)
    (.transactionPreparation ("RPC chain " ++ chainId.repr ++ " does not match " ++ A.chainId.repr))
  let serverTime ← validatePreparedQuote A L quote
  validateRoute A quote.route
  let deadline ← deadlineOf L quote.expiresAt
  let currentTimestamp ← getBlockTimestamp
  Async.require ((currentTimestamp : ℤ) < deadline)
    (.transactionPreparation "Quote deadline expired")
  let path ← routePath quote.route
  let data ← Async.ofExcept <|
    (L.encodeFunctionData
      { amountIn := quote.amountInRaw
        amountOutMin := quote.minimumAmountOutRaw
        path
        recipient := userAddress
        deadline }).mapError AdapterError.other
  Async.require ((lowerText data).take 10 = lowerText UNISWAP_V2_SWAP_SELECTOR)
    (.transactionPreparation "Prepared calldata selector is not allowlisted")
  let simulation ← simulateTransaction userAddress A.router data 0
  Async.require (simulation.success = true)
    (.transactionPreparation (simulation.error.getD "Swap simulation failed"))
  validateSimulationReturn L simulation.returnValue quote
  pure
    { transaction :=
        { chainId := A.chainId
          protocolKey := A.protocolKey.text
          protocolVersion := A.version.text
          toAddress := A.router
          data
          value := 0
          spenderAddress := some A.router
          functionSelector := UNISWAP_V2_SWAP_SELECTOR
          deadline
          quoteId := quote.quoteId
          simulation
          warnings := quote.warnings
          expectedStateChanges :=
            [{ assetAddress := quote.inputTokenAddress
               accountAddress := userAddress
               direction := .decrease
               amountRaw := quote.amountInRaw },
             { assetAddress := quote.outputTokenAddress
               accountAddress := userAddress
               direction := .increase
               amountRaw := quote.expectedAmountOutRaw }]
          intent :=
            { inputTokenAddress := quote.inputTokenAddress
              outputTokenAddress := quote.outputTokenAddress
              amountInRaw := quote.amountInRaw
              minimumAmountOutRaw := quote.minimumAmountOutRaw
              recipientAddress := userAddress
              route := quote.route } }
      serverTime
      chainTime := currentTimestamp }

/-! ## The adapter in use -/

/-- A call on the adapter; the server's clock may move to any time. -/
inductive AdapterCall
  | setClock (now : ℤ)
  | registerPool (pool : NormalizedPool)
  | getQuote (request : QuoteRequest) (random : RandomText)
  | prepareSwapTransaction (quote : NormalizedQuote) (userAddress : AddressText)
deriving DecidableEq

inductive CallResult
  | none
  | quoted (quote : NormalizedQuote)
  | prepared (prepared : Prepared)
deriving DecidableEq

def callBody [DecidableEq H] : AdapterCall → Call H CallResult
  | .setClock now => do
    let s ← Async.read
    Async.write { s with now }
    pure .none
  | .registerPool pool => do
    registerPool A pool
    pure .none
  | .getQuote request random => do
    let quote ← getQuote A L request random
    pure (.quoted quote)
  | .prepareSwapTransaction quote userAddress => do
    let prepared ← prepareSwapTransaction A L quote userAddress
    pure (.prepared prepared)

/-- The state of an adapter just constructed. -/
def AdapterState.start (now : ℤ) : AdapterState H where
  pools _ := none
  issuedQuotes _ := none
  now := now
  issued := []

/-- **The adapter in use**: any number of its calls, interleaved as their
answers come. -/
def adapterMachine [DecidableEq H] :
    Machine (CallWorld Query Answer (AdapterState H) AdapterError AdapterCall CallResult)
      (CallStep Query Answer AdapterError AdapterCall) :=
  callMachine (fun s => ∃ now, s = .start now) (callBody A L)

end Methods

end UniswapV2

end HoodSentry
