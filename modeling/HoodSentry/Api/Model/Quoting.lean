import HoodSentry.Chain.Model.UniswapV2
import HoodSentry.Common.Loops
import HoodSentry.Common.Lists
/-!
# Quoting

`TradingService.quote` of `apps/api/src/trading-service.ts`: the candidate
routes it lists for a pair, the two quotes it asks for each, and the one it
returns. What an adapter answers is different each time it is asked, so the
answers are given call by call.
-/

namespace HoodSentry

namespace Trading

def MAX_CANDIDATE_ROUTES : ℕ := 32

/-- What identifies an adapter to the service. -/
structure TradingAdapter where
  chainId : ℤ
  protocolKey : ProtocolName
  version : ProtocolName
deriving DecidableEq

structure TradingServiceConfig where
  chainId : ℤ
  quoteTtlSeconds : ℚ

/-- The service; `adapters` are those of its runtime, when it has one. -/
structure TradingService where
  config : TradingServiceConfig
  adapters : Option (List TradingAdapter)

structure QuoteInput where
  chainId : ℤ
  inputTokenAddress : AddressText
  outputTokenAddress : AddressText
  amountInRaw : ℤ
  slippageBps : ℤ
  maximumPriceImpactBps : ℤ
  protocolKey : Option String
deriving DecidableEq

abbrev Route : Type := List NormalizedRouteStep

open UniswapV2 (NormalizedPool)

/-! ## Routes -/

def routeStep (pool : NormalizedPool) (inputTokenAddress outputTokenAddress : AddressText) :
    NormalizedRouteStep where
  protocolKey := pool.protocolKey
  protocolVersion := pool.protocolVersion
  poolAddress := pool.poolAddress
  inputTokenAddress := inputTokenAddress
  outputTokenAddress := outputTokenAddress
  feeTier := pool.feeTier

def otherToken (pool : NormalizedPool) (address : AddressText) : Option AddressText :=
  if pool.token0Address.Same address then some pool.token1Address
  else if pool.token1Address.Same address then some pool.token0Address
  else none

def IncludesToken (pool : NormalizedPool) (address : AddressText) : Prop :=
  pool.token0Address.Same address ∨ pool.token1Address.Same address
deriving Decidable

/-- A protocol and its version as one text. -/
def protocolText (protocolKey protocolVersion : String) : String :=
  joinTexts ':' [protocolKey, protocolVersion]

section Candidates

variable (service : TradingService) (input : QuoteInput)

/-- The protocols of the adapters asked for. -/
def activeProtocols : List String :=
  ((service.adapters.getD []).filter fun adapter =>
    adapter.chainId = input.chainId ∧
      ∀ protocolKey ∈ input.protocolKey, adapter.protocolKey.text = protocolKey).map
    fun adapter => protocolText adapter.protocolKey.text adapter.version.text

def eligiblePools (pools : List NormalizedPool) : List NormalizedPool :=
  pools.filter fun pool =>
    pool.canonical ∧ pool.poolType = .constantProduct ∧
      protocolText pool.protocolKey pool.protocolVersion ∈ activeProtocols service input

/-- The second pool continues the route of the first. -/
def Continues (first second : NormalizedPool) (intermediate : AddressText) : Prop :=
  ¬ second.poolAddress.Same first.poolAddress ∧ second.protocolKey = first.protocolKey ∧
    second.protocolVersion = first.protocolVersion ∧ IncludesToken second intermediate ∧
    IncludesToken second input.outputTokenAddress
deriving Decidable

/-- The body of the inner loop: a route of two pools is added, which ends
both loops once the cap is reached. -/
def considerSecond (first : NormalizedPool) (intermediate : AddressText) (routes : List Route)
    (second : NormalizedPool) : List Route × Option Unit :=
  if Continues input first second intermediate then
    (routes ++ [[routeStep first input.inputTokenAddress intermediate,
        routeStep second intermediate input.outputTokenAddress]],
      if MAX_CANDIDATE_ROUTES ≤ routes.length + 1 then some () else none)
  else (routes, none)

/-- The body of the outer loop. -/
def considerFirst (eligible : List NormalizedPool) (routes : List Route) (first : NormalizedPool) :
    List Route × Option Unit :=
  match otherToken first input.inputTokenAddress with
  | none => (routes, none)
  | some intermediate =>
    if intermediate.Same input.outputTokenAddress then
      (routes ++ [[routeStep first input.inputTokenAddress input.outputTokenAddress]], none)
    else forEach (considerSecond input first intermediate) eligible routes

def routeCandidates (pools : List NormalizedPool) : List Route :=
  let eligible := eligiblePools service input pools
  match forEach (considerFirst input eligible) eligible [] with
  | (routes, some ()) => routes
  | (routes, none) => routes.take MAX_CANDIDATE_ROUTES

end Candidates

/-! ## Quotes -/

inductive TradingError
  | validation (message : String)
  | app (code message : String) (status : ℕ)
deriving DecidableEq

/-- `requireRuntime`: its adapters. -/
def TradingService.requireRuntime (service : TradingService) (chainId : ℤ) :
    Except TradingError (List TradingAdapter) :=
  if chainId ≠ service.config.chainId then .error (.validation "Chain ID does not match")
  else match service.adapters with
    | some (adapter :: rest) => .ok (adapter :: rest)
    | _ => .error (.app "TRADING_UNAVAILABLE" "No verified trading adapter is active" 503)

/-- **What the adapters and the database answer**, in each of the two passes
by the number of the call. `saveQuote` tells whether the quote is saved. -/
structure Answers where
  provisional : ℕ → QuoteRequest → Except AdapterError NormalizedQuote
  executable : ℕ → QuoteRequest → Except AdapterError NormalizedQuote
  saveQuote : ℕ → NormalizedQuote → Bool

/-- A candidate the first pass keeps. -/
structure Provisional where
  adapter : TradingAdapter
  route : Route
  quote : NormalizedQuote
deriving DecidableEq

section Quote

variable (service : TradingService) (input : QuoteInput) (answers : Answers)

/-- The request for a route, with the least output asked for. -/
def requestFor (adapter : TradingAdapter) (route : Route) (minimumAmountOutRaw : ℤ) :
    QuoteRequest where
  chainId := input.chainId
  protocolKey := adapter.protocolKey.text
  inputTokenAddress := input.inputTokenAddress
  outputTokenAddress := input.outputTokenAddress
  amountInRaw := input.amountInRaw
  minimumAmountOutRaw := minimumAmountOutRaw
  route := route
  ttlSeconds := some service.config.quoteTtlSeconds

/-- The adapter of a route's first step. -/
def adapterFor (adapters : List TradingAdapter) (route : Route) : Option TradingAdapter :=
  adapters.find? fun entry =>
    entry.chainId = input.chainId ∧
      route.head?.map (·.protocolKey) = some entry.protocolKey.text ∧
      route.head?.map (·.protocolVersion) = some entry.version.text

/-- The price impact is within the limit, or unknown. -/
def WithinImpact (quote : NormalizedQuote) : Prop :=
  ∀ impact ∈ quote.priceImpactBps, impact ≤ input.maximumPriceImpactBps
deriving Decidable

/-- The first pass over one candidate. -/
def provisionalQuote (adapters : List TradingAdapter) (candidate : Route × ℕ) :
    Option Provisional :=
  match adapterFor input adapters candidate.1 with
  | none => none
  | some adapter =>
    match answers.provisional candidate.2 (requestFor service input adapter candidate.1 1) with
    | .error _ => none
    | .ok quote =>
      if 0 < quote.expectedAmountOutRaw ∧ WithinImpact input quote then
        some { adapter, route := candidate.1, quote }
      else none

/-- The output a quote promises, less the slippage. -/
def lessSlippage (expectedAmountOutRaw : ℤ) : ℤ :=
  (expectedAmountOutRaw * (10000 - input.slippageBps)).tdiv 10000

/-- The least output the second pass asks for. -/
def minimumReceived (expectedAmountOutRaw : ℤ) : ℤ :=
  if 0 < lessSlippage input expectedAmountOutRaw then lessSlippage input expectedAmountOutRaw else 1

/-- The second pass over one candidate: its quote once saved. -/
def executableQuote (candidate : Provisional × ℕ) : Option (Provisional × NormalizedQuote) :=
  match answers.executable candidate.2
      (requestFor service input candidate.1.adapter candidate.1.route
        (minimumReceived input candidate.1.quote.expectedAmountOutRaw)) with
  | .error _ => none
  | .ok quote => if answers.saveQuote candidate.2 quote then some (candidate.1, quote) else none

/-- The candidates the first pass keeps, the best output first; the sort is
stable. -/
def rankedCandidates (adapters : List TradingAdapter) (candidates : List Route) :
    List Provisional :=
  (candidates.zipIdx.filterMap (provisionalQuote service input answers adapters)).insertionSort
    fun left right => right.quote.expectedAmountOutRaw ≤ left.quote.expectedAmountOutRaw

/-- **The candidate whose second quote is returned**, with that quote. -/
def selected (adapters : List TradingAdapter) (candidates : List Route) :
    Option (Provisional × NormalizedQuote) :=
  (rankedCandidates service input answers adapters candidates).zipIdx.findSome?
    (executableQuote service input answers)

def quote (pools : List NormalizedPool) : Except TradingError NormalizedQuote := do
  let adapters ← service.requireRuntime input.chainId
  if input.inputTokenAddress.Same input.outputTokenAddress then
    .error (.validation "Input and output tokens must differ")
  else
    match routeCandidates service input pools with
    | [] => .error (.app "QUOTE_UNAVAILABLE" "No verified route exists for this pair" 503)
    | route :: routes =>
      match selected service input answers adapters (route :: routes) with
      | some (_, quote) => .ok quote
      | none =>
        .error (.app "QUOTE_UNAVAILABLE" "No verified executable route returned a safe quote" 503)

end Quote

end Trading

end HoodSentry
