import HoodSentry.Chain.Model.ProviderSelector
import HoodSentry.Common.Machine
import HoodSentry.Common.Loops
/-!
# Errors and the retry policy

The error classes of `packages/chain/src/rpc/types.ts` and the policy of
`retry-policy.ts`, which decides by the error whether an attempt is made
again. How long the policy sleeps between attempts decides nothing here.
-/

namespace HoodSentry

/-- The classes under `RPCError`, that one first. -/
inductive RPCErrorClass
  | rpcError
  | providerUnavailableError
  | chainMismatchError
  | rateLimitError
  | timeoutError
  | contractRevertError
  deriving DecidableEq

structure RPCError where
  errorClass : RPCErrorClass
  message : String
  code : Option String
  providerUrl : Option String
  method : Option RPCMethod
  isRetryable : Bool
  deriving DecidableEq

/-- What a request can throw; another value thrown is made an `Error` of its
text. -/
inductive ThrownError
  | rpc (e : RPCError)
  | error (message : String)
  deriving DecidableEq

def ProviderUnavailableError (providerUrl reason : String) : ThrownError :=
  .rpc
    { errorClass := .providerUnavailableError
      message := "Provider " ++ providerUrl ++ " unavailable: " ++ reason
      code := some "PROVIDER_UNAVAILABLE"
      providerUrl := some providerUrl
      method := none
      isRetryable := false }

def RateLimitError (providerUrl : String) : ThrownError :=
  .rpc
    { errorClass := .rateLimitError
      message := "Rate limit exceeded for " ++ providerUrl
      code := some "RATE_LIMIT"
      providerUrl := some providerUrl
      method := none
      isRetryable := true }

def ContractRevertError (providerUrl reason : String) : ThrownError :=
  .rpc
    { errorClass := .contractRevertError
      message := "Contract reverted: " ++ reason
      code := some "CONTRACT_REVERT"
      providerUrl := some providerUrl
      method := some .call
      isRetryable := false }

/-- Lower case, as far as it yields ASCII letters: the Kelvin sign is the one
other character that does. -/
def toLowerCase (s : String) : List Char :=
  s.toList.map fun c => if c = Char.ofNat 0x212A then 'k' else c.toLower

/-- The network failures told by an error's text. -/
def networkErrors : List String :=
  ["econnrefused", "etimedout", "enotfound", "econnreset", "network", "timeout"]

def defaultShouldRetry : ThrownError → Bool
  | .rpc e => if e.errorClass = .contractRevertError then false else e.isRetryable
  | .error message =>
    networkErrors.any fun needle => decide (needle.toList <:+: toLowerCase message)

/-- `RetryPolicy.execute` under the default `shouldRetry`. -/
def RetryPolicy.execute {σ α : Type*} (maxAttempts : ℕ)
    (operation : σ → Except ThrownError α × σ) (s : σ) : Except ThrownError α × σ :=
  retry operation defaultShouldRetry (.error "All retry attempts failed") maxAttempts s

end HoodSentry

/-!
## Requests of the client

`executeWithFailover` of `packages/chain/src/rpc/rpc-client.ts`, as one
request performs it, and the health checks. A request touches the breakers
twice, where it is let through and where its answer is recorded; between the
two it sleeps in the rate limiter and waits for the provider.
-/

namespace HoodSentry

namespace RPCClient

variable (c : RPCClient)

/-- The breaker asked, which may turn it half-open. -/
def canExecute (now : ℕ) (url : Url) : Bool × RPCClient :=
  match c.healthTrackers url with
  | none => (false, c)
  | some tracker =>
    let (admitted, breaker) := tracker.circuitBreaker.canExecute c.config.circuitBreaker now
    (admitted, c.modifyTracker url fun t => { t with circuitBreaker := breaker })

/-- What `executeOnProvider` records of an answer. -/
def recordAnswer (now startTime : ℕ) (url : Url) (success : Bool) : RPCClient :=
  c.modifyTracker url fun t =>
    let recorded :=
      if success then t.recordSuccess c.config.circuitBreaker now (now - startTime)
      else t.recordFailure c.config.circuitBreaker now
    recorded.recordRequest now { success, timestamp := now }

/-! ## Health checks -/

/-- `validateChainId`'s answer: a matching one leaves the record to the block
that is asked for next. -/
def validateChainId (now : ℕ) (url : Url) (chainId : ℕ) : RPCClient :=
  if chainId ≠ c.config.chainId then
    c.modifyTracker url fun t =>
      (t.setChainIdMatch false).recordFailure c.config.circuitBreaker now
  else c

def updateBlockInfo (now startTime : ℕ) (url : Url) (blockNumber : ℕ) : RPCClient :=
  { c.modifyTracker url fun t =>
      (t.setChainIdMatch true).recordSuccess c.config.circuitBreaker now (now - startTime) with
    blockLagMonitor :=
      (c.blockLagMonitor.updateProviderBlock url blockNumber).updateNetworkHead blockNumber }

def checkArchiveCapability (capable : Bool) : RPCClient :=
  match c.config.archive with
  | none => c
  | some archive => c.modifyTracker archive.url fun t => t.setArchiveCapable capable

/-- A check that throws counts as a failure. -/
def checkThrown (now : ℕ) (url : Url) : RPCClient :=
  c.modifyTracker url fun t => t.recordFailure c.config.circuitBreaker now

/-! ## One request -/

/-- The provider for the next attempt. -/
def selectNextProvider (method : RPCMethod) (triedProviders : List Url) :
    Except ThrownError Url :=
  match c.selectProviderForMethod method with
  | none => .error (ProviderUnavailableError "all" "No healthy providers available")
  | some providerUrl =>
    if triedProviders.contains providerUrl then
      match c.selectFallbackProvider triedProviders with
      | none => .error (ProviderUnavailableError "all" "All providers exhausted")
      | some fallbackUrl => .ok fallbackUrl
    else .ok providerUrl

end RPCClient

/-- How a provider answers the call of a request, and when the request
reaches it, starts the call and has the answer. -/
structure ProviderAnswer (α : Type*) where
  entered : ℕ
  started : ℕ
  answered : ℕ
  outcome : Except ThrownError α

/-- A request under way: the client as it leaves it, the providers tried and
those of them that were called. -/
structure FailoverState where
  client : RPCClient
  triedProviders : List Url
  called : List Url

section Request

variable {α : Type*} (answers : Url → ProviderAnswer α)

def executeOnProvider (providerUrl : Url) (s : FailoverState) :
    Except ThrownError α × FailoverState :=
  match s.client.healthTrackers providerUrl with
  | none => (.error (ProviderUnavailableError providerUrl "Client not initialized"), s)
  | some _ =>
    let answer := answers providerUrl
    match s.client.canExecute answer.entered providerUrl with
    | (false, client) =>
      (.error (ProviderUnavailableError providerUrl "Circuit breaker open"), { s with client })
    | (true, client) =>
      (answer.outcome,
        { s with
          client :=
            client.recordAnswer answer.answered answer.started providerUrl answer.outcome.isOk
          called := s.called ++ [providerUrl] })

/-- One provider more is tried whatever the error. -/
def handleProviderError (error : ThrownError) (s : FailoverState) :
    Except ThrownError α × FailoverState :=
  match s.client.selectFallbackProvider s.triedProviders with
  | none => (.error error, s)
  | some fallbackUrl =>
    executeOnProvider answers fallbackUrl
      { s with triedProviders := s.triedProviders ++ [fallbackUrl] }

/-- The operation the retry policy attempts. -/
def attemptProviders (method : RPCMethod) (s : FailoverState) :
    Except ThrownError α × FailoverState :=
  match s.client.selectNextProvider method s.triedProviders with
  | .error error => (.error error, s)
  | .ok providerUrl =>
    match executeOnProvider answers providerUrl
      { s with triedProviders := s.triedProviders ++ [providerUrl] } with
    | (.ok a, s') => (.ok a, s')
    | (.error error, s') => handleProviderError answers error s'

def FailoverState.start (c : RPCClient) : FailoverState where
  client := c
  triedProviders := []
  called := []

def executeWithFailover (c : RPCClient) (method : RPCMethod) :
    Except ThrownError α × FailoverState :=
  RetryPolicy.execute c.config.maxAttempts (attemptProviders answers method) (.start c)

end Request

end HoodSentry

/-!
## Requests and health checks of a client side by side

The steps of a client whose requests overlap, each label one synchronous
section of `rpc-client.ts`: a request choosing its provider and passing its
breaker, the start of a call once the rate limiter lets it go, the record of
an answer, and what the health checks record.
-/

namespace HoodSentry

/-- How the call of a request ends. -/
inductive CallAnswer
  | success
  | contractRevert
  | failure
  deriving DecidableEq

/-- A request let through at a provider and unanswered; its call has not
started while it sleeps in the rate limiter. -/
structure InFlight where
  id : ℕ
  method : RPCMethod
  providerUrl : Url
  startTime : Option ℕ
  deriving DecidableEq

structure RPCWorld where
  now : ℕ
  client : RPCClient
  inFlight : List InFlight

/-- A request keeps its id when it falls back to another provider. -/
inductive RPCStep
  | clock (now : ℕ)
  | request (id : ℕ) (method : RPCMethod) (triedProviders : List Url)
  | fallback (id : ℕ) (method : RPCMethod) (triedProviders : List Url)
  | start (id : ℕ)
  | answer (id : ℕ) (answer : CallAnswer)
  | chainIdAnswered (url : Url) (chainId : ℕ)
  | blockAnswered (url : Url) (startTime blockNumber : ℕ)
  | archiveProbed (capable : Bool)
  | checkThrown (url : Url)
  deriving DecidableEq

namespace RPCWorld

variable (w : RPCWorld)

def request? (id : ℕ) : Option InFlight := w.inFlight.find? fun r => r.id = id

def without (id : ℕ) : List InFlight := w.inFlight.filter fun r => r.id ≠ id

/-- A request at the provider it chose. -/
def enter (id : ℕ) (method : RPCMethod) (url : Url) : RPCWorld :=
  let (admitted, client) := w.client.canExecute w.now url
  let request : InFlight := { id, method, providerUrl := url, startTime := none }
  { w with
    client
    inFlight := if admitted then w.inFlight ++ [request] else w.inFlight }

def startCall (id : ℕ) : Option RPCWorld :=
  match w.request? id with
  | some r =>
    if r.startTime = none then
      some { w with inFlight := w.without id ++ [{ r with startTime := some w.now }] }
    else none
  | none => none

/-- Only `eth_call` tells a contract's revert; it is recorded as any failure. -/
def answerCall (id : ℕ) (answer : CallAnswer) : Option RPCWorld :=
  match w.request? id with
  | some r =>
    match r.startTime with
    | some startTime =>
      if answer = .contractRevert ∧ r.method ≠ .call then none
      else
        some
          { w with
            client :=
              w.client.recordAnswer w.now startTime r.providerUrl (decide (answer = .success))
            inFlight := w.without id }
    | none => none
  | none => none

/-- A request for which nothing can be chosen throws and leaves all as it is. -/
def step : RPCStep → Option RPCWorld
  | .clock now => if w.now ≤ now then some { w with now } else none
  | .request id method triedProviders =>
    if (w.request? id).isSome then none
    else
      match w.client.selectNextProvider method triedProviders with
      | .error _ => some w
      | .ok url => some (w.enter id method url)
  | .fallback id method triedProviders =>
    if (w.request? id).isSome then none
    else
      match w.client.selectFallbackProvider triedProviders with
      | none => some w
      | some url => some (w.enter id method url)
  | .start id => w.startCall id
  | .answer id answer => w.answerCall id answer
  | .chainIdAnswered url chainId =>
    some { w with client := w.client.validateChainId w.now url chainId }
  | .blockAnswered url startTime blockNumber =>
    some { w with client := w.client.updateBlockInfo w.now startTime url blockNumber }
  | .archiveProbed capable => some { w with client := w.client.checkArchiveCapability capable }
  | .checkThrown url => some { w with client := w.client.checkThrown w.now url }

/-- A client just made. -/
def create (config : RPCClientConfig) (now : ℕ) : RPCWorld where
  now := now
  client := .create config
  inFlight := []

end RPCWorld

def requestMachine (config : RPCClientConfig) : Machine RPCWorld RPCStep where
  Init w := ∃ now, w = .create config now
  step := RPCWorld.step

end HoodSentry
