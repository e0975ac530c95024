import Mathlib
/-!
# Circuit breakers and provider health

The breaker of `packages/chain/src/rpc/circuit-breaker.ts` and the tracker of
`health-tracker.ts` that keeps a copy of its state. Clock readings are in
milliseconds, and a synchronous section of the source reads one.
-/

namespace HoodSentry

/-- `'closed' | 'open' | 'half-open'`. -/
inductive CircuitState
  | closed
  | opened
  | halfOpen
  deriving DecidableEq

structure CircuitBreakerConfig where
  failureThreshold : ℕ
  resetTimeoutMs : ℕ
  halfOpenMaxRequests : ℕ
  deriving DecidableEq

/-- The breaker's `CircuitBreakerState`. -/
structure CircuitBreaker where
  state : CircuitState
  failureCount : ℕ
  lastFailureTime : Option ℕ
  lastSuccessTime : Option ℕ
  halfOpenAttempts : ℕ
  deriving DecidableEq

namespace CircuitBreaker

/-- As the constructor leaves it. -/
def create : CircuitBreaker where
  state := .closed
  failureCount := 0
  lastFailureTime := none
  lastSuccessTime := none
  halfOpenAttempts := 0

variable (config : CircuitBreakerConfig) (now : ℕ) (b : CircuitBreaker)

def transitionToOpen : CircuitBreaker :=
  { b with state := .opened, halfOpenAttempts := 0 }

def transitionToHalfOpen : CircuitBreaker :=
  { b with state := .halfOpen, halfOpenAttempts := 0 }

def transitionToClosed : CircuitBreaker :=
  { b with
    state := .closed, failureCount := 0, halfOpenAttempts := 0, lastSuccessTime := some now }

/-- The reset timeout has passed since the last failure. -/
def Elapsed : Prop := ∃ failed ∈ b.lastFailureTime, failed + config.resetTimeoutMs ≤ now

instance : Decidable (b.Elapsed config now) :=
  match h : b.lastFailureTime with
  | none => .isFalse fun ⟨_, hmem, _⟩ => Option.some_ne_none _ (hmem.symm.trans h)
  | some failed =>
    decidable_of_iff (failed + config.resetTimeoutMs ≤ now) <| by
      simp [Elapsed, h]

/-- **Reading the state** is what turns an open circuit half-open. -/
def getCircuitState : CircuitBreaker :=
  if b.state = .opened ∧ b.Elapsed config now then b.transitionToHalfOpen else b

/-- Whether a request may go ahead, and the breaker its reading leaves. -/
def canExecute : Bool × CircuitBreaker :=
  let current := b.getCircuitState config now
  match current.state with
  | .closed => (true, current)
  | .opened => (false, current)
  | .halfOpen => (decide (current.halfOpenAttempts < config.halfOpenMaxRequests), current)

def recordSuccess : CircuitBreaker :=
  let current := b.getCircuitState config now
  match current.state with
  | .halfOpen =>
    let counted := { current with halfOpenAttempts := current.halfOpenAttempts + 1 }
    if config.halfOpenMaxRequests ≤ counted.halfOpenAttempts then counted.transitionToClosed now
    else counted
  | .closed => { current with failureCount := 0, lastSuccessTime := some now }
  | .opened => current

def recordFailure : CircuitBreaker :=
  let current := b.getCircuitState config now
  let failed :=
    { current with failureCount := current.failureCount + 1, lastFailureTime := some now }
  match current.state with
  | .halfOpen => failed.transitionToOpen
  | .closed =>
    if config.failureThreshold ≤ failed.failureCount then failed.transitionToOpen else failed
  | .opened => failed

end CircuitBreaker

/-- A provider is named by its url, which is not empty. -/
abbrev Url := { s : String // s ≠ "" }

inductive ProviderRole
  | primary
  | secondary
  | archive
  deriving DecidableEq

structure ProviderHealth where
  providerUrl : Url
  role : ProviderRole
  isHealthy : Bool
  /-- The tracker's copy of its breaker's state. -/
  circuitState : CircuitState
  latencyMs : Option ℕ
  errorRate : ℚ
  consecutiveFailures : ℕ
  chainIdMatch : Bool
  archiveCapable : Option Bool
  deriving DecidableEq

structure RPCRequestMetrics where
  success : Bool
  timestamp : ℕ
  deriving DecidableEq

structure ProviderHealthTracker where
  health : ProviderHealth
  requestHistory : List RPCRequestMetrics
  circuitBreaker : CircuitBreaker
  deriving DecidableEq

namespace ProviderHealthTracker

def create (providerUrl : Url) (role : ProviderRole) : ProviderHealthTracker where
  health :=
    { providerUrl, role
      isHealthy := true
      circuitState := .closed
      latencyMs := none
      errorRate := 0
      consecutiveFailures := 0
      chainIdMatch := true
      archiveCapable := none }
  requestHistory := []
  circuitBreaker := .create

def maxHistorySize : ℕ := 1000

variable (config : CircuitBreakerConfig) (now : ℕ) (t : ProviderHealthTracker)

/-- The share of failures among the requests of the last minute. -/
def updateMetrics : ProviderHealthTracker :=
  let recentRequests := t.requestHistory.filter fun r => now < r.timestamp + 60000
  if recentRequests = [] then t
  else
    let recentFailures := (recentRequests.filter fun r => !r.success).length
    { t with health.errorRate := (recentFailures : ℚ) / recentRequests.length }

def recordRequest (metrics : RPCRequestMetrics) : ProviderHealthTracker :=
  let history := t.requestHistory ++ [metrics]
  updateMetrics now { t with requestHistory := history.drop (history.length - maxHistorySize) }

/-- Only a record refreshes the copy. -/
def recordSuccess (latencyMs : ℕ) : ProviderHealthTracker :=
  let breaker := (t.circuitBreaker.recordSuccess config now).getCircuitState config now
  { t with
    health :=
      { t.health with
        consecutiveFailures := 0, latencyMs := some latencyMs, circuitState := breaker.state }
    circuitBreaker := breaker }

def recordFailure : ProviderHealthTracker :=
  let breaker := (t.circuitBreaker.recordFailure config now).getCircuitState config now
  { t with
    health :=
      { t.health with
        consecutiveFailures := t.health.consecutiveFailures + 1, circuitState := breaker.state }
    circuitBreaker := breaker }

def setChainIdMatch (isMatch : Bool) : ProviderHealthTracker :=
  { t with health.chainIdMatch := isMatch }

def setArchiveCapable (capable : Bool) : ProviderHealthTracker :=
  { t with health.archiveCapable := some capable }

def isHealthy : Bool :=
  t.health.isHealthy && t.health.chainIdMatch && decide (t.health.circuitState ≠ .opened)

end ProviderHealthTracker

end HoodSentry
