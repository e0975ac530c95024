import HoodSentry.Common.Machine
import HoodSentry.Common.TokenBucket
/-!
# The rate limiter

`packages/chain/src/rpc/rate-limiter.ts` with its numbers as rationals, and
any number of calls of it side by side. `waitForToken` is two synchronous
sections with a sleep between them.
-/

namespace HoodSentry

/-- A provider's limit; without a burst size it is the rate. -/
structure RateLimiterConfig where
  requestsPerSecond : ℚ
  burstSize : Option ℚ
  requestsPerSecond_pos : 0 < requestsPerSecond
  burstSize_nonneg : ∀ burst ∈ burstSize, 0 ≤ burst

structure RateLimiter where
  requestsPerSecond : ℚ
  burstSize : ℚ
  tokens : ℚ
  lastRefillTime : ℕ

namespace RateLimiter

def create (config : RateLimiterConfig) (now : ℕ) : RateLimiter :=
  let burstSize := config.burstSize.getD config.requestsPerSecond
  { requestsPerSecond := config.requestsPerSecond
    burstSize
    tokens := burstSize
    lastRefillTime := now }

variable (l : RateLimiter) (now : ℕ)

def refill : RateLimiter :=
  let timePassed := ((now : ℚ) - l.lastRefillTime) / 1000
  let tokensToAdd := timePassed * l.requestsPerSecond
  { l with tokens := min l.burstSize (l.tokens + tokensToAdd), lastRefillTime := now }

def takeToken : RateLimiter := { l with tokens := l.tokens - 1 }

/-- The time until the next token, in milliseconds. -/
def waitTimeMs : ℚ := (1 - l.tokens) * (1000 / l.requestsPerSecond)

/-- A token, or the `retryAfterMs` of the error thrown. -/
def acquire : Option ℚ × RateLimiter :=
  let refilled := l.refill now
  if 1 ≤ refilled.tokens then (none, refilled.takeToken) else (some refilled.waitTimeMs, refilled)

/-- A token, or how long to sleep for one. -/
def waitForToken : Option ℕ × RateLimiter :=
  let refilled := l.refill now
  if 1 ≤ refilled.tokens then (none, refilled.takeToken)
  else (some ⌈refilled.waitTimeMs⌉₊, refilled)

/-- After the sleep the token is taken without another look. -/
def wake : RateLimiter := (l.refill now).takeToken

end RateLimiter

/-- A limiter and the calls of it: when each sleeper may wake, and when each
call was granted. -/
structure RateWorld where
  now : ℕ
  limiter : RateLimiter
  sleepers : List ℕ
  granted : List ℚ

inductive RateStep
  | clock (now : ℕ)
  | acquire
  | waitForToken
  | wake (k : ℕ)
  deriving DecidableEq

namespace RateWorld

variable (w : RateWorld)

def create (config : RateLimiterConfig) (now : ℕ) : RateWorld where
  now := now
  limiter := .create config now
  sleepers := []
  granted := []

def step : RateStep → Option RateWorld
  | .clock now => if w.now ≤ now then some { w with now } else none
  | .acquire =>
    match w.limiter.acquire w.now with
    | (none, limiter) => some { w with limiter, granted := (w.now : ℚ) :: w.granted }
    | (some _, limiter) => some { w with limiter }
  | .waitForToken =>
    match w.limiter.waitForToken w.now with
    | (none, limiter) => some { w with limiter, granted := (w.now : ℚ) :: w.granted }
    | (some sleep, limiter) => some { w with limiter, sleepers := w.sleepers ++ [w.now + sleep] }
  | .wake k =>
    match w.sleepers[k]? with
    | none => none
    | some due =>
      if due ≤ w.now then
        some
          { w with
            limiter := w.limiter.wake w.now
            sleepers := w.sleepers.eraseIdx k
            granted := (w.now : ℚ) :: w.granted }
      else none

end RateWorld

def rateMachine (config : RateLimiterConfig) : Machine RateWorld RateStep where
  Init w := ∃ now, w = .create config now
  step := RateWorld.step

end HoodSentry
