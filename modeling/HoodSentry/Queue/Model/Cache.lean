import HoodSentry.Common.Expiring
import HoodSentry.Common.Machine
/-!
# The read-through cache

`RedisCache.getOrCompute` on one key, cut at its Redis calls, its sleeps
and its computation. Any number of calls, of any processes, are in flight
at once, and a step moves one of them on. A Redis call is answered, or
fails before it is carried out or after; a computation takes as long as
the run lets it. Times are milliseconds.

The lock's value is the constant `'1'`; the model keeps in its place which
call wrote it, and a call keeps when the lock it took expires, where the
code keeps only that it took one. No step reads either.
-/

namespace HoodSentry

/-- **A cache's options**, with the JSON text of a value and the value of
a text, `none` where `JSON.stringify` or `JSON.parse` throws. -/
structure RedisCache (V : Type) where
  lockWaitMs : ℕ := 5000
  lockPollMs : ℕ := 100
  lockTtlSeconds : ℕ := 30
  stringify : V → Option String
  parse : String → Option V

/-- What becomes of a Redis call: it is answered, it is carried out and
its answer lost, or it fails and is not carried out. -/
inductive RedisOutcome
  | answered | lost | failed
deriving DecidableEq

/-- The server carries the call out. -/
def RedisOutcome.executed : RedisOutcome → Bool
  | .answered | .lost => true
  | .failed => false

/-- What `safe` makes of an answer. -/
def RedisOutcome.safe {α : Type} (o : RedisOutcome) (answer : α) : Option α :=
  match o with
  | .answered => some answer
  | .lost | .failed => none

/-- **Where a call stands**: what it does next. `lock` is when the lock it
took expires, and `none` where `locked` is false. The result of a call is
a value, or `none` where its computation threw. -/
inductive CacheStage (V : Type)
  | read
  | acquire
  /-- Before the test of the loop in `waitFor`. -/
  | wait (deadline : ℕ)
  | sleep (deadline wakesAt : ℕ)
  | poll (deadline : ℕ)
  | compute (lock : Option ℕ)
  | write (lock : Option ℕ) (value : V)
  /-- Before the `del` of the `finally` block. -/
  | release (lock : ℕ) (result : Option V)
  | returned (result : Option V)
deriving DecidableEq

/-- The `finally` block. -/
def CacheStage.finally {V : Type} (lock : Option ℕ) (result : Option V) : CacheStage V :=
  match lock with
  | some lock => .release lock result
  | none => .returned result

/-- A call of `getOrCompute`. -/
structure CacheCall (V : Type) where
  ttlSeconds : ℕ
  cacheIf : Option (V → Bool)
  stage : CacheStage V

/-- A caller can decline to cache a value. -/
def CacheCall.caches {V : Type} (c : CacheCall V) (value : V) : Bool :=
  match c.cacheIf with
  | none => true
  | some cacheIf => cacheIf value

/-- The clock, the two keys, the calls in the order they were made, and
every lock entry deleted: by which call, and which call had written it. -/
structure CacheWorld (V : Type) where
  clock : ℕ
  cached : Option (Expiring String)
  lock : Option (Expiring ℕ)
  calls : List (CacheCall V)
  deleted : List (ℕ × ℕ)

/-- Milliseconds of `EX`. -/
def ttlMs (seconds : ℕ) : ℕ := 1000 * seconds

inductive CacheLabel (V : Type)
  | getOrCompute (ttlSeconds : ℕ) (cacheIf : Option (V → Bool))
  /-- The next Redis call of a call. -/
  | redis (i : ℕ) (outcome : RedisOutcome)
  /-- A call of `waitFor` goes on. -/
  | waitFor (i : ℕ)
  | computed (i : ℕ) (value : V)
  /-- The computation, or `cacheIf`, throws. -/
  | thrown (i : ℕ)
  | tick (ms : ℕ)

namespace CacheWorld

variable {V : Type} (cache : RedisCache V) (w : CacheWorld V)

/-- A call moves on to a stage. -/
def goto (i : ℕ) (c : CacheCall V) (stage : CacheStage V) : CacheWorld V :=
  { w with calls := w.calls.set i { c with stage := stage } }

/-- What `read` gives: nothing on a miss, a failure or a text that does
not parse. -/
def read (o : RedisOutcome) : Option V :=
  ((o.safe (Expiring.get w.cached w.clock)).join).bind cache.parse

/-- The lock can be taken. Redis refuses an expiry of no time. -/
def lockFree : Bool := (Expiring.live w.lock w.clock).isNone && cache.lockTtlSeconds != 0

/-- The lock once call `i` has taken it. -/
def takeLock (i : ℕ) : CacheWorld V :=
  { w with lock := Expiring.put i (ttlMs cache.lockTtlSeconds) w.clock }

/-- The value written, where it has a text and Redis takes the expiry. -/
def writeValue (ttlSeconds : ℕ) (value : V) : CacheWorld V :=
  match cache.stringify value with
  | some raw =>
    if ttlSeconds = 0 then w
    else { w with cached := Expiring.put raw (ttlMs ttlSeconds) w.clock }
  | none => w

/-- The lock deleted by call `i`. -/
def deleteLock (i : ℕ) : CacheWorld V :=
  { w with
    lock := none
    deleted := (Expiring.get w.lock w.clock).toList.map (i, ·) ++ w.deleted }

/-- **The next Redis call of a call**, and where the call goes on. -/
def redisCall (i : ℕ) (c : CacheCall V) (o : RedisOutcome) : Option (CacheWorld V) :=
  match c.stage with
  | .read =>
    match w.read cache o with
    | some value => some (w.goto i c (.returned (some value)))
    | none => some (w.goto i c .acquire)
  | .acquire =>
    let next :=
      if o = .answered ∧ w.lockFree cache then
        .compute (some (w.clock + ttlMs cache.lockTtlSeconds))
      else .wait (w.clock + cache.lockWaitMs)
    let w' := if o.executed ∧ w.lockFree cache then w.takeLock cache i else w
    some (w'.goto i c next)
  | .poll deadline =>
    match w.read cache o with
    | some value => some (w.goto i c (.returned (some value)))
    | none => some (w.goto i c (.wait deadline))
  | .write lock value =>
    let w' := if o.executed then w.writeValue cache c.ttlSeconds value else w
    some (w'.goto i c (.finally lock (some value)))
  | .release _ result =>
    let w' := if o.executed then w.deleteLock i else w
    some (w'.goto i c (.returned result))
  | _ => none

/-- **A call of `waitFor` goes on**: past the loop's test, or out of its
sleep, which lasts `lockPollMs` at least. -/
def waitCall (i : ℕ) (c : CacheCall V) : Option (CacheWorld V) :=
  match c.stage with
  | .wait deadline =>
    if w.clock < deadline then some (w.goto i c (.sleep deadline (w.clock + cache.lockPollMs)))
    else some (w.goto i c (.compute none))
  | .sleep deadline wakesAt =>
    if wakesAt ≤ w.clock then some (w.goto i c (.poll deadline)) else none
  | _ => none

/-- The computation ends with a value. -/
def computedCall (i : ℕ) (c : CacheCall V) (value : V) : Option (CacheWorld V) :=
  match c.stage with
  | .compute lock =>
    some (w.goto i c (if c.caches value then .write lock value else .finally lock (some value)))
  | _ => none

/-- The computation throws. -/
def thrownCall (i : ℕ) (c : CacheCall V) : Option (CacheWorld V) :=
  match c.stage with
  | .compute lock => some (w.goto i c (.finally lock none))
  | _ => none

def step : CacheLabel V → Option (CacheWorld V)
  | .getOrCompute ttlSeconds cacheIf =>
    some { w with calls := w.calls ++ [⟨ttlSeconds, cacheIf, .read⟩] }
  | .redis i o => w.calls[i]?.bind fun c => w.redisCall cache i c o
  | .waitFor i => w.calls[i]?.bind fun c => w.waitCall cache i c
  | .computed i value => w.calls[i]?.bind fun c => w.computedCall i c value
  | .thrown i => w.calls[i]?.bind fun c => w.thrownCall i c
  | .tick ms => some { w with clock := w.clock + ms }

/-- No calls and no lock, at any time and with any value cached. -/
def start (clock : ℕ) (cached : Option (Expiring String)) : CacheWorld V :=
  ⟨clock, cached, none, [], []⟩

end CacheWorld

/-- **The calls of `getOrCompute` on one key.** -/
def cacheMachine {V : Type} (cache : RedisCache V) : Machine (CacheWorld V) (CacheLabel V) where
  Init w := w.calls = [] ∧ w.lock = none ∧ w.deleted = []
  step := CacheWorld.step cache

end HoodSentry
