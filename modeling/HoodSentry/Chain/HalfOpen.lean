import HoodSentry.Chain.Circuits
/-!
# Requests admitted while half-open

`executeOnProvider` of `rpc-client.ts` at one provider, its requests side by
side: each asks the breaker, sleeps in the rate limiter and waits for its
answer, and only then is recorded. The breaker counts the successes of a
half-open period and not the requests still under way, so how many it lets
through depends on how many of them overlap.
-/

namespace HoodSentry

/-- One provider's breaker and the requests at it. The counts follow the
half-open period: requests let through in it, those of them unanswered and
those that came back; `earlier` are unanswered from before it. -/
structure HalfOpenWorld where
  now : ℕ
  breaker : CircuitBreaker
  earlier : ℕ
  admitted : ℕ
  unanswered : ℕ
  succeeded : ℕ
  deriving DecidableEq

inductive BreakerStep
  | clock (now : ℕ)
  | canExecute
  /-- A request let through in the period, or an earlier one, is answered. -/
  | answer (probe : Bool) (success : Bool)
  /-- A health check is recorded. -/
  | checked (success : Bool)
  deriving DecidableEq

namespace HalfOpenWorld

variable (config : CircuitBreakerConfig) (w : HalfOpenWorld)

def create (now : ℕ) : HalfOpenWorld where
  now := now
  breaker := .create
  earlier := 0
  admitted := 0
  unanswered := 0
  succeeded := 0

/-- The circuit closes or opens. -/
def endPeriod : HalfOpenWorld :=
  { w with earlier := w.earlier + w.unanswered, admitted := 0, unanswered := 0, succeeded := 0 }

/-- The tracker reads the breaker again after a record. -/
def recordSuccess (probe : Bool) : HalfOpenWorld :=
  let breaker := (w.breaker.recordSuccess config w.now).getCircuitState config w.now
  if breaker.state = .halfOpen then
    { w with breaker, succeeded := if probe then w.succeeded + 1 else w.succeeded }
  else endPeriod { w with breaker }

/-- A failure opens the circuit it finds half-open. -/
def recordFailure : HalfOpenWorld :=
  endPeriod
    { w with breaker := (w.breaker.recordFailure config w.now).getCircuitState config w.now }

def record (probe success : Bool) : HalfOpenWorld :=
  if success then w.recordSuccess config probe else w.recordFailure config

def canExecute : HalfOpenWorld :=
  match w.breaker.canExecute config w.now with
  | (false, breaker) => { w with breaker }
  | (true, breaker) =>
    if breaker.state = .halfOpen then
      { w with breaker, admitted := w.admitted + 1, unanswered := w.unanswered + 1 }
    else { w with breaker, earlier := w.earlier + 1 }

def step : BreakerStep → Option HalfOpenWorld
  | .clock now => if w.now ≤ now then some { w with now } else none
  | .canExecute => some (w.canExecute config)
  | .answer true success =>
    if w.unanswered = 0 then none
    else some (record config { w with unanswered := w.unanswered - 1 } true success)
  | .answer false success =>
    if w.earlier = 0 then none
    else some (record config { w with earlier := w.earlier - 1 } false success)
  | .checked success => some (w.record config false success)

end HalfOpenWorld

def breakerMachine (config : CircuitBreakerConfig) : Machine HalfOpenWorld BreakerStep where
  Init w := ∃ now, w = .create now
  step := HalfOpenWorld.step config

namespace HalfOpenWorld

variable {config : CircuitBreakerConfig} {w w' : HalfOpenWorld} {i : BreakerStep}

/-- **The bound**: no more requests are let through in a half-open period
than the configuration says. -/
def Bounded (config : CircuitBreakerConfig) (w : HalfOpenWorld) : Prop :=
  w.admitted ≤ config.halfOpenMaxRequests

/-- A request is let through by a half-open circuit. -/
def Probes (config : CircuitBreakerConfig) (w : HalfOpenWorld) (i : BreakerStep) : Prop :=
  i = .canExecute ∧ (w.breaker.canExecute config w.now).1 = true ∧
    (w.breaker.canExecute config w.now).2.state = .halfOpen

instance : Decidable (Probes config w i) := by unfold Probes; infer_instance

/-- **Requests under way count**: a request is let through while half-open
only if those of the period that are unanswered, with those that came back,
are fewer than the configuration allows. -/
def Spaced (config : CircuitBreakerConfig) (w : HalfOpenWorld) (i : BreakerStep) : Prop :=
  Probes config w i → w.unanswered + w.succeeded < config.halfOpenMaxRequests

/-- Every request let through in the period is unanswered or came back. -/
def Accounted (w : HalfOpenWorld) : Prop := w.admitted = w.unanswered + w.succeeded

variable (config w) in
/-- What asking does to the counts. -/
theorem canExecute_counts :
    (w.canExecute config).succeeded = w.succeeded ∧
      ((Probes config w .canExecute ∧ (w.canExecute config).admitted = w.admitted + 1 ∧
          (w.canExecute config).unanswered = w.unanswered + 1) ∨
        (¬ Probes config w .canExecute ∧ (w.canExecute config).admitted = w.admitted ∧
          (w.canExecute config).unanswered = w.unanswered)) := by
  unfold canExecute Probes
  rcases w.breaker.canExecute config w.now with ⟨admitted, breaker⟩
  cases admitted with
  | false => exact ⟨rfl, .inr ⟨fun h => Bool.false_ne_true h.2.1, rfl, rfl⟩⟩
  | true =>
    dsimp only
    split_ifs with hhalf
    · exact ⟨rfl, .inl ⟨⟨rfl, rfl, hhalf⟩, rfl, rfl⟩⟩
    · exact ⟨rfl, .inr ⟨fun h => hhalf h.2.2, rfl, rfl⟩⟩

variable (config w) in
/-- What a record does to the counts: it ends the period, or counts the
request among those that came back. -/
theorem record_counts (probe success : Bool) :
    ((w.record config probe success).admitted = 0 ∧
        (w.record config probe success).unanswered = 0 ∧
        (w.record config probe success).succeeded = 0) ∨
      ((w.record config probe success).admitted = w.admitted ∧
        (w.record config probe success).unanswered = w.unanswered ∧
        (w.record config probe success).succeeded = w.succeeded + probe.toNat) := by
  unfold record
  cases success with
  | false => exact .inl ⟨rfl, rfl, rfl⟩
  | true =>
    rw [if_pos rfl, recordSuccess]
    split
    · cases probe <;> exact .inr ⟨rfl, rfl, rfl⟩
    · exact .inl ⟨rfl, rfl, rfl⟩

theorem Accounted.record (probe success : Bool)
    (h : w.admitted = w.unanswered + probe.toNat + w.succeeded) :
    (w.record config probe success).Accounted := by
  unfold Accounted
  rcases record_counts config w probe success with ⟨ha, hu, hs⟩ | ⟨ha, hu, hs⟩
  · omega
  · omega

/-- A record lets no request through. -/
theorem admitted_record_le (probe success : Bool) :
    (w.record config probe success).admitted ≤ w.admitted := by
  rcases record_counts config w probe success with ⟨ha, -⟩ | ⟨ha, -⟩
  · omega
  · omega

/-- What a step that is not a request's admission comes to. -/
theorem step_cases (h : w.Accounted) (hs : w.step config i = some w') (hask : i ≠ .canExecute) :
    w'.Accounted ∧ w'.admitted ≤ w.admitted := by
  cases i with
  | clock now =>
    rw [step] at hs
    split_ifs at hs
    exact Option.some.inj hs ▸ ⟨h, le_rfl⟩
  | canExecute => exact absurd rfl hask
  | answer probe success =>
    cases probe with
    | true =>
      rw [step] at hs
      split_ifs at hs with hnone
      obtain rfl := Option.some.inj hs
      refine ⟨Accounted.record true success ?_, admitted_record_le true success⟩
      unfold Accounted at h
      dsimp only [Bool.toNat_true]
      omega
    | false =>
      rw [step] at hs
      split_ifs at hs with hnone
      obtain rfl := Option.some.inj hs
      exact ⟨Accounted.record false success h, admitted_record_le false success⟩
  | checked success =>
    obtain rfl := Option.some.inj hs
    exact ⟨Accounted.record false success h, admitted_record_le false success⟩

/-- **One step keeps the bound** exactly when it counts the requests under
way. -/
theorem bounded_step_iff (h : w.Accounted) (hb : w.Bounded config)
    (hs : w.step config i = some w') :
    w'.Accounted ∧ (w'.Bounded config ↔ Spaced config w i) := by
  by_cases hask : i = .canExecute
  · subst hask
    obtain rfl := Option.some.inj hs
    unfold Accounted Bounded Spaced at *
    obtain ⟨hsucceeded, ⟨hprobes, ha, hu⟩ | ⟨hprobes, ha, hu⟩⟩ :=
      canExecute_counts config w
    · refine ⟨by omega, fun hle _ => by omega, fun hlt => ?_⟩
      have := hlt hprobes
      omega
    · exact ⟨by omega, iff_of_true (by omega) fun hprobe => absurd hprobe hprobes⟩
  · obtain ⟨haccounted, hle⟩ := step_cases h hs hask
    exact ⟨haccounted, iff_of_true (hle.trans hb) fun hprobe => absurd hprobe.1 hask⟩

/-- **One probe at a time**: a request is let through while half-open only
if none of the period is unanswered. -/
def OneAtATime (config : CircuitBreakerConfig) (w : HalfOpenWorld) (i : BreakerStep) : Prop :=
  Probes config w i → w.unanswered = 0

/-- The breaker counts at least the requests of the period that came back. -/
structure Counted (w : HalfOpenWorld) : Prop where
  halfOpen : w.breaker.state = .halfOpen → w.succeeded ≤ w.breaker.halfOpenAttempts
  other : w.breaker.state ≠ .halfOpen → w.succeeded = 0

/-- A read keeps a half-open circuit and what it counted. -/
theorem Counted.getCircuitState (h : w.Counted) (now : ℕ) :
    Counted { w with breaker := w.breaker.getCircuitState config now } := by
  unfold CircuitBreaker.getCircuitState
  split_ifs with hturns
  · have hnone := h.other fun hhalf => CircuitState.noConfusion (hhalf.symm.trans hturns.1)
    exact ⟨fun _ => hnone.le, fun _ => hnone⟩
  · exact h

/-- A success is counted in the period, or ends it. -/
theorem recordSuccess_halfOpen {b : CircuitBreaker} {now : ℕ}
    (h : ((b.recordSuccess config now).getCircuitState config now).state = .halfOpen) :
    (b.getCircuitState config now).state = .halfOpen ∧
      ((b.recordSuccess config now).getCircuitState config now).halfOpenAttempts =
        (b.getCircuitState config now).halfOpenAttempts + 1 := by
  rw [CircuitBreaker.getCircuitState_recordSuccess] at h ⊢
  unfold CircuitBreaker.recordSuccess at h ⊢
  dsimp only at h ⊢
  split at h
  · rename_i hhalf
    rw [hhalf]
    split_ifs at h ⊢
    · exact CircuitState.noConfusion h
    · exact ⟨rfl, rfl⟩
  · rename_i hclosed
    exact CircuitState.noConfusion (hclosed.symm.trans h)
  · rename_i hopened
    exact CircuitState.noConfusion (hopened.symm.trans h)

theorem Counted.endPeriod : (w.endPeriod).Counted :=
  ⟨fun _ => Nat.zero_le _, fun _ => rfl⟩

theorem Counted.record (h : w.Counted) (probe success : Bool) :
    (w.record config probe success).Counted := by
  unfold HalfOpenWorld.record
  cases success with
  | false => exact Counted.endPeriod
  | true =>
    rw [if_pos rfl, recordSuccess]
    split
    · rename_i hhalf
      obtain ⟨hcurrent, hattempts⟩ := recordSuccess_halfOpen hhalf
      have hle : w.succeeded ≤ (w.breaker.getCircuitState config w.now).halfOpenAttempts :=
        (h.getCircuitState w.now).halfOpen hcurrent
      refine ⟨fun _ => ?_, fun hother => absurd hhalf hother⟩
      dsimp only
      rw [hattempts]
      split_ifs <;> omega
    · exact Counted.endPeriod

variable (config) in
/-- The read an admission makes. -/
theorem canExecute_breaker {b : CircuitBreaker} {now : ℕ} :
    (b.canExecute config now).2 = b.getCircuitState config now := by
  unfold CircuitBreaker.canExecute
  dsimp only
  split <;> rfl

theorem halfOpenAttempts_lt {b : CircuitBreaker} {now : ℕ}
    (hadmitted : (b.canExecute config now).1 = true)
    (hhalf : (b.getCircuitState config now).state = .halfOpen) :
    (b.getCircuitState config now).halfOpenAttempts < config.halfOpenMaxRequests := by
  unfold CircuitBreaker.canExecute at hadmitted
  dsimp only at hadmitted
  rw [hhalf] at hadmitted
  exact of_decide_eq_true hadmitted

theorem Counted.canExecute (h : w.Counted) : (w.canExecute config).Counted := by
  have hread : Counted { w with breaker := w.breaker.getCircuitState config w.now } :=
    h.getCircuitState w.now
  unfold HalfOpenWorld.canExecute
  have hbreaker : (w.breaker.canExecute config w.now).2 = w.breaker.getCircuitState config w.now :=
    canExecute_breaker config
  rcases hask : w.breaker.canExecute config w.now with ⟨admitted, breaker⟩
  rw [hask] at hbreaker
  subst hbreaker
  cases admitted with
  | false => exact hread
  | true =>
    dsimp only
    split_ifs
    · exact ⟨hread.halfOpen, hread.other⟩
    · exact ⟨hread.halfOpen, hread.other⟩

theorem Counted.step (h : w.Counted) (hs : w.step config i = some w') : w'.Counted := by
  cases i with
  | clock now =>
    rw [HalfOpenWorld.step] at hs
    split_ifs at hs
    exact Option.some.inj hs ▸ ⟨h.halfOpen, h.other⟩
  | canExecute => exact Option.some.inj hs ▸ h.canExecute
  | answer probe success =>
    cases probe with
    | true =>
      rw [HalfOpenWorld.step] at hs
      split_ifs at hs
      have hleft : Counted { w with unanswered := w.unanswered - 1 } := ⟨h.halfOpen, h.other⟩
      exact Option.some.inj hs ▸ hleft.record true success
    | false =>
      rw [HalfOpenWorld.step] at hs
      split_ifs at hs
      have hleft : Counted { w with earlier := w.earlier - 1 } := ⟨h.halfOpen, h.other⟩
      exact Option.some.inj hs ▸ hleft.record false success
  | checked success => exact Option.some.inj hs ▸ h.record false success

/-- Probes that do not overlap are counted in time. -/
theorem OneAtATime.spaced (h : w.Counted) (hone : OneAtATime config w i) : Spaced config w i := by
  rintro ⟨rfl, hadmitted, hhalf⟩
  have hnone := hone ⟨rfl, hadmitted, hhalf⟩
  rw [canExecute_breaker] at hhalf
  have hlt := halfOpenAttempts_lt hadmitted hhalf
  have hle : w.succeeded ≤ (w.breaker.getCircuitState config w.now).halfOpenAttempts :=
    (h.getCircuitState w.now).halfOpen hhalf
  omega

/-- **Requests one after the other keep the bound**: what the counter of
successes is enough for. -/
theorem bounded_of_oneAtATime (h : (breakerMachine config).Reaches (OneAtATime config) w) :
    w.Bounded config := by
  have hall : w.Accounted ∧ w.Counted ∧ w.Bounded config := by
    refine h.invariant (I := fun w => w.Accounted ∧ w.Counted ∧ w.Bounded config) ?_ ?_
    · rintro w ⟨now, rfl⟩
      exact ⟨rfl, ⟨fun _ => le_rfl, fun _ => rfl⟩, Nat.zero_le _⟩
    · rintro w i w' ⟨haccounted, hcounted, hbounded⟩ hone hs
      obtain ⟨haccounted', hiff⟩ := bounded_step_iff haccounted hbounded hs
      exact ⟨haccounted', hcounted.step hs, hiff.mpr (hone.spaced hcounted)⟩
  exact hall.2.2

/-! ## Requests that overlap -/

/-- A breaker that its first failure opens for a second, and that lets two
requests through while half-open. -/
def twoProbes : CircuitBreakerConfig where
  failureThreshold := 1
  resetTimeoutMs := 1000
  halfOpenMaxRequests := 2

/-- Of two requests one fails, and the other comes back after the timeout;
three more are let through before any of them is answered. -/
def overlapping : List BreakerStep :=
  [.canExecute, .canExecute, .answer false false, .clock 1000, .answer false true,
    .canExecute, .canExecute, .canExecute]

end HalfOpenWorld

end HoodSentry
