import HoodSentry.Chain.Model.RateLimiter
/-!
# What the rate limiter grants

The limiter is a token bucket, and its account holds whatever calls are made
of it. Its bound holds as long as no sleeper takes a token that is not
there, and sleepers that saw one balance all take from it.
-/

namespace HoodSentry

namespace RateLimiter

variable {l : RateLimiter} {now : ℕ}

/-- The limiter's bucket, and the rate it fills at in a millisecond. -/
def bucket (l : RateLimiter) : Bucket ℚ := ⟨l.tokens, l.lastRefillTime⟩

def ratePerMs (l : RateLimiter) : ℚ := l.requestsPerSecond / 1000

theorem bucket_refill : (l.refill now).bucket = l.bucket.fill l.burstSize l.ratePerMs now := by
  have hflow : ((now : ℚ) - l.lastRefillTime) / 1000 * l.requestsPerSecond =
      ((now : ℚ) - l.lastRefillTime) * (l.requestsPerSecond / 1000) := by
    ring
  unfold bucket refill Bucket.fill ratePerMs
  dsimp only
  rw [hflow]

variable (l now) in
/-- **The two ways a call ends its first section**, the same for both. -/
theorem acquire_cases :
    (1 ≤ (l.refill now).tokens ∧ l.acquire now = (none, (l.refill now).takeToken)) ∨
      ∃ retryAfterMs, (l.refill now).tokens < 1 ∧
        l.acquire now = (some retryAfterMs, l.refill now) := by
  unfold acquire
  dsimp only
  split_ifs with hone
  · exact .inl ⟨hone, rfl⟩
  · exact .inr ⟨_, not_le.mp hone, rfl⟩

variable (l now) in
theorem waitForToken_cases :
    (1 ≤ (l.refill now).tokens ∧ l.waitForToken now = (none, (l.refill now).takeToken)) ∨
      ∃ sleep, (l.refill now).tokens < 1 ∧ l.waitForToken now = (some sleep, l.refill now) := by
  unfold waitForToken
  dsimp only
  split_ifs with hone
  · exact .inl ⟨hone, rfl⟩
  · exact .inr ⟨_, not_le.mp hone, rfl⟩

end RateLimiter

namespace RateWorld

variable {config : RateLimiterConfig} {w w' : RateWorld} {i : RateStep}

/-- **The bound**: every interval, its ends in milliseconds, has at most the
burst and the rate times its length in grants, and no token is owed. -/
def WithinLimit (w : RateWorld) : Prop :=
  (∀ start stop : ℚ, start ≤ stop →
      ((w.granted.filter fun t => start ≤ t ∧ t ≤ stop).length : ℚ) ≤
        w.limiter.burstSize + w.limiter.requestsPerSecond * ((stop - start) / 1000)) ∧
    0 ≤ w.limiter.tokens

/-- **A sleeper finds its token**: one that may wake does so only when the
balance of that moment has a token. -/
def FindsToken (w : RateWorld) : RateStep → Prop
  | .wake k => ∀ due ∈ w.sleepers[k]?, due ≤ w.now → 1 ≤ (w.limiter.refill w.now).tokens
  | _ => True

/-- What every state is: a limiter in order, and its account. -/
structure Sound (w : RateWorld) : Prop where
  burst : 0 ≤ w.limiter.burstSize
  rate : 0 ≤ w.limiter.ratePerMs
  past : w.limiter.lastRefillTime ≤ w.now
  account : w.limiter.bucket.Account w.limiter.burstSize w.limiter.ratePerMs w.granted

theorem withinLimit_iff :
    w.WithinLimit ↔
      Bucket.WithinRate w.limiter.burstSize w.limiter.ratePerMs w.granted ∧
        0 ≤ w.limiter.tokens := by
  have hflow (start stop : ℚ) : w.limiter.requestsPerSecond * ((stop - start) / 1000) =
      (stop - start) * w.limiter.ratePerMs := by
    unfold RateLimiter.ratePerMs
    ring
  unfold WithinLimit Bucket.WithinRate grantsIn
  simp only [List.countP_eq_length_filter, hflow]

theorem sound_create (config : RateLimiterConfig) (now : ℕ) : (create config now).Sound where
  burst := by
    change 0 ≤ config.burstSize.getD config.requestsPerSecond
    cases hburst : config.burstSize with
    | none => exact config.requestsPerSecond_pos.le
    | some burst => exact config.burstSize_nonneg burst hburst
  rate := div_nonneg config.requestsPerSecond_pos.le (by norm_num)
  past := le_rfl
  account := Bucket.account_full (div_nonneg config.requestsPerSecond_pos.le (by norm_num))

theorem withinLimit_create (config : RateLimiterConfig) (now : ℕ) :
    (create config now).WithinLimit := by
  have hsound := sound_create config now
  rw [withinLimit_iff]
  exact ⟨Bucket.withinRate_nil hsound.burst hsound.rate, hsound.burst⟩

/-- The clock goes on. -/
theorem Sound.clock (h : w.Sound) {now : ℕ} (hnow : w.now ≤ now) : Sound { w with now } :=
  ⟨h.burst, h.rate, h.past.trans hnow, h.account⟩

/-- A refill, whatever else a call leaves behind. -/
theorem Sound.refill (h : w.Sound) (sleepers : List ℕ) :
    Sound { w with limiter := w.limiter.refill w.now, sleepers } where
  burst := h.burst
  rate := h.rate
  past := le_rfl
  account := by
    have hfill := h.account.fill h.rate (Nat.cast_le.mpr h.past)
    rw [← RateLimiter.bucket_refill] at hfill
    exact hfill

/-- A grant after a refill. -/
theorem Sound.grant (h : w.Sound) (sleepers : List ℕ) :
    Sound
      { w with
        limiter := (w.limiter.refill w.now).takeToken
        sleepers
        granted := (w.now : ℚ) :: w.granted } :=
  have hrefilled := h.refill sleepers
  ⟨h.burst, h.rate, le_rfl, hrefilled.account.take⟩

theorem WithinLimit.refill (hw : w.WithinLimit) (h : w.Sound) (sleepers : List ℕ) :
    WithinLimit { w with limiter := w.limiter.refill w.now, sleepers } := by
  rw [withinLimit_iff] at hw ⊢
  refine ⟨hw.1, ?_⟩
  have hlevel := Bucket.level_fill_nonneg (b := w.limiter.bucket) h.burst h.rate hw.2
    (Nat.cast_le.mpr h.past)
  rw [← RateLimiter.bucket_refill] at hlevel
  exact hlevel

/-- **A grant keeps the bound** exactly when its token is there. -/
theorem withinLimit_grant_iff (hw : w.WithinLimit) (h : w.Sound) (sleepers : List ℕ) :
    WithinLimit
        { w with
          limiter := (w.limiter.refill w.now).takeToken
          sleepers
          granted := (w.now : ℚ) :: w.granted } ↔
      1 ≤ (w.limiter.refill w.now).tokens := by
  rw [withinLimit_iff] at hw ⊢
  have hlevel : 0 ≤ (w.limiter.refill w.now).tokens - 1 ↔ 1 ≤ (w.limiter.refill w.now).tokens :=
    sub_nonneg
  constructor
  · rintro ⟨-, hnonneg⟩
    exact hlevel.mp hnonneg
  · intro hone
    have hthere : 0 ≤ (w.limiter.refill w.now).bucket.take.level := hlevel.mpr hone
    have hgrants := hw.1.take (h.refill sleepers).account h.rate hthere
    exact ⟨hgrants, hlevel.mpr hone⟩

theorem step_wake {k due : ℕ} (hdue : due ∈ w.sleepers[k]?) (hle : due ≤ w.now) :
    w.step (.wake k) =
      some
        { w with
          limiter := w.limiter.wake w.now
          sleepers := w.sleepers.eraseIdx k
          granted := (w.now : ℚ) :: w.granted } := by
  rw [step, Option.mem_def.mp hdue]
  exact if_pos hle

/-- **One step keeps the bound** exactly when no sleeper takes a token that
is not there. -/
theorem withinLimit_step_iff (h : w.Sound) (hw : w.WithinLimit) (hs : w.step i = some w') :
    w'.Sound ∧ (w'.WithinLimit ↔ w.FindsToken i) := by
  cases i with
  | clock now =>
    rw [step] at hs
    split_ifs at hs with hle
    obtain rfl := Option.some.inj hs
    exact ⟨h.clock hle, iff_of_true hw trivial⟩
  | acquire =>
    rw [step] at hs
    rcases RateLimiter.acquire_cases w.limiter w.now with
      ⟨hone, hcall⟩ | ⟨retryAfterMs, -, hcall⟩
    · rw [hcall] at hs
      obtain rfl := Option.some.inj hs
      exact ⟨h.grant w.sleepers, iff_of_true ((withinLimit_grant_iff hw h w.sleepers).mpr hone) trivial⟩
    · rw [hcall] at hs
      obtain rfl := Option.some.inj hs
      exact ⟨h.refill w.sleepers, iff_of_true (hw.refill h w.sleepers) trivial⟩
  | waitForToken =>
    rw [step] at hs
    rcases RateLimiter.waitForToken_cases w.limiter w.now with
      ⟨hone, hcall⟩ | ⟨sleep, -, hcall⟩
    · rw [hcall] at hs
      obtain rfl := Option.some.inj hs
      exact ⟨h.grant w.sleepers, iff_of_true ((withinLimit_grant_iff hw h w.sleepers).mpr hone) trivial⟩
    · rw [hcall] at hs
      obtain rfl := Option.some.inj hs
      exact ⟨h.refill _, iff_of_true (hw.refill h _) trivial⟩
  | wake k =>
    rw [step] at hs
    split at hs
    · cases hs
    · rename_i due hdue
      split_ifs at hs with hle
      obtain rfl := Option.some.inj hs
      refine ⟨h.grant _, (withinLimit_grant_iff hw h _).trans ?_⟩
      constructor
      · exact fun hone _ _ _ => hone
      · exact fun hfinds => hfinds due hdue hle

/-- **When the limiter keeps its rate**: all along a run exactly when every
sleeper that wakes finds a token. -/
theorem withinLimit_throughout_iff (config : RateLimiterConfig) (now : ℕ) (steps : List RateStep) :
    (rateMachine config).Throughout WithinLimit (.create config now) steps ↔
      (rateMachine config).Meets FindsToken (.create config now) steps := by
  refine Machine.throughout_iff_meets (I := Sound) ?_
    (fun w i w' h hw hs => withinLimit_step_iff h hw hs) (sound_create config now)
    (withinLimit_create config now)
  -- A sleeper that may wake is never refused.
  intro w i _ _ hrefused
  cases i with
  | wake k =>
    intro due hdue hle
    exact absurd (hrefused.symm.trans (step_wake hdue hle)) (Option.some_ne_none _).symm
  | _ => exact trivial

/-- One request a second, and no burst beyond it. -/
def oncePerSecond : RateLimiterConfig where
  requestsPerSecond := 1
  burstSize := none
  requestsPerSecond_pos := by norm_num
  burstSize_nonneg := fun _ h => absurd h (Option.not_mem_none _)

/-- The token is taken, two more calls sleep for the next one, and both wake
when it is there. -/
def sleepersOverlap : List RateStep :=
  [.waitForToken, .waitForToken, .waitForToken, .clock 1000, .wake 0, .wake 0]

theorem not_withinLimit :
    ¬ ∀ (config : RateLimiterConfig) (now : ℕ) (steps : List RateStep),
      (rateMachine config).Throughout WithinLimit (.create config now) steps := by
  intro h
  have hend : ((rateMachine oncePerSecond).exec (.create oncePerSecond 0) sleepersOverlap).any
      fun w => decide (w.limiter.tokens = -1) := by
    decide +kernel
  obtain ⟨w, hw, hbelow⟩ := (Option.any_eq_true ..).mp hend
  obtain ⟨-, hnonneg⟩ := (h oncePerSecond 0 sleepersOverlap).of_exec hw
  rw [of_decide_eq_true hbelow] at hnonneg
  norm_num at hnonneg

end RateWorld

end HoodSentry
