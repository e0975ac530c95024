import HoodSentry.Chain.Helpers.Selection
/-!
# Eligibility after the reset timeout

Selection reads the health tracker's copy of a breaker's state, and only a
record refreshes it. In a client the copy and the breaker never part, since
a provider whose copy is open is asked for nothing that could move its
breaker; so an open circuit that waits its timeout out stays open, and its
provider out of the selection, until something other than a new request is
recorded of it.
-/

namespace HoodSentry

/-! ## Reading a breaker -/

namespace CircuitBreaker

variable {config : CircuitBreakerConfig} {now : ℕ} {b : CircuitBreaker}

/-- A read leaves no circuit open whose timeout has passed. -/
theorem not_elapsed_getCircuitState (h : (b.getCircuitState config now).state = .opened) :
    ¬ (b.getCircuitState config now).Elapsed config now := by
  unfold getCircuitState at h ⊢
  split_ifs with hturns
  · rw [if_pos hturns] at h
    exact absurd h CircuitState.noConfusion
  · rw [if_neg hturns] at h
    exact fun helapsed => hturns ⟨h, helapsed⟩

theorem getCircuitState_of_not_opened (h : b.state ≠ .opened) : b.getCircuitState config now = b :=
  if_neg fun hturns => h hturns.1

/-- A second read at the same time moves nothing more. -/
theorem getCircuitState_idem :
    (b.getCircuitState config now).getCircuitState config now = b.getCircuitState config now :=
  if_neg fun hturns => not_elapsed_getCircuitState hturns.1 hturns.2

/-- So the tracker's read after a success finds what the success left. -/
theorem getCircuitState_recordSuccess :
    (b.recordSuccess config now).getCircuitState config now = b.recordSuccess config now := by
  unfold recordSuccess
  dsimp only
  split
  · rename_i hhalf
    refine getCircuitState_of_not_opened ?_
    split_ifs
    · exact CircuitState.noConfusion
    · exact fun hopened => CircuitState.noConfusion (hhalf.symm.trans hopened)
  · rename_i hclosed
    exact getCircuitState_of_not_opened fun hopened =>
      CircuitState.noConfusion (hclosed.symm.trans hopened)
  · exact getCircuitState_idem

/-- Asking a circuit that is not open moves nothing. -/
theorem canExecute_of_not_opened (h : b.state ≠ .opened) : (b.canExecute config now).2 = b := by
  unfold canExecute
  rw [getCircuitState_of_not_opened h]
  dsimp only
  split <;> rfl

theorem Elapsed.mono {later : ℕ} (h : b.Elapsed config now) (hle : now ≤ later) :
    b.Elapsed config later := by
  obtain ⟨failed, hfailed, hpast⟩ := h
  exact ⟨failed, hfailed, hpast.trans hle⟩

end CircuitBreaker

/-! ## Trackers in step with their breakers -/

namespace ProviderHealthTracker

variable {config : CircuitBreakerConfig} {now : ℕ} {url : Url} {t : ProviderHealthTracker}

/-- **A tracker in step**: filed under its url, and its copy the state of
its breaker. -/
structure InStep (url : Url) (t : ProviderHealthTracker) : Prop where
  providerUrl : t.health.providerUrl = url
  up : t.health.isHealthy = true
  copy : t.health.circuitState = t.circuitBreaker.state

/-- No open circuit has waited its timeout out. -/
def Waits (config : CircuitBreakerConfig) (now : ℕ) (t : ProviderHealthTracker) : Prop :=
  t.circuitBreaker.state = .opened → t.health.chainIdMatch = true →
    ¬ t.circuitBreaker.Elapsed config now

theorem inStep_create (url : Url) (role : ProviderRole) : (create url role).InStep url :=
  ⟨rfl, rfl, rfl⟩

theorem waits_create (url : Url) (role : ProviderRole) : (create url role).Waits config now :=
  fun h => absurd h CircuitState.noConfusion

/-- On the right chain a provider is healthy exactly when its circuit is not
open. -/
theorem InStep.isHealthy_iff (h : t.InStep url) :
    t.isHealthy = true ↔ t.health.chainIdMatch = true ∧ t.circuitBreaker.state ≠ .opened := by
  rw [isHealthy, h.up, Bool.true_and, Bool.and_eq_true, decide_eq_true_eq, h.copy]

theorem InStep.recordSuccess (h : t.InStep url) (latencyMs : ℕ) :
    (t.recordSuccess config now latencyMs).InStep url :=
  ⟨h.providerUrl, h.up, rfl⟩

theorem InStep.recordFailure (h : t.InStep url) : (t.recordFailure config now).InStep url :=
  ⟨h.providerUrl, h.up, rfl⟩

theorem InStep.setChainIdMatch (h : t.InStep url) (isMatch : Bool) :
    (t.setChainIdMatch isMatch).InStep url :=
  ⟨h.providerUrl, h.up, h.copy⟩

/-- A record reads the breaker, so what it leaves open still has to wait. -/
theorem waits_recordSuccess (latencyMs : ℕ) : (t.recordSuccess config now latencyMs).Waits config now :=
  fun hopened _ => CircuitBreaker.not_elapsed_getCircuitState hopened

theorem waits_recordFailure : (t.recordFailure config now).Waits config now :=
  fun hopened _ => CircuitBreaker.not_elapsed_getCircuitState hopened

theorem circuitBreaker_updateMetrics : (t.updateMetrics now).circuitBreaker = t.circuitBreaker := by
  unfold updateMetrics
  dsimp only
  split_ifs <;> rfl

theorem chainIdMatch_updateMetrics :
    (t.updateMetrics now).health.chainIdMatch = t.health.chainIdMatch := by
  unfold updateMetrics
  dsimp only
  split_ifs <;> rfl

/-- The metrics touch the error rate alone. -/
theorem InStep.recordRequest (h : t.InStep url) (metrics : RPCRequestMetrics) :
    (t.recordRequest now metrics).InStep url := by
  unfold ProviderHealthTracker.recordRequest updateMetrics
  dsimp only
  split_ifs
  · exact ⟨h.providerUrl, h.up, h.copy⟩
  · exact ⟨h.providerUrl, h.up, h.copy⟩

theorem Waits.recordRequest (h : t.Waits config now) (metrics : RPCRequestMetrics) :
    (t.recordRequest now metrics).Waits config now := by
  unfold Waits ProviderHealthTracker.recordRequest
  rw [circuitBreaker_updateMetrics, chainIdMatch_updateMetrics]
  exact h

end ProviderHealthTracker

/-! ## A client's trackers -/

namespace RPCClient

variable {c : RPCClient} {url : Url} {now : ℕ} {f : ProviderHealthTracker → ProviderHealthTracker}
variable {P Q : Url → ProviderHealthTracker → Prop}

/-- Something holds of every tracker. -/
def Each (P : Url → ProviderHealthTracker → Prop) (c : RPCClient) : Prop :=
  ∀ url t, c.healthTrackers url = some t → P url t

theorem Each.modifyTracker (h : c.Each P) (hf : ∀ t, P url t → P url (f t)) :
    (c.modifyTracker url f).Each P := by
  intro url' t ht
  by_cases hsame : url' = url
  · subst hsame
    obtain ⟨t₀, ht₀, rfl⟩ := Option.map_eq_some_iff.mp (modifyTracker_self.symm.trans ht)
    exact hf t₀ (h url' t₀ ht₀)
  · exact h url' t ((modifyTracker_of_ne hsame).symm.trans ht)

/-- What the trackers of a client are, and what holds while no open circuit
has waited its timeout out. -/
def InStep : RPCClient → Prop := Each fun url t => t.InStep url

def Timely (now : ℕ) (c : RPCClient) : Prop :=
  c.Each fun url t => t.InStep url ∧ t.Waits c.config.circuitBreaker now

theorem InStep.named (h : c.InStep) : c.Named := fun url t ht => (h url t ht).providerUrl

theorem Timely.inStep (h : c.Timely now) : c.InStep := fun url t ht => (h url t ht).1

/-- A change of one tracker. -/
theorem Timely.modifyTracker (h : c.Timely now)
    (hf : ∀ t, t.InStep url → t.Waits c.config.circuitBreaker now →
      (f t).InStep url ∧ (f t).Waits c.config.circuitBreaker now) :
    (c.modifyTracker url f).Timely now :=
  Each.modifyTracker (c := c) h fun t ht => hf t ht.1 ht.2

/-- **A request moves no breaker on its way in**: the provider it chose is
healthy, so its circuit is not open. -/
theorem canExecute_eq (h : c.InStep) (hup : c.Eligible false url) : (c.canExecute now url).2 = c := by
  obtain ⟨t, ht, hhealthy, -⟩ := hup
  obtain ⟨-, hclosed⟩ := (h url t ht).isHealthy_iff.mp hhealthy
  unfold canExecute
  rw [ht]
  dsimp only [RPCClient.modifyTracker]
  rw [CircuitBreaker.canExecute_of_not_opened hclosed, ht, Option.map_some]
  have hself : Function.update c.healthTrackers url
      (some { t with circuitBreaker := t.circuitBreaker }) = c.healthTrackers :=
    Function.update_eq_self_iff.mpr ht.symm
  rw [hself]

theorem eligible_of_selectNextProvider (h : c.Named) {method : RPCMethod} {tried : List Url}
    (hs : c.selectNextProvider method tried = .ok url) : c.Eligible false url := by
  unfold selectNextProvider at hs
  split at hs
  · cases hs
  · rename_i selected hselected
    split_ifs at hs with htried
    · split at hs
      · cases hs
      · rename_i fallback hfallback
        obtain rfl := Except.ok.inj hs
        exact (eligible_of_selectFallbackProvider h hfallback).2.1
    · obtain rfl := Except.ok.inj hs
      obtain ⟨t, ht, hup, -⟩ := (eligible_of_selectProvider h hselected).2
      exact ⟨t, ht, hup, fun hreq => absurd hreq Bool.false_ne_true⟩

/-- A new client's trackers are new. -/
theorem each_create (config : RPCClientConfig)
    (hnew : ∀ url role, P url (.create url role)) : (create config).Each P := by
  have hfold : ∀ (providers : List ProviderConfig) (trackers : Url → Option ProviderHealthTracker),
      (∀ url t, trackers url = some t → P url t) →
      ∀ url t, providers.foldl initializeProvider trackers url = some t → P url t := by
    intro providers
    induction providers with
    | nil => exact fun _ h => h
    | cons provider providers ih =>
      intro trackers h
      refine ih (initializeProvider trackers provider) fun url t ht => ?_
      unfold initializeProvider at ht
      by_cases hsame : url = provider.url
      · subst hsame
        rw [Function.update_self, Option.some.injEq] at ht
        exact ht ▸ hnew provider.url provider.role
      · rw [Function.update_of_ne hsame] at ht
        exact h url t ht
  exact hfold config.providers _ fun _ _ h => absurd h (Option.some_ne_none _).symm

theorem timely_create (config : RPCClientConfig) : (create config).Timely now :=
  each_create config fun url role =>
    ⟨ProviderHealthTracker.inStep_create url role, ProviderHealthTracker.waits_create url role⟩

/-! ## The records -/

theorem Timely.recordAnswer (h : c.Timely now) (startTime : ℕ) (success : Bool) :
    (c.recordAnswer now startTime url success).Timely now := by
  refine h.modifyTracker fun t ht _ => ?_
  cases success with
  | true =>
    exact ⟨(ht.recordSuccess _).recordRequest _,
      (ProviderHealthTracker.waits_recordSuccess _).recordRequest _⟩
  | false =>
    exact ⟨ht.recordFailure.recordRequest _,
      ProviderHealthTracker.waits_recordFailure.recordRequest _⟩

theorem Timely.validateChainId (h : c.Timely now) (chainId : ℕ) :
    (c.validateChainId now url chainId).Timely now := by
  unfold RPCClient.validateChainId
  split_ifs with hmatch
  · exact h.modifyTracker fun t ht _ =>
      ⟨(ht.setChainIdMatch false).recordFailure, ProviderHealthTracker.waits_recordFailure⟩
  · exact h

theorem Timely.updateBlockInfo (h : c.Timely now) (startTime blockNumber : ℕ) :
    (c.updateBlockInfo now startTime url blockNumber).Timely now :=
  h.modifyTracker (f := fun t =>
      (t.setChainIdMatch true).recordSuccess c.config.circuitBreaker now (now - startTime))
    fun _ ht _ =>
      ⟨(ht.setChainIdMatch true).recordSuccess _, ProviderHealthTracker.waits_recordSuccess _⟩

theorem Timely.checkArchiveCapability (h : c.Timely now) (capable : Bool) :
    (c.checkArchiveCapability capable).Timely now := by
  unfold RPCClient.checkArchiveCapability
  cases c.config.archive with
  | none => exact h
  | some archive =>
    exact h.modifyTracker fun t ht hwaits => ⟨⟨ht.providerUrl, ht.up, ht.copy⟩, hwaits⟩

theorem Timely.checkThrown (h : c.Timely now) : (c.checkThrown now url).Timely now :=
  h.modifyTracker fun _ ht _ =>
    ⟨ht.recordFailure, ProviderHealthTracker.waits_recordFailure⟩

end RPCClient

/-! ## Runs -/

namespace RPCWorld

variable {w w' : RPCWorld}

/-- **Eligible again**: a provider on the right chain whose reset timeout has
passed since its last failure is healthy and among the candidates of every
selection that considers it. -/
def EligibleAgain (w : RPCWorld) : Prop :=
  ∀ url t, w.client.healthTrackers url = some t →
    t.circuitBreaker.Elapsed w.client.config.circuitBreaker w.now → t.health.chainIdMatch = true →
    w.client.isHealthy url = true ∧
      ∀ requireArchive, w.client.Considered requireArchive url →
        (requireArchive = true → t.health.archiveCapable = some true) →
        url ∈ (w.client.getCandidateProviders requireArchive).map ProviderHealth.providerUrl

/-- **No open circuit waits its timeout out**: the clock does not reach the
end of it while the circuit is open and its provider on the right chain. -/
def NoneWaitsOut (w : RPCWorld) : RPCStep → Prop
  | .clock now => ∀ url t, w.client.healthTrackers url = some t →
      t.circuitBreaker.state = .opened → t.health.chainIdMatch = true →
      ¬ t.circuitBreaker.Elapsed w.client.config.circuitBreaker now
  | _ => True

theorem eligibleAgain_iff_timely (h : w.client.InStep) :
    w.EligibleAgain ↔ w.client.Timely w.now := by
  constructor
  · intro heligible url t ht
    refine ⟨h url t ht, fun hopened hmatch helapsed => ?_⟩
    obtain ⟨hhealthy, -⟩ := heligible url t ht helapsed hmatch
    obtain ⟨t', ht', hhealthy', -⟩ := RPCClient.isHealthy_iff.mp hhealthy
    obtain rfl := Option.some.inj (ht.symm.trans ht')
    exact ((h url t ht).isHealthy_iff.mp hhealthy').2 hopened
  · intro htimely url t ht helapsed hmatch
    have hclosed : t.circuitBreaker.state ≠ .opened := fun hopened =>
      (htimely url t ht).2 hopened hmatch helapsed
    have hhealthy : t.isHealthy = true := (h url t ht).isHealthy_iff.mpr ⟨hmatch, hclosed⟩
    refine ⟨RPCClient.isHealthy_iff.mpr ⟨t, ht, hhealthy, by simp⟩,
      fun requireArchive hconsidered hcapable => ?_⟩
    exact (RPCClient.listed_iff h.named).mpr ⟨hconsidered, t, ht, hhealthy, hcapable⟩

/-- A request that enters leaves the client as it was. -/
theorem client_enter {id : ℕ} {method : RPCMethod} {url : Url} (h : w.client.InStep)
    (hup : w.client.Eligible false url) : (w.enter id method url).client = w.client :=
  RPCClient.canExecute_eq h hup

theorem startCall_eq_some {id : ℕ} (hs : w.startCall id = some w') :
    ∃ r, w.request? id = some r ∧ r.startTime = none ∧
      w' = { w with inFlight := w.without id ++ [{ r with startTime := some w.now }] } := by
  unfold startCall at hs
  split at hs
  · rename_i r hr
    split_ifs at hs with hstart
    exact ⟨r, hr, hstart, (Option.some.inj hs).symm⟩
  · cases hs

/-- An answer is recorded of the provider the request is at. -/
theorem answerCall_eq_some {id : ℕ} {answer : CallAnswer} (hs : w.answerCall id answer = some w') :
    ∃ r startTime, w.request? id = some r ∧ r.startTime = some startTime ∧
      ¬ (answer = .contractRevert ∧ r.method ≠ .call) ∧
      w' =
        { w with
          client :=
            w.client.recordAnswer w.now startTime r.providerUrl (decide (answer = .success))
          inFlight := w.without id } := by
  unfold answerCall at hs
  split at hs
  · rename_i r hr
    split at hs
    · rename_i startTime hstart
      split_ifs at hs with hrevert
      exact ⟨r, startTime, hr, hstart, hrevert, (Option.some.inj hs).symm⟩
    · cases hs
  · cases hs

/-- **Only the clock lets an open circuit wait its timeout out.** -/
theorem timely_step {i : RPCStep} (h : w.client.Timely w.now) (hs : w.step i = some w')
    (hclock : ∀ now, i ≠ .clock now) : w'.client.Timely w'.now := by
  cases i with
  | clock now => exact absurd rfl (hclock now)
  | request id method tried =>
    rw [step] at hs
    split_ifs at hs
    split at hs
    · exact Option.some.inj hs ▸ h
    · rename_i url hselected
      obtain rfl := Option.some.inj hs
      have hup := RPCClient.eligible_of_selectNextProvider h.inStep.named hselected
      rw [client_enter h.inStep hup]
      exact h
  | fallback id method tried =>
    rw [step] at hs
    split_ifs at hs
    split at hs
    · exact Option.some.inj hs ▸ h
    · rename_i url hselected
      obtain rfl := Option.some.inj hs
      obtain ⟨-, hup, -⟩ := RPCClient.eligible_of_selectFallbackProvider h.inStep.named hselected
      rw [client_enter h.inStep hup]
      exact h
  | start id =>
    obtain ⟨r, -, -, rfl⟩ := startCall_eq_some hs
    exact h
  | answer id answer =>
    obtain ⟨r, startTime, -, -, -, rfl⟩ := answerCall_eq_some hs
    exact h.recordAnswer startTime _
  | chainIdAnswered url chainId => exact Option.some.inj hs ▸ h.validateChainId chainId
  | blockAnswered url startTime blockNumber =>
    exact Option.some.inj hs ▸ h.updateBlockInfo startTime blockNumber
  | archiveProbed capable => exact Option.some.inj hs ▸ h.checkArchiveCapability capable
  | checkThrown url => exact Option.some.inj hs ▸ h.checkThrown

/-- **One step keeps every provider eligible** exactly when it lets no open
circuit wait its timeout out. -/
theorem eligibleAgain_step_iff {i : RPCStep} (hsteady : w.client.InStep) (h : w.EligibleAgain)
    (hs : w.step i = some w') : w'.client.InStep ∧ (w'.EligibleAgain ↔ w.NoneWaitsOut i) := by
  have htimely := (eligibleAgain_iff_timely hsteady).mp h
  by_cases hclock : ∃ now, i = .clock now
  · obtain ⟨now, rfl⟩ := hclock
    rw [step] at hs
    split_ifs at hs with hle
    obtain rfl := Option.some.inj hs
    refine ⟨hsteady, (eligibleAgain_iff_timely (w := { w with now }) hsteady).trans ?_⟩
    exact ⟨fun hlater url t ht => (hlater url t ht).2,
      fun hwaits url t ht => ⟨hsteady url t ht, hwaits url t ht⟩⟩
  · have hother : ∀ now, i ≠ .clock now := fun now hi => hclock ⟨now, hi⟩
    have hlater := timely_step htimely hs hother
    refine ⟨hlater.inStep, iff_of_true ((eligibleAgain_iff_timely hlater.inStep).mpr hlater) ?_⟩
    cases i with
    | clock now => exact absurd rfl (hother now)
    | _ => exact trivial

/-- **When an opened circuit is tried again**: all along a run exactly when
no step of it lets an open circuit wait its timeout out. -/
theorem eligibleAgain_throughout_iff (config : RPCClientConfig) (now : ℕ) (steps : List RPCStep) :
    (requestMachine config).Throughout EligibleAgain (.create config now) steps ↔
      (requestMachine config).Meets NoneWaitsOut (.create config now) steps := by
  have hnew : (create config now).client.Timely now := RPCClient.timely_create config
  refine Machine.throughout_iff_meets (I := fun w => w.client.InStep) ?_
    (fun w i w' hsteady h hs => eligibleAgain_step_iff hsteady h hs) hnew.inStep
    ((eligibleAgain_iff_timely hnew.inStep).mpr hnew)
  -- A refused clock reading lies in the past, where less time had passed.
  intro w i hsteady h hs
  cases i with
  | clock earlier =>
    change (if w.now ≤ earlier then some { w with now := earlier } else none) = none at hs
    split_ifs at hs with hle
    intro url t ht hopened hmatch helapsed
    have hwaits := ((eligibleAgain_iff_timely hsteady).mp h url t ht).2
    exact hwaits hopened hmatch (helapsed.mono (Nat.le_of_lt (Nat.lt_of_not_le hle)))
  | _ => exact trivial

def exampleUrl : Url := ⟨"https://rpc.example", by decide⟩

/-- One provider whose first failure opens its circuit for a second. -/
def soleProvider : RPCClientConfig where
  chainId := 1
  primary := { url := exampleUrl, role := .primary }
  secondary := none
  archive := none
  circuitBreaker := { failureThreshold := 1, resetTimeoutMs := 1000, halfOpenMaxRequests := 1 }
  maxAttempts := 3

/-- One request fails, and the second passes. -/
def failsAndWaits : List RPCStep :=
  [.request 0 .blockNumber [], .start 0, .answer 0 .failure, .clock 1000]

theorem not_eligibleAgain :
    ¬ ∀ (config : RPCClientConfig) (now : ℕ) (steps : List RPCStep),
      (requestMachine config).Throughout EligibleAgain (.create config now) steps := by
  intro h
  have hend : ((requestMachine soleProvider).exec (.create soleProvider 0) failsAndWaits).any
      fun w => (w.client.healthTrackers soleProvider.primary.url).any fun t =>
        decide (t.circuitBreaker.Elapsed w.client.config.circuitBreaker w.now) &&
          t.health.chainIdMatch && !w.client.isHealthy soleProvider.primary.url := by
    decide +kernel
  obtain ⟨w, hw, hend⟩ := (Option.any_eq_true ..).mp hend
  obtain ⟨t, ht, hend⟩ := (Option.any_eq_true ..).mp hend
  rw [Bool.and_eq_true, Bool.and_eq_true, decide_eq_true_eq, Bool.not_eq_true'] at hend
  obtain ⟨⟨helapsed, hmatch⟩, hdown⟩ := hend
  have heligible := (h soleProvider 0 failsAndWaits).of_exec hw
  obtain ⟨hhealthy, -⟩ := heligible _ t ht helapsed hmatch
  exact Bool.false_ne_true (hdown.symm.trans hhealthy)

end RPCWorld

end HoodSentry
