import HoodSentry.Chain.Circuits
/-!
# Reverts and provider health

Two runs of a client side by side that differ only in some `eth_call`s: one
run's are answered, the other's are reverted by the contract they call. The
client records a revert like any failure of the provider, so the runs part
with the first of them.
-/

namespace HoodSentry

/-- Two runs, and the requests of the second that were reverted. -/
structure TwoRuns where
  answered : RPCWorld
  reverted : RPCWorld
  requests : List ℕ

inductive PairStep
  /-- Both runs take the same step. -/
  | both (i : RPCStep)
  /-- A call is answered in the one run and reverted in the other. -/
  | reverts (id : ℕ)
  /-- A reverted request goes on to another provider. -/
  | failover (i : RPCStep)

/-- The request a step belongs to. -/
def RPCStep.request? : RPCStep → Option ℕ
  | .fallback id _ _ => some id
  | .start id => some id
  | .answer id _ => some id
  | _ => none

namespace TwoRuns

variable (s : TwoRuns)

def create (config : RPCClientConfig) (now : ℕ) : TwoRuns where
  answered := .create config now
  reverted := .create config now
  requests := []

def step : PairStep → Option TwoRuns
  | .both i => do
    let answered ← s.answered.step i
    let reverted ← s.reverted.step i
    return { s with answered, reverted }
  | .reverts id => do
    let answered ← s.answered.step (.answer id .success)
    let reverted ← s.reverted.step (.answer id .contractRevert)
    return { answered, reverted, requests := id :: s.requests }
  | .failover i =>
    if ∃ id ∈ i.request?, id ∈ s.requests then do
      let reverted ← s.reverted.step i
      return { s with reverted }
    else none

end TwoRuns

def revertMachine (config : RPCClientConfig) : Machine TwoRuns PairStep where
  Init s := ∃ now, s = .create config now
  step := TwoRuns.step

/-- What the runs must agree in of a provider: its circuit, its failures in
a row and whether it is eligible. -/
def ProviderHealthTracker.standing (t : ProviderHealthTracker) : CircuitState × ℕ × Bool :=
  (t.circuitBreaker.state, t.health.consecutiveFailures, t.isHealthy)

namespace TwoRuns

variable {s s' : TwoRuns} {i : PairStep}

/-- **The runs agree**: in every provider's standing, and in the provider
any request would choose next. -/
structure Agree (s : TwoRuns) : Prop where
  standing : ∀ url, (s.answered.client.healthTrackers url).map ProviderHealthTracker.standing =
    (s.reverted.client.healthTrackers url).map ProviderHealthTracker.standing
  chosen : ∀ method tried, s.answered.client.selectNextProvider method tried =
    s.reverted.client.selectNextProvider method tried
  fallback : ∀ tried, s.answered.client.selectFallbackProvider tried =
    s.reverted.client.selectFallbackProvider tried

/-- No call is answered in one run and reverted in the other. -/
def NoneReverts (s : TwoRuns) (i : PairStep) : Prop :=
  ∀ id, i = .reverts id → s.step i = none

end TwoRuns

/-! ## Requests at known providers -/

namespace RPCClient

variable {c : RPCClient} {url other : Url}

theorem isSome_modifyTracker {f : ProviderHealthTracker → ProviderHealthTracker} :
    ((c.modifyTracker url f).healthTrackers other).isSome = (c.healthTrackers other).isSome := by
  by_cases hsame : other = url
  · subst hsame
    rw [modifyTracker_self, Option.isSome_map]
  · rw [modifyTracker_of_ne hsame]

theorem isSome_canExecute (now : ℕ) :
    ((c.canExecute now url).2.healthTrackers other).isSome = (c.healthTrackers other).isSome := by
  unfold canExecute
  split
  · rfl
  · exact isSome_modifyTracker

/-- Only a known provider lets a request through. -/
theorem isSome_of_canExecute {now : ℕ} (h : (c.canExecute now url).1 = true) :
    (c.healthTrackers url).isSome := by
  unfold canExecute at h
  cases ht : c.healthTrackers url with
  | none =>
    rw [ht] at h
    exact absurd h Bool.false_ne_true
  | some t => rfl

end RPCClient

namespace RPCWorld

variable {w w' : RPCWorld} {i : RPCStep}

/-- Every request in flight is at a provider the client has. -/
def Known (w : RPCWorld) : Prop :=
  ∀ r ∈ w.inFlight, (w.client.healthTrackers r.providerUrl).isSome

theorem mem_of_request? {id : ℕ} {r : InFlight} (h : w.request? id = some r) : r ∈ w.inFlight :=
  List.mem_of_find?_eq_some h

theorem Known.enter (h : w.Known) (id : ℕ) (method : RPCMethod) (url : Url) :
    (w.enter id method url).Known := by
  intro r hr
  have hother : ∀ r ∈ w.inFlight,
      ((w.client.canExecute w.now url).2.healthTrackers r.providerUrl).isSome := fun r hr => by
    rw [RPCClient.isSome_canExecute]
    exact h r hr
  unfold RPCWorld.enter at hr ⊢
  dsimp only at hr ⊢
  split_ifs at hr with hadmitted
  · rcases List.mem_append.mp hr with hr | hr
    · exact hother r hr
    · obtain rfl := List.mem_singleton.mp hr
      rw [RPCClient.isSome_canExecute]
      exact RPCClient.isSome_of_canExecute hadmitted
  · exact hother r hr

/-- A change of one tracker, and requests only leaving. -/
theorem Known.modifyTracker (h : w.Known) (url : Url)
    (f : ProviderHealthTracker → ProviderHealthTracker) :
    Known { w with client := w.client.modifyTracker url f } := fun r hr => by
  dsimp only
  rw [RPCClient.isSome_modifyTracker]
  exact h r hr

theorem Known.step (h : w.Known) (hs : w.step i = some w') : w'.Known := by
  cases i with
  | clock now =>
    rw [RPCWorld.step] at hs
    split_ifs at hs
    exact Option.some.inj hs ▸ h
  | request id method tried =>
    rw [RPCWorld.step] at hs
    split_ifs at hs
    split at hs
    · exact Option.some.inj hs ▸ h
    · exact Option.some.inj hs ▸ h.enter id method _
  | fallback id method tried =>
    rw [RPCWorld.step] at hs
    split_ifs at hs
    split at hs
    · exact Option.some.inj hs ▸ h
    · exact Option.some.inj hs ▸ h.enter id method _
  | start id =>
    obtain ⟨r, hr, -, rfl⟩ := startCall_eq_some hs
    intro r' hr'
    rcases List.mem_append.mp hr' with hr' | hr'
    · exact h r' (List.mem_of_mem_filter hr')
    · obtain rfl := List.mem_singleton.mp hr'
      exact h r (mem_of_request? hr)
  | answer id answer =>
    obtain ⟨r, startTime, hr, -, -, rfl⟩ := answerCall_eq_some hs
    intro r' hr'
    exact h.modifyTracker _ _ r' (List.mem_of_mem_filter hr')
  | chainIdAnswered url chainId =>
    obtain rfl := Option.some.inj hs
    unfold RPCClient.validateChainId
    split_ifs
    · exact h.modifyTracker url _
    · exact h
  | blockAnswered url startTime blockNumber =>
    obtain rfl := Option.some.inj hs
    exact h.modifyTracker url _
  | archiveProbed capable =>
    obtain rfl := Option.some.inj hs
    unfold RPCClient.checkArchiveCapability
    cases w.client.config.archive with
    | none => exact h
    | some archive => exact h.modifyTracker archive.url _
  | checkThrown url =>
    obtain rfl := Option.some.inj hs
    exact h.modifyTracker url _

end RPCWorld

/-! ## Where the runs part -/

theorem consecutiveFailures_recordRequest {t : ProviderHealthTracker} (now : ℕ)
    (metrics : RPCRequestMetrics) :
    (t.recordRequest now metrics).health.consecutiveFailures = t.health.consecutiveFailures := by
  unfold ProviderHealthTracker.recordRequest ProviderHealthTracker.updateMetrics
  dsimp only
  split_ifs <;> rfl

/-- **A success and a failure differ in the failures in a row.** -/
theorem RPCClient.standing_recordAnswer_ne {c : RPCClient} {url : Url} (now startTime : ℕ)
    (h : (c.healthTrackers url).isSome) :
    ((c.recordAnswer now startTime url true).healthTrackers url).map
        ProviderHealthTracker.standing ≠
      ((c.recordAnswer now startTime url false).healthTrackers url).map
        ProviderHealthTracker.standing := by
  obtain ⟨t, ht⟩ := Option.isSome_iff_exists.mp h
  unfold recordAnswer
  rw [modifyTracker_self, modifyTracker_self, ht]
  intro heq
  have hfailures := congrArg (fun standing => standing.2.1) (Option.some.inj heq)
  dsimp only [ProviderHealthTracker.standing, Option.map_some] at hfailures
  rw [consecutiveFailures_recordRequest, consecutiveFailures_recordRequest] at hfailures
  exact absurd hfailures (Nat.succ_ne_zero _).symm

namespace TwoRuns

variable {s s' : TwoRuns} {i : PairStep}

/-- While the runs agree they are one run. -/
def OneRun (s : TwoRuns) : Prop :=
  s.Agree → s.answered = s.reverted ∧ s.requests = [] ∧ s.answered.Known

theorem agree_of_eq (h : s.answered = s.reverted) : s.Agree := by
  refine ⟨fun url => ?_, fun method tried => ?_, fun tried => ?_⟩ <;> rw [h]

/-- **One step keeps the runs in agreement** exactly when it reverts no
call. -/
theorem agree_step_iff (h : s.OneRun) (ha : s.Agree) (hs : s.step i = some s') :
    s'.OneRun ∧ (s'.Agree ↔ s.NoneReverts i) := by
  obtain ⟨hsame, hnone, hknown⟩ := h ha
  cases i with
  | both i =>
    obtain ⟨answered, hanswered, hs⟩ := Option.bind_eq_some_iff.mp hs
    obtain ⟨reverted, hreverted, hs⟩ := Option.bind_eq_some_iff.mp hs
    obtain rfl := Option.some.inj hs
    obtain rfl : answered = reverted := by
      rw [← hsame, hanswered] at hreverted
      exact Option.some.inj hreverted
    exact ⟨fun _ => ⟨rfl, hnone, hknown.step hanswered⟩,
      iff_of_true (agree_of_eq rfl) fun id hid => nomatch hid⟩
  | reverts id =>
    have hrefused : ¬ s.NoneReverts (.reverts id) := fun hreverts =>
      Option.some_ne_none s' (hs.symm.trans (hreverts id rfl))
    obtain ⟨answered, hanswered, hs⟩ := Option.bind_eq_some_iff.mp hs
    obtain ⟨reverted, hreverted, hs⟩ := Option.bind_eq_some_iff.mp hs
    obtain rfl := Option.some.inj hs
    have hpart : ¬ Agree { answered, reverted, requests := id :: s.requests } := by
      intro hagree
      rw [← hsame] at hreverted
      obtain ⟨r, startTime, hr, hstart, -, rfl⟩ := RPCWorld.answerCall_eq_some hanswered
      obtain ⟨r', startTime', hr', hstart', -, rfl⟩ := RPCWorld.answerCall_eq_some hreverted
      obtain rfl := Option.some.inj (hr.symm.trans hr')
      obtain rfl := Option.some.inj (hstart.symm.trans hstart')
      exact RPCClient.standing_recordAnswer_ne s.answered.now startTime
        (hknown r (RPCWorld.mem_of_request? hr)) (hagree.standing r.providerUrl)
    exact ⟨fun hagree => absurd hagree hpart, iff_of_false hpart hrefused⟩
  | failover i =>
    rw [step] at hs
    split_ifs at hs with hown
    obtain ⟨id, -, hmem⟩ := hown
    rw [hnone] at hmem
    exact absurd hmem List.not_mem_nil

/-- **When reverts leave the providers alone**: the runs agree all along
exactly when no call is answered in the one and reverted in the other. -/
theorem agree_throughout_iff (config : RPCClientConfig) (now : ℕ) (steps : List PairStep) :
    (revertMachine config).Throughout Agree (.create config now) steps ↔
      (revertMachine config).Meets NoneReverts (.create config now) steps :=
  Machine.throughout_iff_meets (I := OneRun) (fun _ _ _ _ hrefused _ _ => hrefused)
    (fun _ _ _ h ha hs => agree_step_iff h ha hs)
    (fun _ => ⟨rfl, rfl, fun _ hr => absurd hr List.not_mem_nil⟩) (agree_of_eq rfl)

/-- One `eth_call`, answered in one run and reverted in the other. -/
def oneRevert : List PairStep :=
  [.both (.request 0 .call []), .both (.start 0), .reverts 0]

/-- The sole provider's standing in each run. -/
def standings (s : TwoRuns) : List (Option (CircuitState × ℕ × Bool)) :=
  [(s.answered.client.healthTrackers RPCWorld.soleProvider.primary.url).map
      ProviderHealthTracker.standing,
    (s.reverted.client.healthTrackers RPCWorld.soleProvider.primary.url).map
      ProviderHealthTracker.standing]

theorem not_agree :
    ¬ ∀ (config : RPCClientConfig) (now : ℕ) (steps : List PairStep),
      (revertMachine config).Throughout Agree (.create config now) steps := by
  intro h
  have hend : ((revertMachine RPCWorld.soleProvider).exec (.create RPCWorld.soleProvider 0)
      oneRevert).any fun s => decide (standings s =
        [some (.closed, 0, true), some (.opened, 1, false)]) := by
    decide +kernel
  obtain ⟨s, hs, hend⟩ := (Option.any_eq_true ..).mp hend
  have hstanding := ((h RPCWorld.soleProvider 0 oneRevert).of_exec hs).standing
    RPCWorld.soleProvider.primary.url
  obtain ⟨hanswered, htail⟩ := List.cons_eq_cons.mp (of_decide_eq_true hend)
  obtain ⟨hreverted, -⟩ := List.cons_eq_cons.mp htail
  rw [hanswered, hreverted] at hstanding
  cases hstanding

end TwoRuns

end HoodSentry
