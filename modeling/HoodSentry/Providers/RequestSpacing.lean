import HoodSentry.Common.Machine
import HoodSentry.Common.TokenBucket
/-!
# Spaced provider requests

`ProviderHttpClient` of `packages/providers/src/http-client.ts`: any number of
calls of `request`, with retries, failures and the circuit. Slots are handed
out along a chain of promises; the head of the chain reads the clock, sleeps
for what is missing of the interval, and takes its slot. The clock reads
rationals. A call whose slot is taken starts its fetch in the same turn of the
event loop, so time goes on only when no such call is left.
-/

namespace HoodSentry

/-- The options, as the constructor lets them through. -/
structure ProviderHttpClientOptions where
  maximumAttempts : ℕ
  retryBaseDelayMs : ℚ
  requestsPerSecond : ℚ
  circuitFailureThreshold : ℕ
  circuitResetMs : ℕ
  maximumAttempts_pos : 0 < maximumAttempts
  retryBaseDelayMs_nonneg : 0 ≤ retryBaseDelayMs
  requestsPerSecond_pos : 0 < requestsPerSecond
  circuitFailureThreshold_pos : 0 < circuitFailureThreshold
  circuitResetMs_pos : 0 < circuitResetMs

namespace ProviderHttpClient

def minimumRequestIntervalMs (options : ProviderHttpClientOptions) : ℚ :=
  1000 / options.requestsPerSecond

/-! ## Calls -/

/-- How far a call is: waiting for its slot or with one, fetching, or sleeping
before its next attempt. -/
inductive Phase
  | idle
  | waiting (attempt : ℕ)
  | fetching (attempt : ℕ)
  | retrying (attempt : ℕ) (wakesAt : ℚ)
  | done

/-- How a fetch ends, with what is made of its response. -/
inductive Outcome
  | success
  | failure (retryable : Bool) (retryAfterMs : Option ℚ)

/-- **The client and its calls.** `queue` are the calls in the chain, whose
head sleeps if it has begun; `granted` are those with a slot whose fetch has
not started; `grants` and `fetches` are the times of both, the latest
first. -/
structure World where
  now : ℚ
  lastRequestAt : ℚ
  queue : List ℕ
  sleepsUntil : Option ℚ
  granted : List ℕ
  phase : ℕ → Phase
  consecutiveFailures : ℕ
  circuitOpenedAt : Option ℚ
  grants : List ℚ
  fetches : List ℚ

inductive Label
  | request (i : ℕ) (validUrl : Bool)
  | begin
  | wake
  | slotFails (random : ℚ)
  | fetch (i : ℕ)
  | respond (i : ℕ) (outcome : Outcome) (random : ℚ)
  | retry (i : ℕ)
  | backoffFails (i : ℕ)
  | tick (later : ℚ)

variable (options : ProviderHttpClientOptions)

namespace World

def setPhase (w : World) (i : ℕ) (phase : Phase) : World :=
  { w with phase := Function.update w.phase i phase }

/-- A request that has failed for good. -/
def giveUp (w : World) (i : ℕ) : World :=
  let consecutiveFailures := w.consecutiveFailures + 1
  { w.setPhase i .done with
    consecutiveFailures := consecutiveFailures
    circuitOpenedAt :=
      if options.circuitFailureThreshold ≤ consecutiveFailures then some w.now
      else w.circuitOpenedAt }

/-- An attempt that has failed: the last one, or one before a delay. -/
def fail (w : World) (i attempt : ℕ) (retryable : Bool) (retryAfterMs : Option ℚ) (random : ℚ) :
    World :=
  if retryable = false ∨ attempt = options.maximumAttempts then w.giveUp options i
  else
    let exponential := options.retryBaseDelayMs * 2 ^ (attempt - 1)
    let jitter := ⌊random * max 1 options.retryBaseDelayMs⌋
    let delay := retryAfterMs.getD (exponential + jitter)
    w.setPhase i (.retrying attempt (w.now + min delay 30000))

/-- Into the chain. -/
def enqueue (w : World) (i attempt : ℕ) : World :=
  { w.setPhase i (.waiting attempt) with queue := w.queue ++ [i] }

/-- `request` up to its slot: the circuit, and the first attempt's URL. -/
def request (w : World) (i : ℕ) (validUrl : Bool) : World :=
  match w.circuitOpenedAt with
  | some openedAt =>
    if (options.circuitResetMs : ℚ) ≤ w.now - openedAt then
      if validUrl then { w with circuitOpenedAt := none }.enqueue i 1
      else { w with circuitOpenedAt := none }.fail options i 1 false none 0
    else w.setPhase i .done
  | none => if validUrl then w.enqueue i 1 else w.fail options i 1 false none 0

/-- The head of the chain takes its slot. -/
def grant (w : World) (i : ℕ) (rest : List ℕ) : World :=
  { w with
    queue := rest
    sleepsUntil := none
    lastRequestAt := w.now
    granted := w.granted ++ [i]
    grants := w.now :: w.grants }

/-- What the head of the chain does when its turn comes. -/
def begin (w : World) (i : ℕ) (rest : List ℕ) : World :=
  let waitMs := max 0 (w.lastRequestAt + minimumRequestIntervalMs options - w.now)
  if 0 < waitMs then { w with sleepsUntil := some (w.now + waitMs) } else w.grant i rest

/-- **One step.** -/
def step (w : World) : Label → Option World
  | .request i validUrl =>
    match w.phase i with
    | .idle => some (w.request options i validUrl)
    | _ => none
  | .begin =>
    match w.queue, w.sleepsUntil with
    | i :: rest, none => some (w.begin options i rest)
    | _, _ => none
  | .wake =>
    match w.queue, w.sleepsUntil with
    | i :: rest, some wakesAt => if wakesAt ≤ w.now then some (w.grant i rest) else none
    | _, _ => none
  | .slotFails random =>
    match w.queue with
    | i :: rest =>
      match w.phase i with
      | .waiting attempt =>
        some ({ w with queue := rest, sleepsUntil := none }.fail options i attempt true none random)
      | _ => none
    | [] => none
  | .fetch i =>
    match w.phase i with
    | .waiting attempt =>
      if i ∈ w.granted then
        some { w.setPhase i (.fetching attempt) with
          granted := w.granted.erase i
          fetches := w.now :: w.fetches }
      else none
    | _ => none
  | .respond i outcome random =>
    match w.phase i with
    | .fetching attempt =>
      match outcome with
      | .success =>
        some { w.setPhase i .done with consecutiveFailures := 0, circuitOpenedAt := none }
      | .failure retryable retryAfterMs =>
        some (w.fail options i attempt retryable retryAfterMs random)
    | _ => none
  | .retry i =>
    match w.phase i with
    | .retrying attempt wakesAt =>
      if wakesAt ≤ w.now then some (w.enqueue i (attempt + 1)) else none
    | _ => none
  | .backoffFails i =>
    match w.phase i with
    | .retrying _ _ => some (w.setPhase i .done)
    | _ => none
  | .tick later => if w.now ≤ later ∧ w.granted = [] then some { w with now := later } else none

/-- A new client. -/
structure Initial (w : World) : Prop where
  now : 0 ≤ w.now
  lastRequestAt : w.lastRequestAt = 0
  queue : w.queue = []
  sleepsUntil : w.sleepsUntil = none
  granted : w.granted = []
  idle : ∀ i, w.phase i = .idle
  grants : w.grants = []
  fetches : w.fetches = []

end World

def httpClient : Machine World Label where
  Init := World.Initial
  step := World.step options

/-! ## What is claimed -/

/-- The steps of the chain and of the clock, and the fetches of calls that have
their slot: no call's answer, failure or retry. -/
def Label.OfTheChain : Label → Prop
  | .begin | .wake | .fetch _ | .tick _ => True
  | _ => False

/-- **Requests are spaced**, in a window there are no more of them than
intervals and one, and no call waits for another's answer: those in the chain
keep their order up to the head, and each gets its slot by the chain alone, the
one at place `k` within `k + 1` intervals. -/
structure Spaced (w : World) : Prop where
  grants : SpacedBy (minimumRequestIntervalMs options) w.grants
  fetches : ∀ start length, 0 ≤ length →
    grantsIn w.fetches start (start + length) ≤
      ⌊length / minimumRequestIntervalMs options⌋₊ + 1
  kept : ∀ label next, w.step options label = some next →
    (∃ added, next.queue = w.queue ++ added) ∨ ∃ i, w.queue = i :: next.queue
  served : ∀ (k i : ℕ), w.queue[k]? = some i →
    ∃ labels, (∀ label ∈ labels, label.OfTheChain) ∧
      ∃ later, (httpClient options).exec w labels = some later ∧ i ∈ later.granted ∧
        later.now ≤ w.now + (k + 1) * minimumRequestIntervalMs options

/-! ## The invariant -/

/-- **The chain's account**: a head that sleeps wakes when the interval is
over; the grants are spaced and behind the last one; what is granted without a
fetch is one call at most, of this moment. -/
structure Invariant (w : World) : Prop where
  past : w.lastRequestAt ≤ w.now
  sleeping : ∀ wakesAt ∈ w.sleepsUntil,
    wakesAt = w.lastRequestAt + minimumRequestIntervalMs options
  spaced : SpacedBy (minimumRequestIntervalMs options) w.grants
  last : ∀ t ∈ w.grants, t ≤ w.lastRequestAt
  granted : (w.granted = [] ∧ w.fetches = w.grants) ∨
    ∃ i, w.granted = [i] ∧ w.grants = w.now :: w.fetches ∧ w.lastRequestAt = w.now
  waiting : ∀ i ∈ w.queue ++ w.granted, ∃ attempt, w.phase i = .waiting attempt
  nodup : (w.queue ++ w.granted).Nodup

variable {options} {w next : World} {i j : ℕ} {phase : Phase}

theorem minimumRequestIntervalMs_pos : 0 < minimumRequestIntervalMs options :=
  div_pos (by norm_num) options.requestsPerSecond_pos

theorem invariant_of_initial (h : w.Initial) : Invariant options w where
  past := h.lastRequestAt.trans_le h.now
  sleeping wakesAt hwakes := by
    rw [h.sleepsUntil] at hwakes
    cases hwakes
  spaced := by
    rw [h.grants]
    exact List.Pairwise.nil
  last t ht := by
    rw [h.grants] at ht
    cases ht
  granted := .inl ⟨h.granted, h.fetches.trans h.grants.symm⟩
  waiting i hi := by
    rw [h.queue, h.granted] at hi
    cases hi
  nodup := by
    rw [h.queue, h.granted]
    exact List.nodup_nil

/-- All but the calls' phases and the circuit is the same. -/
structure SameChain (w next : World) : Prop where
  now : next.now = w.now
  lastRequestAt : next.lastRequestAt = w.lastRequestAt
  queue : next.queue = w.queue
  sleepsUntil : next.sleepsUntil = w.sleepsUntil
  granted : next.granted = w.granted
  grants : next.grants = w.grants
  fetches : next.fetches = w.fetches

theorem phase_setPhase (w : World) (i : ℕ) (phase : Phase) (j : ℕ) :
    (w.setPhase i phase).phase j = if j = i then phase else w.phase j :=
  Function.update_apply ..

theorem sameChain_setPhase : SameChain w (w.setPhase i phase) := ⟨rfl, rfl, rfl, rfl, rfl, rfl, rfl⟩

theorem sameChain_fail (attempt : ℕ) (retryable : Bool) (retryAfterMs : Option ℚ) (random : ℚ) :
    SameChain w (w.fail options i attempt retryable retryAfterMs random) := by
  unfold World.fail
  split
  · exact ⟨rfl, rfl, rfl, rfl, rfl, rfl, rfl⟩
  · exact sameChain_setPhase

theorem phase_fail (attempt : ℕ) (retryable : Bool) (retryAfterMs : Option ℚ) (random : ℚ)
    (hne : j ≠ i) :
    (w.fail options i attempt retryable retryAfterMs random).phase j = w.phase j := by
  unfold World.fail
  split
  · exact Function.update_of_ne hne ..
  · exact Function.update_of_ne hne ..

/-- What leaves the chain alone keeps the account, if no waiting call is
touched. -/
theorem Invariant.sameChain (h : Invariant options w) (hsame : SameChain w next)
    (hphase : ∀ j ∈ w.queue ++ w.granted, next.phase j = w.phase j) : Invariant options next := by
  obtain ⟨hnow, hlast, hqueue, hsleeps, hgranted, hgrants, hfetches⟩ := hsame
  constructor
  · rw [hlast, hnow]
    exact h.past
  · rw [hsleeps, hlast]
    exact h.sleeping
  · rw [hgrants]
    exact h.spaced
  · rw [hgrants, hlast]
    exact h.last
  · rw [hgranted, hfetches, hgrants, hnow, hlast]
    exact h.granted
  · rw [hqueue, hgranted]
    intro j hj
    rw [hphase j hj]
    exact h.waiting j hj
  · rw [hqueue, hgranted]
    exact h.nodup

/-- A call that is not waiting is not in the chain. -/
theorem Invariant.ne_of_mem (h : Invariant options w)
    (hphase : ∀ attempt, w.phase i ≠ .waiting attempt) (hj : j ∈ w.queue ++ w.granted) : j ≠ i := by
  rintro rfl
  obtain ⟨attempt, hwaiting⟩ := h.waiting j hj
  exact hphase attempt hwaiting

theorem Invariant.setPhase (h : Invariant options w)
    (hphase : ∀ attempt, w.phase i ≠ .waiting attempt) :
    Invariant options (w.setPhase i phase) :=
  h.sameChain sameChain_setPhase fun j hj => by
    rw [phase_setPhase, if_neg (h.ne_of_mem hphase hj)]

theorem Invariant.fail (h : Invariant options w)
    (hphase : ∀ attempt, w.phase i ≠ .waiting attempt) (attempt : ℕ) (retryable : Bool)
    (retryAfterMs : Option ℚ) (random : ℚ) :
    Invariant options (w.fail options i attempt retryable retryAfterMs random) :=
  h.sameChain (sameChain_fail ..) fun _ hj => phase_fail _ _ _ _ (h.ne_of_mem hphase hj)

theorem Invariant.enqueue (h : Invariant options w)
    (hphase : ∀ attempt, w.phase i ≠ .waiting attempt) (attempt : ℕ) :
    Invariant options (w.enqueue i attempt) := by
  have hnotin : i ∉ w.queue ++ w.granted := fun hi => h.ne_of_mem hphase hi rfl
  have hperm : (w.queue ++ [i] ++ w.granted).Perm (i :: (w.queue ++ w.granted)) := by
    rw [List.append_assoc]
    exact List.perm_middle
  refine { h with waiting := fun j hj => ?_, nodup := ?_ }
  · show ∃ given, (w.setPhase i (.waiting attempt)).phase j = .waiting given
    rw [phase_setPhase]
    split
    · exact ⟨attempt, rfl⟩
    · rename_i hne
      rcases List.mem_cons.mp (hperm.mem_iff.mp hj) with rfl | hj
      · exact absurd rfl hne
      · exact h.waiting j hj
  · exact hperm.nodup_iff.mpr (List.nodup_cons.mpr ⟨hnotin, h.nodup⟩)

/-! ## The chain's own steps -/

/-- **A grant an interval after the last one** keeps the account. -/
theorem Invariant.grant (h : Invariant options w) {rest : List ℕ} (hqueue : w.queue = i :: rest)
    (hnow : w.lastRequestAt + minimumRequestIntervalMs options ≤ w.now) :
    Invariant options (w.grant i rest) := by
  have hinterval := @minimumRequestIntervalMs_pos options
  have hnone : w.granted = [] ∧ w.fetches = w.grants := by
    rcases h.granted with hnone | ⟨_, -, -, hlast⟩
    · exact hnone
    · exact absurd hnow (not_le.mpr (by linarith))
  have hperm : (rest ++ (w.granted ++ [i])).Perm (w.queue ++ w.granted) := by
    rw [hqueue, hnone.1, List.append_nil, List.nil_append]
    exact List.perm_append_singleton i rest
  constructor
  · exact le_refl w.now
  · nofun
  · exact h.spaced.cons h.last hnow
  · intro t ht
    rcases List.mem_cons.mp ht with rfl | ht
    · exact le_refl _
    · exact (h.last t ht).trans h.past
  · refine .inr ⟨i, ?_, ?_, rfl⟩
    · show w.granted ++ [i] = [i]
      rw [hnone.1, List.nil_append]
    · show w.now :: w.grants = w.now :: w.fetches
      rw [hnone.2]
  · exact fun j hj => h.waiting j (hperm.mem_iff.mp hj)
  · exact hperm.nodup_iff.mpr h.nodup

theorem Invariant.begin (h : Invariant options w) {rest : List ℕ} (hqueue : w.queue = i :: rest) :
    Invariant options (w.begin options i rest) := by
  unfold World.begin
  dsimp only
  split
  · rename_i hwait
    have hlong : 0 < w.lastRequestAt + minimumRequestIntervalMs options - w.now := by
      rcases lt_max_iff.mp hwait with hzero | hlong
      · exact absurd hzero (lt_irrefl 0)
      · exact hlong
    refine { h with sleeping := ?_ }
    rintro wakesAt ⟨⟩
    rw [max_eq_right hlong.le]
    ring
  · rename_i hwait
    refine h.grant hqueue ?_
    have hle := (max_le_iff.mp (not_lt.mp hwait)).2
    linarith

theorem Invariant.wake (h : Invariant options w) {rest : List ℕ} (hqueue : w.queue = i :: rest)
    {wakesAt : ℚ} (hsleeps : w.sleepsUntil = some wakesAt) (hnow : wakesAt ≤ w.now) :
    Invariant options (w.grant i rest) :=
  h.grant hqueue (h.sleeping wakesAt hsleeps ▸ hnow)

/-- **A head that fails** leaves its place to the next one. -/
theorem Invariant.slotFails (h : Invariant options w) {rest : List ℕ}
    (hqueue : w.queue = i :: rest) (attempt : ℕ) (random : ℚ) :
    Invariant options
      ({ w with queue := rest, sleepsUntil := none }.fail options i attempt true none random) := by
  have hmem : ∀ j ∈ rest ++ w.granted, j ∈ w.queue ++ w.granted := by
    intro j hj
    rw [hqueue]
    exact List.mem_cons_of_mem i hj
  have hnodup := h.nodup
  rw [hqueue, List.cons_append, List.nodup_cons] at hnodup
  have hpopped : Invariant options { w with queue := rest, sleepsUntil := none } :=
    { h with
      sleeping := nofun
      waiting := fun j hj => h.waiting j (hmem j hj)
      nodup := hnodup.2 }
  refine hpopped.sameChain (sameChain_fail ..) fun j hj => phase_fail _ _ _ _ ?_
  rintro rfl
  exact hnodup.1 hj

theorem Invariant.fetch (h : Invariant options w) (attempt : ℕ) (hi : i ∈ w.granted) :
    Invariant options { w.setPhase i (.fetching attempt) with
      granted := w.granted.erase i
      fetches := w.now :: w.fetches } := by
  rcases h.granted with ⟨hnone, -⟩ | ⟨j, hone, hgrants, -⟩
  · rw [hnone] at hi
    cases hi
  · rw [hone, List.mem_singleton] at hi
    subst hi
    have hnodup := h.nodup
    rw [hone, List.nodup_append] at hnodup
    have herase : w.granted.erase i = [] := by
      rw [hone, List.erase_cons_head]
    refine { h with granted := .inl ⟨herase, hgrants.symm⟩, waiting := ?_, nodup := ?_ }
    · intro j hj
      rw [herase, List.append_nil] at hj
      have hne : j ≠ i := fun heq => hnodup.2.2 j hj i (List.mem_singleton_self i) heq
      show ∃ given, (w.setPhase i (.fetching attempt)).phase j = .waiting given
      rw [phase_setPhase, if_neg hne]
      exact h.waiting j (List.mem_append_left _ hj)
    · show (w.queue ++ w.granted.erase i).Nodup
      rw [herase, List.append_nil]
      exact hnodup.1

theorem Invariant.tick (h : Invariant options w) {later : ℚ} (hle : w.now ≤ later)
    (hnone : w.granted = []) : Invariant options { w with now := later } := by
  refine { h with past := h.past.trans hle, granted := ?_ }
  rcases h.granted with hkeep | ⟨_, hone, -⟩
  · exact .inl hkeep
  · rw [hnone] at hone
    cases hone

/-! ## Every step -/

theorem Invariant.request (h : Invariant options w) (hphase : w.phase i = .idle)
    (validUrl : Bool) : Invariant options (w.request options i validUrl) := by
  have hidle : ∀ attempt, w.phase i ≠ .waiting attempt := by
    intro attempt
    rw [hphase]
    nofun
  have hreset : Invariant options { w with circuitOpenedAt := none } := { h with }
  unfold World.request
  split
  · split
    · split
      · exact hreset.enqueue hidle 1
      · exact hreset.fail hidle 1 false none 0
    · exact h.setPhase hidle
  · split
    · exact h.enqueue hidle 1
    · exact h.fail hidle 1 false none 0

/-- **Every step keeps the account.** -/
theorem Invariant.step {label : Label} (h : Invariant options w)
    (hstep : w.step options label = some next) : Invariant options next := by
  cases label with
  | request i validUrl =>
    simp only [World.step] at hstep
    split at hstep
    · rename_i hphase
      cases hstep
      exact h.request hphase validUrl
    · cases hstep
  | begin =>
    simp only [World.step] at hstep
    split at hstep
    · rename_i hqueue hsleeps
      cases hstep
      exact h.begin hqueue
    · cases hstep
  | wake =>
    simp only [World.step] at hstep
    split at hstep
    · rename_i hqueue hsleeps
      split at hstep
      · rename_i hnow
        cases hstep
        exact h.wake hqueue hsleeps hnow
      · cases hstep
    · cases hstep
  | slotFails random =>
    simp only [World.step] at hstep
    split at hstep
    · rename_i hqueue
      split at hstep
      · cases hstep
        exact h.slotFails hqueue _ random
      · cases hstep
    · cases hstep
  | fetch i =>
    simp only [World.step] at hstep
    split at hstep
    · split at hstep
      · cases hstep
        exact h.fetch _ ‹_›
      · cases hstep
    · cases hstep
  | respond i outcome random =>
    simp only [World.step] at hstep
    split at hstep
    · rename_i hphase
      have hfetching : ∀ attempt, w.phase i ≠ .waiting attempt := by
        intro attempt
        rw [hphase]
        nofun
      split at hstep
      · cases hstep
        exact (h.setPhase hfetching).sameChain ⟨rfl, rfl, rfl, rfl, rfl, rfl, rfl⟩ fun _ _ => rfl
      · cases hstep
        exact h.fail hfetching _ _ _ _
    · cases hstep
  | retry i =>
    simp only [World.step] at hstep
    split at hstep
    · rename_i hphase
      split at hstep
      · cases hstep
        refine h.enqueue (fun attempt => ?_) _
        rw [hphase]
        nofun
      · cases hstep
    · cases hstep
  | backoffFails i =>
    simp only [World.step] at hstep
    split at hstep
    · rename_i hphase
      cases hstep
      refine h.setPhase fun attempt => ?_
      rw [hphase]
      nofun
    · cases hstep
  | tick later =>
    simp only [World.step] at hstep
    split at hstep
    · rename_i hnow
      cases hstep
      exact h.tick hnow.1 hnow.2
    · cases hstep

theorem queue_request (w : World) (i : ℕ) (validUrl : Bool) :
    ∃ added, (w.request options i validUrl).queue = w.queue ++ added := by
  have hsame : ∀ v : World, v.queue = w.queue → ∃ added,
      (v.fail options i 1 false none 0).queue = w.queue ++ added := by
    intro v hv
    refine ⟨[], ?_⟩
    rw [(sameChain_fail 1 false none 0).queue, hv, List.append_nil]
  unfold World.request
  split
  · split
    · split
      · exact ⟨[i], rfl⟩
      · exact hsame _ rfl
    · exact ⟨[], (List.append_nil _).symm⟩
  · split
    · exact ⟨[i], rfl⟩
    · exact hsame _ rfl

/-- **A step adds calls behind the chain, or takes its head.** -/
theorem queue_step {label : Label} (hstep : w.step options label = some next) :
    (∃ added, next.queue = w.queue ++ added) ∨ ∃ i, w.queue = i :: next.queue := by
  have hsame : next.queue = w.queue → (∃ added, next.queue = w.queue ++ added) ∨
      ∃ i, w.queue = i :: next.queue := fun h => .inl ⟨[], by rw [h, List.append_nil]⟩
  cases label with
  | request i validUrl =>
    simp only [World.step] at hstep
    split at hstep
    · cases hstep
      exact .inl (queue_request w i validUrl)
    · cases hstep
  | begin =>
    simp only [World.step] at hstep
    split at hstep
    · rename_i hqueue hsleeps
      cases hstep
      unfold World.begin at hsame ⊢
      dsimp only at hsame ⊢
      split
      · exact .inl ⟨[], (List.append_nil _).symm⟩
      · exact .inr ⟨_, hqueue⟩
    · cases hstep
  | wake =>
    simp only [World.step] at hstep
    split at hstep
    · rename_i hqueue hsleeps
      split at hstep
      · cases hstep
        exact .inr ⟨_, hqueue⟩
      · cases hstep
    · cases hstep
  | slotFails random =>
    simp only [World.step] at hstep
    split at hstep
    · rename_i hqueue
      split at hstep
      · cases hstep
        rw [(sameChain_fail _ true none random).queue]
        exact .inr ⟨_, hqueue⟩
      · cases hstep
    · cases hstep
  | fetch i =>
    simp only [World.step] at hstep
    split at hstep
    · split at hstep
      · cases hstep
        exact hsame rfl
      · cases hstep
    · cases hstep
  | respond i outcome random =>
    simp only [World.step] at hstep
    split at hstep
    · split at hstep
      · cases hstep
        exact hsame rfl
      · cases hstep
        exact hsame (sameChain_fail ..).queue
    · cases hstep
  | retry i =>
    simp only [World.step] at hstep
    split at hstep
    · split at hstep
      · cases hstep
        exact .inl ⟨[i], rfl⟩
      · cases hstep
    · cases hstep
  | backoffFails i =>
    simp only [World.step] at hstep
    split at hstep
    · cases hstep
      exact hsame rfl
    · cases hstep
  | tick later =>
    simp only [World.step] at hstep
    split at hstep
    · cases hstep
      exact hsame rfl
    · cases hstep

/-! ## Every call in the chain is served -/

variable (options) in
/-- The chain alone leads from a state to another. -/
def ByTheChain (w later : World) : Prop :=
  ∃ labels, (∀ label ∈ labels, label.OfTheChain) ∧
    (httpClient options).exec w labels = some later

theorem ByTheChain.refl : ByTheChain options w w := ⟨[], List.forall_mem_nil _, rfl⟩

theorem ByTheChain.trans {later last : World} (h : ByTheChain options w later)
    (h' : ByTheChain options later last) : ByTheChain options w last := by
  obtain ⟨labels, hown, hexec⟩ := h
  obtain ⟨labels', hown', hexec'⟩ := h'
  refine ⟨labels ++ labels', fun label hlabel => ?_, ?_⟩
  · rcases List.mem_append.mp hlabel with hlabel | hlabel
    · exact hown label hlabel
    · exact hown' label hlabel
  · rw [Machine.exec_append, hexec, Option.bind_some, hexec']

theorem ByTheChain.single (label : Label) (hown : label.OfTheChain)
    (hstep : w.step options label = some next) : ByTheChain options w next :=
  ⟨[label], fun _ h => List.mem_singleton.mp h ▸ hown, by
    show ((w.step options label).bind fun later => some later) = some next
    rw [hstep, Option.bind_some]⟩

/-- A call that has its slot fetches at once. -/
theorem Invariant.exists_drained (h : Invariant options w) :
    ∃ later, ByTheChain options w later ∧ Invariant options later ∧ later.granted = [] ∧
      later.queue = w.queue ∧ later.sleepsUntil = w.sleepsUntil ∧ later.now = w.now := by
  rcases h.granted with ⟨hnone, -⟩ | ⟨i, hone, -⟩
  · exact ⟨w, .refl, h, hnone, rfl, rfl, rfl⟩
  · have hi : i ∈ w.granted := hone ▸ List.mem_singleton_self i
    obtain ⟨attempt, hphase⟩ := h.waiting i (List.mem_append_right _ hi)
    have hstep : w.step options (.fetch i) = some { w.setPhase i (.fetching attempt) with
        granted := w.granted.erase i
        fetches := w.now :: w.fetches } := by
      simp only [World.step, hphase, if_pos hi]
    refine ⟨_, .single (.fetch i) trivial hstep, h.step hstep, ?_, rfl, rfl, rfl⟩
    show w.granted.erase i = []
    rw [hone, List.erase_cons_head]

/-- A head that sleeps takes its slot when the interval is over. -/
theorem Invariant.exists_woken (h : Invariant options w) {rest : List ℕ}
    (hqueue : w.queue = i :: rest) {wakesAt : ℚ} (hsleeps : w.sleepsUntil = some wakesAt)
    (hnone : w.granted = []) :
    ∃ later, ByTheChain options w later ∧ Invariant options later ∧ later.queue = rest ∧
      i ∈ later.granted ∧ later.now ≤ w.now + minimumRequestIntervalMs options := by
  have hwakes := h.sleeping wakesAt hsleeps
  have hpast := h.past
  have hinterval := @minimumRequestIntervalMs_pos options
  have htick : w.step options (.tick (max w.now wakesAt)) =
      some { w with now := max w.now wakesAt } := if_pos ⟨le_max_left _ _, hnone⟩
  have hticked := h.step htick
  have hwake : World.step options { w with now := max w.now wakesAt } .wake =
      some (World.grant { w with now := max w.now wakesAt } i rest) := by
    simp only [World.step, hqueue, hsleeps]
    exact if_pos (le_max_right _ _)
  have hchain : ByTheChain options w _ :=
    (ByTheChain.single (.tick _) trivial htick).trans (.single .wake trivial hwake)
  refine ⟨_, hchain, hticked.step hwake, rfl, ?_, ?_⟩
  · exact List.mem_append_right _ (List.mem_singleton_self i)
  · show max w.now wakesAt ≤ w.now + minimumRequestIntervalMs options
    exact max_le (by linarith) (by linarith)

/-- **The head of the chain is served** within an interval. -/
theorem Invariant.exists_served (h : Invariant options w) {rest : List ℕ}
    (hqueue : w.queue = i :: rest) :
    ∃ later, ByTheChain options w later ∧ Invariant options later ∧ later.queue = rest ∧
      i ∈ later.granted ∧ later.now ≤ w.now + minimumRequestIntervalMs options := by
  obtain ⟨v, hchain, hv, hnone, hsame, -, hnow⟩ := h.exists_drained
  have hvqueue : v.queue = i :: rest := hsame.trans hqueue
  rw [← hnow]
  cases hsleeps : v.sleepsUntil with
  | some wakesAt =>
    obtain ⟨later, hwoken, hlater⟩ := hv.exists_woken hvqueue hsleeps hnone
    exact ⟨later, hchain.trans hwoken, hlater⟩
  | none =>
    have hbegin : v.step options .begin = some (v.begin options i rest) := by
      simp only [World.step, hvqueue, hsleeps]
    have hbegun := hv.step hbegin
    have hinterval := @minimumRequestIntervalMs_pos options
    by_cases hwait :
        0 < max 0 (v.lastRequestAt + minimumRequestIntervalMs options - v.now)
    · have hsleep : ∃ wakesAt, v.begin options i rest = { v with sleepsUntil := some wakesAt } :=
        ⟨_, if_pos hwait⟩
      obtain ⟨wakesAt, hsleep⟩ := hsleep
      rw [hsleep] at hbegin hbegun
      obtain ⟨later, hwoken, hlater⟩ := hbegun.exists_woken hvqueue rfl hnone
      have hslept := ByTheChain.single .begin trivial hbegin
      exact ⟨later, hchain.trans (hslept.trans hwoken), hlater⟩
    · have hgrant : v.begin options i rest = v.grant i rest := if_neg hwait
      rw [hgrant] at hbegin hbegun
      refine ⟨_, hchain.trans (.single .begin trivial hbegin), hbegun, rfl, ?_, ?_⟩
      · exact List.mem_append_right _ (List.mem_singleton_self i)
      · show v.now ≤ v.now + minimumRequestIntervalMs options
        linarith

/-- **So is every call in it**, an interval for each place. -/
theorem Invariant.served (h : Invariant options w) (k : ℕ) (hk : w.queue[k]? = some i) :
    ∃ later, ByTheChain options w later ∧ i ∈ later.granted ∧
      later.now ≤ w.now + (k + 1) * minimumRequestIntervalMs options := by
  induction k generalizing w with
  | zero =>
    cases hqueue : w.queue with
    | nil =>
      rw [hqueue] at hk
      cases hk
    | cons j rest =>
      rw [hqueue] at hk
      obtain rfl := Option.some.inj hk
      obtain ⟨later, hchain, -, -, hgranted, hnow⟩ := h.exists_served hqueue
      refine ⟨later, hchain, hgranted, ?_⟩
      rw [Nat.cast_zero, zero_add, one_mul]
      exact hnow
  | succ k ih =>
    cases hqueue : w.queue with
    | nil =>
      rw [hqueue] at hk
      cases hk
    | cons j rest =>
      obtain ⟨v, hchain, hv, hrest, -, hnow⟩ := h.exists_served hqueue
      have hplace : v.queue[k]? = some i := by
        rw [hrest, ← hk, hqueue, List.getElem?_cons_succ]
      obtain ⟨later, hlater, hgranted, hbound⟩ := ih hv hplace
      refine ⟨later, hchain.trans hlater, hgranted, ?_⟩
      rw [Nat.cast_succ]
      linarith

/-- Five requests a second, and the other defaults. -/
def fiveASecond : ProviderHttpClientOptions where
  maximumAttempts := 3
  retryBaseDelayMs := 250
  requestsPerSecond := 5
  circuitFailureThreshold := 5
  circuitResetMs := 30000
  maximumAttempts_pos := by norm_num
  retryBaseDelayMs_nonneg := by norm_num
  requestsPerSecond_pos := by norm_num
  circuitFailureThreshold_pos := by norm_num
  circuitResetMs_pos := by norm_num

/-- A new client, a second after the epoch. -/
def newClient : World where
  now := 1000
  lastRequestAt := 0
  queue := []
  sleepsUntil := none
  granted := []
  phase _ := .idle
  consecutiveFailures := 0
  circuitOpenedAt := none
  grants := []
  fetches := []

theorem initial_newClient : newClient.Initial where
  now := by norm_num [newClient]
  lastRequestAt := rfl
  queue := rfl
  sleepsUntil := rfl
  granted := rfl
  idle _ := rfl
  grants := rfl
  fetches := rfl

/-- Two calls at once: the second sleeps. -/
def twoCalls : List Label :=
  [.request 0 true, .request 1 true, .begin, .fetch 0, .begin, .tick 1200, .wake]

theorem exec_twoCalls : ∃ w, (httpClient fiveASecond).exec newClient twoCalls = some w ∧
    w.grants = [1200, 1000] := by
  have hinterval : minimumRequestIntervalMs fiveASecond = 200 := by
    norm_num [minimumRequestIntervalMs, fiveASecond]
  norm_num [twoCalls, httpClient, Machine.exec, World.step, World.request, World.enqueue,
    World.setPhase, World.begin, World.grant, newClient, hinterval]

end ProviderHttpClient

end HoodSentry
