import HoodSentry.Risk.Model.Simulation
import Mathlib.Data.List.Basic
/-!
# Honeypot verdicts and the chain

`execute` reverts to its own snapshot, so where the endpoint answers, every
request of a batch runs on the state the fork was started from
(`mined_on_base`): the sell is never tried after its buy. And every
exception of `execute` becomes a result without success, as a revert does.
The finding therefore needs nothing from the chain but a buy that can
succeed (`honeypotFromChain_iff`).

What a request can do is said once (`execute_state`, `execute_mined`,
`execute_success`), and what is recorded in a run is read off a split of the
batch (`mem_history`).
-/

namespace HoodSentry

namespace Simulation

variable {S : Type} {fork : Fork S} {configuration : ForkConfiguration}

/-- The probes of a request, as far as the fork can read them. -/
def Readable (fork : Fork S) (state : S) (request : SimulationRequest) : Prop :=
  ∀ call ∈ request.probes, ∃ value, fork.read state call = .ok value

/-! ## What one request can do -/

theorem readAll_readable {state : S} {faults : ℕ → Option String} {calls : List ReadCall} {i : ℕ}
    {values : List ℕ} (h : readAll fork state faults i calls = .ok values) :
    ∀ call ∈ calls, ∃ value, fork.read state call = .ok value := by
  induction calls generalizing i values with
  | nil => simp
  | cons call calls ih =>
    intro c hc
    rw [readAll] at h
    split at h
    · cases h
    · split at h
      · cases h
      · rename_i value hvalue
        split at h
        · cases h
        · rename_i rest hrest
          rcases List.mem_cons.mp hc with rfl | hc
          · exact ⟨value, hvalue⟩
          · exact ih hrest c hc

theorem readAll_of_readable {state : S} {calls : List ReadCall} (i : ℕ)
    (h : ∀ call ∈ calls, ∃ value, fork.read state call = .ok value) :
    ∃ values, readAll fork state (fun _ => none) i calls = .ok values := by
  induction calls generalizing i with
  | nil => exact ⟨[], rfl⟩
  | cons call calls ih =>
    obtain ⟨value, hvalue⟩ := h call (List.mem_cons_self ..)
    obtain ⟨values, hvalues⟩ := ih (i + 1) fun c hc => h c (List.mem_cons_of_mem _ hc)
    exact ⟨value :: values, by simp only [readAll, hvalue, hvalues]⟩

/-- The attempt leaves the state, or has mined the transaction on it after
its probes were read. -/
theorem attempt_cases (request : SimulationRequest) (faults : Faults) (state : S) :
    ((attempt fork request faults state).state = state ∧
      (attempt fork request faults state).mined = none ∧
      ∃ message, (attempt fork request faults state).outcome = .error message) ∨
    Readable fork state request ∧ ∃ outcome : Except String SimulationResult,
      attempt fork request faults state = mine fork request state outcome ∧
      ∀ result, outcome = .ok result → ∃ before,
        receive fork request faults before (fork.transact state request.transaction).1
          (fork.transact state request.transaction).2 = .ok result := by
  unfold attempt
  split
  · rename_i message _
    exact .inl ⟨rfl, rfl, message, rfl⟩
  · rename_i before hbefore
    have hread : Readable fork state request := readAll_readable hbefore
    split
    · rename_i message _
      exact .inl ⟨rfl, rfl, message, rfl⟩
    · exact .inr ⟨hread, _, rfl, fun _ h => by cases h⟩
    · exact .inr ⟨hread, _, rfl, fun _ h => ⟨before, h⟩⟩

variable (fork) in
theorem execute_state (request : SimulationRequest) (faults : Faults) (state : S) :
    (execute fork request faults state).state = state ∨
      Readable fork state request ∧
        (execute fork request faults state).state =
          (fork.transact state request.transaction).1 := by
  unfold execute
  split
  · exact .inl rfl
  · dsimp only
    split
    · exact .inl rfl
    · exact .inl rfl
    · rcases attempt_cases request faults state with ⟨h, -, -⟩ | ⟨hread, _, h, -⟩
      · exact .inl h
      · exact .inr ⟨hread, by rw [h, mine]⟩

/-- A transaction is mined on the state its request found. -/
theorem execute_mined {request : SimulationRequest} {faults : Faults} {state : S} {m : Mined S}
    (h : (execute fork request faults state).mined = some m) :
    m = ⟨state, (fork.transact state request.transaction).2⟩ := by
  have hattempt : (attempt fork request faults state).mined = some m := by
    unfold execute at h
    split at h
    · cases h
    · dsimp only at h
      split at h <;> exact h
  rcases attempt_cases request faults state with ⟨-, hnone, -⟩ | ⟨-, _, hmine, -⟩
  · rw [hnone] at hattempt
    cases hattempt
  · rw [hmine] at hattempt
    exact (Option.some.inj hattempt).symm

/-- Without a revert that is lost, a request leaves the state it found. -/
theorem execute_state_of_revert {request : SimulationRequest} {faults : Faults} {state : S}
    (h : faults.revert = none) : (execute fork request faults state).state = state := by
  unfold execute
  split
  · rfl
  · simp only [h]

theorem pollReceipt_true {replies : ℕ → PollReply} {success : Bool} {attempts attempt : ℕ}
    (h : pollReceipt replies success attempts attempt = .ok true) : success = true := by
  induction attempts generalizing attempt with
  | zero => cases h
  | succ attempts ih =>
    rw [pollReceipt] at h
    split at h
    · exact ih h
    · cases h
    · cases h
    · exact Except.ok.inj h

/-- **A success is a success of the fork**: the transaction was mined and
succeeded, and its probes were read before and after. -/
theorem execute_success {request : SimulationRequest} {faults : Faults} {state : S}
    {result : SimulationResult}
    (h : (execute fork request faults state).outcome = .ok result) (hsuccess : result.success) :
    Readable fork state request ∧ (fork.transact state request.transaction).2 = true ∧
      Readable fork (fork.transact state request.transaction).1 request := by
  have hattempt : (attempt fork request faults state).outcome = .ok result := by
    unfold execute at h
    split at h
    · cases h
    · dsimp only at h
      split at h
      · -- the catch block's result has no success, so the attempt's own is meant
        cases htried : (attempt fork request faults state).outcome with
        | error message =>
          rw [htried] at h
          cases Except.ok.inj h
          cases hsuccess
        | ok tried =>
          rw [htried] at h
          exact congrArg Except.ok (Except.ok.inj h)
      · cases h
      · cases h
  rcases attempt_cases request faults state with ⟨-, -, message, herror⟩ | ⟨hread, _, hmine, hout⟩
  · rw [herror] at hattempt
    cases hattempt
  · rw [hmine] at hattempt
    obtain ⟨before, hreceive⟩ := hout result hattempt
    unfold receive at hreceive
    split at hreceive
    · cases hreceive
    · rename_i status hstatus
      split at hreceive
      · cases hreceive
      · rename_i hafter
        split at hreceive
        · cases hreceive
        · cases Except.ok.inj hreceive
          have hstatus' : status = true := hsuccess
          rw [hstatus'] at hstatus
          exact ⟨hread, pollReceipt_true hstatus, readAll_readable hafter⟩

/-! ## What a batch records -/

/-- **The states a later request can find**: each of the earlier ones may
have been left mined, its revert being lost. -/
inductive Reaches (fork : Fork S) (configuration : ForkConfiguration) :
    S → List SimulationRequest → S → Prop
  | nil (state : S) : Reaches fork configuration state [] state
  | skip {state final : S} {request : SimulationRequest} {rest : List SimulationRequest} :
      Reaches fork configuration state rest final →
      Reaches fork configuration state (request :: rest) final
  | stay {state final : S} {request : SimulationRequest} {rest : List SimulationRequest} :
      validateRequest request configuration = .ok () → Readable fork state request →
      Reaches fork configuration (fork.transact state request.transaction).1 rest final →
      Reaches fork configuration state (request :: rest) final

variable (fork configuration) in
theorem simulate_state (request : SimulationRequest) (circumstances : Circumstances) (state : S) :
    (simulate fork configuration request circumstances state).state = state ∨
      validateRequest request configuration = .ok () ∧ Readable fork state request ∧
        (simulate fork configuration request circumstances state).state =
          (fork.transact state request.transaction).1 := by
  unfold simulate
  split
  · exact .inl rfl
  · rename_i hvalid
    rcases execute_state fork request circumstances.faults state with h | ⟨hread, h⟩
    · exact .inl h
    · exact .inr ⟨hvalid, hread, h⟩

theorem simulate_mined {request : SimulationRequest} {circumstances : Circumstances} {state : S}
    {m : Mined S} (h : (simulate fork configuration request circumstances state).mined = some m) :
    m = ⟨state, (fork.transact state request.transaction).2⟩ := by
  unfold simulate at h
  split at h
  · cases h
  · exact execute_mined h

/-- What is recorded is a valid request's, and its result is the executed
one's. -/
theorem simulate_recorded {request : SimulationRequest} {circumstances : Circumstances} {state : S}
    {execution : SimulationExecution}
    (h : (simulate fork configuration request circumstances state).outcome = .ok execution) :
    validateRequest request configuration = .ok () ∧ ∃ result,
      (execute fork request circumstances.faults state).outcome = .ok result ∧
      execution = executionOf request result := by
  unfold simulate at h
  split at h
  · cases h
  · rename_i hvalid
    dsimp only at h
    split at h
    · cases h
    · cases houtcome : (execute fork request circumstances.faults state).outcome with
      | error message =>
        rw [houtcome] at h
        cases h
      | ok result =>
        rw [houtcome] at h
        exact ⟨hvalid, result, rfl, (Except.ok.inj h).symm⟩

/-- **A run's history is read off a split of the batch.** Each entry is what
one request comes to, on a state the requests before it can leave. -/
theorem mem_history {g : Gathered S} {batch : List (SimulationRequest × Circumstances)}
    {settled : Settled S}
    (h : settled ∈ (simulateAll fork configuration g batch).history) :
    settled ∈ g.history ∨ ∃ before request circumstances after state,
      batch = before ++ (request, circumstances) :: after ∧
      Reaches fork configuration g.state (before.map (·.1)) state ∧
      settled = ⟨request, (simulate fork configuration request circumstances state).mined,
        (simulate fork configuration request circumstances state).outcome.toOption⟩ := by
  induction batch generalizing g with
  | nil => exact .inl h
  | cons head rest ih =>
    obtain ⟨request, circumstances⟩ := head
    rw [simulateAll] at h
    split at h
    · exact .inl h
    · rcases ih h with h | ⟨before, r, c, after, state, hbatch, hreaches, hsettled⟩
      · rw [Gathered.add, List.mem_append, List.mem_singleton] at h
        rcases h with h | rfl
        · exact .inl h
        · exact .inr ⟨[], request, circumstances, rest, g.state, rfl, .nil _, rfl⟩
      · refine .inr ⟨(request, circumstances) :: before, r, c, after, state,
          by rw [hbatch, List.cons_append], ?_, hsettled⟩
        rw [List.map_cons]
        rcases simulate_state fork configuration request
          circumstances g.state with hsame | ⟨hvalid, hread, hmined⟩
        · exact .skip (hsame ▸ hreaches)
        · exact .stay hvalid hread (hmined ▸ hreaches)

/-- **The finding's evidence is the chain's**: the two executions it names
are a buy's that was mined and succeeded on some state, and a sell's that
was mined on the state after that buy and reverted. -/
def FromChain (fork : Fork S) (history : List (Settled S))
    (evidence : List SimulationExecution) : Prop :=
  ∃ buy ∈ history, ∃ sell ∈ history,
    evidence = buy.recorded.toList ++ sell.recorded.toList ∧
    buy.request.action = .buy ∧ sell.request.action = .sell ∧
    buy.request.sender = sell.request.sender ∧
    ∃ state, buy.mined = some ⟨state, true⟩ ∧
      sell.mined = some ⟨(fork.transact state buy.request.transaction).1, false⟩

/-- Whatever befalls the calls of a batch, a honeypot finding in its result
is the chain's. -/
def HoneypotFromChain (fork : Fork S) (configuration : ForkConfiguration) (base : S)
    (requests : List SimulationRequest) : Prop :=
  ∀ batch : List (SimulationRequest × Circumstances), batch.map (·.1) = requests →
    ∀ blockHash result history,
      run fork configuration base blockHash batch = .ok (result, history) →
      ∀ f ∈ result.findings, f.code = .buySucceedsSellFails → FromChain fork history f.evidence

/-- The buy precedes the sell, and is the same sender's. -/
def BuyPrecedesSell (requests : List SimulationRequest) : Prop :=
  (requests.Pairwise fun p q => ¬ (p.action = .sell ∧ q.action = .buy)) ∧
    ∀ p ∈ requests, ∀ q ∈ requests, p.action = .buy → q.action = .sell → p.sender = q.sender

/-- A valid buy succeeds, its probes read before and after, on a state that
the requests before it can leave. -/
def BuyCanSucceed (fork : Fork S) (configuration : ForkConfiguration) (base : S)
    (requests : List SimulationRequest) : Prop :=
  ∃ before buy after state, requests = before ++ buy :: after ∧ buy.action = .buy ∧
    validateRequest buy configuration = .ok () ∧
    Reaches fork configuration base before state ∧ Readable fork state buy ∧
    (fork.transact state buy.transaction).2 = true ∧
    Readable fork (fork.transact state buy.transaction).1 buy

def HasValidSell (configuration : ForkConfiguration) (requests : List SimulationRequest) : Prop :=
  ∃ sell ∈ requests, sell.action = .sell ∧ validateRequest sell configuration = .ok ()

theorem mem_of_lastOf {executions : List SimulationExecution} {action : SimulationAction}
    {execution : SimulationExecution} (h : lastOf executions action = some execution) :
    execution ∈ executions ∧ execution.action = action := by
  have hmem := List.mem_of_getLast? h
  simpa only [List.mem_filter, decide_eq_true_eq] using hmem

theorem code_of_mem_ite {p : Prop} [Decidable p] {f g : SimulationFinding}
    (h : f ∈ if p then [g] else []) : f.code = g.code := by
  split at h
  · rw [List.mem_singleton.mp h]
  · cases h

theorem transferFindings_code {executions : List SimulationExecution} {f : SimulationFinding}
    (h : f ∈ transferFindings executions) : f.code = .ordinaryTransferFails := by
  obtain ⟨action, -, haction⟩ := List.mem_flatMap.mp h
  split at haction
  · exact code_of_mem_ite haction
  · cases haction

theorem executionFindings_code {execution : SimulationExecution} {f : SimulationFinding}
    (h : f ∈ executionFindings execution) :
    f.code = .unexpectedBalanceChange ∨ f.code = .quoteOutputDivergence := by
  rcases List.mem_append.mp h with hchange | hdiverges
  · exact .inl (code_of_mem_ite hchange)
  · split at hdiverges
    · exact .inr (code_of_mem_ite hdiverges)
    · cases hdiverges

/-- The honeypot finding is that of the last buy and the last sell. -/
theorem mem_honeypotFindings {executions : List SimulationExecution} {f : SimulationFinding}
    (h : f ∈ honeypotFindings executions) :
    ∃ buy sell, lastOf executions .buy = some buy ∧ lastOf executions .sell = some sell ∧
      buy.result.success = true ∧ f.evidence = [buy, sell] := by
  unfold honeypotFindings at h
  split at h
  · rename_i buy sell hbuy hsell
    split at h
    · rename_i hboth
      refine ⟨buy, sell, hbuy, hsell, hboth.1, ?_⟩
      rw [List.mem_singleton.mp h, finding]
    · cases h
  · cases h

/-- No other finding has its code. -/
theorem honeypot_of_mem {executions : List SimulationExecution} {f : SimulationFinding}
    (hf : f ∈ deriveFindings executions) (hcode : f.code = .buySucceedsSellFails) :
    f ∈ honeypotFindings executions := by
  simp only [deriveFindings, List.mem_append, List.mem_flatMap] at hf
  rcases hf with ((((h | h) | h) | h) | h) | ⟨execution, -, h⟩
  · exact h
  · rw [transferFindings_code h] at hcode
    cases hcode
  · rw [code_of_mem_ite h] at hcode
    cases hcode
  · rw [code_of_mem_ite h] at hcode
    cases hcode
  · rw [dependentTaxFindings] at h
    rw [code_of_mem_ite h] at hcode
    cases hcode
  · rcases executionFindings_code h with h | h <;> rw [h] at hcode <;> cases hcode

/-- What a run has recorded, in its history. -/
theorem recorded_cases {base : S} {batch : List (SimulationRequest × Circumstances)}
    {execution : SimulationExecution}
    (h : execution ∈ (simulateAll fork configuration ⟨base, [], [], false⟩ batch).executions) :
    ∃ before request circumstances after state result,
      batch = before ++ (request, circumstances) :: after ∧
      Reaches fork configuration base (before.map (·.1)) state ∧
      validateRequest request configuration = .ok () ∧
      (execute fork request circumstances.faults state).outcome = .ok result ∧
      execution = executionOf request result := by
  obtain ⟨settled, hsettled, hrecorded⟩ := List.mem_filterMap.mp h
  rcases mem_history hsettled with hnil | ⟨before, request, c, after, state, hbatch, hreaches, rfl⟩
  · cases hnil
  · cases houtcome : (simulate fork configuration request c state).outcome with
    | error message =>
      rw [houtcome] at hrecorded
      cases hrecorded
    | ok recorded =>
      rw [houtcome] at hrecorded
      cases Option.some.inj hrecorded
      obtain ⟨hvalid, result, hresult, heq⟩ := simulate_recorded houtcome
      exact ⟨before, request, c, after, state, result, hbatch, hreaches, hvalid, hresult, heq⟩

/-- A honeypot finding needs a buy that can succeed, and a valid sell. -/
theorem canSucceed_of_finding {base : S} {batch : List (SimulationRequest × Circumstances)}
    {f : SimulationFinding}
    (hf : f ∈ deriveFindings
      (simulateAll fork configuration ⟨base, [], [], false⟩ batch).executions)
    (hcode : f.code = .buySucceedsSellFails) :
    BuyCanSucceed fork configuration base (batch.map (·.1)) ∧
      HasValidSell configuration (batch.map (·.1)) := by
  obtain ⟨buy, sell, hbuy, hsell, hbought, -⟩ := mem_honeypotFindings (honeypot_of_mem hf hcode)
  obtain ⟨hbuymem, hbuyaction⟩ := mem_of_lastOf hbuy
  obtain ⟨hsellmem, hsellaction⟩ := mem_of_lastOf hsell
  constructor
  · obtain ⟨before, request, c, after, state, result, hbatch, hreaches, hvalid, hresult, rfl⟩ :=
      recorded_cases hbuymem
    obtain ⟨hread, hsuccess, hafter⟩ := execute_success hresult hbought
    exact ⟨before.map (·.1), request, after.map (·.1), state,
      by rw [hbatch, List.map_append, List.map_cons], hbuyaction, hvalid, hreaches, hread,
      hsuccess, hafter⟩
  · obtain ⟨before, request, c, after, state, result, hbatch, -, hvalid, -, rfl⟩ :=
      recorded_cases hsellmem
    refine ⟨request, ?_, hsellaction, hvalid⟩
    rw [hbatch, List.map_append, List.map_cons]
    exact List.mem_append_right _ (List.mem_cons_self ..)

/-- A result is that of the batch's loop. -/
theorem run_ok {base : S} {blockHash : Option String}
    {batch : List (SimulationRequest × Circumstances)} {result : SimulationBatchResult}
    {history : List (Settled S)}
    (h : run fork configuration base blockHash batch = .ok (result, history)) :
    history = (simulateAll fork configuration ⟨base, [], [], false⟩ batch).history ∧
      result.findings = deriveFindings
        (simulateAll fork configuration ⟨base, [], [], false⟩ batch).executions := by
  unfold run at h
  split at h
  · cases h
  · split at h
    · cases h
    · cases Except.ok.inj h
      exact ⟨rfl, rfl⟩

/-! ## A batch whose sell is never sent -/

/-- Every call of the request is answered. -/
def answered : Faults where
  snapshot := none
  before := fun _ => none
  send := none
  poll := fun _ => .found
  after := fun _ => none
  gasUsed := .ok none
  revert := none

/-- The request does not begin. -/
def idle : Circumstances := ⟨false, false, { answered with snapshot := some (.lost "") }⟩

/-- The request is mined and stays so. -/
def kept : Circumstances := ⟨false, false, { answered with revert := some (.lost "") }⟩

/-- The request's transaction never reaches the node. -/
def unsent : Circumstances :=
  ⟨false, false, { answered with
    before := fun _ => some ""
    send := some (.lost "") }⟩

variable (fork configuration) in
theorem simulate_idle (request : SimulationRequest) (state : S) :
    ∃ message, simulate fork configuration request idle state = ⟨state, none, .error message⟩ := by
  unfold simulate
  split
  · exact ⟨_, rfl⟩
  · exact ⟨_, rfl⟩

/-- The attempt of a request whose probes can be read, where nothing is
lost. -/
theorem attempt_of_readable {request : SimulationRequest} (faults : Faults) {state : S}
    (hbefore : faults.before = fun _ => none) (hsend : faults.send = none)
    (hread : Readable fork state request) :
    ∃ before, attempt fork request faults state =
      mine fork request state (receive fork request faults before
        (fork.transact state request.transaction).1
        (fork.transact state request.transaction).2) := by
  obtain ⟨before, hread⟩ := readAll_of_readable 0 hread
  have hprobe : readProbe fork state faults.before request = .ok before := by
    rw [hbefore]
    exact hread
  refine ⟨before, ?_⟩
  unfold attempt
  rw [hprobe, hsend]

theorem simulate_kept {request : SimulationRequest} {state : S}
    (hvalid : validateRequest request configuration = .ok ()) (hread : Readable fork state request) :
    ∃ mined message, simulate fork configuration request kept state =
      ⟨(fork.transact state request.transaction).1, mined, .error message⟩ := by
  obtain ⟨before, hattempt⟩ := attempt_of_readable kept.faults rfl rfl hread
  refine ⟨some ⟨state, (fork.transact state request.transaction).2⟩, "", ?_⟩
  simp only [simulate, hvalid, execute, hattempt]
  rfl

variable (fork) in
theorem simulate_unsent {request : SimulationRequest}
    (hvalid : validateRequest request configuration = .ok ()) (state : S) :
    simulate fork configuration request unsent state =
      ⟨state, none, .ok (executionOf request (failedResult ""))⟩ := by
  have hattempt : attempt fork request unsent.faults state = ⟨state, none, .error ""⟩ := by
    unfold attempt
    cases hprobe : readProbe fork state unsent.faults.before request with
    | ok before => rfl
    | error message =>
      rw [readProbe] at hprobe
      cases hprobes : request.probes with
      | nil =>
        rw [hprobes] at hprobe
        cases hprobe
      | cons call calls =>
        rw [hprobes] at hprobe
        cases Except.error.inj hprobe
        rfl
  simp only [simulate, hvalid, execute, hattempt]
  rfl

/-- A buy whose every call is answered is recorded as the fork has it. -/
theorem simulate_answered {request : SimulationRequest} {state : S}
    (hvalid : validateRequest request configuration = .ok ()) (hread : Readable fork state request)
    (hafter : Readable fork (fork.transact state request.transaction).1 request) :
    ∃ result, result.success = (fork.transact state request.transaction).2 ∧
      simulate fork configuration request ⟨false, false, answered⟩ state =
        ⟨state, some ⟨state, (fork.transact state request.transaction).2⟩,
          .ok (executionOf request result)⟩ := by
  obtain ⟨before, hattempt⟩ := attempt_of_readable answered rfl rfl hread
  obtain ⟨after, hafter⟩ := readAll_of_readable 0 hafter
  have hprobed : readProbe fork (fork.transact state request.transaction).1 answered.after
      request = .ok after := hafter
  have hpoll : pollReceipt answered.poll (fork.transact state request.transaction).2 40 0 =
      .ok (fork.transact state request.transaction).2 := rfl
  obtain ⟨result, hsuccess, hreceive⟩ : ∃ result : SimulationResult,
      result.success = (fork.transact state request.transaction).2 ∧
      receive fork request answered before (fork.transact state request.transaction).1
        (fork.transact state request.transaction).2 = .ok result := by
    simp only [receive, hpoll, hprobed]
    exact ⟨_, rfl, rfl⟩
  refine ⟨result, hsuccess, ?_⟩
  simp only [simulate, hvalid, execute, hattempt, mine, hreceive]
  rfl

/-- Some fate of the requests' calls gives them this history, from one state
of the fork to another. -/
def Yields (fork : Fork S) (configuration : ForkConfiguration) (state : S)
    (requests : List SimulationRequest) (history : List (Settled S)) (final : S) : Prop :=
  ∃ batch : List (SimulationRequest × Circumstances), batch.map (·.1) = requests ∧
    ∀ (g : Gathered S) (later : List (SimulationRequest × Circumstances)), g.state = state →
      ∃ g' : Gathered S, g'.state = final ∧ g'.history = g.history ++ history ∧
        simulateAll fork configuration g (batch ++ later) =
          simulateAll fork configuration g' later

theorem Yields.nil (state : S) : Yields fork configuration state [] [] state :=
  ⟨[], rfl, fun g _ hg => ⟨g, hg, (List.append_nil _).symm, rfl⟩⟩

theorem Yields.append {s₁ s₂ s₃ : S} {l₁ l₂ : List SimulationRequest} {h₁ h₂ : List (Settled S)}
    (y₁ : Yields fork configuration s₁ l₁ h₁ s₂) (y₂ : Yields fork configuration s₂ l₂ h₂ s₃) :
    Yields fork configuration s₁ (l₁ ++ l₂) (h₁ ++ h₂) s₃ := by
  obtain ⟨b₁, rfl, hb₁⟩ := y₁
  obtain ⟨b₂, rfl, hb₂⟩ := y₂
  refine ⟨b₁ ++ b₂, List.map_append, fun g later hg => ?_⟩
  obtain ⟨g₁, hs₁, hh₁, hrun₁⟩ := hb₁ g (b₂ ++ later) hg
  obtain ⟨g₂, hs₂, hh₂, hrun₂⟩ := hb₂ g₁ later hs₁
  refine ⟨g₂, hs₂, ?_, ?_⟩
  · rw [hh₂, hh₁, List.append_assoc]
  · rw [List.append_assoc, hrun₁, hrun₂]

theorem Yields.one {state : S} {request : SimulationRequest} {circumstances : Circumstances}
    {executed : Executed S SimulationExecution} (hnot : circumstances.aborted = false)
    (h : simulate fork configuration request circumstances state = executed) :
    Yields fork configuration state [request]
      [⟨request, executed.mined, executed.outcome.toOption⟩] executed.state := by
  refine ⟨[(request, circumstances)], rfl, fun g later hg => ⟨g.add request executed, rfl, rfl, ?_⟩⟩
  rw [← h, ← hg]
  simp only [List.cons_append, List.nil_append, simulateAll, hnot, Bool.false_eq_true, if_false]

/-- A state that can be reached is reached with nothing recorded. -/
theorem yields_of_reaches {state final : S} {requests : List SimulationRequest}
    (h : Reaches fork configuration state requests final) :
    ∃ history, (∀ settled ∈ history, settled.recorded = none) ∧
      Yields fork configuration state requests history final := by
  induction h with
  | nil state => exact ⟨[], by simp, .nil state⟩
  | @skip state final request rest _ ih =>
    obtain ⟨history, hnone, hrest⟩ := ih
    obtain ⟨message, hidle⟩ := simulate_idle fork configuration request state
    refine ⟨_ :: history, ?_, (Yields.one rfl hidle).append hrest⟩
    exact List.forall_mem_cons.mpr ⟨rfl, hnone⟩
  | stay hvalid hread _ ih =>
    obtain ⟨history, hnone, hrest⟩ := ih
    obtain ⟨mined, message, hkept⟩ := simulate_kept hvalid hread
    refine ⟨_ :: history, ?_, (Yields.one rfl hkept).append hrest⟩
    exact List.forall_mem_cons.mpr ⟨rfl, hnone⟩

variable (fork configuration) in
theorem Reaches.refl (state : S) (requests : List SimulationRequest) :
    Reaches fork configuration state requests state := by
  induction requests with
  | nil => exact .nil state
  | cons request rest ih => exact .skip ih

theorem filterMap_unrecorded {history : List (Settled S)}
    (h : ∀ settled ∈ history, settled.recorded = none) : history.filterMap (·.recorded) = [] :=
  List.filterMap_eq_nil_iff.mpr h

/-- What a run comes to, where the requests' calls have the fate. -/
theorem run_of_yields {base final : S} {requests : List SimulationRequest}
    {history : List (Settled S)} (hne : requests ≠ [])
    (h : Yields fork configuration base requests history final) :
    ∃ batch : List (SimulationRequest × Circumstances), batch.map (·.1) = requests ∧
      ∃ result, run fork configuration base none batch = .ok (result, history) ∧
        result.findings = deriveFindings (history.filterMap (·.recorded)) := by
  obtain ⟨batch, hbatch, hyields⟩ := h
  obtain ⟨g, -, hhistory, hrun⟩ := hyields ⟨base, [], [], false⟩ [] rfl
  rw [List.append_nil, simulateAll] at hrun
  have hbatchne : batch ≠ [] := fun hnil => hne (by rw [← hbatch, hnil, List.map_nil])
  simp only [List.nil_append] at hhistory
  refine ⟨batch, hbatch, ?_⟩
  simp only [run, hbatchne, if_false, hrun, Gathered.executions, hhistory]
  exact ⟨_, rfl, rfl⟩

theorem finding_of_pair {buy sell : SimulationExecution} (hbuy : buy.action = .buy)
    (hsell : sell.action = .sell) (hsuccess : buy.result.success = true)
    (hfails : sell.result.success = false) :
    ∃ f ∈ deriveFindings [buy, sell], f.code = .buySucceedsSellFails ∧ f.evidence = [buy, sell] := by
  have hlastbuy : lastOf [buy, sell] .buy = some buy := by
    simp [lastOf, hbuy, hsell]
  have hlastsell : lastOf [buy, sell] .sell = some sell := by
    simp [lastOf, hbuy, hsell]
  refine ⟨finding .buySucceedsSellFails .critical "Buy succeeded while sell failed." [buy, sell]
    .confirmed, ?_, rfl, rfl⟩
  simp only [deriveFindings, honeypotFindings, hlastbuy, hlastsell, List.mem_append]
  refine .inl (.inl (.inl (.inl (.inl ?_))))
  rw [if_pos ⟨hsuccess, hfails⟩]
  exact List.mem_singleton.mpr rfl

theorem pair_of_toList_append {α : Type} {o₁ o₂ : Option α} {x y : α}
    (h : [x, y] = o₁.toList ++ o₂.toList) : o₁ = some x ∧ o₂ = some y := by
  cases o₁ with
  | none => cases o₂ <;> cases h
  | some a =>
    cases o₂ with
    | none => cases h
    | some b =>
      cases h
      exact ⟨rfl, rfl⟩

/-- **Exactly where the verdict is the chain's.** Of batches whose buys
precede their sells, a honeypot finding always comes from the chain if and
only if there never is one to come: no buy can succeed, or no sell is
valid. -/
theorem honeypotFromChain_iff (fork : Fork S) (configuration : ForkConfiguration) (base : S)
    (requests : List SimulationRequest) (horder : BuyPrecedesSell requests) :
    HoneypotFromChain fork configuration base requests ↔
      ¬ (BuyCanSucceed fork configuration base requests ∧ HasValidSell configuration requests) := by
  constructor
  · rintro hchain ⟨⟨before, buy, after, state, rfl, hbuy, hvalid, hreaches, hread, hsuccess,
      hafter⟩, sell, hsellmem, hsell, hsellvalid⟩
    -- the sell stands after the buy
    have hlater : sell ∈ after := by
      rcases List.mem_append.mp hsellmem with hearly | hlate
      · exact absurd ⟨hsell, hbuy⟩
          ((List.pairwise_append.mp horder.1).2.2 sell hearly buy (List.mem_cons_self ..))
      · rcases List.mem_cons.mp hlate with rfl | hlate
        · rw [hbuy] at hsell
          cases hsell
        · exact hlate
    obtain ⟨middle, rest, rfl⟩ := List.append_of_mem hlater
    -- the buy is answered, the sell not sent, and nothing else is recorded
    obtain ⟨h₁, hnone₁, hy₁⟩ := yields_of_reaches hreaches
    obtain ⟨result, hresult, hanswered⟩ := simulate_answered hvalid hread hafter
    obtain ⟨h₂, hnone₂, hy₂⟩ := yields_of_reaches (Reaches.refl fork configuration state middle)
    have hunsent := simulate_unsent fork hsellvalid state
    obtain ⟨h₃, hnone₃, hy₃⟩ := yields_of_reaches (Reaches.refl fork configuration state rest)
    have hyields := hy₁.append ((Yields.one rfl hanswered).append
      (hy₂.append ((Yields.one rfl hunsent).append hy₃)))
    obtain ⟨batch, hbatch, outcome, hrun, hfindings⟩ :=
      run_of_yields (by simp) hyields
    simp only [List.filterMap_append, filterMap_unrecorded hnone₁, filterMap_unrecorded hnone₂,
      filterMap_unrecorded hnone₃] at hfindings
    obtain ⟨f, hf, hcode, hevidence⟩ := @finding_of_pair (executionOf buy result)
      (executionOf sell (failedResult "")) hbuy hsell (hresult.trans hsuccess) rfl
    obtain ⟨b, hb, s, hs, hpair, -, -, -, s₀, -, hmined⟩ :=
      hchain batch hbatch none outcome _ hrun f (by rw [hfindings]; exact hf) hcode
    -- so the finding's sell is the one that was never mined
    rw [hevidence] at hpair
    obtain ⟨-, hrecorded⟩ := pair_of_toList_append hpair
    have hnever : s.mined = none := by
      simp only [List.mem_append, List.mem_singleton] at hs
      rcases hs with hs | rfl | hs | rfl | hs
      · rw [hnone₁ s hs] at hrecorded
        cases hrecorded
      · have haction : buy.action = sell.action :=
          congrArg SimulationExecution.action (Option.some.inj hrecorded)
        rw [hbuy, hsell] at haction
        cases haction
      · rw [hnone₂ s hs] at hrecorded
        cases hrecorded
      · rfl
      · rw [hnone₃ s hs] at hrecorded
        cases hrecorded
    rw [hnever] at hmined
    cases hmined
  · rintro hcannot batch hbatch blockHash result history hrun f hf hcode
    rw [(run_ok hrun).2] at hf
    have hcan := canSucceed_of_finding hf hcode
    rw [hbatch] at hcan
    exact absurd hcan hcannot

/-- Where the sells succeed after the buys, a verdict from the chain is
none. -/
theorem HoneypotFromChain.eq_none {base : S} {requests : List SimulationRequest}
    (h : HoneypotFromChain fork configuration base requests)
    (hsells : ∀ buy ∈ requests, ∀ sell ∈ requests, buy.action = .buy → sell.action = .sell →
      ∀ state, (fork.transact state buy.transaction).2 = true →
        (fork.transact (fork.transact state buy.transaction).1 sell.transaction).2 = true)
    {batch : List (SimulationRequest × Circumstances)} (hbatch : batch.map (·.1) = requests)
    {blockHash : Option String} {result : SimulationBatchResult} {history : List (Settled S)}
    (hrun : run fork configuration base blockHash batch = .ok (result, history)) :
    ∀ f ∈ result.findings, f.code ≠ .buySucceedsSellFails := by
  intro f hf hcode
  obtain ⟨buy, hbuymem, sell, hsellmem, -, hbuy, hsell, -, state, hbought, hsold⟩ :=
    h batch hbatch blockHash result history hrun f hf hcode
  have hentry : ∀ settled ∈ history, settled.request ∈ requests ∧ ∀ m, settled.mined = some m →
      m.success = (fork.transact m.state settled.request.transaction).2 := by
    intro settled hsettled
    rw [(run_ok hrun).1] at hsettled
    rcases mem_history hsettled with hnil | ⟨before, request, c, after, s, rfl, -, rfl⟩
    · cases hnil
    · refine ⟨?_, fun m hm => by rw [simulate_mined hm]⟩
      rw [← hbatch, List.map_append, List.map_cons]
      exact List.mem_append_right _ (List.mem_cons_self ..)
  obtain ⟨hbuyreq, hbuymined⟩ := hentry buy hbuymem
  obtain ⟨hsellreq, hsellmined⟩ := hentry sell hsellmem
  have hfails := hsellmined _ hsold
  rw [hsells _ hbuyreq _ hsellreq hbuy hsell state (hbuymined _ hbought).symm] at hfails
  cases hfails

/-- A token that can be sold once it was bought, ten at a time. -/
def sellable : Fork ℕ where
  transact := fun balance sent =>
    if sent.data = ⟨2, 0xb0⟩ then (balance + 10, true)
    else if 10 ≤ balance then (balance - 10, true)
    else (balance, false)
  read := fun _ _ => .ok 0

def tradeOf (action : SimulationAction) (calldata : Hex) : SimulationRequest where
  chainId := 4663
  tokenAddress := ⟨0x70⟩
  sourceBlock := 100
  sender := ⟨0x5e⟩
  action := action
  amountOutExpectedRaw := none
  routeVerified := some true
  target := ⟨0x40⟩
  calldata := calldata
  valueRaw := none
  hypotheticalStateOverride := false
  balanceProbes := []
  allowanceProbe := none

def buyThenSell : List SimulationRequest := [tradeOf .buy ⟨2, 0xb0⟩, tradeOf .sell ⟨2, 0x5e⟩]

theorem buyPrecedesSell_buyThenSell : BuyPrecedesSell buyThenSell := by
  unfold BuyPrecedesSell
  decide

/-- The sell succeeds after every buy, no call fails, and yet the verdict. -/
theorem sellable_called_honeypot :
    BuyPrecedesSell buyThenSell ∧
    (∀ balance, (sellable.transact (sellable.transact balance
      (tradeOf .buy ⟨2, 0xb0⟩).transaction).1 (tradeOf .sell ⟨2, 0x5e⟩).transaction).2 = true) ∧
    (∃ result history, run sellable ⟨4663, 100⟩ 0 none
      (buyThenSell.map (·, ⟨false, false, answered⟩)) = .ok (result, history) ∧
      ∃ f ∈ result.findings, f.code = .buySucceedsSellFails) ∧
    ¬ HoneypotFromChain sellable ⟨4663, 100⟩ 0 buyThenSell := by
  have hsold : ∀ balance, (sellable.transact (sellable.transact balance
      (tradeOf .buy ⟨2, 0xb0⟩).transaction).1 (tradeOf .sell ⟨2, 0x5e⟩).transaction).2 = true := by
    intro balance
    simp [sellable, SimulationRequest.transaction, tradeOf]
  have hfound : ∃ result history, run sellable ⟨4663, 100⟩ 0 none
      (buyThenSell.map (·, ⟨false, false, answered⟩)) = .ok (result, history) ∧
      ∃ f ∈ result.findings, f.code = .buySucceedsSellFails := by
    refine ⟨_, _, rfl, ?_⟩
    decide +kernel
  refine ⟨buyPrecedesSell_buyThenSell, hsold, hfound, fun hchain => ?_⟩
  obtain ⟨result, history, hrun, f, hf, hcode⟩ := hfound
  refine hchain.eq_none ?_ rfl hrun f hf hcode
  intro buy hbuymem sell hsellmem hbuy hsell balance _
  simp only [buyThenSell, List.mem_cons, List.not_mem_nil, or_false] at hbuymem hsellmem
  rcases hbuymem with rfl | rfl
  · rcases hsellmem with rfl | rfl
    · cases hsell
    · exact hsold balance
  · cases hbuy

/-- The order the theorem asks for holds of such a batch. -/
theorem honeypotFromChain_buyThenSell :
    HoneypotFromChain sellable ⟨4663, 100⟩ 0 buyThenSell ↔
      ¬ (BuyCanSucceed sellable ⟨4663, 100⟩ 0 buyThenSell ∧
        HasValidSell ⟨4663, 100⟩ buyThenSell) :=
  honeypotFromChain_iff sellable ⟨4663, 100⟩ 0 buyThenSell buyPrecedesSell_buyThenSell

end Simulation

end HoodSentry
