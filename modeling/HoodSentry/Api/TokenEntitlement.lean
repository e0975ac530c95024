import HoodSentry.Api.Model.TokenEntitlement
import HoodSentry.Entitlement.TokenGating
/-!
# Entitlements of a wallet

Every tier a wallet is granted is earned over the calls that went
through. But the clock of a call is the block of the wallet's last
transfer, and a transfer starts the candidate again: a wallet that keeps
still never gets older, and is granted no tier above the one it has.
-/

namespace HoodSentry

namespace TokenGateConfig

variable {config : TokenGateConfig}

/-! ## The stored state -/

section Row

variable {f : EntitlementFacts} {wallet : Address} {now : ℕ}
  {existing : Option TokenEntitlementRow} {o : EntitlementObservation}

@[simp] theorem key_nextRow :
    (config.nextRow f wallet now existing o).key = config.key wallet := rfl

/-- The row stores the next state. -/
theorem state_nextRow :
    (config.nextRow f wallet now existing o).state =
      advanceEntitlementState (config.advanceInput f wallet existing o) := by
  unfold nextRow TokenEntitlementRow.state
  dsimp only
  rw [if_neg candidateTier_ne_free]

end Row

/-- **A call that finds everything out** has read the wallet's balance and
the canonical block it is as of, and the chain agrees with it. -/
theorem exists_of_observe_eq_ok {f : EntitlementFacts} {wallet : Address}
    {o : EntitlementObservation} (h : config.observe f wallet = .ok o) :
    ∃ indexed block, f.tokenBalances.find (config.key wallet) = some indexed ∧
      config.sourceBlock f indexed.asOfBlock = some block ∧
      (f.balanceOf config.tokenAddress wallet indexed.asOfBlock : ℤ) = indexed.balanceRaw ∧
      o = ⟨f.balanceOf config.tokenAddress wallet indexed.asOfBlock, indexed.balanceRaw,
        indexed.asOfBlock, block.hash, block.timestamp * 1000⟩ := by
  unfold observe at h
  split at h
  · exact absurd h (by simp)
  · split at h
    · exact absurd h (by simp)
    · split at h
      · exact absurd h (by simp)
      · rename_i indexed hindexed
        split at h
        · exact absurd h (by simp)
        · rename_i block hblock
          split at h
          · exact absurd h (by simp)
          · split at h
            · exact absurd h (by simp)
            · dsimp only at h
              split at h
              · exact absurd h (by simp)
              · rename_i hagree
                exact ⟨indexed, block, hindexed, hblock, not_not.mp hagree, (Except.ok.inj h).symm⟩

/-! ## Soundness -/

/-- **The invariant** of a wallet: its calls are sound, and its row stands
for them. -/
structure WalletSound (config : TokenGateConfig) (w : EntitlementWorld) (wallet : Address) :
    Prop where
  sound : EntitlementSound config.minimumHoldingSeconds (w.reconciled wallet)
  tracks : Tracks ((w.states.find (config.key wallet)).map (·.state)) (w.reconciled wallet)

/-- **The step lemma.** -/
theorem walletSound_step {w w' : EntitlementWorld} {call : EntitlementCall}
    (hw : ∀ wallet, config.WalletSound w wallet) (hs : config.machine.step w call = some w')
    (wallet : Address) : config.WalletSound w' wallet := by
  simp only [machine, reconcile] at hs
  cases hobserve : config.observe call.facts call.wallet with
  | error reason =>
    rw [hobserve] at hs
    obtain rfl := Option.some.inj hs
    exact hw wallet
  | ok o =>
    rw [hobserve] at hs
    obtain rfl := Option.some.inj hs
    by_cases hwallet : wallet = call.wallet
    · subst hwallet
      have hold := hw call.wallet
      have hinput : (config.advanceInput call.facts call.wallet
          (w.states.find (config.key call.wallet)) o).current =
          (w.states.find (config.key call.wallet)).map (·.state) := rfl
      have htracks := hold.tracks
      rw [← hinput] at htracks
      constructor
      · dsimp only
        rw [Function.update_self]
        exact hold.sound.advance htracks
      · dsimp only
        rw [Function.update_self, Table.find_put, if_pos key_nextRow, Option.map_some, state_nextRow]
        exact htracks.advance
    · have hkey : (config.nextRow call.facts call.wallet call.now
          (w.states.find (config.key call.wallet)) o).key ≠ config.key wallet := by
        rw [key_nextRow]
        intro heq
        exact hwallet (congrArg (·.2.2) heq).symm
      have hhistory : ∀ history, Function.update w.reconciled call.wallet history wallet =
          w.reconciled wallet := fun _ => Function.update_of_ne hwallet _ _
      constructor
      · dsimp only
        rw [hhistory]
        exact (hw wallet).sound
      · dsimp only
        rw [hhistory, Table.find_put, if_neg hkey]
        exact (hw wallet).tracks

/-- **Granted tiers are earned.** In every run of calls, a wallet's tier
goes up after an unbroken run of calls that observed that tier, none after
the first reset, over at least the holding time; and the tier a row grants
is the last call's, and never above the tier that call observed. -/
theorem entitlementSound_of_reachable {w : EntitlementWorld} (h : config.machine.Reachable w)
    (wallet : Address) :
    EntitlementSound config.minimumHoldingSeconds (w.reconciled wallet) ∧
      ∀ row ∈ w.states, row.key = config.key wallet →
        row.grantedTier = grantedIn (w.reconciled wallet) := by
  have hw : ∀ wallet, config.WalletSound w wallet := by
    refine h.invariant (I := fun w => ∀ wallet, config.WalletSound w wallet)
      (fun w hinit wallet => ?_) fun w call w' hI _ hs => walletSound_step hI hs
    obtain ⟨hstates, hreconciled⟩ := hinit
    constructor
    · rw [hreconciled wallet]
      refine ⟨fun later r earlier heq => absurd heq (by simp), fun r hr => ?_⟩
      exact absurd hr List.not_mem_nil
    · rw [hreconciled wallet, hstates, Table.find_empty]
      exact ⟨rfl, fun tier htier => absurd htier (by simp [EntitlementState.initial])⟩
  refine ⟨(hw wallet).sound, fun row hrow hkey => ?_⟩
  have htracks := (hw wallet).tracks.granted
  rw [Table.find_eq_some.mpr ⟨hrow, hkey⟩] at htracks
  exact htracks

/-- A gate of chain 1 with a holding time of a minute. -/
def minuteGate : TokenGateConfig where
  tokenAddress := ⟨10⟩
  chainId := 1
  enabled := true
  minimums
    | .free => 0
    | .scout => 10
    | .analyst => 20
    | .sentinel => 30
  cacheSeconds := 60
  minimumHoldingSeconds := 60
  version := "v1"
  runtimeBytecodeHash := ⟨99⟩

/-- A wallet's first transfer, in block 5. -/
def firstTransfer : TransferRow := ⟨1, 5, ⟨50⟩, ⟨51⟩, 0, ⟨10⟩, ⟨30⟩, ⟨20⟩, 15, true⟩

/-- It is indexed, and the chain agrees. -/
def scoutFacts : EntitlementFacts where
  tokenBalances := Table.singleton ⟨1, ⟨10⟩, ⟨20⟩, 15, 5⟩
  blocks := Table.singleton ⟨1, 5, ⟨50⟩, ⟨40⟩, 100, .finalized, true⟩
  tokenTransfers := Table.singleton firstTransfer
  contractBytecodeHash _ _ := some ⟨99⟩
  chainId := 1
  bytecodeHash _ _ := some ⟨99⟩
  balanceOf _ _ _ := 15

/-- The wallet's first call leaves it a candidate. -/
theorem entitlementSound_sample : ∃ w,
    minuteGate.machine.exec ⟨∅, fun _ => []⟩ [⟨scoutFacts, ⟨20⟩, 0⟩] = some w ∧
      w.reconciled ⟨20⟩ = [⟨.scout, 100000, false, .free⟩] ∧
      EntitlementSound minuteGate.minimumHoldingSeconds (w.reconciled ⟨20⟩) := by
  have hrun : (minuteGate.machine.exec ⟨∅, fun _ => []⟩ [⟨scoutFacts, ⟨20⟩, 0⟩]).map
      (fun w => w.reconciled ⟨20⟩) = some [⟨.scout, 100000, false, .free⟩] := by decide +kernel
  obtain ⟨w, hw, hreconciled⟩ := Option.map_eq_some_iff.mp hrun
  have hreachable : minuteGate.machine.Reachable w :=
    Machine.reachable_of_exec ⟨rfl, fun _ => rfl⟩ hw
  exact ⟨w, hw, hreconciled, (entitlementSound_of_reachable hreachable ⟨20⟩).1⟩

end TokenGateConfig

/-! ## Reachability -/

/-- A call, at a time of the chain. -/
structure TimedCall where
  chainTime : ℕ
  facts : EntitlementFacts
  now : ℕ

/-- **A wallet at rest**: its canonical transfers, and the time of the last
one's block. -/
structure WalletRest where
  transfers : List TransferRow
  lastTransferAt : ℕ

namespace TokenGateConfig

variable (config : TokenGateConfig)

/-- The calls of a wallet in turn. -/
def reconcileAll (wallet : Address) (states : EntitlementTable) (calls : List TimedCall) :
    EntitlementTable :=
  calls.foldl (fun states c => (config.reconcile c.facts states wallet c.now).1) states

/-- **What a call finds of a wallet at rest**: its transfers, the balance
projected from them, and sources that are available, agree on it, and show
it to be of a tier. -/
structure FindsResting (wallet : Address) (tier : Tier) (rest : WalletRest) (c : TimedCall) :
    Prop where
  transfers : c.facts.tokenTransfers.rows.filter
    (·.joins config.chainId config.tokenAddress wallet) = rest.transfers
  projected : c.facts.tokenBalances.find (config.key wallet) =
    some (projectedBalance c.facts.tokenTransfers.rows config.chainId config.tokenAddress wallet)
  observed : ∃ o, config.observe c.facts wallet = .ok o ∧ o.observedAt = rest.lastTransferAt ∧
    calculateTier o.directBalance config.toGateConfig = tier

/-- **A wallet keeps a tier** from a time on, without a transfer, over a
first call, some more, and one at least the holding time after the
first. -/
structure KeepsTier (wallet : Address) (tier : Tier) (since : ℕ) (rest : WalletRest)
    (first : TimedCall) (between : List TimedCall) (last : TimedCall) : Prop where
  rests : rest.lastTransferAt ≤ since
  finds : ∀ c ∈ first :: between ++ [last], config.FindsResting wallet tier rest c
  begins : since ≤ first.chainTime
  ends : first.chainTime + config.minimumHoldingSeconds * 1000 ≤ last.chainTime

/-- The state stored for a wallet. -/
def storedState (existing : Option TokenEntitlementRow) : EntitlementState :=
  (existing.map (·.state)).getD .initial

/-- A transfer came after the block the stored candidate started at. -/
def WalletRest.Moved (rest : WalletRest) (existing : Option TokenEntitlementRow) : Bool :=
  (existing.bind (·.candidateStartBlock)).any fun start =>
    rest.transfers.any fun t => start < t.blockNumber

/-- **The condition**: the tier is not above the one granted, or the stored
candidate for it, if it has not moved since, is as old as it must be when
the wallet's last transfer is made. -/
def Ripe (tier : Tier) (rest : WalletRest) (existing : Option TokenEntitlementRow) : Prop :=
  tierRank tier ≤ tierRank (storedState existing).grantedTier ∨
    (if (storedState existing).candidateTier = some tier ∧
          WalletRest.Moved rest existing = false then
        (storedState existing).candidateSince.getD rest.lastTransferAt
      else rest.lastTransferAt) + config.minimumHoldingSeconds * 1000 ≤ rest.lastTransferAt

variable {config} {wallet : Address} {tier : Tier} {rest : WalletRest} {c : TimedCall}
  {existing : Option TokenEntitlementRow} {o : EntitlementObservation}

/-- A call resets the candidate of a wallet that moved. -/
theorem resetCandidate_eq_moved (h : config.FindsResting wallet tier rest c) :
    config.resetCandidate c.facts wallet existing = WalletRest.Moved rest existing := by
  unfold resetCandidate WalletRest.Moved
  cases existing.bind (·.candidateStartBlock) with
  | none => rfl
  | some start =>
    dsimp only [Option.any_some]
    rw [← h.transfers, List.any_filter]

/-- The row is as of the last transfer's block. -/
theorem le_asOfBlock (h : config.FindsResting wallet tier rest c)
    (ho : config.observe c.facts wallet = .ok o) : ∀ t ∈ rest.transfers, t.blockNumber ≤ o.asOfBlock := by
  obtain ⟨indexed, block, hindexed, -, -, rfl⟩ := exists_of_observe_eq_ok ho
  rw [h.projected] at hindexed
  obtain rfl := Option.some.inj hindexed
  intro t ht
  refine List.le_max_of_le (List.mem_map_of_mem ?_) (Nat.le_refl _)
  rw [h.transfers]
  exact ht

/-- What the state machine is given of a wallet at rest. -/
def restingInput (config : TokenGateConfig) (tier : Tier) (rest : WalletRest)
    (existing : Option TokenEntitlementRow) : AdvanceInput :=
  ⟨existing.map (·.state), tier, rest.lastTransferAt, config.minimumHoldingSeconds,
    WalletRest.Moved rest existing⟩

theorem advanceInput_eq (h : config.FindsResting wallet tier rest c)
    (ho : config.observe c.facts wallet = .ok o) :
    config.advanceInput c.facts wallet existing o = config.restingInput tier rest existing := by
  obtain ⟨o', ho', htime, htier⟩ := h.observed
  obtain rfl : o' = o := Except.ok.inj (ho'.symm.trans ho)
  rw [advanceInput, htier, htime, resetCandidate_eq_moved h]
  rfl

/-- The condition in the state machine's terms. -/
theorem ripe_iff : config.Ripe tier rest existing ↔
    tierRank tier ≤ tierRank (storedState existing).grantedTier ∨
      (config.restingInput tier rest existing).Matured
        (storedState existing) := by
  have hsince : (config.restingInput tier rest existing).candidateSince
        (storedState existing) =
      if (storedState existing).candidateTier = some tier ∧
          WalletRest.Moved rest existing = false then
        (storedState existing).candidateSince.getD rest.lastTransferAt
      else rest.lastTransferAt := by
    unfold AdvanceInput.candidateSince restingInput
    dsimp only
    split
    · rename_i hchanged
      rw [if_neg]
      rintro ⟨hsame, hmoved⟩
      rcases hchanged with hne | hreset
      · exact hne hsame
      · exact absurd (hmoved.symm.trans hreset) Bool.false_ne_true
    · rename_i hsame
      obtain ⟨htier, hreset⟩ := not_or.mp hsame
      rw [if_pos ⟨not_not.mp htier, Bool.eq_false_iff.mpr hreset⟩]
  unfold Ripe AdvanceInput.Matured
  rw [hsince]
  refine or_congr_right ?_
  show _ ↔ (rest.lastTransferAt : ℤ) - _ ≥ (config.minimumHoldingSeconds : ℤ) * 1000
  omega

/-- **A ripe tier is granted**, and stays so. -/
theorem granted_of_ripe (h : config.FindsResting wallet tier rest c)
    (ho : config.observe c.facts wallet = .ok o) (now : ℕ)
    (hripe : config.Ripe tier rest existing) :
    (config.nextRow c.facts wallet now existing o).grantedTier = tier := by
  show (advanceEntitlementState (config.advanceInput c.facts wallet existing o)).grantedTier = tier
  rw [advanceInput_eq h ho]
  exact granted_advance (ripe_iff.mp hripe)

/-- No transfer comes after the block a row's candidate starts at. -/
theorem not_moved_nextRow (h : config.FindsResting wallet tier rest c)
    (ho : config.observe c.facts wallet = .ok o) (now : ℕ) :
    WalletRest.Moved rest (some (config.nextRow c.facts wallet now existing o)) = false := by
  have hasOf : (rest.transfers.any fun t => o.asOfBlock < t.blockNumber) = false := by
    rw [List.any_eq_false]
    intro t ht
    have hle := le_asOfBlock h ho t ht
    simp only [decide_eq_true_eq]
    omega
  unfold WalletRest.Moved nextRow
  dsimp only [Option.bind_some]
  split
  · rfl
  · split
    · exact hasOf
    · split
      · exact hasOf
      · rename_i hunchanged
        rw [Bool.not_eq_true, Bool.or_eq_false_iff] at hunchanged
        have hreset : WalletRest.Moved rest existing = false := by
          rw [← resetCandidate_eq_moved h]
          exact hunchanged.2
        unfold WalletRest.Moved at hreset
        cases hstart : existing.bind (·.candidateStartBlock) with
        | none => exact hasOf
        | some start =>
          rw [hstart] at hreset
          exact hreset

/-- **One that is not keeps waiting**, as it did. -/
theorem waiting_of_not_ripe (h : config.FindsResting wallet tier rest c)
    (ho : config.observe c.facts wallet = .ok o) (now : ℕ)
    (hripe : ¬config.Ripe tier rest existing) :
    (config.nextRow c.facts wallet now existing o).grantedTier ≠ tier ∧
      ¬config.Ripe tier rest (some (config.nextRow c.facts wallet now existing o)) := by
  rw [ripe_iff, not_or, Nat.not_le] at hripe
  obtain ⟨hhigher, hyoung⟩ := hripe
  have hnext : advanceEntitlementState (config.restingInput tier rest existing) =
      ⟨(storedState existing).grantedTier, some tier,
        some ((config.restingInput tier rest existing).candidateSince (storedState existing))⟩ :=
    advance_of_waiting hhigher hyoung
  have hstate : storedState (some (config.nextRow c.facts wallet now existing o)) =
      advanceEntitlementState (config.restingInput tier rest existing) := by
    show (config.nextRow c.facts wallet now existing o).state = _
    rw [state_nextRow, advanceInput_eq h ho]
  have hgranted : (config.nextRow c.facts wallet now existing o).grantedTier =
      (storedState existing).grantedTier := by
    have hfield := congrArg EntitlementState.grantedTier (hstate.trans hnext)
    exact hfield
  constructor
  · intro heq
    rw [← hgranted, heq] at hhigher
    exact absurd hhigher (Nat.lt_irrefl _)
  · rw [ripe_iff, hstate, hnext, not_or, Nat.not_le]
    refine ⟨hhigher, fun hmatured => hyoung ?_⟩
    have hsince : (config.restingInput tier rest
          (some (config.nextRow c.facts wallet now existing o))).candidateSince
          ⟨(storedState existing).grantedTier, some tier,
            some ((config.restingInput tier rest existing).candidateSince (storedState existing))⟩ =
        (config.restingInput tier rest existing).candidateSince (storedState existing) := by
      have hmoved : (config.restingInput tier rest
          (some (config.nextRow c.facts wallet now existing o))).resetCandidate = false :=
        not_moved_nextRow h ho now
      rw [AdvanceInput.candidateSince, hmoved, if_neg (by simp [restingInput])]
      rfl
    rw [AdvanceInput.Matured, hsince] at hmatured
    exact hmatured

/-- A granted tier is ripe. -/
theorem ripe_of_granted {row : TokenEntitlementRow} (h : row.grantedTier = tier) :
    config.Ripe tier rest (some row) :=
  Or.inl (by rw [← h]; exact Nat.le_refl _)

/-! ### Calls in turn -/

/-- What is ripe before a call is ripe after it, and the other way
round. -/
theorem reconcile_spec (h : config.FindsResting wallet tier rest c) (states : EntitlementTable)
    (now : ℕ) :
    ∃ row, (config.reconcile c.facts states wallet now).1.find (config.key wallet) = some row ∧
      (row.grantedTier = tier ↔ config.Ripe tier rest (states.find (config.key wallet))) ∧
      (config.Ripe tier rest (some row) ↔
        config.Ripe tier rest (states.find (config.key wallet))) := by
  obtain ⟨o, ho, -⟩ := h.observed
  refine ⟨config.nextRow c.facts wallet now (states.find (config.key wallet)) o, ?_, ?_⟩
  · rw [reconcile, ho]
    dsimp only
    rw [Table.find_put, if_pos key_nextRow]
  · by_cases hripe : config.Ripe tier rest (states.find (config.key wallet))
    · have hgranted := granted_of_ripe h ho now hripe
      exact ⟨iff_of_true hgranted hripe, iff_of_true (ripe_of_granted hgranted) hripe⟩
    · obtain ⟨hgranted, hstill⟩ := waiting_of_not_ripe h ho now hripe
      exact ⟨iff_of_false hgranted hripe, iff_of_false hstill hripe⟩

theorem ripe_reconcileAll_iff (calls : List TimedCall) (states : EntitlementTable)
    (h : ∀ c ∈ calls, config.FindsResting wallet tier rest c) :
    config.Ripe tier rest ((config.reconcileAll wallet states calls).find (config.key wallet)) ↔
      config.Ripe tier rest (states.find (config.key wallet)) := by
  induction calls generalizing states with
  | nil => exact Iff.rfl
  | cons c calls ih =>
    obtain ⟨row, hrow, -, hripe⟩ := reconcile_spec (h c List.mem_cons_self) states c.now
    have hrest := ih (config.reconcile c.facts states wallet c.now).1
      fun c' hc' => h c' (List.mem_cons_of_mem c hc')
    rw [hrow] at hrest
    exact hrest.trans hripe

/-- **The last call leaves the wallet its tier exactly when the tier was
ripe before the first**: the calls and the time between them change
nothing. -/
theorem grantedTier_reconcileAll_iff (config : TokenGateConfig) (wallet : Address) (tier : Tier)
    (since : ℕ) (rest : WalletRest) (states : EntitlementTable) (first : TimedCall)
    (between : List TimedCall) (last : TimedCall)
    (h : config.KeepsTier wallet tier since rest first between last) :
    ((config.reconcileAll wallet states (first :: between ++ [last])).find
        (config.key wallet)).map (·.grantedTier) = some tier ↔
      config.Ripe tier rest (states.find (config.key wallet)) := by
  have hbefore := ripe_reconcileAll_iff (first :: between) states
    fun c hc => h.finds c (List.mem_append_left _ hc)
  obtain ⟨row, hrow, hgranted, -⟩ := reconcile_spec
    (h.finds last (List.mem_append_right _ List.mem_cons_self))
    (config.reconcileAll wallet states (first :: between)) last.now
  rw [hbefore] at hgranted
  rw [reconcileAll, List.foldl_append]
  show ((config.reconcile last.facts _ wallet last.now).1.find _).map _ = _ ↔ _
  rw [show List.foldl _ states (first :: between) =
    config.reconcileAll wallet states (first :: between) from rfl, hrow, Option.map_some,
    Option.some.injEq]
  exact hgranted

/-- A call of the wallet's, at a time of the chain. -/
def scoutCall (chainTime : ℕ) : TimedCall := ⟨chainTime, scoutFacts, 0⟩

/-- The wallet keeps its balance from its transfer on, and calls again
after eleven days. -/
theorem keepsTier_scout : minuteGate.KeepsTier ⟨20⟩ .scout 100000 ⟨[firstTransfer], 100000⟩
    (scoutCall 100000) [] (scoutCall 1000000000) := by
  have hfinds : ∀ chainTime,
      minuteGate.FindsResting ⟨20⟩ .scout ⟨[firstTransfer], 100000⟩ (scoutCall chainTime) := by
    intro chainTime
    exact ⟨by rfl, by rfl, ⟨15, 15, 5, ⟨50⟩, 100000⟩, by rfl, rfl, by decide⟩
  refine ⟨Nat.le_refl _, fun c hc => ?_, Nat.le_refl _, by decide⟩
  rcases List.mem_cons.mp hc with rfl | hc
  · exact hfinds _
  · obtain rfl := List.mem_singleton.mp hc
    exact hfinds _

/-- Its tier depends on what was stored before it came to rest. -/
theorem grantedTier_sample :
    ((minuteGate.reconcileAll ⟨20⟩ ∅ (scoutCall 100000 :: [] ++ [scoutCall 1000000000])).find
        (minuteGate.key ⟨20⟩)).map (·.grantedTier) = some .scout ↔
      minuteGate.Ripe .scout ⟨[firstTransfer], 100000⟩ none :=
  grantedTier_reconcileAll_iff minuteGate ⟨20⟩ .scout 100000 ⟨[firstTransfer], 100000⟩ ∅
    (scoutCall 100000) [] (scoutCall 1000000000) keepsTier_scout

/-- **Without a tier before, the wallet is never granted one.** -/
theorem not_granted_scout :
    minuteGate.KeepsTier ⟨20⟩ .scout 100000 ⟨[firstTransfer], 100000⟩ (scoutCall 100000) []
        (scoutCall 1000000000) ∧
      ((minuteGate.reconcileAll ⟨20⟩ ∅ [scoutCall 100000, scoutCall 1000000000]).find
        (minuteGate.key ⟨20⟩)).map (·.grantedTier) = some .free :=
  ⟨keepsTier_scout, by decide +kernel⟩

end TokenGateConfig

end HoodSentry
