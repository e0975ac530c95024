import HoodSentry.Worker.Model.LiquidityContext
/-!
# LP ownership from events

The fold over the events keeps the balance of every address but the zero
address, and takes every event to the zero address for a burn. The total
supply agrees with it exactly while no holder sends LP tokens there, which
emits the same event and burns nothing.
-/

namespace HoodSentry

/-! ## The fold -/

section Fold

variable {transfers : List IndexedTransfer} {transfer : IndexedTransfer} {sourceBlock : ℕ}
  {aggregate : TransferAggregate}

/-- What a scanned block counts touches no balance. -/
@[simp] theorem balances_count : (aggregate.count transfer).balances = aggregate.balances := by
  unfold TransferAggregate.count
  dsimp only
  split <;> split <;> rfl

@[simp] theorem zeroLockedRaw_count :
    (aggregate.count transfer).zeroLockedRaw = aggregate.zeroLockedRaw := by
  unfold TransferAggregate.count
  dsimp only
  split <;> split <;> rfl

/-- **The balances after an event**: a sender that is no mint loses the
amount, and a receiver that is no burn gets it. -/
theorem balances_move :
    (aggregate.move transfer).balances =
      let sent :=
        if transfer.fromAddress = ZERO_ADDRESS then aggregate.balances
        else aggregate.balances.add transfer.fromAddress (-transfer.amountRaw)
      if transfer.toAddress = ZERO_ADDRESS then sent
      else sent.add transfer.toAddress transfer.amountRaw := by
  unfold TransferAggregate.move addBalance
  dsimp only
  by_cases hfrom : transfer.fromAddress = ZERO_ADDRESS
  · by_cases hto : transfer.toAddress = ZERO_ADDRESS
    · simp [hfrom, hto]
    · simp [hfrom, hto]
  · simp [hfrom]

/-- What an event gives an address. -/
theorem get_move {address : Address} (h : address ≠ ZERO_ADDRESS) :
    (aggregate.move transfer).balances.get address = aggregate.balances.get address +
      (if transfer.toAddress = address then (transfer.amountRaw : ℤ) else 0) -
      if transfer.fromAddress = address then (transfer.amountRaw : ℤ) else 0 := by
  have hadd : ∀ (balances : Tally Address) (a : Address) (amount : ℤ),
      (if a = ZERO_ADDRESS then balances else balances.add a amount).get address =
        balances.get address + if a = address then amount else 0 := by
    intro balances a amount
    by_cases ha : a = ZERO_ADDRESS
    · rw [if_pos ha, if_neg (ha ▸ h.symm), add_zero]
    · rw [if_neg ha, Tally.get_add]
      simp only [eq_comm]
  rw [balances_move]
  dsimp only
  rw [hadd, hadd]
  split <;> split <;> omega

/-- What it adds to the balances altogether. -/
theorem total_move :
    (aggregate.move transfer).balances.total = aggregate.balances.total +
      (if transfer.toAddress = ZERO_ADDRESS then 0 else (transfer.amountRaw : ℤ)) -
      if transfer.fromAddress = ZERO_ADDRESS then 0 else (transfer.amountRaw : ℤ) := by
  have hadd : ∀ (balances : Tally Address) (a : Address) (amount : ℤ),
      (if a = ZERO_ADDRESS then balances else balances.add a amount).total =
        balances.total + if a = ZERO_ADDRESS then 0 else amount := by
    intro balances a amount
    by_cases ha : a = ZERO_ADDRESS
    · rw [if_pos ha, if_pos ha, add_zero]
    · rw [if_neg ha, if_neg ha, Tally.total_add]
  rw [balances_move]
  dsimp only
  rw [hadd, hadd]
  split <;> split <;> omega

theorem zeroLockedRaw_move :
    (aggregate.move transfer).zeroLockedRaw = aggregate.zeroLockedRaw +
      if transfer.fromAddress = ZERO_ADDRESS ∧ transfer.toAddress = ZERO_ADDRESS then
        transfer.amountRaw else 0 := by
  unfold TransferAggregate.move
  dsimp only
  split <;> rfl

/-- The zero address never gets a balance. -/
theorem zero_notMem_move (h : ZERO_ADDRESS ∉ aggregate.balances.keys) :
    ZERO_ADDRESS ∉ (aggregate.move transfer).balances.keys := by
  have hadd : ∀ (balances : Tally Address) (a : Address) (amount : ℤ),
      ZERO_ADDRESS ∉ balances.keys →
      ZERO_ADDRESS ∉ (if a = ZERO_ADDRESS then balances else balances.add a amount).keys := by
    intro balances a amount hkeys
    by_cases ha : a = ZERO_ADDRESS
    · rw [if_pos ha]
      exact hkeys
    · rw [if_neg ha, Tally.mem_keys_add, not_or]
      exact ⟨hkeys, Ne.symm ha⟩
  rw [balances_move]
  exact hadd _ _ _ (hadd _ _ _ h)

/-- One more event moves the balances by itself. -/
theorem aggregateTransfers_concat :
    (aggregateTransfers (transfers ++ [transfer]) sourceBlock).balances =
        ((aggregateTransfers transfers sourceBlock).move transfer).balances ∧
      (aggregateTransfers (transfers ++ [transfer]) sourceBlock).zeroLockedRaw =
        ((aggregateTransfers transfers sourceBlock).move transfer).zeroLockedRaw := by
  unfold aggregateTransfers
  rw [List.foldl_append, List.foldl_cons, List.foldl_nil]
  dsimp only
  split
  · exact ⟨rfl, rfl⟩
  · exact ⟨balances_count, zeroLockedRaw_count⟩

end Fold

/-! ## The accounting of a history -/

/-- The action sends some LP tokens to the zero address and burns none. -/
def LpAction.Discards : LpAction → Prop
  | .transfer _ _ toAddress value => toAddress = ZERO_ADDRESS ∧ 0 < value
  | _ => False

/-- How much it sends there. -/
def LpAction.discarded : LpAction → ℕ
  | .transfer _ _ toAddress value => if toAddress = ZERO_ADDRESS then value else 0
  | _ => 0

theorem LpAction.discarded_eq_zero_iff {action : LpAction} :
    action.discarded = 0 ↔ ¬action.Discards := by
  cases action with
  | transfer place fromAddress toAddress value =>
    by_cases h : toAddress = ZERO_ADDRESS
    · simp [discarded, Discards, h]
    · simp [discarded, Discards, h]
  | _ => exact ⟨fun _ h => h, fun _ => rfl⟩

/-- **The invariant**: the fold has the balance of every address but the
zero address, and the total supply is what it accounts for and what was
discarded. -/
structure Accounts (sourceBlock : ℕ) (s : LpState) (discarded : ℕ) : Prop where
  balances : ∀ address, address ≠ ZERO_ADDRESS →
    (aggregateTransfers s.events sourceBlock).balances.get address = s.balanceOf address
  zero : ZERO_ADDRESS ∉ (aggregateTransfers s.events sourceBlock).balances.keys
  supply : (s.totalSupply : ℤ) = (aggregateTransfers s.events sourceBlock).zeroLockedRaw +
    (aggregateTransfers s.events sourceBlock).balances.total + discarded

section History

variable {pair : LpPair} {s s' : LpState} {sourceBlock n n' : ℕ} {place : LogPlace}
  {address : Address} {value : ℕ} {actions : List LpAction} {transfer : IndexedTransfer}

theorem accounts_initial : Accounts sourceBlock .initial 0 where
  balances _ _ := rfl
  zero := List.not_mem_nil
  supply := rfl

/-- **One event is accounted for** where the pair moves the balances of
its two sides, and the supply by a mint or a burn. -/
theorem Accounts.event (h : Accounts sourceBlock s n)
    (hevents : s'.events = s.events ++ [transfer])
    (hbalances : ∀ address, address ≠ ZERO_ADDRESS →
      (s'.balanceOf address : ℤ) = s.balanceOf address +
        (if transfer.toAddress = address then (transfer.amountRaw : ℤ) else 0) -
        if transfer.fromAddress = address then (transfer.amountRaw : ℤ) else 0)
    (hsupply : (s'.totalSupply : ℤ) - n' = s.totalSupply - n +
      (if transfer.fromAddress = ZERO_ADDRESS then (transfer.amountRaw : ℤ) else 0) -
      if transfer.fromAddress ≠ ZERO_ADDRESS ∧ transfer.toAddress = ZERO_ADDRESS then
        (transfer.amountRaw : ℤ) else 0) :
    Accounts sourceBlock s' n' := by
  obtain ⟨hfold, hlocked⟩ : (aggregateTransfers s'.events sourceBlock).balances =
        ((aggregateTransfers s.events sourceBlock).move transfer).balances ∧
      (aggregateTransfers s'.events sourceBlock).zeroLockedRaw =
        ((aggregateTransfers s.events sourceBlock).move transfer).zeroLockedRaw := by
    rw [hevents]
    exact aggregateTransfers_concat
  refine ⟨fun address hzero => ?_, ?_, ?_⟩
  · rw [hfold, get_move hzero, h.balances address hzero, hbalances address hzero]
  · rw [hfold]
    exact zero_notMem_move h.zero
  · have hsupply' := h.supply
    rw [hfold, hlocked, total_move, zeroLockedRaw_move]
    by_cases hfrom : transfer.fromAddress = ZERO_ADDRESS
    · by_cases hto : transfer.toAddress = ZERO_ADDRESS
      · simp only [hfrom, hto, ne_eq, not_true_eq_false, false_and, and_self, if_true,
          if_false] at hsupply ⊢
        omega
      · simp only [hfrom, hto, ne_eq, not_true_eq_false, and_false, if_true,
          if_false] at hsupply ⊢
        omega
    · by_cases hto : transfer.toAddress = ZERO_ADDRESS
      · simp only [hfrom, hto, ne_eq, not_false_eq_true, and_self, false_and, if_true,
          if_false] at hsupply ⊢
        omega
      · simp only [hfrom, hto, ne_eq, not_false_eq_true, and_false, if_false] at hsupply ⊢
        omega

/-- A mint is accounted for, one to the zero address as locked. -/
theorem accounts_mintTo (h : Accounts sourceBlock s n) :
    Accounts sourceBlock (s.mintTo place address value) n := by
  refine h.event rfl (fun a hzero => ?_) ?_
  · change ((Function.update s.balanceOf address (s.balanceOf address + value) a : ℕ) : ℤ) =
      s.balanceOf a + (if address = a then (value : ℤ) else 0) -
        if ZERO_ADDRESS = a then (value : ℤ) else 0
    rw [if_neg hzero.symm, Function.update_apply]
    by_cases ha : a = address
    · rw [if_pos ha, if_pos ha.symm, ha]
      omega
    · rw [if_neg ha, if_neg (Ne.symm ha)]
      omega
  · simp only [LpState.mintTo, LogPlace.transfer, ne_eq, not_true_eq_false, false_and, if_true,
      if_false]
    omega

/-- So is a burn. -/
theorem accounts_burnFrom (h : Accounts sourceBlock s n) (hzero : address ≠ ZERO_ADDRESS)
    (hbalance : value ≤ s.balanceOf address) (hsupply : value ≤ s.totalSupply) :
    Accounts sourceBlock (s.burnFrom place address value) n := by
  refine h.event rfl (fun a ha => ?_) ?_
  · change ((Function.update s.balanceOf address (s.balanceOf address - value) a : ℕ) : ℤ) =
      s.balanceOf a + (if ZERO_ADDRESS = a then (value : ℤ) else 0) -
        if address = a then (value : ℤ) else 0
    rw [if_neg ha.symm, Function.update_apply]
    by_cases haddress : a = address
    · rw [if_pos haddress, if_pos haddress.symm, haddress]
      omega
    · rw [if_neg haddress, if_neg (Ne.symm haddress)]
      omega
  · simp only [LpState.burnFrom, LogPlace.transfer, hzero, ne_eq, not_false_eq_true, and_self,
      if_true, if_false]
    omega

/-- **What is sent to the zero address is not.** -/
theorem accounts_send {fromAddress toAddress : Address} (h : Accounts sourceBlock s n)
    (hzero : fromAddress ≠ ZERO_ADDRESS) (hbalance : value ≤ s.balanceOf fromAddress) :
    Accounts sourceBlock (s.send place fromAddress toAddress value)
      (n + if toAddress = ZERO_ADDRESS then value else 0) := by
  refine h.event rfl (fun a ha => ?_) ?_
  · have hbalances : (s.send place fromAddress toAddress value).balanceOf a =
        if a = toAddress then
          (if toAddress = fromAddress then s.balanceOf fromAddress - value
            else s.balanceOf toAddress) + value
        else if a = fromAddress then s.balanceOf fromAddress - value else s.balanceOf a := by
      simp only [LpState.send, Function.update_apply]
    rw [hbalances]
    simp only [LogPlace.transfer]
    by_cases hto : a = toAddress
    · by_cases hfrom : a = fromAddress
      · subst hto
        subst hfrom
        simp only [if_true]
        omega
      · subst hto
        simp only [if_true, hfrom, Ne.symm hfrom, if_false]
        omega
    · by_cases hfrom : a = fromAddress
      · subst hfrom
        simp only [if_true, hto, Ne.symm hto, if_false]
        omega
      · simp only [hto, hfrom, Ne.symm hto, Ne.symm hfrom, if_false]
        omega
  · simp only [LpState.send, LogPlace.transfer, hzero, ne_eq, not_false_eq_true, true_and, if_false]
    split <;> omega

/-- **The step lemma**: an action accounts for all but what it discards. -/
theorem accounts_step {action : LpAction} (h : Accounts sourceBlock s n)
    (hs : s.step pair action = some s') : Accounts sourceBlock s' (n + action.discarded) := by
  cases action with
  | initialMint locked minted toAddress liquidity =>
    simp only [LpState.step, Option.ite_none_left_eq_some] at hs
    obtain rfl := Option.some.inj hs.2
    exact accounts_mintTo (accounts_mintTo h)
  | mint place toAddress liquidity =>
    simp only [LpState.step, Option.ite_none_left_eq_some] at hs
    obtain rfl := Option.some.inj hs.2
    exact accounts_mintTo h
  | burn place =>
    simp only [LpState.step, Option.ite_none_left_eq_some, not_lt] at hs
    obtain ⟨hsupply, hs⟩ := hs
    obtain rfl := Option.some.inj hs
    exact accounts_burnFrom h pair.deployed le_rfl hsupply
  | transfer place fromAddress toAddress value =>
    simp only [LpState.step, Option.ite_none_left_eq_some, not_or, not_lt] at hs
    obtain ⟨⟨hzero, hbalance⟩, hs⟩ := hs
    obtain rfl := Option.some.inj hs
    exact accounts_send h hzero hbalance

/-- **The run lemma.** -/
theorem accounts_exec (h : Accounts sourceBlock s n)
    (hs : pair.machine.exec s actions = some s') :
    Accounts sourceBlock s' (n + (actions.map LpAction.discarded).sum) := by
  induction actions generalizing s n with
  | nil =>
    obtain rfl := Option.some.inj hs
    exact h
  | cons action actions ih =>
    obtain ⟨t, ht, hrest⟩ := Option.bind_eq_some_iff.mp hs
    have hstep := ih (accounts_step h ht) hrest
    rwa [add_assoc] at hstep

/-- **A snapshot exists** where nothing was discarded. -/
theorem ownershipSnapshot_of_accounts (h : Accounts sourceBlock s n) :
    (ownershipSnapshot s.events s.totalSupply sourceBlock).isSome = true ↔ n = 0 := by
  have hnonneg : ∀ entry ∈ (aggregateTransfers s.events sourceBlock).balances.rows,
      0 ≤ entry.2 := by
    intro entry hentry
    have hmem : entry ∈ (aggregateTransfers s.events sourceBlock).balances := hentry
    have hne : entry.1 ≠ ZERO_ADDRESS := by
      intro hz
      exact h.zero (hz ▸ Table.key_mem_keys hmem)
    have hbalance := h.balances entry.1 hne
    rw [Tally.get_of_mem hmem] at hbalance
    omega
  have hnegative : ((aggregateTransfers s.events sourceBlock).balances.rows.any
      fun entry => decide (entry.2 < 0)) = false := by
    refine List.any_eq_false.mpr fun entry hentry => ?_
    have := hnonneg entry hentry
    simpa using this
  have hpositive := Tally.sum_filter_pos hnonneg
  have hsupply := h.supply
  unfold ownershipSnapshot
  dsimp only
  rw [if_neg (Bool.eq_false_iff.mp hnegative), hpositive]
  unfold Tally.total at hsupply
  split
  · rename_i hmismatch
    simp only [Option.isSome_none, Bool.false_eq_true, false_iff]
    omega
  · rename_i hmatch
    simp only [Option.isSome_some, true_iff]
    omega

/-- **When LP ownership is reconstructed**: no holder sent LP tokens to
the zero address. -/
theorem ownershipSnapshot_isSome_iff
    (h : pair.machine.exec .initial actions = some s) :
    (ownershipSnapshot s.events s.totalSupply sourceBlock).isSome = true ↔
      ∀ action ∈ actions, ¬action.Discards := by
  rw [ownershipSnapshot_of_accounts (accounts_exec accounts_initial h), zero_add,
    List.sum_eq_zero_iff]
  simp only [List.forall_mem_map, LpAction.discarded_eq_zero_iff]

end History

/-! ## Sample histories -/

def LpPair.sample : LpPair := ⟨⟨100⟩, by decide⟩

/-- A place in the block at `n`. -/
def LogPlace.sample (n logIndex : ℕ) : LogPlace := ⟨n, ⟨n⟩, ⟨n⟩, logIndex⟩

/-- A provider mints, sends a part of its tokens to the pair, and the pair
burns it. -/
def burnHistory : List LpAction :=
  [.initialMint (.sample 1 0) (.sample 1 1) ⟨8⟩ 5000, .transfer (.sample 2 0) ⟨8⟩ ⟨100⟩ 2000,
    .burn (.sample 2 1)]

/-- A provider mints and sends one unit to the zero address. -/
def discardHistory : List LpAction :=
  [.initialMint (.sample 1 0) (.sample 1 1) ⟨8⟩ 5000, .transfer (.sample 2 0) ⟨8⟩ ZERO_ADDRESS 1]

/-- A burn through the pair is reconstructed. -/
theorem ownershipSnapshot_burnHistory :
    ∃ s, LpPair.sample.machine.exec .initial burnHistory = some s ∧ s.totalSupply = 4000 ∧
      (ownershipSnapshot s.events s.totalSupply 2).isSome = true := by
  obtain ⟨s, hs⟩ : ∃ s, LpPair.sample.machine.exec .initial burnHistory = some s := ⟨_, rfl⟩
  have hsupply : (LpPair.sample.machine.exec .initial burnHistory).map (·.totalSupply) =
      some 4000 := rfl
  have hdiscards : ∀ action ∈ burnHistory, ¬action.Discards := by
    simp [burnHistory, LpAction.Discards, ZERO_ADDRESS]
  rw [hs, Option.map_some, Option.some.injEq] at hsupply
  exact ⟨s, hs, hsupply, (ownershipSnapshot_isSome_iff hs).mpr hdiscards⟩

/-- **One unit sent to the zero address** leaves the supply unaccounted
for. -/
theorem not_ownershipSnapshot : ¬∀ (pair : LpPair) (actions : List LpAction) (s : LpState)
    (sourceBlock : ℕ), pair.machine.exec .initial actions = some s →
    (ownershipSnapshot s.events s.totalSupply sourceBlock).isSome = true := by
  intro h
  have hsome := h .sample discardHistory _ 2 rfl
  exact absurd hsome (by decide)

end HoodSentry
