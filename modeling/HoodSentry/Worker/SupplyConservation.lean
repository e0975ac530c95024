import HoodSentry.Worker.LiquidityOwnership
import HoodSentry.Common.Sorting
/-!
# A snapshot of LP ownership accounts for the supply

The fold over the transfers is read off address by address: a balance is the
sum of what each transfer gives the address, and the amounts it counts are
sums of what each counts. None of these depends on the order of the transfers,
and the snapshot depends on nothing else but the order of the removals.
-/

namespace HoodSentry

/-! ## What a transfer gives and counts -/

namespace IndexedTransfer

variable (transfer : IndexedTransfer) (sourceBlock : ℕ)

/-- What an address gets by a transfer. -/
def flow (address : Address) : ℤ :=
  (if transfer.toAddress = address then (transfer.amountRaw : ℤ) else 0) -
    if transfer.fromAddress = address then (transfer.amountRaw : ℤ) else 0

/-- The transfer gives the address an entry. -/
def Touches (address : Address) : Prop :=
  transfer.fromAddress = address ∨ transfer.toAddress = address

/-- What is minted to the zero address. -/
def locked : ℕ :=
  if transfer.fromAddress = ZERO_ADDRESS ∧ transfer.toAddress = ZERO_ADDRESS then
    transfer.amountRaw else 0

/-- What is minted in the scanned block. -/
def added : ℕ :=
  if transfer.blockNumber = sourceBlock ∧ transfer.fromAddress = ZERO_ADDRESS then
    transfer.amountRaw else 0

/-- A burn in the scanned block. -/
def Removes : Prop :=
  transfer.blockNumber = sourceBlock ∧ transfer.toAddress = ZERO_ADDRESS ∧
    transfer.fromAddress ≠ ZERO_ADDRESS

instance : Decidable (transfer.Removes sourceBlock) := by
  unfold Removes
  infer_instance

/-- The burn, if it is one. -/
def removal : List RemovalEvent :=
  if transfer.Removes sourceBlock then
    [⟨transfer.amountRaw, transfer.blockNumber, transfer.blockHash, transfer.transactionHash,
      transfer.logIndex⟩]
  else []

/-- What it burns. -/
def removed : ℕ := if transfer.Removes sourceBlock then transfer.amountRaw else 0

end IndexedTransfer

section Sums

variable {transfers transfers' : List IndexedTransfer} {transfer : IndexedTransfer}
  {sourceBlock : ℕ} {aggregate : TransferAggregate} {address : Address}

/-- What a transfer does to the counts. -/
theorem counts_concat :
    (aggregateTransfers (transfers ++ [transfer]) sourceBlock).additionsRaw =
        (aggregateTransfers transfers sourceBlock).additionsRaw + transfer.added sourceBlock ∧
      (aggregateTransfers (transfers ++ [transfer]) sourceBlock).removalsRaw =
        (aggregateTransfers transfers sourceBlock).removalsRaw + transfer.removed sourceBlock ∧
      (aggregateTransfers (transfers ++ [transfer]) sourceBlock).removalEvents =
        (aggregateTransfers transfers sourceBlock).removalEvents ++
          transfer.removal sourceBlock := by
  have hmove : ∀ aggregate : TransferAggregate,
      (aggregate.move transfer).additionsRaw = aggregate.additionsRaw ∧
        (aggregate.move transfer).removalsRaw = aggregate.removalsRaw ∧
        (aggregate.move transfer).removalEvents = aggregate.removalEvents := by
    intro aggregate
    unfold TransferAggregate.move
    dsimp only
    split <;> exact ⟨rfl, rfl, rfl⟩
  obtain ⟨hadditions, hremovals, hevents⟩ := hmove (aggregateTransfers transfers sourceBlock)
  have hfold : aggregateTransfers (transfers ++ [transfer]) sourceBlock =
      if transfer.blockNumber ≠ sourceBlock then
        (aggregateTransfers transfers sourceBlock).move transfer
      else ((aggregateTransfers transfers sourceBlock).move transfer).count transfer := by
    unfold aggregateTransfers
    rw [List.foldl_append, List.foldl_cons, List.foldl_nil]
  rw [hfold]
  by_cases hblock : transfer.blockNumber = sourceBlock
  · rw [if_neg (not_not_intro hblock)]
    unfold TransferAggregate.count IndexedTransfer.added IndexedTransfer.removed
      IndexedTransfer.removal IndexedTransfer.Removes
    by_cases hfrom : transfer.fromAddress = ZERO_ADDRESS
    · simp [hblock, hfrom, hadditions, hremovals, hevents]
    · by_cases hto : transfer.toAddress = ZERO_ADDRESS
      · simp [hblock, hfrom, hto, hadditions, hremovals, hevents]
      · simp [hblock, hfrom, hto, hadditions, hremovals, hevents]
  · rw [if_pos hblock]
    unfold IndexedTransfer.added IndexedTransfer.removed IndexedTransfer.removal
      IndexedTransfer.Removes
    simp [hblock, hadditions, hremovals, hevents]

/-- **The counts are sums.** -/
theorem counts_aggregateTransfers :
    (aggregateTransfers transfers sourceBlock).additionsRaw =
        (transfers.map (·.added sourceBlock)).sum ∧
      (aggregateTransfers transfers sourceBlock).removalsRaw =
        (transfers.map (·.removed sourceBlock)).sum ∧
      (aggregateTransfers transfers sourceBlock).removalEvents =
        transfers.flatMap (·.removal sourceBlock) := by
  induction transfers using List.reverseRecOn with
  | nil => exact ⟨rfl, rfl, rfl⟩
  | append_singleton transfers transfer ih =>
    obtain ⟨hadditions, hremovals, hevents⟩ := ih
    obtain ⟨hadded, hremoved, hremoval⟩ :=
      @counts_concat transfers transfer sourceBlock
    rw [hadded, hremoved, hremoval, hadditions, hremovals, hevents]
    simp

/-- **A balance is the sum of what each transfer gives.** -/
theorem get_aggregateTransfers (h : address ≠ ZERO_ADDRESS) :
    (aggregateTransfers transfers sourceBlock).balances.get address =
      (transfers.map (·.flow address)).sum := by
  induction transfers using List.reverseRecOn with
  | nil => rfl
  | append_singleton transfers transfer ih =>
    rw [aggregateTransfers_concat.1, get_move h, ih]
    simp only [List.map_append, List.map_cons, List.map_nil, List.sum_append, List.sum_cons,
      List.sum_nil, IndexedTransfer.flow]
    omega

/-- The locked amount too is a sum. -/
theorem zeroLockedRaw_aggregateTransfers :
    (aggregateTransfers transfers sourceBlock).zeroLockedRaw =
      (transfers.map (·.locked)).sum := by
  induction transfers using List.reverseRecOn with
  | nil => rfl
  | append_singleton transfers transfer ih =>
    rw [aggregateTransfers_concat.2, zeroLockedRaw_move, ih]
    simp [IndexedTransfer.locked]

/-- Every address of a transfer but the zero address has an entry. -/
theorem mem_keys_aggregateTransfers :
    address ∈ (aggregateTransfers transfers sourceBlock).balances.keys ↔
      address ≠ ZERO_ADDRESS ∧ ∃ transfer ∈ transfers, transfer.Touches address := by
  have hadd : ∀ (balances : Tally Address) (a : Address) (amount : ℤ),
      address ∈ (if a = ZERO_ADDRESS then balances else balances.add a amount).keys ↔
        address ∈ balances.keys ∨ address ≠ ZERO_ADDRESS ∧ a = address := by
    intro balances a amount
    by_cases ha : a = ZERO_ADDRESS
    · rw [if_pos ha]
      refine ⟨Or.inl, fun h => h.resolve_right fun hne => hne.1 (hne.2.symm.trans ha)⟩
    · rw [if_neg ha, Tally.mem_keys_add]
      refine or_congr_right ⟨fun h => ⟨h ▸ ha, h.symm⟩, fun h => h.2.symm⟩
  induction transfers using List.reverseRecOn with
  | nil =>
    have hkeys : (aggregateTransfers [] sourceBlock).balances.keys = [] := rfl
    simp [hkeys]
  | append_singleton transfers transfer ih =>
    rw [aggregateTransfers_concat.1, balances_move]
    dsimp only
    rw [hadd, hadd]
    have hsplit : (∃ t ∈ transfers ++ [transfer], t.Touches address) ↔
        (∃ t ∈ transfers, t.Touches address) ∨ transfer.Touches address := by
      simp only [List.mem_append, List.mem_singleton, or_and_right, exists_or, exists_eq_left]
    refine (or_congr_left (or_congr_left ih)).trans ?_
    rw [hsplit, or_assoc, ← and_or_left, ← and_or_left]
    rfl

/-- **The balances do not depend on the order of the transfers.** -/
theorem balances_perm (h : transfers.Perm transfers') :
    (aggregateTransfers transfers sourceBlock).balances.rows.Perm
      (aggregateTransfers transfers' sourceBlock).balances.rows := by
  have hkeys : ∀ address, address ∈ (aggregateTransfers transfers sourceBlock).balances.keys ↔
      address ∈ (aggregateTransfers transfers' sourceBlock).balances.keys := by
    intro address
    rw [mem_keys_aggregateTransfers, mem_keys_aggregateTransfers]
    simp only [h.mem_iff]
  refine Tally.perm_of_get_eq hkeys fun address => ?_
  by_cases hzero : address = ZERO_ADDRESS
  · have hfree : ∀ transfers : List IndexedTransfer,
        address ∉ (aggregateTransfers transfers sourceBlock).balances.keys := by
      intro transfers hmem
      exact (mem_keys_aggregateTransfers.mp hmem).1 hzero
    rw [Tally.get_of_notMem (hfree _), Tally.get_of_notMem (hfree _)]
  · rw [get_aggregateTransfers hzero, get_aggregateTransfers hzero]
    exact (h.map _).sum_eq

end Sums

/-! ## The snapshot -/

instance : IsTrans LiquidityProvider compareProviders where
  trans left middle right h h' := by
    unfold compareProviders at *
    split_ifs at * <;> omega

instance : Std.Total compareProviders where
  total left right := by
    unfold compareProviders
    split_ifs <;> omega

theorem compareProviders_antisymm {left right : LiquidityProvider}
    (h : compareProviders left right) (h' : compareProviders right left) : left = right := by
  obtain ⟨⟨leftValue⟩, leftRaw⟩ := left
  obtain ⟨⟨rightValue⟩, rightRaw⟩ := right
  unfold compareProviders at *
  dsimp only at *
  have hraw : leftRaw = rightRaw := by
    split_ifs at * <;> omega
  have hvalue : leftValue = rightValue := by
    split_ifs at * <;> omega
  rw [hraw, hvalue]

/-- **A snapshot accounts for the supply**: the providers and what is burned
have all of it, by positive balances of distinct addresses. -/
structure ConservesSupply (snapshot : OwnershipSnapshot) (totalSupplyRaw : ℕ) : Prop where
  supply : (snapshot.providers.map (·.liquidityRaw)).sum + snapshot.burnedLiquidityRaw =
    totalSupplyRaw
  burned : (snapshot.burnedProviders.map (·.liquidityRaw)).sum = snapshot.burnedLiquidityRaw
  positive : ∀ provider ∈ snapshot.providers ++ snapshot.burnedProviders,
    0 < provider.liquidityRaw
  distinct : ((snapshot.providers ++ snapshot.burnedProviders).map (·.address)).Nodup
  live : ∀ provider ∈ snapshot.providers,
    provider.address ≠ ZERO_ADDRESS ∧ provider.address ≠ DEAD_ADDRESS
  sorted : snapshot.providers.Pairwise fun left right => right.liquidityRaw ≤ left.liquidityRaw

/-- **The same snapshot** up to the order of the removals, and that in which
the balances were first written. -/
structure SameSnapshot (left right : OwnershipSnapshot) : Prop where
  providers : left.providers = right.providers
  burnedProviders : left.burnedProviders = right.burnedProviders
  burnedLiquidityRaw : left.burnedLiquidityRaw = right.burnedLiquidityRaw
  additionsRaw : left.additionsRaw = right.additionsRaw
  removalsRaw : left.removalsRaw = right.removalsRaw
  removalEvents : left.removalEvents.Perm right.removalEvents
  balances : left.balances.rows.Perm right.balances.rows

section Snapshot

variable {transfers transfers' : List IndexedTransfer} {totalSupplyRaw sourceBlock : ℕ}
  {snapshot : OwnershipSnapshot} {balances : Tally Address}

/-- The positions listed of the balances. -/
theorem sum_providers (hnonneg : ∀ entry ∈ balances.rows, 0 ≤ entry.2) :
    (((((balances.rows.filter fun entry => 0 < entry.2).filter fun entry =>
        entry.1 ≠ DEAD_ADDRESS).map fun entry => (⟨entry.1, entry.2⟩ : LiquidityProvider)
      ).insertionSort compareProviders).map (·.liquidityRaw)).sum + balances.get DEAD_ADDRESS =
      balances.total := by
  have hsorted := ((List.perm_insertionSort compareProviders
    (((balances.rows.filter fun entry => 0 < entry.2).filter fun entry =>
      entry.1 ≠ DEAD_ADDRESS).map fun entry => (⟨entry.1, entry.2⟩ : LiquidityProvider))).map
    (·.liquidityRaw)).sum_eq
  have hswap : ((balances.rows.filter fun entry => 0 < entry.2).filter fun entry =>
      entry.1 ≠ DEAD_ADDRESS) =
      (balances.rows.filter fun entry => entry.1 ≠ DEAD_ADDRESS).filter fun entry =>
        0 < entry.2 := List.filter_comm _ _ _
  have hrest : ∀ entry ∈ balances.rows.filter fun entry => entry.1 ≠ DEAD_ADDRESS,
      0 ≤ entry.2 := fun entry hentry => hnonneg entry (List.mem_of_mem_filter hentry)
  rw [hsorted, List.map_map, hswap]
  exact (congrArg (· + _) (Tally.sum_filter_pos hrest)).trans Tally.sum_filter_ne

/-- The evidence of what is burned adds up to it. -/
theorem sum_burnedProviderEvidence {zeroLockedRaw : ℕ} {deadBalance : ℤ} (h : 0 ≤ deadBalance) :
    ((burnedProviderEvidence zeroLockedRaw deadBalance).map (·.liquidityRaw)).sum =
      zeroLockedRaw + deadBalance := by
  unfold burnedProviderEvidence
  by_cases hlocked : zeroLockedRaw > 0
  · by_cases hdead : deadBalance > 0
    · simp [hlocked, hdead]
    · have : deadBalance = 0 := by omega
      simp [hlocked, this]
  · have hzero : zeroLockedRaw = 0 := by omega
    by_cases hdead : deadBalance > 0
    · simp [hzero, hdead]
    · have : deadBalance = 0 := by omega
      simp [hzero, this]

theorem mem_burnedProviderEvidence {zeroLockedRaw : ℕ} {deadBalance : ℤ}
    {provider : LiquidityProvider}
    (h : provider ∈ burnedProviderEvidence zeroLockedRaw deadBalance) :
    0 < provider.liquidityRaw ∧
      (provider.address = ZERO_ADDRESS ∨ provider.address = DEAD_ADDRESS) := by
  unfold burnedProviderEvidence at h
  rcases List.mem_append.mp h with h | h
  · split at h
    · obtain rfl := List.mem_singleton.mp h
      exact ⟨by dsimp only; omega, .inl rfl⟩
    · cases h
  · split at h
    · obtain rfl := List.mem_singleton.mp h
      exact ⟨by dsimp only; omega, .inr rfl⟩
    · cases h

theorem nodup_burnedProviderEvidence {zeroLockedRaw : ℕ} {deadBalance : ℤ} :
    ((burnedProviderEvidence zeroLockedRaw deadBalance).map (·.address)).Nodup := by
  have hne : ZERO_ADDRESS ≠ DEAD_ADDRESS := by decide
  unfold burnedProviderEvidence
  split <;> split <;> simp [hne]

/-- **A snapshot accounts for the supply.** -/
theorem conservesSupply
    (h : ownershipSnapshot transfers totalSupplyRaw sourceBlock = some snapshot) :
    ConservesSupply snapshot totalSupplyRaw := by
  unfold ownershipSnapshot at h
  dsimp only at h
  split at h
  · cases h
  rename_i hnegative
  split at h
  · cases h
  rename_i hsupply
  obtain rfl := Option.some.inj h
  have hkeys := @mem_keys_aggregateTransfers transfers sourceBlock
  generalize (aggregateTransfers transfers sourceBlock).balances = balances at *
  have hnonneg : ∀ entry ∈ balances.rows, 0 ≤ entry.2 := by
    intro entry hentry
    by_contra hneg
    exact hnegative (List.any_eq_true.mpr ⟨entry, hentry, decide_eq_true (by omega)⟩)
  have hdead : 0 ≤ balances.get DEAD_ADDRESS := by
    by_cases hmem : DEAD_ADDRESS ∈ balances.keys
    · obtain ⟨entry, hentry, hk⟩ := Table.mem_keys.mp hmem
      rw [← hk, Tally.get_of_mem hentry]
      exact hnonneg entry hentry
    · rw [Tally.get_of_notMem hmem]
  rw [Tally.sum_filter_pos hnonneg] at hsupply
  have hproviders := sum_providers hnonneg
  unfold Tally.total at hproviders
  have hlisted : ∀ provider ∈ (((balances.rows.filter fun entry => 0 < entry.2).filter
      fun entry => entry.1 ≠ DEAD_ADDRESS).map fun entry =>
        (⟨entry.1, entry.2⟩ : LiquidityProvider)).insertionSort compareProviders,
      0 < provider.liquidityRaw ∧ provider.address ≠ ZERO_ADDRESS ∧
        provider.address ≠ DEAD_ADDRESS := by
    intro provider hprovider
    obtain ⟨entry, hentry, rfl⟩ := List.mem_map.mp ((List.mem_insertionSort _).mp hprovider)
    obtain ⟨hpositive, hlive⟩ := List.mem_filter.mp hentry
    obtain ⟨hrow, hpos⟩ := List.mem_filter.mp hpositive
    exact ⟨of_decide_eq_true hpos, ((hkeys).mp (Table.key_mem_keys hrow)).1,
      of_decide_eq_true hlive⟩
  refine ⟨?_, sum_burnedProviderEvidence hdead, ?_, ?_, fun p hp => (hlisted p hp).2, ?_⟩
  · dsimp only
    omega
  · intro provider hprovider
    rcases List.mem_append.mp hprovider with hlist | hburned
    · exact (hlisted provider hlist).1
    · exact (mem_burnedProviderEvidence hburned).1
  · rw [List.map_append, List.nodup_append]
    refine ⟨?_, nodup_burnedProviderEvidence, ?_⟩
    · have hsublist := ((List.filter_sublist (p := fun entry : Address × ℤ =>
        entry.1 ≠ DEAD_ADDRESS)).trans (List.filter_sublist (p := fun entry => 0 < entry.2)
          (l := balances.rows))).map Prod.fst
      refine ((List.perm_insertionSort _ _).map _).nodup_iff.mpr ?_
      rw [List.map_map]
      exact hsublist.nodup balances.unique
    · intro address haddress burned hburned heq
      obtain ⟨provider, hprovider, rfl⟩ := List.mem_map.mp haddress
      obtain ⟨evidence, hevidence, rfl⟩ := List.mem_map.mp hburned
      rcases (mem_burnedProviderEvidence hevidence).2 with hz | hd
      · exact (hlisted provider hprovider).2.1 (heq.trans hz)
      · exact (hlisted provider hprovider).2.2 (heq.trans hd)
  · refine (List.pairwise_insertionSort compareProviders _).imp fun {left right} hle => ?_
    unfold compareProviders at hle
    split_ifs at hle <;> omega

/-- **The order of the transfers** decides that of the removals and of the
balances' entries, and nothing else. -/
theorem sameSnapshot_of_perm (h : transfers.Perm transfers') :
    Option.Rel SameSnapshot (ownershipSnapshot transfers totalSupplyRaw sourceBlock)
      (ownershipSnapshot transfers' totalSupplyRaw sourceBlock) := by
  have hbalances := @balances_perm transfers transfers' sourceBlock h
  have hne : DEAD_ADDRESS ≠ ZERO_ADDRESS := by decide
  have hdead : (aggregateTransfers transfers sourceBlock).balances.get DEAD_ADDRESS =
      (aggregateTransfers transfers' sourceBlock).balances.get DEAD_ADDRESS := by
    rw [get_aggregateTransfers hne, get_aggregateTransfers hne]
    exact (h.map _).sum_eq
  have hlocked : (aggregateTransfers transfers sourceBlock).zeroLockedRaw =
      (aggregateTransfers transfers' sourceBlock).zeroLockedRaw := by
    rw [zeroLockedRaw_aggregateTransfers, zeroLockedRaw_aggregateTransfers]
    exact (h.map _).sum_eq
  obtain ⟨hadditions, hremovals, hevents⟩ := @counts_aggregateTransfers transfers sourceBlock
  obtain ⟨hadditions', hremovals', hevents'⟩ := @counts_aggregateTransfers transfers' sourceBlock
  have hany : ((aggregateTransfers transfers sourceBlock).balances.rows.any
      fun entry => decide (entry.2 < 0)) =
      (aggregateTransfers transfers' sourceBlock).balances.rows.any
        fun entry => decide (entry.2 < 0) := hbalances.any_eq
  have hpositive := hbalances.filter fun entry => decide (0 < entry.2)
  have hsum := (hpositive.map Prod.snd).sum_eq
  have hproviders := insertionSort_eq_of_perm (r := compareProviders)
    ((hpositive.filter fun entry => decide (entry.1 ≠ DEAD_ADDRESS)).map
      fun entry => (⟨entry.1, entry.2⟩ : LiquidityProvider))
    fun _ _ _ _ => compareProviders_antisymm
  unfold ownershipSnapshot
  dsimp only
  rw [hany, hlocked, hsum, hdead]
  by_cases hnegative : ((aggregateTransfers transfers' sourceBlock).balances.rows.any
      fun entry => decide (entry.2 < 0)) = true
  · rw [if_pos hnegative, if_pos hnegative]
    exact .none
  rw [if_neg hnegative, if_neg hnegative]
  split
  · exact .none
  · refine .some ⟨hproviders, rfl, rfl, ?_, ?_, ?_, hbalances⟩
    · dsimp only
      rw [hadditions, hadditions']
      exact (h.map _).sum_eq
    · dsimp only
      rw [hremovals, hremovals']
      exact (h.map _).sum_eq
    · dsimp only
      rw [hevents, hevents']
      exact h.flatMap_right _

/-- **LP ownership snapshots conserve supply**, whatever the transfers, and
do not depend on their order. -/
theorem ownershipSnapshot_conserves (transfers : List IndexedTransfer)
    (totalSupplyRaw sourceBlock : ℕ) :
    (∀ snapshot, ownershipSnapshot transfers totalSupplyRaw sourceBlock = some snapshot →
      ConservesSupply snapshot totalSupplyRaw) ∧
    ∀ transfers', transfers.Perm transfers' →
      Option.Rel SameSnapshot (ownershipSnapshot transfers totalSupplyRaw sourceBlock)
        (ownershipSnapshot transfers' totalSupplyRaw sourceBlock) :=
  ⟨fun _ h => conservesSupply h, fun _ h => sameSnapshot_of_perm h⟩

end Snapshot

end HoodSentry
