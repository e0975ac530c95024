import HoodSentry.Worker.Balances
import HoodSentry.Worker.LotProjection
/-!
# Lots and balances

Without an incomplete disposal the lots hold what the events net to. The
events are the wallet's trades and the transfers of the other
transactions, and the balance is what all transfers net to. So the two
agree exactly where the trades net to the transfers in their own
transactions (`openIn_eq_iff`): where each trade has its leg there, exactly
where what these transactions move besides the legs cancels.
-/

namespace HoodSentry

open Fifo

/-! ## What moves -/

/-- What a transfer adds to a wallet's holdings. -/
def TransferRow.netTo (wallet : Address) (t : TransferRow) : ℤ :=
  (if t.toAddress = wallet then (t.amountRaw : ℤ) else 0) -
    if t.fromAddress = wallet then (t.amountRaw : ℤ) else 0

/-- What a trade adds. -/
def SwapRow.netTo (target : ProjectionTarget) (s : SwapRow) : ℤ :=
  if s.tokenInAddress = target.quoteAddress then s.amountOutRaw else -(s.amountInRaw : ℤ)

def WalletEvent.net (e : WalletEvent) : ℤ := e.acquired - e.disposed

/-- What is left in the lots that a projection writes. -/
def Projection.heldRaw (p : Projection) : ℕ := (p.lots.map (·.remainingAmountRaw)).sum

section Terms

variable (f : WalletFacts) (chainId : ℕ) (target : ProjectionTarget) (leg : SwapRow → TransferRow)

/-- The wallet's transfers in the transactions of its trades. -/
def WalletFacts.tradeTransfers : List TransferRow :=
  (f.walletTransfers chainId target).filter fun t =>
    t.transactionHash ∈ (f.walletTrades chainId target).map (·.transactionHash)

/-- **Each trade has its leg**: a transfer of its own that moves the token
between the wallet and another address, in the trade's transaction. -/
structure Legs : Prop where
  mem : ∀ s ∈ f.walletTrades chainId target, leg s ∈ f.walletTransfers chainId target
  transaction : ∀ s ∈ f.walletTrades chainId target,
    (leg s).transactionHash = s.transactionHash
  injective : ∀ s ∈ f.walletTrades chainId target, ∀ t ∈ f.walletTrades chainId target,
    leg s = leg t → s = t
  bought : ∀ s ∈ f.walletTrades chainId target, s.tokenInAddress = target.quoteAddress →
    (leg s).toAddress = target.walletAddress ∧ (leg s).fromAddress ≠ target.walletAddress ∧
      (leg s).amountRaw = s.amountOutRaw
  sold : ∀ s ∈ f.walletTrades chainId target, s.tokenInAddress ≠ target.quoteAddress →
    (leg s).fromAddress = target.walletAddress ∧ (leg s).toAddress ≠ target.walletAddress ∧
      (leg s).amountRaw = s.amountInRaw

/-- What these transactions move besides the legs. -/
def WalletFacts.furtherTransfers : List TransferRow :=
  (f.tradeTransfers chainId target).filter fun t =>
    t ∉ (f.walletTrades chainId target).map leg

end Terms

/-! ## Sums -/

section Sums

variable {wallet : Address}

theorem sum_netTo_filter (wallet : Address) (ts : List TransferRow) (p : TransferRow → Bool) :
    ((ts.filter p).map (·.netTo wallet)).sum +
      ((ts.filter fun t => !p t).map (·.netTo wallet)).sum = (ts.map (·.netTo wallet)).sum := by
  rw [← List.sum_append, ← List.map_append]
  exact ((List.filter_append_perm p ts).map _).sum_eq

theorem sum_netTo (ts : List TransferRow) :
    (ts.map (·.netTo wallet)).sum =
      (ts.map fun t => if t.toAddress = wallet then (t.amountRaw : ℤ) else 0).sum -
        (ts.map fun t => if t.fromAddress = wallet then (t.amountRaw : ℤ) else 0).sum := by
  induction ts with
  | nil => rfl
  | cons t ts ih =>
    rw [List.map_cons, List.sum_cons, ih, TransferRow.netTo, List.map_cons, List.sum_cons,
      List.map_cons, List.sum_cons]
    omega

end Sums

variable {f : WalletFacts} {chainId requestedBlock : ℕ} {target : ProjectionTarget}
variable {leg : SwapRow → TransferRow} {p : Projection}

/-- **The balance is what the wallet's transfers net to.** -/
theorem balanceRaw_eq_sum :
    (projectedBalance f.tokenTransfers.rows chainId target.tokenAddress
        target.walletAddress).balanceRaw =
      ((f.walletTransfers chainId target).map (·.netTo target.walletAddress)).sum := by
  have hjoined : (f.walletTransfers chainId target).Perm (f.tokenTransfers.rows.filter fun t =>
      t.joins chainId target.tokenAddress target.walletAddress) :=
    List.perm_insertionSort _ _
  rw [(hjoined.map _).sum_eq, sum_netTo]
  rfl

/-! ## What the events net to -/

theorem net_ofTrade (s : SwapRow) : (WalletEvent.ofTrade target s).net = s.netTo target := by
  unfold WalletEvent.ofTrade SwapRow.netTo
  split
  · simp [WalletEvent.net, WalletEvent.acquired, WalletEvent.disposed]
  · simp [WalletEvent.net, WalletEvent.acquired, WalletEvent.disposed]

theorem net_ofTransfer {t : TransferRow} (hmem : t ∈ f.walletTransfers chainId target)
    (hmoves : t.fromAddress ≠ t.toAddress) :
    (WalletEvent.ofTransfer target t).net = t.netTo target.walletAddress := by
  have hmem := List.of_mem_filter ((List.mem_insertionSort _).mp hmem)
  simp only [Bool.and_eq_true, Bool.or_eq_true, decide_eq_true_eq] at hmem
  unfold WalletEvent.ofTransfer TransferRow.netTo
  by_cases hin : t.toAddress = target.walletAddress
  · have hout : t.fromAddress ≠ target.walletAddress := fun hout => hmoves (hout.trans hin.symm)
    rw [if_pos hin, if_pos hin, if_neg hout]
    simp [WalletEvent.net, WalletEvent.acquired, WalletEvent.disposed]
  · have hout : t.fromAddress = target.walletAddress := hmem.2.resolve_right hin
    rw [if_neg hin, if_neg hin, if_pos hout]
    simp [WalletEvent.net, WalletEvent.acquired, WalletEvent.disposed]

/-- A wallet's transfer to itself adds nothing. -/
theorem netTo_of_self {wallet : Address} {t : TransferRow} (h : t.fromAddress = t.toAddress) :
    t.netTo wallet = 0 := by
  rw [TransferRow.netTo, h, sub_self]

/-- The events net to the trades and the transfers of the other
transactions. -/
theorem sum_net_walletEvents (f : WalletFacts) (chainId : ℕ) (target : ProjectionTarget) :
    ((f.walletEvents chainId target).map WalletEvent.net).sum +
        ((f.tradeTransfers chainId target).map (·.netTo target.walletAddress)).sum =
      ((f.walletTrades chainId target).map (·.netTo target)).sum +
        ((f.walletTransfers chainId target).map (·.netTo target.walletAddress)).sum := by
  have hperm := ((List.perm_insertionSort _ _ : (f.walletEvents chainId target).Perm _).map
    WalletEvent.net).sum_eq
  rw [List.map_append, List.sum_append, List.map_map, List.map_map] at hperm
  have htrades : (f.walletTrades chainId target).map (WalletEvent.net ∘ WalletEvent.ofTrade target) =
      (f.walletTrades chainId target).map (·.netTo target) :=
    List.map_congr_left fun s _ => net_ofTrade s
  rw [htrades] at hperm
  have hself : ∀ ts : List TransferRow, (∀ t ∈ ts, t ∈ f.walletTransfers chainId target) →
      ((ts.filter fun t => t.transactionHash ∉
            (f.walletTrades chainId target).map (·.transactionHash) &&
          t.fromAddress ≠ t.toAddress).map
        (WalletEvent.net ∘ WalletEvent.ofTransfer target)).sum =
      ((ts.filter fun t => !decide (t.transactionHash ∈
          (f.walletTrades chainId target).map (·.transactionHash))).map
        (·.netTo target.walletAddress)).sum := by
    intro ts
    induction ts with
    | nil => exact fun _ => rfl
    | cons t ts ih =>
      intro hts
      have hrest := ih fun t ht => hts t (List.mem_cons_of_mem _ ht)
      have hnet := fun hmoves => net_ofTransfer (hts t List.mem_cons_self) hmoves
      have hzero : t.fromAddress = t.toAddress → t.netTo target.walletAddress = 0 := netTo_of_self
      simp only [List.filter_cons]
      by_cases htransaction : t.transactionHash ∈
          (f.walletTrades chainId target).map (·.transactionHash)
      · simpa [htransaction] using hrest
      · by_cases hmoves : t.fromAddress = t.toAddress
        · simpa [htransaction, hmoves, hzero hmoves] using hrest
        · simpa [htransaction, hmoves, hnet hmoves] using hrest
  rw [hself _ fun _ h => h] at hperm
  have hsplit := sum_netTo_filter target.walletAddress (f.walletTransfers chainId target)
    fun t => decide (t.transactionHash ∈ (f.walletTrades chainId target).map (·.transactionHash))
  rw [WalletFacts.walletEvents, WalletFacts.tradeTransfers]
  omega

/-! ## A complete history -/

section Ledger

variable {s : WalletLedger} {e : WalletEvent} {events : List WalletEvent}

/-- An incomplete disposal is never forgotten. -/
theorem incomplete_apply (h : .incompleteAcquisitionHistory ∈ s.warnings) :
    .incompleteAcquisitionHistory ∈ (s.apply e).warnings := by
  have hconsume : ∀ consumed : Consumed,
      WalletWarning.incompleteAcquisitionHistory ∈ (s.consume consumed).warnings := by
    intro consumed
    unfold WalletLedger.consume
    split
    · exact h
    · exact List.mem_cons_of_mem _ h
  cases e with
  | buy row => exact h
  | transferIn row => exact List.mem_cons_of_mem _ h
  | sell row => exact hconsume _
  | transferOut row => exact hconsume _

/-- Without the warning the lots had what the event disposes of. -/
theorem disposed_le_of_complete (h : .incompleteAcquisitionHistory ∉ (s.apply e).warnings) :
    e.disposed ≤ openIn s.lots := by
  have hconsume : ∀ amount,
      WalletWarning.incompleteAcquisitionHistory ∉ (s.consume (consumeLots s.lots amount)).warnings →
        amount ≤ openIn s.lots := by
    intro amount hwarnings
    unfold WalletLedger.consume at hwarnings
    split at hwarnings
    · rename_i hcomplete
      have hremaining := remaining_consumeLoop amount s.lots
      simp only [consumeLots, Bool.and_eq_true, decide_eq_true_eq] at hcomplete
      omega
    · exact absurd List.mem_cons_self hwarnings
  cases e with
  | buy row => exact Nat.zero_le _
  | transferIn row => exact Nat.zero_le _
  | sell row => exact hconsume _ h
  | transferOut row => exact hconsume _ h

/-- **A complete history**: the lots hold what the events net to. -/
theorem openIn_of_complete
    (h : .incompleteAcquisitionHistory ∉ (events.foldl WalletLedger.apply s).warnings) :
    (openIn (events.foldl WalletLedger.apply s).lots : ℤ) =
      openIn s.lots + (events.map WalletEvent.net).sum := by
  induction events generalizing s with
  | nil => simp
  | cons e events ih =>
    have hkept : ∀ (events : List WalletEvent) (s : WalletLedger),
        .incompleteAcquisitionHistory ∈ s.warnings →
          .incompleteAcquisitionHistory ∈ (events.foldl WalletLedger.apply s).warnings := by
      intro events
      induction events with
      | nil => exact fun _ hs => hs
      | cons e events ih => exact fun s hs => ih (s.apply e) (incomplete_apply hs)
    have hstep := openIn_apply s e
    have hheld := disposed_le_of_complete fun hwarned => h (hkept events (s.apply e) hwarned)
    rw [consumed_eq, Nat.min_eq_left hheld] at hstep
    rw [List.foldl_cons, ih h, List.map_cons, List.sum_cons, WalletEvent.net]
    omega

end Ledger

/-- What a projection's rows say of its ledger. -/
theorem lots_projectTarget (h : f.projectTarget chainId target requestedBlock = .ok p) :
    p.heldRaw = openIn (f.walletLedger chainId target).lots ∧
      (.incompleteAcquisitionHistory ∈ p.snapshot.warnings ↔
        .incompleteAcquisitionHistory ∈ (f.walletLedger chainId target).warnings) := by
  simp only [WalletFacts.projectTarget] at h
  split at h
  · cases h
  split at h
  · split at h
    · cases h
    cases Except.ok.inj h
    refine ⟨?_, ?_⟩
    · generalize (f.walletLedger chainId target) = s
      rw [Projection.heldRaw, List.map_map, WalletLedger.remainingLots, openIn]
      induction s.lots with
      | nil => rfl
      | cons lot lots ih =>
        rw [List.filter_cons]
        split
        · simpa [Lot.row, Spendable.left] using ih
        · rename_i hempty
          have hzero : lot.remainingAmountRaw = 0 := by simpa using hempty
          simpa [Spendable.left, hzero] using ih
    · simp [WalletLedger.snapshot, sortedWarnings]
  · cases h

/-! ## Where they agree -/

/-- **In general**: the lots hold the balance exactly where the trades net to
the transfers in their transactions. -/
theorem openIn_eq_iff (h : f.projectTarget chainId target requestedBlock = .ok p)
    (hcomplete : .incompleteAcquisitionHistory ∉ p.snapshot.warnings) :
    p.heldRaw = (projectedBalance f.tokenTransfers.rows chainId target.tokenAddress
        target.walletAddress).balanceRaw ↔
      ((f.tradeTransfers chainId target).map (·.netTo target.walletAddress)).sum =
        ((f.walletTrades chainId target).map (·.netTo target)).sum := by
  obtain ⟨hlots, hwarnings⟩ := lots_projectTarget h
  have hopen : (openIn (f.walletLedger chainId target).lots : ℤ) = _ :=
    openIn_of_complete fun hwarned => hcomplete (hwarnings.mpr hwarned)
  have hnone : openIn WalletLedger.empty.lots = 0 := rfl
  have hevents := sum_net_walletEvents f chainId target
  rw [hlots, hopen, hnone, balanceRaw_eq_sum]
  omega

/-- The legs net to the trades. -/
theorem sum_netTo_legs (hlegs : Legs f chainId target leg) :
    (((f.walletTrades chainId target).map leg).map (·.netTo target.walletAddress)).sum =
      ((f.walletTrades chainId target).map (·.netTo target)).sum := by
  rw [List.map_map]
  congr 1
  refine List.map_congr_left fun s hs => ?_
  rw [Function.comp_apply, TransferRow.netTo, SwapRow.netTo]
  by_cases hbought : s.tokenInAddress = target.quoteAddress
  · obtain ⟨hin, hout, hamount⟩ := hlegs.bought s hs hbought
    rw [if_pos hin, if_neg hout, if_pos hbought, hamount, sub_zero]
  · obtain ⟨hout, hin, hamount⟩ := hlegs.sold s hs hbought
    rw [if_neg hin, if_pos hout, if_neg hbought, hamount, zero_sub]

theorem nodup_walletTrades : (f.walletTrades chainId target).Nodup :=
  ((List.perm_insertionSort _ _).nodup_iff.mpr (f.swaps.unique.of_map _ |>.filter _)).filter _

theorem nodup_tradeTransfers : (f.tradeTransfers chainId target).Nodup :=
  ((List.perm_insertionSort _ _).nodup_iff.mpr
    (f.tokenTransfers.unique.of_map _ |>.filter _)).filter _

/-- The transfers in the trades' transactions are the legs and the further
ones. -/
theorem sum_netTo_tradeTransfers (hlegs : Legs f chainId target leg) :
    ((f.tradeTransfers chainId target).map (·.netTo target.walletAddress)).sum =
      ((f.walletTrades chainId target).map (·.netTo target)).sum +
        ((f.furtherTransfers chainId target leg).map (·.netTo target.walletAddress)).sum := by
  have hperm : ((f.tradeTransfers chainId target).filter fun t =>
      decide (t ∈ (f.walletTrades chainId target).map leg)).Perm
        ((f.walletTrades chainId target).map leg) := by
    refine (List.perm_ext_iff_of_nodup (nodup_tradeTransfers.filter _)
      (nodup_walletTrades.map_on hlegs.injective)).mpr fun t => ?_
    rw [List.mem_filter, decide_eq_true_iff]
    refine ⟨fun h => h.2, fun h => ⟨?_, h⟩⟩
    obtain ⟨s, hs, rfl⟩ := List.mem_map.mp h
    refine List.mem_filter.mpr ⟨hlegs.mem s hs, decide_eq_true ?_⟩
    exact List.mem_map.mpr ⟨s, hs, (hlegs.transaction s hs).symm⟩
  have hsplit := sum_netTo_filter target.walletAddress (f.tradeTransfers chainId target)
    fun t => decide (t ∈ (f.walletTrades chainId target).map leg)
  rw [(hperm.map _).sum_eq, sum_netTo_legs hlegs] at hsplit
  rw [← hsplit, WalletFacts.furtherTransfers]
  simp only [decide_not]

/-- **Where lots agree with balances.** -/
theorem lots_agree_iff (h : f.projectTarget chainId target requestedBlock = .ok p)
    (hcomplete : .incompleteAcquisitionHistory ∉ p.snapshot.warnings)
    (hlegs : Legs f chainId target leg) :
    p.heldRaw = (projectedBalance f.tokenTransfers.rows chainId target.tokenAddress
        target.walletAddress).balanceRaw ↔
      ((f.furtherTransfers chainId target leg).map (·.netTo target.walletAddress)).sum = 0 := by
  rw [openIn_eq_iff h hcomplete, sum_netTo_tradeTransfers hlegs]
  omega

/-! ## A trade with a rebate -/

/-- The first purchase's transaction also sends the wallet 3 of the token. -/
def WalletFacts.rebated : WalletFacts :=
  { WalletFacts.sample with
    tokenTransfers := Table.empty.insertAll
      [⟨MAINNET_CHAIN_ID, 1, ⟨1⟩, ⟨1⟩, 1, ⟨7⟩, ⟨11⟩, ⟨1⟩, 10, true⟩,
        ⟨MAINNET_CHAIN_ID, 1, ⟨1⟩, ⟨1⟩, 3, ⟨7⟩, ⟨13⟩, ⟨1⟩, 3, true⟩,
        ⟨MAINNET_CHAIN_ID, 2, ⟨2⟩, ⟨2⟩, 1, ⟨7⟩, ⟨12⟩, ⟨1⟩, 20, true⟩] }

def purchaseLeg : TransferRow := ⟨MAINNET_CHAIN_ID, 1, ⟨1⟩, ⟨1⟩, 1, ⟨7⟩, ⟨11⟩, ⟨1⟩, 10, true⟩

theorem legs_rebated :
    Legs .rebated MAINNET_CHAIN_ID ⟨⟨1⟩, ⟨7⟩, USDG⟩ fun _ => purchaseLeg := by
  have htrades : WalletFacts.rebated.walletTrades MAINNET_CHAIN_ID ⟨⟨1⟩, ⟨7⟩, USDG⟩ =
      [usdgPurchase] := by
    decide +kernel
  have hleg : purchaseLeg ∈
      WalletFacts.rebated.walletTransfers MAINNET_CHAIN_ID ⟨⟨1⟩, ⟨7⟩, USDG⟩ := by
    decide +kernel
  constructor
  · exact fun _ _ => hleg
  all_goals
    rw [htrades]
    decide

theorem projectTarget_rebated : ∃ p,
    WalletFacts.rebated.projectTarget MAINNET_CHAIN_ID ⟨⟨1⟩, ⟨7⟩, USDG⟩ 1 = .ok p ∧
      .incompleteAcquisitionHistory ∉ p.snapshot.warnings ∧ p.heldRaw = 30 := by
  have hholds : (WalletFacts.rebated.projectTarget MAINNET_CHAIN_ID ⟨⟨1⟩, ⟨7⟩, USDG⟩
      1).toOption.any (fun p => WalletWarning.incompleteAcquisitionHistory ∉ p.snapshot.warnings &&
        p.heldRaw = 30) = true := by
    decide +kernel
  cases hp : WalletFacts.rebated.projectTarget MAINNET_CHAIN_ID ⟨⟨1⟩, ⟨7⟩, USDG⟩ 1 with
  | error e =>
    rw [hp] at hholds
    cases hholds
  | ok p =>
    rw [hp] at hholds
    simp only [Except.toOption, Option.any_some, Bool.and_eq_true, decide_eq_true_eq] at hholds
    exact ⟨p, rfl, hholds⟩

/-- Here they differ by the rebate. -/
theorem lots_agree_iff_rebated : ∃ p,
    WalletFacts.rebated.projectTarget MAINNET_CHAIN_ID ⟨⟨1⟩, ⟨7⟩, USDG⟩ 1 = .ok p ∧
      (p.heldRaw = (projectedBalance WalletFacts.rebated.tokenTransfers.rows MAINNET_CHAIN_ID ⟨7⟩
          ⟨1⟩).balanceRaw ↔
        ((WalletFacts.rebated.furtherTransfers MAINNET_CHAIN_ID ⟨⟨1⟩, ⟨7⟩, USDG⟩
          fun _ => purchaseLeg).map (·.netTo ⟨1⟩)).sum = 0) := by
  obtain ⟨p, hp, hcomplete, -⟩ := projectTarget_rebated
  exact ⟨p, hp, lots_agree_iff hp hcomplete legs_rebated⟩

/-- **A rebate is in the balance and in no lot.** -/
theorem not_lots_agree :
    ¬∀ (f : WalletFacts) (chainId requestedBlock : ℕ) (target : ProjectionTarget)
      (leg : SwapRow → TransferRow) (p : Projection),
      f.projectTarget chainId target requestedBlock = .ok p →
      .incompleteAcquisitionHistory ∉ p.snapshot.warnings → Legs f chainId target leg →
        p.heldRaw = (projectedBalance f.tokenTransfers.rows chainId target.tokenAddress
          target.walletAddress).balanceRaw := by
  intro h
  obtain ⟨p, hp, hcomplete, hheld⟩ := projectTarget_rebated
  have hbalance : (projectedBalance WalletFacts.rebated.tokenTransfers.rows MAINNET_CHAIN_ID ⟨7⟩
      ⟨1⟩).balanceRaw = 33 := by
    decide +kernel
  have hagree := h .rebated _ _ _ _ p hp hcomplete legs_rebated
  rw [hheld, hbalance] at hagree
  exact absurd hagree (by decide)

/-!
## What the result accounts for

The realized result of a projection, its cost basis and its cash flows are
kept by three accumulators. Where every disposal was covered and every open
cost is known they account for the same money: the result is what the flows
net to, the basis of what is left, and what the wallet paid for units it gave
away or never got. Only the rounding of the charges is missing, at most one
for each piece taken and each open lot.
-/

/-- An amount as it changes the wallet's quote holdings. -/
def FlowType.signed (flowType : FlowType) (amountRaw : ℕ) : ℤ :=
  match flowType with
  | .inflow => amountRaw
  | .outflow => -amountRaw

/-- What the flows that a projection writes net to. -/
def Projection.netCashRaw (p : Projection) : ℤ :=
  (p.cashFlows.map fun r => r.flowType.signed r.amountRaw).sum

namespace WalletLedger

/-- What the lots cost that a transfer takes away. -/
def givenAway (s : WalletLedger) : WalletEvent → ℕ
  | .transferOut row => s.charged (.transferOut row)
  | .buy _ | .sell _ | .transferIn _ => 0

/-- What is paid for an amount of zero. -/
def paidForNothing : WalletEvent → ℕ
  | .buy row => if row.amountOutRaw = 0 then row.amountInRaw else 0
  | .sell _ | .transferIn _ | .transferOut _ => 0

def writtenOff (s : WalletLedger) (e : WalletEvent) : ℕ := s.givenAway e + paidForNothing e

/-- What the flows of a ledger net to. -/
def netCash (s : WalletLedger) : ℤ :=
  (s.cashFlows.map fun flow => flow.flowType.signed flow.amountRaw).sum

end WalletLedger

section Money

variable {s : WalletLedger} {e : WalletEvent} {events : List WalletEvent} {realized : ℤ} {basis : ℕ}

theorem totalCost_apply (s : WalletLedger) (e : WalletEvent) :
    totalCost (s.apply e).lots = totalCost s.lots + totalCost e.newLots := by
  obtain ⟨-, happend, -⟩ := lots_append (consumeLoop e.disposed s.lots).lots e.newLots
  rw [WalletLedger.lots_apply, happend, lots_consumeLoop, (totalCost_spend _ _).1]

/-- What an event acquires is charged nothing. -/
theorem charged_of_acquires (h : e.disposed = 0) : s.charged e = 0 := by
  rw [WalletLedger.charged, consumeLots, h]
  cases s.lots <;> simp [consumeLoop]

/-- A disposal that leaves a result has changed nothing in it. -/
theorem realized_of_consume {consumed : Consumed}
    (h : (s.consume consumed).realizedPnlRaw = some realized) :
    s.realizedPnlRaw = some realized := by
  unfold WalletLedger.consume at h
  split at h
  · exact h
  · cases h

/-- **One event**: the result, the flows and the costs move together. -/
theorem realized_apply (h : (s.apply e).realizedPnlRaw = some realized) :
    ∃ before, s.realizedPnlRaw = some before ∧
      realized + s.charged e + s.netCash + totalCost s.lots =
        before + s.writtenOff e + (s.apply e).netCash + totalCost (s.apply e).lots := by
  rw [totalCost_apply, WalletLedger.writtenOff]
  cases e with
  | buy row =>
    have hflows : (s.apply (.buy row)).netCash = s.netCash - row.amountInRaw := by
      simp [WalletLedger.netCash, WalletLedger.apply, FlowType.signed, sub_eq_add_neg]
    have hcost : totalCost (WalletEvent.buy row).newLots + WalletLedger.paidForNothing (.buy row) =
        row.amountInRaw := by
      rcases Nat.eq_zero_or_pos row.amountOutRaw with hzero | hpos
      · simp [WalletEvent.newLots, totalCost, WalletLedger.paidForNothing, hzero]
      · simp [WalletEvent.newLots, totalCost, WalletLedger.paidForNothing, hpos, hpos.ne']
    refine ⟨realized, h, ?_⟩
    rw [charged_of_acquires rfl, hflows, WalletLedger.givenAway]
    omega
  | transferIn row =>
    have hflows : (s.apply (.transferIn row)).netCash = s.netCash := rfl
    have hcost : totalCost (WalletEvent.transferIn row).newLots = 0 := by
      simp [WalletEvent.newLots, totalCost, List.filter_cons, apply_ite]
    refine ⟨realized, h, ?_⟩
    rw [charged_of_acquires rfl, hflows, hcost, WalletLedger.givenAway, WalletLedger.paidForNothing]
    omega
  | sell row =>
    obtain ⟨after, hafter, rfl⟩ := Option.map_eq_some_iff.mp h
    have hflows : (s.apply (.sell row)).netCash = s.netCash + row.amountOutRaw := by
      simp [WalletLedger.netCash, WalletLedger.apply, FlowType.signed]
    have hcost : totalCost (WalletEvent.sell row).newLots = 0 := rfl
    have hcharged : s.charged (.sell row) = (consumeLots s.lots row.amountInRaw).costRaw := rfl
    refine ⟨after, realized_of_consume hafter, ?_⟩
    rw [hflows, hcost, hcharged, WalletLedger.givenAway, WalletLedger.paidForNothing]
    omega
  | transferOut row =>
    have hflows : (s.apply (.transferOut row)).netCash = s.netCash := by
      simp [WalletLedger.netCash, WalletLedger.apply]
    have hcost : totalCost (WalletEvent.transferOut row).newLots = 0 := rfl
    refine ⟨realized, realized_of_consume h, ?_⟩
    rw [hflows, hcost, WalletLedger.givenAway, WalletLedger.paidForNothing]
    omega

/-- The same over any events. -/
theorem realized_foldl (h : (events.foldl WalletLedger.apply s).realizedPnlRaw = some realized) :
    ∃ before, s.realizedPnlRaw = some before ∧
      realized + s.tally WalletLedger.charged events + s.netCash + totalCost s.lots =
        before + s.tally WalletLedger.writtenOff events +
          (events.foldl WalletLedger.apply s).netCash +
          totalCost (events.foldl WalletLedger.apply s).lots := by
  induction events generalizing s with
  | nil => exact ⟨realized, h, by simp [WalletLedger.tally]⟩
  | cons e events ih =>
    obtain ⟨between, hbetween, hrest⟩ := ih h
    obtain ⟨before, hbefore, hstep⟩ := realized_apply hbetween
    refine ⟨before, hbefore, ?_⟩
    simp only [List.foldl_cons, WalletLedger.tally, Nat.cast_add] at hrest ⊢
    omega

/-- Known costs of the open lots add up to the basis of all lots. -/
theorem costBasisRaw_eq (h : s.costBasisRaw = some basis) :
    basis = basisOf s.lots ∧ openLots s.lots = s.remainingLots.length := by
  unfold WalletLedger.costBasisRaw at h
  split at h
  · cases h
  rename_i hknown
  obtain rfl := Option.some.inj h
  have hcost : ∀ lot ∈ s.lots, 0 < lot.remainingAmountRaw → lot.totalCostRaw.isSome := by
    intro lot hlot hopen
    rw [Option.isSome_iff_ne_none]
    intro hunknown
    refine hknown (List.any_eq_true.mpr ⟨lot, ?_, by rw [hunknown]; rfl⟩)
    exact List.mem_filter.mpr ⟨hlot, decide_eq_true hopen⟩
  rw [WalletLedger.remainingLots]
  revert hcost
  generalize s.lots = lots
  intro hcost
  induction lots with
  | nil => exact ⟨rfl, rfl⟩
  | cons lot lots ih =>
    obtain ⟨hbasis, hopen⟩ := ih fun lot hlot => hcost lot (List.mem_cons_of_mem _ hlot)
    simp only [basisOf, openLots, List.map_cons, List.sum_cons, List.countP_cons] at hbasis hopen ⊢
    rcases Nat.eq_zero_or_pos lot.remainingAmountRaw with hempty | hleft
    · rw [List.filter_cons_of_neg (by simp [hempty]), hbasis, hopen]
      simp [hempty]
    · rw [List.filter_cons_of_pos (by simpa using hleft), List.map_cons, List.sum_cons,
        List.length_cons, hbasis, hopen]
      simp [hleft, hcost lot List.mem_cons_self hleft]

end Money

section Accounts

variable {f : WalletFacts} {chainId requestedBlock : ℕ} {target : ProjectionTarget} {p : Projection}
  {realized : ℤ} {basis : ℕ}

/-- What the wallet paid for units it gave away or never got. -/
def WalletFacts.writtenOffRaw (f : WalletFacts) (chainId : ℕ) (target : ProjectionTarget) : ℕ :=
  WalletLedger.empty.tally WalletLedger.writtenOff (f.walletEvents chainId target)

/-- The pieces of lots that the wallet's disposals take. -/
def WalletFacts.piecesTaken (f : WalletFacts) (chainId : ℕ) (target : ProjectionTarget) : ℕ :=
  WalletLedger.empty.tally WalletLedger.pieces (f.walletEvents chainId target)

/-- What a projection writes of the money of its ledger. -/
theorem money_projectTarget (h : f.projectTarget chainId target requestedBlock = .ok p) :
    p.netCashRaw = (f.walletLedger chainId target).netCash ∧
      p.lots.length = (f.walletLedger chainId target).remainingLots.length ∧
      p.snapshot.realizedPnlRaw = (f.walletLedger chainId target).realizedPnlRaw ∧
      p.snapshot.costBasisRaw = (f.walletLedger chainId target).costBasisRaw := by
  simp only [WalletFacts.projectTarget] at h
  split at h
  · cases h
  split at h
  · split at h
    · cases h
    cases Except.ok.inj h
    refine ⟨?_, List.length_map _, rfl, rfl⟩
    rw [Projection.netCashRaw, WalletLedger.netCash, List.map_map]
    rfl
  · cases h

/-- **The result accounts for the money**, up to the rounding. -/
theorem realizedPnl_accounts (h : f.projectTarget chainId target requestedBlock = .ok p)
    (hrealized : p.snapshot.realizedPnlRaw = some realized)
    (hbasis : p.snapshot.costBasisRaw = some basis) :
    p.netCashRaw + basis + f.writtenOffRaw chainId target ≤ realized ∧
      realized ≤ p.netCashRaw + basis + f.writtenOffRaw chainId target +
        (f.piecesTaken chainId target + p.lots.length) := by
  obtain ⟨hcash, hlots, hresult, hcost⟩ := money_projectTarget h
  obtain ⟨hbasisOf, hopen⟩ := costBasisRaw_eq (hcost.symm.trans hbasis)
  obtain ⟨before, hbefore, hmoney⟩ := realized_foldl (hresult.symm.trans hrealized)
  obtain rfl : 0 = before := Option.some.inj hbefore
  obtain ⟨hle, hge⟩ := basis_foldl .empty (f.walletEvents chainId target)
  have hnone : basisOf WalletLedger.empty.lots = 0 ∧ openLots WalletLedger.empty.lots = 0 ∧
      totalCost WalletLedger.empty.lots = 0 ∧ pricedLots WalletLedger.empty.lots = 0 ∧
      WalletLedger.empty.netCash = 0 :=
    ⟨rfl, rfl, rfl, rfl, rfl⟩
  rw [hcash, hlots, ← hopen, hbasisOf, WalletFacts.writtenOffRaw, WalletFacts.piecesTaken,
    WalletFacts.walletLedger]
  omega

end Accounts

/-- Wallet 1 buys 7 for 100, sells 3 for 60 and sends 2 away. -/
def WalletFacts.traded : WalletFacts :=
  { WalletFacts.sample with
    swaps := Table.empty.insertAll
      [.sample 1 ⟨11⟩ USDG 100 7,
        ⟨MAINNET_CHAIN_ID, 2, ⟨2⟩, ⟨2⟩, 2, ⟨11⟩, some ⟨1⟩, none, ⟨7⟩, USDG, 3, 60, true⟩]
    tokenTransfers := Table.empty.insertAll
      [⟨MAINNET_CHAIN_ID, 2, ⟨2⟩, ⟨3⟩, 5, ⟨7⟩, ⟨1⟩, ⟨13⟩, 2, true⟩] }

/-- Its result is 18: 2 of the 100 are lost to rounding. -/
theorem realizedPnl_accounts_traded : ∃ p,
    WalletFacts.traded.projectTarget MAINNET_CHAIN_ID ⟨⟨1⟩, ⟨7⟩, USDG⟩ 2 = .ok p ∧
      p.netCashRaw + (28 : ℕ) +
          WalletFacts.traded.writtenOffRaw MAINNET_CHAIN_ID ⟨⟨1⟩, ⟨7⟩, USDG⟩ ≤ 18 ∧
      18 ≤ p.netCashRaw + (28 : ℕ) +
          WalletFacts.traded.writtenOffRaw MAINNET_CHAIN_ID ⟨⟨1⟩, ⟨7⟩, USDG⟩ +
        (WalletFacts.traded.piecesTaken MAINNET_CHAIN_ID ⟨⟨1⟩, ⟨7⟩, USDG⟩ + p.lots.length) := by
  have hholds : (WalletFacts.traded.projectTarget MAINNET_CHAIN_ID ⟨⟨1⟩, ⟨7⟩, USDG⟩
      2).toOption.any (fun p => p.snapshot.realizedPnlRaw = some 18 &&
        p.snapshot.costBasisRaw = some 28) = true := by
    decide +kernel
  cases hp : WalletFacts.traded.projectTarget MAINNET_CHAIN_ID ⟨⟨1⟩, ⟨7⟩, USDG⟩ 2 with
  | error e =>
    rw [hp] at hholds
    cases hholds
  | ok p =>
    rw [hp] at hholds
    simp only [Except.toOption, Option.any_some, Bool.and_eq_true, decide_eq_true_eq] at hholds
    exact ⟨p, rfl, realizedPnl_accounts hp hholds.1 hholds.2⟩

end HoodSentry
