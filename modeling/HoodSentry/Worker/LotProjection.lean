import HoodSentry.Common.Fifo
import HoodSentry.Worker.WalletActivity
/-!
# Lots first in, first out

What the fold of a projection keeps of its lots, over any events. Amounts
are conserved and lots are consumed oldest first, since consuming them is
spending a queue (`lots_consumeLoop`). Costs are charged piece by piece
and rounded down: a piece charges less than it should only where it leaves
a remainder, so the cost of the lots falls short by less than one for each
piece and each open lot (`lots_conserved`).

A lot bought of amount zero is skipped for good, and its cost is never
charged: only lots of positive amount are counted.
-/

namespace HoodSentry

open Fifo

instance : Spendable Lot where
  left := Lot.remainingAmountRaw
  use d l := { l with remainingAmountRaw := l.remainingAmountRaw - d }
  left_use _ _ := rfl
  use_zero _ := rfl
  use_use d d' l := by simp only [Nat.sub_sub]

/-! ## Consuming is spending -/

section Consuming

/-- One turn of the loop, the skipped lots and the ended loop included. -/
theorem consumeLoop_cons (amount : ℕ) (lot : Lot) (lots : List Lot) :
    (consumeLoop amount (lot :: lots)).lots =
        { lot with remainingAmountRaw := lot.remainingAmountRaw - amount } ::
          (consumeLoop (amount - lot.remainingAmountRaw) lots).lots ∧
      (consumeLoop amount (lot :: lots)).remaining =
        (consumeLoop (amount - lot.remainingAmountRaw) lots).remaining ∧
      (consumeLoop amount (lot :: lots)).costRaw =
        lot.totalCostRaw.getD 0 * min amount lot.remainingAmountRaw / lot.amountRaw +
          (consumeLoop (amount - lot.remainingAmountRaw) lots).costRaw := by
  have hdone : ∀ lots, consumeLoop 0 lots = ⟨lots, 0, 0, true⟩ := by
    intro lots
    cases lots <;> simp [consumeLoop]
  rw [consumeLoop]
  split
  · rename_i hzero
    simp [hzero, hdone]
  split
  · rename_i hempty
    refine ⟨?_, ?_, ?_⟩
    · simp only [hempty, Nat.zero_sub, Nat.sub_zero]
      rw [← hempty]
    · simp [hempty]
    · simp [hempty]
  · have hused : (if amount < lot.remainingAmountRaw then amount else lot.remainingAmountRaw) =
        min amount lot.remainingAmountRaw := by
      split <;> omega
    have hrest : amount - min amount lot.remainingAmountRaw = amount - lot.remainingAmountRaw := by
      omega
    have hleft : lot.remainingAmountRaw - min amount lot.remainingAmountRaw =
        lot.remainingAmountRaw - amount := by
      omega
    simp only [hused, hrest, hleft]
    cases hcost : lot.totalCostRaw <;> simp

/-- **Consuming is spending oldest first.** -/
theorem lots_consumeLoop (amount : ℕ) (lots : List Lot) :
    (consumeLoop amount lots).lots = spend amount lots := by
  induction lots generalizing amount with
  | nil => rfl
  | cons lot lots ih =>
    obtain ⟨hlots, -, -⟩ := consumeLoop_cons amount lot lots
    rw [hlots, ih]
    rfl

/-- What no lot gives remains. -/
theorem remaining_consumeLoop (amount : ℕ) (lots : List Lot) :
    (consumeLoop amount lots).remaining = amount - openIn lots := by
  induction lots generalizing amount with
  | nil => simp [consumeLoop, openIn]
  | cons lot lots ih =>
    obtain ⟨-, hremaining, -⟩ := consumeLoop_cons amount lot lots
    rw [hremaining, ih, openIn_cons, Nat.sub_add_eq]

end Consuming

/-! ## Amounts -/

namespace WalletEvent

/-- What an event acquires. -/
def acquired : WalletEvent → ℕ
  | .buy row => row.amountOutRaw
  | .transferIn row => row.amountRaw
  | .sell _ | .transferOut _ => 0

/-- What an event disposes of. -/
def disposed : WalletEvent → ℕ
  | .buy _ | .transferIn _ => 0
  | .sell row => row.amountInRaw
  | .transferOut row => row.amountRaw

def IsDisposal : WalletEvent → Bool
  | .buy _ | .transferIn _ => false
  | .sell _ | .transferOut _ => true

/-- The lots an event adds. -/
def newLots : WalletEvent → List Lot
  | .buy row => [⟨row.transactionHash, row.blockNumber, row.blockHash, row.logIndex,
      row.amountOutRaw, row.amountOutRaw, some row.amountInRaw⟩]
  | .transferIn row => [⟨row.transactionHash, row.blockNumber, row.blockHash, row.logIndex,
      row.amountRaw, row.amountRaw, none⟩]
  | .sell _ | .transferOut _ => []

end WalletEvent

/-- The lots of known cost that have less left in another list. -/
def piecesOf (lots lots' : List Lot) : ℕ :=
  (lots.zip lots').countP fun (lot, lot') =>
    lot.totalCostRaw.isSome && decide (lot'.remainingAmountRaw < lot.remainingAmountRaw)

namespace WalletLedger

variable {s : WalletLedger} {e : WalletEvent} {events : List WalletEvent}

/-- **One event, on the lots**: what it disposes of is consumed, what it
acquires joins the back. -/
theorem lots_apply (s : WalletLedger) (e : WalletEvent) :
    (s.apply e).lots = (consumeLoop e.disposed s.lots).lots ++ e.newLots := by
  have hnone : (consumeLoop 0 s.lots).lots = s.lots := by
    rw [lots_consumeLoop, spend_zero]
  cases e with
  | buy row | transferIn row => simp [apply, WalletEvent.disposed, WalletEvent.newLots, hnone]
  | sell row | transferOut row =>
    simp [apply, WalletEvent.disposed, WalletEvent.newLots, consumeLots]

/-- A measure of each event at the ledger it meets, summed over the
events. -/
def tally (measure : WalletLedger → WalletEvent → ℕ) : WalletLedger → List WalletEvent → ℕ
  | _, [] => 0
  | s, e :: events => measure s e + tally measure (s.apply e) events

/-- What an event takes from the lots. -/
def consumed (s : WalletLedger) (e : WalletEvent) : ℕ :=
  e.disposed - (consumeLots s.lots e.disposed).remaining

/-- What an event is charged for the lots it consumes. -/
def charged (s : WalletLedger) (e : WalletEvent) : ℕ := (consumeLots s.lots e.disposed).costRaw

/-- The lots of known cost that an event takes something from. -/
def pieces (s : WalletLedger) (e : WalletEvent) : ℕ :=
  piecesOf s.lots (consumeLots s.lots e.disposed).lots

end WalletLedger

/-- The ledger after some events. -/
def ledgerAfter (events : List WalletEvent) : WalletLedger :=
  events.foldl WalletLedger.apply .empty

def acquiredIn (events : List WalletEvent) : ℕ := (events.map WalletEvent.acquired).sum

def disposedOf (events : List WalletEvent) : ℕ := (events.map WalletEvent.disposed).sum

/-- No disposal exceeds the holdings. -/
def WithinHoldings (events : List WalletEvent) : Prop :=
  ∀ before e after, events = before ++ e :: after → e.disposed ≤ openIn (ledgerAfter before).lots

section Amounts

variable {s : WalletLedger} {e : WalletEvent} {events : List WalletEvent}

theorem openIn_newLots (e : WalletEvent) : openIn e.newLots = e.acquired := by
  cases e <;> simp [WalletEvent.newLots, WalletEvent.acquired, openIn]

theorem consumed_eq : s.consumed e = min e.disposed (openIn s.lots) := by
  have hremaining : (consumeLots s.lots e.disposed).remaining = e.disposed - openIn s.lots :=
    remaining_consumeLoop _ _
  rw [WalletLedger.consumed, hremaining]
  omega

theorem openIn_apply (s : WalletLedger) (e : WalletEvent) :
    openIn (s.apply e).lots + s.consumed e = openIn s.lots + e.acquired := by
  rw [WalletLedger.lots_apply, openIn_append, openIn_consumeLoop, openIn_newLots, consumed_eq]
  omega

/-- **Conservation**, from any ledger. -/
theorem openIn_foldl (s : WalletLedger) (events : List WalletEvent) :
    openIn (events.foldl WalletLedger.apply s).lots +
        s.tally WalletLedger.consumed events = openIn s.lots + acquiredIn events := by
  induction events generalizing s with
  | nil => simp [WalletLedger.tally, acquiredIn]
  | cons e events ih =>
    have hstep := openIn_apply s e
    have hrest := ih (s.apply e)
    simp only [List.foldl_cons, WalletLedger.tally, acquiredIn, List.map_cons,
      List.sum_cons] at hrest ⊢
    omega

/-- Within the holdings, what is consumed is what is disposed of. -/
theorem consumed_foldl {done : List WalletEvent} (h : WithinHoldings (done ++ events)) :
    (ledgerAfter done).tally WalletLedger.consumed events = disposedOf events := by
  induction events generalizing done with
  | nil => rfl
  | cons e events ih =>
    have hsplit : done ++ e :: events = (done ++ [e]) ++ events := by simp
    have hnext : (ledgerAfter done).apply e = ledgerAfter (done ++ [e]) := by
      simp [ledgerAfter]
    rw [WalletLedger.tally, hnext, ih (hsplit ▸ h), consumed_eq, disposedOf, disposedOf,
      List.map_cons, List.sum_cons, Nat.min_eq_left (h done e events rfl)]

/-- No lot holds more than was acquired. -/
theorem remaining_le_foldl (h : ∀ lot ∈ s.lots, lot.remainingAmountRaw ≤ lot.amountRaw) :
    ∀ lot ∈ (events.foldl WalletLedger.apply s).lots,
      lot.remainingAmountRaw ≤ lot.amountRaw := by
  induction events generalizing s with
  | nil => exact h
  | cons e events ih =>
    refine ih fun lot hlot => ?_
    rw [WalletLedger.lots_apply, lots_consumeLoop] at hlot
    rcases List.mem_append.mp hlot with hlot | hlot
    · obtain ⟨i, hi⟩ := List.mem_iff_getElem?.mp hlot
      rw [getElem?_spend, Option.map_eq_some_iff] at hi
      obtain ⟨lot₀, hlot₀, rfl⟩ := hi
      have hle := h lot₀ (List.mem_of_getElem? hlot₀)
      change lot₀.remainingAmountRaw - _ ≤ lot₀.amountRaw
      omega
    · cases e <;> simp_all [WalletEvent.newLots]

/-- **Oldest first**: a lot loses units only once all earlier ones are
empty. -/
theorem empty_of_loses {i j : ℕ} (hij : i < j) {lot lot' first first' : Lot}
    (hlot : s.lots[j]? = some lot) (hlot' : (s.apply e).lots[j]? = some lot')
    (hloses : lot'.remainingAmountRaw < lot.remainingAmountRaw)
    (hfirst : s.lots[i]? = some first) (hfirst' : (s.apply e).lots[i]? = some first') :
    first'.remainingAmountRaw = 0 := by
  have hkept : ∀ (k : ℕ) (lot : Lot), s.lots[k]? = some lot →
      (s.apply e).lots[k]? = (spend e.disposed s.lots)[k]? := by
    intro k lot hk
    obtain ⟨hlt, -⟩ := List.getElem?_eq_some_iff.mp hk
    rw [WalletLedger.lots_apply, lots_consumeLoop,
      List.getElem?_append_left (by rwa [length_spend])]
  rw [hkept j lot hlot] at hlot'
  rw [hkept i first hfirst] at hfirst'
  exact left_eq_zero_of_spend_lt hij hlot hlot' hloses hfirst hfirst'

end Amounts

/-! ## Costs -/

/-- The cost of the lots of positive amount whose cost is known. -/
def totalCost (lots : List Lot) : ℕ :=
  ((lots.filter fun lot => 0 < lot.amountRaw).map fun lot => lot.totalCostRaw.getD 0).sum

/-- The cost basis of what remains. -/
def basisOf (lots : List Lot) : ℕ :=
  (lots.map fun lot => lot.totalCostRaw.getD 0 * lot.remainingAmountRaw / lot.amountRaw).sum

/-- The open lots of known cost. -/
def openLots (lots : List Lot) : ℕ :=
  lots.countP fun lot => lot.totalCostRaw.isSome && decide (0 < lot.remainingAmountRaw)

/-- The lots of known cost and positive amount. -/
def pricedLots (lots : List Lot) : ℕ :=
  lots.countP fun lot => lot.totalCostRaw.isSome && decide (0 < lot.amountRaw)

/-- **A share rounded in two parts** is short by at most one. -/
theorem share_split (cost used left amount : ℕ) :
    cost * used / amount + cost * left / amount ≤ cost * (used + left) / amount ∧
      cost * (used + left) / amount ≤ cost * used / amount + cost * left / amount + 1 := by
  rcases Nat.eq_zero_or_pos amount with rfl | hpos
  · simp
  rw [Nat.mul_add, Nat.add_div hpos]
  split <;> omega

/-- **One disposal**: what it charges and what remains are at most the
basis before, short by at most the pieces that leave a remainder. -/
theorem basis_consumeLoop (amount : ℕ) (lots : List Lot) :
    (consumeLoop amount lots).costRaw + basisOf (consumeLoop amount lots).lots ≤ basisOf lots ∧
      basisOf lots + openLots lots ≤
        (consumeLoop amount lots).costRaw + basisOf (consumeLoop amount lots).lots +
          (piecesOf lots (consumeLoop amount lots).lots +
            openLots (consumeLoop amount lots).lots) := by
  induction lots generalizing amount with
  | nil => simp [consumeLoop, basisOf, openLots, piecesOf]
  | cons lot lots ih =>
    obtain ⟨hlots, -, hcost⟩ := consumeLoop_cons amount lot lots
    obtain ⟨hle, hge⟩ := ih (amount - lot.remainingAmountRaw)
    obtain ⟨hshare, hshare'⟩ := share_split (lot.totalCostRaw.getD 0)
      (min amount lot.remainingAmountRaw) (lot.remainingAmountRaw - amount) lot.amountRaw
    have hwhole : min amount lot.remainingAmountRaw + (lot.remainingAmountRaw - amount) =
        lot.remainingAmountRaw := by omega
    rw [hwhole] at hshare hshare'
    rw [hlots, hcost]
    simp only [basisOf, openLots, piecesOf, List.map_cons, List.sum_cons, List.zip_cons_cons,
      List.countP_cons, Bool.and_eq_true, decide_eq_true_eq] at hle hge ⊢
    refine ⟨by omega, ?_⟩
    cases hknown : lot.totalCostRaw with
    | none => simp_all
    | some cost =>
      simp only [hknown, Option.getD_some, Option.isSome_some, true_and] at hshare hshare' hge ⊢
      -- A lot used up gives its whole basis; one not reached keeps it.
      rcases Nat.eq_zero_or_pos amount with rfl | hpos
      · simp only [Nat.zero_min, Nat.mul_zero, Nat.zero_div, Nat.sub_zero, Nat.zero_sub] at hge ⊢
        split_ifs <;> omega
      rcases Nat.lt_or_ge amount lot.remainingAmountRaw with hless | hall
      · rw [if_pos (by omega), if_pos (by omega), if_pos (by omega)]
        omega
      · have hnone : lot.remainingAmountRaw - amount = 0 := by omega
        have hused : min amount lot.remainingAmountRaw = lot.remainingAmountRaw := by omega
        rw [hnone] at hshare' ⊢
        rw [hused]
        simp only [Nat.mul_zero, Nat.zero_div]
        split_ifs <;> omega

/-- Consuming changes neither what lots cost nor how many are priced. -/
theorem totalCost_spend (d : ℕ) (lots : List Lot) :
    totalCost (spend d lots) = totalCost lots ∧ pricedLots (spend d lots) = pricedLots lots := by
  induction lots generalizing d with
  | nil => exact ⟨rfl, rfl⟩
  | cons lot lots ih =>
    obtain ⟨hcost, hpriced⟩ := ih (d - lot.remainingAmountRaw)
    have hspend : spend d (lot :: lots) =
        { lot with remainingAmountRaw := lot.remainingAmountRaw - d } ::
          spend (d - lot.remainingAmountRaw) lots := rfl
    rw [hspend]
    simp only [totalCost, pricedLots, List.filter_cons, List.countP_cons] at hcost hpriced ⊢
    rw [hpriced]
    refine ⟨?_, rfl⟩
    split <;> simp [hcost]

/-- A new lot carries its whole cost. -/
theorem basisOf_newLots (e : WalletEvent) :
    basisOf e.newLots = totalCost e.newLots ∧ openLots e.newLots = pricedLots e.newLots := by
  refine ⟨?_, ?_⟩
  · cases e with
    | buy row =>
      rcases Nat.eq_zero_or_pos row.amountOutRaw with hzero | hpos
      · simp [WalletEvent.newLots, basisOf, totalCost, hzero]
      · simp [WalletEvent.newLots, basisOf, totalCost, hpos]
    | transferIn row => simp [WalletEvent.newLots, basisOf, totalCost, List.filter_cons, apply_ite]
    | sell row | transferOut row => rfl
  · cases e <;> simp [WalletEvent.newLots, openLots, pricedLots]

theorem lots_append (lots lots' : List Lot) :
    basisOf (lots ++ lots') = basisOf lots + basisOf lots' ∧
      totalCost (lots ++ lots') = totalCost lots + totalCost lots' ∧
      openLots (lots ++ lots') = openLots lots + openLots lots' ∧
      pricedLots (lots ++ lots') = pricedLots lots + pricedLots lots' := by
  simp [basisOf, totalCost, openLots, pricedLots]

/-- **One event**: cost is charged, carried or lost to rounding, at most
one for each piece that leaves a remainder. -/
theorem basis_apply (s : WalletLedger) (e : WalletEvent) :
    s.charged e + basisOf (s.apply e).lots + totalCost s.lots ≤
        totalCost (s.apply e).lots + basisOf s.lots ∧
      totalCost (s.apply e).lots + pricedLots (s.apply e).lots + (basisOf s.lots + openLots s.lots) ≤
        s.charged e + basisOf (s.apply e).lots + (totalCost s.lots + pricedLots s.lots) +
          (s.pieces e + openLots (s.apply e).lots) := by
  obtain ⟨hle, hge⟩ := basis_consumeLoop e.disposed s.lots
  obtain ⟨hcost, hpriced⟩ := totalCost_spend e.disposed s.lots
  obtain ⟨hbasis, hopen⟩ := basisOf_newLots e
  have happend := lots_append (consumeLoop e.disposed s.lots).lots e.newLots
  rw [← WalletLedger.lots_apply] at happend
  rw [← lots_consumeLoop] at hcost hpriced
  have hcharged : s.charged e = (consumeLoop e.disposed s.lots).costRaw := rfl
  have hpieces : s.pieces e = piecesOf s.lots (consumeLoop e.disposed s.lots).lots := rfl
  omega

/-- The same over any events. -/
theorem basis_foldl (s : WalletLedger) (events : List WalletEvent) :
    s.tally WalletLedger.charged events + basisOf (events.foldl WalletLedger.apply s).lots +
          totalCost s.lots ≤
        totalCost (events.foldl WalletLedger.apply s).lots + basisOf s.lots ∧
      totalCost (events.foldl WalletLedger.apply s).lots +
          pricedLots (events.foldl WalletLedger.apply s).lots + (basisOf s.lots + openLots s.lots) ≤
        s.tally WalletLedger.charged events + basisOf (events.foldl WalletLedger.apply s).lots +
          (totalCost s.lots + pricedLots s.lots) +
          (s.tally WalletLedger.pieces events +
            openLots (events.foldl WalletLedger.apply s).lots) := by
  induction events generalizing s with
  | nil =>
    simp only [List.foldl_nil, WalletLedger.tally]
    omega
  | cons e events ih =>
    have hstep := basis_apply s e
    have hrest := ih (s.apply e)
    simp only [List.foldl_cons, WalletLedger.tally] at hrest ⊢
    omega

theorem totalCost_eq_zero {lots : List Lot} (h : pricedLots lots = 0) : totalCost lots = 0 := by
  rw [pricedLots, List.countP_eq_zero] at h
  refine List.sum_eq_zero fun c hc => ?_
  obtain ⟨lot, hlot, rfl⟩ := List.mem_map.mp hc
  obtain ⟨hmem, hpos⟩ := List.mem_filter.mp hlot
  have hunknown := h lot hmem
  cases hcost : lot.totalCostRaw with
  | none => rfl
  | some cost => simp_all

/-- **What a projection keeps of its lots.** -/
theorem lots_conserved (events : List WalletEvent) :
    (∀ lot ∈ (ledgerAfter events).lots, lot.remainingAmountRaw ≤ lot.amountRaw) ∧
      openIn (ledgerAfter events).lots + WalletLedger.empty.tally WalletLedger.consumed events =
        acquiredIn events ∧
      (WithinHoldings events →
        openIn (ledgerAfter events).lots + disposedOf events = acquiredIn events) ∧
      (∀ (e : WalletEvent) (i j : ℕ) (lot lot' first first' : Lot), i < j →
        (ledgerAfter events).lots[j]? = some lot → (ledgerAfter (events ++ [e])).lots[j]? = some lot' →
        lot'.remainingAmountRaw < lot.remainingAmountRaw →
        (ledgerAfter events).lots[i]? = some first →
        (ledgerAfter (events ++ [e])).lots[i]? = some first' → first'.remainingAmountRaw = 0) ∧
      WalletLedger.empty.tally WalletLedger.charged events + basisOf (ledgerAfter events).lots ≤
        totalCost (ledgerAfter events).lots ∧
      totalCost (ledgerAfter events).lots ≤
        WalletLedger.empty.tally WalletLedger.charged events + basisOf (ledgerAfter events).lots +
          (WalletLedger.empty.tally WalletLedger.pieces events +
            openLots (ledgerAfter events).lots - 1) := by
  have hconserved : openIn (ledgerAfter events).lots +
      WalletLedger.empty.tally WalletLedger.consumed events = acquiredIn events := by
    have h := openIn_foldl .empty events
    rwa [show openIn WalletLedger.empty.lots = 0 from rfl, Nat.zero_add] at h
  obtain ⟨hle, hge⟩ := basis_foldl .empty events
  have hnone : basisOf WalletLedger.empty.lots = 0 ∧ openLots WalletLedger.empty.lots = 0 ∧
      totalCost WalletLedger.empty.lots = 0 ∧ pricedLots WalletLedger.empty.lots = 0 :=
    ⟨rfl, rfl, rfl, rfl⟩
  refine ⟨remaining_le_foldl (by simp [WalletLedger.empty]), hconserved, fun hwithin => ?_, ?_, ?_, ?_⟩
  · have hconsumed : (ledgerAfter []).tally WalletLedger.consumed events = disposedOf events :=
      consumed_foldl hwithin
    rw [← hconsumed]
    exact hconserved
  · intro e i j lot lot' first first' hij hlot hlot' hloses hfirst hfirst'
    have hnext : ledgerAfter (events ++ [e]) = (ledgerAfter events).apply e := by
      simp [ledgerAfter]
    rw [hnext] at hlot' hfirst'
    exact empty_of_loses hij hlot hlot' hloses hfirst hfirst'
  · rw [ledgerAfter]
    omega
  · rw [ledgerAfter]
    rcases Nat.eq_zero_or_pos (pricedLots (events.foldl WalletLedger.apply .empty).lots)
      with hunpriced | hpriced
    · rw [totalCost_eq_zero hunpriced]
      exact Nat.zero_le _
    · omega

/-- A lot bought of amount zero loses its whole cost, to no piece and no
open lot. -/
theorem not_lots_conserved :
    ¬∀ events : List WalletEvent,
      ((ledgerAfter events).lots.map fun lot => lot.totalCostRaw.getD 0).sum ≤
        WalletLedger.empty.tally WalletLedger.charged events + basisOf (ledgerAfter events).lots +
          ((ledgerAfter events).lots.length * events.countP WalletEvent.IsDisposal +
            openLots (ledgerAfter events).lots - 1) := by
  intro h
  exact absurd (h [.buy (.sample 1 ⟨11⟩ USDG 5 0)]) (by decide +kernel)

end HoodSentry
