import HoodSentry.Common.Text
/-!
# Cost basis

`packages/portfolio-engine/src/cost-basis.ts`: the flows of a holding are
routed one by one into lots, oldest first, and the lots that stay are
valued. Amounts are raw token units; the divisions are those of big
integers, which truncate and throw on a zero divisor. `tokenDecimals` is
not read by the source.
-/

namespace HoodSentry.Portfolio

inductive FlowKind
  | buy
  | sell
  | transferIn
  | transferOut
  | userTransfer
  | bridgeDeposit
  | bridgeWithdrawal
  | mint
  | burn
  | airdrop
  | fee
  | launchpadBuy
  | launchpadSell
  | migration
  | unknown
deriving DecidableEq

inductive Confidence
  | high | medium | low
deriving DecidableEq

structure CostLot where
  id : String
  acquisitionTransaction : String
  amount : ℕ
  /-- `none` where the acquisition price was not known. -/
  costRaw : Option ℤ
  costCurrency : String
  normalizedValueRaw : Option ℤ
  source : String
  confidence : Confidence
  remainingAmount : ℕ
deriving DecidableEq

structure CostFlow where
  kind : FlowKind
  transaction : String
  amount : ℕ
  priceRaw : Option ℤ
  feeRaw : Option ℤ
  source : String
  /-- An absent flag counts as `false`. -/
  userOwnedTransfer : Bool
  confidence : Confidence
deriving DecidableEq

structure CostBasisResult where
  lots : List CostLot
  realizedPnlRaw : Option ℤ
  unrealizedPnlRaw : Option ℤ
  costBasisRaw : Option ℤ
  proceedsRaw : Option ℤ
  feesRaw : ℤ
  averageEntryRaw : Option ℤ
  confidence : Confidence
  incompleteHistory : Bool
  warnings : List String
deriving DecidableEq

/-- Division of big integers. -/
def divide (a b : ℤ) : Except String ℤ :=
  if b = 0 then .error "Division by zero" else .ok (a.tdiv b)

namespace CostFlow

/-- The kinds that add a lot. -/
def acquires (f : CostFlow) : Bool :=
  [FlowKind.buy, .launchpadBuy, .mint, .airdrop, .bridgeDeposit, .migration].contains f.kind

/-- The kinds that consume lots, where the transfer is not the user's own. -/
def disposes (f : CostFlow) : Bool :=
  [FlowKind.sell, .launchpadSell, .burn, .transferOut].contains f.kind && !f.userOwnedTransfer

/-- The lot an acquisition adds. -/
def lot (f : CostFlow) (id : String) : CostLot where
  id := id
  acquisitionTransaction := f.transaction
  amount := f.amount
  costRaw := f.priceRaw.map (f.amount * ·)
  costCurrency := "quote"
  normalizedValueRaw := f.priceRaw.map (f.amount * ·)
  source := f.source
  confidence := f.confidence
  remainingAmount := f.amount

end CostFlow

/-! ## Consuming lots -/

/-- What the consuming loop reads and writes. -/
structure Consuming where
  lots : List CostLot
  remaining : ℕ
  cost : ℤ
  realized : Option ℤ
  warnings : List String
deriving DecidableEq

namespace Consuming

/-- One turn of the loop, on the oldest lot. -/
def useLot (c : Consuming) (lot : CostLot) (lots : List CostLot) : Except String Consuming :=
  let used := if c.remaining < lot.remainingAmount then c.remaining else lot.remainingAmount
  let left := lot.remainingAmount - used
  let lots := if left = 0 then lots else { lot with remainingAmount := left } :: lots
  match lot.costRaw with
  | none => .ok { c with
      lots := lots
      remaining := c.remaining - used
      realized := none
      warnings := c.warnings ++ ["Missing acquisition price"] }
  | some costRaw =>
    match divide (costRaw * used) lot.amount with
    | .error e => .error e
    | .ok cost => .ok { c with
        lots := lots
        remaining := c.remaining - used
        cost := c.cost + cost }

theorem useLot_ok {c c' : Consuming} {lot : CostLot} {lots : List CostLot}
    (h : c.useLot lot lots = .ok c') :
    c'.remaining = c.remaining - lot.remainingAmount ∧
      c'.lots = if lot.remainingAmount ≤ c.remaining then lots
        else { lot with remainingAmount := lot.remainingAmount - c.remaining } :: lots := by
  have hused : (if c.remaining < lot.remainingAmount then c.remaining else lot.remainingAmount) =
      min c.remaining lot.remainingAmount := by
    split <;> omega
  have hrest : c.remaining - min c.remaining lot.remainingAmount =
      c.remaining - lot.remainingAmount := by omega
  have hlots : (if lot.remainingAmount - min c.remaining lot.remainingAmount = 0 then lots
      else { lot with
        remainingAmount := lot.remainingAmount - min c.remaining lot.remainingAmount } :: lots) =
      if lot.remainingAmount ≤ c.remaining then lots
      else { lot with remainingAmount := lot.remainingAmount - c.remaining } :: lots := by
    by_cases hle : lot.remainingAmount ≤ c.remaining
    · rw [if_pos hle, if_pos (by omega)]
    · rw [if_neg hle, if_neg (by omega), Nat.min_eq_left (by omega)]
  simp only [useLot, hused] at h
  split at h
  · obtain rfl := Except.ok.inj h
    exact ⟨hrest, hlots⟩
  · split at h
    · exact absurd h (by simp)
    · obtain rfl := Except.ok.inj h
      exact ⟨hrest, hlots⟩

/-- The loop `while (remaining > 0n && lots.length)`. It ends: a lot is
either dropped or leaves nothing to consume. -/
def consumeLots (c : Consuming) : Except String Consuming :=
  if _hremaining : 0 < c.remaining then
    match _hlots : c.lots with
    | [] => .ok c
    | lot :: lots =>
      match _huse : c.useLot lot lots with
      | .error e => .error e
      | .ok c' => consumeLots c'
  else .ok c
termination_by (c.remaining, c.lots.length)
decreasing_by
  obtain ⟨hrest, hleft⟩ := useLot_ok _huse
  rw [Prod.lex_def, hrest, hleft, _hlots]
  split <;> simp only [List.length_cons] <;> omega

end Consuming

/-! ## The flows -/

/-- What the loop over the flows carries. -/
structure CostState where
  lots : List CostLot
  realized : Option ℤ
  proceeds : Option ℤ
  fees : ℤ
  warnings : List String
deriving DecidableEq

namespace CostState

def empty : CostState := ⟨[], some 0, some 0, 0, []⟩

/-- The fee of a flow, where gas fees are included. -/
def addFee (s : CostState) (gasFeesIncluded : Bool) (f : CostFlow) : CostState :=
  match f.feeRaw with
  | some fee => if gasFeesIncluded then { s with fees := s.fees + fee } else s
  | none => s

def acquire (s : CostState) (f : CostFlow) : CostState :=
  { s with lots := s.lots ++ [f.lot (f.transaction ++ ":" ++ toString s.lots.length)] }

/-- What a disposal books once its lots are consumed. -/
def book (s : CostState) (f : CostFlow) (c : Consuming) : CostState :=
  let realized := if 0 < c.remaining then none else c.realized
  let warnings := if 0 < c.remaining then c.warnings ++ ["Incomplete history"] else c.warnings
  match f.priceRaw with
  | none => { s with
      lots := c.lots
      realized := none
      warnings := warnings ++ ["Missing sale price"] }
  | some priceRaw => { s with
      lots := c.lots
      proceeds := some (s.proceeds.getD 0 + f.amount * priceRaw)
      realized := realized.map (· + (f.amount * priceRaw - c.cost))
      warnings := warnings }

def dispose (s : CostState) (f : CostFlow) : Except String CostState :=
  match Consuming.consumeLots ⟨s.lots, f.amount, 0, s.realized, s.warnings⟩ with
  | .error e => .error e
  | .ok c => .ok (s.book f c)

/-- **One flow.** -/
def apply (gasFeesIncluded : Bool) (s : CostState) (f : CostFlow) : Except String CostState :=
  let s := s.addFee gasFeesIncluded f
  if f.acquires then .ok (s.acquire f)
  else if f.disposes then s.dispose f
  else .ok s

/-- The loop over the flows. -/
def run (gasFeesIncluded : Bool) : CostState → List CostFlow → Except String CostState
  | s, [] => .ok s
  | s, f :: flows =>
    match s.apply gasFeesIncluded f with
    | .error e => .error e
    | .ok s' => s'.run gasFeesIncluded flows

end CostState

/-! ## Valuing what stays -/

namespace CostLot

/-- A lot of unknown cost counts as nothing. -/
def basis (l : CostLot) : Except String ℤ :=
  match l.costRaw with
  | none => .ok 0
  | some costRaw => divide (costRaw * l.remainingAmount) l.amount

def unrealized (currentPriceRaw : ℤ) (l : CostLot) : Except String ℤ :=
  match divide (l.costRaw.getD 0 * l.remainingAmount) l.amount with
  | .error e => .error e
  | .ok cost => .ok (currentPriceRaw * l.remainingAmount - cost)

/-- The `reduce` of the source, lot by lot. -/
def total (value : CostLot → Except String ℤ) : List CostLot → Except String ℤ
  | [] => .ok 0
  | l :: lots =>
    match value l with
    | .error e => .error e
    | .ok v =>
      match total value lots with
      | .error e => .error e
      | .ok rest => .ok (v + rest)

end CostLot

/-- Whether a warning marks the history as incomplete. -/
def marksIncomplete (w : String) : Bool := includes w "Incomplete" || includes w "Missing"

/-- The lowest confidence of the flows. -/
def confidenceOf (flows : List CostFlow) : Confidence :=
  if flows.any (·.confidence = .low) then .low
  else if flows.any (·.confidence = .medium) then .medium
  else .high

namespace CostState

/-- The sum of the remaining amounts of the lots. -/
def remainingTotal (s : CostState) : ℕ := (s.lots.map (·.remainingAmount)).sum

def unrealizedPnl (s : CostState) : Option ℤ → Except String (Option ℤ)
  | none => .ok none
  | some currentPriceRaw =>
    match CostLot.total (CostLot.unrealized currentPriceRaw) s.lots with
    | .error e => .error e
    | .ok unrealized => .ok (some unrealized)

def averageEntry (s : CostState) (basis : ℤ) : Except String (Option ℤ) :=
  if s.lots = [] then .ok none
  else
    match divide basis s.remainingTotal with
    | .error e => .error e
    | .ok average => .ok (some average)

/-- What is returned once every flow is applied. -/
def finish (s : CostState) (flows : List CostFlow) (currentPriceRaw : Option ℤ) :
    Except String CostBasisResult :=
  match CostLot.total CostLot.basis s.lots with
  | .error e => .error e
  | .ok basis =>
    match s.unrealizedPnl currentPriceRaw with
    | .error e => .error e
    | .ok unrealized =>
      match s.averageEntry basis with
      | .error e => .error e
      | .ok average =>
        let warnings :=
          if currentPriceRaw = none ∧ s.lots ≠ [] then s.warnings ++ ["Missing current price"]
          else s.warnings
        .ok { lots := s.lots
              realizedPnlRaw := s.realized
              unrealizedPnlRaw := unrealized
              costBasisRaw := some basis
              proceedsRaw := s.proceeds
              feesRaw := s.fees
              averageEntryRaw := average
              confidence := confidenceOf flows
              incompleteHistory := warnings.any marksIncomplete
              warnings := warnings }

end CostState

/-- **`fifoCostBasis`.** -/
def fifoCostBasis (flows : List CostFlow) (currentPriceRaw : Option ℤ)
    (gasFeesIncluded : Bool) : Except String CostBasisResult :=
  match CostState.empty.run gasFeesIncluded flows with
  | .error e => .error e
  | .ok s => s.finish flows currentPriceRaw

end HoodSentry.Portfolio
