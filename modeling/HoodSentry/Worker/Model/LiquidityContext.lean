import HoodSentry.Common.Machine
import HoodSentry.Common.OrderedMap
import HoodSentry.Risk.Model.Liquidity
/-!
# Who owns a pool's liquidity

`ownershipSnapshot` rebuilds the holders of a pair's LP token from its
`Transfer` events and compares what they hold with the total supply the
pair reports; where the two differ the pool is left out with
`LIQUIDITY_LP_SUPPLY_MISMATCH`. The pair itself is the environment: its LP
token mints to a provider, burns what was sent to the pair, and lets a
holder send any amount to any address. Only a mint and a burn move its
total supply.
-/

namespace HoodSentry

/-! ## The events read -/

structure IndexedTransfer where
  blockNumber : ℕ
  blockHash : Hash
  transactionHash : Hash
  logIndex : ℕ
  fromAddress : Address
  toAddress : Address
  amountRaw : ℕ
deriving DecidableEq

def DEAD_ADDRESS : Address := ⟨0xdead⟩

def addBalance (balances : Tally Address) (address : Address) (delta : ℤ) : Tally Address :=
  balances.add address delta

structure TransferAggregate where
  balances : Tally Address
  zeroLockedRaw : ℕ
  additionsRaw : ℕ
  removalsRaw : ℕ
  removalEvents : List RemovalEvent

/-- What a transfer does to the balances. -/
def TransferAggregate.move (aggregate : TransferAggregate) (transfer : IndexedTransfer) :
    TransferAggregate :=
  let fromZero := transfer.fromAddress = ZERO_ADDRESS
  let toZero := transfer.toAddress = ZERO_ADDRESS
  if fromZero ∧ toZero then
    { aggregate with zeroLockedRaw := aggregate.zeroLockedRaw + transfer.amountRaw }
  else
    let sent :=
      if fromZero then aggregate.balances
      else addBalance aggregate.balances transfer.fromAddress (-transfer.amountRaw)
    { aggregate with
      balances := if toZero then sent else addBalance sent transfer.toAddress transfer.amountRaw }

/-- What a transfer of the scanned block adds or removes. -/
def TransferAggregate.count (aggregate : TransferAggregate) (transfer : IndexedTransfer) :
    TransferAggregate :=
  let fromZero := transfer.fromAddress = ZERO_ADDRESS
  let toZero := transfer.toAddress = ZERO_ADDRESS
  let added :=
    if fromZero then
      { aggregate with additionsRaw := aggregate.additionsRaw + transfer.amountRaw }
    else aggregate
  if toZero ∧ ¬fromZero then
    { added with
      removalsRaw := added.removalsRaw + transfer.amountRaw
      removalEvents := added.removalEvents ++ [⟨transfer.amountRaw, transfer.blockNumber,
        transfer.blockHash, transfer.transactionHash, transfer.logIndex⟩] }
  else added

def aggregateTransfers (transfers : List IndexedTransfer) (sourceBlock : ℕ) : TransferAggregate :=
  transfers.foldl
    (fun aggregate transfer =>
      let moved := aggregate.move transfer
      if transfer.blockNumber ≠ sourceBlock then moved else moved.count transfer)
    ⟨∅, 0, 0, 0, []⟩

/-! ## The snapshot -/

structure OwnershipSnapshot where
  providers : List LiquidityProvider
  burnedProviders : List LiquidityProvider
  burnedLiquidityRaw : ℤ
  additionsRaw : ℕ
  removalsRaw : ℕ
  removalEvents : List RemovalEvent
  balances : Tally Address

def burnedProviderEvidence (zeroLockedRaw : ℕ) (deadBalance : ℤ) : List LiquidityProvider :=
  (if zeroLockedRaw > 0 then [⟨ZERO_ADDRESS, zeroLockedRaw⟩] else []) ++
    if deadBalance > 0 then [⟨DEAD_ADDRESS, deadBalance⟩] else []

/-- The larger position first, and the lower address of two equal ones. -/
def compareProviders (left right : LiquidityProvider) : Prop :=
  if left.liquidityRaw = right.liquidityRaw then left.address.value ≤ right.address.value
  else left.liquidityRaw > right.liquidityRaw

instance : DecidableRel compareProviders := fun left right =>
  inferInstanceAs (Decidable (if left.liquidityRaw = right.liquidityRaw then
    left.address.value ≤ right.address.value else left.liquidityRaw > right.liquidityRaw))

/-- **The holders of the LP token**; none where a balance is negative or
they do not account for the supply. -/
def ownershipSnapshot (transfers : List IndexedTransfer) (totalSupplyRaw sourceBlock : ℕ) :
    Option OwnershipSnapshot :=
  let aggregate := aggregateTransfers transfers sourceBlock
  if aggregate.balances.rows.any fun entry => entry.2 < 0 then none
  else
    let positiveBalances := aggregate.balances.rows.filter fun entry => 0 < entry.2
    let accountedSupply := aggregate.zeroLockedRaw + (positiveBalances.map Prod.snd).sum
    if accountedSupply ≠ totalSupplyRaw then none
    else
      let deadBalance := aggregate.balances.get DEAD_ADDRESS
      some {
        providers := ((positiveBalances.filter fun entry => entry.1 ≠ DEAD_ADDRESS).map
          fun entry => ⟨entry.1, entry.2⟩).insertionSort compareProviders
        burnedProviders := burnedProviderEvidence aggregate.zeroLockedRaw deadBalance
        burnedLiquidityRaw := aggregate.zeroLockedRaw + deadBalance
        additionsRaw := aggregate.additionsRaw
        removalsRaw := aggregate.removalsRaw
        removalEvents := aggregate.removalEvents
        balances := aggregate.balances }

/-! ## The pair -/

/-- A deployed pair. -/
structure LpPair where
  address : Address
  deployed : address ≠ ZERO_ADDRESS

/-- The accounting of its LP token, and the `Transfer` events emitted. -/
structure LpState where
  balanceOf : Address → ℕ
  totalSupply : ℕ
  events : List IndexedTransfer

def LpState.initial : LpState := ⟨fun _ => 0, 0, []⟩

/-- Where an event stands. -/
structure LogPlace where
  blockNumber : ℕ
  blockHash : Hash
  transactionHash : Hash
  logIndex : ℕ
deriving DecidableEq

/-- The event there. -/
def LogPlace.transfer (place : LogPlace) (fromAddress toAddress : Address) (amountRaw : ℕ) :
    IndexedTransfer :=
  ⟨place.blockNumber, place.blockHash, place.transactionHash, place.logIndex, fromAddress,
    toAddress, amountRaw⟩

/-- What the first mint locks. -/
def MINIMUM_LIQUIDITY : ℕ := 1000

/-- What moves LP tokens. The protocol's fee is a mint to its collector. -/
inductive LpAction
  /-- The first mint, which also locks the minimum liquidity. -/
  | initialMint (locked minted : LogPlace) (toAddress : Address) (liquidity : ℕ)
  | mint (place : LogPlace) (toAddress : Address) (liquidity : ℕ)
  /-- What was sent to the pair is burned. -/
  | burn (place : LogPlace)
  /-- A holder, or who it approved, sends some of its balance. -/
  | transfer (place : LogPlace) (fromAddress toAddress : Address) (value : ℕ)
deriving DecidableEq

namespace LpState

def mintTo (s : LpState) (place : LogPlace) (toAddress : Address) (value : ℕ) : LpState where
  balanceOf := Function.update s.balanceOf toAddress (s.balanceOf toAddress + value)
  totalSupply := s.totalSupply + value
  events := s.events ++ [place.transfer ZERO_ADDRESS toAddress value]

def burnFrom (s : LpState) (place : LogPlace) (fromAddress : Address) (value : ℕ) : LpState where
  balanceOf := Function.update s.balanceOf fromAddress (s.balanceOf fromAddress - value)
  totalSupply := s.totalSupply - value
  events := s.events ++ [place.transfer fromAddress ZERO_ADDRESS value]

def send (s : LpState) (place : LogPlace) (fromAddress toAddress : Address) (value : ℕ) :
    LpState :=
  let taken := Function.update s.balanceOf fromAddress (s.balanceOf fromAddress - value)
  { balanceOf := Function.update taken toAddress (taken toAddress + value)
    totalSupply := s.totalSupply
    events := s.events ++ [place.transfer fromAddress toAddress value] }

/-- **One action of the pair.** A subtraction below zero reverts, and
nothing is sent from the zero address. -/
def step (pair : LpPair) (s : LpState) : LpAction → Option LpState
  | .initialMint locked minted toAddress liquidity =>
    if s.totalSupply ≠ 0 ∨ liquidity = 0 then none
    else some ((s.mintTo locked ZERO_ADDRESS MINIMUM_LIQUIDITY).mintTo minted toAddress liquidity)
  | .mint place toAddress liquidity =>
    if s.totalSupply = 0 ∨ liquidity = 0 then none
    else some (s.mintTo place toAddress liquidity)
  | .burn place =>
    if s.totalSupply < s.balanceOf pair.address then none
    else some (s.burnFrom place pair.address (s.balanceOf pair.address))
  | .transfer place fromAddress toAddress value =>
    if fromAddress = ZERO_ADDRESS ∨ s.balanceOf fromAddress < value then none
    else some (s.send place fromAddress toAddress value)

end LpState

/-- **The histories of a pair's LP token.** -/
def LpPair.machine (pair : LpPair) : Machine LpState LpAction where
  Init s := s = .initial
  step := LpState.step pair

end HoodSentry
