import HoodSentry.Chain.Model.Quotes
import HoodSentry.Common.Machine
import HoodSentry.Common.Table
import HoodSentry.Common.Text
/-!
# Watchlists

`WatchlistService` of `packages/alert-engine/src/watchlists.ts`. The map of
lists is a table keyed by their ids. What a new list is called is an argument,
so that the service can be run beside itself under the names another run gave.
-/

namespace HoodSentry

inductive WatchlistKind
  | token | wallet | project | pool | deployer | mixed
deriving DecidableEq

structure Watchlist where
  id : String
  ownerId : String
  name : String
  kind : WatchlistKind
  items : List String
  notes : String
  labels : List String
  isDefault : Bool
deriving DecidableEq

/-- The limits by tier. -/
structure WatchlistLimits where
  limits : List (String × ℚ)

namespace WatchlistLimits

def get? (limits : WatchlistLimits) (tier : String) : Option ℚ :=
  (limits.limits.find? fun entry => entry.1 = tier).map Prod.snd

/-- `this.limits[tier] ?? this.limits.free ?? 50`. -/
def limit (limits : WatchlistLimits) (tier : String) : ℚ :=
  ((limits.get? tier).or (limits.get? "free")).getD 50

end WatchlistLimits

/-- `address.toLowerCase()`, of an address. -/
def lowerAddress (address : String) : String := String.ofList (address.toList.map Char.toLower)

/-- `/^0x[0-9a-fA-F]{40}$/.test`. -/
def isAddressText (address : String) : Bool :=
  match address.toList with
  | '0' :: 'x' :: digits => digits.length = 40 && digits.all isHexDigit
  | _ => false

/-- The calls of the service, without their owner. -/
inductive WatchlistCall
  | create (kind : WatchlistKind) (name tier : String)
  | add (id address tier : String)
  | remove (id address : String)
  | delete (id : String)
deriving DecidableEq

namespace WatchlistService

/-- The map of lists. -/
abbrev Lists := Table Watchlist.id

variable (limits : WatchlistLimits) (lists : Lists)

/-- `` `wl_${this.lists.size + 1}` ``. -/
def nextId : String := "wl_" ++ toString (lists.rows.length + 1)

/-- `this.lists.set(l.id, l)`. -/
def set (l : Watchlist) : Lists := lists.upsert l (fun old => { l with id := old.id }) fun _ => rfl

def require (id ownerId : String) : Except String Watchlist :=
  match lists.find id with
  | none => .error "Unauthorized watchlist access"
  | some l => if l.ownerId ≠ ownerId then .error "Unauthorized watchlist access" else .ok l

/-- What a call throws or returns, `none` where it returns nothing. -/
abbrev Outcome := Except String (Option Watchlist)

def create (id ownerId : String) (kind : WatchlistKind) (name : String) : Lists × Outcome :=
  if trim name = "" then (lists, .error "Name required")
  else
    let l : Watchlist := {
      id := id
      ownerId := ownerId
      name := trim name
      kind := kind
      items := []
      notes := ""
      labels := []
      isDefault := lists.rows = [] }
    (set lists l, .ok l)

def add (id ownerId address tier : String) : Lists × Outcome :=
  match require lists id ownerId with
  | .error e => (lists, .error e)
  | .ok l =>
    if !isAddressText address then (lists, .error "Invalid address")
    else if lowerAddress address ∈ l.items then (lists, .ok l)
    else if limits.limit tier ≤ l.items.length then
      (lists, .error "Watchlist tier limit reached")
    else
      let next := { l with items := l.items ++ [lowerAddress address] }
      (set lists next, .ok next)

def remove (id ownerId address : String) : Lists × Outcome :=
  match require lists id ownerId with
  | .error e => (lists, .error e)
  | .ok l =>
    let next := { l with items := l.items.filter (· ≠ lowerAddress address) }
    (set lists next, .ok next)

def delete (id ownerId : String) : Lists × Outcome :=
  match require lists id ownerId with
  | .error e => (lists, .error e)
  | .ok _ => (lists.deleteWhere fun l => l.id = id, .ok none)

/-- **A call**, with the id a new list gets. -/
def perform (newId ownerId : String) : WatchlistCall → Lists × Outcome
  | .create kind name _ => create lists newId ownerId kind name
  | .add id address tier => add limits lists id ownerId address tier
  | .remove id address => remove lists id ownerId address
  | .delete id => delete lists id ownerId

end WatchlistService

/-- A call made: by whom, the id it had for a new list, whether that id was
taken, and what became of it. -/
structure WatchlistEntry where
  ownerId : String
  call : WatchlistCall
  newId : String
  taken : Bool
  outcome : WatchlistService.Outcome

/-- The lists, and the calls made so far, latest first. -/
structure WatchlistWorld where
  lists : WatchlistService.Lists
  history : List WatchlistEntry

/-- **The service**, called by any owners in any order. -/
def watchlistMachine (limits : WatchlistLimits) :
    Machine WatchlistWorld (String × WatchlistCall) where
  Init w := w.lists = ∅ ∧ w.history = []
  step w call :=
    let newId := WatchlistService.nextId w.lists
    let after := WatchlistService.perform limits w.lists newId call.1 call.2
    some {
      lists := after.1
      history := ⟨call.1, call.2, newId, newId ∈ w.lists.keys, after.2⟩ :: w.history }

end HoodSentry
