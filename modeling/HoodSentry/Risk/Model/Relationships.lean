import HoodSentry.Common.Search
import HoodSentry.Model.Chain
/-!
# The relationship graph

`packages/risk-engine/src/relationships.ts`. The search goes from address to
address along the canonical edges and stops where enough edges are selected; a
call returns one page of them, the cursor of the next, and all the nodes.
Addresses and hashes are kept by value, and the key of an edge as its parts.
-/

namespace HoodSentry

inductive RelationshipKind
  | created
  | funded
  | transferredTo
  | owns
  | administers
  | upgraded
  | providedLiquidity
  | removedLiquidity
  | sharesBytecode
  | sharesRole
  | interactedWith
  | launchedOn
  | migratedTo
  | claimedFees
deriving DecidableEq

structure RelationshipEdge where
  fromAddress : Address
  toAddress : Address
  kind : RelationshipKind
  transactionHash : Hash
  logIndex : Option ℕ
  canonical : Bool
deriving DecidableEq

structure RelationshipGraph where
  edges : List RelationshipEdge
  nodes : List Address
  nextCursor : Option ℕ
  warnings : List String
deriving DecidableEq

/-- What an edge is counted once by. -/
structure EdgeKey where
  fromAddress : Address
  toAddress : Address
  kind : RelationshipKind
  transactionHash : Hash
  logIndex : ℤ
deriving DecidableEq

def edgeKey (edge : RelationshipEdge) : EdgeKey :=
  ⟨edge.fromAddress, edge.toAddress, edge.kind, edge.transactionHash,
    (edge.logIndex.map fun index => (index : ℤ)).getD (-1)⟩

structure QueueItem where
  address : Address
  depth : ℕ
deriving DecidableEq

/-- The variables of the search. -/
structure RelationshipSearch where
  allowed : List Address
  seen : List EdgeKey
  selected : List RelationshipEdge
  queue : List QueueItem
deriving DecidableEq

namespace RelationshipSearch

def start (roots : List Address) : RelationshipSearch where
  allowed := freshBy id roots []
  seen := []
  selected := []
  queue := roots.map fun address => ⟨address, 0⟩

/-- `Set.add`. -/
def addNode (nodes : List Address) (address : Address) : List Address :=
  if address ∈ nodes then nodes else nodes ++ [address]

/-- One edge of the address under `item`. -/
def visitEdge (depthLimit : ℕ) (item : QueueItem) (search : RelationshipSearch)
    (edge : RelationshipEdge) : RelationshipSearch :=
  if edgeKey edge ∈ search.seen then search
  else
    let selected : RelationshipSearch :=
      { search with
        seen := edgeKey edge :: search.seen
        selected := search.selected ++ [edge] }
    if item.depth < depthLimit then
      { selected with
        allowed := addNode search.allowed edge.toAddress
        queue := search.queue ++ [⟨edge.toAddress, item.depth + 1⟩] }
    else selected

/-- The canonical edges of an address. -/
def edgesOf (edges : List RelationshipEdge) (address : Address) : List RelationshipEdge :=
  edges.filter fun edge => edge.fromAddress = address ∧ edge.canonical

def visitItem (edges : List RelationshipEdge) (depthLimit : ℕ) (search : RelationshipSearch)
    (item : QueueItem) : RelationshipSearch :=
  (edgesOf edges item.address).foldl (visitEdge depthLimit item) search

/-- The edges that are not seen, and the items that wait: what a search still
has to do. -/
def pending (edges : List RelationshipEdge) (search : RelationshipSearch) : ℕ :=
  (edges.filter fun edge => edgeKey edge ∉ search.seen).length + search.queue.length

theorem pending_visitEdge {edges : List RelationshipEdge} {depthLimit : ℕ} {item : QueueItem}
    {search : RelationshipSearch} {edge : RelationshipEdge} (h : edge ∈ edges) :
    (visitEdge depthLimit item search edge).pending edges ≤ search.pending edges := by
  unfold visitEdge
  split
  · exact le_rfl
  rename_i hnew
  -- the edge itself is one that was not seen
  have hseen : (edges.filter fun e => edgeKey e ∉ edgeKey edge :: search.seen).length <
      (edges.filter fun e => edgeKey e ∉ search.seen).length := by
    have hsub : (edges.filter fun e => edgeKey e ∉ edgeKey edge :: search.seen) =
        (edges.filter fun e => edgeKey e ∉ search.seen).filter
          fun e => edgeKey e ≠ edgeKey edge := by
      rw [List.filter_filter]
      refine List.filter_congr fun e _ => ?_
      simp [List.mem_cons, not_or]
    rw [hsub]
    refine List.length_filter_lt_length_iff_exists.mpr ⟨edge, ?_, by simp⟩
    exact List.mem_filter.mpr ⟨h, decide_eq_true hnew⟩
  by_cases hdepth : item.depth < depthLimit
  · simp only [if_pos hdepth, pending, List.length_append, List.length_singleton]
    omega
  · simp only [if_neg hdepth, pending]
    omega

theorem pending_visitItem {edges : List RelationshipEdge} {depthLimit : ℕ}
    {search : RelationshipSearch} {item : QueueItem} :
    (visitItem edges depthLimit search item).pending edges ≤ search.pending edges := by
  unfold visitItem
  have hfold : ∀ l : List RelationshipEdge, (∀ edge ∈ l, edge ∈ edges) →
      ∀ search : RelationshipSearch,
        (l.foldl (visitEdge depthLimit item) search).pending edges ≤ search.pending edges := by
    intro l hl
    induction l with
    | nil => exact fun _ => le_rfl
    | cons edge l ih =>
      intro search
      exact (ih (fun e he => hl e (List.mem_cons_of_mem _ he)) _).trans
        (pending_visitEdge (hl edge List.mem_cons_self))
  exact hfold _ (fun edge hedge => List.mem_of_mem_filter hedge) search

/-- **The loop**: each round takes an item, and leaves less to do. -/
def run (edges : List RelationshipEdge) (depthLimit maxEdges : ℕ) (search : RelationshipSearch) :
    RelationshipSearch :=
  match _hqueue : search.queue with
  | [] => search
  | item :: queue =>
    if search.selected.length < maxEdges then
      run edges depthLimit maxEdges (visitItem edges depthLimit { search with queue := queue } item)
    else search
termination_by search.pending edges
decreasing_by
  refine lt_of_le_of_lt pending_visitItem ?_
  unfold pending
  rw [_hqueue, List.length_cons]
  dsimp only
  omega

end RelationshipSearch

/-- **One page of the graph.** -/
def buildRelationshipGraph (edges : List RelationshipEdge) (roots : List Address)
    (depthLimit maxEdges cursor : ℕ) : RelationshipGraph :=
  let search := RelationshipSearch.run edges depthLimit maxEdges (.start roots)
  { edges := (search.selected.drop cursor).take maxEdges
    nodes := search.allowed
    nextCursor :=
      if cursor + maxEdges < search.selected.length then some (cursor + maxEdges) else none
    warnings :=
      if search.selected.length ≥ maxEdges then ["Graph depth or edge limit reached"] else [] }

end HoodSentry
