import HoodSentry.Risk.Model.Relationships
/-!
# What the relationship graph leaves out

The search goes through the addresses in breadth-first order, and selects the
edges of each at once. It stops between two addresses where enough edges are
selected, and what it has not come to by then is on no page; and it adds the
far end of an edge to the nodes only where the depth limit is not reached. So
the graph can be read to the end, and is closed, exactly where no edge leads
out of the limit and the last address with an edge is come to in time.
-/

namespace HoodSentry

open RelationshipSearch

/-! ## The order of the search -/

section Order

variable {edges : List RelationshipEdge} {edge : RelationshipEdge} {address : Address}
  {visited : List Address}

/-- The edges of an address, each key once. -/
def edgesFrom (edges : List RelationshipEdge) (address : Address) : List RelationshipEdge :=
  freshBy edgeKey (edgesOf edges address) []

/-- Where they lead. -/
def targetsOf (edges : List RelationshipEdge) (address : Address) : List Address :=
  (edgesFrom edges address).map (·.toAddress)

/-- **The addresses within the limit**, in the order of the search. -/
def searchOrder (edges : List RelationshipEdge) (roots : List Address) (depthLimit : ℕ) :
    List Address :=
  explore (targetsOf edges) depthLimit roots []

/-- Where the canonical edges of an address lead. -/
def canonicalTargets (edges : List RelationshipEdge) (address : Address) : List Address :=
  (edgesOf edges address).map (·.toAddress)

/-- **Within so many steps of a root**, along canonical edges. -/
def Near (edges : List RelationshipEdge) (roots : List Address) (steps : ℕ) (address : Address) :
    Prop :=
  Within (canonicalTargets edges) roots steps address

theorem mem_edgesOf : edge ∈ edgesOf edges address ↔
    edge ∈ edges ∧ edge.fromAddress = address ∧ edge.canonical = true := by
  unfold edgesOf
  rw [List.mem_filter, decide_eq_true_iff]

theorem mem_of_mem_edgesFrom (h : edge ∈ edgesFrom edges address) :
    edge ∈ edges ∧ edge.fromAddress = address ∧ edge.canonical = true :=
  mem_edgesOf.mp (mem_of_mem_freshBy h).1

/-- Every edge of the address has its key among them. -/
theorem key_mem_edgesFrom (h : edge ∈ edgesOf edges address) :
    edgeKey edge ∈ (edgesFrom edges address).map edgeKey := by
  have hkeys := (@mem_keys_freshBy _ _ _ edgeKey (edgesOf edges address) [] (edgeKey edge)).mpr
    (.inl (List.mem_map_of_mem h))
  exact hkeys.resolve_right List.not_mem_nil

/-- The key has both ends of the edge. -/
theorem ends_of_edgeKey {other : RelationshipEdge} (h : edgeKey edge = edgeKey other) :
    edge.fromAddress = other.fromAddress ∧ edge.toAddress = other.toAddress :=
  ⟨congrArg EdgeKey.fromAddress h, congrArg EdgeKey.toAddress h⟩

theorem mem_targetsOf {source : Address} :
    address ∈ targetsOf edges source ↔ address ∈ canonicalTargets edges source := by
  unfold targetsOf canonicalTargets
  constructor
  · intro h
    obtain ⟨e, he, rfl⟩ := List.mem_map.mp h
    exact List.mem_map_of_mem (mem_edgesOf.mpr (mem_of_mem_edgesFrom he))
  · intro h
    obtain ⟨e, he, rfl⟩ := List.mem_map.mp h
    obtain ⟨kept, hkept, hkey⟩ := List.mem_map.mp (key_mem_edgesFrom he)
    exact (ends_of_edgeKey hkey).2 ▸ List.mem_map_of_mem hkept

/-- **The edges of the visited addresses**: one is among them by its key where
its source was visited. -/
theorem key_mem_flatMap (h : edge ∈ edges) (hcanonical : edge.canonical = true) :
    edgeKey edge ∈ (visited.flatMap (edgesFrom edges)).map edgeKey ↔
      edge.fromAddress ∈ visited := by
  constructor
  · intro hmem
    obtain ⟨kept, hkept, hkey⟩ := List.mem_map.mp hmem
    obtain ⟨source, hsource, hfrom⟩ := List.mem_flatMap.mp hkept
    have heq : kept.fromAddress = edge.fromAddress := (ends_of_edgeKey hkey).1
    rw [← heq, (mem_of_mem_edgesFrom hfrom).2.1]
    exact hsource
  · intro hmem
    obtain ⟨kept, hkept, hkey⟩ :=
      List.mem_map.mp (key_mem_edgesFrom (mem_edgesOf.mpr ⟨h, rfl, hcanonical⟩))
    exact hkey ▸ List.mem_map_of_mem (List.mem_flatMap.mpr ⟨_, hmem, hkept⟩)

/-- No key is selected twice. -/
theorem nodup_keys_flatMap (h : visited.Nodup) :
    ((visited.flatMap (edgesFrom edges)).map edgeKey).Nodup := by
  induction visited with
  | nil => exact List.nodup_nil
  | cons source visited ih =>
    rw [List.nodup_cons] at h
    rw [List.flatMap_cons, List.map_append, List.nodup_append]
    refine ⟨nodup_freshBy, ih h.2, ?_⟩
    rintro key hkey _ hother rfl
    obtain ⟨edge, hedge, rfl⟩ := List.mem_map.mp hkey
    obtain ⟨hmem, hfrom, hcanonical⟩ := mem_of_mem_edgesFrom hedge
    exact h.1 (hfrom ▸ (key_mem_flatMap hmem hcanonical).mp hother)

end Order

/-! ## One item -/

section Visit

variable {edges : List RelationshipEdge} {l : List RelationshipEdge} {search : RelationshipSearch}
  {item : QueueItem} {depthLimit : ℕ} {address : Address}

/-- **What the edges of an address do**: the ones whose key is not seen are
selected, and followed above the depth limit. -/
structure Visited (search : RelationshipSearch) (new : List RelationshipEdge) (item : QueueItem)
    (depthLimit : ℕ) (after : RelationshipSearch) : Prop where
  selected : after.selected = search.selected ++ new
  seen : ∀ key, key ∈ after.seen ↔ key ∈ search.seen ∨ key ∈ new.map edgeKey
  queue : after.queue = search.queue ++
    if item.depth < depthLimit then new.map fun edge => ⟨edge.toAddress, item.depth + 1⟩ else []
  allowed : ∀ address, address ∈ after.allowed ↔ address ∈ search.allowed ∨
    item.depth < depthLimit ∧ address ∈ new.map (·.toAddress)

theorem mem_addNode {nodes : List Address} {node : Address} :
    address ∈ addNode nodes node ↔ address ∈ nodes ∨ address = node := by
  unfold addNode
  split
  · exact ⟨Or.inl, fun h => h.elim id fun heq => heq ▸ ‹_›⟩
  · rw [List.mem_append, List.mem_singleton]

theorem visited_foldl : Visited search (freshBy edgeKey l search.seen) item depthLimit
    (l.foldl (visitEdge depthLimit item) search) := by
  induction l generalizing search with
  | nil =>
    unfold freshBy
    exact ⟨by simp, by simp, by simp, by simp⟩
  | cons edge l ih =>
    have hrest := @ih (visitEdge depthLimit item search edge)
    rw [List.foldl_cons]
    unfold freshBy
    by_cases hseen : edgeKey edge ∈ search.seen
    · rw [if_pos hseen]
      have hsame : visitEdge depthLimit item search edge = search := if_pos hseen
      rwa [hsame] at hrest ⊢
    · rw [if_neg hseen]
      obtain ⟨hselected, hkeys, hqueue, hallowed⟩ := hrest
      have hvisit : (visitEdge depthLimit item search edge).seen = edgeKey edge :: search.seen ∧
          (visitEdge depthLimit item search edge).selected = search.selected ++ [edge] ∧
          (visitEdge depthLimit item search edge).queue = search.queue ++
            (if item.depth < depthLimit then [⟨edge.toAddress, item.depth + 1⟩] else []) ∧
          ∀ address, address ∈ (visitEdge depthLimit item search edge).allowed ↔
            address ∈ search.allowed ∨ item.depth < depthLimit ∧ address = edge.toAddress := by
        unfold visitEdge
        rw [if_neg hseen]
        by_cases hdepth : item.depth < depthLimit
        · simp [hdepth, mem_addNode]
        · simp [hdepth]
      obtain ⟨hseen', hselected', hqueue', hallowed'⟩ := hvisit
      rw [hseen'] at hselected hkeys hqueue hallowed
      refine ⟨?_, fun key => ?_, ?_, fun address => ?_⟩
      · rw [hselected, hselected', List.append_assoc, List.singleton_append]
      · rw [hkeys, List.map_cons, List.mem_cons, List.mem_cons]
        tauto
      · rw [hqueue, hqueue', List.append_assoc]
        by_cases hdepth : item.depth < depthLimit
        · simp [hdepth]
        · simp [hdepth]
      · rw [hallowed, hallowed', List.map_cons, List.mem_cons]
        tauto

end Visit

/-! ## The loop -/

section Loop

variable {edges : List RelationshipEdge} {roots : List Address} {depthLimit maxEdges depth : ℕ}
  {search : RelationshipSearch} {rest later visited : List Address} {address : Address}

/-- What is still to be visited, in order, with `n` more waves: the `rest` of
this wave, and then what is `later` and what the rest leads to. -/
def remaining (next : Address → List Address) :
    ℕ → List Address → List Address → List Address → List Address
  | 0, rest, _, visited => freshBy id rest visited
  | n + 1, rest, later, visited =>
    let wave := freshBy id rest visited
    wave ++ explore next n (later ++ wave.flatMap next) (visited ++ wave)

/-- **The search and the order go together**: the queue has the rest of a wave
and the begin of the next, the edges of the visited addresses are selected, and
the nodes are what is visited or waits. -/
structure Lockstep (edges : List RelationshipEdge) (roots : List Address)
    (depthLimit maxEdges : ℕ) (search : RelationshipSearch) (depth : ℕ)
    (rest later visited : List Address) : Prop where
  depth_le : depth ≤ depthLimit
  last : depth = depthLimit → later = []
  queue : search.queue = (rest.map fun address => ⟨address, depth⟩) ++
    later.map fun address => ⟨address, depth + 1⟩
  selected : search.selected = visited.flatMap (edgesFrom edges)
  seen : ∀ key, key ∈ search.seen ↔ key ∈ search.selected.map edgeKey
  allowed : ∀ address, address ∈ search.allowed ↔
    address ∈ visited ∨ address ∈ rest ∨ address ∈ later
  order : searchOrder edges roots depthLimit =
    visited ++ remaining (targetsOf edges) (depthLimit - depth) rest later visited
  room : ∀ before source after, visited = before ++ source :: after →
    (before.flatMap (edgesFrom edges)).length < maxEdges

theorem lockstep_start : Lockstep edges roots depthLimit maxEdges (.start roots) 0 roots [] [] where
  depth_le := Nat.zero_le _
  last _ := rfl
  queue := by simp [start]
  selected := rfl
  seen key := by simp [start]
  allowed address := by
    have hmem := @mem_freshBy_id _ _ roots [] address
    simpa [start] using hmem
  order := by
    unfold searchOrder
    cases depthLimit with
    | zero => rfl
    | succ n => rfl
  room before source after h := absurd h (by simp)

/-- A wave is done, and the next begins. -/
theorem Lockstep.advance (h : Lockstep edges roots depthLimit maxEdges search depth [] later visited)
    (hlater : later ≠ []) :
    Lockstep edges roots depthLimit maxEdges search (depth + 1) later [] visited := by
  have hlt : depth < depthLimit := by
    rcases Nat.lt_or_eq_of_le h.depth_le with hlt | heq
    · exact hlt
    · exact absurd (h.last heq) hlater
  refine ⟨hlt, fun _ => rfl, by simpa using h.queue, h.selected, h.seen, fun address => ?_, ?_,
    h.room⟩
  · rw [h.allowed]
    simp
  · obtain ⟨n, hn⟩ : ∃ n, depthLimit - depth = n + 1 := ⟨depthLimit - depth - 1, by omega⟩
    have hn' : depthLimit - (depth + 1) = n := by omega
    rw [h.order, hn, hn']
    simp only [remaining, freshBy, List.flatMap_nil, List.append_nil, List.nil_append]
    cases n with
    | zero => rfl
    | succ n => rfl

/-- An address that was visited adds nothing. -/
theorem Lockstep.revisit (h : Lockstep edges roots depthLimit maxEdges search depth
      (address :: rest) later visited) (hvisited : address ∈ visited) :
    Lockstep edges roots depthLimit maxEdges
      (visitItem edges depthLimit { search with
        queue := (rest.map fun address => ⟨address, depth⟩) ++
          later.map fun address => ⟨address, depth + 1⟩ } ⟨address, depth⟩)
      depth rest later visited := by
  have hnew : freshBy edgeKey (edgesOf edges address) search.seen = [] := by
    refine List.eq_nil_iff_forall_not_mem.mpr fun edge hedge => ?_
    obtain ⟨hmem, hseen⟩ := mem_of_mem_freshBy hedge
    obtain ⟨hedges, hfrom, hcanonical⟩ := mem_edgesOf.mp hmem
    rw [h.seen, h.selected, key_mem_flatMap hedges hcanonical, hfrom] at hseen
    exact hseen hvisited
  obtain ⟨hselected, hkeys, hqueue, hallowed⟩ := @visited_foldl (edgesOf edges address)
    { search with
      queue := (rest.map fun address => ⟨address, depth⟩) ++
        later.map fun address => ⟨address, depth + 1⟩ } ⟨address, depth⟩ depthLimit
  rw [hnew] at hselected hkeys hqueue hallowed
  have horder : ∀ n, remaining (targetsOf edges) n (address :: rest) later visited =
      remaining (targetsOf edges) n rest later visited := by
    have hwave : freshBy id (address :: rest) visited = freshBy id rest visited := if_pos hvisited
    intro n
    cases n with
    | zero => exact hwave
    | succ n => simp only [remaining, hwave]
  refine ⟨h.depth_le, h.last, ?_, ?_, fun key => ?_, fun other => ?_, ?_, h.room⟩
  · refine hqueue.trans ?_
    simp
  · refine hselected.trans ?_
    simpa using h.selected
  · refine (hkeys key).trans ?_
    change key ∈ search.seen ∨ key ∈ [] ↔ key ∈ List.map edgeKey _
    rw [show (visitItem edges depthLimit _ _).selected = _ from hselected]
    simpa using h.seen key
  · refine (hallowed other).trans ?_
    change other ∈ search.allowed ∨ _ ↔ _
    rw [h.allowed]
    simp only [List.mem_cons, List.map_nil, List.not_mem_nil, and_false, or_false]
    constructor
    · rintro (hv | (rfl | hr) | hl)
      · exact .inl hv
      · exact .inl hvisited
      · exact .inr (.inl hr)
      · exact .inr (.inr hl)
    · rintro (hv | hr | hl)
      · exact .inl hv
      · exact .inr (.inl (.inr hr))
      · exact .inr (.inr hl)
  · rw [h.order, horder]

/-- What remains after an address is visited. -/
theorem remaining_cons {next : Address → List Address} (h : address ∉ visited) (n : ℕ) :
    remaining next n (address :: rest) later visited =
      address :: remaining next n rest (later ++ if 0 < n then next address else [])
        (visited ++ [address]) := by
  have hwave : freshBy id (address :: rest) visited =
      address :: freshBy id rest (visited ++ [address]) := by
    refine (if_neg h).trans (congrArg _ (freshBy_congr fun k _ => ?_))
    rw [List.mem_cons, List.mem_append, List.mem_singleton, id, or_comm]
  cases n with
  | zero => exact hwave
  | succ n =>
    simp only [remaining, hwave, List.flatMap_cons, if_pos (Nat.succ_pos n), List.append_assoc,
      List.cons_append, List.nil_append]

/-- **A new address**: its edges are selected, and above the limit followed. -/
theorem Lockstep.visit (h : Lockstep edges roots depthLimit maxEdges search depth
      (address :: rest) later visited) (hnew : address ∉ visited)
    (hroom : search.selected.length < maxEdges) :
    Lockstep edges roots depthLimit maxEdges
      (visitItem edges depthLimit { search with
        queue := (rest.map fun address => ⟨address, depth⟩) ++
          later.map fun address => ⟨address, depth + 1⟩ } ⟨address, depth⟩)
      depth rest (later ++ if depth < depthLimit then targetsOf edges address else [])
      (visited ++ [address]) := by
  have hfresh : freshBy edgeKey (edgesOf edges address) search.seen = edgesFrom edges address := by
    refine freshBy_congr fun key hkey => ?_
    obtain ⟨edge, hedge, rfl⟩ := List.mem_map.mp hkey
    obtain ⟨hedges, hfrom, hcanonical⟩ := mem_edgesOf.mp hedge
    rw [h.seen, h.selected, key_mem_flatMap hedges hcanonical, hfrom]
    exact iff_of_false hnew List.not_mem_nil
  obtain ⟨hselected, hkeys, hqueue, hallowed⟩ := @visited_foldl (edgesOf edges address)
    { search with
      queue := (rest.map fun address => ⟨address, depth⟩) ++
        later.map fun address => ⟨address, depth + 1⟩ } ⟨address, depth⟩ depthLimit
  rw [hfresh] at hselected hkeys hqueue hallowed
  refine ⟨h.depth_le, fun hlast => ?_, ?_, ?_, fun key => ?_, fun other => ?_, ?_, ?_⟩
  · rw [h.last hlast, if_neg (by omega)]
    rfl
  · refine hqueue.trans ?_
    by_cases hdepth : depth < depthLimit
    · simp [hdepth, targetsOf]
    · simp [hdepth]
  · refine hselected.trans ?_
    rw [List.flatMap_append, List.flatMap_cons, List.flatMap_nil, List.append_nil]
    exact congrArg (· ++ _) h.selected
  · refine (hkeys key).trans ?_
    rw [show (visitItem edges depthLimit _ _).selected = _ from hselected, List.map_append,
      List.mem_append]
    exact or_congr_left (h.seen key)
  · refine (hallowed other).trans ?_
    change other ∈ search.allowed ∨ depth < depthLimit ∧ other ∈ targetsOf edges address ↔ _
    rw [h.allowed]
    by_cases hdepth : depth < depthLimit
    · simp only [hdepth, true_and, if_true, List.mem_cons, List.mem_append, List.not_mem_nil,
        or_false]
      tauto
    · simp only [hdepth, false_and, if_false, List.mem_cons, List.mem_append, List.not_mem_nil,
        or_false]
      tauto
  · have hpos : (0 < depthLimit - depth) = (depth < depthLimit) := propext (by omega)
    rw [h.order, remaining_cons hnew, List.append_assoc, List.singleton_append]
    simp only [hpos]
  · intro before source after hsplit
    rcases List.eq_nil_or_concat' after with rfl | ⟨init, final, rfl⟩
    · obtain ⟨rfl, -⟩ := List.append_inj' hsplit rfl
      rw [← h.selected]
      exact hroom
    · have hinit : visited ++ [address] = (before ++ source :: init) ++ [final] := by
        rw [hsplit, List.append_assoc, List.cons_append]
      exact h.room before source init (List.append_inj' hinit rfl).1

/-- **The loop stops in lockstep**, with nothing waiting or enough selected. -/
theorem exists_lockstep_run
    (h : Lockstep edges roots depthLimit maxEdges search depth rest later visited) :
    ∃ depth rest later visited, Lockstep edges roots depthLimit maxEdges
        (run edges depthLimit maxEdges search) depth rest later visited ∧
      (rest = [] ∧ later = [] ∨
        maxEdges ≤ (run edges depthLimit maxEdges search).selected.length) := by
  induction hpending : search.pending edges using Nat.strong_induction_on generalizing search depth
    rest later visited with
  | _ n ih =>
    -- the head of the queue is of this wave, or the first of the next
    obtain ⟨depth, rest, later, h, hwave⟩ : ∃ depth rest later,
        Lockstep edges roots depthLimit maxEdges search depth rest later visited ∧
          (rest = [] → later = []) := by
      by_cases hnext : rest = [] ∧ later ≠ []
      · obtain ⟨rfl, hlater⟩ := hnext
        exact ⟨depth + 1, later, [], h.advance hlater, fun _ => rfl⟩
      · exact ⟨depth, rest, later, h, fun hrest => not_not.mp fun hlater => hnext ⟨hrest, hlater⟩⟩
    cases rest with
    | nil =>
      obtain rfl := hwave rfl
      have hempty : search.queue = [] := h.queue
      have hdone : run edges depthLimit maxEdges search = search := by
        unfold run
        split
        · rfl
        · rename_i hqueue
          rw [hempty] at hqueue
          cases hqueue
      rw [hdone]
      exact ⟨depth, [], [], visited, h, .inl ⟨rfl, rfl⟩⟩
    | cons address rest =>
      have hqueue : search.queue = ⟨address, depth⟩ :: ((rest.map fun address => ⟨address, depth⟩) ++
          later.map fun address => ⟨address, depth + 1⟩) := h.queue
      by_cases hroom : search.selected.length < maxEdges
      · have hrun : run edges depthLimit maxEdges search = run edges depthLimit maxEdges
            (visitItem edges depthLimit { search with
              queue := (rest.map fun address => ⟨address, depth⟩) ++
                later.map fun address => ⟨address, depth + 1⟩ } ⟨address, depth⟩) := by
          rw [run]
          split
          · rename_i hnil
            rw [hqueue] at hnil
            cases hnil
          · rename_i item queue hcons
            obtain ⟨rfl, rfl⟩ := List.cons.inj (hqueue.symm.trans hcons)
            rw [if_pos hroom]
        have hless : (visitItem edges depthLimit { search with
            queue := (rest.map fun address => ⟨address, depth⟩) ++
              later.map fun address => ⟨address, depth + 1⟩ } ⟨address, depth⟩).pending edges < n := by
          refine lt_of_le_of_lt pending_visitItem ?_
          rw [← hpending]
          unfold pending
          rw [hqueue, List.length_cons]
          dsimp only
          omega
        rw [hrun]
        by_cases hvisited : address ∈ visited
        · exact ih _ hless (h.revisit hvisited) rfl
        · exact ih _ hless (h.visit hvisited hroom) rfl
      · have hdone : run edges depthLimit maxEdges search = search := by
          rw [run]
          split
          · rfl
          · rw [if_neg hroom]
        rw [hdone]
        exact ⟨depth, address :: rest, later, visited, h, .inr (by omega)⟩

end Loop

/-! ## What is selected, and the nodes -/

section Selected

variable {edges : List RelationshipEdge} {roots : List Address} {depthLimit maxEdges depth : ℕ}
  {search : RelationshipSearch} {rest later visited : List Address} {address : Address}
  {edge : RelationshipEdge}

/-- **The last address with an edge is come to in time**: the edges of the
addresses before it are fewer than the search may select. -/
def ComesInTime (edges : List RelationshipEdge) (roots : List Address)
    (depthLimit maxEdges : ℕ) : Prop :=
  ∀ before source after, searchOrder edges roots depthLimit = before ++ source :: after →
    edgesFrom edges source ≠ [] → (before.flatMap (edgesFrom edges)).length < maxEdges

/-- **No canonical edge leads out of the limit.** -/
def StaysWithin (edges : List RelationshipEdge) (roots : List Address) (depthLimit : ℕ) : Prop :=
  ∀ edge ∈ edges, edge.canonical = true → Near edges roots depthLimit edge.fromAddress →
    Near edges roots depthLimit edge.toAddress

theorem mem_searchOrder :
    address ∈ searchOrder edges roots depthLimit ↔ Near edges roots depthLimit address := by
  have hsteps : ∀ n a b, StepsTo (targetsOf edges) n a b ↔ StepsTo (canonicalTargets edges) n a b := by
    intro n
    induction n with
    | zero => exact fun _ _ => Iff.rfl
    | succ n ih =>
      intro a b
      simp only [StepsTo, mem_targetsOf, ih]
  unfold searchOrder
  rw [mem_explore_iff]
  unfold Near Within
  simp only [hsteps]

/-- Nothing waits, so nothing remains. -/
theorem remaining_nil {next : Address → List Address} {n : ℕ} :
    remaining next n [] [] visited = [] := by
  cases n with
  | zero => rfl
  | succ n => exact explore_nil

/-- Addresses without edges lead nowhere: what remains is what waits. -/
theorem mem_remaining {next : Address → List Address} {n : ℕ} (hlast : n = 0 → later = [])
    (h : ∀ a ∈ remaining next n rest later visited, next a = []) :
    address ∈ visited ∨ address ∈ remaining next n rest later visited ↔
      address ∈ visited ∨ address ∈ rest ∨ address ∈ later := by
  have hrest := @mem_freshBy_id _ _ rest visited address
  cases n with
  | zero =>
    rw [hlast rfl]
    change address ∈ visited ∨ address ∈ freshBy id rest visited ↔ _
    simp only [List.not_mem_nil, or_false]
    tauto
  | succ n =>
    have hwave : (freshBy id rest visited).flatMap next = [] :=
      List.flatMap_eq_nil_iff.mpr fun a ha => h a (List.mem_append_left _ ha)
    have hlater := @mem_freshBy_id _ _ later (visited ++ freshBy id rest visited) address
    have hexplore : explore next n later (visited ++ freshBy id rest visited) =
        freshBy id later (visited ++ freshBy id rest visited) := by
      have hempty : ∀ a ∈ explore next n later (visited ++ freshBy id rest visited), next a = [] := by
        intro a ha
        refine h a (List.mem_append_right _ ?_)
        rwa [hwave, List.append_nil]
      cases n with
      | zero => rfl
      | succ n =>
        have hflat : (freshBy id later (visited ++ freshBy id rest visited)).flatMap next = [] :=
          List.flatMap_eq_nil_iff.mpr fun a ha => hempty a (List.mem_append_left _ ha)
        simp only [explore, hflat, explore_nil, List.append_nil]
    have hboth : remaining next (n + 1) rest later visited =
        freshBy id rest visited ++ freshBy id later (visited ++ freshBy id rest visited) := by
      simp only [remaining, hwave, List.append_nil, hexplore]
    rw [hboth]
    calc address ∈ visited ∨
          address ∈ freshBy id rest visited ++ freshBy id later (visited ++ freshBy id rest visited)
        ↔ address ∈ freshBy id later (visited ++ freshBy id rest visited) ∨
            address ∈ visited ++ freshBy id rest visited := by
          rw [List.mem_append, List.mem_append, ← or_assoc, or_comm]
      _ ↔ address ∈ later ∨ address ∈ visited ++ freshBy id rest visited := hlater
      _ ↔ address ∈ later ∨ address ∈ rest ∨ address ∈ visited := by
          rw [List.mem_append, ← hrest, @or_comm (address ∈ visited)]
      _ ↔ address ∈ visited ∨ address ∈ rest ∨ address ∈ later := by
          rw [or_comm, or_assoc, or_left_comm]

/-- **In time, everything is selected**: all the edges within the limit, and
exactly the addresses within it are nodes. -/
theorem Lockstep.all_selected
    (h : Lockstep edges roots depthLimit maxEdges search depth rest later visited)
    (hstop : rest = [] ∧ later = [] ∨ maxEdges ≤ search.selected.length)
    (hfits : ComesInTime edges roots depthLimit maxEdges) :
    search.selected = (searchOrder edges roots depthLimit).flatMap (edgesFrom edges) ∧
      ∀ address, address ∈ search.allowed ↔ Near edges roots depthLimit address := by
  have hnone : ∀ source ∈ remaining (targetsOf edges) (depthLimit - depth) rest later visited,
      edgesFrom edges source = [] := by
    intro source hsource
    rcases hstop with ⟨rfl, rfl⟩ | hfull
    · rw [remaining_nil] at hsource
      exact absurd hsource List.not_mem_nil
    · by_contra hedges
      obtain ⟨before, after, hsplit⟩ := List.append_of_mem hsource
      have horder : searchOrder edges roots depthLimit =
          (visited ++ before) ++ source :: after := by
        rw [h.order, hsplit, List.append_assoc]
      have hlt := hfits _ _ _ horder hedges
      rw [List.flatMap_append, List.length_append, ← h.selected] at hlt
      omega
  constructor
  · rw [h.order, List.flatMap_append, h.selected, List.flatMap_eq_nil_iff.mpr hnone,
      List.append_nil]
  · intro address
    have hlast : depthLimit - depth = 0 → later = [] := fun hzero =>
      h.last (le_antisymm h.depth_le (by omega))
    have hnext : ∀ a ∈ remaining (targetsOf edges) (depthLimit - depth) rest later visited,
        targetsOf edges a = [] := by
      intro a ha
      unfold targetsOf
      rw [hnone a ha]
      rfl
    rw [h.allowed, ← mem_remaining hlast hnext, ← List.mem_append, ← h.order, mem_searchOrder]

/-- **Out of time, an edge is missed.** -/
theorem Lockstep.missed
    (h : Lockstep edges roots depthLimit maxEdges search depth rest later visited)
    (hfits : ¬ComesInTime edges roots depthLimit maxEdges) :
    ∃ edge ∈ edges, edge.canonical = true ∧ Near edges roots depthLimit edge.fromAddress ∧
      edgeKey edge ∉ search.selected.map edgeKey := by
  unfold ComesInTime at hfits
  push Not at hfits
  obtain ⟨before, source, after, horder, hedges, hfull⟩ := hfits
  obtain ⟨edge, hedge⟩ := List.exists_mem_of_ne_nil _ hedges
  obtain ⟨hmem, hfrom, hcanonical⟩ := mem_of_mem_edgesFrom hedge
  refine ⟨edge, hmem, hcanonical, ?_, fun hselected => ?_⟩
  · rw [hfrom, ← mem_searchOrder, horder]
    exact List.mem_append_right _ List.mem_cons_self
  · rw [h.selected, key_mem_flatMap hmem hcanonical, hfrom] at hselected
    -- the source was visited, at its place in the order and so with room left
    obtain ⟨first, last, hsplit⟩ := List.append_of_mem hselected
    have hroom := h.room first source last hsplit
    have hnodup : (searchOrder edges roots depthLimit).Nodup := by
      exact @nodup_explore _ _ (targetsOf edges) roots [] depthLimit List.nodup_nil
    have hplace : searchOrder edges roots depthLimit = first ++ source :: (last ++
        remaining (targetsOf edges) (depthLimit - depth) rest later visited) := by
      rw [h.order, hsplit, List.append_assoc, List.cons_append]
    obtain rfl : before = first := by
      rw [horder] at hplace hnodup
      obtain ⟨-, hcons, hapart⟩ := List.nodup_append.mp hnodup
      have hbefore : source ∉ before := fun hb => hapart _ hb _ List.mem_cons_self rfl
      have hafter : source ∉ after := (List.nodup_cons.mp hcons).1
      exact ((List.append_cons_inj_of_notMem hbefore hafter).mp hplace).1
    omega

end Selected

/-! ## Reading to the end -/

section Pages

variable {edges : List RelationshipEdge} {roots : List Address} {depthLimit maxEdges cursor : ℕ}
  {pages : List RelationshipGraph}

/-- **Calling again with the cursor returned**, until there is none. -/
inductive ReadsFrom (graph : ℕ → RelationshipGraph) : ℕ → List RelationshipGraph → Prop
  | last {cursor : ℕ} (h : (graph cursor).nextCursor = none) : ReadsFrom graph cursor [graph cursor]
  | more {cursor next : ℕ} {pages : List RelationshipGraph}
      (h : (graph cursor).nextCursor = some next) (rest : ReadsFrom graph next pages) :
      ReadsFrom graph cursor (graph cursor :: pages)

/-- **Closed, and read to the end**: the canonical edges within the limit are
on the pages, each key once, and both ends of every edge are nodes. -/
structure ReadToEnd (edges : List RelationshipEdge) (roots : List Address) (depthLimit : ℕ)
    (pages : List RelationshipGraph) : Prop where
  once : ∀ edge ∈ edges, edge.canonical = true → Near edges roots depthLimit edge.fromAddress →
    ((pages.flatMap (·.edges)).map edgeKey).count (edgeKey edge) = 1
  only : ∀ edge ∈ pages.flatMap (·.edges), edge ∈ edges ∧ edge.canonical = true ∧
    Near edges roots depthLimit edge.fromAddress
  closed : ∀ page ∈ pages, ∀ edge ∈ page.edges,
    edge.fromAddress ∈ page.nodes ∧ edge.toAddress ∈ page.nodes

/-- The search of a call. -/
def searchOf (edges : List RelationshipEdge) (roots : List Address) (depthLimit maxEdges : ℕ) :
    RelationshipSearch :=
  run edges depthLimit maxEdges (.start roots)

/-- **The pages part what is selected**, and all have the same nodes. -/
theorem pages_of_readsFrom
    (h : ReadsFrom (buildRelationshipGraph edges roots depthLimit maxEdges) cursor pages) :
    pages.flatMap (·.edges) = (searchOf edges roots depthLimit maxEdges).selected.drop cursor ∧
      ∀ page ∈ pages, page.nodes = (searchOf edges roots depthLimit maxEdges).allowed := by
  induction h with
  | @last cursor hlast =>
    have hend : (searchOf edges roots depthLimit maxEdges).selected.length ≤ cursor + maxEdges := by
      by_contra hlt
      have hmore : (buildRelationshipGraph edges roots depthLimit maxEdges cursor).nextCursor =
          some (cursor + maxEdges) := if_pos (by unfold searchOf at hlt; omega)
      rw [hlast] at hmore
      cases hmore
    refine ⟨?_, fun page hpage => ?_⟩
    · rw [List.flatMap_cons, List.flatMap_nil, List.append_nil]
      exact List.take_of_length_le (by rw [List.length_drop]; unfold searchOf at hend; omega)
    · obtain rfl := List.mem_singleton.mp hpage
      rfl
  | @more cursor next pages hmore _ ih =>
    obtain ⟨hedges, hnodes⟩ := ih
    obtain rfl : next = cursor + maxEdges := by
      have hnext : (if cursor + maxEdges < (searchOf edges roots depthLimit maxEdges).selected.length
          then some (cursor + maxEdges) else none) = some next := hmore
      split at hnext
      · exact (Option.some.inj hnext).symm
      · cases hnext
    refine ⟨?_, fun page hpage => ?_⟩
    · rw [List.flatMap_cons, hedges]
      change ((searchOf edges roots depthLimit maxEdges).selected.drop cursor).take maxEdges ++
        (searchOf edges roots depthLimit maxEdges).selected.drop (cursor + maxEdges) = _
      rw [← List.drop_drop, List.take_append_drop]
    · rcases List.mem_cons.mp hpage with rfl | hrest
      · rfl
      · exact hnodes page hrest

/-- **The pages come to an end.** -/
theorem exists_readsFrom (h : 0 < maxEdges) :
    ∃ pages, ReadsFrom (buildRelationshipGraph edges roots depthLimit maxEdges) cursor pages := by
  induction hleft : (searchOf edges roots depthLimit maxEdges).selected.length - cursor using
    Nat.strong_induction_on generalizing cursor with
  | _ n ih =>
    by_cases hmore : cursor + maxEdges < (searchOf edges roots depthLimit maxEdges).selected.length
    · obtain ⟨pages, hpages⟩ := @ih _ (by omega) (cursor + maxEdges) rfl
      exact ⟨_, .more (if_pos hmore) hpages⟩
    · exact ⟨_, .last (if_neg hmore)⟩

/-- **When the graph is closed and can be read to the end**: no canonical edge
leads out of the depth limit, and the last address with an edge is come to
before the limit of edges is reached. -/
theorem readToEnd_iff (h : 0 < maxEdges) :
    (∃ pages, ReadsFrom (buildRelationshipGraph edges roots depthLimit maxEdges) 0 pages ∧
        ReadToEnd edges roots depthLimit pages) ↔
      StaysWithin edges roots depthLimit ∧ ComesInTime edges roots depthLimit maxEdges := by
  obtain ⟨depth, rest, later, visited, hlock, hstop⟩ :=
    @exists_lockstep_run edges roots depthLimit maxEdges 0 (.start roots) roots [] [] lockstep_start
  have hnodup : (searchOrder edges roots depthLimit).Nodup :=
    @nodup_explore _ _ (targetsOf edges) roots [] depthLimit List.nodup_nil
  constructor
  · rintro ⟨pages, hreads, hend⟩
    obtain ⟨hpages, hnodes⟩ := pages_of_readsFrom hreads
    rw [List.drop_zero] at hpages
    have hintime : ComesInTime edges roots depthLimit maxEdges := by
      by_contra hfits
      obtain ⟨edge, hedge, hcanonical, hnear, hmissed⟩ := hlock.missed hfits
      have hcount := hend.once edge hedge hcanonical hnear
      rw [hpages] at hcount
      exact hmissed (List.count_pos_iff.mp (by unfold searchOf at hcount; omega))
    obtain ⟨hselected, hallowed⟩ := hlock.all_selected hstop hintime
    refine ⟨fun edge hedge hcanonical hnear => ?_, hintime⟩
    -- an edge of the same key is on a page, whose nodes have its far end
    have hmem : edgeKey edge ∈ (searchOf edges roots depthLimit maxEdges).selected.map edgeKey := by
      unfold searchOf
      rw [hselected, key_mem_flatMap hedge hcanonical, mem_searchOrder]
      exact hnear
    obtain ⟨kept, hkept, hkey⟩ := List.mem_map.mp hmem
    rw [← hpages] at hkept
    obtain ⟨page, hpage, hon⟩ := List.mem_flatMap.mp hkept
    have hto := (hend.closed page hpage kept hon).2
    rw [hnodes page hpage, (ends_of_edgeKey hkey).2] at hto
    exact (hallowed _).mp hto
  · rintro ⟨hstays, hintime⟩
    obtain ⟨pages, hreads⟩ := @exists_readsFrom edges roots depthLimit maxEdges 0 h
    obtain ⟨hpages, hnodes⟩ := pages_of_readsFrom hreads
    obtain ⟨hselected, hallowed⟩ := hlock.all_selected hstop hintime
    rw [List.drop_zero] at hpages
    have hsound : ∀ edge ∈ pages.flatMap (·.edges), edge ∈ edges ∧ edge.canonical = true ∧
        Near edges roots depthLimit edge.fromAddress := by
      intro edge hedge
      unfold searchOf at hpages
      rw [hpages, hselected] at hedge
      obtain ⟨source, hsource, hfrom⟩ := List.mem_flatMap.mp hedge
      obtain ⟨hmem, hsourceEq, hcanonical⟩ := mem_of_mem_edgesFrom hfrom
      exact ⟨hmem, hcanonical, hsourceEq ▸ mem_searchOrder.mp hsource⟩
    refine ⟨pages, hreads, fun edge hedge hcanonical hnear => ?_, hsound, fun page hpage edge hon => ?_⟩
    · unfold searchOf at hpages
      rw [hpages, hselected]
      refine List.count_eq_one_of_mem (nodup_keys_flatMap hnodup) ?_
      rw [key_mem_flatMap hedge hcanonical, mem_searchOrder]
      exact hnear
    · obtain ⟨hmem, hcanonical, hnear⟩ := hsound edge (List.mem_flatMap.mpr ⟨page, hpage, hon⟩)
      rw [hnodes page hpage]
      exact ⟨(hallowed _).mpr hnear, (hallowed _).mpr (hstays edge hmem hcanonical hnear)⟩

end Pages

/-! ## Sample graphs -/

/-- A canonical edge between two addresses. -/
def sampleEdge (fromAddress toAddress : ℕ) : RelationshipEdge where
  fromAddress := ⟨fromAddress⟩
  toAddress := ⟨toAddress⟩
  kind := .funded
  transactionHash := ⟨fromAddress * 100 + toAddress⟩
  logIndex := none
  canonical := true

/-- A cycle of two, one step deep, is read to the end. -/
theorem readToEnd_cycle : (∃ pages,
      ReadsFrom (buildRelationshipGraph [sampleEdge 1 2, sampleEdge 2 1] [⟨1⟩] 1 500) 0 pages ∧
        ReadToEnd [sampleEdge 1 2, sampleEdge 2 1] [⟨1⟩] 1 pages) ↔
      StaysWithin [sampleEdge 1 2, sampleEdge 2 1] [⟨1⟩] 1 ∧
        ComesInTime [sampleEdge 1 2, sampleEdge 2 1] [⟨1⟩] 1 500 :=
  readToEnd_iff (by decide)

/-- **An edge at the depth limit** is on the page, and its far end is no
node. -/
theorem not_readToEnd : ¬∀ (edges : List RelationshipEdge) (roots : List Address)
    (depthLimit maxEdges : ℕ), 0 < maxEdges →
    ∃ pages, ReadsFrom (buildRelationshipGraph edges roots depthLimit maxEdges) 0 pages ∧
      ReadToEnd edges roots depthLimit pages := by
  intro h
  obtain ⟨pages, hreads, hend⟩ := h [sampleEdge 1 2] [⟨1⟩] 0 500 (by decide)
  have hgraph : buildRelationshipGraph [sampleEdge 1 2] [⟨1⟩] 0 500 0 =
      ⟨[sampleEdge 1 2], [⟨1⟩], none, []⟩ := by decide +kernel
  have hpage : ∀ cursor pages, ReadsFrom
      (buildRelationshipGraph [sampleEdge 1 2] [⟨1⟩] 0 500) cursor pages →
      buildRelationshipGraph [sampleEdge 1 2] [⟨1⟩] 0 500 cursor ∈ pages := by
    intro cursor pages hreads
    cases hreads with
    | last => exact List.mem_cons_self
    | more => exact List.mem_cons_self
  have hclosed := hend.closed _ (hpage 0 pages hreads)
  rw [hgraph] at hclosed
  exact absurd (hclosed (sampleEdge 1 2) List.mem_cons_self).2 (by decide)

end HoodSentry
