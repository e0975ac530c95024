import HoodSentry.Api.Model.Quoting
/-!
# Candidate routes

Every candidate is a path over eligible pools of one protocol. The cap on
candidates is what a direct route can be lost to: the routes are collected in
the order their pools are listed in, and only a route of two pools checks the
cap.
-/

namespace HoodSentry

namespace Trading

open UniswapV2 (NormalizedPool TokenPairMatches)

variable {service : TradingService} {input : QuoteInput} {pools eligible : List NormalizedPool}
variable {first second pool : NormalizedPool} {route : Route} {intermediate : AddressText}

/-! ## The routes without the cap -/

/-- The route of two pools, where the second continues the first. -/
def continued? (input : QuoteInput) (first : NormalizedPool) (intermediate : AddressText)
    (second : NormalizedPool) : Option Route :=
  if Continues input first second intermediate then
    some [routeStep first input.inputTokenAddress intermediate,
      routeStep second intermediate input.outputTokenAddress]
  else none

/-- **The routes a first pool gives.** -/
def routesFrom (input : QuoteInput) (eligible : List NormalizedPool) (first : NormalizedPool) :
    List Route :=
  match otherToken first input.inputTokenAddress with
  | none => []
  | some intermediate =>
    if intermediate.Same input.outputTokenAddress then
      [[routeStep first input.inputTokenAddress input.outputTokenAddress]]
    else eligible.filterMap (continued? input first intermediate)

/-- **All the routes**, in the order the loops come by them. -/
def allRoutes (service : TradingService) (input : QuoteInput) (pools : List NormalizedPool) :
    List Route :=
  (eligiblePools service input pools).flatMap
    (routesFrom input (eligiblePools service input pools))

/-- A route over more than one pool. -/
def isMultiHop (route : Route) : Bool := 1 < route.length

theorem considerSecond_none {routes : List Route}
    (h : continued? input first intermediate second = none) :
    considerSecond input first intermediate routes second = (routes, none) := by
  unfold continued? at h
  split_ifs at h with hcontinues
  exact if_neg hcontinues

theorem considerSecond_some {routes : List Route}
    (h : continued? input first intermediate second = some route) :
    considerSecond input first intermediate routes second =
      collectEntry MAX_CANDIDATE_ROUTES isMultiHop routes route := by
  unfold continued? at h
  split_ifs at h with hcontinues
  obtain rfl := Option.some.inj h
  rw [considerSecond, if_pos hcontinues, collectEntry]
  refine congrArg (Prod.mk _) ?_
  by_cases hcap : MAX_CANDIDATE_ROUTES ≤ routes.length + 1
  · rw [if_pos hcap, if_pos ⟨rfl, hcap⟩]
  · rw [if_neg hcap, if_neg fun h => hcap h.2]

theorem considerFirst_eq {routes : List Route} :
    considerFirst input eligible routes first =
      forEach (collectEntry MAX_CANDIDATE_ROUTES isMultiHop) (routesFrom input eligible first)
        routes := by
  unfold considerFirst routesFrom
  cases otherToken first input.inputTokenAddress with
  | none => rfl
  | some intermediate =>
    dsimp only
    split_ifs with hdirect
    · rfl
    · exact forEach_filterMap (fun _ _ => considerSecond_none) fun _ _ _ => considerSecond_some

/-- **The candidates are the routes collected under the cap.** -/
theorem routeCandidates_eq :
    routeCandidates service input pools =
      collectUnder MAX_CANDIDATE_ROUTES isMultiHop (allRoutes service input pools) := by
  have hbody : considerFirst input (eligiblePools service input pools) =
      fun routes first => forEach (collectEntry MAX_CANDIDATE_ROUTES isMultiHop)
        (routesFrom input (eligiblePools service input pools) first) routes := by
    funext routes first
    exact considerFirst_eq
  unfold routeCandidates collectUnder allRoutes
  dsimp only
  rw [hbody, forEach_flatMap]
  rcases forEach (collectEntry MAX_CANDIDATE_ROUTES isMultiHop) _ _ with ⟨routes, - | ⟨⟩⟩
  · rfl
  · rfl

/-! ## Candidates are paths -/

/-- **An active protocol** is that of an adapter asked for. -/
theorem mem_activeProtocols_iff {protocolKey protocolVersion : String} :
    protocolText protocolKey protocolVersion ∈ activeProtocols service input ↔
      ∃ adapter ∈ service.adapters.getD [], (adapter.chainId = input.chainId ∧
        ∀ protocolKey ∈ input.protocolKey, adapter.protocolKey.text = protocolKey) ∧
        adapter.protocolKey.text = protocolKey ∧ adapter.version.text = protocolVersion := by
  unfold activeProtocols
  rw [List.mem_map]
  constructor
  · rintro ⟨adapter, hadapter, htext⟩
    obtain ⟨hmem, hasked⟩ := List.mem_filter.mp hadapter
    have hfree : ∀ part ∈ [adapter.protocolKey.text, adapter.version.text], ':' ∉ part.toList := by
      simp only [List.forall_mem_cons, List.not_mem_nil, false_implies, implies_true, and_true]
      exact ⟨adapter.protocolKey.free ':' (by decide), adapter.version.free ':' (by decide)⟩
    have hlength : [adapter.protocolKey.text, adapter.version.text].length =
        [protocolKey, protocolVersion].length := rfl
    have hparts := joinTexts_inj hfree hlength htext
    simp only [List.cons.injEq, and_true] at hparts
    exact ⟨adapter, hmem, of_decide_eq_true hasked, hparts⟩
  · rintro ⟨adapter, hmem, hasked, rfl, rfl⟩
    exact ⟨adapter, List.mem_filter.mpr ⟨hmem, decide_eq_true hasked⟩, rfl⟩

/-- **An eligible pool**: canonical, of constant product, of an adapter asked
for. -/
structure Eligible (service : TradingService) (input : QuoteInput) (pools : List NormalizedPool)
    (pool : NormalizedPool) : Prop where
  listed : pool ∈ pools
  canonical : pool.canonical = true
  poolType : pool.poolType = .constantProduct
  active : ∃ adapter ∈ service.adapters.getD [], (adapter.chainId = input.chainId ∧
    ∀ protocolKey ∈ input.protocolKey, adapter.protocolKey.text = protocolKey) ∧
    adapter.protocolKey.text = pool.protocolKey ∧ adapter.version.text = pool.protocolVersion

theorem mem_eligiblePools_iff :
    pool ∈ eligiblePools service input pools ↔ Eligible service input pools pool := by
  unfold eligiblePools
  rw [List.mem_filter, decide_eq_true_iff, mem_activeProtocols_iff]
  constructor
  · rintro ⟨hlisted, hcanonical, htype, hactive⟩
    exact ⟨hlisted, hcanonical, htype, hactive⟩
  · rintro ⟨hlisted, hcanonical, htype, hactive⟩
    exact ⟨hlisted, hcanonical, htype, hactive⟩

/-- A step over a pool: the pool's own identity, and its two tokens. -/
structure StepOver (pool : NormalizedPool) (step : NormalizedRouteStep) : Prop where
  poolAddress : step.poolAddress = pool.poolAddress
  feeTier : step.feeTier = pool.feeTier
  protocolKey : step.protocolKey = pool.protocolKey
  protocolVersion : step.protocolVersion = pool.protocolVersion
  tokens : TokenPairMatches pool step

/-- **A valid path** from the input to the output token. -/
structure ValidPath (service : TradingService) (input : QuoteInput) (pools : List NormalizedPool)
    (route : Route) : Prop where
  starts : ∃ step ∈ route.head?, step.inputTokenAddress.Same input.inputTokenAddress
  ends : ∃ step ∈ route.getLast?, step.outputTokenAddress.Same input.outputTokenAddress
  joined : route.IsChain fun step next => next.inputTokenAddress.Same step.outputTokenAddress
  eligible : ∀ step ∈ route, ∃ pool, Eligible service input pools pool ∧ StepOver pool step
  oneProtocol : ∀ step ∈ route, ∀ step' ∈ route, step.protocolKey = step'.protocolKey ∧
    step.protocolVersion = step'.protocolVersion
  distinct : (route.map fun step => step.poolAddress.lower).Nodup

theorem tokenPairMatches_of_otherToken {address other : AddressText}
    (h : otherToken pool address = some other) {output : AddressText} (hsame : other.Same output) :
    TokenPairMatches pool (routeStep pool address output) := by
  unfold otherToken at h
  split_ifs at h with h0 h1
  · obtain rfl := Option.some.inj h
    exact .inl ⟨h0, hsame⟩
  · obtain rfl := Option.some.inj h
    exact .inr ⟨h1, hsame⟩

theorem tokenPairMatches_of_includes {address output : AddressText} (h : IncludesToken pool address)
    (h' : IncludesToken pool output) (hne : ¬ address.Same output) :
    TokenPairMatches pool (routeStep pool address output) := by
  rcases h with h | h <;> rcases h' with h' | h'
  · exact absurd (h.symm.trans h') hne
  · exact .inl ⟨h, h'⟩
  · exact .inr ⟨h, h'⟩
  · exact absurd (h.symm.trans h') hne

theorem stepOver_routeStep {address output : AddressText}
    (h : TokenPairMatches pool (routeStep pool address output)) :
    StepOver pool (routeStep pool address output) :=
  ⟨rfl, rfl, rfl, rfl, h⟩

theorem validPath_of_direct (hpool : Eligible service input pools pool)
    (hother : otherToken pool input.inputTokenAddress = some intermediate)
    (hsame : intermediate.Same input.outputTokenAddress) :
    ValidPath service input pools
      [routeStep pool input.inputTokenAddress input.outputTokenAddress] where
  starts := ⟨_, rfl, rfl⟩
  ends := ⟨_, rfl, rfl⟩
  joined := List.isChain_singleton _
  eligible step hstep := by
    obtain rfl := List.mem_singleton.mp hstep
    exact ⟨pool, hpool, stepOver_routeStep (tokenPairMatches_of_otherToken hother hsame)⟩
  oneProtocol step hstep step' hstep' := by
    obtain rfl := List.mem_singleton.mp hstep
    obtain rfl := List.mem_singleton.mp hstep'
    exact ⟨rfl, rfl⟩
  distinct := List.nodup_singleton _

theorem validPath_of_continued (hfirst : Eligible service input pools first)
    (hsecond : Eligible service input pools second)
    (hother : otherToken first input.inputTokenAddress = some intermediate)
    (hne : ¬ intermediate.Same input.outputTokenAddress)
    (hcontinues : Continues input first second intermediate) :
    ValidPath service input pools [routeStep first input.inputTokenAddress intermediate,
      routeStep second intermediate input.outputTokenAddress] := by
  obtain ⟨hapart, hkey, hversion, hincludes, hincludes'⟩ := hcontinues
  have hprotocol : ∀ step ∈ [routeStep first input.inputTokenAddress intermediate,
      routeStep second intermediate input.outputTokenAddress],
      step.protocolKey = first.protocolKey ∧ step.protocolVersion = first.protocolVersion := by
    simp only [List.forall_mem_cons, List.not_mem_nil, false_implies, implies_true, and_true]
    exact ⟨⟨rfl, rfl⟩, hkey, hversion⟩
  refine
    { starts := ⟨_, rfl, rfl⟩
      ends := ⟨_, rfl, rfl⟩
      joined := List.isChain_pair.mpr rfl
      eligible := ?_
      oneProtocol := fun step hstep step' hstep' => ?_
      distinct := ?_ }
  · simp only [List.forall_mem_cons, List.not_mem_nil, false_implies, implies_true, and_true]
    exact ⟨⟨first, hfirst, stepOver_routeStep (tokenPairMatches_of_otherToken hother rfl)⟩,
      second, hsecond, stepOver_routeStep (tokenPairMatches_of_includes hincludes hincludes' hne)⟩
  · obtain ⟨h, h'⟩ := hprotocol step hstep
    obtain ⟨h₁, h₁'⟩ := hprotocol step' hstep'
    exact ⟨h.trans h₁.symm, h'.trans h₁'.symm⟩
  · rw [List.map_cons, List.map_cons, List.map_nil, List.nodup_cons, List.mem_singleton]
    exact ⟨fun h => hapart h.symm, List.nodup_singleton _⟩

/-- **Every route is a path** over eligible pools. -/
theorem validPath_of_mem_allRoutes (h : route ∈ allRoutes service input pools) :
    ValidPath service input pools route := by
  obtain ⟨first, hfirst, hroute⟩ := List.mem_flatMap.mp h
  rw [mem_eligiblePools_iff] at hfirst
  unfold routesFrom at hroute
  cases hother : otherToken first input.inputTokenAddress with
  | none =>
    rw [hother] at hroute
    exact absurd hroute List.not_mem_nil
  | some intermediate =>
    rw [hother] at hroute
    dsimp only at hroute
    split_ifs at hroute with hsame
    · obtain rfl := List.mem_singleton.mp hroute
      exact validPath_of_direct hfirst hother hsame
    · obtain ⟨second, hsecond, hcontinued⟩ := List.mem_filterMap.mp hroute
      unfold continued? at hcontinued
      split_ifs at hcontinued with hcontinues
      obtain rfl := Option.some.inj hcontinued
      exact validPath_of_continued hfirst (mem_eligiblePools_iff.mp hsecond) hother hsame hcontinues

/-! ## The direct routes -/

/-- The pool trades the input token directly against the output token. -/
def TradesDirectly (input : QuoteInput) (pool : NormalizedPool) : Prop :=
  TokenPairMatches pool (routeStep pool input.inputTokenAddress input.outputTokenAddress)
deriving Decidable

/-- The pool's route of one hop. -/
def directRoute (input : QuoteInput) (pool : NormalizedPool) : Route :=
  [routeStep pool input.inputTokenAddress input.outputTokenAddress]

theorem routesFrom_direct (h : TradesDirectly input pool) :
    routesFrom input eligible pool = [directRoute input pool] := by
  unfold routesFrom otherToken
  rcases h with ⟨h, h'⟩ | ⟨h, h'⟩
  · change pool.token0Address.Same input.inputTokenAddress at h
    rw [if_pos h]
    exact if_pos h'
  · change pool.token1Address.Same input.inputTokenAddress at h
    change pool.token0Address.Same input.outputTokenAddress at h'
    by_cases h0 : pool.token0Address.Same input.inputTokenAddress
    · rw [if_pos h0]
      exact if_pos (h.trans (h0.symm.trans h'))
    · rw [if_neg h0, if_pos h]
      exact if_pos h'

/-- Only a pool that trades the pair gives a route of one hop. -/
theorem tradesDirectly_of_mem (h : directRoute input pool ∈ routesFrom input eligible first) :
    TradesDirectly input first := by
  unfold routesFrom at h
  cases hother : otherToken first input.inputTokenAddress with
  | none =>
    rw [hother] at h
    exact absurd h List.not_mem_nil
  | some intermediate =>
    rw [hother] at h
    dsimp only at h
    split_ifs at h with hsame
    · exact tokenPairMatches_of_otherToken hother hsame
    · obtain ⟨second, -, hcontinued⟩ := List.mem_filterMap.mp h
      unfold continued? at hcontinued
      split_ifs at hcontinued
      have hlength : (2 : ℕ) = 1 := congrArg List.length (Option.some.inj hcontinued)
      omega

/-- How many routes the pools listed before give. -/
def routesBefore (input : QuoteInput) (eligible before : List NormalizedPool) : ℕ :=
  (before.flatMap (routesFrom input eligible)).length

/-- **The pool's route is reached under the cap**: at one of the places it is
listed at, fewer than 32 routes come before, or the first route of two pools
that is the 32nd or a later one comes after it. -/
def ReachedUnderCap (service : TradingService) (input : QuoteInput) (pools : List NormalizedPool)
    (pool : NormalizedPool) : Prop :=
  ∃ before listed after, eligiblePools service input pools = before ++ listed :: after ∧
    TradesDirectly input listed ∧ directRoute input listed = directRoute input pool ∧
    Kept MAX_CANDIDATE_ROUTES isMultiHop (allRoutes service input pools)
      (routesBefore input (eligiblePools service input pools) before)

theorem direct_mem_iff :
    directRoute input pool ∈ routeCandidates service input pools ↔
      ReachedUnderCap service input pools pool := by
  rw [routeCandidates_eq, mem_collectUnder_iff]
  unfold ReachedUnderCap allRoutes routesBefore
  constructor
  · rintro ⟨j, hj, hkept⟩
    obtain ⟨before, listed, after, hsplit, i, hi, rfl⟩ := getElem?_flatMap_iff.mp hj
    have hdirect := tradesDirectly_of_mem (List.mem_of_getElem? hi)
    rw [routesFrom_direct hdirect] at hi
    obtain ⟨hlt, hroute⟩ := List.getElem?_eq_some_iff.mp hi
    obtain rfl : i = 0 := Nat.lt_one_iff.mp hlt
    exact ⟨before, listed, after, hsplit, hdirect, hroute, hkept⟩
  · rintro ⟨before, listed, after, hsplit, hdirect, hroute, hkept⟩
    refine ⟨_, getElem?_flatMap_iff.mpr ⟨before, listed, after, hsplit, 0, ?_, rfl⟩, hkept⟩
    rw [routesFrom_direct hdirect, hroute]
    rfl

/-- **A direct route is lost only to the cap**, and every candidate is a
path. -/
theorem direct_mem_iff_reachedUnderCap (service : TradingService) (input : QuoteInput)
    (pools : List NormalizedPool) :
    (∀ pool, Eligible service input pools pool → TradesDirectly input pool →
      (directRoute input pool ∈ routeCandidates service input pools ↔
        ReachedUnderCap service input pools pool)) ∧
      ∀ route ∈ routeCandidates service input pools, ValidPath service input pools route := by
  refine ⟨fun pool _ _ => direct_mem_iff, fun route hroute => ?_⟩
  rw [routeCandidates_eq] at hroute
  obtain ⟨j, hj, -⟩ := mem_collectUnder_iff.mp hroute
  exact validPath_of_mem_allRoutes (List.mem_of_getElem? hj)

/-! ## A flood of pools -/

section Samples

/-- An address with a number of two digits at its end. -/
def numberedAddress (n : Fin 100) : AddressText where
  digits := List.replicate 38 '0' ++ [Nat.digitChar (n / 10), Nat.digitChar (n % 10)]
  isHex := List.all_eq_true.mp (by revert n; decide +kernel)
  length := rfl

/-- A pool of the registry's protocol over two tokens. -/
def listedPool (n token0 token1 : Fin 100) : NormalizedPool where
  chainId := 4663
  protocolKey := "uniswap"
  protocolVersion := "v2"
  poolAddress := numberedAddress n
  factoryAddress := numberedAddress 99
  token0Address := numberedAddress token0
  token1Address := numberedAddress token1
  feeTier := some 3000
  poolType := .constantProduct
  canonical := true

/-- The pool that trades tokens 1 and 2. -/
def directPool : NormalizedPool := listedPool 51 1 2

def listedRouter : AddressText := numberedAddress 98

def uniswapService : TradingService where
  config := { chainId := 4663, quoteTtlSeconds := 30 }
  adapters := some
    [{ chainId := 4663
       protocolKey := .uniswap
       version := .v2 }]

/-- Token 1 is sold for token 2. -/
def sellsFirst : QuoteInput where
  chainId := 4663
  inputTokenAddress := numberedAddress 1
  outputTokenAddress := numberedAddress 2
  amountInRaw := 1000
  slippageBps := 50
  maximumPriceImpactBps := 500
  protocolKey := none

/-- A pool from token 1 to token 3, 32 pools from there to token 2, and last
the pool that trades the two directly. -/
def floodedPools : List NormalizedPool :=
  listedPool 50 1 3 :: (List.finRange 32).map (fun n => listedPool (n.castLE (by omega)) 3 2) ++
    [directPool]

theorem not_direct_mem :
    ¬ ∀ (service : TradingService) (input : QuoteInput) (pools : List NormalizedPool),
      ∀ pool, Eligible service input pools pool → TradesDirectly input pool →
        directRoute input pool ∈ routeCandidates service input pools := by
  intro h
  have heligible : directPool ∈ eligiblePools uniswapService sellsFirst floodedPools := by
    decide +kernel
  have hout : directRoute sellsFirst directPool ∉
      routeCandidates uniswapService sellsFirst floodedPools := by
    decide +kernel
  exact hout (h _ _ _ _ (mem_eligiblePools_iff.mp heligible) (by decide +kernel))

end Samples

end Trading

end HoodSentry
