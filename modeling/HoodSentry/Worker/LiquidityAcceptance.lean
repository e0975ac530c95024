import HoodSentry.Worker.Model.NormalizedLiquidity
import HoodSentry.Worker.SupplyConservation
import HoodSentry.Market.LiquidityDepth
import HoodSentry.Common.Lists
/-!
# The analysis accepts what is loaded

Of one pool the positions and what is burned have the whole supply, so their
parts of the converted depth, each rounded down, add up to no more than the
depth. Leaving out what rounds to nothing and adding up by address change no
sum, so the same holds of all the pools together, and the checks of the
analysis, which compare these sums, pass.
-/

namespace HoodSentry

open LiquidityDepth

/-! ## Parts of a whole -/

/-- **Parts rounded down** add up to at most the whole. -/
theorem sum_ediv_le {parts : List ℤ} {whole supply : ℤ} (hsupply : 0 < supply)
    (hwhole : 0 ≤ whole) (hsum : parts.sum ≤ supply) :
    (parts.map fun part => whole * part / supply).sum ≤ whole := by
  have hscaled : ∀ parts : List ℤ,
      supply * (parts.map fun part => whole * part / supply).sum ≤ whole * parts.sum := by
    intro parts
    induction parts with
    | nil => simp
    | cons part parts ih =>
      have hpart : supply * (whole * part / supply) ≤ whole * part :=
        Int.mul_ediv_self_le hsupply.ne'
      rw [List.map_cons, List.sum_cons, List.sum_cons, mul_add, mul_add]
      omega
  have hall : supply * (parts.map fun part => whole * part / supply).sum ≤ supply * whole := by
    calc supply * (parts.map fun part => whole * part / supply).sum
        ≤ whole * parts.sum := hscaled parts
      _ ≤ whole * supply := mul_le_mul_of_nonneg_left hsum hwhole
      _ = supply * whole := mul_comm _ _
  exact le_of_mul_le_mul_left hall hsupply

/-- Each result of a map comes of an element. -/
theorem exists_of_forall₂ {α β : Type*} {R : α → β → Prop} {l : List α} {l' : List β}
    (h : List.Forall₂ R l l') {b : β} (hb : b ∈ l') : ∃ a ∈ l, R a b := by
  induction h with
  | nil => exact absurd hb List.not_mem_nil
  | cons hab _ ih =>
    rcases List.mem_cons.mp hb with rfl | hb
    · exact ⟨_, List.mem_cons_self, hab⟩
    · obtain ⟨a, ha, hR⟩ := ih hb
      exact ⟨a, List.mem_cons_of_mem _ ha, hR⟩

section Positions

variable {pool : LiquidityPoolEvidence} {pools : List LiquidityPoolEvidence}
  {balances : Tally Address} {provider : LiquidityProvider} {holders : List LiquidityProvider}
  {select : LiquidityPoolEvidence → List LiquidityProvider} {lpAmountRaw : ℤ}

/-- What a position counts for, without the rounding towards zero. -/
theorem normalized_eq (hdepth : 0 ≤ pool.normalizedQuoteLiquidityRaw) (hamount : 0 ≤ lpAmountRaw) :
    pool.normalized lpAmountRaw =
      if pool.currentLiquidityRaw ≤ 0 then 0
      else pool.normalizedQuoteLiquidityRaw * lpAmountRaw / pool.currentLiquidityRaw := by
  unfold LiquidityPoolEvidence.normalized normalizedLpAmount
  rw [Int.tdiv_eq_ediv_of_nonneg (mul_nonneg hdepth hamount)]

theorem normalized_nonneg (hdepth : 0 ≤ pool.normalizedQuoteLiquidityRaw)
    (hamount : 0 ≤ lpAmountRaw) : 0 ≤ pool.normalized lpAmountRaw := by
  rw [normalized_eq hdepth hamount]
  split
  · exact le_rfl
  · exact Int.ediv_nonneg (mul_nonneg hdepth hamount) (by omega)

/-- **The positions of a pool** count for no more than its depth. -/
theorem sum_normalized_le (hdepth : 0 ≤ pool.normalizedQuoteLiquidityRaw)
    (hholders : ∀ holder ∈ holders, 0 ≤ holder.liquidityRaw)
    (hsupply : totalLiquidity holders ≤ pool.currentLiquidityRaw) :
    (holders.map fun holder => pool.normalized holder.liquidityRaw).sum ≤
      pool.normalizedQuoteLiquidityRaw := by
  by_cases hzero : pool.currentLiquidityRaw ≤ 0
  · have hnothing : (holders.map fun holder => pool.normalized holder.liquidityRaw) =
        holders.map fun _ => (0 : ℤ) := by
      refine List.map_congr_left fun holder hholder => ?_
      rw [normalized_eq hdepth (hholders holder hholder), if_pos hzero]
    rw [hnothing]
    simpa using hdepth
  · have hparts : (holders.map fun holder => pool.normalized holder.liquidityRaw) =
        (holders.map (·.liquidityRaw)).map fun part =>
          pool.normalizedQuoteLiquidityRaw * part / pool.currentLiquidityRaw := by
      rw [List.map_map]
      refine List.map_congr_left fun holder hholder => ?_
      rw [normalized_eq hdepth (hholders holder hholder), if_neg hzero]
      rfl
    rw [hparts]
    exact sum_ediv_le (by omega) hdepth hsupply

/-! ## Positions added up by address -/

/-- A position is counted in full; one left out counts for nothing. -/
theorem total_addNormalized (h : 0 ≤ pool.normalized provider.liquidityRaw) :
    (addNormalized pool balances provider).total =
      balances.total + pool.normalized provider.liquidityRaw := by
  unfold addNormalized
  split
  · omega
  · exact Tally.total_add

theorem pos_addNormalized (h : ∀ entry ∈ balances.rows, 0 < entry.2) :
    ∀ entry ∈ (addNormalized pool balances provider).rows, 0 < entry.2 := by
  unfold addNormalized
  split
  · exact h
  · rename_i hpos
    intro entry hentry
    have hmem : entry ∈ balances.add provider.address (pool.normalized provider.liquidityRaw) :=
      hentry
    rcases Table.mem_upsert.mp hmem with ⟨hold, -⟩ | ⟨old, hold, -, rfl⟩ | ⟨rfl, -⟩
    · exact h entry hold
    · have := h old hold
      dsimp only
      omega
    · dsimp only
      omega

/-- Every position of a pool counted. -/
theorem total_foldl_addNormalized
    (h : ∀ holder ∈ holders, 0 ≤ pool.normalized holder.liquidityRaw) :
    (holders.foldl (addNormalized pool) balances).total =
      balances.total + (holders.map fun holder => pool.normalized holder.liquidityRaw).sum := by
  induction holders generalizing balances with
  | nil => simp
  | cons holder holders ih =>
    rw [List.foldl_cons, ih fun p hp => h p (List.mem_cons_of_mem _ hp),
      total_addNormalized (h holder List.mem_cons_self), List.map_cons, List.sum_cons, add_assoc]

theorem pos_foldl_addNormalized (h : ∀ entry ∈ balances.rows, 0 < entry.2) :
    ∀ entry ∈ (holders.foldl (addNormalized pool) balances).rows, 0 < entry.2 := by
  induction holders generalizing balances with
  | nil => exact h
  | cons holder holders ih => exact ih (pos_addNormalized h)

/-- **The aggregated positions** have what the positions of every pool count
for. -/
theorem totalLiquidity_aggregateNormalizedProviders
    (h : ∀ pool ∈ pools, ∀ holder ∈ select pool, 0 ≤ pool.normalized holder.liquidityRaw) :
    totalLiquidity (aggregateNormalizedProviders pools select) =
      (pools.map fun pool =>
        ((select pool).map fun holder => pool.normalized holder.liquidityRaw).sum).sum := by
  have hfold : ∀ balances : Tally Address,
      (pools.foldl (fun balances pool => (select pool).foldl (addNormalized pool) balances)
        balances).total = balances.total + (pools.map fun pool =>
          ((select pool).map fun holder => pool.normalized holder.liquidityRaw).sum).sum := by
    induction pools with
    | nil => simp
    | cons pool pools ih =>
      intro balances
      rw [List.foldl_cons, ih fun p hp => h p (List.mem_cons_of_mem _ hp),
        total_foldl_addNormalized (h pool List.mem_cons_self), List.map_cons, List.sum_cons,
        add_assoc]
  unfold totalLiquidity aggregateNormalizedProviders
  dsimp only
  rw [((List.perm_insertionSort compareProviders _).map _).sum_eq, List.map_map]
  exact (hfold ∅).trans (zero_add _)

theorem pos_of_mem_aggregateNormalizedProviders
    (h : provider ∈ aggregateNormalizedProviders pools select) : 0 < provider.liquidityRaw := by
  have hfold : ∀ balances : Tally Address, (∀ entry ∈ balances.rows, 0 < entry.2) →
      ∀ entry ∈ (pools.foldl (fun balances pool => (select pool).foldl (addNormalized pool) balances)
        balances).rows, 0 < entry.2 := by
    clear h
    induction pools with
    | nil => exact fun _ h => h
    | cons pool pools ih =>
      intro balances hbalances
      exact ih _ (pos_foldl_addNormalized hbalances)
  unfold aggregateNormalizedProviders at h
  obtain ⟨entry, hentry, rfl⟩ := List.mem_map.mp ((List.mem_insertionSort _).mp h)
  exact hfold ∅ (fun e he => absurd he List.not_mem_nil) entry hentry

end Positions

/-! ## What is loaded of a pool -/

/-- **What the analysis relies on** of a pool's evidence. -/
structure BackedPool (pool : LiquidityPoolEvidence) : Prop where
  depth : 0 ≤ pool.normalizedQuoteLiquidityRaw
  supply : totalLiquidity pool.providers + pool.burnedLiquidityRaw = pool.currentLiquidityRaw
  burned : totalLiquidity pool.burnedProviders = pool.burnedLiquidityRaw
  positive : ∀ holder ∈ pool.providers ++ pool.burnedProviders, 0 < holder.liquidityRaw
  valid : pool.normalization.isValid
  provenance : pool.normalization.kind = .priceObservation → pool.normalization.hasProvenance
  impacts : ∀ impact ∈ pool.standardTradeImpacts, ¬invalidTradeImpact impact

section Evidence

variable {pool : LiquidityPoolEvidence} {pools : List LiquidityPoolEvidence}
  {loaded : LoadedPool} {reads : PoolReads} {input : LiquidityLoadInput}
  {normalizationAsset : Option NormalizationAsset} {asset : NormalizationAsset}
  {normalization : QuoteNormalization} {blockTimestamp sourceBlock : ℕ}
  {excludedPools : List Address} {holders : List LiquidityProvider}

theorem totalLiquidity_nonneg (h : ∀ holder ∈ holders, 0 < holder.liquidityRaw) :
    0 ≤ totalLiquidity holders := by
  refine List.sum_nonneg fun amount hamount => ?_
  obtain ⟨holder, hholder, rfl⟩ := List.mem_map.mp hamount
  exact (h holder hholder).le

theorem totalLiquidity_append {holders' : List LiquidityProvider} :
    totalLiquidity (holders ++ holders') = totalLiquidity holders + totalLiquidity holders' := by
  unfold totalLiquidity
  rw [List.map_append, List.sum_append]

theorem BackedPool.burned_nonneg (h : BackedPool pool) : 0 ≤ pool.burnedLiquidityRaw := by
  rw [← h.burned]
  exact totalLiquidity_nonneg fun holder hholder =>
    h.positive holder (List.mem_append_right _ hholder)

theorem BackedPool.current_nonneg (h : BackedPool pool) : 0 ≤ pool.currentLiquidityRaw := by
  have hburned := h.burned_nonneg
  have hproviders := totalLiquidity_nonneg fun holder hholder =>
    h.positive holder (List.mem_append_left _ hholder)
  have hsupply := h.supply
  omega

theorem require_eq_ok {condition : Prop} [Decidable condition] {text : String} :
    require condition text = .ok () ↔ condition := by
  unfold require
  split
  · simp [*]
  · simp [*]

/-- Checks after each other pass where each does. -/
theorem checks_eq_ok {check rest : Except String Unit} :
    (check >>= fun _ => rest) = .ok () ↔ check = .ok () ∧ rest = .ok () := by
  rw [andThen_eq_ok]
  exact ⟨fun ⟨_, hcheck, hrest⟩ => ⟨hcheck, hrest⟩, fun ⟨hcheck, hrest⟩ => ⟨(), hcheck, hrest⟩⟩

/-- **The checks of a pool pass.** -/
theorem BackedPool.accepted (h : BackedPool pool) : validateSinglePoolEvidence pool = .ok () := by
  have hsupply := h.supply
  unfold validateSinglePoolEvidence
  simp only [checks_eq_ok, require_eq_ok]
  exact ⟨⟨h.current_nonneg, h.burned_nonneg⟩, h.burned,
    fun holder hholder => h.positive holder (List.mem_append_left _ hholder), hsupply.le, h.valid,
    h.provenance⟩

/-- The rate was checked before an amount was converted at it. -/
theorem normalized_of_ok {amountRaw result : ℤ} {rate : QuoteNormalizationRate}
    (h : normalizeQuoteAmount amountRaw rate = .ok result) :
    0 ≤ result ∧ rate.sourceDecimals ≤ 255 ∧ rate.normalizedDecimals ≤ 255 ∧
      rate.priceDecimals ≤ 255 ∧ 0 < rate.priceRaw := by
  have hpow : ∀ {decimals : ℕ} {one : ℤ}, pow10OrThrow decimals = .ok one → decimals ≤ 255 := by
    intro decimals one hone
    unfold pow10OrThrow pow10 at hone
    split at hone
    · cases hone
    · omega
  unfold normalizeQuoteAmount at h
  split at h
  · cases h
  rename_i hamount
  obtain ⟨_, hrate, h⟩ := andThen_eq_ok.mp h
  obtain rfl := Except.ok.inj h
  unfold validateRate at hrate
  obtain ⟨_, hsource, hrate⟩ := andThen_eq_ok.mp hrate
  obtain ⟨_, hnormalized, hrate⟩ := andThen_eq_ok.mp hrate
  obtain ⟨_, hprice, hrate⟩ := andThen_eq_ok.mp hrate
  split at hrate
  · cases hrate
  rename_i hpositive
  refine ⟨?_, hpow hsource, hpow hnormalized, hpow hprice, by omega⟩
  have hprice' : 0 ≤ rate.priceRaw := by omega
  exact Int.ediv_nonneg (mul_nonneg (mul_nonneg (by omega) hprice') (by positivity)) (by positivity)

/-- A rate read from an observed price says where that comes from. -/
theorem hasProvenance_of_quoteNormalization {quoteAsset : Address}
    (h : quoteNormalization reads quoteAsset asset blockTimestamp excludedPools =
      .ok (some normalization)) :
    normalization.kind = .priceObservation → normalization.hasProvenance := by
  unfold quoteNormalization at h
  obtain ⟨decimals, -, h⟩ := andThen_eq_ok.mp h
  cases decimals with
  | none => cases h
  | some quoteDecimals =>
    dsimp only at h
    split at h
    · obtain rfl := Option.some.inj (Except.ok.inj h)
      exact fun hkind => nomatch hkind
    · obtain ⟨row, -, hrow⟩ := List.exists_of_findSome?_eq_some (Except.ok.inj h)
      unfold normalizationFromRow at hrow
      split at hrow
      · split_ifs at hrow
        obtain rfl := Option.some.inj hrow
        exact fun _ => ⟨rfl, rfl, rfl, rfl, rfl, rfl, rfl, rfl, rfl⟩
      · cases hrow

/-- A trade of a standard size that is kept is a valid one. -/
theorem not_invalid_of_poolTradeImpact {pool : NormalizedPool} {feeTier reserveInRaw
    reserveOutRaw units : ℤ} {impact : StandardTradeImpact} (hunits : 0 < units)
    (h : poolTradeImpact pool feeTier reserveInRaw reserveOutRaw normalization units =
      .ok (some impact)) : ¬invalidTradeImpact impact := by
  unfold poolTradeImpact at h
  obtain ⟨one, hone, h⟩ := andThen_eq_ok.mp h
  obtain ⟨amountPoolQuoteRaw, -, h⟩ := andThen_eq_ok.mp h
  dsimp only at h
  split at h
  · cases h
  rename_i hamount
  split at h
  · cases h
  obtain ⟨quote, hquote, h⟩ := andThen_eq_ok.mp h
  obtain rfl := Option.some.inj (Except.ok.inj h)
  have hquoted := quoted_of_ok hquote
  have hout := hquoted.amountOut_pos
  have himpact := hquoted.impact_bounds
  have hone_pos : 0 < one := by
    unfold pow10OrThrow pow10 at hone
    split at hone
    · cases hone
    · obtain rfl := Except.ok.inj hone
      positivity
  have hsize : 0 < units * one := mul_pos hunits hone_pos
  unfold invalidTradeImpact
  dsimp only
  omega

/-- **The trades of a pool are valid.** -/
theorem not_invalidTradeImpact {pool : NormalizedPool} {state : ConstantProductPoolState}
    {tokenIs0 : Bool} {impacts : List StandardTradeImpact}
    (h : poolTradeImpacts pool state tokenIs0 normalization = .ok impacts) :
    ∀ impact ∈ impacts, ¬invalidTradeImpact impact := by
  intro impact himpact
  unfold poolTradeImpacts at h
  dsimp only at h
  generalize (if tokenIs0 = true then state.reserve1Raw else state.reserve0Raw) = reserveInRaw at h
  generalize (if tokenIs0 = true then state.reserve0Raw else state.reserve1Raw) = reserveOutRaw at h
  cases hfee : pool.feeTier with
  | none =>
    rw [hfee] at h
    obtain rfl := Except.ok.inj h
    exact absurd himpact List.not_mem_nil
  | some feeTier =>
    rw [hfee] at h
    dsimp only at h
    split at h
    · obtain rfl := Except.ok.inj h
      exact absurd himpact List.not_mem_nil
    obtain ⟨results, hresults, h⟩ := andThen_eq_ok.mp h
    obtain rfl := Except.ok.inj h
    obtain ⟨result, hresult, rfl⟩ := List.mem_filterMap.mp himpact
    obtain ⟨units, hunits, htrade⟩ :=
      exists_of_forall₂ (forall₂_of_mapM_eq_ok hresults) hresult
    have hpositive : ∀ units ∈ STANDARD_TRADE_SIZE_UNITS, (0 : ℤ) < units := by decide
    exact not_invalid_of_poolTradeImpact (hpositive units hunits) htrade

/-- **What a loaded pool's evidence is made of** bears it out. -/
theorem backed_of_loadPinnedPool {evidence : LiquidityPoolEvidence}
    (hload : loadPinnedPool reads input blockTimestamp normalizationAsset excludedPools =
      .ok (.loaded loaded))
    (hevidence : loadedPoolEvidence loaded sourceBlock = .ok evidence) :
    BackedPool evidence ∧ evidence.poolAddress = loaded.pool.poolAddress := by
  unfold loadPinnedPool at hload
  split at hload
  · cases hload
  · split at hload
    · cases hload
    rename_i ownership hownership
    split at hload
    · cases hload
    rename_i tracked htracked
    obtain ⟨rate, hrate, hload⟩ := andThen_eq_ok.mp hload
    obtain ⟨impacts, himpacts, hload⟩ := andThen_eq_ok.mp hload
    obtain rfl := PoolLoadResult.loaded.inj (Except.ok.inj hload)
    unfold loadedPoolEvidence at hevidence
    cases rate with
    | none => cases hevidence
    | some normalization =>
      obtain ⟨depth, hdepth, hevidence⟩ := andThen_eq_ok.mp hevidence
      obtain rfl := Except.ok.inj hevidence
      obtain ⟨hnonneg, hsource, hnormalized, hprice, hpositive⟩ := normalized_of_ok hdepth
      have hconserves := conservesSupply hownership
      refine ⟨⟨hnonneg, hconserves.supply, hconserves.burned, hconserves.positive,
        ⟨hsource, hnormalized, hprice, hpositive⟩, ?_, not_invalidTradeImpact himpacts⟩, rfl⟩
      cases normalizationAsset with
      | none => cases hrate
      | some asset => exact hasProvenance_of_quoteNormalization hrate
  · cases hload

end Evidence

/-! ## What is assembled of all pools -/

section Assembled

variable {pools : List LiquidityPoolEvidence} {loadedPools : List LoadedPool}
  {asset : NormalizationAsset} {load : LiquidityLoadInput}
  {getMigration : ℕ → Address → Option Address} {input : LiquidityRiskInput}

/-- **The positions of all pools** and what is burned count for no more than
their depth. -/
theorem aggregated_le (h : ∀ pool ∈ pools, BackedPool pool) :
    totalLiquidity (aggregateNormalizedProviders pools (·.providers)) +
        totalLiquidity (aggregateNormalizedProviders pools (·.burnedProviders)) ≤
      normalizedTotal pools := by
  have hposition : ∀ pool ∈ pools, ∀ holder ∈ pool.providers ++ pool.burnedProviders,
      0 ≤ pool.normalized holder.liquidityRaw := fun pool hpool holder hholder =>
    normalized_nonneg (h pool hpool).depth ((h pool hpool).positive holder hholder).le
  rw [totalLiquidity_aggregateNormalizedProviders fun pool hpool holder hholder =>
      hposition pool hpool holder (List.mem_append_left _ hholder),
    totalLiquidity_aggregateNormalizedProviders fun pool hpool holder hholder =>
      hposition pool hpool holder (List.mem_append_right _ hholder)]
  clear hposition
  unfold normalizedTotal
  induction pools with
  | nil => simp
  | cons pool pools ih =>
    have hpool := h pool List.mem_cons_self
    have hrest := ih fun p hp => h p (List.mem_cons_of_mem _ hp)
    have hsupply := hpool.supply
    have hfirst := sum_normalized_le hpool.depth
      (fun holder hholder => (hpool.positive holder hholder).le)
      (by rw [totalLiquidity_append, hpool.burned]; omega)
    rw [List.map_append, List.sum_append] at hfirst
    simp only [List.map_cons, List.sum_cons]
    omega

/-- **What is assembled**: the fields the checks read. -/
structure Assembled (pools : List LiquidityPoolEvidence) (input : LiquidityRiskInput) : Prop where
  current : input.currentLiquidityRaw = normalizedTotal pools
  depth : 0 < normalizedTotal pools
  providers : input.providers = aggregateNormalizedProviders pools (·.providers)
  burnedProviders : input.burnedProviders =
    aggregateNormalizedProviders pools (·.burnedProviders)
  burned : input.burnedLiquidityRaw = totalLiquidity input.burnedProviders
  priceImpactBps : ∀ bps ∈ input.priceImpactBps,
    ∃ impact ∈ input.standardTradeImpacts.getD [], impact.priceImpactBps = bps
  standardTradeImpacts : ∀ impact ∈ input.standardTradeImpacts.getD [],
    ∃ pool ∈ pools, impact ∈ pool.standardTradeImpacts
  normalizedQuoteLiquidityRaw : input.normalizedQuoteLiquidityRaw = some (normalizedTotal pools)
  poolCount : input.poolCount = some pools.length
  poolConcentrationBps : ∃ pool ∈ pools, input.poolConcentrationBps =
    some ((pool.normalizedQuoteLiquidityRaw * 10000).tdiv (normalizedTotal pools))
  pools : input.pools = some pools

/-- The best trades are trades of the pools. -/
theorem mem_of_mem_bestTradeImpacts {impact : StandardTradeImpact} {one : ℤ}
    (h : impact ∈ bestTradeImpacts pools one) :
    ∃ pool ∈ pools, impact ∈ pool.standardTradeImpacts := by
  unfold bestTradeImpacts at h
  obtain ⟨units, -, hbest⟩ := List.mem_flatMap.mp h
  have hmem := List.mem_of_mem_head? (Option.mem_toList.mp hbest)
  rw [List.mem_insertionSort] at hmem
  exact List.mem_flatMap.mp (List.mem_filter.mp hmem).1

/-- **What `normalizedResult` gives the analysis.** -/
theorem assembled_of_normalizedResult
    (h : normalizedResult loadedPools asset load getMigration = .ok (.available input)) :
    ∃ pools, List.Forall₂ (fun loaded evidence =>
        loadedPoolEvidence loaded load.sourceBlock = .ok evidence) loadedPools pools ∧
      Assembled pools input := by
  unfold normalizedResult at h
  obtain ⟨pools, hpools, h⟩ := andThen_eq_ok.mp h
  refine ⟨pools, forall₂_of_mapM_eq_ok hpools, ?_⟩
  dsimp only at h
  split at h
  · cases h
  rename_i hdepth
  split at h
  · cases h
  rename_i primaryEvidence hprimary
  split at h
  · cases h
  obtain ⟨one, -, h⟩ := andThen_eq_ok.mp h
  obtain rfl := LiquidityContextSourceResult.available.inj (Except.ok.inj h)
  have hmem : primaryEvidence ∈ pools :=
    (List.mem_insertionSort _).mp (List.mem_of_mem_head? hprimary)
  refine ⟨rfl, by omega, rfl, rfl, rfl, ?_, fun impact himpact => mem_of_mem_bestTradeImpacts himpact,
    rfl, rfl, ⟨primaryEvidence, hmem, rfl⟩, rfl⟩
  intro bps hbps
  obtain ⟨impact, himpact, rfl⟩ := Option.map_eq_some_iff.mp hbps
  exact ⟨impact, List.mem_of_find?_eq_some himpact, rfl⟩

/-- A pool's part of the depth, in basis points. -/
theorem isBasisPoints_tdiv {part whole : ℤ} (hpart : 0 ≤ part) (hle : part ≤ whole)
    (hwhole : 0 < whole) : isBasisPoints ((part * 10000).tdiv whole) := by
  rw [Int.tdiv_eq_ediv_of_nonneg (by omega)]
  refine ⟨Int.ediv_nonneg (by omega) hwhole.le, ?_⟩
  have hscaled : part * 10000 ≤ 10000 * whole := by omega
  calc part * 10000 / whole ≤ 10000 * whole / whole := Int.ediv_le_ediv hwhole hscaled
    _ = 10000 := Int.mul_ediv_cancel _ hwhole.ne'

/-- One pool's depth is at most that of all. -/
theorem normalizedQuoteLiquidityRaw_le {pool : LiquidityPoolEvidence}
    (h : ∀ pool ∈ pools, BackedPool pool) (hpool : pool ∈ pools) :
    pool.normalizedQuoteLiquidityRaw ≤ normalizedTotal pools := by
  refine List.single_le_sum (fun amount hamount => ?_) _ (List.mem_map_of_mem hpool)
  obtain ⟨other, hother, rfl⟩ := List.mem_map.mp hamount
  exact (h other hother).depth

/-- **Every check passes.** -/
theorem Assembled.accepted (h : Assembled pools input) (hpools : ∀ pool ∈ pools, BackedPool pool)
    (hdistinct : (pools.map (·.poolAddress)).Nodup) : validateLiquidityInput input = .ok () := by
  have hvalid : ∀ impact ∈ input.standardTradeImpacts.getD [], ¬invalidTradeImpact impact := by
    intro impact himpact
    obtain ⟨pool, hpool, hmem⟩ := h.standardTradeImpacts impact himpact
    exact (hpools pool hpool).impacts impact hmem
  have hpositive : ∀ holder ∈ input.providers, 0 < holder.liquidityRaw := by
    rw [h.providers]
    exact fun holder hholder => pos_of_mem_aggregateNormalizedProviders hholder
  have hburned : 0 ≤ input.burnedLiquidityRaw := by
    rw [h.burned, h.burnedProviders]
    exact totalLiquidity_nonneg fun holder hholder =>
      pos_of_mem_aggregateNormalizedProviders hholder
  have hle := aggregated_le hpools
  rw [← h.providers, ← h.burnedProviders, ← h.burned, ← h.current] at hle
  have hdepth := h.depth
  have hcurrent := h.current
  obtain ⟨primary, hprimary, hconcentration⟩ := h.poolConcentrationBps
  have hne : pools ≠ [] := List.ne_nil_of_mem hprimary
  unfold validateLiquidityInput
  simp only [checks_eq_ok]
  refine ⟨?_, ?_, ?_, ?_⟩
  · unfold validateOwnershipTotals
    simp only [checks_eq_ok, require_eq_ok]
    exact ⟨⟨by omega, hburned⟩, h.burned.symm, hpositive, hle⟩
  · unfold validateAggregateBounds
    simp only [checks_eq_ok, require_eq_ok]
    refine ⟨fun bps hbps => ?_, fun count hcount => ?_, fun concentration hc => ?_⟩
    · obtain ⟨impact, himpact, rfl⟩ := h.priceImpactBps bps hbps
      have := hvalid impact himpact
      unfold invalidTradeImpact at this
      exact ⟨by omega, by omega⟩
    · rw [h.poolCount] at hcount
      obtain rfl := Option.some.inj hcount
      exact List.length_pos_of_ne_nil hne
    · rw [hconcentration] at hc
      obtain rfl := Option.some.inj hc
      exact isBasisPoints_tdiv (hpools primary hprimary).depth
        (normalizedQuoteLiquidityRaw_le hpools hprimary) hdepth
  · unfold validatePoolEvidence
    rw [h.pools]
    simp only [checks_eq_ok, require_eq_ok, h.poolCount, h.normalizedQuoteLiquidityRaw]
    refine ⟨hne, hdistinct, fun count hcount => (Option.some.inj hcount).symm,
      fun pool hpool => (hpools pool hpool).depth,
      forM_eq_ok.mpr fun pool hpool => (hpools pool hpool).accepted,
      fun total htotal => Option.some.inj htotal⟩
  · unfold validateTradeImpacts
    rw [require_eq_ok, h.pools]
    intro impact himpact
    rcases List.mem_append.mp himpact with hbest | hpool
    · exact hvalid impact hbest
    · obtain ⟨pool, hpool, hmem⟩ := List.mem_flatMap.mp hpool
      exact (hpools pool hpool).impacts impact hmem

end Assembled

/-! ## What the analysis makes of it -/

section Analysis

variable {input : LiquidityRiskInput} {result : LiquidityRiskResult} {reads : List PoolReads}
  {loadedPools : List LoadedPool} {asset : NormalizationAsset} {load : LiquidityLoadInput}
  {blockTimestamp : ℕ} {excludedPools : List Address}
  {getMigration : ℕ → Address → Option Address}

/-- The largest of amounts that are not negative is at most their sum. -/
theorem foldl_max_le_sum {amounts : List ℤ} (h : ∀ amount ∈ amounts, 0 ≤ amount) :
    0 ≤ amounts.foldl max 0 ∧ amounts.foldl max 0 ≤ amounts.sum := by
  have hfrom : ∀ start : ℤ, 0 ≤ start → start ≤ amounts.foldl max start ∧
      amounts.foldl max start ≤ start + amounts.sum := by
    induction amounts with
    | nil => simp
    | cons amount amounts ih =>
      intro start hstart
      have hamount := h amount List.mem_cons_self
      obtain ⟨hlower, hupper⟩ := ih (fun a ha => h a (List.mem_cons_of_mem _ ha))
        (max start amount) (by omega)
      rw [List.foldl_cons, List.sum_cons]
      omega
  have hzero := hfrom 0 le_rfl
  rwa [zero_add] at hzero

/-- **What the analysis promises** of an input whose checks pass. -/
structure AcceptedInput (input : LiquidityRiskInput) : Prop where
  accepted : validateLiquidityInput input = .ok ()
  ownership : totalLiquidity input.providers + input.burnedLiquidityRaw ≤ input.currentLiquidityRaw
  positive : ∀ holder ∈ input.providers, 0 < holder.liquidityRaw
  burned : totalLiquidity input.burnedProviders = input.burnedLiquidityRaw
  poolConcentration : ∀ bps ∈ input.poolConcentrationBps, isBasisPoints bps
  priceImpact : ∀ bps ∈ input.priceImpactBps, isBasisPoints bps
  tradeImpacts : ∀ impact ∈ input.standardTradeImpacts.getD [] ++
    (input.pools.getD []).flatMap (·.standardTradeImpacts), isBasisPoints impact.priceImpactBps
  analysed : ∃ result, analyzeLiquidityRisk input = .ok result ∧
    isBasisPoints result.providerConcentrationBps ∧
    (result.status = .verified → result.findings = [])

/-- **An input whose checks pass is analysed.** -/
theorem acceptedInput (h : validateLiquidityInput input = .ok ()) : AcceptedInput input := by
  have hchecks := h
  unfold validateLiquidityInput validateOwnershipTotals validateAggregateBounds
    validateTradeImpacts at hchecks
  simp only [checks_eq_ok, require_eq_ok] at hchecks
  obtain ⟨⟨⟨hcurrent, hburned⟩, hevidence, hpositive, hownership⟩,
    ⟨himpact, -, hconcentration⟩, -, himpacts⟩ := hchecks
  have hbps : ∀ impact : StandardTradeImpact, ¬invalidTradeImpact impact →
      isBasisPoints impact.priceImpactBps := by
    intro impact hvalid
    unfold invalidTradeImpact at hvalid
    exact ⟨by omega, by omega⟩
  refine ⟨h, hownership, hpositive, hevidence, hconcentration, himpact,
    fun impact hmem => hbps impact (himpacts impact hmem), ?_⟩
  unfold analyzeLiquidityRisk
  rw [h]
  refine ⟨_, rfl, ?_, ?_⟩
  · dsimp only
    split
    · exact ⟨le_rfl, by omega⟩
    · obtain ⟨hlower, hupper⟩ := @foldl_max_le_sum (input.providers.map (·.liquidityRaw)) (by
        intro amount hamount
        obtain ⟨holder, hholder, rfl⟩ := List.mem_map.mp hamount
        exact (hpositive holder hholder).le)
      unfold totalLiquidity at hownership
      exact isBasisPoints_tdiv hlower (by omega) (by omega)
  · dsimp only
    split_ifs with hunknown hfindings
    · exact fun hstatus => nomatch hstatus
    · exact fun hstatus => nomatch hstatus
    · exact fun _ => List.eq_nil_of_length_eq_zero (by omega)

/-- The evidence of pools that were loaded bears them out, one by one. -/
theorem backed_of_forall₂ {pools : List LiquidityPoolEvidence}
    (hload : List.Forall₂ (fun reads loaded =>
      loadPinnedPool reads load blockTimestamp (some asset) excludedPools = .ok (.loaded loaded))
      reads loadedPools)
    (hpools : List.Forall₂ (fun loaded evidence =>
      loadedPoolEvidence loaded load.sourceBlock = .ok evidence) loadedPools pools) :
    (∀ pool ∈ pools, BackedPool pool) ∧
      pools.map (·.poolAddress) = loadedPools.map (·.pool.poolAddress) := by
  induction hpools generalizing reads with
  | nil => exact ⟨fun pool hpool => absurd hpool List.not_mem_nil, rfl⟩
  | cons hevidence _ ih =>
    obtain _ | ⟨hloaded, hload⟩ := hload
    obtain ⟨hpool, haddress⟩ := backed_of_loadPinnedPool hloaded hevidence
    obtain ⟨hrest, haddresses⟩ := ih hload
    rw [List.map_cons, List.map_cons, haddress, haddresses]
    exact ⟨List.forall_mem_cons.mpr ⟨hpool, hrest⟩, rfl⟩

/-- **Liquidity analysis accepts what the loader builds.** -/
theorem normalizedResult_accepted
    (hload : List.Forall₂ (fun reads loaded =>
      loadPinnedPool reads load blockTimestamp (some asset) excludedPools = .ok (.loaded loaded))
      reads loadedPools)
    (hdistinct : (loadedPools.map (·.pool.poolAddress)).Nodup)
    (hresult : normalizedResult loadedPools asset load getMigration = .ok (.available input)) :
    AcceptedInput input := by
  obtain ⟨pools, hpools, hassembled⟩ := assembled_of_normalizedResult hresult
  obtain ⟨hall, haddresses⟩ := backed_of_forall₂ hload hpools
  exact acceptedInput (hassembled.accepted hall (haddresses ▸ hdistinct))

/-- A pool whose quote asset has no rate is accepted too. -/
theorem singlePoolResult_accepted {reads : PoolReads} {loaded : LoadedPool}
    {normalizationAsset : Option NormalizationAsset}
    (hload : loadPinnedPool reads load blockTimestamp normalizationAsset excludedPools =
      .ok (.loaded loaded))
    (hresult : singlePoolResult loaded load getMigration = .available input) :
    AcceptedInput input := by
  have hconserves : ConservesSupply loaded.ownership loaded.state.lpTotalSupplyRaw := by
    unfold loadPinnedPool at hload
    split at hload
    · cases hload
    · split at hload
      · cases hload
      rename_i ownership hownership
      split at hload
      · cases hload
      obtain ⟨rate, -, hload⟩ := andThen_eq_ok.mp hload
      obtain ⟨impacts, -, hload⟩ := andThen_eq_ok.mp hload
      obtain rfl := PoolLoadResult.loaded.inj (Except.ok.inj hload)
      exact conservesSupply hownership
    · cases hload
  obtain rfl := LiquidityContextSourceResult.available.inj hresult
  have hburned : 0 ≤ loaded.ownership.burnedLiquidityRaw := by
    rw [← hconserves.burned]
    exact totalLiquidity_nonneg fun holder hholder =>
      hconserves.positive holder (List.mem_append_right _ hholder)
  refine acceptedInput ?_
  unfold validateLiquidityInput validateOwnershipTotals validateAggregateBounds
    validatePoolEvidence validateTradeImpacts
  simp only [checks_eq_ok, require_eq_ok]
  refine ⟨⟨⟨Int.natCast_nonneg _, hburned⟩, hconserves.burned,
    fun holder hholder => hconserves.positive holder (List.mem_append_left _ hholder),
    hconserves.supply.le⟩, ⟨fun bps hbps => ?_, fun count hcount => ?_, fun bps hbps => ?_⟩, ?_⟩
  · cases hbps
  · obtain rfl := Option.some.inj hcount
    exact Nat.one_pos
  · cases hbps
  · exact ⟨trivial, fun impact himpact => absurd himpact List.not_mem_nil⟩

/-- Pools loaded in turn are loaded one by one. -/
theorem forall₂_of_loadPools {normalizationAsset : Option NormalizationAsset}
    (h : loadPools load blockTimestamp normalizationAsset excludedPools reads =
      .ok (.ok loadedPools)) :
    List.Forall₂ (fun reads loaded =>
      loadPinnedPool reads load blockTimestamp normalizationAsset excludedPools =
        .ok (.loaded loaded)) reads loadedPools := by
  induction reads generalizing loadedPools with
  | nil =>
    obtain rfl := Except.ok.inj (Except.ok.inj h)
    exact .nil
  | cons first rest ih =>
    unfold loadPools at h
    obtain ⟨result, hfirst, h⟩ := andThen_eq_ok.mp h
    cases result with
    | failed reason => cases h
    | loaded pool =>
      obtain ⟨others, hothers, h⟩ := andThen_eq_ok.mp h
      cases others with
      | error reason => cases h
      | ok loadedRest =>
        obtain rfl := Except.ok.inj (Except.ok.inj h)
        exact .cons hfirst (ih hothers)

/-- A loaded pool is the pool that was read. -/
theorem pool_of_loadPinnedPool {reads : PoolReads} {loaded : LoadedPool}
    {normalizationAsset : Option NormalizationAsset}
    (h : loadPinnedPool reads load blockTimestamp normalizationAsset excludedPools =
      .ok (.loaded loaded)) : loaded.pool = reads.pool := by
  unfold loadPinnedPool at h
  split at h
  · cases h
  · split at h
    · cases h
    split at h
    · cases h
    obtain ⟨rate, -, h⟩ := andThen_eq_ok.mp h
    obtain ⟨impacts, -, h⟩ := andThen_eq_ok.mp h
    obtain rfl := PoolLoadResult.loaded.inj (Except.ok.inj h)
    rfl
  · cases h

/-- **Whatever is loaded is accepted**: what the source gives the analysis of
distinct pools passes its checks. -/
theorem loadLiquidity_accepted {normalizationAsset : Option NormalizationAsset}
    (hdistinct : (reads.map (·.pool.poolAddress)).Nodup)
    (h : loadLiquidity reads load blockTimestamp normalizationAsset getMigration =
      .ok (.available input)) : AcceptedInput input := by
  unfold loadLiquidity at h
  split at h
  · cases h
  obtain ⟨pools, hpools, h⟩ := andThen_eq_ok.mp h
  cases pools with
  | error reason => cases h
  | ok loadedPools =>
    have hload := forall₂_of_loadPools hpools
    dsimp only at h
    split at h
    · split at h
      · have hresult := Except.ok.inj h
        obtain _ | ⟨hfirst, _⟩ := hload
        exact singlePoolResult_accepted hfirst hresult
      · cases h
      · cases h
    · split at h
      · cases h
      · have hmap : ∀ {reads : List PoolReads} {loadedPools : List LoadedPool},
            List.Forall₂ (fun reads loaded => loaded.pool = reads.pool) reads loadedPools →
              loadedPools.map (·.pool.poolAddress) = reads.map (·.pool.poolAddress) := by
          intro reads loadedPools hall
          induction hall with
          | nil => rfl
          | cons hpool _ ih => rw [List.map_cons, List.map_cons, hpool, ih]
        have hsame := hmap (hload.imp fun _ _ hloaded => pool_of_loadPinnedPool hloaded)
        obtain ⟨pools, hpools, hassembled⟩ := assembled_of_normalizedResult h
        obtain ⟨hall, haddresses⟩ := backed_of_forall₂ hload hpools
        exact acceptedInput (hassembled.accepted hall (haddresses ▸ hsame ▸ hdistinct))

end Analysis

/-! ## A sample pool -/

def sampleStable : NormalizationAsset := ⟨⟨500⟩, 6⟩

/-- A pool of a token and the normalization asset. -/
def sampleNormalizedPool : NormalizedPool where
  chainId := 1
  protocolKey := "dex"
  protocolVersion := "v2"
  poolAddress := ⟨100⟩
  factoryAddress := ⟨101⟩
  token0Address := ⟨400⟩
  token1Address := ⟨500⟩
  feeTier := some 3000
  tickSpacing := none
  poolType := "constantProduct"
  createdBlockNumber := 1
  createdBlockHash := ⟨1⟩
  creationTransactionHash := ⟨1⟩
  creationLogIndex := 0
  canonical := true

/-- Two providers, and what the first mint locked. -/
def samplePoolReads : PoolReads where
  pool := sampleNormalizedPool
  state := some (.constantProduct 7000000000000 5000000000000 7000)
  transfers := [⟨1, ⟨1⟩, ⟨1⟩, 0, ZERO_ADDRESS, ZERO_ADDRESS, 1000⟩,
    ⟨1, ⟨1⟩, ⟨1⟩, 1, ZERO_ADDRESS, ⟨8⟩, 4000⟩, ⟨2, ⟨2⟩, ⟨2⟩, 0, ZERO_ADDRESS, ⟨9⟩, 2000⟩]
  creators := []
  lock := none
  canonicalDecimals := some 6
  storedDecimals := none
  rows := []
  isCanonicalBlock _ _ := true

def sampleLiquidityLoad : LiquidityLoadInput := ⟨⟨.token, 1, ⟨400⟩⟩, 2, ⟨2⟩⟩

/-- The sample pool is loaded, assembled and accepted. -/
theorem normalizedResult_samplePool : ∃ loaded input,
    loadPinnedPool samplePoolReads sampleLiquidityLoad 1000 (some sampleStable) [⟨100⟩] =
        .ok (.loaded loaded) ∧
      normalizedResult [loaded] sampleStable sampleLiquidityLoad (fun _ _ => none) =
        .ok (.available input) ∧
      AcceptedInput input :=
  ⟨_, _, rfl, rfl, @normalizedResult_accepted _ [samplePoolReads] _ sampleStable
    sampleLiquidityLoad 1000 [⟨100⟩] (fun _ _ => none) (.cons rfl .nil) (List.nodup_singleton _)
    rfl⟩

end HoodSentry
