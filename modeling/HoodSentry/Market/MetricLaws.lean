import HoodSentry.Common.Lists
import HoodSentry.Common.Sorting
import HoodSentry.Market.Model.Metrics
/-!
# What the metrics of a bucket keep

The aggregates of a bucket's canonical trades agree with one another, do not
see the other trades, and do not depend on the order of the trades.
-/

namespace HoodSentry

/-- The trades that count. -/
def canonicalTrades (trades : List TradeMetricInput) : List TradeMetricInput :=
  trades.filter (·.canonical)

/-- Their sizes. -/
def tradeSizes (trades : List TradeMetricInput) : List ℤ :=
  (canonicalTrades trades).map (·.quoteAmountRaw)

/-- A value lies between the smallest and the largest of some sizes. -/
def Between (sizes : List ℤ) (value : ℤ) : Prop :=
  (∃ size ∈ sizes, size ≤ value) ∧ ∃ size ∈ sizes, value ≤ size

/-- **The laws of the metrics.** -/
structure MetricsLaws (input : MarketMetricsInput) : Prop where
  volume : (aggregateMarketMetrics input).buyVolumeRaw + (aggregateMarketMetrics input).sellVolumeRaw =
    (aggregateMarketMetrics input).volumeRaw
  count : (aggregateMarketMetrics input).buyCount + (aggregateMarketMetrics input).sellCount =
    (canonicalTrades input.trades).length
  traders : (aggregateMarketMetrics input).uniqueTraders ≤ (canonicalTrades input.trades).length
  whales : (aggregateMarketMetrics input).whaleVolumeRaw ≤ (aggregateMarketMetrics input).volumeRaw
  median : if canonicalTrades input.trades = [] then
      (aggregateMarketMetrics input).medianTradeSizeRaw = none
    else ∃ value, (aggregateMarketMetrics input).medianTradeSizeRaw = some value ∧
      Between (tradeSizes input.trades) value
  average : if canonicalTrades input.trades = [] then
      (aggregateMarketMetrics input).averageTradeSizeRaw = none
    else ∃ value, (aggregateMarketMetrics input).averageTradeSizeRaw = some value ∧
      Between (tradeSizes input.trades) value
  canonical : ∀ trades, canonicalTrades trades = canonicalTrades input.trades →
    aggregateMarketMetrics { input with trades := trades } = aggregateMarketMetrics input
  order : ∀ trades : List TradeMetricInput, trades.Perm input.trades →
    aggregateMarketMetrics { input with trades := trades } = aggregateMarketMetrics input

variable {input : MarketMetricsInput} {trades : List TradeMetricInput} {sizes : List ℤ}

/-! ## Sums and counts -/

theorem filter_sell : trades.filter (·.side = .sell) = trades.filter fun t => !(t.side = .buy : Bool) := by
  refine List.filter_congr fun t _ => ?_
  cases t.side <;> rfl

theorem sum_buy_add_sell :
    ((trades.filter (·.side = .buy)).map (·.quoteAmountRaw)).sum +
        ((trades.filter (·.side = .sell)).map (·.quoteAmountRaw)).sum =
      (trades.map (·.quoteAmountRaw)).sum := by
  rw [filter_sell, ← List.sum_append, ← List.map_append]
  exact ((List.filter_append_perm _ trades).map _).sum_eq

theorem length_buy_add_sell :
    (trades.filter (·.side = .buy)).length + (trades.filter (·.side = .sell)).length =
      trades.length := by
  rw [filter_sell, ← List.length_append]
  exact (List.filter_append_perm _ trades).length_eq

/-- What the whales traded is part of the volume. -/
theorem sum_whale_le (hnonneg : ∀ t ∈ trades, 0 ≤ t.quoteAmountRaw) :
    ((trades.filter (·.whale)).map (·.quoteAmountRaw)).sum ≤
      (trades.map (·.quoteAmountRaw)).sum := by
  refine List.Sublist.sum_le_sum (List.filter_sublist.map _) fun size hsize => ?_
  obtain ⟨t, ht, rfl⟩ := List.mem_map.mp hsize
  exact hnonneg t ht

/-! ## The median -/

/-- The median of two parities: the middle size, or half of the two in the
middle. -/
theorem between_median (hne : sizes ≠ []) (hnonneg : ∀ size ∈ sizes, 0 ≤ size) :
    ∃ value, median sizes = some value ∧ Between sizes value := by
  have hmem : ∀ size, size ∈ sizes.insertionSort (· ≤ ·) ↔ size ∈ sizes :=
    fun size => List.mem_insertionSort _
  have hsorted := List.pairwise_insertionSort (· ≤ ·) sizes
  have hlength : (sizes.insertionSort (· ≤ ·)).length = sizes.length :=
    List.length_insertionSort _ _
  have hpos : 0 < sizes.length := List.length_pos_iff.mpr hne
  unfold median
  generalize sizes.insertionSort (· ≤ ·) = sorted at hmem hsorted hlength
  have hmiddle : sorted.length / 2 < sorted.length := by omega
  dsimp only
  rw [List.getElem?_eq_getElem hmiddle]
  have hin := (hmem _).mp (List.getElem_mem hmiddle)
  dsimp only
  split
  · exact ⟨_, rfl, ⟨_, hin, le_rfl⟩, _, hin, le_rfl⟩
  · rename_i heven
    have hlower : sorted.length / 2 - 1 < sorted.length := by omega
    rw [List.getElem?_eq_getElem hlower, Option.map_some]
    have hin' := (hmem _).mp (List.getElem_mem hlower)
    have hle : sorted[sorted.length / 2 - 1] ≤ sorted[sorted.length / 2] :=
      List.pairwise_iff_getElem.mp hsorted _ _ hlower hmiddle (by omega)
    have hlow := hnonneg _ hin'
    refine ⟨_, rfl, ⟨_, hin', ?_⟩, _, hin, ?_⟩
    · rw [Int.tdiv_eq_ediv_of_nonneg (by omega)]
      omega
    · rw [Int.tdiv_eq_ediv_of_nonneg (by omega)]
      omega

/-! ## The average -/

theorem between_average (hne : sizes ≠ []) (hnonneg : ∀ size ∈ sizes, 0 ≤ size) :
    Between sizes (sizes.sum.tdiv sizes.length) := by
  have hpos : (0 : ℤ) < sizes.length := Int.natCast_pos.mpr (List.length_pos_iff.mpr hne)
  have hsum : 0 ≤ sizes.sum := List.sum_nonneg hnonneg
  rw [Int.tdiv_eq_ediv_of_nonneg hsum]
  constructor
  · by_contra hnone
    push Not at hnone
    -- every size is more than the average, by one at least
    have hall : ∀ size ∈ sizes, sizes.sum / sizes.length + 1 ≤ size := fun size hsize =>
      hnone size hsize
    have hbound := List.card_nsmul_le_sum sizes _ hall
    rw [nsmul_eq_mul] at hbound
    have hlt := Int.lt_ediv_add_one_mul_self sizes.sum hpos
    rw [mul_comm] at hbound
    omega
  · by_contra hnone
    push Not at hnone
    have hall : ∀ size ∈ sizes, size ≤ sizes.sum / sizes.length - 1 := fun size hsize =>
      Int.le_sub_one_of_lt (hnone size hsize)
    have hbound := List.sum_le_card_nsmul sizes _ hall
    rw [nsmul_eq_mul, mul_sub, mul_one] at hbound
    have hle := Int.ediv_mul_le sizes.sum hpos.ne'
    rw [mul_comm] at hle
    omega

/-! ## What does not count -/

/-- Only the canonical trades count. -/
theorem aggregateMarketMetrics_congr (h : canonicalTrades trades = canonicalTrades input.trades) :
    aggregateMarketMetrics { input with trades := trades } = aggregateMarketMetrics input := by
  unfold canonicalTrades at h
  simp only [aggregateMarketMetrics, h]

/-- **The order of the trades does not count.** -/
theorem aggregateMarketMetrics_perm (hperm : trades.Perm input.trades) :
    aggregateMarketMetrics { input with trades := trades } = aggregateMarketMetrics input := by
  have hcanonical := hperm.filter (·.canonical)
  have hsum : ∀ p : TradeMetricInput → Bool,
      (((trades.filter (·.canonical)).filter p).map (·.quoteAmountRaw)).sum =
        (((input.trades.filter (·.canonical)).filter p).map (·.quoteAmountRaw)).sum :=
    fun p => ((hcanonical.filter p).map _).sum_eq
  have hlength : ∀ p : TradeMetricInput → Bool,
      ((trades.filter (·.canonical)).filter p).length =
        ((input.trades.filter (·.canonical)).filter p).length :=
    fun p => (hcanonical.filter p).length_eq
  have hvolume : ((trades.filter (·.canonical)).map (·.quoteAmountRaw)).sum =
      ((input.trades.filter (·.canonical)).map (·.quoteAmountRaw)).sum :=
    (hcanonical.map _).sum_eq
  have htraders : ((trades.filter (·.canonical)).map (·.traderAddress)).dedup.length =
      ((input.trades.filter (·.canonical)).map (·.traderAddress)).dedup.length :=
    (hcanonical.map _).dedup.length_eq
  have hmedian : median ((trades.filter (·.canonical)).map (·.quoteAmountRaw)) =
      median ((input.trades.filter (·.canonical)).map (·.quoteAmountRaw)) := by
    unfold median
    rw [insertionSort_eq_of_perm (hcanonical.map _) fun a _ b _ => le_antisymm]
  simp only [aggregateMarketMetrics, hsum, hlength, hvolume, htraders, hmedian,
    hcanonical.length_eq]

/-- **The metrics keep their laws.** -/
theorem metricsLaws (hnonneg : ∀ t ∈ input.trades, 0 ≤ t.quoteAmountRaw) : MetricsLaws input := by
  have hcanonical : ∀ t ∈ canonicalTrades input.trades, 0 ≤ t.quoteAmountRaw := fun t ht =>
    hnonneg t (List.mem_of_mem_filter ht)
  have hsizes : ∀ size ∈ tradeSizes input.trades, 0 ≤ size := by
    intro size hsize
    obtain ⟨t, ht, rfl⟩ := List.mem_map.mp hsize
    exact hcanonical t ht
  have hlength : (tradeSizes input.trades).length = (canonicalTrades input.trades).length :=
    List.length_map _
  exact {
    volume := sum_buy_add_sell
    count := length_buy_add_sell
    traders := by
      refine (List.dedup_sublist _).length_le.trans ?_
      rw [List.length_map]
      exact le_rfl
    whales := sum_whale_le hcanonical
    median := by
      split
      · rename_i hnil
        change median (tradeSizes input.trades) = none
        rw [tradeSizes, hnil]
        rfl
      · rename_i hne
        exact between_median (fun hnil => hne (List.map_eq_nil_iff.mp hnil)) hsizes
    average := by
      change if _ then (if ((canonicalTrades input.trades).length : ℤ) = 0 then none
        else some ((tradeSizes input.trades).sum.tdiv (canonicalTrades input.trades).length)) = none
        else ∃ value, (if ((canonicalTrades input.trades).length : ℤ) = 0 then none
          else some ((tradeSizes input.trades).sum.tdiv (canonicalTrades input.trades).length)) =
            some value ∧ _
      split
      · rename_i hnil
        rw [hnil]
        rfl
      · rename_i hne
        rw [if_neg fun hzero => hne (List.length_eq_zero_iff.mp (Int.ofNat_eq_zero.mp hzero))]
        refine ⟨_, rfl, ?_⟩
        rw [← hlength]
        exact between_average (fun hnil => hne (List.map_eq_nil_iff.mp hnil)) hsizes
    canonical := fun _ h => aggregateMarketMetrics_congr h
    order := fun _ hperm => aggregateMarketMetrics_perm hperm }

/-- A buy, a larger sell by a whale, and a trade that a reorg took back. -/
def MarketMetricsInput.sample : MarketMetricsInput where
  chainId := MAINNET_CHAIN_ID
  tokenAddress := ⟨7⟩
  quoteAssetAddress := USDG
  window := .h1
  asOf := 3600000
  quoteDecimals := 6
  observation := none
  trades := [⟨⟨1⟩, ⟨21⟩, .buy, 10, 40, 3600000, true, false⟩,
    ⟨⟨2⟩, ⟨22⟩, .sell, 30, 120, 3601000, true, true⟩, ⟨⟨3⟩, ⟨23⟩, .buy, 5, 20, 3602000, false, false⟩]
  supply := ⟨none, none, 18, false, none, []⟩
  context := ⟨none, none, none, none, none, none, none, none, []⟩
  methodologyVersion := "1"

theorem metricsLaws_sample : MetricsLaws .sample := metricsLaws (by decide)

end HoodSentry
