import HoodSentry.Worker.MarketMetric
/-!
# Candles and metrics across a reorg

A reorg clears every candle and metrics row of its chain, and only jobs
write them again. So it touches exactly what it invalidates when there is
nothing else, and the rows come back exactly for the buckets that get an
event after it.
-/

namespace HoodSentry

open MetricFacts

/-! ## Rows and their sources -/

/-- **A row of the chain with a source in the range**: a canonical
observation of the pair in the row's bucket, or a canonical trade. -/
def MetricFacts.HasSource (f : MetricFacts) (chainId fromBlock toBlock : ℕ) (k : BucketKey) :
    Prop :=
  k.chainId = chainId ∧
    ((∃ o ∈ f.observations, o.canonical = true ∧ o.chainId = k.chainId ∧
        o.tokenAddress = k.tokenAddress ∧ o.quoteAssetAddress = k.quoteAssetAddress ∧
        bucketStart o.sourceTimestamp k.window = k.bucketStart ∧
        ∃ n ∈ o.sourceBlockNumber, fromBlock ≤ n ∧ n ≤ toBlock) ∨
      ∃ s ∈ f.swaps, ∃ b ∈ f.blocks, s.canonical = true ∧ s.chainId = k.chainId ∧
        b.chainId = k.chainId ∧ b.number = s.blockNumber ∧ b.hash = s.blockHash ∧
        (s.tokenInAddress = k.quoteAssetAddress ∧ s.tokenOutAddress = k.tokenAddress ∨
          s.tokenInAddress = k.tokenAddress ∧ s.tokenOutAddress = k.quoteAssetAddress) ∧
        bucketStart (b.timestamp * 1000) k.window = k.bucketStart ∧
        fromBlock ≤ s.blockNumber ∧ s.blockNumber ≤ toBlock)

/-- The candles and metrics a reorg leaves. -/
def MetricFacts.reorgTables (f : MetricFacts) (t : MarketTables)
    (chainId fromBlock toBlock : ℕ) : MarketTables :=
  let marked := PricingStore.markPricingNonCanonical ⟨f.observations, t.candles, t.metrics⟩
    chainId fromBlock toBlock
  ⟨marked.candles, marked.metrics⟩

/-- **A reorg touches exactly the rows it invalidates**: a canonical row
stays as it is exactly when it has no source in the range. -/
structure TouchesExactly (f : MetricFacts) (t : MarketTables) (chainId fromBlock toBlock : ℕ) :
    Prop where
  metrics : ∀ m ∈ t.metrics, m.canonical = true →
    (m ∈ (f.reorgTables t chainId fromBlock toBlock).metrics ↔
      ¬f.HasSource chainId fromBlock toBlock m.key)
  candles : ∀ c ∈ t.candles, c.canonical = true →
    (c ∈ (f.reorgTables t chainId fromBlock toBlock).candles ↔
      ¬f.HasSource chainId fromBlock toBlock c.key)

/-- **The canonical rows of a chain are those recomputed.** -/
structure Recomputed (chainId : ℕ) (t recomputed : MarketTables) : Prop where
  metrics : ∀ m : MarketMetrics, m.chainId = chainId →
    (m ∈ t.metrics ∧ m.canonical = true ↔ m ∈ recomputed.metrics ∧ m.canonical = true)
  candles : ∀ c : MarketCandle, c.chainId = chainId →
    (c ∈ t.candles ∧ c.canonical = true ↔ c ∈ recomputed.candles ∧ c.canonical = true)

section Marked

variable {f : MetricFacts} {t : MarketTables} {chainId fromBlock toBlock : ℕ}

/-- What a reorg leaves canonical is of another chain. -/
theorem mem_reorgTables_metrics {m : MarketMetrics} (hcanonical : m.canonical = true) :
    m ∈ (f.reorgTables t chainId fromBlock toBlock).metrics ↔
      m ∈ t.metrics ∧ m.chainId ≠ chainId := by
  have hmarked : m ∈ (f.reorgTables t chainId fromBlock toBlock).metrics ↔
      m ∈ t.metrics ∧ decide (m.chainId = chainId) = false :=
    Table.mem_updateWhere_clear MarketMetrics.canonical (by exact fun _ => rfl)
      (by exact fun _ => rfl) hcanonical
  rw [hmarked, decide_eq_false_iff_not]

theorem mem_reorgTables_candles {c : MarketCandle} (hcanonical : c.canonical = true) :
    c ∈ (f.reorgTables t chainId fromBlock toBlock).candles ↔
      c ∈ t.candles ∧ c.chainId ≠ chainId := by
  have hmarked : c ∈ (f.reorgTables t chainId fromBlock toBlock).candles ↔
      c ∈ t.candles ∧ decide (c.chainId = chainId) = false :=
    Table.mem_updateWhere_clear MarketCandle.canonical (by exact fun _ => rfl)
      (by exact fun _ => rfl) hcanonical
  rw [hmarked, decide_eq_false_iff_not]

/-- A reorg leaves its chain blank. -/
theorem blank_reorgTables : Blank (f.reorgTables t chainId fromBlock toBlock) chainId := by
  refine ⟨fun m hm hchain => ?_, fun c hc hchain => ?_⟩
  · rw [← Bool.not_eq_true]
    exact fun hcanonical => ((mem_reorgTables_metrics hcanonical).mp hm).2 hchain
  · rw [← Bool.not_eq_true]
    exact fun hcanonical => ((mem_reorgTables_candles hcanonical).mp hc).2 hchain

/-- **It touches exactly what it invalidates when there is nothing else.** -/
theorem touchesExactly_iff : TouchesExactly f t chainId fromBlock toBlock ↔
    (∀ m ∈ t.metrics, m.canonical = true → m.chainId = chainId →
      f.HasSource chainId fromBlock toBlock m.key) ∧
    ∀ c ∈ t.candles, c.canonical = true → c.chainId = chainId →
      f.HasSource chainId fromBlock toBlock c.key := by
  constructor
  · intro h
    refine ⟨fun m hm hcanonical hchain => ?_, fun c hc hcanonical hchain => ?_⟩
    · by_contra hnone
      exact ((mem_reorgTables_metrics hcanonical).mp
        ((h.metrics m hm hcanonical).mpr hnone)).2 hchain
    · by_contra hnone
      exact ((mem_reorgTables_candles hcanonical).mp
        ((h.candles c hc hcanonical).mpr hnone)).2 hchain
  · rintro ⟨hmetrics, hcandles⟩
    refine ⟨fun m hm hcanonical => ?_, fun c hc hcanonical => ?_⟩
    · rw [mem_reorgTables_metrics hcanonical]
      constructor
      · rintro ⟨-, hchain⟩ hsource
        exact hchain hsource.1
      · intro hnone
        exact ⟨hm, fun hchain => hnone (hmetrics m hm hcanonical hchain)⟩
    · rw [mem_reorgTables_candles hcanonical]
      constructor
      · rintro ⟨-, hchain⟩ hsource
        exact hchain hsource.1
      · intro hnone
        exact ⟨hc, fun hchain => hnone (hcandles c hc hcanonical hchain)⟩

end Marked

/-! ## The latest event of a bucket -/

/-- Events in their order, as pairs. -/
def MetricEvent.rank (e : MetricEvent) : ℕ ×ₗ ℕ := toLex (e.sourceTimestamp, e.blockNumber)

theorem MetricEvent.before_iff {e e' : MetricEvent} : e.Before e' ↔ e.rank < e'.rank := by
  rw [rank, rank, Prod.Lex.toLex_lt_toLex]
  rfl

/-- **Every bucket with an event has a latest one.** -/
theorem exists_latest {events : List MetricEvent} {e : MetricEvent} (window : MarketWindow)
    (he : e ∈ events) : ∃ e', Latest events e' window ∧ e'.key window = e.key window := by
  have hne : (events.toFinset.filter fun e' => e'.key window = e.key window).Nonempty :=
    ⟨e, by simp [he]⟩
  obtain ⟨e', hmem, hmax⟩ := Finset.exists_max_image _ MetricEvent.rank hne
  rw [Finset.mem_filter, List.mem_toFinset] at hmem
  refine ⟨e', ⟨hmem.1, fun e'' he'' hk hbefore => ?_⟩, hmem.2⟩
  have hle := hmax e'' (by simp [he'', hk, hmem.2])
  exact absurd (MetricEvent.before_iff.mp hbefore) (not_lt_of_ge hle)

/-! ## Recomputation -/

namespace MetricFacts

variable {f : MetricFacts} {chainId : ℕ} {s : MarketState}

/-- The canonical metrics of a chain, one by one. -/
theorem Computed.mem_metrics_iff (h : Computed f chainId s) {m : MarketMetrics}
    (hchain : m.chainId = chainId) :
    m ∈ s.tables.metrics ∧ m.canonical = true ↔ ∃ e window reads, Latest s.events e window ∧
      f.readMetricContext e = .ok reads ∧ m = f.metricsOf e reads s.tables.metrics window := by
  constructor
  · rintro ⟨hm, hcanonical⟩
    obtain ⟨e, he, window, hk⟩ := h.origin m hm hchain hcanonical
    obtain ⟨e', hlatest, hk'⟩ := exists_latest window he
    have hchain' : e'.chainId = chainId := by
      have hm' : m.chainId = e'.chainId := congrArg BucketKey.chainId (hk.trans hk'.symm)
      rw [← hm', hchain]
    obtain ⟨reads, hread, hmem⟩ := h.metrics e' window hchain' hlatest
    exact ⟨e', window, reads, hlatest, hread, Table.eq_of_key_eq hm hmem (hk.trans hk'.symm)⟩
  · rintro ⟨e, window, reads, hlatest, hread, rfl⟩
    obtain ⟨reads', hread', hmem⟩ := h.metrics e window hchain hlatest
    rw [hread, Except.ok.injEq] at hread'
    subst hread'
    exact ⟨hmem, rfl⟩

/-- And its canonical candles. -/
theorem Computed.mem_candles_iff_latest (h : Computed f chainId s) {c : MarketCandle}
    (hchain : c.chainId = chainId) :
    c ∈ s.tables.candles ∧ c.canonical = true ↔
      ∃ e window, Latest s.events e window ∧ f.bucketCandle e window = some c := by
  constructor
  · rintro ⟨hc, hcanonical⟩
    obtain ⟨e, he, window, hcandle⟩ := h.placed c hc hchain hcanonical
    have hk := ((h.aligned e he).key_bucketCandle hcandle).1
    obtain ⟨e', hlatest, hk'⟩ := exists_latest window he
    have hchain' : e'.chainId = chainId := by
      have hc' : c.chainId = e'.chainId := congrArg BucketKey.chainId (hk.trans hk'.symm)
      rw [← hc', hchain]
    exact ⟨e', window, hlatest,
      (h.candle e' window hchain' hlatest c hcanonical (hk.trans hk'.symm)).mp hc⟩
  · rintro ⟨e, window, hlatest, hcandle⟩
    obtain ⟨hk, hcanonical⟩ := (h.aligned e hlatest.1).key_bucketCandle hcandle
    have hchain' : e.chainId = chainId := by
      have hc' : c.chainId = e.chainId := congrArg BucketKey.chainId hk
      rw [← hc', hchain]
    exact ⟨(h.candle e window hchain' hlatest c hcanonical hk).mpr hcandle, hcanonical⟩

/-- What `previousMetrics` picks: a latest row among those it reads. -/
theorem previousMetrics_spec {t : MetricsTable} {e : MetricEvent} {window : MarketWindow}
    {bucket : ℕ} {m : MarketMetrics} (h : t.previousMetrics e window bucket = some m) :
    (m ∈ t ∧ m.chainId = e.chainId ∧ m.tokenAddress = e.tokenAddress ∧
      m.quoteAssetAddress = e.quoteAddress ∧ m.window = window ∧ m.canonical = true ∧
      m.bucketStart < bucket) ∧
    ∀ m' ∈ t, m'.chainId = e.chainId → m'.tokenAddress = e.tokenAddress →
      m'.quoteAssetAddress = e.quoteAddress → m'.window = window → m'.canonical = true →
      m'.bucketStart < bucket → m'.bucketStart ≤ m.bucketStart := by
  have htrans : IsTrans MarketMetrics fun left right => right.bucketStart ≤ left.bucketStart :=
    ⟨fun _ _ _ hab hbc => Nat.le_trans hbc hab⟩
  have htotal : Std.Total fun left right : MarketMetrics =>
      right.bucketStart ≤ left.bucketStart := ⟨fun _ _ => Nat.le_total _ _⟩
  unfold MetricsTable.previousMetrics at h
  have hmem := List.mem_of_head? h
  rw [List.mem_insertionSort, List.mem_filter] at hmem
  simp only [Bool.and_eq_true, decide_eq_true_eq] at hmem
  obtain ⟨hin, ⟨⟨⟨⟨hchain, htoken⟩, hquote⟩, hwindow⟩, hcanonical⟩, hlt⟩ := hmem
  refine ⟨⟨hin, hchain, htoken, hquote, hwindow, hcanonical, hlt⟩,
    fun m' hin' hchain' htoken' hquote' hwindow' hcanonical' hlt' => ?_⟩
  obtain ⟨rest, hsorted⟩ := List.head?_eq_some_iff.mp h
  have hpairwise := List.pairwise_insertionSort
    (fun left right : MarketMetrics => right.bucketStart ≤ left.bucketStart)
    (t.rows.filter fun m => m.chainId = e.chainId && m.tokenAddress = e.tokenAddress &&
      m.quoteAssetAddress = e.quoteAddress && m.window = window && m.canonical &&
      m.bucketStart < bucket)
  rw [hsorted, List.pairwise_cons] at hpairwise
  have hmem' : m' ∈ m :: rest := by
    rw [← hsorted, List.mem_insertionSort, List.mem_filter]
    refine ⟨hin', ?_⟩
    simp only [Bool.and_eq_true, decide_eq_true_eq]
    exact ⟨⟨⟨⟨⟨hchain', htoken'⟩, hquote'⟩, hwindow'⟩, hcanonical'⟩, hlt'⟩
  rcases List.mem_cons.mp hmem' with rfl | hmem'
  · exact Nat.le_refl _
  · exact hpairwise.1 m' hmem'

/-- Where there is a row to read it picks one. -/
theorem previousMetrics_isSome {t : MetricsTable} {e : MetricEvent} {window : MarketWindow}
    {bucket : ℕ} {m : MarketMetrics} (hin : m ∈ t) (hchain : m.chainId = e.chainId)
    (htoken : m.tokenAddress = e.tokenAddress) (hquote : m.quoteAssetAddress = e.quoteAddress)
    (hwindow : m.window = window) (hcanonical : m.canonical = true)
    (hlt : m.bucketStart < bucket) : (t.previousMetrics e window bucket).isSome := by
  rw [MetricsTable.previousMetrics, List.isSome_head?]
  refine List.ne_nil_of_mem (a := m) ?_
  rw [List.mem_insertionSort, List.mem_filter]
  refine ⟨hin, ?_⟩
  simp only [Bool.and_eq_true, decide_eq_true_eq]
  exact ⟨⟨⟨⟨⟨hchain, htoken⟩, hquote⟩, hwindow⟩, hcanonical⟩, hlt⟩

/-- **Tables with the same earlier rows** have the same latest of them. -/
theorem previousMetrics_eq {t t' : MetricsTable} {e : MetricEvent} {window : MarketWindow}
    {bucket : ℕ}
    (hmethod : ∀ m ∈ t, m.chainId = e.chainId → m.canonical = true →
      m.methodologyVersion = METRICS_METHODOLOGY)
    (h : ∀ m : MarketMetrics, m.chainId = e.chainId → m.bucketStart < bucket →
      (m ∈ t ∧ m.canonical = true ↔ m ∈ t' ∧ m.canonical = true)) :
    t.previousMetrics e window bucket = t'.previousMetrics e window bucket := by
  cases hprevious : t.previousMetrics e window bucket with
  | none =>
    cases hprevious' : t'.previousMetrics e window bucket with
    | none => rfl
    | some m =>
      obtain ⟨⟨hin, hchain, htoken, hquote, hwindow, hcanonical, hlt⟩, -⟩ :=
        previousMetrics_spec hprevious'
      have hsome := previousMetrics_isSome ((h m hchain hlt).mpr ⟨hin, hcanonical⟩).1 hchain htoken
        hquote hwindow hcanonical hlt
      rw [hprevious] at hsome
      exact absurd hsome (by simp)
  | some m =>
    obtain ⟨⟨hin, hchain, htoken, hquote, hwindow, hcanonical, hlt⟩, hmax⟩ :=
      previousMetrics_spec hprevious
    have hin' := ((h m hchain hlt).mp ⟨hin, hcanonical⟩).1
    have hsome' := previousMetrics_isSome hin' hchain htoken hquote hwindow hcanonical hlt
    obtain ⟨m', hprevious'⟩ := Option.isSome_iff_exists.mp hsome'
    obtain ⟨⟨hm', hchain', htoken', hquote', hwindow', hcanonical', hlt'⟩, hmax'⟩ :=
      previousMetrics_spec hprevious'
    have hm := ((h m' hchain' hlt').mpr ⟨hm', hcanonical'⟩).1
    have hle := hmax m' hm hchain' htoken' hquote' hwindow' hcanonical' hlt'
    have hle' := hmax' m hin' hchain htoken hquote hwindow hcanonical hlt
    have hstart : m.bucketStart = m'.bucketStart := by omega
    have hkey : m.key = m'.key := by
      simp only [MarketMetrics.key, hchain, hchain', htoken, htoken', hquote, hquote', hwindow,
        hwindow', hstart, hmethod m hin hchain hcanonical, hmethod m' hm hchain' hcanonical']
    rw [hprevious', Table.eq_of_key_eq hin hm hkey]

variable {s' : MarketState}

theorem Computed.methodology (h : Computed f chainId s) {m : MarketMetrics}
    (hm : m ∈ s.tables.metrics) (hchain : m.chainId = chainId) (hcanonical : m.canonical = true) :
    m.methodologyVersion = METRICS_METHODOLOGY := by
  obtain ⟨e, -, window, hk⟩ := h.origin m hm hchain hcanonical
  exact congrArg BucketKey.methodologyVersion hk

/-- **The same latest events make the same rows**: bucket by bucket, since
metrics read those of the bucket before. -/
theorem Computed.recomputed (h : Computed f chainId s) (h' : Computed f chainId s')
    (hlatest : ∀ e window, e.chainId = chainId →
      (Latest s.events e window ↔ Latest s'.events e window)) :
    Recomputed chainId s.tables s'.tables := by
  -- The induction is on the start of the bucket.
  have hbelow : ∀ bucket, ∀ m : MarketMetrics, m.chainId = chainId → m.bucketStart < bucket →
      (m ∈ s.tables.metrics ∧ m.canonical = true ↔
        m ∈ s'.tables.metrics ∧ m.canonical = true) := by
    intro bucket
    induction bucket with
    | zero => intro m _ hlt; omega
    | succ bucket ih =>
      intro m hchain hlt
      have hsame : ∀ e window, e.chainId = chainId →
          bucketStart e.sourceTimestamp window ≤ bucket → ∀ reads,
          f.metricsOf e reads s.tables.metrics window =
            f.metricsOf e reads s'.tables.metrics window := by
        intro e window he hle reads
        refine metricsOf_congr (previousMetrics_eq (fun m hm hc => ?_) fun m hc hlt => ?_)
        · exact h.methodology hm (hc.trans he)
        · exact ih m (hc.trans he) (by omega)
      rw [h.mem_metrics_iff hchain, h'.mem_metrics_iff hchain]
      constructor
      · rintro ⟨e, window, reads, he, hread, rfl⟩
        have hle : bucketStart e.sourceTimestamp window ≤ bucket := Nat.lt_succ_iff.mp hlt
        exact ⟨e, window, reads, (hlatest e window hchain).mp he, hread,
          hsame e window hchain hle reads⟩
      · rintro ⟨e, window, reads, he, hread, rfl⟩
        have hle : bucketStart e.sourceTimestamp window ≤ bucket := Nat.lt_succ_iff.mp hlt
        exact ⟨e, window, reads, (hlatest e window hchain).mpr he, hread,
          (hsame e window hchain hle reads).symm⟩
  refine ⟨fun m hchain => hbelow (m.bucketStart + 1) m hchain (by omega), fun c hchain => ?_⟩
  have hkeyed : ∀ {s : MarketState}, Computed f chainId s → ∀ e window, Latest s.events e window →
      f.bucketCandle e window = some c → e.chainId = chainId := by
    intro s h e window he hcandle
    have hk := ((h.aligned e he.1).key_bucketCandle hcandle).1
    have hc : c.chainId = e.chainId := congrArg BucketKey.chainId hk
    rw [← hc, hchain]
  rw [h.mem_candles_iff_latest hchain, h'.mem_candles_iff_latest hchain]
  constructor
  · rintro ⟨e, window, he, hcandle⟩
    exact ⟨e, window, (hlatest e window (hkeyed h e window he hcandle)).mp he, hcandle⟩
  · rintro ⟨e, window, he, hcandle⟩
    exact ⟨e, window, (hlatest e window (hkeyed h' e window he hcandle)).mpr he, hcandle⟩

/-- **After a reorg**: the events done since are among all the chain's,
and what was there before them came before. -/
structure Replaces (chainId : ℕ) (since all : List MetricEvent) : Prop where
  among : ∀ e ∈ since, e.chainId = chainId → e ∈ all
  before : ∀ e ∈ all, e.chainId = chainId → e ∉ since → ∀ e' ∈ since, e'.pair = e.pair →
    e.Before e'

/-- The latest events are the same when every bucket got one. -/
theorem Replaces.latest_iff {since all : List MetricEvent} (h : Replaces chainId since all)
    (hall : ∀ e ∈ all, e.chainId = chainId → ∀ window, ∃ e' ∈ since, e'.key window = e.key window)
    {e : MetricEvent} {window : MarketWindow} (hchain : e.chainId = chainId) :
    Latest since e window ↔ Latest all e window := by
  have hsame : ∀ e' : MetricEvent, e'.key window = e.key window → e'.chainId = chainId := by
    intro e' hk
    have hc : e'.chainId = e.chainId := congrArg BucketKey.chainId hk
    rw [hc, hchain]
  constructor
  · rintro ⟨he, hmax⟩
    refine ⟨h.among e he hchain, fun e' he' hk hbefore => ?_⟩
    by_cases hin : e' ∈ since
    · exact hmax e' hin hk hbefore
    · have hpair := (MetricEvent.key_eq_iff.mp hk).1
      have hearlier := h.before e' he' (hsame e' hk) hin e he hpair.symm
      exact lt_asymm (MetricEvent.before_iff.mp hbefore) (MetricEvent.before_iff.mp hearlier)
  · rintro ⟨he, hmax⟩
    have hin : e ∈ since := by
      by_contra hout
      obtain ⟨e', he', hk⟩ := hall e he hchain window
      have hpair := (MetricEvent.key_eq_iff.mp hk).1
      exact hmax e' (h.among e' he' (hsame e' hk)) hk (h.before e he hchain hout e' he' hpair)
    exact ⟨hin, fun e' he' hk => hmax e' (h.among e' he' (hsame e' hk)) hk⟩

/-- **The rows come back exactly for the buckets that get an event.** -/
theorem recomputed_iff (h : Computed f chainId s) (h' : Computed f chainId s')
    (hreplaces : Replaces chainId s.events s'.events) :
    Recomputed chainId s.tables s'.tables ↔
      ∀ e ∈ s'.events, e.chainId = chainId → ∀ window, ∃ e' ∈ s.events,
        e'.key window = e.key window := by
  constructor
  · intro hrows e he hchain window
    obtain ⟨e', hlatest, hk⟩ := exists_latest window he
    have hchain' : e'.chainId = chainId := by
      have hc : e'.chainId = e.chainId := congrArg BucketKey.chainId hk
      rw [hc, hchain]
    obtain ⟨reads, -, hmem⟩ := h'.metrics e' window hchain' hlatest
    obtain ⟨hin, hcanonical⟩ := (hrows.metrics _ hchain').mpr ⟨hmem, rfl⟩
    obtain ⟨e'', he'', window', hk'⟩ := h.origin _ hin hchain' hcanonical
    have hkey : e'.key window = e''.key window' := hk'
    obtain ⟨-, rfl, -⟩ := MetricEvent.key_eq_iff.mp hkey
    exact ⟨e'', he'', hkey.symm.trans hk⟩
  · intro hall
    exact h.recomputed h' fun e window hchain => hreplaces.latest_iff hall hchain

end MetricFacts

/-- **What a reorg does to the stored aggregates.** From any tables, it
touches exactly what it invalidates, and the jobs after it bring the rows
back to a recomputation, exactly when every canonical row of the chain has
a source in the range and every bucket gets an event after the reorg. -/
theorem reorg_iff {f f' : MetricFacts} {t : MarketTables} {chainId fromBlock toBlock : ℕ}
    {s s' : MarketState}
    (hs : (marketMachine f' (f.reorgTables t chainId fromBlock toBlock)).Reaches f'.InOrder s)
    (hs' : (marketMachine f' ⟨∅, ∅⟩).Reaches f'.InOrder s')
    (hreplaces : Replaces chainId s.events s'.events) :
    (TouchesExactly f t chainId fromBlock toBlock ∧ Recomputed chainId s.tables s'.tables) ↔
      ((∀ m ∈ t.metrics, m.canonical = true → m.chainId = chainId →
          f.HasSource chainId fromBlock toBlock m.key) ∧
        ∀ c ∈ t.candles, c.canonical = true → c.chainId = chainId →
          f.HasSource chainId fromBlock toBlock c.key) ∧
      ∀ e ∈ s'.events, e.chainId = chainId → ∀ window, ∃ e' ∈ s.events,
        e'.key window = e.key window := by
  have hcomputed := Computed.of_reaches blank_reorgTables hs
  have hcomputed' : Computed f' chainId s' :=
    Computed.of_reaches ⟨fun m hm => absurd hm (Table.notMem_empty m),
      fun c hc => absurd hc (Table.notMem_empty c)⟩ hs'
  rw [touchesExactly_iff, recomputed_iff hcomputed hcomputed' hreplaces]

/-! ## A sample reorg -/

/-- Nothing has been done since the reorg. -/
theorem replaces_nil {chainId : ℕ} {all : List MetricEvent} : Replaces chainId [] all where
  among _ he _ := absurd he List.not_mem_nil
  before _ _ _ _ _ he' _ := absurd he' List.not_mem_nil

/-- Here the reorg is of a block nothing was made of, and no job follows
it. -/
theorem reorg_sample :
    (TouchesExactly sample sampleState.tables MAINNET_CHAIN_ID 5 5 ∧
      Recomputed MAINNET_CHAIN_ID (sample.reorgTables sampleState.tables MAINNET_CHAIN_ID 5 5)
        sampleState.tables) ↔
      ((∀ m ∈ sampleState.tables.metrics, m.canonical = true → m.chainId = MAINNET_CHAIN_ID →
          sample.HasSource MAINNET_CHAIN_ID 5 5 m.key) ∧
        ∀ c ∈ sampleState.tables.candles, c.canonical = true → c.chainId = MAINNET_CHAIN_ID →
          sample.HasSource MAINNET_CHAIN_ID 5 5 c.key) ∧
      ∀ e ∈ sampleState.events, e.chainId = MAINNET_CHAIN_ID → ∀ window, ∃ e' ∈ [],
        MetricEvent.key e' window = e.key window :=
  reorg_iff (s := ⟨sample.reorgTables sampleState.tables MAINNET_CHAIN_ID 5 5, []⟩) (.init rfl)
    reaches_sampleState replaces_nil

/-- **A reorg of a block without trades clears every candle and every
metrics row** of the chain. -/
theorem not_reorg :
    ¬∀ (f f' : MetricFacts) (t : MarketTables) (chainId fromBlock toBlock : ℕ)
      (s s' : MarketState),
      (marketMachine f' (f.reorgTables t chainId fromBlock toBlock)).Reaches f'.InOrder s →
      (marketMachine f' ⟨∅, ∅⟩).Reaches f'.InOrder s' → Replaces chainId s.events s'.events →
      TouchesExactly f t chainId fromBlock toBlock ∧ Recomputed chainId s.tables s'.tables := by
  intro h
  have htouches := (h sample sample sampleState.tables MAINNET_CHAIN_ID 5 5
    ⟨sample.reorgTables sampleState.tables MAINNET_CHAIN_ID 5 5, []⟩ sampleState (.init rfl)
    reaches_sampleState replaces_nil).1
  have hrow : (sampleState.tables.metrics.rows.head?.map fun m => (m.chainId, m.canonical)) =
      some (MAINNET_CHAIN_ID, true) := by decide +kernel
  obtain ⟨m, hm, hfields⟩ := Option.map_eq_some_iff.mp hrow
  rw [Prod.mk.injEq] at hfields
  obtain ⟨hchain, hcanonical⟩ := hfields
  have hnone : ¬sample.HasSource MAINNET_CHAIN_ID 5 5 m.key := by
    rintro ⟨-, ⟨o, ho, -, -, -, -, -, n, hn, hfrom, hto⟩ | ⟨s, hs, b, -, -, -, -, -, -, -, -,
      hfrom, hto⟩⟩
    · have hblocks : ∀ o ∈ sample.observations.rows, ∀ n ∈ o.sourceBlockNumber, n < 5 := by
        decide +kernel
      have hlt := hblocks o ho n hn
      omega
    · have hblocks : ∀ s ∈ sample.swaps.rows, s.blockNumber < 5 := by decide +kernel
      have hlt := hblocks s hs
      omega
  have hin := (htouches.metrics m (List.mem_of_head? hm) hcanonical).mpr hnone
  exact ((mem_reorgTables_metrics hcanonical).mp hin).2 hchain

end HoodSentry
