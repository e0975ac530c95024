import HoodSentry.Common.Lists
import HoodSentry.Worker.Model.MarketMetric
/-!
# Market metrics are as of the last job

A job recomputes its bucket as of its own event and stores what it gets,
whatever is stored. So the rows are those of the facts when the jobs of a
pair come in the order of their events and observations carry the time of
their source, and in general only then.
-/

namespace HoodSentry

/-! ## Buckets -/

/-- Buckets follow one another. -/
theorem bucketStart_mono {a b : ℕ} (h : a ≤ b) (window : MarketWindow) :
    bucketStart a window ≤ bucketStart b window := by
  have hseconds : epochSeconds a ≤ epochSeconds b := Nat.div_le_div_right h
  have hquotient : epochSeconds a / MARKET_WINDOWS window ≤
      epochSeconds b / MARKET_WINDOWS window := Nat.div_le_div_right hseconds
  exact Nat.mul_le_mul_right 1000 (Nat.mul_le_mul_right (MARKET_WINDOWS window) hquotient)

/-! ## Events -/

namespace MetricEvent

/-- The pair of an event. -/
def pair (e : MetricEvent) : ℕ × Address × Address := (e.chainId, e.tokenAddress, e.quoteAddress)

/-- The row of a window an event's metrics and candle are stored in. -/
def key (e : MetricEvent) (window : MarketWindow) : BucketKey :=
  ⟨e.chainId, e.tokenAddress, e.quoteAddress, window, bucketStart e.sourceTimestamp window,
    METRICS_METHODOLOGY⟩

/-- **The order of events**: by time, and by block within one. -/
def Before (e e' : MetricEvent) : Prop :=
  e.sourceTimestamp < e'.sourceTimestamp ∨
    e.sourceTimestamp = e'.sourceTimestamp ∧ e.blockNumber < e'.blockNumber

instance (e e' : MetricEvent) : Decidable (e.Before e') :=
  inferInstanceAs (Decidable (_ ∨ _))

variable {e e' : MetricEvent} {window window' : MarketWindow}

theorem Before.le (h : e.Before e') : e.sourceTimestamp ≤ e'.sourceTimestamp := by
  rcases h with h | ⟨h, -⟩ <;> omega

theorem key_eq_iff : e.key window = e'.key window' ↔ e.pair = e'.pair ∧ window = window' ∧
    bucketStart e.sourceTimestamp window = bucketStart e'.sourceTimestamp window' := by
  simp only [key, pair, BucketKey.mk.injEq, Prod.mk.injEq]
  tauto

end MetricEvent

/-- **A latest event of its bucket** among those done. -/
def Latest (events : List MetricEvent) (e : MetricEvent) (window : MarketWindow) : Prop :=
  e ∈ events ∧ ∀ e' ∈ events, e'.key window = e.key window → ¬e.Before e'

/-! ## Candles -/

section Candles

variable {observations : List PriceObservationRow} {window : MarketWindow} {methodology : String}

/-- What a candle is stored under: the pair and the bucket of one of the
observations it counts. -/
structure CandleFrom (observations : List PriceObservationRow) (window : MarketWindow)
    (methodology : String) (first : PriceObservationRow) (candle : MarketCandle) : Prop where
  mem : first ∈ observations
  usable : first.usable = true
  canonical : candle.canonical = true
  key_eq : candle.key = ⟨first.chainId, first.tokenAddress, first.quoteAssetAddress, window,
    bucketStart first.sourceTimestamp window, methodology⟩

/-- Without a usable observation there is no candle. -/
theorem aggregateCandle_of_unusable (h : ∀ o ∈ observations, o.usable = false) :
    aggregateCandle observations window methodology = some none := by
  have hnil : observations.filter (·.usable) = [] :=
    List.filter_eq_nil_iff.mpr fun o ho => by simp [h o ho]
  simp only [aggregateCandle, hnil, List.insertionSort_nil, List.head?_nil]

/-- **With one, and all in one scale, there is a candle.** -/
theorem aggregateCandle_of_usable
    (hscale : ∀ o ∈ observations, ∀ o' ∈ observations, o.usable = true → o'.usable = true →
      o.priceDecimals = o'.priceDecimals)
    {o : PriceObservationRow} (ho : o ∈ observations) (husable : o.usable = true) :
    ∃ first candle, CandleFrom observations window methodology first candle ∧
      aggregateCandle observations window methodology = some (some candle) := by
  have hmem : ∀ o ∈ (observations.filter (·.usable)).insertionSort (fun left right =>
      epochSeconds left.sourceTimestamp ≤ epochSeconds right.sourceTimestamp),
      o ∈ observations ∧ o.usable = true := by
    intro o ho
    rw [List.mem_insertionSort, List.mem_filter] at ho
    exact ho
  have hprice : ∀ o : PriceObservationRow, o.usable = true → ∃ price, o.priceRaw = some price := by
    intro o ho
    simp only [PriceObservationRow.usable, Bool.and_eq_true] at ho
    exact Option.isSome_iff_exists.mp ho.1.2
  unfold aggregateCandle
  cases hsorted : (observations.filter (·.usable)).insertionSort (fun left right =>
      epochSeconds left.sourceTimestamp ≤ epochSeconds right.sourceTimestamp) with
  | nil =>
    have hin : o ∈ (observations.filter (·.usable)).insertionSort (fun left right =>
        epochSeconds left.sourceTimestamp ≤ epochSeconds right.sourceTimestamp) := by
      rw [List.mem_insertionSort, List.mem_filter]
      exact ⟨ho, husable⟩
    rw [hsorted] at hin
    exact absurd hin List.not_mem_nil
  | cons first rest =>
    rw [hsorted] at hmem
    obtain ⟨hfirst, hfirst_usable⟩ := hmem first List.mem_cons_self
    have hlast : (first :: rest).getLast? = some ((first :: rest).getLast (by simp)) :=
      List.getLast?_eq_some_getLast (by simp)
    obtain ⟨opening, hopening⟩ := hprice first hfirst_usable
    obtain ⟨closing, hclosing⟩ := hprice _ (hmem _ (List.getLast_mem (by simp))).2
    have hone : (first :: rest).any (fun item => decide (item.priceDecimals ≠ first.priceDecimals)) =
        false := by
      rw [List.any_eq_false]
      intro o ho
      have hsame := hscale o (hmem o ho).1 first hfirst (hmem o ho).2 hfirst_usable
      simp [hsame]
    simp only [List.head?_cons, hlast, hopening, hclosing, hone, Bool.false_eq_true, if_false]
    refine ⟨first, _, ?_, rfl⟩
    exact ⟨hfirst, hfirst_usable, rfl, rfl⟩

/-- Only the observations it counts matter to a candle. -/
theorem aggregateCandle_congr {observations' : List PriceObservationRow}
    (h : observations.filter (·.usable) = observations'.filter (·.usable)) :
    aggregateCandle observations window methodology =
      aggregateCandle observations' window methodology := by
  unfold aggregateCandle
  rw [h]

end Candles

/-! ## A bucket's facts -/

/-- An observation the candles of an event's pair count. -/
structure MetricEvent.Counts (e : MetricEvent) (o : PriceObservationRow) : Prop where
  chainId : o.chainId = e.chainId
  tokenAddress : o.tokenAddress = e.tokenAddress
  quoteAssetAddress : o.quoteAssetAddress = e.quoteAddress
  usable : o.usable = true

namespace MetricFacts

variable (f : MetricFacts)

/-- **The observations of an event's bucket**, by the time of their
source, up to the event's. -/
def bucketObservations (e : MetricEvent) (window : MarketWindow) : List PriceObservationRow :=
  (f.observations.rows.filter fun r =>
    r.chainId = e.chainId && r.tokenAddress = e.tokenAddress &&
      r.quoteAssetAddress = e.quoteAddress &&
      bucketStart r.sourceTimestamp window = bucketStart e.sourceTimestamp window &&
      r.sourceTimestamp ≤ e.sourceTimestamp && r.canonical).insertionSort
    fun left right => left.observedAt ≤ right.observedAt

/-- The candle of these. -/
def bucketCandle (e : MetricEvent) (window : MarketWindow) : Option MarketCandle :=
  (aggregateCandle (f.bucketObservations e window) window METRICS_METHODOLOGY).join

/-- **The facts fit an event**: in every window the observations made
between the start of the bucket and the event are those of the bucket up
to the event, and they are in one scale. -/
structure Aligned (e : MetricEvent) : Prop where
  observed : ∀ o ∈ f.observations, e.Counts o → ∀ window : MarketWindow,
    (bucketStart e.sourceTimestamp window ≤ o.observedAt ∧ o.observedAt ≤ e.sourceTimestamp ↔
      bucketStart o.sourceTimestamp window = bucketStart e.sourceTimestamp window ∧
        o.sourceTimestamp ≤ e.sourceTimestamp)
  scale : ∀ window : MarketWindow, ∀ o ∈ f.bucketObservations e window,
    ∀ o' ∈ f.bucketObservations e window, o.usable = true → o'.usable = true →
      o.priceDecimals = o'.priceDecimals

variable {f} {e : MetricEvent} {window : MarketWindow}

theorem mem_bucketObservations {o : PriceObservationRow} (husable : o.usable = true) :
    o ∈ f.bucketObservations e window ↔ o ∈ f.observations ∧ e.Counts o ∧
      bucketStart o.sourceTimestamp window = bucketStart e.sourceTimestamp window ∧
      o.sourceTimestamp ≤ e.sourceTimestamp := by
  have hcanonical : o.canonical = true := by
    simp only [PriceObservationRow.usable, Bool.and_eq_true] at husable
    exact husable.1.1
  rw [bucketObservations, List.mem_insertionSort, List.mem_filter]
  simp only [Bool.and_eq_true, decide_eq_true_eq]
  constructor
  · rintro ⟨hmem, ⟨⟨⟨⟨hchain, htoken⟩, hquote⟩, hbucket⟩, hle⟩, -⟩
    exact ⟨hmem, ⟨hchain, htoken, hquote, husable⟩, hbucket, hle⟩
  · rintro ⟨hmem, hcounts, hbucket, hle⟩
    exact ⟨hmem, ⟨⟨⟨⟨hcounts.chainId, hcounts.tokenAddress⟩, hcounts.quoteAssetAddress⟩, hbucket⟩,
      hle⟩, hcanonical⟩

/-- Aligned facts leave nothing to tell the two selections apart. -/
theorem Aligned.history_eq (h : f.Aligned e) :
    (f.history e (bucketStart e.sourceTimestamp window)).filter (·.usable) =
      (f.bucketObservations e window).filter (·.usable) := by
  have htrans : IsTrans PriceObservationRow fun left right => left.observedAt ≤ right.observedAt :=
    ⟨fun _ _ _ => Nat.le_trans⟩
  have htotal : Std.Total fun left right : PriceObservationRow =>
      left.observedAt ≤ right.observedAt := ⟨fun _ _ => Nat.le_total _ _⟩
  rw [history, PriceTable.getPriceHistory, bucketObservations, filter_insertionSort,
    filter_insertionSort, List.filter_filter, List.filter_filter]
  refine congrArg _ (List.filter_congr fun o ho => ?_)
  cases husable : o.usable with
  | false => rfl
  | true =>
    by_cases hpair : o.chainId = e.chainId ∧ o.tokenAddress = e.tokenAddress ∧
        o.quoteAssetAddress = e.quoteAddress
    · obtain ⟨hchain, htoken, hquote⟩ := hpair
      have hsame := h.observed o ho ⟨hchain, htoken, hquote, husable⟩ window
      simp only [hchain, htoken, hquote, decide_true, Bool.true_and, ← Bool.decide_and, hsame]
    · have hnot : (decide (o.chainId = e.chainId) && decide (o.tokenAddress = e.tokenAddress) &&
          decide (o.quoteAssetAddress = e.quoteAddress)) = false := by
        simpa [Bool.and_eq_false_iff, and_assoc] using hpair
      simp only [hnot, Bool.false_and]

/-- **So the job's candle is the bucket's**, and nothing throws. -/
theorem Aligned.candleOf_eq (h : f.Aligned e) :
    f.candleOf e window = some (f.bucketCandle e window) := by
  rw [candleOf, aggregateCandle_congr h.history_eq, bucketCandle]
  by_cases hany : ∃ o ∈ f.bucketObservations e window, o.usable = true
  · obtain ⟨o, ho, husable⟩ := hany
    obtain ⟨_, candle, -, hcandle⟩ := aggregateCandle_of_usable (h.scale window) ho husable
    rw [hcandle]
    rfl
  · have hnone : ∀ o ∈ f.bucketObservations e window, o.usable = false := by
      intro o ho
      rw [Bool.eq_false_iff]
      exact fun husable => hany ⟨o, ho, husable⟩
    rw [aggregateCandle_of_unusable hnone]
    rfl

theorem exists_usable_of_bucketCandle {candle : MarketCandle}
    (h : f.bucketCandle e window = some candle) :
    ∃ o ∈ f.bucketObservations e window, o.usable = true := by
  by_contra hnone
  have hunusable : ∀ o ∈ f.bucketObservations e window, o.usable = false := by
    intro o ho
    rw [Bool.eq_false_iff]
    exact fun husable => hnone ⟨o, ho, husable⟩
  rw [bucketCandle, aggregateCandle_of_unusable hunusable] at h
  exact absurd h (by simp)

/-- A bucket with something to count has a candle, stored under it. -/
theorem Aligned.exists_bucketCandle (h : f.Aligned e) {o : PriceObservationRow}
    (ho : o ∈ f.bucketObservations e window) (husable : o.usable = true) :
    ∃ candle, f.bucketCandle e window = some candle := by
  obtain ⟨_, candle, -, hcandle⟩ := aggregateCandle_of_usable (h.scale window) ho husable
  exact ⟨candle, by rw [bucketCandle, hcandle]; rfl⟩

theorem Aligned.key_bucketCandle (h : f.Aligned e) {candle : MarketCandle}
    (hcandle : f.bucketCandle e window = some candle) :
    candle.key = e.key window ∧ candle.canonical = true := by
  obtain ⟨o, ho, husable⟩ := exists_usable_of_bucketCandle hcandle
  obtain ⟨first, candle', hfrom, hsome⟩ := aggregateCandle_of_usable (h.scale window) ho husable
  rw [bucketCandle, hsome] at hcandle
  obtain rfl : candle' = candle := Option.some.inj hcandle
  obtain ⟨-, hcounts, hbucket, -⟩ := (mem_bucketObservations hfrom.usable).mp hfrom.mem
  refine ⟨?_, hfrom.canonical⟩
  rw [hfrom.key_eq, hcounts.chainId, hcounts.tokenAddress, hcounts.quoteAssetAddress, hbucket]
  rfl

/-! ## One job -/

variable {reads : MetricReads} {t t' : MarketTables}

theorem key_metricsOf {m : MetricsTable} :
    (f.metricsOf e reads m window).key = e.key window := rfl

/-- **What a bucket's metrics read of the stored ones**: those of earlier
buckets of the pair and window. -/
theorem previousMetrics_put {m : MetricsTable} {row : MarketMetrics} {e' : MetricEvent}
    {window' : MarketWindow} (hkey : row.key = e'.key window')
    (h : e'.pair = e.pair → window' = window →
      bucketStart e.sourceTimestamp window ≤ bucketStart e'.sourceTimestamp window) :
    (m.saveMetrics row).previousMetrics e window (bucketStart e.sourceTimestamp window) =
      m.previousMetrics e window (bucketStart e.sourceTimestamp window) := by
  unfold MetricsTable.previousMetrics MetricsTable.saveMetrics
  rw [Table.filter_rows_put]
  intro x hx
  rw [hkey] at hx
  simp only [MarketMetrics.key, MetricEvent.key, BucketKey.mk.injEq] at hx
  obtain ⟨hchain, htoken, hquote, hwindow, hstart, -⟩ := hx
  by_contra hread
  simp only [Bool.not_eq_false, Bool.and_eq_true, decide_eq_true_eq] at hread
  obtain ⟨⟨⟨⟨⟨hc, ht⟩, hq⟩, hw⟩, -⟩, hlt⟩ := hread
  have hsame : window' = window := hwindow.symm.trans hw
  have hpair : e'.pair = e.pair := by
    simp only [MetricEvent.pair, ← hchain, ← htoken, ← hquote, hc, ht, hq]
  have hle := h hpair hsame
  subst hsame
  omega

theorem metricsOf_congr {m m' : MetricsTable}
    (h : m.previousMetrics e window (bucketStart e.sourceTimestamp window) =
      m'.previousMetrics e window (bucketStart e.sourceTimestamp window)) :
    f.metricsOf e reads m window = f.metricsOf e reads m' window := by
  simp only [metricsOf, h]

/-- **What some windows of a job leave** of the tables. -/
structure Processed (f : MetricFacts) (e : MetricEvent) (reads : MetricReads)
    (windows : List MarketWindow) (t t' : MarketTables) : Prop where
  metrics : ∀ m, m ∈ t'.metrics ↔ (∃ window ∈ windows, m = f.metricsOf e reads t.metrics window) ∨
    m ∈ t.metrics ∧ ∀ window ∈ windows, m.key ≠ e.key window
  candles : ∀ c, c ∈ t'.candles ↔ (∃ window ∈ windows, f.bucketCandle e window = some c) ∨
    c ∈ t.candles ∧ ∀ window ∈ windows, (f.bucketCandle e window).isSome → c.key ≠ e.key window
  previous : ∀ (e' : MetricEvent) (window' : MarketWindow),
    (e.pair = e'.pair → bucketStart e'.sourceTimestamp window' ≤
      bucketStart e.sourceTimestamp window') →
    t'.metrics.previousMetrics e' window' (bucketStart e'.sourceTimestamp window') =
      t.metrics.previousMetrics e' window' (bucketStart e'.sourceTimestamp window')

/-- One window: its candle and its metrics. -/
theorem Aligned.processWindow_eq (h : f.Aligned e) :
    f.processWindow e reads t window = some
      { candles := (f.bucketCandle e window).elim t.candles t.candles.saveCandle
        metrics := t.metrics.saveMetrics (f.metricsOf e reads t.metrics window) } := by
  rw [processWindow, h.candleOf_eq, Option.map_some]

theorem mem_elim_saveCandle {candles : CandleTable} {candle : Option MarketCandle}
    {c : MarketCandle} : c ∈ candle.elim candles candles.saveCandle ↔
      candle = some c ∨ c ∈ candles ∧ ∀ c' ∈ candle, c.key ≠ c'.key := by
  cases candle with
  | none => simp
  | some c' =>
    rw [Option.elim_some, CandleTable.saveCandle, Table.mem_put]
    simp only [Option.some.injEq, Option.mem_def, forall_eq']
    rw [or_comm, eq_comm]

/-- **All windows, one after the other**: none reads what another wrote. -/
theorem Aligned.processWindows_spec (h : f.Aligned e) {windows : List MarketWindow}
    (hnodup : windows.Nodup) :
    ∃ t', f.processWindows e reads windows t = (t', none) ∧ Processed f e reads windows t t' := by
  induction windows generalizing t with
  | nil => exact ⟨t, rfl, by simp, by simp, fun _ _ _ => rfl⟩
  | cons w windows ih =>
    obtain ⟨hw, hnodup⟩ := List.nodup_cons.mp hnodup
    rw [processWindows, h.processWindow_eq]
    obtain ⟨t', ht', hdone⟩ := ih (t := {
      candles := (f.bucketCandle e w).elim t.candles t.candles.saveCandle
      metrics := t.metrics.saveMetrics (f.metricsOf e reads t.metrics w) }) hnodup
    refine ⟨t', ht', ⟨fun m => ?_, fun c => ?_, fun e' window' hbucket => ?_⟩⟩
    · have hsame : ∀ window ∈ windows, f.metricsOf e reads
          (t.metrics.saveMetrics (f.metricsOf e reads t.metrics w)) window =
            f.metricsOf e reads t.metrics window := fun window _ =>
        metricsOf_congr (previousMetrics_put key_metricsOf fun _ _ => Nat.le_refl _)
      have hrow : ∀ window ∈ windows, (f.metricsOf e reads t.metrics w).key ≠ e.key window := by
        intro window hwindow hk
        obtain ⟨-, rfl, -⟩ := MetricEvent.key_eq_iff.mp hk
        exact hw hwindow
      rw [hdone.metrics, MetricsTable.saveMetrics, Table.mem_put]
      constructor
      · rintro (⟨window, hwindow, rfl⟩ | ⟨⟨hm, hne⟩ | rfl, hothers⟩)
        · exact Or.inl ⟨window, List.mem_cons_of_mem _ hwindow, hsame window hwindow⟩
        · exact Or.inr ⟨hm, List.forall_mem_cons.mpr ⟨hne, hothers⟩⟩
        · exact Or.inl ⟨w, List.mem_cons_self, rfl⟩
      · rintro (⟨window, hwindow, rfl⟩ | ⟨hm, hall⟩)
        · rcases List.mem_cons.mp hwindow with rfl | hwindow
          · exact Or.inr ⟨Or.inr rfl, hrow⟩
          · exact Or.inl ⟨window, hwindow, (hsame window hwindow).symm⟩
        · obtain ⟨hne, hothers⟩ := List.forall_mem_cons.mp hall
          exact Or.inr ⟨Or.inl ⟨hm, hne⟩, hothers⟩
    · have hkey : ∀ c, f.bucketCandle e w = some c → c.key = e.key w :=
        fun c hc => (h.key_bucketCandle hc).1
      rw [hdone.candles, mem_elim_saveCandle]
      constructor
      · rintro (⟨window, hwindow, hc⟩ | ⟨hc | ⟨hc, hne⟩, hothers⟩)
        · exact Or.inl ⟨window, List.mem_cons_of_mem _ hwindow, hc⟩
        · exact Or.inl ⟨w, List.mem_cons_self, hc⟩
        · refine Or.inr ⟨hc, List.forall_mem_cons.mpr ⟨fun hsome => ?_, hothers⟩⟩
          obtain ⟨c', hc'⟩ := Option.isSome_iff_exists.mp hsome
          exact fun hk => hne c' hc' (hk.trans (hkey c' hc').symm)
      · rintro (⟨window, hwindow, hc⟩ | ⟨hc, hall⟩)
        · rcases List.mem_cons.mp hwindow with rfl | hwindow
          · refine Or.inr ⟨Or.inl hc, fun window' hwindow' _ hk => hw ?_⟩
            rw [hkey c hc] at hk
            obtain ⟨-, rfl, -⟩ := MetricEvent.key_eq_iff.mp hk
            exact hwindow'
          · exact Or.inl ⟨window, hwindow, hc⟩
        · obtain ⟨hne, hothers⟩ := List.forall_mem_cons.mp hall
          refine Or.inr ⟨Or.inr ⟨hc, fun c' hc' => ?_⟩, hothers⟩
          rw [hkey c' hc']
          exact hne (by rw [hc']; rfl)
    · rw [hdone.previous e' window' hbucket]
      exact previousMetrics_put key_metricsOf fun hpair _ => hbucket hpair

variable (f) in
/-- **Jobs in order**: a job's event has aligned facts, and the events of
its pair already done are earlier or itself. -/
def InOrder (s : MarketState) (job : PoolMarketJob) : Prop :=
  ∀ loaded, f.loadVerifiedPoolPricingContext job = .ok (some loaded) →
    f.Aligned loaded.metricEvent ∧ ∀ e ∈ s.events, e.pair = loaded.metricEvent.pair →
      e = loaded.metricEvent ∨ e.Before loaded.metricEvent

/-- **What a job in order does**: nothing, or all its windows and its
event. -/
theorem step_cases {t0 : MarketTables} {s s' : MarketState} {job : PoolMarketJob}
    (hC : f.InOrder s job) (hs : (marketMachine f t0).step s job = some s') :
    s' = s ∨ ∃ e reads, f.Aligned e ∧ (∀ e' ∈ s.events, e'.pair = e.pair → e' = e ∨ e'.Before e) ∧
      f.readMetricContext e = .ok reads ∧ s'.events = s.events ++ [e] ∧
      Processed f e reads WINDOWS s.tables s'.tables := by
  simp only [marketMachine, Option.some.injEq] at hs
  unfold processMarketMetric at hs
  cases hload : f.loadVerifiedPoolPricingContext job with
  | error err =>
    rw [hload] at hs
    exact Or.inl hs.symm
  | ok loaded =>
    cases loaded with
    | none =>
      rw [hload] at hs
      exact Or.inl hs.symm
    | some loaded =>
      obtain ⟨haligned, horder⟩ := hC loaded hload
      rw [hload] at hs
      dsimp only at hs
      cases hread : f.readMetricContext loaded.metricEvent with
      | error err =>
        rw [hread] at hs
        exact Or.inl hs.symm
      | ok reads =>
        have hnodup : WINDOWS.Nodup := by decide
        obtain ⟨t', ht', hdone⟩ :
            ∃ t', f.processWindows loaded.metricEvent reads WINDOWS s.tables = (t', none) ∧
              Processed f loaded.metricEvent reads WINDOWS s.tables t' :=
          haligned.processWindows_spec hnodup
        rw [hread] at hs
        dsimp only at hs
        rw [ht'] at hs
        subst hs
        exact Or.inr ⟨loaded.metricEvent, reads, haligned, horder, hread, rfl, hdone⟩

/-! ## Runs -/

/-- No row of a chain is canonical. -/
def Blank (t : MarketTables) (chainId : ℕ) : Prop :=
  (∀ m ∈ t.metrics, m.chainId = chainId → m.canonical = false) ∧
    ∀ c ∈ t.candles, c.chainId = chainId → c.canonical = false

/-- **The canonical rows of a chain are those of the facts**, as of the
events done. -/
structure Computed (f : MetricFacts) (chainId : ℕ) (s : MarketState) : Prop where
  metrics : ∀ e window, e.chainId = chainId → Latest s.events e window →
    ∃ reads, f.readMetricContext e = .ok reads ∧
      f.metricsOf e reads s.tables.metrics window ∈ s.tables.metrics
  candle : ∀ e window, e.chainId = chainId → Latest s.events e window →
    ∀ c : MarketCandle, c.canonical = true → c.key = e.key window →
      (c ∈ s.tables.candles ↔ f.bucketCandle e window = some c)
  aligned : ∀ e ∈ s.events, f.Aligned e
  placed : ∀ c ∈ s.tables.candles, c.chainId = chainId → c.canonical = true →
    ∃ e ∈ s.events, ∃ window, f.bucketCandle e window = some c
  origin : ∀ m ∈ s.tables.metrics, m.chainId = chainId → m.canonical = true →
    ∃ e ∈ s.events, ∃ window, m.key = e.key window

theorem mem_WINDOWS (window : MarketWindow) : window ∈ WINDOWS := by cases window <;> decide

/-- The candle a job leaves in its own bucket: one an earlier event left
there counts an observation, so this one's does too and replaces it. -/
theorem Computed.mem_candles_iff {chainId : ℕ} {s : MarketState} (h : Computed f chainId s)
    (haligned : f.Aligned e)
    (horder : ∀ e' ∈ s.events, e'.pair = e.pair → e' = e ∨ e'.Before e)
    (hdone : Processed f e reads WINDOWS s.tables t') (hchain : e.chainId = chainId)
    {c : MarketCandle} (hcanonical : c.canonical = true) (hkey : c.key = e.key window) :
    c ∈ t'.candles ↔ f.bucketCandle e window = some c := by
  rw [hdone.candles]
  constructor
  · rintro (⟨window', -, hc⟩ | ⟨hc, hnone⟩)
    · obtain ⟨-, rfl, -⟩ := MetricEvent.key_eq_iff.mp
        ((haligned.key_bucketCandle hc).1.symm.trans hkey)
      exact hc
    · have hchain' : c.chainId = chainId := by
        have hc' : c.chainId = e.chainId := congrArg BucketKey.chainId hkey
        rw [hc', hchain]
      obtain ⟨e', he', window', hc'⟩ := h.placed c hc hchain' hcanonical
      have hkey' := ((h.aligned e' he').key_bucketCandle hc').1
      obtain ⟨hpair, rfl, hstart⟩ := MetricEvent.key_eq_iff.mp (hkey'.symm.trans hkey)
      obtain ⟨o, ho, husable⟩ := exists_usable_of_bucketCandle hc'
      obtain ⟨hmem, hcounts, hin, hle⟩ := (mem_bucketObservations husable).mp ho
      have hle' : e'.sourceTimestamp ≤ e.sourceTimestamp := by
        rcases horder e' he' hpair with rfl | hbefore
        · exact Nat.le_refl _
        · exact hbefore.le
      have hcounts' : e.Counts o := by
        simp only [MetricEvent.pair, Prod.mk.injEq] at hpair
        obtain ⟨hc1, hc2, hc3⟩ := hpair
        exact ⟨hcounts.chainId.trans hc1, hcounts.tokenAddress.trans hc2,
          hcounts.quoteAssetAddress.trans hc3, husable⟩
      obtain ⟨c', hc'⟩ := haligned.exists_bucketCandle ((mem_bucketObservations husable).mpr
        ⟨hmem, hcounts', hin.trans hstart, hle.trans hle'⟩) husable
      exact absurd hkey (hnone window' (mem_WINDOWS window') (by rw [hc']; rfl))
  · intro hc
    exact Or.inl ⟨window, mem_WINDOWS window, hc⟩

/-- **The step**: a job in order keeps the rows those of the facts. -/
theorem Computed.step {t0 : MarketTables} {chainId : ℕ} {s s' : MarketState} {job : PoolMarketJob}
    (h : Computed f chainId s) (hC : f.InOrder s job)
    (hs : (marketMachine f t0).step s job = some s') : Computed f chainId s' := by
  rcases step_cases hC hs with rfl | ⟨e, reads, haligned, horder, hread, hevents, hdone⟩
  · exact h
  -- An event done before is latest in another bucket, or is this one.
  have hother : ∀ e' window, Latest s'.events e' window → e' ≠ e →
      Latest s.events e' window ∧ e'.key window ≠ e.key window := by
    intro e' window hlatest hne
    rw [hevents] at hlatest
    have hin : e' ∈ s.events := by
      rcases List.mem_append.mp hlatest.1 with hin | hin
      · exact hin
      · exact absurd (List.mem_singleton.mp hin) hne
    refine ⟨⟨hin, fun e'' he'' => hlatest.2 e'' (List.mem_append_left _ he'')⟩, fun hk => ?_⟩
    obtain ⟨hpair, -, -⟩ := MetricEvent.key_eq_iff.mp hk
    rcases horder e' hin hpair with heq | hbefore
    · exact hne heq
    · exact hlatest.2 e (List.mem_append_right _ (List.mem_singleton_self e)) hk.symm hbefore
  have hbucket : ∀ e' ∈ s.events, e'.pair = e.pair → ∀ window,
      bucketStart e'.sourceTimestamp window ≤ bucketStart e.sourceTimestamp window := by
    intro e' he' hpair window
    rcases horder e' he' hpair with rfl | hbefore
    · exact Nat.le_refl _
    · exact bucketStart_mono hbefore.le window
  refine ⟨fun e' window hchain hlatest => ?_, fun e' window hchain hlatest c hcanonical hkey => ?_,
    fun e' he' => ?_, fun c hc hchain hcanonical => ?_, fun m hm hchain hcanonical => ?_⟩
  · by_cases he : e' = e
    · subst he
      refine ⟨reads, hread, ?_⟩
      rw [metricsOf_congr (hdone.previous e' window fun _ => Nat.le_refl _), hdone.metrics]
      exact Or.inl ⟨window, mem_WINDOWS window, rfl⟩
    · obtain ⟨hlatest, hne⟩ := hother e' window hlatest he
      obtain ⟨reads', hread', hmem⟩ := h.metrics e' window hchain hlatest
      refine ⟨reads', hread', ?_⟩
      rw [metricsOf_congr (hdone.previous e' window fun hpair =>
        hbucket e' hlatest.1 hpair.symm window), hdone.metrics]
      refine Or.inr ⟨hmem, fun window' _ hk => ?_⟩
      rw [key_metricsOf] at hk
      obtain ⟨-, rfl, -⟩ := MetricEvent.key_eq_iff.mp hk
      exact hne hk
  · by_cases he : e' = e
    · subst he
      exact h.mem_candles_iff haligned horder hdone hchain hcanonical hkey
    · obtain ⟨hlatest, hne⟩ := hother e' window hlatest he
      rw [hdone.candles, ← h.candle e' window hchain hlatest c hcanonical hkey]
      constructor
      · rintro (⟨window', -, hc⟩ | ⟨hc, -⟩)
        · have hk := (haligned.key_bucketCandle hc).1.symm.trans hkey
          obtain ⟨-, rfl, -⟩ := MetricEvent.key_eq_iff.mp hk
          exact absurd hk.symm hne
        · exact hc
      · intro hc
        refine Or.inr ⟨hc, fun window' _ _ hk => ?_⟩
        rw [hkey] at hk
        obtain ⟨-, rfl, -⟩ := MetricEvent.key_eq_iff.mp hk
        exact hne hk
  · rw [hevents] at he'
    rcases List.mem_append.mp he' with he' | he'
    · exact h.aligned e' he'
    · rw [List.mem_singleton.mp he']
      exact haligned
  · rw [hevents]
    rcases (hdone.candles c).mp hc with ⟨window, -, hc⟩ | ⟨hc, -⟩
    · exact ⟨e, by simp, window, hc⟩
    · obtain ⟨e', he', window, hc'⟩ := h.placed c hc hchain hcanonical
      exact ⟨e', List.mem_append_left _ he', window, hc'⟩
  · rw [hevents]
    rcases (hdone.metrics m).mp hm with ⟨window, -, rfl⟩ | ⟨hm, -⟩
    · exact ⟨e, by simp, window, rfl⟩
    · obtain ⟨e', he', window, hk⟩ := h.origin m hm hchain hcanonical
      exact ⟨e', List.mem_append_left _ he', window, hk⟩

/-- **Runs in order** leave a blank chain with the rows of the facts. -/
theorem Computed.of_reaches {t0 : MarketTables} {chainId : ℕ} {s : MarketState}
    (hblank : Blank t0 chainId) (h : (marketMachine f t0).Reaches f.InOrder s) :
    Computed f chainId s := by
  refine h.invariant (I := Computed f chainId) (fun s hs => ?_)
    fun s job s' hI hC hs => hI.step hC hs
  obtain rfl : s = ⟨t0, []⟩ := hs
  refine ⟨fun e window _ hlatest => absurd hlatest.1 List.not_mem_nil,
    fun e window _ hlatest => absurd hlatest.1 List.not_mem_nil,
    fun e he => absurd he List.not_mem_nil, fun c hc hchain hcanonical => ?_,
    fun m hm hchain hcanonical => ?_⟩
  · exact absurd (hblank.2 c hc hchain) (by rw [hcanonical]; decide)
  · exact absurd (hblank.1 m hm hchain) (by rw [hcanonical]; decide)

/-- A job in order stores canonical candles. -/
theorem canonical_of_reaches {s : MarketState}
    (h : (marketMachine f ⟨∅, ∅⟩).Reaches f.InOrder s) :
    ∀ c ∈ s.tables.candles, c.canonical = true := by
  refine h.invariant (I := fun s => ∀ c ∈ s.tables.candles, c.canonical = true)
    (fun s hs c hc => ?_) fun s job s' hI hC hs c hc => ?_
  · obtain rfl : s = ⟨⟨∅, ∅⟩, []⟩ := hs
    exact absurd hc (Table.notMem_empty c)
  · rcases step_cases hC hs with rfl | ⟨e, _, haligned, -, -, -, hdone⟩
    · exact hI c hc
    · rcases (hdone.candles c).mp hc with ⟨_, -, hc⟩ | ⟨hc, -⟩
      · exact (haligned.key_bucketCandle hc).2
      · exact hI c hc

variable (f) in
/-- **The stored rows are a function of the facts**: each is what the
latest event of its bucket makes of all the bucket's facts, and a candle
stands under the bucket of all its observations. -/
structure FunctionOfFacts (s : MarketState) : Prop where
  metrics : ∀ e window, Latest s.events e window →
    ∃ reads, f.readMetricContext e = .ok reads ∧
      f.metricsOf e reads s.tables.metrics window ∈ s.tables.metrics
  candle : ∀ e window, Latest s.events e window → ∀ c : MarketCandle, c.key = e.key window →
    (c ∈ s.tables.candles ↔ f.bucketCandle e window = some c)
  placed : ∀ c ∈ s.tables.candles, ∃ observations : List PriceObservationRow,
    (∀ o ∈ observations, bucketStart o.sourceTimestamp c.window = c.bucketStart) ∧
      aggregateCandle observations c.window METRICS_METHODOLOGY = some (some c)

/-- The pool of token 7 against USDG with two trades in one minute. -/
def samplePricing : PricingFacts where
  pools := .singleton
    ⟨MAINNET_CHAIN_ID, ⟨11⟩, 1, "uniswap", "2", ⟨7⟩, USDG, "constantProduct", true, true⟩
  dexProtocols := .singleton ⟨1, true, .active, "registry", 0, none⟩
  poolStateSnapshots := Table.empty.insertAll
    [⟨MAINNET_CHAIN_ID, ⟨11⟩, 1, ⟨1⟩, some 5000, some 10000, true⟩,
      ⟨MAINNET_CHAIN_ID, ⟨11⟩, 2, ⟨2⟩, some 4000, some 12500, true⟩]
  swaps := Table.empty.insertAll
    [⟨MAINNET_CHAIN_ID, 1, ⟨1⟩, ⟨21⟩, 0, ⟨11⟩, some ⟨1⟩, none, USDG, ⟨7⟩, 500, 250, true⟩,
      ⟨MAINNET_CHAIN_ID, 2, ⟨2⟩, ⟨22⟩, 0, ⟨11⟩, some ⟨1⟩, none, USDG, ⟨7⟩, 2500, 1000, true⟩]
  blocks := Table.empty.insertAll
    [⟨MAINNET_CHAIN_ID, 1, ⟨1⟩, ⟨0⟩, 60, .pending, true⟩,
      ⟨MAINNET_CHAIN_ID, 2, ⟨2⟩, ⟨1⟩, 70, .pending, true⟩]
  tokens := Table.empty.insertAll
    [⟨MAINNET_CHAIN_ID, ⟨7⟩, some 0⟩, ⟨MAINNET_CHAIN_ID, USDG, some 0⟩]

/-- The jobs of the first trade and of the second. -/
def firstTrade : PoolMarketJob :=
  ⟨⟨MAINNET_CHAIN_ID, 1, ⟨1⟩, ⟨11⟩⟩, some "uniswap", some "2", ⟨21⟩, 0, .swap⟩

def secondTrade : PoolMarketJob :=
  ⟨⟨MAINNET_CHAIN_ID, 2, ⟨2⟩, ⟨11⟩⟩, some "uniswap", some "2", ⟨22⟩, 0, .swap⟩

/-- The facts once both have been priced. -/
def sample : MetricFacts where
  toPricingFacts := samplePricing
  observations := samplePricing.deliverAll ∅ [firstTrade, secondTrade]
  totalSupplyRaw := fun _ _ => none

def firstEvent : MetricEvent := ⟨MAINNET_CHAIN_ID, ⟨7⟩, USDG, 0, 1, ⟨1⟩, 60000⟩

def secondEvent : MetricEvent := ⟨MAINNET_CHAIN_ID, ⟨7⟩, USDG, 0, 2, ⟨2⟩, 70000⟩

/-- The sample's observations fit its events. -/
theorem aligned_sample {e : MetricEvent}
    (h : ∀ o ∈ sample.observations.rows, ∀ window ∈ WINDOWS,
      (bucketStart e.sourceTimestamp window ≤ o.observedAt ∧ o.observedAt ≤ e.sourceTimestamp ↔
        bucketStart o.sourceTimestamp window = bucketStart e.sourceTimestamp window ∧
          o.sourceTimestamp ≤ e.sourceTimestamp)) : sample.Aligned e where
  observed o ho _ window := h o ho window (mem_WINDOWS window)
  scale window o ho o' ho' husable husable' := by
    have hscale : ∀ o ∈ sample.observations.rows, o.priceDecimals = 0 := by decide +kernel
    have hin := ((mem_bucketObservations husable).mp ho).1
    have hin' := ((mem_bucketObservations husable').mp ho').1
    rw [hscale o hin, hscale o' hin']

theorem metricEvent_of_loaded {job : PoolMarketJob} {loaded : VerifiedPoolPricingContext}
    {e : MetricEvent}
    (h : (sample.loadVerifiedPoolPricingContext job).toOption.join.map (·.metricEvent) = some e)
    (hload : sample.loadVerifiedPoolPricingContext job = .ok (some loaded)) :
    loaded.metricEvent = e := by
  rw [hload] at h
  exact Option.some.inj h

/-- After the first trade's job. -/
def sampleState : MarketState :=
  let done := sample.processMarketMetric ⟨∅, ∅⟩ firstTrade
  ⟨done.1, [firstEvent]⟩

theorem reaches_sampleState : (marketMachine sample ⟨∅, ∅⟩).Reaches sample.InOrder sampleState := by
  have hdone : (sample.processMarketMetric ⟨∅, ∅⟩ firstTrade).2.toOption.join =
      some firstEvent := by decide +kernel
  have hstep : (marketMachine sample ⟨∅, ∅⟩).step ⟨⟨∅, ∅⟩, []⟩ firstTrade = some sampleState := by
    simp only [marketMachine, sampleState]
    cases hresult : (sample.processMarketMetric ⟨∅, ∅⟩ firstTrade).2 with
    | error err => simp [hresult, Except.toOption] at hdone
    | ok event =>
      obtain rfl : event = some firstEvent := by simpa [hresult, Except.toOption] using hdone
      rfl
  refine Machine.Reaches.step (.init rfl) (fun loaded hload => ?_) hstep
  rw [metricEvent_of_loaded (e := firstEvent) (by decide +kernel) hload]
  exact ⟨aligned_sample (by decide +kernel), fun e he => absurd he List.not_mem_nil⟩

end MetricFacts

end HoodSentry
