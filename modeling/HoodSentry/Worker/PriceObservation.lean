import HoodSentry.Worker.Model.Pricing
import HoodSentry.Market.Observations
/-!
# One row for the events of a block

The price jobs of a pool's events in one block all write the row of that
source and block. The first leaves its volume there and the last its
verdict, so the row is free of the order exactly when every event moved
the same share of the quote reserve, and only then does a large trade
always keep the row from being authoritative.
-/

namespace HoodSentry

/-! ## What the tables say of a pool at a block -/

namespace PricingFacts

variable (f : PricingFacts)

/-- The token and the quote asset of the pool, and the stored reserve of
the quote asset. -/
def quoteSide (b : PoolBlock) : Option (Address × Address × ℕ) :=
  (f.pricingRow b).bind fun row =>
    (selectPair b.chainId row.pool.token0Address row.pool.token1Address).bind fun pair =>
      (if pair.1 = row.pool.token0Address then row.snapshot.reserve1Raw
        else row.snapshot.reserve0Raw).map fun reserve => (pair.1, pair.2, reserve)

/-- The price source of the pool. -/
def source (b : PoolBlock) : Option SourceKey :=
  (f.quoteSide b).map fun (token, quote, _) => .verifiedPool b.chainId b.poolAddress token quote

/-- The share of the quote reserve an event moved, in whole basis points. -/
def movedBps (job : PoolMarketJob) : ℕ :=
  match f.quoteSide job.toPoolBlock with
  | none => 0
  | some (_, quote, reserve) => quoteTradeAmount (f.swapOf job) quote * 10000 / reserve

/-- The canonical swaps of the pool in the block. -/
def swapsOf (b : PoolBlock) : List SwapRow :=
  f.swaps.rows.filter fun s =>
    s.chainId = b.chainId && s.poolAddress = b.poolAddress && s.blockHash = b.blockHash &&
      s.canonical

/-- The row stored for the pool's source and the block. -/
def storedPrice (t : PriceTable) (b : PoolBlock) : Option PriceObservationRow :=
  (f.source b).bind fun source =>
    t.rows.find? fun r => r.observationKey = (source, .block b.blockHash)

/-- **The price jobs of a pool's events in a block**: the pool is verified
for each, and every canonical swap has its job. -/
structure PriceJobs (b : PoolBlock) (jobs : List PoolMarketJob) : Prop where
  ofBlock : ∀ j ∈ jobs, j.toPoolBlock = b
  verified : ∀ j ∈ jobs, ∃ loaded, f.loadVerifiedPoolPricingContext j = .ok (some loaded)
  swaps : ∀ s ∈ f.swapsOf b, ∃ j ∈ jobs, j.transactionHash = s.transactionHash ∧
    j.logIndex = s.logIndex

/-- A job's volume is above what its source allows. -/
def ExceedsVolume (job : PoolMarketJob) : Prop :=
  ∃ loaded volume, f.loadVerifiedPoolPricingContext job = .ok (some loaded) ∧
    loaded.singleTransactionVolumeBps = some volume ∧
    loaded.config.confidenceRules.maximumSingleTransactionVolumeBps < volume

/-- Every swap of the block stays within the volume its source allows. -/
def SwapsWithinVolume (b : PoolBlock) (jobs : List PoolMarketJob) : Prop :=
  ∀ s ∈ f.swapsOf b, ∀ j ∈ jobs, j.transactionHash = s.transactionHash →
    j.logIndex = s.logIndex → ¬f.ExceedsVolume j

end PricingFacts

/-- The jobs in any order, each at least once. -/
def Delivers (jobs l : List PoolMarketJob) : Prop := ∀ j, j ∈ l ↔ j ∈ jobs

/-! ## One job -/

section Job

variable {f : PricingFacts} {t : PriceTable} {job : PoolMarketJob}
variable {loaded : VerifiedPoolPricingContext} {value : PriceObservation}

/-- **What a loaded context holds.** -/
theorem loadVerifiedPoolPricingContext_eq_ok
    (h : f.loadVerifiedPoolPricingContext job = .ok (some loaded)) :
    ∃ row reserve0 reserve1 token quote tokenDecimals quoteDecimals,
      f.pricingRow job.toPoolBlock = some row ∧
      row.snapshot.reserve0Raw = some reserve0 ∧ row.snapshot.reserve1Raw = some reserve1 ∧
      selectPair job.chainId row.pool.token0Address row.pool.token1Address = some (token, quote) ∧
      f.tokenDecimals job.chainId token = some tokenDecimals ∧
      f.tokenDecimals job.chainId quote = some quoteDecimals ∧
      loaded = row.context job (f.swapOf job) reserve0 reserve1 token quote tokenDecimals
        quoteDecimals := by
  unfold PricingFacts.loadVerifiedPoolPricingContext at h
  split at h
  · split at h <;> exact absurd h (by simp)
  · rename_i row hrow
    split at h
    · exact absurd h (by simp)
    · split at h
      · exact absurd h (by simp)
      · split at h
        · rename_i reserve0 reserve1 hreserve0 hreserve1
          split at h
          · exact absurd h (by simp)
          · rename_i token quote hpair
            split at h
            · exact absurd h (by simp)
            · rename_i tokenDecimals htoken
              split at h
              · exact absurd h (by simp)
              · rename_i quoteDecimals hquote
                split at h
                · exact absurd h (by simp)
                · obtain rfl := Option.some.inj (Except.ok.inj h)
                  exact ⟨row, reserve0, reserve1, token, quote, tokenDecimals, quoteDecimals,
                    hrow, hreserve0, hreserve1, hpair, htoken, hquote, rfl⟩
        · exact absurd h (by simp)

/-- The quote side of a context is that of its pool. -/
theorem quoteSide_of_loaded (h : f.loadVerifiedPoolPricingContext job = .ok (some loaded)) :
    f.quoteSide job.toPoolBlock =
      some (loaded.tokenAddress, loaded.quoteAddress, loaded.reserveQuoteRaw) := by
  obtain ⟨row, reserve0, reserve1, token, quote, td, qd, hrow, hr0, hr1, hpair, -, -, rfl⟩ :=
    loadVerifiedPoolPricingContext_eq_ok h
  rw [PricingFacts.quoteSide, hrow, Option.bind_some, hpair, Option.bind_some]
  by_cases htoken : token = row.pool.token0Address
  · simp [PricingRow.context, htoken, hr1]
  · simp [PricingRow.context, htoken, hr0]

theorem quoteTradeAmountRaw_of_loaded
    (h : f.loadVerifiedPoolPricingContext job = .ok (some loaded)) :
    loaded.quoteTradeAmountRaw = quoteTradeAmount (f.swapOf job) loaded.quoteAddress := by
  obtain ⟨_, _, _, _, _, _, _, -, -, -, -, -, -, rfl⟩ := loadVerifiedPoolPricingContext_eq_ok h
  rfl

/-- **The volume of a job is the share its event moved.** -/
theorem singleTransactionVolumeBps_of_loaded
    (h : f.loadVerifiedPoolPricingContext job = .ok (some loaded)) :
    loaded.singleTransactionVolumeBps =
      if loaded.reserveQuoteRaw = 0 then none else some (f.movedBps job : ℤ) := by
  rw [VerifiedPoolPricingContext.singleTransactionVolumeBps, PricingFacts.movedBps,
    quoteSide_of_loaded h, quoteTradeAmountRaw_of_loaded h]

theorem identity_of_loaded (h : f.loadVerifiedPoolPricingContext job = .ok (some loaded)) :
    loaded.identity.toPoolBlock = job.toPoolBlock := by
  obtain ⟨_, _, _, _, _, _, _, -, -, -, -, -, -, rfl⟩ := loadVerifiedPoolPricingContext_eq_ok h
  rfl

theorem config_of_loaded (h : f.loadVerifiedPoolPricingContext job = .ok (some loaded)) :
    loaded.config.sourceKey = .verifiedPool job.chainId job.poolAddress loaded.tokenAddress
        loaded.quoteAddress ∧
      loaded.config.confidenceRules = verifiedPoolRules := by
  obtain ⟨_, _, _, _, _, _, _, -, -, -, -, -, -, rfl⟩ := loadVerifiedPoolPricingContext_eq_ok h
  exact ⟨rfl, rfl⟩

/-- The observation a job makes of the stored ones. -/
def PricingFacts.observationOf (f : PricingFacts) (t : PriceTable) (job : PoolMarketJob) :
    Option PriceObservation :=
  (f.loadVerifiedPoolPricingContext job).toOption.join.bind (·.observation t)

theorem observationOf_of_loaded (h : f.loadVerifiedPoolPricingContext job = .ok (some loaded)) :
    f.observationOf t job = loaded.observation t := by
  rw [PricingFacts.observationOf, h]
  rfl

/-- A job of a verified pool makes one. -/
theorem exists_observationOf (h : f.loadVerifiedPoolPricingContext job = .ok (some loaded)) :
    ∃ value, f.observationOf t job = some value := by
  rw [observationOf_of_loaded h]
  exact Option.isSome_iff_exists.mp evaluateObservation_poolEvidence_isSome

/-- And stores it. -/
theorem deliver_of_observationOf (h : f.observationOf t job = some value) :
    f.deliver t job = t.saveObservation value := by
  unfold PricingFacts.observationOf at h
  unfold PricingFacts.deliver PricingFacts.processPoolPriceObservation
  cases hload : f.loadVerifiedPoolPricingContext job with
  | error e => simp [hload, Except.toOption] at h
  | ok loaded =>
    cases loaded with
    | none => simp [hload, Except.toOption] at h
    | some loaded =>
      have hvalue : loaded.observation t = some value := by
        simpa [hload, Except.toOption] using h
      simp [Except.bind, hvalue, Except.toOption]

/-- **What a job's observation says of its event**: the row's key and
block, its volume, and a bound on the volume if it is authoritative. -/
theorem observationOf_spec (h : f.loadVerifiedPoolPricingContext job = .ok (some loaded))
    (hv : f.observationOf t job = some value) :
    value.row.observationKey = (loaded.config.sourceKey, .block job.blockHash) ∧
    value.row.sourceBlockNumber = some job.blockNumber ∧
    value.row.singleTransactionVolumeBps = loaded.singleTransactionVolumeBps ∧
    (value.row.authoritative = true → ∀ v, loaded.singleTransactionVolumeBps = some v →
      v ≤ loaded.config.confidenceRules.maximumSingleTransactionVolumeBps) := by
  rw [observationOf_of_loaded h] at hv
  have heval := evaluates_of_eq_some hv
  have hblock : loaded.identity.toPoolBlock = job.toPoolBlock := identity_of_loaded h
  have hhash : loaded.evidence.sourceBlockHash = some job.blockHash :=
    congrArg (fun b : PoolBlock => some b.blockHash) hblock
  have hnumber : loaded.evidence.sourceBlockNumber = some job.blockNumber :=
    congrArg (fun b : PoolBlock => some b.blockNumber) hblock
  refine ⟨?_, ?_, ?_, fun hauth v hv => ?_⟩
  · simp only [PriceObservation.row]
    rw [heval.observationKey_eq, hhash]
    rfl
  · simp only [PriceObservation.row]
    rw [heval.evidence_eq, hnumber]
  · simp only [PriceObservation.row]
    rw [heval.evidence_eq]
    rfl
  · exact (checks_of_authoritative heval hauth).2.2.2.2.2.2 v hv

/-- Two events of a pool and block have the same volume when they moved the
same share. -/
theorem singleTransactionVolumeBps_eq_iff {job' : PoolMarketJob}
    {loaded' : VerifiedPoolPricingContext}
    (h : f.loadVerifiedPoolPricingContext job = .ok (some loaded))
    (h' : f.loadVerifiedPoolPricingContext job' = .ok (some loaded'))
    (hb : job.toPoolBlock = job'.toPoolBlock) :
    loaded.singleTransactionVolumeBps = loaded'.singleTransactionVolumeBps ↔
      f.movedBps job = f.movedBps job' := by
  have hside := quoteSide_of_loaded h
  have hside' := quoteSide_of_loaded h'
  rw [singleTransactionVolumeBps_of_loaded h, singleTransactionVolumeBps_of_loaded h',
    PricingFacts.movedBps, PricingFacts.movedBps, hside, hside']
  rw [hb, hside', Option.some.injEq, Prod.mk.injEq, Prod.mk.injEq] at hside
  rw [hside.2.2]
  dsimp only
  by_cases hreserve : loaded.reserveQuoteRaw = 0
  · simp [hreserve]
  · rw [if_neg hreserve, if_neg hreserve, Option.some.injEq, Int.ofNat_inj]

/-- **Events that moved the same share** make the same observation. -/
theorem observationOf_congr {job' : PoolMarketJob} {loaded' : VerifiedPoolPricingContext}
    (h : f.loadVerifiedPoolPricingContext job = .ok (some loaded))
    (h' : f.loadVerifiedPoolPricingContext job' = .ok (some loaded'))
    (hb : job.toPoolBlock = job'.toPoolBlock) (hmoved : f.movedBps job = f.movedBps job') :
    f.observationOf t job = f.observationOf t job' := by
  have hvolume := (singleTransactionVolumeBps_eq_iff h h' hb).mpr hmoved
  obtain ⟨row, r0, r1, token, quote, td, qd, hrow, hr0, hr1, hpair, htd, hqd, hloaded⟩ :=
    loadVerifiedPoolPricingContext_eq_ok h
  obtain ⟨row', r0', r1', token', quote', td', qd', hrow', hr0', hr1', hpair', htd', hqd',
    hloaded'⟩ := loadVerifiedPoolPricingContext_eq_ok h'
  have hchain : job.chainId = job'.chainId := congrArg (·.chainId) hb
  rw [hb, hrow', Option.some.injEq] at hrow
  subst hrow
  rw [hr0', Option.some.injEq] at hr0
  rw [hr1', Option.some.injEq] at hr1
  rw [hchain, hpair', Option.some.injEq, Prod.mk.injEq] at hpair
  rw [← hpair.1, hchain, htd', Option.some.injEq] at htd
  rw [← hpair.2, hchain, hqd', Option.some.injEq] at hqd
  rw [observationOf_of_loaded h, observationOf_of_loaded h']
  obtain ⟨b, pk, pv, tx, li, ty⟩ := job
  obtain ⟨b', pk', pv', tx', li', ty'⟩ := job'
  obtain rfl : b = b' := hb
  obtain ⟨rfl, rfl⟩ := hpair
  subst hr0 hr1 htd hqd
  unfold VerifiedPoolPricingContext.observation VerifiedPoolPricingContext.evidence
  rw [hvolume, hloaded, hloaded']
  rfl

end Job

/-! ## A run -/

/-- A second observation replaces what the first refreshed. -/
theorem PriceObservation.refresh_row (value : PriceObservation) :
    value.refresh value.row = value.row := rfl

section Run

variable {f : PricingFacts} {t t' : PriceTable} {b : PoolBlock} {x : PriceObservationRow}
variable {loaded : VerifiedPoolPricingContext} {jobs l l' : List PoolMarketJob}

/-- A row of the block itself is not among the earlier ones. -/
theorem previousPriceRaw_append (ht : t'.rows = t.rows ++ [x])
    (hx : x.sourceBlockNumber = some loaded.identity.blockNumber) :
    loaded.previousPriceRaw t' = loaded.previousPriceRaw t := by
  unfold VerifiedPoolPricingContext.previousPriceRaw PriceTable.priceBefore
  rw [ht, List.filter_append]
  have hnone : ([x].filter fun r => r.chainId = loaded.identity.chainId &&
      r.tokenAddress = loaded.tokenAddress && r.quoteAssetAddress = loaded.quoteAddress &&
      r.canonical && r.sourceBlockNumber.any (· < loaded.identity.blockNumber)) = [] := by
    simp [hx]
  rw [hnone, List.append_nil]

theorem observationOf_append {job : PoolMarketJob} (ht : t'.rows = t.rows ++ [x])
    (hx : x.sourceBlockNumber = some job.blockNumber) :
    f.observationOf t' job = f.observationOf t job := by
  unfold PricingFacts.observationOf
  cases hload : f.loadVerifiedPoolPricingContext job with
  | error e => rfl
  | ok loaded =>
    cases loaded with
    | none => rfl
    | some loaded =>
      have hblock : loaded.identity.blockNumber = job.blockNumber :=
        congrArg (·.blockNumber) (identity_of_loaded hload)
      have hprevious : loaded.previousPriceRaw t' = loaded.previousPriceRaw t :=
        previousPriceRaw_append ht (hblock ▸ hx)
      simp only [Except.toOption, Option.join_some, Option.bind_some]
      rw [VerifiedPoolPricingContext.observation, hprevious]
      rfl

/-- The observation of each job of the block, of the rows stored before any
of them ran. -/
structure Observes (f : PricingFacts) (t : PriceTable) (b : PoolBlock) (source : SourceKey)
    (jobs : List PoolMarketJob) (value : PoolMarketJob → PriceObservation) : Prop where
  observationOf : ∀ j ∈ jobs, f.observationOf t j = some (value j)
  ofBlock : ∀ j ∈ jobs, j.toPoolBlock = b
  key : ∀ j ∈ jobs, (value j).row.observationKey = (source, .block b.blockHash)
  sourceBlock : ∀ j ∈ jobs, (value j).row.sourceBlockNumber = some b.blockNumber

variable {source : SourceKey} {value : PoolMarketJob → PriceObservation} {job : PoolMarketJob}

theorem Observes.blockNumber (h : Observes f t b source jobs value) (hj : job ∈ jobs) :
    job.blockNumber = b.blockNumber := congrArg (·.blockNumber) (h.ofBlock job hj)

/-- **Every later job rewrites the one row.** -/
theorem rows_foldl_deliver (h : Observes f t b source jobs value) (hl : ∀ j ∈ l, j ∈ jobs)
    (ht : t'.rows = t.rows ++ [x]) (hkey : x.observationKey = (source, .block b.blockHash))
    (hx : x.sourceBlockNumber = some b.blockNumber) :
    (l.foldl f.deliver t').rows =
      t.rows ++ [l.foldl (fun x j => (value j).refresh x) x] := by
  induction l generalizing t' x with
  | nil => exact ht
  | cons j l ih =>
    have hj : j ∈ jobs := hl j List.mem_cons_self
    have hobs : f.observationOf t' j = some (value j) := by
      rw [observationOf_append ht (hx.trans (congrArg some (h.blockNumber hj).symm))]
      exact h.observationOf j hj
    have hrows : (f.deliver t' j).rows = t.rows ++ [(value j).refresh x] := by
      rw [deliver_of_observationOf hobs]
      exact Table.rows_upsert_last ht (hkey.trans (h.key j hj).symm)
    rw [List.foldl_cons, List.foldl_cons]
    exact ih (fun j hj => hl j (List.mem_cons_of_mem _ hj)) hrows hkey hx

/-- **The row after a run**: inserted by the first job, refreshed by the
rest. -/
theorem rows_deliverAll_cons (h : Observes f t b source jobs value)
    (hfree : (source, ObservationPoint.block b.blockHash) ∉ t.keys)
    (hl : ∀ j ∈ job :: l, j ∈ jobs) :
    (f.deliverAll t (job :: l)).rows =
      t.rows ++ [l.foldl (fun x j => (value j).refresh x) (value job).row] := by
  have hj : job ∈ jobs := hl job List.mem_cons_self
  have hrows : (f.deliver t job).rows = t.rows ++ [(value job).row] := by
    rw [deliver_of_observationOf (h.observationOf job hj)]
    exact Table.rows_upsert_of_free (by rw [h.key job hj]; exact hfree)
  exact rows_foldl_deliver h (fun j hj => hl j (List.mem_cons_of_mem _ hj)) hrows (h.key job hj)
    (h.sourceBlock job hj)

/-- Only the verdict is refreshed. -/
theorem foldl_refresh_columns :
    (l.foldl (fun x j => (value j).refresh x) x).observationKey = x.observationKey ∧
    (l.foldl (fun x j => (value j).refresh x) x).singleTransactionVolumeBps =
      x.singleTransactionVolumeBps := by
  induction l generalizing x with
  | nil => exact ⟨rfl, rfl⟩
  | cons j l ih => exact ih

theorem storedPrice_deliverAll_cons (h : Observes f t b source jobs value)
    (hsource : f.source b = some source) (hfree : f.storedPrice t b = none)
    (hl : ∀ j ∈ job :: l, j ∈ jobs) :
    f.storedPrice (f.deliverAll t (job :: l)) b =
      some (l.foldl (fun x j => (value j).refresh x) (value job).row) := by
  rw [PricingFacts.storedPrice, hsource, Option.bind_some] at hfree ⊢
  have hkeys : (source, ObservationPoint.block b.blockHash) ∉ t.keys := by
    intro hmem
    obtain ⟨r, hr, hrk⟩ := Table.mem_keys.mp hmem
    have hne := List.find?_eq_none.mp hfree r hr
    exact hne (decide_eq_true hrk)
  have hkey : (l.foldl (fun x j => (value j).refresh x) (value job).row).observationKey =
      (source, .block b.blockHash) := by
    rw [foldl_refresh_columns.1]
    exact h.key job (hl job List.mem_cons_self)
  rw [rows_deliverAll_cons h hkeys hl, List.find?_append, hfree, Option.none_or,
    List.find?_singleton, if_pos (decide_eq_true hkey)]

end Run

/-! ## The jobs of a block -/

section Block

variable {f : PricingFacts} {t : PriceTable} {b : PoolBlock} {jobs : List PoolMarketJob}

/-- The jobs of a block observe one source. -/
theorem PricingFacts.PriceJobs.observes (h : f.PriceJobs b jobs) {job : PoolMarketJob}
    (hjob : job ∈ jobs) : ∃ source value, f.source b = some source ∧
      Observes f t b source jobs value := by
  obtain ⟨loaded, hloaded⟩ := h.verified job hjob
  have hsource : f.source b = some loaded.config.sourceKey := by
    rw [PricingFacts.source, ← h.ofBlock job hjob, quoteSide_of_loaded hloaded,
      (config_of_loaded hloaded).1]
    rfl
  have hvalue : ∀ j ∈ jobs, ∃ value, f.observationOf t j = some value ∧
      value.row.observationKey = (loaded.config.sourceKey, .block b.blockHash) ∧
      value.row.sourceBlockNumber = some b.blockNumber := by
    intro j hj
    obtain ⟨loadedj, hloadedj⟩ := h.verified j hj
    obtain ⟨value, hv⟩ := exists_observationOf (t := t) hloadedj
    obtain ⟨hkey, hnumber, -⟩ := observationOf_spec hloadedj hv
    have hblock := h.ofBlock j hj
    have hsame : f.source b = some loadedj.config.sourceKey := by
      rw [PricingFacts.source, ← hblock, quoteSide_of_loaded hloadedj,
        (config_of_loaded hloadedj).1]
      rfl
    rw [hsource, Option.some.injEq] at hsame
    refine ⟨value, hv, ?_, ?_⟩
    · rw [hkey, hsame, ← hblock]
    · rw [hnumber, ← hblock]
  have : Nonempty PriceObservation := ⟨(exists_observationOf (t := t) hloaded).choose⟩
  choose! value hobs hkey hnumber using hvalue
  exact ⟨_, value, hsource, hobs, h.ofBlock, hkey, hnumber⟩

/-- A source with no rule broken stays within the volume. -/
theorem not_exceedsVolume_iff {job : PoolMarketJob} {loaded : VerifiedPoolPricingContext}
    (h : f.loadVerifiedPoolPricingContext job = .ok (some loaded)) :
    ¬f.ExceedsVolume job ↔ ∀ v, loaded.singleTransactionVolumeBps = some v →
      v ≤ loaded.config.confidenceRules.maximumSingleTransactionVolumeBps := by
  constructor
  · intro hnot v hv
    exact not_lt.mp fun hlt => hnot ⟨loaded, v, h, hv, hlt⟩
  · rintro hle ⟨loaded', v, h', hv, hlt⟩
    rw [h, Except.ok.injEq, Option.some.injEq] at h'
    subst h'
    have hbound := hle v hv
    omega

section Delivered

variable {source : SourceKey} {value : PoolMarketJob → PriceObservation} {l : List PoolMarketJob}
variable {job job' : PoolMarketJob}

/-- Where all events moved the same share, their jobs make one
observation. -/
theorem Observes.value_eq (hobs : Observes f t b source jobs value) (h : f.PriceJobs b jobs)
    (hmoved : ∀ j ∈ jobs, ∀ j' ∈ jobs, f.movedBps j = f.movedBps j') (hj : job ∈ jobs)
    (hj' : job' ∈ jobs) : value job = value job' := by
  obtain ⟨loaded, hloaded⟩ := h.verified job hj
  obtain ⟨loaded', hloaded'⟩ := h.verified job' hj'
  have hcongr := observationOf_congr (t := t) hloaded hloaded'
    ((h.ofBlock job hj).trans (h.ofBlock job' hj').symm) (hmoved job hj job' hj')
  rw [hobs.observationOf job hj, hobs.observationOf job' hj', Option.some.injEq] at hcongr
  exact hcongr

/-- And that observation, stored again and again, leaves the row it
inserted. -/
theorem Observes.storedPrice_eq (hobs : Observes f t b source jobs value)
    (h : f.PriceJobs b jobs) (hsource : f.source b = some source)
    (hfree : f.storedPrice t b = none)
    (hmoved : ∀ j ∈ jobs, ∀ j' ∈ jobs, f.movedBps j = f.movedBps j') (hl : Delivers jobs l)
    (hj : job ∈ jobs) : f.storedPrice (f.deliverAll t l) b = some (value job).row := by
  cases l with
  | nil => exact absurd ((hl job).mpr hj) List.not_mem_nil
  | cons k l =>
    have hk : k ∈ jobs := (hl k).mp List.mem_cons_self
    have hrest : ∀ m ∈ l, m ∈ jobs := fun m hm => (hl m).mp (List.mem_cons_of_mem _ hm)
    have hfold : l.foldl (fun x m => (value m).refresh x) (value k).row = (value k).row := by
      clear hl
      induction l with
      | nil => rfl
      | cons m l ih =>
        rw [List.foldl_cons, hobs.value_eq h hmoved (hrest m List.mem_cons_self) hk,
          PriceObservation.refresh_row]
        exact ih fun m hm => hrest m (List.mem_cons_of_mem _ hm)
    rw [storedPrice_deliverAll_cons hobs hsource hfree fun k => (hl k).mp,
      hobs.value_eq h hmoved hj hk, hfold]

/-- A run that begins with a job leaves that job's volume in the row. -/
theorem Observes.storedVolume_eq (hobs : Observes f t b source jobs value)
    (hsource : f.source b = some source) (hfree : f.storedPrice t b = none) {loaded : VerifiedPoolPricingContext}
    (hloaded : f.loadVerifiedPoolPricingContext job = .ok (some loaded))
    (hl : ∀ j ∈ job :: l, j ∈ jobs) :
    (f.storedPrice (f.deliverAll t (job :: l)) b).map (·.singleTransactionVolumeBps) =
      some loaded.singleTransactionVolumeBps := by
  have hvalue := hobs.observationOf job (hl job List.mem_cons_self)
  rw [storedPrice_deliverAll_cons hobs hsource hfree hl, Option.map_some, Option.some.injEq,
    foldl_refresh_columns.2, (observationOf_spec hloaded hvalue).2.2.1]

end Delivered

/-- **The price of a block is safe exactly when its events moved the same
share of the quote reserve**: the row is the same in every order of the
jobs, and authoritative only if every swap stayed within its volume. -/
theorem price_of_block_iff (h : f.PriceJobs b jobs) (hfree : f.storedPrice t b = none) :
    ((∀ l l', Delivers jobs l → Delivers jobs l' →
        f.storedPrice (f.deliverAll t l) b = f.storedPrice (f.deliverAll t l') b) ∧
      ∀ l, Delivers jobs l → ∀ row, f.storedPrice (f.deliverAll t l) b = some row →
        row.authoritative = true → f.SwapsWithinVolume b jobs) ↔
    ∀ j ∈ jobs, ∀ j' ∈ jobs, f.movedBps j = f.movedBps j' := by
  constructor
  · rintro ⟨horder, -⟩ j hj j' hj'
    obtain ⟨source, value, hsource, hobs⟩ := h.observes (t := t) hj
    obtain ⟨loaded, hloaded⟩ := h.verified j hj
    obtain ⟨loaded', hloaded'⟩ := h.verified j' hj'
    have hdelivers : ∀ j ∈ jobs, Delivers jobs (j :: jobs) := fun j hj k =>
      ⟨fun hk => (List.mem_cons.mp hk).elim (fun hk => hk ▸ hj) id, List.mem_cons_of_mem _⟩
    have hvolume := hobs.storedVolume_eq hsource hfree hloaded fun k => (hdelivers j hj k).mp
    rw [horder _ _ (hdelivers j hj) (hdelivers j' hj'),
      hobs.storedVolume_eq hsource hfree hloaded' fun k => (hdelivers j' hj' k).mp,
      Option.some.injEq] at hvolume
    exact (singleTransactionVolumeBps_eq_iff hloaded hloaded'
      ((h.ofBlock j hj).trans (h.ofBlock j' hj').symm)).mp hvolume.symm
  · intro hmoved
    refine ⟨fun l l' hl hl' => ?_, fun l hl row hrow hauth s _ j hj _ _ => ?_⟩
    · cases jobs with
      | nil =>
        have hnil : ∀ l, Delivers [] l → l = [] := fun l hl =>
          List.eq_nil_iff_forall_not_mem.mpr fun j hj => List.not_mem_nil ((hl j).mp hj)
        rw [hnil l hl, hnil l' hl']
      | cons j jobs =>
        obtain ⟨source, value, hsource, hobs⟩ := h.observes (t := t) List.mem_cons_self
        rw [hobs.storedPrice_eq h hsource hfree hmoved hl List.mem_cons_self,
          hobs.storedPrice_eq h hsource hfree hmoved hl' List.mem_cons_self]
    · obtain ⟨source, value, hsource, hobs⟩ := h.observes (t := t) hj
      obtain ⟨loaded, hloaded⟩ := h.verified j hj
      rw [hobs.storedPrice_eq h hsource hfree hmoved hl hj, Option.some.injEq] at hrow
      subst hrow
      exact (not_exceedsVolume_iff hloaded).mpr
        ((observationOf_spec hloaded (hobs.observationOf j hj)).2.2.2 hauth)

end Block

/-! ## A sample block -/

/-- The pool of token 7 against USDG at the block of hash 1. -/
def PoolBlock.sample : PoolBlock := ⟨MAINNET_CHAIN_ID, 1, ⟨1⟩, ⟨11⟩⟩

/-- Its stored state after a trade of half the quote reserve. -/
def PricingFacts.sample : PricingFacts where
  pools := .singleton
    ⟨MAINNET_CHAIN_ID, ⟨11⟩, 1, "uniswap", "2", ⟨7⟩, USDG, "constantProduct", true, true⟩
  dexProtocols := .singleton ⟨1, true, .active, "registry", 0, none⟩
  poolStateSnapshots := .singleton
    ⟨MAINNET_CHAIN_ID, ⟨11⟩, 1, ⟨1⟩, some (5000 * 10 ^ 18), some (10000 * 10 ^ 6), true⟩
  swaps := .singleton ⟨MAINNET_CHAIN_ID, 1, ⟨1⟩, ⟨21⟩, 2, ⟨11⟩, some ⟨1⟩, none, USDG, ⟨7⟩,
    5000 * 10 ^ 6, 5000 * 10 ^ 18, true⟩
  blocks := .singleton ⟨MAINNET_CHAIN_ID, 1, ⟨1⟩, ⟨0⟩, 0, .pending, true⟩
  tokens := Table.empty.insertAll
    [⟨MAINNET_CHAIN_ID, ⟨7⟩, some 18⟩, ⟨MAINNET_CHAIN_ID, USDG, some 6⟩]

/-- The job of the trade, and the job of a mint after it. -/
def PoolMarketJob.largeSwap : PoolMarketJob :=
  ⟨.sample, some "uniswap", some "2", ⟨21⟩, 2, .swap⟩

def PoolMarketJob.smallMint : PoolMarketJob :=
  ⟨.sample, some "uniswap", some "2", ⟨22⟩, 5, .liquidityAdded⟩

theorem exists_loaded {f : PricingFacts} {job : PoolMarketJob}
    (h : (f.loadVerifiedPoolPricingContext job).toOption.join.isSome = true) :
    ∃ loaded, f.loadVerifiedPoolPricingContext job = .ok (some loaded) := by
  cases hload : f.loadVerifiedPoolPricingContext job with
  | error e => simp [hload, Except.toOption] at h
  | ok loaded =>
    cases loaded with
    | none => simp [hload, Except.toOption] at h
    | some loaded => exact ⟨loaded, rfl⟩

/-- Jobs of the sample block that cover its trade. -/
theorem priceJobs_sample {jobs : List PoolMarketJob} (hswap : .largeSwap ∈ jobs)
    (h : ∀ j ∈ jobs, j.toPoolBlock = .sample ∧
      (PricingFacts.sample.loadVerifiedPoolPricingContext j).toOption.join.isSome = true) :
    PricingFacts.sample.PriceJobs .sample jobs where
  ofBlock j hj := (h j hj).1
  verified j hj := exists_loaded (h j hj).2
  swaps s hs := by
    have hall : ∀ s ∈ PricingFacts.sample.swapsOf .sample,
        s.transactionHash = ⟨21⟩ ∧ s.logIndex = 2 := by decide
    obtain ⟨htx, hlog⟩ := hall s hs
    exact ⟨.largeSwap, hswap, htx.symm, hlog.symm⟩

/-- Here the block is the trade alone, delivered any number of times. -/
theorem price_of_block_sample :
    ((∀ l l', Delivers [.largeSwap] l → Delivers [.largeSwap] l' →
        PricingFacts.sample.storedPrice (PricingFacts.sample.deliverAll ∅ l) .sample =
          PricingFacts.sample.storedPrice (PricingFacts.sample.deliverAll ∅ l') .sample) ∧
      ∀ l, Delivers [.largeSwap] l → ∀ row,
        PricingFacts.sample.storedPrice (PricingFacts.sample.deliverAll ∅ l) .sample = some row →
        row.authoritative = true →
        PricingFacts.sample.SwapsWithinVolume .sample [.largeSwap]) ↔
    ∀ j ∈ [PoolMarketJob.largeSwap], ∀ j' ∈ [PoolMarketJob.largeSwap],
      PricingFacts.sample.movedBps j = PricingFacts.sample.movedBps j' :=
  price_of_block_iff (priceJobs_sample List.mem_cons_self (by decide)) (by decide)

/-- **A mint after a large trade hides it**: the row it leaves is
authoritative. -/
theorem not_price_of_block :
    ¬∀ (f : PricingFacts) (t : PriceTable) (b : PoolBlock) (jobs : List PoolMarketJob),
      f.PriceJobs b jobs → f.storedPrice t b = none →
      (∀ l l', Delivers jobs l → Delivers jobs l' →
        f.storedPrice (f.deliverAll t l) b = f.storedPrice (f.deliverAll t l') b) ∧
      ∀ l, Delivers jobs l → ∀ row, f.storedPrice (f.deliverAll t l) b = some row →
        row.authoritative = true → f.SwapsWithinVolume b jobs := by
  intro h
  let jobs : List PoolMarketJob := [.largeSwap, .smallMint]
  have hjobs : PricingFacts.sample.PriceJobs .sample jobs :=
    priceJobs_sample List.mem_cons_self (by decide)
  obtain ⟨-, hsafe⟩ := h .sample ∅ .sample jobs hjobs (by decide)
  have hstored : (PricingFacts.sample.storedPrice (PricingFacts.sample.deliverAll ∅ jobs)
      .sample).map (·.authoritative) = some true := by decide
  obtain ⟨row, hrow, hauth⟩ := Option.map_eq_some_iff.mp hstored
  obtain ⟨loaded, hloaded⟩ := hjobs.verified .largeSwap List.mem_cons_self
  have hvolume : (PricingFacts.sample.loadVerifiedPoolPricingContext
      .largeSwap).toOption.join.bind (·.singleTransactionVolumeBps) = some 5000 := by decide
  have hwithin := hsafe jobs (fun _ => Iff.rfl) row hrow hauth _ List.mem_cons_self .largeSwap
    List.mem_cons_self rfl rfl
  rw [hloaded] at hvolume
  have hle := (not_exceedsVolume_iff hloaded).mp hwithin 5000 hvolume
  rw [(config_of_loaded hloaded).2] at hle
  exact absurd hle (by decide)

end HoodSentry
