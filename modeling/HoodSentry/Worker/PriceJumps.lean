import HoodSentry.Common.Statistics
import HoodSentry.Market.Authority
import HoodSentry.Market.Model.Chainlink
import HoodSentry.Worker.PriceObservation
/-!
# Price jumps

A new price is compared with the latest row of its pair, whichever source
made it, as whole numbers and in whole basis points. So the reason speaks of
the source's own price where that row is the source's, at the scale of the
new price, and the deviation is not within the last basis point; elsewhere
only where the two comparisons happen to agree (`jumps_iff`).
-/

namespace HoodSentry

/-! ## What a jump is -/

/-- A price, as a number. -/
def priceValue (raw : ℤ) (decimals : ℕ) : ℚ := raw / 10 ^ decimals

/-- Two prices differ by more than a number of basis points. -/
def DiffersBy (bps : ℤ) (p q : ℚ) : Prop := Apart ((bps : ℚ) / 10000) p q

/-- **How the engine compares**: whole prices, and whole basis points. -/
def WholeDiffersBy (bps p q : ℤ) : Prop := 0 < p ∧ 0 < q ∧ (bps + 1) * min p q ≤ |p - q| * 10000

/-- More than the bound, but by less than a basis point. -/
def WithinLastBps (bps p q : ℤ) : Prop :=
  bps * min p q < |p - q| * 10000 ∧ |p - q| * 10000 < (bps + 1) * min p q

namespace PriceTable

variable (t : PriceTable) (value : PriceObservation)

/-- The canonical rows of the pair at the blocks before the observation's. -/
def earlier : List PriceObservationRow :=
  t.rows.filter fun r =>
    r.chainId = value.chainId && r.tokenAddress = value.tokenAddress &&
      r.quoteAssetAddress = value.quoteAssetAddress && r.canonical &&
      r.sourceBlockNumber.any (· < value.evidence.sourceBlockNumber.getD 0)

/-- The latest of some rows. -/
def latest (rows : List PriceObservationRow) : Option PriceObservationRow :=
  (rows.insertionSort fun left right =>
    right.sourceBlockNumber.getD 0 ≤ left.sourceBlockNumber.getD 0).head?

/-- The row the new price is compared with. -/
def found : Option PriceObservationRow := latest (t.earlier value)

/-- The latest of the source's own priced rows. -/
def own : Option PriceObservationRow :=
  latest ((t.earlier value).filter fun r => r.sourceKey = value.sourceKey && r.priceRaw.isSome)

end PriceTable

section Comparison

variable (t : PriceTable) (bps : ℤ) (value : PriceObservation)

/-- The new price differs from a row's. -/
def DiffersFrom (r : PriceObservationRow) : Prop :=
  ∃ raw p, value.evidence.priceRaw = some raw ∧ r.priceRaw = some p ∧
    DiffersBy bps (priceValue p r.priceDecimals) (priceValue raw value.evidence.priceDecimals)

/-- The same, as the engine compares them. -/
def WholeDiffersFrom (r : PriceObservationRow) : Prop :=
  ∃ raw p, value.evidence.priceRaw = some raw ∧ r.priceRaw = some p ∧ WholeDiffersBy bps p raw

/-- **A jump of one source.** -/
def Jumps : Prop := ∃ r, t.own value = some r ∧ DiffersFrom bps value r

/-- The row found is the source's own, at the scale of the new price. -/
def FindsOwn : Prop :=
  t.found value = t.own value ∧
    ∀ r, t.own value = some r → r.priceDecimals = value.evidence.priceDecimals

/-- **Where the comparison speaks of the source's own price.** -/
def ComparesOwn : Prop :=
  (FindsOwn t value → ∀ r raw p, t.own value = some r → value.evidence.priceRaw = some raw →
      r.priceRaw = some p → 0 < p → 0 < raw → ¬WithinLastBps bps p raw) ∧
    (¬FindsOwn t value →
      ((∃ r, t.found value = some r ∧ WholeDiffersFrom bps value r) ↔ Jumps t bps value))

end Comparison

/-! ## The comparison of whole prices -/

variable {t : PriceTable} {config : PriceSource} {value : PriceObservation}

theorem absoluteDifferenceBps_any_iff {bps p q : ℤ} :
    (absoluteDifferenceBps p q).any (bps < ·) = true ↔ WholeDiffersBy bps p q := by
  unfold absoluteDifferenceBps WholeDiffersBy
  split
  · rename_i hneg
    refine iff_of_false (by simp) ?_
    rintro ⟨hp, hq, -⟩
    omega
  · rename_i hpos
    have hp : 0 < p := by omega
    have hq : 0 < q := by omega
    have habs : (if p ≥ q then p - q else q - p) = |p - q| := by
      split
      · exact (abs_of_nonneg (by omega)).symm
      · rw [abs_sub_comm]
        exact (abs_of_nonneg (by omega)).symm
    have hmin : (if p < q then p else q) = min p q := by
      split <;> omega
    dsimp only
    rw [habs, hmin, Option.any_some, decide_eq_true_iff,
      lt_tdiv_iff (lt_min hp hq) (mul_nonneg (abs_nonneg _) (by norm_num))]
    exact ⟨fun h => ⟨hp, hq, h⟩, fun h => h.2.2⟩

/-- **The reason of a jump**, where the prices differ as whole numbers. -/
theorem mem_priceJumpReason {evidence : PriceEvidence} {previous : Option ℤ} :
    .abnormalPriceJump ∈ priceJumpReason config evidence previous ↔
      ∃ raw p, evidence.priceRaw = some raw ∧ previous = some p ∧
        WholeDiffersBy config.confidenceRules.maximumPriceJumpBps p raw := by
  unfold priceJumpReason
  split
  · rename_i p raw hraw
    split
    · rename_i hany
      exact iff_of_true (List.mem_singleton.mpr rfl)
        ⟨raw, p, hraw, rfl, absoluteDifferenceBps_any_iff.mp hany⟩
    · rename_i hany
      refine iff_of_false List.not_mem_nil ?_
      rintro ⟨raw', p', hraw', hp', hany'⟩
      cases Option.some.inj (hraw.symm.trans hraw')
      cases Option.some.inj hp'
      exact hany (absoluteDifferenceBps_any_iff.mpr hany')
  · rename_i hnone
    refine iff_of_false List.not_mem_nil ?_
    rintro ⟨raw, p, hraw, hp, -⟩
    exact hnone p raw hp hraw

/-- No other check has that reason. -/
theorem mem_observationReasons {evidence : PriceEvidence} {previous : Option ℤ} {isStale : Bool}
    {reasons : List PriceReason}
    (h : observationReasons config evidence previous isStale = some reasons)
    (hevidence : .abnormalPriceJump ∉ evidence.reasons) :
    .abnormalPriceJump ∈ reasons ↔
      .abnormalPriceJump ∈ priceJumpReason config evidence previous := by
  obtain ⟨depeg, hdepeg, rfl⟩ := Option.map_eq_some_iff.mp h
  have hother : .abnormalPriceJump ∉ depeg := by
    unfold stablecoinReason at hdepeg
    split at hdepeg
    · split at hdepeg
      · cases Option.some.inj hdepeg
        exact List.not_mem_nil
      · obtain ⟨one, -, rfl⟩ := Option.map_eq_some_iff.mp hdepeg
        split <;> simp
    · cases Option.some.inj hdepeg
      exact List.not_mem_nil
  simp only [List.mem_append, hevidence, hother, false_or, or_false, List.mem_ite_nil_left,
    List.mem_ite_nil_right, List.mem_singleton, reduceCtorEq, and_false]

/-! ## The jobs -/

/-- **An observation that a job makes**, of a pool or of an oracle. -/
inductive ObservedBy (t : PriceTable) : PriceSource → PriceObservation → Prop
  | pool {f : PricingFacts} {job : PoolMarketJob} {loaded : VerifiedPoolPricingContext}
      {value : PriceObservation} (hloaded : f.loadVerifiedPoolPricingContext job = .ok (some loaded))
      (hvalue : loaded.observation t = some value) : ObservedBy t loaded.config value
  | chainlink {config : PriceSource} {sourceTimestamp now : ℕ}
      {identity : ChainlinkPricingIdentity} {answers : OracleAnswers} {value : PriceObservation}
      (hvalue : buildChainlinkObservation config sourceTimestamp identity answers t now = .ok value) :
      ObservedBy t config value

theorem not_mem_poolEvidence {input : PoolPriceInput} {outputDecimals : ℕ}
    {evidence : PriceEvidence} :
    .abnormalPriceJump ∉ (poolEvidence input outputDecimals evidence).reasons := by
  simp only [poolEvidence, List.mem_append, List.mem_ite_nil_left, List.mem_singleton,
    reduceCtorEq, and_false, false_or]
  split
  · simp
  · split <;> simp

theorem not_mem_chainlinkEvidence {input : ChainlinkPriceInput} {evidence : PriceEvidence} :
    .abnormalPriceJump ∉ (chainlinkEvidence input evidence).reasons := by
  simp only [chainlinkEvidence, List.mem_append, List.mem_ite_nil_left, List.mem_ite_nil_right,
    List.mem_singleton, reduceCtorEq, and_false, or_false]
  rintro ⟨-, h⟩
  split at h <;> cases h

/-- **What a job compares**: the reason is there where the new price differs
from the row found. -/
theorem ObservedBy.mem_reasons_iff (h : ObservedBy t config value) :
    .abnormalPriceJump ∈ value.reasons ↔ ∃ r, t.found value = some r ∧
      WholeDiffersFrom config.confidenceRules.maximumPriceJumpBps value r := by
  have hmem : .abnormalPriceJump ∈ value.reasons ↔
      .abnormalPriceJump ∈ priceJumpReason config value.evidence
        ((t.found value).bind (·.priceRaw)) := by
    cases h with
    | pool hloaded hvalue =>
      obtain ⟨row, r0, r1, token, quote, td, qd, -, -, -, -, -, -, rfl⟩ :=
        loadVerifiedPoolPricingContext_eq_ok hloaded
      obtain ⟨reasons, hreasons, rfl⟩ := Option.map_eq_some_iff.mp hvalue
      exact mem_observationReasons hreasons not_mem_poolEvidence
    | chainlink hvalue =>
      unfold buildChainlinkObservation at hvalue
      split at hvalue
      · cases hvalue
      · dsimp only at hvalue
        split at hvalue
        · cases hvalue
        · rename_i observation hobservation
          cases Except.ok.inj hvalue
          obtain ⟨reasons, hreasons, rfl⟩ := Option.map_eq_some_iff.mp hobservation
          exact mem_observationReasons hreasons not_mem_chainlinkEvidence
  rw [hmem, mem_priceJumpReason]
  constructor
  · rintro ⟨raw, p, hraw, hp, hdiffers⟩
    obtain ⟨r, hr, hp⟩ := Option.bind_eq_some_iff.mp hp
    exact ⟨r, hr, raw, p, hraw, hp, hdiffers⟩
  · rintro ⟨r, hr, raw, p, hraw, hp, hdiffers⟩
    exact ⟨raw, p, hraw, Option.bind_eq_some_iff.mpr ⟨r, hr, hp⟩, hdiffers⟩

/-! ## At one scale -/

/-- At one scale the numbers differ as the whole prices do. -/
theorem differsBy_iff {bps p q : ℤ} {decimals : ℕ} :
    DiffersBy bps (priceValue p decimals) (priceValue q decimals) ↔
      0 < p ∧ 0 < q ∧ bps * min p q < |p - q| * 10000 := by
  unfold DiffersBy priceValue
  rw [apart_div (by positivity), Apart, Int.cast_pos, Int.cast_pos, div_mul_eq_mul_div,
    div_lt_iff₀ (by norm_num)]
  have hcast : (bps : ℚ) * min (p : ℚ) q < |(p : ℚ) - q| * 10000 ↔
      bps * min p q < |p - q| * 10000 := by
    exact_mod_cast Iff.rfl
  rw [hcast]

/-- So the two comparisons differ within the last basis point alone. -/
theorem wholeDiffersBy_iff_differsBy_iff {bps p q : ℤ} {decimals : ℕ} :
    (WholeDiffersBy bps p q ↔ DiffersBy bps (priceValue p decimals) (priceValue q decimals)) ↔
      (0 < p → 0 < q → ¬WithinLastBps bps p q) := by
  rw [differsBy_iff, WholeDiffersBy, WithinLastBps]
  by_cases hp : 0 < p
  · by_cases hq : 0 < q
    · have hmin : 0 < min p q := lt_min hp hq
      have hstep : (bps + 1) * min p q = bps * min p q + min p q := by
        rw [add_mul, one_mul]
      simp only [hp, hq, true_and, forall_const]
      omega
    · simp [hq]
  · simp [hp]

theorem wholeDiffersFrom_iff_differsFrom_iff {bps : ℤ} {r : PriceObservationRow}
    (hdecimals : r.priceDecimals = value.evidence.priceDecimals) :
    (WholeDiffersFrom bps value r ↔ DiffersFrom bps value r) ↔
      ∀ raw p, value.evidence.priceRaw = some raw → r.priceRaw = some p → 0 < p → 0 < raw →
        ¬WithinLastBps bps p raw := by
  unfold WholeDiffersFrom DiffersFrom
  rw [hdecimals]
  cases hraw : value.evidence.priceRaw with
  | none => simp
  | some raw =>
    cases hp : r.priceRaw with
    | none => simp
    | some p =>
      simp only [Option.some.injEq, exists_and_left, exists_eq_left']
      rw [wholeDiffersBy_iff_differsBy_iff]
      constructor
      · rintro h raw' p' rfl rfl
        exact h
      · exact fun h => h raw p rfl rfl

/-- **Exactly where a jump is the source's own.** The reason is there for a
jump of the source's own price, and for no other, if and only if what is
compared speaks of that price. -/
theorem jumps_iff (h : ObservedBy t config value) :
    (.abnormalPriceJump ∈ value.reasons ↔
        Jumps t config.confidenceRules.maximumPriceJumpBps value) ↔
      ComparesOwn t config.confidenceRules.maximumPriceJumpBps value := by
  rw [h.mem_reasons_iff, ComparesOwn]
  by_cases hown : FindsOwn t value
  · rw [and_iff_left (absurd hown), forall_prop_of_true hown]
    obtain ⟨hfound, hscale⟩ := hown
    rw [hfound, Jumps]
    cases hr : t.own value with
    | none => simp
    | some r =>
      simp only [Option.some.injEq, exists_eq_left']
      rw [wholeDiffersFrom_iff_differsFrom_iff (hscale r hr)]
      constructor
      · rintro h r' raw p rfl
        exact h raw p
      · exact fun h raw p => h r raw p rfl
  · rw [and_iff_right fun h => absurd h hown, forall_prop_of_true hown]

/-! ## Two scales -/

/-- A reading of the price 5. -/
def OracleAnswers.five (decimals : ℕ) : OracleAnswers :=
  ⟨decimals, ⟨6, 5 * 10 ^ decimals, 990, 990, 6⟩, ⟨1, 0, 0, 0, 1⟩, false⟩

/-- A feed of that price is observed at a block. -/
def observeFive (key : String) (decimals block : ℕ) (t : PriceTable) :
    Except ChainlinkError PriceObservation :=
  buildChainlinkObservation { PriceSource.sampleOracle with sourceKey := .named key } 1000000
    ⟨MAINNET_CHAIN_ID, block, ⟨block⟩, .named key, ⟨31⟩, ⟨7⟩, USDG, 3600, none⟩ (.five decimals) t
    1000000

theorem observedBy_five {key : String} {decimals block : ℕ}
    (h : observeFive key decimals block t = .ok value) :
    ObservedBy t { PriceSource.sampleOracle with sourceKey := .named key } value :=
  .chainlink h

/-- The feed in 18 decimals has been observed. -/
def PriceTable.afterWide : PriceTable :=
  ((observeFive "wide" 18 1 ∅).toOption.map (PriceTable.saveObservation ∅)).getD ∅

/-- Here a feed is compared with another's price. -/
theorem jumps_iff_observeFive :
    ∃ value, observeFive "feed" 8 2 .afterWide = .ok value ∧
      ((.abnormalPriceJump ∈ value.reasons ↔ Jumps .afterWide
          PriceSource.sampleOracle.confidenceRules.maximumPriceJumpBps value) ↔
        ComparesOwn .afterWide PriceSource.sampleOracle.confidenceRules.maximumPriceJumpBps
          value) := by
  cases hvalue : observeFive "feed" 8 2 .afterWide with
  | error e =>
    have hok : (observeFive "feed" 8 2 .afterWide).toOption.isSome = true := by
      decide +kernel
    rw [hvalue] at hok
    cases hok
  | ok value =>
    have hiff := jumps_iff (observedBy_five hvalue)
    exact ⟨value, rfl, hiff⟩

/-- **A steady price is called a jump.** The feed in 8 decimals has no
earlier price of its own; it is compared with the same price in 18. -/
theorem not_jumps_iff :
    ¬∀ (t : PriceTable) (config : PriceSource) (value : PriceObservation),
      ObservedBy t config value → (.abnormalPriceJump ∈ value.reasons ↔
        Jumps t config.confidenceRules.maximumPriceJumpBps value) := by
  intro h
  have hjump : (observeFive "feed" 8 2 .afterWide).toOption.any (fun value =>
      decide (.abnormalPriceJump ∈ value.reasons) && (PriceTable.afterWide.own value).isNone) =
        true := by
    decide +kernel
  cases hvalue : observeFive "feed" 8 2 .afterWide with
  | error e =>
    rw [hvalue] at hjump
    cases hjump
  | ok value =>
    rw [hvalue, Except.toOption, Option.any_some, Bool.and_eq_true, decide_eq_true_iff] at hjump
    obtain ⟨hreason, hown⟩ := hjump
    obtain ⟨r, hr, -⟩ := (h _ _ value (observedBy_five hvalue)).mp hreason
    exact Option.some_ne_none r (hr.symm.trans (Option.isNone_iff_eq_none.mp hown))

end HoodSentry
