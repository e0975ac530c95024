import HoodSentry.Discovery.TrendingLaws
import HoodSentry.Market.SourceSelection
import HoodSentry.Risk.Model.Types
import HoodSentry.Worker.PriceJumps
/-!
# Market integrity of a risk scan

`apps/worker/src/jobs/market-integrity-context.ts`: the sources of a token,
each with its latest row at the pinned block, and what the selection, the
search for outliers and the manipulation signals say of them. The trades are
those read for the token; the time is that of the pinned block.
-/

namespace HoodSentry

/-! ## What is read -/

/-- The latest canonical priced row of a source up to the pinned block. -/
def PriceTable.pinnedObservation (t : PriceTable) (chainId : ℕ) (tokenAddress : Address)
    (sourceBlock : ℕ) (config : PriceSource) : Option PriceObservationRow :=
  ((t.rows.filter fun r =>
    r.chainId = chainId && r.tokenAddress = tokenAddress &&
      r.quoteAssetAddress = config.quoteAssetAddress && r.sourceKey = config.sourceKey &&
      r.canonical && r.priceRaw.isSome && r.sourceBlockNumber.any (· ≤ sourceBlock)).insertionSort
    fun left right => right.sourceBlockNumber.getD 0 < left.sourceBlockNumber.getD 0 ∨
      right.sourceBlockNumber.getD 0 = left.sourceBlockNumber.getD 0 ∧
        right.observedAt ≤ left.observedAt).head?

structure MarketIntegrityInputs where
  sourceBlock : ℕ
  priceAvailable : Bool
  activeSourceCount : ℕ
  disagreementWarnings : List String
  outlierReasons : List PriceReason
  primaryReasons : List PriceReason
  tradesAvailable : Bool
  tradeCount : ℕ
  manipulation : Discovery.ManipulationAssessment
deriving DecidableEq

/-- What `load` takes from the selection. -/
structure PinnedPrices where
  disagreementWarnings : List String
  outlierReasons : List PriceReason
  primaryReasons : List PriceReason
  priceImpactBps : Option ℤ
  liquidityRaw : Option ℤ
  minimumHealthyLiquidityRaw : ℤ
deriving DecidableEq

/-- The prices of a scan; without an observation nothing is selected. -/
def pinnedPrices (enabledConfigs : List PriceSource) (observations : List PriceObservationRow)
    (observedAt : ℕ) : Option PinnedPrices :=
  if observations.isEmpty then some ⟨[], [], [], none, none, 0⟩
  else (selectPriceSource enabledConfigs observations observedAt).map fun selection =>
    { disagreementWarnings := selection.disagreementWarnings
      outlierReasons :=
        (detectOutliers ⟨selection.selected, none, none, none, none, none, none⟩).reasons
      primaryReasons := selection.selected.reasons
      priceImpactBps := selection.selected.priceImpactBps
      liquidityRaw := selection.selected.liquidityDepthRaw
      minimumHealthyLiquidityRaw :=
        ((configOf enabledConfigs selection.selected).map (·.minimumLiquidityRaw)).getD 0 }

section Load

variable (p : Discovery.Platform) (sources : SourceTable) (t : PriceTable)
variable (trades : List Discovery.DiscoveryTrade) (chainId : ℕ) (tokenAddress : Address)
variable (sourceBlock observedAt : ℕ)

/-- The enabled sources of a token. -/
def enabledConfigs : List PriceSource :=
  (sources.listSourceConfigs chainId tokenAddress).filter (·.enabled)

/-- Their pinned observations. -/
def pinnedObservations : List PriceObservationRow :=
  (enabledConfigs sources chainId tokenAddress).filterMap
    (t.pinnedObservation chainId tokenAddress sourceBlock)

/-- **`DrizzleMarketDataSource.load`.** -/
def loadMarketIntegrity : Option MarketIntegrityInputs :=
  let observations := pinnedObservations sources t chainId tokenAddress sourceBlock
  (pinnedPrices (enabledConfigs sources chainId tokenAddress) observations observedAt).map
    fun prices =>
      { sourceBlock := sourceBlock
        priceAvailable := !observations.isEmpty
        activeSourceCount := observations.length
        disagreementWarnings := prices.disagreementWarnings
        outlierReasons := prices.outlierReasons
        primaryReasons := prices.primaryReasons
        tradesAvailable := true
        tradeCount := trades.length
        manipulation := Discovery.analyzeManipulation p trades
          { liquidityRaw := prices.liquidityRaw
            minimumHealthyLiquidityRaw := prices.minimumHealthyLiquidityRaw
            tinyTradeThresholdRaw := 0
            priceImpactBps := prices.priceImpactBps
            sybilClusterWallets := []
            launchpad := false } }

end Load

/-! ## The result -/

def MARKET_MIN_TRADES_FOR_MANIPULATION : ℕ := 20

/-- The signals a risk scan knows. -/
def MARKET_INTEGRITY_SIGNAL_CODES : List Discovery.ManipulationSignalCode :=
  [.SELF_TRADING, .REPEATED_WALLET_PAIR, .ONE_WALLET_VOLUME_CONCENTRATION, .CIRCULAR_WALLET_VOLUME,
    .RAPID_BUY_SELL_LOOP, .TINY_TRADE_COUNT_INFLATION, .THIN_POOL_PRICE_MANIPULATION]

structure PriceReliability where
  available : Bool
  activeSourceCount : ℕ
  disagreementSourceKeys : List String
  outlierReasons : List PriceReason
  oneTransactionManipulation : Bool
deriving DecidableEq

structure TradeManipulation where
  available : Bool
  tradeCount : ℕ
  minTradesForAssessment : ℕ
  observedSignalCodes : List Discovery.ManipulationSignalCode
  insufficientSignalCodes : List Discovery.ManipulationSignalCode
  methodologyVersion : String
deriving DecidableEq

structure MarketIntegrityResult where
  priceReliability : PriceReliability
  tradeManipulation : TradeManipulation
  sourceBlock : ℕ
deriving DecidableEq

/-- `w.split(':')[1]`. -/
def secondField (warning : String) : Option String :=
  ((warning.toList.splitOn ':')[1]?).map String.ofList

/-- The known signals of a status. -/
def MarketIntegrityInputs.signalCodes (input : MarketIntegrityInputs)
    (status : Discovery.SignalStatus) : List Discovery.ManipulationSignalCode :=
  (input.manipulation.signals.filter fun s =>
    s.status = status && MARKET_INTEGRITY_SIGNAL_CODES.contains s.code).map (·.code)

def buildMarketIntegrityResult (input : MarketIntegrityInputs) : MarketIntegrityResult where
  priceReliability :=
    { available := input.priceAvailable
      activeSourceCount := input.activeSourceCount
      disagreementSourceKeys :=
        (input.disagreementWarnings.filterMap secondField).filter fun k => k ≠ ""
      outlierReasons := input.outlierReasons
      oneTransactionManipulation := decide (.oneTransactionManipulation ∈ input.primaryReasons) }
  tradeManipulation :=
    { available := input.tradesAvailable
      tradeCount := input.tradeCount
      minTradesForAssessment := MARKET_MIN_TRADES_FOR_MANIPULATION
      observedSignalCodes := input.signalCodes .observed
      insufficientSignalCodes := input.signalCodes .insufficientData
      methodologyVersion := input.manipulation.methodologyVersion }
  sourceBlock := input.sourceBlock

end HoodSentry

/-!
## Which sources disagree

A warning joins the source's key between colons and the result splits it
again, so what is reported of a key is its first field. And the engine
compares whole prices at one scale, in whole basis points, whatever they are
quoted in. So the reported keys are those of the sources that disagree exactly
where no such key has a colon and the sources beyond the threshold, as the
engine compares them, have these keys as their first fields.
-/

namespace HoodSentry

section Terms

variable (configs : List PriceSource) (observations : List PriceObservationRow)

/-- **A source disagrees** with the selected one: it is usable, quotes the
same asset, and its price differs by more than the selected source accepts. -/
def Disagrees (o : PriceObservationRow) : Prop :=
  ∃ primary others config raw q, sortObservations configs observations = primary :: others ∧
    configOf configs primary = some config ∧ primary.priceRaw = some raw ∧ o ∈ others ∧
    o.quoteAssetAddress = primary.quoteAssetAddress ∧ o.priceRaw = some q ∧
    DiffersBy config.confidenceRules.disagreementThresholdBps
      (priceValue raw primary.priceDecimals) (priceValue q o.priceDecimals)

/-- The same as the engine compares them: any quote asset, the price aligned
by a truncating division, whole basis points. -/
def WholeDisagrees (o : PriceObservationRow) : Prop :=
  ∃ primary others config raw q, sortObservations configs observations = primary :: others ∧
    configOf configs primary = some config ∧ primary.priceRaw = some raw ∧ o ∈ others ∧
    alignedPrice o primary.priceDecimals = some q ∧
    WholeDiffersBy config.confidenceRules.disagreementThresholdBps raw q

/-- The part of a key before its first colon. -/
def SourceKey.firstField (key : SourceKey) : String :=
  String.ofList (key.text.toList.takeWhile (· ≠ ':'))

/-- **Where the keys come through.** -/
structure KeysKept : Prop where
  /-- A source that disagrees has a key without a colon. -/
  whole : ∀ o, Disagrees configs observations o →
    o.sourceKey.text ≠ "" ∧ ':' ∉ o.sourceKey.text.toList
  /-- The engine finds it too, or another source of that first field. -/
  found : ∀ o, Disagrees configs observations o →
    ∃ other, WholeDisagrees configs observations other ∧
      other.sourceKey.firstField = o.sourceKey.text
  /-- What else it finds has no first field, or that of one that disagrees. -/
  real : ∀ o, WholeDisagrees configs observations o → o.sourceKey.firstField ≠ "" →
    ∃ other, Disagrees configs observations other ∧
      other.sourceKey.text = o.sourceKey.firstField

/-- **What a scan should report**: the keys of the sources that disagree. -/
def DisagreementsReported (p : Discovery.Platform) (sources : SourceTable) (t : PriceTable)
    (trades : List Discovery.DiscoveryTrade) (chainId : ℕ) (tokenAddress : Address)
    (sourceBlock observedAt : ℕ) : Prop :=
  ∃ inputs, loadMarketIntegrity p sources t trades chainId tokenAddress sourceBlock observedAt =
      some inputs ∧
    ∀ key, key ∈ (buildMarketIntegrityResult inputs).priceReliability.disagreementSourceKeys ↔
      ∃ o, Disagrees (enabledConfigs sources chainId tokenAddress)
        (pinnedObservations sources t chainId tokenAddress sourceBlock) o ∧ o.sourceKey.text = key

end Terms

/-! ## The field of a warning -/

/-- What follows a separator does not change the first piece. -/
theorem head_splitOn_append (l m : List Char) :
    ((l ++ ':' :: m).splitOn ':')[0]? = some (l.takeWhile (· ≠ ':')) := by
  have hfree : ':' ∉ l.takeWhile (· ≠ ':') := fun hmem => by
    simpa using List.mem_takeWhile_imp hmem
  have hsplit : ∃ rest, l ++ ':' :: m = l.takeWhile (· ≠ ':') ++ ':' :: rest := by
    have hl := List.takeWhile_append_dropWhile (p := (· ≠ ':')) (l := l)
    cases hdrop : l.dropWhile (· ≠ ':') with
    | nil =>
      rw [hdrop, List.append_nil] at hl
      exact ⟨m, by rw [hl]⟩
    | cons c rest =>
      have hc : c = ':' := by
        have hfirst := List.head?_dropWhile_not (· ≠ ':') l
        rw [hdrop] at hfirst
        simpa using hfirst
      rw [hdrop, hc] at hl
      refine ⟨rest ++ ':' :: m, ?_⟩
      calc l ++ ':' :: m = (l.takeWhile (· ≠ ':') ++ ':' :: rest) ++ ':' :: m := by rw [hl]
        _ = l.takeWhile (· ≠ ':') ++ ':' :: (rest ++ ':' :: m) := by rw [List.append_assoc]; rfl
  obtain ⟨rest, hrest⟩ := hsplit
  rw [hrest, List.splitOn_append_cons_self_of_not_mem hfree]
  rfl

theorem toList_warning (key n : String) : ("SOURCE_DISAGREEMENT:" ++ key ++ ":" ++ n).toList =
    "SOURCE_DISAGREEMENT".toList ++ ':' :: (key.toList ++ ':' :: n.toList) := by
  have hname : "SOURCE_DISAGREEMENT:".toList = "SOURCE_DISAGREEMENT".toList ++ [':'] := by
    decide +kernel
  have hcolon : ":".toList = [':'] := by
    decide +kernel
  simp only [String.toList_append, hname, hcolon, List.append_assoc, List.cons_append,
    List.nil_append]

/-- **What is read of a warning** is the first field of its key. -/
theorem secondField_warning (key n : String) :
    secondField ("SOURCE_DISAGREEMENT:" ++ key ++ ":" ++ n) =
      some (String.ofList (key.toList.takeWhile (· ≠ ':'))) := by
  have hfree : ':' ∉ "SOURCE_DISAGREEMENT".toList := by
    decide +kernel
  rw [secondField, toList_warning, List.splitOn_append_cons_self_of_not_mem hfree,
    List.getElem?_cons_succ, head_splitOn_append, Option.map_some]

theorem secondField_disagreementWarning (key : SourceKey) (n : ℤ) :
    secondField (disagreementWarning key n) = some key.firstField :=
  secondField_warning _ _

theorem colon_not_mem_firstField (key : SourceKey) : ':' ∉ key.firstField.toList := by
  intro hmem
  rw [SourceKey.firstField, String.toList_ofList] at hmem
  simpa using List.mem_takeWhile_imp hmem

/-! ## The warnings -/

section Warnings

variable {configs : List PriceSource} {observations : List PriceObservationRow} {observedAt : ℕ}
variable {result : SourceSelectionResult}

theorem disagreement_eq_some_iff {raw n : ℤ} {primary o : PriceObservationRow}
    {config : PriceSource} :
    disagreement raw primary o config = some n ↔ ∃ q, alignedPrice o primary.priceDecimals = some q ∧
      absoluteDifferenceBps raw q = some n ∧ config.confidenceRules.disagreementThresholdBps < n := by
  simp only [disagreement, Option.bind_eq_some_iff, Option.filter_eq_some_iff, decide_eq_true_eq]

/-- A warning is there for each source that the engine finds to disagree. -/
theorem mem_disagreementWarnings_iff
    (h : selectPriceSource configs observations observedAt = some result) (warning : String) :
    warning ∈ result.disagreementWarnings.filterMap secondField ↔
      ∃ o, WholeDisagrees configs observations o ∧ o.sourceKey.firstField = warning := by
  cases selects_of_eq_some h with
  | none hsorted =>
    refine iff_of_false List.not_mem_nil ?_
    rintro ⟨o, ⟨primary, others, _, _, _, hsome, -⟩, -⟩
    rw [hsorted] at hsome
    cases hsome
  | @some _ config primary others hsorted hconfig =>
    have hwhole : ∀ o, WholeDisagrees configs observations o ↔ o ∈ others ∧
        ∃ raw n, primary.priceRaw = some raw ∧ disagreement raw primary o config = some n := by
      intro o
      constructor
      · rintro ⟨primary', others', config', raw, q, hsorted', hconfig', hraw, ho, hq, hdiffers⟩
        cases hsorted.symm.trans hsorted'
        cases Option.some.inj (hconfig.symm.trans hconfig')
        have hany := absoluteDifferenceBps_any_iff.mpr hdiffers
        cases hn : absoluteDifferenceBps raw q with
        | none => simp [hn] at hany
        | some n =>
          rw [hn, Option.any_some, decide_eq_true_iff] at hany
          exact ⟨ho, raw, n, hraw, disagreement_eq_some_iff.mpr ⟨q, hq, hn, hany⟩⟩
      · rintro ⟨ho, raw, n, hraw, hn⟩
        obtain ⟨q, hq, hn, hless⟩ := disagreement_eq_some_iff.mp hn
        refine ⟨primary, others, config, raw, q, hsorted, hconfig, hraw, ho, hq, ?_⟩
        refine absoluteDifferenceBps_any_iff.mp ?_
        rw [hn, Option.any_some]
        exact decide_eq_true hless
    simp only [hwhole]
    cases hraw : primary.priceRaw with
    | none => simp [disagreementWarnings, hraw]
    | some raw =>
      simp only [disagreementWarnings, hraw, List.mem_filterMap, Option.map_eq_some_iff,
        Option.some.injEq]
      constructor
      · rintro ⟨_, ⟨o, ho, n, hn, rfl⟩, hfield⟩
        rw [secondField_disagreementWarning, Option.some.injEq] at hfield
        exact ⟨o, ⟨ho, raw, n, rfl, hn⟩, hfield⟩
      · rintro ⟨o, ⟨ho, _, n, rfl, hn⟩, hfield⟩
        refine ⟨_, ⟨o, ho, n, hn, rfl⟩, ?_⟩
        rw [secondField_disagreementWarning, hfield]

end Warnings

/-! ## The result of a scan -/

section Scan

variable {p : Discovery.Platform} {sources : SourceTable} {t : PriceTable}
variable {trades : List Discovery.DiscoveryTrade} {chainId : ℕ} {tokenAddress : Address}
variable {sourceBlock observedAt : ℕ}

theorem sourceKey_of_pinnedObservation {config : PriceSource} {o : PriceObservationRow}
    (h : t.pinnedObservation chainId tokenAddress sourceBlock config = some o) :
    o.sourceKey = config.sourceKey := by
  have hmem := List.mem_of_mem_head? (Option.mem_def.mpr h)
  have hkeeps := List.of_mem_filter ((List.mem_insertionSort _).mp hmem)
  simp only [Bool.and_eq_true, decide_eq_true_eq] at hkeeps
  exact hkeeps.1.1.1.2

/-- Each pinned observation is of an enabled source. -/
theorem configOf_isSome {o : PriceObservationRow}
    (h : o ∈ pinnedObservations sources t chainId tokenAddress sourceBlock) :
    (configOf (enabledConfigs sources chainId tokenAddress) o).isSome = true := by
  obtain ⟨config, hconfig, ho⟩ := List.mem_filterMap.mp h
  rw [configOf, List.find?_isSome]
  exact ⟨config, hconfig, decide_eq_true (sourceKey_of_pinnedObservation ho).symm⟩

/-- So the selection never throws. -/
theorem exists_selectPriceSource (observedAt : ℕ)
    (h : pinnedObservations sources t chainId tokenAddress sourceBlock ≠ []) :
    ∃ result, selectPriceSource (enabledConfigs sources chainId tokenAddress)
      (pinnedObservations sources t chainId tokenAddress sourceBlock) observedAt = some result := by
  have hconfigs : enabledConfigs sources chainId tokenAddress ≠ [] := by
    rintro hnil
    exact h (by rw [pinnedObservations, hnil, List.filterMap_nil])
  obtain ⟨fallback, rest, hcons⟩ := List.exists_cons_of_ne_nil hconfigs
  unfold selectPriceSource
  rw [hcons, List.head?_cons, Option.bind_some, ← hcons]
  cases hsorted : sortObservations (enabledConfigs sources chainId tokenAddress)
      (pinnedObservations sources t chainId tokenAddress sourceBlock) with
  | nil => exact ⟨_, rfl⟩
  | cons primary others =>
    have hmem := mem_of_mem_sortObservations (hsorted ▸ List.mem_cons_self)
    obtain ⟨config, hconfig⟩ := Option.isSome_iff_exists.mp (configOf_isSome hmem)
    exact ⟨_, Option.map_eq_some_iff.mpr ⟨config, hconfig, rfl⟩⟩

/-- **What a scan reports**: the first fields of the keys of the sources that
the engine finds to disagree. -/
theorem exists_reported (p : Discovery.Platform) (trades : List Discovery.DiscoveryTrade)
    (observedAt : ℕ) : ∃ inputs,
    loadMarketIntegrity p sources t trades chainId tokenAddress sourceBlock observedAt =
        some inputs ∧
      ∀ key, key ∈ (buildMarketIntegrityResult inputs).priceReliability.disagreementSourceKeys ↔
        key ≠ "" ∧ ∃ o, WholeDisagrees (enabledConfigs sources chainId tokenAddress)
          (pinnedObservations sources t chainId tokenAddress sourceBlock) o ∧
            o.sourceKey.firstField = key := by
  by_cases hnone : pinnedObservations sources t chainId tokenAddress sourceBlock = []
  · refine ⟨_, Option.map_eq_some_iff.mpr ⟨_, if_pos (List.isEmpty_iff.mpr hnone), rfl⟩,
      fun key => iff_of_false List.not_mem_nil ?_⟩
    rintro ⟨-, o, ⟨primary, others, -, -, -, hsorted, -⟩, -⟩
    rw [hnone] at hsorted
    cases hsorted
  · obtain ⟨result, hresult⟩ := exists_selectPriceSource observedAt hnone
    have hfull : ¬(pinnedObservations sources t chainId tokenAddress sourceBlock).isEmpty := by
      rwa [List.isEmpty_iff]
    refine ⟨_, Option.map_eq_some_iff.mpr ⟨_, (if_neg hfull).trans
      (Option.map_eq_some_iff.mpr ⟨result, hresult, rfl⟩), rfl⟩, fun key => ?_⟩
    have hwarned := mem_disagreementWarnings_iff hresult key
    dsimp only [buildMarketIntegrityResult]
    rw [List.mem_filter, decide_eq_true_iff, hwarned, and_comm]

theorem KeysKept.of_reported
    (h : DisagreementsReported p sources t trades chainId tokenAddress sourceBlock observedAt) :
    KeysKept (enabledConfigs sources chainId tokenAddress)
      (pinnedObservations sources t chainId tokenAddress sourceBlock) := by
  obtain ⟨inputs, hload, hkeys⟩ :=
    @exists_reported sources t chainId tokenAddress sourceBlock p trades observedAt
  obtain ⟨inputs', hload', hreported⟩ := h
  cases Option.some.inj (hload.symm.trans hload')
  have hboth := fun key => (hkeys key).symm.trans (hreported key)
  refine ⟨fun o ho => ?_, fun o ho => ?_, fun o ho hfield => (hboth _).mp ⟨hfield, o, ho, rfl⟩⟩
  · obtain ⟨hne, other, -, hother⟩ := (hboth _).mpr ⟨o, ho, rfl⟩
    exact ⟨hne, hother ▸ colon_not_mem_firstField other.sourceKey⟩
  · exact ((hboth _).mpr ⟨o, ho, rfl⟩).2

/-- **Exactly where the reported disagreements are real and complete.** -/
theorem disagreementsReported_iff :
    DisagreementsReported p sources t trades chainId tokenAddress sourceBlock observedAt ↔
      KeysKept (enabledConfigs sources chainId tokenAddress)
        (pinnedObservations sources t chainId tokenAddress sourceBlock) := by
  refine ⟨KeysKept.of_reported, fun hkept => ?_⟩
  obtain ⟨inputs, hload, hkeys⟩ :=
    @exists_reported sources t chainId tokenAddress sourceBlock p trades observedAt
  refine ⟨inputs, hload, fun key => (hkeys key).trans ⟨?_, ?_⟩⟩
  · rintro ⟨hne, o, ho, rfl⟩
    exact hkept.real o ho hne
  · rintro ⟨o, ho, rfl⟩
    exact ⟨(hkept.whole o ho).1, hkept.found o ho⟩

end Scan

/-! ## A verified pool -/

/-- A pool's source beside the oracle's. -/
def PriceSource.samplePool : PriceSource :=
  { PriceSource.sampleOracle with
    sourceKey := .verifiedPool MAINNET_CHAIN_ID ⟨11⟩ ⟨7⟩ USDG
    priority := 2 }

def PriceObservationRow.pinned (config : PriceSource) (price : ℤ) : PriceObservationRow :=
  { PriceObservationRow.of config price with
    observationKey := (config.sourceKey, .time 0)
    sourceBlockNumber := some 1 }

def SourceTable.oracleAndPool : SourceTable :=
  Table.empty.insertAll [.sampleOracle, .samplePool]

/-- The pool's price is three times the oracle's. -/
def PriceTable.oracleAndPool : PriceTable :=
  Table.empty.insertAll [.pinned .sampleOracle 100, .pinned .samplePool 300]

theorem colon_mem_append (a b : String) : ':' ∈ (a ++ ":" ++ b).toList := by
  have hcolon : ':' ∈ ":".toList := by
    decide +kernel
  rw [String.toList_append, String.toList_append]
  exact List.mem_append_left _ (List.mem_append_right _ hcolon)

theorem colon_mem_text {chainId : ℕ} {pool token quote : Address} :
    ':' ∈ (SourceKey.verifiedPool chainId pool token quote).text.toList :=
  colon_mem_append ("verified-pool-v1:" ++ toString chainId ++ ":" ++ addressText pool ++ ":" ++
    addressText token) (addressText quote)

/-- **A verified pool's key is cut at its first colon.** -/
theorem not_disagreementsReported :
    ¬∀ (p : Discovery.Platform) (sources : SourceTable) (t : PriceTable)
      (trades : List Discovery.DiscoveryTrade) (chainId : ℕ) (tokenAddress : Address)
      (sourceBlock observedAt : ℕ),
      DisagreementsReported p sources t trades chainId tokenAddress sourceBlock observedAt := by
  intro h
  have hkept := KeysKept.of_reported
    (h Discovery.samplePlatform .oracleAndPool .oracleAndPool [] MAINNET_CHAIN_ID ⟨7⟩ 1 0)
  have hsorted : sortObservations (enabledConfigs .oracleAndPool MAINNET_CHAIN_ID ⟨7⟩)
      (pinnedObservations .oracleAndPool .oracleAndPool MAINNET_CHAIN_ID ⟨7⟩ 1) =
      [.pinned .sampleOracle 100, .pinned .samplePool 300] := by
    decide +kernel
  have hconfig : configOf (enabledConfigs .oracleAndPool MAINNET_CHAIN_ID ⟨7⟩)
      (.pinned .sampleOracle 100) = some .sampleOracle := by
    decide +kernel
  have hdiffers : DiffersBy 0 (priceValue 100 0) (priceValue 300 0) :=
    differsBy_iff.mpr (by decide)
  have hcolon : ':' ∈ PriceSource.samplePool.sourceKey.text.toList := colon_mem_text
  exact (hkept.whole (.pinned .samplePool 300) ⟨_, _, _, 100, 300, hsorted, hconfig, rfl,
    List.mem_singleton_self _, rfl, rfl, hdiffers⟩).2 hcolon

end HoodSentry

/-!
## From prices to a finding

The price rules of `packages/risk-engine/src/market-integrity-rules.ts` by the
status they come to: the rule on disagreeing sources warns exactly where a
source with a key that does not begin with a colon is found to disagree. What
it reads is pinned: no observation of a later block changes it.
-/

namespace HoodSentry

/-! ## The rules -/

def priceStatus (r : MarketIntegrityResult) (fired requiresTwoSources : Bool)
    (firedStatus : RiskFindingStatus) : RiskFindingStatus :=
  if !r.priceReliability.available then .unknown
  else if requiresTwoSources && r.priceReliability.activeSourceCount < 2 then .notApplicable
  else if fired then firedStatus
  else .pass

/-- `market.source_price_disagreement`. -/
def sourcePriceDisagreement (r : MarketIntegrityResult) : RiskFindingStatus :=
  priceStatus r (r.priceReliability.disagreementSourceKeys ≠ []) true .warning

/-- `market.price_outlier`. -/
def priceOutlier (r : MarketIntegrityResult) : RiskFindingStatus :=
  priceStatus r (r.priceReliability.outlierReasons ≠ []) false .warning

/-- `market.single_transaction_price_manipulation`. -/
def singleTransactionPriceManipulation (r : MarketIntegrityResult) : RiskFindingStatus :=
  priceStatus r r.priceReliability.oneTransactionManipulation false .fail

section Rules

variable {p : Discovery.Platform} {sources : SourceTable} {t : PriceTable}
variable {trades : List Discovery.DiscoveryTrade} {chainId : ℕ} {tokenAddress : Address}
variable {sourceBlock observedAt : ℕ} {inputs : MarketIntegrityInputs}

theorem sources_loadMarketIntegrity
    (h : loadMarketIntegrity p sources t trades chainId tokenAddress sourceBlock observedAt =
      some inputs) :
    inputs.priceAvailable =
        !(pinnedObservations sources t chainId tokenAddress sourceBlock).isEmpty ∧
      inputs.activeSourceCount =
        (pinnedObservations sources t chainId tokenAddress sourceBlock).length := by
  obtain ⟨prices, -, rfl⟩ := Option.map_eq_some_iff.mp h
  exact ⟨rfl, rfl⟩

/-- A source that disagrees is beside another. -/
theorem WholeDisagrees.two_le {configs : List PriceSource} {observations : List PriceObservationRow}
    {o : PriceObservationRow} (h : WholeDisagrees configs observations o) :
    2 ≤ observations.length := by
  obtain ⟨primary, others, -, -, -, hsorted, -, -, ho, -⟩ := h
  have hlength : (sortObservations configs observations).length ≤ observations.length := by
    rw [sortObservations, List.length_insertionSort]
    exact List.length_filter_le _ _
  have hothers : 0 < others.length := List.length_pos_of_mem ho
  rw [hsorted, List.length_cons] at hlength
  omega

/-- **When the rule on disagreeing sources fires**, whatever is stored. -/
theorem sourcePriceDisagreement_status (p : Discovery.Platform) (sources : SourceTable)
    (t : PriceTable) (trades : List Discovery.DiscoveryTrade) (chainId : ℕ)
    (tokenAddress : Address) (sourceBlock observedAt : ℕ) : ∃ inputs status,
    loadMarketIntegrity p sources t trades chainId tokenAddress sourceBlock observedAt =
        some inputs ∧
      sourcePriceDisagreement (buildMarketIntegrityResult inputs) = status ∧
      (status = .unknown ↔
        pinnedObservations sources t chainId tokenAddress sourceBlock = []) ∧
      (status = .notApplicable ↔
        (pinnedObservations sources t chainId tokenAddress sourceBlock).length = 1) ∧
      (status = .warning ↔ ∃ o, WholeDisagrees (enabledConfigs sources chainId tokenAddress)
        (pinnedObservations sources t chainId tokenAddress sourceBlock) o ∧
          o.sourceKey.firstField ≠ "") ∧
      status ≠ .fail := by
  obtain ⟨inputs, hload, hkeys⟩ :=
    @exists_reported sources t chainId tokenAddress sourceBlock p trades observedAt
  obtain ⟨havailable, hcount⟩ := sources_loadMarketIntegrity hload
  have hfired : (buildMarketIntegrityResult inputs).priceReliability.disagreementSourceKeys ≠ [] ↔
      ∃ o, WholeDisagrees (enabledConfigs sources chainId tokenAddress)
        (pinnedObservations sources t chainId tokenAddress sourceBlock) o ∧
          o.sourceKey.firstField ≠ "" := by
    constructor
    · intro hne
      obtain ⟨key, hkey⟩ := List.exists_mem_of_ne_nil _ hne
      obtain ⟨hfield, o, ho, rfl⟩ := (hkeys key).mp hkey
      exact ⟨o, ho, hfield⟩
    · rintro ⟨o, ho, hfield⟩
      exact List.ne_nil_of_mem ((hkeys _).mpr ⟨hfield, o, ho, rfl⟩)
  refine ⟨inputs, _, hload, rfl, ?_⟩
  rw [← hfired, sourcePriceDisagreement, priceStatus]
  have hbuilt : (buildMarketIntegrityResult inputs).priceReliability.available =
      inputs.priceAvailable := rfl
  have hactive : (buildMarketIntegrityResult inputs).priceReliability.activeSourceCount =
      inputs.activeSourceCount := rfl
  rw [hbuilt, hactive, havailable, hcount]
  have htwo := fun hne => (hfired.mp hne).elim fun o ho => ho.1.two_le
  generalize (buildMarketIntegrityResult inputs).priceReliability.disagreementSourceKeys = keys
    at htwo ⊢
  generalize pinnedObservations sources t chainId tokenAddress sourceBlock = observations
    at htwo ⊢
  have hnone : observations.length < 2 → keys = [] := by
    intro hfew
    by_contra hne
    exact absurd (htwo hne) (Nat.not_le.mpr hfew)
  cases observations with
  | nil => simp [hnone (by simp)]
  | cons first rest =>
    cases rest with
    | nil => simp [hnone (by simp)]
    | cons second rest =>
      have hmany : ¬(first :: second :: rest).length < 2 := by
        simp
      by_cases hnone : keys = []
      · simp [hnone]
      · simp [hnone]

/-! ## Pinned rows -/

/-- What a scan may read of the observations of a token. -/
def PriceObservationRow.pinnedAt (chainId : ℕ) (tokenAddress : Address) (sourceBlock : ℕ)
    (r : PriceObservationRow) : Bool :=
  r.chainId = chainId && r.tokenAddress = tokenAddress && r.canonical && r.priceRaw.isSome &&
    r.sourceBlockNumber.any (· ≤ sourceBlock)

theorem pinnedObservation_congr {t' : PriceTable}
    (h : t.rows.filter (·.pinnedAt chainId tokenAddress sourceBlock) =
      t'.rows.filter (·.pinnedAt chainId tokenAddress sourceBlock)) (config : PriceSource) :
    t.pinnedObservation chainId tokenAddress sourceBlock config =
      t'.pinnedObservation chainId tokenAddress sourceBlock config := by
  have hof : ∀ t : PriceTable, (t.rows.filter fun r =>
      r.chainId = chainId && r.tokenAddress = tokenAddress &&
        r.quoteAssetAddress = config.quoteAssetAddress && r.sourceKey = config.sourceKey &&
        r.canonical && r.priceRaw.isSome && r.sourceBlockNumber.any (· ≤ sourceBlock)) =
      (t.rows.filter (·.pinnedAt chainId tokenAddress sourceBlock)).filter fun r =>
        r.quoteAssetAddress = config.quoteAssetAddress && r.sourceKey = config.sourceKey := by
    intro t
    rw [List.filter_filter]
    refine List.filter_congr fun r _ => ?_
    unfold PriceObservationRow.pinnedAt
    rw [Bool.eq_iff_iff]
    simp only [Bool.and_eq_true, decide_eq_true_eq]
    tauto
  unfold PriceTable.pinnedObservation
  rw [hof t, hof t', h]

/-- **An observation of a later block**; what is stored under its key is no
earlier either. -/
structure LaterObservation (t : PriceTable) (sourceBlock : ℕ) (value : PriceObservation) :
    Prop where
  block : value.evidence.sourceBlockNumber.any (· ≤ sourceBlock) = false
  key : ∀ r ∈ t, r.observationKey = value.observationKey →
    r.sourceBlockNumber.any (· ≤ sourceBlock) = false

/-- Saving it leaves the pinned rows as they are. -/
theorem filter_saveObservation {value : PriceObservation}
    (h : LaterObservation t sourceBlock value) :
    (t.saveObservation value).rows.filter (·.pinnedAt chainId tokenAddress sourceBlock) =
      t.rows.filter (·.pinnedAt chainId tokenAddress sourceBlock) := by
  have hnot : ∀ r : PriceObservationRow, r.sourceBlockNumber.any (· ≤ sourceBlock) = false →
      r.pinnedAt chainId tokenAddress sourceBlock = false := by
    intro r hr
    rw [PriceObservationRow.pinnedAt, hr, Bool.and_false]
  exact Table.filter_upsert (hnot _ h.block) fun old hold hkey =>
    ⟨hnot old (h.key old hold hkey), hnot _ (h.key old hold hkey)⟩

/-- The others stay later ones. -/
theorem LaterObservation.saved {value other : PriceObservation}
    (h : LaterObservation t sourceBlock value) (hother : LaterObservation t sourceBlock other) :
    LaterObservation (t.saveObservation other) sourceBlock value := by
  refine ⟨h.block, fun r hr hkey => ?_⟩
  rcases Table.mem_upsert.mp hr with ⟨hold, -⟩ | ⟨old, hold, -, rfl⟩ | ⟨rfl, -⟩
  · exact h.key r hold hkey
  · exact h.key old hold hkey
  · exact hother.block

/-- **A scan is reproducible**: saving any later observations, in any order,
changes nothing it reads at its block. -/
theorem loadMarketIntegrity_saved {values : List PriceObservation}
    (h : ∀ value ∈ values, LaterObservation t sourceBlock value) :
    loadMarketIntegrity p sources (values.foldl PriceTable.saveObservation t) trades chainId
        tokenAddress sourceBlock observedAt =
      loadMarketIntegrity p sources t trades chainId tokenAddress sourceBlock observedAt := by
  have hrows : (values.foldl PriceTable.saveObservation t).rows.filter
        (·.pinnedAt chainId tokenAddress sourceBlock) =
      t.rows.filter (·.pinnedAt chainId tokenAddress sourceBlock) := by
    induction values generalizing t with
    | nil => rfl
    | cons value values ih =>
      have hvalue := h value List.mem_cons_self
      rw [List.foldl_cons, ih fun other hother =>
        (h other (List.mem_cons_of_mem _ hother)).saved hvalue, filter_saveObservation hvalue]
  have hpinned : pinnedObservations sources (values.foldl PriceTable.saveObservation t) chainId
        tokenAddress sourceBlock =
      pinnedObservations sources t chainId tokenAddress sourceBlock :=
    List.filterMap_congr fun config _ => pinnedObservation_congr hrows config
  unfold loadMarketIntegrity
  rw [hpinned]

end Rules

/-- The oracle is observed again, after the pinned block. -/
theorem loadMarketIntegrity_observeFive : ∃ value,
    observeFive "oracle" 8 2 .oracleAndPool = .ok value ∧
      loadMarketIntegrity Discovery.samplePlatform .oracleAndPool
          ([value].foldl PriceTable.saveObservation .oracleAndPool) [] MAINNET_CHAIN_ID ⟨7⟩ 1 0 =
        loadMarketIntegrity Discovery.samplePlatform .oracleAndPool .oracleAndPool []
          MAINNET_CHAIN_ID ⟨7⟩ 1 0 := by
  have hholds : (observeFive "oracle" 8 2 .oracleAndPool).toOption.any (fun value =>
      value.evidence.sourceBlockNumber.any (· ≤ 1) = false &&
        decide (∀ r ∈ PriceTable.oracleAndPool.rows, r.observationKey = value.observationKey →
          r.sourceBlockNumber.any (· ≤ 1) = false)) = true := by
    decide +kernel
  cases hvalue : observeFive "oracle" 8 2 .oracleAndPool with
  | error e =>
    rw [hvalue] at hholds
    cases hholds
  | ok value =>
    rw [hvalue] at hholds
    simp only [Except.toOption, Option.any_some, Bool.and_eq_true, decide_eq_true_eq] at hholds
    refine ⟨value, rfl, loadMarketIntegrity_saved fun other hother => ?_⟩
    rw [List.mem_singleton.mp hother]
    exact ⟨hholds.1, hholds.2⟩

end HoodSentry
