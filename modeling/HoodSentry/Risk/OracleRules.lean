import HoodSentry.Common.Lists
import HoodSentry.Market.Authority
import HoodSentry.Market.Model.Chainlink
import HoodSentry.Risk.Model.Oracle
/-!
# What the oracle rules see

A Chainlink reading is stored with its round, its pause and its sequencer,
but a reading with anything against it is stored without its answer. So a
later scan sees a good reading as it was, and of a bad one no answer: the
rules that need one cannot speak.
-/

namespace HoodSentry

/-! ## Statuses -/

namespace OracleBehaviorResult

variable {r : OracleBehaviorResult} {code : OracleRuleCode}

/-- A rule that is triggered speaks. -/
theorem fired_spec_status (code : OracleRuleCode) : code.spec.status.Fired := by
  cases code <;> decide

/-- **A price rule with what it needs** speaks exactly when triggered. -/
theorem statusFor_of_read (happlicable : r.applicable = true)
    (hprice : code.spec.sequencerRule = false) (hread : r.requiredReadingMissing code = false) :
    r.statusFor code = if r.triggered code then code.spec.status else .pass := by
  simp [statusFor, happlicable, hprice, hread]

theorem fired_iff_of_read (happlicable : r.applicable = true)
    (hprice : code.spec.sequencerRule = false) (hread : r.requiredReadingMissing code = false) :
    (r.statusFor code).Fired ↔ r.triggered code = true := by
  rw [statusFor_of_read happlicable hprice hread]
  cases r.triggered code with
  | true => exact iff_of_true (fired_spec_status code) rfl
  | false => exact iff_of_false (by simp [RiskFindingStatus.Fired]) (by simp)

/-- Without it the rule has no word. -/
theorem statusFor_of_missing (happlicable : r.applicable = true)
    (hprice : code.spec.sequencerRule = false) (hmissing : r.requiredReadingMissing code = true) :
    r.statusFor code = .unknown := by
  simp [statusFor, happlicable, hprice, hmissing]

/-- Only what a rule needs and lacks makes it unknown. -/
theorem missing_of_unknown (happlicable : r.applicable = true) (hup : r.sequencerUp.isSome)
    (hunknown : r.statusFor code = .unknown) : r.requiredReadingMissing code = true := by
  cases hmissing : r.requiredReadingMissing code with
  | true => rfl
  | false =>
    have hstatus : (if r.triggered code then code.spec.status else .pass) = .unknown ∨
        r.statusFor code = .notApplicable := by
      unfold statusFor at hunknown ⊢
      simp only [happlicable, hmissing, Option.isNone_eq_false_iff.mpr hup, Bool.and_false,
        Bool.not_true, Bool.false_eq_true, if_false] at hunknown ⊢
      split at hunknown
      · exact Or.inr (by rename_i h; rw [if_pos h])
      · exact Or.inl hunknown
    rcases hstatus with h | h
    · have hfired := fired_spec_status code
      split at h
      · rw [h] at hfired
        exact absurd hfired (by decide)
      · exact absurd h (by decide)
    · exact absurd (h.symm.trans hunknown) (by decide)

/-- The rule about late answers speaks of an answer past the heartbeat. -/
theorem fired_oracleStale_iff {answer seconds scanTime : ℤ} (happlicable : r.applicable = true)
    (hanswer : r.answerRaw = some answer) (hupdated : r.updatedAtSeconds = some seconds)
    (hscan : r.scanTimeSeconds = some scanTime) :
    (r.statusFor .oracleStale).Fired ↔ ∃ h ∈ r.heartbeatSeconds, (h : ℤ) < scanTime - seconds := by
  cases hheartbeat : r.heartbeatSeconds with
  | none =>
    rw [statusFor_of_missing happlicable rfl (by simp [requiredReadingMissing, hheartbeat])]
    simp [RiskFindingStatus.Fired]
  | some h =>
    rw [fired_iff_of_read happlicable rfl (by
      simp [requiredReadingMissing, hanswer, hupdated, hscan, hheartbeat])]
    simp [triggered, hupdated, hscan, hheartbeat]

/-- The sequencer rule speaks of a sequencer that is down. -/
theorem fired_sequencerDown_iff {up : Bool} (happlicable : r.applicable = true)
    (hup : r.sequencerUp = some up) :
    (r.statusFor .sequencerDown).Fired ↔ r.sequencerConfigured = true ∧ up = false := by
  cases hconfigured : r.sequencerConfigured <;> cases up <;>
    simp [statusFor, triggered, OracleRuleCode.spec, RiskFindingStatus.Fired, happlicable,
      hconfigured, hup]

end OracleBehaviorResult

/-! ## Stored readings -/

/-- The job of a source at a block. -/
def PriceSource.identity (config : PriceSource) (feed : Address) (heartbeat blockNumber : ℕ)
    (blockHash : Hash) : ChainlinkPricingIdentity where
  chainId := config.chainId
  blockNumber := blockNumber
  blockHash := blockHash
  sourceKey := config.sourceKey
  sourceContractAddress := feed
  sourceAssetAddress := config.sourceAssetAddress
  quoteAssetAddress := config.quoteAssetAddress
  oracleHeartbeatSeconds := heartbeat
  sequencerFeedAddress := config.sequencerFeedAddress

/-- **A reading and its row**: the job of a source with a heartbeat stored
the reading at `now`. -/
structure StoredReading (sources : SourceTable) (blocks : Table BlockRow.key) (t t' : PriceTable)
    (answers : OracleAnswers) (now : ℕ) (config : PriceSource) (feed : Address)
    (heartbeat : ℕ) (block : BlockRow) (row : PriceObservationRow) : Prop where
  mem : config ∈ sources
  hasHeartbeat : config.oracleHeartbeatSeconds = some heartbeat
  indexed : blocks.rows.find? (fun b => b.hash = block.hash) = some block
  processed : processChainlinkPriceObservation sources blocks answers now t
    (config.identity feed heartbeat block.number block.hash) = .ok t'
  isRow : row ∈ t' ∧ row.observationKey = (config.sourceKey, .block block.hash)

/-- The row already stored under a key; it keeps its time and its block. -/
def PriceTable.under (t : PriceTable) (observationKey : SourceKey × ObservationPoint) :
    Option PriceObservationRow :=
  t.rows.find? fun r => r.observationKey = observationKey

/-- The configured sequencer feed reports the sequencer down. -/
def ReportsDown (config : PriceSource) (answers : OracleAnswers) : Prop :=
  config.sequencerFeedAddress.isSome ∧ answers.sequencerRound.answer ≠ 0

/-- **Nothing speaks against a reading** at a block of the given time. -/
structure GoodReading (config : PriceSource) (heartbeat blockTime : ℕ)
    (answers : OracleAnswers) : Prop where
  answer : 0 < answers.round.answer
  updatedAt : 0 < answers.round.updatedAt
  round : answers.round.roundId ≤ answers.round.answeredInRound
  paused : answers.paused = false
  sequencer : ¬ReportsDown config answers
  /-- A sequencer that came back is past a heartbeat. -/
  recovered : config.sequencerFeedAddress.isSome → 0 < answers.sequencerRound.startedAt →
    heartbeat + answers.sequencerRound.startedAt ≤ blockTime

/-! ## What a scan sees -/

/-- **The rules see the reading**: each speaks exactly when the reading
gives it cause, and only a missing heartbeat leaves one without a word. -/
structure SeesReading (config : PriceSource) (heartbeat : ℕ) (answers : OracleAnswers)
    (scanTime : ℤ) (r : OracleBehaviorResult) : Prop where
  answerInvalid : (r.statusFor .oracleAnswerInvalid).Fired ↔ answers.round.answer ≤ 0
  incompleteRound : (r.statusFor .oracleIncompleteRound).Fired ↔
    answers.round.answeredInRound < answers.round.roundId
  paused : (r.statusFor .oraclePaused).Fired ↔ answers.paused = true
  sequencerDown : (r.statusFor .sequencerDown).Fired ↔ ReportsDown config answers
  stale : (r.statusFor .oracleStale).Fired ↔ (heartbeat : ℤ) < scanTime - answers.round.updatedAt
  known : ∀ code ≠ .sequencerGracePeriod, r.statusFor code = .unknown →
    code = .oracleStale ∧ r.heartbeatSeconds = none

/-- **What a scan needs** to see a reading stored over `old`, through the
source `oracle` it picked: the reading is good, the row keeps no later
block, and the heartbeat picked and the time kept agree with the reading's
own on whether it is late. -/
structure Readable (config : PriceSource) (heartbeat blockTime : ℕ) (answers : OracleAnswers)
    (old : Option PriceObservationRow) (oracle : PriceSource)
    (input : OracleObservationLoadInput) : Prop where
  good : GoodReading config heartbeat blockTime answers
  pinned : ∀ r ∈ old, ∀ n ∈ r.sourceBlockNumber, n ≤ input.sourceBlock
  stale : (∃ h ∈ oracle.oracleHeartbeatSeconds, (h : ℤ) < input.scanTimeSeconds -
      timestampSeconds (old.elim (answers.round.updatedAt * 1000) (·.sourceTimestamp))) ↔
    (heartbeat : ℤ) < input.scanTimeSeconds - answers.round.updatedAt

section Reading

variable {sources : SourceTable} {blocks : Table BlockRow.key} {t t' : PriceTable}
variable {answers : OracleAnswers} {now heartbeat : ℕ} {config : PriceSource} {feed : Address}
variable {block : BlockRow} {row : PriceObservationRow}

/-- Seconds survive the milliseconds they are stored in. -/
@[simp] theorem timestampSeconds_mul (seconds : ℕ) :
    timestampSeconds (seconds * 1000) = seconds := by
  rw [timestampSeconds, Nat.mul_div_cancel _ (by omega)]

theorem timestampStringFromBigInt_eq_some {seconds ms : ℕ}
    (h : timestampStringFromBigInt seconds = some ms) : ms = seconds * 1000 := by
  unfold timestampStringFromBigInt at h
  split at h
  · exact (Option.some.inj h).symm
  · exact absurd h (by simp)

/-- A source is loaded by its key. -/
theorem loadVerifiedChainlinkPricingContext_eq_ok {identity : ChainlinkPricingIdentity}
    {loaded : PriceSource} {sourceTimestamp : ℕ}
    (h : loadVerifiedChainlinkPricingContext sources blocks identity =
      .ok (some (loaded, sourceTimestamp))) :
    loaded ∈ sources ∧ loaded.sourceKey = identity.sourceKey ∧
      ∃ b, blocks.rows.find? (fun b => b.hash = identity.blockHash) = some b ∧
        sourceTimestamp = b.timestamp * 1000 := by
  unfold loadVerifiedChainlinkPricingContext at h
  split at h
  · exact absurd h (by simp)
  · rename_i c hfind
    split at h
    · exact absurd h (by simp)
    · split at h
      · exact absurd h (by simp)
      · split at h
        · exact absurd h (by simp)
        · rename_i b hb
          rw [Except.ok.injEq, Option.some.injEq, Prod.mk.injEq] at h
          obtain ⟨rfl, rfl⟩ := h
          have hmem := List.mem_of_find?_eq_some hfind
          rw [SourceTable.listSourceConfigs, List.mem_insertionSort, List.mem_filter] at hmem
          exact ⟨hmem.1, by simpa using List.find?_some hfind, b, hb, rfl⟩

/-- The sequencer as the row has it. -/
theorem sequencerResult_up_iff {identity : ChainlinkPricingIdentity}
    (h : identity.sequencerFeedAddress = config.sequencerFeedAddress) :
    (sequencerResult identity answers).up = true ↔ ¬ReportsDown config answers := by
  cases hfeed : config.sequencerFeedAddress with
  | none => simp [sequencerResult, ReportsDown, h, hfeed]
  | some f => simp [sequencerResult, ReportsDown, readSequencerFeed, h, hfeed]

/-- **A good reading is one without reasons.** -/
theorem reasons_eq_nil_iff {evidence : PriceEvidence} {blockTime number : ℕ} {hash : Hash}
    (hheartbeat : config.oracleHeartbeatSeconds = some heartbeat) :
    (chainlinkEvidence (chainlinkInput config (blockTime * 1000)
      (config.identity feed heartbeat number hash) answers (answers.round.updatedAt * 1000))
      evidence).reasons = [] ↔ GoodReading config heartbeat blockTime answers := by
  have hsequencer : (sequencerResult (config.identity feed heartbeat number hash) answers).up =
      true ↔ ¬ReportsDown config answers := sequencerResult_up_iff rfl
  simp only [chainlinkEvidence, chainlinkInput, List.append_eq_nil_iff, ite_eq_right_iff,
    ite_eq_left_iff, List.cons_ne_nil, imp_false, Bool.not_eq_true, Bool.not_eq_false, not_le,
    not_lt, timestampSeconds_mul, hheartbeat, Option.getD_some]
  constructor
  · rintro ⟨⟨⟨⟨⟨hanswer, hupdated⟩, hround⟩, hup⟩, hgrace⟩, hpaused⟩
    refine ⟨hanswer, by omega, hround, hpaused, hsequencer.mp hup, fun hfeed hstarted => ?_⟩
    have hdown := hsequencer.mp hup
    obtain ⟨f, hf⟩ := Option.isSome_iff_exists.mp hfeed
    have hzero : answers.sequencerRound.answer = 0 := by
      by_contra hne
      exact hdown ⟨hfeed, hne⟩
    have hle : (heartbeat : ℤ) ≤ blockTime - answers.sequencerRound.startedAt := by
      simpa [sequencerResult, PriceSource.identity, hf, readSequencerFeed, hzero, hstarted]
        using hgrace
    omega
  · intro h
    refine ⟨⟨⟨⟨⟨h.answer, ?_⟩, h.round⟩, hsequencer.mpr h.sequencer⟩, ?_⟩, h.paused⟩
    · have hpos := h.updatedAt
      omega
    · cases hfeed : config.sequencerFeedAddress with
      | none => simp [sequencerResult, PriceSource.identity, hfeed]
      | some f =>
        have hrecovered := h.recovered (by rw [hfeed]; rfl)
        simp only [sequencerResult, PriceSource.identity, hfeed, readSequencerFeed]
        by_cases hstarted : answers.sequencerRound.answer = 0 ∧ 0 < answers.sequencerRound.startedAt
        · have hle := hrecovered hstarted.2
          have hsub : (heartbeat : ℤ) ≤ blockTime - answers.sequencerRound.startedAt := by omega
          simpa [hstarted.1, hstarted.2] using hsub
        · simp [hstarted]

/-- **The row of a reading**, column by column. -/
structure ReadingRow (config : PriceSource) (identity : ChainlinkPricingIdentity)
    (blockTime : ℕ) (answers : OracleAnswers) (old : Option PriceObservationRow)
    (row : PriceObservationRow) : Prop where
  priceRaw : ∃ evidence, row.priceRaw = (chainlinkEvidence (chainlinkInput config
    (blockTime * 1000) identity answers (answers.round.updatedAt * 1000)) evidence).priceRaw
  roundId : row.roundId = some answers.round.roundId
  answeredInRound : row.answeredInRound = some answers.round.answeredInRound
  oraclePaused : row.oraclePaused = answers.paused
  sequencerUp : row.sequencerUp = some (sequencerResult identity answers).up
  sourceTimestamp : row.sourceTimestamp =
    old.elim (answers.round.updatedAt * 1000) (·.sourceTimestamp)
  sourceBlockNumber : row.sourceBlockNumber =
    old.elim (some identity.blockNumber) (·.sourceBlockNumber)

/-- What a job builds is its source's evaluation of the reading's
evidence, with the reading beside it. -/
theorem buildChainlinkObservation_eq_ok {identity : ChainlinkPricingIdentity}
    {blockTime : ℕ} {value : PriceObservation}
    (h : buildChainlinkObservation config (blockTime * 1000) identity answers t now = .ok value) :
    value.observationKey = (config.sourceKey, .block identity.blockHash) ∧
      ReadingRow config identity blockTime answers none value.row := by
  unfold buildChainlinkObservation at h
  split at h
  · exact absurd h (by simp)
  · rename_i updatedAt hupdated
    obtain rfl := timestampStringFromBigInt_eq_some hupdated
    dsimp only at h
    split at h
    · exact absurd h (by simp)
    · rename_i observation hobservation
      rw [Except.ok.injEq] at h
      subst h
      have hvalue := evaluates_of_eq_some hobservation
      refine ⟨hvalue.observationKey_eq, ⟨⟨observation.evidence, ?_⟩, rfl, rfl, rfl, rfl, ?_, ?_⟩⟩
      · simp only [PriceObservation.row, hvalue.evidence_eq, chainlinkEvidence]
      · simp only [PriceObservation.row, hvalue.evidence_eq, chainlinkEvidence, chainlinkInput,
          Option.elim_none]
      · simp only [PriceObservation.row, hvalue.evidence_eq, chainlinkEvidence, Option.elim_none]

/-- Sources are looked up by chain, token and key. -/
theorem source_eq_of_loaded {identity : ChainlinkPricingIdentity}
    (hchain : identity.chainId = config.chainId)
    (htoken : identity.sourceAssetAddress = config.sourceAssetAddress)
    (hkey : identity.sourceKey = config.sourceKey) (hmem : config ∈ sources)
    {loaded : Option (PriceSource × ℕ)}
    (h : loadVerifiedChainlinkPricingContext sources blocks identity = .ok loaded) :
    ∃ sourceTimestamp, loaded = some (config, sourceTimestamp) := by
  cases hloaded : loaded with
  | none =>
    have hlisted : config ∈ sources.listSourceConfigs identity.chainId
        identity.sourceAssetAddress := by
      rw [SourceTable.listSourceConfigs, List.mem_insertionSort, List.mem_filter]
      exact ⟨hmem, by simp [hchain, htoken]⟩
    rw [hloaded] at h
    unfold loadVerifiedChainlinkPricingContext at h
    split at h
    · rename_i hnone
      have hne := List.find?_eq_none.mp hnone config hlisted
      simp [hkey] at hne
    · split at h
      · exact absurd h (by simp)
      · split at h
        · exact absurd h (by simp)
        · split at h <;> exact absurd h (by simp)
  | some found =>
    obtain ⟨loaded', sourceTimestamp⟩ := found
    rw [hloaded] at h
    obtain ⟨hin, hk, -⟩ := loadVerifiedChainlinkPricingContext_eq_ok h
    have heq : loaded' = config := Table.eq_of_key_eq hin hmem (hk.trans hkey)
    exact ⟨sourceTimestamp, by rw [heq]⟩

/-- A stored observation is the row of its key. -/
theorem row_saveObservation {value : PriceObservation} (hrow : row ∈ t.saveObservation value)
    (hkey : row.observationKey = value.observationKey) :
    row = (t.under value.observationKey).elim value.row value.refresh := by
  rcases Table.mem_upsert.mp hrow with ⟨-, hne⟩ | ⟨old, hold, hk, rfl⟩ | ⟨rfl, hfree⟩
  · exact absurd hkey hne
  · have hunder : t.under value.observationKey = some old := by
      cases hfind : t.under value.observationKey with
      | none =>
        have hno := List.find?_eq_none.mp hfind old hold
        exact absurd (decide_eq_true hk) hno
      | some other =>
        have hother := List.find?_some hfind
        have hmem := List.mem_of_find?_eq_some hfind
        rw [decide_eq_true_eq] at hother
        exact congrArg some (Table.eq_of_key_eq hmem hold (hother.trans hk.symm))
    rw [hunder]
    rfl
  · have hunder : t.under value.observationKey = none := by
      refine List.find?_eq_none.mpr fun x hx => ?_
      rw [decide_eq_true_eq]
      intro hk
      exact hfree (Table.mem_keys.mpr ⟨x, hx, hk⟩)
    rw [hunder]
    rfl

/-- **A stored reading is its job's observation**, written over the row stored
before. -/
theorem StoredReading.exists_value
    (h : StoredReading sources blocks t t' answers now config feed heartbeat block row) :
    ∃ value, buildChainlinkObservation config (block.timestamp * 1000)
        (config.identity feed heartbeat block.number block.hash) answers t now = .ok value ∧
      row = (t.under (config.sourceKey, .block block.hash)).elim value.row value.refresh := by
  have hprocessed := h.processed
  unfold processChainlinkPriceObservation at hprocessed
  obtain ⟨loaded, hloaded, hrest⟩ := bind_eq_ok.mp hprocessed
  obtain ⟨sourceTimestamp, rfl⟩ := source_eq_of_loaded rfl rfl rfl h.mem hloaded
  obtain ⟨-, -, b, hb, rfl⟩ := loadVerifiedChainlinkPricingContext_eq_ok hloaded
  obtain rfl : block = b := Option.some.inj (h.indexed.symm.trans hb)
  dsimp only at hrest
  obtain ⟨value, hvalue, hsaved⟩ := bind_eq_ok.mp hrest
  obtain ⟨hkey, -⟩ := buildChainlinkObservation_eq_ok hvalue
  have ht' : t' = t.saveObservation value := by
    split at hsaved
    · exact (Except.ok.inj hsaved).symm
    · exact absurd hsaved (by simp)
  have hrow := row_saveObservation (ht' ▸ h.isRow.1) (h.isRow.2.trans hkey.symm)
  rw [hkey] at hrow
  exact ⟨value, hvalue, hrow⟩

/-- **A stored reading**, column by column: a row stored before keeps its
time and its block. -/
theorem StoredReading.readingRow
    (h : StoredReading sources blocks t t' answers now config feed heartbeat block row) :
    ReadingRow config (config.identity feed heartbeat block.number block.hash) block.timestamp
      answers (t.under (config.sourceKey, .block block.hash)) row := by
  obtain ⟨value, hvalue, hrow⟩ := h.exists_value
  obtain ⟨-, hfresh⟩ := buildChainlinkObservation_eq_ok hvalue
  cases hold : t.under (config.sourceKey, .block block.hash) with
  | none =>
    have hsame : row = value.row := by rw [hrow, hold]; rfl
    rw [hsame]
    exact hfresh
  | some old =>
    -- The conflict clause leaves the time and the block of the old row.
    have hsame : row = value.refresh old := by rw [hrow, hold]; rfl
    rw [hsame]
    exact ⟨hfresh.priceRaw, hfresh.roundId, hfresh.answeredInRound, hfresh.oraclePaused,
      hfresh.sequencerUp, rfl, rfl⟩

/-- Evidence has the answer exactly when nothing speaks against it. -/
theorem priceRaw_chainlinkEvidence (input : ChainlinkPriceInput) (evidence : PriceEvidence) :
    (chainlinkEvidence input evidence).priceRaw =
      if (chainlinkEvidence input evidence).reasons = [] then some input.answer else none := by
  simp only [chainlinkEvidence, List.isEmpty_iff]

/-- So has its row. -/
theorem StoredReading.priceRaw_eq
    (h : StoredReading sources blocks t t' answers now config feed heartbeat block row) :
    (GoodReading config heartbeat block.timestamp answers →
      row.priceRaw = some answers.round.answer) ∧
    (¬GoodReading config heartbeat block.timestamp answers → row.priceRaw = none) := by
  obtain ⟨evidence, hprice⟩ := h.readingRow.priceRaw
  rw [hprice, priceRaw_chainlinkEvidence]
  have hreasons : (chainlinkEvidence (chainlinkInput config (block.timestamp * 1000)
      (config.identity feed heartbeat block.number block.hash) answers
      (answers.round.updatedAt * 1000)) evidence).reasons = [] ↔
        GoodReading config heartbeat block.timestamp answers := reasons_eq_nil_iff h.hasHeartbeat
  exact ⟨fun hgood => if_pos (hreasons.mpr hgood), fun hbad => if_neg fun h => hbad (hreasons.mp h)⟩

/-- The latest row is a row. -/
theorem mem_of_findLatestOracleStatus {chainId : ℕ} {token quote : Address}
    (h : t.findLatestOracleStatus chainId token quote = some row) : row ∈ t := by
  have hmem := List.mem_of_head? h
  rw [List.mem_insertionSort] at hmem
  exact List.mem_of_mem_filter hmem

variable {oracle : PriceSource} {input : OracleObservationLoadInput} {tScan : PriceTable}

/-- **What a scan loads of a row** of no later block. -/
theorem loadOracleObservation_of_row
    (horacle : sources.oracleConfig input.chainId input.tokenAddress = some oracle)
    (hlatest : tScan.findLatestOracleStatus input.chainId input.tokenAddress
      oracle.quoteAssetAddress = some row) :
    loadOracleObservation sources tScan input =
      if row.sourceBlockNumber.any (input.sourceBlock < ·) then
        { baseResult input with
          applicable := true
          sourceKey := some oracle.sourceKey
          heartbeatSeconds := oracle.oracleHeartbeatSeconds
          sequencerConfigured := oracle.sequencerFeedAddress.isSome }
      else
        { applicable := true
          sourceKey := some oracle.sourceKey
          answerRaw := row.priceRaw
          decimals := some row.priceDecimals
          roundId := row.roundId
          answeredInRound := row.answeredInRound
          updatedAtSeconds := some (timestampSeconds row.sourceTimestamp)
          scanTimeSeconds := some input.scanTimeSeconds
          heartbeatSeconds := oracle.oracleHeartbeatSeconds
          oraclePaused := row.oraclePaused
          sequencerConfigured := oracle.sequencerFeedAddress.isSome
          sequencerUp := row.sequencerUp
          sequencerRecoveredAtSeconds := row.sequencerRecoveredAt
          sourceBlock := input.sourceBlock } := by
  simp only [loadOracleObservation, horacle, hlatest]
  rfl

/-- Without an answer one rule has no word. -/
theorem not_seesReading_of_no_answer {scanTime : ℤ} {r : OracleBehaviorResult}
    (happlicable : r.applicable = true) (hnone : r.answerRaw = none) :
    ¬SeesReading config heartbeat answers scanTime r := by
  intro h
  have hunknown : r.statusFor .oracleAnswerInvalid = .unknown :=
    OracleBehaviorResult.statusFor_of_missing happlicable rfl
      (by simp [OracleBehaviorResult.requiredReadingMissing, hnone])
  exact absurd (h.known .oracleAnswerInvalid (by decide) hunknown).1 (by decide)

/-- A good reading with its answer is seen, up to whether it is late. -/
theorem seesReading_iff_of_answer {blockTime : ℕ} {scanTime seconds : ℤ}
    {r : OracleBehaviorResult}
    (happlicable : r.applicable = true) (hanswer : r.answerRaw = some answers.round.answer)
    (hround : r.roundId = some answers.round.roundId)
    (hanswered : r.answeredInRound = some answers.round.answeredInRound)
    (hpaused : r.oraclePaused = answers.paused) (hup : r.sequencerUp = some true)
    (hupdated : r.updatedAtSeconds = some seconds) (hscan : r.scanTimeSeconds = some scanTime)
    (hgood : GoodReading config heartbeat blockTime answers) :
    SeesReading config heartbeat answers scanTime r ↔
      ((∃ h ∈ r.heartbeatSeconds, (h : ℤ) < scanTime - seconds) ↔
        (heartbeat : ℤ) < scanTime - answers.round.updatedAt) := by
  have hstale := OracleBehaviorResult.fired_oracleStale_iff happlicable hanswer hupdated hscan
  have hinvalid : (r.statusFor .oracleAnswerInvalid).Fired ↔ answers.round.answer ≤ 0 := by
    rw [OracleBehaviorResult.fired_iff_of_read happlicable rfl
      (by simp [OracleBehaviorResult.requiredReadingMissing, hanswer])]
    simp [OracleBehaviorResult.triggered, hanswer]
  have hincomplete : (r.statusFor .oracleIncompleteRound).Fired ↔
      answers.round.answeredInRound < answers.round.roundId := by
    rw [OracleBehaviorResult.fired_iff_of_read happlicable rfl
      (by simp [OracleBehaviorResult.requiredReadingMissing, hround, hanswered])]
    simp [OracleBehaviorResult.triggered, hround, hanswered]
  have hpause : (r.statusFor .oraclePaused).Fired ↔ answers.paused = true := by
    rw [OracleBehaviorResult.fired_iff_of_read happlicable rfl rfl]
    simp [OracleBehaviorResult.triggered, hpaused]
  have hdown : (r.statusFor .sequencerDown).Fired ↔ ReportsDown config answers := by
    rw [OracleBehaviorResult.fired_sequencerDown_iff happlicable hup]
    exact iff_of_false (by simp) hgood.sequencer
  have hknown : ∀ code ≠ .sequencerGracePeriod, r.statusFor code = .unknown →
      code = .oracleStale ∧ r.heartbeatSeconds = none := by
    intro code _ hunknown
    have hmissing := OracleBehaviorResult.missing_of_unknown happlicable (by simp [hup]) hunknown
    cases code <;>
      simp_all [OracleBehaviorResult.requiredReadingMissing]
  constructor
  · intro h
    rw [← hstale]
    exact h.stale
  · intro h
    exact ⟨hinvalid, hincomplete, hpause, hdown, hstale.trans h, hknown⟩

/-- **The rules see a stored reading exactly when it is a good one** and
the scan's picked heartbeat and kept row say the same as the reading on
whether it is late. -/
theorem seesReading_iff
    (h : StoredReading sources blocks t t' answers now config feed heartbeat block row)
    (hblock : block.number ≤ input.sourceBlock)
    (horacle : sources.oracleConfig input.chainId input.tokenAddress = some oracle)
    (hlatest : tScan.findLatestOracleStatus input.chainId input.tokenAddress
      oracle.quoteAssetAddress = some row) :
    SeesReading config heartbeat answers input.scanTimeSeconds
        (loadOracleObservation sources tScan input) ↔
      Readable config heartbeat block.timestamp answers
        (t.under (config.sourceKey, .block block.hash)) oracle input := by
  have hrow := h.readingRow
  have hpinned : row.sourceBlockNumber.any (input.sourceBlock < ·) = false ↔
      ∀ r ∈ t.under (config.sourceKey, .block block.hash), ∀ n ∈ r.sourceBlockNumber,
        n ≤ input.sourceBlock := by
    rw [hrow.sourceBlockNumber]
    cases t.under (config.sourceKey, .block block.hash) with
    | none => simp [PriceSource.identity, hblock]
    | some old => cases hn : old.sourceBlockNumber <;> simp [hn]
  rw [loadOracleObservation_of_row horacle hlatest]
  split
  · rename_i hlater
    refine iff_of_false (not_seesReading_of_no_answer rfl rfl) fun hreadable => ?_
    rw [hpinned.mpr hreadable.pinned] at hlater
    exact absurd hlater (by decide)
  · rename_i hvisible
    rw [Bool.not_eq_true] at hvisible
    by_cases hgood : GoodReading config heartbeat block.timestamp answers
    · have hup : row.sequencerUp = some true := by
        rw [hrow.sequencerUp, (sequencerResult_up_iff rfl).mpr hgood.sequencer]
      rw [seesReading_iff_of_answer rfl (h.priceRaw_eq.1 hgood) hrow.roundId hrow.answeredInRound
        hrow.oraclePaused hup rfl rfl hgood, hrow.sourceTimestamp]
      constructor
      · intro hlate
        exact ⟨hgood, hpinned.mp hvisible, hlate⟩
      · intro hreadable
        exact hreadable.stale
    · exact iff_of_false (not_seesReading_of_no_answer rfl (h.priceRaw_eq.2 hgood))
        fun hreadable => hgood hreadable.good

end Reading

/-! ## Agreement with pricing -/

/-- **Pricing and the rules go by the same limits**: how old a price may be,
and for how long a sequencer must be back. -/
structure SameLimits (config : PriceSource) (heartbeat : ℕ) (oracle : PriceSource) : Prop where
  staleness : oracle.oracleHeartbeatSeconds = some config.maximumStalenessSeconds
  grace : (heartbeat : ℤ) = SEQUENCER_GRACE_SECONDS

/-- No rule speaks against the oracle. -/
def OracleBehaviorResult.Quiet (r : OracleBehaviorResult) : Prop :=
  ∀ code, ¬(r.statusFor code).Fired

/-- The row stored before keeps a later block, and the scan looks past it. -/
def Withheld (old : Option PriceObservationRow) (sourceBlock : ℕ) : Prop :=
  ∃ r ∈ old, ∃ n ∈ r.sourceBlockNumber, sourceBlock < n

/-- **Timely by the clock of the scan**: a time kept from before is within the
limit, and a sequencer that came back, if both sources watch one, is past the
grace period. -/
structure TimelyByScan (config : PriceSource) (answers : OracleAnswers)
    (old : Option PriceObservationRow) (oracle : PriceSource) (scanTime : ℤ) : Prop where
  kept : ∀ r ∈ old,
    scanTime - timestampSeconds r.sourceTimestamp ≤ config.maximumStalenessSeconds
  recovered : oracle.sequencerFeedAddress.isSome → config.sequencerFeedAddress.isSome →
    0 < answers.sequencerRound.startedAt →
    SEQUENCER_GRACE_SECONDS ≤ scanTime - answers.sequencerRound.startedAt

section Agreement

variable {sources : SourceTable} {blocks : Table BlockRow.key} {t t' tScan : PriceTable}
variable {answers : OracleAnswers} {now heartbeat : ℕ} {config oracle : PriceSource}
variable {feed : Address} {block : BlockRow} {row : PriceObservationRow}
variable {input : OracleObservationLoadInput} {r : OracleBehaviorResult}

/-- The grace rule speaks of a sequencer that is only just back. -/
theorem OracleBehaviorResult.fired_sequencerGracePeriod_iff {scanTime : ℤ}
    (happlicable : r.applicable = true) (hup : r.sequencerUp = some true)
    (hscan : r.scanTimeSeconds = some scanTime) :
    (r.statusFor .sequencerGracePeriod).Fired ↔ r.sequencerConfigured = true ∧
      ∃ s ∈ r.sequencerRecoveredAtSeconds, scanTime - s < SEQUENCER_GRACE_SECONDS := by
  cases hconfigured : r.sequencerConfigured with
  | false =>
    simp [statusFor, OracleRuleCode.spec, RiskFindingStatus.Fired, happlicable, hconfigured]
  | true =>
    cases hrecovered : r.sequencerRecoveredAtSeconds with
    | none =>
      simp [statusFor, triggered, OracleRuleCode.spec, RiskFindingStatus.Fired, happlicable,
        hconfigured, hup, hrecovered]
    | some s =>
      by_cases hlate : scanTime - s < SEQUENCER_GRACE_SECONDS <;>
        simp [statusFor, triggered, OracleRuleCode.spec, RiskFindingStatus.Fired, happlicable,
          hconfigured, hup, hrecovered, hscan, hlate]

/-- **Of a good reading two rules can speak**, and both are about time. -/
theorem quiet_iff_of_answer {blockTime : ℕ} {scanTime seconds : ℤ}
    (happlicable : r.applicable = true) (hanswer : r.answerRaw = some answers.round.answer)
    (hround : r.roundId = some answers.round.roundId)
    (hanswered : r.answeredInRound = some answers.round.answeredInRound)
    (hpaused : r.oraclePaused = answers.paused) (hup : r.sequencerUp = some true)
    (hupdated : r.updatedAtSeconds = some seconds) (hscan : r.scanTimeSeconds = some scanTime)
    (hgood : GoodReading config heartbeat blockTime answers) :
    r.Quiet ↔ (∀ h ∈ r.heartbeatSeconds, scanTime - seconds ≤ h) ∧
      (r.sequencerConfigured = true →
        ∀ s ∈ r.sequencerRecoveredAtSeconds, SEQUENCER_GRACE_SECONDS ≤ scanTime - s) := by
  have hstale := OracleBehaviorResult.fired_oracleStale_iff happlicable hanswer hupdated hscan
  have hgrace := OracleBehaviorResult.fired_sequencerGracePeriod_iff happlicable hup hscan
  constructor
  · intro hquiet
    constructor
    · intro h hh
      by_contra hlate
      exact hquiet .oracleStale (hstale.mpr ⟨h, hh, by omega⟩)
    · intro hconfigured s hs
      by_contra hearly
      exact hquiet .sequencerGracePeriod (hgrace.mpr ⟨hconfigured, s, hs, by omega⟩)
  · rintro ⟨hfresh, hrecovered⟩ code
    cases code with
    | oracleStale =>
      rw [hstale]
      rintro ⟨h, hh, hlate⟩
      have hle := hfresh h hh
      omega
    | oracleAnswerInvalid =>
      rw [OracleBehaviorResult.fired_iff_of_read happlicable rfl
        (by simp [OracleBehaviorResult.requiredReadingMissing, hanswer])]
      simpa [OracleBehaviorResult.triggered, hanswer] using hgood.answer
    | oracleIncompleteRound =>
      rw [OracleBehaviorResult.fired_iff_of_read happlicable rfl
        (by simp [OracleBehaviorResult.requiredReadingMissing, hround, hanswered])]
      simpa [OracleBehaviorResult.triggered, hround, hanswered] using hgood.round
    | oraclePaused =>
      rw [OracleBehaviorResult.fired_iff_of_read happlicable rfl rfl]
      simp [OracleBehaviorResult.triggered, hpaused, hgood.paused]
    | sequencerDown =>
      rw [OracleBehaviorResult.fired_sequencerDown_iff happlicable hup]
      simp
    | sequencerGracePeriod =>
      rw [hgrace]
      rintro ⟨hconfigured, s, hs, hearly⟩
      have hle := hrecovered hconfigured s hs
      omega

/-- Without a word on the oracle no rule speaks. -/
theorem quiet_of_unread (happlicable : r.applicable = true) (hanswer : r.answerRaw = none)
    (hround : r.roundId = none) (hpaused : r.oraclePaused = false) (hup : r.sequencerUp = none) :
    r.Quiet := by
  intro code
  cases code <;>
    simp [OracleBehaviorResult.statusFor, OracleBehaviorResult.requiredReadingMissing,
      OracleBehaviorResult.triggered, OracleRuleCode.spec, RiskFindingStatus.Fired, happlicable,
      hanswer, hround, hpaused, hup]
  all_goals split <;> simp

/-- When the sequencer came back, as the row has it. -/
theorem mem_recoveredAt_iff {blockNumber s : ℕ} {blockHash : Hash}
    (hup : ¬ReportsDown config answers) :
    s ∈ (sequencerResult (config.identity feed heartbeat blockNumber blockHash)
        answers).recoveredAt ↔
      config.sequencerFeedAddress.isSome ∧ 0 < answers.sequencerRound.startedAt ∧
        s = answers.sequencerRound.startedAt := by
  cases hfeed : config.sequencerFeedAddress with
  | none => simp [sequencerResult, PriceSource.identity, hfeed]
  | some f =>
    have hzero : answers.sequencerRound.answer = 0 := by
      by_contra hne
      exact hup ⟨by rw [hfeed]; rfl, hne⟩
    by_cases hstarted : 0 < answers.sequencerRound.startedAt <;>
      simp [sequencerResult, PriceSource.identity, hfeed, readSequencerFeed, hzero, hstarted,
        eq_comm]

/-- **An authoritative reading is a good one**, no older than its source's
limit when it was observed. -/
theorem StoredReading.of_authoritative
    (h : StoredReading sources blocks t t' answers now config feed heartbeat block row)
    (hauthoritative : row.authoritative = true) :
    GoodReading config heartbeat block.timestamp answers ∧
      timestampSeconds now - answers.round.updatedAt ≤ config.maximumStalenessSeconds ∧
      row.sequencerRecoveredAt = (sequencerResult
        (config.identity feed heartbeat block.number block.hash) answers).recoveredAt := by
  obtain ⟨value, hvalue, hrow⟩ := h.exists_value
  have hcolumns : row.authoritative = value.authoritative ∧
      row.sequencerRecoveredAt = value.sequencerRecoveredAt := by
    rw [hrow]
    cases t.under (config.sourceKey, .block block.hash) with
    | none => exact ⟨rfl, rfl⟩
    | some old => exact ⟨rfl, rfl⟩
  rw [hcolumns.1] at hauthoritative
  unfold buildChainlinkObservation at hvalue
  split at hvalue
  · exact absurd hvalue (by simp)
  · rename_i updatedAt hupdated
    obtain rfl := timestampStringFromBigInt_eq_some hupdated
    dsimp only at hvalue
    split at hvalue
    · exact absurd hvalue (by simp)
    · rename_i observation hobservation
      rw [Except.ok.injEq] at hvalue
      subst hvalue
      have hpasses := (authoritative_iff_passesChecks hobservation).mp hauthoritative
      refine ⟨(reasons_eq_nil_iff h.hasHeartbeat).mp hpasses.no_reason, ?_, hcolumns.2⟩
      have hfresh := hpasses.fresh
      simpa [stale, chainlinkEvidence, chainlinkInput] using hfresh

/-- **Pricing and risk agree on an authoritative reading** exactly when the
limits of both are the same and the reading is timely by the scan's clock too:
the row may keep an older time, and the clock may be behind the block. -/
theorem quiet_iff
    (h : StoredReading sources blocks t t' answers now config feed heartbeat block row)
    (hauthoritative : row.authoritative = true) (hblock : input.sourceBlock = block.number)
    (htime : input.scanTimeSeconds = timestampSeconds now)
    (horacle : sources.oracleConfig input.chainId input.tokenAddress = some oracle)
    (hlatest : tScan.findLatestOracleStatus input.chainId input.tokenAddress
      oracle.quoteAssetAddress = some row) :
    (loadOracleObservation sources tScan input).Quiet ∧ SameLimits config heartbeat oracle ↔
      SameLimits config heartbeat oracle ∧
        (Withheld (t.under (config.sourceKey, .block block.hash)) block.number ∨
          TimelyByScan config answers (t.under (config.sourceKey, .block block.hash)) oracle
            (timestampSeconds now)) := by
  obtain ⟨hgood, hfresh, hrecovered⟩ := h.of_authoritative hauthoritative
  have hrow := h.readingRow
  have hwithheld : row.sourceBlockNumber.any (input.sourceBlock < ·) = true ↔
      Withheld (t.under (config.sourceKey, .block block.hash)) block.number := by
    rw [hrow.sourceBlockNumber, hblock]
    cases t.under (config.sourceKey, .block block.hash) with
    | none => simp [PriceSource.identity, Withheld]
    | some old => cases hn : old.sourceBlockNumber <;> simp [Withheld, hn]
  rw [and_comm]
  refine and_congr_right fun hsame => ?_
  rw [loadOracleObservation_of_row horacle hlatest]
  split
  · rename_i hlater
    exact iff_of_true (quiet_of_unread rfl rfl rfl rfl rfl) (Or.inl (hwithheld.mp hlater))
  · rename_i hvisible
    have hup : row.sequencerUp = some true := by
      rw [hrow.sequencerUp, (sequencerResult_up_iff rfl).mpr hgood.sequencer]
    rw [quiet_iff_of_answer rfl (h.priceRaw_eq.1 hgood) hrow.roundId hrow.answeredInRound
      hrow.oraclePaused hup rfl rfl hgood, htime, hsame.staleness, hrecovered,
      hrow.sourceTimestamp, or_iff_right fun hold => hvisible (hwithheld.mpr hold)]
    have hkept : (∀ h ∈ some config.maximumStalenessSeconds, timestampSeconds now -
          timestampSeconds ((t.under (config.sourceKey, .block block.hash)).elim
            (answers.round.updatedAt * 1000) (·.sourceTimestamp)) ≤ (h : ℤ)) ↔
        ∀ r ∈ t.under (config.sourceKey, .block block.hash),
          timestampSeconds now - timestampSeconds r.sourceTimestamp ≤
            config.maximumStalenessSeconds := by
      cases t.under (config.sourceKey, .block block.hash) with
      | none => simpa using hfresh
      | some old => simp
    rw [hkept]
    simp only [mem_recoveredAt_iff hgood.sequencer]
    constructor
    · rintro ⟨hold, hback⟩
      exact ⟨hold, fun horacleFeed hfeed hstarted =>
        hback horacleFeed _ ⟨hfeed, hstarted, rfl⟩⟩
    · rintro ⟨hold, hback⟩
      refine ⟨hold, fun horacleFeed s hs => ?_⟩
      obtain ⟨hfeed, hstarted, rfl⟩ := hs
      exact hback horacleFeed hfeed hstarted

end Agreement

/-! ## A sample feed -/

/-- A feed for token 7 in USDG with a heartbeat of an hour. -/
def PriceSource.sampleFeed : PriceSource where
  sourceKey := .named "feed"
  sourceType := .chainlink
  assetClass := .erc20
  chainId := MAINNET_CHAIN_ID
  sourceContractAddress := some ⟨31⟩
  sourceAssetAddress := ⟨7⟩
  quoteAssetAddress := USDG
  verificationSourceUrl := "registry"
  verifiedAt := 0
  minimumLiquidityRaw := 0
  liquidityDecimals := 0
  maximumStalenessSeconds := 3600
  enabled := true
  priority := 1
  confidenceRules := ⟨9000, 0, 0, 0, 0, 10000, 10000, 10000, 10000, 5000⟩
  route := []
  methodologyVersion := "1"
  oracleHeartbeatSeconds := some 3600
  sequencerFeedAddress := none

def BlockRow.sampleFeed : BlockRow :=
  ⟨MAINNET_CHAIN_ID, 1, ⟨1⟩, ⟨0⟩, 1000, .pending, true⟩

/-- The feed answers with a price, and the sequencer is up. -/
def OracleAnswers.sample (answer : ℤ) : OracleAnswers :=
  ⟨8, ⟨5, answer, 990, 990, 5⟩, ⟨1, 0, 0, 0, 1⟩, false⟩

/-- What its job leaves. -/
def PriceTable.sampleFeed (answer : ℤ) : PriceTable :=
  ((processChainlinkPriceObservation (.singleton .sampleFeed) (.singleton .sampleFeed)
    (.sample answer) 1000000 ∅
    (PriceSource.sampleFeed.identity ⟨31⟩ 3600 1 ⟨1⟩)).toOption).getD ∅

def OracleObservationLoadInput.sample : OracleObservationLoadInput :=
  ⟨MAINNET_CHAIN_ID, ⟨7⟩, 1, 1010⟩

/-- A job alone with its source and its block stores its reading. -/
theorem storedReading_singleton {config : PriceSource} {block : BlockRow} {answers : OracleAnswers}
    {now heartbeat : ℕ} {feed : Address} {row : PriceObservationRow} {t : PriceTable}
    (hheartbeat : config.oracleHeartbeatSeconds = some heartbeat)
    (ht : ((processChainlinkPriceObservation (.singleton config) (.singleton block) answers now ∅
      (config.identity feed heartbeat block.number block.hash)).toOption).getD ∅ = t)
    (hok : (processChainlinkPriceObservation (.singleton config) (.singleton block) answers now ∅
      (config.identity feed heartbeat block.number block.hash)).toOption.isSome = true)
    (hrow : row ∈ t) (hkey : row.observationKey = (config.sourceKey, .block block.hash)) :
    StoredReading (.singleton config) (.singleton block) ∅ t answers now config feed heartbeat
      block row where
  mem := List.mem_singleton_self _
  hasHeartbeat := hheartbeat
  indexed := List.find?_cons_of_pos (decide_eq_true rfl)
  processed := by
    cases hrun : processChainlinkPriceObservation (.singleton config) (.singleton block) answers
        now ∅ (config.identity feed heartbeat block.number block.hash) with
    | error e => simp [hrun, Except.toOption] at hok
    | ok t =>
      rw [hrun] at ht
      exact congrArg Except.ok ht
  isRow := ⟨hrow, hkey⟩

theorem stored_sampleFeed {answer : ℤ} {row : PriceObservationRow}
    (hok : (processChainlinkPriceObservation (.singleton .sampleFeed) (.singleton .sampleFeed)
      (.sample answer) 1000000 ∅
      (PriceSource.sampleFeed.identity ⟨31⟩ 3600 1 ⟨1⟩)).toOption.isSome = true)
    (hrow : row ∈ PriceTable.sampleFeed answer)
    (hkey : row.observationKey = (.named "feed", .block ⟨1⟩)) :
    StoredReading (.singleton .sampleFeed) (.singleton .sampleFeed) ∅ (.sampleFeed answer)
      (.sample answer) 1000000 .sampleFeed ⟨31⟩ 3600 .sampleFeed row :=
  storedReading_singleton rfl rfl hok hrow hkey

theorem oracleConfig_sample :
    SourceTable.oracleConfig (.singleton .sampleFeed) OracleObservationLoadInput.sample.chainId
      OracleObservationLoadInput.sample.tokenAddress = some .sampleFeed := by decide

/-- Here the answer is good, and the scan sees it. -/
theorem seesReading_sample :
    ∃ row, (PriceTable.sampleFeed 5).findLatestOracleStatus MAINNET_CHAIN_ID ⟨7⟩ USDG = some row ∧
      (SeesReading .sampleFeed 3600 (.sample 5) 1010
          (loadOracleObservation (.singleton .sampleFeed) (.sampleFeed 5) .sample) ↔
        Readable .sampleFeed 3600 1000 (.sample 5) none .sampleFeed .sample) := by
  have hlatest : ((PriceTable.sampleFeed 5).findLatestOracleStatus MAINNET_CHAIN_ID ⟨7⟩
      USDG).map (·.observationKey) = some (.named "feed", .block ⟨1⟩) := by decide
  obtain ⟨row, hrow, hkey⟩ := Option.map_eq_some_iff.mp hlatest
  have hblock : BlockRow.sampleFeed.number ≤ OracleObservationLoadInput.sample.sourceBlock := by
    decide
  exact ⟨row, hrow, seesReading_iff
    (stored_sampleFeed (by decide) (mem_of_findLatestOracleStatus hrow) hkey) hblock
    oracleConfig_sample hrow⟩

/-- **A zero answer is stored as no answer**, so the rule about answers
has no word on it. -/
theorem not_seesReading :
    ¬∀ (sources : SourceTable) (blocks : Table BlockRow.key) (t t' tScan : PriceTable)
      (answers : OracleAnswers) (now : ℕ) (config oracle : PriceSource) (feed : Address)
      (heartbeat : ℕ) (block : BlockRow) (row : PriceObservationRow)
      (input : OracleObservationLoadInput),
      StoredReading sources blocks t t' answers now config feed heartbeat block row →
      block.number ≤ input.sourceBlock →
      sources.oracleConfig input.chainId input.tokenAddress = some oracle →
      tScan.findLatestOracleStatus input.chainId input.tokenAddress oracle.quoteAssetAddress =
        some row →
      SeesReading config heartbeat answers input.scanTimeSeconds
        (loadOracleObservation sources tScan input) := by
  intro h
  have hlatest : ((PriceTable.sampleFeed 0).findLatestOracleStatus MAINNET_CHAIN_ID ⟨7⟩
      USDG).map (·.observationKey) = some (.named "feed", .block ⟨1⟩) := by decide
  obtain ⟨row, hrow, hkey⟩ := Option.map_eq_some_iff.mp hlatest
  have hsees := h _ _ _ _ (.sampleFeed 0) _ _ _ .sampleFeed _ _ _ _ .sample
    (stored_sampleFeed (by decide) (mem_of_findLatestOracleStatus hrow) hkey) (by decide)
    oracleConfig_sample hrow
  have hfired := hsees.answerInvalid.mpr (by decide)
  have hunknown : (loadOracleObservation (.singleton .sampleFeed) (.sampleFeed 0)
      .sample).statusFor .oracleAnswerInvalid = .unknown := by decide
  rw [hunknown] at hfired
  exact absurd hfired (by decide)

/-- The feed with another heartbeat; its limit stays an hour. -/
def PriceSource.sampleBeat (heartbeat : ℕ) : PriceSource :=
  { PriceSource.sampleFeed with oracleHeartbeatSeconds := some heartbeat }

/-- What its job leaves. -/
def PriceTable.sampleBeat (heartbeat : ℕ) : PriceTable :=
  ((processChainlinkPriceObservation (.singleton (.sampleBeat heartbeat)) (.singleton .sampleFeed)
    (.sample 5) 1000000 ∅
    ((PriceSource.sampleBeat heartbeat).identity ⟨31⟩ heartbeat 1 ⟨1⟩)).toOption).getD ∅

/-- A scan at the block and at the time of the reading. -/
def OracleObservationLoadInput.sampleBeat : OracleObservationLoadInput :=
  ⟨MAINNET_CHAIN_ID, ⟨7⟩, 1, 1000⟩

/-- With a heartbeat of an hour both sides agree on the reading. -/
theorem quiet_sampleBeat :
    ∃ row, (PriceTable.sampleBeat 3600).findLatestOracleStatus MAINNET_CHAIN_ID ⟨7⟩ USDG =
        some row ∧
      ((loadOracleObservation (.singleton (.sampleBeat 3600)) (.sampleBeat 3600) .sampleBeat).Quiet ∧
          SameLimits (.sampleBeat 3600) 3600 (.sampleBeat 3600) ↔
        SameLimits (.sampleBeat 3600) 3600 (.sampleBeat 3600) ∧
          (Withheld none 1 ∨ TimelyByScan (.sampleBeat 3600) (.sample 5) none (.sampleBeat 3600)
            (timestampSeconds 1000000))) := by
  have hlatest : ((PriceTable.sampleBeat 3600).findLatestOracleStatus MAINNET_CHAIN_ID ⟨7⟩
      USDG).map (fun row => (row.observationKey, row.authoritative)) =
        some ((.named "feed", .block ⟨1⟩), true) := by decide
  obtain ⟨row, hrow, hcolumns⟩ := Option.map_eq_some_iff.mp hlatest
  obtain ⟨hkey, hauthoritative⟩ := Prod.mk.inj hcolumns
  have hblock : OracleObservationLoadInput.sampleBeat.sourceBlock = BlockRow.sampleFeed.number := rfl
  exact ⟨row, hrow, quiet_iff
    (storedReading_singleton rfl rfl (by decide) (mem_of_findLatestOracleStatus hrow) hkey)
    hauthoritative hblock (by decide) (by decide) hrow⟩

/-- **An authoritative price is a late one to the rules** when the heartbeat
is shorter than the limit. -/
theorem not_quiet :
    ¬∀ (sources : SourceTable) (blocks : Table BlockRow.key) (t t' tScan : PriceTable)
      (answers : OracleAnswers) (now : ℕ) (config oracle : PriceSource) (feed : Address)
      (heartbeat : ℕ) (block : BlockRow) (row : PriceObservationRow)
      (input : OracleObservationLoadInput),
      StoredReading sources blocks t t' answers now config feed heartbeat block row →
      row.authoritative = true → input.sourceBlock = block.number →
      input.scanTimeSeconds = timestampSeconds now →
      sources.oracleConfig input.chainId input.tokenAddress = some oracle →
      tScan.findLatestOracleStatus input.chainId input.tokenAddress oracle.quoteAssetAddress =
        some row →
      (loadOracleObservation sources tScan input).Quiet ∧ SameLimits config heartbeat oracle := by
  intro h
  have hlatest : ((PriceTable.sampleBeat 5).findLatestOracleStatus MAINNET_CHAIN_ID ⟨7⟩
      USDG).map (fun row => (row.observationKey, row.authoritative)) =
        some ((.named "feed", .block ⟨1⟩), true) := by decide
  obtain ⟨row, hrow, hcolumns⟩ := Option.map_eq_some_iff.mp hlatest
  obtain ⟨hkey, hauthoritative⟩ := Prod.mk.inj hcolumns
  obtain ⟨hquiet, -⟩ := h _ _ _ _ (.sampleBeat 5) _ _ _ (.sampleBeat 5) _ _ _ _ .sampleBeat
    (storedReading_singleton rfl rfl (by decide) (mem_of_findLatestOracleStatus hrow) hkey)
    hauthoritative rfl (by decide) (by decide) hrow
  exact hquiet .oracleStale (by decide)

end HoodSentry
