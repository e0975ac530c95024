import HoodSentry.Api.Routes
import HoodSentry.Chain.PreparedSwaps
/-!
# Returned quotes

A quote is returned from the second of two calls, while the limits are
tested on the answer of the first. It keeps them exactly when the second
answer's price impact is still within the limit, and its expected output has
not risen past what the minimum was worked out from.
-/

namespace HoodSentry

namespace Trading

open UniswapV2 (NormalizedPool AnswersRequest)

variable {service : TradingService} {input : QuoteInput} {pools : List NormalizedPool}
variable {answers : Answers} {adapters : List TradingAdapter} {candidates : List Route}
variable {candidate : Provisional} {quoted : NormalizedQuote}

/-! ## The caller's limits -/

/-- **The caller's limits.** -/
structure Respects (input : QuoteInput) (quote : NormalizedQuote) : Prop where
  priceImpact : WithinImpact input quote
  minimum_le : quote.minimumAmountOutRaw ≤ quote.expectedAmountOutRaw
  minimum_pos : 0 < quote.minimumAmountOutRaw
  slippage : quote.expectedAmountOutRaw * (10000 - input.slippageBps) / 10000 ≤
    quote.minimumAmountOutRaw

/-- **The adapters answer what they are asked**, in every call. -/
def Answers.Honest (answers : Answers) : Prop :=
  ∀ n request quote, answers.executable n request = .ok quote → AnswersRequest request quote

/-- The second answer is within the limits the first was tested by. -/
structure StillWithin (input : QuoteInput) (candidate : Provisional) (second : NormalizedQuote) :
    Prop where
  priceImpact : WithinImpact input second
  slippage : second.expectedAmountOutRaw * (10000 - input.slippageBps) / 10000 ≤
    max 1 (candidate.quote.expectedAmountOutRaw * (10000 - input.slippageBps) / 10000)

theorem minimumReceived_eq {expected : ℤ} (hexpected : 0 ≤ expected) (hslippage : input.slippageBps < 10000) :
    minimumReceived input expected = max 1 (expected * (10000 - input.slippageBps) / 10000) := by
  have hnonneg : 0 ≤ expected * (10000 - input.slippageBps) := mul_nonneg hexpected (by omega)
  have hdiv : lessSlippage input expected = expected * (10000 - input.slippageBps) / 10000 :=
    Int.tdiv_eq_ediv_of_nonneg hnonneg
  unfold minimumReceived
  rw [hdiv]
  split_ifs with hpos
  · omega
  · omega

/-! ## The two passes -/

/-- What the first pass keeps has a positive output. -/
theorem expected_pos_of_ranked
    (h : candidate ∈ rankedCandidates service input answers adapters candidates) :
    0 < candidate.quote.expectedAmountOutRaw := by
  unfold rankedCandidates at h
  obtain ⟨entry, -, hentry⟩ := List.mem_filterMap.mp ((List.mem_insertionSort _).mp h)
  unfold provisionalQuote at hentry
  split at hentry
  · cases hentry
  · split at hentry
    · cases hentry
    · split_ifs at hentry with hkept
      obtain rfl := Option.some.inj hentry
      exact hkept.1

theorem of_selected
    (h : selected service input answers adapters candidates = some (candidate, quoted)) :
    candidate ∈ rankedCandidates service input answers adapters candidates ∧
      ∃ n, answers.executable n
        (requestFor service input candidate.adapter candidate.route
          (minimumReceived input candidate.quote.expectedAmountOutRaw)) = .ok quoted := by
  obtain ⟨entry, hmem, hentry⟩ := List.exists_of_findSome?_eq_some h
  unfold executableQuote at hentry
  split at hentry
  · cases hentry
  · rename_i answer hanswer
    split_ifs at hentry
    obtain ⟨rfl, rfl⟩ := Prod.mk.inj (Option.some.inj hentry)
    exact ⟨List.fst_mem_of_mem_zipIdx hmem, entry.2, hanswer⟩

/-- The second pass selects this candidate, with this quote. -/
def Selects (service : TradingService) (input : QuoteInput) (answers : Answers)
    (pools : List NormalizedPool) (candidate : Provisional) (second : NormalizedQuote) : Prop :=
  ∃ adapters, service.requireRuntime input.chainId = .ok adapters ∧
    ¬ input.inputTokenAddress.Same input.outputTokenAddress ∧
    selected service input answers adapters (routeCandidates service input pools) =
      some (candidate, second)

/-- **A returned quote is the selected one.** -/
theorem quote_eq_ok_iff :
    quote service input answers pools = .ok quoted ↔
      ∃ candidate, Selects service input answers pools candidate quoted := by
  unfold quote Selects
  cases hruntime : service.requireRuntime input.chainId with
  | error e =>
    refine iff_of_false (fun h => nomatch h) ?_
    rintro ⟨candidate, adapters, hadapters, -⟩
    exact nomatch hadapters
  | ok adapters =>
    change (if _ then _ else _) = Except.ok quoted ↔ _
    by_cases hsame : input.inputTokenAddress.Same input.outputTokenAddress
    · rw [if_pos hsame]
      exact iff_of_false (fun h => nomatch h) fun ⟨_, _, _, hne, _⟩ => hne hsame
    rw [if_neg hsame]
    cases hroutes : routeCandidates service input pools with
    | nil =>
      refine iff_of_false (fun h => nomatch h) ?_
      rintro ⟨candidate, adapters', -, -, hnone⟩
      exact nomatch hnone
    | cons route routes =>
      dsimp only
      constructor
      · intro h
        cases hselected : selected service input answers adapters (route :: routes) with
        | none =>
          rw [hselected] at h
          exact nomatch h
        | some entry =>
          rw [hselected] at h
          obtain rfl := Except.ok.inj h
          exact ⟨entry.1, adapters, rfl, hsame, hselected⟩
      · rintro ⟨candidate, adapters', hadapters, -, hselected⟩
        obtain rfl := Except.ok.inj hadapters
        rw [hselected]

/-- **One selected quote** keeps the limits exactly when it is still within
them. -/
theorem respects_iff_of_selects (hslippage : input.slippageBps < 10000) (hhonest : answers.Honest)
    (h : Selects service input answers pools candidate quoted) :
    Respects input quoted ↔ StillWithin input candidate quoted := by
  obtain ⟨adapters, -, -, hselected⟩ := h
  obtain ⟨hranked, n, hanswer⟩ := of_selected hselected
  have hexpected := expected_pos_of_ranked hranked
  obtain ⟨hminimum, hle⟩ := hhonest n _ _ hanswer
  change quoted.minimumAmountOutRaw =
    minimumReceived input candidate.quote.expectedAmountOutRaw at hminimum
  change minimumReceived input candidate.quote.expectedAmountOutRaw ≤
    quoted.expectedAmountOutRaw at hle
  rw [minimumReceived_eq hexpected.le hslippage] at hminimum hle
  constructor
  · rintro ⟨himpact, -, -, hslip⟩
    exact ⟨himpact, hminimum ▸ hslip⟩
  · rintro ⟨himpact, hslip⟩
    refine ⟨himpact, hminimum ▸ hle, ?_, hminimum ▸ hslip⟩
    rw [hminimum]
    exact lt_of_lt_of_le Int.one_pos (le_max_left _ _)

/-- **When returned quotes keep the caller's limits**: exactly when the second
answer for the candidate selected is still within them. -/
theorem respects_iff_stillWithin (hslippage : input.slippageBps < 10000) (hhonest : answers.Honest) :
    (∀ quoted, quote service input answers pools = .ok quoted → Respects input quoted) ↔
      ∀ candidate second, Selects service input answers pools candidate second →
        StillWithin input candidate second := by
  constructor
  · intro h candidate second hselects
    exact (respects_iff_of_selects hslippage hhonest hselects).mp
      (h second (quote_eq_ok_iff.mpr ⟨candidate, hselects⟩))
  · intro h quoted hquoted
    obtain ⟨candidate, hselects⟩ := quote_eq_ok_iff.mp hquoted
    exact (respects_iff_of_selects hslippage hhonest hselects).mpr (h candidate quoted hselects)

/-! ## A chain that moves between the calls -/

section Samples

/-- A quote of the one direct route, for what is asked. -/
def quoteOf (request : QuoteRequest) (expectedAmountOutRaw priceImpactBps : ℤ) : NormalizedQuote where
  quoteId := "quote_a1"
  chainId := request.chainId
  protocolKey := request.protocolKey
  protocolVersion := "v2"
  inputTokenAddress := request.inputTokenAddress
  outputTokenAddress := request.outputTokenAddress
  amountInRaw := request.amountInRaw
  expectedAmountOutRaw := expectedAmountOutRaw
  minimumAmountOutRaw := request.minimumAmountOutRaw
  priceImpactBps := some priceImpactBps
  protocolFeeRaw := none
  route := request.route
  spenderAddress := none
  transactionTarget := listedRouter
  transactionSelector := UniswapV2.UNISWAP_V2_SWAP_SELECTOR
  sourceBlockNumber := 7
  createdAt := isoText 0
  expiresAt := isoText 30000
  warnings := []

/-- The first call answers an output of 1000 at an impact of 100 basis points;
the second the output and impact given, where that is what was asked. -/
def movingAnswers (expectedAmountOutRaw priceImpactBps : ℤ) : Answers where
  provisional _ request := .ok (quoteOf request 1000 100)
  executable _ request :=
    if request.minimumAmountOutRaw ≤ expectedAmountOutRaw then
      .ok (quoteOf request expectedAmountOutRaw priceImpactBps)
    else .error (.quoteValidation "Expected output is below minimum received")
  saveQuote _ _ := true

theorem movingAnswers_honest (expected impact : ℤ) : (movingAnswers expected impact).Honest := by
  intro n request quote hquote
  change (if _ then _ else _) = Except.ok quote at hquote
  split_ifs at hquote with hle
  obtain rfl := Except.ok.inj hquote
  exact ⟨rfl, hle⟩

def directPools : List NormalizedPool := [directPool]

/-- What the limits are tested by, of a candidate and its second quote. -/
def figures (entry : Provisional × NormalizedQuote) : ℤ × ℤ × Option ℤ :=
  (entry.1.quote.expectedAmountOutRaw, entry.2.expectedAmountOutRaw, entry.2.priceImpactBps)

/-- The returned quote keeps the limits where nothing moves. -/
theorem respects_unmoved :
    ∃ quoted, quote uniswapService sellsFirst (movingAnswers 1000 100) directPools = .ok quoted ∧
      Respects sellsFirst quoted := by
  obtain ⟨quoted, hquoted⟩ : ∃ quoted,
      quote uniswapService sellsFirst (movingAnswers 1000 100) directPools = .ok quoted := by
    have hok : (quote uniswapService sellsFirst (movingAnswers 1000 100) directPools).isOk := by
      decide +kernel
    match h : quote uniswapService sellsFirst (movingAnswers 1000 100) directPools with
    | .ok quoted => exact ⟨quoted, rfl⟩
    | .error e => rw [h] at hok; exact absurd hok Bool.false_ne_true
  refine ⟨quoted, hquoted,
    (respects_iff_stillWithin (by decide) (movingAnswers_honest 1000 100)).mpr ?_ quoted hquoted⟩
  rintro candidate second ⟨adapters, hadapters, -, hselected⟩
  have hruntime : uniswapService.requireRuntime sellsFirst.chainId =
    .ok (uniswapService.adapters.getD []) := rfl
  obtain rfl := Except.ok.inj (hruntime.symm.trans hadapters)
  have hfigures : (selected uniswapService sellsFirst (movingAnswers 1000 100)
      (uniswapService.adapters.getD []) (routeCandidates uniswapService sellsFirst directPools)).map
        figures = some (1000, 1000, some 100) := by
    decide +kernel
  rw [hselected] at hfigures
  simp only [Option.map_some, figures, Option.some.injEq, Prod.mk.injEq] at hfigures
  obtain ⟨hfirst, hsecond, himpact⟩ := hfigures
  refine ⟨fun impact h => ?_, ?_⟩
  · rw [himpact] at h
    obtain rfl := Option.some.inj h
    decide
  · rw [hfirst, hsecond]
    decide

theorem not_respects :
    ¬ ∀ (service : TradingService) (input : QuoteInput) (answers : Answers)
      (pools : List NormalizedPool), 0 ≤ input.slippageBps → input.slippageBps < 10000 →
      answers.Honest → ∀ quoted, quote service input answers pools = .ok quoted →
        Respects input quoted := by
  intro h
  have hend : ((quote uniswapService sellsFirst (movingAnswers 2000 900) directPools).toOption.any
      fun quoted => decide (¬ WithinImpact sellsFirst quoted)) = true := by
    decide +kernel
  obtain ⟨quoted, hquoted, hmoved⟩ := (Option.any_eq_true _ _).mp hend
  have hok : quote uniswapService sellsFirst (movingAnswers 2000 900) directPools = .ok quoted := by
    cases hq : quote uniswapService sellsFirst (movingAnswers 2000 900) directPools with
    | error e =>
      rw [hq] at hquoted
      exact nomatch hquoted
    | ok q =>
      rw [hq] at hquoted
      exact congrArg Except.ok (Option.some.inj hquoted)
  have hrespects := h _ _ _ _ (by decide) (by decide) (movingAnswers_honest 2000 900) quoted hok
  exact (of_decide_eq_true hmoved) hrespects.priceImpact

end Samples

end Trading

end HoodSentry
