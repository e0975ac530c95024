import HoodSentry.Chain.Helpers.Fingerprints
/-!
# Prepared swaps

A transaction the Uniswap v2 adapter prepares is that of a quote it issued:
the fingerprint it compares is injective over everything that reaches the
calldata. Only the quote's expiry is known to lie ahead of the server's
clock; the deadline in the calldata is that expiry in whole seconds, which
the clock may have passed.
-/

namespace HoodSentry

namespace UniswapV2

section Calls

variable {H : Type} (A : UniswapV2Adapter) (L : Libraries H)

/-! ## What the adapter keeps -/

/-- **Every fingerprint kept is that of a quote issued.** -/
def FingerprintsIssued (s : AdapterState H) : Prop :=
  ∀ id fingerprint, s.issuedQuotes id = some fingerprint →
    ∃ issued ∈ s.issued, issued.quoteId = id ∧ quoteFingerprint L issued = fingerprint ∧
      ServerMade A issued

/-- Quotes once issued stay issued. -/
def IssuedLater (s s' : AdapterState H) : Prop := s.issued ⊆ s'.issued

/-- What a call ensures while others run on the adapter. -/
abbrev Keeps {α : Type} (P : AdapterState H → α → Prop) (c : Call H α) (s : AdapterState H) : Prop :=
  c.Ensures (FingerprintsIssued A L) IssuedLater P s

variable {A L} {s : AdapterState H} {quote : NormalizedQuote} {route : List NormalizedRouteStep}
variable {user : AddressText}

/-! ## Routes -/

theorem keeps_requirePool {address : AddressText} {P : AdapterState H → NormalizedPool → Prop}
    (h : ∀ pool, P s pool) : Keeps A L P (requirePool address) s := by
  refine Async.ensures_bind (Async.ensures_read ?_)
  cases s.pools address.lower with
  | some pool => exact Async.ensures_pure (h pool)
  | none => exact Async.ensures_fail

theorem keeps_assertCanonicalPair {pool token0 token1 : AddressText}
    {P : AdapterState H → Unit → Prop}
    (h : ∀ s', FingerprintsIssued A L s' → IssuedLater s s' → P s' ()) :
    Keeps A L P (assertCanonicalPair pool token0 token1) s :=
  Async.ensures_bind <| Async.ensures_ask fun s' hs' hlater (_ : AddressText) =>
    Async.ensures_require fun _ => h s' hs' hlater

theorem IssuedLater.trans {s s' s'' : AdapterState H} (h : IssuedLater s s')
    (h' : IssuedLater s' s'') : IssuedLater s s'' :=
  List.Subset.trans h h'

/-- **A validated route** is made of the adapter's own steps. -/
theorem keeps_validateSteps {expected : Option AddressText} {P : AdapterState H → Unit → Prop}
    (hs : FingerprintsIssued A L s)
    (h : ∀ s', FingerprintsIssued A L s' → IssuedLater s s' → OwnSteps A route → P s' ()) :
    Keeps A L P (validateSteps A expected route) s := by
  induction route generalizing s expected with
  | nil => exact Async.ensures_pure (h s hs (List.Subset.refl _) fun _ hstep => nomatch hstep)
  | cons step rest ih =>
    refine Async.ensures_bind (keeps_requirePool fun pool => ?_)
    refine Async.ensures_bind (Async.ensures_require fun hfee => ?_)
    refine Async.ensures_bind (Async.ensures_require fun hprotocol => ?_)
    refine Async.ensures_bind (Async.ensures_require fun _ => ?_)
    refine Async.ensures_bind (Async.ensures_require fun _ => ?_)
    refine Async.ensures_bind (keeps_assertCanonicalPair fun s' hs' hlater => ?_)
    refine ih hs' fun s'' hs'' hlater' hrest => h s'' hs'' (hlater.trans hlater') ?_
    intro step' hstep'
    rcases List.mem_cons.mp hstep' with rfl | hmem
    · exact ⟨hprotocol, hfee⟩
    · exact hrest step' hmem

/-- The tokens a route passes. -/
def tokensAlong : List NormalizedRouteStep → List AddressText
  | [] => []
  | first :: rest =>
    first.inputTokenAddress :: (first :: rest).map NormalizedRouteStep.outputTokenAddress

theorem keeps_routePath {P : AdapterState H → List AddressText → Prop}
    (h : route ≠ [] → P s (tokensAlong route)) : Keeps A L P (routePath route) s := by
  cases route with
  | nil => exact Async.ensures_fail
  | cons first rest => exact Async.ensures_pure (h (List.cons_ne_nil _ _))

/-! ## Issuing -/

theorem keeps_readPoolState {pool : AddressText} {P : AdapterState H → ℕ × ℕ → Prop}
    (h : ∀ s' reserves, FingerprintsIssued A L s' → IssuedLater s s' → P s' reserves) :
    Keeps A L P (readPoolState pool) s := by
  refine Async.ensures_bind (Async.ensures_ask fun s' _ hlater _ => ?_)
  refine Async.ensures_bind (keeps_requirePool fun _ => ?_)
  refine Async.ensures_bind (Async.ensures_ask fun s'' hs'' hlater' (reserves : ℕ × ℕ × ℕ) => ?_)
  exact Async.ensures_pure (h s'' _ hs'' (hlater.trans hlater'))

theorem keeps_quotePriceImpact {amountIn amountOut : ℤ} {P : AdapterState H → Option ℤ → Prop}
    (hs : FingerprintsIssued A L s)
    (h : ∀ s' impact, FingerprintsIssued A L s' → IssuedLater s s' → P s' impact) :
    Keeps A L P (quotePriceImpact route amountIn amountOut) s := by
  unfold quotePriceImpact
  split
  · refine Async.ensures_bind (keeps_requirePool fun pool => ?_)
    refine Async.ensures_bind (keeps_readPoolState fun s' reserves hs' hlater => ?_)
    refine Async.ensures_bind (Async.ensures_ofExcept fun impact _ => ?_)
    exact Async.ensures_pure (h s' _ hs' hlater)
  · exact Async.ensures_pure (h s _ hs (List.Subset.refl _))

theorem keeps_toISOString {ms : ℤ} {P : AdapterState H → String → Prop} (h : P s (isoText ms)) :
    Keeps A L P (toISOString ms) s :=
  Async.ensures_bind <| Async.ensures_require fun _ => Async.ensures_pure h

/-- **Issuing a quote** of the adapter's making keeps every fingerprint that
of a quote issued. -/
theorem FingerprintsIssued.issue (hs : FingerprintsIssued A L s) (hmade : ServerMade A quote) :
    FingerprintsIssued A L
      { s with
        issuedQuotes :=
          Function.update s.issuedQuotes quote.quoteId (some (quoteFingerprint L quote))
        issued := s.issued ++ [quote] } := by
  intro id fingerprint hid
  change Function.update s.issuedQuotes quote.quoteId (some (quoteFingerprint L quote)) id =
    some fingerprint at hid
  by_cases hsame : id = quote.quoteId
  · subst hsame
    rw [Function.update_self] at hid
    exact ⟨quote, List.mem_append_right _ (List.mem_singleton_self _), rfl,
      Option.some.inj hid, hmade⟩
  · rw [Function.update_of_ne hsame] at hid
    obtain ⟨issued, hissued, hrest⟩ := hs id fingerprint hid
    exact ⟨issued, List.mem_append_left _ hissued, hrest⟩

/-- **What a quote answers of its request**: the least output asked for, and
no less expected. -/
structure AnswersRequest (request : QuoteRequest) (quote : NormalizedQuote) : Prop where
  minimumAmountOutRaw : quote.minimumAmountOutRaw = request.minimumAmountOutRaw
  expectedAmountOutRaw : request.minimumAmountOutRaw ≤ quote.expectedAmountOutRaw

theorem keeps_getQuote {request : QuoteRequest} {random : RandomText} :
    Keeps A L (fun _ quote => AnswersRequest request quote) (getQuote A L request random) s := by
  refine Async.ensures_bind (Async.ensures_ask fun s₁ hs₁ _ _ => ?_)
  refine Async.ensures_bind (Async.ensures_bind (Async.ensures_require fun _ => ?_))
  refine Async.ensures_bind (Async.ensures_require fun _ => ?_)
  refine Async.ensures_bind (Async.ensures_require fun _ => ?_)
  refine Async.ensures_require fun _ => ?_
  refine Async.ensures_bind (keeps_validateSteps hs₁ fun s₂ hs₂ _ hown => ?_)
  refine Async.ensures_bind (keeps_routePath fun hne => ?_)
  refine Async.ensures_bind (Async.ensures_ask fun s₃ _ _ (amountsValue : List ℕ) => ?_)
  refine Async.ensures_bind (Async.ensures_ofExcept fun amounts _ => ?_)
  refine Async.ensures_bind (Async.ensures_require fun _ => ?_)
  refine Async.ensures_bind (Async.ensures_require fun hexpected => ?_)
  refine Async.ensures_bind (Async.ensures_ask fun s₄ hs₄ _ (block : ℕ) => ?_)
  refine Async.ensures_bind (Async.ensures_read ?_)
  refine Async.ensures_bind (keeps_quotePriceImpact hs₄ fun s₅ impact hs₅ _ => ?_)
  refine Async.ensures_bind (keeps_toISOString ?_)
  refine Async.ensures_bind (keeps_toISOString ?_)
  refine Async.ensures_bind (Async.ensures_read ?_)
  refine Async.ensures_bind (Async.ensures_write ?_ (List.subset_append_left _ _)
    (Async.ensures_pure ⟨rfl, hexpected⟩))
  exact hs₅.issue
    { quoteId := ⟨random, rfl⟩
      protocolKey := rfl
      protocolVersion := rfl
      transactionSelector := rfl
      spenderAddress := rfl
      createdAt := ⟨_, rfl⟩
      expiresAt := ⟨_, rfl⟩
      ownSteps := hown
      route_ne := hne }

/-! ## Preparing -/

variable (A L) in
/-- **What a prepared transaction is known to be**, before the fingerprints
are read. -/
structure Cleared (quote : NormalizedQuote) (user : AddressText) (p : Prepared)
    (s : AdapterState H) : Prop where
  issued : ∃ issued ∈ s.issued, quoteFingerprint L issued = quoteFingerprint L quote ∧
    ServerMade A issued
  ownSteps : OwnSteps A quote.route
  route_ne : quote.route ≠ []
  expiry : ∃ expiry, L.dateTime quote.expiresAt = some expiry ∧ p.serverTime < expiry ∧
    p.transaction.deadline = expiry / 1000
  chainTime : (p.chainTime : ℤ) < p.transaction.deadline
  data : L.encodeFunctionData
      { amountIn := quote.amountInRaw
        amountOutMin := quote.minimumAmountOutRaw
        path := tokensAlong quote.route
        recipient := user
        deadline := p.transaction.deadline } = .ok p.transaction.data
  target : p.transaction.toAddress = A.router
  spender : p.transaction.spenderAddress = some A.router
  value : p.transaction.value = 0

theorem Cleared.later {p : Prepared} {s' : AdapterState H} (h : Cleared A L quote user p s)
    (hlater : IssuedLater s s') : Cleared A L quote user p s' := by
  obtain ⟨issued, hissued, hrest⟩ := h.issued
  exact { h with issued := ⟨issued, hlater hissued, hrest⟩ }

/-- What the checks of the quote itself establish. -/
theorem keeps_validatePreparedQuote [DecidableEq H] {P : AdapterState H → ℤ → Prop}
    (hs : FingerprintsIssued A L s)
    (h : (∃ issued ∈ s.issued, quoteFingerprint L issued = quoteFingerprint L quote ∧
        ServerMade A issued) →
      (∀ expiry ∈ L.dateTime quote.expiresAt, s.now < expiry) → P s s.now) :
    Keeps A L P (validatePreparedQuote A L quote) s := by
  refine Async.ensures_bind (Async.ensures_require fun _ => ?_)
  refine Async.ensures_bind (Async.ensures_require fun _ => ?_)
  refine Async.ensures_bind (Async.ensures_require fun _ => ?_)
  refine Async.ensures_bind (Async.ensures_require fun _ => ?_)
  refine Async.ensures_bind (Async.ensures_read ?_)
  refine Async.ensures_bind (Async.ensures_require fun hexpiry => ?_)
  refine Async.ensures_bind (Async.ensures_require fun _ => ?_)
  refine Async.ensures_bind (Async.ensures_require fun hkept => ?_)
  obtain ⟨issued, hissued, -, hsame, hmade⟩ := hs _ _ hkept
  exact Async.ensures_pure (h ⟨issued, hissued, hsame, hmade⟩ hexpiry)

theorem keeps_deadlineOf {expiresAt : String} {P : AdapterState H → ℤ → Prop}
    (h : ∀ expiry, L.dateTime expiresAt = some expiry → P s (expiry / 1000)) :
    Keeps A L P (deadlineOf L expiresAt) s := by
  unfold deadlineOf
  split
  · rename_i expiry hexpiry
    exact Async.ensures_pure (h expiry hexpiry)
  · exact Async.ensures_fail

theorem of_mapError_ok {ε ε' α : Type} {r : Except ε α} {f : ε → ε'} {a : α}
    (h : r.mapError f = .ok a) : r = .ok a := by
  cases r with
  | error e => nomatch h
  | ok b => exact congrArg Except.ok (Except.ok.inj h)

theorem keeps_prepareSwapTransaction [DecidableEq H] :
    Keeps A L (fun s p => Cleared A L quote user p s) (prepareSwapTransaction A L quote user) s := by
  refine Async.ensures_bind (Async.ensures_ask fun s₁ _ _ _ => ?_)
  refine Async.ensures_bind (Async.ensures_ask fun s₂ _ _ _ => ?_)
  refine Async.ensures_bind (Async.ensures_ask fun s₃ hs₃ _ (chainId : ℤ) => ?_)
  refine Async.ensures_bind (Async.ensures_require fun _ => ?_)
  refine Async.ensures_bind (keeps_validatePreparedQuote hs₃ fun hissued hexpires => ?_)
  refine Async.ensures_bind (keeps_validateSteps hs₃ fun s₄ _ hlater₄ hown => ?_)
  refine Async.ensures_bind (keeps_deadlineOf fun expiry hexpiry => ?_)
  refine Async.ensures_bind (Async.ensures_ask fun s₅ _ hlater₅ (currentTimestamp : ℕ) => ?_)
  refine Async.ensures_bind (Async.ensures_require fun hchain => ?_)
  refine Async.ensures_bind (keeps_routePath fun hne => ?_)
  refine Async.ensures_bind (Async.ensures_ofExcept fun data hdata => ?_)
  refine Async.ensures_bind (Async.ensures_require fun _ => ?_)
  refine Async.ensures_bind
    (Async.ensures_ask fun s₆ _ hlater₆ (simulation : ProtocolSimulationResult) => ?_)
  refine Async.ensures_bind (Async.ensures_require fun _ => ?_)
  refine Async.ensures_bind (Async.ensures_ofExcept fun _ _ => Async.ensures_pure ?_)
  obtain ⟨issued, hmem, hrest⟩ := hissued
  exact
    { issued := ⟨issued, hlater₆ (hlater₅ (hlater₄ hmem)), hrest⟩
      ownSteps := hown
      route_ne := hne
      expiry := ⟨expiry, hexpiry, hexpires expiry hexpiry, rfl⟩
      chainTime := hchain
      data := of_mapError_ok hdata
      target := rfl
      spender := rfl
      value := rfl }

/-! ## Every run -/

variable (A L) in
/-- What each call is known to have returned. -/
def Promised : AdapterCall → AdapterState H → CallResult → Prop
  | .getQuote request _, _, .quoted quote => AnswersRequest request quote
  | .prepareSwapTransaction quote user, s, .prepared p => Cleared A L quote user p s
  | _, _, _ => True

theorem Promised.later {call : AdapterCall} {result : CallResult} {s' : AdapterState H}
    (hlater : IssuedLater s s') (h : Promised A L call s result) : Promised A L call s' result := by
  unfold Promised at h ⊢
  split
  · exact h
  · exact Cleared.later h hlater
  · exact trivial

theorem keeps_callBody [DecidableEq H] (call : AdapterCall) (s : AdapterState H)
    (hs : FingerprintsIssued A L s) : Keeps A L (Promised A L call) (callBody A L call) s := by
  cases call with
  | setClock now =>
    refine Async.ensures_bind (Async.ensures_read ?_)
    refine Async.ensures_bind (Async.ensures_write hs (List.Subset.refl _) ?_)
    exact Async.ensures_pure trivial
  | registerPool pool =>
    refine Async.ensures_bind (Async.ensures_bind (Async.ensures_require fun _ => ?_))
    refine Async.ensures_bind (Async.ensures_require fun _ => ?_)
    refine Async.ensures_bind (Async.ensures_read ?_)
    exact Async.ensures_write hs (List.Subset.refl _) (Async.ensures_pure trivial)
  | getQuote request random =>
    exact Async.ensures_bind (keeps_getQuote.mono fun _ _ hanswers => Async.ensures_pure hanswers)
  | prepareSwapTransaction quote user =>
    exact Async.ensures_bind
      (keeps_prepareSwapTransaction.mono fun _ _ hcleared => Async.ensures_pure hcleared)

theorem promised_of_reachable [DecidableEq H]
    {w : CallWorld Query Answer (AdapterState H) AdapterError AdapterCall CallResult}
    (h : (adapterMachine A L).Reachable w) {call : AdapterCall} {result : CallResult}
    (hcall : (call, Async.done (.ok result)) ∈ w.calls) : Promised A L call w.shared result := by
  refine ensured_of_reachable (FingerprintsIssued A L) IssuedLater (Promised A L)
    (fun _ => List.Subset.refl _) IssuedLater.trans Promised.later ?_ keeps_callBody h hcall
  rintro s ⟨now, rfl⟩
  exact fun _ _ hnone => nomatch hnone

/-- Every quote the adapter returns answers its request. -/
theorem answersRequest_of_reachable [DecidableEq H]
    {w : CallWorld Query Answer (AdapterState H) AdapterError AdapterCall CallResult}
    (h : (adapterMachine A L).Reachable w) {request : QuoteRequest} {random : RandomText}
    (hcall : (.getQuote request random, Async.done (.ok (.quoted quote))) ∈ w.calls) :
    AnswersRequest request quote :=
  promised_of_reachable h hcall

variable (A L) in
/-- **A transaction of a quote issued**: its calldata encodes the quote's
amounts and path and the user, for the adapter's router and no value. The
quote's expiry was ahead of the server's clock when it was checked; the
deadline, that expiry in whole seconds, was ahead of the chain's. -/
structure PreparedFrom (issued : NormalizedQuote) (user : AddressText) (p : Prepared) : Prop where
  data : L.encodeFunctionData
      { amountIn := issued.amountInRaw
        amountOutMin := issued.minimumAmountOutRaw
        path := tokensAlong issued.route
        recipient := user
        deadline := p.transaction.deadline } = .ok p.transaction.data
  target : p.transaction.toAddress = A.router
  spender : p.transaction.spenderAddress = some A.router
  value : p.transaction.value = 0
  expiry : ∃ expiry, L.dateTime issued.expiresAt = some expiry ∧ p.serverTime < expiry ∧
    p.transaction.deadline = expiry / 1000
  chainTime : (p.chainTime : ℤ) < p.transaction.deadline

/-- **A prepared swap is one the server quoted**, in every run of the
adapter's calls, however they interleave. -/
theorem preparedFrom_issued [DecidableEq H]
    {w : CallWorld Query Answer (AdapterState H) AdapterError AdapterCall CallResult}
    (h : (adapterMachine A L).Reachable w) {p : Prepared}
    (hcall : (.prepareSwapTransaction quote user, Async.done (.ok (.prepared p))) ∈ w.calls)
    (hkeccak : ∀ issued ∈ w.shared.issued,
      L.keccak256 (fingerprintText issued) = L.keccak256 (fingerprintText quote) →
        fingerprintText issued = fingerprintText quote) :
    ∃ issued ∈ w.shared.issued, SameFingerprinted quote issued ∧ PreparedFrom A L issued user p := by
  have hcleared : Cleared A L quote user p w.shared := promised_of_reachable h hcall
  obtain ⟨issued, hmem, hsame, hmade⟩ := hcleared.issued
  have hquote : SameFingerprinted quote issued :=
    hmade.sameFingerprinted hcleared.ownSteps hcleared.route_ne (hkeccak issued hmem hsame)
  refine ⟨issued, hmem, hquote, ?_⟩
  have hdata := hcleared.data
  have hexpiry := hcleared.expiry
  rw [hquote.amountInRaw, hquote.minimumAmountOutRaw, hquote.route] at hdata
  rw [hquote.expiresAt] at hexpiry
  exact ⟨hdata, hcleared.target, hcleared.spender, hcleared.value, hexpiry, hcleared.chainTime⟩

end Calls

/-! ## A run -/

section Samples

def tokenIn : AddressText := repeatedAddress '1' (by decide)

def tokenOut : AddressText := repeatedAddress '2' (by decide)

def pairAddress : AddressText := repeatedAddress '3' (by decide)

def trader : AddressText := repeatedAddress '4' (by decide)

/-- The adapter of the registry's definition. -/
def uniswapV2 : UniswapV2Adapter where
  protocolKey := .uniswap
  version := .v2
  chainId := 4663
  factory := repeatedAddress '5' (by decide)
  router := repeatedAddress '6' (by decide)
  defaultQuoteTtlSeconds := 30
  maximumQuoteTtlSeconds := 120

/-- The calldata as a text, its selector first. -/
def encodedSwap (arguments : SwapArguments) : String :=
  UNISWAP_V2_SWAP_SELECTOR ++ joinTexts ','
    (arguments.amountIn.repr :: arguments.amountOutMin.repr :: arguments.recipient.text ::
      arguments.deadline.repr :: arguments.path.map AddressText.text)

/-- Libraries without collisions: a text is its own hash. -/
def plainLibraries : Libraries String where
  keccak256 := id
  encodeFunctionData arguments := .ok (encodedSwap arguments)
  decodeFunctionResult _ := .ok [100, 90]
  dateTime text := if text = isoText 30500 then some 30500 else none

def directRoute : List NormalizedRouteStep :=
  [{ protocolKey := "uniswap"
     protocolVersion := "v2"
     poolAddress := pairAddress
     inputTokenAddress := tokenIn
     outputTokenAddress := tokenOut
     feeTier := some UNISWAP_V2_FEE_TIER }]

def quoteRequest : QuoteRequest where
  chainId := 4663
  protocolKey := "uniswap"
  inputTokenAddress := tokenIn
  outputTokenAddress := tokenOut
  amountInRaw := 100
  minimumAmountOutRaw := 85
  route := directRoute
  ttlSeconds := none

/-- The quote of half a second past the epoch. -/
def quoteOfHalfSecond : NormalizedQuote where
  quoteId := "quote_a1"
  chainId := 4663
  protocolKey := "uniswap"
  protocolVersion := "v2"
  inputTokenAddress := tokenIn
  outputTokenAddress := tokenOut
  amountInRaw := 100
  expectedAmountOutRaw := 90
  minimumAmountOutRaw := 85
  priceImpactBps := some 1000
  protocolFeeRaw := some 0
  route := directRoute
  spenderAddress := some uniswapV2.router
  transactionTarget := uniswapV2.router
  transactionSelector := UNISWAP_V2_SWAP_SELECTOR
  sourceBlockNumber := 7
  createdAt := isoText 500
  expiresAt := isoText 30500
  warnings := []

def answersOfBlock (chainTime : ℕ) : ∀ q, Except AdapterError (Answer q)
  | .assertActive | .assertTradingEnabled => .ok ()
  | .getChainId => .ok (4663 : ℤ)
  | .getPair _ _ => .ok pairAddress
  | .getAmountsOut _ _ => .ok [100, 90]
  | .getBlockNumber => .ok (7 : ℕ)
  | .getReserves _ => .ok ((1000, 1000, 1000) : ℕ × ℕ × ℕ)
  | .getBlockTimestamp => .ok chainTime
  | .simulateTransaction _ _ _ _ =>
    .ok { success := true, gasUsed := 100000, returnValue := "0x", error := none }

/-- The quote is issued at half a second, and prepared from within the
second its deadline is rounded down to. -/
def quotedAndPrepared : List (CallStep Query Answer AdapterError AdapterCall) :=
  [.start (.registerPool
      { chainId := 4663
        protocolKey := "uniswap"
        protocolVersion := "v2"
        poolAddress := pairAddress
        factoryAddress := uniswapV2.factory
        token0Address := tokenIn
        token1Address := tokenOut
        feeTier := some UNISWAP_V2_FEE_TIER
        poolType := .constantProduct
        canonical := true }),
    .start (.getQuote quoteRequest ⟨['a', '1'], by simp [isHexDigit]⟩)] ++
  List.replicate 6 (.answer 1 (answersOfBlock 1)) ++
  [.start (.setClock 30200), .start (.prepareSwapTransaction quoteOfHalfSecond trader)] ++
  List.replicate 6 (.answer 3 (answersOfBlock 29))

/-- What is prepared of it, at 30.2 s of the server's clock. -/
def preparedOfHalfSecond : Prepared where
  transaction :=
    { chainId := 4663
      protocolKey := "uniswap"
      protocolVersion := "v2"
      toAddress := uniswapV2.router
      data := encodedSwap
        { amountIn := 100
          amountOutMin := 85
          path := [tokenIn, tokenOut]
          recipient := trader
          deadline := 30 }
      value := 0
      spenderAddress := some uniswapV2.router
      functionSelector := UNISWAP_V2_SWAP_SELECTOR
      deadline := 30
      quoteId := "quote_a1"
      simulation := { success := true, gasUsed := 100000, returnValue := "0x", error := none }
      warnings := []
      expectedStateChanges :=
        [{ assetAddress := tokenIn
           accountAddress := trader
           direction := .decrease
           amountRaw := 100 },
         { assetAddress := tokenOut
           accountAddress := trader
           direction := .increase
           amountRaw := 90 }]
      intent :=
        { inputTokenAddress := tokenIn
          outputTokenAddress := tokenOut
          amountInRaw := 100
          minimumAmountOutRaw := 85
          recipientAddress := trader
          route := directRoute } }
  serverTime := 30200
  chainTime := 29

theorem exists_quotedAndPrepared :
    ∃ w, (adapterMachine uniswapV2 plainLibraries).Reachable w ∧
      (AdapterCall.prepareSwapTransaction quoteOfHalfSecond trader,
        Async.done (.ok (.prepared preparedOfHalfSecond))) ∈ w.calls := by
  have hend : ((adapterMachine uniswapV2 plainLibraries).exec ⟨.start 500, []⟩
      quotedAndPrepared).bind (fun w => w.resultAt 3) =
        some (.prepareSwapTransaction quoteOfHalfSecond trader,
          .prepared preparedOfHalfSecond) := by
    decide +kernel
  obtain ⟨w, hexec, hresult⟩ := Option.bind_eq_some_iff.mp hend
  exact ⟨w, Machine.reachable_of_exec ⟨⟨500, rfl⟩, rfl⟩ hexec, CallWorld.mem_of_resultAt hresult⟩

/-- A transaction that is prepared comes of a quote issued. -/
theorem preparedFrom_quoteOfHalfSecond :
    ∃ issued, SameFingerprinted quoteOfHalfSecond issued ∧
      PreparedFrom uniswapV2 plainLibraries issued trader preparedOfHalfSecond := by
  obtain ⟨w, hreach, hcall⟩ := exists_quotedAndPrepared
  obtain ⟨issued, -, hsame, hfrom⟩ := preparedFrom_issued hreach hcall fun _ _ htext => htext
  exact ⟨issued, hsame, hfrom⟩

theorem encodedSwap_injective {a b : SwapArguments} (h : encodedSwap a = encodedSwap b) : a = b := by
  have haddress (x : AddressText) : ',' ∉ x.text.toList :=
    notMem_address (by decide) (by decide) x
  have hnumber (n : ℤ) : ',' ∉ n.repr.toList := notMem_intRepr (by decide) (by decide) n
  have hfree (x : SwapArguments) : ∀ part ∈ x.amountIn.repr :: x.amountOutMin.repr ::
      x.recipient.text :: x.deadline.repr :: x.path.map AddressText.text, ',' ∉ part.toList := by
    simp only [List.forall_mem_cons, List.forall_mem_map]
    exact ⟨hnumber _, hnumber _, haddress _, hnumber _, fun x _ => haddress x⟩
  have htexts := congrArg String.toList h
  unfold encodedSwap at htexts
  rw [String.toList_append, String.toList_append] at htexts
  have hjoined := String.toList_inj.mp (List.append_cancel_left htexts)
  have hparts := joinTexts_inj_of_free (List.cons_ne_nil _ _) (List.cons_ne_nil _ _) (hfree a)
    (hfree b) hjoined
  simp only [List.cons.injEq] at hparts
  obtain ⟨hin, hmin, huser, hdeadline, hpath⟩ := hparts
  cases a
  cases b
  simp only [SwapArguments.mk.injEq]
  exact ⟨Int.repr_injective hin, Int.repr_injective hmin,
    List.map_injective_iff.mpr (fun _ _ => text_injective) hpath, text_injective huser,
    Int.repr_injective hdeadline⟩

/-- The deadline may be behind the server's clock. -/
theorem not_deadline_ahead :
    ¬ ∀ (A : UniswapV2Adapter) (L : Libraries String), L.keccak256.Injective →
      (∀ a b data, L.encodeFunctionData a = .ok data → L.encodeFunctionData b = .ok data → a = b) →
      ∀ w, (adapterMachine A L).Reachable w → ∀ quote user p,
        (AdapterCall.prepareSwapTransaction quote user, Async.done (.ok (.prepared p))) ∈ w.calls →
          p.serverTime < 1000 * p.transaction.deadline := by
  intro h
  obtain ⟨w, hreach, hcall⟩ := exists_quotedAndPrepared
  have hencode (a b : SwapArguments) (data : String)
      (ha : plainLibraries.encodeFunctionData a = .ok data)
      (hb : plainLibraries.encodeFunctionData b = .ok data) : a = b :=
    encodedSwap_injective ((Except.ok.inj ha).trans (Except.ok.inj hb).symm)
  have hahead : (30200 : ℤ) < 1000 * 30 :=
    h uniswapV2 plainLibraries Function.injective_id hencode w hreach _ _ _ hcall
  omega

end Samples

end UniswapV2

end HoodSentry
