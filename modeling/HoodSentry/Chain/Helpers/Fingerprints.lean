import HoodSentry.Chain.Model.UniswapV2
/-!
# What a fingerprint's text determines

The parts of a quote the adapter makes hold no separator of the join they go
into, so two quotes of one fingerprint text agree in every part, whatever
the other one carries in its free texts.
-/

namespace HoodSentry

section Texts

variable {c : Char}

theorem notMem_toDigits (hc : c.isDigit = false) (n : ℕ) : c ∉ Nat.toDigits 10 n := by
  intro hmem
  have hdigit := Nat.isDigit_of_mem_toDigits (by omega) (by omega) hmem
  rw [hc] at hdigit
  exact Bool.false_ne_true hdigit

theorem notMem_padDigits (hc : c.isDigit = false) (width n : ℕ) : c ∉ padDigits width n := by
  unfold padDigits
  rw [List.mem_append, not_or]
  refine ⟨fun hmem => ?_, notMem_toDigits hc n⟩
  obtain rfl := List.eq_of_mem_replicate hmem
  exact absurd hc (by decide)

theorem notMem_intRepr (hc : c.isDigit = false) (hminus : c ≠ '-') (n : ℤ) : c ∉ n.repr.toList := by
  cases n with
  | ofNat n =>
    change c ∉ n.repr.toList
    rw [Nat.toList_repr]
    exact notMem_toDigits hc n
  | negSucc n =>
    change c ∉ ("-" ++ (n + 1).repr).toList
    rw [String.toList_append, Nat.toList_repr, List.mem_append, not_or]
    exact ⟨fun hmem => hminus (List.mem_singleton.mp hmem), notMem_toDigits hc _⟩

theorem notMem_isoText (hc : c.isDigit = false) (hmark : c ∉ ['-', '+', 'T', ':', '.', 'Z'])
    (ms : ℤ) : c ∉ (isoText ms).toList := by
  have hpad := notMem_padDigits hc
  simp only [List.mem_cons, List.not_mem_nil, or_false, not_or] at hmark
  have hyear (year : ℤ) : c ∉ yearDigits year := by
    unfold yearDigits
    split_ifs <;> simp [hpad, hmark]
  unfold isoText
  simp only [String.toList_ofList, List.mem_append, List.mem_cons, List.not_mem_nil, or_false,
    hpad, hyear, hmark, not_false_eq_true]

theorem notMem_address (hc : isHexDigit c = false) (hx : c ≠ 'x') (a : AddressText) :
    c ∉ a.text.toList := by
  unfold AddressText.text
  rw [String.toList_ofList]
  intro hmem
  rcases List.mem_cons.mp hmem with rfl | hmem
  · exact absurd hc (by decide)
  rcases List.mem_cons.mp hmem with rfl | hmem
  · exact hx rfl
  · have hhex := a.isHex c hmem
    rw [hc] at hhex
    exact Bool.false_ne_true hhex

theorem notMem_generateId (hc : isHexDigit c = false) (hq : c ∉ "quote_".toList)
    (random : RandomText) : c ∉ (generateId "quote" random).toList := by
  unfold generateId
  rw [String.toList_append, String.toList_ofList, List.mem_append, not_or]
  refine ⟨hq, fun hmem => ?_⟩
  have hhex := random.isHex c hmem
  rw [hc] at hhex
  exact Bool.false_ne_true hhex

theorem notMem_joinTexts {sep : Char} (hne : c ≠ sep) {xs : List String}
    (h : ∀ x ∈ xs, c ∉ x.toList) : c ∉ (joinTexts sep xs).toList := by
  rw [toList_joinTexts]
  induction xs with
  | nil => exact List.not_mem_nil
  | cons x xs ih =>
    have hx := h x List.mem_cons_self
    have hxs := ih fun y hy => h y (List.mem_cons_of_mem _ hy)
    cases xs with
    | nil => simpa using hx
    | cons y ys =>
      rw [List.map_cons, List.map_cons, List.intercalate_cons_cons, List.mem_append,
        List.mem_append, not_or, not_or, List.mem_singleton]
      exact ⟨⟨hx, hne⟩, hxs⟩

theorem text_injective {a b : AddressText} (h : a.text = b.text) : a = b := by
  have hdigits := String.ofList_injective h
  simp only [List.cons.injEq, true_and] at hdigits
  cases a
  cases b
  congr

end Texts

namespace UniswapV2

variable {A : UniswapV2Adapter} {quote issued : NormalizedQuote} {route : List NormalizedRouteStep}

/-- The steps of a route are the adapter's own, of its one fee tier. -/
def OwnSteps (A : UniswapV2Adapter) (route : List NormalizedRouteStep) : Prop :=
  ∀ step ∈ route, (step.protocolKey = A.protocolKey.text ∧ step.protocolVersion = A.version.text) ∧
    step.feeTier = some UNISWAP_V2_FEE_TIER

/-- **What getQuote makes of a quote**, whatever it was asked. -/
structure ServerMade (A : UniswapV2Adapter) (quote : NormalizedQuote) : Prop where
  quoteId : ∃ random, quote.quoteId = generateId "quote" random
  protocolKey : quote.protocolKey = A.protocolKey.text
  protocolVersion : quote.protocolVersion = A.version.text
  transactionSelector : quote.transactionSelector = UNISWAP_V2_SWAP_SELECTOR
  spenderAddress : quote.spenderAddress = some A.router
  createdAt : ∃ ms, quote.createdAt = isoText ms
  expiresAt : ∃ ms, quote.expiresAt = isoText ms
  ownSteps : OwnSteps A quote.route
  route_ne : quote.route ≠ []

/-! ## Routes -/

theorem feeText_injective {fee fee' : Option ℤ} (h : feeText fee = feeText fee') : fee = fee' := by
  have hne (n : ℤ) : n.repr ≠ "" := by
    intro hempty
    cases n with
    | ofNat n => exact absurd hempty Nat.repr_ne_empty
    | negSucc n => exact absurd (congrArg String.toList hempty) (by simp [Int.repr])
  cases fee with
  | none =>
    cases fee' with
    | none => rfl
    | some n => exact absurd h.symm (hne n)
  | some m =>
    cases fee' with
    | none => exact absurd h (hne m)
    | some n => exact congrArg some (Int.repr_injective h)

/-- A step of the adapter's is written without the separators of the join
its text goes into, and without those of its own. -/
theorem step_parts_free {c : Char} (hc : c ∈ separators) {step : NormalizedRouteStep}
    (hown : (step.protocolKey = A.protocolKey.text ∧ step.protocolVersion = A.version.text) ∧
      step.feeTier = some UNISWAP_V2_FEE_TIER) :
    ∀ part ∈ stepParts step, c ∉ part.toList := by
  have haddress (a : AddressText) : c ∉ a.text.toList := by
    simp only [separators, List.mem_cons, List.not_mem_nil, or_false] at hc
    rcases hc with rfl | rfl | rfl <;> exact notMem_address (by decide) (by decide) a
  have hfee : c ∉ (feeText step.feeTier).toList := by
    rw [hown.2]
    simp only [separators, List.mem_cons, List.not_mem_nil, or_false] at hc
    rcases hc with rfl | rfl | rfl <;> exact notMem_intRepr (by decide) (by decide) _
  intro part hpart
  simp only [stepParts, List.mem_cons, List.not_mem_nil, or_false] at hpart
  rcases hpart with rfl | rfl | rfl | rfl | rfl | rfl
  · exact hown.1.1 ▸ A.protocolKey.free c hc
  · exact hown.1.2 ▸ A.version.free c hc
  · exact haddress _
  · exact haddress _
  · exact haddress _
  · exact hfee

theorem stepText_injective {step step' : NormalizedRouteStep}
    (hown : (step.protocolKey = A.protocolKey.text ∧ step.protocolVersion = A.version.text) ∧
      step.feeTier = some UNISWAP_V2_FEE_TIER)
    (h : stepText step = stepText step') : step = step' := by
  have hlength : (stepParts step).length = (stepParts step').length := rfl
  have hparts := joinTexts_inj (step_parts_free (by decide) hown) hlength h
  simp only [stepParts, List.cons.injEq, and_true] at hparts
  obtain ⟨hkey, hversion, hpool, hinput, houtput, hfee⟩ := hparts
  cases step
  cases step'
  simp only [NormalizedRouteStep.mk.injEq]
  exact ⟨hkey, hversion, text_injective hpool, text_injective hinput, text_injective houtput,
    feeText_injective hfee⟩

theorem notMem_routeText (hown : OwnSteps A route) : '|' ∉ (routeText route).toList := by
  refine notMem_joinTexts (by decide) fun text htext => ?_
  obtain ⟨step, hstep, rfl⟩ := List.mem_map.mp htext
  exact notMem_joinTexts (by decide) (step_parts_free (by decide) (hown step hstep))

/-- **A route of the adapter's is determined by its text.** -/
theorem routeText_injective {route' : List NormalizedRouteStep} (hown : OwnSteps A route)
    (hown' : OwnSteps A route') (hne : route ≠ []) (hne' : route' ≠ [])
    (h : routeText route = routeText route') : route = route' := by
  have hfree {steps : List NormalizedRouteStep} (hsteps : OwnSteps A steps) :
      ∀ text ∈ steps.map stepText, '>' ∉ text.toList := by
    intro text htext
    obtain ⟨step, hstep, rfl⟩ := List.mem_map.mp htext
    exact notMem_joinTexts (by decide) (step_parts_free (by decide) (hsteps step hstep))
  have htexts : route.map stepText = route'.map stepText :=
    joinTexts_inj_of_free (fun hnil => hne (List.map_eq_nil_iff.mp hnil))
      (fun hnil => hne' (List.map_eq_nil_iff.mp hnil)) (hfree hown) (hfree hown') h
  clear h hne hne' hfree
  induction route generalizing route' with
  | nil => exact (List.map_eq_nil_iff.mp htexts.symm).symm
  | cons step rest ih =>
    cases route' with
    | nil => exact absurd htexts (List.cons_ne_nil _ _)
    | cons step' rest' =>
      obtain ⟨hstep, hrest⟩ := List.cons.inj htexts
      rw [stepText_injective (hown step List.mem_cons_self) hstep,
        ih (fun s hs => hown s (List.mem_cons_of_mem _ hs))
          (fun s hs => hown' s (List.mem_cons_of_mem _ hs)) hrest]

/-! ## Quotes -/

/-- No part of a quote the adapter made holds the separator. -/
theorem ServerMade.parts_free (h : ServerMade A quote) :
    ∀ part ∈ fingerprintParts quote, '|' ∉ part.toList := by
  have haddress (a : AddressText) : '|' ∉ a.text.toList :=
    notMem_address (by decide) (by decide) a
  have hnumber (n : ℤ) : '|' ∉ n.repr.toList := notMem_intRepr (by decide) (by decide) n
  have hdate (ms : ℤ) : '|' ∉ (isoText ms).toList := notMem_isoText (by decide) (by decide) ms
  obtain ⟨random, hid⟩ := h.quoteId
  obtain ⟨created, hcreated⟩ := h.createdAt
  obtain ⟨expires, hexpires⟩ := h.expiresAt
  unfold fingerprintParts
  rw [hid, h.protocolKey, h.protocolVersion, h.spenderAddress, h.transactionSelector, hcreated,
    hexpires]
  simp only [List.forall_mem_cons, List.not_mem_nil, false_implies, implies_true, and_true]
  exact ⟨notMem_generateId (by decide) (by decide) random, hnumber _,
    A.protocolKey.free '|' (by decide), A.version.free '|' (by decide), haddress _, haddress _,
    hnumber _, hnumber _, hnumber _, haddress _, haddress _, by decide, hnumber _, hdate _,
    hdate _, notMem_routeText h.ownSteps⟩

/-- **One fingerprint text, one quote**, in everything the text is made of. -/
structure SameFingerprinted (quote issued : NormalizedQuote) : Prop where
  quoteId : quote.quoteId = issued.quoteId
  chainId : quote.chainId = issued.chainId
  protocolKey : quote.protocolKey = issued.protocolKey
  protocolVersion : quote.protocolVersion = issued.protocolVersion
  inputTokenAddress : quote.inputTokenAddress = issued.inputTokenAddress
  outputTokenAddress : quote.outputTokenAddress = issued.outputTokenAddress
  amountInRaw : quote.amountInRaw = issued.amountInRaw
  expectedAmountOutRaw : quote.expectedAmountOutRaw = issued.expectedAmountOutRaw
  minimumAmountOutRaw : quote.minimumAmountOutRaw = issued.minimumAmountOutRaw
  transactionTarget : quote.transactionTarget = issued.transactionTarget
  transactionSelector : quote.transactionSelector = issued.transactionSelector
  sourceBlockNumber : quote.sourceBlockNumber = issued.sourceBlockNumber
  createdAt : quote.createdAt = issued.createdAt
  expiresAt : quote.expiresAt = issued.expiresAt
  route : quote.route = issued.route

theorem ServerMade.sameFingerprinted (h : ServerMade A issued) (hown : OwnSteps A quote.route)
    (hne : quote.route ≠ []) (htext : fingerprintText issued = fingerprintText quote) :
    SameFingerprinted quote issued := by
  have hlength : (fingerprintParts issued).length = (fingerprintParts quote).length := rfl
  have hparts := joinTexts_inj h.parts_free hlength htext
  simp only [fingerprintParts, List.cons.injEq, and_true] at hparts
  obtain ⟨hid, hchain, hkey, hversion, hinput, houtput, hamount, hexpected, hminimum, -, htarget,
    hselector, hblock, hcreated, hexpires, hroute⟩ := hparts
  exact
    { quoteId := hid.symm
      chainId := Int.repr_injective hchain.symm
      protocolKey := hkey.symm
      protocolVersion := hversion.symm
      inputTokenAddress := text_injective hinput.symm
      outputTokenAddress := text_injective houtput.symm
      amountInRaw := Int.repr_injective hamount.symm
      expectedAmountOutRaw := Int.repr_injective hexpected.symm
      minimumAmountOutRaw := Int.repr_injective hminimum.symm
      transactionTarget := text_injective htarget.symm
      transactionSelector := hselector.symm
      sourceBlockNumber := Int.repr_injective hblock.symm
      createdAt := hcreated.symm
      expiresAt := hexpires.symm
      route := routeText_injective hown h.ownSteps hne h.route_ne hroute.symm }

end UniswapV2

end HoodSentry
