import HoodSentry.Common.Sorting
import HoodSentry.Market.Model.Metrics
import HoodSentry.Market.SourceSelection
/-!
# What a candle says of its observations

The prices of a candle are bounded by its extremes, whatever it counts. It
opens with the first and closes with the last of the observations it counts,
sorted by whole seconds, so it is free of their order exactly where those
within the first second agree, and those within the last one
(`candleLaws_iff`).
-/

namespace HoodSentry

/-- Sorted by whole seconds. -/
def bySecond (left right : PriceObservationRow) : Prop :=
  epochSeconds left.sourceTimestamp ≤ epochSeconds right.sourceTimestamp

instance : DecidableRel bySecond := fun _ _ => inferInstanceAs (Decidable (_ ≤ _))

instance : IsTrans PriceObservationRow bySecond := ⟨fun _ _ _ => Nat.le_trans⟩

instance : Std.Total bySecond := ⟨fun _ _ => Nat.le_total _ _⟩

/-- The observations a candle counts. -/
def counted (observations : List PriceObservationRow) : List PriceObservationRow :=
  (observations.filter (·.usable)).insertionSort bySecond

/-- The candle of what is counted, from its first observation and the prices
it opens and closes with. -/
def candleOf (rows : List PriceObservationRow) (first : PriceObservationRow) (opening closing : ℤ)
    (window : MarketWindow) (methodologyVersion : String) : MarketCandle :=
  let prices := rows.filterMap (·.priceRaw)
  { chainId := first.chainId
    tokenAddress := first.tokenAddress
    quoteAssetAddress := first.quoteAssetAddress
    window := window
    bucketStart := bucketStart first.sourceTimestamp window
    priceDecimals := first.priceDecimals
    openPriceRaw := opening
    highPriceRaw := prices.foldl (fun high price => if price > high then price else high) opening
    lowPriceRaw := prices.foldl (fun low price => if price < low then price else low) opening
    closePriceRaw := closing
    sourceObservationCount := rows.length
    canonical := true
    methodologyVersion := methodologyVersion }

/-- **The laws of a candle.** -/
def CandleLaws (observations : List PriceObservationRow) (window : MarketWindow)
    (methodologyVersion : String) : Prop :=
  ∀ candle, aggregateCandle observations window methodologyVersion = some (some candle) →
    (candle.lowPriceRaw ≤ candle.openPriceRaw ∧ candle.openPriceRaw ≤ candle.highPriceRaw) ∧
    (candle.lowPriceRaw ≤ candle.closePriceRaw ∧ candle.closePriceRaw ≤ candle.highPriceRaw) ∧
    candle.sourceObservationCount = (observations.filter (·.usable)).length ∧
    ∀ l : List PriceObservationRow, l.Perm observations →
      aggregateCandle l window methodologyVersion = some (some candle)

/-- Within the first second of what is counted. -/
def InFirstSecond (observations : List PriceObservationRow) (o : PriceObservationRow) : Prop :=
  o ∈ observations.filter (·.usable) ∧ ∀ p ∈ observations.filter (·.usable), bySecond o p

/-- Within the last one. -/
def InLastSecond (observations : List PriceObservationRow) (o : PriceObservationRow) : Prop :=
  o ∈ observations.filter (·.usable) ∧ ∀ p ∈ observations.filter (·.usable), bySecond p o

/-- **Ties agree**: within the first second, in the pair and the price; within
the last one, in the price. -/
structure TiesAgree (observations : List PriceObservationRow) : Prop where
  first : ∀ a b, InFirstSecond observations a → InFirstSecond observations b →
    a.chainId = b.chainId ∧ a.tokenAddress = b.tokenAddress ∧
      a.quoteAssetAddress = b.quoteAssetAddress ∧ a.priceRaw = b.priceRaw
  last : ∀ a b, InLastSecond observations a → InLastSecond observations b →
    a.priceRaw = b.priceRaw

variable {observations l : List PriceObservationRow} {window : MarketWindow}
variable {methodologyVersion : String} {candle : MarketCandle}

/-! ## Extremes -/

/-- A fold whose steps only go up ends above its start and all it has
passed. -/
theorem foldl_bounds {α : Type*} {r : α → α → Prop} [Std.Refl r] [IsTrans α r] {f : α → α → α}
    (hleft : ∀ a b, r a (f a b)) (hright : ∀ a b, r b (f a b)) (xs : List α) (init : α) :
    r init (xs.foldl f init) ∧ ∀ x ∈ xs, r x (xs.foldl f init) := by
  induction xs generalizing init with
  | nil => exact ⟨Std.Refl.refl init, List.forall_mem_nil _⟩
  | cons x xs ih =>
    obtain ⟨hinit, hall⟩ := ih (f init x)
    exact ⟨trans_of r (hleft init x) hinit,
      List.forall_mem_cons.mpr ⟨trans_of r (hright init x) hinit, hall⟩⟩

/-! ## What a candle is built from -/

theorem aggregateCandle_eq_some_iff :
    aggregateCandle observations window methodologyVersion = some (some candle) ↔
      ∃ first last opening closing, (counted observations).head? = some first ∧
        (counted observations).getLast? = some last ∧ first.priceRaw = some opening ∧
        last.priceRaw = some closing ∧
        (∀ o ∈ counted observations, o.priceDecimals = first.priceDecimals) ∧
        candleOf (counted observations) first opening closing window methodologyVersion =
          candle := by
  rw [aggregateCandle]
  dsimp only
  rw [show (observations.filter (·.usable)).insertionSort (fun left right =>
    epochSeconds left.sourceTimestamp ≤ epochSeconds right.sourceTimestamp) =
      counted observations from rfl]
  constructor
  · intro h
    split at h
    · rename_i first last hfirst hlast
      split at h
      · rename_i opening closing hopening hclosing
        split at h
        · cases h
        · rename_i hscale
          refine ⟨first, last, opening, closing, hfirst, hlast, hopening, hclosing, ?_,
            Option.some.inj (Option.some.inj h)⟩
          intro o ho
          by_contra hne
          exact hscale (List.any_eq_true.mpr ⟨o, ho, decide_eq_true hne⟩)
      · cases Option.some.inj h
    · cases Option.some.inj h
  · rintro ⟨first, last, opening, closing, hfirst, hlast, hopening, hclosing, hscale, rfl⟩
    have hone : ((counted observations).any fun item =>
        item.priceDecimals ≠ first.priceDecimals) = false := by
      rw [List.any_eq_false]
      intro o ho
      simp [hscale o ho]
    simp only [hfirst, hlast, hopening, hclosing, hone, Bool.false_eq_true, if_false]
    rfl

theorem counted_perm : (counted observations).Perm (observations.filter (·.usable)) :=
  List.perm_insertionSort _ _

theorem mem_counted {o : PriceObservationRow} :
    o ∈ counted observations ↔ o ∈ observations.filter (·.usable) :=
  counted_perm.mem_iff

/-- What is counted has a price. -/
theorem exists_price {o : PriceObservationRow} (h : o ∈ observations.filter (·.usable)) :
    ∃ price, o.priceRaw = some price := by
  have husable := List.of_mem_filter h
  simp only [PriceObservationRow.usable, Bool.and_eq_true] at husable
  exact Option.isSome_iff_exists.mp husable.1.2

/-- **What is usable makes a candle**, in one scale. -/
theorem exists_candle
    (hscale : ∀ a ∈ observations, ∀ b ∈ observations, a.priceDecimals = b.priceDecimals)
    {o : PriceObservationRow} (ho : o ∈ observations.filter (·.usable)) :
    ∃ candle, aggregateCandle observations window methodologyVersion = some (some candle) := by
  have hne : counted observations ≠ [] := List.ne_nil_of_mem (mem_counted.mpr ho)
  obtain ⟨first, hfirst⟩ := Option.isSome_iff_exists.mp (List.isSome_head?.mpr hne)
  obtain ⟨last, hlast⟩ := Option.isSome_iff_exists.mp (List.getLast?_isSome.mpr hne)
  have hfirst_mem := mem_counted.mp (List.mem_of_head? hfirst)
  obtain ⟨opening, hopening⟩ := exists_price hfirst_mem
  obtain ⟨closing, hclosing⟩ := exists_price (mem_counted.mp (List.mem_of_getLast? hlast))
  refine ⟨_, aggregateCandle_eq_some_iff.mpr
    ⟨first, last, opening, closing, hfirst, hlast, hopening, hclosing, fun p hp => ?_, rfl⟩⟩
  exact hscale p (List.mem_of_mem_filter (mem_counted.mp hp)) first
    (List.mem_of_mem_filter hfirst_mem)

theorem candleOf_bounds {rows : List PriceObservationRow} {first last : PriceObservationRow}
    {opening closing : ℤ} (hlast : last ∈ rows) (hclosing : last.priceRaw = some closing) :
    let candle := candleOf rows first opening closing window methodologyVersion
    (candle.lowPriceRaw ≤ candle.openPriceRaw ∧ candle.openPriceRaw ≤ candle.highPriceRaw) ∧
      candle.lowPriceRaw ≤ candle.closePriceRaw ∧ candle.closePriceRaw ≤ candle.highPriceRaw := by
  have hmem : closing ∈ rows.filterMap (·.priceRaw) := List.mem_filterMap.mpr ⟨last, hlast, hclosing⟩
  have hhigh := @foldl_bounds ℤ (· ≤ ·) _ _ (fun high price => if price > high then price else high)
    (fun a b => by split <;> omega) (fun a b => by split <;> omega)
    (rows.filterMap (·.priceRaw)) opening
  have hlow := @foldl_bounds ℤ (· ≥ ·) _ _ (fun low price => if price < low then price else low)
    (fun a b => by split <;> omega) (fun a b => by split <;> omega)
    (rows.filterMap (·.priceRaw)) opening
  exact ⟨⟨hlow.1, hhigh.1⟩, hlow.2 closing hmem, hhigh.2 closing hmem⟩

/-! ## The order of the observations -/

/-- An observation of the first second, put first, opens the candle. -/
theorem head?_counted_of_first {a : PriceObservationRow} (h : InFirstSecond observations a) :
    (counted (a :: observations.erase a)).head? = some a := by
  have husable : a.usable = true := List.of_mem_filter h.1
  have hcons : (a :: observations.erase a).filter (·.usable) =
      a :: (observations.erase a).filter (·.usable) := List.filter_cons_of_pos husable
  unfold counted
  rw [hcons, insertionSort_cons_of_forall]
  · rfl
  · intro b hb
    refine h.2 b ?_
    rw [List.mem_filter] at hb ⊢
    exact ⟨List.mem_of_mem_erase hb.1, hb.2⟩

/-- One of the last second, put last, closes it. -/
theorem getLast?_counted_of_last {a : PriceObservationRow} (h : InLastSecond observations a) :
    (counted (observations.erase a ++ [a])).getLast? = some a := by
  have husable : a.usable = true := List.of_mem_filter h.1
  have hconcat : (observations.erase a ++ [a]).filter (·.usable) =
      (observations.erase a).filter (·.usable) ++ [a] := by
    rw [List.filter_append, List.filter_cons_of_pos husable, List.filter_nil]
  unfold counted
  rw [hconcat, insertionSort_concat_of_forall, List.getLast?_concat]
  intro b hb
  refine h.2 b ?_
  rw [List.mem_filter] at hb ⊢
  exact ⟨List.mem_of_mem_erase hb.1, hb.2⟩

/-- What opens a candle that is free of the order. -/
theorem opens_of_candleLaws (hlaws : CandleLaws observations window methodologyVersion)
    (hcandle : aggregateCandle observations window methodologyVersion = some (some candle))
    {a : PriceObservationRow} (ha : InFirstSecond observations a) :
    a.chainId = candle.chainId ∧ a.tokenAddress = candle.tokenAddress ∧
      a.quoteAssetAddress = candle.quoteAssetAddress ∧ a.priceRaw = some candle.openPriceRaw := by
  have hperm := (List.perm_cons_erase (List.mem_of_mem_filter ha.1)).symm
  obtain ⟨first, last, opening, closing, hfirst, -, hopening, -, -, rfl⟩ :=
    aggregateCandle_eq_some_iff.mp ((hlaws candle hcandle).2.2.2 _ hperm)
  cases Option.some.inj ((head?_counted_of_first ha).symm.trans hfirst)
  exact ⟨rfl, rfl, rfl, hopening⟩

/-- And what closes it. -/
theorem closes_of_candleLaws (hlaws : CandleLaws observations window methodologyVersion)
    (hcandle : aggregateCandle observations window methodologyVersion = some (some candle))
    {a : PriceObservationRow} (ha : InLastSecond observations a) :
    a.priceRaw = some candle.closePriceRaw := by
  have hperm : (observations.erase a ++ [a]).Perm observations :=
    (List.perm_append_singleton a _).trans
      (List.perm_cons_erase (List.mem_of_mem_filter ha.1)).symm
  obtain ⟨first, last, opening, closing, -, hlast, -, hclosing, -, rfl⟩ :=
    aggregateCandle_eq_some_iff.mp ((hlaws candle hcandle).2.2.2 _ hperm)
  cases Option.some.inj ((getLast?_counted_of_last ha).symm.trans hlast)
  exact hclosing

theorem inFirstSecond_of_head? {o : PriceObservationRow} (hperm : l.Perm observations)
    (h : (counted l).head? = some o) : InFirstSecond observations o := by
  obtain ⟨hmem, hall⟩ := forall_of_head?_insertionSort h
  have hfilter := hperm.filter (·.usable)
  exact ⟨hfilter.mem_iff.mp hmem, fun p hp => hall p (hfilter.mem_iff.mpr hp)⟩

theorem inLastSecond_of_getLast? {o : PriceObservationRow} (hperm : l.Perm observations)
    (h : (counted l).getLast? = some o) : InLastSecond observations o := by
  obtain ⟨hmem, hall⟩ := forall_of_getLast?_insertionSort h
  have hfilter := hperm.filter (·.usable)
  exact ⟨hfilter.mem_iff.mp hmem, fun p hp => hall p (hfilter.mem_iff.mpr hp)⟩

/-- **Where ties agree**, the candle is free of the order. -/
theorem candleOf_eq_of_perm {rows rows' : List PriceObservationRow}
    {first first' : PriceObservationRow} {opening closing : ℤ} (hperm : rows'.Perm rows)
    (hsecond : epochSeconds first'.sourceTimestamp = epochSeconds first.sourceTimestamp)
    (hdecimals : first'.priceDecimals = first.priceDecimals) (hchain : first'.chainId = first.chainId)
    (htoken : first'.tokenAddress = first.tokenAddress)
    (hquote : first'.quoteAssetAddress = first.quoteAssetAddress) :
    candleOf rows' first' opening closing window methodologyVersion =
      candleOf rows first opening closing window methodologyVersion := by
  have hprices := hperm.filterMap (·.priceRaw)
  have hhigh : (rows'.filterMap (·.priceRaw)).foldl
      (fun high price => if price > high then price else high) opening =
        (rows.filterMap (·.priceRaw)).foldl
          (fun high price => if price > high then price else high) opening := by
    refine hprices.foldl_eq' (fun x _ y _ z => ?_) opening
    split_ifs <;> omega
  have hlow : (rows'.filterMap (·.priceRaw)).foldl
      (fun low price => if price < low then price else low) opening =
        (rows.filterMap (·.priceRaw)).foldl
          (fun low price => if price < low then price else low) opening := by
    refine hprices.foldl_eq' (fun x _ y _ z => ?_) opening
    split_ifs <;> omega
  have hbucket : bucketStart first'.sourceTimestamp window =
      bucketStart first.sourceTimestamp window := by
    unfold bucketStart
    rw [hsecond]
  simp only [candleOf, hhigh, hlow, hbucket, hdecimals, hchain, htoken, hquote, hperm.length_eq]

/-- **Exactly where the laws of a candle hold**: in one scale, where ties
agree. -/
theorem candleLaws_iff
    (hscale : ∀ a ∈ observations, ∀ b ∈ observations, a.priceDecimals = b.priceDecimals) :
    CandleLaws observations window methodologyVersion ↔ TiesAgree observations := by
  constructor
  · intro hlaws
    constructor
    · intro a b ha hb
      obtain ⟨candle, hcandle⟩ := @exists_candle observations window methodologyVersion hscale a ha.1
      obtain ⟨hchain, htoken, hquote, hprice⟩ := opens_of_candleLaws hlaws hcandle ha
      obtain ⟨hchain', htoken', hquote', hprice'⟩ := opens_of_candleLaws hlaws hcandle hb
      exact ⟨hchain.trans hchain'.symm, htoken.trans htoken'.symm, hquote.trans hquote'.symm,
        hprice.trans hprice'.symm⟩
    · intro a b ha hb
      obtain ⟨candle, hcandle⟩ := @exists_candle observations window methodologyVersion hscale a ha.1
      exact (closes_of_candleLaws hlaws hcandle ha).trans
        (closes_of_candleLaws hlaws hcandle hb).symm
  · intro hties candle hcandle
    obtain ⟨first, last, opening, closing, hfirst, hlast, hopening, hclosing, -, rfl⟩ :=
      aggregateCandle_eq_some_iff.mp hcandle
    obtain ⟨hopens, hcloses⟩ := @candleOf_bounds window methodologyVersion _ first last opening
      closing (List.mem_of_getLast? hlast) hclosing
    refine ⟨hopens, hcloses, counted_perm.length_eq, fun l hperm => ?_⟩
    have hrows : (counted l).Perm (counted observations) :=
      counted_perm.trans ((hperm.filter _).trans counted_perm.symm)
    have hne : counted l ≠ [] := by
      intro hnil
      rw [hnil, List.nil_perm] at hrows
      rw [hrows] at hfirst
      cases hfirst
    obtain ⟨first', hfirst'⟩ := Option.isSome_iff_exists.mp (List.isSome_head?.mpr hne)
    obtain ⟨last', hlast'⟩ := Option.isSome_iff_exists.mp (List.getLast?_isSome.mpr hne)
    have hin := inFirstSecond_of_head? (List.Perm.refl observations) hfirst
    have hin' := inFirstSecond_of_head? hperm hfirst'
    obtain ⟨hchain, htoken, hquote, hprice⟩ := hties.first first' first hin' hin
    have hlastPrice := hties.last last' last (inLastSecond_of_getLast? hperm hlast')
      (inLastSecond_of_getLast? (List.Perm.refl observations) hlast)
    have hdecimals := hscale first' (List.mem_of_mem_filter hin'.1) first
      (List.mem_of_mem_filter hin.1)
    refine aggregateCandle_eq_some_iff.mpr ⟨first', last', opening, closing, hfirst', hlast',
      hprice.trans hopening, hlastPrice.trans hclosing, fun o ho => ?_, ?_⟩
    · exact hscale o (hperm.mem_iff.mp (List.mem_of_mem_filter (mem_counted.mp ho))) first'
        (List.mem_of_mem_filter hin'.1)
    · exact candleOf_eq_of_perm hrows (le_antisymm (hin'.2 first hin.1) (hin.2 first' hin'.1))
        hdecimals hchain htoken hquote

theorem oneScale_twoObservations :
    ∀ a ∈ twoObservations, ∀ b ∈ twoObservations, a.priceDecimals = b.priceDecimals := by
  decide

/-- The two observations lie in one second. -/
theorem candleLaws_iff_twoObservations :
    CandleLaws twoObservations .m1 "1" ↔ TiesAgree twoObservations :=
  candleLaws_iff oneScale_twoObservations

/-- **The candle of one second** depends on which observation comes first. -/
theorem not_candleLaws :
    ¬∀ (observations : List PriceObservationRow) (window : MarketWindow)
      (methodologyVersion : String),
      (∀ a ∈ observations, ∀ b ∈ observations, a.priceDecimals = b.priceDecimals) →
        CandleLaws observations window methodologyVersion := by
  intro h
  have hlaws := h twoObservations .m1 "1" oneScale_twoObservations
  have husable : PriceObservationRow.of .sampleOracle 100 ∈
      twoObservations.filter (·.usable) := by
    decide
  obtain ⟨candle, hcandle⟩ := @exists_candle twoObservations .m1 "1" oneScale_twoObservations _ husable
  have hreverse := (hlaws candle hcandle).2.2.2 _ (List.reverse_perm twoObservations)
  have hdiffers : aggregateCandle twoObservations.reverse .m1 "1" ≠
      aggregateCandle twoObservations .m1 "1" := by
    decide +kernel
  exact hdiffers (hreverse.trans hcandle.symm)

end HoodSentry
