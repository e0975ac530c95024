import HoodSentry.Discovery.TrendingLaws
/-!
# Orphaned trades

Two candidates that differ in orphaned trades and in the order of the trades
have the same canonical trades once these are sorted, so all that is computed
from them agrees: the signals, the evidence, the penalties and the score. The
related wallets are taken from the whole list. They agree where every wallet's
last trade, orphaned or not, spells it the same way (`uninfluenced_iff`).
-/

namespace HoodSentry

namespace Discovery

/-! ## Sorting the canonical trades -/

section Sorting

variable {l l' : List DiscoveryTrade} {trade other : DiscoveryTrade}

/-- Where a trade stands in the chain. -/
def place (trade : DiscoveryTrade) : ℤ × ℤ := (trade.blockNumber, trade.logIndex)

theorem compareTrades_nonpos_iff : compareTrades trade other ≤ 0 ↔
    trade.blockNumber < other.blockNumber ∨
      trade.blockNumber = other.blockNumber ∧ trade.logIndex ≤ other.logIndex := by
  unfold compareTrades
  split_ifs <;> omega

instance : IsTrans DiscoveryTrade fun left right => compareTrades left right ≤ 0 := by
  refine ⟨fun a b c hab hbc => ?_⟩
  rw [compareTrades_nonpos_iff] at *
  omega

instance : Std.Total fun left right : DiscoveryTrade => compareTrades left right ≤ 0 := by
  refine ⟨fun a b => ?_⟩
  rw [compareTrades_nonpos_iff, compareTrades_nonpos_iff]
  omega

/-- **The same canonical trades**, at places of their own, in whatever order
and among whatever orphaned ones. -/
structure SameCanonical (l l' : List DiscoveryTrade) : Prop where
  perm : (l'.filter (·.canonical)).Perm (l.filter (·.canonical))
  distinct : ((l.filter (·.canonical)).map place).Nodup

theorem SameCanonical.canonicalTrades_eq (h : SameCanonical l l') :
    canonicalTrades l' = canonicalTrades l := by
  refine insertionSort_eq_of_perm h.perm fun a ha b hb hab hba => ?_
  rw [compareTrades_nonpos_iff] at hab hba
  have hplace : place a = place b := by
    unfold place
    rw [Prod.mk.injEq]
    omega
  exact List.inj_on_of_nodup_map h.distinct ha hb hplace

/-- **No signal sees an orphaned trade.** -/
theorem SameCanonical.analyzeManipulation_eq (h : SameCanonical l l') (p : Platform)
    (context : ManipulationContext) :
    analyzeManipulation p l' context = analyzeManipulation p l context := by
  rw [analyzeManipulation, analyzeManipulation, h.canonicalTrades_eq]

end Sorting

/-! ## Related wallets -/

section Wallets

variable {p : Platform} {l l' : List DiscoveryTrade} {key : List Char} {a b : AddressText}

/-- How the last trade of a wallet in the list spells it. -/
def lastSpelling (trades : List DiscoveryTrade) (key : List Char) : Option AddressText :=
  (trades.reverse.find? fun trade => trade.traderAddress.lower = key).map (·.traderAddress)

/-- **`localeCompare` tells wallets apart**: addresses that differ in more than
the case of their letters. -/
def Platform.TellsApart (p : Platform) : Prop :=
  ∀ a b : AddressText, a.lower ≠ b.lower → p.collation.localeCompare a.text b.text ≠ 0

/-- The map the related wallets are the values of. -/
def spellings (trades : List DiscoveryTrade) : OrderedMap (List Char) AddressText :=
  OrderedMap.ofEntries (trades.map fun trade => (trade.traderAddress.lower, trade.traderAddress))

theorem get?_spellings (trades : List DiscoveryTrade) (key : List Char) :
    (spellings trades).get? key = lastSpelling trades key := by
  rw [spellings, OrderedMap.get?_ofEntries, OrderedMap.lastValue, ← List.map_reverse,
    List.find?_map, Option.map_map]
  rfl

theorem lower_of_lastSpelling (h : lastSpelling l key = some a) : a.lower = key := by
  obtain ⟨trade, htrade, rfl⟩ := Option.map_eq_some_iff.mp h
  simpa using List.find?_some htrade

/-- A related wallet is the last spelling of its own key. -/
theorem mem_values_spellings :
    a ∈ (spellings l).values ↔ lastSpelling l a.lower = some a := by
  have hentry : ∀ key, (key, a) ∈ spellings l ↔ lastSpelling l key = some a := by
    intro key
    rw [← OrderedMap.get?_eq_some_iff, get?_spellings]
  constructor
  · intro h
    obtain ⟨⟨key, b⟩, hmem, rfl⟩ := List.mem_map.mp h
    have hlast := (hentry key).mp hmem
    rwa [← lower_of_lastSpelling hlast] at hlast
  · intro h
    exact List.mem_map.mpr ⟨(a.lower, a), (hentry a.lower).mpr h, rfl⟩

instance : IsTrans AddressText fun left right =>
    p.collation.localeCompare left.text right.text ≤ 0 :=
  ⟨fun a b c => p.collation.lawful.trans a.text b.text c.text⟩

instance : Std.Total fun left right : AddressText =>
    p.collation.localeCompare left.text right.text ≤ 0 :=
  ⟨fun a b => p.collation.lawful.total a.text b.text⟩

/-- **The related wallets agree** exactly where the last spellings do. -/
theorem relatedWallets_eq_iff (hp : p.TellsApart) :
    relatedWallets p l = relatedWallets p l' ↔ ∀ key, lastSpelling l key = lastSpelling l' key := by
  have hunfold : ∀ l, relatedWallets p l = sortWallets p (spellings l).values := fun _ => rfl
  constructor
  · intro h key
    -- sorting loses no wallet, and a wallet tells its key
    have hmem : ∀ a, a ∈ (spellings l).values ↔ a ∈ (spellings l').values := by
      intro a
      rw [hunfold, hunfold] at h
      have hsorted := congrArg (a ∈ ·) h
      simpa only [sortWallets, List.mem_insertionSort, eq_iff_iff] using hsorted
    ext a
    constructor
    · intro ha
      have hkey := lower_of_lastSpelling ha
      subst hkey
      exact mem_values_spellings.mp ((hmem a).mp (mem_values_spellings.mpr ha))
    · intro ha
      have hkey := lower_of_lastSpelling ha
      subst hkey
      exact mem_values_spellings.mp ((hmem a).mpr (mem_values_spellings.mpr ha))
  · intro h
    have hperm : (spellings l).values.Perm (spellings l').values := by
      refine (OrderedMap.perm_of_get?_eq fun key => ?_).map _
      rw [get?_spellings, get?_spellings, h key]
    rw [hunfold, hunfold]
    refine insertionSort_eq_of_perm hperm fun a ha b hb hab hba => ?_
    -- what is compared equal has one key, which has one last spelling
    have hzero : p.collation.localeCompare a.text b.text = 0 := by
      have hswap := p.collation.lawful.swap b.text a.text
      omega
    have hkey : a.lower = b.lower := by
      by_contra hne
      exact hp a b hne hzero
    have hlast := mem_values_spellings.mp ha
    rw [hkey, mem_values_spellings.mp hb] at hlast
    exact (Option.some.inj hlast).symm

end Wallets

/-! ## Two candidates -/

section Candidates

variable {p : Platform} {c c' : DiscoveryCandidate}

/-- **They differ in orphaned trades only**, and in the order of the trades. -/
structure DifferInOrphans (c c' : DiscoveryCandidate) : Prop where
  others : c'.toPublicCandidate = c.toPublicCandidate
  context : c'.manipulationContext = c.manipulationContext
  trades : SameCanonical c.recentTrades c'.recentTrades

/-- **Orphaned trades do not influence** the assessment, nor the item. -/
def Uninfluenced (p : Platform) (c c' : DiscoveryCandidate) : Prop :=
  analyzeManipulation p c'.recentTrades c'.manipulationContext =
      analyzeManipulation p c.recentTrades c.manipulationContext ∧
    materializeDiscoveryItem p c' = materializeDiscoveryItem p c

/-- A candidate one of whose times cannot be read is no item. -/
def Undated (p : Platform) (c : DiscoveryCandidate) : Prop :=
  p.parse c.sourceTimestamp = none ∨ p.parse c.observedAt = none

theorem DifferInOrphans.score_eq (h : DifferInOrphans c c') :
    calculateTrendingScore p c' = calculateTrendingScore p c := by
  obtain ⟨candidate, trades, context⟩ := c
  obtain ⟨candidate', trades', context'⟩ := c'
  obtain rfl : candidate' = candidate := h.others
  obtain rfl : context' = context := h.context
  have hanalysis : analyzeManipulation p trades' context' = analyzeManipulation p trades context' :=
    h.trades.analyzeManipulation_eq p context'
  simp only [calculateTrendingScore]
  rw [hanalysis]
  rfl

theorem materializeDiscoveryItem_eq_iff (h : DifferInOrphans c c') :
    materializeDiscoveryItem p c' = materializeDiscoveryItem p c ↔
      Undated p c ∨ relatedWallets p c'.recentTrades = relatedWallets p c.recentTrades := by
  have hscore := @DifferInOrphans.score_eq p c c' h
  unfold materializeDiscoveryItem Undated
  rw [h.others, hscore]
  cases hsource : p.parse c.sourceTimestamp with
  | none => exact iff_of_true rfl (Or.inl (Or.inl rfl))
  | some sourceMs =>
    cases hobserved : p.parse c.observedAt with
    | none => exact iff_of_true rfl (Or.inl (Or.inr rfl))
    | some observedMs =>
      constructor
      · intro heq
        exact Or.inr (congrArg DiscoveryItem.relatedWalletAddresses (Except.ok.inj heq))
      · rintro ((hnone | hnone) | heq)
        · cases hnone
        · cases hnone
        · dsimp only
          rw [heq]

/-- **When orphaned trades do not influence discovery**: where the candidate
cannot be dated, or every wallet's last trade spells it the same way. -/
theorem uninfluenced_iff (hp : p.TellsApart) (h : DifferInOrphans c c') :
    Uninfluenced p c c' ↔ Undated p c ∨
      ∀ key, lastSpelling c'.recentTrades key = lastSpelling c.recentTrades key := by
  have hanalysis : analyzeManipulation p c'.recentTrades c'.manipulationContext =
      analyzeManipulation p c.recentTrades c.manipulationContext := by
    rw [h.context]
    exact h.trades.analyzeManipulation_eq p c.manipulationContext
  rw [Uninfluenced, materializeDiscoveryItem_eq_iff h, relatedWallets_eq_iff hp]
  exact and_iff_right hanalysis

end Candidates

/-! ## An orphaned trade of a wallet without others -/

/-- A buy of a wallet with a pool. -/
def sampleTrade (trader : AddressText) (logIndex : ℤ) (canonical : Bool) : DiscoveryTrade where
  transactionHash := "0x22"
  blockNumber := 90
  blockHash := "0x33"
  logIndex := logIndex
  timestamp := "2026-07-13T12:00:00.000Z"
  senderAddress := none
  recipientAddress := none
  traderAddress := trader
  counterpartyAddress := none
  side := .buy
  quoteAmountRaw := 5000
  canonical := canonical

def trader : AddressText := repeatedAddress '2' rfl

def orphanedTrader : AddressText := repeatedAddress '3' rfl

/-- The candidate with a canonical trade, and orphaned ones of one wallet. -/
def withOrphans (orphans : List AddressText) : DiscoveryCandidate :=
  sampleCandidate 1000000
    (sampleTrade trader 1 true :: orphans.map fun orphan => sampleTrade orphan 2 false)

theorem differInOrphans (orphans : List AddressText) :
    DifferInOrphans (withOrphans []) (withOrphans orphans) where
  others := rfl
  context := rfl
  trades := by
    have hfilter : ((withOrphans orphans).recentTrades.filter (·.canonical)) =
        [sampleTrade trader 1 true] := by
      have horphans : (orphans.map fun orphan => sampleTrade orphan 2 false).filter
          (·.canonical) = [] := by
        rw [List.filter_eq_nil_iff]
        intro trade htrade
        obtain ⟨orphan, -, rfl⟩ := List.mem_map.mp htrade
        exact Bool.false_ne_true
      show ([sampleTrade trader 1 true] ++ _).filter (·.canonical) = _
      rw [List.filter_append, horphans]
      rfl
    exact ⟨by rw [hfilter]; rfl, List.nodup_singleton _⟩

theorem tellsApart_samplePlatform : samplePlatform.TellsApart := by
  intro a b hne hzero
  have htext : b.text = a.text := by
    have h : Comparator.descending b.text a.text = 0 := hzero
    unfold Comparator.descending at h
    split_ifs at h with heq
    · exact heq
    · omega
  have hdigits := String.ofList_injective htext
  exact hne (congrArg (List.map Char.toLower) (List.cons.inj (List.cons.inj hdigits).2).2.symm)

/-- An orphaned trade of a wallet that traded before changes nothing. -/
theorem uninfluenced_known :
    Uninfluenced samplePlatform (withOrphans []) (withOrphans [trader]) := by
  refine (uninfluenced_iff tellsApart_samplePlatform (differInOrphans [trader])).mpr
    (.inr fun key => ?_)
  by_cases hkey : trader.lower = key
  · simp [lastSpelling, withOrphans, sampleCandidate, sampleTrade, hkey]
  · simp [lastSpelling, withOrphans, sampleCandidate, sampleTrade, hkey]

/-- **The wallet of an orphaned trade** is listed as related. -/
theorem influenced_orphan : DifferInOrphans (withOrphans []) (withOrphans [orphanedTrader]) ∧
    ¬ Uninfluenced samplePlatform (withOrphans []) (withOrphans [orphanedTrader]) := by
  refine ⟨differInOrphans _, fun h => ?_⟩
  have hitem := (materializeDiscoveryItem_eq_iff (differInOrphans [orphanedTrader])).mp h.2
  have hdated : ¬ Undated samplePlatform (withOrphans []) := by
    unfold Undated
    decide
  have hrelated : relatedWallets samplePlatform (withOrphans [orphanedTrader]).recentTrades ≠
      relatedWallets samplePlatform (withOrphans []).recentTrades := by
    decide
  exact hitem.elim hdated hrelated

end Discovery

end HoodSentry
