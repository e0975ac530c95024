import HoodSentry.Discovery.Model.Feeds
/-!
# A feed has one ranking

What a feed compares is a list of sort keys, each of which puts null last, and
the address breaks ties. So the comparison is lawful, tells distinct addresses
apart, and leaves one order for the items of the feed.
-/

namespace HoodSentry

namespace Feeds

/-! ## The keys of a feed -/

section Keys

variable {collation : Collation} {feed : DiscoveryFeed}

theorem lawful_flip {cmp : Comparator String} (h : cmp.Lawful) :
    Comparator.Lawful fun left right => cmp right left :=
  ⟨fun a b => h.swap b a, fun a b c hab hbc => h.trans c b a hbc hab⟩

/-- A date, the later first. -/
def dateKey (collation : Collation) (field : DiscoveryItem → Option String) :
    SortKey DiscoveryItem :=
  .ofNullable field (fun left right => collation.localeCompare right left)
    (lawful_flip collation.lawful)

/-- A number, the larger first. -/
def numberKey (field : DiscoveryItem → Option ℤ) : SortKey DiscoveryItem :=
  .ofNullable field Comparator.descending Comparator.lawful_descending

/-- **What a feed compares**, in turn. -/
def feedKeys (collation : Collation) : DiscoveryFeed → List (SortKey DiscoveryItem)
  | .newTokens =>
    [dateKey collation (·.firstSeenAt), numberKey fun item => some item.firstSeenBlockNumber]
  | .newPools => [dateKey collation (·.poolCreatedAt), numberKey (·.poolCreatedBlockNumber)]
  | .trending =>
    [numberKey fun item => some item.trending.scoreBps,
      numberKey fun item => some item.trending.confidenceBps]
  | .volumeGainers => [numberKey (·.volumeChangeBps)]
  | .liquidityGainers => [numberKey (·.liquidityChangeBps)]
  | .holderGainers => [numberKey (·.holderGrowth)]
  | .transactionActivityGainers => [numberKey (·.transactionGrowthBps)]
  | .newlyGraduated => [dateKey collation (·.graduatedAt)]
  | .recentlyMigrated => [dateKey collation (·.migratedAt)]
  | .recentlyVerifiedProjects => [dateKey collation (·.projectVerifiedAt)]
  | .recentlyScanned => [dateKey collation (·.lastScannedAt)]
  | .recentCriticalRisk => [dateKey collation (·.latestCriticalFindingAt)]
  | .mostWatched => [numberKey fun item => some item.watchlistCount]
  | .mostAlerted => [numberKey fun item => some item.alertCount]

/-- Equal dates need no collation. -/
theorem compareDate_eq (field : DiscoveryItem → Option String) (left right : DiscoveryItem) :
    compareDate collation (field left) (field right) =
      (dateKey collation field).compare left right := by
  change _ = Comparator.nullsLast _ (field left) (field right)
  unfold compareDate Comparator.nullsLast
  cases field left with
  | none => cases field right <;> rfl
  | some date =>
    cases field right with
    | none => rfl
    | some other =>
      by_cases heq : date = other
      · rw [heq, if_pos rfl]
        exact (collation.lawful.refl other).symm
      · rw [if_neg fun h => heq (Option.some.inj h)]

theorem compareBigint_eq (field : DiscoveryItem → Option ℤ) (left right : DiscoveryItem) :
    compareBigint (field left) (field right) = (numberKey field).compare left right := by
  change _ = Comparator.nullsLast _ (field left) (field right)
  unfold compareBigint Comparator.nullsLast Comparator.descending
  cases field left with
  | none => cases field right <;> rfl
  | some number =>
    cases field right with
    | none => rfl
    | some other => simp only [Option.some.injEq]

theorem orNumber_assoc (a b c : ℤ) : orNumber (orNumber a b) c = orNumber a (orNumber b c) := by
  unfold orNumber
  split_ifs <;> rfl

/-- **The comparison of a feed** is by its keys, and then by the address. -/
theorem compareForFeed_eq :
    compareForFeed collation feed = SortKey.byKeys (feedKeys collation feed) tieBreak := by
  funext left right
  -- each feed compares by one key or by two
  have hone : ∀ (key : SortKey DiscoveryItem) (first : ℤ), first = key.compare left right →
      orNumber first (tieBreak left right) = SortKey.byKeys [key] tieBreak left right := by
    rintro key first rfl
    rfl
  have htwo : ∀ (key next : SortKey DiscoveryItem) (first second : ℤ),
      first = key.compare left right → second = next.compare left right →
      orNumber (orNumber first second) (tieBreak left right) =
        SortKey.byKeys [key, next] tieBreak left right := by
    rintro key next first second rfl rfl
    rw [orNumber_assoc]
    rfl
  cases feed with
  | newTokens =>
    exact htwo _ _ _ _ (compareDate_eq _ _ _)
      (compareBigint_eq (fun item => some item.firstSeenBlockNumber) _ _)
  | newPools => exact htwo _ _ _ _ (compareDate_eq _ _ _) (compareBigint_eq _ _ _)
  | trending =>
    exact htwo _ _ _ _ (compareBigint_eq (fun item => some item.trending.scoreBps) _ _)
      (compareBigint_eq (fun item => some item.trending.confidenceBps) _ _)
  | volumeGainers => exact hone _ _ (compareBigint_eq _ _ _)
  | liquidityGainers => exact hone _ _ (compareBigint_eq _ _ _)
  | holderGainers => exact hone _ _ (compareBigint_eq _ _ _)
  | transactionActivityGainers => exact hone _ _ (compareBigint_eq _ _ _)
  | newlyGraduated => exact hone _ _ (compareDate_eq _ _ _)
  | recentlyMigrated => exact hone _ _ (compareDate_eq _ _ _)
  | recentlyVerifiedProjects => exact hone _ _ (compareDate_eq _ _ _)
  | recentlyScanned => exact hone _ _ (compareDate_eq _ _ _)
  | recentCriticalRisk => exact hone _ _ (compareDate_eq _ _ _)
  | mostWatched => exact hone _ _ (compareBigint_eq (fun item => some item.watchlistCount) _ _)
  | mostAlerted => exact hone _ _ (compareBigint_eq (fun item => some item.alertCount) _ _)

end Keys

/-! ## The ranking -/

section Ranking

variable {collation : Collation} {feed : DiscoveryFeed} {items items' : List DiscoveryItem}
  {left middle right : DiscoveryItem}

theorem lawful_tieBreak : Comparator.Lawful tieBreak := by
  unfold tieBreak
  constructor
  · intro left right
    split_ifs <;> omega
  · intro left middle right
    split_ifs <;> omega

theorem tieBreak_ne_zero (h : left.address ≠ right.address) : tieBreak left right ≠ 0 := by
  have hvalue : left.address.value ≠ right.address.value := fun heq => h (by
    cases hl : left.address
    cases hr : right.address
    rw [hl, hr] at heq
    exact congrArg _ heq)
  unfold tieBreak
  rw [if_neg hvalue]
  split <;> omega

theorem lawful_compareForFeed : Comparator.Lawful (compareForFeed collation feed) := by
  rw [compareForFeed_eq]
  exact SortKey.lawful_byKeys lawful_tieBreak

instance : IsTrans DiscoveryItem fun left right => compareForFeed collation feed left right ≤ 0 :=
  ⟨lawful_compareForFeed.trans⟩

instance : Std.Total fun left right : DiscoveryItem =>
    compareForFeed collation feed left right ≤ 0 :=
  ⟨lawful_compareForFeed.total⟩

/-- **One ranking**: a strict total order of the eligible items, in which each
is ranked once, whatever the order they come in, and null fields come last. -/
structure RankedOnce (collation : Collation) (feed : DiscoveryFeed) (items : List DiscoveryItem) :
    Prop where
  /-- Distinct items are never compared equal. -/
  apart : ∀ left ∈ items, ∀ right ∈ items, left ≠ right →
    compareForFeed collation feed left right ≠ 0
  antisymm : ∀ left right, 0 < compareForFeed collation feed left right ↔
    compareForFeed collation feed right left < 0
  trans : ∀ left middle right, compareForFeed collation feed left middle < 0 →
    compareForFeed collation feed middle right < 0 → compareForFeed collation feed left right < 0
  /-- Every eligible item is ranked, and as often as it is given. -/
  eligible : (rankFeed collation feed items).Perm
    (items.filter fun item => isEligibleForFeed item feed)
  once : (rankFeed collation feed items).Nodup
  strict : (rankFeed collation feed items).Pairwise fun left right =>
    compareForFeed collation feed left right < 0
  perm : ∀ items', items'.Perm items → rankFeed collation feed items' = rankFeed collation feed items
  nullsLast : (rankFeed collation feed items).Pairwise fun left right =>
    SortKey.NullsAfter left right (feedKeys collation feed)

theorem apart_of_nodup (h : (items.map (·.address)).Nodup) (hleft : left ∈ items)
    (hright : right ∈ items) (hne : left ≠ right) :
    compareForFeed collation feed left right ≠ 0 := by
  have haddress : left.address ≠ right.address := fun heq =>
    hne (List.inj_on_of_nodup_map h hleft hright heq)
  rw [compareForFeed_eq]
  exact SortKey.byKeys_ne_zero (tieBreak_ne_zero haddress)

/-- **Feeds have one ranking.** -/
theorem rankFeed_unique (collation : Collation) (feed : DiscoveryFeed)
    (items : List DiscoveryItem) (h : (items.map (·.address)).Nodup) :
    RankedOnce collation feed items := by
  have hlawful := @lawful_compareForFeed collation feed
  have heligible : (rankFeed collation feed items).Perm
      (items.filter fun item => isEligibleForFeed item feed) := List.perm_insertionSort _ _
  have hmem : ∀ {item}, item ∈ rankFeed collation feed items → item ∈ items := fun hitem =>
    List.mem_of_mem_filter (heligible.mem_iff.mp hitem)
  have honce : (rankFeed collation feed items).Nodup :=
    heligible.nodup_iff.mpr ((List.Nodup.of_map _ h).filter _)
  have hsorted : (rankFeed collation feed items).Pairwise fun left right =>
      compareForFeed collation feed left right ≤ 0 := List.pairwise_insertionSort _ _
  refine ⟨fun left hleft right hright => apart_of_nodup h hleft hright, hlawful.swap,
    fun left middle right hlm hmr => hlawful.neg_trans hlm.le hmr.le (.inl hlm), heligible, honce,
    ?_, ?_, ?_⟩
  · refine (hsorted.and honce).imp_of_mem fun hleft hright hboth => ?_
    have hapart := @apart_of_nodup collation feed _ _ _ h (hmem hleft) (hmem hright) hboth.2
    omega
  · intro items' hperm
    refine insertionSort_eq_of_perm (hperm.filter _) fun left hleft right hright hle hge => ?_
    by_contra hne
    have hapart := @apart_of_nodup collation feed _ _ _ h (List.mem_of_mem_filter hleft)
      (List.mem_of_mem_filter hright) hne
    have := hlawful.swap right left
    omega
  · refine hsorted.imp fun hle => ?_
    rw [compareForFeed_eq] at hle
    exact SortKey.nullsAfter_of_byKeys hle

end Ranking

/-! ## A sample feed -/

/-- Texts compared code point by code point. -/
def codePoints : Collation where
  localeCompare left right := Comparator.descending right left
  lawful := lawful_flip Comparator.lawful_descending

/-- A canonical item with a pool. -/
def pooledItem (address : ℕ) (poolCreatedAt : Option String)
    (poolCreatedBlockNumber : Option ℤ) : DiscoveryItem where
  address := ⟨address⟩
  canonical := true
  primaryPoolAddress := some ⟨100⟩
  launchpadState := .none
  projectVerified := false
  projectVerifiedAt := none
  firstSeenAt := none
  firstSeenBlockNumber := 1
  poolCreatedAt := poolCreatedAt
  poolCreatedBlockNumber := poolCreatedBlockNumber
  trending := ⟨0, 0⟩
  volumeChangeBps := none
  liquidityChangeBps := none
  holderGrowth := none
  transactionGrowthBps := none
  graduatedAt := none
  migratedAt := none
  lastScannedAt := none
  latestCriticalFindingAt := none
  watchlistCount := 0
  alertCount := 0

def pooledItems : List DiscoveryItem :=
  [pooledItem 1 none (some 5), pooledItem 2 (some "2026-01-01") none, pooledItem 3 none none]

/-- Undated items, one of them without a block, are ranked once. -/
theorem rankedOnce_pooledItems : RankedOnce codePoints .newPools pooledItems :=
  rankFeed_unique codePoints .newPools pooledItems (by decide)

end Feeds

end HoodSentry
