import HoodSentry.Chain.Model.RPCClient
/-!
# What the selector sees

Which providers are candidates, told by their trackers: those considered
for the request, healthy, and capable of archive requests where that counts.
Which of them is preferred never matters here, only that it is one of them.
-/

namespace HoodSentry

namespace RPCClient

variable {c : RPCClient} {url : Url} {p : ProviderHealth} {candidates : List ProviderHealth}
variable {requireArchive : Bool} {excludeUrls : List Url}

/-- Every tracker is filed under its provider's url. -/
def Named (c : RPCClient) : Prop :=
  ∀ url t, c.healthTrackers url = some t → t.health.providerUrl = url

/-- The providers a selection goes through. -/
def Considered (c : RPCClient) (requireArchive : Bool) (url : Url) : Prop :=
  url = c.config.primary.url ∨ (∃ s ∈ c.config.secondary, url = s.url) ∨
    requireArchive = true ∧ ∃ a ∈ c.config.archive, url = a.url

/-- **A provider the selector may hand out**: healthy, and known to be
archive capable where that is required. -/
def Eligible (c : RPCClient) (requireArchive : Bool) (url : Url) : Prop :=
  ∃ t, c.healthTrackers url = some t ∧ t.isHealthy = true ∧
    (requireArchive = true → t.health.archiveCapable = some true)

theorem isHealthy_iff : c.isHealthy url = true ↔ c.Eligible false url := by
  simp [isHealthy, Eligible, Option.any_eq_true]

theorem mem_addProviderIfEligible :
    p ∈ c.addProviderIfEligible candidates url requireArchive ↔
      p ∈ candidates ∨ ∃ t, c.healthTrackers url = some t ∧ t.isHealthy = true ∧
        (requireArchive = true → t.health.archiveCapable = some true) ∧ p = t.health := by
  unfold addProviderIfEligible
  cases ht : c.healthTrackers url with
  | none => simp
  | some t =>
    cases requireArchive <;> by_cases hhealthy : t.isHealthy <;>
      by_cases hcapable : t.health.archiveCapable = some true <;> simp [hhealthy, hcapable]

/-- **The candidates**, by their trackers. -/
theorem mem_getCandidateProviders :
    p ∈ c.getCandidateProviders requireArchive ↔
      ∃ url t, c.Considered requireArchive url ∧ c.healthTrackers url = some t ∧
        t.isHealthy = true ∧ (requireArchive = true → t.health.archiveCapable = some true) ∧
        p = t.health := by
  have hsplit : p ∈ c.getCandidateProviders requireArchive ↔
      p ∈ c.addProviderIfEligible [] c.config.primary.url requireArchive ∨
      (∃ s ∈ c.config.secondary, p ∈ c.addProviderIfEligible [] s.url requireArchive) ∨
      (requireArchive = true ∧
        ∃ a ∈ c.config.archive, p ∈ c.addProviderIfEligible [] a.url requireArchive) := by
    unfold getCandidateProviders addArchiveProviderIfEligible
    cases hs : c.config.secondary <;> cases ha : c.config.archive <;> cases requireArchive <;>
      simp [mem_addProviderIfEligible, or_assoc]
  rw [hsplit]
  simp only [mem_addProviderIfEligible, List.not_mem_nil, false_or]
  constructor
  · rintro (⟨t, h⟩ | ⟨s, hs, t, h⟩ | ⟨hreq, a, ha, t, h⟩)
    · exact ⟨_, t, .inl rfl, h⟩
    · exact ⟨_, t, .inr (.inl ⟨s, hs, rfl⟩), h⟩
    · exact ⟨_, t, .inr (.inr ⟨hreq, a, ha, rfl⟩), h⟩
  · rintro ⟨url, t, rfl | ⟨s, hs, rfl⟩ | ⟨hreq, a, ha, rfl⟩, h⟩
    · exact .inl ⟨t, h⟩
    · exact .inr (.inl ⟨s, hs, t, h⟩)
    · exact .inr (.inr ⟨hreq, a, ha, t, h⟩)

/-- A url is listed when its provider is considered and eligible. -/
theorem listed_iff (hnamed : c.Named) :
    url ∈ (c.getCandidateProviders requireArchive).map ProviderHealth.providerUrl ↔
      c.Considered requireArchive url ∧ c.Eligible requireArchive url := by
  rw [List.mem_map]
  constructor
  · rintro ⟨p, hp, rfl⟩
    obtain ⟨url, t, hconsidered, ht, hhealthy, hcapable, rfl⟩ := mem_getCandidateProviders.mp hp
    rw [hnamed url t ht]
    exact ⟨hconsidered, t, ht, hhealthy, hcapable⟩
  · rintro ⟨hconsidered, t, ht, hhealthy, hcapable⟩
    exact ⟨t.health, mem_getCandidateProviders.mpr ⟨url, t, hconsidered, ht, hhealthy, hcapable, rfl⟩,
      hnamed url t ht⟩

/-! ## The one preferred -/

theorem preferred_eq_none_iff : c.preferred candidates = none ↔ candidates = [] := by
  rw [preferred, Option.map_eq_none_iff, List.head?_eq_none_iff, ← List.length_eq_zero_iff,
    List.length_insertionSort, List.length_eq_zero_iff]

theorem mem_of_preferred (h : c.preferred candidates = some url) :
    url ∈ candidates.map ProviderHealth.providerUrl := by
  obtain ⟨p, hp, rfl⟩ := Option.map_eq_some_iff.mp h
  exact List.mem_map_of_mem ((List.mem_insertionSort _).mp (List.mem_of_mem_head? hp))

theorem eligible_of_selectProvider (hnamed : c.Named)
    (h : c.selectProvider requireArchive = some url) :
    c.Considered requireArchive url ∧ c.Eligible requireArchive url :=
  (listed_iff hnamed).mp (mem_of_preferred h)

theorem selectProvider_eq_none_iff (hnamed : c.Named) :
    c.selectProvider requireArchive = none ↔
      ∀ url, c.Considered requireArchive url → ¬ c.Eligible requireArchive url := by
  rw [selectProvider, preferred_eq_none_iff, ← List.map_eq_nil_iff (f := ProviderHealth.providerUrl),
    List.eq_nil_iff_forall_not_mem]
  simp only [listed_iff hnamed, not_and]

/-! ## Fallbacks -/

/-- The configured urls. -/
def Configured (c : RPCClient) (url : Url) : Prop := url ∈ c.config.providers.map ProviderConfig.url

theorem configured_iff : c.Configured url ↔ c.Considered true url := by
  unfold Configured Considered RPCClientConfig.providers
  cases c.config.secondary <;> cases c.config.archive <;> simp

theorem Considered.configured (h : c.Considered requireArchive url) : c.Configured url :=
  configured_iff.mpr (h.imp_right fun h => h.imp_right fun ⟨_, h⟩ => ⟨rfl, h⟩)

/-- The archive provider is considered only where one is required. -/
theorem configured_iff_archive :
    c.Configured url ↔
      c.Considered false url ∨ ∃ a ∈ c.config.archive, url = a.url := by
  rw [configured_iff]
  unfold Considered
  simp [or_assoc]

/-- The candidates that are not excluded. -/
theorem mem_filter_candidates (hnamed : c.Named) :
    url ∈ ((c.getCandidateProviders false).filter fun p => decide (p.providerUrl ∉ excludeUrls)).map
        ProviderHealth.providerUrl ↔
      (c.Considered false url ∧ c.Eligible false url) ∧ url ∉ excludeUrls := by
  rw [← listed_iff hnamed]
  simp only [List.mem_map, List.mem_filter, decide_eq_true_eq]
  constructor
  · rintro ⟨p, ⟨hp, hnot⟩, rfl⟩
    exact ⟨⟨p, hp, rfl⟩, hnot⟩
  · rintro ⟨⟨p, hp, rfl⟩, hnot⟩
    exact ⟨p, ⟨hp, hnot⟩, rfl⟩

/-- **The fallbacks** are the healthy providers not excluded. -/
theorem mem_fallbackUrls (hnamed : c.Named) :
    url ∈ (c.fallbackCandidates excludeUrls).map ProviderHealth.providerUrl ↔
      c.Configured url ∧ c.Eligible false url ∧ url ∉ excludeUrls := by
  have hcandidates : url ∈ ((c.getCandidateProviders false).filter
        fun p => decide (p.providerUrl ∉ excludeUrls)).map ProviderHealth.providerUrl ↔
      (c.Considered false url ∧ c.Eligible false url) ∧ url ∉ excludeUrls :=
    mem_filter_candidates hnamed
  rw [configured_iff_archive]
  unfold fallbackCandidates
  cases ha : c.config.archive with
  | none =>
    rw [hcandidates]
    simp [and_assoc]
  | some archive =>
    cases ht : c.healthTrackers archive.url with
    | none =>
      have hdown : url = archive.url → ¬ c.Eligible false url := by
        rintro rfl ⟨t, ht', -⟩
        exact Option.some_ne_none t (ht'.symm.trans ht)
      dsimp only
      rw [ht]
      dsimp only
      rw [hcandidates]
      simp only [Option.mem_def, Option.some.injEq, exists_eq_left']
      tauto
    | some tracker =>
      have hname := hnamed archive.url tracker ht
      have hup : tracker.isHealthy = true ↔ c.Eligible false archive.url := by
        simp [Eligible, ht]
      dsimp only
      rw [ht]
      dsimp only
      split_ifs with hadded
      · -- The archive provider is added, so it is a fallback whatever is considered.
        obtain ⟨hnot, hhealthy, -⟩ := hadded
        rw [List.map_append, List.mem_append, hcandidates, List.map_singleton, List.mem_singleton,
          hname]
        simp only [Option.mem_def, Option.some.injEq, exists_eq_left']
        constructor
        · rintro (⟨⟨hconsidered, heligible⟩, hfree⟩ | rfl)
          · exact ⟨.inl hconsidered, heligible, hfree⟩
          · exact ⟨.inr rfl, hup.mp hhealthy, hnot⟩
        · rintro ⟨hconsidered | rfl, heligible, hfree⟩
          · exact .inl ⟨⟨hconsidered, heligible⟩, hfree⟩
          · exact .inr rfl
      · -- It is left out only where it is excluded, down or among them already.
        simp only [Option.mem_def, Option.some.injEq, exists_eq_left']
        constructor
        · intro h
          obtain ⟨⟨hconsidered, heligible⟩, hfree⟩ := hcandidates.mp h
          exact ⟨.inl hconsidered, heligible, hfree⟩
        · rintro ⟨hconsidered | rfl, heligible, hfree⟩
          · exact hcandidates.mpr ⟨⟨hconsidered, heligible⟩, hfree⟩
          · by_contra habsent
            refine hadded ⟨hfree, hup.mpr heligible, ?_⟩
            rw [List.any_eq_true]
            rintro ⟨p, hp, hsame⟩
            exact habsent (List.mem_map.mpr ⟨p, hp, of_decide_eq_true hsame⟩)

theorem eligible_of_selectFallbackProvider (hnamed : c.Named)
    (h : c.selectFallbackProvider excludeUrls = some url) :
    c.Configured url ∧ c.Eligible false url ∧ url ∉ excludeUrls :=
  (mem_fallbackUrls hnamed).mp (mem_of_preferred h)

theorem selectFallbackProvider_eq_none_iff (hnamed : c.Named) :
    c.selectFallbackProvider excludeUrls = none ↔
      ∀ url, c.Configured url → c.Eligible false url → url ∈ excludeUrls := by
  rw [selectFallbackProvider, preferred_eq_none_iff,
    ← List.map_eq_nil_iff (f := ProviderHealth.providerUrl), List.eq_nil_iff_forall_not_mem]
  simp only [mem_fallbackUrls hnamed, not_and, not_not]

end RPCClient

end HoodSentry
