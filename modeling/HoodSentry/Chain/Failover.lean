import HoodSentry.Chain.Circuits
/-!
# Failover

What one request tries. A provider is tried at most once in a request, two
of them in an attempt where the first fails, so the providers run out after
an attempt or two; the error then thrown allows no further attempt, whatever
the error of the last provider would have allowed.
-/

namespace HoodSentry

section Trying

variable {α : Type*} (answers : Url → ProviderAnswer α)

/-- The breaker lets the request through. -/
def Admits (c : RPCClient) (url : Url) : Prop := (c.canExecute (answers url).entered url).1 = true

instance (c : RPCClient) (url : Url) : Decidable (Admits answers c url) :=
  inferInstanceAs (Decidable (_ = true))

/-- What trying a provider gives. -/
def outcomeOf (c : RPCClient) (url : Url) : Except ThrownError α :=
  (executeOnProvider answers url (.start c)).1

/-- The client as trying a provider leaves it. -/
def afterTrying (c : RPCClient) (url : Url) : RPCClient :=
  (executeOnProvider answers url (.start c)).2.client

/-- A request once it has tried a provider more. -/
def FailoverState.tried (s : FailoverState) (url : Url) : FailoverState where
  client := afterTrying answers s.client url
  triedProviders := s.triedProviders ++ [url]
  called := if Admits answers s.client url then s.called ++ [url] else s.called

variable {answers} {c c' : RPCClient} {s : FailoverState} {url other : Url} {method : RPCMethod}

theorem executeOnProvider_eq :
    executeOnProvider answers url { s with triedProviders := s.triedProviders ++ [url] } =
      (outcomeOf answers s.client url, s.tried answers url) := by
  unfold FailoverState.tried outcomeOf afterTrying Admits executeOnProvider FailoverState.start
  dsimp only
  cases ht : s.client.healthTrackers url with
  | none => simp [RPCClient.canExecute, ht]
  | some t =>
    obtain ⟨admitted, client, hask⟩ : ∃ admitted client,
        s.client.canExecute (answers url).entered url = (admitted, client) := ⟨_, _, rfl⟩
    simp only [hask]
    cases admitted <;> simp

/-- An error a refused request meets is not the call's own, and allows no
further attempt. -/
theorem outcomeOf_of_not_admits (h : ¬ Admits answers c url) :
    ∃ e, outcomeOf answers c url = .error e ∧ defaultShouldRetry e = false := by
  unfold outcomeOf executeOnProvider FailoverState.start
  unfold Admits at h
  dsimp only
  cases ht : c.healthTrackers url with
  | none => exact ⟨_, rfl, rfl⟩
  | some t =>
    dsimp only
    rcases hask : c.canExecute (answers url).entered url with ⟨admitted, client⟩
    rw [hask] at h
    cases admitted with
    | false => exact ⟨_, rfl, rfl⟩
    | true => exact absurd rfl h

theorem outcomeOf_of_admits (h : Admits answers c url) :
    outcomeOf answers c url = (answers url).outcome := by
  unfold outcomeOf executeOnProvider FailoverState.start
  unfold Admits at h
  dsimp only
  cases ht : c.healthTrackers url with
  | none =>
    rw [RPCClient.canExecute, ht] at h
    exact absurd h Bool.false_ne_true
  | some t =>
    dsimp only
    rcases hask : c.canExecute (answers url).entered url with ⟨admitted, client⟩
    rw [hask] at h
    obtain rfl : admitted = true := h
    rfl

/-! ## What a request leaves of the client -/

/-- **Two clients apart only at some providers.** -/
structure ApartAt (urls : List Url) (c c' : RPCClient) : Prop where
  config : c'.config = c.config
  blockLagMonitor : c'.blockLagMonitor = c.blockLagMonitor
  trackers : ∀ url ∉ urls, c'.healthTrackers url = c.healthTrackers url
  named : c.Named → c'.Named

theorem ApartAt.refl (c : RPCClient) : ApartAt [] c c :=
  ⟨rfl, rfl, fun _ _ => rfl, id⟩

theorem apartAt_modifyTracker {f : ProviderHealthTracker → ProviderHealthTracker}
    (hf : ∀ t, (f t).health.providerUrl = t.health.providerUrl) :
    ApartAt [url] c (c.modifyTracker url f) where
  config := rfl
  blockLagMonitor := rfl
  trackers other hother := RPCClient.modifyTracker_of_ne fun h => hother (h ▸ List.mem_singleton_self _)
  named h other t ht := by
    by_cases hsame : other = url
    · subst hsame
      obtain ⟨t₀, ht₀, rfl⟩ := Option.map_eq_some_iff.mp (RPCClient.modifyTracker_self.symm.trans ht)
      exact (hf t₀).trans (h other t₀ ht₀)
    · exact h other t ((RPCClient.modifyTracker_of_ne hsame).symm.trans ht)

theorem ApartAt.trans {urls urls' : List Url} {c₁ c₂ c₃ : RPCClient} (h : ApartAt urls c₁ c₂)
    (h' : ApartAt urls' c₂ c₃) : ApartAt (urls ++ urls') c₁ c₃ where
  config := h'.config.trans h.config
  blockLagMonitor := h'.blockLagMonitor.trans h.blockLagMonitor
  trackers url hurl := by
    rw [List.mem_append, not_or] at hurl
    exact (h'.trackers url hurl.2).trans (h.trackers url hurl.1)
  named hnamed := h'.named (h.named hnamed)

theorem ApartAt.mono {urls urls' : List Url} (h : ApartAt urls c c') (hsub : urls ⊆ urls') :
    ApartAt urls' c c' :=
  ⟨h.config, h.blockLagMonitor, fun url hurl => h.trackers url fun hmem => hurl (hsub hmem), h.named⟩

theorem apartAt_canExecute (now : ℕ) : ApartAt [url] c (c.canExecute now url).2 := by
  unfold RPCClient.canExecute
  split
  · exact (ApartAt.refl c).mono (List.nil_subset _)
  · exact apartAt_modifyTracker fun _ => rfl

theorem apartAt_recordAnswer (now startTime : ℕ) (success : Bool) :
    ApartAt [url] c (c.recordAnswer now startTime url success) := by
  refine apartAt_modifyTracker fun t => ?_
  unfold ProviderHealthTracker.recordRequest ProviderHealthTracker.updateMetrics
  dsimp only
  split_ifs <;> rfl

/-- **Trying a provider touches its tracker alone.** -/
theorem apartAt_afterTrying : ApartAt [url] c (afterTrying answers c url) := by
  unfold afterTrying executeOnProvider FailoverState.start
  dsimp only
  cases ht : c.healthTrackers url with
  | none => exact (ApartAt.refl c).mono (List.nil_subset _)
  | some t =>
    dsimp only
    have hentered : ApartAt [url] c (c.canExecute (answers url).entered url).2 :=
      apartAt_canExecute _
    rcases hask : c.canExecute (answers url).entered url with ⟨admitted, client⟩
    rw [hask] at hentered
    cases admitted with
    | false => exact hentered
    | true =>
      exact (hentered.trans (apartAt_recordAnswer _ _ _)).mono (by simp)

/-- What trying a provider gives is read off its tracker alone. -/
theorem outcomeOf_congr (hconfig : c'.config = c.config)
    (htracker : c'.healthTrackers url = c.healthTrackers url) :
    (Admits answers c' url ↔ Admits answers c url) ∧
      outcomeOf answers c' url = outcomeOf answers c url := by
  unfold Admits outcomeOf executeOnProvider RPCClient.canExecute FailoverState.start
  dsimp only
  rw [htracker, hconfig]
  cases c.healthTrackers url with
  | none => exact ⟨Iff.rfl, rfl⟩
  | some t =>
    dsimp only
    rcases t.circuitBreaker.canExecute c.config.circuitBreaker (answers url).entered with
      ⟨admitted, breaker⟩
    cases admitted <;> exact ⟨Iff.rfl, rfl⟩

end Trying

/-! ## Who is next -/

namespace RPCClient

variable {c c' : RPCClient} {urls excludeUrls : List Url} {url : Url}

/-- What is left of a provider's own entry once the excluded are gone. -/
theorem filter_addProviderIfEligible (hnamed : c.Named) (candidates : List ProviderHealth)
    (requireArchive : Bool) :
    (c.addProviderIfEligible candidates url requireArchive).filter
        (fun p => decide (p.providerUrl ∉ excludeUrls)) =
      candidates.filter (fun p => decide (p.providerUrl ∉ excludeUrls)) ++
        if url ∈ excludeUrls then [] else c.addProviderIfEligible [] url requireArchive := by
  unfold addProviderIfEligible
  cases ht : c.healthTrackers url with
  | none => simp
  | some t =>
    have hname := hnamed url t ht
    dsimp only
    by_cases helig : t.isHealthy = true ∧ (!requireArchive ∨ t.health.archiveCapable = some true)
    · rw [if_pos helig, if_pos helig, List.filter_append, List.nil_append]
      by_cases hexcluded : url ∈ excludeUrls
      · simp [hname, hexcluded]
      · simp [hname, hexcluded]
    · rw [if_neg helig, if_neg helig]
      simp

theorem addProviderIfEligible_congr (htracker : c'.healthTrackers url = c.healthTrackers url)
    (candidates : List ProviderHealth) (requireArchive : Bool) :
    c'.addProviderIfEligible candidates url requireArchive =
      c.addProviderIfEligible candidates url requireArchive := by
  unfold addProviderIfEligible
  rw [htracker]

/-- **The fallbacks do not depend on the providers excluded.** -/
theorem fallbackCandidates_congr (h : ApartAt excludeUrls c c') (hnamed : c.Named) :
    c'.fallbackCandidates excludeUrls = c.fallbackCandidates excludeUrls := by
  have hentry (url : Url) (requireArchive : Bool) :
      (if url ∈ excludeUrls then [] else c'.addProviderIfEligible [] url requireArchive) =
        if url ∈ excludeUrls then [] else c.addProviderIfEligible [] url requireArchive := by
    split_ifs with hexcluded
    · rfl
    · exact addProviderIfEligible_congr (h.trackers url hexcluded) [] requireArchive
  have hcandidates :
      (c'.getCandidateProviders false).filter (fun p => decide (p.providerUrl ∉ excludeUrls)) =
        (c.getCandidateProviders false).filter (fun p => decide (p.providerUrl ∉ excludeUrls)) := by
    unfold getCandidateProviders
    rw [h.config]
    cases c.config.secondary <;> cases c.config.archive <;>
      simp only [Bool.false_eq_true, if_false, filter_addProviderIfEligible hnamed,
        filter_addProviderIfEligible (h.named hnamed), hentry]
  unfold fallbackCandidates
  rw [hcandidates, h.config]
  cases c.config.archive with
  | none => rfl
  | some archive =>
    dsimp only
    by_cases hexcluded : archive.url ∈ excludeUrls
    · cases c.healthTrackers archive.url <;> cases c'.healthTrackers archive.url <;>
        simp [hexcluded]
    · rw [h.trackers archive.url hexcluded]

theorem selectFallbackProvider_congr (h : ApartAt excludeUrls c c') (hnamed : c.Named) :
    c'.selectFallbackProvider excludeUrls = c.selectFallbackProvider excludeUrls := by
  have hcompare : c'.compareProviders = c.compareProviders := by
    funext a b
    unfold compareProviders
    rw [h.blockLagMonitor]
  unfold selectFallbackProvider preferred
  rw [fallbackCandidates_congr h hnamed, hcompare]

/-- At most three providers are configured. -/
theorem eq_of_configured {first second third : Url} (hne : second ≠ first)
    (hthird : third ∉ [first, second]) (hurl : url ∉ [first, second])
    (hconfigured : ∀ u ∈ [first, second, third, url], c.Configured u) : url = third := by
  by_contra hother
  have hnodup : [first, second, third, url].Nodup := by
    simp only [List.mem_cons, List.not_mem_nil, or_false, not_or] at hthird hurl
    simp only [List.nodup_cons, List.mem_cons, List.not_mem_nil, or_false, not_or]
    exact ⟨⟨hne.symm, fun h => hthird.1 h.symm, fun h => hurl.1 h.symm⟩,
      ⟨fun h => hthird.2 h.symm, fun h => hurl.2 h.symm⟩, fun h => hother h.symm,
      not_false, List.nodup_nil⟩
  have hlong := (hnodup.subperm hconfigured).length_le
  have hshort : c.config.providers.length ≤ 3 := by
    unfold RPCClientConfig.providers
    cases c.config.secondary <;> cases c.config.archive <;> simp
  rw [List.length_map] at hlong
  have hfour : [first, second, third, url].length = 4 := rfl
  omega

end RPCClient

/-! ## One attempt -/

section Attempt

variable {α : Type*} {answers : Url → ProviderAnswer α} {s : FailoverState} {url : Url}
variable {method : RPCMethod} {e : ThrownError} {a : α}

theorem attemptProviders_eq (hnext : s.client.selectNextProvider method s.triedProviders = .ok url) :
    attemptProviders answers method s =
      match outcomeOf answers s.client url with
      | .ok a => (.ok a, s.tried answers url)
      | .error e => handleProviderError answers e (s.tried answers url) := by
  unfold attemptProviders
  rw [hnext]
  dsimp only
  rw [executeOnProvider_eq]
  cases outcomeOf answers s.client url <;> rfl

theorem attempt_ok (hnext : s.client.selectNextProvider method s.triedProviders = .ok url)
    (hok : outcomeOf answers s.client url = .ok a) :
    attemptProviders answers method s = (.ok a, s.tried answers url) := by
  rw [attemptProviders_eq hnext, hok]

theorem attempt_alone (hnext : s.client.selectNextProvider method s.triedProviders = .ok url)
    (herror : outcomeOf answers s.client url = .error e)
    (hnone : (s.tried answers url).client.selectFallbackProvider
      (s.tried answers url).triedProviders = none) :
    attemptProviders answers method s = (.error e, s.tried answers url) := by
  rw [attemptProviders_eq hnext, herror]
  dsimp only [handleProviderError]
  rw [hnone]

theorem attempt_fallback (hnext : s.client.selectNextProvider method s.triedProviders = .ok url)
    (herror : outcomeOf answers s.client url = .error e) {fallback : Url}
    (hsome : (s.tried answers url).client.selectFallbackProvider
      (s.tried answers url).triedProviders = some fallback) :
    attemptProviders answers method s =
      (outcomeOf answers (s.tried answers url).client fallback,
        (s.tried answers url).tried answers fallback) := by
  rw [attemptProviders_eq hnext, herror]
  dsimp only [handleProviderError]
  rw [hsome]
  exact executeOnProvider_eq

/-- **An attempt that tries nothing**: there is no candidate for the method,
or no healthy provider untried. Its error allows no further one. -/
theorem attempt_futile (hnamed : s.client.Named)
    (h : s.client.selectProviderForMethod method = none ∨
      s.client.selectFallbackProvider s.triedProviders = none) :
    ∃ e, attemptProviders answers method s = (.error e, s) ∧ defaultShouldRetry e = false := by
  unfold attemptProviders RPCClient.selectNextProvider
  cases hselected : s.client.selectProviderForMethod method with
  | none => exact ⟨_, rfl, rfl⟩
  | some url =>
    rcases h with hnone | hnone
    · exact absurd (hselected.symm.trans hnone) (Option.some_ne_none url)
    · obtain ⟨hconsidered, t, ht, hup, -⟩ := RPCClient.eligible_of_selectProvider hnamed hselected
      have htried : url ∈ s.triedProviders :=
        (RPCClient.selectFallbackProvider_eq_none_iff hnamed).mp hnone url hconsidered.configured
          ⟨t, ht, hup, fun hreq => absurd hreq Bool.false_ne_true⟩
      dsimp only
      rw [if_pos (List.contains_iff_mem.mpr htried), hnone]
      exact ⟨_, rfl, rfl⟩

end Attempt

/-! ## What a request owes -/

section Owed

variable {α : Type*} (answers : Url → ProviderAnswer α) (c : RPCClient) (method : RPCMethod)

/-- What each attempt of a request gave. -/
def attemptsOf : List (Except ThrownError α × FailoverState) :=
  attempts (attemptProviders answers method) defaultShouldRetry c.config.maxAttempts (.start c)

/-- The providers the selector lists for the method. -/
def ListedFor (url : Url) : Prop :=
  url ∈ (c.getCandidateProviders (c.isHistoricalMethod method)).map ProviderHealth.providerUrl

/-- The error is what the last provider tried answered its call with. -/
def OwnError (s : FailoverState) (e : ThrownError) : Prop :=
  ∃ url, s.triedProviders.getLast? = some url ∧ s.called.getLast? = some url ∧
    (answers url).outcome = .error e

/-- **Failover tries what it can.** A request that throws with attempts left
throws an error of the call itself that allows no other, or has tried every
provider listed when it began; and an attempt that ends in a retryable error
is followed, while attempts are left, by one that tries a provider. -/
structure TriesWhatItCan : Prop where
  exhausts : ∀ e s, executeWithFailover answers c method = (.error e, s) →
    (attemptsOf answers c method).length < c.config.maxAttempts →
    (defaultShouldRetry e = false ∧ OwnError answers s e) ∨
      ∀ url, ListedFor c method url → url ∈ s.triedProviders
  retries : ∀ k e s, (attemptsOf answers c method)[k]? = some (.error e, s) →
    defaultShouldRetry e = true → k + 1 < c.config.maxAttempts →
    ∃ r s', (attemptsOf answers c method)[k + 1]? = some (r, s') ∧
      s'.triedProviders ≠ s.triedProviders

/-- **The request is settled before its providers run out.** Where more than
one attempt is allowed and the provider chosen first gives an error: without
a fallback the error allows no retry; the fallback's breaker refuses only
where no third provider is listed; and where the fallback's error allows a
retry, a third provider is there, the selector still has a candidate for the
method, and the third one's error allows no retry unless attempts end. -/
def SettlesInTime : Prop :=
  1 < c.config.maxAttempts →
  ∀ first, c.selectProviderForMethod method = some first →
  ∀ e, outcomeOf answers c first = .error e →
    (c.selectFallbackProvider [first] = none → defaultShouldRetry e = false) ∧
    ∀ second, c.selectFallbackProvider [first] = some second →
      (¬ Admits answers c second →
        ∀ url, ListedFor c method url → url = first ∨ url = second) ∧
      ∀ e', outcomeOf answers c second = .error e' → defaultShouldRetry e' = true →
        ∃ third, c.selectFallbackProvider [first, second] = some third ∧
          (afterTrying answers (afterTrying answers c first) second).selectProviderForMethod
            method ≠ none ∧
          (2 < c.config.maxAttempts →
            ∀ e'', outcomeOf answers c third = .error e'' → defaultShouldRetry e'' = false)

end Owed

/-! ## Judging the attempts -/

section Judge

variable {α : Type*} {answers : Url → ProviderAnswer α} {listed : Url → Prop} {m : ℕ}
variable {L : List (Except ThrownError α × FailoverState)} {s s' : FailoverState}
variable {e : ThrownError} {a : α}

/-- What a request owes, read off the list of what attempts gave. -/
def Judged (answers : Url → ProviderAnswer α) (listed : Url → Prop) (m : ℕ)
    (L : List (Except ThrownError α × FailoverState)) : Prop :=
  (∀ e s, L.getLast? = some (.error e, s) → L.length < m →
    (defaultShouldRetry e = false ∧ OwnError answers s e) ∨
      ∀ url, listed url → url ∈ s.triedProviders) ∧
  ∀ k e s, L[k]? = some (.error e, s) → defaultShouldRetry e = true → k + 1 < m →
    ∃ r s', L[k + 1]? = some (r, s') ∧ s'.triedProviders ≠ s.triedProviders

theorem triesWhatItCan_iff {c : RPCClient} {method : RPCMethod} :
    TriesWhatItCan answers c method ↔
      Judged answers (ListedFor c method) c.config.maxAttempts (attemptsOf answers c method) := by
  have hend : executeWithFailover answers c method =
      ((attemptsOf answers c method).getLast?).getD
        (.error (.error "All retry attempts failed"), .start c) := retry_eq_getLast
  constructor
  · intro h
    refine ⟨fun e s hlast => h.exhausts e s ?_, h.retries⟩
    rw [hend, hlast, Option.getD_some]
  · rintro ⟨hexhausts, hretries⟩
    refine ⟨fun e s hres hlt => ?_, hretries⟩
    rw [hend] at hres
    cases hlast : (attemptsOf answers c method).getLast? with
    | some last =>
      rw [hlast, Option.getD_some] at hres
      exact hexhausts e s (hres ▸ hlast) hlt
    | none =>
      -- No attempt was made, so none was allowed.
      exfalso
      rw [List.getLast?_eq_none_iff] at hlast
      rw [hlast, List.length_nil] at hlt
      obtain ⟨n, hn⟩ := Nat.exists_eq_succ_of_ne_zero hlt.ne'
      unfold attemptsOf at hlast
      rw [hn, attempts] at hlast
      split at hlast
      · exact List.cons_ne_nil _ _ hlast
      · exact List.cons_ne_nil _ _ hlast

theorem judged_nil : Judged answers listed m [] := by
  constructor
  · intro e s hlast
    cases hlast
  · intro k e s hk
    cases hk

theorem judged_ok : Judged answers listed m [(.ok a, s)] := by
  constructor
  · intro e s' hlast
    cases hlast
  · intro k e s' hk
    cases k with
    | zero => cases hk
    | succ k => cases hk

/-- The last attempt allowed owes nothing. -/
theorem judged_last (r : Except ThrownError α) : Judged answers listed 1 [(r, s)] :=
  ⟨fun _ _ _ hlt => absurd hlt (lt_irrefl 1), fun k _ _ _ _ hlt => by omega⟩

/-- An error that allows no retry. -/
theorem judged_stop (hstop : defaultShouldRetry e = false) (hm : 1 < m) :
    Judged answers listed m [(.error e, s)] ↔
      OwnError answers s e ∨ ∀ url, listed url → url ∈ s.triedProviders := by
  constructor
  · rintro ⟨hexhausts, -⟩
    exact (hexhausts e s rfl hm).imp_left And.right
  · intro h
    refine ⟨fun e' s' hlast _ => ?_, fun k e' s' hk hretry _ => ?_⟩
    · cases hlast
      exact h.imp_left fun hown => ⟨hstop, hown⟩
    · cases k with
      | zero =>
        cases hk
        exact absurd (hstop.symm.trans hretry) Bool.false_ne_true
      | succ k => cases hk

/-- A retryable error, and the attempts after it. -/
theorem judged_cons (hagain : defaultShouldRetry e = true) (hm : 1 ≤ m)
    (r : Except ThrownError α) :
    Judged answers listed (m + 1) ((.error e, s) :: (r, s') :: L) ↔
      s'.triedProviders ≠ s.triedProviders ∧ Judged answers listed m ((r, s') :: L) := by
  constructor
  · rintro ⟨hexhausts, hretries⟩
    obtain ⟨r', s'', hnext, hne⟩ := hretries 0 e s rfl hagain (by omega)
    cases hnext
    refine ⟨hne, fun e' t hlast hlt => ?_, fun k e' t hk hretry hlt => ?_⟩
    · refine hexhausts e' t ?_ (Nat.succ_lt_succ hlt)
      rw [List.getLast?_cons_cons]
      exact hlast
    · exact hretries (k + 1) e' t hk hretry (Nat.succ_lt_succ hlt)
  · rintro ⟨hne, hexhausts, hretries⟩
    refine ⟨fun e' t hlast hlt => ?_, fun k e' t hk hretry hlt => ?_⟩
    · rw [List.getLast?_cons_cons] at hlast
      exact hexhausts e' t hlast (Nat.lt_of_succ_lt_succ hlt)
    · cases k with
      | zero =>
        cases hk
        exact ⟨r, s', rfl, hne⟩
      | succ k => exact hretries k e' t hk hretry (Nat.lt_of_succ_lt_succ hlt)

end Judge

/-! ## The attempts of a request -/

section Attempts

variable {α : Type*} {answers : Url → ProviderAnswer α} {c : RPCClient} {method : RPCMethod}
variable {first second third : Url} {e e' : ThrownError} {n : ℕ}

/-- A request once its first provider is tried, and its second. -/
def FailoverState.once (answers : Url → ProviderAnswer α) (c : RPCClient) (first : Url) :
    FailoverState :=
  (FailoverState.start c).tried answers first

def FailoverState.twice (answers : Url → ProviderAnswer α) (c : RPCClient) (first second : Url) :
    FailoverState :=
  (FailoverState.once answers c first).tried answers second

theorem apartAt_once : ApartAt [first] c (FailoverState.once answers c first).client :=
  apartAt_afterTrying

theorem apartAt_twice :
    ApartAt [first, second] c (FailoverState.twice answers c first second).client :=
  apartAt_once.trans apartAt_afterTrying

theorem selectNextProvider_start (h : c.selectProviderForMethod method = some first) :
    (FailoverState.start c).client.selectNextProvider method
      (FailoverState.start c).triedProviders = .ok first := by
  change c.selectNextProvider method [] = .ok first
  rw [RPCClient.selectNextProvider, h]
  exact if_neg (by rw [List.contains_nil]; exact Bool.false_ne_true)

/-- The fallback is another provider. -/
theorem second_ne_first (hnamed : c.Named)
    (hsecond : c.selectFallbackProvider [first] = some second) : second ≠ first := by
  obtain ⟨-, -, hnot⟩ := RPCClient.eligible_of_selectFallbackProvider hnamed hsecond
  exact fun h => hnot (List.mem_singleton.mpr h)

variable (answers) in
/-- What the fallback gives does not depend on the first. -/
theorem outcomeOf_once (hnamed : c.Named)
    (hsecond : c.selectFallbackProvider [first] = some second) :
    (Admits answers (FailoverState.once answers c first).client second ↔ Admits answers c second) ∧
      outcomeOf answers (FailoverState.once answers c first).client second =
        outcomeOf answers c second :=
  outcomeOf_congr apartAt_once.config
    (apartAt_once.trackers second fun h =>
      second_ne_first hnamed hsecond (List.mem_singleton.mp h))

/-- The first attempt, where the first provider has no fallback. -/
theorem first_attempt_alone (hnamed : c.Named)
    (hfirst : c.selectProviderForMethod method = some first)
    (herror : outcomeOf answers c first = .error e)
    (hnone : c.selectFallbackProvider [first] = none) :
    attemptProviders answers method (.start c) = (.error e, FailoverState.once answers c first) := by
  refine attempt_alone (selectNextProvider_start hfirst) herror ?_
  exact (RPCClient.selectFallbackProvider_congr apartAt_once hnamed).trans hnone

/-- And where it has one. -/
theorem first_attempt_fallback (hnamed : c.Named)
    (hfirst : c.selectProviderForMethod method = some first)
    (herror : outcomeOf answers c first = .error e)
    (hsecond : c.selectFallbackProvider [first] = some second) :
    attemptProviders answers method (.start c) =
      (outcomeOf answers c second, FailoverState.twice answers c first second) := by
  rw [← (outcomeOf_once answers hnamed hsecond).2]
  refine attempt_fallback (selectNextProvider_start hfirst) herror ?_
  exact (RPCClient.selectFallbackProvider_congr apartAt_once hnamed).trans hsecond

/-- The second attempt tries the third provider, where the selector still
has a candidate: only one is left untried. -/
theorem selectNextProvider_third (hnamed : c.Named)
    (hfirst : c.selectProviderForMethod method = some first)
    (hsecond : c.selectFallbackProvider [first] = some second)
    (hthird : c.selectFallbackProvider [first, second] = some third)
    (hleft : (FailoverState.twice answers c first second).client.selectProviderForMethod method ≠
      none) :
    (FailoverState.twice answers c first second).client.selectNextProvider method
      (FailoverState.twice answers c first second).triedProviders = .ok third := by
  have hapart : ApartAt [first, second] c (FailoverState.twice answers c first second).client :=
    apartAt_twice
  obtain ⟨url, hurl⟩ := Option.ne_none_iff_exists'.mp hleft
  change RPCClient.selectNextProvider _ method [first, second] = .ok third
  rw [RPCClient.selectNextProvider, hurl]
  dsimp only
  split_ifs with htried
  · rw [RPCClient.selectFallbackProvider_congr hapart hnamed, hthird]
  · obtain ⟨hconsidered, -⟩ := RPCClient.eligible_of_selectProvider (hapart.named hnamed) hurl
    obtain ⟨hconf₁, -⟩ := RPCClient.eligible_of_selectProvider hnamed hfirst
    obtain ⟨hconf₂, -, -⟩ := RPCClient.eligible_of_selectFallbackProvider hnamed hsecond
    obtain ⟨hconf₃, -, hnot⟩ := RPCClient.eligible_of_selectFallbackProvider hnamed hthird
    have hconf : c.Configured url := by
      have hconf' := hconsidered.configured
      unfold RPCClient.Configured at hconf' ⊢
      rw [← hapart.config]
      exact hconf'
    refine congrArg Except.ok
      (RPCClient.eq_of_configured (c := c) (second_ne_first hnamed hsecond) hnot
        (fun h => htried (List.contains_iff_mem.mpr h)) fun u hu => ?_)
    simp only [List.mem_cons, List.not_mem_nil, or_false] at hu
    rcases hu with rfl | rfl | rfl | rfl
    · exact hconf₁.configured
    · exact hconf₂
    · exact hconf₃
    · exact hconf

/-- After three providers none is left. -/
theorem no_fourth (hnamed : c.Named) (hfirst : c.selectProviderForMethod method = some first)
    (hsecond : c.selectFallbackProvider [first] = some second)
    (hthird : c.selectFallbackProvider [first, second] = some third) {url : Url}
    (hurl : c.Configured url) : url ∈ [first, second, third] := by
  by_contra hnot
  obtain ⟨hconf₁, -⟩ := RPCClient.eligible_of_selectProvider hnamed hfirst
  obtain ⟨hconf₂, -, -⟩ := RPCClient.eligible_of_selectFallbackProvider hnamed hsecond
  obtain ⟨hconf₃, -, hnot₃⟩ := RPCClient.eligible_of_selectFallbackProvider hnamed hthird
  simp only [List.mem_cons, List.not_mem_nil, or_false, not_or] at hnot
  refine hnot.2.2 (RPCClient.eq_of_configured (c := c) (second_ne_first hnamed hsecond) hnot₃
    (by simp [hnot.1, hnot.2.1]) fun u hu => ?_)
  simp only [List.mem_cons, List.not_mem_nil, or_false] at hu
  rcases hu with rfl | rfl | rfl | rfl
  · exact hconf₁.configured
  · exact hconf₂
  · exact hconf₃
  · exact hurl

/-- Listed providers are among the fallbacks of a request that tried none. -/
theorem ListedFor.eligible (hnamed : c.Named) {url : Url} (h : ListedFor c method url) :
    c.Configured url ∧ c.Eligible false url := by
  obtain ⟨hconsidered, t, ht, hup, -⟩ := (RPCClient.listed_iff hnamed).mp h
  exact ⟨hconsidered.configured, t, ht, hup, fun hreq => absurd hreq Bool.false_ne_true⟩

/-- **A futile attempt after a retryable error** leaves a request short of what it owes. -/
theorem not_judged_futile {s : FailoverState} {listed : Url → Prop} {m : ℕ} (hm : 1 ≤ m)
    (hnamed : s.client.Named) (hagain : defaultShouldRetry e = true)
    (h : s.client.selectProviderForMethod method = none ∨
      s.client.selectFallbackProvider s.triedProviders = none) :
    ¬ Judged answers listed (m + 1) ((.error e, s) ::
      attempts (attemptProviders answers method) defaultShouldRetry m s) := by
  obtain ⟨e', hattempt, hstop⟩ :
      ∃ e', attemptProviders answers method s = (.error e', s) ∧ defaultShouldRetry e' = false :=
    attempt_futile hnamed h
  obtain ⟨k, rfl⟩ : ∃ k, m = k + 1 := Nat.exists_eq_succ_of_ne_zero (by omega)
  rw [attempts_of_stop hattempt hstop, judged_cons hagain hm]
  exact fun hjudged => hjudged.1 rfl

end Attempts

/-! ## When it is kept -/

section Main

variable {α : Type*} {answers : Url → ProviderAnswer α} {c : RPCClient} {method : RPCMethod}
variable {first second third : Url} {e e' : ThrownError} {n : ℕ}

/-- Without a fallback the first error is the last, or its retry is futile. -/
theorem judged_alone_iff (hnamed : c.Named) (hfirst : c.selectProviderForMethod method = some first)
    (herror : outcomeOf answers c first = .error e)
    (hnone : c.selectFallbackProvider [first] = none) :
    Judged answers (ListedFor c method) (n + 2)
        (attempts (attemptProviders answers method) defaultShouldRetry (n + 2) (.start c)) ↔
      defaultShouldRetry e = false := by
  have hattempt := first_attempt_alone hnamed hfirst herror hnone
  have hapart : ApartAt [first] c (FailoverState.once answers c first).client := apartAt_once
  cases hretry : defaultShouldRetry e with
  | false =>
    rw [attempts_of_stop hattempt hretry, judged_stop hretry (by omega)]
    refine iff_of_true (.inr fun url hlisted => ?_) rfl
    obtain ⟨hconfigured, heligible⟩ := hlisted.eligible hnamed
    exact (RPCClient.selectFallbackProvider_eq_none_iff hnamed).mp hnone url hconfigured heligible
  | true =>
    rw [attempts_of_again hattempt hretry]
    refine iff_of_false ?_ Bool.true_eq_false.mp
    refine not_judged_futile (Nat.succ_pos n) (hapart.named hnamed) hretry (.inr ?_)
    exact (RPCClient.selectFallbackProvider_congr hapart hnamed).trans hnone

/-- A fallback's error that allows no retry is its own, or its breaker's. -/
theorem judged_second_stop_iff (hnamed : c.Named)
    (hfirst : c.selectProviderForMethod method = some first)
    (herror : outcomeOf answers c first = .error e)
    (hsecond : c.selectFallbackProvider [first] = some second)
    (herror' : outcomeOf answers c second = .error e') (hstop : defaultShouldRetry e' = false) :
    Judged answers (ListedFor c method) (n + 2)
        (attempts (attemptProviders answers method) defaultShouldRetry (n + 2) (.start c)) ↔
      (¬ Admits answers c second →
        ∀ url, ListedFor c method url → url = first ∨ url = second) := by
  have hattempt : attemptProviders answers method (.start c) =
      (outcomeOf answers c second, FailoverState.twice answers c first second) :=
    first_attempt_fallback hnamed hfirst herror hsecond
  rw [herror'] at hattempt
  rw [attempts_of_stop hattempt hstop, judged_stop hstop (by omega)]
  have hadmits : Admits answers (FailoverState.once answers c first).client second ↔
      Admits answers c second := (outcomeOf_once answers hnamed hsecond).1
  have htried (url : Url) : url ∈ (FailoverState.twice answers c first second).triedProviders ↔
      url = first ∨ url = second := by
    change url ∈ [first, second] ↔ _
    simp
  simp only [htried]
  by_cases hadmitted : Admits answers c second
  · -- The fallback was called, and the error is its answer.
    refine iff_of_true (.inl ⟨second, rfl, ?_, ?_⟩) fun hrefused => absurd hadmitted hrefused
    · change (if Admits answers (FailoverState.once answers c first).client second then _ else _ :
        List Url).getLast? = _
      rw [if_pos (hadmits.mpr hadmitted), List.getLast?_concat]
    · exact (outcomeOf_of_admits hadmitted).symm.trans herror'
  · refine ⟨?_, fun h => .inr (h hadmitted)⟩
    rintro (⟨url, hlast, hcalled, -⟩ | hall)
    · exfalso
      obtain rfl : second = url := Option.some.inj hlast
      have hne := second_ne_first hnamed hsecond
      change (if Admits answers (FailoverState.once answers c first).client second then _ else
        (if Admits answers c first then [first] else [] : List Url) : List Url).getLast? = _ at hcalled
      rw [if_neg fun h => hadmitted (hadmits.mp h)] at hcalled
      split_ifs at hcalled
      · exact hne (Option.some.inj hcalled).symm
      · cases hcalled
    · exact fun _ => hall

/-- **The third provider's answer** is the last. -/
theorem judged_third_iff (hnamed : c.Named)
    (hfirst : c.selectProviderForMethod method = some first)
    (hsecond : c.selectFallbackProvider [first] = some second)
    (hthird : c.selectFallbackProvider [first, second] = some third)
    (hleft : (FailoverState.twice answers c first second).client.selectProviderForMethod method ≠
      none) (hagain : defaultShouldRetry e' = true) :
    Judged answers (ListedFor c method) (n + 2)
        ((.error e', FailoverState.twice answers c first second) ::
          attempts (attemptProviders answers method) defaultShouldRetry (n + 1)
            (FailoverState.twice answers c first second)) ↔
      (0 < n → ∀ e'', outcomeOf answers c third = .error e'' → defaultShouldRetry e'' = false) := by
  have hnext : (FailoverState.twice answers c first second).client.selectNextProvider method
      (FailoverState.twice answers c first second).triedProviders = .ok third :=
    selectNextProvider_third hnamed hfirst hsecond hthird hleft
  have hapart : ApartAt [first, second] c (FailoverState.twice answers c first second).client :=
    apartAt_twice
  obtain ⟨-, -, hnot⟩ := RPCClient.eligible_of_selectFallbackProvider hnamed hthird
  have hout : outcomeOf answers (FailoverState.twice answers c first second).client third =
      outcomeOf answers c third :=
    (outcomeOf_congr hapart.config (hapart.trackers third hnot)).2
  have hgrows : ((FailoverState.twice answers c first second).tried answers third).triedProviders ≠
      (FailoverState.twice answers c first second).triedProviders := by
    intro h
    have hlen := congrArg List.length h
    change [first, second, third].length = [first, second].length at hlen
    simp only [List.length_cons, List.length_nil] at hlen
    omega
  have hapart₃ : ApartAt [first, second, third] c
      ((FailoverState.twice answers c first second).tried answers third).client :=
    hapart.trans apartAt_afterTrying
  have hnone : ((FailoverState.twice answers c first second).tried answers
      third).client.selectFallbackProvider [first, second, third] = none := by
    rw [RPCClient.selectFallbackProvider_congr hapart₃ hnamed,
      RPCClient.selectFallbackProvider_eq_none_iff hnamed]
    exact fun url hurl _ => no_fourth hnamed hfirst hsecond hthird hurl
  cases hthirdOut : outcomeOf answers c third with
  | ok a =>
    rw [attempts_of_ok (attempt_ok hnext (hout.trans hthirdOut)), judged_cons hagain (by omega)]
    exact iff_of_true ⟨hgrows, judged_ok⟩ fun _ e'' h => nomatch h
  | error e'' =>
    have hattempt := attempt_alone hnext (hout.trans hthirdOut) hnone
    cases hretry : defaultShouldRetry e'' with
    | false =>
      rw [attempts_of_stop hattempt hretry, judged_cons hagain (by omega)]
      refine iff_of_true ⟨hgrows, ?_⟩ fun _ e₃ h => Except.error.inj h ▸ hretry
      cases n with
      | zero => exact judged_last _
      | succ n =>
        rw [judged_stop hretry (by omega)]
        exact .inr fun url hlisted =>
          no_fourth hnamed hfirst hsecond hthird (hlisted.eligible hnamed).1
    | true =>
      rw [attempts_of_again hattempt hretry, judged_cons hagain (by omega)]
      cases n with
      | zero => exact iff_of_true ⟨hgrows, judged_last _⟩ fun hpos => absurd hpos (lt_irrefl 0)
      | succ n =>
        refine iff_of_false (fun h => ?_) fun h => ?_
        · exact not_judged_futile (Nat.succ_pos n) (hapart₃.named hnamed) hretry (.inr hnone) h.2
        · exact Bool.true_eq_false.mp (hretry.symm.trans (h (Nat.succ_pos n) e'' rfl))

/-- **When failover tries what it can**: exactly when the request is settled
before its providers run out. -/
theorem triesWhatItCan_iff_settlesInTime (hnamed : c.Named) :
    TriesWhatItCan answers c method ↔ SettlesInTime answers c method := by
  rw [triesWhatItCan_iff]
  unfold attemptsOf SettlesInTime
  rcases hm : c.config.maxAttempts with - | - | n
  · exact iff_of_true judged_nil fun h => absurd h (by omega)
  · refine iff_of_true ?_ fun h => absurd h (by omega)
    rw [Nat.zero_add, attempts_one]
    exact judged_last _
  have hmany : 1 < n + 1 + 1 := by omega
  cases hfirst : c.selectProviderForMethod method with
  | none =>
    obtain ⟨e, hattempt, hstop⟩ : ∃ e, attemptProviders answers method (.start c) =
        (.error e, .start c) ∧ defaultShouldRetry e = false :=
      attempt_futile hnamed (.inl hfirst)
    rw [attempts_of_stop hattempt hstop, judged_stop hstop hmany]
    refine iff_of_true (.inr fun url hlisted => ?_) fun _ _ h => nomatch h
    obtain ⟨hconsidered, heligible⟩ := (RPCClient.listed_iff hnamed).mp hlisted
    exact absurd heligible ((RPCClient.selectProvider_eq_none_iff hnamed).mp hfirst url hconsidered)
  | some first =>
    simp only [Option.some.injEq, forall_eq', forall_const, hmany]
    cases herror : outcomeOf answers c first with
    | ok a =>
      rw [attempts_of_ok (attempt_ok (selectNextProvider_start hfirst) herror)]
      exact iff_of_true judged_ok fun _ h => nomatch h
    | error e =>
      simp only [Except.error.injEq, forall_eq']
      cases hsecond : c.selectFallbackProvider [first] with
      | none =>
        rw [judged_alone_iff hnamed hfirst herror hsecond]
        exact ⟨fun h => ⟨fun _ => h, fun _ h => nomatch h⟩, fun h => h.1 rfl⟩
      | some second =>
        simp only [reduceCtorEq, false_implies, true_and, Option.some.injEq, forall_eq']
        have hattempt : attemptProviders answers method (.start c) =
            (outcomeOf answers c second, FailoverState.twice answers c first second) :=
          first_attempt_fallback hnamed hfirst herror hsecond
        cases herror' : outcomeOf answers c second with
        | ok a =>
          rw [attempts_of_ok (hattempt.trans (by rw [herror']))]
          refine iff_of_true judged_ok ⟨fun hrefused => ?_, fun _ h => nomatch h⟩
          obtain ⟨e', he', -⟩ := outcomeOf_of_not_admits hrefused
          exact nomatch herror'.symm.trans he'
        | error e' =>
          simp only [Except.error.injEq, forall_eq']
          cases hretry : defaultShouldRetry e' with
          | false =>
            rw [judged_second_stop_iff hnamed hfirst herror hsecond herror' hretry]
            simp only [Bool.false_eq_true, false_implies, and_true]
          | true =>
            -- A breaker's refusal allows no retry, so the fallback was called.
            have hadmits : Admits answers c second := by
              by_contra hrefused
              obtain ⟨e₃, he₃, hstop⟩ := outcomeOf_of_not_admits hrefused
              obtain rfl := Except.error.inj (herror'.symm.trans he₃)
              exact Bool.true_eq_false.mp (hretry.symm.trans hstop)
            have hapart : ApartAt [first, second] c
                (FailoverState.twice answers c first second).client := apartAt_twice
            rw [attempts_of_again (hattempt.trans (by rw [herror'])) hretry]
            simp only [hadmits, not_true_eq_false, false_implies, true_and, forall_const]
            cases hthird : c.selectFallbackProvider [first, second] with
            | none =>
              refine iff_of_false ?_ fun ⟨_, h, _⟩ => nomatch h
              refine not_judged_futile (by omega) (hapart.named hnamed) hretry (.inr ?_)
              exact (RPCClient.selectFallbackProvider_congr hapart hnamed).trans hthird
            | some third =>
              simp only [Option.some.injEq, exists_eq_left']
              cases hleft : (FailoverState.twice answers c first
                second).client.selectProviderForMethod method with
              | none =>
                refine iff_of_false ?_ fun h => h.1 hleft
                exact not_judged_futile (by omega) (hapart.named hnamed) hretry (.inl hleft)
              | some url =>
                have hsome : (FailoverState.twice answers c first
                    second).client.selectProviderForMethod method ≠ none := by
                  rw [hleft]
                  exact Option.some_ne_none url
                rw [judged_third_iff hnamed hfirst hsecond hthird hsome hretry]
                constructor
                · exact fun h => ⟨hsome, fun hlt => h (by omega)⟩
                · exact fun h hpos => h.2 (by omega)

end Main

/-! ## One provider, and one that times out -/

section Samples

/-- A client of one provider. -/
def loneClient : RPCClient :=
  .create
    { chainId := 1
      primary := { url := RPCWorld.exampleUrl, role := .primary }
      secondary := none
      archive := none
      circuitBreaker := { failureThreshold := 5, resetTimeoutMs := 30000, halfOpenMaxRequests := 3 }
      maxAttempts := 3 }

theorem loneClient_named : loneClient.Named :=
  RPCClient.each_create (P := fun url t => t.health.providerUrl = url) _ fun _ _ => rfl

/-- Every call answers at once. -/
def answering (outcome : Except ThrownError ℕ) (_ : Url) : ProviderAnswer ℕ where
  entered := 0
  started := 0
  answered := 10
  outcome := outcome

/-- A request that is answered tries what it can. -/
theorem triesWhatItCan_answered : TriesWhatItCan (answering (.ok 7)) loneClient .blockNumber := by
  refine (triesWhatItCan_iff_settlesInTime loneClient_named).mpr fun _ first hfirst e herror => ?_
  have hadmits : Admits (answering (.ok 7)) loneClient loneClient.config.primary.url := by
    decide +kernel
  obtain rfl : loneClient.config.primary.url = first := by
    have hprimary : loneClient.selectProviderForMethod .blockNumber =
        some loneClient.config.primary.url := by
      decide +kernel
    exact Option.some.inj (hprimary.symm.trans hfirst)
  rw [outcomeOf_of_admits hadmits] at herror
  cases herror

/-- Of an attempt: whether its error allows another, and what was tried. -/
def toldOf : Except ThrownError ℕ × FailoverState → Option (Bool × List Url)
  | (.ok _, _) => none
  | (.error e, s) => some (defaultShouldRetry e, s.triedProviders)

theorem not_triesWhatItCan :
    ¬ ∀ (answers : Url → ProviderAnswer ℕ) (c : RPCClient) (method : RPCMethod), c.Named →
      TriesWhatItCan answers c method := by
  intro h
  have hclaim := h (answering (.error (.error "Request timeout"))) loneClient .blockNumber
    loneClient_named
  have hattempts : (attemptsOf (answering (.error (.error "Request timeout"))) loneClient
      .blockNumber).map toldOf =
        [some (true, [loneClient.config.primary.url]),
          some (false, [loneClient.config.primary.url])] := by
    decide +kernel
  have hget (k : ℕ) := congrArg (fun told => told[k]?) hattempts
  simp only [List.getElem?_map] at hget
  obtain ⟨⟨r, s⟩, hk, htold⟩ := Option.map_eq_some_iff.mp (hget 0)
  cases r with
  | ok a => cases htold
  | error e =>
    obtain ⟨hretry, htried⟩ := Prod.mk.inj (Option.some.inj htold)
    obtain ⟨r', s', hk', hne⟩ := hclaim.retries 0 e s hk hretry (by decide)
    obtain ⟨⟨r₁, s₁⟩, hk₁, htold₁⟩ := Option.map_eq_some_iff.mp (hget 1)
    obtain ⟨rfl, rfl⟩ := Prod.mk.inj (Option.some.inj (hk'.symm.trans hk₁))
    cases r' with
    | ok a => cases htold₁
    | error e' =>
      obtain ⟨-, htried₁⟩ := Prod.mk.inj (Option.some.inj htold₁)
      exact hne (htried₁.trans htried.symm)

end Samples

end HoodSentry
