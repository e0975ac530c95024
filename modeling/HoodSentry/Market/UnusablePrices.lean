import HoodSentry.Market.Authority
import HoodSentry.Market.Model.Selection
/-!
# Prices that are not usable

An observation the engine calls unavailable is left alone by the selection
and by candles, which read its status. The sweep of stale sources rewrites
that status, and the outlier job has a shorter list of the reasons that make
a price unavailable; so the observation stays unusable exactly in the runs
whose sweeps pass it by and whose outlier jobs find one of their reasons
(`unusable_throughout_iff`).
-/

namespace HoodSentry

section Watched

variable (watched : SourceKey × ObservationPoint)

/-- **The watched observation is unusable**: it is stored as unavailable, and
no step has used it. -/
structure Unusable (s : ObservationStore) : Prop where
  stored : ∃ r ∈ s.rows, r.observationKey = watched ∧ r.status = .unavailable
  unused : s.used = false

/-- **What a step must spare**: a sweep, an observation that it takes for
fresh; the outlier job, one without a reason of its list. -/
def Spares (s : ObservationStore) : ObservationStep → Prop
  | .markStaleSources observedBefore => ∀ r ∈ s.rows, r.observationKey = watched →
      ¬(r.observedAt ≤ observedBefore ∧ r.stale = false)
  | .detectOutliers input => input.observation ∈ s.rows →
      input.observation.observationKey = watched →
      ∃ reason ∈ input.observation.reasons, reason ∈ outlierFatalReasons
  | .selectPriceSource _ _ _ => True
  | .aggregateCandle _ _ _ => True

variable {watched}

/-- Its row is unavailable. -/
theorem Unusable.status_of_mem {s : ObservationStore} (h : Unusable watched s)
    {r : PriceObservationRow} (hr : r ∈ s.rows) (hkey : r.observationKey = watched) :
    r.status = .unavailable := by
  obtain ⟨r', hr', hkey', hstatus⟩ := h.stored
  rw [Table.eq_of_key_eq hr hr' (hkey.trans hkey'.symm)]
  exact hstatus

/-! ## The steps that read a status -/

/-- Where the watched observations fail a test, the test leaves the others'. -/
theorem filter_others {p : PriceObservationRow → Bool} {observations : List PriceObservationRow}
    (h : ∀ o ∈ observations, o.observationKey = watched → p o = false) :
    (others watched observations).filter p = observations.filter p := by
  rw [others, List.filter_filter]
  refine List.filter_congr fun o ho => ?_
  by_cases hkey : o.observationKey = watched
  · rw [h o ho hkey, Bool.false_and]
  · simp [hkey]

theorem selectPriceSource_others {configs : List PriceSource}
    {observations : List PriceObservationRow} {observedAt : ℕ}
    (h : ∀ o ∈ observations, o.observationKey = watched → o.status = .unavailable) :
    selectPriceSource configs (others watched observations) observedAt =
      selectPriceSource configs observations observedAt := by
  have hsorted : sortObservations configs (others watched observations) =
      sortObservations configs observations := by
    unfold sortObservations
    rw [filter_others]
    intro o ho hkey
    simp [PriceObservationRow.selectable, h o ho hkey]
  unfold selectPriceSource
  rw [hsorted]

theorem aggregateCandle_others {observations : List PriceObservationRow} {window : MarketWindow}
    {methodologyVersion : String}
    (h : ∀ o ∈ observations, o.observationKey = watched → o.status = .unavailable) :
    aggregateCandle (others watched observations) window methodologyVersion =
      aggregateCandle observations window methodologyVersion := by
  unfold aggregateCandle
  rw [filter_others]
  intro o ho hkey
  simp [PriceObservationRow.usable, h o ho hkey]

/-! ## The outlier job -/

theorem comparePrices_subset {left right : Option ℤ} {threshold : ℤ} {reason : PriceReason} :
    comparePrices left right threshold reason ⊆ [reason] := by
  unfold comparePrices
  split
  · split
    · exact List.Subset.refl _
    · exact List.nil_subset _
  · exact List.nil_subset _

/-- Nothing that the job finds is on its list. -/
theorem not_mem_outlierFatalReasons_of_found {input : OutlierInput} {reason : PriceReason}
    (h : reason ∈ input.found) : reason ∉ outlierFatalReasons := by
  simp only [OutlierInput.found, List.mem_append, List.mem_ite_nil_right, List.mem_singleton] at h
  rcases h with (((h | h) | h) | ⟨-, rfl⟩) | ⟨-, rfl⟩
  · rw [List.mem_singleton.mp (comparePrices_subset h)]
    decide
  · rw [List.mem_singleton.mp (comparePrices_subset h)]
    decide
  · rw [List.mem_singleton.mp (comparePrices_subset h)]
    decide
  · decide
  · decide

/-- **What the job reports as available**: an observation without a reason of
its list. -/
theorem detectOutliers_available_iff {input : OutlierInput} :
    (detectOutliers input).available = false ↔
      ∃ reason ∈ input.observation.reasons, reason ∈ outlierFatalReasons := by
  simp only [detectOutliers, Bool.not_eq_false', List.any_eq_true, decide_eq_true_eq,
    List.mem_eraseDups, List.mem_append]
  constructor
  · rintro ⟨reason, hreason | hreason, hfatal⟩
    · exact ⟨reason, hreason, hfatal⟩
    · exact absurd hfatal (not_mem_outlierFatalReasons_of_found hreason)
  · rintro ⟨reason, hreason, hfatal⟩
    exact ⟨reason, .inl hreason, hfatal⟩

theorem afterOutlierDetection_status_iff {input : OutlierInput} :
    (afterOutlierDetection input).status = .unavailable ↔
      (detectOutliers input).available = false := by
  dsimp only [afterOutlierDetection]
  cases (detectOutliers input).available with
  | false => simp
  | true =>
    cases (detectOutliers input).reasons.isEmpty <;> simp

/-! ## Every run -/

theorem mem_markStaleSources_of_spared {s : ObservationStore} {observedBefore : ℕ}
    {r : PriceObservationRow} (hr : r ∈ s.rows)
    (hspared : ¬(r.observedAt ≤ observedBefore ∧ r.stale = false)) :
    r ∈ s.rows.markStaleSources observedBefore :=
  Table.mem_updateWhere_of_not hr (by
    simpa only [Bool.and_eq_false_iff, Bool.not_eq_false', decide_eq_false_iff_not, not_and,
      Bool.not_eq_false, ← imp_iff_not_or] using hspared)

/-- **The sweep** leaves an unusable observation so if it takes it for
stale already, or has not come to it. -/
theorem unusable_markStaleSources_iff {s : ObservationStore} (h : Unusable watched s)
    (observedBefore : ℕ) :
    Unusable watched { s with rows := s.rows.markStaleSources observedBefore } ↔
      Spares watched s (.markStaleSources observedBefore) := by
  constructor
  · rintro hnext r hr hkey ⟨hobserved, hfresh⟩
    have hmem : { r with stale := true, authoritative := false, status := .lowConfidence } ∈
        s.rows.markStaleSources observedBefore :=
      Table.mem_updateWhere_of hr (by simp [hobserved, hfresh])
    cases hnext.status_of_mem hmem hkey
  · intro hspares
    obtain ⟨r, hr, hkey, hstatus⟩ := h.stored
    exact ⟨⟨r, mem_markStaleSources_of_spared hr (hspares r hr hkey), hkey, hstatus⟩, h.unused⟩

/-- **The outlier job** leaves it so if it knows one of its reasons. -/
theorem unusable_storeOutlier_iff {s : ObservationStore} (h : Unusable watched s)
    {input : OutlierInput} (hread : input.observation ∈ s.rows) :
    Unusable watched
      { rows := s.rows.storeOutlier input
        used := s.used || (input.observation.observationKey = watched &&
          (detectOutliers input).available) } ↔
      Spares watched s (.detectOutliers input) := by
  obtain ⟨r, hr, hkey, hstatus⟩ := h.stored
  by_cases hwatched : input.observation.observationKey = watched
  · have hspares : Spares watched s (.detectOutliers input) ↔
        (detectOutliers input).available = false := by
      rw [detectOutliers_available_iff]
      exact ⟨fun hspares => hspares hread hwatched, fun hfound _ _ => hfound⟩
    rw [hspares]
    constructor
    · intro hnext
      have hunused := hnext.unused
      simpa [h.unused, hwatched] using hunused
    · intro havailable
      obtain rfl : r = input.observation :=
        Table.eq_of_key_eq hr hread (hkey.trans hwatched.symm)
      refine ⟨⟨afterOutlierDetection input, ?_, hwatched,
        afterOutlierDetection_status_iff.mpr havailable⟩, ?_⟩
      · exact Table.mem_updateWhere_of hr (decide_eq_true rfl)
      · rw [h.unused, havailable, Bool.and_false, Bool.or_false]
  · refine iff_of_true ⟨⟨r, ?_, hkey, hstatus⟩, ?_⟩ fun _ hkey => absurd hkey hwatched
    · refine Table.mem_updateWhere_of_not hr (decide_eq_false ?_)
      exact fun heq => hwatched (heq.symm.trans hkey)
    · rw [h.unused, decide_eq_false hwatched, Bool.false_and, Bool.or_false]

/-- **One step** leaves the observation unusable exactly where it spares
it. -/
theorem unusable_step_iff {s s' : ObservationStore} {step : ObservationStep}
    (h : Unusable watched s) (hstep : (lifecycle watched).step s step = some s') :
    Unusable watched s' ↔ Spares watched s step := by
  cases step with
  | markStaleSources observedBefore =>
    cases hstep
    exact unusable_markStaleSources_iff h observedBefore
  | detectOutliers input =>
    simp only [lifecycle] at hstep
    split at hstep
    · rename_i hread
      cases hstep
      exact unusable_storeOutlier_iff h hread
    · cases hstep
  | selectPriceSource configs observations observedAt =>
    simp only [lifecycle] at hstep
    split at hstep
    · rename_i hread
      cases hstep
      have hsame : selectPriceSource configs (others watched observations) observedAt =
          selectPriceSource configs observations observedAt :=
        selectPriceSource_others fun o ho hkey => h.status_of_mem (hread o ho) hkey
      refine iff_of_true ⟨h.stored, ?_⟩ trivial
      rw [h.unused, hsame, Bool.false_or]
      exact decide_eq_false (not_not.mpr rfl)
    · cases hstep
  | aggregateCandle observations window methodologyVersion =>
    simp only [lifecycle] at hstep
    split at hstep
    · rename_i hread
      cases hstep
      have hsame : aggregateCandle (others watched observations) window methodologyVersion =
          aggregateCandle observations window methodologyVersion :=
        aggregateCandle_others fun o ho hkey => h.status_of_mem (hread o ho) hkey
      refine iff_of_true ⟨h.stored, ?_⟩ trivial
      rw [h.unused, hsame, Bool.false_or]
      exact decide_eq_false (not_not.mpr rfl)
    · cases hstep

theorem spares_of_refused {s : ObservationStore} {step : ObservationStep}
    (hstep : (lifecycle watched).step s step = none) : Spares watched s step := by
  cases step with
  | markStaleSources observedBefore => cases hstep
  | detectOutliers input =>
    simp only [lifecycle] at hstep
    split at hstep
    · cases hstep
    · rename_i hread
      exact fun hmem => absurd hmem hread
  | selectPriceSource => exact trivial
  | aggregateCandle => exact trivial

/-- **An unavailable observation stays unusable all along a run** exactly
where every step of it spares it. -/
theorem unusable_throughout_iff {config : PriceSource} {evidence : PriceEvidence}
    {previous : Option ℤ} {value : PriceObservation}
    (_ : evaluateObservation config evidence previous = some value)
    (hunavailable : value.status = .unavailable) {s : ObservationStore}
    (hstored : value.row ∈ s.rows) (hunused : s.used = false) (steps : List ObservationStep) :
    (lifecycle value.observationKey).Throughout (Unusable value.observationKey) s steps ↔
      (lifecycle value.observationKey).Meets (Spares value.observationKey) s steps :=
  Machine.throughout_iff_meets (I := fun _ => True) (fun _ _ _ _ => spares_of_refused)
    (fun _ _ _ _ h hstep => ⟨trivial, unusable_step_iff h hstep⟩) trivial
    ⟨⟨value.row, hstored, rfl, hunavailable⟩, hunused⟩

end Watched

/-! ## A price of a disabled source -/

def PriceSource.disabled : PriceSource := { PriceSource.sampleOracle with enabled := false }

/-- It is unavailable, of the tenth second, and not stale. -/
theorem exists_unavailable : ∃ value, evaluateObservation .disabled .ahead none = some value ∧
    value.status = .unavailable ∧ value.row.observedAt = 10000 ∧ value.row.stale = false := by
  have hunavailable : (evaluateObservation .disabled .ahead none).any
      (fun value => value.status = .unavailable ∧ value.row.observedAt = 10000 ∧
        value.row.stale = false) = true := by
    decide +kernel
  obtain ⟨value, hvalue, hstatus⟩ := (Option.any_eq_true _ _).mp hunavailable
  exact ⟨value, hvalue, of_decide_eq_true hstatus⟩

theorem unusable_throughout_disabled : ∃ (value : PriceObservation) (s : ObservationStore),
    value.row ∈ s.rows ∧
      (lifecycle value.observationKey).Throughout (Unusable value.observationKey) s
        [.markStaleSources 9999, .selectPriceSource [.disabled] [value.row] 20000] := by
  obtain ⟨value, hvalue, hstatus, hobserved, -⟩ := exists_unavailable
  let s : ObservationStore := ⟨Table.singleton value.row, false⟩
  have hmem : value.row ∈ s.rows := List.mem_singleton_self _
  refine ⟨value, s, hmem, (unusable_throughout_iff hvalue hstatus hmem rfl _).mpr
    ⟨fun r hr _ hswept => ?_, fun _ _ => ⟨trivial, fun _ _ => trivial⟩⟩⟩
  obtain rfl := List.mem_singleton.mp hr
  omega

theorem not_unusable_swept :
    ¬∀ (config : PriceSource) (evidence : PriceEvidence) (previous : Option ℤ)
      (value : PriceObservation), evaluateObservation config evidence previous = some value →
      value.status = .unavailable → ∀ (s : ObservationStore), value.row ∈ s.rows →
      s.used = false → ∀ steps : List ObservationStep,
      (lifecycle value.observationKey).Throughout (Unusable value.observationKey) s steps := by
  intro h
  obtain ⟨value, hvalue, hstatus, hobserved, hfresh⟩ := exists_unavailable
  let s : ObservationStore := ⟨Table.singleton value.row, false⟩
  have hmem : value.row ∈ s.rows := List.mem_singleton_self _
  have hswept := (h .disabled .ahead none value hvalue hstatus s hmem rfl
    [.markStaleSources 10000]).2 _ rfl
  have hspares := (unusable_markStaleSources_iff
    ⟨⟨value.row, hmem, rfl, hstatus⟩, rfl⟩ 10000).mp hswept
  exact hspares value.row hmem rfl ⟨hobserved.le, hfresh⟩

end HoodSentry
