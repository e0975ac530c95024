import HoodSentry.Worker.Model.AlertEvaluation
/-!
# An alert behind another's failure

A job delivers the alerts of its rules one after the other, and a
delivery that throws ends the job. So the alerts recorded and attempted
are those up to the first whose delivery throws, and all of them are
exactly when no delivery but the last one's throws. For a metric job the
alerts of all its windows count as one list.
-/

namespace HoodSentry

/-! ## The alerts of a job -/

/-- The alerts some rules raise, in the order of the rules. -/
def raisedBy (evaluate : AlertRule → Except ConditionError (Option AlertEventRow))
    (rules : List AlertRule) : List RaisedAlert :=
  rules.filterMap fun rule => (evaluate rule).toOption.join.map (RaisedAlert.mk rule)

namespace AlertFacts

variable (f : AlertFacts)

/-- The alerts of a chain event: those of the rules whose condition it
satisfies. An event that is no longer canonical has none. -/
def chainAlerts (job : AlertEvaluationJob) : List RaisedAlert :=
  match f.sourceBlock job with
  | none => []
  | some block => raisedBy (job.evaluate block.timestamp) (f.chainRules job.chainId job.targets)

/-- The alerts of the metrics of some windows, computed in turn. -/
def windowAlerts (e : MetricEvent) (source : MarketSource) (reads : MetricReads) :
    List MarketWindow → MarketTables → List RaisedAlert
  | [], _ => []
  | window :: windows, t =>
    match f.processWindow e reads t window with
    | none => []
    | some t' =>
      let metrics := f.metricsOf e reads t.metrics window
      raisedBy (metrics.evaluate (previousVolumeRaw e t.metrics window) source)
        (f.marketRules metrics.chainId metrics.tokenAddress) ++ windowAlerts e source reads windows t'

/-- The market alerts of a metric job, over all its windows. -/
def marketAlerts (t : MarketTables) (job : PoolMarketJob) : List RaisedAlert :=
  match f.loadVerifiedPoolPricingContext job with
  | .ok (some loaded) =>
    match f.readMetricContext loaded.metricEvent with
    | .ok reads => f.windowAlerts loaded.metricEvent loaded.marketSource reads WINDOWS t
    | .error _ => []
  | _ => []

end AlertFacts

/-- **Every alert got through**: its event is stored and its delivery was
attempted. -/
structure AllRaised (alerts : List RaisedAlert) (s : AlertState) : Prop where
  recorded : ∀ a ∈ alerts, a.event.key ∈ s.events.keys
  attempted : ∀ a ∈ alerts, a.event.key ∈ s.attempted

/-- **No alert is hidden**: of any two, the first one's delivery does not
throw. -/
def Unhidden (deliver : Option Deliver) (alerts : List RaisedAlert) : Prop :=
  match deliver with
  | none => alerts = []
  | some deliver => alerts.Pairwise fun a _ => deliver a.event.key a.rule = none

/-! ## One loop -/

section Loop

variable {deliver : Deliver} {s : AlertState} {a : RaisedAlert} {alerts : List RaisedAlert}

/-- An event is found once it is stored. -/
theorem find_insertNew_event (s : AlertState) (a : RaisedAlert) :
    ∃ event, (s.events.insertNew a.event).find a.event.key = some event ∧
      event.key = a.event.key := by
  have hkey : a.event.key ∈ (s.events.insertNew a.event).keys :=
    Table.mem_keys_insertNew.mpr (Or.inr rfl)
  obtain ⟨event, hevent, hk⟩ := Table.mem_keys.mp hkey
  exact ⟨event, Table.find_eq_some.mpr ⟨hevent, hk⟩, hk⟩

theorem raise_some :
    s.raise (some deliver) a =
      (⟨s.events.insertNew a.event, s.attempted ++ [a.event.key]⟩,
        deliver a.event.key a.rule) := by
  obtain ⟨event, hfind, hk⟩ := find_insertNew_event s a
  rw [AlertState.raise, hfind]
  simp only [hk]

theorem raise_none :
    s.raise none a =
      (⟨s.events.insertNew a.event, s.attempted⟩, some .deliveryServiceNotConfigured) := by
  obtain ⟨event, hfind, -⟩ := find_insertNew_event s a
  rw [AlertState.raise, hfind]

/-- **Rules in turn are their alerts in turn.** -/
theorem forEach_evaluateRule {deliver : Option Deliver}
    {evaluate : AlertRule → Except ConditionError (Option AlertEventRow)} {rules : List AlertRule} :
    forEach (AlertState.evaluateRule deliver evaluate) rules s =
      forEach (AlertState.raise deliver) (raisedBy evaluate rules) s := by
  induction rules generalizing s with
  | nil => rfl
  | cons rule rules ih =>
    -- a rule is skipped on either side, or its alert is next on both
    have hskipped : s.evaluateRule deliver evaluate rule = (s, none) →
        raisedBy evaluate (rule :: rules) = raisedBy evaluate rules →
        forEach (AlertState.evaluateRule deliver evaluate) (rule :: rules) s =
          forEach (AlertState.raise deliver) (raisedBy evaluate (rule :: rules)) s := by
      intro hbody hraised
      rw [forEach_cons_none hbody, hraised, ih]
    cases hrule : evaluate rule with
    | error err =>
      refine hskipped (by rw [AlertState.evaluateRule, hrule]) ?_
      rw [raisedBy, List.filterMap_cons_none (by rw [hrule]; rfl), raisedBy]
    | ok event =>
      cases event with
      | none =>
        refine hskipped (by rw [AlertState.evaluateRule, hrule]) ?_
        rw [raisedBy, List.filterMap_cons_none (by rw [hrule]; rfl), raisedBy]
      | some event =>
        have hbody : s.evaluateRule deliver evaluate rule = s.raise deliver ⟨rule, event⟩ := by
          rw [AlertState.evaluateRule, hrule]
        have hraised : raisedBy evaluate (rule :: rules) = ⟨rule, event⟩ :: raisedBy evaluate rules := by
          rw [raisedBy, List.filterMap_cons_some (by rw [hrule]; rfl), raisedBy]
        rw [hraised]
        rcases hraise : s.raise deliver ⟨rule, event⟩ with ⟨s', _ | err⟩
        · rw [forEach_cons_none (hbody.trans hraise), forEach_cons_none hraise, ih]
        · rw [forEach_cons_some (hbody.trans hraise), forEach_cons_some hraise]

/-- The alerts a loop attempts: those up to the first that throws. -/
def attemptedOf (deliver : Deliver) (alerts : List RaisedAlert) : List RaisedAlert :=
  upToFirst (fun a => (deliver a.event.key a.rule).isSome) alerts

/-- **What a loop leaves**: the deliveries it attempted, and the events of
these among those stored. -/
theorem forEach_raise_some (deliver : Deliver) (alerts : List RaisedAlert) (s : AlertState) :
    (forEach (AlertState.raise (some deliver)) alerts s).1.attempted =
        s.attempted ++ (attemptedOf deliver alerts).map (·.event.key) ∧
      ∀ k, k ∈ (forEach (AlertState.raise (some deliver)) alerts s).1.events.keys ↔
        k ∈ s.events.keys ∨ k ∈ (attemptedOf deliver alerts).map (·.event.key) := by
  induction alerts generalizing s with
  | nil => simp [attemptedOf, upToFirst]
  | cons a alerts ih =>
    cases hthrown : deliver a.event.key a.rule with
    | some err =>
      have hbody : s.raise (some deliver) a =
          (⟨s.events.insertNew a.event, s.attempted ++ [a.event.key]⟩, some err) := by
        rw [raise_some, hthrown]
      have hreached : attemptedOf deliver (a :: alerts) = [a] :=
        upToFirst_cons_of (by rw [hthrown]; rfl)
      rw [forEach_cons_some hbody, hreached]
      refine ⟨rfl, fun k => ?_⟩
      rw [Table.mem_keys_insertNew, List.map_singleton, List.mem_singleton]
    | none =>
      have hbody : s.raise (some deliver) a =
          (⟨s.events.insertNew a.event, s.attempted ++ [a.event.key]⟩, none) := by
        rw [raise_some, hthrown]
      have hreached : attemptedOf deliver (a :: alerts) = a :: attemptedOf deliver alerts :=
        upToFirst_cons_of_not (by rw [hthrown]; rfl)
      rw [forEach_cons_none hbody, hreached, List.map_cons]
      obtain ⟨hattempted, hevents⟩ := ih ⟨s.events.insertNew a.event, s.attempted ++ [a.event.key]⟩
      refine ⟨?_, fun k => ?_⟩
      · rw [hattempted, List.append_assoc, List.singleton_append]
      · rw [hevents, Table.mem_keys_insertNew, List.mem_cons, or_assoc]

/-- **A loop gets every alert through** exactly when none is hidden. -/
theorem allRaised_forEach_iff {deliver : Option Deliver} {events : Table AlertEventRow.key}
    (hnodup : (alerts.map (·.event.key)).Nodup) :
    AllRaised alerts (forEach (AlertState.raise deliver) alerts ⟨events, []⟩).1 ↔
      Unhidden deliver alerts := by
  cases deliver with
  | none =>
    constructor
    · intro h
      show alerts = []
      cases alerts with
      | nil => rfl
      | cons a alerts =>
        have hattempted := h.attempted a List.mem_cons_self
        rw [forEach_cons_some raise_none] at hattempted
        exact absurd hattempted List.not_mem_nil
    · intro h
      rw [show alerts = [] from h]
      exact ⟨by simp, by simp⟩
  | some deliver =>
    obtain ⟨hattempted, hevents⟩ := forEach_raise_some deliver alerts ⟨events, []⟩
    have hkeys : ∀ a ∈ alerts, a.event.key ∈ (attemptedOf deliver alerts).map (·.event.key) ↔
        a ∈ attemptedOf deliver alerts := by
      intro a ha
      refine ⟨fun hk => ?_, fun hr => List.mem_map_of_mem hr⟩
      obtain ⟨b, hb, hk⟩ := List.mem_map.mp hk
      rwa [← List.inj_on_of_nodup_map hnodup (upToFirst_subset hb) ha hk]
    have hiff : Unhidden (some deliver) alerts ↔ alerts ⊆ attemptedOf deliver alerts := by
      rw [attemptedOf, subset_upToFirst_iff hnodup.of_map]
      show alerts.Pairwise _ ↔ alerts.Pairwise _
      simp only [Option.isSome_eq_false_iff, Option.isNone_iff_eq_none]
    rw [hiff]
    constructor
    · intro h a ha
      have hin := h.attempted a ha
      rw [hattempted, List.nil_append] at hin
      exact (hkeys a ha).mp hin
    · intro h
      refine ⟨fun a ha => (hevents _).mpr (Or.inr ((hkeys a ha).mpr (h ha))), fun a ha => ?_⟩
      rw [hattempted, List.nil_append]
      exact (hkeys a ha).mpr (h ha)

end Loop

/-! ## Each rule raises one alert -/

section Keys

variable {evaluate : AlertRule → Except ConditionError (Option AlertEventRow)}
  {rules : List AlertRule} {a : RaisedAlert}

theorem mem_raisedBy : a ∈ raisedBy evaluate rules ↔
    a.rule ∈ rules ∧ evaluate a.rule = .ok (some a.event) := by
  rw [raisedBy, List.mem_filterMap]
  constructor
  · rintro ⟨rule, hrule, hraised⟩
    obtain ⟨event, hevent, rfl⟩ := Option.map_eq_some_iff.mp hraised
    refine ⟨hrule, ?_⟩
    cases h : evaluate rule with
    | error err =>
      rw [h] at hevent
      exact absurd hevent (by simp [Except.toOption])
    | ok event' =>
      rw [h] at hevent
      exact congrArg Except.ok hevent
  · rintro ⟨hrule, hevaluate⟩
    exact ⟨a.rule, hrule, by rw [hevaluate]; rfl⟩

/-- A rule that raises an event matched. -/
theorem exists_of_evaluated {δ : Type} {decided : Except ConditionError (Option δ)}
    {eventOf : δ → AlertEventRow} {event : AlertEventRow}
    (h : decided.map (·.map eventOf) = .ok (some event)) :
    ∃ decision, decided = .ok (some decision) ∧ eventOf decision = event := by
  cases decided with
  | error err => exact absurd h (by simp [Except.map])
  | ok decided =>
    obtain ⟨decision, rfl, hevent⟩ := Option.map_eq_some_iff.mp (Except.ok.inj h)
    exact ⟨decision, rfl, hevent⟩

/-- A rule raises at most one of them. -/
theorem pairwise_raisedBy (hrules : (rules.map (·.id)).Nodup) :
    (raisedBy evaluate rules).Pairwise fun a b => a.rule.id ≠ b.rule.id := by
  have hpairs : rules.Pairwise fun rule rule' => rule.id ≠ rule'.id :=
    List.pairwise_map.mp hrules
  refine hpairs.filterMap _ fun rule rule' hne a ha b hb => ?_
  obtain ⟨event, -, rfl⟩ := Option.map_eq_some_iff.mp ha
  obtain ⟨event', -, rfl⟩ := Option.map_eq_some_iff.mp hb
  exact hne

/-- So their keys, which name the rule, differ. -/
theorem nodup_keys {alerts : List RaisedAlert}
    (hnames : ∀ a ∈ alerts, a.event.key.alertRuleId = a.rule.id)
    (hpairs : alerts.Pairwise fun a b => a.rule.id ≠ b.rule.id) :
    (alerts.map (·.event.key)).Nodup := by
  refine List.pairwise_map.mpr (hpairs.imp_of_mem fun {a b} ha hb hne hk => hne ?_)
  rw [← hnames a ha, ← hnames b hb, hk]

end Keys

namespace AlertFacts

variable {f : AlertFacts}

/-! ## Chain events -/

theorem nodup_filter_rules (p : AlertRule → Bool) : ((f.rules.rows.filter p).map (·.id)).Nodup :=
  f.rules.unique.sublist (List.filter_sublist.map _)

theorem nodup_chainAlerts (job : AlertEvaluationJob) :
    ((f.chainAlerts job).map (·.event.key)).Nodup := by
  unfold chainAlerts
  split
  · exact List.nodup_nil
  · refine nodup_keys (fun a ha => ?_) (pairwise_raisedBy (nodup_filter_rules _))
    obtain ⟨-, hevaluate⟩ := mem_raisedBy.mp ha
    obtain ⟨decision, -, hevent⟩ := exists_of_evaluated hevaluate
    rw [← hevent]

/-- **A chain event's job is one loop over its alerts.** -/
theorem processAlertEvaluation_eq (deliver : Option Deliver) (events : Table AlertEventRow.key)
    (job : AlertEvaluationJob) :
    f.processAlertEvaluation deliver events job =
      forEach (AlertState.raise deliver) (f.chainAlerts job) ⟨events, []⟩ := by
  have hno_targets : job.targets = [] → f.chainRules job.chainId job.targets = [] := by
    intro htargets
    refine List.filter_eq_nil_iff.mpr fun r _ => ?_
    simp [htargets]
  unfold processAlertEvaluation chainAlerts
  cases f.sourceBlock job with
  | none =>
    dsimp only
    split <;> rfl
  | some block =>
    dsimp only
    split
    · rename_i htargets
      rw [hno_targets htargets]
      rfl
    · exact forEach_evaluateRule

end AlertFacts

/-! ## Market metrics -/

/-- The window a rule is about. -/
def AlertRule.windowSeconds (rule : AlertRule) : Option ℕ :=
  match rule.ruleType with
  | .priceChange => rule.condition.priceChange.map (·.windowSeconds)
  | .volumeSpike => rule.condition.volumeSpike.map (·.windowSeconds)
  | _ => none

/-- A rule matches in its window only. -/
theorem windowSeconds_of_matched {rule : AlertRule} {input : MarketAlertInput}
    {decision : MarketAlertDecision}
    (h : evaluateMarketAlertRule rule.input input = .ok (some decision)) :
    rule.windowSeconds = some input.windowSeconds := by
  have hparsed : ∀ {α : Type} {condition : Option α} {evaluate : α → Option MarketAlertDecision},
      (parsed condition).map evaluate = .ok (some decision) →
      ∃ c, condition = some c ∧ evaluate c = some decision := by
    intro α condition evaluate hmap
    cases condition with
    | none => exact absurd hmap (by simp [parsed, Except.map])
    | some c => exact ⟨c, rfl, Except.ok.inj hmap⟩
  unfold evaluateMarketAlertRule AlertRule.input at h
  dsimp only at h
  split at h
  · exact absurd h (by simp)
  · split at h
    · rename_i htype
      obtain ⟨c, hcondition, hmatched⟩ := hparsed h
      have hwindows : rule.windowSeconds = rule.condition.priceChange.map (·.windowSeconds) := by
        simp only [AlertRule.windowSeconds, htype]
      rw [hwindows, hcondition]
      unfold evaluatePriceChange at hmatched
      split at hmatched
      · exact absurd hmatched (by simp)
      · rename_i hwindow
        exact congrArg some (not_not.mp hwindow)
    · rename_i htype
      obtain ⟨c, hcondition, hmatched⟩ := hparsed h
      have hwindows : rule.windowSeconds = rule.condition.volumeSpike.map (·.windowSeconds) := by
        simp only [AlertRule.windowSeconds, htype]
      rw [hwindows, hcondition]
      unfold evaluateVolumeSpike at hmatched
      split at hmatched
      · exact absurd hmatched (by simp)
      · rename_i hwindow
        exact congrArg some (not_not.mp hwindow)
    · exact absurd h (by simp)

theorem MARKET_WINDOWS_injective : Function.Injective MARKET_WINDOWS := by
  intro window window' h
  cases window <;> cases window' <;> first | rfl | exact absurd h (by decide)

namespace AlertFacts

variable {f : AlertFacts} {e : MetricEvent} {source : MarketSource} {reads : MetricReads}

/-- An alert of the metrics of a window. -/
structure WindowAlert (f : AlertFacts) (window : MarketWindow) (a : RaisedAlert) : Prop where
  rule_mem : a.rule ∈ f.rules
  window_eq : a.rule.windowSeconds = some (MARKET_WINDOWS window)
  names : a.event.key.alertRuleId = a.rule.id

theorem windowAlert_of_mem {metrics : MarketMetrics} {previous : Option ℤ} {a : RaisedAlert}
    (h : a ∈ raisedBy (metrics.evaluate previous source)
      (f.marketRules metrics.chainId metrics.tokenAddress)) :
    f.WindowAlert metrics.window a := by
  obtain ⟨hrule, hevaluate⟩ := mem_raisedBy.mp h
  obtain ⟨decision, hmatched, hevent⟩ := exists_of_evaluated hevaluate
  exact ⟨List.mem_of_mem_filter hrule, windowSeconds_of_matched hmatched, by rw [← hevent]⟩

theorem windowAlerts_cons {window : MarketWindow} {windows : List MarketWindow} {t : MarketTables} :
    f.windowAlerts e source reads (window :: windows) t =
      match f.processWindow e reads t window with
      | none => []
      | some t' =>
        raisedBy ((f.metricsOf e reads t.metrics window).evaluate
            (previousVolumeRaw e t.metrics window) source)
          (f.marketRules e.chainId e.tokenAddress) ++ f.windowAlerts e source reads windows t' :=
  rfl

theorem exists_window_of_mem {windows : List MarketWindow} {t : MarketTables} {a : RaisedAlert}
    (h : a ∈ f.windowAlerts e source reads windows t) :
    ∃ window ∈ windows, f.WindowAlert window a := by
  induction windows generalizing t with
  | nil => exact absurd h List.not_mem_nil
  | cons window windows ih =>
    rw [windowAlerts_cons] at h
    split at h
    · exact absurd h List.not_mem_nil
    · rcases List.mem_append.mp h with h | h
      · exact ⟨window, List.mem_cons_self, windowAlert_of_mem h⟩
      · obtain ⟨window', hmem, hin⟩ := ih h
        exact ⟨window', List.mem_cons_of_mem window hmem, hin⟩

/-- **A rule raises at most one alert in a whole job.** -/
theorem pairwise_windowAlerts {windows : List MarketWindow} (hwindows : windows.Nodup)
    {t : MarketTables} :
    (f.windowAlerts e source reads windows t).Pairwise fun a b => a.rule.id ≠ b.rule.id := by
  induction windows generalizing t with
  | nil => exact List.Pairwise.nil
  | cons window windows ih =>
    obtain ⟨hnotMem, hnodup⟩ := List.nodup_cons.mp hwindows
    rw [windowAlerts_cons]
    split
    · exact List.Pairwise.nil
    · refine List.pairwise_append.mpr
        ⟨pairwise_raisedBy (nodup_filter_rules _), ih hnodup, fun a ha b hb hid => ?_⟩
      have hfirst := windowAlert_of_mem ha
      obtain ⟨window', hmem, hlater⟩ := exists_window_of_mem hb
      have hrule : a.rule = b.rule := f.rules.eq_of_key_eq hfirst.rule_mem hlater.rule_mem hid
      have hseconds : MARKET_WINDOWS window = MARKET_WINDOWS window' := by
        have hsame := hfirst.window_eq.symm.trans ((congrArg _ hrule).trans hlater.window_eq)
        exact Option.some.inj hsame
      exact hnotMem (MARKET_WINDOWS_injective hseconds ▸ hmem)

theorem nodup_marketAlerts (t : MarketTables) (job : PoolMarketJob) :
    ((f.marketAlerts t job).map (·.event.key)).Nodup := by
  unfold marketAlerts
  split
  · split
    · refine nodup_keys (fun a ha => ?_) (pairwise_windowAlerts (by decide))
      obtain ⟨window, -, hwindow⟩ := exists_window_of_mem ha
      exact hwindow.names
    · exact List.nodup_nil
  · exact List.nodup_nil

/-- **The windows' alerts are one loop**, with the tables stored on the
way. -/
theorem forEach_alertWindow {deliver : Option Deliver} {windows : List MarketWindow}
    {t : MarketTables} {s : AlertState} :
    (forEach (f.alertWindow deliver e source reads) windows (t, s)).1.2 =
      (forEach (AlertState.raise deliver) (f.windowAlerts e source reads windows t) s).1 := by
  induction windows generalizing t s with
  | nil => rfl
  | cons window windows ih =>
    rw [windowAlerts_cons]
    cases hwindow : f.processWindow e reads t window with
    | none =>
      have hbody : f.alertWindow deliver e source reads (t, s) window =
          ((t, s), some (.metric .mixedPriceDecimals)) := by
        rw [alertWindow, hwindow]
      rw [forEach_cons_some hbody]
      rfl
    | some t' =>
      dsimp only
      rw [forEach_append, ← forEach_evaluateRule]
      rcases halerts : forEach (AlertState.evaluateRule deliver
          ((f.metricsOf e reads t.metrics window).evaluate (previousVolumeRaw e t.metrics window)
            source)) (f.marketRules e.chainId e.tokenAddress) s with ⟨s', thrown⟩
      have hbody : f.alertWindow deliver e source reads (t, s) window = ((t', s'), thrown) := by
        rw [alertWindow, hwindow]
        show ((t', _), _) = _
        rw [show f.deliverMarketAlerts deliver _ _ source s = (s', thrown) from halerts]
      cases thrown with
      | some err => rw [forEach_cons_some hbody]
      | none => rw [forEach_cons_none hbody, ih]

/-- **So a metric job is one loop over its alerts.** -/
theorem processMarketMetricAlerts_eq (deliver : Option Deliver) (t : MarketTables)
    (events : Table AlertEventRow.key) (job : PoolMarketJob) :
    (f.processMarketMetricAlerts deliver t events job).1.2 =
      (forEach (AlertState.raise deliver) (f.marketAlerts t job) ⟨events, []⟩).1 := by
  unfold processMarketMetricAlerts marketAlerts
  cases f.loadVerifiedPoolPricingContext job with
  | error err => rfl
  | ok loaded =>
    cases loaded with
    | none => rfl
    | some loaded =>
      dsimp only
      cases f.readMetricContext loaded.metricEvent with
      | error err => rfl
      | ok reads => exact forEach_alertWindow

end AlertFacts

/-! ## No alert behind another's failure -/

/-- **Every alert of a job gets through exactly when none is hidden**, for
chain events and for market metrics over all their windows. -/
theorem allRaised_iff_unhidden (f : AlertFacts) (deliver : Option Deliver)
    (events : Table AlertEventRow.key) :
    (∀ job : AlertEvaluationJob,
      AllRaised (f.chainAlerts job) (f.processAlertEvaluation deliver events job).1 ↔
        Unhidden deliver (f.chainAlerts job)) ∧
    ∀ (t : MarketTables) (job : PoolMarketJob),
      AllRaised (f.marketAlerts t job) (f.processMarketMetricAlerts deliver t events job).1.2 ↔
        Unhidden deliver (f.marketAlerts t job) := by
  constructor
  · intro job
    rw [AlertFacts.processAlertEvaluation_eq]
    exact allRaised_forEach_iff (AlertFacts.nodup_chainAlerts job)
  · intro t job
    rw [AlertFacts.processMarketMetricAlerts_eq]
    exact allRaised_forEach_iff (AlertFacts.nodup_marketAlerts t job)

/-! ## Deliveries as the service makes them -/

/-- **What the service throws**, its awaits answered in turn: nothing when
that leads to its return. -/
def DeliveryServices.deliver (services : DeliveryServices) (t : DeliveryTables)
    (eventId : AlertEventKey → ℕ) (answers : AlertEventKey → AlertRule → List DeliveryCall) :
    Deliver := fun key rule =>
  let P := services.procedure
  match P.solo t (P.start ⟨eventId key, rule.delivery⟩) (answers key rule) with
  | some (_, .returned _) => none
  | _ => some (.delivery "ALERT_DELIVERY_FAILED")

/-- Channels that do not parse make every delivery of a rule throw. -/
theorem deliver_ne_none_of_channels {services : DeliveryServices} {t : DeliveryTables}
    {eventId : AlertEventKey → ℕ} {answers : AlertEventKey → AlertRule → List DeliveryCall}
    {key : AlertEventKey} {rule : AlertRule} (h : rule.channels = none) :
    services.deliver t eventId answers key rule ≠ none := by
  have hthrows : ∀ call, services.procedure.call t
        (services.procedure.start ⟨eventId key, rule.delivery⟩) call = none ∨
      services.procedure.call t
        (services.procedure.start ⟨eventId key, rule.delivery⟩) call = some (t, .threw) := by
    intro call
    cases call with
    | selectChannels =>
      refine Or.inr ?_
      simp only [DeliveryServices.procedure, DeliveryServices.call, AlertRule.delivery, h]
    | _ => exact Or.inl rfl
  unfold DeliveryServices.deliver
  dsimp only
  cases hanswers : answers key rule with
  | nil => simp [Procedure.solo]
  | cons call calls =>
    rw [Procedure.solo]
    rcases hthrows call with hcall | hcall
    · simp [hcall]
    · rw [hcall]
      cases calls <;> simp

/-- **A rule with such channels hides every alert after its own.** -/
theorem not_unhidden_of_channels {services : DeliveryServices} {t : DeliveryTables}
    {eventId : AlertEventKey → ℕ} {answers : AlertEventKey → AlertRule → List DeliveryCall}
    {before after : List RaisedAlert} {a b : RaisedAlert} (h : a.rule.channels = none) :
    ¬Unhidden (some (services.deliver t eventId answers)) (before ++ a :: b :: after) := by
  intro hunhidden
  have hpairs := (List.pairwise_append.mp hunhidden).2.1
  exact deliver_ne_none_of_channels h ((List.pairwise_cons.mp hpairs).1 b List.mem_cons_self)

/-! ## Two rules on one token -/

/-- A rule on large transfers of a token. -/
def transferRule (id : ℕ) (channels : Option (List RequestedChannel)) : AlertRule where
  id := id
  userId := id
  chainId := 1
  targetAddress := ⟨10⟩
  ruleType := .largeTransfer
  condition := ⟨some ⟨none, some 100, none, none, none⟩, none, none⟩
  channels := channels
  enabled := true
  deleted := false

/-- A canonical block, and the rules of two users: the first asks for an
email. -/
def twoRules : AlertFacts where
  pools := ∅
  dexProtocols := ∅
  poolStateSnapshots := ∅
  swaps := ∅
  blocks := Table.singleton ⟨1, 7, ⟨70⟩, ⟨60⟩, 1000, .finalized, true⟩
  tokens := ∅
  observations := ∅
  totalSupplyRaw _ _ := none
  rules := ⟨[transferRule 1 (some [.channel .email]), transferRule 2 (some [.inApp])], by decide⟩

/-- A transfer of the token that both rules ask for. -/
def largeTransfer : AlertEvaluationJob where
  chainId := 1
  blockNumber := 7
  blockHash := ⟨70⟩
  data :=
    { eventType := "tokenTransfer"
      transactionHash := ⟨71⟩
      logIndex := 0
      tokenAddress := some ⟨10⟩
      token0Address := none
      token1Address := none
      poolAddress := none
      fromAddress := some ⟨20⟩
      toAddress := some ⟨21⟩
      ownerAddress := none
      spenderAddress := none
      valueRaw := some 500
      protocolKey := none
      protocolVersion := none }

/-- Every provider, and the first user's verified email channel. -/
def emailService : DeliveryServices := ⟨[⟨1, 1, .email, true⟩], [], true, true, true, true⟩

/-- The provider of emails is down. -/
def emailDown : Deliver :=
  emailService.deliver DeliveryServices.noDeliveries (·.alertRuleId) fun _ rule =>
    if rule.id = 1 then
      [.selectChannels, .insertPending 0, .claim 0 0, .startSend, .send (some "PROVIDER_HTTP_ERROR"),
        .storeFailed 0]
    else [.selectChannels]

/-- **The second user is never told.** The first delivery throws, and the
second rule's event is not even stored. -/
theorem second_alert_hidden :
    emailDown ⟨2, 1, ⟨70⟩, ⟨71⟩, 0⟩ (transferRule 2 (some [.inApp])) = none ∧
      ¬AllRaised (twoRules.chainAlerts largeTransfer)
        (twoRules.processAlertEvaluation (some emailDown) ∅ largeTransfer).1 := by
  constructor
  · decide +kernel
  · intro h
    have hraised : (⟨2, 1, ⟨70⟩, ⟨71⟩, 0⟩ : AlertEventKey) ∈
        (twoRules.chainAlerts largeTransfer).map (·.event.key) := by decide +kernel
    obtain ⟨a, ha, hkey⟩ := List.mem_map.mp hraised
    have hrecorded := h.recorded a ha
    rw [hkey] at hrecorded
    exact absurd hrecorded (by decide +kernel)

end HoodSentry
