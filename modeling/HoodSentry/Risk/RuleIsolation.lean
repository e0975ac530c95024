import HoodSentry.Risk.Model.Orchestrator
/-!
# Rules are isolated, and completeness is honest

A scan's findings are those of its sorted rules, each made of its own turn
(`findings_scan_eq`); a rule that fails has an unknown finding
(`unknown_of_failed`); and a scan is complete in basis points exactly where
it has rules and none is unknown (`basisPoints_eq_iff`). The results of the
module are assembled from these.
-/

namespace HoodSentry

/-! ## The order of rules -/

/-- Where a rule, or its finding, comes: by category, id and version. -/
def ruleRank (category : RiskCategory) (ruleId version : String) : ℕ ×ₗ List ℕ ×ₗ List ℕ :=
  toLex (categoryOrder category, toLex (utf16 ruleId, utf16 version))

def RiskRule.rank (rule : RiskRule) : ℕ ×ₗ List ℕ ×ₗ List ℕ :=
  ruleRank rule.category rule.ruleId rule.version

def RiskFinding.rank (finding : RiskFinding) : ℕ ×ₗ List ℕ ×ₗ List ℕ :=
  ruleRank finding.category finding.ruleId finding.ruleVersion

theorem compareText_cases (left right : String) :
    (compareText left right = -1 ∧ utf16 left < utf16 right) ∨
    (compareText left right = 0 ∧ utf16 left = utf16 right) ∨
    (compareText left right = 1 ∧ utf16 right < utf16 left) := by
  unfold compareText textLt
  rcases lt_trichotomy (utf16 left) (utf16 right) with h | h | h
  · exact .inl ⟨by rw [if_pos (decide_eq_true h)], h⟩
  · refine .inr (.inl ⟨?_, h⟩)
    rw [if_neg (by rw [h]; simp), if_neg (by rw [h]; simp)]
  · refine .inr (.inr ⟨?_, h⟩)
    rw [if_neg (by rw [decide_eq_true_eq]; exact not_lt.mpr h.le), if_pos (decide_eq_true h)]

/-- **The comparator compares ranks.** -/
theorem compareRiskRules_le_iff (left right : RiskRule) :
    compareRiskRules left right ≤ 0 ↔ left.rank ≤ right.rank := by
  unfold compareRiskRules RiskRule.rank ruleRank
  rw [Prod.Lex.toLex_le_toLex, Prod.Lex.toLex_le_toLex]
  dsimp only
  have hid := compareText_cases left.ruleId right.ruleId
  have hversion := compareText_cases left.version right.version
  split
  · rename_i hcategory
    constructor
    · intro h
      exact .inl (by omega)
    · rintro (h | ⟨h, -⟩)
      · omega
      · omega
  · rename_i hcategory
    have hsame : categoryOrder left.category = categoryOrder right.category := by omega
    have hirrefl : ¬ categoryOrder left.category < categoryOrder right.category := by omega
    simp only [hsame, lt_irrefl, false_or, true_and]
    rcases hid with ⟨hc, hlt⟩ | ⟨hc, heq⟩ | ⟨hc, hgt⟩
    · simp [hc, hlt]
    · rcases hversion with ⟨hv, hlt⟩ | ⟨hv, heq'⟩ | ⟨hv, hgt⟩
      · simp [hc, hv, heq, hlt.le]
      · simp [hc, hv, heq, heq']
      · simp [hc, hv, heq, not_le.mpr hgt]
    · simp [hc, hgt.not_gt, hgt.ne']

theorem sortRules_eq (rules : List RiskRule) :
    sortRules rules = rules.mergeSort fun left right => decide (left.rank ≤ right.rank) := by
  simp only [sortRules, compareRiskRules_le_iff]

theorem pairwise_sortRules (rules : List RiskRule) :
    (sortRules rules).Pairwise fun left right => left.rank ≤ right.rank := by
  rw [sortRules_eq]
  have h := @List.pairwise_mergeSort _ (fun left right : RiskRule => decide (left.rank ≤ right.rank))
    (fun a b c hab hbc => decide_eq_true
      ((of_decide_eq_true hab).trans (of_decide_eq_true hbc)))
    (fun a b => by simpa using le_total a.rank b.rank) rules
  exact h.imp fun hle => of_decide_eq_true hle

/-- Rules of one rank have one key. -/
theorem key_of_rank {left right : RiskRule} (h : left.rank = right.rank) : left.key = right.key := by
  unfold RiskRule.rank ruleRank at h
  have hpair := congrArg (fun x => (ofLex (ofLex x).2)) h
  have hid : utf16 left.ruleId = utf16 right.ruleId := congrArg Prod.fst hpair
  have hversion : utf16 left.version = utf16 right.version := congrArg Prod.snd hpair
  rw [RiskRule.key, RiskRule.key, utf16_injective hid, utf16_injective hversion]

/-- Rules of distinct keys are sorted strictly. -/
theorem pairwise_lt_sortRules {rules : List RiskRule}
    (h : ((sortRules rules).map RiskRule.key).Nodup) :
    (sortRules rules).Pairwise fun left right => left.rank < right.rank := by
  have hne : (sortRules rules).Pairwise fun left right => left.key ≠ right.key :=
    List.pairwise_map.mp h
  refine ((pairwise_sortRules rules).and hne).imp fun h => ?_
  exact lt_of_le_of_ne h.1 fun heq => h.2 (key_of_rank heq)

/-- **The order a ruleset lists its rules in does not matter.** -/
theorem sortRules_perm {rules rules' : List RiskRule} (hperm : rules.Perm rules')
    (h : ((sortRules rules).map RiskRule.key).Nodup) : sortRules rules = sortRules rules' := by
  have hsorted : (sortRules rules).Perm (sortRules rules') :=
    (List.mergeSort_perm _ _).trans (hperm.trans (List.mergeSort_perm _ _).symm)
  have h' : ((sortRules rules').map RiskRule.key).Nodup := (hsorted.map _).nodup_iff.mp h
  exact hsorted.eq_of_pairwise (fun a b _ _ hab hba => absurd hab hba.asymm)
    (pairwise_lt_sortRules h) (pairwise_lt_sortRules h')

/-! ## What a scan finds -/

/-- Every failure of a rule is an unknown result. -/
theorem unknown_of_failed {issues : Returned → String} {sources : List RiskDataSource}
    {rule : RiskRule} {run : RuleRun}
    (h : (executeRule issues sources rule run).failureCode ≠ none) :
    (executeRule issues sources rule run).evaluation.status = .unknown := by
  have haborted : ∀ external, (abortedEvaluation rule external).evaluation.status = .unknown := by
    intro external
    unfold abortedEvaluation
    split <;> rfl
  unfold executeRule at h ⊢
  split
  · exact haborted _
  · rename_i hbefore
    rw [if_neg hbefore] at h
    split
    · rfl
    · rename_i havailable
      rw [if_neg havailable] at h
      dsimp only at h ⊢
      split
      · exact haborted _
      · rename_i hcancelled
        rw [if_neg hcancelled] at h
        unfold evaluateWithTimeout at h ⊢
        dsimp only at h ⊢
        split
        · rename_i hok
          rw [hok] at h
          exact absurd rfl h
        · split
          · rfl
          · split <;> rfl

variable {context : RiskScanContext} {resolved : ResolvedRuleset} {engineVersion : String}
variable {suppressions : List RiskSuppression} {execute : RiskRule → RuleExecution}
variable {cancelled : Bool} {result : RiskScanResult}

/-- **Everything a scan answers**, from its rules' executions. -/
theorem RiskScanContext.scan_eq
    (h : context.scan resolved engineVersion suppressions execute cancelled = some result) :
    (result.findings = resolved.rules.map fun rule =>
      materializeFinding context context.dataSources suppressions rule (execute rule).evaluation) ∧
    result.completeness =
      completeness result.findings (resolved.rules.map fun rule => (execute rule).failureCode) ∧
    result.failureCodes = sortedSet
      ((resolved.rules.map fun rule => (execute rule).failureCode).reduceOption.map (·.text)) ∧
    result.status = if cancelled then .cancelled
      else if result.failureCodes ≠ [] ∨ result.completeness.basisPoints < 10000 then .incomplete
      else .completed := by
  unfold scan at h
  split at h
  · cases h
  · obtain ⟨sources, hsources, h⟩ := Option.bind_eq_some_iff.mp h
    obtain ⟨score, -, h⟩ := Option.bind_eq_some_iff.mp h
    obtain rfl := Option.some.inj h
    unfold sourceMap at hsources
    split at hsources
    · cases Option.some.inj hsources
      exact ⟨rfl, rfl, rfl, rfl⟩
    · cases hsources

theorem sortedSet_eq_nil_iff {values : List String} : sortedSet values = [] ↔ values = [] := by
  constructor
  · intro h
    refine List.eq_nil_iff_forall_not_mem.mpr fun value hvalue => ?_
    have hmem : value ∈ sortedSet values :=
      (List.mem_insertionSort _).mpr (List.mem_eraseDups.mpr hvalue)
    rw [h] at hmem
    cases hmem
  · rintro rfl
    rfl

theorem reduceOption_eq_nil_iff {α : Type} {values : List (Option α)} :
    values.reduceOption = [] ↔ ∀ value ∈ values, value = none := by
  rw [List.reduceOption, List.filterMap_eq_nil_iff]
  rfl

/-- **Complete in basis points**: there are rules, and none is unknown. -/
theorem basisPoints_eq_iff (findings : List RiskFinding) (codes : List (Option RuleFailureCode)) :
    (completeness findings codes).basisPoints = 10000 ↔
      findings ≠ [] ∧ ∀ finding ∈ findings, finding.status ≠ .unknown := by
  have hle : findings.countP (fun finding => finding.status = .unknown) ≤ findings.length :=
    List.countP_le_length
  have hzero : findings.countP (fun finding => finding.status = .unknown) = 0 ↔
      ∀ finding ∈ findings, finding.status ≠ .unknown := by
    simp [List.countP_eq_zero]
  have hnil : findings.length = 0 ↔ findings = [] := List.length_eq_zero_iff
  rw [← hzero, ne_eq, ← hnil]
  unfold completeness
  dsimp only
  generalize findings.countP (fun finding => finding.status = .unknown) = unknown at hle ⊢
  generalize findings.length = total at hle ⊢
  split
  · rename_i htotal
    simp [htotal]
  · rename_i htotal
    constructor
    · intro h
      refine ⟨htotal, ?_⟩
      have hmul := Nat.div_mul_le_self ((total - unknown) * 10000) total
      rw [h] at hmul
      omega
    · rintro ⟨-, rfl⟩
      rw [Nat.sub_zero]
      exact Nat.mul_div_cancel_left 10000 (by omega)

theorem basisPoints_le (findings : List RiskFinding) (codes : List (Option RuleFailureCode)) :
    (completeness findings codes).basisPoints ≤ 10000 := by
  unfold completeness
  dsimp only
  split
  · omega
  · rename_i htotal
    refine Nat.div_le_of_le_mul ?_
    exact Nat.mul_le_mul_right _ (Nat.sub_le _ _)

/-! ## The result -/

/-- **An honest result**: one finding for each rule, in their order, and a
status and counts that say what is missing. -/
structure Honest (rules : List RiskRule) (execute : RiskRule → RuleExecution)
    (result : RiskScanResult) : Prop where
  each : (result.findings.map fun f => (f.category, f.ruleId, f.ruleVersion)).Perm
    (rules.map fun rule => (rule.category, rule.ruleId, rule.version))
  sorted : result.findings.Pairwise fun f g => f.rank < g.rank
  completed : result.status = .completed ↔
    (∀ rule ∈ rules, (execute rule).failureCode = none) ∧
      ∀ f ∈ result.findings, f.status ≠ .unknown
  complete : ((∀ rule ∈ rules, (execute rule).failureCode = none) ∧
      ∀ f ∈ result.findings, f.status ≠ .unknown) ↔
    result.completeness.basisPoints = 10000 ∧ 0 < result.completeness.totalRules
  counted : result.completeness.evaluatedRules + result.completeness.unknownRules =
    result.completeness.totalRules

/-- A finding without an unknown status is of a rule that did not fail. -/
theorem failed_of_known (h : context.scan resolved engineVersion suppressions execute false =
      some result)
    (hunknown : ∀ rule, (execute rule).failureCode ≠ none →
      (execute rule).evaluation.status = .unknown)
    (hknown : ∀ f ∈ result.findings, f.status ≠ .unknown) :
    ∀ rule ∈ resolved.rules, (execute rule).failureCode = none := by
  intro rule hrule
  by_contra hfailed
  have hfindings := (RiskScanContext.scan_eq h).1
  refine hknown (materializeFinding context context.dataSources suppressions rule
    (execute rule).evaluation) ?_ (hunknown rule hfailed)
  rw [hfindings]
  exact List.mem_map_of_mem hrule

theorem failureCodes_eq_nil_iff
    (h : context.scan resolved engineVersion suppressions execute cancelled = some result) :
    result.failureCodes = [] ↔ ∀ rule ∈ resolved.rules, (execute rule).failureCode = none := by
  rw [(RiskScanContext.scan_eq h).2.2.1, sortedSet_eq_nil_iff, List.map_eq_nil_iff,
    reduceOption_eq_nil_iff, List.forall_mem_map]

/-- A scan of some rules, whose failures are unknown results, is honest. -/
theorem honest_scan {rules : List RiskRule} (hperm : rules.Perm resolved.rules)
    (hne : rules ≠ [])
    (hsorted : resolved.rules.Pairwise fun left right => left.rank < right.rank)
    (h : context.scan resolved engineVersion suppressions execute false = some result)
    (hunknown : ∀ rule, (execute rule).failureCode ≠ none →
      (execute rule).evaluation.status = .unknown) : Honest rules execute result := by
  obtain ⟨hfindings, hcompleteness, -, hstatus⟩ := RiskScanContext.scan_eq h
  have hnone : result.failureCodes = [] ↔ ∀ rule ∈ rules, (execute rule).failureCode = none := by
    rw [failureCodes_eq_nil_iff h]
    exact forall_congr' fun rule => by rw [hperm.mem_iff]
  have hfound : result.findings ≠ [] := by
    rw [hfindings, ne_eq, List.map_eq_nil_iff]
    rintro hnil
    exact hne (List.perm_nil.mp (hnil ▸ hperm))
  have htotal : 0 < result.completeness.totalRules := by
    rw [hcompleteness]
    exact List.length_pos_iff.mpr hfound
  have hpoints : result.completeness.basisPoints = 10000 ↔
      ∀ f ∈ result.findings, f.status ≠ .unknown := by
    rw [hcompleteness, basisPoints_eq_iff]
    exact and_iff_right hfound
  have hle : result.completeness.basisPoints ≤ 10000 := by
    rw [hcompleteness]
    exact basisPoints_le _ _
  -- a known finding is of a rule that did not fail, so the findings alone decide
  have hboth : ((∀ rule ∈ rules, (execute rule).failureCode = none) ∧
      ∀ f ∈ result.findings, f.status ≠ .unknown) ↔ result.completeness.basisPoints = 10000 := by
    rw [hpoints, ← hnone, failureCodes_eq_nil_iff h]
    exact and_iff_right_of_imp (failed_of_known h hunknown)
  refine ⟨?_, ?_, ?_, ?_, ?_⟩
  · rw [hfindings, List.map_map]
    exact (hperm.map fun rule => (rule.category, rule.ruleId, rule.version)).symm
  · rw [hfindings]
    exact List.pairwise_map.mpr hsorted
  · rw [hboth, hstatus, if_neg (by simp)]
    split
    · rename_i hmissing
      refine iff_of_false (by simp) fun hcomplete => ?_
      rcases hmissing with hfailed | hless
      · exact hfailed (hnone.mpr (hboth.mpr hcomplete).1)
      · omega
    · rename_i hmissing
      refine iff_of_true rfl ?_
      omega
  · rw [hboth]
    exact (and_iff_left htotal).symm
  · rw [hcompleteness]
    exact Nat.sub_add_cancel List.countP_le_length

namespace RiskScanOrchestrator

/-- The rules of a ruleset: what the registry has for each of its
references. -/
def RulesOf (registry : RiskRuleRegistry) (rawRuleset : RawRuleset) (rules : List RiskRule) :
    Prop :=
  ∃ ruleset references, parseRuleset rawRuleset = some (ruleset, references) ∧
    references.mapM (fun reference => registry.get reference.ruleId reference.version) = some rules

theorem parseRuleset_ne_nil {input : RawRuleset} {ruleset : RiskRuleset}
    {references : List RiskRuleReference} (h : parseRuleset input = some (ruleset, references)) :
    references ≠ [] := by
  unfold parseRuleset at h
  obtain ⟨version, -, h⟩ := Option.bind_eq_some_iff.mp h
  obtain ⟨methodologyVersion, -, h⟩ := Option.bind_eq_some_iff.mp h
  obtain ⟨parsed, -, h⟩ := Option.bind_eq_some_iff.mp h
  split at h
  · rename_i hboth
    cases Option.some.inj h
    exact hboth.1
  · cases h

/-- A ruleset that lists its rules in another order parses as well. -/
theorem parseRuleset_perm {input : RawRuleset} {rules : List RiskRuleReference}
    (hperm : input.rules.Perm rules) {ruleset : RiskRuleset} {references : List RiskRuleReference}
    (h : parseRuleset input = some (ruleset, references)) :
    ∃ references', parseRuleset { input with rules := rules } = some (ruleset, references') ∧
      references.Perm references' := by
  unfold parseRuleset at h ⊢
  obtain ⟨version, hversion, h⟩ := Option.bind_eq_some_iff.mp h
  obtain ⟨methodologyVersion, hmethodology, h⟩ := Option.bind_eq_some_iff.mp h
  obtain ⟨parsed, hparsed, h⟩ := Option.bind_eq_some_iff.mp h
  split at h
  · rename_i hboth
    cases Option.some.inj h
    obtain ⟨parsed', hparsed', hperm'⟩ := mapM_perm hperm hparsed
    refine ⟨parsed', ?_, hperm'⟩
    have hne : parsed' ≠ [] := fun hnil => hboth.1 (List.perm_nil.mp (hnil ▸ hperm'))
    simp only [hversion, hmethodology, hparsed', Option.bind_eq_bind, Option.bind_some]
    rw [if_pos ⟨hne, hboth.2⟩]
  · cases h

/-- **And resolves to the same rules.** -/
theorem resolveRuleset_perm {registry : RiskRuleRegistry} {input : RawRuleset}
    {rules : List RiskRuleReference} (hperm : input.rules.Perm rules) {resolved : ResolvedRuleset}
    (h : registry.resolveRuleset input = .ok resolved) :
    registry.resolveRuleset { input with rules := rules } = .ok resolved := by
  obtain ⟨references, found, hparse, hfound, hsorted⟩ := RiskRuleRegistry.resolveRuleset_ok h
  obtain ⟨references', hparse', hreferences⟩ := parseRuleset_perm hperm hparse
  obtain ⟨hmap, hdistinct, hnew, hcapped⟩ := RiskRuleRegistry.resolveReferences_iff.mp hfound
  obtain ⟨found', hmap', hperm'⟩ := mapM_perm hreferences hmap
  have hfound' : registry.resolveReferences resolved.ruleset [] references' = .ok found' :=
    RiskRuleRegistry.resolveReferences_iff.mpr
      ⟨hmap', (hperm'.map _).nodup_iff.mp hdistinct,
        fun rule hrule => hnew rule (hperm'.mem_iff.mpr hrule),
        fun rule hrule => hcapped rule (hperm'.mem_iff.mpr hrule)⟩
  obtain ⟨resolved', hresolved', hruleset, hrules⟩ :=
    RiskRuleRegistry.resolveRuleset_of hparse' hfound'
  have hsame : resolved'.rules = resolved.rules := by
    rw [hrules, hsorted]
    exact (sortRules_perm hperm' (hsorted ▸ resolved.distinct)).symm
  rw [hresolved']
  cases resolved
  cases resolved'
  cases hruleset
  cases hsame
  rfl

variable {orchestrator : RiskScanOrchestrator} {rawContext : RiskScanContext}
variable {rawRuleset : RawRuleset} {options : RiskScanOptions} {accepted : Accepted}

theorem accept_ok (h : orchestrator.accept rawContext rawRuleset options = some accepted) :
    parseContext rawContext = some accepted.context ∧
      accepted.context.methodologyVersion = rawRuleset.methodologyVersion ∧
      orchestrator.registry.resolveRuleset rawRuleset = .ok accepted.resolved ∧
      (sourceMap accepted.context).isSome = true := by
  unfold accept at h
  obtain ⟨-, -, h⟩ := Option.bind_eq_some_iff.mp h
  obtain ⟨-, -, h⟩ := Option.bind_eq_some_iff.mp h
  obtain ⟨context, hcontext, h⟩ := Option.bind_eq_some_iff.mp h
  split at h
  · cases h
  · rename_i hversion
    obtain ⟨resolved, hresolved, h⟩ := Option.bind_eq_some_iff.mp h
    obtain ⟨sources, hsources, h⟩ := Option.bind_eq_some_iff.mp h
    obtain ⟨suppressions, -, h⟩ := Option.bind_eq_some_iff.mp h
    cases Option.some.inj h
    refine ⟨hcontext, not_not.mp hversion, ?_, Option.isSome_iff_exists.mpr ⟨sources, hsources⟩⟩
    cases hanswer : orchestrator.registry.resolveRuleset rawRuleset with
    | error message =>
      rw [hanswer] at hresolved
      cases hresolved
    | ok resolved' =>
      rw [hanswer] at hresolved
      exact congrArg Except.ok (Option.some.inj hresolved)

theorem accept_perm {rules : List RiskRuleReference} (hperm : rawRuleset.rules.Perm rules)
    (h : orchestrator.accept rawContext rawRuleset options = some accepted) :
    orchestrator.accept rawContext { rawRuleset with rules := rules } options = some accepted := by
  have hresolved := (accept_ok h).2.2.1
  unfold accept at h ⊢
  rw [resolveRuleset_perm hperm hresolved]
  rw [hresolved] at h
  exact h

/-- A scan of a resolved ruleset finds the parsed methodology version in
it. -/
theorem methodologyVersion_of_resolve {registry : RiskRuleRegistry} {resolved : ResolvedRuleset}
    (h : registry.resolveRuleset rawRuleset = .ok resolved) :
    parseVersion rawRuleset.methodologyVersion = some resolved.ruleset.methodologyVersion := by
  obtain ⟨references, rules, hparse, -⟩ := RiskRuleRegistry.resolveRuleset_ok h
  unfold parseRuleset at hparse
  obtain ⟨version, -, hparse⟩ := Option.bind_eq_some_iff.mp hparse
  obtain ⟨methodologyVersion, hmethodology, hparse⟩ := Option.bind_eq_some_iff.mp hparse
  obtain ⟨parsed, -, hparse⟩ := Option.bind_eq_some_iff.mp hparse
  split at hparse
  · have hruleset := congrArg (·.1.methodologyVersion) (Option.some.inj hparse)
    dsimp only at hruleset
    rw [hmethodology, hruleset]
  · cases hparse

theorem methodologyVersion_of_parse {context : RiskScanContext}
    (h : parseContext rawContext = some context) :
    parseVersion rawContext.methodologyVersion = some context.methodologyVersion := by
  unfold parseContext at h
  obtain ⟨methodologyVersion, hmethodology, h⟩ := Option.bind_eq_some_iff.mp h
  obtain ⟨dataSources, -, h⟩ := Option.bind_eq_some_iff.mp h
  split at h
  · cases Option.some.inj h
    exact hmethodology
  · cases h

/-- A parsed version parses to itself. -/
theorem parseVersion_parsed {s t u : String} (hs : parseVersion s = some t)
    (ht : parseVersion t = some u) : u = t := by
  have htrim : ∀ {s t}, parseVersion s = some t → t = trim s := by
    intro s t h
    obtain ⟨htext, -⟩ := Option.filter_eq_some_iff.mp h
    unfold parseText at htext
    split at htext
    · cases htext
    · exact (Option.some.inj htext).symm
  rw [htrim ht, htrim hs, trim_trim]

/-- **An accepted scan answers**, whatever its rules do. -/
theorem exists_scan_of_accept (issues : Returned → String)
    (h : orchestrator.accept rawContext rawRuleset options = some accepted)
    (runs : RiskRule → RuleRun) (cancelled : Bool) :
    ∃ result, orchestrator.scan issues rawContext rawRuleset options runs cancelled =
      some result := by
  obtain ⟨hcontext, hversion, hresolved, hsources⟩ := accept_ok h
  have hmethodology := methodologyVersion_of_resolve hresolved
  rw [← hversion] at hmethodology
  have hsame := parseVersion_parsed (methodologyVersion_of_parse hcontext) hmethodology
  rw [scan, h]
  exact RiskScanContext.exists_scan hsame.symm hsources

/-- **Rules are isolated, and completeness is honest.** An accepted scan
answers whatever its rules do, and its result is honest of the ruleset's
rules. Another turn of one rule leaves every other rule's finding, and
another order of the ruleset's references leaves the result. -/
theorem scan_isolated (orchestrator : RiskScanOrchestrator) (issues : Returned → String)
    (rawContext : RiskScanContext) (rawRuleset : RawRuleset) (options : RiskScanOptions)
    (accepted : Accepted)
    (h : orchestrator.accept rawContext rawRuleset options = some accepted)
    (runs : RiskRule → RuleRun) :
    ∃ rules result, RulesOf orchestrator.registry rawRuleset rules ∧
      orchestrator.scan issues rawContext rawRuleset options runs false = some result ∧
      Honest rules (fun rule => executeRule issues accepted.context.dataSources rule (runs rule))
        result ∧
      (∀ rule run, ∃ result',
        orchestrator.scan issues rawContext rawRuleset options (Function.update runs rule run)
          false = some result' ∧
        ∀ (i : ℕ) f, result.findings[i]? = some f → (f.ruleId, f.ruleVersion) ≠ rule.key →
          result'.findings[i]? = some f) ∧
      ∀ references, rawRuleset.rules.Perm references →
        orchestrator.scan issues rawContext { rawRuleset with rules := references } options runs
          false = some result := by
  have hresolved := (accept_ok h).2.2.1
  obtain ⟨references, rules, hparse, hreferences, hsorted⟩ :=
    RiskRuleRegistry.resolveRuleset_ok hresolved
  have hmap := (RiskRuleRegistry.resolveReferences_iff.mp hreferences).1
  have hperm : rules.Perm accepted.resolved.rules := by
    rw [hsorted]
    exact (List.mergeSort_perm _ _).symm
  have hne : rules ≠ [] := by
    rintro rfl
    obtain ⟨reference, hreference⟩ := List.exists_mem_of_ne_nil _ (parseRuleset_ne_nil hparse)
    obtain ⟨rule, hrule, -⟩ := exists_of_mapM_eq_some hmap hreference
    cases hrule
  have hscan : ∀ runs, orchestrator.scan issues rawContext rawRuleset options runs false =
      accepted.context.scan accepted.resolved orchestrator.engineVersion accepted.suppressions
        (fun rule => executeRule issues accepted.context.dataSources rule (runs rule)) false := by
    intro runs
    rw [scan, h]
    rfl
  obtain ⟨result, hresult⟩ := exists_scan_of_accept issues h runs false
  have hresult' := (hscan runs).symm.trans hresult
  refine ⟨rules, result, ⟨_, references, hparse, hmap⟩, hresult, ?_, ?_, ?_⟩
  · exact honest_scan hperm hne
      (hsorted ▸ pairwise_lt_sortRules (hsorted ▸ accepted.resolved.distinct)) hresult'
      fun rule hfailed => unknown_of_failed hfailed
  · intro rule run
    obtain ⟨other, hother⟩ := exists_scan_of_accept issues h (Function.update runs rule run) false
    refine ⟨other, hother, fun i f hf hkey => ?_⟩
    have hother' := (hscan _).symm.trans hother
    rw [(RiskScanContext.scan_eq hresult').1, List.getElem?_map] at hf
    rw [(RiskScanContext.scan_eq hother').1, List.getElem?_map]
    obtain ⟨r, hr, rfl⟩ := Option.map_eq_some_iff.mp hf
    rw [hr, Option.map_some]
    have hdistinct : r ≠ rule := by
      rintro rfl
      exact hkey rfl
    rw [Function.update_of_ne hdistinct]
  · intro references' hreferences'
    rw [scan, accept_perm hreferences' h]
    exact hresult'

/-! ## Two rules -/

def ownerRule : RiskRule := ⟨"owner", "1", .contractControl, "Owner", [], 1500⟩

def taxRule : RiskRule := ⟨"tax", "1", .transferBehavior, "Tax", ["chain"], 2500⟩

theorem twoRules_valid : ∀ rule ∈ [taxRule, ownerRule], validateRule rule = .ok () := by
  decide +kernel

theorem twoRules_distinct : ([taxRule, ownerRule].map RiskRule.text).Nodup := by
  decide +kernel

theorem twoRules_named : trim "v1" ≠ "" := by
  decide +kernel

def twoRules : RiskScanOrchestrator :=
  ⟨⟨[taxRule, ownerRule], twoRules_valid, twoRules_distinct⟩, "v1", twoRules_named⟩

def cleanContext : RiskScanContext where
  target := ⟨.token, 4663, ⟨0x7a⟩⟩
  sourceBlock := 812
  sourceBlockHash := ⟨0x7b⟩
  methodologyVersion := "m1"
  dataSources := []

def bothRules : RawRuleset where
  version := "r1"
  methodologyVersion := "m1"
  rules := [⟨"tax", "1"⟩, ⟨"owner", "1"⟩]
  categoryPenaltyCapsBps := fun _ => some 4000

/-- Both rules reject. -/
def rejecting : RiskRule → RuleRun := fun _ =>
  ⟨⟨false, false⟩, .settles true (.error (some "no state")), ⟨false, false⟩⟩

theorem accepts_bothRules :
    (twoRules.accept cleanContext bothRules ⟨60000, 5000, []⟩).isSome = true := by
  decide +kernel

theorem scan_isolated_bothRules :
    ∃ accepted, twoRules.accept cleanContext bothRules ⟨60000, 5000, []⟩ = some accepted ∧
    ∃ rules result, RulesOf twoRules.registry bothRules rules ∧
      twoRules.scan (fun _ => "[]") cleanContext bothRules ⟨60000, 5000, []⟩ rejecting false =
        some result ∧
      Honest rules
        (fun rule => executeRule (fun _ => "[]") accepted.context.dataSources rule (rejecting rule))
        result ∧
      (∀ rule run, ∃ result',
        twoRules.scan (fun _ => "[]") cleanContext bothRules ⟨60000, 5000, []⟩
          (Function.update rejecting rule run) false = some result' ∧
        ∀ (i : ℕ) f, result.findings[i]? = some f → (f.ruleId, f.ruleVersion) ≠ rule.key →
          result'.findings[i]? = some f) ∧
      ∀ references, bothRules.rules.Perm references →
        twoRules.scan (fun _ => "[]") cleanContext { bothRules with rules := references }
          ⟨60000, 5000, []⟩ rejecting false = some result := by
  obtain ⟨accepted, haccepted⟩ := Option.isSome_iff_exists.mp accepts_bothRules
  exact ⟨accepted, haccepted, scan_isolated twoRules (fun _ => "[]") cleanContext bothRules
    ⟨60000, 5000, []⟩ accepted haccepted rejecting⟩

end RiskScanOrchestrator

end HoodSentry
