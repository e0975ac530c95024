import HoodSentry.Common.Text
import HoodSentry.Risk.Model.Scan
/-!
# The registry of risk rules

`packages/risk-engine/src/registry.ts`, with the schemas of what it is
given. A registry names its rules by `ruleId@version`; a ruleset is resolved
to the rules it references, sorted.
-/

namespace HoodSentry

/-! ## Schemas -/

/-- `z.string().trim().min(1)`. -/
def parseText (s : String) : Option String := if trim s = "" then none else some (trim s)

/-- `versionSchema`. -/
def parseVersion (s : String) : Option String :=
  (parseText s).filter fun version => (utf16 version).length ≤ 128

structure RiskRuleReference where
  ruleId : String
  version : String
deriving DecidableEq

/-- A ruleset as a scan is given it; a category without a cap is absent
from the record. -/
structure RawRuleset where
  version : String
  methodologyVersion : String
  rules : List RiskRuleReference
  categoryPenaltyCapsBps : RiskCategory → Option ℕ

def parseReference (reference : RiskRuleReference) : Option RiskRuleReference := do
  let ruleId ← parseText reference.ruleId
  let version ← parseVersion reference.version
  return ⟨ruleId, version⟩

/-- `riskRulesetSchema`: the ruleset, and the references of its rules. -/
def parseRuleset (input : RawRuleset) : Option (RiskRuleset × List RiskRuleReference) := do
  let version ← parseVersion input.version
  let methodologyVersion ← parseVersion input.methodologyVersion
  let references ← input.rules.mapM parseReference
  if references ≠ [] ∧ ∀ category ∈ RISK_CATEGORIES,
      (input.categoryPenaltyCapsBps category).getD 0 ≤ 10000 then
    some (⟨version, methodologyVersion, input.categoryPenaltyCapsBps⟩, references)
  else none

def RiskCategory.text : RiskCategory → String
  | contractControl => "Contract control"
  | transferBehavior => "Transfer behavior"
  | supply => "Supply"
  | upgradeability => "Upgradeability"
  | liquidity => "Liquidity"
  | holderDistribution => "Holder distribution"
  | deployerHistory => "Deployer history"
  | identityAndImpersonation => "Identity and impersonation"
  | marketIntegrity => "Market integrity"
  | oracleBehavior => "Oracle behavior"
  | metadataQuality => "Metadata quality"
  | launchpadBehavior => "Launchpad behavior"

/-! ## The order of rules -/

/-- A category's place in `RISK_CATEGORIES`. -/
def categoryOrder (category : RiskCategory) : ℕ := RISK_CATEGORIES.idxOf category

def compareText (left right : String) : ℤ :=
  if textLt left right then -1 else if textLt right left then 1 else 0

def compareRiskRules (left right : RiskRule) : ℤ :=
  let categoryDifference : ℤ := categoryOrder left.category - categoryOrder right.category
  if categoryDifference ≠ 0 then categoryDifference
  else
    let idDifference := compareText left.ruleId right.ruleId
    if idDifference ≠ 0 then idDifference
    else compareText left.version right.version

/-- `rules.sort(compareRiskRules)`. -/
def sortRules (rules : List RiskRule) : List RiskRule :=
  rules.mergeSort fun left right => compareRiskRules left right ≤ 0

/-! ## The registry -/

def RiskRule.text (rule : RiskRule) : String := ruleKey rule.ruleId rule.version

/-- The loop over a rule's data sources. -/
def validateDependencies (rule : RiskRule) : (seen : List String) → List String → Except String Unit
  | _, [] => .ok ()
  | seen, dependency :: rest =>
    if trim dependency = "" then .error "Risk data source keys cannot be empty"
    else if dependency ∈ seen then
      .error ("Risk rule " ++ rule.text ++ " repeats " ++ dependency)
    else validateDependencies rule (dependency :: seen) rest

def validateRule (rule : RiskRule) : Except String Unit :=
  if trim rule.ruleId = "" then .error "Risk rule ID is required"
  else if trim rule.version = "" then .error ("Risk rule " ++ rule.ruleId ++ " needs a version")
  else if 10000 < rule.maxPenaltyBps then
    .error ("Risk rule " ++ rule.text ++ " has an invalid penalty")
  else validateDependencies rule [] rule.requiredDataSources

/-- **A registry**: valid rules, no two of which have the same key. -/
structure RiskRuleRegistry where
  rules : List RiskRule
  valid : ∀ rule ∈ rules, validateRule rule = .ok ()
  distinct : (rules.map RiskRule.text).Nodup

namespace RiskRuleRegistry

def empty : RiskRuleRegistry where
  rules := []
  valid := List.forall_mem_nil _
  distinct := List.nodup_nil

theorem valid_append {rules : List RiskRule} {rule : RiskRule}
    (hrules : ∀ rule ∈ rules, validateRule rule = .ok ()) (hrule : validateRule rule = .ok ()) :
    ∀ r ∈ rules ++ [rule], validateRule r = .ok () := by
  intro r hr
  rcases List.mem_append.mp hr with hr | hr
  · exact hrules r hr
  · rw [List.mem_singleton.mp hr, hrule]

theorem distinct_append {rules : List RiskRule} {rule : RiskRule}
    (hrules : (rules.map RiskRule.text).Nodup) (hnew : rule.text ∉ rules.map RiskRule.text) :
    ((rules ++ [rule]).map RiskRule.text).Nodup := by
  rw [List.map_append, List.nodup_append]
  refine ⟨hrules, List.nodup_singleton _, fun a ha b hb => ?_⟩
  rw [List.map_singleton, List.mem_singleton] at hb
  rintro rfl
  exact hnew (hb ▸ ha)

def register (registry : RiskRuleRegistry) (rule : RiskRule) : Except String RiskRuleRegistry :=
  match hvalid : validateRule rule with
  | .error message => .error message
  | .ok () =>
    if hnew : rule.text ∈ registry.rules.map RiskRule.text then
      .error ("Duplicate risk rule " ++ rule.text)
    else .ok ⟨registry.rules ++ [rule], valid_append registry.valid hvalid,
      distinct_append registry.distinct hnew⟩

def get (registry : RiskRuleRegistry) (ruleId version : String) : Option RiskRule :=
  registry.rules.find? fun rule => rule.text = ruleKey ruleId version

def list (registry : RiskRuleRegistry) : List RiskRule := sortRules registry.rules

/-- The loop over the references; `seen` are the keys before them. -/
def resolveReferences (registry : RiskRuleRegistry) (ruleset : RiskRuleset) :
    (seen : List String) → List RiskRuleReference → Except String (List RiskRule)
  | _, [] => .ok []
  | seen, reference :: rest =>
    let key := ruleKey reference.ruleId reference.version
    if key ∈ seen then .error ("Ruleset " ++ ruleset.version ++ " repeats " ++ key)
    else
      match registry.get reference.ruleId reference.version with
      | none => .error ("Ruleset " ++ ruleset.version ++ " references unknown rule " ++ key)
      | some rule =>
        if (ruleset.categoryPenaltyCapsBps rule.category).isNone then
          .error ("Ruleset " ++ ruleset.version ++ " has no penalty cap for " ++
            rule.category.text)
        else
          match registry.resolveReferences ruleset (key :: seen) rest with
          | .error message => .error message
          | .ok rules => .ok (rule :: rules)

/-- **What the references resolve to**: the rule of each, in their order;
no key is repeated or seen, and every category is capped. -/
theorem resolveReferences_iff {registry : RiskRuleRegistry} {ruleset : RiskRuleset}
    {references : List RiskRuleReference} {seen : List String} {rules : List RiskRule} :
    registry.resolveReferences ruleset seen references = .ok rules ↔
      references.mapM (fun reference => registry.get reference.ruleId reference.version) =
        some rules ∧ (rules.map RiskRule.text).Nodup ∧ (∀ rule ∈ rules, rule.text ∉ seen) ∧
      ∀ rule ∈ rules, (ruleset.categoryPenaltyCapsBps rule.category).isSome = true := by
  induction references generalizing seen rules with
  | nil =>
    rw [resolveReferences, Except.ok.injEq, List.mapM_nil, Option.pure_def, Option.some.injEq]
    constructor
    · rintro rfl
      simp
    · exact fun h => h.1
  | cons reference rest ih =>
    have hkey : ∀ {rule : RiskRule}, registry.get reference.ruleId reference.version = some rule →
        rule.text = ruleKey reference.ruleId reference.version := by
      intro rule hrule
      have hfound := List.find?_some hrule
      simpa only [decide_eq_true_eq] using hfound
    rw [resolveReferences, mapM_cons_eq_some]
    constructor
    · intro h
      split at h
      · cases h
      · rename_i hseen
        split at h
        · cases h
        · rename_i rule hrule
          split at h
          · cases h
          · rename_i hcap
            split at h
            · cases h
            · rename_i resolved hresolved
              cases Except.ok.inj h
              obtain ⟨hmap, hnodup, hnew, hcapped⟩ := ih.mp hresolved
              refine ⟨⟨rule, resolved, hrule, hmap, rfl⟩, ?_, ?_, ?_⟩
              · rw [List.map_cons, List.nodup_cons]
                refine ⟨fun hmem => ?_, hnodup⟩
                obtain ⟨r, hr, hrtext⟩ := List.mem_map.mp hmem
                refine hnew r hr ?_
                rw [hrtext, hkey hrule]
                exact List.mem_cons_self ..
              · refine List.forall_mem_cons.mpr ⟨by rw [hkey hrule]; exact hseen, fun r hr hmem => ?_⟩
                exact hnew r hr (List.mem_cons_of_mem _ hmem)
              · refine List.forall_mem_cons.mpr ⟨?_, hcapped⟩
                rw [← Option.not_isNone, Bool.not_eq_true', ← Bool.not_eq_true]
                exact hcap
    · rintro ⟨⟨rule, resolved, hrule, hmap, rfl⟩, hnodup, hnew, hcapped⟩
      rw [List.map_cons, List.nodup_cons] at hnodup
      obtain ⟨hnewrule, hnew⟩ := List.forall_mem_cons.mp hnew
      obtain ⟨hcap, hcapped⟩ := List.forall_mem_cons.mp hcapped
      have hresolved : registry.resolveReferences ruleset
          (ruleKey reference.ruleId reference.version :: seen) rest = .ok resolved := by
        refine ih.mpr ⟨hmap, hnodup.2, fun r hr hmem => ?_, hcapped⟩
        rcases List.mem_cons.mp hmem with hsame | hmem
        · refine hnodup.1 (List.mem_map.mpr ⟨r, hr, ?_⟩)
          rw [hsame, hkey hrule]
        · exact hnew r hr hmem
      rw [if_neg (by rw [← hkey hrule]; exact hnewrule)]
      simp only [hrule, hresolved]
      rw [if_neg (by rw [Bool.not_eq_true, ← Bool.not_eq_true', Option.not_isNone]; exact hcap)]

theorem distinct_of_text {rules : List RiskRule} (h : (rules.map RiskRule.text).Nodup) :
    ((sortRules rules).map RiskRule.key).Nodup := by
  have hperm : (sortRules rules).Perm rules := List.mergeSort_perm _ _
  refine (hperm.map _).nodup_iff.mpr (List.Nodup.of_map (fun key => ruleKey key.1 key.2) ?_)
  rw [List.map_map]
  exact h

theorem capped_sortRules {ruleset : RiskRuleset} {rules : List RiskRule}
    (h : ∀ rule ∈ rules, (ruleset.categoryPenaltyCapsBps rule.category).isSome = true) :
    ∀ rule ∈ sortRules rules, (ruleset.categoryPenaltyCapsBps rule.category).isSome = true :=
  fun rule hrule => h rule (List.mem_mergeSort.mp hrule)

/-- **`resolveRuleset`.** -/
def resolveRuleset (registry : RiskRuleRegistry) (input : RawRuleset) :
    Except String ResolvedRuleset :=
  match parseRuleset input with
  | none => .error "Invalid ruleset"
  | some (ruleset, references) =>
    match hrules : registry.resolveReferences ruleset [] references with
    | .error message => .error message
    | .ok rules => .ok ⟨ruleset, sortRules rules,
        distinct_of_text (resolveReferences_iff.mp hrules).2.1,
        capped_sortRules (resolveReferences_iff.mp hrules).2.2.2⟩

/-- What a ruleset resolves to. -/
theorem resolveRuleset_ok {registry : RiskRuleRegistry} {input : RawRuleset}
    {resolved : ResolvedRuleset} (h : registry.resolveRuleset input = .ok resolved) :
    ∃ references rules, parseRuleset input = some (resolved.ruleset, references) ∧
      registry.resolveReferences resolved.ruleset [] references = .ok rules ∧
      resolved.rules = sortRules rules := by
  unfold resolveRuleset at h
  split at h
  · cases h
  · rename_i ruleset references hparse
    split at h
    · cases h
    · rename_i rules hrules
      cases Except.ok.inj h
      exact ⟨references, rules, hparse, hrules, rfl⟩

theorem resolveRuleset_of {registry : RiskRuleRegistry} {input : RawRuleset}
    {ruleset : RiskRuleset} {references : List RiskRuleReference} {rules : List RiskRule}
    (hparse : parseRuleset input = some (ruleset, references))
    (hrules : registry.resolveReferences ruleset [] references = .ok rules) :
    ∃ resolved, registry.resolveRuleset input = .ok resolved ∧ resolved.ruleset = ruleset ∧
      resolved.rules = sortRules rules := by
  unfold resolveRuleset
  rw [hparse]
  dsimp only
  split
  · rename_i message herror
    rw [hrules] at herror
    cases herror
  · rename_i rules' hrules'
    rw [hrules] at hrules'
    cases Except.ok.inj hrules'
    exact ⟨_, rfl, rfl, rfl⟩

end RiskRuleRegistry

end HoodSentry
