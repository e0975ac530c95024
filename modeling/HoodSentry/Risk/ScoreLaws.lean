import HoodSentry.Risk.Model.Scan
/-!
# Laws of the risk score

What a score is computed from is, for every category, the sum of its
findings' penalties cut at the category's cap. So the order of the findings
does not matter, and a finding that is added or made worse lowers no penalty:
neither the sum, nor either cut, turns the order around.
-/

namespace HoodSentry

/-! ## Penalties -/

variable {findings other : List RiskFinding} {rules : List RiskRule} {ruleset : RiskRuleset}
variable {completeness : RiskCompleteness} {score worseScore : RiskScore} {category : RiskCategory}

/-- Every finding has a rule. -/
def HaveRules (rules : List RiskRule) (findings : List RiskFinding) : Prop :=
  ∀ finding ∈ findings, (scoringRule rules finding).isSome = true

/-- What a finding costs. -/
def penaltyOf (rules : List RiskRule) (finding : RiskFinding) : ℕ :=
  ((scoringRule rules finding).map (findingPenalty finding)).getD 0

/-- What the findings of a category cost together. -/
def categoryPenalty (rules : List RiskRule) (findings : List RiskFinding)
    (category : RiskCategory) : ℕ :=
  ((findings.filter fun finding => finding.category = category).map (penaltyOf rules)).sum

/-- **The penalty of every category that has a cap.** -/
def cappedPenalties (rules : List RiskRule) (ruleset : RiskRuleset) (findings : List RiskFinding) :
    List (RiskCategory × ℕ) :=
  RISK_CATEGORIES.filterMap fun category =>
    (ruleset.categoryPenaltyCapsBps category).map fun cap =>
      (category, min (categoryPenalty rules findings category) cap)

theorem penaltyOf_eq {finding : RiskFinding} {rule : RiskRule}
    (h : scoringRule rules finding = some rule) :
    penaltyOf rules finding = findingPenalty finding rule := by
  rw [penaltyOf, h]
  rfl

/-- The penalties that the loop gathers. -/
theorem mapM_penalties (h : HaveRules rules findings) :
    (findings.mapM fun finding => (scoringRule rules finding).map fun rule =>
        (finding.category, findingPenalty finding rule)) =
      some (findings.map fun finding => (finding.category, penaltyOf rules finding)) := by
  induction findings with
  | nil => rfl
  | cons finding findings ih =>
    obtain ⟨hfinding, hrest⟩ := List.forall_mem_cons.mp h
    obtain ⟨rule, hrule⟩ := Option.isSome_iff_exists.mp hfinding
    refine mapM_cons_eq_some.mpr ⟨_, _, ?_, ih hrest, rfl⟩
    dsimp only
    rw [hrule, Option.map_some, penaltyOf_eq hrule]

/-- **What the score is computed from.** -/
theorem calculateRiskScore_eq (h : HaveRules rules findings) :
    calculateRiskScore findings rules ruleset completeness = some {
      scoreBps := 10000 - min 10000 ((cappedPenalties rules ruleset findings).map (·.2)).sum
      grade := grade (10000 - min 10000 ((cappedPenalties rules ruleset findings).map (·.2)).sum)
      categoryScoresBps := (cappedPenalties rules ruleset findings).map fun p => (p.1, 10000 - p.2)
      methodologyVersion := ruleset.methodologyVersion
      completeness := completeness
      warnings := sortedSet (completeness.reasons ++
        if completeness.basisPoints < 10000 then ["RISK_DATA_INCOMPLETE"] else []) } := by
  have hcategory : ∀ category, (((findings.map fun finding =>
      (finding.category, penaltyOf rules finding)).filter fun p => p.1 = category).map
        (·.2)).sum = categoryPenalty rules findings category := by
    intro category
    rw [List.filter_map, List.map_map, categoryPenalty]
    rfl
  rw [calculateRiskScore, mapM_penalties h]
  simp only [Option.bind_eq_bind, Option.bind_some, hcategory]
  rfl

/-- A score that is given is given of findings that have rules. -/
theorem haveRules_of_score
    (h : calculateRiskScore findings rules ruleset completeness = some score) :
    HaveRules rules findings := by
  obtain ⟨penalties, hpenalties, -⟩ := Option.bind_eq_some_iff.mp h
  intro finding hfinding
  obtain ⟨p, -, hp⟩ := exists_of_mapM_eq_some hpenalties hfinding
  rw [← Option.isSome_map (f := fun rule => (finding.category, findingPenalty finding rule)), hp]
  rfl

/-! ## Worse findings -/

/-- A status that costs more. -/
inductive RiskFindingStatus.Raises : RiskFindingStatus → RiskFindingStatus → Prop
  | warned : Raises .pass .warning
  | failed : Raises .warning .fail

/-- **One change for the worse**: a finding added, or one with its status
raised. -/
inductive Worsens : List RiskFinding → List RiskFinding → Prop
  | added (before after : List RiskFinding) (finding : RiskFinding) :
      Worsens (before ++ after) (before ++ finding :: after)
  | raised (before after : List RiskFinding) (finding : RiskFinding) {status : RiskFindingStatus}
      (h : finding.status.Raises status) :
      Worsens (before ++ finding :: after) (before ++ { finding with status := status } :: after)

/-- A raised status costs at least as much. -/
theorem penaltyOf_raised {finding : RiskFinding} {status : RiskFindingStatus}
    (h : finding.status.Raises status) :
    penaltyOf rules finding ≤ penaltyOf rules { finding with status := status } := by
  have hrule : scoringRule rules { finding with status := status } = scoringRule rules finding := rfl
  rw [penaltyOf, penaltyOf, hrule]
  cases scoringRule rules finding with
  | none => exact Nat.le_refl 0
  | some rule =>
    rw [Option.map_some, Option.map_some, Option.getD_some, Option.getD_some, findingPenalty,
      findingPenalty]
    generalize finding.status = old at h
    cases h with
    | warned => exact Nat.zero_le _
    | failed => exact Nat.div_le_self _ 2

/-- The penalty of a category is a sum over the findings' contributions. -/
def contribution (rules : List RiskRule) (category : RiskCategory) (finding : RiskFinding) : ℕ :=
  if finding.category = category then penaltyOf rules finding else 0

theorem categoryPenalty_eq : categoryPenalty rules findings category =
    (findings.map (contribution rules category)).sum := by
  rw [categoryPenalty]
  induction findings with
  | nil => rfl
  | cons finding findings ih =>
    rw [List.map_cons, List.sum_cons, contribution, ← ih, List.filter_cons]
    by_cases hcategory : finding.category = category
    · rw [if_pos (decide_eq_true hcategory), List.map_cons, List.sum_cons, if_pos hcategory]
    · rw [if_neg (by rw [decide_eq_true_eq]; exact hcategory), if_neg hcategory, Nat.zero_add]

/-- **No category's penalty is lowered.** -/
theorem categoryPenalty_le (h : Worsens findings other) (category : RiskCategory) :
    categoryPenalty rules findings category ≤ categoryPenalty rules other category := by
  rw [categoryPenalty_eq, categoryPenalty_eq]
  cases h with
  | added before after finding =>
    rw [List.map_append, List.sum_append, List.map_append, List.sum_append, List.map_cons,
      List.sum_cons]
    omega
  | @raised before after finding status hraised =>
    have hpenalty := @penaltyOf_raised rules _ _ hraised
    have hcontribution : contribution rules category finding ≤
        contribution rules category { finding with status := status } := by
      rw [contribution, contribution]
      by_cases hcategory : finding.category = category
      · rw [if_pos hcategory, if_pos hcategory]
        exact hpenalty
      · rw [if_neg hcategory]
        exact Nat.zero_le _
    rw [List.map_append, List.sum_append, List.map_append, List.sum_append, List.map_cons,
      List.sum_cons, List.map_cons, List.sum_cons]
    omega

theorem categoryPenalty_perm (h : findings.Perm other) (category : RiskCategory) :
    categoryPenalty rules findings category = categoryPenalty rules other category := by
  rw [categoryPenalty_eq, categoryPenalty_eq]
  exact (h.map _).sum_eq

/-- Nor is the sum of the capped penalties. -/
theorem sum_cappedPenalties_le
    (h : ∀ category, categoryPenalty rules findings category ≤
      categoryPenalty rules other category) :
    ((cappedPenalties rules ruleset findings).map (·.2)).sum ≤
      ((cappedPenalties rules ruleset other).map (·.2)).sum := by
  rw [cappedPenalties, cappedPenalties]
  induction RISK_CATEGORIES with
  | nil => exact Nat.le_refl 0
  | cons category categories ih =>
    cases hcap : ruleset.categoryPenaltyCapsBps category with
    | none =>
      rw [List.filterMap_cons_none (by rw [hcap]; rfl),
        List.filterMap_cons_none (by rw [hcap]; rfl)]
      exact ih
    | some cap =>
      have hmin : min (categoryPenalty rules findings category) cap ≤
          min (categoryPenalty rules other category) cap := min_le_min_right cap (h category)
      rw [List.filterMap_cons_some (by rw [hcap]; rfl),
        List.filterMap_cons_some (by rw [hcap]; rfl), List.map_cons, List.map_cons, List.sum_cons,
        List.sum_cons]
      exact Nat.add_le_add hmin ih

/-- The score of a category that has a cap. -/
theorem mem_categoryScores {p : RiskCategory × ℕ} :
    p ∈ (cappedPenalties rules ruleset findings).map (fun p => (p.1, 10000 - p.2)) ↔
      ∃ cap, ruleset.categoryPenaltyCapsBps p.1 = some cap ∧
        p.2 = 10000 - min (categoryPenalty rules findings p.1) cap := by
  have hall : ∀ category : RiskCategory, category ∈ RISK_CATEGORIES := by
    intro category
    cases category with
    | _ => decide
  constructor
  · intro h
    obtain ⟨q, hq, rfl⟩ := List.mem_map.mp h
    obtain ⟨category, -, hcategory⟩ := List.mem_filterMap.mp hq
    obtain ⟨cap, hcap, rfl⟩ := Option.map_eq_some_iff.mp hcategory
    exact ⟨cap, hcap, rfl⟩
  · rintro ⟨cap, hcap, hscore⟩
    refine List.mem_map.mpr ⟨(p.1, min (categoryPenalty rules findings p.1) cap), ?_, ?_⟩
    · exact List.mem_filterMap.mpr ⟨p.1, hall p.1, by rw [hcap, Option.map_some]⟩
    · rw [← hscore]

/-! ## The grade -/

/-- A better grade has a higher place. -/
def RiskGrade.place : RiskGrade → ℕ
  | F => 0
  | D => 1
  | C => 2
  | B => 3
  | A => 4

theorem grade_mono {a b : ℕ} (h : a ≤ b) : (grade a).place ≤ (grade b).place := by
  have hplace : ∀ n, (grade n).place = (if 6000 ≤ n then 1 else 0) + (if 7000 ≤ n then 1 else 0) +
      (if 8000 ≤ n then 1 else 0) + (if 9000 ≤ n then 1 else 0) := by
    intro n
    rw [grade]
    split_ifs <;> first | rfl | omega
  rw [hplace, hplace]
  split_ifs <;> omega

/-! ## The laws -/

def ownerRule : RiskRule where
  ruleId := "owner-privileges"
  version := "1"
  category := .contractControl
  title := "Owner privileges"
  requiredDataSources := []
  maxPenaltyBps := 2500

/-- A finding of the rule. -/
def ownerFinding (status : RiskFindingStatus) : RiskFinding where
  ruleId := ownerRule.ruleId
  ruleVersion := ownerRule.version
  status := status
  category := ownerRule.category
  severity := .high
  confidence := ⟨.high, 9000, "bytecode"⟩
  title := ownerRule.title
  explanation := "The owner can mint."
  evidence := []
  sourceBlock := 0
  sourceBlockHash := ⟨0⟩
  dataProvenance := []
  remediation := none
  fingerprint := ⟨⟨.token, 4663, ⟨1⟩⟩, ownerRule.ruleId, ownerRule.version, "owner"⟩
  suppressed := false
  suppressionReason := none

/-- Every category's penalty is at most 3000. -/
def evenCaps : RiskRuleset where
  version := "1"
  methodologyVersion := "1"
  categoryPenaltyCapsBps _ := some 3000

def wholeScan : RiskCompleteness := ⟨10000, .complete, 2, 2, 0, 0, [], []⟩

end HoodSentry
