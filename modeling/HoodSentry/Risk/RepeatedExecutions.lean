import HoodSentry.Risk.HoneypotVerdicts
/-!
# Executions of one action

`deriveFindings` looks an action up in a map that holds its last execution,
so that a later one hides an earlier one of the same action. A failure is
reported, and in every order the same way, exactly if no other execution of
its action could take its place.
-/

namespace HoodSentry

namespace Simulation

variable {executions other : List SimulationExecution} {action : SimulationAction}
variable {execution buy sell : SimulationExecution}

/-! ## What is promised -/

/-- The actions whose failure is a failed transfer. -/
def transferActions : List SimulationAction := [.transfer, .transferAfterBuy, .sellAfterTransfer]

/-- Some execution of an action came out this way. -/
def CameOut (executions : List SimulationExecution) (action : SimulationAction) (success : Bool) :
    Prop :=
  ∃ execution ∈ executions, execution.action = action ∧ execution.result.success = success

/-- **Failures are reported**: a sell's beside a buy that succeeded, and that
of each kind of transfer by a finding of its own. -/
def Reported (executions : List SimulationExecution) : Prop :=
  (CameOut executions .buy true → CameOut executions .sell false →
    ∃ f ∈ deriveFindings executions, f.code = .buySucceedsSellFails) ∧
  ∀ action ∈ transferActions, CameOut executions action false →
    ∃ f ∈ deriveFindings executions, f.code = .ordinaryTransferFails ∧
      CameOut f.evidence action false

/-- The same finding, its evidence in whatever order. -/
structure SimulationFinding.Same (f g : SimulationFinding) : Prop where
  code : f.code = g.code
  fails : f.fails = g.fails
  severity : f.severity = g.severity
  explanation : f.explanation = g.explanation
  confidence : f.confidence = g.confidence
  evidence : f.evidence.Perm g.evidence

/-- The same set of findings. -/
def SameFindings (fs gs : List SimulationFinding) : Prop :=
  (∀ f ∈ fs, ∃ g ∈ gs, f.Same g) ∧ ∀ g ∈ gs, ∃ f ∈ fs, f.Same g

/-- All executions of an action are one and the same. -/
def Single (executions : List SimulationExecution) (action : SimulationAction) : Prop :=
  ∀ e ∈ executions, ∀ e' ∈ executions, e.action = action → e'.action = action → e = e'

/-- **Nothing can hide a failure.** -/
def Unmasked (executions : List SimulationExecution) : Prop :=
  (CameOut executions .buy true → CameOut executions .sell false →
    Single executions .buy ∧ Single executions .sell) ∧
  ∀ action ∈ transferActions, CameOut executions action false → Single executions action

/-! ## The last execution of an action -/

theorem CameOut.perm {success : Bool} (hperm : executions.Perm other)
    (h : CameOut executions action success) : CameOut other action success := by
  obtain ⟨e, he, hout⟩ := h
  exact ⟨e, hperm.mem_iff.mp he, hout⟩

/-- Executions that are all one are found in every order. -/
theorem lastOf_of_single (hsingle : Single executions action) (he : execution ∈ executions)
    (haction : execution.action = action) (hperm : executions.Perm other) :
    lastOf other action = some execution := by
  have hmem : execution ∈ other.filter fun e => e.action = action :=
    List.mem_filter.mpr ⟨hperm.mem_iff.mp he, decide_eq_true haction⟩
  obtain ⟨last, hlast⟩ := Option.ne_none_iff_exists'.mp fun hnone =>
    List.ne_nil_of_mem hmem (List.getLast?_eq_none_iff.mp hnone)
  obtain ⟨hin, hof⟩ := @mem_of_lastOf other action last hlast
  rw [lastOf, hlast, hsingle execution he last (hperm.mem_iff.mpr hin) haction hof]

theorem lastOf_append_last (haction : execution.action = action) (before : List SimulationExecution) :
    lastOf (before ++ [execution]) action = some execution := by
  have hkept : ([execution].filter fun e => e.action = action) = [execution] :=
    List.filter_cons_of_pos (decide_eq_true haction)
  rw [lastOf, List.filter_append, hkept, List.getLast?_concat]

/-- **Any execution can come last.** -/
theorem exists_last (he : execution ∈ executions) (haction : execution.action = action) :
    ∃ other, executions.Perm other ∧ lastOf other action = some execution := by
  refine ⟨executions.erase execution ++ [execution], ?_, lastOf_append_last haction _⟩
  exact (List.perm_cons_erase he).trans (List.perm_append_singleton _ _).symm

/-- And so can one of each of two actions. -/
theorem exists_last_two (hbuy : buy ∈ executions) (hsell : sell ∈ executions)
    (hb : buy.action = .buy) (hs : sell.action = .sell) :
    ∃ other, executions.Perm other ∧ lastOf other .buy = some buy ∧
      lastOf other .sell = some sell := by
  have hne : sell ≠ buy := by
    rintro rfl
    rw [hb] at hs
    cases hs
  have hin : sell ∈ executions.erase buy := (List.mem_erase_of_ne hne).mpr hsell
  refine ⟨((executions.erase buy).erase sell ++ [buy]) ++ [sell], ?_, ?_,
    lastOf_append_last hs _⟩
  · have hpair := (List.perm_cons_erase hbuy).trans ((List.perm_cons_erase hin).cons buy)
    refine hpair.trans ?_
    rw [List.append_assoc]
    exact @List.perm_append_comm _ [buy, sell] _
  · have hskip : ([sell].filter fun e => e.action = SimulationAction.buy) = [] := by
      refine List.filter_cons_of_neg ?_
      rw [hs]
      decide
    have hlast := lastOf_append_last hb ((executions.erase buy).erase sell)
    rw [lastOf] at hlast ⊢
    rw [List.filter_append, hskip, List.append_nil, hlast]

/-! ## Findings -/

theorem SimulationFinding.Same.refl (f : SimulationFinding) : f.Same f :=
  ⟨rfl, rfl, rfl, rfl, rfl, List.Perm.refl _⟩

theorem same_finding {code : FindingCode} {severity : Severity} {explanation : String}
    {confidence : FindingConfidence} (hperm : executions.Perm other) :
    (finding code severity explanation executions confidence).Same
      (finding code severity explanation other confidence) :=
  ⟨rfl, rfl, rfl, rfl, rfl, hperm⟩

theorem SameFindings.refl (fs : List SimulationFinding) : SameFindings fs fs :=
  ⟨fun f hf => ⟨f, hf, .refl f⟩, fun g hg => ⟨g, hg, .refl g⟩⟩

theorem SameFindings.append {fs gs fs' gs' : List SimulationFinding} (h : SameFindings fs gs)
    (h' : SameFindings fs' gs') : SameFindings (fs ++ fs') (gs ++ gs') := by
  constructor
  · intro f hf
    rcases List.mem_append.mp hf with hf | hf
    · obtain ⟨g, hg, hsame⟩ := h.1 f hf
      exact ⟨g, List.mem_append_left _ hg, hsame⟩
    · obtain ⟨g, hg, hsame⟩ := h'.1 f hf
      exact ⟨g, List.mem_append_right _ hg, hsame⟩
  · intro g hg
    rcases List.mem_append.mp hg with hg | hg
    · obtain ⟨f, hf, hsame⟩ := h.2 g hg
      exact ⟨f, List.mem_append_left _ hf, hsame⟩
    · obtain ⟨f, hf, hsame⟩ := h'.2 g hg
      exact ⟨f, List.mem_append_right _ hf, hsame⟩

theorem SameFindings.of_mem_iff {fs gs : List SimulationFinding} (h : ∀ f, f ∈ fs ↔ f ∈ gs) :
    SameFindings fs gs :=
  ⟨fun f hf => ⟨f, (h f).mp hf, .refl f⟩, fun g hg => ⟨g, (h g).mpr hg, .refl g⟩⟩

/-- One finding or none, by the same condition. -/
theorem SameFindings.ite {p q : Prop} [Decidable p] [Decidable q] {f g : SimulationFinding}
    (h : p ↔ q) (hsame : f.Same g) :
    SameFindings (if p then [f] else []) (if q then [g] else []) := by
  by_cases hp : p
  · rw [if_pos hp, if_pos (h.mp hp)]
    exact ⟨fun _ hf => ⟨g, List.mem_singleton_self g, List.mem_singleton.mp hf ▸ hsame⟩,
      fun _ hg => ⟨f, List.mem_singleton_self f, List.mem_singleton.mp hg ▸ hsame⟩⟩
  · rw [if_neg hp, if_neg fun hq => hp (h.mpr hq)]
    exact .refl []

theorem same_taxFindings (hperm : executions.Perm other) (action : SimulationAction)
    (code : FindingCode) (explanation : String) :
    SameFindings (taxFindings executions action code explanation)
      (taxFindings other action code explanation) := by
  have hpaid : ((fees executions).filter (·.action = action)).Perm
      ((fees other).filter (·.action = action)) := (hperm.filter _).filter _
  rw [taxFindings, taxFindings]
  refine .ite ?_ (same_finding hpaid)
  rw [Bool.eq_iff_iff.mp (hpaid.any_eq)]

theorem same_dependentTaxFindings (hperm : executions.Perm other) :
    SameFindings (dependentTaxFindings executions) (dependentTaxFindings other) := by
  have hfees : (fees executions).Perm (fees other) := hperm.filter _
  have houtputs : ((fees executions).filterMap tax).Perm ((fees other).filterMap tax) :=
    hfees.filterMap _
  rw [dependentTaxFindings, dependentTaxFindings]
  refine .ite ?_ (same_finding hfees)
  rw [houtputs.length_eq, houtputs.dedup.length_eq]

/-- **Only the two maps can tell orders apart.** -/
theorem same_deriveFindings (hperm : executions.Perm other)
    (hhoneypot : honeypotFindings executions = honeypotFindings other)
    (htransfer : transferFindings executions = transferFindings other) :
    SameFindings (deriveFindings executions) (deriveFindings other) := by
  rw [deriveFindings, deriveFindings, hhoneypot, htransfer]
  refine ((((SameFindings.refl _).append ?_).append ?_).append
    (same_dependentTaxFindings hperm)).append ?_
  · exact same_taxFindings hperm _ _ _
  · exact same_taxFindings hperm _ _ _
  · exact .of_mem_iff fun f => (hperm.flatMap_right _).mem_iff

/-! ## What a last execution gives -/

/-- The finding of an action whose last execution this is. -/
def transferFindingOf (action : SimulationAction) (last : Option SimulationExecution) :
    List SimulationFinding :=
  (last.filter fun execution => !execution.result.success).toList.map fun execution =>
    finding .ordinaryTransferFails .high
      ("The " ++ action.text ++ " path reverted for the disposable account.") [execution] .confirmed

theorem transferFindingOf_failed (h : execution.result.success = false) :
    transferFindingOf action (some execution) = [finding .ordinaryTransferFails .high
      ("The " ++ action.text ++ " path reverted for the disposable account.") [execution]
      .confirmed] := by
  rw [transferFindingOf, Option.filter_some, h]
  rfl

theorem transferFindingOf_succeeded (h : execution.result.success = true) :
    transferFindingOf action (some execution) = [] := by
  rw [transferFindingOf, Option.filter_some, h]
  rfl

theorem transferFindings_eq : transferFindings executions =
    transferActions.flatMap fun action => transferFindingOf action (lastOf executions action) := by
  rw [transferFindings, transferActions]
  refine List.flatMap_congr fun action _ => ?_
  cases lastOf executions action with
  | none => rfl
  | some execution =>
    dsimp only
    cases hsuccess : execution.result.success with
    | true => rw [transferFindingOf_succeeded hsuccess, if_neg (by decide)]
    | false => rw [transferFindingOf_failed hsuccess, if_pos rfl]

theorem honeypotFindings_of_last (hbuy : lastOf executions .buy = some buy)
    (hsell : lastOf executions .sell = some sell) (hbought : buy.result.success = true)
    (hfailed : sell.result.success = false) : honeypotFindings executions =
      [finding .buySucceedsSellFails .critical "Buy succeeded while sell failed." [buy, sell]
        .confirmed] := by
  rw [honeypotFindings, hbuy, hsell]
  exact if_pos ⟨hbought, hfailed⟩

/-- Without both outcomes there is no such finding. -/
theorem honeypotFindings_eq_nil
    (h : ¬ (CameOut executions .buy true ∧ CameOut executions .sell false)) :
    honeypotFindings executions = [] := by
  unfold honeypotFindings
  split
  · rename_i buy sell hbuy hsell
    obtain ⟨hbuymem, hbuyaction⟩ := mem_of_lastOf hbuy
    obtain ⟨hsellmem, hsellaction⟩ := mem_of_lastOf hsell
    refine if_neg fun hboth => h ?_
    exact ⟨⟨buy, hbuymem, hbuyaction, hboth.1⟩, ⟨sell, hsellmem, hsellaction, hboth.2⟩⟩
  · rfl

/-- An honeypot finding that is reported has the last buy and the last sell
as its evidence. -/
theorem honeypot_evidence {f : SimulationFinding} (hf : f ∈ deriveFindings executions)
    (hcode : f.code = .buySucceedsSellFails) :
    ∃ buy sell, lastOf executions .buy = some buy ∧ lastOf executions .sell = some sell ∧
      f.evidence = [buy, sell] := by
  obtain ⟨buy, sell, hbuy, hsell, -, hevidence⟩ :=
    mem_honeypotFindings (honeypot_of_mem hf hcode)
  exact ⟨buy, sell, hbuy, hsell, hevidence⟩

/-- No other finding has the code of a failed transfer. -/
theorem transfer_of_mem {f : SimulationFinding} (hf : f ∈ deriveFindings executions)
    (hcode : f.code = .ordinaryTransferFails) : f ∈ transferFindings executions := by
  simp only [deriveFindings, List.mem_append, List.mem_flatMap] at hf
  rcases hf with ((((h | h) | h) | h) | h) | ⟨execution, -, h⟩
  · unfold honeypotFindings at h
    split at h
    · rw [code_of_mem_ite h] at hcode
      cases hcode
    · cases h
  · exact h
  · rw [code_of_mem_ite h] at hcode
    cases hcode
  · rw [code_of_mem_ite h] at hcode
    cases hcode
  · rw [dependentTaxFindings] at h
    rw [code_of_mem_ite h] at hcode
    cases hcode
  · rcases executionFindings_code h with h | h
    · rw [h] at hcode
      cases hcode
    · rw [h] at hcode
      cases hcode

/-- The evidence of a failed transfer is the last execution of its action. -/
theorem transfer_evidence {f : SimulationFinding} (hf : f ∈ deriveFindings executions)
    (hcode : f.code = .ordinaryTransferFails) :
    ∃ action ∈ transferActions, ∃ execution, lastOf executions action = some execution ∧
      execution.result.success = false ∧ f.evidence = [execution] := by
  have hmem := transfer_of_mem hf hcode
  rw [transferFindings_eq] at hmem
  obtain ⟨action, haction, hin⟩ := List.mem_flatMap.mp hmem
  cases hlast : lastOf executions action with
  | none =>
    rw [hlast] at hin
    cases hin
  | some execution =>
    rw [hlast] at hin
    cases hsuccess : execution.result.success with
    | true =>
      rw [transferFindingOf_succeeded hsuccess] at hin
      cases hin
    | false =>
      rw [transferFindingOf_failed hsuccess] at hin
      exact ⟨action, haction, execution, hlast, hsuccess,
        by rw [List.mem_singleton.mp hin, finding]⟩

theorem mem_deriveFindings {f : SimulationFinding}
    (h : f ∈ honeypotFindings executions ∨ f ∈ transferFindings executions) :
    f ∈ deriveFindings executions := by
  simp only [deriveFindings, List.mem_append]
  rcases h with h | h
  · exact .inl (.inl (.inl (.inl (.inl h))))
  · exact .inl (.inl (.inl (.inl (.inr h))))

theorem exists_transferFinding (haction : action ∈ transferActions)
    (hlast : lastOf executions action = some execution) (hfailed : execution.result.success = false) :
    ∃ f ∈ deriveFindings executions, f.code = .ordinaryTransferFails ∧ f.evidence = [execution] := by
  have hmem : finding .ordinaryTransferFails .high
      ("The " ++ action.text ++ " path reverted for the disposable account.") [execution]
      .confirmed ∈ transferFindings executions := by
    rw [transferFindings_eq]
    refine List.mem_flatMap.mpr ⟨action, haction, ?_⟩
    rw [hlast, transferFindingOf_failed hfailed]
    exact List.mem_singleton_self _
  exact ⟨_, mem_deriveFindings (.inr hmem), rfl, rfl⟩

theorem exists_honeypotFinding (hbuy : lastOf executions .buy = some buy)
    (hsell : lastOf executions .sell = some sell) (hbought : buy.result.success = true)
    (hfailed : sell.result.success = false) :
    ∃ f ∈ deriveFindings executions, f.code = .buySucceedsSellFails ∧
      f.evidence = [buy, sell] := by
  have hmem : finding .buySucceedsSellFails .critical "Buy succeeded while sell failed."
      [buy, sell] .confirmed ∈ honeypotFindings executions := by
    rw [honeypotFindings_of_last hbuy hsell hbought hfailed]
    exact List.mem_singleton_self _
  exact ⟨_, mem_deriveFindings (.inl hmem), rfl, rfl⟩

/-! ## The verdict of every order -/

/-- The two maps give the same in every order. -/
theorem honeypotFindings_perm (h : CameOut executions .buy true → CameOut executions .sell false →
      Single executions .buy ∧ Single executions .sell) (hperm : executions.Perm other) :
    honeypotFindings executions = honeypotFindings other := by
  by_cases hboth : CameOut executions .buy true ∧ CameOut executions .sell false
  · obtain ⟨hbuys, hsells⟩ := h hboth.1 hboth.2
    obtain ⟨⟨buy, hbuy, hb, hbought⟩, ⟨sell, hsell, hs, hfailed⟩⟩ := hboth
    have hself := List.Perm.refl executions
    rw [honeypotFindings_of_last (lastOf_of_single hbuys hbuy hb hself)
        (lastOf_of_single hsells hsell hs hself) hbought hfailed,
      honeypotFindings_of_last (lastOf_of_single hbuys hbuy hb hperm)
        (lastOf_of_single hsells hsell hs hperm) hbought hfailed]
  · have hother : ¬ (CameOut other .buy true ∧ CameOut other .sell false) :=
      fun h => hboth ⟨h.1.perm hperm.symm, h.2.perm hperm.symm⟩
    rw [honeypotFindings_eq_nil hboth, honeypotFindings_eq_nil hother]

theorem transferFindings_perm
    (h : ∀ action ∈ transferActions, CameOut executions action false → Single executions action)
    (hperm : executions.Perm other) : transferFindings executions = transferFindings other := by
  rw [transferFindings_eq, transferFindings_eq]
  refine List.flatMap_congr fun action haction => ?_
  by_cases hfailed : CameOut executions action false
  · have hsingle := h action haction hfailed
    obtain ⟨e, he, hof, -⟩ := hfailed
    rw [lastOf_of_single hsingle he hof (List.Perm.refl _), lastOf_of_single hsingle he hof hperm]
  · have hnone : ∀ {l : List SimulationExecution}, l.Perm executions →
        transferFindingOf action (lastOf l action) = [] := by
      intro l hl
      cases hlast : lastOf l action with
      | none => rfl
      | some e =>
        obtain ⟨hmem, hof⟩ := mem_of_lastOf hlast
        cases hsuccess : e.result.success with
        | true => exact transferFindingOf_succeeded hsuccess
        | false => exact absurd ⟨e, hl.mem_iff.mp hmem, hof, hsuccess⟩ hfailed
    rw [hnone (List.Perm.refl _), hnone hperm.symm]

/-- **Failures are reported, in every order alike, exactly if nothing can
hide one.** -/
theorem unmasked_iff (executions : List SimulationExecution) :
    (Reported executions ∧ ∀ other, executions.Perm other →
      SameFindings (deriveFindings executions) (deriveFindings other)) ↔ Unmasked executions := by
  constructor
  · rintro ⟨-, hsame⟩
    refine ⟨?_, ?_⟩
    · rintro ⟨buy, hbuy, hb, hbought⟩ ⟨sell, hsell, hs, hfailed⟩
      -- the orders that end in another buy and sell have the finding with these two
      have hlast : ∀ b ∈ executions, ∀ s ∈ executions, b.action = .buy → s.action = .sell →
          [buy, sell].Perm [b, s] := by
        intro b hbin s hsin hbof hsof
        obtain ⟨first, hfirst, hlastbuy, hlastsell⟩ := exists_last_two hbuy hsell hb hs
        obtain ⟨second, hsecond, hotherbuy, hothersell⟩ := exists_last_two hbin hsin hbof hsof
        obtain ⟨f, hf, hcode, hevidence⟩ :=
          exists_honeypotFinding hlastbuy hlastsell hbought hfailed
        obtain ⟨g, hg, hgsame⟩ := (hsame first hfirst).2 f hf
        obtain ⟨k, hk, hksame⟩ := (hsame second hsecond).1 g hg
        obtain ⟨b', s', hb', hs', hev⟩ :=
          honeypot_evidence hk (hksame.code.symm.trans (hgsame.code.trans hcode))
        rw [hotherbuy] at hb'
        rw [hothersell] at hs'
        obtain rfl := Option.some.inj hb'
        obtain rfl := Option.some.inj hs'
        have hperm := hgsame.evidence.symm.trans hksame.evidence
        rwa [hevidence, hev] at hperm
      have heq : ∀ b ∈ executions, ∀ s ∈ executions, b.action = .buy → s.action = .sell →
          b = buy ∧ s = sell := by
        intro b hbin s hsin hbof hsof
        have hmem := (hlast b hbin s hsin hbof hsof)
        have hbmem : b ∈ [buy, sell] := hmem.symm.mem_iff.mp List.mem_cons_self
        have hsmem : s ∈ [buy, sell] :=
          hmem.symm.mem_iff.mp (List.mem_cons_of_mem _ (List.mem_singleton_self s))
        simp only [List.mem_cons, List.not_mem_nil, or_false] at hbmem hsmem
        constructor
        · rcases hbmem with rfl | rfl
          · rfl
          · rw [hbof] at hs
            cases hs
        · rcases hsmem with rfl | rfl
          · rw [hsof] at hb
            cases hb
          · rfl
      constructor
      · intro e he e' he' hof hof'
        rw [(heq e he sell hsell hof hs).1, (heq e' he' sell hsell hof' hs).1]
      · intro e he e' he' hof hof'
        rw [(heq buy hbuy e he hb hof).2, (heq buy hbuy e' he' hb hof').2]
    · rintro action haction ⟨failed, hin, hof, hfailed⟩
      -- the same with the order that ends in any other execution of the action
      have heq : ∀ e ∈ executions, e.action = action → e = failed := by
        intro e he heof
        obtain ⟨first, hfirst, hlast⟩ := exists_last hin hof
        obtain ⟨second, hsecond, hother⟩ := exists_last he heof
        obtain ⟨f, hf, hcode, hevidence⟩ := exists_transferFinding haction hlast hfailed
        obtain ⟨g, hg, hgsame⟩ := (hsame first hfirst).2 f hf
        obtain ⟨k, hk, hksame⟩ := (hsame second hsecond).1 g hg
        obtain ⟨action', -, last, hlast', -, hev⟩ :=
          transfer_evidence hk (hksame.code.symm.trans (hgsame.code.trans hcode))
        have hperm := hgsame.evidence.symm.trans hksame.evidence
        rw [hevidence, hev] at hperm
        obtain rfl : failed = last := List.singleton_inj.mp (List.singleton_perm_singleton.mp hperm ▸ rfl)
        obtain ⟨-, hof'⟩ := mem_of_lastOf hlast'
        obtain rfl := hof.symm.trans hof'
        rw [hother] at hlast'
        exact Option.some.inj hlast'
      intro e he e' he' heof heof'
      rw [heq e he heof, heq e' he' heof']
  · rintro ⟨hpair, htransfers⟩
    refine ⟨⟨?_, ?_⟩, fun other hperm => same_deriveFindings hperm
      (honeypotFindings_perm hpair hperm) (transferFindings_perm htransfers hperm)⟩
    · intro hbought hfailed
      obtain ⟨hbuys, hsells⟩ := hpair hbought hfailed
      obtain ⟨buy, hbuy, hb, hok⟩ := hbought
      obtain ⟨sell, hsell, hs, hfails⟩ := hfailed
      obtain ⟨f, hf, hcode, -⟩ := exists_honeypotFinding
        (lastOf_of_single hbuys hbuy hb (List.Perm.refl _))
        (lastOf_of_single hsells hsell hs (List.Perm.refl _)) hok hfails
      exact ⟨f, hf, hcode⟩
    · intro action haction hfailed
      have hsingle := htransfers action haction hfailed
      obtain ⟨e, he, hof, hfails⟩ := hfailed
      obtain ⟨f, hf, hcode, hevidence⟩ := exists_transferFinding haction
        (lastOf_of_single hsingle he hof (List.Perm.refl _)) hfails
      exact ⟨f, hf, hcode, e, hevidence ▸ List.mem_singleton_self e, hof, hfails⟩

/-- An execution of an action, with nothing read. -/
def plainExecution (action : SimulationAction) (success : Bool) : SimulationExecution where
  tokenAddress := ⟨1⟩
  action := action
  result := ⟨success, none, none, none, [], []⟩
  expectedOutputRaw := none
  warnings := []
  hypothetical := false

/-- **A sell that fails first and succeeds then is not reported.** -/
theorem not_reported_retriedSell :
    ¬ (Reported [plainExecution .buy true, plainExecution .sell false, plainExecution .sell true] ∧
      ∀ other, List.Perm
          [plainExecution .buy true, plainExecution .sell false, plainExecution .sell true] other →
        SameFindings (deriveFindings
          [plainExecution .buy true, plainExecution .sell false, plainExecution .sell true])
          (deriveFindings other)) := by
  rintro ⟨⟨hreported, -⟩, -⟩
  have hnone : deriveFindings
      [plainExecution .buy true, plainExecution .sell false, plainExecution .sell true] = [] := by
    decide
  obtain ⟨f, hf, -⟩ := hreported ⟨plainExecution .buy true, by decide, rfl, rfl⟩
    ⟨plainExecution .sell false, by decide, rfl, rfl⟩
  rw [hnone] at hf
  cases hf

end Simulation

end HoodSentry
