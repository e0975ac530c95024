import HoodSentry.Indexer.PrunedFacts
/-!
# The findings a clean-up keeps

The clean-up keeps the findings of one run for each address of its chain,
the latest canonical one, and deletes every other finding it is shown. A
run is served by its target, of which an address can have several, and
once it has an answer, which the latest run need not have.
-/

namespace HoodSentry

/-! ## Runs -/

/-- The run ended with findings. -/
def ScanRunStatus.Answered (s : ScanRunStatus) : Prop := s = .completed ∨ s = .incomplete
deriving Decidable

namespace PrunableDb

variable (s : PrunableDb)

/-- A canonical run of a chain. -/
def CanonicalRun (chainId : ℕ) (r : ScanRunRow) : Prop :=
  r ∈ s.riskScanRuns ∧ r.chainId = chainId ∧ r.canonical = true

/-- **The run that is served**: of a target's canonical runs with findings
the most recent. -/
structure ServedRun (chainId : ℕ) (r : ScanRunRow) : Prop where
  run : s.CanonicalRun chainId r
  answered : r.status.Answered
  latest : ∀ r', s.CanonicalRun chainId r' → r'.status.Answered →
    r'.targetType = r.targetType → r'.targetAddress = r.targetAddress →
    r.createdBefore r' = false

/-- A later canonical run of the chain is at the same address. -/
def Overtaken (chainId : ℕ) (r : ScanRunRow) : Prop :=
  ∃ r', s.CanonicalRun chainId r' ∧ r'.targetAddress = r.targetAddress ∧
    r.createdBefore r' = true

/-- **A clean-up keeps the served evidence.** -/
structure KeepsServedEvidence (chainId : ℕ) (findings : Table StoredFinding.id) : Prop where
  elsewhere : ∀ f ∈ s.riskFindings, s.FindingElsewhere chainId f → f ∈ findings
  served : ∀ r, s.ServedRun chainId r → ∀ f ∈ s.riskFindings, f.scanRunId = r.id → f ∈ findings
  /-- And nothing is made up. -/
  stored : ∀ f ∈ findings, f ∈ s.riskFindings

/-! ## The runs it keeps -/

variable {s} {chainId : ℕ} {o : RetentionOptions} {r : ScanRunRow} {f : StoredFinding}

theorem mem_latestRuns :
    r ∈ latestRuns chainId s.riskScanRuns ↔
      s.CanonicalRun chainId r ∧ ¬s.Overtaken chainId r := by
  have hcanonical : ∀ x, x ∈ s.riskScanRuns.rows.filter (fun r => r.chainId = chainId && r.canonical)
      ↔ s.CanonicalRun chainId x := by
    intro x
    rw [List.mem_filter, Bool.and_eq_true, decide_eq_true_iff]
    exact Iff.rfl
  rw [latestRuns, List.mem_filter, hcanonical, List.all_eq_true]
  refine and_congr_right fun _ => ?_
  constructor
  · rintro hall ⟨r', hr', haddress, hlater⟩
    have hnot := hall r' ((hcanonical r').mpr hr')
    rw [decide_eq_true haddress, hlater] at hnot
    exact Bool.false_ne_true hnot
  · intro hlast r' hr'
    by_contra hnot
    rw [Bool.not_eq_true, Bool.not_eq_false', Bool.and_eq_true, decide_eq_true_iff] at hnot
    exact hlast ⟨r', (hcanonical r').mp hr', hnot⟩

/-- **A finding stays** where its run is one of the latest. -/
theorem superseded_eq_false :
    superseded chainId s.riskScanRuns f = false ↔
      ∃ r, s.CanonicalRun chainId r ∧ ¬s.Overtaken chainId r ∧ r.id = f.scanRunId := by
  rw [superseded, List.all_eq_false]
  refine exists_congr fun r => ?_
  rw [mem_latestRuns, and_assoc, decide_eq_true_iff, not_ne_iff]

/-- A finding of another chain's run stays nowhere. -/
theorem superseded_of_elsewhere (h : s.FindingElsewhere chainId f) :
    superseded chainId s.riskScanRuns f = true := by
  obtain ⟨run, hrun, hid, hchain⟩ := h
  rw [← Bool.not_eq_false]
  intro hkept
  obtain ⟨r, hr, -, heq⟩ := superseded_eq_false.mp hkept
  have hsame : run = r := Table.eq_of_key_eq hrun hr.1 (hid.trans heq.symm)
  exact hchain (hsame ▸ hr.2.1)

/-- A finding of a run that has not been overtaken stays, one of a run that
has been does not. -/
theorem superseded_iff_overtaken (hr : s.CanonicalRun chainId r) (hf : f.scanRunId = r.id) :
    superseded chainId s.riskScanRuns f = true ↔ s.Overtaken chainId r := by
  rw [← Bool.not_eq_false, superseded_eq_false, not_iff_comm]
  constructor
  · exact fun hlast => ⟨r, hr, hlast, hf.symm⟩
  · rintro ⟨x, hx, hlast, hid⟩
    have hsame : x = r := Table.eq_of_key_eq hx.1 hr.1 (hid.trans hf)
    exact hsame ▸ hlast

/-! ## When it keeps the evidence -/

/-- **The clean-up keeps the served evidence exactly when** no finding is
of another chain, and no later canonical run stands at the address of a
served run with findings. -/
theorem keepsServedEvidence_iff (hbatch : 0 < o.deleteBatchSize) :
    s.KeepsServedEvidence chainId
        (pruneSupersededFindings o chainId s.riskScanRuns none s.riskFindings) ↔
      (∀ f ∈ s.riskFindings, ¬s.FindingElsewhere chainId f) ∧
        ∀ r, s.ServedRun chainId r → (∃ f ∈ s.riskFindings, f.scanRunId = r.id) →
          ¬s.Overtaken chainId r := by
  have hmem : ∀ f, f ∈ pruneSupersededFindings o chainId s.riskScanRuns none s.riskFindings ↔
      f ∈ s.riskFindings ∧ superseded chainId s.riskScanRuns f = false := by
    intro f
    have hleft : pruneSupersededFindings o chainId s.riskScanRuns none s.riskFindings =
        s.riskFindings.deleteWhere (superseded chainId s.riskScanRuns) :=
      deleteLoop_eq (isPass_batch _ _) hbatch (Nat.lt_succ_self _)
    rw [hleft]
    exact Table.mem_deleteWhere
  constructor
  · rintro ⟨helse, hserved, -⟩
    constructor
    · intro f hf hother
      have hkept := ((hmem f).mp (helse f hf hother)).2
      exact Bool.false_ne_true (hkept.symm.trans (superseded_of_elsewhere hother))
    · rintro r hr ⟨f, hf, hrun⟩ hovertaken
      have hkept := ((hmem f).mp (hserved r hr f hf hrun)).2
      have hgone := (superseded_iff_overtaken hr.run hrun).mpr hovertaken
      exact Bool.false_ne_true (hkept.symm.trans hgone)
  · rintro ⟨helse, hlast⟩
    refine ⟨fun f hf hother => absurd hother (helse f hf), fun r hr f hf hrun => ?_,
      fun f hf => ((hmem f).mp hf).1⟩
    refine (hmem f).mpr ⟨hf, Bool.eq_false_iff.mpr fun hgone => ?_⟩
    exact hlast r hr ⟨f, hf, hrun⟩ ((superseded_iff_overtaken hr.run hrun).mp hgone)

/-! ## Sample clean-ups -/

/-- A completed scan of the token at an address of a chain. -/
def completedRun (chainId : ℕ) : ScanRunRow :=
  ⟨chainId, chainId, .token, "0x07", true, .completed, 10⟩

/-- The scan on a chain, with its finding. -/
def withFinding (chainId : ℕ) : PrunableDb where
  toRetentionDb := .sample
  discoverySnapshots := ∅
  riskScanRuns := Table.empty.insertAll [completedRun chainId]
  riskFindings := Table.empty.insertAll [⟨1, chainId, "mintable"⟩]

/-- The clean-up of the scan's own chain keeps the finding. -/
theorem keepsServedEvidence_of_own :
    (withFinding 1).KeepsServedEvidence 1
      (pruneSupersededFindings .sample 1 (withFinding 1).riskScanRuns none
        (withFinding 1).riskFindings) := by
  have hruns : ∀ r ∈ (withFinding 1).riskScanRuns.rows, r = completedRun 1 := by decide
  refine (keepsServedEvidence_iff (by decide)).mpr ⟨?_, ?_⟩
  · rintro f - ⟨run, hrun, -, hchain⟩
    rw [hruns run hrun] at hchain
    exact hchain rfl
  · rintro r hr - ⟨r', hr', -, hlater⟩
    rw [hruns r hr.run.1, hruns r' hr'.1] at hlater
    exact Bool.false_ne_true hlater

/-- **The clean-up of another chain deletes it.** -/
theorem not_keepsServedEvidence :
    ¬∀ (o : RetentionOptions) (chainId : ℕ) (s : PrunableDb), 0 < o.deleteBatchSize →
      s.KeepsServedEvidence chainId
        (pruneSupersededFindings o chainId s.riskScanRuns none s.riskFindings) := by
  intro h
  let f : StoredFinding := ⟨1, 2, "mintable"⟩
  have hstored : f ∈ (withFinding 2).riskFindings := by decide +kernel
  have hgone : f ∉ pruneSupersededFindings .sample 1 (withFinding 2).riskScanRuns none
      (withFinding 2).riskFindings := by decide +kernel
  have hother : (withFinding 2).FindingElsewhere 1 f :=
    ⟨completedRun 2, by decide +kernel, rfl, by decide⟩
  exact hgone ((h .sample 1 (withFinding 2) (by decide)).elsewhere f hstored hother)

end PrunableDb

end HoodSentry
