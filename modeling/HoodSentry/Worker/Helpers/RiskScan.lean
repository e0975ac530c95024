import HoodSentry.Worker.Model.RiskScan
/-!
# What the risk scan job's statements do

The status of a run as the statements see and give it, the effects an
await can have, and the invariant of the attempts on a run: it is claimed
by one of them at most, and running while it is.
-/

namespace HoodSentry

/-! ## Where a run stands -/

namespace RiskTables

variable {t t' : RiskTables} {k k' : ScanRunKey} {status status' : ScanRunStatus}

theorem mem_keys_iff : k ∈ t.runs.keys ↔ ∃ status, t.Stands k status := by
  constructor
  · intro hk
    obtain ⟨r, hr, rfl⟩ := Table.mem_keys.mp hk
    exact ⟨r.status, r, hr, rfl, rfl⟩
  · rintro ⟨status, r, hr, rfl, -⟩
    exact Table.key_mem_keys hr

/-- A run has one status. -/
theorem Stands.eq (h : t.Stands k status) (h' : t.Stands k status') : status = status' := by
  obtain ⟨r, hr, hk, rfl⟩ := h
  obtain ⟨r', hr', hk', rfl⟩ := h'
  rw [Table.eq_of_key_eq hr hr' (hk.trans hk'.symm)]

/-- **A statement gives a run its status** and leaves the other runs
theirs. -/
def Gives (t t' : RiskTables) (k : ScanRunKey) (status : ScanRunStatus) : Prop :=
  ∀ k' status', t'.Stands k' status' ↔ if k' = k then status' = status else t.Stands k' status'

theorem Gives.stands (h : Gives t t' k status) : t'.Stands k status :=
  (h k status).mpr (by rw [if_pos rfl])

/-- What stands at another status is another run, and stood there. -/
theorem Gives.of_ne (h : Gives t t' k status) (hs : t'.Stands k' status') (hne : status' ≠ status) :
    k' ≠ k ∧ t.Stands k' status' := by
  have hcase := (h k' status').mp hs
  by_cases hk : k' = k
  · rw [if_pos hk] at hcase
    exact absurd hcase hne
  · rw [if_neg hk] at hcase
    exact ⟨hk, hcase⟩

theorem Gives.other (h : Gives t t' k status) (hk : k' ≠ k) :
    t'.Stands k' status' ↔ t.Stands k' status' := by
  rw [h k' status', if_neg hk]

/-- A fresh row gives its run its status. -/
theorem gives_insert {row : RiskScanRun} (hfree : row.idempotencyKey ∉ t.runs.keys) :
    Gives t { t with runs := t.runs.insertNew row } row.idempotencyKey row.status := by
  intro k' status'
  have hrows : (t.runs.insertNew row).rows = t.runs.rows ++ [row] := Table.rows_insertNew hfree
  have hstands : RiskTables.Stands { t with runs := t.runs.insertNew row } k' status' ↔
      t.Stands k' status' ∨ row.idempotencyKey = k' ∧ row.status = status' := by
    simp only [Stands, hrows, List.mem_append, List.mem_singleton, or_and_right, exists_or,
      exists_eq_left]
  rw [hstands]
  by_cases hk : k' = row.idempotencyKey
  · rw [if_pos hk]
    constructor
    · rintro (h | ⟨-, h⟩)
      · exact absurd (mem_keys_iff.mpr ⟨_, hk ▸ h⟩) hfree
      · exact h.symm
    · intro h
      exact Or.inr ⟨hk.symm, h.symm⟩
  · rw [if_neg hk]
    exact or_iff_left fun h => hk h.1.symm

/-- Where runs stand after an update. -/
theorem stands_updateRun {p : RiskScanRun → Bool} {f : RiskScanRun → RiskScanRun}
    {hf : ∀ r, (f r).idempotencyKey = r.idempotencyKey} :
    (t.updateRun p f hf).Stands k status ↔ ∃ r ∈ t.runs.rows, r.idempotencyKey = k ∧
      (if p r then f r else r).status = status := by
  have hkey : ∀ r, (if p r then f r else r).idempotencyKey = r.idempotencyKey := by
    intro r
    split
    · exact hf r
    · rfl
  constructor
  · rintro ⟨r, hr, hk, hs⟩
    obtain ⟨old, hold, rfl⟩ := List.mem_map.mp hr
    exact ⟨old, hold, (hkey old).symm.trans hk, hs⟩
  · rintro ⟨r, hr, hk, hs⟩
    exact ⟨_, List.mem_map_of_mem hr, (hkey r).trans hk, hs⟩

/-- An update of the run's row gives it the status it sets. -/
theorem gives_updateRun {p : RiskScanRun → Bool} {f : RiskScanRun → RiskScanRun}
    (hf : ∀ r, (f r).idempotencyKey = r.idempotencyKey) (hk : k ∈ t.runs.keys)
    (hp : ∀ r ∈ t.runs.rows, p r = true ↔ r.idempotencyKey = k)
    (hstatus : ∀ r, (f r).status = status) :
    Gives t (t.updateRun p f hf) k status := by
  intro k' status'
  rw [stands_updateRun]
  by_cases hkey : k' = k
  · rw [if_pos hkey]
    constructor
    · rintro ⟨r, hr, hrk, rfl⟩
      rw [if_pos ((hp r hr).mpr (hrk.trans hkey)), hstatus]
    · rintro rfl
      obtain ⟨r, hr, hrk⟩ := Table.mem_keys.mp hk
      exact ⟨r, hr, hrk.trans hkey.symm, by rw [if_pos ((hp r hr).mpr hrk), hstatus]⟩
  · rw [if_neg hkey]
    have hmiss : ∀ r ∈ t.runs.rows, r.idempotencyKey = k' → ¬p r = true :=
      fun r hr hrk hpr => hkey (hrk.symm.trans ((hp r hr).mp hpr))
    constructor
    · rintro ⟨r, hr, hrk, hs⟩
      rw [if_neg (hmiss r hr hrk)] at hs
      exact ⟨r, hr, hrk, hs⟩
    · rintro ⟨r, hr, hrk, hs⟩
      exact ⟨r, hr, hrk, by rw [if_neg (hmiss r hr hrk), hs]⟩

/-- A settled run has the status of its result. -/
theorem gives_settle {result : RiskScanResult} (hk : k ∈ t.runs.keys) :
    Gives t (t.settle k result) k result.status.runStatus :=
  gives_updateRun (by exact fun _ => rfl) hk (fun r _ => decide_eq_true_iff) fun _ => rfl

/-- A cancellation request leaves every status. -/
theorem stands_requestCancellation {p : RiskScanRun → Bool} :
    (t.updateRun p (fun r => { r with cancellationRequested := true }) fun _ => rfl).Stands k status ↔
      t.Stands k status := by
  have hsame : ∀ r : RiskScanRun,
      (if p r then { r with cancellationRequested := true } else r).status = r.status := by
    intro r
    split <;> rfl
  simp only [stands_updateRun, hsame]
  exact Iff.rfl

end RiskTables

namespace RiskScanJob

variable (job : RiskScanJob)

/-- The run an attempt has claimed. -/
def claimedBy : Progress ScanAttempt ScanReturn → Option ScanRunKey
  | .running a => job.claimed a.phase
  | _ => none

@[simp] theorem claimedBy_running {a : ScanAttempt} :
    job.claimedBy (.running a) = job.claimed a.phase := rfl

/-! ## What an await can do -/

/-- The phases a read or the scan leads to. -/
def LeadsTo (context : RiskScanContext) (phase : ScanPhase) : Prop :=
  (∃ aborted, phase = .getActiveSuppressions context aborted) ∨
    (∃ aborted suppressions, phase = .scan context aborted suppressions) ∨
    (∃ result, phase = .insertFindings context result ∧
      (result.findings.map (·.fingerprint)).Nodup ∧
      calculateRiskScore result.findings job.resolved.rules job.resolved.ruleset
        result.completeness = some result.score) ∨
    phase = .reportFailure context

/-- They keep the claim. -/
theorem LeadsTo.claimed {context : RiskScanContext} {phase : ScanPhase}
    (h : job.LeadsTo context phase) : job.claimed phase = some (job.idempotencyKey context) := by
  rcases h with ⟨_, rfl⟩ | ⟨_, _, rfl⟩ | ⟨_, rfl, -⟩ | rfl <;> rfl

/-- **The effects of an await**, one constructor for each. -/
inductive Effect (t : RiskTables) (a : ScanAttempt) :
    RiskTables → Progress ScanAttempt ScanReturn → Prop
  /-- Before the claim, or turned away by it. -/
  | unclaimed {n : Progress ScanAttempt ScanReturn} (h : job.claimed a.phase = none)
      (hn : job.claimedBy n = none) : Effect t a t n
  | inserted {context : RiskScanContext} (h : a.phase = .claimInsert context)
      (hfree : job.idempotencyKey context ∉ t.runs.keys) :
      Effect t a { t with runs := t.runs.insertNew (job.claim a.input context) }
        (.running { a with phase := .isScanCancellationRequested context })
  | reclaimed {context : RiskScanContext} {t' : RiskTables} (h : a.phase = .claimUpdate context)
      (hfailed : t.Stands (job.idempotencyKey context) .failed)
      (hgives : t.Gives t' (job.idempotencyKey context) .running)
      (hfindings : t'.findings = t.findings) (hscores : t'.scores = t.scores)
      (hsettled : t'.settledBy = t.settledBy) :
      Effect t a t' (.running { a with phase := .isScanCancellationRequested context })
  /-- Reads and the scan itself. -/
  | held {context : RiskScanContext} {a' : ScanAttempt}
      (h : job.claimed a.phase = some (job.idempotencyKey context))
      (hrunning : ∀ context, a.phase ≠ .reportFailure context)
      (h' : job.LeadsTo context a'.phase) : Effect t a t (.running a')
  | findings {context : RiskScanContext} {result : RiskScanResult}
      (h : a.phase = .insertFindings context result) :
      Effect t a
        { t with
          findings := t.findings.insertAll
            (result.findings.map (findingRecord (job.idempotencyKey context))) }
        (.running { a with phase := .insertScore context result })
  | score {context : RiskScanContext} {result : RiskScanResult}
      (h : a.phase = .insertScore context result) :
      Effect t a
        { t with scores := t.scores.put (scoreRecord (job.idempotencyKey context) result) }
        (.running { a with phase := .updateScanRun context result })
  | settled {context : RiskScanContext} {result : RiskScanResult} {t' : RiskTables}
      {r : ScanReturn} (h : a.phase = .updateScanRun context result)
      (hgives : job.idempotencyKey context ∈ t.runs.keys →
        t.Gives t' (job.idempotencyKey context) result.status.runStatus)
      (hfindings : t'.findings = t.findings) (hscores : t'.scores = t.scores)
      (hsettled : t'.settledBy =
        Function.update t.settledBy (job.idempotencyKey context) (some result)) :
      Effect t a t' (.returned r)
  | failed {context : RiskScanContext} {t' : RiskTables} (h : a.phase = .reportFailure context)
      (hgives : job.idempotencyKey context ∈ t.runs.keys →
        t.Gives t' (job.idempotencyKey context) .failed)
      (hfindings : t'.findings = t.findings) (hscores : t'.scores = t.scores)
      (hsettled : t'.settledBy = t.settledBy) : Effect t a t' .threw

variable {job} {t t' : RiskTables} {a : ScanAttempt} {c : ScanCall}
variable {n : Progress ScanAttempt ScanReturn}

/-- After the scan stands an insert of its findings, or the `catch`. -/
theorem scanned_cases {context : RiskScanContext} {suppressions : List RiskSuppression}
    {execute : RiskRule → RuleExecution} {cancelled : Bool} :
    (∃ result, job.scanned context (context.scan job.resolved job.orchestratorVersion suppressions
        execute cancelled) = .insertFindings context result ∧
      (result.findings.map (·.fingerprint)).Nodup ∧
      calculateRiskScore result.findings job.resolved.rules job.resolved.ruleset
        result.completeness = some result.score) ∨
    job.scanned context (context.scan job.resolved job.orchestratorVersion suppressions
      execute cancelled) = .reportFailure context := by
  cases hresult : context.scan job.resolved job.orchestratorVersion suppressions execute
      cancelled with
  | none => exact Or.inr rfl
  | some result =>
    by_cases hversion : result.engineVersion = job.engineVersion
    · left
      refine ⟨result, ?_, RiskScanContext.fingerprints_scan hresult,
        (RiskScanContext.findings_scan hresult).2.1⟩
      rw [scanned, if_neg (not_not.mpr hversion)]
    · right
      rw [scanned, if_pos hversion]

/-- **Every await has one of these effects.** -/
theorem Effect.of_call (h : job.call t a c = some (t', n)) : job.Effect t a t' n := by
  cases c with
  | loadContext context =>
    simp only [call] at h
    split at h
    · rename_i hphase
      split at h
      · obtain ⟨rfl, rfl⟩ := Prod.mk.inj (Option.some.inj h)
        exact .unclaimed (by rw [hphase]; rfl) rfl
      · obtain ⟨rfl, rfl⟩ := Prod.mk.inj (Option.some.inj h)
        exact .unclaimed (by rw [hphase]; rfl) rfl
    · exact absurd h (by simp)
  | insertRulesetVersion =>
    simp only [call] at h
    split at h
    · rename_i hphase
      obtain ⟨rfl, rfl⟩ := Prod.mk.inj (Option.some.inj h)
      exact .unclaimed (by rw [hphase]; rfl) rfl
    · exact absurd h (by simp)
  | claimInsert =>
    simp only [call] at h
    split at h
    · rename_i hphase
      split at h
      · obtain ⟨rfl, rfl⟩ := Prod.mk.inj (Option.some.inj h)
        exact .unclaimed (by rw [hphase]; rfl) rfl
      · rename_i hfree
        obtain ⟨rfl, rfl⟩ := Prod.mk.inj (Option.some.inj h)
        exact .inserted hphase hfree
    · exact absurd h (by simp)
  | claimUpdate =>
    simp only [call] at h
    split at h
    · rename_i context hphase
      split at h
      · rename_i hfailed
        obtain ⟨rfl, rfl⟩ := Prod.mk.inj (Option.some.inj h)
        refine .reclaimed hphase hfailed (RiskTables.gives_updateRun (by exact fun _ => rfl)
          (RiskTables.mem_keys_iff.mpr ⟨_, hfailed⟩) (fun r hr => ?_) fun _ => rfl) rfl rfl rfl
        simp only [Bool.and_eq_true, decide_eq_true_eq, and_iff_left_iff_imp]
        intro hk
        exact RiskTables.Stands.eq ⟨r, hr, hk, rfl⟩ hfailed
      · obtain ⟨rfl, rfl⟩ := Prod.mk.inj (Option.some.inj h)
        exact .unclaimed (by rw [hphase]; rfl) rfl
    · exact absurd h (by simp)
  | claimSelect =>
    simp only [call] at h
    split at h
    · rename_i hphase
      split at h
      · obtain ⟨rfl, rfl⟩ := Prod.mk.inj (Option.some.inj h)
        exact .unclaimed (by rw [hphase]; rfl) rfl
      · obtain ⟨rfl, rfl⟩ := Prod.mk.inj (Option.some.inj h)
        exact .unclaimed (by rw [hphase]; rfl) rfl
    · exact absurd h (by simp)
  | isScanCancellationRequested aborted =>
    simp only [call] at h
    split at h
    · rename_i context hphase
      obtain ⟨rfl, rfl⟩ := Prod.mk.inj (Option.some.inj h)
      exact .held (by rw [hphase]; rfl) (by simp [hphase])
        (Or.inl ⟨_, rfl⟩)
    · exact absurd h (by simp)
  | getActiveSuppressions suppressions =>
    simp only [call] at h
    split at h
    · rename_i context aborted hphase
      obtain ⟨rfl, rfl⟩ := Prod.mk.inj (Option.some.inj h)
      exact .held (by rw [hphase]; rfl) (by simp [hphase])
        (Or.inr (Or.inl ⟨_, _, rfl⟩))
    · exact absurd h (by simp)
  | scan execute aborted' =>
    simp only [call] at h
    split at h
    · rename_i context aborted suppressions hphase
      obtain ⟨rfl, rfl⟩ := Prod.mk.inj (Option.some.inj h)
      exact .held (by rw [hphase]; rfl) (by simp [hphase])
        (Or.inr (Or.inr scanned_cases))
    · exact absurd h (by simp)
  | insertFindings =>
    simp only [call] at h
    split at h
    · rename_i context result hphase
      obtain ⟨rfl, rfl⟩ := Prod.mk.inj (Option.some.inj h)
      exact .findings hphase
    · exact absurd h (by simp)
  | insertScore =>
    simp only [call] at h
    split at h
    · rename_i context result hphase
      obtain ⟨rfl, rfl⟩ := Prod.mk.inj (Option.some.inj h)
      exact .score hphase
    · exact absurd h (by simp)
  | updateScanRun =>
    simp only [call] at h
    split at h
    · rename_i context result hphase
      obtain ⟨rfl, rfl⟩ := Prod.mk.inj (Option.some.inj h)
      exact .settled hphase RiskTables.gives_settle rfl rfl rfl
    · exact absurd h (by simp)
  | reportFailure =>
    simp only [call] at h
    split at h
    · rename_i context hphase
      obtain ⟨rfl, rfl⟩ := Prod.mk.inj (Option.some.inj h)
      refine .failed hphase (fun hk => ?_) rfl rfl rfl
      exact RiskTables.gives_updateRun (by exact fun _ => rfl) hk
        (fun r _ => decide_eq_true_iff) fun _ => rfl
    · exact absurd h (by simp)

/-! ## The invariant of the attempts -/

/-- Two states of the tables hold the same of a run. -/
structure Same (k : ScanRunKey) (t t' : RiskTables) : Prop where
  stands : ∀ status, t'.Stands k status ↔ t.Stands k status
  findings : ∀ f, f.scanRunId = k → (f ∈ t'.findings ↔ f ∈ t.findings)
  scores : ∀ s, s.scanRunId = k → (s ∈ t'.scores ↔ s ∈ t.scores)
  settledBy : t'.settledBy k = t.settledBy k

theorem Same.refl (k : ScanRunKey) (t : RiskTables) : Same k t t :=
  ⟨fun _ => Iff.rfl, fun _ _ => Iff.rfl, fun _ _ => Iff.rfl, rfl⟩

/-- A statement that gives another run its status is the same to this. -/
theorem Same.of_gives {k k' : ScanRunKey} {status : ScanRunStatus} (h : t.Gives t' k' status)
    (hk : k ≠ k') (hfindings : t'.findings = t.findings) (hscores : t'.scores = t.scores)
    (hsettled : t'.settledBy k = t.settledBy k) : Same k t t' where
  stands _ := h.other hk
  findings f _ := by rw [hfindings]
  scores s _ := by rw [hscores]
  settledBy := hsettled

variable (job) in
/-- **What an attempt may rely on** at a phase. -/
def Knows (t : RiskTables) : ScanPhase → Prop
  | .isScanCancellationRequested context | .getActiveSuppressions context _
  | .scan context _ _ | .insertFindings context _ | .insertScore context _ =>
    t.Stands (job.idempotencyKey context) .running
  | .updateScanRun context result => t.Stands (job.idempotencyKey context) .running ∧
      scoreRecord (job.idempotencyKey context) result ∈ t.scores
  | .reportFailure context => job.idempotencyKey context ∈ t.runs.keys ∧
      ¬t.Stands (job.idempotencyKey context) .failed
  | _ => True

variable (job) in
def KnowsOf (t : RiskTables) : Progress ScanAttempt ScanReturn → Prop
  | .running a => job.Knows t a.phase
  | _ => True

/-- A run that is neither pending, running nor failed has a score. -/
def Scored (t : RiskTables) : Prop :=
  ∀ k status, t.Stands k status → status ≠ .pending ∧
    (status = .running ∨ status = .failed ∨ ∃ s ∈ t.scores, s.scanRunId = k)

variable (job) in
/-- Two attempts do not claim one run. -/
def Apart (n n' : Progress ScanAttempt ScanReturn) : Prop :=
  ∀ k, job.claimedBy n = some k → job.claimedBy n' ≠ some k

variable (job) in
/-- **The attempts on the runs**, in every state. -/
abbrev ScanInvariant (w : Workers RiskTables ScanAttempt ScanReturn) : Prop :=
  w.Keeps Scored job.KnowsOf job.Apart

/-- Without a claim nothing is relied on. -/
theorem Knows.of_unclaimed {phase : ScanPhase} (h : job.claimed phase = none) :
    job.Knows t phase := by
  cases phase <;> trivial

/-- A claimed run is stored and has not failed. -/
theorem Knows.of_claimed {phase : ScanPhase} {k : ScanRunKey} (h : job.Knows t phase)
    (hk : job.claimed phase = some k) : k ∈ t.runs.keys ∧ ¬t.Stands k .failed := by
  have hstands : ∀ {k : ScanRunKey}, t.Stands k .running →
      k ∈ t.runs.keys ∧ ¬t.Stands k .failed := by
    intro k hr
    refine ⟨RiskTables.mem_keys_iff.mpr ⟨_, hr⟩, fun hf => ?_⟩
    exact absurd (hr.eq hf) (by simp)
  cases phase <;> simp only [claimed, Option.some.injEq, reduceCtorEq] at hk <;> subst hk
  case updateScanRun => exact hstands h.1
  case reportFailure => exact h
  all_goals exact hstands h

/-- Before the `catch` a claimed run is running. -/
theorem Knows.running {phase : ScanPhase} {k : ScanRunKey} (h : job.Knows t phase)
    (hk : job.claimed phase = some k) (hrunning : ∀ context, phase ≠ .reportFailure context) :
    t.Stands k .running := by
  cases phase <;> simp only [claimed, Option.some.injEq, reduceCtorEq] at hk <;> subst hk
  case updateScanRun => exact h.1
  case reportFailure context => exact absurd rfl (hrunning context)
  all_goals exact h

/-- What is relied on of a run holds where the run is the same. -/
theorem Knows.of_same {phase : ScanPhase} {k : ScanRunKey} (h : job.Knows t phase)
    (hk : job.claimed phase = some k) (hsame : Same k t t') : job.Knows t' phase := by
  have hmem : k ∈ t.runs.keys → k ∈ t'.runs.keys := by
    intro hmem
    obtain ⟨status, hs⟩ := RiskTables.mem_keys_iff.mp hmem
    exact RiskTables.mem_keys_iff.mpr ⟨status, (hsame.stands status).mpr hs⟩
  cases phase <;> simp only [claimed, Option.some.injEq, reduceCtorEq] at hk <;> subst hk
  case updateScanRun => exact ⟨(hsame.stands _).mpr h.1, (hsame.scores _ rfl).mpr h.2⟩
  case reportFailure => exact ⟨hmem h.1, fun hf => h.2 ((hsame.stands _).mp hf)⟩
  all_goals exact (hsame.stands _).mpr h

/-- **An effect is on the attempt's own run**, or on one that no attempt
has claimed. -/
theorem Effect.same (h : job.Effect t a t' n) (hknows : job.Knows t a.phase) {k : ScanRunKey}
    (ha : job.claimed a.phase ≠ some k) (hk : k ∈ t.runs.keys) (hf : ¬t.Stands k .failed) :
    Same k t t' := by
  have hother : ∀ {context}, job.claimed a.phase = some (job.idempotencyKey context) →
      k ≠ job.idempotencyKey context := by
    rintro context hclaim rfl
    exact ha hclaim
  cases h with
  | unclaimed => exact .refl k t
  | inserted hphase hfree =>
    refine .of_gives (RiskTables.gives_insert hfree) ?_ rfl rfl rfl
    rintro rfl
    exact hfree hk
  | reclaimed hphase hfailed hgives hfindings hscores hsettled =>
    refine .of_gives hgives ?_ hfindings hscores (by rw [hsettled])
    rintro rfl
    exact hf hfailed
  | held => exact .refl k t
  | @findings context result hphase =>
    have hne := hother (by rw [hphase]; rfl)
    refine ⟨fun _ => Iff.rfl, fun f hfk => ⟨fun hin => ?_, Table.mem_insertAll_of_mem⟩,
      fun _ _ => Iff.rfl, rfl⟩
    rcases Table.mem_of_mem_insertAll hin with hin | ⟨hin, -⟩
    · exact hin
    · obtain ⟨finding, -, rfl⟩ := List.mem_map.mp hin
      exact absurd hfk.symm hne
  | @score context result hphase =>
    have hne := hother (by rw [hphase]; rfl)
    refine ⟨fun _ => Iff.rfl, fun _ _ => Iff.rfl, fun s hs => ?_, rfl⟩
    exact Table.mem_put_of_ne (by rw [hs]; exact hne)
  | @settled context result t' r hphase hgives hfindings hscores hsettled =>
    have hclaim : job.claimed a.phase = some (job.idempotencyKey context) := by rw [hphase]; rfl
    have hne := hother hclaim
    refine .of_gives (hgives (hknows.of_claimed hclaim).1) hne hfindings hscores ?_
    rw [hsettled, Function.update_of_ne hne]
  | failed hphase hgives hfindings hscores hsettled =>
    have hclaim := congrArg job.claimed hphase
    exact .of_gives (hgives (hknows.of_claimed hclaim).1) (hother hclaim) hfindings hscores
      (by rw [hsettled])

/-- A run given a status that needs no score, or has one. -/
theorem Scored.of_gives {k : ScanRunKey} {status : ScanRunStatus} (h : Scored t)
    (hgives : t.Gives t' k status) (hscores : t'.scores = t.scores) (hpending : status ≠ .pending)
    (hscored : status = .running ∨ status = .failed ∨ ∃ s ∈ t.scores, s.scanRunId = k) :
    Scored t' := by
  intro k' status' hs
  have hcase := (hgives k' status').mp hs
  rw [hscores]
  by_cases hk : k' = k
  · rw [if_pos hk] at hcase
    rw [hcase, hk]
    exact ⟨hpending, hscored⟩
  · rw [if_neg hk] at hcase
    exact h k' status' hcase

/-- **An effect leaves what stands scored**: a run is settled after its
score is stored. -/
theorem Effect.scored (h : job.Effect t a t' n) (hknows : job.Knows t a.phase)
    (hscored : Scored t) : Scored t' := by
  cases h with
  | unclaimed => exact hscored
  | inserted hphase hfree =>
    exact hscored.of_gives (RiskTables.gives_insert hfree) rfl (fun h => by cases h) (Or.inl rfl)
  | reclaimed hphase hfailed hgives hfindings hscores =>
    exact hscored.of_gives hgives hscores (fun h => by cases h) (Or.inl rfl)
  | held => exact hscored
  | findings => exact hscored
  | @score context result hphase =>
    intro k status hs
    obtain ⟨hpending, hrest⟩ := hscored k status hs
    refine ⟨hpending, ?_⟩
    rcases hrest with hrunning | hfailed | ⟨s, hin, hk⟩
    · exact Or.inl hrunning
    · exact Or.inr (Or.inl hfailed)
    · refine Or.inr (Or.inr ?_)
      by_cases hkey : k = job.idempotencyKey context
      · exact ⟨_, Table.mem_put_self _ _, hkey.symm⟩
      · have hne : s.scanRunId ≠ job.idempotencyKey context := by
          rw [hk]
          exact hkey
        exact ⟨s, (Table.mem_put_of_ne hne).mpr hin, hk⟩
  | @settled context result t' r hphase hgives hfindings hscores =>
    have hk := hknows.of_claimed (congrArg job.claimed hphase)
    rw [hphase] at hknows
    refine hscored.of_gives (hgives hk.1) hscores ?_ (Or.inr (Or.inr ⟨_, hknows.2, rfl⟩))
    cases result.status <;> simp [RiskScanStatus.runStatus]
  | failed hphase hgives hfindings hscores =>
    have hk := hknows.of_claimed (congrArg job.claimed hphase)
    exact hscored.of_gives (hgives hk.1) hscores (fun h => by cases h) (Or.inr (Or.inl rfl))

/-- **What the attempt may rely on next.** -/
theorem Effect.knowsOf (h : job.Effect t a t' n) (hknows : job.Knows t a.phase) :
    job.KnowsOf t' n := by
  cases h with
  | @unclaimed n h hn =>
    cases n with
    | running a' => exact Knows.of_unclaimed hn
    | _ => trivial
  | inserted hphase hfree => exact (RiskTables.gives_insert hfree).stands
  | reclaimed hphase hfailed hgives => exact hgives.stands
  | @held context a' hclaim hrunning hnext =>
    have hstands := hknows.running hclaim hrunning
    rcases hnext with ⟨_, h⟩ | ⟨_, _, h⟩ | ⟨_, h, -⟩ | h
    · rw [KnowsOf, h]
      exact hstands
    · rw [KnowsOf, h]
      exact hstands
    · rw [KnowsOf, h]
      exact hstands
    · rw [KnowsOf, h]
      exact hknows.of_claimed hclaim
  | findings hphase =>
    rw [hphase] at hknows
    exact hknows
  | score hphase =>
    rw [hphase] at hknows
    exact ⟨hknows, Table.mem_put_self _ _⟩
  | settled => trivial
  | failed => trivial

variable (job) in
/-- A throw leads out of the job, or from a claimed run into the `catch`. -/
theorem thrown_cases (a : ScanAttempt) : thrown a = .threw ∨ ∃ context,
    thrown a = .running { a with phase := .reportFailure context } ∧
      job.claimed a.phase = some (job.idempotencyKey context) ∧
        ∀ context, a.phase ≠ .reportFailure context := by
  unfold thrown
  cases a.phase with
  | getActiveSuppressions context aborted => exact Or.inr ⟨context, rfl, rfl, by simp⟩
  | scan context aborted suppressions => exact Or.inr ⟨context, rfl, rfl, by simp⟩
  | insertFindings context result => exact Or.inr ⟨context, rfl, rfl, by simp⟩
  | insertScore context result => exact Or.inr ⟨context, rfl, rfl, by simp⟩
  | updateScanRun context result => exact Or.inr ⟨context, rfl, rfl, by simp⟩
  | _ => exact Or.inl rfl

/-- A throw claims nothing new. -/
theorem claimedBy_thrown {a : ScanAttempt} {k : ScanRunKey}
    (h : job.claimedBy (thrown a) = some k) : job.claimed a.phase = some k := by
  rcases thrown_cases job a with hthrew | ⟨context, hreport, hclaim, -⟩
  · rw [hthrew] at h
    exact absurd h (by simp [claimedBy])
  · rw [hreport] at h
    rw [hclaim]
    exact h

/-- A throw without effect leaves what its `catch` relies on. -/
theorem Knows.thrown (h : job.Knows t a.phase) : job.KnowsOf t (thrown a) := by
  rcases thrown_cases job a with hthrew | ⟨context, hreport, hclaim, -⟩
  · rw [hthrew]
    trivial
  · rw [hreport]
    exact h.of_claimed hclaim

/-- So does one after its effect: a settled run has not failed. -/
theorem Effect.knowsOf_thrown (h : job.Effect t a t' n) (hknows : job.Knows t a.phase) :
    job.KnowsOf t' (thrown a) := by
  rcases thrown_cases job a with hthrew | ⟨context, hreport, hclaim, hrunning⟩
  · rw [hthrew]
    trivial
  · rw [hreport]
    have hstands := hknows.running hclaim hrunning
    have hmem := hknows.of_claimed hclaim
    cases h with
    | unclaimed h => exact absurd (h.symm.trans hclaim) (by simp)
    | inserted hphase => exact absurd ((congrArg job.claimed hphase).symm.trans hclaim) (by simp [claimed])
    | reclaimed hphase => exact absurd ((congrArg job.claimed hphase).symm.trans hclaim) (by simp [claimed])
    | held => exact hmem
    | findings => exact hmem
    | score => exact hmem
    | @settled _ result t' r hphase hgives =>
      have hk := hclaim.symm.trans (congrArg job.claimed hphase)
      have hafter := (hgives (Option.some.inj hk ▸ hmem.1)).stands
      rw [← Option.some.inj hk] at hafter
      refine ⟨RiskTables.mem_keys_iff.mpr ⟨_, hafter⟩, fun hf => ?_⟩
      have hstatus := hafter.eq hf
      cases hs : result.status <;> rw [hs] at hstatus <;> cases hstatus
    | failed hphase => exact absurd hphase (hrunning _)

/-- **What another attempt claims** is stored, has not failed, and is not
this one's. -/
theorem ScanInvariant.apart {w : Workers RiskTables ScanAttempt ScanReturn} {id id' : ℕ}
    {k : ScanRunKey} (h : job.ScanInvariant w) (hrun : w.progress id = .running a)
    (hid : id' ≠ id) (hk : job.claimedBy (w.progress id') = some k) :
    job.claimed a.phase ≠ some k ∧ k ∈ w.shared.runs.keys ∧ ¬w.shared.Stands k .failed := by
  have hapart := h.pairs id' id hid k hk
  rw [hrun] at hapart
  have heach := h.each id'
  cases hp : w.progress id' with
  | running q =>
    rw [hp] at hk heach
    have hq : job.Knows w.shared q.phase := heach
    exact ⟨hapart, hq.of_claimed hk⟩
  | _ =>
    rw [hp] at hk
    exact absurd hk (by simp [claimedBy])

/-- **One attempt moved on** keeps the invariant, if it claims only what
it had or nobody could have. -/
theorem ScanInvariant.put {w : Workers RiskTables ScanAttempt ScanReturn} {id : ℕ} {s : RiskTables}
    (h : job.ScanInvariant w) (hrun : w.progress id = .running a) (hscored : Scored s)
    (hknows : job.KnowsOf s n)
    (hclaim : ∀ k, job.claimedBy n = some k → job.claimed a.phase = some k ∨
      k ∉ w.shared.runs.keys ∨ w.shared.Stands k .failed)
    (hsame : ∀ k, job.claimed a.phase ≠ some k → k ∈ w.shared.runs.keys →
      ¬w.shared.Stands k .failed → Same k w.shared s) : job.ScanInvariant (w.put id s n) := by
  refine Workers.Keeps.put h hscored hknows fun id' hid => ?_
  have hnew : ∀ k, job.claimedBy n = some k → job.claimedBy (w.progress id') ≠ some k := by
    intro k hk hk'
    obtain ⟨hnot, hmem, hfailed⟩ := h.apart hrun hid hk'
    rcases hclaim k hk with h1 | h1 | h1
    · exact hnot h1
    · exact h1 hmem
    · exact hfailed h1
  refine ⟨?_, hnew, fun k hk hk' => hnew k hk' hk⟩
  have heach := h.each id'
  cases hp : w.progress id' with
  | running q =>
    rw [hp] at heach
    have hq : job.Knows w.shared q.phase := heach
    cases hclaimed : job.claimed q.phase with
    | none => exact Knows.of_unclaimed hclaimed
    | some k =>
      obtain ⟨hnot, hmem, hfailed⟩ := h.apart hrun hid (by rw [hp]; exact hclaimed)
      exact hq.of_same hclaimed (hsame k hnot hmem hfailed)
  | _ => trivial

/-- **An effect claims only a free run or a failed one.** -/
theorem Effect.claim (h : job.Effect t a t' n) {k : ScanRunKey} (hk : job.claimedBy n = some k) :
    job.claimed a.phase = some k ∨ k ∉ t.runs.keys ∨ t.Stands k .failed := by
  cases h with
  | unclaimed h hn => exact absurd (hn.symm.trans hk) (by simp)
  | inserted hphase hfree =>
    obtain rfl := Option.some.inj hk
    exact Or.inr (Or.inl hfree)
  | reclaimed hphase hfailed =>
    obtain rfl := Option.some.inj hk
    exact Or.inr (Or.inr hfailed)
  | @held context a' hclaim hrunning hnext =>
    exact Or.inl (hclaim.trans (hnext.claimed.symm.trans hk))
  | findings hphase => exact Or.inl ((congrArg job.claimed hphase).trans hk)
  | score hphase => exact Or.inl ((congrArg job.claimed hphase).trans hk)
  | settled => exact absurd hk (by simp [claimedBy])
  | failed => exact absurd hk (by simp [claimedBy])

variable {w w' : Workers RiskTables ScanAttempt ScanReturn} {id : ℕ}
variable {l : WorkerLabel ScanCall RiskScanJobInput ScanEvent}

theorem ScanInvariant.knows (h : job.ScanInvariant w) (hrun : w.progress id = .running a) :
    job.Knows w.shared a.phase := by
  have heach := h.each id
  rw [hrun] at heach
  exact heach

/-- **The step**: deliveries, awaits, crashes and cancellation requests
keep the invariant. -/
theorem ScanInvariant.step (h : job.ScanInvariant w) (hs : job.procedure.Step w l w') :
    job.ScanInvariant w' := by
  cases hs with
  | start hidle =>
    refine Workers.Keeps.put h h.shared trivial fun id' hid => ⟨h.each id', ?_, fun k hk => ?_⟩
    · exact fun k hk => absurd hk (by simp [claimedBy, procedure, claimed])
    · simp [claimedBy, procedure, claimed]
  | returned hrun hcall =>
    have heffect := Effect.of_call hcall
    have hknows := h.knows hrun
    exact h.put hrun (heffect.scored hknows h.shared) (heffect.knowsOf hknows)
      (fun k => heffect.claim) fun k => heffect.same hknows
  | failed hrun hcall =>
    exact h.put hrun h.shared (h.knows hrun).thrown
      (fun k hk => Or.inl (claimedBy_thrown hk)) fun k _ _ _ => .refl k _
  | unacknowledged hrun hcall =>
    have heffect := Effect.of_call hcall
    have hknows := h.knows hrun
    exact h.put hrun (heffect.scored hknows h.shared) (heffect.knowsOf_thrown hknows)
      (fun k hk => Or.inl (claimedBy_thrown hk)) fun k => heffect.same hknows
  | crash hrun =>
    exact h.put hrun h.shared trivial (fun k hk => absurd hk (by simp [claimedBy]))
      fun k _ _ _ => .refl k _
  | @env e s henv =>
    cases e with
    | requestScanCancellation key =>
      obtain rfl := Option.some.inj henv
      have hsame : ∀ k, Same k w.shared (w.shared.updateRun (fun r => r.idempotencyKey = key)
          (fun r => { r with cancellationRequested := true }) fun _ => rfl) := fun k =>
        ⟨fun _ => RiskTables.stands_requestCancellation, fun _ _ => Iff.rfl, fun _ _ => Iff.rfl,
          rfl⟩
      refine Workers.Keeps.env h (fun k status hs => ?_) fun id => ?_
      · exact h.shared k status (RiskTables.stands_requestCancellation.mp hs)
      · have heach := h.each id
        cases hp : w.progress id with
        | running q =>
          rw [hp] at heach
          have hq : job.Knows w.shared q.phase := heach
          cases hclaimed : job.claimed q.phase with
          | none => exact Knows.of_unclaimed hclaimed
          | some k => exact hq.of_same hclaimed (hsame k)
        | _ => trivial

theorem scanInvariant_of_reaches
    {C : Workers RiskTables ScanAttempt ScanReturn →
      WorkerLabel ScanCall RiskScanJobInput ScanEvent → Prop}
    (h : job.machine.Reaches C w) : job.ScanInvariant w := by
  refine Procedure.invariant_of_reaches h (fun w hw hidle => ?_) fun w l w' hI _ hs => hI.step hs
  refine ⟨?_, fun id => ?_, fun id id' _ k hk => ?_⟩
  · rintro k status ⟨r, hr, -⟩
    rw [hw] at hr
    exact absurd hr List.not_mem_nil
  · rw [hidle id]
    trivial
  · rw [hidle id] at hk
    exact absurd hk (by simp [claimedBy])

end RiskScanJob

end HoodSentry
