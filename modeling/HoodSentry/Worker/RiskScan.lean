import HoodSentry.Worker.Helpers.RiskScan
/-!
# No claimed risk scan is lost

A run is given back by the attempt that claimed it and by nothing else:
a later delivery takes over a failed run, never a running one. So a run
is lost exactly where its attempt ends without a word on it.
-/

namespace HoodSentry

namespace RiskScanJob

variable (job : RiskScanJob)

/-! ## Redelivery -/

/-- A delivery of the job that is answered throughout. -/
structure Redelivery where
  id : ℕ
  input : RiskScanJobInput
  context : RiskScanContext
  aborted : Bool
  suppressions : List RiskSuppression
  execute : RiskRule → RuleExecution
  cancelled : Bool

/-- The context loader and the orchestrator answer. -/
structure Redelivery.Answered (d : Redelivery) : Prop where
  pinned : contextMatches d.input d.context = true
  methodology : d.context.methodologyVersion = job.resolved.ruleset.methodologyVersion
  sources : (sourceMap d.context).isSome = true
  version : job.orchestratorVersion = job.engineVersion

/-- The run the delivery is about. -/
def Redelivery.run (d : Redelivery) : ScanRunKey := job.idempotencyKey d.context

/-- The awaits behind the claim. -/
def Redelivery.scanCalls (d : Redelivery) : List ScanCall :=
  [.isScanCancellationRequested d.aborted, .getActiveSuppressions d.suppressions,
    .scan d.execute d.cancelled, .insertFindings, .insertScore, .updateScanRun]

/-- The awaits of the delivery, where it finds the tables so. -/
def Redelivery.calls (d : Redelivery) (t : RiskTables) : List ScanCall :=
  .loadContext d.context :: .insertRulesetVersion :: .claimInsert ::
    if d.run job ∉ t.runs.keys then d.scanCalls
    else if t.Stands (d.run job) .failed then .claimUpdate :: d.scanCalls
    else [.claimUpdate, .claimSelect]

def Redelivery.labels (d : Redelivery) (t : RiskTables) :
    List (WorkerLabel ScanCall RiskScanJobInput ScanEvent) :=
  .start d.id d.input :: (d.calls job t).map (.call d.id · .returned)

/-- **A run is settled**: it does not run, and has a score. -/
def Settled (t : RiskTables) (k : ScanRunKey) : Prop :=
  (∃ status, t.Stands k status ∧ status ≠ .running) ∧ ∃ s ∈ t.scores, s.scanRunId = k

/-- **No claimed scan is lost**: a running run has an attempt at work on
it, and once it has none a redelivery that is answered settles it. -/
structure NeverLost (w : Workers RiskTables ScanAttempt ScanReturn) : Prop where
  held : ∀ k, w.shared.Stands k .running → ∃ id, job.claimedBy (w.progress id) = some k
  redelivered : ∀ d : Redelivery, w.progress d.id = .idle → d.Answered job →
    (∀ id, job.claimedBy (w.progress id) ≠ some (d.run job)) →
    ∃ w', job.machine.exec w (d.labels job w.shared) = some w' ∧ Settled w'.shared (d.run job)

/-! ## The steps that lose a run -/

/-- **An attempt ends without a word on its run**: it dies, or throws where
no `catch` is, or its claim or its `catch` does. -/
def loses (w : Workers RiskTables ScanAttempt ScanReturn) :
    WorkerLabel ScanCall RiskScanJobInput ScanEvent → Bool
  | .crash id => (job.claimedBy (w.progress id)).any fun k => w.shared.Stands k .running
  | .call id _ answer =>
    match w.progress id with
    | .running a =>
      match a.phase, answer with
      | .claimInsert context, .unacknowledged => job.idempotencyKey context ∉ w.shared.runs.keys
      | .claimUpdate context, .unacknowledged => w.shared.Stands (job.idempotencyKey context) .failed
      | .isScanCancellationRequested _, .failed => true
      | .isScanCancellationRequested _, .unacknowledged => true
      | .reportFailure context, .failed => w.shared.Stands (job.idempotencyKey context) .running
      | _, _ => false
    | _ => false
  | _ => false

variable {job} {w w' : Workers RiskTables ScanAttempt ScanReturn} {id : ℕ} {s t t' : RiskTables}
variable {n : Progress ScanAttempt ScanReturn} {a : ScanAttempt} {d : Redelivery}

/-! ## A redelivery settles -/

/-- A context the orchestrator answers for leads to its findings. -/
theorem Redelivery.Answered.scanned (hd : d.Answered job) {c : Bool} :
    ∃ result, job.scanned d.context (d.context.scan job.resolved job.orchestratorVersion
      d.suppressions d.execute c) = .insertFindings d.context result := by
  obtain ⟨result, hresult⟩ : ∃ result, d.context.scan job.resolved job.orchestratorVersion
      d.suppressions d.execute c = some result :=
    RiskScanContext.exists_scan hd.methodology hd.sources
  have hversion : result.engineVersion = job.engineVersion :=
    (RiskScanContext.findings_scan hresult).2.2.trans hd.version
  refine ⟨result, ?_⟩
  rw [hresult, RiskScanJob.scanned, if_neg (not_not.mpr hversion)]

/-- The awaits behind the claim settle a claimed run. -/
theorem Redelivery.settled_scanCalls (hd : d.Answered job) (hk : d.run job ∈ t.runs.keys) :
    ∃ t' r, job.procedure.solo t ⟨d.input, .isScanCancellationRequested d.context⟩ d.scanCalls =
      some (t', .returned r) ∧ Settled t' (d.run job) := by
  obtain ⟨result, hscanned⟩ := hd.scanned (c := d.aborted || (t.runs.rows.any fun r =>
    r.idempotencyKey = job.idempotencyKey d.context && r.cancellationRequested) || d.cancelled)
  have hcall : ∀ aborted, job.scanned d.context (d.context.scan job.resolved
      job.orchestratorVersion d.suppressions d.execute (aborted || d.cancelled)) =
        .insertFindings d.context result →
      job.procedure.call t ⟨d.input, .scan d.context aborted d.suppressions⟩
        (.scan d.execute d.cancelled) =
          some (t, .running ⟨d.input, .insertFindings d.context result⟩) := by
    intro aborted h
    simp only [procedure, call, h]
  have hsolo : job.procedure.solo t ⟨d.input, .isScanCancellationRequested d.context⟩ d.scanCalls =
      job.procedure.solo t ⟨d.input, .insertFindings d.context result⟩
        [.insertFindings, .insertScore, .updateScanRun] := by
    rw [scanCalls, Procedure.solo_running (by rfl), Procedure.solo_running (by rfl),
      Procedure.solo_running (hcall _ hscanned)]
  refine ⟨_, _, hsolo.trans rfl, ?_⟩
  refine ⟨⟨result.status.runStatus, ?_, ?_⟩, _, Table.mem_put_self _ _, rfl⟩
  · exact (RiskTables.gives_settle hk).stands
  · cases result.status <;> simp [RiskScanStatus.runStatus]

/-- **A redelivery settles a run that is not running**: it claims the run
where it is new or has failed, and finds it settled otherwise. -/
theorem Redelivery.settled_calls (hd : d.Answered job) (hscored : Scored t)
    (hrunning : ¬t.Stands (d.run job) .running) :
    ∃ t' r, job.procedure.solo t ⟨d.input, .loadContext⟩ (d.calls job t) =
      some (t', .returned r) ∧ Settled t' (d.run job) := by
  have hloaded : ∀ ks, job.procedure.solo t ⟨d.input, .loadContext⟩
      (.loadContext d.context :: .insertRulesetVersion :: ks) =
        job.procedure.solo t ⟨d.input, .claimInsert d.context⟩ ks := by
    intro ks
    have hmatches : job.procedure.call t ⟨d.input, .loadContext⟩ (.loadContext d.context) =
        some (t, .running ⟨d.input, .insertRulesetVersion d.context⟩) := by
      simp only [procedure, call, hd.pinned, if_true]
    rw [Procedure.solo_running hmatches, Procedure.solo_running (by rfl)]
  rw [calls, hloaded]
  by_cases hk : d.run job ∈ t.runs.keys
  · rw [if_neg (not_not.mpr hk)]
    have htaken : job.procedure.call t ⟨d.input, .claimInsert d.context⟩ .claimInsert =
        some (t, .running ⟨d.input, .claimUpdate d.context⟩) := by
      exact if_pos hk
    rw [Procedure.solo_running htaken]
    by_cases hfailed : t.Stands (d.run job) .failed
    · rw [if_pos hfailed]
      obtain ⟨t₁, hreclaimed, hmem⟩ : ∃ t₁,
          job.procedure.call t ⟨d.input, .claimUpdate d.context⟩ .claimUpdate =
            some (t₁, .running ⟨d.input, .isScanCancellationRequested d.context⟩) ∧
          d.run job ∈ t₁.runs.keys := by
        refine ⟨_, if_pos hfailed, ?_⟩
        rw [RiskTables.updateRun, Table.keys_updateWhere]
        exact hk
      rw [Procedure.solo_running hreclaimed]
      exact settled_scanCalls hd hmem
    · rw [if_neg hfailed]
      have hother : job.procedure.call t ⟨d.input, .claimUpdate d.context⟩ .claimUpdate =
          some (t, .running ⟨d.input, .claimSelect d.context⟩) := by
        exact if_neg hfailed
      have hselected : job.procedure.call t ⟨d.input, .claimSelect d.context⟩ .claimSelect =
          some (t, .returned ⟨d.run job, true, none⟩) := by
        exact if_pos hk
      rw [Procedure.solo_running hother, Procedure.solo_returned hselected]
      obtain ⟨status, hs⟩ := RiskTables.mem_keys_iff.mp hk
      obtain ⟨-, rfl | rfl | hscore⟩ := hscored _ _ hs
      · exact absurd hs hrunning
      · exact absurd hs hfailed
      · exact ⟨t, _, rfl, ⟨status, hs, fun h => hrunning (h ▸ hs)⟩, hscore⟩
  · rw [if_pos hk]
    have hfree : job.procedure.call t ⟨d.input, .claimInsert d.context⟩ .claimInsert =
        some ({ t with runs := t.runs.insertNew (job.claim d.input d.context) },
          .running ⟨d.input, .isScanCancellationRequested d.context⟩) := by
      exact if_neg hk
    rw [Procedure.solo_running hfree]
    exact settled_scanCalls hd (Table.mem_keys_insertNew.mpr (Or.inr rfl))

/-- So its labels run to their end, and settle. -/
theorem Redelivery.settled_labels (hd : d.Answered job) (hscored : Scored w.shared)
    (hrunning : ¬w.shared.Stands (d.run job) .running) (hidle : w.progress d.id = .idle) :
    ∃ w', job.machine.exec w (d.labels job w.shared) = some w' ∧ Settled w'.shared (d.run job) := by
  obtain ⟨t', r, hsolo, hsettled⟩ := settled_calls hd hscored hrunning
  let started := w.put d.id w.shared (.running ⟨d.input, .loadContext⟩)
  have hstarted : started.progress d.id = .running ⟨d.input, .loadContext⟩ :=
    Workers.progress_put_self
  have hexec : job.machine.exec started ((d.calls job w.shared).map (.call d.id · .returned)) =
      some (started.put d.id t' (.returned r)) := Procedure.exec_solo hstarted hsolo
  refine ⟨_, Option.bind_eq_some_iff.mpr ⟨started, ?_, hexec⟩, hsettled⟩
  show job.procedure.step w (.start d.id d.input) = some started
  rw [Procedure.step, hidle]
  rfl

/-! ## A running run is held -/

/-- A step keeps what is held, if the run it makes running is the
attempt's, and it gives up none that runs on. -/
theorem held_put (hheld : ∀ k, w.shared.Stands k .running →
      ∃ id, job.claimedBy (w.progress id) = some k)
    (hnew : ∀ k, s.Stands k .running → job.claimedBy n = some k ∨
      w.shared.Stands k .running ∧ job.claimedBy (w.progress id) ≠ some k) :
    ∀ k, (w.put id s n).shared.Stands k .running →
      ∃ id', job.claimedBy ((w.put id s n).progress id') = some k := by
  intro k hk
  rcases hnew k hk with hclaim | ⟨hbefore, hnot⟩
  · exact ⟨id, by rw [Workers.progress_put_self, hclaim]⟩
  · obtain ⟨id', hid'⟩ := hheld k hbefore
    have hne : id' ≠ id := by
      rintro rfl
      exact hnot hid'
    exact ⟨id', by rw [Workers.progress_put_of_ne hne, hid']⟩

/-- **What runs after an effect** is the attempt's, or ran before and is
not. -/
theorem Effect.held_or (h : job.Effect t a t' n) (hknows : job.Knows t a.phase) {k : ScanRunKey}
    (hk : t'.Stands k .running) : job.claimedBy n = some k ∨
      t.Stands k .running ∧ job.claimed a.phase ≠ some k := by
  have hkept : t.Stands k .running → job.claimedBy n = job.claimed a.phase →
      job.claimedBy n = some k ∨ t.Stands k .running ∧ job.claimed a.phase ≠ some k := by
    intro hk hsame
    by_cases hclaim : job.claimed a.phase = some k
    · exact Or.inl (hsame.trans hclaim)
    · exact Or.inr ⟨hk, hclaim⟩
  cases h with
  | unclaimed h hn => exact hkept hk (hn.trans h.symm)
  | @inserted context hphase hfree =>
    by_cases hkey : k = job.idempotencyKey context
    · exact Or.inl (congrArg some hkey.symm)
    · refine Or.inr ⟨((RiskTables.gives_insert hfree).other hkey).mp hk, ?_⟩
      rw [hphase]
      simp [claimed]
  | @reclaimed context t' hphase hfailed hgives =>
    by_cases hkey : k = job.idempotencyKey context
    · exact Or.inl (congrArg some hkey.symm)
    · refine Or.inr ⟨(hgives.other hkey).mp hk, ?_⟩
      rw [hphase]
      simp [claimed]
  | @held context a' hclaim hrunning hnext =>
    exact hkept hk (hnext.claimed.trans hclaim.symm)
  | findings hphase => exact hkept hk (congrArg job.claimed hphase).symm
  | score hphase => exact hkept hk (congrArg job.claimed hphase).symm
  | @settled context result t' r hphase hgives =>
    have hclaim := congrArg job.claimed hphase
    obtain ⟨hne, hbefore⟩ := (hgives (hknows.of_claimed hclaim).1).of_ne hk
      (by cases result.status <;> simp [RiskScanStatus.runStatus])
    exact Or.inr ⟨hbefore, fun h => hne (Option.some.inj (h.symm.trans hclaim))⟩
  | failed hphase hgives =>
    have hclaim := congrArg job.claimed hphase
    obtain ⟨hne, hbefore⟩ := (hgives (hknows.of_claimed hclaim).1).of_ne hk (by simp)
    exact Or.inr ⟨hbefore, fun h => hne (Option.some.inj (h.symm.trans hclaim))⟩

/-- A claim is new after the insert or the update that makes it. -/
theorem Effect.new_claim (h : job.Effect t a t' n) {k : ScanRunKey}
    (hk : job.claimedBy n = some k) (hnot : job.claimed a.phase ≠ some k) :
    (∃ context, a.phase = .claimInsert context ∧ job.idempotencyKey context ∉ t.runs.keys) ∨
      ∃ context, a.phase = .claimUpdate context ∧
        t.Stands (job.idempotencyKey context) .failed := by
  cases h with
  | unclaimed h hn => exact absurd (hn.symm.trans hk) (by simp)
  | inserted hphase hfree => exact Or.inl ⟨_, hphase, hfree⟩
  | reclaimed hphase hfailed => exact Or.inr ⟨_, hphase, hfailed⟩
  | @held context a' hclaim hrunning hnext =>
    exact absurd (hclaim.trans (hnext.claimed.symm.trans hk)) hnot
  | findings hphase => exact absurd ((congrArg job.claimed hphase).trans hk) hnot
  | score hphase => exact absurd ((congrArg job.claimed hphase).trans hk) hnot
  | settled => exact absurd hk (by simp [claimedBy])
  | failed => exact absurd hk (by simp [claimedBy])

/-- The `catch` ends the attempt. -/
theorem Effect.claimedBy_report (h : job.Effect t a t' n) {context : RiskScanContext}
    (hphase : a.phase = .reportFailure context) : job.claimedBy n = none := by
  cases h with
  | unclaimed h hn => exact hn
  | inserted h => exact absurd (h.symm.trans hphase) (by simp)
  | reclaimed h => exact absurd (h.symm.trans hphase) (by simp)
  | held h hrunning => exact absurd hphase (hrunning context)
  | findings h => exact absurd (h.symm.trans hphase) (by simp)
  | score h => exact absurd (h.symm.trans hphase) (by simp)
  | settled h => exact absurd (h.symm.trans hphase) (by simp)
  | failed => rfl

/-- Inside the `try` a throw keeps the claim. -/
theorem claimedBy_thrown_of {k : ScanRunKey} (h : job.claimed a.phase = some k)
    (hread : ∀ context, a.phase ≠ .isScanCancellationRequested context)
    (hcatch : ∀ context, a.phase ≠ .reportFailure context) :
    job.claimedBy (thrown a) = some k := by
  unfold thrown
  cases hphase : a.phase with
  | isScanCancellationRequested context => exact absurd hphase (hread context)
  | reportFailure context => exact absurd hphase (hcatch context)
  | loadContext => rw [hphase] at h; exact absurd h (by simp [claimed])
  | insertRulesetVersion context => rw [hphase] at h; exact absurd h (by simp [claimed])
  | claimInsert context => rw [hphase] at h; exact absurd h (by simp [claimed])
  | claimUpdate context => rw [hphase] at h; exact absurd h (by simp [claimed])
  | claimSelect context => rw [hphase] at h; exact absurd h (by simp [claimed])
  | _ =>
    rw [hphase] at h
    exact h

variable {l : WorkerLabel ScanCall RiskScanJobInput ScanEvent}

/-- **The step**: while no run is lost, what runs is held. -/
theorem held_step (hinv : job.ScanInvariant w) (hC : job.loses w l = false)
    (hheld : ∀ k, w.shared.Stands k .running → ∃ id, job.claimedBy (w.progress id) = some k)
    (hs : job.procedure.Step w l w') :
    ∀ k, w'.shared.Stands k .running → ∃ id, job.claimedBy (w'.progress id) = some k := by
  cases hs with
  | start hidle =>
    refine held_put hheld fun k hk => Or.inr ⟨hk, ?_⟩
    rw [hidle]
    simp [claimedBy]
  | returned hrun hcall =>
    refine held_put hheld fun k hk => ?_
    rw [hrun]
    exact (Effect.of_call hcall).held_or (hinv.knows hrun) hk
  | @failed id c a s n hrun hcall =>
    refine held_put hheld fun k hk => ?_
    rw [hrun]
    by_cases hclaim : job.claimed a.phase = some k
    · refine Or.inl (claimedBy_thrown_of hclaim (fun context hphase => ?_)
        fun context hphase => ?_)
      · simp [loses, hrun, hphase] at hC
      · rw [hphase] at hclaim
        obtain rfl := Option.some.inj hclaim
        simp [loses, hrun, hphase, hk] at hC
    · exact Or.inr ⟨hk, hclaim⟩
  | @unacknowledged id c a s n hrun hcall =>
    refine held_put hheld fun k hk => ?_
    rw [hrun]
    have heffect := Effect.of_call hcall
    rcases heffect.held_or (hinv.knows hrun) hk with hclaim | hother
    · by_cases hbefore : job.claimed a.phase = some k
      · refine Or.inl (claimedBy_thrown_of hbefore (fun context hphase => ?_)
          fun context hphase => ?_)
        · simp [loses, hrun, hphase] at hC
        · exact absurd ((heffect.claimedBy_report hphase).symm.trans hclaim) (by simp)
      · rcases heffect.new_claim hclaim hbefore with ⟨context, hphase, hfree⟩ |
          ⟨context, hphase, hfailed⟩
        · simp [loses, hrun, hphase, hfree] at hC
        · simp [loses, hrun, hphase, hfailed] at hC
    · exact Or.inr hother
  | @crash id a hrun =>
    refine held_put hheld fun k hk => Or.inr ⟨hk, fun hclaim => ?_⟩
    simp [loses, hclaim, hk] at hC
  | @env e s henv =>
    cases e with
    | requestScanCancellation key =>
      obtain rfl := Option.some.inj henv
      intro k hk
      exact hheld k (RiskTables.stands_requestCancellation.mp hk)

/-- **While no run is lost, none is**: what runs is held, and what is not
held settles when it is delivered again. -/
theorem neverLost_of_reaches (h : job.machine.Reaches (fun w l => job.loses w l = false) w) :
    job.NeverLost w := by
  have hinv : job.ScanInvariant w := scanInvariant_of_reaches h
  have hheld : job.ScanInvariant w ∧ ∀ k, w.shared.Stands k .running →
      ∃ id, job.claimedBy (w.progress id) = some k := by
    refine Procedure.invariant_of_reaches (I := fun w => job.ScanInvariant w ∧
      ∀ k, w.shared.Stands k .running → ∃ id, job.claimedBy (w.progress id) = some k) h
      (fun w hw hidle => ⟨scanInvariant_of_reaches (.init (C := fun _ _ => True) ⟨hw, hidle⟩), ?_⟩)
      fun w l w' hI hC hs => ⟨hI.1.step hs, held_step hI.1 hC hI.2 hs⟩
    rintro k ⟨r, hr, -⟩
    rw [hw] at hr
    exact absurd hr List.not_mem_nil
  refine ⟨hheld.2, fun d hidle hd hnone => ?_⟩
  refine d.settled_labels hd hinv.shared (fun hrunning => ?_) hidle
  obtain ⟨id, hid⟩ := hheld.2 _ hrunning
  exact hnone id hid

/-! ## A sample scan -/

def sampleRule : RiskRule := ⟨"pool-liquidity", "1", .liquidity, "Pool liquidity", [], 1000⟩

def sample : RiskScanJob where
  resolved :=
    { ruleset := ⟨"ruleset-1", "risk-v1", fun _ => some 2000⟩
      rules := [sampleRule]
      distinct := by decide
      capped := fun _ _ => rfl }
  engineVersion := "engine-1"
  orchestratorVersion := "engine-1"

def sampleInput : RiskScanJobInput := ⟨⟨.token, 1, ⟨7⟩⟩, 5, ⟨5⟩, .newToken⟩

def sampleContext : RiskScanContext := ⟨⟨.token, 1, ⟨7⟩⟩, 5, ⟨5⟩, "risk-v1", []⟩

/-- Every rule evaluates to a status. -/
def sampleExecute (status : RiskFindingStatus) : RiskRule → RuleExecution := fun _ =>
  ⟨⟨status, .high, ⟨.confirmed, 10000, "verified"⟩, "Liquidity", "Pool depth", [], none, "depth"⟩,
    none⟩

def sampleStart : Workers RiskTables ScanAttempt ScanReturn := ⟨noRuns, fun _ => .idle⟩

/-- A delivery up to its claim. -/
def claimLabels (id : ℕ) : List (WorkerLabel ScanCall RiskScanJobInput ScanEvent) :=
  [.start id sampleInput, .call id (.loadContext sampleContext) .returned,
    .call id .insertRulesetVersion .returned, .call id .claimInsert .returned]

/-- One that fails to store its score, and reports it. -/
def failedLabels (id : ℕ) (status : RiskFindingStatus) :
    List (WorkerLabel ScanCall RiskScanJobInput ScanEvent) :=
  claimLabels id ++ [.call id (.isScanCancellationRequested false) .returned,
    .call id (.getActiveSuppressions []) .returned,
    .call id (.scan (sampleExecute status) false) .returned, .call id .insertFindings .returned,
    .call id .insertScore .failed, .call id .reportFailure .returned]

/-- A failed scan is not lost. -/
theorem neverLost_sample : ∃ w, sample.machine.exec sampleStart (failedLabels 0 .fail) = some w ∧
    sample.NeverLost w ∧ w.shared.Stands (sample.idempotencyKey sampleContext) .failed := by
  have hrun : (sample.machine.exec sampleStart (failedLabels 0 .fail)).map (fun w =>
      decide (w.shared.Stands (sample.idempotencyKey sampleContext) .failed)) = some true := by
    decide +kernel
  obtain ⟨w, hexec, hfailed⟩ := Option.map_eq_some_iff.mp hrun
  have hmeets : sample.machine.Meets (fun w l => sample.loses w l = false) sampleStart
      (failedLabels 0 .fail) := by decide +kernel
  exact ⟨w, hexec, neverLost_of_reaches (Machine.Reaches.exec (.init ⟨rfl, fun _ => rfl⟩) hmeets
    hexec), of_decide_eq_true hfailed⟩

/-- The same job again, answered throughout. -/
def sampleRedelivery : Redelivery := ⟨1, sampleInput, sampleContext, false, [], sampleExecute .pass, false⟩

/-- **A worker that dies after its claim** leaves a running run: a
redelivery, answered throughout, reports a duplicate and leaves it so. -/
theorem not_neverLost : ¬∀ (job : RiskScanJob) (w : Workers RiskTables ScanAttempt ScanReturn),
    job.machine.Reachable w → job.NeverLost w := by
  intro h
  have hrun : (sample.machine.exec sampleStart (claimLabels 0 ++ [.crash 0])).map (fun w =>
      ((sample.claimedBy (w.progress 0)).isNone,
        (sample.machine.exec w (sampleRedelivery.labels sample w.shared)).map fun w' =>
          decide (w'.shared.Stands (sampleRedelivery.run sample) .running))) =
        some (true, some true) := by decide +kernel
  obtain ⟨w, hexec, hw⟩ := Option.map_eq_some_iff.mp hrun
  simp only [Prod.mk.injEq, Option.isNone_iff_eq_none] at hw
  obtain ⟨hnone, hagain⟩ := hw
  obtain ⟨w', hexec', hrunning⟩ := Option.map_eq_some_iff.mp hagain
  have hother : ∀ id, id ≠ 0 → w.progress id = .idle := fun id hid =>
    Procedure.progress_exec_of_ne hexec (by simp [claimLabels, WorkerLabel.attempt, Ne.symm hid])
  have hunclaimed : ∀ id, sample.claimedBy (w.progress id) ≠ some (sampleRedelivery.run sample) := by
    intro id hid
    by_cases hzero : id = 0
    · rw [hzero, hnone] at hid
      exact absurd hid (by simp)
    · rw [hother id hzero] at hid
      exact absurd hid (by simp [claimedBy])
  have hanswered : sampleRedelivery.Answered sample := ⟨by decide, by decide, by decide, by decide⟩
  obtain ⟨w'', hexec'', ⟨status, hstands, hne⟩, -⟩ :=
    (h sample w (Machine.reachable_of_exec ⟨rfl, fun _ => rfl⟩ hexec)).redelivered sampleRedelivery
      (hother 1 (by decide)) hanswered hunclaimed
  obtain rfl : w' = w'' := Option.some.inj (hexec'.symm.trans hexec'')
  exact hne (hstands.eq (of_decide_eq_true hrunning))

end RiskScanJob

end HoodSentry
