import HoodSentry.Worker.RiskScan
/-!
# A finished run shows its own result

The score of a run is overwritten by each attempt, its findings are not:
an insert leaves those already stored under a fingerprint, and those of
other fingerprints beside it. So a finished run shows its own findings as
long as every attempt finds under its run only what it would store there.
-/

namespace HoodSentry

namespace RiskScanJob

variable (job : RiskScanJob)

/-! ## What a run shows -/

/-- The findings stored under a run are those of a result. -/
def FindingsAre (t : RiskTables) (k : ScanRunKey) (result : RiskScanResult) : Prop :=
  ∀ f, f.scanRunId = k → (f ∈ t.findings ↔ f ∈ result.findings.map (findingRecord k))

/-- The score of a result is that of its findings. -/
def Calculated (result : RiskScanResult) : Prop :=
  calculateRiskScore result.findings job.resolved.rules job.resolved.ruleset result.completeness =
    some result.score

/-- **A run shows a result**: its findings, and the score of them. -/
structure Shows (t : RiskTables) (k : ScanRunKey) (result : RiskScanResult) : Prop where
  findings : FindingsAre t k result
  score : scoreRecord k result ∈ t.scores
  calculated : job.Calculated result

/-- **Every finished run shows its own result**, the one of the attempt
that set its status. -/
def ShowsOwnResult (t : RiskTables) : Prop :=
  ∀ k status, t.Stands k status → status = .completed ∨ status = .incomplete →
    ∃ result, t.settledBy k = some result ∧ result.status.runStatus = status ∧
      job.Shows t k result

/-- An attempt inserts its findings where another's are stored under its
run. -/
def mixes (w : Workers RiskTables ScanAttempt ScanReturn) :
    WorkerLabel ScanCall RiskScanJobInput ScanEvent → Bool
  | .call id _ answer =>
    match w.progress id with
    | .running a =>
      match a.phase with
      | .insertFindings context result =>
        answer ≠ .failed && w.shared.findings.rows.any fun f =>
          f.scanRunId = job.idempotencyKey context &&
            decide (f ∉ result.findings.map (findingRecord (job.idempotencyKey context)))
      | _ => false
    | _ => false
  | _ => false

/-! ## The invariant -/

/-- What an attempt has on its way to the status. -/
def Holding (t : RiskTables) : ScanPhase → Prop
  | .insertFindings _ result =>
    (result.findings.map (·.fingerprint)).Nodup ∧ job.Calculated result
  | .insertScore context result =>
    job.Calculated result ∧ FindingsAre t (job.idempotencyKey context) result
  | .updateScanRun context result => job.Shows t (job.idempotencyKey context) result
  | _ => True

/-- A run that is settled shows the result it was settled by. -/
def Shown (t : RiskTables) : Prop :=
  ∀ k status, t.Stands k status → status ≠ .running → status ≠ .failed →
    ∃ result, t.settledBy k = some result ∧ result.status.runStatus = status ∧ job.Shows t k result

structure OwnInvariant (w : Workers RiskTables ScanAttempt ScanReturn) : Prop where
  shown : job.Shown w.shared
  holding : ∀ id a, w.progress id = .running a → job.Holding w.shared a.phase

variable {job} {t t' s : RiskTables} {a : ScanAttempt} {n : Progress ScanAttempt ScanReturn}
variable {k : ScanRunKey} {result : RiskScanResult} {context : RiskScanContext}

theorem Shows.of_same (h : job.Shows t k result) (hsame : Same k t t') : job.Shows t' k result where
  findings f hf := (hsame.findings f hf).trans (h.findings f hf)
  score := (hsame.scores _ rfl).mpr h.score
  calculated := h.calculated

/-- What is held of a run is held where the run is the same. -/
theorem Holding.of_same {phase : ScanPhase} (h : job.Holding t phase)
    (hsame : ∀ k, job.claimed phase = some k → Same k t t') : job.Holding t' phase := by
  cases phase with
  | insertFindings context result => exact h
  | insertScore context result =>
    exact ⟨h.1, fun f hf => ((hsame _ rfl).findings f hf).trans (h.2 f hf)⟩
  | updateScanRun context result => exact Shows.of_same h (hsame _ rfl)
  | _ => trivial

/-- **Findings of one attempt** are stored as they are, where no others
are. -/
theorem findingsAre_insertAll (hnodup : (result.findings.map (·.fingerprint)).Nodup)
    (hown : ∀ f ∈ t.findings.rows, f.scanRunId = k → f ∈ result.findings.map (findingRecord k)) :
    FindingsAre
      { t with
        findings := t.findings.insertAll (result.findings.map (findingRecord k)) } k result := by
  have hinj : ∀ f ∈ result.findings.map (findingRecord k),
      ∀ f' ∈ result.findings.map (findingRecord k), f.key = f'.key → f = f' := by
    intro f hf f' hf' hkey
    obtain ⟨finding, hfinding, rfl⟩ := List.mem_map.mp hf
    obtain ⟨finding', hfinding', rfl⟩ := List.mem_map.mp hf'
    have hfingerprint : finding.fingerprint = finding'.fingerprint := (Prod.mk.inj hkey).2
    rw [List.inj_on_of_nodup_map hnodup hfinding hfinding' hfingerprint]
  intro f hf
  constructor
  · intro hin
    rcases Table.mem_of_mem_insertAll hin with hin | ⟨hin, -⟩
    · exact hown f hin hf
    · exact hin
  · intro hin
    by_cases hkey : f.key ∈ t.findings.keys
    · obtain ⟨f', hf', hsame⟩ := Table.mem_keys.mp hkey
      have hf'k : f'.scanRunId = k := (Prod.mk.inj hsame).1.trans hf
      obtain rfl := hinj f' (hown f' hf' hf'k) f hin hsame
      exact Table.mem_insertAll_of_mem hf'
    · obtain ⟨f', hf', hrecord, hsame⟩ := Table.exists_mem_insertAll hin hkey
      obtain rfl := hinj f' hrecord f hin hsame
      exact hf'

/-- A run given a status leaves the other settled runs showing theirs. -/
theorem Shown.of_gives {status : ScanRunStatus} (h : job.Shown t) (hgives : t.Gives t' k status)
    (hfindings : t'.findings = t.findings) (hscores : t'.scores = t.scores)
    (hsettled : ∀ k' ≠ k, t'.settledBy k' = t.settledBy k')
    (hnew : status ≠ .running → status ≠ .failed → ∃ result, t'.settledBy k = some result ∧
      result.status.runStatus = status ∧ job.Shows t' k result) : job.Shown t' := by
  intro k' status' hs hrunning hfailed
  by_cases hk : k' = k
  · obtain rfl : status' = status := by
      have hcase := (hgives k' status').mp hs
      rwa [if_pos hk] at hcase
    rw [hk]
    exact hnew hrunning hfailed
  · obtain ⟨result, hresult, hstatus, hshows⟩ :=
      h k' status' ((hgives.other hk).mp hs) hrunning hfailed
    refine ⟨result, by rw [hsettled k' hk, hresult], hstatus, ?_⟩
    exact hshows.of_same (.of_gives hgives hk hfindings hscores (hsettled k' hk))

/-- A statement on a running run leaves what is settled. -/
theorem Shown.of_same (h : job.Shown t) (hstands : ∀ k status, t'.Stands k status ↔ t.Stands k status)
    (hsame : ∀ k, ¬t.Stands k .running → ¬t.Stands k .failed → k ∈ t.runs.keys → Same k t t') :
    job.Shown t' := by
  intro k status hs hrunning hfailed
  have hbefore := (hstands k status).mp hs
  have hk := hsame k (fun hr => hrunning (hbefore.eq hr)) (fun hf => hfailed (hbefore.eq hf))
    (RiskTables.mem_keys_iff.mpr ⟨status, hbefore⟩)
  obtain ⟨result, hresult, hstatus, hshows⟩ := h k status hbefore hrunning hfailed
  exact ⟨result, by rw [hk.settledBy, hresult], hstatus, hshows.of_same hk⟩

/-- **An effect leaves every settled run showing its result.** -/
theorem Effect.shown (h : job.Effect t a t' n) (hknows : job.Knows t a.phase)
    (hholding : job.Holding t a.phase) (hshown : job.Shown t) : job.Shown t' := by
  -- an attempt before its status stands on a running run, which is no settled one's
  have hrun : ∀ {context}, job.claimed a.phase = some (job.idempotencyKey context) →
      (∀ context, a.phase ≠ .reportFailure context) → ∀ k, ¬t.Stands k .running →
      job.claimed a.phase ≠ some k := by
    intro context hclaim hcatch k hk hsame
    exact hk (hknows.running hsame hcatch)
  have heffect := h
  cases h with
  | unclaimed => exact hshown
  | inserted hphase hfree =>
    exact hshown.of_gives (RiskTables.gives_insert hfree) rfl rfl (fun _ _ => rfl)
      fun h _ => absurd rfl h
  | reclaimed hphase hfailed hgives hfindings hscores hsettled =>
    exact hshown.of_gives hgives hfindings hscores (fun _ _ => by rw [hsettled])
      fun h _ => absurd rfl h
  | held => exact hshown
  | @findings context result hphase =>
    refine hshown.of_same (fun _ _ => Iff.rfl) fun k hr hf hk => ?_
    have hclaim : job.claimed a.phase = some (job.idempotencyKey context) := by
      rw [hphase]
      rfl
    exact heffect.same hknows (hrun hclaim (by simp [hphase]) k hr) hk hf
  | @score context result hphase =>
    refine hshown.of_same (fun _ _ => Iff.rfl) fun k hr hf hk => ?_
    have hclaim : job.claimed a.phase = some (job.idempotencyKey context) := by
      rw [hphase]
      rfl
    exact heffect.same hknows (hrun hclaim (by simp [hphase]) k hr) hk hf
  | @settled context result t' r hphase hgives hfindings hscores hsettled =>
    have hclaim := congrArg job.claimed hphase
    rw [hphase] at hholding
    refine hshown.of_gives (hgives (hknows.of_claimed hclaim).1) hfindings hscores
      (fun k hk => by rw [hsettled, Function.update_of_ne hk]) fun _ _ => ?_
    refine ⟨result, by rw [hsettled, Function.update_self], rfl, ?_⟩
    exact ⟨fun f hf => by rw [hfindings]; exact hholding.findings f hf,
      by rw [hscores]; exact hholding.score, hholding.calculated⟩
  | failed hphase hgives hfindings hscores hsettled =>
    have hclaim := congrArg job.claimed hphase
    exact hshown.of_gives (hgives (hknows.of_claimed hclaim).1) hfindings hscores
      (fun _ _ => by rw [hsettled]) fun _ h => absurd rfl h

/-- **What the attempt has next.** -/
theorem Effect.holding (h : job.Effect t a t' n) (hholding : job.Holding t a.phase)
    (hown : ∀ context result, a.phase = .insertFindings context result →
      ∀ f ∈ t.findings.rows, f.scanRunId = job.idempotencyKey context →
        f ∈ result.findings.map (findingRecord (job.idempotencyKey context))) {a' : ScanAttempt}
    (hn : n = .running a') : job.Holding t' a'.phase := by
  cases h with
  | unclaimed h hclaim =>
    rw [hn, claimedBy_running] at hclaim
    cases hphase : a'.phase <;> rw [hphase] at hclaim <;> trivial
  | inserted =>
    obtain rfl := Progress.running.inj hn
    trivial
  | reclaimed =>
    obtain rfl := Progress.running.inj hn
    trivial
  | held hclaim hrunning hnext =>
    obtain rfl := Progress.running.inj hn
    rcases hnext with ⟨_, h⟩ | ⟨_, _, h⟩ | ⟨_, h, hnodup, hcalculated⟩ | h
    · rw [h]
      trivial
    · rw [h]
      trivial
    · rw [h]
      exact ⟨hnodup, hcalculated⟩
    · rw [h]
      trivial
  | findings hphase =>
    obtain rfl := Progress.running.inj hn
    rw [hphase] at hholding
    exact ⟨hholding.2, findingsAre_insertAll hholding.1 (hown _ _ hphase)⟩
  | score hphase =>
    obtain rfl := Progress.running.inj hn
    rw [hphase] at hholding
    exact ⟨hholding.2, Table.mem_put_self _ _, hholding.1⟩
  | settled => exact absurd hn (by simp)
  | failed => exact absurd hn (by simp)

variable {w w' : Workers RiskTables ScanAttempt ScanReturn} {id : ℕ}
variable {l : WorkerLabel ScanCall RiskScanJobInput ScanEvent}

/-- **One attempt moved on** leaves what the others hold of their runs. -/
theorem OwnInvariant.put (h : job.OwnInvariant w) (hinv : job.ScanInvariant w)
    (hrun : w.progress id = .running a) (hshown : job.Shown s)
    (hholding : ∀ a', n = .running a' → job.Holding s a'.phase)
    (hsame : ∀ k, job.claimed a.phase ≠ some k → k ∈ w.shared.runs.keys →
      ¬w.shared.Stands k .failed → Same k w.shared s) : job.OwnInvariant (w.put id s n) where
  shown := hshown
  holding id' a' hrun' := by
    by_cases hid : id' = id
    · rw [hid, Workers.progress_put_self] at hrun'
      exact hholding a' hrun'
    · rw [Workers.progress_put_of_ne hid] at hrun'
      refine (h.holding id' a' hrun').of_same fun k hk => ?_
      obtain ⟨hnot, hmem, hfailed⟩ := hinv.apart hrun hid (by rw [hrun']; exact hk)
      exact hsame k hnot hmem hfailed

/-- The `catch` holds nothing. -/
theorem holding_thrown {a' : ScanAttempt} (hn : thrown a = .running a') :
    job.Holding s a'.phase := by
  rcases thrown_cases job a with hthrew | ⟨context, hreport, -⟩
  · exact absurd (hthrew.symm.trans hn) (by simp)
  · obtain rfl := Progress.running.inj (hreport.symm.trans hn)
    trivial

/-- Where an insert of findings does not mix, those stored are its own. -/
theorem own_of_mixes {c : ScanCall} {answer : Answer} (hrun : w.progress id = .running a)
    (hC : job.mixes w (.call id c answer) = false) (hanswer : answer ≠ .failed)
    (hphase : a.phase = .insertFindings context result) :
    ∀ f ∈ w.shared.findings.rows, f.scanRunId = job.idempotencyKey context →
      f ∈ result.findings.map (findingRecord (job.idempotencyKey context)) := by
  intro f hf hk
  simp only [mixes, hrun, hphase, Bool.and_eq_false_iff, List.any_eq_false] at hC
  rcases hC with hC | hC
  · exact absurd hanswer (by simpa using hC)
  · have hnot := hC f hf
    simpa [hk] using hnot

/-- **The step**: while no insert mixes findings, every settled run shows
its result. -/
theorem OwnInvariant.step (h : job.OwnInvariant w) (hinv : job.ScanInvariant w)
    (hC : job.mixes w l = false) (hs : job.procedure.Step w l w') : job.OwnInvariant w' := by
  cases hs with
  | @start id i hidle =>
    refine ⟨h.shown, fun id' a' hrun' => ?_⟩
    by_cases hid : id' = id
    · rw [hid, Workers.progress_put_self] at hrun'
      obtain rfl := Progress.running.inj hrun'
      trivial
    · rw [Workers.progress_put_of_ne hid] at hrun'
      exact h.holding id' a' hrun'
  | returned hrun hcall =>
    have heffect := Effect.of_call hcall
    have hknows := hinv.knows hrun
    have hholding := h.holding _ _ hrun
    exact h.put hinv hrun (heffect.shown hknows hholding h.shown)
      (fun a' => heffect.holding hholding fun _ _ => own_of_mixes hrun hC (by simp))
      fun k => heffect.same hknows
  | failed hrun hcall =>
    exact h.put hinv hrun h.shown (fun a' => holding_thrown) fun k _ _ _ => .refl k _
  | unacknowledged hrun hcall =>
    have heffect := Effect.of_call hcall
    have hknows := hinv.knows hrun
    exact h.put hinv hrun (heffect.shown hknows (h.holding _ _ hrun) h.shown)
      (fun a' => holding_thrown) fun k => heffect.same hknows
  | crash hrun =>
    exact h.put hinv hrun h.shown (fun a' ha' => absurd ha' (by simp)) fun k _ _ _ => .refl k _
  | @env e s henv =>
    cases e with
    | requestScanCancellation key =>
      obtain rfl := Option.some.inj henv
      have hsame : ∀ k, Same k w.shared (w.shared.updateRun (fun r => r.idempotencyKey = key)
          (fun r => { r with cancellationRequested := true }) fun _ => rfl) := fun k =>
        ⟨fun _ => RiskTables.stands_requestCancellation, fun _ _ => Iff.rfl, fun _ _ => Iff.rfl,
          rfl⟩
      exact ⟨h.shown.of_same (fun k => (hsame k).stands) fun k _ _ _ => hsame k,
        fun id a hrun => (h.holding id a hrun).of_same fun k _ => hsame k⟩

/-- **While no insert mixes findings, a finished run shows its own
result.** -/
theorem showsOwnResult_of_reaches
    (h : job.machine.Reaches (fun w l => job.mixes w l = false) w) :
    job.ShowsOwnResult w.shared := by
  have hown : job.ScanInvariant w ∧ job.OwnInvariant w := by
    refine Procedure.invariant_of_reaches (I := fun w => job.ScanInvariant w ∧ job.OwnInvariant w) h
      (fun w hw hidle => ⟨scanInvariant_of_reaches (.init (C := fun _ _ => True) ⟨hw, hidle⟩), ?_⟩)
      fun w l w' hI hC hs => ⟨hI.1.step hs, hI.2.step hI.1 hC hs⟩
    refine ⟨fun k status hs => ?_, fun id a hrun => ?_⟩
    · obtain ⟨r, hr, -⟩ := hs
      rw [hw] at hr
      exact absurd hr List.not_mem_nil
    · rw [hidle id] at hrun
      exact absurd hrun (by simp)
  intro k status hs hstatus
  refine hown.2.shown k status hs ?_ ?_
  · rintro rfl
    simp at hstatus
  · rintro rfl
    simp at hstatus

/-! ## A sample retry -/

/-- The retry of a failed delivery. -/
def retryLabels (id : ℕ) (status : RiskFindingStatus) :
    List (WorkerLabel ScanCall RiskScanJobInput ScanEvent) :=
  claimLabels id ++ [.call id .claimUpdate .returned,
    .call id (.isScanCancellationRequested false) .returned,
    .call id (.getActiveSuppressions []) .returned,
    .call id (.scan (sampleExecute status) false) .returned, .call id .insertFindings .returned,
    .call id .insertScore .returned, .call id .updateScanRun .returned]

/-- A retry that finds what the failed delivery found. -/
theorem showsOwnResult_sample : ∃ w, sample.machine.exec sampleStart
      (failedLabels 0 .fail ++ retryLabels 1 .fail) = some w ∧
    sample.ShowsOwnResult w.shared ∧
      w.shared.Stands (sample.idempotencyKey sampleContext) .completed := by
  have hrun : (sample.machine.exec sampleStart (failedLabels 0 .fail ++ retryLabels 1 .fail)).map
      (fun w => decide (w.shared.Stands (sample.idempotencyKey sampleContext) .completed)) =
        some true := by decide +kernel
  obtain ⟨w, hexec, hcompleted⟩ := Option.map_eq_some_iff.mp hrun
  have hmeets : sample.machine.Meets (fun w l => sample.mixes w l = false) sampleStart
      (failedLabels 0 .fail ++ retryLabels 1 .fail) := by decide +kernel
  exact ⟨w, hexec, showsOwnResult_of_reaches (Machine.Reaches.exec (.init ⟨rfl, fun _ => rfl⟩)
    hmeets hexec), of_decide_eq_true hcompleted⟩

/-- **A retry that finds nothing** completes with the failed delivery's
finding under a score that does not count it. -/
theorem not_showsOwnResult : ¬∀ (job : RiskScanJob)
    (w : Workers RiskTables ScanAttempt ScanReturn), job.machine.Reachable w →
      job.ShowsOwnResult w.shared := by
  intro h
  have hrun : (sample.machine.exec sampleStart (failedLabels 0 .fail ++ retryLabels 1 .pass)).map
      (fun w => (decide (w.shared.Stands (sample.idempotencyKey sampleContext) .completed),
        (w.shared.settledBy (sample.idempotencyKey sampleContext)).map fun result =>
          w.shared.findings.rows.all fun f =>
            decide (f ∉ result.findings.map (findingRecord (sample.idempotencyKey sampleContext))),
        w.shared.findings.rows.map fun f =>
          decide (f.scanRunId = sample.idempotencyKey sampleContext))) =
        some (true, some true, [true]) := by decide +kernel
  obtain ⟨w, hexec, hw⟩ := Option.map_eq_some_iff.mp hrun
  simp only [Prod.mk.injEq, decide_eq_true_eq] at hw
  obtain ⟨hcompleted, hsettled, hkeys⟩ := hw
  obtain ⟨result, hresult, -, hshows⟩ := h sample w (Machine.reachable_of_exec ⟨rfl, fun _ => rfl⟩
    hexec) _ _ hcompleted (Or.inl rfl)
  rw [hresult, Option.map_some, Option.some.injEq, List.all_eq_true] at hsettled
  obtain ⟨f, rest, hrows⟩ : ∃ f rest, w.shared.findings.rows = f :: rest := by
    cases hrows : w.shared.findings.rows with
    | nil => simp [hrows] at hkeys
    | cons f rest => exact ⟨f, rest, rfl⟩
  have hin : f ∈ w.shared.findings.rows := by rw [hrows]; exact List.mem_cons_self
  have hk : f.scanRunId = sample.idempotencyKey sampleContext := by
    rw [hrows, List.map_cons, List.cons.injEq] at hkeys
    exact of_decide_eq_true hkeys.1
  exact of_decide_eq_true (hsettled f hin) ((hshows.findings f hk).mp hin)

end RiskScanJob

end HoodSentry
