import HoodSentry.Indexer.Reconciliation
import HoodSentry.Worker.Model.DerivedStore
import HoodSentry.Worker.RiskScan
/-!
# What a reorg leaves canonical

After a handled reorg no block of its range is canonical, so a canonical
row that names one is an orphan. `noOrphanSurvives_handleReorg_iff`: the
indexer's tables keep none, and the others keep all they had. The jobs
written to invalidate them would take those of risk scans and discovery.
-/

namespace HoodSentry

variable {cfg : IndexerConfig} {e : ReorgEvent} {db : Db} {s : DerivedStore} {t : SourcedTable}

/-! ## Rows and their source -/

/-- A table whose rows name a source block. -/
inductive SourcedTable
  | fact (table : FactTable) | derived (table : DerivedTable)
  | riskScanRuns | riskRescanRequests | discoverySnapshots | discoveryCurrent | providerEvidence
deriving DecidableEq

/-- `handleReorg` has a statement for the table. -/
def SourcedTable.marked : SourcedTable → Bool
  | fact _ | derived _ => true
  | _ => false

/-- What a row says of its source. -/
structure SourcedRow where
  chainId : ℕ
  sourceBlock : Option ℕ
  sourceBlockHash : Option Hash
  canonical : Bool
deriving DecidableEq

/-- The source block of a row lies in the range of a reorg. -/
def SourcedRow.inRangeOf (cfg : IndexerConfig) (e : ReorgEvent) (r : SourcedRow) : Bool :=
  r.sourceBlock.any fun n => inRange cfg e.fromBlock e.toBlock r.chainId n

namespace DerivedStore

/-- The rows of a table, as they name their source. -/
def sourced (s : DerivedStore) : SourcedTable → List SourcedRow
  | .fact t =>
    (s.db.facts t).map fun r => ⟨r.chainId, some r.blockNumber, some r.blockHash, r.canonical⟩
  | .derived t =>
    (s.db.derived t).map fun r => ⟨r.chainId, r.sourceBlock, r.sourceBlockHash, r.canonical⟩
  | .riskScanRuns => s.risk.runs.rows.map fun r => ⟨r.idempotencyKey.target.chainId,
      some r.idempotencyKey.sourceBlock, some r.idempotencyKey.sourceBlockHash, r.canonical⟩
  | .riskRescanRequests => s.rescanRequests.rows.map fun r => ⟨r.idempotencyKey.target.chainId,
      some r.idempotencyKey.sourceBlock, some r.idempotencyKey.sourceBlockHash, r.canonical⟩
  | .discoverySnapshots => s.discovery.snapshots.rows.map fun r =>
      ⟨r.chainId, some r.sourceBlockNumber, some r.sourceBlockHash, r.canonical⟩
  | .discoveryCurrent => s.discovery.current.rows.map fun r =>
      ⟨r.chainId, some r.sourceBlockNumber, some r.sourceBlockHash, r.canonical⟩
  | .providerEvidence => s.evidence.rows.filterMap fun r => r.chainId.map fun chainId =>
      ⟨chainId, r.sourceBlockNumber, r.sourceBlockHash, r.canonical⟩

/-- The block a row names is canonical. A row without a hash names
whatever is canonical at its height. -/
def SourceCanonical (s : DerivedStore) (r : SourcedRow) : Prop :=
  ∃ b ∈ s.db.blocks.rows, b.canonical = true ∧ b.chainId = r.chainId ∧
    r.sourceBlock = some b.number ∧ ∀ h, r.sourceBlockHash = some h → h = b.hash

/-- **No canonical row of an orphaned block.** -/
def NoOrphanSurvives (cfg : IndexerConfig) (e : ReorgEvent) (s : DerivedStore) : Prop :=
  ∀ t, ∀ r ∈ s.sourced t, r.canonical = true → r.inRangeOf cfg e = true → s.SourceCanonical r

/-- A table has no canonical row in the range of a reorg. -/
def Clear (cfg : IndexerConfig) (e : ReorgEvent) (s : DerivedStore) (t : SourcedTable) : Prop :=
  ∀ r ∈ s.sourced t, r.canonical = true → r.inRangeOf cfg e = false

instance : Decidable (s.Clear cfg e t) := inferInstanceAs (Decidable (∀ _ ∈ _, _ → _))

/-! ## What the statements mark -/

/-- A marked row that is canonical names no block of the range. -/
theorem inRange_of_markDerivedRow {t : DerivedTable} {old r : DerivedRow}
    (hr : r = markDerivedRow cfg t e.fromBlock e.toBlock old) (hc : r.canonical = true) :
    (r.sourceBlock.any fun n => inRange cfg e.fromBlock e.toBlock r.chainId n) = false := by
  subst hr
  -- candles and metrics are marked by their chain, which a row in the range is on
  have hchain : old.chainId ≠ cfg.chainId →
      (old.sourceBlock.any fun n => inRange cfg e.fromBlock e.toBlock old.chainId n) = false := by
    intro hne
    simp [inRange, hne]
  unfold markDerivedRow at hc ⊢
  cases t <;> simp only at hc ⊢ <;> split at hc <;> simp_all

/-- **A statement marks its own derived table**, and the pools' state has
one more. -/
theorem derived_apply {st : ReorgStatement} {t : DerivedTable} :
    (st.apply cfg e.fromBlock e.toBlock db).derived t =
      if st = .markDerived t then
        (db.derived t).map (markDerivedRow cfg t e.fromBlock e.toBlock)
      else if st = .resetPoolState ∧ t = .pools then
        (db.derived t).map (resetPoolStateRow cfg e.fromBlock e.toBlock)
      else db.derived t := by
  cases st with
  | markDerived table =>
    simp only [ReorgStatement.apply, ReorgStatement.markDerived.injEq, reduceCtorEq, false_and,
      if_false]
    by_cases h : t = table
    · subst h
      rfl
    · rw [if_neg h, if_neg (Ne.symm h)]
  | resetPoolState =>
    simp only [ReorgStatement.apply, reduceCtorEq, if_false, true_and]
  | _ => rfl

/-- Each derived table is marked, the pools' after their state is reset. -/
theorem reorgStatements_split (t : DerivedTable) : ∃ before after,
    reorgStatements = before ++ .markDerived t :: after ∧
      (t = .pools → .resetPoolState ∉ after) := by
  by_cases ht : t = .pools
  · subst ht
    exact ⟨reorgStatements.take 17, reorgStatements.drop 18, rfl, fun _ => by decide⟩
  · have hmem : .markDerived t ∈ reorgStatements := by
      cases t <;> simp [reorgStatements]
    obtain ⟨before, after, hsplit⟩ := List.append_of_mem hmem
    exact ⟨before, after, hsplit, fun h => absurd h ht⟩

/-- A marked table stays so unless it is reset. -/
theorem marked_foldl {t : DerivedTable} {statements : List ReorgStatement}
    {rows : List DerivedRow} (hreset : t = .pools → .resetPoolState ∉ statements)
    (h : db.derived t = rows.map (markDerivedRow cfg t e.fromBlock e.toBlock)) :
    ∃ rows : List DerivedRow,
      (statements.foldl (fun db s => s.apply cfg e.fromBlock e.toBlock db) db).derived t =
        rows.map (markDerivedRow cfg t e.fromBlock e.toBlock) := by
  induction statements generalizing db rows with
  | nil => exact ⟨rows, h⟩
  | cons st statements ih =>
    have hrest : t = .pools → .resetPoolState ∉ statements := fun ht hm =>
      hreset ht (List.mem_cons_of_mem _ hm)
    have happly : (st.apply cfg e.fromBlock e.toBlock db).derived t = _ := derived_apply
    by_cases hst : st = .markDerived t
    · rw [if_pos hst] at happly
      exact ih hrest happly
    · have hkept : ¬(st = .resetPoolState ∧ t = .pools) := fun ⟨hs, ht⟩ =>
        hreset ht (hs ▸ List.mem_cons_self)
      rw [if_neg hst, if_neg hkept] at happly
      exact ih hrest (happly.trans h)

/-- Every row of a derived table is marked. -/
theorem mem_derived_handleReorg {t : DerivedTable} {r : DerivedRow}
    (h : r ∈ (HoodSentry.handleReorg cfg e db).derived t) :
    ∃ old, r = markDerivedRow cfg t e.fromBlock e.toBlock old := by
  obtain ⟨before, after, hsplit, hreset⟩ := reorgStatements_split t
  have hmarked := fun db : Db => (derived_apply : (ReorgStatement.apply cfg e.fromBlock e.toBlock
    db (.markDerived t)).derived t = _).trans (if_pos rfl)
  rw [HoodSentry.handleReorg, resolveReorgEvent, hsplit, List.foldl_append,
    List.foldl_cons] at h
  obtain ⟨rows, hrows⟩ := marked_foldl hreset (hmarked _)
  rw [hrows, List.mem_map] at h
  obtain ⟨old, -, rfl⟩ := h
  exact ⟨old, rfl⟩

/-- **The marked tables are clear afterwards.** -/
theorem clear_handleReorg (h : t.marked = true) : (s.handleReorg cfg e).Clear cfg e t := by
  intro r hr hc
  cases t with
  | fact t =>
    rw [sourced, List.mem_map] at hr
    obtain ⟨f, hf, rfl⟩ := hr
    rw [show (s.handleReorg cfg e).db = HoodSentry.handleReorg cfg e s.db from rfl,
      facts_handleReorg, List.mem_map] at hf
    obtain ⟨f, -, rfl⟩ := hf
    exact (Fact.canonical_marked.mp hc).2 e List.mem_cons_self
  | derived t =>
    rw [sourced, List.mem_map] at hr
    obtain ⟨d, hd, rfl⟩ := hr
    obtain ⟨old, hold⟩ := mem_derived_handleReorg hd
    exact inRange_of_markDerivedRow hold hc
  | _ => exact absurd h Bool.false_ne_true

/-- The others keep their rows. -/
theorem sourced_handleReorg (h : t.marked = false) :
    (s.handleReorg cfg e).sourced t = s.sourced t := by
  cases t with
  | fact t => exact absurd h.symm Bool.false_ne_true
  | derived t => exact absurd h.symm Bool.false_ne_true
  | _ => rfl

/-- No block of the range is canonical afterwards. -/
theorem not_sourceCanonical_handleReorg {r : SourcedRow} (h : r.inRangeOf cfg e = true) :
    ¬(s.handleReorg cfg e).SourceCanonical r := by
  rintro ⟨b, hb, hcanonical, hchain, hnumber, -⟩
  have hmarked : (s.handleReorg cfg e).Clear cfg e (.fact .blocks) := clear_handleReorg rfl
  have hclear := hmarked ⟨b.chainId, some b.number, some b.hash, b.canonical⟩
    (List.mem_map.mpr ⟨_, List.mem_map.mpr ⟨b, hb, rfl⟩, rfl⟩) hcanonical
  rw [SourcedRow.inRangeOf, hnumber, ← hchain] at h
  exact Bool.false_ne_true (hclear.symm.trans h)

/-- So no orphan survives exactly when the tables it has no statement for
had no canonical row in the range. -/
theorem noOrphanSurvives_handleReorg_iff :
    (s.handleReorg cfg e).NoOrphanSurvives cfg e ↔ ∀ t, t.marked = false → s.Clear cfg e t := by
  constructor
  · intro h t ht r hr hc
    by_contra hin
    rw [Bool.not_eq_false] at hin
    have hsame : (s.handleReorg cfg e).sourced t = s.sourced t := sourced_handleReorg ht
    rw [← hsame] at hr
    exact not_sourceCanonical_handleReorg hin (h t r hr hc hin)
  · intro h t r hr hc hin
    cases ht : t.marked with
    | true => exact absurd (hin.symm.trans (clear_handleReorg ht r hr hc)) (by simp)
    | false =>
      rw [sourced_handleReorg ht] at hr
      exact absurd (hin.symm.trans (h t ht r hr hc)) (by simp)

/-! ## The jobs nobody runs -/

/-- Cleared from a block up, a table has nothing canonical in the range. -/
theorem not_inRange_of_invalidated {ρ κ : Type} [DecidableEq κ] {key : ρ → κ} {table : Table key}
    {chain block : ρ → ℕ} {canonical : ρ → Bool} {f : ρ → ρ} {x : ρ}
    (hf : ∀ r, key (f r) = key r) (hclear : ∀ r, canonical (f r) = false)
    (hx : x ∈ table.updateWhere
      (fun r => chain r = cfg.chainId && e.fromBlock ≤ block r && canonical r) f hf)
    (hc : canonical x = true) : inRange cfg e.fromBlock e.toBlock (chain x) (block x) = false := by
  have hbelow := ((Table.mem_updateWhere_flag canonical hclear).mp ⟨hx, hc⟩).2
  rw [inRange, hbelow, Bool.false_and]

/-- Scans and rescan requests from a block up are invalidated. -/
theorem clear_riskReorgJob {s' : DerivedStore}
    (h : s.riskReorgJob cfg.chainId e.fromBlock = some s') :
    s'.Clear cfg e .riskScanRuns ∧ s'.Clear cfg e .riskRescanRequests := by
  rw [riskReorgJob] at h
  split at h
  · obtain rfl := Option.some.inj h
    constructor
    · intro r hr hc
      obtain ⟨x, hx, rfl⟩ := List.mem_map.mp hr
      exact not_inRange_of_invalidated (by exact fun _ => rfl) (by exact fun _ => rfl) hx hc
    · intro r hr hc
      obtain ⟨x, hx, rfl⟩ := List.mem_map.mp hr
      exact not_inRange_of_invalidated (by exact fun _ => rfl) (by exact fun _ => rfl) hx hc
  · exact absurd h (by simp)

/-- Snapshots of the range are marked, and its current rows are gone. -/
theorem clear_discoveryReorgJob {s' : DerivedStore}
    (h : s.discoveryReorgJob cfg.chainId e.fromBlock e.toBlock = some s') :
    s'.Clear cfg e .discoverySnapshots ∧ s'.Clear cfg e .discoveryCurrent := by
  rw [discoveryReorgJob] at h
  split at h
  · obtain rfl := Option.some.inj h
    constructor
    · intro r hr hc
      obtain ⟨x, hx, rfl⟩ := List.mem_map.mp hr
      exact ((Table.mem_updateWhere_clear (f := fun r => { r with canonical := false })
        DiscoveryRow.canonical (fun _ => rfl) (fun _ => rfl) hc).mp hx).2
    · intro r hr hc
      obtain ⟨x, hx, rfl⟩ := List.mem_map.mp hr
      exact (Table.mem_deleteWhere.mp hx).2
  · exact absurd h (by simp)

/-- **With both jobs run after it**, a reorg leaves orphans among the
evidence of providers alone. -/
theorem noOrphanSurvives_reorgJobs {s₁ s₂ : DerivedStore}
    (hrisk : (s.handleReorg cfg e).riskReorgJob cfg.chainId e.fromBlock = some s₁)
    (hdiscovery : s₁.discoveryReorgJob cfg.chainId e.fromBlock e.toBlock = some s₂)
    (hevidence : s.Clear cfg e .providerEvidence) : s₂.NoOrphanSurvives cfg e := by
  have hkept₁ : ∀ t, t ≠ .riskScanRuns → t ≠ .riskRescanRequests →
      s₁.sourced t = (s.handleReorg cfg e).sourced t := by
    rw [riskReorgJob] at hrisk
    split at hrisk
    · obtain rfl := Option.some.inj hrisk
      intro t hruns hrequests
      cases t <;> first | rfl | contradiction
    · exact absurd hrisk (by simp)
  have hkept₂ : ∀ t, t ≠ .discoverySnapshots → t ≠ .discoveryCurrent →
      s₂.sourced t = s₁.sourced t := by
    rw [discoveryReorgJob] at hdiscovery
    split at hdiscovery
    · obtain rfl := Option.some.inj hdiscovery
      intro t hsnapshots hcurrent
      cases t <;> first | rfl | contradiction
    · exact absurd hdiscovery (by simp)
  have hruns := clear_riskReorgJob hrisk
  have hsnapshots := clear_discoveryReorgJob hdiscovery
  intro t r hr hc hin
  have hclear : s₂.Clear cfg e t := by
    intro r hr
    cases t with
    | discoverySnapshots => exact hsnapshots.1 r hr
    | discoveryCurrent => exact hsnapshots.2 r hr
    | riskScanRuns =>
      rw [hkept₂ _ (by simp) (by simp)] at hr
      exact hruns.1 r hr
    | riskRescanRequests =>
      rw [hkept₂ _ (by simp) (by simp)] at hr
      exact hruns.2 r hr
    | providerEvidence =>
      rw [hkept₂ _ (by simp) (by simp), hkept₁ _ (by simp) (by simp), sourced_handleReorg rfl] at hr
      exact hevidence r hr
    | fact t =>
      rw [hkept₂ _ (by simp) (by simp), hkept₁ _ (by simp) (by simp)] at hr
      exact clear_handleReorg rfl r hr
    | derived t =>
      rw [hkept₂ _ (by simp) (by simp), hkept₁ _ (by simp) (by simp)] at hr
      exact clear_handleReorg rfl r hr
  exact absurd (hin.symm.trans (hclear r hr hc)) (by simp)

/-! ## A sample scan -/

/-- A delivery that scans a token at block 5 and completes. -/
def completedLabels : List (WorkerLabel ScanCall RiskScanJobInput ScanEvent) :=
  RiskScanJob.claimLabels 0 ++ [.call 0 (.isScanCancellationRequested false) .returned,
    .call 0 (.getActiveSuppressions []) .returned,
    .call 0 (.scan (RiskScanJob.sampleExecute .pass) false) .returned,
    .call 0 .insertFindings .returned, .call 0 .insertScore .returned,
    .call 0 .updateScanRun .returned]

/-- The scanned block stored, and nothing else beside the scan. -/
def scanned (risk : RiskTables) : DerivedStore where
  db :=
    { Db.empty with
      blocks := .singleton ⟨1, 5, ⟨5⟩, ⟨4⟩, 60, .softConfirmed, true⟩ }
  risk := risk
  rescanRequests := ∅
  discovery := ⟨∅, ∅⟩
  evidence := ∅

/-- **The scan of an orphaned block** stays canonical. -/
theorem not_noOrphanSurvives : ¬∀ (job : RiskScanJob)
    (w : Workers RiskTables ScanAttempt ScanReturn) (cfg : IndexerConfig) (e : ReorgEvent)
    (s : DerivedStore), job.machine.Reachable w → s.risk = w.shared →
      (s.handleReorg cfg e).NoOrphanSurvives cfg e := by
  intro h
  have hrun : (RiskScanJob.sample.machine.exec RiskScanJob.sampleStart completedLabels).map
      (fun w => (scanned w.shared).sourced .riskScanRuns) = some [⟨1, some 5, some ⟨5⟩, true⟩] := by
    decide +kernel
  obtain ⟨w, hexec, hrows⟩ := Option.map_eq_some_iff.mp hrun
  have hsurvives := h RiskScanJob.sample w ⟨1, 10, false, true, none, 12, 6⟩
    ⟨0, 1, 5, 5, 4, 1, false⟩ (scanned w.shared)
    (Machine.reachable_of_exec ⟨rfl, fun _ => rfl⟩ hexec) rfl .riskScanRuns
    ⟨1, some 5, some ⟨5⟩, true⟩ (by rw [sourced_handleReorg rfl, hrows]; simp) rfl (by decide)
  exact not_sourceCanonical_handleReorg (by decide) hsurvives

theorem noOrphanSurvives_reorgJobs_scanned : ∃ s₁ s₂,
    ((scanned RiskScanJob.sampleStart.shared).handleReorg ⟨1, 10, false, true, none, 12, 6⟩
      ⟨0, 1, 5, 5, 4, 1, false⟩).riskReorgJob 1 5 = some s₁ ∧
    s₁.discoveryReorgJob 1 5 5 = some s₂ ∧
    s₂.NoOrphanSurvives ⟨1, 10, false, true, none, 12, 6⟩ ⟨0, 1, 5, 5, 4, 1, false⟩ :=
  ⟨_, _, rfl, rfl, noOrphanSurvives_reorgJobs rfl rfl fun _ hr => absurd hr List.not_mem_nil⟩

end DerivedStore

end HoodSentry
