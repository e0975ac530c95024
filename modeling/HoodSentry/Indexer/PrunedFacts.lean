import HoodSentry.Indexer.Model.Retention
import HoodSentry.Indexer.PrunedBalances
/-!
# What a prune leaves of the facts

The aged rows of a table fall into windows of heights, each from the lowest
height left, and the loop deletes the windows before its first call that
throws. The prune goes on with the next table after such a call, so the
order of the tables protects a block's facts only where every table got as
far as the blocks did.
-/

namespace HoodSentry

universe u v

/-! ## Windows -/

section Windows

/-- Where a window of `batch` heights starts: at the lowest of the heights,
and each after the first at the lowest past the one before. -/
def windowStart (batch : ℕ) (numbers : List ℕ) : ℕ → Option ℕ
  | 0 => numbers.min?
  | i + 1 => (windowStart batch numbers i).bind fun s => (numbers.filter (s + batch ≤ ·)).min?

/-- **A height in reach**: its window comes before the call that throws. -/
def Reached (batch : ℕ) (numbers : List ℕ) (throwsAt : Option ℕ) (n : ℕ) : Prop :=
  ∃ i, (∀ j ∈ throwsAt, i < j) ∧ ∃ s ∈ windowStart batch numbers i, s ≤ n ∧ n < s + batch

variable {batch n s : ℕ} {numbers : List ℕ} {throwsAt : Option ℕ}

/-- With the first window gone, the second is the first. -/
theorem windowStart_filter (h : numbers.min? = some s) (i : ℕ) :
    windowStart batch (numbers.filter (s + batch ≤ ·)) i = windowStart batch numbers (i + 1) := by
  induction i with
  | zero => rw [windowStart, windowStart, windowStart, h, Option.bind_some]
  | succ i ih =>
    rw [windowStart, windowStart, ih]
    refine Option.bind_congr fun s' hs' => ?_
    -- a later window starts past the first, so the filters are one filter
    have hlow : s + batch ≤ s' := by
      rw [← ih] at hs'
      have hmem : s' ∈ numbers.filter (s + batch ≤ ·) := by
        cases i with
        | zero => exact List.min?_mem hs'
        | succ i =>
          obtain ⟨s'', -, hmin⟩ := Option.bind_eq_some_iff.mp hs'
          exact List.mem_of_mem_filter (List.min?_mem hmin)
      exact of_decide_eq_true (List.mem_filter.mp hmem).2
    rw [List.filter_filter]
    congr 1
    refine List.filter_congr fun m _ => ?_
    rw [← Bool.decide_and, decide_eq_decide]
    omega

theorem not_reached_nil : ¬Reached batch [] throwsAt n := by
  rintro ⟨i, -, s, hs, -⟩
  have hnone : ∀ i, windowStart batch [] i = none := by
    intro i
    induction i with
    | zero => rfl
    | succ i ih => rw [windowStart, ih, Option.bind_none]
  rw [hnone] at hs
  exact Option.not_mem_none s hs

theorem not_reached_of_thrown : ¬Reached batch numbers (some 0) n := by
  rintro ⟨i, hi, -⟩
  exact absurd (hi 0 rfl) (Nat.not_lt_zero i)

/-- **A height is in reach** of the first window, or past it of one call
fewer. -/
theorem reached_iff (h : numbers.min? = some s) (hok : throwsAt ≠ some 0) (hn : s ≤ n) :
    Reached batch numbers throwsAt n ↔
      n < s + batch ∨
        Reached batch (numbers.filter (s + batch ≤ ·)) (throwsAt.map (· - 1)) n := by
  constructor
  · rintro ⟨i, hi, s', hs', hle, hlt⟩
    cases i with
    | zero =>
      have heq : s' = s := Option.some.inj (hs'.symm.trans h)
      exact Or.inl (heq ▸ hlt)
    | succ i =>
      refine Or.inr ⟨i, fun j hj => ?_, s', by rwa [windowStart_filter h], hle, hlt⟩
      obtain ⟨j', hj', rfl⟩ := Option.map_eq_some_iff.mp hj
      have := hi j' hj'
      omega
  · rintro (hlt | ⟨i, hi, s', hs', hle, hlt⟩)
    · refine ⟨0, fun j hj => ?_, s, h, hn, hlt⟩
      rcases Nat.eq_zero_or_pos j with rfl | hpos
      · exact absurd hj hok
      · exact hpos
    · refine ⟨i + 1, fun j hj => ?_, s', by rwa [windowStart_filter h] at hs', hle, hlt⟩
      have := hi (j - 1) (Option.map_eq_some_iff.mpr ⟨j, hj, rfl⟩)
      omega

end Windows

/-! ## A table's windows -/

section Table

variable {ρ : Type u} {κ : Type v} {key : ρ → κ} {chainOf numberOf : ρ → ℕ}
variable {chainId beforeBlock : ℕ} {o : RetentionOptions} {throwsAt : Option ℕ}

/-- The heights of a table's aged rows. -/
def agedNumbers (chainOf numberOf : ρ → ℕ) (chainId beforeBlock : ℕ) (t : Table key) : List ℕ :=
  (t.rows.filter (olderThan chainOf numberOf chainId beforeBlock)).map numberOf

theorem olderThan_iff {r : ρ} : olderThan chainOf numberOf chainId beforeBlock r = true ↔
    chainOf r = chainId ∧ numberOf r < beforeBlock := by
  rw [olderThan, Bool.and_eq_true, decide_eq_true_iff, decide_eq_true_iff]

/-- **What a pass deletes**: the first window. -/
theorem deleteOlderThan_eq {t : Table key} {start : ℕ}
    (h : (agedNumbers chainOf numberOf chainId beforeBlock t).min? = some start) :
    let pass := deleteOlderThan chainOf numberOf chainId beforeBlock o.deleteBatchSize t
    (∀ r, r ∈ pass.1 ↔ r ∈ t ∧ ¬(olderThan chainOf numberOf chainId beforeBlock r = true ∧
      numberOf r < start + o.deleteBatchSize)) ∧
    agedNumbers chainOf numberOf chainId beforeBlock pass.1 =
      (agedNumbers chainOf numberOf chainId beforeBlock t).filter
        (start + o.deleteBatchSize ≤ ·) := by
  have hlow : ∀ r ∈ t, olderThan chainOf numberOf chainId beforeBlock r = true →
      start ≤ numberOf r := by
    intro r hr hold
    exact (List.min?_eq_some_iff.mp h).2 _
      (List.mem_map_of_mem (List.mem_filter.mpr ⟨hr, hold⟩))
  have hhit : ∀ r ∈ t,
      (decide (chainOf r = chainId) && decide (start ≤ numberOf r) && decide (numberOf r <
        if start + o.deleteBatchSize < beforeBlock then start + o.deleteBatchSize
        else beforeBlock)) = true ↔
      olderThan chainOf numberOf chainId beforeBlock r = true ∧
        numberOf r < start + o.deleteBatchSize := by
    intro r hr
    have hlow := hlow r hr
    rw [olderThan_iff] at hlow ⊢
    simp only [Bool.and_eq_true, decide_eq_true_eq]
    constructor
    · rintro ⟨⟨hc, -⟩, hlt⟩
      split at hlt <;> exact ⟨⟨hc, by omega⟩, by omega⟩
    · rintro ⟨hold, hlt⟩
      refine ⟨⟨hold.1, hlow hold⟩, ?_⟩
      split <;> omega
  rw [agedNumbers] at h
  rw [deleteOlderThan, h]
  dsimp only
  constructor
  · intro r
    rw [Table.mem_deleteWhere]
    refine and_congr_right fun hr => ?_
    rw [← hhit r hr, Bool.not_eq_true]
  · unfold agedNumbers Table.deleteWhere
    rw [List.filter_filter, List.filter_map, List.filter_filter]
    congr 1
    refine List.filter_congr fun r hr => ?_
    have hiff := hhit r hr
    rw [Bool.eq_iff_iff]
    simp only [Function.comp_apply, Bool.and_eq_true, Bool.not_eq_true', ← Bool.not_eq_true,
      decide_eq_true_eq]
    simp only [Bool.and_eq_true, decide_eq_true_eq] at hiff
    rw [hiff]
    constructor
    · rintro ⟨hold, hnot⟩
      exact ⟨by_contra fun hlt => hnot ⟨hold, Nat.lt_of_not_le hlt⟩, hold⟩
    · rintro ⟨hle, hold⟩
      exact ⟨hold, fun hboth => absurd hboth.2 (Nat.not_lt.mpr hle)⟩

/-- With no aged row left a pass is the last. -/
theorem deleteOlderThan_nil {t : Table key} {batchSize : ℕ}
    (h : (agedNumbers chainOf numberOf chainId beforeBlock t).min? = none) :
    deleteOlderThan chainOf numberOf chainId beforeBlock batchSize t = (t, 0) := by
  rw [agedNumbers] at h
  rw [deleteOlderThan, h]

/-- **What a table's windows leave**: everything but its aged rows in
reach. -/
theorem mem_deleteLoop_iff (hbatch : 0 < o.deleteBatchSize) {fuel : ℕ} {t : Table key} {r : ρ}
    (hfuel : t.rows.length < fuel) :
    r ∈ deleteLoop (deleteOlderThan chainOf numberOf chainId beforeBlock o.deleteBatchSize) 1
        throwsAt fuel t ↔
      r ∈ t ∧ ¬(olderThan chainOf numberOf chainId beforeBlock r = true ∧
        Reached o.deleteBatchSize (agedNumbers chainOf numberOf chainId beforeBlock t) throwsAt
          (numberOf r)) := by
  induction fuel generalizing throwsAt t with
  | zero => omega
  | succ fuel ih =>
    have hpass : IsPass (olderThan chainOf numberOf chainId beforeBlock)
        (deleteOlderThan chainOf numberOf chainId beforeBlock o.deleteBatchSize :
          Table key → Table key × ℕ) 1 := isPass_deleteOlderThan hbatch
    unfold deleteLoop
    by_cases hthrown : throwsAt = some 0
    · rw [if_pos hthrown, hthrown]
      exact (and_iff_left fun h => not_reached_of_thrown h.2).symm
    · rw [if_neg hthrown]
      cases hmin : (agedNumbers chainOf numberOf chainId beforeBlock t).min? with
      | none =>
        rw [deleteOlderThan_nil hmin, if_pos Nat.one_pos, List.min?_eq_none_iff.mp hmin]
        exact (and_iff_left fun h => not_reached_nil h.2).symm
      | some start =>
        obtain ⟨hmem, hnumbers⟩ := deleteOlderThan_eq (o := o) hmin
        -- the pass deletes the row the window starts at, so it is not the last
        have hmore : ¬(deleteOlderThan chainOf numberOf chainId beforeBlock o.deleteBatchSize
            t).2 < 1 := by
          intro hlast
          obtain ⟨x, hx, hstart⟩ := List.mem_map.mp (List.min?_mem hmin)
          obtain ⟨hx, hold⟩ := List.mem_filter.mp hx
          have hclear : olderThan chainOf numberOf chainId beforeBlock x = false := by
            by_contra hne
            have hgone := mt (hpass.clears t hlast x) hne
            have hpassed : (deleteOlderThan chainOf numberOf chainId beforeBlock
                o.deleteBatchSize t).1 = t := by
              obtain ⟨q, -, heq⟩ := hpass.deletes t
              rw [heq] at hlast ⊢
              refine Table.deleteWhere_eq_self fun r hr => ?_
              have hnil := List.eq_nil_of_length_eq_zero (Nat.lt_one_iff.mp hlast)
              exact Bool.eq_false_iff.mpr (List.filter_eq_nil_iff.mp hnil r hr)
            rw [hpassed] at hgone
            exact hgone hx
          exact Bool.false_ne_true (hclear.symm.trans hold)
        have hshorter := hpass.shorter Nat.one_pos hmore
        rw [if_neg hmore, ih (by omega), hmem, hnumbers, and_assoc]
        refine and_congr_right fun hr => ?_
        by_cases hold : olderThan chainOf numberOf chainId beforeBlock r = true
        · have hlow : start ≤ numberOf r := (List.min?_eq_some_iff.mp hmin).2 _
            (List.mem_map_of_mem (List.mem_filter.mpr ⟨hr, hold⟩))
          simp only [hold, true_and]
          rw [reached_iff hmin hthrown hlow, not_or]
        · simp [hold]

theorem mem_pruneWindows_iff (hbatch : 0 < o.deleteBatchSize) {t : Table key} {r : ρ} :
    r ∈ pruneWindows o chainOf numberOf chainId beforeBlock throwsAt t ↔
      r ∈ t ∧ ¬(olderThan chainOf numberOf chainId beforeBlock r = true ∧
        Reached o.deleteBatchSize (agedNumbers chainOf numberOf chainId beforeBlock t) throwsAt
          (numberOf r)) := mem_deleteLoop_iff hbatch (Nat.lt_succ_self _)

theorem mem_pruneWindows_aged (hbatch : 0 < o.deleteBatchSize) {t : Table key} {r : ρ} :
    r ∈ pruneWindows o chainOf numberOf chainId beforeBlock throwsAt t ↔
      r ∈ t ∧ ¬((chainOf r = chainId ∧ numberOf r < beforeBlock) ∧
        Reached o.deleteBatchSize (agedNumbers chainOf numberOf chainId beforeBlock t) throwsAt
          (numberOf r)) := by
  rw [← olderThan_iff]
  exact mem_pruneWindows_iff hbatch

/-- Where nothing throws every aged row is in reach. -/
theorem reached_of_none (hbatch : 0 < o.deleteBatchSize) {t : Table key} {r : ρ} (hr : r ∈ t)
    (hold : olderThan chainOf numberOf chainId beforeBlock r = true) :
    Reached o.deleteBatchSize (agedNumbers chainOf numberOf chainId beforeBlock t) none
      (numberOf r) := by
  by_contra hnot
  have hleft : r ∈ pruneWindows o chainOf numberOf chainId beforeBlock none t :=
    (mem_pruneWindows_iff hbatch).mpr ⟨hr, fun h => hnot h.2⟩
  rw [pruneWindows_eq hbatch] at hleft
  exact Bool.false_ne_true ((Table.mem_deleteWhere.mp hleft).2.symm.trans hold)

end Table

/-! ## Rows of the six tables -/

/-- A row of one of the prunable tables. -/
inductive FactRow
  | receipt (r : ReceiptRow)
  | transaction (r : TransactionRow)
  | log (r : LogRow)
  | transfer (r : TransferRow)
  | snapshot (r : DiscoveryRow)
  | block (r : BlockRow)

namespace FactRow

def table : FactRow → RetentionTable
  | receipt _ => .transactionReceipts
  | transaction _ => .transactions
  | log _ => .logs
  | transfer _ => .tokenTransfers
  | snapshot _ => .discoverySnapshots
  | block _ => .blocks

def chainId : FactRow → ℕ
  | receipt r => r.chainId
  | transaction r => r.chainId
  | log r => r.chainId
  | transfer r => r.chainId
  | snapshot r => r.chainId
  | block r => r.chainId

/-- The height a row is filed under: `blockColumn`. -/
def number : FactRow → ℕ
  | receipt r => r.blockNumber
  | transaction r => r.blockNumber
  | log r => r.blockNumber
  | transfer r => r.blockNumber
  | snapshot r => r.sourceBlockNumber
  | block r => r.number

/-- A fact of a block. -/
def Describes (b : BlockRow) : FactRow → Prop
  | receipt r => (r.chainId, r.blockNumber, r.blockHash) = b.key
  | transaction r => (r.chainId, r.blockNumber, r.blockHash) = b.key
  | log r => (r.chainId, r.blockNumber, r.blockHash) = b.key
  | transfer r => (r.chainId, r.blockNumber, r.blockHash) = b.key
  | snapshot _ | block _ => False

end FactRow

namespace PrunableDb

variable (s : PrunableDb)

/-- A row is stored. -/
def Holds : FactRow → Prop
  | .receipt r => r ∈ s.db.transactionReceipts
  | .transaction r => r ∈ s.db.transactions
  | .log r => r ∈ s.db.logs
  | .transfer r => r ∈ s.db.tokenTransfers
  | .snapshot r => r ∈ s.discoverySnapshots
  | .block r => r ∈ s.db.blocks

/-- The heights of the aged rows of the table a row is in. -/
def agedNumbersOf (chainId beforeBlock : ℕ) : FactRow → List ℕ
  | .receipt _ => agedNumbers (·.chainId) (·.blockNumber) chainId beforeBlock s.db.transactionReceipts
  | .transaction _ => agedNumbers (·.chainId) (·.blockNumber) chainId beforeBlock s.db.transactions
  | .log _ => agedNumbers (·.chainId) (·.blockNumber) chainId beforeBlock s.db.logs
  | .transfer _ => agedNumbers (·.chainId) (·.blockNumber) chainId beforeBlock s.db.tokenTransfers
  | .snapshot _ =>
    agedNumbers (·.chainId) (·.sourceBlockNumber) chainId beforeBlock s.discoverySnapshots
  | .block _ => agedNumbers (·.chainId) (·.number) chainId beforeBlock s.db.blocks

/-- **A row in reach of a prune**: it is aged, and its table's window that
holds it comes before the table's first call that throws. -/
def InReach (o : RetentionOptions) (chainId : ℕ) (headFails : Bool)
    (throwsAt : RetentionTable → Option ℕ) (row : FactRow) : Prop :=
  headFails = false ∧ ∃ beforeBlock ∈ pruneBoundary o chainId s.db,
    (row.chainId = chainId ∧ row.number < beforeBlock) ∧
      Reached o.deleteBatchSize (s.agedNumbersOf chainId beforeBlock row) (throwsAt row.table)
        row.number

/-- A finding of another chain's run. -/
def FindingElsewhere (chainId : ℕ) (f : StoredFinding) : Prop :=
  ∃ run ∈ s.riskScanRuns, run.id = f.scanRunId ∧ run.chainId ≠ chainId

/-- The findings a cleanup deletes: of the superseded ones those of the
batches before its first call that throws. -/
def cleanedFindings (o : RetentionOptions) (chainId : ℕ) (throwsAt : Option ℕ) :
    List StoredFinding :=
  batchesBefore o.deleteBatchSize throwsAt
    (s.riskFindings.rows.filter (superseded chainId s.riskScanRuns))

/-- **The order of the tables protects a block's facts**: where a block is
in reach, so is each of them. -/
def ProtectsFacts (o : RetentionOptions) (chainId : ℕ) (headFails : Bool)
    (throwsAt : RetentionTable → Option ℕ) : Prop :=
  ∀ b row, s.Holds (.block b) → s.Holds row → row.Describes b →
    s.InReach o chainId headFails throwsAt (.block b) → s.InReach o chainId headFails throwsAt row

/-- **The cleanup stays on its chain.** -/
def CleansOwnChain (o : RetentionOptions) (chainId : ℕ) (headFails : Bool)
    (throwsAt : RetentionTable → Option ℕ) : Prop :=
  headFails = false → pruneBoundary o chainId s.db ≠ none →
    ∀ f ∈ s.cleanedFindings o chainId (throwsAt .riskFindings), ¬s.FindingElsewhere chainId f

end PrunableDb

/-! ## What a prune promises -/

/-- **Every loop of a prune ends.** -/
def LoopsEnd (o : RetentionOptions) (chainId beforeBlock : ℕ)
    (throwsAt : RetentionTable → Option ℕ) (s s' : PrunableDb) : Prop :=
  LoopEnds (deleteOlderThan (·.chainId) (·.blockNumber) chainId beforeBlock o.deleteBatchSize) 1
    (throwsAt .transactionReceipts) s.db.transactionReceipts s'.db.transactionReceipts ∧
  LoopEnds (deleteOlderThan (·.chainId) (·.blockNumber) chainId beforeBlock o.deleteBatchSize) 1
    (throwsAt .transactions) s.db.transactions s'.db.transactions ∧
  LoopEnds (deleteOlderThan (·.chainId) (·.blockNumber) chainId beforeBlock o.deleteBatchSize) 1
    (throwsAt .logs) s.db.logs s'.db.logs ∧
  LoopEnds (deleteOlderThan (·.chainId) (·.blockNumber) chainId beforeBlock o.deleteBatchSize) 1
    (throwsAt .tokenTransfers) s.db.tokenTransfers s'.db.tokenTransfers ∧
  LoopEnds (deleteOlderThan (·.chainId) (·.sourceBlockNumber) chainId beforeBlock
    o.deleteBatchSize) 1 (throwsAt .discoverySnapshots) s.discoverySnapshots
    s'.discoverySnapshots ∧
  LoopEnds (deleteOlderThan (·.chainId) (·.number) chainId beforeBlock o.deleteBatchSize) 1
    (throwsAt .blocks) s.db.blocks s'.db.blocks ∧
  LoopEnds (deleteZeroBalances chainId o.deleteBatchSize) o.deleteBatchSize
    (throwsAt .tokenBalances) s.balances s'.balances ∧
  LoopEnds (deleteSupersededFindings chainId s.riskScanRuns o.deleteBatchSize) o.deleteBatchSize
    (throwsAt .riskFindings) s.riskFindings s'.riskFindings

/-- **A prune removes exactly the aged facts, in dependency order.** -/
structure RemovesAged (o : RetentionOptions) (chainId : ℕ) (headFails : Bool)
    (throwsAt : RetentionTable → Option ℕ) (s s' : PrunableDb) : Prop where
  ends : headFails = false → ∀ beforeBlock ∈ pruneBoundary o chainId s.db,
    LoopsEnd o chainId beforeBlock throwsAt s s'
  /-- Rows of other chains and rows of the retained window stay. -/
  keeps : ∀ row, s.Holds row → (row.chainId ≠ chainId ∨
    ∀ head ∈ maxIndexedBlock chainId s.db, head - o.retentionBlocks ≤ row.number) → s'.Holds row
  keepsBalances : ∀ r ∈ s.balances, r.chainId ≠ chainId → r ∈ s'.balances
  keepsFindings : ∀ f ∈ s.riskFindings, s.FindingElsewhere chainId f → f ∈ s'.riskFindings
  /-- Where no call failed no aged row is left. -/
  clears : headFails = false → (∀ row : FactRow, throwsAt row.table = none) →
    ∀ head ∈ maxIndexedBlock chainId s.db, ∀ row, s'.Holds row →
      ¬(row.chainId = chainId ∧ row.number < head - o.retentionBlocks)
  /-- A block that is gone has left no fact. -/
  ordered : ∀ b, s.Holds (.block b) → ¬s'.Holds (.block b) →
    ∀ row, row.Describes b → ¬s'.Holds row

/-! ## When it holds -/

section Prune

variable {o : RetentionOptions} {chainId : ℕ} {headFails : Bool}
variable {throwsAt : RetentionTable → Option ℕ} {s : PrunableDb}

/-- **What a prune leaves of the facts**: the rows out of reach. -/
theorem holds_pruneAll (hbatch : 0 < o.deleteBatchSize) (row : FactRow) :
    (pruneAll o chainId headFails throwsAt s).Holds row ↔
      s.Holds row ∧ ¬s.InReach o chainId headFails throwsAt row := by
  unfold PrunableDb.InReach pruneAll
  cases headFails with
  | true => exact (and_iff_left fun h => Bool.false_ne_true h.1.symm).symm
  | false =>
    simp only [Bool.false_eq_true, if_false, true_and]
    cases hboundary : pruneBoundary o chainId s.db with
    | none =>
      refine (and_iff_left ?_).symm
      rintro ⟨beforeBlock, hnone, -⟩
      exact Option.not_mem_none _ hnone
    | some beforeBlock =>
      simp only [Option.mem_some_iff, exists_eq_left']
      simp only [prune, hboundary]
      cases row with
      | receipt r => exact mem_pruneWindows_aged hbatch
      | transaction r => exact mem_pruneWindows_aged hbatch
      | log r => exact mem_pruneWindows_aged hbatch
      | transfer r => exact mem_pruneWindows_aged hbatch
      | snapshot r => exact mem_pruneWindows_aged hbatch
      | block r => exact mem_pruneWindows_aged hbatch

/-- The boundary of a prune is so far behind the head. -/
theorem pruneBoundary_eq_some (hretain : 0 < o.retentionBlocks) {db : Db} {beforeBlock : ℕ} :
    pruneBoundary o chainId db = some beforeBlock ↔
      ∃ head ∈ maxIndexedBlock chainId db, o.retentionBlocks < head ∧
        beforeBlock = head - o.retentionBlocks := by
  rw [pruneBoundary, if_neg (Nat.not_le.mpr hretain), Option.bind_eq_some_iff]
  refine exists_congr fun head => and_congr_right fun _ => ?_
  split
  · rename_i hle
    exact ⟨fun h => absurd h (Option.some_ne_none _).symm, fun h => absurd h.1 (Nat.not_lt.mpr hle)⟩
  · rename_i hlt
    exact ⟨fun h => ⟨Nat.lt_of_not_le hlt, (Option.some.inj h).symm⟩, fun h => h.2 ▸ rfl⟩

/-- **A prune's loops end.** -/
theorem loopsEnd_pruneAll (hbatch : 0 < o.deleteBatchSize) {beforeBlock : ℕ}
    (hboundary : pruneBoundary o chainId s.db = some beforeBlock) :
    LoopsEnd o chainId beforeBlock throwsAt s (pruneAll o chainId false throwsAt s) := by
  simp only [LoopsEnd, pruneAll, prune, hboundary, Bool.false_eq_true, if_false]
  have hwindows : ∀ {ρ : Type} {κ : Type} {key : ρ → κ} (chainOf numberOf : ρ → ℕ)
      (throwsAt : Option ℕ) (t : Table key),
      LoopEnds (deleteOlderThan chainOf numberOf chainId beforeBlock o.deleteBatchSize) 1 throwsAt
        t (pruneWindows o chainOf numberOf chainId beforeBlock throwsAt t) :=
    fun _ _ _ _ => loopEnds_deleteLoop (isPass_deleteOlderThan hbatch) Nat.one_pos
      (Nat.lt_succ_self _)
  refine ⟨hwindows _ _ _ _, hwindows _ _ _ _, hwindows _ _ _ _, hwindows _ _ _ _,
    hwindows _ _ _ _, hwindows _ _ _ _, ?_, ?_⟩
  · exact loopEnds_deleteLoop isPass_deleteZeroBalances hbatch (Nat.lt_succ_self _)
  · exact loopEnds_deleteLoop (isPass_batch _ _) hbatch (Nat.lt_succ_self _)

/-- **What a prune leaves of the findings.** -/
theorem mem_riskFindings_pruneAll (hbatch : 0 < o.deleteBatchSize) {f : StoredFinding} :
    f ∈ (pruneAll o chainId headFails throwsAt s).riskFindings ↔
      f ∈ s.riskFindings ∧ ¬(headFails = false ∧ pruneBoundary o chainId s.db ≠ none ∧
        f ∈ s.cleanedFindings o chainId (throwsAt .riskFindings)) := by
  unfold pruneAll
  cases headFails with
  | true => exact (and_iff_left fun h => Bool.false_ne_true h.1.symm).symm
  | false =>
    cases hboundary : pruneBoundary o chainId s.db with
    | none => exact (and_iff_left fun h => h.2.1 rfl).symm
    | some beforeBlock =>
      simp only [Bool.false_eq_true, if_false, true_and, ne_eq, reduceCtorEq, not_false_eq_true]
      exact mem_deleteLoop_batch hbatch (Nat.lt_succ_self _)

/-- A balance other than a zero of the chain stays. -/
theorem mem_balances_pruneAll {r : BalanceRow} (hr : r ∈ s.balances) (hchain : r.chainId ≠ chainId) :
    r ∈ (pruneAll o chainId headFails throwsAt s).balances := by
  unfold pruneAll
  cases headFails with
  | true => exact hr
  | false =>
    cases hboundary : pruneBoundary o chainId s.db with
    | none => exact hr
    | some beforeBlock =>
      simp only [Bool.false_eq_true, if_false, prune, hboundary]
      refine mem_deleteLoop isPass_deleteZeroBalances hr ?_
      rw [decide_eq_false hchain, Bool.false_and]

/-- Where nothing throws an aged row is in reach. -/
theorem PrunableDb.inReach_of_none (hretain : 0 < o.retentionBlocks)
    (hbatch : 0 < o.deleteBatchSize) {row : FactRow} {head : ℕ} (hrow : s.Holds row)
    (hhead : head ∈ maxIndexedBlock chainId s.db) (hnone : throwsAt row.table = none)
    (hold : row.chainId = chainId ∧ row.number < head - o.retentionBlocks) :
    s.InReach o chainId false throwsAt row := by
  have hboundary := (pruneBoundary_eq_some hretain).mpr
    ⟨head, hhead, by omega, rfl⟩
  refine ⟨rfl, _, hboundary, hold, ?_⟩
  rw [hnone]
  cases row with
  | receipt r => exact reached_of_none hbatch hrow (olderThan_iff.mpr hold)
  | transaction r => exact reached_of_none hbatch hrow (olderThan_iff.mpr hold)
  | log r => exact reached_of_none hbatch hrow (olderThan_iff.mpr hold)
  | transfer r => exact reached_of_none hbatch hrow (olderThan_iff.mpr hold)
  | snapshot r => exact reached_of_none hbatch hrow (olderThan_iff.mpr hold)
  | block r => exact reached_of_none hbatch hrow (olderThan_iff.mpr hold)

/-- A fact is filed under its block's chain and height. -/
theorem FactRow.Describes.filed {b : BlockRow} {row : FactRow} (h : row.Describes b) :
    row.chainId = b.chainId ∧ row.number = b.number := by
  cases row with
  | receipt r => exact ⟨congrArg Prod.fst h, congrArg (·.2.1) h⟩
  | transaction r => exact ⟨congrArg Prod.fst h, congrArg (·.2.1) h⟩
  | log r => exact ⟨congrArg Prod.fst h, congrArg (·.2.1) h⟩
  | transfer r => exact ⟨congrArg Prod.fst h, congrArg (·.2.1) h⟩
  | snapshot r => exact h.elim
  | block r => exact h.elim

/-- **Where no table's call throws the order protects every fact.** -/
theorem PrunableDb.protectsFacts_of_none (hretain : 0 < o.retentionBlocks)
    (hbatch : 0 < o.deleteBatchSize) (hnone : ∀ row : FactRow, throwsAt row.table = none) :
    s.ProtectsFacts o chainId headFails throwsAt := by
  rintro b row - hrow hof ⟨rfl, beforeBlock, hboundary, hold, -⟩
  obtain ⟨head, hhead, -, rfl⟩ := (pruneBoundary_eq_some hretain).mp hboundary
  refine PrunableDb.inReach_of_none hretain hbatch hrow hhead (hnone row) ?_
  rw [hof.filed.1, hof.filed.2]
  exact hold

/-- **A prune removes exactly the aged facts, in dependency order**, where
its tables' failures leave no fact of a block in reach out of reach, and
the cleanup deletes no other chain's finding. -/
theorem removesAged_iff (hretain : 0 < o.retentionBlocks) (hbatch : 0 < o.deleteBatchSize) :
    RemovesAged o chainId headFails throwsAt s (pruneAll o chainId headFails throwsAt s) ↔
      s.ProtectsFacts o chainId headFails throwsAt ∧
        s.CleansOwnChain o chainId headFails throwsAt := by
  constructor
  · rintro h
    constructor
    · intro b row hb hrow hof hreach
      have hgone := h.ordered b hb (fun h => ((holds_pruneAll hbatch _).mp h).2 hreach) row hof
      by_contra hout
      exact hgone ((holds_pruneAll hbatch _).mpr ⟨hrow, hout⟩)
    · intro hread hboundary f hf helse
      have hstored : f ∈ s.riskFindings :=
        (List.mem_filter.mp (mem_of_mem_batchesBefore hf)).1
      have hkept := h.keepsFindings f hstored helse
      exact ((mem_riskFindings_pruneAll hbatch).mp hkept).2 ⟨hread, hboundary, hf⟩
  · rintro ⟨hprotects, howns⟩
    constructor
    case ends =>
      rintro rfl beforeBlock hboundary
      exact loopsEnd_pruneAll hbatch hboundary
    case keeps =>
      intro row hrow hkept
      refine (holds_pruneAll hbatch _).mpr ⟨hrow, ?_⟩
      rintro ⟨-, beforeBlock, hboundary, hold, -⟩
      obtain ⟨head, hhead, -, rfl⟩ := (pruneBoundary_eq_some hretain).mp hboundary
      rcases hkept with hchain | hrecent
      · exact hchain hold.1
      · exact absurd hold.2 (Nat.not_lt.mpr (hrecent head hhead))
    case keepsBalances => exact fun r hr hchain => mem_balances_pruneAll hr hchain
    case keepsFindings =>
      intro f hf helse
      refine (mem_riskFindings_pruneAll hbatch).mpr ⟨hf, ?_⟩
      exact fun ⟨hread, hboundary, hcleaned⟩ => howns hread hboundary f hcleaned helse
    case clears =>
      rintro rfl hnone head hhead row hrow hold
      obtain ⟨hstored, hout⟩ := (holds_pruneAll hbatch _).mp hrow
      exact hout (PrunableDb.inReach_of_none hretain hbatch hstored hhead (hnone row) hold)
    case ordered =>
      intro b hb hgone row hof hrow
      obtain ⟨hstored, hout⟩ := (holds_pruneAll hbatch _).mp hrow
      have hreach : s.InReach o chainId headFails throwsAt (.block b) := by
        by_contra hkept
        exact hgone ((holds_pruneAll hbatch _).mpr ⟨hb, hkept⟩)
      exact hout (hprotects b row hb hstored hof hreach)

end Prune

/-! ## Sample prunes -/

/-- The log of the sample's old block. -/
def LogRow.aged : LogRow :=
  ⟨1, ⟨11⟩, 0, 0, ⟨1⟩, 1, ⟨7⟩, none, none, none, none, ⟨0, 0⟩, false, true⟩

/-- The sample's blocks at 1 and 200, with a log in the first. -/
def PrunableDb.sample : PrunableDb where
  toRetentionDb := { RetentionDb.sample with
    db := { RetentionDb.sample.db with
      logs := Table.empty.insertAll [LogRow.aged] } }
  discoverySnapshots := ∅
  riskScanRuns := ∅
  riskFindings := ∅

/-- A prune with no failure removes the aged facts and nothing else. -/
theorem removesAged_sample :
    RemovesAged .sample 1 false (fun _ => none) .sample
      (pruneAll .sample 1 false (fun _ => none) .sample) := by
  refine (removesAged_iff (by decide) (by decide)).mpr ⟨?_, ?_⟩
  · exact PrunableDb.protectsFacts_of_none (by decide) (by decide) fun _ => rfl
  · exact fun _ _ f hf => absurd hf List.not_mem_nil

/-- **A block goes before its log**: the logs' first delete throws, the
blocks' does not. -/
theorem not_removesAged :
    ¬∀ (o : RetentionOptions) (chainId : ℕ) (headFails : Bool)
      (throwsAt : RetentionTable → Option ℕ) (s : PrunableDb), 0 < o.retentionBlocks →
      0 < o.deleteBatchSize →
      RemovesAged o chainId headFails throwsAt s (pruneAll o chainId headFails throwsAt s) := by
  intro h
  let throwsAt : RetentionTable → Option ℕ := fun t => if t = .logs then some 0 else none
  let pruned := pruneAll .sample 1 false throwsAt .sample
  let block : BlockRow := ⟨1, 1, ⟨1⟩, ⟨0⟩, 0, .finalized, true⟩
  have hgone : block ∉ pruned.db.blocks := by decide +kernel
  have hleft : LogRow.aged ∈ pruned.db.logs := by decide +kernel
  have hstored : block ∈ PrunableDb.sample.db.blocks := by decide +kernel
  have hordered := (h .sample 1 false throwsAt .sample (by decide) (by decide)).ordered
  exact hordered block hstored hgone (.log .aged) rfl hleft

end HoodSentry
