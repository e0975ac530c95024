import HoodSentry.Common.Lists
import HoodSentry.Indexer.Model.Persister
import HoodSentry.Indexer.Model.Reorg
/-!
# What the writes do to the facts

One lemma for each write that touches the block and fact tables: what
persisting adds, and what a statement of a reorg takes away.
-/

namespace HoodSentry

variable {cfg : IndexerConfig} {db db' : Db} {bs : List BlockData} {b : BlockData}
variable {finalityState : FinalityState} {canonical : Bool}

/-! ## Persisting -/

/-- A fact row is stamped with the block it was built from. -/
def BlockData.Stamps (b : BlockData) (cfg : IndexerConfig) (chainId number : ℕ) (hash : Hash) :
    Prop :=
  chainId = cfg.chainId ∧ b.block.number = some number ∧ b.block.hash = some hash

/-- The block row of a block. -/
def BlockRow.IsOf (r : BlockRow) (cfg : IndexerConfig) (b : BlockData) : Prop :=
  b.Stamps cfg r.chainId r.number r.hash ∧ r.parentHash = b.block.parentHash

theorem isOf_of_buildBlockRow {r : BlockRow}
    (h : buildBlockRow cfg b finalityState canonical = some r) :
    r.IsOf cfg b ∧ r.canonical = canonical := by
  simp only [buildBlockRow, Option.bind_eq_bind, Option.bind_eq_some_iff, Option.pure_def,
    Option.some.injEq] at h
  obtain ⟨number, hn, hash, hh, rfl⟩ := h
  exact ⟨⟨⟨rfl, hn, hh⟩, rfl⟩, rfl⟩

theorem fields_of_buildTransactionRow {transaction : Transaction}
    {receipt : Option TransactionReceipt} {number : ℕ} {hash : Hash} {r : TransactionRow}
    (h : buildTransactionRow cfg transaction receipt number hash canonical = some r) :
    r.chainId = cfg.chainId ∧ r.hash = transaction.hash ∧ r.blockNumber = number ∧
      r.blockHash = hash ∧ r.canonical = canonical := by
  simp only [buildTransactionRow, Option.bind_eq_bind, Option.bind_eq_some_iff, Option.pure_def,
    Option.some.injEq] at h
  obtain ⟨_, -, rfl⟩ := h
  exact ⟨rfl, rfl, rfl, rfl, rfl⟩

theorem fields_of_buildLogRow {log : Log} {number : ℕ} {hash : Hash} {r : LogRow}
    (h : buildLogRow cfg log number hash canonical = some r) :
    r.chainId = cfg.chainId ∧ log.transactionHash = some r.transactionHash ∧
      log.logIndex = some r.logIndex ∧ r.blockNumber = number ∧ r.blockHash = hash ∧
      r.canonical = canonical := by
  simp only [buildLogRow, Option.bind_eq_bind, Option.bind_eq_some_iff, Option.pure_def,
    Option.some.injEq] at h
  obtain ⟨_, ht, _, -, _, hi, rfl⟩ := h
  exact ⟨rfl, ht, hi, rfl, rfl, rfl⟩

theorem buildFactRows_eq_some {number : ℕ} {hash : Hash} {rows : FactRows} :
    buildFactRows cfg b number hash finalityState canonical = some rows ↔
      ∃ block transactions logs,
        buildBlockRow cfg b finalityState canonical = some block ∧
        (b.transactions.mapM fun t => buildTransactionRow cfg t
          (receiptByTxHash b.receipts t.hash) number hash canonical) = some transactions ∧
        buildLogRows cfg b.logs number hash canonical = some logs ∧
        rows = ⟨[block], transactions,
          b.receipts.map fun r => buildReceiptRow cfg r number hash, logs⟩ := by
  simp only [buildFactRows, Option.bind_eq_bind, Option.bind_eq_some_iff, Option.pure_def,
    Option.some.injEq, @eq_comm _ rows]
  constructor
  · rintro ⟨block, h1, transactions, h2, logs, h3, h⟩
    exact ⟨block, transactions, logs, h1, h2, h3, h⟩
  · rintro ⟨block, transactions, logs, h1, h2, h3, h⟩
    exact ⟨block, h1, transactions, h2, logs, h3, h⟩

/-- Persisting a numbered, hashed block inserts its rows. -/
theorem persistBlockData_eq_some {number : ℕ} {hash : Hash} (hn : b.block.number = some number)
    (hh : b.block.hash = some hash) :
    persistBlockData cfg db b finalityState canonical = some db' ↔
      ∃ rows, buildFactRows cfg b number hash finalityState canonical = some rows ∧
        db' = db.insertFacts rows := by
  simp only [persistBlockData, hn, hh, Option.bind_eq_bind, Option.bind_eq_some_iff,
    Option.pure_def, Option.some.injEq, @eq_comm _ db']

/-- A window of one block is that block persisted by itself. -/
theorem persistBlockWindow_singleton :
    persistBlockWindow cfg db [b] finalityState canonical =
      persistBlockData cfg db b finalityState canonical := by
  unfold persistBlockWindow persistBlockData buildWindowRows
  split
  · cases hrows : buildFactRows cfg b _ _ finalityState canonical with
    | none => simp
    | some rows => simp [buildWindowRows]
  · simp [buildWindowRows, Db.insertFacts]

theorem mem_blocks_buildWindowRows {rows : FactRows} {r : BlockRow}
    (h : buildWindowRows cfg finalityState canonical bs = some rows) (hr : r ∈ rows.blocks) :
    ∃ b ∈ bs, r.IsOf cfg b ∧ r.canonical = canonical := by
  induction bs generalizing rows with
  | nil =>
    obtain rfl : (⟨[], [], [], []⟩ : FactRows) = rows := by simpa [buildWindowRows] using h
    exact absurd hr List.not_mem_nil
  | cons b bs ih =>
    unfold buildWindowRows at h
    split at h
    · simp only [Option.bind_eq_bind, Option.bind_eq_some_iff, Option.pure_def,
        Option.some.injEq] at h
      obtain ⟨first, hfirst, rest, hrest, rfl⟩ := h
      obtain ⟨block, _, _, hblock, -, -, rfl⟩ := buildFactRows_eq_some.mp hfirst
      rcases List.mem_append.mp hr with hr | hr
      · obtain rfl := List.mem_singleton.mp hr
        exact ⟨b, List.mem_cons_self, isOf_of_buildBlockRow hblock⟩
      · obtain ⟨b', hb', hof⟩ := ih hrest hr
        exact ⟨b', List.mem_cons_of_mem _ hb', hof⟩
    · obtain ⟨b', hb', hof⟩ := ih h hr
      exact ⟨b', List.mem_cons_of_mem _ hb', hof⟩

/-- **What persisting adds to `blocks`**: rows of the blocks persisted. -/
theorem mem_blocks_persistBlockWindow {r : BlockRow}
    (h : persistBlockWindow cfg db bs finalityState canonical = some db')
    (hr : r ∈ db'.blocks) :
    r ∈ db.blocks ∨ ∃ b ∈ bs, r.IsOf cfg b ∧ r.canonical = canonical := by
  simp only [persistBlockWindow, Option.bind_eq_bind, Option.bind_eq_some_iff, Option.pure_def,
    Option.some.injEq] at h
  obtain ⟨rows, hrows, rfl⟩ := h
  rcases Table.mem_of_mem_insertAll hr with hr | ⟨hr, -⟩
  · exact Or.inl hr
  · exact Or.inr (mem_blocks_buildWindowRows hrows hr)

/-! ## Marking a range -/

/-- A canonical row of this chain. -/
def Db.CanonicalBlock (db : Db) (cfg : IndexerConfig) (r : BlockRow) : Prop :=
  (r ∈ db.blocks ∧ r.canonical = true) ∧ r.chainId = cfg.chainId

variable {s : ReorgStatement} {fromBlock toBlock : ℕ}

theorem inRange_eq_true {chainId number : ℕ} :
    inRange cfg fromBlock toBlock chainId number = true ↔
      chainId = cfg.chainId ∧ fromBlock ≤ number ∧ number ≤ toBlock := by
  simp [inRange, and_assoc]

/-- **What a reorg statement leaves canonical.** Only the first statement
touches blocks, and it takes those of its range. -/
theorem canonicalBlock_apply {r : BlockRow} :
    (s.apply cfg fromBlock toBlock db).CanonicalBlock cfg r ↔
      db.CanonicalBlock cfg r ∧
        (s = .markBlocksOrphaned → ¬(fromBlock ≤ r.number ∧ r.number ≤ toBlock)) := by
  unfold Db.CanonicalBlock
  cases s with
  | markBlocksOrphaned =>
    have hflag := @Table.mem_updateWhere_flag _ _ _ db.blocks
      (fun r => inRange cfg fromBlock toBlock r.chainId r.number) BlockRow.canonical
      (fun r => { r with canonical := false, finalityState := .orphaned }) (fun _ => rfl)
      (fun _ => rfl) r
    simp only [ReorgStatement.apply, forall_const]
    rw [hflag, Bool.eq_false_iff, ne_eq, inRange_eq_true]
    constructor
    · rintro ⟨⟨hr, hnot⟩, hc⟩
      exact ⟨⟨hr, hc⟩, fun h => hnot ⟨hc, h⟩⟩
    · rintro ⟨⟨hr, hc⟩, hnot⟩
      exact ⟨⟨hr, fun h => hnot h.2⟩, hc⟩
  | _ => simp [ReorgStatement.apply]

theorem canonicalBlock_foldl_apply {ss : List ReorgStatement} {r : BlockRow}
    (h : (ss.foldl (fun db s => s.apply cfg fromBlock toBlock db) db).CanonicalBlock cfg r) :
    db.CanonicalBlock cfg r := by
  induction ss generalizing db with
  | nil => exact h
  | cons s ss ih => exact (canonicalBlock_apply.mp (ih h)).1

theorem canonicalBlock_resolveReorgEvent {id : ℕ} {r : BlockRow} :
    (resolveReorgEvent db id).CanonicalBlock cfg r ↔ db.CanonicalBlock cfg r := Iff.rfl

/-- Reconciliation makes no block canonical. -/
theorem canonicalBlock_runReorgReconciliation {r : BlockRow}
    (h : (runReorgReconciliation cfg db).CanonicalBlock cfg r) : db.CanonicalBlock cfg r := by
  unfold runReorgReconciliation at h
  generalize getUnresolvedReorgs cfg db = es at h
  induction es generalizing db with
  | nil => exact h
  | cons e es ih =>
    have hmarked : (handleReorg cfg e db).CanonicalBlock cfg r := ih h
    rw [handleReorg, canonicalBlock_resolveReorgEvent] at hmarked
    exact canonicalBlock_foldl_apply hmarked

end HoodSentry
