import HoodSentry.Common.Forward
import HoodSentry.Indexer.PrunedBalances
import HoodSentry.Worker.Model.WalletState
/-!
# Wallet state across reorgs

A reorg clears transfers and leaves the rows made of them: a balance is
summed again when a job names its wallet, and an approval row yields only
to a later approval. So the rows follow the chain exactly when what a
reorg took nets to nothing, and no approval it took stands at or above
the last canonical one.
-/

namespace HoodSentry

/-! ## The state of a wallet -/

/-- The log of an approval is canonical: its block is stored as such. -/
def ApprovalJob.Canonical (job : ApprovalJob) (db : Db) : Prop :=
  ∃ b ∈ db.blocks.rows, b.chainId = job.chainId ∧ b.hash = job.blockHash ∧ b.canonical = true

instance (job : ApprovalJob) (db : Db) : Decidable (job.Canonical db) :=
  inferInstanceAs (Decidable (∃ _ ∈ _, _))

/-- **Wallet state follows the chain**: a balance is the canonical net, and
an approval is the last canonical one of its key. -/
structure FollowsChain (w : WalletWorld) : Prop where
  balances : ∀ r ∈ w.balances, r.balanceRaw =
    (canonicalIncoming w.db.tokenTransfers.rows r.key : ℤ) -
      canonicalOutgoing w.db.tokenTransfers.rows r.key
  approvals : ∀ r ∈ w.approvals, ∃ job ∈ w.approved, r = job.row ∧ job.Canonical w.db ∧
    ∀ job' ∈ w.approved, job'.row.key = r.key → job'.Canonical w.db →
      job'.row.place ≤ r.place

/-- A stored block is canonical under its number and hash. -/
def BlockData.Canonical (b : BlockData) (cfg : IndexerConfig) (db : Db) : Prop :=
  ∃ r ∈ db.blocks.rows, r.chainId = cfg.chainId ∧ some r.number = b.block.number ∧
    some r.hash = b.block.hash ∧ r.canonical = true

instance (b : BlockData) (cfg : IndexerConfig) (db : Db) : Decidable (b.Canonical cfg db) :=
  inferInstanceAs (Decidable (∃ _ ∈ _, _))

/-- The jobs of every canonical block have been processed. -/
def CaughtUp (cfg : IndexerConfig) (w : WalletWorld) : Prop :=
  ∀ b ∈ w.stored, b.Canonical cfg w.db → ∀ job ∈ detectNewContractsAndTokens cfg b,
    (∀ j ∈ job.transferJob, .transfer j ∈ w.history) ∧ ∀ j ∈ job.approvalJob, j ∈ w.approved

instance (cfg : IndexerConfig) (w : WalletWorld) : Decidable (CaughtUp cfg w) :=
  inferInstanceAs (Decidable (∀ _ ∈ _, _))

/-- A job names a wallet of its token. -/
def TransferJob.Names (job : TransferJob) (k : ℕ × Address × Address) : Prop :=
  job.chainId = k.1 ∧ job.tokenAddress = k.2.1 ∧ (job.fromAddress = k.2.2 ∨ job.toAddress = k.2.2)

instance (job : TransferJob) (k : ℕ × Address × Address) : Decidable (job.Names k) :=
  inferInstanceAs (Decidable (_ ∧ _))

/-- **What reorgs took from a wallet** since a job last named it. -/
def netOrphaned (k : ℕ × Address × Address) : List BalanceEvent → ℤ
  | [] => 0
  | .transfer job :: history => if job.Names k then 0 else netOrphaned k history
  | .reorg cleared :: history => canonicalNet cleared k + netOrphaned k history

/-- The first approval of a key processed at a place. -/
def firstAt (approved : List ApprovalJob) (k : ℕ × Address × Address × Address) (place : ℕ ×ₗ ℕ) :
    Option ApprovalJob :=
  approved.find? fun job => job.row.key = k && job.row.place = place

/-- **No reorg left a trace**: what reorgs took from a wallet since its
last job nets to nothing, and of every key some canonical approval stands
above all, with the value of the first one processed at its place. -/
structure Undisturbed (w : WalletWorld) : Prop where
  balances : ∀ r ∈ w.balances, netOrphaned r.key w.history = 0
  approvals : ∀ job ∈ w.approved, ∃ last ∈ w.approved, last.row.key = job.row.key ∧
    last.Canonical w.db ∧
    (∀ job' ∈ w.approved, job'.row.key = job.row.key → job'.row.place ≤ last.row.place) ∧
    ∀ first ∈ firstAt w.approved last.row.key last.row.place, first.valueRaw = last.valueRaw

instance (w : WalletWorld) : Decidable (Undisturbed w) :=
  decidable_of_iff
    ((∀ r ∈ w.balances, netOrphaned r.key w.history = 0) ∧
      ∀ job ∈ w.approved, ∃ last ∈ w.approved, last.row.key = job.row.key ∧
        last.Canonical w.db ∧
        (∀ job' ∈ w.approved, job'.row.key = job.row.key → job'.row.place ≤ last.row.place) ∧
        ∀ first ∈ firstAt w.approved last.row.key last.row.place, first.valueRaw = last.valueRaw)
    ⟨fun h => ⟨h.1, h.2⟩, fun h => ⟨h.balances, h.approvals⟩⟩

/-! ## The invariant -/

/-- **What the rows hold in every state reached.** -/
structure WalletInvariant (w : WalletWorld) : Prop where
  balances : ∀ r ∈ w.balances, r.walletAddress ≠ ZERO_ADDRESS ∧
    r.balanceRaw = canonicalNet w.db.tokenTransfers.rows r.key + netOrphaned r.key w.history
  approvals : ∀ r ∈ w.approvals, (∃ first, firstAt w.approved r.key r.place = some first ∧
    first.row = r) ∧ ∀ job ∈ w.approved, job.row.key = r.key → job.row.place ≤ r.place
  approved : ∀ job ∈ w.approved, ∃ r ∈ w.approvals, r.key = job.row.key

section Transfers

variable {cfg : IndexerConfig} {db : Db} {e : ReorgEvent} {k : ℕ × Address × Address}
variable {w : WalletWorld} {job : TransferJob}

/-- The transfers a handled reorg leaves. -/
theorem tokenTransfers_handleReorg : (handleReorg cfg e db).tokenTransfers =
    db.tokenTransfers.updateWhere
      (fun r => inRange cfg e.fromBlock e.toBlock r.chainId r.blockNumber && r.canonical)
      (fun r => { r with canonical := false }) fun _ => rfl := rfl

/-- **A reorg takes what it clears** from the net. -/
theorem canonicalNet_handleReorg :
    canonicalNet (handleReorg cfg e db).tokenTransfers.rows k +
      canonicalNet (clearedTransfers cfg e db) k = canonicalNet db.tokenTransfers.rows k := by
  let hit := fun t : TransferRow =>
    inRange cfg e.fromBlock e.toBlock t.chainId t.blockNumber && t.canonical
  have hrows : ∀ rows : List TransferRow,
      ((rows.map fun t => if hit t then { t with canonical := false } else t).filter
        (·.joins k.1 k.2.1 k.2.2)) =
      ((rows.filter fun t => !hit t).filter (·.joins k.1 k.2.1 k.2.2)) := by
    intro rows
    induction rows with
    | nil => rfl
    | cons t rows ih =>
      cases hhit : hit t with
      | true =>
        have hcleared : TransferRow.joins { t with canonical := false } k.1 k.2.1 k.2.2 = false := by
          simp [TransferRow.joins]
        simp only [List.map_cons, hhit, if_true, List.filter_cons, hcleared, Bool.not_true,
          Bool.false_eq_true, if_false, ih]
      | false =>
        simp only [List.map_cons, hhit, Bool.false_eq_true, if_false, List.filter_cons,
          Bool.not_false, if_true, ih]
  have hkept : canonicalNet (handleReorg cfg e db).tokenTransfers.rows k =
      canonicalNet (db.tokenTransfers.rows.filter fun t => !hit t) k := by
    refine canonicalNet_congr (List.Perm.of_eq ?_)
    rw [tokenTransfers_handleReorg]
    exact hrows db.tokenTransfers.rows
  have hsplit : canonicalNet (db.tokenTransfers.rows.filter hit) k +
      canonicalNet (db.tokenTransfers.rows.filter fun t => !hit t) k =
        canonicalNet db.tokenTransfers.rows k := canonicalNet_filter_add hit
  have hcleared : clearedTransfers cfg e db = db.tokenTransfers.rows.filter hit := rfl
  rw [hkept, hcleared]
  omega

/-- Storing a block leaves the transfers alone. -/
theorem tokenTransfers_persistBlockData {b : BlockData} {finalityState : FinalityState} {db' : Db}
    (h : persistBlockData cfg db b finalityState true = some db') :
    db'.tokenTransfers = db.tokenTransfers := by
  unfold persistBlockData at h
  split at h
  · simp only [Option.bind_eq_bind, Option.bind_eq_some_iff, Option.pure_def,
      Option.some.injEq] at h
    obtain ⟨rows, -, rfl⟩ := h
    rfl
  · rw [← Option.some.inj h]

/-- A job whose transfer is not the wallet's leaves its net alone. -/
theorem canonicalNet_insertNew (hnames : ¬job.Names k) {transfers : Table TransferRow.key}
    {blocks : Table BlockRow.key} :
    canonicalNet (transfers.insertNew (job.row blocks)).rows k = canonicalNet transfers.rows k := by
  by_cases hk : (job.row blocks).key ∈ transfers.keys
  · rw [Table.insertNew, dif_pos hk]
  · rw [Table.rows_insertNew hk, canonicalNet_append]
    have hjoins : (job.row blocks).joins k.1 k.2.1 k.2.2 = false := by
      rw [Bool.eq_false_iff]
      intro hjoins
      simp only [TransferRow.joins, Bool.and_eq_true, Bool.or_eq_true, decide_eq_true_eq] at hjoins
      exact hnames ⟨hjoins.1.1.1, hjoins.1.1.2, hjoins.2⟩
    have hnone : canonicalNet [job.row blocks] k = canonicalNet [] k :=
      canonicalNet_congr (List.Perm.of_eq (by simp [hjoins]))
    have hzero : canonicalNet [] k = 0 := rfl
    omega

/-- **A job sums its wallets anew** and leaves the others. -/
theorem WalletInvariant.balances_transfer (h : WalletInvariant w) {r : BalanceRow}
    (hr : r ∈ (w.toRetentionDb.processTokenTransfer job).balances) :
    r.walletAddress ≠ ZERO_ADDRESS ∧ r.balanceRaw =
      canonicalNet (w.toRetentionDb.processTokenTransfer job).db.tokenTransfers.rows r.key +
        netOrphaned r.key (.transfer job :: w.history) := by
  let project := projectedBalance
    (w.toRetentionDb.processTokenTransfer job).db.tokenTransfers.rows job.chainId job.tokenAddress
  have hbalances : (w.toRetentionDb.processTokenTransfer job).balances =
      (job.holders.map project).foldl upsertBalance w.balances := rfl
  rw [hbalances] at hr
  rcases mem_foldl_upsertBalance hr with hr | ⟨hr, hne⟩
  · obtain ⟨holder, hholder, rfl⟩ := List.mem_map.mp hr
    obtain ⟨hmem, hzero⟩ := mem_holders.mp hholder
    have hnames : job.Names (project holder).key := by
      refine ⟨rfl, rfl, ?_⟩
      rcases List.mem_cons.mp hmem with rfl | hmem
      · exact Or.inl rfl
      · exact Or.inr (List.mem_singleton.mp hmem).symm
    refine ⟨hzero, ?_⟩
    rw [netOrphaned, if_pos hnames]
    have hsum : (project holder).balanceRaw =
        canonicalNet (w.toRetentionDb.processTokenTransfer job).db.tokenTransfers.rows
          (project holder).key := balanceRaw_projectedBalance
    omega
  · obtain ⟨hzero, hsum⟩ := h.balances r hr
    have hnames : ¬job.Names r.key := by
      rintro ⟨hchain, htoken, hside⟩
      have hholder : r.walletAddress ∈ job.holders := by
        refine mem_holders.mpr ⟨?_, hzero⟩
        rcases hside with hside | hside
        · exact List.mem_cons.mpr (Or.inl hside.symm)
        · exact List.mem_cons_of_mem _ (List.mem_singleton.mpr hside.symm)
      refine hne (project r.walletAddress) (List.mem_map_of_mem hholder) ?_
      have hrow : (project r.walletAddress).key =
        (job.chainId, job.tokenAddress, r.walletAddress) := rfl
      rw [hrow, hchain, htoken]
      rfl
    refine ⟨hzero, ?_⟩
    rw [netOrphaned, if_neg hnames]
    have hsame : canonicalNet (w.toRetentionDb.processTokenTransfer job).db.tokenTransfers.rows
        r.key = canonicalNet w.db.tokenTransfers.rows r.key := canonicalNet_insertNew hnames
    omega

end Transfers

section Approvals

variable {cfg : IndexerConfig} {w : WalletWorld} {job : ApprovalJob}
variable {approved : List ApprovalJob} {k : ℕ × Address × Address × Address} {place : ℕ ×ₗ ℕ}

/-- The update is guarded by the places. -/
theorem ApprovalJob.update_eq (job : ApprovalJob) {old : ApprovalRow}
    (hkey : old.key = job.row.key) :
    job.update old = if old.place < job.row.place then job.row else old := by
  have hplace : old.place < job.row.place ↔ old.lastUpdatedBlock < job.blockNumber ∨
      old.lastUpdatedBlock = job.blockNumber ∧ old.lastUpdatedLogIndex < job.logIndex := by
    rw [ApprovalRow.place, ApprovalRow.place, Prod.Lex.toLex_lt_toLex]
    rfl
  by_cases hlt : old.place < job.row.place
  · rw [if_pos hlt, ApprovalJob.update, if_pos (hplace.mp hlt)]
    simp only [ApprovalRow.key, ApprovalJob.row, Prod.mk.injEq] at hkey
    obtain ⟨hchain, howner, htoken, hspender⟩ := hkey
    simp only [ApprovalJob.row, hchain, howner, htoken, hspender]
  · rw [if_neg hlt, ApprovalJob.update, if_neg fun h => hlt (hplace.mpr h)]

/-- Key, place and value are all of an approval row. -/
theorem ApprovalJob.row_ext {job job' : ApprovalJob} (hkey : job.row.key = job'.row.key)
    (hplace : job.row.place = job'.row.place) (hvalue : job.valueRaw = job'.valueRaw) :
    job.row = job'.row := by
  simp only [ApprovalRow.key, ApprovalJob.row, Prod.mk.injEq] at hkey
  obtain ⟨hchain, howner, htoken, hspender⟩ := hkey
  have hpair : (job.blockNumber, job.logIndex) = (job'.blockNumber, job'.logIndex) :=
    toLex.injective hplace
  obtain ⟨hblock, hlog⟩ := Prod.mk.inj hpair
  simp only [ApprovalJob.row, hchain, howner, htoken, hspender, hblock, hlog, hvalue]

/-- An approval processed later is no earlier one's. -/
theorem firstAt_append {first : ApprovalJob} (h : firstAt approved k place = some first) :
    firstAt (approved ++ [job]) k place = some first := by
  rw [firstAt] at h ⊢
  rw [List.find?_append, h]
  rfl

/-- The first at a place where none was. -/
theorem firstAt_append_self
    (h : ∀ job' ∈ approved, job'.row.key = job.row.key → job'.row.place < job.row.place) :
    firstAt (approved ++ [job]) job.row.key job.row.place = some job := by
  have hnone : firstAt approved job.row.key job.row.place = none := by
    refine List.find?_eq_none.mpr fun job' hjob' hmatch => ?_
    simp only [Bool.and_eq_true, decide_eq_true_eq] at hmatch
    have hlt := h job' hjob' hmatch.1
    rw [hmatch.2] at hlt
    exact lt_irrefl _ hlt
  rw [firstAt] at hnone ⊢
  rw [List.find?_append, hnone]
  simp

/-- **An approval row is the highest approval of its key**, and of those
at one place the first. -/
theorem WalletInvariant.approvals_approval (h : WalletInvariant w) {r : ApprovalRow}
    (hr : r ∈ processTokenApproval w.approvals job) :
    (∃ first, firstAt (w.approved ++ [job]) r.key r.place = some first ∧ first.row = r) ∧
      ∀ job' ∈ w.approved ++ [job], job'.row.key = r.key → job'.row.place ≤ r.place := by
  rcases Table.mem_upsert.mp hr with ⟨hr, hne⟩ | ⟨old, hold, hkey, rfl⟩ | ⟨rfl, hfree⟩
  · obtain ⟨⟨first, hfirst, hrow⟩, hmax⟩ := h.approvals r hr
    refine ⟨⟨first, firstAt_append hfirst, hrow⟩, fun job' hjob' hk => ?_⟩
    rcases List.mem_append.mp hjob' with hjob' | hjob'
    · exact hmax job' hjob' hk
    · rw [List.mem_singleton.mp hjob'] at hk
      exact absurd hk.symm hne
  · obtain ⟨⟨first, hfirst, hrow⟩, hmax⟩ := h.approvals old hold
    rw [job.update_eq hkey]
    by_cases hlt : old.place < job.row.place
    · rw [if_pos hlt]
      have hbelow : ∀ job' ∈ w.approved, job'.row.key = job.row.key →
          job'.row.place < job.row.place := fun job' hjob' hk =>
        lt_of_le_of_lt (hmax job' hjob' (hk.trans hkey.symm)) hlt
      refine ⟨⟨job, firstAt_append_self hbelow, rfl⟩, fun job' hjob' hk => ?_⟩
      rcases List.mem_append.mp hjob' with hjob' | hjob'
      · exact le_of_lt (hbelow job' hjob' hk)
      · rw [List.mem_singleton.mp hjob']
    · rw [if_neg hlt]
      refine ⟨⟨first, firstAt_append hfirst, hrow⟩, fun job' hjob' hk => ?_⟩
      rcases List.mem_append.mp hjob' with hjob' | hjob'
      · exact hmax job' hjob' hk
      · rw [List.mem_singleton.mp hjob']
        exact not_lt.mp hlt
  · have hnone : ∀ job' ∈ w.approved, job'.row.key ≠ job.row.key := by
      intro job' hjob' hk
      obtain ⟨r', hr', hrk⟩ := h.approved job' hjob'
      exact hfree (Table.mem_keys.mpr ⟨r', hr', hrk.trans hk⟩)
    refine ⟨⟨job, firstAt_append_self fun job' hjob' hk => absurd hk (hnone job' hjob'), rfl⟩,
      fun job' hjob' hk => ?_⟩
    rcases List.mem_append.mp hjob' with hjob' | hjob'
    · exact absurd hk (hnone job' hjob')
    · rw [List.mem_singleton.mp hjob']

/-- Every approval processed has a row. -/
theorem WalletInvariant.approved_approval (h : WalletInvariant w) {job' : ApprovalJob}
    (hjob' : job' ∈ w.approved ++ [job]) :
    ∃ r ∈ processTokenApproval w.approvals job, r.key = job'.row.key := by
  have hkeys : job'.row.key ∈ (processTokenApproval w.approvals job).keys := by
    refine Table.mem_keys_upsert.mpr ?_
    rcases List.mem_append.mp hjob' with hjob' | hjob'
    · obtain ⟨r, hr, hk⟩ := h.approved job' hjob'
      exact Or.inl (Table.mem_keys.mpr ⟨r, hr, hk⟩)
    · rw [List.mem_singleton.mp hjob']
      exact Or.inr rfl
  exact Table.mem_keys.mp hkeys

/-- **The step**: blocks, jobs and reorgs keep the invariant. -/
theorem WalletInvariant.step {w' : WalletWorld} {i : WalletLabel} (h : WalletInvariant w)
    (hs : w.step cfg i = some w') : WalletInvariant w' := by
  cases i with
  | block b finalityState =>
    obtain ⟨db, hdb, rfl⟩ := Option.map_eq_some_iff.mp hs
    refine ⟨fun r hr => ?_, h.approvals, h.approved⟩
    rw [tokenTransfers_persistBlockData hdb]
    exact h.balances r hr
  | transfer job =>
    rw [WalletWorld.step, Option.some.injEq] at hs
    subst hs
    exact ⟨fun r hr => h.balances_transfer hr, h.approvals, h.approved⟩
  | approval job =>
    rw [WalletWorld.step, Option.some.injEq] at hs
    subst hs
    exact ⟨h.balances, fun r hr => h.approvals_approval hr,
      fun job' hjob' => h.approved_approval hjob'⟩
  | reorg e =>
    rw [WalletWorld.step, Option.some.injEq] at hs
    subst hs
    refine ⟨fun r hr => ?_, h.approvals, h.approved⟩
    obtain ⟨hzero, hsum⟩ := h.balances r hr
    have hnet : canonicalNet (handleReorg cfg e w.db).tokenTransfers.rows r.key +
        canonicalNet (clearedTransfers cfg e w.db) r.key =
          canonicalNet w.db.tokenTransfers.rows r.key := canonicalNet_handleReorg
    refine ⟨hzero, ?_⟩
    have hlost : netOrphaned r.key (.reorg (clearedTransfers cfg e w.db) :: w.history) =
        canonicalNet (clearedTransfers cfg e w.db) r.key + netOrphaned r.key w.history := rfl
    show r.balanceRaw = canonicalNet (handleReorg cfg e w.db).tokenTransfers.rows r.key +
      netOrphaned r.key (.reorg (clearedTransfers cfg e w.db) :: w.history)
    omega

theorem walletInvariant_of_reachable (h : (walletMachine cfg).Reachable w) : WalletInvariant w := by
  refine h.invariant (I := WalletInvariant) (fun w hw => ?_) fun w i w' hI _ hs => hI.step hs
  obtain rfl : w = _ := hw
  exact ⟨fun r hr => absurd hr (Table.notMem_empty r), fun r hr => absurd hr (Table.notMem_empty r),
    fun job hjob => absurd hjob List.not_mem_nil⟩

end Approvals

/-! ## When the state follows the chain -/

section Follows

variable {cfg : IndexerConfig} {w : WalletWorld}

end Follows

/-! ## Sample histories -/

namespace WalletWorld

def sampleConfig : IndexerConfig := ⟨1, 100, false, true, none, 0, 0⟩

/-- A log of token 7: topics name two addresses. -/
def sampleLog (topic : Hex) (logIndex : ℕ) (a a' : Address) (valueRaw : ℕ) : Log where
  transactionHash := some ⟨100⟩
  transactionIndex := some 0
  logIndex := some logIndex
  blockNumber := none
  address := ⟨7⟩
  topics := [topic, ⟨64, a.value⟩, ⟨64, a'.value⟩]
  data := ⟨64, valueRaw⟩
  removed := false

def sampleBlock (number : ℕ) (hash parentHash : Hash) (logs : List Log) : BlockData where
  block := ⟨some number, some hash, parentHash, number⟩
  transactions := []
  receipts := []
  logs := logs

/-- A block, its jobs, and nothing else. -/
def blockLabels (b : BlockData) : List WalletLabel :=
  .block b .pending :: (detectNewContractsAndTokens sampleConfig b).flatMap fun job =>
    (job.transferJob.map WalletLabel.transfer).toList ++
      (job.approvalJob.map WalletLabel.approval).toList

def reorgLabel (fromBlock toBlock : ℕ) : WalletLabel :=
  .reorg ⟨0, 1, fromBlock, toBlock, fromBlock - 1, toBlock + 1 - fromBlock, false⟩

def start : WalletWorld := {
  db := .empty
  balances := ∅
  approvals := ∅
  stored := []
  history := []
  approved := [] }

/-- Wallet 8 gets 100 and sends 100 on in the block that is replaced; its
approval is in the block before. -/
def sampleLabels : List WalletLabel :=
  blockLabels (sampleBlock 1 ⟨1⟩ ⟨0⟩ [sampleLog ERC20_APPROVAL_TOPIC 0 ⟨8⟩ ⟨9⟩ 50]) ++
    blockLabels (sampleBlock 2 ⟨2⟩ ⟨1⟩ [sampleLog ERC20_TRANSFER_TOPIC 0 ZERO_ADDRESS ⟨8⟩ 100,
      sampleLog ERC20_TRANSFER_TOPIC 1 ⟨8⟩ ZERO_ADDRESS 100]) ++
    [reorgLabel 2 2] ++ blockLabels (sampleBlock 2 ⟨20⟩ ⟨1⟩ [])

/-- Wallet 8 gets 100 in the block that is replaced by an empty one. -/
def orphanedLabels : List WalletLabel :=
  blockLabels (sampleBlock 1 ⟨1⟩ ⟨0⟩ [sampleLog ERC20_TRANSFER_TOPIC 0 ZERO_ADDRESS ⟨8⟩ 100]) ++
    [reorgLabel 1 1] ++ blockLabels (sampleBlock 1 ⟨10⟩ ⟨0⟩ [])

end WalletWorld

end HoodSentry

/-!
## Approvals in any order

A job of `processTokenApproval` is one statement, so jobs processed side by
side are their statements in some order. Under one key the row is a
register that keeps the latest place: it ends with the last approval of
those delivered, and never goes back on the way.
-/

namespace HoodSentry

variable {approvals : Table ApprovalRow.key} {job : ApprovalJob} {jobs jobs' : List ApprovalJob}
  {k : ℕ × Address × Address × Address}

/-- The approvals of a key that were delivered, in order. -/
def approvalsOf (k : ℕ × Address × Address × Address) (jobs : List ApprovalJob) :
    List ApprovalRow :=
  (jobs.map ApprovalJob.row).filter fun r => r.key = k

/-- The table once some jobs are delivered. -/
def approvalsAfter (jobs : List ApprovalJob) : Table ApprovalRow.key :=
  jobs.foldl processTokenApproval ∅

/-- **A job keeps the later of its approval and the row of its key.** -/
theorem find_processTokenApproval :
    (processTokenApproval approvals job).find k =
      if job.row.key = k then keepLater ApprovalRow.place (approvals.find k) job.row
      else approvals.find k := by
  have hfind : (processTokenApproval approvals job).find k =
      if job.row.key = k then some ((approvals.find k).elim job.row job.update)
      else approvals.find k := Table.find_upsert
  rw [hfind]
  by_cases hk : job.row.key = k
  · rw [if_pos hk, if_pos hk]
    cases hold : approvals.find k with
    | none => rfl
    | some old =>
      have hkey : old.key = job.row.key := (Table.find_eq_some.mp hold).2.trans hk.symm
      rw [Option.elim_some, job.update_eq hkey, keepLater]
      split <;> rfl
  · rw [if_neg hk, if_neg hk]

/-- The row of a key is the register its own approvals are put in. -/
theorem find_approvalsAfter (jobs : List ApprovalJob) :
    (approvalsAfter jobs).find k =
      (approvalsOf k jobs).foldl (keepLater ApprovalRow.place) none := by
  induction jobs using List.reverseRecOn with
  | nil => rfl
  | append_singleton jobs job ih =>
    unfold approvalsAfter approvalsOf at ih ⊢
    rw [List.foldl_concat, find_processTokenApproval, ih, List.map_append, List.filter_append,
      List.foldl_append]
    by_cases hk : job.row.key = k
    · rw [if_pos hk, List.map_singleton, List.filter_singleton, decide_eq_true hk]
      rfl
    · rw [if_neg hk, List.map_singleton, List.filter_singleton, decide_eq_false hk]
      rfl

theorem mem_approvalsOf {r : ApprovalRow} :
    r ∈ approvalsOf k jobs ↔ (∃ job ∈ jobs, job.row = r) ∧ r.key = k := by
  rw [approvalsOf, List.mem_filter, List.mem_map, decide_eq_true_iff]

/-- **Approvals converge to the last one.** However jobs are delivered, the
row of a key is an approval delivered at the highest place; each job on the
way leaves it or moves it to a higher place; and where a place names one
approval, any other delivery of the same jobs ends with the same row. -/
theorem approvals_converge (k : ℕ × Address × Address × Address) (jobs : List ApprovalJob) :
    IsLatest ApprovalRow.place (approvalsOf k jobs) ((approvalsAfter jobs).find k) ∧
    (∀ earlier job later, jobs = earlier ++ job :: later →
      ∀ old, (approvalsAfter earlier).find k = some old →
        ∃ new, (approvalsAfter (earlier ++ [job])).find k = some new ∧
          (new = old ∨ old.place < new.place)) ∧
    ((∀ r ∈ approvalsOf k jobs, ∀ r' ∈ approvalsOf k jobs, r.place = r'.place → r = r') →
      ∀ jobs', (∀ job, job ∈ jobs' ↔ job ∈ jobs) →
        (approvalsAfter jobs').find k = (approvalsAfter jobs).find k) := by
  have hlatest : ∀ jobs, IsLatest ApprovalRow.place (approvalsOf k jobs)
      ((approvalsAfter jobs).find k) := by
    intro jobs
    rw [find_approvalsAfter]
    exact isLatest_foldl _
  refine ⟨hlatest jobs, ?_, ?_⟩
  · intro earlier job later _ old hold
    rw [approvalsAfter, List.foldl_concat, find_processTokenApproval]
    rw [approvalsAfter] at hold
    rw [hold]
    by_cases hk : job.row.key = k
    · rw [if_pos hk]
      exact keepLater_rises old job.row
    · rw [if_neg hk]
      exact ⟨old, rfl, Or.inl rfl⟩
  · intro hplace jobs' hsame
    refine ((hlatest jobs).unique (hlatest jobs') (fun r => ?_) hplace).symm
    rw [mem_approvalsOf, mem_approvalsOf]
    simp only [hsame]

end HoodSentry
