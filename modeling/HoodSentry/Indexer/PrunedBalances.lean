import HoodSentry.Indexer.Model.Retention
import HoodSentry.Worker.Balances
/-!
# Balances projected after a prune

The pruner deletes transfers that a later projection sums. A balance
projected after a prune is the one that would have been projected without
it exactly when the wallet's transfers below the boundary net to zero.
-/

namespace HoodSentry

universe u v

/-! ## What a prune deletes -/

section Prune

variable {ρ : Type u} {κ : Type v} {key : ρ → κ} {chainOf numberOf : ρ → ℕ}
variable {chainId beforeBlock : ℕ} {o : RetentionOptions}

/-- **A window is a pass**: it starts at a row of its own, so an empty one
means that nothing older is left. -/
theorem isPass_deleteOlderThan (hbatch : 0 < o.deleteBatchSize) :
    IsPass (olderThan chainOf numberOf chainId beforeBlock)
      (deleteOlderThan chainOf numberOf chainId beforeBlock o.deleteBatchSize :
        Table key → Table key × ℕ) 1 where
  deletes t := by
    unfold deleteOlderThan
    split
    · refine ⟨fun _ => false, fun _ h => absurd h Bool.false_ne_true, ?_⟩
      rw [Table.deleteWhere_eq_self fun _ _ => rfl]
      simp
    · rename_i start _
      refine ⟨_, fun r hr => ?_, rfl⟩
      simp only [olderThan, Bool.and_eq_true, decide_eq_true_eq] at hr ⊢
      refine ⟨hr.1.1, ?_⟩
      have := hr.2
      split at this <;> omega
  clears t ht := by
    unfold deleteOlderThan at ht ⊢
    split
    · rename_i hmin
      rw [List.min?_eq_none_iff, List.map_eq_nil_iff, List.filter_eq_nil_iff] at hmin
      exact fun r hr => Bool.eq_false_iff.mpr (hmin r hr)
    · rename_i start hmin
      simp only [hmin] at ht
      -- the row at `start` is in the window, so the window is not empty
      obtain ⟨r, hr, hstart⟩ := List.mem_map.mp (List.min?_mem hmin)
      obtain ⟨hr, hold⟩ := List.mem_filter.mp hr
      simp only [olderThan, Bool.and_eq_true, decide_eq_true_eq] at hold
      refine absurd ht (Nat.not_lt.mpr (List.length_pos_of_mem (a := r)
        (List.mem_filter.mpr ⟨hr, ?_⟩)))
      simp only [Bool.and_eq_true, decide_eq_true_eq]
      split <;> omega

/-- A batch of the balances of zero is a pass. -/
theorem isPass_deleteZeroBalances :
    IsPass (fun r => r.chainId = chainId && r.balanceRaw = 0)
      (deleteZeroBalances chainId o.deleteBatchSize) o.deleteBatchSize := isPass_batch _ _

/-- The rows a prune names, in a table with these columns. -/
def pruned (o : RetentionOptions) (chainId : ℕ) (db : Db) (chainOf numberOf : ρ → ℕ) (r : ρ) :
    Bool :=
  (pruneBoundary o chainId db).any fun beforeBlock =>
    olderThan chainOf numberOf chainId beforeBlock r

/-- Only the columns count. -/
theorem pruned_congr {ρ' : Type*} {chainOf' numberOf' : ρ' → ℕ} {db : Db} {r : ρ} {r' : ρ'}
    (hchain : chainOf r = chainOf' r') (hnumber : numberOf r = numberOf' r') :
    pruned o chainId db chainOf numberOf r = pruned o chainId db chainOf' numberOf' r' := by
  unfold pruned olderThan
  rw [hchain, hnumber]

theorem pruneWindows_eq (hbatch : 0 < o.deleteBatchSize) (t : Table key) :
    pruneWindows o chainOf numberOf chainId beforeBlock none t =
      t.deleteWhere (olderThan chainOf numberOf chainId beforeBlock) :=
  deleteLoop_eq (isPass_deleteOlderThan hbatch) Nat.one_pos (Nat.lt_succ_self _)

variable {s : RetentionDb}

/-- A prune deletes the transfers below its boundary. -/
theorem prune_tokenTransfers (hbatch : 0 < o.deleteBatchSize) :
    (prune o chainId (fun _ => none) s).db.tokenTransfers =
      s.db.tokenTransfers.deleteWhere (pruned o chainId s.db (·.chainId) (·.blockNumber)) := by
  unfold prune pruned
  cases hboundary : pruneBoundary o chainId s.db with
  | none => exact (Table.deleteWhere_eq_self fun _ _ => rfl).symm
  | some beforeBlock => exact pruneWindows_eq hbatch _

/-- And the blocks below it. -/
theorem prune_blocks (hbatch : 0 < o.deleteBatchSize) :
    (prune o chainId (fun _ => none) s).db.blocks =
      s.db.blocks.deleteWhere (pruned o chainId s.db (·.chainId) (·.number)) := by
  unfold prune pruned
  cases hboundary : pruneBoundary o chainId s.db with
  | none => exact (Table.deleteWhere_eq_self fun _ _ => rfl).symm
  | some beforeBlock => exact pruneWindows_eq hbatch _

end Prune

/-! ## Histories and their prunes -/

/-- **A pruned history**: under a key kept, the same rows; under a key
pruned, no canonical row. -/
structure PrunedOf (aged : ℕ × Hash × Hash × ℕ → Bool) (p t : Table TransferRow.key) : Prop where
  kept : ∀ r, aged r.key = false → (r ∈ p ↔ r ∈ t)
  lost : ∀ r ∈ p, aged r.key = true → r.canonical = false

namespace PrunedOf

variable {aged : ℕ × Hash × Hash × ℕ → Bool} {p t : Table TransferRow.key} {r r' : TransferRow}

theorem mem_keys_iff (h : PrunedOf aged p t) {k : ℕ × Hash × Hash × ℕ} (hk : aged k = false) :
    k ∈ p.keys ↔ k ∈ t.keys := by
  rw [Table.mem_keys, Table.mem_keys]
  refine exists_congr fun x => and_congr_left fun hx => ?_
  exact h.kept x (hx ▸ hk)

/-- **One transfer more** keeps a pruned history, where the row recorded
is the same under a kept key and not canonical under a pruned one. -/
theorem insertNew (h : PrunedOf aged p t) (hkey : r'.key = r.key)
    (hkept : aged r.key = false → r' = r) (hlost : aged r.key = true → r'.canonical = false) :
    PrunedOf aged (p.insertNew r') (t.insertNew r) where
  kept x hx := by
    rw [Table.mem_insertNew, Table.mem_insertNew, h.kept x hx]
    refine or_congr_right ⟨?_, ?_⟩
    · rintro ⟨rfl, hfree⟩
      have haged : aged r.key = false := hkey ▸ hx
      exact ⟨hkept haged, fun hk => hfree (hkey ▸ (h.mem_keys_iff haged).mpr hk)⟩
    · rintro ⟨rfl, hfree⟩
      exact ⟨(hkept hx).symm, fun hk => hfree ((h.mem_keys_iff hx).mp (hkey ▸ hk))⟩
  lost x hx hxaged := by
    rcases Table.mem_insertNew.mp hx with hx | ⟨rfl, -⟩
    · exact h.lost x hx hxaged
    · exact hlost (hkey ▸ hxaged)

end PrunedOf

/-! ## Jobs -/

/-- **Block hashes carry their numbers**: blocks, stored transfers and
jobs name the same number beside a hash. -/
structure Numbered (number : ℕ → Hash → ℕ) (s : RetentionDb) (jobs : List TransferJob) : Prop where
  blocks : ∀ b ∈ s.db.blocks, b.number = number b.chainId b.hash
  transfers : ∀ t ∈ s.db.tokenTransfers, t.blockNumber = number t.chainId t.blockHash
  jobs : ∀ job ∈ jobs, job.blockNumber = number job.chainId job.blockHash

/-- The key of a transfer in a pruned block. -/
def agedKey (o : RetentionOptions) (chainId : ℕ) (db : Db) (number : ℕ → Hash → ℕ)
    (k : ℕ × Hash × Hash × ℕ) : Bool :=
  pruned o chainId db (fun k => k.1) (fun k => number k.1 k.2.1) k

/-- The jobs of a history, one after the other. -/
def RetentionDb.processAll (s : RetentionDb) (jobs : List TransferJob) : RetentionDb :=
  jobs.foldl RetentionDb.processTokenTransfer s

section Jobs

variable {o : RetentionOptions} {chainId : ℕ} {number : ℕ → Hash → ℕ} {s s' : RetentionDb}
variable {job : TransferJob} {jobs : List TransferJob}

theorem pruned_eq_agedKey {t : TransferRow} (h : t.blockNumber = number t.chainId t.blockHash) :
    pruned o chainId s.db (·.chainId) (·.blockNumber) t = agedKey o chainId s.db number t.key :=
  pruned_congr rfl h

@[simp] theorem db_blocks_processAll : (s.processAll jobs).db.blocks = s.db.blocks := by
  induction jobs generalizing s with
  | nil => rfl
  | cons job jobs ih => exact (ih (s := s.processTokenTransfer job)).trans rfl

/-- The transfers of a history. -/
theorem tokenTransfers_processAll :
    (s.processAll jobs).db.tokenTransfers =
      s.db.tokenTransfers.insertAll (jobs.map (·.row s.db.blocks)) := by
  induction jobs generalizing s with
  | nil => rfl
  | cons job jobs ih => exact ih (s := s.processTokenTransfer job)

/-- A job on a block kept records the same row after a prune, one on a
pruned block a row that is not canonical. -/
theorem row_prune (chainId : ℕ) (hbatch : 0 < o.deleteBatchSize) (hnum : Numbered number s jobs)
    (job : TransferJob) :
    let blocks := (prune o chainId (fun _ => none) s).db.blocks
    (agedKey o chainId s.db number (job.row s.db.blocks).key = false →
      job.row blocks = job.row s.db.blocks) ∧
    (agedKey o chainId s.db number (job.row s.db.blocks).key = true →
      (job.row blocks).canonical = false) := by
  intro blocks
  have haged : ∀ b ∈ s.db.blocks, b.chainId = job.chainId → b.hash = job.blockHash →
      pruned o chainId s.db (·.chainId) (·.number) b =
        agedKey o chainId s.db number (job.row s.db.blocks).key := by
    intro b hb hchain hhash
    have hnumber := hnum.blocks b hb
    rw [hchain, hhash] at hnumber
    exact pruned_congr hchain hnumber
  have hblocks : ∀ b, b ∈ blocks ↔ b ∈ s.db.blocks ∧
      pruned o chainId s.db (·.chainId) (·.number) b = false := fun b => by
    rw [show blocks = _ from prune_blocks hbatch, Table.mem_deleteWhere]
  constructor
  · intro hkept
    simp only [TransferJob.row, TransferRow.mk.injEq, true_and]
    refine Bool.eq_iff_iff.mpr ?_
    simp only [List.any_eq_true, Bool.and_eq_true, decide_eq_true_eq]
    refine exists_congr fun b => and_congr_left fun hmatch => ?_
    obtain ⟨⟨hchain, hhash⟩, -⟩ := hmatch
    refine ⟨fun hb => ((hblocks b).mp hb).1, fun hb => (hblocks b).mpr ⟨hb, ?_⟩⟩
    rw [haged b hb hchain hhash, hkept]
  · intro haged'
    refine List.any_eq_false.mpr fun b hb hmatch => ?_
    simp only [Bool.and_eq_true, decide_eq_true_eq] at hmatch
    obtain ⟨hb, hkept⟩ := (hblocks b).mp hb
    rw [haged b hb hmatch.1.1 hmatch.1.2, haged'] at hkept
    exact absurd hkept (by simp)

/-- **A history recorded after a prune is the pruned history.** -/
theorem prunedOf_processAll (hbatch : 0 < o.deleteBatchSize) (hnum : Numbered number s jobs) :
    PrunedOf (agedKey o chainId s.db number)
      ((prune o chainId (fun _ => none) s).processAll jobs).db.tokenTransfers
      (s.processAll jobs).db.tokenTransfers := by
  rw [tokenTransfers_processAll, tokenTransfers_processAll, prune_tokenTransfers hbatch]
  have hstart : PrunedOf (agedKey o chainId s.db number)
      (s.db.tokenTransfers.deleteWhere (pruned o chainId s.db (·.chainId) (·.blockNumber)))
      s.db.tokenTransfers := by
    refine ⟨fun t ht => ?_, fun t ht haged => ?_⟩
    · rw [Table.mem_deleteWhere]
      refine ⟨And.left, fun hmem => ⟨hmem, ?_⟩⟩
      rw [pruned_eq_agedKey (hnum.transfers t hmem), ht]
    · obtain ⟨hmem, hkept⟩ := Table.mem_deleteWhere.mp ht
      rw [pruned_eq_agedKey (hnum.transfers t hmem), haged] at hkept
      exact absurd hkept (by simp)
  have hrows := row_prune chainId hbatch hnum
  clear hnum
  generalize s.db.tokenTransfers.deleteWhere _ = p at hstart ⊢
  generalize s.db.tokenTransfers = t at hstart ⊢
  induction jobs generalizing p t with
  | nil => exact hstart
  | cons job jobs ih =>
    obtain ⟨hkept, hlost⟩ := hrows job
    exact ih _ _ (hstart.insertNew rfl hkept hlost)

end Jobs

/-! ## Balances -/

/-- **A job stores the sum for each of its holders.** -/
theorem balance_processTokenTransfer {s : RetentionDb} {job : TransferJob} {holder : Address}
    (hholder : holder ∈ job.holders) :
    (s.processTokenTransfer job).balance (job.chainId, job.tokenAddress, holder) =
      some (canonicalNet (s.processTokenTransfer job).db.tokenTransfers.rows
        (job.chainId, job.tokenAddress, holder)) := by
  let k := (job.chainId, job.tokenAddress, holder)
  let ts := (s.processTokenTransfer job).db.tokenTransfers.rows
  let project := projectedBalance ts job.chainId job.tokenAddress
  let balances := (s.processTokenTransfer job).balances
  have hbalances : balances = (job.holders.map project).foldl upsertBalance s.balances := rfl
  have hmem : project holder ∈ job.holders.map project := List.mem_map_of_mem hholder
  have hkey : k ∈ balances.keys := by
    rw [hbalances, mem_keys_foldl_upsertBalance]
    exact Or.inr (List.mem_map.mpr ⟨_, hmem, rfl⟩)
  have hrow : ∀ r ∈ balances, r.key = k → r = project holder := by
    intro r hr hrk
    rw [hbalances] at hr
    rcases mem_foldl_upsertBalance hr with hr | ⟨-, hne⟩
    · obtain ⟨h, -, rfl⟩ := List.mem_map.mp hr
      have hh : h = holder := congrArg (fun k => k.2.2) hrk
      rw [hh]
    · exact absurd hrk (hne _ hmem)
  obtain ⟨r₀, hr₀, hr₀k⟩ := Table.mem_keys.mp hkey
  cases hfind : balances.rows.find? fun r => r.key = k with
  | none => exact absurd hr₀k (by simpa using List.find?_eq_none.mp hfind r₀ hr₀)
  | some r =>
    have hr := hrow r (List.mem_of_find?_eq_some hfind) (by simpa using List.find?_some hfind)
    change (balances.rows.find? fun r => r.key = k).map (·.balanceRaw) = _
    rw [hfind, Option.map_some, hr, balanceRaw_projectedBalance]
    rfl

section Refinement

variable {o : RetentionOptions} {chainId : ℕ} {number : ℕ → Hash → ℕ} {s : RetentionDb}
variable {jobs : List TransferJob} {job : TransferJob} {holder : Address}
variable {k : ℕ × Address × Address}

/-- Every transfer of a history names the number of its block. -/
theorem blockNumber_of_mem_processAll (hnum : Numbered number s jobs) :
    ∀ t ∈ (s.processAll jobs).db.tokenTransfers, t.blockNumber = number t.chainId t.blockHash := by
  intro t ht
  rw [tokenTransfers_processAll] at ht
  rcases Table.mem_of_mem_insertAll ht with ht | ⟨ht, -⟩
  · exact hnum.transfers t ht
  · obtain ⟨job, hjob, rfl⟩ := List.mem_map.mp ht
    exact hnum.jobs job hjob

/-- **What a prune takes off a balance**: what the wallet's transfers
below the boundary net to. -/
theorem canonicalNet_prune (chainId : ℕ) (hbatch : 0 < o.deleteBatchSize)
    (hnum : Numbered number s jobs) :
    canonicalNet ((s.processAll jobs).db.tokenTransfers.rows.filter
        (pruned o chainId s.db (·.chainId) (·.blockNumber))) k +
      canonicalNet
        ((prune o chainId (fun _ => none) s).processAll jobs).db.tokenTransfers.rows k =
    canonicalNet (s.processAll jobs).db.tokenTransfers.rows k := by
  let t := (s.processAll jobs).db.tokenTransfers
  let p := ((prune o chainId (fun _ => none) s).processAll jobs).db.tokenTransfers
  let below := pruned o chainId s.db (·.chainId) fun r : TransferRow => r.blockNumber
  have hp : PrunedOf (agedKey o chainId s.db number) p t := prunedOf_processAll hbatch hnum
  have hbelow : ∀ r ∈ t, below r = agedKey o chainId s.db number r.key := fun r hr =>
    pruned_eq_agedKey (blockNumber_of_mem_processAll hnum r hr)
  have hcanonical : ∀ r : TransferRow, r.joins k.1 k.2.1 k.2.2 = true → r.canonical = true := by
    intro r hr
    simp only [TransferRow.joins, Bool.and_eq_true] at hr
    exact hr.1.2
  have hrest : canonicalNet p.rows k = canonicalNet (t.rows.filter fun r => !below r) k := by
    refine canonicalNet_congr ((List.perm_ext_iff_of_nodup ((p.unique.of_map _).filter _)
      (((t.unique.of_map _).filter _).filter _)).mpr fun r => ?_)
    simp only [List.mem_filter]
    refine and_congr_left fun hjoins => ?_
    cases haged : agedKey o chainId s.db number r.key with
    | false =>
      refine (hp.kept r haged).trans ⟨fun hr => ⟨hr, ?_⟩, And.left⟩
      rw [hbelow r hr, haged]
      rfl
    | true =>
      constructor
      · intro hr
        exact absurd (hcanonical r hjoins) (by rw [hp.lost r hr haged]; simp)
      · rintro ⟨hr, hnot⟩
        rw [hbelow r hr, haged] at hnot
        exact absurd hnot (by simp)
  rw [hrest]
  exact canonicalNet_filter_add below

/-- **A prune leaves a projected balance alone exactly when** the
canonical transfers of the wallet below its boundary, those recorded later
included, net to zero. -/
theorem balance_prune_iff (hbatch : 0 < o.deleteBatchSize)
    (hnum : Numbered number s (jobs ++ [job])) (hholder : holder ∈ job.holders) :
    ((prune o chainId (fun _ => none) s).processAll (jobs ++ [job])).balance
        (job.chainId, job.tokenAddress, holder) =
      (s.processAll (jobs ++ [job])).balance (job.chainId, job.tokenAddress, holder) ↔
    let history := s.db.tokenTransfers.insertAll ((jobs ++ [job]).map (·.row s.db.blocks))
    let below := history.rows.filter (pruned o chainId s.db (·.chainId) (·.blockNumber))
    canonicalIncoming below (job.chainId, job.tokenAddress, holder) =
      canonicalOutgoing below (job.chainId, job.tokenAddress, holder) := by
  have hstored : ∀ s : RetentionDb,
      (s.processAll (jobs ++ [job])).balance (job.chainId, job.tokenAddress, holder) =
        some (canonicalNet (s.processAll (jobs ++ [job])).db.tokenTransfers.rows
          (job.chainId, job.tokenAddress, holder)) := by
    intro s
    simp only [RetentionDb.processAll, List.foldl_append, List.foldl_cons, List.foldl_nil]
    exact balance_processTokenTransfer hholder
  have hnet := canonicalNet_prune chainId (k := (job.chainId, job.tokenAddress, holder)) hbatch
    hnum
  rw [hstored, hstored, Option.some.injEq, ← tokenTransfers_processAll]
  simp only [canonicalNet] at hnet ⊢
  omega

end Refinement

/-! ## Sample histories -/

/-- Canonical blocks at 1 and 200, and nothing recorded. -/
def RetentionDb.sample : RetentionDb where
  db := { Db.empty with
    blocks := Table.empty.insertAll
      [⟨1, 1, ⟨1⟩, ⟨0⟩, 0, .finalized, true⟩, ⟨1, 200, ⟨200⟩, ⟨199⟩, 0, .pending, true⟩] }
  balances := ∅

/-- A window of a hundred blocks. -/
def RetentionOptions.sample : RetentionOptions := ⟨100, 5000⟩

/-- A transfer of token 7 in the block at `number`. -/
def TransferJob.inBlock (number logIndex : ℕ) (fromAddress toAddress : Address) (valueRaw : ℕ) :
    TransferJob :=
  ⟨1, number, ⟨number⟩, ⟨7⟩, fromAddress, toAddress, ⟨number⟩, logIndex, valueRaw⟩

/-- What was minted long ago and all sent on leaves the balance alone. -/
theorem balance_prune_of_spent :
    let s := RetentionDb.sample.processAll
      [.inBlock 1 0 ZERO_ADDRESS ⟨8⟩ 1000, .inBlock 1 1 ⟨8⟩ ⟨9⟩ 1000]
    let received : List TransferJob := [.inBlock 200 0 ZERO_ADDRESS ⟨8⟩ 400]
    ((prune .sample 1 (fun _ => none) s).processAll received).balance (1, ⟨7⟩, ⟨8⟩) =
        (s.processAll received).balance (1, ⟨7⟩, ⟨8⟩) ∧
      (s.processAll received).balance (1, ⟨7⟩, ⟨8⟩) = some 400 := by
  intro s received
  have hnum : Numbered (fun _ hash => hash.value) s ([] ++ received) :=
    ⟨by decide, by decide, by decide⟩
  exact ⟨(balance_prune_iff (by decide) hnum (by decide)).mpr (by decide), by decide⟩

/-- **A prune can turn a balance negative**: a holder that received before
the boundary sends after it. -/
theorem not_balance_prune_of_held :
    ¬∀ (o : RetentionOptions) (chainId : ℕ) (number : ℕ → Hash → ℕ) (s : RetentionDb)
      (jobs : List TransferJob) (job : TransferJob) (holder : Address), 0 < o.deleteBatchSize →
      Numbered number s (jobs ++ [job]) → holder ∈ job.holders →
      ((prune o chainId (fun _ => none) s).processAll (jobs ++ [job])).balance
          (job.chainId, job.tokenAddress, holder) =
        (s.processAll (jobs ++ [job])).balance (job.chainId, job.tokenAddress, holder) := by
  intro h
  let s := RetentionDb.sample.processAll [.inBlock 1 0 ZERO_ADDRESS ⟨8⟩ 1000]
  let sent : TransferJob := .inBlock 200 0 ⟨8⟩ ⟨9⟩ 400
  have hpruned : ((prune .sample 1 (fun _ => none) s).processAll [sent]).balance (1, ⟨7⟩, ⟨8⟩) =
      some (-400) := by decide
  have hkept : (s.processAll [sent]).balance (1, ⟨7⟩, ⟨8⟩) = some 600 := by decide
  have heq := h .sample 1 (fun _ hash => hash.value) s [] sent ⟨8⟩ (by decide)
    ⟨by decide, by decide, by decide⟩ (by decide)
  rw [show ((prune .sample 1 (fun _ => none) s).processAll ([] ++ [sent])).balance
    (sent.chainId, sent.tokenAddress, ⟨8⟩) = some (-400) from hpruned] at heq
  exact absurd (heq.trans hkept) (by decide)

end HoodSentry
