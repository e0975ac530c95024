import HoodSentry.Risk.Model.Scan
import HoodSentry.Worker.Balances
import HoodSentry.Worker.Model.Transfer
/-!
# Holder balances of a risk scan

`DrizzleHolderBalanceSource` reads the projected balances of a token, and
`balanceAvailability` decides whether they describe the token at the block
of the scan. A balance row keeps no history: it says the highest block
that fed it, and the decision compares the highest of these with the block
of the last stored transfer.
-/

namespace HoodSentry

/-! ## The source -/

structure IndexedBalance where
  address : Address
  balanceRaw : ℤ
  asOfBlock : ℕ
deriving DecidableEq

/-- Every positive balance recorded for the token. -/
def listBalances (balances : Table BalanceRow.key) (chainId : ℕ) (tokenAddress : Address) :
    List IndexedBalance :=
  (balances.rows.filter fun row =>
    row.chainId = chainId && row.tokenAddress = tokenAddress && 0 < row.balanceRaw).map
      fun row => ⟨row.walletAddress, row.balanceRaw, row.asOfBlock⟩

/-- The highest block up to `atBlock` with a canonical transfer of the
token. -/
def latestTransferBlock (transfers : Table TransferRow.key) (chainId : ℕ) (tokenAddress : Address)
    (atBlock : ℕ) : Option ℕ :=
  ((transfers.rows.filter fun t =>
    t.chainId = chainId && t.tokenAddress = tokenAddress && t.blockNumber ≤ atBlock &&
      t.canonical).map (·.blockNumber)).max?

/-! ## The decision -/

structure Availability where
  status : DataSourceStatus
  reason : Option String
deriving DecidableEq

/-- The highest block a listed balance is of. -/
def highestAsOf (balances : List IndexedBalance) : ℕ :=
  balances.foldl
    (fun highest balance => if balance.asOfBlock > highest then balance.asOfBlock else highest) 0

def balanceAvailability (balances : List IndexedBalance) (latestTransferBlock : Option ℕ)
    (sourceBlock : ℕ) : Availability :=
  if balances.isEmpty then ⟨.unavailable, some "HOLDER_BALANCES_NOT_INDEXED"⟩
  else if highestAsOf balances > sourceBlock then
    ⟨.error, some "HOLDER_BALANCES_AHEAD_OF_SCAN_BLOCK"⟩
  else if latestTransferBlock.any fun latest => latest > highestAsOf balances then
    ⟨.stale, some "HOLDER_BALANCES_BEHIND_SCAN_BLOCK"⟩
  else ⟨.available, none⟩

/-- What a scan decides from the two tables a transfer job writes. -/
def TokenTables.availability (s : TokenTables) (chainId : ℕ) (tokenAddress : Address)
    (sourceBlock : ℕ) : Availability :=
  balanceAvailability (listBalances s.balances chainId tokenAddress)
    (latestTransferBlock s.transfers chainId tokenAddress sourceBlock) sourceBlock

/-- The tables after jobs processed one after the other. -/
def processTokenTransfers (blocks : Table BlockRow.key) (jobs : List TransferJob) : TokenTables :=
  jobs.foldl (processTokenTransfer blocks) ⟨∅, ∅⟩

end HoodSentry

/-!
## Holder snapshots

After any jobs in any order the balance table is the projection of the
transfers processed so far. A scan takes it for the token's holdings at a
block when the last of these transfers fed a positive balance, which says
nothing of the transfers still missing and fails when the last one left no
holder. The exact condition is on the two groups of transfers that the
processed ones and those up to the block do not share.
-/

namespace HoodSentry

/-! ## Maxima -/

theorem foldr_max_le_iff {l : List ℕ} {n : ℕ} : l.foldr max 0 ≤ n ↔ ∀ m ∈ l, m ≤ n := by
  induction l with
  | nil => simp
  | cons m l ih => rw [List.foldr_cons, max_le_iff, ih, List.forall_mem_cons]

section Decision

variable {balances : List IndexedBalance} {latest : Option ℕ} {sourceBlock n : ℕ}

theorem highestAsOf_le_iff : highestAsOf balances ≤ n ↔ ∀ b ∈ balances, b.asOfBlock ≤ n := by
  have hfold : ∀ (l : List IndexedBalance) (m : ℕ),
      l.foldl (fun h b => if b.asOfBlock > h then b.asOfBlock else h) m ≤ n ↔
        m ≤ n ∧ ∀ b ∈ l, b.asOfBlock ≤ n := by
    intro l
    induction l with
    | nil => intro m; simp
    | cons b l ih =>
      intro m
      rw [List.foldl_cons, ih, List.forall_mem_cons, ← and_assoc]
      refine and_congr_left fun _ => ?_
      split
      · omega
      · omega
  rw [highestAsOf, hfold]
  exact and_iff_right (Nat.zero_le n)

/-- **When balances are available**: some are listed, none of them is of a
later block, and one is of the latest transfer's block or after it. -/
theorem available_iff :
    (balanceAvailability balances latest sourceBlock).status = .available ↔
      balances ≠ [] ∧ (∀ b ∈ balances, b.asOfBlock ≤ sourceBlock) ∧
        ∀ m ∈ latest, m ≤ highestAsOf balances := by
  unfold balanceAvailability
  rw [← highestAsOf_le_iff]
  cases balances with
  | nil => simp
  | cons b balances =>
    cases latest with
    | none =>
      by_cases h : sourceBlock < highestAsOf (b :: balances)
      · simp [h]
      · simp [h]
        omega
    | some m =>
      by_cases h : sourceBlock < highestAsOf (b :: balances)
      · simp [h]
      · by_cases hm : highestAsOf (b :: balances) < m
        · simp [h, hm]
        · simp [h, hm]
          omega

end Decision

/-! ## The tables after any jobs -/

/-- **The balances are the projection of the stored transfers**, and every
wallet of a stored transfer has one. -/
structure Projected (s : TokenTables) : Prop where
  balances : ∀ r ∈ s.balances, r.walletAddress ≠ ZERO_ADDRESS ∧
    r = projectedBalance s.transfers.rows r.chainId r.tokenAddress r.walletAddress
  keys : ∀ t ∈ s.transfers, ∀ holder, holder ≠ ZERO_ADDRESS →
    (t.fromAddress = holder ∨ t.toAddress = holder) →
    (t.chainId, t.tokenAddress, holder) ∈ s.balances.keys

section Jobs

variable {blocks : Table BlockRow.key} {s : TokenTables} {job : TransferJob}
  {jobs : List TransferJob}

theorem mem_jobHolders {h : Address} :
    h ∈ job.holders ↔ (job.fromAddress = h ∨ job.toAddress = h) ∧ h ≠ ZERO_ADDRESS := by
  rw [mem_holders, List.mem_cons, List.mem_singleton, eq_comm, @eq_comm _ h job.toAddress]

/-- **One job keeps it**: the two sides of the transfer are projected
again, and the transfer moves no other balance. -/
theorem projected_processTokenTransfer (h : Projected s) :
    Projected (processTokenTransfer blocks s job) := by
  let transfers := s.transfers.insertNew (job.row blocks)
  let project := projectedBalance transfers.rows job.chainId job.tokenAddress
  have hbalances : (processTokenTransfer blocks s job).balances =
      (job.holders.map project).foldl upsertBalance s.balances := rfl
  have htransfers : (processTokenTransfer blocks s job).transfers = transfers := rfl
  refine ⟨fun r hr => ?_, fun t ht holder hzero hside => ?_⟩
  · rw [hbalances] at hr
    rcases mem_foldl_upsertBalance hr with hr | ⟨hr, hother⟩
    · obtain ⟨holder, hholder, rfl⟩ := List.mem_map.mp hr
      exact ⟨(mem_jobHolders.mp hholder).2, rfl⟩
    · obtain ⟨hzero, hrow⟩ := h.balances r hr
      refine ⟨hzero, ?_⟩
      rw [htransfers]
      by_cases hk : (job.row blocks).key ∈ s.transfers.keys
      · have hsame : transfers = s.transfers := dif_pos hk
        rw [hsame]
        exact hrow
      · rw [Table.rows_insertNew hk, projectedBalance_append_of_not, ← hrow]
        -- a side of the job's transfer is upserted, and `r` is under another key
        rw [Bool.eq_false_iff]
        intro hjoins
        simp only [TransferRow.joins, Bool.and_eq_true, Bool.or_eq_true,
          decide_eq_true_eq] at hjoins
        obtain ⟨⟨⟨hchain, htoken⟩, -⟩, hside⟩ := hjoins
        have hholder : r.walletAddress ∈ job.holders := mem_jobHolders.mpr ⟨hside, hzero⟩
        have hkey : r.key = (project r.walletAddress).key :=
          Prod.ext hchain.symm (Prod.ext htoken.symm rfl)
        exact hother _ (List.mem_map_of_mem hholder) hkey
  · rw [hbalances, mem_keys_foldl_upsertBalance]
    rcases Table.mem_insertNew.mp ht with ht | ⟨rfl, -⟩
    · exact Or.inl (h.keys t ht holder hzero hside)
    · have hholder : holder ∈ job.holders := mem_jobHolders.mpr ⟨hside, hzero⟩
      exact Or.inr (List.mem_map.mpr ⟨project holder, List.mem_map_of_mem hholder, rfl⟩)

/-- **Any jobs keep it.** -/
theorem projected_processTokenTransfers : Projected (processTokenTransfers blocks jobs) := by
  unfold processTokenTransfers
  have hstart : Projected ⟨∅, ∅⟩ :=
    ⟨fun r hr => absurd hr (Table.notMem_empty r), fun t ht => absurd ht (Table.notMem_empty t)⟩
  generalize (⟨∅, ∅⟩ : TokenTables) = s at hstart ⊢
  induction jobs generalizing s with
  | nil => exact hstart
  | cons job jobs ih => exact ih _ (projected_processTokenTransfer hstart)

theorem transfers_processTokenTransfers :
    (processTokenTransfers blocks jobs).transfers = (∅ : Table _).insertAll (jobs.map (·.row blocks)) := by
  unfold processTokenTransfers
  change _ = (⟨∅, ∅⟩ : TokenTables).transfers.insertAll _
  generalize (⟨∅, ∅⟩ : TokenTables) = s
  induction jobs generalizing s with
  | nil => rfl
  | cons job jobs ih => exact ih _

end Jobs

/-! ## What a scan is given -/

/-- The transfer moves the wallet's balance. -/
def TransferRow.Moves (t : TransferRow) (wallet : Address) : Prop :=
  t.fromAddress = wallet ∨ t.toAddress = wallet

/-- A wallet holds some of the token over a list of transfers. The zero
address is a supply sink and no wallet. -/
def Holds (chainId : ℕ) (token : Address) (rows : List TransferRow) (wallet : Address) : Prop :=
  wallet ≠ ZERO_ADDRESS ∧ 0 < canonicalNet rows (chainId, token, wallet)

/-- **A holder stands at the head** of a list of transfers at a block: no
holder is moved past the block, and the last transfer up to it is no later
than one that moves a holder. -/
structure HolderAtHead (chainId : ℕ) (token : Address) (rows : List TransferRow) (block : ℕ) :
    Prop where
  some : ∃ wallet, Holds chainId token rows wallet
  notAhead : ∀ wallet, Holds chainId token rows wallet →
    ∀ t ∈ rows, t.Moves wallet → t.blockNumber ≤ block
  last : ∀ t ∈ rows, t.blockNumber ≤ block → ∃ t' ∈ rows, t.blockNumber ≤ t'.blockNumber ∧
    ∃ wallet, Holds chainId token rows wallet ∧ t'.Moves wallet

section Given

variable {chainId block : ℕ} {token wallet : Address} {rows rows' : List TransferRow}
  {s : TokenTables} {b : IndexedBalance}

theorem asOfBlock_projectedBalance_le_iff {n : ℕ} :
    (projectedBalance rows chainId token wallet).asOfBlock ≤ n ↔
      ∀ t ∈ rows, t.joins chainId token wallet = true → t.blockNumber ≤ n := by
  simp only [projectedBalance]
  rw [foldr_max_le_iff, List.forall_mem_map]
  simp only [List.mem_filter, and_imp]

theorem exists_joins_of_net_pos (h : 0 < canonicalNet rows (chainId, token, wallet)) :
    ∃ t ∈ rows, t.joins chainId token wallet = true := by
  by_contra hnone
  push Not at hnone
  have hfilter : rows.filter (·.joins chainId token wallet) = [] :=
    List.filter_eq_nil_iff.mpr hnone
  have hzero : canonicalNet rows (chainId, token, wallet) =
      canonicalNet [] (chainId, token, wallet) :=
    canonicalNet_congr (by rw [hfilter, List.filter_nil])
  have hnil : canonicalNet [] (chainId, token, wallet) = 0 := by
    simp [canonicalNet, canonicalIncoming, canonicalOutgoing]
  omega

/-- **The listed balances** are those of the holders over the stored
transfers. -/
theorem mem_listBalances (hs : Projected s) :
    b ∈ listBalances s.balances chainId token ↔
      Holds chainId token s.transfers.rows b.address ∧
        b.balanceRaw = canonicalNet s.transfers.rows (chainId, token, b.address) ∧
        b.asOfBlock = (projectedBalance s.transfers.rows chainId token b.address).asOfBlock := by
  have hraw : ∀ wallet, (projectedBalance s.transfers.rows chainId token wallet).balanceRaw =
      canonicalNet s.transfers.rows (chainId, token, wallet) :=
    fun wallet => balanceRaw_projectedBalance
  unfold listBalances
  rw [List.mem_map]
  simp only [List.mem_filter, Bool.and_eq_true, decide_eq_true_eq]
  constructor
  · rintro ⟨r, ⟨hr, ⟨hchain, htoken⟩, hpos⟩, rfl⟩
    obtain ⟨hzero, hrow⟩ := hs.balances r hr
    rw [hchain, htoken] at hrow
    have hbalance : r.balanceRaw =
        canonicalNet s.transfers.rows (chainId, token, r.walletAddress) := by
      rw [hrow, hraw]
      rfl
    exact ⟨⟨hzero, hbalance ▸ hpos⟩, hbalance, congrArg BalanceRow.asOfBlock hrow⟩
  · rintro ⟨⟨hzero, hpos⟩, hbalance, hasOf⟩
    obtain ⟨t, ht, hjoins⟩ := exists_joins_of_net_pos hpos
    simp only [TransferRow.joins, Bool.and_eq_true, Bool.or_eq_true, decide_eq_true_eq] at hjoins
    obtain ⟨⟨⟨hchain, htoken⟩, -⟩, hside⟩ := hjoins
    have hkey := hs.keys t ht b.address hzero hside
    rw [hchain, htoken] at hkey
    obtain ⟨r, hr, hrk⟩ := Table.mem_keys.mp hkey
    simp only [BalanceRow.key, Prod.mk.injEq] at hrk
    obtain ⟨hrchain, hrtoken, hrwallet⟩ := hrk
    obtain ⟨-, hrow⟩ := hs.balances r hr
    rw [hrchain, hrtoken, hrwallet] at hrow
    have hrbalance : r.balanceRaw = b.balanceRaw := by
      rw [hrow, hraw, hbalance]
    have hrasOf : r.asOfBlock = b.asOfBlock := by
      rw [hrow, hasOf]
    refine ⟨r, ⟨hr, ⟨hrchain, hrtoken⟩, ?_⟩, ?_⟩
    · rw [hrbalance, hbalance]
      exact hpos
    · rw [hrwallet, hrbalance, hrasOf]

/-- The block of the latest transfer bounds those of the others. -/
theorem le_latestTransferBlock (hrows : ∀ t ∈ s.transfers.rows, t.chainId = chainId ∧
      t.tokenAddress = token ∧ t.canonical = true) {n : ℕ} :
    (∀ m ∈ latestTransferBlock s.transfers chainId token block, m ≤ n) ↔
      ∀ t ∈ s.transfers.rows, t.blockNumber ≤ block → t.blockNumber ≤ n := by
  have hmem : ∀ t ∈ s.transfers.rows, t.blockNumber ≤ block →
      t.blockNumber ∈ (s.transfers.rows.filter fun t => t.chainId = chainId &&
        t.tokenAddress = token && t.blockNumber ≤ block && t.canonical).map (·.blockNumber) := by
    intro t ht hle
    obtain ⟨hchain, htoken, hcanonical⟩ := hrows t ht
    refine List.mem_map_of_mem (List.mem_filter.mpr ⟨ht, ?_⟩)
    simp [hchain, htoken, hcanonical, hle]
  constructor
  · intro h t ht hle
    have hsome : (latestTransferBlock s.transfers chainId token block).isSome = true :=
      List.isSome_max?_of_mem (hmem t ht hle)
    obtain ⟨m, hm⟩ := Option.isSome_iff_exists.mp hsome
    exact ((List.max?_eq_some_iff.mp hm).2 _ (hmem t ht hle)).trans (h m hm)
  · intro h m hm
    obtain ⟨t, ht, rfl⟩ := List.mem_map.mp (List.max?_mem hm)
    obtain ⟨ht, hwhere⟩ := List.mem_filter.mp ht
    simp only [Bool.and_eq_true, decide_eq_true_eq] at hwhere
    exact h t ht hwhere.1.2

/-- **A snapshot is available** when a holder stands at the head of the
stored transfers. -/
theorem availability_iff (hs : Projected s) (hrows : ∀ t ∈ s.transfers.rows,
      t.chainId = chainId ∧ t.tokenAddress = token ∧ t.canonical = true) :
    (s.availability chainId token block).status = .available ↔
      HolderAtHead chainId token s.transfers.rows block := by
  have hjoins : ∀ t ∈ s.transfers.rows, ∀ wallet,
      t.joins chainId token wallet = true ↔ t.Moves wallet := by
    intro t ht wallet
    obtain ⟨hchain, htoken, hcanonical⟩ := hrows t ht
    simp [TransferRow.joins, TransferRow.Moves, hchain, htoken, hcanonical]
  have hlisted : ∀ wallet, Holds chainId token s.transfers.rows wallet →
      ∃ b ∈ listBalances s.balances chainId token, b.address = wallet ∧
        b.asOfBlock = (projectedBalance s.transfers.rows chainId token wallet).asOfBlock := by
    intro wallet hwallet
    let b : IndexedBalance := ⟨wallet, canonicalNet s.transfers.rows (chainId, token, wallet),
      (projectedBalance s.transfers.rows chainId token wallet).asOfBlock⟩
    exact ⟨b, (mem_listBalances hs).mpr ⟨hwallet, rfl, rfl⟩, rfl, rfl⟩
  rw [TokenTables.availability, available_iff, le_latestTransferBlock hrows]
  constructor
  · rintro ⟨hsome, hahead, hlast⟩
    obtain ⟨b, hb⟩ := List.exists_mem_of_ne_nil _ hsome
    obtain ⟨hholds, -, -⟩ := (mem_listBalances hs).mp hb
    refine ⟨⟨b.address, hholds⟩, fun wallet hwallet t ht hmoves => ?_, fun t ht hle => ?_⟩
    · obtain ⟨b', hb', -, hasOf⟩ := hlisted wallet hwallet
      have hle := hahead b' hb'
      rw [hasOf, asOfBlock_projectedBalance_le_iff] at hle
      exact hle t ht ((hjoins t ht wallet).mpr hmoves)
    · by_contra hnone
      push Not at hnone
      have hhighest : highestAsOf (listBalances s.balances chainId token) ≤ t.blockNumber - 1 := by
        refine highestAsOf_le_iff.mpr fun b' hb' => ?_
        obtain ⟨hholds', -, hasOf⟩ := (mem_listBalances hs).mp hb'
        rw [hasOf, asOfBlock_projectedBalance_le_iff]
        intro t' ht' hj
        by_contra hlt
        exact hnone t' ht' (by omega) b'.address hholds' ((hjoins t' ht' _).mp hj)
      -- only a transfer of the first block is left, and any holder's is as late
      have hzero : t.blockNumber = 0 := by
        have := hlast t ht hle
        omega
      obtain ⟨t', ht', hj⟩ := exists_joins_of_net_pos hholds.2
      exact hnone t' ht' (by omega) b.address hholds ((hjoins t' ht' _).mp hj)
  · rintro ⟨⟨wallet, hwallet⟩, hahead, hlast⟩
    obtain ⟨b, hb, -, -⟩ := hlisted wallet hwallet
    refine ⟨List.ne_nil_of_mem hb, fun b' hb' => ?_, fun t ht hle => ?_⟩
    · obtain ⟨hholds', -, hasOf⟩ := (mem_listBalances hs).mp hb'
      rw [hasOf, asOfBlock_projectedBalance_le_iff]
      exact fun t ht hj => hahead b'.address hholds' t ht ((hjoins t ht _).mp hj)
    · obtain ⟨t', ht', hle', holder, hholder, hmoves⟩ := hlast t ht hle
      obtain ⟨b', hb', -, hasOf⟩ := hlisted holder hholder
      have hasOf' : t'.blockNumber ≤ b'.asOfBlock := by
        rw [hasOf]
        exact asOfBlock_projectedBalance_le_iff.mp le_rfl t' ht' ((hjoins t' ht' holder).mpr hmoves)
      exact hle'.trans (hasOf'.trans (highestAsOf_le_iff.mp le_rfl b' hb'))

theorem holds_congr (h : rows.Perm rows') :
    Holds chainId token rows wallet ↔ Holds chainId token rows' wallet := by
  rw [Holds, Holds, canonicalNet_congr (h.filter _)]

theorem holderAtHead_congr (h : rows.Perm rows') :
    HolderAtHead chainId token rows block ↔ HolderAtHead chainId token rows' block := by
  have hholds : ∀ wallet, Holds chainId token rows wallet ↔ Holds chainId token rows' wallet :=
    fun wallet => holds_congr h
  constructor
  · rintro ⟨hsome, hahead, hlast⟩
    simp only [hholds, h.mem_iff] at hsome hahead hlast
    exact ⟨hsome, hahead, hlast⟩
  · rintro ⟨hsome, hahead, hlast⟩
    simp only [← hholds, ← h.mem_iff] at hsome hahead hlast
    exact ⟨hsome, hahead, hlast⟩

end Given

/-! ## The transfers of a token -/

/-- **The canonical transfers of a token**: one job for each, whose block
is stored as canonical. -/
structure CanonicalTransfers (blocks : Table BlockRow.key) (chainId : ℕ) (token : Address) where
  jobs : List TransferJob
  distinct : (jobs.map fun job => (job.row blocks).key).Nodup
  about : ∀ job ∈ jobs, job.chainId = chainId ∧ job.tokenAddress = token
  canonical : ∀ job ∈ jobs, (job.row blocks).canonical = true

namespace CanonicalTransfers

variable {blocks : Table BlockRow.key} {chainId : ℕ} {token : Address}
variable (T : CanonicalTransfers blocks chainId token) (processed : List TransferJob) (block : ℕ)

/-- Some of the transfers. -/
def rowsWhere (p : TransferJob → Bool) : List TransferRow :=
  (T.jobs.filter p).map (·.row blocks)

/-- The transfers up to a block. -/
def upTo : List TransferRow := T.rowsWhere fun job => job.blockNumber ≤ block

/-- The transfers whose jobs are processed. -/
def among : List TransferRow := T.rowsWhere fun job => job ∈ processed

/-- The transfers up to the block whose jobs are still to process. -/
def missing : List TransferRow :=
  T.rowsWhere fun job => job.blockNumber ≤ block && !decide (job ∈ processed)

/-- The transfers past the block whose jobs are processed. -/
def early : List TransferRow :=
  T.rowsWhere fun job => job ∈ processed && !decide (job.blockNumber ≤ block)

/-- The processed jobs are those of the transfers up to the block. -/
def Complete : Prop := ∀ job ∈ T.jobs, job ∈ processed ↔ job.blockNumber ≤ block

/-- **An available snapshot is exact**, and a snapshot of all that
happened up to the block, with a holder in it, is available. -/
structure SnapshotExact : Prop where
  exact : ((processTokenTransfers blocks processed).availability chainId token block).status =
      .available →
    ∀ wallet, wallet ≠ ZERO_ADDRESS → ∀ raw,
      (∃ b ∈ listBalances (processTokenTransfers blocks processed).balances chainId token,
        b.address = wallet ∧ b.balanceRaw = raw) ↔
      raw = canonicalNet (T.upTo block) (chainId, token, wallet) ∧ 0 < raw
  available : T.Complete processed block →
    (∃ wallet, Holds chainId token (T.upTo block) wallet) →
    ((processTokenTransfers blocks processed).availability chainId token block).status = .available

/-- **The condition.** Where a holder stands at the head of the processed
transfers, those missing up to the block and those early past it bring
every wallet the same, or it holds nothing either way. Where exactly those
up to the block are processed and there is a holder, the last of them
moves one. -/
structure SnapshotPinned : Prop where
  even : HolderAtHead chainId token (T.among processed) block →
    ∀ wallet, wallet ≠ ZERO_ADDRESS →
      canonicalNet (T.missing processed block) (chainId, token, wallet) =
        canonicalNet (T.early processed block) (chainId, token, wallet) ∨
      ¬Holds chainId token (T.among processed) wallet ∧
        ¬Holds chainId token (T.upTo block) wallet
  last : T.Complete processed block → (∃ wallet, Holds chainId token (T.upTo block) wallet) →
    ∀ t ∈ T.upTo block, ∃ t' ∈ T.upTo block, t.blockNumber ≤ t'.blockNumber ∧
      ∃ holder, Holds chainId token (T.upTo block) holder ∧ t'.Moves holder

variable {T} {processed block}

theorem mem_rowsWhere {p : TransferJob → Bool} {t : TransferRow} :
    t ∈ T.rowsWhere p ↔ ∃ job ∈ T.jobs, p job = true ∧ job.row blocks = t := by
  simp only [rowsWhere, List.mem_map, List.mem_filter, and_assoc]

theorem nodup_rowsWhere {p : TransferJob → Bool} : (T.rowsWhere p).Nodup := by
  have hsub : (T.rowsWhere p).Sublist (T.jobs.map (·.row blocks)) := List.filter_sublist.map _
  have hrows : ((T.jobs.map (·.row blocks)).map TransferRow.key).Nodup := by
    rw [List.map_map]
    exact T.distinct
  exact hrows.of_map.sublist hsub

/-- A job of the token is known by the key of its row. -/
theorem eq_of_key_eq {job job' : TransferJob} (h : job ∈ T.jobs) (h' : job' ∈ T.jobs)
    (hk : (job.row blocks).key = (job'.row blocks).key) : job = job' :=
  List.inj_on_of_nodup_map T.distinct h h' hk

/-- What some of the transfers bring a wallet, by a second property. -/
theorem net_rowsWhere (p q : TransferJob → Bool) {k : ℕ × Address × Address} :
    canonicalNet (T.rowsWhere p) k = canonicalNet (T.rowsWhere fun job => p job && q job) k +
      canonicalNet (T.rowsWhere fun job => p job && !q job) k := by
  rw [← canonicalNet_append]
  refine canonicalNet_congr (List.Perm.filter _ ?_)
  have hperm := ((List.filter_append_perm q (T.jobs.filter p)).map (·.row blocks)).symm
  rw [List.map_append, List.filter_filter, List.filter_filter] at hperm
  simp only [rowsWhere, Bool.and_comm (p _)]
  exact hperm

/-- **The processed and the settled differ by the missing and the
early.** -/
theorem net_among_add_missing (processed : List TransferJob) (block : ℕ)
    (k : ℕ × Address × Address) :
    canonicalNet (T.among processed) k + canonicalNet (T.missing processed block) k =
      canonicalNet (T.upTo block) k + canonicalNet (T.early processed block) k := by
  have hdone := T.net_rowsWhere (fun job => job ∈ processed) (fun job => job.blockNumber ≤ block) (k := k)
  have hupTo := T.net_rowsWhere (fun job => job.blockNumber ≤ block) (fun job => job ∈ processed) (k := k)
  have hboth : (T.rowsWhere fun job => decide (job.blockNumber ≤ block) && decide (job ∈ processed)) =
      T.rowsWhere fun job => decide (job ∈ processed) && decide (job.blockNumber ≤ block) := by
    simp only [Bool.and_comm]
  rw [hboth] at hupTo
  unfold among missing upTo early
  omega

/-- The stored transfers are those processed. -/
theorem perm_among (hprocessed : ∀ job ∈ processed, job ∈ T.jobs) :
    (processTokenTransfers blocks processed).transfers.rows.Perm (T.among processed) := by
  refine (List.perm_ext_iff_of_nodup (Table.unique _).of_map nodup_rowsWhere).mpr fun t => ?_
  rw [transfers_processTokenTransfers, mem_rowsWhere, ← Table.mem_iff]
  simp only [decide_eq_true_eq]
  constructor
  · intro ht
    rcases Table.mem_of_mem_insertAll ht with ht | ⟨ht, -⟩
    · exact absurd ht (Table.notMem_empty t)
    · obtain ⟨job, hjob, rfl⟩ := List.mem_map.mp ht
      exact ⟨job, hprocessed job hjob, hjob, rfl⟩
  · rintro ⟨job, hjob, hdone, rfl⟩
    have hrow : job.row blocks ∈ processed.map (·.row blocks) := List.mem_map_of_mem hdone
    have hfree : (job.row blocks).key ∉ (∅ : Table TransferRow.key).keys := List.not_mem_nil
    obtain ⟨x, hx, hxmem, hxk⟩ := Table.exists_mem_insertAll hrow hfree
    obtain ⟨job', hjob', rfl⟩ := List.mem_map.mp hxmem
    obtain rfl := T.eq_of_key_eq (hprocessed job' hjob') hjob hxk
    exact hx

/-- **A snapshot is available** when a holder stands at the head of the
processed transfers. -/
theorem available_iff_holderAtHead (hprocessed : ∀ job ∈ processed, job ∈ T.jobs) :
    ((processTokenTransfers blocks processed).availability chainId token block).status =
      .available ↔ HolderAtHead chainId token (T.among processed) block := by
  rw [availability_iff projected_processTokenTransfers, holderAtHead_congr (perm_among hprocessed)]
  intro t ht
  obtain ⟨job, hjob, -, rfl⟩ := mem_rowsWhere.mp ((perm_among hprocessed).mem_iff.mp ht)
  exact ⟨(T.about job hjob).1, (T.about job hjob).2, T.canonical job hjob⟩

/-- What a snapshot gives a wallet. -/
theorem listed_iff (hprocessed : ∀ job ∈ processed, job ∈ T.jobs) {wallet : Address}
    (hzero : wallet ≠ ZERO_ADDRESS) {raw : ℤ} :
    (∃ b ∈ listBalances (processTokenTransfers blocks processed).balances chainId token,
        b.address = wallet ∧ b.balanceRaw = raw) ↔
      raw = canonicalNet (T.among processed) (chainId, token, wallet) ∧ 0 < raw := by
  have hnet : canonicalNet (processTokenTransfers blocks processed).transfers.rows
      (chainId, token, wallet) = canonicalNet (T.among processed) (chainId, token, wallet) :=
    canonicalNet_congr ((perm_among hprocessed).filter _)
  constructor
  · rintro ⟨b, hb, rfl, rfl⟩
    obtain ⟨⟨-, hpos⟩, hraw, -⟩ := (mem_listBalances projected_processTokenTransfers).mp hb
    rw [hraw, hnet] at *
    exact ⟨rfl, hpos⟩
  · rintro ⟨rfl, hpos⟩
    have hrow := (mem_listBalances (b := ⟨wallet, canonicalNet (T.among processed)
      (chainId, token, wallet), (projectedBalance _ chainId token wallet).asOfBlock⟩)
      projected_processTokenTransfers).mpr ⟨⟨hzero, hnet ▸ hpos⟩, hnet.symm, rfl⟩
    exact ⟨_, hrow, rfl, rfl⟩

/-- **When a snapshot is exact.** -/
theorem snapshotExact_iff (hprocessed : ∀ job ∈ processed, job ∈ T.jobs) :
    T.SnapshotExact processed block ↔ T.SnapshotPinned processed block := by
  have hsame : ∀ wallet, wallet ≠ ZERO_ADDRESS →
      ((∀ raw, (∃ b ∈ listBalances (processTokenTransfers blocks processed).balances chainId token,
          b.address = wallet ∧ b.balanceRaw = raw) ↔
        raw = canonicalNet (T.upTo block) (chainId, token, wallet) ∧ 0 < raw) ↔
      (canonicalNet (T.missing processed block) (chainId, token, wallet) =
        canonicalNet (T.early processed block) (chainId, token, wallet) ∨
      ¬Holds chainId token (T.among processed) wallet ∧
        ¬Holds chainId token (T.upTo block) wallet)) := by
    intro wallet hzero
    have hnet := T.net_among_add_missing processed block (chainId, token, wallet)
    simp only [listed_iff hprocessed hzero, Holds, hzero, ne_eq, not_false_eq_true, true_and]
    constructor
    · intro h
      have hdone := h (canonicalNet (T.among processed) (chainId, token, wallet))
      have hupTo := h (canonicalNet (T.upTo block) (chainId, token, wallet))
      omega
    · intro h raw
      omega
  have hhead : T.Complete processed block → (∃ wallet, Holds chainId token (T.upTo block) wallet) →
      (HolderAtHead chainId token (T.among processed) block ↔
        ∀ t ∈ T.upTo block, ∃ t' ∈ T.upTo block, t.blockNumber ≤ t'.blockNumber ∧
          ∃ holder, Holds chainId token (T.upTo block) holder ∧ t'.Moves holder) := by
    intro hcomplete hsome
    have hrows : T.among processed = T.upTo block := by
      unfold among upTo rowsWhere
      rw [List.filter_congr fun job hjob => decide_eq_decide.mpr (hcomplete job hjob)]
    have hle : ∀ t ∈ T.upTo block, t.blockNumber ≤ block := by
      intro t ht
      obtain ⟨job, -, hjob, rfl⟩ := mem_rowsWhere.mp ht
      exact of_decide_eq_true hjob
    rw [hrows]
    exact ⟨fun h t ht => h.last t ht (hle t ht),
      fun h => ⟨hsome, fun _ _ t ht _ => hle t ht, fun t ht _ => h t ht⟩⟩
  constructor
  · rintro ⟨hexact, havailable⟩
    rw [available_iff_holderAtHead hprocessed] at hexact havailable
    exact {
      even := fun h wallet hzero => (hsame wallet hzero).mp (hexact h wallet hzero)
      last := fun hcomplete hsome => (hhead hcomplete hsome).mp (havailable hcomplete hsome) }
  · rintro ⟨heven, hlast⟩
    refine ⟨fun h wallet hzero => ?_, fun hcomplete hsome => ?_⟩
    · rw [available_iff_holderAtHead hprocessed] at h
      exact (hsame wallet hzero).mpr (heven h wallet hzero)
    · rw [available_iff_holderAtHead hprocessed]
      exact (hhead hcomplete hsome).mpr (hlast hcomplete hsome)

end CanonicalTransfers

/-! ## Sample histories -/

/-- The transfer of a token in the block at `n`. -/
def TransferJob.ofBlock (n : ℕ) (fromAddress toAddress : Address) (valueRaw : ℕ) : TransferJob :=
  ⟨1, n, ⟨n⟩, ⟨7⟩, fromAddress, toAddress, ⟨n⟩, 0, valueRaw⟩

/-- The blocks at 4, 5 and 6, all canonical. -/
def scanBlocks : Table BlockRow.key where
  rows := [⟨1, 4, ⟨4⟩, ⟨3⟩, 0, .pending, true⟩, ⟨1, 5, ⟨5⟩, ⟨4⟩, 0, .pending, true⟩,
    ⟨1, 6, ⟨6⟩, ⟨5⟩, 0, .pending, true⟩]
  unique := by decide

/-- A mint, and a transfer of half of it in the next block. -/
def mintAndTransfer : CanonicalTransfers scanBlocks 1 ⟨7⟩ where
  jobs := [.ofBlock 5 ZERO_ADDRESS ⟨8⟩ 100, .ofBlock 6 ⟨8⟩ ⟨9⟩ 50]
  distinct := by decide
  about := by decide
  canonical := by decide

/-- Two mints, and a wallet that burns all it has in the last block. -/
def mintsAndBurn : CanonicalTransfers scanBlocks 1 ⟨7⟩ where
  jobs := [.ofBlock 4 ZERO_ADDRESS ⟨9⟩ 50, .ofBlock 5 ZERO_ADDRESS ⟨8⟩ 100,
    .ofBlock 6 ⟨8⟩ ZERO_ADDRESS 100]
  distinct := by decide
  about := by decide
  canonical := by decide

/-- Both jobs processed, the later one first, give an exact snapshot. -/
theorem snapshotExact_mintAndTransfer : mintAndTransfer.SnapshotExact
    [.ofBlock 6 ⟨8⟩ ⟨9⟩ 50, .ofBlock 5 ZERO_ADDRESS ⟨8⟩ 100] 6 := by
  have hmissing : mintAndTransfer.missing
      [.ofBlock 6 ⟨8⟩ ⟨9⟩ 50, .ofBlock 5 ZERO_ADDRESS ⟨8⟩ 100] 6 = [] := by decide
  have hearly : mintAndTransfer.early
      [.ofBlock 6 ⟨8⟩ ⟨9⟩ 50, .ofBlock 5 ZERO_ADDRESS ⟨8⟩ 100] 6 = [] := by decide
  have hholder : Holds 1 ⟨7⟩ (mintAndTransfer.upTo 6) ⟨9⟩ := by
    refine ⟨by decide, ?_⟩
    decide
  refine (CanonicalTransfers.snapshotExact_iff (by decide)).mpr {
    even := fun _ wallet _ => Or.inl (by rw [hmissing, hearly])
    last := fun _ _ t ht => ?_ }
  refine ⟨(TransferJob.ofBlock 6 ⟨8⟩ ⟨9⟩ 50).row scanBlocks, by decide, ?_, ⟨9⟩, hholder,
    Or.inr rfl⟩
  have hle : ∀ t ∈ mintAndTransfer.upTo 6, t.blockNumber ≤ 6 := by decide
  exact hle t ht

/-- **An available snapshot can be wrong**: with the mint's job still to
come, the sender's balance is below zero and not listed. -/
theorem not_snapshotExact : ¬∀ (blocks : Table BlockRow.key) (chainId : ℕ) (token : Address)
    (T : CanonicalTransfers blocks chainId token) (processed : List TransferJob) (block : ℕ),
    (∀ job ∈ processed, job ∈ T.jobs) → T.SnapshotExact processed block := by
  intro h
  have hexact := (h scanBlocks 1 ⟨7⟩ mintAndTransfer [.ofBlock 6 ⟨8⟩ ⟨9⟩ 50] 6 (by decide)).exact
    (by decide) ⟨8⟩ (by decide) 50
  have hholds : (50 : ℤ) = canonicalNet (mintAndTransfer.upTo 6) (1, ⟨7⟩, ⟨8⟩) ∧ (0 : ℤ) < 50 := by
    decide
  exact absurd (hexact.mpr hholds) (by decide)

/-- **A complete snapshot can be taken for a stale one**: the last
transfer moved no wallet that still holds something. -/
theorem not_available_mintsAndBurn :
    mintsAndBurn.Complete mintsAndBurn.jobs 6 ∧
      Holds 1 ⟨7⟩ (mintsAndBurn.upTo 6) ⟨9⟩ ∧
      ((processTokenTransfers scanBlocks mintsAndBurn.jobs).availability 1 ⟨7⟩ 6).status =
        .stale := by
  refine ⟨?_, ⟨by decide, by decide⟩, by decide⟩
  unfold CanonicalTransfers.Complete
  decide

end HoodSentry
