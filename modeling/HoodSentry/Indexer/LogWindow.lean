import HoodSentry.Indexer.Model.Backfill
/-!
# The cheap window and the full one

A window of blocks is fetched in one of two ways: block by block with the
receipts, by several workers, or as one call for the logs and one header
for each height. Where the provider serves one fork both find the same
headers and, block for block, the same logs.
-/

namespace HoodSentry

/-! ## A fork and a provider that serves it -/

/-- A block of a chain, with what it executed. -/
structure ChainBlock where
  header : Block
  transactions : List Transaction
  receipts : List TransactionReceipt
deriving DecidableEq

namespace ChainBlock

def logs (b : ChainBlock) : List Log := b.receipts.flatMap (·.logs)

/-- A block as it is mined at a height: a receipt for each transaction, and
its logs in the order of their indices. -/
structure MinedAt (blockNumber : ℕ) (b : ChainBlock) : Prop where
  number : b.header.number = some blockNumber
  hash : b.header.hash.isSome = true
  receipts : b.receipts.map (·.transactionHash) = b.transactions.map (·.hash)
  logNumbers : ∀ l ∈ b.logs, l.blockNumber = some blockNumber
  logOrder : (b.logs.map fun l => l.logIndex.getD 0).Pairwise (· < ·)

end ChainBlock

/-- **A fork**: the blocks mined at its heights. -/
structure Fork where
  blockAt : ℕ → Option ChainBlock
  mined : ∀ n b, blockAt n = some b → b.MinedAt n

/-- A log whose first topic is listed, or any log where none are. -/
def Log.Listed (topics : Option (List Hex)) (l : Log) : Prop :=
  ∀ ts ∈ topics, ∃ topic0 ∈ l.topics.head?, topic0 ∈ ts

/-- The order of logs: by block and log index. -/
def Log.Before (l l' : Log) : Prop :=
  l.blockNumber.getD 0 < l'.blockNumber.getD 0 ∨
    (l.blockNumber = l'.blockNumber ∧ l.logIndex.getD 0 < l'.logIndex.getD 0)

namespace Fork

variable (fork : Fork) (available : ℕ → Bool)

/-- What is served at a height: any block may be answered null. -/
def served (n : ℕ) : Option ChainBlock :=
  if available n then fork.blockAt n else none

/-- **A provider serves a fork.** The receipts of a block by one call are
its receipts wherever they are as many as its transactions; `getLogs`
answers the logs of the range with a listed topic, in their order. -/
structure ServedBy (rpc : RpcClient) : Prop where
  headers : ∀ n, (rpc.getBlock n false).map (·.map (·.header)) =
    some ((fork.served available n).map (·.header))
  blocks : ∀ n, rpc.getBlock n true =
    some ((fork.served available n).map fun b => ⟨b.header, b.transactions⟩)
  blockReceipts : ∀ n b hash receipts, fork.served available n = some b →
    b.header.hash = some hash → rpc.getBlockReceipts hash = some receipts →
    receipts.length = b.transactions.length → receipts = b.receipts
  transactionReceipts : ∀ n b, fork.served available n = some b → ∀ receipt ∈ b.receipts,
    rpc.getTransactionReceipt receipt.transactionHash = some (some receipt)
  logs : ∀ fromBlock toBlock topics, ∃ logs, rpc.getLogs fromBlock toBlock topics = some logs ∧
    logs.Pairwise Log.Before ∧
    ∀ l, l ∈ logs ↔ ∃ n b, fromBlock ≤ n ∧ n ≤ toBlock ∧ fork.blockAt n = some b ∧
      l ∈ b.logs ∧ l.Listed topics

end Fork

/-! ## One block -/

section Block

variable {fork : Fork} {available : ℕ → Bool} {rpc : RpcClient} {cfg : FetcherConfig}
variable {n : ℕ} {b : ChainBlock}

theorem Fork.served_eq_some (h : fork.served available n = some b) : fork.blockAt n = some b := by
  unfold Fork.served at h
  split at h
  · exact h
  · exact absurd h.symm (Option.some_ne_none _)

theorem isIndexableLog_iff {topics : List Hex} {l : Log} :
    isIndexableLog topics l = true ↔ l.Listed (some topics) := by
  unfold isIndexableLog Log.Listed
  cases l.topics.head? with
  | none => simp
  | some topic0 => simp

/-- The logs worth keeping are the listed ones. -/
theorem FetcherConfig.mem_retainIndexable {logs : List Log} {l : Log} :
    l ∈ cfg.retainIndexable logs ↔ l ∈ logs ∧ l.Listed cfg.topicFilter := by
  unfold retainIndexable
  cases cfg.topicFilter with
  | none => exact (and_iff_left fun ts hts => absurd hts (Option.not_mem_none ts)).symm
  | some topics =>
    dsimp only
    rw [List.mem_filter, isIndexableLog_iff]

theorem FetcherConfig.retainIndexable_sublist {logs : List Log} :
    (cfg.retainIndexable logs).Sublist logs := by
  unfold retainIndexable
  split
  · exact List.Sublist.refl logs
  · exact List.filter_sublist

@[simp] theorem FetcherConfig.retainIndexable_nil : cfg.retainIndexable [] = [] :=
  List.sublist_nil.mp cfg.retainIndexable_sublist

theorem mapM_eq_some_map {α β : Type} {f : α → Option β} {g : α → β} {l : List α}
    (h : ∀ a ∈ l, f a = some (g a)) : l.mapM f = some (l.map g) := by
  induction l with
  | nil => rfl
  | cons a l ih =>
    rw [List.mapM_cons, h a List.mem_cons_self, ih fun b hb => h b (List.mem_cons_of_mem _ hb)]
    rfl

/-- The receipts one by one are the block's. -/
theorem mapM_receipts (h : fork.ServedBy available rpc) (hb : fork.served available n = some b) :
    (b.transactions.mapM fun tx => (rpc.getTransactionReceipt tx.hash).join) = some b.receipts := by
  have hmined := fork.mined n b (Fork.served_eq_some hb)
  have hreceipts := h.transactionReceipts n b hb
  have hhashes : (b.transactions.mapM fun tx => (rpc.getTransactionReceipt tx.hash).join) =
      (b.transactions.map (·.hash)).mapM fun hash => (rpc.getTransactionReceipt hash).join := by
    rw [List.mapM_map]
    rfl
  rw [hhashes, ← hmined.receipts, List.mapM_map]
  have hjoined := mapM_eq_some_map (g := id) fun r hr => congrArg Option.join (hreceipts r hr)
  exact hjoined.trans (congrArg some (List.map_id _))

/-- **A block that is served is fetched**, with its listed logs. -/
theorem fetchBlockData_of_served (h : fork.ServedBy available rpc)
    (hb : fork.served available n = some b) :
    cfg.fetchBlockData rpc n =
      some (some ⟨b.header, b.transactions, b.receipts, cfg.retainIndexable b.logs⟩) := by
  have hmined := fork.mined n b (Fork.served_eq_some hb)
  have hlength : b.receipts.length = b.transactions.length := by
    have := congrArg List.length hmined.receipts
    rwa [List.length_map, List.length_map] at this
  have hone : cfg.fetchBlockBodiesPerTransaction rpc b.transactions =
      some (b.receipts, cfg.retainIndexable b.logs) := by
    rw [FetcherConfig.fetchBlockBodiesPerTransaction, mapM_receipts h hb]
    rfl
  have hbodies : cfg.fetchBlockBodies rpc ⟨b.header, b.transactions⟩ =
      some (b.receipts, cfg.retainIndexable b.logs) := by
    unfold FetcherConfig.fetchBlockBodies
    split
    · rename_i hnil
      -- no transaction, so no receipt and no log
      have hnone : b.receipts = [] := by
        rw [← List.length_eq_zero_iff, hlength]
        exact List.length_eq_zero_iff.mpr hnil
      rw [ChainBlock.logs, hnone, List.flatMap_nil, FetcherConfig.retainIndexable_nil]
    · split
      · rename_i receipts hreceipts
        obtain ⟨hash, hhash, hcall⟩ := Option.bind_eq_some_iff.mp hreceipts
        split
        · rename_i hcount
          rw [h.blockReceipts n b hash receipts hb hhash hcall hcount]
          rfl
        · exact hone
      · exact hone
  have hnumber : b.header.number.isSome = true := hmined.number ▸ rfl
  rw [FetcherConfig.fetchBlockData, h.blocks n, hb]
  simp only [Option.map_some, FetcherConfig.assertWellFormed, hnumber, hmined.hash, Bool.and_self,
    if_true, hbodies]
  rfl

theorem fetchBlockData_of_not_served (h : fork.ServedBy available rpc)
    (hb : fork.served available n = none) : cfg.fetchBlockData rpc n = some none := by
  rw [FetcherConfig.fetchBlockData, h.blocks n, hb]
  rfl

end Block

/-! ## The logs of a height -/

instance : Std.Asymm Log.Before where
  asymm l l' h h' := by
    unfold Log.Before at h h'
    rcases h with h | ⟨hn, h⟩ <;> rcases h' with h' | ⟨hn', h'⟩
    · omega
    · rw [hn'] at h
      omega
    · rw [hn] at h'
      omega
    · omega

section Window

variable {fork : Fork} {available : ℕ → Bool} {rpc : RpcClient} {cfg : FetcherConfig}
variable {fromBlock toBlock concurrency : ℕ}

theorem ChainBlock.MinedAt.logs_pairwise {n : ℕ} {b : ChainBlock} (h : b.MinedAt n) :
    b.logs.Pairwise Log.Before := by
  refine (List.pairwise_map.mp h.logOrder).imp_of_mem fun {l l'} hl hl' hlt => Or.inr ⟨?_, hlt⟩
  rw [h.logNumbers l hl, h.logNumbers l' hl']

/-- **The logs of a height** in the answer for a range are the listed logs
of its block: both are in their order, and there are no others. -/
theorem filter_logs_eq {logs : List Log} (hlogs : logs.Pairwise Log.Before)
    (hmem : ∀ l, l ∈ logs ↔ ∃ n b, fromBlock ≤ n ∧ n ≤ toBlock ∧ fork.blockAt n = some b ∧
      l ∈ b.logs ∧ l.Listed cfg.topicFilter) {n : ℕ} {b : ChainBlock}
    (hn : fromBlock ≤ n ∧ n ≤ toBlock) (hb : fork.blockAt n = some b) :
    (logs.filter fun l => l.blockNumber = some n) = cfg.retainIndexable b.logs := by
  have hmined := fork.mined n b hb
  refine List.Subset.antisymm_of_pairwise (hlogs.filter _)
    (hmined.logs_pairwise.sublist FetcherConfig.retainIndexable_sublist) ?_ ?_
  · intro l hl
    obtain ⟨hl, hnumber⟩ := List.mem_filter.mp hl
    obtain ⟨n', b', -, -, hb', hin, hlisted⟩ := (hmem l).mp hl
    have hnumber' := (fork.mined n' b' hb').logNumbers l hin
    obtain rfl : n' = n := Option.some.inj (hnumber'.symm.trans (of_decide_eq_true hnumber))
    obtain rfl : b' = b := Option.some.inj (hb'.symm.trans hb)
    exact FetcherConfig.mem_retainIndexable.mpr ⟨hin, hlisted⟩
  · intro l hl
    obtain ⟨hin, hlisted⟩ := FetcherConfig.mem_retainIndexable.mp hl
    refine List.mem_filter.mpr ⟨(hmem l).mpr ⟨n, b, hn.1, hn.2, hb, hin, hlisted⟩, ?_⟩
    exact decide_eq_true (hmined.logNumbers l hin)

/-! ## Whole windows -/

/-- A block with everything. -/
def FetcherConfig.fullBlock (cfg : FetcherConfig) (b : ChainBlock) : BlockData :=
  ⟨b.header, b.transactions, b.receipts, cfg.retainIndexable b.logs⟩

/-- A block with its logs only. -/
def FetcherConfig.cheapBlock (cfg : FetcherConfig) (b : ChainBlock) : BlockData :=
  ⟨b.header, [], [], cfg.retainIndexable b.logs⟩

/-- **The available heights of a range** up to the first that is not. -/
def Fork.availablePrefix (fork : Fork) (available : ℕ → Bool) (heights : List ℕ) :
    List ChainBlock :=
  (heights.takeWhile fun n => (fork.served available n).isSome).filterMap (fork.served available)

theorem Fork.availablePrefix_cons_some {n : ℕ} {heights : List ℕ} {b : ChainBlock}
    (h : fork.served available n = some b) :
    fork.availablePrefix available (n :: heights) = b :: fork.availablePrefix available heights := by
  rw [availablePrefix, List.takeWhile_cons, h, Option.isSome_some, if_pos rfl,
    List.filterMap_cons_some h]
  rfl

theorem Fork.availablePrefix_cons_none {n : ℕ} {heights : List ℕ}
    (h : fork.served available n = none) : fork.availablePrefix available (n :: heights) = [] := by
  rw [availablePrefix, List.takeWhile_cons, h]
  rfl

/-- The slots up to the first hole are the available heights'. -/
theorem untilHole_served (f : ChainBlock → BlockData) (heights : List ℕ) :
    untilHole (heights.map fun n => (fork.served available n).map f) =
      (fork.availablePrefix available heights).map f := by
  induction heights with
  | nil => rfl
  | cons n heights ih =>
    rw [List.map_cons]
    cases h : fork.served available n with
    | none =>
      rw [Fork.availablePrefix_cons_none h]
      rfl
    | some b =>
      rw [Fork.availablePrefix_cons_some h, List.map_cons, Option.map_some, untilHole, ih]

/-- **The log window finds the available heights.** -/
theorem logWindowBlocks_served (h : fork.ServedBy available rpc) {logs : List Log}
    {heights : List ℕ} (hlogs : ∀ n ∈ heights, ∀ b, fork.served available n = some b →
      (logs.filter fun l => l.blockNumber = some n) = cfg.retainIndexable b.logs) :
    ∃ headers, heights.mapM (rpc.getBlock · false) = some headers ∧
      FetcherConfig.logWindowBlocks logs (heights.zip headers) =
        some ((fork.availablePrefix available heights).map cfg.cheapBlock) := by
  induction heights with
  | nil => exact ⟨[], rfl, rfl⟩
  | cons n heights ih =>
    obtain ⟨headers, hheaders, hrest⟩ := ih fun m hm => hlogs m (List.mem_cons_of_mem _ hm)
    obtain ⟨header, hheader, hserved⟩ := Option.map_eq_some_iff.mp (h.headers n)
    refine ⟨header :: headers, ?_, ?_⟩
    · rw [List.mapM_cons, hheader, hheaders]
      rfl
    · rw [List.zip_cons_cons]
      cases hb : fork.served available n with
      | none =>
        rw [hb, Option.map_none, Option.map_eq_none_iff] at hserved
        rw [hserved, Fork.availablePrefix_cons_none hb]
        rfl
      | some b =>
        rw [hb, Option.map_some] at hserved
        obtain ⟨block, rfl, hblock⟩ := Option.map_eq_some_iff.mp hserved
        have hmined := fork.mined n b (Fork.served_eq_some hb)
        have hnumber : b.header.number.isSome = true := hmined.number ▸ rfl
        rw [FetcherConfig.logWindowBlocks, hrest, hlogs n List.mem_cons_self b hb,
          Fork.availablePrefix_cons_some hb, hblock]
        simp only [FetcherConfig.assertWellFormed, hnumber, hmined.hash, Bool.and_self, if_true]
        rfl

theorem mem_heights {n : ℕ} :
    n ∈ FetcherConfig.heights fromBlock toBlock ↔ fromBlock ≤ n ∧ n ≤ toBlock := by
  rw [FetcherConfig.heights, List.mem_range'_1]
  omega

/-- `fetchLogWindow` finds the available heights of its range. -/
theorem fetchLogWindow_served (h : fork.ServedBy available rpc) :
    cfg.fetchLogWindow rpc fromBlock toBlock = some ((fork.availablePrefix available
      (FetcherConfig.heights fromBlock toBlock)).map cfg.cheapBlock) := by
  obtain ⟨logs, hlogs, hordered, hmem⟩ := h.logs fromBlock toBlock cfg.topicFilter
  have hfiltered : ∀ n ∈ FetcherConfig.heights fromBlock toBlock, ∀ b,
      fork.served available n = some b →
      (logs.filter fun l => l.blockNumber = some n) = cfg.retainIndexable b.logs :=
    fun n hn b hb => filter_logs_eq hordered hmem (mem_heights.mp hn) (Fork.served_eq_some hb)
  obtain ⟨headers, hheaders, hblocks⟩ := logWindowBlocks_served h hfiltered
  rw [FetcherConfig.fetchLogWindow, hlogs, hheaders]
  exact hblocks

/-- **Every schedule of a full window** whose fetches all return ends after
one answer for each height, with the answers in their places. -/
theorem windowPool_answered {answered : ℕ → Option BlockData}
    (h : ∀ n ∈ FetcherConfig.heights fromBlock toBlock,
      cfg.fetchBlockData rpc n = some (answered n)) {is : List ℕ} {p : Pool BlockData}
    (he : (cfg.windowPool rpc fromBlock toBlock concurrency).exec
      (Pool.start (FetcherConfig.heights fromBlock toBlock).length
        (max 1 (min concurrency (FetcherConfig.heights fromBlock toBlock).length))) is = some p) :
    is.length ≤ (FetcherConfig.heights fromBlock toBlock).length ∧
      (¬p.Finished → ∃ i, (cfg.windowPool rpc fromBlock toBlock concurrency).step p i ≠ none) ∧
      (p.Finished → FetcherConfig.windowBlocks p =
        some (untilHole ((FetcherConfig.heights fromBlock toBlock).map answered))) := by
  let count := (FetcherConfig.heights fromBlock toBlock).length
  have hcount : count = toBlock + 1 - fromBlock := List.length_range'
  have hanswer : ∀ i < count,
      cfg.fetchBlockData rpc (fromBlock + i) = some (answered (fromBlock + i)) :=
    fun i hi => h _ (mem_heights.mpr (by omega))
  have hworkers : 0 < max 1 (min concurrency count) := Nat.lt_of_lt_of_le Nat.one_pos (le_max_left ..)
  obtain ⟨hholds, hleft⟩ := (Pool.holds_start (r := fun i => answered (fromBlock + i)) hworkers).exec
    hanswer he
  rw [Pool.remaining_start hworkers] at hleft
  refine ⟨by omega, fun hmore => hholds.enabled hanswer hmore, fun hfinished => ?_⟩
  have hslots : p.slots = (FetcherConfig.heights fromBlock toBlock).map answered := by
    rw [hholds.slots_eq hfinished, FetcherConfig.heights, List.range'_eq_map_range, List.map_map,
      ← hcount]
    rfl
  rw [FetcherConfig.windowBlocks, hholds.accepted, hslots]
  rfl

/-- Each height of a served fork is answered. -/
theorem fetchBlockData_served (h : fork.ServedBy available rpc) (n : ℕ) :
    cfg.fetchBlockData rpc n = some ((fork.served available n).map cfg.fullBlock) := by
  cases hb : fork.served available n with
  | none => exact fetchBlockData_of_not_served h hb
  | some b => exact fetchBlockData_of_served h hb

end Window

/-! ## The live loop's windows -/

section Live

variable {rpc : RpcClient} {cfg : FetcherConfig} {fromBlock toBlock concurrency : ℕ}
variable {serve : ℕ → Option BlockData}

/-- **The full window of the live loop** is the workers' in every
schedule, once the fetches are read. -/
theorem windowBlocks_eq_fetchBlockWindow
    (h : ∀ n ∈ FetcherConfig.heights fromBlock toBlock,
      cfg.fetchBlockData rpc n = some (serve n) ∧ fetchBlock serve n = some (serve n))
    {is : List ℕ} {p : Pool BlockData}
    (he : (cfg.windowPool rpc fromBlock toBlock concurrency).exec
      (Pool.start (FetcherConfig.heights fromBlock toBlock).length
        (max 1 (min concurrency (FetcherConfig.heights fromBlock toBlock).length))) is = some p)
    (hfinished : p.Finished) :
    FetcherConfig.windowBlocks p =
      fetchBlockWindow serve (FetcherConfig.heights fromBlock toBlock) := by
  rw [(windowPool_answered (fun n hn => (h n hn).1) he).2.2 hfinished, fetchBlockWindow,
    mapM_eq_some_map fun n hn => (h n hn).2]
  rfl

/-- **And its log window** is the fetcher's. -/
theorem fetchLogWindow_eq {logs : List Log}
    (hlogs : rpc.getLogs fromBlock toBlock cfg.topicFilter = some logs)
    (h : ∀ n, rpc.getBlock n false = some ((serve n).map fun b => ⟨b.block, []⟩)) :
    cfg.fetchLogWindow rpc fromBlock toBlock =
      fetchLogWindow serve logs (FetcherConfig.heights fromBlock toBlock) := by
  have hheaders : ∀ l : List ℕ, l.mapM (rpc.getBlock · false) =
      some (l.map fun n => (serve n).map fun b => ⟨b.block, []⟩) := fun l =>
    mapM_eq_some_map fun n _ => h n
  have hblocks : ∀ l : List ℕ, FetcherConfig.logWindowBlocks logs
      (l.zip (l.map fun n => (serve n).map fun b => ⟨b.block, []⟩)) =
        fetchLogWindow serve logs l := by
    intro l
    induction l with
    | nil => rfl
    | cons n l ih =>
      rw [List.map_cons, List.zip_cons_cons, fetchLogWindow, fetchBlock]
      cases serve n with
      | none => rfl
      | some b =>
        rw [Option.map_some, FetcherConfig.logWindowBlocks, ih, FetcherConfig.assertWellFormed]
        dsimp only
        split
        · rfl
        · rfl
  rw [FetcherConfig.fetchLogWindow, hlogs, hheaders]
  exact hblocks _

end Live

/-! ## The two windows -/

/-- **The cheap window agrees with the full one**: the same headers, those
of the available heights up to the first hole, and for each the same
logs. -/
structure WindowsAgree (cfg : FetcherConfig) (rpc : RpcClient) (fork : Fork)
    (available : ℕ → Bool) (fromBlock toBlock : ℕ) (full cheap : List BlockData) : Prop where
  headers : full.map (·.block) = cheap.map (·.block)
  logs : full.map (·.logs) = cheap.map (·.logs)
  longest : cheap.map (·.block) = (fork.availablePrefix available
    (FetcherConfig.heights fromBlock toBlock)).map (·.header)

/-- **The windows agree in every schedule.** The log window returns, every
run of the full window's workers is bounded and can go on until they are
done, and what they then return has the log window's headers and logs. -/
theorem windows_agree (cfg : FetcherConfig) {rpc : RpcClient} {fork : Fork} {available : ℕ → Bool}
    (h : fork.ServedBy available rpc) (fromBlock toBlock concurrency : ℕ) :
    let count := (FetcherConfig.heights fromBlock toBlock).length
    let workers := max 1 (min concurrency count)
    ∃ cheap, cfg.fetchLogWindow rpc fromBlock toBlock = some cheap ∧
      ∀ is p, (cfg.windowPool rpc fromBlock toBlock concurrency).exec (Pool.start count workers) is
          = some p →
        is.length ≤ count ∧
        (¬p.Finished → ∃ i, (cfg.windowPool rpc fromBlock toBlock concurrency).step p i ≠ none) ∧
        (p.Finished → ∃ full, FetcherConfig.windowBlocks p = some full ∧
          WindowsAgree cfg rpc fork available fromBlock toBlock full cheap) := by
  refine ⟨_, fetchLogWindow_served h, fun is p he => ?_⟩
  obtain ⟨hbound, hmore, hdone⟩ :=
    windowPool_answered (fun n _ => fetchBlockData_served h n) he
  refine ⟨hbound, hmore, fun hfinished => ⟨_, hdone hfinished, ?_, ?_, ?_⟩⟩
  · rw [untilHole_served, List.map_map, List.map_map]
    rfl
  · rw [untilHole_served, List.map_map, List.map_map]
    rfl
  · rw [List.map_map]
    rfl

/-! ## A sample window -/

/-- Two logs of one transaction, the first with a topic. -/
def sampleLogs : List Log :=
  [⟨some ⟨1⟩, some 0, some 0, some 7, ⟨5⟩, [⟨64, 9⟩], ⟨0, 0⟩, false⟩,
    ⟨some ⟨1⟩, some 0, some 1, some 7, ⟨5⟩, [], ⟨0, 0⟩, false⟩]

/-- A block with the transaction that raised them. -/
def sampleChainBlock : ChainBlock where
  header := ⟨some 7, some ⟨70⟩, ⟨60⟩, 0⟩
  transactions := [⟨⟨1⟩, some 0, ⟨2⟩, some ⟨5⟩, 0, 0, ⟨0, 0⟩, none, none⟩]
  receipts := [⟨⟨1⟩, true, 21000, 1, 21000, none, sampleLogs⟩]

/-- The fork of that one block. -/
def sampleFork : Fork where
  blockAt n := if n = 7 then some sampleChainBlock else none
  mined n b h := by
    obtain ⟨rfl, h⟩ := Option.ite_none_right_eq_some.mp h
    obtain rfl := Option.some.inj h
    exact ⟨rfl, rfl, rfl, by decide, by decide⟩

/-- A provider of it without `eth_getBlockReceipts`. -/
def sampleRpc : RpcClient where
  getBlock n includeTransactions := some (if n = 7 then
    some ⟨sampleChainBlock.header,
      if includeTransactions then sampleChainBlock.transactions else []⟩ else none)
  getBlockReceipts _ := none
  getTransactionReceipt hash := some (sampleChainBlock.receipts.find? fun receipt =>
    receipt.transactionHash = hash)
  getLogs fromBlock toBlock topics := some (if fromBlock ≤ 7 ∧ 7 ≤ toBlock then
    match topics with
    | none => sampleLogs
    | some topics => sampleLogs.filter (isIndexableLog topics) else [])

theorem servedBy_sampleRpc : sampleFork.ServedBy (fun _ => true) sampleRpc where
  headers n := by
    by_cases hn : n = 7 <;> simp [sampleRpc, sampleFork, Fork.served, hn]
  blocks n := by
    by_cases hn : n = 7 <;> simp [sampleRpc, sampleFork, Fork.served, hn]
  blockReceipts _ _ _ _ _ _ h := absurd h.symm (Option.some_ne_none _)
  transactionReceipts n b hb := by
    obtain ⟨-, hb⟩ := Option.ite_none_right_eq_some.mp (Fork.served_eq_some hb)
    obtain rfl := Option.some.inj hb
    decide
  logs fromBlock toBlock topics := by
    have hordered : sampleLogs.Pairwise Log.Before :=
      ChainBlock.MinedAt.logs_pairwise (sampleFork.mined 7 sampleChainBlock rfl)
    have hblock : ∀ n b, sampleFork.blockAt n = some b ↔ n = 7 ∧ sampleChainBlock = b := by
      intro n b
      exact Option.ite_none_right_eq_some.trans (and_congr_right fun _ => Option.some_inj)
    refine ⟨_, rfl, ?_, fun l => ?_⟩
    · split
      · cases topics with
        | none => exact hordered
        | some topics => exact hordered.filter _
      · exact List.Pairwise.nil
    · have hlisted : (l ∈ match topics with
          | none => sampleLogs
          | some topics => sampleLogs.filter (isIndexableLog topics)) ↔
          l ∈ sampleLogs ∧ l.Listed topics := by
        cases topics with
        | none => exact (and_iff_left fun ts hts => absurd hts (Option.not_mem_none ts)).symm
        | some topics =>
          dsimp only
          rw [List.mem_filter, isIndexableLog_iff]
      simp only [hblock]
      constructor
      · intro hl
        split at hl
        · rename_i hrange
          obtain ⟨hin, htopic⟩ := hlisted.mp hl
          exact ⟨7, sampleChainBlock, hrange.1, hrange.2, ⟨rfl, rfl⟩, hin, htopic⟩
        · exact absurd hl List.not_mem_nil
      · rintro ⟨n, b, hfrom, hto, ⟨rfl, rfl⟩, hin, htopic⟩
        rw [if_pos ⟨hfrom, hto⟩]
        exact hlisted.mpr ⟨hin, htopic⟩

/-- The windows of the sample agree. -/
theorem windows_agree_sample :
    ∃ cheap, FetcherConfig.fetchLogWindow ⟨some [⟨64, 9⟩]⟩ sampleRpc 7 8 = some cheap ∧
      ∀ is p, (FetcherConfig.windowPool ⟨some [⟨64, 9⟩]⟩ sampleRpc 7 8 5).exec (Pool.start 2 2) is
          = some p →
        is.length ≤ 2 ∧
        (¬p.Finished →
          ∃ i, (FetcherConfig.windowPool ⟨some [⟨64, 9⟩]⟩ sampleRpc 7 8 5).step p i ≠ none) ∧
        (p.Finished → ∃ full, FetcherConfig.windowBlocks p = some full ∧
          WindowsAgree ⟨some [⟨64, 9⟩]⟩ sampleRpc sampleFork (fun _ => true) 7 8 full cheap) :=
  windows_agree ⟨some [⟨64, 9⟩]⟩ servedBy_sampleRpc 7 8 5

def sampleAnswer (n : ℕ) : Option BlockData :=
  (sampleFork.served (fun _ => true) n).map (FetcherConfig.fullBlock ⟨some [⟨64, 9⟩]⟩)

/-- Two workers, the second answered first. -/
theorem windowBlocks_eq_fetchBlockWindow_sample : ∃ p,
    (FetcherConfig.windowPool ⟨some [⟨64, 9⟩]⟩ sampleRpc 7 8 5).exec (Pool.start 2 2) [1, 0] =
        some p ∧
      FetcherConfig.windowBlocks p =
        fetchBlockWindow sampleAnswer (FetcherConfig.heights 7 8) := by
  have hread : ∀ n ∈ FetcherConfig.heights 7 8,
      FetcherConfig.fetchBlockData ⟨some [⟨64, 9⟩]⟩ sampleRpc n = some (sampleAnswer n) ∧
        fetchBlock sampleAnswer n = some (sampleAnswer n) := by
    intro n hn
    refine ⟨fetchBlockData_served servedBy_sampleRpc n, ?_⟩
    revert n
    decide
  have hexec : (FetcherConfig.windowPool ⟨some [⟨64, 9⟩]⟩ sampleRpc 7 8 5).exec
      (Pool.start (FetcherConfig.heights 7 8).length
        (max 1 (min 5 (FetcherConfig.heights 7 8).length))) [1, 0] = some _ := rfl
  exact ⟨_, hexec, windowBlocks_eq_fetchBlockWindow hread hexec (by unfold Pool.Finished; decide)⟩

/-- One log of the block is kept, and the height after it is a hole. -/
example : (FetcherConfig.fetchLogWindow ⟨some [⟨64, 9⟩]⟩ sampleRpc 7 8).map
    (·.map fun b => b.logs.length) = some [1] := by decide

end HoodSentry
