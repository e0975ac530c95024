import HoodSentry.Indexer.Helpers.Pass
/-!
# The facts of the accepted blocks

After each pass of the tail path that advances, every block accepted so
far that the provider still serves is stored as the one canonical row at
its height, with its transactions, receipts and logs. The inserts skip
rows whose key is taken and nothing makes a row canonical again, so a run
keeps this while what it accepts is `Fresh`.
-/

namespace HoodSentry

variable {cfg : IndexerConfig} {db db' : Db} {l l' : Locals} {a : Answers} {b b' : BlockData}

/-- **The facts of a block are stored**: it is the one canonical row at
its height, and its transactions, receipts and logs carry its hash. -/
structure StoredFacts (cfg : IndexerConfig) (db : Db) (b : BlockData) : Prop where
  block : ∃ r, db.CanonicalBlock cfg r ∧ r.IsOf cfg b ∧
    ∀ r', db.CanonicalBlock cfg r' → r'.number = r.number → r' = r
  transactions : ∀ t ∈ b.transactions, ∃ r ∈ db.transactions,
    b.Stamps cfg r.chainId r.blockNumber r.blockHash ∧ r.hash = t.hash ∧ r.canonical = true
  receipts : ∀ x ∈ b.receipts, ∃ r ∈ db.transactionReceipts,
    b.Stamps cfg r.chainId r.blockNumber r.blockHash ∧ r.transactionHash = x.transactionHash
  logs : ∀ x ∈ b.logs, ∃ r ∈ db.logs,
    b.Stamps cfg r.chainId r.blockNumber r.blockHash ∧ x.transactionHash = some r.transactionHash ∧
      x.logIndex = some r.logIndex ∧ r.canonical = true

/-- **Every accepted block the provider serves has its facts stored.** -/
def AcceptedFactsStored (cfg : IndexerConfig) (a : Answers) (w : World) : Prop :=
  ∀ b ∈ w.indexed, (∃ n, b.block.number = some n ∧ a.serve n = some b) → StoredFacts cfg w.db b

/-- A step of the live tail path: every pass runs to its end, there is no
backlog, and a block served is of the height asked for. -/
def TailStep (cfg : IndexerConfig) (w : World) : Label → Prop
  | .start => True
  | .pass a cut => cut = .completes ∧ (∀ l, w.locals = some l → ¬Backlog cfg l a) ∧
    ∀ n b, a.serve n = some b → b.block.number = some n
  | _ => False

/-- **A block is fresh**: no row is stored under the key of one of its
transactions, receipts or logs, and the provider serves no block that was
abandoned. -/
structure Fresh (cfg : IndexerConfig) (db : Db) (a : Answers) (b : BlockData) : Prop where
  transactions : ∀ t ∈ b.transactions, (cfg.chainId, t.hash) ∉ db.transactions.keys
  receipts : ∀ x ∈ b.receipts, (cfg.chainId, x.transactionHash) ∉ db.transactionReceipts.keys
  logs : ∀ r ∈ db.logs, r.chainId = cfg.chainId → b.block.hash ≠ some r.blockHash
  kept : b.logs ≠ [] → cfg.persistRawLogs = true
  abandoned : ∀ r ∈ db.blocks, r.chainId = cfg.chainId → r.canonical = false →
    ∀ c, a.serve r.number = some c → c.block.hash ≠ some r.hash

/-- **The condition on a step**: a block accepted is fresh. -/
def FreshStep (cfg : IndexerConfig) (w : World) (i : Label) : Prop :=
  TailStep cfg w i ∧ ∀ a cut, i = .pass a cut → ∀ l, w.locals = some l →
    ∀ b f, decidePass cfg w.db l a = .tail b f → Fresh cfg w.db a b

/-! ## Storing a fresh block -/

/-- **Persisting a fresh block stores its facts**, when no canonical row
stands at its height. -/
theorem storedFacts_of_fresh {f : FinalityState} {number : ℕ} {hash : Hash}
    (hn : b.block.number = some number) (hh : b.block.hash = some hash)
    (hfresh : Fresh cfg db a b) (hserve : a.serve number = some b)
    (hfree : ∀ r, db.CanonicalBlock cfg r → r.number ≠ number)
    (h : persistBlockData cfg db b f true = some db') : StoredFacts cfg db' b := by
  obtain ⟨rows, hrows, rfl⟩ := (persistBlockData_eq_some hn hh).mp h
  obtain ⟨block, transactions, logs, hblock, htransactions, hlogs, rfl⟩ :=
    buildFactRows_eq_some.mp hrows
  obtain ⟨hof, hcan⟩ := isOf_of_buildBlockRow hblock
  have hnumber : block.number = number := Option.some.inj (hof.1.2.1.symm.trans hn)
  have hkey : block.key ∉ db.blocks.keys := fun hmem => by
    obtain ⟨r, hr, hk⟩ := Table.mem_keys.mp hmem
    obtain ⟨hc, hnum, hhash⟩ : r.chainId = block.chainId ∧ r.number = block.number ∧
        r.hash = block.hash := by simpa [BlockRow.key] using hk
    cases hrc : r.canonical with
    | true => exact hfree r ⟨⟨hr, hrc⟩, hc.trans hof.1.1⟩ (hnum.trans hnumber)
    | false =>
      refine hfresh.abandoned r hr (hc.trans hof.1.1) hrc b ?_ (hhash ▸ hof.1.2.2)
      rw [hnum, hnumber, hserve]
  refine ⟨⟨block, ⟨⟨?_, hcan⟩, hof.1.1⟩, hof, fun r' hr' hr'n => ?_⟩, fun t ht => ?_,
    fun x hx => ?_, fun x hx => ?_⟩
  · exact Table.mem_insertNew.mpr (Or.inr ⟨rfl, hkey⟩)
  · rcases Table.mem_insertNew.mp hr'.1.1 with hold | ⟨rfl, -⟩
    · exact absurd (hr'n.trans hnumber) (hfree r' ⟨⟨hold, hr'.1.2⟩, hr'.2⟩)
    · rfl
  · obtain ⟨r, hr, hbuild⟩ := exists_of_mapM_eq_some htransactions ht
    obtain ⟨hc, hhash, -, -, -⟩ := fields_of_buildTransactionRow hbuild
    have hnew : r.key ∉ db.transactions.keys := by
      rw [TransactionRow.key, hc, hhash]
      exact hfresh.transactions t ht
    obtain ⟨r', hr', hmem, hk⟩ := Table.exists_mem_insertAll hr hnew
    obtain ⟨t', -, hbuild'⟩ := (mem_of_mapM_eq_some htransactions).mp hmem
    obtain ⟨hc', -, hn', hh', hcan'⟩ := fields_of_buildTransactionRow hbuild'
    exact ⟨r', hr', ⟨hc', hn' ▸ hn, hh' ▸ hh⟩, (Prod.ext_iff.mp hk).2.trans hhash, hcan'⟩
  · have hnew : (buildReceiptRow cfg x number hash).key ∉ db.transactionReceipts.keys :=
      hfresh.receipts x hx
    obtain ⟨r', hr', hmem, hk⟩ := Table.exists_mem_insertAll
      (List.mem_map_of_mem (f := fun r => buildReceiptRow cfg r number hash) hx) hnew
    obtain ⟨x', -, rfl⟩ := List.mem_map.mp hmem
    exact ⟨_, hr', ⟨rfl, hn, hh⟩, (Prod.ext_iff.mp hk).2⟩
  · rw [buildLogRows, if_pos (hfresh.kept (List.ne_nil_of_mem hx))] at hlogs
    obtain ⟨r, hr, hbuild⟩ := exists_of_mapM_eq_some hlogs hx
    obtain ⟨hc, htx, hix, -, hbh, -⟩ := fields_of_buildLogRow hbuild
    have hnew : r.key ∉ db.logs.keys := fun hmem => by
      obtain ⟨r', hr', hk⟩ := Table.mem_keys.mp hmem
      obtain ⟨hc', -, -, hbh'⟩ : r'.chainId = r.chainId ∧ r'.transactionHash = r.transactionHash ∧
          r'.logIndex = r.logIndex ∧ r'.blockHash = r.blockHash := by
        simpa [LogRow.key] using hk
      exact hfresh.logs r' hr' (hc'.trans hc) (by rw [hbh', hbh, hh])
    obtain ⟨r', hr', hmem, hk⟩ := Table.exists_mem_insertAll hr hnew
    obtain ⟨x', -, hbuild'⟩ := (mem_of_mapM_eq_some hlogs).mp hmem
    obtain ⟨hc', -, -, hn', hh', hcan'⟩ := fields_of_buildLogRow hbuild'
    obtain ⟨-, htx', hix', -⟩ : r'.chainId = r.chainId ∧ r'.transactionHash = r.transactionHash ∧
        r'.logIndex = r.logIndex ∧ r'.blockHash = r.blockHash := by
      simpa [LogRow.key] using hk
    exact ⟨r', hr', ⟨hc', hn' ▸ hn, hh' ▸ hh⟩, htx' ▸ htx, hix' ▸ hix, hcan'⟩

/-- What is stored survives persisting a block at another height. -/
theorem StoredFacts.persist {f : FinalityState} {number : ℕ} {hash : Hash}
    (hs : StoredFacts cfg db b') (hn : b.block.number = some number)
    (hh : b.block.hash = some hash) (hne : b'.block.number ≠ some number)
    (h : persistBlockData cfg db b f true = some db') : StoredFacts cfg db' b' := by
  obtain ⟨rows, hrows, rfl⟩ := (persistBlockData_eq_some hn hh).mp h
  obtain ⟨block, transactions, logs, hblock, -, -, rfl⟩ := buildFactRows_eq_some.mp hrows
  obtain ⟨hof, -⟩ := isOf_of_buildBlockRow hblock
  obtain ⟨r, hr, hrof, huniq⟩ := hs.block
  refine ⟨⟨r, ⟨⟨Table.mem_insertAll_of_mem hr.1.1, hr.1.2⟩, hr.2⟩, hrof, fun r' hr' hr'n => ?_⟩,
    fun t ht => ?_, fun x hx => ?_, fun x hx => ?_⟩
  · rcases Table.mem_insertNew.mp hr'.1.1 with hold | ⟨rfl, -⟩
    · exact huniq r' ⟨⟨hold, hr'.1.2⟩, hr'.2⟩ hr'n
    · have : b'.block.number = some number := by
        rw [hrof.1.2.1, ← hr'n, ← hof.1.2.1, hn]
      exact absurd this hne
  · obtain ⟨r, hr, hrest⟩ := hs.transactions t ht
    exact ⟨r, Table.mem_insertAll_of_mem hr, hrest⟩
  · obtain ⟨r, hr, hrest⟩ := hs.receipts x hx
    exact ⟨r, Table.mem_insertAll_of_mem hr, hrest⟩
  · obtain ⟨r, hr, hrest⟩ := hs.logs x hx
    exact ⟨r, Table.mem_insertAll_of_mem hr, hrest⟩

/-! ## A reorg -/

/-- A statement of a reorg leaves the facts of blocks outside its range. -/
theorem StoredFacts.apply {s : ReorgStatement} {fromBlock toBlock : ℕ}
    (hs : StoredFacts cfg db b)
    (hout : ∀ n, b.block.number = some n → ¬(fromBlock ≤ n ∧ n ≤ toBlock)) :
    StoredFacts cfg (s.apply cfg fromBlock toBlock db) b := by
  have hmiss : ∀ {chainId number hash}, b.Stamps cfg chainId number hash →
      ∀ c, (inRange cfg fromBlock toBlock chainId number && c) = false := fun hst c => by
    rw [Bool.and_eq_false_iff, Bool.eq_false_iff, ne_eq, inRange_eq_true]
    exact Or.inl fun h => hout _ hst.2.1 h.2
  obtain ⟨r, hr, hrof, huniq⟩ := hs.block
  have hblock : ∃ r, (s.apply cfg fromBlock toBlock db).CanonicalBlock cfg r ∧ r.IsOf cfg b ∧
      ∀ r', (s.apply cfg fromBlock toBlock db).CanonicalBlock cfg r' → r'.number = r.number →
        r' = r :=
    ⟨r, canonicalBlock_apply.mpr ⟨hr, fun _ => hout _ hrof.1.2.1⟩, hrof,
      fun r' hr' => huniq r' (canonicalBlock_apply.mp hr').1⟩
  cases s with
  | markTransactionsOrphaned =>
    refine ⟨hblock, fun t ht => ?_, hs.receipts, hs.logs⟩
    obtain ⟨r, hr, hst, hrest⟩ := hs.transactions t ht
    exact ⟨r, Table.mem_updateWhere_of_not hr (hmiss hst _), hst, hrest⟩
  | markLogsOrphaned =>
    refine ⟨hblock, hs.transactions, hs.receipts, fun x hx => ?_⟩
    obtain ⟨r, hr, hst, hrest⟩ := hs.logs x hx
    exact ⟨r, Table.mem_updateWhere_of_not hr (hmiss hst _), hst, hrest⟩
  | _ => exact ⟨hblock, hs.transactions, hs.receipts, hs.logs⟩

/-- A block row keeps its place under every statement. -/
theorem exists_isOf_apply {s : ReorgStatement} {fromBlock toBlock : ℕ}
    (h : ∃ r ∈ db.blocks, r.IsOf cfg b) :
    ∃ r ∈ (s.apply cfg fromBlock toBlock db).blocks, r.IsOf cfg b := by
  obtain ⟨r, hr, hof⟩ := h
  cases s with
  | markBlocksOrphaned =>
    refine ⟨_, Table.ite_mem_updateWhere hr, ?_⟩
    split
    · exact hof
    · exact hof
  | _ => exact ⟨r, hr, hof⟩

/-! ## The invariant -/

variable {ix : Indexer} {w w' : World} {e : DetectedReorg}

/-- **The invariant.** Canonical rows lie below the running loop, every
block indexed has a row, and while it is canonical its facts are
stored. -/
structure FactsWorld (cfg : IndexerConfig) (w : World) : Prop where
  below : ∀ r, w.db.CanonicalBlock cfg r → ∃ l, w.locals = some l ∧ r.number < l.currentBlock
  row : ∀ b ∈ w.indexed, ∃ r ∈ w.db.blocks, r.IsOf cfg b
  stored : ∀ b ∈ w.indexed, ∀ r, w.db.CanonicalBlock cfg r → r.IsOf cfg b →
    StoredFacts cfg w.db b

/-- A block of a reached state that the provider serves is stored, when
nothing the provider serves was abandoned. -/
theorem FactsWorld.storedFacts (hw : FactsWorld cfg w) (hfresh : Fresh cfg w.db a b')
    (hb : b ∈ w.indexed) {n : ℕ} (hn : b.block.number = some n) (hserve : a.serve n = some b) :
    StoredFacts cfg w.db b := by
  obtain ⟨r, hr, hof⟩ := hw.row b hb
  have hnumber : r.number = n := Option.some.inj (hof.1.2.1.symm.trans hn)
  cases hcan : r.canonical with
  | true => exact hw.stored b hb r ⟨⟨hr, hcan⟩, hof.1.1⟩ hof
  | false => exact absurd hof.1.2.2 (hfresh.abandoned r hr hof.1.1 hcan b (hnumber ▸ hserve))

/-- **Accepting a fresh block** keeps the invariant, and every accepted
block still served has its facts stored. -/
theorem factsWorld_tail {f : FinalityState} (hw : FactsWorld ix.config w)
    (hl : w.locals = some l) (hnum : ∀ n b, a.serve n = some b → b.block.number = some n)
    (hd : decidePass ix.config w.db l a = .tail b f) (hfresh : Fresh ix.config w.db a b)
    (hlocals : w'.locals = some ⟨l.currentBlock + 1, b.block.hash⟩)
    (hindexed : w'.indexed = b :: w.indexed)
    (hdb : ∃ db', persistBlockData ix.config w.db b f true = some db' ∧
      w'.db = { db' with checkpoint := some ⟨l.currentBlock + 1, b.block.hash⟩ }) :
    FactsWorld ix.config w' ∧ AcceptedFactsStored ix.config a w' := by
  obtain ⟨db', hpersist, hdb⟩ := hdb
  obtain ⟨hserve, -, hsome⟩ := decidePass_tail hd
  have hn := hnum _ _ hserve
  obtain ⟨hash, hh⟩ := Option.isSome_iff_exists.mp hsome
  have hbelow : ∀ r, w.db.CanonicalBlock ix.config r → r.number < l.currentBlock := fun r hr => by
    obtain ⟨l', hl', hlt⟩ := hw.below r hr
    obtain rfl := Option.some.inj (hl.symm.trans hl')
    exact hlt
  have hnew : StoredFacts ix.config w'.db b := by
    have hs := storedFacts_of_fresh hn hh hfresh hserve
      (fun r hr => Nat.ne_of_lt (hbelow r hr)) hpersist
    rw [hdb]
    exact ⟨hs.block, hs.transactions, hs.receipts, hs.logs⟩
  have hold : ∀ c, StoredFacts ix.config w.db c → StoredFacts ix.config w'.db c := fun c hc => by
    obtain ⟨r, hr, hof, -⟩ := hc.block
    have hs := hc.persist hn hh (fun hcn => by
      have := hbelow r hr
      rw [hof.1.2.1, Option.some.injEq] at hcn
      omega) hpersist
    rw [hdb]
    exact ⟨hs.block, hs.transactions, hs.receipts, hs.logs⟩
  obtain ⟨rows, hrows, hins⟩ := (persistBlockData_eq_some hn hh).mp hpersist
  have hblocks : ∀ r, r ∈ w.db.blocks → r ∈ w'.db.blocks := fun r hr => by
    rw [hdb, hins]
    exact Table.mem_insertAll_of_mem hr
  have hcases : ∀ r, w'.db.CanonicalBlock ix.config r →
      w.db.CanonicalBlock ix.config r ∨ (r.IsOf ix.config b ∧ r.key ∉ w.db.blocks.keys) := by
    intro r hr
    obtain ⟨block, _, _, hblock, -, -, rfl⟩ := buildFactRows_eq_some.mp hrows
    rw [hdb, hins] at hr
    rcases Table.mem_insertNew.mp hr.1.1 with hold | ⟨rfl, hk⟩
    · exact Or.inl ⟨⟨hold, hr.1.2⟩, hr.2⟩
    · exact Or.inr ⟨(isOf_of_buildBlockRow hblock).1, hk⟩
  refine ⟨⟨fun r hr => ⟨_, hlocals, ?_⟩, fun c hc => ?_, fun c hc r hr hof => ?_⟩,
    fun c hc hc' => ?_⟩
  · rcases hcases r hr with hr | ⟨hof, -⟩
    · exact Nat.lt_succ_of_lt (hbelow r hr)
    · exact Nat.lt_succ_of_le (Nat.le_of_eq (Option.some.inj (hof.1.2.1.symm.trans hn)))
  · rw [hindexed] at hc
    rcases List.mem_cons.mp hc with rfl | hc
    · obtain ⟨r, hr, hof, -⟩ := hnew.block
      exact ⟨r, hr.1.1, hof⟩
    · obtain ⟨r, hr, hof⟩ := hw.row c hc
      exact ⟨r, hblocks r hr, hof⟩
  · rw [hindexed] at hc
    rcases List.mem_cons.mp hc with rfl | hc
    · exact hnew
    · rcases hcases r hr with hr | ⟨-, hk⟩
      · exact hold c (hw.stored c hc r hr hof)
      · -- the row of `c` already stands under this key
        obtain ⟨r', hr', hof'⟩ := hw.row c hc
        have hkey : r'.key = r.key := by
          have h₁ := Option.some.inj (hof'.1.2.1.symm.trans hof.1.2.1)
          have h₂ := Option.some.inj (hof'.1.2.2.symm.trans hof.1.2.2)
          rw [BlockRow.key, BlockRow.key, hof'.1.1, hof.1.1, h₁, h₂]
        exact absurd (hkey ▸ Table.key_mem_keys hr') hk
  · obtain ⟨n, hcn, hcs⟩ := hc'
    rw [hindexed] at hc
    rcases List.mem_cons.mp hc with rfl | hc
    · exact hnew
    · exact hold c (hw.storedFacts hfresh hc hcn hcs)

/-- What the effects of a reorg leave of a state: no new canonical rows,
every block row in its place, and the facts outside the range. -/
structure MarkedFrom (cfg : IndexerConfig) (fromBlock toBlock : ℕ) (w w' : World) : Prop where
  indexed : w'.indexed = w.indexed
  canonical : ∀ r, w'.db.CanonicalBlock cfg r → w.db.CanonicalBlock cfg r
  row : ∀ b : BlockData, (∃ r ∈ w.db.blocks, r.IsOf cfg b) → ∃ r ∈ w'.db.blocks, r.IsOf cfg b
  stored : ∀ b : BlockData, (∀ n, b.block.number = some n → ¬(fromBlock ≤ n ∧ n ≤ toBlock)) →
    StoredFacts cfg w.db b → StoredFacts cfg w'.db b

theorem MarkedFrom.refl {fromBlock toBlock : ℕ} : MarkedFrom cfg fromBlock toBlock w w :=
  ⟨rfl, fun _ h => h, fun _ h => h, fun _ _ h => h⟩

theorem MarkedFrom.trans {fromBlock toBlock : ℕ} {w'' : World}
    (h : MarkedFrom cfg fromBlock toBlock w w') (h' : MarkedFrom cfg fromBlock toBlock w' w'') :
    MarkedFrom cfg fromBlock toBlock w w'' where
  indexed := h'.indexed.trans h.indexed
  canonical r hr := h.canonical r (h'.canonical r hr)
  row b hb := h'.row b (h.row b hb)
  stored b hb hs := h'.stored b hb (h.stored b hb hs)

/-- Effects that only record, mark and resolve. -/
def Effect.Marks (fromBlock toBlock : ℕ) : Effect → Prop
  | .recordReorgEvent _ | .resolveReorgEvent _ => True
  | .markOrphaned _ f t => f = fromBlock ∧ t = toBlock
  | _ => False

theorem markedFrom_perform {fromBlock toBlock : ℕ} {eff : Effect}
    (he : eff.Marks fromBlock toBlock) (h : ix.perform w eff = some w') :
    MarkedFrom ix.config fromBlock toBlock w w' := by
  cases eff with
  | markOrphaned s f t =>
    obtain ⟨rfl, rfl⟩ := he
    obtain rfl := Option.some.inj h
    exact ⟨rfl, fun r hr => (canonicalBlock_apply.mp hr).1, fun b hb => exists_isOf_apply hb,
      fun b hout hs => hs.apply hout⟩
  | recordReorgEvent r =>
    obtain rfl := Option.some.inj h
    exact ⟨rfl, fun _ hr => hr, fun _ hb => hb,
      fun _ _ hs => ⟨hs.block, hs.transactions, hs.receipts, hs.logs⟩⟩
  | resolveReorgEvent id =>
    obtain rfl := Option.some.inj h
    exact ⟨rfl, fun _ hr => hr, fun _ hb => hb,
      fun _ _ hs => ⟨hs.block, hs.transactions, hs.receipts, hs.logs⟩⟩
  | _ => exact absurd he id

theorem markedFrom_performAll {fromBlock toBlock : ℕ} {es : List Effect}
    (he : ∀ eff ∈ es, eff.Marks fromBlock toBlock) :
    MarkedFrom ix.config fromBlock toBlock w (ix.performAll w es).1 :=
  Indexer.performAll_induction (P := MarkedFrom ix.config fromBlock toBlock w)
    (fun eff hmem _ _ hu hp => hu.trans (markedFrom_perform (he eff hmem) hp)) .refl

/-- **A reorg handled to its end** leaves nothing canonical in its
range. -/
theorem performAll_reorg :
    MarkedFrom ix.config e.fromBlock e.toBlock w
        (ix.performAll w (ix.effects db l a (.reorg e))).1 ∧
      ∀ r, (ix.performAll w (ix.effects db l a (.reorg e))).1.db.CanonicalBlock ix.config r →
        ¬(e.fromBlock ≤ r.number ∧ r.number ≤ e.toBlock) := by
  have hmarks : ∀ eff ∈ ix.effects db l a (.reorg e), eff.Marks e.fromBlock e.toBlock := by
    intro eff heff
    simp only [Indexer.effects, List.cons_append, List.mem_cons, List.mem_append, List.mem_map,
      List.not_mem_nil, or_false] at heff
    rcases heff with rfl | ⟨s, -, rfl⟩ | rfl
    · trivial
    · exact ⟨rfl, rfl⟩
    · trivial
  refine ⟨markedFrom_performAll hmarks, fun r hr => ?_⟩
  -- the blocks are marked right after the record, and what follows only marks
  obtain ⟨rest, hrest⟩ : ∃ rest, ix.effects db l a (.reorg e) = .recordReorgEvent e ::
      .markOrphaned .markBlocksOrphaned e.fromBlock e.toBlock :: rest := ⟨_, rfl⟩
  rw [hrest] at hr hmarks
  have hmarked := (markedFrom_performAll fun eff heff =>
    hmarks eff (List.mem_cons_of_mem _ (List.mem_cons_of_mem _ heff))).canonical r hr
  exact (canonicalBlock_apply.mp hmarked).2 rfl

/-- Handling a reorg keeps the invariant. -/
theorem factsWorld_reorg (hw : FactsWorld ix.config w) (hl : w.locals = some l)
    (hd : decidePass ix.config w.db l a = .reorg e)
    (hlocals : w'.locals = some ⟨e.commonAncestorBlock + 1, none⟩)
    (hdb : w'.db = (ix.performAll w (ix.effects w.db l a (.reorg e))).1.db)
    (hindexed : w'.indexed = (ix.performAll w (ix.effects w.db l a (.reorg e))).1.indexed) :
    FactsWorld ix.config w' := by
  obtain ⟨hfrom, hto, -, hle⟩ := decidePass_reorg hd
  obtain ⟨hm, hrange⟩ := performAll_reorg (w := w) (l := l) (a := a) (e := e)
  have hbelow : ∀ r, w.db.CanonicalBlock ix.config r → r.number < l.currentBlock := fun r hr => by
    obtain ⟨l', hl', hlt⟩ := hw.below r hr
    obtain rfl := Option.some.inj (hl.symm.trans hl')
    exact hlt
  rw [hm.indexed] at hindexed
  refine ⟨fun r hr => ⟨_, hlocals, ?_⟩, fun b hb => ?_, fun b hb r hr hof => ?_⟩
  · rw [hdb] at hr
    have hlt := hbelow r (hm.canonical r hr)
    have hout := hrange r hr
    simp only
    omega
  · rw [hindexed] at hb
    rw [hdb]
    exact hm.row b (hw.row b hb)
  · rw [hindexed] at hb
    rw [hdb] at hr ⊢
    refine hm.stored b (fun n hn => ?_) (hw.stored b hb r (hm.canonical r hr) hof)
    obtain rfl := Option.some.inj (hof.1.2.1.symm.trans hn)
    exact hrange r hr

/-! ## Runs -/

/-- **The step lemma.** A pass that meets the condition keeps the
invariant, and where it advances the facts are stored. -/
theorem factsWorld_pass (hw : FactsWorld ix.config w) (hl : w.locals = some l)
    (hC : FreshStep ix.config w (.pass a .completes)) :
    FactsWorld ix.config (ix.runPass w l a .completes) ∧
      ∀ l', (ix.runPass w l a .completes).locals = some l' →
        l'.currentBlock = l.currentBlock + 1 →
        AcceptedFactsStored ix.config a (ix.runPass w l a .completes) := by
  obtain ⟨⟨-, hback, hnum⟩, hfresh⟩ := hC
  have hsame : ∀ u : World, u = w → FactsWorld ix.config u ∧ ∀ l', u.locals = some l' →
      l'.currentBlock = l.currentBlock + 1 → AcceptedFactsStored ix.config a u := fun u hu => by
    subst hu
    refine ⟨hw, fun l' hl' hadv => ?_⟩
    obtain rfl := Option.some.inj (hl.symm.trans hl')
    omega
  cases hd : decidePass ix.config w.db l a with
  | wait => exact hsame _ (by simp [Indexer.runPass, hd, Indexer.effects, Indexer.performAll,
      Decision.next, ← hl])
  | window bs => exact absurd (backlog_of_window hd) (hback l hl)
  | tail b f =>
    have htail := Indexer.performAll_tail ix w.db (w := w) (l := l) (a := a) (b := b) (f := f)
    cases hp : persistBlockData ix.config w.db b f true with
    | none =>
      simp only [hp] at htail
      exact hsame _ (by simp only [Indexer.runPass, hd, htail])
    | some db' =>
      simp only [hp] at htail
      obtain ⟨hdb, hindexed, hok⟩ := htail
      rw [← hd] at hdb hindexed hok
      rw [Indexer.runPass_completes hok]
      let w' : World := { (ix.performAll w (ix.effects w.db l a
          (decidePass ix.config w.db l a))).1 with
        locals := some ((decidePass ix.config w.db l a).next l) }
      have hlocals : w'.locals = some ⟨l.currentBlock + 1, b.block.hash⟩ := by
        simp only [w', hd]
        rfl
      have hboth : FactsWorld ix.config w' ∧ AcceptedFactsStored ix.config a w' :=
        factsWorld_tail hw hl hnum hd (hfresh a _ rfl l hl b f hd) hlocals hindexed ⟨db', hp, hdb⟩
      exact ⟨hboth.1, fun _ _ _ => hboth.2⟩
  | reorg e =>
    have hok : (ix.performAll w (ix.effects w.db l a (decidePass ix.config w.db l a))).2 = true :=
      Indexer.performAll_total fun eff heff => List.eq_nil_iff_forall_not_mem.mpr fun b hb => by
        have := Indexer.persisted_subset_blocks heff hb
        rw [hd] at this
        exact absurd this List.not_mem_nil
    rw [Indexer.runPass_completes hok]
    refine ⟨factsWorld_reorg hw hl hd (by rw [hd]; rfl) (by rw [hd]) (by rw [hd]),
      fun l' hl' hadv => ?_⟩
    obtain ⟨-, -, hpos, hle⟩ := decidePass_reorg hd
    have hl'' : l' = ⟨e.commonAncestorBlock + 1, none⟩ := by
      rw [hd] at hl'
      exact (Option.some.inj hl').symm
    simp only [hl''] at hadv
    omega

theorem factsWorld_of_reaches (h : ix.live.Reaches (FreshStep ix.config) w) :
    FactsWorld ix.config w := by
  refine h.invariant (fun s hs => ?_) fun s i s' hI hC hstep => ?_
  · obtain rfl : s = World.empty := hs
    exact ⟨fun r hr => absurd hr.1.1 (Table.notMem_empty r), fun b hb => absurd hb List.not_mem_nil,
      fun b hb => absurd hb List.not_mem_nil⟩
  cases i with
  | start =>
    simp only [Indexer.live, Indexer.step] at hstep
    split at hstep
    · rename_i hnone
      obtain rfl := Option.some.inj hstep
      have hno : ∀ r, ¬s.db.CanonicalBlock ix.config r := fun r hr => by
        obtain ⟨l, hl, -⟩ := hI.below r hr
        simp [hl] at hnone
      exact ⟨fun r hr => absurd hr (hno r), hI.row, fun b _ r hr => absurd hr (hno r)⟩
    · simp at hstep
  | pass a cut =>
    obtain ⟨l, hl, rfl⟩ := Option.map_eq_some_iff.mp hstep
    obtain rfl : cut = .completes := hC.1.1
    exact (factsWorld_pass hI hl hC).1
  | transfer t => exact absurd hC.1 id
  | reconcile => exact absurd hC.1 id

/-- **The facts of the accepted blocks are stored** whenever a run that
accepts only fresh blocks has just advanced. -/
theorem acceptedFactsStored_of_reaches (h : ix.live.Reaches (FreshStep ix.config) w)
    (hC : FreshStep ix.config w (.pass a .completes)) (hl : w.locals = some l)
    (hs : ix.live.step w (.pass a .completes) = some w') (hl' : w'.locals = some l')
    (hadv : l'.currentBlock = l.currentBlock + 1) : AcceptedFactsStored ix.config a w' := by
  obtain ⟨l'', hl'', rfl⟩ := Option.map_eq_some_iff.mp hs
  obtain rfl := Option.some.inj (hl.symm.trans hl'')
  exact (factsWorld_pass (factsWorld_of_reaches h) hl hC).2 l' hl' hadv

theorem tailStep_ofBlocks {latestBlock : ℕ} {bs : List BlockData}
    (h : latestBlock < cfg.finalityConfirmations) :
    TailStep cfg w (.pass (.ofBlocks latestBlock bs) .completes) := by
  refine ⟨rfl, fun l _ hback => ?_, fun n b hb => Answers.number_of_ofBlocks hb⟩
  have : l.currentBlock + cfg.finalityConfirmations ≤ latestBlock := hback
  omega

/-- A block with a transaction is accepted, and its row is there. -/
theorem acceptedFactsStored_of_one_block :
    ∃ w, Indexer.bare.live.exec World.empty
        [.start, .pass (.ofBlocks 5 [{ BlockData.bare 5 5 4 with transactions := [.bare 1] }])
          .completes] = some w ∧
      w.indexed.length = 1 ∧
      AcceptedFactsStored Indexer.bare.config
        (.ofBlocks 5 [{ BlockData.bare 5 5 4 with transactions := [.bare 1] }]) w := by
  let block : BlockData := { BlockData.bare 5 5 4 with transactions := [.bare 1] }
  let w₁ := Indexer.bare.startProcess World.empty
  have h₁ : Indexer.bare.live.Reaches (FreshStep Indexer.bare.config) w₁ :=
    .step (i := .start) (.init rfl) ⟨trivial, fun a cut h => by simp at h⟩ rfl
  refine ⟨Indexer.bare.runPass w₁ ⟨5, none⟩ (.ofBlocks 5 [block]) .completes, rfl, rfl,
    acceptedFactsStored_of_reaches h₁ ⟨tailStep_ofBlocks (by decide), ?_⟩ rfl rfl rfl rfl⟩
  intro a cut hi l hl b f hd
  obtain ⟨rfl, -⟩ := Label.pass.inj hi
  obtain rfl := Option.some.inj hl
  obtain ⟨rfl, -⟩ := Decision.tail.inj hd
  exact ⟨fun t _ ht => absurd ht List.not_mem_nil, fun x hx => absurd hx List.not_mem_nil,
    fun r hr => absurd hr (Table.notMem_empty r), fun _ => rfl,
    fun r hr => absurd hr (Table.notMem_empty r)⟩

/-- Height 6 is indexed on one fork, and the provider switches to another
that mines the same transaction in its block at 6. -/
def sharedTransaction : List Label :=
  let forked := [BlockData.bare 5 5 4, { BlockData.bare 6 60 5 with transactions := [.bare 1] },
    BlockData.bare 7 70 60]
  [.start, .pass (.ofBlocks 5 [.bare 5 5 4]) .completes,
    .pass (.ofBlocks 6 [{ BlockData.bare 6 6 5 with transactions := [.bare 1] }]) .completes,
    .pass (.ofBlocks 7 forked) .completes]

/-- **The facts of an accepted block can be missing**: the transaction's
row stays with the abandoned block, and is not canonical. -/
theorem not_acceptedFactsStored_of_tail :
    ¬∀ (ix : Indexer) (w w' : World) (l l' : Locals) (a : Answers),
      ix.live.Reaches (TailStep ix.config) w → TailStep ix.config w (.pass a .completes) →
      w.locals = some l → ix.live.step w (.pass a .completes) = some w' →
      w'.locals = some l' → l'.currentBlock = l.currentBlock + 1 →
      AcceptedFactsStored ix.config a w' := by
  intro h
  let block : BlockData := { BlockData.bare 6 60 5 with transactions := [.bare 1] }
  let last : Answers := .ofBlocks 7 [.bare 5 5 4, block, .bare 7 70 60]
  have hexec : (Indexer.bare.live.exec World.empty sharedTransaction).map (·.locals) =
      some (some ⟨6, none⟩) := by decide
  obtain ⟨w, hw, hl⟩ := Option.map_eq_some_iff.mp hexec
  have hreach : Indexer.bare.live.Reaches (TailStep Indexer.bare.config) w := by
    refine Machine.Reaches.exec (.init rfl) (Machine.meets_of_forall (fun i hi s => ?_) _) hw
    simp only [sharedTransaction, List.mem_cons, List.not_mem_nil, or_false] at hi
    rcases hi with rfl | rfl | rfl | rfl
    · trivial
    all_goals exact tailStep_ofBlocks (by decide)
  have hlast : ((Indexer.bare.live.exec World.empty sharedTransaction).bind
      fun w => Indexer.bare.live.step w (.pass last .completes)).map
        (fun w => (w.locals, w.indexed.head?, w.db.transactions.rows.map (·.blockHash))) =
      some (some ⟨7, some ⟨60⟩⟩, some block, [⟨6⟩]) := by decide
  rw [hw, Option.bind_some] at hlast
  obtain ⟨w', hs, hvalues⟩ := Option.map_eq_some_iff.mp hlast
  simp only [Prod.mk.injEq] at hvalues
  obtain ⟨hl', hhead, hrows⟩ := hvalues
  have hstored := h Indexer.bare w w' ⟨6, none⟩ ⟨7, some ⟨60⟩⟩ last hreach
    (tailStep_ofBlocks (by decide)) hl hs hl' rfl block (List.mem_of_head? hhead)
    ⟨6, rfl, by decide⟩
  obtain ⟨r, hr, hstamps, -, -⟩ := hstored.transactions (.bare 1) List.mem_cons_self
  have hhash : r.blockHash ∈ w'.db.transactions.rows.map (·.blockHash) := List.mem_map_of_mem hr
  rw [hrows, List.mem_singleton] at hhash
  exact absurd (hhash ▸ hstamps.2.2) (by decide)

end HoodSentry
