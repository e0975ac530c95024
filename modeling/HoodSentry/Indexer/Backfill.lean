import HoodSentry.Indexer.Model.Backfill
import HoodSentry.Indexer.LogWindow
import HoodSentry.Indexer.Publication
/-!
# What a backfill covers

A backfill and a gap repair count their progress by the heights asked for,
and leave out the blocks not found. So a height that is answered null in
the attempt that moves past its batch is covered only if an earlier
attempt had covered it, and in a gap repair it is not.
-/

namespace HoodSentry

/-! ## What is promised -/

/-- A provider's blocks carry the numbers they are asked for by. -/
def RpcClient.Numbered (client : RpcClient) : Prop :=
  ∀ n includeTransactions block, client.getBlock n includeTransactions = some (some block) →
    block.header.number = some n

namespace BackfillIndexer

variable (ix : BackfillIndexer)

/-- The block's row is stored. -/
def Persisted (w : World) (b : BlockData) : Prop :=
  ∃ number hash, b.block.number = some number ∧ b.block.hash = some hash ∧
    (ix.config.chainId, number, hash) ∈ w.db.blocks.keys

/-- **A height is covered**: its block is persisted, and its jobs have been
handed to the publisher. -/
def Covered (s : Backfill) (n : ℕ) : Prop :=
  ∃ b ∈ s.fetched, b.block.number = some n ∧ ix.Persisted s.world b ∧
    ∀ job ∈ ix.collectedJobs b, job ∈ s.world.queue

/-- **An attempt none of whose calls throws**, the one that moves past its
batch. -/
def ThrowsNowhere (s : Backfill) (a : BackfillAttempt) : Prop :=
  a.renewThrows = false ∧ a.throwsAfter = none ∧
    ∃ blocks, ix.fetcher.fetchBlockRange a.client s.currentBlock (ix.actualEnd s.currentBlock) =
      some blocks ∧
    (ix.performAll s.world (blocks.flatMap (ix.blockEffects a.toBackfillAnswers))).2 = true

/-- **The condition on an attempt**: where it throws nowhere, each height
of its batch that is answered null is covered already. -/
def SkipsNothing (s : Backfill) (a : BackfillAttempt) : Prop :=
  ix.ThrowsNowhere s a →
    ∀ n ∈ FetcherConfig.heights s.currentBlock (ix.actualEnd s.currentBlock),
      ix.fetcher.fetchBlockData a.client n = some none → ix.Covered s n

end BackfillIndexer

/-! ## Fetching a range -/

section Fetch

variable {cfg : FetcherConfig} {client : RpcClient} {fromBlock toBlock n : ℕ}
variable {blocks : List BlockData} {b : BlockData}

/-- **A range is fetched** block by block: each height is answered, and the
blocks are those found. -/
theorem mem_fetchBlockRange (h : cfg.fetchBlockRange client fromBlock toBlock = some blocks) :
    (∀ n ∈ FetcherConfig.heights fromBlock toBlock, ∃ answer,
      cfg.fetchBlockData client n = some answer) ∧
    ∀ b, b ∈ blocks ↔ ∃ n ∈ FetcherConfig.heights fromBlock toBlock,
      cfg.fetchBlockData client n = some (some b) := by
  obtain ⟨answers, hanswers, rfl⟩ := Option.map_eq_some_iff.mp h
  constructor
  · intro n hn
    obtain ⟨answer, -, hanswer⟩ := exists_of_mapM_eq_some hanswers hn
    exact ⟨answer, hanswer⟩
  · intro b
    rw [List.mem_filterMap]
    constructor
    · rintro ⟨answer, hmem, rfl⟩
      exact (mem_of_mapM_eq_some hanswers).mp hmem
    · rintro ⟨n, hn, hb⟩
      obtain ⟨answer, hmem, hanswer⟩ := exists_of_mapM_eq_some hanswers hn
      obtain rfl := Option.some.inj (hanswer.symm.trans hb)
      exact ⟨some b, hmem, rfl⟩

/-- A block that is fetched has a hash, and the number it was asked for
by. -/
theorem fetchBlockData_number (hclient : client.Numbered)
    (h : cfg.fetchBlockData client n = some (some b)) :
    b.block.number = some n ∧ b.block.hash.isSome = true := by
  unfold FetcherConfig.fetchBlockData at h
  split at h
  · exact absurd h.symm (Option.some_ne_none _)
  · exact absurd (Option.some.inj h).symm (Option.some_ne_none _)
  · rename_i block hblock
    obtain ⟨_, hformed, h⟩ := Option.bind_eq_some_iff.mp h
    obtain ⟨bodies, _, h⟩ := Option.bind_eq_some_iff.mp h
    obtain rfl := Option.some.inj (Option.some.inj h)
    refine ⟨hclient n true block hblock, ?_⟩
    unfold FetcherConfig.assertWellFormed at hformed
    split at hformed
    · rename_i hboth
      exact ((Bool.and_eq_true _ _).mp hboth).2
    · exact absurd hformed.symm (Option.some_ne_none _)

end Fetch

/-! ## Writing the blocks -/

namespace BackfillIndexer

variable {ix : BackfillIndexer} {a : BackfillAnswers} {w w' : World} {b : BlockData}
variable {blocks : List BlockData} {n : ℕ}

/-- A block's effects are its write and what hands its jobs on. -/
theorem mem_blockEffects {e : Effect} (h : e ∈ ix.blockEffects a b) :
    (∃ f, e = .persistBlockData b f) ∨ e.handsOn = true := by
  rcases List.mem_cons.mp h with rfl | h
  · exact Or.inl ⟨_, rfl⟩
  · rcases List.mem_append.mp h with h | h
    · exact Or.inr (Indexer.handsOn_of_mem_collectEffects h)
    · exact Or.inr (Indexer.handsOn_of_mem_publishEffects h)

/-- **What an effect may take away**: nothing. -/
structure Grows (w w' : World) : Prop where
  keys : ∀ k ∈ w.db.blocks.keys, k ∈ w'.db.blocks.keys
  queue : ∀ job ∈ w.queue, job ∈ w'.queue

theorem Grows.refl (w : World) : Grows w w := ⟨fun _ h => h, fun _ h => h⟩

theorem Grows.trans {w'' : World} (h : Grows w w') (h' : Grows w' w'') : Grows w w'' :=
  ⟨fun k hk => h'.keys k (h.keys k hk), fun job hj => h'.queue job (h.queue job hj)⟩

/-- A block written has its row. -/
theorem persistBlockData_keys {db db' : Db} {f : FinalityState}
    (h : persistBlockData ix.config db b f true = some db') :
    (∀ k ∈ db.blocks.keys, k ∈ db'.blocks.keys) ∧
    ∀ number hash, b.block.number = some number → b.block.hash = some hash →
      (ix.config.chainId, number, hash) ∈ db'.blocks.keys := by
  unfold persistBlockData at h
  split at h
  · rename_i number hash hnumber hhash
    obtain ⟨rows, hrows, hdb⟩ := Option.bind_eq_some_iff.mp h
    obtain rfl := Option.some.inj hdb
    obtain ⟨row, hrow, hrest⟩ := Option.bind_eq_some_iff.mp hrows
    obtain ⟨transactions, -, hrest⟩ := Option.bind_eq_some_iff.mp hrest
    obtain ⟨logs, -, hrest⟩ := Option.bind_eq_some_iff.mp hrest
    obtain rfl := Option.some.inj hrest
    have hkey : row.key = (ix.config.chainId, number, hash) := by
      simp only [buildBlockRow, hnumber, hhash] at hrow
      rw [← Option.some.inj hrow]
      rfl
    constructor
    · exact fun k hk => Table.mem_keys_insertAll.mpr (Or.inl hk)
    · intro number' hash' hnumber' hhash'
      obtain rfl := Option.some.inj (hnumber.symm.trans hnumber')
      obtain rfl := Option.some.inj (hhash.symm.trans hhash')
      exact Table.mem_keys_insertAll.mpr (Or.inr (List.mem_singleton.mpr hkey.symm))
  · rename_i hnot
    obtain rfl := Option.some.inj h
    exact ⟨fun _ hk => hk, fun number hash hnumber hhash => absurd hhash (hnot number hash hnumber)⟩

theorem grows_perform {e : Effect} (he : e ∈ ix.blockEffects a b)
    (h : ix.perform w e = some w') : Grows w w' := by
  refine ⟨?_, fun job hj => Indexer.mem_queue_perform h (Or.inl hj)⟩
  rcases mem_blockEffects he with ⟨f, rfl⟩ | hquiet
  · obtain ⟨db, hdb, rfl⟩ := Option.map_eq_some_iff.mp h
    exact (persistBlockData_keys hdb).1
  · rw [(Indexer.perform_of_handsOn hquiet h).1]
    exact fun _ hk => hk

/-- **However far it gets, a batch takes nothing away.** -/
theorem grows_performAll (w : World) {es : List Effect}
    (hes : es ⊆ blocks.flatMap (ix.blockEffects a)) : Grows w (ix.performAll w es).1 := by
  refine Indexer.performAll_induction (P := Grows w) (fun e he w₁ w₂ h₁ h₂ => ?_) (Grows.refl w)
  obtain ⟨b, -, hb⟩ := List.mem_flatMap.mp (hes he)
  exact h₁.trans (grows_perform hb h₂)

/-- **A batch done to its end** has its blocks persisted and their jobs
handed on. -/
theorem performAll_blockEffects
    (hok : (ix.performAll w (blocks.flatMap (ix.blockEffects a))).2 = true)
    (hb : b ∈ blocks) (hnumber : b.block.number = some n) (hhash : b.block.hash.isSome = true) :
    ix.Persisted (ix.performAll w (blocks.flatMap (ix.blockEffects a))).1 b ∧
      ∀ job ∈ ix.collectedJobs b,
        job ∈ (ix.performAll w (blocks.flatMap (ix.blockEffects a))).1.queue := by
  have hmem : ∀ e ∈ ix.blockEffects a b, e ∈ blocks.flatMap (ix.blockEffects a) :=
    fun e he => List.mem_flatMap.mpr ⟨b, hb, he⟩
  constructor
  · obtain ⟨hash, hhash⟩ := Option.isSome_iff_exists.mp hhash
    refine ⟨n, hash, hnumber, hhash, ?_⟩
    refine Indexer.performAll_establishes (P := fun w => (ix.config.chainId, n, hash) ∈
      w.db.blocks.keys) (hmem _ List.mem_cons_self) (fun w₁ w₂ h => ?_) (fun e he w₁ w₂ hk h => ?_)
      hok
    · obtain ⟨db, hdb, rfl⟩ := Option.map_eq_some_iff.mp h
      exact (persistBlockData_keys hdb).2 n hash hnumber hhash
    · obtain ⟨b', -, he⟩ := List.mem_flatMap.mp he
      exact (grows_perform he h).keys _ hk
  · intro job hjob
    rcases Indexer.exists_handed_of_mem_collectedJobs (a := a.handling) hjob with
      ⟨e, he, hje⟩ | hjob
    · exact Indexer.mem_queue_performAll
        (hmem e (List.mem_cons_of_mem _ (List.mem_append_left _ he))) hje hok
    · have hpublished : ∃ e ∈ ix.publishEffects (detectNewContractsAndTokens ix.config b),
          job ∈ e.handed := Indexer.exists_handed_of_mem_jobs hjob
      obtain ⟨e, he, hje⟩ := hpublished
      exact Indexer.mem_queue_performAll
        (hmem e (List.mem_cons_of_mem _ (List.mem_append_right _ he))) hje hok

/-! ## Attempts -/

variable {s : Backfill} {attempted : BackfillAttempt}

theorem Covered.mono {s s' : Backfill} (h : ix.Covered s n) (hfetched : ∀ b ∈ s.fetched, b ∈ s'.fetched)
    (hgrows : Grows s.world s'.world) : ix.Covered s' n := by
  obtain ⟨b, hb, hnumber, ⟨number, hash, hn, hh, hkey⟩, hjobs⟩ := h
  exact ⟨b, hfetched b hb, hnumber, ⟨number, hash, hn, hh, hgrows.keys _ hkey⟩,
    fun job hj => hgrows.queue job (hjobs job hj)⟩

/-- **What an attempt does**: it takes nothing away, and it stays at its
batch unless it throws nowhere. -/
theorem attempt_cases (ix : BackfillIndexer) (s : Backfill) (attempted : BackfillAttempt) :
    (∀ b ∈ s.fetched, b ∈ (ix.attempt s attempted).fetched) ∧
    Grows s.world (ix.attempt s attempted).world ∧
    ((ix.attempt s attempted).currentBlock = s.currentBlock ∨
      ∃ blocks, ix.fetcher.fetchBlockRange attempted.client s.currentBlock
          (ix.actualEnd s.currentBlock) = some blocks ∧
        ix.ThrowsNowhere s attempted ∧
        ix.attempt s attempted =
          ⟨(ix.performAll s.world (blocks.flatMap (ix.blockEffects attempted.toBackfillAnswers))).1,
            ix.actualEnd s.currentBlock + 1, blocks ++ s.fetched⟩) := by
  unfold attempt
  cases hrenew : attempted.renewThrows with
  | true => exact ⟨fun _ hb => hb, Grows.refl _, Or.inl rfl⟩
  | false =>
    simp only [Bool.false_eq_true, if_false]
    cases hfetch : ix.fetcher.fetchBlockRange attempted.client s.currentBlock
        (ix.actualEnd s.currentBlock) with
    | none => exact ⟨fun _ hb => hb, Grows.refl _, Or.inl rfl⟩
    | some blocks =>
      dsimp only
      cases hthrows : attempted.throwsAfter with
      | some calls =>
        exact ⟨fun _ hb => List.mem_append_right _ hb,
          grows_performAll _ (List.take_subset _ _), Or.inl rfl⟩
      | none =>
        have hgrows := grows_performAll s.world
          (List.Subset.refl (blocks.flatMap (ix.blockEffects attempted.toBackfillAnswers)))
        dsimp only
        split
        · rename_i w hdone
          rw [hdone] at hgrows
          refine ⟨fun _ hb => List.mem_append_right _ hb, hgrows, Or.inr ⟨blocks, rfl, ?_, ?_⟩⟩
          · exact ⟨hrenew, hthrows, blocks, hfetch, by rw [hdone]⟩
          · rw [hdone]
        · rename_i w hdone
          rw [hdone] at hgrows
          exact ⟨fun _ hb => List.mem_append_right _ hb, hgrows, Or.inl rfl⟩

theorem historical_step (h : s.currentBlock ≤ ix.endBlock) :
    ix.historical.step s attempted = some (ix.attempt s attempted) := if_pos h

/-- The blocks behind the loop are covered. -/
def CoveredSoFar (ix : BackfillIndexer) (s : Backfill) : Prop :=
  ∀ n, ix.startBlock ≤ n → n < s.currentBlock → ix.Covered s n

/-- **An attempt that skips nothing** keeps everything behind the loop
covered. -/
theorem coveredSoFar_attempt (h : ix.CoveredSoFar s) (hclient : attempted.client.Numbered)
    (hskips : ix.SkipsNothing s attempted) : ix.CoveredSoFar (ix.attempt s attempted) := by
  obtain ⟨hfetched, hgrows, hstays | ⟨blocks, hblocks, hnowhere, hattempt⟩⟩ :=
    attempt_cases ix s attempted
  · intro n hstart hn
    exact (h n hstart (hstays ▸ hn)).mono hfetched hgrows
  · intro n hstart hn
    rcases Nat.lt_or_ge n s.currentBlock with hbehind | hbatch
    · exact (h n hstart hbehind).mono hfetched hgrows
    have hn : n ≤ ix.actualEnd s.currentBlock := by
      rw [hattempt] at hn
      exact Nat.lt_succ_iff.mp hn
    have hheight := mem_heights.mpr ⟨hbatch, hn⟩
    obtain ⟨hanswered, hmem⟩ := mem_fetchBlockRange hblocks
    obtain ⟨answer, hanswer⟩ := hanswered n hheight
    cases answer with
    | none => exact (hskips hnowhere n hheight hanswer).mono hfetched hgrows
    | some b =>
      -- the block is served, and the whole batch is done
      have hb : b ∈ blocks := (hmem b).mpr ⟨n, hheight, hanswer⟩
      obtain ⟨hnumber, hhash⟩ := fetchBlockData_number hclient hanswer
      obtain ⟨-, -, blocks', hblocks', hok⟩ := hnowhere
      obtain rfl := Option.some.inj (hblocks.symm.trans hblocks')
      obtain ⟨hpersisted, hjobs⟩ := performAll_blockEffects hok hb hnumber hhash
      rw [hattempt]
      exact ⟨b, List.mem_append_left _ hb, hnumber, hpersisted, hjobs⟩

/-- **A backfill covers every height**, where each attempt that throws
nowhere finds no height of its batch null that is not covered already. -/
theorem covered_of_reaches
    (h : ix.historical.Reaches (fun s a => a.client.Numbered ∧ ix.SkipsNothing s a) s)
    (hreturned : ix.Returned s) :
    ∀ n ∈ FetcherConfig.heights ix.startBlock ix.endBlock, ix.Covered s n := by
  have hinv : ix.CoveredSoFar s := by
    refine h.invariant (I := ix.CoveredSoFar) (fun s hinit n hstart hn => ?_)
      fun s a s' hI hC hs => ?_
    · rw [hinit.1] at hn
      omega
    · obtain ⟨-, hs⟩ := Option.ite_none_right_eq_some.mp hs
      obtain rfl := Option.some.inj hs
      exact coveredSoFar_attempt hI hC.1 hC.2
  intro n hn
  obtain ⟨hstart, hend⟩ := mem_heights.mp hn
  exact hinv n hstart (Nat.lt_of_le_of_lt hend hreturned)

/-! ## Gap repair -/

/-- **A repair that ends** has persisted every block it was served. -/
theorem persisted_repairGaps (hclient : a.client.Numbered) {gaps : List GapRange}
    (h : ix.repairGaps a gaps w = (w', true)) :
    (∀ gap ∈ gaps, ∀ n ∈ FetcherConfig.heights gap.fromBlock gap.toBlock, ∃ answer,
      ix.fetcher.fetchBlockData a.client n = some answer ∧
        ∀ b ∈ answer, ix.Persisted w' b) ∧ Grows w w' := by
  induction gaps generalizing w with
  | nil =>
    obtain ⟨rfl, -⟩ := Prod.mk.inj h
    exact ⟨fun gap hgap => absurd hgap List.not_mem_nil, Grows.refl _⟩
  | cons gap gaps ih =>
    unfold repairGaps at h
    split at h
    · exact absurd (congrArg Prod.snd h) Bool.false_ne_true
    · rename_i blocks hblocks
      split at h
      · rename_i w₁ hdone
        obtain ⟨hrest, hgrows⟩ := ih h
        have hbatch : Grows w w₁ := by
          have hall := grows_performAll w
            (List.Subset.refl (blocks.flatMap (ix.blockEffects a)))
          rwa [hdone] at hall
        refine ⟨fun gap' hgap n hn => ?_, hbatch.trans hgrows⟩
        rcases List.mem_cons.mp hgap with rfl | hgap
        · obtain ⟨hanswered, hmem⟩ := mem_fetchBlockRange hblocks
          obtain ⟨answer, hanswer⟩ := hanswered n hn
          refine ⟨answer, hanswer, fun b hb => ?_⟩
          obtain rfl : answer = some b := hb
          obtain ⟨hnumber, hhash⟩ := fetchBlockData_number hclient hanswer
          have hpersisted := (performAll_blockEffects (w := w) (by rw [hdone])
            ((hmem b).mpr ⟨n, hn, hanswer⟩) hnumber hhash).1
          rw [hdone] at hpersisted
          obtain ⟨number, hash, hn', hh', hkey⟩ := hpersisted
          exact ⟨number, hash, hn', hh', hgrows.keys _ hkey⟩
        · exact hrest gap' hgap n hn
      · exact absurd (congrArg Prod.snd h) Bool.false_ne_true

/-- A height of one of the gaps. -/
def InGaps (gaps : List GapRange) (n : ℕ) : Prop :=
  ∃ gap ∈ gaps, n ∈ FetcherConfig.heights gap.fromBlock gap.toBlock

theorem not_inGaps_nil : ¬InGaps [] n := fun ⟨_, h, _⟩ => List.not_mem_nil h

theorem inGaps_cons {gap : GapRange} {gaps : List GapRange} :
    InGaps (gap :: gaps) n ↔ (gap.fromBlock ≤ n ∧ n ≤ gap.toBlock) ∨ InGaps gaps n := by
  rw [InGaps, List.exists_mem_cons_iff, mem_heights]
  exact Iff.rfl

theorem inGaps_reverse {gaps : List GapRange} : InGaps gaps.reverse n ↔ InGaps gaps n := by
  simp only [InGaps, List.mem_reverse]

/-- **What the scan's loop collects** over the heights from `m`: the gaps
closed and the open one hold the heights not indexed. -/
theorem inGaps_scanHeights {indexed : ℕ → Bool} {k m : ℕ} {gaps gaps' : List GapRange}
    {start start' : Option ℕ}
    (hscan : scanHeights indexed (List.range' m k) gaps start = (gaps', start'))
    (hopen : ∀ s ∈ start, s < m) :
    (InGaps gaps' n ∨ ∃ s ∈ start', s ≤ n ∧ n < m + k) ↔
      (InGaps gaps n ∨ ∃ s ∈ start, s ≤ n ∧ n < m) ∨
        (m ≤ n ∧ n < m + k ∧ indexed n = false) := by
  induction k generalizing m gaps start with
  | zero =>
    obtain ⟨rfl, rfl⟩ := Prod.mk.inj hscan
    refine (or_iff_left ?_).symm
    omega
  | succ k ih =>
    rw [List.range'_succ] at hscan
    unfold scanHeights at hscan
    cases hm : indexed m with
    | true =>
      simp only [hm, if_true] at hscan
      have hhere : ¬(n = m ∧ indexed n = false) := by
        rintro ⟨rfl, hout⟩
        exact Bool.false_ne_true (hout.symm.trans hm)
      cases start with
      | none =>
        have hrest := ih hscan fun s hs => absurd hs (Option.not_mem_none s)
        rw [show m + (k + 1) = m + 1 + k by omega, hrest]
        simp only [Option.not_mem_none, false_and, exists_false, or_false]
        refine or_congr_right ⟨fun h => ⟨by omega, h.2⟩, fun h => ⟨?_, h.2⟩⟩
        by_contra hlt
        exact hhere ⟨by omega, h.2.2⟩
      | some s =>
        have hs : s < m := hopen s rfl
        have hrest := ih hscan fun s hs => absurd hs (Option.not_mem_none s)
        have hclosed : InGaps (⟨s, m - 1⟩ :: gaps) n ↔ InGaps gaps n ∨ (s ≤ n ∧ n < m) := by
          rw [inGaps_cons, or_comm]
          refine or_congr_right ?_
          change s ≤ n ∧ n ≤ m - 1 ↔ s ≤ n ∧ n < m
          omega
        rw [show m + (k + 1) = m + 1 + k by omega, hrest, hclosed]
        simp only [Option.not_mem_none, false_and, exists_false, or_false, Option.mem_some_iff,
          exists_eq_left']
        refine or_congr_right ⟨fun h => ⟨by omega, h.2⟩, fun h => ⟨?_, h.2⟩⟩
        by_contra hlt
        exact hhere ⟨by omega, h.2.2⟩
    | false =>
      simp only [hm, Bool.false_eq_true, if_false] at hscan
      have hstart : start.getD m ≤ m := by
        cases start with
        | none => exact Nat.le_refl m
        | some s => exact (hopen s rfl).le
      have hrest := ih hscan fun s hs => by
        obtain rfl : start.getD m = s := Option.some.inj hs
        omega
      -- the open gap reaches over the height, or opens at it
      have hopened : (start.getD m ≤ n ∧ n < m + 1) ↔ (∃ s ∈ start, s ≤ n ∧ n < m) ∨ n = m := by
        cases start with
        | none =>
          simp only [Option.getD_none, Option.not_mem_none, false_and, exists_false, false_or]
          omega
        | some s =>
          have hs : s < m := hopen s rfl
          simp only [Option.getD_some, Option.mem_some_iff, exists_eq_left']
          omega
      have hhere : n = m → indexed n = false := fun h => h ▸ hm
      rw [show m + (k + 1) = m + 1 + k by omega, hrest]
      simp only [Option.mem_some_iff, exists_eq_left']
      rw [hopened, ← or_assoc, or_assoc]
      refine or_congr_right ?_
      constructor
      · rintro (rfl | h)
        · exact ⟨Nat.le_refl n, by omega, hhere rfl⟩
        · exact ⟨by omega, h.2⟩
      · rintro ⟨hge, hlt, hout⟩
        rcases Nat.eq_or_lt_of_le hge with heq | hgt
        · exact Or.inl heq.symm
        · exact Or.inr ⟨hgt, hlt, hout⟩

/-- **The gaps scanned are the missing heights**: those of the range
without a canonical block. -/
theorem inGaps_scanForGaps {cfg : IndexerConfig} {db : Db} {fromBlock toBlock : ℕ} :
    InGaps (scanForGaps cfg db fromBlock toBlock) n ↔
      (fromBlock ≤ n ∧ n ≤ toBlock) ∧
        ∀ r ∈ db.blocks, r.chainId = cfg.chainId → r.number = n → r.canonical = false := by
  let indexedBlocks := db.blocks.rows.filter fun r =>
    r.chainId = cfg.chainId && fromBlock ≤ r.number && r.number ≤ toBlock && r.canonical
  let indexed := fun n => indexedBlocks.any fun r => r.number = n
  have hindexed : fromBlock ≤ n ∧ n ≤ toBlock → (indexed n = false ↔
      ∀ r ∈ db.blocks, r.chainId = cfg.chainId → r.number = n → r.canonical = false) := by
    intro hrange
    rw [List.any_eq_false]
    constructor
    · intro h r hr hchain hnumber
      by_contra hcanonical
      refine h r (List.mem_filter.mpr ⟨hr, ?_⟩) (decide_eq_true hnumber)
      rw [Bool.not_eq_false] at hcanonical
      simp only [hchain, hnumber, hcanonical, hrange.1, hrange.2, decide_true, Bool.and_self]
    · intro h r hr hnumber
      obtain ⟨hr, hrow⟩ := List.mem_filter.mp hr
      simp only [Bool.and_eq_true, decide_eq_true_eq] at hrow
      rw [h r hr hrow.1.1.1 (of_decide_eq_true hnumber)] at hrow
      exact Bool.false_ne_true hrow.2
  have hall : InGaps (scanForGaps cfg db fromBlock toBlock) n ↔
      (fromBlock ≤ n ∧ n ≤ toBlock) ∧ indexed n = false := by
    unfold scanForGaps
    dsimp only
    split
    · rename_i hnone
      have hfree : indexed n = false := by
        rw [List.any_eq_false]
        intro r hr
        rw [show indexedBlocks = [] from hnone] at hr
        exact absurd hr List.not_mem_nil
      rw [inGaps_cons, or_iff_left not_inGaps_nil, and_iff_left hfree]
    · rename_i hsome
      have hrange : fromBlock ≤ toBlock := by
        obtain ⟨r, hr⟩ := List.exists_mem_of_ne_nil _ hsome
        have hrow := (List.mem_filter.mp hr).2
        simp only [Bool.and_eq_true, decide_eq_true_eq] at hrow
        omega
      have hspec : ∀ gaps start, scanHeights indexed (FetcherConfig.heights fromBlock toBlock) [] none
          = (gaps, start) → ((InGaps gaps n ∨ ∃ s ∈ start, s ≤ n ∧ n ≤ toBlock) ↔
            (fromBlock ≤ n ∧ n ≤ toBlock) ∧ indexed n = false) := by
        intro gaps start hscan
        have hloop := inGaps_scanHeights (n := n) hscan fun s hs => absurd hs (Option.not_mem_none s)
        rw [show fromBlock + (toBlock + 1 - fromBlock) = toBlock + 1 by omega] at hloop
        simp only [Nat.lt_succ_iff] at hloop
        rw [hloop, and_assoc]
        refine or_iff_right ?_
        rintro (hnil | ⟨s, hs, -⟩)
        · exact not_inGaps_nil hnil
        · exact Option.not_mem_none s hs
      split
      · rename_i gaps hscan
        rw [inGaps_reverse, ← hspec gaps none hscan]
        simp only [Option.not_mem_none, false_and, exists_false, or_false]
      · rename_i gaps start hscan
        rw [inGaps_reverse, inGaps_cons, ← hspec gaps (some start) hscan, or_comm]
        simp only [Option.mem_some_iff, exists_eq_left']
  rw [hall]
  exact and_congr_right hindexed

/-! ## Both modes -/

/-- **What the two modes cover.** A backfill that returns has covered its
range, where each attempt that throws nowhere skips nothing; a gap repair
that returns has persisted every height of its gaps exactly when none of
them was answered null. -/
theorem backfill_covers (ix : BackfillIndexer) :
    (∀ s, ix.historical.Reaches (fun s a => a.client.Numbered ∧ ix.SkipsNothing s a) s →
      ix.Returned s → ∀ n ∈ FetcherConfig.heights ix.startBlock ix.endBlock, ix.Covered s n) ∧
    ∀ a w w', a.client.Numbered → ix.runGapRepair a w = (w', true) →
      let gaps := scanForGaps ix.config w.db ix.startBlock ix.endBlock
      (∀ n, InGaps gaps n →
          ∃ b, ix.fetcher.fetchBlockData a.client n = some (some b) ∧ ix.Persisted w' b) ↔
        ∀ n, InGaps gaps n → ix.fetcher.fetchBlockData a.client n ≠ some none := by
  refine ⟨fun s h hreturned => covered_of_reaches h hreturned, fun a w w' hclient h => ?_⟩
  constructor
  · rintro hall n hn hnull
    obtain ⟨b, hb, -⟩ := hall n hn
    exact Option.some_ne_none b (Option.some.inj (hb.symm.trans hnull))
  · rintro hnone n ⟨gap, hgap, hn⟩
    obtain ⟨answer, hanswer, hpersisted⟩ := (persisted_repairGaps hclient h).1 gap hgap n hn
    cases answer with
    | none => exact absurd hanswer (hnone n ⟨gap, hgap, hn⟩)
    | some b => exact ⟨b, hanswer, hpersisted b rfl⟩

/-! ## Sample backfills -/

/-- A provider of the empty blocks at the heights it is given. -/
def clientOf (available : List ℕ) : RpcClient where
  getBlock n _ := some (if n ∈ available then
    some ⟨(BlockData.bare n (100 + n) (99 + n)).block, []⟩ else none)
  getBlockReceipts _ := none
  getTransactionReceipt _ := none
  getLogs _ _ _ := none

theorem numbered_clientOf (available : List ℕ) : (clientOf available).Numbered := by
  intro n includeTransactions block h
  obtain ⟨-, h⟩ := Option.ite_none_right_eq_some.mp (Option.some.inj h)
  rw [← Option.some.inj h]
  rfl

/-- A backfill of the heights 5 and 6. -/
def fromFive : BackfillIndexer := ⟨Indexer.bare, ⟨none⟩, 5, 6⟩

/-- An attempt that throws nowhere. -/
def quietAttempt (available : List ℕ) : BackfillAttempt where
  client := clientOf available
  head _ := 6
  failAt _ := none
  renewThrows := false
  throwsAfter := none

/-- Before the first attempt. -/
def untried : Backfill := ⟨World.empty, 5, []⟩

/-- A provider of both heights has both covered. -/
theorem covered_of_both :
    let s := fromFive.attempt untried (quietAttempt [5, 6])
    fromFive.Returned s ∧ ∀ n ∈ FetcherConfig.heights 5 6, fromFive.Covered s n := by
  intro s
  have hreturned : fromFive.Returned s := by decide +kernel
  refine ⟨hreturned, (backfill_covers fromFive).1 s ?_ hreturned⟩
  have hinit : fromFive.historical.Init untried := ⟨rfl, rfl⟩
  have hstep : fromFive.historical.step untried (quietAttempt [5, 6]) = some s :=
    historical_step (by decide)
  refine (Machine.Reaches.init hinit).step ⟨numbered_clientOf [5, 6], fun _ n hn hnull => ?_⟩ hstep
  have hserved : ∀ n ∈ [5, 6],
      fromFive.fetcher.fetchBlockData (clientOf [5, 6]) n ≠ some none := by decide +kernel
  exact absurd hnull (hserved n hn)

/-- **A height answered null is left behind**: the attempt moves past it,
and the backfill returns. -/
theorem not_backfill_covers :
    ¬∀ ix : BackfillIndexer,
      (∀ s, ix.historical.Reaches (fun _ a => a.client.Numbered) s → ix.Returned s →
        ∀ n ∈ FetcherConfig.heights ix.startBlock ix.endBlock, ix.Covered s n) ∧
      ∀ a w w', a.client.Numbered → ix.runGapRepair a w = (w', true) →
        ∀ n, InGaps (scanForGaps ix.config w.db ix.startBlock ix.endBlock) n →
          ∃ b, ix.fetcher.fetchBlockData a.client n = some (some b) ∧ ix.Persisted w' b := by
  intro h
  let s := fromFive.attempt untried (quietAttempt [5])
  have hinit : fromFive.historical.Init untried := ⟨rfl, rfl⟩
  have hstep : fromFive.historical.step untried (quietAttempt [5]) = some s :=
    historical_step (by decide)
  have hreaches : fromFive.historical.Reaches (fun _ a => a.client.Numbered) s :=
    (Machine.Reaches.init hinit).step (numbered_clientOf [5]) hstep
  have hreturned : fromFive.Returned s := by decide +kernel
  obtain ⟨b, hb, hnumber, -⟩ := (h fromFive).1 s hreaches hreturned 6 (by decide)
  have hserved : ∀ b ∈ s.fetched, b.block.number ≠ some 6 := by decide +kernel
  exact hserved b hb hnumber

end BackfillIndexer

end HoodSentry
