import HoodSentry.Common.Linked
import HoodSentry.Indexer.Helpers.Pass
/-!
# The stored chain is linked

Two canonical rows at consecutive heights agree on the hash between them.
The live loop keeps this along runs whose steps are `LinkedStep`, which
names the four places it can be lost: a start from a checkpoint whose
hash is not the stored tip's, a mismatch without an ancestor, a pass that
validates no parent, and rows left stored at the heights being indexed.
The rows are linked at every state such a run reaches, whatever is cut.
-/

namespace HoodSentry

variable {cfg : IndexerConfig} {db db' : Db} {l : Locals} {a : Answers} {final : ℕ → Block}

/-- The canonical rows of the chain. -/
def Db.canonicalChain (db : Db) (cfg : IndexerConfig) : Set BlockRow :=
  {r | db.CanonicalBlock cfg r}

/-- **The stored chain is linked.** -/
def LinkedChain (cfg : IndexerConfig) (db : Db) : Prop :=
  Linked BlockRow.number BlockRow.hash BlockRow.parentHash (db.canonicalChain cfg)

/-- The loop's expected parent is the hash of every canonical row below
the height it is at. -/
def TipMatches (cfg : IndexerConfig) (db : Db) (l : Locals) : Prop :=
  ∀ hash, l.lastBlockHash = some hash →
    ∀ r, db.CanonicalBlock cfg r → r.number + 1 = l.currentBlock → r.hash = hash

/-! ## The provider -/

/-- Blocks that name their predecessors. -/
def ParentLinked (final : ℕ → Block) : Prop :=
  ∀ n hash, (final n).hash = some hash → (final (n + 1)).parentHash = hash

/-- **What is assumed of the provider.** A block served is the block of
the height asked for, and at the depth of finality there is one block a
height ever has. -/
structure Answers.FromChain (a : Answers) (cfg : IndexerConfig) (final : ℕ → Block) : Prop where
  number_eq : ∀ n b, a.serve n = some b → b.block.number = some n
  final_eq : ∀ n b, a.serve n = some b → n + cfg.finalityConfirmations ≤ a.latestBlock →
    b.block = final n

/-- A run against such a provider. -/
def ProviderStep (cfg : IndexerConfig) (final : ℕ → Block) (_ : World) : Label → Prop
  | .pass a _ => a.FromChain cfg final
  | _ => True

/-! ## The condition -/

/-- **A pass that indexes keeps the chain linked.** -/
structure LinkedPass (cfg : IndexerConfig) (db : Db) (l : Locals) (a : Answers) : Prop where
  /-- A mismatch has a common ancestor, so no mismatched block is indexed. -/
  ancestor : ∀ b f, decidePass cfg db l a = .tail b f →
    validateParentHash b.block l.lastBlockHash = true
  /-- Where no parent is validated, the block extends what is stored. -/
  predecessor : l.lastBlockHash = none ∨ Backlog cfg l a →
    ∀ b, (decidePass cfg db l a).blocks.head? = some b →
      ∀ r, db.CanonicalBlock cfg r → r.number + 1 = l.currentBlock → b.block.parentHash = r.hash
  /-- A canonical row left at a height being indexed is the block indexed
  there, and one left right above extends the last of them. -/
  leftovers : ∀ r, db.CanonicalBlock cfg r → l.currentBlock ≤ r.number →
    (∃ b ∈ (decidePass cfg db l a).blocks, r.IsOf cfg b) ∨
    (r.number = l.currentBlock + (decidePass cfg db l a).blocks.length ∧
      (decidePass cfg db l a).blocks.getLast?.bind (·.block.hash) = some r.parentHash) ∨
    l.currentBlock + (decidePass cfg db l a).blocks.length < r.number

/-- **The condition on a step.** -/
def LinkedStep (ix : Indexer) (final : ℕ → Block) (w : World) : Label → Prop
  | .start =>
    let checkpoint := ix.startCheckpoint w.db
    TipMatches ix.config w.db ⟨checkpoint.nextBlock, checkpoint.lastBlockHash⟩
  | .pass a cut => a.FromChain ix.config final ∧
    ∀ l, w.locals = some l → (decidePass ix.config w.db l a).blocks ≠ [] → cut.Reaches 0 →
      LinkedPass ix.config w.db l a
  | _ => True

/-! ## One pass -/

/-- The rows of a list of blocks. -/
def rowsOf (cfg : IndexerConfig) (bs : List BlockData) : Set BlockRow :=
  {r | ∃ b ∈ bs, r.IsOf cfg b}

/-- A row of a decided block stands at the height its position gives. -/
theorem exists_getElem?_of_mem_rowsOf (hp : a.FromChain cfg final) {r : BlockRow}
    (h : r ∈ rowsOf cfg (decidePass cfg db l a).blocks) :
    ∃ i b, (decidePass cfg db l a).blocks[i]? = some b ∧ r.IsOf cfg b ∧
      r.number = l.currentBlock + i := by
  obtain ⟨b, hb, hof⟩ := h
  obtain ⟨i, hi⟩ := List.mem_iff_getElem?.mp hb
  obtain ⟨b', hserve, hblock, -, -⟩ := decidePass_getElem? hi
  have hn := hp.number_eq _ _ hserve
  rw [← hblock, hof.1.2.1, Option.some.injEq] at hn
  exact ⟨i, b, hi, hof, hn⟩

/-- Blocks a pass decides on together are linked: only a window has more
than one, and its blocks are final. -/
theorem linked_rowsOf (hfinal : ParentLinked final) (hp : a.FromChain cfg final) :
    Linked BlockRow.number BlockRow.hash BlockRow.parentHash
      (rowsOf cfg (decidePass cfg db l a).blocks) := by
  intro r hr r' hr' hh
  obtain ⟨i, b, hi, hof, hn⟩ := exists_getElem?_of_mem_rowsOf hp hr
  obtain ⟨j, b', hj, hof', hn'⟩ := exists_getElem?_of_mem_rowsOf hp hr'
  obtain rfl : j = i + 1 := by omega
  cases hd : decidePass cfg db l a with
  | wait => simp [hd, Decision.blocks] at hi
  | reorg e => simp [hd, Decision.blocks] at hi
  | tail c f => simp [hd, Decision.blocks] at hj
  | window bs =>
    have hblock : ∀ k c, (decidePass cfg db l a).blocks[k]? = some c →
        c.block = final (l.currentBlock + k) := fun k c hk => by
      obtain ⟨c', hserve, hc, -, -⟩ := decidePass_getElem? hk
      refine hc.trans (hp.final_eq _ _ hserve ?_)
      exact decidePass_window hd (by simpa [hd, Decision.blocks] using hk)
    have hhash : (final (l.currentBlock + i)).hash = some r.hash := by
      rw [← hblock i b hi]
      exact hof.1.2.2
    rw [hof'.2, hblock (i + 1) b' hj]
    exact hfinal _ _ hhash

/-- The first block of a pass extends what is stored below it. -/
theorem parentHash_eq_of_head (hok : LinkedPass cfg db l a) (htip : TipMatches cfg db l)
    {b : BlockData} (hb : (decidePass cfg db l a).blocks[0]? = some b) {r : BlockRow}
    (hr : db.CanonicalBlock cfg r) (hn : r.number + 1 = l.currentBlock) :
    b.block.parentHash = r.hash := by
  have hhead : (decidePass cfg db l a).blocks.head? = some b := by rw [List.head?_eq_getElem?, hb]
  cases hd : decidePass cfg db l a with
  | wait => simp [hd, Decision.blocks] at hb
  | reorg e => simp [hd, Decision.blocks] at hb
  | window bs => exact hok.predecessor (Or.inr (backlog_of_window hd)) b hhead r hr hn
  | tail c f =>
    obtain rfl : c = b := by simpa [hd, Decision.blocks] using hb
    cases hlast : l.lastBlockHash with
    | none => exact hok.predecessor (Or.inl hlast) c hhead r hr hn
    | some hash =>
      have hvalid := hok.ancestor c f hd
      rw [hlast] at hvalid
      have hparent : c.block.parentHash = hash := of_decide_eq_true hvalid
      exact hparent.trans (htip hash hlast r hr hn).symm

/-- **The step lemma for linkage.** What is stored and what the pass adds
are linked together. -/
theorem linked_union_rowsOf (hfinal : ParentLinked final) (hp : a.FromChain cfg final)
    (hok : LinkedPass cfg db l a) (htip : TipMatches cfg db l) (hlinked : LinkedChain cfg db) :
    Linked BlockRow.number BlockRow.hash BlockRow.parentHash
      (db.canonicalChain cfg ∪ rowsOf cfg (decidePass cfg db l a).blocks) := by
  have hrows : Linked BlockRow.number BlockRow.hash BlockRow.parentHash
      (rowsOf cfg (decidePass cfg db l a).blocks) := linked_rowsOf hfinal hp
  refine Linked.union hlinked hrows (fun r hr r' hr' hh => ?_) (fun r hr r' hr' hh => ?_)
  · obtain ⟨i, b, hi, hof, hn⟩ := exists_getElem?_of_mem_rowsOf hp hr'
    cases i with
    | zero =>
      rw [hof.2]
      exact parentHash_eq_of_head hok htip hi hr (by omega)
    | succ i =>
      -- the row below is at a height being indexed, so it is one of the blocks
      have hlt : i + 1 < (decidePass cfg db l a).blocks.length :=
        (List.getElem?_eq_some_iff.mp hi).1
      rcases hok.leftovers r hr (by omega) with hmem | ⟨hlen, -⟩ | hlen
      · exact hrows r hmem r' hr' hh
      · omega
      · omega
  · obtain ⟨i, b, hi, hof, hn⟩ := exists_getElem?_of_mem_rowsOf hp hr
    have hlt : i < (decidePass cfg db l a).blocks.length := (List.getElem?_eq_some_iff.mp hi).1
    rcases hok.leftovers r' hr' (by omega) with hmem | ⟨hlen, hlast⟩ | hlen
    · exact hrows r hr r' hmem hh
    · have hi' : i = (decidePass cfg db l a).blocks.length - 1 := by omega
      rw [List.getLast?_eq_getElem?, ← hi', hi, Option.bind_some, hof.1.2.2] at hlast
      exact (Option.some.inj hlast).symm
    · omega

/-! ## The effects of a pass -/

variable {ix : Indexer} {w w' : World} {cut : Cut}

/-- An effect makes canonical only rows of the blocks it writes. -/
theorem canonicalChain_perform {e : Effect} (h : ix.perform w e = some w') :
    w'.db.canonicalChain ix.config ⊆
      w.db.canonicalChain ix.config ∪ rowsOf ix.config e.persisted := by
  intro r hr
  have hpersist : ∀ {bs f db'}, persistBlockWindow ix.config w.db bs f true = some db' →
      db'.CanonicalBlock ix.config r →
      r ∈ w.db.canonicalChain ix.config ∪ rowsOf ix.config bs := fun hdb hr => by
    rcases mem_blocks_persistBlockWindow hdb hr.1.1 with hold | ⟨b, hb, hof, -⟩
    · exact Or.inl ⟨⟨hold, hr.1.2⟩, hr.2⟩
    · exact Or.inr ⟨b, hb, hof⟩
  cases e <;> simp only [Indexer.perform, Option.map_eq_some_iff, Option.some.injEq] at h
  case persistBlockData b f =>
    obtain ⟨db', hdb, rfl⟩ := h
    exact hpersist (persistBlockWindow_singleton.trans hdb) hr
  case persistBlockWindow bs =>
    obtain ⟨db', hdb, rfl⟩ := h
    exact hpersist hdb hr
  case markOrphaned s fromBlock toBlock =>
    subst h
    exact Or.inl (canonicalBlock_apply.mp hr).1
  all_goals
    subst h
    exact Or.inl hr

theorem canonicalChain_performAll {es : List Effect} :
    (ix.performAll w es).1.db.canonicalChain ix.config ⊆
      w.db.canonicalChain ix.config ∪ rowsOf ix.config (es.flatMap Effect.persisted) := by
  refine Indexer.performAll_induction (P := fun w' => w'.db.canonicalChain ix.config ⊆ _)
    (fun e he u u' hu hperform r hr => ?_) Set.subset_union_left
  rcases canonicalChain_perform hperform hr with hold | ⟨b, hb, hof⟩
  · exact hu hold
  · exact Or.inr ⟨b, List.mem_flatMap.mpr ⟨e, he, hb⟩, hof⟩

/-- **What a pass leaves canonical**: what was, and rows of the blocks it
decided on, if it got as far as writing them. -/
theorem canonicalChain_runPass {r : BlockRow}
    (hr : r ∈ (ix.runPass w l a cut).db.canonicalChain ix.config) :
    r ∈ w.db.canonicalChain ix.config ∨
      (r ∈ rowsOf ix.config (decidePass ix.config w.db l a).blocks ∧ cut.Reaches 0) := by
  rw [(Indexer.runPass_fields ix cut).1] at hr
  rcases canonicalChain_performAll hr with hold | ⟨b, hb, hof⟩
  · exact Or.inl hold
  · obtain ⟨e, he, hbe⟩ := List.mem_flatMap.mp hb
    exact Or.inr ⟨⟨b, Indexer.persisted_subset_blocks (Cut.mem_of_mem_performed he) hbe, hof⟩,
      Cut.reaches_zero_of_mem he⟩

/-- A pass that indexes ends above the last block it indexed. -/
theorem Decision.next_of_blocks {d : Decision} (h : d.blocks ≠ []) :
    d.next l = ⟨l.currentBlock + d.blocks.length, d.blocks.getLast?.bind (·.block.hash)⟩ := by
  cases d with
  | wait => exact absurd rfl h
  | reorg e => exact absurd rfl h
  | tail b f => rfl
  | window bs => rfl

/-! ## The invariant -/

/-- **The invariant**: the chain is linked, and a running loop expects
the stored tip. -/
structure LinkedWorld (cfg : IndexerConfig) (w : World) : Prop where
  linked : LinkedChain cfg w.db
  tip : ∀ l, w.locals = some l → TipMatches cfg w.db l

/-- A pass whose blocks stay unwritten keeps the invariant. -/
theorem linkedWorld_runPass_of_not (hw : LinkedWorld ix.config w) (hl : w.locals = some l)
    (hno : (decidePass ix.config w.db l a).blocks ≠ [] → ¬cut.Reaches 0) :
    LinkedWorld ix.config (ix.runPass w l a cut) := by
  have hold : ∀ r, r ∈ (ix.runPass w l a cut).db.canonicalChain ix.config →
      r ∈ w.db.canonicalChain ix.config := fun r hr => by
    rcases canonicalChain_runPass hr with hr | ⟨⟨b, hb, -⟩, hreach⟩
    · exact hr
    · exact absurd hreach (hno (List.ne_nil_of_mem hb))
  refine ⟨Linked.subset hw.linked hold, fun l' hl' hash hhash r hr hn => ?_⟩
  rcases Indexer.runPass_locals hl hl' with rfl | ⟨rfl, hnext, -⟩
  · exact hw.tip l' hl hash hhash r (hold r hr) hn
  · have hblocks : (decidePass ix.config w.db l a).blocks = [] := by
      by_contra h
      exact hno h trivial
    cases hd : decidePass ix.config w.db l a with
    | wait =>
      rw [hd] at hnext
      obtain rfl : l' = l := hnext
      exact hw.tip l' hl hash hhash r (hold r hr) hn
    | reorg e =>
      rw [hd] at hnext
      subst hnext
      exact absurd hhash (Option.some_ne_none hash).symm
    | tail b f => exact absurd (hd ▸ hblocks) (List.cons_ne_nil _ _)
    | window bs =>
      rw [hd] at hnext hblocks
      obtain rfl : bs = [] := hblocks
      subst hnext
      exact absurd hhash (Option.some_ne_none hash).symm

/-- A pass that writes its blocks keeps it when it is a `LinkedPass`. -/
theorem linkedWorld_runPass (hfinal : ParentLinked final) (hp : a.FromChain ix.config final)
    (hw : LinkedWorld ix.config w) (hl : w.locals = some l)
    (hne : (decidePass ix.config w.db l a).blocks ≠ [])
    (hok : LinkedPass ix.config w.db l a) : LinkedWorld ix.config (ix.runPass w l a cut) := by
  have hsub : ∀ r ∈ (ix.runPass w l a cut).db.canonicalChain ix.config,
      r ∈ w.db.canonicalChain ix.config ∪
        rowsOf ix.config (decidePass ix.config w.db l a).blocks := fun r hr =>
    (canonicalChain_runPass hr).imp id And.left
  refine ⟨Linked.subset (linked_union_rowsOf hfinal hp hok (hw.tip l hl) hw.linked) hsub,
    fun l' hl' hash hhash r hr hn => ?_⟩
  rcases Indexer.runPass_locals hl hl' with rfl | ⟨-, rfl, -⟩
  · rcases hsub r hr with hr | hr
    · exact hw.tip l' hl hash hhash r hr hn
    · obtain ⟨i, b, -, -, hi⟩ := exists_getElem?_of_mem_rowsOf hp hr
      omega
  · rw [Decision.next_of_blocks hne] at hhash hn
    -- the row right below is a row of the last block indexed
    have hrow : r ∈ rowsOf ix.config (decidePass ix.config w.db l a).blocks := by
      have hpos := List.length_pos_iff.mpr hne
      rcases hsub r hr with hr | hr
      · rcases hok.leftovers r hr (by simp only at hn; omega) with hmem | ⟨hlen, -⟩ | hlen
        · exact hmem
        · simp only at hn
          omega
        · simp only at hn
          omega
      · exact hr
    obtain ⟨i, b, hi, hof, hin⟩ := exists_getElem?_of_mem_rowsOf hp hrow
    have hlast : i = (decidePass ix.config w.db l a).blocks.length - 1 := by
      simp only at hn
      omega
    simp only [List.getLast?_eq_getElem?, ← hlast, hi, Option.bind_some, hof.1.2.2] at hhash
    exact Option.some.inj hhash

/-- **The step lemma.** -/
theorem linkedWorld_step (hfinal : ParentLinked final) {i : Label}
    (hw : LinkedWorld ix.config w) (hC : LinkedStep ix final w i)
    (hs : ix.step w i = some w') : LinkedWorld ix.config w' := by
  cases i with
  | start =>
    simp only [Indexer.step] at hs
    split at hs
    · obtain rfl := Option.some.inj hs
      exact ⟨hw.linked, fun l hl => Option.some.inj hl ▸ hC⟩
    · simp at hs
  | pass a cut =>
    obtain ⟨l, hl, rfl⟩ := Option.map_eq_some_iff.mp hs
    by_cases h : (decidePass ix.config w.db l a).blocks ≠ [] ∧ cut.Reaches 0
    · exact linkedWorld_runPass hfinal hC.1 hw hl h.1 (hC.2 l hl h.1 h.2)
    · exact linkedWorld_runPass_of_not hw hl fun hne hreach => h ⟨hne, hreach⟩
  | transfer t =>
    obtain rfl := Option.some.inj hs
    exact ⟨hw.linked, hw.tip⟩
  | reconcile =>
    obtain rfl := Option.some.inj hs
    exact ⟨Linked.subset hw.linked fun _ => canonicalBlock_runReorgReconciliation,
      fun l hl hash hhash r hr =>
        hw.tip l hl hash hhash r (canonicalBlock_runReorgReconciliation hr)⟩

/-- **The stored chain is linked in every state such a run reaches.** -/
theorem linkedChain_of_reaches (hfinal : ParentLinked final)
    (h : ix.live.Reaches (LinkedStep ix final) w) : LinkedChain ix.config w.db := by
  have hinv : LinkedWorld ix.config w := by
    refine h.invariant (fun s hs => ?_) fun s i s' hI hC hstep =>
      linkedWorld_step hfinal hI hC hstep
    obtain rfl : s = World.empty := hs
    exact ⟨fun r hr => absurd hr.1.1 (Table.notMem_empty r), fun l hl => by simp [World.empty] at hl⟩
  exact hinv.linked

/-! ## Runs -/

/-- Heights count the blocks of the chain `FromChain` compares with. -/
def countedChain (n : ℕ) : Block := ⟨some n, some ⟨n⟩, ⟨n - 1⟩, 0⟩

theorem parentLinked_countedChain : ParentLinked countedChain := by
  rintro n hash h
  obtain rfl : (⟨n⟩ : Hash) = hash := Option.some.inj h
  rfl

/-- Below the depth of finality any list of blocks will do. -/
theorem fromChain_ofBlocks {latestBlock : ℕ} {bs : List BlockData}
    (h : latestBlock < cfg.finalityConfirmations) :
    (Answers.ofBlocks latestBlock bs).FromChain cfg final where
  number_eq _ _ hb := Answers.number_of_ofBlocks hb
  final_eq n b _ hn := by
    have : n + cfg.finalityConfirmations ≤ latestBlock := hn
    omega

/-- Two blocks indexed one after the other, the second on the first. -/
def twoBlocks : List Label :=
  [.start, .pass (.ofBlocks 5 [.bare 5 5 4]) .completes,
    .pass (.ofBlocks 6 [.bare 6 6 5]) .completes]

/-- Such a run meets the condition, so what it stores is linked. -/
theorem linkedChain_of_twoBlocks :
    ∃ w, Indexer.bare.live.exec World.empty twoBlocks = some w ∧
      w.db.blocks.rows = [⟨1, 5, ⟨5⟩, ⟨4⟩, 0, .pending, true⟩, ⟨1, 6, ⟨6⟩, ⟨5⟩, 0, .pending, true⟩] ∧
      LinkedChain Indexer.bare.config w.db := by
  let C := LinkedStep Indexer.bare countedChain
  let w₁ := Indexer.bare.startProcess World.empty
  let w₂ := Indexer.bare.runPass w₁ ⟨5, none⟩ (.ofBlocks 5 [.bare 5 5 4]) .completes
  let w₃ := Indexer.bare.runPass w₂ ⟨6, some ⟨5⟩⟩ (.ofBlocks 6 [.bare 6 6 5]) .completes
  have h₁ : Indexer.bare.live.Reaches C w₁ :=
    .step (i := .start) (.init rfl) (fun hash hh => absurd hh (Option.some_ne_none hash).symm) rfl
  have h₂ : Indexer.bare.live.Reaches C w₂ := by
    refine h₁.step (i := .pass (.ofBlocks 5 [.bare 5 5 4]) .completes)
      ⟨fromChain_ofBlocks (by decide), fun l hl _ _ => ?_⟩ rfl
    obtain rfl := Option.some.inj hl
    exact ⟨fun _ _ _ => rfl, fun _ _ _ r hr => absurd hr.1.1 (Table.notMem_empty r),
      fun r hr => absurd hr.1.1 (Table.notMem_empty r)⟩
  have h₃ : Indexer.bare.live.Reaches C w₃ := by
    refine h₂.step (i := .pass (.ofBlocks 6 [.bare 6 6 5]) .completes)
      ⟨fromChain_ofBlocks (by decide), fun l hl _ _ => ?_⟩ rfl
    obtain rfl := Option.some.inj hl
    refine ⟨fun b f hd => ?_, fun hnone => absurd hnone (by decide), fun r hr hn => ?_⟩
    · obtain ⟨rfl, -⟩ := Decision.tail.inj hd
      rfl
    · obtain rfl := List.mem_singleton.mp hr.1.1
      exact absurd hn (by decide)
  exact ⟨w₃, rfl, rfl, linkedChain_of_reaches parentLinked_countedChain h₃⟩

/-- The block at 5 is replaced after it is indexed, and the block served
at 6 extends the one that replaced it. Height 5 is where indexing began,
so the mismatch has no ancestor. -/
def forkAtStart : List Label :=
  [.start, .pass (.ofBlocks 5 [.bare 5 5 4]) .completes,
    .pass (.ofBlocks 6 [.bare 5 50 4, .bare 6 60 50]) .completes]

/-- **The chain can come apart**: the mismatched block is stored on top
of the block it does not extend. -/
theorem not_linkedChain_of_provider :
    ¬∀ (ix : Indexer) (final : ℕ → Block), ParentLinked final →
      ∀ w, ix.live.Reaches (ProviderStep ix.config final) w → LinkedChain ix.config w.db := by
  intro h
  have hrows : (Indexer.bare.live.exec World.empty forkAtStart).map (·.db.blocks.rows) =
      some [⟨1, 5, ⟨5⟩, ⟨4⟩, 0, .pending, true⟩, ⟨1, 6, ⟨60⟩, ⟨50⟩, 0, .pending, true⟩] := by
    decide
  obtain ⟨w, hw, hrows⟩ := Option.map_eq_some_iff.mp hrows
  have hreach : Indexer.bare.live.Reaches (ProviderStep Indexer.bare.config countedChain) w := by
    refine Machine.Reaches.exec (.init rfl) (Machine.meets_of_forall (fun i hi s => ?_) _) hw
    simp only [forkAtStart, List.mem_cons, List.not_mem_nil, or_false] at hi
    rcases hi with rfl | rfl | rfl
    · trivial
    · exact fromChain_ofBlocks (by decide)
    · exact fromChain_ofBlocks (by decide)
  have hmem : ∀ r ∈ w.db.blocks.rows, r.chainId = 1 → r.canonical = true →
      r ∈ w.db.canonicalChain Indexer.bare.config := fun r hr hc hcan => ⟨⟨hr, hcan⟩, hc⟩
  have hlink := h Indexer.bare countedChain parentLinked_countedChain w hreach
    _ (hmem ⟨1, 5, ⟨5⟩, ⟨4⟩, 0, .pending, true⟩ (by simp [hrows]) rfl rfl)
    _ (hmem ⟨1, 6, ⟨60⟩, ⟨50⟩, 0, .pending, true⟩ (by simp [hrows]) rfl rfl) rfl
  exact absurd hlink (by decide)

end HoodSentry
