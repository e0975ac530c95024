import HoodSentry.Indexer.Helpers.Pass
/-!
# Finishing an interrupted reorg

A reorg whose handling was cut stays unresolved, and reconciliation later
marks its whole height range. `runReorgReconciliation_facts` says exactly
which facts that takes; it is safe for the current fork exactly when none
of the fork's facts has come to stand in an unresolved range.
-/

namespace HoodSentry

variable {cfg : IndexerConfig} {db : Db}

/-! ## Facts -/

/-- The tables of the facts a reorg marks. -/
inductive FactTable
  | blocks | transactions | logs | tokenTransfers
deriving DecidableEq

/-- What marking reads and writes of a fact. -/
structure Fact where
  chainId : ℕ
  blockNumber : ℕ
  blockHash : Hash
  canonical : Bool
deriving DecidableEq

/-- The facts of a table, in the order of its rows. -/
def Db.facts (db : Db) : FactTable → List Fact
  | .blocks => db.blocks.rows.map fun r => ⟨r.chainId, r.number, r.hash, r.canonical⟩
  | .transactions =>
    db.transactions.rows.map fun r => ⟨r.chainId, r.blockNumber, r.blockHash, r.canonical⟩
  | .logs => db.logs.rows.map fun r => ⟨r.chainId, r.blockNumber, r.blockHash, r.canonical⟩
  | .tokenTransfers =>
    db.tokenTransfers.rows.map fun r => ⟨r.chainId, r.blockNumber, r.blockHash, r.canonical⟩

/-- The statement that marks a table. -/
def FactTable.statement : FactTable → ReorgStatement
  | .blocks => .markBlocksOrphaned
  | .transactions => .markTransactionsOrphaned
  | .logs => .markLogsOrphaned
  | .tokenTransfers => .markTokenTransfersOrphaned

/-- A fact lies in the range of a reorg. -/
def Fact.inRangeOf (cfg : IndexerConfig) (f : Fact) (e : ReorgEvent) : Bool :=
  inRange cfg e.fromBlock e.toBlock f.chainId f.blockNumber

/-- A fact once the ranges of some reorgs are marked. -/
def Fact.marked (cfg : IndexerConfig) (es : List ReorgEvent) (f : Fact) : Fact :=
  { f with canonical := f.canonical && !es.any (f.inRangeOf cfg) }

theorem Fact.marked_nil : Fact.marked cfg [] = id := by
  funext f
  simp [Fact.marked]

theorem Fact.marked_cons (e : ReorgEvent) (es : List ReorgEvent) (f : Fact) :
    f.marked cfg (e :: es) = (f.marked cfg [e]).marked cfg es := by
  have hrange : (f.marked cfg [e]).inRangeOf cfg = f.inRangeOf cfg := rfl
  simp only [Fact.marked, List.any_cons, List.any_nil, Bool.or_false, Bool.not_or, Bool.and_assoc]
  rw [← hrange]
  rfl

/-- A marked fact is canonical when it was and no range has it. -/
theorem Fact.canonical_marked {es : List ReorgEvent} {f : Fact} :
    (f.marked cfg es).canonical = true ↔
      f.canonical = true ∧ ∀ e ∈ es, f.inRangeOf cfg e = false := by
  simp [Fact.marked]

/-! ## What reconciliation does -/

/-- **A statement marks its own table.** -/
theorem facts_apply {s : ReorgStatement} {e : ReorgEvent} {t : FactTable} :
    (s.apply cfg e.fromBlock e.toBlock db).facts t =
      if s = t.statement then (db.facts t).map (Fact.marked cfg [e]) else db.facts t := by
  have hmark : ∀ (chainId number : ℕ) (hash : Hash) (canonical : Bool),
      Fact.marked cfg [e] ⟨chainId, number, hash, canonical⟩ =
        if inRange cfg e.fromBlock e.toBlock chainId number && canonical then
          ⟨chainId, number, hash, false⟩
        else ⟨chainId, number, hash, canonical⟩ := by
    intro chainId number hash canonical
    simp only [Fact.marked, Fact.inRangeOf, List.any_cons, List.any_nil, Bool.or_false]
    cases canonical <;> cases inRange cfg e.fromBlock e.toBlock chainId number <;> rfl
  cases t <;> cases s <;>
    simp only [FactTable.statement, reduceCtorEq, if_false, if_true, ReorgStatement.apply,
      Db.facts, Table.updateWhere, List.map_map]
  all_goals
    refine List.map_congr_left fun r _ => ?_
    simp only [Function.comp_apply, hmark]
    split <;> rfl

theorem facts_resolveReorgEvent {id : ℕ} {t : FactTable} :
    (resolveReorgEvent db id).facts t = db.facts t := by
  cases t <;> rfl

/-- Handling a reorg marks its range in every table, once. -/
theorem facts_handleReorg {e : ReorgEvent} {t : FactTable} :
    (handleReorg cfg e db).facts t = (db.facts t).map (Fact.marked cfg [e]) := by
  rw [handleReorg, facts_resolveReorgEvent]
  cases t <;>
    simp only [reorgStatements, List.foldl_cons, List.foldl_nil, facts_apply,
      FactTable.statement, reduceCtorEq, if_false, if_true]

/-- **What reconciliation takes**: the ranges of the unresolved reorgs,
in every table. -/
theorem runReorgReconciliation_facts {t : FactTable} :
    (runReorgReconciliation cfg db).facts t =
      (db.facts t).map (Fact.marked cfg (getUnresolvedReorgs cfg db)) := by
  unfold runReorgReconciliation
  generalize getUnresolvedReorgs cfg db = es
  induction es generalizing db with
  | nil => rw [Fact.marked_nil, List.map_id, List.foldl_nil]
  | cons e es ih =>
    rw [List.foldl_cons, ih, facts_handleReorg, List.map_map]
    exact List.map_congr_left fun f _ => (Fact.marked_cons e es f).symm

/-- Marking leaves the record of reorgs alone. -/
theorem reorgEvents_foldl_apply {ss : List ReorgStatement} {fromBlock toBlock : ℕ} :
    (ss.foldl (fun db s => s.apply cfg fromBlock toBlock db) db).reorgEvents =
      db.reorgEvents := by
  induction ss generalizing db with
  | nil => rfl
  | cons s ss ih =>
    rw [List.foldl_cons, ih]
    cases s <;> rfl

theorem reorgEvents_foldl_handleReorg {es : List ReorgEvent} :
    (es.foldl (fun db e => handleReorg cfg e db) db).reorgEvents =
      db.reorgEvents.map fun x => if x.id ∈ es.map (·.id) then { x with resolved := true } else x := by
  induction es generalizing db with
  | nil => simp
  | cons e es ih =>
    rw [List.foldl_cons, ih, handleReorg, resolveReorgEvent, reorgEvents_foldl_apply, List.map_map]
    refine List.map_congr_left fun x _ => ?_
    by_cases hx : x.id = e.id
    · simp [hx]
    · simp [hx]

/-- **Reconciliation leaves nothing unresolved.** -/
theorem getUnresolvedReorgs_runReorgReconciliation :
    getUnresolvedReorgs cfg (runReorgReconciliation cfg db) = [] := by
  rw [getUnresolvedReorgs, List.filter_eq_nil_iff]
  intro x hx
  rw [runReorgReconciliation, reorgEvents_foldl_handleReorg, List.mem_map] at hx
  obtain ⟨y, hy, rfl⟩ := hx
  by_cases hid : y.id ∈ (getUnresolvedReorgs cfg db).map (·.id)
  · rw [if_pos hid]
    simp
  · rw [if_neg hid]
    intro hopen
    exact hid (List.mem_map_of_mem (List.mem_filter.mpr ⟨hy, hopen⟩))

/-! ## Safety -/

/-- A fact of the current fork. -/
def Fact.OnFork (f : Fact) (cfg : IndexerConfig) (fork : ℕ → Option Hash) : Prop :=
  f.chainId = cfg.chainId ∧ fork f.blockNumber = some f.blockHash

/-- **Reconciliation finishes the interrupted reorgs safely**: it takes
no canonical fact of the fork, it leaves no other fact of an unresolved
range canonical, and doing it twice is doing it once. -/
structure SafelyReconciled (cfg : IndexerConfig) (fork : ℕ → Option Hash) (db : Db) : Prop where
  kept : ∀ t (i : ℕ) (f : Fact), (db.facts t)[i]? = some f → f.OnFork cfg fork → f.canonical = true →
    ((runReorgReconciliation cfg db).facts t)[i]? = some f
  orphaned : ∀ e ∈ getUnresolvedReorgs cfg db, ∀ t, ∀ f ∈ (runReorgReconciliation cfg db).facts t,
    f.inRangeOf cfg e = true → ¬f.OnFork cfg fork → f.canonical = false
  idempotent : runReorgReconciliation cfg (runReorgReconciliation cfg db) =
    runReorgReconciliation cfg db

/-- **The condition**: no unresolved range has been filled again by the
fork. -/
def NotRefilled (cfg : IndexerConfig) (fork : ℕ → Option Hash) (db : Db) : Prop :=
  ∀ e ∈ getUnresolvedReorgs cfg db, ∀ t, ∀ f ∈ db.facts t,
    f.OnFork cfg fork → f.canonical = true → f.inRangeOf cfg e = false

variable {ix : Indexer} {w : World} {fork : ℕ → Option Hash}

/-- **Reconciling is safe exactly when no range was filled again**, in
every state the live indexer reaches, at whatever point its reorgs were
cut. -/
theorem safelyReconciled_iff (_ : ix.live.Reachable w) :
    SafelyReconciled ix.config fork w.db ↔ NotRefilled ix.config fork w.db := by
  constructor
  · intro h e he t f hf hfork hcan
    obtain ⟨i, hi⟩ := List.mem_iff_getElem?.mp hf
    have hkept := h.kept t i f hi hfork hcan
    rw [runReorgReconciliation_facts, List.getElem?_map, hi, Option.map_some,
      Option.some.injEq] at hkept
    rw [← hkept] at hcan
    exact (Fact.canonical_marked.mp hcan).2 e he
  · intro h
    refine ⟨fun t i f hi hfork hcan => ?_, fun e he t f hf hrange _ => ?_, ?_⟩
    · have hmarked : f.marked ix.config (getUnresolvedReorgs ix.config w.db) = f := by
        have hcan' := Fact.canonical_marked.mpr
          ⟨hcan, fun e he => h e he t f (List.mem_of_getElem? hi) hfork hcan⟩
        rw [← hcan] at hcan'
        exact congrArg (fun c => { f with canonical := c }) hcan'
      rw [runReorgReconciliation_facts, List.getElem?_map, hi, Option.map_some, hmarked]
    · rw [runReorgReconciliation_facts, List.mem_map] at hf
      obtain ⟨g, -, rfl⟩ := hf
      rw [Bool.eq_false_iff]
      intro hcan
      have hout : g.inRangeOf ix.config e = false := (Fact.canonical_marked.mp hcan).2 e he
      exact absurd (hout.symm.trans hrange) Bool.false_ne_true
    · rw [runReorgReconciliation, getUnresolvedReorgs_runReorgReconciliation, List.foldl_nil]

/-! ## Runs -/

/-- The hashes a provider serves. -/
def Answers.hashes (a : Answers) (n : ℕ) : Option Hash := (a.serve n).bind (·.block.hash)

/-- Live indexing on the fork a pass was served. -/
def Label.OnForkOf (a : Answers) : Label → Prop
  | .start => True
  | .pass b _ => b.serve = a.serve
  | _ => False

/-- The fork of the runs below: heights 6 and 7 replaced. -/
def forkedAnswers : Answers := .ofBlocks 7 [.bare 5 5 4, .bare 6 60 5, .bare 7 70 60]

/-- Heights 5 and 6 of the fork that is replaced. -/
def indexedFork : List Label :=
  [.start, .pass (.ofBlocks 5 [.bare 5 5 4]) .completes,
    .pass (.ofBlocks 6 [.bare 5 5 4, .bare 6 6 5]) .completes]

/-- The process dies with the blocks marked and the reorg open.
Reconciled right away, the reorg is finished safely. -/
theorem safelyReconciled_of_interruptedReorg :
    ∃ w, Indexer.bare.live.exec World.empty
        (indexedFork ++ [.pass forkedAnswers (.crashes 2)]) = some w ∧
      (getUnresolvedReorgs Indexer.bare.config w.db).length = 1 ∧
      SafelyReconciled Indexer.bare.config forkedAnswers.hashes w.db := by
  let w := (Indexer.bare.live.exec World.empty
    (indexedFork ++ [.pass forkedAnswers (.crashes 2)])).get rfl
  have hw : Indexer.bare.live.exec World.empty
    (indexedFork ++ [.pass forkedAnswers (.crashes 2)]) = some w := rfl
  refine ⟨w, hw, rfl, (safelyReconciled_iff (Machine.reachable_of_exec rfl hw)).mpr ?_⟩
  intro e he t f hf hfork hcan
  obtain rfl := List.mem_singleton.mp he
  cases t with
  | blocks =>
    rcases List.mem_pair.mp hf with rfl | rfl
    · rfl
    · exact absurd hcan Bool.false_ne_true
  | _ => exact absurd hf List.not_mem_nil

/-- **Reconciliation can take the current fork's blocks**: restarted, the
loop handles the reorg again and indexes the fork's block at 6, which the
open reorg's range then takes. -/
theorem not_safelyReconciled_of_reindexing :
    ¬∀ (ix : Indexer) (before after : List Label) (a : Answers) (k : ℕ) (w : World),
      (∀ i ∈ after, i.OnForkOf a) →
      ix.live.exec World.empty (before ++ .pass a (.crashes k) :: after) = some w →
      SafelyReconciled ix.config a.hashes w.db := by
  intro h
  let after : List Label :=
    [.start, .pass forkedAnswers .completes, .pass forkedAnswers .completes]
  have hfacts : (Indexer.bare.live.exec World.empty
      (indexedFork ++ .pass forkedAnswers (.crashes 2) :: after)).map (fun w =>
        ((w.db.facts .blocks)[2]?,
          ((runReorgReconciliation Indexer.bare.config w.db).facts .blocks)[2]?)) =
      some (some ⟨1, 6, ⟨60⟩, true⟩, some ⟨1, 6, ⟨60⟩, false⟩) := by decide
  obtain ⟨w, hw, hvalues⟩ := Option.map_eq_some_iff.mp hfacts
  obtain ⟨hbefore, hafter⟩ := Prod.mk.inj hvalues
  have hfork : ∀ i ∈ after, i.OnForkOf forkedAnswers := by
    intro i hi
    simp only [after, List.mem_cons, List.not_mem_nil, or_false] at hi
    rcases hi with rfl | rfl | rfl
    · trivial
    all_goals rfl
  have hkept := (h Indexer.bare indexedFork after forkedAnswers 2 w hfork hw).kept .blocks 2 _
    hbefore ⟨rfl, by decide⟩ rfl
  rw [hafter] at hkept
  exact absurd hkept (by decide)

end HoodSentry
