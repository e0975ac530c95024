import HoodSentry.Common.Lists
import HoodSentry.Indexer.Helpers.Facts
import HoodSentry.Indexer.Model.Live
/-!
# What a pass does

Inversion lemmas for one pass of the live loop: which blocks it can
decide to index, which prefix of its effects it performs, and what the
effects it performs can change.
-/

namespace HoodSentry

variable {cfg : IndexerConfig} {db : Db} {l l' : Locals} {a : Answers} {b : BlockData}

/-! ## The blocks of a decision -/

/-- The blocks a pass decides to index. -/
def Decision.blocks : Decision → List BlockData
  | .wait | .reorg _ => []
  | .tail b _ => [b]
  | .window bs => bs

theorem fetchBlock_eq_some {serve : ℕ → Option BlockData} {height : ℕ}
    (h : fetchBlock serve height = some (some b)) :
    serve height = some b ∧ b.block.number.isSome ∧ b.block.hash.isSome := by
  unfold fetchBlock at h
  split at h
  · simp at h
  · rename_i b' hb'
    split at h
    · rename_i hsome
      obtain rfl : b' = b := by simpa using h
      exact ⟨hb', by simpa using hsome⟩
    · simp at h

theorem untilHole_getElem? {xs : List (Option BlockData)} {i : ℕ}
    (h : (untilHole xs)[i]? = some b) : xs[i]? = some (some b) := by
  induction xs generalizing i with
  | nil => simp [untilHole] at h
  | cons x xs ih =>
    cases x with
    | none => simp [untilHole] at h
    | some c =>
      cases i with
      | zero => simpa [untilHole] using h
      | succ i => exact ih (by simpa [untilHole] using h)

theorem fetchLogWindow_getElem? {serve : ℕ → Option BlockData} {logs : List Log}
    {heights : List ℕ} {bs : List BlockData} (h : fetchLogWindow serve logs heights = some bs)
    {i : ℕ} (hb : bs[i]? = some b) :
    ∃ height b', heights[i]? = some height ∧ fetchBlock serve height = some (some b') ∧
      b.block = b'.block := by
  induction heights generalizing bs i with
  | nil =>
    obtain rfl : [] = bs := by simpa [fetchLogWindow] using h
    simp at hb
  | cons height heights ih =>
    unfold fetchLogWindow at h
    split at h
    · simp at h
    · obtain rfl : [] = bs := by simpa using h
      simp at hb
    · rename_i b' hb'
      simp only [Option.bind_eq_bind, Option.bind_eq_some_iff, Option.pure_def,
        Option.some.injEq] at h
      obtain ⟨rest, hrest, rfl⟩ := h
      cases i with
      | zero =>
        simp only [List.getElem?_cons_zero, Option.some.injEq] at hb
        exact ⟨height, b', rfl, hb', hb ▸ rfl⟩
      | succ i => exact ih hrest (by simpa using hb)

/-- The `i`-th block of a window is the header served `i` heights on, and
no window reaches above the safe ceiling. -/
theorem fetchWindow_getElem? {currentBlock i : ℕ} {bs : List BlockData}
    (h : fetchWindow cfg a currentBlock = some bs) (hb : bs[i]? = some b)
    (hc : currentBlock + cfg.finalityConfirmations ≤ a.latestBlock) :
    (∃ b', fetchBlock a.serve (currentBlock + i) = some (some b') ∧ b.block = b'.block) ∧
      currentBlock + i + cfg.finalityConfirmations ≤ a.latestBlock := by
  have key : ∃ height b', (windowHeights cfg a.latestBlock currentBlock)[i]? = some height ∧
      fetchBlock a.serve height = some (some b') ∧ b.block = b'.block := by
    unfold fetchWindow at h
    split at h
    · exact fetchLogWindow_getElem? h hb
    · obtain ⟨results, hresults, rfl⟩ := Option.map_eq_some_iff.mp h
      obtain ⟨height, hh, hf⟩ := getElem?_of_mapM_eq_some hresults (untilHole_getElem? hb)
      exact ⟨height, b, hh, hf, rfl⟩
  obtain ⟨height, b', hheight, hfetch, hblock⟩ := key
  unfold windowHeights at hheight
  obtain ⟨hlt, hheight⟩ := List.getElem?_eq_some_iff.mp hheight
  rw [List.length_range'] at hlt
  rw [List.getElem_range', Nat.one_mul] at hheight
  exact ⟨⟨b', hheight ▸ hfetch, hblock⟩, by omega⟩

/-- **Blocks decided on are blocks served.** The `i`-th one is the header
served `i` heights above the loop's. -/
theorem decidePass_getElem? {i : ℕ} (h : (decidePass cfg db l a).blocks[i]? = some b) :
    ∃ b', a.serve (l.currentBlock + i) = some b' ∧ b.block = b'.block ∧
      b.block.number.isSome ∧ b.block.hash.isSome := by
  have key : ∃ b', fetchBlock a.serve (l.currentBlock + i) = some (some b') ∧
      b.block = b'.block := by
    unfold decidePass at h
    split at h
    · simp [Decision.blocks] at h
    · split at h
      · rename_i hback
        split at h
        · simp [Decision.blocks] at h
        · simp [Decision.blocks] at h
        · rename_i hbs
          exact (fetchWindow_getElem? hbs h hback).1
      · unfold decideTail at h
        split at h
        · simp [Decision.blocks] at h
        · simp [Decision.blocks] at h
        · rename_i b' hb'
          have htail : ∀ f : FinalityState, (Decision.tail b' f).blocks[i]? = some b →
              i = 0 ∧ b' = b := fun f hf => by
            cases i <;> simp_all [Decision.blocks]
          have hb0 : i = 0 ∧ b' = b := by
            split at h
            · exact htail _ h
            · split at h
              · simp [Decision.blocks] at h
              · exact htail _ h
              · simp [Decision.blocks] at h
          obtain ⟨rfl, rfl⟩ := hb0
          exact ⟨b', hb', rfl⟩
  obtain ⟨b', hfetch, hblock⟩ := key
  obtain ⟨hserve, hn, hh⟩ := fetchBlock_eq_some hfetch
  exact ⟨b', hserve, hblock, hblock ▸ hn, hblock ▸ hh⟩

theorem backlog_of_window {bs : List BlockData} (h : decidePass cfg db l a = .window bs) :
    Backlog cfg l a := by
  by_contra hb
  unfold decidePass decideTail at h
  simp only [if_neg hb] at h
  grind

/-- A window's blocks are all finalized. -/
theorem decidePass_window {bs : List BlockData} (h : decidePass cfg db l a = .window bs)
    {i : ℕ} (hb : bs[i]? = some b) :
    l.currentBlock + i + cfg.finalityConfirmations ≤ a.latestBlock := by
  unfold decidePass decideTail at h
  split at h
  · simp at h
  · split at h
    · rename_i hback
      split at h
      · simp at h
      · simp at h
      · rename_i hbs
        obtain rfl := Decision.window.inj h
        exact (fetchWindow_getElem? hbs hb hback).2
    · grind

/-- The block of a tail step is the one served at the loop's height. -/
theorem decidePass_tail {f : FinalityState} (h : decidePass cfg db l a = .tail b f) :
    a.serve l.currentBlock = some b ∧ b.block.number.isSome ∧ b.block.hash.isSome := by
  unfold decidePass at h
  split at h
  · simp at h
  · split at h
    · split at h <;> simp at h
    · unfold decideTail at h
      split at h
      · simp at h
      · simp at h
      · rename_i c hc
        have hcb : c = b := by grind
        exact hcb ▸ fetchBlock_eq_some hc

/-- The ancestor found lies at or below where the search starts, and
above height 0. -/
theorem findCommonAncestor_mem {serve : ℕ → Option BlockData} {start ancestor : ℕ} {hash : Hash}
    (h : findCommonAncestor cfg db serve start = some (some (ancestor, hash))) :
    0 < ancestor ∧ ancestor ≤ start := by
  induction start with
  | zero => simp [findCommonAncestor] at h
  | succ n ih =>
    have hdown : findCommonAncestor cfg db serve n = some (some (ancestor, hash)) →
        0 < ancestor ∧ ancestor ≤ n + 1 := fun h => ⟨(ih h).1, Nat.le_succ_of_le (ih h).2⟩
    unfold findCommonAncestor at h
    split at h
    · exact hdown h
    · split at h
      · simp at h
      · exact hdown h
      · split at h
        · simp only [Option.some.injEq, Prod.mk.injEq] at h
          omega
        · exact hdown h

/-- **A reorg orphans from above the ancestor to below the loop.** -/
theorem decidePass_reorg {e : DetectedReorg} (h : decidePass cfg db l a = .reorg e) :
    e.fromBlock = e.commonAncestorBlock + 1 ∧ e.toBlock = l.currentBlock - 1 ∧
      0 < e.commonAncestorBlock ∧ e.commonAncestorBlock ≤ l.currentBlock - 1 := by
  have hdetect : ∃ expected actual,
      detectReorg cfg db a.serve l.currentBlock expected actual = some (some e) := by
    unfold decidePass decideTail at h
    grind
  obtain ⟨expected, actual, hdetect⟩ := hdetect
  unfold detectReorg at hdetect
  split at hdetect
  · simp at hdetect
  · split at hdetect
    · simp at hdetect
    · split at hdetect
      · simp at hdetect
      · simp at hdetect
      · rename_i hfind
        obtain rfl := Option.some.inj (Option.some.inj hdetect)
        exact ⟨rfl, rfl, findCommonAncestor_mem hfind⟩

/-! ## The effects performed -/

/-- The blocks an effect writes. -/
def Effect.persisted : Effect → List BlockData
  | .persistBlockData b _ => [b]
  | .persistBlockWindow bs => bs
  | _ => []

/-- The blocks an effect moves the checkpoint past. -/
def Effect.passed : Effect → List BlockData
  | .createOrUpdateCheckpoint _ passed => passed
  | _ => []

/-- An effect that hands a log or jobs on, and writes no table. -/
def Effect.handsOn : Effect → Bool
  | .handleLog _ _ | .publish _ | .publishMany _ => true
  | _ => false

theorem Effect.persisted_of_handsOn {e : Effect} (h : e.handsOn = true) : e.persisted = [] := by
  cases e with
  | handleLog | publish | publishMany => rfl
  | _ => exact absurd h Bool.false_ne_true

theorem Effect.passed_of_handsOn {e : Effect} (h : e.handsOn = true) : e.passed = [] := by
  cases e with
  | handleLog | publish | publishMany => rfl
  | _ => exact absurd h Bool.false_ne_true

/-- The effects a pass gets to. -/
def Cut.performed (es : List Effect) : Cut → List Effect
  | .completes => es
  | .throws k | .crashes k => es.take k

/-- The pass gets past the effect at a position. -/
def Cut.Reaches (i : ℕ) : Cut → Prop
  | .completes => True
  | .throws k | .crashes k => i < k

instance (i : ℕ) (cut : Cut) : Decidable (cut.Reaches i) :=
  match cut with
  | .completes => isTrue trivial
  | .throws _ | .crashes _ => Nat.decLt _ _

/-- A cut takes a prefix, and gets past whatever the prefix holds. -/
theorem Cut.exists_performed_eq_take (cut : Cut) (es : List Effect) :
    ∃ k, cut.performed es = es.take k ∧ ∀ i < k, cut.Reaches i := by
  cases cut with
  | completes => exact ⟨es.length, List.take_length.symm, fun _ _ => trivial⟩
  | throws k => exact ⟨k, rfl, fun _ h => h⟩
  | crashes k => exact ⟨k, rfl, fun _ h => h⟩

theorem Cut.mem_of_mem_performed {cut : Cut} {es : List Effect} {e : Effect}
    (h : e ∈ cut.performed es) : e ∈ es := by
  obtain ⟨k, hk, -⟩ := cut.exists_performed_eq_take es
  exact List.mem_of_mem_take (hk ▸ h)

/-- What stands at or before a position the pass gets past is performed. -/
theorem Cut.mem_performed {cut : Cut} {es : List Effect} {e : Effect} {i j : ℕ}
    (h : cut.Reaches i) (hj : es[j]? = some e) (hle : j ≤ i) : e ∈ cut.performed es := by
  have htake : ∀ k, i < k → e ∈ es.take k := fun k hk => by
    have hget : (es.take k)[j]? = some e := by rw [List.getElem?_take_of_lt (by omega), hj]
    exact List.mem_of_getElem? hget
  cases cut with
  | completes => exact List.mem_of_getElem? hj
  | throws k => exact htake k h
  | crashes k => exact htake k h

theorem Cut.reaches_zero_of_mem {cut : Cut} {es : List Effect} {e : Effect}
    (h : e ∈ cut.performed es) : cut.Reaches 0 := by
  obtain ⟨k, hk, hreach⟩ := cut.exists_performed_eq_take es
  refine hreach 0 (Nat.pos_of_ne_zero fun h0 => ?_)
  rw [hk, h0, List.take_zero] at h
  exact absurd h List.not_mem_nil

namespace Indexer

variable {ix : Indexer} {w w' : World} {cut : Cut} {d : Decision}

theorem handsOn_of_mem_collectEffects {e : Effect} (h : e ∈ ix.collectEffects a b) :
    e.handsOn = true := by
  unfold collectEffects at h
  split at h
  · rcases List.mem_append.mp h with h | h
    · obtain ⟨log, -, rfl⟩ := List.mem_map.mp h
      rfl
    · obtain ⟨job, -, rfl⟩ := List.mem_map.mp h
      rfl
  · exact absurd h List.not_mem_nil

theorem handsOn_of_mem_publishEffects {jobs : List DerivedJob} {e : Effect}
    (h : e ∈ ix.publishEffects jobs) : e.handsOn = true := by
  unfold publishEffects at h
  split at h
  · exact absurd h List.not_mem_nil
  · split at h
    · obtain rfl := List.mem_singleton.mp h
      rfl
    · obtain ⟨job, -, rfl⟩ := List.mem_map.mp h
      rfl

/-- **A pass writes only the blocks it decided on.** -/
theorem persisted_subset_blocks {e : Effect} (he : e ∈ ix.effects db l a d)
    (hb : b ∈ e.persisted) : b ∈ d.blocks := by
  have hnil : e.persisted ≠ [] := List.ne_nil_of_mem hb
  cases d with
  | wait => exact absurd he List.not_mem_nil
  | reorg r =>
    simp only [effects, List.cons_append, List.mem_cons, List.mem_append, List.mem_map,
      List.not_mem_nil, or_false] at he
    rcases he with rfl | ⟨s, -, rfl⟩ | rfl <;> exact absurd rfl hnil
  | tail b' f =>
    simp only [effects, List.mem_append, List.mem_cons, List.not_mem_nil, or_false] at he
    rcases he with ((rfl | rfl) | he) | he
    · exact hb
    · exact absurd rfl hnil
    · exact absurd (Effect.persisted_of_handsOn (handsOn_of_mem_collectEffects he)) hnil
    · exact absurd (Effect.persisted_of_handsOn (handsOn_of_mem_publishEffects he)) hnil
  | window bs =>
    simp only [effects, List.mem_append, List.mem_cons, List.not_mem_nil, or_false,
      List.mem_flatMap] at he
    rcases he with ((rfl | ⟨b', -, he⟩) | he) | rfl
    · exact hb
    · exact absurd (Effect.persisted_of_handsOn (handsOn_of_mem_collectEffects he)) hnil
    · exact absurd (Effect.persisted_of_handsOn (handsOn_of_mem_publishEffects he)) hnil
    · exact absurd rfl hnil

/-- What each performed effect preserves, all of them preserve. -/
theorem performAll_induction {P : World → Prop} {es : List Effect}
    (hstep : ∀ e ∈ es, ∀ w w', P w → ix.perform w e = some w' → P w') (h0 : P w) :
    P (ix.performAll w es).1 := by
  induction es generalizing w with
  | nil => exact h0
  | cons e es ih =>
    unfold performAll
    split
    · exact h0
    · rename_i w' hw'
      exact ih (fun e' he' => hstep e' (List.mem_cons_of_mem _ he'))
        (hstep e List.mem_cons_self w w' h0 hw')

/-- What a performed effect brings about and none takes back holds at the
end. -/
theorem performAll_establishes {P : World → Prop} {es : List Effect} {e : Effect} (he : e ∈ es)
    (hbrings : ∀ w w', ix.perform w e = some w' → P w')
    (hkeep : ∀ e ∈ es, ∀ w w', P w → ix.perform w e = some w' → P w')
    (hok : (ix.performAll w es).2 = true) : P (ix.performAll w es).1 := by
  induction es generalizing w with
  | nil => exact absurd he List.not_mem_nil
  | cons e' es ih =>
    cases hp : ix.perform w e' with
    | none => simp [performAll, hp] at hok
    | some w' =>
      have hrest : ∀ e ∈ es, ∀ w w', P w → ix.perform w e = some w' → P w' :=
        fun e he => hkeep e (List.mem_cons_of_mem _ he)
      simp only [performAll, hp] at hok ⊢
      rcases List.mem_cons.mp he with rfl | he
      · exact performAll_induction hrest (hbrings w w' hp)
      · exact ih he hrest hok

theorem locals_perform {e : Effect} (h : ix.perform w e = some w') : w'.locals = w.locals := by
  cases e <;> simp only [perform, Option.map_eq_some_iff, Option.some.injEq] at h
  case persistBlockData | persistBlockWindow =>
    obtain ⟨db, -, rfl⟩ := h
    rfl
  all_goals exact h ▸ rfl

theorem locals_performAll {es : List Effect} : (ix.performAll w es).1.locals = w.locals :=
  performAll_induction (P := fun w' => w'.locals = w.locals)
    (fun _ _ _ _ hw he => (locals_perform he).trans hw) rfl

theorem perform_of_handsOn {e : Effect} (h : e.handsOn = true) (hw : ix.perform w e = some w') :
    w'.db = w.db ∧ w'.indexed = w.indexed := by
  cases e with
  | handleLog | publish | publishMany =>
    obtain rfl := Option.some.inj hw
    exact ⟨rfl, rfl⟩
  | _ => exact absurd h Bool.false_ne_true

/-- Effects that leave the tables and the indexed blocks alone leave them
alone together. -/
theorem performAll_quiet (ix : Indexer) (es : List Effect)
    (h : ∀ e ∈ es, ∀ w w', ix.perform w e = some w' → w'.db = w.db ∧ w'.indexed = w.indexed) :
    (ix.performAll w es).1.db = w.db ∧ (ix.performAll w es).1.indexed = w.indexed :=
  performAll_induction (P := fun w' => w'.db = w.db ∧ w'.indexed = w.indexed)
    (fun e he u u' hu hperform => by
      obtain ⟨h₁, h₂⟩ := h e he u u' hperform
      exact ⟨h₁.trans hu.1, h₂.trans hu.2⟩) ⟨rfl, rfl⟩

/-- Only a write of blocks can throw. -/
theorem perform_isSome {e : Effect} (h : e.persisted = []) : (ix.perform w e).isSome := by
  cases e with
  | persistBlockData b f => exact absurd h (List.cons_ne_nil _ _)
  | persistBlockWindow bs =>
    obtain rfl : bs = [] := h
    rfl
  | _ => rfl

theorem performAll_total {es : List Effect} (h : ∀ e ∈ es, e.persisted = []) :
    (ix.performAll w es).2 = true := by
  induction es generalizing w with
  | nil => rfl
  | cons e es ih =>
    have hsome : (ix.perform w e).isSome := perform_isSome (h e List.mem_cons_self)
    obtain ⟨w', hw'⟩ := Option.isSome_iff_exists.mp hsome
    simp only [performAll, hw']
    exact ih fun e' he' => h e' (List.mem_cons_of_mem _ he')

/-- The effects of a tail step, the checkpoint write second. -/
theorem effects_tail (ix : Indexer) (db : Db) {f : FinalityState} :
    ix.effects db l a (.tail b f) =
      .persistBlockData b f :: .createOrUpdateCheckpoint ⟨l.currentBlock + 1, b.block.hash⟩ [b] ::
        (ix.collectEffects a b ++ ix.publishEffects (detectNewContractsAndTokens ix.config b)) ∧
    ∀ e ∈ ix.collectEffects a b ++
        ix.publishEffects (detectNewContractsAndTokens ix.config b), e.handsOn = true := by
  refine ⟨by simp [effects], fun e he => ?_⟩
  rcases List.mem_append.mp he with he | he
  · exact handsOn_of_mem_collectEffects he
  · exact handsOn_of_mem_publishEffects he

/-- **A tail pass run to its end**: nothing when the block does not
persist, and else the block stored and the checkpoint past it. -/
theorem performAll_tail (ix : Indexer) (db : Db) {f : FinalityState} :
    match persistBlockData ix.config w.db b f true with
    | none => ix.performAll w (ix.effects db l a (.tail b f)) = (w, false)
    | some db' =>
      (ix.performAll w (ix.effects db l a (.tail b f))).1.db =
          { db' with checkpoint := some ⟨l.currentBlock + 1, b.block.hash⟩ } ∧
        (ix.performAll w (ix.effects db l a (.tail b f))).1.indexed = b :: w.indexed ∧
        (ix.performAll w (ix.effects db l a (.tail b f))).2 = true := by
  obtain ⟨heffects, hhandsOn⟩ := effects_tail ix db (l := l) (a := a) (b := b) (f := f)
  cases hp : persistBlockData ix.config w.db b f true with
  | none => simp [heffects, performAll, perform, hp]
  | some db' =>
    simp only [heffects, performAll, perform, hp, Option.map_some]
    have hquiet := performAll_quiet ix (ix.collectEffects a b ++
      ix.publishEffects (detectNewContractsAndTokens ix.config b))
      (w := { w with
        db := { db' with checkpoint := some ⟨l.currentBlock + 1, b.block.hash⟩ }
        indexed := b :: w.indexed }) fun e he u u' hu =>
      perform_of_handsOn (hhandsOn e he) hu
    exact ⟨hquiet.1, hquiet.2,
      performAll_total fun e he => Effect.persisted_of_handsOn (hhandsOn e he)⟩

/-- **What a pass leaves behind** is what the effects it got to leave; of
the loop's own state only its locals and its processed keys can go. -/
theorem runPass_fields (ix : Indexer) (cut : Cut) :
    let w' := (ix.performAll w (cut.performed (ix.effects w.db l a
      (decidePass ix.config w.db l a)))).1
    (ix.runPass w l a cut).db = w'.db ∧ (ix.runPass w l a cut).repository = w'.repository ∧
      (ix.runPass w l a cut).queue = w'.queue ∧ (ix.runPass w l a cut).indexed = w'.indexed := by
  cases cut with
  | completes =>
    simp only [runPass, Cut.performed]
    split <;> simp [*]
  | throws k => simp [runPass, Cut.performed]
  | crashes k => simp [runPass, Cut.performed]

/-- A process keeps its processed keys unless the pass ends it. -/
theorem mem_processedEventKeys_runPass {key : EventKey}
    (h : key ∈ (ix.runPass w l a cut).processedEventKeys) :
    (∀ k, cut ≠ .crashes k) ∧ key ∈ (ix.performAll w (cut.performed (ix.effects w.db l a
      (decidePass ix.config w.db l a)))).1.processedEventKeys := by
  cases cut with
  | completes =>
    refine ⟨fun k hk => by simp at hk, ?_⟩
    simp only [runPass, Cut.performed] at h ⊢
    split at h <;> simp_all
  | throws k => exact ⟨fun k hk => by simp at hk, h⟩
  | crashes k => exact absurd h List.not_mem_nil

/-- A pass whose effects are all done adopts its decision's locals. -/
theorem runPass_completes
    (h : (ix.performAll w (ix.effects w.db l a (decidePass ix.config w.db l a))).2 = true) :
    ix.runPass w l a .completes =
      { (ix.performAll w (ix.effects w.db l a (decidePass ix.config w.db l a))).1 with
        locals := some ((decidePass ix.config w.db l a).next l) } := by
  simp only [runPass]
  split
  · rename_i hw
    rw [hw]
  · rename_i hw
    rw [hw] at h
    exact absurd h Bool.false_ne_true

/-- The locals after a pass: those before it, or those of the decision,
which only a pass that runs to its end adopts. -/
theorem runPass_locals (hl : w.locals = some l)
    (h : (ix.runPass w l a cut).locals = some l') :
    l' = l ∨ (cut = .completes ∧ l' = (decidePass ix.config w.db l a).next l ∧
      (ix.performAll w (ix.effects w.db l a (decidePass ix.config w.db l a))).2 = true) := by
  have hsame : ∀ es, (ix.performAll w es).1.locals = some l' → l' = l := fun es hes => by
    rw [locals_performAll, hl] at hes
    exact (Option.some.inj hes).symm
  cases cut with
  | completes =>
    simp only [runPass] at h
    split at h
    · rename_i hw
      exact Or.inr ⟨rfl, (Option.some.inj h).symm, by rw [hw]⟩
    · rename_i hw
      exact Or.inl (hsame _ (by rw [hw]; exact h))
  | throws k => exact Or.inl (hsame _ h)
  | crashes k => simp [runPass] at h

end Indexer

/-! ## Blocks newly indexed -/

namespace Indexer

variable {ix : Indexer} {w w' : World} {cut : Cut} {d : Decision}

/-- Only a checkpoint write adds to the indexed blocks. -/
theorem indexed_performAll {es : List Effect} (h : b ∈ (ix.performAll w es).1.indexed) :
    b ∈ w.indexed ∨ ∃ e ∈ es, b ∈ e.passed := by
  refine performAll_induction (P := fun u => b ∈ u.indexed → b ∈ w.indexed ∨ ∃ e ∈ es, b ∈ e.passed)
    (fun e he u u' hu hperform hb => ?_) Or.inl h
  have hadd : b ∈ u.indexed ∨ b ∈ e.passed := by
    cases e <;> simp only [perform, Option.map_eq_some_iff, Option.some.injEq] at hperform
    case persistBlockData | persistBlockWindow =>
      obtain ⟨db, -, rfl⟩ := hperform
      exact Or.inl hb
    case createOrUpdateCheckpoint checkpoint passed =>
      subst hperform
      exact (List.mem_append.mp hb).symm
    all_goals
      subst hperform
      exact Or.inl hb
  rcases hadd with hold | hpassed
  · exact hu hold
  · exact Or.inr ⟨e, he, hpassed⟩

/-- Where only the first effect can throw, either it does and nothing
happens, or all is done. -/
theorem performAll_cons_or {e : Effect} (es : List Effect) (h : ∀ e' ∈ es, e'.persisted = []) :
    ix.performAll w (e :: es) = (w, false) ∨ (ix.performAll w (e :: es)).2 = true := by
  cases hp : ix.perform w e with
  | none => exact Or.inl (by simp [performAll, hp])
  | some w' =>
    refine Or.inr ?_
    simp only [performAll, hp]
    exact performAll_total h

/-- The effects of a window, the checkpoint write last. -/
theorem effects_window (ix : Indexer) (db : Db) (bs : List BlockData) : ∃ pre,
    ix.effects db l a (.window bs) =
      .persistBlockWindow bs :: (pre ++ [.createOrUpdateCheckpoint
        ⟨l.currentBlock + bs.length, bs.getLast?.bind (·.block.hash)⟩ bs]) ∧
    ∀ e ∈ pre, e.handsOn = true := by
  refine ⟨bs.flatMap (ix.collectEffects a) ++
    ix.publishEffects (bs.flatMap (detectNewContractsAndTokens ix.config)), rfl, fun e he => ?_⟩
  rcases List.mem_append.mp he with he | he
  · obtain ⟨b, -, he⟩ := List.mem_flatMap.mp he
    exact handsOn_of_mem_collectEffects he
  · exact handsOn_of_mem_publishEffects he

/-- Effects of which only the first can throw are all done, when some
block is newly indexed by a prefix of them. -/
theorem performAll_take_of_newly_indexed {e₀ : Effect} {es : List Effect} {k : ℕ}
    (hes : ∀ e ∈ es, e.persisted = []) (hnew : b ∉ w.indexed)
    (h : b ∈ (ix.performAll w ((e₀ :: es).take k)).1.indexed) :
    (ix.performAll w ((e₀ :: es).take k)).2 = true := by
  cases k with
  | zero => exact absurd h hnew
  | succ k =>
    rcases performAll_cons_or (w := w) (e := e₀) (es.take k)
      fun e he => hes e (List.mem_of_mem_take he) with hfail | hdone
    · rw [List.take_succ_cons, hfail] at h
      exact absurd h hnew
    · exact hdone

/-- **A block newly indexed is one the pass decided on**, every effect
the pass got to is done, and the pass got past its checkpoint write: for
a window, to its end. -/
theorem newly_indexed (h : b ∈ (ix.performAll w (cut.performed (ix.effects db l a d))).1.indexed)
    (hnew : b ∉ w.indexed) :
    b ∈ d.blocks ∧ (ix.performAll w (cut.performed (ix.effects db l a d))).2 = true ∧
      cut.Reaches 1 ∧ ∀ bs, d = .window bs →
        cut.performed (ix.effects db l a d) = ix.effects db l a d := by
  obtain ⟨k, hk, hreach⟩ := cut.exists_performed_eq_take (ix.effects db l a d)
  rw [hk] at h ⊢
  obtain ⟨e, he, hpassed⟩ := (indexed_performAll h).resolve_left hnew
  have hne : e.passed ≠ [] := List.ne_nil_of_mem hpassed
  cases d with
  | wait => exact absurd (List.mem_of_mem_take he) List.not_mem_nil
  | reorg r =>
    have hmem := List.mem_of_mem_take he
    simp only [effects, List.cons_append, List.mem_cons, List.mem_append, List.mem_map,
      List.not_mem_nil, or_false] at hmem
    rcases hmem with rfl | ⟨s, -, rfl⟩ | rfl <;> exact absurd rfl hne
  | tail c f =>
    obtain ⟨heq, hrest⟩ := effects_tail ix db (l := l) (a := a) (b := c)
      (f := f)
    rw [heq] at h he ⊢
    have hone : 1 < k := by
      by_contra hle
      obtain rfl | rfl : k = 0 ∨ k = 1 := by omega
      · exact absurd he List.not_mem_nil
      · obtain rfl := List.mem_singleton.mp he
        exact hne rfl
    refine ⟨?_, performAll_take_of_newly_indexed (fun e' he' => ?_) hnew h, hreach 1 hone,
      fun bs hbs => by simp at hbs⟩
    · rcases List.mem_cons.mp (List.mem_of_mem_take he) with rfl | hmem
      · exact absurd rfl hne
      · rcases List.mem_cons.mp hmem with rfl | hmem
        · exact hpassed
        · exact absurd (Effect.passed_of_handsOn (hrest e hmem)) hne
    · rcases List.mem_cons.mp he' with rfl | he'
      · rfl
      · exact Effect.persisted_of_handsOn (hrest e' he')
  | window bs =>
    obtain ⟨pre, heq, hpre⟩ := effects_window ix db bs (l := l) (a := a)
    rw [heq] at h he ⊢
    -- the checkpoint write stands last, so a prefix that has it is everything
    have hall : pre.length + 2 ≤ k := by
      by_contra hlt
      cases k with
      | zero => exact absurd he List.not_mem_nil
      | succ k =>
        rw [List.take_succ_cons, List.take_append_of_le_length (by omega)] at he
        rcases List.mem_cons.mp he with rfl | he
        · exact hne rfl
        · exact hne (Effect.passed_of_handsOn (hpre e (List.mem_of_mem_take he)))
    have hlength : (Effect.persistBlockWindow bs :: (pre ++ [.createOrUpdateCheckpoint
        ⟨l.currentBlock + bs.length, bs.getLast?.bind (·.block.hash)⟩ bs])).length ≤ k := by
      rw [List.length_cons, List.length_append, List.length_singleton]
      omega
    refine ⟨?_, performAll_take_of_newly_indexed (fun e' he' => ?_) hnew h,
      hreach 1 (by omega), fun _ _ => List.take_of_length_le hlength⟩
    · rcases List.mem_cons.mp (List.mem_of_mem_take he) with rfl | hmem
      · exact absurd rfl hne
      · rcases List.mem_append.mp hmem with hmem | hmem
        · exact absurd (Effect.passed_of_handsOn (hpre e hmem)) hne
        · obtain rfl := List.mem_singleton.mp hmem
          exact hpassed
    · rcases List.mem_append.mp he' with he' | he'
      · exact Effect.persisted_of_handsOn (hpre e' he')
      · obtain rfl := List.mem_singleton.mp he'
        rfl

end Indexer

/-! ## Providers of a list of blocks -/

/-- A block that carries nothing. -/
def BlockData.bare (number hash parentHash : ℕ) : BlockData where
  block := ⟨some number, some ⟨hash⟩, ⟨parentHash⟩, 0⟩
  transactions := []
  receipts := []
  logs := []

/-- A transaction of the given hash, at index 0 of its block. -/
def Transaction.bare (hash : ℕ) : Transaction where
  hash := ⟨hash⟩
  transactionIndex := some 0
  fromAddress := ⟨1⟩
  toAddress := some ⟨2⟩
  nonce := 0
  value := 0
  input := ⟨0, 0⟩
  gas := none
  gasPrice := none

/-- A provider that serves the blocks it is given, each at its number. -/
def Answers.ofBlocks (latestBlock : ℕ) (bs : List BlockData) : Answers where
  latestBlock := latestBlock
  serve n := bs.find? fun b => b.block.number = some n
  getLogs := []
  latestBlockAgain := latestBlock
  failAt _ := none

theorem Answers.number_of_ofBlocks {latestBlock n : ℕ} {bs : List BlockData}
    (h : (Answers.ofBlocks latestBlock bs).serve n = some b) : b.block.number = some n := by
  simpa using List.find?_some h

/-- An indexer of chain 1 that follows blocks from height 5, with no
adapters or oracle sources. -/
def Indexer.bare : Indexer where
  config :=
    { chainId := 1
      batchSize := 10
      logWindowEnabled := false
      persistRawLogs := true
      startBlock := some 5
      finalityConfirmations := 10
      safeConfirmations := 5 }
  adapters := []
  sources := []
  publishesMany := true

end HoodSentry
