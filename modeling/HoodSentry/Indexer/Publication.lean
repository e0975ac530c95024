import HoodSentry.Indexer.Helpers.Pass
/-!
# Derived jobs reach the publisher

Once the checkpoint is past a block, the jobs collected for the block
have been handed to the publisher. The window path publishes before it
moves the checkpoint and keeps this at every cut; the tail path moves the
checkpoint first, so a run keeps it while no tail pass stops in between.
-/

namespace HoodSentry

/-- What `collectDerivedJobs` collects for a block: the oracle jobs it
publishes itself and the discovery jobs it returns. -/
def Indexer.collectedJobs (ix : Indexer) (b : BlockData) : List DerivedJob :=
  match b.block.number, b.block.hash with
  | some number, some hash =>
    chainlinkJobs ix.config ix.sources number hash ++ detectNewContractsAndTokens ix.config b
  | _, _ => []

/-- **No job of an indexed block is lost**: where the stored checkpoint is
past the block, its jobs have been handed to the publisher. -/
def JobsHanded (ix : Indexer) (w : World) : Prop :=
  ∀ b ∈ w.indexed, ∀ number checkpoint, b.block.number = some number →
    w.db.checkpoint = some checkpoint → number < checkpoint.nextBlock →
    ∀ job ∈ ix.collectedJobs b, job ∈ w.queue

/-- **The condition on a step**: a tail pass over a block with jobs does
not stop after its checkpoint write and before its last effect, the last
publication. -/
def PublishStep (ix : Indexer) (w : World) : Label → Prop
  | .pass a cut => ∀ l, w.locals = some l → ∀ b f, decidePass ix.config w.db l a = .tail b f →
    ix.collectedJobs b ≠ [] → cut.Reaches 1 →
    cut.Reaches ((ix.effects w.db l a (.tail b f)).length - 1)
  | _ => True

/-! ## Publications -/

/-- The jobs an effect of the indexer itself hands on. -/
def Effect.handed : Effect → List DerivedJob
  | .publish job => [job]
  | .publishMany jobs => jobs
  | _ => []

namespace Indexer

variable {ix : Indexer} {w w' : World} {a : Answers} {b : BlockData} {l : Locals} {cut : Cut}
variable {job : DerivedJob}

theorem exists_handed_of_mem_jobs {jobs : List DerivedJob} (h : job ∈ jobs) :
    ∃ e ∈ ix.publishEffects jobs, job ∈ e.handed := by
  unfold publishEffects
  rw [if_neg (by simpa using List.ne_nil_of_mem h)]
  split
  · exact ⟨_, List.mem_singleton.mpr rfl, h⟩
  · exact ⟨_, List.mem_map_of_mem h, List.mem_singleton.mpr rfl⟩

/-- A job collected is published among the block's own effects, or is one
of the discovery jobs. -/
theorem exists_handed_of_mem_collectedJobs (h : job ∈ ix.collectedJobs b) :
    (∃ e ∈ ix.collectEffects a b, job ∈ e.handed) ∨
      job ∈ detectNewContractsAndTokens ix.config b := by
  unfold collectedJobs at h
  unfold collectEffects
  split at h
  · rename_i hn hh
    simp only [hn, hh]
    rcases List.mem_append.mp h with h | h
    · exact Or.inl ⟨.publish job, List.mem_append_right _ (List.mem_map_of_mem h),
        List.mem_singleton.mpr rfl⟩
    · exact Or.inr h
  · exact absurd h List.not_mem_nil

/-- No effect takes a job back, and one that hands a job on adds it. -/
theorem mem_queue_perform {e : Effect} (h : ix.perform w e = some w')
    (hj : job ∈ w.queue ∨ job ∈ e.handed) : job ∈ w'.queue := by
  cases e <;> simp only [perform, Option.map_eq_some_iff, Option.some.injEq] at h
  case persistBlockData | persistBlockWindow =>
    obtain ⟨db, -, rfl⟩ := h
    exact hj.resolve_right List.not_mem_nil
  case handleLog =>
    subst h
    exact List.mem_append_left _ (hj.resolve_right List.not_mem_nil)
  case publish | publishMany =>
    subst h
    exact List.mem_append.mpr hj
  all_goals
    subst h
    exact hj.resolve_right List.not_mem_nil

theorem mem_queue_performAll_of_mem {es : List Effect} (h : job ∈ w.queue) :
    job ∈ (ix.performAll w es).1.queue :=
  performAll_induction (P := fun u => job ∈ u.queue)
    (fun _ _ _ _ hu hp => mem_queue_perform hp (Or.inl hu)) h

/-- **What is done is handed on.** -/
theorem mem_queue_performAll {es : List Effect} {e : Effect} (he : e ∈ es)
    (hj : job ∈ e.handed) (hok : (ix.performAll w es).2 = true) :
    job ∈ (ix.performAll w es).1.queue :=
  performAll_establishes (P := fun w => job ∈ w.queue) he
    (fun _ _ hp => mem_queue_perform hp (Or.inr hj))
    (fun _ _ _ _ hq hp => mem_queue_perform hp (Or.inl hq)) hok

/-- The effects of a pass publish every job collected for its blocks. -/
theorem exists_handed_of_mem_blocks {d : Decision} (hb : b ∈ d.blocks)
    (hj : job ∈ ix.collectedJobs b) {db : Db} : ∃ e ∈ ix.effects db l a d, job ∈ e.handed := by
  cases d with
  | wait => exact absurd hb List.not_mem_nil
  | reorg r => exact absurd hb List.not_mem_nil
  | tail c f =>
    obtain rfl := List.mem_singleton.mp hb
    simp only [effects, List.mem_append]
    rcases exists_handed_of_mem_collectedJobs (a := a) hj with ⟨e, he, hje⟩ | hj
    · exact ⟨e, Or.inl (Or.inr he), hje⟩
    · obtain ⟨e, he, hje⟩ := exists_handed_of_mem_jobs hj
      exact ⟨e, Or.inr he, hje⟩
  | window bs =>
    simp only [effects, List.mem_append, List.mem_flatMap]
    rcases exists_handed_of_mem_collectedJobs (a := a) hj with ⟨e, he, hje⟩ | hj
    · exact ⟨e, Or.inl (Or.inl (Or.inr ⟨b, hb, he⟩)), hje⟩
    · obtain ⟨e, he, hje⟩ := exists_handed_of_mem_jobs (List.mem_flatMap.mpr ⟨b, hb, hj⟩)
      exact ⟨e, Or.inl (Or.inr he), hje⟩

end Indexer

theorem Cut.performed_eq_self {cut : Cut} {es : List Effect} (h : cut.Reaches (es.length - 1)) :
    cut.performed es = es := by
  have htake : ∀ k, es.length - 1 < k → es.take k = es := fun k hk =>
    List.take_of_length_le (by omega)
  cases cut with
  | completes => rfl
  | throws k => exact htake k h
  | crashes k => exact htake k h

/-! ## The invariant -/

variable {ix : Indexer} {w w' : World}

/-- **The invariant**: the jobs of every block a checkpoint write has
moved past are with the publisher. -/
def JobsQueued (ix : Indexer) (w : World) : Prop :=
  ∀ b ∈ w.indexed, ∀ job ∈ ix.collectedJobs b, job ∈ w.queue

/-- **The step lemma.** -/
theorem jobsQueued_step {i : Label} (hw : JobsQueued ix w) (hC : PublishStep ix w i)
    (hs : ix.step w i = some w') : JobsQueued ix w' := by
  cases i with
  | start =>
    simp only [Indexer.step] at hs
    split at hs
    · obtain rfl := Option.some.inj hs
      exact hw
    · simp at hs
  | transfer t =>
    obtain rfl := Option.some.inj hs
    exact hw
  | reconcile =>
    obtain rfl := Option.some.inj hs
    exact hw
  | pass a cut =>
    obtain ⟨l, hl, rfl⟩ := Option.map_eq_some_iff.mp hs
    obtain ⟨-, -, hqueue, hindexed⟩ := Indexer.runPass_fields ix cut (w := w) (l := l) (a := a)
    intro b hb job hj
    rw [hindexed] at hb
    rw [hqueue]
    by_cases hold : b ∈ w.indexed
    · exact Indexer.mem_queue_performAll_of_mem (hw b hold job hj)
    · obtain ⟨hblock, hok, hreach, hwindow⟩ := Indexer.newly_indexed hb hold
      have hall : cut.performed (ix.effects w.db l a (decidePass ix.config w.db l a)) =
          ix.effects w.db l a (decidePass ix.config w.db l a) := by
        cases hd : decidePass ix.config w.db l a with
        | wait => exact absurd (hd ▸ hblock) List.not_mem_nil
        | reorg r => exact absurd (hd ▸ hblock) List.not_mem_nil
        | window bs => exact hd ▸ hwindow bs hd
        | tail c f =>
          rw [hd] at hblock
          obtain rfl := List.mem_singleton.mp hblock
          exact Cut.performed_eq_self (hC l hl b f hd (List.ne_nil_of_mem hj) hreach)
      rw [hall] at hok ⊢
      obtain ⟨e, he, hje⟩ := Indexer.exists_handed_of_mem_blocks (l := l) (a := a) hblock hj
      exact Indexer.mem_queue_performAll he hje hok

/-- **No job is lost** in any state reached by a run whose tail passes
stop before the checkpoint write or after the last publication. -/
theorem jobsHanded_of_reaches (h : ix.live.Reaches (PublishStep ix) w) : JobsHanded ix w := by
  have hinv : JobsQueued ix w := by
    refine h.invariant (fun s hs => ?_) fun s i s' hI hC hstep => jobsQueued_step hI hC hstep
    obtain rfl : s = World.empty := hs
    exact fun b hb => absurd hb List.not_mem_nil
  exact fun b hb _ _ _ _ _ job hj => hinv b hb job hj

/-! ## Runs -/

/-- The block at 5, with a transaction that creates a contract. -/
def creationBlock : BlockData :=
  { BlockData.bare 5 5 4 with
    transactions := [{ Transaction.bare 1 with toAddress := none }]
    receipts := [⟨⟨1⟩, true, 0, 0, 0, some ⟨9⟩, []⟩] }

/-- A block whose pass runs to its end has its job handed on. -/
theorem jobsHanded_of_completed_pass :
    ∃ w, Indexer.bare.live.exec World.empty
        [.start, .pass (.ofBlocks 5 [creationBlock]) .completes] = some w ∧
      w.queue.length = 1 ∧ JobsHanded Indexer.bare w := by
  let w₁ := Indexer.bare.startProcess World.empty
  have h₁ : Indexer.bare.live.Reaches (PublishStep Indexer.bare) w₁ :=
    .step (i := .start) (.init rfl) trivial rfl
  exact ⟨_, rfl, rfl, jobsHanded_of_reaches (h₁.step
    (i := .pass (.ofBlocks 5 [creationBlock]) .completes) (fun _ _ _ _ _ _ _ => trivial) rfl)⟩

/-- **A job can be lost**: the process dies right after the checkpoint
write of a tail pass, and no restart looks at the block again. -/
theorem not_jobsHanded_of_crash :
    ¬∀ (ix : Indexer) (w : World), ix.live.Reachable w → JobsHanded ix w := by
  intro h
  let job : DerivedJob := ⟨.contractCreation, 1, 5, ⟨5⟩, .contractCreation ⟨1⟩ ⟨9⟩ ⟨1⟩ 0⟩
  have hvalues : (Indexer.bare.live.exec World.empty
      [.start, .pass (.ofBlocks 5 [creationBlock]) (.crashes 2)]).map
        (fun w => (w.indexed.head?, w.db.checkpoint, w.queue)) =
      some (some creationBlock, some ⟨6, some ⟨5⟩⟩, []) := by decide
  obtain ⟨w, hw, hvalues⟩ := Option.map_eq_some_iff.mp hvalues
  simp only [Prod.mk.injEq] at hvalues
  obtain ⟨hhead, hcheckpoint, hqueue⟩ := hvalues
  have hmem := h Indexer.bare w (Machine.reachable_of_exec rfl hw) creationBlock
    (List.mem_of_head? hhead) 5 _ rfl hcheckpoint (by decide) job (by decide)
  rw [hqueue] at hmem
  exact absurd hmem List.not_mem_nil

end HoodSentry
