import HoodSentry.Indexer.Helpers.Pass
import HoodSentry.Indexer.Lease
import HoodSentry.Indexer.Model.Processes
/-!
# The checkpoint under several indexers

A pass renews the lease once, at its top, and writes the checkpoint
whatever has become of the lease since. While every write is made by the
worker the lease still names, the stored height is moved back by that
worker's reorgs only; a worker that was taken over moves it back by any
write.
-/

namespace HoodSentry

namespace Stream

variable (stream : Stream)

/-- The key of the stream's lease. -/
def key : ℕ × String := (stream.chainId, stream.name)

/-- **The worker the lease names.** -/
def Holds (leases : Table Lease.key) (workerId : String) : Prop :=
  ∃ r ∈ leases.rows, r.key = stream.key ∧ r.workerId = workerId

instance (leases : Table Lease.key) (workerId : String) :
    Decidable (stream.Holds leases workerId) :=
  inferInstanceAs (Decidable (∃ r ∈ leases.rows, _))

end Stream

/-- The next await writes the checkpoint of a window. -/
def IndexerProcess.writesWindow (p : IndexerProcess) : Bool :=
  match p.phase with
  | .performing (.createOrUpdateCheckpoint _ _) _ (.window _) => true
  | _ => false

namespace Stream

variable (stream : Stream)

/-- **The condition on a step**: a write of the checkpoint that takes
effect is made while the lease names its worker, and the loop learns of
the write of a window. -/
def HeldWrite (w : StreamWorld) : ProcessLabel → Prop
  | .await workerId answer =>
    ∀ p ∈ w.processes workerId, p.writes.isSome = true → answer ≠ .failed →
      stream.Holds w.leases workerId ∧ (p.writesWindow = true → answer ≠ .unacknowledged)
  | _ => True

instance (w : StreamWorld) : ∀ l, Decidable (stream.HeldWrite w l)
  | .await workerId answer => inferInstanceAs (Decidable (∀ p ∈ w.processes workerId,
      p.writes.isSome = true → answer ≠ .failed →
        stream.Holds w.leases workerId ∧ (p.writesWindow = true → answer ≠ .unacknowledged)))
  | .start .. | .read .. | .stop _ | .release _ | .crash _ | .tick _ =>
    inferInstanceAs (Decidable True)

/-- **The checkpoint is safe** under a condition on the next step: a write
by a worker the lease does not name has no effect, and the stored height
only decreases by a write of the worker it names, after a reorg. -/
structure CheckpointSafe (C : StreamWorld → ProcessLabel → Prop) (w : StreamWorld) : Prop where
  stale : ∀ workerId answer w', C w (.await workerId answer) →
    stream.step w (.await workerId answer) = some w' → ¬stream.Holds w.leases workerId →
    w'.checkpoint = w.checkpoint
  decreases : ∀ l w' checkpoint checkpoint', C w l → stream.step w l = some w' →
    w.checkpoint = some checkpoint → w'.checkpoint = some checkpoint' →
    checkpoint'.nextBlock < checkpoint.nextBlock →
    ∃ workerId answer p, l = .await workerId answer ∧ w.processes workerId = some p ∧
      stream.Holds w.leases workerId ∧ p.rewound = true

/-! ## The holder -/

variable {stream}

/-- A lease has one holder. -/
theorem Holds.unique {leases : Table Lease.key} {id id' : String} (h : stream.Holds leases id)
    (h' : stream.Holds leases id') : id = id' := by
  obtain ⟨r, hr, hkey, rfl⟩ := h
  obtain ⟨r', hr', hkey', rfl⟩ := h'
  rw [leases.eq_of_key_eq hr hr' (hkey.trans hkey'.symm)]

theorem holds_deleteWhere {leases : Table Lease.key} {q : Lease → Bool} {id : String}
    (h : stream.Holds (leases.deleteWhere q) id) : stream.Holds leases id := by
  obtain ⟨r, hr, hrow⟩ := h
  exact ⟨r, (Table.mem_deleteWhere.mp hr).1, hrow⟩

/-- **Only a worker's own `INSERT` makes it the holder.** -/
theorem holds_of_perform {leases : Table Lease.key} {c : Call} {clock : ℕ} {id : String}
    (h : stream.Holds (c.perform clock leases).leases id) :
    stream.Holds leases id ∨ (id = c.manager.workerId ∧ ∃ now, c.stage = .insertLease now) := by
  rcases c.perform_cases clock leases with ⟨hleases, -⟩ | ⟨now, hstage, -, hleases, -⟩ |
    ⟨now, -, hleases, -⟩ | ⟨now, acquiring, -, hleases, -⟩ | ⟨-, hleases, -⟩
  · rw [hleases] at h
    exact Or.inl h
  · rw [hleases] at h
    obtain ⟨r, hr, hkey, hworker⟩ := h
    rcases Table.mem_insertNew.mp hr with hr | ⟨rfl, -⟩
    · exact Or.inl ⟨r, hr, hkey, hworker⟩
    · exact Or.inr ⟨hworker.symm, now, hstage⟩
  · rw [hleases] at h
    exact Or.inl (holds_deleteWhere h)
  · rw [hleases] at h
    obtain ⟨r, hr, hrow⟩ := h
    obtain ⟨old, hold, rfl⟩ := Table.mem_updateWhere.mp hr
    refine Or.inl ⟨old, hold, ?_⟩
    split at hrow <;> exact hrow
  · rw [hleases] at h
    exact Or.inl (holds_deleteWhere h)

end Stream

/-! ## What a process knows of the checkpoint -/

namespace IndexerProcess

variable {p : IndexerProcess} {checkpoint : Option Checkpoint}

/-- Unless it has handled a reorg, a process is at most one block behind
the stored height. -/
def Known (p : IndexerProcess) (checkpoint : Option Checkpoint) : Prop :=
  ∃ c, checkpoint = some c ∧ (p.rewound = false → c.nextBlock ≤ p.locals.currentBlock + 1)

/-- The writes ahead are the last ones of a pass. -/
def Pending (p : IndexerProcess) (decision : Decision) (effects : List Effect) : Prop :=
  ∃ db a, decision = decidePass p.indexer.config db p.locals a ∧
    effects <:+ p.indexer.effects db p.locals a decision

/-- **What a holder's process knows**, by its phase. -/
def Bound (p : IndexerProcess) (checkpoint : Option Checkpoint) : Prop :=
  match p.phase with
  | .acquiring _ | .getCheckpoint | .ended => True
  | .createCheckpoint => checkpoint = none
  | .performing effect rest decision =>
    p.Known checkpoint ∧ p.Pending decision (effect :: rest)
  | _ => p.Known checkpoint

/-- A window is not empty. -/
theorem ne_nil_of_window {cfg : IndexerConfig} {db : Db} {l : Locals} {a : Answers}
    {bs : List BlockData} (h : decidePass cfg db l a = .window bs) : bs ≠ [] := by
  unfold decidePass decideTail at h
  split at h
  · exact absurd h (by simp)
  · split at h
    · split at h
      · exact absurd h (by simp)
      · exact absurd h (by simp)
      · obtain rfl := Decision.window.inj h
        exact List.cons_ne_nil _ _
    · grind

/-- **A checkpoint write ahead** is that of a tail, one block on, or that
of a window, which is its last write. -/
theorem Pending.write {decision : Decision} {c : Checkpoint} {passed : List BlockData}
    {rest : List Effect} (h : p.Pending decision (.createOrUpdateCheckpoint c passed :: rest)) :
    c.nextBlock = p.locals.currentBlock + 1 ∨
      (∃ bs, decision = .window bs) ∧ rest = [] ∧ p.locals.currentBlock + 1 ≤ c.nextBlock ∧
        c.nextBlock = (decision.next p.locals).currentBlock := by
  obtain ⟨db, a, hdecision, hsuffix⟩ := h
  have hmem := hsuffix.subset List.mem_cons_self
  cases decision with
  | wait => exact absurd hmem List.not_mem_nil
  | reorg e =>
    simp only [Indexer.effects, List.cons_append, List.mem_cons, List.mem_append, List.mem_map,
      List.not_mem_nil, or_false] at hmem
    rcases hmem with hmem | ⟨s, -, hmem⟩ | hmem <;> exact absurd hmem (by simp)
  | tail b f =>
    obtain ⟨heq, hrest⟩ := Indexer.effects_tail p.indexer db (l := p.locals) (a := a) (b := b) (f := f)
    rw [heq] at hmem
    rcases List.mem_cons.mp hmem with hmem | hmem
    · exact absurd hmem (by simp)
    · rcases List.mem_cons.mp hmem with hmem | hmem
      · obtain ⟨rfl, -⟩ := Effect.createOrUpdateCheckpoint.inj hmem
        exact Or.inl rfl
      · exact absurd (hrest _ hmem) Bool.false_ne_true
  | window bs =>
    obtain ⟨pre, heq, hpre⟩ := Indexer.effects_window p.indexer db bs (l := p.locals) (a := a)
    rw [heq, ← List.cons_append] at hsuffix
    have hnotMem : Effect.createOrUpdateCheckpoint c passed ∉ Effect.persistBlockWindow bs :: pre := by
      intro hin
      rcases List.mem_cons.mp hin with hin | hin
      · exact absurd hin (by simp)
      · exact absurd (hpre _ hin) Bool.false_ne_true
    obtain rfl := eq_nil_of_suffix_concat hsuffix hnotMem
    have hlast := hsuffix.subset List.mem_cons_self
    rcases List.mem_append.mp hlast with hin | hin
    · exact absurd hin hnotMem
    · obtain ⟨rfl, -⟩ := Effect.createOrUpdateCheckpoint.inj (List.mem_singleton.mp hin)
      have hlength := List.length_pos_of_ne_nil (ne_nil_of_window hdecision.symm)
      exact Or.inr ⟨⟨bs, rfl⟩, rfl, by show _ ≤ p.locals.currentBlock + bs.length; omega, rfl⟩

/-- A pass that ends without a reorg does not fall behind. -/
theorem Known.proceed_nil {decision : Decision} (h : p.Known checkpoint) :
    (p.proceed decision []).Known checkpoint := by
  obtain ⟨c, rfl, hc⟩ := h
  refine ⟨c, rfl, fun hrewound => ?_⟩
  simp only [proceed, Bool.or_eq_false_iff] at hrewound
  have hle : p.locals.currentBlock ≤ (decision.next p.locals).currentBlock := by
    cases decision with
    | wait => exact Nat.le_refl _
    | reorg e => exact absurd hrewound.2 (by simp)
    | tail b f => exact Nat.le_add_right _ _
    | window bs => exact Nat.le_add_right _ _
  have hbehind := hc hrewound.1
  show c.nextBlock ≤ (decision.next p.locals).currentBlock + 1
  omega

/-- **On to the next write.** -/
theorem Known.proceed {decision : Decision} {effects : List Effect} (h : p.Known checkpoint)
    (hpending : p.Pending decision effects) : (p.proceed decision effects).Bound checkpoint := by
  cases effects with
  | nil => exact h.proceed_nil
  | cons effect rest => exact ⟨h, hpending⟩

end IndexerProcess

/-! ## Awaits -/

/-- **What an await leaves**: a lease no other worker comes to hold, the
checkpoint it writes, and a process that knows of it when it returns, when
it fails, and but for the write of a window when it is not acknowledged. -/
structure AwaitSpec (stream : Stream) (w : StreamWorld) (id : String) (p : IndexerProcess)
    (o : AwaitOutcome) : Prop where
  holds : ∀ id', id' ≠ id → stream.Holds o.leases id' → stream.Holds w.leases id'
  checkpoint : o.checkpoint = p.writes.or w.checkpoint
  returned : stream.Holds o.leases id → o.returned.Bound o.checkpoint
  failed : stream.Holds w.leases id → o.failed.Bound w.checkpoint
  unacknowledged : p.writesWindow = false → stream.Holds o.leases id →
    o.unacknowledged.Bound o.checkpoint

namespace Stream

variable {stream : Stream} {w w' : StreamWorld} {id : String} {p : IndexerProcess}
  {o : AwaitOutcome}

/-- A lease call of another worker makes nobody else the holder. -/
theorem holds_of_leaseCall {stage : Stage} {id' : String} (hne : id' ≠ id)
    (h : stream.Holds ((stream.leaseCall id p stage).perform w.clock w.leases).leases id') :
    stream.Holds w.leases id' :=
  (holds_of_perform h).resolve_right fun hself => hne hself.1

/-- One that is no `INSERT` does not make its own worker one either. -/
theorem holds_of_leaseCall_self {stage : Stage} (hstage : ∀ now, stage ≠ .insertLease now)
    (h : stream.Holds ((stream.leaseCall id p stage).perform w.clock w.leases).leases id) :
    stream.Holds w.leases id :=
  (holds_of_perform h).resolve_right fun hself => hself.2.elim hstage

theorem awaitSpec (h : stream.perform w id p = some o)
    (hbound : stream.Holds w.leases id → p.Bound w.checkpoint) : AwaitSpec stream w id p o := by
  obtain ⟨indexer, duration, running, locals, rewound, phase⟩ := p
  cases phase with
  | acquiring stage =>
    obtain rfl := Option.some.inj h
    refine ⟨fun id' hne hholds => holds_of_leaseCall hne hholds, rfl, fun _ => ?_, fun _ => ?_,
      fun _ _ => ?_⟩
    · dsimp only
      split
      · exact trivial
      · split <;> exact trivial
    · dsimp only
      split <;> exact trivial
    · dsimp only
      split <;> exact trivial
  | getCheckpoint =>
    obtain rfl := Option.some.inj h
    refine ⟨fun _ _ hholds => hholds, rfl, fun _ => ?_, fun _ => trivial, fun _ _ => trivial⟩
    dsimp only
    cases hcheckpoint : w.checkpoint with
    | none => exact rfl
    | some c => exact ⟨c, rfl, fun _ => Nat.le_succ _⟩
  | createCheckpoint =>
    obtain rfl := Option.some.inj h
    exact ⟨fun _ _ hholds => hholds, rfl, fun _ => ⟨_, rfl, fun _ => Nat.le_succ _⟩,
      fun _ => trivial, fun _ _ => trivial⟩
  | looping =>
    obtain rfl := Option.some.inj h
    have hnext : ∀ phase, (phase = .renewLease ∨ phase = .releasing) →
        stream.Holds w.leases id →
        (⟨indexer, duration, running, locals, rewound, phase⟩ : IndexerProcess).Bound w.checkpoint := by
      rintro phase (rfl | rfl) hholds <;> exact hbound hholds
    have hphase : (if running then IndexerPhase.renewLease else .releasing) = .renewLease ∨
        (if running then IndexerPhase.renewLease else .releasing) = .releasing := by
      cases running
      · exact Or.inr rfl
      · exact Or.inl rfl
    exact ⟨fun _ _ hholds => hholds, rfl, hnext _ hphase, hnext _ hphase, fun _ => hnext _ hphase⟩
  | renewLease =>
    obtain rfl := Option.some.inj h
    exact ⟨fun _ _ hholds => hholds, rfl, hbound, hbound, fun _ => hbound⟩
  | updateLease now =>
    obtain rfl := Option.some.inj h
    have hself : stream.Holds ((stream.leaseCall id
          ⟨indexer, duration, running, locals, rewound, .updateLease now⟩
          (.updateLease now false)).perform w.clock w.leases).leases id →
        stream.Holds w.leases id :=
      holds_of_leaseCall_self fun _ => by simp
    refine ⟨fun id' hne hholds => holds_of_leaseCall hne hholds, rfl, fun hholds => ?_, hbound,
      fun _ hholds => hbound (hself hholds)⟩
    dsimp only
    split
    · exact hbound (hself hholds)
    · exact trivial
  | reading =>
    obtain rfl := Option.some.inj h
    exact ⟨fun _ _ hholds => hholds, rfl, hbound, hbound, fun _ => hbound⟩
  | performing effect rest decision =>
    obtain rfl := Option.some.inj h
    have hrest : ∀ {q : IndexerProcess}, q.Pending decision (effect :: rest) →
        q.Pending decision rest := by
      rintro q ⟨db, a, hdecision, hsuffix⟩
      exact ⟨db, a, hdecision, (List.suffix_cons effect rest).trans hsuffix⟩
    cases effect with
    | createOrUpdateCheckpoint c passed =>
      refine ⟨fun _ _ hholds => hholds, rfl, fun hholds => ?_, fun hholds => (hbound hholds).1,
        fun hwindow hholds => ?_⟩
      · have hpending := (hbound hholds).2
        rcases hpending.write with hc | ⟨-, rfl, -, hc⟩
        · have hknown : (⟨indexer, duration, running, locals, false, .looping⟩ :
              IndexerProcess).Known (some c) := ⟨c, rfl, fun _ => hc.le⟩
          exact IndexerProcess.Known.proceed hknown (hrest hpending)
        · exact ⟨c, rfl, fun _ => Nat.le_succ_of_le hc.le⟩
      · rcases (hbound hholds).2.write with hc | ⟨⟨bs, rfl⟩, -⟩
        · exact ⟨c, rfl, fun _ => hc.le⟩
        · exact absurd hwindow (by simp [IndexerProcess.writesWindow])
    | _ =>
      refine ⟨fun _ _ hholds => hholds, rfl, fun hholds => ?_, fun hholds => (hbound hholds).1,
        fun _ hholds => (hbound hholds).1⟩
      obtain ⟨hknown, hpending⟩ := hbound hholds
      exact hknown.proceed (hrest hpending)
  | releasing =>
    obtain rfl := Option.some.inj h
    exact ⟨fun id' hne hholds => holds_of_leaseCall hne hholds, rfl, fun _ => trivial,
      fun _ => trivial, fun _ _ => trivial⟩
  | ended => exact absurd h (by simp [perform])

/-! ## Runs -/

/-- **The invariant**: the holder knows the stored height. -/
def Informed (stream : Stream) (w : StreamWorld) : Prop :=
  ∀ id p, w.processes id = some p → stream.Holds w.leases id → p.Bound w.checkpoint

/-- One process moved on: it knows what it leaves, and no other comes to
hold the lease, nor does while the checkpoint is written. -/
theorem Informed.put {leases : Table Lease.key} {checkpoint : Option Checkpoint}
    (hw : stream.Informed w) (hself : stream.Holds leases id → p.Bound checkpoint)
    (hothers : ∀ id', id' ≠ id → stream.Holds leases id' → stream.Holds w.leases id')
    (hcheckpoint : checkpoint = w.checkpoint ∨ stream.Holds w.leases id) :
    stream.Informed (w.put id p leases checkpoint) := by
  intro id' p' hp' hholds
  by_cases hid : id' = id
  · rw [hid] at hp' hholds
    obtain rfl : p = p' := by simpa [StreamWorld.put] using hp'
    exact hself hholds
  · have hp : w.processes id' = some p' := by simpa [StreamWorld.put, hid] using hp'
    have hheld := hothers id' hid hholds
    rcases hcheckpoint with rfl | hwriter
    · exact hw id' p' hp hheld
    · exact absurd (hheld.unique hwriter) hid

/-- A write that takes effect is the holder's. -/
theorem holds_of_write {answer : Answer} (hC : stream.HeldWrite w (.await id answer))
    (hp : w.processes id = some p) (ho : AwaitSpec stream w id p o) (hanswer : answer ≠ .failed) :
    o.checkpoint = w.checkpoint ∨ stream.Holds w.leases id := by
  cases hwrites : p.writes with
  | none => exact Or.inl (by rw [ho.checkpoint, hwrites, Option.none_or])
  | some c => exact Or.inr (hC p hp (by rw [hwrites]; rfl) hanswer).1

/-- **The step lemma.** -/
theorem informed_step {l : ProcessLabel} (hw : stream.Informed w) (hC : stream.HeldWrite w l)
    (hs : stream.step w l = some w') : stream.Informed w' := by
  cases l with
  | start id indexer leaseDurationMs =>
    simp only [step] at hs
    split at hs
    · obtain rfl := Option.some.inj hs
      exact hw.put (fun _ => trivial) (fun _ _ hholds => hholds) (Or.inl rfl)
    · exact absurd hs (by simp)
  | await id answer =>
    obtain ⟨p, hp, hs⟩ := Option.bind_eq_some_iff.mp hs
    obtain ⟨o, ho, hs⟩ := Option.map_eq_some_iff.mp hs
    have hspec := awaitSpec ho (hw id p hp)
    cases answer with
    | returned =>
      obtain rfl := hs
      exact hw.put hspec.returned hspec.holds (holds_of_write hC hp hspec (by simp))
    | failed =>
      obtain rfl := hs
      exact hw.put hspec.failed (fun _ _ hholds => hholds) (Or.inl rfl)
    | unacknowledged =>
      obtain rfl := hs
      refine hw.put (fun hholds => ?_) hspec.holds (holds_of_write hC hp hspec (by simp))
      refine hspec.unacknowledged (Bool.eq_false_iff.mpr fun hwindow => ?_) hholds
      have hwrites : p.writes.isSome = true := by
        unfold IndexerProcess.writesWindow at hwindow
        unfold IndexerProcess.writes
        split at hwindow
        · rename_i hphase
          rw [hphase]
          rfl
        · exact absurd hwindow Bool.false_ne_true
      exact (hC p hp hwrites (by simp)).2 hwindow rfl
  | read id db a =>
    obtain ⟨p, hp, hs⟩ := Option.bind_eq_some_iff.mp hs
    split at hs
    · rename_i hphase
      obtain rfl := Option.some.inj hs
      refine hw.put (fun hholds => ?_) (fun _ _ hholds => hholds) (Or.inl rfl)
      have hbound := hw id p hp hholds
      simp only [IndexerProcess.Bound, hphase] at hbound
      exact hbound.proceed ⟨db, a, rfl, List.suffix_rfl⟩
    · exact absurd hs (by simp)
  | stop id =>
    obtain ⟨p, hp, rfl⟩ := Option.map_eq_some_iff.mp hs
    exact hw.put (fun hholds => hw id p hp hholds) (fun _ _ hholds => hholds) (Or.inl rfl)
  | release id =>
    obtain ⟨p, hp, hs⟩ := Option.bind_eq_some_iff.mp hs
    split at hs
    · exact absurd hs (by simp)
    · obtain rfl := Option.some.inj hs
      refine hw.put (fun hholds => hw id p hp ?_) (fun id' hne hholds => ?_) (Or.inl rfl)
      · exact holds_of_leaseCall_self (fun _ => by simp) hholds
      · exact holds_of_leaseCall hne hholds
  | crash id =>
    obtain ⟨p, hp, rfl⟩ := Option.map_eq_some_iff.mp hs
    exact hw.put (fun _ => trivial) (fun _ _ hholds => hholds) (Or.inl rfl)
  | tick ms =>
    obtain rfl := Option.some.inj hs
    exact hw

/-- A process that knows the stored height only goes below it after a
reorg. -/
theorem rewound_of_decreases {c c' : Checkpoint} (hbound : p.Bound (some c))
    (hwrites : p.writes = some c') (hlt : c'.nextBlock < c.nextBlock) : p.rewound = true := by
  unfold IndexerProcess.writes at hwrites
  unfold IndexerProcess.Bound at hbound
  split at hwrites
  · rename_i hphase
    rw [hphase] at hbound
    exact absurd hbound (by simp)
  · rename_i hphase
    obtain rfl := Option.some.inj hwrites
    rw [hphase] at hbound
    obtain ⟨⟨known, hknown, hbehind⟩, hpending⟩ := hbound
    obtain rfl := Option.some.inj hknown
    by_contra hrewound
    have hle := hbehind (Bool.eq_false_iff.mpr hrewound)
    rcases hpending.write with hc | ⟨-, -, hc, -⟩ <;> omega
  · exact absurd hwrites (by simp)

/-- A step that is no await leaves the checkpoint alone. -/
theorem checkpoint_of_step {l : ProcessLabel} (hs : stream.step w l = some w')
    (hl : ∀ id answer, l ≠ .await id answer) : w'.checkpoint = w.checkpoint := by
  cases l with
  | await id answer => exact absurd rfl (hl id answer)
  | start id indexer leaseDurationMs =>
    simp only [step] at hs
    split at hs
    · rw [← Option.some.inj hs]
      rfl
    · exact absurd hs (by simp)
  | read id db a =>
    obtain ⟨p, -, hs⟩ := Option.bind_eq_some_iff.mp hs
    split at hs
    · rw [← Option.some.inj hs]
      rfl
    · exact absurd hs (by simp)
  | stop id | crash id =>
    obtain ⟨p, -, rfl⟩ := Option.map_eq_some_iff.mp hs
    rfl
  | release id =>
    obtain ⟨p, -, hs⟩ := Option.bind_eq_some_iff.mp hs
    split at hs
    · exact absurd hs (by simp)
    · rw [← Option.some.inj hs]
      rfl
  | tick ms =>
    rw [← Option.some.inj hs]

/-- An await that changes the checkpoint is a write of the holder's. -/
theorem await_cases {answer : Answer} (hw : stream.Informed w)
    (hC : stream.HeldWrite w (.await id answer)) (hs : stream.step w (.await id answer) = some w') :
    w'.checkpoint = w.checkpoint ∨ ∃ p, w.processes id = some p ∧ stream.Holds w.leases id ∧
      p.writes.isSome = true ∧ w'.checkpoint = p.writes := by
  obtain ⟨p, hp, hs⟩ := Option.bind_eq_some_iff.mp hs
  obtain ⟨o, ho, hs⟩ := Option.map_eq_some_iff.mp hs
  have hspec := awaitSpec ho (hw id p hp)
  have hwritten : answer ≠ .failed → o.checkpoint = w.checkpoint ∨
      ∃ p, w.processes id = some p ∧ stream.Holds w.leases id ∧ p.writes.isSome = true ∧
        o.checkpoint = p.writes := by
    intro hanswer
    cases hwrites : p.writes with
    | none => exact Or.inl (by rw [hspec.checkpoint, hwrites, Option.none_or])
    | some c =>
      have hsome : p.writes.isSome = true := by rw [hwrites]; rfl
      refine Or.inr ⟨p, hp, (hC p hp hsome hanswer).1, hsome, ?_⟩
      rw [hspec.checkpoint, hwrites, Option.some_or]
  cases answer with
  | returned =>
    obtain rfl := hs
    exact hwritten (by simp)
  | failed =>
    obtain rfl := hs
    exact Or.inl rfl
  | unacknowledged =>
    obtain rfl := hs
    exact hwritten (by simp)

/-- **The checkpoint is safe while the holder writes it.** In every run in
which each write that takes effect is made while the lease names its
worker, and no window's write is left unacknowledged, no other worker's
write has an effect, and the stored height goes back for a reorg of the
holder's only. -/
theorem checkpointSafe_of_reaches (stream : Stream)
    (h : stream.machine.Reaches stream.HeldWrite w) :
    stream.CheckpointSafe stream.HeldWrite w := by
  have hw : stream.Informed w :=
    h.invariant (I := stream.Informed) (fun w hinit id p hp => absurd hp (by simp [hinit id]))
      fun w l w' hI hC hs => informed_step hI hC hs
  constructor
  · intro id answer w' hC hs hstale
    rcases await_cases hw hC hs with hsame | ⟨p, -, hholds, -⟩
    · exact hsame
    · exact absurd hholds hstale
  · intro l w' c c' hC hs hc hc' hlt
    by_cases hl : ∃ id answer, l = .await id answer
    · obtain ⟨id, answer, rfl⟩ := hl
      rcases await_cases hw hC hs with hsame | ⟨p, hp, hholds, -, hwrites⟩
      · rw [hsame, hc, Option.some.injEq] at hc'
        rw [hc'] at hlt
        exact absurd hlt (Nat.lt_irrefl _)
      · have hbound := hw id p hp hholds
        rw [hc] at hbound
        exact ⟨id, answer, p, rfl, hp, hholds,
          rewound_of_decreases hbound (hwrites.symm.trans hc') hlt⟩
    · have hsame := checkpoint_of_step hs fun id answer heq => hl ⟨id, answer, heq⟩
      rw [hsame, hc, Option.some.injEq] at hc'
      rw [hc'] at hlt
      exact absurd hlt (Nat.lt_irrefl _)

/-! ## A pass that outlasts its lease -/

/-- The live stream of chain 1. -/
def liveStream : Stream := ⟨1, "live-1"⟩

/-- No lease, no checkpoint and no process. -/
def noProcesses : StreamWorld := ⟨0, ∅, none, fun _ => none⟩

/-- So many awaits of a process, each answered. -/
def awaits (id : String) (n : ℕ) : List ProcessLabel := List.replicate n (.await id .returned)

/-- A pass up to its reads, of two blocks a provider serves. -/
def readPass (id : String) : List ProcessLabel :=
  awaits id 3 ++
    [.read id Db.empty (Answers.ofBlocks 6 [.bare 5 105 104, .bare 6 106 105])]

/-- A worker starts the stream and reads the first block. -/
def firstWorker : List ProcessLabel :=
  .start "a" .bare 10 :: awaits "a" 4 ++ readPass "a"

/-- Its lease expires, and another takes over and indexes two blocks. -/
def secondWorker : List ProcessLabel :=
  [.tick 20, .start "b" .bare 10] ++ awaits "b" 8 ++ readPass "b" ++ awaits "b" 2 ++ readPass "b" ++
    awaits "b" 2

/-- **The first worker alone** has a safe checkpoint. -/
theorem checkpointSafe_sample : ∃ w,
    liveStream.machine.exec noProcesses (firstWorker ++ awaits "a" 2) = some w ∧
      w.checkpoint = some ⟨6, some ⟨105⟩⟩ ∧ liveStream.CheckpointSafe liveStream.HeldWrite w := by
  have hmeets : liveStream.machine.Meets liveStream.HeldWrite noProcesses
      (firstWorker ++ awaits "a" 2) := by decide +kernel
  have hrun : (liveStream.machine.exec noProcesses (firstWorker ++ awaits "a" 2)).map
      (·.checkpoint) = some (some ⟨6, some ⟨105⟩⟩) := by decide +kernel
  obtain ⟨w, hw, hcheckpoint⟩ := Option.map_eq_some_iff.mp hrun
  have hinit : liveStream.machine.Init noProcesses := fun _ => rfl
  exact ⟨w, hw, hcheckpoint, checkpointSafe_of_reaches liveStream
    (Machine.Reaches.exec (.init hinit) hmeets hw)⟩

/-- **A worker that was taken over moves the checkpoint back.** Its block
is persisted after the second worker's two, and its write follows. -/
theorem not_checkpointSafe :
    ¬∀ w, liveStream.machine.Reachable w → liveStream.CheckpointSafe (fun _ _ => True) w := by
  intro h
  have hrun : (liveStream.machine.exec noProcesses
      (firstWorker ++ secondWorker ++ awaits "a" 1)).map (fun w =>
        (w.checkpoint, decide (liveStream.Holds w.leases "a"), w.leases.rows.map (·.workerId),
          (liveStream.step w (.await "a" .returned)).map (·.checkpoint))) =
      some (some ⟨7, some ⟨106⟩⟩, false, ["b"], some (some ⟨6, some ⟨105⟩⟩)) := by
    decide +kernel
  obtain ⟨w, hw, hread⟩ := Option.map_eq_some_iff.mp hrun
  obtain ⟨hcheckpoint, hread⟩ := Prod.mk.inj hread
  obtain ⟨hholds, hread⟩ := Prod.mk.inj hread
  obtain ⟨-, hstep⟩ := Prod.mk.inj hread
  obtain ⟨w', hw', hcheckpoint'⟩ := Option.map_eq_some_iff.mp hstep
  have hsafe := h w (Machine.reachable_of_exec (fun _ => rfl) hw)
  have hsame := hsafe.stale "a" .returned w' trivial hw' (of_decide_eq_false hholds)
  rw [hcheckpoint, hcheckpoint'] at hsame
  exact absurd hsame (by decide)

end Stream

end HoodSentry
