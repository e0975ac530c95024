import HoodSentry.Common.Machine
/-!
# Idempotent execution

`packages/db/src/core/idempotency.ts`, for the calls of `withIdempotency` with
one key and namespace. A call reads the row, runs the function if it finds no
live record, and writes the record last, over whatever is there by then: calls
that all read before the first of them commits execute the function each. The
row is the one of its key, which is unique, so a write waits for the
transaction that has written it.
-/

namespace HoodSentry

namespace Idempotency

variable {J : Type}

/-! ## Records -/

/-- What a function resolves to: nothing, or a value that is written as
JSON. -/
inductive FnResult (J : Type)
  | undefined
  | json (value : J)

structure IdempotencyRecord (J : Type) where
  responseData : J
  expiresAt : Option ℕ

/-- Not `expires_at < new Date()`, if there is such a time. -/
def IdempotencyRecord.live (record : IdempotencyRecord J) (now : ℕ) : Bool :=
  record.expiresAt.all fun expiresAt => now ≤ expiresAt

/-- `checkIdempotencyKey`, on the row that is committed. -/
def checkIdempotencyKey (row : Option (IdempotencyRecord J)) (now : ℕ) :
    Option (IdempotencyRecord J) :=
  row.filter fun record => record.live now

/-- `setIdempotencyKey`: `jsonb` is what the column gives back of a value. A
missing value is the column's default in an `INSERT`, and leaves it as it is
in an `UPDATE`. -/
def setIdempotencyKey (jsonb : J → J) (null : J) (row : Option (IdempotencyRecord J))
    (result : FnResult J) (expiresAt : Option ℕ) : IdempotencyRecord J :=
  match result, row with
  | .json value, _ => ⟨jsonb value, expiresAt⟩
  | .undefined, some old => ⟨old.responseData, expiresAt⟩
  | .undefined, none => ⟨null, expiresAt⟩

/-! ## Transactions -/

/-- How far a transaction is with its call. -/
inductive Phase (J : Type)
  | idle
  | found (value : J)
  | missed
  | executed (result : FnResult J)
  | written (result : FnResult J)
  | done

/-- It has found no live record, and is open. -/
def Phase.Missing : Phase J → Prop
  | .missed | .executed _ | .written _ => True
  | _ => False

/-- A transaction that has committed: whether it has executed the function,
and what its call returned. -/
structure Committed (J : Type) where
  executed : Bool
  returned : FnResult J

/-- **The key's row and the transactions on it.** `pending` is the row as an
open transaction has written it; the key has `expired` once a record it had
while the run went on is live no more. -/
structure World (J : Type) where
  now : ℕ
  row : Option (IdempotencyRecord J)
  pending : Option (ℕ × IdempotencyRecord J)
  phase : ℕ → Phase J
  committed : List (Committed J)
  expired : Bool

inductive Label (J : Type)
  | check (t : ℕ)
  | execute (t : ℕ) (result : FnResult J)
  | write (t : ℕ) (expiresAt : Option ℕ)
  | commit (t : ℕ)
  | abort (t : ℕ)
  | tick (later : ℕ)

namespace World

def setPhase (w : World J) (t : ℕ) (phase : Phase J) : World J :=
  { w with phase := Function.update w.phase t phase }

/-- The transaction's first statement. -/
def check (w : World J) (t : ℕ) : World J :=
  match checkIdempotencyKey w.row w.now with
  | some record => w.setPhase t (.found record.responseData)
  | none => w.setPhase t .missed

/-- A commit takes what is pending into the row; a record that is over by then
has expired. -/
def commit (w : World J) (t : ℕ) : Option (World J) :=
  match w.phase t, w.pending with
  | .found value, _ =>
    some { w.setPhase t .done with committed := ⟨false, .json value⟩ :: w.committed }
  | .written result, some (_, record) =>
    some { w.setPhase t .done with
      row := some record
      pending := none
      committed := ⟨true, result⟩ :: w.committed
      expired := w.expired || !record.live w.now }
  | _, _ => none

/-- Neither the row nor what others have written is touched. -/
def abort (w : World J) (t : ℕ) : World J :=
  { w.setPhase t .done with pending := w.pending.filter fun written => written.1 ≠ t }

/-- The clock goes on. -/
def tick (w : World J) (later : ℕ) : World J :=
  { w with
    now := later
    expired := w.expired || w.row.any fun record => record.live w.now && !record.live later }

/-- **One step** of the database: a write waits for the one that is pending. -/
def step (jsonb : J → J) (null : J) (w : World J) : Label J → Option (World J)
  | .check t =>
    match w.phase t with
    | .idle => some (w.check t)
    | _ => none
  | .execute t result =>
    match w.phase t with
    | .missed => some (w.setPhase t (.executed result))
    | _ => none
  | .write t expiresAt =>
    match w.phase t, w.pending with
    | .executed result, none =>
      some { w.setPhase t (.written result) with
        pending := some (t, setIdempotencyKey jsonb null w.row result expiresAt) }
    | _, _ => none
  | .commit t => w.commit t
  | .abort t =>
    match w.phase t with
    | .idle | .done => none
    | _ => some (w.abort t)
  | .tick later => if w.now ≤ later then some (w.tick later) else none

/-- No transaction has begun; there may be a row. -/
structure Initial (w : World J) : Prop where
  idle : ∀ t, w.phase t = .idle
  pending : w.pending = none
  committed : w.committed = []
  expired : w.expired = false

end World

/-- **The machine** of a database with one key. -/
def database (jsonb : J → J) (null : J) : Machine (World J) (Label J) where
  Init := World.Initial
  step := World.step jsonb null

/-! ## What is claimed, and under which condition -/

/-- **Executed once**: until the key expires, at most one transaction that has
committed has executed the function, and all of them returned what the row
holds. -/
def ExecutedOnce (w : World J) : Prop :=
  w.expired = false →
    w.committed.countP (·.executed) ≤ 1 ∧
      ∀ c ∈ w.committed, ∃ record ∈ w.row, c.returned = .json record.responseData

/-- **One after the other**: a transaction that finds no live record begins
while no other that found none is open, and the function resolves to what the
column gives back. -/
def OneByOne (jsonb : J → J) (w : World J) : Label J → Prop
  | .check _ => checkIdempotencyKey w.row w.now = none → ∀ t, ¬ (w.phase t).Missing
  | .execute _ result => ∃ value, result = .json value ∧ jsonb value = value
  | _ => True

/-! ## The invariant -/

/-- The live record of the key. -/
def World.current (w : World J) : Option (IdempotencyRecord J) :=
  checkIdempotencyKey w.row w.now

/-- **While the key has not expired**, one transaction at most is open that
found no record, and there is none as long as it is; what was found or
committed is in the record. -/
structure Invariant (jsonb : J → J) (w : World J) : Prop where
  single : ∀ t u, (w.phase t).Missing → (w.phase u).Missing → t = u
  missing : w.expired = false → ∀ t, (w.phase t).Missing → w.current = none
  found : w.expired = false → ∀ t value, w.phase t = .found value →
    ∃ record ∈ w.current, record.responseData = value
  committed : w.expired = false → ∀ c ∈ w.committed,
    ∃ record ∈ w.current, c.returned = .json record.responseData
  once : w.expired = false → w.committed.countP (·.executed) ≤ 1
  executed : ∀ t result, w.phase t = .executed result →
    ∃ value, result = .json value ∧ jsonb value = value
  written : ∀ t result, w.phase t = .written result →
    ∃ record, w.pending = some (t, record) ∧ result = .json record.responseData

variable {jsonb : J → J} {null : J} {w : World J} {t u : ℕ} {phase : Phase J}

theorem live_of_current {record : IdempotencyRecord J} (h : record ∈ w.current) :
    w.row = some record ∧ record.live w.now = true :=
  Option.filter_eq_some_iff.mp h

/-- A record that is over stays over. -/
theorem live_mono {record : IdempotencyRecord J} {now later : ℕ} (hle : now ≤ later)
    (h : record.live later = true) : record.live now = true := by
  unfold IdempotencyRecord.live at h ⊢
  cases hexpires : record.expiresAt with
  | none => rfl
  | some expiresAt =>
    rw [hexpires, Option.all_some, decide_eq_true_eq] at h
    rw [Option.all_some, decide_eq_true_eq]
    omega

theorem phase_setPhase (w : World J) (t : ℕ) (phase : Phase J) (u : ℕ) :
    (w.setPhase t phase).phase u = if u = t then phase else w.phase u :=
  Function.update_apply ..

/-- What a transaction's next phase must keep, where only that changes. -/
theorem Invariant.setPhase (h : Invariant jsonb w)
    (hmissing : phase.Missing → (∀ u, (w.phase u).Missing → u = t) ∧
      (w.expired = false → w.current = none))
    (hfound : w.expired = false → ∀ value, phase = .found value →
      ∃ record ∈ w.current, record.responseData = value)
    (hexecuted : ∀ result, phase = .executed result →
      ∃ value, result = .json value ∧ jsonb value = value)
    (hwritten : ∀ result, phase = .written result →
      ∃ record, w.pending = some (t, record) ∧ result = .json record.responseData) :
    Invariant jsonb (w.setPhase t phase) where
  single u v hu hv := by
    rw [phase_setPhase] at hu hv
    split at hu <;> split at hv
    · exact ‹u = t›.trans ‹v = t›.symm
    · exact ‹u = t›.trans ((hmissing hu).1 v hv).symm
    · exact ((hmissing hv).1 u hu).trans ‹v = t›.symm
    · exact h.single u v hu hv
  missing hexpired u hu := by
    rw [phase_setPhase] at hu
    split at hu
    · exact (hmissing hu).2 hexpired
    · exact h.missing hexpired u hu
  found hexpired u value hu := by
    rw [phase_setPhase] at hu
    split at hu
    · exact hfound hexpired value hu
    · exact h.found hexpired u value hu
  committed := h.committed
  once := h.once
  executed u result hu := by
    rw [phase_setPhase] at hu
    split at hu
    · exact hexecuted result hu
    · exact h.executed u result hu
  written u result hu := by
    rw [phase_setPhase] at hu
    split at hu
    · rename_i heq
      exact heq ▸ hwritten result hu
    · exact h.written u result hu

theorem invariant_of_initial (h : w.Initial) : Invariant jsonb w where
  single u v hu := by
    rw [h.idle] at hu
    exact hu.elim
  missing _ u hu := by
    rw [h.idle] at hu
    exact hu.elim
  found _ u value hu := by
    rw [h.idle] at hu
    cases hu
  committed _ c hc := by
    rw [h.committed] at hc
    cases hc
  once _ := by
    rw [h.committed]
    exact Nat.zero_le 1
  executed u result hu := by
    rw [h.idle] at hu
    cases hu
  written u result hu := by
    rw [h.idle] at hu
    cases hu

/-! ## Steps -/

theorem Invariant.check (h : Invariant jsonb w)
    (hcondition : w.current = none → ∀ u, ¬ (w.phase u).Missing) : Invariant jsonb (w.check t) := by
  unfold World.check
  cases hcurrent : checkIdempotencyKey w.row w.now with
  | some record =>
    refine h.setPhase False.elim ?_ nofun nofun
    rintro - value ⟨⟩
    exact ⟨record, hcurrent, rfl⟩
  | none =>
    refine h.setPhase (fun _ => ⟨fun u hu => ?_, fun _ => hcurrent⟩) nofun nofun nofun
    exact absurd hu (hcondition hcurrent u)

theorem Invariant.execute (h : Invariant jsonb w) (hphase : w.phase t = .missed) {value : J}
    (hvalue : jsonb value = value) : Invariant jsonb (w.setPhase t (.executed (.json value))) := by
  have hmissing : (w.phase t).Missing := hphase ▸ trivial
  refine h.setPhase (fun _ => ⟨fun u hu => h.single u t hu hmissing, fun hexpired =>
    h.missing hexpired t hmissing⟩) nofun ?_ nofun
  rintro result ⟨⟩
  exact ⟨value, rfl, hvalue⟩

/-- While nothing is pending, no transaction is written. -/
theorem Invariant.ne_written (h : Invariant jsonb w) (hpending : w.pending = none)
    {result : FnResult J} : w.phase u ≠ .written result := by
  intro hu
  obtain ⟨record, hsome, -⟩ := h.written u result hu
  rw [hpending] at hsome
  cases hsome

theorem Invariant.setPending (h : Invariant jsonb w)
    (pending : Option (ℕ × IdempotencyRecord J))
    (hwritten : ∀ u result, w.phase u = .written result →
      ∃ record, pending = some (u, record) ∧ result = .json record.responseData) :
    Invariant jsonb { w with pending := pending } :=
  { h with written := hwritten }

theorem Invariant.write (h : Invariant jsonb w) {result : FnResult J}
    (hphase : w.phase t = .executed result) (hpending : w.pending = none) (expiresAt : Option ℕ) :
    Invariant jsonb { w.setPhase t (.written result) with
      pending := some (t, setIdempotencyKey jsonb null w.row result expiresAt) } := by
  have hmissing : (w.phase t).Missing := hphase ▸ trivial
  obtain ⟨value, rfl, hvalue⟩ := h.executed t result hphase
  have hnext : Invariant jsonb { w with
      pending := some (t, setIdempotencyKey jsonb null w.row (.json value) expiresAt) } :=
    h.setPending _ fun u result hu => absurd hu (h.ne_written hpending)
  refine hnext.setPhase (fun _ => ⟨fun u hu => h.single u t hu hmissing, fun hexpired =>
    h.missing hexpired t hmissing⟩) nofun nofun ?_
  rintro result ⟨⟩
  exact ⟨_, rfl, congrArg FnResult.json hvalue.symm⟩

theorem Invariant.done (h : Invariant jsonb w) : Invariant jsonb (w.setPhase t .done) :=
  h.setPhase False.elim nofun nofun nofun

theorem Invariant.abort (h : Invariant jsonb w) : Invariant jsonb (w.abort t) := by
  refine h.done.setPending _ fun u result hu => ?_
  rw [phase_setPhase] at hu
  split at hu
  · cases hu
  · rename_i hne
    obtain ⟨record, hpending, hresult⟩ := h.written u result hu
    refine ⟨record, ?_, hresult⟩
    rw [hpending, Option.filter_some, if_pos (decide_eq_true hne)]

/-- **A call that found a record** returns it. -/
theorem Invariant.commit_found (h : Invariant jsonb w) {value : J}
    (hphase : w.phase t = .found value) :
    Invariant jsonb { w.setPhase t .done with
      committed := ⟨false, .json value⟩ :: w.committed } :=
  { h.done with
    committed := by
      intro hexpired c hc
      rcases List.mem_cons.mp hc with rfl | hc
      · obtain ⟨record, hrecord, rfl⟩ := h.found hexpired t value hphase
        exact ⟨record, hrecord, rfl⟩
      · exact h.committed hexpired c hc
    once := by
      intro hexpired
      rw [List.countP_cons_of_neg Bool.false_ne_true]
      exact h.once hexpired }

/-- **One that executed the function** is the first to commit. -/
theorem Invariant.commit_written (h : Invariant jsonb w) {result : FnResult J}
    (hphase : w.phase t = .written result) {owner : ℕ} {record : IdempotencyRecord J}
    (hpending : w.pending = some (owner, record)) :
    Invariant jsonb { w.setPhase t .done with
      row := some record
      pending := none
      committed := ⟨true, result⟩ :: w.committed
      expired := w.expired || !record.live w.now } := by
  have hmissing : (w.phase t).Missing := hphase ▸ trivial
  obtain ⟨written, hwritten, rfl⟩ := h.written t result hphase
  obtain ⟨rfl, rfl⟩ := Prod.mk.inj (Option.some.inj (hpending.symm.trans hwritten))
  have hnot : ∀ u, ¬ ((w.setPhase owner .done).phase u).Missing := by
    intro u hu
    rw [phase_setPhase] at hu
    split at hu
    · exact hu
    · exact absurd (h.single u owner hu hmissing) ‹u ≠ owner›
  have hcurrent : (w.expired || !record.live w.now) = false →
      w.expired = false ∧ checkIdempotencyKey (some record) w.now = some record := by
    intro hexpired
    rw [Bool.or_eq_false_iff, Bool.not_eq_false'] at hexpired
    exact ⟨hexpired.1, Option.filter_eq_some_iff.mpr ⟨rfl, hexpired.2⟩⟩
  have hnone : w.expired = false → w.committed = [] := by
    intro hexpired
    refine List.eq_nil_iff_forall_not_mem.mpr fun c hc => ?_
    obtain ⟨found, hfound, -⟩ := h.committed hexpired c hc
    rw [h.missing hexpired owner hmissing] at hfound
    cases hfound
  constructor
  · exact fun u v hu => absurd hu (hnot u)
  · exact fun _ u hu => absurd hu (hnot u)
  · intro hexpired u value hu
    obtain ⟨found, hfound, -⟩ := h.done.found (hcurrent hexpired).1 u value hu
    rw [World.current] at hfound
    have hdead := h.missing (hcurrent hexpired).1 owner hmissing
    exact absurd (hdead.symm.trans hfound) nofun
  · intro hexpired c hc
    obtain ⟨hbefore, hlive⟩ := hcurrent hexpired
    rw [hnone hbefore, List.mem_singleton] at hc
    exact ⟨record, hlive, hc ▸ rfl⟩
  · intro hexpired
    rw [hnone (hcurrent hexpired).1]
    exact Nat.le_refl 1
  · exact h.done.executed
  · intro u result hu
    exact absurd (show (w.setPhase owner .done).phase u = .written result from hu)
      fun h => hnot u (h ▸ trivial)

theorem Invariant.tick (h : Invariant jsonb w) {later : ℕ} (hle : w.now ≤ later) :
    Invariant jsonb (w.tick later) := by
  have hcurrent : (w.tick later).expired = false →
      w.expired = false ∧ (w.tick later).current = w.current := by
    intro hexpired
    obtain ⟨hbefore, hrow⟩ := Bool.or_eq_false_iff.mp hexpired
    refine ⟨hbefore, ?_⟩
    show checkIdempotencyKey w.row later = checkIdempotencyKey w.row w.now
    cases hrecord : w.row with
    | none => rfl
    | some record =>
      rw [hrecord, Option.any_some] at hrow
      have hsame : record.live later = record.live w.now := by
        cases hlater : record.live later with
        | true => exact (live_mono hle hlater).symm
        | false => simpa [hlater] using hrow.symm
      rw [checkIdempotencyKey, checkIdempotencyKey, Option.filter_some, Option.filter_some, hsame]
  constructor
  · exact h.single
  · intro hexpired u hu
    rw [(hcurrent hexpired).2]
    exact h.missing (hcurrent hexpired).1 u hu
  · intro hexpired u value hu
    rw [(hcurrent hexpired).2]
    exact h.found (hcurrent hexpired).1 u value hu
  · intro hexpired c hc
    rw [(hcurrent hexpired).2]
    exact h.committed (hcurrent hexpired).1 c hc
  · exact fun hexpired => h.once (hcurrent hexpired).1
  · exact h.executed
  · exact h.written

/-- **Every step that meets the condition keeps the invariant.** -/
theorem Invariant.step {label : Label J} {next : World J} (h : Invariant jsonb w)
    (hcondition : OneByOne jsonb w label) (hstep : w.step jsonb null label = some next) :
    Invariant jsonb next := by
  cases label with
  | check t =>
    simp only [World.step] at hstep
    split at hstep
    · cases hstep
      exact h.check hcondition
    · cases hstep
  | execute t result =>
    simp only [World.step] at hstep
    split at hstep
    · rename_i hphase
      obtain ⟨value, rfl, hvalue⟩ := hcondition
      cases hstep
      exact h.execute hphase hvalue
    · cases hstep
  | write t expiresAt =>
    simp only [World.step] at hstep
    split at hstep
    · rename_i hphase hpending
      cases hstep
      exact h.write hphase hpending expiresAt
    · cases hstep
  | commit t =>
    simp only [World.step, World.commit] at hstep
    split at hstep
    · rename_i hphase
      cases hstep
      exact h.commit_found hphase
    · rename_i hphase hpending
      cases hstep
      exact h.commit_written hphase hpending
    · cases hstep
  | abort t =>
    simp only [World.step] at hstep
    split at hstep
    · cases hstep
    · cases hstep
    · cases hstep
      exact h.abort
  | tick later =>
    simp only [World.step] at hstep
    split at hstep
    · cases hstep
      exact h.tick ‹_›
    · cases hstep

/-- **Executed once**, in every run of transactions one after the other. -/
theorem executedOnce_of_reaches (hreaches : (database jsonb null).Reaches (OneByOne jsonb) w) :
    ExecutedOnce w := by
  have h : Invariant jsonb w :=
    hreaches.invariant (fun _ => invariant_of_initial) fun _ _ _ h hcondition hstep =>
      h.step hcondition hstep
  intro hexpired
  refine ⟨h.once hexpired, fun c hc => ?_⟩
  obtain ⟨record, hrecord, hreturned⟩ := h.committed hexpired c hc
  exact ⟨record, (live_of_current hrecord).1, hreturned⟩

/-! ## Two callers -/

/-- A key without a row. -/
def freshKey : World ℕ where
  now := 0
  row := none
  pending := none
  phase _ := .idle
  committed := []
  expired := false

theorem initial_freshKey : freshKey.Initial where
  idle _ := rfl
  pending := rfl
  committed := rfl
  expired := rfl

/-- The second call comes when the first has committed. -/
def secondCall : List (Label ℕ) :=
  [.check 0, .execute 0 (.json 7), .write 0 none, .commit 0, .check 1, .commit 1]

/-- It returns what the first has stored. -/
theorem executedOnce_secondCall : ∃ w, (database id 0).exec freshKey secondCall = some w ∧
    w.committed.length = 2 ∧ ExecutedOnce w := by
  have hmeets : (database id 0).Meets (OneByOne id) freshKey secondCall := by
    refine ⟨fun _ _ => id, ?_⟩
    rintro _ ⟨⟩
    refine ⟨⟨7, rfl, rfl⟩, ?_⟩
    rintro _ ⟨⟩
    refine ⟨trivial, ?_⟩
    rintro _ ⟨⟩
    refine ⟨trivial, ?_⟩
    rintro _ ⟨⟩
    refine ⟨nofun, ?_⟩
    rintro _ ⟨⟩
    exact ⟨trivial, fun _ _ => trivial⟩
  exact ⟨_, rfl, rfl, executedOnce_of_reaches
    (Machine.Reaches.exec (.init initial_freshKey) hmeets rfl)⟩

/-- Both calls read before the first of them commits. -/
def bothCheck : List (Label ℕ) :=
  [.check 0, .check 1, .execute 0 (.json 7), .execute 1 (.json 8), .write 0 none, .commit 0,
    .write 1 none, .commit 1]

/-- The function resolves to nothing. -/
def nothingStored : List (Label ℕ) :=
  [.check 0, .execute 0 .undefined, .write 0 none, .commit 0, .check 1, .commit 1]

/-- **Both execute the function**, and the first returns another value than is
stored; and of a call without a value the next one returns null. -/
theorem not_executedOnce_bothCheck :
    (∃ w, (database id 0).exec freshKey bothCheck = some w ∧ w.expired = false ∧
      w.committed.countP (·.executed) = 2 ∧ ¬ ExecutedOnce w) ∧
    ∃ w, (database id 0).exec freshKey nothingStored = some w ∧
      w.committed.map (·.returned) = [.json 0, .undefined] ∧ ¬ ExecutedOnce w := by
  constructor
  · refine ⟨_, rfl, rfl, rfl, fun h => ?_⟩
    exact absurd (h rfl).1 (by decide)
  · refine ⟨_, rfl, rfl, fun h => ?_⟩
    obtain ⟨record, -, hreturned⟩ := (h rfl).2 ⟨true, .undefined⟩
      (List.mem_cons_of_mem _ List.mem_cons_self)
    cases hreturned

end Idempotency

end HoodSentry
