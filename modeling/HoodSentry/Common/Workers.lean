import HoodSentry.Common.Machine
/-!
# Workers on a shared state

Attempts that run beside each other on a state they share. An attempt is
cut at its calls: a call reads and writes the shared state at once, and
between two calls of one attempt the others may make any of theirs. A
call may also throw, without effect or after it, and an attempt may die
at any point.

`Keeps` is the shape of an invariant of such a machine: a part about the
shared state, a part about each attempt, and a part about any two of
them. Its rules reduce a step to what the step changes.
-/

namespace HoodSentry

universe u

/-- What a caller learns of its call. -/
inductive Answer
  | returned
  /-- It threw and had no effect. -/
  | failed
  /-- It had its effect and threw. -/
  | unacknowledged
deriving DecidableEq

/-- Where an attempt stands. -/
inductive Progress (φ ρ : Type u)
  | idle
  | running (p : φ)
  | returned (r : ρ)
  | threw
  | crashed
deriving DecidableEq

/-- **A procedure**, by the phases it passes through: `call` is the effect
of a phase's call, given what it is answered, and where it leads;
`thrown` is where a throw leads. `env` is what else moves the shared
state. -/
structure Procedure (σ φ κ ρ ι ε : Type u) where
  start : ι → φ
  call : σ → φ → κ → Option (σ × Progress φ ρ)
  thrown : φ → Progress φ ρ
  env : σ → ε → Option σ

/-- The shared state and the attempts on it. -/
structure Workers (σ φ ρ : Type u) where
  shared : σ
  progress : ℕ → Progress φ ρ

inductive WorkerLabel (κ ι ε : Type u)
  | start (id : ℕ) (i : ι)
  | call (id : ℕ) (k : κ) (a : Answer)
  | crash (id : ℕ)
  | env (e : ε)

/-- The attempt a label is about. -/
def WorkerLabel.attempt {κ ι ε : Type u} : WorkerLabel κ ι ε → Option ℕ
  | .start id _ | .call id _ _ | .crash id => some id
  | .env _ => none

/-- Another shared state, and one attempt moved on. -/
def Workers.put {σ φ ρ : Type u} (w : Workers σ φ ρ) (id : ℕ) (s : σ) (n : Progress φ ρ) :
    Workers σ φ ρ where
  shared := s
  progress := Function.update w.progress id n

namespace Procedure

variable {σ φ κ ρ ι ε : Type u} (P : Procedure σ φ κ ρ ι ε)

def step (w : Workers σ φ ρ) : WorkerLabel κ ι ε → Option (Workers σ φ ρ)
  | .start id i =>
    match w.progress id with
    | .idle => some (w.put id w.shared (.running (P.start i)))
    | _ => none
  | .call id k a =>
    match w.progress id with
    | .running p => (P.call w.shared p k).map fun (s, n) =>
        match a with
        | .returned => w.put id s n
        | .failed => w.put id w.shared (P.thrown p)
        | .unacknowledged => w.put id s (P.thrown p)
    | _ => none
  | .crash id =>
    match w.progress id with
    | .running _ => some (w.put id w.shared .crashed)
    | _ => none
  | .env e => (P.env w.shared e).map fun s => { w with shared := s }

/-- **The attempts of a procedure**, any number of them, from a shared
state and nothing started. -/
def machine (Init : σ → Prop) : Machine (Workers σ φ ρ) (WorkerLabel κ ι ε) where
  Init w := Init w.shared ∧ ∀ id, w.progress id = .idle
  step := P.step

/-! ## What a step can do -/

/-- **The steps**, one constructor for each. -/
inductive Step (w : Workers σ φ ρ) : WorkerLabel κ ι ε → Workers σ φ ρ → Prop
  | start {id : ℕ} {i : ι} (h : w.progress id = .idle) :
      Step w (.start id i) (w.put id w.shared (.running (P.start i)))
  | returned {id : ℕ} {k : κ} {p : φ} {s : σ} {n : Progress φ ρ} (h : w.progress id = .running p)
      (hcall : P.call w.shared p k = some (s, n)) : Step w (.call id k .returned) (w.put id s n)
  | failed {id : ℕ} {k : κ} {p : φ} {s : σ} {n : Progress φ ρ} (h : w.progress id = .running p)
      (hcall : P.call w.shared p k = some (s, n)) :
      Step w (.call id k .failed) (w.put id w.shared (P.thrown p))
  | unacknowledged {id : ℕ} {k : κ} {p : φ} {s : σ} {n : Progress φ ρ}
      (h : w.progress id = .running p) (hcall : P.call w.shared p k = some (s, n)) :
      Step w (.call id k .unacknowledged) (w.put id s (P.thrown p))
  | crash {id : ℕ} {p : φ} (h : w.progress id = .running p) :
      Step w (.crash id) (w.put id w.shared .crashed)
  | env {e : ε} {s : σ} (h : P.env w.shared e = some s) :
      Step w (.env e) { w with shared := s }

variable {P} {w w' : Workers σ φ ρ} {l : WorkerLabel κ ι ε}

/-- A step taken is one of them. -/
theorem Step.of_step (h : P.step w l = some w') : P.Step w l w' := by
  cases l with
  | start id i =>
    simp only [step] at h
    split at h
    · rename_i hidle
      obtain rfl := Option.some.inj h
      exact .start hidle
    · exact absurd h (by simp)
  | call id k a =>
    simp only [step] at h
    split at h
    · rename_i p hp
      obtain ⟨⟨s, n⟩, hcall, hw⟩ := Option.map_eq_some_iff.mp h
      cases a with
      | returned =>
        obtain rfl := hw
        exact .returned hp hcall
      | failed =>
        obtain rfl := hw
        exact .failed hp hcall
      | unacknowledged =>
        obtain rfl := hw
        exact .unacknowledged hp hcall
    · exact absurd h (by simp)
  | crash id =>
    simp only [step] at h
    split at h
    · rename_i p hp
      obtain rfl := Option.some.inj h
      exact .crash hp
    · exact absurd h (by simp)
  | env e =>
    obtain ⟨s, hs, rfl⟩ := Option.map_eq_some_iff.mp h
    exact .env hs

/-- **The invariant rule of a procedure**, over its steps. -/
theorem invariant_of_reaches {Init : σ → Prop} {C : Workers σ φ ρ → WorkerLabel κ ι ε → Prop}
    {I : Workers σ φ ρ → Prop} (h : (P.machine Init).Reaches C w)
    (hinit : ∀ w, Init w.shared → (∀ id, w.progress id = .idle) → I w)
    (hstep : ∀ w l w', I w → C w l → P.Step w l w' → I w') : I w := by
  refine h.invariant (I := I) (fun w hw => ?_) fun w l w' hI hC hs => ?_
  · exact hinit w hw.1 hw.2
  · exact hstep w l w' hI hC (Step.of_step hs)

end Procedure

/-! ## Attempts after a step -/

namespace Workers

variable {σ φ κ ρ ι ε : Type u} {w : Workers σ φ ρ} {id id' : ℕ} {s s' : σ} {n n' : Progress φ ρ}

@[simp] theorem shared_put : (w.put id s n).shared = s := rfl

@[simp] theorem progress_put_self : (w.put id s n).progress id = n := Function.update_self ..

theorem progress_put_of_ne (h : id' ≠ id) : (w.put id s n).progress id' = w.progress id' :=
  Function.update_of_ne h ..

@[simp] theorem put_put : (w.put id s n).put id s' n' = w.put id s' n' := by
  simp [put]

/-- **An invariant of attempts**: of the shared state, of each attempt,
and of any two. -/
structure Keeps (G : σ → Prop) (L : σ → Progress φ ρ → Prop)
    (X : Progress φ ρ → Progress φ ρ → Prop) (w : Workers σ φ ρ) : Prop where
  shared : G w.shared
  each : ∀ id, L w.shared (w.progress id)
  pairs : ∀ id id', id ≠ id' → X (w.progress id) (w.progress id')

variable {G : σ → Prop} {L : σ → Progress φ ρ → Prop} {X : Progress φ ρ → Progress φ ρ → Prop}

/-- **One attempt moved on**: its own part is to be shown of it, and the
others' parts again. -/
theorem Keeps.put (h : Keeps G L X w) (hG : G s) (hL : L s n)
    (hothers : ∀ id', id' ≠ id →
      L s (w.progress id') ∧ X n (w.progress id') ∧ X (w.progress id') n) :
    Keeps G L X (w.put id s n) where
  shared := hG
  each id' := by
    by_cases hid : id' = id
    · rw [hid, progress_put_self]
      exact hL
    · rw [progress_put_of_ne hid]
      exact (hothers id' hid).1
  pairs id₁ id₂ hne := by
    by_cases h₁ : id₁ = id
    · rw [h₁] at hne ⊢
      rw [progress_put_self, progress_put_of_ne (Ne.symm hne)]
      exact (hothers id₂ (Ne.symm hne)).2.1
    · rw [progress_put_of_ne h₁]
      by_cases h₂ : id₂ = id
      · rw [h₂, progress_put_self]
        exact (hothers id₁ h₁).2.2
      · rw [progress_put_of_ne h₂]
        exact h.pairs id₁ id₂ hne

/-- The shared state moved by something else. -/
theorem Keeps.env (h : Keeps G L X w) (hG : G s) (hL : ∀ id, L s (w.progress id)) :
    Keeps G L X { w with shared := s } where
  shared := hG
  each := hL
  pairs := h.pairs

end Workers

/-! ## An attempt left to itself -/

namespace Procedure

variable {σ φ κ ρ ι ε : Type u} (P : Procedure σ φ κ ρ ι ε)

/-- The calls of one attempt, each answered, with nothing in between. -/
def solo : σ → φ → List κ → Option (σ × Progress φ ρ)
  | s, p, [] => some (s, .running p)
  | s, p, k :: ks =>
    match P.call s p k with
    | some (s', .running p') => solo s' p' ks
    | some (s', n) => if ks.isEmpty then some (s', n) else none
    | none => none

variable {P} {w : Workers σ φ ρ} {id : ℕ} {Init : σ → Prop}

/-- A call that leads on. -/
theorem solo_running {s s' : σ} {p p' : φ} {k : κ} {ks : List κ}
    (h : P.call s p k = some (s', .running p')) : P.solo s p (k :: ks) = P.solo s' p' ks := by
  rw [solo, h]

/-- A call that returns. -/
theorem solo_returned {s s' : σ} {p : φ} {k : κ} {r : ρ}
    (h : P.call s p k = some (s', .returned r)) : P.solo s p [k] = some (s', .returned r) := by
  rw [solo, h]
  rfl

/-- **Left to itself, an attempt does what its calls do.** -/
theorem exec_solo {ks : List κ} {p : φ} {s : σ} {n : Progress φ ρ}
    (h : w.progress id = .running p) (hsolo : P.solo w.shared p ks = some (s, n)) :
    (P.machine Init).exec w (ks.map (.call id · .returned)) = some (w.put id s n) := by
  induction ks generalizing w p with
  | nil =>
    obtain ⟨rfl, rfl⟩ := Prod.mk.inj (Option.some.inj hsolo)
    have hsame : w.put id w.shared (.running p) = w := by
      rw [Workers.put, ← h, Function.update_eq_self]
    rw [hsame]
    rfl
  | cons k ks ih =>
    have hstep : ∀ s' n', P.call w.shared p k = some (s', n') →
        P.step w (.call id k .returned) = some (w.put id s' n') := by
      intro s' n' hcall
      rw [step, h]
      simp only [hcall, Option.map_some]
    have hended : ∀ s' n', P.call w.shared p k = some (s', n') → ks = [] → n' = n → s' = s →
        (P.machine Init).exec w ((k :: ks).map (.call id · .returned)) = some (w.put id s n) := by
      rintro s' n' hcall rfl rfl rfl
      exact Option.bind_eq_some_iff.mpr ⟨_, hstep _ _ hcall, rfl⟩
    unfold solo at hsolo
    split at hsolo
    · rename_i s' p' hcall
      have hrest := ih (w := w.put id s' (.running p')) Workers.progress_put_self hsolo
      rw [Workers.put_put] at hrest
      exact Option.bind_eq_some_iff.mpr ⟨_, hstep _ _ hcall, hrest⟩
    · rename_i s' n' _ hcall
      split at hsolo
      · rename_i hks
        obtain ⟨rfl, rfl⟩ := Prod.mk.inj (Option.some.inj hsolo)
        exact hended _ _ hcall (List.isEmpty_iff.mp hks) rfl rfl
      · exact absurd hsolo (by simp)
    · exact absurd hsolo (by simp)

/-- Labels about other attempts leave an attempt where it stands. -/
theorem progress_exec_of_ne {ls : List (WorkerLabel κ ι ε)} {w' : Workers σ φ ρ}
    (h : (P.machine Init).exec w ls = some w') (hid : ∀ l ∈ ls, l.attempt ≠ some id) :
    w'.progress id = w.progress id := by
  induction ls generalizing w with
  | nil => rw [← Option.some.inj h]
  | cons l ls ih =>
    obtain ⟨w₁, hstep, hrest⟩ := Option.bind_eq_some_iff.mp h
    rw [ih hrest fun l' hl' => hid l' (List.mem_cons_of_mem l hl')]
    have hl := hid l List.mem_cons_self
    have hne : ∀ id', l.attempt = some id' → id ≠ id' := by
      rintro id' hattempt rfl
      exact hl hattempt
    cases Step.of_step hstep with
    | env => rfl
    | _ => exact Workers.progress_put_of_ne (hne _ rfl)

end Procedure

end HoodSentry

/-!
## Workers on a shared cursor

A pool answers the indices below a count, each by one of its workers: a
worker takes the index at the cursor, waits for its answer, writes it into
the index's slot and takes the next one. The answers come in any order. A
worker is told by the index it waits for; one that finds the cursor past
the end has returned.

Whatever the order, the pool makes one step for each index, and the slots
it ends with are the answers in their places.
-/

namespace HoodSentry

universe u

/-- A pool: its cursor, the indices waited for, and the slots. -/
structure Pool (β : Type u) where
  cursor : ℕ
  waiting : Finset ℕ
  slots : List (Option β)
  /-- An answer threw. -/
  rejected : Bool

namespace Pool

variable {β : Type u} (answer : ℕ → Option (Option β)) (count workers : ℕ)

/-- A worker takes the index at the cursor, or returns. -/
def takeNext (p : Pool β) : Pool β :=
  { p with
    cursor := p.cursor + 1
    waiting := if p.cursor < count then insert p.cursor p.waiting else p.waiting }

/-- The workers started one after the other, none with an answer. -/
def start : ℕ → Pool β
  | 0 => ⟨0, ∅, List.replicate count none, false⟩
  | workers + 1 => (start workers).takeNext count

/-- The answer for an index comes; one that throws ends its worker. -/
def settle (p : Pool β) (i : ℕ) : Option (Pool β) :=
  if i ∈ p.waiting then
    match answer i with
    | none => some { p with waiting := p.waiting.erase i, rejected := true }
    | some r =>
      some ({ p with waiting := p.waiting.erase i, slots := p.slots.set i r }.takeNext count)
  else none

/-- **The pool.** A label is the index whose answer comes. -/
def machine : Machine (Pool β) ℕ where
  Init p := p = start count workers
  step := settle answer count

/-- Every worker has returned. -/
def Finished (p : Pool β) : Prop := p.waiting = ∅

/-- What is left to answer. -/
def remaining (p : Pool β) : ℕ := p.waiting.card + (count - p.cursor)

/-- **Where a pool stands** whose answers are the values of `r`. -/
structure Holds (r : ℕ → Option β) (p : Pool β) : Prop where
  accepted : p.rejected = false
  length : p.slots.length = count
  waits : ∀ i ∈ p.waiting, i < p.cursor ∧ i < count
  filled : ∀ i < p.cursor, i < count → i ∉ p.waiting → p.slots[i]? = some (r i)
  /-- While an index is left a worker is at work. -/
  live : p.cursor < count → p.waiting ≠ ∅

variable {answer} {count workers} {r : ℕ → Option β} {p p' : Pool β} {i : ℕ}

/-! ## The start -/

@[simp] theorem slots_takeNext : (p.takeNext count).slots = p.slots := rfl

@[simp] theorem rejected_takeNext : (p.takeNext count).rejected = p.rejected := rfl

@[simp] theorem cursor_takeNext : (p.takeNext count).cursor = p.cursor + 1 := rfl

theorem mem_waiting_takeNext {j : ℕ} :
    j ∈ (p.takeNext count).waiting ↔ (j = p.cursor ∧ p.cursor < count) ∨ j ∈ p.waiting := by
  unfold takeNext
  dsimp only
  split
  · rename_i hlt
    rw [Finset.mem_insert, and_iff_left hlt]
  · rename_i hle
    exact ⟨Or.inr, fun h => h.elim (fun h => absurd h.2 hle) id⟩

/-- Taking an index leaves as much to answer. -/
theorem remaining_takeNext (hwaits : ∀ j ∈ p.waiting, j < p.cursor) :
    (p.takeNext count).remaining count = p.remaining count := by
  unfold remaining takeNext
  dsimp only
  split
  · rw [Finset.card_insert_of_notMem fun h => Nat.lt_irrefl _ (hwaits _ h)]
    omega
  · omega

/-- **Taking an index keeps the pool**, and leaves a worker at work. -/
theorem Holds.takeNext (haccepted : p.rejected = false) (hlength : p.slots.length = count)
    (hwaits : ∀ i ∈ p.waiting, i < p.cursor ∧ i < count)
    (hfilled : ∀ i < p.cursor, i < count → i ∉ p.waiting → p.slots[i]? = some (r i)) :
    Holds count r (p.takeNext count) where
  accepted := haccepted
  length := hlength
  waits j hj := by
    rw [cursor_takeNext]
    rcases mem_waiting_takeNext.mp hj with ⟨rfl, hlt⟩ | hj
    · exact ⟨Nat.lt_succ_self _, hlt⟩
    · exact ⟨Nat.lt_succ_of_lt (hwaits j hj).1, (hwaits j hj).2⟩
  filled j hj hcount hout := by
    rw [mem_waiting_takeNext, not_or] at hout
    have hne : j ≠ p.cursor := fun h => hout.1 ⟨h, h ▸ hcount⟩
    rw [cursor_takeNext] at hj
    exact hfilled j (by omega) hcount hout.2
  live hlt hnone := by
    rw [cursor_takeNext] at hlt
    have hmem : p.cursor ∈ (p.takeNext count).waiting :=
      mem_waiting_takeNext.mpr (Or.inl ⟨rfl, by omega⟩)
    rw [hnone] at hmem
    exact Finset.notMem_empty _ hmem

theorem holds_start (hworkers : 0 < workers) : Holds count r (start count workers) := by
  induction workers with
  | zero => omega
  | succ n ih =>
    cases n with
    | zero =>
      refine Holds.takeNext rfl List.length_replicate (fun i hi => ?_) fun i hi => ?_
      · exact absurd hi (Finset.notMem_empty i)
      · exact absurd hi (Nat.not_lt_zero i)
    | succ n =>
      have h := ih (Nat.succ_pos n)
      exact Holds.takeNext h.accepted h.length h.waits h.filled

theorem remaining_start (hworkers : 0 < workers) :
    (start count workers : Pool β).remaining count = count := by
  induction workers with
  | zero => omega
  | succ n ih =>
    cases n with
    | zero =>
      rw [start, remaining_takeNext fun j hj => absurd hj (Finset.notMem_empty j)]
      exact (Nat.zero_add _).trans (Nat.sub_zero _)
    | succ n =>
      have h : Holds count (fun _ => none) (start count (n + 1) : Pool β) :=
        holds_start (Nat.succ_pos n)
      rw [start, remaining_takeNext fun j hj => (h.waits j hj).1, ih (Nat.succ_pos n)]

/-! ## One answer -/

/-- An index waited for can be answered. -/
theorem settle_of_mem (hr : answer i = some (r i)) (hi : i ∈ p.waiting) :
    settle answer count p i = some
      ({ p with waiting := p.waiting.erase i, slots := p.slots.set i (r i) }.takeNext count) := by
  rw [settle, if_pos hi, hr]

/-- **One answer keeps the pool**, and leaves one index fewer. -/
theorem Holds.settle (h : Holds count r p) (hr : ∀ j < count, answer j = some (r j))
    (hs : p.settle answer count i = some p') :
    Holds count r p' ∧ p'.remaining count + 1 = p.remaining count := by
  have hi : i ∈ p.waiting := by
    by_contra hout
    rw [Pool.settle, if_neg hout] at hs
    exact Option.some_ne_none _ hs.symm
  obtain ⟨hcursor, hcount⟩ := h.waits i hi
  rw [settle_of_mem (hr i hcount) hi] at hs
  obtain rfl := Option.some.inj hs
  constructor
  · refine Holds.takeNext h.accepted ?_ (fun j hj => ?_) fun j hj hjcount hout => ?_
    · rw [List.length_set, h.length]
    · exact h.waits j (Finset.mem_of_mem_erase hj)
    · rw [Finset.mem_erase, not_and'] at hout
      by_cases hji : j = i
      · rw [hji, List.getElem?_set_self (h.length.symm ▸ hcount)]
      · rw [List.getElem?_set_ne (Ne.symm hji)]
        exact h.filled j hj hjcount fun hin => hout hin hji
  · refine (congrArg (· + 1) (remaining_takeNext fun j hj => ?_)).trans ?_
    · exact (h.waits j (Finset.mem_of_mem_erase hj)).1
    · have hpos := Finset.card_pos.mpr ⟨i, hi⟩
      simp only [remaining, Finset.card_erase_of_mem hi]
      omega

/-! ## Whole runs -/

/-- **Any run of answers keeps the pool**, and takes as many indices. -/
theorem Holds.exec {is : List ℕ} (h : Holds count r p) (hr : ∀ j < count, answer j = some (r j))
    (he : (machine answer count workers).exec p is = some p') :
    Holds count r p' ∧ p'.remaining count + is.length = p.remaining count := by
  induction is generalizing p with
  | nil =>
    obtain rfl := Option.some.inj he
    exact ⟨h, Nat.add_zero _⟩
  | cons i is ih =>
    obtain ⟨q, hq, hrest⟩ := Option.bind_eq_some_iff.mp he
    obtain ⟨hq', hone⟩ := h.settle hr hq
    obtain ⟨hp', hlen⟩ := ih hq' hrest
    refine ⟨hp', ?_⟩
    rw [List.length_cons]
    omega

/-- **A finished pool's slots are the answers in their places.** -/
theorem Holds.slots_eq (h : Holds count r p) (hfinished : p.Finished) :
    p.slots = (List.range count).map r := by
  have hcursor : count ≤ p.cursor := by
    by_contra hlt
    exact h.live (Nat.lt_of_not_le hlt) hfinished
  refine List.ext_getElem? fun i => ?_
  by_cases hi : i < count
  · rw [h.filled i (Nat.lt_of_lt_of_le hi hcursor) hi (hfinished ▸ Finset.notMem_empty i)]
    rw [List.getElem?_map, List.getElem?_range hi, Option.map_some]
  · rw [List.getElem?_eq_none (h.length.symm ▸ Nat.le_of_not_lt hi), List.getElem?_eq_none]
    rw [List.length_map, List.length_range]
    exact Nat.le_of_not_lt hi

/-- A pool that is not finished has an answer to come. -/
theorem Holds.enabled (h : Holds count r p) (hr : ∀ j < count, answer j = some (r j))
    (hmore : ¬p.Finished) : ∃ i, p.settle answer count i ≠ none := by
  obtain ⟨i, hi⟩ := Finset.nonempty_iff_ne_empty.mpr hmore
  refine ⟨i, ?_⟩
  rw [settle_of_mem (hr i (h.waits i hi).2) hi]
  exact Option.some_ne_none _

end Pool

end HoodSentry
