import Mathlib
/-!
# Labelled machines and their runs

A machine steps by a partial function of its state and a label; the label
carries everything the state does not determine, so a run is a list of
labels. `Reaches C` holds of the states reached by runs every step of
which meets `C`, and `Reaches.invariant` is the induction every safety
result over runs goes through.
-/

namespace HoodSentry

universe u v

/-- **A labelled machine.** A label the state does not admit has no
successor. -/
structure Machine (σ : Type u) (ι : Type v) where
  /-- The states a run may begin in. -/
  Init : σ → Prop
  step : σ → ι → Option σ

namespace Machine

variable {σ : Type u} {ι : Type v} (M : Machine σ ι)

/-- **The states reached under a step condition.** `C` reads the state
before the step and the label. -/
inductive Reaches (C : σ → ι → Prop) : σ → Prop
  | init {s : σ} (h : M.Init s) : Reaches C s
  | step {s s' : σ} {i : ι} (h : Reaches C s) (hC : C s i) (hs : M.step s i = some s') :
      Reaches C s'

/-- The states reached by any run at all. -/
abbrev Reachable : σ → Prop := M.Reaches fun _ _ => True

variable {M} {C C' : σ → ι → Prop} {I : σ → Prop}

/-- **The invariant rule.** What holds initially and survives every step
that meets the condition holds of every state reached. -/
theorem Reaches.invariant (h0 : ∀ s, M.Init s → I s)
    (hstep : ∀ s i s', I s → C s i → M.step s i = some s' → I s') {s : σ}
    (h : M.Reaches C s) : I s := by
  induction h with
  | init h => exact h0 _ h
  | step _ hC hs ih => exact hstep _ _ _ ih hC hs

/-- A stronger condition reaches fewer states. -/
theorem Reaches.mono (hCC : ∀ s i, C s i → C' s i) {s : σ} (h : M.Reaches C s) :
    M.Reaches C' s := by
  induction h with
  | init h => exact .init h
  | step _ hC hs ih => exact ih.step (hCC _ _ hC) hs

/-- So a state reached under a condition is reachable. -/
theorem Reaches.reachable {s : σ} (h : M.Reaches C s) : M.Reachable s :=
  h.mono fun _ _ _ => trivial

variable (M) in
/-- Run a list of labels in order. -/
def exec (s : σ) : List ι → Option σ
  | [] => some s
  | i :: is => (M.step s i).bind fun s' => exec s' is

theorem exec_append {is js : List ι} {s : σ} :
    M.exec s (is ++ js) = (M.exec s is).bind fun s' => M.exec s' js := by
  induction is generalizing s with
  | nil => rfl
  | cons i is ih =>
    rw [List.cons_append, exec, exec, Option.bind_assoc]
    exact Option.bind_congr fun s' _ => ih

variable (M) in
/-- Every label of the list meets the condition where it is taken. -/
def Meets (C : σ → ι → Prop) (s : σ) : List ι → Prop
  | [] => True
  | i :: is => C s i ∧ ∀ s' ∈ M.step s i, Meets C s' is

variable (M) in
/-- A decidable condition can be checked along a list of labels. -/
def decidableMeets [∀ s i, Decidable (C s i)] : ∀ s is, Decidable (M.Meets C s is)
  | _, [] => inferInstanceAs (Decidable True)
  | s, i :: is =>
    have : DecidablePred (M.Meets C · is) := fun s' => decidableMeets s' is
    inferInstanceAs (Decidable (C s i ∧ ∀ s' ∈ M.step s i, M.Meets C s' is))

instance [∀ s i, Decidable (C s i)] (s : σ) (is : List ι) : Decidable (M.Meets C s is) :=
  M.decidableMeets s is

theorem meets_of_forall {is : List ι} (hC : ∀ i ∈ is, ∀ s, C s i) (s : σ) : M.Meets C s is := by
  induction is generalizing s with
  | nil => exact trivial
  | cons i is ih =>
    exact ⟨hC i List.mem_cons_self s, fun s' _ => ih (fun j hj => hC j (List.mem_cons_of_mem _ hj)) s'⟩

/-- A list of labels run from a reached state reaches its end, when every
label meets the condition where it is taken. -/
theorem Reaches.exec {is : List ι} {s s' : σ} (h : M.Reaches C s) (hC : M.Meets C s is)
    (he : M.exec s is = some s') : M.Reaches C s' := by
  induction is generalizing s with
  | nil =>
    rw [Machine.exec, Option.some.injEq] at he
    exact he ▸ h
  | cons i is ih =>
    obtain ⟨t, ht, hr⟩ := Option.bind_eq_some_iff.mp he
    exact ih (h.step hC.1 ht) (hC.2 t ht) hr

/-- In particular every executed list of labels is a run. -/
theorem reachable_of_exec {is : List ι} {s s' : σ} (h0 : M.Init s)
    (he : M.exec s is = some s') : M.Reachable s' :=
  Reaches.exec (.init h0) (meets_of_forall (fun _ _ _ => trivial) s) he

variable (M) in
/-- A property holds of every state a list of labels passes through. -/
def Throughout (P : σ → Prop) (s : σ) : List ι → Prop
  | [] => P s
  | i :: is => P s ∧ ∀ s' ∈ M.step s i, Throughout P s' is

/-- So it holds where the list ends. -/
theorem Throughout.of_exec {P : σ → Prop} {is : List ι} {s s' : σ} (h : M.Throughout P s is)
    (he : M.exec s is = some s') : P s' := by
  induction is generalizing s with
  | nil =>
    rw [Machine.exec, Option.some.injEq] at he
    exact he ▸ h
  | cons i is ih =>
    obtain ⟨t, ht, hr⟩ := Option.bind_eq_some_iff.mp he
    exact ih (h.2 t ht) hr

/-- **The exactness rule.** Where a step keeps a property exactly when it
meets the condition, and a refused label meets it, the property holds all
along a run exactly when every step of it meets the condition. -/
theorem throughout_iff_meets {P : σ → Prop} {is : List ι}
    (hrefused : ∀ s i, I s → P s → M.step s i = none → C s i)
    (hstep : ∀ s i s', I s → P s → M.step s i = some s' → I s' ∧ (P s' ↔ C s i)) {s : σ}
    (hI : I s) (hP : P s) : M.Throughout P s is ↔ M.Meets C s is := by
  induction is generalizing s with
  | nil => exact iff_of_true hP trivial
  | cons i is ih =>
    rcases hs : M.step s i with - | s'
    · refine iff_of_true ⟨hP, fun s' h => ?_⟩ ⟨hrefused s i hI hP hs, fun s' h => ?_⟩
      · exact absurd (hs.symm.trans h) (Option.some_ne_none s').symm
      · exact absurd (hs.symm.trans h) (Option.some_ne_none s').symm
    obtain ⟨hI', hiff⟩ := hstep s i s' hI hP hs
    have hnext : (∀ t ∈ M.step s i, M.Throughout P t is) ↔ M.Throughout P s' is := by
      simp [hs]
    have hmeets : (∀ t ∈ M.step s i, M.Meets C t is) ↔ M.Meets C s' is := by
      simp [hs]
    rw [Throughout, Meets, hnext, hmeets]
    constructor
    · rintro ⟨-, h⟩
      have hP' : P s' := by
        cases is with
        | nil => exact h
        | cons => exact h.1
      exact ⟨hiff.mp hP', (ih hI' hP').mp h⟩
    · rintro ⟨hC, h⟩
      exact ⟨hP, (ih hI' (hiff.mpr hC)).mpr h⟩

end Machine

end HoodSentry
