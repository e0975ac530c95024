import Mathlib
/-!
# Queues served oldest first

A queue of holdings, each with what is left of it, from which amounts are
taken oldest first. `spend` keeps every holding in its place; `serve`
drops those it takes all of, and reaches a holding as soon as less is
held before it than is served, an empty one included.

Both are closed forms: serving twice is serving the sum (`serve_serve`),
and what a run of moves leaves of a holding depends only on what was held
before it and what is disposed after it (`queueAfter_eq`).
-/

namespace HoodSentry

universe u

/-- What is left of a holding, and the holding with some of it used. -/
class Spendable (α : Type u) where
  left : α → ℕ
  use : ℕ → α → α
  left_use : ∀ d a, left (use d a) = left a - d
  use_zero : ∀ a, use 0 a = a
  use_use : ∀ d d' a, use d' (use d a) = use (d + d') a

attribute [simp] Spendable.left_use Spendable.use_zero Spendable.use_use

namespace Fifo

open Spendable

variable {α : Type u} [Spendable α]

/-- What a queue holds. -/
def held (q : List α) : ℕ := (q.map left).sum

@[simp] theorem held_nil : held ([] : List α) = 0 := rfl

@[simp] theorem held_cons {a : α} {q : List α} : held (a :: q) = left a + held q := by
  simp [held]

@[simp] theorem held_append {q q' : List α} : held (q ++ q') = held q + held q' := by
  simp [held]

/-! ## In place -/

/-- **Spending oldest first**, every holding kept. -/
def spend : ℕ → List α → List α
  | _, [] => []
  | d, a :: q => use d a :: spend (d - left a) q

variable {d d' : ℕ} {q : List α}

@[simp] theorem spend_zero (q : List α) : spend 0 q = q := by
  induction q with
  | nil => rfl
  | cons a q ih => rw [spend, use_zero, Nat.zero_sub, ih]

@[simp] theorem length_spend (d : ℕ) (q : List α) : (spend d q).length = q.length := by
  induction q generalizing d with
  | nil => rfl
  | cons a q ih => rw [spend, List.length_cons, ih, List.length_cons]

/-- A holding gives what is asked beyond the holdings before it. -/
theorem getElem?_spend (d : ℕ) (q : List α) (i : ℕ) :
    (spend d q)[i]? = q[i]?.map (use (d - held (q.take i))) := by
  induction q generalizing d i with
  | nil => simp [spend]
  | cons a q ih =>
    cases i with
    | zero => simp [spend]
    | succ i =>
      rw [spend, List.getElem?_cons_succ, ih, List.getElem?_cons_succ, List.take_succ_cons,
        held_cons, Nat.sub_add_eq]

/-- What a queue holds before a later place covers what it holds up to
an earlier one. -/
theorem held_take_add_le {q : List α} {i j : ℕ} (hij : i < j) {a : α} (ha : q[i]? = some a) :
    held (q.take i) + left a ≤ held (q.take j) := by
  induction q generalizing i j with
  | nil => simp at ha
  | cons b q ih =>
    obtain ⟨j, rfl⟩ : ∃ k, j = k + 1 := ⟨j - 1, by omega⟩
    cases i with
    | zero =>
      obtain rfl : b = a := by simpa using ha
      simp
    | succ i =>
      have hle := ih (by omega : i < j) (by simpa using ha)
      simp only [List.take_succ_cons, held_cons]
      omega

/-- **Oldest first**: a holding loses only what all earlier ones, emptied,
did not give. -/
theorem left_eq_zero_of_spend_lt {i j : ℕ} (hij : i < j) {a a' b b' : α} (hb : q[j]? = some b)
    (hb' : (spend d q)[j]? = some b') (hlt : left b' < left b) (ha : q[i]? = some a)
    (ha' : (spend d q)[i]? = some a') : left a' = 0 := by
  rw [getElem?_spend, hb, Option.map_some, Option.some.injEq] at hb'
  rw [getElem?_spend, ha, Option.map_some, Option.some.injEq] at ha'
  subst hb' ha'
  have hle := held_take_add_le hij ha
  simp only [left_use] at hlt ⊢
  omega

/-! ## Dropping what is used up -/

/-- **Serving oldest first**: the holdings reached and used up are gone. -/
def serve : ℕ → List α → List α
  | _, [] => []
  | d, a :: q =>
    if d = 0 then a :: q else if left a ≤ d then serve (d - left a) q else use d a :: q

@[simp] theorem serve_zero (q : List α) : serve 0 q = q := by
  cases q <;> rfl

@[simp] theorem serve_nil (d : ℕ) : serve d ([] : List α) = [] := rfl

theorem serve_cons_of_le {a : α} (hd : d ≠ 0) (ha : left a ≤ d) :
    serve d (a :: q) = serve (d - left a) q := by
  rw [serve, if_neg hd, if_pos ha]

theorem serve_cons_of_lt {a : α} (hd : d ≠ 0) (ha : d < left a) :
    serve d (a :: q) = use d a :: q := by
  rw [serve, if_neg hd, if_neg (by omega)]

/-- What is served is taken off, as far as it is held. -/
theorem held_serve (d : ℕ) (q : List α) : held (serve d q) = held q - d := by
  induction q generalizing d with
  | nil => simp
  | cons a q ih =>
    rcases Nat.eq_zero_or_pos d with rfl | hd
    · simp
    · rcases Nat.lt_or_ge d (left a) with ha | ha
      · rw [serve_cons_of_lt hd.ne' ha, held_cons, held_cons, left_use]
        omega
      · rw [serve_cons_of_le hd.ne' ha, ih, held_cons]
        omega

/-- **Serving twice is serving the sum.** -/
theorem serve_serve (d d' : ℕ) (q : List α) : serve d' (serve d q) = serve (d + d') q := by
  induction q generalizing d with
  | nil => simp
  | cons a q ih =>
    rcases Nat.eq_zero_or_pos d with rfl | hd
    · simp
    rcases Nat.lt_or_ge d (left a) with ha | ha
    · rw [serve_cons_of_lt hd.ne' ha]
      rcases Nat.eq_zero_or_pos d' with rfl | hd'
      · rw [serve_zero, Nat.add_zero, serve_cons_of_lt hd.ne' ha]
      rcases Nat.lt_or_ge (d + d') (left a) with hsum | hsum
      · rw [serve_cons_of_lt hd'.ne' (by rw [left_use]; omega),
          serve_cons_of_lt (by omega) hsum, use_use]
      · rw [serve_cons_of_le hd'.ne' (by rw [left_use]; omega),
          serve_cons_of_le (by omega) hsum, left_use]
        congr 1
        omega
    · rw [serve_cons_of_le hd.ne' ha, ih, serve_cons_of_le (by omega) (by omega)]
      congr 1
      omega

/-- The holdings behind are served what those in front did not give. -/
theorem serve_append (d : ℕ) (q q' : List α) :
    serve d (q ++ q') = serve d q ++ serve (d - held q) q' := by
  induction q generalizing d with
  | nil => simp
  | cons a q ih =>
    rw [List.cons_append]
    rcases Nat.eq_zero_or_pos d with rfl | hd
    · simp
    rcases Nat.lt_or_ge d (left a) with ha | ha
    · have hnone : d - held (a :: q) = 0 := by
        rw [held_cons]
        omega
      rw [serve_cons_of_lt hd.ne' ha, serve_cons_of_lt hd.ne' ha, hnone, serve_zero,
        List.cons_append]
    · rw [serve_cons_of_le hd.ne' ha, serve_cons_of_le hd.ne' ha, ih, held_cons, Nat.sub_add_eq]

/-- Of one holding the rest is left, unless it was reached and used up. -/
theorem mem_serve_singleton {a b : α} :
    b ∈ serve d [a] ↔ b = use d a ∧ (d = 0 ∨ d < left a) := by
  rcases Nat.eq_zero_or_pos d with rfl | hd
  · simp
  rcases Nat.lt_or_ge d (left a) with ha | ha
  · rw [serve_cons_of_lt hd.ne' ha, List.mem_singleton]
    exact ⟨fun h => ⟨h, .inr ha⟩, And.left⟩
  · rw [serve_cons_of_le hd.ne' ha, serve_nil]
    refine iff_of_false List.not_mem_nil ?_
    rintro ⟨-, h | h⟩ <;> omega

/-! ## Reaching a holding -/

/-- **A serving reaches** a holding before which less is held than is
served. -/
def Reaches (P : α → Prop) (d : ℕ) (q : List α) : Prop :=
  ∃ q₁ a q₂, q = q₁ ++ a :: q₂ ∧ held q₁ < d ∧ P a

variable {P : α → Prop}

@[simp] theorem not_reaches_nil : ¬Reaches P d [] := by
  rintro ⟨q₁, a, q₂, h, -, -⟩
  simp at h

@[simp] theorem not_reaches_zero : ¬Reaches P 0 q := by
  rintro ⟨q₁, a, q₂, -, h, -⟩
  omega

theorem reaches_cons {a : α} :
    Reaches P d (a :: q) ↔ 0 < d ∧ P a ∨ Reaches P (d - left a) q := by
  constructor
  · rintro ⟨q₁, b, q₂, h, hlt, hb⟩
    rcases List.cons_eq_append_iff.mp h with ⟨rfl, h⟩ | ⟨q₁, rfl, rfl⟩
    · obtain ⟨rfl, rfl⟩ := List.cons.inj h
      exact .inl ⟨hlt, hb⟩
    · rw [held_cons] at hlt
      exact .inr ⟨q₁, b, q₂, rfl, by omega, hb⟩
  · rintro (⟨hd, ha⟩ | ⟨q₁, b, q₂, rfl, hlt, hb⟩)
    · exact ⟨[], a, q, rfl, hd, ha⟩
    · exact ⟨a :: q₁, b, q₂, rfl, by rw [held_cons]; omega, hb⟩

theorem reaches_append {q q' : List α} :
    Reaches P d (q ++ q') ↔ Reaches P d q ∨ Reaches P (d - held q) q' := by
  induction q generalizing d with
  | nil => simp
  | cons a q ih => rw [List.cons_append, reaches_cons, reaches_cons, ih, held_cons,
      Nat.sub_add_eq, or_assoc]

/-- The second of two servings reaches what their sum does and the first
did not. -/
theorem reaches_add (hP : ∀ d a, P (use d a) ↔ P a) :
    Reaches P (d + d') q ↔ Reaches P d q ∨ Reaches P d' (serve d q) := by
  induction q generalizing d with
  | nil => simp
  | cons a q ih =>
    rcases Nat.eq_zero_or_pos d with rfl | hd
    · simp
    rw [reaches_cons, reaches_cons]
    rcases Nat.lt_or_ge d (left a) with ha | ha
    · have hnone : d - left a = 0 := by omega
      have hrest : d' - (left a - d) = d + d' - left a := by omega
      rw [serve_cons_of_lt hd.ne' ha, reaches_cons, hP, left_use, hnone, hrest]
      simp only [not_reaches_zero, or_false, Nat.add_pos_left hd, hd, true_and]
      tauto
    · have hrest : d + d' - left a = d - left a + d' := by omega
      rw [serve_cons_of_le hd.ne' ha, hrest, ih, or_assoc]
      simp only [Nat.add_pos_left hd, hd, true_and]

section Renaming

variable {g : α → α} (hleft : ∀ a, left (g a) = left a)
include hleft

theorem held_map (q : List α) : held (q.map g) = held q := by
  induction q with
  | nil => rfl
  | cons a q ih => rw [List.map_cons, held_cons, held_cons, hleft, ih]

/-- A change that keeps what is left is kept by serving. -/
theorem serve_map (huse : ∀ d a, use d (g a) = g (use d a)) (d : ℕ) (q : List α) :
    serve d (q.map g) = (serve d q).map g := by
  induction q generalizing d with
  | nil => rfl
  | cons a q ih =>
    simp only [List.map_cons, serve, hleft, huse, ih]
    split_ifs <;> rfl

theorem reaches_map (hP : ∀ a, P (g a) ↔ P a) : Reaches P d (q.map g) ↔ Reaches P d q := by
  induction q generalizing d with
  | nil => simp
  | cons a q ih => rw [List.map_cons, reaches_cons, reaches_cons, hleft, hP, ih]

end Renaming

/-! ## Runs -/

/-- **A move**: some holdings join the back of the queue, then an amount
is served from its front. -/
structure Move (α : Type u) where
  acquired : List α
  disposed : ℕ

/-- The queue after some moves. -/
def queueAfter : List α → List (Move α) → List α
  | q, [] => q
  | q, m :: ms => queueAfter (serve m.disposed (q ++ m.acquired)) ms

/-- What is held after some moves, by amounts alone. -/
def heldAfter : ℕ → List (Move α) → ℕ
  | h, [] => h
  | h, m :: ms => heldAfter (h + held m.acquired - m.disposed) ms

/-- What some moves dispose of, held or not. -/
def disposedIn (ms : List (Move α)) : ℕ := (ms.map Move.disposed).sum

omit [Spendable α] in
@[simp] theorem disposedIn_nil : disposedIn ([] : List (Move α)) = 0 := rfl

omit [Spendable α] in
@[simp] theorem disposedIn_cons {m : Move α} {ms : List (Move α)} :
    disposedIn (m :: ms) = m.disposed + disposedIn ms := by
  simp [disposedIn]

theorem held_queueAfter (q : List α) (ms : List (Move α)) :
    held (queueAfter q ms) = heldAfter (held q) ms := by
  induction ms generalizing q with
  | nil => rfl
  | cons m ms ih => rw [queueAfter, ih, held_serve, held_append, heldAfter]

/-- What some moves leave of the holdings they acquire, from what was held
before. -/
def leftovers : ℕ → List (Move α) → List α
  | _, [] => []
  | h, m :: ms =>
    serve (disposedIn (m :: ms) - h) m.acquired ++ leftovers (h + held m.acquired - m.disposed) ms

/-- **The closed form of a run**: each holding has given what is disposed
from its move on beyond what was held before it. -/
theorem queueAfter_eq (q : List α) (ms : List (Move α)) :
    queueAfter q ms = serve (disposedIn ms) q ++ leftovers (held q) ms := by
  induction ms generalizing q with
  | nil => simp [queueAfter, leftovers]
  | cons m ms ih =>
    rw [queueAfter, ih, serve_serve, serve_append, held_serve, held_append, disposedIn_cons,
      leftovers, disposedIn_cons, List.append_assoc]

theorem mem_leftovers {h : ℕ} {ms : List (Move α)} {b : α} :
    b ∈ leftovers h ms ↔ ∃ before m after, ms = before ++ m :: after ∧
      b ∈ serve (disposedIn (m :: after) - heldAfter h before) m.acquired := by
  induction ms generalizing h with
  | nil => simp [leftovers]
  | cons m ms ih =>
    rw [leftovers, List.mem_append, ih]
    constructor
    · rintro (hb | ⟨before, m', after, rfl, hb⟩)
      · exact ⟨[], m, ms, rfl, hb⟩
      · exact ⟨m :: before, m', after, rfl, hb⟩
    · rintro ⟨before, m', after, hsplit, hb⟩
      rcases List.cons_eq_append_iff.mp hsplit with ⟨rfl, h⟩ | ⟨before, rfl, rfl⟩
      · obtain ⟨rfl, rfl⟩ := List.cons.inj h
        exact .inl hb
      · exact .inr ⟨before, m', after, rfl, hb⟩

/-- Some move of a run serves from a holding with a property. -/
def Touches (P : α → Prop) : List α → List (Move α) → Prop
  | _, [] => False
  | q, m :: ms =>
    Reaches P m.disposed (q ++ m.acquired) ∨ Touches P (serve m.disposed (q ++ m.acquired)) ms

theorem touches_of_reaches {before after : List (Move α)} {m : Move α}
    (h : Reaches P m.disposed (queueAfter q before ++ m.acquired)) :
    Touches P q (before ++ m :: after) := by
  induction before generalizing q with
  | nil => exact .inl h
  | cons m' before ih => exact .inr (ih h)

/-- **What a run touches**: the holdings before which less is held than is
disposed from their move on. -/
theorem touches_iff (hP : ∀ d a, P (use d a) ↔ P a) {ms : List (Move α)} :
    Touches P q ms ↔ Reaches P (disposedIn ms) q ∨
      ∃ before m after, ms = before ++ m :: after ∧
        Reaches P (disposedIn (m :: after) - heldAfter (held q) before) m.acquired := by
  induction ms generalizing q with
  | nil => simp [Touches]
  | cons m ms ih =>
    rw [Touches, ih, ← or_assoc, ← reaches_add hP, held_serve, held_append, disposedIn_cons,
      reaches_append, or_assoc]
    refine or_congr_right ⟨?_, ?_⟩
    · rintro (h | ⟨before, m', after, rfl, h⟩)
      · exact ⟨[], m, ms, rfl, by simpa [heldAfter] using h⟩
      · exact ⟨m :: before, m', after, rfl, h⟩
    · rintro ⟨before, m', after, hsplit, h⟩
      rcases List.cons_eq_append_iff.mp hsplit with ⟨rfl, heq⟩ | ⟨before, rfl, rfl⟩
      · obtain ⟨rfl, rfl⟩ := List.cons.inj heq
        exact .inl (by simpa [heldAfter] using h)
      · exact .inr ⟨before, m', after, rfl, h⟩

/-! ## What is left is a rest of what was acquired -/

/-- A queue whose first holding has given some. -/
def useHead (e : ℕ) : List α → List α
  | [] => []
  | a :: q => use e a :: q

/-- Some of the oldest holdings are gone, and one more may have given. -/
def IsRest (q q' : List α) : Prop := ∃ k e, q' = useHead e (q.drop k)

theorem isRest_refl (q : List α) : IsRest q q := by
  refine ⟨0, 0, ?_⟩
  cases q <;> simp [useHead]

theorem isRest_cons {a : α} {q q' : List α} (h : IsRest q q') : IsRest (a :: q) q' := by
  obtain ⟨k, e, rfl⟩ := h
  exact ⟨k + 1, e, rfl⟩

theorem IsRest.append {q q' : List α} (h : IsRest q q') (more : List α) :
    IsRest (q ++ more) (q' ++ more) := by
  obtain ⟨k, e, rfl⟩ := h
  induction q generalizing k with
  | nil => simpa [useHead] using isRest_refl more
  | cons a q ih =>
    cases k with
    | zero => exact ⟨0, e, rfl⟩
    | succ k => exact isRest_cons (ih k)

theorem isRest_serve {q q' : List α} (h : IsRest q q') (d : ℕ) : IsRest q (serve d q') := by
  obtain ⟨k, e, rfl⟩ := h
  induction q generalizing k d e with
  | nil => exact ⟨0, 0, by simp [useHead]⟩
  | cons a q ih =>
    cases k with
    | succ k => exact isRest_cons (ih d k e)
    | zero =>
      rw [List.drop_zero, useHead]
      rcases Nat.eq_zero_or_pos d with rfl | hd
      · exact ⟨0, e, by simp [useHead]⟩
      rcases Nat.lt_or_ge d (left (use e a)) with ha | ha
      · rw [serve_cons_of_lt hd.ne' ha, use_use]
        exact ⟨0, e + d, rfl⟩
      · rw [serve_cons_of_le hd.ne' ha]
        have hrest := ih (d - left (use e a)) 0 0
        have hsame : useHead 0 (q.drop 0) = q := by
          cases q <;> simp [useHead]
        rw [hsame] at hrest
        exact isRest_cons hrest

/-- **What a run leaves is a rest of what it acquired.** -/
theorem isRest_queueAfter {q q' : List α} (h : IsRest q q') (ms : List (Move α)) :
    IsRest (q ++ ms.flatMap Move.acquired) (queueAfter q' ms) := by
  induction ms generalizing q q' with
  | nil => simpa [queueAfter] using h
  | cons m ms ih =>
    rw [List.flatMap_cons, ← List.append_assoc]
    exact ih (isRest_serve (h.append m.acquired) m.disposed)

/-! ## Runs that dispose only of what is held -/

/-- No move disposes of more than is held. -/
def Covered : ℕ → List (Move α) → Prop
  | _, [] => True
  | h, m :: ms =>
    m.disposed ≤ h + held m.acquired ∧ Covered (h + held m.acquired - m.disposed) ms

/-- **Conservation**: a covered run holds what it acquired less what it
disposed of. -/
theorem heldAfter_of_covered {h : ℕ} {ms : List (Move α)} (hc : Covered h ms) :
    heldAfter h ms + disposedIn ms = h + held (ms.flatMap Move.acquired) := by
  induction ms generalizing h with
  | nil => simp [heldAfter]
  | cons m ms ih =>
    obtain ⟨hm, hc⟩ := hc
    have hrest := ih hc
    rw [heldAfter, disposedIn_cons, List.flatMap_cons, held_append]
    omega

theorem covered_iff {h : ℕ} {ms : List (Move α)} :
    Covered h ms ↔ ∀ before m after, ms = before ++ m :: after →
      m.disposed ≤ heldAfter h before + held m.acquired := by
  induction ms generalizing h with
  | nil => simp [Covered]
  | cons m ms ih =>
    rw [Covered, ih]
    constructor
    · rintro ⟨hm, hms⟩ before m' after hsplit
      rcases List.cons_eq_append_iff.mp hsplit with ⟨rfl, heq⟩ | ⟨before, rfl, rfl⟩
      · obtain ⟨rfl, rfl⟩ := List.cons.inj heq
        exact hm
      · exact hms before m' after rfl
    · intro hall
      exact ⟨hall [] m ms rfl, fun before m' after hsplit =>
        hall (m :: before) m' after (by rw [hsplit, List.cons_append])⟩

end Fifo

end HoodSentry
