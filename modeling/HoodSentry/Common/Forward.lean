import Mathlib
/-!
# Keeping the latest

A register that takes a value only when its place lies after the place of
the value it holds. Whatever the order values come in and however often
they come again, it ends with one at the highest place, and on the way its
place only rises.
-/

namespace HoodSentry

universe u v

variable {α : Type u} {β : Type v} [LinearOrder β] (place : α → β)

/-- The register after a value comes in: at one place the first stays. -/
def keepLater (stored : Option α) (x : α) : Option α :=
  match stored with
  | none => some x
  | some old => if place old < place x then some x else some old

/-- **The latest of a list of values**, none of an empty one. -/
def IsLatest (xs : List α) : Option α → Prop
  | none => xs = []
  | some x => x ∈ xs ∧ ∀ y ∈ xs, place y ≤ place x

variable {place} {xs ys : List α} {stored stored' : Option α}

@[simp] theorem keepLater_some (old x : α) :
    keepLater place (some old) x = if place old < place x then some x else some old := rfl

/-- One value more. -/
theorem IsLatest.keepLater (h : IsLatest place xs stored) (x : α) :
    IsLatest place (xs ++ [x]) (keepLater place stored x) := by
  cases stored with
  | none =>
    obtain rfl : xs = [] := h
    exact ⟨List.mem_singleton_self x, fun y hy => (List.mem_singleton.mp hy) ▸ le_rfl⟩
  | some old =>
    obtain ⟨hmem, hmax⟩ := h
    rw [keepLater_some]
    by_cases hlt : place old < place x
    · rw [if_pos hlt]
      refine ⟨List.mem_append_right _ (List.mem_singleton_self x), fun y hy => ?_⟩
      rcases List.mem_append.mp hy with hy | hy
      · exact (hmax y hy).trans hlt.le
      · exact List.mem_singleton.mp hy ▸ le_rfl
    · rw [if_neg hlt]
      refine ⟨List.mem_append_left _ hmem, fun y hy => ?_⟩
      rcases List.mem_append.mp hy with hy | hy
      · exact hmax y hy
      · exact List.mem_singleton.mp hy ▸ not_lt.mp hlt

/-- **The register holds the latest of what came in.** -/
theorem isLatest_foldl (xs : List α) : IsLatest place xs (xs.foldl (keepLater place) none) := by
  induction xs using List.reverseRecOn with
  | nil => exact rfl
  | append_singleton xs x ih =>
    rw [List.foldl_concat]
    exact ih.keepLater x

/-- **Its place only rises**, and it is never emptied. -/
theorem keepLater_rises (old x : α) : ∃ new, keepLater place (some old) x = some new ∧
    (new = old ∨ place old < place new) := by
  unfold keepLater
  by_cases hlt : place old < place x
  · exact ⟨x, if_pos hlt, Or.inr hlt⟩
  · exact ⟨old, if_neg hlt, Or.inl rfl⟩

/-- **Neither order nor repetition counts**, where a place names one
value. -/
theorem IsLatest.unique (h : IsLatest place xs stored) (h' : IsLatest place ys stored')
    (hsame : ∀ x, x ∈ xs ↔ x ∈ ys)
    (hplace : ∀ x ∈ xs, ∀ y ∈ xs, place x = place y → x = y) : stored = stored' := by
  cases stored with
  | none =>
    obtain rfl : xs = [] := h
    cases stored' with
    | none => rfl
    | some y => exact absurd ((hsame y).mpr h'.1) List.not_mem_nil
  | some x =>
    obtain ⟨hx, hmax⟩ := h
    cases stored' with
    | none =>
      obtain rfl : ys = [] := h'
      exact absurd ((hsame x).mp hx) List.not_mem_nil
    | some y =>
      obtain ⟨hy, hmax'⟩ := h'
      have hyx : y ∈ xs := (hsame y).mpr hy
      have heq := le_antisymm (hmax' x ((hsame x).mp hx)) (hmax y hyx)
      exact congrArg some (hplace x hx y hyx heq)

end HoodSentry

/-!
## Passes that go on from a cursor

Passes over a growing registry, each of which begins where the last one left
the cursor and marks some of what it goes past. What is behind the cursor is
not looked at again, so all of the registry comes to be marked exactly where
each pass marks everything it goes past (`CursorWalk.forall_marked_iff`).
-/

namespace HoodSentry

/-- **Passes from a cursor.** Pass `n` moves it from `cursor n` to
`cursor (n + 1)`; of what it goes past it marks what is `fine`, and behind the
cursor it marks nothing. -/
structure CursorWalk (cursor : ℕ → ℕ) (marked fine : ℕ → ℕ → Prop) : Prop where
  start : cursor 0 = 0
  mono : ∀ n, cursor n ≤ cursor (n + 1)
  keeps : ∀ n i, marked n i → marked (n + 1) i
  behind : ∀ n i, i < cursor n → marked (n + 1) i → marked n i
  passes : ∀ n i, cursor n ≤ i → i < cursor (n + 1) → (marked (n + 1) i ↔ fine n i)

namespace CursorWalk

variable {cursor : ℕ → ℕ} {marked fine : ℕ → ℕ → Prop}

theorem cursor_le (w : CursorWalk cursor marked fine) {m n : ℕ} (h : m ≤ n) :
    cursor m ≤ cursor n :=
  monotone_nat_of_le_succ w.mono h

theorem marked_of_le (w : CursorWalk cursor marked fine) {m n i : ℕ} (h : m ≤ n)
    (hm : marked m i) : marked n i := by
  induction h with
  | refl => exact hm
  | step _ ih => exact w.keeps _ _ ih

/-- Nothing is marked later than when it is passed. -/
theorem marked_of_passed (w : CursorWalk cursor marked fine) {m n i : ℕ} (h : m ≤ n)
    (hpassed : i < cursor m) (hn : marked n i) : marked m i := by
  induction h with
  | refl => exact hn
  | @step n hmn ih => exact ih (w.behind n i (hpassed.trans_le (w.cursor_le hmn)) hn)

/-- What is behind the cursor was passed by some pass. -/
theorem exists_pass (w : CursorWalk cursor marked fine) {n i : ℕ} (h : i < cursor n) :
    ∃ m, cursor m ≤ i ∧ i < cursor (m + 1) := by
  induction n with
  | zero =>
    rw [w.start] at h
    omega
  | succ n ih =>
    rcases Nat.lt_or_ge i (cursor n) with hn | hn
    · exact ih hn
    · exact ⟨n, hn, h⟩

/-- **A cursor that never stays goes past everything**: `total` is how much
there is at each pass. -/
theorem exists_lt_cursor (w : CursorWalk cursor marked fine) {total : ℕ → ℕ}
    (hgrow : Monotone total)
    (hmoves : ∀ c, ∃ N, ∀ n, N ≤ n → cursor n = c → c < total n → c < cursor (n + 1)) (i : ℕ)
    (hi : ∃ n, i < total n) : ∃ n, i < cursor n := by
  induction i with
  | zero =>
    obtain ⟨n₀, hn₀⟩ := hi
    obtain ⟨N, hN⟩ := hmoves 0
    rcases Nat.eq_zero_or_pos (cursor (max N n₀)) with hzero | hpos
    · exact ⟨_, hN _ (le_max_left ..) hzero (hn₀.trans_le (hgrow (le_max_right ..)))⟩
    · exact ⟨_, hpos⟩
  | succ i ih =>
    obtain ⟨n₀, hn₀⟩ := hi
    obtain ⟨n₁, hn₁⟩ := ih ⟨n₀, by omega⟩
    obtain ⟨N, hN⟩ := hmoves (i + 1)
    -- a pass after all of these finds the cursor at `i + 1` at least
    have hle : i + 1 ≤ cursor (max N (max n₀ n₁)) :=
      hn₁.trans_le (w.cursor_le ((le_max_right ..).trans (le_max_right ..)))
    rcases Nat.eq_or_lt_of_le hle with hstays | hpast
    · refine ⟨_, hN _ (le_max_left ..) hstays.symm (hn₀.trans_le (hgrow ?_))⟩
      exact (le_max_left n₀ n₁).trans (le_max_right ..)
    · exact ⟨_, hpast⟩

/-- **Everything comes to be marked exactly where every pass marks all it
goes past.** -/
theorem forall_marked_iff (w : CursorWalk cursor marked fine) {registered : ℕ → Prop}
    (hpassed : ∀ n i, i < cursor n → registered i)
    (hreached : ∀ i, registered i → ∃ n, i < cursor n) :
    (∀ i, registered i → ∃ n, marked n i) ↔
      ∀ n i, cursor n ≤ i → i < cursor (n + 1) → fine n i := by
  constructor
  · intro hall n i hle hlt
    obtain ⟨m, hm⟩ := hall i (hpassed _ _ hlt)
    rw [← w.passes n i hle hlt]
    rcases Nat.le_total m (n + 1) with hmn | hmn
    · exact w.marked_of_le hmn hm
    · exact w.marked_of_passed hmn hlt hm
  · intro hfine i hi
    obtain ⟨n, hn⟩ := hreached i hi
    obtain ⟨m, hle, hlt⟩ := w.exists_pass hn
    exact ⟨m + 1, (w.passes m i hle hlt).mpr (hfine m i hle hlt)⟩

end CursorWalk

end HoodSentry
