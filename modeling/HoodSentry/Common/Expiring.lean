import Mathlib
/-!
# Keys with a time to live

A key of a store holds nothing, or a value and the time it expires at.
What has expired is no longer there, and nothing but a write brings it
back.
-/

namespace HoodSentry

universe u

/-- **A value with its expiry.** -/
structure Expiring (α : Type u) where
  value : α
  expiresAt : ℕ
deriving DecidableEq

namespace Expiring

variable {α : Type u} {key : Option (Expiring α)} {e : Expiring α} {now later : ℕ}

/-- What a key holds at a time. -/
def live (key : Option (Expiring α)) (now : ℕ) : Option (Expiring α) :=
  key.filter fun e => now < e.expiresAt

/-- The value a read finds. -/
def get (key : Option (Expiring α)) (now : ℕ) : Option α := (live key now).map value

/-- A write, over whatever was there. -/
def put (value : α) (ttl now : ℕ) : Option (Expiring α) := some ⟨value, now + ttl⟩

theorem live_eq_some_iff : live key now = some e ↔ key = some e ∧ now < e.expiresAt := by
  rw [live, Option.filter_eq_some_iff, decide_eq_true_eq]

/-- A key free at a time holds nothing that expires behind it. -/
theorem expiresAt_le (h : live key now = none) (hkey : key = some e) : e.expiresAt ≤ now := by
  by_contra hlt
  have hlive : live key now = some e := live_eq_some_iff.mpr ⟨hkey, by omega⟩
  rw [h] at hlive
  exact absurd hlive (by simp)

end Expiring

end HoodSentry
