import Mathlib
/-!
# Linked records

Records that carry a height, their own hash and their parent's: a set of
them is linked when every two at consecutive heights agree on the hash
between them. `Linked.union` is how such a set grows.
-/

namespace HoodSentry

universe u v

variable {ρ : Type u} {η : Type v} {height : ρ → ℕ} {hash parent : ρ → η} {S T : Set ρ}

/-- **Consecutive records agree.** -/
def Linked (height : ρ → ℕ) (hash parent : ρ → η) (S : Set ρ) : Prop :=
  ∀ r ∈ S, ∀ r' ∈ S, height r' = height r + 1 → parent r' = hash r

theorem Linked.subset (h : Linked height hash parent T) (hST : S ⊆ T) :
    Linked height hash parent S :=
  fun r hr r' hr' => h r (hST hr) r' (hST hr')

/-- **Joining two linked sets.** `above` is where the new records stand
on the old, `below` where the old stand on the new. -/
theorem Linked.union (hS : Linked height hash parent S) (hT : Linked height hash parent T)
    (above : ∀ r ∈ S, ∀ r' ∈ T, height r' = height r + 1 → parent r' = hash r)
    (below : ∀ r ∈ T, ∀ r' ∈ S, height r' = height r + 1 → parent r' = hash r) :
    Linked height hash parent (S ∪ T) := by
  rintro r (hr | hr) r' (hr' | hr') hh
  · exact hS r hr r' hr' hh
  · exact above r hr r' hr' hh
  · exact below r hr r' hr' hh
  · exact hT r hr r' hr' hh

end HoodSentry
