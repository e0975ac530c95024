import Mathlib.Data.List.Basic
/-!
# Walking a code by instruction widths

An instruction at an offset takes one place and as many more as its operand
is wide; the next one starts behind it. `Boundary` says where an instruction
starts, `boundariesFrom` finds them by walking: they are the same offsets
(`mem_boundariesFrom_zero`), so two walks that agree on the widths and on
where the code ends meet the same instructions.
-/

namespace HoodSentry

variable {width : ℕ → ℕ} {size : ℕ}

/-- **Where an instruction starts**: at the beginning, and behind an
instruction inside the code. -/
inductive Boundary (width : ℕ → ℕ) (size : ℕ) : ℕ → Prop
  | start : Boundary width size 0
  | next {offset : ℕ} : Boundary width size offset → offset < size →
      Boundary width size (offset + 1 + width offset)

/-- The offsets a walk from `offset` meets. -/
def boundariesFrom (width : ℕ → ℕ) (size offset : ℕ) : List ℕ :=
  if offset < size then
    offset :: boundariesFrom width size (offset + 1 + width offset)
  else []
termination_by size - offset

theorem boundariesFrom_of_lt {offset : ℕ} (h : offset < size) :
    boundariesFrom width size offset =
      offset :: boundariesFrom width size (offset + 1 + width offset) := by
  rw [boundariesFrom, if_pos h]

theorem boundariesFrom_of_le {offset : ℕ} (h : size ≤ offset) :
    boundariesFrom width size offset = [] := by
  rw [boundariesFrom, if_neg (by omega)]

/-- A walk from a boundary meets boundaries inside the code. -/
theorem boundary_of_mem_boundariesFrom {start offset : ℕ} (hstart : Boundary width size start)
    (h : offset ∈ boundariesFrom width size start) :
    Boundary width size offset ∧ offset < size := by
  induction start using boundariesFrom.induct width size with
  | case1 start hlt ih =>
    rw [boundariesFrom_of_lt hlt] at h
    rcases List.mem_cons.mp h with rfl | hrest
    · exact ⟨hstart, hlt⟩
    · exact ih (hstart.next hlt) hrest
  | case2 start hle =>
    rw [boundariesFrom_of_le (by omega)] at h
    cases h

/-- The walk goes on behind each instruction it meets. -/
theorem next_mem_boundariesFrom {start offset : ℕ}
    (h : offset ∈ boundariesFrom width size start) (hlt : offset + 1 + width offset < size) :
    offset + 1 + width offset ∈ boundariesFrom width size start := by
  induction start using boundariesFrom.induct width size with
  | case1 start hstart ih =>
    rw [boundariesFrom_of_lt hstart] at h ⊢
    rcases List.mem_cons.mp h with rfl | hrest
    · rw [boundariesFrom_of_lt hlt]
      exact List.mem_cons_of_mem _ List.mem_cons_self
    · exact List.mem_cons_of_mem _ (ih hrest)
  | case2 start hle =>
    rw [boundariesFrom_of_le (by omega)] at h
    cases h

/-- **The walk from the beginning meets every boundary inside the code**,
and nothing else. -/
theorem mem_boundariesFrom_zero {offset : ℕ} :
    offset ∈ boundariesFrom width size 0 ↔ Boundary width size offset ∧ offset < size := by
  refine ⟨fun h => boundary_of_mem_boundariesFrom .start h, ?_⟩
  rintro ⟨hb, hlt⟩
  induction hb with
  | start =>
    rw [boundariesFrom_of_lt hlt]
    exact List.mem_cons_self
  | next hb hin ih => exact next_mem_boundariesFrom (ih hin) hlt

end HoodSentry
