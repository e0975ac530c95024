import Mathlib
/-!
# Token buckets

A bucket fills at a steady rate up to its capacity, and every grant takes
one token out of it. Whatever is granted since some time and is left in the
bucket never exceeds the capacity and what has flowed in since then; while
no grant takes what is not there, this bounds the grants of every interval.
-/

namespace HoodSentry

universe u

variable {K : Type u}

/-! ## Grants -/

section Grants

variable [LinearOrder K]

/-- The grants from a time on, and those of an interval. -/
def grantsSince (grants : List K) (start : K) : ℕ := grants.countP fun t => start ≤ t

def grantsIn (grants : List K) (start stop : K) : ℕ :=
  grants.countP fun t => start ≤ t ∧ t ≤ stop

theorem grantsIn_le_grantsSince (grants : List K) (start stop : K) :
    grantsIn grants start stop ≤ grantsSince grants start :=
  List.countP_mono_left fun t _ h => by
    rw [decide_eq_true_eq] at h ⊢
    exact h.1

end Grants

/-! ## Spaced grants -/

section Spaced

variable [Field K] [LinearOrder K] [IsStrictOrderedRing K] {interval : K} {grants : List K}

/-- **Grants an interval apart**, the latest first. -/
def SpacedBy (interval : K) (grants : List K) : Prop :=
  grants.Pairwise fun later earlier => earlier + interval ≤ later

/-- One more, an interval after the latest. -/
theorem SpacedBy.cons (h : SpacedBy interval grants) {last now : K} (hlast : ∀ t ∈ grants, t ≤ last)
    (hnow : last + interval ≤ now) : SpacedBy interval (now :: grants) :=
  List.pairwise_cons.mpr ⟨fun t ht => (add_le_add_left (hlast t ht) interval).trans hnow, h⟩

/-- Between two times there is room for the grants between them. -/
theorem SpacedBy.length_le (h : SpacedBy interval grants)
    {start stop : K} (hle : start ≤ stop) (hinside : ∀ t ∈ grants, start ≤ t ∧ t ≤ stop) :
    start + ((grants.length - 1 : ℕ) : K) * interval ≤ stop := by
  induction grants generalizing stop with
  | nil => simpa using hle
  | cons t earlier ih =>
    obtain ⟨hapart, hspaced⟩ := List.pairwise_cons.mp h
    obtain ⟨hfirst, hstop⟩ := hinside t List.mem_cons_self
    cases earlier with
    | nil => simpa using hfirst.trans hstop
    | cons u rest =>
      have hu := hinside u (List.mem_cons_of_mem _ List.mem_cons_self)
      have hroom : start ≤ t - interval :=
        hu.1.trans (le_sub_iff_add_le.mpr (hapart u List.mem_cons_self))
      have hbefore := ih hspaced hroom fun v hv =>
        ⟨(hinside v (List.mem_cons_of_mem _ hv)).1, le_sub_iff_add_le.mpr (hapart v hv)⟩
      have hcount : ((t :: u :: rest).length - 1 : ℕ) = ((u :: rest).length - 1) + 1 := by
        simp only [List.length_cons]
        omega
      rw [hcount, Nat.cast_add, Nat.cast_one, add_mul, one_mul]
      linarith

/-- **A window** has no more spaced grants than intervals, and one. -/
theorem SpacedBy.grantsIn_le [FloorSemiring K] (hinterval : 0 < interval)
    (h : SpacedBy interval grants) (start : K) {length : K} (hlength : 0 ≤ length) :
    grantsIn grants start (start + length) ≤ ⌊length / interval⌋₊ + 1 := by
  rw [grantsIn, List.countP_eq_length_filter]
  have hspaced : SpacedBy interval (grants.filter fun t => start ≤ t ∧ t ≤ start + length) :=
    List.Pairwise.filter _ h
  have hroom := hspaced.length_le (le_add_of_nonneg_right hlength) fun t ht =>
    of_decide_eq_true (List.mem_filter.mp ht).2
  have hfloor : (grants.filter fun t => start ≤ t ∧ t ≤ start + length).length - 1 ≤
      ⌊length / interval⌋₊ := by
    refine Nat.le_floor ?_
    rw [le_div_iff₀ hinterval]
    linarith
  omega

end Spaced

/-! ## Buckets -/

/-- **A token bucket**: its level, and when it was last filled. -/
structure Bucket (K : Type u) where
  level : K
  filled : K

variable [Field K]

namespace Bucket

variable {capacity rate now : K} {b : Bucket K} {grants : List K}

/-- One token out, whether it is there or not. -/
def take (b : Bucket K) : Bucket K := { b with level := b.level - 1 }

@[simp] theorem filled_take : b.take.filled = b.filled := rfl

@[simp] theorem level_take : b.take.level = b.level - 1 := rfl

variable [LinearOrder K]

/-- What has flowed in by `now`, up to the capacity. -/
def fill (capacity rate now : K) (b : Bucket K) : Bucket K where
  level := min capacity (b.level + (now - b.filled) * rate)
  filled := now

@[simp] theorem filled_fill : (b.fill capacity rate now).filled = now := rfl

variable [IsStrictOrderedRing K]

theorem level_fill_nonneg (hcapacity : 0 ≤ capacity) (hrate : 0 ≤ rate) (h : 0 ≤ b.level)
    (hnow : b.filled ≤ now) : 0 ≤ (b.fill capacity rate now).level := by
  have hflow : 0 ≤ (now - b.filled) * rate := mul_nonneg (sub_nonneg.mpr hnow) hrate
  exact le_min hcapacity (add_nonneg h hflow)

/-- **Within the rate**: an interval has no more grants than the capacity
and what flows in over its length. -/
def WithinRate (capacity rate : K) (grants : List K) : Prop :=
  ∀ start stop, start ≤ stop → (grantsIn grants start stop : K) ≤ capacity + (stop - start) * rate

/-- **The account of a bucket**: the grants lie in its past, and with what
is left they come to no more than the capacity and the inflow. -/
structure Account (capacity rate : K) (grants : List K) (b : Bucket K) : Prop where
  past : ∀ t ∈ grants, t ≤ b.filled
  spent : ∀ start ≤ b.filled,
    (grantsSince grants start : K) + b.level ≤ capacity + (b.filled - start) * rate

/-- A full bucket nothing was granted of. -/
theorem account_full (hrate : 0 ≤ rate) : Account capacity rate [] ⟨capacity, now⟩ where
  past _ h := absurd h List.not_mem_nil
  spent start hstart := by
    have hflow : 0 ≤ (now - start) * rate := mul_nonneg (sub_nonneg.mpr hstart) hrate
    have hnone : (grantsSince ([] : List K) start : K) = 0 := Nat.cast_zero
    rw [hnone]
    linarith

/-- Filling keeps the account. -/
theorem Account.fill (h : b.Account capacity rate grants) (hrate : 0 ≤ rate)
    (hnow : b.filled ≤ now) : (b.fill capacity rate now).Account capacity rate grants where
  past t ht := (h.past t ht).trans hnow
  spent start hstart := by
    rw [filled_fill] at hstart ⊢
    rcases le_or_gt start b.filled with hbefore | hafter
    · have hspent := h.spent start hbefore
      have hlevel : (b.fill capacity rate now).level ≤ b.level + (now - b.filled) * rate :=
        min_le_right ..
      have hsplit : (now - start) * rate =
          (now - b.filled) * rate + (b.filled - start) * rate := by
        ring
      linarith
    · -- Nothing was granted since, and the level is at most the capacity.
      have hnone : grantsSince grants start = 0 := by
        refine List.countP_eq_zero.mpr fun t ht => ?_
        rw [decide_eq_true_eq]
        exact not_le.mpr ((h.past t ht).trans_lt hafter)
      have hlevel : (b.fill capacity rate now).level ≤ capacity := min_le_left ..
      have hflow : 0 ≤ (now - start) * rate := mul_nonneg (sub_nonneg.mpr hstart) hrate
      rw [hnone, Nat.cast_zero]
      linarith

/-- A grant keeps the account, also one of a token that is not there. -/
theorem Account.take (h : b.Account capacity rate grants) :
    b.take.Account capacity rate (b.filled :: grants) where
  past t ht := by
    rcases List.mem_cons.mp ht with rfl | ht
    · exact le_rfl
    · exact h.past t ht
  spent start hstart := by
    have hspent := h.spent start hstart
    have hone : grantsSince (b.filled :: grants) start = grantsSince grants start + 1 :=
      List.countP_cons_of_pos (decide_eq_true hstart)
    rw [hone, Nat.cast_add, Nat.cast_one, level_take, filled_take]
    linarith

/-- **A grant keeps the rate** when the token it takes is there. -/
theorem WithinRate.take (h : WithinRate capacity rate grants)
    (haccount : b.Account capacity rate grants) (hrate : 0 ≤ rate) (hlevel : 0 ≤ b.take.level) :
    WithinRate capacity rate (b.filled :: grants) := by
  intro start stop hle
  by_cases hinside : start ≤ b.filled ∧ b.filled ≤ stop
  · have hspent := haccount.take.spent start hinside.1
    have hcount : (grantsIn (b.filled :: grants) start stop : K) ≤
        grantsSince (b.filled :: grants) start :=
      Nat.cast_le.mpr (grantsIn_le_grantsSince ..)
    have hlonger : (b.filled - start) * rate ≤ (stop - start) * rate :=
      mul_le_mul_of_nonneg_right (sub_le_sub_right hinside.2 start) hrate
    rw [filled_take] at hspent
    linarith
  · have hsame : grantsIn (b.filled :: grants) start stop = grantsIn grants start stop :=
      List.countP_cons_of_neg (by rw [decide_eq_true_eq]; exact hinside)
    rw [hsame]
    exact h start stop hle

theorem withinRate_nil (hcapacity : 0 ≤ capacity) (hrate : 0 ≤ rate) :
    WithinRate capacity rate [] := by
  intro start stop hle
  have hnone : (grantsIn ([] : List K) start stop : K) = 0 := Nat.cast_zero
  rw [hnone]
  exact add_nonneg hcapacity (mul_nonneg (sub_nonneg.mpr hle) hrate)

end Bucket

end HoodSentry
