import Mathlib
/-!
# Swaps against a constant product

A pool holds `x` of the token it takes and `y` of the token it gives. For `a`
in, of which the part `n / d` counts, it gives `o`, which is at most
`a * n * y / (x * d + a * n)`. `Fair` states that bound without the division,
over any ordered ring, so it holds of a rounded output as of an exact one.
-/

namespace HoodSentry

section ConstantProduct

variable {R : Type*} [CommRing R] [LinearOrder R] [IsStrictOrderedRing R]
variable {x y a a' o o' n d : R}

/-- **The output is at most what the product allows**, where `n` of `d` parts
of the input count. -/
def Fair (x y a n d o : R) : Prop := o * (x * d + a * n) ≤ a * n * y

/-- A swap never gives all the pool holds. -/
theorem Fair.lt_reserve (h : Fair x y a n d o) (hx : 0 < x) (hy : 0 < y) (ha : 0 < a) (hn : 0 < n)
    (hd : 0 < d) : o < y := by
  have hxd : 0 < x * d := mul_pos hx hd
  have han : 0 < a * n := mul_pos ha hn
  have hless : a * n * y < y * (x * d + a * n) := by
    have hyxd := mul_pos hy hxd
    nlinarith
  exact lt_of_mul_lt_mul_right (lt_of_le_of_lt h hless) (add_pos hxd han).le

/-- What the pool gives for its input reserve is at most the input against
what is left of the output reserve. -/
theorem Fair.mul_le (h : Fair x y a n d o) (hoy : o ≤ y) (ha : 0 ≤ a) (hd : 0 < d) (hnd : n ≤ d) :
    o * x ≤ a * (y - o) := by
  have hleft : 0 ≤ y - o := sub_nonneg.mpr hoy
  have hcount : a * n * (y - o) ≤ a * d * (y - o) :=
    mul_le_mul_of_nonneg_right (mul_le_mul_of_nonneg_left hnd ha) hleft
  have hscaled : o * x * d ≤ a * (y - o) * d := by
    unfold Fair at h
    nlinarith
  exact le_of_mul_le_mul_right hscaled hd

/-- **The product of the reserves does not fall.** -/
theorem Fair.product_le (h : Fair x y a n d o) (hoy : o ≤ y) (ha : 0 ≤ a) (hd : 0 < d)
    (hnd : n ≤ d) : x * y ≤ (x + a) * (y - o) := by
  have hmul := h.mul_le hoy ha hd hnd
  nlinarith

/-- **More in allows the same out.** -/
theorem Fair.mono_input (h : Fair x y a n d o) (hoy : o ≤ y) (hn : 0 ≤ n) (haa : a ≤ a') :
    Fair x y a' n d o := by
  have hmore : a * n * (y - o) ≤ a' * n * (y - o) :=
    mul_le_mul_of_nonneg_right (mul_le_mul_of_nonneg_right haa hn) (sub_nonneg.mpr hoy)
  unfold Fair at h ⊢
  nlinarith

/-- **Nothing is gained by swapping back**: what the output buys of the pool
the swap left is at most the input. -/
theorem Fair.back_le (h : Fair x y a n d o) (hback : Fair (y - o) (x + a) o n d o') (hy : 0 < y)
    (hoy : o ≤ y) (ho : 0 ≤ o) (ho' : o' ≤ x + a) (ha : 0 ≤ a) (hd : 0 < d) (hnd : n ≤ d) :
    o' ≤ a := by
  have hout := h.product_le hoy ha hd hnd
  have hin := hback.product_le ho' ho hd hnd
  have hprod : y * x ≤ y * (x + a - o') := by
    have hsum : y - o + o = y := sub_add_cancel y o
    rw [hsum] at hin
    nlinarith
  have hx := le_of_mul_le_mul_left hprod hy
  linarith

end ConstantProduct

/-- The floor of the exact output is fair, and no larger integer is. -/
theorem fair_iff_le_ediv {x y a n d o : ℤ} (hden : 0 < x * d + a * n) :
    Fair x y a n d o ↔ o ≤ a * n * y / (x * d + a * n) :=
  (Int.le_ediv_iff_mul_le hden).symm

end HoodSentry
