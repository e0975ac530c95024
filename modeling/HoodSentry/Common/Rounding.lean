import Mathlib
/-!
# Conversions rounded down

An amount converted at a rate of `n` to `d`, and rounded down. Converting
there and back at the reciprocal rate gains nothing, parts converted on
their own come to no more than the whole, and a part more costs less than
one unit.
-/

namespace HoodSentry

variable {n d a b : ℤ}

/-- `a` at a rate of `n` to `d`. -/
def atRate (n d a : ℤ) : ℤ := a * n / d

/-- What an amount comes to is the greatest that is worth no more. -/
theorem le_atRate_iff (hd : 0 < d) : b ≤ atRate n d a ↔ b * d ≤ a * n :=
  Int.le_ediv_iff_mul_le hd

theorem atRate_mul_le (hd : 0 < d) : atRate n d a * d ≤ a * n :=
  (le_atRate_iff hd).mp le_rfl

theorem lt_atRate_add_one_mul (hd : 0 < d) : a * n < (atRate n d a + 1) * d :=
  Int.lt_ediv_add_one_mul_self (a * n) hd

theorem atRate_mono (hn : 0 ≤ n) (hd : 0 < d) (hab : a ≤ b) : atRate n d a ≤ atRate n d b :=
  Int.ediv_le_ediv hd (mul_le_mul_of_nonneg_right hab hn)

/-- **There and back** gains nothing. -/
theorem atRate_atRate_le (hn : 0 < n) (hd : 0 < d) : atRate d n (atRate n d a) ≤ a := by
  have hthere : atRate n d a * d ≤ a * n := atRate_mul_le hd
  have hback : atRate d n (atRate n d a) * n ≤ atRate n d a * d := atRate_mul_le hn
  exact le_of_mul_le_mul_right (hback.trans hthere) hn

/-- **Parts** come to no more than the whole. -/
theorem atRate_add_atRate_le (hd : 0 < d) :
    atRate n d a + atRate n d b ≤ atRate n d (a + b) := by
  rw [le_atRate_iff hd, add_mul, add_mul]
  exact add_le_add (atRate_mul_le hd) (atRate_mul_le hd)

theorem atRate_add_le (hd : 0 < d) :
    atRate n d (a + b) ≤ atRate n d a + atRate n d b + 1 := by
  have hleft : a * n < (atRate n d a + 1) * d := lt_atRate_add_one_mul hd
  have hright : b * n < (atRate n d b + 1) * d := lt_atRate_add_one_mul hd
  have hwhole : atRate n d (a + b) * d ≤ (a + b) * n := atRate_mul_le hd
  have hlt : atRate n d (a + b) * d < (atRate n d a + atRate n d b + 2) * d := by
    linarith
  have hunits := lt_of_mul_lt_mul_right hlt hd.le
  omega

/-- So do the parts of a list. -/
theorem sum_atRate_le (hd : 0 < d) (parts : List ℤ) :
    (parts.map (atRate n d)).sum ≤ atRate n d parts.sum := by
  induction parts with
  | nil => simp [atRate]
  | cons part parts ih =>
    rw [List.map_cons, List.sum_cons, List.sum_cons]
    exact (add_le_add_right ih _).trans (atRate_add_atRate_le hd)

/-- **A pair of conversions** of amounts that are not negative, each the
other's way back. -/
structure ConversionPair (f g : ℤ → ℤ) : Prop where
  monotone : ∀ a b, 0 ≤ a → a ≤ b → f a ≤ f b ∧ g a ≤ g b
  back_le : ∀ a, 0 ≤ a → g (f a) ≤ a ∧ f (g a) ≤ a
  parts_le : ∀ a b, 0 ≤ a → 0 ≤ b → f a + f b ≤ f (a + b) ∧ g a + g b ≤ g (a + b)
  whole_le : ∀ a b, 0 ≤ a → 0 ≤ b → f (a + b) ≤ f a + f b + 1 ∧ g (a + b) ≤ g a + g b + 1
  sum_le : ∀ parts : List ℤ, (∀ a ∈ parts, 0 ≤ a) →
    (parts.map f).sum ≤ f parts.sum ∧ (parts.map g).sum ≤ g parts.sum

/-- **Reciprocal rates** make a pair. -/
theorem conversionPair_atRate (hn : 0 < n) (hd : 0 < d) :
    ConversionPair (atRate n d) (atRate d n) where
  monotone _ _ _ hab := ⟨atRate_mono hn.le hd hab, atRate_mono hd.le hn hab⟩
  back_le _ _ := ⟨atRate_atRate_le hn hd, atRate_atRate_le hd hn⟩
  parts_le _ _ _ _ := ⟨atRate_add_atRate_le hd, atRate_add_atRate_le hn⟩
  whole_le _ _ _ _ := ⟨atRate_add_le hd, atRate_add_le hn⟩
  sum_le parts _ := ⟨sum_atRate_le hd parts, sum_atRate_le hn parts⟩

end HoodSentry
