import HoodSentry.Common.Numerals
/-!
# Raw amounts and decimal texts

`toRawAmount` and `fromRawAmount` of `packages/shared/src/decimal.ts`. A raw
amount survives its text unless it is negative and no multiple of the unit:
the sign of the remainder is printed inside the fraction, where it is read
back only if it fills the last place left. A decimal text survives unless it
is negative with a fraction, which is added to the whole part where it should
be taken away.
-/

namespace HoodSentry

/-- `toRawAmount`, with what it throws. -/
def toRawAmount (amount : Units) (decimals : ℕ) : Except String ℤ :=
  let parts := amount.splitOn (unit '.')
  let whole := parts.headD []
  let fraction := (parts[1]?).getD []
  if whole = [] then .error "Invalid amount"
  else
    let paddedFraction := (padEnd decimals fraction).take decimals
    match bigIntOf whole, bigIntOf paddedFraction with
    | some whole, some fraction => .ok (whole * 10 ^ decimals + fraction)
    | _, _ => .error "SyntaxError"

def fromRawAmount (raw : ℤ) (decimals : ℕ) : Units :=
  let divisor : ℤ := 10 ^ decimals
  let whole := raw.tdiv divisor
  let fraction := raw.tmod divisor
  if fraction = 0 then intText whole
  else intText whole ++ unit '.' :: stripZeros (padStart decimals (intText fraction))

/-- **A decimal text** without superfluous zeros, with at most so many
digits in its fraction. -/
structure DecimalText (decimals : ℕ) where
  negative : Bool
  whole : ℕ
  fraction : Units
  digits : ∀ c ∈ fraction, IsDigit c
  last : fraction.getLast? ≠ some (unit '0')
  short : fraction.length ≤ decimals
  /-- Zero has no sign. -/
  signed : negative → whole ≠ 0 ∨ fraction ≠ []

namespace DecimalText

variable {decimals : ℕ} (s : DecimalText decimals)

def wholeText : Units := if s.negative then unit '-' :: natText s.whole else natText s.whole

def text : Units :=
  if s.fraction = [] then s.wholeText else s.wholeText ++ unit '.' :: s.fraction

end DecimalText

namespace RawAmount

/-- A raw amount is read back from its text. -/
def Survives (raw : ℤ) (decimals : ℕ) : Prop :=
  toRawAmount (fromRawAmount raw decimals) decimals = .ok raw

/-- A text is written again for the amount it is read as. -/
def TextSurvives {decimals : ℕ} (s : DecimalText decimals) : Prop :=
  ∃ raw, toRawAmount s.text decimals = .ok raw ∧ fromRawAmount raw decimals = s.text

/-- **Where raw amounts survive.** In the last case the minus of the fraction
stands in its first place, and is read there. -/
def Kept (raw : ℤ) (decimals : ℕ) : Prop :=
  0 ≤ raw ∨ (10 : ℤ) ^ decimals ∣ raw ∨
    (natText (raw.natAbs % 10 ^ decimals)).length + 1 = decimals

/-! ## Reading a text with a point -/

variable {decimals : ℕ} {raw : ℤ} {whole fraction : Units}

theorem point_notMem_natText (n : ℕ) : unit '.' ∉ natText n := fun h =>
  absurd (isDigit_natText n _ h) (by unfold IsDigit; decide)

theorem point_notMem_intText (n : ℤ) : unit '.' ∉ intText n := by
  unfold intText
  split
  · rw [List.mem_cons, not_or]
    exact ⟨by decide, point_notMem_natText _⟩
  · exact point_notMem_natText _

theorem intText_ne_nil (n : ℤ) : intText n ≠ [] := by
  unfold intText
  split
  · exact List.cons_ne_nil _ _
  · exact natText_ne_nil

/-- **A text without a point.** -/
theorem toRawAmount_whole (hpoint : unit '.' ∉ whole) (hne : whole ≠ []) {n : ℤ}
    (hn : bigIntOf whole = some n) : toRawAmount whole decimals = .ok (n * 10 ^ decimals) := by
  have hzeros : bigIntOf ((padEnd decimals []).take decimals) = some 0 := by
    have hpad : (padEnd decimals []).take decimals = List.replicate decimals (unit '0') := by
      rw [padEnd, List.nil_append, List.length_nil, Nat.sub_zero, List.take_replicate,
        Nat.min_self]
    rw [hpad, bigIntOf_digits (isDigit_replicate _), valueFrom_replicate_zero, Nat.zero_mul]
    rfl
  simp only [toRawAmount, List.splitOn_eq_singleton hpoint]
  show (if whole = [] then _ else
    match bigIntOf whole, bigIntOf ((padEnd decimals []).take decimals) with
    | some whole, some fraction => Except.ok (whole * 10 ^ decimals + fraction)
    | _, _ => .error "SyntaxError") = _
  rw [if_neg hne, hn, hzeros]
  show Except.ok (n * 10 ^ decimals + 0) = _
  rw [Int.add_zero]

/-- **A text with a point** and no other behind it. -/
theorem toRawAmount_point (hpoint : unit '.' ∉ whole) (hne : whole ≠ [])
    (hfraction : unit '.' ∉ fraction) {n : ℤ} (hn : bigIntOf whole = some n) :
    toRawAmount (whole ++ unit '.' :: fraction) decimals =
      match bigIntOf ((padEnd decimals fraction).take decimals) with
      | some f => .ok (n * 10 ^ decimals + f)
      | none => .error "SyntaxError" := by
  simp only [toRawAmount, List.splitOn_append_cons_self_of_not_mem hpoint,
    List.splitOn_eq_singleton hfraction]
  show (if whole = [] then _ else
    match bigIntOf whole, bigIntOf ((padEnd decimals fraction).take decimals) with
    | some whole, some fraction => Except.ok (whole * 10 ^ decimals + fraction)
    | _, _ => .error "SyntaxError") = _
  rw [if_neg hne, hn]
  cases bigIntOf ((padEnd decimals fraction).take decimals) <;> rfl

/-! ## Raw amounts -/

variable {n : ℕ}

theorem decimals_pos (hn : n < 10 ^ decimals) (hpos : n ≠ 0) : 0 < decimals := by
  rcases Nat.eq_zero_or_pos decimals with rfl | h
  · rw [Nat.pow_zero] at hn
    omega
  · exact h

/-- A fraction without a sign is read back. -/
theorem read_fraction (hn : n < 10 ^ decimals) (hpos : n ≠ 0) :
    bigIntOf ((padStart decimals (natText n)).take decimals) = some (n : ℤ) := by
  have hlen : (natText n).length ≤ decimals := (length_natText_le (decimals_pos hn hpos)).mpr hn
  have hall : (padStart decimals (natText n)).take decimals = padStart decimals (natText n) :=
    List.take_of_length_le (by rw [length_padStart]; omega)
  rw [hall, bigIntOf_digits (isDigit_padStart (isDigit_natText n) _), valueFrom_padStart,
    valueFrom_natText]

/-- **A fraction with a minus** is read back if the minus is in its first
place and nothing of it is cut off. -/
theorem read_negative_fraction (hn : n < 10 ^ decimals) (hpos : n ≠ 0) :
    bigIntOf ((padStart decimals (unit '-' :: natText n)).take decimals) = some (-(n : ℤ)) ↔
      (natText n).length + 1 = decimals := by
  have hlen : (natText n).length ≤ decimals := (length_natText_le (decimals_pos hn hpos)).mpr hn
  have hdigits := isDigit_natText n
  rcases Nat.lt_trichotomy ((natText n).length + 1) decimals with hlt | heq | hgt
  · -- zeros stand before the minus
    refine iff_of_false ?_ (by omega)
    have hall : (padStart decimals (unit '-' :: natText n)).take decimals =
        List.replicate (decimals - (unit '-' :: natText n).length) (unit '0') ++
          unit '-' :: natText n :=
      List.take_of_length_le (by rw [length_padStart, List.length_cons]; omega)
    rw [hall, bigIntOf_minus_inside (isDigit_replicate _) ?_ hdigits]
    · exact nofun
    · rw [Ne, ← List.length_eq_zero_iff, List.length_replicate, List.length_cons]
      omega
  · refine iff_of_true ?_ heq
    have hall : (padStart decimals (unit '-' :: natText n)).take decimals =
        unit '-' :: natText n := by
      rw [padStart, List.length_cons, heq, Nat.sub_self, List.replicate_zero, List.nil_append]
      exact List.take_of_length_le (by rw [List.length_cons, heq])
    rw [hall, bigIntOf_minus hdigits, if_neg natText_ne_nil, valueFrom_natText]
  · -- the last digit is cut off
    refine iff_of_false ?_ (by omega)
    obtain ⟨k, hk⟩ : ∃ k, decimals = k + 1 :=
      Nat.exists_eq_succ_of_ne_zero (decimals_pos hn hpos).ne'
    have hcut : (padStart decimals (unit '-' :: natText n)).take decimals =
        unit '-' :: (natText n).take k := by
      rw [padStart, List.length_cons, Nat.sub_eq_zero_of_le (by omega), List.replicate_zero,
        List.nil_append, hk, List.take_succ_cons]
    have htake : ∀ c ∈ (natText n).take k, IsDigit c := fun c hc =>
      hdigits c (List.mem_of_mem_take hc)
    rw [hcut, bigIntOf_minus htake]
    split
    · exact nofun
    · intro h
      have hvalue : valueFrom 0 ((natText n).take k) = n := by
        have hneg := Option.some.inj h
        omega
      have hk0 : 0 < k := by
        refine Nat.pos_of_ne_zero fun hzero => ?_
        rw [hzero, List.take_zero] at hvalue
        exact hpos hvalue.symm
      -- fewer digits have a lesser value
      have hless := valueFrom_lt htake
      rw [hvalue, List.length_take, Nat.min_eq_left (by omega)] at hless
      have hle := (length_natText_le hk0).mpr hless
      omega

theorem point_notMem_fraction (f : ℤ) : unit '.' ∉ stripZeros (padStart decimals (intText f)) := by
  intro h
  have hmem := (List.rdropWhile_prefix (· == unit '0') _).subset h
  rcases List.mem_append.mp hmem with hmem | hmem
  · exact absurd (List.eq_of_mem_replicate hmem) (by decide)
  · exact point_notMem_intText f hmem

/-- **A raw amount survives** where its fraction is read back. -/
theorem survives_of_fraction (h : raw.tmod (10 ^ decimals) ≠ 0) : Survives raw decimals ↔
    bigIntOf ((padStart decimals (intText (raw.tmod (10 ^ decimals)))).take decimals) =
      some (raw.tmod (10 ^ decimals)) := by
  have hraw := Int.mul_tdiv_add_tmod raw (10 ^ decimals)
  rw [Int.mul_comm] at hraw
  have hstrip : (padEnd decimals (stripZeros
      (padStart decimals (intText (raw.tmod (10 ^ decimals)))))).take decimals =
        (padStart decimals (intText (raw.tmod (10 ^ decimals)))).take decimals :=
    take_padEnd_stripZeros (by rw [length_padStart]; omega)
  rw [Survives, fromRawAmount]
  rw [if_neg h, toRawAmount_point (point_notMem_intText _) (intText_ne_nil _)
    (point_notMem_fraction _) (bigIntOf_intText _), hstrip]
  cases bigIntOf ((padStart decimals (intText (raw.tmod (10 ^ decimals)))).take decimals) with
  | none => exact iff_of_false nofun nofun
  | some f =>
    show Except.ok (raw.tdiv (10 ^ decimals) * 10 ^ decimals + f) = _ ↔ _
    rw [Except.ok.injEq, Option.some.injEq]
    omega

theorem survives_of_dvd (h : (10 : ℤ) ^ decimals ∣ raw) : Survives raw decimals := by
  rw [Survives, fromRawAmount]
  rw [if_pos (Int.tmod_eq_zero_of_dvd h), toRawAmount_whole (point_notMem_intText _)
    (intText_ne_nil _) (bigIntOf_intText _), Int.tdiv_mul_cancel h]

/-- **Exactly these raw amounts survive.** -/
theorem survives_iff (raw : ℤ) (decimals : ℕ) : Survives raw decimals ↔ Kept raw decimals := by
  by_cases hdvd : (10 : ℤ) ^ decimals ∣ raw
  · exact iff_of_true (survives_of_dvd hdvd) (Or.inr (Or.inl hdvd))
  · have hfraction : raw.tmod (10 ^ decimals) ≠ 0 := fun h => hdvd (Int.dvd_of_tmod_eq_zero h)
    have habs : (raw.tmod (10 ^ decimals)).natAbs = raw.natAbs % 10 ^ decimals := by
      rw [Int.natAbs_tmod, Int.natAbs_pow]
      rfl
    have hlt : (raw.tmod (10 ^ decimals)).natAbs < 10 ^ decimals := by
      rw [habs]
      exact Nat.mod_lt _ (Nat.pow_pos (by omega))
    have hpos : (raw.tmod (10 ^ decimals)).natAbs ≠ 0 := Int.natAbs_ne_zero.mpr hfraction
    rw [survives_of_fraction hfraction]
    rcases Int.le_total 0 raw with hraw | hraw
    · have hnonneg := Int.tmod_nonneg (10 ^ decimals) hraw
      refine iff_of_true ?_ (Or.inl hraw)
      rw [intText, if_neg (by omega), read_fraction hlt hpos, Int.natAbs_of_nonneg hnonneg]
    · have hneg : raw.tmod (10 ^ decimals) < 0 := by
        have hle := Int.tmod_nonneg (10 ^ decimals) (Int.neg_nonneg.mpr hraw)
        rw [Int.neg_tmod] at hle
        omega
      have hself : raw.tmod (10 ^ decimals) = -((raw.tmod (10 ^ decimals)).natAbs : ℤ) := by omega
      have hread := read_negative_fraction hlt hpos
      rw [← hself, habs] at hread
      rw [intText, if_pos hneg, habs, hread, Kept]
      have hnot : ¬0 ≤ raw := fun h => hdvd (by rw [Int.le_antisymm hraw h]; exact Int.dvd_zero _)
      exact ⟨fun h => Or.inr (Or.inr h), fun h => (h.resolve_left hnot).resolve_left hdvd⟩

/-! ## Decimal texts -/

variable {s : DecimalText decimals}

/-- The whole part's value, with its sign. -/
def wholeValue (s : DecimalText decimals) : ℤ := if s.negative then -(s.whole : ℤ) else s.whole

/-- The value of the fraction, in raw units. -/
def fractionValue (s : DecimalText decimals) : ℕ := valueFrom 0 (padEnd decimals s.fraction)

theorem bigIntOf_wholeText (s : DecimalText decimals) :
    bigIntOf s.wholeText = some (wholeValue s) := by
  unfold DecimalText.wholeText wholeValue
  split
  · rw [bigIntOf_minus (isDigit_natText _), if_neg natText_ne_nil, valueFrom_natText]
  · rw [bigIntOf_digits (isDigit_natText _), valueFrom_natText]

theorem point_notMem_wholeText (s : DecimalText decimals) : unit '.' ∉ s.wholeText := by
  unfold DecimalText.wholeText
  split
  · rw [List.mem_cons, not_or]
    exact ⟨by decide, point_notMem_natText _⟩
  · exact point_notMem_natText _

theorem wholeText_ne_nil (s : DecimalText decimals) : s.wholeText ≠ [] := by
  unfold DecimalText.wholeText
  split
  · exact List.cons_ne_nil _ _
  · exact natText_ne_nil

theorem length_padEnd_fraction (s : DecimalText decimals) :
    (padEnd decimals s.fraction).length = decimals := by
  have hshort := s.short
  rw [length_padEnd]
  omega

theorem fractionValue_lt (s : DecimalText decimals) : fractionValue s < 10 ^ decimals := by
  have hlt := valueFrom_lt (isDigit_padEnd s.digits decimals)
  rwa [length_padEnd_fraction] at hlt

theorem fractionValue_eq_zero (h : s.fraction = []) : fractionValue s = 0 := by
  rw [fractionValue, h, padEnd, List.nil_append, valueFrom_replicate_zero, Nat.zero_mul]

/-- A fraction that does not end with a zero is not zero. -/
theorem fractionValue_ne_zero (h : s.fraction ≠ []) : fractionValue s ≠ 0 := by
  intro hzero
  have hall : padEnd decimals s.fraction = List.replicate decimals (unit '0') := by
    refine value_inj (isDigit_padEnd s.digits _) (isDigit_replicate _) ?_ ?_
    · rw [length_padEnd_fraction, List.length_replicate]
    · rw [valueFrom_replicate_zero, Nat.zero_mul]
      exact hzero
  refine s.last ?_
  rw [List.getLast?_eq_some_getLast h]
  have hmem : s.fraction.getLast h ∈ padEnd decimals s.fraction :=
    List.mem_append_left _ (List.getLast_mem h)
  rw [hall] at hmem
  rw [List.eq_of_mem_replicate hmem]

/-- **What a decimal text is read as.** -/
theorem toRawAmount_text (s : DecimalText decimals) : toRawAmount s.text decimals =
    .ok (wholeValue s * 10 ^ decimals + fractionValue s) := by
  have hwhole := bigIntOf_wholeText s
  unfold DecimalText.text
  split
  · rename_i hnil
    rw [toRawAmount_whole (point_notMem_wholeText s) (wholeText_ne_nil s) hwhole,
      fractionValue_eq_zero hnil]
    show _ = Except.ok (wholeValue s * 10 ^ decimals + 0)
    rw [Int.add_zero]
  · have hpoint : unit '.' ∉ s.fraction := fun h =>
      absurd (s.digits _ h) (by unfold IsDigit; decide)
    have hall : (padEnd decimals s.fraction).take decimals = padEnd decimals s.fraction :=
      List.take_of_length_le (by rw [length_padEnd_fraction])
    rw [toRawAmount_point (point_notMem_wholeText s) (wholeText_ne_nil s) hpoint hwhole, hall,
      bigIntOf_digits (isDigit_padEnd s.digits _)]
    rfl

/-- The digits of the fraction's value, up to their number, are the fraction
and zeros. -/
theorem padStart_fractionValue (h : s.fraction ≠ []) :
    padStart decimals (natText (fractionValue s)) = padEnd decimals s.fraction := by
  have hpos := decimals_pos (fractionValue_lt s) (fractionValue_ne_zero h)
  have hlen := (length_natText_le hpos).mpr (fractionValue_lt s)
  refine value_inj (isDigit_padStart (isDigit_natText _) _) (isDigit_padEnd s.digits _) ?_ ?_
  · rw [length_padEnd_fraction, length_padStart]
    omega
  · rw [valueFrom_padStart, valueFrom_natText]
    rfl

/-- A whole number is written as it was. -/
theorem intText_wholeValue (s : DecimalText decimals) (h : s.negative → s.whole ≠ 0) :
    intText (wholeValue s) = s.wholeText := by
  unfold wholeValue DecimalText.wholeText intText
  cases hneg : s.negative with
  | false =>
    rw [if_neg Bool.false_ne_true, if_neg Bool.false_ne_true, if_neg (by omega), Int.natAbs_natCast]
  | true =>
    have hpos := h hneg
    rw [if_pos rfl, if_pos rfl, if_pos (by omega), Int.natAbs_neg, Int.natAbs_natCast]

/-- **A text of a whole number, or without a sign,** is written again. -/
theorem fromRawAmount_text (h : s.negative → s.fraction = []) :
    fromRawAmount (wholeValue s * 10 ^ decimals + fractionValue s) decimals = s.text := by
  have hunit : (0 : ℤ) < 10 ^ decimals := Int.pow_pos (by omega)
  unfold fromRawAmount DecimalText.text
  by_cases hnil : s.fraction = []
  · have hraw : wholeValue s * 10 ^ decimals + (fractionValue s : ℤ) =
        wholeValue s * 10 ^ decimals := by
      rw [fractionValue_eq_zero hnil]
      exact Int.add_zero _
    rw [hraw, if_pos (Int.mul_tmod_left _ _), if_pos hnil, Int.mul_tdiv_cancel _ hunit.ne']
    exact intText_wholeValue s fun hneg => (s.signed hneg).resolve_right (not_not.mpr hnil)
  · have hpositive : s.negative = false := Bool.eq_false_iff.mpr fun hneg => hnil (h hneg)
    have hlt : (fractionValue s : ℤ) < 10 ^ decimals := by exact_mod_cast fractionValue_lt s
    have hwhole : wholeValue s = s.whole := by rw [wholeValue, hpositive]; rfl
    have hmul : (0 : ℤ) ≤ s.whole * 10 ^ decimals := Int.mul_nonneg (by omega) hunit.le
    have hmod : (wholeValue s * 10 ^ decimals + fractionValue s).tmod (10 ^ decimals) =
        fractionValue s := by
      rw [hwhole, Int.tmod_eq_emod_of_nonneg (by omega), Int.add_comm, Int.add_mul_emod_self_right]
      exact Int.emod_eq_of_lt (by omega) hlt
    have hdiv : (wholeValue s * 10 ^ decimals + fractionValue s).tdiv (10 ^ decimals) =
        wholeValue s := by
      rw [hwhole, Int.tdiv_eq_ediv_of_nonneg (by omega), Int.add_comm,
        Int.add_mul_ediv_right _ _ hunit.ne', Int.ediv_eq_zero_of_lt (by omega) hlt, Int.zero_add]
    have hne : (fractionValue s : ℤ) ≠ 0 := by exact_mod_cast fractionValue_ne_zero hnil
    dsimp only
    rw [hmod, hdiv, if_neg hne, if_neg hnil, intText_wholeValue s fun hneg =>
      absurd hneg (by rw [hpositive]; exact Bool.false_ne_true)]
    have htext : intText (fractionValue s : ℤ) = natText (fractionValue s) := by
      rw [intText, if_neg (by omega), Int.natAbs_natCast]
    rw [htext, padStart_fractionValue hnil, stripZeros_padEnd s.last]

/-- What stands before the point. -/
theorem head_fromRawAmount (raw : ℤ) (decimals : ℕ) :
    ((fromRawAmount raw decimals).splitOn (unit '.')).headD [] =
      intText (raw.tdiv (10 ^ decimals)) := by
  have hpoint := point_notMem_intText (raw.tdiv (10 ^ decimals))
  unfold fromRawAmount
  dsimp only
  split
  · rw [List.splitOn_eq_singleton hpoint]
    rfl
  · rw [List.splitOn_append_cons_self_of_not_mem hpoint]
    rfl

theorem head_text (s : DecimalText decimals) :
    (s.text.splitOn (unit '.')).headD [] = s.wholeText := by
  have hpoint := point_notMem_wholeText s
  unfold DecimalText.text
  split
  · rw [List.splitOn_eq_singleton hpoint]
    rfl
  · rw [List.splitOn_append_cons_self_of_not_mem hpoint]
    rfl

/-- Only a negative number is written with a minus. -/
theorem eq_of_intText_eq_minus {q : ℤ} (h : intText q = unit '-' :: natText n) :
    q < 0 ∧ q = -(n : ℤ) := by
  unfold intText at h
  split at h
  · rename_i hneg
    have habs := natText_inj (List.cons.inj h).2
    exact ⟨hneg, by omega⟩
  · have hmem := isDigit_natText q.natAbs (unit '-') (h ▸ List.mem_cons_self)
    exact absurd hmem (by unfold IsDigit; decide)

/-- **A negative text with a fraction** is written with another whole part. -/
theorem fromRawAmount_ne_text (hneg : s.negative) (h : s.fraction ≠ []) :
    fromRawAmount (wholeValue s * 10 ^ decimals + fractionValue s) decimals ≠ s.text := by
  intro heq
  set raw := wholeValue s * 10 ^ decimals + fractionValue s with hraw
  have hhead := head_fromRawAmount raw decimals
  rw [heq, head_text, DecimalText.wholeText, if_pos hneg] at hhead
  obtain ⟨hlt, hq⟩ := eq_of_intText_eq_minus hhead.symm
  -- the amount is negative, but what is left of it is the fraction, which is not
  have hwhole : wholeValue s = raw.tdiv (10 ^ decimals) := by rw [hq, wholeValue, if_pos hneg]
  have hrest := Int.mul_tdiv_add_tmod raw (10 ^ decimals)
  rw [← hwhole, Int.mul_comm] at hrest
  have hfraction : raw.tmod (10 ^ decimals) = fractionValue s := by omega
  have hne := fractionValue_ne_zero h
  have hpos : 0 ≤ raw ∨ raw ≤ 0 := Int.le_total 0 raw
  rcases hpos with hpos | hpos
  · have hunit : (0 : ℤ) ≤ 10 ^ decimals := Int.pow_nonneg (by omega)
    have hdiv := Int.tdiv_nonneg hpos hunit
    omega
  · have hmod := Int.tmod_nonneg (10 ^ decimals) (Int.neg_nonneg.mpr hpos)
    rw [Int.neg_tmod] at hmod
    omega

/-- **Exactly these decimal texts survive.** -/
theorem textSurvives_iff (s : DecimalText decimals) :
    TextSurvives s ↔ (s.negative → s.fraction = []) := by
  constructor
  · rintro ⟨raw, hread, hwrite⟩ hneg
    by_contra hne
    rw [toRawAmount_text] at hread
    obtain rfl := Except.ok.inj hread
    exact fromRawAmount_ne_text hneg hne hwrite
  · exact fun h => ⟨_, toRawAmount_text s, fromRawAmount_text h⟩

/-- **What survives**: of the raw amounts those that are `Kept`, of the
decimal texts those that are whole or without a sign. -/
theorem survives_iff_kept (decimals : ℕ) :
    (∀ raw, Survives raw decimals ↔ Kept raw decimals) ∧
      ∀ s : DecimalText decimals, TextSurvives s ↔ (s.negative → s.fraction = []) :=
  ⟨fun raw => survives_iff raw decimals, textSurvives_iff⟩

/-- **Minus 0.0005** is written `0.00-5`, which is no number. -/
theorem not_survives_minus_five : fromRawAmount (-5) 4 = units "0.00-5" ∧
    toRawAmount (units "0.00-5") 4 = .error "SyntaxError" ∧ ¬Survives (-5) 4 := by
  refine ⟨by decide +kernel, by decide +kernel, fun h => ?_⟩
  exact absurd h (by unfold Survives; decide +kernel)

end RawAmount

end HoodSentry
