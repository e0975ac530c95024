import HoodSentry.Common.JsonText
import Mathlib.Data.List.DropRight
import Mathlib.Tactic.Ring
/-!
# Decimal digits

The value of a text of digits, and what padding a text with zeros and taking
the last ones away do to it. Texts of one length are told apart by their
values (`value_inj`), and a text that lost its last zeros is filled up to what
it was (`take_padEnd_stripZeros`).
-/

namespace HoodSentry

variable {c : CodeUnit} {s t text : Units} {n width : ℕ}

def IsDigit (c : CodeUnit) : Prop := 48 ≤ c.val ∧ c.val ≤ 57

/-! ## Values -/

/-- The value of digits, behind what was read of them. -/
def valueFrom (n : ℕ) (text : Units) : ℕ := text.foldl (fun n c => 10 * n + (c.val - 48)) n

theorem valueFrom_append (n : ℕ) (s t : Units) :
    valueFrom n (s ++ t) = valueFrom (valueFrom n s) t := List.foldl_append

theorem valueFrom_eq (n : ℕ) (text : Units) :
    valueFrom n text = n * 10 ^ text.length + valueFrom 0 text := by
  induction text generalizing n with
  | nil => simp [valueFrom]
  | cons c text ih =>
    show valueFrom (10 * n + (c.val - 48)) text = _ + valueFrom (10 * 0 + (c.val - 48)) text
    rw [ih, ih (10 * 0 + _), List.length_cons]
    ring

theorem valueFrom_lt (h : ∀ c ∈ text, IsDigit c) : valueFrom 0 text < 10 ^ text.length := by
  induction text with
  | nil => simp [valueFrom]
  | cons c text ih =>
    obtain ⟨hc, hrest⟩ := List.forall_mem_cons.mp h
    have hlt := ih hrest
    have hdigit : c.val - 48 ≤ 9 := by
      have hle := hc.2
      omega
    show valueFrom (10 * 0 + (c.val - 48)) text < _
    rw [valueFrom_eq, List.length_cons, pow_succ]
    have hmul := Nat.mul_le_mul_right (10 ^ text.length) hdigit
    rw [Nat.mul_zero, Nat.zero_add]
    omega

/-- **Digits of one number** are the same, if they are as many. -/
theorem value_inj (hs : ∀ c ∈ s, IsDigit c) (ht : ∀ c ∈ t, IsDigit c) (hlen : s.length = t.length)
    (h : valueFrom 0 s = valueFrom 0 t) : s = t := by
  induction s generalizing t with
  | nil => exact (List.length_eq_zero_iff.mp hlen.symm).symm
  | cons c s ih =>
    cases t with
    | nil => cases hlen
    | cons d t =>
      obtain ⟨hc, hs⟩ := List.forall_mem_cons.mp hs
      obtain ⟨hd, ht⟩ := List.forall_mem_cons.mp ht
      have hlen : s.length = t.length := Nat.succ.inj hlen
      have hslt := valueFrom_lt hs
      have htlt := valueFrom_lt ht
      change valueFrom (10 * 0 + (c.val - 48)) s = valueFrom (10 * 0 + (d.val - 48)) t at h
      rw [valueFrom_eq, valueFrom_eq (10 * 0 + (d.val - 48)), hlen] at h
      rw [hlen] at hslt
      -- the first digit is the quotient, the other ones are the remainder
      have hfirst : 10 * 0 + (c.val - 48) = 10 * 0 + (d.val - 48) := by
        have hdiv := congrArg (· / 10 ^ t.length) h
        have hpos : 0 < 10 ^ t.length := Nat.pow_pos (by omega)
        simpa only [Nat.add_comm _ (valueFrom 0 s), Nat.add_comm _ (valueFrom 0 t),
          Nat.add_mul_div_right _ _ hpos, Nat.div_eq_of_lt hslt, Nat.div_eq_of_lt htlt,
          Nat.zero_add] using hdiv
      rw [hfirst] at h
      obtain ⟨hc1, -⟩ := hc
      obtain ⟨hd1, -⟩ := hd
      have hval : c = d := Fin.ext (by omega)
      rw [hval, ih hs ht hlen (Nat.add_left_cancel h)]

theorem valueFrom_replicate_zero (n width : ℕ) :
    valueFrom n (List.replicate width (unit '0')) = n * 10 ^ width := by
  induction width generalizing n with
  | zero => simp [valueFrom]
  | succ width ih =>
    show valueFrom (10 * n + 0) (List.replicate width (unit '0')) = _
    rw [ih]
    ring

theorem valueFrom_natText (n : ℕ) : valueFrom 0 (natText n) = n := by
  rw [valueFrom, natText, List.foldl_map]
  conv_rhs => rw [← @Nat.ofDigitChars_ten_toDigits n, Nat.ofDigitChars_eq_foldl]
  refine List.foldl_ext _ _ _ fun m c hc => ?_
  have hdigit := isDigit_of_mem_toDigits hc
  rw [val_unit (by omega)]
  rfl

theorem isDigit_natText (n : ℕ) : ∀ c ∈ natText n, IsDigit c := fun _ hc => digit_of_mem_natText hc

theorem length_natText_le (h : 0 < width) : (natText n).length ≤ width ↔ n < 10 ^ width := by
  rw [natText, List.length_map]
  exact Nat.length_toDigits_le_iff (by omega) h

/-! ## `BigInt` of digits -/

theorem readDigits_of_digits (h : ∀ c ∈ text, IsDigit c) (n : ℕ) :
    readDigits 10 n text = some (valueFrom n text) := by
  induction text generalizing n with
  | nil => rfl
  | cons c text ih =>
    obtain ⟨hc, hrest⟩ := List.forall_mem_cons.mp h
    have hle := hc.2
    have hdigit : digitOf c = some (c.val - 48) := if_pos hc
    rw [readDigits, hdigit]
    show (if c.val - 48 < 10 then readDigits 10 (10 * n + (c.val - 48)) text else none) = _
    rw [if_pos (by omega), ih hrest]
    rfl

/-- What is read of digits and of what is no digit. -/
theorem readDigits_of_mem (hc : c ∈ text) (h : digitOf c = none) (n : ℕ) :
    readDigits 10 n text = none := by
  induction text generalizing n with
  | nil => cases hc
  | cons d text ih =>
    rw [readDigits]
    rcases List.mem_cons.mp hc with rfl | hc
    · rw [h]
    · cases digitOf d with
      | none => rfl
      | some digit =>
        show (if digit < 10 then readDigits 10 (10 * n + digit) text else none) = none
        rw [ih hc, ite_self]

theorem not_sign_of_digit (h : IsDigit c) : c ≠ unit '-' ∧ c ≠ unit '+' := by
  constructor <;> rintro rfl <;> exact absurd h (by unfold IsDigit; decide)

/-- **`BigInt` of digits**, also of none. -/
theorem bigIntOf_digits (h : ∀ c ∈ text, IsDigit c) :
    bigIntOf text = some (valueFrom 0 text : ℤ) := by
  rw [bigIntOf_of_units fun c hc => not_blank_of_digit (h c hc)]
  cases text with
  | nil => rfl
  | cons c rest =>
    obtain ⟨hdash, hplus⟩ := not_sign_of_digit (h c List.mem_cons_self)
    rw [readLiteral_of_digits (fun d hd => baseOf_of_digit (h d (List.mem_of_mem_tail hd)))
      (List.cons_ne_nil _ _), readSigned, if_neg hdash, if_neg hplus, readNatural,
      if_neg (List.cons_ne_nil _ _), readDigits_of_digits h]
    rfl

/-- **`BigInt` of digits behind a minus**: there must be one. -/
theorem bigIntOf_minus (h : ∀ c ∈ text, IsDigit c) : bigIntOf (unit '-' :: text) =
    if text = [] then none else some (-(valueFrom 0 text : ℤ)) := by
  have hblank : ∀ c ∈ unit '-' :: text, isBlankUnit c = false := by
    intro c hc
    rcases List.mem_cons.mp hc with rfl | hc
    · decide
    · exact not_blank_of_digit (h c hc)
  rw [bigIntOf_of_units hblank, @readLiteral_of_digits (unit '-' :: text)
    (fun d hd => baseOf_of_digit (h d hd)) (List.cons_ne_nil _ _), readSigned, if_pos rfl,
    readNatural]
  split
  · rfl
  · rw [readDigits_of_digits h]
    rfl

/-- **`BigInt` of a minus between digits** throws. -/
theorem bigIntOf_minus_inside (hs : ∀ c ∈ s, IsDigit c) (hne : s ≠ []) (ht : ∀ c ∈ t, IsDigit c) :
    bigIntOf (s ++ unit '-' :: t) = none := by
  have hmem : ∀ c ∈ s ++ unit '-' :: t, c = unit '-' ∨ IsDigit c := by
    intro c hc
    rcases List.mem_append.mp hc with hc | hc
    · exact Or.inr (hs c hc)
    · rcases List.mem_cons.mp hc with rfl | hc
      · exact Or.inl rfl
      · exact Or.inr (ht c hc)
  have hblank : ∀ c ∈ s ++ unit '-' :: t, isBlankUnit c = false := by
    intro c hc
    rcases hmem c hc with rfl | hc
    · decide
    · exact not_blank_of_digit hc
  have hbase : ∀ d ∈ (s ++ unit '-' :: t).tail, baseOf d = none := by
    intro d hd
    rcases hmem d (List.mem_of_mem_tail hd) with rfl | hd
    · decide
    · exact baseOf_of_digit hd
  obtain ⟨c, rest, rfl⟩ := List.exists_cons_of_ne_nil hne
  obtain ⟨hdash, hplus⟩ := not_sign_of_digit (hs c List.mem_cons_self)
  rw [bigIntOf_of_units hblank, readLiteral_of_digits hbase (by simp), List.cons_append,
    readSigned, if_neg hdash, if_neg hplus, readNatural, if_neg (List.cons_ne_nil _ _),
    readDigits_of_mem (c := unit '-') (by simp) (by decide)]
  rfl

/-! ## Padding -/

/-- `text.padStart(width, '0')`. -/
def padStart (width : ℕ) (text : Units) : Units :=
  List.replicate (width - text.length) (unit '0') ++ text

/-- `text.padEnd(width, '0')`. -/
def padEnd (width : ℕ) (text : Units) : Units :=
  text ++ List.replicate (width - text.length) (unit '0')

/-- `text.replace(/0+$/, '')`. -/
def stripZeros (text : Units) : Units := text.rdropWhile (· == unit '0')

theorem isDigit_replicate (width : ℕ) : ∀ c ∈ List.replicate width (unit '0'), IsDigit c := by
  intro c hc
  obtain rfl := List.eq_of_mem_replicate hc
  unfold IsDigit
  decide

theorem length_padEnd (width : ℕ) (text : Units) :
    (padEnd width text).length = max text.length width := by
  rw [padEnd, List.length_append, List.length_replicate]
  omega

theorem length_padStart (width : ℕ) (text : Units) :
    (padStart width text).length = max text.length width := by
  rw [padStart, List.length_append, List.length_replicate]
  omega

theorem isDigit_padStart (h : ∀ c ∈ text, IsDigit c) (width : ℕ) :
    ∀ c ∈ padStart width text, IsDigit c :=
  List.forall_mem_append.mpr ⟨isDigit_replicate _, h⟩

theorem isDigit_padEnd (h : ∀ c ∈ text, IsDigit c) (width : ℕ) :
    ∀ c ∈ padEnd width text, IsDigit c :=
  List.forall_mem_append.mpr ⟨h, isDigit_replicate _⟩

theorem valueFrom_padStart (width : ℕ) (text : Units) :
    valueFrom 0 (padStart width text) = valueFrom 0 text := by
  rw [padStart, valueFrom_append, valueFrom_replicate_zero, Nat.zero_mul]

/-- A text is what is left of it and zeros. -/
theorem exists_stripZeros (text : Units) :
    ∃ k, text = stripZeros text ++ List.replicate k (unit '0') := by
  refine ⟨(text.rtakeWhile (· == unit '0')).length, ?_⟩
  have hzeros : text.rtakeWhile (· == unit '0') =
      List.replicate (text.rtakeWhile (· == unit '0')).length (unit '0') :=
    List.eq_replicate_iff.mpr ⟨rfl, fun c hc => by simpa using List.mem_rtakeWhile_imp hc⟩
  rw [← hzeros]
  exact List.rdropWhile_append_rtakeWhile.symm

/-- **A text that lost its last zeros** is filled up to as much of what it
was. -/
theorem take_padEnd_stripZeros (h : width ≤ text.length) :
    (padEnd width (stripZeros text)).take width = text.take width := by
  obtain ⟨k, hk⟩ := exists_stripZeros text
  set kept := stripZeros text
  have hlen : text.length = kept.length + k := by
    rw [hk, List.length_append, List.length_replicate]
  rw [hk, padEnd]
  rcases Nat.le_total width kept.length with hle | hle
  · rw [List.take_append_of_le_length hle, List.take_append_of_le_length hle]
  · rw [List.take_append, List.take_append, List.take_replicate, List.take_replicate,
      Nat.min_self, Nat.min_eq_left (by omega)]

/-- A text that does not end with a zero is left when zeros are put behind
it. -/
theorem stripZeros_padEnd (h : text.getLast? ≠ some (unit '0')) (width : ℕ) :
    stripZeros (padEnd width text) = text := by
  have hself : stripZeros text = text := by
    refine List.rdropWhile_eq_self_iff.mpr fun hne hzero => h ?_
    rw [List.getLast?_eq_some_getLast hne, beq_iff_eq.mp hzero]
  have hzeros : ∀ k, stripZeros (text ++ List.replicate k (unit '0')) = text := by
    intro k
    induction k with
    | zero => rwa [List.replicate_zero, List.append_nil]
    | succ k ih =>
      rw [List.replicate_succ', ← List.append_assoc, stripZeros,
        List.rdropWhile_concat_pos _ _ _ (by simp)]
      exact ih
  exact hzeros _

end HoodSentry
