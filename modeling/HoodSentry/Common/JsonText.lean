import Mathlib.Data.Fin.Basic
import Mathlib.Data.List.Nodup
import Mathlib.Data.Nat.Digits.Defs
import Mathlib.Data.String.Basic
/-!
# JSON texts are read one way

What `JSON.stringify` makes of strings and finite numbers, as sequences of
UTF-16 code units, and the text of a tree of them. A string's text is read up
to its closing mark (`quoteUnits_inj`), a number's up to the first unit that is
no unit of numbers (`numberText_inj`), so a tree's text is a prefix code up to
what stops it (`render_append_inj`): no two trees have the same text.
-/

namespace HoodSentry

/-- A UTF-16 code unit. -/
abbrev CodeUnit := Fin 0x10000

instance instNeZeroCodeUnit : NeZero 0x10000 := ⟨by decide⟩

instance instNeZeroDigit : NeZero 10 := ⟨by decide⟩

/-- A JavaScript string: surrogates need not be paired. -/
abbrev Units := List CodeUnit

/-- The unit of a character of the basic plane. -/
def unit (c : Char) : CodeUnit := Fin.ofNat 0x10000 c.toNat

def units (text : String) : Units := text.toList.map unit

/-! ## Strings -/

section Quoting

variable {c d : CodeUnit} {s t u v : Units}

def isHigh (c : CodeUnit) : Bool := 0xD800 ≤ c.val && c.val ≤ 0xDBFF

def isLow (c : CodeUnit) : Bool := 0xDC00 ≤ c.val && c.val ≤ 0xDFFF

/-- A hexadecimal digit, in lower case. -/
def hexUnit (digit : ℕ) : CodeUnit :=
  if digit < 10 then Fin.ofNat 0x10000 (48 + digit) else Fin.ofNat 0x10000 (87 + digit)

/-- The units with a letter that stands for them behind a backslash. -/
def shortEscapes : List (CodeUnit × CodeUnit) :=
  [(unit '"', unit '"'), (unit '\\', unit '\\'), (8, unit 'b'), (9, unit 't'), (10, unit 'n'),
    (12, unit 'f'), (13, unit 'r')]

def shortEscape (c : CodeUnit) : Option CodeUnit :=
  (shortEscapes.find? fun entry => entry.1 = c).map Prod.snd

/-- A unit that stands alone: control units and surrogates by their number. -/
def quoteUnit (c : CodeUnit) : Units :=
  match shortEscape c with
  | some letter => [unit '\\', letter]
  | none =>
    if c.val < 32 || isHigh c || isLow c then
      [unit '\\', unit 'u', hexUnit (c.val / 4096), hexUnit (c.val / 256 % 16),
        hexUnit (c.val / 16 % 16), hexUnit (c.val % 16)]
    else [c]

/-- The units of a quoted string: two surrogates that are a pair stay. -/
def quoteUnits : Units → Units
  | [] => []
  | [c] => quoteUnit c
  | c :: d :: rest =>
    if isHigh c && isLow d then c :: d :: quoteUnits rest
    else quoteUnit c ++ quoteUnits (d :: rest)

/-- `JSON.stringify` of a string. -/
def quoted (s : Units) : Units := unit '"' :: (quoteUnits s ++ [unit '"'])

theorem hexUnit_inj {a b : ℕ} (ha : a < 16) (hb : b < 16) (h : hexUnit a = hexUnit b) : a = b := by
  have hval := congrArg Fin.val h
  unfold hexUnit at hval
  split at hval <;> split at hval <;> simp only [Fin.val_ofNat] at hval <;> omega

theorem mem_of_shortEscape {letter : CodeUnit} (h : shortEscape c = some letter) :
    (c, letter) ∈ shortEscapes := by
  obtain ⟨entry, hentry, rfl⟩ := Option.map_eq_some_iff.mp h
  have hfst : entry.1 = c := by simpa using List.find?_some hentry
  rw [← hfst]
  exact List.mem_of_find?_eq_some hentry

theorem shortEscape_inj {letter : CodeUnit} (hc : shortEscape c = some letter)
    (hd : shortEscape d = some letter) : c = d := by
  have htable : (shortEscapes.map Prod.snd).Nodup := by
    simp [shortEscapes, unit]
  exact congrArg Prod.fst (List.inj_on_of_nodup_map htable (mem_of_shortEscape hc)
    (mem_of_shortEscape hd) rfl)

theorem shortEscape_ne_u {letter : CodeUnit} (h : shortEscape c = some letter) :
    letter ≠ unit 'u' := by
  have htable : unit 'u' ∉ shortEscapes.map Prod.snd := by
    simp [shortEscapes, unit]
  rintro rfl
  exact htable (List.mem_map_of_mem (mem_of_shortEscape h))

/-- The ways a unit is quoted alone. -/
theorem quoteUnit_cases (c : CodeUnit) :
    (∃ letter, shortEscape c = some letter ∧ quoteUnit c = [unit '\\', letter]) ∨
      (quoteUnit c = [unit '\\', unit 'u', hexUnit (c.val / 4096), hexUnit (c.val / 256 % 16),
        hexUnit (c.val / 16 % 16), hexUnit (c.val % 16)]) ∨
      (quoteUnit c = [c] ∧ c ≠ unit '\\' ∧ c ≠ unit '"' ∧ isHigh c = false) := by
  cases hshort : shortEscape c with
  | some letter =>
    refine Or.inl ⟨letter, rfl, ?_⟩
    rw [quoteUnit, hshort]
  | none =>
    by_cases hcontrol : c.val < 32 || isHigh c || isLow c
    · refine Or.inr (Or.inl ?_)
      rw [quoteUnit, hshort]
      exact if_pos hcontrol
    · refine Or.inr (Or.inr ⟨?_, ?_, ?_, ?_⟩)
      · rw [quoteUnit, hshort]
        exact if_neg hcontrol
      · rintro rfl
        cases hshort
      · rintro rfl
        cases hshort
      · rw [Bool.or_eq_true, Bool.or_eq_true, not_or, not_or] at hcontrol
        exact Bool.eq_false_iff.mpr hcontrol.1.2

/-- **A unit's quotation** is read one way. -/
theorem quoteUnit_append_inj (h : quoteUnit c ++ s = quoteUnit d ++ t) : c = d ∧ s = t := by
  rcases quoteUnit_cases c with ⟨a, ha, hc⟩ | hc | ⟨hc, hback, -, -⟩ <;>
    rcases quoteUnit_cases d with ⟨b, hb, hd⟩ | hd | ⟨hd, hback', -, -⟩ <;>
    rw [hc, hd] at h <;>
    simp only [List.cons_append, List.nil_append, List.cons.injEq, true_and] at h
  · obtain ⟨rfl, hrest⟩ := h
    exact ⟨shortEscape_inj ha hb, hrest⟩
  · exact absurd h.1 (shortEscape_ne_u ha)
  · exact absurd h.1.symm hback'
  · exact absurd h.1.symm (shortEscape_ne_u hb)
  · obtain ⟨h1, h2, h3, h4, hrest⟩ := h
    have hcv := c.isLt
    have hdv := d.isLt
    have e1 := hexUnit_inj (by omega) (by omega) h1
    have e2 := hexUnit_inj (by omega) (by omega) h2
    have e3 := hexUnit_inj (by omega) (by omega) h3
    have e4 := hexUnit_inj (by omega) (by omega) h4
    exact ⟨Fin.ext (by omega), hrest⟩
  · exact absurd h.1.symm hback'
  · exact absurd h.1 hback
  · exact absurd h.1 hback
  · exact h

theorem quoteUnits_cases (s : Units) : s = [] ∨
    (∃ c d rest, isHigh c ∧ isLow d ∧ s = c :: d :: rest ∧
      quoteUnits s = c :: d :: quoteUnits rest) ∨
    (∃ c rest, s = c :: rest ∧ quoteUnits s = quoteUnit c ++ quoteUnits rest) := by
  rcases s with _ | ⟨c, _ | ⟨d, rest⟩⟩
  · exact Or.inl rfl
  · refine Or.inr (Or.inr ⟨c, [], rfl, ?_⟩)
    rw [quoteUnits, quoteUnits, List.append_nil]
  · by_cases hpair : isHigh c && isLow d
    · refine Or.inr (Or.inl ⟨c, d, rest, ?_, ?_, rfl, ?_⟩)
      · exact (Bool.and_eq_true _ _ ▸ hpair).1
      · exact (Bool.and_eq_true _ _ ▸ hpair).2
      · rw [quoteUnits, if_pos hpair]
    · refine Or.inr (Or.inr ⟨c, d :: rest, rfl, ?_⟩)
      rw [quoteUnits, if_neg hpair]

/-- No unit is quoted as the closing mark. -/
theorem quoteUnit_append_ne (h : quoteUnit c ++ s = unit '"' :: t) : False := by
  rcases quoteUnit_cases c with ⟨a, ha, hc⟩ | hc | ⟨hc, -, hmark, -⟩ <;> rw [hc] at h
  · exact absurd (List.cons.inj h).1 (by decide)
  · exact absurd (List.cons.inj h).1 (by decide)
  · exact hmark (List.cons.inj h).1

/-- No unit that stands alone is quoted as one of a pair. -/
theorem quoteUnit_append_ne_high (hd : isHigh d) (h : quoteUnit c ++ s = d :: t) : False := by
  have hback : d ≠ unit '\\' := by
    rintro rfl
    exact absurd hd (by decide)
  rcases quoteUnit_cases c with ⟨a, ha, hc⟩ | hc | ⟨hc, -, -, hhigh⟩ <;> rw [hc] at h
  · exact hback (List.cons.inj h).1.symm
  · exact hback (List.cons.inj h).1.symm
  · rw [(List.cons.inj h).1, hd] at hhigh
    cases hhigh

/-- **A quoted string** is read up to its closing mark. -/
theorem quoteUnits_inj (h : quoteUnits s ++ unit '"' :: u = quoteUnits t ++ unit '"' :: v) :
    s = t ∧ u = v := by
  have hmark : isHigh (unit '"') = false := by decide
  induction hlength : s.length using Nat.strong_induction_on generalizing s t with
  | _ n ih =>
    rcases quoteUnits_cases s with rfl | ⟨c, d, rest, hc, hd, rfl, hs⟩ | ⟨c, rest, rfl, hs⟩ <;>
      rcases quoteUnits_cases t with rfl | ⟨c', d', rest', hc', hd', rfl, ht⟩ |
        ⟨c', rest', rfl, ht⟩
    · exact ⟨rfl, (List.cons.inj h).2⟩
    · rw [ht] at h
      rw [← (List.cons.inj h).1, hmark] at hc'
      cases hc'
    · rw [ht, List.append_assoc] at h
      exact (quoteUnit_append_ne h.symm).elim
    · rw [hs] at h
      rw [(List.cons.inj h).1, hmark] at hc
      cases hc
    · rw [hs, ht] at h
      simp only [List.cons_append, List.cons.injEq] at h
      obtain ⟨rfl, rfl, h⟩ := h
      obtain ⟨rfl, hrest⟩ := ih rest.length (by simp at hlength; omega) h rfl
      exact ⟨rfl, hrest⟩
    · rw [hs, ht, List.append_assoc] at h
      exact (quoteUnit_append_ne_high hc h.symm).elim
    · rw [hs, List.append_assoc] at h
      exact (quoteUnit_append_ne h).elim
    · rw [hs, ht, List.append_assoc] at h
      exact (quoteUnit_append_ne_high hc' h).elim
    · rw [hs, ht, List.append_assoc, List.append_assoc] at h
      obtain ⟨rfl, hnext⟩ := quoteUnit_append_inj h
      obtain ⟨rfl, hrest⟩ := ih rest.length (by simp at hlength; omega) hnext rfl
      exact ⟨rfl, hrest⟩

end Quoting

/-! ## Integers -/

section Integers

variable {m n : ℕ}

/-- The digits of a natural number. -/
def natText (n : ℕ) : Units := (Nat.toDigits 10 n).map unit

/-- The text of a bigint. -/
def intText (n : ℤ) : Units :=
  if n < 0 then unit '-' :: natText n.natAbs else natText n.natAbs

theorem isDigit_of_mem_toDigits {c : Char} (h : c ∈ Nat.toDigits 10 n) :
    48 ≤ c.toNat ∧ c.toNat ≤ 57 := by
  have hdigit := Nat.isDigit_of_mem_toDigits (by omega) (by omega) h
  rw [Char.isDigit, Bool.and_eq_true, decide_eq_true_iff, decide_eq_true_iff] at hdigit
  exact ⟨UInt32.le_iff_toNat_le.mp hdigit.1, UInt32.le_iff_toNat_le.mp hdigit.2⟩

theorem val_unit {c : Char} (h : c.toNat < 0x10000) : (unit c).val = c.toNat :=
  Nat.mod_eq_of_lt h

theorem natText_inj (h : natText m = natText n) : m = n := by
  have hback : ∀ k : ℕ, (natText k).map (fun c => Char.ofNat c.val) = Nat.toDigits 10 k := by
    intro k
    rw [natText, List.map_map]
    conv_rhs => rw [← List.map_id (Nat.toDigits 10 k)]
    refine List.map_congr_left fun c hc => ?_
    have hdigit := isDigit_of_mem_toDigits hc
    rw [Function.comp_apply, val_unit (by omega), Char.ofNat_toNat]
    rfl
  rw [← @Nat.ofDigitChars_ten_toDigits m, ← hback m, h, hback n, Nat.ofDigitChars_ten_toDigits]

theorem digit_of_mem_natText {c : CodeUnit} (h : c ∈ natText n) : 48 ≤ c.val ∧ c.val ≤ 57 := by
  obtain ⟨d, hd, rfl⟩ := List.mem_map.mp h
  have hdigit := isDigit_of_mem_toDigits hd
  rw [val_unit (by omega)]
  exact hdigit

theorem natText_ne_nil : natText n ≠ [] := by
  intro h
  exact Nat.toDigits_ne_nil (List.map_eq_nil_iff.mp h)

end Integers

/-! ## Finite numbers -/

section Numbers

/-- A finite number that is not zero, as the shortest decimal that is read back as it:
its digits are those of a whole number `s`, and it is `s * 10 ^ (exponent - digits.length)`. -/
structure Decimal where
  negative : Bool
  digits : List (Fin 10)
  exponent : ℤ
  ne_nil : digits ≠ []
  first : digits.head? ≠ some 0
  last : digits.getLast? ≠ some 0
deriving DecidableEq

/-- A finite number: the zeros of both signs are one. -/
inductive FiniteNumber
  | zero
  | decimal (value : Decimal)
deriving DecidableEq

def digitUnit (d : Fin 10) : CodeUnit := Fin.ofNat 0x10000 (48 + d.val)

def zeros (count : ℕ) : List (Fin 10) := List.replicate count 0

/-- Where the exponent is written, it is not zero. -/
def exponentText (power : ℤ) : Units :=
  unit 'e' :: (if power < 0 then unit '-' else unit '+') :: natText power.natAbs

/-- The text of the number without its sign. -/
def Decimal.magnitude (x : Decimal) : Units :=
  if x.digits.length ≤ x.exponent ∧ x.exponent ≤ 21 then
    (x.digits ++ zeros (x.exponent - x.digits.length).toNat).map digitUnit
  else if 0 < x.exponent ∧ x.exponent ≤ 21 then
    (x.digits.take x.exponent.toNat).map digitUnit ++
      unit '.' :: (x.digits.drop x.exponent.toNat).map digitUnit
  else if -6 < x.exponent ∧ x.exponent ≤ 0 then
    unit '0' :: unit '.' :: (zeros (-x.exponent).toNat ++ x.digits).map digitUnit
  else
    (x.digits.take 1).map digitUnit ++
      (if x.digits.length = 1 then [] else unit '.' :: (x.digits.drop 1).map digitUnit) ++
      exponentText (x.exponent - 1)

/-- `JSON.stringify` of a finite number. -/
def numberText : FiniteNumber → Units
  | .zero => [unit '0']
  | .decimal x => (if x.negative then [unit '-'] else []) ++ x.magnitude

example : numberText (.decimal ⟨true, [1, 2, 5], 1, by decide, by decide, by decide⟩) =
    units "-1.25" := by decide

example : numberText (.decimal ⟨false, [1, 5], 22, by decide, by decide, by decide⟩) =
    units "1.5e+21" := by decide

theorem digitUnit_val (d : Fin 10) : (digitUnit d).val = 48 + d.val := by
  have hd := d.isLt
  exact Nat.mod_eq_of_lt (by omega)

theorem digitUnit_injective : Function.Injective digitUnit := by
  intro d e h
  have hval := congrArg Fin.val h
  rw [digitUnit_val, digitUnit_val] at hval
  exact Fin.ext (by omega)

theorem digitUnit_ne (d : Fin 10) :
    digitUnit d ≠ unit '.' ∧ digitUnit d ≠ unit 'e' ∧ digitUnit d ≠ unit '-' := by
  revert d
  decide

/-- Digits, a point and digits behind it: the point is not written where none are. -/
def mantissa (whole fraction : List (Fin 10)) : Units :=
  whole.map digitUnit ++ if fraction = [] then [] else unit '.' :: fraction.map digitUnit

def powerText (power : ℤ) : Units := if power = 0 then [] else exponentText power

/-- **The layout of a number's text**: where its digits stand among zeros. -/
structure Layout (x : Decimal) where
  whole : List (Fin 10)
  fraction : List (Fin 10)
  power : ℤ
  leading : ℕ
  trailing : ℕ
  text : x.magnitude = mantissa whole fraction ++ powerText power
  digits : whole ++ fraction = zeros leading ++ (x.digits ++ zeros trailing)
  exponent : x.exponent = whole.length - leading + power
  whole_ne_nil : whole ≠ []

theorem exists_layout (x : Decimal) : Nonempty (Layout x) := by
  have hpos : 0 < x.digits.length := List.length_pos_iff.mpr x.ne_nil
  by_cases hwhole : x.digits.length ≤ x.exponent ∧ x.exponent ≤ 21
  · refine ⟨⟨x.digits ++ zeros (x.exponent - x.digits.length).toNat, [], 0, 0,
      (x.exponent - x.digits.length).toNat, ?_, ?_, ?_, ?_⟩⟩
    · rw [Decimal.magnitude, if_pos hwhole]
      simp [mantissa, powerText]
    · simp [zeros]
    · simp [zeros]
      omega
    · rw [Ne, List.append_eq_nil_iff, not_and]
      exact fun h => absurd h x.ne_nil
  by_cases hpoint : 0 < x.exponent ∧ x.exponent ≤ 21
  · have hdrop : x.digits.drop x.exponent.toNat ≠ [] := by
      rw [Ne, List.drop_eq_nil_iff]
      omega
    refine ⟨⟨x.digits.take x.exponent.toNat, x.digits.drop x.exponent.toNat, 0, 0, 0,
      ?_, ?_, ?_, ?_⟩⟩
    · rw [Decimal.magnitude, if_neg hwhole, if_pos hpoint, mantissa, if_neg hdrop]
      simp [powerText]
    · simp [zeros]
    · rw [List.length_take]
      omega
    · rw [← List.length_pos_iff, List.length_take]
      omega
  by_cases hsmall : -6 < x.exponent ∧ x.exponent ≤ 0
  · have hne : zeros (-x.exponent).toNat ++ x.digits ≠ [] := by
      rw [Ne, List.append_eq_nil_iff, not_and]
      exact fun _ => x.ne_nil
    refine ⟨⟨[0], zeros (-x.exponent).toNat ++ x.digits, 0, (-x.exponent).toNat + 1, 0,
      ?_, ?_, ?_, ?_⟩⟩
    · rw [Decimal.magnitude, if_neg hwhole, if_neg hpoint, if_pos hsmall, mantissa, if_neg hne]
      simp [powerText, digitUnit, unit]
    · simp [zeros, List.replicate_succ]
    · simp only [List.length_singleton]
      omega
    · exact List.cons_ne_nil _ _
  · refine ⟨⟨x.digits.take 1, x.digits.drop 1, x.exponent - 1, 0, 0, ?_, ?_, ?_, ?_⟩⟩
    · have hpower : x.exponent - 1 ≠ 0 := by omega
      have hdrop : x.digits.drop 1 = [] ↔ x.digits.length = 1 := by
        rw [List.drop_eq_nil_iff]
        omega
      rw [Decimal.magnitude, if_neg hwhole, if_neg hpoint, if_neg hsmall, mantissa, powerText,
        if_neg hpower]
      simp only [hdrop]
    · rw [List.take_append_drop]
      simp [zeros]
    · rw [List.length_take]
      omega
    · rw [← List.length_pos_iff, List.length_take]
      omega

/-- A text of units of one kind is read up to the first unit of another. -/
theorem append_inj_of_stops {α : Type*} {p : α → Bool} {a b s t : List α} (ha : ∀ c ∈ a, p c)
    (hb : ∀ c ∈ b, p c) (hs : s.head?.any p = false) (ht : t.head?.any p = false)
    (h : a ++ s = b ++ t) : a = b ∧ s = t := by
  have hstop : ∀ l : List α, l.head?.any p = false → l.takeWhile p = [] := by
    intro l hl
    cases l with
    | nil => rfl
    | cons c l =>
      have hc : p c = false := hl
      simp [hc]
  have htake := congrArg (List.takeWhile p) h
  rw [List.takeWhile_append_of_pos ha, List.takeWhile_append_of_pos hb, hstop s hs, hstop t ht,
    List.append_nil, List.append_nil] at htake
  subst htake
  exact ⟨rfl, List.append_cancel_left h⟩

/-- What zeros stand around is read one way. -/
theorem zeros_append_inj {x y : Decimal} {a b c d : ℕ}
    (h : zeros a ++ (x.digits ++ zeros b) = zeros c ++ (y.digits ++ zeros d)) :
    a = c ∧ x.digits = y.digits := by
  have hzero : ∀ n, ∀ d ∈ zeros n, (d == 0) = true := by
    intro n d hd
    rw [List.eq_of_mem_replicate hd]
    rfl
  have hfirst : ∀ z : Decimal, ∀ n, (z.digits ++ zeros n).head?.any (· == 0) = false := by
    intro z n
    have hhead := z.first
    cases hdigits : z.digits with
    | nil => exact absurd hdigits z.ne_nil
    | cons e rest =>
      rw [hdigits] at hhead
      simpa using hhead
  have hlast : ∀ z : Decimal, z.digits.reverse.head?.any (· == 0) = false := by
    intro z
    have hend := z.last
    rw [List.head?_reverse]
    cases hdigits : z.digits.getLast? with
    | none => rfl
    | some e =>
      rw [hdigits] at hend
      simpa using hend
  obtain ⟨hleading, hrest⟩ := append_inj_of_stops (hzero a) (hzero c) (hfirst x b) (hfirst y d) h
  have hcount := congrArg List.length hleading
  have hreverse := congrArg List.reverse hrest
  have hself : ∀ n, (zeros n).reverse = zeros n := fun n => List.reverse_replicate
  rw [List.reverse_append, List.reverse_append, hself, hself] at hreverse
  obtain ⟨-, hdigits⟩ := append_inj_of_stops (hzero b) (hzero d) (hlast x) (hlast y) hreverse
  refine ⟨?_, List.reverse_injective hdigits⟩
  simpa [zeros] using hcount

theorem exponentText_inj {p q : ℤ} (h : exponentText p = exponentText q) : p = q := by
  simp only [exponentText, List.cons.injEq, true_and] at h
  have habs := natText_inj h.2
  have hsign := h.1
  split at hsign <;> split at hsign
  · omega
  · exact absurd hsign (by decide)
  · exact absurd hsign (by decide)
  · omega

theorem powerText_inj {p q : ℤ} (h : powerText p = powerText q) : p = q := by
  unfold powerText at h
  split at h <;> split at h
  · omega
  · cases h
  · cases h
  · exact exponentText_inj h

theorem mem_mantissa {whole fraction : List (Fin 10)} {c : CodeUnit}
    (h : c ∈ mantissa whole fraction) : (∃ d, c = digitUnit d) ∨ c = unit '.' := by
  rw [mantissa, List.mem_append] at h
  rcases h with h | h
  · obtain ⟨d, -, rfl⟩ := List.mem_map.mp h
    exact Or.inl ⟨d, rfl⟩
  · split at h
    · cases h
    · rcases List.mem_cons.mp h with rfl | h
      · exact Or.inr rfl
      · obtain ⟨d, -, rfl⟩ := List.mem_map.mp h
        exact Or.inl ⟨d, rfl⟩

theorem mantissa_inj {w f v g : List (Fin 10)} (h : mantissa w f = mantissa v g) :
    w = v ∧ f = g := by
  have hdigit : ∀ l : List (Fin 10), ∀ c ∈ l.map digitUnit, (c != unit '.') = true := by
    intro l c hc
    obtain ⟨d, -, rfl⟩ := List.mem_map.mp hc
    exact bne_iff_ne.mpr (digitUnit_ne d).1
  have hstop : ∀ l : List (Fin 10), (if l = [] then [] else
      unit '.' :: l.map digitUnit : Units).head?.any (· != unit '.') = false := by
    intro l
    split <;> rfl
  obtain ⟨hwhole, hrest⟩ := append_inj_of_stops (hdigit w) (hdigit v) (hstop f) (hstop g) h
  refine ⟨List.map_injective_iff.mpr digitUnit_injective hwhole, ?_⟩
  split at hrest <;> split at hrest
  · simp_all
  · cases hrest
  · cases hrest
  · exact List.map_injective_iff.mpr digitUnit_injective (List.cons.inj hrest).2

/-- Digits and exponent are told apart by the `e`. -/
theorem mantissa_powerText_inj {w f v g : List (Fin 10)} {p q : ℤ}
    (h : mantissa w f ++ powerText p = mantissa v g ++ powerText q) : w = v ∧ f = g ∧ p = q := by
  have hunit : ∀ w f, ∀ c ∈ mantissa w f, (c != unit 'e') = true := by
    intro w f c hc
    rcases mem_mantissa hc with ⟨d, rfl⟩ | rfl
    · exact bne_iff_ne.mpr (digitUnit_ne d).2.1
    · rfl
  have hstop : ∀ p, (powerText p).head?.any (· != unit 'e') = false := by
    intro p
    unfold powerText
    split <;> rfl
  obtain ⟨hmantissa, hpower⟩ := append_inj_of_stops (hunit _ _) (hunit _ _) (hstop _) (hstop _) h
  obtain ⟨hwhole, hfraction⟩ := mantissa_inj hmantissa
  exact ⟨hwhole, hfraction, powerText_inj hpower⟩

/-- The text without its sign tells the digits and the exponent. -/
theorem magnitude_inj {x y : Decimal} (h : x.magnitude = y.magnitude) :
    x.digits = y.digits ∧ x.exponent = y.exponent := by
  obtain ⟨l⟩ := exists_layout x
  obtain ⟨m⟩ := exists_layout y
  rw [l.text, m.text] at h
  obtain ⟨hwhole, hfraction, hpower⟩ := mantissa_powerText_inj h
  have hdigits := l.digits
  rw [hwhole, hfraction, m.digits] at hdigits
  obtain ⟨hleading, heq⟩ := zeros_append_inj hdigits
  have hx := l.exponent
  have hy := m.exponent
  rw [hwhole, hpower] at hx
  exact ⟨heq.symm, by omega⟩

/-- A unit that a number's text may have. -/
def isNumberUnit (c : CodeUnit) : Bool :=
  (48 ≤ c.val && c.val ≤ 57) || [unit '-', unit '+', unit '.', unit 'e'].contains c

theorem isNumberUnit_digitUnit (d : Fin 10) : isNumberUnit (digitUnit d) := by
  revert d
  decide

theorem isNumberUnit_of_mem_magnitude {x : Decimal} {c : CodeUnit} (h : c ∈ x.magnitude) :
    isNumberUnit c := by
  obtain ⟨l⟩ := exists_layout x
  rw [l.text, List.mem_append] at h
  rcases h with h | h
  · rcases mem_mantissa h with ⟨d, rfl⟩ | rfl
    · exact isNumberUnit_digitUnit d
    · decide
  · unfold powerText at h
    split at h
    · cases h
    · simp only [exponentText, List.mem_cons] at h
      rcases h with rfl | rfl | h
      · decide
      · split <;> decide
      · have hdigit := digit_of_mem_natText h
        rw [isNumberUnit, decide_eq_true hdigit.1, decide_eq_true hdigit.2]
        rfl

theorem isNumberUnit_of_mem {x : FiniteNumber} {c : CodeUnit} (h : c ∈ numberText x) :
    isNumberUnit c := by
  cases x with
  | zero =>
    rw [List.mem_singleton.mp h]
    decide
  | decimal x =>
    rw [numberText, List.mem_append] at h
    rcases h with h | h
    · split at h
      · rw [List.mem_singleton.mp h]
        decide
      · cases h
    · exact isNumberUnit_of_mem_magnitude h

/-- Without its sign, a number's text begins with a digit. -/
theorem head?_magnitude (x : Decimal) : ∃ d, x.magnitude.head? = some (digitUnit d) := by
  obtain ⟨l⟩ := exists_layout x
  rw [l.text, mantissa]
  cases hwhole : l.whole with
  | nil => exact absurd hwhole l.whole_ne_nil
  | cons d rest => exact ⟨d, rfl⟩

theorem numberText_ne_nil (x : FiniteNumber) : numberText x ≠ [] := by
  cases x with
  | zero => exact List.cons_ne_nil _ _
  | decimal x =>
    obtain ⟨d, hd⟩ := head?_magnitude x
    intro h
    rw [numberText, List.append_eq_nil_iff] at h
    rw [h.2] at hd
    cases hd

theorem magnitude_ne_zero (x : Decimal) : x.magnitude ≠ [unit '0'] := by
  obtain ⟨l⟩ := exists_layout x
  intro h
  have hzero : [unit '0'] = mantissa [0] [] ++ powerText 0 := by decide
  rw [l.text, hzero] at h
  obtain ⟨hwhole, hfraction, -⟩ := mantissa_powerText_inj h
  have hdigits := l.digits
  rw [hwhole, hfraction] at hdigits
  have hfirst := x.first
  cases hcons : x.digits with
  | nil => exact x.ne_nil hcons
  | cons d rest =>
    have hmem : d ∈ ([0] ++ [] : List (Fin 10)) := by
      rw [hdigits, hcons]
      exact List.mem_append_right _ List.mem_cons_self
    rw [hcons, List.mem_singleton.mp hmem] at hfirst
    exact hfirst rfl

/-- **No two finite numbers** have the same text. -/
theorem numberText_inj {x y : FiniteNumber} (h : numberText x = numberText y) : x = y := by
  have hdash : ∀ z w : Decimal, unit '-' :: z.magnitude = w.magnitude → False := by
    intro z w heq
    obtain ⟨d, hd⟩ := head?_magnitude w
    rw [← heq] at hd
    exact (digitUnit_ne d).2.2 (Option.some.inj hd).symm
  have hzero : ∀ z : Decimal, numberText (.decimal z) = [unit '0'] → False := by
    intro z hz
    rw [numberText] at hz
    split at hz
    · exact absurd (List.cons.inj hz).1 (by decide)
    · exact magnitude_ne_zero z hz
  cases x with
  | zero =>
    cases y with
    | zero => rfl
    | decimal y => exact (hzero y h.symm).elim
  | decimal x =>
    cases y with
    | zero => exact (hzero x h).elim
    | decimal y =>
      have hboth : x.negative = y.negative ∧ x.magnitude = y.magnitude := by
        rw [numberText, numberText] at h
        cases hx : x.negative <;> cases hy : y.negative <;> rw [hx, hy] at h
        · exact ⟨rfl, h⟩
        · exact (hdash y x h.symm).elim
        · exact (hdash x y h).elim
        · exact ⟨rfl, (List.cons.inj h).2⟩
      obtain ⟨hdigits, hexponent⟩ := magnitude_inj hboth.2
      have heq : x = y := by
        obtain ⟨negative, digits, exponent, _, _, _⟩ := x
        obtain ⟨negative', digits', exponent', _, _, _⟩ := y
        obtain rfl : negative = negative' := hboth.1
        obtain rfl : digits = digits' := hdigits
        obtain rfl : exponent = exponent' := hexponent
        rfl
      rw [heq]

end Numbers

end HoodSentry

/-!
## Texts of bigints

`BigInt(text)` on a sequence of UTF-16 code units: blanks are taken off both
ends, what is left is a literal to base ten with a sign or none, or one to base
two, eight or sixteen without, and nothing at all stands for zero. What
`toString` writes of a bigint is read back as it (`bigIntOf_intText`).
-/

namespace HoodSentry

/-- White space and line terminators. -/
def isBlankUnit (c : CodeUnit) : Bool :=
  (0x9 ≤ c.val && c.val ≤ 0xD) || (0x2000 ≤ c.val && c.val ≤ 0x200A) ||
    [0x20, 0xA0, 0x1680, 0x2028, 0x2029, 0x202F, 0x205F, 0x3000, 0xFEFF].contains c.val

/-- The value of a digit or of a letter behind the digits. -/
def digitOf (c : CodeUnit) : Option ℕ :=
  if 48 ≤ c.val ∧ c.val ≤ 57 then some (c.val - 48)
  else if 97 ≤ c.val ∧ c.val ≤ 102 then some (c.val - 87)
  else if 65 ≤ c.val ∧ c.val ≤ 70 then some (c.val - 55)
  else none

/-- The digits of a number to a base, behind what was read of it. -/
def readDigits (base : ℕ) : ℕ → Units → Option ℕ
  | value, [] => some value
  | value, c :: text =>
    match digitOf c with
    | some digit => if digit < base then readDigits base (base * value + digit) text else none
    | none => none

/-- A number has a digit at least. -/
def readNatural (base : ℕ) (text : Units) : Option ℕ :=
  if text = [] then none else readDigits base 0 text

/-- The base that a literal's second unit names. -/
def baseOf (c : CodeUnit) : Option ℕ :=
  if c = unit 'x' ∨ c = unit 'X' then some 16
  else if c = unit 'o' ∨ c = unit 'O' then some 8
  else if c = unit 'b' ∨ c = unit 'B' then some 2
  else none

/-- A literal to base ten, with a sign or none. -/
def readSigned (text : Units) : Option ℤ :=
  match text with
  | [] => none
  | c :: rest =>
    if c = unit '-' then (readNatural 10 rest).map fun n => -Int.ofNat n
    else if c = unit '+' then (readNatural 10 rest).map Int.ofNat
    else (readNatural 10 text).map Int.ofNat

/-- A literal without blanks around it. -/
def readLiteral (text : Units) : Option ℤ :=
  match text with
  | [] => some 0
  | c :: d :: rest =>
    match if c = unit '0' then baseOf d else none with
    | some base => (readNatural base rest).map Int.ofNat
    | none => readSigned text
  | text => readSigned text

/-- **`BigInt(text)`**: none where it throws. -/
def bigIntOf (text : Units) : Option ℤ :=
  readLiteral (((text.dropWhile isBlankUnit).reverse.dropWhile isBlankUnit).reverse)

example : bigIntOf (units " -12 ") = some (-12) ∧ bigIntOf (units "0x1F") = some 31 ∧
    bigIntOf [] = some 0 ∧ bigIntOf (units "-0x1") = none ∧ bigIntOf (units "1.5") = none := by
  decide

/-! ## What is written is read back -/

theorem readDigits_natText (n value : ℕ) : readDigits 10 value (natText n) =
    some (Nat.ofDigitChars 10 (Nat.toDigits 10 n) value) := by
  have hdigits : ∀ text : List Char, (∀ c ∈ text, 48 ≤ c.toNat ∧ c.toNat ≤ 57) →
      ∀ value, readDigits 10 value (text.map unit) = some (Nat.ofDigitChars 10 text value) := by
    intro text
    induction text with
    | nil =>
      intro _ value
      rw [Nat.ofDigitChars_nil]
      rfl
    | cons c text ih =>
      intro hall value
      obtain ⟨hc, hrest⟩ := List.forall_mem_cons.mp hall
      have hval : (unit c).val = c.toNat := val_unit (by omega)
      have hdigit : digitOf (unit c) = some (c.toNat - 48) := by
        rw [digitOf, hval, if_pos hc]
      rw [List.map_cons, readDigits, hdigit]
      dsimp only
      rw [if_pos (by omega), ih hrest, Nat.ofDigitChars_cons]
      rfl
  exact hdigits _ (fun c hc => isDigit_of_mem_toDigits hc) value

theorem readNatural_natText (n : ℕ) : readNatural 10 (natText n) = some n := by
  rw [readNatural, if_neg natText_ne_nil, readDigits_natText, Nat.ofDigitChars_ten_toDigits]

/-- A text that begins and ends with no blank is not trimmed. -/
theorem bigIntOf_of_units {text : Units} (h : ∀ c ∈ text, isBlankUnit c = false) :
    bigIntOf text = readLiteral text := by
  have hself : ∀ l : Units, (∀ c ∈ l, isBlankUnit c = false) → l.dropWhile isBlankUnit = l := by
    intro l hl
    cases l with
    | nil => rfl
    | cons c l => rw [List.dropWhile_cons_of_neg (by rw [hl c List.mem_cons_self]; simp)]
  rw [bigIntOf, hself text h, hself _ (fun c hc => h c (List.mem_reverse.mp hc)),
    List.reverse_reverse]

theorem not_blank_of_digit {c : CodeUnit} (h : 48 ≤ c.val ∧ c.val ≤ 57) :
    isBlankUnit c = false := by
  simp [isBlankUnit]
  omega

/-- Digits name no base. -/
theorem readLiteral_of_digits {text : Units} (h : ∀ d ∈ text.tail, baseOf d = none)
    (hne : text ≠ []) : readLiteral text = readSigned text := by
  rcases text with _ | ⟨c, _ | ⟨d, rest⟩⟩
  · exact absurd rfl hne
  · rfl
  · have hbase : (if c = unit '0' then baseOf d else none) = none := by
      rw [h d List.mem_cons_self, ite_self]
    simp only [readLiteral, hbase]

theorem baseOf_of_digit {c : CodeUnit} (h : 48 ≤ c.val ∧ c.val ≤ 57) : baseOf c = none := by
  have hne : ∀ letter : Char, letter.toNat < 0x10000 → 57 < letter.toNat → c ≠ unit letter := by
    rintro letter hlt hgt rfl
    rw [val_unit hlt] at h
    omega
  unfold baseOf
  rw [if_neg, if_neg, if_neg]
  all_goals
    rintro (heq | heq) <;> exact absurd heq (hne _ (by decide) (by decide))

/-- **A bigint is read back.** -/
theorem bigIntOf_intText (n : ℤ) : bigIntOf (intText n) = some n := by
  have hdigit : ∀ c ∈ natText n.natAbs, 48 ≤ c.val ∧ c.val ≤ 57 := fun c hc =>
    digit_of_mem_natText hc
  unfold intText
  split
  · rename_i hneg
    have hblank : ∀ c ∈ unit '-' :: natText n.natAbs, isBlankUnit c = false := by
      intro c hc
      rcases List.mem_cons.mp hc with rfl | hc
      · decide
      · exact not_blank_of_digit (hdigit c hc)
    rw [bigIntOf_of_units hblank,
      @readLiteral_of_digits (unit '-' :: natText n.natAbs)
        (fun d hd => baseOf_of_digit (hdigit d hd)) (List.cons_ne_nil _ _),
      readSigned, if_pos rfl, readNatural_natText, Option.map_some]
    congr 1
    show -(n.natAbs : ℤ) = n
    omega
  · rename_i hnonneg
    rw [bigIntOf_of_units fun c hc => not_blank_of_digit (hdigit c hc), readLiteral_of_digits
      (fun d hd => baseOf_of_digit (hdigit d (List.mem_of_mem_tail hd))) natText_ne_nil]
    have hnat := readNatural_natText n.natAbs
    cases htext : natText n.natAbs with
    | nil => exact absurd htext natText_ne_nil
    | cons c rest =>
      have hc := hdigit c (htext ▸ List.mem_cons_self)
      have hsign : c ≠ unit '-' ∧ c ≠ unit '+' := by
        constructor <;> rintro rfl <;> exact absurd hc (by decide)
      rw [htext] at hnat
      rw [readSigned, if_neg hsign.1, if_neg hsign.2, hnat, Option.map_some]
      congr 1
      show (n.natAbs : ℤ) = n
      omega

end HoodSentry
