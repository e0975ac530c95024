import HoodSentry.Common.JsonTree
import Mathlib.Data.List.DropRight
/-!
# Reading JSON texts

`JSON.parse` on a sequence of UTF-16 code units: strings with their escapes,
numbers, and trees of them with blanks between their parts; `none` where it
throws. A number is kept as the decimal that is written, without the rounding
to a double: the numbers of a tree are the decimals that doubles are written
as. What `JSON.stringify` writes of a tree is read back as the tree
(`Json.parse_render`), as soon as no object has two fields of one key.
-/

namespace HoodSentry

/-! ## Strings -/

section Strings

variable {c : CodeUnit} {s t : Units}

/-- The unit that a letter behind a backslash stands for. -/
def unescape (letter : CodeUnit) : Option CodeUnit :=
  if letter = unit '/' then some letter
  else (shortEscapes.find? fun entry => entry.2 = letter).map Prod.fst

/-- The unit of a number of four hexadecimal digits. -/
def readHex (a b c d : CodeUnit) : Option CodeUnit :=
  match digitOf a, digitOf b, digitOf c, digitOf d with
  | some a, some b, some c, some d => some (Fin.ofNat 0x10000 (4096 * a + 256 * b + 16 * c + d))
  | _, _, _, _ => none

/-- A string behind its opening mark, and what is behind its closing one. -/
def readQuoted : Units → Option (Units × Units)
  | [] => none
  | c :: text =>
    if c = unit '"' then some ([], text)
    else if c = unit '\\' then
      match text with
      | [] => none
      | letter :: text =>
        if letter = unit 'u' then
          match text with
          | a :: b :: c :: d :: text =>
            match readHex a b c d with
            | some value => (readQuoted text).map fun read => (value :: read.1, read.2)
            | none => none
          | _ => none
        else
          match unescape letter with
          | some value => (readQuoted text).map fun read => (value :: read.1, read.2)
          | none => none
    else if c.val < 32 then none
    else (readQuoted text).map fun read => (c :: read.1, read.2)

example : readQuoted (units "a\\n\\u0041\",") = some (units "a\nA", units ",") := by
  decide +kernel

theorem digitOf_hexUnit {n : ℕ} (h : n < 16) : digitOf (hexUnit n) = some n := by
  have hall : ∀ n < 16, digitOf (hexUnit n) = some n := by decide
  exact hall n h

theorem readHex_hexUnit (c : CodeUnit) :
    readHex (hexUnit (c.val / 4096)) (hexUnit (c.val / 256 % 16)) (hexUnit (c.val / 16 % 16))
      (hexUnit (c.val % 16)) = some c := by
  have hc := c.isLt
  rw [readHex, digitOf_hexUnit (by omega), digitOf_hexUnit (by omega), digitOf_hexUnit (by omega),
    digitOf_hexUnit (by omega)]
  refine congrArg some (Fin.ext ?_)
  rw [Fin.val_ofNat]
  omega

theorem unescape_shortEscape {letter : CodeUnit} (h : shortEscape c = some letter) :
    unescape letter = some c := by
  have hmem := mem_of_shortEscape h
  simp only [shortEscapes, List.mem_cons, Prod.mk.injEq, List.not_mem_nil, or_false] at hmem
  rcases hmem with ⟨rfl, rfl⟩ | ⟨rfl, rfl⟩ | ⟨rfl, rfl⟩ | ⟨rfl, rfl⟩ | ⟨rfl, rfl⟩ | ⟨rfl, rfl⟩ |
    ⟨rfl, rfl⟩ <;> decide

/-- What is quoted as itself is no control unit. -/
theorem not_control_of_quoteUnit (h : quoteUnit c = [c]) : ¬c.val < 32 := by
  intro hcontrol
  unfold quoteUnit at h
  split at h
  · cases h
  · rw [if_pos (by simp [hcontrol])] at h
    cases h

/-- **A unit's quotation** is read back. -/
theorem readQuoted_quoteUnit (c : CodeUnit) (t : Units) :
    readQuoted (quoteUnit c ++ t) = (readQuoted t).map fun read => (c :: read.1, read.2) := by
  have hmark : unit '\\' ≠ unit '"' := by decide
  rcases quoteUnit_cases c with ⟨letter, hletter, hc⟩ | hc | ⟨hc, hback, hquote, -⟩
  · rw [hc, List.cons_append, List.cons_append, List.nil_append,
      readQuoted.eq_def (unit '\\' :: letter :: t)]
    dsimp only
    rw [if_neg hmark, if_pos rfl, if_neg (shortEscape_ne_u hletter), unescape_shortEscape hletter]
  · rw [hc]
    simp only [List.cons_append, List.nil_append]
    rw [readQuoted.eq_def (unit '\\' :: _)]
    dsimp only
    rw [if_neg hmark, if_pos rfl, if_pos rfl, readHex_hexUnit]
  · rw [hc, List.cons_append, List.nil_append, readQuoted.eq_def (c :: t)]
    dsimp only
    rw [if_neg hquote, if_neg hback, if_neg (not_control_of_quoteUnit hc)]

/-- A surrogate stands for itself. -/
theorem readQuoted_surrogate (h : 0xD800 ≤ c.val) (t : Units) :
    readQuoted (c :: t) = (readQuoted t).map fun read => (c :: read.1, read.2) := by
  have hne : ∀ d : CodeUnit, d.val < 0xD800 → c ≠ d := by
    rintro d hd rfl
    omega
  rw [readQuoted.eq_def (c :: t)]
  dsimp only
  rw [if_neg (hne _ (by decide)), if_neg (hne _ (by decide)), if_neg (by omega)]

/-- **A quoted string** is read back. -/
theorem readQuoted_quoteUnits (s t : Units) :
    readQuoted (quoteUnits s ++ unit '"' :: t) = some (s, t) := by
  induction hlength : s.length using Nat.strong_induction_on generalizing s with
  | _ n ih =>
    rcases quoteUnits_cases s with rfl | ⟨c, d, rest, hc, hd, rfl, hs⟩ | ⟨c, rest, rfl, hs⟩
    · rw [quoteUnits, List.nil_append, readQuoted.eq_def]
      exact if_pos rfl
    · have hrest := ih rest.length (by simp at hlength; omega) rest rfl
      rw [isHigh, Bool.and_eq_true, decide_eq_true_eq, decide_eq_true_eq] at hc
      rw [isLow, Bool.and_eq_true, decide_eq_true_eq, decide_eq_true_eq] at hd
      rw [hs, List.cons_append, List.cons_append, readQuoted_surrogate hc.1,
        readQuoted_surrogate (by omega), hrest]
      rfl
    · have hrest := ih rest.length (by simp at hlength; omega) rest rfl
      rw [hs, List.append_assoc, readQuoted_quoteUnit, hrest]
      rfl

end Strings

/-! ## Numbers -/

section Numbers

variable {s : Units}

/-- Digits without the zeros at both ends. -/
def trimZeros (digits : List (Fin 10)) : List (Fin 10) :=
  (digits.dropWhile (· == 0)).rdropWhile (· == 0)

theorem head?_trimZeros (digits : List (Fin 10)) : (trimZeros digits).head? ≠ some 0 := by
  intro h
  have hprefix := List.rdropWhile_prefix (· == 0) (l := digits.dropWhile (· == 0))
  obtain ⟨rest, hrest⟩ := hprefix
  have hhead : (digits.dropWhile (· == 0)).head? = some 0 := by
    rw [trimZeros] at h
    rw [← hrest, List.head?_append, h]
    rfl
  have hnot := List.head?_dropWhile_not (· == 0) digits
  rw [hhead] at hnot
  exact absurd hnot (by decide)

theorem getLast?_trimZeros (digits : List (Fin 10)) : (trimZeros digits).getLast? ≠ some 0 := by
  intro h
  have hne : trimZeros digits ≠ [] := by
    intro hnil
    rw [hnil] at h
    cases h
  have hnot := List.rdropWhile_last_not (· == 0) (digits.dropWhile (· == 0)) hne
  rw [List.getLast?_eq_some_getLast hne] at h
  exact hnot (beq_iff_eq.mpr (Option.some.inj h))

/-- **The number that digits are**, with the point behind `exponent` of them. -/
def numberOf (negative : Bool) (digits : List (Fin 10)) (exponent : ℤ) : FiniteNumber :=
  if h : trimZeros digits = [] then .zero
  else .decimal {
    negative := negative
    digits := trimZeros digits
    exponent := exponent - (digits.takeWhile (· == 0)).length
    ne_nil := h
    first := head?_trimZeros digits
    last := getLast?_trimZeros digits }

def readDigit (c : CodeUnit) : Option (Fin 10) :=
  if 48 ≤ c.val ∧ c.val ≤ 57 then some (Fin.ofNat 10 (c.val - 48)) else none

/-- The digits that a text begins with, and what is behind them. -/
def takeDigits : Units → List (Fin 10) × Units
  | [] => ([], [])
  | c :: text =>
    match readDigit c with
    | some digit => (digit :: (takeDigits text).1, (takeDigits text).2)
    | none => ([], c :: text)

def readSign (text : Units) : Bool × Units :=
  match text with
  | [] => (false, [])
  | c :: rest => if c = unit '-' then (true, rest) else (false, text)

/-- The digits before the point: a zero leads no others. -/
def readWhole (text : Units) : Option (List (Fin 10) × Units) :=
  let digits := (takeDigits text).1
  if digits = [] ∨ (digits.head? = some 0 ∧ digits.length ≠ 1) then none else some (takeDigits text)

/-- The digits behind the point, one at least, or no point. -/
def readFraction (text : Units) : Option (List (Fin 10) × Units) :=
  match text with
  | [] => some ([], [])
  | c :: rest =>
    if c = unit '.' then if (takeDigits rest).1 = [] then none else some (takeDigits rest)
    else some ([], text)

/-- A natural number, and what is behind it. -/
def readCount (text : Units) : Option (ℕ × Units) :=
  (readNatural 10 (text.takeWhile fun c => (readDigit c).isSome)).map fun n =>
    (n, text.dropWhile fun c => (readDigit c).isSome)

/-- An exponent behind its letter. -/
def readExponent (text : Units) : Option (ℤ × Units) :=
  match text with
  | [] => none
  | c :: rest =>
    if c = unit '-' then (readCount rest).map fun read => (-Int.ofNat read.1, read.2)
    else if c = unit '+' then (readCount rest).map fun read => (Int.ofNat read.1, read.2)
    else (readCount text).map fun read => (Int.ofNat read.1, read.2)

/-- The power of ten, or none written. -/
def readPower (text : Units) : Option (ℤ × Units) :=
  match text with
  | [] => some (0, [])
  | c :: rest => if c = unit 'e' ∨ c = unit 'E' then readExponent rest else some (0, text)

/-- **A number**, and what is behind it. -/
def readNumber (text : Units) : Option (FiniteNumber × Units) :=
  let sign := readSign text
  (readWhole sign.2).bind fun whole =>
    (readFraction whole.2).bind fun fraction =>
      (readPower fraction.2).map fun power =>
        (numberOf sign.1 (whole.1 ++ fraction.1) (whole.1.length + power.1), power.2)

example : readNumber (units "-0.50e1,") = some (.decimal ⟨true, [5], 1, by decide, by decide,
    by decide⟩, units ",") ∧ readNumber (units "01") = none := by decide +kernel

/-! ### What is written is read back -/

/-- What stands behind digits: no digit. -/
def NoDigit (s : Units) : Prop := ∀ c, s.head? = some c → readDigit c = none

theorem noDigit_cons {c : CodeUnit} (h : readDigit c = none) (s : Units) : NoDigit (c :: s) := by
  intro d hd
  obtain rfl := Option.some.inj hd
  exact h

/-- What stops a text is none of the units that a number's text could go on with. -/
theorem Stops.ne (h : Stops s) {c : CodeUnit} {rest : Units} (hs : s = c :: rest) :
    readDigit c = none ∧ c ≠ unit '.' ∧ c ≠ unit 'e' ∧ c ≠ unit 'E' := by
  have hmem := h c (by rw [hs]; rfl)
  simp only [List.mem_cons, List.not_mem_nil, or_false] at hmem
  rcases hmem with rfl | rfl | rfl <;> decide

theorem Stops.noDigit (h : Stops s) : NoDigit s := by
  intro c hc
  cases s with
  | nil => cases hc
  | cons d rest =>
    obtain rfl := Option.some.inj hc
    exact (h.ne rfl).1

theorem readDigit_digitUnit (d : Fin 10) : readDigit (digitUnit d) = some d := by
  revert d
  decide

/-- **Digits** are read up to what is none. -/
theorem takeDigits_append (digits : List (Fin 10)) (hs : NoDigit s) :
    takeDigits (digits.map digitUnit ++ s) = (digits, s) := by
  induction digits with
  | nil =>
    cases s with
    | nil => rfl
    | cons c rest => rw [List.map_nil, List.nil_append, takeDigits, hs c rfl]
  | cons d digits ih =>
    rw [List.map_cons, List.cons_append, takeDigits, readDigit_digitUnit]
    dsimp only
    rw [ih]

theorem readDigit_of_mem_natText {n : ℕ} {c : CodeUnit} (h : c ∈ natText n) :
    (readDigit c).isSome := by
  rw [readDigit, if_pos (digit_of_mem_natText h)]
  rfl

theorem readCount_natText (n : ℕ) (hs : NoDigit s) : readCount (natText n ++ s) = some (n, s) := by
  have hstop : s.takeWhile (fun c => (readDigit c).isSome) = [] ∧
      s.dropWhile (fun c => (readDigit c).isSome) = s := by
    cases s with
    | nil => exact ⟨rfl, rfl⟩
    | cons c rest =>
      have hc : ¬(readDigit c).isSome := by rw [hs c rfl]; simp
      exact ⟨List.takeWhile_cons_of_neg hc, List.dropWhile_cons_of_neg hc⟩
  rw [readCount, List.takeWhile_append_of_pos fun c hc => readDigit_of_mem_natText hc,
    List.dropWhile_append_of_pos fun c hc => readDigit_of_mem_natText hc, hstop.1, hstop.2,
    List.append_nil, readNatural_natText]
  rfl

theorem readPower_powerText (power : ℤ) (hs : Stops s) :
    readPower (powerText power ++ s) = some (power, s) := by
  unfold powerText
  split
  · rename_i hpower
    subst hpower
    cases hcons : s with
    | nil => rfl
    | cons c rest =>
      obtain ⟨-, -, he, hE⟩ := hs.ne hcons
      rw [List.nil_append, readPower, if_neg (not_or.mpr ⟨he, hE⟩)]
  · rw [exponentText, List.cons_append, List.cons_append, readPower, if_pos (Or.inl rfl),
      readExponent]
    by_cases hneg : power < 0
    · rw [if_pos hneg, if_pos rfl, readCount_natText _ hs.noDigit, Option.map_some]
      refine congrArg some (Prod.ext ?_ rfl)
      show -(power.natAbs : ℤ) = power
      omega
    · rw [if_neg hneg, if_neg (by decide), if_pos rfl, readCount_natText _ hs.noDigit,
        Option.map_some]
      refine congrArg some (Prod.ext ?_ rfl)
      show (power.natAbs : ℤ) = power
      omega

/-- What stands behind a number's digits: no digit and no point. -/
theorem powerText_head (power : ℤ) (hs : Stops s) {c : CodeUnit} {rest : Units}
    (h : powerText power ++ s = c :: rest) : readDigit c = none ∧ c ≠ unit '.' := by
  unfold powerText at h
  split at h
  · have hne := hs.ne h
    exact ⟨hne.1, hne.2.1⟩
  · rw [exponentText, List.cons_append] at h
    obtain ⟨rfl, -⟩ := List.cons.inj h
    decide

theorem noDigit_powerText (power : ℤ) (hs : Stops s) : NoDigit (powerText power ++ s) := by
  intro c hc
  cases h : powerText power ++ s with
  | nil =>
    rw [h] at hc
    cases hc
  | cons d rest =>
    rw [h] at hc
    obtain rfl := Option.some.inj hc
    exact (powerText_head power hs h).1

theorem readFraction_append (fraction : List (Fin 10)) (power : ℤ) (hs : Stops s) :
    readFraction ((if fraction = [] then [] else unit '.' :: fraction.map digitUnit) ++
      (powerText power ++ s)) = some (fraction, powerText power ++ s) := by
  split
  · rename_i hnil
    subst hnil
    cases h : powerText power ++ s with
    | nil => rfl
    | cons c rest =>
      rw [List.nil_append, readFraction, if_neg (powerText_head power hs h).2]
  · rename_i hne
    rw [List.cons_append, readFraction, if_pos rfl,
      takeDigits_append fraction (noDigit_powerText power hs), if_neg hne]

/-- A number's text begins with a zero only before a point. -/
theorem magnitude_zero {x : Decimal} {rest : Units} (h : x.magnitude = digitUnit 0 :: rest) :
    rest.head? = some (unit '.') := by
  have hfirst : ∀ digits : List (Fin 10), digits.head? = x.digits.head? →
      ∀ t u : Units, digits.map digitUnit ++ t = digitUnit 0 :: u → False := by
    intro digits hdigits t u heq
    cases hx : x.digits with
    | nil => exact x.ne_nil hx
    | cons d l =>
      rw [hx] at hdigits
      cases hd : digits with
      | nil =>
        rw [hd] at hdigits
        cases hdigits
      | cons e m =>
        rw [hd] at hdigits heq
        obtain rfl := Option.some.inj hdigits
        have hzero := digitUnit_injective (List.cons.inj heq).1
        exact x.first (by rw [hx, hzero]; rfl)
  have htake : ∀ n, 0 < n → (x.digits.take n).head? = x.digits.head? := by
    intro n hn
    rw [List.head?_take, if_neg (by omega)]
  unfold Decimal.magnitude at h
  split_ifs at h with hwhole hpoint hsmall
  · rw [List.map_append] at h
    exact (hfirst _ rfl _ _ h).elim
  · exact (hfirst _ (htake _ (by omega)) _ _ h).elim
  · rw [← (List.cons.inj h).2]
    rfl
  · rw [List.append_assoc] at h
    exact (hfirst _ (htake 1 (by omega)) _ _ h).elim
  · rw [List.append_assoc] at h
    exact (hfirst _ (htake 1 (by omega)) _ _ h).elim

theorem Layout.whole_head {x : Decimal} (l : Layout x) :
    ¬(l.whole = [] ∨ (l.whole.head? = some 0 ∧ l.whole.length ≠ 1)) := by
  rintro (hnil | ⟨hzero, hlength⟩)
  · exact l.whole_ne_nil hnil
  · have htext := l.text
    cases hwhole : l.whole with
    | nil => exact l.whole_ne_nil hwhole
    | cons d digits =>
      rw [hwhole] at hzero hlength htext
      obtain rfl := Option.some.inj hzero
      rw [mantissa, List.map_cons, List.cons_append, List.cons_append] at htext
      have hpoint := magnitude_zero htext
      cases hdigits : digits with
      | nil =>
        rw [hdigits] at hlength
        exact hlength rfl
      | cons e more =>
        rw [hdigits] at hpoint
        exact (digitUnit_ne e).1 (Option.some.inj hpoint)

/-- Zeros at both ends are taken off. -/
theorem trimZeros_append (x : Decimal) (a b : ℕ) :
    trimZeros (zeros a ++ (x.digits ++ zeros b)) = x.digits := by
  have hzero : ∀ n, ∀ d ∈ zeros n, (d == 0) = true := by
    intro n d hd
    rw [List.eq_of_mem_replicate hd]
    rfl
  have hfirst : (x.digits ++ zeros b).dropWhile (· == 0) = x.digits ++ zeros b := by
    cases hdigits : x.digits with
    | nil => exact absurd hdigits x.ne_nil
    | cons d rest =>
      have hhead := x.first
      rw [hdigits] at hhead
      refine List.dropWhile_cons_of_neg fun h => hhead ?_
      rw [beq_iff_eq.mp h]
      rfl
  have hlast : x.digits.rdropWhile (· == 0) = x.digits := by
    refine List.rdropWhile_eq_self_iff.mpr fun hne h => x.last ?_
    rw [List.getLast?_eq_some_getLast hne, beq_iff_eq.mp h]
  rw [trimZeros, List.dropWhile_append_of_pos (hzero a), hfirst, List.rdropWhile,
    List.reverse_append,
    List.dropWhile_append_of_pos fun d hd => hzero b d (List.mem_reverse.mp hd)]
  exact hlast

theorem takeWhile_zeros (x : Decimal) (a b : ℕ) :
    ((zeros a ++ (x.digits ++ zeros b)).takeWhile (· == 0)).length = a := by
  have hzero : ∀ d ∈ zeros a, (d == 0) = true := by
    intro d hd
    rw [List.eq_of_mem_replicate hd]
    rfl
  have hfirst : (x.digits ++ zeros b).takeWhile (· == 0) = [] := by
    cases hdigits : x.digits with
    | nil => exact absurd hdigits x.ne_nil
    | cons d rest =>
      have hhead := x.first
      rw [hdigits] at hhead
      refine List.takeWhile_cons_of_neg fun h => hhead ?_
      rw [beq_iff_eq.mp h]
      rfl
  rw [List.takeWhile_append_of_pos hzero, hfirst, List.append_nil, zeros, List.length_replicate]

/-- **A decimal among zeros** is the decimal. -/
theorem numberOf_zeros (x : Decimal) (a b : ℕ) {exponent : ℤ} (h : x.exponent = exponent - a) :
    numberOf x.negative (zeros a ++ (x.digits ++ zeros b)) exponent = .decimal x := by
  have htrim := trimZeros_append x a b
  have hlength := takeWhile_zeros x a b
  rw [numberOf, dif_neg (by rw [htrim]; exact x.ne_nil)]
  obtain ⟨negative, digits, exponent', ne_nil, first, last⟩ := x
  obtain rfl : exponent' = exponent - a := h
  simp only [hlength, htrim]

theorem readSign_numberText (x : Decimal) (s : Units) :
    readSign (numberText (.decimal x) ++ s) = (x.negative, x.magnitude ++ s) := by
  rw [numberText]
  cases hneg : x.negative with
  | true => rfl
  | false =>
    obtain ⟨d, hd⟩ := head?_magnitude x
    cases htext : x.magnitude with
    | nil =>
      rw [htext] at hd
      cases hd
    | cons c rest =>
      rw [htext] at hd
      obtain rfl := Option.some.inj hd
      exact if_neg (digitUnit_ne d).2.2

/-- **A number** is read back up to what stops it. -/
theorem readNumber_numberText (x : FiniteNumber) (hs : Stops s) :
    readNumber (numberText x ++ s) = some (x, s) := by
  cases x with
  | zero =>
    have hdigits : takeDigits (unit '0' :: s) = ([0], s) := takeDigits_append [0] hs.noDigit
    have hfraction : readFraction s = some ([], s) := readFraction_append [] 0 hs
    have hpower : readPower s = some (0, s) := readPower_powerText 0 hs
    have hsign : readSign (unit '0' :: s) = (false, unit '0' :: s) := by
      rw [readSign, if_neg (by decide)]
    have hwhole : readWhole (unit '0' :: s) = some ([0], s) := by
      rw [readWhole, hdigits]
      rfl
    show readNumber (unit '0' :: s) = _
    simp only [readNumber, hsign, hwhole, Option.bind_some, hfraction, hpower, Option.map_some]
    rfl
  | decimal x =>
    obtain ⟨l⟩ := exists_layout x
    have hstop : NoDigit ((if l.fraction = [] then [] else
        unit '.' :: l.fraction.map digitUnit : Units) ++ (powerText l.power ++ s)) := by
      split
      · exact noDigit_powerText l.power hs
      · exact noDigit_cons (by decide) _
    have hdigits := takeDigits_append l.whole hstop
    have hwhole : readWhole (x.magnitude ++ s) = some (l.whole,
        (if l.fraction = [] then [] else unit '.' :: l.fraction.map digitUnit) ++
          (powerText l.power ++ s)) := by
      rw [l.text, mantissa, List.append_assoc, List.append_assoc, readWhole, hdigits]
      exact if_neg l.whole_head
    have hfraction := readFraction_append l.fraction l.power hs
    have hpower := readPower_powerText l.power hs
    simp only [readNumber, readSign_numberText, hwhole, Option.bind_some, hfraction, hpower,
      Option.map_some, l.digits]
    rw [numberOf_zeros x l.leading l.trailing]
    have hexponent := l.exponent
    omega

end Numbers

/-! ## Trees -/

namespace Json

/-- A blank between the parts of a text. -/
def isBlank (c : CodeUnit) : Bool := [0x20, 0x9, 0xA, 0xD].contains c.val

def skipBlanks (text : Units) : Units := text.dropWhile isBlank

/-- What is behind a word. -/
def readWord (word text : Units) : Option Units :=
  if text.take word.length = word then some (text.drop word.length) else none

/-- A key and the colon behind it. -/
def readKey (text : Units) : Option (Units × Units) :=
  match skipBlanks text with
  | [] => none
  | c :: rest =>
    if c = unit '"' then
      (readQuoted rest).bind fun key =>
        match skipBlanks key.2 with
        | [] => none
        | d :: rest => if d = unit ':' then some (key.1, rest) else none
    else none

/-- A key that comes again keeps its place and takes the later value. -/
def setField (fields : List (Units × Json)) (field : Units × Json) : List (Units × Json) :=
  if field.1 ∈ fields.map Prod.fst then
    fields.map fun old => if old.1 = field.1 then field else old
  else fields ++ [field]

/-- The object of the fields that were written. -/
def objectOf (fields : List (Units × Json)) : Json := .object (fields.foldl setField [])

mutual

/-- A value with blanks before it, and what is behind it. -/
def readValue : ℕ → Units → Option (Json × Units)
  | 0, _ => none
  | fuel + 1, text =>
    match skipBlanks text with
    | [] => none
    | c :: rest =>
      if c = unit '"' then (readQuoted rest).map fun read => (.string read.1, read.2)
      else if c = unit '[' then
        if (skipBlanks rest).head? = some (unit ']') then
          some (.array [], (skipBlanks rest).tail)
        else (readItems fuel rest).map fun read => (.array read.1, read.2)
      else if c = unit '\x7b' then
        if (skipBlanks rest).head? = some (unit '\x7d') then
          some (.object [], (skipBlanks rest).tail)
        else (readFields fuel rest).map fun read => (objectOf read.1, read.2)
      else if c = unit 'n' then
        (readWord (units "null") (c :: rest)).map fun rest => (.null, rest)
      else if c = unit 't' then
        (readWord (units "true") (c :: rest)).map fun rest => (.boolean true, rest)
      else if c = unit 'f' then
        (readWord (units "false") (c :: rest)).map fun rest => (.boolean false, rest)
      else (readNumber (c :: rest)).map fun read => (.number read.1, read.2)

/-- The items of an array, one at least, up to its closing bracket. -/
def readItems : ℕ → Units → Option (List Json × Units)
  | 0, _ => none
  | fuel + 1, text =>
    (readValue fuel text).bind fun item =>
      match skipBlanks item.2 with
      | [] => none
      | c :: rest =>
        if c = unit ',' then (readItems fuel rest).map fun read => (item.1 :: read.1, read.2)
        else if c = unit ']' then some ([item.1], rest)
        else none

/-- The fields of an object, one at least, up to its closing brace. -/
def readFields : ℕ → Units → Option (List (Units × Json) × Units)
  | 0, _ => none
  | fuel + 1, text =>
    (readKey text).bind fun key =>
      (readValue fuel key.2).bind fun value =>
        match skipBlanks value.2 with
        | [] => none
        | c :: rest =>
          if c = unit ',' then
            (readFields fuel rest).map fun read => ((key.1, value.1) :: read.1, read.2)
          else if c = unit '\x7d' then some ([(key.1, value.1)], rest)
          else none

end

/-- **`JSON.parse`**: none where it throws. The fuel is twice the length of the
text: no unit is gone past in more than two calls. -/
def parse (text : Units) : Option Json :=
  (readValue (2 * text.length + 1) text).bind fun read =>
    if skipBlanks read.2 = [] then some read.1 else none

/-! ### Objects with one field a key -/

mutual

/-- No object of the tree has two fields of one key. -/
def distinctKeys : Json → Bool
  | .null | .boolean _ | .number _ | .string _ => true
  | .array items => distinctItems items
  | .object fields => decide (fields.map Prod.fst).Nodup && distinctFields fields

def distinctItems : List Json → Bool
  | [] => true
  | item :: items => distinctKeys item && distinctItems items

def distinctFields : List (Units × Json) → Bool
  | [] => true
  | (_, value) :: fields => distinctKeys value && distinctFields fields

end

theorem distinctItems_iff {items : List Json} :
    distinctItems items ↔ ∀ item ∈ items, item.distinctKeys := by
  induction items with
  | nil => simp [distinctItems]
  | cons item items ih => rw [distinctItems, Bool.and_eq_true, ih, List.forall_mem_cons]

theorem distinctFields_iff {fields : List (Units × Json)} :
    distinctFields fields ↔ ∀ field ∈ fields, field.2.distinctKeys := by
  induction fields with
  | nil => simp [distinctFields]
  | cons field fields ih =>
    rw [distinctFields, Bool.and_eq_true, ih, List.forall_mem_cons]

/-- Fields of different keys are kept as they are. -/
theorem objectOf_of_nodup {fields : List (Units × Json)} (h : (fields.map Prod.fst).Nodup) :
    objectOf fields = .object fields := by
  have hfold : ∀ before : List (Units × Json), ((before ++ fields).map Prod.fst).Nodup →
      fields.foldl setField before = before ++ fields := by
    clear h
    induction fields with
    | nil => exact fun before _ => (List.append_nil before).symm
    | cons field fields ih =>
      intro before hnodup
      have hnew : field.1 ∉ before.map Prod.fst := by
        rw [List.map_append, List.map_cons, List.nodup_append] at hnodup
        exact fun hmem => hnodup.2.2 field.1 hmem field.1 List.mem_cons_self rfl
      rw [List.foldl_cons, setField, if_neg hnew, ih _ (by rwa [List.append_assoc]),
        List.append_assoc]
      rfl
  exact congrArg Json.object (hfold [] h)

/-! ### What is written is read back -/

variable {s t : Units} {fuel : ℕ}

theorem skipBlanks_cons {c : CodeUnit} (h : isBlank c = false) (s : Units) :
    skipBlanks (c :: s) = c :: s :=
  List.dropWhile_cons_of_neg (by rw [h]; simp)

theorem readWord_append (word s : Units) : readWord word (word ++ s) = some s := by
  rw [readWord, List.take_left, if_pos rfl, List.drop_left]

/-- No unit of a number is a blank. -/
theorem not_blank_of_numberUnit {c : CodeUnit} (h : isNumberUnit c) : isBlank c = false := by
  by_contra hblank
  rw [Bool.not_eq_false, isBlank, List.contains_iff_mem] at hblank
  have hc : c ∈ ([0x20, 0x9, 0xA, 0xD] : List CodeUnit) := by
    simp only [List.mem_cons, List.not_mem_nil, or_false] at hblank ⊢
    rcases hblank with h | h | h | h
    · exact Or.inl (Fin.ext h)
    · exact Or.inr (Or.inl (Fin.ext h))
    · exact Or.inr (Or.inr (Or.inl (Fin.ext h)))
    · exact Or.inr (Or.inr (Or.inr (Fin.ext h)))
  simp only [List.mem_cons, List.not_mem_nil, or_false] at hc
  rcases hc with rfl | rfl | rfl | rfl <;> exact absurd h (by decide)

/-- A tree is read back, whatever stops it, with fuel for its text. -/
def Reads (tree : Json) : Prop :=
  ∀ fuel s, Stops s → 2 * (tree.render ++ s).length ≤ fuel →
    readValue fuel (tree.render ++ s) = some (tree, s)

/-- A tree's text begins with no blank. -/
theorem skipBlanks_render (tree : Json) (s : Units) :
    skipBlanks (tree.render ++ s) = tree.render ++ s := by
  obtain ⟨c, hc, hkind, -⟩ := head?_render tree
  cases htext : tree.render with
  | nil =>
    rw [htext] at hc
    cases hc
  | cons d rest =>
    rw [htext] at hc
    obtain rfl := Option.some.inj hc
    refine skipBlanks_cons ?_ (rest ++ s)
    cases htree : tree with
    | number value =>
      rw [htree, render] at htext
      exact not_blank_of_numberUnit (isNumberUnit_of_mem (htext ▸ List.mem_cons_self))
    | boolean value =>
      rw [htree, render] at htext
      cases value <;> obtain ⟨rfl, -⟩ := List.cons.inj htext <;> decide
    | null | string _ | array _ | object _ =>
      rw [htree, render] at htext
      obtain ⟨rfl, -⟩ := List.cons.inj htext
      decide

/-- What stands behind an item: the other items, up to the closing bracket. -/
theorem readItems_render {item : Json} {items : List Json}
    (hall : ∀ other ∈ item :: items, Reads other) (fuel : ℕ) (s : Units)
    (hfuel : 2 * (joined ((item :: items).map render) ++ unit ']' :: s).length + 1 ≤ fuel) :
    readItems fuel (joined ((item :: items).map render) ++ unit ']' :: s) =
      some (item :: items, s) := by
  induction items generalizing item fuel with
  | nil =>
    obtain ⟨fuel, rfl⟩ : ∃ n, fuel = n + 1 := ⟨fuel - 1, by omega⟩
    rw [List.map_cons, joined_cons, List.map_nil, List.flatMap_nil, List.append_nil] at hfuel ⊢
    have hstops : Stops (unit ']' :: s) := fun c hc => by
      obtain rfl := Option.some.inj hc
      decide
    have hread := hall item List.mem_cons_self fuel (unit ']' :: s) hstops (by omega)
    rw [readItems, hread, Option.bind_some]
    dsimp only
    rw [skipBlanks_cons (by decide)]
    dsimp only
    rw [if_neg (by decide), if_pos rfl]
  | cons next items ih =>
    obtain ⟨fuel, rfl⟩ : ∃ n, fuel = n + 1 := ⟨fuel - 1, by omega⟩
    have htext : joined ((item :: next :: items).map render) ++ unit ']' :: s = item.render ++
        unit ',' :: (joined ((next :: items).map render) ++ unit ']' :: s) := by
      simp only [List.map_cons, joined_cons, List.flatMap_cons, List.cons_append,
        List.append_assoc]
    rw [htext] at hfuel ⊢
    have hstops : Stops (unit ',' :: (joined ((next :: items).map render) ++ unit ']' :: s)) :=
      fun c hc => by
        obtain rfl := Option.some.inj hc
        decide
    have hread := hall item List.mem_cons_self fuel _ hstops (by omega)
    have hrest := ih (fun other hother => hall other (List.mem_cons_of_mem _ hother)) fuel (by
      simp only [List.length_append, List.length_cons] at hfuel ⊢
      omega)
    rw [readItems, hread, Option.bind_some]
    dsimp only
    rw [skipBlanks_cons (by decide)]
    dsimp only
    rw [if_pos rfl, hrest]
    rfl

theorem readKey_quoted (key s : Units) : readKey (quoted key ++ unit ':' :: s) = some (key, s) := by
  have htext : quoted key ++ unit ':' :: s =
      unit '"' :: (quoteUnits key ++ unit '"' :: unit ':' :: s) := by
    simp [quoted]
  rw [htext, readKey, skipBlanks_cons (by decide)]
  dsimp only
  rw [if_pos rfl, readQuoted_quoteUnits, Option.bind_some]
  dsimp only
  rw [skipBlanks_cons (by decide)]
  dsimp only
  rw [if_pos rfl]

theorem readFields_render {field : Units × Json} {fields : List (Units × Json)}
    (hall : ∀ other ∈ field :: fields, Reads other.2) (fuel : ℕ) (s : Units)
    (hfuel : 2 * (joined ((field :: fields).map renderField) ++ unit '\x7d' :: s).length + 1 ≤
      fuel) :
    readFields fuel (joined ((field :: fields).map renderField) ++ unit '\x7d' :: s) =
      some (field :: fields, s) := by
  induction fields generalizing field fuel with
  | nil =>
    obtain ⟨fuel, rfl⟩ : ∃ n, fuel = n + 1 := ⟨fuel - 1, by omega⟩
    have htext : joined ([field].map renderField) ++ unit '\x7d' :: s =
        quoted field.1 ++ unit ':' :: (field.2.render ++ unit '\x7d' :: s) := by
      simp [joined_cons, renderField]
    rw [htext] at hfuel ⊢
    have hstops : Stops (unit '\x7d' :: s) := fun c hc => by
      obtain rfl := Option.some.inj hc
      decide
    have hread := hall field List.mem_cons_self fuel (unit '\x7d' :: s) hstops (by
      simp only [List.length_append, List.length_cons] at hfuel ⊢
      omega)
    rw [readFields, readKey_quoted, Option.bind_some]
    dsimp only
    rw [hread, Option.bind_some]
    dsimp only
    rw [skipBlanks_cons (by decide)]
    dsimp only
    rw [if_neg (by decide), if_pos rfl]
  | cons next fields ih =>
    obtain ⟨fuel, rfl⟩ : ∃ n, fuel = n + 1 := ⟨fuel - 1, by omega⟩
    have htext : joined ((field :: next :: fields).map renderField) ++ unit '\x7d' :: s =
        quoted field.1 ++ unit ':' :: (field.2.render ++
          unit ',' :: (joined ((next :: fields).map renderField) ++ unit '\x7d' :: s)) := by
      simp only [List.map_cons, joined_cons, List.flatMap_cons, List.cons_append,
        List.append_assoc, renderField]
    rw [htext] at hfuel ⊢
    have hstops :
        Stops (unit ',' :: (joined ((next :: fields).map renderField) ++ unit '\x7d' :: s)) :=
      fun c hc => by
        obtain rfl := Option.some.inj hc
        decide
    have hread := hall field List.mem_cons_self fuel _ hstops (by
      simp only [List.length_append, List.length_cons] at hfuel ⊢
      omega)
    have hrest := ih (fun other hother => hall other (List.mem_cons_of_mem _ hother)) fuel (by
      simp only [List.length_append, List.length_cons] at hfuel ⊢
      omega)
    rw [readFields, readKey_quoted, Option.bind_some]
    dsimp only
    rw [hread, Option.bind_some]
    dsimp only
    rw [skipBlanks_cons (by decide)]
    dsimp only
    rw [if_pos rfl, hrest]
    rfl

theorem reads_word {tree : Json} {c : CodeUnit} {word : Units} (htext : tree.render = c :: word)
    (hvalue : ∀ fuel rest, skipBlanks (c :: rest) = c :: rest →
      readValue (fuel + 1) (c :: rest) =
        (readWord (c :: word) (c :: rest)).map fun s => (tree, s)) : Reads tree := by
  intro fuel s _ hfuel
  have hblank := skipBlanks_render tree s
  rw [htext] at hfuel hblank ⊢
  obtain ⟨fuel, rfl⟩ : ∃ n, fuel = n + 1 := ⟨fuel - 1, by
    rw [List.cons_append, List.length_cons] at hfuel
    omega⟩
  rw [List.cons_append] at hblank ⊢
  rw [hvalue fuel (word ++ s) hblank, ← List.cons_append, readWord_append]
  rfl

theorem reads_number (value : FiniteNumber) : Reads (.number value) := by
  intro fuel s hs hfuel
  have hblank := skipBlanks_render (.number value) s
  have hread := readNumber_numberText value hs
  rw [render] at hfuel hblank ⊢
  generalize htext : numberText value = text at hfuel hblank hread ⊢
  cases text with
  | nil => exact absurd htext (numberText_ne_nil value)
  | cons c rest =>
    have hunit : isNumberUnit c := isNumberUnit_of_mem (htext ▸ List.mem_cons_self)
    have hne : ∀ d, isNumberUnit d = false → c ≠ d := by
      rintro d hd rfl
      rw [hd] at hunit
      cases hunit
    rw [List.cons_append] at hfuel hblank hread ⊢
    obtain ⟨fuel, rfl⟩ : ∃ n, fuel = n + 1 := ⟨fuel - 1, by
      rw [List.length_cons] at hfuel
      omega⟩
    rw [readValue, hblank]
    dsimp only
    rw [if_neg (hne _ (by decide)), if_neg (hne _ (by decide)), if_neg (hne _ (by decide)),
      if_neg (hne _ (by decide)), if_neg (hne _ (by decide)), if_neg (hne _ (by decide)), hread]
    rfl

theorem reads_string (value : Units) : Reads (.string value) := by
  intro fuel s _ hfuel
  have hblank := skipBlanks_render (.string value) s
  rw [render, quoted, List.cons_append, List.append_assoc, List.cons_append,
    List.nil_append] at hfuel hblank ⊢
  obtain ⟨fuel, rfl⟩ : ∃ n, fuel = n + 1 := ⟨fuel - 1, by
    rw [List.length_cons] at hfuel
    omega⟩
  rw [readValue, hblank]
  dsimp only
  rw [if_pos rfl, readQuoted_quoteUnits]
  rfl

/-- Texts of which the first begins with no blank and no closing bracket. -/
theorem skipBlanks_joined {c closing : CodeUnit} {text : Units} {texts : List Units} {s : Units}
    (hhead : text.head? = some c) (hblank : isBlank c = false) (hne : c ≠ closing) :
    (skipBlanks (joined (text :: texts) ++ s)).head? ≠ some closing := by
  rw [joined_cons]
  cases htext : text with
  | nil =>
    rw [htext] at hhead
    cases hhead
  | cons d rest =>
    rw [htext] at hhead
    obtain rfl := Option.some.inj hhead
    rw [List.cons_append, List.cons_append, skipBlanks_cons hblank]
    exact fun h => hne (Option.some.inj h)

theorem reads_array {items : List Json} (hall : ∀ item ∈ items, Reads item) :
    Reads (.array items) := by
  intro fuel s _ hfuel
  have hblank := skipBlanks_render (.array items) s
  rw [render, renderItems_eq_map, List.cons_append, List.append_assoc, List.cons_append,
    List.nil_append] at hfuel hblank ⊢
  rw [List.length_cons] at hfuel
  obtain ⟨fuel, rfl⟩ : ∃ n, fuel = n + 1 := ⟨fuel - 1, by omega⟩
  rw [readValue, hblank]
  dsimp only
  rw [if_neg (by decide), if_pos rfl]
  cases items with
  | nil =>
    have hclose : skipBlanks (joined (List.map render []) ++ unit ']' :: s) = unit ']' :: s :=
      skipBlanks_cons (by decide) s
    rw [hclose]
    exact if_pos rfl
  | cons item items =>
    obtain ⟨c, hc, -, hstop⟩ := head?_render item
    have hopen : (skipBlanks (joined ((item :: items).map render) ++ unit ']' :: s)).head? ≠
        some (unit ']') := by
      refine skipBlanks_joined hc ?_ ?_
      · have hself := skipBlanks_render item []
        rw [List.append_nil] at hself
        cases htext : item.render with
        | nil =>
          rw [htext] at hc
          cases hc
        | cons d rest =>
          rw [htext] at hc hself
          obtain rfl := Option.some.inj hc
          have hhead := List.head?_dropWhile_not isBlank (d :: rest)
          rw [show List.dropWhile isBlank (d :: rest) = d :: rest from hself] at hhead
          simpa using hhead
      · rintro rfl
        exact hstop (by decide)
    rw [if_neg hopen, readItems_render hall fuel s (by omega)]
    rfl

theorem reads_object {fields : List (Units × Json)} (hnodup : (fields.map Prod.fst).Nodup)
    (hall : ∀ field ∈ fields, Reads field.2) : Reads (.object fields) := by
  intro fuel s _ hfuel
  have hblank := skipBlanks_render (.object fields) s
  rw [render, renderFields_eq_map, List.cons_append, List.append_assoc, List.cons_append,
    List.nil_append] at hfuel hblank ⊢
  rw [List.length_cons] at hfuel
  obtain ⟨fuel, rfl⟩ : ∃ n, fuel = n + 1 := ⟨fuel - 1, by omega⟩
  rw [readValue, hblank]
  dsimp only
  rw [if_neg (by decide), if_neg (by decide), if_pos rfl]
  cases fields with
  | nil =>
    have hclose : skipBlanks (joined (List.map renderField []) ++ unit '\x7d' :: s) =
        unit '\x7d' :: s := skipBlanks_cons (by decide) s
    rw [hclose]
    exact if_pos rfl
  | cons field fields =>
    have hopen : (skipBlanks (joined ((field :: fields).map renderField) ++
        unit '\x7d' :: s)).head? ≠ some (unit '\x7d') := by
      have hhead : (renderField field).head? = some (unit '"') := rfl
      exact skipBlanks_joined hhead (by decide) (by decide)
    rw [if_neg hopen, readFields_render hall fuel s (by omega), Option.map_some,
      objectOf_of_nodup hnodup]

/-- **Every tree** is read back, of which no object has two fields of one key. -/
theorem reads_of_distinctKeys (tree : Json) (h : tree.distinctKeys) : Reads tree := by
  induction tree using Json.induction with
  | null => exact reads_word rfl fun fuel rest hblank => by rw [readValue, hblank]; rfl
  | boolean value =>
    cases value
    · exact reads_word rfl fun fuel rest hblank => by rw [readValue, hblank]; rfl
    · exact reads_word rfl fun fuel rest hblank => by rw [readValue, hblank]; rfl
  | number value => exact reads_number value
  | string value => exact reads_string value
  | array items ih =>
    rw [distinctKeys, distinctItems_iff] at h
    exact reads_array fun item hitem => ih item hitem (h item hitem)
  | object fields ih =>
    rw [distinctKeys, Bool.and_eq_true, decide_eq_true_eq, distinctFields_iff] at h
    exact reads_object h.1 fun field hfield => ih field hfield (h.2 field hfield)

/-- **What is written is read back.** -/
theorem parse_render {tree : Json} (h : tree.distinctKeys) : parse tree.render = some tree := by
  have hread := reads_of_distinctKeys tree h (2 * tree.render.length + 1) []
    (fun c hc => by cases hc) (by rw [List.append_nil]; omega)
  rw [List.append_nil] at hread
  rw [parse, hread, Option.bind_some]
  exact if_pos rfl

end Json

end HoodSentry

/-!
# Natural numbers in JSON

A natural number as a finite number, and the natural number that a finite
number is, if it is one.
-/

namespace HoodSentry

section Naturals

/-- The number that digits are. -/
def digitsValue (digits : List (Fin 10)) : ℕ := Nat.ofDigits 10 (digits.reverse.map Fin.val)

def natDigits (n : ℕ) : List (Fin 10) := ((Nat.digits 10 n).map (Fin.ofNat 10)).reverse

/-- A natural number as a number of JavaScript. -/
def FiniteNumber.ofNat (n : ℕ) : FiniteNumber :=
  numberOf false (natDigits n) (natDigits n).length

/-- A whole number that is not negative. -/
def FiniteNumber.natural? : FiniteNumber → Option ℕ
  | .zero => some 0
  | .decimal x =>
    if x.negative = false ∧ (x.digits.length : ℤ) ≤ x.exponent then
      some (digitsValue x.digits * 10 ^ (x.exponent - x.digits.length).toNat)
    else none

example : numberText (.ofNat 120) = units "120" ∧ (FiniteNumber.ofNat 120).natural? = some 120 := by
  decide +kernel

theorem digitsValue_natDigits (n : ℕ) : digitsValue (natDigits n) = n := by
  have hdigits : ((Nat.digits 10 n).map (Fin.ofNat 10)).map Fin.val = Nat.digits 10 n := by
    rw [List.map_map]
    conv_rhs => rw [← List.map_id (Nat.digits 10 n)]
    refine List.map_congr_left fun d hd => ?_
    exact Nat.mod_eq_of_lt (Nat.digits_lt_base (by decide) hd)
  rw [digitsValue, natDigits, List.reverse_reverse, hdigits, Nat.ofDigits_digits]

theorem digitsValue_append (a b : List (Fin 10)) :
    digitsValue (a ++ b) = digitsValue a * 10 ^ b.length + digitsValue b := by
  rw [digitsValue, List.reverse_append, List.map_append, Nat.ofDigits_append, List.length_map,
    List.length_reverse, digitsValue, digitsValue]
  ring

theorem digitsValue_zeros (k : ℕ) : digitsValue (zeros k) = 0 := by
  rw [digitsValue, zeros, List.reverse_replicate, List.map_replicate]
  exact Nat.ofDigits_replicate_zero

theorem eq_zeros_of_forall {digits : List (Fin 10)} (h : ∀ d ∈ digits, (d == 0) = true) :
    digits = zeros digits.length :=
  List.eq_replicate_of_mem fun d hd => beq_iff_eq.mp (h d hd)

/-- **Digits are the trimmed ones among zeros.** -/
theorem exists_trimZeros (digits : List (Fin 10)) : ∃ b,
    digits = zeros (digits.takeWhile (· == 0)).length ++ (trimZeros digits ++ zeros b) := by
  have hfront : digits.takeWhile (· == 0) = zeros (digits.takeWhile (· == 0)).length := by
    refine eq_zeros_of_forall fun d hd => ?_
    exact @List.mem_takeWhile_imp _ (· == 0) digits d hd
  have hback : (digits.dropWhile (· == 0)).rtakeWhile (· == 0) =
      zeros ((digits.dropWhile (· == 0)).rtakeWhile (· == 0)).length := by
    refine eq_zeros_of_forall fun d hd => ?_
    exact @List.mem_rtakeWhile_imp _ (· == 0) (digits.dropWhile (· == 0)) d hd
  refine ⟨((digits.dropWhile (· == 0)).rtakeWhile (· == 0)).length, ?_⟩
  rw [← hback, ← hfront, trimZeros, List.rdropWhile_append_rtakeWhile,
    List.takeWhile_append_dropWhile]

/-- **A natural number is itself** again. -/
theorem natural?_ofNat (n : ℕ) : (FiniteNumber.ofNat n).natural? = some n := by
  obtain ⟨b, hb⟩ := exists_trimZeros (natDigits n)
  have hvalue := digitsValue_natDigits n
  rw [hb, digitsValue_append, digitsValue_append, digitsValue_zeros, digitsValue_zeros, zero_mul,
    zero_add, add_zero, zeros, List.length_replicate] at hvalue
  have hlength := congrArg List.length hb
  rw [List.length_append, List.length_append, zeros, zeros, List.length_replicate,
    List.length_replicate] at hlength
  unfold FiniteNumber.ofNat numberOf
  by_cases htrim : trimZeros (natDigits n) = []
  · rw [dif_pos htrim]
    rw [htrim] at hvalue
    exact congrArg some (by rw [← hvalue]; exact (zero_mul _).symm)
  · rw [dif_neg htrim]
    have hexponent : (((natDigits n).length : ℤ) -
        ((natDigits n).takeWhile (· == 0)).length - (trimZeros (natDigits n)).length).toNat = b := by
      omega
    have hwhole : ((trimZeros (natDigits n)).length : ℤ) ≤
        (natDigits n).length - ((natDigits n).takeWhile (· == 0)).length := by omega
    rw [FiniteNumber.natural?, if_pos ⟨rfl, hwhole⟩, hexponent, hvalue]

end Naturals

end HoodSentry
