import HoodSentry.Common.Instructions
import HoodSentry.Risk.Model.Selectors
/-!
# Which selectors a bytecode carries

Both loops walk the code by the widths of its instructions
(`hasSelectorFrom_eq`, `decodeOpcodesFrom_eq`), and widths do not depend on
the case of the digits, so both meet the same boundaries. At a boundary they
compare differently: `hasSelector` lower-cases the code as well as the
selector, `containsSelector` the selector only, so it finds what the code
writes in lower case.
-/

namespace HoodSentry

variable {bytes expected : List Char} {offset : ℕ}

/-! ## What stands at an offset -/

/-- The byte at an offset. -/
def byteAt (bytes : List Char) (offset : ℕ) : ℕ :=
  (parseHex (slice bytes (offset * 2) (offset * 2 + 2))).getD 0

/-- The width of the operand of the instruction at an offset. -/
def operandWidth (bytes : List Char) (offset : ℕ) : ℕ := pushLength (byteAt bytes offset)

/-- The bytes of a text, an odd digit at its end counted as one. -/
def byteCount (bytes : List Char) : ℕ := (bytes.length + 1) / 2

/-- The operand of the instruction at an offset. -/
def operandAt (bytes : List Char) (offset : ℕ) : List Char :=
  slice bytes ((offset + 1) * 2) ((offset + 1 + operandWidth bytes offset) * 2)

/-- **A `PUSH4` of a word** at an offset, digit for digit. -/
def Pushes (bytes word : List Char) (offset : ℕ) : Prop :=
  byteAt bytes offset = 0x63 ∧ slice bytes ((offset + 1) * 2) ((offset + 5) * 2) = word
deriving Decidable

theorem parseHex_of_lt (h : offset * 2 < bytes.length) :
    parseHex (slice bytes (offset * 2) (offset * 2 + 2)) = some (byteAt bytes offset) := by
  have hne : slice bytes (offset * 2) (offset * 2 + 2) ≠ [] := by
    intro hnil
    have hlen := congrArg List.length hnil
    rw [slice, List.length_drop, List.length_take, List.length_nil] at hlen
    omega
  rw [byteAt]
  cases htext : slice bytes (offset * 2) (offset * 2 + 2) with
  | nil => exact absurd htext hne
  | cons c rest => rfl

theorem lt_byteCount_iff : offset < byteCount bytes ↔ offset * 2 < bytes.length := by
  unfold byteCount
  omega

/-- A `PUSH4` has an operand of four bytes. -/
theorem operandAt_of_push4 (h : byteAt bytes offset = 0x63) :
    operandAt bytes offset = slice bytes ((offset + 1) * 2) ((offset + 5) * 2) := by
  have hwidth : operandWidth bytes offset = 4 := by
    rw [operandWidth, h]
    rfl
  rw [operandAt, hwidth]

/-! ## The loops are walks -/

/-- **`hasSelector` looks at every instruction it walks over.** -/
theorem hasSelectorFrom_eq : hasSelectorFrom bytes expected offset =
    (boundariesFrom (operandWidth bytes) (byteCount bytes) offset).any
      fun o => decide (Pushes bytes expected o) := by
  induction offset using boundariesFrom.induct (operandWidth bytes)
    (byteCount bytes) with
  | case1 offset hlt ih =>
    rw [hasSelectorFrom, if_pos (lt_byteCount_iff.mp hlt),
      parseHex_of_lt (lt_byteCount_iff.mp hlt), boundariesFrom_of_lt hlt, List.any_cons]
    dsimp only
    by_cases hpush : Pushes bytes expected offset
    · rw [if_pos (show _ ∧ _ from hpush), decide_eq_true hpush, Bool.true_or]
    · rw [if_neg (show ¬(_ ∧ _) from hpush), decide_eq_false hpush, Bool.false_or, ← ih,
        operandWidth, Nat.add_assoc]
  | case2 offset hle =>
    rw [hasSelectorFrom, if_neg (fun h => hle (lt_byteCount_iff.mpr h)),
      boundariesFrom_of_le (by omega)]
    rfl

/-- **`decodeOpcodes` lists every instruction it walks over.** -/
theorem decodeOpcodesFrom_eq : decodeOpcodesFrom bytes offset =
    (boundariesFrom (operandWidth bytes) (byteCount bytes) offset).map
      fun o => ⟨o, byteAt bytes o, operandAt bytes o⟩ := by
  induction offset using boundariesFrom.induct (operandWidth bytes)
    (byteCount bytes) with
  | case1 offset hlt ih =>
    rw [decodeOpcodesFrom, if_pos (lt_byteCount_iff.mp hlt),
      parseHex_of_lt (lt_byteCount_iff.mp hlt), boundariesFrom_of_lt hlt, List.map_cons, ← ih]
    dsimp only
    rw [operandAt, operandWidth, Nat.add_assoc offset 1]
  | case2 offset hle =>
    rw [decodeOpcodesFrom, if_neg (fun h => hle (lt_byteCount_iff.mpr h)),
      boundariesFrom_of_le (by omega)]
    rfl

/-! ## The case of the digits -/

theorem hexDigitValue_toLower {c : Char} (h : isHexDigit c = true) :
    hexDigitValue c.toLower = hexDigitValue c :=
  @forall_hexDigit (fun c => hexDigitValue c.toLower = hexDigitValue c) (by decide) c h

theorem slice_lowerDigits {start stop : ℕ} :
    slice (lowerDigits bytes) start stop = lowerDigits (slice bytes start stop) := by
  rw [lowerDigits, lowerDigits, slice, slice, ← List.map_take, ← List.map_drop]

theorem parseHex_lowerDigits (h : ∀ c ∈ bytes, isHexDigit c = true) :
    parseHex (lowerDigits bytes) = parseHex bytes := by
  have hfold : ∀ (text : List Char) (value : ℕ), (∀ c ∈ text, isHexDigit c = true) →
      (text.map Char.toLower).foldl (fun value d => value * 16 + hexDigitValue d) value =
        text.foldl (fun value d => value * 16 + hexDigitValue d) value := by
    intro text
    induction text with
    | nil => intro value _; rfl
    | cons c rest ih =>
      intro value hall
      rw [List.map_cons, List.foldl_cons, List.foldl_cons,
        hexDigitValue_toLower (hall c List.mem_cons_self)]
      exact ih _ fun d hd => hall d (List.mem_cons_of_mem c hd)
  cases bytes with
  | nil => rfl
  | cons c rest =>
    rw [lowerDigits, List.map_cons, parseHex, parseHex,
      hexDigitValue_toLower (h c List.mem_cons_self),
      hfold rest _ fun d hd => h d (List.mem_cons_of_mem c hd)]

/-- Upper case and lower case are the same bytes. -/
theorem byteAt_lowerDigits (h : ∀ c ∈ bytes, isHexDigit c = true) (offset : ℕ) :
    byteAt (lowerDigits bytes) offset = byteAt bytes offset := by
  have hslice : ∀ c ∈ slice bytes (offset * 2) (offset * 2 + 2), isHexDigit c = true :=
    fun c hc => h c (List.mem_of_mem_take (List.mem_of_mem_drop hc))
  rw [byteAt, byteAt, slice_lowerDigits, parseHex_lowerDigits hslice]

/-- The same instructions. -/
theorem operandWidth_lowerDigits (h : ∀ c ∈ bytes, isHexDigit c = true) :
    operandWidth (lowerDigits bytes) = operandWidth bytes :=
  funext fun offset => congrArg pushLength (byteAt_lowerDigits h offset)

theorem byteCount_lowerDigits : byteCount (lowerDigits bytes) = byteCount bytes := by
  rw [byteCount, lowerDigits, List.length_map, byteCount]

/-- A push lies inside the code. -/
theorem Pushes.lt_byteCount {word : List Char} (h : Pushes bytes word offset) :
    offset < byteCount bytes := by
  by_contra hout
  have hlen : bytes.length ≤ offset * 2 := by
    unfold byteCount at hout
    omega
  have hnil : slice bytes (offset * 2) (offset * 2 + 2) = [] := by
    rw [slice, List.drop_eq_nil_iff, List.length_take]
    omega
  have hbyte : byteAt bytes offset = 0 := by
    rw [byteAt, hnil]
    rfl
  rw [h.1] at hbyte
  cases hbyte

/-! ## The scanners -/

variable {code : HexText} {selector : SelectorText}

/-- Where the instructions of a code start. -/
def HexText.Instruction (code : HexText) (offset : ℕ) : Prop :=
  Boundary (operandWidth code.digits) (byteCount code.digits) offset

/-- **A code carries a selector**: some instruction is a `PUSH4` of its four
bytes, whatever the case of the digits. -/
def HexText.Carries (code : HexText) (selector : SelectorText) : Prop :=
  ∃ offset, code.Instruction offset ∧
    Pushes (lowerDigits code.digits) (lowerDigits selector.digits) offset

/-- Some instruction is a `PUSH4` of them written in lower case. -/
def HexText.CarriesInLowerCase (code : HexText) (selector : SelectorText) : Prop :=
  ∃ offset, code.Instruction offset ∧ Pushes code.digits (lowerDigits selector.digits) offset

/-- **`hasSelector` finds what the code carries.** -/
theorem hasSelector_iff : hasSelector code selector.toHexText = true ↔ code.Carries selector := by
  rw [hasSelector, hasSelectorFrom_eq, List.any_eq_true, operandWidth_lowerDigits code.isHex,
    byteCount_lowerDigits]
  constructor
  · rintro ⟨offset, hmem, hpush⟩
    exact ⟨offset, (mem_boundariesFrom_zero.mp hmem).1, of_decide_eq_true hpush⟩
  · rintro ⟨offset, hinstr, hpush⟩
    have hin : offset < byteCount code.digits := byteCount_lowerDigits ▸ hpush.lt_byteCount
    exact ⟨offset, mem_boundariesFrom_zero.mpr ⟨hinstr, hin⟩, decide_eq_true hpush⟩

/-- **`containsSelector` finds what the code writes in lower case.** -/
theorem containsSelector_iff :
    containsSelector code selector.toHexText = true ↔ code.CarriesInLowerCase selector := by
  rw [containsSelector, decodeOpcodes, decodeOpcodesFrom_eq, List.any_map, List.any_eq_true]
  constructor
  · rintro ⟨offset, hmem, hitem⟩
    obtain ⟨hbyte, hdata⟩ := of_decide_eq_true hitem
    exact ⟨offset, (mem_boundariesFrom_zero.mp hmem).1, hbyte,
      (operandAt_of_push4 hbyte).symm.trans hdata⟩
  · rintro ⟨offset, hinstr, hpush⟩
    refine ⟨offset, mem_boundariesFrom_zero.mpr ⟨hinstr, hpush.lt_byteCount⟩,
      decide_eq_true ⟨hpush.1, ?_⟩⟩
    exact (operandAt_of_push4 hpush.1).trans hpush.2

/-- What is written in lower case is carried. -/
theorem HexText.CarriesInLowerCase.carries (h : code.CarriesInLowerCase selector) :
    code.Carries selector := by
  obtain ⟨offset, hinstr, hpush⟩ := h
  refine ⟨offset, hinstr, (byteAt_lowerDigits code.isHex offset).trans hpush.1, ?_⟩
  rw [slice_lowerDigits, hpush.2, lowerDigits, lowerDigits, List.map_map]
  exact List.map_congr_left fun c hc => toLower_toLower (selector.isHex c hc)

/-- **The two scanners agree** on a selector, and on what carries it, exactly
when a code that carries it writes it in lower case somewhere. -/
theorem selectorScanners_agree_iff (code : HexText) (selector : SelectorText) :
    (hasSelector code selector.toHexText = containsSelector code selector.toHexText ∧
      (hasSelector code selector.toHexText = true ↔ code.Carries selector) ∧
      (containsSelector code selector.toHexText = true ↔ code.Carries selector)) ↔
    (code.Carries selector → code.CarriesInLowerCase selector) := by
  constructor
  · rintro ⟨-, -, hcontains⟩ hcarries
    exact containsSelector_iff.mp (hcontains.mpr hcarries)
  · intro hlower
    have hcontains : containsSelector code selector.toHexText = true ↔ code.Carries selector :=
      containsSelector_iff.trans ⟨HexText.CarriesInLowerCase.carries, hlower⟩
    exact ⟨Bool.eq_iff_iff.mpr (hasSelector_iff.trans hcontains.symm), hasSelector_iff, hcontains⟩

/-- `PUSH4 0xAABBCCDD`, in upper case. -/
def upperCaseCode : HexText where
  digits := ['6', '3', 'A', 'A', 'B', 'B', 'C', 'C', 'D', 'D']
  isHex := by simp [isHexDigit]

/-- The selector it pushes. -/
def pushedSelector : SelectorText where
  digits := ['a', 'a', 'b', 'b', 'c', 'c', 'd', 'd']
  isHex := by simp [isHexDigit]
  length := rfl

/-- `containsSelector` misses it. -/
theorem not_selectorScanners_agree :
    ¬(hasSelector upperCaseCode pushedSelector.toHexText =
        containsSelector upperCaseCode pushedSelector.toHexText ∧
      (hasSelector upperCaseCode pushedSelector.toHexText = true ↔
        upperCaseCode.Carries pushedSelector) ∧
      (containsSelector upperCaseCode pushedSelector.toHexText = true ↔
        upperCaseCode.Carries pushedSelector)) := by
  rintro ⟨hsame, -, -⟩
  have hhas : hasSelector upperCaseCode pushedSelector.toHexText = true :=
    hasSelector_iff.mpr ⟨0, .start, by decide⟩
  have hdecoded : decodeOpcodes upperCaseCode =
      [⟨0, 0x63, ['A', 'A', 'B', 'B', 'C', 'C', 'D', 'D']⟩] := by
    rw [decodeOpcodes, decodeOpcodesFrom_eq, boundariesFrom_of_lt (by decide),
      boundariesFrom_of_le (by decide)]
    rfl
  have hcontains : containsSelector upperCaseCode pushedSelector.toHexText = false := by
    rw [containsSelector, hdecoded]
    decide
  rw [hhas, hcontains] at hsame
  cases hsame

end HoodSentry
