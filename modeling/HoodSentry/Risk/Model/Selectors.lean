import HoodSentry.Chain.Model.Quotes
/-!
# Selectors in a bytecode

The two disassembly loops of `packages/risk-engine`: `hasSelector` of
`privilege-analysis.ts` and `decodeOpcodes` with `containsSelector` of
`proxy-analysis.ts`. A code is the text of a `Hex`, so both loops read
characters, two to a byte; the last byte of an odd text is read from one.
-/

namespace HoodSentry

/-! ## Texts -/

/-- **A `Hex`**: hexadecimal digits behind `0x`, in whatever case, of any
length. -/
structure HexText where
  digits : List Char
  isHex : ∀ c ∈ digits, isHexDigit c = true

theorem HexText.digits_inj {a b : HexText} : a.digits = b.digits ↔ a = b := by
  refine ⟨fun h => ?_, congrArg HexText.digits⟩
  obtain ⟨digits, hdigits⟩ := a
  obtain ⟨digits', hdigits'⟩ := b
  obtain rfl : digits = digits' := h
  rfl

instance : DecidableEq HexText := fun _ _ => decidable_of_iff _ HexText.digits_inj

/-- A function selector: the four bytes of a `Hex`. -/
structure SelectorText extends HexText where
  length : digits.length = 8

/-- `items.slice(start, stop)`, of a text or an array. -/
def slice {α : Type*} (items : List α) (start stop : ℕ) : List α := (items.take stop).drop start

/-- `text.toLowerCase()`. -/
def lowerDigits (text : List Char) : List Char := text.map Char.toLower

/-- The value of a hexadecimal digit. -/
def hexDigitValue (c : Char) : ℕ :=
  if c.toNat ≤ '9'.toNat then c.toNat - '0'.toNat else c.toLower.toNat - 'a'.toNat + 10

/-- `Number.parseInt(text, 16)` on hexadecimal digits; no digit at all is
not a number. -/
def parseHex (text : List Char) : Option ℕ :=
  match text with
  | [] => none
  | c :: rest => some (rest.foldl (fun value d => value * 16 + hexDigitValue d) (hexDigitValue c))

/-! ## The loops -/

/-- The width of a push's operand: `PUSH1` to `PUSH32`. -/
def pushLength (opcode : ℕ) : ℕ :=
  if 0x60 ≤ opcode ∧ opcode ≤ 0x7f then opcode - 0x5f else 0

/-- The loop of `hasSelector`. -/
def hasSelectorFrom (bytes expected : List Char) (offset : ℕ) : Bool :=
  if offset * 2 < bytes.length then
    match parseHex (slice bytes (offset * 2) (offset * 2 + 2)) with
    | none => false
    | some opcode =>
      if opcode = 0x63 ∧ slice bytes ((offset + 1) * 2) ((offset + 5) * 2) = expected then true
      else hasSelectorFrom bytes expected (offset + (1 + pushLength opcode))
  else false
termination_by bytes.length - offset * 2

def hasSelector (bytecode selector : HexText) : Bool :=
  hasSelectorFrom (lowerDigits bytecode.digits) (lowerDigits selector.digits) 0

structure Opcode where
  offset : ℕ
  value : ℕ
  pushData : List Char
deriving DecidableEq

/-- The loop of `decodeOpcodes`. -/
def decodeOpcodesFrom (bytes : List Char) (byteOffset : ℕ) : List Opcode :=
  if byteOffset * 2 < bytes.length then
    match parseHex (slice bytes (byteOffset * 2) (byteOffset * 2 + 2)) with
    | none => []
    | some value =>
      let pushData :=
        slice bytes ((byteOffset + 1) * 2) ((byteOffset + 1 + pushLength value) * 2)
      ⟨byteOffset, value, pushData⟩ ::
        decodeOpcodesFrom bytes (byteOffset + (1 + pushLength value))
  else []
termination_by bytes.length - byteOffset * 2

def decodeOpcodes (code : HexText) : List Opcode := decodeOpcodesFrom code.digits 0

def containsSelector (code selector : HexText) : Bool :=
  let needle := lowerDigits selector.digits
  (decodeOpcodes code).any fun item => decide (item.value = 0x63 ∧ item.pushData = needle)

end HoodSentry
