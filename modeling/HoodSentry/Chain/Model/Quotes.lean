import HoodSentry.Common.Text
/-!
# Quotes, routes and prepared transactions

The types of `packages/chain/src/protocol-adapters/types.ts` that a quote
passes through, and the errors of `errors.ts`. What an adapter fingerprints
is text, so addresses are kept here as the texts they are, compared without
regard to case where the source lower-cases them.
-/

namespace HoodSentry

/-! ## Texts -/

def isHexDigit (c : Char) : Bool :=
  ('0' ≤ c && c ≤ '9') || ('a' ≤ c && c ≤ 'f') || ('A' ≤ c && c ≤ 'F')

/-- What holds of the ASCII hexadecimal digits holds of all. -/
theorem forall_hexDigit {P : Char → Prop}
    (h : ∀ n < 128, isHexDigit (Char.ofNat n) = true → P (Char.ofNat n)) {c : Char}
    (hc : isHexDigit c = true) : P c := by
  have hcases : c ≤ '9' ∨ c ≤ 'f' ∨ c ≤ 'F' := by
    simp only [isHexDigit, Bool.or_eq_true, Bool.and_eq_true, decide_eq_true_eq] at hc
    tauto
  have hle : ∀ d : Char, c ≤ d → c.toNat ≤ d.toNat := fun _ hd => hd
  have hsmall : c.toNat < 128 := by
    rcases hcases with hd | hd | hd
    · exact lt_of_le_of_lt (hle _ hd) (by decide)
    · exact lt_of_le_of_lt (hle _ hd) (by decide)
    · exact lt_of_le_of_lt (hle _ hd) (by decide)
  have hself := h c.toNat hsmall
  rw [Char.ofNat_toNat] at hself
  exact hself hc

theorem toLower_toLower {c : Char} (h : isHexDigit c = true) :
    c.toLower.toLower = c.toLower :=
  @forall_hexDigit (fun c => c.toLower.toLower = c.toLower) (by decide) c h

theorem isHexDigit_toLower {c : Char} (h : isHexDigit c = true) : isHexDigit c.toLower = true :=
  @forall_hexDigit (fun c => isHexDigit c.toLower = true) (by decide) c h

/-- **An address as written**: `0x` and forty hexadecimal digits, in
whatever case. -/
structure AddressText where
  digits : List Char
  isHex : ∀ c ∈ digits, isHexDigit c = true
  length : digits.length = 40
deriving DecidableEq

namespace AddressText

def text (a : AddressText) : String := String.ofList ('0' :: 'x' :: a.digits)

/-- `toLowerCase`, without the `0x`. -/
def lower (a : AddressText) : List Char := a.digits.map Char.toLower

/-- The same address. -/
def Same (a b : AddressText) : Prop := a.lower = b.lower
deriving Decidable

end AddressText

/-- An address of one digit throughout. -/
def repeatedAddress (c : Char) (hc : isHexDigit c = true) : AddressText where
  digits := List.replicate 40 c
  isHex d hd := by rw [List.eq_of_mem_replicate hd, hc]
  length := List.length_replicate

/-- The characters a fingerprint joins its parts by. -/
def separators : List Char := ['|', ':', '>']

/-- **A protocol key or version of the registry**, free of separators. -/
structure ProtocolName where
  text : String
  free : ∀ c ∈ separators, c ∉ text.toList
deriving DecidableEq

/-- The registry's protocol, and its version. -/
def ProtocolName.uniswap : ProtocolName := ⟨"uniswap", by simp [separators]⟩

def ProtocolName.v2 : ProtocolName := ⟨"v2", by simp [separators]⟩

/-- What `randomUUID` leaves without its dashes. -/
structure RandomText where
  digits : List Char
  isHex : ∀ c ∈ digits, isHexDigit c = true
deriving DecidableEq

/-- `generateId` of `packages/shared/src/id.ts`. -/
def generateId (name : String) (random : RandomText) : String :=
  name ++ "_" ++ String.ofList random.digits

/-! ## Dates -/

/-- What ends as the calendar day of a number of days since 1970-01-01. -/
structure CivilDate where
  year : ℤ
  month : ℕ
  day : ℕ
deriving DecidableEq

/-- The proleptic Gregorian calendar, over eras of 400 years from 1 March. -/
def civilFromDays (days : ℤ) : CivilDate :=
  let z := days + 719468
  let dayOfEra := (z % 146097).toNat
  let yearOfEra :=
    (dayOfEra - dayOfEra / 1460 + dayOfEra / 36524 - dayOfEra / 146096) / 365
  let dayOfYear := dayOfEra - (365 * yearOfEra + yearOfEra / 4 - yearOfEra / 100)
  let shifted := (5 * dayOfYear + 2) / 153
  let month := if shifted < 10 then shifted + 3 else shifted - 9
  { year := yearOfEra + z / 146097 * 400 + if month ≤ 2 then 1 else 0
    month
    day := dayOfYear - (153 * shifted + 2) / 5 + 1 }

/-- A number in at least `width` digits. -/
def padDigits (width n : ℕ) : List Char :=
  List.replicate (width - (Nat.toDigits 10 n).length) '0' ++ Nat.toDigits 10 n

/-- Years outside four digits carry a sign and six. -/
def yearDigits (year : ℤ) : List Char :=
  if 0 ≤ year ∧ year ≤ 9999 then padDigits 4 year.toNat
  else if 0 ≤ year then '+' :: padDigits 6 year.toNat
  else '-' :: padDigits 6 (-year).toNat

/-- `Date.prototype.toISOString` of a time in milliseconds. -/
def isoText (ms : ℤ) : String :=
  let date := civilFromDays (ms / 86400000)
  let ofDay := (ms % 86400000).toNat
  String.ofList (yearDigits date.year ++ '-' :: padDigits 2 date.month ++ '-' ::
    padDigits 2 date.day ++ 'T' :: padDigits 2 (ofDay / 3600000) ++ ':' ::
    padDigits 2 (ofDay / 60000 % 60) ++ ':' :: padDigits 2 (ofDay / 1000 % 60) ++ '.' ::
    padDigits 3 (ofDay % 1000) ++ ['Z'])

/-- The times a `Date` holds. -/
def ValidTime (ms : ℤ) : Prop := -8640000000000000 ≤ ms ∧ ms ≤ 8640000000000000
deriving Decidable

/-- The whole milliseconds a `Date` keeps of a number. -/
def truncateTime (ms : ℚ) : ℤ := if 0 ≤ ms then ⌊ms⌋ else ⌈ms⌉

/-! ## Errors -/

/-- The errors an adapter throws, and `other` for those of what it calls. -/
inductive AdapterError
  | unverifiedProtocolContract (message : String)
  | unsupportedFeeTier (message : String)
  | unknownPool (message : String)
  | quoteValidation (message : String)
  | transactionPreparation (message : String)
  | other (message : String)
deriving DecidableEq

def UnsupportedFeeTierError (protocol version : String) (fee : ℤ) : AdapterError :=
  .unsupportedFeeTier (protocol ++ " " ++ version ++ " does not support fee tier " ++ fee.repr)

def UnknownPoolError (address : AddressText) : AdapterError :=
  .unknownPool ("No active protocol adapter owns pool " ++ address.text)

/-! ## Types -/

namespace UniswapV2

inductive PoolType
  | constantProduct
  | concentratedLiquidity
  | stableSwap
  | bondingCurve
  | rfq
  | unknown
deriving DecidableEq

/-- What adapters and routes read of a pool. -/
structure NormalizedPool where
  chainId : ℤ
  protocolKey : String
  protocolVersion : String
  poolAddress : AddressText
  factoryAddress : AddressText
  token0Address : AddressText
  token1Address : AddressText
  feeTier : Option ℤ
  poolType : PoolType
  canonical : Bool
deriving DecidableEq

end UniswapV2

structure NormalizedRouteStep where
  protocolKey : String
  protocolVersion : String
  poolAddress : AddressText
  inputTokenAddress : AddressText
  outputTokenAddress : AddressText
  feeTier : Option ℤ
deriving DecidableEq

inductive WarningSeverity
  | info
  | warning
  | critical
deriving DecidableEq

structure QuoteWarning where
  code : String
  message : String
  severity : WarningSeverity
deriving DecidableEq

structure QuoteRequest where
  chainId : ℤ
  protocolKey : String
  inputTokenAddress : AddressText
  outputTokenAddress : AddressText
  amountInRaw : ℤ
  minimumAmountOutRaw : ℤ
  route : List NormalizedRouteStep
  ttlSeconds : Option ℚ
deriving DecidableEq

structure NormalizedQuote where
  quoteId : String
  chainId : ℤ
  protocolKey : String
  protocolVersion : String
  inputTokenAddress : AddressText
  outputTokenAddress : AddressText
  amountInRaw : ℤ
  expectedAmountOutRaw : ℤ
  minimumAmountOutRaw : ℤ
  priceImpactBps : Option ℤ
  protocolFeeRaw : Option ℤ
  route : List NormalizedRouteStep
  spenderAddress : Option AddressText
  transactionTarget : AddressText
  transactionSelector : String
  sourceBlockNumber : ℤ
  createdAt : String
  expiresAt : String
  warnings : List QuoteWarning
deriving DecidableEq

structure ProtocolSimulationResult where
  success : Bool
  gasUsed : ℕ
  returnValue : String
  error : Option String
deriving DecidableEq

inductive ChangeDirection
  | increase
  | decrease
deriving DecidableEq

structure ExpectedStateChange where
  assetAddress : AddressText
  accountAddress : AddressText
  direction : ChangeDirection
  amountRaw : ℤ
deriving DecidableEq

/-- The intent a prepared transaction states. -/
structure PreparedIntent where
  inputTokenAddress : AddressText
  outputTokenAddress : AddressText
  amountInRaw : ℤ
  minimumAmountOutRaw : ℤ
  recipientAddress : AddressText
  route : List NormalizedRouteStep
deriving DecidableEq

structure PreparedProtocolTransaction where
  chainId : ℤ
  protocolKey : String
  protocolVersion : String
  toAddress : AddressText
  data : String
  value : ℤ
  spenderAddress : Option AddressText
  functionSelector : String
  deadline : ℤ
  quoteId : String
  simulation : ProtocolSimulationResult
  warnings : List QuoteWarning
  expectedStateChanges : List ExpectedStateChange
  intent : PreparedIntent
deriving DecidableEq

end HoodSentry
