import HoodSentry.Common.Text
/-!
# Redaction of logged values

`packages/observability/src/redact.ts`. The patterns are matched on characters,
and ignoring case is ignoring the case of the ASCII letters. A key `__proto__`
of the result is no own field, since the assignment sets the prototype.
-/

namespace HoodSentry

namespace Redact

/-! ## Patterns -/

/-- The text starts with the word, in any case. -/
def startsWithWord (word : List Char) (text : List Char) : Bool :=
  match word, text with
  | [], _ => true
  | _ :: _, [] => false
  | w :: word, c :: text => c.toLower = w && startsWithWord word text

/-- The text has the word somewhere, in any case. -/
def hasWord (word : List Char) : List Char → Bool
  | [] => startsWithWord word []
  | c :: text => startsWithWord word (c :: text) || hasWord word text

/-- A pattern that ignores case: one of these words somewhere. -/
def testsAny (words : List String) (text : String) : Bool :=
  words.any fun word => hasWord word.toList text.toList

/-- Two words with `[_-]?` between them. -/
def separated (left right : String) : List String :=
  [left ++ right, left ++ "_" ++ right, left ++ "-" ++ right]

def SECRET_KEY_PATTERNS : List String :=
  ["password", "secret", "token"] ++ separated "api" "key" ++ separated "private" "key" ++
    ["authorization", "cookie", "session"] ++ separated "access" "key" ++ ["mnemonic"] ++
    separated "seed" "phrase" ++ separated "signing" "key" ++ separated "encryption" "key" ++
    separated "webhook" "secret" ++ separated "client" "secret" ++ separated "refresh" "token" ++
    ["bearer"]

def PII_KEY_PATTERNS : List String :=
  ["email", "phone", "ssn"] ++ separated "social" "security" ++ separated "credit" "card" ++
    separated "ip" "address"

def isHexDigit (c : Char) : Bool :=
  ('a' ≤ c && c ≤ 'f') || ('A' ≤ c && c ≤ 'F') || ('0' ≤ c && c ≤ '9')

/-- `0x` and so many hex digits. -/
def isHexText (digits : ℕ) (value : String) : Bool :=
  value.toList.take 2 = ['0', 'x'] && (value.toList.drop 2).length = digits &&
    (value.toList.drop 2).all isHexDigit

def SIGNATURE_PATTERN (value : String) : Bool := isHexText 130 value

def PRIVATE_KEY_PATTERN (value : String) : Bool := isHexText 64 value

def SESSION_COOKIE_WORDS : List String := ["connect.sid=", "session_id=", "sessionid="]

def SESSION_COOKIE_PATTERN (value : String) : Bool := testsAny SESSION_COOKIE_WORDS value

/-- `\w`. -/
def isWordChar (c : Char) : Bool := c.isAlphanum || c = '_'

/-- `[^\s&]`. -/
def isValueChar (c : Char) : Bool := !isBlank c && c ≠ '&'

def PARAMETER_WORDS : List String := ["key", "token", "apikey", "api_key"]

/-- The word of a parameter, its `=` and a character of its value. -/
def startsParameter (word : List Char) (text : List Char) : Bool :=
  startsWithWord (word ++ ['=']) text && (text[word.length + 1]?).any isValueChar

/-- `\b(key|token|apikey|api_key)=[^\s&]+` at the begin of a text that stands
behind `previous`. -/
def parameterAt (previous : Option Char) (text : List Char) : Option String :=
  if previous.any isWordChar then none
  else PARAMETER_WORDS.find? fun word => startsParameter word.toList text

/-- `[^\s]*` and then a parameter. -/
def reachesParameter : Option Char → List Char → Bool
  | _, [] => false
  | previous, c :: text =>
    (parameterAt previous (c :: text)).isSome || (!isBlank c && reachesParameter (some c) text)

/-- A scheme, and a parameter behind no white space. -/
def hasKeyedUrl : List Char → Bool
  | [] => false
  | c :: text =>
    (["http://", "https://"].any fun scheme =>
      startsWithWord scheme.toList (c :: text) &&
        reachesParameter (some '/') ((c :: text).drop scheme.toList.length)) || hasKeyedUrl text

def PROVIDER_URL_WITH_KEY_PATTERN (value : String) : Bool := hasKeyedUrl value.toList

/-! ## Strings -/

def REDACTED : String := "[REDACTED]"

def REDACTED_PII : String := "[PII_REDACTED]"

def TRUNCATED_SUFFIX : String := "…"

/-- `replace(/(\b(?:key|token|apikey|api_key))=([^\s&]+)/gi, '$1=[REDACTED]')`. -/
def replaceParameters (previous : Option Char) (text : List Char) : List Char :=
  match text with
  | [] => []
  | c :: rest =>
    match parameterAt previous (c :: rest) with
    | none => c :: replaceParameters (some c) rest
    | some word =>
      let value := (c :: rest).drop (word.toList.length + 1)
      (c :: rest).take (word.toList.length + 1) ++ REDACTED.toList ++
        replaceParameters (value.takeWhile isValueChar).getLast? (value.dropWhile isValueChar)
termination_by text.length
decreasing_by
  · exact Nat.lt_succ_self _
  · refine lt_of_le_of_lt (List.dropWhile_sublist _).length_le ?_
    rw [List.length_drop, List.length_cons]
    omega

def redactStringValue (key value : String) : String :=
  if SIGNATURE_PATTERN value then
    String.ofList (value.toList.take 10) ++ TRUNCATED_SUFFIX ++ "[sig]"
  else if PRIVATE_KEY_PATTERN value && testsAny ["key", "secret", "private"] key then REDACTED
  else if SESSION_COOKIE_PATTERN value then REDACTED
  else if PROVIDER_URL_WITH_KEY_PATTERN value then
    String.ofList (replaceParameters none value.toList)
  else value

def isSecretKey (key : String) : Bool := testsAny SECRET_KEY_PATTERNS key

def isPiiKey (key : String) : Bool := testsAny PII_KEY_PATTERNS key

/-! ## Values -/

/-- A logged value: a primitive that is no string is of any type. -/
inductive LogValue (π : Type)
  | primitive (value : π)
  | string (value : String)
  | array (items : List (LogValue π))
  | object (fields : List (String × LogValue π))

variable {π : Type}

mutual

def redactSecrets : LogValue π → LogValue π
  | .primitive value => .primitive value
  | .string value => .string value
  | .array items => .array (redactItems items)
  | .object fields => .object (redactFields fields)

def redactItems : List (LogValue π) → List (LogValue π)
  | [] => []
  | item :: items => redactSecrets item :: redactItems items

/-- The own fields of the result. -/
def redactFields : List (String × LogValue π) → List (String × LogValue π)
  | [] => []
  | (key, value) :: fields =>
    let redacted :=
      if isSecretKey key then .string REDACTED
      else if isPiiKey key then .string REDACTED_PII
      else
        match value with
        | .string value => .string (redactStringValue key value)
        | value => redactSecrets value
    if key = "__proto__" then redactFields fields else (key, redacted) :: redactFields fields

end

end Redact

end HoodSentry
