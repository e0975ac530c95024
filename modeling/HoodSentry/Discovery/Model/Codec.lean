import HoodSentry.Common.JsonParse
/-!
# Stored discovery items

`packages/discovery-engine/src/codec.ts`. A bigint is stored as an object with
the one field `$sentryBigint`, and `JSON.parse` hands the reviver every value
behind what is in it. The values are trees of JSON with bigints; an object has
its own fields in some order, and its `Object.fromEntries(Object.entries(..))`
is it again. `isAddress` and `isHash` are parameters.
-/

namespace HoodSentry

namespace DiscoveryCodec

/-- A JSON value with bigints in it. -/
inductive Value
  | null
  | boolean (value : Bool)
  | number (value : FiniteNumber)
  | string (value : Units)
  | bigint (value : ℤ)
  | array (items : List Value)
  | object (fields : List (Units × Value))

/-- The field that marks a bigint. -/
def bigintKey : Units := units "$sentryBigint"

/-- `record[key]`, none where it is undefined. -/
def field (record : List (Units × Value)) (key : String) : Option Value :=
  (record.find? fun entry => entry.1 = units key).map Prod.snd

/-! ## The replacer -/

mutual

/-- What the replacer makes of a value and of everything in it. -/
def replace : Value → Json
  | .null => .null
  | .boolean value => .boolean value
  | .number value => .number value
  | .string value => .string value
  | .bigint value => .object [(bigintKey, .string (intText value))]
  | .array items => .array (replaceItems items)
  | .object fields => .object (replaceFields fields)

def replaceItems : List Value → List Json
  | [] => []
  | item :: items => replace item :: replaceItems items

def replaceFields : List (Units × Value) → List (Units × Json)
  | [] => []
  | (key, value) :: fields => (key, replace value) :: replaceFields fields

end

/-- `JSON.stringify(value, replacer)`. -/
def stringify (value : Value) : Units := (replace value).render

/-! ## The reviver -/

/-- What the reviver makes of an object, none where `BigInt` throws. It
returns every other value as it is. -/
def reviver (record : List (Units × Value)) : Option Value :=
  if record.length = 1 then
    match field record "$sentryBigint" with
    | some (.string text) => (bigIntOf text).map .bigint
    | _ => some (.object record)
  else some (.object record)

mutual

/-- What the reviver makes of a tree, from the bottom up. -/
def revive : Json → Option Value
  | .null => some .null
  | .boolean value => some (.boolean value)
  | .number value => some (.number value)
  | .string value => some (.string value)
  | .array items => (reviveItems items).map .array
  | .object fields => (reviveFields fields).bind reviver

def reviveItems : List Json → Option (List Value)
  | [] => some []
  | item :: items =>
    (revive item).bind fun item => (reviveItems items).map fun items => item :: items

def reviveFields : List (Units × Json) → Option (List (Units × Value))
  | [] => some []
  | (key, value) :: fields =>
    (revive value).bind fun value => (reviveFields fields).map fun fields => (key, value) :: fields

end

/-! ## The schemas -/

section Schemas

variable (isAddress isHash : Units → Bool)

def isNumber : Option Value → Bool
  | some (.number _) => true
  | _ => false

def isBigint : Option Value → Bool
  | some (.bigint _) => true
  | _ => false

def isBoolean : Option Value → Bool
  | some (.boolean _) => true
  | _ => false

/-- A string that passes a check. -/
def isString (check : Units → Bool) : Option Value → Bool
  | some (.string text) => check text
  | _ => false

/-- An array has no fields but its indices. -/
def isTrending : Option Value → Bool
  | some (.object record) => isBigint (field record "scoreBps")
  | _ => false

def discoveryItemSchema : Value → Bool
  | .object record =>
    isNumber (field record "chainId") && isString isAddress (field record "address") &&
      isBigint (field record "sourceBlockNumber") &&
      isString isHash (field record "sourceBlockHash") &&
      isBoolean (field record "canonical") && isTrending (field record "trending")
  | _ => false

def sponsoredPlacementSchema : Value → Bool
  | .object record =>
    isString (fun _ => true) (field record "placementId") && isNumber (field record "chainId") &&
      isString isAddress (field record "tokenAddress") &&
      isString (fun label => label = units "Sponsored") (field record "label")
  | _ => false

/-! ## Storing and reading -/

/-- Why a stored text is not read. -/
inductive StoredError
  /-- `JSON.parse` throws. -/
  | notJson
  /-- The reviver's `BigInt` throws. -/
  | notBigint
  | malformed (message : String)
deriving DecidableEq

/-- `schema.parse(JSON.parse(serialized, reviver))`. -/
def parseStored (schema : Value → Bool) (message : String) (serialized : Units) :
    Except StoredError Value :=
  match Json.parse serialized with
  | none => .error .notJson
  | some tree =>
    match revive tree with
    | none => .error .notBigint
    | some value => if schema value then .ok value else .error (.malformed message)

def serializeDiscoveryItem (item : Value) : Units := stringify item

def parseDiscoveryItem (serialized : Units) : Except StoredError Value :=
  parseStored (discoveryItemSchema isAddress isHash) "Stored discovery item is malformed" serialized

def serializeSponsoredPlacement (placement : Value) : Units := stringify placement

def parseSponsoredPlacement (serialized : Units) : Except StoredError Value :=
  parseStored (sponsoredPlacementSchema isAddress) "Stored sponsored placement is malformed"
    serialized

end Schemas

end DiscoveryCodec

end HoodSentry
