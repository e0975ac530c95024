import HoodSentry.Common.Search
import HoodSentry.Common.Text
import HoodSentry.Risk.Model.Selectors
/-!
# Parsed Solidity sources

The syntax tree of `packages/risk-engine/src/privilege-types.ts`: what
`parseSoliditySources` finds of a contract, and the contracts an analysis of
one of them takes in (`contractClosure` of `privilege-analysis.ts`).
-/

namespace HoodSentry

inductive SolidityVisibility
  | «public»
  | external
  | internal
  | «private»
deriving DecidableEq

inductive SolidityMutability
  | pure
  | view
  | payable
  | nonpayable
deriving DecidableEq

inductive SolidityFunctionKind
  | function
  | constructor
  | fallback
  | receive
deriving DecidableEq

inductive SolidityContractKind
  | contract
  | interface
  | library
deriving DecidableEq

structure SolidityStateVariable where
  contractName : String
  name : String
  type : String
  visibility : Option SolidityVisibility
  constant : Bool
  immutable : Bool
  declaration : String
  sourcePath : String
  line : ℕ
deriving DecidableEq

structure SolidityModifier where
  contractName : String
  name : String
  parameters : List String
  body : String
  sourcePath : String
  line : ℕ
deriving DecidableEq

structure SolidityFunction where
  contractName : String
  name : String
  signature : String
  selector : Option HexText
  visibility : Option SolidityVisibility
  stateMutability : SolidityMutability
  modifiers : List String
  parameterNames : List String
  body : String
  declaration : String
  sourcePath : String
  line : ℕ
  kind : SolidityFunctionKind
deriving DecidableEq

structure SolidityContractAst where
  name : String
  kind : SolidityContractKind
  abstract : Bool
  inherits : List String
  stateVariables : List SolidityStateVariable
  modifiers : List SolidityModifier
  functions : List SolidityFunction
  sourcePath : String
deriving DecidableEq

structure SoliditySourceAst where
  contracts : List SolidityContractAst
  parseWarnings : List String
deriving DecidableEq

/-- `contractClosure`: all contracts without a name; else those `visit` puts
into the map, in the order it puts them there. Of the contracts of one name
the map it looks them up in has the last (`lastOf`). -/
def contractClosure (ast : SoliditySourceAst) (contractName : Option String) :
    List SolidityContractAst :=
  match contractName with
  | none => ast.contracts
  | some name => search (·.name) (·.inherits) ast.contracts [name] []

end HoodSentry

/-!
## The Solidity parser

`packages/risk-engine/src/solidity-parser.ts`: the tokenizer, and the parser
that scans a file's tokens for contracts and a contract's tokens for its
functions, modifiers and state variables. Texts are read by characters where
the source reads UTF-16 units, and `keccak256` of a text is a parameter.
-/

namespace HoodSentry

/-! ## Tokens -/

structure Token where
  value : String
  line : ℕ
deriving DecidableEq

def isIdentifierStart (c : Char) : Bool :=
  ('A' ≤ c && c ≤ 'Z') || ('a' ≤ c && c ≤ 'z') || c = '_' || c = '$'

def isDigit (c : Char) : Bool := '0' ≤ c && c ≤ '9'

def isIdentifierPart (c : Char) : Bool := isIdentifierStart c || isDigit c

/-- What a number goes on with. -/
def isNumberPart (c : Char) : Bool :=
  ('A' ≤ c && c ≤ 'Z') || ('a' ≤ c && c ≤ 'z') || isDigit c || c = '_' || c = '.'

/-- `IDENTIFIER.test`. -/
def isIdentifier (value : String) : Bool :=
  match value.toList with
  | [] => false
  | c :: rest => isIdentifierStart c && rest.all isIdentifierPart

/-- The rest behind a block comment, and its line. -/
def skipBlockComment : List Char → ℕ → List Char × ℕ
  | [], line => ([], line)
  | '*' :: '/' :: rest, line => (rest, line)
  | c :: rest, line => skipBlockComment rest (if c = '\n' then line + 1 else line)

/-- A string literal behind its opening quote: its text, the rest, the line
the rest begins in. An escaped line break does not count as one. -/
def readString (quote : Char) : List Char → ℕ → List Char × List Char × ℕ
  | [], line => ([], [], line)
  | ['\\'], line => (['\\'], [], line)
  | '\\' :: escaped :: rest, line =>
    let (value, rest', line') := readString quote rest line
    ('\\' :: escaped :: value, rest', line')
  | c :: rest, line =>
    if c = quote then ([c], rest, line)
    else
      let (value, rest', line') := readString quote rest (if c = '\n' then line + 1 else line)
      (c :: value, rest', line')

def threeCharacterOperators : List String := [">>=", "<<="]

def twoCharacterOperators : List String :=
  ["=>", "==", "!=", ">=", "<=", "&&", "||", "++", "--", "+=", "-=", "*=", "/=", "**", "<<", ">>"]

theorem length_skipBlockComment (text : List Char) (line : ℕ) :
    (skipBlockComment text line).1.length ≤ text.length := by
  fun_induction skipBlockComment text line with
  | case1 line => exact Nat.le_refl _
  | case2 line rest =>
    simp only [List.length_cons]
    omega
  | case3 line c rest _ ih =>
    simp only [List.length_cons]
    omega

theorem length_readString (quote : Char) (text : List Char) (line : ℕ) :
    (readString quote text line).2.1.length ≤ text.length := by
  fun_induction readString quote text line with
  | case1 line => exact Nat.le_refl _
  | case2 line => exact Nat.zero_le _
  | case3 line escaped rest value rest' line' h ih =>
    rw [h] at ih
    simp only [List.length_cons] at ih ⊢
    omega
  | case4 line rest =>
    simp only [List.length_cons]
    omega
  | case5 line c rest _ _ _ value rest' line' h ih =>
    rw [h] at ih
    simp only [List.length_cons] at ih ⊢
    omega

/-- `tokenize` from a place in the text, in its line. -/
def tokenizeFrom (text : List Char) (line : ℕ) : List Token :=
  match text with
  | [] => []
  | c :: rest =>
    if isBlank c then tokenizeFrom rest (if c = '\n' then line + 1 else line)
    else if c = '/' ∧ rest.head? = some '/' then
      tokenizeFrom (rest.tail.dropWhile (· ≠ '\n')) line
    else if c = '/' ∧ rest.head? = some '*' then
      tokenizeFrom (skipBlockComment rest.tail line).1 (skipBlockComment rest.tail line).2
    else if c = '"' ∨ c = '\'' then
      ⟨String.ofList (c :: (readString c rest line).1), line⟩ ::
        tokenizeFrom (readString c rest line).2.1 (readString c rest line).2.2
    else if isIdentifierStart c then
      ⟨String.ofList (c :: rest.takeWhile isIdentifierPart), line⟩ ::
        tokenizeFrom (rest.dropWhile isIdentifierPart) line
    else if isDigit c then
      ⟨String.ofList (c :: rest.takeWhile isNumberPart), line⟩ ::
        tokenizeFrom (rest.dropWhile isNumberPart) line
    else if String.ofList (c :: rest.take 2) ∈ threeCharacterOperators then
      ⟨String.ofList (c :: rest.take 2), line⟩ :: tokenizeFrom (rest.drop 2) line
    else if String.ofList (c :: rest.take 1) ∈ twoCharacterOperators then
      ⟨String.ofList (c :: rest.take 1), line⟩ :: tokenizeFrom (rest.drop 1) line
    else ⟨String.ofList [c], line⟩ :: tokenizeFrom rest line
termination_by text.length
decreasing_by
  all_goals simp only [List.length_cons]
  · omega
  · have htail := (List.dropWhile_sublist (p := (· ≠ '\n')) (l := rest.tail)).length_le
    rw [List.length_tail] at htail
    omega
  · have htail := length_skipBlockComment rest.tail line
    rw [List.length_tail] at htail
    omega
  · have hread := length_readString c rest line
    omega
  · have hword := (List.dropWhile_sublist (p := isIdentifierPart) (l := rest)).length_le
    omega
  · have hnumber := (List.dropWhile_sublist (p := isNumberPart) (l := rest)).length_le
    omega
  · rw [List.length_drop]
    omega
  · rw [List.length_drop]
    omega
  · omega

def tokenize (source : String) : List Token := tokenizeFrom source.toList 1

/-- The tokens' texts. -/
def words (tokens : List Token) : List String := tokens.map (·.value)

def joinTokens (tokens : List Token) : String := joinTexts ' ' (words tokens)

/-! ## Brackets -/

/-- The brace that opens a body. -/
def openBrace : String := "\x7b"

/-- The one that closes it. -/
def closeBrace : String := "\x7d"

/-- What a token adds to the depth of its brackets. -/
def depthChange (opening closing value : String) : ℤ :=
  (if value = opening then 1 else 0) - (if value = closing then 1 else 0)

/-- How far the loop of `findMatching` goes from a depth. -/
def findMatchingFrom (opening closing : String) : ℤ → List Token → Option ℕ
  | _, [] => none
  | depth, token :: rest =>
    let depth := depth + depthChange opening closing token.value
    if depth = 0 then some 0
    else (findMatchingFrom opening closing depth rest).map (· + 1)

def findMatching (tokens : List Token) (start : ℕ) (opening closing : String) : Option ℕ :=
  (findMatchingFrom opening closing 0 (tokens.drop start)).map (start + ·)

/-- The loop of `splitAtTopLevel`, with the group it is in. -/
def splitAtTopLevelFrom (separator : String) : List Token → ℤ → ℤ → List Token → List (List Token)
  | current, _, _, [] => [current]
  | current, round, square, token :: rest =>
    let round := round + depthChange "(" ")" token.value
    let square := square + depthChange "[" "]" token.value
    if token.value = separator ∧ round = 0 ∧ square = 0 then
      current :: splitAtTopLevelFrom separator [] round square rest
    else splitAtTopLevelFrom separator (current ++ [token]) round square rest

def splitAtTopLevel (tokens : List Token) (separator : String) : List (List Token) :=
  splitAtTopLevelFrom separator [] 0 0 tokens

/-- The first place from `start` on where a loop that waits for one of these
words stops; the end of the tokens if there is none. -/
def waitFor (tokens : List Token) (start : ℕ) (words : List String) : ℕ :=
  start + (tokens.drop start).findIdx fun token => words.contains token.value

/-- The word at a place. -/
def wordAt (tokens : List Token) (index : ℕ) : Option String := (words tokens)[index]?

/-! ## Functions -/

def storageWords : List String := ["memory", "storage", "calldata", "indexed"]

def FUNCTION_ATTRIBUTES : List String :=
  ["public", "external", "internal", "private", "view", "pure", "payable", "virtual", "override",
    "returns"]

/-- The member of `VISIBILITY` a word is. -/
def visibilityOf : String → Option SolidityVisibility
  | "public" => some .public
  | "external" => some .external
  | "internal" => some .internal
  | "private" => some .private
  | _ => none

/-- `isFunctionKind`. -/
def functionKindOf : String → Option SolidityFunctionKind
  | "function" => some .function
  | "constructor" => some .constructor
  | "fallback" => some .fallback
  | "receive" => some .receive
  | _ => none

def withoutStorage (tokens : List Token) : List Token :=
  tokens.filter fun token => !storageWords.contains token.value

def parameterType (tokens : List Token) : String :=
  let filtered := withoutStorage tokens
  let kept :=
    match filtered.getLast? with
    | none => filtered
    | some last =>
      let previous := (words filtered.dropLast).getLast?
      if isIdentifier last.value ∧ filtered.length > 1 ∧ previous ≠ some "." ∧
          previous ≠ some "]" then filtered.dropLast
      else filtered
  let type := String.join (words kept)
  if type = "uint" then "uint256" else if type = "int" then "int256" else type

def parameterName (tokens : List Token) : String :=
  let filtered := withoutStorage tokens
  match filtered.getLast? with
  | none => ""
  | some last =>
    if !isIdentifier last.value then ""
    else if filtered.length = 1 then ""
    else last.value

/-- The first four bytes of the hash; what `keccak256` gives is a `Hex`. -/
def selectorFor (keccak256 : String → HexText) (signature : String) : HexText where
  digits := (keccak256 signature).digits.take 8
  isHex c hc := (keccak256 signature).isHex c (List.mem_of_mem_take hc)

theorem findMatchingFrom_lt {opening closing : String} {depth : ℤ} {tokens : List Token} {n : ℕ}
    (h : findMatchingFrom opening closing depth tokens = some n) : n < tokens.length := by
  induction tokens generalizing depth n with
  | nil => cases h
  | cons token rest ih =>
    simp only [findMatchingFrom] at h
    split at h
    · cases h
      exact Nat.succ_pos _
    · obtain ⟨m, hm, rfl⟩ := Option.map_eq_some_iff.mp h
      exact Nat.succ_lt_succ (ih hm)

/-- The loop of `functionModifiers`, with the word before. -/
def functionModifiersFrom (previous : Option String) (tokens : List Token) : List String :=
  match tokens with
  | [] => []
  | token :: rest =>
    if !isIdentifier token.value then functionModifiersFrom (some token.value) rest
    else if FUNCTION_ATTRIBUTES.contains token.value then
      functionModifiersFrom (some token.value) rest
    else if previous = some "." then functionModifiersFrom (some token.value) rest
    else if (words rest).head? = some "(" then
      match findMatchingFrom "(" ")" 0 rest with
      | some close => token.value :: functionModifiersFrom (some ")") (rest.drop (close + 1))
      | none => token.value :: functionModifiersFrom (some token.value) rest
    else token.value :: functionModifiersFrom (some token.value) rest
termination_by tokens.length
decreasing_by
  all_goals simp only [List.length_cons, List.length_drop]
  all_goals omega

def functionModifiers (tokens : List Token) : List String := functionModifiersFrom none tokens

def stateMutabilityOf (header : List Token) : SolidityMutability :=
  if header.any fun token => token.value = "pure" then .pure
  else if header.any fun token => token.value = "view" then .view
  else if header.any fun token => token.value = "payable" then .payable
  else .nonpayable

/-- Where the parts of a function lie among the tokens. -/
structure FunctionExtent where
  parametersOpen : ℕ
  parametersClose : ℕ
  headerEnd : ℕ
  bodyClose : Option ℕ
deriving DecidableEq

/-- The index of a function's last token. -/
def FunctionExtent.stop (extent : FunctionExtent) : ℕ := extent.bodyClose.getD extent.headerEnd

/-- The loops of `parseFunction`: they find the parameters, the end of the
header and that of the body, if there is one. -/
def functionExtent (tokens : List Token) (start : ℕ) : Option FunctionExtent :=
  let parametersOpen := waitFor tokens start ["("]
  if wordAt tokens parametersOpen = some "(" then
    match findMatching tokens parametersOpen "(" ")" with
    | none => none
    | some parametersClose =>
      let headerEnd := waitFor tokens (parametersClose + 1) [openBrace, ";"]
      if wordAt tokens headerEnd = some openBrace then
        (findMatching tokens headerEnd openBrace closeBrace).map fun close =>
          ⟨parametersOpen, parametersClose, headerEnd, some close⟩
      else some ⟨parametersOpen, parametersClose, headerEnd, none⟩
  else none

/-- What `parseFunction` makes of the parts. -/
def functionOf (keccak256 : String → HexText) (contractName sourcePath : String)
    (tokens : List Token) (start : ℕ) (keyword : Token) (kind : SolidityFunctionKind)
    (extent : FunctionExtent) : SolidityFunction :=
  let name := if kind = .function then (wordAt tokens (start + 1)).getD "fallback"
    else keyword.value
  let parameterGroups :=
    (splitAtTopLevel (slice tokens (extent.parametersOpen + 1) extent.parametersClose) ",").filter
      (· ≠ [])
  let header := slice tokens (extent.parametersClose + 1) extent.headerEnd
  let body := extent.bodyClose.elim [] (slice tokens (extent.headerEnd + 1))
  let parameterTypes := parameterGroups.map parameterType
  let signature :=
    if kind = .function then name ++ "(" ++ joinTexts ',' parameterTypes ++ ")"
    else keyword.value ++ "()"
  { contractName := contractName
    name := name
    signature := signature
    selector := if kind = .function then some (selectorFor keccak256 signature) else none
    visibility := header.findSome? fun token => visibilityOf token.value
    stateMutability := stateMutabilityOf header
    modifiers := functionModifiers header
    parameterNames := (parameterGroups.map parameterName).filter (· ≠ "")
    body := joinTokens body
    declaration := joinTokens (slice tokens start extent.headerEnd)
    sourcePath := sourcePath
    line := keyword.line
    kind := kind }

/-- `parseFunction`: the function and the index of its last token. -/
def parseFunction (keccak256 : String → HexText) (contractName sourcePath : String)
    (tokens : List Token) (start : ℕ) : Option (SolidityFunction × ℕ) :=
  match tokens[start]? with
  | none => none
  | some keyword =>
    match functionKindOf keyword.value with
    | none => none
    | some kind =>
      (functionExtent tokens (if kind = .function then start + 2 else start + 1)).map fun extent =>
        (functionOf keccak256 contractName sourcePath tokens start keyword kind extent, extent.stop)

/-! ## Contracts -/

/-- The parameters of a modifier, if its name is followed by a list of them. -/
def modifierParameters (tokens : List Token) (start : ℕ) : List String :=
  if wordAt tokens (start + 2) = some "(" then
    match findMatching tokens (start + 2) "(" ")" with
    | none => []
    | some close =>
      ((splitAtTopLevel (slice tokens (start + 3) close) ",").map parameterName).filter (· ≠ "")
  else []

/-- `parseModifier`: the modifier and the index of its last token. -/
def parseModifier (contractName sourcePath : String) (tokens : List Token) (start : ℕ) :
    Option (SolidityModifier × ℕ) :=
  match tokens[start]?, wordAt tokens (start + 1) with
  | some keyword, some name =>
    let bodyOpen := waitFor tokens (start + 2) [openBrace]
    if wordAt tokens bodyOpen = some openBrace then
      (findMatching tokens bodyOpen openBrace closeBrace).map fun bodyClose => ({
        contractName := contractName
        name := name
        parameters := modifierParameters tokens start
        body := joinTokens (slice tokens (bodyOpen + 1) bodyClose)
        sourcePath := sourcePath
        line := keyword.line }, bodyClose)
    else none
  | _, _ => none

def NON_VARIABLE_DECLARATIONS : List String := ["event", "error", "using", "struct", "enum", "type"]

/-- What may be a variable's name. -/
def mayName (token : Token) : Bool :=
  isIdentifier token.value && (visibilityOf token.value).isNone

/-- What is no part of a variable's type. -/
def isVariableAttribute (token : Token) : Bool :=
  (visibilityOf token.value).isSome || ["constant", "immutable", "override"].contains token.value

/-- `parseStateVariable`: the name is the last candidate before the value. -/
def parseStateVariable (contractName sourcePath : String) (declaration : List Token) :
    Option SolidityStateVariable :=
  match declaration with
  | [] => none
  | first :: _ =>
    if NON_VARIABLE_DECLARATIONS.contains first.value then none
    else if declaration.any fun token => token.value = "(" ∧ first.value ≠ "mapping" then none
    else
      let beforeValue := declaration.takeWhile fun token => token.value ≠ "="
      match beforeValue.reverse.dropWhile fun token => !mayName token with
      | [] => none
      | nameToken :: before =>
        let typeTokens := before.reverse.filter fun token => !isVariableAttribute token
        if typeTokens = [] then none
        else some {
          contractName := contractName
          name := nameToken.value
          type := String.join (words typeTokens)
          visibility := declaration.findSome? fun token => visibilityOf token.value
          constant := declaration.any fun token => token.value = "constant"
          immutable := declaration.any fun token => token.value = "immutable"
          declaration := joinTokens declaration
          sourcePath := sourcePath
          line := first.line }

/-- How far the loop that looks for a member's end goes. -/
def memberLengthFrom : ℤ → List Token → ℕ
  | _, [] => 0
  | round, token :: rest =>
    let round := round + depthChange "(" ")" token.value
    if token.value = ";" ∧ round = 0 then 0
    else if token.value = openBrace ∧ round = 0 then
      (findMatchingFrom openBrace closeBrace 0 (token :: rest)).getD 0
    else memberLengthFrom round rest + 1

/-- What `parseContractBody` returns. -/
structure ContractMembers where
  stateVariables : List SolidityStateVariable
  modifiers : List SolidityModifier
  functions : List SolidityFunction
deriving DecidableEq

def ContractMembers.append (a b : ContractMembers) : ContractMembers where
  stateVariables := a.stateVariables ++ b.stateVariables
  modifiers := a.modifiers ++ b.modifiers
  functions := a.functions ++ b.functions

/-- One round of the loop of `parseContractBody`: what it finds at an index,
and the index it goes on with. -/
def parseMember (keccak256 : String → HexText) (name sourcePath : String) (body : List Token)
    (index : ℕ) : ContractMembers × ℕ :=
  match parseFunction keccak256 name sourcePath body index with
  | some (fn, stop) => (⟨[], [], [fn]⟩, stop + 1)
  | none =>
    match if wordAt body index = some "modifier" then parseModifier name sourcePath body index
      else none with
    | some (modifier, stop) => (⟨[], [modifier], []⟩, stop + 1)
    | none =>
      let stop := index + memberLengthFrom 0 (body.drop index)
      (⟨(parseStateVariable name sourcePath (slice body index stop)).toList, [], []⟩, stop + 1)

theorem le_waitFor {tokens : List Token} {start : ℕ} {words : List String} :
    start ≤ waitFor tokens start words := Nat.le_add_right _ _

theorem le_of_findMatching {tokens : List Token} {start stop : ℕ} {opening closing : String}
    (h : findMatching tokens start opening closing = some stop) : start ≤ stop := by
  obtain ⟨n, -, rfl⟩ := Option.map_eq_some_iff.mp h
  exact Nat.le_add_right _ _

theorem start_le_stop {tokens : List Token} {start : ℕ} {extent : FunctionExtent}
    (h : functionExtent tokens start = some extent) : start ≤ extent.stop := by
  unfold functionExtent at h
  dsimp only at h
  split at h
  · split at h
    · cases h
    · rename_i parametersClose hclose
      have hopen := @le_waitFor tokens start ["("]
      have hclose := le_of_findMatching hclose
      have hheader := @le_waitFor tokens (parametersClose + 1) [openBrace, ";"]
      split at h
      · obtain ⟨close, hbody, rfl⟩ := Option.map_eq_some_iff.mp h
        have hbody := le_of_findMatching hbody
        show start ≤ close
        omega
      · cases h
        show start ≤ waitFor tokens (parametersClose + 1) [openBrace, ";"]
        omega
  · cases h

theorem start_lt_parseFunction {keccak256 : String → HexText} {name path : String}
    {tokens : List Token} {start stop : ℕ} {fn : SolidityFunction}
    (h : parseFunction keccak256 name path tokens start = some (fn, stop)) : start < stop := by
  unfold parseFunction at h
  split at h
  · cases h
  · split at h
    · cases h
    · rename_i kind _
      obtain ⟨extent, hextent, heq⟩ := Option.map_eq_some_iff.mp h
      have hle := start_le_stop hextent
      have hstop : extent.stop = stop := congrArg Prod.snd heq
      split at hle <;> omega

theorem start_lt_parseModifier {name path : String} {tokens : List Token} {start stop : ℕ}
    {modifier : SolidityModifier} (h : parseModifier name path tokens start = some (modifier, stop)) :
    start < stop := by
  unfold parseModifier at h
  split at h
  · dsimp only at h
    split at h
    · obtain ⟨close, hclose, heq⟩ := Option.map_eq_some_iff.mp h
      have hopen := @le_waitFor tokens (start + 2) [openBrace]
      have hclose := le_of_findMatching hclose
      have hstop : close = stop := congrArg Prod.snd heq
      omega
    · cases h
  · cases h

/-- **Each round goes on behind where it began.** -/
theorem index_lt_parseMember {keccak256 : String → HexText} {name path : String}
    {body : List Token} {index : ℕ} :
    index < (parseMember keccak256 name path body index).2 := by
  unfold parseMember
  split
  · rename_i fn stop hfn
    exact Nat.lt_succ_of_lt (start_lt_parseFunction hfn)
  · split
    · rename_i modifier stop hmodifier
      split at hmodifier
      · exact Nat.lt_succ_of_lt (start_lt_parseModifier hmodifier)
      · cases hmodifier
    · dsimp only
      omega

/-- The loop of `parseContractBody` from an index. -/
def parseContractBodyFrom (keccak256 : String → HexText) (name sourcePath : String)
    (body : List Token) (index : ℕ) : ContractMembers :=
  if index < body.length then
    let member := parseMember keccak256 name sourcePath body index
    member.1.append (parseContractBodyFrom keccak256 name sourcePath body member.2)
  else ⟨[], [], []⟩
termination_by body.length - index
decreasing_by
  have hlt := @index_lt_parseMember keccak256 name sourcePath body index
  omega

def parseContractBody (keccak256 : String → HexText) (name sourcePath : String)
    (body : List Token) : ContractMembers := parseContractBodyFrom keccak256 name sourcePath body 0

/-! ## Files -/

/-- `isContractKind`. -/
def contractKindOf : String → Option SolidityContractKind
  | "contract" => some .contract
  | "interface" => some .interface
  | "library" => some .library
  | _ => none

/-- The first identifier of each group behind `is`. -/
def inheritsOf (header : List Token) : List String :=
  (splitAtTopLevel (header.dropWhile fun token => token.value ≠ "is").tail ",").filterMap
    fun group => (group.find? fun token => isIdentifier token.value).map (·.value)

/-- The place of the keyword in a round of the loop of `parseFile`. -/
def keywordPlace (tokens : List Token) (index : ℕ) : ℕ :=
  if wordAt tokens index = some "abstract" ∧ wordAt tokens (index + 1) = some "contract" then
    index + 1
  else index

/-- Where the braces of a contract lie among the tokens. -/
structure ContractExtent where
  kind : SolidityContractKind
  name : String
  bodyOpen : ℕ
  bodyClose : ℕ
deriving DecidableEq

/-- The contract whose keyword is at a place, or the warnings without one. -/
def contractExtent (path : String) (tokens : List Token) (place : ℕ) :
    Except (List String) ContractExtent :=
  match tokens[place]? with
  | none => .error []
  | some keyword =>
    match contractKindOf keyword.value with
    | none => .error []
    | some kind =>
      let location := path ++ ":" ++ toString keyword.line
      match (wordAt tokens (place + 1)).filter isIdentifier with
      | none => .error [location ++ " has a contract declaration without a name"]
      | some name =>
        let bodyOpen := waitFor tokens (place + 2) [openBrace]
        if wordAt tokens bodyOpen = some openBrace then
          match findMatching tokens bodyOpen openBrace closeBrace with
          | none => .error [location ++ " has an unbalanced contract body"]
          | some bodyClose => .ok ⟨kind, name, bodyOpen, bodyClose⟩
        else .error [location ++ " has an unterminated " ++ keyword.value]

/-- The tokens inside a contract's braces. -/
def ContractExtent.body (extent : ContractExtent) (tokens : List Token) : List Token :=
  slice tokens (extent.bodyOpen + 1) extent.bodyClose

/-- What `parseFile` makes of a contract. -/
def contractOf (keccak256 : String → HexText) (path : String) (tokens : List Token)
    (index : ℕ) (extent : ContractExtent) : SolidityContractAst :=
  let place := keywordPlace tokens index
  let members := parseContractBody keccak256 extent.name path (extent.body tokens)
  { name := extent.name
    kind := extent.kind
    abstract := place ≠ index
    inherits := inheritsOf (slice tokens (place + 2) extent.bodyOpen)
    stateVariables := members.stateVariables
    modifiers := members.modifiers
    functions := members.functions
    sourcePath := path }

def SoliditySourceAst.append (a b : SoliditySourceAst) : SoliditySourceAst where
  contracts := a.contracts ++ b.contracts
  parseWarnings := a.parseWarnings ++ b.parseWarnings

/-- One round of the loop of `parseFile`: what it adds, and the index it goes
on with. -/
def parseContract (keccak256 : String → HexText) (path : String) (tokens : List Token)
    (index : ℕ) : SoliditySourceAst × ℕ :=
  match contractExtent path tokens (keywordPlace tokens index) with
  | .error warnings => (⟨[], warnings⟩, keywordPlace tokens index + 1)
  | .ok extent => (⟨[contractOf keccak256 path tokens index extent], []⟩, extent.bodyClose + 1)

theorem le_keywordPlace {tokens : List Token} {index : ℕ} :
    index ≤ keywordPlace tokens index := by
  rw [keywordPlace]
  split
  · exact Nat.le_succ index
  · exact Nat.le_refl index

/-- A contract's braces lie behind its keyword, in order. -/
theorem contractExtent_bounds {path : String} {tokens : List Token} {place : ℕ}
    {extent : ContractExtent} (h : contractExtent path tokens place = .ok extent) :
    place + 2 ≤ extent.bodyOpen ∧ extent.bodyOpen ≤ extent.bodyClose := by
  unfold contractExtent at h
  split at h
  · cases h
  split at h
  · cases h
  dsimp only at h
  split at h
  · cases h
  split at h
  · split at h
    · cases h
    · rename_i hclose
      cases h
      exact ⟨le_waitFor, le_of_findMatching hclose⟩
  · cases h

/-- **Each round goes on behind where it began.** -/
theorem index_lt_parseContract {keccak256 : String → HexText} {path : String}
    {tokens : List Token} {index : ℕ} :
    index < (parseContract keccak256 path tokens index).2 := by
  have hplace := @le_keywordPlace tokens index
  unfold parseContract
  split
  · exact Nat.lt_succ_of_le hplace
  · rename_i extent hextent
    have hbounds := contractExtent_bounds hextent
    dsimp only
    omega

/-- The loop of `parseFile` from an index. -/
def parseFileFrom (keccak256 : String → HexText) (path : String) (tokens : List Token)
    (index : ℕ) : SoliditySourceAst :=
  if index < tokens.length then
    let round := parseContract keccak256 path tokens index
    round.1.append (parseFileFrom keccak256 path tokens round.2)
  else ⟨[], []⟩
termination_by tokens.length - index
decreasing_by
  have hlt := @index_lt_parseContract keccak256 path tokens index
  omega

/-- `parseFile`, of a file's tokens. -/
def parseFile (keccak256 : String → HexText) (path : String) (tokens : List Token) :
    SoliditySourceAst := parseFileFrom keccak256 path tokens 0

end HoodSentry

/-!
## Who may call a function, and what it writes

`functionRole` and `controlledStateVariables` of
`packages/risk-engine/src/privilege-analysis.ts`. Both read texts by regular
expressions, which stand here as matchers on characters: a matcher is asked
at each place of the text, from the left.
-/

namespace HoodSentry

/-- `\w`. -/
def isWordCharacter (c : Char) : Bool :=
  ('A' ≤ c && c ≤ 'Z') || ('a' ≤ c && c ≤ 'z') || isDigit c || c = '_'

/-! ## Roles -/

/-- `onlyRole\s*\(\s*([A-Za-z0-9_$]+)` at the beginning of a text: what the
group captures. -/
def matchRole (text : List Char) : Option (List Char) :=
  if "onlyRole".toList.isPrefixOf text then
    let afterSpace := (text.drop 8).dropWhile isBlank
    let role := (afterSpace.tail.dropWhile isBlank).takeWhile isIdentifierPart
    if afterSpace.head? = some '(' ∧ role ≠ [] then some role else none
  else none

/-- `/onlyRole\s*\(\s*([A-Za-z0-9_$]+)/.exec`: the first match. -/
def execRole (text : List Char) : Option (List Char) := text.tails.findSome? matchRole

/-- The words of `/(admin|govern|operator|minter|manager|auth|controller)/i`. -/
def authorityWords : List String :=
  ["admin", "govern", "operator", "minter", "manager", "auth", "controller"]

def namesAuthority (modifier : String) : Bool :=
  authorityWords.any fun word => decide (word.toList <:+: modifier.toList.map Char.toLower)

def functionRole (fn : SolidityFunction) : String :=
  match execRole fn.declaration.toList with
  | some role => String.ofList role
  | none =>
    if fn.modifiers.any fun modifier => modifier.toList.map Char.toLower = "onlyowner".toList then
      "owner"
    else (fn.modifiers.find? namesAuthority).getD "unrestricted"

/-! ## Written variables -/

/-- `\b` between two characters, or an end of the text. -/
def isBoundary (before after : Option Char) : Bool :=
  (before.any isWordCharacter) != (after.any isWordCharacter)

/-- `(?:=|\+=|-=|\*=|/=|\+\+|--)` at the beginning of a text. -/
def startsWithAssignment (text : List Char) : Bool :=
  ["=", "+=", "-=", "*=", "/=", "++", "--"].any fun operator => operator.toList.isPrefixOf text

/-- `(?:\s*\[[^\]]+\])?\s*(?:=|…|--)`: an index or none, and an operator. -/
def assignedHere (text : List Char) : Bool :=
  let afterSpace := text.dropWhile isBlank
  let inner := afterSpace.tail
  startsWithAssignment afterSpace ||
    (afterSpace.head? == some '[' && inner.takeWhile (· ≠ ']') ≠ [] && inner.contains ']' &&
      startsWithAssignment ((inner.dropWhile (· ≠ ']')).tail.dropWhile isBlank))

/-- The whole pattern of a name at a place of a text, which a character or
none comes before. -/
def assignmentAt (name : List Char) (before : Option Char) (text : List Char) : Bool :=
  name.isPrefixOf text && isBoundary before text.head? &&
    isBoundary (name.getLast?.or before) (text.drop name.length).head? &&
    assignedHere (text.drop name.length)

/-- `assignment.test`: at some place of the text. -/
def testAssignment (name : List Char) : Option Char → List Char → Bool
  | before, [] => assignmentAt name before []
  | before, c :: rest =>
    assignmentAt name before (c :: rest) || testAssignment name (some c) rest

def controlledStateVariables (fn : SolidityFunction) (stateVariables : List SolidityStateVariable) :
    List SolidityStateVariable :=
  stateVariables.filter fun v => testAssignment v.name.toList none fn.body.toList

end HoodSentry
