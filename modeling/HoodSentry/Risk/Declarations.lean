import HoodSentry.Risk.Brackets
import HoodSentry.Risk.Tokens
/-!
# Function declarations

The grammar of a function's declaration as words: its keyword, name and
parameters, a header of attributes, overridden bases, modifier invocations
and a return list, and its body. Read back by the parser, the parts lie
where the grammar puts them as long as no modifier's argument holds a brace
(`functionExtent_of_words`): the scan for the end of the header stops at the
first one.
-/

namespace HoodSentry

/-! ## Names -/

/-- A name the author chooses; the attributes are reserved words. -/
def IsName (w : String) : Prop := isIdentifier w = true ∧ w ∉ FUNCTION_ATTRIBUTES
deriving Decidable

/-- The name of a modifier or of a contract, with the names it is found
under. -/
structure IdentifierPath where
  head : String
  members : List String
  isName : ∀ w ∈ head :: members, IsName w

namespace IdentifierPath

def words (path : IdentifierPath) : List String :=
  path.head :: path.members.flatMap fun name => [".", name]

def text (path : IdentifierPath) : String := joinTexts '.' (path.head :: path.members)

end IdentifierPath

/-! ## Headers -/

/-- The attributes without an operand. -/
def plainAttributes : List String :=
  ["public", "external", "internal", "private", "view", "pure", "payable", "virtual"]

/-- A word that neither opens nor closes a body nor ends a statement. -/
def BodyFree (w : String) : Prop := w ≠ openBrace ∧ w ≠ closeBrace ∧ w ≠ ";"
deriving Decidable

/-- The words of a modifier's arguments: expressions, so without a statement's
end. -/
structure Arguments where
  words : List String
  nested : Nested "(" ")" words
  nestedBraces : Nested openBrace closeBrace words
  noStatement : ";" ∉ words

/-- The words of a return list, which begins with a type's name. -/
structure ReturnList where
  first : String
  rest : List String
  isName : IsName first
  nested : Nested "(" ")" (first :: rest)
  bodyFree : ∀ w ∈ rest, BodyFree w

/-- **What a header is made of.** -/
inductive HeaderItem
  | flag (word : String) (known : word ∈ plainAttributes)
  | override (bases : List IdentifierPath)
  | invocation (path : IdentifierPath) (arguments : Option Arguments)
  | returns (parameters : ReturnList)

/-- Words in parentheses. -/
def parenthesised (ws : List String) : List String := "(" :: (ws ++ [")"])

/-- Lists of words with commas between them. -/
def commaSeparated (groups : List (List String)) : List String := [","].intercalate groups

namespace HeaderItem

def words : HeaderItem → List String
  | flag word _ => [word]
  | override [] => ["override"]
  | override (base :: bases) =>
    "override" :: parenthesised (commaSeparated ((base :: bases).map (·.words)))
  | invocation path none => path.words
  | invocation path (some arguments) => path.words ++ parenthesised arguments.words
  | returns parameters => "returns" :: parenthesised (parameters.first :: parameters.rest)

/-- The modifier an item invokes. -/
def invoked : HeaderItem → List String
  | invocation path _ => [path.text]
  | _ => []

/-- A brace in a modifier's arguments. -/
def Cut : HeaderItem → Prop
  | invocation _ (some arguments) => openBrace ∈ arguments.words
  | _ => False

/-- An item whose words hold no name but the modifier it invokes: no return
list, no overridden base and no modifier found under another name. -/
def Clear : HeaderItem → Prop
  | flag _ _ => True
  | override bases => bases = []
  | invocation path _ => path.members = []
  | returns _ => False

end HeaderItem

/-! ## Declarations -/

def keywordOf : SolidityFunctionKind → String
  | .function => "function"
  | .constructor => "constructor"
  | .fallback => "fallback"
  | .receive => "receive"

/-- **A function's declaration.** -/
structure FunctionDeclaration where
  kind : SolidityFunctionKind
  name : String
  parameters : List String
  header : List HeaderItem
  body : Option (List String)
  isName : IsName name
  nested : Nested "(" ")" parameters
  lexemes : ∀ w ∈ parameters, Lexeme w ∧ ¬ IsLiteral w
  nestedBody : ∀ b ∈ body, Nested openBrace closeBrace b

/-! A function may have no parameters, and no body. -/

theorem nested_noParameters : Nested "(" ")" [] := nested_of_free (List.forall_mem_nil _)

theorem lexemes_noParameters : ∀ w ∈ ([] : List String), Lexeme w ∧ ¬ IsLiteral w :=
  List.forall_mem_nil _

theorem nestedBody_none :
    ∀ b ∈ (none : Option (List String)), Nested openBrace closeBrace b := by
  intro b hb
  exact absurd hb (Option.not_mem_none b)

namespace FunctionDeclaration

/-- The words before the parameters. -/
def opening (f : FunctionDeclaration) : List String :=
  if f.kind = .function then [keywordOf f.kind, f.name] else [keywordOf f.kind]

def headerWords (f : FunctionDeclaration) : List String := f.header.flatMap (·.words)

def bodyWords (f : FunctionDeclaration) : List String :=
  match f.body with
  | none => [";"]
  | some body => openBrace :: (body ++ [closeBrace])

def words (f : FunctionDeclaration) : List String :=
  f.opening ++ parenthesised f.parameters ++ f.headerWords ++ f.bodyWords

/-- The modifiers its header invokes, in order. -/
def invoked (f : FunctionDeclaration) : List String := f.header.flatMap (·.invoked)

/-- Its header is cut short at a brace in a modifier's arguments. -/
def Cut (f : FunctionDeclaration) : Prop := ∃ item ∈ f.header, item.Cut

end FunctionDeclaration

/-! ## Words of a header -/

variable {w : String}

theorem ne_of_isIdentifier (h : isIdentifier w = true) :
    BodyFree w ∧ w ≠ "(" ∧ w ≠ ")" ∧ w ≠ "," ∧ w ≠ "." := by
  refine ⟨⟨?_, ?_, ?_⟩, ?_, ?_, ?_, ?_⟩
  all_goals
    rintro rfl
    exact absurd h (by decide)

theorem IdentifierPath.mem_words {path : IdentifierPath} (h : w ∈ path.words) :
    w = "." ∨ IsName w := by
  rcases List.mem_cons.mp h with rfl | hrest
  · exact .inr (path.isName _ List.mem_cons_self)
  · obtain ⟨name, hname, hw⟩ := List.mem_flatMap.mp hrest
    rcases List.mem_cons.mp hw with rfl | hw
    · exact .inl rfl
    · obtain rfl := List.mem_singleton.mp hw
      exact .inr (path.isName w (List.mem_cons_of_mem _ hname))

theorem IdentifierPath.bodyFree {path : IdentifierPath} (h : w ∈ path.words) : BodyFree w := by
  rcases path.mem_words h with rfl | hname
  · decide
  · exact (ne_of_isIdentifier hname.1).1

theorem mem_commaSeparated {groups : List (List String)} (h : w ∈ commaSeparated groups) :
    w = "," ∨ ∃ group ∈ groups, w ∈ group := by
  induction groups with
  | nil => cases h
  | cons group groups ih =>
    cases groups with
    | nil =>
      rw [commaSeparated, List.intercalate_singleton] at h
      exact .inr ⟨group, List.mem_singleton_self _, h⟩
    | cons next groups =>
      rw [commaSeparated, List.intercalate_cons_cons, List.mem_append, List.mem_append] at h
      rcases h with (hgroup | hcomma) | hrest
      · exact .inr ⟨group, List.mem_cons_self, hgroup⟩
      · exact .inl (List.mem_singleton.mp hcomma)
      · rcases ih hrest with hcomma | ⟨other, hother, hw⟩
        · exact .inl hcomma
        · exact .inr ⟨other, List.mem_cons_of_mem _ hother, hw⟩

theorem mem_parenthesised {ws : List String} :
    w ∈ parenthesised ws ↔ w = "(" ∨ w ∈ ws ∨ w = ")" := by
  rw [parenthesised, List.mem_cons, List.mem_append, List.mem_singleton]

/-- Outside of a modifier's arguments no word of an item opens or closes a
body. -/
theorem HeaderItem.bodyFree_or {item : HeaderItem} (h : w ∈ item.words) :
    BodyFree w ∨ ∃ path arguments, item = .invocation path (some arguments) ∧
      w ∈ arguments.words := by
  cases item with
  | flag word known =>
    obtain rfl := List.mem_singleton.mp h
    have hall : ∀ w ∈ plainAttributes, BodyFree w := by decide
    exact .inl (hall w known)
  | override bases =>
    cases bases with
    | nil =>
      obtain rfl := List.mem_singleton.mp h
      exact .inl (by decide)
    | cons base bases =>
      rcases List.mem_cons.mp h with rfl | h
      · exact .inl (by decide)
      rcases mem_parenthesised.mp h with rfl | h | rfl
      · exact .inl (by decide)
      · rcases mem_commaSeparated h with rfl | ⟨group, hgroup, hw⟩
        · exact .inl (by decide)
        · obtain ⟨path, -, rfl⟩ := List.mem_map.mp hgroup
          exact .inl (path.bodyFree hw)
      · exact .inl (by decide)
  | invocation path arguments =>
    cases arguments with
    | none => exact .inl (path.bodyFree h)
    | some arguments =>
      rcases List.mem_append.mp h with h | h
      · exact .inl (path.bodyFree h)
      rcases mem_parenthesised.mp h with rfl | h | rfl
      · exact .inl (by decide)
      · exact .inr ⟨path, arguments, rfl, h⟩
      · exact .inl (by decide)
  | returns parameters =>
    rcases List.mem_cons.mp h with rfl | h
    · exact .inl (by decide)
    rcases mem_parenthesised.mp h with rfl | h | rfl
    · exact .inl (by decide)
    · rcases List.mem_cons.mp h with rfl | h
      · exact .inl (ne_of_isIdentifier parameters.isName.1).1
      · exact .inl (parameters.bodyFree w h)
    · exact .inl (by decide)

/-- An item that is not cut holds no brace and no statement's end. -/
theorem HeaderItem.bodyFree {item : HeaderItem} (hcut : ¬ item.Cut) (h : w ∈ item.words) :
    w ≠ openBrace ∧ w ≠ ";" := by
  rcases item.bodyFree_or h with hfree | ⟨path, arguments, rfl, hw⟩
  · exact ⟨hfree.1, hfree.2.2⟩
  · refine ⟨?_, fun heq => arguments.noStatement (heq ▸ hw)⟩
    rintro rfl
    exact hcut hw

theorem HeaderItem.ne_semicolon {item : HeaderItem} (h : w ∈ item.words) : w ≠ ";" := by
  rcases item.bodyFree_or h with hfree | ⟨path, arguments, rfl, hw⟩
  · exact hfree.2.2
  · exact fun heq => arguments.noStatement (heq ▸ hw)

theorem HeaderItem.nestedBraces (item : HeaderItem) :
    Nested openBrace closeBrace item.words := by
  by_cases hargs : ∃ path arguments, item = .invocation path (some arguments)
  · obtain ⟨path, arguments, rfl⟩ := hargs
    have hpath : Nested openBrace closeBrace path.words :=
      nested_of_free fun w hw => ⟨(path.bodyFree hw).1, (path.bodyFree hw).2.1⟩
    have hround : ∀ w ∈ ["(", ")"], w ≠ openBrace ∧ w ≠ closeBrace := by decide
    refine hpath.append ?_
    have hopen : Nested openBrace closeBrace ["("] :=
      nested_of_free fun w hw => hround w (List.mem_of_mem_take (i := 1) hw)
    have hclose : Nested openBrace closeBrace [")"] :=
      nested_of_free fun w hw => hround w (List.mem_of_mem_drop (i := 1) hw)
    exact hopen.append (arguments.nestedBraces.append hclose)
  · refine nested_of_free fun w hw => ?_
    rcases item.bodyFree_or hw with hfree | ⟨path, arguments, hitem, -⟩
    · exact ⟨hfree.1, hfree.2.1⟩
    · exact absurd ⟨path, arguments, hitem⟩ hargs

/-! ## Where the parts lie -/

variable {f : FunctionDeclaration} {tokens : List Token} {before after : List String}

theorem openBrace_ne : openBrace ≠ closeBrace := by decide

theorem nested_headerWords (f : FunctionDeclaration) :
    Nested openBrace closeBrace f.headerWords := by
  have hitems : ∀ items : List HeaderItem,
      Nested openBrace closeBrace (items.flatMap (·.words)) := by
    intro items
    induction items with
    | nil => exact nested_of_free (List.forall_mem_nil _)
    | cons item items ih =>
      rw [List.flatMap_cons]
      exact item.nestedBraces.append ih
  exact hitems f.header

/-- The place of the parameters' closing parenthesis. -/
def FunctionDeclaration.close (f : FunctionDeclaration) (start : ℕ) : ℕ :=
  start + f.opening.length + f.parameters.length + 1

/-- The end of the header. -/
def FunctionDeclaration.headerEnd (f : FunctionDeclaration) (start : ℕ) : ℕ :=
  f.close start + 1 + f.headerWords.length

/-- The words up to the end of the parameters. -/
def FunctionDeclaration.prototype (f : FunctionDeclaration) : List String :=
  f.opening ++ parenthesised f.parameters

theorem length_prototype (start : ℕ) :
    start + f.prototype.length = f.close start + 1 := by
  simp only [FunctionDeclaration.prototype, parenthesised, FunctionDeclaration.close,
    List.length_append, List.length_cons, List.length_nil]
  omega

theorem opens_of_words (hwords : words tokens = before ++ f.words ++ after) :
    waitFor tokens (before.length + f.opening.length) ["("] =
        before.length + f.opening.length ∧
      wordAt tokens (before.length + f.opening.length) = some "(" ∧
      findMatching tokens (before.length + f.opening.length) "(" ")" =
        some (f.close before.length) := by
  have hopen : words tokens = (before ++ f.opening) ++
      "(" :: (f.parameters ++ ")" :: (f.headerWords ++ f.bodyWords ++ after)) := by
    rw [hwords, FunctionDeclaration.words, parenthesised]
    simp
  have hlength : before.length + f.opening.length = (before ++ f.opening).length :=
    List.length_append.symm
  rw [hlength]
  refine ⟨?_, wordAt_of_words hopen, ?_⟩
  · have hopen' : words tokens = (before ++ f.opening) ++
        ([] ++ "(" :: (f.parameters ++ ")" :: (f.headerWords ++ f.bodyWords ++ after))) := hopen
    exact waitFor_of_words hopen' (List.mem_singleton_self _) (List.forall_mem_nil _)
  · rw [findMatching_of_words (by decide) hopen f.nested, FunctionDeclaration.close, hlength]

theorem header_of_words (hwords : words tokens = before ++ f.words ++ after) :
    words tokens = (before ++ f.prototype) ++ (f.headerWords ++ (f.bodyWords ++ after)) := by
  rw [hwords, FunctionDeclaration.words, FunctionDeclaration.prototype]
  simp only [List.append_assoc]

/-- The end of the whole declaration. -/
theorem exists_bodyClose (hwords : words tokens = before ++ f.words ++ after)
    (hcut : ¬ f.Cut) :
    waitFor tokens (f.close before.length + 1) [openBrace, ";"] = f.headerEnd before.length ∧
      ((f.body = none ∧ wordAt tokens (f.headerEnd before.length) = some ";") ∨
        ∃ body, f.body = some body ∧
          wordAt tokens (f.headerEnd before.length) = some openBrace ∧
          findMatching tokens (f.headerEnd before.length) openBrace closeBrace =
            some (f.headerEnd before.length + body.length + 1)) := by
  have hheader := header_of_words hwords
  have hstart : f.close before.length + 1 = (before ++ f.prototype).length := by
    rw [List.length_append, length_prototype]
  have hend : f.headerEnd before.length =
      (before ++ f.prototype ++ f.headerWords).length := by
    rw [List.length_append, ← hstart, FunctionDeclaration.headerEnd]
  have hfree : ∀ w ∈ f.headerWords, w ∉ [openBrace, ";"] := by
    intro w hw
    obtain ⟨item, hitem, hin⟩ := List.mem_flatMap.mp hw
    have hne := item.bodyFree (fun h => hcut ⟨item, hitem, h⟩) hin
    simp [hne.1, hne.2]
  cases hbody : f.body with
  | none =>
    have hwords' : words tokens = (before ++ f.prototype) ++ (f.headerWords ++ ";" :: after) := by
      rw [hheader, FunctionDeclaration.bodyWords, hbody]
      rfl
    have hwords'' : words tokens = (before ++ f.prototype ++ f.headerWords) ++ ";" :: after := by
      rw [hwords']
      simp only [List.append_assoc]
    refine ⟨?_, .inl ⟨rfl, ?_⟩⟩
    · rw [hstart, waitFor_of_words hwords' (by decide) hfree, ← List.length_append, hend]
    · rw [hend]
      exact wordAt_of_words hwords''
  | some body =>
    have hwords' : words tokens = (before ++ f.prototype) ++
        (f.headerWords ++ openBrace :: (body ++ closeBrace :: after)) := by
      rw [hheader, FunctionDeclaration.bodyWords, hbody]
      simp
    have hwords'' : words tokens = (before ++ f.prototype ++ f.headerWords) ++
        openBrace :: (body ++ closeBrace :: after) := by
      rw [hwords']
      simp only [List.append_assoc]
    refine ⟨?_, .inr ⟨body, rfl, ?_, ?_⟩⟩
    · rw [hstart, waitFor_of_words hwords' (by decide) hfree, ← List.length_append, hend]
    · rw [hend]
      exact wordAt_of_words hwords''
    · rw [hend]
      exact findMatching_of_words openBrace_ne hwords'' (f.nestedBody body hbody)

/-- **The parts lie where the grammar puts them**, if the header is not cut. -/
theorem functionExtent_of_words (hwords : words tokens = before ++ f.words ++ after)
    (hcut : ¬ f.Cut) :
    functionExtent tokens (before.length + f.opening.length) =
      some ⟨before.length + f.opening.length, f.close before.length, f.headerEnd before.length,
        f.body.map fun body => f.headerEnd before.length + body.length + 1⟩ := by
  obtain ⟨hopen, hparen, hclose⟩ := opens_of_words hwords
  obtain ⟨hend, ⟨hnone, hword⟩ | ⟨body, hsome, hword, hbody⟩⟩ := exists_bodyClose hwords hcut
  · rw [functionExtent, hopen, if_pos hparen, hclose]
    dsimp only
    rw [hend, hword, hnone]
    exact if_neg (by decide)
  · rw [functionExtent, hopen, if_pos hparen, hclose]
    dsimp only
    rw [hend, hword, hsome, if_pos rfl, hbody]
    rfl

/-- **The parameters are found in any header**: where it is cut, the brace it
is cut at has its closing one. -/
theorem exists_functionExtent (hwords : words tokens = before ++ f.words ++ after) :
    ∃ extent, functionExtent tokens (before.length + f.opening.length) = some extent ∧
      extent.parametersOpen = before.length + f.opening.length ∧
      extent.parametersClose = f.close before.length := by
  by_cases hcut : f.Cut
  · obtain ⟨hopen, hparen, hclose⟩ := opens_of_words hwords
    have hmem : openBrace ∈ f.headerWords := by
      obtain ⟨item, hitem, hin⟩ := hcut
      refine List.mem_flatMap.mpr ⟨item, hitem, ?_⟩
      cases item with
      | flag word known => cases hin
      | override bases => cases hin
      | invocation path arguments =>
        cases arguments with
        | none => cases hin
        | some arguments =>
          exact List.mem_append_right _ (mem_parenthesised.mpr (.inr (.inl hin)))
      | returns parameters => cases hin
    obtain ⟨a, b, hsplit, ha⟩ := List.eq_append_cons_of_mem hmem
    have hwords' : words tokens = (before ++ f.prototype) ++
        (a ++ openBrace :: (b ++ (f.bodyWords ++ after))) := by
      rw [header_of_words hwords, hsplit]
      simp only [List.append_assoc, List.cons_append]
    have hfree : ∀ w ∈ a, w ∉ [openBrace, ";"] := by
      intro w hw
      have hin : w ∈ f.headerWords := by
        rw [hsplit]
        exact List.mem_append_left _ hw
      obtain ⟨item, -, hitem⟩ := List.mem_flatMap.mp hin
      have hsemicolon := item.ne_semicolon hitem
      have hbrace : w ≠ openBrace := fun heq => ha (heq ▸ hw)
      simp [hsemicolon, hbrace]
    have hstart : f.close before.length + 1 = (before ++ f.prototype).length := by
      rw [List.length_append, length_prototype]
    have hwait : waitFor tokens (f.close before.length + 1) [openBrace, ";"] =
        (before ++ f.prototype ++ a).length := by
      rw [hstart, waitFor_of_words hwords' (by decide) hfree, ← List.length_append]
    have hwords'' : words tokens = (before ++ f.prototype) ++ a ++
        openBrace :: (b ++ (f.bodyWords ++ after)) := by
      rw [hwords']
      simp only [List.append_assoc]
    have hword : wordAt tokens (before ++ f.prototype ++ a).length = some openBrace :=
      wordAt_of_words hwords''
    obtain ⟨stop, hstop⟩ := Option.isSome_iff_exists.mp
      (findMatching_isSome openBrace_ne hwords'' (hsplit ▸ nested_headerWords f))
    refine ⟨⟨before.length + f.opening.length, f.close before.length,
      (before ++ f.prototype ++ a).length, some stop⟩, ?_, rfl, rfl⟩
    rw [functionExtent, hopen, if_pos hparen, hclose]
    dsimp only
    rw [hwait, hword, if_pos rfl, hstop]
    rfl
  · exact ⟨_, functionExtent_of_words hwords hcut, rfl, rfl⟩

/-! ## What is parsed -/

theorem functionKindOf_keywordOf (kind : SolidityFunctionKind) :
    functionKindOf (keywordOf kind) = some kind := by
  cases kind <;> rfl

/-- **A declaration is parsed**, from the parts its extent gives. -/
theorem parseFunction_of_words (keccak256 : String → HexText) (contractName sourcePath : String)
    (hwords : words tokens = before ++ f.words ++ after) {extent : FunctionExtent}
    (hextent : functionExtent tokens (before.length + f.opening.length) = some extent) :
    ∃ keyword, keyword.value = keywordOf f.kind ∧
      parseFunction keccak256 contractName sourcePath tokens before.length =
        some (functionOf keccak256 contractName sourcePath tokens before.length keyword f.kind extent,
          extent.stop) := by
  have hfirst : ∃ rest, f.words = keywordOf f.kind :: rest := by
    rw [FunctionDeclaration.words, FunctionDeclaration.opening]
    split
    · exact ⟨_, rfl⟩
    · exact ⟨_, rfl⟩
  obtain ⟨rest, hrest⟩ := hfirst
  have hsplit : words tokens = before ++ keywordOf f.kind :: (rest ++ after) := by
    rw [hwords, hrest, List.append_assoc, List.cons_append]
  have hword : (words tokens)[before.length]? = some (keywordOf f.kind) :=
    wordAt_of_words hsplit
  rw [words, List.getElem?_map, Option.map_eq_some_iff] at hword
  obtain ⟨keyword, hkeyword, hvalue⟩ := hword
  have hstart : (if f.kind = .function then before.length + 2 else before.length + 1) =
      before.length + f.opening.length := by
    rw [FunctionDeclaration.opening]
    split
    · rfl
    · rfl
  refine ⟨keyword, hvalue, ?_⟩
  rw [parseFunction, hkeyword]
  dsimp only
  rw [hvalue, functionKindOf_keywordOf]
  dsimp only
  rw [hstart, hextent]
  rfl

theorem words_parameters (hwords : words tokens = before ++ f.words ++ after) :
    words (slice tokens (before.length + f.opening.length + 1) (f.close before.length)) =
      f.parameters := by
  have hsplit : words tokens = (before ++ f.opening ++ ["("]) ++ f.parameters ++
      (")" :: (f.headerWords ++ f.bodyWords ++ after)) := by
    rw [hwords, FunctionDeclaration.words, parenthesised]
    simp
  have hstart : before.length + f.opening.length + 1 = (before ++ f.opening ++ ["("]).length := by
    rw [List.length_append, List.length_append]
    rfl
  have hstop : f.close before.length =
      (before ++ f.opening ++ ["("]).length + f.parameters.length := by
    simp only [FunctionDeclaration.close, List.length_append, List.length_cons, List.length_nil]
    omega
  rw [words_slice, hsplit, hstart, hstop, slice_append]

theorem words_header (hwords : words tokens = before ++ f.words ++ after) :
    words (slice tokens (f.close before.length + 1) (f.headerEnd before.length)) =
      f.headerWords := by
  have hsplit : words tokens = (before ++ f.prototype) ++ f.headerWords ++
      (f.bodyWords ++ after) := by
    rw [header_of_words hwords]
    simp only [List.append_assoc]
  have hstart : f.close before.length + 1 = (before ++ f.prototype).length := by
    rw [List.length_append, length_prototype]
  rw [words_slice, hsplit, FunctionDeclaration.headerEnd, hstart, slice_append]

theorem words_declaration (hwords : words tokens = before ++ f.words ++ after) :
    words (slice tokens before.length (f.headerEnd before.length)) =
      f.prototype ++ f.headerWords := by
  have hsplit : words tokens = before ++ (f.prototype ++ f.headerWords) ++
      (f.bodyWords ++ after) := by
    rw [header_of_words hwords]
    simp only [List.append_assoc]
  have hstop : f.headerEnd before.length =
      before.length + (f.prototype ++ f.headerWords).length := by
    rw [FunctionDeclaration.headerEnd, ← length_prototype, List.length_append]
    omega
  rw [words_slice, hsplit, hstop, slice_append]

end HoodSentry
