import HoodSentry.Common.Loops
import HoodSentry.Risk.Declarations
/-!
# Recovery

The loops of `parseContractBody` and `parseFile` go on behind where a round
began, so they end, and the tokens their rounds pass over are disjoint. A
declaration is returned if a round begins at its place. One does exactly
where the words before split into members as the scans delimit them
(`Delimited`): `parseModifier` waits for a brace only, so a modifier without
a body goes on up to the end of the next function's.
-/

namespace HoodSentry

/-! ## Shapes of members -/

/-- What ends a function: a semicolon, a block, or the end of the contract. -/
inductive FunctionEnd
  | semicolon
  | block (inner : List String) (nested : Nested openBrace closeBrace inner)
  | missing

namespace FunctionEnd

def words : FunctionEnd → List String
  | semicolon => [";"]
  | block inner _ => openBrace :: (inner ++ [closeBrace])
  | missing => []

/-- The words that may stand behind it. -/
def Before : FunctionEnd → List String → Prop
  | missing, rest => rest = []
  | _, _ => True

end FunctionEnd

/-- **What is taken for a function**: a keyword, a name of any kind, anything
up to a list in parentheses, and a header up to what ends it. -/
structure FunctionShape where
  keyword : String
  kind : SolidityFunctionKind
  name : List String
  gap : List String
  parameters : List String
  header : List String
  ending : FunctionEnd
  isKind : functionKindOf keyword = some kind
  lengthName : name.length = if kind = .function then 1 else 0
  gapFree : "(" ∉ gap
  nested : Nested "(" ")" parameters
  headerFree : ∀ w ∈ header, w ∉ [openBrace, ";"]

def FunctionShape.words (shape : FunctionShape) : List String :=
  shape.keyword :: shape.name ++ shape.gap ++ parenthesised shape.parameters ++ shape.header ++
    shape.ending.words

/-- **What is taken for a modifier**: anything up to a block. -/
structure ModifierShape where
  name : String
  gap : List String
  body : List String
  gapFree : openBrace ∉ gap
  nested : Nested openBrace closeBrace body

def ModifierShape.words (shape : ModifierShape) : List String :=
  "modifier" :: shape.name :: shape.gap ++ openBrace :: (shape.body ++ [closeBrace])

/-- A function is taken from the beginning of words. -/
def FunctionBegins (ws : List String) : Prop :=
  ∃ (shape : FunctionShape) (rest : List String), ws = shape.words ++ rest ∧
    shape.ending.Before rest

/-- And a modifier. -/
def ModifierBegins (ws : List String) : Prop :=
  ∃ (shape : ModifierShape) (rest : List String), ws = shape.words ++ rest

/-- Words that end no member, from a depth of parentheses: where it is zero
there is no semicolon and no brace. -/
def Unbroken (round : ℤ) (ws : List String) : Prop :=
  ∀ a w b, ws = a ++ w :: b → round + depthSum "(" ")" a = 0 → w ≠ ";" ∧ w ≠ openBrace

/-- **What another member is made of**: unbroken words, and a semicolon, a
block, or a brace that is never closed. -/
inductive MemberEnd
  | semicolon
  | block (inner : List String) (nested : Nested openBrace closeBrace inner)
  | unclosed

namespace MemberEnd

def words : MemberEnd → List String
  | semicolon => [";"]
  | block inner _ => openBrace :: (inner ++ [closeBrace])
  | unclosed => [openBrace]

def Before : MemberEnd → List String → Prop
  | unclosed, rest => ∀ inner after, rest = inner ++ closeBrace :: after →
      ¬ Nested openBrace closeBrace inner
  | _, _ => True

end MemberEnd

/-- **Members as the scans delimit them**, in front of the rest. -/
inductive DelimitedMember : List String → List String → Prop
  | function (shape : FunctionShape) {rest : List String} (ends : shape.ending.Before rest) :
      DelimitedMember shape.words rest
  | modifier (shape : ModifierShape) (rest : List String) : DelimitedMember shape.words rest
  | other {ws rest : List String} (ending : MemberEnd) (unbroken : Unbroken 0 ws)
      (balanced : depthSum "(" ")" ws = 0) (ends : ending.Before rest)
      (notFunction : ¬ FunctionBegins (ws ++ ending.words ++ rest))
      (notModifier : ¬ ModifierBegins (ws ++ ending.words ++ rest)) :
      DelimitedMember (ws ++ ending.words) rest

/-- **Words that split into members**, in front of the rest. -/
inductive Delimited : List String → List String → Prop
  | none (rest : List String) : Delimited [] rest
  | member {before member rest : List String} (earlier : Delimited before (member ++ rest))
      (last : DelimitedMember member rest) : Delimited (before ++ member) rest

/-! ## Functions -/

variable {tokens : List Token} {before rest ws : List String}

/-- The index a round goes on with: the place of the rest, or one behind all
tokens. -/
structure GoesOn (tokens : List Token) (behind : ℕ) (rest : List String) (next : ℕ) : Prop where
  atRest : rest ≠ [] → next = behind
  atEnd : rest = [] → tokens.length ≤ next

theorem GoesOn.of_eq {behind next : ℕ} (hlength : tokens.length = behind + rest.length)
    (h : next = behind) : GoesOn tokens behind rest next where
  atRest _ := h
  atEnd hrest := by
    rw [hlength, hrest, h]
    exact Nat.le_refl behind

theorem length_of_words (h : words tokens = before ++ (ws ++ rest)) :
    tokens.length = before.length + ws.length + rest.length := by
  rw [← length_words, h, List.length_append, List.length_append, Nat.add_assoc]

/-- Where none of the words stands, the loop that waits for one of them ends
behind the last token. -/
theorem waitFor_of_free {stops : List String} (hwords : words tokens = before ++ ws)
    (hfree : ∀ w ∈ ws, w ∉ stops) :
    waitFor tokens before.length stops = before.length + ws.length := by
  obtain ⟨skipped, behind, hsplit, -, hwait, hend⟩ := exists_waitFor hwords stops
  rcases hend with rfl | ⟨w, after, rfl, hstop⟩
  · rw [hwait, hsplit, List.append_nil]
  · refine absurd hstop (hfree w ?_)
    rw [hsplit]
    exact List.mem_append_right _ List.mem_cons_self

theorem wordAt_of_length {index : ℕ} (h : tokens.length ≤ index) : wordAt tokens index = none := by
  rw [wordAt, List.getElem?_eq_none]
  rwa [length_words]

/-- The words of a shape up to the end of its parameters. -/
def FunctionShape.prototype (shape : FunctionShape) : List String :=
  shape.keyword :: shape.name ++ shape.gap ++ parenthesised shape.parameters

theorem FunctionShape.words_eq (shape : FunctionShape) :
    shape.words = shape.prototype ++ (shape.header ++ shape.ending.words) := by
  rw [FunctionShape.words, FunctionShape.prototype, List.append_assoc]

theorem FunctionShape.length_prototype (shape : FunctionShape) :
    shape.prototype.length =
      1 + shape.name.length + shape.gap.length + shape.parameters.length + 2 := by
  simp only [FunctionShape.prototype, parenthesised, List.length_append, List.length_cons,
    List.length_nil]
  omega

/-- What `functionExtent` makes of the words behind the parameters. -/
theorem exists_extent_of_ending {front header : List String} (ending : FunctionEnd)
    (hwords : words tokens = front ++ (header ++ (ending.words ++ rest)))
    (hfree : ∀ w ∈ header, w ∉ [openBrace, ";"]) (hends : ending.Before rest) (opened closed : ℕ) :
    ∃ extent, (if wordAt tokens (waitFor tokens front.length [openBrace, ";"]) = some openBrace then
        (findMatching tokens (waitFor tokens front.length [openBrace, ";"]) openBrace
          closeBrace).map fun close => FunctionExtent.mk opened closed
            (waitFor tokens front.length [openBrace, ";"]) (some close)
      else some ⟨opened, closed, waitFor tokens front.length [openBrace, ";"], none⟩) =
        some extent ∧
      GoesOn tokens (front.length + header.length + ending.words.length) rest
        (extent.stop + 1) := by
  have hlength : tokens.length =
      front.length + header.length + ending.words.length + rest.length := by
    rw [length_of_words hwords, List.length_append]
    omega
  cases ending with
  | semicolon =>
    have hstop : waitFor tokens front.length [openBrace, ";"] = front.length + header.length :=
      waitFor_of_words hwords (by decide) hfree
    have hwords' : words tokens = (front ++ header) ++ ";" :: rest := by
      rw [hwords, List.append_assoc]
      rfl
    have hword := wordAt_of_words hwords'
    rw [List.length_append] at hword
    rw [hstop, hword, if_neg (by decide)]
    exact ⟨_, rfl, GoesOn.of_eq hlength rfl⟩
  | block inner nested =>
    have hblock : words tokens = front ++
        (header ++ openBrace :: (inner ++ closeBrace :: rest)) := by
      rw [hwords, FunctionEnd.words, List.cons_append, List.append_assoc]
      rfl
    have hwords' : words tokens = (front ++ header) ++
        openBrace :: (inner ++ closeBrace :: rest) := by
      rw [hblock, List.append_assoc]
    have hstop : waitFor tokens front.length [openBrace, ";"] = front.length + header.length :=
      waitFor_of_words hblock (by decide) hfree
    have hword := wordAt_of_words hwords'
    have hclose := findMatching_of_words openBrace_ne hwords' nested
    rw [List.length_append] at hword hclose
    rw [hstop, hword, if_pos rfl, hclose]
    refine ⟨_, rfl, GoesOn.of_eq hlength ?_⟩
    simp only [FunctionExtent.stop, Option.getD_some, FunctionEnd.words, List.length_cons,
      List.length_append, List.length_nil]
    omega
  | missing =>
    obtain rfl : rest = [] := hends
    rw [FunctionEnd.words, List.append_nil, List.append_nil] at hwords
    have hstop := waitFor_of_free hwords hfree
    have hall : tokens.length = front.length + header.length := hlength
    rw [hstop, wordAt_of_length (Nat.le_of_eq hall), if_neg nofun]
    refine ⟨_, rfl, ⟨fun h => absurd rfl h, fun _ => ?_⟩⟩
    rw [hall]
    exact Nat.le_succ _

/-- **A shape is taken for a function.** -/
theorem exists_extent_of_shape (shape : FunctionShape)
    (hwords : words tokens = before ++ (shape.words ++ rest))
    (hends : shape.ending.Before rest) :
    ∃ extent, functionExtent tokens (before.length + 1 + shape.name.length) = some extent ∧
      GoesOn tokens (before.length + shape.words.length) rest (extent.stop + 1) := by
  have hopen : words tokens = (before ++ shape.keyword :: shape.name) ++ (shape.gap ++
      "(" :: (shape.parameters ++ ")" :: (shape.header ++ shape.ending.words ++ rest))) := by
    rw [hwords, FunctionShape.words, parenthesised]
    simp only [List.append_assoc, List.cons_append, List.nil_append]
  have hopen' : words tokens = (before ++ shape.keyword :: shape.name ++ shape.gap) ++
      "(" :: (shape.parameters ++ ")" :: (shape.header ++ shape.ending.words ++ rest)) := by
    rw [hopen, List.append_assoc _ shape.gap]
  have hstart : before.length + 1 + shape.name.length =
      (before ++ shape.keyword :: shape.name).length := by
    rw [List.length_append, List.length_cons]
    omega
  have hwait : waitFor tokens (before.length + 1 + shape.name.length) ["("] =
      (before ++ shape.keyword :: shape.name ++ shape.gap).length := by
    rw [hstart, waitFor_of_words hopen (List.mem_singleton_self _)
      (fun w hw hin => shape.gapFree (List.mem_singleton.mp hin ▸ hw)), ← List.length_append]
  have hclose := findMatching_of_words (by decide) hopen' shape.nested
  have hbehind : (before ++ shape.keyword :: shape.name ++ shape.gap).length +
      shape.parameters.length + 1 + 1 = (before ++ shape.prototype).length := by
    rw [List.length_append, List.length_append, List.length_append, List.length_cons,
      shape.length_prototype]
    omega
  have hheader : words tokens = (before ++ shape.prototype) ++
      (shape.header ++ (shape.ending.words ++ rest)) := by
    rw [hwords, shape.words_eq]
    simp only [List.append_assoc]
  have htotal : before.length + shape.words.length =
      (before ++ shape.prototype).length + shape.header.length + shape.ending.words.length := by
    rw [shape.words_eq, List.length_append, List.length_append, List.length_append]
    omega
  rw [functionExtent, hwait, if_pos (wordAt_of_words hopen'), hclose]
  dsimp only
  rw [hbehind, htotal]
  exact exists_extent_of_ending shape.ending hheader shape.headerFree hends _ _

theorem exists_of_wordAt {index : ℕ} {w : String} (h : wordAt tokens index = some w) :
    index < tokens.length := by
  rw [← length_words]
  exact (List.getElem?_eq_some_iff.mp h).1

theorem start_lt_of_functionExtent {start : ℕ} {extent : FunctionExtent}
    (h : functionExtent tokens start = some extent) : start < tokens.length := by
  unfold functionExtent at h
  dsimp only at h
  split at h
  · rename_i hword
    exact Nat.lt_of_le_of_lt le_waitFor (exists_of_wordAt hword)
  · cases h

/-- Where a loop that waits for words stops at one, that one stands there. -/
theorem exists_waitFor_of_wordAt {after : List String} {stops : List String} {w : String}
    (hwords : words tokens = before ++ after)
    (hword : wordAt tokens (waitFor tokens before.length stops) = some w) :
    ∃ skipped behind, after = skipped ++ w :: behind ∧ (∀ v ∈ skipped, v ∉ stops) ∧
      waitFor tokens before.length stops = (before ++ skipped).length := by
  obtain ⟨skipped, behind, hsplit, hfree, hwait, hend⟩ := exists_waitFor hwords stops
  have hplace : waitFor tokens before.length stops = (before ++ skipped).length := by
    rw [hwait, List.length_append]
  have hwords' : words tokens = (before ++ skipped) ++ behind := by
    rw [hwords, hsplit, List.append_assoc]
  rcases hend with rfl | ⟨v, others, rfl, -⟩
  · have hlt := exists_of_wordAt hword
    rw [hplace, ← length_words, hwords', List.append_nil] at hlt
    exact absurd hlt (Nat.lt_irrefl _)
  · rw [hplace, wordAt_of_words hwords'] at hword
    obtain rfl := Option.some.inj hword
    exact ⟨skipped, others, hsplit, hfree, hplace⟩

/-- The words behind the parameters hold a header and what ends it. -/
theorem exists_ending_of_extent {front tail : List String} (hwords : words tokens = front ++ tail)
    {opened closed : ℕ}
    (h : ((if wordAt tokens (waitFor tokens front.length [openBrace, ";"]) = some openBrace then
        (findMatching tokens (waitFor tokens front.length [openBrace, ";"]) openBrace
          closeBrace).map fun close => FunctionExtent.mk opened closed
            (waitFor tokens front.length [openBrace, ";"]) (some close)
      else some ⟨opened, closed, waitFor tokens front.length [openBrace, ";"], none⟩) :
        Option FunctionExtent).isSome) :
    ∃ header, ∃ (ending : FunctionEnd) (rest : List String),
      tail = header ++ (ending.words ++ rest) ∧ (∀ w ∈ header, w ∉ [openBrace, ";"]) ∧
        ending.Before rest := by
  obtain ⟨header, behind, hsplit, hfree, hwait, hend⟩ := exists_waitFor hwords [openBrace, ";"]
  have hwords' : words tokens = (front ++ header) ++ behind := by
    rw [hwords, hsplit, List.append_assoc]
  rw [← List.length_append] at hwait
  rcases hend with rfl | ⟨w, rest, rfl, hstop⟩
  · exact ⟨header, .missing, [], hsplit, hfree, rfl⟩
  · rcases List.mem_pair.mp hstop with rfl | rfl
    · rw [hwait, wordAt_of_words hwords', if_pos rfl, Option.isSome_map] at h
      obtain ⟨close, hclose⟩ := Option.isSome_iff_exists.mp h
      obtain ⟨inner, after, rfl, hnested, -⟩ :=
        exists_nested_of_findMatching openBrace_ne hwords' hclose
      refine ⟨header, .block inner hnested, after, ?_, hfree, trivial⟩
      rw [hsplit, FunctionEnd.words, List.cons_append, List.append_assoc]
      rfl
    · exact ⟨header, .semicolon, rest, hsplit, hfree, trivial⟩

/-- **And only a shape is.** -/
theorem exists_shape_of_extent {keyword : String} {kind : SolidityFunctionKind}
    {name : List String} (hkind : functionKindOf keyword = some kind)
    (hname : name.length = if kind = .function then 1 else 0)
    (hwords : words tokens = (before ++ keyword :: name) ++ rest)
    (h : (functionExtent tokens (before ++ keyword :: name).length).isSome) :
    FunctionBegins (keyword :: name ++ rest) := by
  unfold functionExtent at h
  dsimp only at h
  split at h
  · rename_i hword
    obtain ⟨gap, behind, rfl, hgap, hplace⟩ := exists_waitFor_of_wordAt hwords hword
    have hopen : words tokens = (before ++ keyword :: name ++ gap) ++ "(" :: behind := by
      rw [hwords, List.append_assoc _ gap]
    rw [hplace] at h
    split at h
    · cases h
    rename_i close hclose
    obtain ⟨parameters, tail, rfl, hnested, rfl⟩ :=
      exists_nested_of_findMatching (by decide) hopen hclose
    have hfront : words tokens =
        (before ++ (keyword :: name ++ gap ++ parenthesised parameters)) ++ tail := by
      rw [hopen, parenthesised]
      simp only [List.append_assoc, List.cons_append, List.nil_append]
    have hlength : (before ++ keyword :: name ++ gap).length + parameters.length + 1 + 1 =
        (before ++ (keyword :: name ++ gap ++ parenthesised parameters)).length := by
      simp only [parenthesised, List.length_append, List.length_cons, List.length_nil]
      omega
    rw [hlength] at h
    obtain ⟨header, ending, after, rfl, hheader, hends⟩ := exists_ending_of_extent hfront h
    refine ⟨⟨keyword, kind, name, gap, parameters, header, ending, hkind, hname,
      fun hin => hgap "(" hin (List.mem_singleton_self _), hnested, hheader⟩, after, ?_, hends⟩
    simp only [FunctionShape.words, parenthesised, List.append_assoc, List.cons_append,
      List.nil_append]
  · cases h

section Members

variable {keccak256 : String → HexText} {name path : String}

theorem exists_token {w : String} (hwords : words tokens = before ++ w :: rest) :
    ∃ token, tokens[before.length]? = some token ∧ token.value = w := by
  have hword := wordAt_of_words hwords
  rwa [wordAt, words, List.getElem?_map, Option.map_eq_some_iff] at hword

/-- **`parseFunction` finds a shape.** -/
theorem exists_parseFunction_of_shape (shape : FunctionShape)
    (hwords : words tokens = before ++ (shape.words ++ rest))
    (hends : shape.ending.Before rest) :
    ∃ fn stop, parseFunction keccak256 name path tokens before.length = some (fn, stop) ∧
      GoesOn tokens (before.length + shape.words.length) rest (stop + 1) := by
  obtain ⟨extent, hextent, hgoes⟩ := exists_extent_of_shape shape hwords hends
  have hfirst : words tokens = before ++ shape.keyword :: (shape.name ++ shape.gap ++
      parenthesised shape.parameters ++ shape.header ++ shape.ending.words ++ rest) := by
    rw [hwords, FunctionShape.words]
    simp only [List.append_assoc, List.cons_append]
  obtain ⟨keyword, hkeyword, hvalue⟩ := exists_token hfirst
  have hstart : (if shape.kind = .function then before.length + 2 else before.length + 1) =
      before.length + 1 + shape.name.length := by
    rw [shape.lengthName]
    split
    · rfl
    · rfl
  have hparse : parseFunction keccak256 name path tokens before.length =
      some (functionOf keccak256 name path tokens before.length keyword shape.kind extent,
        extent.stop) := by
    rw [parseFunction, hkeyword]
    dsimp only
    rw [hvalue, shape.isKind]
    dsimp only
    rw [hstart, hextent]
    rfl
  exact ⟨_, _, hparse, hgoes⟩

/-- **And nothing else.** -/
theorem functionBegins_of_parseFunction (hwords : words tokens = before ++ rest)
    (h : (parseFunction keccak256 name path tokens before.length).isSome) :
    FunctionBegins rest := by
  unfold parseFunction at h
  split at h
  · cases h
  rename_i keyword hkeyword
  split at h
  · cases h
  rename_i kind hkind
  rw [Option.isSome_map] at h
  have hword : wordAt tokens before.length = some keyword.value := by
    rw [wordAt, words, List.getElem?_map, hkeyword]
    rfl
  cases rest with
  | nil =>
    have hlt := exists_of_wordAt hword
    rw [← length_words, hwords, List.append_nil] at hlt
    exact absurd hlt (Nat.lt_irrefl _)
  | cons w behind =>
    rw [wordAt_of_words hwords] at hword
    obtain rfl := Option.some.inj hword
    by_cases hfunction : kind = .function
    · rw [if_pos hfunction] at h
      obtain ⟨extent, hextent⟩ := Option.isSome_iff_exists.mp h
      have hlt := start_lt_of_functionExtent hextent
      rw [← length_words, hwords, List.length_append] at hlt
      cases behind with
      | nil =>
        simp only [List.length_cons, List.length_nil] at hlt
        omega
      | cons given behind =>
        have hwords' : words tokens = (before ++ keyword.value :: [given]) ++ behind := by
          rw [hwords]
          simp
        have hstart : before.length + 2 = (before ++ keyword.value :: [given]).length := by
          rw [List.length_append]
          rfl
        rw [hstart] at h
        exact exists_shape_of_extent hkind (by rw [if_pos hfunction]; rfl) hwords' h
    · rw [if_neg hfunction] at h
      have hwords' : words tokens = (before ++ keyword.value :: []) ++ behind := by
        rw [hwords]
        simp
      have hstart : before.length + 1 = (before ++ keyword.value :: []).length := by
        rw [List.length_append]
        rfl
      rw [hstart] at h
      exact exists_shape_of_extent hkind (by rw [if_neg hfunction]; rfl) hwords' h

/-! ## Modifiers -/

theorem ModifierShape.length_words (shape : ModifierShape) :
    shape.words.length = shape.gap.length + shape.body.length + 4 := by
  simp only [ModifierShape.words, List.length_append, List.length_cons, List.length_nil]
  omega

/-- **`parseModifier` finds a shape.** -/
theorem exists_parseModifier_of_shape (shape : ModifierShape)
    (hwords : words tokens = before ++ (shape.words ++ rest)) :
    ∃ modifier stop, parseModifier name path tokens before.length = some (modifier, stop) ∧
      modifier.name = shape.name ∧ stop + 1 = before.length + shape.words.length := by
  have hfirst : words tokens = before ++ "modifier" :: (shape.name :: shape.gap ++
      openBrace :: (shape.body ++ [closeBrace]) ++ rest) := by
    rw [hwords, ModifierShape.words]
    simp only [List.append_assoc, List.cons_append]
  have hsecond : words tokens = (before ++ ["modifier"]) ++ shape.name :: (shape.gap ++
      openBrace :: (shape.body ++ [closeBrace]) ++ rest) := by
    rw [hfirst]
    simp
  have hthird : words tokens = (before ++ ["modifier", shape.name]) ++ (shape.gap ++
      openBrace :: (shape.body ++ closeBrace :: rest)) := by
    rw [hfirst]
    simp
  have hbody : words tokens = (before ++ ["modifier", shape.name] ++ shape.gap) ++
      openBrace :: (shape.body ++ closeBrace :: rest) := by
    rw [hthird, List.append_assoc _ shape.gap]
  obtain ⟨keyword, hkeyword, -⟩ := exists_token hfirst
  have hname := wordAt_of_words hsecond
  rw [List.length_append, List.length_singleton] at hname
  have hstart : before.length + 2 = (before ++ ["modifier", shape.name]).length := by
    rw [List.length_append]
    rfl
  have hwait : waitFor tokens (before.length + 2) [openBrace] =
      (before ++ ["modifier", shape.name] ++ shape.gap).length := by
    rw [hstart, waitFor_of_words hthird (List.mem_singleton_self _)
      (fun w hw hin => shape.gapFree (List.mem_singleton.mp hin ▸ hw)), ← List.length_append]
  rw [parseModifier, hkeyword, hname]
  dsimp only
  rw [hwait, if_pos (wordAt_of_words hbody),
    findMatching_of_words openBrace_ne hbody shape.nested]
  refine ⟨_, _, rfl, rfl, ?_⟩
  rw [shape.length_words]
  simp only [List.length_append, List.length_cons, List.length_nil]
  omega

/-- **And nothing else.** -/
theorem modifierBegins_of_parseModifier (hwords : words tokens = before ++ "modifier" :: rest)
    (h : (parseModifier name path tokens before.length).isSome) :
    ModifierBegins ("modifier" :: rest) := by
  unfold parseModifier at h
  split at h
  · rename_i hgiven
    dsimp only at h
    split at h
    · rename_i hbrace
      rw [Option.isSome_map] at h
      obtain ⟨close, hclose⟩ := Option.isSome_iff_exists.mp h
      cases rest with
      | nil =>
        have hlt := exists_of_wordAt hgiven
        rw [← length_words, hwords, List.length_append] at hlt
        exact absurd hlt (Nat.lt_irrefl _)
      | cons w behind =>
        have hwords' : words tokens = (before ++ ["modifier", w]) ++ behind := by
          rw [hwords]
          simp
        have hstart : before.length + 2 = (before ++ ["modifier", w]).length := by
          rw [List.length_append]
          rfl
        rw [hstart] at hbrace hclose
        obtain ⟨gap, after, rfl, hfree, hplace⟩ := exists_waitFor_of_wordAt hwords' hbrace
        have hbody : words tokens =
            (before ++ ["modifier", w] ++ gap) ++ openBrace :: after := by
          rw [hwords', List.append_assoc _ gap]
        rw [hplace] at hclose
        obtain ⟨inner, after, rfl, hnested, -⟩ :=
          exists_nested_of_findMatching openBrace_ne hbody hclose
        refine ⟨⟨w, gap, inner, fun hin => hfree _ hin (List.mem_singleton_self _), hnested⟩,
          after, ?_⟩
        simp [ModifierShape.words]
    · cases h
  · cases h

/-! ## Other members -/

theorem depthChange_of_stop {w : String} (h : w = ";" ∨ w = openBrace) :
    depthChange "(" ")" w = 0 := by
  rcases h with rfl | rfl
  · decide
  · decide

/-- The scan for a member's end passes unbroken words. -/
theorem memberLengthFrom_append {ts us : List Token} {round : ℤ}
    (h : Unbroken round (words ts)) :
    memberLengthFrom round (ts ++ us) =
      ts.length + memberLengthFrom (round + depthSum "(" ")" (words ts)) us := by
  induction ts generalizing round with
  | nil => rw [List.nil_append, words_nil, depthSum_nil, add_zero, List.length_nil, Nat.zero_add]
  | cons t ts ih =>
    have hstop : ∀ w, w = ";" ∨ w = openBrace →
        ¬ (t.value = w ∧ round + depthChange "(" ")" t.value = 0) := by
      rintro w hw ⟨rfl, hzero⟩
      rw [depthChange_of_stop hw] at hzero
      have hfirst := h [] t.value (words ts) rfl (by rwa [depthSum_nil])
      rcases hw with hw | hw
      · exact hfirst.1 hw
      · exact hfirst.2 hw
    have hrest : Unbroken (round + depthChange "(" ")" t.value) (words ts) := by
      intro a w b hsplit hzero
      refine h (t.value :: a) w b ?_ ?_
      · rw [words_cons, hsplit, List.cons_append]
      · rw [depthSum_cons, ← add_assoc, hzero]
    rw [List.cons_append, memberLengthFrom, if_neg (hstop ";" (.inl rfl)),
      if_neg (hstop openBrace (.inr rfl)), ih hrest, words_cons, depthSum_cons, ← add_assoc,
      List.length_cons]
    omega

theorem unbroken_nil (round : ℤ) : Unbroken round [] := by
  intro a w b h
  cases a with
  | nil => cases h
  | cons v a => cases h

/-- And stops behind as many of them as there are. -/
theorem exists_unbroken (tokens : List Token) (round : ℤ) :
    ∃ ts us, tokens = ts ++ us ∧ Unbroken round (words ts) ∧
      (us = [] ∨ ∃ t others, us = t :: others ∧ round + depthSum "(" ")" (words ts) = 0 ∧
        (t.value = ";" ∨ t.value = openBrace)) := by
  induction tokens generalizing round with
  | nil => exact ⟨[], [], rfl, unbroken_nil round, .inl rfl⟩
  | cons t tokens ih =>
    by_cases hstop : round = 0 ∧ (t.value = ";" ∨ t.value = openBrace)
    · refine ⟨[], t :: tokens, rfl, unbroken_nil round, .inr ?_⟩
      exact ⟨t, tokens, rfl, by rw [words_nil, depthSum_nil, hstop.1, add_zero], hstop.2⟩
    · obtain ⟨ts, us, rfl, hunbroken, hend⟩ := ih (round + depthChange "(" ")" t.value)
      refine ⟨t :: ts, us, rfl, ?_, ?_⟩
      · intro a w b hsplit hzero
        cases a with
        | nil =>
          obtain ⟨rfl, -⟩ := List.cons.inj hsplit
          rw [depthSum_nil, add_zero] at hzero
          exact not_or.mp fun h => hstop ⟨hzero, h⟩
        | cons v a =>
          obtain ⟨hfirst, hsplit⟩ := List.cons.inj hsplit
          rw [depthSum_cons, ← hfirst, ← add_assoc] at hzero
          exact hunbroken a w b hsplit hzero
      · rcases hend with rfl | ⟨stop, others, rfl, hzero, hstop⟩
        · exact .inl rfl
        · refine .inr ⟨stop, others, rfl, ?_, hstop⟩
          rw [words_cons, depthSum_cons, ← add_assoc, hzero]

/-- What a round finds that begins neither a function nor a modifier. -/
theorem parseMember_of_other (hwords : words tokens = before ++ rest)
    (hfunction : ¬ FunctionBegins rest) (hmodifier : ¬ ModifierBegins rest) :
    parseMember keccak256 name path tokens before.length =
      (⟨(parseStateVariable name path (slice tokens before.length
          (before.length + memberLengthFrom 0 (tokens.drop before.length)))).toList, [], []⟩,
        before.length + memberLengthFrom 0 (tokens.drop before.length) + 1) := by
  have hnone : parseFunction keccak256 name path tokens before.length = none := by
    rw [← Option.not_isSome_iff_eq_none]
    exact fun h => hfunction (functionBegins_of_parseFunction hwords h)
  have hnone' : (if wordAt tokens before.length = some "modifier" then
      parseModifier name path tokens before.length else none) = none := by
    split
    · rename_i hword
      rw [← Option.not_isSome_iff_eq_none]
      intro h
      cases rest with
      | nil =>
        have hlt := exists_of_wordAt hword
        rw [← length_words, hwords, List.append_nil] at hlt
        exact absurd hlt (Nat.lt_irrefl _)
      | cons w behind =>
        rw [wordAt_of_words hwords] at hword
        obtain rfl := Option.some.inj hword
        exact hmodifier (modifierBegins_of_parseModifier hwords h)
    · rfl
  rw [parseMember, hnone]
  dsimp only
  rw [hnone']

/-- Unbroken words and a semicolon: the scan stops at it. -/
theorem memberLength_of_semicolon {after : List String}
    (hwords : words tokens = before ++ (ws ++ ";" :: after)) (hunbroken : Unbroken 0 ws)
    (hbalanced : depthSum "(" ")" ws = 0) :
    memberLengthFrom 0 (tokens.drop before.length) = ws.length := by
  obtain ⟨ts, us, hsplit, rfl, hus⟩ := exists_of_words_append (drop_of_words hwords)
  obtain ⟨t, others, rfl, hvalue, -⟩ := List.map_eq_cons_iff.mp hus
  have hzero : (0 : ℤ) + depthChange "(" ")" t.value = 0 := by
    rw [depthChange_of_stop (.inl hvalue), add_zero]
  rw [hsplit, memberLengthFrom_append hunbroken, hbalanced, add_zero, memberLengthFrom,
    if_pos ⟨hvalue, hzero⟩, length_words, Nat.add_zero]

/-- Unbroken words and a brace: it stops at the one that closes it, or at the
brace. -/
theorem memberLength_of_brace {after : List String}
    (hwords : words tokens = before ++ (ws ++ openBrace :: after)) (hunbroken : Unbroken 0 ws)
    (hbalanced : depthSum "(" ")" ws = 0) :
    before.length + memberLengthFrom 0 (tokens.drop before.length) =
      (findMatching tokens (before ++ ws).length openBrace closeBrace).getD
        (before ++ ws).length := by
  obtain ⟨ts, us, hsplit, rfl, hus⟩ := exists_of_words_append (drop_of_words hwords)
  obtain ⟨t, others, rfl, hvalue, -⟩ := List.map_eq_cons_iff.mp hus
  have hzero : (0 : ℤ) + depthChange "(" ")" t.value = 0 := by
    rw [depthChange_of_stop (.inr hvalue), add_zero]
  have hsemicolon : ¬ (t.value = ";" ∧ (0 : ℤ) + depthChange "(" ")" t.value = 0) := by
    rintro ⟨h, -⟩
    exact absurd (hvalue.symm.trans h) (by decide)
  have hdrop : tokens.drop (before ++ words ts).length = t :: others := by
    rw [List.length_append, length_words, ← List.drop_drop, hsplit, List.drop_left]
  rw [hsplit, memberLengthFrom_append hunbroken, hbalanced, add_zero, memberLengthFrom,
    if_neg hsemicolon, if_pos ⟨hvalue, hzero⟩, findMatching, hdrop, List.length_append,
    length_words]
  cases findMatchingFrom openBrace closeBrace 0 (t :: others) with
  | none => rfl
  | some n => exact (Nat.add_assoc _ _ _).symm

/-- **A round passes a member as the scans delimit it.** -/
theorem next_of_member {member : List String} (h : DelimitedMember member rest)
    (hwords : words tokens = before ++ (member ++ rest)) :
    GoesOn tokens (before.length + member.length) rest
      (parseMember keccak256 name path tokens before.length).2 := by
  cases h with
  | function shape ends =>
    obtain ⟨fn, stop, hparse, hgoes⟩ := exists_parseFunction_of_shape shape hwords ends
    rw [parseMember, hparse]
    exact hgoes
  | modifier shape rest =>
    have hfirst : words tokens = before ++ "modifier" :: (shape.name :: shape.gap ++
        openBrace :: (shape.body ++ [closeBrace]) ++ rest) := by
      rw [hwords, ModifierShape.words]
      simp only [List.append_assoc, List.cons_append]
    obtain ⟨keyword, hkeyword, hvalue⟩ := exists_token hfirst
    have hnone : parseFunction keccak256 name path tokens before.length = none := by
      rw [parseFunction, hkeyword]
      dsimp only
      rw [hvalue]
      rfl
    obtain ⟨modifier, stop, hparse, -, hstop⟩ := exists_parseModifier_of_shape shape hwords
    rw [parseMember, hnone]
    dsimp only
    rw [if_pos (wordAt_of_words hfirst), hparse]
    exact GoesOn.of_eq (length_of_words hwords) hstop
  | @other ws _ ending unbroken balanced ends notFunction notModifier =>
    have hlength := length_of_words hwords
    rw [parseMember_of_other hwords notFunction notModifier]
    refine GoesOn.of_eq hlength ?_
    dsimp only
    cases ending with
    | semicolon =>
      have hstop : words tokens = before ++ (ws ++ ";" :: rest) := by
        rw [hwords, MemberEnd.words, List.append_assoc]
        rfl
      rw [memberLength_of_semicolon hstop unbroken balanced, MemberEnd.words, List.length_append]
      rfl
    | block inner nested =>
      have hbrace : words tokens = before ++ (ws ++ openBrace :: (inner ++ closeBrace :: rest)) := by
        rw [hwords, MemberEnd.words]
        simp
      have hbrace' : words tokens = (before ++ ws) ++ openBrace :: (inner ++ closeBrace :: rest) := by
        rw [hbrace, List.append_assoc]
      rw [memberLength_of_brace hbrace unbroken balanced,
        findMatching_of_words openBrace_ne hbrace' nested, Option.getD_some]
      simp only [MemberEnd.words, List.length_append, List.length_cons, List.length_nil]
      omega
    | unclosed =>
      have hbrace : words tokens = before ++ (ws ++ openBrace :: rest) := by
        rw [hwords, MemberEnd.words, List.append_assoc]
        rfl
      have hbrace' : words tokens = (before ++ ws) ++ openBrace :: rest := by
        rw [hbrace, List.append_assoc]
      have hnone : findMatching tokens (before ++ ws).length openBrace closeBrace = none := by
        rw [Option.eq_none_iff_forall_ne_some]
        intro stop hstop
        obtain ⟨inner, after, hsplit, hnested, -⟩ :=
          exists_nested_of_findMatching openBrace_ne hbrace' hstop
        exact ends inner after hsplit hnested
      rw [memberLength_of_brace hbrace unbroken balanced, hnone, Option.getD_none]
      simp only [MemberEnd.words, List.length_append, List.length_singleton]
      omega

/-- **And a round behind which another follows passes one.** -/
theorem exists_member (hwords : words tokens = before ++ ws)
    (hnext : (parseMember keccak256 name path tokens before.length).2 < tokens.length) :
    ∃ member rest, ws = member ++ rest ∧ DelimitedMember member rest := by
  by_cases hfunction : FunctionBegins ws
  · obtain ⟨shape, rest, rfl, hends⟩ := hfunction
    exact ⟨shape.words, rest, rfl, .function shape hends⟩
  by_cases hmodifier : ModifierBegins ws
  · obtain ⟨shape, rest, rfl⟩ := hmodifier
    exact ⟨shape.words, rest, rfl, .modifier shape rest⟩
  have hdrop := drop_of_words hwords
  obtain ⟨ts, us, hsplit, hunbroken, hend⟩ := exists_unbroken (tokens.drop before.length) 0
  have hws : ws = words ts ++ words us := by
    rw [← hdrop, hsplit, words_append]
  rcases hend with rfl | ⟨t, others, rfl, hzero, hstop⟩
  · rw [parseMember_of_other hwords hfunction hmodifier, hsplit,
      memberLengthFrom_append hunbroken] at hnext
    have hlength : tokens.length = before.length + ts.length := by
      rw [← length_words, hwords, List.length_append, hws, words_nil, List.append_nil,
        length_words]
    dsimp only at hnext
    omega
  · rw [zero_add] at hzero
    rw [words_cons] at hws
    have hother : ∀ (ending : MemberEnd) (rest : List String),
        t.value :: words others = ending.words ++ rest → ending.Before rest →
        ∃ member rest, ws = member ++ rest ∧ DelimitedMember member rest := by
      intro ending rest hrest hends
      have hall : words ts ++ ending.words ++ rest = ws := by
        rw [hws, hrest, List.append_assoc]
      refine ⟨words ts ++ ending.words, rest, hall.symm, ?_⟩
      exact .other ending hunbroken hzero hends (hall.symm ▸ hfunction) (hall.symm ▸ hmodifier)
    rcases hstop with hvalue | hvalue
    · exact hother .semicolon (words others) (by rw [hvalue]; rfl) trivial
    · by_cases hclosed : ∃ inner after, words others = inner ++ closeBrace :: after ∧
          Nested openBrace closeBrace inner
      · obtain ⟨inner, after, hinner, hnested⟩ := hclosed
        refine hother (.block inner hnested) after ?_ trivial
        rw [hvalue, hinner, MemberEnd.words]
        simp
      · refine hother .unclosed (words others) (by rw [hvalue]; rfl) ?_
        intro inner after hinner hnested
        exact hclosed ⟨inner, after, hinner, hnested⟩

/-! ## Rounds -/

/-- The indices at which rounds of `parseContractBody` begin. -/
def memberRounds (keccak256 : String → HexText) (name path : String) (body : List Token) :
    List ℕ :=
  roundsFrom (fun i => (parseMember keccak256 name path body i).2) (fun _ => index_lt_parseMember)
    body.length 0

theorem parseContractBodyFrom_eq (body : List Token) (i : ℕ) :
    parseContractBodyFrom keccak256 name path body i =
      ((roundsFrom (fun i => (parseMember keccak256 name path body i).2)
        (fun _ => index_lt_parseMember) body.length i).map fun i =>
          (parseMember keccak256 name path body i).1).foldr ContractMembers.append
        ⟨[], [], []⟩ := by
  fun_induction parseContractBodyFrom keccak256 name path body i with
  | case1 i hlt member ih =>
    rw [roundsFrom_of_lt hlt, List.map_cons, List.foldr_cons, ih]
  | case2 i hle =>
    rw [roundsFrom_of_le (Nat.not_lt.mp hle)]
    rfl

/-- **A round begins behind delimited members**, and nowhere else. -/
theorem mem_memberRounds_iff (hwords : words tokens = before ++ rest) :
    before.length ∈ memberRounds keccak256 name path tokens ↔
      rest ≠ [] ∧ Delimited before rest := by
  have hlength : tokens.length = before.length + rest.length := by
    rw [← length_words, hwords, List.length_append]
  constructor
  · intro h
    have hdelimited : ∀ j ∈ memberRounds keccak256 name path tokens, j < tokens.length →
        ∃ earlier behind, words tokens = earlier ++ behind ∧ earlier.length = j ∧
          Delimited earlier behind := by
      refine roundsFrom_induction (fun _ => ⟨[], words tokens, rfl, rfl, .none _⟩)
        fun j hj hearlier hnext => ?_
      obtain ⟨earlier, ws, hsplit, rfl, hdelimited⟩ := hearlier hj
      obtain ⟨member, behind, rfl, hmember⟩ := exists_member hsplit hnext
      have hgoes := @next_of_member _ _ _ keccak256 name path _ hmember hsplit
      have hbehind : behind ≠ [] := fun hnil =>
        absurd (hgoes.atEnd hnil) (Nat.not_le.mpr hnext)
      refine ⟨earlier ++ member, behind, ?_, ?_, .member hdelimited hmember⟩
      · rw [hsplit, List.append_assoc]
      · rw [List.length_append, hgoes.atRest hbehind]
    obtain ⟨-, hlt⟩ := bounds_of_mem_roundsFrom h
    obtain ⟨earlier, behind, hsplit, hplace, hearlier⟩ := hdelimited before.length h hlt
    obtain ⟨rfl, rfl⟩ := List.append_inj (hsplit.symm.trans hwords) hplace
    refine ⟨?_, hearlier⟩
    rintro rfl
    rw [hlength, List.length_nil] at hlt
    exact absurd hlt (Nat.lt_irrefl _)
  · rintro ⟨hrest, h⟩
    induction h with
    | none rest =>
      refine self_mem_roundsFrom ?_
      rw [hlength]
      exact Nat.lt_add_of_pos_right (List.length_pos_of_ne_nil hrest)
    | @member before member rest earlier last ih =>
      have hsplit : words tokens = before ++ (member ++ rest) := by
        rw [hwords, List.append_assoc]
      have hgoes := @next_of_member _ _ _ keccak256 name path _ last hsplit
      have hin := ih hsplit (by rw [hlength, List.length_append, List.length_append]; omega)
        (List.append_ne_nil_of_right_ne_nil member hrest)
      have hat := hgoes.atRest hrest
      have hpos := List.length_pos_of_ne_nil hrest
      rw [List.length_append, ← hat]
      refine next_mem_roundsFrom hin ?_
      rw [hat, hlength, List.length_append]
      omega

/-! ## The tokens of a member -/

/-- The end of a modifier's parameters, wherever the parenthesis closes. -/
def parametersEnd (tokens : List Token) (index : ℕ) : ℕ :=
  if wordAt tokens (index + 2) = some "(" then
    (findMatching tokens (index + 2) "(" ")").elim 0 (· + 1)
  else 0

/-- **The end of the tokens a member is made of** that is found at an
index. -/
def memberEnd (keccak256 : String → HexText) (name path : String) (tokens : List Token)
    (index : ℕ) : ℕ :=
  match parseFunction keccak256 name path tokens index with
  | some (_, stop) => min (stop + 1) tokens.length
  | none =>
    match if wordAt tokens index = some "modifier" then parseModifier name path tokens index
      else none with
    | some (_, stop) => max (stop + 1) (parametersEnd tokens index)
    | none => index + memberLengthFrom 0 (tokens.drop index)

/-- The parenthesis of a modifier's parameters closes within the modifier, if
it closes at all. -/
def ModifierShape.Closes (shape : ModifierShape) (rest : List String) : Prop :=
  ∀ parameters after,
    shape.words ++ rest = ["modifier", shape.name] ++ "(" :: (parameters ++ ")" :: after) →
    Nested "(" ")" parameters → parameters.length + 4 ≤ shape.words.length

theorem parametersEnd_le_iff (shape : ModifierShape)
    (hwords : words tokens = before ++ (shape.words ++ rest)) :
    parametersEnd tokens before.length ≤ before.length + shape.words.length ↔
      shape.Closes rest := by
  have hplace : before.length + 2 = (before ++ ["modifier", shape.name]).length := by
    rw [List.length_append]
    rfl
  have hparen : ∀ {ws : List String}, shape.words ++ rest = ["modifier", shape.name] ++ ws →
      words tokens = (before ++ ["modifier", shape.name]) ++ ws := by
    intro ws h
    rw [hwords, h, List.append_assoc]
  constructor
  · intro hle parameters after hsplit hnested
    have hopen := hparen hsplit
    rw [parametersEnd, hplace, if_pos (wordAt_of_words hopen),
      findMatching_of_words (by decide) hopen hnested, Option.elim_some, ← hplace] at hle
    omega
  · intro hcloses
    rw [parametersEnd]
    split
    · rename_i hword
      cases hclose : findMatching tokens (before.length + 2) "(" ")" with
      | none => exact Nat.zero_le _
      | some stop =>
        obtain ⟨ws, hws⟩ : ∃ ws, shape.words ++ rest = ["modifier", shape.name] ++ ws :=
          ⟨_, by rw [ModifierShape.words]; rfl⟩
        have hopen := hparen hws
        rw [hplace] at hword hclose
        cases ws with
        | nil =>
          have hlt := exists_of_wordAt hword
          rw [← length_words, hopen, List.append_nil] at hlt
          exact absurd hlt (Nat.lt_irrefl _)
        | cons w ws =>
          rw [wordAt_of_words hopen] at hword
          obtain rfl := Option.some.inj hword
          obtain ⟨parameters, after, rfl, hnested, rfl⟩ :=
            exists_nested_of_findMatching (by decide) hopen hclose
          have hle := hcloses parameters after hws hnested
          rw [Option.elim_some, ← hplace]
          omega
    · exact Nat.zero_le _

theorem functionBegins_ne_modifier {ws : List String} (h : FunctionBegins ws) :
    ¬ ∃ rest, ws = "modifier" :: rest := by
  rintro ⟨rest, rfl⟩
  obtain ⟨shape, after, hsplit, -⟩ := h
  have hkind := shape.isKind
  rw [FunctionShape.words] at hsplit
  simp only [List.append_assoc, List.cons_append, List.cons.injEq] at hsplit
  rw [← hsplit.1] at hkind
  cases hkind

/-- Other members are made of tokens their round passes. -/
theorem memberEnd_le_of_not (hwords : words tokens = before ++ rest)
    (hmodifier : ¬ ModifierBegins rest) :
    memberEnd keccak256 name path tokens before.length ≤
      (parseMember keccak256 name path tokens before.length).2 := by
  cases hfunction : parseFunction keccak256 name path tokens before.length with
  | some found =>
    rw [memberEnd, parseMember, hfunction]
    exact Nat.min_le_left _ _
  | none =>
    have hnot : ¬ FunctionBegins rest := by
      rintro ⟨shape, after, rfl, hends⟩
      obtain ⟨fn, stop, hsome, -⟩ :=
        @exists_parseFunction_of_shape _ _ _ keccak256 name path shape hwords hends
      cases hfunction.symm.trans hsome
    rw [parseMember_of_other hwords hnot hmodifier, memberEnd, hfunction]
    dsimp only
    split
    · rename_i found stop hfound
      split at hfound
      · rename_i hword
        cases rest with
        | nil =>
          have hlt := exists_of_wordAt hword
          rw [← length_words, hwords, List.append_nil] at hlt
          exact absurd hlt (Nat.lt_irrefl _)
        | cons w behind =>
          rw [wordAt_of_words hwords] at hword
          obtain rfl := Option.some.inj hword
          have hsome : (parseModifier name path tokens before.length).isSome := by
            rw [hfound]
            rfl
          exact absurd (modifierBegins_of_parseModifier hwords hsome) hmodifier
      · cases hfound
    · exact Nat.le_succ _

/-- **A modifier is, if its parameters close within it**, and only then. -/
theorem memberEnd_le_iff (shape : ModifierShape)
    (hwords : words tokens = before ++ (shape.words ++ rest)) :
    memberEnd keccak256 name path tokens before.length ≤
        (parseMember keccak256 name path tokens before.length).2 ↔ shape.Closes rest := by
  have hfirst : words tokens = before ++ "modifier" :: (shape.name :: shape.gap ++
      openBrace :: (shape.body ++ [closeBrace]) ++ rest) := by
    rw [hwords, ModifierShape.words]
    simp only [List.append_assoc, List.cons_append]
  have hnone : parseFunction keccak256 name path tokens before.length = none := by
    rw [← Option.not_isSome_iff_eq_none]
    exact fun h => functionBegins_ne_modifier (functionBegins_of_parseFunction hfirst h) ⟨_, rfl⟩
  obtain ⟨modifier, stop, hparse, -, hstop⟩ := exists_parseModifier_of_shape shape hwords
  rw [memberEnd, parseMember, hnone]
  dsimp only
  rw [if_pos (wordAt_of_words hfirst), hparse]
  dsimp only
  rw [← parametersEnd_le_iff shape hwords, hstop]
  exact ⟨fun h => (Nat.le_max_right _ _).trans h, fun h => Nat.max_le.mpr ⟨Nat.le_refl _, h⟩⟩

theorem findMatching_lt {start stop : ℕ} {opening closing : String}
    (h : findMatching tokens start opening closing = some stop) : stop < tokens.length := by
  obtain ⟨n, hn, rfl⟩ := Option.map_eq_some_iff.mp h
  have hlt := findMatchingFrom_lt hn
  rw [List.length_drop] at hlt
  omega

theorem memberLengthFrom_le (ts : List Token) (round : ℤ) :
    memberLengthFrom round ts ≤ ts.length := by
  induction ts generalizing round with
  | nil => exact Nat.le_refl 0
  | cons t ts ih =>
    rw [memberLengthFrom]
    split
    · exact Nat.zero_le _
    split
    · cases hclose : findMatchingFrom openBrace closeBrace 0 (t :: ts) with
      | none => exact Nat.zero_le _
      | some n => exact (findMatchingFrom_lt hclose).le
    · exact Nat.succ_le_succ (ih _)

theorem parametersEnd_le (tokens : List Token) (index : ℕ) :
    parametersEnd tokens index ≤ tokens.length := by
  rw [parametersEnd]
  split
  · cases hclose : findMatching tokens (index + 2) "(" ")" with
    | none => exact Nat.zero_le _
    | some stop => exact findMatching_lt hclose
  · exact Nat.zero_le _

/-- All are made of the contract's tokens. -/
theorem memberEnd_le_length {index : ℕ} (h : index < tokens.length) :
    memberEnd keccak256 name path tokens index ≤ tokens.length := by
  unfold memberEnd
  split
  · exact Nat.min_le_right _ _
  split
  · rename_i found stop hfound
    refine Nat.max_le.mpr ⟨?_, parametersEnd_le tokens index⟩
    split at hfound
    · unfold parseModifier at hfound
      split at hfound
      · dsimp only at hfound
        split at hfound
        · obtain ⟨close, hclose, heq⟩ := Option.map_eq_some_iff.mp hfound
          have hstop : close = stop := congrArg Prod.snd heq
          exact hstop ▸ findMatching_lt hclose
        · cases hfound
      · cases hfound
    · cases hfound
  · have hle := memberLengthFrom_le (tokens.drop index) 0
    rw [List.length_drop] at hle
    omega

end Members

/-! ## What is returned -/

/-- The name the parser gives a function. -/
def FunctionDeclaration.givenName (f : FunctionDeclaration) : String :=
  if f.kind = .function then f.name else keywordOf f.kind

/-- **A modifier's declaration**: a name, parameters or none, attributes and a
body. -/
structure ModifierDeclaration where
  name : String
  parameters : Option (List String)
  header : List HeaderItem
  body : List String
  isName : IsName name
  nested : ∀ ps ∈ parameters, Nested "(" ")" ps
  bodyFree : ∀ ps ∈ parameters, ∀ w ∈ ps, BodyFree w
  attributes : ∀ item ∈ header, item.words = ["virtual"] ∨ ∃ bases, item = .override bases
  nestedBody : Nested openBrace closeBrace body

namespace ModifierDeclaration

/-- The words between its name and its body. -/
def headerWords (m : ModifierDeclaration) : List String :=
  m.parameters.elim [] parenthesised ++ m.header.flatMap (·.words)

def words (m : ModifierDeclaration) : List String :=
  "modifier" :: m.name :: m.headerWords ++ openBrace :: (m.body ++ [closeBrace])

end ModifierDeclaration

/-- Words that leave no block open. The names `fallback` and `receive` begin a
function behind a statement or a block only. -/
structure MemberPlace (kind : Option SolidityFunctionKind) (before : List String) : Prop where
  nested : Nested openBrace closeBrace before
  begins : kind = some .fallback ∨ kind = some .receive →
    ∀ w ∈ before.getLast?, w = ";" ∨ w = closeBrace

section Returned

variable (keccak256 : String → HexText) (name path : String) (body : List Token)

/-- **No member of a contract's body is lost**: the index increases, the
members found are all returned, each from the tokens its round passes, and
every declared function and every declared modifier is found at its place. -/
structure KeepsMembers : Prop where
  increases : (memberRounds keccak256 name path body).Pairwise (· < ·)
  bounded : ∀ i ∈ memberRounds keccak256 name path body, i < body.length
  returned : parseContractBody keccak256 name path body =
    ((memberRounds keccak256 name path body).map fun i =>
      (parseMember keccak256 name path body i).1).foldr ContractMembers.append ⟨[], [], []⟩
  disjoint : (memberRounds keccak256 name path body).Pairwise fun i j =>
    (parseMember keccak256 name path body i).2 ≤ j
  within : ∀ i ∈ memberRounds keccak256 name path body,
    memberEnd keccak256 name path body i ≤ (parseMember keccak256 name path body i).2 ∧
      memberEnd keccak256 name path body i ≤ body.length
  functions : ∀ (f : FunctionDeclaration) before after,
    words body = before ++ (f.words ++ after) → MemberPlace (some f.kind) before →
    before.length ∈ memberRounds keccak256 name path body ∧
      ∃ fn, (parseMember keccak256 name path body before.length).1 = ⟨[], [], [fn]⟩ ∧
        fn.kind = f.kind ∧ fn.name = f.givenName
  modifiers : ∀ (m : ModifierDeclaration) before after,
    words body = before ++ (m.words ++ after) → MemberPlace none before →
    before.length ∈ memberRounds keccak256 name path body ∧
      ∃ modifier, (parseMember keccak256 name path body before.length).1 = ⟨[], [modifier], []⟩ ∧
        modifier.name = m.name

end Returned

/-- **Its words are well delimited**: what stands before each declared function
and modifier splits into members as the scans delimit them, and the parameters
of what is taken for a modifier close within it. -/
structure WellDelimited (ws : List String) : Prop where
  functions : ∀ (f : FunctionDeclaration) before after,
    ws = before ++ (f.words ++ after) → MemberPlace (some f.kind) before →
      Delimited before (f.words ++ after)
  modifiers : ∀ (m : ModifierDeclaration) before after,
    ws = before ++ (m.words ++ after) → MemberPlace none before →
      Delimited before (m.words ++ after)
  parameters : ∀ (shape : ModifierShape) before rest,
    ws = before ++ (shape.words ++ rest) → Delimited before (shape.words ++ rest) →
      shape.Closes rest

section Found

variable {keccak256 : String → HexText} {name path : String} {after : List String}

/-- **A declared function is found** by a round at its place. -/
theorem exists_found_function (f : FunctionDeclaration)
    (hwords : words tokens = before ++ (f.words ++ after)) :
    ∃ fn, (parseMember keccak256 name path tokens before.length).1 = ⟨[], [], [fn]⟩ ∧
      fn.kind = f.kind ∧ fn.name = f.givenName := by
  have hwords' : words tokens = before ++ f.words ++ after := by
    rw [hwords, List.append_assoc]
  obtain ⟨extent, hextent, -, -⟩ := exists_functionExtent hwords'
  obtain ⟨keyword, hvalue, hparse⟩ := parseFunction_of_words keccak256 name path hwords' hextent
  refine ⟨functionOf keccak256 name path tokens before.length keyword f.kind extent, ?_, rfl, ?_⟩
  · rw [parseMember, hparse]
  · rw [FunctionDeclaration.givenName]
    by_cases hfunction : f.kind = .function
    · have hname : words tokens = (before ++ [keywordOf f.kind]) ++
          f.name :: (parenthesised f.parameters ++ f.headerWords ++ f.bodyWords ++ after) := by
        rw [hwords, FunctionDeclaration.words, FunctionDeclaration.opening, if_pos hfunction]
        simp
      have hword := wordAt_of_words hname
      rw [List.length_append, List.length_singleton] at hword
      simp only [functionOf]
      rw [if_pos hfunction, if_pos hfunction, hword, Option.getD_some]
    · simp only [functionOf]
      rw [if_neg hfunction, if_neg hfunction, hvalue]

theorem ModifierDeclaration.headerFree (m : ModifierDeclaration) : openBrace ∉ m.headerWords := by
  intro hmem
  rcases List.mem_append.mp hmem with h | h
  · cases hparameters : m.parameters with
    | none =>
      rw [hparameters] at h
      cases h
    | some ps =>
      rw [hparameters, Option.elim_some, mem_parenthesised] at h
      rcases h with h | h | h
      · exact absurd h (by decide)
      · exact (m.bodyFree ps hparameters openBrace h).1 rfl
      · exact absurd h (by decide)
  · obtain ⟨item, hitem, hw⟩ := List.mem_flatMap.mp h
    rcases m.attributes item hitem with hvirtual | ⟨bases, rfl⟩
    · rw [hvirtual] at hw
      exact absurd (List.mem_singleton.mp hw) (by decide)
    · exact ((HeaderItem.override bases).bodyFree id hw).1 rfl

/-- The shape of a declared modifier. -/
def ModifierDeclaration.shape (m : ModifierDeclaration) : ModifierShape where
  name := m.name
  gap := m.headerWords
  body := m.body
  gapFree := m.headerFree
  nested := m.nestedBody

/-- **And a declared modifier.** -/
theorem exists_found_modifier (m : ModifierDeclaration)
    (hwords : words tokens = before ++ (m.words ++ after)) :
    ∃ modifier, (parseMember keccak256 name path tokens before.length).1 = ⟨[], [modifier], []⟩ ∧
      modifier.name = m.name := by
  have hfirst : words tokens = before ++ "modifier" :: (m.name :: m.headerWords ++
      openBrace :: (m.body ++ [closeBrace]) ++ after) := by
    rw [hwords, ModifierDeclaration.words]
    simp only [List.append_assoc, List.cons_append]
  have hnone : parseFunction keccak256 name path tokens before.length = none := by
    rw [← Option.not_isSome_iff_eq_none]
    exact fun h => functionBegins_ne_modifier (functionBegins_of_parseFunction hfirst h) ⟨_, rfl⟩
  obtain ⟨modifier, stop, hparse, hname, -⟩ :=
    @exists_parseModifier_of_shape _ _ _ name path m.shape hwords
  refine ⟨modifier, ?_, hname⟩
  rw [parseMember, hnone]
  dsimp only
  rw [if_pos (wordAt_of_words hfirst), hparse]

end Found

/-! ## Files -/

/-- The indices at which rounds of `parseFile` begin. -/
def contractRounds (keccak256 : String → HexText) (path : String) (tokens : List Token) :
    List ℕ :=
  roundsFrom (fun i => (parseContract keccak256 path tokens i).2)
    (fun _ => index_lt_parseContract) tokens.length 0

/-- **A file is scanned in order**: the index increases, all that its rounds
find is returned, from tokens that the round passes, and a contract's members
are those of the tokens inside its braces. -/
structure FileScanned (keccak256 : String → HexText) (path : String) (tokens : List Token) :
    Prop where
  increases : (contractRounds keccak256 path tokens).Pairwise (· < ·)
  bounded : ∀ i ∈ contractRounds keccak256 path tokens, i < tokens.length
  returned : parseFile keccak256 path tokens =
    ((contractRounds keccak256 path tokens).map fun i =>
      (parseContract keccak256 path tokens i).1).foldr SoliditySourceAst.append ⟨[], []⟩
  disjoint : (contractRounds keccak256 path tokens).Pairwise fun i j =>
    (parseContract keccak256 path tokens i).2 ≤ j
  within : ∀ i ∈ contractRounds keccak256 path tokens,
    ∀ contract ∈ (parseContract keccak256 path tokens i).1.contracts,
    ∃ extent : ContractExtent, i < extent.bodyOpen ∧ extent.bodyOpen ≤ extent.bodyClose ∧
      extent.bodyClose < tokens.length ∧
      extent.bodyClose < (parseContract keccak256 path tokens i).2 ∧
      ContractMembers.mk contract.stateVariables contract.modifiers contract.functions =
        parseContractBody keccak256 contract.name path (extent.body tokens)

theorem parseFileFrom_eq (keccak256 : String → HexText) (path : String) (tokens : List Token)
    (i : ℕ) :
    parseFileFrom keccak256 path tokens i =
      ((roundsFrom (fun i => (parseContract keccak256 path tokens i).2)
        (fun _ => index_lt_parseContract) tokens.length i).map fun i =>
          (parseContract keccak256 path tokens i).1).foldr SoliditySourceAst.append ⟨[], []⟩ := by
  fun_induction parseFileFrom keccak256 path tokens i with
  | case1 i hlt round ih =>
    rw [roundsFrom_of_lt hlt, List.map_cons, List.foldr_cons, ih]
  | case2 i hle =>
    rw [roundsFrom_of_le (Nat.not_lt.mp hle)]
    rfl

theorem bodyClose_lt {path : String} {place : ℕ} {extent : ContractExtent}
    (h : contractExtent path tokens place = .ok extent) : extent.bodyClose < tokens.length := by
  unfold contractExtent at h
  split at h
  · cases h
  split at h
  · cases h
  dsimp only at h
  split at h
  · cases h
  split at h
  · split at h
    · cases h
    · rename_i hclose
      cases h
      exact findMatching_lt hclose
  · cases h

/-- **Every file is.** -/
theorem fileScanned (keccak256 : String → HexText) (path : String) (tokens : List Token) :
    FileScanned keccak256 path tokens where
  increases := increasing_roundsFrom
  bounded i hi := (bounds_of_mem_roundsFrom hi).2
  returned := parseFileFrom_eq keccak256 path tokens 0
  disjoint := pairwise_roundsFrom
  within i hi contract hcontract := by
    unfold parseContract at hcontract ⊢
    split at hcontract
    · cases hcontract
    · rename_i extent hextent
      obtain rfl := List.mem_singleton.mp hcontract
      obtain ⟨hopen, hclose⟩ := contractExtent_bounds hextent
      have hplace := @le_keywordPlace tokens i
      exact ⟨extent, by omega, hclose, bodyClose_lt hextent, Nat.lt_succ_self _, rfl⟩

/-! ## Every body -/

/-- **What is well delimited is kept.** -/
theorem keepsMembers_of_wellDelimited (keccak256 : String → HexText) (name path : String)
    {body : List Token} (h : WellDelimited (words body)) :
    KeepsMembers keccak256 name path body where
  increases := increasing_roundsFrom
  bounded i hi := (bounds_of_mem_roundsFrom hi).2
  returned := parseContractBodyFrom_eq body 0
  disjoint := pairwise_roundsFrom
  within i hi := by
    have hlt : i < body.length := (bounds_of_mem_roundsFrom hi).2
    refine ⟨?_, memberEnd_le_length hlt⟩
    have hplace : ((words body).take i).length = i := by
      rw [List.length_take, length_words, Nat.min_eq_left hlt.le]
    have hsplit : words body = (words body).take i ++ (words body).drop i :=
      (List.take_append_drop i _).symm
    rw [← hplace] at hi ⊢
    have hdelimited := ((mem_memberRounds_iff hsplit).mp hi).2
    by_cases hmodifier : ModifierBegins ((words body).drop i)
    · obtain ⟨shape, rest, hrest⟩ := hmodifier
      rw [hrest] at hsplit hdelimited
      exact (memberEnd_le_iff shape hsplit).mpr (h.parameters shape _ rest hsplit hdelimited)
    · exact memberEnd_le_of_not hsplit hmodifier
  functions f before after hwords hplace := by
    refine ⟨(mem_memberRounds_iff hwords).mpr ⟨?_, h.functions f before after hwords hplace⟩,
      exists_found_function f hwords⟩
    rw [FunctionDeclaration.words, parenthesised]
    simp
  modifiers m before after hwords hplace :=
    ⟨(mem_memberRounds_iff hwords).mpr ⟨nofun, h.modifiers m before after hwords hplace⟩,
      exists_found_modifier m hwords⟩

/-- **The parser ends, and keeps every member, exactly of what is well
delimited.** -/
theorem keepsMembers_iff (keccak256 : String → HexText) (name path : String)
    (file body : List Token) :
    FileScanned keccak256 path file ∧ KeepsMembers keccak256 name path body ↔
      WellDelimited (words body) := by
  constructor
  · rintro ⟨-, h⟩
    refine ⟨fun f before after hwords hplace => ?_, fun m before after hwords hplace => ?_,
      fun shape before rest hwords hdelimited => ?_⟩
    · exact ((mem_memberRounds_iff hwords).mp (h.functions f before after hwords hplace).1).2
    · exact ((mem_memberRounds_iff hwords).mp (h.modifiers m before after hwords hplace).1).2
    · have hround := (@mem_memberRounds_iff _ _ _ keccak256 name path hwords).mpr
        ⟨nofun, hdelimited⟩
      exact (memberEnd_le_iff shape hwords).mp (h.within _ hround).1
  · exact fun h => ⟨fileScanned keccak256 path file, keepsMembers_of_wellDelimited _ _ _ h⟩

/-! ## A modifier without a body -/

/-- What an abstract contract may hold: a modifier that its heirs define, and
a function behind it. -/
def guardedTokens : List Token :=
  tokenize "modifier guard() virtual; function f() public \x7b \x7d"

theorem isName_f : IsName "f" := by decide

theorem public_mem : "public" ∈ plainAttributes := List.mem_cons_self

theorem nested_of_mem_empty {b : List String} (h : b ∈ some ([] : List String)) :
    Nested openBrace closeBrace b := by
  obtain rfl : [] = b := Option.some.inj h
  exact nested_of_free (List.forall_mem_nil _)

/-- `function f() public`, with an empty body. -/
def publicFunction : FunctionDeclaration where
  kind := .function
  name := "f"
  parameters := []
  header := [.flag "public" public_mem]
  body := some []
  isName := isName_f
  nested := nested_noParameters
  lexemes := lexemes_noParameters
  nestedBody _ hb := nested_of_mem_empty hb

/-- **The function is lost**: the modifier is taken to end with its body. -/
theorem not_keepsMembers_guarded :
    ¬ (FileScanned (fun _ => ⟨[], List.forall_mem_nil _⟩) "a.sol" guardedTokens ∧
      KeepsMembers (fun _ => ⟨[], List.forall_mem_nil _⟩) "A" "a.sol" guardedTokens) := by
  rintro ⟨-, h⟩
  have hwords : words guardedTokens =
      ["modifier", "guard", "(", ")", "virtual", ";"] ++ (publicFunction.words ++ []) := by
    decide +kernel
  have hnested : Nested openBrace closeBrace
      ["modifier", "guard", "(", ")", "virtual", ";"] := nested_of_free (by decide)
  have hround := (h.functions publicFunction _ [] hwords
    ⟨hnested, fun hkind => absurd hkind (by decide)⟩).1
  have hlength : guardedTokens.length = 13 := by decide +kernel
  have hnext : (parseMember (fun _ => ⟨[], List.forall_mem_nil _⟩) "A" "a.sol"
      guardedTokens 0).2 = 13 := by decide +kernel
  rw [memberRounds, roundsFrom_of_lt (by rw [hlength]; decide), hnext,
    roundsFrom_of_le hlength.le] at hround
  exact absurd hround (by decide)

end HoodSentry
