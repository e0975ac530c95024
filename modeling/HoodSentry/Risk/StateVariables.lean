import HoodSentry.Risk.Recovery
/-!
# State variables

A contract's body as its author writes it, and what `parseContractBody` takes
for its state variables. A variable is recognised by the absence of an opening
parenthesis in the whole of its declaration, unless that begins with a
mapping: one whose initial value calls a function is lost. Where the scans
delimit the members (`Kept`), the variables found are those declared exactly
if none is written with such a parenthesis (`findsVariables_iff`).
-/

namespace HoodSentry

/-! ## Members -/

/-- A word that is no part of a variable's type. -/
def IsVariableAttribute (w : String) : Prop :=
  (visibilityOf w).isSome ∨ w ∈ ["constant", "immutable", "override"]
deriving Decidable

/-- A word of a type. -/
def IsTypeWord (w : String) : Prop := BodyFree w ∧ w ≠ "=" ∧ ¬ IsVariableAttribute w
deriving Decidable

/-- **A state variable's declaration**: a type, attributes, a name, and the
words of an expression or none. -/
structure VariableDeclaration where
  first : String
  rest : List String
  attributes : List String
  name : String
  initializer : Option (List String)
  noFunction : functionKindOf first = none
  noModifier : first ≠ "modifier"
  noDeclaration : first ∉ NON_VARIABLE_DECLARATIONS
  typeWords : ∀ w ∈ first :: rest, IsTypeWord w
  nestedType : Nested "(" ")" (first :: rest)
  areAttributes : ∀ w ∈ attributes, IsVariableAttribute w
  isName : IsName name
  nestedInitializer : ∀ e ∈ initializer, Nested "(" ")" e
  noStatement : ∀ e ∈ initializer, ";" ∉ e

namespace VariableDeclaration

/-- The words up to the name. -/
def front (v : VariableDeclaration) : List String := v.first :: v.rest ++ v.attributes ++ [v.name]

/-- The words of the initial value. -/
def value (v : VariableDeclaration) : List String := v.initializer.elim [] ("=" :: ·)

/-- The words before the semicolon. -/
def words (v : VariableDeclaration) : List String := v.front ++ v.value

/-- Its name and type. -/
def declared (v : VariableDeclaration) : String × String :=
  (v.name, String.join (v.first :: v.rest))

/-- No parenthesis opens in it, or it is a mapping. -/
def Plain (v : VariableDeclaration) : Prop := v.first = "mapping" ∨ "(" ∉ v.words

instance (v : VariableDeclaration) : Decidable v.Plain := inferInstanceAs (Decidable (_ ∨ _))

/-- No brace opens outside of the parentheses of its value. -/
def Kept (v : VariableDeclaration) : Prop := Unbroken 0 v.value

end VariableDeclaration

/-- An event, an error, a `using` directive without a list, a structure, an
enumeration or a type, behind its keyword. -/
structure OtherDeclaration where
  keyword : String
  rest : List String
  block : Option (List String)
  isKeyword : keyword ∈ NON_VARIABLE_DECLARATIONS
  bodyFree : ∀ w ∈ rest, BodyFree w
  nested : Nested "(" ")" rest
  nestedBlock : ∀ b ∈ block, Nested openBrace closeBrace b

namespace OtherDeclaration

def ending (d : OtherDeclaration) : List String :=
  d.block.elim [";"] fun b => openBrace :: (b ++ [closeBrace])

def words (d : OtherDeclaration) : List String := d.keyword :: d.rest ++ d.ending

end OtherDeclaration

/-- **A member of a contract's body.** A modifier may be left to the heirs, and
a `using` directive may list functions in braces. -/
inductive BodyMember
  | function (f : FunctionDeclaration)
  | modifier (m : ModifierDeclaration)
  | modifierOfHeirs (name : String) (header : List String)
  | declaration (d : OtherDeclaration)
  | usingList (functions target : List String)
  | state (v : VariableDeclaration)

namespace BodyMember

def words : BodyMember → List String
  | function f => f.words
  | modifier m => m.words
  | modifierOfHeirs name header => "modifier" :: name :: header ++ [";"]
  | declaration d => d.words
  | usingList functions target =>
    "using" :: openBrace :: (functions ++ closeBrace :: target) ++ [";"]
  | state v => v.words ++ [";"]

/-- **The scans delimit it**: it is no modifier of the heirs and no list of
functions, and no brace stands in a modifier's arguments, or outside of
parentheses in a value. -/
def Kept : BodyMember → Prop
  | function f => ¬ f.Cut
  | modifier _ | declaration _ => True
  | modifierOfHeirs _ _ | usingList _ _ => False
  | state v => v.Kept

def declaration? : BodyMember → Option VariableDeclaration
  | state v => some v
  | _ => none

end BodyMember

/-- The variables that members declare. -/
def variablesOf (members : List BodyMember) : List VariableDeclaration :=
  members.filterMap (·.declaration?)

/-- **The variables found are those declared**, in order, with their names and
types. -/
def FindsVariables (keccak256 : String → HexText) (name path : String) (body : List Token)
    (members : List BodyMember) : Prop :=
  (parseContractBody keccak256 name path body).stateVariables.map (fun v => (v.name, v.type)) =
    (variablesOf members).map (·.declared)

/-! ## Unbroken words -/

variable {ws vs : List String} {round : ℤ}

theorem unbroken_of_free (h : ∀ w ∈ ws, w ≠ ";" ∧ w ≠ openBrace) : Unbroken round ws := by
  rintro a w b rfl -
  exact h w (List.mem_append_right _ List.mem_cons_self)

theorem Unbroken.append (h : Unbroken round ws)
    (h' : Unbroken (round + depthSum "(" ")" ws) vs) : Unbroken round (ws ++ vs) := by
  intro a w b hsplit hzero
  rcases List.append_eq_append_iff.mp hsplit with ⟨c, rfl, hvs⟩ | ⟨c, rfl, hrest⟩
  · refine h' c w b hvs ?_
    rw [add_assoc, ← depthSum_append, hzero]
  · cases c with
    | nil =>
      rw [List.append_nil] at h'
      exact h' [] w b hrest.symm (by rw [depthSum_nil, add_zero, hzero])
    | cons v c =>
      obtain ⟨rfl, -⟩ := List.cons.inj hrest
      exact h a w c rfl hzero

/-! ## A variable's declaration -/

theorem IsName.visibilityOf_eq_none {w : String} (h : IsName w) : visibilityOf w = none := by
  unfold visibilityOf
  split
  · exact absurd h.2 (by decide)
  · exact absurd h.2 (by decide)
  · exact absurd h.2 (by decide)
  · exact absurd h.2 (by decide)
  · rfl

namespace VariableDeclaration

variable (v : VariableDeclaration)

theorem free_of_attribute {w : String} (h : IsVariableAttribute w) :
    BodyFree w ∧ w ≠ "=" ∧ w ≠ "(" ∧ w ≠ ")" := by
  refine ⟨⟨?_, ?_, ?_⟩, ?_, ?_, ?_⟩
  all_goals
    rintro rfl
    exact absurd h (by decide)

theorem front_free {w : String} (h : w ∈ v.front) : BodyFree w ∧ w ≠ "=" := by
  rcases List.mem_append.mp h with h | h
  · rcases List.mem_append.mp h with h | h
    · exact ⟨(v.typeWords w h).1, (v.typeWords w h).2.1⟩
    · exact ⟨(free_of_attribute (v.areAttributes w h)).1,
        (free_of_attribute (v.areAttributes w h)).2.1⟩
  · obtain rfl := List.mem_singleton.mp h
    refine ⟨(ne_of_isIdentifier v.isName.1).1, ?_⟩
    intro heq
    have hname := v.isName.1
    rw [heq] at hname
    exact absurd hname (by decide)

theorem nested_front : Nested "(" ")" v.front := by
  refine (v.nestedType.append (nested_of_free fun w hw => ?_)).append
    (nested_of_free fun w hw => ?_)
  · exact (free_of_attribute (v.areAttributes w hw)).2.2
  · obtain rfl := List.mem_singleton.mp hw
    obtain ⟨-, hopen, hclose, -⟩ := ne_of_isIdentifier v.isName.1
    exact ⟨hopen, hclose⟩

theorem nested_value : Nested "(" ")" v.value := by
  rw [value]
  cases hvalue : v.initializer with
  | none => exact nested_of_free (List.forall_mem_nil _)
  | some e =>
    have hequals : Nested "(" ")" ["="] := nested_of_free (by decide)
    exact hequals.append (v.nestedInitializer e hvalue)

theorem nested_words : Nested "(" ")" v.words := v.nested_front.append v.nested_value

variable {v} in
theorem unbroken_words (h : v.Kept) : Unbroken 0 v.words := by
  have hfront : Unbroken 0 v.front :=
    unbroken_of_free fun w hw => ⟨(v.front_free hw).1.2.2, (v.front_free hw).1.1⟩
  refine hfront.append ?_
  rw [v.nested_front.balanced, add_zero]
  exact h

end VariableDeclaration

/-! ## What a declaration reads as -/

theorem isVariableAttribute_iff {t : Token} :
    isVariableAttribute t = true ↔ IsVariableAttribute t.value := by
  rw [isVariableAttribute, Bool.or_eq_true, List.contains_iff_mem, IsVariableAttribute]

section Declarations

variable {tokens : List Token} {name path : String}

/-- The tokens of a type, of attributes and of a name, without the
attributes. -/
theorem filter_attributes {types attributes : List Token}
    (htypes : ∀ w ∈ words types, IsTypeWord w)
    (hattributes : ∀ w ∈ words attributes, IsVariableAttribute w) :
    (types ++ attributes).filter (fun token => !isVariableAttribute token) = types := by
  rw [List.filter_append, List.filter_eq_self.mpr, List.filter_eq_nil_iff.mpr, List.append_nil]
  · intro t ht
    rw [isVariableAttribute_iff.mpr (hattributes _ (List.mem_map_of_mem ht))]
    exact Bool.false_ne_true
  · intro t ht
    rw [Bool.not_eq_true', Bool.eq_false_iff]
    exact fun h => (htypes _ (List.mem_map_of_mem ht)).2.2 (isVariableAttribute_iff.mp h)

/-- Up to the value there are no equals signs. -/
theorem takeWhile_front {v : VariableDeclaration} {front value : List Token}
    (hfront : words front = v.front) (hvalue : words value = v.value) :
    (front ++ value).takeWhile (fun token => token.value ≠ "=") = front := by
  have hstop : value.takeWhile (fun token => token.value ≠ "=") = [] := by
    cases value with
    | nil => rfl
    | cons t value =>
      rw [words_cons, VariableDeclaration.value] at hvalue
      cases hinitializer : v.initializer with
      | none =>
        rw [hinitializer] at hvalue
        cases hvalue
      | some e =>
        rw [hinitializer, Option.elim_some] at hvalue
        rw [List.takeWhile_cons_of_neg]
        simp [(List.cons.inj hvalue).1]
  rw [List.takeWhile_append_of_pos, hstop, List.append_nil]
  intro t ht
  exact decide_eq_true (v.front_free (hfront ▸ List.mem_map_of_mem ht)).2

/-- The last candidate is the name. -/
theorem dropWhile_name {t : Token} (ht : IsName t.value) (before : List Token) :
    (before ++ [t]).reverse.dropWhile (fun token => !mayName token) = t :: before.reverse := by
  have hmay : mayName t = true := by
    rw [mayName, ht.1, ht.visibilityOf_eq_none]
    rfl
  rw [List.reverse_append, List.reverse_singleton, List.singleton_append,
    List.dropWhile_cons_of_neg]
  rw [hmay]
  exact Bool.false_ne_true

theorem any_parenthesis_iff {v : VariableDeclaration} {first : Token}
    (hwords : words tokens = v.words) (hfirst : first.value = v.first) :
    (tokens.any fun token => token.value = "(" ∧ first.value ≠ "mapping") = true ↔ ¬ v.Plain := by
  have hmem : "(" ∈ v.words ↔ ∃ token ∈ tokens, token.value = "(" := by
    rw [← hwords, words, List.mem_map]
  rw [List.any_eq_true, VariableDeclaration.Plain, not_or, not_not, hmem, hfirst]
  constructor
  · rintro ⟨t, ht, h⟩
    exact ⟨(of_decide_eq_true h).2, t, ht, (of_decide_eq_true h).1⟩
  · rintro ⟨hmapping, t, ht, hopen⟩
    exact ⟨t, ht, decide_eq_true ⟨hopen, hmapping⟩⟩

/-- **A variable is read as declared if it is plain**, and is not read at all
else. -/
theorem parseStateVariable_of_words (v : VariableDeclaration) (hwords : words tokens = v.words) :
    (parseStateVariable name path tokens).map (fun found => (found.name, found.type)) =
      if v.Plain then some v.declared else none := by
  obtain ⟨front, value, rfl, hfront, hvalue⟩ := exists_of_words_append hwords
  obtain ⟨typed, named, rfl, htyped, hnamed⟩ := exists_of_words_append hfront
  obtain ⟨types, attributes, rfl, htypes, hattributes⟩ := exists_of_words_append htyped
  obtain ⟨nameToken, others, rfl, hname, hothers⟩ := List.map_eq_cons_iff.mp hnamed
  obtain rfl := List.map_eq_nil_iff.mp hothers
  obtain ⟨first, rest, rfl, hfirst, hrest⟩ := List.map_eq_cons_iff.mp htypes
  have hany := any_parenthesis_iff hwords hfirst
  have htake := takeWhile_front hfront hvalue
  have hdrop := dropWhile_name (hname ▸ v.isName) (first :: rest ++ attributes)
  have hfilter : (first :: rest ++ attributes).filter (fun token => !isVariableAttribute token) =
      first :: rest :=
    filter_attributes (fun w hw => v.typeWords w (htypes ▸ hw))
      fun w hw => v.areAttributes w (hattributes ▸ hw)
  have hdeclaration : NON_VARIABLE_DECLARATIONS.contains first.value = false := by
    rw [List.contains_eq_mem, hfirst]
    exact decide_eq_false v.noDeclaration
  rw [parseStateVariable.eq_def]
  simp only [List.cons_append] at hany htake hdrop hfilter ⊢
  rw [hdeclaration, if_neg Bool.false_ne_true]
  by_cases hplain : v.Plain
  · rw [if_neg (fun h => (hany.mp h) hplain), if_pos hplain, htake, hdrop]
    simp only [List.reverse_reverse]
    rw [hfilter, if_neg (List.cons_ne_nil _ _), Option.map_some, hname]
    exact congrArg (fun ws => some (v.name, String.join ws)) htypes
  · rw [if_pos (hany.mpr hplain), if_neg hplain]
    rfl

/-- Other declarations are not read as variables. -/
theorem parseStateVariable_of_keyword {keyword : String} {ws : List String}
    (hkeyword : keyword ∈ NON_VARIABLE_DECLARATIONS) (hwords : words tokens = keyword :: ws) :
    parseStateVariable name path tokens = none := by
  obtain ⟨first, rest, rfl, rfl, -⟩ := List.map_eq_cons_iff.mp hwords
  rw [parseStateVariable.eq_def]
  dsimp only
  rw [if_pos]
  rw [List.contains_eq_mem]
  exact decide_eq_true hkeyword

end Declarations

/-! ## A round -/

theorem not_functionBegins {w : String} (h : functionKindOf w = none) :
    ¬ FunctionBegins (w :: ws) := by
  rintro ⟨shape, after, hsplit, -⟩
  have hkind := shape.isKind
  rw [FunctionShape.words] at hsplit
  simp only [List.append_assoc, List.cons_append, List.cons.injEq] at hsplit
  rw [← hsplit.1, h] at hkind
  cases hkind

theorem not_modifierBegins {w : String} (h : w ≠ "modifier") : ¬ ModifierBegins (w :: ws) := by
  rintro ⟨shape, after, hsplit⟩
  rw [ModifierShape.words] at hsplit
  simp only [List.cons_append, List.cons.injEq] at hsplit
  exact h hsplit.1

/-- A declared function has a function's shape, if nothing cuts it. -/
theorem FunctionDeclaration.exists_shape {f : FunctionDeclaration} (h : ¬ f.Cut) :
    ∃ shape : FunctionShape, shape.words = f.words ∧ ∀ rest, shape.ending.Before rest := by
  have hfree : ∀ w ∈ f.headerWords, w ∉ [openBrace, ";"] := by
    intro w hw hstop
    obtain ⟨item, hitem, hw⟩ := List.mem_flatMap.mp hw
    obtain ⟨hbrace, hsemicolon⟩ := item.bodyFree (fun hcut => h ⟨item, hitem, hcut⟩) hw
    rcases List.mem_pair.mp hstop with heq | heq
    · exact hbrace heq
    · exact hsemicolon heq
  let shapeOf (ending : FunctionEnd) : FunctionShape :=
    { keyword := keywordOf f.kind
      kind := f.kind
      name := if f.kind = .function then [f.name] else []
      gap := []
      parameters := f.parameters
      header := f.headerWords
      ending := ending
      isKind := functionKindOf_keywordOf f.kind
      lengthName := by split <;> rfl
      gapFree := List.not_mem_nil
      nested := f.nested
      headerFree := hfree }
  have hwords : ∀ ending, (shapeOf ending).words =
      f.opening ++ parenthesised f.parameters ++ f.headerWords ++ ending.words := by
    intro ending
    rw [FunctionShape.words, FunctionDeclaration.opening, List.append_nil]
    dsimp only [shapeOf]
    split
    · rfl
    · rfl
  cases hbody : f.body with
  | none =>
    refine ⟨shapeOf .semicolon, ?_, fun _ => trivial⟩
    rw [hwords, FunctionDeclaration.words, FunctionDeclaration.bodyWords, hbody]
    rfl
  | some b =>
    refine ⟨shapeOf (.block b (f.nestedBody b hbody)), ?_, fun _ => trivial⟩
    rw [hwords, FunctionDeclaration.words, FunctionDeclaration.bodyWords, hbody]
    rfl

namespace BodyMember

/-- What is found of a member. -/
def found : BodyMember → List (String × String)
  | state v => if v.Plain then [v.declared] else []
  | _ => []

/-- A kept member is delimited. -/
theorem delimited {member : BodyMember} (h : member.Kept) (rest : List String) :
    DelimitedMember member.words rest := by
  cases member with
  | function f =>
    obtain ⟨shape, hwords, hends⟩ := f.exists_shape h
    show DelimitedMember f.words rest
    rw [← hwords]
    exact .function shape (hends rest)
  | modifier m => exact .modifier m.shape rest
  | modifierOfHeirs => exact h.elim
  | usingList => exact h.elim
  | declaration d =>
    have hkeyword : ∀ w ∈ NON_VARIABLE_DECLARATIONS, functionKindOf w = none ∧ w ≠ "modifier" ∧
        (w ≠ ";" ∧ w ≠ openBrace) ∧ depthChange "(" ")" w = 0 := by
      decide
    obtain ⟨hfunction, hmodifier, hfree, hdepth⟩ := hkeyword d.keyword d.isKeyword
    have hunbroken : Unbroken 0 (d.keyword :: d.rest) := unbroken_of_free fun w hw => by
      rcases List.mem_cons.mp hw with rfl | hw
      · exact hfree
      · exact ⟨(d.bodyFree w hw).2.2, (d.bodyFree w hw).1⟩
    have hbalanced : depthSum "(" ")" (d.keyword :: d.rest) = 0 := by
      rw [depthSum_cons, hdepth, d.nested.balanced, add_zero]
    show DelimitedMember (d.keyword :: d.rest ++ d.ending) rest
    rw [OtherDeclaration.ending]
    cases hblock : d.block with
    | none =>
      exact .other .semicolon hunbroken hbalanced trivial (not_functionBegins hfunction)
        (not_modifierBegins hmodifier)
    | some b =>
      exact .other (.block b (d.nestedBlock b hblock)) hunbroken hbalanced trivial
        (not_functionBegins hfunction) (not_modifierBegins hmodifier)
  | state v =>
    exact .other .semicolon (v.unbroken_words h) v.nested_words.balanced trivial
      (not_functionBegins v.noFunction) (not_modifierBegins v.noModifier)

theorem words_ne_nil (member : BodyMember) : member.words ≠ [] := by
  cases member with
  | function f =>
    simp only [words, FunctionDeclaration.words, parenthesised]
    simp
  | modifier m => simp [words, ModifierDeclaration.words]
  | modifierOfHeirs name header => simp [words]
  | declaration d => simp [words, OtherDeclaration.words]
  | usingList functions target => simp [words]
  | state v => simp [words]

end BodyMember

section Rounds

variable {keccak256 : String → HexText} {name path : String} {tokens : List Token}
  {before rest : List String}

/-- The words of a stretch of tokens from a place on. -/
theorem words_slice_of_words (hwords : words tokens = before ++ ws) (k : ℕ) :
    words (slice tokens before.length (before.length + k)) = ws.take k := by
  rw [words_slice, hwords, slice, List.take_length_add_append, List.drop_left]

/-- **A round finds of a kept member what there is to find.** -/
theorem stateVariables_parseMember {member : BodyMember} (h : member.Kept)
    (hwords : words tokens = before ++ (member.words ++ rest)) :
    (parseMember keccak256 name path tokens before.length).1.stateVariables.map
      (fun v => (v.name, v.type)) = member.found := by
  cases member with
  | function f =>
    obtain ⟨fn, hfound, -⟩ := @exists_found_function _ _ keccak256 name path _ f hwords
    rw [hfound]
    rfl
  | modifier m =>
    obtain ⟨modifier, hfound, -⟩ := @exists_found_modifier _ _ keccak256 name path _ m hwords
    rw [hfound]
    rfl
  | modifierOfHeirs => exact h.elim
  | usingList => exact h.elim
  | declaration d =>
    have hkeyword : ∀ w ∈ NON_VARIABLE_DECLARATIONS,
        functionKindOf w = none ∧ w ≠ "modifier" := by
      decide
    obtain ⟨hfunction, hmodifier⟩ := hkeyword d.keyword d.isKeyword
    have hsplit : words tokens = before ++ d.keyword :: (d.rest ++ d.ending ++ rest) := hwords
    rw [parseMember_of_other hsplit (not_functionBegins hfunction)
      (not_modifierBegins hmodifier)]
    have hslice := words_slice_of_words hsplit
      (memberLengthFrom 0 (tokens.drop before.length))
    cases hlength : memberLengthFrom 0 (tokens.drop before.length) with
    | zero =>
      rw [hlength, List.take_zero] at hslice
      rw [List.map_eq_nil_iff.mp hslice]
      rfl
    | succ k =>
      rw [hlength, List.take_succ_cons] at hslice
      rw [parseStateVariable_of_keyword d.isKeyword hslice]
      rfl
  | state v =>
    have hsplit : words tokens = before ++ (v.words ++ ";" :: rest) := by
      rw [hwords, BodyMember.words, List.append_assoc]
      rfl
    have hslice := words_slice_of_words hsplit v.words.length
    rw [List.take_left] at hslice
    have hread := @parseStateVariable_of_words _ name path v hslice
    rw [parseMember_of_other hsplit (not_functionBegins v.noFunction)
      (not_modifierBegins v.noModifier),
      memberLength_of_semicolon hsplit (v.unbroken_words h) v.nested_words.balanced]
    dsimp only
    rw [← Option.toList_map, hread, BodyMember.found]
    split
    · rfl
    · rfl

/-! ## Every body -/

theorem parseContractBodyFrom_of_le {index : ℕ} (h : tokens.length ≤ index) :
    parseContractBodyFrom keccak256 name path tokens index = ⟨[], [], []⟩ := by
  rw [parseContractBodyFrom, if_neg (Nat.not_lt.mpr h)]

/-- **The rounds find of kept members what there is to find**, in order. -/
theorem stateVariables_of_members {members : List BodyMember} (hkept : ∀ m ∈ members, m.Kept)
    (hwords : words tokens = before ++ members.flatMap (·.words)) :
    (parseContractBodyFrom keccak256 name path tokens before.length).stateVariables.map
      (fun v => (v.name, v.type)) = members.flatMap (·.found) := by
  induction members generalizing before with
  | nil =>
    rw [List.flatMap_nil, List.append_nil] at hwords
    rw [parseContractBodyFrom_of_le (by rw [← length_words, hwords])]
    rfl
  | cons member members ih =>
    obtain ⟨hmember, hrest⟩ := List.forall_mem_cons.mp hkept
    rw [List.flatMap_cons] at hwords
    have hlength := length_of_words hwords
    have hpos := List.length_pos_of_ne_nil member.words_ne_nil
    have hgoes := @next_of_member _ _ _ keccak256 name path _ (member.delimited hmember _) hwords
    rw [parseContractBodyFrom, if_pos (by omega), ContractMembers.append]
    simp only [List.map_append, List.flatMap_cons]
    rw [stateVariables_parseMember hmember hwords]
    congr 1
    by_cases hlast : members.flatMap (·.words) = []
    · have hnone : members = [] := by
        cases members with
        | nil => rfl
        | cons next members => exact absurd (List.flatMap_eq_nil_iff.mp hlast next
            List.mem_cons_self) next.words_ne_nil
      rw [parseContractBodyFrom_of_le (hgoes.atEnd hlast), hnone]
      rfl
    · rw [hgoes.atRest hlast, ← List.length_append]
      exact ih hrest (by rw [hwords, List.append_assoc])

theorem flatMap_found (members : List BodyMember) :
    members.flatMap (·.found) =
      ((variablesOf members).filter (·.Plain)).map (·.declared) := by
  induction members with
  | nil => rfl
  | cons member members ih =>
    rw [List.flatMap_cons, ih, variablesOf, variablesOf, List.filterMap_cons]
    cases member with
    | state v =>
      dsimp only [BodyMember.found, BodyMember.declaration?]
      rw [List.filter_cons]
      by_cases hplain : v.Plain
      · rw [if_pos hplain, if_pos (decide_eq_true hplain)]
        rfl
      · rw [if_neg hplain, if_neg (by simpa using hplain)]
        rfl
    | _ => rfl

end Rounds

/-- **The variables found are those declared** exactly if all are plain. -/
theorem findsVariables_iff (keccak256 : String → HexText) (name path : String)
    {body : List Token} {members : List BodyMember} (hkept : ∀ m ∈ members, m.Kept)
    (hwords : words body = members.flatMap (·.words)) :
    FindsVariables keccak256 name path body members ↔
      ∀ v ∈ variablesOf members, v.Plain := by
  have hfound := @stateVariables_of_members keccak256 name path body [] members hkept hwords
  rw [FindsVariables, parseContractBody]
  rw [List.length_nil, flatMap_found] at hfound
  rw [hfound]
  constructor
  · intro h
    have hlength := congrArg List.length h
    rw [List.length_map, List.length_map, List.length_filter_eq_length_iff] at hlength
    exact fun v hv => of_decide_eq_true (hlength v hv)
  · intro h
    rw [List.filter_eq_self.mpr fun v hv => decide_eq_true (h v hv)]

/-! ## An initial value that is called for -/

theorem typeWords_mapping :
    ∀ w ∈ ["mapping", "(", "address", "=>", "uint256", ")"], IsTypeWord w := by
  decide

theorem nested_mapping : Nested "(" ")" ["mapping", "(", "address", "=>", "uint256", ")"] := by
  have hmapping : Nested "(" ")" ["mapping"] := nested_of_free (by decide)
  have hinner : Nested "(" ")" ["address", "=>", "uint256"] := nested_of_free (by decide)
  exact hmapping.append (hinner.wrap (by decide))

theorem attributes_public : ∀ w ∈ ["public"], IsVariableAttribute w := by decide

theorem isName_balances : IsName "balances" := by decide

theorem ne_mapping : "mapping" ≠ "modifier" ∧ "mapping" ∉ NON_VARIABLE_DECLARATIONS := by decide

/-- `mapping(address => uint256) public balances`. -/
def balancesVariable : VariableDeclaration where
  first := "mapping"
  rest := ["(", "address", "=>", "uint256", ")"]
  attributes := ["public"]
  name := "balances"
  initializer := none
  noFunction := rfl
  noModifier := ne_mapping.1
  noDeclaration := ne_mapping.2
  typeWords := typeWords_mapping
  nestedType := nested_mapping
  areAttributes := attributes_public
  isName := isName_balances
  nestedInitializer _ h := absurd h (Option.not_mem_none _)
  noStatement _ h := absurd h (Option.not_mem_none _)

/-- A mapping is found beside a function. -/
theorem findsVariables_balances : FindsVariables (fun _ => ⟨[], List.forall_mem_nil _⟩) "A" "a.sol"
    (tokenize
      "mapping(address => uint256) public balances; function f() public \x7b \x7d")
    [.state balancesVariable, .function publicFunction] := by
  refine (findsVariables_iff _ "A" "a.sol" ?_ ?_).mpr ?_
  · refine List.forall_mem_cons.mpr ⟨unbroken_nil 0, List.forall_mem_singleton.mpr ?_⟩
    rintro ⟨item, hitem, hcut⟩
    obtain rfl := List.mem_singleton.mp hitem
    exact hcut
  · decide +kernel
  · decide

theorem nested_initialCap : Nested "(" ")" ["initialCap", "(", ")"] := by
  have hname : Nested "(" ")" ["initialCap"] := nested_of_free (by decide)
  have hnone : Nested "(" ")" [] := nested_of_free (List.forall_mem_nil _)
  exact hname.append (hnone.wrap (by decide))

theorem initialCap_free :
    ∀ w ∈ ["=", "initialCap", "(", ")"], w ≠ ";" ∧ w ≠ openBrace := by
  decide

theorem isName_cap : IsName "cap" := by decide

theorem typeWords_uint : ∀ w ∈ ["uint256"], IsTypeWord w := by decide

theorem ne_uint : "uint256" ≠ "modifier" ∧ "uint256" ∉ NON_VARIABLE_DECLARATIONS := by decide

theorem free_uint : ∀ w ∈ ["uint256"], w ≠ "(" ∧ w ≠ ")" := by decide

/-- `uint256 cap = initialCap()`. -/
def capVariable : VariableDeclaration where
  first := "uint256"
  rest := []
  attributes := []
  name := "cap"
  initializer := some ["initialCap", "(", ")"]
  noFunction := rfl
  noModifier := ne_uint.1
  noDeclaration := ne_uint.2
  typeWords := typeWords_uint
  nestedType := nested_of_free free_uint
  areAttributes := List.forall_mem_nil _
  isName := isName_cap
  nestedInitializer _ he := Option.some.inj he ▸ nested_initialCap
  noStatement _ he hstop := (initialCap_free ";"
    (List.mem_cons_of_mem _ (Option.some.inj he ▸ hstop))).1 rfl

/-- **The variable is lost.** -/
theorem not_findsVariables_cap :
    ¬ ∀ (keccak256 : String → HexText) (name path : String) (body : List Token)
      (members : List BodyMember), words body = members.flatMap (·.words) →
      FindsVariables keccak256 name path body members := by
  intro h
  have hwords : words (tokenize "uint256 cap = initialCap();") =
      [BodyMember.state capVariable].flatMap (·.words) := by
    decide +kernel
  have hkept : ∀ m ∈ [BodyMember.state capVariable], m.Kept :=
    List.forall_mem_singleton.mpr (unbroken_of_free initialCap_free)
  have hfinds := h (fun _ => ⟨[], List.forall_mem_nil _⟩) "A" "a.sol" _ _ hwords
  have hfound := @stateVariables_of_members (fun _ => ⟨[], List.forall_mem_nil _⟩) "A" "a.sol" _ []
    _ hkept hwords
  have hlost : [BodyMember.state capVariable].flatMap (·.found) = [] := by decide
  rw [hlost] at hfound
  exact absurd (hfound.symm.trans hfinds) (List.cons_ne_nil _ _).symm

end HoodSentry
