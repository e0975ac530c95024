import HoodSentry.Risk.UnguardedFunctions
/-!
# Function signatures

A parameter is an elementary type, the dimensions of an array, a data location
and a name; all but the type may be missing. The compiler's signature has the
canonical type of each. The parser's type of a parameter is its words run
together: without the location, without the last word if that is an
identifier behind no bracket, and widened if nothing but `uint` or `int` is
left. The two are the same for the parameters that are `Plain`.
-/

namespace HoodSentry

/-! ## Parameters -/

/-- **The elementary types**, as an author writes them. -/
inductive ElementaryType
  | address
  | addressPayable
  | bool
  | string
  | bytes
  | byte
  | uint (bits : Option ℕ)
  | int (bits : Option ℕ)
  | fixedBytes (size : ℕ)
  | fixed (size : Option (ℕ × ℕ))
  | ufixed (size : Option (ℕ × ℕ))
deriving DecidableEq

namespace ElementaryType

def base : ElementaryType → String
  | address => "address"
  | addressPayable => "address"
  | bool => "bool"
  | string => "string"
  | bytes => "bytes"
  | byte => "byte"
  | uint _ => "uint"
  | int _ => "int"
  | fixedBytes _ => "bytes"
  | fixed _ => "fixed"
  | ufixed _ => "ufixed"

/-- The size that is part of the word. -/
def size : ElementaryType → String
  | uint (some bits) => bits.repr
  | int (some bits) => bits.repr
  | fixedBytes size => size.repr
  | fixed (some (bits, decimals)) => bits.repr ++ "x" ++ decimals.repr
  | ufixed (some (bits, decimals)) => bits.repr ++ "x" ++ decimals.repr
  | _ => ""

def keyword (type : ElementaryType) : String := type.base ++ type.size

def words (type : ElementaryType) : List String :=
  if type = addressPayable then [type.keyword, "payable"] else [type.keyword]

/-- **The type of a signature.** -/
def canonical : ElementaryType → String
  | byte => "bytes1"
  | uint none => "uint256"
  | int none => "int256"
  | fixed none => "fixed128x18"
  | ufixed none => "ufixed128x18"
  | type => type.keyword

/-- The aliases that the parser does not know. -/
def unknownAliases : List ElementaryType := [byte, fixed none, ufixed none]

def aliases : List ElementaryType := uint none :: int none :: unknownAliases

end ElementaryType

/-- The length of an array: an expression, and the number the compiler makes
of it. -/
structure ArrayLength where
  words : List String
  value : ℕ
  isExpression : ∀ w ∈ words, w ∉ storageWords ∧ ∀ c ∈ w.toList, c ∉ ['[', ']', ',']
  nested : Nested "(" ")" words
  numeral : ∀ n : ℕ, words = [n.repr] → value = n

/-- The words of a dimension; a dynamic one has no length. -/
def dimensionWords : Option ArrayLength → List String
  | none => ["[", "]"]
  | some length => "[" :: (length.words ++ ["]"])

def dimensionText : Option ArrayLength → String
  | none => "[]"
  | some length => "[" ++ length.value.repr ++ "]"

/-- **A parameter of a function.** -/
structure FunctionParameter where
  type : ElementaryType
  dimensions : List (Option ArrayLength)
  location : Option String
  name : Option String
  isLocation : ∀ w ∈ location, w ∈ ["memory", "storage", "calldata"]
  isName : ∀ w ∈ name, IsName w ∧ w ∉ storageWords

namespace FunctionParameter

def typeWords (p : FunctionParameter) : List String :=
  p.type.words ++ p.dimensions.flatMap dimensionWords

def words (p : FunctionParameter) : List String :=
  p.typeWords ++ p.location.toList ++ p.name.toList

/-- Its type in a signature. -/
def canonical (p : FunctionParameter) : String :=
  p.type.canonical ++ String.join (p.dimensions.map dimensionText)

/-- **What the parser has a canonical type of**: without dimensions all but
the aliases it does not know and a named `address payable`; with dimensions
the unnamed ones of a type and of lengths that are written canonically. -/
def Plain (p : FunctionParameter) : Prop :=
  (p.dimensions = [] → p.type ∉ ElementaryType.unknownAliases ∧
    (p.type = .addressPayable → p.name = none)) ∧
  (p.dimensions ≠ [] → p.name = none ∧ p.type ∉ ElementaryType.aliases ∧
    p.type ≠ .addressPayable ∧
      ∀ length, some length ∈ p.dimensions → String.join length.words = length.value.repr)

end FunctionParameter

/-- **The signature the compiler hashes.** -/
def canonicalSignature (name : String) (parameters : List FunctionParameter) : String :=
  name ++ "(" ++ joinTexts ',' (parameters.map (·.canonical)) ++ ")"

/-! ## Words of a type -/

namespace ElementaryType

variable {type : ElementaryType}

def baseWords : List String :=
  ["address", "bool", "string", "bytes", "byte", "uint", "int", "fixed", "ufixed"]

theorem base_mem (type : ElementaryType) : type.base ∈ baseWords := by
  cases type with
  | _ =>
    rw [base]
    decide

theorem repr_part {n : ℕ} {c : Char} (h : c ∈ n.repr.toList) : isIdentifierPart c = true := by
  rw [Nat.toList_repr] at h
  have hdigit : isDigit c = true := Nat.isDigit_of_mem_toDigits (by decide) (by decide) h
  rw [isIdentifierPart, hdigit, Bool.or_true]

theorem fixedSize_part {m n : ℕ} {c : Char} (h : c ∈ (m.repr ++ "x" ++ n.repr).toList) :
    isIdentifierPart c = true := by
  rw [String.toList_append, String.toList_append, List.mem_append, List.mem_append] at h
  rcases h with (h | h) | h
  · exact repr_part h
  · obtain rfl := List.mem_singleton.mp h
    decide
  · exact repr_part h

theorem size_part {c : Char} (h : c ∈ type.size.toList) : isIdentifierPart c = true := by
  unfold size at h
  split at h
  · exact repr_part h
  · exact repr_part h
  · exact repr_part h
  · exact fixedSize_part h
  · exact fixedSize_part h
  · cases h

theorem keyword_part {c : Char} (h : c ∈ type.keyword.toList) : isIdentifierPart c = true := by
  have hbase : (baseWords.all fun w => w.toList.all isIdentifierPart) = true := by decide
  rw [keyword, String.toList_append, List.mem_append] at h
  rcases h with h | h
  · exact List.all_eq_true.mp (List.all_eq_true.mp hbase _ type.base_mem) c h
  · exact size_part h

theorem isIdentifier_keyword (type : ElementaryType) : isIdentifier type.keyword = true := by
  have hbase : (baseWords.all fun w => w.toList.head?.any isIdentifierStart) = true := by decide
  have hhead := List.all_eq_true.mp hbase _ type.base_mem
  cases hlist : type.base.toList with
  | nil =>
    rw [hlist] at hhead
    cases hhead
  | cons c rest =>
    have hkeyword : type.keyword.toList = c :: (rest ++ type.size.toList) := by
      rw [keyword, String.toList_append, hlist, List.cons_append]
    rw [hlist] at hhead
    rw [isIdentifier, hkeyword, Bool.and_eq_true, List.all_eq_true]
    exact ⟨hhead, fun d hd => keyword_part (hkeyword ▸ List.mem_cons_of_mem c hd)⟩

/-- What begins as no location's keyword does is none. -/
theorem keyword_notMem (type : ElementaryType) : type.keyword ∉ storageWords := by
  have hbase : ∀ w ∈ baseWords, ∀ v ∈ storageWords, ¬ w.toList <+: v.toList := by decide
  intro h
  refine hbase _ type.base_mem _ h ?_
  rw [keyword, String.toList_append]
  exact List.prefix_append _ _

/-- What ends in a digit is no word that does not. -/
theorem append_repr_ne {a w : String} {c : Char} (n : ℕ) (hw : w.toList.getLast? = some c)
    (hc : c.isDigit = false) : a ++ n.repr ≠ w := by
  intro h
  have hlast : (a ++ n.repr).toList.getLast? = n.repr.toList.getLast? := by
    rw [String.toList_append, Nat.toList_repr, List.getLast?_append_of_ne_nil _ Nat.toDigits_ne_nil]
  rw [h, hw, Nat.toList_repr] at hlast
  have hmem : c ∈ Nat.toDigits 10 n := List.mem_of_getLast? hlast.symm
  have hdigit := Nat.isDigit_of_mem_toDigits (by decide) (by decide) hmem
  rw [hc] at hdigit
  cases hdigit

/-- No type but the two aliases is a word that the parser widens. -/
theorem keyword_ne {w : String} (hw : w ∈ ["uint", "int"]) (h : type ∉ aliases) :
    type.keyword ≠ w := by
  have hlast : ∀ w ∈ ["uint", "int"], w.toList.getLast? = some 't' := by decide
  have hend := hlast w hw
  have hplain : (type.base ++ "").toList.getLast? ≠ some 't' → type.size = "" →
      type.keyword ≠ w := by
    intro hne hsize heq
    rw [keyword, hsize] at heq
    rw [heq] at hne
    exact hne hend
  cases type with
  | uint bits =>
    cases bits with
    | none => exact absurd (by decide) h
    | some n => exact append_repr_ne n hend (by decide)
  | int bits =>
    cases bits with
    | none => exact absurd (by decide) h
    | some n => exact append_repr_ne n hend (by decide)
  | fixedBytes n => exact append_repr_ne n hend (by decide)
  | fixed size =>
    cases size with
    | none => exact absurd (by decide) h
    | some size =>
      rw [keyword, ElementaryType.size, ← String.append_assoc]
      exact append_repr_ne size.2 hend (by decide)
  | ufixed size =>
    cases size with
    | none => exact absurd (by decide) h
    | some size =>
      rw [keyword, ElementaryType.size, ← String.append_assoc]
      exact append_repr_ne size.2 hend (by decide)
  | _ => exact hplain (by decide) rfl

theorem canonical_eq_keyword (h : type ∉ aliases) : type.canonical = type.keyword := by
  unfold canonical
  split
  all_goals first | rfl | exact absurd (by decide) h

theorem canonical_ne_keyword (h : type ∈ aliases) : type.canonical ≠ type.keyword := by
  have hall : ∀ t ∈ aliases, t.canonical ≠ t.keyword := by decide
  exact hall type h

theorem canonical_part {c : Char} (h : c ∈ type.canonical.toList) : isIdentifierPart c = true := by
  by_cases halias : type ∈ aliases
  · have hall : (aliases.all fun t => t.canonical.toList.all isIdentifierPart) = true := by decide
    exact List.all_eq_true.mp (List.all_eq_true.mp hall type halias) c h
  · rw [canonical_eq_keyword halias] at h
    exact keyword_part h

/-- The words of a type, and whether they are its canonical text. -/
theorem join_words_iff : String.join type.words = type.canonical ↔
    type ∉ aliases ∧ type ≠ addressPayable := by
  by_cases hpayable : type = addressPayable
  · rw [hpayable]
    decide
  · have hjoin : String.join type.words = type.keyword := by
      rw [words, if_neg hpayable, String.join_cons, String.join_nil, String.append_empty]
    rw [hjoin]
    refine ⟨fun h => ⟨fun hmem => canonical_ne_keyword hmem h.symm, hpayable⟩, fun h => ?_⟩
    exact (canonical_eq_keyword h.1).symm

theorem join_part {c : Char} (h : c ∈ (String.join type.words).toList) :
    isIdentifierPart c = true := by
  rw [String.toList_join] at h
  obtain ⟨w, hw, hc⟩ := List.mem_flatMap.mp h
  rw [words] at hw
  split at hw
  · rcases List.mem_cons.mp hw with rfl | hw
    · exact keyword_part hc
    · obtain rfl := List.mem_singleton.mp hw
      have hpayable : ("payable".toList.all isIdentifierPart) = true := by decide
      exact List.all_eq_true.mp hpayable c hc
  · obtain rfl := List.mem_singleton.mp hw
    exact keyword_part hc

end ElementaryType

/-- What `parameterType` makes of the joined words. -/
def widened (type : String) : String :=
  if type = "uint" then "uint256" else if type = "int" then "int256" else type

theorem widened_of_notMem {type : String} (h : type ∉ ["uint", "int"]) : widened type = type := by
  rw [List.mem_cons, List.mem_singleton, not_or] at h
  rw [widened, if_neg h.1, if_neg h.2]

/-- **A type without dimensions is canonical** but for the unknown aliases. -/
theorem widened_keyword_iff {type : ElementaryType} :
    widened type.keyword = type.canonical ↔ type ∉ ElementaryType.unknownAliases := by
  by_cases halias : type ∈ ElementaryType.aliases
  · have hall : ∀ t ∈ ElementaryType.aliases,
        (widened t.keyword = t.canonical ↔ t ∉ ElementaryType.unknownAliases) := by decide
    exact hall type halias
  · have hne : type.keyword ∉ ["uint", "int"] := fun hmem =>
      ElementaryType.keyword_ne hmem halias rfl
    rw [widened_of_notMem hne, ElementaryType.canonical_eq_keyword halias]
    exact iff_of_true rfl fun h => halias (List.mem_cons_of_mem _ (List.mem_cons_of_mem _ h))

/-! ## Texts of arrays -/

/-- Texts in square brackets, one behind the other. -/
def bracketed (texts : List (List Char)) : List Char := texts.flatMap fun t => '[' :: (t ++ [']'])

/-- A text up to a character that it does not hold. -/
theorem append_cons_inj_of_notMem {c : Char} {a b x y : List Char} (ha : c ∉ a) (hb : c ∉ b)
    (h : a ++ c :: x = b ++ c :: y) : a = b ∧ x = y := by
  induction a generalizing b with
  | nil =>
    cases b with
    | nil => exact ⟨rfl, (List.cons.inj h).2⟩
    | cons d b => exact absurd ((List.cons.inj h).1 ▸ List.mem_cons_self) hb
  | cons d a ih =>
    cases b with
    | nil => exact absurd ((List.cons.inj h).1 ▸ List.mem_cons_self) ha
    | cons e b =>
      obtain ⟨rfl, hrest⟩ := List.cons.inj h
      obtain ⟨rfl, rfl⟩ := ih (fun hc => ha (List.mem_cons_of_mem _ hc))
        (fun hc => hb (List.mem_cons_of_mem _ hc)) hrest
      exact ⟨rfl, rfl⟩

theorem bracketed_cons (t : List Char) (ts : List (List Char)) :
    bracketed (t :: ts) = '[' :: (t ++ ']' :: bracketed ts) := by
  rw [bracketed, List.flatMap_cons, ← bracketed, List.cons_append, List.append_assoc,
    List.singleton_append]

/-- **The texts in brackets are read back**, and what follows them. -/
theorem bracketed_inj {ts us : List (List Char)} {n : List Char} (hlength : ts.length = us.length)
    (hts : ∀ t ∈ ts, ']' ∉ t) (hus : ∀ u ∈ us, ']' ∉ u)
    (h : bracketed ts ++ n = bracketed us) : ts = us ∧ n = [] := by
  induction ts generalizing us with
  | nil =>
    obtain rfl := List.length_eq_zero_iff.mp hlength.symm
    exact ⟨rfl, h⟩
  | cons t ts ih =>
    obtain ⟨u, us, rfl⟩ := List.exists_cons_of_length_eq_add_one hlength.symm
    obtain ⟨ht, hrestTs⟩ := List.forall_mem_cons.mp hts
    obtain ⟨hu, hrestUs⟩ := List.forall_mem_cons.mp hus
    rw [bracketed_cons, bracketed_cons, List.cons_append, List.append_assoc,
      List.cons_append] at h
    obtain ⟨rfl, hrest⟩ := append_cons_inj_of_notMem ht hu (List.cons.inj h).2
    obtain ⟨rfl, hn⟩ := ih (Nat.succ.inj hlength) hrestTs hrestUs hrest
    exact ⟨rfl, hn⟩

/-- What stands in the brackets of a dimension. -/
def writtenLength : Option ArrayLength → List Char
  | none => []
  | some length => (String.join length.words).toList

/-- What belongs there. -/
def canonicalLength : Option ArrayLength → List Char
  | none => []
  | some length => length.value.repr.toList

theorem writtenLength_free (dimension : Option ArrayLength) : ']' ∉ writtenLength dimension := by
  cases dimension with
  | none => exact List.not_mem_nil
  | some length =>
    intro h
    rw [writtenLength, String.toList_join] at h
    obtain ⟨w, hw, hc⟩ := List.mem_flatMap.mp h
    exact (length.isExpression w hw).2 _ hc (by decide)

theorem canonicalLength_part {dimension : Option ArrayLength} {c : Char}
    (h : c ∈ canonicalLength dimension) : isIdentifierPart c = true := by
  cases dimension with
  | none => cases h
  | some length => exact ElementaryType.repr_part h

theorem join_dimensionWords (dimensions : List (Option ArrayLength)) :
    (String.join (dimensions.flatMap dimensionWords)).toList =
      bracketed (dimensions.map writtenLength) := by
  rw [String.toList_join, bracketed, List.flatMap_map, List.flatMap_assoc]
  refine List.flatMap_congr fun dimension _ => ?_
  cases dimension with
  | none => rfl
  | some length =>
    rw [dimensionWords, writtenLength, String.toList_join, List.flatMap_cons, List.flatMap_append]
    rfl

theorem join_dimensionText (dimensions : List (Option ArrayLength)) :
    (String.join (dimensions.map dimensionText)).toList =
      bracketed (dimensions.map canonicalLength) := by
  rw [String.toList_join, bracketed, List.flatMap_map, List.flatMap_map]
  refine List.flatMap_congr fun dimension _ => ?_
  cases dimension with
  | none => rfl
  | some length =>
    rw [dimensionText, canonicalLength, String.toList_append, String.toList_append]
    rfl

/-! ## The parser's type -/

variable {tokens : List Token} {ws : List String} {last : String}

theorem words_withoutStorage (tokens : List Token) :
    words (withoutStorage tokens) = (words tokens).filter fun w => !storageWords.contains w := by
  rw [words, words, withoutStorage, List.filter_map]
  rfl

/-- The tokens whose words `parameterType` joins. -/
def keptTokens (filtered : List Token) : List Token :=
  match filtered.getLast? with
  | none => filtered
  | some last =>
    let previous := (words filtered.dropLast).getLast?
    if isIdentifier last.value ∧ filtered.length > 1 ∧ previous ≠ some "." ∧
        previous ≠ some "]" then filtered.dropLast
    else filtered

theorem parameterType_eq (tokens : List Token) :
    parameterType tokens = widened (String.join (words (keptTokens (withoutStorage tokens)))) := rfl

/-- **A last identifier is taken for the name**, except behind a bracket or a
dot. -/
theorem keptTokens_named (hwords : words tokens = ws ++ [last]) (hlast : isIdentifier last = true)
    (hne : ws ≠ []) (hdot : ws.getLast? ≠ some ".") (hbracket : ws.getLast? ≠ some "]") :
    words (keptTokens tokens) = ws := by
  obtain ⟨ts, us, rfl, rfl, hus⟩ := exists_of_words_append hwords
  obtain ⟨t, rest, rfl, hvalue, hrest⟩ := List.map_eq_cons_iff.mp hus
  obtain rfl := List.map_eq_nil_iff.mp hrest
  have hlength : (ts ++ [t]).length > 1 := by
    have hpos := List.length_pos_iff.mpr hne
    rw [length_words] at hpos
    rw [List.length_append, List.length_singleton]
    omega
  rw [keptTokens, List.getLast?_concat]
  dsimp only
  rw [List.dropLast_concat, if_pos ⟨hvalue ▸ hlast, hlength, hdot, hbracket⟩]

/-- **Else nothing is.** -/
theorem keptTokens_unnamed (hkept : ∀ before last, words tokens = before ++ [last] →
      isIdentifier last = true → before = [] ∨ before.getLast? = some "]") :
    keptTokens tokens = tokens := by
  rcases List.eq_nil_or_concat' tokens with rfl | ⟨ts, t, rfl⟩
  · rfl
  · rw [keptTokens, List.getLast?_concat]
    dsimp only
    rw [List.dropLast_concat]
    refine if_neg ?_
    rintro ⟨hident, hlength, -, hbracket⟩
    rcases hkept _ _ (words_append _) hident with hnil | hclosing
    · obtain rfl := List.map_eq_nil_iff.mp hnil
      exact absurd hlength (Nat.lt_irrefl 1)
    · exact hbracket hclosing

/-! ## What the parser takes of a parameter -/

theorem ElementaryType.mem_words {type : ElementaryType} {w : String} (h : w ∈ type.words) :
    isIdentifier w = true ∧ w ∉ storageWords := by
  have hkeyword : isIdentifier type.keyword = true ∧ type.keyword ∉ storageWords :=
    ⟨type.isIdentifier_keyword, type.keyword_notMem⟩
  rw [words] at h
  split at h
  · rcases List.mem_cons.mp h with rfl | h
    · exact hkeyword
    · obtain rfl := List.mem_singleton.mp h
      decide
  · obtain rfl := List.mem_singleton.mp h
    exact hkeyword

theorem ElementaryType.words_ne_nil (type : ElementaryType) : type.words ≠ [] := by
  rw [words]
  split
  · exact List.cons_ne_nil _ _
  · exact List.cons_ne_nil _ _

theorem exists_dimensionWords (dimension : Option ArrayLength) :
    ∃ ws, dimensionWords dimension = ws ++ ["]"] := by
  cases dimension with
  | none => exact ⟨["["], rfl⟩
  | some length => exact ⟨"[" :: length.words, rfl⟩

theorem mem_dimensionWords {dimension : Option ArrayLength} {w : String}
    (h : w ∈ dimensionWords dimension) : w = "[" ∨ w = "]" ∨
      ∃ length, dimension = some length ∧ w ∈ length.words := by
  cases dimension with
  | none =>
    rcases List.mem_cons.mp h with hopen | h
    · exact .inl hopen
    · exact .inr (.inl (List.mem_singleton.mp h))
  | some length =>
    rcases List.mem_cons.mp h with hopen | h
    · exact .inl hopen
    rcases List.mem_append.mp h with hw | h
    · exact .inr (.inr ⟨length, rfl, hw⟩)
    · exact .inr (.inl (List.mem_singleton.mp h))

namespace FunctionParameter

variable {p : FunctionParameter}

theorem mem_typeWords {w : String} (h : w ∈ p.typeWords) : w ∈ p.type.words ∨ w = "[" ∨ w = "]" ∨
    ∃ length, some length ∈ p.dimensions ∧ w ∈ length.words := by
  rcases List.mem_append.mp h with htype | h
  · exact .inl htype
  · obtain ⟨dimension, hmem, hw⟩ := List.mem_flatMap.mp h
    rcases mem_dimensionWords hw with hopen | hclose | ⟨length, rfl, hin⟩
    · exact .inr (.inl hopen)
    · exact .inr (.inr (.inl hclose))
    · exact .inr (.inr (.inr ⟨length, hmem, hin⟩))

theorem typeWords_notMem {w : String} (h : w ∈ p.typeWords) : w ∉ storageWords := by
  rcases mem_typeWords h with htype | rfl | rfl | ⟨length, -, hw⟩
  · exact (ElementaryType.mem_words htype).2
  · decide
  · decide
  · exact (length.isExpression w hw).1

/-- Without its location. -/
theorem words_filtered (h : HoodSentry.words tokens = p.words) :
    HoodSentry.words (withoutStorage tokens) = p.typeWords ++ p.name.toList := by
  have hlocation : ∀ w ∈ p.location.toList, storageWords.contains w = true := by
    have hall : ∀ w ∈ ["memory", "storage", "calldata"], storageWords.contains w = true := by decide
    exact fun w hw => hall w (p.isLocation w (Option.mem_toList.mp hw))
  have hother : ∀ w ∈ p.typeWords ++ p.name.toList, storageWords.contains w = false := by
    intro w hw
    rw [← Bool.not_eq_true, List.contains_iff_mem]
    rcases List.mem_append.mp hw with hw | hw
    · exact typeWords_notMem hw
    · exact (p.isName w (Option.mem_toList.mp hw)).2
  rw [List.forall_mem_append] at hother
  rw [words_withoutStorage, h, words, List.filter_append, List.filter_append,
    List.filter_eq_self.mpr fun w hw => by rw [hother.1 w hw]; rfl,
    List.filter_eq_nil_iff.mpr fun w hw => by rw [hlocation w hw]; decide,
    List.filter_eq_self.mpr fun w hw => by rw [hother.2 w hw]; rfl, List.append_nil]

theorem exists_typeWords (h : p.dimensions ≠ []) : ∃ ws, p.typeWords = ws ++ ["]"] := by
  obtain ⟨before, last, hsplit⟩ := List.eq_nil_or_concat' p.dimensions |>.resolve_left h
  obtain ⟨ws, hws⟩ := exists_dimensionWords last
  refine ⟨p.type.words ++ (before.flatMap dimensionWords ++ ws), ?_⟩
  rw [typeWords, hsplit, List.flatMap_append, List.flatMap_singleton, hws]
  simp only [List.append_assoc]

/-- **The words the parser joins**: the last one of a type without dimensions
is taken for a name, and that of an array's name never is. -/
def takenWords (p : FunctionParameter) : List String :=
  if p.dimensions = [] then
    if p.name = none then [p.type.keyword] else p.type.words
  else p.typeWords ++ p.name.toList

theorem words_kept (h : HoodSentry.words tokens = p.words) :
    HoodSentry.words (keptTokens (withoutStorage tokens)) = p.takenWords := by
  have hfiltered := words_filtered h
  have hident : ∀ w, p.type.words.getLast? = some w → isIdentifier w = true :=
    fun w hw => (ElementaryType.mem_words (List.mem_of_getLast? hw)).1
  rw [takenWords]
  by_cases hdimensions : p.dimensions = []
  · rw [if_pos hdimensions]
    rw [typeWords, hdimensions, List.flatMap_nil, List.append_nil] at hfiltered
    cases hname : p.name with
    | none =>
      rw [hname, Option.toList_none, List.append_nil] at hfiltered
      rw [if_pos rfl]
      by_cases hpayable : p.type = .addressPayable
      · rw [hpayable] at hfiltered ⊢
        exact @keptTokens_named _ ["address"] "payable" hfiltered (by decide)
          (List.cons_ne_nil _ _) (by decide) (by decide)
      · rw [ElementaryType.words, if_neg hpayable] at hfiltered
        rw [keptTokens_unnamed, hfiltered]
        intro before last hsplit _
        rw [hfiltered] at hsplit
        exact .inl (List.append_eq_singleton_iff.mp hsplit.symm |>.resolve_right fun h => by
          cases h.2).1
    | some name =>
      rw [hname, Option.toList_some] at hfiltered
      rw [if_neg (Option.some_ne_none name)]
      refine keptTokens_named hfiltered (p.isName name hname).1.1 p.type.words_ne_nil ?_ ?_
      · exact fun hlast => absurd (hident _ hlast) (by decide)
      · exact fun hlast => absurd (hident _ hlast) (by decide)
  · rw [if_neg hdimensions]
    obtain ⟨ws, hws⟩ := exists_typeWords hdimensions
    rw [keptTokens_unnamed, hfiltered]
    intro before last hsplit hlast
    rw [hfiltered, hws] at hsplit
    cases hname : p.name with
    | none =>
      rw [hname, Option.toList_none, List.append_nil] at hsplit
      obtain ⟨-, hclosing⟩ := List.append_inj' hsplit rfl
      obtain rfl := List.singleton_inj.mp hclosing
      exact absurd hlast (by decide)
    | some name =>
      rw [hname, Option.toList_some] at hsplit
      obtain ⟨rfl, -⟩ := List.append_inj' hsplit rfl
      exact .inr List.getLast?_concat

theorem parameterType_of_words (h : HoodSentry.words tokens = p.words) :
    parameterType tokens = widened (String.join p.takenWords) := by
  rw [parameterType_eq, words_kept h]

/-- **The type of a parameter without dimensions.** -/
theorem widened_type_iff (hdimensions : p.dimensions = []) :
    widened (String.join p.takenWords) = p.canonical ↔
      p.type ∉ ElementaryType.unknownAliases ∧ (p.type = .addressPayable → p.name = none) := by
  have hcanonical : p.canonical = p.type.canonical := by
    rw [canonical, hdimensions, List.map_nil, String.join_nil, String.append_empty]
  have hkeyword : String.join [p.type.keyword] = p.type.keyword := by
    rw [String.join_cons, String.join_nil, String.append_empty]
  rw [hcanonical, takenWords, if_pos hdimensions]
  by_cases hname : p.name = none
  · rw [if_pos hname, hkeyword, widened_keyword_iff]
    exact (and_iff_left fun _ => hname).symm
  · rw [if_neg hname]
    by_cases hpayable : p.type = .addressPayable
    · rw [hpayable]
      refine iff_of_false (by decide) fun h => hname (h.2 rfl)
    · rw [ElementaryType.words, if_neg hpayable, hkeyword, widened_keyword_iff]
      exact (and_iff_left fun h => absurd h hpayable).symm

/-- **The type of an array.** -/
theorem widened_array_iff (hdimensions : p.dimensions ≠ []) :
    widened (String.join p.takenWords) = p.canonical ↔
      p.name = none ∧ p.type ∉ ElementaryType.aliases ∧ p.type ≠ .addressPayable ∧
        ∀ length, some length ∈ p.dimensions → String.join length.words = length.value.repr := by
  have htext : (String.join p.takenWords).toList = (String.join p.type.words).toList ++
      (bracketed (p.dimensions.map writtenLength) ++ (p.name.getD "").toList) := by
    have hname : (String.join p.name.toList) = p.name.getD "" := by
      cases p.name with
      | none => rfl
      | some name =>
        rw [Option.toList_some, String.join_cons, String.join_nil, String.append_empty]
        rfl
    rw [takenWords, if_neg hdimensions, typeWords, String.join_append, String.join_append,
      String.toList_append, String.toList_append, join_dimensionWords, hname, List.append_assoc]
  have hcanonical : p.canonical.toList = p.type.canonical.toList ++
      bracketed (p.dimensions.map canonicalLength) := by
    rw [canonical, String.toList_append, join_dimensionText]
  have hlengths : p.dimensions.map writtenLength = p.dimensions.map canonicalLength ↔
      ∀ length, some length ∈ p.dimensions → String.join length.words = length.value.repr := by
    rw [List.map_inj_left]
    refine ⟨fun h length hin => String.toList_inj.mp (h _ hin), fun h dimension hin => ?_⟩
    cases dimension with
    | none => rfl
    | some length => exact congrArg String.toList (h length hin)
  have hunwidened : widened (String.join p.takenWords) = String.join p.takenWords := by
    refine widened_of_notMem fun hmem => ?_
    have hfree : ∀ w ∈ ["uint", "int"], '[' ∉ w.toList := by decide
    refine hfree _ hmem ?_
    obtain ⟨d, ds, hcons⟩ := List.exists_cons_of_ne_nil hdimensions
    rw [htext, hcons, List.map_cons, bracketed_cons]
    simp
  rw [hunwidened, ← String.toList_inj, htext, hcanonical, ← hlengths]
  constructor
  · intro h
    obtain ⟨d, ds, hcons⟩ := List.exists_cons_of_ne_nil hdimensions
    have hjoined := h
    rw [hcons, List.map_cons, List.map_cons, bracketed_cons, bracketed_cons,
      List.cons_append] at hjoined
    obtain ⟨htype, -⟩ := append_cons_inj_of_notMem
      (fun hc => absurd (ElementaryType.join_part hc) (by decide))
      (fun hc => absurd (ElementaryType.canonical_part hc) (by decide)) hjoined
    rw [htype] at h
    obtain ⟨hall, hname⟩ := bracketed_inj (by rw [List.length_map, List.length_map])
      (List.forall_mem_map.mpr fun dimension _ => writtenLength_free dimension)
      (List.forall_mem_map.mpr fun dimension _ hc =>
        absurd (canonicalLength_part hc) (by decide)) (List.append_cancel_left h)
    have hplain := ElementaryType.join_words_iff.mp (String.toList_inj.mp htype)
    refine ⟨?_, hplain.1, hplain.2, hall⟩
    cases hsome : p.name with
    | none => rfl
    | some name =>
      obtain ⟨⟨c, rest, hlist⟩, -⟩ := exists_of_isIdentifier (p.isName name hsome).1.1
      rw [hsome, Option.getD_some, hlist] at hname
      cases hname
  · rintro ⟨hname, halias, hpayable, hall⟩
    rw [hall, hname, ElementaryType.join_words_iff.mpr ⟨halias, hpayable⟩]
    exact congrArg _ (List.append_nil _)

/-- **What a parameter's type is read as is canonical exactly if it is plain.** -/
theorem widened_takenWords_iff :
    widened (String.join p.takenWords) = p.canonical ↔ p.Plain := by
  by_cases hdimensions : p.dimensions = []
  · rw [widened_type_iff hdimensions, Plain]
    exact ⟨fun h => ⟨fun _ => h, fun hne => absurd hdimensions hne⟩, fun h => h.1 hdimensions⟩
  · rw [widened_array_iff hdimensions, Plain]
    exact ⟨fun h => ⟨fun hnil => absurd hnil hdimensions, fun _ => h⟩, fun h => h.2 hdimensions⟩

theorem canonical_free (p : FunctionParameter) : ',' ∉ p.canonical.toList := by
  rw [canonical, String.toList_append, join_dimensionText, List.mem_append]
  rintro (h | h)
  · exact absurd (ElementaryType.canonical_part h) (by decide)
  · obtain ⟨t, ht, hc⟩ := List.mem_flatMap.mp h
    obtain ⟨dimension, -, rfl⟩ := List.mem_map.mp ht
    rcases List.mem_cons.mp hc with hbracket | hc
    · cases hbracket
    rcases List.mem_append.mp hc with hc | hc
    · exact absurd (canonicalLength_part hc) (by decide)
    · cases List.mem_singleton.mp hc

end FunctionParameter

/-! ## Parameter lists -/

variable {ts : List Token} {groups : List (List String)}

/-- Tokens other than the separator stay in their group. -/
theorem splitAtTopLevelFrom_append {separator : String} {current : List Token} {round square : ℤ}
    (hfree : ∀ w ∈ words ts, w ≠ separator) (rest : List Token) :
    splitAtTopLevelFrom separator current round square (ts ++ rest) =
      splitAtTopLevelFrom separator (current ++ ts) (round + depthSum "(" ")" (words ts))
        (square + depthSum "[" "]" (words ts)) rest := by
  induction ts generalizing current round square with
  | nil => simp
  | cons t ts ih =>
    obtain ⟨ht, hts⟩ := List.forall_mem_cons.mp hfree
    rw [List.cons_append, splitAtTopLevelFrom, if_neg fun h => ht h.1, ih hts, words_cons,
      depthSum_cons, depthSum_cons, add_assoc, add_assoc, List.append_assoc, List.singleton_append]

/-- Words that a list of parameters may separate by commas. -/
structure Separable (ws : List String) : Prop where
  noComma : "," ∉ ws
  round : depthSum "(" ")" ws = 0
  square : depthSum "[" "]" ws = 0

/-- **Groups separated by commas are split there.** -/
theorem splitAtTopLevel_of_words (hne : groups ≠ []) (hgroups : ∀ g ∈ groups, Separable g)
    (hwords : words tokens = commaSeparated groups) :
    (splitAtTopLevel tokens ",").map words = groups := by
  have hgroup : ∀ ts g rest, Separable g → words ts = g →
      splitAtTopLevelFrom "," [] 0 0 (ts ++ rest) = splitAtTopLevelFrom "," ts 0 0 rest := by
    rintro ts g rest hg rfl
    have hfree : ∀ w ∈ words ts, w ≠ "," := by
      rintro w hw rfl
      exact hg.noComma hw
    rw [splitAtTopLevelFrom_append hfree, hg.round, hg.square]
    rfl
  rw [splitAtTopLevel]
  induction groups generalizing tokens with
  | nil => exact absurd rfl hne
  | cons g groups ih =>
    obtain ⟨hg, hrest⟩ := List.forall_mem_cons.mp hgroups
    cases groups with
    | nil =>
      rw [commaSeparated, List.intercalate_singleton] at hwords
      have hall := hgroup tokens g [] hg hwords
      rw [List.append_nil] at hall
      rw [hall, splitAtTopLevelFrom, List.map_singleton, hwords]
    | cons g' groups =>
      rw [commaSeparated, List.intercalate_cons_cons, List.append_assoc] at hwords
      obtain ⟨ts, us, rfl, hts, hus⟩ := exists_of_words_append hwords
      obtain ⟨t, us, rfl, ht, hus⟩ := List.map_eq_cons_iff.mp hus
      have hcomma : t.value = "," ∧ (0 : ℤ) + depthChange "(" ")" t.value = 0 ∧
          (0 : ℤ) + depthChange "[" "]" t.value = 0 := by
        rw [ht]
        decide
      rw [hgroup ts g _ hg hts, splitAtTopLevelFrom, if_pos hcomma, hcomma.2.1, hcomma.2.2,
        List.map_cons, hts, ih (List.cons_ne_nil _ _) hrest hus]

theorem dimensionWords_separable (dimension : Option ArrayLength) :
    Separable (dimensionWords dimension) := by
  cases dimension with
  | none => exact ⟨by decide, by decide, by decide⟩
  | some length =>
    have hfree : ∀ w ∈ length.words, w ≠ "[" ∧ w ≠ "]" ∧ w ≠ "," := by
      intro w hw
      have hchars := (length.isExpression w hw).2
      refine ⟨?_, ?_, ?_⟩
      all_goals
        rintro rfl
        exact hchars _ (List.mem_singleton_self _) (by decide)
    refine ⟨?_, ?_, ?_⟩
    · intro hmem
      rcases mem_dimensionWords hmem with hopen | hclose | ⟨length', hsome, hw⟩
      · exact absurd hopen (by decide)
      · exact absurd hclose (by decide)
      · obtain rfl := Option.some.inj hsome
        exact (hfree _ hw).2.2 rfl
    · rw [dimensionWords, depthSum_cons, depthSum_append, length.nested.balanced]
      decide
    · rw [dimensionWords, depthSum_cons, depthSum_append,
        (nested_of_free fun w hw => ⟨(hfree w hw).1, (hfree w hw).2.1⟩).balanced]
      decide

theorem Separable.append {ws vs : List String} (h : Separable ws) (h' : Separable vs) :
    Separable (ws ++ vs) := by
  refine ⟨?_, ?_, ?_⟩
  · rw [List.mem_append]
    exact fun hmem => hmem.elim h.noComma h'.noComma
  · rw [depthSum_append, h.round, h'.round, add_zero]
  · rw [depthSum_append, h.square, h'.square, add_zero]

theorem separable_of_isIdentifier {ws : List String} (h : ∀ w ∈ ws, isIdentifier w = true) :
    Separable ws := by
  have hne : ∀ v : String, isIdentifier v = false → ∀ w ∈ ws, w ≠ v := by
    rintro v hv w hw rfl
    rw [h w hw] at hv
    cases hv
  refine ⟨fun hmem => hne "," (by decide) _ hmem rfl, ?_, ?_⟩
  · exact (nested_of_free fun w hw => ⟨hne "(" (by decide) w hw, hne ")" (by decide) w hw⟩).balanced
  · exact (nested_of_free fun w hw => ⟨hne "[" (by decide) w hw, hne "]" (by decide) w hw⟩).balanced

theorem FunctionParameter.separable (p : FunctionParameter) : Separable p.words := by
  have hdimensions : ∀ dimensions : List (Option ArrayLength),
      Separable (dimensions.flatMap dimensionWords) := by
    intro dimensions
    induction dimensions with
    | nil => exact ⟨List.not_mem_nil, rfl, rfl⟩
    | cons dimension dimensions ih =>
      rw [List.flatMap_cons]
      exact (dimensionWords_separable dimension).append ih
  have hlocations : ∀ w ∈ ["memory", "storage", "calldata"], isIdentifier w = true := by decide
  have htype : Separable p.typeWords :=
    (separable_of_isIdentifier fun w hw => (ElementaryType.mem_words hw).1).append
      (hdimensions p.dimensions)
  have hlocation : Separable p.location.toList :=
    separable_of_isIdentifier fun w hw => hlocations w (p.isLocation w (Option.mem_toList.mp hw))
  have hname : Separable p.name.toList :=
    separable_of_isIdentifier fun w hw => (p.isName w (Option.mem_toList.mp hw)).1.1
  exact (htype.append hlocation).append hname

/-! ## The signature -/

variable {f : FunctionDeclaration} {ps : List FunctionParameter} {before after : List String}

theorem map_parameterType {l : List (List Token)} (h : l.map words = ps.map (·.words)) :
    l.map parameterType = ps.map fun p => widened (String.join p.takenWords) := by
  induction l generalizing ps with
  | nil =>
    obtain rfl := List.map_eq_nil_iff.mp h.symm
    rfl
  | cons group l ih =>
    obtain ⟨p, ps, rfl, hgroup, hrest⟩ := List.map_eq_cons_iff.mp h.symm
    rw [List.map_cons, List.map_cons, ih hrest.symm,
      FunctionParameter.parameterType_of_words hgroup.symm]

/-- The types of the parser. -/
theorem parameterTypes_of_words (hwords : words tokens = commaSeparated (ps.map (·.words))) :
    ((splitAtTopLevel tokens ",").filter (· ≠ [])).map parameterType =
      ps.map fun p => widened (String.join p.takenWords) := by
  cases ps with
  | nil =>
    obtain rfl := List.map_eq_nil_iff.mp hwords
    rfl
  | cons p ps =>
    have hseparable : ∀ g ∈ (p :: ps).map (·.words), Separable g :=
      List.forall_mem_map.mpr fun p _ => p.separable
    have hgroups : (splitAtTopLevel tokens ",").map words = (p :: ps).map (·.words) :=
      splitAtTopLevel_of_words (List.cons_ne_nil _ _) hseparable hwords
    have hkept : (splitAtTopLevel tokens ",").filter (· ≠ []) = splitAtTopLevel tokens "," := by
      refine List.filter_eq_self.mpr fun group hgroup => decide_eq_true ?_
      rintro rfl
      have hnil : ([] : List String) ∈ (p :: ps).map (·.words) := by
        rw [← hgroups]
        exact List.mem_map_of_mem hgroup
      obtain ⟨q, -, hq⟩ := List.mem_map.mp hnil
      rw [FunctionParameter.words, FunctionParameter.typeWords, List.append_assoc,
        List.append_assoc] at hq
      exact q.type.words_ne_nil (List.append_eq_nil_iff.mp hq).1
    rw [hkept]
    exact map_parameterType hgroups

/-- What `functionOf` takes of a declaration: its own name and parameters. -/
theorem signature_of_words (keccak256 : String → HexText) (contractName sourcePath : String)
    (hkind : f.kind = .function) (hparameters : f.parameters = commaSeparated (ps.map (·.words)))
    (hwords : words tokens = before ++ f.words ++ after) :
    ∃ fn stop, parseFunction keccak256 contractName sourcePath tokens before.length =
        some (fn, stop) ∧
      fn.signature = f.name ++ "(" ++
        joinTexts ',' (ps.map fun p => widened (String.join p.takenWords)) ++ ")" ∧
      fn.selector = some (selectorFor keccak256 fn.signature) := by
  obtain ⟨extent, hextent, hopen, hclose⟩ := exists_functionExtent hwords
  obtain ⟨keyword, hkeyword, hparsed⟩ :=
    parseFunction_of_words keccak256 contractName sourcePath hwords hextent
  have hopening : f.opening = ["function", f.name] := by
    rw [FunctionDeclaration.opening, if_pos hkind, hkind]
    rfl
  have hname : wordAt tokens (before.length + 1) = some f.name := by
    have hsplit : words tokens = (before ++ ["function"]) ++
        f.name :: (parenthesised f.parameters ++ f.headerWords ++ f.bodyWords ++ after) := by
      rw [hwords, FunctionDeclaration.words, hopening]
      simp
    have hlength : before.length + 1 = (before ++ ["function"]).length := by
      rw [List.length_append, List.length_singleton]
    rw [hlength]
    exact wordAt_of_words hsplit
  have htypes := parameterTypes_of_words ((words_parameters hwords).trans hparameters)
  refine ⟨_, _, hparsed, ?_, ?_⟩
  · rw [functionOf]
    dsimp only
    rw [if_pos hkind, if_pos hkind, hname, Option.getD_some, hopen, hclose, htypes]
  · rw [functionOf]
    dsimp only
    rw [if_pos hkind]

/-- **A signature is canonical**, and the selector is the one of the
canonical signature, exactly if every parameter is plain. -/
theorem signature_canonical_iff (keccak256 : String → HexText) (contractName sourcePath : String)
    (hkind : f.kind = .function) (hparameters : f.parameters = commaSeparated (ps.map (·.words)))
    (hwords : words tokens = before ++ f.words ++ after) :
    (∃ fn stop, parseFunction keccak256 contractName sourcePath tokens before.length =
        some (fn, stop) ∧
      fn.signature = canonicalSignature f.name ps ∧
      fn.selector = some (selectorFor keccak256 (canonicalSignature f.name ps))) ↔
      ∀ p ∈ ps, p.Plain := by
  obtain ⟨fn, stop, hparsed, hsignature, hselector⟩ :=
    signature_of_words keccak256 contractName sourcePath hkind hparameters hwords
  have hplain : fn.signature = canonicalSignature f.name ps ↔ ∀ p ∈ ps, p.Plain := by
    have htypes : (∀ p ∈ ps, p.Plain) ↔
        (ps.map fun p => widened (String.join p.takenWords)) = ps.map (·.canonical) := by
      rw [List.map_inj_left]
      exact forall₂_congr fun p _ => FunctionParameter.widened_takenWords_iff.symm
    rw [htypes, hsignature, canonicalSignature]
    refine ⟨fun h => ?_, fun h => by rw [h]⟩
    have htexts := congrArg String.toList h
    simp only [String.toList_append] at htexts
    have hjoined := String.toList_inj.mp
      (List.append_cancel_left (List.append_cancel_right htexts))
    have hfree : ∀ text ∈ ps.map (·.canonical), ',' ∉ text.toList :=
      List.forall_mem_map.mpr fun p _ => p.canonical_free
    exact (joinTexts_inj hfree (by rw [List.length_map, List.length_map]) hjoined.symm).symm
  rw [← hplain]
  constructor
  · rintro ⟨fn', stop', hparsed', hsignature', -⟩
    rw [hparsed] at hparsed'
    obtain ⟨rfl, -⟩ := Prod.mk.inj (Option.some.inj hparsed')
    exact hsignature'
  · intro h
    exact ⟨fn, stop, hparsed, h, h ▸ hselector⟩

/-! ## Two signatures -/

theorem lexeme_of_symbol {w : String} {c : Char} (hlist : w.toList = [c])
    (hblank : isBlank c = false) (hpart : isIdentifierPart c = false)
    (hquote : c ≠ '"' ∧ c ≠ '\'') : Lexeme w ∧ ¬ IsLiteral w := by
  refine ⟨.inr (.inr (.inr ⟨c, hlist, hblank, hpart⟩)), ?_⟩
  rintro ⟨rest, h | h⟩
  · exact hquote.1 (List.cons.inj (hlist.symm.trans h)).1
  · exact hquote.2 (List.cons.inj (hlist.symm.trans h)).1

/-- Names, commas and square brackets are no literals. -/
theorem lexeme_of_plain {w : String} (h : isIdentifier w = true ∨ w ∈ [",", "[", "]"]) :
    Lexeme w ∧ ¬ IsLiteral w := by
  rcases h with h | h
  · obtain ⟨⟨c, rest, hlist⟩, hall⟩ := exists_of_isIdentifier h
    have hname : ∀ d ∈ w.toList, isNameCharacter d = true :=
      fun d hd => isNameCharacter_of_part (hall d hd)
    refine ⟨.inl ⟨hlist ▸ List.cons_ne_nil c rest, hname⟩, ?_⟩
    have hquotes : isNameCharacter '"' = false ∧ isNameCharacter '\'' = false := by decide
    rintro ⟨rest', hquote | hquote⟩
    · rw [hname '"' (hquote ▸ List.mem_cons_self)] at hquotes
      cases hquotes.1
    · rw [hname '\'' (hquote ▸ List.mem_cons_self)] at hquotes
      cases hquotes.2
  · simp only [List.mem_cons, List.not_mem_nil, or_false] at h
    rcases h with rfl | rfl | rfl
    · exact @lexeme_of_symbol _ ',' (by decide) (by decide) (by decide) (by decide)
    · exact @lexeme_of_symbol _ '[' (by decide) (by decide) (by decide) (by decide)
    · exact @lexeme_of_symbol _ ']' (by decide) (by decide) (by decide) (by decide)

theorem nested_of_plain {ws : List String}
    (h : ∀ w ∈ ws, isIdentifier w = true ∨ w ∈ [",", "[", "]"]) : Nested "(" ")" ws := by
  refine nested_of_free fun w hw => ⟨?_, ?_⟩
  all_goals
    rintro rfl
    exact absurd (h _ hw) (by decide)

theorem external_mem : "external" ∈ plainAttributes :=
  List.mem_cons_of_mem _ List.mem_cons_self

theorem nested_of_mem_none {b : List String} (h : b ∈ (none : Option (List String))) :
    Nested openBrace closeBrace b :=
  absurd h.symm (Option.some_ne_none b)

/-- An external function of these parameters without a body. -/
def externalFunction (name : String) (isName : IsName name) (parameters : List String)
    (plain : ∀ w ∈ parameters, isIdentifier w = true ∨ w ∈ [",", "[", "]"]) :
    FunctionDeclaration where
  kind := .function
  name := name
  parameters := parameters
  header := [.flag "external" external_mem]
  body := none
  isName := isName
  nested := nested_of_plain plain
  lexemes w hw := lexeme_of_plain (plain w hw)
  nestedBody _ hb := nested_of_mem_none hb

def namedParameter (type : ElementaryType) (dimensions : List (Option ArrayLength))
    (name : String) (isName : IsName name ∧ name ∉ storageWords) : FunctionParameter where
  type := type
  dimensions := dimensions
  location := none
  name := some name
  isLocation := fun _ hw => absurd hw.symm (Option.some_ne_none _)
  isName := fun _ hw => Option.some.inj hw ▸ isName

/-- `(address to, uint amount)`. -/
def transferParameters : List FunctionParameter :=
  [namedParameter .address [] "to" (by decide), namedParameter (.uint none) [] "amount" (by decide)]

theorem plain_transferParameters : ∀ p ∈ transferParameters, p.Plain := by
  intro p hp
  have hdimensions : p.dimensions = [] ∧ p.type ∉ ElementaryType.unknownAliases ∧
      p.type ≠ .addressPayable := by
    rcases List.mem_cons.mp hp with rfl | hp
    · exact ⟨rfl, by decide, by decide⟩
    · obtain rfl := List.mem_singleton.mp hp
      exact ⟨rfl, by decide, by decide⟩
  exact ⟨fun _ => ⟨hdimensions.2.1, fun h => absurd h hdimensions.2.2⟩,
    fun h => absurd hdimensions.1 h⟩

def transferFunction : FunctionDeclaration :=
  externalFunction "transfer" (by decide) ["address", "to", ",", "uint", "amount"] (by decide)

/-- The selector of a transfer is that of `transfer(address,uint256)`. -/
theorem signature_transfer :
    ∃ fn stop, parseFunction oneHash "Token" "token.sol"
        (tokenize "function transfer(address to, uint amount) external;") 0 = some (fn, stop) ∧
      fn.signature = canonicalSignature "transfer" transferParameters ∧
      fn.selector = some (selectorFor oneHash (canonicalSignature "transfer" transferParameters)) := by
  have hwords : words (tokenize "function transfer(address to, uint amount) external;") =
      [] ++ transferFunction.words ++ [] := by decide +kernel
  exact (@signature_canonical_iff _ transferFunction transferParameters [] [] oneHash "Token"
    "token.sol" rfl rfl hwords).mpr plain_transferParameters

/-- `(address[] accounts)`. -/
def accountsParameter : FunctionParameter :=
  namedParameter .address [none] "accounts" (by decide)

def excludeFunction : FunctionDeclaration :=
  externalFunction "exclude" (by decide) ["address", "[", "]", "accounts"] (by decide)

/-- The name of an array is part of its type. -/
theorem not_canonical_exclude :
    words (tokenize "function exclude(address[] accounts) external;") = excludeFunction.words ∧
      excludeFunction.parameters = commaSeparated ([accountsParameter].map (·.words)) ∧
      canonicalSignature "exclude" [accountsParameter] = "exclude(address[])" ∧
      ¬ ∃ fn stop, parseFunction oneHash "Token" "token.sol"
          (tokenize "function exclude(address[] accounts) external;") 0 = some (fn, stop) ∧
        fn.signature = canonicalSignature "exclude" [accountsParameter] ∧
        fn.selector =
          some (selectorFor oneHash (canonicalSignature "exclude" [accountsParameter])) := by
  refine ⟨by decide +kernel, by decide, by decide, ?_⟩
  rintro ⟨fn, stop, hparsed, hsignature, -⟩
  have hread : (parseFunction oneHash "Token" "token.sol" (tokenize
      "function exclude(address[] accounts) external;") 0).map (·.1.signature) =
        some "exclude(address[]accounts)" := by decide +kernel
  rw [hparsed, Option.map_some, hsignature] at hread
  exact absurd hread (by decide)

end HoodSentry
