import HoodSentry.Risk.Tokens
/-!
# Places of tokens

The lexical structure of a text as a relation of its own: the text is blanks,
comments, literals and other words, each ending where the language says. The
tokens are exactly its words and literals in their order, and their lines are
right as long as no literal with an escaped line break stands before a token:
the scan of a literal steps over the escaped character without looking at it.
-/

namespace HoodSentry

/-! ## Pieces -/

/-- A piece of a text. -/
inductive Piece
  | blank (c : Char)
  | comment (text : List Char)
  | literal (text : List Char)
  | word (text : List Char)
deriving DecidableEq

namespace Piece

def text : Piece → List Char
  | blank c => [c]
  | comment text | literal text | word text => text

/-- A piece that is a token. -/
def isToken : Piece → Bool
  | blank _ | comment _ => false
  | literal _ | word _ => true

/-- The line breaks of a piece. -/
def breaks (p : Piece) : ℕ := p.text.count '\n'

end Piece

/-- What may stand between the quotes of a literal: a backslash escapes the
character behind it. -/
inductive LiteralBody (quote : Char) : List Char → Prop
  | nil : LiteralBody quote []
  | plain {c : Char} {body : List Char} (hquote : c ≠ quote) (hescape : c ≠ '\\')
    (h : LiteralBody quote body) : LiteralBody quote (c :: body)
  | escaped {c : Char} {body : List Char} (h : LiteralBody quote body) :
    LiteralBody quote ('\\' :: c :: body)

/-- The escaped line breaks of a literal's text. -/
def escapedBreaks : List Char → ℕ
  | '\\' :: c :: rest => (if c = '\n' then 1 else 0) + escapedBreaks rest
  | _ :: rest => escapedBreaks rest
  | [] => 0

def Piece.escapedBreaks : Piece → ℕ
  | literal text => HoodSentry.escapedBreaks text
  | blank _ | comment _ | word _ => 0

/-- No end of a block comment. -/
def NoEnd (text : List Char) : Prop := ¬['*', '/'] <:+: text

/-- A character that begins no other piece than a symbol. -/
def BeginsSymbol (c : Char) (rest : List Char) : Prop :=
  isBlank c = false ∧ ¬(c = '/' ∧ (rest.head? = some '/' ∨ rest.head? = some '*')) ∧
    c ≠ '"' ∧ c ≠ '\'' ∧ isIdentifierStart c = false ∧ isDigit c = false

/-- **The lexical structure of a text**: its pieces, one after the other. -/
inductive Lexed : List Char → List Piece → Prop
  | nil : Lexed [] []
  | blank {c : Char} {rest : List Char} {pieces : List Piece} (hc : isBlank c = true)
    (h : Lexed rest pieces) : Lexed (c :: rest) (.blank c :: pieces)
  /-- A line comment ends before its line does. -/
  | lineComment {body rest : List Char} {pieces : List Piece} (hbody : '\n' ∉ body)
    (hrest : rest.head? = none ∨ rest.head? = some '\n') (h : Lexed rest pieces) :
    Lexed ('/' :: '/' :: (body ++ rest)) (.comment ('/' :: '/' :: body) :: pieces)
  /-- A block comment ends where it first can. -/
  | blockComment {body rest : List Char} {pieces : List Piece} (hbody : NoEnd (body ++ ['*']))
    (h : Lexed rest pieces) :
    Lexed ('/' :: '*' :: (body ++ '*' :: '/' :: rest))
      (.comment ('/' :: '*' :: (body ++ ['*', '/'])) :: pieces)
  | openComment {body : List Char} (hbody : NoEnd body) :
    Lexed ('/' :: '*' :: body) [.comment ('/' :: '*' :: body)]
  | literal {quote : Char} {body rest : List Char} {pieces : List Piece}
    (hquote : quote = '"' ∨ quote = '\'') (hbody : LiteralBody quote body)
    (h : Lexed rest pieces) :
    Lexed (quote :: (body ++ quote :: rest)) (.literal (quote :: (body ++ [quote])) :: pieces)
  /-- A literal that is not closed goes on to the end. -/
  | openLiteral {quote : Char} {body : List Char} (hquote : quote = '"' ∨ quote = '\'')
    (hbody : LiteralBody quote body ∨ ∃ body', LiteralBody quote body' ∧ body = body' ++ ['\\']) :
    Lexed (quote :: body) [.literal (quote :: body)]
  /-- Names and numbers are as long as they can be. -/
  | name {c : Char} {body rest : List Char} {pieces : List Piece}
    (hc : isIdentifierStart c = true) (hbody : ∀ d ∈ body, isIdentifierPart d = true)
    (hrest : ∀ d ∈ rest.head?, isIdentifierPart d = false) (h : Lexed rest pieces) :
    Lexed (c :: (body ++ rest)) (.word (c :: body) :: pieces)
  | number {c : Char} {body rest : List Char} {pieces : List Piece}
    (hc : isDigit c = true) (hbody : ∀ d ∈ body, isNumberPart d = true)
    (hrest : ∀ d ∈ rest.head?, isNumberPart d = false) (h : Lexed rest pieces) :
    Lexed (c :: (body ++ rest)) (.word (c :: body) :: pieces)
  /-- So are operators. -/
  | three {c d e : Char} {rest : List Char} {pieces : List Piece}
    (hop : String.ofList [c, d, e] ∈ threeCharacterOperators) (h : Lexed rest pieces) :
    Lexed (c :: d :: e :: rest) (.word [c, d, e] :: pieces)
  | two {c d : Char} {rest : List Char} {pieces : List Piece}
    (hop : String.ofList [c, d] ∈ twoCharacterOperators)
    (hthree : String.ofList (c :: d :: rest.take 1) ∉ threeCharacterOperators)
    (h : Lexed rest pieces) : Lexed (c :: d :: rest) (.word [c, d] :: pieces)
  | symbol {c : Char} {rest : List Char} {pieces : List Piece} (hc : BeginsSymbol c rest)
    (hthree : String.ofList (c :: rest.take 2) ∉ threeCharacterOperators)
    (htwo : String.ofList (c :: rest.take 1) ∉ twoCharacterOperators)
    (h : Lexed rest pieces) : Lexed (c :: rest) (.word [c] :: pieces)

/-- **The tokenizer keeps its place** in a text: the text is its pieces, the
tokens are those of them that are no blanks and no comments, and every token's
line is one more than the line breaks before it. -/
structure KeepsPlace (source : String) (pieces : List Piece) : Prop where
  whole : pieces.flatMap Piece.text = source.toList
  values : (tokenize source).map (·.value.toList) = (pieces.filter Piece.isToken).map Piece.text
  lines : ∀ before p after, pieces = before ++ p :: after → p.isToken →
    ((tokenize source)[(before.filter Piece.isToken).length]?).map (·.line) =
      some (1 + (before.flatMap Piece.text).count '\n')

/-- **The tokenizer keeps its place** in every lexical structure of a text,
which has one. -/
def KeepsItsPlace (source : String) : Prop :=
  (∃ pieces, Lexed source.toList pieces) ∧
    ∀ pieces, Lexed source.toList pieces → KeepsPlace source pieces

/-- **The condition**: no literal with an escaped line break stands before a
token. -/
def UnbrokenLiterals (source : String) : Prop :=
  ∀ pieces, Lexed source.toList pieces → ∀ before p after, pieces = before ++ p :: after →
    p.isToken → ∀ q ∈ before, q.escapedBreaks = 0

/-! ## Comments and literals -/

variable {c quote : Char} {text body rest : List Char} {pieces : List Piece} {line : ℕ}

theorem skipBlockComment_cons (h : c = '*' → rest.head? ≠ some '/') (line : ℕ) :
    skipBlockComment (c :: rest) line =
      skipBlockComment rest (if c = '\n' then line + 1 else line) := by
  rw [skipBlockComment]
  rintro rest' rfl rfl
  exact h rfl rfl

/-- A block comment is skipped, and its lines are counted. -/
theorem skipBlockComment_append (h : NoEnd (body ++ ['*'])) (rest : List Char) (line : ℕ) :
    skipBlockComment (body ++ '*' :: '/' :: rest) line = (rest, line + body.count '\n') := by
  induction body generalizing line with
  | nil => rfl
  | cons c body ih =>
    have hrest : NoEnd (body ++ ['*']) := fun hin => h (hin.trans (List.suffix_cons c _).isInfix)
    have hnext : c = '*' → (body ++ '*' :: '/' :: rest).head? ≠ some '/' := by
      rintro rfl hhead
      cases body with
      | nil => exact absurd (Option.some.inj hhead) (by decide)
      | cons d body =>
        obtain rfl : d = '/' := Option.some.inj hhead
        exact h ⟨[], body ++ ['*'], rfl⟩
    rw [List.cons_append, skipBlockComment_cons hnext, ih hrest, List.count_cons]
    split <;> simp_all
    omega

theorem skipBlockComment_open (h : NoEnd body) (line : ℕ) :
    skipBlockComment body line = ([], line + body.count '\n') := by
  induction body generalizing line with
  | nil => rfl
  | cons c body ih =>
    have hrest : NoEnd body := fun hin => h (hin.trans (List.suffix_cons c _).isInfix)
    have hnext : c = '*' → body.head? ≠ some '/' := by
      rintro rfl hhead
      cases body with
      | nil => cases hhead
      | cons d body =>
        obtain rfl : d = '/' := Option.some.inj hhead
        exact h ⟨[], body, rfl⟩
    rw [skipBlockComment_cons hnext, ih hrest, List.count_cons]
    split <;> simp_all
    omega

/-- The line breaks of a literal's text that are counted. -/
def countedBreaks : List Char → ℕ
  | '\\' :: _ :: rest => countedBreaks rest
  | c :: rest => (if c = '\n' then 1 else 0) + countedBreaks rest
  | [] => 0

theorem countedBreaks_cons (h : c ≠ '\\') (rest : List Char) :
    countedBreaks (c :: rest) = (if c = '\n' then 1 else 0) + countedBreaks rest := by
  rw [countedBreaks]
  rintro _ _ rfl
  exact absurd rfl h

/-- A line break is counted or escaped. -/
theorem countedBreaks_add (text : List Char) :
    countedBreaks text + escapedBreaks text = text.count '\n' := by
  fun_induction escapedBreaks text with
  | case1 c rest ih =>
    rw [countedBreaks, List.count_cons_of_ne (by decide), List.count_cons, ← ih]
    by_cases hc : c = '\n'
    · rw [if_pos hc, if_pos (by simpa using hc)]
      omega
    · rw [if_neg hc, if_neg (by simpa using hc)]
      omega
  | case2 c rest hne ih =>
    rw [countedBreaks, List.count_cons, ← ih]
    · by_cases hc : c = '\n'
      · rw [if_pos hc, if_pos (by simpa using hc)]
        omega
      · rw [if_neg hc, if_neg (by simpa using hc)]
        omega
    · exact hne
  | case3 => rfl

theorem LiteralBody.counted_append (h : LiteralBody quote body) (text : List Char) :
    countedBreaks (body ++ text) = countedBreaks body + countedBreaks text := by
  induction h with
  | nil => rw [List.nil_append, countedBreaks, Nat.zero_add]
  | plain _ hescape _ ih =>
    rw [List.cons_append, countedBreaks_cons hescape, countedBreaks_cons hescape, ih,
      Nat.add_assoc]
  | escaped _ ih =>
    rw [List.cons_append, List.cons_append, countedBreaks, countedBreaks, ih]

theorem readString_cons (h : c ≠ '\\') (hquote : c ≠ quote) (rest : List Char) (line : ℕ) :
    readString quote (c :: rest) line =
      (c :: (readString quote rest (if c = '\n' then line + 1 else line)).1,
        (readString quote rest (if c = '\n' then line + 1 else line)).2) := by
  rw [readString]
  · rw [if_neg hquote]
  · rintro rfl
    exact absurd rfl h
  · rintro _ _ rfl
    exact absurd rfl h

theorem readString_quote (h : quote ≠ '\\') (rest : List Char) (line : ℕ) :
    readString quote (quote :: rest) line = ([quote], rest, line) := by
  rw [readString]
  · rw [if_pos rfl]
  · rintro rfl
    exact absurd rfl h
  · rintro _ _ rfl
    exact absurd rfl h

/-- **A literal is read up to its closing quote.** -/
theorem LiteralBody.read (h : LiteralBody quote body) (hquote : quote ≠ '\\') (rest : List Char)
    (line : ℕ) : readString quote (body ++ quote :: rest) line =
      (body ++ [quote], rest, line + countedBreaks body) := by
  induction h generalizing line with
  | nil => exact readString_quote hquote rest line
  | plain hne hescape _ ih =>
    rw [List.cons_append, readString_cons hescape hne, ih, countedBreaks_cons hescape,
      List.cons_append]
    split <;> simp only [Prod.mk.injEq, true_and] <;> omega
  | escaped _ ih =>
    rw [List.cons_append, List.cons_append, readString, ih, countedBreaks]
    rfl

/-- One that is not closed is read to the end. -/
theorem LiteralBody.read_open (h : LiteralBody quote body) {tail : List Char}
    (htail : tail = [] ∨ tail = ['\\']) (line : ℕ) :
    readString quote (body ++ tail) line = (body ++ tail, [], line + countedBreaks body) := by
  induction h generalizing line with
  | nil => rcases htail with rfl | rfl <;> rfl
  | plain hne hescape _ ih =>
    rw [List.cons_append, readString_cons hescape hne, ih, countedBreaks_cons hescape]
    split <;> simp only [Prod.mk.injEq, true_and] <;> omega
  | escaped _ ih =>
    rw [List.cons_append, List.cons_append, readString, ih, countedBreaks]

/-! ## The tokens of the pieces -/

/-- The line breaks of a piece that the tokenizer counts. -/
def Piece.counted : Piece → ℕ
  | literal text => countedBreaks text
  | blank c => Piece.breaks (blank c)
  | comment text => Piece.breaks (comment text)
  | word text => Piece.breaks (word text)

theorem Piece.counted_add (p : Piece) : p.counted + p.escapedBreaks = p.breaks := by
  cases p with
  | literal text => exact countedBreaks_add text
  | blank c => rfl
  | comment text => rfl
  | word text => rfl

/-- The tokens of pieces, the first of which begins in a line. -/
def tokensOfPieces : List Piece → ℕ → List Token
  | [], _ => []
  | p :: pieces, line =>
    if p.isToken then ⟨String.ofList p.text, line⟩ :: tokensOfPieces pieces (line + p.counted)
    else tokensOfPieces pieces (line + p.counted)

theorem dropWhile_append_of_head {q : Char → Bool} (hbody : ∀ d ∈ body, q d = true)
    (hrest : ∀ d ∈ rest.head?, q d = false) : (body ++ rest).dropWhile q = rest := by
  rw [List.dropWhile_append_of_pos hbody]
  cases rest with
  | nil => rfl
  | cons d rest => exact List.dropWhile_cons_of_neg (by rw [hrest d rfl]; exact Bool.false_ne_true)

theorem takeWhile_append_of_head {q : Char → Bool} (hbody : ∀ d ∈ body, q d = true)
    (hrest : ∀ d ∈ rest.head?, q d = false) : (body ++ rest).takeWhile q = body := by
  rw [List.takeWhile_append_of_pos hbody]
  cases rest with
  | nil => simp
  | cons d rest =>
    rw [List.takeWhile_cons_of_neg (by rw [hrest d rfl]; exact Bool.false_ne_true),
      List.append_nil]

/-- What begins a name or a number begins nothing else. -/
theorem begins_of_isNameCharacter (h : isNameCharacter c = true) :
    isBlank c = false ∧ c ≠ '/' ∧ c ≠ '"' ∧ c ≠ '\'' := by
  obtain ⟨hblank, hmem⟩ := ne_of_isNameCharacter h
  refine ⟨hblank, ?_, ?_, ?_⟩ <;> rintro rfl <;> exact hmem (by decide)

theorem isIdentifierStart_of_isDigit (h : isDigit c = true) : isIdentifierStart c = false := by
  have hname : isNameCharacter c = true := by
    rw [isNameCharacter, isIdentifierPart, h, Bool.or_true, Bool.true_or]
  refine @forall_nameCharacter (fun c => isDigit c = true → isIdentifierStart c = false)
    (by decide) c hname h

theorem count_eq_zero_of_isNameCharacter (h : ∀ d ∈ text, isNameCharacter d = true) :
    text.count '\n' = 0 := by
  refine List.count_eq_zero.mpr fun hmem => ?_
  exact absurd (h _ hmem) (by decide)

/-- An operator begins nothing else. -/
theorem beginsSymbol_of_operator {d : Char} {others : List Char}
    (h : String.ofList (c :: d :: others) ∈ threeCharacterOperators ++ twoCharacterOperators)
    (rest : List Char) : BeginsSymbol c (d :: rest) := by
  have hquotes : ((threeCharacterOperators ++ twoCharacterOperators).all fun w =>
      w.toList.all fun c => !(['"', '\''].contains c)) = true := by decide
  have hslash : ((threeCharacterOperators ++ twoCharacterOperators).all fun w =>
      w.toList.head? != some '/' || w.toList.tail.head? == some '=') = true := by decide
  have hquote := List.all_eq_true.mp (List.all_eq_true.mp hquotes _ h) c (by simp)
  have hcomment := List.all_eq_true.mp hslash _ h
  obtain ⟨hblank, hpart, -⟩ := operators_spec h c (by simp)
  rw [isIdentifierPart, Bool.or_eq_false_iff] at hpart
  simp only [String.toList_ofList, List.head?_cons, List.tail_cons, bne_iff_ne, ne_eq,
    Option.some.injEq, Bool.or_eq_true, beq_iff_eq] at hcomment
  simp only [List.contains_cons, List.contains_nil, Bool.or_false, Bool.not_eq_true',
    Bool.or_eq_false_iff, beq_eq_false_iff_ne] at hquote
  refine ⟨hblank, ?_, hquote.1, hquote.2, hpart⟩
  rintro ⟨rfl, hnext | hnext⟩
  · obtain rfl := Option.some.inj hnext
    exact absurd (hcomment.resolve_left (not_not.mpr rfl)) (by decide)
  · obtain rfl := Option.some.inj hnext
    exact absurd (hcomment.resolve_left (not_not.mpr rfl)) (by decide)

/-- What the tokenizer does where a symbol begins. -/
theorem tokenizeFrom_symbol (h : BeginsSymbol c rest) (line : ℕ) :
    tokenizeFrom (c :: rest) line =
      if String.ofList (c :: rest.take 2) ∈ threeCharacterOperators then
        ⟨String.ofList (c :: rest.take 2), line⟩ :: tokenizeFrom (rest.drop 2) line
      else if String.ofList (c :: rest.take 1) ∈ twoCharacterOperators then
        ⟨String.ofList (c :: rest.take 1), line⟩ :: tokenizeFrom (rest.drop 1) line
      else ⟨String.ofList [c], line⟩ :: tokenizeFrom rest line := by
  obtain ⟨hblank, hcomment, hdouble, hsingle, hname, hdigit⟩ := h
  rw [tokenizeFrom, if_neg (by rw [hblank]; exact Bool.false_ne_true),
    if_neg (fun h => hcomment ⟨h.1, Or.inl h.2⟩), if_neg (fun h => hcomment ⟨h.1, Or.inr h.2⟩),
    if_neg (not_or.mpr ⟨hdouble, hsingle⟩), if_neg (by rw [hname]; exact Bool.false_ne_true),
    if_neg (by rw [hdigit]; exact Bool.false_ne_true)]

/-- No symbol holds a line break. -/
theorem count_operator (h : String.ofList text ∈ threeCharacterOperators ++ twoCharacterOperators) :
    text.count '\n' = 0 := by
  refine List.count_eq_zero.mpr fun hmem => ?_
  have hbreak := operators_spec h '\n' (by rwa [String.toList_ofList])
  exact absurd hbreak.1 (by decide)

/-- **The tokens of a text** are those of its pieces. -/
theorem tokenizeFrom_eq (h : Lexed text pieces) (line : ℕ) :
    tokenizeFrom text line = tokensOfPieces pieces line := by
  induction h generalizing line with
  | nil => rw [tokenizeFrom, tokensOfPieces]
  | @blank c rest pieces hc _ ih =>
    rw [tokenizeFrom, if_pos hc, ih]
    have hbreaks : (Piece.blank c).counted = if c = '\n' then 1 else 0 := by
      show [c].count '\n' = _
      by_cases hbreak : c = '\n'
      · rw [hbreak]
        rfl
      · rw [if_neg hbreak]
        exact List.count_eq_zero.mpr fun hmem => hbreak (List.mem_singleton.mp hmem).symm
    show _ = tokensOfPieces pieces (line + (Piece.blank c).counted)
    rw [hbreaks]
    split <;> rfl
  | @lineComment body rest pieces hbody hrest _ ih =>
    have hcount : ('/' :: '/' :: body).count '\n' = 0 := by
      refine List.count_eq_zero.mpr fun hmem => ?_
      simp only [List.mem_cons, hbody, or_false] at hmem
      rcases hmem with hmem | hmem <;> exact absurd hmem (by decide)
    have hdrop : (body ++ rest).dropWhile (· ≠ '\n') = rest := by
      refine dropWhile_append_of_head (fun d hd => ?_) (fun d hd => ?_)
      · exact decide_eq_true fun heq => hbody (heq ▸ hd)
      · rcases hrest with hnone | hsome
        · rw [hnone] at hd
          cases hd
        · rw [hsome] at hd
          obtain rfl := Option.some.inj hd
          rfl
    rw [tokenizeFrom, if_neg (by decide), if_pos ⟨rfl, rfl⟩, List.tail_cons, hdrop, ih]
    show _ = tokensOfPieces pieces (line + ('/' :: '/' :: body).count '\n')
    rw [hcount, Nat.add_zero]
  | @blockComment body rest pieces hbody _ ih =>
    have hcount : ('/' :: '*' :: (body ++ ['*', '/'])).count '\n' = body.count '\n' := by
      rw [List.count_cons_of_ne (by decide), List.count_cons_of_ne (by decide), List.count_append]
      rfl
    rw [tokenizeFrom, if_neg (by decide), if_neg (by simp), if_pos ⟨rfl, rfl⟩, List.tail_cons,
      skipBlockComment_append hbody, ih]
    show _ = tokensOfPieces pieces (line + ('/' :: '*' :: (body ++ ['*', '/'])).count '\n')
    rw [hcount]
  | @openComment body hbody =>
    rw [tokenizeFrom, if_neg (by decide), if_neg (by simp), if_pos ⟨rfl, rfl⟩, List.tail_cons,
      skipBlockComment_open hbody, tokenizeFrom]
    rfl
  | @literal quote body rest pieces hquote hbody _ ih =>
    have hcases : quote ≠ '\\' ∧ quote ≠ '\n' ∧ isBlank quote = false ∧ quote ≠ '/' := by
      rcases hquote with rfl | rfl <;> decide
    obtain ⟨hescape, hbreak, hblank, hslash⟩ := hcases
    have hcount : countedBreaks (quote :: (body ++ [quote])) = countedBreaks body := by
      rw [countedBreaks_cons hescape, if_neg hbreak, Nat.zero_add, hbody.counted_append,
        countedBreaks_cons hescape, if_neg hbreak]
      rfl
    rw [tokenizeFrom, if_neg (by rw [hblank]; exact Bool.false_ne_true),
      if_neg (fun h => hslash h.1), if_neg (fun h => hslash h.1), if_pos hquote,
      hbody.read hescape, ih]
    show _ = ⟨String.ofList (quote :: (body ++ [quote])), line⟩ ::
      tokensOfPieces pieces (line + countedBreaks (quote :: (body ++ [quote])))
    rw [hcount]
  | @openLiteral quote body hquote hbody =>
    have hcases : isBlank quote = false ∧ quote ≠ '/' := by
      rcases hquote with rfl | rfl <;> decide
    obtain ⟨hblank, hslash⟩ := hcases
    obtain ⟨body', tail, htail, hbody', rfl⟩ : ∃ body' tail, (tail = [] ∨ tail = ['\\']) ∧
        LiteralBody quote body' ∧ body = body' ++ tail := by
      rcases hbody with hbody | ⟨body', hbody', rfl⟩
      · exact ⟨body, [], Or.inl rfl, hbody, (List.append_nil body).symm⟩
      · exact ⟨body', ['\\'], Or.inr rfl, hbody', rfl⟩
    rw [tokenizeFrom, if_neg (by rw [hblank]; exact Bool.false_ne_true),
      if_neg (fun h => hslash h.1), if_neg (fun h => hslash h.1), if_pos hquote,
      hbody'.read_open htail, tokenizeFrom]
    rfl
  | @name c body rest pieces hc hbody hrest _ ih =>
    have hpart : ∀ d ∈ c :: body, isNameCharacter d = true := by
      refine List.forall_mem_cons.mpr ⟨isNameCharacter_of_part ?_, fun d hd =>
        isNameCharacter_of_part (hbody d hd)⟩
      rw [isIdentifierPart, hc, Bool.true_or]
    obtain ⟨hblank, hslash, hdouble, hsingle⟩ :=
      begins_of_isNameCharacter (hpart c List.mem_cons_self)
    rw [tokenizeFrom, if_neg (by rw [hblank]; exact Bool.false_ne_true),
      if_neg (fun h => hslash h.1), if_neg (fun h => hslash h.1),
      if_neg (not_or.mpr ⟨hdouble, hsingle⟩), if_pos hc, takeWhile_append_of_head hbody hrest,
      dropWhile_append_of_head hbody hrest, ih]
    show _ = ⟨String.ofList (c :: body), line⟩ :: tokensOfPieces pieces (line + (c :: body).count '\n')
    rw [count_eq_zero_of_isNameCharacter hpart, Nat.add_zero]
  | @number c body rest pieces hc hbody hrest _ ih =>
    have hpart : ∀ d ∈ c :: body, isNameCharacter d = true := by
      refine List.forall_mem_cons.mpr ⟨isNameCharacter_of_part ?_, fun d hd =>
        isNameCharacter_of_number (hbody d hd)⟩
      rw [isIdentifierPart, hc, Bool.or_true]
    obtain ⟨hblank, hslash, hdouble, hsingle⟩ :=
      begins_of_isNameCharacter (hpart c List.mem_cons_self)
    rw [tokenizeFrom, if_neg (by rw [hblank]; exact Bool.false_ne_true),
      if_neg (fun h => hslash h.1), if_neg (fun h => hslash h.1),
      if_neg (not_or.mpr ⟨hdouble, hsingle⟩),
      if_neg (by rw [isIdentifierStart_of_isDigit hc]; exact Bool.false_ne_true), if_pos hc,
      takeWhile_append_of_head hbody hrest, dropWhile_append_of_head hbody hrest, ih]
    show _ = ⟨String.ofList (c :: body), line⟩ :: tokensOfPieces pieces (line + (c :: body).count '\n')
    rw [count_eq_zero_of_isNameCharacter hpart, Nat.add_zero]
  | @three c d e rest pieces hop _ ih =>
    have hmem := List.mem_append_left twoCharacterOperators hop
    rw [tokenizeFrom_symbol (beginsSymbol_of_operator hmem _)]
    change (if String.ofList [c, d, e] ∈ threeCharacterOperators then
      ⟨String.ofList [c, d, e], line⟩ :: tokenizeFrom rest line else _) =
        ⟨String.ofList [c, d, e], line⟩ :: tokensOfPieces pieces (line + [c, d, e].count '\n')
    rw [if_pos hop, count_operator hmem, ih, Nat.add_zero]
  | @two c d rest pieces hop hthree _ ih =>
    have hmem := List.mem_append_right threeCharacterOperators hop
    rw [tokenizeFrom_symbol (beginsSymbol_of_operator hmem _)]
    change (if String.ofList (c :: d :: rest.take 1) ∈ threeCharacterOperators then _
      else if String.ofList [c, d] ∈ twoCharacterOperators then
        ⟨String.ofList [c, d], line⟩ :: tokenizeFrom rest line else _) =
          ⟨String.ofList [c, d], line⟩ :: tokensOfPieces pieces (line + [c, d].count '\n')
    rw [if_neg hthree, if_pos hop, count_operator hmem, ih, Nat.add_zero]
  | @symbol c rest pieces hc hthree htwo _ ih =>
    have hcount : [c].count '\n' = 0 := by
      refine List.count_eq_zero.mpr fun hmem => ?_
      obtain rfl := List.mem_singleton.mp hmem
      exact absurd hc.1 (by decide)
    rw [tokenizeFrom_symbol hc, if_neg hthree, if_neg htwo, ih]
    show _ = ⟨String.ofList [c], line⟩ :: tokensOfPieces pieces (line + [c].count '\n')
    rw [hcount, Nat.add_zero]

/-! ## Every text has its pieces -/

theorem noEnd_cons (h : NoEnd text) (hnext : c = '*' → text.head? ≠ some '/') :
    NoEnd (c :: text) := by
  intro hin
  rcases List.infix_cons_iff.mp hin with hprefix | hin
  · obtain ⟨rfl, hrest⟩ := List.cons_prefix_cons.mp hprefix
    obtain ⟨d, others, rfl⟩ : ∃ d others, text = d :: others := by
      cases text with
      | nil => exact absurd hrest.length_le (by simp)
      | cons d others => exact ⟨d, others, rfl⟩
    obtain ⟨rfl, -⟩ := List.cons_prefix_cons.mp hrest
    exact hnext rfl rfl
  · exact h hin

/-- A block comment is open, or ends where it first can. -/
theorem exists_comment_end (text : List Char) :
    NoEnd text ∨ ∃ body rest, text = body ++ '*' :: '/' :: rest ∧ NoEnd (body ++ ['*']) := by
  induction text with
  | nil => exact Or.inl fun hin => absurd (List.infix_nil.mp hin) (List.cons_ne_nil _ _)
  | cons c text ih =>
    by_cases hend : c = '*' ∧ text.head? = some '/'
    · obtain ⟨rfl, hslash⟩ := hend
      cases text with
      | nil => cases hslash
      | cons d rest =>
        obtain rfl := Option.some.inj hslash
        exact Or.inr ⟨[], rest, rfl, fun hin => absurd hin.length_le (by simp)⟩
    · have hnext : c = '*' → text.head? ≠ some '/' := fun hc hslash => hend ⟨hc, hslash⟩
      rcases ih with hopen | ⟨body, rest, rfl, hbody⟩
      · exact Or.inl (noEnd_cons hopen hnext)
      · refine Or.inr ⟨c :: body, rest, rfl, noEnd_cons hbody fun hc hslash => hnext hc ?_⟩
        cases body with
        | nil => exact absurd (Option.some.inj hslash) (by decide)
        | cons d body => exact hslash

/-- A literal is open, or ends at its first quote that is not escaped. -/
theorem exists_literal_end (text : List Char) :
    (∃ body rest, text = body ++ quote :: rest ∧ LiteralBody quote body) ∨
      LiteralBody quote text ∨ ∃ body, LiteralBody quote body ∧ text = body ++ ['\\'] := by
  fun_induction escapedBreaks text with
  | case1 c rest ih =>
    rcases ih with ⟨body, rest', rfl, hbody⟩ | hbody | ⟨body, hbody, rfl⟩
    · exact Or.inl ⟨'\\' :: c :: body, rest', rfl, hbody.escaped⟩
    · exact Or.inr (Or.inl hbody.escaped)
    · exact Or.inr (Or.inr ⟨'\\' :: c :: body, hbody.escaped, rfl⟩)
  | case2 c rest hne ih =>
    by_cases hc : c = quote
    · exact Or.inl ⟨[], rest, by rw [hc, List.nil_append], .nil⟩
    by_cases hescape : c = '\\'
    · -- a backslash that escapes nothing ends the text
      obtain rfl : rest = [] := by
        cases rest with
        | nil => rfl
        | cons d rest => exact (hne d rest hescape rfl).elim
      exact Or.inr (Or.inr ⟨[], .nil, by rw [hescape, List.nil_append]⟩)
    · rcases ih with ⟨body, rest', rfl, hbody⟩ | hbody | ⟨body, hbody, rfl⟩
      · exact Or.inl ⟨c :: body, rest', rfl, hbody.plain hc hescape⟩
      · exact Or.inr (Or.inl (hbody.plain hc hescape))
      · exact Or.inr (Or.inr ⟨c :: body, hbody.plain hc hescape, rfl⟩)
  | case3 => exact Or.inr (Or.inl .nil)

theorem head?_dropWhile {q : Char → Bool} (text : List Char) :
    ∀ d ∈ (text.dropWhile q).head?, q d = false := by
  intro d hd
  have hnot := List.head?_dropWhile_not q text
  rw [hd] at hnot
  simpa using hnot

theorem Lexed.of_lineComment (h : Lexed (rest.dropWhile (· ≠ '\n')) pieces) :
    Lexed ('/' :: '/' :: rest)
      (.comment ('/' :: '/' :: rest.takeWhile (· ≠ '\n')) :: pieces) := by
  have hpiece : Lexed ('/' :: '/' :: (rest.takeWhile (· ≠ '\n') ++ rest.dropWhile (· ≠ '\n')))
      (.comment ('/' :: '/' :: rest.takeWhile (· ≠ '\n')) :: pieces) := by
    refine .lineComment ?_ ?_ h
    · intro hmem
      have hne := List.mem_takeWhile_imp hmem
      simp at hne
    · have hhead := @head?_dropWhile (· ≠ '\n') rest
      cases hrest : (rest.dropWhile (· ≠ '\n')).head? with
      | none => exact Or.inl rfl
      | some d =>
        have hd := of_decide_eq_false (hhead d hrest)
        exact Or.inr (congrArg some (not_not.mp hd))
  rwa [List.takeWhile_append_dropWhile] at hpiece

theorem Lexed.of_name (hc : isIdentifierStart c = true)
    (h : Lexed (rest.dropWhile isIdentifierPart) pieces) :
    Lexed (c :: rest) (.word (c :: rest.takeWhile isIdentifierPart) :: pieces) := by
  have hpiece : Lexed (c :: (rest.takeWhile isIdentifierPart ++ rest.dropWhile isIdentifierPart))
      (.word (c :: rest.takeWhile isIdentifierPart) :: pieces) :=
    .name hc (fun d hd => List.mem_takeWhile_imp hd) (head?_dropWhile rest) h
  rwa [List.takeWhile_append_dropWhile] at hpiece

theorem Lexed.of_number (hc : isDigit c = true)
    (h : Lexed (rest.dropWhile isNumberPart) pieces) :
    Lexed (c :: rest) (.word (c :: rest.takeWhile isNumberPart) :: pieces) := by
  have hpiece : Lexed (c :: (rest.takeWhile isNumberPart ++ rest.dropWhile isNumberPart))
      (.word (c :: rest.takeWhile isNumberPart) :: pieces) :=
    .number hc (fun d hd => List.mem_takeWhile_imp hd) (head?_dropWhile rest) h
  rwa [List.takeWhile_append_dropWhile] at hpiece

theorem exists_cons_of_head? {d : Char} (h : rest.head? = some d) :
    ∃ others, rest = d :: others := by
  cases rest with
  | nil => cases h
  | cons e others => exact ⟨others, by rw [Option.some.inj h]⟩

/-- An operator of three characters is cut off, and so is one of two. -/
theorem exists_cons_of_three
    (h : String.ofList (c :: rest.take 2) ∈ threeCharacterOperators) :
    ∃ d e others, rest = d :: e :: others := by
  have hlen : ∀ w ∈ threeCharacterOperators, w.toList.length = 3 := by decide
  have hthree := hlen _ h
  rcases rest with _ | ⟨d, _ | ⟨e, others⟩⟩
  · simp at hthree
  · simp at hthree
  · exact ⟨d, e, others, rfl⟩

theorem exists_cons_of_two (h : String.ofList (c :: rest.take 1) ∈ twoCharacterOperators) :
    ∃ d others, rest = d :: others := by
  have hlen : ∀ w ∈ twoCharacterOperators, w.toList.length = 2 := by decide
  have htwo := hlen _ h
  rcases rest with _ | ⟨d, others⟩
  · simp at htwo
  · exact ⟨d, others, rfl⟩

/-- **Every text has a lexical structure.** -/
theorem exists_lexed (text : List Char) : ∃ pieces, Lexed text pieces := by
  induction hlength : text.length using Nat.strong_induction_on generalizing text with
  | _ n ih =>
  have hless : ∀ {rest : List Char}, rest.length < n → ∃ pieces, Lexed rest pieces :=
    fun h => ih _ h _ rfl
  cases text with
  | nil => exact ⟨[], .nil⟩
  | cons c rest =>
    rw [List.length_cons] at hlength
    by_cases hblank : isBlank c = true
    · obtain ⟨pieces, h⟩ := @hless rest (by omega)
      exact ⟨_, .blank hblank h⟩
    by_cases hline : c = '/' ∧ rest.head? = some '/'
    · obtain ⟨rfl, hslash⟩ := hline
      obtain ⟨rest, rfl⟩ := exists_cons_of_head? hslash
      have hdrop := (List.dropWhile_sublist (p := (· ≠ '\n')) (l := rest)).length_le
      rw [List.length_cons] at hlength
      obtain ⟨pieces, h⟩ := @hless (rest.dropWhile (· ≠ '\n')) (by omega)
      exact ⟨_, .of_lineComment h⟩
    by_cases hblock : c = '/' ∧ rest.head? = some '*'
    · obtain ⟨rfl, hstar⟩ := hblock
      obtain ⟨rest, rfl⟩ := exists_cons_of_head? hstar
      rcases exists_comment_end rest with hopen | ⟨body, rest, rfl, hbody⟩
      · exact ⟨_, .openComment hopen⟩
      · simp only [List.length_cons, List.length_append] at hlength
        obtain ⟨pieces, h⟩ := @hless rest (by omega)
        exact ⟨_, .blockComment hbody h⟩
    by_cases hquote : c = '"' ∨ c = '\''
    · rcases @exists_literal_end c rest with ⟨body, rest, rfl, hbody⟩ | hopen
      · simp only [List.length_cons, List.length_append] at hlength
        obtain ⟨pieces, h⟩ := @hless rest (by omega)
        exact ⟨_, .literal hquote hbody h⟩
      · exact ⟨_, .openLiteral hquote hopen⟩
    by_cases hname : isIdentifierStart c = true
    · have hdrop := (List.dropWhile_sublist (p := isIdentifierPart) (l := rest)).length_le
      obtain ⟨pieces, h⟩ := @hless (rest.dropWhile isIdentifierPart) (by omega)
      exact ⟨_, .of_name hname h⟩
    by_cases hdigit : isDigit c = true
    · have hdrop := (List.dropWhile_sublist (p := isNumberPart) (l := rest)).length_le
      obtain ⟨pieces, h⟩ := @hless (rest.dropWhile isNumberPart) (by omega)
      exact ⟨_, .of_number hdigit h⟩
    have hsymbol : BeginsSymbol c rest := by
      refine ⟨by simpa using hblank, ?_, fun h => hquote (Or.inl h), fun h => hquote (Or.inr h),
        by simpa using hname, by simpa using hdigit⟩
      rintro ⟨hslash, hnext | hnext⟩
      · exact hline ⟨hslash, hnext⟩
      · exact hblock ⟨hslash, hnext⟩
    by_cases hthree : String.ofList (c :: rest.take 2) ∈ threeCharacterOperators
    · obtain ⟨d, e, rest, rfl⟩ := exists_cons_of_three hthree
      simp only [List.length_cons] at hlength
      obtain ⟨pieces, h⟩ := @hless rest (by omega)
      exact ⟨_, .three hthree h⟩
    by_cases htwo : String.ofList (c :: rest.take 1) ∈ twoCharacterOperators
    · obtain ⟨d, rest, rfl⟩ := exists_cons_of_two htwo
      simp only [List.length_cons] at hlength
      obtain ⟨pieces, h⟩ := @hless rest (by omega)
      exact ⟨_, .two htwo hthree h⟩
    · obtain ⟨pieces, h⟩ := @hless rest (by omega)
      exact ⟨_, .symbol hsymbol hthree htwo h⟩

/-! ## Lines -/

/-- A text is its pieces, one after the other. -/
theorem flatMap_text_of_lexed (h : Lexed text pieces) : pieces.flatMap Piece.text = text := by
  induction h with
  | nil => rfl
  | blank _ _ ih | lineComment _ _ _ ih | blockComment _ _ ih | literal _ _ _ ih
  | name _ _ _ _ ih | number _ _ _ _ ih | three _ _ ih | two _ _ _ ih | symbol _ _ _ _ ih =>
    rw [List.flatMap_cons, ih]
    simp [Piece.text]
  | openComment | openLiteral => simp [Piece.text]

theorem map_value_tokensOfPieces (pieces : List Piece) (line : ℕ) :
    (tokensOfPieces pieces line).map (·.value.toList) =
      (pieces.filter Piece.isToken).map Piece.text := by
  induction pieces generalizing line with
  | nil => rfl
  | cons p pieces ih =>
    rw [tokensOfPieces]
    by_cases hp : p.isToken = true
    · rw [if_pos hp, List.filter_cons_of_pos hp, List.map_cons, List.map_cons, ih,
        String.toList_ofList]
    · rw [if_neg hp, List.filter_cons_of_neg hp, ih]

/-- The token of a piece begins in the line the counted breaks before it
lead to. -/
theorem getElem?_tokensOfPieces (before : List Piece) {p : Piece} (after : List Piece) (hp : p.isToken)
    (line : ℕ) : (tokensOfPieces (before ++ p :: after) line)[(before.filter Piece.isToken).length]? =
      some ⟨String.ofList p.text, line + (before.map Piece.counted).sum⟩ := by
  induction before generalizing line with
  | nil =>
    rw [List.nil_append, tokensOfPieces, if_pos hp]
    rfl
  | cons q before ih =>
    rw [List.cons_append, tokensOfPieces, List.map_cons, List.sum_cons, ← Nat.add_assoc, ← ih]
    by_cases hq : q.isToken = true
    · rw [if_pos hq, List.filter_cons_of_pos hq]
      rfl
    · rw [if_neg hq, List.filter_cons_of_neg hq]

theorem sum_counted_add (before : List Piece) :
    (before.map Piece.counted).sum + (before.map Piece.escapedBreaks).sum =
      (before.flatMap Piece.text).count '\n' := by
  induction before with
  | nil => rfl
  | cons q before ih =>
    have hq : q.counted + q.escapedBreaks = q.text.count '\n' := q.counted_add
    rw [List.map_cons, List.map_cons, List.sum_cons, List.sum_cons, List.flatMap_cons,
      List.count_append]
    omega

/-- A token's line is right if no literal before it has an escaped line
break. -/
theorem line_iff {source : String} (h : Lexed source.toList pieces) {before after : List Piece}
    {p : Piece} (hsplit : pieces = before ++ p :: after) (hp : p.isToken) :
    ((tokenize source)[(before.filter Piece.isToken).length]?).map (·.line) =
        some (1 + (before.flatMap Piece.text).count '\n') ↔
      ∀ q ∈ before, q.escapedBreaks = 0 := by
  have hsum := sum_counted_add before
  rw [tokenize, tokenizeFrom_eq h, hsplit, getElem?_tokensOfPieces before after hp, Option.map_some,
    Option.some.injEq]
  have hzero : (before.map Piece.escapedBreaks).sum = 0 ↔ ∀ q ∈ before, q.escapedBreaks = 0 := by
    rw [List.sum_eq_zero_iff]
    exact List.forall_mem_map
  rw [← hzero]
  dsimp only
  omega

/-- **The tokenizer keeps its place** exactly in the texts where no literal
with an escaped line break stands before a token. -/
theorem keepsItsPlace_iff (source : String) : KeepsItsPlace source ↔ UnbrokenLiterals source := by
  constructor
  · intro hkeeps pieces h before p after hsplit hp
    exact (line_iff h hsplit hp).mp ((hkeeps.2 pieces h).lines before p after hsplit hp)
  · intro hunbroken
    refine ⟨exists_lexed _, fun pieces h => ⟨flatMap_text_of_lexed h, ?_, ?_⟩⟩
    · rw [tokenize, tokenizeFrom_eq h, map_value_tokensOfPieces]
    · intro before p after hsplit hp
      exact (line_iff h hsplit hp).mpr (hunbroken pieces h before p after hsplit hp)

/-- A literal with an escaped line break, and a name in the second line. -/
def brokenLiteral : String := String.ofList ['"', '\\', '\n', '"', 'x']

/-- **The name is told to stand in the first line.** -/
theorem not_keepsItsPlace_brokenLiteral :
    tokenize brokenLiteral = [⟨String.ofList ['"', '\\', '\n', '"'], 1⟩, ⟨"x", 1⟩] ∧
      ¬KeepsItsPlace brokenLiteral := by
  have hlexed : Lexed brokenLiteral.toList
      [.literal ['"', '\\', '\n', '"'], .word ['x']] := by
    rw [brokenLiteral, String.toList_ofList]
    refine @Lexed.literal '"' ['\\', '\n'] ['x'] _ (Or.inl rfl) (.escaped .nil) ?_
    exact @Lexed.name 'x' [] [] _ (by decide) (by simp) (by simp) .nil
  have htokens : tokenize brokenLiteral =
      [⟨String.ofList ['"', '\\', '\n', '"'], 1⟩, ⟨"x", 1⟩] := by
    rw [tokenize, tokenizeFrom_eq hlexed]
    rfl
  refine ⟨htokens, fun hkeeps => ?_⟩
  have hline := (hkeeps.2 _ hlexed).lines [.literal ['"', '\\', '\n', '"']] (.word ['x']) []
    rfl rfl
  rw [htokens] at hline
  exact absurd (Option.some.inj hline) (by decide)

end HoodSentry
