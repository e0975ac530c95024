import HoodSentry.Risk.Model.Solidity
/-!
# What the tokenizer gives

Every token is an identifier, a number, a literal or a symbol (`Lexeme`):
none is empty or begins with a blank, and a symbol holds no character of a
name.
-/

namespace HoodSentry

/-! ## Characters -/

/-- A character of a name or a number. -/
def isNameCharacter (c : Char) : Bool := isIdentifierPart c || c = '.'

/-- What is decided of the names' characters, one by one. -/
theorem forall_nameCharacter {P : Char → Prop}
    (h : ∀ n < 128, isNameCharacter (Char.ofNat n) = true → P (Char.ofNat n)) {c : Char}
    (hc : isNameCharacter c = true) : P c := by
  have hcases : c ≤ 'Z' ∨ c ≤ 'z' ∨ c ≤ '9' ∨ c = '_' ∨ c = '$' ∨ c = '.' := by
    simp only [isNameCharacter, isIdentifierPart, isIdentifierStart, isDigit, Bool.or_eq_true,
      Bool.and_eq_true, decide_eq_true_eq] at hc
    tauto
  have hle : ∀ d : Char, c ≤ d → c.toNat ≤ d.toNat := fun _ hd => hd
  have hsmall : c.toNat < 128 := by
    rcases hcases with hd | hd | hd | rfl | rfl | rfl
    · exact lt_of_le_of_lt (hle _ hd) (by decide)
    · exact lt_of_le_of_lt (hle _ hd) (by decide)
    · exact lt_of_le_of_lt (hle _ hd) (by decide)
    · decide
    · decide
    · decide
  have hself := h c.toNat hsmall
  rw [Char.ofNat_toNat] at hself
  exact hself hc

/-- What a name and a number never hold. -/
theorem ne_of_isNameCharacter {c : Char} (h : isNameCharacter c = true) :
    isBlank c = false ∧ c ∉ ['=', '+', '-', '*', '/', '[', ']', '(', ')', '"', '\''] :=
  @forall_nameCharacter (fun c => isBlank c = false ∧
    c ∉ ['=', '+', '-', '*', '/', '[', ']', '(', ')', '"', '\'']) (by decide) c h

theorem isNameCharacter_of_part {c : Char} (h : isIdentifierPart c = true) :
    isNameCharacter c = true := by
  rw [isNameCharacter, h, Bool.true_or]

theorem isNameCharacter_of_number {c : Char} (h : isNumberPart c = true) :
    isNameCharacter c = true := by
  simp only [isNumberPart, isNameCharacter, isIdentifierPart, isIdentifierStart, Bool.or_eq_true,
    decide_eq_true_eq] at h ⊢
  tauto

/-- An identifier has characters of names only, and at least one. -/
theorem exists_of_isIdentifier {w : String} (h : isIdentifier w = true) :
    (∃ c rest, w.toList = c :: rest) ∧ ∀ c ∈ w.toList, isIdentifierPart c = true := by
  unfold isIdentifier at h
  split at h
  · cases h
  · rename_i c rest hw
    rw [Bool.and_eq_true, List.all_eq_true] at h
    refine ⟨⟨c, rest, hw⟩, ?_⟩
    rw [hw]
    exact List.forall_mem_cons.mpr ⟨by rw [isIdentifierPart, h.1, Bool.true_or], h.2⟩

/-! ## Lexemes -/

/-- The text of a name or a number. -/
def IsNameLike (w : String) : Prop :=
  w.toList ≠ [] ∧ ∀ c ∈ w.toList, isNameCharacter c = true

def IsLiteral (w : String) : Prop :=
  ∃ rest, w.toList = '"' :: rest ∨ w.toList = '\'' :: rest

/-- A symbol: an operator of several characters, or a character that begins
nothing else. -/
def IsSymbol (w : String) : Prop :=
  w ∈ threeCharacterOperators ++ twoCharacterOperators ∨
    ∃ c, w.toList = [c] ∧ isBlank c = false ∧ isIdentifierPart c = false

/-- **A word of the tokenizer.** -/
def Lexeme (w : String) : Prop := IsNameLike w ∨ IsLiteral w ∨ IsSymbol w

theorem isNameLike_of_all {c : Char} {rest : List Char} {q : Char → Bool}
    (hfirst : isNameCharacter c = true) (hpart : ∀ d, q d = true → isNameCharacter d = true) :
    IsNameLike (String.ofList (c :: rest.takeWhile q)) := by
  rw [IsNameLike, String.toList_ofList]
  refine ⟨List.cons_ne_nil c _, List.forall_mem_cons.mpr ⟨hfirst, fun d hd => hpart d ?_⟩⟩
  exact List.mem_takeWhile_imp hd

/-- **Every token is a lexeme.** -/
theorem lexeme_of_mem_tokenizeFrom {text : List Char} {line : ℕ} {token : Token}
    (h : token ∈ tokenizeFrom text line) : Lexeme token.value := by
  fun_induction tokenizeFrom text line with
  | case1 line => cases h
  | case2 line c rest hblank ih => exact ih h
  | case3 line c rest hblank hcomment ih => exact ih h
  | case4 line c rest hblank hline hcomment ih => exact ih h
  | case5 line c rest hblank hline hcomment hquote ih =>
    rcases List.mem_cons.mp h with rfl | hrest
    · refine .inr (.inl ⟨(readString c rest line).1, ?_⟩)
      rw [String.toList_ofList]
      rcases hquote with rfl | rfl
      · exact .inl rfl
      · exact .inr rfl
    · exact ih hrest
  | case6 line c rest hblank hline hcomment hquote hname ih =>
    rcases List.mem_cons.mp h with rfl | hrest
    · refine .inl (isNameLike_of_all ?_ fun _ => isNameCharacter_of_part)
      exact isNameCharacter_of_part (by rw [isIdentifierPart, hname, Bool.true_or])
    · exact ih hrest
  | case7 line c rest hblank hline hcomment hquote hname hdigit ih =>
    rcases List.mem_cons.mp h with rfl | hrest
    · refine .inl (isNameLike_of_all ?_ fun _ => isNameCharacter_of_number)
      exact isNameCharacter_of_part (by rw [isIdentifierPart, hdigit, Bool.or_true])
    · exact ih hrest
  | case8 line c rest hblank hline hcomment hquote hname hdigit hthree ih =>
    rcases List.mem_cons.mp h with rfl | hrest
    · exact .inr (.inr (.inl (List.mem_append_left _ hthree)))
    · exact ih hrest
  | case9 line c rest hblank hline hcomment hquote hname hdigit hthree htwo ih =>
    rcases List.mem_cons.mp h with rfl | hrest
    · exact .inr (.inr (.inl (List.mem_append_right _ htwo)))
    · exact ih hrest
  | case10 line c rest hblank hline hcomment hquote hname hdigit hthree htwo ih =>
    rcases List.mem_cons.mp h with rfl | hrest
    · refine .inr (.inr (.inr ⟨c, String.toList_ofList, by simpa using hblank, ?_⟩))
      rw [isIdentifierPart, Bool.or_eq_false_iff]
      exact ⟨by simpa using hname, by simpa using hdigit⟩
    · exact ih hrest

theorem lexeme_of_mem_tokenize {source : String} {token : Token} (h : token ∈ tokenize source) :
    Lexeme token.value := lexeme_of_mem_tokenizeFrom h

/-- The longer operators begin with no blank, bracket or name. -/
theorem operators_spec {w : String} (h : w ∈ threeCharacterOperators ++ twoCharacterOperators) :
    ∀ c ∈ w.toList, isBlank c = false ∧ isIdentifierPart c = false ∧ c ∉ ['[', ']', '(', ')'] := by
  have hall : ((threeCharacterOperators ++ twoCharacterOperators).all fun w => w.toList.all fun c =>
      !isBlank c && !isIdentifierPart c && !(['[', ']', '(', ')'].contains c)) = true := by decide
  intro c hc
  have hself := List.all_eq_true.mp (List.all_eq_true.mp hall w h) c hc
  simpa [and_assoc] using hself

/-- No lexeme begins with a blank. -/
theorem Lexeme.exists_head {w : String} (h : Lexeme w) :
    ∃ c rest, w.toList = c :: rest ∧ isBlank c = false := by
  rcases h with ⟨hne, hall⟩ | ⟨rest, hquote | hquote⟩ | hop | ⟨c, hc, hblank, -⟩
  · obtain ⟨c, rest, hlist⟩ := List.exists_cons_of_ne_nil hne
    exact ⟨c, rest, hlist, (ne_of_isNameCharacter (hall c (hlist ▸ List.mem_cons_self))).1⟩
  · exact ⟨_, rest, hquote, by decide⟩
  · exact ⟨_, rest, hquote, by decide⟩
  · have hne : ∀ w ∈ threeCharacterOperators ++ twoCharacterOperators, w.toList ≠ [] := by decide
    obtain ⟨c, rest, hlist⟩ := List.exists_cons_of_ne_nil (hne w hop)
    exact ⟨c, rest, hlist, (operators_spec hop c (hlist ▸ List.mem_cons_self)).1⟩
  · exact ⟨c, [], hc, hblank⟩

/-- A bracket outside of literals is a word of its own. -/
theorem Lexeme.eq_bracket {w : String} {c : Char} (h : Lexeme w) (hliteral : ¬ IsLiteral w)
    (hc : c ∈ ['[', ']', '(', ')']) (hmem : c ∈ w.toList) : w.toList = [c] := by
  rcases h with ⟨-, hall⟩ | hlit | hop | ⟨d, hd, -, -⟩
  · have hin : c ∈ ['=', '+', '-', '*', '/'] ++ (['[', ']', '(', ')'] ++ ['"', '\'']) :=
      List.mem_append_right _ (List.mem_append_left _ hc)
    exact absurd hin (ne_of_isNameCharacter (hall c hmem)).2
  · exact absurd hlit hliteral
  · exact absurd hc (operators_spec hop c hmem).2.2
  · rw [hd, List.mem_singleton] at hmem
    rw [hd, hmem]

/-- A word with a name's character, outside of literals, is a name or a
number. -/
theorem Lexeme.isNameLike {w : String} {c : Char} (h : Lexeme w) (hliteral : ¬ IsLiteral w)
    (hc : isIdentifierPart c = true) (hmem : c ∈ w.toList) : IsNameLike w := by
  rcases h with hname | hlit | hop | ⟨d, hd, -, hpart⟩
  · exact hname
  · exact absurd hlit hliteral
  · rw [(operators_spec hop c hmem).2.1] at hc
    cases hc
  · rw [hd, List.mem_singleton] at hmem
    rw [hmem, hpart] at hc
    cases hc

/-! ## Texts of words -/

/-- The words behind, each after its blank. -/
def trailing (ws : List String) : List Char := ws.flatMap fun w => ' ' :: w.toList

/-- The words before a place, each with its blank. -/
def spaced (ws : List String) : List Char := ws.flatMap fun w => w.toList ++ [' ']

/-- The text of a body. -/
def bodyText (ws : List String) : List Char := (joinTexts ' ' ws).toList

variable {body ws rest after : List String} {w : String} {i : ℕ}

theorem bodyText_cons : bodyText (w :: ws) = w.toList ++ trailing ws := by
  induction ws generalizing w with
  | nil =>
    rw [bodyText, toList_joinTexts]
    simp [trailing]
  | cons w' ws ih =>
    have hrest : bodyText (w :: w' :: ws) = w.toList ++ ' ' :: bodyText (w' :: ws) := by
      rw [bodyText, toList_joinTexts, bodyText, toList_joinTexts, List.map_cons, List.map_cons,
        List.intercalate_cons_cons]
      simp
    rw [hrest, ih, trailing, trailing, List.flatMap_cons, List.cons_append]

theorem trailing_cons : trailing (w :: ws) = ' ' :: bodyText (w :: ws) := by
  rw [bodyText_cons, trailing, List.flatMap_cons, trailing, List.cons_append]

theorem bodyText_append (h : rest ≠ []) : bodyText (ws ++ rest) = spaced ws ++ bodyText rest := by
  induction ws with
  | nil => rfl
  | cons w ws ih =>
    have hne : ws ++ rest ≠ [] := fun hnil => h (List.append_eq_nil_iff.mp hnil).2
    obtain ⟨w', ws', hcons⟩ := List.exists_cons_of_ne_nil hne
    rw [List.cons_append, bodyText_cons, hcons, trailing_cons, ← hcons, ih, spaced, spaced,
      List.flatMap_cons]
    simp

theorem getLast?_spaced (ws : List String) :
    (spaced ws).getLast? = if ws = [] then none else some ' ' := by
  induction ws using List.reverseRecOn with
  | nil => rfl
  | append_singleton ws w _ =>
    rw [spaced, List.flatMap_append, List.flatMap_singleton, ← List.append_assoc,
      List.getLast?_concat, if_neg (by simp)]

/-- A body around one of its words. -/
theorem bodyText_split (h : body[i]? = some w) :
    bodyText body = spaced (body.take i) ++ (w.toList ++ trailing (body.drop (i + 1))) := by
  have hsplit : body = body.take i ++ w :: body.drop (i + 1) := by
    obtain ⟨hi, hget⟩ := List.getElem?_eq_some_iff.mp h
    rw [← hget, List.getElem_cons_drop, List.take_append_drop]
  have htext : bodyText body = bodyText (body.take i ++ w :: body.drop (i + 1)) :=
    congrArg bodyText hsplit
  rw [htext, bodyText_append (List.cons_ne_nil w _), bodyText_cons]

/-- **A character that is no blank stands in a word.** -/
theorem exists_word_of_bodyText {c : Char} {p q : List Char} (hc : c ≠ ' ')
    (h : bodyText body = p ++ c :: q) :
    ∃ i w a b, body[i]? = some w ∧ w.toList = a ++ c :: b ∧ p = spaced (body.take i) ++ a ∧
      q = b ++ trailing (body.drop (i + 1)) := by
  induction body generalizing p with
  | nil =>
    rw [bodyText, toList_joinTexts] at h
    simp at h
  | cons w rest ih =>
    rw [bodyText_cons] at h
    rcases List.append_eq_append_iff.mp h with ⟨p', hp, htrail⟩ | ⟨b, hw, hq⟩
    · cases rest with
      | nil => simp [trailing] at htrail
      | cons w' rest =>
        rw [trailing_cons] at htrail
        cases p' with
        | nil =>
          obtain ⟨hblank, -⟩ := List.cons.inj htrail
          exact absurd hblank.symm hc
        | cons e p' =>
          obtain ⟨rfl, htail⟩ := List.cons.inj htrail
          obtain ⟨i, w'', a, b, hget, hword, hbefore, hbehind⟩ := ih htail
          refine ⟨i + 1, w'', a, b, hget, hword, ?_, hbehind⟩
          rw [hp, hbefore, List.take_succ_cons, spaced, spaced, List.flatMap_cons]
          simp
    · cases b with
      | nil =>
        rw [List.nil_append] at hq
        cases rest with
        | nil => simp [trailing] at hq
        | cons w' rest =>
          rw [trailing_cons] at hq
          exact absurd (List.cons.inj hq).1 hc
      | cons e b =>
        obtain ⟨rfl, hbehind⟩ := List.cons.inj hq
        exact ⟨0, w, p, b, rfl, hw, rfl, hbehind⟩

theorem dropWhile_blank {c : Char} {text : List Char} (h : isBlank c = false) :
    (c :: text).dropWhile isBlank = c :: text := by
  rw [List.dropWhile_cons, h]
  rfl

/-- What has no blank begins a word or does not begin the text at all. -/
theorem prefix_append_trailing {n t : List Char} (hn : ' ' ∉ n) :
    n <+: t ++ trailing after ↔ n <+: t := by
  refine ⟨fun h => ?_, fun h => h.trans (List.prefix_append t _)⟩
  by_cases hle : n.length ≤ t.length
  · exact List.prefix_of_prefix_length_le h (List.prefix_append t _) hle
  · have ht : t <+: n := List.prefix_of_prefix_length_le (List.prefix_append t _) h (by omega)
    obtain ⟨m, rfl⟩ := ht
    obtain ⟨m', hm'⟩ := h
    rw [List.append_assoc] at hm'
    have htrail := List.append_cancel_left hm'
    cases m with
    | nil =>
      rw [List.append_nil] at hle
      exact absurd (Nat.le_refl _) hle
    | cons c m =>
      cases hafter : after with
      | nil =>
        rw [hafter] at htrail
        simp [trailing] at htrail
      | cons w ws =>
        rw [hafter, trailing_cons] at htrail
        obtain ⟨rfl, -⟩ := List.cons.inj htrail
        exact absurd (List.mem_append_right t List.mem_cons_self) hn

end HoodSentry
