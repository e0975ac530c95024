import HoodSentry.Risk.Model.Solidity
import HoodSentry.Risk.Brackets
import HoodSentry.Risk.Tokens
/-!
# Which state variables a function writes

A body assigns a variable by an operator, a step, `delete`, `push` or `pop`,
on the variable or on a path of indexes and members. The pattern of
`controlledStateVariables` reads the body's words joined by blanks: it covers
some of these shapes, on the variable itself or on one index of it, and it
takes other places for an assignment. So it is right about a body where a
covered shape stands, and where the shapes it misses and the places it
misreads come together or not at all.
-/

namespace HoodSentry

/-! ## Assignments -/

def assignmentOperators : List String :=
  ["=", "+=", "-=", "*=", "/=", "%=", "|=", "&=", "^=", "<<=", ">>="]

/-- The words an operator is read as: the tokenizer knows some of them only. -/
def operatorWords (operator : String) : List String := words (tokenize operator)

/-- **A path into a variable**: indexes and members. -/
inductive Path : List String → Prop
  | nil : Path []
  | index {content rest : List String} : Nested "[" "]" content → Path rest →
      Path ("[" :: content ++ "]" :: rest)
  | member {field : String} {rest : List String} : isIdentifier field = true → Path rest →
      Path ("." :: field :: rest)

/-- What follows a variable and a path into it makes an assignment. -/
def AssignedBy (after : List String) : Prop :=
  (∃ operator ∈ assignmentOperators, operatorWords operator <+: after) ∨
    (∃ step ∈ ["++", "--"], [step] <+: after) ∨
      ∃ change ∈ ["push", "pop"], [".", change, "("] <+: after

/-- What comes before does, for the whole path. -/
def AssignedFrom (before after : List String) : Prop :=
  (∃ operator ∈ ["++", "--", "delete"], [operator] <:+ before) ∧
    ∀ more ∈ ["[", ".", "("], ¬ [more] <+: after

/-- **The variable that stands at a place of a body is assigned there.** -/
def AssignedAt (body : List String) (i : ℕ) : Prop :=
  ∃ path after, body.drop (i + 1) = path ++ after ∧ Path path ∧
    (AssignedBy after ∨ AssignedFrom (body.take i) after)

/-- **A body assigns a variable**: at one of the places where its name stands
for it, which name resolution tells. -/
def Assigns (body : List String) (name : String) (refers : ℕ → Prop) : Prop :=
  ∃ i, refers i ∧ body[i]? = some name ∧ AssignedAt body i

/-! ## What the pattern reads -/

/-- A word that begins as an operator of the pattern does: the operators, and
`==` and `=>`. -/
def OperatorLike (w : String) : Prop := startsWithAssignment w.toList = true
deriving Decidable

/-- What the pattern takes behind a name: an operator, or the words up to a
closing bracket and an operator. -/
def AcceptedBehind (rest : List String) : Prop :=
  (∃ w after, rest = w :: after ∧ OperatorLike w) ∨
    ∃ content w after, rest = "[" :: content ++ "]" :: w :: after ∧
      (∀ word ∈ content, ']' ∉ word.toList) ∧ OperatorLike w

/-- A word that ends in the name, where a word can end and the name can
begin. -/
def EndsInName (w name : String) : Prop :=
  ∃ a, w.toList = a ++ name.toList ∧ isBoundary a.getLast? name.toList.head? = true ∧
    name.toList.getLast?.any isWordCharacter = true

/-- A literal that is read as code: the pattern begins in it, or the index
behind a name ends in it. -/
def ReadsLiteral (body : List String) (name : String) (i : ℕ) : Prop :=
  (∃ literal a b, body[i]? = some literal ∧ IsLiteral literal ∧ literal.toList = a ++ b ∧
    a ≠ [] ∧ b ≠ [] ∧
    assignmentAt name.toList a.getLast? (b ++ trailing (body.drop (i + 1))) = true) ∨
  ∃ w content literal after c d, body[i]? = some w ∧ EndsInName w name ∧
    body.drop (i + 1) = "[" :: content ++ literal :: after ∧ IsLiteral literal ∧
    (∀ word ∈ content, ']' ∉ word.toList) ∧ literal.toList = c ++ ']' :: d ∧ ']' ∉ c ∧
    startsWithAssignment ((d ++ trailing after).dropWhile isBlank) = true

/-- **A place where the pattern sees an assignment.** -/
def SeenAt (body : List String) (name : String) (i : ℕ) : Prop :=
  (∃ w, body[i]? = some w ∧ EndsInName w name ∧ AcceptedBehind (body.drop (i + 1))) ∨
    ReadsLiteral body name i

def coveredOperators : List String := ["=", "+=", "-=", "*=", "/=", "++", "--"]

/-- No index, or one without an index or a bracket of a literal in it. -/
def PlainIndex (path : List String) : Prop :=
  path = [] ∨ ∃ content, path = "[" :: content ++ ["]"] ∧
    ∀ w ∈ content, w ≠ "[" ∧ ']' ∉ w.toList

/-- A name the pattern can begin and end at: its first and its last character
are no dollar sign. -/
def DelimitedName (name : String) : Prop :=
  name.toList.head?.any isWordCharacter = true ∧ name.toList.getLast?.any isWordCharacter = true
deriving Decidable

/-- **An assignment in a covered shape**: the operators the pattern knows, on
the variable itself or on one plain index of it. -/
def CoveredAt (body : List String) (name : String) (refers : ℕ → Prop) (i : ℕ) : Prop :=
  refers i ∧ body[i]? = some name ∧ DelimitedName name ∧
    ∃ path operator after, body.drop (i + 1) = path ++ operator :: after ∧ PlainIndex path ∧
      operator ∈ coveredOperators

/-- **A misreading**: the pattern sees an assignment where no covered one
stands, as at a comparison, at a declaration, at another's member or in a
literal. -/
def Misreads (body : List String) (name : String) (refers : ℕ → Prop) : Prop :=
  ∃ i, SeenAt body name i ∧ ¬ CoveredAt body name refers i

variable {body ws rest after : List String} {name w : String} {refers : ℕ → Prop} {i : ℕ}

/-! ## The pattern -/

theorem testAssignment_iff {text : List Char} {n : List Char} {before : Option Char} :
    testAssignment n before text = true ↔
      ∃ p q, text = p ++ q ∧ assignmentAt n (p.getLast?.or before) q = true := by
  induction text generalizing before with
  | nil =>
    rw [testAssignment]
    constructor
    · intro h
      exact ⟨[], [], rfl, h⟩
    · rintro ⟨p, q, hpq, h⟩
      obtain ⟨rfl, rfl⟩ := List.append_eq_nil_iff.mp hpq.symm
      exact h
  | cons c text ih =>
    rw [testAssignment, Bool.or_eq_true, ih]
    constructor
    · rintro (h | ⟨p, q, rfl, h⟩)
      · exact ⟨[], c :: text, rfl, h⟩
      · refine ⟨c :: p, q, rfl, ?_⟩
        rw [List.getLast?_cons]
        cases hlast : p.getLast? with
        | none => rw [hlast] at h; exact h
        | some d => rw [hlast] at h; exact h
    · rintro ⟨p, q, hpq, h⟩
      cases p with
      | nil =>
        rw [List.nil_append] at hpq
        exact .inl (hpq ▸ h)
      | cons d p =>
        obtain ⟨rfl, rfl⟩ := List.cons.inj hpq
        refine .inr ⟨p, q, rfl, ?_⟩
        rw [List.getLast?_cons] at h
        cases hlast : p.getLast? with
        | none => rw [hlast] at h; exact h
        | some e => rw [hlast] at h; exact h

theorem startsWithAssignment_append {t : List Char} :
    startsWithAssignment (t ++ trailing after) = startsWithAssignment t := by
  have hblank : ∀ operator ∈ coveredOperators, ' ' ∉ operator.toList := by decide
  rw [Bool.eq_iff_iff, startsWithAssignment, startsWithAssignment, List.any_eq_true,
    List.any_eq_true]
  refine exists_congr fun operator => and_congr_right fun hop => ?_
  rw [List.isPrefixOf_iff_prefix, List.isPrefixOf_iff_prefix,
    prefix_append_trailing (hblank operator hop)]

/-- Behind blanks: the next word begins as an operator does. -/
theorem startsWithAssignment_trailing (h : ∀ w ∈ rest, Lexeme w) :
    startsWithAssignment ((trailing rest).dropWhile isBlank) = true ↔
      ∃ w after, rest = w :: after ∧ OperatorLike w := by
  cases rest with
  | nil =>
    refine ⟨fun hnil => absurd hnil (by decide), ?_⟩
    rintro ⟨w, after, hcons, -⟩
    cases hcons
  | cons w after =>
    obtain ⟨c, r, hw, hblank⟩ := (h w List.mem_cons_self).exists_head
    have hdrop : (trailing (w :: after)).dropWhile isBlank = w.toList ++ trailing after := by
      rw [trailing_cons, bodyText_cons, List.dropWhile_cons_of_pos (by decide), hw,
        List.cons_append, dropWhile_blank hblank]
    rw [hdrop, startsWithAssignment_append]
    constructor
    · intro hlike
      exact ⟨w, after, rfl, hlike⟩
    · rintro ⟨w', after', hcons, hlike⟩
      obtain ⟨rfl, -⟩ := List.cons.inj hcons
      exact hlike

theorem notMem_trailing {content : List String} (h : ∀ w ∈ content, ']' ∉ w.toList) :
    ']' ∉ trailing content := by
  intro hmem
  obtain ⟨w, hw, hin⟩ := List.mem_flatMap.mp hmem
  rcases List.mem_cons.mp hin with hblank | hword
  · cases hblank
  · exact h w hw hword

theorem trailing_append (ws after : List String) :
    trailing (ws ++ after) = trailing ws ++ trailing after := List.flatMap_append

/-- **An index ends at its first closing bracket**, wherever it stands. -/
theorem assignedHere_index {content : List String} {closing : String} {c d : List Char}
    (hcontent : ∀ w ∈ content, ']' ∉ w.toList) (hclosing : closing.toList = c ++ ']' :: d)
    (hc : ']' ∉ c) :
    assignedHere (trailing ("[" :: content ++ closing :: after)) = true ↔
      startsWithAssignment ((d ++ trailing after).dropWhile isBlank) = true := by
  have htext : trailing ("[" :: content ++ closing :: after) =
      ' ' :: '[' :: ((trailing content ++ ' ' :: c) ++ ']' :: (d ++ trailing after)) := by
    rw [List.cons_append, trailing_cons, bodyText_cons, trailing_append, trailing_cons,
      bodyText_cons, hclosing]
    simp
  have hfree : ∀ e ∈ trailing content ++ ' ' :: c, decide (e ≠ ']') = true := by
    intro e he
    rw [decide_eq_true_eq]
    rintro rfl
    rcases List.mem_append.mp he with hin | hin
    · exact notMem_trailing hcontent hin
    · rcases List.mem_cons.mp hin with hblank | hin
      · cases hblank
      · exact hc hin
  have hbracket : ∀ t, startsWithAssignment ('[' :: t) = false := fun t => by
    simp [startsWithAssignment, List.isPrefixOf]
  rw [htext, assignedHere, List.dropWhile_cons_of_pos (by decide), dropWhile_blank (by decide),
    hbracket, List.tail_cons, List.takeWhile_append_of_pos hfree,
    List.dropWhile_append_of_pos hfree, List.dropWhile_cons_of_neg (by simp), List.tail_cons]
  simp

/-- Words up to the first that holds a bracket. -/
theorem exists_closing (h : ']' ∈ trailing rest) :
    ∃ content closing after c d, rest = content ++ closing :: after ∧
      (∀ w ∈ content, ']' ∉ w.toList) ∧ closing.toList = c ++ ']' :: d ∧ ']' ∉ c := by
  induction rest with
  | nil => simp [trailing] at h
  | cons w rest ih =>
    by_cases hw : ']' ∈ w.toList
    · obtain ⟨c, d, hsplit, hc⟩ := List.eq_append_cons_of_mem hw
      exact ⟨[], w, rest, c, d, rfl, List.forall_mem_nil _, hsplit, hc⟩
    · have hrest : ']' ∈ trailing rest := by
        rw [trailing, List.flatMap_cons, List.mem_append, List.mem_cons] at h
        rcases h with (hblank | hin) | hin
        · cases hblank
        · exact absurd hin hw
        · exact hin
      obtain ⟨content, closing, after, c, d, rfl, hcontent, hsplit, hc⟩ := ih hrest
      exact ⟨w :: content, closing, after, c, d, rfl,
        List.forall_mem_cons.mpr ⟨hw, hcontent⟩, hsplit, hc⟩

/-- **What the pattern takes behind a name**: what `AcceptedBehind` says, or
an index that ends in a literal. -/
theorem assignedHere_trailing (h : ∀ w ∈ rest, Lexeme w) :
    assignedHere (trailing rest) = true ↔ AcceptedBehind rest ∨
      ∃ content literal after c d, rest = "[" :: content ++ literal :: after ∧
        IsLiteral literal ∧ (∀ word ∈ content, ']' ∉ word.toList) ∧
        literal.toList = c ++ ']' :: d ∧ ']' ∉ c ∧
        startsWithAssignment ((d ++ trailing after).dropWhile isBlank) = true := by
  constructor
  · intro hhere
    have hcases := hhere
    rw [assignedHere, Bool.or_eq_true, startsWithAssignment_trailing h] at hcases
    rcases hcases with hoperator | hindex
    · exact .inl (.inl hoperator)
    · simp only [Bool.and_eq_true, beq_iff_eq, List.contains_iff_mem] at hindex
      obtain ⟨⟨⟨hhead, -⟩, hclosed⟩, -⟩ := hindex
      cases rest with
      | nil => cases hhead
      | cons w rest =>
        obtain ⟨e, r, hw, hblank⟩ := (h w List.mem_cons_self).exists_head
        rw [trailing_cons, bodyText_cons, List.dropWhile_cons_of_pos (by decide), hw,
          List.cons_append, dropWhile_blank hblank] at hhead hclosed
        obtain rfl : e = '[' := Option.some.inj hhead
        have hliteral : ¬ IsLiteral w := by
          rintro ⟨t, ht | ht⟩
          · rw [hw] at ht; cases ht
          · rw [hw] at ht; cases ht
        have hopen : w.toList = ['['] := (h w List.mem_cons_self).eq_bracket hliteral (by decide)
          (hw ▸ List.mem_cons_self)
        obtain rfl : w = "[" := String.toList_inj.mp (hopen.trans (by decide))
        have hin : ']' ∈ trailing rest := by
          rw [hopen] at hw
          obtain ⟨-, rfl⟩ := List.cons.inj hw
          exact hclosed
        obtain ⟨content, closing, after, c, d, rfl, hcontent, hclosing, hc⟩ := exists_closing hin
        have hstarts := (assignedHere_index hcontent hclosing hc).mp hhere
        by_cases hlit : IsLiteral closing
        · exact .inr ⟨content, closing, after, c, d, rfl, hlit, hcontent, hclosing, hc, hstarts⟩
        · have hlex : Lexeme closing := h closing (by simp)
          have hmem : ']' ∈ closing.toList := by
            rw [hclosing]
            simp
          have hone := hlex.eq_bracket hlit (by decide) hmem
          have hcd : c = [] ∧ d = [] := by
            rw [hone] at hclosing
            cases c with
            | nil => exact ⟨rfl, (List.cons.inj hclosing).2.symm⟩
            | cons e c => simp at hclosing
          obtain ⟨rfl, rfl⟩ := hcd
          obtain rfl : closing = "]" := String.toList_inj.mp (hone.trans (by decide))
          rw [List.nil_append, startsWithAssignment_trailing fun w hw => h w (by simp [hw])] at hstarts
          obtain ⟨w, after', rfl, hlike⟩ := hstarts
          exact .inl (.inr ⟨content, w, after', rfl, hcontent, hlike⟩)
  · rintro ((hoperator | ⟨content, w, after, rfl, hcontent, hlike⟩) |
      ⟨content, literal, after, c, d, rfl, -, hcontent, hliteral, hc, hstarts⟩)
    · rw [assignedHere, Bool.or_eq_true, startsWithAssignment_trailing h]
      exact .inl hoperator
    · have hnil : ']' ∉ ([] : List Char) := List.not_mem_nil
      rw [assignedHere_index (d := []) hcontent (by decide) hnil, List.nil_append,
        startsWithAssignment_trailing fun w' hw' => h w' (by simp [List.mem_cons.mp hw'])]
      exact ⟨w, after, rfl, hlike⟩
    · exact (assignedHere_index hcontent hliteral hc).mpr hstarts

/-- A name does not go on with an assignment. -/
theorem assignedHere_nameCharacter {c : Char} {t : List Char} (h : isNameCharacter c = true) :
    assignedHere (c :: t) = false := by
  obtain ⟨hblank, hne⟩ := ne_of_isNameCharacter h
  simp only [List.mem_cons, List.not_mem_nil, or_false, not_or] at hne
  obtain ⟨heq, hplus, hminus, htimes, hdiv, hopen, -⟩ := hne
  have hstarts : startsWithAssignment (c :: t) = false := by
    simp [startsWithAssignment, List.isPrefixOf, Ne.symm heq, Ne.symm hplus, Ne.symm hminus,
      Ne.symm htimes, Ne.symm hdiv]
  have hhead : ((c :: t).head? == some '[') = false := by
    rw [List.head?_cons, beq_eq_false_iff_ne]
    exact fun hsome => hopen (Option.some.inj hsome)
  rw [assignedHere, dropWhile_blank hblank, hstarts, hhead]
  simp only [Bool.false_or, Bool.false_and]

/-- The characters before a name within a word decide whether it can begin. -/
theorem isBoundary_spaced {a : List Char} {c : Option Char} :
    isBoundary (spaced ws ++ a).getLast? c = isBoundary a.getLast? c := by
  cases a with
  | nil =>
    rw [List.append_nil, getLast?_spaced, isBoundary, isBoundary]
    split
    · rfl
    · rfl
  | cons e a => rw [List.getLast?_append_of_ne_nil _ (List.cons_ne_nil e a)]

/-- Behind a word its end is a boundary where it ends in a word's
character. -/
theorem isBoundary_trailing {c : Option Char} :
    isBoundary c (trailing rest).head? = c.any isWordCharacter := by
  have hnone : (trailing rest).head?.any isWordCharacter = false := by
    cases rest with
    | nil => rfl
    | cons w rest =>
      rw [trailing_cons]
      rfl
  rw [isBoundary, hnone, Bool.bne_false]

/-- The pattern within a word, up to its end. -/
theorem assignmentAt_word {n a : List Char} (hn : n ≠ []) :
    assignmentAt n (spaced ws ++ a).getLast? (n ++ trailing rest) =
      (isBoundary a.getLast? n.head? && n.getLast?.any isWordCharacter &&
        assignedHere (trailing rest)) := by
  obtain ⟨c, n', rfl⟩ := List.exists_cons_of_ne_nil hn
  have hlast : ((c :: n').getLast?.or (spaced ws ++ a).getLast?) = (c :: n').getLast? := by
    rw [List.getLast?_cons]
    rfl
  rw [assignmentAt, List.drop_left, isBoundary_spaced, hlast, isBoundary_trailing,
    List.isPrefixOf_iff_prefix.mpr (List.prefix_append _ _), Bool.true_and, List.cons_append,
    List.head?_cons, List.head?_cons]

/-- **What the pattern sees is seen at a word.** -/
theorem testAssignment_iff_seen (hname : isIdentifier name = true)
    (hparsed : ∀ w ∈ body, Lexeme w) :
    testAssignment name.toList none (bodyText body) = true ↔ ∃ i, SeenAt body name i := by
  have hdrop : ∀ i, ∀ w ∈ body.drop i, Lexeme w := fun i w hw => hparsed w (List.mem_of_mem_drop hw)
  obtain ⟨⟨c, n, hn⟩, hpart⟩ := exists_of_isIdentifier hname
  have hc := hpart c (hn ▸ List.mem_cons_self)
  have hspec := ne_of_isNameCharacter (isNameCharacter_of_part hc)
  have hblank : ' ' ∉ name.toList := fun hmem => absurd (hpart ' ' hmem) (by decide)
  rw [testAssignment_iff]
  constructor
  · rintro ⟨p, q, htext, hmatch⟩
    rw [Option.or_none] at hmatch
    have hpre : name.toList <+: q := by
      rw [assignmentAt] at hmatch
      simp only [Bool.and_eq_true, List.isPrefixOf_iff_prefix] at hmatch
      exact hmatch.1.1.1
    obtain ⟨q', hq⟩ : ∃ q', q = c :: q' := by
      obtain ⟨t, rfl⟩ := hpre
      exact ⟨n ++ t, by rw [hn, List.cons_append]⟩
    obtain ⟨i, w, a, b, hget, hw, hp, hbehind⟩ := exists_word_of_bodyText
      (fun h => by rw [h] at hspec; exact absurd hspec.1 (by decide)) (hq ▸ htext)
    have hlex := hparsed w (List.mem_of_getElem? hget)
    by_cases hlit : IsLiteral w
    · have ha : a ≠ [] := by
        rintro rfl
        obtain ⟨r, hr | hr⟩ := hlit
        · obtain ⟨rfl, -⟩ := List.cons.inj (hw.symm.trans hr)
          exact hspec.2 (by decide)
        · obtain ⟨rfl, -⟩ := List.cons.inj (hw.symm.trans hr)
          exact hspec.2 (by decide)
      refine ⟨i, .inr (.inl ⟨w, a, c :: b, hget, hlit, hw, ha, List.cons_ne_nil c b, ?_⟩)⟩
      rw [hp, List.getLast?_append_of_ne_nil _ ha, hq, hbehind] at hmatch
      exact hmatch
    · have hall := (hlex.isNameLike hlit hc (hw ▸ by simp)).2
      rw [hq, hbehind, ← List.cons_append, prefix_append_trailing hblank] at hpre
      obtain ⟨b', hb'⟩ := hpre
      rw [hq, hbehind, ← List.cons_append, ← hb', List.append_assoc] at hmatch
      cases b' with
      | cons e b' =>
        have he : isNameCharacter e = true := hall e (by rw [hw, ← hb']; simp)
        rw [assignmentAt, List.drop_left, List.cons_append, assignedHere_nameCharacter he,
          Bool.and_false] at hmatch
        cases hmatch
      | nil =>
        rw [List.append_nil] at hb'
        rw [List.nil_append, hp, assignmentAt_word (by rw [hn]; exact List.cons_ne_nil c n),
          Bool.and_eq_true, Bool.and_eq_true, assignedHere_trailing (hdrop _)] at hmatch
        obtain ⟨⟨hbegin, hend⟩, hbehind'⟩ := hmatch
        have hends : EndsInName w name := ⟨a, by rw [hw, hb'], hbegin, hend⟩
        rcases hbehind' with haccepted | ⟨content, literal, after, c', d, hrest, hl, hrest'⟩
        · exact ⟨i, .inl ⟨w, hget, hends, haccepted⟩⟩
        · exact ⟨i, .inr (.inr ⟨w, content, literal, after, c', d, hget, hends, hrest, hl, hrest'⟩)⟩
  · rintro ⟨i, ⟨w, hget, ⟨a, hw, hbegin, hend⟩, haccepted⟩ |
      ⟨literal, a, b, hget, -, hw, ha, -, hmatch⟩ |
      ⟨w, content, literal, after, c', d, hget, ⟨a, hw, hbegin, hend⟩, hrest⟩⟩
    · refine ⟨spaced (body.take i) ++ a, name.toList ++ trailing (body.drop (i + 1)), ?_, ?_⟩
      · rw [bodyText_split hget, hw]
        simp only [List.append_assoc]
      · rw [Option.or_none, assignmentAt_word (by rw [hn]; exact List.cons_ne_nil c n), hbegin,
          hend, Bool.true_and, Bool.true_and, assignedHere_trailing (hdrop _)]
        exact .inl haccepted
    · refine ⟨spaced (body.take i) ++ a, b ++ trailing (body.drop (i + 1)), ?_, ?_⟩
      · rw [bodyText_split hget, hw]
        simp only [List.append_assoc]
      · rw [Option.or_none, List.getLast?_append_of_ne_nil _ ha]
        exact hmatch
    · refine ⟨spaced (body.take i) ++ a, name.toList ++ trailing (body.drop (i + 1)), ?_, ?_⟩
      · rw [bodyText_split hget, hw]
        simp only [List.append_assoc]
      · rw [Option.or_none, assignmentAt_word (by rw [hn]; exact List.cons_ne_nil c n), hbegin,
          hend, Bool.true_and, Bool.true_and, assignedHere_trailing (hdrop _)]
        exact .inr ⟨content, literal, after, c', d, hrest⟩

/-! ## Recognition -/

/-- A covered assignment is one. -/
theorem CoveredAt.assigns (h : CoveredAt body name refers i) : Assigns body name refers := by
  obtain ⟨hrefers, hname, -, path, operator, after, hdrop, hpath, hoperator⟩ := h
  have hassigned : AssignedBy (operator :: after) := by
    have hkinds : ∀ operator ∈ coveredOperators, operator ∈ ["++", "--"] ∨
        operator ∈ ["=", "+=", "-=", "*=", "/="] := by decide
    have hread : ∀ operator ∈ ["=", "+=", "-=", "*=", "/="],
        operator ∈ assignmentOperators ∧ operatorWords operator = [operator] := by
      decide +kernel
    rcases hkinds operator hoperator with hstep | hassign
    · exact .inr (.inl ⟨operator, hstep, after, rfl⟩)
    · obtain ⟨hmem, hwords⟩ := hread operator hassign
      exact .inl ⟨operator, hmem, by rw [hwords]; exact ⟨after, rfl⟩⟩
  refine ⟨i, hrefers, hname, path, operator :: after, hdrop, ?_, .inl hassigned⟩
  rcases hpath with rfl | ⟨content, rfl, hcontent⟩
  · exact .nil
  · refine Path.index (nested_of_free fun w hw => ⟨(hcontent w hw).1, ?_⟩) .nil
    rintro rfl
    exact (hcontent "]" hw).2 (by decide)

/-- And the pattern sees it. -/
theorem CoveredAt.seen (h : CoveredAt body name refers i) : SeenAt body name i := by
  obtain ⟨-, hname, ⟨hfirst, hlast⟩, path, operator, after, hdrop, hpath, hoperator⟩ := h
  have hends : EndsInName name name := by
    refine ⟨[], rfl, ?_, hlast⟩
    rw [List.getLast?_nil, isBoundary, hfirst]
    rfl
  have hlike : OperatorLike operator := by
    have hall : ∀ operator ∈ coveredOperators, OperatorLike operator := by decide
    exact hall operator hoperator
  refine .inl ⟨name, hname, hends, ?_⟩
  rw [hdrop]
  rcases hpath with rfl | ⟨content, rfl, hcontent⟩
  · exact .inl ⟨operator, after, rfl, hlike⟩
  · refine .inr ⟨content, operator, after, ?_, fun w hw => (hcontent w hw).2, hlike⟩
    rw [List.append_assoc, List.singleton_append]

/-- **What the analysis takes for written**: covered assignments and
misreadings. -/
theorem mem_controlledStateVariables {fn : SolidityFunction} {tokens : List Token}
    {source : String} {stateVariables : List SolidityStateVariable} {v : SolidityStateVariable}
    (hv : v ∈ stateVariables) (hname : isIdentifier v.name = true)
    (hparsed : tokens <:+: tokenize source) (hbody : fn.body = joinTokens tokens) :
    v ∈ controlledStateVariables fn stateVariables ↔
      (∃ i, CoveredAt (words tokens) v.name refers i) ∨ Misreads (words tokens) v.name refers := by
  have hlexemes : ∀ w ∈ words tokens, Lexeme w := by
    intro w hw
    obtain ⟨token, htoken, rfl⟩ := List.mem_map.mp hw
    exact lexeme_of_mem_tokenize (hparsed.subset htoken)
  have htext : fn.body.toList = bodyText (words tokens) := by
    rw [hbody, joinTokens, bodyText]
  rw [controlledStateVariables, List.mem_filter, htext, testAssignment_iff_seen hname hlexemes]
  constructor
  · rintro ⟨-, i, hseen⟩
    by_cases hcovered : CoveredAt (words tokens) v.name refers i
    · exact .inl ⟨i, hcovered⟩
    · exact .inr ⟨i, hseen, hcovered⟩
  · rintro (⟨i, hcovered⟩ | ⟨i, hseen, -⟩)
    · exact ⟨hv, i, hcovered.seen⟩
    · exact ⟨hv, i, hseen⟩

/-- **Written variables are recognised** in a body exactly when it holds an
assignment in a covered shape, or an assignment in another shape and a
misreading, or none of these. -/
theorem recognised_iff {fn : SolidityFunction} {tokens : List Token} {source : String}
    {stateVariables : List SolidityStateVariable} {v : SolidityStateVariable} (refers : ℕ → Prop)
    (hv : v ∈ stateVariables) (hname : isIdentifier v.name = true)
    (hparsed : tokens <:+: tokenize source) (hbody : fn.body = joinTokens tokens) :
    (v ∈ controlledStateVariables fn stateVariables ↔ Assigns (words tokens) v.name refers) ↔
      ((∃ i, CoveredAt (words tokens) v.name refers i) ∨
        (Assigns (words tokens) v.name refers ↔ Misreads (words tokens) v.name refers)) := by
  rw [mem_controlledStateVariables hv hname hparsed hbody]
  constructor
  · intro hiff
    by_cases hcovered : ∃ i, CoveredAt (words tokens) v.name refers i
    · exact .inl hcovered
    · refine .inr ⟨fun hassigns => ?_, fun hmisreads => hiff.mp (.inr hmisreads)⟩
      exact (hiff.mpr hassigns).resolve_left hcovered
  · rintro (hcovered | hiff)
    · obtain ⟨i, hi⟩ := hcovered
      exact ⟨fun _ => hi.assigns, fun _ => .inl ⟨i, hi⟩⟩
    · refine ⟨?_, fun hassigns => .inr (hiff.mp hassigns)⟩
      rintro (⟨i, hi⟩ | hmisreads)
      · exact hi.assigns
      · exact hiff.mpr hmisreads

/-- A state variable of type `uint256`. -/
def plainVariable (name : String) : SolidityStateVariable where
  contractName := "Token"
  name := name
  type := "uint256"
  visibility := none
  constant := false
  immutable := false
  declaration := "uint256 " ++ name
  sourcePath := "token.sol"
  line := 1

/-- A function of a body. -/
def plainFunction (body : List Token) : SolidityFunction where
  contractName := "Token"
  name := "set"
  signature := "set()"
  selector := none
  visibility := some .external
  stateMutability := .nonpayable
  modifiers := []
  parameterNames := []
  body := joinTokens body
  declaration := "function set ( ) external"
  sourcePath := "token.sol"
  line := 2
  kind := .function

/-- An assignment in a covered shape is recognised. -/
theorem recognised_plain :
    plainVariable "cap" ∈ controlledStateVariables (plainFunction (tokenize "cap[to] = 1;"))
        [plainVariable "cap"] ↔
      Assigns (words (tokenize "cap[to] = 1;")) "cap" (· = 0) :=
  (recognised_iff (v := plainVariable "cap") (· = 0) (List.mem_singleton_self _) (by decide)
    (List.infix_refl _) rfl).mpr
      (.inl ⟨0, rfl, by decide +kernel, by decide, ["[", "to", "]"], "=", ["1", ";"],
        by decide +kernel, .inr ⟨["to"], rfl, by decide⟩, by decide⟩)

/-- `total %= 2` assigns, and the pattern does not see it. -/
theorem not_recognised :
    ¬(plainVariable "total" ∈ controlledStateVariables (plainFunction (tokenize "total %= 2;"))
        [plainVariable "total"] ↔
      Assigns (words (tokenize "total %= 2;")) "total" (· = 0)) := by
  intro hiff
  have hassigns : Assigns (words (tokenize "total %= 2;")) "total" (· = 0) :=
    ⟨0, rfl, by decide +kernel, [], ["%", "=", "2", ";"], by decide +kernel, .nil,
      .inl (.inl ⟨"%=", by decide, by decide +kernel⟩)⟩
  have hmissed : plainVariable "total" ∉ controlledStateVariables
      (plainFunction (tokenize "total %= 2;")) [plainVariable "total"] := by
    decide +kernel
  exact hmissed (hiff.mpr hassigns)

end HoodSentry
