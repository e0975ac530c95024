import HoodSentry.Observability.Model.Redact
import Mathlib.Data.List.Find
import Mathlib.Data.List.Basic
/-!
# Redacted texts

A text that was redacted is left alone by a second pass: the parameters of a
url are found again at the same places, because the text up to the first `=`
is what it was.
-/

namespace HoodSentry

namespace Redact

/-! ## Up to the first `=` -/

section Equals

variable {word text front back : List Char} {previous : Option Char} {c : Char}

/-- What stands before the first `=`, and whether a value begins behind it. -/
def beforeEquals : List Char → Option (List Char × Bool)
  | [] => none
  | c :: text =>
    if c = '=' then some ([], text.head?.any isValueChar)
    else (beforeEquals text).map fun split => (c :: split.1, split.2)

theorem beforeEquals_append (h : '=' ∉ front) : beforeEquals (front ++ '=' :: back) =
    some (front, back.head?.any isValueChar) := by
  induction front with
  | nil => rfl
  | cons c front ih =>
    rw [List.mem_cons, not_or] at h
    rw [List.cons_append, beforeEquals, if_neg (Ne.symm h.1), ih h.2]
    rfl

theorem beforeEquals_eq_none : beforeEquals text = none ↔ '=' ∉ text := by
  induction text with
  | nil => simp [beforeEquals]
  | cons c text ih =>
    rw [beforeEquals]
    by_cases hc : c = '='
    · simp [hc]
    · rw [if_neg hc, Option.map_eq_none_iff, ih, List.mem_cons, not_or]
      exact ⟨fun h => ⟨Ne.symm hc, h⟩, fun h => h.2⟩

/-- A text with a `=` is cut at its first one. -/
theorem exists_of_beforeEquals {split : List Char × Bool} (h : beforeEquals text = some split) :
    ∃ back, text = split.1 ++ '=' :: back ∧ '=' ∉ split.1 ∧
      split.2 = back.head?.any isValueChar := by
  induction text generalizing split with
  | nil => cases h
  | cons c text ih =>
    rw [beforeEquals] at h
    split at h
    · rename_i hc
      rw [← Option.some.inj h, hc]
      exact ⟨text, rfl, List.not_mem_nil, rfl⟩
    · rename_i hc
      obtain ⟨inner, hinner, rfl⟩ := Option.map_eq_some_iff.mp h
      obtain ⟨back, htext, hnot, hvalue⟩ := ih hinner
      refine ⟨back, by rw [htext]; rfl, ?_, hvalue⟩
      rw [List.mem_cons, not_or]
      exact ⟨Ne.symm hc, hnot⟩

theorem toLower_eq_equals : c.toLower = '=' ↔ c = '=' := toLower_eq_iff (by decide)

/-- **A word and `=`** are read off the text before it. -/
theorem startsWithWord_equals (h : '=' ∉ word) : startsWithWord (word ++ ['=']) text =
    (beforeEquals text).any fun split => split.1.map Char.toLower = word := by
  induction word generalizing text with
  | nil =>
    cases text with
    | nil => rfl
    | cons c text =>
      unfold beforeEquals
      by_cases hc : c = '='
      · simp [startsWithWord, hc]
      · have hlower : c.toLower ≠ '=' := fun heq => hc (toLower_eq_equals.mp heq)
        rw [if_neg hc]
        cases beforeEquals text <;> simp [startsWithWord, hlower]
  | cons w word ih =>
    rw [List.mem_cons, not_or] at h
    cases text with
    | nil => rfl
    | cons c text =>
      have hrest := @ih text h.2
      unfold beforeEquals
      rw [List.cons_append, startsWithWord, hrest]
      by_cases hc : c = '='
      · have hlower : c.toLower ≠ w := by
          rw [hc]
          exact h.1
        rw [if_pos hc, decide_eq_false hlower]
        rfl
      · rw [if_neg hc]
        cases beforeEquals text with
        | none => simp
        | some split => simp [List.cons.injEq]

/-- A parameter is read off the text before the first `=` and the character behind it. -/
theorem startsParameter_eq (h : '=' ∉ word) : startsParameter word text =
    (beforeEquals text).any fun split => split.1.map Char.toLower = word && split.2 := by
  rw [startsParameter, startsWithWord_equals h]
  cases hsplit : beforeEquals text with
  | none => rfl
  | some split =>
    obtain ⟨back, htext, -, hvalue⟩ := exists_of_beforeEquals hsplit
    simp only [Option.any_some]
    by_cases hword : split.1.map Char.toLower = word
    · have hlength : split.1.length = word.length := by rw [← hword, List.length_map]
      have hnext : text[word.length + 1]? = back.head? := by
        rw [htext, List.getElem?_append_right (by omega), hlength,
          show word.length + 1 - word.length = 1 by omega, List.head?_eq_getElem?]
        rfl
      rw [hnext, hvalue]
    · simp [hword]

end Equals

/-! ## Parameters -/

section Parameters

variable {text rest front back : List Char} {previous : Option Char} {c : Char} {word : String}

theorem not_mem_of_parameterWord (h : word ∈ PARAMETER_WORDS) : '=' ∉ word.toList := by
  revert word
  decide

/-- Whether a parameter begins depends on the text up to the first `=` only. -/
theorem parameterAt_congr (h : beforeEquals text = beforeEquals back) :
    parameterAt previous text = parameterAt previous back := by
  unfold parameterAt
  split
  · rfl
  · refine List.find?_congr fun word hword => ?_
    have hnot := not_mem_of_parameterWord hword
    rw [startsParameter_eq hnot, startsParameter_eq hnot, h]

theorem exists_of_parameterAt (h : parameterAt previous text = some word) :
    word ∈ PARAMETER_WORDS ∧ ∃ front back, text = front ++ '=' :: back ∧ '=' ∉ front ∧
      front.map Char.toLower = word.toList ∧ back.head?.any isValueChar := by
  unfold parameterAt at h
  split at h
  · cases h
  · have hword := List.mem_of_find?_eq_some h
    have hstarts := List.find?_some h
    rw [startsParameter_eq (not_mem_of_parameterWord hword)] at hstarts
    obtain ⟨split, hsplit, hfound⟩ := (Option.any_eq_true _ _).mp hstarts
    obtain ⟨back, htext, hnot, hvalue⟩ := exists_of_beforeEquals hsplit
    rw [Bool.and_eq_true, decide_eq_true_iff] at hfound
    exact ⟨hword, split.1, back, htext, hnot, hfound.1, hvalue ▸ hfound.2⟩

/-- A parameter begins with a character that a value may have. -/
theorem isValueChar_of_parameterAt (h : parameterAt previous (c :: rest) = some word) :
    isValueChar c := by
  obtain ⟨hword, front, back, htext, -, hlower, -⟩ := exists_of_parameterAt h
  have hmem : c.toLower ∈ ['k', 't', 'a'] := by
    have hfirst : some c.toLower = (front.map Char.toLower ++ ['=']).head? := by
      cases front with
      | nil =>
        rw [(List.cons.inj htext).1]
        rfl
      | cons d front =>
        rw [(List.cons.inj htext).1]
        rfl
    rw [hlower] at hfirst
    have hwords : ∀ word ∈ PARAMETER_WORDS, ∀ d, some d = (word.toList ++ ['=']).head? →
        d ∈ ['k', 't', 'a'] := by
      simp [PARAMETER_WORDS]
    exact hwords word hword _ hfirst
  by_cases hupper : c.val ≥ 'A'.val ∧ c.val ≤ 'Z'.val
  · have h1 : 65 ≤ c.toNat := UInt32.le_iff_toNat_le.mp hupper.1
    have h2 : c.toNat ≤ 90 := UInt32.le_iff_toNat_le.mp hupper.2
    have hamp : c ≠ '&' := by
      rintro rfl
      exact absurd h1 (by decide)
    have hblank : isBlank c = false := by
      simp [isBlank]
      omega
    rw [isValueChar, hblank, decide_eq_true hamp]
    rfl
  · rw [toLower_of_not_upper hupper] at hmem
    simp only [List.mem_cons, List.not_mem_nil, or_false] at hmem
    rcases hmem with rfl | rfl | rfl <;> decide

/-- What stands behind a parameter's `=`. -/
theorem drop_parameter (h : front.map Char.toLower = word.toList) :
    (front ++ '=' :: back).drop (word.toList.length + 1) = back := by
  rw [← h, List.length_map, ← List.drop_drop, List.drop_left]
  rfl

theorem replaceParameters_of_none (h : parameterAt previous (c :: rest) = none) :
    replaceParameters previous (c :: rest) = c :: replaceParameters (some c) rest := by
  rw [replaceParameters, h]

/-- **A parameter** keeps its word, and its value is replaced. -/
theorem replaceParameters_of_some (h : parameterAt previous (front ++ '=' :: back) = some word)
    (hnot : '=' ∉ front) : replaceParameters previous (front ++ '=' :: back) =
      front ++ '=' :: (REDACTED.toList ++
        replaceParameters (back.takeWhile isValueChar).getLast? (back.dropWhile isValueChar)) := by
  obtain ⟨hword, before, after, htext, hbefore, hlower, -⟩ := exists_of_parameterAt h
  have hsplit := congrArg beforeEquals htext
  rw [beforeEquals_append hnot, beforeEquals_append hbefore] at hsplit
  obtain rfl : front = before := congrArg Prod.fst (Option.some.inj hsplit)
  obtain rfl : back = after := (List.cons.inj (List.append_cancel_left htext)).2
  have hlength : word.toList.length = front.length := by rw [← hlower, List.length_map]
  have hassoc : front ++ '=' :: back = (front ++ ['=']) ++ back := by simp
  have hfront : word.toList.length + 1 = (front ++ ['=']).length := by simp [hlength]
  cases hcons : front ++ '=' :: back with
  | nil => simp at hcons
  | cons c rest =>
    rw [hcons] at h
    rw [replaceParameters, h]
    simp only
    rw [← hcons, hassoc, hfront, List.take_left, List.drop_left]
    simp

end Parameters

/-! ## A second pass -/

section SecondPass

variable {text rest : List Char} {previous other : Option Char} {word : List Char}

theorem head?_replaceParameters : (replaceParameters previous text).head? = text.head? := by
  cases text with
  | nil => rw [replaceParameters]
  | cons c rest =>
    cases h : parameterAt previous (c :: rest) with
    | none =>
      rw [replaceParameters_of_none h]
      rfl
    | some word =>
      obtain ⟨-, front, back, htext, hnot, -, -⟩ := exists_of_parameterAt h
      rw [htext] at h ⊢
      rw [replaceParameters_of_some h hnot]
      cases front with
      | nil => rfl
      | cons d front => rfl

/-- **What stands before the first `=`** is never replaced, nor is a value put in or taken out. -/
theorem beforeEquals_replaceParameters :
    beforeEquals (replaceParameters previous text) = beforeEquals text := by
  induction text generalizing previous with
  | nil => rw [replaceParameters]
  | cons c rest ih =>
    cases h : parameterAt previous (c :: rest) with
    | none =>
      rw [replaceParameters_of_none h, beforeEquals, beforeEquals, ih, head?_replaceParameters]
    | some word =>
      obtain ⟨-, front, back, htext, hnot, -, hvalue⟩ := exists_of_parameterAt h
      rw [htext] at h ⊢
      rw [replaceParameters_of_some h hnot, beforeEquals_append hnot, beforeEquals_append hnot,
        hvalue]
      rfl

/-- Where no value goes on, the character before does not matter. -/
theorem replaceParameters_congr (h : text.head?.any isValueChar = false) :
    replaceParameters previous text = replaceParameters other text := by
  cases text with
  | nil => rw [replaceParameters, replaceParameters]
  | cons c rest =>
    have hnone : ∀ before, parameterAt before (c :: rest) = none := by
      intro before
      cases hat : parameterAt before (c :: rest) with
      | none => rfl
      | some word => exact absurd (isValueChar_of_parameterAt hat) (by simpa using h)
    rw [replaceParameters_of_none (hnone _), replaceParameters_of_none (hnone _)]

theorem takeWhile_redacted (h : rest.head?.any isValueChar = false) :
    (REDACTED.toList ++ rest).takeWhile isValueChar = REDACTED.toList ∧
      (REDACTED.toList ++ rest).dropWhile isValueChar = rest := by
  have hvalue : ∀ c ∈ REDACTED.toList, isValueChar c := List.all_eq_true.mp rfl
  rw [List.takeWhile_append_of_pos hvalue, List.dropWhile_append_of_pos hvalue]
  cases rest with
  | nil => simp
  | cons c rest =>
    have hc : isValueChar c = false := by simpa using h
    simp [hc]

/-- **A second pass** replaces nothing that differs. -/
theorem replaceParameters_replaceParameters : replaceParameters previous
    (replaceParameters previous text) = replaceParameters previous text := by
  induction previous, text using replaceParameters.induct with
  | case1 previous => rw [replaceParameters, replaceParameters]
  | case2 previous c rest h ih =>
    have hagain : parameterAt previous (c :: replaceParameters (some c) rest) = none := by
      rw [← h]
      refine parameterAt_congr ?_
      rw [← replaceParameters_of_none h, beforeEquals_replaceParameters]
    rw [replaceParameters_of_none h, replaceParameters_of_none hagain, ih]
  | case3 previous c rest word h value ih =>
    obtain ⟨-, front, back, htext, hnot, hlower, hvalue⟩ := exists_of_parameterAt h
    have hback : value = back := by
      rw [show value = (c :: rest).drop (word.toList.length + 1) from rfl, htext,
        drop_parameter hlower]
    rw [hback] at ih
    clear_value value
    rw [htext] at h ⊢
    have hagain := (@parameterAt_congr _ _ previous
      (@beforeEquals_replaceParameters (front ++ '=' :: back) previous)).trans h
    rw [replaceParameters_of_some h hnot] at hagain ⊢
    -- behind the marker stands no more of a value
    have hstop : (replaceParameters (back.takeWhile isValueChar).getLast?
        (back.dropWhile isValueChar)).head?.any isValueChar = false := by
      rw [head?_replaceParameters]
      have hnext := List.head?_dropWhile_not isValueChar back
      cases hhead : (back.dropWhile isValueChar).head? with
      | none => rfl
      | some d =>
        rw [hhead] at hnext
        exact hnext
    obtain ⟨htake, hdrop⟩ := takeWhile_redacted hstop
    rw [replaceParameters_of_some hagain hnot, htake, hdrop,
      @replaceParameters_congr _ _ (back.takeWhile isValueChar).getLast? hstop, ih]

end SecondPass

/-! ## Texts -/

section Texts

variable {text front back : List Char} {previous : Option Char} {word : List Char}
  {key value : String}

theorem mem_of_startsWithWord (h : startsWithWord (word ++ ['=']) text) : '=' ∈ text := by
  induction word generalizing text with
  | nil =>
    cases text with
    | nil => cases h
    | cons c text =>
      simp only [List.nil_append, startsWithWord, Bool.and_true, decide_eq_true_eq] at h
      rw [toLower_eq_equals.mp h]
      exact List.mem_cons_self
  | cons w word ih =>
    cases text with
    | nil => cases h
    | cons c text =>
      simp only [List.cons_append, startsWithWord, Bool.and_eq_true] at h
      exact List.mem_cons_of_mem c (ih h.2)

theorem mem_of_hasWord (h : hasWord (word ++ ['=']) text) : '=' ∈ text := by
  induction text with
  | nil => exact mem_of_startsWithWord h
  | cons c text ih =>
    rw [hasWord, Bool.or_eq_true] at h
    exact h.elim mem_of_startsWithWord fun h => List.mem_cons_of_mem c (ih h)

theorem mem_of_reachesParameter (h : reachesParameter previous text) : '=' ∈ text := by
  induction text generalizing previous with
  | nil => cases h
  | cons c text ih =>
    rw [reachesParameter, Bool.or_eq_true, Bool.and_eq_true] at h
    rcases h with h | h
    · obtain ⟨word, hword⟩ := Option.isSome_iff_exists.mp h
      obtain ⟨-, front, back, htext, -⟩ := exists_of_parameterAt hword
      rw [htext]
      exact List.mem_append_right front List.mem_cons_self
    · exact List.mem_cons_of_mem c (ih h.2)

theorem mem_of_hasKeyedUrl (h : hasKeyedUrl text) : '=' ∈ text := by
  induction text with
  | nil => cases h
  | cons c text ih =>
    rw [hasKeyedUrl, Bool.or_eq_true, List.any_eq_true] at h
    rcases h with ⟨scheme, -, h⟩ | h
    · rw [Bool.and_eq_true] at h
      exact List.mem_of_mem_drop (mem_of_reachesParameter h.2)
    · exact List.mem_cons_of_mem c (ih h)

/-- A session cookie's word, up to its `=`. -/
theorem exists_of_sessionCookie (h : SESSION_COOKIE_PATTERN value) :
    ∃ word ∈ ["connect.sid", "session_id", "sessionid"],
      hasWord (word.toList ++ ['=']) value.toList := by
  obtain ⟨word, hword, hhas⟩ := List.any_eq_true.mp h
  simp only [SESSION_COOKIE_WORDS, List.mem_cons, List.not_mem_nil, or_false] at hword
  rcases hword with rfl | rfl | rfl
  · exact ⟨"connect.sid", by simp, hhas⟩
  · exact ⟨"session_id", by simp, hhas⟩
  · exact ⟨"sessionid", by simp, hhas⟩

theorem sessionCookie_of_hasWord {word : String}
    (hword : word ∈ ["connect.sid", "session_id", "sessionid"])
    (h : hasWord (word.toList ++ ['=']) value.toList) : SESSION_COOKIE_PATTERN value := by
  refine List.any_eq_true.mpr ?_
  simp only [List.mem_cons, List.not_mem_nil, or_false] at hword
  rcases hword with rfl | rfl | rfl
  · exact ⟨"connect.sid=", by simp [SESSION_COOKIE_WORDS], h⟩
  · exact ⟨"session_id=", by simp [SESSION_COOKIE_WORDS], h⟩
  · exact ⟨"sessionid=", by simp [SESSION_COOKIE_WORDS], h⟩

/-- A text with no `=` that is not of hex digits is no text that is redacted. -/
theorem redactStringValue_of_plain (hequals : '=' ∉ value.toList)
    (hhex : ∀ n, isHexText n value = false) : redactStringValue key value = value := by
  have hsession : SESSION_COOKIE_PATTERN value = false := by
    refine Bool.eq_false_iff.mpr fun h => ?_
    obtain ⟨word, -, hhas⟩ := exists_of_sessionCookie h
    exact hequals (mem_of_hasWord hhas)
  have hurl : PROVIDER_URL_WITH_KEY_PATTERN value = false :=
    Bool.eq_false_iff.mpr fun h => hequals (mem_of_hasKeyedUrl h)
  simp [redactStringValue, SIGNATURE_PATTERN, PRIVATE_KEY_PATTERN, hhex, hsession, hurl]

theorem isHexText_of_mem {c : Char} {n : ℕ} (h : c ∈ value.toList) (hx : c ≠ 'x')
    (hc : isHexDigit c = false) : isHexText n value = false := by
  refine Bool.eq_false_iff.mpr fun htext => ?_
  rw [isHexText, Bool.and_eq_true, Bool.and_eq_true, decide_eq_true_iff, List.all_eq_true] at htext
  obtain ⟨⟨htake, -⟩, hall⟩ := htext
  rw [← List.take_append_drop 2 value.toList, List.mem_append, htake] at h
  rcases h with h | h
  · simp only [List.mem_cons, List.not_mem_nil, or_false] at h
    rcases h with rfl | rfl
    · exact absurd hc (by decide)
    · exact hx rfl
  · exact absurd (hall c h) (by rw [hc]; decide)

/-- **A word up to `=`** ends the text before the first `=`, or stands behind it. -/
theorem hasWord_equals (hword : '=' ∉ word) (hfront : '=' ∉ front) :
    hasWord (word ++ ['=']) (front ++ '=' :: back) ↔
      word <:+ front.map Char.toLower ∨ hasWord (word ++ ['=']) back := by
  induction front with
  | nil =>
    rw [List.nil_append, hasWord, Bool.or_eq_true, startsWithWord_equals hword, beforeEquals,
      if_pos rfl]
    simp only [Option.any_some, List.map_nil, decide_eq_true_eq, List.suffix_nil]
    exact or_congr_left eq_comm
  | cons c front ih =>
    rw [List.mem_cons, not_or] at hfront
    rw [List.cons_append, hasWord, Bool.or_eq_true, ih hfront.2, ← List.cons_append,
      startsWithWord_equals hword,
      beforeEquals_append (List.not_mem_cons_of_ne_of_not_mem hfront.1 hfront.2), List.map_cons,
      List.suffix_cons_iff, or_assoc]
    simp only [Option.any_some, List.map_cons, decide_eq_true_eq]
    exact or_congr_left eq_comm

/-- The marker holds nothing of a session cookie's word. -/
theorem hasWord_redacted {word : String} (h : word ∈ ["connect.sid", "session_id", "sessionid"]) :
    hasWord (word.toList ++ ['=']) (REDACTED.toList ++ text) =
      hasWord (word.toList ++ ['=']) text := by
  simp only [List.mem_cons, List.not_mem_nil, or_false] at h
  rcases h with rfl | rfl | rfl <;> rfl

theorem hasWord_of_dropWhile {p : Char → Bool} (h : hasWord word (text.dropWhile p)) :
    hasWord word text := by
  induction text with
  | nil => exact h
  | cons c text ih =>
    rw [List.dropWhile_cons] at h
    split at h
    · rw [hasWord, Bool.or_eq_true]
      exact Or.inr (ih h)
    · exact h

/-- A replacement brings no session cookie's word about. -/
theorem hasWord_of_replaceParameters {word : String}
    (hmem : word ∈ ["connect.sid", "session_id", "sessionid"])
    (h : hasWord (word.toList ++ ['=']) (replaceParameters previous text)) :
    hasWord (word.toList ++ ['=']) text := by
  have hword : '=' ∉ word.toList := by
    revert hmem
    clear h
    revert word
    decide
  induction previous, text using replaceParameters.induct with
  | case1 previous =>
    rw [replaceParameters] at h
    exact h
  | case2 previous c rest hat ih =>
    have hsplit : beforeEquals (c :: replaceParameters (some c) rest) =
        beforeEquals (c :: rest) := by
      rw [← replaceParameters_of_none hat, beforeEquals_replaceParameters]
    rw [replaceParameters_of_none hat, hasWord, Bool.or_eq_true, startsWithWord_equals hword,
      hsplit, ← startsWithWord_equals hword] at h
    rw [hasWord, Bool.or_eq_true]
    exact h.imp_right ih
  | case3 previous c rest parameter hat value ih =>
    obtain ⟨-, front, back, htext, hnot, hlower, -⟩ := exists_of_parameterAt hat
    have hback : value = back := by
      rw [show value = (c :: rest).drop (parameter.toList.length + 1) from rfl, htext,
        drop_parameter hlower]
    rw [hback] at ih
    clear_value value
    rw [htext] at hat h ⊢
    rw [replaceParameters_of_some hat hnot, hasWord_equals hword hnot, hasWord_redacted hmem] at h
    rw [hasWord_equals hword hnot]
    exact h.imp_right fun h => hasWord_of_dropWhile (ih h)

/-- **A redacted text** stays as it is. -/
theorem redactStringValue_redactStringValue :
    redactStringValue key (redactStringValue key value) = redactStringValue key value := by
  have hredacted : redactStringValue key REDACTED = REDACTED :=
    redactStringValue_of_plain (by decide) fun n =>
      @isHexText_of_mem _ '[' n (by decide) (by decide) rfl
  by_cases hsignature : SIGNATURE_PATTERN value
  · have hcut : redactStringValue key value =
        String.ofList (value.toList.take 10) ++ TRUNCATED_SUFFIX ++ "[sig]" := by
      rw [redactStringValue, if_pos hsignature]
    have hequals : '=' ∉ value.toList := fun h => by
      rw [SIGNATURE_PATTERN, isHexText_of_mem h (by decide) rfl] at hsignature
      cases hsignature
    have htext : (String.ofList (value.toList.take 10) ++ TRUNCATED_SUFFIX ++ "[sig]").toList =
        value.toList.take 10 ++ ['…', '[', 's', 'i', 'g', ']'] := by
      rw [String.toList_append, String.toList_append, String.toList_ofList, List.append_assoc]
      rfl
    rw [hcut]
    refine redactStringValue_of_plain ?_ fun n => ?_
    · rw [htext, List.mem_append, not_or]
      exact ⟨fun h => hequals (List.mem_of_mem_take h), by decide⟩
    · refine @isHexText_of_mem _ '[' n ?_ (by decide) rfl
      rw [htext]
      exact List.mem_append_right _ (by decide)
  by_cases hkey : PRIVATE_KEY_PATTERN value && testsAny ["key", "secret", "private"] key
  · have hall : redactStringValue key value = REDACTED := by
      rw [redactStringValue, if_neg hsignature, if_pos hkey]
    rw [hall, hredacted]
  by_cases hsession : SESSION_COOKIE_PATTERN value
  · have hall : redactStringValue key value = REDACTED := by
      rw [redactStringValue, if_neg hsignature, if_neg hkey, if_pos hsession]
    rw [hall, hredacted]
  by_cases hurl : PROVIDER_URL_WITH_KEY_PATTERN value
  · have hparts : redactStringValue key value =
        String.ofList (replaceParameters none value.toList) := by
      rw [redactStringValue, if_neg hsignature, if_neg hkey, if_neg hsession, if_pos hurl]
    rw [hparts]
    have hequals : '=' ∈ (String.ofList (replaceParameters none value.toList)).toList := by
      rw [String.toList_ofList]
      by_contra hnot
      rw [← beforeEquals_eq_none, beforeEquals_replaceParameters, beforeEquals_eq_none] at hnot
      exact hnot (mem_of_hasKeyedUrl hurl)
    have hhex : ∀ n, isHexText n (String.ofList (replaceParameters none value.toList)) = false :=
      fun n => isHexText_of_mem hequals (by decide) rfl
    have hcookie : SESSION_COOKIE_PATTERN
        (String.ofList (replaceParameters none value.toList)) = false := by
      refine Bool.eq_false_iff.mpr fun h => hsession ?_
      obtain ⟨word, hword, hhas⟩ := exists_of_sessionCookie h
      rw [String.toList_ofList] at hhas
      exact sessionCookie_of_hasWord hword (hasWord_of_replaceParameters hword hhas)
    rw [redactStringValue, SIGNATURE_PATTERN, PRIVATE_KEY_PATTERN, hhex, hhex, hcookie,
      String.toList_ofList, replaceParameters_replaceParameters]
    simp
  · have hself : redactStringValue key value = value := by
      simp [redactStringValue, hsignature, hkey, hsession, hurl]
    rw [hself, hself]

end Texts

/-! ## What is left alone -/

/-- A text that no pattern asks to redact: a parameter's value of a url is the marker already. -/
structure Harmless (key text : String) : Prop where
  signature : SIGNATURE_PATTERN text = false
  privateKey : (PRIVATE_KEY_PATTERN text && testsAny ["key", "secret", "private"] key) = false
  session : SESSION_COOKIE_PATTERN text = false
  url : PROVIDER_URL_WITH_KEY_PATTERN text → replaceParameters none text.toList = text.toList

section Left

variable {key value : String}

theorem redactStringValue_REDACTED : redactStringValue key REDACTED = REDACTED :=
  redactStringValue_of_plain (by decide) fun n =>
    @isHexText_of_mem _ '[' n (by decide) (by decide) rfl

theorem redactStringValue_REDACTED_PII : redactStringValue key REDACTED_PII = REDACTED_PII :=
  redactStringValue_of_plain (by decide) fun n =>
    @isHexText_of_mem _ '[' n (by decide) (by decide) rfl

/-- **A text is left unchanged** exactly if no pattern asks to redact it. -/
theorem redactStringValue_eq_self_iff :
    redactStringValue key value = value ↔ Harmless key value := by
  constructor
  · intro h
    have hmarker : ∀ n, isHexText n REDACTED = false := fun n =>
      @isHexText_of_mem _ '[' n (by decide) (by decide) rfl
    have hsignature : SIGNATURE_PATTERN value = false := by
      refine Bool.eq_false_iff.mpr fun hsig => ?_
      have hlength := congrArg (fun text : String => text.toList.length) h
      rw [redactStringValue, if_pos hsig] at hlength
      rw [SIGNATURE_PATTERN, isHexText, Bool.and_eq_true, Bool.and_eq_true, decide_eq_true_iff,
        decide_eq_true_iff, List.length_drop] at hsig
      simp only [String.toList_append, String.toList_ofList, List.length_append, List.length_take,
        show TRUNCATED_SUFFIX.toList.length = 1 from rfl,
        show "[sig]".toList.length = 5 from rfl] at hlength
      omega
    have hprivate : (PRIVATE_KEY_PATTERN value &&
        testsAny ["key", "secret", "private"] key) = false := by
      refine Bool.eq_false_iff.mpr fun hkey => ?_
      rw [redactStringValue, if_neg (by rw [hsignature]; decide), if_pos hkey] at h
      rw [← h, PRIVATE_KEY_PATTERN, hmarker] at hkey
      cases hkey
    have hsession : SESSION_COOKIE_PATTERN value = false := by
      refine Bool.eq_false_iff.mpr fun hcookie => ?_
      rw [redactStringValue, if_neg (by rw [hsignature]; decide),
        if_neg (by rw [hprivate]; decide), if_pos hcookie] at h
      rw [← h] at hcookie
      exact absurd hcookie (by decide)
    refine ⟨hsignature, hprivate, hsession, fun hurl => ?_⟩
    rw [redactStringValue, if_neg (by rw [hsignature]; decide), if_neg (by rw [hprivate]; decide),
      if_neg (by rw [hsession]; decide), if_pos hurl] at h
    have hlist := congrArg String.toList h
    rw [String.toList_ofList] at hlist
    exact hlist
  · intro h
    rw [redactStringValue, h.signature, h.privateKey, h.session]
    by_cases hurl : PROVIDER_URL_WITH_KEY_PATTERN value
    · rw [h.url hurl, String.ofList_toList]
      simp
    · simp [hurl]

end Left

end Redact

end HoodSentry
