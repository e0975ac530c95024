import HoodSentry.Risk.Declarations
import HoodSentry.Risk.Model.Solidity
/-!
# Which functions are unguarded

`functionModifiers` takes every name of a header for a modifier that is no
attribute and stands behind no dot. So it gives the invoked modifiers exactly
when the header has no other names: no return list, no overridden base, no
modifier found under another name. A function without modifiers is then
reported as unrestricted, unless its declaration reads as one of a role.
-/

namespace HoodSentry

variable {ws rest : List String} {previous : Option String} {w : String}

/-! ## Scanning words -/

/-- Tokens of given words. -/
def tokensOf (ws : List String) : List Token := ws.map fun w => ⟨w, 0⟩

@[simp] theorem words_tokensOf (ws : List String) : words (tokensOf ws) = ws := by
  rw [words, tokensOf, List.map_map]
  exact List.map_id ws

theorem findMatchingFrom_congr {opening closing : String} {depth : ℤ} {ts us : List Token}
    (h : words ts = words us) :
    findMatchingFrom opening closing depth ts = findMatchingFrom opening closing depth us := by
  induction ts generalizing us depth with
  | nil =>
    obtain rfl : us = [] := List.map_eq_nil_iff.mp h.symm
    rfl
  | cons t ts ih =>
    obtain ⟨u, us, rfl, hvalue, hrest⟩ := List.map_eq_cons_iff.mp h.symm
    rw [findMatchingFrom, findMatchingFrom, hvalue, ih hrest.symm]

theorem words_drop {tokens : List Token} {n : ℕ} : words (tokens.drop n) = (words tokens).drop n :=
  List.map_drop

/-- The scan for modifiers sees words only. -/
theorem functionModifiersFrom_congr {ts us : List Token} (h : words ts = words us) :
    functionModifiersFrom previous ts = functionModifiersFrom previous us := by
  fun_induction functionModifiersFrom previous ts generalizing us with
  | case1 previous =>
    obtain rfl : us = [] := List.map_eq_nil_iff.mp h.symm
    rw [functionModifiersFrom]
  | case2 previous t ts hname ih =>
    obtain ⟨u, us, rfl, hvalue, hrest⟩ := List.map_eq_cons_iff.mp h.symm
    rw [functionModifiersFrom, hvalue, if_pos hname, ← ih hrest.symm]
  | case3 previous t ts hname hattribute ih =>
    obtain ⟨u, us, rfl, hvalue, hrest⟩ := List.map_eq_cons_iff.mp h.symm
    rw [functionModifiersFrom, hvalue, if_neg hname, if_pos hattribute, ← ih hrest.symm]
  | case4 t ts hname hattribute ih =>
    obtain ⟨u, us, rfl, hvalue, hrest⟩ := List.map_eq_cons_iff.mp h.symm
    rw [functionModifiersFrom, hvalue, if_neg hname, if_neg hattribute, if_pos rfl, ← ih hrest.symm]
  | case5 previous t ts hname hattribute hdot hparen close hclose ih =>
    obtain ⟨u, us, rfl, hvalue, hrest⟩ := List.map_eq_cons_iff.mp h.symm
    have hrest' : words us = words ts := hrest
    rw [functionModifiersFrom, hvalue, if_neg hname, if_neg hattribute, if_neg hdot, hrest',
      if_pos hparen, findMatchingFrom_congr hrest', hclose]
    dsimp only
    rw [@ih (us.drop (close + 1)) (by rw [words_drop, words_drop, hrest'])]
  | case6 previous t ts hname hattribute hdot hparen hclose ih =>
    obtain ⟨u, us, rfl, hvalue, hrest⟩ := List.map_eq_cons_iff.mp h.symm
    have hrest' : words us = words ts := hrest
    rw [functionModifiersFrom, hvalue, if_neg hname, if_neg hattribute, if_neg hdot, hrest',
      if_pos hparen, findMatchingFrom_congr hrest', hclose]
    dsimp only
    rw [ih hrest.symm]
  | case7 previous t ts hname hattribute hdot hparen ih =>
    obtain ⟨u, us, rfl, hvalue, hrest⟩ := List.map_eq_cons_iff.mp h.symm
    have hrest' : words us = words ts := hrest
    rw [functionModifiersFrom, hvalue, if_neg hname, if_neg hattribute, if_neg hdot, hrest',
      if_neg hparen, ← ih hrest.symm]

/-- The names taken from words. -/
def taken (previous : Option String) (ws : List String) : List String :=
  functionModifiersFrom previous (tokensOf ws)

theorem tokensOf_cons (w : String) (ws : List String) :
    tokensOf (w :: ws) = ⟨w, 0⟩ :: tokensOf ws := rfl

theorem tokensOf_append (ws vs : List String) :
    tokensOf (ws ++ vs) = tokensOf ws ++ tokensOf vs := List.map_append

theorem taken_nil : taken previous [] = [] := by
  rw [taken, show tokensOf [] = [] from rfl, functionModifiersFrom]

theorem taken_of_not_identifier (h : isIdentifier w = false) :
    taken previous (w :: ws) = taken (some w) ws := by
  rw [taken, tokensOf_cons, functionModifiersFrom, if_pos (by simp [h]), taken]

theorem taken_of_attribute (h : w ∈ FUNCTION_ATTRIBUTES) :
    taken previous (w :: ws) = taken (some w) ws := by
  by_cases hname : isIdentifier w = false
  · exact taken_of_not_identifier hname
  · rw [taken, tokensOf_cons, functionModifiersFrom, if_neg (by simpa using hname),
      if_pos (by simpa using h), taken]

theorem taken_behind_dot : taken (some ".") (w :: ws) = taken (some w) ws := by
  by_cases hname : isIdentifier w = false
  · exact taken_of_not_identifier hname
  by_cases hattribute : w ∈ FUNCTION_ATTRIBUTES
  · exact taken_of_attribute hattribute
  rw [taken, tokensOf_cons, functionModifiersFrom, if_neg (by simpa using hname),
    if_neg (by simpa using hattribute), if_pos rfl, taken]

/-- A name with no parenthesis behind it. -/
theorem taken_name (h : IsName w) (hdot : previous ≠ some ".") (hws : ws.head? ≠ some "(") :
    taken previous (w :: ws) = w :: taken (some w) ws := by
  have hhead : (words (tokensOf ws)).head? ≠ some "(" := by rwa [words_tokensOf]
  rw [taken, tokensOf_cons, functionModifiersFrom, if_neg (by simp [h.1]),
    if_neg (by simpa using h.2), if_neg hdot, if_neg hhead, taken]

/-- A name with a parenthesis behind it whose closing one is found. -/
theorem taken_matched {n : ℕ} (h : IsName w) (hdot : previous ≠ some ".")
    (hclose : findMatchingFrom "(" ")" 1 (tokensOf ws) = some n) :
    taken previous (w :: "(" :: (ws ++ rest)) = w :: taken (some ")") (ws.drop (n + 1) ++ rest) := by
  obtain ⟨hlt, -, hany⟩ := findMatchingFrom_found hclose
  have hlength : n + 1 ≤ ws.length := by
    rwa [tokensOf, List.length_map] at hlt
  have hfound : findMatchingFrom "(" ")" 0 (tokensOf ("(" :: (ws ++ rest))) = some (n + 1) := by
    rw [tokensOf_cons, tokensOf_append, findMatchingFrom,
      show (0 : ℤ) + depthChange "(" ")" "(" = 1 from rfl, if_neg one_ne_zero, hany,
      Option.map_some]
  have hdrop : (tokensOf ("(" :: (ws ++ rest))).drop (n + 1 + 1) =
      tokensOf (ws.drop (n + 1) ++ rest) := by
    rw [tokensOf, ← List.map_drop, List.drop_succ_cons, List.drop_append_of_le_length hlength,
      tokensOf]
  have hhead : (words (tokensOf ("(" :: (ws ++ rest)))).head? = some "(" := by
    rw [words_tokensOf]
    rfl
  rw [taken, tokensOf_cons, functionModifiersFrom, if_neg (by simp [h.1]),
    if_neg (by simpa using h.2), if_neg hdot, if_pos hhead, hfound]
  dsimp only
  rw [hdrop, taken]

/-- A name with a list in parentheses behind it: the scan goes on behind the
list. -/
theorem taken_call (h : IsName w) (hdot : previous ≠ some ".") (hws : Nested "(" ")" ws) :
    taken previous (w :: (parenthesised ws ++ rest)) = w :: taken (some ")") rest := by
  have hinside : ∀ n, 0 < (1 : ℤ) + depthSum "(" ")" ((words (tokensOf ws)).take n) := by
    intro n
    have hnonneg := hws.nonneg n
    rw [words_tokensOf]
    omega
  have hclose : findMatchingFrom "(" ")" 1 (tokensOf (ws ++ [")"])) = some ws.length := by
    rw [tokensOf_append, findMatchingFrom_append hinside, words_tokensOf, hws.balanced, tokensOf_cons,
      findMatchingFrom, if_pos (by decide), Option.map_some, Nat.zero_add, tokensOf,
      List.length_map]
  have hdrop : (ws ++ [")"]).drop (ws.length + 1) = [] := List.drop_of_length_le (by simp)
  rw [parenthesised, List.cons_append, taken_matched h hdot hclose, hdrop, List.nil_append]

/-- **Words in parentheses are scanned to their end**: no jump leads out of
them. -/
theorem taken_nested {depth : ℤ} (hnonneg : ∀ n, 0 ≤ depth + depthSum "(" ")" (ws.take n))
    (hzero : depth + depthSum "(" ")" ws = 0) :
    ∃ names, taken previous (ws ++ ")" :: rest) = names ++ taken (some ")") rest ∧
      ∀ w vs, ws = w :: vs → IsName w → previous ≠ some "." → names ≠ [] := by
  induction hn : ws.length using Nat.strongRecOn generalizing ws previous depth with
  | ind n ih =>
    cases ws with
    | nil =>
      refine ⟨[], ?_, fun w vs h => by cases h⟩
      rw [List.nil_append, taken_of_not_identifier (by decide), List.nil_append]
    | cons w vs =>
      have hdepth : ∀ k, 0 ≤ depth + depthChange "(" ")" w + depthSum "(" ")" (vs.take k) := by
        intro k
        have hk := hnonneg (k + 1)
        rw [List.take_succ_cons, depthSum_cons] at hk
        omega
      have hzero' : depth + depthChange "(" ")" w + depthSum "(" ")" vs = 0 := by
        rw [depthSum_cons] at hzero
        omega
      have hlt : vs.length < n := by
        rw [← hn, List.length_cons]
        omega
      have hskip : taken previous (w :: (vs ++ ")" :: rest)) = taken (some w) (vs ++ ")" :: rest) →
          ¬(IsName w ∧ previous ≠ some ".") →
          ∃ names, taken previous (w :: vs ++ ")" :: rest) = names ++ taken (some ")") rest ∧
            ∀ w' vs', w :: vs = w' :: vs' → IsName w' → previous ≠ some "." → names ≠ [] := by
        intro hstep hno
        obtain ⟨names, hnames, -⟩ := ih vs.length hlt hdepth hzero' rfl
        refine ⟨names, by rw [List.cons_append, hstep, hnames], fun w' vs' hcons hname hdot => ?_⟩
        obtain ⟨rfl, -⟩ := List.cons.inj hcons
        exact absurd ⟨hname, hdot⟩ hno
      by_cases hname : isIdentifier w = false
      · exact hskip (taken_of_not_identifier hname) fun h => by rw [h.1.1] at hname; cases hname
      by_cases hattribute : w ∈ FUNCTION_ATTRIBUTES
      · exact hskip (taken_of_attribute hattribute) fun h => h.1.2 hattribute
      by_cases hdot : previous = some "."
      · exact hskip (by rw [hdot, taken_behind_dot]) fun h => h.2 hdot
      have hisName : IsName w := ⟨by simpa using hname, hattribute⟩
      have hne := ne_of_isIdentifier hisName.1
      rw [depthChange_of_ne hne.2.1 hne.2.2.1, add_zero] at hdepth hzero'
      by_cases hcall : ∃ us, vs = "(" :: us
      · obtain ⟨us, rfl⟩ := hcall
        have hopen : depthChange "(" ")" "(" = 1 := by decide
        have hbase := hdepth 0
        rw [List.take_zero, depthSum_nil, add_zero] at hbase
        rw [depthSum_cons, hopen] at hzero'
        have hsome : (findMatchingFrom "(" ")" 1 (tokensOf us ++ [])).isSome :=
          findMatchingFrom_isSome (by omega) (by rw [words_tokensOf]; omega) []
        rw [List.append_nil] at hsome
        obtain ⟨m, hm⟩ := Option.isSome_iff_exists.mp hsome
        obtain ⟨-, hsum, -⟩ := findMatchingFrom_found hm
        rw [words_tokensOf] at hsum
        have hsplit : ∀ k, depthSum "(" ")" (us.take (m + 1 + k)) =
            depthSum "(" ")" (us.take (m + 1)) + depthSum "(" ")" ((us.drop (m + 1)).take k) := by
          intro k
          rw [List.take_add, depthSum_append]
        have hall : depthSum "(" ")" us =
            depthSum "(" ")" (us.take (m + 1)) + depthSum "(" ")" (us.drop (m + 1)) := by
          rw [← depthSum_append, List.take_append_drop]
        have hshort : (us.drop (m + 1)).length < n := by
          rw [List.length_drop]
          rw [List.length_cons] at hlt
          omega
        obtain ⟨names, hnames, -⟩ := @ih (us.drop (m + 1)).length hshort (us.drop (m + 1))
          (some ")") depth (fun k => by
            have hk := hdepth (1 + (m + 1 + k))
            rw [show 1 + (m + 1 + k) = (m + 1 + k) + 1 by omega, List.take_succ_cons,
              depthSum_cons, hopen, hsplit] at hk
            omega) (by omega) rfl
        refine ⟨w :: names, ?_, fun _ _ _ _ _ => List.cons_ne_nil w names⟩
        rw [List.cons_append, List.cons_append, taken_matched hisName hdot hm, hnames]
        rfl
      · have hhead : (vs ++ ")" :: rest).head? ≠ some "(" := by
          cases vs with
          | nil => simp
          | cons v us =>
            intro hhead
            exact hcall ⟨us, by rw [Option.some.inj hhead]⟩
        obtain ⟨names, hnames, -⟩ := ih vs.length hlt hdepth hzero' rfl
        refine ⟨w :: names, ?_, fun _ _ _ _ _ => List.cons_ne_nil w names⟩
        rw [List.cons_append, taken_name hisName hdot hhead, hnames]
        rfl

/-! ## Items -/

/-- An item begins with no parenthesis. -/
theorem HeaderItem.exists_head (item : HeaderItem) :
    ∃ w ws, item.words = w :: ws ∧ w ≠ "(" := by
  cases item with
  | flag word known =>
    have hall : ∀ w ∈ plainAttributes, w ≠ "(" := by decide
    exact ⟨word, [], rfl, hall word known⟩
  | override bases =>
    cases bases with
    | nil => exact ⟨_, _, rfl, by decide⟩
    | cons base bases => exact ⟨_, _, rfl, by decide⟩
  | invocation path arguments =>
    have hhead := (ne_of_isIdentifier (path.isName path.head List.mem_cons_self).1).2.1
    cases arguments with
    | none => exact ⟨_, _, rfl, hhead⟩
    | some arguments => exact ⟨_, _, rfl, hhead⟩
  | returns parameters => exact ⟨_, _, rfl, by decide⟩

theorem head?_items (items : List HeaderItem) :
    (items.flatMap (·.words)).head? ≠ some "(" := by
  cases items with
  | nil => exact fun h => by cases h
  | cons item items =>
    obtain ⟨w, ws, hwords, hne⟩ := item.exists_head
    rw [List.flatMap_cons, hwords, List.cons_append, List.head?_cons]
    exact fun h => hne (Option.some.inj h)

/-- A path found under another name begins with that name. -/
theorem IdentifierPath.text_eq_head_iff (path : IdentifierPath) :
    path.text = path.head ↔ path.members = [] := by
  constructor
  · intro htext
    cases hmembers : path.members with
    | nil => rfl
    | cons name names =>
      have hdot : '.' ∈ path.head.toList := by
        rw [← htext, IdentifierPath.text, hmembers, toList_joinTexts, List.map_cons, List.map_cons,
          List.intercalate_cons_cons]
        simp
      have hpart := (exists_of_isIdentifier (path.isName path.head List.mem_cons_self).1).2 '.' hdot
      cases hpart
  · intro hmembers
    rw [IdentifierPath.text, hmembers, ← String.toList_inj, toList_joinTexts]
    simp

/-- The names below a path's head stand behind dots, and are passed over. -/
theorem taken_members {names : List String} (hnames : ∀ name ∈ names, IsName name)
    (hdot : previous ≠ some ".") :
    ∃ q, q ≠ some "." ∧
      taken previous (names.flatMap (fun name => [".", name]) ++ rest) = taken q rest := by
  induction names generalizing previous with
  | nil => exact ⟨previous, hdot, rfl⟩
  | cons name names ih =>
    obtain ⟨hname, hnames⟩ := List.forall_mem_cons.mp hnames
    have hne := (ne_of_isIdentifier hname.1).2.2.2.2
    obtain ⟨q, hq, hrest⟩ := @ih (some name) hnames fun h => hne (Option.some.inj h)
    refine ⟨q, hq, ?_⟩
    rw [List.flatMap_cons, List.append_assoc, List.cons_append, List.cons_append,
      taken_of_not_identifier (by decide), taken_behind_dot, List.nil_append, hrest]

theorem nested_bases (bases : List IdentifierPath) :
    Nested "(" ")" (commaSeparated (bases.map (·.words))) := by
  refine nested_of_free fun w hw => ?_
  rcases mem_commaSeparated hw with rfl | ⟨group, hgroup, hin⟩
  · decide
  · obtain ⟨path, -, rfl⟩ := List.mem_map.mp hgroup
    rcases path.mem_words hin with rfl | hname
    · decide
    · exact ⟨(ne_of_isIdentifier hname.1).2.1, (ne_of_isIdentifier hname.1).2.2.1⟩

theorem exists_commaSeparated (base : IdentifierPath) (bases : List IdentifierPath) :
    ∃ ws, commaSeparated ((base :: bases).map (·.words)) = base.head :: ws := by
  cases bases with
  | nil => exact ⟨_, rfl⟩
  | cons next bases =>
    rw [List.map_cons, List.map_cons, commaSeparated, List.intercalate_cons_cons,
      IdentifierPath.words]
    exact ⟨_, rfl⟩

/-- A word with a list in parentheses behind it that is not jumped over. -/
theorem taken_list (hws : Nested "(" ")" ws) :
    ∃ names, taken previous (parenthesised ws ++ rest) = names ++ taken (some ")") rest ∧
      ∀ w vs, ws = w :: vs → IsName w → names ≠ [] := by
  obtain ⟨names, hnames, hne⟩ := @taken_nested ws rest (some "(") 0
    (fun n => by rw [zero_add]; exact hws.nonneg n) (by rw [zero_add]; exact hws.balanced)
  refine ⟨names, ?_, fun w vs hcons hname => hne w vs hcons hname (by decide)⟩
  rw [parenthesised, List.cons_append, taken_of_not_identifier (by decide), List.append_assoc,
    List.singleton_append, hnames]

/-- **What the scan takes of an item**: at least as many names as it invokes
modifiers, and these alone exactly when the item is clear. -/
theorem taken_item (item : HeaderItem) (hdot : previous ≠ some ".")
    (hrest : rest.head? ≠ some "(") :
    ∃ names q, q ≠ some "." ∧ taken previous (item.words ++ rest) = names ++ taken q rest ∧
      item.invoked.length ≤ names.length ∧ (names = item.invoked ↔ item.Clear) := by
  have hattribute : ∀ w ∈ FUNCTION_ATTRIBUTES, some w ≠ some "." := by decide
  cases item with
  | flag word known =>
    have hknown : ∀ w ∈ plainAttributes, w ∈ FUNCTION_ATTRIBUTES := by decide
    have hword := hknown word known
    refine ⟨[], some word, hattribute word hword, ?_, Nat.le_refl 0, iff_of_true rfl trivial⟩
    rw [HeaderItem.words, List.singleton_append, taken_of_attribute hword, List.nil_append]
  | override bases =>
    cases bases with
    | nil =>
      refine ⟨[], some "override", by decide, ?_, Nat.le_refl 0, iff_of_true rfl rfl⟩
      rw [HeaderItem.words, List.singleton_append, taken_of_attribute (by decide), List.nil_append]
    | cons base bases =>
      obtain ⟨names, hnames, hne⟩ := @taken_list _ rest (some "override")
        (nested_bases (base :: bases))
      obtain ⟨ws, hws⟩ := exists_commaSeparated base bases
      have hsome := hne base.head ws hws (base.isName _ List.mem_cons_self)
      refine ⟨names, some ")", by decide, ?_, Nat.zero_le _, iff_of_false hsome (by simp [HeaderItem.Clear])⟩
      rw [HeaderItem.words, List.cons_append, taken_of_attribute (by decide), hnames]
  | invocation path arguments =>
    have hhead := path.isName path.head List.mem_cons_self
    have hmembers : ∀ name ∈ path.members, IsName name := fun name hname =>
      path.isName name (List.mem_cons_of_mem _ hname)
    have hne : some path.head ≠ some "." := fun h =>
      (ne_of_isIdentifier hhead.1).2.2.2.2 (Option.some.inj h)
    have hclear : ∀ more, path.head :: more = [path.text] → path.members = [] := by
      intro more hone
      exact path.text_eq_head_iff.mp (List.cons.inj hone).1.symm
    -- a name below the head keeps the list from being jumped over
    have hbelow : ∀ tail : List String, tail.head? ≠ some "(" ∨ path.members ≠ [] →
        ∃ q, q ≠ some "." ∧ taken previous (path.words ++ tail) = path.head :: taken q tail := by
      intro tail htail
      obtain ⟨q, hq, hskip⟩ := @taken_members tail (some path.head) path.members hmembers hne
      refine ⟨q, hq, ?_⟩
      have hbehind : (path.members.flatMap (fun name => [".", name]) ++ tail).head? ≠ some "(" := by
        cases hlist : path.members with
        | nil => exact htail.resolve_right (fun h => h hlist)
        | cons name names => simp
      rw [IdentifierPath.words, List.cons_append, taken_name hhead hdot hbehind, hskip]
    cases arguments with
    | none =>
      obtain ⟨q, hq, htaken⟩ := hbelow rest (.inl hrest)
      refine ⟨[path.head], q, hq, htaken, Nat.le_refl 1, hclear [], fun hnil => ?_⟩
      rw [HeaderItem.invoked, path.text_eq_head_iff.mpr hnil]
    | some arguments =>
      by_cases hnil : path.members = []
      · refine ⟨[path.head], some ")", by decide, ?_, Nat.le_refl 1, iff_of_true ?_ hnil⟩
        · rw [HeaderItem.words, IdentifierPath.words, hnil, List.flatMap_nil, List.append_assoc,
            List.singleton_append, taken_call hhead hdot arguments.nested, List.singleton_append]
        · rw [HeaderItem.invoked, path.text_eq_head_iff.mpr hnil]
      · obtain ⟨q, -, htaken⟩ := hbelow (parenthesised arguments.words ++ rest) (.inr hnil)
        obtain ⟨names, hnames, -⟩ := @taken_list _ rest q arguments.nested
        refine ⟨path.head :: names, some ")", by decide, ?_, by simp [HeaderItem.invoked],
          iff_of_false (fun h => hnil (hclear names h)) hnil⟩
        rw [HeaderItem.words, List.append_assoc, htaken, hnames, List.cons_append]
  | returns parameters =>
    obtain ⟨names, hnames, hne⟩ := @taken_list _ rest (some "returns") parameters.nested
    have hsome := hne parameters.first parameters.rest rfl parameters.isName
    refine ⟨names, some ")", by decide, ?_, Nat.zero_le _, iff_of_false hsome id⟩
    rw [HeaderItem.words, List.cons_append, taken_of_attribute (by decide), hnames]

/-- **The modifiers of a header**: those it invokes, exactly when every item
is clear. -/
theorem taken_header_iff (items : List HeaderItem) (hdot : previous ≠ some ".") :
    (items.flatMap (·.invoked)).length ≤ (taken previous (items.flatMap (·.words))).length ∧
      (taken previous (items.flatMap (·.words)) = items.flatMap (·.invoked) ↔
        ∀ item ∈ items, item.Clear) := by
  induction items generalizing previous with
  | nil =>
    rw [List.flatMap_nil, List.flatMap_nil, taken_nil]
    exact ⟨Nat.le_refl 0, iff_of_true rfl (List.forall_mem_nil _)⟩
  | cons item items ih =>
    obtain ⟨names, q, hq, htaken, hle, hclear⟩ := taken_item item hdot (head?_items items)
    obtain ⟨hle', hiff⟩ := ih hq
    rw [List.flatMap_cons, List.flatMap_cons, htaken, List.length_append, List.length_append,
      List.forall_mem_cons, ← hclear, ← hiff]
    refine ⟨Nat.add_le_add hle hle', fun heq => ?_, fun heq => by rw [heq.1, heq.2]⟩
    have hlength := congrArg List.length heq
    rw [List.length_append, List.length_append] at hlength
    exact List.append_inj heq (by omega)

/-! ## Roles -/

/-- The part of a word that can be a role's name. -/
def roleOf (ws : List String) : List Char := (ws.headD "").toList.takeWhile isIdentifierPart

/-- **The role a declaration reads as**: what stands behind the first
parenthesis that follows a word ending in `onlyRole`. -/
def capturedRole : List String → Option (List Char)
  | [] => none
  | w :: rest =>
    if "onlyRole".toList <:+ w.toList ∧ rest.head? = some "(" ∧ roleOf rest.tail ≠ [] then
      some (roleOf rest.tail)
    else capturedRole rest

/-- A word outside of literals. -/
def CodeWord (w : String) : Prop := Lexeme w ∧ ¬ IsLiteral w

theorem dropWhile_trailing {w : String} (h : Lexeme w) :
    (trailing (w :: ws)).dropWhile isBlank = w.toList ++ trailing ws := by
  obtain ⟨c, r, hw, hblank⟩ := h.exists_head
  rw [trailing_cons, bodyText_cons, List.dropWhile_cons_of_pos (by decide), hw, List.cons_append,
    dropWhile_blank hblank]

theorem takeWhile_trailing (t : List Char) :
    (t ++ trailing ws).takeWhile isIdentifierPart = t.takeWhile isIdentifierPart := by
  have hnone : (trailing ws).takeWhile isIdentifierPart = [] := by
    cases ws with
    | nil => rfl
    | cons w ws =>
      rw [trailing_cons]
      exact List.takeWhile_cons_of_neg (by decide)
  rw [List.takeWhile_append, hnone, List.append_nil]
  split
  · rename_i hlength
    exact (List.IsPrefix.eq_of_length (List.takeWhile_prefix _) hlength).symm
  · rfl

theorem roleOf_trailing (h : ∀ w ∈ ws, CodeWord w) :
    ((trailing ws).dropWhile isBlank).takeWhile isIdentifierPart = roleOf ws := by
  cases ws with
  | nil => rfl
  | cons w ws =>
    rw [dropWhile_trailing (h w List.mem_cons_self).1, takeWhile_trailing]
    rfl

theorem head?_trailing (h : ∀ w ∈ ws, CodeWord w) :
    ((trailing ws).dropWhile isBlank).head? = some '(' ↔ ws.head? = some "(" := by
  cases ws with
  | nil => exact iff_of_false (by decide) (by decide)
  | cons w ws =>
    obtain ⟨hlex, hliteral⟩ := h w List.mem_cons_self
    obtain ⟨c, r, hw, -⟩ := hlex.exists_head
    rw [dropWhile_trailing hlex, hw, List.cons_append, List.head?_cons, List.head?_cons,
      Option.some.injEq, Option.some.injEq]
    constructor
    · rintro rfl
      have hone := hlex.eq_bracket hliteral (by decide) (hw ▸ List.mem_cons_self)
      exact String.toList_inj.mp (hone.trans (by decide))
    · rintro rfl
      rw [show "(".toList = ['('] from by decide] at hw
      exact (List.cons.inj hw).1.symm

/-- The pattern behind its first word. -/
theorem matchRole_trailing (h : ∀ w ∈ ws, CodeWord w) :
    matchRole ("onlyRole".toList ++ trailing ws) =
      if ws.head? = some "(" ∧ roleOf ws.tail ≠ [] then some (roleOf ws.tail) else none := by
  have hdrop : ("onlyRole".toList ++ trailing ws).drop 8 = trailing ws := by
    rw [show 8 = "onlyRole".toList.length from by decide, List.drop_left]
  have hpre : "onlyRole".toList.isPrefixOf ("onlyRole".toList ++ trailing ws) = true :=
    List.isPrefixOf_iff_prefix.mpr (List.prefix_append _ _)
  rw [matchRole, if_pos hpre, hdrop]
  dsimp only
  by_cases hparen : ws.head? = some "("
  · obtain ⟨rest, rfl⟩ : ∃ rest, ws = "(" :: rest := by
      cases ws with
      | nil => cases hparen
      | cons w rest => exact ⟨rest, by rw [Option.some.inj hparen]⟩
    have htail : ((trailing ("(" :: rest)).dropWhile isBlank).tail = trailing rest := by
      rw [dropWhile_trailing (h "(" List.mem_cons_self).1]
      rfl
    rw [htail, roleOf_trailing fun w hw => h w (List.mem_cons_of_mem _ hw), List.tail_cons]
    exact if_congr (and_congr_left' (head?_trailing h)) rfl rfl
  · rw [if_neg fun hand => hparen ((head?_trailing h).mp hand.1), if_neg fun hand => hparen hand.1]

theorem execRole_cons (c : Char) (text : List Char) :
    execRole (c :: text) = (matchRole (c :: text)).or (execRole text) := by
  rw [execRole, List.tails_cons, List.findSome?_cons, execRole]
  cases matchRole (c :: text) with
  | none => rfl
  | some role => rfl

/-- A text that does not begin with the pattern's first word. -/
theorem matchRole_of_not {text : List Char} (h : ¬ "onlyRole".toList <+: text) :
    matchRole text = none := by
  rw [matchRole, if_neg]
  rwa [List.isPrefixOf_iff_prefix]

/-- Names go on with no role. -/
theorem matchRole_name {c : Char} {t : List Char} (h : isNameCharacter c = true) :
    matchRole ("onlyRole".toList ++ c :: t) = none := by
  obtain ⟨hblank, hne⟩ := ne_of_isNameCharacter h
  have hdrop : ("onlyRole".toList ++ c :: t).drop 8 = c :: t := by
    rw [show 8 = "onlyRole".toList.length from by decide, List.drop_left]
  rw [matchRole, if_pos (List.isPrefixOf_iff_prefix.mpr (List.prefix_append _ _)), hdrop]
  dsimp only
  rw [dropWhile_blank hblank, if_neg]
  rintro ⟨hhead, -⟩
  obtain rfl : c = '(' := Option.some.inj hhead
  exact hne (by simp)

/-- The search through the rest of a name. -/
theorem execRole_name {t : List Char} (ht : ∀ c ∈ t, isNameCharacter c = true)
    (h : ∀ w ∈ ws, CodeWord w) :
    execRole (t ++ trailing ws) =
      if "onlyRole".toList <:+ t ∧ ws.head? = some "(" ∧ roleOf ws.tail ≠ [] then
        some (roleOf ws.tail)
      else execRole (trailing ws) := by
  induction t with
  | nil =>
    rw [List.nil_append, if_neg]
    rintro ⟨hsuffix, -⟩
    exact absurd (List.suffix_nil.mp hsuffix) (by decide)
  | cons c t ih =>
    obtain ⟨hc, ht'⟩ := List.forall_mem_cons.mp ht
    rw [List.cons_append, execRole_cons, ih ht']
    by_cases hword : c :: t = "onlyRole".toList
    · have hshort : ¬ "onlyRole".toList <:+ t := by
        intro hsuffix
        have hle := hsuffix.length_le
        rw [← hword, List.length_cons] at hle
        omega
      rw [← List.cons_append, hword, matchRole_trailing h]
      by_cases hrole : ws.head? = some "(" ∧ roleOf ws.tail ≠ []
      · rw [if_pos hrole, Option.some_or, if_pos ⟨List.suffix_refl _, hrole⟩]
      · rw [if_neg hrole, Option.none_or, if_neg (not_and_of_not_left _ hshort),
          if_neg (not_and_of_not_right _ hrole)]
    · have hnone : matchRole (c :: (t ++ trailing ws)) = none := by
        by_cases hpre : "onlyRole".toList <+: c :: t
        · obtain ⟨b, hb⟩ := hpre
          cases b with
          | nil =>
            rw [List.append_nil] at hb
            exact absurd hb.symm hword
          | cons e b =>
            have he : isNameCharacter e = true := ht e (by rw [← hb]; simp)
            rw [← List.cons_append, ← hb, List.append_assoc, List.cons_append]
            exact matchRole_name he
        · refine matchRole_of_not ?_
          rwa [← List.cons_append, prefix_append_trailing (by decide)]
      rw [hnone, Option.none_or]
      refine if_congr (and_congr_left' ?_) rfl rfl
      rw [List.suffix_cons_iff]
      exact ⟨.inr, fun hor => hor.resolve_left fun heq => hword heq.symm⟩

/-- A symbol goes on with no role. -/
theorem execRole_symbol {t text : List Char} (h : ∀ c ∈ t, isIdentifierPart c = false) :
    execRole (t ++ text) = execRole text := by
  induction t with
  | nil => rfl
  | cons c t ih =>
    obtain ⟨hc, ht⟩ := List.forall_mem_cons.mp h
    rw [List.cons_append, execRole_cons, ih ht, matchRole_of_not, Option.none_or]
    rintro ⟨rest, hrest⟩
    obtain rfl : 'o' = c := (List.cons.inj hrest).1
    cases hc

/-- **The role a text reads as is that of its words.** -/
theorem execRole_bodyText (h : ∀ w ∈ ws, CodeWord w) :
    execRole (bodyText ws) = capturedRole ws := by
  have hblank : ∀ (ws : List String), (∀ w ∈ ws, CodeWord w) →
      (ws = [] ∨ execRole (bodyText ws) = capturedRole ws) →
      execRole (trailing ws) = capturedRole ws := by
    intro ws _ hws
    cases ws with
    | nil => rfl
    | cons w rest =>
      rw [trailing_cons, execRole_cons, matchRole_of_not, Option.none_or]
      · exact hws.resolve_left (List.cons_ne_nil w rest)
      · rintro ⟨t, ht⟩
        cases (List.cons.inj ht).1
  induction ws with
  | nil => rfl
  | cons w ws ih =>
    obtain ⟨⟨hlex, hliteral⟩, hrest⟩ := List.forall_mem_cons.mp h
    have htail := hblank ws hrest (.inr (ih hrest))
    rw [bodyText_cons, capturedRole]
    rcases hlex with hname | hlit | hsymbol
    · rw [execRole_name hname.2 hrest, htail]
    · exact absurd hlit hliteral
    · have hpart : ∀ c ∈ w.toList, isIdentifierPart c = false := by
        rcases hsymbol with hop | ⟨c, hc, -, hpart⟩
        · exact fun c hc => (operators_spec hop c hc).2.1
        · rw [hc]
          exact List.forall_mem_singleton.mpr hpart
      have hsuffix : ¬ "onlyRole".toList <:+ w.toList := by
        intro hsuffix
        have hin : 'o' ∈ w.toList := hsuffix.subset (by decide)
        exact absurd (hpart 'o' hin) (by decide)
      rw [execRole_symbol hpart, htail, if_neg (not_and_of_not_left _ hsuffix)]

/-! ## Unguarded functions -/

/-- The declaration reads as one of no role: no word ending in `onlyRole`
stands in it before a parenthesis and a name. A name `unrestricted` there
goes unnoticed. -/
def FunctionDeclaration.RoleFree (f : FunctionDeclaration) : Prop :=
  ∀ role, capturedRole (f.prototype ++ f.headerWords) = some role →
    String.ofList role = "unrestricted"

/-- **A declaration the parser reads right.** -/
structure FunctionDeclaration.Clear (f : FunctionDeclaration) : Prop where
  uncut : ¬ f.Cut
  items : ∀ item ∈ f.header, item.Clear
  roleFree : f.invoked = [] → f.RoleFree

/-- **The modifiers are those the header invokes**, and a function of none is
unrestricted. -/
def FunctionDeclaration.Reported (f : FunctionDeclaration)
    (parsed : Option (SolidityFunction × ℕ)) : Prop :=
  ∃ fn stop, parsed = some (fn, stop) ∧ fn.modifiers = f.invoked ∧
    (f.invoked = [] → functionRole fn = "unrestricted")

variable {f : FunctionDeclaration} {tokens : List Token} {before after : List String}

/-- Without modifiers the role is the one the declaration reads as. -/
theorem functionRole_of_nil {fn : SolidityFunction} (h : fn.modifiers = []) :
    functionRole fn = "unrestricted" ↔
      ∀ role, execRole fn.declaration.toList = some role → String.ofList role = "unrestricted" := by
  rw [functionRole, h]
  cases hrole : execRole fn.declaration.toList with
  | none => exact iff_of_true rfl fun role hsome => by cases hsome
  | some role =>
    refine ⟨fun heq role' hsome => ?_, fun hall => hall role rfl⟩
    rw [← Option.some.inj hsome]
    exact heq

theorem codeWord_name {w : String} (h : isIdentifier w = true) : CodeWord w := by
  obtain ⟨⟨c, rest, hw⟩, hpart⟩ := exists_of_isIdentifier h
  refine ⟨.inl ⟨by rw [hw]; exact List.cons_ne_nil c rest,
    fun d hd => isNameCharacter_of_part (hpart d hd)⟩, ?_⟩
  have hc := hpart c (hw ▸ List.mem_cons_self)
  rintro ⟨t, ht | ht⟩
  · rw [hw] at ht
    obtain rfl : c = '"' := (List.cons.inj ht).1
    cases hc
  · rw [hw] at ht
    obtain rfl : c = '\'' := (List.cons.inj ht).1
    cases hc

theorem codeWord_symbol {w : String} {c : Char} (hw : w.toList = [c]) (hblank : isBlank c = false)
    (hpart : isIdentifierPart c = false) (hquote : c ≠ '"' ∧ c ≠ '\'') : CodeWord w := by
  refine ⟨.inr (.inr (.inr ⟨c, hw, hblank, hpart⟩)), ?_⟩
  rintro ⟨t, ht | ht⟩
  · exact hquote.1 (List.cons.inj (hw.symm.trans ht)).1
  · exact hquote.2 (List.cons.inj (hw.symm.trans ht)).1

/-- A clear header without modifiers has attributes only. -/
theorem codeWord_declaration (hitems : ∀ item ∈ f.header, item.Clear) (hnone : f.invoked = []) :
    ∀ w ∈ f.prototype ++ f.headerWords, CodeWord w := by
  intro w hw
  rcases List.mem_append.mp hw with hproto | hheader
  · rcases List.mem_append.mp hproto with hopening | hparameters
    · have hkeyword : isIdentifier (keywordOf f.kind) = true := by
        cases f.kind <;> decide
      have hcases : w = keywordOf f.kind ∨ w = f.name := by
        rw [FunctionDeclaration.opening] at hopening
        split at hopening
        · simpa using hopening
        · exact .inl (List.mem_singleton.mp hopening)
      rcases hcases with rfl | rfl
      · exact codeWord_name hkeyword
      · exact codeWord_name f.isName.1
    · rcases mem_parenthesised.mp hparameters with rfl | hin | rfl
      · exact @codeWord_symbol "(" '(' (by decide) (by decide) (by decide) (by decide)
      · exact f.lexemes w hin
      · exact @codeWord_symbol ")" ')' (by decide) (by decide) (by decide) (by decide)
  · obtain ⟨item, hitem, hin⟩ := List.mem_flatMap.mp hheader
    have hclear := hitems item hitem
    cases item with
    | flag word known =>
      obtain rfl := List.mem_singleton.mp hin
      have hall : ∀ w ∈ plainAttributes, isIdentifier w = true := by decide
      exact codeWord_name (hall w known)
    | override bases =>
      obtain rfl : bases = [] := hclear
      obtain rfl := List.mem_singleton.mp hin
      exact codeWord_name (by decide)
    | invocation path arguments =>
      have hmem : path.text ∈ f.invoked :=
        List.mem_flatMap.mpr ⟨_, hitem, List.mem_singleton_self _⟩
      rw [hnone] at hmem
      cases hmem
    | returns parameters => exact hclear.elim

/-- What is read of an uncut declaration. -/
theorem parseFunction_uncut (keccak256 : String → HexText) (contractName sourcePath : String)
    (hwords : words tokens = before ++ f.words ++ after) (hcut : ¬ f.Cut) :
    ∃ fn stop, parseFunction keccak256 contractName sourcePath tokens before.length =
        some (fn, stop) ∧ fn.modifiers = taken none f.headerWords ∧
      fn.declaration.toList = bodyText (f.prototype ++ f.headerWords) := by
  obtain ⟨keyword, -, hparsed⟩ := parseFunction_of_words keccak256 contractName sourcePath hwords
    (functionExtent_of_words hwords hcut)
  refine ⟨_, _, hparsed, ?_, ?_⟩
  · rw [functionOf, functionModifiers, taken]
    exact functionModifiersFrom_congr ((words_header hwords).trans (words_tokensOf _).symm)
  · show (joinTokens (slice tokens before.length (f.headerEnd before.length))).toList = _
    rw [joinTokens, words_declaration hwords, bodyText]

/-- **Modifiers are extracted right**, and a function of none is reported as
unrestricted, of every clear declaration. Of declarations that are not cut
they are of the clear ones only. -/
theorem reported_iff_clear (f : FunctionDeclaration) (keccak256 : String → HexText)
    (contractName sourcePath : String) {tokens : List Token} {before after : List String}
    (hwords : words tokens = before ++ f.words ++ after) :
    (f.Clear → f.Reported
      (parseFunction keccak256 contractName sourcePath tokens before.length)) ∧
    (¬ f.Cut → (f.Reported
      (parseFunction keccak256 contractName sourcePath tokens before.length) ↔ f.Clear)) := by
  have hiff : ¬ f.Cut → (f.Reported
      (parseFunction keccak256 contractName sourcePath tokens before.length) ↔ f.Clear) := by
    intro hcut
    obtain ⟨fn, stop, hparsed, hmodifiers, hdeclaration⟩ :=
      parseFunction_uncut keccak256 contractName sourcePath hwords hcut
    obtain ⟨-, hheader⟩ := @taken_header_iff none f.header (by decide)
    have hrole : (∀ item ∈ f.header, item.Clear) → f.invoked = [] → fn.modifiers = [] →
        (functionRole fn = "unrestricted" ↔ f.RoleFree) := by
      intro hitems hnone hnil
      rw [functionRole_of_nil hnil, hdeclaration, execRole_bodyText
        (codeWord_declaration hitems hnone)]
      exact Iff.rfl
    constructor
    · rintro ⟨fn', stop', hparsed', hmodifiers', hrole'⟩
      rw [hparsed, Option.some.injEq, Prod.mk.injEq] at hparsed'
      obtain ⟨rfl, rfl⟩ := hparsed'
      have hitems := hheader.mp (hmodifiers.symm.trans hmodifiers')
      exact ⟨hcut, hitems, fun hnone =>
        (hrole hitems hnone (hmodifiers'.trans hnone)).mp (hrole' hnone)⟩
    · rintro ⟨-, hitems, hfree⟩
      have hinvoked : fn.modifiers = f.invoked := hmodifiers.trans (hheader.mpr hitems)
      exact ⟨fn, stop, hparsed, hinvoked, fun hnone =>
        (hrole hitems hnone (hinvoked.trans hnone)).mpr (hfree hnone)⟩
  exact ⟨fun hclear => (hiff hclear.uncut).mpr hclear, hiff⟩

/-- A hash that is the same for every text. -/
def oneHash (_ : String) : HexText := ⟨[], List.forall_mem_nil _⟩

theorem bodyFree_uint : ∀ w ∈ ["operatorBalance"], BodyFree w := by decide

theorem nested_uint : Nested "(" ")" ["uint256", "operatorBalance"] :=
  nested_of_free (by decide)

/-- `returns (uint256 operatorBalance)`. -/
def namedReturn : ReturnList where
  first := "uint256"
  rest := ["operatorBalance"]
  isName := ⟨rfl, by decide⟩
  nested := nested_uint
  bodyFree := bodyFree_uint

/-- A function without parameters and with no body. -/
def interfaceFunction (name : String) (isName : IsName name) (header : List HeaderItem) :
    FunctionDeclaration where
  kind := .function
  name := name
  parameters := []
  header := header
  body := none
  isName := isName
  nested := nested_noParameters
  lexemes := lexemes_noParameters
  nestedBody := nestedBody_none

/-- `function mint() external onlyOwner;`. -/
def guardedMint : FunctionDeclaration :=
  interfaceFunction "mint" ⟨rfl, by decide⟩
    [.flag "external" (by decide), .invocation ⟨"onlyOwner", [], by decide⟩ none]

/-- Its modifier is extracted. -/
theorem reported_guardedMint : guardedMint.Reported
    (parseFunction oneHash "Token" "token.sol"
      (tokenize "function mint() external onlyOwner;") 0) := by
  have hwords : words (tokenize "function mint() external onlyOwner;") =
      [] ++ guardedMint.words ++ [] := by decide +kernel
  refine (reported_iff_clear guardedMint oneHash "Token" "token.sol" hwords).1 ⟨?_, ?_, ?_⟩
  · rintro ⟨item, hitem, hcut⟩
    simp only [guardedMint, interfaceFunction, List.mem_cons, List.not_mem_nil, or_false] at hitem
    rcases hitem with rfl | rfl
    · exact hcut
    · exact hcut
  · intro item hitem
    simp only [guardedMint, interfaceFunction, List.mem_cons, List.not_mem_nil, or_false] at hitem
    rcases hitem with rfl | rfl
    · trivial
    · rfl
  · intro hnone
    cases hnone

/-- `function release() external returns (uint256 operatorBalance);`. -/
def unguardedRelease : FunctionDeclaration :=
  interfaceFunction "release" ⟨rfl, by decide⟩
    [.flag "external" (by decide), .returns namedReturn]

/-- The names of its return list are taken for modifiers. -/
theorem not_reported_unguardedRelease :
    words (tokenize "function release() external returns (uint256 operatorBalance);") =
      unguardedRelease.words ∧
    ¬ unguardedRelease.Reported (parseFunction oneHash "Token" "token.sol"
      (tokenize "function release() external returns (uint256 operatorBalance);") 0) := by
  refine ⟨by decide +kernel, ?_⟩
  rintro ⟨fn, stop, hparsed, hmodifiers, -⟩
  have htaken : (parseFunction oneHash "Token" "token.sol" (tokenize
      "function release() external returns (uint256 operatorBalance);") 0).map (·.1.modifiers) =
        some ["uint256", "operatorBalance"] := by decide +kernel
  rw [hparsed, Option.map_some, hmodifiers] at htaken
  cases htaken

end HoodSentry
