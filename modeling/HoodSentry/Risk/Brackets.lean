import HoodSentry.Risk.Model.Solidity
/-!
# Matching brackets

Words are nested in a kind of brackets when these match one another within
them. The parser's scans depend on words only: from an opening bracket,
nested words and the closing one, `findMatching` gives the closing one.
-/

namespace HoodSentry

variable {opening closing : String} {ws vs : List String} {tokens ts : List Token} {n : ℕ}

/-! ## Nested words -/

/-- What words add to the depth. -/
def depthSum (opening closing : String) (ws : List String) : ℤ :=
  (ws.map (depthChange opening closing)).sum

@[simp] theorem depthSum_nil : depthSum opening closing [] = 0 := rfl

@[simp] theorem depthSum_cons (w : String) :
    depthSum opening closing (w :: ws) =
      depthChange opening closing w + depthSum opening closing ws := by
  rw [depthSum, List.map_cons, List.sum_cons, depthSum]

@[simp] theorem depthSum_append :
    depthSum opening closing (ws ++ vs) =
      depthSum opening closing ws + depthSum opening closing vs := by
  rw [depthSum, List.map_append, List.sum_append, depthSum, depthSum]

/-- **Words whose brackets match one another.** -/
structure Nested (opening closing : String) (ws : List String) : Prop where
  nonneg : ∀ n, 0 ≤ depthSum opening closing (ws.take n)
  balanced : depthSum opening closing ws = 0

theorem depthChange_of_ne {w : String} (hopen : w ≠ opening) (hclose : w ≠ closing) :
    depthChange opening closing w = 0 := by
  rw [depthChange, if_neg hopen, if_neg hclose, sub_zero]

theorem depthChange_opening (h : opening ≠ closing) : depthChange opening closing opening = 1 := by
  rw [depthChange, if_pos rfl, if_neg h, sub_zero]

theorem depthChange_closing (h : opening ≠ closing) : depthChange opening closing closing = -1 := by
  rw [depthChange, if_neg h.symm, if_pos rfl, zero_sub]

/-- Words without such brackets are nested. -/
theorem nested_of_free (h : ∀ w ∈ ws, w ≠ opening ∧ w ≠ closing) : Nested opening closing ws := by
  have hzero : ∀ l : List String, (∀ w ∈ l, w ≠ opening ∧ w ≠ closing) →
      depthSum opening closing l = 0 := by
    intro l hl
    induction l with
    | nil => rfl
    | cons w l ih =>
      obtain ⟨hw, hrest⟩ := List.forall_mem_cons.mp hl
      rw [depthSum_cons, depthChange_of_ne hw.1 hw.2, ih hrest, add_zero]
  exact ⟨fun n => (hzero _ fun w hw => h w (List.mem_of_mem_take hw)).ge, hzero ws h⟩

theorem Nested.append (h : Nested opening closing ws) (h' : Nested opening closing vs) :
    Nested opening closing (ws ++ vs) := by
  refine ⟨fun n => ?_, ?_⟩
  · rw [List.take_append, depthSum_append]
    exact add_nonneg (h.nonneg n) (h'.nonneg _)
  · rw [depthSum_append, h.balanced, h'.balanced, add_zero]

/-- Words in brackets of the kind are nested again. -/
theorem Nested.wrap (hne : opening ≠ closing) (h : Nested opening closing ws) :
    Nested opening closing (opening :: ws ++ [closing]) := by
  refine ⟨fun n => ?_, ?_⟩
  · cases n with
    | zero => exact le_refl 0
    | succ n =>
      have hws := h.nonneg n
      rw [List.cons_append, List.take_succ_cons, depthSum_cons, depthChange_opening hne,
        List.take_append, depthSum_append]
      have hlast : -1 ≤ depthSum opening closing ([closing].take (n - ws.length)) := by
        cases n - ws.length with
        | zero =>
          rw [List.take_zero, depthSum_nil]
          omega
        | succ k =>
          rw [List.take_succ_cons, depthSum_cons, depthChange_closing hne, List.take_nil,
            depthSum_nil]
          omega
      omega
  · rw [List.cons_append, depthSum_cons, depthSum_append, depthSum_cons, depthSum_nil,
      depthChange_opening hne, depthChange_closing hne, h.balanced]
    decide

/-! ## Words of tokens -/

/-- Tokens of given words. -/
theorem exists_of_words_append (h : words tokens = ws ++ vs) :
    ∃ ts us, tokens = ts ++ us ∧ words ts = ws ∧ words us = vs := by
  obtain ⟨ts, us, htokens, hts, hus⟩ := List.map_eq_append_iff.mp h
  exact ⟨ts, us, htokens, hts, hus⟩

@[simp] theorem words_nil : words [] = [] := rfl

@[simp] theorem words_cons (t : Token) : words (t :: ts) = t.value :: words ts := rfl

@[simp] theorem words_append (us : List Token) : words (ts ++ us) = words ts ++ words us :=
  List.map_append

@[simp] theorem length_words : (words tokens).length = tokens.length := List.length_map _

theorem words_slice (start stop : ℕ) : words (slice tokens start stop) =
    slice (words tokens) start stop := by
  rw [slice, slice, words, words, List.map_drop, List.map_take]

/-- The words between two places. -/
theorem slice_append {before middle after : List String} :
    slice (before ++ middle ++ after) before.length (before.length + middle.length) = middle := by
  rw [slice, ← List.length_append, List.take_left, List.drop_left]

/-! ## Scans -/

/-- **A scan through words at a positive depth.** -/
theorem findMatchingFrom_append {depth : ℤ}
    (h : ∀ n, 0 < depth + depthSum opening closing ((words ts).take n)) (rest : List Token) :
    findMatchingFrom opening closing depth (ts ++ rest) =
      (findMatchingFrom opening closing (depth + depthSum opening closing (words ts)) rest).map
        (· + ts.length) := by
  induction ts generalizing depth with
  | nil => simp
  | cons t ts ih =>
    have hstep : depth + depthChange opening closing t.value ≠ 0 := by
      have hone := h 1
      rw [words_cons, List.take_succ_cons, List.take_zero, depthSum_cons, depthSum_nil,
        add_zero] at hone
      omega
    have hrest : ∀ n, 0 < depth + depthChange opening closing t.value +
        depthSum opening closing ((words ts).take n) := by
      intro n
      have hsucc := h (n + 1)
      rw [words_cons, List.take_succ_cons, depthSum_cons] at hsucc
      omega
    rw [List.cons_append, findMatchingFrom, if_neg hstep, ih hrest, words_cons, depthSum_cons, add_assoc, Option.map_map,
      List.length_cons]
    rfl

/-- **Brackets around nested words match.** -/
theorem findMatchingFrom_group (hne : opening ≠ closing) {first last : Token} {rest : List Token}
    (hfirst : first.value = opening) (hlast : last.value = closing)
    (h : Nested opening closing (words ts)) :
    findMatchingFrom opening closing 0 (first :: (ts ++ last :: rest)) = some (ts.length + 1) := by
  have hstart : (0 : ℤ) + depthChange opening closing first.value = 1 := by
    rw [hfirst, depthChange_opening hne]
    rfl
  have hinside : ∀ n, 0 < (1 : ℤ) + depthSum opening closing ((words ts).take n) := by
    intro n
    have hnonneg := h.nonneg n
    omega
  rw [findMatchingFrom, hstart, if_neg one_ne_zero, findMatchingFrom_append hinside, h.balanced,
    findMatchingFrom, hlast, depthChange_closing hne, if_pos (by omega)]
  simp

/-- **A scan that falls to depth zero stops**, by one step at a time. -/
theorem findMatchingFrom_isSome {depth : ℤ} (hpos : 0 < depth)
    (hfall : depth + depthSum opening closing (words ts) ≤ 0) (rest : List Token) :
    (findMatchingFrom opening closing depth (ts ++ rest)).isSome := by
  induction ts generalizing depth with
  | nil =>
    rw [words_nil, depthSum_nil, add_zero] at hfall
    omega
  | cons t ts ih =>
    have hstep : -1 ≤ depthChange opening closing t.value := by
      rw [depthChange]
      split <;> split <;> omega
    rw [words_cons, depthSum_cons] at hfall
    rw [List.cons_append, findMatchingFrom]
    by_cases hzero : depth + depthChange opening closing t.value = 0
    · rw [if_pos hzero]
      rfl
    · rw [if_neg hzero, Option.isSome_map]
      exact ih (by omega) (by omega)

/-- What is found is found whatever follows, at depth zero. -/
theorem findMatchingFrom_found {depth : ℤ}
    (h : findMatchingFrom opening closing depth ts = some n) :
    n < ts.length ∧ depth + depthSum opening closing ((words ts).take (n + 1)) = 0 ∧
      ∀ rest, findMatchingFrom opening closing depth (ts ++ rest) = some n := by
  induction ts generalizing depth n with
  | nil => cases h
  | cons t ts ih =>
    rw [findMatchingFrom] at h
    by_cases hzero : depth + depthChange opening closing t.value = 0
    · rw [if_pos hzero] at h
      obtain rfl : 0 = n := Option.some.inj h
      refine ⟨Nat.succ_pos _, ?_, fun rest => ?_⟩
      · rw [words_cons, List.take_succ_cons, List.take_zero, depthSum_cons, depthSum_nil, add_zero,
          hzero]
      · rw [List.cons_append, findMatchingFrom, if_pos hzero]
    · rw [if_neg hzero] at h
      obtain ⟨m, hm, rfl⟩ := Option.map_eq_some_iff.mp h
      obtain ⟨hlt, hdepth, hrest⟩ := ih hm
      refine ⟨Nat.succ_lt_succ hlt, ?_, fun rest => ?_⟩
      · rw [words_cons, List.take_succ_cons, depthSum_cons, ← add_assoc, hdepth]
      · rw [List.cons_append, findMatchingFrom, if_neg hzero, hrest, Option.map_some]

/-- So an opening bracket among nested words has its closing one. -/
theorem findMatching_isSome (hne : opening ≠ closing) {before a b after : List String}
    (hwords : words tokens = before ++ a ++ opening :: (b ++ after))
    (h : Nested opening closing (a ++ opening :: b)) :
    (findMatching tokens (before ++ a).length opening closing).isSome := by
  have hdrop : words (tokens.drop (before ++ a).length) = opening :: (b ++ after) := by
    rw [words, List.map_drop]
    change (words tokens).drop _ = _
    rw [hwords, List.drop_left]
  obtain ⟨first, tail, hfirst, hopen, htail⟩ := List.map_eq_cons_iff.mp hdrop
  obtain ⟨ts, us, rfl, rfl, -⟩ := exists_of_words_append htail
  have hfall : (1 : ℤ) + depthSum opening closing (words ts) ≤ 0 := by
    have hbefore := h.nonneg a.length
    have hall := h.balanced
    rw [List.take_left] at hbefore
    rw [depthSum_append, depthSum_cons, depthChange_opening hne] at hall
    omega
  rw [findMatching, hfirst, Option.isSome_map, findMatchingFrom, hopen, depthChange_opening hne,
    if_neg (by omega), Option.isSome_map]
  exact findMatchingFrom_isSome (by omega) (by omega) us

theorem drop_of_words {before : List String} (h : words tokens = before ++ ws) :
    words (tokens.drop before.length) = ws := by
  rw [words, List.map_drop]
  change (words tokens).drop before.length = ws
  rw [h, List.drop_left]

/-- And `findMatching` finds the closing one. -/
theorem findMatching_of_words (hne : opening ≠ closing) {before after : List String}
    (hwords : words tokens = before ++ opening :: (ws ++ closing :: after))
    (h : Nested opening closing ws) :
    findMatching tokens before.length opening closing = some (before.length + ws.length + 1) := by
  have hdrop := drop_of_words hwords
  obtain ⟨first, tail, hfirst, hopen, htail⟩ := List.map_eq_cons_iff.mp hdrop
  obtain ⟨ts, us, rfl, rfl, hus⟩ := exists_of_words_append htail
  obtain ⟨last, rest, rfl, hclose, -⟩ := List.map_eq_cons_iff.mp hus
  rw [findMatching, hfirst, findMatchingFrom_group hne hopen hclose h, Option.map_some,
    length_words]
  rfl

/-- **Waiting for a word**: the scan stops at the first of them. -/
theorem waitFor_of_words {before after stops : List String} {w : String}
    (hwords : words tokens = before ++ (ws ++ w :: after)) (hw : w ∈ stops)
    (hws : ∀ v ∈ ws, v ∉ stops) :
    waitFor tokens before.length stops = before.length + ws.length := by
  have hdrop := drop_of_words hwords
  obtain ⟨ts, us, hsplit, rfl, hus⟩ := exists_of_words_append hdrop
  obtain ⟨stop, rest, rfl, rfl, -⟩ := List.map_eq_cons_iff.mp hus
  have hfree : ts.findIdx (fun token => stops.contains token.value) = ts.length := by
    refine List.findIdx_eq_length_of_false fun t ht => ?_
    rw [← Bool.not_eq_true, List.contains_iff_mem]
    exact hws t.value (List.mem_map_of_mem ht)
  have hstop : stops.contains stop.value = true := List.contains_iff_mem.mpr hw
  rw [waitFor, hsplit, List.findIdx_append, hfree, if_neg (Nat.lt_irrefl _), List.findIdx_cons,
    hstop, cond_true, length_words, Nat.zero_add]

theorem wordAt_of_words {before after : List String} {w : String}
    (hwords : words tokens = before ++ w :: after) :
    wordAt tokens before.length = some w := by
  rw [wordAt, hwords, List.getElem?_append_right (Nat.le_refl _), Nat.sub_self]
  rfl

/-! ## What a scan has found -/

theorem depthChange_bounds (w : String) :
    -1 ≤ depthChange opening closing w ∧
      (depthChange opening closing w = -1 → w = closing) := by
  rw [depthChange]
  split <;> split
  · exact ⟨by omega, fun _ => ‹w = closing›⟩
  · exact ⟨by omega, fun h => absurd h (by omega)⟩
  · exact ⟨by omega, fun _ => ‹w = closing›⟩
  · exact ⟨by omega, fun h => absurd h (by omega)⟩

/-- A scan from a positive depth stops at a closing bracket, the first that
takes the depth to zero. -/
theorem exists_of_findMatchingFrom {depth : ℤ} (hpos : 0 < depth)
    (h : findMatchingFrom opening closing depth tokens = some n) :
    ∃ inner after, words tokens = inner ++ closing :: after ∧ inner.length = n ∧
      depth + depthSum opening closing inner = 1 ∧
      ∀ k, 0 < depth + depthSum opening closing (inner.take k) := by
  induction tokens generalizing depth n with
  | nil => cases h
  | cons t ts ih =>
    obtain ⟨hge, hclosing⟩ := @depthChange_bounds opening closing t.value
    rw [findMatchingFrom] at h
    by_cases hzero : depth + depthChange opening closing t.value = 0
    · rw [if_pos hzero] at h
      obtain rfl : 0 = n := Option.some.inj h
      have hvalue := hclosing (by omega)
      refine ⟨[], words ts, ?_, rfl, ?_, fun k => ?_⟩
      · rw [words_cons, hvalue, List.nil_append]
      · rw [depthSum_nil]
        omega
      · rw [List.take_nil, depthSum_nil]
        omega
    · rw [if_neg hzero] at h
      obtain ⟨m, hm, rfl⟩ := Option.map_eq_some_iff.mp h
      obtain ⟨inner, after, hwords, hlength, hsum, hinside⟩ := ih (by omega) hm
      refine ⟨t.value :: inner, after, ?_, ?_, ?_, fun k => ?_⟩
      · rw [words_cons, hwords, List.cons_append]
      · rw [List.length_cons, hlength]
      · rw [depthSum_cons, ← add_assoc, hsum]
      · cases k with
        | zero =>
          rw [List.take_zero, depthSum_nil]
          omega
        | succ k =>
          rw [List.take_succ_cons, depthSum_cons, ← add_assoc]
          exact hinside k

/-- **What `findMatching` finds closes nested words.** -/
theorem exists_nested_of_findMatching (hne : opening ≠ closing) {before after : List String}
    {stop : ℕ} (hwords : words tokens = before ++ opening :: after)
    (h : findMatching tokens before.length opening closing = some stop) :
    ∃ inner rest, after = inner ++ closing :: rest ∧ Nested opening closing inner ∧
      stop = before.length + inner.length + 1 := by
  have hdrop := drop_of_words hwords
  obtain ⟨first, tail, hfirst, hopen, htail⟩ := List.map_eq_cons_iff.mp hdrop
  rw [findMatching, hfirst, findMatchingFrom, hopen, depthChange_opening hne,
    if_neg (by omega)] at h
  obtain ⟨m, hm, rfl⟩ := Option.map_eq_some_iff.mp h
  obtain ⟨n, hn, rfl⟩ := Option.map_eq_some_iff.mp hm
  obtain ⟨inner, rest, hinner, hlength, hsum, hinside⟩ :=
    exists_of_findMatchingFrom (by omega) hn
  refine ⟨inner, rest, ?_, ⟨fun k => ?_, by omega⟩, by omega⟩
  · rw [← htail]
    exact hinner
  · have hk := hinside k
    omega

/-- **Where a loop that waits for words stops**: at the first of them, or at
the end. -/
theorem exists_waitFor {before after : List String} (hwords : words tokens = before ++ after)
    (stops : List String) :
    ∃ skipped rest, after = skipped ++ rest ∧ (∀ w ∈ skipped, w ∉ stops) ∧
      waitFor tokens before.length stops = before.length + skipped.length ∧
      (rest = [] ∨ ∃ w behind, rest = w :: behind ∧ w ∈ stops) := by
  have hdrop := drop_of_words hwords
  refine ⟨after.takeWhile (fun w => !stops.contains w), after.dropWhile (fun w => !stops.contains w),
    List.takeWhile_append_dropWhile.symm, fun w hw hstop => ?_, ?_, ?_⟩
  · have hfree := List.mem_takeWhile_imp hw
    rw [List.contains_iff_mem.mpr hstop] at hfree
    cases hfree
  · have hskipped : (after.takeWhile fun w => !stops.contains w).length =
        (tokens.drop before.length).findIdx fun token => stops.contains token.value := by
      rw [← hdrop, words, List.takeWhile_map, List.length_map]
      change List.length ((tokens.drop before.length).takeWhile fun token =>
        !stops.contains token.value) = _
      rw [List.takeWhile_eq_take_findIdx_not, List.length_take,
        Nat.min_eq_left List.findIdx_le_length]
      simp only [Bool.not_not]
    rw [waitFor, hskipped]
  · cases hrest : after.dropWhile (fun w => !stops.contains w) with
    | nil => exact .inl rfl
    | cons w behind =>
      refine .inr ⟨w, behind, rfl, ?_⟩
      have hhead := List.head?_dropWhile_not (fun w => !stops.contains w) after
      rw [hrest, List.head?_cons] at hhead
      simpa using hhead

end HoodSentry
