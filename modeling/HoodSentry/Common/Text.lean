import Mathlib
/-!
# Strings as sequences of UTF-16 units

JavaScript compares strings by their UTF-16 code units, so that a character
outside the basic plane, which is two surrogates, comes before the last ones
of the plane. `utf16` is a string's units; the order is the lexicographic one
on them, and is a linear order since no two strings have the same
(`utf16_injective`).
-/

namespace HoodSentry

/-- The code units of a character: itself, or its two surrogates. -/
def codeUnits (c : Char) : List ℕ :=
  if c.toNat < 0x10000 then [c.toNat]
  else [0xD800 + (c.toNat - 0x10000) / 0x400, 0xDC00 + (c.toNat - 0x10000) % 0x400]

def utf16 (s : String) : List ℕ := s.toList.flatMap codeUnits

/-- `left < right`. -/
def textLt (left right : String) : Bool := decide (utf16 left < utf16 right)

theorem toNat_valid (c : Char) : c.toNat < 0xD800 ∨ 0xDFFF < c.toNat ∧ c.toNat < 0x110000 := c.valid

/-- The units of a character are a prefix code: what follows them says
nothing about them. -/
theorem codeUnits_append {c d : Char} {l m : List ℕ} (h : codeUnits c ++ l = codeUnits d ++ m) :
    c = d ∧ l = m := by
  have hc := toNat_valid c
  have hd := toNat_valid d
  unfold codeUnits at h
  split at h <;> split at h
  · simp only [List.cons_append, List.nil_append, List.cons.injEq] at h
    exact ⟨Char.toNat_inj.mp h.1, h.2⟩
  · simp only [List.cons_append, List.nil_append, List.cons.injEq] at h
    omega
  · simp only [List.cons_append, List.nil_append, List.cons.injEq] at h
    omega
  · simp only [List.cons_append, List.nil_append, List.cons.injEq] at h
    exact ⟨Char.toNat_inj.mp (by omega), h.2.2⟩

theorem flatMap_codeUnits_injective : ∀ {s t : List Char},
    s.flatMap codeUnits = t.flatMap codeUnits → s = t := by
  have hne : ∀ c : Char, codeUnits c ≠ [] := by
    intro c
    unfold codeUnits
    split <;> simp
  intro s
  induction s with
  | nil =>
    intro t h
    cases t with
    | nil => rfl
    | cons d t => exact absurd (List.append_eq_nil_iff.mp h.symm).1 (hne d)
  | cons c s ih =>
    intro t h
    cases t with
    | nil => exact absurd (List.append_eq_nil_iff.mp h).1 (hne c)
    | cons d t =>
      obtain ⟨rfl, hrest⟩ := codeUnits_append h
      rw [ih hrest]

/-- **No two strings have the same units.** -/
theorem utf16_injective : Function.Injective utf16 := fun _ _ h =>
  String.toList_injective (flatMap_codeUnits_injective h)

/-! ## Letter case -/

/-- An upper case letter is 32 before its lower case. -/
theorem toNat_toLower {c : Char} (h : c.val ≥ 'A'.val ∧ c.val ≤ 'Z'.val) :
    c.toLower.toNat = c.toNat + 32 := by
  have h2 : c.toNat ≤ 90 := UInt32.le_iff_toNat_le.mp h.2
  have hlower : c.toLower = ⟨c.val + ('a'.val - 'A'.val), _⟩ := dif_pos h
  rw [hlower]
  show (c.toNat + 32) % 4294967296 = _
  exact Nat.mod_eq_of_lt (by omega)

theorem toLower_of_not_upper {c : Char} (h : ¬(c.val ≥ 'A'.val ∧ c.val ≤ 'Z'.val)) :
    c.toLower = c := dif_neg h

/-- No upper case letter becomes a character before the letters. -/
theorem toLower_eq_iff {c x : Char} (h : x.toNat < 65) : c.toLower = x ↔ c = x := by
  by_cases hupper : c.val ≥ 'A'.val ∧ c.val ≤ 'Z'.val
  · have h1 : 65 ≤ c.toNat := UInt32.le_iff_toNat_le.mp hupper.1
    have hlower := toNat_toLower hupper
    constructor
    · rintro rfl
      omega
    · rintro rfl
      omega
  · rw [toLower_of_not_upper hupper]

/-! ## Trimming -/

/-- What `trim` takes off: white space and line terminators. -/
def isBlank (c : Char) : Bool :=
  (0x9 ≤ c.toNat && c.toNat ≤ 0xD) || (0x2000 ≤ c.toNat && c.toNat ≤ 0x200A) ||
    [0x20, 0xA0, 0x1680, 0x2028, 0x2029, 0x202F, 0x205F, 0x3000, 0xFEFF].contains c.toNat

def trim (s : String) : String :=
  String.ofList ((s.toList.dropWhile isBlank).rdropWhile isBlank)

/-- What was trimmed stays as it is. -/
theorem trim_trim (s : String) : trim (trim s) = trim s := by
  have hhead : ((s.toList.dropWhile isBlank).rdropWhile isBlank).dropWhile isBlank =
      (s.toList.dropWhile isBlank).rdropWhile isBlank := by
    -- what is left of a list that begins with no blank begins with none
    obtain ⟨t, ht⟩ := List.rdropWhile_prefix isBlank (l := s.toList.dropWhile isBlank)
    cases hl : (s.toList.dropWhile isBlank).rdropWhile isBlank with
    | nil => rfl
    | cons c l =>
      rw [hl] at ht
      have hne : s.toList.dropWhile isBlank ≠ [] := by rw [← ht]; simp
      have hfirst : isBlank c = false := by
        simpa only [← ht, List.cons_append, List.head_cons] using List.head_dropWhile_not isBlank hne
      rw [List.dropWhile_cons_of_neg (by rw [hfirst]; simp)]
  unfold trim
  rw [String.toList_ofList, hhead, List.rdropWhile_idempotent]

end HoodSentry

/-!
## Lists joined by a separator

A list of texts is recovered from its join as soon as none of them contains
the separator, and it is enough to know that of one of two lists of equal
length: the join then holds no separator that the other's texts could hide.
-/

namespace HoodSentry

section Lists

variable {α : Type*} [DecidableEq α] {sep : α} {xs ys : List (List α)}

theorem count_intercalate (sep : α) (xs : List (List α)) :
    ([sep].intercalate xs).count sep = (xs.map (List.count sep)).sum + (xs.length - 1) := by
  induction xs with
  | nil => rfl
  | cons x xs ih =>
    cases xs with
    | nil => simp
    | cons y ys =>
      rw [List.intercalate_cons_cons, List.count_append, List.count_append, ih]
      simp only [List.map_cons, List.sum_cons, List.length_cons, List.count_singleton_self]
      omega

/-- The other list of the same join and length is free of the separator too. -/
theorem free_of_intercalate_eq (hfree : ∀ x ∈ xs, sep ∉ x) (hlength : xs.length = ys.length)
    (h : [sep].intercalate xs = [sep].intercalate ys) : ∀ y ∈ ys, sep ∉ y := by
  have hcount : (xs.map (List.count sep)).sum = (ys.map (List.count sep)).sum := by
    have hjoined := congrArg (List.count sep) h
    rw [count_intercalate, count_intercalate] at hjoined
    omega
  have hnone : (xs.map (List.count sep)).sum = 0 := by
    refine List.sum_eq_zero fun n hn => ?_
    obtain ⟨x, hx, rfl⟩ := List.mem_map.mp hn
    exact List.count_eq_zero_of_not_mem (hfree x hx)
  intro y hy
  have hzero : List.count sep y = 0 := by
    have hle := List.le_sum_of_mem (List.mem_map_of_mem (f := List.count sep) hy)
    omega
  exact List.count_eq_zero.mp hzero

theorem intercalate_inj (hfree : ∀ x ∈ xs, sep ∉ x) (hlength : xs.length = ys.length)
    (h : [sep].intercalate xs = [sep].intercalate ys) : xs = ys := by
  have hfree' := free_of_intercalate_eq hfree hlength h
  cases xs with
  | nil => exact (List.length_eq_zero_iff.mp hlength.symm).symm
  | cons x xs =>
    have hne : ys ≠ [] := fun hnil => by
      rw [hnil, List.length_cons, List.length_nil] at hlength
      omega
    rw [← List.splitOn_intercalate sep hfree (List.cons_ne_nil x xs), h,
      List.splitOn_intercalate sep hfree' hne]

/-- Two lists free of the separator need not be known to be as long. -/
theorem intercalate_inj_of_free (hxs : xs ≠ []) (hys : ys ≠ []) (hfree : ∀ x ∈ xs, sep ∉ x)
    (hfree' : ∀ y ∈ ys, sep ∉ y) (h : [sep].intercalate xs = [sep].intercalate ys) : xs = ys := by
  rw [← List.splitOn_intercalate sep hfree hxs, h, List.splitOn_intercalate sep hfree' hys]

/-- What a split leaves are pieces of the list, free of the separator. -/
theorem of_mem_splitOn {l w : List α} (h : w ∈ l.splitOn sep) : sep ∉ w ∧ ∀ c ∈ w, c ∈ l := by
  rw [List.splitOn_eq_splitOnP] at h
  induction l generalizing w with
  | nil =>
    rw [List.splitOnP_nil, List.mem_singleton] at h
    subst h
    exact ⟨List.not_mem_nil, fun c hc => hc⟩
  | cons a l ih =>
    rw [List.splitOnP_cons_eq_if_modifyHead] at h
    have hlater : ∀ w ∈ l.splitOnP (· == sep), sep ∉ w ∧ ∀ c ∈ w, c ∈ a :: l :=
      fun w hw => ⟨(ih hw).1, fun c hc => List.mem_cons_of_mem a ((ih hw).2 c hc)⟩
    split at h
    · rcases List.mem_cons.mp h with rfl | h
      · exact ⟨List.not_mem_nil, fun c hc => absurd hc List.not_mem_nil⟩
      · exact hlater w h
    · rename_i hsep
      cases hwords : l.splitOnP (· == sep) with
      | nil =>
        rw [hwords] at h
        cases h
      | cons first rest =>
        rw [hwords, List.modifyHead_cons, List.mem_cons] at h
        rcases h with rfl | h
        · have hfirst := hlater first (hwords ▸ List.mem_cons_self)
          refine ⟨fun hmem => ?_, fun c hc => ?_⟩
          · rcases List.mem_cons.mp hmem with heq | hmem
            · exact hsep (by rw [heq]; exact beq_self_eq_true a)
            · exact hfirst.1 hmem
          · rcases List.mem_cons.mp hc with rfl | hc
            · exact List.mem_cons_self
            · exact hfirst.2 c hc
        · exact hlater w (hwords ▸ List.mem_cons_of_mem first h)

end Lists

/-! ## Joined texts -/

section Texts

variable {sep : Char} {xs ys : List String}

/-- The texts of a list joined, as `Array.prototype.join` joins them. -/
def joinTexts (sep : Char) (xs : List String) : String := (String.singleton sep).intercalate xs

theorem toList_joinTexts : (joinTexts sep xs).toList = [sep].intercalate (xs.map String.toList) := by
  unfold joinTexts
  rw [String.toList_intercalate, String.toList_singleton]

theorem free_toList (hfree : ∀ x ∈ xs, sep ∉ x.toList) : ∀ l ∈ xs.map String.toList, sep ∉ l := by
  intro l hl
  obtain ⟨t, ht, rfl⟩ := List.mem_map.mp hl
  exact hfree t ht

theorem map_toList_inj (h : xs.map String.toList = ys.map String.toList) : xs = ys :=
  List.map_injective_iff.mpr (fun _ _ => String.toList_inj.mp) h

/-- **A join determines its texts**, when one list is free of the separator
and the two have as many. -/
theorem joinTexts_inj (hfree : ∀ x ∈ xs, sep ∉ x.toList) (hlength : xs.length = ys.length)
    (h : joinTexts sep xs = joinTexts sep ys) : xs = ys := by
  refine map_toList_inj (intercalate_inj (free_toList hfree) ?_ ?_)
  · rw [List.length_map, List.length_map, hlength]
  · rw [← toList_joinTexts, h, toList_joinTexts]

/-- And when both are. -/
theorem joinTexts_inj_of_free (hxs : xs ≠ []) (hys : ys ≠ []) (hfree : ∀ x ∈ xs, sep ∉ x.toList)
    (hfree' : ∀ y ∈ ys, sep ∉ y.toList) (h : joinTexts sep xs = joinTexts sep ys) : xs = ys := by
  refine map_toList_inj (intercalate_inj_of_free ?_ ?_ (free_toList hfree) (free_toList hfree') ?_)
  · exact fun hnil => hxs (List.map_eq_nil_iff.mp hnil)
  · exact fun hnil => hys (List.map_eq_nil_iff.mp hnil)
  · rw [← toList_joinTexts, h, toList_joinTexts]

end Texts

/-- `includes` of a string. -/
def includes (text part : String) : Bool := decide (part.toList <:+: text.toList)

end HoodSentry
