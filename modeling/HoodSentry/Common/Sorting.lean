import Mathlib
/-!
# Sorting by insertion

What a stable sort gives does not depend on the order of a list whose
elements the order tells apart. Where it does not tell them apart, the
earlier one stays first: an element before all the others comes first if it
stands first, and one after all the others comes last if it stands last.
-/

namespace HoodSentry

universe u

variable {α : Type u} {r : α → α → Prop} [DecidableRel r] {a b : α} {l l' : List α}

/-- **The order of the list does not count** where the sort tells its
elements apart. -/
theorem insertionSort_eq_of_perm [IsTrans α r] [Std.Total r] (hperm : l'.Perm l)
    (hanti : ∀ a ∈ l, ∀ b ∈ l, r a b → r b a → a = b) :
    l'.insertionSort r = l.insertionSort r := by
  refine List.Perm.eq_of_pairwise ?_ (List.pairwise_insertionSort r l')
    (List.pairwise_insertionSort r l)
    ((List.perm_insertionSort r l').trans (hperm.trans (List.perm_insertionSort r l).symm))
  intro a b ha hb
  exact hanti a (hperm.mem_iff.mp ((List.mem_insertionSort r).mp ha)) b
    ((List.mem_insertionSort r).mp hb)

/-- An element before all the others, where it stands first. -/
theorem insertionSort_cons_of_forall (h : ∀ b ∈ l, r a b) :
    (a :: l).insertionSort r = a :: l.insertionSort r := by
  rw [List.insertionSort_cons]
  cases hsorted : l.insertionSort r with
  | nil => rfl
  | cons b sorted =>
    have hb : b ∈ l := (List.mem_insertionSort r).mp (hsorted ▸ List.mem_cons_self)
    exact List.orderedInsert_cons_of_le r sorted (h b hb)

/-- An insertion before the last element. -/
theorem orderedInsert_concat (h : r b a) :
    (l ++ [a]).orderedInsert r b = l.orderedInsert r b ++ [a] := by
  induction l with
  | nil => exact List.orderedInsert_cons_of_le r [] h
  | cons c l ih =>
    by_cases hbc : r b c
    · rw [List.cons_append, List.orderedInsert_cons_of_le r _ hbc,
        List.orderedInsert_cons_of_le r _ hbc]
      rfl
    · rw [List.cons_append, List.orderedInsert_of_not_le r _ hbc,
        List.orderedInsert_of_not_le r _ hbc, ih]
      rfl

/-- An element after all the others, where it stands last. -/
theorem insertionSort_concat_of_forall (h : ∀ b ∈ l, r b a) :
    (l ++ [a]).insertionSort r = l.insertionSort r ++ [a] := by
  induction l with
  | nil => rfl
  | cons b l ih =>
    rw [List.cons_append, List.insertionSort_cons, List.insertionSort_cons,
      ih fun c hc => h c (List.mem_cons_of_mem b hc),
      orderedInsert_concat (h b List.mem_cons_self)]

/-- **A stable sort** leaves what it does not tell apart in the order it had. -/
theorem pairwise_insertionSort_stable [IsTrans α r] [Std.Total r] {s : α → α → Prop}
    (h : l.Pairwise s) : (l.insertionSort r).Pairwise fun a b => r a b ∧ (r b a → s a b) := by
  induction l with
  | nil => exact List.Pairwise.nil
  | cons a l ih =>
    obtain ⟨ha, hl⟩ := List.pairwise_cons.mp h
    have hbehind : ∀ b ∈ l.insertionSort r, s a b := fun b hb =>
      ha b ((List.mem_insertionSort r).mp hb)
    have hsorted := ih hl
    rw [List.insertionSort_cons]
    revert hbehind hsorted
    generalize l.insertionSort r = sorted
    intro hbehind hsorted
    induction sorted with
    | nil => exact List.pairwise_singleton _ _
    | cons b sorted ih =>
      obtain ⟨hb, hrest⟩ := List.pairwise_cons.mp hsorted
      by_cases hab : r a b
      · rw [List.orderedInsert_cons_of_le r _ hab]
        refine List.pairwise_cons.mpr ⟨fun c hc => ⟨?_, fun _ => hbehind c hc⟩, hsorted⟩
        rcases List.mem_cons.mp hc with rfl | hc
        · exact hab
        · exact IsTrans.trans _ _ _ hab (hb c hc).1
      · rw [List.orderedInsert_of_not_le r _ hab]
        refine List.pairwise_cons.mpr ⟨fun c hc => ?_,
          ih (fun c hc => hbehind c (List.mem_cons_of_mem _ hc)) hrest⟩
        rcases List.mem_cons.mp ((List.perm_orderedInsert r a sorted).mem_iff.mp hc) with rfl | hc
        · exact ⟨(Std.Total.total c b).resolve_left hab, fun h => absurd h hab⟩
        · exact hb c hc

/-- What comes first is before all. -/
theorem forall_of_head?_insertionSort [IsTrans α r] [Std.Total r]
    (h : (l.insertionSort r).head? = some a) : a ∈ l ∧ ∀ b ∈ l, r a b := by
  have hpairwise := List.pairwise_insertionSort r l
  cases hsorted : l.insertionSort r with
  | nil =>
    rw [hsorted] at h
    cases h
  | cons c sorted =>
    rw [hsorted, List.head?_cons, Option.some.injEq] at h
    subst h
    rw [hsorted] at hpairwise
    refine ⟨(List.mem_insertionSort r).mp (hsorted ▸ List.mem_cons_self), fun b hb => ?_⟩
    have hb' : b ∈ c :: sorted := hsorted ▸ (List.mem_insertionSort r).mpr hb
    rcases List.mem_cons.mp hb' with rfl | hb'
    · exact Std.Total.total b b |>.elim id id
    · exact List.rel_of_pairwise_cons hpairwise hb'

/-- What comes last is after all. -/
theorem forall_of_getLast?_insertionSort [IsTrans α r] [Std.Total r]
    (h : (l.insertionSort r).getLast? = some a) : a ∈ l ∧ ∀ b ∈ l, r b a := by
  have hpairwise := List.pairwise_insertionSort r l
  obtain ⟨sorted, hsorted⟩ := List.getLast?_eq_some_iff.mp h
  rw [hsorted] at hpairwise
  refine ⟨(List.mem_insertionSort r).mp (hsorted ▸ List.mem_append_right _ List.mem_cons_self),
    fun b hb => ?_⟩
  have hb' : b ∈ sorted ++ [a] := hsorted ▸ (List.mem_insertionSort r).mpr hb
  rcases List.mem_append.mp hb' with hb' | hb'
  · exact (List.pairwise_append.mp hpairwise).2.2 b hb' a List.mem_cons_self
  · rw [List.mem_singleton.mp hb']
    exact Std.Total.total a a |>.elim id id

end HoodSentry

/-!
## Sorting by several keys

A comparator gives a number of which only the sign counts. It is lawful where
comparing the other way turns the sign around and what is not after something
is not after what that is not after. Comparing by nullable keys in turn, the
null ones last, and breaking ties keeps this (`lawful_byKeys`), so a list whose
elements the tie-break tells apart has one ranking.
-/

namespace HoodSentry

universe u v

/-- A function for `sort`: negative where the first goes before the second. -/
abbrev Comparator (α : Type u) := α → α → ℤ

namespace Comparator

variable {α : Type u} {β : Type v} {cmp next : Comparator α} {a b c : α}

/-- **The laws a sort relies on.** -/
structure Lawful (cmp : Comparator α) : Prop where
  swap : ∀ a b, 0 < cmp a b ↔ cmp b a < 0
  trans : ∀ a b c, cmp a b ≤ 0 → cmp b c ≤ 0 → cmp a c ≤ 0

theorem Lawful.refl (h : cmp.Lawful) (a : α) : cmp a a = 0 := by
  have := h.swap a a
  omega

theorem Lawful.eq_zero_comm (h : cmp.Lawful) : cmp a b = 0 ↔ cmp b a = 0 := by
  have hab := h.swap a b
  have hba := h.swap b a
  omega

/-- Of two elements compared equal each is after what the other is after. -/
theorem Lawful.neg_trans (h : cmp.Lawful) (hab : cmp a b ≤ 0) (hbc : cmp b c ≤ 0)
    (hstrict : cmp a b < 0 ∨ cmp b c < 0) : cmp a c < 0 := by
  have hac := h.trans a b c hab hbc
  by_contra hzero
  have hca : cmp c a ≤ 0 := by
    have := h.swap a c
    have := h.swap c a
    omega
  rcases hstrict with hlt | hlt
  · have hba := h.trans b c a hbc hca
    have := h.swap b a
    omega
  · have hcb := h.trans c a b hca hab
    have := h.swap c b
    omega

theorem Lawful.total (h : cmp.Lawful) (a b : α) : cmp a b ≤ 0 ∨ cmp b a ≤ 0 := by
  have := h.swap a b
  omega

/-! ## Comparators from others -/

/-- Compare by a field. -/
def comap (f : α → β) (cmp : Comparator β) : Comparator α := fun a b => cmp (f a) (f b)

theorem lawful_comap {f : α → β} {cmp : Comparator β} (h : cmp.Lawful) : (comap f cmp).Lawful :=
  ⟨fun a b => h.swap (f a) (f b), fun a b c => h.trans (f a) (f b) (f c)⟩

/-- `left || right`: the second comparator where the first gives zero. -/
def orElse (cmp next : Comparator α) : Comparator α :=
  fun a b => if cmp a b ≠ 0 then cmp a b else next a b

theorem lawful_orElse (h : cmp.Lawful) (hnext : next.Lawful) : (orElse cmp next).Lawful := by
  constructor
  · intro a b
    have hswap := h.swap a b
    have hcomm := @Lawful.eq_zero_comm _ _ a b h
    have hnextSwap := hnext.swap a b
    unfold orElse
    split_ifs <;> omega
  · intro a b c hab hbc
    unfold orElse at *
    by_cases hzero : cmp a b = 0 ∧ cmp b c = 0
    · -- the next comparator decides all three
      have hac : cmp a c = 0 := by
        have hle := h.trans a b c hzero.1.le hzero.2.le
        have hge := h.trans c b a (h.eq_zero_comm.mp hzero.2).le (h.eq_zero_comm.mp hzero.1).le
        have := h.swap a c
        have := h.swap c a
        omega
      rw [if_neg (not_not_intro hac)]
      rw [if_neg (not_not_intro hzero.1)] at hab
      rw [if_neg (not_not_intro hzero.2)] at hbc
      exact hnext.trans a b c hab hbc
    · have hfirst : cmp a b ≤ 0 := by
        split_ifs at hab <;> omega
      have hsecond : cmp b c ≤ 0 := by
        split_ifs at hbc <;> omega
      have hlt := h.neg_trans hfirst hsecond (by omega)
      rw [if_pos (by omega)]
      exact hlt.le

/-- Null after everything else. -/
def nullsLast (cmp : Comparator β) : Comparator (Option β)
  | none, none => 0
  | none, some _ => 1
  | some _, none => -1
  | some a, some b => cmp a b

theorem lawful_nullsLast {cmp : Comparator β} (h : cmp.Lawful) : (nullsLast cmp).Lawful := by
  constructor
  · intro a b
    cases a with
    | none => cases b <;> simp [nullsLast]
    | some a =>
      cases b with
      | none => simp [nullsLast]
      | some b => exact h.swap a b
  · intro a b c hab hbc
    cases a with
    | none =>
      cases b with
      | none => exact hbc
      | some b => exact absurd hab (by simp [nullsLast])
    | some a =>
      cases c with
      | none => simp [nullsLast]
      | some c =>
        cases b with
        | none => exact absurd hbc (by simp [nullsLast])
        | some b => exact h.trans a b c hab hbc

/-- The larger first. -/
def descending [LinearOrder β] : Comparator β :=
  fun a b => if a = b then 0 else if a > b then -1 else 1

theorem lawful_descending [LinearOrder β] : (descending : Comparator β).Lawful := by
  constructor
  · intro a b
    unfold descending
    rcases lt_trichotomy a b with hlt | rfl | hlt
    · simp [hlt.ne, hlt.ne', hlt, hlt.not_gt]
    · simp
    · simp [hlt.ne, hlt.ne', hlt, hlt.not_gt]
  · intro a b c hab hbc
    have hle : ∀ {a b : β}, descending a b ≤ 0 ↔ b ≤ a := by
      intro a b
      unfold descending
      rcases lt_trichotomy a b with hlt | rfl | hlt
      · simp [hlt.ne, hlt, hlt.not_gt]
      · simp
      · simp [hlt.ne', hlt, hlt.le]
    rw [hle] at *
    exact hbc.trans hab

end Comparator

/-! ## Keys in turn -/

/-- **A sort key**: a lawful comparator that puts last what misses the key. -/
structure SortKey (α : Type u) where
  compare : Comparator α
  missing : α → Bool
  lawful : compare.Lawful
  last : ∀ a b, missing a = true → missing b = false → 0 < compare a b

namespace SortKey

variable {α : Type u} {β : Type v} {a b : α} {tie : Comparator α} {keys : List (SortKey α)}

/-- A nullable field, the null ones last. -/
def ofNullable (f : α → Option β) (cmp : Comparator β) (h : cmp.Lawful) : SortKey α where
  compare := Comparator.comap f (Comparator.nullsLast cmp)
  missing a := (f a).isNone
  lawful := Comparator.lawful_comap (Comparator.lawful_nullsLast h)
  last a b ha hb := by
    unfold Comparator.comap
    rw [Option.isNone_iff_eq_none.mp ha]
    cases hf : f b with
    | none => rw [hf] at hb; cases hb
    | some b => exact Int.one_pos

/-- **Compare by the keys in turn**, and by `tie` where all give zero. -/
def byKeys (keys : List (SortKey α)) (tie : Comparator α) : Comparator α :=
  keys.foldr (fun key next => key.compare.orElse next) tie

theorem lawful_byKeys (htie : tie.Lawful) : (byKeys keys tie).Lawful := by
  induction keys with
  | nil => exact htie
  | cons key keys ih => exact Comparator.lawful_orElse key.lawful ih

/-- What the tie-break tells apart is told apart. -/
theorem byKeys_ne_zero (h : tie a b ≠ 0) : byKeys keys tie a b ≠ 0 := by
  induction keys with
  | nil => exact h
  | cons key keys ih =>
    change (if key.compare a b ≠ 0 then key.compare a b else byKeys keys tie a b) ≠ 0
    split
    · assumption
    · exact ih

/-- **Null after the rest**: an element before another misses a key only where
the other does too, for each key up to the one that decides. -/
def NullsAfter (a b : α) : List (SortKey α) → Prop
  | [] => True
  | key :: keys => (key.missing a = true → key.missing b = true) ∧
      (key.compare a b = 0 → NullsAfter a b keys)

theorem nullsAfter_of_byKeys (h : byKeys keys tie a b ≤ 0) : NullsAfter a b keys := by
  induction keys with
  | nil => trivial
  | cons key keys ih =>
    change (if key.compare a b ≠ 0 then key.compare a b else byKeys keys tie a b) ≤ 0 at h
    refine ⟨fun hmissing => ?_, fun hzero => ?_⟩
    · by_contra hpresent
      have hlast := key.last a b hmissing (Bool.eq_false_iff.mpr hpresent)
      rw [if_pos hlast.ne'] at h
      omega
    · rw [if_neg (not_not_intro hzero)] at h
      exact ih h

end SortKey

end HoodSentry
