import Mathlib
/-!
# Lists and fallible steps

What a map whose function may fail returns when no element fails, sums
over filtered lists, sorting after a filter, and what a failing step
leaves of the next.
-/

namespace HoodSentry

universe u v

variable {α : Type u} {β : Type u} {f : α → Option β}

theorem mapM_cons_eq_some {a : α} {l : List α} {l' : List β} :
    (a :: l).mapM f = some l' ↔ ∃ b bs, f a = some b ∧ l.mapM f = some bs ∧ l' = b :: bs := by
  simp only [List.mapM_cons, Option.bind_eq_bind, Option.bind_eq_some_iff, Option.pure_def,
    Option.some.injEq]
  constructor
  · rintro ⟨b, hb, bs, hbs, rfl⟩
    exact ⟨b, bs, hb, hbs, rfl⟩
  · rintro ⟨b, bs, hb, hbs, rfl⟩
    exact ⟨b, hb, bs, hbs, rfl⟩

/-- A map no element of which fails returns. -/
theorem exists_mapM {l : List α} (h : ∀ a ∈ l, (f a).isSome = true) : ∃ l', l.mapM f = some l' := by
  induction l with
  | nil => exact ⟨[], by simp⟩
  | cons a l ih =>
    obtain ⟨b, hb⟩ := Option.isSome_iff_exists.mp (h a List.mem_cons_self)
    obtain ⟨bs, hbs⟩ := ih fun c hc => h c (List.mem_cons_of_mem a hc)
    exact ⟨b :: bs, mapM_cons_eq_some.mpr ⟨b, bs, hb, hbs, rfl⟩⟩

/-- A function that finds what another finds maps as that one does. -/
theorem mapM_eq_some_mono {g : α → Option β} {l : List α} {l' : List β}
    (hfg : ∀ a b, f a = some b → g a = some b) (h : l.mapM f = some l') : l.mapM g = some l' := by
  induction l generalizing l' with
  | nil => exact h
  | cons a l ih =>
    obtain ⟨b, bs, hb, hbs, rfl⟩ := mapM_cons_eq_some.mp h
    exact mapM_cons_eq_some.mpr ⟨b, bs, hfg a b hb, ih hbs, rfl⟩

/-- **The results are those of the elements.** -/
theorem mem_of_mapM_eq_some {l : List α} {l' : List β} (h : l.mapM f = some l') {b : β} :
    b ∈ l' ↔ ∃ a ∈ l, f a = some b := by
  induction l generalizing l' with
  | nil =>
    obtain rfl : [] = l' := by simpa using h
    simp
  | cons a l ih =>
    obtain ⟨c, cs, hc, hcs, rfl⟩ := mapM_cons_eq_some.mp h
    rw [List.mem_cons, ih hcs, List.exists_mem_cons_iff, hc, Option.some.injEq, eq_comm]

/-- They stand where the elements stand. -/
theorem getElem?_of_mapM_eq_some {l : List α} {l' : List β} (h : l.mapM f = some l') {i : ℕ}
    {b : β} (hb : l'[i]? = some b) : ∃ a, l[i]? = some a ∧ f a = some b := by
  induction l generalizing l' i with
  | nil =>
    obtain rfl : [] = l' := by simpa using h
    simp at hb
  | cons a l ih =>
    obtain ⟨c, cs, hc, hcs, rfl⟩ := mapM_cons_eq_some.mp h
    cases i with
    | zero =>
      obtain rfl : c = b := by simpa using hb
      exact ⟨a, rfl, hc⟩
    | succ i => exact ih hcs hb

/-- Each element has one. -/
theorem exists_of_mapM_eq_some {l : List α} {l' : List β} (h : l.mapM f = some l') {a : α}
    (ha : a ∈ l) : ∃ b ∈ l', f a = some b := by
  induction l generalizing l' with
  | nil => exact absurd ha List.not_mem_nil
  | cons c l ih =>
    obtain ⟨d, ds, hd, hds, rfl⟩ := mapM_cons_eq_some.mp h
    rcases List.mem_cons.mp ha with rfl | ha
    · exact ⟨d, List.mem_cons_self, hd⟩
    · obtain ⟨b, hb, hab⟩ := ih hds ha
      exact ⟨b, List.mem_cons_of_mem _ hb, hab⟩

/-- The elements in another order have their results in another order. -/
theorem mapM_perm {l m : List α} {l' : List β} (hperm : l.Perm m) (h : l.mapM f = some l') :
    ∃ m', m.mapM f = some m' ∧ l'.Perm m' := by
  induction hperm generalizing l' with
  | nil => exact ⟨l', h, .refl _⟩
  | cons a _ ih =>
    obtain ⟨b, bs, hb, hbs, rfl⟩ := mapM_cons_eq_some.mp h
    obtain ⟨m', hm', hperm⟩ := ih hbs
    exact ⟨b :: m', mapM_cons_eq_some.mpr ⟨b, m', hb, hm', rfl⟩, hperm.cons b⟩
  | swap a c l =>
    obtain ⟨b, bs, hb, hbs, rfl⟩ := mapM_cons_eq_some.mp h
    obtain ⟨d, ds, hd, hds, rfl⟩ := mapM_cons_eq_some.mp hbs
    refine ⟨d :: b :: ds, ?_, .swap ..⟩
    exact mapM_cons_eq_some.mpr ⟨d, b :: ds, hd, mapM_cons_eq_some.mpr ⟨b, ds, hb, hds, rfl⟩, rfl⟩
  | trans _ _ ih₁ ih₂ =>
    obtain ⟨m₁, hm₁, hperm₁⟩ := ih₁ h
    obtain ⟨m₂, hm₂, hperm₂⟩ := ih₂ hm₁
    exact ⟨m₂, hm₂, hperm₁.trans hperm₂⟩

section Sums

variable {α : Type*}

/-- A sum that counts only some of the filtered elements is the sum over
these. -/
theorem sum_map_filter_ite (l : List α) (p : α → Bool) (q : α → Prop) [DecidablePred q]
    (f : α → ℕ) :
    ((l.filter p).map fun x => if q x then (f x : ℤ) else 0).sum =
      (((l.filter fun x => p x && q x).map f).sum : ℕ) := by
  induction l with
  | nil => rfl
  | cons x l ih =>
    by_cases hp : p x = true <;> by_cases hq : q x <;> simp [hp, hq, ih]

end Sums

section Sorting

variable {α : Type*} {r : α → α → Prop} [DecidableRel r] {p : α → Bool}

theorem filter_orderedInsert [IsTrans α r] {l : List α} (hl : l.Pairwise r) (a : α) :
    (l.orderedInsert r a).filter p =
      if p a then (l.filter p).orderedInsert r a else l.filter p := by
  induction l with
  | nil => cases hp : p a <;> simp [hp]
  | cons b l ih =>
    obtain ⟨hb, hl⟩ := List.pairwise_cons.mp hl
    by_cases hab : r a b
    · have hall : ∀ c ∈ (b :: l).filter p, r a c := by
        intro c hc
        rcases List.mem_cons.mp (List.mem_of_mem_filter hc) with rfl | hc
        · exact hab
        · exact trans_of r hab (hb c hc)
      have hfirst : ((b :: l).filter p).orderedInsert r a = a :: (b :: l).filter p := by
        cases hfilter : (b :: l).filter p with
        | nil => rfl
        | cons c cs =>
          rw [List.orderedInsert_cons_of_le]
          exact hall c (hfilter ▸ List.mem_cons_self)
      rw [List.orderedInsert_cons_of_le r l hab, hfirst, List.filter_cons]
    · rw [List.orderedInsert_of_not_le r l hab, List.filter_cons, ih hl, List.filter_cons]
      cases hpb : p b with
      | false => rfl
      | true =>
        simp only [if_true]
        rw [List.orderedInsert_of_not_le r _ hab]
        split <;> rfl

/-- **A stable sort of a part** is the part of the sorted whole. -/
theorem filter_insertionSort [IsTrans α r] [Std.Total r] (l : List α) :
    (l.insertionSort r).filter p = (l.filter p).insertionSort r := by
  induction l with
  | nil => rfl
  | cons a l ih =>
    rw [List.insertionSort_cons, filter_orderedInsert (List.pairwise_insertionSort r l), ih]
    cases hp : p a <;> simp [hp]

end Sorting

/-- A step after another succeeds on what the first one gave. -/
theorem bind_eq_ok {ε α β : Type*} {x : Except ε α} {f : α → Except ε β} {b : β} :
    x.bind f = .ok b ↔ ∃ a, x = .ok a ∧ f a = .ok b := by
  cases x with
  | error e => simp [Except.bind]
  | ok a => simp [Except.bind]

/-- Two steps after each other succeed where both do. -/
theorem andThen_eq_ok {ε : Type*} {α β : Type u} {x : Except ε α} {f : α → Except ε β} {b : β} :
    (x >>= f) = .ok b ↔ ∃ a, x = .ok a ∧ f a = .ok b := bind_eq_ok

/-- A step run for every element succeeds where it does for each. -/
theorem forM_eq_ok {ε : Type*} {α : Type u} {f : α → Except ε PUnit} {l : List α} :
    l.forM f = .ok ⟨⟩ ↔ ∀ a ∈ l, f a = .ok ⟨⟩ := by
  induction l with
  | nil => exact ⟨fun _ a ha => absurd ha List.not_mem_nil, fun _ => rfl⟩
  | cons a l ih =>
    have hcons : (a :: l).forM f = (f a >>= fun _ => l.forM f) := rfl
    rw [hcons, andThen_eq_ok, List.forall_mem_cons, ← ih]
    exact ⟨fun ⟨_, ha, hl⟩ => ⟨ha, hl⟩, fun ⟨ha, hl⟩ => ⟨⟨⟩, ha, hl⟩⟩

/-- A map whose steps all succeed gives what each gave. -/
theorem forall₂_of_mapM_eq_ok {ε : Type*} {α β : Type u} {f : α → Except ε β} {l : List α}
    {l' : List β} (h : l.mapM f = .ok l') :
    List.Forall₂ (fun a b => f a = .ok b) l l' := by
  induction l generalizing l' with
  | nil =>
    rw [List.mapM_nil] at h
    obtain rfl := Except.ok.inj h
    exact .nil
  | cons a l ih =>
    rw [List.mapM_cons, andThen_eq_ok] at h
    obtain ⟨b, hb, h⟩ := h
    obtain ⟨bs, hbs, h⟩ := andThen_eq_ok.mp h
    obtain rfl := Except.ok.inj h
    exact .cons hb (ih hbs)

/-- Elements of one kind replaced by others of that kind, read by kind. -/
theorem filter_replaced {α β : Type*} [DecidableEq β] {kind : α → β} {l new : List α} {k k' : β}
    (hnew : ∀ x ∈ new, kind x = k) :
    ((l.filter fun x => !decide (kind x = k)) ++ new).filter (fun x => decide (kind x = k')) =
      if k = k' then new else l.filter fun x => decide (kind x = k') := by
  rw [List.filter_append, List.filter_filter]
  split
  · rename_i hk
    subst hk
    rw [List.filter_eq_nil_iff.mpr fun x _ => by simp, List.nil_append,
      List.filter_eq_self.mpr fun x hx => decide_eq_true (hnew x hx)]
  · rename_i hk
    rw [List.filter_eq_nil_iff.mpr fun x hx h => hk ((hnew x hx).symm.trans (of_decide_eq_true h)),
      List.append_nil]
    refine List.filter_congr fun x _ => ?_
    by_cases hx : kind x = k'
    · simp [hx, Ne.symm hk]
    · simp [hx]

/-- What a list ends with from an element on, when the element can only be
its last one. -/
theorem eq_nil_of_suffix_concat {α : Type*} {a b : α} {l l' : List α}
    (h : a :: l <:+ l' ++ [b]) (ha : a ∉ l') : l = [] := by
  obtain ⟨t, ht⟩ := h
  rcases List.eq_nil_or_concat l with rfl | ⟨init, last, rfl⟩
  · rfl
  · rw [List.concat_eq_append, ← List.cons_append, ← List.append_assoc] at ht
    obtain ⟨hinit, -⟩ := List.append_inj' ht rfl
    exact absurd (hinit ▸ List.mem_append_right t List.mem_cons_self) ha

/-- **The entry at a place of a flat map** is one of what some element gives,
after all that those before it give. -/
theorem getElem?_flatMap_iff {α β : Type*} {f : α → List β} {as : List α} {j : ℕ} {b : β} :
    b ∈ (as.flatMap f)[j]? ↔ ∃ before a after, as = before ++ a :: after ∧
      ∃ i, b ∈ (f a)[i]? ∧ j = (before.flatMap f).length + i := by
  constructor
  · intro hj
    induction as generalizing j with
    | nil => exact absurd hj.symm (Option.some_ne_none b)
    | cons a as ih =>
      rw [List.flatMap_cons] at hj
      by_cases hlt : j < (f a).length
      · rw [List.getElem?_append_left hlt] at hj
        exact ⟨[], a, as, rfl, j, hj, (Nat.zero_add j).symm⟩
      · rw [List.getElem?_append_right (not_lt.mp hlt)] at hj
        obtain ⟨before, a', after, rfl, i, hi, hplace⟩ := ih hj
        refine ⟨a :: before, a', after, rfl, i, hi, ?_⟩
        rw [List.flatMap_cons, List.length_append]
        omega
  · rintro ⟨before, a, after, rfl, i, hi, rfl⟩
    have hlt : i < (f a).length := (List.getElem?_eq_some_iff.mp hi).1
    rw [List.flatMap_append, List.getElem?_append_right (Nat.le_add_right _ _),
      Nat.add_sub_cancel_left, List.flatMap_cons, List.getElem?_append_left hlt]
    exact hi

end HoodSentry
