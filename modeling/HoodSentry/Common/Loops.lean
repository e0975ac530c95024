import Mathlib
/-!
# Loops that a throw ends

A loop over a list whose body moves a state and may throw. What a throw
leaves is the state it was thrown in, so the loop has passed exactly the
elements up to the first one that throws.
-/

namespace HoodSentry

universe u v w

variable {α : Type u} {σ : Type v} {ε : Type w}

/-- **A loop over a list**: the state it leaves, and what ended it. -/
def forEach (body : σ → α → σ × Option ε) : List α → σ → σ × Option ε
  | [], s => (s, none)
  | a :: as, s =>
    match body s a with
    | (s', some err) => (s', some err)
    | (s', none) => forEach body as s'

section Loop

variable {body : σ → α → σ × Option ε} {a : α} {as bs : List α} {s s' : σ} {err : ε}

@[simp] theorem forEach_nil : forEach body [] s = (s, none) := rfl

/-- An element that does not throw is passed. -/
theorem forEach_cons_none (h : body s a = (s', none)) :
    forEach body (a :: as) s = forEach body as s' := by
  rw [forEach, h]

/-- One that throws ends the loop. -/
theorem forEach_cons_some (h : body s a = (s', some err)) :
    forEach body (a :: as) s = (s', some err) := by
  rw [forEach, h]

/-- **Loops one after the other**: the second is left out when the first
throws. -/
theorem forEach_append :
    forEach body (as ++ bs) s =
      match forEach body as s with
      | (s', some err) => (s', some err)
      | (s', none) => forEach body bs s' := by
  induction as generalizing s with
  | nil => rfl
  | cons a as ih =>
    rw [List.cons_append]
    rcases hbody : body s a with ⟨s', thrown⟩
    cases thrown with
    | none => rw [forEach_cons_none hbody, forEach_cons_none hbody, ih]
    | some err => rw [forEach_cons_some hbody, forEach_cons_some hbody]

/-- **A loop in a loop** is the loop over all that the inner ones go over. -/
theorem forEach_flatMap {β : Type*} {f : β → List α} {bs : List β} :
    forEach (fun s b => forEach body (f b) s) bs s = forEach body (bs.flatMap f) s := by
  induction bs generalizing s with
  | nil => rfl
  | cons b bs ih =>
    rw [List.flatMap_cons, forEach_append]
    rcases hinner : forEach body (f b) s with ⟨s', thrown⟩
    cases thrown with
    | none => rw [forEach_cons_none hinner, ih]
    | some err => rw [forEach_cons_some hinner]

/-- An element whose body does nothing may be left out. -/
theorem forEach_filterMap {β : Type*} {f : β → Option α} {outer : σ → β → σ × Option ε}
    (hnone : ∀ s b, f b = none → outer s b = (s, none))
    (hsome : ∀ s b a, f b = some a → outer s b = body s a) {bs : List β} :
    forEach outer bs s = forEach body (bs.filterMap f) s := by
  induction bs generalizing s with
  | nil => rfl
  | cons b bs ih =>
    cases hf : f b with
    | none => rw [List.filterMap_cons_none hf, forEach_cons_none (hnone s b hf), ih]
    | some a =>
      rw [List.filterMap_cons_some hf, forEach, hsome s b a hf, forEach]
      rcases body s a with ⟨s', thrown⟩
      cases thrown with
      | none => exact ih
      | some err => rfl

end Loop

/-! ## How far a loop gets -/

/-- The elements up to the first with a property, that one included. -/
def upToFirst (p : α → Bool) : List α → List α
  | [] => []
  | a :: as => if p a then [a] else a :: upToFirst p as

section UpTo

variable {p : α → Bool} {a : α} {as : List α}

theorem upToFirst_cons_of (h : p a = true) : upToFirst p (a :: as) = [a] := by
  rw [upToFirst, if_pos h]

theorem upToFirst_cons_of_not (h : p a = false) :
    upToFirst p (a :: as) = a :: upToFirst p as := by
  rw [upToFirst, if_neg (by simp [h])]

theorem upToFirst_subset : upToFirst p as ⊆ as := by
  induction as with
  | nil => exact List.Subset.refl []
  | cons a as ih =>
    cases h : p a with
    | true =>
      rw [upToFirst_cons_of h]
      exact List.cons_subset_cons a (List.nil_subset as)
    | false =>
      rw [upToFirst_cons_of_not h]
      exact List.cons_subset_cons a ih

/-- **A loop reaches every element** exactly when none but the last has
the property that ends it. -/
theorem subset_upToFirst_iff (h : as.Nodup) :
    as ⊆ upToFirst p as ↔ as.Pairwise fun a _ => p a = false := by
  induction as with
  | nil => simp
  | cons a as ih =>
    obtain ⟨hnotMem, hnodup⟩ := List.nodup_cons.mp h
    rw [List.pairwise_cons]
    cases hp : p a with
    | true =>
      rw [upToFirst_cons_of hp]
      constructor
      · intro hsub
        have hnil : as = [] := by
          refine List.eq_nil_iff_forall_not_mem.mpr fun b hb => ?_
          obtain rfl := List.mem_singleton.mp (hsub (List.mem_cons_of_mem a hb))
          exact hnotMem hb
        rw [hnil]
        exact ⟨fun b hb => absurd hb List.not_mem_nil, List.Pairwise.nil⟩
      · rintro ⟨hfirst, -⟩
        have hnil : as = [] := by
          refine List.eq_nil_iff_forall_not_mem.mpr fun b hb => ?_
          exact Bool.false_ne_true (hfirst b hb).symm
        rw [hnil]
        exact List.Subset.refl [a]
    | false =>
      rw [upToFirst_cons_of_not hp, List.cons_subset, ← ih hnodup]
      constructor
      · rintro ⟨-, hsub⟩
        refine ⟨fun _ _ => rfl, fun b hb => ?_⟩
        rcases List.mem_cons.mp (hsub hb) with rfl | hb'
        · exact absurd hb hnotMem
        · exact hb'
      · rintro ⟨-, hsub⟩
        exact ⟨List.mem_cons_self, fun b hb => List.mem_cons_of_mem a (hsub hb)⟩

end UpTo

end HoodSentry

/-!
## Lists collected under a cap

A loop collects entries; once as many as the cap are there, the next entry
that checks it ends the loop at once, and an entry that does not goes on. A
loop that was not ended is cut to the cap. What is collected is a prefix of
all the entries: up to the entry that ended the loop, or up to the cap.
-/

namespace HoodSentry

universe u

variable {α : Type u} (cap : ℕ) (checks : α → Bool)

/-- Collect an entry, and end the loop where it checks a cap now reached. -/
def collectEntry (acc : List α) (x : α) : List α × Option Unit :=
  (acc ++ [x], if checks x ∧ cap ≤ acc.length + 1 then some () else none)

/-- **What the loop collects.** -/
def collectUnder (xs : List α) : List α :=
  match forEach (collectEntry cap checks) xs [] with
  | (acc, some ()) => acc
  | (acc, none) => acc.take cap

variable {cap checks} {acc xs before after : List α} {x : α} {j k : ℕ}

/-- The entry at `k` ends the loop, unless an earlier one has. -/
def EndsAt (cap : ℕ) (checks : α → Bool) (xs : List α) (k : ℕ) : Prop :=
  (∃ x ∈ xs[k]?, checks x = true) ∧ cap ≤ k + 1

instance : Decidable (EndsAt cap checks xs k) :=
  inferInstanceAs (Decidable (_ ∧ _))

/-- **The places that are collected**: those under the cap, and those up to
the entry that ends the loop. -/
def Kept (cap : ℕ) (checks : α → Bool) (xs : List α) (j : ℕ) : Prop :=
  j < cap ∨ ∃ k, j ≤ k ∧ EndsAt cap checks xs k ∧ ∀ i < k, ¬ EndsAt cap checks xs i

/-- No entry ends the loop. -/
theorem forEach_collectEntry_none
    (h : ∀ k, ∀ x ∈ xs[k]?, checks x = true → acc.length + k + 1 < cap) :
    forEach (collectEntry cap checks) xs acc = (acc ++ xs, none) := by
  induction xs generalizing acc with
  | nil => rw [forEach_nil, List.append_nil]
  | cons x xs ih =>
    have hpasses : collectEntry cap checks acc x = (acc ++ [x], none) := by
      rw [collectEntry, if_neg]
      rintro ⟨hx, hcap⟩
      have := h 0 x rfl hx
      omega
    rw [forEach_cons_none hpasses, ih, List.append_assoc, List.singleton_append]
    intro k y hy hchecks
    have hlt := h (k + 1) y (by rwa [List.getElem?_cons_succ]) hchecks
    rw [List.length_append, List.length_singleton]
    omega

/-- The loop ends at the first entry that ends it. -/
theorem forEach_collectEntry_some (hx : checks x = true) (hcap : cap ≤ acc.length + before.length + 1)
    (h : ∀ k, ∀ y ∈ before[k]?, checks y = true → acc.length + k + 1 < cap) :
    forEach (collectEntry cap checks) (before ++ x :: after) acc =
      (acc ++ before ++ [x], some ()) := by
  rw [forEach_append, forEach_collectEntry_none h]
  dsimp only
  refine forEach_cons_some ?_
  rw [collectEntry, List.length_append, if_pos ⟨hx, hcap⟩]

theorem collectUnder_of_endsAt (hends : EndsAt cap checks xs k)
    (hfirst : ∀ i < k, ¬ EndsAt cap checks xs i) : collectUnder cap checks xs = xs.take (k + 1) := by
  obtain ⟨⟨x, hx, hchecks⟩, hcap⟩ := hends
  have hk : k < xs.length := (List.getElem?_eq_some_iff.mp hx).1
  have hlength : (xs.take k).length = k := List.length_take_of_le hk.le
  have hsplit : xs = xs.take k ++ x :: xs.drop (k + 1) := by
    rw [← (List.getElem?_eq_some_iff.mp hx).2, List.cons_getElem_drop_succ, List.take_append_drop]
  have hloop : forEach (collectEntry cap checks) xs [] = ([] ++ xs.take k ++ [x], some ()) := by
    conv_lhs => rw [hsplit]
    refine forEach_collectEntry_some hchecks ?_ fun i y hy hchecks' => ?_
    · rw [List.length_nil, hlength]
      omega
    · have hi : i < k := hlength ▸ (List.getElem?_eq_some_iff.mp hy).1
      have hy' : y ∈ xs[i]? := by rwa [← List.getElem?_take_of_lt hi]
      have hnot := hfirst i hi
      rw [EndsAt, not_and, not_le] at hnot
      have := hnot ⟨y, hy', hchecks'⟩
      rw [List.length_nil]
      omega
  rw [collectUnder, hloop]
  dsimp only
  rw [List.nil_append, List.take_add_one, Option.mem_def.mp hx]
  rfl

theorem collectUnder_of_not_endsAt (h : ∀ k, ¬ EndsAt cap checks xs k) :
    collectUnder cap checks xs = xs.take cap := by
  have hloop : forEach (collectEntry cap checks) xs [] = ([] ++ xs, none) := by
    refine forEach_collectEntry_none fun k x hx hchecks => ?_
    have hnot := h k
    rw [EndsAt, not_and, not_le] at hnot
    have := hnot ⟨x, hx, hchecks⟩
    rw [List.length_nil]
    omega
  rw [collectUnder, hloop]
  rfl

/-- **An entry is collected** where it stands at a place that is. -/
theorem mem_collectUnder_iff :
    x ∈ collectUnder cap checks xs ↔ ∃ j, x ∈ xs[j]? ∧ Kept cap checks xs j := by
  have htake (n : ℕ) : x ∈ xs.take n ↔ ∃ j, x ∈ xs[j]? ∧ j < n := by
    rw [List.mem_iff_getElem?]
    constructor
    · rintro ⟨j, hj⟩
      have hlt : j < n := by
        have := (List.getElem?_eq_some_iff.mp hj).1
        rw [List.length_take] at this
        omega
      exact ⟨j, by rwa [List.getElem?_take_of_lt hlt] at hj, hlt⟩
    · rintro ⟨j, hj, hlt⟩
      exact ⟨j, by rwa [List.getElem?_take_of_lt hlt]⟩
  by_cases hends : ∃ k, EndsAt cap checks xs k
  · have hfirst := Nat.find_spec hends
    have hnone : ∀ i < Nat.find hends, ¬ EndsAt cap checks xs i := fun i hi => Nat.find_min hends hi
    rw [collectUnder_of_endsAt hfirst hnone, htake]
    refine exists_congr fun j => and_congr_right fun _ => ?_
    constructor
    · exact fun hlt => .inr ⟨_, Nat.lt_succ_iff.mp hlt, hfirst, hnone⟩
    · rintro (hlt | ⟨k, hle, hk, hk'⟩)
      · have := hfirst.2
        omega
      · have hmin : Nat.find hends = k :=
          le_antisymm (Nat.find_min' hends hk) (not_lt.mp fun hlt => hk' _ hlt hfirst)
        omega
  · rw [collectUnder_of_not_endsAt (not_exists.mp hends), htake]
    refine exists_congr fun j => and_congr_right fun _ => ?_
    exact ⟨.inl, fun h => h.resolve_right fun ⟨k, _, hk, _⟩ => hends ⟨k, hk⟩⟩

end HoodSentry

/-!
## Retried operations

An operation that moves a state and may fail is attempted again as long as
its errors allow and attempts are left. `attempts` lists what each attempt
gave, and `retry` is what is left when the last of them is over.
-/

namespace HoodSentry

universe u v w

variable {σ : Type u} {α : Type v} {ε : Type w}
variable (operation : σ → Except ε α × σ) (again : ε → Bool)

/-- **A retried operation**: with no attempt left the last error stands. -/
def retry (lastError : ε) : ℕ → σ → Except ε α × σ
  | 0, s => (.error lastError, s)
  | n + 1, s =>
    match operation s with
    | (.ok a, s') => (.ok a, s')
    | (.error e, s') => if again e then retry e n s' else (.error e, s')

/-- **What each attempt gave**, in order. -/
def attempts : ℕ → σ → List (Except ε α × σ)
  | 0, _ => []
  | n + 1, s =>
    match operation s with
    | (.ok a, s') => [(.ok a, s')]
    | (.error e, s') => (.error e, s') :: if again e then attempts n s' else []

section Equations

variable {operation : σ → Except ε α × σ} {again : ε → Bool} {n : ℕ} {s s' : σ} {a : α} {e last : ε}

/-- A success is the last attempt. -/
theorem attempts_of_ok (h : operation s = (.ok a, s')) :
    attempts operation again (n + 1) s = [(.ok a, s')] := by
  rw [attempts, h]

/-- So is an error that does not allow another. -/
theorem attempts_of_stop (h : operation s = (.error e, s')) (hstop : again e = false) :
    attempts operation again (n + 1) s = [(.error e, s')] := by
  rw [attempts, h]
  dsimp only
  rw [hstop, if_neg Bool.false_ne_true]

/-- After any other error the rest is attempted from where it was left. -/
theorem attempts_of_again (h : operation s = (.error e, s')) (hagain : again e = true) :
    attempts operation again (n + 1) s = (.error e, s') :: attempts operation again n s' := by
  rw [attempts, h]
  dsimp only
  rw [if_pos hagain]

/-- One attempt is one attempt. -/
theorem attempts_one : attempts operation again 1 s = [operation s] := by
  rw [attempts]
  rcases operation s with ⟨e | a, s'⟩
  · dsimp only
    split_ifs <;> rfl
  · rfl

/-- **A retried operation ends as its last attempt.** -/
theorem retry_eq_getLast :
    retry operation again last n s =
      ((attempts operation again n s).getLast?).getD (.error last, s) := by
  induction n generalizing s last with
  | zero => rfl
  | succ n ih =>
    rw [retry]
    rcases hop : operation s with ⟨e | a, s'⟩
    · dsimp only
      cases hagain : again e with
      | true =>
        rw [if_pos rfl, ih, attempts_of_again hop hagain, List.getLast?_cons]
        rfl
      | false =>
        rw [if_neg Bool.false_ne_true, attempts_of_stop hop hagain]
        rfl
    · rw [attempts_of_ok hop]
      rfl

end Equations

end HoodSentry

/-!
# Loops with an index

A loop whose rounds begin at an index, go on with a greater one and end with
the last place. The rounds are in order, and each begins where the one before
goes on.
-/

namespace HoodSentry

section Rounds

variable {next : ℕ → ℕ} {advances : ∀ i, i < next i} {stop i j : ℕ}

/-- **Where the rounds begin**, from an index on. -/
def roundsFrom (next : ℕ → ℕ) (advances : ∀ i, i < next i) (stop i : ℕ) : List ℕ :=
  if i < stop then i :: roundsFrom next advances stop (next i) else []
termination_by stop - i
decreasing_by
  have hlt := advances i
  omega

theorem roundsFrom_of_lt (h : i < stop) :
    roundsFrom next advances stop i = i :: roundsFrom next advances stop (next i) := by
  rw [roundsFrom, if_pos h]

theorem roundsFrom_of_le (h : stop ≤ i) : roundsFrom next advances stop i = [] := by
  rw [roundsFrom, if_neg (Nat.not_lt.mpr h)]

/-- **The rule of rounds**: what holds where the first begins, and with a round
of what it goes on with, holds of all. -/
theorem roundsFrom_induction {motive : ℕ → Prop} (hstart : motive i)
    (hnext : ∀ j, j < stop → motive j → motive (next j)) :
    ∀ j ∈ roundsFrom next advances stop i, motive j := by
  fun_induction roundsFrom next advances stop i with
  | case1 i hlt ih =>
    intro j hj
    rcases List.mem_cons.mp hj with rfl | hj
    · exact hstart
    · exact ih (hnext i hlt hstart) j hj
  | case2 i hle => exact fun j hj => absurd hj List.not_mem_nil

theorem bounds_of_mem_roundsFrom (h : j ∈ roundsFrom next advances stop i) : i ≤ j ∧ j < stop := by
  fun_induction roundsFrom next advances stop i with
  | case1 i hlt ih =>
    rcases List.mem_cons.mp h with rfl | h
    · exact ⟨Nat.le_refl j, hlt⟩
    · have hadvances := advances i
      obtain ⟨hle, hstop⟩ := ih h
      exact ⟨by omega, hstop⟩
  | case2 i hle => exact absurd h List.not_mem_nil

/-- **The rounds lie behind one another.** -/
theorem pairwise_roundsFrom :
    (roundsFrom next advances stop i).Pairwise fun j k => next j ≤ k := by
  fun_induction roundsFrom next advances stop i with
  | case1 i hlt ih =>
    exact List.pairwise_cons.mpr ⟨fun k hk => (bounds_of_mem_roundsFrom hk).1, ih⟩
  | case2 i hle => exact List.Pairwise.nil

/-- So the index increases. -/
theorem increasing_roundsFrom : (roundsFrom next advances stop i).Pairwise (· < ·) :=
  (@pairwise_roundsFrom next advances stop i).imp fun h => Nat.lt_of_lt_of_le (advances _) h

theorem self_mem_roundsFrom (h : i < stop) : i ∈ roundsFrom next advances stop i := by
  rw [roundsFrom_of_lt h]
  exact List.mem_cons_self

/-- And what a round goes on with begins the next. -/
theorem next_mem_roundsFrom (h : j ∈ roundsFrom next advances stop i) (hstop : next j < stop) :
    next j ∈ roundsFrom next advances stop i := by
  fun_induction roundsFrom next advances stop i with
  | case1 i hlt ih =>
    refine List.mem_cons_of_mem i ?_
    rcases List.mem_cons.mp h with rfl | h
    · exact self_mem_roundsFrom hstop
    · exact ih h
  | case2 i hle => exact absurd h List.not_mem_nil

end Rounds

end HoodSentry
