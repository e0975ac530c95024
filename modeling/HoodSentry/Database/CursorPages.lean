import HoodSentry.Common.Lists
import HoodSentry.Database.Model.Pagination
/-!
# What following the cursor visits

The cursor of a page is its last row's timestamp, cut to the millisecond,
and no tie-breaker. Downward it passes over the rows left in that
millisecond; upward a row inside a millisecond comes again, for ever on a
page of one.
-/

namespace HoodSentry

namespace PagedQuery

variable {ρ κ : Type} {key : ρ → κ} (q : PagedQuery ρ)

/-- The matching rows in the query's order. -/
def ordered (t : Table key) (o : OrderBy) : List ρ :=
  (t.rows.filter q.matching).insertionSort (q.Before o)

/-- **Following the cursor** from a page until there is none; `none` is
out of fuel. -/
def followCursor (t : Table key) (limit : ℕ) (o : OrderBy) : ℕ → Option ℕ → Option (List ρ)
  | 0, _ => none
  | fuel + 1, cursor =>
    let result := q.page t ⟨limit, cursor, o⟩
    match result.nextCursor with
    | none => some result.data
    | some next => (followCursor t limit o fuel (some next)).map (result.data ++ ·)

/-- **The pages enumerate the rows**: following the cursor ends, and visits
the matching rows once each in the query's order. -/
def Enumerates (t : Table key) (limit : ℕ) (o : OrderBy) : Prop :=
  ∃ fuel, q.followCursor t limit o fuel none = some (q.ordered t o)

/-- **The two rows of a boundary stand apart**: upward the last row of the
page is on a whole millisecond and the next one is later; downward the
next one is before the last one's millisecond. -/
def Apart (o : OrderBy) (last next : ρ) : Prop :=
  match o with
  | .asc => q.timestamp last % 1000 = 0 ∧ q.timestamp last < q.timestamp next
  | .desc => q.timestamp next < q.timestamp last / 1000 * 1000

/-- **Every boundary between two pages stands apart.** -/
def BoundariesApart (t : Table key) (limit : ℕ) (o : OrderBy) : Prop :=
  ∀ k last next, 0 < k → (q.ordered t o)[k * limit - 1]? = some last →
    (q.ordered t o)[k * limit]? = some next → q.Apart o last next

/-! ## The query's order -/

variable {q} {t : Table key} {limit : ℕ} {o : OrderBy} {r r' : ρ}

instance : Std.Total (q.Before o) where
  total r r' := by
    unfold Before OrderBy.Le OrderBy.Lt
    generalize q.tieOrder o = o'
    cases o <;> cases o' <;> dsimp only <;> omega

instance : IsTrans ρ (q.Before o) where
  trans r r' r'' h h' := by
    unfold Before OrderBy.Le OrderBy.Lt at *
    generalize q.tieOrder o = o' at *
    cases o <;> cases o' <;> dsimp only at * <;> omega

/-- A row after one past a cursor is past it. -/
theorem past_of_before {cursor : ℕ} (h : q.Before o r r') (hpast : q.past o cursor r = true) :
    q.past o cursor r' = true := by
  unfold past at *
  rw [decide_eq_true_iff] at *
  rcases h with h | ⟨h, -⟩
  · cases o with
    | asc => exact Nat.lt_trans hpast h
    | desc => exact Nat.lt_trans h hpast
  · exact h ▸ hpast

theorem ordered_mono (cursor : ℕ) :
    (q.ordered t o).Pairwise fun r r' => q.past o cursor r = true → q.past o cursor r' = true :=
  (List.pairwise_insertionSort (q.Before o) _).imp fun h => past_of_before h

theorem ordered_nodup : (q.ordered t o).Nodup :=
  (List.perm_insertionSort _ _).nodup_iff.mpr ((t.unique.of_map _).filter _)

/-- **A boundary that stands apart** is one the cursor parts. -/
theorem parted_iff_apart :
    Keyset.Parted (fun r => toDate (q.timestamp r)) (q.past o) r r' ↔ q.Apart o r r' := by
  unfold Keyset.Parted Apart past decodeCursorAsDate toDate
  rw [decide_eq_false_iff_not, decide_eq_true_iff]
  unfold OrderBy.Lt
  cases o <;> dsimp only <;> omega

/-! ## Pages of the sorted rows -/

/-- **A page** is one of the rows in the query's order. -/
theorem page_eq_keyset (cursor : Option ℕ) :
    let result := q.page t ⟨limit, cursor, o⟩
    (result.data, result.nextCursor) =
      Keyset.page (q.ordered t o) (fun r => toDate (q.timestamp r)) (q.past o) limit cursor := by
  have hrest : (t.rows.filter (q.conditions o cursor)).insertionSort (q.Before o) =
      Keyset.rest (q.ordered t o) (q.past o) cursor := by
    cases cursor with
    | none => rfl
    | some cursor =>
      rw [Keyset.rest, ordered, filter_insertionSort, List.filter_filter]
      congr 1
      exact List.filter_congr fun r _ => Bool.and_comm _ _
  dsimp only [page, buildPaginatedResult]
  rw [hrest]
  simp only [decide_eq_true_eq]
  rfl

theorem followCursor_eq_follow (fuel : ℕ) (cursor : Option ℕ) :
    q.followCursor t limit o fuel cursor =
      Keyset.follow (q.ordered t o) (fun r => toDate (q.timestamp r)) (q.past o) limit fuel
        cursor := by
  induction fuel generalizing cursor with
  | zero => rfl
  | succ fuel ih =>
    rw [followCursor, Keyset.follow, ← page_eq_keyset]
    cases (q.page t ⟨limit, cursor, o⟩).nextCursor with
    | none => rfl
    | some next =>
      dsimp only
      rw [ih]

/-- **The pages enumerate the rows exactly when** every boundary between
two of them stands apart. -/
theorem enumerates_iff (q : PagedQuery ρ) (t : Table key) (o : OrderBy) (hlimit : 0 < limit) :
    q.Enumerates t limit o ↔ q.BoundariesApart t limit o := by
  unfold Enumerates
  simp only [followCursor_eq_follow]
  rw [Keyset.follow_iff_parted ordered_mono hlimit ordered_nodup]
  simp only [Keyset.BoundariesParted, BoundariesApart, parted_iff_apart]

/-! ## Sample pages -/

/-- The log at an index of one transaction, stored at a timestamp. -/
def sampleEntry (logIndex createdAt : ℕ) : LogEntry :=
  ⟨⟨1, ⟨11⟩, 0, logIndex, ⟨1⟩, 1, ⟨7⟩, none, none, none, none, ⟨0, 0⟩, false, true⟩, createdAt⟩

/-- Logs stored in two milliseconds, one to a page. -/
theorem enumerates_of_apart :
    (logsByAddress 1 ⟨7⟩).Enumerates
      (Table.empty.insertAll [sampleEntry 0 1000, sampleEntry 1 2000] : Table LogEntry.entryKey) 1
      .asc := by
  refine (enumerates_iff _ _ _ Nat.one_pos).mpr fun k last next hk hlast hnext => ?_
  have hordered : (logsByAddress 1 ⟨7⟩).ordered
      (Table.empty.insertAll [sampleEntry 0 1000, sampleEntry 1 2000] : Table LogEntry.entryKey)
      .asc = [sampleEntry 0 1000, sampleEntry 1 2000] := by decide +kernel
  rw [hordered, Nat.mul_one] at hlast hnext
  match k with
  | 1 =>
    obtain rfl := Option.some.inj hlast
    obtain rfl := Option.some.inj hnext
    exact ⟨rfl, by decide⟩
  | k + 2 => exact absurd hnext.symm (Option.some_ne_none _)

/-- **The logs of one insert** share their timestamp: with one to a page
the second is never visited. -/
theorem not_enumerates :
    ¬∀ (t : Table LogEntry.entryKey) (chainId : ℕ) (address : Address) (limit : ℕ) (o : OrderBy),
      0 < limit → (logsByAddress chainId address).Enumerates t limit o := by
  intro h
  let t : Table LogEntry.entryKey := Table.empty.insertAll [sampleEntry 0 1500, sampleEntry 1 1500]
  have hfirst : (logsByAddress 1 ⟨7⟩).page t ⟨1, none, .desc⟩ =
      ⟨[sampleEntry 0 1500], some 1, true⟩ := by decide +kernel
  have hsecond : (logsByAddress 1 ⟨7⟩).page t ⟨1, some 1, .desc⟩ = ⟨[], none, false⟩ := by
    decide +kernel
  have hordered : ((logsByAddress 1 ⟨7⟩).ordered t .desc).length = 2 := by decide +kernel
  obtain ⟨fuel, hall⟩ := h t 1 ⟨7⟩ 1 .desc Nat.one_pos
  match fuel with
  | 0 => exact absurd hall.symm (Option.some_ne_none _)
  | 1 =>
    rw [followCursor, hfirst] at hall
    exact absurd hall.symm (Option.some_ne_none _)
  | fuel + 2 =>
    rw [followCursor, hfirst] at hall
    dsimp only at hall
    rw [followCursor, hsecond] at hall
    rw [← Option.some.inj hall] at hordered
    exact absurd hordered (by decide)

end PagedQuery

end HoodSentry
