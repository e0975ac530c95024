import HoodSentry.Common.Table
/-!
# Deletes in batches

A delete too large for one statement is a loop: a pass deletes some of the
rows a condition names and reports how many, and the loop ends with a pass
that reports fewer than it would had it left any. `deleteLoop_eq` is what
such a loop computes, however its passes choose their rows.
-/

namespace HoodSentry

universe u v

variable {ρ : Type u} {κ : Type v} {key : ρ → κ}

/-- The loop: passes until one reports fewer rows than `least`, or until
the pass that throws. -/
def deleteLoop (pass : Table key → Table key × ℕ) (least : ℕ) :
    Option ℕ → ℕ → Table key → Table key
  | _, 0, t => t
  | throwsAt, fuel + 1, t =>
    if throwsAt = some 0 then t
    else if (pass t).2 < least then (pass t).1
    else deleteLoop pass least (throwsAt.map (· - 1)) fuel (pass t).1

/-- **How the loop ends**: with a pass that throws, with one that reports
fewer rows than `least`, or after one pass more. -/
inductive LoopEnds (pass : Table key → Table key × ℕ) (least : ℕ) :
    Option ℕ → Table key → Table key → Prop
  | thrown (t : Table key) : LoopEnds pass least (some 0) t t
  | done {throwsAt : Option ℕ} {t : Table key} (hok : throwsAt ≠ some 0)
      (hlast : (pass t).2 < least) : LoopEnds pass least throwsAt t (pass t).1
  | again {throwsAt : Option ℕ} {t t' : Table key} (hok : throwsAt ≠ some 0)
      (hmore : ¬(pass t).2 < least)
      (hrest : LoopEnds pass least (throwsAt.map (· - 1)) (pass t).1 t') :
      LoopEnds pass least throwsAt t t'

/-- **A pass over the rows `p` names**: it deletes some of them, reports
how many, and leaves none where it reports fewer than `least`. -/
structure IsPass (p : ρ → Bool) (pass : Table key → Table key × ℕ) (least : ℕ) : Prop where
  deletes : ∀ t, ∃ q : ρ → Bool, (∀ r, q r = true → p r = true) ∧
    pass t = (t.deleteWhere q, (t.rows.filter q).length)
  clears : ∀ t, (pass t).2 < least → ∀ r ∈ (pass t).1, p r = false

variable {p : ρ → Bool} {pass : Table key → Table key × ℕ} {least : ℕ}

/-- Deleting some of the rows first changes nothing. -/
theorem Table.deleteWhere_of_sub {q : ρ → Bool} (h : ∀ r, q r = true → p r = true)
    (t : Table key) : (t.deleteWhere q).deleteWhere p = t.deleteWhere p := by
  refine Table.ext ?_
  simp only [Table.deleteWhere, List.filter_filter]
  refine List.filter_congr fun r _ => ?_
  have := h r
  cases hq : q r <;> simp_all

theorem Table.length_deleteWhere (q : ρ → Bool) (t : Table key) :
    (t.deleteWhere q).rows.length + (t.rows.filter q).length = t.rows.length := by
  have := List.length_eq_length_filter_add (l := t.rows) q
  simp only [Table.deleteWhere]
  omega

theorem Table.deleteWhere_eq_self {t : Table key} (h : ∀ r ∈ t, p r = false) :
    t.deleteWhere p = t := by
  refine Table.ext (List.filter_eq_self.mpr fun r hr => ?_)
  rw [h r hr, Bool.not_false]

/-- Whatever throws, only rows `p` names are gone. -/
theorem mem_deleteLoop (hpass : IsPass p pass least) {throwsAt : Option ℕ} {fuel : ℕ}
    {t : Table key} {r : ρ} (h : r ∈ t) (hp : p r = false) :
    r ∈ deleteLoop pass least throwsAt fuel t := by
  induction fuel generalizing throwsAt t with
  | zero => exact h
  | succ fuel ih =>
    obtain ⟨q, hq, heq⟩ := hpass.deletes t
    have hkept : r ∈ (pass t).1 := by
      rw [heq]
      exact Table.mem_deleteWhere.mpr ⟨h, Bool.eq_false_iff.mpr fun hqr => by simp [hq r hqr] at hp⟩
    unfold deleteLoop
    split
    · exact h
    · split
      · exact hkept
      · exact ih hkept

/-- **A loop none of whose passes throws deletes all the rows**, with as
many passes as there are rows to spare. -/
theorem deleteLoop_eq (hpass : IsPass p pass least) (hleast : 0 < least) {fuel : ℕ}
    {t : Table key} (hfuel : t.rows.length < fuel) :
    deleteLoop pass least none fuel t = t.deleteWhere p := by
  induction fuel generalizing t with
  | zero => omega
  | succ fuel ih =>
    obtain ⟨q, hq, heq⟩ := hpass.deletes t
    have hsub : (pass t).1.deleteWhere p = t.deleteWhere p := by
      rw [heq]
      exact Table.deleteWhere_of_sub hq t
    rw [deleteLoop, if_neg (by simp)]
    split
    · rename_i hlast
      rw [← hsub, Table.deleteWhere_eq_self (hpass.clears t hlast)]
    · rename_i hmore
      have hlength := Table.length_deleteWhere q t
      rw [heq] at hmore
      have hshorter : (pass t).1.rows.length < fuel := by
        rw [heq]
        dsimp only at hmore ⊢
        omega
      rw [Option.map_none, ih hshorter, hsub]

/-- One batch: of the rows a condition names the first so many. -/
def deleteBatch [DecidableEq ρ] (p : ρ → Bool) (batchSize : ℕ) (t : Table key) : Table key × ℕ :=
  let batch := (t.rows.filter p).take batchSize
  (t.deleteWhere fun r => r ∈ batch, (t.rows.filter fun r => r ∈ batch).length)

/-- A batch is deleted whole. -/
theorem length_take_le_deleted [DecidableEq ρ] (t : Table key) (batchSize : ℕ) :
    ((t.rows.filter p).take batchSize).length ≤ (deleteBatch p batchSize t).2 := by
  have hnodup : t.rows.Nodup := t.unique.of_map _
  refine List.Subperm.length_le (List.subperm_of_subset ?_ fun r hr => ?_)
  · exact (hnodup.filter _).sublist (List.take_sublist _ _)
  · have hmem := List.mem_of_mem_take hr
    exact List.mem_filter.mpr ⟨(List.mem_filter.mp hmem).1, decide_eq_true hr⟩

/-- A batch that is not full holds every row named. -/
theorem length_named_lt [DecidableEq ρ] {t : Table key} {batchSize : ℕ}
    (h : (deleteBatch p batchSize t).2 < batchSize) :
    (t.rows.filter p).length < batchSize := by
  have hlength : ((t.rows.filter p).take batchSize).length =
      min batchSize (t.rows.filter p).length := List.length_take
  have := length_take_le_deleted (p := p) t batchSize
  omega

/-- **A batch is a pass**, however its rows are chosen. -/
theorem isPass_batch [DecidableEq ρ] (p : ρ → Bool) (batchSize : ℕ) :
    IsPass p (deleteBatch p batchSize : Table key → Table key × ℕ) batchSize where
  deletes t := by
    refine ⟨_, fun r hr => ?_, rfl⟩
    exact (List.mem_filter.mp (List.mem_of_mem_take (of_decide_eq_true hr))).2
  clears t ht r hr := by
    obtain ⟨hr, hnot⟩ := Table.mem_deleteWhere.mp hr
    refine Bool.eq_false_iff.mpr fun hp => of_decide_eq_false hnot ?_
    rw [List.take_of_length_le (length_named_lt ht).le]
    exact List.mem_filter.mpr ⟨hr, hp⟩

/-- What batches take before a call that throws. -/
def batchesBefore (batchSize : ℕ) : Option ℕ → List ρ → List ρ
  | none, named => named
  | some calls, named => named.take (calls * batchSize)

theorem mem_of_mem_batchesBefore {batchSize : ℕ} {throwsAt : Option ℕ} {named : List ρ} {r : ρ}
    (h : r ∈ batchesBefore batchSize throwsAt named) : r ∈ named := by
  cases throwsAt with
  | none => exact h
  | some calls => exact List.mem_of_mem_take h

/-- The first rows of a list taken out of it leave the others. -/
theorem filter_not_mem_take [DecidableEq ρ] {l : List ρ} (hl : l.Nodup) (n : ℕ) :
    (l.filter fun r => !decide (r ∈ l.take n)) = l.drop n := by
  have hsplit := List.take_append_drop n l
  have hapart := List.nodup_append'.mp (hsplit.symm ▸ hl)
  have htaken : ((l.take n).filter fun r => !decide (r ∈ l.take n)) = [] := by
    refine List.filter_eq_nil_iff.mpr fun r hr => ?_
    rw [decide_eq_true hr, Bool.not_true]
    exact Bool.false_ne_true
  have hleft : ((l.drop n).filter fun r => !decide (r ∈ l.take n)) = l.drop n := by
    refine List.filter_eq_self.mpr fun r hr => ?_
    rw [decide_eq_false fun htake => hapart.2.2 htake hr, Bool.not_false]
  calc (l.filter fun r => !decide (r ∈ l.take n))
      = ((l.take n ++ l.drop n).filter fun r => !decide (r ∈ l.take n)) := by rw [hsplit]
    _ = l.drop n := by rw [List.filter_append, htaken, hleft, List.nil_append]

/-- A pass that is not the last deletes a row. -/
theorem IsPass.shorter (hpass : IsPass p pass least) (hleast : 0 < least) {t : Table key}
    (hmore : ¬(pass t).2 < least) : (pass t).1.rows.length < t.rows.length := by
  obtain ⟨q, -, heq⟩ := hpass.deletes t
  have hlength := Table.length_deleteWhere q t
  rw [heq] at hmore ⊢
  dsimp only at hmore ⊢
  omega

/-- **The loop ends**, whatever throws, with as many passes as there are
rows to spare. -/
theorem loopEnds_deleteLoop (hpass : IsPass p pass least) (hleast : 0 < least)
    {throwsAt : Option ℕ} {fuel : ℕ} {t : Table key} (hfuel : t.rows.length < fuel) :
    LoopEnds pass least throwsAt t (deleteLoop pass least throwsAt fuel t) := by
  induction fuel generalizing throwsAt t with
  | zero => omega
  | succ fuel ih =>
    unfold deleteLoop
    split
    · rename_i hthrown
      rw [hthrown]
      exact .thrown t
    · rename_i hok
      split
      · rename_i hlast
        exact .done hok hlast
      · rename_i hmore
        have hshorter := hpass.shorter hleast hmore
        exact .again hok hmore (ih (by omega))

/-- **What batches leave**: everything but the rows of the calls before
the one that throws. -/
theorem mem_deleteLoop_batch [DecidableEq ρ] {batchSize : ℕ} (hbatch : 0 < batchSize)
    {throwsAt : Option ℕ} {fuel : ℕ} {t : Table key} (hfuel : t.rows.length < fuel) {r : ρ} :
    r ∈ deleteLoop (deleteBatch p batchSize) batchSize throwsAt fuel t ↔
      r ∈ t ∧ r ∉ batchesBefore batchSize throwsAt (t.rows.filter p) := by
  induction fuel generalizing throwsAt t with
  | zero => omega
  | succ fuel ih =>
    have hmem : r ∈ (deleteBatch p batchSize t).1 ↔
        r ∈ t ∧ r ∉ (t.rows.filter p).take batchSize := by
      rw [deleteBatch, Table.mem_deleteWhere, decide_eq_false_iff_not]
    unfold deleteLoop
    by_cases hthrown : throwsAt = some 0
    · rw [if_pos hthrown, hthrown, batchesBefore, Nat.zero_mul, List.take_zero]
      exact (and_iff_left List.not_mem_nil).symm
    rw [if_neg hthrown]
    by_cases hlast : (deleteBatch p batchSize t).2 < batchSize
    · -- the last batch holds every row named, and so do all the batches
      have hfew := length_named_lt hlast
      have hall : batchesBefore batchSize throwsAt (t.rows.filter p) = t.rows.filter p := by
        cases throwsAt with
        | none => rfl
        | some calls =>
          have hcalls : 1 ≤ calls := Nat.one_le_iff_ne_zero.mpr fun h => hthrown (h ▸ rfl)
          have := Nat.mul_le_mul_right batchSize hcalls
          exact List.take_of_length_le (by omega)
      rw [if_pos hlast, hmem, hall, List.take_of_length_le hfew.le]
    · have hnamed : (deleteBatch p batchSize t).1.rows.filter p =
          (t.rows.filter p).drop batchSize := by
        have hnodup : (t.rows.filter p).Nodup := (t.unique.of_map _).filter _
        rw [← filter_not_mem_take hnodup batchSize, List.filter_filter]
        dsimp only [deleteBatch, Table.deleteWhere]
        rw [List.filter_filter]
        exact List.filter_congr fun x _ => Bool.and_comm _ _
      have hshorter := (isPass_batch p batchSize).shorter hbatch hlast
      rw [if_neg hlast, ih (by omega), hmem, hnamed, and_assoc]
      refine and_congr_right fun hr => ?_
      cases throwsAt with
      | none =>
        rw [Option.map_none, batchesBefore, batchesBefore, ← not_or, ← List.mem_append,
          List.take_append_drop]
      | some calls =>
        have hcalls : calls * batchSize = batchSize + (calls - 1) * batchSize := by
          obtain ⟨n, rfl⟩ := Nat.exists_eq_succ_of_ne_zero fun h : calls = 0 => hthrown (h ▸ rfl)
          rw [Nat.succ_sub_one, Nat.succ_mul, Nat.add_comm]
        rw [Option.map_some, batchesBefore, batchesBefore, hcalls, ← not_or, ← List.mem_append,
          List.take_add]

end HoodSentry
