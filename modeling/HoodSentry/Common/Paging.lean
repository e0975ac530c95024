import Mathlib
/-!
# Keyset paging

A sorted list read in pages, each page beginning past the cursor of the
last row of the one before. Reading on until there is no cursor gives the
list exactly when every boundary between two pages parts its rows: the
row before it is not past its own cursor, and the row after it is.
-/

namespace HoodSentry

universe u v

namespace Keyset

variable {α : Type u} {γ : Type v} (l : List α) (cursor : α → γ) (past : γ → α → Bool)
variable (limit : ℕ)

/-- The rows past a cursor, or all of them. -/
def rest : Option γ → List α
  | none => l
  | some c => l.filter (past c)

/-- One page, and the cursor of its last row where more rows follow. -/
def page (c : Option γ) : List α × Option γ :=
  let rows := (rest l past c).take (limit + 1)
  let data := if limit < rows.length then rows.take limit else rows
  (data, if limit < rows.length then data.getLast?.map cursor else none)

/-- **Reading on** from a cursor until there is none; `none` is out of
fuel. -/
def follow : ℕ → Option γ → Option (List α)
  | 0, _ => none
  | fuel + 1, c =>
    match page l cursor past limit c with
    | (data, none) => some data
    | (data, some c') => (follow fuel (some c')).map (data ++ ·)

/-- A boundary parts its rows. -/
def Parted (last next : α) : Prop := past (cursor last) last = false ∧ past (cursor last) next = true

/-- **Every boundary parts its rows.** -/
def BoundariesParted : Prop :=
  ∀ k last next, 0 < k → l[k * limit - 1]? = some last → l[k * limit]? = some next →
    Parted cursor past last next

variable {l cursor past limit}

/-! ## One page -/

/-- **A page** of rows `r`: the first of them, and whether more follow. -/
theorem page_eq {c : Option γ} {r : List α} (h : rest l past c = r) :
    page l cursor past limit c =
      (r.take limit, if limit < r.length then (r.take limit).getLast?.map cursor else none) := by
  have hlength : (r.take (limit + 1)).length = min (limit + 1) r.length := List.length_take
  unfold page
  rw [h]
  dsimp only
  by_cases hmore : limit < r.length
  · rw [if_pos (by omega), if_pos (by omega), if_pos hmore, List.take_take,
      Nat.min_eq_left (Nat.le_succ limit)]
  · rw [if_neg (by omega), if_neg (by omega), if_neg hmore, List.take_of_length_le (by omega),
      List.take_of_length_le (by omega)]

variable (hmono : ∀ c, l.Pairwise fun a b => past c a = true → past c b = true)

include hmono in
/-- **The rows past the cursor of a parted boundary** are those after it. -/
theorem filter_eq_drop {j : ℕ} {last next : α} (hlast : l[j]? = some last)
    (hnext : l[j + 1]? = some next) (h : Parted cursor past last next) :
    l.filter (past (cursor last)) = l.drop (j + 1) := by
  have hj : j < l.length := (List.getElem?_eq_some_iff.mp hlast).1
  have hpairs := List.pairwise_iff_getElem.mp (hmono (cursor last))
  have hbefore : (l.take (j + 1)).filter (past (cursor last)) = [] := by
    refine List.filter_eq_nil_iff.mpr fun a ha hpast => ?_
    obtain ⟨i, hi, rfl⟩ := List.getElem_of_mem ha
    rw [List.length_take] at hi
    rw [List.getElem_take] at hpast
    have hlast' : l[j] = last := (List.getElem?_eq_some_iff.mp hlast).2
    have hpast' : past (cursor last) last = true := by
      rcases Nat.eq_or_lt_of_le (Nat.lt_succ_iff.mp (Nat.lt_of_lt_of_le hi (Nat.min_le_left ..))) with
        rfl | hlt
      · exact hlast' ▸ hpast
      · exact hlast' ▸ hpairs i j (by omega) hj hlt hpast
    exact Bool.false_ne_true (h.1.symm.trans hpast')
  have hafter : (l.drop (j + 1)).filter (past (cursor last)) = l.drop (j + 1) := by
    refine List.filter_eq_self.mpr fun a ha => ?_
    obtain ⟨i, hi, rfl⟩ := List.getElem_of_mem ha
    rw [List.length_drop] at hi
    obtain ⟨hj', hnext'⟩ := List.getElem?_eq_some_iff.mp hnext
    rw [List.getElem_drop]
    cases i with
    | zero => exact hnext' ▸ h.2
    | succ i => exact hpairs (j + 1) (j + 1 + (i + 1)) hj' (by omega) (by omega) (hnext' ▸ h.2)
  calc l.filter (past (cursor last))
      = (l.take (j + 1) ++ l.drop (j + 1)).filter (past (cursor last)) := by
        rw [List.take_append_drop]
    _ = l.drop (j + 1) := by rw [List.filter_append, hbefore, hafter, List.nil_append]

/-- **A boundary whose rest begins right** is parted. -/
theorem parted_of_head {j : ℕ} {last next : α} (hnodup : l.Nodup) (hlast : l[j]? = some last)
    (hnext : l[j + 1]? = some next) (hhead : (l.filter (past (cursor last))).head? = some next) :
    Parted cursor past last next := by
  have hmem : next ∈ l.filter (past (cursor last)) := List.mem_of_head? hhead
  refine ⟨?_, (List.mem_filter.mp hmem).2⟩
  by_contra hpast
  rw [Bool.not_eq_false] at hpast
  -- the row before the boundary would come first
  obtain ⟨hj, hlast'⟩ := List.getElem?_eq_some_iff.mp hlast
  obtain ⟨hj', hnext'⟩ := List.getElem?_eq_some_iff.mp hnext
  have hsplit : l = l.take j ++ last :: l.drop (j + 1) := by
    rw [← hlast', ← List.drop_eq_getElem_cons hj, List.take_append_drop]
  rw [hsplit, List.filter_append, List.filter_cons_of_pos hpast] at hhead
  have hfirst : next ∈ l.take j ++ [last] := by
    cases hfilter : (l.take j).filter (past (cursor last)) with
    | nil =>
      rw [hfilter, List.nil_append, List.head?_cons] at hhead
      exact List.mem_append_right _ (List.mem_singleton.mpr (Option.some.inj hhead).symm)
    | cons a as =>
      rw [hfilter, List.cons_append, List.head?_cons] at hhead
      obtain rfl := Option.some.inj hhead
      exact List.mem_append_left _ (List.mem_of_mem_filter (hfilter ▸ List.mem_cons_self))
  have htake : l.take j ++ [last] = l.take (j + 1) := by
    rw [← hlast', List.take_append_getElem hj]
  rw [htake] at hfirst
  obtain ⟨i, hi, heq⟩ := List.getElem_of_mem hfirst
  rw [List.length_take] at hi
  rw [List.getElem_take] at heq
  have hsame := (List.Nodup.getElem_inj_iff hnodup).mp (heq.trans hnext'.symm)
  omega

/-! ## Reading on -/

/-- What is read begins with the first row past the cursor. -/
theorem head?_follow (hlimit : 0 < limit) {fuel : ℕ} {c : Option γ} {r : List α}
    (h : follow l cursor past limit fuel c = some r) : r.head? = (rest l past c).head? := by
  have hdata : ((rest l past c).take limit).head? = (rest l past c).head? := by
    rw [List.head?_take, if_neg (Nat.ne_of_gt hlimit)]
  cases fuel with
  | zero => exact absurd h.symm (Option.some_ne_none _)
  | succ fuel =>
    rw [follow, page_eq rfl] at h
    split at h
    · rename_i data hpage
      obtain rfl := Option.some.inj h
      rw [← (Prod.mk.inj hpage).1, hdata]
    · rename_i data c' hpage
      obtain ⟨hfirst, hmore⟩ := Prod.mk.inj hpage
      obtain ⟨r', -, rfl⟩ := Option.map_eq_some_iff.mp h
      rw [← hfirst, List.head?_append, hdata]
      cases hnil : rest l past c with
      | nil =>
        rw [hnil, List.length_nil, if_neg (Nat.not_lt_zero _)] at hmore
        exact absurd hmore.symm (Option.some_ne_none _)
      | cons a as => rfl

/-- The last row of a page that is not the last. -/
theorem getLast?_take_drop {m : ℕ} (hlimit : 0 < limit) (hmore : limit < (l.drop m).length) :
    ((l.drop m).take limit).getLast? = l[m + limit - 1]? := by
  rw [List.getLast?_eq_getElem?, List.length_take, Nat.min_eq_left hmore.le,
    List.getElem?_take_of_lt (by omega), List.getElem?_drop]
  congr 1
  omega

include hmono in
/-- **Past a boundary that is parted** the next page begins after it. -/
theorem rest_of_parted {k : ℕ} {c' : γ} (hlimit : 0 < limit)
    (hmore : limit < (l.drop (k * limit)).length)
    (hc : ((l.drop (k * limit)).take limit).getLast?.map cursor = some c')
    (hparted : ∀ last next, l[(k + 1) * limit - 1]? = some last →
      l[(k + 1) * limit]? = some next → Parted cursor past last next) :
    rest l past (some c') = l.drop ((k + 1) * limit) := by
  rw [List.length_drop] at hmore
  have hsucc : (k + 1) * limit = k * limit + limit := Nat.succ_mul k limit
  obtain ⟨last, hlast, rfl⟩ := Option.map_eq_some_iff.mp hc
  rw [getLast?_take_drop hlimit (by rwa [List.length_drop]), ← hsucc] at hlast
  have hnext : l[(k + 1) * limit]? = some l[(k + 1) * limit] := List.getElem?_eq_getElem (by omega)
  have hback : (k + 1) * limit - 1 + 1 = (k + 1) * limit := by omega
  rw [rest, filter_eq_drop hmono hlast (hback.symm ▸ hnext) (hparted _ _ hlast hnext), hback]

include hmono in
/-- **Where every boundary is parted** reading on gives what is left. -/
theorem follow_of_parted (hlimit : 0 < limit) (hparted : BoundariesParted l cursor past limit)
    {n k : ℕ} {c : Option γ} (hc : rest l past c = l.drop (k * limit))
    (hn : l.length ≤ (k + n) * limit) :
    follow l cursor past limit (n + 1) c = some (l.drop (k * limit)) := by
  induction n generalizing k c with
  | zero =>
    have hnil : l.drop (k * limit) = [] := List.drop_of_length_le hn
    rw [follow, page_eq hc, hnil, List.take_nil, List.length_nil, if_neg (Nat.not_lt_zero _)]
  | succ n ih =>
    have hsucc : (k + 1) * limit = k * limit + limit := Nat.succ_mul k limit
    rw [follow, page_eq hc]
    by_cases hmore : limit < (l.drop (k * limit)).length
    · have hne : (l.drop (k * limit)).take limit ≠ [] := by
        rw [ne_eq, List.take_eq_nil_iff, not_or]
        exact ⟨Nat.ne_of_gt hlimit, fun h => by rw [h] at hmore; exact Nat.not_lt_zero _ hmore⟩
      obtain ⟨last, hlast⟩ := Option.isSome_iff_exists.mp (List.getLast?_isSome.mpr hne)
      have hc' := rest_of_parted hmono hlimit hmore (congrArg (Option.map cursor) hlast)
        fun last next => hparted (k + 1) last next (Nat.succ_pos k)
      rw [if_pos hmore, hlast, Option.map_some]
      dsimp only
      rw [ih hc' (by rwa [Nat.add_right_comm, Nat.add_assoc]), Option.map_some, hsucc,
        ← List.drop_drop, List.take_append_drop]
    · rw [if_neg hmore]
      dsimp only
      rw [List.take_of_length_le (Nat.le_of_not_lt hmore)]

include hmono in
/-- **Where reading on gives what is left** every later boundary is
parted. -/
theorem parted_of_follow (hlimit : 0 < limit) (hnodup : l.Nodup) {fuel k : ℕ} {c : Option γ}
    (hc : rest l past c = l.drop (k * limit))
    (h : follow l cursor past limit fuel c = some (l.drop (k * limit))) :
    ∀ k' last next, k < k' → l[k' * limit - 1]? = some last → l[k' * limit]? = some next →
      Parted cursor past last next := by
  induction fuel generalizing k c with
  | zero => exact absurd h.symm (Option.some_ne_none _)
  | succ fuel ih =>
    intro k' last next hk hlast hnext
    have hsucc : (k + 1) * limit = k * limit + limit := Nat.succ_mul k limit
    have hle : (k + 1) * limit ≤ k' * limit := Nat.mul_le_mul_right limit hk
    have hlength : k' * limit < l.length := (List.getElem?_eq_some_iff.mp hnext).1
    have hmore : limit < (l.drop (k * limit)).length := by
      rw [List.length_drop]
      omega
    rw [follow, page_eq hc, if_pos hmore] at h
    split at h
    · rename_i data hpage
      have hnone := Option.map_eq_none_iff.mp (Prod.mk.inj hpage).2
      rw [getLast?_take_drop hlimit hmore, List.getElem?_eq_none_iff] at hnone
      omega
    rename_i data c' hpage
    obtain ⟨rfl, hc'⟩ := Prod.mk.inj hpage
    obtain ⟨r, hr, happend⟩ := Option.map_eq_some_iff.mp h
    have hrest : r = l.drop ((k + 1) * limit) := by
      have hboth : (l.drop (k * limit)).take limit ++ r =
          (l.drop (k * limit)).take limit ++ (l.drop (k * limit)).drop limit := by
        rw [happend, List.take_append_drop]
      rw [List.append_cancel_left hboth, List.drop_drop, hsucc]
    -- what comes next begins right, so this boundary is parted
    have hhere : ∀ last next, l[(k + 1) * limit - 1]? = some last →
        l[(k + 1) * limit]? = some next → Parted cursor past last next := by
      intro last next hlast hnext
      have hback : (k + 1) * limit - 1 + 1 = (k + 1) * limit := by omega
      obtain ⟨last', hlast', hcursor⟩ := Option.map_eq_some_iff.mp hc'
      rw [getLast?_take_drop hlimit hmore, ← hsucc] at hlast'
      obtain rfl := Option.some.inj (hlast'.symm.trans hlast)
      refine parted_of_head hnodup hlast (hback.symm ▸ hnext) ?_
      have hhead := head?_follow hlimit hr
      rw [hrest, List.head?_drop, hnext] at hhead
      rw [hcursor]
      exact hhead.symm
    rcases Nat.eq_or_lt_of_le (Nat.succ_le_of_lt hk) with rfl | hlater
    · exact hhere last next hlast hnext
    · exact ih (rest_of_parted hmono hlimit hmore hc' hhere) (hrest ▸ hr) k' last next hlater hlast
        hnext

include hmono in
/-- **Reading on from the first page gives the list exactly when** every
boundary parts its rows. -/
theorem follow_iff_parted (hlimit : 0 < limit) (hnodup : l.Nodup) :
    (∃ fuel, follow l cursor past limit fuel none = some l) ↔
      BoundariesParted l cursor past limit := by
  have hfirst : rest l past none = l.drop (0 * limit) := by rw [Nat.zero_mul, List.drop_zero, rest]
  constructor
  · rintro ⟨fuel, h⟩ k last next hk
    have hall : follow l cursor past limit fuel none = some (l.drop (0 * limit)) := by
      rw [h, Nat.zero_mul, List.drop_zero]
    exact parted_of_follow hmono hlimit hnodup hfirst hall k last next hk
  · intro hparted
    have hn : l.length ≤ (0 + l.length) * limit := by
      rw [Nat.zero_add]
      exact Nat.le_mul_of_pos_right _ hlimit
    have hall := follow_of_parted hmono hlimit hparted hfirst hn
    rw [Nat.zero_mul, List.drop_zero] at hall
    exact ⟨_, hall⟩

end Keyset

end HoodSentry
