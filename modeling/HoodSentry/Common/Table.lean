import Mathlib
/-!
# Keyed tables

A relational table with a unique key: a list of rows no two of which
share their key, which the structure carries, so every statement below
keeps it. `insertNew` is `INSERT … ON CONFLICT DO NOTHING`, `upsert` is
`INSERT … ON CONFLICT DO UPDATE`, `updateWhere` and `deleteWhere` are the
conditional statements. Each comes with the membership lemma a proof
reads it by.
-/

namespace HoodSentry

universe u v

/-- **A table keyed by `key`.** -/
@[ext] structure Table {ρ : Type u} {κ : Type v} (key : ρ → κ) where
  rows : List ρ
  unique : (rows.map key).Nodup

namespace Table

variable {ρ : Type u} {κ : Type v} {key : ρ → κ}

instance : Membership ρ (Table key) := ⟨fun t r => r ∈ t.rows⟩

theorem mem_iff {t : Table key} {r : ρ} : r ∈ t ↔ r ∈ t.rows := Iff.rfl

instance [DecidableEq ρ] (r : ρ) (t : Table key) : Decidable (r ∈ t) :=
  inferInstanceAs (Decidable (r ∈ t.rows))

instance (t : Table key) (p : ρ → Prop) [DecidablePred p] : Decidable (∀ r ∈ t, p r) :=
  inferInstanceAs (Decidable (∀ r ∈ t.rows, p r))

/-- The keys in use. -/
def keys (t : Table key) : List κ := t.rows.map key

instance [DecidableEq κ] (k : κ) (t : Table key) : Decidable (k ∈ t.keys) :=
  inferInstanceAs (Decidable (k ∈ t.rows.map key))

theorem mem_keys {t : Table key} {k : κ} : k ∈ t.keys ↔ ∃ r ∈ t, key r = k := List.mem_map

theorem key_mem_keys {t : Table key} {r : ρ} (h : r ∈ t) : key r ∈ t.keys :=
  mem_keys.mpr ⟨r, h, rfl⟩

/-- **A key names one row.** -/
theorem eq_of_key_eq {t : Table key} {r r' : ρ} (h : r ∈ t) (h' : r' ∈ t)
    (hk : key r = key r') : r = r' :=
  List.inj_on_of_nodup_map t.unique h h' hk

/-- The empty table. -/
def empty : Table key := ⟨[], List.nodup_nil⟩

instance : EmptyCollection (Table key) := ⟨empty⟩

/-- A table of one row. -/
def singleton (r : ρ) : Table key := ⟨[r], List.nodup_singleton _⟩

@[simp] theorem rows_empty : (∅ : Table key).rows = [] := rfl

@[simp] theorem notMem_empty (r : ρ) : r ∉ (∅ : Table key) := List.not_mem_nil

/-! ## Conditional statements -/

/-- `UPDATE … WHERE`. The assignment leaves the key alone. -/
def updateWhere (t : Table key) (p : ρ → Bool) (f : ρ → ρ) (hf : ∀ r, key (f r) = key r) :
    Table key where
  rows := t.rows.map fun r => if p r then f r else r
  unique := by
    have hk : (t.rows.map fun r => if p r then f r else r).map key = t.rows.map key := by
      rw [List.map_map]
      refine List.map_congr_left fun r _ => ?_
      simp only [Function.comp_apply]
      split
      · exact hf r
      · rfl
    rw [hk]
    exact t.unique

theorem mem_updateWhere {t : Table key} {p : ρ → Bool} {f : ρ → ρ}
    {hf : ∀ r, key (f r) = key r} {x : ρ} :
    x ∈ t.updateWhere p f hf ↔ ∃ r ∈ t, (if p r then f r else r) = x := List.mem_map

/-- No key comes or goes. -/
@[simp] theorem keys_updateWhere {t : Table key} {p : ρ → Bool} {f : ρ → ρ}
    {hf : ∀ r, key (f r) = key r} : (t.updateWhere p f hf).keys = t.keys := by
  unfold keys updateWhere
  rw [List.map_map]
  refine List.map_congr_left fun r _ => ?_
  simp only [Function.comp_apply]
  split
  · exact hf r
  · rfl

/-- Every row is rewritten or kept. -/
theorem ite_mem_updateWhere {t : Table key} {p : ρ → Bool} {f : ρ → ρ} {r : ρ} (h : r ∈ t)
    (hf : ∀ r, key (f r) = key r := by exact fun _ => rfl) :
    (if p r then f r else r) ∈ t.updateWhere p f hf :=
  mem_updateWhere.mpr ⟨r, h, rfl⟩

/-- **Rows and what became of them**: every row of either table bears the
relation to one of the other. -/
def Related (R : ρ → ρ → Prop) (t' t : Table key) : Prop :=
  (∀ x ∈ t', ∃ r ∈ t, R x r) ∧ ∀ r ∈ t, ∃ x ∈ t', R x r

theorem related_updateWhere {t : Table key} {p : ρ → Bool} {f : ρ → ρ}
    {hf : ∀ r, key (f r) = key r} {R : ρ → ρ → Prop} (hR : ∀ r, R (if p r then f r else r) r) :
    Related R (t.updateWhere p f hf) t := by
  constructor
  · intro x hx
    obtain ⟨r, hr, rfl⟩ := mem_updateWhere.mp hx
    exact ⟨r, hr, hR r⟩
  · intro r hr
    exact ⟨_, mem_updateWhere.mpr ⟨r, hr, rfl⟩, hR r⟩

/-- A relation that survives another statement. -/
theorem Related.updateWhere {t t₀ : Table key} {p : ρ → Bool} {f : ρ → ρ}
    {hf : ∀ r, key (f r) = key r} {R : ρ → ρ → Prop} (h : Related R t t₀)
    (hR : ∀ r r₀, R r r₀ → R (if p r then f r else r) r₀) :
    Related R (t.updateWhere p f hf) t₀ := by
  obtain ⟨hfrom, hto⟩ := h
  constructor
  · intro x hx
    obtain ⟨r, hr, rfl⟩ := mem_updateWhere.mp hx
    obtain ⟨r₀, hr₀, hrr⟩ := hfrom r hr
    exact ⟨r₀, hr₀, hR r r₀ hrr⟩
  · intro r₀ hr₀
    obtain ⟨r, hr, hrr⟩ := hto r₀ hr₀
    exact ⟨_, mem_updateWhere.mpr ⟨r, hr, rfl⟩, hR r r₀ hrr⟩

/-- A condition no row meets changes nothing. -/
theorem updateWhere_eq_self {t : Table key} {p : ρ → Bool} {f : ρ → ρ}
    {hf : ∀ r, key (f r) = key r} (h : ∀ r ∈ t, p r = false) : t.updateWhere p f hf = t := by
  refine Table.ext ?_
  calc t.rows.map (fun r => if p r then f r else r) = t.rows.map id := by
        refine List.map_congr_left fun r hr => ?_
        rw [h r hr]
        rfl
    _ = t.rows := List.map_id _

/-- A row the condition meets is rewritten. -/
theorem mem_updateWhere_of {t : Table key} {p : ρ → Bool} {f : ρ → ρ} {r : ρ} (h : r ∈ t)
    (hp : p r = true) (hf : ∀ r, key (f r) = key r := by exact fun _ => rfl) :
    f r ∈ t.updateWhere p f hf :=
  mem_updateWhere.mpr ⟨r, h, by rw [hp]; rfl⟩

/-- A row the condition misses stays as it is. -/
theorem mem_updateWhere_of_not {t : Table key} {p : ρ → Bool} {f : ρ → ρ} {r : ρ} (h : r ∈ t)
    (hp : p r = false) (hf : ∀ r, key (f r) = key r := by exact fun _ => rfl) :
    r ∈ t.updateWhere p f hf :=
  mem_updateWhere.mpr ⟨r, h, by rw [hp]; rfl⟩

/-- **Clearing a flag where a condition holds** keeps exactly the flagged
rows it misses. -/
theorem mem_updateWhere_flag {t : Table key} {p : ρ → Bool} (c : ρ → Bool) {f : ρ → ρ}
    {hf : ∀ r, key (f r) = key r} (hc : ∀ r, c (f r) = false) {x : ρ} :
    x ∈ t.updateWhere (fun r => p r && c r) f hf ∧ c x = true ↔
      (x ∈ t ∧ c x = true) ∧ p x = false := by
  rw [mem_updateWhere]
  constructor
  · rintro ⟨⟨r, hr, rfl⟩, hx⟩
    by_cases hp : (p r && c r) = true
    · rw [if_pos hp, hc] at hx
      exact absurd hx Bool.false_ne_true
    · rw [if_neg hp] at hx ⊢
      exact ⟨⟨hr, hx⟩, by simpa [hx] using hp⟩
  · rintro ⟨⟨hx, hcx⟩, hp⟩
    exact ⟨⟨x, hx, by rw [hp]; rfl⟩, hcx⟩

/-- Cleared whatever it was, a flag stays only where the condition misses. -/
theorem mem_updateWhere_clear {t : Table key} {p : ρ → Bool} (c : ρ → Bool) {f : ρ → ρ}
    (hf : ∀ r, key (f r) = key r) (hc : ∀ r, c (f r) = false) {x : ρ} (hx : c x = true) :
    x ∈ t.updateWhere p f hf ↔ x ∈ t ∧ p x = false := by
  rw [mem_updateWhere]
  constructor
  · rintro ⟨r, hr, rfl⟩
    by_cases hp : p r = true
    · rw [if_pos hp, hc] at hx
      exact absurd hx Bool.false_ne_true
    · rw [if_neg hp]
      exact ⟨hr, by simpa using hp⟩
  · rintro ⟨hmem, hp⟩
    exact ⟨x, hmem, by rw [hp]; rfl⟩

/-- `DELETE … WHERE`. -/
def deleteWhere (t : Table key) (p : ρ → Bool) : Table key where
  rows := t.rows.filter fun r => !p r
  unique := t.unique.sublist (List.filter_sublist.map key)

@[simp] theorem mem_deleteWhere {t : Table key} {p : ρ → Bool} {r : ρ} :
    r ∈ t.deleteWhere p ↔ r ∈ t ∧ p r = false := by
  simp [mem_iff, deleteWhere]

theorem deleteWhere_singleton {p : ρ → Bool} {r : ρ} (h : p r = true) :
    (singleton r : Table key).deleteWhere p = ∅ :=
  Table.ext (by simp [deleteWhere, singleton, h])

/-! ## Inserts -/

section Insert

variable [DecidableEq κ]

/-- `INSERT … ON CONFLICT DO NOTHING`. -/
def insertNew (t : Table key) (r : ρ) : Table key :=
  if h : key r ∈ t.keys then t
  else
    { rows := t.rows ++ [r]
      unique := by
        rw [List.map_append, List.map_singleton]
        refine List.nodup_append.mpr ⟨t.unique, List.nodup_singleton _, fun k hk k' hk' => ?_⟩
        rintro rfl
        exact h (List.mem_singleton.mp hk' ▸ hk) }

theorem mem_insertNew {t : Table key} {r x : ρ} :
    x ∈ t.insertNew r ↔ x ∈ t ∨ (x = r ∧ key r ∉ t.keys) := by
  unfold insertNew
  split
  · rename_i h
    simp [h]
  · rename_i h
    simp [mem_iff, h]

/-- Under a free key the row is appended. -/
theorem rows_insertNew {t : Table key} {r : ρ} (h : key r ∉ t.keys) :
    (t.insertNew r).rows = t.rows ++ [r] := by
  rw [insertNew, dif_neg h]

@[simp] theorem insertNew_empty (r : ρ) : (∅ : Table key).insertNew r = singleton r :=
  Table.ext (rows_insertNew List.not_mem_nil)

/-- What was stored stays stored. -/
theorem mem_insertNew_of_mem {t : Table key} {r x : ρ} (h : x ∈ t) : x ∈ t.insertNew r :=
  mem_insertNew.mpr (Or.inl h)

theorem mem_keys_insertNew {t : Table key} {r : ρ} {k : κ} :
    k ∈ (t.insertNew r).keys ↔ k ∈ t.keys ∨ k = key r := by
  constructor
  · intro h
    obtain ⟨x, hx, rfl⟩ := mem_keys.mp h
    rcases mem_insertNew.mp hx with hx | ⟨rfl, -⟩
    · exact Or.inl (key_mem_keys hx)
    · exact Or.inr rfl
  · rintro (h | rfl)
    · obtain ⟨x, hx, rfl⟩ := mem_keys.mp h
      exact key_mem_keys (mem_insertNew_of_mem hx)
    · by_cases h : key r ∈ t.keys
      · obtain ⟨x, hx, hk⟩ := mem_keys.mp h
        exact mem_keys.mpr ⟨x, mem_insertNew_of_mem hx, hk⟩
      · exact key_mem_keys (mem_insertNew.mpr (Or.inr ⟨rfl, h⟩))

/-- A multi-row `INSERT … ON CONFLICT DO NOTHING`: the rows in order, each
skipped when its key is taken. -/
def insertAll (t : Table key) (rs : List ρ) : Table key := rs.foldl insertNew t

@[simp] theorem insertAll_nil (t : Table key) : t.insertAll [] = t := rfl

@[simp] theorem insertAll_cons (t : Table key) (r : ρ) (rs : List ρ) :
    t.insertAll (r :: rs) = (t.insertNew r).insertAll rs := rfl

theorem mem_insertAll_of_mem {rs : List ρ} {t : Table key} {x : ρ} (h : x ∈ t) :
    x ∈ t.insertAll rs := by
  induction rs generalizing t with
  | nil => exact h
  | cons r rs ih => exact ih (mem_insertNew_of_mem h)

/-- **What an insert can add**: a row it was given, under a key that was
free. -/
theorem mem_of_mem_insertAll {rs : List ρ} {t : Table key} {x : ρ} (h : x ∈ t.insertAll rs) :
    x ∈ t ∨ (x ∈ rs ∧ key x ∉ t.keys) := by
  induction rs generalizing t with
  | nil => exact Or.inl h
  | cons r rs ih =>
    rcases ih h with hx | ⟨hx, hk⟩
    · rcases mem_insertNew.mp hx with hx | ⟨rfl, hk⟩
      · exact Or.inl hx
      · exact Or.inr ⟨List.mem_cons_self, hk⟩
    · exact Or.inr ⟨List.mem_cons_of_mem _ hx,
        fun hm => hk (mem_keys_insertNew.mpr (Or.inl hm))⟩

theorem mem_keys_insertAll {rs : List ρ} {t : Table key} {k : κ} :
    k ∈ (t.insertAll rs).keys ↔ k ∈ t.keys ∨ k ∈ rs.map key := by
  induction rs generalizing t with
  | nil => simp
  | cons r rs ih =>
    rw [insertAll_cons, ih, mem_keys_insertNew, List.map_cons, List.mem_cons, or_assoc]

/-- **What an insert does add**: under a free key, a row it was given with
that key. -/
theorem exists_mem_insertAll {rs : List ρ} {t : Table key} {r : ρ} (hr : r ∈ rs)
    (hk : key r ∉ t.keys) : ∃ x ∈ t.insertAll rs, x ∈ rs ∧ key x = key r := by
  have hkey : key r ∈ (t.insertAll rs).keys :=
    mem_keys_insertAll.mpr (Or.inr (List.mem_map_of_mem hr))
  obtain ⟨x, hx, hxk⟩ := mem_keys.mp hkey
  rcases mem_of_mem_insertAll hx with hxt | ⟨hxr, -⟩
  · exact absurd (hxk ▸ key_mem_keys hxt) hk
  · exact ⟨x, hx, hxr, hxk⟩

/-- Inserting rows under free and distinct keys appends them. -/
theorem rows_insertAll {t : Table key} {rs : List ρ} (hnodup : (rs.map key).Nodup) (hfree : ∀ r ∈ rs, key r ∉ t.keys) :
    (t.insertAll rs).rows = t.rows ++ rs := by
  induction rs generalizing t with
  | nil => simp
  | cons r rs ih =>
    rw [List.map_cons, List.nodup_cons] at hnodup
    have hrest : ∀ x ∈ rs, key x ∉ (t.insertNew r).keys := by
      intro x hx hk
      rcases mem_keys_insertNew.mp hk with hk | hk
      · exact hfree x (List.mem_cons_of_mem _ hx) hk
      · exact hnodup.1 (List.mem_map.mpr ⟨x, hx, hk⟩)
    rw [insertAll_cons, ih hnodup.2 hrest, rows_insertNew (hfree r List.mem_cons_self),
      List.append_assoc, List.singleton_append]

/-- `INSERT … ON CONFLICT DO UPDATE`: `merge` rewrites the row already
stored under the key. -/
def upsert (t : Table key) (r : ρ) (merge : ρ → ρ) (hm : ∀ old, key (merge old) = key old) :
    Table key :=
  if key r ∈ t.keys then t.updateWhere (fun old => decide (key old = key r)) merge hm
  else t.insertNew r

theorem mem_upsert {t : Table key} {r x : ρ} {merge : ρ → ρ}
    {hm : ∀ old, key (merge old) = key old} :
    x ∈ t.upsert r merge hm ↔
      (x ∈ t ∧ key x ≠ key r) ∨ (∃ old ∈ t, key old = key r ∧ x = merge old) ∨
        (x = r ∧ key r ∉ t.keys) := by
  unfold upsert
  split
  · rename_i hk
    rw [mem_updateWhere]
    constructor
    · rintro ⟨old, hold, rfl⟩
      by_cases he : key old = key r
      · exact Or.inr (Or.inl ⟨old, hold, he, by simp [he]⟩)
      · exact Or.inl ⟨by simpa [he] using hold, by simp [he]⟩
    · rintro (⟨hx, hne⟩ | ⟨old, hold, he, rfl⟩ | ⟨-, hnk⟩)
      · exact ⟨x, hx, by simp [hne]⟩
      · exact ⟨old, hold, by simp [he]⟩
      · exact absurd hk hnk
  · rename_i hk
    rw [mem_insertNew]
    constructor
    · rintro (hx | hx)
      · exact Or.inl ⟨hx, fun he => hk (he ▸ key_mem_keys hx)⟩
      · exact Or.inr (Or.inr hx)
    · rintro (⟨hx, -⟩ | ⟨old, hold, he, -⟩ | hx)
      · exact Or.inl hx
      · exact absurd (he ▸ key_mem_keys hold) hk
      · exact Or.inr hx

theorem mem_keys_upsert {t : Table key} {r : ρ} {merge : ρ → ρ}
    {hm : ∀ old, key (merge old) = key old} {k : κ} :
    k ∈ (t.upsert r merge hm).keys ↔ k ∈ t.keys ∨ k = key r := by
  unfold upsert
  split
  · rename_i hk
    rw [keys_updateWhere]
    refine ⟨Or.inl, ?_⟩
    rintro (h | rfl)
    · exact h
    · exact hk
  · exact mem_keys_insertNew

/-- Under a free key an upsert appends its row. -/
theorem rows_upsert_of_free {t : Table key} {r : ρ} {merge : ρ → ρ}
    {hm : ∀ old, key (merge old) = key old} (h : key r ∉ t.keys) :
    (t.upsert r merge hm).rows = t.rows ++ [r] := by
  rw [upsert, if_neg h, rows_insertNew h]

/-- A filter that an upsert's rows do not pass is not changed by it. -/
theorem filter_upsert {t : Table key} {r : ρ} {merge : ρ → ρ} {hm : ∀ old, key (merge old) = key old}
    {p : ρ → Bool} (hr : p r = false)
    (hold : ∀ old ∈ t, key old = key r → p old = false ∧ p (merge old) = false) :
    (t.upsert r merge hm).rows.filter p = t.rows.filter p := by
  by_cases hk : key r ∈ t.keys
  · rw [upsert, if_pos hk]
    change (t.rows.map fun old => if decide (key old = key r) then merge old else old).filter p = _
    have hrows : ∀ old ∈ t.rows, key old = key r → p old = false ∧ p (merge old) = false := hold
    revert hrows
    generalize t.rows = rows
    intro hrows
    induction rows with
    | nil => rfl
    | cons old rows ih =>
      have htail := ih fun x hx => hrows x (List.mem_cons_of_mem _ hx)
      rw [List.map_cons]
      by_cases hsame : key old = key r
      · obtain ⟨hbefore, hafter⟩ := hrows old List.mem_cons_self hsame
        rw [if_pos (decide_eq_true hsame), List.filter_cons_of_neg (by simp [hafter]),
          List.filter_cons_of_neg (by simp [hbefore]), htail]
      · rw [if_neg (by simpa using hsame), List.filter_cons, List.filter_cons, htail]
  · rw [rows_upsert_of_free hk, List.filter_append, List.filter_cons_of_neg (by simp [hr]),
      List.filter_nil, List.append_nil]

/-- Under the key of the last row an upsert rewrites that row and leaves
the others. -/
theorem rows_upsert_last {t : Table key} {r x : ρ} {rs : List ρ} {merge : ρ → ρ}
    {hm : ∀ old, key (merge old) = key old} (ht : t.rows = rs ++ [x]) (hx : key x = key r) :
    (t.upsert r merge hm).rows = rs ++ [merge x] := by
  have hmem : key r ∈ t.keys := mem_keys.mpr ⟨x, by rw [mem_iff, ht]; simp, hx⟩
  have hother : ∀ y ∈ rs, ¬key y = key r := by
    intro y hy hk
    have hnodup := t.unique
    rw [ht, List.map_append, List.nodup_append] at hnodup
    exact hnodup.2.2 _ (List.mem_map_of_mem hy) _ (List.mem_map_of_mem List.mem_cons_self)
      (hk.trans hx.symm)
  have hrs : rs.map (fun old => if decide (key old = key r) = true then merge old else old) = rs := by
    rw [List.map_congr_left (g := id) fun y hy => by simp [hother y hy], List.map_id]
  rw [upsert, if_pos hmem]
  simp only [updateWhere]
  rw [ht, List.map_append, hrs]
  simp [hx]

/-- A row in the place of the one stored under its key. -/
def put (t : Table key) (r : ρ) : Table key :=
  (t.deleteWhere fun x => key x = key r).insertNew r

theorem mem_put {t : Table key} {r x : ρ} :
    x ∈ t.put r ↔ (x ∈ t ∧ key x ≠ key r) ∨ x = r := by
  unfold put
  rw [mem_insertNew, mem_deleteWhere, decide_eq_false_iff_not]
  refine or_congr_right ⟨And.left, fun h => ⟨h, fun hk => ?_⟩⟩
  obtain ⟨y, hy, hyk⟩ := mem_keys.mp hk
  exact of_decide_eq_false (mem_deleteWhere.mp hy).2 hyk

theorem mem_put_self (t : Table key) (r : ρ) : r ∈ t.put r := mem_put.mpr (Or.inr rfl)

/-- A row under another key stays. -/
theorem mem_put_of_ne {t : Table key} {r x : ρ} (h : key x ≠ key r) : x ∈ t.put r ↔ x ∈ t := by
  rw [mem_put]
  constructor
  · rintro (⟨hx, -⟩ | rfl)
    · exact hx
    · exact absurd rfl h
  · intro hx
    exact Or.inl ⟨hx, h⟩

/-- What no row of the key meets reads the same rows. -/
theorem filter_rows_put {t : Table key} {r : ρ} {p : ρ → Bool}
    (h : ∀ x, key x = key r → p x = false) : (t.put r).rows.filter p = t.rows.filter p := by
  have hfree : key r ∉ (t.deleteWhere fun x => key x = key r).keys := by
    intro hk
    obtain ⟨x, hx, hxk⟩ := mem_keys.mp hk
    exact of_decide_eq_false (mem_deleteWhere.mp hx).2 hxk
  have hnew : [r].filter p = [] := by simp [h r rfl]
  rw [put, rows_insertNew hfree, List.filter_append, hnew, List.append_nil, deleteWhere,
    List.filter_filter]
  refine List.filter_congr fun x _ => ?_
  by_cases hx : key x = key r
  · simp [h x hx]
  · simp [hx]

/-- A row in the place of one that is not counted changes a count by
itself. -/
theorem countP_put {t : Table key} {r old : ρ} {p : ρ → Bool} (h : old ∈ t) (hk : key old = key r)
    (hp : p old = false) :
    (t.put r).rows.countP p = t.rows.countP p + if p r then 1 else 0 := by
  have hfree : key r ∉ (t.deleteWhere fun x => key x = key r).keys := by
    intro hmem
    obtain ⟨x, hx, hxk⟩ := mem_keys.mp hmem
    exact of_decide_eq_false (mem_deleteWhere.mp hx).2 hxk
  have hrest : (t.deleteWhere fun x => key x = key r).rows.countP p = t.rows.countP p := by
    rw [deleteWhere, List.countP_filter]
    refine List.countP_congr fun x hx => ?_
    by_cases hxk : key x = key r
    · have hx : x = old := t.eq_of_key_eq hx h (hxk.trans hk.symm)
      rw [hx, hp, Bool.false_and]
    · simp [hxk]
  rw [put, rows_insertNew hfree, List.countP_append, hrest, List.countP_singleton]

theorem put_singleton {r r' : ρ} (h : key r = key r') :
    (singleton r : Table key).put r' = singleton r' := by
  have hp : decide (key r = key r') = true := decide_eq_true h
  rw [put, deleteWhere_singleton (p := fun x => decide (key x = key r')) hp, insertNew_empty]

end Insert

/-! ## Reading by key -/

section Find

variable [DecidableEq κ]

/-- `SELECT … LIMIT 1` by the key. -/
def find (t : Table key) (k : κ) : Option ρ := t.rows.find? fun r => key r = k

theorem find_eq_some {t : Table key} {k : κ} {r : ρ} : t.find k = some r ↔ r ∈ t ∧ key r = k := by
  constructor
  · intro h
    exact ⟨List.mem_of_find?_eq_some h, by simpa using List.find?_some h⟩
  · rintro ⟨hr, rfl⟩
    have hsome : (t.rows.find? fun x => key x = key r).isSome :=
      List.find?_isSome.mpr ⟨r, hr, by simp⟩
    obtain ⟨x, hx⟩ := Option.isSome_iff_exists.mp hsome
    have hk : key x = key r := by simpa using List.find?_some hx
    rw [find, hx, t.eq_of_key_eq (List.mem_of_find?_eq_some hx) hr hk]

theorem find_eq_none {t : Table key} {k : κ} : t.find k = none ↔ k ∉ t.keys := by
  rw [find, List.find?_eq_none, mem_keys]
  constructor
  · rintro h ⟨r, hr, hk⟩
    exact h r hr (by simpa using hk)
  · intro h r hr hk
    exact h ⟨r, hr, by simpa using hk⟩

theorem find_of_mem {t : Table key} {r : ρ} (h : r ∈ t) : t.find (key r) = some r :=
  find_eq_some.mpr ⟨h, rfl⟩

@[simp] theorem find_empty (k : κ) : (∅ : Table key).find k = none := rfl

/-- An `UPDATE` rewrites the row a key names, where its condition holds. -/
theorem find_updateWhere {t : Table key} {p : ρ → Bool} {f : ρ → ρ}
    {hf : ∀ r, key (f r) = key r} {k : κ} :
    (t.updateWhere p f hf).find k = (t.find k).map fun r => if p r then f r else r := by
  have hk : ∀ r, key (if p r then f r else r) = key r := by
    intro r
    split
    · exact hf r
    · rfl
  simp only [find, updateWhere, List.find?_map]
  congr 2
  funext r
  simp only [Function.comp_apply, hk]

/-- An insert adds its row where its key is free. -/
theorem find_insertNew {t : Table key} {r : ρ} {k : κ} :
    (t.insertNew r).find k = (t.find k).or (if key r = k then some r else none) := by
  by_cases h : key r ∈ t.keys
  · rw [insertNew, dif_pos h]
    split
    · rename_i hk
      obtain ⟨x, hx⟩ := Option.ne_none_iff_exists'.mp fun hnone => find_eq_none.mp hnone (hk ▸ h)
      rw [hx, Option.some_or]
    · rw [Option.or_none]
  · rw [find, rows_insertNew h, List.find?_append, find]
    congr 1
    by_cases hk : key r = k <;> simp [hk]

/-- An upsert leaves its row or the merged one under its key. -/
theorem find_upsert {t : Table key} {r : ρ} {merge : ρ → ρ}
    {hm : ∀ old, key (merge old) = key old} {k : κ} :
    (t.upsert r merge hm).find k =
      if key r = k then some ((t.find k).elim r merge) else t.find k := by
  unfold upsert
  split
  · rename_i h
    rw [find_updateWhere]
    cases hfind : t.find k with
    | none =>
      have hne : key r ≠ k := fun hk => find_eq_none.mp hfind (hk ▸ h)
      rw [if_neg hne, Option.map_none]
    | some x =>
      have hk : key x = k := (find_eq_some.mp hfind).2
      by_cases hr : key r = k <;> simp [hk, hr, eq_comm]
  · rename_i h
    rw [find_insertNew]
    by_cases hk : key r = k
    · have hnone : t.find k = none := find_eq_none.mpr (hk ▸ h)
      simp [hnone, hk]
    · simp [hk]

/-- A `DELETE` takes the row a key names, where its condition holds. -/
theorem find_deleteWhere {t : Table key} {p : ρ → Bool} {k : κ} :
    (t.deleteWhere p).find k = (t.find k).filter fun r => !p r := by
  refine Option.ext fun r => ?_
  rw [find_eq_some, mem_deleteWhere, Option.filter_eq_some_iff, find_eq_some]
  simp only [Bool.not_eq_true']
  exact ⟨fun ⟨⟨hr, hp⟩, hk⟩ => ⟨⟨hr, hk⟩, hp⟩, fun ⟨⟨hr, hk⟩, hp⟩ => ⟨⟨hr, hp⟩, hk⟩⟩

theorem find_put {t : Table key} {r : ρ} {k : κ} :
    (t.put r).find k = if key r = k then some r else t.find k := by
  rw [put, find_insertNew, find_deleteWhere]
  cases hfind : t.find k with
  | none => simp
  | some x =>
    have hk : key x = k := (find_eq_some.mp hfind).2
    by_cases hr : key r = k
    · simp [Option.filter, hk, hr]
    · simp [Option.filter, hk, hr, Ne.symm hr]

end Find

end Table

end HoodSentry
