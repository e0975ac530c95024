import HoodSentry.Common.Table
/-!
# Maps and sets in the order of their keys

A JavaScript `Map` lists its keys in the order they were first set, and a `Set`
its elements in the order they were first added. Both are tables: a set's rows
are their own keys, a map's are pairs. What a loop that only adds leaves in a
set is what its steps add (`mem_foldl_of_step`).
-/

namespace HoodSentry

universe u v w

/-! ## Sets -/

/-- **A set**: at most one row for each element. -/
abbrev OrderedSet (α : Type u) := Table (id : α → α)

namespace OrderedSet

variable {α : Type u} {β : Type v} {σ : Type w} [DecidableEq α] {s : OrderedSet α} {a b : α}

/-- `set.add(a)`. -/
def add (s : OrderedSet α) (a : α) : OrderedSet α := s.insertNew a

/-- `set.has(a)`. -/
def has (s : OrderedSet α) (a : α) : Bool := decide (a ∈ s)

/-- `set.size`. -/
def size (s : OrderedSet α) : ℕ := s.rows.length

theorem mem_add : b ∈ s.add a ↔ b ∈ s ∨ b = a := by
  have hkeys : ∀ {b}, b ∈ s.keys ↔ b ∈ s := by
    intro b
    rw [Table.mem_keys]
    exact ⟨fun ⟨_, hr, hb⟩ => hb ▸ hr, fun h => ⟨b, h, rfl⟩⟩
  rw [add, Table.mem_insertNew, id, hkeys]
  constructor
  · exact Or.imp_right And.left
  · rintro (h | rfl)
    · exact Or.inl h
    · by_cases h : b ∈ s
      · exact Or.inl h
      · exact Or.inr ⟨rfl, h⟩

omit [DecidableEq α] in
/-- **A loop that only adds**: the set `f` of its state ends with what was there
and what its steps add. -/
theorem mem_foldl_of_step {f : σ → OrderedSet α} {step : σ → β → σ} {P : β → α → Prop}
    {l : List β} {state : σ}
    (hstep : ∀ state, ∀ b ∈ l, ∀ a, a ∈ f (step state b) ↔ a ∈ f state ∨ P b a) :
    a ∈ f (l.foldl step state) ↔ a ∈ f state ∨ ∃ b ∈ l, P b a := by
  induction l generalizing state with
  | nil => simp
  | cons b l ih =>
    rw [List.foldl_cons, ih fun state c hc => hstep state c (List.mem_cons_of_mem b hc),
      hstep state b List.mem_cons_self, or_assoc]
    simp only [List.mem_cons, exists_eq_or_imp]

end OrderedSet

/-! ## Maps -/

/-- **A map**: at most one entry for each key. -/
abbrev OrderedMap (κ : Type u) (ν : Type v) := Table (Prod.fst : κ × ν → κ)

namespace OrderedMap

variable {κ : Type u} {ν : Type v} [DecidableEq κ] {m : OrderedMap κ ν} {k k' : κ} {v v' : ν}

/-- `map.get(k)`. -/
def get? (m : OrderedMap κ ν) (k : κ) : Option ν :=
  (m.rows.find? fun entry => entry.1 = k).map Prod.snd

/-- `map.set(k, v)`: an entry that is there stays at its place. -/
def set (m : OrderedMap κ ν) (k : κ) (v : ν) : OrderedMap κ ν :=
  m.upsert (k, v) (fun old => (old.1, v)) fun _ => rfl

/-- `[...map.values()]`. -/
def values (m : OrderedMap κ ν) : List ν := m.rows.map Prod.snd

theorem get?_eq_some_iff : m.get? k = some v ↔ (k, v) ∈ m := by
  rw [get?, Option.map_eq_some_iff]
  constructor
  · rintro ⟨entry, hentry, rfl⟩
    have hkey : entry.1 = k := by simpa using List.find?_some hentry
    rw [← hkey]
    exact List.mem_of_find?_eq_some hentry
  · intro h
    cases hfind : m.rows.find? fun entry => entry.1 = k with
    | none =>
      have hnone := List.find?_eq_none.mp hfind (k, v) h
      exact absurd (decide_eq_true rfl) hnone
    | some entry =>
      have hkey : entry.1 = k := by simpa using List.find?_some hfind
      exact ⟨entry, rfl, congrArg Prod.snd
        (Table.eq_of_key_eq (List.mem_of_find?_eq_some hfind) h hkey)⟩

theorem mem_set : (k', v') ∈ m.set k v ↔ ((k', v') ∈ m ∧ k' ≠ k) ∨ (k' = k ∧ v' = v) := by
  rw [set, Table.mem_upsert]
  constructor
  · rintro (⟨h, hk⟩ | ⟨old, -, hold, h⟩ | ⟨h, -⟩)
    · exact Or.inl ⟨h, hk⟩
    · exact Or.inr ⟨(congrArg Prod.fst h).trans hold, congrArg Prod.snd h⟩
    · exact Or.inr ⟨congrArg Prod.fst h, congrArg Prod.snd h⟩
  · rintro (⟨h, hk⟩ | ⟨rfl, rfl⟩)
    · exact Or.inl ⟨h, hk⟩
    · by_cases hmem : k' ∈ m.keys
      · obtain ⟨old, hold, hkey⟩ := Table.mem_keys.mp hmem
        exact Or.inr (Or.inl ⟨old, hold, hkey, by rw [hkey]⟩)
      · exact Or.inr (Or.inr ⟨rfl, hmem⟩)

theorem get?_set : (m.set k v).get? k' = if k' = k then some v else m.get? k' := by
  ext w
  rw [get?_eq_some_iff, mem_set]
  by_cases hk : k' = k
  · simp [hk, eq_comm]
  · simp [hk, get?_eq_some_iff]

@[simp] theorem get?_empty : (∅ : OrderedMap κ ν).get? k = none := rfl

/-- `new Map(entries)`. -/
def ofEntries (entries : List (κ × ν)) : OrderedMap κ ν :=
  entries.foldl (fun m entry => m.set entry.1 entry.2) ∅

/-- The last value that entries give a key. -/
def lastValue (entries : List (κ × ν)) (k : κ) : Option ν :=
  (entries.reverse.find? fun entry => entry.1 = k).map Prod.snd

/-- **The last entry of a key counts.** -/
theorem get?_ofEntries (entries : List (κ × ν)) (k : κ) :
    (ofEntries entries).get? k = lastValue entries k := by
  induction entries using List.reverseRecOn with
  | nil => rfl
  | append_singleton entries entry ih =>
    rw [ofEntries, List.foldl_append, List.foldl_cons, List.foldl_nil, get?_set, ← ofEntries, ih,
      lastValue, lastValue, List.reverse_append, List.reverse_singleton, List.singleton_append,
      List.find?_cons]
    by_cases hk : entry.1 = k
    · rw [if_pos hk.symm, decide_eq_true hk]
      rfl
    · rw [if_neg (Ne.symm hk), decide_eq_false hk]

/-- Maps that give every key the same list the same entries, in some order. -/
theorem perm_of_get?_eq {m' : OrderedMap κ ν} (h : ∀ k, m.get? k = m'.get? k) :
    m.rows.Perm m'.rows := by
  refine (List.perm_ext_iff_of_nodup (List.Nodup.of_map _ m.unique)
    (List.Nodup.of_map _ m'.unique)).mpr ?_
  rintro ⟨k, v⟩
  rw [← Table.mem_iff, ← Table.mem_iff, ← get?_eq_some_iff, ← get?_eq_some_iff, h k]

/-! ## Bounded maps -/

/-- The map without the values a predicate names. -/
def purge (gone : ν → Bool) (m : OrderedMap κ ν) : OrderedMap κ ν :=
  m.deleteWhere fun entry => gone entry.2

/-- The map without its `n` oldest entries. -/
def dropOldest (n : ℕ) (m : OrderedMap κ ν) : OrderedMap κ ν where
  rows := m.rows.drop n
  unique := m.unique.sublist ((List.drop_sublist n m.rows).map Prod.fst)

/-- `while (map.size >= capacity)`, the oldest entry goes. -/
def makeRoom (capacity : ℕ) (m : OrderedMap κ ν) : OrderedMap κ ν :=
  m.dropOldest (m.rows.length + 1 - capacity)

/-- **A write into a bounded map**: what is gone goes first, then the oldest
entries until there is room. -/
def remember (gone : ν → Bool) (capacity : ℕ) (m : OrderedMap κ ν) (k : κ) (v : ν) :
    OrderedMap κ ν :=
  ((m.purge gone).makeRoom capacity).set k v

/-- **An entry with few newer ones**: at most `n` were first set after it. -/
def Recent (n : ℕ) (m : OrderedMap κ ν) (k : κ) (v : ν) : Prop :=
  ∃ older newer, m.rows = older ++ (k, v) :: newer ∧ newer.length ≤ n

section Bounded

variable {gone : ν → Bool} {capacity n : ℕ}

omit [DecidableEq κ] in
theorem mem_purge {entry : κ × ν} : entry ∈ m.purge gone ↔ entry ∈ m ∧ gone entry.2 = false :=
  Table.mem_deleteWhere

omit [DecidableEq κ] in
theorem mem_of_mem_makeRoom {entry : κ × ν} (h : entry ∈ m.makeRoom capacity) : entry ∈ m :=
  List.mem_of_mem_drop h

theorem length_set_le : (m.set k v).rows.length ≤ m.rows.length + 1 := by
  by_cases hmem : k ∈ m.keys
  · rw [set, Table.upsert, if_pos hmem, Table.updateWhere, List.length_map]
    omega
  · rw [set, Table.rows_upsert_of_free hmem, List.length_append, List.length_singleton]

/-- **The bound.** -/
theorem length_remember_le (hcapacity : 0 < capacity) :
    (m.remember gone capacity k v).rows.length ≤ capacity := by
  have hroom : ((m.purge gone).makeRoom capacity).rows.length + 1 ≤ capacity := by
    rw [makeRoom, dropOldest, List.length_drop]
    omega
  exact length_set_le.trans hroom

/-- **What a bounded map holds after a write**: what is written, and of the
rest only what was there. -/
theorem mem_of_mem_remember (h : (k', v') ∈ m.remember gone capacity k v) :
    k' = k ∧ v' = v ∨ k' ≠ k ∧ (k', v') ∈ m ∧ gone v' = false := by
  rcases mem_set.mp h with ⟨hroom, hk⟩ | hnew
  · exact Or.inr ⟨hk, mem_purge.mp (mem_of_mem_makeRoom hroom)⟩
  · exact Or.inl hnew

omit [DecidableEq κ] in
theorem Recent.mem (h : m.Recent n k v) : (k, v) ∈ m := by
  obtain ⟨older, newer, hrows, -⟩ := h
  rw [Table.mem_iff, hrows]
  exact List.mem_append_right _ List.mem_cons_self

theorem Recent.get? (h : m.Recent n k v) : m.get? k = some v := get?_eq_some_iff.mpr h.mem

/-- An entry just written under a new key is the newest. -/
theorem recent_set (hk : k ∉ m.keys) : (m.set k v).Recent 0 k v :=
  ⟨m.rows, [], Table.rows_upsert_of_free hk, le_rfl⟩

omit [DecidableEq κ] in
/-- Deleting other entries leaves no more newer ones. -/
theorem Recent.deleteWhere {p : κ × ν → Bool} (h : m.Recent n k v) (hkept : p (k, v) = false) :
    OrderedMap.Recent n (m.deleteWhere p) k v := by
  obtain ⟨older, newer, hrows, hnewer⟩ := h
  refine ⟨older.filter fun r => !p r, newer.filter fun r => !p r, ?_, ?_⟩
  · change m.rows.filter (fun r => !p r) = _
    rw [hrows, List.filter_append, List.filter_cons, hkept]
    rfl
  · exact (List.length_filter_le _ _).trans hnewer

omit [DecidableEq κ] in
/-- Making room spares an entry with fewer newer ones than there is room for. -/
theorem Recent.makeRoom (h : m.Recent n k v) (hn : n + 2 ≤ capacity) :
    (m.makeRoom capacity).Recent n k v := by
  obtain ⟨older, newer, hrows, hnewer⟩ := h
  have hlength : m.rows.length = older.length + (newer.length + 1) := by
    rw [hrows, List.length_append, List.length_cons]
  refine ⟨older.drop (m.rows.length + 1 - capacity), newer, ?_, hnewer⟩
  rw [OrderedMap.makeRoom, dropOldest]
  dsimp only
  rw [hrows, List.drop_append_of_le_length (by rw [← hrows]; omega)]

/-- Another key's write makes at most one entry newer. -/
theorem Recent.set (h : m.Recent n k v) (hk : k' ≠ k) : (m.set k' v').Recent (n + 1) k v := by
  obtain ⟨older, newer, hrows, hnewer⟩ := h
  by_cases hmem : k' ∈ m.keys
  · refine ⟨older.map fun r => if r.1 = k' then (r.1, v') else r,
      newer.map fun r => if r.1 = k' then (r.1, v') else r, ?_, ?_⟩
    · rw [OrderedMap.set, Table.upsert, if_pos hmem, Table.updateWhere]
      simp [hrows, hk.symm]
    · rw [List.length_map]
      omega
  · refine ⟨older, newer ++ [(k', v')], ?_, ?_⟩
    · rw [OrderedMap.set, Table.rows_upsert_of_free hmem, hrows]
      simp
    · rw [List.length_append, List.length_singleton]
      omega

/-- **An entry survives the writes of other keys** while there is room. -/
theorem Recent.remember (h : m.Recent n k v) (hkept : gone v = false) (hk : k' ≠ k)
    (hn : n + 2 ≤ capacity) : (m.remember gone capacity k' v').Recent (n + 1) k v :=
  ((h.deleteWhere hkept).makeRoom hn).set hk

theorem recent_remember (hk : k ∉ m.keys) : (m.remember gone capacity k v).Recent 0 k v := by
  refine recent_set fun hmem => hk ?_
  obtain ⟨entry, hentry, rfl⟩ := Table.mem_keys.mp hmem
  exact Table.key_mem_keys (mem_purge.mp (mem_of_mem_makeRoom hentry)).1

end Bounded

end OrderedMap

end HoodSentry

/-!
## Tallies

A map from keys to amounts that is only ever added to, with its entries in
the order they were first written. What it gives a key and what it adds up
to both move by the amount added, so a fold of additions is read off its
steps.
-/

namespace HoodSentry

universe u

/-- **A tally**: at most one entry for each key. -/
abbrev Tally (κ : Type u) := Table (Prod.fst : κ × ℤ → κ)

namespace Tally

variable {κ : Type u}

/-- What the entries add up to. -/
def total (t : Tally κ) : ℤ := (t.rows.map Prod.snd).sum

@[simp] theorem total_empty : total (∅ : Tally κ) = 0 := rfl

/-- Entries none of which is negative add up to the positive ones. -/
theorem sum_filter_pos {entries : List (κ × ℤ)} (h : ∀ entry ∈ entries, 0 ≤ entry.2) :
    ((entries.filter fun entry => 0 < entry.2).map Prod.snd).sum = (entries.map Prod.snd).sum := by
  induction entries with
  | nil => rfl
  | cons entry entries ih =>
    have hentry := h entry List.mem_cons_self
    have hrest := ih fun e he => h e (List.mem_cons_of_mem _ he)
    by_cases hpos : 0 < entry.2
    · simp [hpos, hrest]
    · have hzero : entry.2 = 0 := by omega
      simp [hzero, hrest]

variable [DecidableEq κ]

/-- What a key has; nothing where it has no entry. -/
def get (t : Tally κ) (k : κ) : ℤ := ((t.find k).map Prod.snd).getD 0

/-- Add an amount to a key. -/
def add (t : Tally κ) (k : κ) (amount : ℤ) : Tally κ :=
  t.upsert (k, amount) (fun entry => (entry.1, entry.2 + amount)) fun _ => rfl

variable {t : Tally κ} {k k' : κ} {amount : ℤ}

@[simp] theorem get_empty : get (∅ : Tally κ) k = 0 := rfl

theorem get_of_mem {entry : κ × ℤ} (h : entry ∈ t) : t.get entry.1 = entry.2 := by
  rw [get, Table.find_eq_some.mpr ⟨h, rfl⟩]
  rfl

theorem get_of_notMem (h : k ∉ t.keys) : t.get k = 0 := by
  rw [get, Table.find_eq_none.mpr h]
  rfl

/-- **Tallies of the same keys that give each the same** have the same
entries. -/
theorem perm_of_get_eq {t' : Tally κ} (hkeys : ∀ k, k ∈ t.keys ↔ k ∈ t'.keys)
    (hget : ∀ k, t.get k = t'.get k) : t.rows.Perm t'.rows := by
  have hsub : ∀ {a b : Tally κ}, (∀ k, k ∈ a.keys ↔ k ∈ b.keys) → (∀ k, a.get k = b.get k) →
      ∀ entry ∈ a.rows, entry ∈ b.rows := by
    intro a b hkeys hget entry hentry
    obtain ⟨other, hother, hk⟩ := Table.mem_keys.mp ((hkeys _).mp (Table.key_mem_keys hentry))
    have hamount : entry.2 = other.2 := by
      rw [← get_of_mem hentry, ← get_of_mem hother, hk, hget]
    have heq : entry = other := Prod.ext hk.symm hamount
    exact heq ▸ hother
  refine (List.perm_ext_iff_of_nodup (List.Nodup.of_map _ t.unique)
    (List.Nodup.of_map _ t'.unique)).mpr fun entry => ⟨hsub hkeys hget entry, ?_⟩
  exact hsub (fun k => (hkeys k).symm) (fun k => (hget k).symm) entry

/-- **What the other keys have.** -/
theorem sum_filter_ne : ((t.rows.filter fun entry => entry.1 ≠ k).map Prod.snd).sum + t.get k =
    t.total := by
  have hentries : ∀ entries : List (κ × ℤ), (entries.map Prod.fst).Nodup → ∀ entry ∈ entries,
      ((entries.filter fun e => e.1 ≠ entry.1).map Prod.snd).sum + entry.2 =
        (entries.map Prod.snd).sum := by
    intro entries hnodup entry hentry
    induction entries with
    | nil => exact absurd hentry List.not_mem_nil
    | cons first entries ih =>
      rw [List.map_cons, List.nodup_cons] at hnodup
      rw [List.filter_cons, List.map_cons, List.sum_cons]
      rcases List.mem_cons.mp hentry with rfl | hrest
      · have hothers : (entries.filter fun e => e.1 ≠ entry.1) = entries := by
          refine List.filter_eq_self.mpr fun e he => decide_eq_true fun hk => ?_
          exact hnodup.1 (hk ▸ List.mem_map_of_mem he)
        rw [if_neg (by simp), hothers]
        omega
      · have hne : first.1 ≠ entry.1 := fun hk => hnodup.1 (hk ▸ List.mem_map_of_mem hrest)
        rw [if_pos (decide_eq_true hne), List.map_cons, List.sum_cons]
        have := ih hnodup.2 hrest
        omega
  by_cases hmem : k ∈ t.keys
  · obtain ⟨entry, hentry, rfl⟩ := Table.mem_keys.mp hmem
    rw [get_of_mem hentry]
    exact hentries t.rows t.unique entry hentry
  · have hothers : (t.rows.filter fun entry => entry.1 ≠ k) = t.rows := by
      refine List.filter_eq_self.mpr fun e he => decide_eq_true fun hk => ?_
      exact hmem (hk ▸ Table.key_mem_keys he)
    rw [hothers, get_of_notMem hmem, add_zero, total]

/-- The keys after an addition. -/
theorem mem_keys_add : k' ∈ (t.add k amount).keys ↔ k' ∈ t.keys ∨ k' = k := Table.mem_keys_upsert

/-- **What an addition gives a key.** -/
theorem get_add : (t.add k amount).get k' = t.get k' + if k' = k then amount else 0 := by
  by_cases hmem : k' ∈ (t.add k amount).keys
  · obtain ⟨entry, hentry, rfl⟩ := Table.mem_keys.mp hmem
    rw [get_of_mem hentry]
    rcases Table.mem_upsert.mp hentry with ⟨hold, hne⟩ | ⟨old, hold, hk, rfl⟩ | ⟨rfl, hfree⟩
    · rw [get_of_mem hold, if_neg hne, add_zero]
    · rw [get_of_mem hold, if_pos hk]
    · rw [get_of_notMem hfree, if_pos rfl, zero_add]
  · have hother : k' ∉ t.keys ∧ k' ≠ k := by
      rw [mem_keys_add, not_or] at hmem
      exact hmem
    rw [get_of_notMem hmem, get_of_notMem hother.1, if_neg hother.2, add_zero]

/-- One entry grows by the amount. -/
theorem sum_map_add {entries : List (κ × ℤ)} (hnodup : (entries.map Prod.fst).Nodup)
    (hmem : k ∈ entries.map Prod.fst) :
    (entries.map fun entry => if entry.1 = k then entry.2 + amount else entry.2).sum =
      (entries.map Prod.snd).sum + amount := by
  induction entries with
  | nil => exact absurd hmem List.not_mem_nil
  | cons entry entries ih =>
    rw [List.map_cons, List.nodup_cons] at hnodup
    simp only [List.map_cons, List.sum_cons]
    by_cases hk : entry.1 = k
    · have hrest : entries.map (fun e => if e.1 = k then e.2 + amount else e.2) =
          entries.map Prod.snd := by
        refine List.map_congr_left fun e he => if_neg fun hek => ?_
        exact hnodup.1 (hk.trans hek.symm ▸ List.mem_map_of_mem he)
      rw [if_pos hk, hrest]
      omega
    · have hmem' : k ∈ entries.map Prod.fst := by
        rcases List.mem_cons.mp hmem with h | h
        · exact absurd h.symm hk
        · exact h
      rw [if_neg hk, ih hnodup.2 hmem']
      omega

/-- **What an addition does to the total.** -/
theorem total_add : (t.add k amount).total = t.total + amount := by
  by_cases hmem : k ∈ t.keys
  · have hrows : ((t.add k amount).rows.map Prod.snd) =
        t.rows.map fun entry => if entry.1 = k then entry.2 + amount else entry.2 := by
      rw [add, Table.upsert, if_pos hmem]
      simp only [Table.updateWhere, List.map_map]
      refine List.map_congr_left fun entry _ => ?_
      by_cases hk : entry.1 = k <;> simp [hk]
    rw [total, hrows]
    exact sum_map_add t.unique hmem
  · rw [total, add, Table.rows_upsert_of_free hmem, List.map_append, List.sum_append]
    simp [total]

end Tally

end HoodSentry
