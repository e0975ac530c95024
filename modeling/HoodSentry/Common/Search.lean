import Mathlib
/-!
# Depth-first search over an index

Entries have a key and name further keys; of the entries of one key the index
holds the last. `search` visits the keys of a stack in order, and those an
entry names before the rest. It ends on every graph, cycles and unknown keys
included, and finds the indexed entry of every key that the stack leads to
(`mem_search_singleton`), each once (`nodup_search`).
-/

namespace HoodSentry

universe u v

variable {κ : Type u} {ν : Type v} [DecidableEq κ]

/-- The last entry of a key. -/
def lastOf (key : ν → κ) (entries : List ν) (k : κ) : Option ν :=
  entries.reverse.find? fun entry => key entry = k

variable {key : ν → κ} {next : ν → List κ} {entries found : List ν} {stack : List κ} {k : κ}
variable {entry : ν}

theorem key_of_lastOf (h : lastOf key entries k = some entry) : key entry = k := by
  have hfound := List.find?_some h
  exact of_decide_eq_true hfound

theorem mem_of_lastOf (h : lastOf key entries k = some entry) : entry ∈ entries :=
  List.mem_reverse.mp (List.mem_of_find?_eq_some h)

/-- A key of some entry is known. -/
theorem isSome_lastOf (h : entry ∈ entries) : (lastOf key entries (key entry)).isSome := by
  rw [lastOf, List.find?_isSome]
  exact ⟨entry, List.mem_reverse.mpr h, decide_eq_true rfl⟩

/-- The entries whose keys are not found yet. -/
def unfound (key : ν → κ) (entries found : List ν) : List ν :=
  entries.filter fun entry => key entry ∉ found.map key

theorem length_unfound_lt (hnew : k ∉ found.map key) (h : lastOf key entries k = some entry) :
    (unfound key entries (found ++ [entry])).length < (unfound key entries found).length := by
  have hkey := key_of_lastOf h
  have hsub : unfound key entries (found ++ [entry]) =
      (unfound key entries found).filter fun e => key e ≠ k := by
    rw [unfound, unfound, List.filter_filter]
    refine List.filter_congr fun e _ => ?_
    rw [List.map_append, List.map_cons, List.map_nil, hkey]
    simp only [List.mem_append, List.mem_singleton, not_or, ne_eq, Bool.decide_and, Bool.and_comm]
  rw [hsub, List.length_filter_lt_length_iff_exists]
  refine ⟨entry, List.mem_filter.mpr ⟨mem_of_lastOf h, decide_eq_true (hkey ▸ hnew)⟩, ?_⟩
  simp [hkey]

/-- **The search**: a key that is found or unknown is passed over; the entry
of another is found, and the keys it names come before the rest. -/
def search (key : ν → κ) (next : ν → List κ) (entries : List ν) (stack : List κ)
    (found : List ν) : List ν :=
  match stack with
  | [] => found
  | k :: rest =>
    if _hfound : k ∈ found.map key then search key next entries rest found
    else
      match _h : lastOf key entries k with
      | none => search key next entries rest found
      | some entry => search key next entries (next entry ++ rest) (found ++ [entry])
termination_by ((unfound key entries found).length, stack.length)
decreasing_by
  · exact Prod.Lex.right _ (Nat.lt_succ_self _)
  · exact Prod.Lex.right _ (Nat.lt_succ_self _)
  · exact Prod.Lex.left _ _ (length_unfound_lt _hfound _h)

@[simp] theorem search_nil : search key next entries [] found = found := by rw [search]

theorem search_of_found (h : k ∈ found.map key) :
    search key next entries (k :: stack) found = search key next entries stack found := by
  rw [search, dif_pos h]

theorem search_of_unknown (h : lastOf key entries k = none) :
    search key next entries (k :: stack) found = search key next entries stack found := by
  rw [search]
  split
  · rfl
  · split
    · rfl
    · rename_i entry hsome
      rw [h] at hsome
      cases hsome

theorem search_of_new (hnew : k ∉ found.map key) (h : lastOf key entries k = some entry) :
    search key next entries (k :: stack) found =
      search key next entries (next entry ++ stack) (found ++ [entry]) := by
  rw [search, dif_neg hnew]
  split
  · rename_i hnone
    rw [h] at hnone
    cases hnone
  · rename_i entry' hsome
    rw [h] at hsome
    cases hsome
    rfl

/-- The rule of induction: the search is over, its next key is passed over,
or it is found. -/
theorem search_induction (key : ν → κ) (next : ν → List κ) (entries : List ν)
    {motive : List κ → List ν → Prop} (done : ∀ found, motive [] found)
    (passed : ∀ k stack found, k ∈ found.map key ∨ lastOf key entries k = none →
      motive stack found → motive (k :: stack) found)
    (new : ∀ k stack found entry, k ∉ found.map key → lastOf key entries k = some entry →
      motive (next entry ++ stack) (found ++ [entry]) → motive (k :: stack) found)
    (stack : List κ) (found : List ν) : motive stack found := by
  induction stack, found using search.induct key next entries with
  | case1 found => exact done found
  | case2 found k rest hfound ih => exact passed k rest found (.inl hfound) ih
  | case3 found k rest hnew hnone ih => exact passed k rest found (.inr hnone) ih
  | case4 found k rest hnew entry hsome ih => exact new k rest found entry hnew hsome ih

/-! ## The order of the visits -/

/-- **What a stack names is visited before what stands behind it.** -/
theorem search_append (stack rest : List κ) (found : List ν) :
    search key next entries (stack ++ rest) found =
      search key next entries rest (search key next entries stack found) := by
  induction stack, found using search_induction key next entries with
  | done found => rw [List.nil_append, search_nil]
  | passed k stack found hpassed ih =>
    rcases hpassed with hfound | hnone
    · rw [List.cons_append, search_of_found hfound, search_of_found hfound, ih]
    · rw [List.cons_append, search_of_unknown hnone, search_of_unknown hnone, ih]
  | new k stack found entry hnew hsome ih =>
    rw [List.cons_append, search_of_new hnew hsome, search_of_new hnew hsome, ← List.append_assoc,
      ih]

/-- **Visiting one key**: a new entry is found, and then each key it names
is visited in turn. -/
theorem search_singleton_of_new (hnew : k ∉ found.map key)
    (h : lastOf key entries k = some entry) :
    search key next entries [k] found =
      (next entry).foldl (fun found k => search key next entries [k] found) (found ++ [entry]) := by
  have hfold : ∀ (stack : List κ) (found : List ν), search key next entries stack found =
      stack.foldl (fun found k => search key next entries [k] found) found := by
    intro stack
    induction stack with
    | nil => intro found; exact search_nil
    | cons k stack ih =>
      intro found
      rw [← List.singleton_append, search_append, ih]
      rfl
  rw [search_of_new hnew h, List.append_nil, hfold]

/-! ## What is found -/

/-- One key leads to another, which its entry names. -/
def Leads (key : ν → κ) (next : ν → List κ) (entries : List ν) (k k' : κ) : Prop :=
  ∃ entry, lastOf key entries k = some entry ∧ k' ∈ next entry

/-- What is found is what the index holds. -/
def Indexed (key : ν → κ) (entries found : List ν) : Prop :=
  ∀ entry ∈ found, lastOf key entries (key entry) = some entry

/-- What the found entries name is found or still to be visited. -/
def NamesCovered (key : ν → κ) (next : ν → List κ) (entries : List ν) (stack : List κ)
    (found : List ν) : Prop :=
  ∀ entry ∈ found, ∀ k ∈ next entry, (lastOf key entries k).isSome →
    k ∈ found.map key ∨ k ∈ stack

theorem subset_search : found ⊆ search key next entries stack found := by
  induction stack, found using search_induction key next entries with
  | done found => rw [search_nil]; exact List.Subset.refl found
  | passed k stack found hpassed ih =>
    rcases hpassed with hfound | hnone
    · rw [search_of_found hfound]; exact ih
    · rw [search_of_unknown hnone]; exact ih
  | new k stack found entry hnew hsome ih =>
    rw [search_of_new hnew hsome]
    exact fun e he => ih (List.mem_append_left _ he)

/-- **Each key is found once.** -/
theorem nodup_search (h : (found.map key).Nodup) :
    ((search key next entries stack found).map key).Nodup := by
  induction stack, found using search_induction key next entries with
  | done found => rw [search_nil]; exact h
  | passed k stack found hpassed ih =>
    rcases hpassed with hfound | hnone
    · rw [search_of_found hfound]; exact ih h
    · rw [search_of_unknown hnone]; exact ih h
  | new k stack found entry hnew hsome ih =>
    rw [search_of_new hnew hsome]
    refine ih ?_
    rw [List.map_append, List.map_cons, List.map_nil, key_of_lastOf hsome]
    exact List.nodup_append_comm.mp (List.nodup_cons.mpr ⟨hnew, h⟩)

theorem indexed_search (h : Indexed key entries found) :
    Indexed key entries (search key next entries stack found) := by
  induction stack, found using search_induction key next entries with
  | done found => rw [search_nil]; exact h
  | passed k stack found hpassed ih =>
    rcases hpassed with hfound | hnone
    · rw [search_of_found hfound]; exact ih h
    · rw [search_of_unknown hnone]; exact ih h
  | new k stack found entry hnew hsome ih =>
    rw [search_of_new hnew hsome]
    refine ih fun e he => ?_
    rcases List.mem_append.mp he with hold | hentry
    · exact h e hold
    · obtain rfl := List.mem_singleton.mp hentry
      rw [key_of_lastOf hsome, hsome]

/-- **Nothing else is found**: the stack leads to it. -/
theorem exists_leads_of_mem_search (h : entry ∈ search key next entries stack found) :
    entry ∈ found ∨
      ∃ k ∈ stack, Relation.ReflTransGen (Leads key next entries) k (key entry) := by
  induction stack, found using search_induction key next entries with
  | done found => rw [search_nil] at h; exact .inl h
  | passed k stack found hpassed ih =>
    have hrest : entry ∈ search key next entries stack found := by
      rcases hpassed with hfound | hnone
      · rwa [search_of_found hfound] at h
      · rwa [search_of_unknown hnone] at h
    rcases ih hrest with hold | ⟨k', hk', hleads⟩
    · exact .inl hold
    · exact .inr ⟨k', List.mem_cons_of_mem k hk', hleads⟩
  | new k stack found e hnew hsome ih =>
    rw [search_of_new hnew hsome] at h
    rcases ih h with hold | ⟨k', hk', hleads⟩
    · rcases List.mem_append.mp hold with hin | hself
      · exact .inl hin
      · obtain rfl := List.mem_singleton.mp hself
        exact .inr ⟨k, List.mem_cons_self, key_of_lastOf hsome ▸ .refl⟩
    · rcases List.mem_append.mp hk' with hnext | hrest
      · exact .inr ⟨k, List.mem_cons_self, .head ⟨e, hsome, hnext⟩ hleads⟩
      · exact .inr ⟨k', List.mem_cons_of_mem k hrest, hleads⟩

/-- **Nothing is left out**: the search ends with nothing to be visited, and
every known key of the stack is found. -/
theorem namesCovered_search (h : NamesCovered key next entries stack found) :
    NamesCovered key next entries [] (search key next entries stack found) ∧
      ∀ k ∈ stack, (lastOf key entries k).isSome →
        k ∈ (search key next entries stack found).map key := by
  induction stack, found using search_induction key next entries with
  | done found => rw [search_nil]; exact ⟨h, List.forall_mem_nil _⟩
  | passed k stack found hpassed ih =>
    have heq :
        search key next entries (k :: stack) found = search key next entries stack found := by
      rcases hpassed with hfound | hnone
      · exact search_of_found hfound
      · exact search_of_unknown hnone
    have hself : (lastOf key entries k).isSome → k ∈ found.map key := by
      intro hknown
      rcases hpassed with hfound | hnone
      · exact hfound
      · rw [hnone] at hknown
        cases hknown
    rw [heq]
    obtain ⟨hcovered, hall⟩ := ih fun e he k' hk' hknown => by
      rcases h e he k' hk' hknown with hin | hstack
      · exact .inl hin
      · rcases List.mem_cons.mp hstack with rfl | hrest
        · exact .inl (hself hknown)
        · exact .inr hrest
    refine ⟨hcovered, fun k' hk' hknown => ?_⟩
    rcases List.mem_cons.mp hk' with rfl | hrest
    · exact List.map_subset key subset_search (hself hknown)
    · exact hall k' hrest hknown
  | new k stack found entry hnew hsome ih =>
    rw [search_of_new hnew hsome]
    have hkeys : (found ++ [entry]).map key = found.map key ++ [k] := by
      rw [List.map_append, List.map_cons, List.map_nil, key_of_lastOf hsome]
    have hself : k ∈ (found ++ [entry]).map key := by
      rw [hkeys]
      exact List.mem_append_right _ (List.mem_singleton_self k)
    obtain ⟨hcovered, hall⟩ := ih fun e he k' hk' hknown => by
      rcases List.mem_append.mp he with hold | hentry
      · rcases h e hold k' hk' hknown with hin | hstack
        · exact .inl (hkeys ▸ List.mem_append_left _ hin)
        · rcases List.mem_cons.mp hstack with rfl | hrest
          · exact .inl hself
          · exact .inr (List.mem_append_right _ hrest)
      · obtain rfl := List.mem_singleton.mp hentry
        exact .inr (List.mem_append_left _ hk')
    refine ⟨hcovered, fun k' hk' hknown => ?_⟩
    rcases List.mem_cons.mp hk' with rfl | hrest
    · exact List.map_subset key subset_search hself
    · exact hall k' (List.mem_append_right _ hrest) hknown

/-- **The search finds the indexed entry of every key its start leads to.** -/
theorem mem_search_singleton : entry ∈ search key next entries [k] [] ↔
    lastOf key entries (key entry) = some entry ∧
      Relation.ReflTransGen (Leads key next entries) k (key entry) := by
  have hindexed : Indexed key entries (search key next entries [k] []) :=
    indexed_search (List.forall_mem_nil _)
  constructor
  · intro hmem
    refine ⟨hindexed entry hmem, ?_⟩
    rcases exists_leads_of_mem_search hmem with hnil | ⟨k', hk', hleads⟩
    · cases hnil
    · rwa [List.mem_singleton.mp hk'] at hleads
  · rintro ⟨hlast, hleads⟩
    obtain ⟨hcovered, hstart⟩ := @namesCovered_search _ _ _ key next entries [] [k]
      (List.forall_mem_nil _)
    have hfound : ∀ k', Relation.ReflTransGen (Leads key next entries) k k' →
        (lastOf key entries k').isSome → k' ∈ (search key next entries [k] []).map key := by
      intro k' hpath
      induction hpath with
      | refl => exact hstart k (List.mem_singleton_self k)
      | tail _ hstep ih =>
        intro hknown
        obtain ⟨e, he, hnext⟩ := hstep
        obtain ⟨e', he', hkey⟩ := List.mem_map.mp (ih (he ▸ rfl))
        have hsame : e' = e := by
          have hindex := hindexed e' he'
          rw [hkey, he] at hindex
          exact (Option.some.inj hindex).symm
        rcases hcovered e (hsame ▸ he') _ hnext hknown with hin | hnil
        · exact hin
        · cases hnil
    obtain ⟨e, he, hkey⟩ := List.mem_map.mp (hfound (key entry) hleads (hlast ▸ rfl))
    have hsame : e = entry := by
      have hindex := hindexed e he
      rw [hkey, hlast] at hindex
      exact (Option.some.inj hindex).symm
    exact hsame ▸ he

end HoodSentry

/-!
## Breadth-first order

What is reached from a list of roots in a bounded number of steps, in the
order of a breadth-first search: wave after wave, each wave in the order in
which the one before leads to it, and nothing twice.
-/

namespace HoodSentry

universe u v

/-! ## First of a kind -/

section Fresh

variable {β : Type u} {κ : Type v} [DecidableEq κ] {key : β → κ} {l l' : List β} {seen : List κ}
  {x : β} {k : κ}

/-- The elements whose key is not `seen`, the first of each key. -/
def freshBy (key : β → κ) : List β → List κ → List β
  | [], _ => []
  | x :: l, seen =>
    if key x ∈ seen then freshBy key l seen else x :: freshBy key l (key x :: seen)

theorem mem_of_mem_freshBy (h : x ∈ freshBy key l seen) : x ∈ l ∧ key x ∉ seen := by
  induction l generalizing seen with
  | nil => exact absurd h List.not_mem_nil
  | cons y l ih =>
    unfold freshBy at h
    split at h
    · obtain ⟨hl, hseen⟩ := ih h
      exact ⟨List.mem_cons_of_mem _ hl, hseen⟩
    · rename_i hy
      rcases List.mem_cons.mp h with rfl | h
      · exact ⟨List.mem_cons_self, hy⟩
      · obtain ⟨hl, hseen⟩ := ih h
        exact ⟨List.mem_cons_of_mem _ hl, fun hk => hseen (List.mem_cons_of_mem _ hk)⟩

/-- **Every key is seen in the end.** -/
theorem mem_keys_freshBy :
    k ∈ (freshBy key l seen).map key ∨ k ∈ seen ↔ k ∈ l.map key ∨ k ∈ seen := by
  induction l generalizing seen with
  | nil => rfl
  | cons x l ih =>
    unfold freshBy
    split
    · rename_i hx
      rw [ih, List.map_cons, List.mem_cons]
      refine ⟨fun h => h.imp_left Or.inr, ?_⟩
      rintro ((rfl | h) | h)
      · exact .inr hx
      · exact .inl h
      · exact .inr h
    · have hcons := @ih (key x :: seen)
      simp only [List.map_cons, List.mem_cons] at hcons ⊢
      tauto

theorem nodup_freshBy : ((freshBy key l seen).map key).Nodup := by
  induction l generalizing seen with
  | nil => exact List.nodup_nil
  | cons x l ih =>
    unfold freshBy
    split
    · exact ih
    · rw [List.map_cons, List.nodup_cons]
      refine ⟨fun hmem => ?_, ih⟩
      obtain ⟨y, hy, hk⟩ := List.mem_map.mp hmem
      exact (mem_of_mem_freshBy hy).2 (hk ▸ List.mem_cons_self)

/-- Only which keys are seen counts. -/
theorem freshBy_congr {seen' : List κ} (h : ∀ k ∈ l.map key, (k ∈ seen ↔ k ∈ seen')) :
    freshBy key l seen = freshBy key l seen' := by
  induction l generalizing seen seen' with
  | nil => rfl
  | cons x l ih =>
    have hx := h (key x) List.mem_cons_self
    have hl : ∀ k ∈ l.map key, (k ∈ seen ↔ k ∈ seen') := fun k hk =>
      h k (List.mem_cons_of_mem _ hk)
    unfold freshBy
    by_cases hseen : key x ∈ seen
    · rw [if_pos hseen, if_pos (hx.mp hseen), ih hl]
    · rw [if_neg hseen, if_neg fun hmem => hseen (hx.mpr hmem)]
      refine congrArg _ (ih fun k hk => ?_)
      rw [List.mem_cons, List.mem_cons, hl k hk]

end Fresh

/-! ## Waves -/

section Waves

variable {α : Type u} [DecidableEq α] {next : α → List α} {roots level visited : List α}
  {n k : ℕ} {a b : α}

/-- `b` is reached from `a` in exactly so many steps. -/
def StepsTo (next : α → List α) : ℕ → α → α → Prop
  | 0, a, b => a = b
  | n + 1, a, b => ∃ c ∈ next a, StepsTo next n c b

/-- **Within so many steps of a root.** -/
def Within (next : α → List α) (roots : List α) (n : ℕ) (b : α) : Prop :=
  ∃ k ≤ n, ∃ root ∈ roots, StepsTo next k root b

/-- **Wave after wave**: what `level` has that is not visited, and then what
that leads to, for `n` more waves. -/
def explore (next : α → List α) : ℕ → List α → List α → List α
  | 0, level, visited => freshBy id level visited
  | n + 1, level, visited =>
    let wave := freshBy id level visited
    wave ++ explore next n (wave.flatMap next) (visited ++ wave)

theorem mem_freshBy_id : a ∈ freshBy id level visited ∨ a ∈ visited ↔ a ∈ level ∨ a ∈ visited := by
  have h := @mem_keys_freshBy _ _ _ (id : α → α) level visited a
  simpa only [List.map_id] using h

@[simp] theorem explore_nil : explore next n [] visited = [] := by
  induction n generalizing visited with
  | zero => rfl
  | succ n ih => exact ih

/-- Nothing is explored twice. -/
theorem nodup_explore (h : visited.Nodup) : (visited ++ explore next n level visited).Nodup := by
  have hwave : (visited ++ freshBy id level visited).Nodup := by
    refine List.nodup_append.mpr ⟨h, ?_, ?_⟩
    · simpa only [List.map_id] using @nodup_freshBy _ _ _ (id : α → α) level visited
    · rintro a ha b hb rfl
      exact (mem_of_mem_freshBy hb).2 ha
  induction n generalizing level visited with
  | zero => exact hwave
  | succ n ih =>
    change (visited ++ (freshBy id level visited ++ explore next n _ _)).Nodup
    rw [← List.append_assoc]
    refine ih hwave ?_
    refine List.nodup_append.mpr ⟨hwave, ?_, ?_⟩
    · simpa only [List.map_id] using @nodup_freshBy _ _ _ (id : α → α) _ _
    · rintro a ha b hb rfl
      exact (mem_of_mem_freshBy hb).2 ha

/-- What is explored is reached from the level in so many steps. -/
theorem within_of_mem_explore (h : b ∈ explore next n level visited) : Within next level n b := by
  induction n generalizing level visited with
  | zero => exact ⟨0, le_rfl, b, (mem_of_mem_freshBy h).1, rfl⟩
  | succ n ih =>
    rcases List.mem_append.mp h with hwave | hrest
    · exact ⟨0, Nat.zero_le _, b, (mem_of_mem_freshBy hwave).1, rfl⟩
    · obtain ⟨k, hk, a, ha, hsteps⟩ := ih hrest
      obtain ⟨root, hroot, hnext⟩ := List.mem_flatMap.mp ha
      exact ⟨k + 1, by omega, root, (mem_of_mem_freshBy hroot).1, a, hnext, hsteps⟩

/-- **What is reached in so many steps is explored**, where what the visited
lead to is visited or on the level. -/
theorem mem_explore_of_stepsTo
    (hclosed : ∀ a ∈ visited, ∀ b ∈ next a, b ∈ visited ∨ b ∈ level) (hk : k ≤ n)
    (ha : a ∈ visited ∨ a ∈ level) (h : StepsTo next k a b) :
    b ∈ visited ∨ b ∈ explore next n level visited := by
  induction n generalizing level visited k a with
  | zero =>
    obtain rfl : k = 0 := by omega
    obtain rfl : a = b := h
    exact (mem_freshBy_id.mpr ha.symm).symm
  | succ n ih =>
    have hwave : ∀ {c}, c ∈ visited ∨ c ∈ level → c ∈ visited ++ freshBy id level visited :=
      fun hc => List.mem_append.mpr (mem_freshBy_id.mpr hc.symm).symm
    change b ∈ visited ∨ b ∈ freshBy id level visited ++ explore next n _ _
    rw [List.mem_append, ← or_assoc, ← List.mem_append]
    have hclosed' : ∀ a ∈ visited ++ freshBy id level visited, ∀ b ∈ next a,
        b ∈ visited ++ freshBy id level visited ∨
          b ∈ (freshBy id level visited).flatMap next := by
      intro a ha b hb
      rcases List.mem_append.mp ha with hvisited | hfresh
      · exact .inl (hwave (hclosed a hvisited b hb))
      · exact .inr (List.mem_flatMap.mpr ⟨a, hfresh, hb⟩)
    cases k with
    | zero =>
      obtain rfl : a = b := h
      exact .inl (hwave ha)
    | succ k =>
      obtain ⟨c, hc, hsteps⟩ := h
      exact ih hclosed' (by omega) (hclosed' a (hwave ha) c hc) hsteps

/-- **The order has exactly what is within so many steps of a root.** -/
theorem mem_explore_iff : b ∈ explore next n roots [] ↔ Within next roots n b := by
  refine ⟨within_of_mem_explore, ?_⟩
  rintro ⟨k, hk, root, hroot, hsteps⟩
  have hmem :=
    mem_explore_of_stepsTo (fun a ha => absurd ha List.not_mem_nil) hk (.inr hroot) hsteps
  exact hmem.resolve_left List.not_mem_nil

end Waves

/-! ## Walks along a pointer -/

section Walks

variable {α : Type u} {β κ : Type v} [DecidableEq κ] {key : α → κ} {visit : ℕ → α → β}
variable {next : β → Option α} {visited : List κ} {current : α} {n depth : ℕ}

/-- **A walk**: records of what a pointer leads to, `n` at most, until the
pointer is none or leads to a key that was visited. -/
def walk (key : α → κ) (visit : ℕ → α → β) (next : β → Option α) :
    ℕ → ℕ → α → List κ → List β
  | 0, _, _, _ => []
  | n + 1, depth, current, visited =>
    if key current ∈ visited then []
    else
      let record := visit depth current
      match next record with
      | none => [record]
      | some following =>
        record :: walk key visit next n (depth + 1) following (visited ++ [key current])

theorem walk_of_mem (h : key current ∈ visited) :
    walk key visit next n depth current visited = [] := by
  cases n with
  | zero => rfl
  | succ n => exact if_pos h

theorem walk_of_none (h : key current ∉ visited) (hnext : next (visit depth current) = none) :
    walk key visit next (n + 1) depth current visited = [visit depth current] := by
  rw [walk, if_neg h]
  simp only [hnext]

theorem walk_of_some (h : key current ∉ visited) {following : α}
    (hnext : next (visit depth current) = some following) :
    walk key visit next (n + 1) depth current visited = visit depth current ::
      walk key visit next n (depth + 1) following (visited ++ [key current]) := by
  rw [walk, if_neg h]
  simp only [hnext]

theorem length_walk_le : (walk key visit next n depth current visited).length ≤ n := by
  induction n generalizing depth current visited with
  | zero => exact Nat.le_refl 0
  | succ n ih =>
    by_cases h : key current ∈ visited
    · rw [walk_of_mem h]
      exact Nat.zero_le _
    · cases hnext : next (visit depth current) with
      | none =>
        rw [walk_of_none h hnext, List.length_singleton]
        omega
      | some following =>
        rw [walk_of_some h hnext, List.length_cons]
        exact Nat.succ_le_succ ih

/-- What is walked to first is the current one. -/
theorem owner_head_walk (owner : β → α) (howner : ∀ depth a, owner (visit depth a) = a) {record : β}
    (h : (walk key visit next n depth current visited).head? = some record) :
    owner record = current := by
  cases n with
  | zero => cases h
  | succ n =>
    by_cases hmem : key current ∈ visited
    · rw [walk_of_mem hmem] at h
      cases h
    · cases hnext : next (visit depth current) with
      | none =>
        rw [walk_of_none hmem hnext] at h
        obtain rfl := Option.some.inj h
        exact howner _ _
      | some following =>
        rw [walk_of_some hmem hnext] at h
        obtain rfl := Option.some.inj h
        exact howner _ _

/-- **A walk visits no key twice.** -/
theorem nodup_walk (owner : β → α) (howner : ∀ depth a, owner (visit depth a) = a)
    (hvisited : visited.Nodup) : (visited ++
      (walk key visit next n depth current visited).map fun r => key (owner r)).Nodup := by
  induction n generalizing depth current visited with
  | zero => rwa [walk, List.map_nil, List.append_nil]
  | succ n ih =>
    by_cases h : key current ∈ visited
    · rwa [walk_of_mem h, List.map_nil, List.append_nil]
    · have hnodup : (visited ++ [key current]).Nodup :=
        List.nodup_append.mpr ⟨hvisited, List.nodup_singleton _, by
          rintro a ha b hb rfl
          obtain rfl := List.mem_singleton.mp hb
          exact h ha⟩
      cases hnext : next (visit depth current) with
      | none =>
        rw [walk_of_none h hnext, List.map_cons, List.map_nil, howner]
        exact hnodup
      | some following =>
        rw [walk_of_some h hnext, List.map_cons, howner, List.append_cons]
        exact ih hnodup

/-- **Each record's pointer** leads to the next one. -/
theorem isChain_walk (owner : β → α) (howner : ∀ depth a, owner (visit depth a) = a) :
    (walk key visit next n depth current visited).IsChain fun r r' => next r = some (owner r') := by
  induction n generalizing depth current visited with
  | zero => exact List.isChain_nil
  | succ n ih =>
    by_cases h : key current ∈ visited
    · rw [walk_of_mem h]
      exact List.isChain_nil
    · cases hnext : next (visit depth current) with
      | none =>
        rw [walk_of_none h hnext]
        exact List.isChain_singleton _
      | some following =>
        rw [walk_of_some h hnext, List.isChain_cons]
        refine ⟨fun record hrecord => ?_, ih⟩
        rw [owner_head_walk owner howner hrecord]
        exact hnext

/-- **Why a walk ends early**: its last record has no pointer, or one to a key
that was visited. -/
theorem exists_last_walk (owner : β → α) (howner : ∀ depth a, owner (visit depth a) = a)
    (hlen : (walk key visit next n depth current visited).length < n)
    (hcurrent : key current ∉ visited) :
    ∃ last, (walk key visit next n depth current visited).getLast? = some last ∧
      ∀ following, next last = some following → key following ∈ visited ++
        (walk key visit next n depth current visited).map fun r => key (owner r) := by
  induction n generalizing depth current visited with
  | zero => exact absurd hlen (Nat.not_lt_zero _)
  | succ n ih =>
    cases hnext : next (visit depth current) with
    | none =>
      rw [walk_of_none hcurrent hnext]
      refine ⟨visit depth current, rfl, fun following h => ?_⟩
      rw [hnext] at h
      cases h
    | some following =>
      rw [walk_of_some hcurrent hnext] at hlen ⊢
      by_cases hmem : key following ∈ visited ++ [key current]
      · rw [walk_of_mem hmem, List.map_cons, howner]
        refine ⟨visit depth current, rfl, fun following' h => ?_⟩
        obtain rfl := Option.some.inj (hnext.symm.trans h)
        exact hmem
      · obtain ⟨last, hlast, hstop⟩ := ih (Nat.lt_of_succ_lt_succ hlen) hmem
        refine ⟨last, ?_, fun following' h => ?_⟩
        · rw [List.getLast?_cons, hlast]
          rfl
        · rw [List.map_cons, howner, List.append_cons]
          exact hstop following' h

end Walks

end HoodSentry
