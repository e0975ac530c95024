import HoodSentry.Alert.Model.Watchlists
/-!
# Watchlists of different owners

What an owner sees of the service is compared with a private service, which
gets the owner's calls alone and gives new lists the names they were given.
The two agree in exactly the runs in which every list made gets an id that is
free, and its owner has none only where nobody has: a deletion lowers the
number the next id is made of, and whether a list is the default depends on
the lists of all owners.
-/

namespace HoodSentry

namespace WatchlistService

variable {limits : WatchlistLimits} {lists : Lists} {l old : Watchlist} {id ownerId newId : String}
variable {call : WatchlistCall}

/-! ## Private services -/

/-- The lists of an owner. -/
def view (lists : Lists) (ownerId : String) : Lists :=
  lists.deleteWhere fun l => l.ownerId ≠ ownerId

/-- **A private service**: calls made of it, latest first, under the names
given for new lists. -/
def privateRun (limits : WatchlistLimits) : List WatchlistEntry → Lists × List Outcome
  | [] => (∅, [])
  | e :: earlier =>
    let before := privateRun limits earlier
    let after := perform limits before.1 e.newId e.ownerId e.call
    (after.1, after.2 :: before.2)

end WatchlistService

open WatchlistService

/-- A call that makes a list. -/
def WatchlistCall.MakesList : WatchlistCall → Prop
  | .create _ name _ => trim name ≠ ""
  | .add .. | .remove .. | .delete _ => False

namespace WatchlistWorld

variable (limits : WatchlistLimits) (w : WatchlistWorld)

/-- The calls of an owner. -/
def callsOf (ownerId : String) : List WatchlistEntry :=
  w.history.filter fun e => e.ownerId = ownerId

/-- **Owners do not interfere**: no list was made under an id that was
taken, and every owner's lists and outcomes are those of a private service. -/
structure Apart : Prop where
  fresh : ∀ e ∈ w.history, e.call.MakesList → e.taken = false
  alone : ∀ ownerId, privateRun limits (w.callsOf ownerId) =
    (view w.lists ownerId, (w.callsOf ownerId).map (·.outcome))

/-- **The condition on a call.** Where it makes a list, the id is free, and
its owner has a list unless nobody has. -/
def Separate (call : String × WatchlistCall) : Prop :=
  call.2.MakesList → nextId w.lists ∉ w.lists.keys ∧
    ((view w.lists call.1).rows = [] → w.lists.rows = [])

end WatchlistWorld

namespace WatchlistService

variable {limits : WatchlistLimits} {lists : Lists} {l old : Watchlist} {id ownerId newId : String}
variable {call : WatchlistCall}

/-! ## An owner's lists -/

theorem find_view : (view lists ownerId).find id =
    (lists.find id).filter fun l => l.ownerId = ownerId := by
  rw [view, Table.find_deleteWhere]
  simp

/-- An owner is let at the same lists as in a private service. -/
theorem require_view : require (view lists ownerId) id ownerId = require lists id ownerId := by
  unfold require
  rw [find_view]
  cases lists.find id with
  | none => rfl
  | some l =>
    by_cases h : l.ownerId = ownerId
    · rw [Option.filter_some_pos (by simpa using h)]
    · rw [Option.filter_some_neg (by simpa using h)]
      simp [h]

theorem require_eq_ok (h : require lists id ownerId = .ok l) :
    l ∈ lists ∧ l.id = id ∧ l.ownerId = ownerId := by
  unfold require at h
  split at h
  · cases h
  · rename_i l' hfind
    obtain ⟨hmem, hid⟩ := Table.find_eq_some.mp hfind
    split at h
    · cases h
    · rename_i howner
      obtain rfl := Except.ok.inj h
      exact ⟨hmem, hid, not_not.mp howner⟩

/-- A list set in the place of the one it was. -/
theorem rows_set_of_mem (h : l.id ∈ lists.keys) :
    (set lists l).rows = lists.rows.map fun old => if old.id = l.id then l else old := by
  rw [set, Table.upsert, if_pos h]
  refine List.map_congr_left fun old _ => ?_
  by_cases hid : old.id = l.id
  · rw [if_pos (by simpa using hid), if_pos hid]
    show { l with id := old.id } = l
    rw [hid]
  · rw [if_neg (by simpa using hid), if_neg hid]

theorem rows_set_of_free (h : l.id ∉ lists.keys) : (set lists l).rows = lists.rows ++ [l] :=
  Table.rows_upsert_of_free h

/-- **A list set** is seen by its owner alone, if no other owner had its id. -/
theorem view_set (h : ∀ old ∈ lists, old.id = l.id → old.ownerId = l.ownerId) (ownerId : String) :
    view (set lists l) ownerId =
      if l.ownerId = ownerId then set (view lists ownerId) l else view lists ownerId := by
  refine Table.ext ?_
  have hrows : ∀ lists : Lists, (view lists ownerId).rows =
      lists.rows.filter fun l => l.ownerId = ownerId := by
    intro lists
    refine List.filter_congr fun l _ => ?_
    simp
  by_cases hmem : l.id ∈ lists.keys
  · obtain ⟨old, hold, hid⟩ := Table.mem_keys.mp hmem
    have howner := h old hold hid
    have hkept : ∀ r ∈ lists.rows, decide ((if r.id = l.id then l else r).ownerId = ownerId) =
        decide (r.ownerId = ownerId) := by
      intro r hr
      split
      · rename_i hr'
        rw [h r hr hr']
      · rfl
    have hfilter : (lists.rows.map fun r => if r.id = l.id then l else r).filter
        (fun l => l.ownerId = ownerId) = (lists.rows.filter fun l => l.ownerId = ownerId).map
          fun r => if r.id = l.id then l else r := by
      rw [List.filter_map]
      congr 1
      exact List.filter_congr hkept
    rw [hrows, rows_set_of_mem hmem, hfilter, ← hrows]
    split
    · rename_i hl
      refine (rows_set_of_mem (Table.mem_keys.mpr ⟨old, ?_, hid⟩)).symm
      rw [Table.mem_iff, hrows]
      exact List.mem_filter.mpr ⟨hold, decide_eq_true (howner.trans hl)⟩
    · rename_i hl
      conv_rhs => rw [← List.map_id (view lists ownerId).rows]
      refine List.map_congr_left fun r hr => ?_
      rw [hrows] at hr
      obtain ⟨hr, hrowner⟩ := List.mem_filter.mp hr
      refine if_neg fun hr' => hl ?_
      rw [← h r hr hr']
      exact of_decide_eq_true hrowner
  · rw [hrows, rows_set_of_free hmem, List.filter_append, ← hrows]
    split
    · rename_i hl
      have hfree : l.id ∉ (view lists ownerId).keys := by
        intro hk
        obtain ⟨r, hr, hid⟩ := Table.mem_keys.mp hk
        exact hmem (Table.mem_keys.mpr ⟨r, (Table.mem_deleteWhere.mp hr).1, hid⟩)
      rw [rows_set_of_free hfree, List.filter_cons_of_pos (by simpa using hl), List.filter_nil]
    · rename_i hl
      rw [List.filter_cons_of_neg (by simpa using hl), List.filter_nil, List.append_nil]

/-- A list that was there is set for its owner. -/
theorem view_set_items (hl : l ∈ lists) (items : List String) (ownerId : String) :
    view (set lists { l with items := items }) ownerId =
      if l.ownerId = ownerId then set (view lists ownerId) { l with items := items }
        else view lists ownerId := by
  refine view_set (fun r hr hrid => ?_) ownerId
  rw [Table.eq_of_key_eq hr hl hrid]

theorem view_delete (id ownerId : String) : view (lists.deleteWhere fun l => l.id = id) ownerId =
    (view lists ownerId).deleteWhere fun l => l.id = id := by
  refine Table.ext ?_
  simp only [view, Table.deleteWhere, List.filter_filter, Bool.and_comm]

/-- A list deleted is missed by nobody but its owner. -/
theorem view_delete_of_ne (hl : l ∈ lists) {other : String} (h : l.ownerId ≠ other) :
    (view lists other).deleteWhere (fun r => r.id = l.id) = view lists other := by
  refine Table.ext (List.filter_eq_self.mpr fun r hr => ?_)
  obtain ⟨hr, howner⟩ := Table.mem_deleteWhere.mp hr
  rw [Bool.not_eq_true', decide_eq_false_iff_not]
  intro hid
  rw [Table.eq_of_key_eq hr hl hid] at howner
  exact absurd howner (by simpa using h)

/-! ## Calls -/

/-- **A call of the owner** does in the service what it does in a private
one. -/
theorem perform_view (h : call.MakesList → newId ∉ lists.keys ∧
    ((view lists ownerId).rows = [] → lists.rows = [])) :
    perform limits (view lists ownerId) newId ownerId call =
      (view (perform limits lists newId ownerId call).1 ownerId,
        (perform limits lists newId ownerId call).2) := by
  cases call with
  | create kind name tier =>
    by_cases hname : trim name = ""
    · simp only [perform, create, if_pos hname]
    · obtain ⟨hfree, hdefault⟩ := h hname
      have hempty : ((view lists ownerId).rows = []) = (lists.rows = []) := by
        refine propext ⟨hdefault, fun hnil => ?_⟩
        show lists.rows.filter _ = []
        rw [hnil, List.filter_nil]
      simp only [perform, create, if_neg hname, hempty]
      rw [view_set (fun old hold hid => absurd (Table.mem_keys.mpr ⟨old, hold, hid⟩) hfree),
        if_pos rfl]
  | add id address tier =>
    simp only [perform, add, require_view]
    cases hrequire : require lists id ownerId with
    | error e => rfl
    | ok l =>
      obtain ⟨hl, -, howner⟩ := require_eq_ok hrequire
      dsimp only
      split_ifs
      · rfl
      · rfl
      · rfl
      · rw [view_set_items hl, if_pos howner]
  | remove id address =>
    simp only [perform, remove, require_view]
    cases hrequire : require lists id ownerId with
    | error e => rfl
    | ok l =>
      obtain ⟨hl, -, howner⟩ := require_eq_ok hrequire
      dsimp only
      rw [view_set_items hl, if_pos howner]
  | delete id =>
    simp only [perform, delete, require_view]
    cases hrequire : require lists id ownerId with
    | error e => rfl
    | ok l =>
      dsimp only
      rw [view_delete]

/-- **A call of another owner** changes nothing an owner sees. -/
theorem perform_other {other : String} (hne : ownerId ≠ other)
    (h : call.MakesList → newId ∉ lists.keys) :
    view (perform limits lists newId ownerId call).1 other = view lists other := by
  cases call with
  | create kind name tier =>
    by_cases hname : trim name = ""
    · simp only [perform, create, if_pos hname]
    · simp only [perform, create, if_neg hname]
      rw [view_set (fun old hold hid => absurd (Table.mem_keys.mpr ⟨old, hold, hid⟩) (h hname)),
        if_neg hne]
  | add id address tier =>
    simp only [perform, add]
    cases hrequire : require lists id ownerId with
    | error e => rfl
    | ok l =>
      obtain ⟨hl, -, howner⟩ := require_eq_ok hrequire
      dsimp only
      split_ifs
      · rfl
      · rfl
      · rfl
      · rw [view_set_items hl, if_neg fun heq => hne (howner.symm.trans heq)]
  | remove id address =>
    simp only [perform, remove]
    cases hrequire : require lists id ownerId with
    | error e => rfl
    | ok l =>
      obtain ⟨hl, -, howner⟩ := require_eq_ok hrequire
      dsimp only
      rw [view_set_items hl, if_neg fun heq => hne (howner.symm.trans heq)]
  | delete id =>
    simp only [perform, delete]
    cases hrequire : require lists id ownerId with
    | error e => rfl
    | ok l =>
      obtain ⟨hl, hid, howner⟩ := require_eq_ok hrequire
      dsimp only
      rw [view_delete, ← hid, view_delete_of_ne hl fun heq => hne (howner.symm.trans heq)]

end WatchlistService

/-! ## Runs -/

namespace WatchlistWorld

variable {limits : WatchlistLimits} {w w' : WatchlistWorld}

theorem callsOf_cons_own (lists : Lists) (e : WatchlistEntry) (history : List WatchlistEntry) :
    callsOf ⟨lists, e :: history⟩ e.ownerId = e :: callsOf ⟨lists, history⟩ e.ownerId :=
  List.filter_cons_of_pos (by simp)

theorem callsOf_cons_other (lists : Lists) {e : WatchlistEntry} (history : List WatchlistEntry)
    {other : String} (h : e.ownerId ≠ other) :
    callsOf ⟨lists, e :: history⟩ other = callsOf ⟨lists, history⟩ other :=
  List.filter_cons_of_neg (by simpa using h)

/-- **The step lemma.** -/
theorem Apart.step {call : String × WatchlistCall} (hw : w.Apart limits)
    (hs : (watchlistMachine limits).step w call = some w') :
    w'.Apart limits ↔ w.Separate call := by
  obtain ⟨ownerId, call⟩ := call
  obtain rfl := Option.some.inj hs
  set after := perform limits w.lists (nextId w.lists) ownerId call with hafter
  set e : WatchlistEntry := ⟨ownerId, call, nextId w.lists, nextId w.lists ∈ w.lists.keys, after.2⟩
  -- what the private service of the caller does with the call
  have hown : privateRun limits (callsOf ⟨after.1, e :: w.history⟩ ownerId) =
      ((perform limits (view w.lists ownerId) (nextId w.lists) ownerId call).1,
        (perform limits (view w.lists ownerId) (nextId w.lists) ownerId call).2 ::
          (w.callsOf ownerId).map (·.outcome)) := by
    rw [show ownerId = e.ownerId from rfl, callsOf_cons_own]
    show (_, _ :: (privateRun limits (w.callsOf ownerId)).2) = _
    rw [hw.alone ownerId]
    show ((perform limits (privateRun limits (w.callsOf ownerId)).1 _ _ _).1,
      (perform limits (privateRun limits (w.callsOf ownerId)).1 _ _ _).2 :: _) = _
    rw [hw.alone ownerId]
  constructor
  · intro h hmakes
    have hfree : nextId w.lists ∉ w.lists.keys :=
      of_decide_eq_false (h.fresh e List.mem_cons_self hmakes)
    refine ⟨hfree, fun hnone => ?_⟩
    -- the private service calls the list its default, and so does the service
    have halone := hown.symm.trans (h.alone ownerId)
    have houtcome : (perform limits (view w.lists ownerId) (nextId w.lists) ownerId call).2 =
        after.2 := by
      have hcalls := congrArg Prod.snd halone
      rw [show ownerId = e.ownerId from rfl, callsOf_cons_own] at hcalls
      exact (List.cons.inj hcalls).1
    cases call with
    | create kind name tier =>
      have hname : trim name ≠ "" := hmakes
      simp only [hafter, perform, create, if_neg hname, Except.ok.injEq, Option.some.injEq,
        Watchlist.mk.injEq, true_and] at houtcome
      rw [hnone] at houtcome
      exact of_decide_eq_true (houtcome.symm.trans (decide_eq_true rfl))
    | add id address tier => exact False.elim hmakes
    | remove id address => exact False.elim hmakes
    | delete id => exact False.elim hmakes
  · intro hC
    refine ⟨fun e he hmakes => ?_, fun other => ?_⟩
    · rcases List.mem_cons.mp he with rfl | he
      · exact decide_eq_false (hC hmakes).1
      · exact hw.fresh e he hmakes
    · by_cases hother : ownerId = other
      · subst hother
        rw [hown, perform_view hC, show ownerId = e.ownerId from rfl, callsOf_cons_own]
        rfl
      · have hview := @perform_other limits w.lists ownerId (nextId w.lists) call other hother
          fun hmakes => (hC hmakes).1
        rw [callsOf_cons_other after.1 w.history (show e.ownerId ≠ other from hother)]
        show privateRun limits (w.callsOf other) = (view after.1 other, _)
        rw [hview, hw.alone other]
        rfl

/-- **Owners do not interfere all along a run** exactly when every list is
made under a free id, by an owner who has one unless nobody has. -/
theorem apart_iff_separate (limits : WatchlistLimits) (calls : List (String × WatchlistCall)) :
    (watchlistMachine limits).Throughout (Apart limits) ⟨∅, []⟩ calls ↔
      (watchlistMachine limits).Meets Separate ⟨∅, []⟩ calls := by
  refine Machine.throughout_iff_meets (I := fun _ => True) ?_ ?_ trivial ?_
  · intro w call _ _ hs
    exact absurd hs (by simp [watchlistMachine])
  · exact fun w call w' _ hw hs => ⟨trivial, hw.step hs⟩
  · exact ⟨fun e he => absurd he List.not_mem_nil, fun ownerId => rfl⟩

/-- One owner makes a list, another one does, and the first deletes theirs
and makes a new one. -/
def remade : List (String × WatchlistCall) :=
  [("a", .create .token "Main" "free"), ("b", .create .token "Other" "free"),
    ("a", .delete "wl_1"), ("a", .create .token "New" "free")]

/-- **The new list replaces the one of the other owner**, who has made no
call since it was there. -/
theorem not_apart_remade : ∃ w, (watchlistMachine ⟨[]⟩).exec ⟨∅, []⟩ remade = some w ∧
    (view w.lists "b").rows = [] ∧ (w.callsOf "b").map (·.call) = [.create .token "Other" "free"] ∧
      ¬w.Apart ⟨[]⟩ := by
  refine ⟨_, rfl, by decide +kernel, by decide +kernel, fun h => ?_⟩
  have htaken := h.fresh _ List.mem_cons_self (show trim "New" ≠ "" by decide +kernel)
  exact absurd htaken (by decide +kernel)

end WatchlistWorld

end HoodSentry
