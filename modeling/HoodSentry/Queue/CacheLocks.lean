import HoodSentry.Queue.Model.Cache
/-!
# Cache locks

A call that took the lock deletes it when it is done, whoever has it by
then. A call that computes for longer than its lock lives therefore deletes
the lock of a call that took over, and lets in a third. Locks have one
owner in exactly the runs in which each `del` comes before the lock of its
call expires, or when the key is free.
-/

namespace HoodSentry

variable {V : Type}

namespace CacheWorld

variable (w : CacheWorld V)

/-- A call deletes no lock entry but its own. -/
def OwnReleases : Prop := ∀ d ∈ w.deleted, d.1 = d.2

/-- A call computes under a lock that has not expired. -/
def Computing (i : ℕ) : Prop :=
  ∃ c ∈ w.calls[i]?, ∃ lock, c.stage = .compute (some lock) ∧ w.clock < lock

/-- **Locks are owned**: none was deleted by another call than the one that
wrote it, and one call at most computes under a lock not expired. -/
structure LocksOwned : Prop where
  own : w.OwnReleases
  single : ∀ i j, w.Computing i → w.Computing j → i = j

/-- **The condition on a step.** A `del` that is carried out comes before
the lock of its call expires, or when nobody has the lock. -/
def Timely : CacheLabel V → Prop
  | .redis i o => o.executed → ∀ c ∈ w.calls[i]?, ∀ lock result, c.stage = .release lock result →
    w.clock < lock ∨ Expiring.live w.lock w.clock = none
  | _ => True

end CacheWorld

/-! ## Stages -/

namespace CacheStage

/-- When the lock a call holds expires. -/
def lock : CacheStage V → Option ℕ
  | .compute lock | .write lock _ => lock
  | .release lock _ => some lock
  | .read | .acquire | .wait _ | .sleep _ _ | .poll _ | .returned _ => none

/-- The call has tried to take the lock. -/
def tried : CacheStage V → Bool
  | .read | .acquire => false
  | _ => true

/-- A stage goes on from another: no lock is held that was not. -/
structure Onward (before after : CacheStage V) : Prop where
  tried : before.tried → after.tried
  lock : ∀ lock ∈ after.lock, before.lock = some lock

@[simp] theorem lock_finally (lock : Option ℕ) (result : Option V) :
    (CacheStage.finally lock result).lock = lock := by
  cases lock <;> rfl

@[simp] theorem tried_finally (lock : Option ℕ) (result : Option V) :
    (CacheStage.finally lock result).tried := by
  cases lock <;> rfl

/-- A stage without a lock goes on from one before the attempt to take it. -/
theorem Onward.of_none {before after : CacheStage V} (hafter : after.lock = none)
    (htried : before.tried → after.tried) : Onward before after :=
  ⟨htried, fun lock hlock => absurd (hafter ▸ hlock) (Option.not_mem_none lock)⟩

/-- A stage that keeps the lock goes on. -/
theorem Onward.of_lock {before after : CacheStage V} (hlock : after.lock = before.lock)
    (htried : after.tried) : Onward before after :=
  ⟨fun _ => htried, fun lock h => by rw [← hlock]; exact h⟩

end CacheStage

/-! ## What a step can do -/

namespace CacheWorld

variable {cache : RedisCache V} {w w' : CacheWorld V} {i : ℕ} {c : CacheCall V}

/-- A call goes on and the lock stays as it is. -/
def Quiet (w : CacheWorld V) (i : ℕ) (c : CacheCall V) (w' : CacheWorld V) : Prop :=
  ∃ stage cached, c.stage.Onward stage ∧ w' = ({ w with cached := cached }).goto i c stage

theorem quiet_goto {stage : CacheStage V} (h : c.stage.Onward stage) :
    Quiet w i c (w.goto i c stage) :=
  ⟨stage, w.cached, h, rfl⟩

theorem writeValue_eq (ttlSeconds : ℕ) (value : V) : ∃ cached,
    w.writeValue cache ttlSeconds value = { w with cached := cached } := by
  unfold writeValue
  split
  · split
    · exact ⟨w.cached, rfl⟩
    · exact ⟨_, rfl⟩
  · exact ⟨w.cached, rfl⟩

/-- **What a Redis call can do**: it leaves the lock alone, takes it where
it is free, or deletes it. -/
theorem redisCall_cases {o : RedisOutcome} (h : w.redisCall cache i c o = some w') :
    (Quiet w i c w' ∧ ∀ lock result, o.executed → c.stage ≠ .release lock result) ∨
    (c.stage = .acquire ∧ Expiring.live w.lock w.clock = none ∧ ∃ stage, stage.tried ∧
      (∀ lock ∈ stage.lock, lock = w.clock + ttlMs cache.lockTtlSeconds) ∧
      w' = (w.takeLock cache i).goto i c stage) ∨
    (∃ lock result, c.stage = .release lock result ∧ o.executed ∧
      w' = (w.deleteLock i).goto i c (.returned result)) := by
  unfold redisCall at h
  cases hstage : c.stage <;> simp only [hstage] at h
  case read =>
    refine Or.inl ⟨?_, fun _ _ _ => by simp⟩
    split at h <;> obtain rfl := Option.some.inj h
    · exact quiet_goto (hstage ▸ .of_none rfl fun h => absurd h Bool.false_ne_true)
    · exact quiet_goto (hstage ▸ .of_none rfl fun h => absurd h Bool.false_ne_true)
  case acquire =>
    obtain rfl := Option.some.inj h
    by_cases htaken : o.executed ∧ w.lockFree cache
    · right; left
      have hfree : Expiring.live w.lock w.clock = none := by
        have := htaken.2
        rw [lockFree, Bool.and_eq_true, Option.isNone_iff_eq_none] at this
        exact this.1
      rw [if_pos htaken]
      refine ⟨rfl, hfree, _, ?_, ?_, rfl⟩
      · split <;> rfl
      · intro lock hlock
        split at hlock
        · exact (Option.some.inj hlock).symm
        · exact absurd hlock (Option.not_mem_none _)
    · refine Or.inl ⟨?_, fun _ _ _ => by simp⟩
      rw [if_neg htaken]
      have hwait : ¬(o = .answered ∧ w.lockFree cache) := by
        rintro ⟨rfl, hfree⟩
        exact htaken ⟨rfl, hfree⟩
      rw [if_neg hwait]
      exact quiet_goto (hstage ▸ .of_none rfl fun h => absurd h Bool.false_ne_true)
  case poll deadline =>
    refine Or.inl ⟨?_, fun _ _ _ => by simp⟩
    split at h <;> obtain rfl := Option.some.inj h
    · exact quiet_goto (hstage ▸ .of_none rfl fun _ => rfl)
    · exact quiet_goto (hstage ▸ .of_none rfl fun _ => rfl)
  case write lock value =>
    refine Or.inl ⟨?_, fun _ _ _ => by simp⟩
    obtain rfl := Option.some.inj h
    have honward : c.stage.Onward (.finally lock (some value)) :=
      hstage ▸ .of_lock (CacheStage.lock_finally lock _) (CacheStage.tried_finally lock _)
    split
    · obtain ⟨cached, hwrite⟩ := @writeValue_eq V cache w c.ttlSeconds value
      exact ⟨_, cached, honward, by rw [hwrite]⟩
    · exact quiet_goto honward
  case release lock result =>
    obtain rfl := Option.some.inj h
    by_cases ho : o.executed
    · right; right
      rw [if_pos ho]
      exact ⟨lock, result, rfl, ho, rfl⟩
    · refine Or.inl ⟨?_, fun _ _ hexecuted => absurd hexecuted ho⟩
      rw [if_neg ho]
      exact quiet_goto (hstage ▸ .of_none rfl fun _ => rfl)
  all_goals exact absurd h (by simp)

theorem waitCall_cases (h : w.waitCall cache i c = some w') : Quiet w i c w' := by
  unfold waitCall at h
  cases hstage : c.stage <;> simp only [hstage] at h
  case wait deadline =>
    split at h <;> obtain rfl := Option.some.inj h
    · exact quiet_goto (hstage ▸ .of_none rfl fun _ => rfl)
    · exact quiet_goto (hstage ▸ .of_none rfl fun _ => rfl)
  case sleep deadline wakesAt =>
    split at h
    · obtain rfl := Option.some.inj h
      exact quiet_goto (hstage ▸ .of_none rfl fun _ => rfl)
    · exact absurd h (by simp)
  all_goals exact absurd h (by simp)

theorem computedCall_cases {value : V} (h : w.computedCall i c value = some w') :
    Quiet w i c w' := by
  unfold computedCall at h
  cases hstage : c.stage <;> simp only [hstage] at h
  case compute lock =>
    obtain rfl := Option.some.inj h
    refine quiet_goto (hstage ▸ .of_lock ?_ ?_) <;> split
    · rfl
    · exact CacheStage.lock_finally lock _
    · rfl
    · exact CacheStage.tried_finally lock _
  all_goals exact absurd h (by simp)

theorem thrownCall_cases (h : w.thrownCall i c = some w') : Quiet w i c w' := by
  unfold thrownCall at h
  cases hstage : c.stage <;> simp only [hstage] at h
  case compute lock =>
    obtain rfl := Option.some.inj h
    exact quiet_goto (hstage ▸ .of_lock (CacheStage.lock_finally lock _)
      (CacheStage.tried_finally lock _))
  all_goals exact absurd h (by simp)

/-! ## The invariant -/

/-- **The invariant**: a lock that is there was written by a call that
holds it or holds none, and while calls deleted only their own, a lock held
and not expired is there. -/
structure CacheInvariant (w : CacheWorld V) : Prop where
  written : ∀ e, w.lock = some e → ∃ c ∈ w.calls[e.value]?, c.stage.tried ∧
    ∀ lock ∈ c.stage.lock, lock = e.expiresAt
  held : w.OwnReleases → ∀ i, ∀ c ∈ w.calls[i]?, ∀ lock ∈ c.stage.lock, w.clock < lock →
    w.lock = some ⟨i, lock⟩

/-- The calls behind a move of one of them. -/
theorem mem_calls_goto {stage : CacheStage V} {j : ℕ} {d : CacheCall V} (hc : c ∈ w.calls[i]?) :
    d ∈ (w.goto i c stage).calls[j]? ↔
      (i = j ∧ d = { c with stage := stage }) ∨ (i ≠ j ∧ d ∈ w.calls[j]?) := by
  have hlt : i < w.calls.length := (List.getElem?_eq_some_iff.mp hc).1
  show d ∈ (w.calls.set i { c with stage := stage })[j]? ↔ _
  rw [List.getElem?_set]
  by_cases hij : i = j
  · rw [if_pos hij, if_pos hlt]
    simp [hij, eq_comm]
  · rw [if_neg hij]
    simp [hij]

theorem CacheInvariant.quiet (hw : CacheInvariant w) (hc : c ∈ w.calls[i]?)
    (h : Quiet w i c w') : CacheInvariant w' := by
  obtain ⟨stage, cached, honward, rfl⟩ := h
  have hcalls := fun j d => @mem_calls_goto V { w with cached := cached } i c stage j d hc
  refine ⟨fun e he => ?_, fun hown j d hd lock hlock hlive => ?_⟩
  · obtain ⟨d, hd, htried, hlock⟩ := hw.written e he
    by_cases hij : i = e.value
    · obtain rfl : c = d := Option.some.inj (hc.symm.trans (hij ▸ hd))
      refine ⟨_, (hcalls _ _).mpr (Or.inl ⟨hij, rfl⟩), honward.tried htried, fun lock h => ?_⟩
      exact hlock lock (honward.lock lock h)
    · exact ⟨d, (hcalls _ _).mpr (Or.inr ⟨hij, hd⟩), htried, hlock⟩
  · rcases (hcalls j d).mp hd with ⟨rfl, rfl⟩ | ⟨-, hd⟩
    · exact hw.held hown i c hc lock (honward.lock lock hlock) hlive
    · exact hw.held hown j d hd lock hlock hlive

/-- A new call holds nothing. -/
theorem CacheInvariant.begun (hw : CacheInvariant w) (ttlSeconds : ℕ)
    (cacheIf : Option (V → Bool)) :
    CacheInvariant { w with calls := w.calls ++ [⟨ttlSeconds, cacheIf, .read⟩] } := by
  refine ⟨fun e he => ?_, fun hown j d hd lock hlock hlive => ?_⟩
  · obtain ⟨d, hd, h⟩ := hw.written e he
    refine ⟨d, ?_, h⟩
    have hlt := (List.getElem?_eq_some_iff.mp hd).1
    rw [Option.mem_def, List.getElem?_append_left hlt]
    exact hd
  · rw [Option.mem_def, List.getElem?_append] at hd
    split at hd
    · exact hw.held hown j d hd lock hlock hlive
    · obtain rfl := List.mem_singleton.mp (List.mem_of_getElem? hd)
      exact absurd hlock (Option.not_mem_none _)

/-- A lock taken where it is free is there for its call alone. -/
theorem CacheInvariant.taken (hw : CacheInvariant w) (hc : c ∈ w.calls[i]?)
    (hfree : Expiring.live w.lock w.clock = none) {stage : CacheStage V} (htried : stage.tried)
    (hstage : ∀ lock ∈ stage.lock, lock = w.clock + ttlMs cache.lockTtlSeconds) :
    CacheInvariant ((w.takeLock cache i).goto i c stage) := by
  have hcalls := fun j d => @mem_calls_goto V (w.takeLock cache i) i c stage j d hc
  refine ⟨fun e he => ?_, fun hown j d hd lock hlock hlive => ?_⟩
  · obtain rfl : (⟨i, w.clock + ttlMs cache.lockTtlSeconds⟩ : Expiring ℕ) = e :=
      Option.some.inj he
    exact ⟨_, (hcalls _ _).mpr (Or.inl ⟨rfl, rfl⟩), htried, hstage⟩
  · rcases (hcalls j d).mp hd with ⟨rfl, rfl⟩ | ⟨-, hd⟩
    · rw [hstage lock hlock]
      rfl
    · -- a lock held by another call would not have left the key free
      have hthere := hw.held hown j d hd lock hlock hlive
      have hexpired := Expiring.expiresAt_le hfree hthere
      have hnow : w.clock < lock := hlive
      exact absurd hexpired (by simpa using hnow)

/-- The lock that is there when call `i` deletes is among the deleted. -/
theorem mem_deleted {e : Expiring ℕ} (he : Expiring.live w.lock w.clock = some e) :
    (i, e.value) ∈ (w.deleteLock i).deleted := by
  refine List.mem_append_left _ (List.mem_map_of_mem ?_)
  rw [Option.mem_toList, Expiring.get, he]
  rfl

theorem CacheInvariant.deleted (hw : CacheInvariant w) (hc : c ∈ w.calls[i]?)
    (result : Option V) : CacheInvariant ((w.deleteLock i).goto i c (.returned result)) := by
  have hcalls := fun j d => @mem_calls_goto V (w.deleteLock i) i c (.returned result) j d hc
  refine ⟨fun e he => absurd he (by simp [goto, deleteLock]), fun hown j d hd lock hlock hlive => ?_⟩
  rcases (hcalls j d).mp hd with ⟨rfl, rfl⟩ | ⟨hij, hd⟩
  · exact absurd hlock (Option.not_mem_none _)
  · -- the lock of another call was deleted, though calls delete only their own
    have hbefore : w.OwnReleases := fun d hd => hown d (List.mem_append_right _ hd)
    have hthere := hw.held hbefore j d hd lock hlock hlive
    have hdeleted := hown _ (@mem_deleted V w i _
      (Expiring.live_eq_some_iff.mpr ⟨hthere, hlive⟩))
    exact absurd hdeleted hij

/-- **A `del` deletes its call's own lock** exactly when it is timely. -/
theorem ownReleases_deleteLock_iff (hw : CacheInvariant w) (hown : w.OwnReleases)
    (hc : c ∈ w.calls[i]?) {lock : ℕ} {result : Option V} (hstage : c.stage = .release lock result) :
    (w.deleteLock i).OwnReleases ↔
      w.clock < lock ∨ Expiring.live w.lock w.clock = none := by
  have hlock : lock ∈ c.stage.lock := by rw [hstage]; rfl
  constructor
  · intro hafter
    cases hlive : Expiring.live w.lock w.clock with
    | none => exact Or.inr rfl
    | some e =>
      left
      have hi : i = e.value := hafter _ (mem_deleted hlive)
      obtain ⟨hthere, hnow⟩ := Expiring.live_eq_some_iff.mp hlive
      obtain ⟨d, hd, -, hexpiry⟩ := hw.written e hthere
      obtain rfl : c = d := Option.some.inj (hc.symm.trans (hi ▸ hd))
      rw [hexpiry lock hlock]
      exact hnow
  · intro htimely d hd
    rcases List.mem_append.mp hd with hd | hd
    · obtain ⟨k, hk, rfl⟩ := List.mem_map.mp hd
      rw [Option.mem_toList, Expiring.get] at hk
      obtain ⟨e, he, rfl⟩ := Option.map_eq_some_iff.mp hk
      rcases htimely with hnow | hfree
      · have hthere := hw.held hown i c hc lock hlock hnow
        have hlive := Expiring.live_eq_some_iff.mpr ⟨hthere, hnow⟩
        rw [hlive] at he
        obtain rfl := Option.some.inj he
        rfl
      · rw [hfree] at he
        exact absurd he (Option.not_mem_none _)
    · exact hown d hd

/-- Where calls deleted only their own locks, one call at most has one. -/
theorem CacheInvariant.locksOwned_iff (hw : CacheInvariant w) : w.LocksOwned ↔ w.OwnReleases := by
  refine ⟨fun h => h.own, fun hown => ⟨hown, ?_⟩⟩
  rintro i j ⟨c, hc, e, hstage, hlive⟩ ⟨d, hd, e', hstage', hlive'⟩
  have hi := hw.held hown i c hc e (by rw [hstage]; rfl) hlive
  have hj := hw.held hown j d hd e' (by rw [hstage']; rfl) hlive'
  rw [hi] at hj
  exact congrArg Expiring.value (Option.some.inj hj)

/-! ## Runs -/

/-- **The step lemma.** -/
theorem CacheInvariant.step {l : CacheLabel V} (hw : CacheInvariant w) (hown : w.LocksOwned)
    (hs : w.step cache l = some w') : CacheInvariant w' ∧ (w'.LocksOwned ↔ w.Timely l) := by
  have hquiet : ∀ i c, c ∈ w.calls[i]? → Quiet w i c w' →
      CacheInvariant w' ∧ w'.LocksOwned := by
    intro i c hc h
    have hw' := hw.quiet hc h
    obtain ⟨stage, cached, -, rfl⟩ := h
    exact ⟨hw', hw'.locksOwned_iff.mpr hown.own⟩
  cases l with
  | getOrCompute ttlSeconds cacheIf =>
    obtain rfl := Option.some.inj hs
    have hw' := hw.begun ttlSeconds cacheIf
    exact ⟨hw', iff_of_true (hw'.locksOwned_iff.mpr hown.own) trivial⟩
  | redis i o =>
    obtain ⟨c, hc, hs⟩ := Option.bind_eq_some_iff.mp hs
    rcases redisCall_cases hs with ⟨h, hkept⟩ | ⟨hstage, hfree, stage, htried, hlock, rfl⟩ |
      ⟨lock, result, hstage, ho, rfl⟩
    · obtain ⟨hw', hown'⟩ := hquiet i c hc h
      refine ⟨hw', iff_of_true hown' fun ho d hd lock result hrelease => ?_⟩
      obtain rfl : c = d := Option.some.inj (hc.symm.trans hd)
      exact absurd hrelease (hkept lock result ho)
    · have hw' := hw.taken hc hfree htried hlock
      refine ⟨hw', iff_of_true (hw'.locksOwned_iff.mpr hown.own) fun _ d hd lock result hd' => ?_⟩
      obtain rfl : c = d := Option.some.inj (hc.symm.trans hd)
      rw [hstage] at hd'
      cases hd'
    · have hw' := hw.deleted hc result
      refine ⟨hw', hw'.locksOwned_iff.trans ?_⟩
      refine (ownReleases_deleteLock_iff hw hown.own hc hstage).trans ⟨?_, fun h => ?_⟩
      · rintro h - d hd lock' result' hd'
        obtain rfl : c = d := Option.some.inj (hc.symm.trans hd)
        rw [hstage] at hd'
        cases hd'
        exact h
      · exact h ho c hc lock result hstage
  | waitFor i =>
    obtain ⟨c, hc, hs⟩ := Option.bind_eq_some_iff.mp hs
    obtain ⟨hw', hown'⟩ := hquiet i c hc (waitCall_cases hs)
    exact ⟨hw', iff_of_true hown' trivial⟩
  | computed i value =>
    obtain ⟨c, hc, hs⟩ := Option.bind_eq_some_iff.mp hs
    obtain ⟨hw', hown'⟩ := hquiet i c hc (computedCall_cases hs)
    exact ⟨hw', iff_of_true hown' trivial⟩
  | thrown i =>
    obtain ⟨c, hc, hs⟩ := Option.bind_eq_some_iff.mp hs
    obtain ⟨hw', hown'⟩ := hquiet i c hc (thrownCall_cases hs)
    exact ⟨hw', iff_of_true hown' trivial⟩
  | tick ms =>
    obtain rfl := Option.some.inj hs
    have hw' : CacheInvariant { w with clock := w.clock + ms } :=
      ⟨hw.written, fun hown j d hd lock hlock hlive =>
        hw.held hown j d hd lock hlock (Nat.lt_of_le_of_lt (Nat.le_add_right _ _) hlive)⟩
    exact ⟨hw', iff_of_true (hw'.locksOwned_iff.mpr hown.own) trivial⟩

/-- A refused step is no `del`. -/
theorem timely_of_refused {l : CacheLabel V} (hs : w.step cache l = none) : w.Timely l := by
  cases l with
  | redis i o =>
    intro _ c hc lock result hstage
    have hcall : w.redisCall cache i c o = none := by
      have hbind : (w.calls[i]?.bind fun c => w.redisCall cache i c o) = none := hs
      rwa [hc, Option.bind_some] at hbind
    rw [redisCall, hstage] at hcall
    exact absurd hcall (by simp)
  | _ => trivial

/-- **Locks are owned all along a run** exactly when each of its `del`s is
timely. -/
theorem locksOwned_iff_timely (cache : RedisCache V) (clock : ℕ)
    (cached : Option (Expiring String)) (labels : List (CacheLabel V)) :
    (cacheMachine cache).Throughout LocksOwned (start clock cached) labels ↔
      (cacheMachine cache).Meets Timely (start clock cached) labels := by
  have hstart : CacheInvariant (start clock cached : CacheWorld V) :=
    ⟨fun e he => absurd he (by simp [start]), fun _ i c hc => absurd hc (by simp [start])⟩
  refine Machine.throughout_iff_meets (I := CacheInvariant)
    (fun s l _ _ hs => timely_of_refused hs) (fun s l s' hI hP hs => hI.step hP hs) hstart ?_
  exact hstart.locksOwned_iff.mpr fun d hd => absurd hd List.not_mem_nil

/-- Whole numbers, cached as their digits. -/
def numberCache : RedisCache ℕ where
  stringify n := some (toString n)
  parse := String.toNat?

/-- A call misses and takes the lock. -/
def takesLock (i : ℕ) : List (CacheLabel ℕ) :=
  [.getOrCompute 60 none, .redis i .answered, .redis i .answered]

/-- The first call computes until its lock has expired, the second takes
over, the first one's computation throws, and a third call comes. -/
def takeover : List (CacheLabel ℕ) :=
  takesLock 0 ++ [.tick 30000] ++ takesLock 1 ++ [.thrown 0, .redis 0 .answered] ++ takesLock 2

/-- **A slow call deletes the lock of another**, and two compute. -/
theorem not_locksOwned_takeover : ∃ w, (cacheMachine numberCache).exec (start 0 none) takeover =
    some w ∧ ¬w.OwnReleases ∧ w.Computing 1 ∧ w.Computing 2 := by
  refine ⟨_, rfl, fun h => ?_, ?_, ?_⟩
  · exact absurd (h (0, 1) List.mem_cons_self) (by decide)
  · exact ⟨_, rfl, 60000, rfl, by decide⟩
  · exact ⟨_, rfl, 60000, rfl, by decide⟩

end CacheWorld

end HoodSentry
