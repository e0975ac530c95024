import HoodSentry.Indexer.Model.Lease
/-!
# Lease exclusion

While a lease a worker was given is neither released nor expired, no
other worker acquires the stream. A takeover deletes whatever row it
finds, not the row it judged expired, so a run keeps the exclusion while
every takeover finds an expired row still there, and no renewal that was
overtaken moves an expiry back.
-/

namespace HoodSentry

/-- A lease given out in the history, and not released since. -/
def Unreleased (held : Lease) (history : List LeaseEvent) : Prop :=
  ∃ between earlier now acquired,
    history = between ++ .granted held now acquired :: earlier ∧
      .released held.key held.workerId ∉ between

/-- **Mutual exclusion.** Whenever a worker acquired a stream, every lease
another worker had been given for it and not released had expired. -/
def LeaseExclusive (history : List LeaseEvent) : Prop :=
  ∀ later lease now earlier, history = later ++ .granted lease now true :: earlier →
    ∀ held, Unreleased held earlier → held.key = lease.key → held.workerId ≠ lease.workerId →
      held.expiresAt ≤ now

/-- What a call's next statement must find: a takeover's `DELETE` only an
expired row under the key, an `UPDATE` no row whose expiry it moves
back. -/
def Call.Finds (c : Call) (leases : Table Lease.key) : Prop :=
  match c.stage with
  | .deleteOther now => ∀ r ∈ leases, r.key = c.key → r.ExpiredAt now
  | .updateLease now _ => ∀ r ∈ leases, c.owns r = true →
    r.expiresAt ≤ now + c.manager.leaseDurationMs
  | _ => True

instance (c : Call) (leases : Table Lease.key) : Decidable (c.Finds leases) := by
  unfold Call.Finds
  split <;> infer_instance

/-- **The condition on a step.** -/
def LeaseStep (w : LeaseWorld) : LeaseLabel → Prop
  | .statement i => ∀ c ∈ w.calls[i]?, c.Finds w.leases
  | _ => True

instance (w : LeaseWorld) : ∀ i, Decidable (LeaseStep w i)
  | .statement i => inferInstanceAs (Decidable (∀ c ∈ w.calls[i]?, c.Finds w.leases))
  | .begin .. | .throw _ | .tick _ => inferInstanceAs (Decidable True)

/-! ## Histories -/

section History

variable {held lease : Lease} {e : LeaseEvent} {history : List LeaseEvent}

/-- **One event more**: it gives the lease out, or the lease was out and
the event does not release it. -/
theorem Unreleased.of_cons (h : Unreleased held (e :: history)) :
    (∃ now acquired, e = .granted held now acquired) ∨
      (Unreleased held history ∧ e ≠ .released held.key held.workerId) := by
  obtain ⟨between, earlier, now, acquired, heq, hout⟩ := h
  cases between with
  | nil =>
    obtain ⟨rfl, -⟩ := List.cons.inj heq
    exact Or.inl ⟨now, acquired, rfl⟩
  | cons e' between =>
    obtain ⟨rfl, rfl⟩ := List.cons.inj heq
    rw [List.mem_cons, not_or] at hout
    exact Or.inr ⟨⟨between, earlier, now, acquired, rfl, hout.2⟩, fun he => hout.1 he.symm⟩

theorem not_unreleased_nil : ¬Unreleased held [] := by
  rintro ⟨between, earlier, now, acquired, heq, -⟩
  simp at heq

theorem leaseExclusive_nil : LeaseExclusive [] := by
  intro later lease now earlier heq
  simp at heq

/-- Exclusion is a matter of the latest event. -/
theorem LeaseExclusive.cons (h : LeaseExclusive history)
    (he : ∀ lease now, e = .granted lease now true → ∀ held, Unreleased held history →
      held.key = lease.key → held.workerId ≠ lease.workerId → held.expiresAt ≤ now) :
    LeaseExclusive (e :: history) := by
  intro later lease now earlier heq
  cases later with
  | nil =>
    obtain ⟨rfl, rfl⟩ := List.cons.inj heq
    exact he lease now rfl
  | cons e' later =>
    obtain ⟨rfl, rfl⟩ := List.cons.inj heq
    exact h later lease now earlier rfl

end History

/-! ## The invariant -/

/-- The clock reading a call acts on. -/
def Stage.now : Stage → Option ℕ
  | .insertLease now | .findOwn now | .findOther now | .deleteOther now | .updateLease now _ =>
    some now
  | .acquireLease | .renewLease _ | .releaseLease => none

/-- A lease is backed by a row of its worker that expires no earlier. -/
def Backed (leases : Table Lease.key) (l : Lease) : Prop :=
  ∃ r ∈ leases, r.key = l.key ∧ r.workerId = l.workerId ∧ l.expiresAt ≤ r.expiresAt

/-- **The invariant**: what a call has read of the clock is past, and a
lease neither released nor expired is backed. -/
structure LeaseInvariant (w : LeaseWorld) : Prop where
  past : ∀ c ∈ w.calls, ∀ now ∈ c.stage.now, now ≤ w.clock
  backed : ∀ l, Unreleased l w.history → w.clock < l.expiresAt → Backed w.leases l
  exclusive : LeaseExclusive w.history

/-! ## Statements -/

namespace Call

variable {c : Call} {l r : Lease} {clock now : ℕ} {leases : Table Lease.key}
variable {history : List LeaseEvent}

theorem owns_iff : c.owns l = true ↔ l.key = c.key ∧ l.workerId = c.manager.workerId := by
  simp [owns]

@[simp] theorem key_lease : (c.lease now).key = c.key := rfl

/-- What a statement leaves a call to act on is past. -/
theorem past_perform (hpast : ∀ now ∈ c.stage.now, now ≤ clock) {stage : Stage}
    (h : (c.perform clock leases).next = some stage) : ∀ now ∈ stage.now, now ≤ clock := by
  unfold perform at h
  cases hs : c.stage <;> simp only [hs, Stage.now] at h hpast
  case acquireLease | renewLease =>
    obtain rfl := Option.some.inj h
    rintro now ⟨⟩
    exact Nat.le_refl _
  case insertLease | findOwn | findOther =>
    repeat' split at h
    all_goals simp only [reduceCtorEq, Option.some.injEq] at h
    all_goals subst h
    all_goals first | exact hpast | exact fun _ hn => absurd hn (Option.not_mem_none _)
  case deleteOther =>
    obtain rfl := Option.some.inj h
    exact fun _ hn => absurd hn (Option.not_mem_none _)
  case updateLease | releaseLease => exact absurd h (by simp)

/-- **What a statement can do** to the table and the history. -/
theorem perform_cases (c : Call) (clock : ℕ) (leases : Table Lease.key) :
    ((c.perform clock leases).leases = leases ∧ (c.perform clock leases).event = none) ∨
    (∃ now, c.stage = .insertLease now ∧ c.key ∉ leases.keys ∧
      (c.perform clock leases).leases = leases.insertNew (c.lease now) ∧
      (c.perform clock leases).event = some (.granted (c.lease now) clock true)) ∨
    (∃ now, c.stage = .deleteOther now ∧
      (c.perform clock leases).leases = leases.deleteWhere (fun l => l.key = c.key) ∧
      (c.perform clock leases).event = none) ∨
    (∃ now acquiring, c.stage = .updateLease now acquiring ∧
      (c.perform clock leases).leases = c.renewed leases now ∧
      (c.perform clock leases).event =
        ((c.renewed leases now).rows.find? c.owns).map (.granted · clock acquiring)) ∨
    (c.stage = .releaseLease ∧
      (c.perform clock leases).leases = leases.deleteWhere c.owns ∧
      (c.perform clock leases).event = some (.released c.key c.manager.workerId)) := by
  unfold perform
  cases hs : c.stage with
  | acquireLease | renewLease => exact Or.inl ⟨rfl, rfl⟩
  | insertLease now =>
    by_cases hk : c.key ∈ leases.keys
    · dsimp only
      rw [if_pos hk]
      exact Or.inl ⟨rfl, rfl⟩
    · dsimp only
      rw [if_neg hk]
      exact Or.inr (Or.inl ⟨now, rfl, hk, rfl, rfl⟩)
  | findOwn now =>
    left
    dsimp only
    split <;> exact ⟨rfl, rfl⟩
  | findOther now =>
    left
    dsimp only
    split
    · split <;> exact ⟨rfl, rfl⟩
    · exact ⟨rfl, rfl⟩
  | deleteOther now => exact Or.inr (Or.inr (Or.inl ⟨now, rfl, rfl, rfl⟩))
  | updateLease now acquiring =>
    exact Or.inr (Or.inr (Or.inr (Or.inl ⟨now, acquiring, rfl, rfl, rfl⟩)))
  | releaseLease => exact Or.inr (Or.inr (Or.inr (Or.inr ⟨rfl, rfl, rfl⟩)))

/-! ### What stays backed -/

/-- A renewal keeps what is backed, where it moves no expiry back. -/
theorem backed_renewed
    (hC : ∀ r ∈ leases, c.owns r = true → r.expiresAt ≤ now + c.manager.leaseDurationMs)
    (h : Backed leases l) : Backed (c.renewed leases now) l := by
  obtain ⟨r, hr, hkey, hworker, hle⟩ := h
  refine ⟨_, Table.ite_mem_updateWhere hr, ?_⟩
  split
  · rename_i howns
    exact ⟨hkey, hworker, Nat.le_trans hle (hC r hr howns)⟩
  · exact ⟨hkey, hworker, hle⟩

/-- A delete keeps what a row it misses backs. -/
theorem backed_deleteWhere {p : Lease → Bool}
    (hp : ∀ r ∈ leases, r.key = l.key → r.workerId = l.workerId → l.expiresAt ≤ r.expiresAt →
      p r = false) (h : Backed leases l) : Backed (leases.deleteWhere p) l := by
  obtain ⟨r, hr, hkey, hworker, hle⟩ := h
  exact ⟨r, Table.mem_deleteWhere.mpr ⟨hr, hp r hr hkey hworker hle⟩, hkey, hworker, hle⟩

theorem backed_self {leases : Table Lease.key} (h : l ∈ leases) : Backed leases l :=
  ⟨l, h, rfl, rfl, Nat.le_refl _⟩

theorem find_owns {leases : Table Lease.key} (h : leases.rows.find? c.owns = some l) :
    l ∈ leases ∧ l.key = c.key ∧ l.workerId = c.manager.workerId :=
  ⟨List.mem_of_find?_eq_some h, owns_iff.mp (List.find?_some h)⟩

/-- **Backing survives a statement.** -/
theorem backed_perform {w : LeaseWorld} {i : ℕ} (hw : LeaseInvariant w)
    (hc : w.calls[i]? = some c) (hC : LeaseStep w (.statement i))
    (h : Unreleased l ((c.perform w.clock w.leases).event.toList ++ w.history))
    (hlive : w.clock < l.expiresAt) : Backed (c.perform w.clock w.leases).leases l := by
  have hpast := hw.past c (List.mem_of_getElem? hc)
  have hC := hC c hc
  have hbacked : Unreleased l w.history → Backed w.leases l := fun hl => hw.backed l hl hlive
  rcases c.perform_cases w.clock w.leases with ⟨hleases, hevent⟩ |
    ⟨now, hs, hfree, hleases, hevent⟩ | ⟨now, hs, hleases, hevent⟩ |
    ⟨now, acquiring, hs, hleases, hevent⟩ | ⟨hs, hleases, hevent⟩
  · rw [hevent] at h
    rw [hleases]
    exact hbacked h
  · rw [hevent] at h
    rw [hleases]
    rcases h.of_cons with ⟨_, _, heq⟩ | ⟨hl, -⟩
    · obtain ⟨rfl, -, -⟩ := LeaseEvent.granted.inj heq
      exact backed_self (Table.mem_insertNew.mpr (Or.inr ⟨rfl, hfree⟩))
    · obtain ⟨r, hr, hrow⟩ := hbacked hl
      exact ⟨r, Table.mem_insertNew_of_mem hr, hrow⟩
  · rw [hevent] at h
    rw [hleases]
    simp only [Finds, hs] at hC
    -- the row deleted had expired, so it backed nothing that has not
    refine backed_deleteWhere (fun r hr _ _ hle => decide_eq_false fun hkey => ?_) (hbacked h)
    have hexpired : r.expiresAt < now := hC r hr hkey
    have hnow : now ≤ w.clock := hpast now (by rw [hs]; rfl)
    omega
  · rw [hevent] at h
    rw [hleases]
    simp only [Finds, hs] at hC
    cases hfind : (c.renewed w.leases now).rows.find? c.owns with
    | none =>
      rw [hfind] at h
      exact backed_renewed hC (hbacked h)
    | some r =>
      rw [hfind] at h
      rcases h.of_cons with ⟨_, _, heq⟩ | ⟨hl, -⟩
      · obtain ⟨rfl, -, -⟩ := LeaseEvent.granted.inj heq
        exact backed_self (find_owns hfind).1
      · exact backed_renewed hC (hbacked hl)
  · rw [hevent] at h
    rw [hleases]
    obtain ⟨hl, hne⟩ := h.of_cons.resolve_left (by rintro ⟨_, _, ⟨⟩⟩)
    refine backed_deleteWhere (fun r hr hkey hworker _ => ?_) (hbacked hl)
    refine Bool.eq_false_iff.mpr fun howns => hne ?_
    obtain ⟨hrkey, hrworker⟩ := owns_iff.mp howns
    rw [← hrkey, ← hrworker, hkey, hworker]

/-- **An acquisition is exclusive**: the key was free, or the row was the
worker's own, so whatever another worker still holds has expired. -/
theorem exclusive_perform {w : LeaseWorld} {i : ℕ} (hw : LeaseInvariant w)
    (hc : w.calls[i]? = some c) (hC : LeaseStep w (.statement i)) :
    LeaseExclusive ((c.perform w.clock w.leases).event.toList ++ w.history) := by
  have hC := hC c hc
  rcases c.perform_cases w.clock w.leases with ⟨-, hevent⟩ | ⟨now, -, hfree, -, hevent⟩ |
    ⟨-, -, -, hevent⟩ | ⟨now, acquiring, hs, -, hevent⟩ | ⟨-, -, hevent⟩
  · rw [hevent]
    exact hw.exclusive
  · rw [hevent]
    refine hw.exclusive.cons fun lease t heq held hheld hkey _ => ?_
    obtain ⟨rfl, rfl, -⟩ := LeaseEvent.granted.inj heq
    by_contra hlive
    obtain ⟨r, hr, hrkey, -, -⟩ := hw.backed held hheld (by omega)
    exact hfree (Table.mem_keys.mpr ⟨r, hr, hrkey.trans hkey⟩)
  · rw [hevent]
    exact hw.exclusive
  · rw [hevent]
    simp only [Finds, hs] at hC
    cases hfind : (c.renewed w.leases now).rows.find? c.owns with
    | none => exact hw.exclusive
    | some r =>
      refine hw.exclusive.cons fun lease t heq held hheld hkey hne => ?_
      obtain ⟨rfl, rfl, -⟩ := LeaseEvent.granted.inj heq
      by_contra hlive
      obtain ⟨r', hr', hrkey, hrworker, -⟩ :=
        backed_renewed hC (hw.backed held hheld (by omega))
      have hrow : r' = r := Table.eq_of_key_eq hr' (find_owns hfind).1 (hrkey.trans hkey)
      exact hne (hrow ▸ hrworker).symm
  · rw [hevent]
    refine hw.exclusive.cons fun lease t heq => ?_
    exact absurd heq (by simp)

end Call

/-! ## Runs -/

variable {w w' : LeaseWorld}

/-- A call keeps its past through whatever moves it on. -/
theorem LeaseInvariant.past_advance (hw : LeaseInvariant w) {i : ℕ} {c : Call}
    {next : Option Stage} (hnext : ∀ stage, next = some stage → ∀ now ∈ stage.now, now ≤ w.clock) :
    ∀ c' ∈ w.advance i c next, ∀ now ∈ c'.stage.now, now ≤ w.clock := by
  intro c' hc'
  cases next with
  | none => exact hw.past c' (List.mem_of_mem_eraseIdx hc')
  | some stage =>
    rcases List.mem_or_eq_of_mem_set hc' with hc' | rfl
    · exact hw.past c' hc'
    · exact hnext stage rfl

/-- **The step lemma.** -/
theorem leaseInvariant_step {i : LeaseLabel} (hw : LeaseInvariant w) (hC : LeaseStep w i)
    (hs : w.step i = some w') : LeaseInvariant w' := by
  cases i with
  | begin manager stream method =>
    obtain rfl := Option.some.inj hs
    refine { hw with past := fun c hc => ?_ }
    rcases List.mem_append.mp hc with hc | hc
    · exact hw.past c hc
    · obtain rfl := List.mem_singleton.mp hc
      cases method <;> exact fun _ hn => absurd hn (Option.not_mem_none _)
  | statement i =>
    obtain ⟨c, hc, rfl⟩ := Option.map_eq_some_iff.mp hs
    exact {
      past := hw.past_advance fun _ hstage =>
        Call.past_perform (hw.past c (List.mem_of_getElem? hc)) hstage
      backed := fun _ hl hlive => Call.backed_perform hw hc hC hl hlive
      exclusive := Call.exclusive_perform hw hc hC }
  | throw i =>
    obtain ⟨c, hc, rfl⟩ := Option.map_eq_some_iff.mp hs
    have hpast := hw.past c (List.mem_of_getElem? hc)
    refine { hw with past := hw.past_advance fun stage hstage => ?_ }
    split at hstage
    · rename_i now hinsert
      obtain rfl := Option.some.inj hstage
      rwa [hinsert] at hpast
    · exact absurd hstage (by simp)
  | tick ms =>
    obtain rfl := Option.some.inj hs
    exact {
      past := fun c hc now hnow => Nat.le_add_right_of_le (hw.past c hc now hnow)
      backed := fun l hl hlive => hw.backed l hl (Nat.lt_of_le_of_lt (Nat.le_add_right _ _) hlive)
      exclusive := hw.exclusive }

/-- **Leases exclude each other** in every run whose takeovers each delete
an expired row and whose renewals move no expiry back. -/
theorem leaseExclusive_of_reaches (h : leaseMachine.Reaches LeaseStep w) :
    LeaseExclusive w.history := by
  refine (h.invariant (I := LeaseInvariant) (fun s hs => ?_)
    fun s i s' hI hC hstep => leaseInvariant_step hI hC hstep).exclusive
  obtain ⟨hcalls, hhistory⟩ := hs
  exact {
    past := fun c hc => absurd (hcalls ▸ hc) List.not_mem_nil
    backed := fun l hl => absurd (hhistory ▸ hl) not_unreleased_nil
    exclusive := hhistory ▸ leaseExclusive_nil }

/-- The manager of a worker, with leases of ten milliseconds. -/
def CheckpointManager.bare (workerId : String) : CheckpointManager := ⟨1, workerId, 10⟩

/-- No leases and no calls. -/
def LeaseWorld.empty : LeaseWorld := ⟨0, ∅, [], []⟩

/-- A worker acquires, and lets its lease expire. -/
def expiredLease : List LeaseLabel :=
  [.begin (.bare "a") "blocks" .acquireLease, .statement 0, .statement 0, .tick 20]

/-- One worker takes the stream over. -/
def oneTakeover : List LeaseLabel :=
  expiredLease ++ .begin (.bare "b") "blocks" .acquireLease :: List.replicate 7 (.statement 0)

/-- Two workers find the lease expired, and each stands before its
`DELETE`. -/
def twoTakeovers : List LeaseLabel :=
  [.begin (.bare "b") "blocks" .acquireLease, .begin (.bare "c") "blocks" .acquireLease] ++
    List.replicate 4 (.statement 0) ++ List.replicate 4 (.statement 1)

/-- **A takeover alone** keeps the exclusion. -/
theorem leaseExclusive_of_takeover :
    ∃ w, leaseMachine.exec .empty oneTakeover = some w ∧
      w.leases.rows = [⟨1, "blocks", "b", 30, 20⟩] ∧ LeaseExclusive w.history := by
  have hmeets : leaseMachine.Meets LeaseStep .empty oneTakeover := by decide
  exact ⟨_, rfl, by decide,
    leaseExclusive_of_reaches (Machine.Reaches.exec (.init ⟨rfl, rfl⟩) hmeets rfl)⟩

/-- **Two takeovers do not exclude each other**: the second deletes the
row the first has just inserted. -/
theorem not_leaseExclusive_of_takeovers :
    ¬∀ w, leaseMachine.Reachable w → LeaseExclusive w.history := by
  intro h
  have hhistory : (leaseMachine.exec .empty
      (expiredLease ++ twoTakeovers ++ List.replicate 6 (.statement 0))).map (·.history) =
      some [.granted ⟨1, "blocks", "c", 30, 20⟩ 20 true,
        .granted ⟨1, "blocks", "b", 30, 20⟩ 20 true,
        .granted ⟨1, "blocks", "a", 10, 0⟩ 0 true] := by decide
  obtain ⟨w, hw, hhistory⟩ := Option.map_eq_some_iff.mp hhistory
  have hle := h w (Machine.reachable_of_exec ⟨rfl, rfl⟩ hw) [] _ _ _ hhistory
    ⟨1, "blocks", "b", 30, 20⟩ ⟨[], _, _, _, rfl, List.not_mem_nil⟩ rfl (by decide)
  exact absurd hle (by decide)

end HoodSentry
