import HoodSentry.Api.Model.ApiKeys
/-!
# The limit on active keys

An issue counts the active keys of its user and inserts one in a later
statement. The limit holds while no insert finds more of them than its
request has counted; two requests that count nine insert two.
-/

namespace HoodSentry

/-- **At most ten active keys** for every user. -/
def KeysLimited (db : ApiKeyDb) : Prop := ∀ userId, (db.activeKeys userId).length ≤ 10

/-- A request about to insert has counted all active keys of its user. -/
def CountFresh (db : ApiKeyDb) : Progress ApiKeyPhase ApiKeyResult → Prop
  | .running (.insertKey input active _) => (db.activeKeys input.userId).length ≤ active
  | _ => True

instance (db : ApiKeyDb) : DecidablePred (CountFresh db)
  | .running (.insertKey input active _) =>
    inferInstanceAs (Decidable ((db.activeKeys input.userId).length ≤ active))
  | .running (.readActive _) | .running (.issueEvent ..) | .running (.updateKey ..)
  | .running (.revokeEvent _) | .idle | .returned _ | .threw | .crashed =>
    inferInstanceAs (Decidable True)

/-- **The condition on a step**: an insert is made while its user has no
more active keys than its request has counted. -/
def FreshCount (w : Workers ApiKeyDb ApiKeyPhase ApiKeyResult) :
    WorkerLabel ApiKeySupply ApiKeyRequest Empty → Prop
  | .call _ _ .failed => True
  | .call id _ _ => CountFresh w.shared (w.progress id)
  | _ => True

instance (w : Workers ApiKeyDb ApiKeyPhase ApiKeyResult) : ∀ l, Decidable (FreshCount w l)
  | .call id _ .returned | .call id _ .unacknowledged =>
    inferInstanceAs (Decidable (CountFresh w.shared (w.progress id)))
  | .call _ _ .failed | .start .. | .crash _ => inferInstanceAs (Decidable True)
  | .env e => nomatch e

/-! ## What a statement does to the active keys -/

section Statements

variable {db db' : ApiKeyDb} {row : ApiKeyRow} {userId id now : ℕ}
  {hashApiKeyToken : ApiKeyToken → Hash}

theorem activeKeys_congr (h : db'.keys = db.keys) : db'.activeKeys userId = db.activeKeys userId := by
  rw [ApiKeyDb.activeKeys, h, ApiKeyDb.activeKeys]

/-- An insert adds one key to its user. -/
theorem length_activeKeys_insertKey (userId : ℕ) (h : db.insertKey row = some db') :
    (db'.activeKeys userId).length ≤ (db.activeKeys userId).length + 1 ∧
      (row.userId ≠ userId → db'.activeKeys userId = db.activeKeys userId) := by
  simp only [ApiKeyDb.insertKey, Option.ite_none_left_eq_some, not_or] at h
  obtain ⟨⟨hid, -⟩, h⟩ := h
  obtain rfl := Option.some.inj h
  have hrows : ({ db with keys := db.keys.insertNew row } : ApiKeyDb).activeKeys userId =
      db.activeKeys userId ++
        [row].filter fun row => row.userId = userId && row.revokedAt = none := by
    rw [ApiKeyDb.activeKeys, Table.rows_insertNew hid, List.filter_append]
    rfl
  rw [hrows]
  refine ⟨?_, fun hne => ?_⟩
  · have hone := List.length_filter_le (fun row : ApiKeyRow =>
      decide (row.userId = userId) && decide (row.revokedAt = none)) [row]
    rw [List.length_append]
    exact Nat.add_le_add_left hone _
  · simp [hne]

/-- A revocation adds none. -/
theorem length_activeKeys_revokeKey (owner : ℕ) :
    ((db.revokeKey owner id now).activeKeys userId).length ≤ (db.activeKeys userId).length := by
  unfold ApiKeyDb.activeKeys ApiKeyDb.revokeKey Table.updateWhere
  dsimp only
  rw [← List.countP_eq_length_filter, ← List.countP_eq_length_filter, List.countP_map]
  refine List.countP_mono_left fun row _ hrow => ?_
  simp only [Function.comp_apply] at hrow
  split at hrow
  · simp at hrow
  · exact hrow

/-- **What a call can do to the keys**: nothing, with a count below the
limit; insert one for the request's user; or revoke one. -/
theorem apiKeyCall_cases {p : ApiKeyPhase} {k : ApiKeySupply}
    {n : Progress ApiKeyPhase ApiKeyResult}
    (h : apiKeyCall hashApiKeyToken db p k = some (db', n)) :
    (db'.keys = db.keys ∧
      ∀ input active scopes, n = .running (.insertKey input active scopes) → active < 10) ∨
    (∃ input active scopes row, p = .insertKey input active scopes ∧ row.userId = input.userId ∧
      db.insertKey row = some db' ∧
      ∀ input active scopes, n ≠ .running (.insertKey input active scopes)) ∨
    (∃ owner id now, db' = db.revokeKey owner id now ∧
      ∀ input active scopes, n ≠ .running (.insertKey input active scopes)) := by
  cases p with
  | readActive input =>
    cases k with
    | nothing =>
      left
      simp only [apiKeyCall] at h
      split at h
      · obtain ⟨rfl, rfl⟩ := Prod.mk.inj (Option.some.inj h)
        exact ⟨rfl, fun _ _ _ hn => absurd hn (by simp)⟩
      · rename_i hfew
        split at h
        · obtain ⟨rfl, rfl⟩ := Prod.mk.inj (Option.some.inj h)
          exact ⟨rfl, fun _ _ _ hn => absurd hn (by simp)⟩
        · obtain ⟨rfl, rfl⟩ := Prod.mk.inj (Option.some.inj h)
          refine ⟨rfl, fun _ _ _ hn => ?_⟩
          obtain ⟨-, rfl, -⟩ := ApiKeyPhase.insertKey.inj (Progress.running.inj hn)
          omega
    | _ => exact absurd h (by simp [apiKeyCall])
  | insertKey input active scopes =>
    cases k with
    | random id keyPrefix secret =>
      simp only [apiKeyCall] at h
      split at h
      · obtain ⟨rfl, rfl⟩ := Prod.mk.inj (Option.some.inj h)
        exact Or.inl ⟨rfl, fun _ _ _ hn => absurd hn (by simp)⟩
      · rename_i db₁ hinsert
        obtain ⟨rfl, rfl⟩ := Prod.mk.inj (Option.some.inj h)
        exact Or.inr (Or.inl ⟨input, active, scopes, _, rfl, rfl, hinsert,
          fun _ _ _ hn => absurd hn (by simp)⟩)
    | _ => exact absurd h (by simp [apiKeyCall])
  | issueEvent row token =>
    cases k with
    | nothing =>
      obtain ⟨rfl, rfl⟩ := Prod.mk.inj (Option.some.inj h)
      exact Or.inl ⟨rfl, fun _ _ _ hn => absurd hn (by simp)⟩
    | _ => exact absurd h (by simp [apiKeyCall])
  | updateKey userId id =>
    cases k with
    | clock now =>
      simp only [apiKeyCall] at h
      split at h
      · obtain ⟨rfl, rfl⟩ := Prod.mk.inj (Option.some.inj h)
        exact Or.inl ⟨rfl, fun _ _ _ hn => absurd hn (by simp)⟩
      · obtain ⟨rfl, rfl⟩ := Prod.mk.inj (Option.some.inj h)
        exact Or.inr (Or.inr ⟨userId, id, now, rfl, fun _ _ _ hn => absurd hn (by simp)⟩)
    | _ => exact absurd h (by simp [apiKeyCall])
  | revokeEvent row =>
    cases k with
    | nothing =>
      obtain ⟨rfl, rfl⟩ := Prod.mk.inj (Option.some.inj h)
      exact Or.inl ⟨rfl, fun _ _ _ hn => absurd hn (by simp)⟩
    | _ => exact absurd h (by simp [apiKeyCall])

end Statements

/-! ## Runs -/

section Runs

variable {hashApiKeyToken : ApiKeyToken → Hash} {w w' : Workers ApiKeyDb ApiKeyPhase ApiKeyResult}
  {l : WorkerLabel ApiKeySupply ApiKeyRequest Empty}

/-- A request about to insert has counted fewer than ten. -/
def CountedFew : Progress ApiKeyPhase ApiKeyResult → Prop
  | .running (.insertKey _ active _) => active < 10
  | _ => True

/-- **The invariant.** -/
abbrev LimitInvariant : Workers ApiKeyDb ApiKeyPhase ApiKeyResult → Prop :=
  Workers.Keeps KeysLimited (fun _ => CountedFew) fun _ _ => True

theorem countedFew_of {n : Progress ApiKeyPhase ApiKeyResult}
    (h : ∀ input active scopes, n = .running (.insertKey input active scopes) → active < 10) :
    CountedFew n := by
  unfold CountedFew
  split
  · exact h _ _ _ rfl
  · trivial

/-- One attempt moved on, over keys that stay limited. -/
theorem LimitInvariant.put (h : LimitInvariant w) {id : ℕ} {s : ApiKeyDb}
    {n : Progress ApiKeyPhase ApiKeyResult} (hs : KeysLimited s) (hn : CountedFew n) :
    LimitInvariant (w.put id s n) :=
  Workers.Keeps.put h hs hn fun id' _ => ⟨h.each id', trivial, trivial⟩

/-- **A call that takes effect keeps the limit.** -/
theorem limited_of_call (h : LimitInvariant w) {id : ℕ} {p : ApiKeyPhase} {k : ApiKeySupply}
    {s : ApiKeyDb} {n : Progress ApiKeyPhase ApiKeyResult} (hp : w.progress id = .running p)
    (hfresh : ∀ input active scopes, p = .insertKey input active scopes →
      (w.shared.activeKeys input.userId).length ≤ active)
    (hcall : apiKeyCall hashApiKeyToken w.shared p k = some (s, n)) :
    KeysLimited s ∧ CountedFew n := by
  rcases apiKeyCall_cases hcall with ⟨hkeys, hn⟩ | ⟨input, active, scopes, row, rfl, huser, hinsert, hn⟩ |
    ⟨owner, keyId, now, rfl, hn⟩
  · refine ⟨fun userId => ?_, countedFew_of hn⟩
    rw [activeKeys_congr hkeys]
    exact h.shared userId
  · refine ⟨fun userId => ?_, countedFew_of fun _ _ _ hn' => absurd hn' (hn _ _ _)⟩
    obtain ⟨hone, hother⟩ := length_activeKeys_insertKey userId hinsert
    by_cases hu : row.userId = userId
    · -- the request's own user: what it counted bounds what is there now
      have hcounted : active < 10 := by
        have := h.each id
        rwa [hp] at this
      have hnow := hfresh input active scopes rfl
      rw [← huser, hu] at hnow
      omega
    · rw [hother hu]
      exact h.shared userId
  · refine ⟨fun userId => ?_, countedFew_of fun _ _ _ hn' => absurd hn' (hn _ _ _)⟩
    exact (length_activeKeys_revokeKey owner).trans (h.shared userId)

/-- **The step lemma.** -/
theorem limitInvariant_step (h : LimitInvariant w) (hC : FreshCount w l)
    (hs : (apiKeyProcedure hashApiKeyToken).Step w l w') : LimitInvariant w' := by
  cases hs with
  | start hidle =>
    rename_i id i
    refine h.put h.shared ?_
    cases i <;> trivial
  | returned hp hcall =>
    obtain ⟨hlimited, hfew⟩ := limited_of_call h hp (fun input active scopes hinsert => by
      simpa only [FreshCount, CountFresh, hp, hinsert] using hC) hcall
    exact h.put hlimited hfew
  | failed hp hcall => exact h.put h.shared trivial
  | unacknowledged hp hcall =>
    obtain ⟨hlimited, -⟩ := limited_of_call h hp (fun input active scopes hinsert => by
      simpa only [FreshCount, CountFresh, hp, hinsert] using hC) hcall
    exact h.put hlimited trivial
  | crash hp => exact h.put h.shared trivial
  | env he => exact absurd he (by rename_i e _; exact nomatch e)

/-- **At most ten active keys** in a run whose inserts all count afresh. -/
theorem keysLimited_of_reaches
    (h : ((apiKeyProcedure hashApiKeyToken).machine KeysLimited).Reaches FreshCount w) :
    KeysLimited w.shared := by
  have hinv : LimitInvariant w := by
    refine Procedure.invariant_of_reaches h (fun w hinit hidle => ?_) fun w l w' hI hC hs =>
      limitInvariant_step hI hC hs
    refine ⟨hinit, fun id => ?_, fun _ _ _ => trivial⟩
    rw [hidle id]
    trivial
  exact hinv.shared

end Runs

/-! ## Sample runs -/

/-- A hash that tells the secrets of the runs below apart from each other
and from those stored. -/
def ApiKeyToken.sampleHash (token : ApiKeyToken) : Hash :=
  if token.secret = "a" then ⟨100⟩ else ⟨101⟩

/-- Nine active keys of one user. -/
def nineKeys : Workers ApiKeyDb ApiKeyPhase ApiKeyResult where
  shared :=
    { keys :=
        { rows := (List.range 9).map fun i =>
            ⟨i, 1, "p", ⟨i⟩, "key", [.tokensRead], some 60, some 5000, none, none⟩
          unique := by decide }
      usage := ∅
      events := [] }
  progress _ := .idle

theorem keysLimited_nineKeys : KeysLimited nineKeys.shared := by
  intro userId
  have hnine : nineKeys.shared.keys.rows.length = 9 := by decide
  have hle := List.length_filter_le
    (fun row : ApiKeyRow => row.userId = userId && row.revokedAt = none) nineKeys.shared.keys.rows
  rw [hnine] at hle
  exact hle.trans (by decide)

def IssueInput.sample : IssueInput := ⟨1, "key", [.tokensRead], 60, 5000⟩

/-- One request issues a tenth key, and another revokes one of the nine. -/
def issueAndRevoke : List (WorkerLabel ApiKeySupply ApiKeyRequest Empty) :=
  [.start 0 (.issue .sample), .start 1 (.revoke 1 4), .call 0 .nothing .returned,
    .call 1 (.clock 7) .returned, .call 0 (.random 9 "p" "a") .returned,
    .call 1 .nothing .returned, .call 0 .nothing .returned]

/-- Both requests return, and the limit holds. -/
theorem keysLimited_issueAndRevoke :
    ∃ w, ((apiKeyProcedure ApiKeyToken.sampleHash).machine KeysLimited).exec nineKeys
        issueAndRevoke = some w ∧
      (w.shared.activeKeys 1).length = 9 ∧ KeysLimited w.shared := by
  obtain ⟨w, hw, hlength⟩ := Option.map_eq_some_iff.mp
    (show (((apiKeyProcedure ApiKeyToken.sampleHash).machine KeysLimited).exec nineKeys
      issueAndRevoke).map (fun w => (w.shared.activeKeys 1).length) = some 9 by decide +kernel)
  have hmeets : ((apiKeyProcedure ApiKeyToken.sampleHash).machine KeysLimited).Meets FreshCount
      nineKeys issueAndRevoke := by decide +kernel
  have hinit : ((apiKeyProcedure ApiKeyToken.sampleHash).machine KeysLimited).Init nineKeys :=
    ⟨keysLimited_nineKeys, fun _ => rfl⟩
  exact ⟨w, hw, hlength, keysLimited_of_reaches (Machine.Reaches.exec (.init hinit) hmeets hw)⟩

/-- Two requests count nine keys, and both insert. -/
def overlappingIssues : List (WorkerLabel ApiKeySupply ApiKeyRequest Empty) :=
  [.start 0 (.issue .sample), .start 1 (.issue .sample), .call 0 .nothing .returned,
    .call 1 .nothing .returned, .call 0 (.random 9 "p" "a") .returned,
    .call 1 (.random 10 "p" "b") .returned]

/-- **An eleventh key can be issued.** -/
theorem not_keysLimited : ¬∀ (hashApiKeyToken : ApiKeyToken → Hash)
    (w : Workers ApiKeyDb ApiKeyPhase ApiKeyResult),
    ((apiKeyProcedure hashApiKeyToken).machine KeysLimited).Reachable w → KeysLimited w.shared := by
  intro h
  obtain ⟨w, hw, hlength⟩ := Option.map_eq_some_iff.mp
    (show (((apiKeyProcedure ApiKeyToken.sampleHash).machine KeysLimited).exec nineKeys
      overlappingIssues).map (fun w => (w.shared.activeKeys 1).length) = some 11 by decide +kernel)
  have hlimited := h _ w (Machine.reachable_of_exec ⟨keysLimited_nineKeys, fun _ => rfl⟩ hw) 1
  omega

end HoodSentry
