import HoodSentry.Entitlement.Model.TokenGating
/-!
# Granted tiers are earned

A tier above the one granted becomes the candidate, and is granted once
it has been the candidate for the holding time. The stored candidate
stands for the observations since it was set: each of its tier, and none
but the first reset.
-/

namespace HoodSentry

/-! ## Histories -/

/-- The tier granted after a history, latest first. -/
def grantedIn (history : List Reconciliation) : Tier :=
  (history.head?.map (·.grantedTier)).getD .free

/-- **An unbroken run** of observations of a tier, from the first on; the
later ones are not reset. -/
structure Held (tier : Tier) (run : List Reconciliation) (first : Reconciliation) : Prop where
  eligible : ∀ r ∈ run ++ [first], r.eligibleTier = tier
  unreset : ∀ r ∈ run, r.resetCandidate = false

/-- A history ends in such a run, begun at a time. -/
def HeldSince (tier : Tier) (since : ℕ) (history : List Reconciliation) : Prop :=
  ∃ run first earlier, history = run ++ first :: earlier ∧ Held tier run first ∧
    first.observedAt = since

/-- **The tiers of a history are earned**: one higher than before by a run
up to its grant that spans the holding time, and none above the tier
observed. -/
structure EntitlementSound (minimumHoldingSeconds : ℕ) (history : List Reconciliation) :
    Prop where
  earned : ∀ later r earlier, history = later ++ r :: earlier →
    tierRank (grantedIn earlier) < tierRank r.grantedTier →
    ∃ since, HeldSince r.grantedTier since (r :: earlier) ∧
      since + minimumHoldingSeconds * 1000 ≤ r.observedAt
  bounded : ∀ r ∈ history, tierRank r.grantedTier ≤ tierRank r.eligibleTier

/-- **What a stored state stands for.** -/
structure Tracks (current : Option EntitlementState) (history : List Reconciliation) : Prop where
  granted : (current.getD .initial).grantedTier = grantedIn history
  candidate : ∀ tier, (current.getD .initial).candidateTier = some tier →
    ∃ since, (current.getD .initial).candidateSince = some since ∧ HeldSince tier since history

/-! ## One observation -/

section Advance

variable {input : AdvanceInput} {history : List Reconciliation} {current : EntitlementState}

theorem tierRank_injective : Function.Injective tierRank := by
  intro tier tier' h
  cases tier <;> cases tier' <;> first | rfl | exact absurd h (by decide)

/-- What an observation adds to a history. -/
def AdvanceInput.reconciliation (input : AdvanceInput) : Reconciliation :=
  ⟨input.eligibleTier, input.observedAt, input.resetCandidate,
    (advanceEntitlementState input).grantedTier⟩

/-- **A candidate stands for a run**, with the new observation: one that
has just begun, or the stored one's, one longer. -/
theorem heldSince_candidateSince (h : Tracks input.current history) :
    HeldSince input.eligibleTier (input.candidateSince (input.current.getD .initial))
      (input.reconciliation :: history) := by
  unfold AdvanceInput.candidateSince
  split
  · refine ⟨[], input.reconciliation, history, rfl, ⟨fun r hr => ?_, by simp⟩, rfl⟩
    obtain rfl := List.mem_singleton.mp hr
    rfl
  · rename_i hsame
    obtain ⟨hcandidate, hreset⟩ := not_or.mp hsame
    obtain ⟨since, hsince, run, first, earlier, rfl, hheld, hfirst⟩ :=
      h.candidate _ (not_not.mp hcandidate)
    refine ⟨input.reconciliation :: run, first, earlier, rfl, ⟨fun r hr => ?_, fun r hr => ?_⟩, ?_⟩
    · rcases List.mem_cons.mp hr with rfl | hr
      · rfl
      · exact hheld.eligible r hr
    · rcases List.mem_cons.mp hr with rfl | hr
      · exact Bool.eq_false_iff.mpr hreset
      · exact hheld.unreset r hr
    · rw [hsince]
      exact hfirst

/-- The candidate is never the lowest tier. -/
theorem candidateTier_ne_free : (advanceEntitlementState input).candidateTier ≠ some .free := by
  unfold advanceEntitlementState
  dsimp only
  split
  · simp
  · split
    · simp
    · split
      · simp
      · rename_i hlower hsame _
        intro hfree
        rw [Option.some.inj hfree] at hlower hsame
        -- the lowest tier is at most the one granted
        have hrank : tierRank .free = tierRank (input.current.getD .initial).grantedTier := by
          have hzero : tierRank .free = 0 := rfl
          omega
        exact hsame (tierRank_injective hrank)

/-- **The tier observed is granted** when it is not above the one granted,
or its candidate has matured; -/
theorem granted_advance (h : tierRank input.eligibleTier ≤
      tierRank (input.current.getD .initial).grantedTier ∨
        input.Matured (input.current.getD .initial)) :
    (advanceEntitlementState input).grantedTier = input.eligibleTier := by
  unfold advanceEntitlementState
  dsimp only
  split
  · rfl
  · rename_i hlower
    split
    · rename_i hsame
      exact hsame.symm
    · rename_i hne
      split
      · rfl
      · rename_i hyoung
        have hle := h.resolve_right hyoung
        exact absurd (tierRank_injective (Nat.le_antisymm hle (Nat.not_lt.mp hlower))) hne

/-- otherwise it waits. -/
theorem advance_of_waiting (hhigher : tierRank (input.current.getD .initial).grantedTier <
      tierRank input.eligibleTier) (hyoung : ¬input.Matured (input.current.getD .initial)) :
    advanceEntitlementState input =
      ⟨(input.current.getD .initial).grantedTier, some input.eligibleTier,
        some (input.candidateSince (input.current.getD .initial))⟩ := by
  have hne : input.eligibleTier ≠ (input.current.getD .initial).grantedTier := by
    intro heq
    rw [heq] at hhigher
    exact absurd hhigher (Nat.lt_irrefl _)
  unfold advanceEntitlementState
  dsimp only
  rw [if_neg (Nat.lt_asymm hhigher), if_neg hne, if_neg hyoung]

/-- No tier above the one observed is granted. -/
theorem tierRank_granted_le :
    tierRank (advanceEntitlementState input).grantedTier ≤ tierRank input.eligibleTier := by
  unfold advanceEntitlementState
  dsimp only
  split
  · exact Nat.le_refl _
  · rename_i hlower
    split
    · exact Nat.not_lt.mp hlower
    · split
      · exact Nat.le_refl _
      · exact Nat.not_lt.mp hlower

/-- The next state stands for the longer history. -/
theorem Tracks.advance (h : Tracks input.current history) :
    Tracks (some (advanceEntitlementState input)) (input.reconciliation :: history) := by
  refine ⟨rfl, fun tier htier => ?_⟩
  have hheld := heldSince_candidateSince h
  simp only [Option.getD_some] at htier ⊢
  unfold advanceEntitlementState at htier ⊢
  dsimp only at htier ⊢
  split at htier
  · exact absurd htier (by simp)
  · split at htier
    · exact absurd htier (by simp)
    · split at htier
      · exact absurd htier (by simp)
      · rename_i hlower hsame hyoung
        rw [if_neg hlower, if_neg hsame, if_neg hyoung]
        obtain rfl := Option.some.inj htier
        exact ⟨_, rfl, hheld⟩

/-- **A tier granted above the one before is earned.** -/
theorem earned_advance (h : Tracks input.current history)
    (hhigher : tierRank (grantedIn history) <
      tierRank (advanceEntitlementState input).grantedTier) :
    ∃ since, HeldSince (advanceEntitlementState input).grantedTier since
        (input.reconciliation :: history) ∧
      since + input.minimumHoldingSeconds * 1000 ≤ input.observedAt := by
  have hheld := heldSince_candidateSince h
  rw [← h.granted] at hhigher
  unfold advanceEntitlementState at hhigher ⊢
  dsimp only at hhigher ⊢
  split at hhigher
  · rename_i hlower
    exact absurd hhigher (Nat.lt_asymm hlower)
  · split at hhigher
    · exact absurd hhigher (Nat.lt_irrefl _)
    · split at hhigher
      · rename_i hlower hsame hmatured
        rw [if_neg hlower, if_neg hsame, if_pos hmatured]
        refine ⟨_, hheld, ?_⟩
        unfold AdvanceInput.Matured at hmatured
        omega
      · exact absurd hhigher (Nat.lt_irrefl _)

/-- **The step lemma.** -/
theorem EntitlementSound.advance (hsound : EntitlementSound input.minimumHoldingSeconds history)
    (h : Tracks input.current history) :
    EntitlementSound input.minimumHoldingSeconds (input.reconciliation :: history) := by
  constructor
  · intro later r earlier hhistory hhigher
    cases later with
    | nil =>
      obtain ⟨rfl, rfl⟩ := List.cons.inj hhistory
      exact earned_advance h hhigher
    | cons last later =>
      obtain ⟨-, hrest⟩ := List.cons.inj hhistory
      exact hsound.earned later r earlier hrest hhigher
  · intro r hr
    rcases List.mem_cons.mp hr with rfl | hr
    · exact tierRank_granted_le
    · exact hsound.bounded r hr

end Advance

end HoodSentry
