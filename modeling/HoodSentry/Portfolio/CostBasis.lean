import HoodSentry.Portfolio.Helpers.CostBasis
/-!
# Cost basis: zero amounts and unknown prices

`fifoCostBasis` divides by the amount of a lot and by what is left of all
lots. It returns exactly where every acquisition of amount zero has no
price and is either used up or never valued (`returns_iff`).

A lot of unknown cost counts as one of cost zero. Only a disposal that
reaches it leaves a mark, so the result is honest exactly where it is not
the case that everything else is known and it is still whole
(`honest_iff`).
-/

namespace HoodSentry.Portfolio

open Fifo

variable {flows : List CostFlow} {currentPriceRaw : Option ℤ} {gasFeesIncluded : Bool}

/-! ## Divisions by zero -/

theorem fifoCostBasis_error_iff :
    (∃ e, fifoCostBasis flows currentPriceRaw gasFeesIncluded = .error e) ↔
      Touches CostLot.Undivided [] (moves flows) ∨
        ∃ s, CostState.empty.run gasFeesIncluded flows = .ok s ∧
          ∃ e, s.finish flows currentPriceRaw = .error e := by
  have hrun : (∃ e, CostState.empty.run gasFeesIncluded flows = .error e) ↔
      Touches CostLot.Undivided [] (moves flows) :=
    CostState.run_error_iff CostState.marked_empty
  rw [← hrun, fifoCostBasis]
  split
  · rename_i e he
    exact iff_of_true ⟨e, rfl⟩ (.inl ⟨e, he⟩)
  · rename_i s hs
    simp [hs]

theorem undivided_lot {f : CostFlow} {n : ℕ} :
    CostLot.Undivided { f.lot "" with remainingAmount := n } ↔
      f.amount = 0 ∧ f.priceRaw ≠ none := by
  simp [CostLot.Undivided, CostFlow.lot]

theorem unknown_lot {f : CostFlow} {n : ℕ} :
    CostLot.Unknown { f.lot "" with remainingAmount := n } ↔ f.priceRaw = none := by
  simp [CostLot.Unknown, CostFlow.lot]

/-- An acquisition of amount zero at a known price is divided by, in a
disposal or when it is valued. -/
theorem undivided_reached_iff {s : CostState}
    (hs : CostState.empty.run gasFeesIncluded flows = .ok s) :
    Touches CostLot.Undivided [] (moves flows) ∨ (∃ l ∈ s.lots, l.Undivided) ↔
      ∃ f ∈ flows, f.acquires = true ∧ f.amount = 0 ∧ f.priceRaw ≠ none := by
  rw [touches_moves_iff fun _ _ => Iff.rfl, CostState.exists_lot_iff hs fun _ => Iff.rfl]
  constructor
  · rintro (⟨before, f, after, rfl, hf, -, hzero⟩ | ⟨before, f, after, rfl, hf, -, hzero⟩)
    · exact ⟨f, by simp, hf, undivided_lot.mp hzero⟩
    · exact ⟨f, by simp, hf, undivided_lot.mp hzero⟩
  · rintro ⟨f, hmem, hf, hzero⟩
    obtain ⟨before, after, rfl⟩ := List.append_of_mem hmem
    rcases Nat.eq_zero_or_pos (takenFrom before after) with hnone | hsome
    · exact .inr ⟨before, f, after, rfl, hf, .inl hnone, undivided_lot.mpr hzero⟩
    · exact .inl ⟨before, f, after, rfl, hf, hsome, undivided_lot.mpr hzero⟩

/-- A lot of amount zero stays where no disposal reaches it. -/
theorem exists_zero_lot_iff {s : CostState}
    (hs : CostState.empty.run gasFeesIncluded flows = .ok s) :
    (∃ l ∈ s.lots, l.amount = 0) ↔ ∃ before f after, flows = before ++ f :: after ∧
      f.acquires = true ∧ f.amount = 0 ∧ takenFrom before after = 0 := by
  rw [CostState.exists_lot_iff hs fun _ => Iff.rfl]
  constructor
  · rintro ⟨before, f, after, hsplit, hf, hleft, hzero⟩
    have hamount : f.amount = 0 := hzero
    exact ⟨before, f, after, hsplit, hf, hamount, by omega⟩
  · rintro ⟨before, f, after, hsplit, hf, hamount, htaken⟩
    exact ⟨before, f, after, hsplit, hf, .inl htaken, hamount⟩

/-- Nothing is left of the lots where nothing is held and one of amount
zero stays. -/
theorem nothing_left_iff {s : CostState}
    (hs : CostState.empty.run gasFeesIncluded flows = .ok s) :
    s.lots ≠ [] ∧ s.remainingTotal = 0 ↔ heldAfter 0 (moves flows) = 0 ∧
      ∃ before f after, flows = before ++ f :: after ∧
        f.acquires = true ∧ f.amount = 0 ∧ takenFrom before after = 0 := by
  rw [← CostState.remainingTotal_run hs, ← exists_zero_lot_iff hs, and_comm]
  refine and_congr_right fun htotal => ?_
  have hnone : ∀ l ∈ s.lots, l.remainingAmount = 0 := by
    intro l hl
    have hle := List.le_sum_of_mem (List.mem_map_of_mem (f := (·.remainingAmount)) hl)
    have hsum : (s.lots.map (·.remainingAmount)).sum = 0 := htotal
    omega
  constructor
  · intro hlots
    obtain ⟨l, hl⟩ := List.exists_mem_of_ne_nil _ hlots
    -- What is left of a lot that stays is positive, unless its amount is zero.
    have hempty : ∃ l ∈ s.lots, l.remainingAmount = 0 := ⟨l, hl, hnone l hl⟩
    obtain ⟨before, f, after, hsplit, hf, hleft, hzero⟩ :=
      (CostState.exists_lot_iff hs fun _ => Iff.rfl).mp hempty
    have hrest : f.amount - takenFrom before after = 0 := hzero
    exact (exists_zero_lot_iff hs).mpr ⟨before, f, after, hsplit, hf, by omega, by omega⟩
  · rintro ⟨l, hl, -⟩
    exact List.ne_nil_of_mem hl

theorem takenFrom_pos {before after : List CostFlow} :
    0 < takenFrom before after ↔ heldAfter 0 (moves before) < disposedIn (moves after) := by
  unfold takenFrom
  omega

theorem fifoCostBasis_ok_iff :
    (∃ r, fifoCostBasis flows currentPriceRaw gasFeesIncluded = .ok r) ↔
      (∀ f ∈ flows, f.acquires = true → f.amount = 0 → f.priceRaw = none) ∧
        ∀ before f after, flows = before ++ f :: after → f.acquires = true → f.amount = 0 →
          0 < takenFrom before after ∨
            currentPriceRaw = none ∧ 0 < heldAfter 0 (moves flows) := by
  have hresult : (∃ r, fifoCostBasis flows currentPriceRaw gasFeesIncluded = .ok r) ↔
      ¬∃ e, fifoCostBasis flows currentPriceRaw gasFeesIncluded = .error e := by
    cases fifoCostBasis flows currentPriceRaw gasFeesIncluded <;> simp
  rw [hresult, fifoCostBasis_error_iff]
  cases hs : CostState.empty.run gasFeesIncluded flows with
  | error e =>
    have htouches : Touches CostLot.Undivided [] (moves flows) :=
      (CostState.run_error_iff CostState.marked_empty).mp ⟨e, hs⟩
    refine iff_of_false (not_not_intro (.inl htouches)) ?_
    rintro ⟨hpriced, -⟩
    obtain ⟨before, f, after, rfl, hf, -, hzero⟩ :=
      (touches_moves_iff fun _ _ => Iff.rfl).mp htouches
    obtain ⟨hamount, hprice⟩ := undivided_lot.mp hzero
    exact hprice (hpriced f (by simp) hf hamount)
  | ok s =>
    have hfinish : (∃ s', Except.ok s = Except.ok (ε := String) s' ∧
        ∃ e, s'.finish flows currentPriceRaw = .error e) ↔
          ∃ e, s.finish flows currentPriceRaw = .error e := by
      simp
    rw [hfinish, CostState.finish_error_iff, ← or_assoc, undivided_reached_iff hs,
      exists_zero_lot_iff hs, nothing_left_iff hs]
    constructor
    · intro hnone
      rw [not_or, not_or] at hnone
      obtain ⟨hpriced, hcurrent, hheld⟩ := hnone
      refine ⟨fun f hmem hf hamount => by_contra fun hprice =>
        hpriced ⟨f, hmem, hf, hamount, hprice⟩, fun before f after hsplit hf hamount => ?_⟩
      rcases Nat.eq_zero_or_pos (takenFrom before after) with hnone | hsome
      · have hlot : ∃ before f after, flows = before ++ f :: after ∧ f.acquires = true ∧
            f.amount = 0 ∧ takenFrom before after = 0 :=
          ⟨before, f, after, hsplit, hf, hamount, hnone⟩
        exact .inr ⟨by_contra fun hprice => hcurrent ⟨hprice, hlot⟩,
          Nat.pos_of_ne_zero fun hzero => hheld ⟨hzero, hlot⟩⟩
      · exact .inl hsome
    · rintro ⟨hpriced, hreached⟩ (⟨f, hmem, hf, hamount, hprice⟩ | ⟨hprice, hlot⟩ | ⟨hzero, hlot⟩)
      · exact hprice (hpriced f hmem hf hamount)
      · obtain ⟨before, f, after, hsplit, hf, hamount, hnone⟩ := hlot
        rcases hreached before f after hsplit hf hamount with hsome | ⟨hcurrent, -⟩
        · omega
        · exact hprice hcurrent
      · obtain ⟨before, f, after, hsplit, hf, hamount, hnone⟩ := hlot
        rcases hreached before f after hsplit hf hamount with hsome | ⟨-, hheld⟩
        · omega
        · omega

/-- **`fifoCostBasis` returns** exactly where each acquisition of amount
zero has no price, and is reached by later disposals or there is no current
price and something is held at the end. -/
theorem returns_iff :
    (∃ r, fifoCostBasis flows currentPriceRaw gasFeesIncluded = .ok r) ↔
      (∀ f ∈ flows, f.acquires = true → f.amount = 0 → f.priceRaw = none) ∧
        ∀ before f after, flows = before ++ f :: after → f.acquires = true → f.amount = 0 →
          heldAfter 0 (moves before) < disposedIn (moves after) ∨
            currentPriceRaw = none ∧ 0 < heldAfter 0 (moves flows) := by
  simp only [← takenFrom_pos]
  exact fifoCostBasis_ok_iff

def flowOf (kind : FlowKind) (amount : ℕ) (priceRaw : Option ℤ) : CostFlow where
  kind := kind
  transaction := "0x01"
  amount := amount
  priceRaw := priceRaw
  feeRaw := none
  source := "swap"
  userOwnedTransfer := false
  confidence := .high

theorem not_returns :
    ¬∀ (flows : List CostFlow) (currentPriceRaw : Option ℤ) (gasFeesIncluded : Bool),
      ∃ r, fifoCostBasis flows currentPriceRaw gasFeesIncluded = .ok r := by
  intro h
  obtain ⟨r, hr⟩ := h [flowOf .airdrop 0 (some 0)] none false
  have herror : fifoCostBasis [flowOf .airdrop 0 (some 0)] none false =
      .error "Division by zero" := rfl
  rw [herror] at hr
  exact absurd hr (by simp)

/-! ## Unknown prices -/

/-- A disposal takes units of unknown cost, or more than is held. -/
def ConsumesUnknown (gasFeesIncluded : Bool) (flows : List CostFlow) : Prop :=
  ∃ before f after s, flows = before ++ f :: after ∧ f.disposes = true ∧
    CostState.empty.run gasFeesIncluded before = .ok s ∧
      (held s.lots < f.amount ∨
        Reaches (fun l => l.costRaw = none ∧ 0 < l.remainingAmount) f.amount s.lots)

/-- **Unknown is not zero**, of a result: a lot of unknown cost that still
has something leaves no figure or is marked, and so do disposals that
consume unknown lots or have no price. -/
def Honest (flows : List CostFlow) (gasFeesIncluded : Bool) (r : CostBasisResult) : Prop :=
  ((∃ l ∈ r.lots, 0 < l.remainingAmount ∧ l.costRaw = none) →
      (r.costBasisRaw = none ∧ r.averageEntryRaw = none ∧ r.unrealizedPnlRaw = none) ∨
        r.incompleteHistory = true) ∧
    (ConsumesUnknown gasFeesIncluded flows → r.realizedPnlRaw = none) ∧
    ((∃ f ∈ flows, f.disposes = true ∧ f.priceRaw = none) →
      r.proceedsRaw = none ∨ r.incompleteHistory = true)

/-- Every price that is asked for is known, every disposal is held, and
some acquisition has no price, but no disposal reaches one. -/
def Unnoticed (flows : List CostFlow) (currentPriceRaw : Option ℤ) : Prop :=
  currentPriceRaw ≠ none ∧ (∀ f ∈ flows, f.acquires = true → 0 < f.amount) ∧
    (∀ f ∈ flows, f.disposes = true → f.priceRaw ≠ none) ∧ Covered 0 (moves flows) ∧
    (∃ f ∈ flows, f.acquires = true ∧ f.priceRaw = none) ∧
    ∀ before f after, flows = before ++ f :: after → f.acquires = true → f.priceRaw = none →
      disposedIn (moves after) ≤ heldAfter 0 (moves before)

theorem fifoCostBasis_ok {r : CostBasisResult}
    (h : fifoCostBasis flows currentPriceRaw gasFeesIncluded = .ok r) :
    ∃ s, CostState.empty.run gasFeesIncluded flows = .ok s ∧
      s.finish flows currentPriceRaw = .ok r := by
  unfold fifoCostBasis at h
  split at h
  · exact absurd h (by simp)
  · rename_i s hs
    exact ⟨s, hs, h⟩

/-- **A history is complete** where there is a price for every lot that
stays, and the run leaves no mark. -/
theorem incompleteHistory_eq_false_iff {s : CostState} {r : CostBasisResult}
    (hs : CostState.empty.run gasFeesIncluded flows = .ok s)
    (hr : s.finish flows currentPriceRaw = .ok r) :
    r.incompleteHistory = false ↔
      (currentPriceRaw = none → s.lots = []) ∧ ¬Touches CostLot.Unknown [] (moves flows) ∧
        Covered 0 (moves flows) ∧ ∀ f ∈ flows, f.disposes = true → f.priceRaw ≠ none := by
  obtain ⟨-, hmarked, hnil⟩ := CostState.run_spec CostState.marked_empty hs
  obtain ⟨-, -, -, -, hincomplete⟩ := CostState.finish_ok hr
  have hempty : CostState.empty.warnings = [] := rfl
  have hqueue : CostState.empty.queue = [] := rfl
  rw [hempty, hqueue, held_nil] at hnil
  simp only [true_and] at hnil
  have hunmarked : s.warnings.any marksIncomplete = false ↔ s.warnings = [] := by
    cases hwarnings : s.warnings with
    | nil => simp
    | cons w ws =>
      have hw := hmarked.marks w (by rw [hwarnings]; exact List.mem_cons_self)
      simp [hw]
  obtain ⟨-, -, -, hcurrent⟩ := CostState.marksIncomplete_texts
  rw [hincomplete, ← hnil]
  by_cases hprice : currentPriceRaw = none ∧ s.lots ≠ []
  · rw [if_pos hprice]
    simp [hcurrent, hprice]
  · rw [if_neg hprice, hunmarked]
    have hpriced : currentPriceRaw = none → s.lots = [] := fun hnone =>
      by_contra fun hlots => hprice ⟨hnone, hlots⟩
    exact (and_iff_right hpriced).symm

/-- **Consuming the unknown leaves no realized result.** -/
theorem realizedPnlRaw_of_consumesUnknown {s : CostState} {r : CostBasisResult}
    (hs : CostState.empty.run gasFeesIncluded flows = .ok s)
    (hr : s.finish flows currentPriceRaw = .ok r) (h : ConsumesUnknown gasFeesIncluded flows) :
    r.realizedPnlRaw = none := by
  obtain ⟨-, hmarked, hnil⟩ := CostState.run_spec CostState.marked_empty hs
  obtain ⟨-, hrealized, -⟩ := CostState.finish_ok hr
  rw [hrealized, hmarked.realized_none_iff, ne_eq, hnil]
  rintro ⟨-, huntouched, hcovered, -⟩
  obtain ⟨before, f, after, s₀, rfl, hf, hs₀, hconsumed⟩ := h
  obtain ⟨hqueue, -, -⟩ := CostState.run_spec CostState.marked_empty hs₀
  have hmove : moves (before ++ f :: after) = moves before ++ f.move :: moves after := by
    simp [moves]
  rw [hmove] at huntouched hcovered
  rcases hconsumed with hshort | ⟨q₁, l, q₂, hlots, hlt, hunknown, -⟩
  · have hle := covered_iff.mp hcovered _ _ _ rfl
    rw [CostFlow.move_of_disposes hf, held_nil, ← held_queueAfter, ← hqueue, CostState.queue,
      held_unnamed] at hle
    dsimp only at hle
    omega
  · refine huntouched (touches_of_reaches ?_)
    rw [← hqueue, CostFlow.move_of_disposes hf, List.append_nil, CostState.queue, hlots]
    refine ⟨q₁.map CostLot.unnamed, l.unnamed, q₂.map CostLot.unnamed, by simp, ?_, hunknown⟩
    rwa [held_unnamed]

/-- **An unknown cost is noticed** exactly where it is not the case that
all else is known and no disposal reaches it. -/
theorem honest_iff :
    (∀ r, fifoCostBasis flows currentPriceRaw gasFeesIncluded = .ok r →
        Honest flows gasFeesIncluded r) ↔ ¬Unnoticed flows currentPriceRaw := by
  constructor
  · rintro hall ⟨hprice, hpositive, hpriced, hcovered, ⟨f, hmem, hf, hnone⟩, hunreached⟩
    have huntaken : ∀ before f after, flows = before ++ f :: after → f.acquires = true →
        f.priceRaw = none → takenFrom before after = 0 := by
      intro before f after hsplit hf hnone
      exact Nat.sub_eq_zero_of_le (hunreached before f after hsplit hf hnone)
    obtain ⟨r, hr⟩ : ∃ r, fifoCostBasis flows currentPriceRaw gasFeesIncluded = .ok r := by
      refine fifoCostBasis_ok_iff.mpr ⟨fun f hmem hf hzero => ?_, fun before f after hsplit hf hzero => ?_⟩
      · have hpos := hpositive f hmem hf
        omega
      · have hpos := hpositive f (by simp [hsplit]) hf
        omega
    obtain ⟨s, hs, hfinish⟩ := fifoCostBasis_ok hr
    have hcomplete : r.incompleteHistory = false := by
      refine (incompleteHistory_eq_false_iff hs hfinish).mpr
        ⟨fun h => absurd h hprice, fun htouches => ?_, hcovered, hpriced⟩
      obtain ⟨before, f, after, hsplit, hf, htaken, hunknown⟩ :=
        (touches_moves_iff fun _ _ => Iff.rfl).mp htouches
      have hzero := huntaken before f after hsplit hf (unknown_lot.mp hunknown)
      omega
    obtain ⟨hlots, -, -, ⟨basis, -, hbasis⟩, -⟩ := CostState.finish_ok hfinish
    obtain ⟨before, after, hsplit⟩ := List.append_of_mem hmem
    have hlot : ∃ l ∈ r.lots, 0 < l.remainingAmount ∧ l.costRaw = none := by
      rw [hlots]
      have hzero := huntaken before f after hsplit hf hnone
      refine (CostState.exists_lot_iff hs fun _ => Iff.rfl).mpr
        ⟨before, f, after, hsplit, hf, .inl hzero, ?_, unknown_lot.mpr hnone⟩
      have hpos := hpositive f hmem hf
      change 0 < f.amount - takenFrom before after
      omega
    rcases (hall r hr).1 hlot with ⟨hnobasis, -, -⟩ | hincomplete
    · rw [hbasis] at hnobasis
      exact absurd hnobasis (by simp)
    · rw [hcomplete] at hincomplete
      exact Bool.false_ne_true hincomplete
  · intro hnoticed r hr
    obtain ⟨s, hs, hfinish⟩ := fifoCostBasis_ok hr
    have hmarks := incompleteHistory_eq_false_iff hs hfinish
    refine ⟨fun hlot => .inr ?_, realizedPnlRaw_of_consumesUnknown hs hfinish,
      fun hunpriced => .inr ?_⟩
    · by_contra hcomplete
      rw [Bool.not_eq_true] at hcomplete
      obtain ⟨hprice, huntouched, hcovered, hpriced⟩ := hmarks.mp hcomplete
      obtain ⟨hlots, -⟩ := CostState.finish_ok hfinish
      rw [hlots] at hlot
      have huntaken : ∀ before f after, flows = before ++ f :: after → f.acquires = true →
          f.priceRaw = none → takenFrom before after = 0 := by
        intro before f after hsplit hf hnone
        by_contra htaken
        exact huntouched ((touches_moves_iff fun _ _ => Iff.rfl).mpr
          ⟨before, f, after, hsplit, hf, Nat.pos_of_ne_zero htaken, unknown_lot.mpr hnone⟩)
      refine hnoticed ⟨fun hnone => ?_, fun f hmem hf => ?_, hpriced, hcovered, ?_,
        fun before f after hsplit hf hnone =>
          Nat.sub_eq_zero_iff_le.mp (huntaken before f after hsplit hf hnone)⟩
      · obtain ⟨l, hl, -⟩ := hlot
        rw [hprice hnone] at hl
        exact List.not_mem_nil hl
      · obtain ⟨hzero, hreached⟩ := fifoCostBasis_ok_iff.mp ⟨r, hr⟩
        by_contra hnpos
        have hamount : f.amount = 0 := by omega
        obtain ⟨before, after, hsplit⟩ := List.append_of_mem hmem
        have hnone := huntaken before f after hsplit hf (hzero f hmem hf hamount)
        rcases hreached before f after hsplit hf hamount with hsome | ⟨hnoprice, -⟩
        · omega
        · obtain ⟨l, hl, -⟩ := hlot
          rw [hprice hnoprice] at hl
          exact List.not_mem_nil hl
      · obtain ⟨before, f, after, hsplit, hf, -, -, hunknown⟩ :=
          (CostState.exists_lot_iff (P := fun l => 0 < l.remainingAmount ∧ l.costRaw = none) hs
            fun _ => Iff.rfl).mp hlot
        exact ⟨f, by simp [hsplit], hf, unknown_lot.mp hunknown⟩
    · obtain ⟨f, hmem, hf, hnone⟩ := hunpriced
      by_contra hcomplete
      rw [Bool.not_eq_true] at hcomplete
      obtain ⟨-, -, -, hpriced⟩ := hmarks.mp hcomplete
      exact hpriced f hmem hf hnone

theorem not_honest :
    ¬∀ (flows : List CostFlow) (currentPriceRaw : Option ℤ) (gasFeesIncluded : Bool) r,
      fifoCostBasis flows currentPriceRaw gasFeesIncluded = .ok r →
        Honest flows gasFeesIncluded r := by
  intro h
  have hresult : (fifoCostBasis [flowOf .buy 5 none] (some 2) false).toOption.any (fun r =>
      r.lots.any (fun l => 0 < l.remainingAmount && l.costRaw.isNone) &&
        r.costBasisRaw = some 0 && !r.incompleteHistory) = true := by
    decide +kernel
  obtain ⟨r, hr, hshown⟩ := (Option.any_eq_true _ _).mp hresult
  have hok : fifoCostBasis [flowOf .buy 5 none] (some 2) false = .ok r := by
    revert hr
    cases fifoCostBasis [flowOf .buy 5 none] (some 2) false with
    | error e => simp [Except.toOption]
    | ok r' => simp [Except.toOption]
  simp only [Bool.and_eq_true, List.any_eq_true, decide_eq_true_eq, Option.isNone_iff_eq_none,
    Bool.not_eq_true'] at hshown
  obtain ⟨⟨hlot, hbasis⟩, hcomplete⟩ := hshown
  rcases (h _ _ _ r hok).1 hlot with ⟨hnone, -, -⟩ | hincomplete
  · rw [hbasis] at hnone
    exact absurd hnone (by simp)
  · rw [hcomplete] at hincomplete
    exact Bool.false_ne_true hincomplete

end HoodSentry.Portfolio
