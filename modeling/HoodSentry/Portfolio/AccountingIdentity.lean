import HoodSentry.Portfolio.CostBasis
/-!
# Cost basis: the accounting identity

Where every price is known, no amount is zero and no disposal exceeds what
is held, `fifoCostBasis` accounts for everything: what remains is what was
acquired less what was disposed of, the lots are a suffix of the
acquisitions of which only the first may be partly used, and the basis is
the cost of what was acquired, plus the realized result, less the proceeds
(`fifoCostBasis_accounts`).

The cost of a lot is its amount times its price, so a share of it divides
without a remainder (`worth_of_exact`): nothing is lost in rounding, and
the identity is exact.
-/

namespace HoodSentry.Portfolio

open Fifo

/-! ## What a lot is worth -/

namespace CostLot

/-- The share of its cost that a lot still carries. -/
def worth (l : CostLot) : ℤ := (l.costRaw.getD 0 * l.remainingAmount).tdiv l.amount

/-- A lot of positive amount whose cost is its amount at one price. -/
def Exact (l : CostLot) : Prop := 0 < l.amount ∧ ∃ price : ℤ, l.costRaw = some (l.amount * price)

theorem tdiv_share {amount used : ℕ} (hamount : 0 < amount) (price : ℤ) :
    ((amount * price) * used : ℤ).tdiv amount = price * used := by
  have hne : (amount : ℤ) ≠ 0 := by omega
  rw [mul_assoc, Int.mul_tdiv_cancel_left _ hne]

theorem worth_of_exact {l : CostLot} {price : ℤ} (hamount : 0 < l.amount)
    (hcost : l.costRaw = some (l.amount * price)) : l.worth = price * l.remainingAmount := by
  rw [worth, hcost, Option.getD_some, tdiv_share hamount]

theorem Exact.use {l : CostLot} (h : l.Exact) (n : ℕ) :
    Exact { l with remainingAmount := n } := h

theorem Exact.not_unknown {l : CostLot} (h : l.Exact) : ¬l.Unknown := by
  obtain ⟨-, price, hcost⟩ := h
  rw [Unknown, hcost]
  simp

theorem Exact.basis_eq {l : CostLot} (h : l.Exact) : l.basis = .ok l.worth := by
  obtain ⟨hamount, price, hcost⟩ := h
  have hne : (l.amount : ℤ) ≠ 0 := by omega
  rw [CostLot.basis, worth, hcost]
  simp only [divide, if_neg hne, Option.getD_some]

theorem total_basis {lots : List CostLot} (h : ∀ l ∈ lots, l.Exact) :
    total CostLot.basis lots = .ok (lots.map worth).sum := by
  induction lots with
  | nil => rfl
  | cons l lots ih =>
    obtain ⟨hl, hlots⟩ := List.forall_mem_cons.mp h
    rw [total, hl.basis_eq, ih hlots, List.map_cons, List.sum_cons]

end CostLot

namespace Consuming

/-- **A turn charges what the lot loses.** -/
theorem worth_useLot {c c' : Consuming} {lot : CostLot} {lots : List CostLot}
    (h : c.useLot lot lots = .ok c') (hexact : lot.Exact) :
    c'.cost + (c'.lots.map CostLot.worth).sum =
      c.cost + ((lot :: lots).map CostLot.worth).sum := by
  obtain ⟨-, hlots⟩ := useLot_ok h
  rcases marks_useLot h with ⟨hunknown, -⟩ | ⟨costRaw, hcost, -, -, hcharge⟩
  · exact absurd hunknown hexact.not_unknown
  obtain ⟨hamount, price, hprice⟩ := hexact
  obtain rfl := Option.some.inj (hcost.symm.trans hprice)
  rw [hcharge, CostLot.tdiv_share hamount, hlots, List.map_cons, List.sum_cons,
    CostLot.worth_of_exact hamount hprice]
  by_cases hle : lot.remainingAmount ≤ c.remaining
  · rw [if_pos hle, Nat.min_eq_right hle]
    ring
  · have hless : c.remaining ≤ lot.remainingAmount := by omega
    have hrest : CostLot.worth { lot with remainingAmount := lot.remainingAmount - c.remaining } =
        price * (lot.remainingAmount - c.remaining : ℕ) :=
      CostLot.worth_of_exact hamount hprice
    rw [if_neg hle, Nat.min_eq_left hless, List.map_cons, List.sum_cons, hrest,
      Nat.cast_sub hless]
    ring

theorem exact_useLot {c c' : Consuming} {lot : CostLot} {lots : List CostLot}
    (h : c.useLot lot lots = .ok c') (hexact : ∀ l ∈ lot :: lots, l.Exact) :
    ∀ l ∈ c'.lots, l.Exact := by
  obtain ⟨hlot, hlots⟩ := List.forall_mem_cons.mp hexact
  obtain ⟨-, hleft⟩ := useLot_ok h
  rw [hleft]
  split
  · exact hlots
  · exact List.forall_mem_cons.mpr ⟨hlot.use _, hlots⟩

/-- **The loop charges what the lots lose.** -/
theorem worth_consumeLots {c c' : Consuming} (h : c.consumeLots = .ok c')
    (hexact : ∀ l ∈ c.lots, l.Exact) :
    c'.cost + (c'.lots.map CostLot.worth).sum = c.cost + (c.lots.map CostLot.worth).sum ∧
      ∀ l ∈ c'.lots, l.Exact := by
  induction c using consumeLots.induct with
  | case1 c hpos hnil =>
    obtain rfl := Except.ok.inj ((consumeLots_of_done (.inr hnil)).symm.trans h)
    exact ⟨rfl, hexact⟩
  | case2 c hpos lot lots hcons e huse =>
    rw [consumeLots_cons hpos hcons, huse] at h
    exact absurd h (by simp [Except.bind])
  | case3 c hpos lot lots hcons c₁ huse ih =>
    rw [consumeLots_cons hpos hcons, huse] at h
    rw [hcons] at hexact ⊢
    obtain ⟨hworth, hlots⟩ := ih h (exact_useLot huse hexact)
    exact ⟨hworth.trans (worth_useLot huse (hexact lot List.mem_cons_self)), hlots⟩
  | case4 c hdone =>
    obtain rfl := Except.ok.inj ((consumeLots_of_done (.inl (by omega))).symm.trans h)
    exact ⟨rfl, hexact⟩

end Consuming

/-! ## The identity along a run -/

/-- What an acquisition costs. -/
def CostFlow.cost (f : CostFlow) : ℤ := if f.acquires then f.amount * f.priceRaw.getD 0 else 0

/-- A flow of positive amount and known price. -/
def CostFlow.Known (f : CostFlow) : Prop := 0 < f.amount ∧ f.priceRaw ≠ none

namespace CostState

variable {gasFeesIncluded : Bool} {s s' : CostState} {f : CostFlow} {flows : List CostFlow}

/-- **The books balance**, with the cost of what was acquired. -/
structure Balanced (acquired : ℤ) (s : CostState) : Prop where
  exact_lots : ∀ l ∈ s.lots, l.Exact
  balance : ∃ realized proceeds, s.realized = some realized ∧ s.proceeds = some proceeds ∧
    realized + acquired - proceeds = (s.lots.map CostLot.worth).sum

theorem balanced_empty : empty.Balanced 0 :=
  ⟨by simp [empty], 0, 0, rfl, rfl, rfl⟩

theorem Balanced.addFee {a : ℤ} (h : s.Balanced a) : (s.addFee gasFeesIncluded f).Balanced a :=
  ⟨by simpa using h.exact_lots, by simpa using h.balance⟩

theorem Balanced.acquire {a : ℤ} (h : s.Balanced a) (hf : f.Known) (hacquires : f.acquires = true) :
    (s.acquire f).Balanced (a + f.cost) := by
  obtain ⟨realized, proceeds, hrealized, hproceeds, hbalance⟩ := h.balance
  obtain ⟨price, hprice⟩ := Option.ne_none_iff_exists'.mp hf.2
  set lot := f.lot (f.transaction ++ ":" ++ toString s.lots.length)
  have hcost : lot.costRaw = some (f.amount * price) := by
    change f.priceRaw.map ((f.amount : ℤ) * ·) = _
    rw [hprice, Option.map_some]
  have hworth : lot.worth = price * f.amount := CostLot.worth_of_exact hf.1 hcost
  constructor
  · intro l hl
    rcases List.mem_append.mp hl with hl | hl
    · exact h.exact_lots l hl
    · obtain rfl := List.mem_singleton.mp hl
      exact ⟨hf.1, price, hcost⟩
  · refine ⟨realized, proceeds, hrealized, hproceeds, ?_⟩
    change _ = ((s.lots ++ [lot]).map CostLot.worth).sum
    rw [List.map_append, List.sum_append, ← hbalance, List.map_singleton, List.sum_singleton,
      hworth, CostFlow.cost, if_pos hacquires, hprice, Option.getD_some]
    ring

/-- **A covered disposal keeps the balance**: it books its proceeds less
what the lots lose. -/
theorem Balanced.dispose {a : ℤ} (h : s.Balanced a) (hf : f.Known) (hheld : f.amount ≤ held s.lots)
    (hs' : s.dispose f = .ok s') : s'.Balanced a := by
  obtain ⟨c, hc, rfl⟩ := dispose_ok hs'
  obtain ⟨realized, proceeds, hrealized, hproceeds, hbalance⟩ := h.balance
  obtain ⟨price, hprice⟩ := Option.ne_none_iff_exists'.mp hf.2
  obtain ⟨-, hremaining, n, hn, -, hkept⟩ := Consuming.consumeLots_ok hc
  obtain ⟨hworth, hexact⟩ := Consuming.worth_consumeLots hc h.exact_lots
  dsimp only at hremaining hn hkept hworth
  have hknown : ¬Reaches CostLot.Unknown f.amount s.lots := by
    rintro ⟨q₁, l, q₂, hlots, -, hunknown⟩
    exact (h.exact_lots l (by rw [hlots]; simp)).not_unknown hunknown
  have hall : ¬0 < c.remaining := by omega
  rw [if_pos (hn.mpr hknown), hrealized] at hkept
  refine ⟨by rwa [lots_book], realized + (f.amount * price - c.cost),
    proceeds + f.amount * price, ?_, ?_, ?_⟩
  · simp [book, hprice, hall, hkept]
  · simp [book, hprice, hproceeds]
  · rw [lots_book]
    linarith

/-- **The balance along a run** of known flows that disposes only of what
is held. -/
theorem Balanced.run {a : ℤ} (h : s.Balanced a) (hflows : ∀ f ∈ flows, f.Known)
    (hcovered : Covered (held s.lots) (moves flows)) (hmarked : s.Marked)
    (hs' : s.run gasFeesIncluded flows = .ok s') :
    s'.Balanced (a + (flows.map CostFlow.cost).sum) := by
  induction flows generalizing s a with
  | nil =>
    obtain rfl := Except.ok.inj hs'
    simpa using h
  | cons f flows ih =>
    obtain ⟨hf, hflows⟩ := List.forall_mem_cons.mp hflows
    obtain ⟨hdisposed, hcovered⟩ := hcovered
    rw [CostState.run] at hs'
    split at hs'
    · exact absurd hs' (by simp)
    rename_i s₁ hs₁
    have hstep : s₁.Balanced (a + f.cost) := by
      cases hacquires : f.acquires with
      | true =>
        obtain rfl := Except.ok.inj ((apply_of_acquires hacquires).symm.trans hs₁)
        exact h.addFee.acquire hf hacquires
      | false =>
        rw [CostFlow.cost, hacquires, if_neg Bool.false_ne_true, add_zero]
        cases hdisposes : f.disposes with
        | true =>
          rw [apply_of_disposes hdisposes] at hs₁
          rw [CostFlow.move_of_disposes hdisposes] at hdisposed
          exact h.addFee.dispose hf (by simpa using hdisposed) hs₁
        | false =>
          obtain rfl := Except.ok.inj ((apply_of_ignored hacquires hdisposes).symm.trans hs₁)
          exact h.addFee
    obtain ⟨hqueue, hmarked₁, -⟩ := apply_spec hmarked hs₁
    have hheld : held s₁.lots = held s.lots + held f.move.acquired - f.move.disposed := by
      rw [← held_unnamed s₁.lots, ← queue, hqueue, held_serve, held_append, queue, held_unnamed]
    rw [← hheld] at hcovered
    have hrest := ih hstep hflows hcovered hmarked₁ hs'
    rwa [List.map_cons, List.sum_cons, ← add_assoc]

end CostState

/-! ## The lots that stay -/

/-- The lot of an acquisition, perhaps with less remaining. -/
def CostLot.IsOf (l : CostLot) (f : CostFlow) : Prop :=
  { l with remainingAmount := f.amount } = f.lot l.id

theorem isOf_of_unnamed {l : CostLot} {f : CostFlow} {e : ℕ}
    (h : l.unnamed = Spendable.use e (f.lot "")) : l.IsOf f := by
  cases l
  simp only [CostLot.unnamed, CostLot.use_eq, CostLot.mk.injEq] at h
  obtain ⟨-, rfl, rfl, rfl, rfl, rfl, rfl, rfl, -⟩ := h
  rfl

theorem forall₂_isOf {lots : List CostLot} {fs : List CostFlow} {e : ℕ}
    (h : lots.map CostLot.unnamed = useHead e (fs.map (·.lot ""))) :
    List.Forall₂ CostLot.IsOf lots fs := by
  induction fs generalizing lots e with
  | nil =>
    obtain rfl : lots = [] := by simpa [useHead] using h
    exact .nil
  | cons f fs ih =>
    obtain ⟨l, lots, rfl, hl, hlots⟩ := List.map_eq_cons_iff.mp h
    have hwhole : lots.map CostLot.unnamed = useHead 0 (fs.map (·.lot "")) := by
      rw [hlots]
      cases fs <;> simp [useHead]
    exact .cons (isOf_of_unnamed hl) (ih hwhole)

/-- Behind the first lot every one is whole. -/
theorem whole_of_mem_tail {lots : List CostLot} {fs : List CostFlow} {e : ℕ}
    (h : lots.map CostLot.unnamed = useHead e (fs.map (·.lot ""))) :
    ∀ l ∈ lots.tail, l.remainingAmount = l.amount := by
  intro l hl
  cases fs with
  | nil =>
    obtain rfl : lots = [] := by simpa [useHead] using h
    exact absurd hl List.not_mem_nil
  | cons f fs =>
    obtain ⟨l', lots, rfl, -, hlots⟩ := List.map_eq_cons_iff.mp h
    have hmem : l.unnamed ∈ fs.map (·.lot "") := hlots ▸ List.mem_map_of_mem hl
    obtain ⟨g, -, hg⟩ := List.mem_map.mp hmem
    calc l.remainingAmount = l.unnamed.remainingAmount := rfl
      _ = l.unnamed.amount := by rw [← hg]; rfl

variable {flows : List CostFlow} {currentPriceRaw : Option ℤ} {gasFeesIncluded : Bool}

/-- What the flows acquire. -/
def acquiredAmount (flows : List CostFlow) : ℕ :=
  ((flows.filter (·.acquires)).map (·.amount)).sum

/-- What the flows dispose of, the user's own transfers apart. -/
def disposedAmount (flows : List CostFlow) : ℕ :=
  ((flows.filter (·.disposes)).map (·.amount)).sum

/-- What everything acquired has cost. -/
def acquisitionCost (flows : List CostFlow) : ℤ :=
  ((flows.filter (·.acquires)).map fun f => (f.amount : ℤ) * f.priceRaw.getD 0).sum

theorem acquired_moves (flows : List CostFlow) :
    (moves flows).flatMap Move.acquired = (flows.filter (·.acquires)).map (·.lot "") := by
  induction flows with
  | nil => rfl
  | cons f flows ih =>
    cases h : f.acquires <;> simp [CostFlow.move, h, ih]

theorem held_acquired (flows : List CostFlow) :
    held ((moves flows).flatMap Move.acquired) = acquiredAmount flows := by
  rw [acquired_moves, held, acquiredAmount, List.map_map]
  rfl

theorem disposedIn_moves (flows : List CostFlow) :
    disposedIn (moves flows) = disposedAmount flows := by
  induction flows with
  | nil => rfl
  | cons f flows ih =>
    rw [moves_cons, disposedIn_cons, ih, disposedAmount, disposedAmount]
    cases h : f.disposes <;> simp [CostFlow.move, h]

theorem sum_cost (flows : List CostFlow) :
    (flows.map CostFlow.cost).sum = acquisitionCost flows := by
  induction flows with
  | nil => rfl
  | cons f flows ih =>
    rw [List.map_cons, List.sum_cons, ih, acquisitionCost, acquisitionCost, CostFlow.cost]
    cases h : f.acquires <;> simp [h]

/-- No disposal exceeds what is held, flow by flow. -/
theorem covered_moves_iff : Covered 0 (moves flows) ↔
    ∀ before f after, flows = before ++ f :: after → f.disposes = true →
      f.amount ≤ heldAfter 0 (moves before) := by
  rw [covered_iff]
  constructor
  · rintro hall before f after rfl hf
    have hle := hall (moves before) f.move (moves after) (by simp [moves])
    simpa [CostFlow.move_of_disposes hf] using hle
  · intro hall before m after hsplit
    obtain ⟨before, rest, rfl, rfl, hrest⟩ := List.map_eq_append_iff.mp hsplit
    obtain ⟨f, after, rfl, rfl, rfl⟩ := List.map_eq_cons_iff.mp hrest
    cases hf : f.disposes with
    | true =>
      have hle := hall before f after rfl hf
      simpa [CostFlow.move_of_disposes hf, moves] using hle
    | false => simp [CostFlow.move, hf]

/-- **The accounting identity.** -/
theorem fifoCostBasis_accounts (hflows : ∀ f ∈ flows, f.Known)
    (hheld : ∀ before f after, flows = before ++ f :: after → f.disposes = true →
      f.amount ≤ heldAfter 0 (moves before)) :
    ∃ r, fifoCostBasis flows currentPriceRaw gasFeesIncluded = .ok r ∧
      (r.lots.map (·.remainingAmount)).sum + disposedAmount flows = acquiredAmount flows ∧
      (∃ k, List.Forall₂ CostLot.IsOf r.lots ((flows.filter (·.acquires)).drop k)) ∧
      (∀ l ∈ r.lots, 0 < l.remainingAmount ∧ l.remainingAmount ≤ l.amount) ∧
      (∀ l ∈ r.lots.tail, l.remainingAmount = l.amount) ∧
      ∃ realized proceeds basis, r.realizedPnlRaw = some realized ∧
        r.proceedsRaw = some proceeds ∧ r.costBasisRaw = some basis ∧
        realized + acquisitionCost flows - proceeds = basis := by
  have hcovered : Covered 0 (moves flows) := covered_moves_iff.mpr hheld
  obtain ⟨r, hr⟩ : ∃ r, fifoCostBasis flows currentPriceRaw gasFeesIncluded = .ok r := by
    refine fifoCostBasis_ok_iff.mpr ⟨fun f hmem _ hzero => ?_,
      fun before f after hsplit _ hzero => ?_⟩
    · have hpos := (hflows f hmem).1
      omega
    · have hpos := (hflows f (by simp [hsplit])).1
      omega
  obtain ⟨s, hs, hfinish⟩ := fifoCostBasis_ok hr
  obtain ⟨hlots, hrealized, hproceeds, ⟨basis, htotal, hbasis⟩, -⟩ := CostState.finish_ok hfinish
  obtain ⟨hqueue, -, -⟩ := CostState.run_spec CostState.marked_empty hs
  have hbalanced := CostState.balanced_empty.run hflows hcovered CostState.marked_empty hs
  obtain ⟨realized, proceeds, hsome, hsome', hbalance⟩ := hbalanced.balance
  rw [CostLot.total_basis hbalanced.exact_lots] at htotal
  obtain ⟨k, e, hrest⟩ := isRest_queueAfter (isRest_refl []) (moves flows)
  have hqueue' : CostState.empty.queue = [] := rfl
  rw [hqueue', hrest, List.nil_append, acquired_moves, ← List.map_drop] at hqueue
  refine ⟨r, hr, ?_, ⟨k, ?_⟩, ?_, ?_, realized, proceeds, basis, hrealized.trans hsome,
    hproceeds.trans hsome', hbasis, ?_⟩
  · have hconserved := heldAfter_of_covered hcovered
    have htotal' := CostState.remainingTotal_run hs
    rw [CostState.remainingTotal] at htotal'
    rw [hlots, htotal', ← disposedIn_moves, hconserved, held_acquired, Nat.zero_add]
  · rw [hlots]
    exact forall₂_isOf hqueue
  · rw [hlots]
    by_contra hnot
    push Not at hnot
    obtain ⟨l, hl, hbad⟩ := hnot
    have hexists : ∃ l ∈ s.lots, l.remainingAmount = 0 ∨ l.amount < l.remainingAmount :=
      ⟨l, hl, by omega⟩
    obtain ⟨before, f, after, hsplit, -, hleft, hwrong⟩ :=
      (CostState.exists_lot_iff hs fun _ => Iff.rfl).mp hexists
    have hpos := (hflows f (by simp [hsplit])).1
    have hwrong' : f.amount - takenFrom before after = 0 ∨
        f.amount < f.amount - takenFrom before after := hwrong
    omega
  · rw [hlots]
    exact whole_of_mem_tail hqueue
  · rw [← Except.ok.inj htotal, ← hbalance, sum_cost, zero_add]

/-- Ten bought and four sold. -/
theorem fifoCostBasis_accounts_sale :
    ∃ r, fifoCostBasis [flowOf .buy 10 (some 3), flowOf .sell 4 (some 5)] none false = .ok r ∧
      (r.lots.map (·.remainingAmount)).sum + 4 = 10 ∧
      ∃ realized proceeds basis, r.realizedPnlRaw = some realized ∧
        r.proceedsRaw = some proceeds ∧ r.costBasisRaw = some basis ∧
        realized + 30 - proceeds = basis := by
  have hcovered : Covered 0 (moves [flowOf .buy 10 (some 3), flowOf .sell 4 (some 5)]) := by
    simp [Covered, CostFlow.move, CostFlow.acquires, CostFlow.disposes, flowOf, CostFlow.lot]
  obtain ⟨r, hr, hsum, -, -, -, realized, proceeds, basis, hrealized, hproceeds, hbasis, hidentity⟩ :=
    @fifoCostBasis_accounts [flowOf .buy 10 (some 3), flowOf .sell 4 (some 5)] none false
      (by simp [CostFlow.Known, flowOf]) (covered_moves_iff.mp hcovered)
  have hcost : acquisitionCost [flowOf .buy 10 (some 3), flowOf .sell 4 (some 5)] = 30 := by
    decide
  rw [hcost] at hidentity
  exact ⟨r, hr, hsum, realized, proceeds, basis, hrealized, hproceeds, hbasis, hidentity⟩

end HoodSentry.Portfolio
