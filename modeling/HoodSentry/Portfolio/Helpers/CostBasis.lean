import HoodSentry.Common.Fifo
import HoodSentry.Portfolio.Model.CostBasis
/-!
# Cost basis: the loops as a queue

The consuming loop serves a queue of lots (`consumeLots_ok`), and fails
exactly where it reaches a lot of amount zero and known cost
(`consumeLots_error_iff`). The loop over the flows is a run of moves
(`lots_run`), so what it leaves, what it marks and where it fails are the
closed forms of `Fifo`, read at the flows.
-/

namespace HoodSentry.Portfolio

open Fifo

instance : Spendable CostLot where
  left := CostLot.remainingAmount
  use d l := { l with remainingAmount := l.remainingAmount - d }
  left_use _ _ := rfl
  use_zero _ := rfl
  use_use d d' l := by simp only [Nat.sub_sub]

namespace CostLot

@[simp] theorem left_eq (l : CostLot) : Spendable.left l = l.remainingAmount := rfl

@[simp] theorem use_eq (d : ℕ) (l : CostLot) :
    Spendable.use d l = { l with remainingAmount := l.remainingAmount - d } := rfl

/-- The lot of an acquisition whose price was not known. -/
def Unknown (l : CostLot) : Prop := l.costRaw = none

/-- A lot whose share of a cost is not defined. -/
def Undivided (l : CostLot) : Prop := l.amount = 0 ∧ l.costRaw ≠ none

instance : DecidablePred Unknown := fun l => inferInstanceAs (Decidable (l.costRaw = none))

instance : DecidablePred Undivided := fun l =>
  inferInstanceAs (Decidable (l.amount = 0 ∧ l.costRaw ≠ none))

end CostLot

/-! ## One disposal -/

namespace Consuming

theorem consumeLots_of_done {c : Consuming} (h : c.remaining = 0 ∨ c.lots = []) :
    c.consumeLots = .ok c := by
  rw [consumeLots]
  split
  · rename_i hpos
    have hnil : c.lots = [] := h.resolve_left hpos.ne'
    split
    · rfl
    · rename_i lot lots hcons
      rw [hnil] at hcons
      exact absurd hcons (List.cons_ne_nil lot lots).symm
  · rfl

theorem consumeLots_cons {c : Consuming} {lot : CostLot} {lots : List CostLot}
    (hpos : 0 < c.remaining) (hlots : c.lots = lot :: lots) :
    c.consumeLots = (c.useLot lot lots).bind consumeLots := by
  rw [consumeLots, dif_pos hpos]
  split
  · rename_i hnil
    rw [hnil] at hlots
    exact absurd hlots (List.cons_ne_nil lot lots).symm
  · rename_i lot' lots' hcons
    obtain ⟨rfl, rfl⟩ := List.cons.inj (hlots.symm.trans hcons)
    split
    · rename_i e huse
      rw [huse]
      rfl
    · rename_i c' huse
      rw [huse]
      rfl

/-- A turn fails on a lot of amount zero and known cost, and on no other. -/
theorem useLot_error_iff {c : Consuming} {lot : CostLot} {lots : List CostLot} :
    (∃ e, c.useLot lot lots = .error e) ↔ lot.Undivided := by
  cases hcost : lot.costRaw with
  | none => simp [useLot, hcost, CostLot.Undivided]
  | some costRaw =>
    by_cases hamount : lot.amount = 0
    · simp [useLot, hcost, hamount, divide, CostLot.Undivided]
    · simp [useLot, hcost, hamount, divide, CostLot.Undivided]

/-- What a turn marks. -/
theorem marks_useLot {c c' : Consuming} {lot : CostLot} {lots : List CostLot}
    (h : c.useLot lot lots = .ok c') :
    (lot.Unknown ∧ c'.realized = none ∧
        c'.warnings = c.warnings ++ ["Missing acquisition price"] ∧ c'.cost = c.cost) ∨
      (∃ costRaw, lot.costRaw = some costRaw ∧ c'.realized = c.realized ∧
        c'.warnings = c.warnings ∧ c'.cost = c.cost +
          (costRaw * (min c.remaining lot.remainingAmount : ℕ)).tdiv lot.amount) := by
  have hused : (if c.remaining < lot.remainingAmount then c.remaining else lot.remainingAmount) =
      min c.remaining lot.remainingAmount := by
    split <;> omega
  simp only [useLot, hused] at h
  split at h
  · rename_i hcost
    obtain rfl := Except.ok.inj h
    exact .inl ⟨hcost, rfl, rfl, rfl⟩
  · rename_i costRaw hcost
    split at h
    · exact absurd h (by simp)
    · rename_i cost hdivide
      obtain rfl := Except.ok.inj h
      rw [divide] at hdivide
      split at hdivide
      · exact absurd hdivide (by simp)
      · obtain rfl := Except.ok.inj hdivide
        exact .inr ⟨costRaw, hcost, rfl, rfl, rfl⟩

/-- A turn leaves what serving leaves to serve. -/
theorem serve_useLot {c c' : Consuming} {lot : CostLot} {lots : List CostLot}
    (hpos : 0 < c.remaining) (h : c.useLot lot lots = .ok c') :
    serve c'.remaining c'.lots = serve c.remaining (lot :: lots) ∧
      c'.remaining - held c'.lots = c.remaining - held (lot :: lots) ∧
      ∀ P : CostLot → Prop,
        Reaches P c'.remaining c'.lots ↔ Reaches P (c.remaining - lot.remainingAmount) lots := by
  obtain ⟨hrest, hlots⟩ := useLot_ok h
  rw [hrest, hlots]
  by_cases hle : lot.remainingAmount ≤ c.remaining
  · rw [if_pos hle, serve_cons_of_le hpos.ne' hle, held_cons]
    refine ⟨rfl, ?_, fun P => Iff.rfl⟩
    rw [CostLot.left_eq]
    omega
  · have hnone : c.remaining - lot.remainingAmount = 0 := by omega
    rw [if_neg hle, hnone, serve_zero, serve_cons_of_lt hpos.ne' (by rw [CostLot.left_eq]; omega)]
    refine ⟨rfl, ?_, fun P => by simp⟩
    simp only [held_cons, CostLot.left_eq]
    omega

/-- **The loop fails** exactly where it reaches an undivided lot. -/
theorem consumeLots_error_iff {c : Consuming} :
    (∃ e, c.consumeLots = .error e) ↔ Reaches CostLot.Undivided c.remaining c.lots := by
  induction c using consumeLots.induct with
  | case1 c hpos hnil =>
    rw [consumeLots_of_done (.inr hnil), hnil]
    simp
  | case2 c hpos lot lots hcons e huse =>
    rw [consumeLots_cons hpos hcons, huse, hcons, reaches_cons]
    exact iff_of_true ⟨e, rfl⟩ (.inl ⟨hpos, useLot_error_iff.mp ⟨e, huse⟩⟩)
  | case3 c hpos lot lots hcons c' huse ih =>
    have hdivided : ¬lot.Undivided := by
      have hturn : (∃ e, c.useLot lot lots = .error e) ↔ lot.Undivided := useLot_error_iff
      rw [← hturn, huse]
      simp
    rw [consumeLots_cons hpos hcons, huse, hcons, reaches_cons]
    refine ih.trans (((serve_useLot hpos huse).2.2 _).trans ?_)
    simp [hdivided]
  | case4 c hdone =>
    have hzero : c.remaining = 0 := by omega
    rw [consumeLots_of_done (.inl hzero), hzero]
    simp

/-- **What the loop leaves**: the lots served, what no lot gave, and a mark
for every lot of unknown cost it reached. -/
theorem consumeLots_ok {c c' : Consuming} (h : c.consumeLots = .ok c') :
    c'.lots = serve c.remaining c.lots ∧ c'.remaining = c.remaining - held c.lots ∧
      ∃ n, (n = 0 ↔ ¬Reaches CostLot.Unknown c.remaining c.lots) ∧
        c'.warnings = c.warnings ++ List.replicate n "Missing acquisition price" ∧
        c'.realized = if n = 0 then c.realized else none := by
  induction c using consumeLots.induct with
  | case1 c hpos hnil =>
    obtain rfl := Except.ok.inj ((consumeLots_of_done (.inr hnil)).symm.trans h)
    rw [hnil]
    exact ⟨rfl, rfl, 0, by simp, by simp, rfl⟩
  | case2 c hpos lot lots hcons e huse =>
    rw [consumeLots_cons hpos hcons, huse] at h
    exact absurd h (by simp [Except.bind])
  | case3 c hpos lot lots hcons c₁ huse ih =>
    rw [consumeLots_cons hpos hcons, huse] at h
    obtain ⟨hserve, hheld, hreaches⟩ := serve_useLot hpos huse
    obtain ⟨hlots, hremaining, n, hn, hwarnings, hrealized⟩ := ih h
    rw [hcons, ← hserve, ← hheld, reaches_cons, ← CostLot.left_eq, ← hreaches] at *
    refine ⟨hlots, hremaining, ?_⟩
    rcases marks_useLot huse with ⟨hunknown, hnone, hmark, -⟩ | ⟨costRaw, hcost, hsame, hmark, -⟩
    · refine ⟨n + 1, by simp [hpos, hunknown], ?_, ?_⟩
      · rw [hwarnings, hmark, List.append_assoc, List.replicate_succ]
        rfl
      · rw [hrealized, hnone, ite_self, if_neg (by omega)]
    · have hknown : ¬lot.Unknown := by
        rw [CostLot.Unknown, hcost]
        simp
      exact ⟨n, by simp [hn, hknown], by rw [hwarnings, hmark], by rw [hrealized, hsame]⟩
  | case4 c hdone =>
    have hzero : c.remaining = 0 := by omega
    obtain rfl := Except.ok.inj ((consumeLots_of_done (.inl hzero)).symm.trans h)
    rw [hzero]
    exact ⟨by simp, by simp, 0, by simp, by simp, rfl⟩

end Consuming

/-! ## The flows as moves -/

/-- A lot under no name: its id counts the lots it joined. -/
def CostLot.unnamed (l : CostLot) : CostLot := { l with id := "" }

@[simp] theorem CostLot.unnamed_lot (f : CostFlow) (id : String) :
    (f.lot id).unnamed = f.lot "" := rfl

theorem CostLot.left_unnamed (l : CostLot) : Spendable.left l.unnamed = Spendable.left l := rfl

theorem held_unnamed (q : List CostLot) : held (q.map CostLot.unnamed) = held q :=
  held_map CostLot.left_unnamed q

theorem serve_unnamed (d : ℕ) (q : List CostLot) :
    serve d (q.map CostLot.unnamed) = (serve d q).map CostLot.unnamed :=
  serve_map CostLot.left_unnamed (fun _ _ => rfl) d q

namespace CostFlow

/-- **What a flow moves.** -/
def move (f : CostFlow) : Move CostLot where
  acquired := if f.acquires then [f.lot ""] else []
  disposed := if f.disposes then f.amount else 0

variable {f : CostFlow}

theorem disposes_of_acquires (h : f.acquires = true) : f.disposes = false := by
  unfold acquires at h
  unfold disposes
  cases hkind : f.kind <;> simp_all

theorem move_of_acquires (h : f.acquires = true) : f.move = ⟨[f.lot ""], 0⟩ := by
  rw [move, if_pos h, disposes_of_acquires h, if_neg Bool.false_ne_true]

theorem move_of_disposes (h : f.disposes = true) : f.move = ⟨[], f.amount⟩ := by
  have hacquires : f.acquires = false := by
    by_contra hacquires
    rw [Bool.not_eq_false] at hacquires
    exact absurd h (by rw [disposes_of_acquires hacquires]; exact Bool.false_ne_true)
  rw [move, if_pos h, hacquires, if_neg Bool.false_ne_true]

theorem move_of_ignored (ha : f.acquires = false) (hd : f.disposes = false) : f.move = ⟨[], 0⟩ := by
  rw [move, ha, hd, if_neg Bool.false_ne_true, if_neg Bool.false_ne_true]

/-- A flow that leaves no mark on a queue. -/
def Unmarked (f : CostFlow) (q : List CostLot) : Prop :=
  ¬Reaches CostLot.Unknown f.move.disposed (q ++ f.move.acquired) ∧
    f.move.disposed ≤ held q + held f.move.acquired ∧ (f.disposes = true → f.priceRaw ≠ none)

end CostFlow

def moves (flows : List CostFlow) : List (Move CostLot) := flows.map CostFlow.move

@[simp] theorem moves_nil : moves [] = [] := rfl

@[simp] theorem moves_cons {f : CostFlow} {flows : List CostFlow} :
    moves (f :: flows) = f.move :: moves flows := rfl

namespace CostState

variable {gasFeesIncluded : Bool} {s s' : CostState} {f : CostFlow} {c : Consuming}

/-- The lots under no names. -/
def queue (s : CostState) : List CostLot := s.lots.map CostLot.unnamed

/-- A state's marks: each is one of an incomplete history, and there is
one exactly where the realized result is unknown. -/
structure Marked (s : CostState) : Prop where
  realized_none_iff : s.realized = none ↔ s.warnings ≠ []
  marks : ∀ w ∈ s.warnings, marksIncomplete w = true

theorem marked_empty : empty.Marked :=
  ⟨by simp [empty], by simp [empty]⟩

@[simp] theorem lots_addFee : (s.addFee gasFeesIncluded f).lots = s.lots := by
  unfold addFee
  split
  · split <;> rfl
  · rfl

@[simp] theorem realized_addFee : (s.addFee gasFeesIncluded f).realized = s.realized := by
  unfold addFee
  split
  · split <;> rfl
  · rfl

@[simp] theorem proceeds_addFee : (s.addFee gasFeesIncluded f).proceeds = s.proceeds := by
  unfold addFee
  split
  · split <;> rfl
  · rfl

@[simp] theorem warnings_addFee : (s.addFee gasFeesIncluded f).warnings = s.warnings := by
  unfold addFee
  split
  · split <;> rfl
  · rfl

@[simp] theorem queue_addFee : (s.addFee gasFeesIncluded f).queue = s.queue := by
  rw [queue, lots_addFee, queue]

theorem Marked.addFee (h : s.Marked) : (s.addFee gasFeesIncluded f).Marked :=
  ⟨by simpa using h.realized_none_iff, by simpa using h.marks⟩

theorem apply_of_acquires (h : f.acquires = true) :
    s.apply gasFeesIncluded f = .ok ((s.addFee gasFeesIncluded f).acquire f) := by
  simp [apply, h]

theorem apply_of_disposes (h : f.disposes = true) :
    s.apply gasFeesIncluded f = (s.addFee gasFeesIncluded f).dispose f := by
  have hacquires : f.acquires = false := by
    by_contra hacquires
    rw [Bool.not_eq_false] at hacquires
    exact absurd h (by rw [CostFlow.disposes_of_acquires hacquires]; exact Bool.false_ne_true)
  simp [apply, h, hacquires]

theorem apply_of_ignored (ha : f.acquires = false) (hd : f.disposes = false) :
    s.apply gasFeesIncluded f = .ok (s.addFee gasFeesIncluded f) := by
  simp [apply, ha, hd]

theorem dispose_ok (h : s.dispose f = .ok s') :
    ∃ c, Consuming.consumeLots ⟨s.lots, f.amount, 0, s.realized, s.warnings⟩ = .ok c ∧
      s' = s.book f c := by
  unfold dispose at h
  split at h
  · exact absurd h (by simp)
  · rename_i c hc
    exact ⟨c, hc, (Except.ok.inj h).symm⟩

/-- A disposal fails where its loop fails. -/
theorem dispose_error_iff :
    (∃ e, s.dispose f = .error e) ↔ Reaches CostLot.Undivided f.amount s.lots := by
  rw [← Consuming.consumeLots_error_iff (c := ⟨s.lots, f.amount, 0, s.realized, s.warnings⟩)]
  unfold dispose
  split
  · rename_i e hc
    simp [hc]
  · rename_i c hc
    simp [hc]

@[simp] theorem lots_book : (s.book f c).lots = c.lots := by
  unfold book
  dsimp only
  split <;> rfl

theorem warnings_book :
    (s.book f c).warnings = c.warnings ++ (if 0 < c.remaining then ["Incomplete history"] else []) ++
      (if f.priceRaw = none then ["Missing sale price"] else []) := by
  unfold book
  dsimp only
  split
  · rename_i hprice
    rw [if_pos hprice]
    split <;> simp
  · rename_i price hprice
    have hpriced : f.priceRaw ≠ none := by
      rw [hprice]
      simp
    rw [if_neg hpriced]
    split <;> simp

theorem realized_book_eq_none_iff :
    (s.book f c).realized = none ↔ c.realized = none ∨ 0 < c.remaining ∨ f.priceRaw = none := by
  unfold book
  dsimp only
  split
  · rename_i hprice
    simp [hprice]
  · rename_i price hprice
    simp only [hprice, Option.map_eq_none_iff, reduceCtorEq, or_false]
    split
    · rename_i hpos
      simp [hpos]
    · rename_i hzero
      simp [hzero]

theorem marksIncomplete_texts :
    marksIncomplete "Missing acquisition price" = true ∧
      marksIncomplete "Incomplete history" = true ∧ marksIncomplete "Missing sale price" = true ∧
      marksIncomplete "Missing current price" = true := by
  decide +kernel

/-- **A disposal** serves the queue, and marks what it reaches of unknown
cost, what no lot gave, and a missing price. -/
theorem dispose_spec (hs : s.Marked) (h : s.dispose f = .ok s') :
    s'.queue = serve f.amount s.queue ∧ s'.Marked ∧
      (s'.warnings = [] ↔ s.warnings = [] ∧ ¬Reaches CostLot.Unknown f.amount s.queue ∧
        f.amount ≤ held s.queue ∧ f.priceRaw ≠ none) := by
  obtain ⟨c, hc, rfl⟩ := dispose_ok h
  obtain ⟨hlots, hremaining, n, hn, hwarnings, hrealized⟩ := Consuming.consumeLots_ok hc
  dsimp only at hlots hremaining hn hwarnings hrealized
  have hreaches : Reaches CostLot.Unknown f.amount s.queue ↔
      Reaches CostLot.Unknown f.amount s.lots :=
    reaches_map CostLot.left_unnamed (fun _ => Iff.rfl)
  have hnil : (s.book f c).warnings = [] ↔
      s.warnings = [] ∧ n = 0 ∧ c.remaining = 0 ∧ f.priceRaw ≠ none := by
    rw [warnings_book, hwarnings]
    simp only [List.append_eq_nil_iff, List.replicate_eq_nil_iff, ite_eq_right_iff,
      List.cons_ne_nil, imp_false, not_lt, Nat.le_zero, and_assoc, ne_eq]
  refine ⟨?_, ⟨?_, ?_⟩, ?_⟩
  · rw [queue, lots_book, hlots, ← serve_unnamed, queue]
  · rw [realized_book_eq_none_iff, ne_eq, hnil, hrealized]
    have hsame := hs.realized_none_iff
    by_cases hzero : n = 0
    · rw [if_pos hzero, hsame]
      simp only [ne_eq, hzero, true_and, not_and_or, not_not, Nat.pos_iff_ne_zero]
    · simp [hzero]
  · rw [warnings_book, hwarnings]
    intro w hw
    obtain ⟨hacquisition, hincomplete, hsale, -⟩ := marksIncomplete_texts
    simp only [List.mem_append, List.mem_replicate, List.mem_ite_nil_right,
      List.mem_singleton] at hw
    rcases hw with ((hw | ⟨-, rfl⟩) | ⟨-, rfl⟩) | ⟨-, rfl⟩
    · exact hs.marks w hw
    · exact hacquisition
    · exact hincomplete
    · exact hsale
  · rw [hnil, hn, hreaches, hremaining, queue, held_unnamed, Nat.sub_eq_zero_iff_le]

/-- **One flow is a move**: the lots it adds, then what it takes. -/
theorem apply_spec (hs : s.Marked) (h : s.apply gasFeesIncluded f = .ok s') :
    s'.queue = serve f.move.disposed (s.queue ++ f.move.acquired) ∧ s'.Marked ∧
      (s'.warnings = [] ↔ s.warnings = [] ∧ f.Unmarked s.queue) := by
  cases hacquires : f.acquires with
  | true =>
    obtain rfl := Except.ok.inj ((apply_of_acquires hacquires).symm.trans h)
    have hfee : (s.addFee gasFeesIncluded f).Marked := hs.addFee
    rw [CostFlow.Unmarked, CostFlow.move_of_acquires hacquires,
      CostFlow.disposes_of_acquires hacquires]
    refine ⟨by simp [queue, acquire], ⟨hfee.realized_none_iff, hfee.marks⟩, by simp [acquire]⟩
  | false =>
    cases hdisposes : f.disposes with
    | true =>
      rw [apply_of_disposes hdisposes] at h
      obtain ⟨hqueue, hmarked, hnil⟩ := dispose_spec hs.addFee h
      rw [CostFlow.Unmarked, CostFlow.move_of_disposes hdisposes]
      rw [queue_addFee] at hqueue hnil
      rw [warnings_addFee] at hnil
      refine ⟨by simpa using hqueue, hmarked, ?_⟩
      rw [hnil, List.append_nil, held_nil, Nat.add_zero]
      simp [hdisposes]
    | false =>
      obtain rfl := Except.ok.inj ((apply_of_ignored hacquires hdisposes).symm.trans h)
      rw [CostFlow.Unmarked, CostFlow.move_of_ignored hacquires hdisposes, hdisposes]
      exact ⟨by simp, hs.addFee, by simp⟩

/-- A flow fails where it reaches an undivided lot. -/
theorem apply_error_iff :
    (∃ e, s.apply gasFeesIncluded f = .error e) ↔
      Reaches CostLot.Undivided f.move.disposed (s.queue ++ f.move.acquired) := by
  cases hacquires : f.acquires with
  | true =>
    rw [apply_of_acquires hacquires, CostFlow.move_of_acquires hacquires]
    simp
  | false =>
    cases hdisposes : f.disposes with
    | true =>
      rw [apply_of_disposes hdisposes, dispose_error_iff, CostFlow.move_of_disposes hdisposes,
        lots_addFee, List.append_nil]
      exact (reaches_map CostLot.left_unnamed (fun _ => Iff.rfl)).symm
    | false =>
      rw [apply_of_ignored hacquires hdisposes, CostFlow.move_of_ignored hacquires hdisposes]
      simp

/-! ## The run over the flows -/

/-- **The run fails** exactly where it touches an undivided lot. -/
theorem run_error_iff {flows : List CostFlow} (hs : s.Marked) :
    (∃ e, s.run gasFeesIncluded flows = .error e) ↔
      Touches CostLot.Undivided s.queue (moves flows) := by
  induction flows generalizing s with
  | nil => simp [run, moves, Touches]
  | cons f flows ih =>
    have hnow : (∃ e, s.apply gasFeesIncluded f = .error e) ↔
        Reaches CostLot.Undivided f.move.disposed (s.queue ++ f.move.acquired) := apply_error_iff
    rw [moves_cons, Touches, ← hnow, run]
    split
    · rename_i e he
      rw [he]
      exact iff_of_true ⟨e, rfl⟩ (.inl ⟨e, rfl⟩)
    · rename_i s₁ hs₁
      obtain ⟨hqueue, hmarked, -⟩ := apply_spec hs hs₁
      rw [ih hmarked, hqueue, hs₁]
      simp

/-- **The run is a run of moves**, and leaves no mark exactly where it
touches no lot of unknown cost, takes only what is held, and every
disposal has a price. -/
theorem run_spec {flows : List CostFlow} (hs : s.Marked)
    (h : s.run gasFeesIncluded flows = .ok s') :
    s'.queue = queueAfter s.queue (moves flows) ∧ s'.Marked ∧
      (s'.warnings = [] ↔ s.warnings = [] ∧ ¬Touches CostLot.Unknown s.queue (moves flows) ∧
        Covered (held s.queue) (moves flows) ∧
        ∀ f ∈ flows, f.disposes = true → f.priceRaw ≠ none) := by
  induction flows generalizing s with
  | nil =>
    obtain rfl := Except.ok.inj h
    exact ⟨rfl, hs, by simp [moves, Touches, Covered]⟩
  | cons f flows ih =>
    rw [run] at h
    split at h
    · exact absurd h (by simp)
    · rename_i s₁ hs₁
      obtain ⟨hqueue, hmarked, hnil⟩ := apply_spec hs hs₁
      obtain ⟨hqueue', hmarked', hnil'⟩ := ih hmarked h
      rw [hqueue] at hqueue' hnil'
      refine ⟨hqueue', hmarked', hnil'.trans ?_⟩
      rw [hnil, CostFlow.Unmarked, held_serve, held_append, moves_cons, Touches, Covered,
        List.forall_mem_cons]
      tauto

end CostState

/-! ## The closed forms, at the flows -/

/-- **What later disposals take beyond what was held before.** -/
def takenFrom (before after : List CostFlow) : ℕ :=
  disposedIn (moves after) - heldAfter 0 (moves before)

/-- A property of some acquisition, by what was held before it and what
comes after it. -/
theorem exists_move_iff {flows : List CostFlow} {P : ℕ → List CostLot → Prop}
    (hnil : ∀ d, ¬P d []) :
    (∃ before m after, moves flows = before ++ m :: after ∧
        P (disposedIn (m :: after) - heldAfter 0 before) m.acquired) ↔
      ∃ before f after, flows = before ++ f :: after ∧ f.acquires = true ∧
        P (takenFrom before after) [f.lot ""] := by
  constructor
  · rintro ⟨before, m, after, hsplit, h⟩
    obtain ⟨before, rest, rfl, rfl, hrest⟩ := List.map_eq_append_iff.mp hsplit
    obtain ⟨f, after, rfl, rfl, rfl⟩ := List.map_eq_cons_iff.mp hrest
    cases hacquires : f.acquires with
    | true =>
      rw [CostFlow.move_of_acquires hacquires, disposedIn_cons, Nat.zero_add] at h
      exact ⟨before, f, after, rfl, hacquires, h⟩
    | false =>
      have hnone : f.move.acquired = [] := by
        rw [CostFlow.move, if_neg (by rw [hacquires]; exact Bool.false_ne_true)]
      rw [hnone] at h
      exact absurd h (hnil _)
  · rintro ⟨before, f, after, rfl, hacquires, h⟩
    refine ⟨moves before, f.move, moves after, List.map_append, ?_⟩
    rw [CostFlow.move_of_acquires hacquires, disposedIn_cons, Nat.zero_add]
    exact h

/-- **What the flows touch**: the acquisitions from which later disposals
take something. -/
theorem touches_moves_iff {flows : List CostFlow} {P : CostLot → Prop}
    (hP : ∀ d a, P (Spendable.use d a) ↔ P a) :
    Touches P [] (moves flows) ↔ ∃ before f after, flows = before ++ f :: after ∧
      f.acquires = true ∧ 0 < takenFrom before after ∧ P (f.lot "") := by
  rw [touches_iff hP, held_nil, or_iff_right not_reaches_nil]
  refine (exists_move_iff (P := Reaches P) fun _ => not_reaches_nil).trans ?_
  simp only [reaches_cons, not_reaches_nil, or_false]

namespace CostState

variable {gasFeesIncluded : Bool} {s : CostState} {flows : List CostFlow}

/-- **What the flows leave**: of each acquisition what later disposals did
not take, unless they reached it and took all. -/
theorem exists_lot_iff (h : empty.run gasFeesIncluded flows = .ok s) {P : CostLot → Prop}
    (hP : ∀ l, P l.unnamed ↔ P l) :
    (∃ l ∈ s.lots, P l) ↔ ∃ before f after, flows = before ++ f :: after ∧ f.acquires = true ∧
      (takenFrom before after = 0 ∨ takenFrom before after < f.amount) ∧
        P { f.lot "" with remainingAmount := f.amount - takenFrom before after } := by
  obtain ⟨hqueue, -, -⟩ := run_spec marked_empty h
  have hlots : (∃ l ∈ s.lots, P l) ↔ ∃ b ∈ s.queue, P b := by
    simp [queue, hP]
  have hleft : ∀ d (f : CostFlow), (∃ b ∈ serve d [f.lot ""], P b) ↔
      (d = 0 ∨ d < f.amount) ∧ P { f.lot "" with remainingAmount := f.amount - d } := by
    intro d f
    simp only [mem_serve_singleton, CostLot.left_eq, CostLot.use_eq]
    constructor
    · rintro ⟨b, ⟨rfl, hd⟩, hb⟩
      exact ⟨hd, hb⟩
    · rintro ⟨hd, hb⟩
      exact ⟨_, ⟨rfl, hd⟩, hb⟩
  have hrun : s.queue = leftovers 0 (moves flows) := by
    rw [hqueue, queueAfter_eq]
    rfl
  rw [hlots, hrun]
  simp only [← hleft]
  refine Iff.trans ?_ (exists_move_iff (P := fun d q => ∃ b ∈ serve d q, P b) (by simp))
  simp only [mem_leftovers]
  constructor
  · rintro ⟨b, ⟨before, m, after, hsplit, hb⟩, hPb⟩
    exact ⟨before, m, after, hsplit, b, hb, hPb⟩
  · rintro ⟨before, m, after, hsplit, b, hb, hPb⟩
    exact ⟨b, ⟨before, m, after, hsplit, hb⟩, hPb⟩

/-- What is held at the end, by amounts alone. -/
theorem remainingTotal_run (h : empty.run gasFeesIncluded flows = .ok s) :
    s.remainingTotal = heldAfter 0 (moves flows) := by
  obtain ⟨hqueue, -, -⟩ := run_spec marked_empty h
  calc s.remainingTotal = held s.lots := rfl
    _ = held s.queue := (held_unnamed s.lots).symm
    _ = heldAfter 0 (moves flows) := by rw [hqueue, held_queueAfter]; rfl

/-! ## What is returned -/

theorem total_error_iff {value : CostLot → Except String ℤ} {lots : List CostLot} :
    (∃ e, CostLot.total value lots = .error e) ↔ ∃ l ∈ lots, ∃ e, value l = .error e := by
  induction lots with
  | nil => simp [CostLot.total]
  | cons l lots ih =>
    rw [List.exists_mem_cons_iff, ← ih, CostLot.total]
    split
    · rename_i e he
      exact iff_of_true ⟨e, rfl⟩ (.inl ⟨e, he⟩)
    · rename_i v hv
      rw [hv]
      split
      · rename_i e he
        exact iff_of_true ⟨e, rfl⟩ (.inr ⟨e, he⟩)
      · rename_i rest hrest
        simp [hrest]

theorem basis_error_iff {l : CostLot} : (∃ e, l.basis = .error e) ↔ l.Undivided := by
  cases hcost : l.costRaw with
  | none => simp [CostLot.basis, hcost, CostLot.Undivided]
  | some costRaw =>
    by_cases hamount : l.amount = 0 <;>
      simp [CostLot.basis, hcost, hamount, divide, CostLot.Undivided]

theorem unrealized_error_iff {price : ℤ} {l : CostLot} :
    (∃ e, l.unrealized price = .error e) ↔ l.amount = 0 := by
  by_cases hamount : l.amount = 0 <;> simp [CostLot.unrealized, hamount, divide]

/-- **What is returned is the state**, valued, with a mark where there is
no current price. -/
theorem finish_ok {price : Option ℤ} {r : CostBasisResult} (h : s.finish flows price = .ok r) :
    r.lots = s.lots ∧ r.realizedPnlRaw = s.realized ∧ r.proceedsRaw = s.proceeds ∧
      (∃ basis, CostLot.total CostLot.basis s.lots = .ok basis ∧ r.costBasisRaw = some basis) ∧
      r.incompleteHistory = (if price = none ∧ s.lots ≠ [] then
        s.warnings ++ ["Missing current price"] else s.warnings).any marksIncomplete := by
  unfold finish at h
  split at h
  · exact absurd h (by simp)
  split at h
  · exact absurd h (by simp)
  split at h
  · exact absurd h (by simp)
  rename_i basis hbasis _ _ _ _ _ _
  obtain rfl := Except.ok.inj h
  exact ⟨rfl, rfl, rfl, ⟨basis, hbasis, rfl⟩, rfl⟩

/-- **Valuing fails** on an undivided lot, on one of amount zero where
there is a current price, and where nothing is left of the lots. -/
theorem finish_error_iff {price : Option ℤ} :
    (∃ e, s.finish flows price = .error e) ↔ (∃ l ∈ s.lots, l.Undivided) ∨
      (price ≠ none ∧ ∃ l ∈ s.lots, l.amount = 0) ∨ (s.lots ≠ [] ∧ s.remainingTotal = 0) := by
  have hbasis : (∃ e, CostLot.total CostLot.basis s.lots = .error e) ↔
      ∃ l ∈ s.lots, l.Undivided := by
    simp only [total_error_iff, basis_error_iff]
  have hunrealized : (∃ e, s.unrealizedPnl price = .error e) ↔
      price ≠ none ∧ ∃ l ∈ s.lots, l.amount = 0 := by
    cases price with
    | none => simp [unrealizedPnl]
    | some price =>
      have hlot : ∀ l : CostLot, l.amount = 0 ↔ ∃ e, l.unrealized price = .error e :=
        fun _ => unrealized_error_iff.symm
      simp only [hlot, ← total_error_iff, unrealizedPnl]
      split <;> simp_all
  have haverage : ∀ basis, (∃ e, s.averageEntry basis = .error e) ↔
      s.lots ≠ [] ∧ s.remainingTotal = 0 := by
    intro basis
    unfold averageEntry
    by_cases hlots : s.lots = []
    · simp [hlots]
    · by_cases hzero : s.remainingTotal = 0 <;> simp [hlots, hzero, divide]
  rw [← hbasis, ← hunrealized]
  unfold finish
  split
  · rename_i e he
    exact iff_of_true ⟨e, rfl⟩ (.inl ⟨e, he⟩)
  rename_i basis hb
  rw [← haverage basis, hb]
  split
  · rename_i e he
    exact iff_of_true ⟨e, rfl⟩ (.inr (.inl ⟨e, he⟩))
  rename_i unrealized hu
  rw [hu]
  split
  · rename_i e he
    exact iff_of_true ⟨e, rfl⟩ (.inr (.inr ⟨e, he⟩))
  rename_i average ha
  rw [ha]
  simp

end CostState

end HoodSentry.Portfolio
