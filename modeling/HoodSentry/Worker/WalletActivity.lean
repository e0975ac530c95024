import HoodSentry.Worker.Model.WalletActivity
import HoodSentry.Common.Lists
/-!
# Wallet rows and the order of jobs

A projection replaces all rows of its wallet and token, whatever their
quote asset, so the job that projects last decides them. They are free of
the order of the jobs exactly when any two projections of the jobs agree.
-/

namespace HoodSentry

/-! ## Lots -/

/-- The amount still open after the events: what came in, less what went
out as far as there was any. -/
def openAmount (events : List WalletEvent) (start : ℕ) : ℕ :=
  events.foldl (fun amount e => match e with
    | .buy row => amount + row.amountOutRaw
    | .transferIn row => amount + row.amountRaw
    | .sell row => amount - row.amountInRaw
    | .transferOut row => amount - row.amountRaw) start

/-- What is left in lots. -/
def openIn (lots : List Lot) : ℕ := (lots.map (·.remainingAmountRaw)).sum

section Lots

variable {lots : List Lot} {s : WalletLedger} {events : List WalletEvent}

@[simp] theorem openIn_append {lots' : List Lot} :
    openIn (lots ++ lots') = openIn lots + openIn lots' := by
  simp [openIn]

@[simp] theorem openIn_cons {lot : Lot} :
    openIn (lot :: lots) = lot.remainingAmountRaw + openIn lots := by
  simp [openIn]

/-- **Consuming takes off what there is.** -/
theorem openIn_consumeLoop (amount : ℕ) :
    openIn (consumeLoop amount lots).lots = openIn lots - amount := by
  induction lots generalizing amount with
  | nil => simp [consumeLoop, openIn]
  | cons lot lots ih =>
    unfold consumeLoop
    split
    · rename_i hnone
      rw [hnone, Nat.sub_zero]
    · split
      · rename_i hempty
        rw [openIn_cons, openIn_cons, ih]
        omega
      · rw [openIn_cons, openIn_cons, ih]
        dsimp only
        split <;> omega

@[simp] theorem lots_consume {consumed : Consumed} : (s.consume consumed).lots = consumed.lots := by
  unfold WalletLedger.consume
  split <;> rfl

@[simp] theorem cashFlows_consume {consumed : Consumed} :
    (s.consume consumed).cashFlows = s.cashFlows := by
  unfold WalletLedger.consume
  split <;> rfl

/-- The lots of a ledger hold the open amount of its events. -/
theorem openIn_foldl_apply :
    openIn (events.foldl WalletLedger.apply s).lots = openAmount events (openIn s.lots) := by
  induction events generalizing s with
  | nil => rfl
  | cons e events ih =>
    rw [List.foldl_cons, ih, openAmount, openAmount, List.foldl_cons]
    congr 1
    cases e with
    | buy row | transferIn row => simp [WalletLedger.apply, openIn]
    | sell row | transferOut row =>
      simp only [WalletLedger.apply, lots_consume]
      exact openIn_consumeLoop _

theorem remainingLots_eq_nil_iff : s.remainingLots = [] ↔ openIn s.lots = 0 := by
  simp [WalletLedger.remainingLots, openIn, List.sum_eq_zero_iff_forall_eq_nat]

end Lots

/-- The events a cash flow is booked for. -/
def WalletEvent.IsTrade : WalletEvent → Prop
  | .buy _ | .sell _ => True
  | .transferIn _ | .transferOut _ => False

/-- Cash flows are the trades'. -/
theorem cashFlows_foldl_apply_eq_nil_iff {events : List WalletEvent} {s : WalletLedger} :
    (events.foldl WalletLedger.apply s).cashFlows = [] ↔
      s.cashFlows = [] ∧ ∀ e ∈ events, ¬e.IsTrade := by
  induction events generalizing s with
  | nil => simp
  | cons e events ih =>
    rw [List.foldl_cons, ih, List.forall_mem_cons, ← and_assoc]
    refine and_congr_left fun _ => ?_
    cases e <;> simp [WalletLedger.apply, WalletEvent.IsTrade]

/-! ## Projections -/

/-- What a projection is about: the chain, the wallet and the token. -/
abbrev Holding : Type := ℕ × Address × Address

def ProjectionTarget.holding (t : ProjectionTarget) (chainId : ℕ) : Holding :=
  (chainId, t.walletAddress, t.tokenAddress)

def LotRow.holding (r : LotRow) : Holding := (r.chainId, r.walletAddress, r.tokenAddress)

def CashFlowRow.holding (r : CashFlowRow) : Holding := (r.chainId, r.walletAddress, r.tokenAddress)

def Projection.holding (p : Projection) : Holding := p.target.holding p.chainId

/-- The lots and cash flows stored for a holding. -/
def WalletTables.rowsOf (s : WalletTables) (h : Holding) : List LotRow × List CashFlowRow :=
  (s.lots.filter fun r => r.holding = h, s.cashFlows.rows.filter fun r => r.holding = h)

/-- The rows a projection stores. -/
def Projection.rows (p : Projection) : List LotRow × List CashFlowRow := (p.lots, p.cashFlows)

/-- The same rows, in any order. -/
def SameRows (a b : List LotRow × List CashFlowRow) : Prop := a.1.Perm b.1 ∧ a.2.Perm b.2

namespace WalletFacts

variable (f : WalletFacts)

/-- The wallet neither traded against the quote asset nor holds anything
open. -/
def Idle (chainId : ℕ) (target : ProjectionTarget) : Prop :=
  f.walletTrades chainId target = [] ∧ openAmount (f.walletEvents chainId target) 0 = 0

/-- **Two projections of a holding agree**: against one quote asset they
reach the same block, or nothing is open; against two, nothing was ever
traded and nothing is open. -/
def Agree (p q : Projection) : Prop :=
  if p.target.quoteAddress = q.target.quoteAddress then
    openAmount (f.walletEvents p.chainId p.target) 0 = 0 ∨
      f.projectionBlock p.chainId p.target p.requestedBlock =
        f.projectionBlock q.chainId q.target q.requestedBlock
  else f.Idle p.chainId p.target ∧ f.Idle q.chainId q.target

end WalletFacts

section Projection

variable {f : WalletFacts} {chainId requestedBlock : ℕ} {target : ProjectionTarget}
variable {p q : Projection}

/-- **What a projection that does not throw holds.** -/
theorem projectTarget_eq_ok (h : f.projectTarget chainId target requestedBlock = .ok p) :
    p.chainId = chainId ∧ p.requestedBlock = requestedBlock ∧ p.target = target ∧
    (p.cashFlows = (f.walletLedger chainId target).cashFlows.map (·.row chainId target)) ∧
    (p.cashFlows.map CashFlowRow.key).Nodup ∧
    ∃ block tokenDecimals quoteDecimals,
      (f.blocks.rows.find? fun b => b.chainId = chainId &&
        b.number = f.projectionBlock chainId target requestedBlock && b.canonical) = some block ∧
      f.decimals chainId target.tokenAddress = some tokenDecimals ∧
      f.decimals chainId target.quoteAddress = some quoteDecimals ∧
      p.lots = (f.walletLedger chainId target).remainingLots.map (·.row chainId target
        tokenDecimals quoteDecimals (f.projectionBlock chainId target requestedBlock)
        block.hash) := by
  simp only [WalletFacts.projectTarget] at h
  cases hblock : f.blocks.rows.find? fun b => b.chainId = chainId &&
    b.number = f.projectionBlock chainId target requestedBlock && b.canonical with
  | none => simp [hblock] at h
  | some block =>
    rw [hblock] at h
    dsimp only at h
    split at h
    · rename_i tokenDecimals quoteDecimals htoken hquote
      split at h
      · exact absurd h (by simp)
      · rename_i hnodup
        obtain rfl := Except.ok.inj h
        exact ⟨rfl, rfl, rfl, rfl, not_not.mp hnodup, block, tokenDecimals, quoteDecimals, rfl,
          htoken, hquote, rfl⟩
    · exact absurd h (by simp)

/-- A projection the facts give. -/
def WalletFacts.Projects (f : WalletFacts) (p : Projection) : Prop :=
  f.projectTarget p.chainId p.target p.requestedBlock = .ok p

theorem lots_eq_nil_iff (h : f.Projects p) :
    p.lots = [] ↔ openAmount (f.walletEvents p.chainId p.target) 0 = 0 := by
  obtain ⟨-, -, -, -, -, _, _, _, -, -, -, hlots⟩ := projectTarget_eq_ok h
  rw [hlots, List.map_eq_nil_iff, remainingLots_eq_nil_iff, WalletFacts.walletLedger,
    openIn_foldl_apply]
  rfl

/-- The trades are among the events. -/
theorem exists_isTrade_iff :
    (∃ e ∈ f.walletEvents chainId target, e.IsTrade) ↔ f.walletTrades chainId target ≠ [] := by
  unfold WalletFacts.walletEvents
  simp only [List.mem_insertionSort, List.mem_append, List.mem_map]
  constructor
  · rintro ⟨e, ⟨trade, htrade, rfl⟩ | ⟨t, -, rfl⟩, he⟩
    · exact List.ne_nil_of_mem htrade
    · unfold WalletEvent.ofTransfer at he
      split at he <;> exact he.elim
  · intro hne
    obtain ⟨trade, htrade⟩ := List.exists_mem_of_ne_nil _ hne
    refine ⟨_, Or.inl ⟨trade, htrade, rfl⟩, ?_⟩
    unfold WalletEvent.ofTrade
    split <;> exact trivial

theorem cashFlows_eq_nil_iff (h : f.Projects p) :
    p.cashFlows = [] ↔ f.walletTrades p.chainId p.target = [] := by
  obtain ⟨-, -, -, hflows, -⟩ := projectTarget_eq_ok h
  rw [hflows, List.map_eq_nil_iff, WalletFacts.walletLedger, cashFlows_foldl_apply_eq_nil_iff,
    ← not_iff_not, ← ne_eq (f.walletTrades _ _), ← exists_isTrade_iff]
  simp [WalletLedger.empty]

theorem mem_lots (h : f.Projects p) {r : LotRow} (hr : r ∈ p.lots) :
    r.sourceBlock = f.projectionBlock p.chainId p.target p.requestedBlock ∧
      r.quoteAssetAddress = p.target.quoteAddress ∧ r.holding = p.holding := by
  obtain ⟨-, -, -, -, -, _, _, _, -, -, -, hlots⟩ := projectTarget_eq_ok h
  rw [hlots] at hr
  obtain ⟨lot, -, rfl⟩ := List.mem_map.mp hr
  exact ⟨rfl, rfl, rfl⟩

theorem mem_cashFlows (h : f.Projects p) {r : CashFlowRow} (hr : r ∈ p.cashFlows) :
    r.quoteAssetAddress = p.target.quoteAddress ∧ r.holding = p.holding := by
  obtain ⟨-, -, -, hflows, -⟩ := projectTarget_eq_ok h
  rw [hflows] at hr
  obtain ⟨flow, -, rfl⟩ := List.mem_map.mp hr
  exact ⟨rfl, rfl⟩

/-- Agreement is enough. -/
theorem rows_eq_of_agree (hp : f.Projects p) (hq : f.Projects q) (hh : p.holding = q.holding)
    (h : f.Agree p q) : p.rows = q.rows := by
  unfold WalletFacts.Agree at h
  split at h
  · rename_i hquote
    simp only [Projection.holding, ProjectionTarget.holding, Prod.mk.injEq] at hh
    obtain ⟨hchain, hwallet, htoken⟩ := hh
    have htarget : p.target = q.target := ProjectionTarget.ext hwallet htoken hquote
    obtain ⟨-, -, -, hpflows, -, block, td, qd, hblock, htd, hqd, hplots⟩ := projectTarget_eq_ok hp
    obtain ⟨-, -, -, hqflows, -, block', td', qd', hblock', htd', hqd', hqlots⟩ :=
      projectTarget_eq_ok hq
    have hflows : p.cashFlows = q.cashFlows := by
      rw [hpflows, hqflows, hchain, htarget]
    have hlots : p.lots = q.lots := by
      rcases h with hclosed | hsame
      · have hqclosed := hclosed
        rw [hchain, htarget] at hqclosed
        rw [(lots_eq_nil_iff hp).mpr hclosed, (lots_eq_nil_iff hq).mpr hqclosed]
      · rw [hchain, htarget] at hblock htd hqd hplots hsame
        rw [hsame, hblock', Option.some.injEq] at hblock
        rw [htd', Option.some.injEq] at htd
        rw [hqd', Option.some.injEq] at hqd
        rw [hplots, hqlots, hblock, htd, hqd, hsame]
    rw [Projection.rows, Projection.rows, hlots, hflows]
  · obtain ⟨⟨hptrades, hpopen⟩, hqtrades, hqopen⟩ := h
    rw [Projection.rows, Projection.rows, (lots_eq_nil_iff hp).mpr hpopen,
      (lots_eq_nil_iff hq).mpr hqopen, (cashFlows_eq_nil_iff hp).mpr hptrades,
      (cashFlows_eq_nil_iff hq).mpr hqtrades]

/-- **Two projections store the same rows exactly when they agree.** -/
theorem sameRows_iff_agree (hp : f.Projects p) (hq : f.Projects q) (hh : p.holding = q.holding) :
    SameRows p.rows q.rows ↔ f.Agree p q := by
  constructor
  · rintro ⟨hlots, hflows⟩
    unfold WalletFacts.Agree
    split
    · by_cases hopen : openAmount (f.walletEvents p.chainId p.target) 0 = 0
      · exact Or.inl hopen
      · obtain ⟨r, hr⟩ := List.exists_mem_of_ne_nil _ (mt (lots_eq_nil_iff hp).mp hopen)
        exact Or.inr ((mem_lots hp hr).1.symm.trans (mem_lots hq (hlots.mem_iff.mp hr)).1)
    · rename_i hquote
      -- a row names its quote asset, so neither projection has any
      have hplots : p.lots = [] := List.eq_nil_iff_forall_not_mem.mpr fun r hr =>
        hquote ((mem_lots hp hr).2.1.symm.trans (mem_lots hq (hlots.mem_iff.mp hr)).2.1)
      have hpflows : p.cashFlows = [] := List.eq_nil_iff_forall_not_mem.mpr fun r hr =>
        hquote ((mem_cashFlows hp hr).1.symm.trans (mem_cashFlows hq (hflows.mem_iff.mp hr)).1)
      have hqlots : q.lots = [] := by
        have hempty : p.rows.1 = [] := hplots
        rw [hempty] at hlots
        exact hlots.nil_eq.symm
      have hqflows : q.cashFlows = [] := by
        have hempty : p.rows.2 = [] := hpflows
        rw [hempty] at hflows
        exact hflows.nil_eq.symm
      exact ⟨⟨(cashFlows_eq_nil_iff hp).mp hpflows, (lots_eq_nil_iff hp).mp hplots⟩,
        (cashFlows_eq_nil_iff hq).mp hqflows, (lots_eq_nil_iff hq).mp hqlots⟩
  · intro h
    rw [rows_eq_of_agree hp hq hh h]
    exact ⟨List.Perm.refl _, List.Perm.refl _⟩

end Projection

/-! ## Writes -/

section Writes

variable {f : WalletFacts} {s : WalletTables} {h : Holding} {p : Projection}

/-- **A projection replaces the rows of its holding** and no others. -/
theorem rowsOf_write (hp : f.Projects p) :
    (s.write p).rowsOf h = if p.holding = h then p.rows else s.rowsOf h := by
  have hflows : (s.write p).cashFlows.rows =
      (s.cashFlows.rows.filter fun r => !decide (r.holding = p.holding)) ++ p.cashFlows := by
    have hdelete : (s.cashFlows.deleteWhere fun r => r.chainId = p.chainId &&
        r.walletAddress = p.target.walletAddress && r.tokenAddress = p.target.tokenAddress).rows =
        s.cashFlows.rows.filter fun r => !decide (r.holding = p.holding) := by
      simp only [Table.deleteWhere]
      refine List.filter_congr fun r _ => ?_
      simp [CashFlowRow.holding, Projection.holding, ProjectionTarget.holding, Bool.or_assoc]
    rw [← hdelete]
    refine Table.rows_insertAll (projectTarget_eq_ok hp).2.2.2.2.1 fun r hr hk => ?_
    obtain ⟨x, hx, hxr⟩ := Table.mem_keys.mp hk
    have hholding := (mem_cashFlows hp hr).2
    simp only [CashFlowRow.key, Prod.mk.injEq] at hxr
    simp only [CashFlowRow.holding, Projection.holding, ProjectionTarget.holding,
      Prod.mk.injEq] at hholding
    have hkept := (Table.mem_deleteWhere.mp hx).2
    simp [hxr, hholding] at hkept
  have hlots : (s.write p).lots =
      (s.lots.filter fun r => !decide (r.holding = p.holding)) ++ p.lots := by
    simp only [WalletTables.write]
    congr 1
    refine List.filter_congr fun r _ => ?_
    simp [LotRow.holding, Projection.holding, ProjectionTarget.holding, Bool.or_assoc]
  unfold WalletTables.rowsOf
  rw [hlots, hflows, filter_replaced fun r hr => (mem_lots hp hr).2.2,
    filter_replaced fun r hr => (mem_cashFlows hp hr).2]
  split <;> rfl

/-- The projections of a holding, in order. -/
def forHolding (h : Holding) (ps : List Projection) : List Projection :=
  ps.filter fun p => p.holding = h

/-- **The last projection of a holding decides its rows.** -/
theorem rowsOf_foldl_write {ps : List Projection} (hps : ∀ p ∈ ps, f.Projects p) :
    (ps.foldl WalletTables.write s).rowsOf h =
      ((forHolding h ps).getLast?.map Projection.rows).getD (s.rowsOf h) := by
  induction ps using List.reverseRecOn with
  | nil => rfl
  | append_singleton ps p ih =>
    have hp := hps p (List.mem_append_right _ List.mem_cons_self)
    rw [List.foldl_append, List.foldl_cons, List.foldl_nil, rowsOf_write hp,
      ih fun q hq => hps q (List.mem_append_left _ hq)]
    by_cases hh : p.holding = h
    · simp [forHolding, hh]
    · simp [forHolding, hh]

end Writes

/-! ## Jobs -/

section Jobs

variable {f : WalletFacts} {chainId requestedBlock : ℕ} {targets : List ProjectionTarget}
variable {p q : Projection} {job : WalletActivityJob} {jobs : List WalletActivityJob}

theorem mem_projectTargets (hp : p ∈ (f.projectTargets chainId requestedBlock targets).1) :
    p.chainId = chainId ∧ p.requestedBlock = requestedBlock ∧ p.target ∈ targets ∧
      f.Projects p := by
  induction targets with
  | nil => exact absurd hp List.not_mem_nil
  | cons target targets ih =>
    unfold WalletFacts.projectTargets at hp
    split at hp
    · exact absurd hp List.not_mem_nil
    · rename_i p' hp'
      rcases List.mem_cons.mp hp with rfl | hp
      · obtain ⟨hchain, hblock, htarget, -⟩ := projectTarget_eq_ok hp'
        refine ⟨hchain, hblock, htarget ▸ List.mem_cons_self, ?_⟩
        rw [WalletFacts.Projects, hchain, hblock, htarget]
        exact hp'
      · obtain ⟨hchain, hblock, hmem, hproj⟩ := ih hp
        exact ⟨hchain, hblock, List.mem_cons_of_mem _ hmem, hproj⟩

/-- The targets of one event share their token and quote asset. -/
theorem targetsForEvent_eq_ok (h : f.targetsForEvent job = .ok targets) :
    ∀ t ∈ targets, ∀ t' ∈ targets, t.tokenAddress = t'.tokenAddress ∧
      t.quoteAddress = t'.quoteAddress := by
  intro t ht t' ht'
  unfold WalletFacts.targetsForEvent at h
  split at h
  · split at h
    · exact absurd h (by simp)
    · split at h
      · obtain rfl := Except.ok.inj h
        exact absurd ht List.not_mem_nil
      · split at h
        · obtain rfl := Except.ok.inj h
          exact absurd ht List.not_mem_nil
        · obtain rfl := Except.ok.inj h
          rw [List.mem_singleton.mp ht, List.mem_singleton.mp ht']
          exact ⟨rfl, rfl⟩
  · split at h
    · exact absurd h (by simp)
    · split at h
      · obtain rfl := Except.ok.inj h
        exact absurd ht List.not_mem_nil
      · obtain rfl := Except.ok.inj h
        obtain ⟨wallet, -, rfl⟩ := List.mem_map.mp ht
        obtain ⟨wallet', -, rfl⟩ := List.mem_map.mp ht'
        exact ⟨rfl, rfl⟩

theorem projects_of_mem_jobProjections (hp : p ∈ (f.jobProjections job).1) : f.Projects p := by
  unfold WalletFacts.jobProjections at hp
  split at hp
  · exact absurd hp List.not_mem_nil
  · exact (mem_projectTargets hp).2.2.2

/-- A job projects a holding in one way. -/
theorem eq_of_mem_jobProjections (hp : p ∈ (f.jobProjections job).1)
    (hq : q ∈ (f.jobProjections job).1) (hh : p.holding = q.holding) : p = q := by
  have hpp := projects_of_mem_jobProjections hp
  have hqp := projects_of_mem_jobProjections hq
  unfold WalletFacts.jobProjections at hp hq
  split at hp
  · exact absurd hp List.not_mem_nil
  · rename_i targets htargets
    simp only [htargets] at hq
    obtain ⟨hpchain, hpblock, hptarget, -⟩ := mem_projectTargets hp
    obtain ⟨hqchain, hqblock, hqtarget, -⟩ := mem_projectTargets hq
    obtain ⟨htoken, hquote⟩ := targetsForEvent_eq_ok htargets _ hptarget _ hqtarget
    have hwallet : p.target.walletAddress = q.target.walletAddress := congrArg (·.2.1) hh
    have htarget : p.target = q.target := ProjectionTarget.ext hwallet htoken hquote
    unfold WalletFacts.Projects at hpp hqp
    rw [hpchain, hpblock, htarget] at hpp
    rw [hqchain, hqblock, hpp] at hqp
    exact Except.ok.inj hqp

/-- Jobs, one after the other. -/
def WalletFacts.processAll (f : WalletFacts) (s : WalletTables) (jobs : List WalletActivityJob) :
    WalletTables :=
  jobs.foldl f.processWalletActivity s

/-- The projections of a list of jobs, in order. -/
def WalletFacts.projections (f : WalletFacts) (jobs : List WalletActivityJob) : List Projection :=
  jobs.flatMap fun job => (f.jobProjections job).1

theorem processAll_eq {s : WalletTables} :
    f.processAll s jobs = (f.projections jobs).foldl WalletTables.write s := by
  induction jobs generalizing s with
  | nil => rfl
  | cons job jobs ih =>
    rw [WalletFacts.projections, List.flatMap_cons, List.foldl_append]
    exact ih

theorem mem_projections : p ∈ f.projections jobs ↔ ∃ job ∈ jobs, p ∈ (f.jobProjections job).1 :=
  List.mem_flatMap

theorem projects_of_mem_projections (hp : p ∈ f.projections jobs) : f.Projects p := by
  obtain ⟨job, -, hp⟩ := mem_projections.mp hp
  exact projects_of_mem_jobProjections hp

/-- The rows of a holding after the jobs: those of its last projection. -/
theorem rowsOf_processAll {s : WalletTables} {h : Holding} :
    (f.processAll s jobs).rowsOf h =
      ((forHolding h (f.projections jobs)).getLast?.map Projection.rows).getD (s.rowsOf h) := by
  rw [processAll_eq]
  exact rowsOf_foldl_write fun _ hp => projects_of_mem_projections hp

/-- A job processed last has its projection stored. -/
theorem rowsOf_processAll_last {s : WalletTables} (hp : p ∈ (f.jobProjections job).1) :
    (f.processAll s (jobs ++ [job])).rowsOf p.holding = p.rows := by
  rw [rowsOf_processAll]
  have hsplit : forHolding p.holding (f.projections (jobs ++ [job])) =
      forHolding p.holding (f.projections jobs) ++
        forHolding p.holding (f.jobProjections job).1 := by
    simp [forHolding, WalletFacts.projections]
  have hmem : p ∈ forHolding p.holding (f.jobProjections job).1 :=
    List.mem_filter.mpr ⟨hp, decide_eq_true rfl⟩
  have hne : forHolding p.holding (f.jobProjections job).1 ≠ [] := List.ne_nil_of_mem hmem
  obtain ⟨q, hq⟩ := Option.isSome_iff_exists.mp (List.getLast?_isSome.mpr hne)
  obtain ⟨hqmem, hqh⟩ := List.mem_filter.mp (List.mem_of_getLast? hq)
  rw [hsplit, List.getLast?_append, hq, eq_of_mem_jobProjections hqmem hp (of_decide_eq_true hqh)]
  rfl

/-- **The rows of a wallet and token are free of the order of the jobs
exactly when** any two of the jobs' projections of them agree. -/
theorem sameRows_of_perm_iff {s : WalletTables} {h : Holding} :
    (∀ l l' : List WalletActivityJob, l.Perm jobs → l'.Perm jobs →
      SameRows ((f.processAll s l).rowsOf h) ((f.processAll s l').rowsOf h)) ↔
    ∀ p ∈ f.projections jobs, ∀ q ∈ f.projections jobs, p.holding = h → q.holding = h →
      f.Agree p q := by
  constructor
  · intro horder p hp q hq hph hqh
    obtain ⟨job, hjob, hpjob⟩ := mem_projections.mp hp
    obtain ⟨job', hjob', hqjob⟩ := mem_projections.mp hq
    have hlast : ∀ j ∈ jobs, (jobs.erase j ++ [j]).Perm jobs := fun j hj =>
      (List.perm_append_singleton j _).trans (List.perm_cons_erase hj).symm
    have hrows := horder _ _ (hlast job hjob) (hlast job' hjob')
    subst hph
    rw [rowsOf_processAll_last hpjob] at hrows
    rw [← hqh, rowsOf_processAll_last hqjob] at hrows
    exact (sameRows_iff_agree (projects_of_mem_projections hp) (projects_of_mem_projections hq)
      hqh.symm).mp hrows
  · intro hagree l l' hl hl'
    rw [rowsOf_processAll, rowsOf_processAll]
    have hperm : (forHolding h (f.projections l)).Perm (forHolding h (f.projections l')) :=
      (List.Perm.flatMap_right _ (hl.trans hl'.symm)).filter _
    have hmem : ∀ {l p}, l.Perm jobs → (forHolding h (f.projections l)).getLast? = some p →
        p ∈ f.projections jobs ∧ p.holding = h := by
      intro l p hl hp
      obtain ⟨hp, hph⟩ := List.mem_filter.mp (List.mem_of_getLast? hp)
      exact ⟨(List.Perm.flatMap_right _ hl).mem_iff.mp hp, of_decide_eq_true hph⟩
    cases hlast : (forHolding h (f.projections l)).getLast? with
    | none =>
      rw [List.getLast?_eq_none_iff] at hlast
      rw [hlast] at hperm
      rw [← hperm.nil_eq]
      exact ⟨List.Perm.refl _, List.Perm.refl _⟩
    | some p =>
      have hne : forHolding h (f.projections l') ≠ [] := fun hnil =>
        List.ne_nil_of_mem (List.mem_of_getLast? hlast) (hnil ▸ hperm).eq_nil
      obtain ⟨q, hq⟩ := Option.isSome_iff_exists.mp (List.getLast?_isSome.mpr hne)
      obtain ⟨hpmem, hph⟩ := hmem hl hlast
      obtain ⟨hqmem, hqh⟩ := hmem hl' hq
      have hrows := rows_eq_of_agree (projects_of_mem_projections hpmem)
        (projects_of_mem_projections hqmem) (hph.trans hqh.symm) (hagree p hpmem q hqmem hph hqh)
      rw [hq, Option.map_some, Option.map_some, hrows]
      exact ⟨List.Perm.refl _, List.Perm.refl _⟩

end Jobs

/-! ## Sample facts -/

/-- A purchase of token 7 by wallet 1, in the block at `block`, and its
job. -/
def SwapRow.sample (block : ℕ) (pool quote : Address) (paid bought : ℕ) : SwapRow :=
  ⟨MAINNET_CHAIN_ID, block, ⟨block⟩, ⟨block⟩, 2, pool, none, some ⟨1⟩, quote, ⟨7⟩, paid, bought,
    true⟩

def SwapRow.job (r : SwapRow) : WalletActivityJob :=
  ⟨r.chainId, r.blockNumber, r.blockHash, .swap r.transactionHash r.logIndex r.poolAddress⟩

/-- Wallet 1 bought token 7 for one quote asset, then for the other. -/
def usdgPurchase : SwapRow := .sample 1 ⟨11⟩ USDG 100 10
def wethPurchase : SwapRow := .sample 2 ⟨12⟩ WETH 5 20

/-- The facts of both purchases: the swaps and their transfers, in
canonical blocks and active pools. -/
def WalletFacts.sample : WalletFacts where
  swaps := Table.empty.insertAll [usdgPurchase, wethPurchase]
  tokenTransfers := Table.empty.insertAll
    [⟨MAINNET_CHAIN_ID, 1, ⟨1⟩, ⟨1⟩, 1, ⟨7⟩, ⟨11⟩, ⟨1⟩, 10, true⟩,
      ⟨MAINNET_CHAIN_ID, 2, ⟨2⟩, ⟨2⟩, 1, ⟨7⟩, ⟨12⟩, ⟨1⟩, 20, true⟩]
  blocks := Table.empty.insertAll
    [⟨MAINNET_CHAIN_ID, 1, ⟨1⟩, ⟨0⟩, 0, .finalized, true⟩,
      ⟨MAINNET_CHAIN_ID, 2, ⟨2⟩, ⟨1⟩, 0, .pending, true⟩]
  pools := Table.empty.insertAll
    [⟨MAINNET_CHAIN_ID, ⟨11⟩, 1, "uniswap", "2", ⟨7⟩, USDG, "constantProduct", true, true⟩,
      ⟨MAINNET_CHAIN_ID, ⟨12⟩, 1, "uniswap", "2", ⟨7⟩, WETH, "constantProduct", true, true⟩]
  dexProtocols := .singleton ⟨1, true, .active, "registry", 0, none⟩
  tokens := Table.empty.insertAll
    [⟨MAINNET_CHAIN_ID, ⟨7⟩, some 18⟩, ⟨MAINNET_CHAIN_ID, USDG, some 18⟩,
      ⟨MAINNET_CHAIN_ID, WETH, some 18⟩]
  priceObservations := ∅

/-- **The order decides the quote asset**: the rows are those of the
purchase projected last. -/
theorem not_sameRows_of_quotes :
    ¬∀ (f : WalletFacts) (s : WalletTables) (h : Holding) (l l' : List WalletActivityJob),
      l.Perm l' → SameRows ((f.processAll s l).rowsOf h) ((f.processAll s l').rowsOf h) := by
  intro h
  let holding : Holding := (MAINNET_CHAIN_ID, ⟨1⟩, ⟨7⟩)
  let l : List WalletActivityJob := [usdgPurchase.job, wethPurchase.job]
  let l' : List WalletActivityJob := [wethPurchase.job, usdgPurchase.job]
  have hl : ((WalletFacts.sample.processAll ⟨[], ∅, ∅⟩ l).rowsOf holding).2.map
      (·.quoteAssetAddress) = [WETH] := by decide
  have hl' : ((WalletFacts.sample.processAll ⟨[], ∅, ∅⟩ l').rowsOf holding).2.map
      (·.quoteAssetAddress) = [USDG] := by decide
  have hflows := (h .sample ⟨[], ∅, ∅⟩ holding l l' (.swap _ _ _)).2.map (·.quoteAssetAddress)
  rw [hl, hl'] at hflows
  exact absurd hflows (by decide)

end HoodSentry
