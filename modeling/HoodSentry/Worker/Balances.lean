import HoodSentry.Worker.Model.Transfer
import HoodSentry.Common.Lists
/-!
# Projected balances

A balance row holds the canonical amounts its wallet received less those
it sent. A transaction overwrites the row with a sum over its own
snapshot, so the row is right while no transfer of the wallet commits
between the snapshot and the write.
-/

namespace HoodSentry

/-! ## Canonical amounts -/

/-- The canonical amounts of a token a wallet received. -/
def canonicalIncoming (transfers : List TransferRow) (k : ℕ × Address × Address) : ℕ :=
  ((transfers.filter fun t =>
    t.chainId = k.1 && t.tokenAddress = k.2.1 && t.canonical && t.toAddress = k.2.2).map
      (·.amountRaw)).sum

/-- The canonical amounts of a token a wallet sent. -/
def canonicalOutgoing (transfers : List TransferRow) (k : ℕ × Address × Address) : ℕ :=
  ((transfers.filter fun t =>
    t.chainId = k.1 && t.tokenAddress = k.2.1 && t.canonical && t.fromAddress = k.2.2).map
      (·.amountRaw)).sum

/-- What a wallet's canonical transfers net to. -/
def canonicalNet (ts : List TransferRow) (k : ℕ × Address × Address) : ℤ :=
  canonicalIncoming ts k - canonicalOutgoing ts k

/-- **Every balance of a holder is its canonical sum.** -/
def BalancesSummed (tables : TokenTables) : Prop :=
  ∀ r ∈ tables.balances, r.walletAddress ≠ ZERO_ADDRESS →
    r.balanceRaw = (canonicalIncoming tables.transfers.rows r.key : ℤ) -
      canonicalOutgoing tables.transfers.rows r.key

/-- The transfers a transaction's projection has seen. -/
def Attempt.seen (a : Attempt) : List TransferRow :=
  match a.phase with
  | .upsert seen _ => seen
  | _ => []

/-- **The condition on a step**: where a transaction writes the balance of
a holder, every committed transfer of the holder is in its snapshot. -/
def FreshUpsert (w : TransferWorld) : TransferLabel → Prop
  | .statement id (.upsert holder) => ∀ a ∈ w.attempt id, ∀ t ∈ w.tables.transfers,
    t.joins a.job.chainId a.job.tokenAddress holder = true → t ∈ a.seen
  | _ => True

instance (w : TransferWorld) : ∀ i, Decidable (FreshUpsert w i)
  | .statement id (.upsert holder) =>
    inferInstanceAs (Decidable (∀ a ∈ w.attempt id, ∀ t ∈ w.tables.transfers,
      t.joins a.job.chainId a.job.tokenAddress holder = true → t ∈ a.seen))
  | .statement _ .insert | .statement _ .project | .deliver .. | .commit _ | .rollback _ =>
    inferInstanceAs (Decidable True)

/-! ## The projection -/

section Projection

variable {chainId : ℕ} {token holder : Address} {ts ts' : List TransferRow} {t : TransferRow}

/-- The projection reads the joined rows, in no order. -/
theorem projectedBalance_congr
    (h : (ts.filter (·.joins chainId token holder)).Perm
      (ts'.filter (·.joins chainId token holder))) :
    projectedBalance ts chainId token holder = projectedBalance ts' chainId token holder := by
  have hmax : LeftCommutative (max : ℕ → ℕ → ℕ) := ⟨fun a b c => by omega⟩
  simp only [projectedBalance, BalanceRow.mk.injEq, true_and]
  refine ⟨?_, (h.map _).foldr_eq _⟩
  rw [(h.map _).sum_eq, (h.map fun t => if t.fromAddress = holder then (t.amountRaw : ℤ) else 0).sum_eq]

theorem projectedBalance_append_of_not (h : t.joins chainId token holder = false) :
    projectedBalance (ts ++ [t]) chainId token holder = projectedBalance ts chainId token holder :=
  projectedBalance_congr (by simp [h])

/-- **The projection computes the canonical sum.** -/
theorem balanceRaw_projectedBalance :
    (projectedBalance ts chainId token holder).balanceRaw =
      (canonicalIncoming ts (chainId, token, holder) : ℤ) -
        canonicalOutgoing ts (chainId, token, holder) := by
  have hsum (side : TransferRow → Address) (hside : ∀ t, side t = holder →
      t.fromAddress = holder ∨ t.toAddress = holder) :
      ((ts.filter (·.joins chainId token holder)).map
        fun t => if side t = holder then (t.amountRaw : ℤ) else 0).sum =
      (((ts.filter fun t => t.chainId = chainId && t.tokenAddress = token && t.canonical &&
        side t = holder).map (·.amountRaw)).sum : ℕ) := by
    rw [sum_map_filter_ite]
    congr 3
    refine List.filter_congr fun t _ => ?_
    have := hside t
    simp only [TransferRow.joins]
    grind
  simp only [projectedBalance, canonicalIncoming, canonicalOutgoing]
  rw [hsum (·.toAddress) fun _ => Or.inr, hsum (·.fromAddress) fun _ => Or.inl]

end Projection

section Net

variable {ts ts' : List TransferRow} {k : ℕ × Address × Address}

theorem canonicalNet_append : canonicalNet (ts ++ ts') k = canonicalNet ts k + canonicalNet ts' k := by
  simp only [canonicalNet, canonicalIncoming, canonicalOutgoing, List.filter_append, List.map_append,
    List.sum_append]
  omega

/-- Only the joined rows count. -/
theorem canonicalNet_congr
    (h : (ts.filter (·.joins k.1 k.2.1 k.2.2)).Perm (ts'.filter (·.joins k.1 k.2.1 k.2.2))) :
    canonicalNet ts k = canonicalNet ts' k := by
  have hbalance := congrArg BalanceRow.balanceRaw (projectedBalance_congr h)
  rwa [balanceRaw_projectedBalance, balanceRaw_projectedBalance] at hbalance

theorem canonicalNet_filter_add (p : TransferRow → Bool) :
    canonicalNet (ts.filter p) k + canonicalNet (ts.filter fun t => !p t) k = canonicalNet ts k := by
  rw [← canonicalNet_append]
  exact canonicalNet_congr ((List.filter_append_perm p ts).filter _)

end Net

/-! ## The invariant -/

/-- What holds of a transaction in flight over the committed tables: its
transfer is not committed, the rows it wrote are the projection of what it
would commit, and its upsert has seen its transfer and has each holder
written or to write. -/
structure AttemptInvariant (blocks : Table BlockRow.key) (tables : TokenTables) (a : Attempt) :
    Prop where
  inserted : ∀ t ∈ a.inserted, t = a.job.row blocks ∧ t.key ∉ tables.transfers.keys
  fresh : a.phase = .insert → a.written = []
  written : ∀ r ∈ a.written, r.walletAddress ≠ ZERO_ADDRESS →
    r = projectedBalance (tables.snapshot a) r.chainId r.tokenAddress r.walletAddress
  seen : ∀ seen remaining, a.phase = .upsert seen remaining →
    seen.Nodup ∧ seen ⊆ tables.snapshot a ∧ a.inserted.toList ⊆ seen ∧
      ∀ h ∈ a.job.holders, h ∈ remaining ∨
        ∃ r ∈ a.written, r.key = (a.job.chainId, a.job.tokenAddress, h)

/-- Two transactions hold no key in common. -/
def Attempt.Disjoint (a b : Attempt) : Prop :=
  (∀ t ∈ a.inserted, ∀ t' ∈ b.inserted, t.key ≠ t'.key) ∧
    ∀ r ∈ a.written, ∀ r' ∈ b.written, r.key ≠ r'.key

/-- **The invariant.** -/
structure TransferInvariant (w : TransferWorld) : Prop where
  attempts : ∀ a ∈ w.attempts, AttemptInvariant w.blocks w.tables a
  disjoint : ∀ a ∈ w.attempts, ∀ b ∈ w.attempts, a.id ≠ b.id → Attempt.Disjoint a b
  balances : ∀ r ∈ w.tables.balances, r.walletAddress ≠ ZERO_ADDRESS →
    r = projectedBalance w.tables.transfers.rows r.chainId r.tokenAddress r.walletAddress

/-! ## Writes -/

section Writes

variable {balances : Table BalanceRow.key} {r row : BalanceRow} {rows : List BalanceRow}
variable {k : ℕ × Address × Address}

/-- What an upserted table holds. -/
theorem mem_upsertBalance (h : r ∈ upsertBalance balances row) :
    r = row ∨ (r ∈ balances ∧ r.key ≠ row.key) := by
  rcases Table.mem_upsert.mp h with h | ⟨old, -, hkey, rfl⟩ | ⟨rfl, -⟩
  · exact Or.inr h
  · simp only [BalanceRow.key, Prod.mk.injEq] at hkey
    obtain ⟨hchain, htoken, hwallet⟩ := hkey
    left
    cases row
    simp_all
  · exact Or.inl rfl

/-- What a list of upserts leaves: its rows, and those under other keys. -/
theorem mem_foldl_upsertBalance (h : r ∈ rows.foldl upsertBalance balances) :
    r ∈ rows ∨ (r ∈ balances ∧ ∀ row ∈ rows, r.key ≠ row.key) := by
  induction rows generalizing balances with
  | nil => exact Or.inr ⟨h, fun _ hr => absurd hr List.not_mem_nil⟩
  | cons row rows ih =>
    rcases ih h with h | ⟨h, hrows⟩
    · exact Or.inl (List.mem_cons_of_mem _ h)
    · rcases mem_upsertBalance h with rfl | ⟨h, hkey⟩
      · exact Or.inl List.mem_cons_self
      · exact Or.inr ⟨h, List.forall_mem_cons.mpr ⟨hkey, hrows⟩⟩

/-- A list of upserts leaves a row under each of its keys. -/
theorem mem_keys_foldl_upsertBalance :
    k ∈ (rows.foldl upsertBalance balances).keys ↔
      k ∈ balances.keys ∨ k ∈ rows.map BalanceRow.key := by
  induction rows generalizing balances with
  | nil => simp
  | cons row rows ih =>
    have hkeys : k ∈ (upsertBalance balances row).keys ↔ k ∈ balances.keys ∨ k = row.key :=
      Table.mem_keys_upsert
    rw [List.foldl_cons, ih, hkeys, List.map_cons, List.mem_cons, or_assoc]

end Writes

theorem mem_holders {h : Address} {addresses : List Address} :
    h ∈ holders addresses ↔ h ∈ addresses ∧ h ≠ ZERO_ADDRESS := by
  simp [holders, List.mem_eraseDups]

namespace TransferWorld

variable {w w' : TransferWorld} {a b : Attempt} {id : ℕ}

theorem mem_of_attempt (h : w.attempt id = some a) : a ∈ w.attempts ∧ a.id = id :=
  ⟨List.mem_of_find?_eq_some h, by simpa using List.find?_some h⟩

/-- The rows a transaction wrote are not those of another in flight. -/
theorem key_ne_of_not_upsertWaits {k : ℕ × Address × Address} (h : w.upsertWaits a k = false)
    (hb : b ∈ w.attempts) (hne : b.id ≠ a.id) : ∀ r ∈ b.written, r.key ≠ k := by
  intro r hr hk
  have := List.any_eq_false.mp h b hb
  simp only [hne, ne_eq, not_false_iff, decide_true, Bool.true_and, List.any_eq_true,
    decide_eq_true_eq, not_exists, not_and] at this
  exact this r hr hk

theorem key_ne_of_not_insertWaits {k : ℕ × Hash × Hash × ℕ} (h : w.insertWaits a k = false)
    (hb : b ∈ w.attempts) (hne : b.id ≠ a.id) : ∀ t ∈ b.inserted, t.key ≠ k := by
  intro t ht hk
  have := List.any_eq_false.mp h b hb
  simp only [hne, ne_eq, not_false_iff, decide_true, Bool.true_and, Option.any_eq_true,
    decide_eq_true_eq, not_exists, not_and] at this
  exact this t ht hk

/-- **What a statement can do** to its transaction. -/
theorem runStatement_cases {s : TransferStatement} {a' : Attempt}
    (h : w.runStatement a s = some a') :
    (s = .insert ∧ a.phase = .insert ∧ a' = { a with phase := .project }) ∨
    (s = .insert ∧ a.phase = .insert ∧ w.insertWaits a (a.job.row w.blocks).key = false ∧
      (a.job.row w.blocks).key ∉ w.tables.transfers.keys ∧
      a' = { a with phase := .project, inserted := some (a.job.row w.blocks) }) ∨
    (s = .project ∧ a.phase = .project ∧
      a' = { a with phase := .upsert (w.tables.snapshot a) a.job.holders }) ∨
    (∃ holder seen remaining, s = .upsert holder ∧ a.phase = .upsert seen remaining ∧
      holder ∈ remaining ∧
      w.upsertWaits a (a.job.chainId, a.job.tokenAddress, holder) = false ∧
      a' = { a with
        phase := .upsert seen (remaining.erase holder)
        written := a.written ++
          [projectedBalance seen a.job.chainId a.job.tokenAddress holder] }) := by
  cases s with
  | insert =>
    simp only [runStatement, Option.ite_none_left_eq_some, not_or, not_not] at h
    obtain ⟨⟨hphase, hwaits⟩, h⟩ := h
    split at h
    · exact Or.inl ⟨rfl, hphase, (Option.some.inj h).symm⟩
    · rename_i hfree
      exact Or.inr (Or.inl
        ⟨rfl, hphase, Bool.eq_false_iff.mpr hwaits, hfree, (Option.some.inj h).symm⟩)
  | project =>
    simp only [runStatement, Option.ite_none_left_eq_some, not_not] at h
    exact Or.inr (Or.inr (Or.inl ⟨rfl, h.1, (Option.some.inj h.2).symm⟩))
  | upsert holder =>
    simp only [runStatement] at h
    split at h
    · rename_i seen remaining hphase
      simp only [Option.ite_none_left_eq_some, not_or, not_not] at h
      obtain ⟨⟨hmem, hwaits⟩, h⟩ := h
      exact Or.inr (Or.inr (Or.inr ⟨holder, seen, remaining, rfl, hphase, hmem,
        Bool.eq_false_iff.mpr hwaits, (Option.some.inj h).symm⟩))
    · exact absurd h (by simp)

end TransferWorld

/-! ## Statements keep the invariant -/

section Statement

variable {w : TransferWorld} {a a' b : Attempt} {tables : TokenTables}

theorem Attempt.Disjoint.symm (h : a.Disjoint b) : b.Disjoint a :=
  ⟨fun t ht t' ht' => (h.1 t' ht' t ht).symm, fun r hr r' hr' => (h.2 r' hr' r hr).symm⟩

theorem TokenTables.mem_snapshot {t : TransferRow} :
    t ∈ tables.snapshot a ↔ t ∈ tables.transfers ∨ t ∈ a.inserted := by
  rw [snapshot, List.mem_append, Option.mem_toList, Table.mem_iff, Option.mem_def]

theorem TokenTables.nodup_snapshot (h : ∀ t ∈ a.inserted, t.key ∉ tables.transfers.keys) :
    (tables.snapshot a).Nodup := by
  refine List.nodup_append.mpr ⟨tables.transfers.unique.of_map _, ?_, fun t ht t' ht' => ?_⟩
  · cases a.inserted <;> simp
  · rintro rfl
    exact h t (Option.mem_toList.mp ht') (Table.key_mem_keys ht)

/-- A fresh upsert writes the projection of what its transaction would
commit. -/
theorem projectedBalance_seen (ha : AttemptInvariant w.blocks w.tables a) {holder : Address}
    {seen : List TransferRow} {remaining : List Address} (hphase : a.phase = .upsert seen remaining)
    (hC : ∀ t ∈ w.tables.transfers,
      t.joins a.job.chainId a.job.tokenAddress holder = true → t ∈ a.seen) :
    projectedBalance seen a.job.chainId a.job.tokenAddress holder =
      projectedBalance (w.tables.snapshot a) a.job.chainId a.job.tokenAddress holder := by
  obtain ⟨hnodup, hsub, hown, -⟩ := ha.seen seen remaining hphase
  have hsnapshot := TokenTables.nodup_snapshot fun t ht => (ha.inserted t ht).2
  refine projectedBalance_congr ((List.perm_ext_iff_of_nodup (hnodup.filter _)
    (hsnapshot.filter _)).mpr fun t => ?_)
  rw [List.mem_filter, List.mem_filter]
  refine and_congr_left fun hjoins => ⟨fun ht => hsub ht, fun ht => ?_⟩
  rcases TokenTables.mem_snapshot.mp ht with ht | ht
  · have := hC t ht hjoins
    rwa [Attempt.seen, hphase] at this
  · exact hown (Option.mem_toList.mpr ht)

theorem attemptInvariant_runStatement {s : TransferStatement}
    (ha : AttemptInvariant w.blocks w.tables a)
    (hC : ∀ holder, s = .upsert holder → ∀ t ∈ w.tables.transfers,
      t.joins a.job.chainId a.job.tokenAddress holder = true → t ∈ a.seen)
    (h : w.runStatement a s = some a') : AttemptInvariant w.blocks w.tables a' := by
  rcases TransferWorld.runStatement_cases h with ⟨-, hphase, rfl⟩ |
    ⟨-, hphase, -, hfree, rfl⟩ | ⟨-, hphase, rfl⟩ |
    ⟨holder, seen, remaining, hs, hphase, hmem, -, rfl⟩
  · exact {
      inserted := ha.inserted
      fresh := fun hp => absurd hp (by simp)
      written := ha.written
      seen := fun _ _ hp => absurd hp (by simp) }
  · refine {
      inserted := fun t ht => ?_
      fresh := fun hp => absurd hp (by simp)
      written := fun r hr => absurd hr ?_
      seen := fun _ _ hp => absurd hp (by simp) }
    · obtain rfl := Option.some.inj ht
      exact ⟨rfl, hfree⟩
    · rw [ha.fresh hphase]
      exact List.not_mem_nil
  · refine {
      inserted := ha.inserted
      fresh := fun hp => absurd hp (by simp)
      written := ha.written
      seen := fun seen remaining hp => ?_ }
    obtain ⟨rfl, rfl⟩ := TransferPhase.upsert.inj hp
    exact ⟨TokenTables.nodup_snapshot fun t ht => (ha.inserted t ht).2, fun _ ht => ht,
      fun _ ht => List.mem_append_right _ ht, fun _ hh => Or.inl hh⟩
  · refine {
      inserted := ha.inserted
      fresh := fun hp => absurd hp (by simp)
      written := fun r hr hwallet => ?_
      seen := fun seen' remaining' hp => ?_ }
    · rcases List.mem_append.mp hr with hr | hr
      · exact ha.written r hr hwallet
      · obtain rfl := List.mem_singleton.mp hr
        exact projectedBalance_seen ha hphase (hC holder hs)
    · obtain ⟨rfl, rfl⟩ := TransferPhase.upsert.inj hp
      obtain ⟨hnodup, hsub, hown, hholders⟩ := ha.seen seen remaining hphase
      refine ⟨hnodup, hsub, hown, fun h hh => ?_⟩
      rcases hholders h hh with hrem | ⟨r, hr, hkey⟩
      · by_cases heq : h = holder
        · subst heq
          exact Or.inr ⟨_, List.mem_append_right _ List.mem_cons_self, rfl⟩
        · exact Or.inl ((List.mem_erase_of_ne heq).mpr hrem)
      · exact Or.inr ⟨r, List.mem_append_left _ hr, hkey⟩

/-- A statement waits for the keys of the others, so it shares none. -/
theorem disjoint_runStatement {s : TransferStatement} (hb : b ∈ w.attempts) (hne : b.id ≠ a.id)
    (hab : a.Disjoint b) (h : w.runStatement a s = some a') : a'.Disjoint b := by
  rcases TransferWorld.runStatement_cases h with ⟨-, -, rfl⟩ | ⟨-, -, hwaits, -, rfl⟩ |
    ⟨-, -, rfl⟩ | ⟨holder, seen, remaining, -, -, -, hwaits, rfl⟩
  · exact hab
  · refine ⟨fun t ht t' ht' => ?_, hab.2⟩
    obtain rfl := Option.some.inj ht
    exact (TransferWorld.key_ne_of_not_insertWaits hwaits hb hne t' ht').symm
  · exact hab
  · refine ⟨hab.1, fun r hr r' hr' => ?_⟩
    rcases List.mem_append.mp hr with hr | hr
    · exact hab.2 r hr r' hr'
    · obtain rfl := List.mem_singleton.mp hr
      exact (TransferWorld.key_ne_of_not_upsertWaits hwaits hb hne r' hr').symm

theorem id_runStatement {s : TransferStatement} (h : w.runStatement a s = some a') :
    a'.id = a.id := by
  rcases TransferWorld.runStatement_cases h with ⟨-, -, rfl⟩ | ⟨-, -, -, -, rfl⟩ |
    ⟨-, -, rfl⟩ | ⟨_, _, _, -, -, -, -, rfl⟩ <;> rfl

end Statement

/-! ## Commits keep the invariant -/

section Commit

variable {w : TransferWorld} {a b : Attempt} {tables : TokenTables} {chainId : ℕ}
variable {token holder : Address}

/-- The committed transfers with those of a transaction. -/
theorem TokenTables.rows_commit (h : ∀ t ∈ a.inserted, t.key ∉ tables.transfers.keys) :
    (tables.transfers.insertAll a.inserted.toList).rows = tables.snapshot a := by
  cases hi : a.inserted with
  | none => simp [TokenTables.snapshot, hi]
  | some t =>
    rw [Option.toList_some, Table.insertAll_cons, Table.insertAll_nil,
      Table.rows_insertNew (h t hi), TokenTables.snapshot, hi, Option.toList_some]

/-- **A commit has written every balance its transfer moves.** -/
theorem exists_written_of_joins (ha : AttemptInvariant w.blocks w.tables a)
    {seen : List TransferRow} (hphase : a.phase = .upsert seen []) {t : TransferRow}
    (ht : t ∈ a.inserted) (hjoins : t.joins chainId token holder = true)
    (hholder : holder ≠ ZERO_ADDRESS) : ∃ r ∈ a.written, r.key = (chainId, token, holder) := by
  have hrow := (ha.inserted t ht).1
  simp only [TransferRow.joins, Bool.and_eq_true, Bool.or_eq_true, decide_eq_true_eq] at hjoins
  obtain ⟨⟨⟨hchain, htoken⟩, -⟩, hside⟩ := hjoins
  have hmem : holder ∈ a.job.holders := by
    refine mem_holders.mpr ⟨?_, hholder⟩
    rw [hrow] at hside
    simpa [TransferJob.row, eq_comm] using hside
  obtain ⟨r, hr, hkey⟩ := ((ha.seen seen [] hphase).2.2.2 holder hmem).resolve_left List.not_mem_nil
  refine ⟨r, hr, ?_⟩
  rw [hkey, ← hchain, ← htoken, hrow]
  rfl

/-- A balance the committing transaction has not written is moved by none
of its transfers. -/
theorem projectedBalance_commit (ha : AttemptInvariant w.blocks w.tables a)
    {seen : List TransferRow} (hphase : a.phase = .upsert seen [])
    (hholder : holder ≠ ZERO_ADDRESS) (hkey : ∀ r ∈ a.written, r.key ≠ (chainId, token, holder))
    (later : List TransferRow) :
    projectedBalance (w.tables.snapshot a ++ later) chainId token holder =
      projectedBalance (w.tables.transfers.rows ++ later) chainId token holder := by
  refine projectedBalance_congr ?_
  have hnone : a.inserted.toList.filter (·.joins chainId token holder) = [] := by
    refine List.filter_eq_nil_iff.mpr fun t ht hjoins => ?_
    obtain ⟨r, hr, hrkey⟩ :=
      exists_written_of_joins ha hphase (Option.mem_toList.mp ht) hjoins hholder
    exact hkey r hr hrkey
  rw [TokenTables.snapshot, List.filter_append, List.filter_append, hnone, List.append_nil,
    ← List.filter_append]

/-- The others in flight keep their invariant through a commit. -/
theorem attemptInvariant_commit (ha : AttemptInvariant w.blocks w.tables a)
    (hb : AttemptInvariant w.blocks w.tables b) (hab : a.Disjoint b)
    {seen : List TransferRow} (hphase : a.phase = .upsert seen []) :
    AttemptInvariant w.blocks (w.commitAttempt a).tables b := by
  have hrows : (w.commitAttempt a).tables.transfers.rows = w.tables.snapshot a :=
    TokenTables.rows_commit fun t ht => (ha.inserted t ht).2
  have hsnapshot : (w.commitAttempt a).tables.snapshot b =
      w.tables.snapshot a ++ b.inserted.toList := by
    rw [TokenTables.snapshot, hrows]
  refine {
    inserted := fun t ht => ⟨(hb.inserted t ht).1, fun hk => ?_⟩
    fresh := hb.fresh
    written := fun r hr hwallet => ?_
    seen := fun seen' remaining hp => ?_ }
  · rcases Table.mem_keys_insertAll.mp hk with hk | hk
    · exact (hb.inserted t ht).2 hk
    · obtain ⟨t', ht', hkey⟩ := List.mem_map.mp hk
      exact hab.1 t' (Option.mem_toList.mp ht') t ht hkey
  · rw [hsnapshot, projectedBalance_commit ha hphase hwallet
      (fun r' hr' => hab.2 r' hr' r hr)]
    exact hb.written r hr hwallet
  · obtain ⟨hnodup, hsub, hrest⟩ := hb.seen seen' remaining hp
    refine ⟨hnodup, fun t ht => ?_, hrest⟩
    rw [hsnapshot]
    rcases List.mem_append.mp (hsub ht) with ht | ht
    · exact List.mem_append_left _ (List.mem_append_left _ ht)
    · exact List.mem_append_right _ ht

/-- **The balances after a commit**: those it wrote are the projection of
its snapshot, and the others are moved by nothing it commits. -/
theorem balances_commit (hw : TransferInvariant w) (ha : AttemptInvariant w.blocks w.tables a)
    {seen : List TransferRow} (hphase : a.phase = .upsert seen []) :
    ∀ r ∈ (w.commitAttempt a).tables.balances, r.walletAddress ≠ ZERO_ADDRESS →
      r = projectedBalance (w.commitAttempt a).tables.transfers.rows r.chainId r.tokenAddress
        r.walletAddress := by
  have hrows : (w.commitAttempt a).tables.transfers.rows = w.tables.snapshot a :=
    TokenTables.rows_commit fun t ht => (ha.inserted t ht).2
  intro r hr hwallet
  rw [hrows]
  rcases mem_foldl_upsertBalance hr with hr | ⟨hr, hkeys⟩
  · exact ha.written r hr hwallet
  · have hsame := projectedBalance_commit ha hphase hwallet (fun row hrow => (hkeys row hrow).symm) []
    rw [List.append_nil, List.append_nil] at hsame
    rw [hsame]
    exact hw.balances r hr hwallet

end Commit

/-! ## Runs -/

variable {w w' : TransferWorld}

/-- **The step lemma.** -/
theorem transferInvariant_step {i : TransferLabel} (hw : TransferInvariant w)
    (hC : FreshUpsert w i) (hs : w.step i = some w') : TransferInvariant w' := by
  cases i with
  | deliver id job =>
    simp only [TransferWorld.step, Option.ite_none_left_eq_some] at hs
    obtain ⟨hid, hs⟩ := hs
    obtain rfl := Option.some.inj hs
    refine { hw with attempts := fun a ha => ?_, disjoint := fun a ha b hb hne => ?_ }
    · rcases Table.mem_insertNew.mp ha with ha | ⟨rfl, -⟩
      · exact hw.attempts a ha
      · exact {
          inserted := fun _ ht => absurd ht (Option.not_mem_none _)
          fresh := fun _ => rfl
          written := fun _ hr => absurd hr List.not_mem_nil
          seen := fun _ _ hp => absurd hp (by simp) }
    · rcases Table.mem_insertNew.mp ha with ha | ⟨rfl, -⟩
      · rcases Table.mem_insertNew.mp hb with hb | ⟨rfl, -⟩
        · exact hw.disjoint a ha b hb hne
        · exact ⟨fun _ _ _ ht => absurd ht (Option.not_mem_none _),
            fun _ _ _ hr => absurd hr List.not_mem_nil⟩
      · exact ⟨fun _ ht => absurd ht (Option.not_mem_none _),
          fun _ hr => absurd hr List.not_mem_nil⟩
  | statement id s =>
    obtain ⟨a, ha, hs⟩ := Option.bind_eq_some_iff.mp hs
    obtain ⟨a', ha', rfl⟩ := Option.map_eq_some_iff.mp hs
    obtain ⟨hmem, hid⟩ := TransferWorld.mem_of_attempt ha
    have hid' := id_runStatement ha'
    have hinv : AttemptInvariant w.blocks w.tables a' := by
      refine attemptInvariant_runStatement (hw.attempts a hmem) (fun holder heq => ?_) ha'
      subst heq
      exact hC a ha
    have hdisjoint : ∀ b ∈ w.attempts, b.id ≠ a'.id → a'.Disjoint b := fun b hb hne =>
      disjoint_runStatement hb (hid' ▸ hne) (hw.disjoint a hmem b hb (hid' ▸ hne.symm)) ha'
    refine { hw with attempts := fun b hb => ?_, disjoint := fun b hb c hc hne => ?_ }
    · rcases Table.mem_put.mp hb with ⟨hb, -⟩ | rfl
      · exact hw.attempts b hb
      · exact hinv
    · rcases Table.mem_put.mp hb with ⟨hbmem, hbne⟩ | rfl
      · rcases Table.mem_put.mp hc with ⟨hcmem, -⟩ | rfl
        · exact hw.disjoint b hbmem c hcmem hne
        · exact (hdisjoint b hbmem hbne).symm
      · rcases Table.mem_put.mp hc with ⟨hcmem, hcne⟩ | rfl
        · exact hdisjoint c hcmem hcne
        · exact absurd rfl hne
  | commit id =>
    obtain ⟨a, ha, hs⟩ := Option.bind_eq_some_iff.mp hs
    obtain ⟨hmem, -⟩ := TransferWorld.mem_of_attempt ha
    have hainv := hw.attempts a hmem
    split at hs
    · rename_i seen hphase
      obtain rfl := Option.some.inj hs
      refine {
        attempts := fun b hb => ?_
        disjoint := fun b hb c hc hne => ?_
        balances := balances_commit hw hainv hphase }
      · obtain ⟨hb, hne⟩ := Table.mem_deleteWhere.mp hb
        exact attemptInvariant_commit hainv (hw.attempts b hb)
          (hw.disjoint a hmem b hb fun h => of_decide_eq_false hne h.symm) hphase
      · exact hw.disjoint b (Table.mem_deleteWhere.mp hb).1 c (Table.mem_deleteWhere.mp hc).1 hne
    · exact absurd hs (by simp)
  | rollback id =>
    obtain ⟨a, ha, rfl⟩ := Option.map_eq_some_iff.mp hs
    exact { hw with
      attempts := fun b hb => hw.attempts b (Table.mem_deleteWhere.mp hb).1
      disjoint := fun b hb c hc hne =>
        hw.disjoint b (Table.mem_deleteWhere.mp hb).1 c (Table.mem_deleteWhere.mp hc).1 hne }

/-- **No balance update is lost** in a run whose upserts are all fresh. -/
theorem balancesSummed_of_reaches (h : transferMachine.Reaches FreshUpsert w) :
    BalancesSummed w.tables := by
  have hinv : TransferInvariant w := by
    refine h.invariant (fun s hs => ?_) fun s i s' hI hC hstep =>
      transferInvariant_step hI hC hstep
    obtain ⟨htables, hattempts, -⟩ := hs
    exact {
      attempts := fun a ha => absurd (hattempts ▸ ha) (Table.notMem_empty a)
      disjoint := fun a ha => absurd (hattempts ▸ ha) (Table.notMem_empty a)
      balances := fun r hr => absurd (htables ▸ hr) (Table.notMem_empty r) }
  intro r hr hwallet
  have hrow := congrArg BalanceRow.balanceRaw (hinv.balances r hr hwallet)
  rw [hrow, balanceRaw_projectedBalance]
  rfl

/-! ## A transaction alone -/

/-- The labels of a job delivered with nothing beside it. -/
def TransferJob.alone (job : TransferJob) (id : ℕ) : List TransferLabel :=
  [.deliver id job, .statement id .insert, .statement id .project] ++
    job.holders.map (fun holder => .statement id (.upsert holder)) ++ [.commit id]

namespace TransferWorld

variable {a a' : Attempt} {job : TransferJob}

/-- The world with one transaction in flight. -/
def only (w : TransferWorld) (a : Attempt) : TransferWorld :=
  { w with attempts := .singleton a }

@[simp] theorem attempt_only : (w.only a).attempt a.id = some a := by
  simp [attempt, only, Table.singleton]

/-- Alone it waits for nothing. -/
@[simp] theorem insertWaits_only {k : ℕ × Hash × Hash × ℕ} :
    (w.only a).insertWaits a k = false := by
  simp [insertWaits, only, Table.singleton]

@[simp] theorem upsertWaits_only {k : ℕ × Address × Address} :
    (w.only a).upsertWaits a k = false := by
  simp [upsertWaits, only, Table.singleton]

theorem step_only {s : TransferStatement} (h : (w.only a).runStatement a s = some a') :
    (w.only a).step (.statement a.id s) = some (w.only a') := by
  rw [step, attempt_only, Option.bind_some, h, Option.map_some, only, only,
    Table.put_singleton (id_runStatement h).symm]

/-- The upserts of a transaction alone, and its commit. -/
theorem exec_upserts_only {seen : List TransferRow} {remaining : List Address}
    (hphase : a.phase = .upsert seen remaining) :
    transferMachine.exec (w.only a)
      (remaining.map (fun holder => .statement a.id (.upsert holder)) ++ [.commit a.id]) =
    some { w with
      tables :=
        { transfers := w.tables.transfers.insertAll a.inserted.toList
          balances := (a.written ++ remaining.map (projectedBalance seen a.job.chainId
            a.job.tokenAddress)).foldl upsertBalance w.tables.balances }
      attempts := ∅
      done := a.job :: w.done } := by
  induction remaining generalizing a with
  | nil =>
    have hcommit : (w.only a).step (.commit a.id) = some ((w.only a).commitAttempt a) := by
      simp only [step, attempt_only, Option.bind_some, hphase]
    have hattempts : ((w.only a).commitAttempt a).attempts = ∅ :=
      Table.deleteWhere_singleton (decide_eq_true rfl)
    simp only [List.map_nil, List.nil_append, List.append_nil, Machine.exec, transferMachine,
      hcommit, Option.bind_some]
    rw [← hattempts]
    rfl
  | cons holder remaining ih =>
    let row := projectedBalance seen a.job.chainId a.job.tokenAddress holder
    let a' : Attempt := { a with phase := .upsert seen remaining, written := a.written ++ [row] }
    have hrun : (w.only a).runStatement a (.upsert holder) = some a' := by
      simp only [runStatement, hphase]
      rw [if_neg (by simp), List.erase_cons_head]
    have hrest := ih (a := a') rfl
    simp only [List.map_cons, List.cons_append, Machine.exec]
    rw [show transferMachine.step (w.only a) (.statement a.id (.upsert holder)) = _ from
      step_only hrun, Option.bind_some, hrest]
    simp only [a', row, List.append_assoc, List.singleton_append]

/-- **A transaction alone is the processor.** Delivered with nothing
beside it, a job commits what `processTokenTransfer` computes. -/
theorem exec_alone (id : ℕ) (hw : w.attempts = ∅) :
    transferMachine.exec w (job.alone id) = some { w with
      tables := processTokenTransfer w.blocks w.tables job
      done := job :: w.done } := by
  let row := job.row w.blocks
  let inserted := if row.key ∈ w.tables.transfers.keys then none else some row
  let a₀ : Attempt := ⟨id, job, .insert, none, []⟩
  let a₁ : Attempt := ⟨id, job, .project, inserted, []⟩
  let a₂ : Attempt := ⟨id, job, .upsert (w.tables.snapshot a₁) job.holders, inserted, []⟩
  have hrows : (w.tables.transfers.insertAll inserted.toList).rows = w.tables.snapshot a₁ :=
    TokenTables.rows_commit (a := a₁) fun t ht => by
      simp only [a₁, inserted, Option.mem_def, Option.ite_none_left_eq_some] at ht
      exact Option.some.inj ht.2 ▸ ht.1
  have htransfers : w.tables.transfers.insertAll inserted.toList =
      w.tables.transfers.insertNew row := by
    by_cases hk : row.key ∈ w.tables.transfers.keys
    · simp [inserted, hk, Table.insertNew]
    · simp [inserted, hk]
  have hdeliver : transferMachine.step w (.deliver id job) = some (w.only a₀) := by
    have hfree : id ∉ w.attempts.keys := by
      rw [hw]
      exact List.not_mem_nil
    simp only [transferMachine, step, hw] at hfree ⊢
    rw [if_neg hfree, Table.insertNew_empty]
    rfl
  have hinsert : (w.only a₀).runStatement a₀ .insert = some a₁ := by
    have hnext : (w.only a₀).runStatement a₀ .insert =
        if row.key ∈ w.tables.transfers.keys then some { a₀ with phase := .project }
        else some { a₀ with phase := .project, inserted := some row } :=
      if_neg (by simp [a₀])
    rw [hnext]
    by_cases hk : row.key ∈ w.tables.transfers.keys
    · simp only [a₀, a₁, inserted, hk, if_true]
    · simp only [a₀, a₁, inserted, hk, if_false]
  have hproject : (w.only a₁).runStatement a₁ .project = some a₂ := rfl
  have hupserts := exec_upserts_only (w := w) (a := a₂) rfl
  simp only [TransferJob.alone, List.cons_append, List.nil_append, Machine.exec]
  rw [hdeliver, Option.bind_some,
    show transferMachine.step (w.only a₀) (.statement id .insert) = _ from step_only hinsert,
    Option.bind_some,
    show transferMachine.step (w.only a₁) (.statement id .project) = _ from step_only hproject,
    Option.bind_some, hupserts, processTokenTransfer, projectTokenBalances]
  simp only [a₂, List.nil_append, htransfers, ← hrows, hw]
  rfl

end TransferWorld

/-! ## Sample runs -/

/-- The block at 5, stored as canonical, and empty tables. -/
def TransferWorld.empty : TransferWorld :=
  ⟨Table.singleton ⟨1, 5, ⟨5⟩, ⟨4⟩, 0, .pending, true⟩, ⟨∅, ∅⟩, ∅, []⟩

/-- A transfer of token 7 in the block at 5. -/
def TransferJob.sample (logIndex : ℕ) (fromAddress toAddress : Address) (valueRaw : ℕ) :
    TransferJob :=
  ⟨1, 5, ⟨5⟩, ⟨7⟩, fromAddress, toAddress, ⟨1⟩, logIndex, valueRaw⟩

/-- Two mints to one wallet. -/
def firstMint : TransferJob := .sample 0 ZERO_ADDRESS ⟨8⟩ 100
def secondMint : TransferJob := .sample 1 ZERO_ADDRESS ⟨8⟩ 50

/-- One after the other, the first redelivered, they sum. -/
theorem balancesSummed_of_serial :
    ∃ w, transferMachine.exec .empty (firstMint.alone 0 ++ secondMint.alone 1 ++
        firstMint.alone 2) = some w ∧
      w.tables.balances.rows = [⟨1, ⟨7⟩, ⟨8⟩, 150, 5⟩] ∧ BalancesSummed w.tables := by
  have hmeets : transferMachine.Meets FreshUpsert .empty (firstMint.alone 0 ++
      secondMint.alone 1 ++ firstMint.alone 2) := by decide
  exact ⟨_, rfl, by decide, balancesSummed_of_reaches
    (Machine.Reaches.exec (.init ⟨rfl, rfl, rfl⟩) hmeets rfl)⟩

theorem exec_alone_firstMint : transferMachine.exec .empty (firstMint.alone 0) = some
    { TransferWorld.empty with
      tables := processTokenTransfer TransferWorld.empty.blocks TransferWorld.empty.tables firstMint
      done := [firstMint] } :=
  TransferWorld.exec_alone 0 rfl

/-- Both insert, both read, and both write. -/
def overlappingMints : List TransferLabel :=
  [.deliver 0 firstMint, .deliver 1 secondMint, .statement 0 .insert, .statement 1 .insert,
    .statement 0 .project, .statement 1 .project, .statement 0 (.upsert ⟨8⟩), .commit 0,
    .statement 1 (.upsert ⟨8⟩), .commit 1]

/-- **An update can be lost**: the second of two overlapping transactions
overwrites the balance with a sum that misses the first one's transfer. -/
theorem not_balancesSummed_of_overlap :
    ¬∀ (jobs : List TransferJob) (w : TransferWorld), transferMachine.Reachable w →
      (∀ job ∈ jobs, (job.row w.blocks).canonical = true) → (∀ job ∈ jobs, job ∈ w.done) →
      BalancesSummed w.tables := by
  intro h
  have hvalues : (transferMachine.exec .empty overlappingMints).map
      (fun w => (w.blocks.rows, w.done, w.tables.transfers.rows, w.tables.balances.rows)) =
      some (TransferWorld.empty.blocks.rows, [secondMint, firstMint],
        [firstMint.row TransferWorld.empty.blocks, secondMint.row TransferWorld.empty.blocks],
        [⟨1, ⟨7⟩, ⟨8⟩, 50, 5⟩]) := by decide
  obtain ⟨w, hw, hvalues⟩ := Option.map_eq_some_iff.mp hvalues
  simp only [Prod.mk.injEq] at hvalues
  obtain ⟨hblocks, hdone, htransfers, hbalances⟩ := hvalues
  have hcanonical : ∀ job ∈ w.done, (job.row w.blocks).canonical = true := by
    rw [Table.ext hblocks, hdone]
    decide
  have hsum := h w.done w (Machine.reachable_of_exec ⟨rfl, rfl, rfl⟩ hw) hcanonical
    (fun _ hj => hj) ⟨1, ⟨7⟩, ⟨8⟩, 50, 5⟩ (Table.mem_iff.mpr (hbalances ▸ List.mem_cons_self))
    (by decide)
  rw [htransfers] at hsum
  exact absurd hsum (by decide)

end HoodSentry
